import ConfigReconcile.Store.Basic
import ConfigReconcile.Store.Files

/-!
# Files in memory

`Memory` holds files and the directories that have been made.  A file can be written where its
parent is known, or empty, or a bare root.  All but `write` and reading an absent file succeed.

* `insert`          a file, and the directories above it;
* `write?`          a file below a directory that is there;
* `read?_write?`    what is written is read back, and nothing else changes.
-/

namespace ConfigReconcile

open Text

structure Memory where
  files : Files := ∅
  directories : List (List Path.Component) := []
  deriving DecidableEq, Inhabited

namespace Memory

/-- a directory with all that is above it -/
def makeDirectory (m : Memory) (d : Path) : Memory :=
  { m with directories := m.directories ++ d.ancestors.filter (· ∉ m.directories) }

/-- whether a file can be written at a path: what is above it is there or needs no making -/
def hasPlace (m : Memory) (p : Path) : Bool :=
  match p.parent? with
  | none => true
  | some d => d.parent? = none || d.components ∈ m.directories

def read? (m : Memory) (p : Path) : Option Bytes := m.files.get? p

def insert (m : Memory) (p : Path) (b : Bytes) : Memory :=
  let made := (p.parent?.map m.makeDirectory).getD m
  { made with files := made.files.insert p b }

def write? (m : Memory) (p : Path) (b : Bytes) : Option Memory :=
  if m.hasPlace p then some { m with files := m.files.insert p b } else none

def remove (m : Memory) (p : Path) : Memory := { m with files := m.files.erase p }

/-- the files right below a directory -/
def list (m : Memory) (d : Path) : List Path :=
  m.files.paths.filter fun p =>
    match p.parent? with
    | some q => q.key = d.key
    | none => false

def paths (m : Memory) : List Path := m.files.paths

/-- the text of a file, with a replacement character for what is no text -/
def text? (m : Memory) (p : Path) : Option String := (m.read? p).map Utf8.repair

theorem read?_write? {m m' : Memory} {p : Path} {b : Bytes} (h : m.write? p b = some m')
    (q : Path) : m'.read? q = if p.key = q.key then some b else m.read? q := by
  unfold write? at h
  split at h
  · cases h; simp [read?]
  · cases h

theorem read?_remove (m : Memory) (p q : Path) :
    (m.remove p).read? q = if p.key = q.key then none else m.read? q := by
  simp [read?, remove]

@[simp] theorem files_makeDirectory (m : Memory) (d : Path) :
    (m.makeDirectory d).files = m.files := rfl

theorem read?_insert (m : Memory) (p q : Path) (b : Bytes) :
    (m.insert p b).read? q = if p.key = q.key then some b else m.read? q := by
  unfold insert
  cases p.parent? <;> simp [read?]

theorem mem_directories_makeDirectory {m : Memory} {d : Path} {c : List Path.Component} :
    c ∈ (m.makeDirectory d).directories ↔ c ∈ m.directories ∨ c ∈ d.ancestors := by
  simp only [makeDirectory, List.mem_append, List.mem_filter, decide_eq_true_eq]
  grind

/-! ## the operations of a store -/

instance : Store Memory where
  isFile p := fun m => .ok (m.read? p).isSome m
  read p := fun m =>
    match m.read? p with
    | some b => .ok b m
    | none => .error (.notFound p) m
  write p b := fun m =>
    match m.write? p b with
    | some m' => .ok () m'
    | none => .error (.ofOperation "write" p true "parent directory missing") m
  remove p := fun m => .ok () (m.remove p)
  makeDirectory p := fun m => .ok () (m.makeDirectory p)
  list d := fun m => .ok (m.list d) m

end Memory

end ConfigReconcile
