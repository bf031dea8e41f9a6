import ConfigReconcile.Store.Basic

/-!
# Files on a disk

`Disk` is a tree of directories and files, seen from the directory in which the program works.
A path is walked piece by piece: each piece but the last leads through a directory, and so does
the last one if a slash or a dot follows.

* `walk`, `status`      what a path leads to;
* `entrance`            the directory in which the last step of a path stands, and that step;
* `createDirectory`     one directory;
* `createDirectories`   a directory and those above it that are not there;
* `replace`             a file, new or in place of an old one.

A file is replaced by way of another one beside it, so its directory must be there, and its path
must not end as that of a directory does.
-/

namespace ConfigReconcile

open Text

/-- the steps from the working directory -/
abbrev Place := List (List Char)

/-- what stands at a place -/
inductive Disk.Entry where
  | file (bytes : Bytes)
  | directory
  deriving DecidableEq, Repr

/-- why an operation is refused -/
inductive Disk.Fault where
  | absent
  | notDirectory
  | isDirectory
  | present
  | nameTooLong
  | badName
  deriving DecidableEq, Repr

structure Disk where
  entries : List (Place × Disk.Entry) := []
  deriving DecidableEq, Inhabited

namespace Disk

def Fault.message : Fault → String
  | .absent => "No such file or directory"
  | .notDirectory => "Not a directory"
  | .isDirectory => "Is a directory"
  | .present => "File exists"
  | .nameTooLong => "File name too long"
  | .badName => "file name contained an unexpected NUL byte"

/-! ## places -/

/-- what stands at a place; the working directory is always there -/
def entry? (d : Disk) (at_ : Place) : Option Entry :=
  if at_ = [] then some .directory else (d.entries.find? (·.1 = at_)).map (·.2)

def put (d : Disk) (at_ : Place) (e : Entry) : Disk :=
  ⟨d.entries.filter (·.1 ≠ at_) ++ [(at_, e)]⟩

def takeAway (d : Disk) (at_ : Place) : Disk := ⟨d.entries.filter (·.1 ≠ at_)⟩

/-! ## paths -/

def maxName : Nat := 255

def maxPath : Nat := 4095

/-- nothing, if a place is a directory -/
def enter (d : Disk) (at_ : Place) : Except Fault Unit :=
  match d.entry? at_ with
  | some .directory => .ok ()
  | some (.file _) => .error .notDirectory
  | none => .error .absent

/-- the place of a name in a directory -/
def below (d : Disk) (at_ : Place) (name : List Char) : Except Fault Place := do
  d.enter at_
  if (String.ofList name).utf8ByteSize > maxName then .error .nameTooLong
  else .ok (at_ ++ [name])

/-- one piece of a path -/
def step (d : Disk) (at_ : Place) (piece : List Char) : Except Fault Place :=
  match Path.step? piece with
  | none => do d.enter at_; .ok at_
  | some (.name s) => d.below at_ s
  | some _ => do d.enter at_; .ok at_.dropLast

/-- the place that pieces lead to -/
def walk (d : Disk) (pieces : List (List Char)) : Except Fault Place :=
  pieces.foldlM (d.step ·) []

/-- what can be said of a path before it is walked -/
def vet (p : Path) : Except Fault Unit :=
  if '\x00' ∈ p.text.toList then .error .badName
  else if p.text = "" then .error .absent
  else if p.text.utf8ByteSize > maxPath then .error .nameTooLong
  else .ok ()

/-- what a path leads to, and its place -/
def status (d : Disk) (p : Path) : Except Fault (Place × Entry) := do
  vet p
  let place ← d.walk (p.split.1 :: p.split.2)
  match d.entry? place with
  | some e => .ok (place, e)
  | none => .error .absent

def isDirectory (d : Disk) (p : Path) : Bool :=
  match d.status p with
  | .ok (_, .directory) => true
  | _ => false

/-- the last step of a path -/
inductive Last where
  /-- a name in a directory; a slash may follow it -/
  | name (place : Place) (slash : Bool)
  /-- a dot, two dots or the root -/
  | special
  deriving DecidableEq, Repr

/-- the directory in which the last step of a path stands, and that step -/
def entrance (d : Disk) (p : Path) : Except Fault Last := do
  vet p
  let all := (p.split.1 :: p.split.2).reverse
  match all.dropWhile (· = []) with
  | [] => .ok .special
  | last :: front =>
    let parent ← d.walk front.reverse
    d.enter parent
    match Path.step? last with
    | some (.name s) => do .ok (.name (← d.below parent s) (all.head? = some []))
    | _ => .ok .special

/-! ## changes -/

def createDirectory (d : Disk) (p : Path) : Except Fault Disk := do
  match ← d.entrance p with
  | .special => .error .present
  | .name place _ =>
    if (d.entry? place).isSome then .error .present else .ok (d.put place .directory)

/-- `createDirectory`, after at most `n` directories above it have been made the same way; a fault
may leave some of them -/
def createDirectoriesWithin (n : Nat) (d : Disk) (p : Path) : Except Fault Unit × Disk :=
  if p.text = "" then (.ok (), d)
  else
    match d.createDirectory p with
    | .ok d' => (.ok (), d')
    | .error .absent =>
      match n, p.parent? with
      | n + 1, some above =>
        match createDirectoriesWithin n d above with
        | (.error f, d') => (.error f, d')
        | (.ok (), d') =>
          match d'.createDirectory p with
          | .ok d'' => (.ok (), d'')
          | .error f => (if d'.isDirectory p then .ok () else .error f, d')
      | _, _ => (.error .absent, d)
    | .error f => (if d.isDirectory p then .ok () else .error f, d)

/-- a directory and those above it -/
def createDirectories (d : Disk) (p : Path) : Except Fault Unit × Disk :=
  createDirectoriesWithin (p.components.length + 1) d p

/-- the directory in which a file is prepared -/
def workshop (p : Path) : Path :=
  match p.parent? with
  | some q => if q.text = "" then ⟨"."⟩ else q
  | none => ⟨"."⟩

/-- new bytes for a file -/
def replace (d : Disk) (p : Path) (b : Bytes) : Except Fault Disk := do
  let (place, _) ← d.status (workshop p)
  d.enter place
  match ← d.entrance p with
  | .special => .error .present
  | .name _ true => .error .notDirectory
  | .name place false =>
    if d.entry? place = some .directory then .error .isDirectory else .ok (d.put place (.file b))

def unlink (d : Disk) (p : Path) : Except Fault Disk := do
  match ← d.entrance p with
  | .special => .error .isDirectory
  | .name place slash =>
    match d.entry? place with
    | none => .error .absent
    | some .directory => .error .isDirectory
    | some (.file _) => if slash then .error .notDirectory else .ok (d.takeAway place)

def contents (d : Disk) (p : Path) : Except Fault Bytes := do
  match ← d.status p with
  | (_, .file b) => .ok b
  | (_, .directory) => .error .isDirectory

/-- the files in a directory -/
def filesIn (d : Disk) (p : Path) : Except Fault (List Path) := do
  let (place, _) ← d.status p
  d.enter place
  let names := d.entries.filterMap fun (q, e) =>
    match e with
    | .file _ => if q.dropLast = place then q.getLast? else none
    | .directory => none
  .ok ((names.map fun s => p.join ⟨String.ofList s⟩).mergeSort (fun q r => ¬r < q))

/-! ## the operations of a store -/

def failure (operation : String) (p : Path) (f : Fault) : StoreError :=
  .ofOperation operation p (f = .absent) f.message

instance : Store Disk where
  isFile p := fun d =>
    match d.status p with
    | .ok (_, e) => .ok (e ≠ .directory) d
    | .error .absent => .ok false d
    | .error f => .error (failure "stat" p f) d
  read p := fun d =>
    match d.contents p with
    | .ok b => .ok b d
    | .error f => .error (failure "read" p f) d
  write p b := fun d =>
    match d.replace p b with
    | .ok d' => .ok () d'
    | .error f => .error (failure "write" p f) d
  remove p := fun d =>
    match d.unlink p with
    | .ok d' => .ok () d'
    | .error .absent => .ok () d
    | .error f => .error (failure "remove" p f) d
  makeDirectory p := fun d =>
    match d.createDirectories p with
    | (.ok (), d') => .ok () d'
    | (.error f, d') => .error (failure "create_dir" p f) d'
  list p := fun d =>
    match d.filesIn p with
    | .ok ps => .ok ps d
    | .error .absent => .ok [] d
    | .error f => .error (failure "list" p f) d

end Disk

end ConfigReconcile
