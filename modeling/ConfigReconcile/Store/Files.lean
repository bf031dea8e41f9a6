import ConfigReconcile.Store.Path
import ConfigReconcile.Text.Utf8

/-!
# Files in path order

`Files` holds bytes at paths, one entry for each place, in ascending order.  A place keeps the
spelling of the path that it was first filled by.

* `get?_insert`, `get?_erase`   the laws of a map;
* `ascending`                   the order, which every operation keeps.
-/

namespace ConfigReconcile

open Text

/-! ## entries in order -/

namespace Files

/-- the bytes at a place -/
def look (p : Path) : List (Path × Bytes) → Option Bytes
  | [] => none
  | e :: es => if e.1.key = p.key then some e.2 else look p es

/-- new bytes at a place, in front of all that comes later -/
def put (p : Path) (b : Bytes) : List (Path × Bytes) → List (Path × Bytes)
  | [] => [(p, b)]
  | e :: es =>
    if e.1.key = p.key then (e.1, b) :: es
    else if p < e.1 then (p, b) :: e :: es
    else e :: put p b es

/-- all places but one -/
def drop (p : Path) (es : List (Path × Bytes)) : List (Path × Bytes) :=
  es.filter fun e => e.1.key ≠ p.key

theorem look_put (p q : Path) (b : Bytes) (es : List (Path × Bytes)) :
    look q (put p b es) = if p.key = q.key then some b else look q es := by
  induction es with
  | nil => simp [put, look]
  | cons e es ih =>
    simp only [put]
    split
    · next h => simp only [look, h]; split <;> rfl
    · next h =>
      split
      · simp only [look]
      · simp only [look, ih]
        grind

theorem look_drop (p q : Path) (es : List (Path × Bytes)) :
    look q (drop p es) = if p.key = q.key then none else look q es := by
  induction es with
  | nil => simp [drop, look]
  | cons e es ih =>
    simp only [drop, List.filter_cons] at ih ⊢
    grind [look]

/-- each path stands before all later ones -/
def Ascending (es : List (Path × Bytes)) : Prop := es.Pairwise fun a b => a.1 < b.1

theorem mem_put {p : Path} {b : Bytes} {es : List (Path × Bytes)} {e : Path × Bytes}
    (h : e ∈ put p b es) : e.1 = p ∨ ∃ f ∈ es, f.1 = e.1 := by
  induction es with
  | nil => simp [put] at h; simp [h]
  | cons f fs ih =>
    simp only [put] at h
    split at h <;> grind

theorem Ascending.put {es : List (Path × Bytes)} (h : Ascending es) (p : Path) (b : Bytes) :
    Ascending (put p b es) := by
  induction es with
  | nil => simp [Files.put, Ascending]
  | cons e es ih =>
    obtain ⟨he, hes⟩ := List.pairwise_cons.1 h
    simp only [Files.put]
    split
    · exact List.pairwise_cons.2 ⟨he, hes⟩
    · next hne =>
      split
      · next hlt =>
        refine List.pairwise_cons.2 ⟨fun f hf => ?_, h⟩
        rcases List.mem_cons.1 hf with rfl | hf
        · exact hlt
        · exact Path.lt_trans hlt (he f hf)
      · next hge =>
        refine List.pairwise_cons.2 ⟨fun f hf => ?_, ih hes⟩
        have hlt : e.1 < p := Decidable.byContradiction fun hn =>
          hne (Path.key_eq_of_not_lt hn hge)
        rcases mem_put hf with hp | ⟨g, hg, hgf⟩
        · rw [hp]; exact hlt
        · rw [← hgf]; exact he g hg

theorem Ascending.drop {es : List (Path × Bytes)} (h : Ascending es) (p : Path) :
    Ascending (drop p es) := List.Pairwise.filter _ h

end Files

/-! ## the map -/

structure Files where
  entries : List (Path × Bytes) := []
  ascending : Files.Ascending entries := by exact List.Pairwise.nil
  deriving DecidableEq

namespace Files

instance : EmptyCollection Files := ⟨⟨[], List.Pairwise.nil⟩⟩

instance : Inhabited Files := ⟨∅⟩

def get? (fs : Files) (p : Path) : Option Bytes := look p fs.entries

def contains (fs : Files) (p : Path) : Bool := (fs.get? p).isSome

/-- new bytes at a place; the spelling is that of the first path there -/
def insert (fs : Files) (p : Path) (b : Bytes) : Files :=
  ⟨put p b fs.entries, fs.ascending.put p b⟩

def erase (fs : Files) (p : Path) : Files := ⟨drop p fs.entries, fs.ascending.drop p⟩

/-- the paths, in order -/
def paths (fs : Files) : List Path := fs.entries.map (·.1)

@[simp] theorem get?_insert (fs : Files) (p q : Path) (b : Bytes) :
    (fs.insert p b).get? q = if p.key = q.key then some b else fs.get? q :=
  look_put p q b fs.entries

@[simp] theorem get?_erase (fs : Files) (p q : Path) :
    (fs.erase p).get? q = if p.key = q.key then none else fs.get? q :=
  look_drop p q fs.entries

end Files

end ConfigReconcile
