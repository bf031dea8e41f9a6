import ConfigReconcile.Proofs.Store.Directories
import ConfigReconcile.Store.Memory
import Mathlib.Data.Finmap

/-!
# A memory is a catalogue

A CATALOGUE is a finite map from components to bytes, with the spelling under which an entry was
made, and a finite set of known directories.  It knows no texts of paths but these spellings:

* `Request`, `Memory.ask`   what can be asked of a memory, and how it answers;
* `Catalogue.perform`       what a request makes of a catalogue;
* `Catalogue.Answers`       the answers that a catalogue gives, of which there is one each
                            (`Answers.unique`);
* `Memory.Shows`            a memory and a catalogue hold the same, which every request keeps
                            (`Shows.perform`), and then the answers are the same (`Shows.answers`);
* `Memory.serves_as_map`    so a memory that was empty answers all requests like a catalogue, and
                            every file in it has a place to stand.
-/

namespace ConfigReconcile

open ConfigReconcile.Path (Component)
open Text

/-! ## requests -/

inductive Request where
  | insert (p : Path) (b : Bytes)
  | write (p : Path) (b : Bytes)
  | remove (p : Path)
  | makeDirectory (d : Path)
  | read (p : Path)
  | isFile (p : Path)
  | list (d : Path)
  | paths

inductive Answer where
  | done
  | bytes (b : Bytes)
  | truth (t : Bool)
  | paths (ps : List Path)
  deriving DecidableEq

namespace Memory

/-- what a request does -/
def serve : Request → StoreM Memory Answer
  | .insert p b => fun m => .ok .done (m.insert p b)
  | .write p b => do Store.write p b; return .done
  | .remove p => do Store.remove p; return .done
  | .makeDirectory d => do Store.makeDirectory d; return .done
  | .read p => return .bytes (← Store.read p)
  | .isFile p => return .truth (← Store.isFile p)
  | .list d => return .paths (← Store.list d)
  | .paths => fun m => .ok (.paths m.paths) m

/-- the answer to a request, and the memory afterwards -/
def ask (m : Memory) (r : Request) : Except StoreError Answer × Memory :=
  match serve r m with
  | .ok a m' => (.ok a, m')
  | .error e m' => (.error e, m')

/-- the memory after some requests, which was empty before -/
def after (rs : List Request) : Memory := rs.foldl (fun m r => (m.ask r).2) {}

def missingParent (p : Path) : StoreError := .failed "write" p "parent directory missing"

theorem ask_write (m : Memory) (p : Path) (b : Bytes) :
    m.ask (.write p b) =
      if m.hasPlace p then (.ok .done, { m with files := m.files.insert p b })
      else (.error (missingParent p), m) := by
  by_cases hp : m.hasPlace p = true
  · have hwrite : (Store.write p b : StoreM Memory Unit) m =
        .ok () { m with files := m.files.insert p b } := by
      simp only [Store.write, write?, if_pos hp]
    simp only [ask, serve, bind, EStateM.bind, hwrite, if_pos hp]
    rfl
  · have hwrite : (Store.write p b : StoreM Memory Unit) m = .error (missingParent p) m := by
      simp only [Store.write, write?, if_neg hp]
      rfl
    simp only [ask, serve, bind, EStateM.bind, hwrite, if_neg hp]

theorem ask_write_eq_error_iff {m : Memory} {p : Path} {b : Bytes} :
    (∃ e, (m.ask (.write p b)).1 = .error e) ↔ ¬m.hasPlace p = true := by
  rw [ask_write]
  split
  · next hp => simp [hp]
  · next hp => exact iff_of_true ⟨_, rfl⟩ hp

theorem ask_read (m : Memory) (p : Path) :
    m.ask (.read p) = ((m.read? p).elim (.error (.notFound p)) (.ok <| .bytes ·), m) := by
  simp only [ask, serve, bind, EStateM.bind, Store.read]
  cases m.read? p <;> rfl

theorem ask_of_error {m : Memory} {r : Request} {e : StoreError} (h : (m.ask r).1 = .error e) :
    (m.ask r).2 = m := by
  cases r with
  | insert p b => cases h
  | write p b =>
    rw [ask_write] at h ⊢
    split at h
    · cases h
    · next hp => rw [if_neg hp]
  | remove p => cases h
  | makeDirectory d => cases h
  | read p => rw [ask_read]
  | _ => rfl

end Memory

/-! ## catalogues -/

/-- the components above, if there is anything above -/
def Path.above? (k : List Component) : Option (List Component) :=
  if k = [] ∨ k = [.root] then none else some k.dropLast

structure Catalogue where
  /-- the spelling and the bytes at a place -/
  files : Finmap fun _ : List Component => Path × Bytes := ∅
  known : Finset (List Component) := ∅

namespace Catalogue

/-- new bytes; an entry that is there keeps its spelling -/
def put (c : Catalogue) (p : Path) (b : Bytes) : Catalogue :=
  let spelling := ((c.files.lookup p.components).map (·.1)).getD p
  { c with files := c.files.insert p.components (spelling, b) }

/-- a directory and all that are above it -/
def make (c : Catalogue) (k : List Component) : Catalogue :=
  { c with known := c.known ∪ (k.inits.filter (· ≠ [])).toFinset }

/-- what is above is nothing, or a bare root, or known -/
def HasPlace (c : Catalogue) (k : List Component) : Prop :=
  ∀ a, Path.above? k = some a → a = [] ∨ a = [.root] ∨ a ∈ c.known

instance (c : Catalogue) (k : List Component) : Decidable (c.HasPlace k) :=
  inferInstanceAs (Decidable (∀ a, Path.above? k = some a → _))

def perform (c : Catalogue) : Request → Catalogue
  | .insert p b => ((Path.above? p.components).elim c c.make).put p b
  | .write p b => if c.HasPlace p.components then c.put p b else c
  | .remove p => { c with files := c.files.erase p.components }
  | .makeDirectory d => c.make d.components
  | _ => c

/-- the catalogue after some requests, which was empty before -/
def after (rs : List Request) : Catalogue := rs.foldl perform {}

/-- the paths of some places, each once and in order -/
def Lists (c : Catalogue) (P : List Component → Prop) (ps : List Path) : Prop :=
  ps.Pairwise (· < ·) ∧
    ∀ p, p ∈ ps ↔ P p.components ∧ ∃ b, c.files.lookup p.components = some (p, b)

/-- how a catalogue answers -/
inductive Answers (c : Catalogue) : Request → Except StoreError Answer → Prop where
  | inserted (p : Path) (b : Bytes) : Answers c (.insert p b) (.ok .done)
  | written (p : Path) (b : Bytes) (h : c.HasPlace p.components) :
      Answers c (.write p b) (.ok .done)
  | refused (p : Path) (b : Bytes) (h : ¬c.HasPlace p.components) :
      Answers c (.write p b) (.error (Memory.missingParent p))
  | removed (p : Path) : Answers c (.remove p) (.ok .done)
  | made (d : Path) : Answers c (.makeDirectory d) (.ok .done)
  | found (p q : Path) (b : Bytes) (h : c.files.lookup p.components = some (q, b)) :
      Answers c (.read p) (.ok (.bytes b))
  | absent (p : Path) (h : p.components ∉ c.files) : Answers c (.read p) (.error (.notFound p))
  | present (p : Path) (t : Bool) (h : t = true ↔ p.components ∈ c.files) :
      Answers c (.isFile p) (.ok (.truth t))
  | listed (d : Path) (ps : List Path)
      (h : c.Lists (fun k => Path.above? k = some d.components) ps) :
      Answers c (.list d) (.ok (.paths ps))
  | all (ps : List Path) (h : c.Lists (fun _ => True) ps) : Answers c .paths (.ok (.paths ps))

variable {c : Catalogue} {k : List Component} {r : Request}

/-- there is one answer to each request -/
theorem Answers.unique {a a' : Except StoreError Answer} (h : c.Answers r a)
    (h' : c.Answers r a') : a = a' := by
  have hlists {P : List Component → Prop} {ps qs : List Path} (hp : c.Lists P ps)
      (hq : c.Lists P qs) : ps = qs := by
    have hnodup {ps : List Path} (h : c.Lists P ps) : ps.Nodup := by
      apply h.1.imp
      rintro p q hlt rfl
      exact Path.lt_irrefl p hlt
    apply List.Perm.eq_of_pairwise _ hp.1 hq.1
    · rw [List.perm_ext_iff_of_nodup (hnodup hp) (hnodup hq)]
      exact fun p => (hp.2 p).trans (hq.2 p).symm
    · exact fun p q _ _ hlt hgt => absurd (Path.lt_trans hlt hgt) (Path.lt_irrefl p)
  cases h with
  | inserted p b => cases h'; rfl
  | written p b hp =>
    cases h' with
    | written _ _ _ => rfl
    | refused _ _ hn => exact absurd hp hn
  | refused p b hn =>
    cases h' with
    | written _ _ hp => exact absurd hp hn
    | refused _ _ _ => rfl
  | removed p => cases h'; rfl
  | made d => cases h'; rfl
  | found p q b hl =>
    cases h' with
    | found _ q' b' hl' =>
      rw [hl] at hl'
      cases hl'
      rfl
    | absent _ hn => exact absurd (Finmap.mem_of_lookup_eq_some hl) hn
  | absent p hn =>
    cases h' with
    | found _ q b hl => exact absurd (Finmap.mem_of_lookup_eq_some hl) hn
    | absent _ _ => rfl
  | present p t ht =>
    cases h' with
    | present _ t' ht' => rw [Bool.eq_iff_iff.2 (ht.trans ht'.symm)]
  | listed d ps hps =>
    cases h' with
    | listed _ qs hqs => rw [hlists hps hqs]
  | all ps hps =>
    cases h' with
    | all qs hqs => rw [hlists hps hqs]

end Catalogue

/-! ## entries by components -/

namespace Files

variable {es : List (Path × Bytes)} {k : List Component} {p : Path} {b : Bytes}

/-- the entry at a place -/
def entryAt (k : List Component) (es : List (Path × Bytes)) : Option (Path × Bytes) :=
  es.find? fun e => e.1.components = k

theorem entryAt_of_lt (h : ∀ e ∈ es, p < e.1) : entryAt p.components es = none := by
  rw [entryAt, List.find?_eq_none]
  intro e he heq
  have hlt := h e he
  rw [Path.lt_iff, Path.key_eq_iff.2 (of_decide_eq_true heq)] at hlt
  exact List.lt_irrefl _ hlt

theorem entryAt_cons (e : Path × Bytes) (es : List (Path × Bytes)) :
    entryAt k (e :: es) = if e.1.components = k then some e else entryAt k es := by
  rw [entryAt, List.find?_cons]
  by_cases he : e.1.components = k <;> simp [he, entryAt]

theorem entryAt_put (h : Ascending es) (p : Path) (b : Bytes) (k : List Component) :
    entryAt k (put p b es) =
      if p.components = k then some (((entryAt k es).map (·.1)).getD p, b) else entryAt k es := by
  induction es with
  | nil => rw [put, entryAt_cons]; rfl
  | cons e es ih =>
    obtain ⟨he, hes⟩ := List.pairwise_cons.1 h
    rw [put]
    split
    · next hkey =>
      have hkey := Path.key_eq_iff.1 hkey
      rw [entryAt_cons, entryAt_cons, hkey]
      split <;> rfl
    · next hkey =>
      have hkey := mt Path.key_eq_iff.2 hkey
      split
      · next hlt =>
        have hnone : entryAt p.components (e :: es) = none := by
          apply entryAt_of_lt
          exact List.forall_mem_cons.2 ⟨hlt, fun f hf => Path.lt_trans hlt (he f hf)⟩
        rw [entryAt_cons]
        split
        · next hk => rw [← hk, hnone]; rfl
        · rfl
      · rw [entryAt_cons, entryAt_cons, ih hes]
        by_cases hp : p.components = k
        · rw [if_pos hp, if_pos hp, if_neg (hp ▸ hkey), if_neg (hp ▸ hkey)]
        · rw [if_neg hp, if_neg hp]

theorem entryAt_drop (p : Path) (es : List (Path × Bytes)) (k : List Component) :
    entryAt k (drop p es) = if p.components = k then none else entryAt k es := by
  induction es with
  | nil => exact (ite_self none).symm
  | cons e es ih =>
    by_cases he : e.1.components = p.components
    · have hdrop : drop p (e :: es) = drop p es :=
        List.filter_cons_of_neg (by simpa using Path.key_eq_iff.2 he)
      rw [hdrop, ih, entryAt_cons, he]
      split <;> rfl
    · have hdrop : drop p (e :: es) = e :: drop p es :=
        List.filter_cons_of_pos (by simpa using mt Path.key_eq_iff.1 he)
      rw [hdrop, entryAt_cons, entryAt_cons, ih]
      by_cases hp : p.components = k
      · rw [if_pos hp, if_pos hp, if_neg (hp ▸ he)]
      · rw [if_neg hp, if_neg hp]

theorem mem_iff_entryAt (h : Ascending es) {e : Path × Bytes} :
    e ∈ es ↔ entryAt e.1.components es = some e := by
  refine ⟨fun he => ?_, fun he => List.mem_of_find?_eq_some he⟩
  induction es with
  | nil => cases he
  | cons f es ih =>
    obtain ⟨hf, hes⟩ := List.pairwise_cons.1 h
    rw [entryAt_cons]
    rcases List.mem_cons.1 he with rfl | he
    · rw [if_pos rfl]
    · rw [if_neg, ih hes he]
      intro heq
      have hlt := hf e he
      rw [Path.lt_iff, Path.key_eq_iff.2 heq] at hlt
      exact List.lt_irrefl _ hlt

end Files

/-! ## directories by components -/

namespace Path

variable {p : Path} {k : List Component}

theorem above?_components (p : Path) : above? p.components = p.parent?.map components := by
  unfold above?
  cases hp : p.parent? with
  | none => rw [if_pos (parent?_eq_none_iff.1 hp)]; rfl
  | some q =>
    rw [if_neg, ← components_of_parent? hp]
    · rfl
    · rw [← parent?_eq_none_iff, hp]
      exact nofun

theorem mem_ancestors : k ∈ p.ancestors ↔ k ≠ [] ∧ k <+: p.components := by
  unfold ancestors
  rw [List.mem_map]
  constructor
  · rintro ⟨i, hi, rfl⟩
    rw [List.mem_range] at hi
    refine ⟨?_, List.take_prefix _ _⟩
    rw [← List.length_pos_iff, List.length_take]
    omega
  · rintro ⟨hne, hk⟩
    have hpos := List.length_pos_iff.2 hne
    have hle := hk.length_le
    refine ⟨k.length - 1, List.mem_range.2 (by omega), ?_⟩
    rw [Nat.sub_add_cancel hpos]
    exact (List.prefix_iff_eq_take.1 hk).symm

end Path

namespace Catalogue

variable {c : Catalogue} {k a : List Component}

theorem mem_known_make : k ∈ (c.make a).known ↔ k ∈ c.known ∨ k ≠ [] ∧ k <+: a := by
  simp [make, and_comm]

theorem lookup_put (c : Catalogue) (p : Path) (b : Bytes) (k : List Component) :
    (c.put p b).files.lookup k =
      if p.components = k then some (((c.files.lookup k).map (·.1)).getD p, b)
      else c.files.lookup k := by
  unfold put
  split
  · next h => rw [← h, Finmap.lookup_insert]
  · next h => exact Finmap.lookup_insert_of_ne _ (Ne.symm h)

theorem lookup_remove (c : Catalogue) (p : Path) (k : List Component) :
    (c.perform (.remove p)).files.lookup k =
      if p.components = k then none else c.files.lookup k := by
  show (c.files.erase p.components).lookup k = _
  split
  · next h => rw [← h, Finmap.lookup_erase]
  · next h => exact Finmap.lookup_erase_ne (Ne.symm h)

end Catalogue

/-! ## the same files and directories -/

namespace Memory

/-- a memory holds what a catalogue does -/
structure Shows (m : Memory) (c : Catalogue) : Prop where
  files : ∀ k, c.files.lookup k = Files.entryAt k m.files.entries
  known : ∀ k, k ∈ c.known ↔ k ∈ m.directories

variable {m : Memory} {c : Catalogue}

theorem Shows.hasPlace_iff (h : m.Shows c) (p : Path) :
    m.hasPlace p = true ↔ c.HasPlace p.components := by
  unfold hasPlace Catalogue.HasPlace
  rw [Path.above?_components]
  cases p.parent? with
  | none => simp
  | some d =>
    simp [Path.parent?_eq_none_iff, h.known, or_assoc]

theorem Shows.put (h : m.Shows c) (p : Path) (b : Bytes) :
    Shows { m with files := m.files.insert p b } (c.put p b) where
  files k := by
    rw [c.lookup_put, h.files]
    exact (Files.entryAt_put m.files.ascending p b k).symm
  known := h.known

theorem Shows.make (h : m.Shows c) (d : Path) :
    (m.makeDirectory d).Shows (c.make d.components) where
  files := h.files
  known k := by
    rw [Catalogue.mem_known_make, mem_directories_makeDirectory, Path.mem_ancestors, h.known]

/-- **every request leaves a memory and a catalogue with the same files and directories** -/
theorem Shows.perform (h : m.Shows c) (r : Request) : (m.ask r).2.Shows (c.perform r) := by
  cases r with
  | insert p b =>
    have hmade : ((p.parent?.map m.makeDirectory).getD m).Shows
        ((Path.above? p.components).elim c c.make) := by
      rw [Path.above?_components]
      cases p.parent? with
      | none => exact h
      | some d => exact h.make d
    exact hmade.put p b
  | write p b =>
    have hperform : c.perform (.write p b) =
        if c.HasPlace p.components then c.put p b else c := rfl
    rw [ask_write, hperform]
    by_cases hp : m.hasPlace p = true
    · rw [if_pos hp, if_pos ((h.hasPlace_iff p).1 hp)]
      exact h.put p b
    · rw [if_neg hp, if_neg (mt (h.hasPlace_iff p).2 hp)]
      exact h
  | remove p =>
    refine ⟨fun k => ?_, h.known⟩
    rw [c.lookup_remove, h.files]
    exact (Files.entryAt_drop p m.files.entries k).symm
  | makeDirectory d => exact h.make d
  | read p =>
    rw [ask_read]
    exact h
  | isFile p => exact h
  | list d => exact h
  | paths => exact h

theorem shows_after (rs : List Request) : (after rs).Shows (Catalogue.after rs) := by
  induction rs using List.reverseRecOn with
  | nil => exact ⟨fun _ => rfl, fun _ => Iff.rfl⟩
  | append_singleton rs r ih =>
    unfold after Catalogue.after
    rw [List.foldl_concat, List.foldl_concat]
    exact ih.perform r

/-! ## answers -/

theorem mem_paths {p : Path} : p ∈ m.files.paths ↔ ∃ b, (p, b) ∈ m.files.entries := by
  simp [Files.paths]

theorem Shows.mem_paths_iff (h : m.Shows c) (p : Path) :
    p ∈ m.files.paths ↔ ∃ b, c.files.lookup p.components = some (p, b) := by
  simp only [mem_paths, Files.mem_iff_entryAt m.files.ascending, h.files]

theorem Shows.lists (h : m.Shows c) {P : List Component → Prop} {f : Path → Bool}
    (hf : ∀ p, f p = true ↔ P p.components) : c.Lists P (m.files.paths.filter f) := by
  constructor
  · apply List.Pairwise.filter
    exact List.pairwise_map.2 m.files.ascending
  · intro p
    rw [List.mem_filter, hf, h.mem_paths_iff, and_comm]

theorem Shows.read?_eq (h : m.Shows c) (p : Path) :
    m.read? p = (c.files.lookup p.components).map (·.2) := by
  rw [h.files]
  show Files.look p m.files.entries = _
  induction m.files.entries with
  | nil => rfl
  | cons e es ih =>
    rw [Files.look, Files.entryAt_cons, ih]
    by_cases he : e.1.components = p.components
    · rw [if_pos (Path.key_eq_iff.2 he), if_pos he]
      rfl
    · rw [if_neg (mt Path.key_eq_iff.1 he), if_neg he]

/-- **a memory answers like the catalogue that holds the same** -/
theorem Shows.answers (h : m.Shows c) (r : Request) : c.Answers r (m.ask r).1 := by
  cases r with
  | insert p b => exact .inserted p b
  | write p b =>
    rw [ask_write]
    by_cases hp : m.hasPlace p = true
    · rw [if_pos hp]
      exact .written p b ((h.hasPlace_iff p).1 hp)
    · rw [if_neg hp]
      exact .refused p b (mt (h.hasPlace_iff p).2 hp)
  | remove p => exact .removed p
  | makeDirectory d => exact .made d
  | read p =>
    rw [ask_read, h.read?_eq]
    cases hl : c.files.lookup p.components with
    | none => exact .absent p (Finmap.lookup_eq_none.1 hl)
    | some e => exact .found p e.1 e.2 hl
  | isFile p =>
    apply Catalogue.Answers.present
    rw [h.read?_eq, Option.isSome_map, Option.isSome_iff_exists]
    exact (Finmap.mem_iff (s := c.files)).symm
  | list d =>
    apply Catalogue.Answers.listed
    apply h.lists
    intro p
    rw [Path.above?_components]
    cases p.parent? with
    | none => simp
    | some q => simp [Path.key_eq_iff]
  | paths =>
    apply Catalogue.Answers.all
    have hall := h.lists (P := fun _ => True) (f := fun _ => true) fun _ => by simp
    rwa [List.filter_true] at hall

end Memory

/-! ## what all catalogues keep -/

namespace Request

/-- a request makes a directory, by itself or above another one -/
def Makes (k : List Component) : Request → Prop
  | .insert p _ => ∃ a, Path.above? p.components = some a ∧ k ≠ [] ∧ k <+: a
  | .makeDirectory d => k ≠ [] ∧ k <+: d.components
  | _ => False

/-- a request writes a file under a spelling -/
def Writes (p : Path) : Request → Prop
  | .insert q _ => q = p
  | .write q _ => q = p
  | _ => False

end Request

namespace Catalogue

variable {c : Catalogue} {k : List Component} {r : Request} {rs : List Request} {p q : Path}
  {b b' : Bytes}

theorem after_concat (rs : List Request) (r : Request) :
    after (rs ++ [r]) = (after rs).perform r := List.foldl_concat ..

theorem known_perform : k ∈ (c.perform r).known ↔ k ∈ c.known ∨ r.Makes k := by
  cases r with
  | insert p b =>
    show k ∈ ((Path.above? p.components).elim c c.make).known ↔ _
    unfold Request.Makes
    cases ha : Path.above? p.components with
    | none => simp [ha]
    | some a => simpa [ha] using mem_known_make
  | write p b =>
    have hknown : (c.perform (.write p b)).known = c.known := by
      unfold perform
      dsimp only
      split <;> rfl
    rw [hknown]
    exact (or_false _).symm.to_iff
  | makeDirectory d => exact mem_known_make
  | _ => exact (or_false _).symm.to_iff

/-- the known directories are those that some request has made -/
theorem known_after : k ∈ (after rs).known ↔ ∃ r ∈ rs, r.Makes k := by
  induction rs using List.reverseRecOn with
  | nil => simp [after]
  | append_singleton rs r ih => simp [after_concat, known_perform, ih]

/-- what is above a known directory is known, and every file has its place -/
structure Housed (c : Catalogue) : Prop where
  above : ∀ k ∈ c.known, ∀ j, j ≠ [] → j <+: k → j ∈ c.known
  place : ∀ k ∈ c.files, c.HasPlace k

theorem HasPlace.mono {c' : Catalogue} (h : c.HasPlace k) (hk : c.known ⊆ c'.known) :
    c'.HasPlace k := fun a ha => (h a ha).imp id (Or.imp id (hk ·))

theorem mem_files_put : k ∈ (c.put p b).files ↔ k = p.components ∨ k ∈ c.files :=
  Finmap.mem_insert

theorem Housed.put (h : c.Housed) (hp : c.HasPlace p.components) (b : Bytes) :
    (c.put p b).Housed where
  above := h.above
  place k hk := by
    rcases mem_files_put.1 hk with rfl | hk
    · exact hp
    · exact h.place k hk

theorem Housed.make (h : c.Housed) (a : List Component) : (c.make a).Housed where
  above k hk j hj hjk := by
    rw [mem_known_make] at hk ⊢
    rcases hk with hk | ⟨-, hka⟩
    · exact .inl (h.above k hk j hj hjk)
    · exact .inr ⟨hj, hjk.trans hka⟩
  place k hk := (h.place k hk).mono fun _ hj => mem_known_make.2 (.inl hj)

theorem Housed.perform (h : c.Housed) (r : Request) : (c.perform r).Housed := by
  cases r with
  | insert p b =>
    show (((Path.above? p.components).elim c c.make).put p b).Housed
    cases ha : Path.above? p.components with
    | none =>
      apply h.put
      intro a hn
      rw [ha] at hn
      cases hn
    | some a =>
      apply (h.make a).put
      intro a' ha'
      rw [ha] at ha'
      cases ha'
      by_cases hne : a = []
      · exact .inl hne
      · exact .inr (.inr (mem_known_make.2 (.inr ⟨hne, List.prefix_rfl⟩)))
  | write p b =>
    show (if c.HasPlace p.components then c.put p b else c).Housed
    split
    · next hp => exact h.put hp b
    · exact h
  | remove p => exact ⟨h.above, fun k hk => h.place k (Finmap.mem_erase.1 hk).2⟩
  | makeDirectory d => exact h.make d.components
  | _ => exact h

theorem housed_after (rs : List Request) : (after rs).Housed := by
  induction rs using List.reverseRecOn with
  | nil =>
    refine ⟨fun k hk => ?_, fun k hk => ?_⟩
    · exact absurd hk (Finset.notMem_empty k)
    · exact absurd hk Finmap.notMem_empty
  | append_singleton rs r ih =>
    rw [after_concat]
    exact ih.perform r

/-! ### spellings -/

/-- an entry keeps its spelling as long as it is there, and a new one has that of its request -/
theorem lookup_perform (h : (c.perform r).files.lookup k = some (p, b)) :
    (∃ b', c.files.lookup k = some (p, b')) ∨
      k ∉ c.files ∧ r.Writes p ∧ p.components = k := by
  have hput {c' : Catalogue} {q : Path} {b' : Bytes} (hc : c'.files = c.files)
      (h : (c'.put q b').files.lookup k = some (p, b)) :
      (∃ b', c.files.lookup k = some (p, b')) ∨ k ∉ c.files ∧ q = p ∧ p.components = k := by
    rw [lookup_put, hc] at h
    split at h
    · next hk =>
      cases hl : c.files.lookup k with
      | none =>
        rw [hl] at h
        cases h
        exact .inr ⟨Finmap.lookup_eq_none.1 hl, rfl, hk⟩
      | some e =>
        rw [hl] at h
        cases h
        exact .inl ⟨e.2, rfl⟩
    · exact .inl ⟨b, h⟩
  cases r with
  | insert q b' =>
    apply hput _ h
    cases Path.above? q.components <;> rfl
  | write q b' =>
    change (if c.HasPlace q.components then c.put q b' else c).files.lookup k = _ at h
    split at h
    · exact hput rfl h
    · exact .inl ⟨b, h⟩
  | remove q =>
    rw [lookup_remove] at h
    split at h
    · cases h
    · exact .inl ⟨b, h⟩
  | _ => exact .inl ⟨b, h⟩

/-- an entry was made by a request with its spelling, and has been there ever since -/
theorem exists_created (h : (after rs).files.lookup k = some (p, b)) :
    ∃ before r later, rs = before ++ r :: later ∧ r.Writes p ∧ p.components = k ∧
      k ∉ (after before).files ∧
      ∀ mid, mid <+: later → ∃ b', (after (before ++ r :: mid)).files.lookup k = some (p, b') := by
  induction rs using List.reverseRecOn generalizing b with
  | nil => cases h
  | append_singleton rs r ih =>
    rw [after_concat] at h
    rcases lookup_perform h with ⟨b', hb'⟩ | ⟨hk, hr, hp⟩
    · obtain ⟨before, r', later, rfl, hr', hp, hbefore, hlater⟩ := ih hb'
      refine ⟨before, r', later ++ [r], ?_, hr', hp, hbefore, ?_⟩
      · simp
      · intro mid hmid
        rcases List.prefix_concat_iff.1 hmid with rfl | hmid
        · refine ⟨b, ?_⟩
          rw [← List.cons_append, ← List.append_assoc, after_concat]
          exact h
        · exact hlater mid hmid
    · refine ⟨rs, r, [], rfl, hr, hp, hk, ?_⟩
      intro mid hmid
      rw [List.prefix_nil.1 hmid, after_concat]
      exact ⟨b, h⟩

end Catalogue

/-! ## every history -/

/-- a memory that has got some requests serves as a map from components to bytes -/
structure Memory.Serves (rs : List Request) : Prop where
  /-- the next answer is the one that the catalogue gives -/
  answers : ∀ r a, (Catalogue.after rs).Answers r a ↔ a = ((Memory.after rs).ask r).1
  /-- a request that fails changes nothing -/
  refused : ∀ r e, ((Memory.after rs).ask r).1 = .error e →
    ((Memory.after rs).ask r).2 = Memory.after rs
  /-- a write is refused if what is above is neither nothing, nor a bare root, nor made before -/
  writes : ∀ p b, (∃ e, ((Memory.after rs).ask (.write p b)).1 = .error e) ↔
    ∃ a, Path.above? p.components = some a ∧ a ≠ [] ∧ a ≠ [.root] ∧ ¬∃ r ∈ rs, r.Makes a
  /-- a directory is known if a request has made it -/
  known : ∀ k, k ∈ (Catalogue.after rs).known ↔ ∃ r ∈ rs, r.Makes k
  /-- a path has the spelling of the request that made the entry, which has been there since -/
  spelling : ∀ k p b, (Catalogue.after rs).files.lookup k = some (p, b) →
    ∃ before r later, rs = before ++ r :: later ∧ r.Writes p ∧ p.components = k ∧
      k ∉ (Catalogue.after before).files ∧ ∀ mid, mid <+: later →
        ∃ b', (Catalogue.after (before ++ r :: mid)).files.lookup k = some (p, b')
  /-- what is above a file is nothing, or empty, or a bare root, or a known directory -/
  housed : ∀ p ∈ (Memory.after rs).paths, ∀ q, p.parent? = some q →
    q.text = "" ∨ q.components = [.root] ∨ q.components ∈ (Memory.after rs).directories
  /-- what is above a known directory is known -/
  above : ∀ k ∈ (Memory.after rs).directories, ∀ j, j ≠ [] → j <+: k →
    j ∈ (Memory.after rs).directories

/-- **a memory is a finite map keyed by components**, whatever was asked of it before -/
theorem Memory.serves_as_map (rs : List Request) : Memory.Serves rs := by
  have hshows := Memory.shows_after rs
  have hhoused := Catalogue.housed_after rs
  refine ⟨?_, ?_, ?_, fun k => Catalogue.known_after, fun k p b => Catalogue.exists_created, ?_, ?_⟩
  · intro r a
    refine ⟨fun h => h.unique (hshows.answers r), ?_⟩
    rintro rfl
    exact hshows.answers r
  · exact fun r e he => Memory.ask_of_error he
  · intro p b
    rw [Memory.ask_write_eq_error_iff, hshows.hasPlace_iff]
    simp [Catalogue.HasPlace, Catalogue.known_after]
  · intro p hp q hq
    obtain ⟨b, hb⟩ := (hshows.mem_paths_iff p).1 hp
    have habove : Path.above? p.components = some q.components := by
      rw [Path.above?_components, hq]
      rfl
    rcases hhoused.place _ (Finmap.mem_of_lookup_eq_some hb) _ habove with h | h | h
    · exact .inl (Path.components_eq_nil h)
    · exact .inr (.inl h)
    · exact .inr (.inr ((hshows.known _).1 h))
  · intro k hk j hj hjk
    rw [← hshows.known] at hk ⊢
    exact hhoused.above k hk j hj hjk

example :
    let rs : List Request := [.insert ⟨"/d//b"⟩ [1], .write ⟨"/d/./b/"⟩ [2], .write ⟨"e/f"⟩ [3]]
    ((Memory.after rs).ask (.list ⟨"/d/"⟩)).1 = .ok (.paths [⟨"/d//b"⟩]) ∧
      ((Memory.after rs).ask (.read ⟨"/d/b"⟩)).1 = .ok (.bytes [2]) ∧
      ((Memory.after rs).ask (.isFile ⟨"e/f"⟩)).1 = .ok (.truth false) := by decide +kernel

end ConfigReconcile
