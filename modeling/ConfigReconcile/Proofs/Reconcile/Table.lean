import ConfigReconcile.Proofs.Reconcile.Effects
import ConfigReconcile.Proofs.Store.Directories

/-!
# The decision table of a reconciliation

`Row` is the table: what the contents of the two sources say about the outcome and about what is
written to the target, if anything is.  `Unreadable` is the one case the table leaves open, a source
that has to be read and holds no document.

In a memory that refuses nothing, a run follows the table whenever it has a row
(`Reconciler.reconcile_of_row`), and fails with the error of the document otherwise
(`Reconciler.reconcile_of_unreadable`).  Nothing else can fail, since the directory in which a file
is to stand has always been made before it is written (`Memory.hasPlace_prepare`).
-/

namespace ConfigReconcile

open Text

/-! ## the place of a file -/

namespace Memory

/-- the memory once the directory has been made in which a file is to stand -/
def prepare (m : Memory) (p : Path) : Memory :=
  match p.parent? with
  | none => m
  | some d => if d.text = "" then m else m.makeDirectory d

theorem files_prepare (m : Memory) (p : Path) : (m.prepare p).files = m.files := by
  unfold prepare
  split
  · rfl
  · split <;> rfl

theorem hasPlace_prepare (m : Memory) (p : Path) : (m.prepare p).hasPlace p = true := by
  unfold prepare hasPlace
  cases hp : p.parent? with
  | none => rfl
  | some d =>
    simp only [Bool.or_eq_true, decide_eq_true_eq]
    by_cases hd : d.text = ""
    · left
      obtain ⟨t⟩ := d
      subst hd
      decide
    · right
      rw [if_neg hd, mem_directories_makeDirectory]
      exact .inr (Path.components_mem_ancestors hd)

/-- the memory with a document at a path, and the directory of that path -/
def place (m : Memory) (p : Path) (b : Bytes) : Memory :=
  { m.prepare p with files := m.files.insert p b }

theorem write?_prepare (m : Memory) (p : Path) (b : Bytes) :
    (m.prepare p).write? p b = some (m.place p b) := by
  rw [write?, if_pos (m.hasPlace_prepare p), place, files_prepare]

theorem read?_place (m : Memory) (p q : Path) (b : Bytes) :
    (m.place p b).read? q = if p.key = q.key then some b else m.read? q := by
  simp [place, read?]

end Memory

/-! ## the parts of a run -/

namespace Workspace

/-- the workspace with another store -/
def withStore {σ : Type} (w : Workspace σ) (s : σ) : Workspace σ := { w with store := s }

end Workspace

section
variable {w : Workspace Memory} {p source : Path} {b : Bytes}

theorem onStore_isFile (w : Workspace Memory) (p : Path) :
    onStore (Store.isFile p) .store w = .ok (w.store.read? p).isSome w := rfl

theorem onStore_read (h : w.store.read? p = some b) :
    onStore (Store.read p) .store w = .ok b w := by
  unfold onStore
  simp only [Store.read, h]

theorem ensureParent_eq (w : Workspace Memory) (p : Path) :
    ensureParent p w = .ok () (w.withStore (w.store.prepare p)) := by
  unfold ensureParent Memory.prepare
  cases p.parent? with
  | none => rfl
  | some d =>
    dsimp only
    split <;> rfl

theorem onStore_write (w : Workspace Memory) (p : Path) (b : Bytes)
    (blame : StoreError → ReconcileError) :
    onStore (Store.write p b) blame (w.withStore (w.store.prepare p)) =
      .ok () (w.withStore (w.store.place p b)) := by
  unfold onStore
  simp only [Workspace.withStore, Store.write, Memory.write?_prepare]

theorem copy_eq (h : w.store.read? source = some b) :
    copy source p w = .ok () (w.withStore (w.store.place p b)) := by
  unfold copy
  rw [bind_of_ok _ (onStore_read h), bind_of_ok _ (ensureParent_eq w p)]
  exact onStore_write w p b _

theorem load_of_ok {n : Node} (h : w.store.read? p = some b) (hn : Node.parseBytes b = .ok n) :
    load p w = .ok n w := by
  unfold load
  rw [bind_of_ok _ (onStore_read h), hn]
  rfl

theorem load_of_error {e : DocumentError} (h : w.store.read? p = some b)
    (he : Node.parseBytes b = .error e) : load p w = .error (.document p e) w := by
  unfold load
  rw [bind_of_ok _ (onStore_read h), he]
  rfl

end

/-! ## the table -/

/-- the rows of the table: the bytes of the system and the user document, if they are there, the
outcome, and the bytes that are written to the target, if any are -/
inductive Row (fallback : Bytes) :
    (system user : Option Bytes) → Outcome → (written : Option Bytes) → Prop where
  | neither : Row fallback none none .producedDefault (some fallback)
  | userOnly (user : Bytes) : Row fallback none (some user) .copiedUser (some user)
  | systemOnly (system : Bytes) : Row fallback (some system) none .copiedSystem (some system)
  | nullUser (system user : Bytes) (hu : Node.parseBytes user = .ok .null) :
      Row fallback (some system) (some user) .copiedSystem (some system)
  | merged (system user : Bytes) (s u : Node) (text : String) (hu : Node.parseBytes user = .ok u)
      (hn : u ≠ .null) (hs : Node.parseBytes system = .ok s)
      (ht : (u.merge s).render = some text) :
      Row fallback (some system) (some user) .merged (some (Utf8.encode text))
  | nothing (system user : Bytes) (s u : Node) (hu : Node.parseBytes user = .ok u)
      (hn : u ≠ .null) (hs : Node.parseBytes system = .ok s) (ht : (u.merge s).render = none) :
      Row fallback (some system) (some user) .mergedEmpty none

/-- a source that holds no document, though it has to be read: the user document, or the system
document behind a user document that is not null -/
inductive Unreadable (ps : DocumentPaths) (system user : Bytes) : Path → DocumentError → Prop where
  | user (e : DocumentError) (hu : Node.parseBytes user = .error e) :
      Unreadable ps system user ps.user e
  | system (e : DocumentError) (u : Node) (hu : Node.parseBytes user = .ok u) (hn : u ≠ .null)
      (hs : Node.parseBytes system = .error e) : Unreadable ps system user ps.system e

theorem row_or_unreadable (fallback : Bytes) (ps : DocumentPaths) (system user : Option Bytes) :
    (∃ o written, Row fallback system user o written) ∨
      ∃ s u p e, system = some s ∧ user = some u ∧ Unreadable ps s u p e := by
  match system, user with
  | none, none => exact .inl ⟨_, _, .neither⟩
  | none, some u => exact .inl ⟨_, _, .userOnly u⟩
  | some s, none => exact .inl ⟨_, _, .systemOnly s⟩
  | some s, some u =>
    cases hu : Node.parseBytes u with
    | error e => exact .inr ⟨s, u, _, e, rfl, rfl, .user e hu⟩
    | ok n =>
      by_cases hn : n = .null
      · subst hn
        exact .inl ⟨_, _, .nullUser s u hu⟩
      · cases hs : Node.parseBytes s with
        | error e => exact .inr ⟨s, u, _, e, rfl, rfl, .system e n hu hn hs⟩
        | ok m =>
          cases ht : (n.merge m).render with
          | none => exact .inl ⟨_, _, .nothing s u m n hu hn hs ht⟩
          | some text => exact .inl ⟨_, _, .merged s u m n text hu hn hs ht⟩

/-- the table says one thing only -/
theorem Row.unique {fallback : Bytes} {system user : Option Bytes} {o o' : Outcome}
    {written written' : Option Bytes} (h : Row fallback system user o written)
    (h' : Row fallback system user o' written') : o' = o ∧ written' = written := by
  cases h <;> cases h' <;> simp_all

/-! ## a run follows the table -/

/-- the store once a document has been written to the target, if one has -/
def Memory.settle (m : Memory) (target : Path) : Option Bytes → Memory
  | none => m
  | some b => m.place target b

theorem Memory.read?_settle (m : Memory) (target p : Path) (written : Option Bytes) :
    (m.settle target written).read? p =
      if target.key = p.key then written.or (m.read? p) else m.read? p := by
  cases written with
  | none => simp [settle]
  | some b => simp [settle, read?_place]

/-- the workspace after a run by a row of the table -/
def Workspace.settle (w : Workspace Memory) (target : Path) (o : Outcome)
    (written : Option Bytes) : Workspace Memory where
  store := w.store.settle target written
  requests := if o = .producedDefault then w.requests ++ [target] else w.requests

namespace Node

theorem isNull_eq_false {n : Node} (h : n ≠ .null) : n.isNull = false := by
  cases n with
  | null => exact absurd rfl h
  | _ => rfl

end Node

namespace Reconciler

variable {r : Reconciler} {ps : DocumentPaths} {w w' : Workspace Memory} {fallback : Bytes}
  {o : Outcome} {written : Option Bytes}

theorem produceDefault_eq (hd : r.defaultDocument? = some fallback) (w : Workspace Memory)
    (p : Path) : r.produceDefault p (w.withStore (w.store.prepare p)) =
      .ok () { (w.withStore (w.store.place p fallback)) with requests := w.requests ++ [p] } := by
  unfold produceDefault
  rw [hd]
  exact onStore_write { w with requests := w.requests ++ [p] } p fallback _

theorem reconcile_of_row (hd : r.defaultDocument? = some fallback)
    (h : Row fallback (w.store.read? ps.system) (w.store.read? ps.user) o written) :
    r.reconcile ps w = .ok o (w.settle ps.target o written) := by
  unfold reconcile
  rw [bind_of_ok _ (onStore_isFile w ps.system), bind_of_ok _ (onStore_isFile w ps.user)]
  generalize hsystem : w.store.read? ps.system = system at h
  generalize huser : w.store.read? ps.user = user at h
  cases h with
  | neither =>
    show (ensureParent ps.target >>= fun _ => r.produceDefault ps.target >>= fun _ =>
      pure Outcome.producedDefault : ReconcileM Memory Outcome) w = _
    rw [bind_of_ok _ (ensureParent_eq w _), bind_of_ok _ (produceDefault_eq hd w _)]
    rfl
  | userOnly user => exact bind_of_ok _ (copy_eq huser)
  | systemOnly system => exact bind_of_ok _ (copy_eq hsystem)
  | nullUser system user hu =>
    show r.mergeDocuments ps w = _
    unfold mergeDocuments
    rw [bind_of_ok _ (load_of_ok huser hu)]
    exact bind_of_ok _ (copy_eq hsystem)
  | merged system user s u text hu hn hs ht =>
    show r.mergeDocuments ps w = _
    unfold mergeDocuments
    have hm : (r.strategy.merge u s).render = some text := ht
    rw [bind_of_ok _ (load_of_ok huser hu), Node.isNull_eq_false hn, if_neg Bool.false_ne_true,
      bind_of_ok _ (load_of_ok hsystem hs), hm]
    dsimp only
    rw [bind_of_ok _ (ensureParent_eq w _), bind_of_ok _ (onStore_write w _ _ _)]
    rfl
  | nothing system user s u hu hn hs ht =>
    show r.mergeDocuments ps w = _
    unfold mergeDocuments
    have hm : (r.strategy.merge u s).render = none := ht
    rw [bind_of_ok _ (load_of_ok huser hu), Node.isNull_eq_false hn, if_neg Bool.false_ne_true,
      bind_of_ok _ (load_of_ok hsystem hs), hm]
    rfl

theorem reconcile_of_unreadable {s u : Bytes} {p : Path} {e : DocumentError}
    (hsystem : w.store.read? ps.system = some s) (huser : w.store.read? ps.user = some u)
    (h : Unreadable ps s u p e) : r.reconcile ps w = .error (.document p e) w := by
  unfold reconcile
  rw [bind_of_ok _ (onStore_isFile w ps.system), bind_of_ok _ (onStore_isFile w ps.user), hsystem,
    huser]
  show r.mergeDocuments ps w = _
  unfold mergeDocuments
  cases h with
  | user e hu => rw [bind_of_error _ (load_of_error huser hu)]
  | system e n hu hn hs =>
    rw [bind_of_ok _ (load_of_ok huser hu), Node.isNull_eq_false hn, if_neg Bool.false_ne_true,
      bind_of_error _ (load_of_error hsystem hs)]

/-! ## what comes of a run -/

theorem row_of_ok (hd : r.defaultDocument? = some fallback) (h : r.reconcile ps w = .ok o w') :
    ∃ written, Row fallback (w.store.read? ps.system) (w.store.read? ps.user) o written ∧
      w' = w.settle ps.target o written := by
  rcases row_or_unreadable fallback ps (w.store.read? ps.system) (w.store.read? ps.user) with
    ⟨o', written, hrow⟩ | ⟨s, u, p, e, hs, hu, hun⟩
  · cases h.symm.trans (reconcile_of_row hd hrow)
    exact ⟨written, hrow, rfl⟩
  · cases h.symm.trans (reconcile_of_unreadable hs hu hun)

theorem unreadable_of_error (hd : r.defaultDocument? = some fallback) {e : ReconcileError}
    (h : r.reconcile ps w = .error e w') :
    ∃ s u p f, w.store.read? ps.system = some s ∧ w.store.read? ps.user = some u ∧
      Unreadable ps s u p f ∧ e = .document p f := by
  rcases row_or_unreadable fallback ps (w.store.read? ps.system) (w.store.read? ps.user) with
    ⟨o', written, hrow⟩ | ⟨s, u, p, f, hs, hu, hun⟩
  · cases h.symm.trans (reconcile_of_row hd hrow)
  · cases h.symm.trans (reconcile_of_unreadable hs hu hun)
    exact ⟨s, u, p, f, hs, hu, hun, rfl⟩

/-- how a memory stands after a run that has ended well -/
structure Settled (r : Reconciler) (fallback : Bytes) (ps : DocumentPaths)
    (w w' : Workspace Memory) (o : Outcome) (written : Option Bytes) : Prop where
  /-- the contents of the sources before the run have this row of the table -/
  row : Row fallback (w.store.read? ps.system) (w.store.read? ps.user) o written
  /-- and no other one -/
  unique : ∀ o' written',
    Row fallback (w.store.read? ps.system) (w.store.read? ps.user) o' written' →
      o' = o ∧ written' = written
  /-- the target holds what was written, and is as it was if nothing was -/
  target : w'.store.read? ps.target = written.or (w.store.read? ps.target)
  /-- no other file has changed, come or gone -/
  elsewhere : ∀ p, p.key ≠ ps.target.key → w'.store.read? p = w.store.read? p
  /-- a target apart from both sources is the same after one more run, which ends the same way -/
  again : ps.target.key ≠ ps.system.key → ps.target.key ≠ ps.user.key →
    ∃ w'', r.reconcile ps w' = .ok o w'' ∧ ∀ p, w''.store.read? p = w'.store.read? p

/-- **a run that ends well follows the table and touches nothing but the target** -/
theorem settled_of_ok (r : Reconciler) (fallback : Bytes)
    (hd : r.defaultDocument? = some fallback) (ps : DocumentPaths) (w w' : Workspace Memory)
    (o : Outcome) (h : r.reconcile ps w = .ok o w') :
    ∃ written, r.Settled fallback ps w w' o written := by
  obtain ⟨written, hrow, rfl⟩ := row_of_ok hd h
  have hread := fun p => w.store.read?_settle ps.target p written
  refine ⟨written, hrow, fun o' written' => hrow.unique, ?_, ?_, ?_⟩
  · exact (hread _).trans (if_pos rfl)
  · intro p hp
    exact (hread p).trans (if_neg (Ne.symm hp))
  · intro hsystem huser
    -- both sources are as they were, so the second run has the same row
    have hsecond : Row fallback ((w.store.settle ps.target written).read? ps.system)
        ((w.store.settle ps.target written).read? ps.user) o written := by
      rw [hread, if_neg hsystem, hread, if_neg huser]
      exact hrow
    refine ⟨_, reconcile_of_row hd hsecond, ?_⟩
    intro p
    show ((w.store.settle ps.target written).settle ps.target written).read? p =
      (w.store.settle ps.target written).read? p
    rw [Memory.read?_settle, hread]
    split
    · cases written <;> rfl
    · rfl

/-- a user document that is a comment, over bytes that are no text, and a target in a directory
still to be made -/
theorem settled_of_ok_comment :
    let r : Reconciler := { defaultDocument? := some [0x61] }
    let ps : DocumentPaths := ⟨⟨"/home/backup"⟩, ⟨"/home/user"⟩, ⟨"auto/target"⟩⟩
    let w : Workspace Memory :=
      { store := (({} : Memory).insert ps.user [0x23, 0x0a]).insert ps.system [0xff] }
    let w' := w.settle ps.target .copiedSystem (some [0xff])
    r.defaultDocument? = some [0x61] ∧ r.reconcile ps w = .ok .copiedSystem w' ∧
      ∃ written, r.Settled [0x61] ps w w' .copiedSystem written := by
  intro r ps w w'
  have hsystem : w.store.read? ps.system = some [0xff] := by decide +kernel
  have huser : w.store.read? ps.user = some [0x23, 0x0a] := by decide +kernel
  have hnull : Node.parseBytes [0x23, 0x0a] = .ok .null := by
    have hsome : (Node.parseBytes [0x23, 0x0a]).toOption.map Node.isNull = some true := by
      decide +kernel
    cases hn : Node.parseBytes [0x23, 0x0a] with
    | error f =>
      rw [hn] at hsome
      cases hsome
    | ok n =>
      rw [hn] at hsome
      cases n <;> first | rfl | cases hsome
  have hrun : r.reconcile ps w = .ok .copiedSystem w' := by
    have hrow : Row [0x61] (w.store.read? ps.system) (w.store.read? ps.user) .copiedSystem
        (some [0xff]) := by
      rw [hsystem, huser]
      exact .nullUser _ _ hnull
    exact reconcile_of_row rfl hrow
  exact ⟨rfl, hrun, settled_of_ok r [0x61] rfl ps w w' _ hrun⟩

/-- **a run that fails leaves the files alone, and fails only for a document**: whatever the store
refuses and whether or not a default document can be produced, an error comes with the files
unchanged; and in a memory that refuses nothing the only errors are those of a source that has to be
read and holds no document, the user document first -/
theorem reconcile_error (r : Reconciler) (ps : DocumentPaths) :
    (∀ (w w' : Workspace Guarded) (e : ReconcileError), r.reconcile ps w = .error e w' →
      w'.store.memory.files = w.store.memory.files) ∧
    ∀ fallback, r.defaultDocument? = some fallback → ∀ (w : Workspace Memory) (e : ReconcileError),
      (∃ w', r.reconcile ps w = .error e w') ↔
        ∃ s u, w.store.read? ps.system = some s ∧ w.store.read? ps.user = some u ∧
          ((∃ f, Node.parseBytes u = .error f ∧ e = .document ps.user f) ∨
            ∃ n f, Node.parseBytes u = .ok n ∧ n ≠ .null ∧ Node.parseBytes s = .error f ∧
              e = .document ps.system f) := by
  constructor
  · intro w w' e h
    exact (r.spares_reconcile ps).error h
  · intro fallback hd w e
    constructor
    · rintro ⟨w', h⟩
      obtain ⟨s, u, p, f, hs, hu, hun, rfl⟩ := unreadable_of_error hd h
      refine ⟨s, u, hs, hu, ?_⟩
      cases hun with
      | user f hf => exact .inl ⟨f, hf, rfl⟩
      | system f n hn hne hf => exact .inr ⟨n, f, hn, hne, hf, rfl⟩
    · rintro ⟨s, u, hs, hu, ⟨f, hf, rfl⟩ | ⟨n, f, hn, hne, hf, rfl⟩⟩
      · exact ⟨w, reconcile_of_unreadable hs hu (.user f hf)⟩
      · exact ⟨w, reconcile_of_unreadable hs hu (.system f n hn hne hf)⟩

/-- a target that cannot be written, in a directory that can be made, and a user document that is no
text -/
theorem reconcile_error_refused :
    let r : Reconciler := { defaultDocument? := some [0x61] }
    let ps : DocumentPaths := ⟨⟨"/home/backup"⟩, ⟨"/home/user"⟩, ⟨"auto/target"⟩⟩
    let g : Workspace Guarded := { store := { unwritable := [ps.target] } }
    let w : Workspace Memory :=
      { store := (({} : Memory).insert ps.user [0xff]).insert ps.system [0x61] }
    (∃ e g', r.reconcile ps g = .error e g' ∧ g'.store.memory.files = g.store.memory.files) ∧
    ∃ f w', r.reconcile ps w = .error (.document ps.user f) w' := by
  intro r ps g w
  obtain ⟨hspares, hfails⟩ := reconcile_error r ps
  constructor
  · have hfails : (match r.reconcile ps g with
      | .ok _ _ => false
      | .error _ _ => true) = true := by decide
    cases hrun : r.reconcile ps g with
    | ok o g' =>
      rw [hrun] at hfails
      cases hfails
    | error e g' => exact ⟨e, g', rfl, hspares g g' e hrun⟩
  · have hsystem : w.store.read? ps.system = some [0x61] := by decide
    have huser : w.store.read? ps.user = some [0xff] := by decide
    have hdecode : Utf8.decode [0xff] = .error ⟨0, some 1⟩ := by
      unfold Utf8.decode Utf8.decodeFrom
      rfl
    have hfault : Node.parseBytes [0xff] = .error (.notUtf8 ⟨0, some 1⟩) := by
      rw [Node.parseBytes, hdecode]
    exact ⟨_, (hfails [0x61] rfl w _).2 ⟨_, _, hsystem, huser, .inl ⟨_, hfault, rfl⟩⟩⟩

end Reconciler

end ConfigReconcile
