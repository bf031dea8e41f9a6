import ConfigReconcile.Proofs.Reconcile.Elsewhere
import ConfigReconcile.Proofs.Reconcile.Table

/-!
# Promoting a document

A promotion stages the incoming document, which is to copy it to the system document, removes it and
reconciles.  The error of the copy is held back until the document has been removed.

* `Guarded.refused?`        what a store says to a document that is to be put somewhere;
* `copy_of_refused`, `copy_of_granted`   a copy fails for that reason, and for no other one;
* `Workspace.staged`        the workspace in which the incoming document has taken the place of the
                            system document;
* `Reconciler.Consumed`     how a promotion ends: refused, or as a reconciliation of the staged
                            workspace ends;
* `Reconciler.promote_consumes`   and every promotion ends so.
-/

namespace ConfigReconcile

open Text

/-! ## putting a document somewhere -/

/-- to make the directory of a file and to write the file is what inserting it does -/
theorem Memory.place_eq_insert (m : Memory) (p : Path) (b : Bytes) :
    m.place p b = m.insert p b := by
  unfold place insert prepare
  cases p.parent? with
  | none => rfl
  | some d =>
    dsimp only [Option.map_some, Option.getD_some]
    split
    · next hd =>
      -- an empty path has nothing above it, so inserting makes no directory either
      obtain ⟨t⟩ := d
      subst hd
      have hnone : (⟨""⟩ : Path).ancestors = [] := by decide
      simp [makeDirectory, hnone]
    · rfl

namespace Guarded

/-- the directory in which a file is to stand, if the store refuses to make it -/
def deniedDirectory? (g : Guarded) (p : Path) : Option Path :=
  p.parent?.filter fun d => d.text ≠ "" ∧ holds g.unmakeable d

/-- what a store says to a document that is to be put at a path: it may refuse to make the
directory, and it may refuse to write the file -/
def refused? (g : Guarded) (p : Path) : Option ReconcileError :=
  match g.deniedDirectory? p with
  | some d => some (.missingDirectory d (refusal "create_dir_all" d).message)
  | none => if holds g.unwritable p then some (.store (refusal "write" p)) else none

end Guarded

namespace Workspace

/-- the workspace with other files and directories in its store, which refuses the same -/
def withMemory (w : Workspace Guarded) (m : Memory) : Workspace Guarded :=
  { w with store := { w.store with memory := m } }

/-- the workspace without the incoming document, of which the bytes are now the system document -/
def staged (w : Workspace Guarded) (incoming system : Path) (b : Bytes) : Workspace Guarded :=
  w.withMemory ((w.store.memory.insert system b).remove incoming)

theorem bytes_staged (w : Workspace Guarded) (incoming system : Path) (b : Bytes) (p : Path) :
    (w.staged incoming system b).bytes p =
      if incoming.key = p.key then none else if system.key = p.key then some b else w.bytes p := by
  show ((w.store.memory.insert system b).remove incoming).read? p = _
  rw [Memory.read?_remove, Memory.read?_insert]
  rfl

end Workspace

section
variable {w : Workspace Guarded} {p d source dest : Path} {b : Bytes} {e : ReconcileError}

theorem ensureParent_of_denied (h : w.store.deniedDirectory? p = some d) :
    ensureParent p w =
      .error (.missingDirectory d (Guarded.refusal "create_dir_all" d).message) w := by
  obtain ⟨hp, hdenied⟩ := Option.filter_eq_some_iff.1 h
  rw [decide_eq_true_eq] at hdenied
  unfold ensureParent
  rw [hp]
  dsimp only
  rw [if_neg hdenied.1]
  simp only [onStore, Store.makeDirectory, hdenied.2, if_true]

theorem ensureParent_of_granted (h : w.store.deniedDirectory? p = none) :
    ensureParent p w = .ok () (w.withMemory (w.store.memory.prepare p)) := by
  rw [Guarded.deniedDirectory?, Option.filter_eq_none_iff] at h
  unfold ensureParent Memory.prepare
  cases hp : p.parent? with
  | none => rfl
  | some d =>
    dsimp only
    split
    · rfl
    · next hd =>
      have hgranted : Guarded.holds w.store.unmakeable d = false := by simpa [hd] using h d hp
      simp only [onStore, Store.makeDirectory, hgranted]
      rfl

theorem onStore_write_of_denied (h : Guarded.holds w.store.unwritable p = true) (b : Bytes) :
    onStore (Store.write p b) .store w = .error (.store (Guarded.refusal "write" p)) w := by
  simp only [onStore, Store.write, h, if_true]

/-- the directory has been made before the file is written, so there is a place for the file -/
theorem onStore_write_of_granted (h : Guarded.holds w.store.unwritable p = false) (b : Bytes) :
    onStore (Store.write p b) .store (w.withMemory (w.store.memory.prepare p)) =
      .ok () (w.withMemory (w.store.memory.insert p b)) := by
  simp only [onStore, Workspace.withMemory, Store.write, h, Guarded.onMemory,
    Memory.write?_prepare, Memory.place_eq_insert, Bool.false_eq_true, if_false]

theorem onStore_read_guarded (h : w.bytes p = some b) :
    onStore (Store.read p) .store w = .ok b w := by
  have hm : w.store.memory.read? p = some b := h
  simp only [onStore, Store.read, Guarded.onMemory, hm]

theorem copy_of_granted (hb : w.bytes source = some b) (h : w.store.refused? dest = none) :
    copy source dest w = .ok () (w.withMemory (w.store.memory.insert dest b)) := by
  unfold Guarded.refused? at h
  split at h
  · cases h
  · next hdirectory =>
    split at h
    · cases h
    · next hwrite =>
      unfold copy
      rw [bind_of_ok _ (onStore_read_guarded hb), bind_of_ok _ (ensureParent_of_granted hdirectory)]
      exact onStore_write_of_granted (Bool.eq_false_iff.2 hwrite) b

/-- a copy that is refused may have made the directory, but no file has changed -/
theorem copy_of_refused (hb : w.bytes source = some b) (h : w.store.refused? dest = some e) :
    ∃ m, m.files = w.store.memory.files ∧ copy source dest w = .error e (w.withMemory m) := by
  unfold Guarded.refused? at h
  unfold copy
  rw [bind_of_ok _ (onStore_read_guarded hb)]
  split at h
  · next hdirectory =>
    cases h
    exact ⟨w.store.memory, rfl, bind_of_error _ (ensureParent_of_denied hdirectory)⟩
  · next hdirectory =>
    split at h
    · next hwrite =>
      cases h
      refine ⟨_, w.store.memory.files_prepare dest, ?_⟩
      rw [bind_of_ok _ (ensureParent_of_granted hdirectory)]
      exact onStore_write_of_denied (w := w.withMemory (w.store.memory.prepare dest)) hwrite b
    · cases h

end

/-! ## promoting -/

theorem attempt_of_ok {ε ε' σ α : Type} {act : EStateM ε σ α} {s s' : σ} {a : α}
    (h : act s = .ok a s') : (attempt act : EStateM ε' σ (Except ε α)) s = .ok (.ok a) s' := by
  unfold attempt
  rw [h]

theorem attempt_of_error {ε ε' σ α : Type} {act : EStateM ε σ α} {s s' : σ} {e : ε}
    (h : act s = .error e s') :
    (attempt act : EStateM ε' σ (Except ε α)) s = .ok (.error e) s' := by
  unfold attempt
  rw [h]

/-- the workspace that a run ends with -/
def Workspace.after {α : Type} : EStateM.Result ReconcileError (Workspace Guarded) α →
    Workspace Guarded
  | .ok _ w => w
  | .error _ w => w

theorem Leaves.after {α γ : Type} {part : Workspace Guarded → γ} {act : ReconcileM Guarded α}
    (h : Leaves part act) (w : Workspace Guarded) : part (Workspace.after (act w)) = part w := by
  cases hact : act w with
  | ok a w' => exact h.ok hact
  | error e w' => exact h.error hact

section
variable {α β : Type} {f : α → β} {act : ReconcileM Guarded α} {w w' : Workspace Guarded}

theorem after_map (f : α → β) (act : ReconcileM Guarded α) (w : Workspace Guarded) :
    Workspace.after ((f <$> act) w) = Workspace.after (act w) := by
  show Workspace.after (EStateM.map f act w) = _
  unfold EStateM.map
  cases act w <;> rfl

theorem map_eq_error {e : ReconcileError} (h : (f <$> act) w = .error e w') :
    act w = .error e w' := by
  change EStateM.map f act w = _ at h
  unfold EStateM.map at h
  cases hact : act w with
  | ok a t => rw [hact] at h; cases h
  | error e' t => rw [hact] at h; cases h; rfl

end

namespace Reconciler

variable (r : Reconciler) (incoming : Path) (ps : DocumentPaths) {w : Workspace Guarded} {b : Bytes}
  {e : ReconcileError}

theorem onStore_isFile_guarded (w : Workspace Guarded) (p : Path) :
    onStore (Store.isFile p) .store w = .ok (w.bytes p).isSome w := rfl

theorem promote_of_absent (h : w.bytes incoming = none) :
    r.promote incoming ps w = .ok none w := by
  unfold promote
  rw [bind_of_ok _ (onStore_isFile_guarded w incoming), h]
  rfl

/-- the error of the copy comes after the incoming document has been removed -/
theorem promote_of_refused (hb : w.bytes incoming = some b)
    (h : w.store.refused? ps.system = some e) :
    ∃ m : Memory, m.files = w.store.memory.files ∧
      r.promote incoming ps w = .error e (w.withMemory (m.remove incoming)) := by
  obtain ⟨m, hm, hcopy⟩ := copy_of_refused hb h
  refine ⟨m, hm, ?_⟩
  unfold promote
  rw [bind_of_ok _ (onStore_isFile_guarded w incoming), hb]
  show ((attempt (copy incoming ps.system) : ReconcileM Guarded (Except ReconcileError Unit)) >>= _)
    w = _
  rw [bind_of_ok _ (attempt_of_error hcopy)]
  rfl

theorem promote_of_granted (hb : w.bytes incoming = some b)
    (h : w.store.refused? ps.system = none) :
    r.promote incoming ps w = (some <$> r.reconcile ps) (w.staged incoming ps.system b) := by
  unfold promote
  rw [bind_of_ok _ (onStore_isFile_guarded w incoming), hb]
  show ((attempt (copy incoming ps.system) : ReconcileM Guarded (Except ReconcileError Unit)) >>= _)
    w = _
  rw [bind_of_ok _ (attempt_of_ok (copy_of_granted hb h))]
  rfl

/-- with a system document there, nobody is asked for a default document -/
theorem requests_reconcile (h : w.bytes ps.system = some b) :
    (Workspace.after (r.reconcile ps w)).requests = w.requests := by
  have haside := aside_requests ps.target
  unfold reconcile
  rw [bind_of_ok _ (onStore_isFile_guarded w ps.system),
    bind_of_ok _ (onStore_isFile_guarded w ps.user), h]
  cases w.bytes ps.user with
  | none => exact ((haside.copy ps.system).bind fun _ => leaves_pure _).after w
  | some u => exact (haside.mergeDocuments r).after w

/-- how a promotion ends, the incoming document being there with the bytes `b` -/
structure Consumed (w : Workspace Guarded) (b : Bytes)
    (x : EStateM.Result ReconcileError (Workspace Guarded) (Option Outcome)) : Prop where
  /-- the incoming document is gone in any case -/
  gone : (Workspace.after x).bytes incoming = none
  /-- nobody has been asked for a default document -/
  requests : (Workspace.after x).requests = w.requests
  /-- what the store refuses is the error, and no other file has changed -/
  refused : ∀ e, w.store.refused? ps.system = some e →
    ∃ w', x = .error e w' ∧ w'.files = w.files.erase incoming
  /-- if it refuses nothing, the document is staged, and all else is a reconciliation from there -/
  staged : w.store.refused? ps.system = none →
    (Workspace.after x).bytes ps.system = some b ∧
      x = (some <$> r.reconcile ps) (w.staged incoming ps.system b)
  /-- the target stays as it was if that one fails -/
  spared : ∀ e w', x = .error e w' → w'.bytes ps.target = w.bytes ps.target

variable {incoming ps}

theorem consumed_of_refused (htarget : incoming.key ≠ ps.target.key)
    (hb : w.bytes incoming = some b) (h : w.store.refused? ps.system = some e) :
    r.Consumed incoming ps w b (r.promote incoming ps w) := by
  obtain ⟨m, hm, hx⟩ := r.promote_of_refused incoming ps hb h
  have hfiles : (w.withMemory (m.remove incoming)).files = w.files.erase incoming :=
    congrArg (·.erase incoming) hm
  have hbytes (p : Path) : (w.withMemory (m.remove incoming)).bytes p =
      if incoming.key = p.key then none else w.bytes p := by
    show (w.withMemory (m.remove incoming)).files.get? p = _
    rw [hfiles, Files.get?_erase]
    rfl
  rw [hx]
  refine ⟨?_, rfl, ?_, ?_, ?_⟩
  · exact (hbytes incoming).trans (if_pos rfl)
  · intro e' he'
    rw [h, Option.some_inj] at he'
    exact ⟨_, congrArg (EStateM.Result.error · _) he', hfiles⟩
  · intro hnone
    rw [h] at hnone
    cases hnone
  · intro e' w' hw'
    cases hw'
    exact (hbytes ps.target).trans (if_neg htarget)

theorem consumed_of_granted (hsystem : incoming.key ≠ ps.system.key)
    (htarget : incoming.key ≠ ps.target.key) (hdocuments : ps.system.key ≠ ps.target.key)
    (hb : w.bytes incoming = some b) (h : w.store.refused? ps.system = none) :
    r.Consumed incoming ps w b (r.promote incoming ps w) := by
  have hstaged := w.bytes_staged incoming ps.system b
  have hthere : (w.staged incoming ps.system b).bytes ps.system = some b := by
    rw [hstaged, if_neg hsystem, if_pos rfl]
  rw [r.promote_of_granted incoming ps hb h]
  refine ⟨?_, ?_, ?_, ?_, ?_⟩
  · rw [after_map, (r.leaves_reconcile ps (Ne.symm htarget)).after, hstaged, if_pos rfl]
  · rw [after_map, r.requests_reconcile ps hthere]
    rfl
  · intro e' he'
    rw [h] at he'
    cases he'
  · intro _
    refine ⟨?_, rfl⟩
    rw [after_map, (r.leaves_reconcile ps (Ne.symm hdocuments)).after, hthere]
  · intro e' w' hw'
    have hspared : w'.bytes ps.target = (w.staged incoming ps.system b).bytes ps.target :=
      congrArg (·.get? ps.target) ((r.spares_reconcile ps).error (map_eq_error hw'))
    rw [hspared, hstaged, if_neg htarget, if_neg hdocuments]

/-- **a promotion consumes the incoming document**: without one it does nothing at all; with one it
removes it in any case, and either the store refuses to stage it, or it is staged and what follows
is a reconciliation -/
theorem promote_consumes (r : Reconciler) {incoming : Path} {ps : DocumentPaths}
    (hsystem : incoming.key ≠ ps.system.key) (htarget : incoming.key ≠ ps.target.key)
    (hdocuments : ps.system.key ≠ ps.target.key) (w : Workspace Guarded) :
    (w.bytes incoming = none → r.promote incoming ps w = .ok none w) ∧
      ∀ b, w.bytes incoming = some b →
        r.Consumed incoming ps w b (r.promote incoming ps w) := by
  refine ⟨r.promote_of_absent incoming ps, fun b hb => ?_⟩
  cases h : w.store.refused? ps.system with
  | some e => exact r.consumed_of_refused htarget hb h
  | none => exact r.consumed_of_granted hsystem htarget hdocuments hb h

/-- there is no user document and the target cannot be written: the new system document stays, with
the old target -/
theorem promote_consumes_unwritable :
    let r : Reconciler := {}
    let incoming : Path := ⟨"/home/new"⟩
    let ps : DocumentPaths := ⟨⟨"/home/backup"⟩, ⟨"/home/user"⟩, ⟨"auto/target"⟩⟩
    let w : Workspace Guarded := { store :=
      { memory := ((({} : Memory).insert incoming [0x62]).insert ps.system [0x61]).insert ps.target
          [0x63]
        unwritable := [ps.target] } }
    incoming.key ≠ ps.system.key ∧ incoming.key ≠ ps.target.key ∧ ps.system.key ≠ ps.target.key ∧
      w.bytes incoming = some [0x62] ∧ w.store.refused? ps.system = none ∧
      r.Consumed incoming ps w [0x62] (r.promote incoming ps w) ∧
      ∃ w', r.promote incoming ps w = .error (.store (Guarded.refusal "write" ps.target)) w' ∧
        w'.bytes incoming = none ∧ w'.bytes ps.system = some [0x62] ∧
        w'.bytes ps.target = some [0x63] := by
  intro r incoming ps w
  have hsystem : incoming.key ≠ ps.system.key := by decide
  have htarget : incoming.key ≠ ps.target.key := by decide
  have hdocuments : ps.system.key ≠ ps.target.key := by decide
  have hb : w.bytes incoming = some [0x62] := by decide
  have hnone : w.store.refused? ps.system = none := by decide
  have hx := (r.promote_consumes hsystem htarget hdocuments w).2 [0x62] hb
  have herror : (match r.promote incoming ps w with
    | .ok _ _ => none
    | .error e _ => some e) = some (.store (Guarded.refusal "write" ps.target)) := by decide
  refine ⟨hsystem, htarget, hdocuments, hb, hnone, hx, ?_⟩
  cases hrun : r.promote incoming ps w with
  | ok o w' =>
    rw [hrun] at herror
    cases herror
  | error e w' =>
    rw [hrun, Option.some_inj] at herror
    rw [hrun] at hx
    subst herror
    exact ⟨w', rfl, hx.gone, (hx.staged hnone).1, (hx.spared _ _ rfl).trans (by decide)⟩

end Reconciler

end ConfigReconcile
