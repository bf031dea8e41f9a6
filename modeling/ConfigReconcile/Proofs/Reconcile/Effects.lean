import ConfigReconcile.Reconcile
import ConfigReconcile.Store.Guarded

/-!
# Reconciling spares the files when it fails

An action LEAVES a part of its state if it never changes it, and SPARES it if it does not change it
when it fails.  An action that leaves followed by one that spares is one that spares, and of the
operations on a store only `write` and `remove` do not leave the files.  A run of `reconcile` writes
once, as the last thing it does, so it spares the files (`Reconciler.spares_reconcile`), whatever
the store refuses.
-/

namespace ConfigReconcile

/-! ## one action after another -/

section
variable {ε σ α β γ : Type} {act : EStateM ε σ α} {next : α → EStateM ε σ β} {s s' : σ}

theorem bind_of_ok (next : α → EStateM ε σ β) {a : α} (h : act s = .ok a s') :
    (act >>= next) s = next a s' := by
  show EStateM.bind act next s = _
  rw [EStateM.bind, h]

theorem bind_of_error (next : α → EStateM ε σ β) {e : ε} (h : act s = .error e s') :
    (act >>= next) s = .error e s' := by
  show EStateM.bind act next s = _
  rw [EStateM.bind, h]

theorem bind_eq_ok {b : β} (h : (act >>= next) s = .ok b s') :
    ∃ a t, act s = .ok a t ∧ next a t = .ok b s' := by
  cases hact : act s with
  | ok a t => exact ⟨a, t, rfl, (bind_of_ok next hact).symm.trans h⟩
  | error e t =>
    rw [bind_of_error next hact] at h
    cases h

theorem bind_eq_error {e : ε} (h : (act >>= next) s = .error e s') :
    act s = .error e s' ∨ ∃ a t, act s = .ok a t ∧ next a t = .error e s' := by
  cases hact : act s with
  | ok a t => exact .inr ⟨a, t, rfl, (bind_of_ok next hact).symm.trans h⟩
  | error f t =>
    left
    rw [bind_of_error next hact] at h
    cases h
    rfl

/-- if the action fails, a part of the state stays as it is -/
structure Spares (part : σ → γ) (act : EStateM ε σ α) : Prop where
  error : ∀ {s e s'}, act s = .error e s' → part s' = part s

/-- whatever comes of the action, a part of the state stays as it is -/
structure Leaves (part : σ → γ) (act : EStateM ε σ α) : Prop extends Spares part act where
  ok : ∀ {s a s'}, act s = .ok a s' → part s' = part s

variable {part : σ → γ}

theorem leaves_pure (a : α) : Leaves part (pure a : EStateM ε σ α) where
  ok h := by cases h; rfl
  error h := by cases h

theorem leaves_throw (e : ε) : Leaves part (throw e : EStateM ε σ α) where
  ok h := by cases h
  error h := by cases h; rfl

theorem Leaves.bind (h : Leaves part act) (hn : ∀ a, Leaves part (next a)) :
    Leaves part (act >>= next) where
  ok hb := by
    obtain ⟨a, t, ha, hb⟩ := bind_eq_ok hb
    exact ((hn a).ok hb).trans (h.ok ha)
  error hb := by
    rcases bind_eq_error hb with ha | ⟨a, t, ha, hb⟩
    · exact h.error ha
    · exact ((hn a).error hb).trans (h.ok ha)

theorem Leaves.bind_spares (h : Leaves part act) (hn : ∀ a, Spares part (next a)) :
    Spares part (act >>= next) where
  error hb := by
    rcases bind_eq_error hb with ha | ⟨a, t, ha, hb⟩
    · exact h.error ha
    · exact ((hn a).error hb).trans (h.ok ha)

/-- what comes last may change the part, as long as nothing can fail after it -/
theorem Spares.bind_pure (h : Spares part act) (f : α → β) :
    Spares part (act >>= fun a => pure (f a)) where
  error hb := by
    rcases bind_eq_error hb with ha | ⟨a, t, ha, hb⟩
    · exact h.error ha
    · cases hb

end

/-! ## stores -/

section
variable {σ α γ : Type} {part : σ → γ} {act : StoreM σ α}

theorem Spares.onStore (h : Spares part act) (blame : StoreError → ReconcileError) :
    Spares (fun w : Workspace σ => part w.store) (onStore act blame) where
  error {w e w'} hw := by
    unfold ConfigReconcile.onStore at hw
    split at hw
    · cases hw
    · next hs =>
      cases hw
      exact h.error hs

theorem Leaves.onStore (h : Leaves part act) (blame : StoreError → ReconcileError) :
    Leaves (fun w : Workspace σ => part w.store) (onStore act blame) where
  toSpares := h.toSpares.onStore blame
  ok {w a w'} hw := by
    unfold ConfigReconcile.onStore at hw
    split at hw
    · next hs =>
      cases hw
      exact h.ok hs
    · cases hw

end

namespace Memory

theorem leaves_isFile (p : Path) : Leaves Memory.files (Store.isFile p : StoreM Memory Bool) where
  ok h := by cases h; rfl
  error h := by cases h

theorem leaves_read (p : Path) : Leaves Memory.files (Store.read p : StoreM Memory _) where
  ok {m b m'} h := by
    simp only [Store.read] at h
    split at h <;> cases h
    rfl
  error {m e m'} h := by
    simp only [Store.read] at h
    split at h <;> cases h
    rfl

theorem leaves_makeDirectory (p : Path) :
    Leaves Memory.files (Store.makeDirectory p : StoreM Memory Unit) where
  ok h := by cases h; rfl
  error h := by cases h

theorem spares_write (p : Path) (b : Text.Bytes) :
    Spares Memory.files (Store.write p b : StoreM Memory Unit) where
  error {m e m'} h := by
    simp only [Store.write] at h
    split at h <;> cases h
    rfl

end Memory

namespace Guarded

/-- the files of the memory behind -/
def files (g : Guarded) : Files := g.memory.files

section
variable {α γ : Type} {part : Memory → γ} {act : StoreM Memory α}

theorem spares_onMemory (h : Spares part act) : Spares (fun g => part g.memory) (onMemory act) where
  error {g e g'} hg := by
    unfold onMemory at hg
    split at hg
    · cases hg
    · next hm =>
      cases hg
      exact h.error hm

theorem leaves_onMemory (h : Leaves part act) : Leaves (fun g => part g.memory) (onMemory act) where
  toSpares := spares_onMemory h.toSpares
  ok {g a g'} hg := by
    unfold onMemory at hg
    split at hg
    · next hm =>
      cases hg
      exact h.ok hm
    · cases hg

end

theorem leaves_isFile (p : Path) : Leaves files (Store.isFile p : StoreM Guarded Bool) :=
  leaves_onMemory (Memory.leaves_isFile p)

theorem leaves_read (p : Path) : Leaves files (Store.read p : StoreM Guarded _) :=
  leaves_onMemory (Memory.leaves_read p)

theorem leaves_makeDirectory (p : Path) :
    Leaves files (Store.makeDirectory p : StoreM Guarded Unit) where
  ok {g a g'} h := by
    simp only [Store.makeDirectory] at h
    split at h
    · cases h
    · exact (leaves_onMemory (Memory.leaves_makeDirectory p)).ok h
  error {g e g'} h := by
    simp only [Store.makeDirectory] at h
    split at h
    · cases h
      rfl
    · exact (leaves_onMemory (Memory.leaves_makeDirectory p)).error h

theorem spares_write (p : Path) (b : Text.Bytes) :
    Spares files (Store.write p b : StoreM Guarded Unit) where
  error {g e g'} h := by
    simp only [Store.write] at h
    split at h
    · cases h
      rfl
    · exact (spares_onMemory (Memory.spares_write p b)).error h

end Guarded

/-! ## reconciling -/

/-- the files of the store that is worked on -/
def Workspace.files (w : Workspace Guarded) : Files := w.store.files

theorem leaves_ensureParent (p : Path) : Leaves Workspace.files (ensureParent p) := by
  unfold ensureParent
  split
  · exact leaves_pure ()
  · next d _ =>
    split
    · exact leaves_pure ()
    · exact (Guarded.leaves_makeDirectory d).onStore _

theorem leaves_load (p : Path) : Leaves Workspace.files (load p) := by
  apply ((Guarded.leaves_read p).onStore _).bind
  intro b
  split
  · exact leaves_pure _
  · exact leaves_throw _

theorem spares_copy (source dest : Path) : Spares Workspace.files (copy source dest) := by
  apply ((Guarded.leaves_read source).onStore _).bind_spares
  intro b
  exact (leaves_ensureParent dest).bind_spares fun _ => (Guarded.spares_write dest b).onStore _

namespace Reconciler

variable (r : Reconciler) (ps : DocumentPaths)

theorem spares_produceDefault (target : Path) :
    Spares Workspace.files (r.produceDefault target) := by
  have hask : Leaves Workspace.files
      (modify fun w => { w with requests := w.requests ++ [target] } : ReconcileM Guarded Unit) :=
    ⟨⟨fun h => by cases h⟩, fun h => by cases h; rfl⟩
  apply hask.bind_spares
  intro _
  split
  · exact (leaves_throw _).toSpares
  · next b _ => exact (Guarded.spares_write target b).onStore _

theorem spares_mergeDocuments : Spares Workspace.files (r.mergeDocuments ps) := by
  apply (leaves_load ps.user).bind_spares
  intro user
  split
  · exact (spares_copy ps.system ps.target).bind_pure _
  · apply (leaves_load ps.system).bind_spares
    intro system
    split
    · exact (leaves_pure _).toSpares
    · next text _ =>
      apply (leaves_ensureParent ps.target).bind_spares
      intro _
      exact ((Guarded.spares_write ps.target _).onStore _).bind_pure _

/-- the one write of a run comes last -/
theorem spares_reconcile : Spares Workspace.files (r.reconcile ps) := by
  apply ((Guarded.leaves_isFile ps.system).onStore _).bind_spares
  intro system
  apply ((Guarded.leaves_isFile ps.user).onStore _).bind_spares
  intro user
  split
  · apply (leaves_ensureParent ps.target).bind_spares
    intro _
    exact (r.spares_produceDefault ps.target).bind_pure _
  · exact (spares_copy ps.user ps.target).bind_pure _
  · exact (spares_copy ps.system ps.target).bind_pure _
  · exact r.spares_mergeDocuments ps

end Reconciler

end ConfigReconcile
