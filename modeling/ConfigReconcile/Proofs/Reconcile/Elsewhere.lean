import ConfigReconcile.Proofs.Reconcile.Effects

/-!
# The files that a reconciliation touches

A reconciliation writes the target, a promotion the system document too, and it removes the incoming
document.  All other files stay as they are, whether it ends well or not and whatever the store
refuses.

* `Workspace.bytes`       the bytes of one file, the part that an action may LEAVE;
* `Aside`                 a part of the workspace that changes with other files only;
* `Reconciler.leaves_reconcile`, `Reconciler.leaves_promote`   which files are left.
-/

namespace ConfigReconcile

open Text

/-! ## actions that leave a file alone -/

section
variable {ε ε' σ α β γ δ : Type} {part : σ → γ} {act : EStateM ε σ α} {next : α → EStateM ε σ β}

theorem Leaves.comp (h : Leaves part act) (f : γ → δ) : Leaves (fun s => f (part s)) act where
  ok hs := congrArg f (h.ok hs)
  error hs := congrArg f (h.error hs)

/-- what follows an action has to leave the part for those results that the action can have -/
theorem Leaves.bind_of {P : α → Prop} (h : Leaves part act)
    (hresult : ∀ {s a s'}, act s = .ok a s' → P a) (hn : ∀ a, P a → Leaves part (next a)) :
    Leaves part (act >>= next) where
  ok hb := by
    obtain ⟨a, t, ha, hb⟩ := bind_eq_ok hb
    exact ((hn a (hresult ha)).ok hb).trans (h.ok ha)
  error hb := by
    rcases bind_eq_error hb with ha | ⟨a, t, ha, hb⟩
    · exact h.error ha
    · exact ((hn a (hresult ha)).error hb).trans (h.ok ha)

theorem Leaves.attempt (h : Leaves part act) :
    Leaves part (attempt act : EStateM ε' σ (Except ε α)) where
  ok {s a s'} hs := by
    unfold ConfigReconcile.attempt at hs
    split at hs
    · next hact =>
      cases hs
      exact h.ok hact
    · next hact =>
      cases hs
      exact h.error hact
  error {s e s'} hs := by
    unfold ConfigReconcile.attempt at hs
    split at hs <;> cases hs

end

/-! ## operations of a store -/

section
variable {p q : Path}

namespace Memory

theorem leaves_write (h : q.key ≠ p.key) (b : Bytes) :
    Leaves (·.read? p) (Store.write q b : StoreM Memory Unit) where
  ok {m u m'} hm := by
    simp only [Store.write] at hm
    split at hm
    · next hw =>
      cases hm
      exact (read?_write? hw p).trans (if_neg h)
    · cases hm
  error hm := congrArg (·.get? p) ((spares_write q b).error hm)

theorem leaves_remove (h : q.key ≠ p.key) :
    Leaves (·.read? p) (Store.remove q : StoreM Memory Unit) where
  ok {m u m'} hm := by
    cases hm
    exact (read?_remove m q p).trans (if_neg h)
  error hm := by cases hm

end Memory

namespace Guarded

/-- the bytes of a file -/
def bytes (p : Path) (g : Guarded) : Option Bytes := g.memory.read? p

theorem leaves_bytes {α : Type} {act : StoreM Guarded α} (h : Leaves files act) (p : Path) :
    Leaves (bytes p) act := h.comp (·.get? p)

theorem leaves_write (h : q.key ≠ p.key) (b : Bytes) :
    Leaves (bytes p) (Store.write q b : StoreM Guarded Unit) where
  toSpares := ⟨fun hg => congrArg (·.get? p) ((spares_write q b).error hg)⟩
  ok {g u g'} hg := by
    simp only [Store.write] at hg
    split at hg
    · cases hg
    · exact (leaves_onMemory (Memory.leaves_write h b)).ok hg

theorem leaves_remove (h : q.key ≠ p.key) :
    Leaves (bytes p) (Store.remove q : StoreM Guarded Unit) :=
  leaves_onMemory (Memory.leaves_remove h)

theorem leaves_list (d : Path) : Leaves (bytes p) (Store.list d : StoreM Guarded _) where
  ok hg := by cases hg; rfl
  error hg := by cases hg

theorem mem_list {d : Path} {ps : List Path} {g g' : Guarded}
    (h : (Store.list d : StoreM Guarded _) g = .ok ps g') : ps = g.memory.list d := by
  cases h
  rfl

end Guarded

end

/-! ## reconciling -/

/-- the bytes of a file of the store that is worked on -/
def Workspace.bytes (p : Path) (w : Workspace Guarded) : Option Bytes := w.store.bytes p

/-- a part of the workspace that the store does not change as long as it leaves its files, nor by
writing the file `dest` -/
structure Aside {γ : Type} (part : Workspace Guarded → γ) (dest : Path) : Prop where
  onStore {α : Type} {act : StoreM Guarded α} (h : Leaves Guarded.files act)
    (blame : StoreError → ReconcileError) : Leaves part (onStore act blame)
  write (b : Bytes) (blame : StoreError → ReconcileError) :
    Leaves part (ConfigReconcile.onStore (Store.write dest b) blame)

namespace Aside

variable {γ : Type} {part : Workspace Guarded → γ} {dest : Path}

theorem ensureParent (h : Aside part dest) (p : Path) : Leaves part (ensureParent p) := by
  unfold ConfigReconcile.ensureParent
  split
  · exact leaves_pure ()
  · next d _ =>
    split
    · exact leaves_pure ()
    · exact h.onStore (Guarded.leaves_makeDirectory d) _

theorem load (h : Aside part dest) (p : Path) : Leaves part (load p) := by
  apply (h.onStore (Guarded.leaves_read p) _).bind
  intro b
  split
  · exact leaves_pure _
  · exact leaves_throw _

theorem copy (h : Aside part dest) (source : Path) : Leaves part (copy source dest) := by
  apply (h.onStore (Guarded.leaves_read source) _).bind
  intro b
  exact (h.ensureParent dest).bind fun _ => h.write b _

theorem mergeDocuments (r : Reconciler) {ps : DocumentPaths} (h : Aside part ps.target) :
    Leaves part (r.mergeDocuments ps : ReconcileM Guarded Outcome) := by
  apply (h.load ps.user).bind
  intro user
  split
  · exact (h.copy ps.system).bind fun _ => leaves_pure _
  · apply (h.load ps.system).bind
    intro system
    split
    · exact leaves_pure _
    · apply (h.ensureParent ps.target).bind
      intro _
      exact (h.write _ _).bind fun _ => leaves_pure _

end Aside

section
variable {p : Path}

theorem Guarded.leaves_onStore {α : Type} {act : StoreM Guarded α} (h : Leaves (bytes p) act)
    (blame : StoreError → ReconcileError) : Leaves (Workspace.bytes p) (onStore act blame) :=
  h.onStore blame

theorem aside_bytes {dest : Path} (h : dest.key ≠ p.key) : Aside (Workspace.bytes p) dest where
  onStore hact := Guarded.leaves_onStore (Guarded.leaves_bytes hact p)
  write b := Guarded.leaves_onStore (Guarded.leaves_write h b)

theorem leaves_requests {α : Type} (act : StoreM Guarded α) (blame : StoreError → ReconcileError) :
    Leaves Workspace.requests (onStore act blame) where
  ok {w a w'} h := by
    unfold onStore at h
    split at h <;> cases h
    rfl
  error {w e w'} h := by
    unfold onStore at h
    split at h <;> cases h
    rfl

theorem aside_requests (dest : Path) : Aside Workspace.requests dest where
  onStore _ := leaves_requests _
  write _ := leaves_requests _

namespace Reconciler

variable (r : Reconciler) (ps : DocumentPaths)

theorem leaves_produceDefault {target : Path} (h : target.key ≠ p.key) :
    Leaves (Workspace.bytes p) (r.produceDefault target : ReconcileM Guarded Unit) := by
  have hask : Leaves (Workspace.bytes p)
      (modify fun w => { w with requests := w.requests ++ [target] } : ReconcileM Guarded Unit) :=
    ⟨⟨fun h => by cases h⟩, fun h => by cases h; rfl⟩
  apply hask.bind
  intro _
  split
  · exact leaves_throw _
  · next b _ => exact Guarded.leaves_onStore (Guarded.leaves_write h b) _

/-- a reconciliation leaves all files but the target -/
theorem leaves_reconcile (h : ps.target.key ≠ p.key) :
    Leaves (Workspace.bytes p) (r.reconcile ps : ReconcileM Guarded Outcome) := by
  have haside := aside_bytes h
  apply (haside.onStore (Guarded.leaves_isFile ps.system) _).bind
  intro system
  apply (haside.onStore (Guarded.leaves_isFile ps.user) _).bind
  intro user
  split
  · apply (haside.ensureParent ps.target).bind
    intro _
    exact (r.leaves_produceDefault h).bind fun _ => leaves_pure _
  · exact (haside.copy ps.user).bind fun _ => leaves_pure _
  · exact (haside.copy ps.system).bind fun _ => leaves_pure _
  · exact haside.mergeDocuments r

/-- a promotion leaves all files but the delivered document, the system document and the target -/
theorem leaves_promote {incoming : Path} (hincoming : incoming.key ≠ p.key)
    (hsystem : ps.system.key ≠ p.key) (htarget : ps.target.key ≠ p.key) :
    Leaves (Workspace.bytes p) (r.promote incoming ps : ReconcileM Guarded _) := by
  apply (Guarded.leaves_onStore (Guarded.leaves_bytes (Guarded.leaves_isFile incoming) p) _).bind
  intro there
  split
  · apply ((aside_bytes hsystem).copy incoming).attempt.bind
    intro staged
    apply (Guarded.leaves_onStore (Guarded.leaves_remove hincoming) _).attempt.bind
    intro _
    split
    · exact (r.leaves_reconcile ps htarget).bind fun _ => leaves_pure _
    · exact leaves_throw _
  · exact leaves_pure _

end Reconciler

end

end ConfigReconcile
