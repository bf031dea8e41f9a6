import ConfigReconcile.Backup.Layout
import ConfigReconcile.Reconcile

/-!
# Backup cycles

A cycle takes a fresh export, writes it as a backup, and reconciles it with the user document into
the target.  A step that fails ends the cycle.

* `Cycle.store`   what a cycle does once there is an export.  The one backup of a single layout is
                  removed only after it has been folded in;
* `Cycle.run`     a whole cycle;
* `promoteIncoming`   what is done once when the host has started: a delivered document replaces
                  the staged one, which is then reconciled.
-/

namespace ConfigReconcile

open Text

/-- why a cycle has failed, or an operation on the scheduler -/
inductive BackupError where
  | exportFailed (reason : String)
  | store (cause : StoreError)
  | reconcile (cause : ReconcileError)
  | alreadyStarted
  | stopped
  | disabled
  deriving DecidableEq, Repr

/-- the wording of an error -/
def BackupError.message : BackupError → String
  | .exportFailed reason => "Export failed: " ++ reason
  | .store e => e.message
  | .reconcile e => e.message
  | .alreadyStarted => "Backup scheduler already started"
  | .stopped => "Backup scheduler is stopped"
  | .disabled => "Automatic backup is disabled"

/-- what a cycle has done -/
structure CycleReport where
  backup : Path
  outcome : Outcome
  /-- the backups that had to go -/
  pruned : List Path
  deriving DecidableEq, Repr

structure Cycle where
  reconciler : Reconciler
  layout : BackupLayout
  user : Path
  target : Path
  deriving DecidableEq, Inhabited

namespace Cycle

/-- the cycle of given settings -/
def ofSettings (s : Settings) (defaultDocument? : Option Bytes) : Cycle :=
  let paths := s.paths.resolve
  { reconciler := {
      strategy := (Strategy.ofName? s.merge.strategy).getD .deepMerge
      defaultDocument? }
    layout := .ofSettings s.backup.layout paths
    user := paths.user
    target := paths.target }

section
variable {σ α : Type}

abbrev CycleM (σ : Type) := EStateM BackupError (Workspace σ)

/-- an operation on the store of a cycle -/
def onStore (act : StoreM σ α) : CycleM σ α := fun w =>
  match act w.store with
  | .ok a s => .ok a { w with store := s }
  | .error e s => .error (.store e) { w with store := s }

/-- a reconciliation in a cycle -/
def reconciling (act : ReconcileM σ α) : CycleM σ α := fun w =>
  match act w with
  | .ok a w' => .ok a w'
  | .error e w' => .error (.reconcile e) w'

variable [Store σ]

/-- makes the directory in which the backup is to stand -/
def makeParent (p : Path) : CycleM σ Unit :=
  match p.parent? with
  | none => pure ()
  | some d => if d.text = "" then pure () else onStore (Store.makeDirectory d)

/-- what a cycle that starts at a given time does with an export -/
def store (c : Cycle) (start : Instant) (snapshot : Bytes) : CycleM σ CycleReport := do
  let backup := c.layout.backupPath start
  makeParent backup
  onStore (Store.write backup snapshot)
  let outcome ← reconciling (c.reconciler.reconcile ⟨backup, c.user, c.target⟩)
  let pruned ←
    match c.layout with
    | .single _ => do
      onStore (Store.remove backup)
      pure []
    | .versioned .. => onStore c.layout.prune
  return ⟨backup, outcome, pruned⟩

/-- a whole cycle, with the export or the reason why there is none -/
def run (c : Cycle) (start : Instant) (snapshot : Except String Bytes) : CycleM σ CycleReport :=
  match snapshot with
  | .ok b => c.store start b
  | .error reason => throw (.exportFailed reason)

end

end Cycle

/-- reconciles a delivered document, if one is expected and there -/
def promoteIncoming {σ : Type} [Store σ] (r : Reconciler) (p : ResolvedPaths) :
    ReconcileM σ (Option Outcome) :=
  match p.incoming? with
  | none => pure none
  | some incoming => r.promote incoming ⟨p.stagedSystem, p.user, p.target⟩

end ConfigReconcile
