import ConfigReconcile.Document.Merge
import ConfigReconcile.Document.Reading
import ConfigReconcile.Document.Render
import ConfigReconcile.Store.Basic

/-!
# Reconciling documents

The system document is folded into the user document, and the effective document is written to the
target:

| system  | user    | target                                        |
|---------|---------|-----------------------------------------------|
| absent  | absent  | a default document, which somebody produces   |
| absent  | present | the user document, byte for byte              |
| present | absent  | the system document, byte for byte            |
| present | present | the merge of both, unless nothing is left     |

A user document that is null counts as absent.

* `reconcile`   one run by the table;
* `promote`     moves an incoming document to the system document first.  The incoming document is
                removed whether or not it could be copied.
-/

namespace ConfigReconcile

open Text

/-- the paths of the three documents -/
structure DocumentPaths where
  system : Path
  user : Path
  target : Path
  deriving DecidableEq, Repr, Inhabited

/-- what a run has done -/
inductive Outcome where
  | producedDefault
  | copiedUser
  | copiedSystem
  | merged
  | mergedEmpty
  deriving DecidableEq, Repr

def Outcome.name : Outcome → String
  | .producedDefault => "produced_default"
  | .copiedUser => "copied_user"
  | .copiedSystem => "copied_system"
  | .merged => "merged"
  | .mergedEmpty => "merged_empty"

inductive ReconcileError where
  | store (cause : StoreError)
  | document (path : Path) (cause : DocumentError)
  | missingDirectory (path : Path) (reason : String)
  | defaultDocument (reason : String)
  deriving DecidableEq, Repr

/-- the wording of an error -/
def ReconcileError.message : ReconcileError → String
  | .store e => e.message
  | .document p e => "Invalid document " ++ p.text ++ ": " ++ e.message
  | .missingDirectory p reason => "Cannot create directory " ++ p.text ++ ": " ++ reason
  | .defaultDocument reason => "Default document production failed: " ++ reason

/-- a store, and the targets that a default document has been asked for -/
structure Workspace (σ : Type) where
  store : σ
  requests : List Path := []
  deriving DecidableEq, Inhabited

/-- how documents are merged, and the default document, if one can be produced -/
structure Reconciler where
  strategy : Strategy := .deepMerge
  defaultDocument? : Option Bytes := none
  deriving DecidableEq, Inhabited

abbrev ReconcileM (σ : Type) := EStateM ReconcileError (Workspace σ)

/-- the result of an action, be it an error -/
def attempt {ε ε' σ α : Type} (act : EStateM ε σ α) : EStateM ε' σ (Except ε α) := fun s =>
  match act s with
  | .ok a s' => .ok (.ok a) s'
  | .error e s' => .ok (.error e) s'

section
variable {σ α : Type}

/-- an operation on the store; `blame` says what its error means here -/
def onStore (act : StoreM σ α) (blame : StoreError → ReconcileError := .store) : ReconcileM σ α :=
  fun w =>
    match act w.store with
    | .ok a s => .ok a { w with store := s }
    | .error e s => .error (blame e) { w with store := s }

variable [Store σ]

/-- makes the directory in which a file is to stand -/
def ensureParent (p : Path) : ReconcileM σ Unit :=
  match p.parent? with
  | none => pure ()
  | some d =>
    if d.text = "" then pure ()
    else onStore (Store.makeDirectory d) fun e => .missingDirectory d e.message

def copy (source dest : Path) : ReconcileM σ Unit := do
  let b ← onStore (Store.read source)
  ensureParent dest
  onStore (Store.write dest b)

def load (p : Path) : ReconcileM σ Node := do
  match Node.parseBytes (← onStore (Store.read p)) with
  | .ok n => pure n
  | .error e => throw (.document p e)

namespace Reconciler

/-- asks for a default document at the target -/
def produceDefault (r : Reconciler) (target : Path) : ReconcileM σ Unit := do
  modify fun w => { w with requests := w.requests ++ [target] }
  match r.defaultDocument? with
  | none => throw (.defaultDocument "default document unavailable")
  | some b => onStore (Store.write target b) fun e => .defaultDocument e.message

def mergeDocuments (r : Reconciler) (ps : DocumentPaths) : ReconcileM σ Outcome := do
  let user ← load ps.user
  if user.isNull then
    copy ps.system ps.target
    return .copiedSystem
  let system ← load ps.system
  match (r.strategy.merge user system).render with
  | none => return .mergedEmpty
  | some text =>
    ensureParent ps.target
    onStore (Store.write ps.target (Utf8.encode text))
    return .merged

def reconcile (r : Reconciler) (ps : DocumentPaths) : ReconcileM σ Outcome := do
  let system ← onStore (Store.isFile ps.system)
  let user ← onStore (Store.isFile ps.user)
  match system, user with
  | false, false =>
    ensureParent ps.target
    r.produceDefault ps.target
    return .producedDefault
  | false, true =>
    copy ps.user ps.target
    return .copiedUser
  | true, false =>
    copy ps.system ps.target
    return .copiedSystem
  | true, true => r.mergeDocuments ps

/-- moves the incoming document to the system document and reconciles, if there is one -/
def promote (r : Reconciler) (incoming : Path) (ps : DocumentPaths) :
    ReconcileM σ (Option Outcome) := do
  if ← onStore (Store.isFile incoming) then
    let staged ← attempt (copy incoming ps.system)
    let _ ← attempt (onStore (Store.remove incoming))
    match staged with
    | .ok () => some <$> r.reconcile ps
    | .error e => throw e
  else return none

end Reconciler

end

end ConfigReconcile
