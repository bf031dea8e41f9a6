import ConfigReconcile.Backup.Instant
import ConfigReconcile.Settings.Basic
import ConfigReconcile.Store.Basic

/-!
# Where backups are written

A backup goes into one file, which is removed once it is folded into the target, or into a file of a
directory that is named after the start of its cycle.

* `BackupLayout.backupPath`   the path of the backup of a cycle;
* `BackupLayout.prune`        removes backups of the directory beyond the newest ones that are to
                              stay, oldest first.  The order of names is the order of age.
-/

namespace ConfigReconcile

inductive BackupLayout where
  | single (path : Path)
  | versioned (directory : Path) (retain : Nat)
  deriving DecidableEq, Repr, Inhabited

namespace BackupLayout

def ofSettings (l : LayoutSetting) (p : ResolvedPaths) : BackupLayout :=
  match l with
  | .single => .single p.backup
  | .versioned directory retain => .versioned (p.root.join directory) retain.toNat

def nameStart : String := "jenkins.backup."

def nameEnd : String := ".yaml"

/-- the name of the backup of a cycle -/
def backupName (start : Instant) : String :=
  nameStart ++ String.ofList start.stamp ++ nameEnd

/-- the path of the backup of a cycle -/
def backupPath (l : BackupLayout) (start : Instant) : Path :=
  match l with
  | .single path => path
  | .versioned directory _ => directory.join ⟨backupName start⟩

/-- whether the name of a file is like that of a backup -/
def isVersioned (p : Path) : Bool :=
  match p.fileName? with
  | some name => nameStart.toList.isPrefixOf name && nameEnd.toList.isSuffixOf name
  | none => false

section
variable {σ : Type} [Store σ]

def removeAll : List Path → StoreM σ Unit
  | [] => pure ()
  | p :: ps => do
    Store.remove p
    removeAll ps

/-- removes the oldest backups, so that no more stay than are to; gives the removed ones -/
def prune (l : BackupLayout) : StoreM σ (List Path) :=
  match l with
  | .single _ => pure []
  | .versioned directory retain =>
    if retain = 0 then pure []
    else do
      let backups := (← Store.list directory).filter isVersioned
      let excess := backups.take (backups.length - retain)
      removeAll excess
      return excess

end

end BackupLayout

end ConfigReconcile
