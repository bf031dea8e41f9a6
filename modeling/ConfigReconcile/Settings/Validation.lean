import ConfigReconcile.Settings.Basic

/-!
# Valid settings

`Settings.violations` lists what is wrong with settings, in the order of the fields' names.  A field
is wrong in at most one way:

* the debounce time is outside 1 to 60000, or the capacity of the queue outside 1 to 10000;
* the directory of versioned backups is empty;
* the path of a document names no file;
* no strategy has the name.
-/

namespace ConfigReconcile

inductive Violation where
  | outOfRange (field : String) (value min max : UInt64)
  | emptyDirectory (layout : LayoutSetting)
  | noFileName (field : String) (path : Path)
  | unknownStrategy (name : String)
  deriving DecidableEq, Repr

namespace Violation

/-- the name of the field, with that of its section -/
def field : Violation → String
  | .outOfRange f _ _ _ => f
  | .emptyDirectory _ => "backup.layout"
  | .noFileName f _ => f
  | .unknownStrategy _ => "merge.strategy"

/-- what is wrong -/
def code : Violation → String
  | .outOfRange .. => "range"
  | .emptyDirectory _ => "Empty backup directory"
  | .noFileName .. => "Path must name a file"
  | .unknownStrategy _ => "Unknown merge strategy"

end Violation

namespace Settings

def rangeViolation? (field : String) (value min max : UInt64) : Option Violation :=
  if min ≤ value ∧ value ≤ max then none else some (.outOfRange field value min max)

def layoutViolation? (l : LayoutSetting) : Option Violation :=
  match l with
  | .versioned d _ => if d.text = "" then some (.emptyDirectory l) else none
  | .single => none

def fileViolation? (field : String) (p : Path) : Option Violation :=
  if p.fileName? = none then some (.noFileName field p) else none

def strategyViolation? (name : String) : Option Violation :=
  if Strategy.ofName? name = none then some (.unknownStrategy name) else none

/-- what is wrong with settings, field by field -/
def violations (s : Settings) : List Violation :=
  [rangeViolation? "backup.debounce_ms" s.backup.debounceMs 1 60000,
    layoutViolation? s.backup.layout,
    rangeViolation? "backup.queue_capacity" s.backup.queueCapacity 1 10000,
    strategyViolation? s.merge.strategy,
    fileViolation? "paths.backup_file" s.paths.backupFile,
    fileViolation? "paths.staged_system_file" s.paths.stagedSystemFile,
    fileViolation? "paths.target_file" s.paths.targetFile,
    fileViolation? "paths.user_file" s.paths.userFile].filterMap id

end Settings

end ConfigReconcile
