import ConfigReconcile.Decimal.Numeral
import ConfigReconcile.Decimal.Word
import ConfigReconcile.Settings.Basic
import ConfigReconcile.Text.Utf8

/-!
# Settings from the environment

* `Settings.ofEnvironment`   the settings that the variables say.  A variable that is no text counts
                             as not set, a number that cannot be read as well, and so does a path
                             that is empty, save the directory of versioned backups;
* `Settings.toEnvironment` the variables that say given settings.
-/

namespace ConfigReconcile

open Text Decimal

/-- the variables and their values -/
structure Environment where
  entries : List (String × Bytes)
  deriving DecidableEq, Repr, Inhabited

namespace Environment

def ofTexts (vars : List (String × String)) : Environment :=
  ⟨vars.map fun (k, v) => (k, Utf8.encode v)⟩

/-- the text of a variable -/
def text? (e : Environment) (name : String) : Option String :=
  match e.entries.find? (·.1 = name) with
  | some (_, b) => (Utf8.decode b).toOption
  | none => none

/-- a number that fits 64 bits -/
def word? (e : Environment) (name : String) : Option UInt64 :=
  (e.text? name).bind fun s => (natural? s.toList).bind Decimal.word?

/-- a path that is not empty -/
def path? (e : Environment) (name : String) : Option Path :=
  ((e.text? name).filter (· ≠ "")).map Path.mk

end Environment

/-- the one thing that can be wrong with the variables -/
inductive EnvironmentError where
  | unknownLayout (kind : String)
  deriving DecidableEq, Repr

def EnvironmentError.message : EnvironmentError → String
  | .unknownLayout kind => "Unknown backup layout: " ++ kind

def LayoutSetting.ofEnvironment (e : Environment) : Except EnvironmentError LayoutSetting :=
  let kind := (e.text? "CASC_AUTO_BACKUP_LAYOUT").getD "single"
  if kind = "single" then .ok .single
  else if kind = "versioned" then
    .ok (.versioned (((e.text? "CASC_AUTO_BACKUP_DIR").map Path.mk).getD defaultDirectory)
      ((e.word? "CASC_AUTO_BACKUP_RETAIN").getD 0))
  else .error (.unknownLayout kind)

def PathSettings.ofEnvironment (e : Environment) : PathSettings :=
  let standard : PathSettings := {}
  { root := (e.path? "CASC_ROOT").getD standard.root
    userFile := (e.path? "CASC_USER_FILE").getD standard.userFile
    backupFile := (e.path? "CASC_BACKUP_FILE").getD standard.backupFile
    targetFile := (e.path? "CASC_TARGET_FILE").getD standard.targetFile
    stagedSystemFile := (e.path? "CASC_STAGED_SYSTEM_FILE").getD standard.stagedSystemFile
    incomingFile? := e.path? "CASC_INCOMING_FILE" }

namespace Settings

/-- the settings that the variables say -/
def ofEnvironment (e : Environment) : Except EnvironmentError Settings := do
  let layout ← LayoutSetting.ofEnvironment e
  return {
    backup := {
      enabled := e.text? "CASC_AUTO_BACKUP" = some "true"
      debounceMs := (e.word? "CASC_AUTO_BACKUP_DEBOUNCE_MS").getD 500
      queueCapacity := (e.word? "CASC_AUTO_BACKUP_QUEUE_CAPACITY").getD 200
      layout }
    paths := .ofEnvironment e
    merge := { strategy := (e.text? "CASC_MERGE_STRATEGY").getD Strategy.deepMerge.name } }

/-- the digits of a number -/
def wordText (n : UInt64) : String := String.ofList (Nat.toDigits 10 n.toNat)

/-- the variables that say given settings -/
def toEnvironment (s : Settings) : List (String × String) :=
  [("CASC_AUTO_BACKUP", if s.backup.enabled then "true" else "false"),
    ("CASC_AUTO_BACKUP_DEBOUNCE_MS", wordText s.backup.debounceMs),
    ("CASC_AUTO_BACKUP_QUEUE_CAPACITY", wordText s.backup.queueCapacity),
    ("CASC_AUTO_BACKUP_LAYOUT", s.backup.layout.name)] ++
  (match s.backup.layout with
    | .single => []
    | .versioned directory retain =>
      [("CASC_AUTO_BACKUP_DIR", directory.text), ("CASC_AUTO_BACKUP_RETAIN", wordText retain)]) ++
  [("CASC_ROOT", s.paths.root.text), ("CASC_USER_FILE", s.paths.userFile.text),
    ("CASC_BACKUP_FILE", s.paths.backupFile.text), ("CASC_TARGET_FILE", s.paths.targetFile.text),
    ("CASC_STAGED_SYSTEM_FILE", s.paths.stagedSystemFile.text)] ++
  (match s.paths.incomingFile? with
    | some p => [("CASC_INCOMING_FILE", p.text)]
    | none => []) ++
  [("CASC_MERGE_STRATEGY", s.merge.strategy)]

end Settings

end ConfigReconcile
