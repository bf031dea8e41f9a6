import ConfigReconcile.Decimal.Word
import ConfigReconcile.Json.Value
import ConfigReconcile.Settings.Format

/-!
# Settings in JSON

* `Settings.ofJson?`   the settings that a JSON value says;
* `Settings.toJson`    the JSON value of settings, every field written out.
-/

namespace ConfigReconcile

open Json

/-- JSON values as they are -/
def jsonFormat : Format Json.Value where
  parts? v :=
    match v with
    | .object fs => some (.fields (fs.map fun (k, v) => (.name k, v)))
    | .array xs => some (.items xs)
    | _ => none
  boolean? v :=
    match v with
    | .bool b => some b
    | _ => none
  word? v :=
    match v with
    | .number (.natural n) => Decimal.word? n
    | _ => none
  text? v :=
    match v with
    | .string s => some s
    | _ => none
  isNull? v :=
    match v with
    | .null => some true
    | _ => some false

namespace LayoutSetting

def ofJson? (v : Json.Value) : Option LayoutSetting := jsonFormat.layout? v

def toJson (l : LayoutSetting) : Json.Value :=
  match l with
  | .single => .object [("kind", .string l.name)]
  | .versioned directory retain =>
    .object [("directory", .string directory.text), ("kind", .string l.name),
      ("retain", .number (.natural retain.toNat))]

end LayoutSetting

namespace BackupSettings

def toJson (b : BackupSettings) : Json.Value :=
  .object [("debounce_ms", .number (.natural b.debounceMs.toNat)), ("enabled", .bool b.enabled),
    ("layout", b.layout.toJson), ("queue_capacity", .number (.natural b.queueCapacity.toNat))]

end BackupSettings

namespace PathSettings

def ofJson? (v : Json.Value) : Option PathSettings := jsonFormat.paths? v

def toJson (p : PathSettings) : Json.Value :=
  .object [("backup_file", .string p.backupFile.text),
    ("incoming_file",
      match p.incomingFile? with
      | some q => .string q.text
      | none => .null),
    ("root", .string p.root.text), ("staged_system_file", .string p.stagedSystemFile.text),
    ("target_file", .string p.targetFile.text), ("user_file", .string p.userFile.text)]

end PathSettings

namespace Settings

def ofJson? (v : Json.Value) : Option Settings := jsonFormat.settings? jsonFormat.layout? v

def toJson (s : Settings) : Json.Value :=
  .object [("backup", s.backup.toJson), ("merge", .object [("strategy", .string s.merge.strategy)]),
    ("paths", s.paths.toJson)]

end Settings

end ConfigReconcile
