/-!
# Saves

What the host has saved.  Only the configuration of the whole system calls for a backup.
-/

namespace ConfigReconcile

inductive SaveKind where
  | globalConfiguration
  | item
  | other
  deriving DecidableEq, Repr, Inhabited

namespace SaveKind

def name : SaveKind → String
  | .globalConfiguration => "global_configuration"
  | .item => "item"
  | .other => "other"

/-- the kind of a name -/
def ofName? (s : String) : Option SaveKind :=
  [globalConfiguration, item, other].find? (·.name = s)

/-- whether a save calls for a backup -/
def callsForBackup (k : SaveKind) : Bool := k = .globalConfiguration

end SaveKind

end ConfigReconcile
