import ConfigReconcile.Document.Merge
import ConfigReconcile.Store.Path

/-!
# Settings

* `Settings`          when backups are made, where the documents are, and how they are merged; every
                      field has a default;
* `resolve`           the paths of the documents below the root;
* `a.sameAs b`        equality of settings, paths by their components.
-/

namespace ConfigReconcile

/-- where backups are kept: in one file, or in files of a directory, of which the newest `retain`
stay unless that is zero -/
inductive LayoutSetting where
  | single
  | versioned (directory : Path) (retain : UInt64)
  deriving DecidableEq, Repr, Inhabited

namespace LayoutSetting

def defaultDirectory : Path := ⟨"casc_backups"⟩

def name : LayoutSetting → String
  | .single => "single"
  | .versioned .. => "versioned"

def sameAs : LayoutSetting → LayoutSetting → Bool
  | .single, .single => true
  | .versioned d r, .versioned d' r' => d.key = d'.key && r = r'
  | _, _ => false

end LayoutSetting

structure BackupSettings where
  enabled : Bool := false
  /-- how long signals are gathered, in milliseconds -/
  debounceMs : UInt64 := 500
  queueCapacity : UInt64 := 200
  layout : LayoutSetting := .single
  deriving DecidableEq, Repr, Inhabited

structure PathSettings where
  root : Path := ⟨"."⟩
  /-- written by hand -/
  userFile : Path := ⟨"jenkins.yaml"⟩
  /-- what a cycle exports -/
  backupFile : Path := ⟨"jenkins.backup.yaml"⟩
  /-- the effective document -/
  targetFile : Path := ⟨"casc_config_auto/jenkins.yaml"⟩
  /-- where a delivered document is staged -/
  stagedSystemFile : Path := ⟨"jenkins.yaml.d/system.yaml"⟩
  /-- where a document is delivered -/
  incomingFile? : Option Path := none
  deriving DecidableEq, Repr, Inhabited

structure MergeSettings where
  strategy : String := Strategy.deepMerge.name
  deriving DecidableEq, Repr, Inhabited

structure Settings where
  backup : BackupSettings := {}
  paths : PathSettings := {}
  merge : MergeSettings := {}
  deriving DecidableEq, Repr, Inhabited

/-! ## paths -/

/-- the paths of the documents -/
structure ResolvedPaths where
  root : Path
  user : Path
  backup : Path
  target : Path
  stagedSystem : Path
  incoming? : Option Path
  deriving DecidableEq, Repr, Inhabited

/-- the paths below the root; those that are absolute stand alone -/
def PathSettings.resolve (p : PathSettings) : ResolvedPaths where
  root := p.root
  user := p.root.join p.userFile
  backup := p.root.join p.backupFile
  target := p.root.join p.targetFile
  stagedSystem := p.root.join p.stagedSystemFile
  incoming? := p.incomingFile?.map p.root.join

/-! ## equality -/

namespace PathSettings

/-- the components of all paths -/
def places (p : PathSettings) : List (Option (List (List Nat))) :=
  [some p.root.key, some p.userFile.key, some p.backupFile.key, some p.targetFile.key,
    some p.stagedSystemFile.key, p.incomingFile?.map Path.key]

end PathSettings

def Settings.sameAs (a b : Settings) : Bool :=
  a.backup.enabled = b.backup.enabled && a.backup.debounceMs = b.backup.debounceMs &&
  a.backup.queueCapacity = b.backup.queueCapacity && a.backup.layout.sameAs b.backup.layout &&
  a.paths.places = b.paths.places && a.merge = b.merge

end ConfigReconcile
