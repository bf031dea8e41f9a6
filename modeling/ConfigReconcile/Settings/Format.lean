import ConfigReconcile.Settings.Basic

/-!
# Settings in a data format

A `Format` says how the values of a data format are taken for booleans, numbers, texts and records.
A record is a collection of fields by name, or their values in order.  Fields that are not there
have their defaults, fields that nobody knows do not count, and no known field may be there twice.

* `Format.layout?`     a layout: a record with a field `kind`, or with the kind in front;
* `Format.settings?`   the settings that a value says.
-/

namespace ConfigReconcile

/-- what a field of a record is called -/
inductive FieldKey where
  | name (s : String)
  /-- the place of the field in its record -/
  | position (n : Nat)
  /-- nothing that a field can be called -/
  | other
  deriving DecidableEq, Repr

/-- a value as a record -/
inductive Parts (α : Type) where
  | fields (fs : List (FieldKey × α))
  | items (xs : List α)

namespace Parts

variable {α : Type}

/-- the values that are there for a field -/
def valuesAt (p : Parts α) (position : Nat) (name : String) : List α :=
  match p with
  | .items xs => xs[position]?.toList
  | .fields fs =>
    fs.filterMap fun (k, v) => if k = .name name ∨ k = .position position then some v else none

/-- whether the parts can be those of a record with `count` fields -/
def fits (p : Parts α) (surplus : Bool) (count : Nat) : Bool :=
  match p with
  | .items xs => surplus || xs.length ≤ count
  | .fields fs => fs.all (·.1 ≠ .other)

/-- the value of a field, or its default -/
def field? {β : Type} (p : Parts α) (position : Nat) (name : String) (read? : α → Option β)
    (default : β) : Option β :=
  match p.valuesAt position name with
  | [] => some default
  | [v] => read? v
  | _ => none

end Parts

structure Format (α : Type) where
  parts? : α → Option (Parts α)
  boolean? : α → Option Bool
  word? : α → Option UInt64
  text? : α → Option String
  /-- whether a value says that there is nothing -/
  isNull? : α → Option Bool
  /-- whether a record in order may be longer than its fields -/
  surplus : Bool := false

namespace Format

variable {α : Type} (f : Format α)

def path? (v : α) : Option Path := (f.text? v).map Path.mk

/-! ## layouts -/

/-- a layout of a kind -/
def layoutOfKind? (kind : String) (rest : Parts α) : Option LayoutSetting :=
  if kind = "single" then
    match rest with
    | .fields _ => some .single
    | .items xs => if xs.isEmpty then some .single else none
  else if kind = "versioned" then
    if rest.fits false 2 then do
      let directory ← rest.field? 0 "directory" f.path? LayoutSetting.defaultDirectory
      let retain ← rest.field? 1 "retain" f.word? 0
      some (.versioned directory retain)
    else none
  else none

def layout? (v : α) : Option LayoutSetting :=
  match f.parts? v with
  | some (.items (k :: rest)) => do f.layoutOfKind? (← f.text? k) (.items rest)
  | some (.fields fs) =>
    match fs.filter (·.1 = .name "kind") with
    | [(_, k)] => do f.layoutOfKind? (← f.text? k) (.fields (fs.filter (·.1 ≠ .name "kind")))
    | _ => none
  | _ => none

/-! ## settings -/

/-- a record with `count` fields -/
def record? (count : Nat) (v : α) : Option (Parts α) :=
  (f.parts? v).filter fun p => p.fits f.surplus count

def backup? (layout? : α → Option LayoutSetting) (v : α) : Option BackupSettings := do
  let p ← f.record? 4 v
  let enabled ← p.field? 0 "enabled" f.boolean? false
  let debounceMs ← p.field? 1 "debounce_ms" f.word? 500
  let queueCapacity ← p.field? 2 "queue_capacity" f.word? 200
  let layout ← p.field? 3 "layout" layout? .single
  some { enabled, debounceMs, queueCapacity, layout }

/-- a path that may be missing -/
def optionalPath? (v : α) : Option (Option Path) := do
  if ← f.isNull? v then some none else (f.path? v).map some

def paths? (v : α) : Option PathSettings := do
  let p ← f.record? 6 v
  let standard : PathSettings := {}
  let root ← p.field? 0 "root" f.path? standard.root
  let userFile ← p.field? 1 "user_file" f.path? standard.userFile
  let backupFile ← p.field? 2 "backup_file" f.path? standard.backupFile
  let targetFile ← p.field? 3 "target_file" f.path? standard.targetFile
  let stagedSystemFile ← p.field? 4 "staged_system_file" f.path? standard.stagedSystemFile
  let incomingFile? ← p.field? 5 "incoming_file" f.optionalPath? none
  some { root, userFile, backupFile, targetFile, stagedSystemFile, incomingFile? }

def merge? (v : α) : Option MergeSettings := do
  let p ← f.record? 1 v
  let strategy ← p.field? 0 "strategy" f.text? Strategy.deepMerge.name
  some { strategy }

/-- the settings that a value says; `layout?` reads the layout -/
def settings? (layout? : α → Option LayoutSetting) (v : α) : Option Settings := do
  let p ← f.record? 3 v
  let backup ← p.field? 0 "backup" (f.backup? layout?) {}
  let paths ← p.field? 1 "paths" f.paths? {}
  let merge ← p.field? 2 "merge" f.merge? {}
  some { backup, paths, merge }

end Format

end ConfigReconcile
