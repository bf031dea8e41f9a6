import ConfigReconcile.Settings.Json
import Mathlib.Data.List.Basic

/-!
# Settings whose JSON was revised

Fields may be left out of the JSON of settings, whole records as well, and fields of other names
may be added.

* `Json.Revised gone`       how a value may look once the fields at the places `gone` are left out;
* `Settings.reset gone`     settings with their defaults at those places;
* `RevisedFields.field?`    a field that is out is read as its default, any other as it was;
* `ofJson?_of_revised`      revised settings are read as the reset ones;
* `ofJson?_toJson`          settings are read back as they were written.
-/

namespace ConfigReconcile

namespace Json

open Value

/-- the values of the fields of a name -/
def valuesOf (k : String) (fs : List (String × Value)) : List Value :=
  (fs.filter (·.1 = k)).map (·.2)

mutual

/-- `Revised gone place v w`: without the fields in `gone`, and with others added, `v` may look like
`w`.  A field is known by the names on the way to it, and `place` is where `v` itself is. -/
inductive Revised (gone : List (List String)) : List String → Value → Value → Prop where
  | leaf {place : List String} {v : Value} (h : ∀ fs, v ≠ .object fs) : Revised gone place v v
  | object {place : List String} {fs gs : List (String × Value)}
      (h : RevisedFields gone place fs gs) : Revised gone place (.object fs) (.object gs)

/-- what has become of some fields of an object whose fields are now `gs` -/
inductive RevisedFields (gone : List (List String)) :
    List String → List (String × Value) → List (String × Value) → Prop where
  | nil {place : List String} {gs : List (String × Value)} : RevisedFields gone place [] gs
  | out {place : List String} {k : String} {v : Value} {fs gs : List (String × Value)}
      (hk : place ++ [k] ∈ gone) (hv : valuesOf k gs = []) (h : RevisedFields gone place fs gs) :
      RevisedFields gone place ((k, v) :: fs) gs
  | kept {place : List String} {k : String} {v w : Value} {fs gs : List (String × Value)}
      (hk : place ++ [k] ∉ gone) (hw : valuesOf k gs = [w]) (hv : Revised gone (place ++ [k]) v w)
      (h : RevisedFields gone place fs gs) : RevisedFields gone place ((k, v) :: fs) gs

end

section

variable {gone : List (List String)} {place : List String} {v w : Value}
  {fs gs : List (String × Value)} {k : String}

theorem Revised.eq_of_leaf (h : Revised gone place v w) (hv : ∀ fs, v ≠ .object fs) : w = v := by
  cases h with
  | leaf _ => rfl
  | object _ => exact absurd rfl (hv _)

theorem Revised.fields (h : Revised gone place (.object fs) w) :
    ∃ gs, w = .object gs ∧ RevisedFields gone place fs gs := by
  cases h with
  | leaf h => exact absurd rfl (h fs)
  | object h => exact ⟨_, rfl, h⟩

theorem RevisedFields.of_mem (h : RevisedFields gone place fs gs) (hm : (k, v) ∈ fs) :
    place ++ [k] ∈ gone ∧ valuesOf k gs = [] ∨
    place ++ [k] ∉ gone ∧ ∃ w, valuesOf k gs = [w] ∧ Revised gone (place ++ [k]) v w := by
  induction fs with
  | nil => cases hm
  | cons f fs ih =>
    cases h with
    | out hk hv h =>
      cases hm with
      | head => exact .inl ⟨hk, hv⟩
      | tail _ hm => exact ih h hm
    | kept hk hw hv h =>
      cases hm with
      | head => exact .inr ⟨hk, _, hw, hv⟩
      | tail _ hm => exact ih h hm

end

end Json

open Json

/-! ## one field -/

namespace Parts

variable {α : Type}

/-- fields by their names -/
def keyed (fs : List (String × α)) : List (FieldKey × α) := fs.map fun f => (.name f.1, f.2)

/-- a record of fields by their names -/
def named (fs : List (String × α)) : Parts α := .fields (keyed fs)

theorem fits_named (fs : List (String × α)) (surplus : Bool) (n : Nat) :
    (named fs).fits surplus n = true := by
  simp [fits, named, keyed]

theorem valuesAt_named (fs : List (String × Json.Value)) (i : Nat) (k : String) :
    (named fs).valuesAt i k = valuesOf k fs := by
  rw [named, keyed, valuesAt, valuesOf, List.filterMap_map, ← List.filterMap_eq_map,
    List.filterMap_filter]
  refine List.filterMap_congr fun f _ => ?_
  simp

theorem field?_filter_ne {β : Type} {j k : String} (h : k ≠ j) (fs : List (String × Json.Value))
    (i : Nat) (read? : Json.Value → Option β) (d : β) :
    (named (fs.filter (·.1 ≠ j))).field? i k read? d = (named fs).field? i k read? d := by
  have hv : valuesOf k (fs.filter (·.1 ≠ j)) = valuesOf k fs := by
    have hf : (fs.filter (·.1 ≠ j)).filter (·.1 = k) = fs.filter (·.1 = k) := by
      rw [List.filter_filter]
      refine List.filter_congr fun f _ => ?_
      by_cases hf : f.1 = k <;> simp [hf, h]
    rw [valuesOf, valuesOf, hf]
  rw [field?, field?, valuesAt_named, valuesAt_named, hv]

end Parts

theorem record?_object (n : Nat) (gs : List (String × Json.Value)) :
    jsonFormat.record? n (.object gs) = some (.named gs) :=
  Option.filter_some_pos (Parts.fits_named gs _ n)

namespace Json.RevisedFields

variable {gone : List (List String)} {place : List String} {fs gs : List (String × Json.Value)}

/-- a field that is out has its default, any other is read as it is -/
theorem field? {β : Type} {k : String} {v : Json.Value} {read? : Json.Value → Option β} {x : β}
    (h : RevisedFields gone place fs gs) (hm : (k, v) ∈ fs)
    (hread : place ++ [k] ∉ gone → ∀ w, Revised gone (place ++ [k]) v w → read? w = some x)
    (i : Nat) (d : β) :
    (Parts.named gs).field? i k read? d = some (if place ++ [k] ∈ gone then d else x) := by
  rw [Parts.field?, Parts.valuesAt_named]
  obtain ⟨hk, hv⟩ | ⟨hk, w, hw, hv⟩ := h.of_mem hm
  · rw [hv, if_pos hk]
  · rw [hw, if_neg hk]
    exact hread hk w hv

theorem leaf? {β : Type} {k : String} {v : Json.Value} {read? : Json.Value → Option β} {x : β}
    (h : RevisedFields gone place fs gs) (hm : (k, v) ∈ fs) (hv : ∀ fs, v ≠ .object fs)
    (hread : read? v = some x) (i : Nat) (d : β) :
    (Parts.named gs).field? i k read? d = some (if place ++ [k] ∈ gone then d else x) :=
  h.field? hm (fun _ _ hw => hw.eq_of_leaf hv ▸ hread) i d

theorem boolean? (h : RevisedFields gone place fs gs) (k : String) (b : Bool)
    (hm : (k, .bool b) ∈ fs) (i : Nat) (d : Bool) :
    (Parts.named gs).field? i k jsonFormat.boolean? d =
      some (if place ++ [k] ∈ gone then d else b) :=
  h.leaf? hm nofun (by rfl) i d

theorem word? (h : RevisedFields gone place fs gs) (k : String) (n : UInt64)
    (hm : (k, .number (.natural n.toNat)) ∈ fs) (i : Nat) (d : UInt64) :
    (Parts.named gs).field? i k jsonFormat.word? d =
      some (if place ++ [k] ∈ gone then d else n) :=
  h.leaf? hm nofun (Decimal.word?_toNat n) i d

theorem text? (h : RevisedFields gone place fs gs) (k : String) (t : String)
    (hm : (k, .string t) ∈ fs) (i : Nat) (d : String) :
    (Parts.named gs).field? i k jsonFormat.text? d =
      some (if place ++ [k] ∈ gone then d else t) :=
  h.leaf? hm nofun (by rfl) i d

theorem path? (h : RevisedFields gone place fs gs) (k : String) (p : Path)
    (hm : (k, .string p.text) ∈ fs) (i : Nat) (d : Path) :
    (Parts.named gs).field? i k jsonFormat.path? d =
      some (if place ++ [k] ∈ gone then d else p) :=
  h.leaf? hm nofun (by rfl) i d

end Json.RevisedFields

/-! ## settings with defaults in places -/

section reset

variable (gone : List (List String))

/-- the layout, with its defaults where fields are out -/
def LayoutSetting.reset : LayoutSetting → LayoutSetting
  | .single => .single
  | .versioned directory retain =>
    .versioned (if ["backup", "layout", "directory"] ∈ gone then defaultDirectory else directory)
      (if ["backup", "layout", "retain"] ∈ gone then 0 else retain)

def BackupSettings.reset (b : BackupSettings) : BackupSettings :=
  let standard : BackupSettings := {}
  { enabled := if ["backup", "enabled"] ∈ gone then standard.enabled else b.enabled
    debounceMs := if ["backup", "debounce_ms"] ∈ gone then standard.debounceMs else b.debounceMs
    queueCapacity :=
      if ["backup", "queue_capacity"] ∈ gone then standard.queueCapacity else b.queueCapacity
    layout := if ["backup", "layout"] ∈ gone then standard.layout else b.layout.reset gone }

def PathSettings.reset (p : PathSettings) : PathSettings :=
  let standard : PathSettings := {}
  { root := if ["paths", "root"] ∈ gone then standard.root else p.root
    userFile := if ["paths", "user_file"] ∈ gone then standard.userFile else p.userFile
    backupFile := if ["paths", "backup_file"] ∈ gone then standard.backupFile else p.backupFile
    targetFile := if ["paths", "target_file"] ∈ gone then standard.targetFile else p.targetFile
    stagedSystemFile :=
      if ["paths", "staged_system_file"] ∈ gone then standard.stagedSystemFile
      else p.stagedSystemFile
    incomingFile? :=
      if ["paths", "incoming_file"] ∈ gone then standard.incomingFile? else p.incomingFile? }

def MergeSettings.reset (m : MergeSettings) : MergeSettings :=
  let standard : MergeSettings := {}
  { strategy := if ["merge", "strategy"] ∈ gone then standard.strategy else m.strategy }

/-- the settings, with their defaults where fields are out -/
def Settings.reset (s : Settings) : Settings :=
  let standard : Settings := {}
  { backup := if ["backup"] ∈ gone then standard.backup else s.backup.reset gone
    paths := if ["paths"] ∈ gone then standard.paths else s.paths.reset gone
    merge := if ["merge"] ∈ gone then standard.merge else s.merge.reset gone }

end reset

theorem Settings.reset_nil (s : Settings) : s.reset [] = s := by
  have hlayout : s.backup.layout.reset [] = s.backup.layout := by
    cases s.backup.layout <;> simp [LayoutSetting.reset]
  simp [Settings.reset, BackupSettings.reset, PathSettings.reset, MergeSettings.reset, hlayout]

/-! ## reading -/

section revised

variable {gone : List (List String)} {w : Json.Value}

/-- the kind is read first, then the other fields -/
theorem layout?_object {gs : List (String × Json.Value)} {kind : String}
    (h : valuesOf "kind" gs = [.string kind]) :
    jsonFormat.layout? (.object gs) =
      jsonFormat.layoutOfKind? kind (.named (gs.filter (·.1 ≠ "kind"))) := by
  obtain ⟨f, hf, hv⟩ := List.map_eq_singleton_iff.mp h
  have hparts : jsonFormat.parts? (.object gs) = some (.fields (Parts.keyed gs)) := rfl
  have hkind : (Parts.keyed gs).filter (·.1 = .name "kind") = [(.name f.1, f.2)] := by
    rw [Parts.keyed, List.filter_map]
    simpa [Function.comp_def] using hf
  have hrest : (Parts.keyed gs).filter (·.1 ≠ .name "kind") =
      Parts.keyed (gs.filter (·.1 ≠ "kind")) := by
    rw [Parts.keyed, List.filter_map]
    simp [Parts.keyed, Function.comp_def]
  simp only [Format.layout?, hparts, hkind, hrest, hv]
  rfl

theorem kind_of_revised {place : List String} {gs : List (String × Json.Value)}
    (hkind : place ++ ["kind"] ∉ gone) (l : LayoutSetting)
    (h : Revised gone place l.toJson (.object gs)) : valuesOf "kind" gs = [.string l.name] := by
  have hfields : ∃ fs, l.toJson = .object fs ∧ ("kind", .string l.name) ∈ fs := by
    cases l with
    | single => exact ⟨_, rfl, by simp⟩
    | versioned directory retain => exact ⟨_, rfl, by simp⟩
  obtain ⟨fs, hfs, hm⟩ := hfields
  rw [hfs] at h
  obtain ⟨_, hgs', hgs⟩ := h.fields
  cases hgs'
  obtain ⟨hk, -⟩ | ⟨-, w, hw, hv⟩ := hgs.of_mem hm
  · exact absurd hk hkind
  · rwa [hv.eq_of_leaf nofun] at hw

theorem layout?_of_revised (hkind : ["backup", "layout", "kind"] ∉ gone) (l : LayoutSetting)
    (h : Revised gone ["backup", "layout"] l.toJson w) :
    jsonFormat.layout? w = some (l.reset gone) := by
  cases l with
  | single =>
    obtain ⟨gs, rfl, -⟩ := h.fields
    rw [layout?_object (kind_of_revised hkind _ h)]
    rfl
  | versioned directory retain =>
    obtain ⟨gs, rfl, hgs⟩ := h.fields
    have hdirectory := hgs.path? "directory" directory (by simp)
    have hretain := hgs.word? "retain" retain (by simp)
    rw [layout?_object (kind_of_revised hkind _ h)]
    show jsonFormat.layoutOfKind? "versioned" _ = _
    have hd : "directory" ≠ "kind" := by decide
    have hr : "retain" ≠ "kind" := by decide
    unfold Format.layoutOfKind?
    rw [if_neg (by decide), if_pos rfl, if_pos (Parts.fits_named _ _ _)]
    simp only [Option.bind_eq_bind, Option.bind_some, Parts.field?_filter_ne hd, hdirectory,
      Parts.field?_filter_ne hr, hretain]
    rfl

theorem backup?_of_revised
    (hkind : ["backup", "layout", "kind"] ∈ gone → ["backup", "layout"] ∈ gone)
    (b : BackupSettings) (h : Revised gone ["backup"] b.toJson w) :
    jsonFormat.backup? jsonFormat.layout? w = some (b.reset gone) := by
  obtain ⟨gs, rfl, hgs⟩ := h.fields
  have henabled := hgs.boolean? "enabled" b.enabled (by simp)
  have hdebounce := hgs.word? "debounce_ms" b.debounceMs (by simp)
  have hcapacity := hgs.word? "queue_capacity" b.queueCapacity (by simp)
  have hlayout := hgs.field? (k := "layout") (v := b.layout.toJson) (by simp)
    fun hk _ hw => layout?_of_revised (fun hkind' => hk (hkind hkind')) b.layout hw
  rw [Format.backup?, record?_object]
  simp only [Option.bind_eq_bind, Option.bind_some, henabled, hdebounce, hcapacity, hlayout]
  rfl

theorem optionalPath?_of_revised {place : List String} (p? : Option Path)
    (h : Revised gone place (match p? with | some p => .string p.text | none => .null) w) :
    jsonFormat.optionalPath? w = some p? := by
  cases p? with
  | none =>
    rw [h.eq_of_leaf nofun]
    rfl
  | some p =>
    rw [h.eq_of_leaf nofun]
    rfl

theorem paths?_of_revised (p : PathSettings) (h : Revised gone ["paths"] p.toJson w) :
    jsonFormat.paths? w = some (p.reset gone) := by
  obtain ⟨gs, rfl, hgs⟩ := h.fields
  have hroot := hgs.path? "root" p.root (by simp)
  have huser := hgs.path? "user_file" p.userFile (by simp)
  have hbackup := hgs.path? "backup_file" p.backupFile (by simp)
  have htarget := hgs.path? "target_file" p.targetFile (by simp)
  have hstaged := hgs.path? "staged_system_file" p.stagedSystemFile (by simp)
  have hincoming := hgs.field? (k := "incoming_file") (.tail _ (.head _))
    fun _ _ => optionalPath?_of_revised p.incomingFile?
  rw [Format.paths?, record?_object]
  simp only [Option.bind_eq_bind, Option.bind_some, hroot, huser, hbackup, htarget, hstaged,
    hincoming]
  rfl

theorem merge?_of_revised (m : MergeSettings)
    (h : Revised gone ["merge"] (.object [("strategy", .string m.strategy)]) w) :
    jsonFormat.merge? w = some (m.reset gone) := by
  obtain ⟨gs, rfl, hgs⟩ := h.fields
  have hstrategy := hgs.text? "strategy" m.strategy (by simp)
  rw [Format.merge?, record?_object]
  simp only [Option.bind_eq_bind, Option.bind_some, hstrategy]
  rfl

/-- fields that are out have their defaults; the kind of a layout goes only with the layout -/
theorem Settings.ofJson?_of_revised
    (hkind : ["backup", "layout", "kind"] ∈ gone →
      ["backup"] ∈ gone ∨ ["backup", "layout"] ∈ gone)
    (s : Settings) (h : Revised gone [] s.toJson w) :
    Settings.ofJson? w = some (s.reset gone) := by
  obtain ⟨gs, rfl, hgs⟩ := h.fields
  have hbackup := hgs.field? (k := "backup") (v := s.backup.toJson) (by simp)
    fun hk _ hw => backup?_of_revised (fun h => (hkind h).resolve_left hk) s.backup hw
  have hpaths := hgs.field? (k := "paths") (v := s.paths.toJson) (by simp)
    fun _ _ => paths?_of_revised s.paths
  have hmerge := hgs.field? (k := "merge") (by simp) fun _ _ => merge?_of_revised s.merge
  rw [Settings.ofJson?, Format.settings?, record?_object]
  simp only [Option.bind_eq_bind, Option.bind_some, hbackup, hpaths, hmerge]
  rfl

end revised

/-! ## nothing left out -/

theorem Json.RevisedFields.refl {place : List String} {fs gs : List (String × Json.Value)}
    (h : ∀ f ∈ fs, valuesOf f.1 gs = [f.2] ∧ Revised [] (place ++ [f.1]) f.2 f.2) :
    RevisedFields [] place fs gs := by
  induction fs with
  | nil => exact .nil
  | cons f fs ih =>
    obtain ⟨hw, hv⟩ := h f List.mem_cons_self
    exact .kept List.not_mem_nil hw hv (ih fun f hf => h f (List.mem_cons_of_mem _ hf))

theorem LayoutSetting.revised_toJson (l : LayoutSetting) (place : List String) :
    Revised [] place l.toJson l.toJson := by
  cases l <;> exact .object (.refl (by simp [valuesOf, Revised.leaf]))

theorem BackupSettings.revised_toJson (b : BackupSettings) (place : List String) :
    Revised [] place b.toJson b.toJson :=
  .object (.refl (by simp [valuesOf, Revised.leaf, LayoutSetting.revised_toJson]))

theorem PathSettings.revised_toJson (p : PathSettings) (place : List String) :
    Revised [] place p.toJson p.toJson := by
  refine .object (.refl ?_)
  cases p.incomingFile? <;> simp [valuesOf, Revised.leaf]

theorem Settings.revised_toJson (s : Settings) (place : List String) :
    Revised [] place s.toJson s.toJson := by
  have hmerge (place : List String) : Revised [] place
      (.object [("strategy", .string s.merge.strategy)])
      (.object [("strategy", .string s.merge.strategy)]) :=
    .object (.refl (by simp [valuesOf, Revised.leaf]))
  exact .object (.refl (by
    simp [valuesOf, BackupSettings.revised_toJson, PathSettings.revised_toJson, hmerge]))

/-- settings are read back as they were written -/
theorem Settings.ofJson?_toJson (s : Settings) : Settings.ofJson? s.toJson = some s := by
  have hread := ofJson?_of_revised (by simp) s (s.revised_toJson [])
  rwa [s.reset_nil] at hread

end ConfigReconcile
