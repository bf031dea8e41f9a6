import ConfigReconcile.Settings.Environment
import ConfigReconcile.Proofs.Decimal.Spelling
import ConfigReconcile.Proofs.Document.Entries
import ConfigReconcile.Proofs.Settings.Revision
import ConfigReconcile.Proofs.Text.Utf8

/-!
# Settings are loaded as they were written

* `Environment.Says e s`     the variables of `e` say the settings `s`; variables that nobody asks
                             for may be anything;
* `PathSettings.Filled`      no path is empty;
* `ofEnvironment_of_says`    what is read of the variables;
* `loading_undoes_writing`   the same of JSON and of the variables.
-/

namespace ConfigReconcile

open Text Decimal

/-! ## one variable -/

namespace Environment

/-- what a variable is set to -/
def value? (e : Environment) (name : String) : Option Bytes := Entries.get? e.entries name

section

variable {e : Environment} {name text : String}

theorem value?_eq_find? (e : Environment) (name : String) :
    e.value? name = (e.entries.find? (·.1 = name)).map (·.2) := by
  unfold value?
  induction e.entries with
  | nil => rfl
  | cons v vs ih =>
    rw [Entries.get?_cons, ih]
    by_cases h : v.1 = name <;> simp [h]

theorem text?_eq (e : Environment) (name : String) :
    e.text? name = (e.value? name).bind fun b => (Utf8.decode b).toOption := by
  rw [text?, value?_eq_find?]
  cases e.entries.find? (·.1 = name) <;> rfl

theorem text?_of_value (h : e.value? name = some (Utf8.encode text)) :
    e.text? name = some text := by
  rw [text?_eq, h, Option.bind_some, Utf8.decode_encode]
  rfl

theorem path?_of_value {p : Path} (h : e.value? name = some (Utf8.encode p.text))
    (hp : p.text ≠ "") : e.path? name = some p := by
  rw [path?, text?_of_value h, Option.filter_some_pos (by simpa using hp)]
  rfl

theorem path?_of_unset (h : e.value? name = none) : e.path? name = none := by
  rw [path?, text?_eq, h]
  rfl

theorem word?_of_value {n : UInt64}
    (h : e.value? name = some (Utf8.encode (Settings.wordText n))) : e.word? name = some n := by
  rw [word?, text?_of_value h, Option.bind_some, Settings.wordText, String.toList_ofList,
    natural?_toDigits]
  exact word?_toNat n

end

end Environment

/-! ## all of them -/

/-- no path is empty -/
structure PathSettings.Filled (p : PathSettings) : Prop where
  root : p.root.text ≠ ""
  userFile : p.userFile.text ≠ ""
  backupFile : p.backupFile.text ≠ ""
  targetFile : p.targetFile.text ≠ ""
  stagedSystemFile : p.stagedSystemFile.text ≠ ""
  incomingFile : ∀ q, p.incomingFile? = some q → q.text ≠ ""

/-- the variables say the settings: each variable of a field has the text of the field.  A single
layout has no variables but its own, so those of a directory may be anything. -/
structure Environment.Says (e : Environment) (s : Settings) : Prop where
  set : ∀ v ∈ s.toEnvironment, e.value? v.1 = some (Utf8.encode v.2)
  unset : s.paths.incomingFile? = none → e.value? "CASC_INCOMING_FILE" = none

theorem Settings.nodup_toEnvironment (s : Settings) : (s.toEnvironment.map (·.1)).Nodup := by
  cases hl : s.backup.layout <;> cases hi : s.paths.incomingFile? <;>
    simp [toEnvironment, hl, hi]

/-- the variables of settings say them, whatever others there are -/
theorem Settings.says_toEnvironment (s : Settings) (others : List (String × Bytes))
    (h : "CASC_INCOMING_FILE" ∉ Entries.keys others) :
    Environment.Says ⟨(Environment.ofTexts s.toEnvironment).entries ++ others⟩ s where
  set := by
    intro v hv
    have hn : (Entries.keys (Environment.ofTexts s.toEnvironment).entries).Nodup := by
      simpa [Entries.keys, Environment.ofTexts, Function.comp_def] using s.nodup_toEnvironment
    have hm : (v.1, Utf8.encode v.2) ∈ (Environment.ofTexts s.toEnvironment).entries :=
      List.mem_map_of_mem hv
    rw [Environment.value?, Entries.get?_append, Entries.get?_of_mem hn hm]
    rfl
  unset := by
    intro hi
    have hs : "CASC_INCOMING_FILE" ∉
        Entries.keys (Environment.ofTexts s.toEnvironment).entries := by
      cases hl : s.backup.layout <;>
        simp [Entries.keys, Environment.ofTexts, toEnvironment, hl, hi]
    rw [Environment.value?, Entries.get?_append, (Entries.get?_eq_none_iff _ _).mpr hs,
      (Entries.get?_eq_none_iff _ _).mpr h]
    rfl

section

variable {e : Environment} {s : Settings}

theorem Environment.Says.text? (h : e.Says s) {name text : String}
    (hm : (name, text) ∈ s.toEnvironment) : e.text? name = some text :=
  text?_of_value (h.set _ hm)

theorem Environment.Says.word? (h : e.Says s) {name : String} {n : UInt64}
    (hm : (name, Settings.wordText n) ∈ s.toEnvironment) : e.word? name = some n :=
  word?_of_value (h.set _ hm)

theorem Environment.Says.path? (h : e.Says s) {name : String} {p : Path}
    (hm : (name, p.text) ∈ s.toEnvironment) (hp : p.text ≠ "") : e.path? name = some p :=
  path?_of_value (h.set _ hm) hp

theorem layoutOfEnvironment_of_says (h : e.Says s) :
    LayoutSetting.ofEnvironment e = .ok s.backup.layout := by
  have hkind : e.text? "CASC_AUTO_BACKUP_LAYOUT" = some s.backup.layout.name :=
    h.text? (by simp [Settings.toEnvironment])
  unfold LayoutSetting.ofEnvironment
  rw [hkind]
  cases hl : s.backup.layout with
  | single => rfl
  | versioned directory retain =>
    -- the directory may be empty here, so it is taken as a text and not as a path
    have hdirectory : e.text? "CASC_AUTO_BACKUP_DIR" = some directory.text :=
      h.text? (by simp [Settings.toEnvironment, hl])
    have hretain : e.word? "CASC_AUTO_BACKUP_RETAIN" = some retain :=
      h.word? (by simp [Settings.toEnvironment, hl])
    rw [hdirectory, hretain]
    rfl

theorem incomingOfEnvironment_of_says (h : e.Says s) (hp : s.paths.Filled) :
    e.path? "CASC_INCOMING_FILE" = s.paths.incomingFile? := by
  cases hi : s.paths.incomingFile? with
  | none => exact Environment.path?_of_unset (h.unset hi)
  | some p => exact h.path? (by simp [Settings.toEnvironment, hi]) (hp.incomingFile p hi)

theorem pathsOfEnvironment_of_says (h : e.Says s) (hp : s.paths.Filled) :
    PathSettings.ofEnvironment e = s.paths := by
  have hroot : e.path? "CASC_ROOT" = some s.paths.root :=
    h.path? (by simp [Settings.toEnvironment]) hp.root
  have huser : e.path? "CASC_USER_FILE" = some s.paths.userFile :=
    h.path? (by simp [Settings.toEnvironment]) hp.userFile
  have hbackup : e.path? "CASC_BACKUP_FILE" = some s.paths.backupFile :=
    h.path? (by simp [Settings.toEnvironment]) hp.backupFile
  have htarget : e.path? "CASC_TARGET_FILE" = some s.paths.targetFile :=
    h.path? (by simp [Settings.toEnvironment]) hp.targetFile
  have hstaged : e.path? "CASC_STAGED_SYSTEM_FILE" = some s.paths.stagedSystemFile :=
    h.path? (by simp [Settings.toEnvironment]) hp.stagedSystemFile
  rw [PathSettings.ofEnvironment, hroot, huser, hbackup, htarget, hstaged,
    incomingOfEnvironment_of_says h hp]
  rfl

theorem Settings.ofEnvironment_of_says (h : e.Says s) (hp : s.paths.Filled) :
    Settings.ofEnvironment e = .ok s := by
  have henabled : e.text? "CASC_AUTO_BACKUP" =
      some (if s.backup.enabled then "true" else "false") :=
    h.text? (by simp [Settings.toEnvironment])
  have hdebounce : e.word? "CASC_AUTO_BACKUP_DEBOUNCE_MS" = some s.backup.debounceMs :=
    h.word? (by simp [Settings.toEnvironment])
  have hcapacity : e.word? "CASC_AUTO_BACKUP_QUEUE_CAPACITY" = some s.backup.queueCapacity :=
    h.word? (by simp [Settings.toEnvironment])
  have hstrategy : e.text? "CASC_MERGE_STRATEGY" = some s.merge.strategy :=
    h.text? (by simp [Settings.toEnvironment])
  have htrue : decide (some (if s.backup.enabled then "true" else "false") = some "true") =
      s.backup.enabled := by
    cases s.backup.enabled <;> decide
  rw [Settings.ofEnvironment, layoutOfEnvironment_of_says h, pathsOfEnvironment_of_says h hp,
    henabled, hdebounce, hcapacity, hstrategy, htrue]
  rfl

end

/-! ## loading -/

/-- Settings are read back from their JSON, and from that JSON without some of its fields with the
defaults in their places; they are read back from the variables that say them as well, as long as no
path is empty. -/
theorem Settings.loading_undoes_writing (s : Settings) :
    Settings.ofJson? s.toJson = some s ∧
    (∀ (gone : List (List String)) (v : Json.Value),
      (["backup", "layout", "kind"] ∈ gone → ["backup"] ∈ gone ∨ ["backup", "layout"] ∈ gone) →
      Json.Revised gone [] s.toJson v → Settings.ofJson? v = some (s.reset gone)) ∧
    (s.paths.Filled → ∀ e : Environment, e.Says s → Settings.ofEnvironment e = .ok s) :=
  ⟨s.ofJson?_toJson, fun _ _ hkind h => ofJson?_of_revised hkind s h,
    fun hp _ h => ofEnvironment_of_says h hp⟩

/-- a section, a directory and two numbers left out and a field added in each object that is left;
variables of no text beside those of the settings -/
theorem Settings.loading_undoes_writing_versioned :
    let backup : BackupSettings := { enabled := true, debounceMs := 18446744073709551615 }
    let s : Settings := {
      backup := { backup with queueCapacity := 50, layout := .versioned ⟨""⟩ 3 }
      paths := { root := ⟨"/var/host"⟩, incomingFile? := some ⟨"in.yaml"⟩ }
      merge := { strategy := "été" } }
    let gone := [["backup", "queue_capacity"], ["backup", "layout", "directory"],
      ["backup", "layout", "retain"], ["paths"]]
    let w : Json.Value := .object [
      ("layout", .object [("colour", .bool true), ("kind", .string "versioned")]),
      ("enabled", .bool true), ("debounce_ms", .number (.natural 18446744073709551615)),
      ("every", .array [])]
    let v : Json.Value := .object [("note", .null),
      ("merge", .object [("strategy", .string "été"), ("depth", .number (.natural 2))]),
      ("backup", w)]
    let e : Environment := ⟨(Environment.ofTexts s.toEnvironment).entries ++ [("HOME", [0xFF])]⟩
    Json.Revised gone [] s.toJson v ∧ s.paths.Filled ∧ e.Says s ∧
      Settings.ofJson? s.toJson = some s ∧
      Settings.ofJson? v = some
        { backup := { backup with layout := .versioned ⟨"casc_backups"⟩ 0 }, merge := s.merge } ∧
      Settings.ofEnvironment e = .ok s := by
  intro backup s gone w v e
  have hlayout : Json.Revised gone ["backup", "layout"] s.backup.layout.toJson
      (.object [("colour", .bool true), ("kind", .string "versioned")]) :=
    .object (.out (by decide) rfl (.kept (by decide) rfl (.leaf nofun)
      (.out (by decide) rfl .nil)))
  have hbackup : Json.Revised gone ["backup"] s.backup.toJson w :=
    .object (.kept (by decide) rfl (.leaf nofun) (.kept (by decide) rfl (.leaf nofun)
      (.kept (by decide) rfl hlayout (.out (by decide) rfl .nil))))
  have hmerge : Json.Revised gone ["merge"] (.object [("strategy", .string "été")])
      (.object [("strategy", .string "été"), ("depth", .number (.natural 2))]) :=
    .object (.kept (by decide) rfl (.leaf nofun) .nil)
  have hv : Json.Revised gone [] s.toJson v :=
    .object (.kept (by decide) rfl hbackup (.kept (by decide) rfl hmerge
      (.out (by decide) rfl .nil)))
  have hp : s.paths.Filled := by
    constructor <;> simp [s]
  have he : e.Says s := s.says_toEnvironment _ (by decide)
  obtain ⟨hread, hrevised, hloaded⟩ := loading_undoes_writing s
  refine ⟨hv, hp, he, hread, ?_, hloaded hp e he⟩
  rw [hrevised gone v (by decide) hv]
  rfl

end ConfigReconcile
