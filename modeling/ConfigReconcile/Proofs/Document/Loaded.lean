import ConfigReconcile.Document.Reading
import ConfigReconcile.Proofs.Document.Layout
import ConfigReconcile.Proofs.Yaml.Expansion
import ConfigReconcile.Proofs.Yaml.Floats

/-!
# Trees as they are read

* `Scalar.Loaded`      the leaves that a reader makes: texts, values written plain, and texts of a
                       kind that their tag names;
* `Node.Within`        containers nested at most so many levels deep;
* `loaded_of_parse`    what is read has such leaves, is nested at most 128 levels deep and has
                       unique keys.
-/

namespace ConfigReconcile

open Text Yaml

/-- a leaf that a reader makes -/
inductive Scalar.Loaded : Scalar → Prop where
  | text (v : String) : Loaded (.text v)
  | boolean (b : Bool) : Loaded (Scalar.ofKind (if b then "true" else "false") .boolean).plain
  | integer {n : Int} (h : Decimal.fits 64 n = true) :
      Loaded (Scalar.ofKind (toString n) .number).plain
  | float {x : Decimal.Binary64} (h : x.WellFormed) :
      Loaded (Scalar.ofKind (Decimal.Notation.yaml.write x) .float).plain
  | typed (v : String) {kind : ScalarKind} (h : (Scalar.tagWord? kind).isSome = true) :
      Loaded (.ofKind v kind)

/-! ## leaves written plain -/

theorem isWordChar_number {c : Char} (h : c.isDigit = true ∨ c = '.' ∨ c = 'e' ∨ c = '-') :
    isWordChar c = true := by
  refine isWordChar_of_isNameChar ?_
  rcases h with h | rfl | rfl | rfl
  · exact .inl (by simp [isNameChar, Char.isAlphanum, h])
  · exact .inr rfl
  · exact .inl (by decide)
  · exact .inl (by decide)

theorem plainWord_number {neg : Bool} {c : Char} {cs : List Char} (hc : c.isDigit = true)
    (hcs : ∀ d ∈ c :: cs, d.isDigit = true ∨ d = '.' ∨ d = 'e' ∨ d = '-') :
    Scanner.PlainWord (Decimal.Notation.withSign neg (c :: cs)) := by
  obtain ⟨hopens, hind, hdash, hdot⟩ :=
    starts_of_isAlphanum (c := c) (by simp [Char.isAlphanum, hc])
  have hword : (c :: cs).all isWordChar = true :=
    List.all_eq_true.2 fun d hd => isWordChar_number (hcs d hd)
  cases neg with
  | false =>
    exact ⟨hword, ⟨c, cs, rfl, hopens, .inl hind⟩, fun _ => isDocumentMark_cons hdash hdot _⟩
  | true =>
    refine ⟨?_, ⟨'-', c :: cs, rfl, by decide, .inr ⟨rfl, by simp⟩⟩, fun ds => ?_⟩
    · show ('-' :: c :: cs).all isWordChar = true
      rw [List.all_cons, hword]
      decide
    · show isDocumentMark ('-' :: c :: (cs ++ ds)) = false
      unfold isDocumentMark
      split
      next heq => exact absurd (List.cons.inj (List.cons.inj heq).2).1 hdash
      next heq => cases heq
      next => rfl

theorem plainWord_boolean (b : Bool) :
    Scanner.PlainWord (if b then "true" else "false" : String).toList := by
  cases b <;> exact ⟨by decide, ⟨_, _, rfl, by decide, .inl (by decide)⟩, fun _ => rfl⟩

theorem plainWord_integer (n : Int) : Scanner.PlainWord (toString n).toList := by
  obtain ⟨c, cs, h, hd, -⟩ := Decimal.toDigits_cons n.natAbs
  rw [Decimal.toList_toString_int, h]
  exact plainWord_number hd fun d hd => .inl (Decimal.isDigit_toDigits (h ▸ hd))

theorem plainWord_float (x : Decimal.Binary64) :
    Scanner.PlainWord (Decimal.Notation.yaml.write x).toList := by
  cases x with
  | nan => exact ⟨by decide, ⟨_, _, rfl, by decide, .inl (by decide)⟩, fun _ => rfl⟩
  | infinite neg =>
    cases neg with
    | false => exact ⟨by decide, ⟨_, _, rfl, by decide, .inl (by decide)⟩, fun _ => rfl⟩
    | true => exact ⟨by decide, ⟨_, _, rfl, by decide, .inr ⟨rfl, by decide⟩⟩, fun _ => rfl⟩
  | finite neg m p =>
    obtain ⟨s, hs, -⟩ := Decimal.exists_spelling (f := .yaml) rfl rfl neg m p
    obtain ⟨c, cs, hc, hd, -⟩ := text_cons s
    rw [hs, String.toList_ofList, hc]
    exact plainWord_number hd fun d hd => mem_text s (hc ▸ hd)

theorem isPlain_of_plainWord {w : String} {kind : ScalarKind} (hk : kind ≠ .multilineString)
    (hw : Scanner.PlainWord w.toList) : (Scalar.ofKind w kind).plain.isPlain = true := by
  have hword : ∀ c ∈ w.toList, isBreak c = false := fun c hc => by
    have := List.all_eq_true.1 hw.word c hc
    simp only [isWordChar, Bool.not_eq_true', Bool.or_eq_false_iff] at this
    exact this.1.2
  have hm : (Scalar.ofKind w kind).plain.isMultiline = false := by
    rw [Scalar.isMultiline, Bool.or_eq_false_iff]
    refine ⟨by simpa [Scalar.plain, Scalar.ofKind] using hk, ?_⟩
    rw [Bool.eq_false_iff]
    intro hmem
    have := hword '\n' (List.contains_iff_mem.1 hmem)
    exact absurd this (by decide)
  have hu : w.toList.any isUnicodeBreak = false := by
    rw [List.any_eq_false]
    intro c hc hu
    have := hword c hc
    simp only [isUnicodeBreak, Bool.or_eq_true, beq_iff_eq] at hu
    rcases hu with (rfl | rfl) | rfl <;> exact absurd this (by decide)
  have hl : (Scalar.ofKind w kind).plain.isLiteral = false := by rw [Scalar.isLiteral, hm]; rfl
  rw [Scalar.isPlain, hl, hm]
  simp [Scalar.plain, Scalar.ofKind, hu]

/-! ## tags -/

theorem isTagged_of_plainWord {w : String} {kind : ScalarKind} (hk : kind ≠ .multilineString)
    (hw : Scanner.PlainWord w.toList) : (Scalar.ofKind w kind).plain.isTagged = false := by
  rw [Scalar.isTagged, isPlain_of_plainWord hk hw, Bool.not_true, Bool.and_false, Bool.false_and]

theorem Scalar.isTagged_text (v : String) : (Scalar.text v).isTagged = false := by
  have : Scalar.tagWord? (Scalar.text v).kind = none := by
    unfold Scalar.text Scalar.ofKind
    dsimp only
    split <;> rfl
  rw [Scalar.isTagged, this, Option.isSome_none, Bool.and_false]

/-! ## levels -/

namespace Node

/-- containers are nested at most so many levels deep -/
def Within : Nat → Node → Prop
  | _, .null => True
  | _, .scalar _ => True
  | 0, .sequence _ => False
  | 0, .mapping _ => False
  | levels + 1, .sequence items => ∀ n ∈ items, Within levels n
  | levels + 1, .mapping entries => ∀ e ∈ entries, Within levels e.2

theorem Within.prune {levels : Nat} {n m : Node} (h : n.Within levels) (hm : n.prune = some m) :
    m.Within levels := by
  induction levels generalizing n m with
  | zero =>
    cases n with
    | null => cases hm
    | scalar s =>
      obtain ⟨-, rfl⟩ := prune_scalar.1 hm
      trivial
    | _ => exact h.elim
  | succ levels ih =>
    cases n with
    | null => cases hm
    | scalar s =>
      obtain ⟨-, rfl⟩ := prune_scalar.1 hm
      trivial
    | sequence ns =>
      obtain ⟨-, rfl⟩ := prune_sequence.1 hm
      intro m' hm'
      obtain ⟨n, hn, hp⟩ := List.mem_filterMap.1 hm'
      exact ih (h n hn) hp
    | mapping es =>
      obtain ⟨-, rfl⟩ := prune_mapping.1 hm
      intro e' he'
      obtain ⟨e, he, hp⟩ := List.mem_filterMap.1 ((Entries.sort_perm _).mem_iff.1 he')
      obtain ⟨m', hm', rfl⟩ := Option.map_eq_some_iff.1 hp
      exact ih (h e he) hm'

/-! ## from values to trees -/

theorem itemsOfYaml_eq_map (vs : List Value) : itemsOfYaml vs = vs.map ofYaml := by
  induction vs with
  | nil => rfl
  | cons v vs ih => rw [itemsOfYaml, ih, List.map_cons]

theorem entriesOfYaml_eq_map (es : List (Value × Value)) :
    entriesOfYaml es = es.map fun e => (keyText e.1, ofYaml e.2) := by
  induction es with
  | nil => rfl
  | cons e es ih => rw [entriesOfYaml, ih, List.map_cons]

/-- a tree as it is read -/
structure Loaded (levels : Nat) (n : Node) : Prop where
  leaves : n.Every Scalar.Loaded fun _ => True
  within : n.Within levels
  keys : n.WellKeyed

theorem loaded_scalar {levels : Nat} {s : Scalar} (h : s.Loaded) : (scalar s).Loaded levels :=
  ⟨h, by cases levels <;> trivial, trivial⟩

theorem Loaded.underTag {levels : Nat} {n : Node} (h : n.Loaded levels) (tag : String) :
    (underTag tag n).Loaded levels := by
  cases n with
  | scalar s =>
    unfold Node.underTag
    dsimp only
    split
    next => exact loaded_scalar (.typed _ rfl)
    next =>
      split
      next => exact loaded_scalar (.typed _ rfl)
      next =>
        split
        next => exact loaded_scalar (.typed _ rfl)
        next =>
          split
          next => exact loaded_scalar (.text _)
          next => exact h
  | _ => exact h

/-- a value without a tag gives a leaf without one -/
theorem loaded_leaf {v : Value} (h : v.Leaf) :
    (ofYaml v).Every (fun s => s.Loaded ∧ s.isTagged = false) fun _ => True := by
  cases h with
  | null => trivial
  | bool b =>
    exact ⟨.boolean b, isTagged_of_plainWord (by decide) (plainWord_boolean b)⟩
  | integer h =>
    exact ⟨.integer h, isTagged_of_plainWord (by decide) (plainWord_integer _)⟩
  | float h =>
    exact ⟨.float h, isTagged_of_plainWord (by decide) (plainWord_float _)⟩
  | string s => exact ⟨.text s, Scalar.isTagged_text s⟩

theorem loaded_ofYaml {levels : Nat} {v : Value} (h : v.Sound levels) :
    (ofYaml v).Loaded levels := by
  induction h with
  | leaf h =>
    refine ⟨(loaded_leaf h).imp (fun s hs => hs.1) fun _ _ => trivial, ?_, ?_⟩
    · cases h <;> cases ‹Nat› <;> trivial
    · cases h <;> trivial
  | @sequence levels vs _ ih =>
    rw [ofYaml, itemsOfYaml_eq_map]
    have ih : ∀ n ∈ vs.map ofYaml, n.Loaded levels := List.forall_mem_map.2 ih
    exact ⟨(every_sequence _).2 fun n hn => (ih n hn).leaves, fun n hn => (ih n hn).within,
      (wellKeyed_sequence _).2 fun n hn => (ih n hn).keys⟩
  | @mapping levels es _ ih =>
    rw [ofYaml, entriesOfYaml_eq_map]
    have ih : ∀ e ∈ es.map fun e => (keyText e.1, ofYaml e.2), e.2.Loaded levels :=
      List.forall_mem_map.2 ih
    obtain ⟨hnodup, ih⟩ := Entries.ofList_invariant ih
    exact ⟨(every_mapping _).2 fun e he => ⟨trivial, (ih e he).leaves⟩,
      fun e he => (ih e he).within, (wellKeyed_mapping _).2 ⟨hnodup, fun e he => (ih e he).keys⟩⟩
  | tagged tag _ ih => exact ih.underTag tag

/-- what is read is loaded -/
theorem loaded_of_parse {text : String} {n : Node} (h : Node.parse text = .ok n) :
    n.Loaded Document.maxLevels := by
  unfold Node.parse at h
  split at h
  next => cases h; exact ⟨trivial, trivial, trivial⟩
  next =>
    split at h
    next v hv => cases h; exact loaded_ofYaml (Value.sound_ofText hv)
    next => cases h

end Node

end ConfigReconcile
