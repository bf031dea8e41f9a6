import ConfigReconcile.Json.Value
import ConfigReconcile.Proofs.Yaml.Scalars
import ConfigReconcile.Text.Blank
import Mathlib.Algebra.Ring.Parity
import Mathlib.Data.List.DropRight

/-!
# Double quotes by the rules

The rules of texts between double quotes that stay on one line, taken by themselves:

* `JsonEscape`     the escapes of JSON: behind a backslash a letter, or `u` and the four hexadecimal
                   digits of a code point;
* `StandsFor`      a character stands for itself, or an escape of JSON stands for it, or one of the
                   three that YAML has for the Unicode line breaks;
* `Transcribes`    a text, character by character;
* `IsOpen`         an odd number of backslashes at the end: what comes next is escaped.

A text is escaped in two passes, first as JSON (`EscapesAsJson`), then for the Unicode line breaks
(`escapeBreaks`).  `EscapesAsJson.transcribes` says that the second pass, which works on what the
first one has escaped, spoils nothing, and `encode_stays_on_line` puts the properties together.
-/

namespace ConfigReconcile.Text.Quoted

/-! ## the rules -/

/-- the letters that JSON has behind a backslash, and what they stand for -/
def jsonLetters : List (Char × Char) :=
  [('"', '"'), ('\\', '\\'), ('/', '/'), ('b', '\x08'), ('f', '\x0c'), ('n', '\n'), ('r', '\r'),
    ('t', '\t')]

/-- the letters that YAML adds for the Unicode line breaks -/
def breakLetters : List (Char × Char) := [('N', '\u0085'), ('L', '\u2028'), ('P', '\u2029')]

/-- the characters that JSON does not let stand for themselves -/
def NeedsEscape (c : Char) : Prop := c = '"' ∨ c = '\\' ∨ c.toNat < 0x20

instance : DecidablePred NeedsEscape := fun _ => inferInstanceAs (Decidable (_ ∨ _ ∨ _))

inductive JsonEscape : List Char → Char → Prop where
  | letter {l c : Char} (known : (l, c) ∈ jsonLetters) : JsonEscape ['\\', l] c
  | digits {ds : List Char} {c : Char} (four : ds.length = 4)
      (value : hexNumber? ds = some c.toNat) : JsonEscape ('\\' :: 'u' :: ds) c

/-- how a character may be written between double quotes, on one line -/
inductive StandsFor : List Char → Char → Prop where
  | self {c : Char} (plain : ¬NeedsEscape c) (inLine : isUnicodeBreak c = false) : StandsFor [c] c
  | json {w : List Char} {c : Char} (escape : JsonEscape w c) : StandsFor w c
  | lineBreak {l c : Char} (known : (l, c) ∈ breakLetters) : StandsFor ['\\', l] c

/-- a text between double quotes, one character after the other -/
inductive Transcribes : List Char → List Char → Prop where
  | nil : Transcribes [] []
  | cons {w t s : List Char} {c : Char} (first : StandsFor w c) (rest : Transcribes t s) :
      Transcribes (w ++ t) (c :: s)

/-- an odd number of backslashes at the end, so that the next character belongs to an escape -/
def IsOpen (t : List Char) : Prop := Odd (t.rtakeWhile (· = '\\')).length

/-- no quote in a text would end it -/
def QuotesEscaped (t : List Char) : Prop :=
  ∀ before after, t = before ++ '"' :: after → IsOpen before

variable {t w s : List Char} {c l : Char}

/-! ## backslashes at the end -/

theorem not_isOpen_nil : ¬IsOpen [] := by
  rw [IsOpen, List.rtakeWhile_nil]
  decide

/-- reading on: a backslash opens an escape unless it is escaped itself -/
theorem isOpen_concat (t : List Char) (c : Char) : IsOpen (t ++ [c]) ↔ c = '\\' ∧ ¬IsOpen t := by
  unfold IsOpen
  rw [List.rtakeWhile_concat]
  by_cases hc : c = '\\'
  · rw [if_pos (decide_eq_true hc), List.length_append, List.length_singleton, Nat.odd_add_one,
      and_iff_right hc]
  · rw [if_neg (by rwa [decide_eq_true_eq])]
    simp [hc]

theorem isOpen_slash : IsOpen ['\\'] := (isOpen_concat [] '\\').2 ⟨rfl, not_isOpen_nil⟩

/-- what comes before is forgotten once it is complete -/
theorem isOpen_append (h : ¬IsOpen t) (w : List Char) : IsOpen (t ++ w) ↔ IsOpen w := by
  induction w using List.reverseRecOn with
  | nil => simp only [List.append_nil, h, not_isOpen_nil]
  | append_singleton w c ih => rw [← List.append_assoc, isOpen_concat, isOpen_concat, ih]

theorem not_isOpen_of_not_mem (h : '\\' ∉ t) : ¬IsOpen t := by
  induction t using List.reverseRecOn with
  | nil => exact not_isOpen_nil
  | append_singleton t c =>
    rw [isOpen_concat]
    rintro ⟨rfl, -⟩
    exact h (List.mem_append_right t (List.mem_singleton_self '\\'))

/-- an escape is complete with its letter, and stays so behind characters that open none -/
theorem not_isOpen_escape (l : Char) (h : '\\' ∉ t) : ¬IsOpen ('\\' :: l :: t) := by
  have hl : ¬IsOpen ['\\', l] := fun ho => ((isOpen_concat ['\\'] l).1 ho).2 isOpen_slash
  exact fun ho => not_isOpen_of_not_mem h ((isOpen_append hl t).1 ho)

/-! ## quotes inside -/

theorem quotesEscaped_of_not_mem (h : '"' ∉ t) : QuotesEscaped t := by
  rintro before after rfl
  exact absurd (List.mem_append_right before (List.mem_cons_self ..)) h

/-- only the letter of an escape may be a quote -/
theorem quotesEscaped_escape (l : Char) (h : '"' ∉ t) : QuotesEscaped ('\\' :: l :: t) := by
  intro before after heq
  match before with
  | [] => cases heq
  | [b] =>
    obtain ⟨rfl, -⟩ := List.cons.inj heq
    exact isOpen_slash
  | a :: b :: before =>
    obtain ⟨-, heq⟩ := List.cons.inj heq
    obtain ⟨-, rfl⟩ := List.cons.inj heq
    exact absurd (List.mem_append_right before (List.mem_cons_self ..)) h

theorem QuotesEscaped.append (hw : QuotesEscaped w) (hopen : ¬IsOpen w) (ht : QuotesEscaped t) :
    QuotesEscaped (w ++ t) := by
  intro before after heq
  rcases List.append_eq_append_iff.1 heq with ⟨b, rfl, hb⟩ | ⟨a, rfl, ha⟩
  · exact (isOpen_append hopen b).2 (ht b after hb)
  · cases a with
    | nil => exact absurd (ht [] after ha.symm) not_isOpen_nil
    | cons d a =>
      obtain ⟨rfl, -⟩ := List.cons.inj ha
      exact hw before a rfl

/-! ## one character -/

theorem not_isBreak_iff :
    Yaml.isBreak c = false ↔ c ≠ '\n' ∧ c ≠ '\r' ∧ isUnicodeBreak c = false := by
  simp [Yaml.isBreak, isUnicodeBreak, and_assoc]

theorem exists_hexValue? {ds : List Char} {m n : Nat}
    (h : ds.foldlM (fun n c => (hexValue? c).map (16 * n + ·)) m = some n) :
    ∀ d ∈ ds, ∃ k, hexValue? d = some k := by
  induction ds generalizing m with
  | nil => simp
  | cons d ds ih =>
    rw [List.foldlM_cons] at h
    cases hd : hexValue? d with
    | none => simp [hd] at h
    | some k =>
      rw [hd, Option.map_some] at h
      exact List.forall_mem_cons.2 ⟨⟨k, hd⟩, ih h⟩

theorem not_mem_of_hexNumber? {ds : List Char} {n : Nat} (h : hexNumber? ds = some n) {d : Char}
    (hd : hexValue? d = none) : d ∉ ds := by
  intro hmem
  obtain ⟨k, hk⟩ := exists_hexValue? h d hmem
  rw [hd] at hk
  cases hk

theorem not_isBreak_of_hexNumber? {ds : List Char} {n : Nat} (h : hexNumber? ds = some n) :
    ∀ d ∈ ds, Yaml.isBreak d = false := by
  intro d hd
  have hne (b : Char) (hb : hexValue? b = none) : d ≠ b := by
    rintro rfl
    exact not_mem_of_hexNumber? h hb hd
  simp [Yaml.isBreak, hne '\n' (by decide), hne '\r' (by decide), hne '\u0085' (by decide),
    hne '\u2028' (by decide), hne '\u2029' (by decide)]

theorem unescape?_digits {ds : List Char} (four : ds.length = 4)
    (value : hexNumber? ds = some c.toNat) (rest : List Char) :
    unescape? ('u' :: (ds ++ rest)) = some (c, rest) := by
  have hletter : ofLetter? 'u' = none := by decide
  have hcount : digitCount? 'u' = some 4 := rfl
  have hlong : ¬(ds ++ rest).length < 4 := by
    rw [List.length_append]
    omega
  have hdigits : (ds ++ rest).take 4 = ds := List.take_left' four
  have hrest : (ds ++ rest).drop 4 = rest := List.drop_left' four
  simp only [unescape?, hletter, hcount, hdigits, hrest, value, Option.bind_some,
    Yaml.ofCodePoint?_toNat, if_neg hlong]

theorem unescape?_letter {rest : List Char} (h : ofLetter? l = some c) :
    unescape? (l :: rest) = some (c, rest) := by
  simp only [unescape?, h]

/-- what escapes have in common: behind the backslash and a letter stand characters that neither
end the text or the line nor begin an escape, and all of it is read as one character -/
structure IsEscape (l : Char) (ds : List Char) (c : Char) : Prop where
  reads : ∀ rest, unescape? (l :: (ds ++ rest)) = some (c, rest)
  quote : '"' ∉ ds
  slash : '\\' ∉ ds
  inLine : ∀ d ∈ '\\' :: l :: ds, Yaml.isBreak d = false

theorem isEscape_letter (h : (l, c) ∈ jsonLetters ++ breakLetters) : IsEscape l [] c := by
  have hletters : ∀ p ∈ jsonLetters ++ breakLetters,
      ofLetter? p.1 = some p.2 ∧ Yaml.isBreak p.1 = false := by decide
  obtain ⟨hreads, hline⟩ := hletters _ h
  have hslash : Yaml.isBreak '\\' = false := by decide
  refine ⟨fun rest => unescape?_letter hreads, List.not_mem_nil, List.not_mem_nil, ?_⟩
  rw [List.forall_mem_cons, List.forall_mem_singleton]
  exact ⟨hslash, hline⟩

theorem isEscape_json (h : JsonEscape w c) : ∃ l ds, w = '\\' :: l :: ds ∧ IsEscape l ds c := by
  cases h with
  | letter known => exact ⟨_, [], rfl, isEscape_letter (List.mem_append_left _ known)⟩
  | digits four value =>
    refine ⟨'u', _, rfl, unescape?_digits four value, not_mem_of_hexNumber? value (by decide),
      not_mem_of_hexNumber? value (by decide), ?_⟩
    have hslash : Yaml.isBreak '\\' = false := by decide
    have hu : Yaml.isBreak 'u' = false := by decide
    rw [List.forall_mem_cons, List.forall_mem_cons]
    exact ⟨hslash, hu, not_isBreak_of_hexNumber? value⟩

/-- a character stands for itself or an escape stands for it -/
theorem StandsFor.cases (h : StandsFor w c) :
    (w = [c] ∧ c ≠ '"' ∧ c ≠ '\\' ∧ Yaml.isBreak c = false) ∨
      ∃ l ds, w = '\\' :: l :: ds ∧ IsEscape l ds c := by
  cases h with
  | self plain inLine =>
    obtain ⟨hquote, hslash, hcontrol⟩ : c ≠ '"' ∧ c ≠ '\\' ∧ ¬c.toNat < 0x20 := by
      simpa only [NeedsEscape, not_or] using plain
    refine .inl ⟨rfl, hquote, hslash, not_isBreak_iff.2 ⟨?_, ?_, inLine⟩⟩
    · rintro rfl
      exact hcontrol (by decide)
    · rintro rfl
      exact hcontrol (by decide)
  | json escape => exact .inr (isEscape_json escape)
  | lineBreak known => exact .inr ⟨_, [], rfl, isEscape_letter (List.mem_append_right _ known)⟩

theorem StandsFor.not_isOpen (h : StandsFor w c) : ¬IsOpen w := by
  rcases h.cases with ⟨rfl, -, hslash, -⟩ | ⟨l, ds, rfl, he⟩
  · exact not_isOpen_of_not_mem (by simpa using hslash.symm)
  · exact not_isOpen_escape l he.slash

theorem StandsFor.quotesEscaped (h : StandsFor w c) : QuotesEscaped w := by
  rcases h.cases with ⟨rfl, hquote, -, -⟩ | ⟨l, ds, rfl, he⟩
  · exact quotesEscaped_of_not_mem (by simpa using hquote.symm)
  · exact quotesEscaped_escape l he.quote

theorem StandsFor.inLine (h : StandsFor w c) : ∀ d ∈ w, Yaml.isBreak d = false := by
  rcases h.cases with ⟨rfl, -, -, hline⟩ | ⟨l, ds, rfl, he⟩
  · simpa using hline
  · exact he.inLine

theorem decodeBody_escape {cs rest : List Char} (h : unescape? cs = some (c, rest)) :
    decodeBody ('\\' :: cs) = (decodeBody rest).map (c :: ·) := by
  rw [decodeBody, if_neg (by decide), if_pos rfl]
  split
  next hn =>
    rw [h] at hn
    cases hn
  next d tail hs =>
    rw [h] at hs
    cases hs
    rfl

theorem StandsFor.decodeBody_append (h : StandsFor w c) (rest : List Char) :
    decodeBody (w ++ rest) = (decodeBody rest).map (c :: ·) := by
  rcases h.cases with ⟨rfl, hquote, hslash, -⟩ | ⟨l, ds, rfl, he⟩
  · rw [List.singleton_append, decodeBody, if_neg hquote, if_neg hslash]
  · exact decodeBody_escape (he.reads rest)

/-! ## a text -/

theorem Transcribes.not_isOpen (h : Transcribes t s) : ¬IsOpen t := by
  induction h with
  | nil => exact not_isOpen_nil
  | cons first _ ih => rwa [isOpen_append first.not_isOpen]

theorem Transcribes.quotesEscaped (h : Transcribes t s) : QuotesEscaped t := by
  induction h with
  | nil => exact quotesEscaped_of_not_mem List.not_mem_nil
  | cons first _ ih => exact first.quotesEscaped.append first.not_isOpen ih

theorem Transcribes.inLine (h : Transcribes t s) : ∀ d ∈ t, Yaml.isBreak d = false := by
  induction h with
  | nil => simp
  | cons first _ ih => exact List.forall_mem_append.2 ⟨first.inLine, ih⟩

theorem Transcribes.decode_eq (h : Transcribes t s) : decode ('"' :: (t ++ ['"'])) = some s := by
  rw [decode, if_pos rfl]
  induction h with
  | nil =>
    rw [List.nil_append, decodeBody]
    rfl
  | cons first _ ih =>
    rw [List.append_assoc, first.decodeBody_append, ih]
    rfl

/-! ## two passes -/

/-- the escape of a Unicode line break; all else stays as it is -/
def escapeBreak (c : Char) : List Char :=
  if c = '\u0085' then ['\\', 'N']
  else if c = '\u2028' then ['\\', 'L']
  else if c = '\u2029' then ['\\', 'P']
  else [c]

/-- the second pass, which leaves alone a text that has no Unicode line break -/
def escapeBreaks (t : List Char) : List Char :=
  if t.any isUnicodeBreak then t.flatMap escapeBreak else t

/-- a first pass: JSON's escapes where JSON demands one, and nowhere else -/
structure EscapesAsJson (f : Char → List Char) : Prop where
  escapes : ∀ {c}, NeedsEscape c → JsonEscape (f c) c
  keeps : ∀ {c}, ¬NeedsEscape c → f c = [c]

theorem escapeBreak_of_not (h : isUnicodeBreak c = false) : escapeBreak c = [c] := by
  simp only [isUnicodeBreak, Bool.or_eq_false_iff, beq_eq_false_iff_ne] at h
  rw [escapeBreak, if_neg h.1.1, if_neg h.1.2, if_neg h.2]

theorem flatMap_escapeBreak (h : ∀ c ∈ t, isUnicodeBreak c = false) :
    t.flatMap escapeBreak = t := by
  induction t with
  | nil => rfl
  | cons c t ih =>
    rw [List.forall_mem_cons] at h
    rw [List.flatMap_cons, escapeBreak_of_not h.1, ih h.2]
    rfl

/-- it makes no difference that the second pass may be left out -/
theorem escapeBreaks_eq (t : List Char) : escapeBreaks t = t.flatMap escapeBreak := by
  unfold escapeBreaks
  split
  next => rfl
  next h =>
    rw [flatMap_escapeBreak]
    simpa using h

/-- an escape that is there already is all letters and digits to the second pass -/
theorem flatMap_escapeBreak_json (h : JsonEscape w c) : w.flatMap escapeBreak = w := by
  obtain ⟨l, ds, rfl, he⟩ := isEscape_json h
  exact flatMap_escapeBreak fun d hd => (not_isBreak_iff.1 (he.inLine d hd)).2.2

theorem exists_breakLetter (h : isUnicodeBreak c = true) : ∃ l, (l, c) ∈ breakLetters := by
  simp only [isUnicodeBreak, Bool.or_eq_true, beq_iff_eq] at h
  rcases h with (rfl | rfl) | rfl
  · exact ⟨'N', by decide⟩
  · exact ⟨'L', by decide⟩
  · exact ⟨'P', by decide⟩

theorem escapeBreak_break : ∀ p ∈ breakLetters, escapeBreak p.2 = ['\\', p.1] := by decide

theorem standsFor_escapeBreak (h : ¬NeedsEscape c) : StandsFor (escapeBreak c) c := by
  cases hb : isUnicodeBreak c with
  | false =>
    rw [escapeBreak_of_not hb]
    exact .self h hb
  | true =>
    obtain ⟨l, hl⟩ := exists_breakLetter hb
    rw [escapeBreak_break _ hl]
    exact .lineBreak hl

section
variable {f : Char → List Char} (h : EscapesAsJson f)
include h

theorem EscapesAsJson.standsFor (c : Char) : StandsFor ((f c).flatMap escapeBreak) c := by
  by_cases hc : NeedsEscape c
  · rw [flatMap_escapeBreak_json (h.escapes hc)]
    exact .json (h.escapes hc)
  · rw [h.keeps hc, List.flatMap_singleton]
    exact standsFor_escapeBreak hc

/-- whatever escapes of JSON the first pass chooses, the second one leaves a text that the rules
read as the one that was to be written -/
theorem EscapesAsJson.transcribes (s : List Char) :
    Transcribes ((s.flatMap f).flatMap escapeBreak) s := by
  induction s with
  | nil => exact .nil
  | cons c s ih =>
    rw [List.flatMap_cons, List.flatMap_append]
    exact .cons (h.standsFor c) ih

end

/-! ## what is written -/

/-- a character in the text of a JSON string -/
def jsonEscape (c : Char) : List Char := if c.toNat < 0x80 then escape c else [c]

/-- the letters that are written are those of the rules -/
theorem mem_of_letter? (h : letter? c = some l) :
    (l, c) ∈ jsonLetters ∧ NeedsEscape c ∨ (l, c) ∈ breakLetters ∧ 0x80 ≤ c.toNat := by
  simp only [letter?, ite_eq_iff, Option.some.injEq] at h
  -- one case for each character that has a letter
  repeat' obtain ⟨rfl, rfl⟩ | ⟨-, h⟩ := h
  all_goals decide

theorem toNat_of_needsEscape (h : NeedsEscape c) : c.toNat < 0x80 := by
  rcases h with rfl | rfl | h
  · decide
  · decide
  · omega

theorem hexNumber?_control (h : c.toNat < 0x20) :
    hexNumber? ['0', '0', hexDigit (c.toNat / 16), hexDigit (c.toNat % 16)] = some c.toNat := by
  have h0 : hexValue? '0' = some 0 := by decide
  have hq := Yaml.hexValue?_hexDigit (show c.toNat / 16 < 16 by omega)
  have hr := Yaml.hexValue?_hexDigit (show c.toNat % 16 < 16 by omega)
  have hn : 16 * (c.toNat / 16) + c.toNat % 16 = c.toNat := by omega
  simp [hexNumber?, h0, hq, hr, hn]

theorem escape_of_needsEscape (h : NeedsEscape c) : JsonEscape (escape c) c := by
  have hlt := toNat_of_needsEscape h
  unfold escape
  split
  next l hl =>
    rcases mem_of_letter? hl with ⟨hmem, -⟩ | ⟨-, hge⟩
    · exact .letter hmem
    · omega
  next hl =>
    -- only controls are left: the quote and the backslash have a letter
    obtain ⟨hquote, hslash, -⟩ := Yaml.letter?_eq_none hl
    have hcontrol : c.toNat < 0x20 := (h.resolve_left hquote).resolve_left hslash
    rw [if_pos hcontrol]
    exact .digits rfl (hexNumber?_control hcontrol)

/-- all else is written as the second pass writes it -/
theorem escape_of_not_needsEscape (h : ¬NeedsEscape c) : escape c = escapeBreak c := by
  unfold escape
  split
  next l hl =>
    rcases mem_of_letter? hl with ⟨-, hc⟩ | ⟨hmem, -⟩
    · exact absurd hc h
    · exact (escapeBreak_break _ hmem).symm
  next hl =>
    have hline := (Yaml.letter?_eq_none hl).2.2.2
    rw [if_neg fun hc => h (.inr (.inr hc)), escapeBreak_of_not (not_isBreak_iff.1 hline).2.2]

theorem escapesAsJson_jsonEscape : EscapesAsJson jsonEscape where
  escapes hc := by
    rw [jsonEscape, if_pos (toNat_of_needsEscape hc)]
    exact escape_of_needsEscape hc
  keeps {c} hc := by
    unfold jsonEscape
    split
    next hlt =>
      have hbreaks : ∀ p ∈ breakLetters, 0x80 ≤ p.2.toNat := by decide
      have hb : isUnicodeBreak c = false := by
        rw [Bool.eq_false_iff]
        intro hb
        obtain ⟨l, hl⟩ := exists_breakLetter hb
        exact absurd (hbreaks _ hl) (Nat.not_le.2 hlt)
      rw [escape_of_not_needsEscape hc, escapeBreak_of_not hb]
    next => rfl

theorem flatMap_jsonEscape (c : Char) : (jsonEscape c).flatMap escapeBreak = escape c := by
  by_cases hc : NeedsEscape c
  · rw [flatMap_escapeBreak_json (escapesAsJson_jsonEscape.escapes hc), jsonEscape,
      if_pos (toNat_of_needsEscape hc)]
  · rw [escapesAsJson_jsonEscape.keeps hc, List.flatMap_singleton, escape_of_not_needsEscape hc]

theorem body_eq (s : List Char) : body s = (s.flatMap jsonEscape).flatMap escapeBreak := by
  rw [List.flatMap_assoc, body]
  exact congrArg s.flatMap (funext flatMap_jsonEscape).symm

theorem write_string (v : String) :
    (Json.Value.string v).write = '"' :: (v.toList.flatMap jsonEscape ++ ['"']) := rfl

/-- a text in double quotes is the JSON string with its Unicode line breaks escaped -/
theorem encode_eq (v : String) :
    encode v.toList = escapeBreaks (Json.Value.string v).write := by
  have hquote : escapeBreak '"' = ['"'] := by decide
  rw [escapeBreaks_eq, write_string, List.flatMap_cons, List.flatMap_append,
    List.flatMap_singleton, hquote, ← body_eq]
  rfl

theorem transcribes_body (s : List Char) : Transcribes (body s) s :=
  body_eq s ▸ escapesAsJson_jsonEscape.transcribes s

theorem inLine_encode (s : List Char) : ∀ c ∈ encode s, Yaml.isBreak c = false := by
  have hquote : Yaml.isBreak '"' = false := by decide
  rw [encode, List.forall_mem_cons, List.forall_mem_append, List.forall_mem_singleton]
  exact ⟨hquote, (transcribes_body s).inLine, hquote⟩

/-- **a text in double quotes stays on its line and is read as the text**: it is the JSON string
with its Unicode line breaks escaped; between the quotes that open and close it, every character
stands for itself or is written as an escape of JSON or of a Unicode line break, and no quote ends
it early; it holds no line break of any kind; and two texts are never written alike -/
theorem encode_stays_on_line :
    (∀ v : String,
      encode v.toList = escapeBreaks (Json.Value.string v).write ∧
      (∃ t, encode v.toList = '"' :: (t ++ ['"']) ∧ Transcribes t v.toList ∧ QuotesEscaped t ∧
        ¬IsOpen t) ∧
      List.Disjoint (encode v.toList) ['\n', '\r', '\u0085', '\u2028', '\u2029'] ∧
      decode (encode v.toList) = some v.toList) ∧
    Function.Injective fun v : String => encode v.toList := by
  have hdecode (v : String) : decode (encode v.toList) = some v.toList :=
    (transcribes_body v.toList).decode_eq
  constructor
  · intro v
    have ht := transcribes_body v.toList
    refine ⟨encode_eq v, ⟨_, rfl, ht, ht.quotesEscaped, ht.not_isOpen⟩, ?_, hdecode v⟩
    intro c hc hbreak
    have hbreaks : ['\n', '\r', '\u0085', '\u2028', '\u2029'].all Yaml.isBreak = true := by decide
    have hline := inLine_encode v.toList c hc
    rw [List.all_eq_true.1 hbreaks c hbreak] at hline
    cases hline
  · intro v w hvw
    have hread := congrArg decode hvw
    simp only [hdecode, Option.some.injEq] at hread
    exact String.toList_inj.1 hread

/-- a backslash before `N`, a next line and a quote -/
example : encode ['\\', 'N', '\u0085', '"'] =
    ['"', '\\', '\\', 'N', '\\', 'N', '\\', '"', '"'] := by decide

end ConfigReconcile.Text.Quoted
