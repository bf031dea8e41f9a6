import ConfigReconcile.Yaml.Token.Plain
import ConfigReconcile.Yaml.Token.Quoted

/-!
# Scalars that have been written are read back

* `scanQuoted_encode`           a text in double quotes, whatever its characters;
* `PlainContext.scan_colon`     a plain word before a colon;
* `PlainContext.scan_line`      a plain word that ends its line.

What follows a scalar on later lines is a `LineAhead`.
-/

namespace ConfigReconcile.Yaml

open Text

/-! ## what follows -/

/-- a character that starts a token wherever a line starts with it -/
def opensLine (c : Char) : Bool := !(isBlank c || isBreak c || c == '#' || c == byteOrderMark)

/-- the end of a text, or lines of which the first is indented by at most `limit` -/
inductive LineAhead (limit : Int) : List Char → Prop where
  | done : LineAhead limit []
  | line (j : Nat) (c : Char) (cs : List Char) (column : (j : Int) ≤ limit)
      (opens : opensLine c = true) : LineAhead limit (List.replicate j ' ' ++ c :: cs)

theorem LineAhead.mono {m n : Int} {cs : List Char} (h : LineAhead m cs) (hmn : m ≤ n) :
    LineAhead n cs := by
  cases h with
  | done => exact .done
  | line j c cs hj hc => exact .line j c cs (Int.le_trans hj hmn) hc

/-- behind the spaces ahead -/
def toWord (p : Place) (cs : List Char) : Place × List Char :=
  (p.skip (cs.takeWhile (· == ' ')).length, cs.dropWhile (· == ' '))

theorem toWord_nil (p : Place) : toWord p [] = (p, []) := rfl

section
variable {c : Char}

theorem not_isBlank_of_opensLine (h : opensLine c = true) : isBlank c = false := by
  simp_all [opensLine]

theorem not_isBreak_of_opensLine (h : opensLine c = true) : isBreak c = false := by
  simp_all [opensLine]

theorem ne_hash_of_opensLine (h : opensLine c = true) : c ≠ '#' := by simp_all [opensLine]

theorem ne_mark_of_opensLine (h : opensLine c = true) : c ≠ byteOrderMark := by
  simp_all [opensLine]

/-- only a carriage return can start a pair -/
theorem startsPair_of_not_isBreak (h : isBreak c = false) (a : Option Char) :
    startsPair c a = false := by
  have hr : c ≠ '\r' := by rintro rfl; simp [isBreak] at h
  simp [startsPair, hr]

theorem ne_space_of_not_isBlank (h : isBlank c = false) : c ≠ ' ' := by
  rintro rfl; simp [isBlank] at h

theorem ne_tab_of_not_isBlank (h : isBlank c = false) : c ≠ '\t' := by
  rintro rfl; simp [isBlank] at h

theorem toWord_spaces (h : opensLine c = true) (p : Place) (j : Nat) (cs : List Char) :
    toWord p (List.replicate j ' ' ++ c :: cs) = (p.skip j, c :: cs) := by
  have hc : (c == ' ') = false :=
    beq_eq_false_iff_ne.2 (ne_space_of_not_isBlank (not_isBlank_of_opensLine h))
  induction j generalizing p with
  | zero => simp [toWord, hc]
  | succ j ih =>
    have ih := ih (p.skip 1)
    simp only [toWord, Prod.mk.injEq, Place.skip_skip] at ih ⊢
    rw [List.replicate_succ, List.cons_append, List.takeWhile_cons_of_pos rfl,
      List.dropWhile_cons_of_pos rfl, List.length_cons, Nat.add_comm _ 1, Nat.add_comm j 1]
    exact ih

end

theorem isBlank_space : isBlank ' ' = true := rfl
theorem isBreak_space : isBreak ' ' = false := by decide
theorem isBreak_feed : isBreak '\n' = true := rfl
theorem startsPair_feed (a : Option Char) : startsPair '\n' a = false := rfl
theorem startsPair_space (a : Option Char) : startsPair ' ' a = false := rfl
theorem breakText_feed : breakText '\n' = '\n' := by decide

/-! ## quoted scalars -/

section

attribute [local simp] scanQuoted

/-- inside a word nothing has been held back -/
theorem scanQuoted_word {p : Place} (h : p.column ≠ 0) (double : Bool) (text cs : List Char) :
    scanQuoted double text .word p cs = scanQuoted double text (.gap (.blanks [])) p cs := by
  cases cs with
  | nil => simp only [scanQuoted]
  | cons c cs => simp [h, Gap.text]

/-- a character of a word takes in the blanks before it -/
theorem scanQuoted_gap {p : Place} {c : Char} (h : p.column ≠ 0) (hb : isBlank c = false)
    (hk : isBreak c = false) (double : Bool) (text g cs : List Char) :
    scanQuoted double text (.gap (.blanks g)) p (c :: cs) =
      scanQuoted double (g.reverse ++ text) .word p (c :: cs) := by
  simp [h, hb, hk, startsPair_of_not_isBreak hk, Gap.text]

/-- the letter of an escape names its character, and is no break -/
theorem ofLetter?_of_letter? {c l : Char} (h : Quoted.letter? c = some l) :
    Quoted.ofLetter? l = some c ∧ isBreak l = false := by
  unfold Quoted.letter? at h
  repeat' split at h
  all_goals cases h
  all_goals
    subst_vars
    exact ⟨rfl, by decide⟩

theorem letter?_eq_none {c : Char} (h : Quoted.letter? c = none) :
    c ≠ '"' ∧ c ≠ '\\' ∧ c ≠ '\t' ∧ isBreak c = false := by
  have hne (d : Char) (hd : Quoted.letter? d ≠ none) : c ≠ d := fun hc => hd (hc ▸ h)
  refine ⟨hne _ (by decide), hne _ (by decide), hne _ (by decide), ?_⟩
  simp [isBreak, hne '\n' (by decide), hne '\r' (by decide), hne '\u0085' (by decide),
    hne '\u2028' (by decide), hne '\u2029' (by decide)]

theorem scanQuoted_letter {p : Place} {c l : Char} (hl : Quoted.letter? c = some l)
    (text cs : List Char) :
    scanQuoted true text .word p ('\\' :: l :: cs) =
      scanQuoted true (c :: text) .word (p.skip 2) cs := by
  obtain ⟨ho, hb⟩ := ofLetter?_of_letter? hl
  have h1 : isBlank '\\' = false := by decide
  have h2 : isBreak '\\' = false := by decide
  simp [h1, h2, startsPair_of_not_isBreak h2, hb, ho, Place.skip_skip]

theorem hexValue?_hexDigit {n : Nat} (h : n < 16) :
    Quoted.hexValue? (Quoted.hexDigit n) = some n := by
  have : ∀ n < 16, Quoted.hexValue? (Quoted.hexDigit n) = some n := by decide
  exact this n h

theorem ofCodePoint?_toNat (c : Char) : Quoted.ofCodePoint? c.toNat = some c := by
  unfold Quoted.ofCodePoint?
  exact dif_pos c.valid

theorem scanQuoted_control {p : Place} {c : Char} (hc : c.toNat < 0x20) (text cs : List Char) :
    scanQuoted true text .word p
        ('\\' :: 'u' :: '0' :: '0' :: Quoted.hexDigit (c.toNat / 16) ::
          Quoted.hexDigit (c.toNat % 16) :: cs) =
      scanQuoted true (c :: text) .word (p.skip 6) cs := by
  have h1 : isBlank '\\' = false := by decide
  have h2 : isBreak '\\' = false := by decide
  have h3 : isBreak 'u' = false := by decide
  have hu : Quoted.ofLetter? 'u' = none := by decide
  have hd : Quoted.digitCount? 'u' = some 4 := rfl
  have h0 : Quoted.hexValue? '0' = some 0 := by decide
  have hq := hexValue?_hexDigit (show c.toNat / 16 < 16 by omega)
  have hr := hexValue?_hexDigit (show c.toNat % 16 < 16 by omega)
  have hn : 16 * (c.toNat / 16) + c.toNat % 16 = c.toNat := by omega
  simp [h1, h2, h3, startsPair_of_not_isBreak h2, hu, hd, h0, hq, hr, hn,
    ofCodePoint?_toNat, Place.skip_skip]

theorem scanQuoted_self {p : Place} {c : Char} (hl : Quoted.letter? c = none)
    (hb : isBlank c = false) (text cs : List Char) :
    scanQuoted true text .word p (c :: cs) = scanQuoted true (c :: text) .word (p.skip 1) cs := by
  obtain ⟨h1, h2, -, hk⟩ := letter?_eq_none hl
  simp [hb, hk, startsPair_of_not_isBreak hk, h1, h2]

/-- a character that is written behind `g` blanks held back comes after them in the text -/
theorem scanQuoted_escape {p : Place} (h : p.column ≠ 0) (c : Char) (text g cs : List Char) :
    ∃ text' g', text'.reverse ++ g' = text.reverse ++ g ++ [c] ∧
      scanQuoted true text (.gap (.blanks g)) p (Quoted.escape c ++ cs) =
        scanQuoted true text' (.gap (.blanks g')) (p.skip (Quoted.escape c).length) cs := by
  have hn (n : Nat) : (p.skip n).column ≠ 0 := by simp only [Place.skip]; omega
  have hs : isBlank '\\' = false := by decide
  have hs' : isBreak '\\' = false := by decide
  unfold Quoted.escape
  split
  next l hl =>
    refine ⟨c :: (g.reverse ++ text), [], by simp, ?_⟩
    rw [← scanQuoted_word (hn _)]
    simp only [List.cons_append, List.nil_append]
    rw [scanQuoted_gap h hs hs', scanQuoted_letter hl]
    rfl
  next hl =>
    split
    next hc =>
      refine ⟨c :: (g.reverse ++ text), [], by simp, ?_⟩
      rw [← scanQuoted_word (hn _)]
      simp only [List.cons_append, List.nil_append]
      rw [scanQuoted_gap h hs hs', scanQuoted_control hc]
      rfl
    next hc =>
      cases hb : isBlank c with
      | true => exact ⟨text, g ++ [c], by simp, by simp [hb, Gap.addBlank]⟩
      | false =>
        refine ⟨c :: (g.reverse ++ text), [], by simp, ?_⟩
        rw [← scanQuoted_word (hn _)]
        simp only [List.cons_append, List.nil_append]
        rw [scanQuoted_gap h hb (letter?_eq_none hl).2.2.2, scanQuoted_self hl hb]
        rfl

theorem scanQuoted_body {p : Place} (h : p.column ≠ 0) (text g v rest : List Char) :
    scanQuoted true text (.gap (.blanks g)) p (Quoted.body v ++ '"' :: rest) =
      .ok ⟨text.reverse ++ g ++ v, p.skip ((Quoted.body v).length + 1), rest⟩ := by
  induction v generalizing text g p with
  | nil =>
    have hb : isBlank '"' = false := by decide
    have hk : isBreak '"' = false := by decide
    simp [Quoted.body_nil, h, hb, hk, startsPair_of_not_isBreak hk, Gap.text]
  | cons c v ih =>
    obtain ⟨text', g', he, hq⟩ := scanQuoted_escape h c text g (Quoted.body v ++ '"' :: rest)
    have hn : (p.skip (Quoted.escape c).length).column ≠ 0 := by simp only [Place.skip]; omega
    rw [Quoted.body_cons, List.append_assoc, hq, ih hn, he, Place.skip_skip]
    simp [Nat.add_assoc]

/-- a text in double quotes is read back, behind its opening quote -/
theorem scanQuoted_encode (p : Place) (v rest : List Char) :
    scanQuoted true [] .word (p.skip 1) (Quoted.body v ++ '"' :: rest) =
      .ok ⟨v, p.skip (Quoted.encode v).length, rest⟩ := by
  have h : (p.skip 1).column ≠ 0 := by simp [Place.skip]
  rw [scanQuoted_word h, scanQuoted_body h, Place.skip_skip]
  simp [Quoted.encode, Nat.add_comm]

end

/-! ## plain scalars -/

/-- a character that a plain scalar takes as it is, outside flow collections -/
def isWordChar (c : Char) : Bool := !(isBlank c || isBreak c || c == ':')

namespace PlainContext

attribute [local simp] scan

variable {x : PlainContext} (hx : x.inFlow = false)
include hx

theorem scan_word (text w cs : List Char) (p : Place) (hw : w.all isWordChar = true) :
    x.scan text none p (w ++ cs) = x.scan (w.reverse ++ text) none (p.skip w.length) cs := by
  induction w generalizing text p with
  | nil => rfl
  | cons c w ih =>
    simp only [List.all_cons, Bool.and_eq_true] at hw
    obtain ⟨hc, hw⟩ := hw
    simp only [isWordChar, Bool.not_eq_true', Bool.or_eq_false_iff, beq_eq_false_iff_ne] at hc
    obtain ⟨⟨hb, hk⟩, hcolon⟩ := hc
    have hstep : x.scan text none p (c :: (w ++ cs)) =
        x.scan (c :: text) none (p.skip 1) (w ++ cs) := by
      rw [scan]
      simp [hb, hk, startsPair_of_not_isBreak hk, badColonAt, stopsAt, hx, hcolon]
    rw [List.cons_append, hstep, ih _ _ hw, Place.skip_skip]
    simp [Nat.add_comm]

/-- a plain word ends before a colon that is followed by a blank or a break -/
theorem scan_colon (w cs : List Char) (p : Place) (hw : w.all isWordChar = true)
    (hcs : endsWord cs.head? = true) :
    x.scan [] none p (w ++ ':' :: cs) = .ok ⟨w, false, p.skip w.length, ':' :: cs⟩ := by
  have hb : isBlank ':' = false := by decide
  have hk : isBreak ':' = false := by decide
  rw [scan_word hx _ _ _ _ hw, scan]
  simp [hb, hk, startsPair_of_not_isBreak hk, badColonAt, stopsAt, hx, hcs]

omit hx in
/-- blanks at the start of a line do not count -/
theorem scan_spaces (text f m : List Char) (p : Place) (j : Nat) (cs : List Char) :
    x.scan text (some (.folded f m)) p (List.replicate j ' ' ++ cs) =
      x.scan text (some (.folded f m)) (p.skip j) cs := by
  induction j generalizing p with
  | zero => rfl
  | succ j ih =>
    rw [List.replicate_succ, List.cons_append, scan]
    simp [isBlank_space, Gap.addBlank, ih, Place.skip_skip, Nat.add_comm]

/-- a plain word that ends its line is read on up to what comes next -/
theorem scan_line (w cs : List Char) (p : Place) (hw : w.all isWordChar = true)
    (hcs : LineAhead x.indent cs) :
    x.scan [] none p (w ++ '\n' :: cs) =
      .ok ⟨w, true, (toWord (p.skip w.length).newLine cs).1,
        (toWord (p.skip w.length).newLine cs).2⟩ := by
  have hb : isBlank '\n' = false := by decide
  rw [scan_word hx _ _ _ _ hw, scan]
  simp only [hb, isBreak_feed, startsPair_feed, Bool.false_eq_true, if_false, if_true,
    Gap.addBreak, breakText_feed, List.append_nil, Option.getD_none]
  cases hcs with
  | done => simp [toWord_nil, Gap.hasBreak]
  | line j c cs hj hc =>
    have hb := not_isBlank_of_opensLine hc
    have hk := not_isBreak_of_opensLine hc
    rw [scan_spaces, scan, toWord_spaces hc]
    simp [hb, hk, startsPair_of_not_isBreak hk, endsAfterGap, hx, isOutdented, Place.newLine,
      Place.skip, hj, Gap.hasBreak]

end PlainContext

end ConfigReconcile.Yaml
