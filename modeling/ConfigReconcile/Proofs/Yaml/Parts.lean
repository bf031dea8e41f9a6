import ConfigReconcile.Proofs.Yaml.Steps

/-!
# Where the parts of a written text end

Words, quoted texts, literal blocks and lists of such parts can be told from what follows them: if
two of a kind agree with what follows, they are the same and so is what follows.

* `spell_append_inj`           a word or a quoted text, before a character that is no part of a word;
* `flatMap_append_inj`         a list of parts;
* `Literal.block_append_inj`   a literal block, whatever its lines look like;
* `lead`                       how a text begins tells what its first part is.
-/

namespace ConfigReconcile

open Text Yaml

/-! ## words and quoted texts -/

theorem append_inj_of_all {p : Char → Bool} {v w x y : List Char} {d e : Char} (hv : v.all p = true)
    (hw : w.all p = true) (hd : p d = false) (he : p e = false) (h : v ++ d :: x = w ++ e :: y) :
    v = w ∧ d :: x = e :: y := by
  have htake {u z : List Char} {a : Char} (hu : u.all p = true) (ha : p a = false) :
      (u ++ a :: z).takeWhile p = u := by
    rw [List.takeWhile_append_of_pos (List.all_eq_true.1 hu),
      List.takeWhile_cons_of_neg (ha ▸ Bool.false_ne_true), List.append_nil]
  have hvw : v = w := by rw [← htake hv hd (z := x), h, htake hw he]
  subst hvw
  exact ⟨rfl, List.append_cancel_left h⟩

/-- the closing quote is the first one that is not escaped -/
theorem encode_append_inj {v w x y : List Char} (h : Quoted.encode v ++ x = Quoted.encode w ++ y) :
    v = w ∧ x = y := by
  have hbody : Quoted.body v ++ '"' :: x = Quoted.body w ++ '"' :: y := by
    simpa [Quoted.encode] using h
  -- a reader of quoted texts comes back with the text and with all that follows
  have hscan := scanQuoted_encode Place.start v x
  rw [hbody, scanQuoted_encode] at hscan
  injection hscan with hscan
  injection hscan with hvw _ hxy
  exact ⟨hvw.symm, hxy.symm⟩

/-- how a text begins -/
inductive Lead where
  | dash
  | block
  | tag
  | quote
  | word
  deriving DecidableEq

def lead : List Char → Lead
  | '-' :: ' ' :: _ => .dash
  | '|' :: _ => .block
  | '!' :: _ => .tag
  | '"' :: _ => .quote
  | _ => .word

theorem lead_word {v : List Char} (hv : Scanner.PlainWord v) (x : List Char) :
    lead (v ++ x) = .word := by
  obtain ⟨c, cs, rfl, -, hc⟩ := hv.start
  have hind (d : Char) (hd : isIndicator d = true) (hdash : d ≠ '-') : c ≠ d := by
    rintro rfl
    rcases hc with hc | ⟨rfl, -⟩
    · rw [hd] at hc; cases hc
    · exact hdash rfl
  unfold lead
  split
  next heq =>
    -- a dash that begins a word is followed by more of the word
    obtain ⟨rfl, htail⟩ := List.cons.inj heq
    rcases hc with hc | ⟨-, hne⟩
    · cases hc
    · obtain ⟨d, ds, rfl⟩ := List.exists_cons_of_ne_nil hne
      obtain ⟨rfl, -⟩ := List.cons.inj htail
      have hword := hv.word
      simp [isWordChar, isBlank] at hword
  next heq => exact absurd (List.cons.inj heq).1 (hind _ (by decide) (by decide))
  next heq => exact absurd (List.cons.inj heq).1 (hind _ (by decide) (by decide))
  next heq => exact absurd (List.cons.inj heq).1 (hind _ (by decide) (by decide))
  next => rfl

/-- a word as it stands, or a text in double quotes -/
def spell (plain : Bool) (v : List Char) : List Char := if plain then v else Quoted.encode v

theorem lead_spell {plain : Bool} {v : List Char} (hv : plain = true → Scanner.PlainWord v)
    (x : List Char) : lead (spell plain v ++ x) = if plain then .word else .quote := by
  cases plain with
  | true => exact lead_word (hv rfl) x
  | false => rfl

theorem spell_append_inj {p q : Bool} {v w x y : List Char} {d e : Char}
    (hv : p = true → Scanner.PlainWord v) (hw : q = true → Scanner.PlainWord w)
    (hd : isWordChar d = false) (he : isWordChar e = false)
    (h : spell p v ++ d :: x = spell q w ++ e :: y) : v = w ∧ d :: x = e :: y := by
  have hlead := congrArg lead h
  rw [lead_spell hv, lead_spell hw] at hlead
  cases p with
  | true =>
    cases q with
    | true => exact append_inj_of_all (hv rfl).word (hw rfl).word hd he h
    | false => cases hlead
  | false =>
    cases q with
    | true => cases hlead
    | false => exact encode_append_inj h

/-! ## lists of parts -/

/-- lists of parts agree part by part if one can tell a part from what may follow the list, and the
parts from what may follow them -/
theorem flatMap_append_inj {α : Type} {f : α → List Char} {P Q : List Char → Prop} {as bs : List α}
    (hend : ∀ a x, ¬P (f a ++ x)) (hrest : ∀ (as : List α) x, P x → Q (as.flatMap f ++ x))
    (hpart : ∀ a ∈ as, ∀ b ∈ bs, ∀ x y, Q x → Q y → f a ++ x = f b ++ y → a = b ∧ x = y)
    {x y : List Char} (hx : P x) (hy : P y) (h : as.flatMap f ++ x = bs.flatMap f ++ y) :
    as = bs ∧ x = y := by
  induction as generalizing bs with
  | nil =>
    cases bs with
    | nil => exact ⟨rfl, h⟩
    | cons b bs =>
      -- what follows the shorter list would begin with a part
      rw [List.flatMap_nil, List.nil_append, List.flatMap_cons, List.append_assoc] at h
      exact absurd (h ▸ hx) (hend b _)
  | cons a as ih =>
    cases bs with
    | nil =>
      rw [List.flatMap_nil, List.nil_append, List.flatMap_cons, List.append_assoc] at h
      exact absurd (h ▸ hy) (hend a _)
    | cons b bs =>
      rw [List.flatMap_cons, List.flatMap_cons, List.append_assoc, List.append_assoc] at h
      obtain ⟨rfl, hrest'⟩ := hpart a (List.mem_cons_self ..) b (List.mem_cons_self ..) _ _
        (hrest as x hx) (hrest bs y hy) h
      obtain ⟨rfl, hxy⟩ := ih (fun a ha b hb => hpart a (List.mem_cons_of_mem _ ha) b
        (List.mem_cons_of_mem _ hb)) hrest'
      exact ⟨rfl, hxy⟩

/-- lines ahead are not indented deeper than they may be -/
theorem not_lineAhead_spaces {i : Int} {c : Nat} (hi : i < c) {x : List Char} (hx : x ≠ []) :
    ¬LineAhead i (List.replicate c ' ' ++ x) := by
  intro h
  generalize hcs : List.replicate c ' ' ++ x = cs at h
  cases h with
  | done => exact hx (List.append_eq_nil_iff.1 hcs).2
  | line j d cs hj hd =>
    -- at column `j` stands the character that opens the line, and one more of the spaces
    obtain ⟨k, rfl⟩ : ∃ k, c = j + (k + 1) := ⟨c - j - 1, by omega⟩
    rw [← List.replicate_append_replicate, List.append_assoc, List.replicate_succ] at hcs
    obtain ⟨rfl, -⟩ := List.cons.inj (List.append_cancel_left hcs)
    cases hd

/-! ## literal blocks -/

namespace Text.Literal

theorem indented_eq (c : Nat) (l : List Char) :
    indented c l = (if l = [] then [] else List.replicate c ' ' ++ l) ++ ['\n'] := by
  unfold indented
  split <;> rfl

theorem feed_not_mem_lines {v l : List Char} (hl : l ∈ lines v) : '\n' ∉ l :=
  fun hm => (mem_of_mem_pieces hl hm).2 rfl

theorem indented_append_inj {c : Nat} {k l x y : List Char} (hk : '\n' ∉ k) (hl : '\n' ∉ l)
    (h : indented c k ++ x = indented c l ++ y) : k = l ∧ x = y := by
  have hall {l : List Char} (hl : '\n' ∉ l) :
      (if l = [] then [] else List.replicate c ' ' ++ l).all (· != '\n') = true := by
    split
    next => rfl
    next => simpa [List.all_eq_true] using fun d hd (hdl : d = '\n') => hl (hdl ▸ hd)
  rw [indented_eq, indented_eq, List.append_assoc, List.append_assoc] at h
  obtain ⟨hkl, hxy⟩ := append_inj_of_all (hall hk) (hall hl) rfl rfl h
  refine ⟨?_, (List.cons.inj hxy).2⟩
  split at hkl
  next hk0 =>
    split at hkl
    next hl0 => rw [hk0, hl0]
    next hl0 => exact absurd (List.append_eq_nil_iff.1 hkl.symm).2 hl0
  next hk0 =>
    split at hkl
    next hl0 => exact absurd (List.append_eq_nil_iff.1 hkl).2 hk0
    next hl0 => exact List.append_cancel_left hkl

/-- an empty line is no line ahead, and any other one is indented too deep -/
theorem not_lineAhead_indented {i : Int} {c : Nat} (hi : i < c) (l x : List Char) :
    ¬LineAhead i (indented c l ++ x) := by
  rw [indented]
  split
  next =>
    intro h
    generalize hcs : ['\n'] ++ x = cs at h
    cases h with
    | done => cases hcs
    | line j d cs _ hd =>
      cases j with
      | zero =>
        obtain ⟨rfl, -⟩ := List.cons.inj hcs
        cases hd
      | succ j => cases (List.cons.inj hcs).1
  next =>
    rw [List.append_assoc, List.append_assoc]
    exact not_lineAhead_spaces hi (by simp)

/-- the lines of a text and the mark in its header tell the text -/
theorem eq_of_lines_eq {v w : List Char} (hmark : chomping v = chomping w)
    (hlines : lines v = lines w) : v = w := by
  have hrest : (withoutLastFeed? v).getD v = (withoutLastFeed? w).getD w := by
    rw [← glue_pieces '\n' ((withoutLastFeed? v).getD v), ← lines, hlines, lines, glue_pieces]
  have hstrip (u : List Char) : chomping u = ['-'] ↔ withoutLastFeed? u = none := by
    unfold chomping
    cases withoutLastFeed? u with
    | none => simp
    | some r => by_cases hr : r.getLast? = some '\n' <;> simp [hr]
  have hiff : withoutLastFeed? v = none ↔ withoutLastFeed? w = none := by
    rw [← hstrip, ← hstrip, hmark]
  -- the lines tell the text up to a last line feed, and the mark whether there is one
  cases hv : withoutLastFeed? v with
  | none => rwa [hv, hiff.1 hv] at hrest
  | some r =>
    cases hw : withoutLastFeed? w with
    | none => rw [hiff.2 hw] at hv; cases hv
    | some r' =>
      rw [hv, hw, Option.getD_some, Option.getD_some] at hrest
      rw [withoutLastFeed?_eq_some hv, withoutLastFeed?_eq_some hw, hrest]

/-- **a literal block ends where lines that are indented less go on** -/
theorem block_append_inj {i : Int} {c : Nat} {v w x y : List Char} (hi : i < c) (hx : LineAhead i x)
    (hy : LineAhead i y) (h : block c v ++ x = block c w ++ y) : v = w ∧ x = y := by
  have hmark (u : List Char) : (chomping u).all (· != '\n') = true := by
    unfold chomping
    split
    next => rfl
    next => split <;> rfl
  simp only [block_eq, List.cons_append, List.append_assoc, List.cons.injEq, true_and] at h
  obtain ⟨hvw, hrest⟩ := append_inj_of_all (hmark v) (hmark w) rfl rfl h
  obtain ⟨hlines, hxy⟩ := flatMap_append_inj (Q := fun _ => True) (not_lineAhead_indented hi)
    (fun _ _ _ => trivial)
    (fun k hk l hl _ _ _ _ => indented_append_inj (feed_not_mem_lines hk) (feed_not_mem_lines hl))
    hx hy (List.cons.inj hrest).2
  exact ⟨eq_of_lines_eq hvw hlines, hxy⟩

end Text.Literal

end ConfigReconcile
