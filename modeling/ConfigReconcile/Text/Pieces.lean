/-!
# Pieces between marks

* `pieces mark cs`   the parts of a text between the occurrences of a mark; there is always one;
* `glue mark ps`     the parts with a mark between any two; the inverse (`glue_pieces`).
-/

namespace ConfigReconcile.Text

/-- the parts of a text between its marks -/
def pieces (mark : Char) : List Char → List (List Char)
  | [] => [[]]
  | c :: cs =>
    if c = mark then [] :: pieces mark cs
    else
      match pieces mark cs with
      | [] => [[c]]
      | l :: ls => (c :: l) :: ls

/-- parts with a mark between any two -/
def glue (mark : Char) : List (List Char) → List Char
  | [] => []
  | [l] => l
  | l :: ls => l ++ mark :: glue mark ls

theorem pieces_ne_nil (mark : Char) (cs : List Char) : pieces mark cs ≠ [] := by
  cases cs with
  | nil => simp [pieces]
  | cons c cs =>
    simp only [pieces]
    split
    · simp
    · split <;> simp

theorem glue_pieces (mark : Char) (cs : List Char) : glue mark (pieces mark cs) = cs := by
  induction cs with
  | nil => rfl
  | cons c cs ih =>
    simp only [pieces]
    have hne := pieces_ne_nil mark cs
    split
    · next h =>
      subst h
      cases hs : pieces c cs with
      | nil => exact absurd hs hne
      | cons l ls => rw [glue, ← hs, ih] <;> simp
    · cases hs : pieces mark cs with
      | nil => exact absurd hs hne
      | cons l ls =>
        rw [hs] at ih
        cases ls with
        | nil => simp only [glue] at ih ⊢; rw [ih]
        | cons l' ls => simp only [glue] at ih ⊢; rw [← ih]; rfl

/-- a character that is no mark goes to the first part and makes it longer -/
theorem pieces_cons_of_ne {mark c : Char} (h : c ≠ mark) (cs : List Char) :
    ∃ l ls, pieces mark cs = l :: ls ∧ pieces mark (c :: cs) = (c :: l) :: ls := by
  cases hs : pieces mark cs with
  | nil => exact absurd hs (pieces_ne_nil mark cs)
  | cons l ls => exact ⟨l, ls, rfl, by simp [pieces, h, hs]⟩

theorem pieces_cons_self (mark : Char) (cs : List Char) :
    pieces mark (mark :: cs) = [] :: pieces mark cs := by simp [pieces]

/-- the parts hold the characters of the text, marks apart -/
theorem mem_of_mem_pieces {mark c : Char} {l cs : List Char} (hl : l ∈ pieces mark cs)
    (hc : c ∈ l) : c ∈ cs ∧ c ≠ mark := by
  induction cs generalizing l with
  | nil => simp_all [pieces]
  | cons d cs ih =>
    by_cases hd : d = mark
    · subst hd
      rw [pieces_cons_self, List.mem_cons] at hl
      rcases hl with rfl | hl
      · cases hc
      · exact ⟨List.mem_cons_of_mem _ (ih hl hc).1, (ih hl hc).2⟩
    · obtain ⟨p, ps, hp, hq⟩ := pieces_cons_of_ne hd cs
      rw [hq, List.mem_cons] at hl
      rw [hp] at ih
      rcases hl with rfl | hl
      · rcases List.mem_cons.1 hc with rfl | hc
        · exact ⟨List.mem_cons_self .., hd⟩
        · have := ih (List.mem_cons_self ..) hc
          exact ⟨List.mem_cons_of_mem _ this.1, this.2⟩
      · have := ih (List.mem_cons_of_mem _ hl) hc
        exact ⟨List.mem_cons_of_mem _ this.1, this.2⟩

theorem flatMap_pieces (mark : Char) (cs : List Char) :
    (pieces mark cs).flatMap (· ++ [mark]) = cs ++ [mark] := by
  induction cs with
  | nil => rfl
  | cons c cs ih =>
    by_cases hc : c = mark
    · subst hc
      rw [pieces_cons_self, List.flatMap_cons, ih]; rfl
    · obtain ⟨p, ps, hp, hq⟩ := pieces_cons_of_ne hc cs
      rw [hp, List.flatMap_cons] at ih
      rw [hq, List.flatMap_cons, List.cons_append, List.cons_append, ih]; rfl

/-- a mark at the end leaves one more part, which is empty -/
theorem pieces_append_mark (mark : Char) (cs : List Char) :
    pieces mark (cs ++ [mark]) = pieces mark cs ++ [[]] := by
  induction cs with
  | nil => simp [pieces]
  | cons c cs ih =>
    by_cases hc : c = mark
    · subst hc
      rw [List.cons_append, pieces_cons_self, pieces_cons_self, ih]; rfl
    · obtain ⟨p, ps, hp, hq⟩ := pieces_cons_of_ne hc cs
      obtain ⟨p', ps', hp', hq'⟩ := pieces_cons_of_ne hc (cs ++ [mark])
      rw [ih, hp] at hp'
      obtain ⟨rfl, rfl⟩ : p = p' ∧ ps ++ [[]] = ps' := by simpa using hp'
      rw [List.cons_append, hq', hq]; rfl

/-- the last part is empty only if the text is, or ends with a mark -/
theorem getLast?_pieces {mark : Char} {cs : List Char} (h : (pieces mark cs).getLast? = some []) :
    cs = [] ∨ cs.getLast? = some mark := by
  induction cs with
  | nil => exact .inl rfl
  | cons c cs ih =>
    right
    by_cases hc : c = mark
    · subst hc
      rw [pieces_cons_self] at h
      cases cs with
      | nil => rfl
      | cons d ds =>
        rw [List.getLast?_cons_of_ne_nil (pieces_ne_nil _ _)] at h
        rcases ih h with h' | h'
        · cases h'
        · rwa [List.getLast?_cons_cons]
    · obtain ⟨p, ps, hp, hq⟩ := pieces_cons_of_ne hc cs
      rw [hq] at h
      rw [hp] at ih
      cases ps with
      | nil => simp at h
      | cons q qs =>
        rw [List.getLast?_cons_cons] at h ih
        rcases ih h with rfl | h'
        · simp [pieces] at hp
        · have : cs ≠ [] := by rintro rfl; cases h'
          rwa [List.getLast?_cons_of_ne_nil this]

end ConfigReconcile.Text
