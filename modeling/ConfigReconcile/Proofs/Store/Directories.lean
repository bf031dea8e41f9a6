import ConfigReconcile.Store.Path
import Mathlib.Data.List.DropRight

/-!
# Files and their directories

A path is cut and joined as a text, but what it names depends on its components.  Here both are said
by components alone:

* `components_of_parent?`   the parent has all components but the last, and there is one unless nothing
                            is left to cut off (`parent?_eq_none_iff`);
* `IsIn`, `isIn_iff`        a file stands right in a directory under a name, one component more;
* `isIn_join`               so does what is joined onto the directory;
* `IsIn.key_eq`, `IsIn.lt_iff`   two files of a directory are the same if their names are, and are in
                            order of their names.
-/

namespace ConfigReconcile

open Text

namespace Text

/-! ## pieces -/

variable {mark : Char} {l cs : List Char}

theorem pieces_of_not_mem (h : mark ∉ l) : pieces mark l = [l] := by
  induction l with
  | nil => rfl
  | cons c l ih =>
    rw [List.mem_cons, not_or] at h
    rw [pieces, if_neg (Ne.symm h.1), ih h.2]

/-- behind a mark, a text without marks is one more piece -/
theorem pieces_append_piece (h : mark ∉ l) (cs : List Char) :
    pieces mark (cs ++ mark :: l) = pieces mark cs ++ [l] := by
  induction cs with
  | nil => rw [List.nil_append, pieces_cons_self, pieces_of_not_mem h]; rfl
  | cons c cs ih =>
    by_cases hc : c = mark
    · subst hc
      rw [List.cons_append, pieces_cons_self, pieces_cons_self, ih]
      rfl
    · obtain ⟨p, ps, hp, hq⟩ := pieces_cons_of_ne hc cs
      rw [hp] at ih
      rw [List.cons_append, hq, pieces, if_neg hc, ih]
      rfl

theorem pieces_cons_piece (h : mark ∉ l) (cs : List Char) :
    pieces mark (l ++ mark :: cs) = l :: pieces mark cs := by
  induction l with
  | nil => exact pieces_cons_self mark cs
  | cons c l ih =>
    rw [List.mem_cons, not_or] at h
    rw [List.cons_append, pieces, if_neg (Ne.symm h.1), ih h.2]

theorem pieces_glue {ps : List (List Char)} (hne : ps ≠ []) (h : ∀ l ∈ ps, mark ∉ l) :
    pieces mark (glue mark ps) = ps := by
  induction ps with
  | nil => exact absurd rfl hne
  | cons l ps ih =>
    have hl := h l (List.mem_cons_self ..)
    cases ps with
    | nil => exact pieces_of_not_mem hl
    | cons l' ps =>
      have hps := ih (List.cons_ne_nil l' ps) fun k hk => h k (List.mem_cons_of_mem _ hk)
      rw [glue, pieces_cons_piece hl, hps]
      exact List.cons_ne_nil l' ps

end Text

namespace Path

/-! ## the pieces of a path -/

variable {p q d : Path} {s t : List Char}

theorem pieces_text (p : Path) : pieces '/' p.text.toList = p.split.1 :: p.split.2 := by
  unfold split
  cases hp : pieces '/' p.text.toList with
  | nil => exact absurd hp (pieces_ne_nil _ _)
  | cons l ls => rfl

theorem split_of_pieces {l : List Char} {ls : List (List Char)}
    (h : pieces '/' p.text.toList = l :: ls) : p.split = (l, ls) := by
  unfold split
  rw [h]

theorem not_mem_of_mem_split {l : List Char} (h : l ∈ p.split.1 :: p.split.2) : '/' ∉ l := by
  rw [← pieces_text] at h
  exact fun hm => (mem_of_mem_pieces h hm).2 rfl

theorem front?_congr (ha : p.isAbsolute = q.isAbsolute) (hs : p.split.1 = q.split.1) :
    p.front? = q.front? := by
  unfold front?
  rw [ha, hs]

theorem step?_eq_none_iff {piece : List Char} : step? piece = none ↔ isIdle piece = true := by
  unfold step?
  split
  · simp_all
  · split <;> simp_all

/-- only the front of a path is the root -/
theorem step?_ne_root (piece : List Char) : step? piece ≠ some .root := by
  unfold step?
  split
  · exact nofun
  · split <;> simp

/-- idle pieces at the end do not count -/
theorem filterMap_rdropWhile (ls : List (List Char)) :
    (ls.rdropWhile isIdle).filterMap step? = ls.filterMap step? := by
  induction ls using List.reverseRecOn with
  | nil => rfl
  | append_singleton ls l ih =>
    rw [List.rdropWhile_concat]
    split
    · next hl =>
      rw [ih, List.filterMap_append, List.filterMap_cons_none (step?_eq_none_iff.2 hl)]
      exact (List.append_nil _).symm
    · rfl

theorem body_eq (p : Path) : p.body = p.split.2.rdropWhile isIdle := rfl

/-- the last piece of the body is a step -/
theorem filterMap_body (h : p.body ≠ []) :
    ∃ c, p.split.2.filterMap step? = p.body.dropLast.filterMap step? ++ [c] := by
  have hlast := List.rdropWhile_last_not isIdle p.split.2 h
  cases hs : step? (p.body.getLast h) with
  | none => exact absurd (step?_eq_none_iff.1 hs) hlast
  | some c =>
    refine ⟨c, ?_⟩
    rw [← filterMap_rdropWhile, ← body_eq]
    conv => lhs; rw [← List.dropLast_append_getLast h]
    rw [List.filterMap_append, List.filterMap_cons_some hs]
    rfl

/-! ## the parent -/

theorem isAbsolute_iff : p.isAbsolute = true ↔ ∃ cs, p.text.toList = '/' :: cs := by
  unfold isAbsolute
  rw [decide_eq_true_eq, List.head?_eq_some_iff]

/-- only an absolute or an empty path has an empty first piece -/
theorem split_fst_eq_nil_iff : p.split.1 = [] ↔ p.isAbsolute = true ∨ p.text = "" := by
  have hp := p.pieces_text
  rw [isAbsolute_iff, ← String.toList_eq_nil_iff]
  cases ht : p.text.toList with
  | nil =>
    rw [ht, pieces, List.cons.injEq] at hp
    simp [← hp.1]
  | cons c cs =>
    rw [ht] at hp
    by_cases hc : c = '/'
    · subst hc
      rw [pieces_cons_self, List.cons.injEq] at hp
      simp [← hp.1]
    · obtain ⟨l, ls, -, hl⟩ := pieces_cons_of_ne hc cs
      rw [hl, List.cons.injEq] at hp
      simp [← hp.1, hc]

theorem components_glue {rest : List (List Char)} (hsub : ∀ l ∈ rest, l ∈ p.split.2)
    (hne : p.split.2 ≠ []) (hrest : rest ≠ [] ∨ p.isAbsolute = false) :
    (⟨String.ofList (glue '/' (p.split.1 :: rest))⟩ : Path).components =
      p.front?.toList ++ rest.filterMap step? := by
  generalize hq : (⟨String.ofList (glue '/' (p.split.1 :: rest))⟩ : Path) = q
  have htext : q.text.toList = glue '/' (p.split.1 :: rest) := by rw [← hq, String.toList_ofList]
  have hsplit : q.split = (p.split.1, rest) := by
    apply split_of_pieces
    rw [htext]
    apply pieces_glue (List.cons_ne_nil _ _)
    intro l hl
    rcases List.mem_cons.1 hl with rfl | hl
    · exact not_mem_of_mem_split (List.mem_cons_self ..)
    · exact not_mem_of_mem_split (List.mem_cons_of_mem _ (hsub l hl))
  have habs : q.isAbsolute = p.isAbsolute := by
    have hfst : q.split.1 = p.split.1 := by rw [hsplit]
    have hp := p.split_fst_eq_nil_iff
    have hq := q.split_fst_eq_nil_iff
    have hptext : p.text ≠ "" := by
      intro h
      have hpieces := p.pieces_text
      rw [h, String.toList_empty, pieces, List.cons.injEq] at hpieces
      exact hne hpieces.2.symm
    have hqtext : p.split.1 = [] → p.isAbsolute = true → q.text ≠ "" := by
      intro hnil ha h
      rw [← String.toList_eq_nil_iff, htext, hnil] at h
      cases rest with
      | nil =>
        rcases hrest with hr | hr
        · exact hr rfl
        · rw [ha] at hr
          cases hr
      | cons l ls => cases h
    rw [hfst] at hq
    rw [Bool.eq_iff_iff]
    constructor
    · intro h
      exact (hp.1 (hq.2 (.inl h))).resolve_right hptext
    · intro h
      have hnil := hp.2 (.inl h)
      exact (hq.1 hnil).resolve_right (hqtext hnil h)
  rw [components, front?_congr habs (by rw [hsplit]), hsplit]

/-- the parent of a path has all its components but the last -/
theorem components_of_parent? (h : p.parent? = some q) :
    q.components = p.components.dropLast := by
  unfold parent? at h
  split at h
  · next hbody =>
    split at h
    · cases h
    · cases h
      have hnone : p.split.2.filterMap step? = [] := by
        rw [← filterMap_rdropWhile, ← body_eq, hbody, List.filterMap_nil]
      have hcomponents : p.components = p.front?.toList := by
        rw [components, hnone, List.append_nil]
      rw [hcomponents]
      cases p.front? <;> rfl
  · next hbody =>
    obtain ⟨c, hc⟩ := filterMap_body hbody
    have hne : p.split.2 ≠ [] := fun hn => hbody (by rw [body_eq, hn, List.rdropWhile_nil])
    have hcomponents : p.components.dropLast =
        p.front?.toList ++ (p.body.dropLast.rdropWhile isIdle).filterMap step? := by
      rw [components, hc, ← List.append_assoc, List.dropLast_concat,
        filterMap_rdropWhile]
    have hsub : ∀ l ∈ p.body.dropLast.rdropWhile isIdle, l ∈ p.split.2 := by
      intro l hl
      have hl := (List.rdropWhile_prefix isIdle _).subset hl
      exact (List.rdropWhile_prefix isIdle _).subset (List.dropLast_subset _ hl)
    rw [hcomponents]
    change (if p.body.dropLast.rdropWhile isIdle = [] ∧ p.isAbsolute then _ else _) = _ at h
    split at h
    · next hroot =>
      rw [← Option.some.inj h, hroot.1, front?, if_pos hroot.2]
      decide
    · next hroot =>
      rw [← Option.some.inj h]
      apply components_glue hsub hne
      by_cases ha : p.isAbsolute = true
      · exact .inl fun hn => hroot ⟨hn, ha⟩
      · exact .inr (Bool.eq_false_iff.2 ha)

/-- above an empty path and above the root there is nothing -/
theorem components_of_parent?_none (h : p.parent? = none) :
    p.components = [] ∨ p.components = [.root] := by
  unfold parent? at h
  split at h
  · next hbody =>
    have hnone : p.split.2.filterMap step? = [] := by
      rw [← filterMap_rdropWhile, ← body_eq, hbody, List.filterMap_nil]
    rw [components, hnone, List.append_nil]
    split at h
    · next hp =>
      rw [Bool.or_eq_true, decide_eq_true_eq] at hp
      rcases hp with ha | he
      · right
        rw [front?, if_pos ha]
        rfl
      · left
        obtain ⟨text⟩ := p
        subst he
        decide
    · cases h
  · dsimp only at h
    split at h <;> cases h

theorem components_eq_nil (h : p.components = []) : p.text = "" := by
  obtain ⟨hfront, -⟩ := List.append_eq_nil_iff.1 h
  rw [Option.toList_eq_nil_iff] at hfront
  unfold front? at hfront
  split at hfront
  · cases hfront
  · next habs =>
    split at hfront
    · cases hfront
    · next hdot =>
      have hidle := step?_eq_none_iff.1 hfront
      have hnil : p.split.1 = [] := by simpa [isIdle, hdot] using hidle
      exact (split_fst_eq_nil_iff.1 hnil).resolve_left habs

theorem components_mem_ancestors (h : p.text ≠ "") : p.components ∈ p.ancestors := by
  have hpos : 0 < p.components.length := List.length_pos_iff.2 fun hn => h (components_eq_nil hn)
  refine List.mem_map.2 ⟨p.components.length - 1, List.mem_range.2 (by omega), ?_⟩
  rw [Nat.sub_add_cancel hpos, List.take_length]

/-- nothing is above a path only if it is empty or the root -/
theorem parent?_eq_none_iff :
    p.parent? = none ↔ p.components = [] ∨ p.components = [.root] := by
  refine ⟨components_of_parent?_none, fun h => ?_⟩
  have hrest : p.split.2.filterMap step? = [] := by
    rcases h with h | h
    · exact (List.append_eq_nil_iff.1 h).2
    · rcases List.append_eq_singleton_iff.1 h with ⟨-, hroot⟩ | ⟨-, hnil⟩
      · -- no piece is the root
        have hmem : Component.root ∈ p.split.2.filterMap step? := by
          rw [hroot]
          exact List.mem_singleton_self _
        obtain ⟨piece, -, hpiece⟩ := List.mem_filterMap.1 hmem
        exact absurd hpiece (step?_ne_root piece)
      · exact hnil
  have hbody : p.body = [] := by
    by_contra hne
    obtain ⟨c, hc⟩ := filterMap_body hne
    rw [hrest] at hc
    exact List.append_ne_nil_of_right_ne_nil _ (List.cons_ne_nil c []) hc.symm
  unfold parent?
  rw [if_pos hbody, if_pos]
  rw [Bool.or_eq_true, decide_eq_true_eq]
  rcases h with h | h
  · exact .inr (components_eq_nil h)
  · left
    rw [components, hrest, List.append_nil] at h
    by_contra habs
    rw [front?, if_neg habs] at h
    split at h
    · cases h
    · exact step?_ne_root _ (Option.toList_eq_singleton_iff.1 h)

/-! ## names below a directory -/

/-- a text that names a file -/
structure IsName (s : List Char) : Prop where
  isStep : step? s = some (.name s)
  whole : '/' ∉ s

/-- a file that stands right in a directory, under a name -/
def IsIn (d : Path) (s : List Char) (p : Path) : Prop :=
  p.components = d.components ++ [.name s]

theorem isIn_of_text {cs : List Char} (hs : IsName s) (hp : p.text.toList = cs ++ '/' :: s)
    (hd : cs ≠ [] ∧ d.text.toList = cs ∨ d.text.toList = cs ++ ['/']) : d.IsIn s p := by
  obtain ⟨l, ls, hcs⟩ : ∃ l ls, pieces '/' cs = l :: ls :=
    List.exists_cons_of_ne_nil (pieces_ne_nil '/' cs)
  have hpsplit : p.split = (l, ls ++ [s]) := by
    apply split_of_pieces
    rw [hp, pieces_append_piece hs.whole, hcs]
    rfl
  -- a slash at the end of the directory adds an idle piece
  have hdsplit : d.split.1 = l ∧ d.split.2.filterMap step? = ls.filterMap step? := by
    rcases hd with ⟨-, hd⟩ | hd
    · rw [split_of_pieces (hd ▸ hcs)]
      exact ⟨rfl, rfl⟩
    · have hpieces : pieces '/' d.text.toList = l :: (ls ++ [[]]) := by
        rw [hd, pieces_append_mark, hcs]
        rfl
      rw [split_of_pieces hpieces, List.filterMap_append]
      exact ⟨rfl, List.append_nil _⟩
  have habs : p.isAbsolute = d.isAbsolute := by
    unfold isAbsolute
    rw [hp]
    rcases hd with ⟨hne, hd⟩ | hd
    · rw [hd, List.head?_append_of_ne_nil _ hne]
    · rw [hd, List.head?_append, List.head?_append]
      rfl
  have hfront : p.front? = d.front? := front?_congr habs (by rw [hpsplit, hdsplit.1])
  rw [IsIn, components, components, hfront, hdsplit.2, hpsplit, List.filterMap_append,
    List.filterMap_cons_some hs.isStep, List.filterMap_nil, List.append_assoc]

theorem isIn_join (d : Path) (hs : IsName s) : d.IsIn s (d.join ⟨String.ofList s⟩) := by
  have habs : ¬isAbsolute ⟨String.ofList s⟩ = true := by
    rw [isAbsolute_iff]
    rintro ⟨cs, hcs⟩
    rw [String.toList_ofList] at hcs
    exact hs.whole (hcs ▸ List.mem_cons_self ..)
  unfold join
  rw [if_neg habs]
  split
  · next hend =>
    rcases hend with he | hend
    · -- the directory is empty, and the name stands alone
      have htext : d.text ++ String.ofList s = String.ofList s := by rw [he, String.empty_append]
      have hd : d.components = [] := by
        obtain ⟨text⟩ := d
        subst he
        decide
      have hsplit : split ⟨String.ofList s⟩ = (s, []) := by
        apply split_of_pieces
        rw [String.toList_ofList, pieces_of_not_mem hs.whole]
      have hdot : s ≠ ['.'] := by
        rintro rfl
        cases hs.isStep
      rw [htext, IsIn, hd, components, front?, if_neg habs, hsplit, if_neg hdot, hs.isStep]
      rfl
    · obtain ⟨cs, hcs⟩ := List.getLast?_eq_some_iff.1 hend
      apply isIn_of_text hs _ (.inr hcs)
      rw [String.toList_append, hcs, String.toList_ofList, List.append_assoc]
      rfl
  · next hend =>
    rw [not_or] at hend
    apply isIn_of_text hs _ (.inl ⟨_, rfl⟩)
    · show (d.text ++ "/" ++ String.ofList s).toList = _
      simp [String.toList_append]
    · exact fun h => hend.1 (String.toList_eq_nil_iff.1 h)

theorem isIn_iff : d.IsIn s p ↔
    (∃ q, p.parent? = some q ∧ q.key = d.key) ∧ p.fileName? = some s := by
  have hname : p.fileName? = some s ↔ p.components.getLast? = some (.name s) := by
    unfold fileName?
    split
    · next s' hs =>
      rw [hs]
      simp
    · next hs =>
      refine ⟨fun h => ?_, fun h => absurd h (hs s)⟩
      cases h
  rw [hname, List.getLast?_eq_some_iff, IsIn]
  constructor
  · intro h
    refine ⟨?_, d.components, h⟩
    cases hp : p.parent? with
    | none =>
      rcases components_of_parent?_none hp with hn | hn
      · rw [h] at hn
        exact absurd hn (by simp)
      · rw [h] at hn
        rcases List.append_eq_singleton_iff.1 hn with ⟨-, h⟩ | ⟨-, h⟩ <;> cases h
    | some q =>
      refine ⟨q, rfl, key_eq_iff.2 ?_⟩
      rw [components_of_parent? hp, h, List.dropLast_concat]
  · rintro ⟨⟨q, hp, hq⟩, cs, hcs⟩
    have hparent := components_of_parent? hp
    rw [hcs, List.dropLast_concat, key_eq_iff.1 hq] at hparent
    rw [hcs, hparent]

theorem IsIn.key_eq (hp : d.IsIn s p) : p.key = d.key ++ [3 :: s.map Char.toNat] := by
  rw [key, hp, List.map_append]
  rfl

/-- files of one directory are in order of their names -/
theorem IsIn.lt_iff (hp : d.IsIn s p) (hq : d.IsIn t q) :
    p < q ↔ s.map Char.toNat < t.map Char.toNat := by
  have hmono {a b : List Nat} (h : a < b) : d.key ++ [3 :: a] < d.key ++ [3 :: b] := by
    apply List.append_left_lt
    rw [List.cons_lt_cons_iff, List.cons_lt_cons_iff]
    exact .inl (.inr ⟨rfl, h⟩)
  rw [Path.lt_iff, hp.key_eq, hq.key_eq]
  refine ⟨fun h => ?_, hmono⟩
  by_contra hn
  rcases Decidable.em (t.map Char.toNat < s.map Char.toNat) with hlt | hge
  · exact List.lt_asymm h (hmono hlt)
  · rw [List.le_antisymm (List.not_lt.1 hn) (List.not_lt.1 hge)] at h
    exact List.lt_irrefl _ h

end Path

end ConfigReconcile
