import ConfigReconcile.Proofs.Decimal.Rounding
import ConfigReconcile.Proofs.Yaml.Progress
import ConfigReconcile.Yaml.Value

/-!
# What a tree may stand for

* `expand_scalar`, `expand_sequence`, `expand_mapping`   the value of a tree, node by node;
* `Value.Sound`     whole numbers fit 64 bits, floats are in their one form, and collections are
                    nested at most so many levels deep;
* `sound_expand`    the value of any tree, aliases followed, is sound.
-/

namespace ConfigReconcile.Yaml

open Text Decimal

namespace Document

variable {d : Document} {levels jumps : Nat} {props : Properties}

/-! ## node by node -/

theorem ok_of_map {ε α β : Type} {x : Except ε α} {f : α → β} {b : β} (h : x.map f = .ok b) :
    ∃ a, x = .ok a ∧ f a = b := by
  cases x with
  | error e => cases h
  | ok a => exact ⟨a, rfl, Except.ok.inj h⟩

/-- one more item -/
def expandItem (d : Document) (levels : Nat) (acc : List Value × Nat) (t : Tree Nat) :
    Except Fault (List Value × Nat) := do
  let (v, jumps) ← d.expand levels acc.2 t
  return (v :: acc.1, jumps)

/-- one more entry -/
def expandEntry (d : Document) (levels : Nat) (acc : List (Value × Value) × Nat)
    (e : Tree Nat × Tree Nat) : Except Fault (List (Value × Value) × Nat) := do
  let (k, jumps) ← d.expand levels acc.2 e.1
  let (v, jumps) ← d.expand levels jumps e.2
  return ((k, v) :: acc.1, jumps)

/-- the value of a tree that is no alias -/
def expandNode (d : Document) (levels jumps : Nat) : Tree Nat → Except Fault (Value × Nat)
  | .alias _ => .error .unknownAlias
  | .scalar props style text => (Value.ofScalar props style text).map (·, jumps)
  | .sequence props items =>
    match levels with
    | 0 => .error .tooDeep
    | levels + 1 =>
      (items.foldlM (d.expandItem levels) ([], jumps)).map fun r =>
        (.underTag props (.sequence r.1.reverse), r.2)
  | .mapping props entries =>
    match levels with
    | 0 => .error .tooDeep
    | levels + 1 =>
      (entries.foldlM (d.expandEntry levels) ([], jumps)).map fun r =>
        (.underTag props (.mapping r.1.reverse), r.2)

theorem expand_eq (t : Tree Nat) :
    d.expand levels jumps t = (d.follow jumps t).bind fun r => d.expandNode levels r.2 r.1 := by
  unfold expand
  show (d.follow jumps t >>= _) = _
  cases d.follow jumps t with
  | error e => rfl
  | ok r =>
    obtain ⟨t, jumps⟩ := r
    cases t with
    | scalar props style text =>
      show (Value.ofScalar props style text >>= _) = (Value.ofScalar props style text).map _
      cases Value.ofScalar props style text <;> rfl
    | sequence props items =>
      cases levels with
      | zero => rfl
      | succ levels =>
        show (items.foldlM (d.expandItem levels) ([], jumps) >>= _) =
          (items.foldlM (d.expandItem levels) ([], jumps)).map _
        cases items.foldlM (d.expandItem levels) ([], jumps) <;> rfl
    | mapping props entries =>
      cases levels with
      | zero => rfl
      | succ levels =>
        show (entries.foldlM (d.expandEntry levels) ([], jumps) >>= _) =
          (entries.foldlM (d.expandEntry levels) ([], jumps)).map _
        cases entries.foldlM (d.expandEntry levels) ([], jumps) <;> rfl
    | _ => rfl

end Document

/-! ## sound values -/

/-- the value of a scalar without a tag of the document's own: whole numbers fit 64 bits, floats are
in their one form -/
inductive Value.Leaf : Value → Prop where
  | null : Leaf .null
  | bool (b : Bool) : Leaf (.bool b)
  | integer {n : Int} (h : fits 64 n = true) : Leaf (.integer n)
  | float {x : Binary64} (h : x.WellFormed) : Leaf (.float x)
  | string (s : String) : Leaf (.string s)

/-- scalars are as they should be, and collections are nested at most so many levels deep -/
inductive Value.Sound : Nat → Value → Prop where
  | leaf {levels : Nat} {v : Value} (h : v.Leaf) : Sound levels v
  | sequence {levels : Nat} {items : List Value} (h : ∀ v ∈ items, Sound levels v) :
      Sound (levels + 1) (.sequence items)
  | mapping {levels : Nat} {entries : List (Value × Value)} (h : ∀ e ∈ entries, Sound levels e.2) :
      Sound (levels + 1) (.mapping entries)
  | tagged {levels : Nat} (tag : String) {v : Value} (h : Sound levels v) :
      Sound levels (.tagged tag v)

namespace Value

theorem wellFormed_decimal? {neg : Bool} {cs : List Char} {x : Binary64}
    (h : decimal? neg cs = some x) : x.WellFormed := by
  unfold decimal? at h
  split at h
  next =>
    obtain ⟨⟨n, k⟩, -, rfl⟩ := Option.map_eq_some_iff.1 h
    exact Binary64.wellFormed_ofDecimal _ _ _
  next =>
    obtain ⟨⟨n, k⟩, -, h⟩ := Option.bind_eq_some_iff.1 h
    obtain ⟨e, -, h⟩ := Option.bind_eq_some_iff.1 h
    cases h
    exact Binary64.wellFormed_ofDecimal _ _ _

theorem wellFormed_decimal_float? {cs : List Char} {x : Binary64}
    (h : Decimal.float? cs = some x) : x.WellFormed := by
  unfold Decimal.float? at h
  dsimp only at h
  split at h
  next => cases h; trivial
  next =>
    split at h
    next => cases h; trivial
    next => exact wellFormed_decimal? h

theorem wellFormed_float? {s : String} {x : Binary64} (h : Yaml.float? s = some x) :
    x.WellFormed := by
  unfold Yaml.float? at h
  dsimp only at h
  generalize (if s.toList.head? = some '+' then s.toList.drop 1 else s.toList) = unsigned at h
  split at h
  next => cases h
  next =>
    split at h
    next => cases h; trivial
    next =>
      split at h
      next => cases h; trivial
      next =>
        split at h
        next => cases h; trivial
        next => exact wellFormed_decimal_float? (Option.filter_eq_some_iff.1 h).1

theorem fits_integer? {cs : List Char} {n : Int} (h : Yaml.integer? cs = some (.ok n)) :
    fits 64 n = true := by
  unfold Yaml.integer? at h
  split at h
  next => cases h
  next =>
    split at h
    next hf => cases h; exact hf
    next => split at h <;> cases h

/-- a whole number fits if it is read at all -/
theorem leaf_integer {r : Except Fault Int} {cs : List Char} {v : Value}
    (hr : Yaml.integer? cs = some r) (h : r.map .integer = .ok v) : v.Leaf := by
  cases r with
  | error e => cases h
  | ok n =>
    cases h
    exact .integer (fits_integer? hr)

theorem leaf_ofPlain {s : String} {v : Value} (h : ofPlain s = .ok v) : v.Leaf := by
  unfold ofPlain at h
  split at h
  next => cases h; exact .null
  next =>
    split at h
    next => cases h; exact .bool _
    next =>
      split at h
      next hr => exact leaf_integer hr h
      next =>
        split at h
        next => cases h; exact .string _
        next =>
          split at h
          next hx => cases h; exact .float (wellFormed_float? hx)
          next => cases h; exact .string _

theorem leaf_ofUntagged {style : Style} {s : String} {v : Value}
    (h : ofUntagged style s = .ok v) : v.Leaf := by
  unfold ofUntagged at h
  split at h
  next => exact leaf_ofPlain h
  next => cases h; exact .string _

theorem leaf_ofTyped {props : Properties} {style : Style} {s : String} {v : Value}
    (h : ofTyped props style s = .ok v) : v.Leaf := by
  unfold ofTyped at h
  dsimp only at h
  split at h
  next => exact leaf_ofUntagged h
  next =>
    split at h
    next =>
      split at h
      next => cases h; exact .bool _
      next => cases h
    next =>
      split at h
      next =>
        split at h
        next hr => exact leaf_integer hr h
        next => cases h
      next =>
        split at h
        next =>
          split at h
          next hx => cases h; exact .float (wellFormed_float? hx)
          next => cases h
        next =>
          split at h
          next =>
            split at h
            next => cases h; exact .null
            next => cases h
          next =>
            split at h
            next => exact leaf_ofUntagged h
            next => cases h; exact .string _

variable {levels : Nat}

theorem sound_ofScalar {props : Properties} {style : Style} {s : String} {v : Value}
    (h : ofScalar props style s = .ok v) : v.Sound levels := by
  unfold ofScalar at h
  split at h
  next tag _ =>
    cases hv : ofUntagged style s with
    | error e => rw [hv] at h; cases h
    | ok w =>
      rw [hv] at h
      cases h
      exact .tagged tag (.leaf (leaf_ofUntagged hv))
  next => exact .leaf (leaf_ofTyped h)

theorem Sound.underTag {props : Properties} {v : Value} (h : v.Sound levels) :
    (v.underTag props).Sound levels := by
  unfold Value.underTag
  split
  next tag _ => exact .tagged tag h
  next => exact h

end Value

namespace Document

variable {d : Document} {levels : Nat}

theorem foldlM_invariant {σ α ε : Type} {P : σ → Prop} {f : σ → α → Except ε σ} {xs : List α}
    {s s' : σ} (hf : ∀ a ∈ xs, ∀ s s', P s → f s a = .ok s' → P s') (hs : P s)
    (h : xs.foldlM f s = .ok s') : P s' := by
  induction xs generalizing s with
  | nil => cases h; exact hs
  | cons x xs ih =>
    rw [List.forall_mem_cons] at hf
    rw [List.foldlM_cons] at h
    obtain ⟨s₁, h₁, h⟩ := ok_of_bind h
    exact ih hf.2 (hf.1 s s₁ hs h₁) h

theorem forall_of_expandItem {P : Value → Prop} {jumps : Nat} {r : List Value × Nat}
    {items : List (Tree Nat)}
    (hP : ∀ t ∈ items, ∀ {jumps jumps' v}, d.expand levels jumps t = .ok (v, jumps') → P v)
    (h : items.foldlM (d.expandItem levels) ([], jumps) = .ok r) : ∀ v ∈ r.1.reverse, P v := by
  simp only [List.mem_reverse]
  refine foldlM_invariant (P := fun acc => ∀ v ∈ acc.1, P v) ?_ (by simp) h
  intro t ht acc acc' hacc hstep
  obtain ⟨⟨v, jumps⟩, hv, hstep⟩ := ok_of_bind hstep
  cases hstep
  exact List.forall_mem_cons.2 ⟨hP t ht hv, hacc⟩

theorem forall_of_expandEntry {P : Value → Prop} {jumps : Nat} {r : List (Value × Value) × Nat}
    {entries : List (Tree Nat × Tree Nat)}
    (hP : ∀ e ∈ entries, ∀ {jumps jumps' v}, d.expand levels jumps e.2 = .ok (v, jumps') → P v)
    (h : entries.foldlM (d.expandEntry levels) ([], jumps) = .ok r) :
    ∀ e ∈ r.1.reverse, P e.2 := by
  simp only [List.mem_reverse]
  refine foldlM_invariant (P := fun acc => ∀ e ∈ acc.1, P e.2) ?_ (by simp) h
  intro e he acc acc' hacc hstep
  obtain ⟨⟨k, jumps⟩, -, hstep⟩ := ok_of_bind hstep
  obtain ⟨⟨v, jumps⟩, hv, hstep⟩ := ok_of_bind hstep
  cases hstep
  exact List.forall_mem_cons.2 ⟨hP e he hv, hacc⟩

/-- the value of any tree is sound -/
theorem sound_expand {jumps jumps' : Nat} {t : Tree Nat} {v : Value}
    (h : d.expand levels jumps t = .ok (v, jumps')) : v.Sound levels := by
  induction levels generalizing jumps jumps' t v with
  | zero =>
    rw [expand_eq] at h
    obtain ⟨⟨t, jumps⟩, -, h⟩ := ok_of_bind h
    cases t with
    | scalar props style text =>
      obtain ⟨w, hw, h⟩ := ok_of_map h
      cases h
      exact Value.sound_ofScalar hw
    | sequence props items => cases h
    | mapping props entries => cases h
    | _ => cases h
  | succ levels ih =>
    rw [expand_eq] at h
    obtain ⟨⟨t, jumps⟩, -, h⟩ := ok_of_bind h
    cases t with
    | scalar props style text =>
      obtain ⟨w, hw, h⟩ := ok_of_map h
      cases h
      exact Value.sound_ofScalar hw
    | sequence props items =>
      obtain ⟨r, hr, h⟩ := ok_of_map h
      cases h
      exact (Value.Sound.sequence (forall_of_expandItem (fun _ _ => ih) hr)).underTag
    | mapping props entries =>
      obtain ⟨r, hr, h⟩ := ok_of_map h
      cases h
      exact (Value.Sound.mapping (forall_of_expandEntry (fun _ _ => ih) hr)).underTag
    | _ => cases h

theorem sound_value {v : Value} (h : d.value = .ok v) : v.Sound maxLevels := by
  obtain ⟨⟨w, jumps⟩, hw, h⟩ := ok_of_bind h
  dsimp only at h
  split at h
  · cases h
    exact sound_expand hw
  · cases h

end Document

theorem Value.sound_ofText {s : String} {v : Value} (h : Value.ofText s = .ok v) :
    v.Sound Document.maxLevels := by
  obtain ⟨d?, -, h⟩ := ok_of_bind h
  cases d? with
  | none => cases h; exact .leaf .null
  | some d => exact Document.sound_value h

end ConfigReconcile.Yaml
