import ConfigReconcile.Document.Basic

/-!
# Entries of a mapping: lookup, keys, extensionality

An entry list with unique keys is determined by its `keys`, in order, together with the lookup
`get?` (`ext_of_keys`).  So an operation on entries is described by what it does to these two:

* `insert`   keeps the keys, or adds one at the end (`keys_insert`);
* `erase`    drops one key (`keys_erase`);
* `put`      sets a key to an optional value: `some` inserts, `none` erases;
* `ofList`   has unique keys, and keeps what holds of the pairs (`ofList_invariant`).
-/

namespace ConfigReconcile.Entries

variable {α : Type}

/-! ## lookup and membership -/

theorem get?_eq_none_iff (es : List (String × α)) (k : String) :
    get? es k = none ↔ k ∉ keys es := by
  induction es with
  | nil => simp [get?, keys]
  | cons p es ih =>
    obtain ⟨k', v⟩ := p
    rw [get?_cons, keys_cons, List.mem_cons]
    by_cases h : k' = k
    · simp [h]
    · rw [if_neg h, ih]
      simp [Ne.symm h]

theorem mem_of_get? {es : List (String × α)} {k : String} {v : α} (h : get? es k = some v) :
    (k, v) ∈ es := by
  induction es with
  | nil => cases h
  | cons p es ih =>
    obtain ⟨k', v'⟩ := p
    rw [get?_cons] at h
    split at h
    · next hk =>
      cases h
      rw [hk]
      exact List.mem_cons_self ..
    · exact List.mem_cons_of_mem _ (ih h)

theorem get?_of_mem {es : List (String × α)} (hn : (keys es).Nodup) {k : String} {v : α}
    (h : (k, v) ∈ es) : get? es k = some v := by
  induction es with
  | nil => cases h
  | cons p es ih =>
    obtain ⟨k', v'⟩ := p
    rw [keys_cons, List.nodup_cons] at hn
    rw [get?_cons]
    rcases List.mem_cons.1 h with he | ht
    · cases he
      rw [if_pos rfl]
    · have hne : k' ≠ k := by
        intro hk
        apply hn.1
        rw [hk]
        exact List.mem_map.2 ⟨(k, v), ht, rfl⟩
      rw [if_neg hne]
      exact ih hn.2 ht

theorem get?_append (es fs : List (String × α)) (k : String) :
    get? (es ++ fs) k = (get? es k).or (get? fs k) := by
  induction es with
  | nil => rfl
  | cons p es ih =>
    rw [List.cons_append, get?_cons, get?_cons, ih]
    split <;> rfl

/-- entries with the same keys in the same order and the same lookup are the same -/
theorem ext_of_keys {es fs : List (String × α)} (hn : (keys es).Nodup) (hk : keys es = keys fs)
    (hg : ∀ k, get? es k = get? fs k) : es = fs := by
  induction es generalizing fs with
  | nil =>
    cases fs with
    | nil => rfl
    | cons q fs => cases hk
  | cons p es ih =>
    cases fs with
    | nil => cases hk
    | cons q fs =>
      obtain ⟨k, v⟩ := p
      obtain ⟨j, w⟩ := q
      rw [keys_cons, keys_cons, List.cons.injEq] at hk
      obtain ⟨rfl, hk⟩ := hk
      rw [keys_cons, List.nodup_cons] at hn
      have hv : some v = some w := by
        have h := hg k
        rwa [get?_cons, get?_cons, if_pos rfl, if_pos rfl] at h
      cases hv
      have ht : ∀ j, get? es j = get? fs j := by
        intro j
        by_cases hj : k = j
        · subst hj
          have hn' := hn.1
          rw [(get?_eq_none_iff es k).2 hn', (get?_eq_none_iff fs k).2 (hk ▸ hn')]
        · have h := hg j
          rwa [get?_cons, get?_cons, if_neg hj, if_neg hj] at h
      rw [ih hn.2 hk ht]

/-! ## what the operations do to the keys -/

theorem keys_insert (es : List (String × α)) (k : String) (v : α) :
    keys (insert es k v) = if k ∈ keys es then keys es else keys es ++ [k] := by
  induction es with
  | nil => rfl
  | cons p es ih =>
    obtain ⟨k', v'⟩ := p
    rw [insert]
    by_cases h : k' = k
    · rw [if_pos h, keys_cons, keys_cons, if_pos (h ▸ List.mem_cons_self ..)]
    · rw [if_neg h, keys_cons, keys_cons, ih]
      by_cases hm : k ∈ keys es
      · rw [if_pos hm, if_pos (List.mem_cons_of_mem _ hm)]
      · rw [if_neg hm, if_neg (by simp [Ne.symm h, hm]), List.cons_append]

theorem keys_erase (es : List (String × α)) (k : String) :
    keys (erase es k) = (keys es).erase k := by
  induction es with
  | nil => rfl
  | cons p es ih =>
    obtain ⟨k', v'⟩ := p
    rw [erase, keys_cons, List.erase_cons]
    by_cases h : k' = k
    · rw [if_pos h, if_pos (by simp [h])]
    · rw [if_neg h, if_neg (by simp [h]), keys_cons, ih]

theorem erase_of_not_mem {es : List (String × α)} {k : String} (h : k ∉ keys es) :
    erase es k = es := by
  induction es with
  | nil => rfl
  | cons p es ih =>
    obtain ⟨k', v'⟩ := p
    rw [keys_cons, List.mem_cons, not_or] at h
    rw [erase, if_neg (Ne.symm h.1), ih h.2]

theorem get?_erase_self {es : List (String × α)} (hn : (keys es).Nodup) (k : String) :
    get? (erase es k) k = none := by
  rw [get?_eq_none_iff, keys_erase]
  exact fun hm => ((List.Nodup.mem_erase_iff hn).1 hm).1 rfl

theorem get?_erase_of_ne (es : List (String × α)) {k j : String} (h : j ≠ k) :
    get? (erase es k) j = get? es j := by
  induction es with
  | nil => rfl
  | cons p es ih =>
    obtain ⟨k', v'⟩ := p
    rw [erase]
    split
    · next hk => rw [get?_cons, if_neg (hk ▸ Ne.symm h)]
    · rw [get?_cons, get?_cons, ih]

/-! ## an optional value under a key -/

/-- sets a key to a value, or removes it when there is none -/
def put (es : List (String × α)) (k : String) : Option α → List (String × α)
  | none => erase es k
  | some v => insert es k v

theorem get?_put_self {es : List (String × α)} (hn : (keys es).Nodup) (k : String) (v? : Option α) :
    get? (put es k v?) k = v? := by
  cases v? with
  | none => exact get?_erase_self hn k
  | some v => exact get?_insert_self es k v

theorem get?_put_of_ne (es : List (String × α)) {k j : String} (v? : Option α) (h : j ≠ k) :
    get? (put es k v?) j = get? es j := by
  cases v? with
  | none => exact get?_erase_of_ne es h
  | some v => exact get?_insert_of_ne es v h

theorem nodup_keys_put {es : List (String × α)} (hn : (keys es).Nodup) (k : String)
    (v? : Option α) : (keys (put es k v?)).Nodup := by
  cases v? with
  | none =>
    show (keys (erase es k)).Nodup
    rw [keys_erase]
    exact hn.erase k
  | some v => exact nodup_keys_insert hn k v

/-! ## a mapping made of pairs -/

theorem mem_insert {es : List (String × α)} {k : String} {v : α} {e : String × α}
    (h : e ∈ insert es k v) : e = (k, v) ∨ e ∈ es := by
  induction es with
  | nil => exact .inl (List.mem_singleton.1 h)
  | cons e' es ih =>
    obtain ⟨k', v'⟩ := e'
    rw [insert] at h
    split at h
    next hk =>
      subst hk
      exact (List.mem_cons.1 h).imp_right (List.mem_cons_of_mem _)
    next =>
      rcases List.mem_cons.1 h with rfl | h
      · exact .inr (List.mem_cons_self ..)
      · exact (ih h).imp_right (List.mem_cons_of_mem _)

/-- a property of entries, and unique keys, go from pairs to the mapping made of them -/
theorem ofList_invariant {P : String × α → Prop} {ps : List (String × α)} (h : ∀ p ∈ ps, P p) :
    (keys (ofList ps)).Nodup ∧ ∀ e ∈ ofList ps, P e := by
  unfold ofList
  suffices hfold : ∀ es : List (String × α), (keys es).Nodup → (∀ e ∈ es, P e) →
      (keys (ps.foldl (fun es p => insert es p.1 p.2) es)).Nodup ∧
        ∀ e ∈ ps.foldl (fun es p => insert es p.1 p.2) es, P e from
    hfold [] .nil (by simp)
  intro es hnodup hes
  induction ps generalizing es with
  | nil => exact ⟨hnodup, hes⟩
  | cons p ps ih =>
    rw [List.forall_mem_cons] at h
    refine ih h.2 _ (nodup_keys_insert hnodup p.1 p.2) fun e he => ?_
    rcases mem_insert he with rfl | he
    · exact h.1
    · exact hes e he

theorem insert_of_not_mem {es : List (String × α)} {k : String} (v : α) (h : k ∉ keys es) :
    insert es k v = es ++ [(k, v)] := by
  induction es with
  | nil => rfl
  | cons e es ih =>
    obtain ⟨k', v'⟩ := e
    rw [keys_cons, List.mem_cons, not_or] at h
    rw [insert, if_neg (Ne.symm h.1), ih h.2]
    rfl

/-- pairs with different keys are the entries of their mapping -/
theorem ofList_of_nodup {ps : List (String × α)} (h : (keys ps).Nodup) : ofList ps = ps := by
  unfold ofList
  suffices hfold : ∀ es : List (String × α), (keys (es ++ ps)).Nodup →
      ps.foldl (fun es p => insert es p.1 p.2) es = es ++ ps from hfold [] h
  clear h
  intro es hnodup
  induction ps generalizing es with
  | nil => exact (List.append_nil es).symm
  | cons p ps ih =>
    obtain ⟨k, v⟩ := p
    have hk : k ∉ keys es := by
      intro hk
      rw [keys, List.map_append, List.nodup_append] at hnodup
      exact hnodup.2.2 k hk k (List.mem_cons_self ..) rfl
    rw [List.foldl_cons, insert_of_not_mem v hk, ih _ (by simpa using hnodup)]
    simp

end ConfigReconcile.Entries
