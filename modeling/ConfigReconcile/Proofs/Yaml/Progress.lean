import ConfigReconcile.Yaml.Token.Scanner

/-!
# Every token takes a character

A reader gives back what follows a token.  It is never longer than what was ahead, and at a token
it is shorter, so that the scanner stops:

* `Scanner.fetch_length`   a token takes at least the character that it begins with;
* `Scanner.scan_eq`        the scanner moves to the next token, takes it and goes on, without a
                           test for progress.
-/

namespace ConfigReconcile.Yaml

variable {ε α β : Type}

theorem ok_bind (a : α) (f : α → Except ε β) : (.ok a >>= f) = f a := rfl

theorem ok_of_bind {x : Except ε α} {f : α → Except ε β} {b : β} (h : (x >>= f) = .ok b) :
    ∃ a, x = .ok a ∧ f a = .ok b := by
  cases x with
  | error e => cases h
  | ok a => exact ⟨a, rfl, h⟩

/-! ## words -/

theorem length_dropWhile_le (f : Char → Bool) (cs : List Char) :
    (cs.dropWhile f).length ≤ cs.length := (List.dropWhile_suffix f).length_le

theorem length_of_scanName {cs rest : List Char} {name : String}
    (h : scanName cs = .ok (name, rest)) : rest.length ≤ cs.length := by
  unfold scanName at h
  simp only at h
  split at h
  next => cases h; exact length_dropWhile_le _ _
  next => cases h

theorem length_of_scanUri {cs rest : List Char} {withFlow : Bool} {due : Nat} {bytes : Text.Bytes}
    (h : scanUri withFlow due cs = .ok (bytes, rest)) : rest.length ≤ cs.length := by
  fun_induction scanUri withFlow due cs generalizing bytes rest with
  | case1 => cases h
  | case2 => cases h
  | case3 =>
    rename_i ih
    obtain ⟨⟨bs, r⟩, h1, h2⟩ := ok_of_bind h
    cases h2
    have := ih h1
    simp only [List.length_cons]
    omega
  | case4 => cases h
  | case5 due c cs _ hd hc ih =>
    obtain ⟨⟨bs, r⟩, h1, h2⟩ := ok_of_bind h
    cases h2
    have := ih h1
    simp only [List.length_cons]
    omega
  | case6 => cases h; exact Nat.le_refl _
  | case7 => cases h; exact Nat.le_refl _
  | case8 => cases h

theorem length_of_scanHandle (cs : List Char) : (scanHandle cs).2.2.length ≤ cs.length := by
  have h := length_dropWhile_le isNameChar cs
  unfold scanHandle
  simp only
  split
  next rest hr => rw [hr, List.length_cons] at h; exact Nat.le_of_succ_le h
  next => exact h

theorem length_of_scanTagParts {cs rest : List Char} {handle : String} {suffix : Text.Bytes}
    (h : scanTagParts cs = .ok (handle, suffix, rest)) : rest.length ≤ cs.length := by
  unfold scanTagParts at h
  split at h
  next cs =>
    obtain ⟨⟨bytes, r⟩, hu, h⟩ := ok_of_bind h
    have hr := length_of_scanUri hu
    simp only at h
    split at h
    next =>
      rw [List.length_cons] at hr
      split at h
      next => cases h
      next =>
        cases h
        rw [List.length_cons]
        omega
    next => cases h
  next =>
    have hh := length_of_scanHandle cs
    rcases hs : scanHandle cs with ⟨name, closed, r⟩
    rw [hs] at h hh
    obtain ⟨⟨bytes, after⟩, hu, h⟩ := ok_of_bind h
    have hr := length_of_scanUri hu
    simp only at h hh
    repeat' split at h
    all_goals cases h
    all_goals omega

theorem length_of_scanTag {inFlow : Bool} {cs rest : List Char} {t : Token}
    (h : scanTag inFlow cs = .ok (t, rest)) : rest.length ≤ cs.length := by
  obtain ⟨⟨handle, suffix, r⟩, hp, h⟩ := ok_of_bind h
  have hr := length_of_scanTagParts hp
  simp only at h
  split at h
  next => cases h; exact hr
  next => cases h

theorem length_of_scanVersionNumber {cs rest : List Char} {n : Nat}
    (h : scanVersionNumber cs = .ok (n, rest)) : rest.length ≤ cs.length := by
  unfold scanVersionNumber at h
  simp only at h
  split at h
  next => cases h
  next => cases h; exact length_dropWhile_le _ _

theorem length_of_scanVersion {cs rest : List Char} {t : Token}
    (h : scanVersion cs = .ok (t, rest)) : rest.length ≤ cs.length := by
  obtain ⟨⟨major, r⟩, h1, h⟩ := ok_of_bind h
  have hr := length_of_scanVersionNumber h1
  have hb := length_dropWhile_le isBlank cs
  simp only at h
  split at h
  next r' =>
    obtain ⟨⟨minor, r''⟩, h2, h⟩ := ok_of_bind h
    have hr' := length_of_scanVersionNumber h2
    cases h
    rw [List.length_cons] at hr
    simp only
    omega
  next => cases h

theorem length_of_scanTagDirective {cs rest : List Char} {t : Token}
    (h : scanTagDirective cs = .ok (t, rest)) : rest.length ≤ cs.length := by
  have hb := length_dropWhile_le isBlank cs
  unfold scanTagDirective at h
  split at h
  next cs' hcs =>
    have hh := length_of_scanHandle cs'
    rw [hcs, List.length_cons] at hb
    rcases hs : scanHandle cs' with ⟨name, closed, r⟩
    rw [hs] at h hh
    simp only at h hh
    split at h
    · cases h
    split at h
    · cases h
    obtain ⟨⟨bytes, after⟩, hu, h⟩ := ok_of_bind h
    have hr := length_of_scanUri hu
    have hr' := length_dropWhile_le isBlank r
    simp only at h
    split at h
    · cases h
    cases h
    omega
  next => cases h

theorem length_of_endOfDirective {cs rest : List Char} (h : endOfDirective cs = .ok rest) :
    rest.length ≤ cs.length := by
  have hb := length_dropWhile_le isBlank cs
  have hc := length_dropWhile_le (fun c => !isBreak c) (cs.dropWhile isBlank)
  unfold endOfDirective at h
  simp only at h
  repeat' split at h
  all_goals cases h
  all_goals omega

theorem length_of_scanDirective {cs rest : List Char} {t : Token}
    (h : scanDirective cs = .ok (t, rest)) : rest.length ≤ cs.length := by
  have hn := length_dropWhile_le isNameChar cs
  have finish {x : Except Fault (Token × List Char)}
      (hx : ∀ t r, x = .ok (t, r) → r.length ≤ (cs.dropWhile isNameChar).length)
      (h : (do let y ← x; return (y.1, ← endOfDirective y.2)) = .ok (t, rest)) :
      rest.length ≤ cs.length := by
    obtain ⟨⟨t', r⟩, h1, h⟩ := ok_of_bind h
    obtain ⟨r', h2, h⟩ := ok_of_bind h
    cases h
    have hr := hx _ r h1
    have hr' := length_of_endOfDirective h2
    simp only at hr'
    omega
  unfold scanDirective at h
  simp only at h
  split at h
  · cases h
  repeat' split at h
  · exact finish (fun t r => length_of_scanVersion) h
  · exact finish (fun t r => length_of_scanTagDirective) h
  · cases h

/-! ## scalars -/

theorem length_of_scanQuoted {double : Bool} {text cs : List Char} {mode : QuotedMode} {p : Place}
    {r : QuotedResult} (h : scanQuoted double text mode p cs = .ok r) :
    r.rest.length ≤ cs.length := by
  induction cs generalizing text mode p with
  | nil => cases h
  | cons c cs ih =>
    rw [List.length_cons]
    unfold scanQuoted at h
    simp only at h
    repeat' split at h
    -- each branch fails, stops behind the character or goes on there
    all_goals first | cases h <;> exact Nat.le_succ _ | exact Nat.le_succ_of_le (ih h)

theorem PlainContext.length_of_scan {x : PlainContext} {text cs : List Char} {gap : Option Gap}
    {p : Place} {r : PlainResult} (h : x.scan text gap p cs = .ok r) :
    r.rest.length ≤ cs.length := by
  induction cs generalizing text gap p with
  | nil => cases h; exact Nat.le_refl _
  | cons c cs ih =>
    unfold PlainContext.scan at h
    simp only at h
    repeat' split at h
    -- each branch fails, stops at the character or goes on behind it
    all_goals first | cases h <;> exact Nat.le_refl _ | exact Nat.le_succ_of_le (ih h)

/-- a character that does not end a plain scalar at once is taken into it -/
theorem PlainContext.length_of_scan_cons {x : PlainContext} {c : Char} {cs : List Char} {p : Place}
    {r : PlainResult} (hc : x.stopsAt c cs.head? = false)
    (h : x.scan [] none p (c :: cs) = .ok r) : r.rest.length ≤ cs.length := by
  unfold PlainContext.scan at h
  simp only [hc, Option.isSome_none, Bool.false_and, Bool.false_eq_true, if_false] at h
  repeat' split at h
  all_goals first | cases h | exact length_of_scan h

theorem BlockState.length_of_scan {b : BlockHeader} {outer : Int} {s : BlockState} {p : Place}
    {cs : List Char} {r : BlockResult} (h : BlockState.scan b outer s p cs = .ok r) :
    r.rest.length ≤ cs.length := by
  induction cs generalizing s p with
  | nil => cases h; exact Nat.le_refl _
  | cons c cs ih =>
    unfold BlockState.scan at h
    simp only at h
    repeat' split at h
    all_goals first | cases h <;> exact Nat.le_refl _ | exact Nat.le_succ_of_le (ih h)

namespace Scanner

theorem length_of_headerEnd {p q : Place} {cs rest : List Char}
    (h : headerEnd p cs = .ok (q, rest)) : rest.length ≤ cs.length := by
  have hb := length_dropWhile_le isBlank cs
  have hc := length_dropWhile_le (fun c => !isBreak c) (cs.dropWhile isBlank)
  unfold headerEnd at h
  simp only at h
  split at h
  next => cases h; exact Nat.zero_le _
  next c r hr =>
    have hlen : r.length + 1 ≤ cs.length := by
      rw [← List.length_cons (a := c), ← hr]
      split <;> omega
    split at h
    next =>
      cases h
      rw [List.length_drop]
      omega
    next =>
      split at h <;> cases h
      omega

/-! ## the scanner -/

variable {s t u : Scanner}

theorem rest_of_dropPending (h : s.dropPending = .ok t) : t.rest = s.rest := by
  unfold dropPending at h
  split at h <;> cases h
  rfl

theorem rest_of_savePending (h : s.savePending = .ok t) : t.rest = s.rest := by
  unfold savePending at h
  split at h
  next => cases h; rfl
  next =>
    obtain ⟨v, hv, h⟩ := ok_of_bind h
    cases h
    exact rest_of_dropPending (t := v) hv

theorem rest_roll (s : Scanner) (column position : Nat) (opening : Token) :
    (s.roll column position opening).rest = s.rest := by
  unfold roll
  split <;> rfl

theorem rest_of_rollHere {opening : Token} (h : s.rollHere opening = .ok t) : t.rest = s.rest := by
  unfold rollHere at h
  repeat' split at h
  · cases h; rfl
  · cases h
  · cases h; exact rest_roll ..

theorem rest_unroll (s : Scanner) (column : Int) : (s.unroll column).rest = s.rest := by
  unfold unroll
  split <;> rfl

theorem inFlow_of_savePending (h : s.savePending = .ok t) : t.inFlow = s.inFlow := by
  unfold savePending at h
  split at h
  next => cases h; rfl
  next =>
    obtain ⟨u, hu, h⟩ := ok_of_bind h
    unfold dropPending at hu
    split at hu <;> cases hu
    cases h
    rfl

/-- behind a token, if there is one, at most `cs` is left -/
def Takes (cs : List Char) (x : Except Fault Scanner) : Prop :=
  ∀ u, x = .ok u → u.rest.length ≤ cs.length

section
variable {c : Char} {cs : List Char} (hs : s.rest = c :: cs)

theorem Takes.error (e : Fault) : Takes cs (.error e) := fun _ h => by cases h

theorem Takes.ite {p : Prop} [Decidable p] {x y : Except Fault Scanner} (hx : p → Takes cs x)
    (hy : ¬p → Takes cs y) : Takes cs (if p then x else y) := by
  split
  · exact hx ‹_›
  · exact hy ‹_›

theorem Takes.bind {α : Type} {x : Except Fault α} {f : α → Except Fault Scanner}
    (h : ∀ a, x = .ok a → Takes cs (f a)) : Takes cs (x >>= f) := fun u hu => by
  obtain ⟨a, ha, hu⟩ := ok_of_bind hu
  exact h a ha u hu

include hs

theorem takes_indicator (tok : Token) : Takes cs (.ok (s.indicator tok)) := fun u hu => by
  cases hu
  simp [indicator, emit, skip, hs]

theorem takes_documentMark (tok : Token) : Takes cs (s.documentMark tok) :=
  .bind fun t ht u hu => by
    cases hu
    have hr : t.rest = c :: cs := (rest_of_dropPending ht).trans ((rest_unroll ..).trans hs)
    simp only [skip, emit, hr, List.length_drop, List.length_cons]
    omega

omit hs in
theorem takes_directive : Takes cs (s.directive cs) :=
  .bind fun _ _ => .bind fun _ hr u hu => by
    cases hu
    exact length_of_scanDirective hr

theorem takes_openFlow (tok : Token) : Takes cs (s.openFlow tok) :=
  .bind fun _ ht => takes_indicator (by exact (rest_of_savePending ht).trans hs) tok

theorem takes_closeFlow (tok : Token) : Takes cs (s.closeFlow tok) :=
  .bind fun t ht => by
    have hr := (rest_of_dropPending ht).trans hs
    dsimp only
    split <;> exact takes_indicator (by exact hr) tok

theorem takes_flowEntry : Takes cs s.flowEntry :=
  .bind fun _ ht => takes_indicator (by exact (rest_of_dropPending ht).trans hs) .flowEntry

theorem takes_blockEntry : Takes cs s.blockEntry :=
  .bind fun _ ht => .bind fun _ hu =>
    takes_indicator (by exact (rest_of_dropPending hu).trans ((rest_of_rollHere ht).trans hs))
      .blockEntry

theorem takes_explicitKey : Takes cs s.explicitKey :=
  .bind fun _ ht => .bind fun _ hu =>
    takes_indicator (by exact (rest_of_dropPending hu).trans ((rest_of_rollHere ht).trans hs))
      .key

theorem takes_value : Takes cs s.value := by
  unfold value
  split
  next => exact takes_indicator (by exact (rest_roll ..).trans hs) .value
  next => exact .bind fun _ ht => takes_indicator (by exact (rest_of_rollHere ht).trans hs) .value

omit hs in
theorem takes_named (mk : String → Token) : Takes cs (s.named mk cs) :=
  .bind fun _ _ => .bind fun _ hr u hu => by
    cases hu
    exact length_of_scanName hr

omit hs in
theorem takes_tag : Takes cs (s.tag cs) :=
  .bind fun _ _ => .bind fun _ hr u hu => by
    cases hu
    exact length_of_scanTag hr

omit hs in
theorem takes_blockScalar (folded : Bool) : Takes cs (s.blockScalar folded cs) :=
  .bind fun _ _ => .bind fun m _ => .bind fun e he => .bind fun r hr u hu => by
    cases hu
    have h1 := length_of_headerEnd he
    have h2 := BlockState.length_of_scan hr
    rw [List.length_drop] at h1
    show r.rest.length ≤ cs.length
    omega

omit hs in
theorem takes_quotedScalar (double : Bool) : Takes cs (s.quotedScalar double cs) :=
  .bind fun _ _ => .bind fun _ hr u hu => by
    cases hu
    exact length_of_scanQuoted hr

theorem takes_plainScalar
    (hc : PlainContext.stopsAt ⟨s.inFlow, s.indent⟩ c cs.head? = false) :
    Takes cs s.plainScalar :=
  .bind fun t ht => .bind fun r hr u hu => by
    cases hu
    rw [(rest_of_savePending ht).trans hs, inFlow_of_savePending ht] at hr
    exact PlainContext.length_of_scan_cons (x := ⟨s.inFlow, t.indent⟩) hc hr

/-- every token takes at least the character that it begins with -/
theorem fetch_length : Takes cs (s.fetch c cs) := by
  unfold fetch
  dsimp only
  refine .ite (fun _ => takes_directive) fun _ => ?_
  refine .ite (fun _ => takes_documentMark hs _) fun _ => ?_
  refine .ite (fun _ => takes_openFlow hs _) fun h1 => ?_
  refine .ite (fun _ => takes_openFlow hs _) fun h2 => ?_
  refine .ite (fun _ => takes_closeFlow hs _) fun h3 => ?_
  refine .ite (fun _ => takes_closeFlow hs _) fun h4 => ?_
  refine .ite (fun _ => takes_flowEntry hs) fun h5 => ?_
  refine .ite (fun _ => takes_blockEntry hs) fun _ => ?_
  refine .ite (fun _ => takes_explicitKey hs) fun _ => ?_
  refine .ite (fun _ => takes_value hs) fun hcolon => ?_
  refine .ite (fun _ => takes_named _) fun _ => ?_
  refine .ite (fun _ => takes_named _) fun _ => ?_
  refine .ite (fun _ => takes_tag) fun _ => ?_
  refine .ite (fun _ => takes_blockScalar _) fun _ => ?_
  refine .ite (fun _ => takes_blockScalar _) fun _ => ?_
  refine .ite (fun _ => takes_quotedScalar _) fun _ => ?_
  refine .ite (fun _ => takes_quotedScalar _) fun _ => ?_
  refine .ite (fun _ => .error _) fun _ => takes_plainScalar hs ?_
  have hflow : isFlowIndicator c = false := by simp [isFlowIndicator, h1, h2, h3, h4, h5]
  rw [PlainContext.stopsAt, hflow, Bool.and_false, Bool.or_false]
  cases hc : c == ':' with
  | false => rfl
  | true =>
    have hend : s.inFlow = false ∧ endsWord cs.head? = false := by
      simpa [beq_iff_eq.1 hc] using hcolon
    exact hend.2

end

/-! ## the next token -/

/-- at the next token, the block collections that it ends closed -/
def arrive (s : Scanner) : Except Fault Scanner :=
  s.skipBlanks.dropStale.map fun t => t.unroll t.column

/-- the token ahead and all that follow -/
def proceed (s : Scanner) : Except Fault (List Token) :=
  match s.rest with
  | [] => s.finish
  | c :: cs => (s.fetch c cs).bind scan

theorem length_blanksFrom (inFlow comment keyAllowed : Bool) (p : Place) (cs : List Char) :
    (blanksFrom inFlow comment keyAllowed p cs).2.2.length ≤ cs.length := by
  induction cs generalizing comment keyAllowed p with
  | nil => exact Nat.le_refl _
  | cons c cs ih =>
    unfold blanksFrom
    repeat' split
    all_goals first | exact Nat.le_succ_of_le (ih ..) | exact Nat.le_refl _

theorem length_of_arrive (h : s.arrive = .ok t) : t.rest.length ≤ s.rest.length := by
  unfold arrive at h
  cases hd : s.skipBlanks.dropStale with
  | error e => rw [hd] at h; cases h
  | ok u =>
    rw [hd] at h
    cases h
    obtain ⟨_, _, hd⟩ := ok_of_bind hd
    obtain ⟨_, _, hd⟩ := ok_of_bind hd
    cases hd
    rw [rest_unroll]
    exact length_blanksFrom ..

/-- the scanner moves to the next token, takes it and goes on -/
theorem scan_eq (s : Scanner) : s.scan = s.arrive.bind proceed := by
  rw [scan]
  cases hd : s.skipBlanks.dropStale with
  | error e => rw [arrive, hd]; rfl
  | ok t =>
    have ha : s.arrive = .ok (t.unroll t.column) := by rw [arrive, hd]; rfl
    rw [ha]
    show (match (t.unroll t.column).rest with
      | [] => _
      | c :: cs => _) = (t.unroll t.column).proceed
    unfold proceed
    split
    next => rfl
    next c cs hr =>
      cases hf : (t.unroll t.column).fetch c cs with
      | error e => rfl
      | ok u =>
        have h1 := fetch_length hr u hf
        have h2 := length_of_arrive ha
        rw [hr, List.length_cons] at h2
        exact if_pos (by omega)

end Scanner

end ConfigReconcile.Yaml
