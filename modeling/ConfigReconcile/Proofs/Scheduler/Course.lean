import ConfigReconcile.Proofs.Scheduler.NoLoss

/-!
# What a move of a session can do

`Session.Course` lists the ways of a move, one constructor each, by what becomes of the worker, the
shutdown and the record.  `Sound.course` says that in a sound session there are no others.  Most
moves are `Calm`: they are calls, or go on around the scheduler.

Later proofs split by these and do not open the moves.  What a move leaves alone around the scheduler
is in `premises_play`.
-/

namespace ConfigReconcile

namespace Scheduler

variable {s s' : Scheduler} {c : Caller} {e : Surroundings} {a : Act}

/-- the scheduler after calls, some of which have got their signals into the queue -/
def receive (s : Scheduler) (n : Nat) (granted waiting : List Caller) : Scheduler :=
  { s with
    queue := s.queue + n
    granted
    waiting
    counters := { s.counters with accepted := s.counters.accepted + n } }

theorem Replies.receive {r : Reply} (h : Replies s c (r, s')) :
    ∃ n granted waiting, s' = s.receive n granted waiting := by
  cases h with
  | refused _ => exact ⟨0, s.granted, s.waiting, rfl⟩
  | waiting _ _ => exact ⟨0, s.granted, _, rfl⟩
  | accepted _ _ => exact ⟨1, s.granted, s.waiting, rfl⟩

theorem receive_enter (s : Scheduler) :
    ∃ n granted waiting, s.enter = s.receive n granted waiting := by
  unfold enter
  split
  · exact ⟨0, s.granted, s.waiting, rfl⟩
  · next rest _ => exact ⟨1, rest, s.waiting, rfl⟩

theorem Replies.eq_of_closed {r : Reply} (h : Replies s c (r, s')) (hc : s.closed = true) :
    r = .refused ∧ s' = s := by
  cases h with
  | refused _ => exact ⟨rfl, rfl⟩
  | waiting hn _ => cases hn.symm.trans hc
  | accepted hn _ => cases hn.symm.trans hc

theorem isExporting_congr (h : s'.worker = s.worker) : s'.isExporting = s.isExporting := by
  rw [isExporting, isExporting, h]

end Scheduler

/-- the shutdown is in its cycle -/
def Closing.isFlushing : Closing → Bool
  | .flushing _ _ => true
  | _ => false

namespace Session

open Event Scheduler

variable {x y : Session} {m : Move} {es : List Event}

/-! ## what a move can do -/

/-- nothing has happened but calls and what is around the scheduler; once the queue is closed, all
calls are refused -/
structure Calm (x y : Session) (es : List Event) : Prop where
  closing : y.closing = x.closing
  scheduler : ∃ n granted waiting, y.host.scheduler = x.host.scheduler.receive n granted waiting
  record : y.record = x.record ++ es
  answers : ∀ e ∈ es, ∃ c ok, e = .answered c ok
  drained : x.closing.IsDrained →
    y.host.scheduler = x.host.scheduler ∧ ∀ e ∈ es, ∃ c, e = .answered c false

theorem Calm.around (hc : y.closing = x.closing) (hs : y.host.scheduler = x.host.scheduler)
    (hr : y.record = x.record) : x.Calm y [] where
  closing := hc
  scheduler := ⟨0, x.host.scheduler.granted, x.host.scheduler.waiting, hs⟩
  record := by rw [hr, List.append_nil]
  answers _ he := absurd he List.not_mem_nil
  drained _ := ⟨hs, fun _ he => absurd he List.not_mem_nil⟩

theorem calm_self (x : Session) : x.Calm x [] := .around rfl rfl rfl

theorem Calm.worker (h : x.Calm y es) :
    y.host.scheduler.worker = x.host.scheduler.worker := by
  obtain ⟨n, granted, waiting, hs⟩ := h.scheduler
  rw [hs]
  rfl

theorem Calm.status (h : x.Calm y es) :
    y.host.scheduler.status = x.host.scheduler.status := by
  obtain ⟨n, granted, waiting, hs⟩ := h.scheduler
  rw [hs]
  rfl

theorem Calm.quiet (h : x.Calm y es) : ∀ e ∈ es, e.isQuiet = true ∧ e ≠ .returned := by
  intro e he
  obtain ⟨c, ok, rfl⟩ := h.answers e he
  exact ⟨rfl, by simp⟩

/-- the ways of a move, by what becomes of the worker, the shutdown and the record -/
inductive Course (x : Session) (m : Move) (y : Session) : Prop where
  | calm (es : List Event) (h : x.Calm y es)
  | start (hc : x.closing = .uncalled) (hw : x.host.scheduler.worker = .absent)
      (closing : y.closing = x.closing)
      (scheduler : y.host.scheduler = { x.host.scheduler with worker := .looking })
      (record : y.record = x.record)
  | act (a : Act) (hd : ¬x.closing.IsDrained)
      (does : Does x.host.premises.surroundings x.host.scheduler a y.host.scheduler)
      (closing : y.closing = x.closing) (record : y.record = x.record ++ eventsOf a)
  | endCycle (ok : Bool) (hd : ¬x.closing.IsDrained) (hx : x.host.scheduler.isExporting = true)
      (closing : y.closing = x.closing)
      (scheduler : y.host.scheduler = x.host.scheduler.endCycle ok)
      (record : y.record = x.record ++ [.ended ok])
  | shutdown (hm : m = .shutdown) (hc : x.closing = .uncalled) (closing : y.closing = .stopping)
      (scheduler : y.host.scheduler = x.host.scheduler.cancel) (record : y.record = x.record)
  | flush (hc : x.closing = .stopping) (hr : x.host.scheduler.isAtRest = true) (pending due : Nat)
      (closing : y.closing = .flushing pending due)
      (scheduler : y.host.scheduler = { x.host.scheduler.close with status := .exporting })
      (record : y.record =
        x.record ++ x.host.scheduler.callers.map (.answered · false) ++ [.began])
  | release (hc : x.closing = .stopping) (hr : x.host.scheduler.isAtRest = true)
      (r : ShutdownReport) (closing : y.closing = .over r)
      (scheduler : y.host.scheduler = { x.host.scheduler.close with status := .stopped })
      (record : y.record =
        x.record ++ x.host.scheduler.callers.map (.answered · false) ++ [.returned])
  | endFlush (ok : Bool) (pending due : Nat) (hc : x.closing = .flushing pending due)
      (hr : x.host.scheduler.isAtRest = true) (r : ShutdownReport) (closing : y.closing = .over r)
      (scheduler : y.host.scheduler = { x.host.scheduler.countCycle ok with status := .stopped })
      (record : y.record = x.record ++ [.ended ok, .returned])

theorem Sound.calm_call (h : x.Sound) (c : Caller) :
    x.Calm (x.call c) (answer c (x.host.scheduler.signal c).1) := by
  have hr : Replies x.host.scheduler c ((x.host.scheduler.signal c).1, (x.call c).host.scheduler) :=
    replies_signal h.enabled c
  refine ⟨rfl, hr.receive, rfl, ?_, ?_⟩
  · intro e he
    obtain ⟨ok, rfl, -⟩ := mem_answer he
    exact ⟨c, ok, rfl⟩
  · intro hd
    obtain ⟨hrefused, hs⟩ := hr.eq_of_closed (h.drained hd).closed
    refine ⟨hs, ?_⟩
    intro e he
    rw [hrefused] at he
    exact ⟨c, List.mem_singleton.1 he⟩

theorem Sound.course_save (h : x.Sound) (k : SaveKind) : x.Course (.save k) (x.save k) := by
  unfold Session.save
  split
  · exact .calm _ (h.calm_call .listener)
  · next hk =>
    have hs : (x.host.save k).scheduler = x.host.scheduler := by rw [Host.save, if_neg hk]
    refine .calm [.answered .listener false] ⟨rfl, ?_, rfl, ?_, fun _ => ⟨hs, ?_⟩⟩
    · exact ⟨0, x.host.scheduler.granted, x.host.scheduler.waiting, hs⟩
    · exact fun e he => ⟨_, _, List.mem_singleton.1 he⟩
    · exact fun e he => ⟨_, List.mem_singleton.1 he⟩

theorem course_start (x : Session) : x.Course .start x.start := by
  unfold Session.start
  split
  · next s hc hs =>
    obtain ⟨-, hw, rfl⟩ := start_eq_ok hs
    exact .start hc hw rfl rfl rfl
  · exact .calm [] (calm_self x)

theorem Sound.course_act (h : x.Sound) : x.Course .act x.act := by
  unfold Session.act
  split
  · exact .calm [] (calm_self x)
  · next a s ha =>
    have hdo := does_of_act? ha
    refine .act a ?_ hdo rfl rfl
    intro hd
    have hrest := (h.drained hd).atRest
    rw [hdo.isActive.not_isAtRest] at hrest
    cases hrest

theorem Sound.course_endCycle (h : x.Sound) : x.Course .endCycle x.endCycle := by
  unfold Session.endCycle
  split
  · next hdue =>
    have hx : x.host.scheduler.isExporting = true := (Bool.and_eq_true_iff.1 hdue).1
    refine .endCycle _ ?_ hx rfl rfl rfl
    intro hd
    rw [isExporting_of_isAtRest (h.drained hd).atRest] at hx
    cases hx
  · exact .calm [] (calm_self x)

theorem Sound.course_enter (h : x.Sound) : x.Course .enter x.enter := by
  unfold Session.enter
  split
  · exact .calm [] (calm_self x)
  · next c rest hg =>
    refine .calm [.answered c true] ⟨rfl, receive_enter _, rfl, ?_, ?_⟩
    · exact fun e he => ⟨_, _, List.mem_singleton.1 he⟩
    · intro hd
      cases hg.symm.trans (h.drained hd).granted

theorem course_shutdown (x : Session) : x.Course .shutdown x.shutdown := by
  unfold Session.shutdown
  split
  · next hc => exact .shutdown rfl hc rfl rfl rfl
  · exact .calm [] (calm_self x)

theorem course_drain (x : Session) : x.Course .drain x.drain := by
  cases hc : x.closing with
  | stopping =>
    cases hr : x.host.scheduler.isAtRest with
    | true =>
      cases hf : mustFlush x.host.scheduler with
      | true =>
        rw [Session.drain_of_pending hc hr hf]
        exact .flush hc hr _ _ rfl rfl rfl
      | false =>
        rw [Session.drain_of_empty hc hr hf]
        exact .release hc hr _ rfl rfl rfl
    | false =>
      rw [Session.drain, hc, hr]
      exact .calm [] (calm_self x)
  | _ =>
    rw [Session.drain, hc]
    exact .calm [] (calm_self x)

theorem Sound.course_endFlush (h : x.Sound) : x.Course .endFlush x.endFlush := by
  unfold Session.endFlush
  split
  · next pending due hc =>
    split
    · exact .endFlush _ pending due hc (h.drained (hc ▸ trivial)).atRest _ rfl rfl rfl
    · exact .calm [] (calm_self x)
  · exact .calm [] (calm_self x)

theorem Sound.course (h : x.Sound) (m : Move) : x.Course m (x.play m) := by
  cases m with
  | call c => exact .calm _ (h.calm_call c)
  | save k => exact h.course_save k
  | start => exact course_start x
  | act => exact h.course_act
  | endCycle => exact h.course_endCycle
  | enter => exact h.course_enter
  | pass ms => exact .calm [] (.around rfl rfl rfl)
  | become l => exact .calm [] (.around rfl rfl rfl)
  | change p => exact .calm [] (.around rfl rfl rfl)
  | shutdown => exact course_shutdown x
  | drain => exact course_drain x
  | endFlush => exact h.course_endFlush

/-- the worker is moved by its own acts, by the start and by the end of a cycle -/
theorem Course.worker (h : x.Course m y) :
    y.host.scheduler.worker = x.host.scheduler.worker ∨ y.host.scheduler.worker = .looking ∨
      ∃ a, ¬x.closing.IsDrained ∧ y.closing = x.closing ∧
        Does x.host.premises.surroundings x.host.scheduler a y.host.scheduler := by
  cases h with
  | calm es h => exact .inl h.worker
  | start hc hw closing scheduler record =>
    right; left
    rw [scheduler]
  | act a hd does closing record => exact .inr (.inr ⟨a, hd, closing, does⟩)
  | endCycle ok hd hx closing scheduler record =>
    right; left
    rw [scheduler]
    rfl
  | shutdown hm hc closing scheduler record =>
    left
    rw [scheduler]
    rfl
  | flush hc hr pending due closing scheduler record =>
    left
    rw [scheduler]
    rfl
  | release hc hr r closing scheduler record =>
    left
    rw [scheduler]
    rfl
  | endFlush ok pending due hc hr r closing scheduler record =>
    left
    rw [scheduler]
    rfl

/-- only a shutdown begins one -/
theorem Course.uncalled (h : x.Course m y) (hm : m ≠ .shutdown) (hc : x.closing = .uncalled) :
    y.closing = .uncalled := by
  cases h with
  | calm es h => exact h.closing.trans hc
  | start _ _ closing _ _ => exact closing.trans hc
  | act _ _ _ closing _ => exact closing.trans hc
  | endCycle _ _ _ closing _ _ => exact closing.trans hc
  | shutdown h _ _ _ _ => exact absurd h hm
  | flush hn _ _ _ _ _ _ => cases hc.symm.trans hn
  | release hn _ _ _ _ _ => cases hc.symm.trans hn
  | endFlush _ _ _ hn _ _ _ _ _ => cases hc.symm.trans hn

/-- once the queue is closed, nothing happens but that the cycle of the shutdown ends -/
theorem Course.drained (h : x.Course m y) (hd : x.closing.IsDrained) :
    (∃ es, x.Calm y es) ∨ ∃ pending due r ok, x.closing = .flushing pending due ∧
      y.closing = .over r ∧ y.record = x.record ++ [.ended ok, .returned] := by
  cases h with
  | calm es h => exact .inl ⟨es, h⟩
  | act _ hn _ _ _ => exact absurd hd hn
  | endCycle _ hn _ _ _ _ => exact absurd hd hn
  | endFlush ok pending due hc _ r closing _ record =>
    exact .inr ⟨pending, due, r, ok, hc, closing, record⟩
  | start hn _ _ _ _ =>
    rw [hn] at hd
    cases hd
  | shutdown _ hn _ _ _ =>
    rw [hn] at hd
    cases hd
  | flush hn _ _ _ _ _ _ =>
    rw [hn] at hd
    cases hd
  | release hn _ _ _ _ _ =>
    rw [hn] at hd
    cases hd

theorem Course.debounce (h : x.Course m y) :
    y.host.scheduler.debounce = x.host.scheduler.debounce := by
  cases h with
  | calm es h =>
    obtain ⟨n, granted, waiting, hs⟩ := h.scheduler
    rw [hs]
    rfl
  | act a hd does closing record =>
    generalize y.host.scheduler = s at does
    cases does <;> rfl
  | start hc hw closing scheduler record => rw [scheduler]
  | endCycle ok hd hx closing scheduler record =>
    rw [scheduler]
    rfl
  | shutdown hm hc closing scheduler record =>
    rw [scheduler]
    rfl
  | flush hc hr pending due closing scheduler record =>
    rw [scheduler]
    rfl
  | release hc hr r closing scheduler record =>
    rw [scheduler]
    rfl
  | endFlush ok pending due hc hr r closing scheduler record =>
    rw [scheduler]
    rfl

/-! ## around the scheduler -/

/-- what calls and cycles leave alone is changed from outside only -/
theorem premises_play {γ : Type} {f : Premises → γ} (hnote : ∀ p b c, f (p.note b c) = f p)
    (hfinish : ∀ p : Premises, f p.finishCycle.2 = f p)
    (hcall : ∀ p : Premises, f { p with exporter := p.exporter.call } = f p)
    (hpass : ∀ ms, m ≠ .pass ms) (hbecome : ∀ l, m ≠ .become l) (hchange : ∀ p, m ≠ .change p) :
    f (x.play m).host.premises = f x.host.premises := by
  have hall (p : Premises) (b : Bool) (cs : List Caller) : f (p.noteAll b cs) = f p := by
    induction cs generalizing p with
    | nil => rfl
    | cons c cs ih => exact (ih (p.note b c)).trans (hnote p b c)
  have hsend (c : Caller) : f (x.call c).host.premises = f x.host.premises := by
    show f (x.host.call c).premises = _
    unfold Host.call
    dsimp only
    split
    · exact hnote _ _ _
    · exact hnote _ _ _
    · rfl
  cases m with
  | call c => exact hsend c
  | save k =>
    show f (x.save k).host.premises = _
    unfold Session.save
    split
    · exact hsend .listener
    · next hk =>
      show f (x.host.save k).premises = _
      rw [Host.save, if_neg hk]
      exact hnote x.host.premises false .listener
  | start =>
    show f x.start.host.premises = _
    unfold Session.start
    split <;> rfl
  | act =>
    show f x.act.host.premises = _
    unfold Session.act
    split
    · rfl
    · next a s _ =>
      cases a with
      | begin => exact hcall _
      | _ => rfl
  | endCycle =>
    show f x.endCycle.host.premises = _
    unfold Session.endCycle
    split
    · exact hfinish _
    · rfl
  | enter =>
    show f x.enter.host.premises = _
    unfold Session.enter
    split
    · rfl
    · exact hnote _ _ _
  | pass ms => exact absurd rfl (hpass ms)
  | become l => exact absurd rfl (hbecome l)
  | change p => exact absurd rfl (hchange p)
  | shutdown =>
    show f x.shutdown.host.premises = _
    unfold Session.shutdown
    split <;> rfl
  | drain =>
    show f x.drain.host.premises = _
    unfold Session.drain
    split
    · split
      · dsimp only
        split
        · exact (hcall _).trans (hall _ _ _)
        · exact hall _ _ _
      · rfl
    · rfl
  | endFlush =>
    show f x.endFlush.host.premises = _
    unfold Session.endFlush
    split
    · split
      · exact hfinish _
      · rfl
    · rfl

end Session

end ConfigReconcile
