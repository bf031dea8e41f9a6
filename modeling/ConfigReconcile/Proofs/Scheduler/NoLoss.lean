import ConfigReconcile.Proofs.Scheduler.Acts
import ConfigReconcile.Proofs.Scheduler.Session

/-!
# No accepted signal is lost

A signal that the worker takes without acting on it is not kept anywhere: it is only counted.  What
keeps the work is the queue, since a signal is taken that way only while another one stays behind.
So at any moment, for every accepted signal (`Owed`),

* a whole cycle went by after it (`HasCycle`), or
* a cycle has begun after it and is in flight (`HasOpenCycle`), or
* the queue is not empty.

`Sound` adds what a shutdown needs to end in the first case: once the queue is closed it stays empty
and the worker stays at rest.  `Sound.play` says that every move keeps this, and
`cycle_after_accepted` that after a run in which the shutdown returns only the first case is left.
-/

namespace ConfigReconcile

/-! ## records of events -/

namespace Event

/-- not the begin or the end of a cycle -/
def isQuiet : Event → Bool
  | .began => false
  | .ended _ => false
  | _ => true

/-- some cycle begins and ends within the events -/
def HasCycle (es : List Event) : Prop :=
  ∃ gap during rest ok, es = gap ++ .began :: during ++ .ended ok :: rest ∧ ∀ e ∈ during, e.isQuiet

/-- some cycle begins within the events, and nothing is known of its end -/
def HasOpenCycle (es : List Event) : Prop :=
  ∃ gap during, es = gap ++ .began :: during ∧ ∀ e ∈ during, e.isQuiet

theorem HasCycle.append {es : List Event} (h : HasCycle es) (fs : List Event) :
    HasCycle (es ++ fs) := by
  obtain ⟨gap, during, rest, ok, rfl, hq⟩ := h
  exact ⟨gap, during, rest ++ fs, ok, by simp, hq⟩

theorem HasOpenCycle.append {es fs : List Event} (h : HasOpenCycle es)
    (hf : ∀ e ∈ fs, e.isQuiet) : HasOpenCycle (es ++ fs) := by
  obtain ⟨gap, during, rfl, hq⟩ := h
  refine ⟨gap, during ++ fs, by simp, ?_⟩
  intro e he
  rcases List.mem_append.1 he with h1 | h1
  · exact hq e h1
  · exact hf e h1

theorem HasOpenCycle.ended {es : List Event} (h : HasOpenCycle es) (ok : Bool)
    (fs : List Event) : HasCycle (es ++ .ended ok :: fs) := by
  obtain ⟨gap, during, rfl, hq⟩ := h
  exact ⟨gap, during, fs, ok, by simp, hq⟩

theorem hasOpenCycle_began (es : List Event) : HasOpenCycle (es ++ [.began]) :=
  ⟨es, [], rfl, fun _ he => absurd he (List.not_mem_nil)⟩

/-- the return of the shutdown is not the end of a cycle -/
theorem HasCycle.of_returned {es : List Event} (h : HasCycle (es ++ [.returned])) :
    HasCycle es := by
  obtain ⟨gap, during, rest, ok, he, hq⟩ := h
  rcases List.eq_nil_or_concat rest with rfl | ⟨rest', e, rfl⟩
  · have := List.append_inj_right' he rfl
    cases this
  · refine ⟨gap, during, rest', ok, ?_, hq⟩
    have hsplit : es ++ [.returned] = (gap ++ .began :: during ++ .ended ok :: rest') ++ [e] := by
      rw [he]
      simp
    exact List.append_inj_left' hsplit rfl

/-! ## what is owed to accepted signals -/

/-- where a signal stands that was accepted before the events -/
def Owed (busy : Prop) (queue : Nat) (es : List Event) : Prop :=
  HasCycle es ∨ busy ∧ HasOpenCycle es ∨ 0 < queue

def AllOwed (busy : Prop) (queue : Nat) (record : List Event) : Prop :=
  ∀ before c after, record = before ++ .answered c true :: after → Owed busy queue after

section
variable {busy busy' : Prop} {queue queue' : Nat} {record es : List Event}

/-- more events are checked against the old signals and against those that are new -/
theorem AllOwed.append (h : AllOwed busy queue record)
    (hold : ∀ after, Owed busy queue after → Owed busy' queue' (after ++ es))
    (hnew : ∀ c, .answered c true ∈ es → 0 < queue') : AllOwed busy' queue' (record ++ es) := by
  intro before c after heq
  rcases List.append_eq_append_iff.1 heq with ⟨mid, -, hes⟩ | ⟨mid, hrecord, hmid⟩
  · apply Or.inr
    apply Or.inr
    apply hnew c
    rw [hes]
    exact List.mem_append_right _ (List.mem_cons_self ..)
  · cases mid with
    | nil =>
      apply Or.inr
      apply Or.inr
      apply hnew c
      rw [List.nil_append] at hmid
      rw [← hmid]
      exact List.mem_cons_self ..
    | cons e mid =>
      rw [List.cons_append, List.cons.injEq] at hmid
      obtain ⟨rfl, rfl⟩ := hmid
      exact hold mid (h before c mid hrecord)

theorem AllOwed.mono (h : AllOwed busy queue record) (hbusy : busy → busy')
    (hqueue : 0 < queue → 0 < queue') : AllOwed busy' queue' record := by
  intro before c after heq
  rcases h before c after heq with hc | ⟨hb, ho⟩ | hq
  · exact .inl hc
  · exact .inr (.inl ⟨hbusy hb, ho⟩)
  · exact .inr (.inr (hqueue hq))

/-- events that are no cycles, while a cycle in flight and a queue that is not empty stay so -/
theorem AllOwed.quiet (h : AllOwed busy queue record) (hes : ∀ e ∈ es, e.isQuiet)
    (hbusy : busy → busy') (hqueue : 0 < queue → 0 < queue')
    (hnew : ∀ c, .answered c true ∈ es → 0 < queue') : AllOwed busy' queue' (record ++ es) := by
  refine h.append ?_ hnew
  rintro after (hc | ⟨hb, ho⟩ | hq)
  · exact .inl (hc.append es)
  · exact .inr (.inl ⟨hbusy hb, ho.append hes⟩)
  · exact .inr (.inr (hqueue hq))

/-- a cycle that begins is one for all signals so far -/
theorem AllOwed.began (h : AllOwed busy queue record) (hes : ∀ c, .answered c true ∉ es)
    (hbusy : busy') : AllOwed busy' queue' (record ++ (es ++ [.began])) := by
  refine h.append ?_ ?_
  · intro after _
    rw [← List.append_assoc]
    exact .inr (.inl ⟨hbusy, hasOpenCycle_began _⟩)
  · intro c hc
    rcases List.mem_append.1 hc with h1 | h1
    · exact absurd h1 (hes c)
    · cases List.mem_singleton.1 h1

/-- a cycle that ends has been one for all signals before its begin -/
theorem AllOwed.ended (h : AllOwed busy queue record) (ok : Bool)
    (hes : ∀ c, .answered c true ∉ es) : AllOwed busy' queue (record ++ .ended ok :: es) := by
  refine h.append ?_ ?_
  · rintro after (hc | ⟨-, ho⟩ | hq)
    · exact .inl (hc.append _)
    · exact .inl (ho.ended ok es)
    · exact .inr (.inr hq)
  · intro c hc
    rcases List.mem_cons.1 hc with h1 | h1
    · cases h1
    · exact absurd h1 (hes c)

end

end Event

/-! ## schedulers -/

namespace Scheduler

variable {s s' : Scheduler} {c : Caller} {e : Surroundings} {a : Act}

/-- a change of a scheduler that ends no cycle and does not empty the queue -/
structure Keeps (s s' : Scheduler) : Prop where
  enabled : s'.enabled = s.enabled
  exporting : s.isExporting = true → s'.isExporting = true
  queue : 0 < s.queue → 0 < s'.queue

theorem Replies.keeps {r : Reply} (h : Replies s c (r, s')) : s.Keeps s' := by
  cases h with
  | refused _ => exact ⟨rfl, id, id⟩
  | waiting _ _ => exact ⟨rfl, id, id⟩
  | accepted _ _ => exact ⟨rfl, id, fun _ => Nat.succ_pos _⟩

theorem Replies.isDrained {r : Reply} (h : Replies s c (r, s')) (hd : s.IsDrained) :
    s'.IsDrained := by
  cases h with
  | refused _ => exact hd
  | waiting hc _ => cases hc.symm.trans hd.closed
  | accepted hc _ => cases hc.symm.trans hd.closed

theorem Replies.queue_pos (h : Replies s c (.accepted, s')) : 0 < s'.queue := by
  cases h
  exact Nat.succ_pos _

/-- only the begin of a cycle empties the queue -/
theorem Does.keeps (h : Does e s a s') (ha : a ≠ .begin) : s.Keeps s' := by
  have hx : s.isExporting = true → s'.isExporting = true := by
    intro hx
    rw [h.isActive.not_isExporting] at hx
    cases hx
  cases h with
  | stop _ _ => exact ⟨rfl, hx, id⟩
  | listen _ _ _ => exact ⟨rfl, hx, id⟩
  | gather _ _ hq => exact ⟨rfl, hx, fun _ => Nat.sub_pos_of_lt hq⟩
  | begin _ _ _ => exact absurd rfl ha
  | wake _ _ _ _ => exact ⟨rfl, hx, id⟩

end Scheduler

/-! ## sound sessions -/

/-- the queue has been closed -/
def Closing.IsDrained : Closing → Prop
  | .uncalled => False
  | .stopping => False
  | .flushing _ _ => True
  | .over _ => True

namespace Session

open Event Scheduler

variable {x y : Session}

/-- a cycle is in flight -/
def IsBusy (x : Session) : Prop :=
  x.host.scheduler.isExporting = true ∨ ∃ pending due, x.closing = .flushing pending due

structure Sound (x : Session) : Prop where
  enabled : x.host.scheduler.enabled = true
  owed : AllOwed x.IsBusy x.host.scheduler.queue x.record
  drained : x.closing.IsDrained → x.host.scheduler.IsDrained
  returned : .returned ∈ x.record → ∃ r, x.closing = .over r

theorem sound_opening (h : Host) {b : BackupSettings} (hb : b.enabled = true) :
    (opening h b).Sound where
  enabled := hb
  owed := by
    intro before c after heq
    exact absurd heq.symm (by simp [opening])
  drained := False.elim
  returned hr := absurd hr List.not_mem_nil

theorem Sound.quiet {es : List Event} (h : x.Sound) (hc : y.closing = x.closing)
    (hr : y.record = x.record ++ es) (hes : ∀ e ∈ es, e.isQuiet ∧ e ≠ .returned)
    (hs : x.host.scheduler.Keeps y.host.scheduler)
    (hnew : ∀ c, .answered c true ∈ es → 0 < y.host.scheduler.queue)
    (hd : x.closing.IsDrained → y.host.scheduler.IsDrained) : y.Sound where
  enabled := hs.enabled.trans h.enabled
  owed := by
    rw [hr]
    refine h.owed.quiet (fun e hm => (hes e hm).1) ?_ hs.queue hnew
    rintro (hb | ⟨pending, due, hf⟩)
    · exact .inl (hs.exporting hb)
    · exact .inr ⟨pending, due, hc.trans hf⟩
  drained hy := hd (hc ▸ hy)
  returned hm := by
    rw [hr, List.mem_append] at hm
    rcases hm with hm | hm
    · obtain ⟨r, ho⟩ := h.returned hm
      exact ⟨r, hc.trans ho⟩
    · exact absurd rfl (hes _ hm).2

theorem Sound.around (h : x.Sound) (hc : y.closing = x.closing) (hr : y.record = x.record)
    (hs : y.host.scheduler = x.host.scheduler) : y.Sound := by
  have hr' : y.record = x.record ++ [] := by rw [hr, List.append_nil]
  apply h.quiet hc hr'
  · exact fun e he => absurd he List.not_mem_nil
  · rw [hs]
    exact ⟨rfl, id, id⟩
  · exact fun c he => absurd he List.not_mem_nil
  · rw [hs]
    exact h.drained

/-! ## calls -/

/-- a call is answered at once unless it has to wait -/
theorem mem_answer {c : Caller} {r : Reply} {e : Event} (h : e ∈ answer c r) :
    ∃ ok, e = .answered c ok ∧ (ok = true → r = .accepted) := by
  cases r with
  | accepted => exact ⟨true, List.mem_singleton.1 h, fun _ => rfl⟩
  | waiting => cases h
  | refused => exact ⟨false, List.mem_singleton.1 h, fun hok => by cases hok⟩

theorem Sound.call (h : x.Sound) (c : Caller) : (x.call c).Sound := by
  have hr : Replies x.host.scheduler c ((x.host.scheduler.signal c).1, (x.call c).host.scheduler) :=
    replies_signal h.enabled c
  apply h.quiet (y := x.call c) rfl rfl
  · intro e he
    obtain ⟨ok, rfl, -⟩ := mem_answer he
    exact ⟨rfl, by simp⟩
  · exact hr.keeps
  · intro c' hc'
    obtain ⟨ok, he, hreply⟩ := mem_answer hc'
    cases he
    rw [hreply rfl] at hr
    exact hr.queue_pos
  · intro hd
    exact hr.isDrained (h.drained hd)

theorem Sound.save (h : x.Sound) (k : SaveKind) : (x.save k).Sound := by
  unfold Session.save
  split
  · exact h.call .listener
  · next hk =>
    have hs : (x.host.save k).scheduler = x.host.scheduler := by rw [Host.save, if_neg hk]
    refine Sound.quiet h rfl rfl ?_ ?_ ?_ ?_
    · intro e he
      rw [List.mem_singleton.1 he]
      exact ⟨rfl, by simp⟩
    · show x.host.scheduler.Keeps (x.host.save k).scheduler
      rw [hs]
      exact ⟨rfl, id, id⟩
    · intro c hc
      simp at hc
    · show x.closing.IsDrained → (x.host.save k).scheduler.IsDrained
      rw [hs]
      exact h.drained

theorem Sound.enter (h : x.Sound) : x.enter.Sound := by
  unfold Session.enter
  split
  · exact h
  · next c rest hg =>
    have hq : x.host.scheduler.enter.queue = x.host.scheduler.queue + 1 := by
      rw [Scheduler.enter, hg]
    refine Sound.quiet h rfl rfl ?_ ?_ ?_ ?_
    · intro e he
      rw [List.mem_singleton.1 he]
      exact ⟨rfl, by simp⟩
    · refine ⟨?_, ?_, fun _ => hq ▸ Nat.succ_pos _⟩
      · show x.host.scheduler.enter.enabled = _
        rw [Scheduler.enter, hg]
      · show _ → x.host.scheduler.enter.isExporting = true
        rw [Scheduler.enter, hg]
        exact id
    · intro c' _
      exact hq ▸ Nat.succ_pos _
    · intro hd
      cases hg.symm.trans (h.drained hd).granted

/-! ## the worker -/

theorem Sound.start (h : x.Sound) : x.start.Sound := by
  unfold Session.start
  split
  · next s hc hs =>
    obtain ⟨-, hw, rfl⟩ := start_eq_ok hs
    have hx : x.host.scheduler.isExporting = false :=
      isExporting_of_isAtRest (isAtRest_iff.2 (.inl hw))
    refine Sound.quiet h rfl (List.append_nil _).symm ?_ ?_ ?_ ?_
    · exact fun e he => absurd he List.not_mem_nil
    · refine ⟨rfl, fun hb => ?_, id⟩
      rw [hx] at hb
      cases hb
    · exact fun c he => absurd he List.not_mem_nil
    · intro hd
      rw [hc] at hd
      cases hd
  · exact h

/-- the worker begins a cycle only when it has taken the last signal -/
theorem Sound.begin (h : x.Sound) {s : Scheduler}
    (hs : Does x.host.premises.surroundings x.host.scheduler .begin s)
    (hy : y.host.scheduler = s) (hc : y.closing = x.closing)
    (hr : y.record = x.record ++ [.began]) : y.Sound := by
  have hrest := hs.isActive.not_isAtRest
  have hd : ¬y.closing.IsDrained := by
    intro hd
    have := (h.drained (hc ▸ hd)).atRest
    rw [hrest] at this
    cases this
  cases hs with
  | begin hw hcancel hq =>
    constructor
    · rw [hy]
      exact h.enabled
    · rw [hr]
      show AllOwed _ _ (x.record ++ ([] ++ [.began]))
      apply h.owed.began fun c hm => absurd hm List.not_mem_nil
      left
      rw [hy]
      rfl
    · exact fun hd' => absurd hd' hd
    · intro hm
      rw [hr, List.mem_append] at hm
      rcases hm with hm | hm
      · obtain ⟨r, ho⟩ := h.returned hm
        exact ⟨r, hc.trans ho⟩
      · cases List.mem_singleton.1 hm

theorem mem_eventsOf {a : Act} {e : Event} (ha : a ≠ .begin) (h : e ∈ eventsOf a) :
    e = .gathered := by
  cases a with
  | gather => exact List.mem_singleton.1 h
  | begin => exact absurd rfl ha
  | _ => cases h

theorem Sound.act (h : x.Sound) : x.act.Sound := by
  unfold Session.act
  split
  · exact h
  · next a s ha =>
    have hdo := does_of_act? ha
    by_cases hbegin : a = .begin
    · subst hbegin
      exact h.begin hdo rfl rfl rfl
    · refine Sound.quiet h rfl rfl ?_ (hdo.keeps hbegin) ?_ ?_
      · intro e he
        rw [mem_eventsOf hbegin he]
        exact ⟨rfl, by simp⟩
      · intro c hm
        cases mem_eventsOf hbegin hm
      · intro hd
        have hrest := (h.drained hd).atRest
        rw [hdo.isActive.not_isAtRest] at hrest
        cases hrest

theorem Sound.endCycle (h : x.Sound) : x.endCycle.Sound := by
  unfold Session.endCycle
  split
  · next hdue =>
    have hx : x.host.scheduler.isExporting = true := (Bool.and_eq_true_iff.1 hdue).1
    have hd : ¬x.closing.IsDrained := by
      intro hd
      rw [isExporting_of_isAtRest (h.drained hd).atRest] at hx
      cases hx
    constructor
    · exact h.enabled
    · exact h.owed.ended _ fun c hm => absurd hm List.not_mem_nil
    · exact fun hd' => absurd hd' hd
    · intro hm
      rcases List.mem_append.1 hm with hm | hm
      · exact h.returned hm
      · cases List.mem_singleton.1 hm
  · exact h

/-! ## the shutdown -/

theorem Sound.shutdown (h : x.Sound) : x.shutdown.Sound := by
  unfold Session.shutdown
  split
  · next hc =>
    constructor
    · exact h.enabled
    · apply h.owed.mono _ id
      rintro (hb | ⟨pending, due, hf⟩)
      · exact .inl hb
      · cases hc.symm.trans hf
    · exact False.elim
    · intro hm
      obtain ⟨r, ho⟩ := h.returned hm
      cases hc.symm.trans ho
  · exact h

/-- whoever still waits is refused when the queue is closed -/
theorem mem_refusals {cs : List Caller} {e : Event} (h : e ∈ cs.map (Event.answered · false)) :
    ∃ c, e = .answered c false := by
  obtain ⟨c, -, rfl⟩ := List.mem_map.1 h
  exact ⟨c, rfl⟩

theorem not_accepted_refusals (cs : List Caller) (c : Caller) :
    .answered c true ∉ cs.map (Event.answered · false) := by
  intro hm
  obtain ⟨c', he⟩ := mem_refusals hm
  cases he

section
variable (h : x.Sound) (hc : x.closing = .stopping) (hr : x.host.scheduler.isAtRest = true)
include hc

theorem not_isBusy_of_stopping (hr : x.host.scheduler.isAtRest = true) : ¬x.IsBusy := by
  rintro (hb | ⟨pending, due, hf⟩)
  · rw [isExporting_of_isAtRest hr] at hb
    cases hb
  · cases hc.symm.trans hf

include h

theorem Sound.not_returned_of_stopping : .returned ∉ x.record := by
  intro hm
  obtain ⟨r, ho⟩ := h.returned hm
  cases hc.symm.trans ho

include hr

theorem Sound.drain_of_pending (hf : mustFlush x.host.scheduler = true) : x.drain.Sound := by
  rw [Session.drain_of_pending hc hr hf]
  constructor
  · exact h.enabled
  · dsimp only
    rw [List.append_assoc]
    exact h.owed.began (not_accepted_refusals _) (.inr ⟨_, _, rfl⟩)
  · exact fun _ => ⟨rfl, hr, rfl, rfl⟩
  · intro hm
    rw [List.append_assoc] at hm
    rcases List.mem_append.1 hm with hm | hm
    · exact absurd hm (h.not_returned_of_stopping hc)
    · rcases List.mem_append.1 hm with hm | hm
      · obtain ⟨c, he⟩ := mem_refusals hm
        cases he
      · cases List.mem_singleton.1 hm

theorem Sound.drain_of_empty (hf : mustFlush x.host.scheduler = false) : x.drain.Sound := by
  rw [Session.drain_of_empty hc hr hf]
  constructor
  · exact h.enabled
  · dsimp only
    rw [List.append_assoc]
    apply h.owed.quiet
    · intro e he
      rcases List.mem_append.1 he with he | he
      · obtain ⟨c, rfl⟩ := mem_refusals he
        rfl
      · rw [List.mem_singleton.1 he]
        rfl
    · exact fun hb => absurd hb (not_isBusy_of_stopping hc hr)
    -- the queue was empty already
    · intro hq
      rw [mustFlush, h.enabled] at hf
      simp at hf
      omega
    · intro c hm
      rcases List.mem_append.1 hm with hm | hm
      · exact absurd hm (not_accepted_refusals _ c)
      · cases List.mem_singleton.1 hm
  · exact fun _ => ⟨rfl, hr, rfl, rfl⟩
  · exact fun _ => ⟨_, rfl⟩

end

theorem Sound.drain (h : x.Sound) : x.drain.Sound := by
  cases hc : x.closing with
  | stopping =>
    cases hr : x.host.scheduler.isAtRest with
    | true =>
      cases hf : mustFlush x.host.scheduler with
      | true => exact h.drain_of_pending hc hr hf
      | false => exact h.drain_of_empty hc hr hf
    | false =>
      rw [Session.drain, hc, hr]
      exact h
  | _ =>
    rw [Session.drain, hc]
    exact h

theorem Sound.endFlush (h : x.Sound) : x.endFlush.Sound := by
  unfold Session.endFlush
  split
  · next pending due hc =>
    split
    · have hd := h.drained (hc ▸ trivial)
      constructor
      · exact h.enabled
      · exact h.owed.ended _ fun c hm => by cases List.mem_singleton.1 hm
      · exact fun _ => ⟨hd.closed, hd.atRest, hd.queue, hd.granted⟩
      · exact fun _ => ⟨_, rfl⟩
    · exact h
  · exact h

/-! ## runs -/

theorem Sound.play (h : x.Sound) (m : Move) : (x.play m).Sound := by
  cases m with
  | call c => exact h.call c
  | save k => exact h.save k
  | start => exact h.start
  | act => exact h.act
  | endCycle => exact h.endCycle
  | enter => exact h.enter
  | pass ms => exact h.around rfl rfl rfl
  | become l => exact h.around rfl rfl rfl
  | change p => exact h.around rfl rfl rfl
  | shutdown => exact h.shutdown
  | drain => exact h.drain
  | endFlush => exact h.endFlush

theorem sound_run (h : Host) {b : BackupSettings} (hb : b.enabled = true) (ms : List Move) :
    ((opening h b).run ms).Sound :=
  run_induction (sound_opening h hb) (fun _ m hy => hy.play m) ms

/-- once the shutdown has returned, a cycle went by for every accepted signal -/
theorem Sound.hasCycle (h : x.Sound) {r : ShutdownReport} (hr : x.closing = .over r)
    {before after : List Event} {c : Caller}
    (hrecord : x.record = before ++ .answered c true :: after) : HasCycle after := by
  have hd : x.host.scheduler.IsDrained := h.drained (hr ▸ trivial)
  rcases h.owed before c after hrecord with hc | ⟨hb | ⟨pending, due, hf⟩, -⟩ | hq
  · exact hc
  · rw [isExporting_of_isAtRest hd.atRest] at hb
    cases hb
  · cases hr.symm.trans hf
  · rw [hd.queue] at hq
    exact absurd hq (Nat.lt_irrefl 0)

/-- **no accepted signal is lost**: in every run of an enabled scheduler that ends with the return
of the shutdown, some cycle begins its export after the signal came into the queue, and ends -/
theorem cycle_after_accepted (h : Host) (b : BackupSettings) (hb : b.enabled = true)
    (ms : List Move) (before after : List Event) (c : Caller)
    (hrun : ((opening h b).run ms).record = before ++ .answered c true :: after ++ [.returned]) :
    ∃ gap during rest ok, after = gap ++ .began :: during ++ .ended ok :: rest ∧
      ∀ e ∈ during, e ≠ .began ∧ ∀ ok, e ≠ .ended ok := by
  have hs := sound_run h hb ms
  obtain ⟨r, hr⟩ := hs.returned (hrun ▸ List.mem_append_right _ (List.mem_singleton.2 rfl))
  rw [List.append_assoc, List.cons_append] at hrun
  obtain ⟨gap, during, rest, ok, he, hq⟩ := (hs.hasCycle hr hrun).of_returned
  refine ⟨gap, during, rest, ok, he, ?_⟩
  intro e hm
  have hquiet := hq e hm
  constructor
  · rintro rfl
    cases hquiet
  · rintro ok rfl
    cases hquiet

/-- a signal that is taken while another is in the queue, and whose round is then cancelled -/
theorem cycle_after_accepted_cancelled :
    let h : Host := .ofSettings {} none default { document := [], failures := ["down"], delay := 5 }
      .always fun _ => default
    let ms : List Move := [.start, .act, .call .producer, .call .listener, .act, .shutdown, .act,
      .drain, .pass 5, .endFlush]
    let after : List Event := [.answered .listener true, .gathered, .began, .ended false]
    ((opening h { enabled := true }).run ms).record =
        [] ++ .answered .producer true :: after ++ [.returned] ∧
      ∃ gap during rest ok, after = gap ++ .began :: during ++ .ended ok :: rest ∧
        ∀ e ∈ during, e ≠ .began ∧ ∀ ok, e ≠ .ended ok := by
  intro h ms after
  have hrun : ((opening h { enabled := true }).run ms).record =
      [] ++ .answered .producer true :: after ++ [.returned] := by decide
  exact ⟨hrun, cycle_after_accepted h { enabled := true } rfl ms [] after .producer hrun⟩

end Session

end ConfigReconcile
