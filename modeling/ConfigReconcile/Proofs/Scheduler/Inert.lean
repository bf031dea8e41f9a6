import ConfigReconcile.Proofs.Scheduler.Debounce
import Mathlib.Data.List.Induction

/-!
# A scheduler that is not enabled

It accepts every signal at once and keeps none, cannot be started, and so has nothing to do when it
is shut down.  What is asked of it comes down to the answers:

* `Scheduler.IsInert`   how it looks, whatever is done to it;
* `Move.inertAnswers`   what is answered to a call;
* `Endures x ms`        nothing but answers comes of the moves.  `IsInert.endures` says that this is so
                        for one move, and by `Endures.append` for all;
* `Host.AnswersOnly`    the same for what is done to a host, whose answers are results;
* `inert_of_disabled`   every run of moves, and every list of commands.
-/

namespace ConfigReconcile

namespace Scheduler

variable {s : Scheduler}

/-- not enabled, and as if never used -/
structure IsInert (s : Scheduler) : Prop where
  enabled : s.enabled = false
  worker : s.worker = .absent
  queue : s.queue = 0
  granted : s.granted = []
  waiting : s.waiting = []
  counters : s.counters = {}

theorem isInert_ofSettings {b : BackupSettings} (hb : b.enabled = false) : (ofSettings b).IsInert :=
  ⟨hb, rfl, rfl, rfl, rfl, rfl⟩

theorem IsInert.cancel (h : s.IsInert) : s.cancel.IsInert :=
  ⟨h.enabled, h.worker, h.queue, h.granted, h.waiting, h.counters⟩

theorem IsInert.close (h : s.IsInert) : s.close.IsInert :=
  ⟨h.enabled, h.worker, rfl, rfl, rfl, h.counters⟩

theorem IsInert.callers (h : s.IsInert) : s.callers = [] := by
  rw [Scheduler.callers, h.granted, h.waiting]
  rfl

theorem IsInert.isAtRest (h : s.IsInert) : s.isAtRest = true := isAtRest_iff.2 (.inl h.worker)

/-- it is never too late for a signal, nor is there ever no space -/
theorem IsInert.signal (h : s.IsInert) (c : Caller) : s.signal c = (.accepted, s) := by
  rw [Scheduler.signal, h.enabled]
  rfl

theorem IsInert.start (h : s.IsInert) : s.start = .error .disabled := by
  rw [Scheduler.start, h.enabled]
  rfl

end Scheduler

/-- what is answered at once to a call, if the scheduler is not enabled -/
def Move.inertAnswers : Move → List Event
  | .call c => [.answered c true]
  | .save _ => [.answered .listener false]
  | _ => []

theorem Host.heeds_of_isInert {k : Host} (h : k.scheduler.IsInert) (kind : SaveKind) :
    k.heeds kind = false := by
  rw [heeds, h.enabled]
  rfl

/-- neither a cycle beside the scheduler, nor the work of others -/
def Command.isOfScheduler : Command → Bool
  | .change _ => false
  | .cycle => false
  | _ => true

/-- a shutdown that has run no cycle, and will run none -/
def Closing.IsEmpty : Closing → Prop
  | .flushing _ _ => False
  | .over r => r = ⟨0, none⟩
  | _ => True

namespace Session

open Scheduler

variable {x : Session} {m : Move} {ms : List Move}

/-- a session of a scheduler that is not enabled -/
structure IsInert (x : Session) : Prop where
  scheduler : x.host.scheduler.IsInert
  closing : x.closing.IsEmpty

theorem isInert_opening (h : Host) {b : BackupSettings} (hb : b.enabled = false) :
    (opening h b).IsInert := ⟨isInert_ofSettings hb, trivial⟩

/-! ## single moves -/

theorem IsInert.call (h : x.IsInert) (c : Caller) : x.call c = { x with
    host := { x.host with premises := x.host.premises.note true c }
    record := x.record ++ [.answered c true] } := by
  rw [Session.call, Host.call, h.scheduler.signal]
  rfl

theorem IsInert.save (h : x.IsInert) (kind : SaveKind) : x.save kind = { x with
    host := { x.host with premises := x.host.premises.note false .listener }
    record := x.record ++ [.answered .listener false] } := by
  rw [Session.save, Host.save, Host.heeds_of_isInert h.scheduler]
  rfl

theorem IsInert.start (h : x.IsInert) : x.start = x := by
  unfold Session.start
  split
  · next s _ hs => cases h.scheduler.start.symm.trans hs
  · rfl

theorem IsInert.act (h : x.IsInert) : x.act = x := by
  rw [Session.act, act?_of_isAtRest h.scheduler.isAtRest]

theorem IsInert.endCycle (h : x.IsInert) : x.endCycle = x := by
  rw [Session.endCycle, isDue, isExporting_of_isAtRest h.scheduler.isAtRest]
  rfl

theorem IsInert.enter (h : x.IsInert) : x.enter = x := by
  rw [Session.enter, h.scheduler.granted]

theorem IsInert.endFlush (h : x.IsInert) : x.endFlush = x := by
  have hc := h.closing
  unfold Session.endFlush
  split
  · next hf =>
    rw [hf] at hc
    exact hc.elim
  · rfl

theorem mustFlush_of_isInert {s : Scheduler} (h : s.IsInert) : mustFlush s = false := by
  rw [mustFlush, h.enabled]
  rfl

/-- once the shutdown is called it can return, with nothing to tell -/
theorem IsInert.drain (h : x.IsInert) (hc : x.closing = .stopping) : x.drain = {
    host := { x.host with
      scheduler := { x.host.scheduler.close with status := .stopped }
      held := false }
    closing := .over ⟨0, none⟩
    record := x.record ++ [.returned] } := by
  rw [drain_of_empty hc h.scheduler.isAtRest (mustFlush_of_isInert h.scheduler), Host.drain,
    h.scheduler.callers, h.scheduler.queue, List.map_nil, List.append_nil]
  rfl

/-! ## runs -/

/-- nothing but answers comes of some moves; around the scheduler only others change something -/
structure Endures (x : Session) (ms : List Move) : Prop where
  inert : (x.run ms).IsInert
  record : (x.run ms).record.filter (· ≠ .returned) =
    x.record.filter (· ≠ .returned) ++ ms.flatMap Move.inertAnswers
  around : (∀ p, .change p ∉ ms) →
    (x.run ms).host.premises.exporter = x.host.premises.exporter ∧
      (x.run ms).host.premises.site = x.host.premises.site

theorem IsInert.endures_nil (h : x.IsInert) : x.Endures [] :=
  ⟨h, (List.append_nil _).symm, fun _ => ⟨rfl, rfl⟩⟩

theorem Endures.append {as bs : List Move} (ha : x.Endures as) (hb : (x.run as).Endures bs) :
    x.Endures (as ++ bs) where
  inert := run_append x as bs ▸ hb.inert
  record := by
    rw [run_append, hb.record, ha.record, List.flatMap_append, List.append_assoc]
  around hp := by
    rw [run_append]
    have h1 := ha.around fun p hm => hp p (List.mem_append_left _ hm)
    have h2 := hb.around fun p hm => hp p (List.mem_append_right _ hm)
    exact ⟨h2.1.trans h1.1, h2.2.trans h1.2⟩

theorem IsInert.endures_of_eq (h : x.IsInert) (hm : m.inertAnswers = []) (he : x.play m = x) :
    x.Endures [m] := by
  have hrun : x.run [m] = x := he
  constructor
  · rwa [hrun]
  · rw [hrun, List.flatMap_singleton, hm, List.append_nil]
  · exact fun _ => by rw [hrun]; exact ⟨rfl, rfl⟩

theorem IsInert.endures_of_note (h : x.IsInert) {c : Caller} {ok : Bool}
    (hm : m.inertAnswers = [.answered c ok]) (he : x.play m = { x with
      host := { x.host with premises := x.host.premises.note ok c }
      record := x.record ++ [.answered c ok] }) :
    x.Endures [m] := by
  have hrun : x.run [m] = _ := he
  constructor
  · rw [hrun]
    exact ⟨h.scheduler, h.closing⟩
  · rw [hrun, List.flatMap_singleton, hm, List.filter_append]
    rfl
  · rw [hrun]
    cases c <;> exact fun _ => ⟨rfl, rfl⟩

theorem IsInert.endures_shutdown (h : x.IsInert) : x.Endures [.shutdown] := by
  cases hc : x.closing with
  | uncalled =>
    have hrun : x.run [.shutdown] = { x with
        host := { x.host with scheduler := x.host.scheduler.cancel }
        closing := .stopping } := by
      show x.shutdown = _
      rw [Session.shutdown, hc]
    constructor
    · rw [hrun]
      exact ⟨h.scheduler.cancel, trivial⟩
    · rw [hrun]
      exact (List.append_nil _).symm
    · exact fun _ => hrun ▸ ⟨rfl, rfl⟩
  | _ =>
    apply h.endures_of_eq rfl
    show x.shutdown = x
    rw [Session.shutdown, hc]

theorem IsInert.endures_drain (h : x.IsInert) : x.Endures [.drain] := by
  -- unless the shutdown has been called and has not returned, nothing happens
  cases hc : x.closing with
  | stopping =>
    have hrun : x.run [.drain] = _ := h.drain hc
    have hs := h.scheduler.close
    constructor
    · rw [hrun]
      exact ⟨⟨hs.enabled, hs.worker, hs.queue, hs.granted, hs.waiting, hs.counters⟩, rfl⟩
    · rw [hrun, List.filter_append]
      rfl
    · exact fun _ => hrun ▸ ⟨rfl, rfl⟩
  | _ =>
    apply h.endures_of_eq rfl
    show x.drain = x
    rw [Session.drain, hc]

theorem IsInert.endures_play (h : x.IsInert) (m : Move) : x.Endures [m] := by
  cases m with
  | call c => exact h.endures_of_note rfl (h.call c)
  | save k => exact h.endures_of_note rfl (h.save k)
  | start => exact h.endures_of_eq rfl h.start
  | act => exact h.endures_of_eq rfl h.act
  | endCycle => exact h.endures_of_eq rfl h.endCycle
  | enter => exact h.endures_of_eq rfl h.enter
  | endFlush => exact h.endures_of_eq rfl h.endFlush
  | shutdown => exact h.endures_shutdown
  | drain => exact h.endures_drain
  | pass ms => exact ⟨⟨h.scheduler, h.closing⟩, (List.append_nil _).symm, fun _ => ⟨rfl, rfl⟩⟩
  | become l => exact ⟨⟨h.scheduler, h.closing⟩, (List.append_nil _).symm, fun _ => ⟨rfl, rfl⟩⟩
  | change p =>
    exact ⟨⟨h.scheduler, h.closing⟩, (List.append_nil _).symm,
      fun hp => absurd (List.mem_singleton_self _) (hp p)⟩

theorem IsInert.endures (h : x.IsInert) (ms : List Move) : x.Endures ms := by
  induction ms generalizing x with
  | nil => exact h.endures_nil
  | cons m ms ih =>
    have hm := h.endures_play m
    exact hm.append (ih hm.inert)

end Session

/-! ## what is done to a host -/

theorem Premises.around_noteAll (p : Premises) (ok : Bool) (cs : List Caller) :
    (p.noteAll ok cs).exporter = p.exporter ∧ (p.noteAll ok cs).site = p.site := by
  induction cs generalizing p with
  | nil => exact ⟨rfl, rfl⟩
  | cons c cs ih => cases c <;> exact ih _

namespace Host

variable {k : Host} {held : Bool}

theorem turn?_of_isInert (hs : k.scheduler.IsInert) (hp : k.Tame held) : k.turn? = none := by
  cases held with
  | true =>
    rw [hp.plain.turn?, Premises.turn?, Scheduler.act?_of_isAtRest hs.isAtRest]
    dsimp only
    rw [Scheduler.isExporting_of_isAtRest hs.isAtRest, hs.granted]
    rfl
  | false => exact turn?_of_isDrained hp.leaving (hp.drained rfl)

theorem wait_of_isInert (hs : k.scheduler.IsInert) (hp : k.Tame held) (t : Nat) :
    k.wait t = k.atTime t := by
  apply wait_of_none
  rw [turnBefore?, turn?_of_isInert hs hp, due?, hp.leaving, List.nil_append]
  dsimp only
  rw [List.filterMap_cons, Scheduler.due?_of_isAtRest hs.isAtRest]
  rfl

theorem settle_of_isInert (hs : k.scheduler.IsInert) (hp : k.Tame held) : k.settle = k :=
  wait_of_isInert hs hp _

theorem repeat_of_note {f : Host → Host} {ok : Bool} {c : Caller}
    (hf : ∀ k : Host, k.scheduler.IsInert → f k = { k with premises := k.premises.note ok c })
    (hs : k.scheduler.IsInert) (n : Nat) :
    n.repeat f k = { k with premises := k.premises.noteAll ok (List.replicate n c) } := by
  induction n with
  | zero => rfl
  | succ n ih =>
    have hn : (n.repeat f k).scheduler.IsInert := by
      rw [ih]
      exact hs
    show f (n.repeat f k) = _
    rw [hf _ hn, ih, List.replicate_succ', Premises.noteAll, Premises.noteAll, List.foldl_append]
    rfl

theorem signals_of_isInert (hs : k.scheduler.IsInert) (hp : k.Tame held) (n : Nat) :
    k.signals n =
      { k with premises := k.premises.noteAll true (List.replicate n .producer) } := by
  rw [signals, repeat_of_note (f := (·.call .producer)) _ hs n]
  · exact settle_of_isInert hs (hp.premises _)
  · intro k hs
    rw [call, hs.signal]

theorem saves_of_isInert (hs : k.scheduler.IsInert) (hp : k.Tame held) (kind : SaveKind) (n : Nat) :
    k.saves kind n =
      { k with premises := k.premises.noteAll false (List.replicate n .listener) } := by
  rw [saves, repeat_of_note (f := (·.save kind)) _ hs n]
  · exact settle_of_isInert hs (hp.premises _)
  · intro k hs
    rw [save, heeds_of_isInert hs]
    rfl

theorem answer_of_isInert (hs : k.scheduler.IsInert) (hp : k.Tame held) :
    k.answer = (.ok (), k) := by
  rw [answer, hs.signal]
  dsimp only
  rw [settle_of_isInert hs hp]
  rfl

theorem shutdown_of_isInert (hs : k.scheduler.IsInert) (hp : k.Plain) :
    k.shutdown = (⟨0, none⟩, { k with
      scheduler := { k.scheduler.cancel.close with status := .stopped }
      held := false }) := by
  have hstop : k.stopWorker = { k with scheduler := k.scheduler.cancel } := by
    have hp1 : ({ k with scheduler := k.scheduler.cancel } : Host).Plain := ⟨hp.leaving, hp.held⟩
    rw [stopWorker, settle_of_isInert hs.cancel hp1.tame]
    dsimp only
    rw [Scheduler.due?_of_isAtRest hs.cancel.isAtRest]
  have hf : Session.mustFlush k.stopWorker.scheduler = false := by
    rw [hstop]
    exact Session.mustFlush_of_isInert hs.cancel
  rw [shutdown_of_empty hp hf, hstop, drain, hs.cancel.callers, hs.cancel.queue]
  rfl

/-- nothing but answers comes of what is asked of the scheduler of a host -/
structure AnswersOnly (k : Host) : Prop where
  scheduler : k.scheduler.IsInert
  isBlocking : k.isBlocking = false
  start : k.start = (.error .disabled, k)
  answer : k.answer = (.ok (), k)
  signals : ∀ n, k.signals n =
    { k with premises := k.premises.noteAll true (List.replicate n .producer) }
  answerSave : ∀ kind, k.answerSave kind = (false, k)
  saves : ∀ kind n, k.saves kind n =
    { k with premises := k.premises.noteAll false (List.replicate n .listener) }
  advanceTo : ∀ t, k.advanceTo t = k.atTime t
  shutdown : k.held = true → k.shutdown = (⟨0, none⟩, { k with
    scheduler := { k.scheduler.cancel.close with status := .stopped }
    held := false })

theorem answersOnly (hs : k.scheduler.IsInert) (hp : k.Tame held) : k.AnswersOnly where
  scheduler := hs
  isBlocking := by rw [isBlocking, hs.enabled, Bool.and_false, Bool.false_and]
  start := by rw [start, hs.start]
  answer := answer_of_isInert hs hp
  signals := signals_of_isInert hs hp
  answerSave kind := by
    rw [answerSave, heeds_of_isInert hs]
    rfl
  saves := saves_of_isInert hs hp
  advanceTo t := by
    rw [advanceTo, wait_of_isInert hs hp]
    exact settle_of_isInert hs (hp.premises _)
  shutdown hheld := by
    have htrue : held = true := hp.held.symm.trans hheld
    exact shutdown_of_isInert hs (htrue ▸ hp).plain

theorem AnswersOnly.obey (h : k.AnswersOnly) {c : Command} (hc : c.isOfScheduler = true) :
    (k.obey c).premises.exporter = k.premises.exporter ∧
      (k.obey c).premises.site = k.premises.site := by
  cases c with
  | signals n =>
    rw [Host.obey, h.signals]
    exact Premises.around_noteAll _ _ _
  | saves kind n =>
    rw [Host.obey, h.saves]
    exact Premises.around_noteAll _ _ _
  | start =>
    rw [Host.obey, h.start]
    split <;> exact ⟨rfl, rfl⟩
  | advance ms =>
    rw [Host.obey, h.advanceTo]
    exact ⟨rfl, rfl⟩
  | become l => exact ⟨rfl, rfl⟩
  | change p => cases hc
  | cycle => cases hc
  | shutdown =>
    unfold Host.obey
    dsimp only
    split
    · next hheld =>
      rw [h.shutdown hheld]
      exact ⟨rfl, rfl⟩
    · exact ⟨rfl, rfl⟩

end Host

namespace Session

theorem answersOnly_obey {h : Host} {b : BackupSettings} (hb : b.enabled = false)
    (hl : h.leaving = []) (cs : List Command) :
    (cs.foldl Host.obey (opening h b).host).AnswersOnly := by
  have hfits := fits_opening hl b
  rw [← hfits.run_commandMoves cs]
  exact Host.answersOnly ((isInert_opening h hb).endures _).inert.scheduler
    (hfits.commandMoves cs).tame

theorem around_obey {h : Host} {b : BackupSettings} (hb : b.enabled = false)
    (hl : h.leaving = []) {cs : List Command} (hcs : ∀ c ∈ cs, c.isOfScheduler = true) :
    let k := cs.foldl Host.obey (opening h b).host
    k.premises.exporter = h.premises.exporter ∧ k.premises.site = h.premises.site := by
  -- from the end, so that the host before the last command is one after commands
  induction cs using List.reverseRecOn with
  | nil => exact ⟨rfl, rfl⟩
  | append_singleton cs c ih =>
    have hbefore := ih fun c hc => hcs c (List.mem_append_left _ hc)
    have hlast := (answersOnly_obey hb hl cs).obey (hcs c (List.mem_append_right _ (by simp)))
    rw [List.foldl_append]
    exact ⟨hlast.1.trans hbefore.1, hlast.2.trans hbefore.2⟩

/-- **a scheduler that is not enabled does nothing**, in whatever order it is called, whatever its
capacity, before its shutdown and after.  It cannot be started; each call is answered at once,
signals with success and saves without; nothing is counted or kept, no cycle begins, and nobody but
others uses the exporter and the store.  The shutdown can return as soon as it is called, and has
nothing to tell -/
theorem inert_of_disabled (h : Host) (b : BackupSettings) (hb : b.enabled = false) :
    (∀ before ms : List Move,
      let x := (opening h b).run before
      let y := x.run ms
      x.Endures ms ∧ y.host.scheduler.start = .error .disabled ∧
      (∀ c, y.call c = { y with
        host := { y.host with premises := y.host.premises.note true c }
        record := y.record ++ [.answered c true] }) ∧
      (∀ kind, y.save kind = { y with
        host := { y.host with premises := y.host.premises.note false .listener }
        record := y.record ++ [.answered .listener false] }) ∧
      (y.closing = .uncalled → (y.run [.shutdown, .drain]).closing = .over ⟨0, none⟩) ∧
      (y.closing = .stopping → (y.play .drain).closing = .over ⟨0, none⟩) ∧
      ∀ r, y.closing = .over r → r = ⟨0, none⟩) ∧
    (h.leaving = [] → ∀ cs : List Command,
      let k := cs.foldl Host.obey (opening h b).host
      k.AnswersOnly ∧
      ((∀ c ∈ cs, c.isOfScheduler = true) →
        k.premises.exporter = h.premises.exporter ∧ k.premises.site = h.premises.site)) := by
  constructor
  · intro before ms x y
    have hy : x.Endures ms := ((isInert_opening h hb).endures before).inert.endures ms
    have hdrain {z : Session} (hz : z.IsInert) (hc : z.closing = .stopping) :
        (z.play .drain).closing = .over ⟨0, none⟩ :=
      congrArg Session.closing (hz.drain hc)
    refine ⟨hy, hy.inert.scheduler.start, hy.inert.call, hy.inert.save, ?_, hdrain hy.inert, ?_⟩
    · intro hc
      apply hdrain (hy.inert.endures_play .shutdown).inert
      show y.shutdown.closing = _
      rw [Session.shutdown, hc]
    · intro r hr
      have hempty := hy.inert.closing
      rwa [hr] at hempty
  · exact fun hl cs => ⟨answersOnly_obey hb hl cs, around_obey hb hl⟩

/-- more signals than there is space for, and one after the shutdown -/
theorem inert_of_disabled_full :
    let b : BackupSettings := { enabled := false, queueCapacity := 1 }
    let ms : List Move := [.start, .call .producer, .call .producer, .save .globalConfiguration,
      .pass 5, .shutdown, .drain, .call .producer]
    let cs : List Command := [.signals 2, .saves .globalConfiguration 1, .start, .advance 5,
      .shutdown, .signals 1]
    let y := (opening emptyHost b).run ms
    let k := cs.foldl Host.obey (opening emptyHost b).host
    b.enabled = false ∧ y.record.filter (· ≠ .returned) = [.answered .producer true,
        .answered .producer true, .answered .listener false, .answered .producer true] ∧
      emptyHost.leaving = [] ∧ k.scheduler.counters = {} ∧
      k.premises.exporter = emptyHost.premises.exporter := by
  intro b ms cs y k
  obtain ⟨hruns, hcommands⟩ := inert_of_disabled emptyHost b rfl
  obtain ⟨hanswers, haround⟩ := hcommands rfl cs
  exact ⟨rfl, (hruns [] ms).1.record, rfl, hanswers.scheduler.counters, (haround (by decide)).1⟩

end Session

end ConfigReconcile
