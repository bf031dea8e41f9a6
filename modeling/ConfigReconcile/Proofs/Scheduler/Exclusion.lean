import ConfigReconcile.Proofs.Scheduler.Course

/-!
# Cycles do not overlap

Both the worker and the shutdown run cycles, and both publish how things stand.  What keeps them
apart is the order of a shutdown: it waits for the worker, closes the queue, and only then begins a
cycle of its own.

* `Event.follow?`     reads a record and keeps track of the cycle in flight.  It refuses a cycle
                      that begins, and a shutdown that returns, while a cycle is in flight;
* `Session.statuses`  what is published, move by move;
* `Session.Rests`     nothing happens but that calls are refused;
* `Session.exclusive_run`   at most one cycle is in flight, the worker begins one with the queue
                      empty only, and after the shutdown there is none.
-/

namespace ConfigReconcile

/-! ## records in which cycles take turns -/

namespace Event

def isEnd : Event → Bool
  | .ended _ => true
  | _ => false

/-- whether a cycle is in flight after an event, if that event can happen -/
def follow? (busy : Bool) : Event → Option Bool
  | .began => if busy then none else some true
  | .ended _ => if busy then some false else none
  | .returned => if busy then none else some false
  | .answered _ _ => some busy
  | .gathered => some busy

/-- cycles take turns in the events, and one is in flight in the end or none -/
def Follows (es : List Event) (busy : Bool) : Prop := es.foldlM follow? false = some busy

section
variable {es fs : List Event} {a b : Bool}

theorem foldlM_quiet (hfs : ∀ e ∈ fs, e.isQuiet = true ∧ e ≠ .returned) :
    fs.foldlM follow? a = some a := by
  induction fs with
  | nil => rfl
  | cons e fs ih =>
    have he : follow? a e = some a := by
      obtain ⟨hq, hr⟩ := hfs e (List.mem_cons_self ..)
      cases e with
      | answered => rfl
      | gathered => rfl
      | began => cases hq
      | ended ok => cases hq
      | returned => exact absurd rfl hr
    rw [List.foldlM_cons, he]
    exact ih fun e' h => hfs e' (List.mem_cons_of_mem _ h)

theorem count_began_quiet (hfs : ∀ e ∈ fs, e.isQuiet = true ∧ e ≠ .returned) :
    fs.count .began = 0 := by
  apply List.count_eq_zero.2
  intro hm
  cases (hfs _ hm).1

theorem Follows.append (h : Follows es a) (hfs : fs.foldlM follow? a = some b) :
    Follows (es ++ fs) b := by
  rw [Follows, List.foldlM_append, h]
  exact hfs

theorem Follows.quiet (h : Follows es a) (hfs : ∀ e ∈ fs, e.isQuiet = true ∧ e ≠ .returned) :
    Follows (es ++ fs) a := h.append (foldlM_quiet hfs)

theorem Follows.split (h : Follows (es ++ fs) b) :
    ∃ a, Follows es a ∧ fs.foldlM follow? a = some b := by
  rw [Follows, List.foldlM_append] at h
  exact Option.bind_eq_some_iff.1 h

theorem count_of_foldlM (h : es.foldlM follow? a = some b) :
    a.toNat + es.count .began = es.countP isEnd + b.toNat := by
  induction es generalizing a with
  | nil =>
    cases h
    simp
  | cons e es ih =>
    rw [List.foldlM_cons] at h
    obtain ⟨c, hc, h⟩ := Option.bind_eq_some_iff.1 h
    have := ih h
    rw [List.count_cons, List.countP_cons]
    cases e <;> cases a <;> cases hc <;> simp [isEnd] at * <;> omega

theorem Follows.count (h : Follows es b) : es.count .began = es.countP isEnd + b.toNat := by
  have := count_of_foldlM h
  simpa using this

theorem Follows.of_returned (h : Follows (es ++ .returned :: fs) b) : Follows es false := by
  obtain ⟨a, ha, h⟩ := h.split
  cases a with
  | false => exact ha
  | true => cases h

end

end Event

namespace Session

open Event Scheduler

variable {x y : Session} {m : Move} {es : List Event}

/-! ## one cycle at a time -/

/-- whether a cycle is in flight -/
def isBusy (x : Session) : Bool := x.host.scheduler.isExporting || x.closing.isFlushing

theorem isFlushing_of_not_isDrained {c : Closing} (h : ¬c.IsDrained) : c.isFlushing = false := by
  cases c with
  | flushing => exact absurd trivial h
  | _ => rfl

theorem isBusy_eq (hx : x.host.scheduler.isExporting = false) (hd : ¬x.closing.IsDrained) :
    x.isBusy = false := by
  rw [isBusy, hx, isFlushing_of_not_isDrained hd]
  rfl

/-- no cycle is in flight when a worker that is at rest has been waited for -/
theorem isBusy_of_stopping (hc : x.closing = .stopping)
    (hr : x.host.scheduler.isAtRest = true) : x.isBusy = false := by
  rw [isBusy, isExporting_of_isAtRest hr, hc]
  rfl

theorem quiet_refusals (cs : List Caller) :
    ∀ e ∈ cs.map (Event.answered · false), e.isQuiet = true ∧ e ≠ .returned := by
  intro e he
  obtain ⟨c, rfl⟩ := mem_refusals he
  exact ⟨rfl, by simp⟩

theorem follows_act {e : Surroundings} {s s' : Scheduler} {a : Act} {record : List Event}
    (hf : Follows record false) (h : Does e s a s') :
    Follows (record ++ eventsOf a) s'.isExporting := by
  cases h with
  | begin _ _ _ => exact hf.append rfl
  | gather _ _ _ => exact hf.append rfl
  | _ => exact hf.append rfl

/-- **cycles take turns**: one that begins has ended before the next one begins and before the
shutdown returns -/
theorem Course.follows (h : x.Course m y) (hf : Follows x.record x.isBusy) :
    Follows y.record y.isBusy := by
  cases h with
  | calm es h =>
    have hbusy : y.isBusy = x.isBusy := by
      rw [isBusy, isBusy, isExporting_congr h.worker, h.closing]
    rw [h.record, hbusy]
    exact hf.quiet h.quiet
  | start hc hw closing scheduler record =>
    have hx : x.isBusy = false := by
      rw [isBusy, isExporting_of_isAtRest (isAtRest_iff.2 (.inl hw)), hc]
      rfl
    have hy : y.isBusy = false := by
      rw [isBusy, scheduler, closing, hc]
      rfl
    rw [record, hy, ← hx]
    exact hf
  | act a hd does closing record =>
    rw [isBusy_eq does.isActive.not_isExporting hd] at hf
    rw [isBusy, closing, isFlushing_of_not_isDrained hd, Bool.or_false, record]
    exact follows_act hf does
  | endCycle ok hd hx closing scheduler record =>
    rw [isBusy, hx] at hf
    rw [isBusy, closing, isFlushing_of_not_isDrained hd, scheduler, record]
    exact hf.append rfl
  | shutdown hm hc closing scheduler record =>
    have hbusy : y.isBusy = x.isBusy := by
      rw [isBusy, isBusy, scheduler, closing, hc]
      rfl
    rw [record, hbusy]
    exact hf
  | flush hc hr pending due closing scheduler record =>
    rw [isBusy_of_stopping hc hr] at hf
    have hy : y.isBusy = true := by
      rw [isBusy, closing]
      exact Bool.or_true _
    rw [record, hy]
    exact (hf.quiet (quiet_refusals _)).append rfl
  | release hc hr r closing scheduler record =>
    rw [isBusy_of_stopping hc hr] at hf
    have hy : y.isBusy = false := by
      rw [isBusy, isExporting_congr (s := x.host.scheduler) (by rw [scheduler]; rfl), closing,
        isExporting_of_isAtRest hr]
      rfl
    rw [record, hy]
    exact (hf.quiet (quiet_refusals _)).append rfl
  | endFlush ok pending due hc hr r closing scheduler record =>
    have hx : x.isBusy = true := by
      rw [isBusy, hc]
      exact Bool.or_true _
    have hy : y.isBusy = false := by
      rw [isBusy, isExporting_congr (s := x.host.scheduler) (by rw [scheduler]; rfl), closing,
        isExporting_of_isAtRest hr]
      rfl
    rw [hx] at hf
    rw [record, hy]
    exact hf.append rfl

/-- the worker begins a cycle with nothing left in the queue -/
theorem Course.queue_of_begin (h : x.Course m y) (hx : x.host.scheduler.isExporting = false)
    (hy : y.host.scheduler.isExporting = true) : y.host.scheduler.queue = 0 := by
  obtain ⟨due, hdue⟩ := isExporting_iff.1 hy
  rcases h.worker with hw | hw | ⟨a, -, -, does⟩
  · rw [isExporting_congr hw, hx] at hy
    cases hy
  · cases hw.symm.trans hdue
  · generalize y.host.scheduler = s at does hdue ⊢
    cases does with
    | begin hw hc hq =>
      show x.host.scheduler.queue - 1 = 0
      rw [hq]
    | _ => cases hdue

/-! ## what is published -/

/-- what is published once the worker has ended, or the shutdown has gone past it -/
def published? (x : Session) : Option Status :=
  match x.closing with
  | .flushing _ _ => some .exporting
  | .over _ => some .stopped
  | _ => if x.host.scheduler.worker = .ended then some .stopped else none

/-- the status is the one that is to be published, if there is one -/
def Published (x : Session) : Prop := ∀ t, x.published? = some t → x.host.scheduler.status = t

theorem published?_congr (hc : y.closing = x.closing)
    (hw : y.host.scheduler.worker = x.host.scheduler.worker) : y.published? = x.published? := by
  rw [published?, published?, hc, hw]

theorem published?_of_not_isDrained (hd : ¬x.closing.IsDrained) :
    x.published? = if x.host.scheduler.worker = .ended then some .stopped else none := by
  unfold published?
  cases hc : x.closing with
  | uncalled => rfl
  | stopping => rfl
  | _ =>
    rw [hc] at hd
    exact absurd trivial hd

theorem Course.published (h : x.Course m y) (hp : x.Published) : y.Published := by
  intro t ht
  cases h with
  | calm es h =>
    rw [published?_congr h.closing h.worker] at ht
    rw [h.status]
    exact hp t ht
  | start hc hw closing scheduler record =>
    rw [published?, closing, hc, scheduler] at ht
    cases ht
  | act a hd does closing record =>
    rw [published?_of_not_isDrained (closing ▸ hd)] at ht
    generalize y.host.scheduler = s at does ht ⊢
    cases does with
    | stop _ _ =>
      cases ht
      rfl
    | _ => cases ht
  | endCycle ok hd hx closing scheduler record =>
    rw [published?_of_not_isDrained (closing ▸ hd), scheduler] at ht
    cases ht
  | shutdown hm hc closing scheduler record =>
    rw [scheduler]
    apply hp t
    rw [published?, closing, scheduler] at ht
    rw [published?, hc]
    exact ht
  | flush hc hr pending due closing scheduler record =>
    rw [published?, closing] at ht
    cases ht
    rw [scheduler]
  | release hc hr r closing scheduler record =>
    rw [published?, closing] at ht
    cases ht
    rw [scheduler]
  | endFlush ok pending due hc hr r closing scheduler record =>
    rw [published?, closing] at ht
    cases ht
    rw [scheduler]

/-- what is published after each move -/
def statuses (x : Session) : List Move → List Status
  | [] => []
  | m :: ms => (x.play m).host.scheduler.status :: (x.play m).statuses ms

/-- the parts of a session that are right at the same time -/
structure Orderly (x : Session) : Prop where
  sound : x.Sound
  follows : Follows x.record x.isBusy
  published : x.Published

theorem Orderly.play (h : x.Orderly) (m : Move) : (x.play m).Orderly :=
  have hm := h.sound.course m
  ⟨h.sound.play m, hm.follows h.follows, hm.published h.published⟩

/-! ## after the shutdown -/

/-- nothing has changed but for calls that were refused -/
structure Rests (x y : Session) : Prop where
  closing : y.closing = x.closing
  scheduler : y.host.scheduler = x.host.scheduler
  refused : ∃ es, y.record = x.record ++ es ∧ ∀ e ∈ es, ∃ c, e = .answered c false

theorem Calm.rests (h : x.Calm y es) (hd : x.closing.IsDrained) : x.Rests y :=
  ⟨h.closing, (h.drained hd).1, es, h.record, (h.drained hd).2⟩

theorem Rests.trans {z : Session} (h : x.Rests y) (h' : y.Rests z) : x.Rests z := by
  obtain ⟨es, hes, hr⟩ := h.refused
  obtain ⟨fs, hfs, hr'⟩ := h'.refused
  refine ⟨h'.closing.trans h.closing, h'.scheduler.trans h.scheduler, es ++ fs, ?_, ?_⟩
  · rw [hfs, hes, List.append_assoc]
  · intro e he
    rcases List.mem_append.1 he with he | he
    · exact hr e he
    · exact hr' e he

theorem Rests.count_began (h : x.Rests y) : y.record.count .began = x.record.count .began := by
  obtain ⟨es, hes, hr⟩ := h.refused
  have hquiet : ∀ e ∈ es, e.isQuiet = true ∧ e ≠ .returned := by
    intro e he
    obtain ⟨c, rfl⟩ := hr e he
    exact ⟨rfl, by simp⟩
  rw [hes, List.count_append, count_began_quiet hquiet, Nat.add_zero]

variable {r : ShutdownReport}

theorem Course.rests (h : x.Course m y) (hc : x.closing = .over r) : x.Rests y := by
  have hd : x.closing.IsDrained := hc ▸ trivial
  rcases h.drained hd with ⟨es, hcalm⟩ | ⟨pending, due, r', ok, hn, -⟩
  · exact hcalm.rests hd
  · cases hc.symm.trans hn

theorem Orderly.rests_run (h : x.Orderly) (hc : x.closing = .over r) (ms : List Move) :
    x.Rests (x.run ms) := by
  induction ms generalizing x with
  | nil => exact (calm_self x).rests (hc ▸ trivial)
  | cons m ms ih =>
    have hm := (h.sound.course m).rests hc
    exact hm.trans (ih (h.play m) (hm.closing.trans hc))

theorem Orderly.status_of_over (h : x.Orderly) (hc : x.closing = .over r) :
    x.host.scheduler.status = .stopped :=
  h.published _ (by rw [published?, hc])

theorem Orderly.statuses_of_over (h : x.Orderly) (hc : x.closing = .over r) (ms : List Move) :
    x.statuses ms = List.replicate ms.length .stopped := by
  induction ms generalizing x with
  | nil => rfl
  | cons m ms ih =>
    have hclosing := ((h.sound.course m).rests hc).closing.trans hc
    rw [statuses, (h.play m).status_of_over hclosing, ih (h.play m) hclosing]
    rfl

/-! ## after the worker -/

/-- what is published after the worker has ended: at most one cycle, between times of rest -/
def IsLastWord (ts : List Status) : Prop :=
  ∃ i j k, ts =
    List.replicate i .stopped ++ List.replicate j .exporting ++ List.replicate k .stopped

/-- during the cycle of a shutdown nothing changes, or that cycle ends -/
theorem Course.of_flushing {pending due : Nat} (h : x.Course m y)
    (hc : x.closing = .flushing pending due) :
    x.Rests y ∨ (∃ r, y.closing = .over r) ∧ y.record.count .began = x.record.count .began := by
  have hd : x.closing.IsDrained := hc ▸ trivial
  rcases h.drained hd with ⟨es, hcalm⟩ | ⟨_, _, r, ok, -, closing, record⟩
  · exact .inl (hcalm.rests hd)
  · refine .inr ⟨⟨r, closing⟩, ?_⟩
    rw [record, List.count_append]
    rfl

theorem Orderly.statuses_of_flushing {pending due : Nat} (h : x.Orderly)
    (hc : x.closing = .flushing pending due) (ms : List Move) :
    (∃ j k, x.statuses ms = List.replicate j .exporting ++ List.replicate k .stopped) ∧
      (x.run ms).record.count .began = x.record.count .began := by
  induction ms generalizing x with
  | nil => exact ⟨⟨0, 0, rfl⟩, rfl⟩
  | cons m ms ih =>
    rw [statuses, run_cons]
    rcases (h.sound.course m).of_flushing hc with hm | ⟨⟨r, hr⟩, hcount⟩
    · have hclosing := hm.closing.trans hc
      have hstatus : (x.play m).host.scheduler.status = .exporting :=
        (h.play m).published _ (by rw [published?, hclosing])
      obtain ⟨⟨j, k, hts⟩, hrun⟩ := ih (h.play m) hclosing
      refine ⟨⟨j + 1, k, ?_⟩, hrun.trans hm.count_began⟩
      rw [hstatus, hts]
      rfl
    · refine ⟨⟨0, ms.length + 1, ?_⟩, ?_⟩
      · rw [(h.play m).status_of_over hr, (h.play m).statuses_of_over hr]
        rfl
      · rw [((h.play m).rests_run hr ms).count_began, hcount]

/-- a worker that has ended does not come back, and the shutdown may go on -/
theorem Course.of_ended (h : x.Course m y) (hw : x.host.scheduler.worker = .ended)
    (hd : ¬x.closing.IsDrained) :
    y.host.scheduler.worker = .ended ∧
      (¬y.closing.IsDrained ∧ y.record.count .began = x.record.count .began ∨
        (∃ pending due, y.closing = .flushing pending due) ∧
          y.record.count .began = x.record.count .began + 1 ∨
        (∃ r, y.closing = .over r) ∧ y.record.count .began = x.record.count .began) := by
  have hrefusals := count_began_quiet (quiet_refusals x.host.scheduler.callers)
  cases h with
  | calm es h =>
    refine ⟨h.worker.trans hw, .inl ⟨h.closing ▸ hd, ?_⟩⟩
    rw [h.record, List.count_append, count_began_quiet h.quiet, Nat.add_zero]
  | start _ hn _ _ _ => cases hw.symm.trans hn
  | act a _ does _ _ =>
    have := does.isActive.not_isAtRest
    rw [isAtRest_iff.2 (.inr hw)] at this
    cases this
  | endCycle ok _ hx _ _ _ =>
    rw [isExporting_of_isAtRest (isAtRest_iff.2 (.inr hw))] at hx
    cases hx
  | shutdown hm hc closing scheduler record =>
    refine ⟨by rw [scheduler]; exact hw, .inl ⟨by rw [closing]; exact id, by rw [record]⟩⟩
  | flush hc hr pending due closing scheduler record =>
    refine ⟨by rw [scheduler]; exact hw, .inr (.inl ⟨⟨pending, due, closing⟩, ?_⟩)⟩
    rw [record, List.count_append, List.count_append, hrefusals]
    rfl
  | release hc hr r closing scheduler record =>
    refine ⟨by rw [scheduler]; exact hw, .inr (.inr ⟨⟨r, closing⟩, ?_⟩)⟩
    rw [record, List.count_append, List.count_append, hrefusals]
    rfl
  | endFlush ok pending due hc hr r closing scheduler record =>
    rw [hc] at hd
    exact absurd trivial hd

theorem Orderly.statuses_of_undrained (h : x.Orderly) (hw : x.host.scheduler.worker = .ended)
    (hd : ¬x.closing.IsDrained) (ms : List Move) :
    IsLastWord (x.statuses ms) ∧ (x.run ms).record.count .began ≤ x.record.count .began + 1 := by
  induction ms generalizing x with
  | nil => exact ⟨⟨0, 0, 0, rfl⟩, Nat.le_succ _⟩
  | cons m ms ih =>
    rw [statuses, run_cons]
    have hplay := h.play m
    obtain ⟨hw', hnext⟩ := (h.sound.course m).of_ended hw hd
    rcases hnext with ⟨hd', hcount⟩ | ⟨⟨pending, due, hc⟩, hcount⟩ | ⟨⟨r, hc⟩, hcount⟩
    · have hstatus : (x.play m).host.scheduler.status = .stopped :=
        hplay.published _ (by rw [published?_of_not_isDrained hd', if_pos hw'])
      obtain ⟨⟨i, j, k, hts⟩, hrun⟩ := ih hplay hw' hd'
      refine ⟨⟨i + 1, j, k, ?_⟩, hcount ▸ hrun⟩
      rw [hstatus, hts]
      rfl
    · have hstatus : (x.play m).host.scheduler.status = .exporting :=
        hplay.published _ (by rw [published?, hc])
      obtain ⟨⟨j, k, hts⟩, hrun⟩ := hplay.statuses_of_flushing hc ms
      refine ⟨⟨0, j + 1, k, ?_⟩, by omega⟩
      rw [hstatus, hts]
      rfl
    · refine ⟨⟨0, 0, ms.length + 1, ?_⟩, ?_⟩
      · rw [hplay.status_of_over hc, hplay.statuses_of_over hc]
        rfl
      · rw [(hplay.rests_run hc ms).count_began]
        omega

/-- once the worker has ended, at most one more cycle begins, which is that of the shutdown -/
theorem Orderly.statuses_of_ended (h : x.Orderly) (hw : x.host.scheduler.worker = .ended)
    (ms : List Move) :
    IsLastWord (x.statuses ms) ∧ (x.run ms).record.count .began ≤ x.record.count .began + 1 := by
  cases hc : x.closing with
  | flushing pending due =>
    obtain ⟨⟨j, k, hts⟩, hrun⟩ := h.statuses_of_flushing hc ms
    exact ⟨⟨0, j, k, hts⟩, by omega⟩
  | uncalled => exact h.statuses_of_undrained hw (by rw [hc]; exact id) ms
  | stopping => exact h.statuses_of_undrained hw (by rw [hc]; exact id) ms
  | _ =>
    refine ⟨⟨0, 0, ms.length, h.statuses_of_over hc ms⟩, ?_⟩
    rw [(h.rests_run hc ms).count_began]
    exact Nat.le_succ _

/-! ## the store after the shutdown -/

/-- only others change the store once the shutdown has returned -/
theorem Orderly.site_play (h : x.Orderly) (hc : x.closing = .over r) (hm : ∀ p, m ≠ .change p) :
    (x.play m).host.premises.site = x.host.premises.site := by
  have hd : x.host.scheduler.IsDrained := h.sound.drained (hc ▸ trivial)
  have hnote (p : Premises) (b : Bool) (c : Caller) : (p.note b c).site = p.site := by
    cases c <;> rfl
  have hcall (c : Caller) : (x.call c).host.premises.site = x.host.premises.site := by
    show (x.host.call c).premises.site = _
    unfold Host.call
    dsimp only
    split
    · exact hnote _ _ _
    · exact hnote _ _ _
    · rfl
  cases m with
  | call c => exact hcall c
  | save k =>
    show (x.save k).host.premises.site = _
    unfold Session.save
    split
    · exact hcall .listener
    · next hk =>
      show (x.host.save k).premises.site = _
      rw [Host.save, if_neg hk]
      exact hnote _ _ _
  | start =>
    show x.start.host.premises.site = _
    rw [Session.start, hc]
  | act =>
    show x.act.host.premises.site = _
    rw [Session.act, act?_of_isAtRest hd.atRest]
  | endCycle =>
    show x.endCycle.host.premises.site = _
    rw [Session.endCycle, isDue, isExporting_of_isAtRest hd.atRest]
    rfl
  | enter =>
    show x.enter.host.premises.site = _
    rw [Session.enter, hd.granted]
  | pass ms => rfl
  | become l => rfl
  | change p => exact absurd rfl (hm p)
  | shutdown =>
    show x.shutdown.host.premises.site = _
    rw [Session.shutdown, hc]
  | drain =>
    show x.drain.host.premises.site = _
    rw [Session.drain, hc]
  | endFlush =>
    show x.endFlush.host.premises.site = _
    rw [Session.endFlush, hc]

/-! ## every run -/

theorem Sound.record_call (h : x.Sound) (hd : x.closing.IsDrained) (c : Caller) :
    (x.call c).record = x.record ++ [.answered c false] := by
  have hr : Replies x.host.scheduler c ((x.host.scheduler.signal c).1, (x.call c).host.scheduler) :=
    replies_signal h.enabled c
  show x.record ++ answer c (x.host.scheduler.signal c).1 = _
  rw [(hr.eq_of_closed (h.drained hd).closed).1]
  rfl

theorem Sound.record_save (h : x.Sound) (hd : x.closing.IsDrained) (k : SaveKind) :
    (x.save k).record = x.record ++ [.answered .listener false] := by
  unfold Session.save
  split
  · exact h.record_call hd .listener
  · rfl

/-- a worker ends by itself, which is before the queue is closed -/
theorem Course.not_isDrained_of_stop (h : x.Course m y) (hx : x.host.scheduler.worker ≠ .ended)
    (hy : y.host.scheduler.worker = .ended) : ¬y.closing.IsDrained := by
  rcases h.worker with hw | hw | ⟨a, hd, hc, -⟩
  · exact absurd (hw.symm.trans hy) hx
  · cases hw.symm.trans hy
  · exact hc ▸ hd

/-- cycles exclude each other, and come to an end with the scheduler -/
structure Exclusive (x : Session) : Prop where
  /-- after each event at most one cycle is in flight -/
  single : ∀ before after, x.record = before ++ after →
    before.countP Event.isEnd ≤ before.count .began ∧
      before.count .began ≤ before.countP Event.isEnd + 1
  /-- which is that of the worker or that of the shutdown -/
  inFlight : x.record.count .began = x.record.countP Event.isEnd +
    (x.host.scheduler.isExporting.toNat + x.closing.isFlushing.toNat)
  /-- the worker begins a cycle with nothing in the queue -/
  emptied : ∀ m, x.host.scheduler.isExporting = false →
    (x.play m).host.scheduler.isExporting = true → (x.play m).host.scheduler.queue = 0
  /-- when the worker ends, all cycles that have begun have ended -/
  stopped : ∀ m, x.host.scheduler.worker ≠ .ended → (x.play m).host.scheduler.worker = .ended →
    (x.play m).record.count .began = (x.play m).record.countP Event.isEnd
  /-- and so when the shutdown returns -/
  returned : ∀ before after, x.record = before ++ .returned :: after →
    before.count .began = before.countP Event.isEnd
  /-- after the worker has ended, at most the one cycle of the shutdown is begun and published -/
  lastWord : x.host.scheduler.worker = .ended → ∀ ms, IsLastWord (x.statuses ms) ∧
    (x.run ms).record.count .began ≤ x.record.count .began + 1
  /-- after the shutdown has returned, whatever follows: the scheduler stays stopped, with its
  counters, nothing happens but that calls are refused, and none of this changes the store -/
  afterward : ∀ r, x.closing = .over r → x.host.scheduler.status = .stopped ∧
    ∀ ms, x.Rests (x.run ms) ∧
      (∀ c, ((x.run ms).call c).record = (x.run ms).record ++ [.answered c false]) ∧
      (∀ k, ((x.run ms).save k).record = (x.run ms).record ++ [.answered .listener false]) ∧
      ∀ m, (∀ p, m ≠ .change p) →
        ((x.run ms).play m).host.premises.site = (x.run ms).host.premises.site

theorem orderly_opening (h : Host) {b : BackupSettings} (hb : b.enabled = true) :
    (opening h b).Orderly where
  sound := sound_opening h hb
  follows := rfl
  published _ ht := by cases ht

theorem Orderly.run (h : x.Orderly) (ms : List Move) : (x.run ms).Orderly :=
  run_induction h (fun _ m hy => hy.play m) ms

theorem Orderly.inFlight (h : x.Orderly) : x.record.count .began =
    x.record.countP Event.isEnd +
      (x.host.scheduler.isExporting.toNat + x.closing.isFlushing.toNat) := by
  have hcount := h.follows.count
  rw [isBusy] at hcount
  cases hf : x.closing.isFlushing with
  | false =>
    rw [hf, Bool.or_false] at hcount
    exact hcount
  | true =>
    -- the worker is at rest while the shutdown runs its cycle
    have hd : x.closing.IsDrained := by
      cases hc : x.closing with
      | flushing pending due => trivial
      | _ =>
        rw [hc] at hf
        cases hf
    rw [hf, isExporting_of_isAtRest (h.sound.drained hd).atRest] at hcount
    rw [isExporting_of_isAtRest (h.sound.drained hd).atRest]
    exact hcount

/-- **cycles are exclusive**, in every state that a run of an enabled scheduler leads to -/
theorem exclusive_run (h : Host) (b : BackupSettings) (hb : b.enabled = true) (ms : List Move) :
    ((opening h b).run ms).Exclusive := by
  have hx : ((opening h b).run ms).Orderly := (orderly_opening h hb).run ms
  generalize (opening h b).run ms = x at hx
  refine ⟨?_, hx.inFlight, ?_, ?_, ?_, fun hw ms => hx.statuses_of_ended hw ms, ?_⟩
  · intro before after hrecord
    obtain ⟨busy, hbefore, -⟩ := (hrecord ▸ hx.follows).split
    have := hbefore.count
    have := Bool.toNat_le busy
    omega
  · exact fun m => (hx.sound.course m).queue_of_begin
  · intro m hne hw
    have hm := hx.play m
    have hd := (hx.sound.course m).not_isDrained_of_stop hne hw
    have hexporting := isExporting_of_isAtRest (isAtRest_iff.2 (.inr hw))
    rw [hm.follows.count, isBusy_eq hexporting hd]
    rfl
  · intro before after hrecord
    exact (hrecord ▸ hx.follows).of_returned.count
  · intro r hc
    refine ⟨hx.status_of_over hc, ?_⟩
    intro ms
    have hy := hx.run ms
    have hrests := hx.rests_run hc ms
    have hover := hrests.closing.trans hc
    have hd : (x.run ms).closing.IsDrained := hover ▸ trivial
    exact ⟨hrests, hy.sound.record_call hd, hy.sound.record_save hd,
      fun m hm => hy.site_play hover hm⟩

/-- a shutdown while a cycle is in flight, with a signal behind it, which gets a cycle of its own -/
theorem exclusive_run_flushed :
    let h : Host := .ofSettings {} none default { document := [], failures := ["down"], delay := 5 }
      .always fun _ => default
    let b : BackupSettings := { enabled := true }
    let ms : List Move := [.start, .start, .act, .call .producer, .act, .call .listener, .shutdown,
      .pass 5, .endCycle, .act, .drain, .pass 5, .endFlush]
    let x := (opening h b).run ms
    b.enabled = true ∧ x.Exclusive ∧
      x.record = [.answered .producer true, .began, .answered .listener true, .ended false, .began,
        .ended true, .returned] ∧
      (opening h b).statuses ms = [.idle, .idle, .idle, .idle, .exporting, .exporting, .exporting,
        .exporting, .exporting, .stopped, .exporting, .exporting, .stopped] := by
  intro h b ms x
  exact ⟨rfl, exclusive_run h b rfl ms, by decide, by decide⟩

end Session

end ConfigReconcile
