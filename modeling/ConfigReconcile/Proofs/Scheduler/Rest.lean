import ConfigReconcile.Proofs.Scheduler.Commands
import ConfigReconcile.Proofs.Scheduler.Course

/-!
# A scheduler comes to rest

As long as nobody stops a scheduler or its host, its worker goes on (`GoesOn`), and each move is one
of three (`GoesOn.step`).  If nobody waits for a slot of the queue, the worker empties it by itself
and is idle in the end (`GoesOn.exists_run_idle`), since all that it does lowers `Scheduler.weight`.

`acceptTimes` are the times at which signals come into the queue.
-/

namespace ConfigReconcile

namespace Move

/-- not a move towards the end of the scheduler or of the host -/
def isOrdinary : Move → Bool
  | .shutdown => false
  | .become l => !l.isTerminating
  | _ => true

/-- a move of the worker, or time passing -/
def isOfWorker : Move → Bool
  | .act => true
  | .endCycle => true
  | .pass _ => true
  | _ => false

end Move

namespace Session

open Event Scheduler

variable {x y : Session} {m : Move} {ms : List Move}

/-! ## times -/

theorem now_play (hm : ∀ ms, m ≠ .pass ms) :
    (x.play m).host.premises.now = x.host.premises.now := by
  cases m with
  | pass ms => exact absurd rfl (hm ms)
  | become l => rfl
  | change p => rfl
  | _ =>
    exact premises_play (f := Premises.now) Premises.now_note Premises.now_finishCycle (fun _ => rfl)
      (by simp) (by simp) (by simp)

theorem now_le_now_play (x : Session) (m : Move) :
    x.host.premises.now ≤ (x.play m).host.premises.now := by
  cases m with
  | pass ms => exact Nat.le_add_right _ _
  | _ => exact Nat.le_of_eq (now_play (by simp)).symm

theorem lifecycle_play (hm : ∀ l, m ≠ .become l) :
    (x.play m).host.premises.lifecycle = x.host.premises.lifecycle := by
  cases m with
  | pass ms => rfl
  | become l => exact absurd rfl (hm l)
  | change p => rfl
  | _ =>
    refine premises_play (f := Premises.lifecycle) ?_ Premises.lifecycle_finishCycle (fun _ => rfl)
      (by simp) (by simp) (by simp)
    rintro p b (_ | _) <;> rfl

/-- the times of the signals that a move brings into the queue -/
def arrivals (x : Session) (m : Move) : List Nat :=
  List.replicate
    ((x.play m).host.scheduler.counters.accepted - x.host.scheduler.counters.accepted)
    x.host.premises.now

/-- the times at which signals come into the queue -/
def acceptTimes (x : Session) : List Move → List Nat
  | [] => []
  | m :: ms => x.arrivals m ++ (x.play m).acceptTimes ms

theorem acceptTimes_append (x : Session) (as bs : List Move) :
    x.acceptTimes (as ++ bs) = x.acceptTimes as ++ (x.run as).acceptTimes bs := by
  induction as generalizing x with
  | nil => rfl
  | cons m ms ih =>
    rw [List.cons_append, acceptTimes, ih, acceptTimes, List.append_assoc, run_cons]

theorem now_le_of_mem_acceptTimes {t : Nat} (h : t ∈ x.acceptTimes ms) :
    x.host.premises.now ≤ t := by
  induction ms generalizing x with
  | nil => cases h
  | cons m ms ih =>
    rcases List.mem_append.1 h with h | h
    · exact Nat.le_of_eq (List.eq_of_mem_replicate h).symm
    · exact Nat.le_trans (x.now_le_now_play m) (ih h)

theorem pairwise_acceptTimes (x : Session) (ms : List Move) :
    (x.acceptTimes ms).Pairwise (· ≤ ·) := by
  induction ms generalizing x with
  | nil => exact List.Pairwise.nil
  | cons m ms ih =>
    refine List.pairwise_append.2 ⟨List.pairwise_replicate.2 (.inr (Nat.le_refl _)), ih _, ?_⟩
    intro s hs t ht
    rw [List.eq_of_mem_replicate hs]
    exact Nat.le_trans (x.now_le_now_play m) (now_le_of_mem_acceptTimes ht)

/-! ## a scheduler that goes on -/

/-- the worker is there, and nobody tells it to stop -/
structure GoesOn (d : Nat) (x : Session) : Prop where
  sound : x.Sound
  worker : x.host.scheduler.isAtRest = false
  cancelled : x.host.scheduler.cancelled = false
  closing : x.closing = .uncalled
  terminating : x.host.premises.lifecycle.isTerminating = false
  debounce : x.host.scheduler.debounce = d

/-- a worker that is ready for a signal -/
def IsReady (s : Scheduler) : Prop := s.worker = .looking ∨ s.worker = .listening

/-- the worker waits for a signal, and there is none -/
structure IsIdle (x : Session) : Prop where
  ready : IsReady x.host.scheduler
  queue : x.host.scheduler.queue = 0
  callers : x.host.scheduler.callers = []
  cancelled : x.host.scheduler.cancelled = false
  closing : x.closing = .uncalled
  terminating : x.host.premises.lifecycle.isTerminating = false

/-- the ways of an ordinary move while the scheduler goes on -/
inductive Step (x y : Session) : Prop where
  | calm (es : List Event) (h : x.Calm y es)
  | act (a : Act) (ha : a ≠ .stop)
      (does : Does x.host.premises.surroundings x.host.scheduler a y.host.scheduler)
      (record : y.record = x.record ++ eventsOf a)
  | endCycle (ok : Bool) (hx : x.host.scheduler.isExporting = true)
      (scheduler : y.host.scheduler = x.host.scheduler.endCycle ok)
      (record : y.record = x.record ++ [.ended ok])

theorem Sound.closing_run (h : x.Sound) (hms : ∀ m ∈ ms, m.isOrdinary = true)
    (hc : x.closing = .uncalled) : (x.run ms).closing = .uncalled := by
  induction ms generalizing x with
  | nil => exact hc
  | cons m ms ih =>
    apply ih (h.play m) fun k hk => hms k (List.mem_cons_of_mem _ hk)
    refine (h.course m).uncalled ?_ hc
    rintro rfl
    cases hms _ (List.mem_cons_self ..)

theorem debounce_run (h : Host) {b : BackupSettings} (hb : b.enabled = true) (ms : List Move) :
    ((opening h b).run ms).host.scheduler.debounce = b.debounceMs.toNat := by
  have hrun := run_induction
    (P := fun y => y.Sound ∧ y.host.scheduler.debounce = b.debounceMs.toNat)
    ⟨sound_opening h hb, rfl⟩
    (fun y m hy => ⟨hy.1.play m, (hy.1.course m).debounce.trans hy.2⟩) ms
  exact hrun.2

variable {d : Nat}

theorem GoesOn.ne_stop (h : x.GoesOn d) {a : Act} {s : Scheduler}
    (does : Does x.host.premises.surroundings x.host.scheduler a s) : a ≠ .stop := by
  rintro rfl
  cases does with
  | stop _ why =>
    rcases why with hc | ⟨-, ht⟩
    · cases h.cancelled.symm.trans hc
    · cases h.terminating.symm.trans ht

theorem GoesOn.step (h : x.GoesOn d) (hm : m.isOrdinary = true) : x.Step (x.play m) := by
  have hcall : m ≠ .shutdown := by
    rintro rfl
    cases hm
  have hclosing := (h.sound.course m).uncalled hcall h.closing
  cases h.sound.course m with
  | calm es h => exact .calm es h
  | start hc hw closing scheduler record =>
    have := h.worker
    rw [isAtRest_iff.2 (.inl hw)] at this
    cases this
  | act a hd does closing record => exact .act a (h.ne_stop does) does record
  | endCycle ok hd hx closing scheduler record => exact .endCycle ok hx scheduler record
  | shutdown hm hc closing scheduler record => cases hclosing.symm.trans closing
  | flush hc hr pending due closing scheduler record => cases hclosing.symm.trans closing
  | release hc hr r closing scheduler record => cases hclosing.symm.trans closing
  | endFlush ok pending due hc hr r closing scheduler record =>
    cases hclosing.symm.trans closing

theorem terminating_play (hm : m.isOrdinary = true)
    (ht : x.host.premises.lifecycle.isTerminating = false) :
    (x.play m).host.premises.lifecycle.isTerminating = false := by
  cases m with
  | become l => exact Bool.not_eq_true' _ ▸ hm
  | _ => rw [lifecycle_play (by simp), ht]

theorem GoesOn.play (h : x.GoesOn d) (hm : m.isOrdinary = true) : (x.play m).GoesOn d where
  sound := h.sound.play m
  closing := by
    refine (h.sound.course m).uncalled ?_ h.closing
    rintro rfl
    cases hm
  terminating := terminating_play hm h.terminating
  worker := by
    cases h.step hm with
    | calm es hc =>
      rw [isAtRest, hc.worker]
      exact h.worker
    | act a ha does record =>
      generalize (x.play m).host.scheduler = s at does
      cases does with
      | stop _ _ => exact absurd rfl ha
      | _ => rfl
    | endCycle ok hx scheduler record =>
      rw [scheduler]
      rfl
  cancelled := by
    cases h.step hm with
    | calm es hc =>
      obtain ⟨n, granted, waiting, hs⟩ := hc.scheduler
      rw [hs]
      exact h.cancelled
    | act a ha does record =>
      generalize (x.play m).host.scheduler = s at does
      cases does <;> exact h.cancelled
    | endCycle ok hx scheduler record =>
      rw [scheduler]
      exact h.cancelled
  debounce := (h.sound.course m).debounce.trans h.debounce

theorem GoesOn.run (h : x.GoesOn d) (hms : ∀ m ∈ ms, m.isOrdinary = true) :
    (x.run ms).GoesOn d := by
  induction ms generalizing x with
  | nil => exact h
  | cons m ms ih =>
    exact ih (h.play (hms m (List.mem_cons_self ..))) fun k hk => hms k (List.mem_cons_of_mem _ hk)

theorem IsIdle.goesOn (h : x.IsIdle) (hs : x.Sound) (hd : x.host.scheduler.debounce = d) :
    x.GoesOn d where
  sound := hs
  worker := IsActive.not_isAtRest (h.ready.imp id .inl)
  cancelled := h.cancelled
  closing := h.closing
  terminating := h.terminating
  debounce := hd

/-! ## the way back to rest -/

/-- some moves of the worker, with nobody who waits for a slot, lower what there is to do -/
structure Proceeds (x : Session) (more : List Move) : Prop where
  ofWorker : ∀ m ∈ more, m.isOfWorker = true
  times : x.acceptTimes more = []
  callers : (x.run more).host.scheduler.callers = []
  weight : (x.run more).host.scheduler.weight < x.host.scheduler.weight

theorem arrivals_eq_nil (h : (x.play m).host.scheduler.counters.accepted =
    x.host.scheduler.counters.accepted) : x.arrivals m = [] := by
  rw [arrivals, h, Nat.sub_self]
  rfl

theorem proceeds_act {k : Nat} {a : Act} {s : Scheduler}
    (hc : x.host.scheduler.callers = [])
    (ha : x.host.scheduler.act? (x.pass k).host.premises.surroundings = some (a, s)) :
    x.Proceeds [.pass k, .act] := by
  have hs : (x.run [.pass k, .act]).host.scheduler = s := by
    show (x.pass k).act.host.scheduler = s
    have hpass : (x.pass k).host.scheduler.act? (x.pass k).host.premises.surroundings =
        some (a, s) := ha
    rw [Session.act, hpass]
  have does := does_of_act? ha
  refine ⟨by simp [Move.isOfWorker], ?_, ?_, ?_⟩
  · have haccepted : s.counters.accepted = x.host.scheduler.counters.accepted := by
      cases does <;> rfl
    have hpass : x.arrivals (.pass k) = [] := arrivals_eq_nil rfl
    have hact : (x.play (.pass k)).arrivals .act = [] :=
      arrivals_eq_nil ((congrArg (·.counters.accepted) hs).trans haccepted)
    rw [acceptTimes, acceptTimes, hpass, hact]
    rfl
  · rw [hs]
    exact does.callers_eq_nil hc
  · rw [hs]
    exact weight_act ha

theorem proceeds_endCycle {due : Nat} (hc : x.host.scheduler.callers = [])
    (hw : x.host.scheduler.worker = .exporting due) :
    x.Proceeds [.pass (due - x.host.premises.now), .endCycle] := by
  have hx : x.host.scheduler.isExporting = true := isExporting_iff.2 ⟨due, hw⟩
  obtain ⟨ok, hs⟩ : ∃ ok, (x.run [.pass (due - x.host.premises.now), .endCycle]).host.scheduler =
      x.host.scheduler.endCycle ok := by
    have hdue : (x.pass (due - x.host.premises.now)).isDue = true := by
      have hsched : (x.pass (due - x.host.premises.now)).host.scheduler = x.host.scheduler := rfl
      have hnow : (x.pass (due - x.host.premises.now)).host.premises.now =
          x.host.premises.now + (due - x.host.premises.now) := rfl
      rw [isDue, hsched, hx, Scheduler.due?, hw, hnow]
      simp
      omega
    have hend : (x.pass (due - x.host.premises.now)).endCycle.host.scheduler =
        x.host.scheduler.endCycle
          (x.pass (due - x.host.premises.now)).host.premises.finishCycle.1.isOk := by
      rw [Session.endCycle, if_pos hdue]
      rfl
    exact ⟨_, hend⟩
  refine ⟨by simp [Move.isOfWorker], ?_, ?_, ?_⟩
  · have haccepted : (x.host.scheduler.endCycle ok).counters.accepted =
        x.host.scheduler.counters.accepted := by
      cases ok <;> rfl
    have hpass : x.arrivals (.pass (due - x.host.premises.now)) = [] := arrivals_eq_nil rfl
    have hend : (x.play (.pass (due - x.host.premises.now))).arrivals .endCycle = [] :=
      arrivals_eq_nil ((congrArg (·.counters.accepted) hs).trans haccepted)
    rw [acceptTimes, acceptTimes, hpass, hend]
    rfl
  · rw [hs]
    exact hc
  · rw [hs]
    exact weight_endCycle ok hx

/-- a worker that is not at rest has something to do, if only after some time -/
theorem GoesOn.idle_or_proceeds (h : x.GoesOn d) (hc : x.host.scheduler.callers = []) :
    x.IsIdle ∨ ∃ more, x.Proceeds more := by
  have hidle (hw : x.host.scheduler.worker = .listening) (hq : x.host.scheduler.queue = 0) :
      x.IsIdle := ⟨.inr hw, hq, hc, h.cancelled, h.closing, h.terminating⟩
  -- by then what the worker waits for is due
  cases ha : x.host.scheduler.act? (x.pass
      (x.host.scheduler.due?.getD 0 - x.host.premises.now)).host.premises.surroundings with
  | some p => exact .inr ⟨_, proceeds_act hc ha⟩
  | none =>
    rcases of_act?_eq_none ha with hr | ⟨due, hw⟩ | ⟨hw, hq⟩ | ⟨wake, hw, hlt⟩
    · cases h.worker.symm.trans hr
    · exact .inr ⟨_, proceeds_endCycle hc hw⟩
    · exact .inl (hidle hw hq)
    · have hnow : x.host.premises.now + (wake - x.host.premises.now) < wake := by
        rw [Scheduler.due?, hw] at hlt
        exact hlt
      omega

theorem Proceeds.isOrdinary {more : List Move} (h : x.Proceeds more) :
    ∀ m ∈ more, m.isOrdinary = true := by
  intro m hm
  have := h.ofWorker m hm
  cases m <;> first | rfl | cases this

/-- without signals from outside, the worker comes to rest -/
theorem GoesOn.exists_run_idle (h : x.GoesOn d) (hc : x.host.scheduler.callers = []) :
    ∃ more, (∀ m ∈ more, m.isOfWorker = true) ∧ x.acceptTimes more = [] ∧
      (x.run more).IsIdle := by
  induction hw : x.host.scheduler.weight using Nat.strongRecOn generalizing x with
  | ind w ih =>
    rcases h.idle_or_proceeds hc with hidle | ⟨as, has⟩
    · exact ⟨[], fun m hm => absurd hm List.not_mem_nil, rfl, hidle⟩
    · obtain ⟨bs, hbs, htimes, hidle⟩ :=
        ih _ (hw ▸ has.weight) (h.run has.isOrdinary) has.callers rfl
      refine ⟨as ++ bs, ?_, ?_, ?_⟩
      · intro m hm
        rcases List.mem_append.1 hm with hm | hm
        · exact has.ofWorker m hm
        · exact hbs m hm
      · rw [acceptTimes_append, has.times, htimes]
        rfl
      · rw [run_append]
        exact hidle

end Session

end ConfigReconcile
