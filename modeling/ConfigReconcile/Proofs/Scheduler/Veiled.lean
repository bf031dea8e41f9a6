import ConfigReconcile.Proofs.Scheduler.Conservation

/-!
# What does not depend on how cycles end

`Session.veiled` is a session without all that only a cycle reads or writes, and without how cycles
have ended: of the premises only the clock, the lifecycle and the time that an export takes are
left, and cycles are counted whether they have ended well or not.

* `Session.play_veiled`   no move looks behind the veil;
* `Session.run_congr`, `Session.ledgerFrom_congr`   so sessions that are the same before it stay so
                          in every run, with the same ledger of calls;
* `Session.view`          what is seen of a session, all of it before the veil;
* `Session.SameToSee`     the same is seen of two runs.
-/

namespace ConfigReconcile

/-! ## veils -/

/-- all cycles count as ended well -/
def Scheduler.veiled (s : Scheduler) : Scheduler :=
  { s with
    counters := { s.counters with
      completed := s.counters.completed + s.counters.failed
      failed := 0 } }

/-- premises with nothing in them -/
def Premises.blank (delay : Nat) : Premises where
  cycle := default
  site := default
  exporter := { document := [], delay }
  lifecycle := .always
  readings := fun _ => default

def Premises.veiled (p : Premises) : Premises :=
  { blank p.exporter.delay with now := p.now, lifecycle := p.lifecycle }

/-- the schedulers that leave have no part in a session -/
def Host.veiled (h : Host) : Host where
  backup := default
  paths := default
  premises := h.premises.veiled
  scheduler := h.scheduler.veiled
  held := h.held

def Event.veiled : Event → Event
  | .ended _ => .ended true
  | e => e

def Closing.veiled : Closing → Closing
  | .over r => .over { r with flush := r.flush.map fun _ => .error .stopped }
  | c => c

/-- of what others change only the time that an export takes is seen -/
def Move.veiled : Move → Move
  | .change p => .change (.blank p.exporter.delay)
  | m => m

def Session.veiled (x : Session) : Session where
  host := x.host.veiled
  closing := x.closing.veiled
  record := x.record.map .veiled

/-! ## what is seen -/

/-- the answer to a call -/
def Event.answer? : Event → Option (Caller × Bool)
  | .answered c ok => some (c, ok)
  | _ => none

/-- what is seen of a scheduler at one moment -/
structure View where
  now : Nat
  status : Scheduler.Status
  accepted : Nat
  rounds : Nat
  /-- cycles that have ended, well or not -/
  cycles : Nat
  /-- the calls that were answered so far -/
  answers : List (Caller × Bool)
  /-- how many signals the shutdown has found in the queue, and whether it ran a cycle for them -/
  report? : Option (Nat × Bool)
  deriving DecidableEq, Repr

/-- what is seen of a session -/
def Session.view (x : Session) : View where
  now := x.host.premises.now
  status := x.host.scheduler.status
  accepted := x.host.scheduler.counters.accepted
  rounds := x.host.scheduler.counters.rounds
  cycles := x.host.scheduler.counters.completed + x.host.scheduler.counters.failed
  answers := x.record.filterMap Event.answer?
  report? :=
    match x.closing with
    | .over r => some (r.pending, r.flush.isSome)
    | _ => none

/-! ## schedulers and premises -/

namespace Scheduler

theorem signal_veiled (s : Scheduler) (c : Caller) :
    s.veiled.signal c = ((s.signal c).1, (s.signal c).2.veiled) := by
  show (if !s.enabled then _ else if s.closed then _ else if s.isFull then _ else _) = _
  unfold signal
  split
  · rfl
  · split
    · rfl
    · split <;> rfl

theorem start_veiled (s : Scheduler) : s.veiled.start = s.start.map veiled := by
  show (if !s.enabled then _ else if s.worker ≠ .absent then _ else _) = _
  unfold start
  split
  · rfl
  · split <;> rfl

theorem act?_veiled (s : Scheduler) (e : Surroundings) :
    s.veiled.act? e = (s.act? e).map fun q => (q.1, q.2.veiled) := by
  have hworker : s.veiled.worker = s.worker := rfl
  unfold act?
  rw [hworker]
  cases s.worker with
  | absent | ended | exporting _ => rfl
  | _ =>
    simp only [apply_ite (Option.map _)]
    rfl

theorem enter_veiled (s : Scheduler) : s.veiled.enter = s.enter.veiled := by
  have hgranted : s.veiled.granted = s.granted := rfl
  unfold enter
  rw [hgranted]
  cases s.granted <;> rfl

theorem countCycle_veiled (s : Scheduler) (a b : Bool) :
    (s.veiled.countCycle a).veiled = (s.countCycle b).veiled := by
  have hleft (n m : Nat) : n + 1 + m = n + m + 1 := by omega
  cases a <;> cases b <;>
    simp only [countCycle, veiled, Bool.false_eq_true, reduceIte, hleft, Nat.add_zero, Nat.zero_add,
      Nat.add_assoc]

theorem endCycle_veiled (s : Scheduler) (a b : Bool) :
    (s.veiled.endCycle a).veiled = (s.endCycle b).veiled :=
  congrArg (fun s : Scheduler => { s with worker := .looking }) (s.countCycle_veiled a b)

end Scheduler

namespace Premises

variable {p p' : Premises}

theorem veiled_veiled (p : Premises) : p.veiled.veiled = p.veiled := rfl

theorem note_congr (hp : p.veiled = p'.veiled) (b : Bool) (c : Caller) :
    (p.note b c).veiled = (p'.note b c).veiled := by
  cases c <;> exact hp

theorem noteAll_congr (hp : p.veiled = p'.veiled) (b : Bool) (cs : List Caller) :
    (p.noteAll b cs).veiled = (p'.noteAll b cs).veiled := by
  induction cs generalizing p p' with
  | nil => exact hp
  | cons c cs ih => exact ih (note_congr hp b c)

theorem finishCycle_veiled (p : Premises) : p.finishCycle.2.veiled = p.veiled := by
  have hdelay : p.exporter.deliver.2.delay = p.exporter.delay := by
    unfold Exporter.deliver
    split <;> rfl
  unfold finishCycle
  dsimp only
  split <;> simp only [veiled, hdelay]

/-- nothing that a cycle does is seen -/
theorem finishCycle_congr (hp : p.veiled = p'.veiled) :
    p.finishCycle.2.veiled = p'.finishCycle.2.veiled := by
  rw [finishCycle_veiled, finishCycle_veiled, hp]

end Premises

/-! ## moves -/

theorem Event.map_veiled_append (es fs : List Event) :
    (es.map veiled ++ fs).map veiled = (es ++ fs).map veiled := by
  have hveil : veiled ∘ veiled = veiled := by
    funext e
    cases e <;> rfl
  rw [List.map_append, List.map_append, List.map_map, hveil]

namespace Host

variable {h h' : Host}

theorem veiled_ext (hs : h.scheduler.veiled = h'.scheduler.veiled)
    (hp : h.premises.veiled = h'.premises.veiled) (hheld : h.held = h'.held) :
    h.veiled = h'.veiled := by
  unfold veiled
  rw [hs, hp, hheld]

theorem call_veiled (h : Host) (c : Caller) : (h.veiled.call c).veiled = (h.call c).veiled := by
  have hsignal : h.veiled.scheduler.signal c = _ := h.scheduler.signal_veiled c
  unfold Host.call
  rw [hsignal]
  dsimp only
  cases (h.scheduler.signal c).1 with
  | waiting => rfl
  | _ =>
    refine veiled_ext ?_ ?_ ?_
    · rfl
    · exact Premises.note_congr h.premises.veiled_veiled _ c
    · rfl

theorem save_veiled (h : Host) (k : SaveKind) : (h.veiled.save k).veiled = (h.save k).veiled := by
  have hheeds : h.veiled.heeds k = h.heeds k := rfl
  unfold Host.save
  rw [hheeds]
  split
  · exact h.call_veiled .listener
  · rfl

end Host

namespace Session

open Scheduler

variable {x y : Session} {l : Ledger}

theorem veiled_ext (hhost : x.host.veiled = y.host.veiled)
    (hclosing : x.closing.veiled = y.closing.veiled)
    (hrecord : x.record.map Event.veiled = y.record.map Event.veiled) : x.veiled = y.veiled := by
  unfold veiled
  rw [hhost, hclosing, hrecord]

theorem closing_veiled_veiled (c : Closing) : c.veiled.veiled = c.veiled := by
  rcases c with _ | _ | _ | ⟨pending, _ | flush⟩ <;> rfl

theorem veiled_veiled (x : Session) : x.veiled.veiled = x.veiled := by
  refine veiled_ext rfl (closing_veiled_veiled x.closing) ?_
  have hrecord := Event.map_veiled_append x.record []
  rwa [List.append_nil, List.append_nil] at hrecord

theorem call_veiled (x : Session) (c : Caller) : (x.veiled.call c).veiled = (x.call c).veiled := by
  apply veiled_ext (x.host.call_veiled c) (closing_veiled_veiled x.closing)
  show (x.record.map Event.veiled ++ answer c (x.host.scheduler.veiled.signal c).1).map _ = _
  rw [signal_veiled]
  exact Event.map_veiled_append _ _

theorem save_veiled (x : Session) (k : SaveKind) :
    (x.veiled.save k).veiled = (x.save k).veiled := by
  have hheeds : x.veiled.host.heeds k = x.host.heeds k := rfl
  unfold Session.save
  rw [hheeds]
  split
  · exact x.call_veiled .listener
  · exact veiled_ext (x.host.save_veiled k) (closing_veiled_veiled x.closing)
      (Event.map_veiled_append _ _)

theorem start_veiled (x : Session) : x.veiled.start.veiled = x.start.veiled := by
  have hstart : x.veiled.host.scheduler.start = _ := x.host.scheduler.start_veiled
  have hclosing : x.veiled.closing = x.closing.veiled := rfl
  unfold Session.start
  rw [hstart, hclosing]
  cases hc : x.closing with
  | uncalled =>
    cases x.host.scheduler.start with
    | ok s => exact veiled_ext rfl rfl (congrArg record x.veiled_veiled)
    | error e => exact x.veiled_veiled
  | _ => exact x.veiled_veiled

theorem act_veiled (x : Session) : x.veiled.act.veiled = x.act.veiled := by
  have hact : x.veiled.host.scheduler.act? x.veiled.host.premises.surroundings = _ :=
    x.host.scheduler.act?_veiled x.host.premises.surroundings
  unfold Session.act
  rw [hact]
  cases x.host.scheduler.act? x.host.premises.surroundings with
  | none => exact x.veiled_veiled
  | some q =>
    refine veiled_ext ?_ (closing_veiled_veiled x.closing) (Event.map_veiled_append _ _)
    obtain ⟨a, s⟩ := q
    cases a <;> rfl

theorem endCycle_veiled (x : Session) : x.veiled.endCycle.veiled = x.endCycle.veiled := by
  have hdue : x.veiled.isDue = x.isDue := rfl
  unfold Session.endCycle
  rw [hdue]
  split
  · refine veiled_ext (Host.veiled_ext ?_ ?_ ?_) (closing_veiled_veiled x.closing) ?_
    · exact x.host.scheduler.endCycle_veiled _ _
    · exact Premises.finishCycle_congr x.host.premises.veiled_veiled
    · rfl
    · exact (Event.map_veiled_append _ _).trans (by simp [Event.veiled])
  · exact x.veiled_veiled

theorem enter_veiled (x : Session) : x.veiled.enter.veiled = x.enter.veiled := by
  have hgranted : x.veiled.host.scheduler.granted = x.host.scheduler.granted := rfl
  unfold Session.enter
  rw [hgranted]
  cases x.host.scheduler.granted with
  | nil => exact x.veiled_veiled
  | cons c cs =>
    refine veiled_ext (Host.veiled_ext ?_ ?_ ?_) (closing_veiled_veiled x.closing)
      (Event.map_veiled_append _ _)
    · exact (congrArg Scheduler.veiled x.host.scheduler.enter_veiled :)
    · exact Premises.note_congr x.host.premises.veiled_veiled true c
    · rfl

theorem shutdown_veiled (x : Session) : x.veiled.shutdown.veiled = x.shutdown.veiled := by
  have hclosing : x.veiled.closing = x.closing.veiled := rfl
  unfold Session.shutdown
  rw [hclosing]
  cases x.closing with
  | uncalled => exact veiled_ext rfl rfl (congrArg record x.veiled_veiled)
  | _ => exact x.veiled_veiled

theorem drain_veiled (x : Session) : x.veiled.drain.veiled = x.drain.veiled := by
  have hrest : x.veiled.host.scheduler.isAtRest = x.host.scheduler.isAtRest := rfl
  have hpremises : x.veiled.host.drain.2.premises.veiled = x.host.drain.2.premises.veiled :=
    Premises.noteAll_congr x.host.premises.veiled_veiled false x.host.scheduler.callers
  cases hc : x.closing with
  | stopping =>
    have hc' : x.veiled.closing = .stopping := congrArg Closing.veiled hc
    cases hr : x.host.scheduler.isAtRest with
    | true =>
      cases hf : mustFlush x.host.scheduler with
      | true =>
        rw [drain_of_pending hc' hr hf, drain_of_pending hc hr hf]
        refine veiled_ext (Host.veiled_ext ?_ ?_ ?_) ?_ ?_
        · rfl
        · exact hpremises
        · rfl
        · exact congrArg (Closing.flushing x.host.scheduler.queue)
            (congrArg (fun p : Premises => p.now + p.exporter.delay) hpremises :)
        · rw [List.append_assoc, List.append_assoc]
          exact Event.map_veiled_append _ _
      | false =>
        rw [drain_of_empty hc' hr hf, drain_of_empty hc hr hf]
        refine veiled_ext (Host.veiled_ext ?_ ?_ ?_) ?_ ?_
        · rfl
        · exact hpremises
        · rfl
        · rfl
        · rw [List.append_assoc, List.append_assoc]
          exact Event.map_veiled_append _ _
    | false =>
      unfold Session.drain
      rw [hc', hc, hrest, hr]
      exact x.veiled_veiled
  | _ =>
    have hc' : x.veiled.closing = _ := congrArg Closing.veiled hc
    unfold Session.drain
    rw [hc', hc]
    exact x.veiled_veiled

theorem endFlush_veiled (x : Session) : x.veiled.endFlush.veiled = x.endFlush.veiled := by
  cases hc : x.closing with
  | flushing pending due =>
    have hc' : x.veiled.closing = .flushing pending due := congrArg Closing.veiled hc
    by_cases hdue : due ≤ x.host.premises.now
    · rw [endFlush_of_due hc' hdue, endFlush_of_due hc hdue]
      refine veiled_ext (Host.veiled_ext ?_ ?_ ?_) ?_ ?_
      · exact congrArg (fun s : Scheduler => { s with status := .stopped })
          (x.host.scheduler.countCycle_veiled _ _)
      · dsimp only [Host.release]
        exact Premises.finishCycle_congr x.host.premises.veiled_veiled
      · rfl
      · simp only [Closing.veiled, Option.map_some]
      · exact (Event.map_veiled_append _ _).trans (by simp [Event.veiled])
    · have hdue' : ¬due ≤ x.veiled.host.premises.now := hdue
      unfold Session.endFlush
      rw [hc', hc]
      dsimp only
      rw [if_neg hdue, if_neg hdue']
      exact x.veiled_veiled
  | _ =>
    have hc' : x.veiled.closing = _ := congrArg Closing.veiled hc
    unfold Session.endFlush
    rw [hc', hc]
    exact x.veiled_veiled

/-- no move looks behind the veil -/
theorem play_veiled (x : Session) (m : Move) :
    (x.veiled.play m.veiled).veiled = (x.play m).veiled := by
  cases m with
  | call c => exact x.call_veiled c
  | save k => exact x.save_veiled k
  | start => exact x.start_veiled
  | act => exact x.act_veiled
  | endCycle => exact x.endCycle_veiled
  | enter => exact x.enter_veiled
  | shutdown => exact x.shutdown_veiled
  | drain => exact x.drain_veiled
  | endFlush => exact x.endFlush_veiled
  | _ => exact veiled_ext rfl (closing_veiled_veiled x.closing) (congrArg record x.veiled_veiled)

/-! ## runs -/

variable {m n : Move} {ms ns : List Move}

theorem play_congr (hx : x.veiled = y.veiled) (hm : m.veiled = n.veiled) :
    (x.play m).veiled = (y.play n).veiled := by
  rw [← x.play_veiled, ← y.play_veiled, hx, hm]

/-- sessions that are the same before the veil stay so -/
theorem run_congr (hx : x.veiled = y.veiled) (hms : ms.map Move.veiled = ns.map Move.veiled) :
    (x.run ms).veiled = (y.run ns).veiled := by
  induction ms generalizing x y ns with
  | nil =>
    rw [List.map_nil] at hms
    rw [List.map_eq_nil_iff.1 hms.symm]
    exact hx
  | cons m ms ih =>
    obtain ⟨n, ns, rfl, hm, hms⟩ := List.map_eq_cons_iff.1 hms.symm
    show ((x.play m).run ms).veiled = ((y.play n).run ns).veiled
    exact ih (play_congr hx hm.symm) hms.symm

theorem note_veiled (x : Session) (l : Ledger) (m : Move) :
    x.veiled.note l m.veiled = x.note l m := by
  have hsignal (c : Caller) :
      (x.veiled.host.scheduler.signal c).1 = (x.host.scheduler.signal c).1 :=
    (congrArg Prod.fst (x.host.scheduler.signal_veiled c) :)
  cases m with
  | call c => exact congrArg l.call (hsignal c)
  | save k =>
    have hheeds : x.veiled.host.heeds k = x.host.heeds k := rfl
    simp only [Move.veiled, Session.note, hheeds, hsignal]
  | act =>
    have hact : x.veiled.host.scheduler.act? x.veiled.host.premises.surroundings = _ :=
      x.host.scheduler.act?_veiled x.host.premises.surroundings
    simp only [Move.veiled, Session.note, hact]
    cases x.host.scheduler.act? x.host.premises.surroundings <;> rfl
  | drain =>
    have hclosing : x.veiled.closing = x.closing.veiled := rfl
    simp only [Move.veiled, Session.note, hclosing]
    cases x.closing <;> rfl
  | _ => rfl

theorem ledgerFrom_congr (hx : x.veiled = y.veiled)
    (hms : ms.map Move.veiled = ns.map Move.veiled) : x.ledgerFrom l ms = y.ledgerFrom l ns := by
  induction ms generalizing x y l ns with
  | nil =>
    rw [List.map_nil] at hms
    rw [List.map_eq_nil_iff.1 hms.symm]
    rfl
  | cons m ms ih =>
    obtain ⟨n, ns, rfl, hm, hms⟩ := List.map_eq_cons_iff.1 hms.symm
    have hnote : x.note l m = y.note l n := by rw [← note_veiled, ← y.note_veiled, hx, hm]
    show (x.play m).ledgerFrom (x.note l m) ms = (y.play n).ledgerFrom (y.note l n) ns
    rw [hnote]
    exact ih (play_congr hx hm.symm) hms.symm

/-! ## two runs -/

theorem view_veiled (x : Session) : x.veiled.view = x.view := by
  have hanswers : x.veiled.record.filterMap Event.answer? = x.record.filterMap Event.answer? := by
    have hanswer : Event.answer? ∘ Event.veiled = Event.answer? := by
      funext e
      cases e <;> rfl
    show (x.record.map Event.veiled).filterMap _ = _
    rw [List.filterMap_map, hanswer]
  have hreport : x.veiled.view.report? = x.view.report? := by
    show (match x.closing.veiled with | .over r => some (r.pending, r.flush.isSome) | _ => none) = _
    unfold view
    rcases x.closing with _ | _ | _ | ⟨pending, _ | flush⟩ <;> rfl
  show View.mk _ _ _ _ _ (x.veiled.record.filterMap _) x.veiled.view.report? = _
  rw [hanswers, hreport]
  rfl

/-- the same is seen of two runs at every moment, and each call gets the same answer -/
structure SameToSee (x y : Session) (ms ns : List Move) : Prop where
  view : ∀ n, (x.run (ms.take n)).view = (y.run (ns.take n)).view
  ledger : x.ledger ms = y.ledger ns

theorem sameToSee_of_veiled {ms ns : List Move} (hxy : x.veiled = y.veiled)
    (hms : ms.map Move.veiled = ns.map Move.veiled) : x.SameToSee y ms ns where
  view n := by
    have htake : (ms.take n).map Move.veiled = (ns.take n).map Move.veiled := by
      rw [List.map_take, List.map_take, hms]
    rw [← view_veiled, run_congr hxy htake, view_veiled]
  ledger := ledgerFrom_congr hxy hms

end Session

end ConfigReconcile
