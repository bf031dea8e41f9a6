import ConfigReconcile.Host.Command

/-!
# Sessions: one scheduler under any order of moves

`Host` lets its schedulers take turns in one fixed order.  A SESSION leaves the order open: at each
moment any party may be the next to move,

* `call`, `save`           somebody sends a signal, or tells a listener of a save;
* `start`                  somebody starts the worker;
* `act`, `endCycle`        the worker goes on, or ends the cycle whose export is there;
* `enter`                  the first caller who has been granted a slot puts its signal into it;
* `pass`, `become`, `change`   time passes, the host gets ready or terminates, and others use the
                           exporter and the store;
* `shutdown`, `drain`, `endFlush`   the three stretches of a shutdown, which waits for the worker
                           before the second and for an export before the third.

A move that its party cannot make changes nothing, so every list of moves is a run.  What happens to
signals and cycles is written into a record, in order.
-/

namespace ConfigReconcile

namespace Scheduler

/-- the first caller who has a slot puts its signal into the queue -/
def enter (s : Scheduler) : Scheduler :=
  match s.granted with
  | [] => s
  | _ :: rest =>
    { s with
      queue := s.queue + 1
      counters := { s.counters with accepted := s.counters.accepted + 1 }
      granted := rest }

end Scheduler

inductive Event where
  /-- a call is answered, in the same moment in which its signal comes into the queue if accepted -/
  | answered (c : Caller) (accepted : Bool)
  /-- the worker has taken a signal and lets others gather -/
  | gathered
  /-- a cycle begins its export -/
  | began
  | ended (ok : Bool)
  /-- the shutdown returns -/
  | returned
  deriving DecidableEq, Repr

/-- how far the shutdown of a scheduler is -/
inductive Closing where
  | uncalled
  /-- the worker has been told to stop -/
  | stopping
  /-- the queue is closed, and a cycle runs for what was in it -/
  | flushing (pending due : Nat)
  | over (report : ShutdownReport)

inductive Move where
  | call (c : Caller)
  | save (k : SaveKind)
  | start
  | act
  | endCycle
  | enter
  | pass (ms : Nat)
  | become (l : Lifecycle)
  | change (p : Premises)
  | shutdown
  | drain
  | endFlush

structure Session where
  host : Host
  closing : Closing := .uncalled
  record : List Event := []

namespace Host

/-- the cycle of a shutdown begins -/
def beginFlush (h : Host) : Host :=
  { h with
    scheduler := { h.scheduler with status := .exporting }
    premises := { h.premises with exporter := h.premises.exporter.call } }

/-- the shutdown returns -/
def release (h : Host) : Host :=
  { h with scheduler := { h.scheduler with status := .stopped }, held := false }

end Host

namespace Session

/-- a new scheduler in a host -/
def opening (h : Host) (b : BackupSettings) : Session where
  host := { h with scheduler := .ofSettings b, held := true }

/-! ## calls -/

def answer (c : Caller) : Scheduler.Reply → List Event
  | .accepted => [.answered c true]
  | .waiting => []
  | .refused => [.answered c false]

def call (x : Session) (c : Caller) : Session :=
  { x with
    host := x.host.call c
    record := x.record ++ answer c (x.host.scheduler.signal c).1 }

def save (x : Session) (k : SaveKind) : Session :=
  if x.host.heeds k then x.call .listener
  else { x with host := x.host.save k, record := x.record ++ [.answered .listener false] }

def enter (x : Session) : Session :=
  match x.host.scheduler.granted with
  | [] => x
  | c :: _ =>
    { x with
      host := { x.host with
        scheduler := x.host.scheduler.enter
        premises := x.host.premises.note true c }
      record := x.record ++ [.answered c true] }

/-! ## the worker -/

/-- nobody can start a scheduler that is being shut down -/
def start (x : Session) : Session :=
  match x.closing, x.host.scheduler.start with
  | .uncalled, .ok s => { x with host := { x.host with scheduler := s } }
  | _, _ => x

def eventsOf : Scheduler.Act → List Event
  | .begin => [.began]
  | .gather => [.gathered]
  | _ => []

/-- around the worker, an act changes only the number of exports -/
def afterAct (p : Premises) : Scheduler.Act → Premises
  | .begin => { p with exporter := p.exporter.call }
  | _ => p

def act (x : Session) : Session :=
  match x.host.scheduler.act? x.host.premises.surroundings with
  | none => x
  | some (a, s) =>
    { x with
      host := { x.host with scheduler := s, premises := afterAct x.host.premises a }
      record := x.record ++ eventsOf a }

/-- whether the worker is in a cycle whose export is there -/
def isDue (x : Session) : Bool :=
  x.host.scheduler.isExporting && x.host.scheduler.due?.any (· ≤ x.host.premises.now)

def endCycle (x : Session) : Session :=
  if x.isDue then
    let (r, p) := x.host.premises.finishCycle
    { x with
      host := { x.host with scheduler := x.host.scheduler.endCycle r.isOk, premises := p }
      record := x.record ++ [.ended r.isOk] }
  else x

/-! ## around the scheduler -/

def pass (x : Session) (ms : Nat) : Session :=
  { x with host := x.host.atTime (x.host.premises.now + ms) }

def become (x : Session) (l : Lifecycle) : Session :=
  { x with host := x.host.modifyLifecycle fun _ => l }

/-- others change what they like, but for the clock and the host itself -/
def change (x : Session) (p : Premises) : Session :=
  let now := x.host.premises.now
  let lifecycle := x.host.premises.lifecycle
  { x with host := { x.host with premises := { p with now, lifecycle } } }

/-! ## the shutdown -/

def shutdown (x : Session) : Session :=
  match x.closing with
  | .uncalled =>
    { x with host := { x.host with scheduler := x.host.scheduler.cancel }, closing := .stopping }
  | _ => x

/-- whether there are signals for which a cycle has to be run -/
def mustFlush (s : Scheduler) : Bool := s.enabled && s.queue ≠ 0

/-- the queue is closed, and a cycle begins if anything was in it -/
def drain (x : Session) : Session :=
  match x.closing with
  | .stopping =>
    if x.host.scheduler.isAtRest then
      let (pending, h) := x.host.drain
      let record := x.record ++ x.host.scheduler.callers.map (.answered · false)
      if mustFlush x.host.scheduler then
        { host := h.beginFlush
          closing := .flushing pending (h.premises.now + h.premises.exporter.delay)
          record := record ++ [.began] }
      else
        { host := h.release
          closing := .over ⟨pending, none⟩
          record := record ++ [.returned] }
    else x
  | _ => x

def endFlush (x : Session) : Session :=
  match x.closing with
  | .flushing pending due =>
    if due ≤ x.host.premises.now then
      let (r, p) := x.host.premises.finishCycle
      let s := x.host.scheduler.countCycle r.isOk
      { host := Host.release { x.host with scheduler := s, premises := p }
        closing := .over ⟨pending, some r⟩
        record := x.record ++ [.ended r.isOk, .returned] }
    else x
  | _ => x

section
variable {x : Session}

theorem drain_of_pending (hc : x.closing = .stopping) (hr : x.host.scheduler.isAtRest = true)
    (hf : mustFlush x.host.scheduler = true) :
    x.drain = {
      host := x.host.drain.2.beginFlush
      closing := .flushing x.host.drain.1
        (x.host.drain.2.premises.now + x.host.drain.2.premises.exporter.delay)
      record := x.record ++ x.host.scheduler.callers.map (.answered · false) ++ [.began] } := by
  rw [drain, hc]
  dsimp only
  rw [if_pos hr, if_pos hf]

theorem drain_of_empty (hc : x.closing = .stopping) (hr : x.host.scheduler.isAtRest = true)
    (hf : mustFlush x.host.scheduler = false) :
    x.drain = {
      host := x.host.drain.2.release
      closing := .over ⟨x.host.drain.1, none⟩
      record := x.record ++ x.host.scheduler.callers.map (.answered · false) ++ [.returned] } := by
  rw [drain, hc]
  dsimp only
  rw [if_pos hr, if_neg (Bool.eq_false_iff.1 hf)]

theorem endFlush_of_due {pending due : Nat} (hc : x.closing = .flushing pending due)
    (hdue : due ≤ x.host.premises.now) :
    x.endFlush = {
      host := Host.release { x.host with
        scheduler := x.host.scheduler.countCycle x.host.premises.finishCycle.1.isOk
        premises := x.host.premises.finishCycle.2 }
      closing := .over ⟨pending, some x.host.premises.finishCycle.1⟩
      record := x.record ++ [.ended x.host.premises.finishCycle.1.isOk, .returned] } := by
  rw [endFlush, hc]
  dsimp only
  rw [if_pos hdue]

end

/-! ## runs -/

def play (x : Session) : Move → Session
  | .call c => x.call c
  | .save k => x.save k
  | .start => x.start
  | .act => x.act
  | .endCycle => x.endCycle
  | .enter => x.enter
  | .pass ms => x.pass ms
  | .become l => x.become l
  | .change p => x.change p
  | .shutdown => x.shutdown
  | .drain => x.drain
  | .endFlush => x.endFlush

def run (x : Session) (ms : List Move) : Session := ms.foldl play x

theorem run_cons (x : Session) (m : Move) (ms : List Move) :
    x.run (m :: ms) = (x.play m).run ms := rfl

theorem run_append (x : Session) (a b : List Move) : x.run (a ++ b) = (x.run a).run b :=
  List.foldl_append

/-- what every move keeps, every run keeps -/
theorem run_induction {P : Session → Prop} {x : Session} (hx : P x)
    (hplay : ∀ y m, P y → P (y.play m)) (ms : List Move) : P (x.run ms) := by
  induction ms generalizing x with
  | nil => exact hx
  | cons m ms ih => exact ih (hplay x m hx)

end Session

end ConfigReconcile
