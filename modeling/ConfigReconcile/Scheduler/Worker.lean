import ConfigReconcile.Scheduler.Basic

/-!
# The worker of a scheduler

`Scheduler.act?` is the next thing that the worker does by itself, if it does not wait.  Before each
signal it looks whether it has to stop, because it is cancelled or the host terminates.  It takes
one signal.  If the queue holds more, it counts a ROUND and lets signals gather for a while, and
looks again; if the queue is empty, it begins a cycle.

A worker that waits for a signal does not notice that the host terminates, but at once that it is
cancelled.  A cycle that has begun is always brought to its end (`endCycle`).

`weight` bounds how much a worker can do before it needs signals from outside: every act lowers it.
-/

namespace ConfigReconcile.Scheduler

/-- what a worker does -/
inductive Act where
  /-- it will do nothing any more -/
  | stop
  /-- it is ready for a signal -/
  | listen
  /-- it has taken a signal, and others are in the queue -/
  | gather
  /-- it has taken the last signal and begins a cycle -/
  | begin
  /-- it has slept enough -/
  | wake
  deriving DecidableEq, Repr, Inhabited

/-- how things are around a worker -/
structure Surroundings where
  now : Nat
  terminating : Bool
  /-- how long an export takes -/
  delay : Nat
  deriving DecidableEq, Repr, Inhabited

def stop (s : Scheduler) : Scheduler := { s with status := .stopped, worker := .ended }

/-- without one signal; its slot is granted to the first that waits -/
def take (s : Scheduler) : Scheduler :=
  { s with
    queue := s.queue - 1
    granted := s.granted ++ s.waiting.take 1
    waiting := s.waiting.drop 1 }

/-- gathers signals until a time -/
def gather (s : Scheduler) (wake : Nat) : Scheduler :=
  { s with
    status := .coalescing
    worker := .sleeping wake
    counters := { s.counters with rounds := s.counters.rounds + 1 } }

/-- begins a cycle -/
def begin (s : Scheduler) (due : Nat) : Scheduler :=
  { s with status := .exporting, worker := .exporting due }

/-- the next act of a worker that does not wait -/
def act? (e : Surroundings) (s : Scheduler) : Option (Act × Scheduler) :=
  match s.worker with
  | .looking =>
    if s.cancelled || e.terminating then some (.stop, s.stop)
    else some (.listen, { s with status := .idle, worker := .listening })
  | .listening =>
    if s.cancelled then some (.stop, s.stop)
    else if s.queue = 0 then none
    else
      let s := s.take
      if s.queue = 0 then some (.begin, s.begin (e.now + e.delay))
      else some (.gather, s.gather (e.now + s.debounce))
  | .sleeping wake =>
    if s.cancelled then some (.stop, s.stop)
    else if wake ≤ e.now then some (.wake, { s with worker := .looking })
    else none
  | _ => none

/-- ends the cycle of the worker, which looks again -/
def endCycle (s : Scheduler) (ok : Bool) : Scheduler :=
  { s.countCycle ok with worker := .looking }

/-- the time that a worker waits for -/
def due? (s : Scheduler) : Option Nat :=
  match s.worker with
  | .sleeping wake => some wake
  | .exporting due => some due
  | _ => none

/-- whether the worker is in a cycle -/
def isExporting (s : Scheduler) : Bool :=
  match s.worker with
  | .exporting _ => true
  | _ => false

/-- whether there is no worker, or none any more -/
def isAtRest (s : Scheduler) : Bool := s.worker = .absent || s.worker = .ended

/-! ## how much there is to do -/

def Worker.weight : Worker → Nat
  | .absent => 0
  | .ended => 0
  | .listening => 1
  | .looking => 2
  | .sleeping _ => 3
  | .exporting _ => 3

def weight (s : Scheduler) : Nat :=
  s.worker.weight + 3 * s.queue + 4 * s.granted.length + 4 * s.waiting.length +
    (!s.closed).toNat

/-- the weight of many -/
def totalWeight : List Scheduler → Nat
  | [] => 0
  | s :: ss => s.weight + totalWeight ss

theorem weight_act {e : Surroundings} {s s' : Scheduler} {a : Act} (h : s.act? e = some (a, s')) :
    s'.weight < s.weight := by
  unfold act? at h
  split at h
  · next hw =>
    split at h <;> cases h <;> simp only [weight, stop, hw, Worker.weight] <;> omega
  · next hw =>
    split at h
    · cases h
      simp only [weight, stop, hw, Worker.weight]
      omega
    · split at h
      · cases h
      · next hq =>
        have ht : (s.waiting.take 1).length + (s.waiting.drop 1).length = s.waiting.length := by
          simp; omega
        simp only at h
        split at h <;> cases h <;>
          simp only [weight, take, begin, gather, hw, Worker.weight, List.length_append] <;> omega
  · next hw =>
    split at h
    · cases h
      simp only [weight, stop, hw, Worker.weight]
      omega
    · split at h
      · cases h
        simp only [weight, hw, Worker.weight]
        omega
      · cases h
  · cases h

theorem weight_endCycle {s : Scheduler} (ok : Bool) (h : s.isExporting = true) :
    (s.endCycle ok).weight < s.weight := by
  unfold isExporting at h
  split at h
  · next hw => simp [weight, endCycle, countCycle, hw, Worker.weight]
  · cases h

theorem weight_arrive {s : Scheduler} (h : s.granted ≠ []) : s.arrive.weight < s.weight := by
  have := List.length_pos_iff.2 h
  simp only [weight, arrive, List.length_nil]
  omega

theorem weight_close {s : Scheduler} (h : s.closed = false) : s.close.weight < s.weight := by
  simp [weight, close, h]
  omega

end ConfigReconcile.Scheduler
