import ConfigReconcile.Settings.Basic

/-!
# The scheduler

Saves of the host are turned into signals, which go into a queue of bounded capacity; one worker
takes them out and runs a backup cycle once the queue is empty.  Signals carry nothing and are only
counted.

* `signal`   what becomes of a signal: it is accepted, has to wait for space, or is refused;
* `arrive`   the callers that have been granted a slot put their signals into the queue;
* `start`    starts the worker;
* `cancel`   tells the worker to stop where it next looks;
* `close`    refuses all who wait, and all later signals.

What the worker does is in `ConfigReconcile.Scheduler.Worker`.
-/

namespace ConfigReconcile

/-- who sends a signal: a producer itself, or a listener on behalf of a save -/
inductive Caller where
  | producer
  | listener
  deriving DecidableEq, Repr, Inhabited

namespace Scheduler

/-- what a scheduler says about itself -/
inductive Status where
  | idle
  | coalescing
  | exporting
  | stopped
  deriving DecidableEq, Repr, Inhabited

/-- where the worker is -/
inductive Worker where
  /-- not started yet -/
  | absent
  /-- about to see whether to go on -/
  | looking
  /-- waits for a signal -/
  | listening
  /-- lets signals gather until a time -/
  | sleeping (wake : Nat)
  /-- in a cycle, whose export is there at a time -/
  | exporting (due : Nat)
  | ended
  deriving DecidableEq, Repr, Inhabited

structure Counters where
  accepted : Nat := 0
  rounds : Nat := 0
  completed : Nat := 0
  failed : Nat := 0
  deriving DecidableEq, Repr, Inhabited

end Scheduler

open Scheduler in
structure Scheduler where
  enabled : Bool
  /-- how long the worker lets signals gather -/
  debounce : Nat
  capacity : Nat
  status : Status := .idle
  worker : Worker := .absent
  /-- how many signals are in the queue -/
  queue : Nat := 0
  /-- callers that have a slot and will put their signals into it once the worker waits -/
  granted : List Caller := []
  /-- callers that wait for a slot, the first one in front -/
  waiting : List Caller := []
  cancelled : Bool := false
  closed : Bool := false
  counters : Counters := {}
  deriving DecidableEq, Repr, Inhabited

namespace Scheduler

/-- the scheduler of given settings, not started; its queue has room for one signal at least -/
def ofSettings (b : BackupSettings) : Scheduler where
  enabled := b.enabled
  debounce := b.debounceMs.toNat
  capacity := max 1 b.queueCapacity.toNat

/-! ## signals -/

/-- what becomes of a signal at once -/
inductive Reply where
  | accepted
  | waiting
  | refused
  deriving DecidableEq, Repr, Inhabited

/-- whether all slots of the queue are taken -/
def isFull (s : Scheduler) : Bool := s.capacity ≤ s.queue + s.granted.length

/-- a scheduler that is not enabled accepts every signal and keeps none -/
def signal (s : Scheduler) (c : Caller) : Reply × Scheduler :=
  if !s.enabled then (.accepted, s)
  else if s.closed then (.refused, s)
  else if s.isFull then (.waiting, { s with waiting := s.waiting ++ [c] })
  else
    (.accepted, { s with
      queue := s.queue + 1
      counters := { s.counters with accepted := s.counters.accepted + 1 } })

/-- the signals of those who have a slot -/
def arrive (s : Scheduler) : Scheduler :=
  { s with
    queue := s.queue + s.granted.length
    counters := { s.counters with accepted := s.counters.accepted + s.granted.length }
    granted := [] }

/-- whoever waits for a slot or has one -/
def callers (s : Scheduler) : List Caller := s.granted ++ s.waiting

/-! ## start and end -/

inductive StartError where
  | disabled
  | alreadyStarted
  deriving DecidableEq, Repr

def start (s : Scheduler) : Except StartError Scheduler :=
  if !s.enabled then .error .disabled
  else if s.worker ≠ .absent then .error .alreadyStarted
  else .ok { s with worker := .looking }

def cancel (s : Scheduler) : Scheduler := { s with cancelled := true }

/-- empties the queue for good -/
def close (s : Scheduler) : Scheduler :=
  { s with closed := true, queue := 0, granted := [], waiting := [] }

/-- one more cycle that has ended well or not -/
def countCycle (s : Scheduler) (ok : Bool) : Scheduler :=
  { s with
    counters :=
      if ok then { s.counters with completed := s.counters.completed + 1 }
      else { s.counters with failed := s.counters.failed + 1 } }

end Scheduler

end ConfigReconcile
