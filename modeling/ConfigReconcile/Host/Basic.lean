import ConfigReconcile.Backup.Cycle
import ConfigReconcile.Backup.SaveKind
import ConfigReconcile.Scheduler.Worker
import ConfigReconcile.Store.Guarded

/-!
# A host

A host has one scheduler at a time, an exporter and a store, and a clock of its own, which stands
still until something waits.  The names of backups come from another clock, of which only the
readings are known.

* `Exporter`      counts a call when it begins, and at its end fails or gives the document;
* `Premises`      what all schedulers of a host work on, with a tally of the answers to calls;
* `Host.call`, `Host.save`   a signal, or a save of which a listener is told.

How the schedulers go on by themselves is in `ConfigReconcile.Host.Time`.
-/

namespace ConfigReconcile

open Text

/-- how far a host is -/
inductive Lifecycle where
  /-- ready for good -/
  | always
  | manual (ready terminating : Bool)
  deriving DecidableEq, Repr, Inhabited

namespace Lifecycle

def isReady : Lifecycle → Bool
  | .always => true
  | .manual ready _ => ready

def isTerminating : Lifecycle → Bool
  | .always => false
  | .manual _ terminating => terminating

def setReady (ready : Bool) : Lifecycle → Lifecycle
  | .always => .always
  | .manual _ terminating => .manual ready terminating

def terminate : Lifecycle → Lifecycle
  | .always => .always
  | .manual ready _ => .manual ready true

end Lifecycle

/-- gives the document after a while, unless a failure has been queued -/
structure Exporter where
  document : Bytes
  failures : List String := []
  delay : Nat := 0
  calls : Nat := 0
  deriving DecidableEq, Inhabited

namespace Exporter

/-- an export begins -/
def call (x : Exporter) : Exporter := { x with calls := x.calls + 1 }

/-- an export ends -/
def deliver (x : Exporter) : Except String Bytes × Exporter :=
  match x.failures with
  | [] => (.ok x.document, x)
  | reason :: rest => (.error reason, { x with failures := rest })

end Exporter

/-- how many calls were accepted, and how many refused -/
structure Tally where
  accepted : Nat := 0
  refused : Nat := 0
  deriving DecidableEq, Repr, Inhabited

/-- one more call -/
def Tally.add (t : Tally) (accepted : Bool) : Tally :=
  if accepted then { t with accepted := t.accepted + 1 } else { t with refused := t.refused + 1 }

/-- what all schedulers of a host share -/
structure Premises where
  cycle : Cycle
  site : Workspace Guarded
  exporter : Exporter
  lifecycle : Lifecycle
  now : Nat := 0
  /-- what the clock for names shows, reading by reading -/
  readings : Nat → Instant
  /-- how many readings there were -/
  taken : Nat := 0
  /-- signals of producers -/
  signals : Tally := {}
  /-- saves that listeners were told of -/
  changes : Tally := {}

namespace Premises

/-- keeps the tally of a call that has been answered -/
def note (p : Premises) (accepted : Bool) : Caller → Premises
  | .producer => { p with signals := p.signals.add accepted }
  | .listener => { p with changes := p.changes.add accepted }

def noteAll (p : Premises) (accepted : Bool) (callers : List Caller) : Premises :=
  callers.foldl (fun p c => p.note accepted c) p

/-- what a worker sees -/
def surroundings (p : Premises) : Scheduler.Surroundings where
  now := p.now
  terminating := p.lifecycle.isTerminating
  delay := p.exporter.delay

/-- ends an export, and does at once what is left of the cycle -/
def finishCycle (p : Premises) : Except BackupError CycleReport × Premises :=
  let (snapshot, x) := p.exporter.deliver
  let p' := { p with exporter := x, taken := p.taken + snapshot.isOk.toNat }
  match p.cycle.run (p.readings p.taken) snapshot p.site with
  | .ok report w => (.ok report, { p' with site := w })
  | .error e w => (.error e, { p' with site := w })

end Premises

structure Host where
  backup : BackupSettings
  paths : ResolvedPaths
  premises : Premises
  scheduler : Scheduler
  /-- whether the scheduler has been neither shut down nor dropped -/
  held : Bool := true
  /-- schedulers that were dropped while their workers were in a cycle, the oldest in front -/
  leaving : List Scheduler := []

namespace Host

/-- the host of given settings, whose scheduler is not started -/
def ofSettings (s : Settings) (defaultDocument? : Option Bytes) (files : Memory)
    (exporter : Exporter) (lifecycle : Lifecycle) (readings : Nat → Instant) : Host where
  backup := s.backup
  paths := s.paths.resolve
  premises := {
    cycle := .ofSettings s defaultDocument?
    site := { store := { memory := files } }
    exporter
    lifecycle
    readings }
  scheduler := .ofSettings s.backup

/-! ## calls -/

/-- sends a signal to the scheduler -/
def call (h : Host) (c : Caller) : Host :=
  let (r, s) := h.scheduler.signal c
  { h with
    scheduler := s
    premises :=
      match r with
      | .accepted => h.premises.note true c
      | .refused => h.premises.note false c
      | .waiting => h.premises }

/-- whether a save is turned into a signal -/
def heeds (h : Host) (k : SaveKind) : Bool :=
  h.scheduler.enabled && h.premises.lifecycle.isReady && k.callsForBackup

/-- tells a listener of a save -/
def save (h : Host) (k : SaveKind) : Host :=
  if h.heeds k then h.call .listener
  else { h with premises := h.premises.note false .listener }

/-- how many callers of a kind still wait for an answer -/
def waiting (h : Host) (c : Caller) : Nat :=
  ((h.scheduler :: h.leaving).flatMap Scheduler.callers).count c

end Host

end ConfigReconcile
