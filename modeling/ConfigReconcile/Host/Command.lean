import ConfigReconcile.Host.Time

/-!
# What can be done to a host

Commands are given while everybody waits, and each of them leaves the host so.

* `signals`, `saves`   calls of producers and listeners, all of which are made before the worker
                       sees any of them;
* `start`, `rebuild`, `drop`   the life of the scheduler;
* `shutdown`           waits for a cycle in flight, refuses all who wait, and runs one cycle for
                       whatever is left in the queue;
* `runCycle`           a cycle of its own, beside the scheduler.
-/

namespace ConfigReconcile

open Scheduler (StartError)

/-- what happened during a shutdown -/
structure ShutdownReport where
  /-- how many signals were left in the queue -/
  pending : Nat
  /-- the cycle that was run for them -/
  flush : Option (Except BackupError CycleReport)

/-- whether the signals that were left have got their backup -/
def ShutdownReport.isFlushed (r : ShutdownReport) : Bool := r.flush.any Except.isOk

namespace Host

/-! ## calls -/

/-- so many producers send a signal each -/
def signals (h : Host) (n : Nat) : Host := (n.repeat (·.call .producer) h).settle

/-- so many listeners are told of a save -/
def saves (h : Host) (k : SaveKind) (n : Nat) : Host := (n.repeat (·.save k) h).settle

/-- whether a call would have to wait for space in the queue -/
def isBlocking (h : Host) : Bool := h.held && h.scheduler.enabled && h.scheduler.isFull

/-- sends a signal for somebody outside, who gets the answer -/
def answer (h : Host) : Except BackupError Unit × Host :=
  let (r, s) := h.scheduler.signal .producer
  (if r = .refused then .error .stopped else .ok (), { h with scheduler := s }.settle)

/-- tells a listener of a save for somebody outside, who gets the answer -/
def answerSave (h : Host) (k : SaveKind) : Bool × Host :=
  if h.heeds k then
    let (r, h') := h.answer
    (r.isOk, h')
  else (false, h)

/-! ## cycles -/

/-- a cycle that somebody waits for -/
def cycleNow (h : Host) : Except BackupError CycleReport × Host :=
  let p := { h.premises with exporter := h.premises.exporter.call }
  let h := { h with premises := p }.wait (p.now + p.exporter.delay)
  let (r, p) := h.premises.finishCycle
  (r, { h with premises := p })

/-- a cycle of its own -/
def runCycle (h : Host) : Except BackupError CycleReport × Host :=
  let (r, h) := h.cycleNow
  (r, h.settle)

/-! ## the life of a scheduler -/

def start (h : Host) : Except BackupError Unit × Host :=
  match h.scheduler.start with
  | .ok s => (.ok (), { h with scheduler := s }.settle)
  | .error .disabled => (.error .disabled, h)
  | .error .alreadyStarted => (.error .alreadyStarted, h)

/-- lets go of the scheduler, which is told to stop -/
def drop (h : Host) : Host :=
  { h with scheduler := h.scheduler.cancel, held := false }.settle

/-- takes a new scheduler in place of the old one -/
def rebuild (h : Host) : Host :=
  let h := h.drop
  { h with
    leaving := h.leaving ++ [h.scheduler].filter (·.isExporting)
    scheduler := .ofSettings h.backup
    held := true }

/-- tells the worker to stop and waits until it has -/
def stopWorker (h : Host) : Host :=
  let h := { h with scheduler := h.scheduler.cancel }.settle
  match h.scheduler.due? with
  | some t => h.advanceTo t
  | none => h

/-- closes the queue and says how many signals were in it -/
def drain (h : Host) : Nat × Host :=
  let s := h.scheduler
  (s.queue, { h with scheduler := s.close, premises := h.premises.noteAll false s.callers })

/-- a cycle for the signals that were left in the queue -/
def flush (h : Host) : Except BackupError CycleReport × Host :=
  let (r, h) := { h with scheduler := { h.scheduler with status := .exporting } }.cycleNow
  (r, { h with scheduler := h.scheduler.countCycle r.isOk })

def shutdown (h : Host) : ShutdownReport × Host :=
  let (pending, h) := h.stopWorker.drain
  let (flush, h) :=
    if h.scheduler.enabled && pending ≠ 0 then
      let (r, h) := h.flush
      (some r, h)
    else (none, h)
  let s := { h.scheduler with status := .stopped }
  (⟨pending, flush⟩, { h with scheduler := s, held := false }.settle)

/-! ## the store and what is around it -/

/-- an operation on the store, with the result even if it fails -/
def onSite {ε α : Type} (h : Host) (act : EStateM ε (Workspace Guarded) α) : Except ε α × Host :=
  match act h.premises.site with
  | .ok a w => (.ok a, { h with premises := { h.premises with site := w } })
  | .error e w => (.error e, { h with premises := { h.premises with site := w } })

/-- changes the store directly -/
def modifyStore (h : Host) (f : Guarded → Guarded) : Host :=
  let w := h.premises.site
  { h with premises := { h.premises with site := { w with store := f w.store } } }

def modifyExporter (h : Host) (f : Exporter → Exporter) : Host :=
  { h with premises := { h.premises with exporter := f h.premises.exporter } }

def modifyLifecycle (h : Host) (f : Lifecycle → Lifecycle) : Host :=
  { h with premises := { h.premises with lifecycle := f h.premises.lifecycle } }

end Host

end ConfigReconcile
