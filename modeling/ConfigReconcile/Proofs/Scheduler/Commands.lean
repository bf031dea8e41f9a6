import ConfigReconcile.Proofs.Scheduler.Turns

/-!
# The commands of a host are runs of a session

A command lets all go on until everybody waits.  For a host with one scheduler, which is held until
it is shut down, whatever happens during a command is a run of moves, and the state of the host says
of which:

* `Command`, `Host.obey`, `Host.movesOf`   what is done to a host, and the moves that come of it;
* `run_shutdownMoves`   the shutdown, which ends its run with the same report;
* `Host.commandMoves`, `run_commandMoves`   all commands, one after the other.

So what holds of every run holds of these too.  The shutdown goes through because a worker that has
been told to stop begins no further cycle (`Stopping`), so that it is at rest once the cycle in
flight has ended (`Plain.isAtRest_stopWorker`).
-/

namespace ConfigReconcile

variable {h h' : Host}

/-! ## the end of the worker -/

namespace Scheduler

variable {s s' : Scheduler} {e : Surroundings} {a : Act}

/-- the worker has been told to stop, and a cycle in flight has its export by a time -/
def Stopping (t : Nat) (s : Scheduler) : Prop :=
  s.cancelled = true ∧ ∀ due, s.worker = .exporting due → due ≤ t

theorem Does.stopping {t : Nat} (h : Does e s a s') (hs : s.Stopping t) : s'.Stopping t := by
  cases h with
  | stop _ _ => exact ⟨hs.1, fun due hd => by cases hd⟩
  | listen _ hc _ => cases hc.symm.trans hs.1
  | gather _ hc _ => cases hc.symm.trans hs.1
  | begin _ hc _ => cases hc.symm.trans hs.1
  | wake _ _ hc _ => cases hc.symm.trans hs.1

theorem stopping_cancel (s : Scheduler) : ∃ t, s.cancel.Stopping t := by
  cases hw : s.worker with
  | exporting due =>
    refine ⟨due, rfl, ?_⟩
    intro d hd
    cases hw.symm.trans hd
    exact Nat.le_refl _
  | _ =>
    refine ⟨0, rfl, ?_⟩
    intro d hd
    cases hw.symm.trans hd

/-- told to stop, a worker that does nothing is at rest or in a cycle -/
theorem isAtRest_or_exporting (hc : s.cancelled = true) (ha : s.act? e = none) :
    s.isAtRest = true ∨ ∃ due, s.worker = .exporting due := by
  cases hw : s.worker with
  | absent => exact .inl (isAtRest_iff.2 (.inl hw))
  | ended => exact .inl (isAtRest_iff.2 (.inr hw))
  | exporting due => exact .inr ⟨due, rfl⟩
  | looking => simp [act?, hw, hc] at ha
  | listening => simp [act?, hw, hc] at ha
  | sleeping wake => simp [act?, hw, hc] at ha

theorem due?_of_isAtRest (h : s.isAtRest = true) : s.due? = none := by
  rcases isAtRest_iff.1 h with hw | hw <;> rw [due?, hw]

end Scheduler

namespace Host

theorem Plain.stopping {t : Nat} (hp : h.Plain ∧ h.scheduler.Stopping t) (u : Nat) :
    (h.wait u).Plain ∧ (h.wait u).scheduler.Stopping t := by
  apply wait_induction (P := fun h => h.Plain ∧ h.scheduler.Stopping t) _ _ hp
  · rintro h h' ⟨hp, hs⟩ ht
    obtain ⟨q, hq, rfl⟩ := hp.turns ht
    refine ⟨⟨hp.leaving, hp.held⟩, ?_⟩
    cases hq with
    | act ha => exact (Scheduler.does_of_act? ha).stopping hs
    | endCycle _ _ => exact ⟨hs.1, fun due hd => by cases hd⟩
    | arrive _ _ => exact hs
  · exact fun _ _ hP => ⟨⟨hP.1.leaving, hP.1.held⟩, hP.2⟩

theorem Plain.isAtRest_or_exporting_settle {t : Nat} (hp : h.Plain) (hs : h.scheduler.Stopping t) :
    h.settle.scheduler.isAtRest = true ∨ ∃ due, h.settle.scheduler.worker = .exporting due ∧
      h.premises.now < due ∧ due ≤ t := by
  have hs' : h.settle.scheduler.Stopping t := (Plain.stopping ⟨hp, hs⟩ _).2
  have hp' : h.settle.Plain := hp.wait _
  have ht := hp'.turn?_eq_none hp.turn?_settle
  rcases Scheduler.isAtRest_or_exporting hs'.1 (Premises.turn?_eq_none ht).1 with hr | ⟨due, hw⟩
  · exact .inl hr
  · refine .inr ⟨due, hw, ?_, hs'.2 due hw⟩
    rw [← now_settle h]
    apply hp'.now_lt_due hp.turn?_settle
    rw [hp'.due?, Scheduler.due?, hw]

theorem Plain.stopWorker (hp : h.Plain) : h.stopWorker.Plain := by
  have hp1 : ({ h with scheduler := h.scheduler.cancel } : Host).Plain := ⟨hp.leaving, hp.held⟩
  unfold Host.stopWorker
  dsimp only
  split
  · exact ((hp1.wait _).wait _).wait _
  · exact hp1.wait _

/-- a worker that has been told to stop is at rest once the cycle in flight has ended -/
theorem Plain.isAtRest_stopWorker (hp : h.Plain) : h.stopWorker.scheduler.isAtRest = true := by
  have hp1 : ({ h with scheduler := h.scheduler.cancel } : Host).Plain := ⟨hp.leaving, hp.held⟩
  obtain ⟨t, ht⟩ := Scheduler.stopping_cancel h.scheduler
  have ht1 : ({ h with scheduler := h.scheduler.cancel } : Host).scheduler.Stopping t := ht
  unfold Host.stopWorker
  generalize ({ h with scheduler := h.scheduler.cancel } : Host) = k at hp1 ht1
  dsimp only
  rcases hp1.isAtRest_or_exporting_settle ht1 with hr | ⟨due, hw, -, -⟩
  · rw [Scheduler.due?_of_isAtRest hr]
    exact hr
  · have hdue : k.settle.scheduler.due? = some due := by rw [Scheduler.due?, hw]
    have hs : k.settle.scheduler.Stopping due := by
      refine ⟨(Plain.stopping ⟨hp1, ht1⟩ _).2.1, ?_⟩
      intro d hd
      cases hw.symm.trans hd
      exact Nat.le_refl _
    obtain ⟨hp2, hs2⟩ := Plain.stopping ⟨hp1.wait _, hs⟩ due
    rw [hdue]
    show (k.settle.wait due).settle.scheduler.isAtRest = true
    rcases hp2.isAtRest_or_exporting_settle hs2 with hr | ⟨d, -, hlt, hle⟩
    · exact hr
    · rw [now_wait] at hlt
      omega

/-! ## after the queue is closed -/

theorem turn?_of_isDrained (hl : h.leaving = []) (hd : h.scheduler.IsDrained) : h.turn? = none := by
  have hturn : h.premises.turn? h.held h.scheduler = none := by
    rw [Premises.turn?, Scheduler.act?_of_isAtRest hd.atRest]
    dsimp only
    rw [Scheduler.isExporting_of_isAtRest hd.atRest, hd.closed, hd.granted]
    simp
  rw [Host.turn?, hl]
  dsimp only [Premises.turnOfLeaving?]
  rw [hturn]
  rfl

theorem turnBefore?_of_isDrained (hl : h.leaving = []) (hd : h.scheduler.IsDrained) (t : Nat) :
    h.turnBefore? t = none := by
  rw [turnBefore?, turn?_of_isDrained hl hd, due?, hl, List.nil_append]
  dsimp only
  rw [List.filterMap_cons, Scheduler.due?_of_isAtRest hd.atRest]
  rfl

theorem wait_of_isDrained (hl : h.leaving = []) (hd : h.scheduler.IsDrained) (t : Nat) :
    h.wait t = h.atTime t :=
  wait_of_none (turnBefore?_of_isDrained hl hd t)

theorem settle_of_isDrained (hl : h.leaving = []) (hd : h.scheduler.IsDrained) : h.settle = h :=
  wait_of_isDrained hl hd _

/-- during the cycle of a shutdown nobody moves -/
theorem flush_eq (hl : h.leaving = []) (hd : h.scheduler.IsDrained) :
    let k := h.beginFlush.atTime (h.premises.now + h.premises.exporter.delay)
    h.flush = (k.premises.finishCycle.1, { k with
      scheduler := k.scheduler.countCycle k.premises.finishCycle.1.isOk
      premises := k.premises.finishCycle.2 }) := by
  intro k
  have hwait : h.beginFlush.wait (h.premises.now + h.premises.exporter.delay) = k := by
    apply wait_of_isDrained (h := h.beginFlush) hl
    exact ⟨hd.closed, hd.atRest, hd.queue, hd.granted⟩
  rw [← hwait]
  rfl

theorem Plain.isDrained_drain (hp : h.Plain) : h.stopWorker.drain.2.scheduler.IsDrained :=
  ⟨rfl, hp.isAtRest_stopWorker, rfl, rfl⟩

theorem isDrained_release (hd : h.scheduler.IsDrained) : h.release.scheduler.IsDrained :=
  ⟨hd.closed, hd.atRest, hd.queue, hd.granted⟩

theorem isDrained_flush (hl : h.leaving = []) (hd : h.scheduler.IsDrained) :
    h.flush.2.leaving = [] ∧ h.flush.2.scheduler.IsDrained := by
  rw [flush_eq hl hd]
  exact ⟨hl, hd.closed, hd.atRest, hd.queue, hd.granted⟩

theorem shutdown_of_empty (hp : h.Plain)
    (hf : Session.mustFlush h.stopWorker.scheduler = false) :
    h.shutdown = (⟨h.stopWorker.drain.1, none⟩, h.stopWorker.drain.2.release) := by
  have hcond : ¬(h.stopWorker.drain.2.scheduler.enabled &&
      decide (h.stopWorker.drain.1 ≠ 0)) = true := Bool.eq_false_iff.1 hf
  have hsettle : h.stopWorker.drain.2.release.settle = h.stopWorker.drain.2.release :=
    settle_of_isDrained hp.stopWorker.leaving (isDrained_release hp.isDrained_drain)
  rw [← hsettle]
  unfold shutdown
  simp only
  rw [if_neg hcond]
  rfl

theorem shutdown_of_pending (hp : h.Plain)
    (hf : Session.mustFlush h.stopWorker.scheduler = true) :
    h.shutdown = (⟨h.stopWorker.drain.1, some h.stopWorker.drain.2.flush.1⟩,
      h.stopWorker.drain.2.flush.2.release) := by
  have hcond : (h.stopWorker.drain.2.scheduler.enabled &&
      decide (h.stopWorker.drain.1 ≠ 0)) = true := hf
  obtain ⟨hl, hd⟩ := isDrained_flush (h := h.stopWorker.drain.2) hp.stopWorker.leaving
    hp.isDrained_drain
  have hsettle : h.stopWorker.drain.2.flush.2.release.settle =
      h.stopWorker.drain.2.flush.2.release := settle_of_isDrained hl (isDrained_release hd)
  rw [← hsettle]
  unfold shutdown
  simp only
  rw [if_pos hcond]
  rfl

end Host

/-! ## commands -/

/-- what is done to a host -/
inductive Command where
  | signals (n : Nat)
  | saves (k : SaveKind) (n : Nat)
  | start
  | advance (ms : Nat)
  | become (l : Lifecycle)
  /-- others use the exporter and the store -/
  | change (p : Premises)
  /-- a cycle beside the scheduler -/
  | cycle
  | shutdown

namespace Host

/-- the host after a command; one that is not held any more is neither started nor shut down -/
def obey (h : Host) : Command → Host
  | .signals n => h.signals n
  | .saves k n => h.saves k n
  | .start => if h.held then h.start.2 else h
  | .advance ms => h.advanceTo (h.premises.now + ms)
  | .become l => h.modifyLifecycle fun _ => l
  | .change p =>
    let now := h.premises.now
    let lifecycle := h.premises.lifecycle
    { h with premises := { p with now, lifecycle } }
  | .cycle => h.runCycle.2
  | .shutdown => if h.held then h.shutdown.2 else h

/-! ### the moves of commands -/

def startMoves (h : Host) : List Move :=
  match h.scheduler.start with
  | .ok s => .start :: settleMoves { h with scheduler := s }
  | .error _ => []

def advanceMoves (h : Host) (t : Nat) : List Move := h.movesUntil t ++ (h.wait t).settleMoves

/-- a cycle beside the scheduler begins its export -/
def callExporter (h : Host) : Host :=
  { h with premises := { h.premises with exporter := h.premises.exporter.call } }

/-- a cycle beside the scheduler has got its export -/
def finishCycle (h : Host) : Host := { h with premises := h.premises.finishCycle.2 }

/-- the exporter and the store are used as if by others -/
def cycleMoves (h : Host) : List Move :=
  let t := h.premises.now + h.premises.exporter.delay
  let k := (h.callExporter.wait t).finishCycle
  .change h.callExporter.premises ::
    (h.callExporter.movesUntil t ++ .change k.premises :: k.settleMoves)

def stopMoves (h : Host) : List Move :=
  let k := { h with scheduler := h.scheduler.cancel }
  settleMoves k ++
    match k.settle.scheduler.due? with
    | some t => k.settle.advanceMoves t
    | none => []

/-- the moves of a shutdown once the worker is at rest -/
def drainMoves (h : Host) : List Move :=
  .drain ::
    if Session.mustFlush h.scheduler then [.pass h.drain.2.premises.exporter.delay, .endFlush]
    else []

def movesOf (h : Host) : Command → List Move
  | .signals n =>
    List.replicate n (.call .producer) ++ settleMoves (n.repeat (·.call .producer) h)
  | .saves k n => List.replicate n (.save k) ++ settleMoves (n.repeat (·.save k) h)
  | .start => if h.held then h.startMoves else []
  | .advance ms => h.advanceMoves (h.premises.now + ms)
  | .become l => [.become l]
  | .change p => [.change p]
  | .cycle => h.cycleMoves
  | .shutdown => if h.held then .shutdown :: (h.stopMoves ++ h.stopWorker.drainMoves) else []

/-- the moves of commands, each given when all that comes of the one before is done -/
def commandMoves (h : Host) : List Command → List Move
  | [] => []
  | c :: cs => h.movesOf c ++ (h.obey c).commandMoves cs

/-- a host with one scheduler, which has nothing left to do if it is not held -/
structure Tame (b : Bool) (h : Host) : Prop where
  leaving : h.leaving = []
  held : h.held = b
  drained : b = false → h.scheduler.IsDrained

variable {held : Bool}

theorem Tame.plain (hp : h.Tame true) : h.Plain := ⟨hp.leaving, hp.held⟩

theorem Plain.tame (hp : h.Plain) : h.Tame true := ⟨hp.leaving, hp.held, fun h => by cases h⟩

theorem Tame.wait (hp : h.Tame held) (t : Nat) : (h.wait t).Tame held := by
  cases held with
  | true => exact (hp.plain.wait t).tame
  | false =>
    rw [wait_of_isDrained hp.leaving (hp.drained rfl)]
    exact ⟨hp.leaving, hp.held, hp.drained⟩

theorem Tame.call (hp : h.Tame held) (c : Caller) : (h.call c).Tame held := by
  refine ⟨hp.leaving, hp.held, fun hheld => ?_⟩
  have hd := hp.drained hheld
  show (h.scheduler.signal c).2.IsDrained
  unfold Scheduler.signal
  split
  · exact hd
  · rw [if_pos hd.closed]
    exact hd

theorem Tame.save (hp : h.Tame held) (k : SaveKind) : (h.save k).Tame held := by
  unfold Host.save
  split
  · exact hp.call .listener
  · exact ⟨hp.leaving, hp.held, hp.drained⟩

theorem Tame.repeat {f : Host → Host} (hf : ∀ h, h.Tame held → (f h).Tame held) (hp : h.Tame held)
    (n : Nat) : (n.repeat f h).Tame held := by
  induction n with
  | zero => exact hp
  | succ n ih => exact hf _ ih

theorem Tame.premises (hp : h.Tame held) (p : Premises) :
    ({ h with premises := p } : Host).Tame held := ⟨hp.leaving, hp.held, hp.drained⟩

theorem Tame.runCycle (hp : h.Tame held) : h.runCycle.2.Tame held :=
  (((hp.premises _).wait _).premises _).wait _

theorem Tame.start (hp : h.Tame true) : h.start.2.Tame true := by
  unfold Host.start
  split
  · next s _ =>
    have hp1 : ({ h with scheduler := s } : Host).Plain := ⟨hp.leaving, hp.held⟩
    exact hp1.tame.wait _
  · exact hp
  · exact hp

theorem Plain.tame_shutdown (hp : h.Plain) : h.shutdown.2.Tame false := by
  cases hf : Session.mustFlush h.stopWorker.scheduler with
  | false =>
    rw [shutdown_of_empty hp hf]
    exact ⟨hp.stopWorker.leaving, rfl, fun _ => isDrained_release hp.isDrained_drain⟩
  | true =>
    obtain ⟨hl, hd⟩ := isDrained_flush (h := h.stopWorker.drain.2) hp.stopWorker.leaving
      hp.isDrained_drain
    rw [shutdown_of_pending hp hf]
    exact ⟨hl, rfl, fun _ => isDrained_release hd⟩

end Host

theorem Premises.lifecycle_finishCycle (p : Premises) :
    p.finishCycle.2.lifecycle = p.lifecycle := by
  unfold finishCycle
  split
  dsimp only
  split <;> rfl

namespace Session

variable {x : Session} {held : Bool}

theorem host_save (x : Session) (k : SaveKind) : (x.save k).host = x.host.save k := by
  unfold Session.save Host.save
  split <;> rfl

theorem closing_save (x : Session) (k : SaveKind) : (x.save k).closing = x.closing := by
  unfold Session.save
  split <;> rfl

/-! ### runs of commands -/

theorem takes_wait_of_tame (hp : x.host.Tame held) {t : Nat} (ht : x.host.premises.now ≤ t) :
    x.Takes (x.host.movesUntil t) (x.host.wait t) := by
  cases held with
  | true => exact takes_wait hp.plain ht
  | false =>
    have hnone := Host.turnBefore?_of_isDrained hp.leaving (hp.drained rfl) t
    rw [Host.wait_of_none hnone, Host.movesUntil_of_none hnone]
    exact takes_atTime ht

theorem takes_settle_of_tame (hp : x.host.Tame held) : x.Takes x.host.settleMoves x.host.settle :=
  takes_wait_of_tame hp (Nat.le_refl _)

theorem takes_advanceMoves (hp : x.host.Tame held) {t : Nat} (ht : x.host.premises.now ≤ t) :
    x.Takes (x.host.advanceMoves t) (x.host.advanceTo t) := by
  refine (takes_wait_of_tame hp ht).append ?_
  rintro y hy -
  rw [Host.advanceTo, ← hy]
  exact takes_settle_of_tame (hy ▸ hp.wait t)

theorem takes_repeat {f : Host → Host} (m : Move) (hf : ∀ y : Session, (y.play m).host = f y.host)
    (hc : ∀ y : Session, (y.play m).closing = y.closing) (hp : x.host.Tame held)
    (htame : ∀ h, h.Tame held → (f h).Tame held) (n : Nat) :
    x.Takes (List.replicate n m ++ (n.repeat f x.host).settleMoves)
      (n.repeat f x.host).settle := by
  have hrepeat : x.Takes (List.replicate n m) (n.repeat f x.host) := by
    induction n with
    | zero => exact takes_nil x
    | succ n ih =>
      rw [List.replicate_succ']
      refine ih.append ?_
      rintro y hy -
      have htakes := takes_play m (hc y)
      rw [hf, hy] at htakes
      exact htakes
  refine hrepeat.append ?_
  rintro y hy -
  rw [← hy]
  exact takes_settle_of_tame (hy ▸ hp.repeat htame n)

theorem takes_signals (hp : x.host.Tame held) (n : Nat) :
    x.Takes (x.host.movesOf (.signals n)) (x.host.signals n) := by
  apply takes_repeat (f := (·.call .producer)) (.call .producer) _ _ hp
  · exact fun _ hp => hp.call .producer
  · exact fun _ => rfl
  · exact fun _ => rfl

theorem takes_saves (hp : x.host.Tame held) (k : SaveKind) (n : Nat) :
    x.Takes (x.host.movesOf (.saves k n)) (x.host.saves k n) := by
  apply takes_repeat (f := (·.save k)) (.save k) _ _ hp
  · exact fun _ hp => hp.save k
  · exact fun y => y.host_save k
  · exact fun y => y.closing_save k

/-- a scheduler can be started as long as it is not shut down -/
theorem takes_start (hp : x.host.Plain) (hc : x.closing = .uncalled) :
    x.Takes x.host.startMoves x.host.start.2 := by
  unfold Host.startMoves Host.start
  cases hs : x.host.scheduler.start with
  | ok s =>
    have hplay : x.play .start = { x with host := { x.host with scheduler := s } } := by
      show x.start = _
      rw [Session.start, hc, hs]
    refine (takes_play .start (by rw [hplay])).append ?_
    rintro y hy -
    rw [hplay] at hy
    have htakes := takes_settle (x := y) (by rw [hy]; exact ⟨hp.leaving, hp.held⟩)
    rw [hy] at htakes
    exact htakes
  | error e => cases e <;> exact takes_nil x

theorem takes_change (x : Session) (p : Premises) (hn : p.now = x.host.premises.now)
    (hl : p.lifecycle = x.host.premises.lifecycle) :
    x.Takes [.change p] { x.host with premises := p } := by
  have htakes := takes_play (x := x) (.change p) rfl
  have hplay : (x.play (.change p)).host = { x.host with premises := p } := by
    show ({ x.host with premises := { p with now := _, lifecycle := _ } } : Host) = _
    rw [← hn, ← hl]
  rwa [hplay] at htakes

theorem takes_finishCycle (x : Session) :
    x.Takes [.change x.host.finishCycle.premises] x.host.finishCycle :=
  takes_change x _ x.host.premises.now_finishCycle x.host.premises.lifecycle_finishCycle

theorem takes_cycle (hp : x.host.Tame held) : x.Takes x.host.cycleMoves x.host.runCycle.2 := by
  have hcall : x.Takes [.change x.host.callExporter.premises] x.host.callExporter :=
    takes_change x _ rfl rfl
  have hp1 : x.host.callExporter.Tame held := hp.premises _
  refine hcall.append ?_
  intro y hy _
  have hwait := takes_wait_of_tame (x := y) (hy ▸ hp1)
    (Nat.le_add_right _ y.host.premises.exporter.delay)
  rw [hy] at hwait
  refine hwait.append ?_
  intro z hz _
  have hend := takes_finishCycle z
  rw [hz] at hend
  refine hend.append ?_
  intro u hu _
  have hp2 : u.host.Tame held := by
    rw [hu]
    exact (hp1.wait _).premises _
  have htakes := takes_settle_of_tame hp2
  rw [hu] at htakes
  exact htakes

/-! ### the shutdown -/

theorem takes_stopMoves {k : Host} (hp : k.Plain)
    (hx : x.host = { k with scheduler := k.scheduler.cancel }) :
    x.Takes k.stopMoves k.stopWorker := by
  have hp1 : x.host.Plain := hx ▸ ⟨hp.leaving, hp.held⟩
  unfold Host.stopWorker Host.stopMoves
  rw [← hx]
  dsimp only
  refine (takes_settle hp1).append ?_
  rintro y hy -
  have hp2 : y.host.Plain := hy ▸ hp1.wait _
  rw [← hy]
  cases hdue : y.host.scheduler.due? with
  | some t =>
    apply takes_advanceMoves hp2.tame
    apply Nat.le_of_lt
    apply hp2.now_lt_due
    · rw [hy]
      exact hp1.turn?_settle
    · rw [hp2.due?]
      exact hdue
  | none => exact takes_nil y

theorem run_drainMoves (hp : h.Plain) (hx : x.host = h.stopWorker) (hc : x.closing = .stopping) :
    (x.run x.host.drainMoves).host = h.shutdown.2 ∧
      (x.run x.host.drainMoves).closing = .over h.shutdown.1 := by
  have hr : x.host.scheduler.isAtRest = true := hx ▸ hp.isAtRest_stopWorker
  unfold Host.drainMoves
  cases hf : mustFlush x.host.scheduler with
  | false =>
    have hdrain : x.play .drain = _ := drain_of_empty hc hr hf
    rw [Host.shutdown_of_empty hp (hx ▸ hf), ← hx]
    show (x.play .drain).host = _ ∧ (x.play .drain).closing = _
    rw [hdrain]
    exact ⟨rfl, rfl⟩
  | true =>
    have hdrain : x.play .drain = _ := drain_of_pending hc hr hf
    have hflush := Host.flush_eq (h := h.stopWorker.drain.2) hp.stopWorker.leaving
      hp.isDrained_drain
    -- the export of the cycle is there after the delay
    have hend :
        ((x.play .drain).play (.pass x.host.drain.2.premises.exporter.delay)).endFlush = _ :=
      endFlush_of_due (by rw [hdrain]; rfl) (by rw [hdrain]; exact Nat.le_refl _)
    rw [Host.shutdown_of_pending hp (hx ▸ hf), hflush, ← hx]
    show Session.host (Session.endFlush _) = _ ∧ Session.closing (Session.endFlush _) = _
    rw [hend, hdrain]
    exact ⟨rfl, rfl⟩

/-- a shutdown is a run in which the shutdown returns, with the same report -/
theorem run_shutdownMoves (hp : x.host.Plain) (hc : x.closing = .uncalled) :
    let y := x.run (.shutdown :: (x.host.stopMoves ++ x.host.stopWorker.drainMoves))
    y.host = x.host.shutdown.2 ∧ y.closing = .over x.host.shutdown.1 := by
  have hplay : x.play .shutdown = { x with
      host := { x.host with scheduler := x.host.scheduler.cancel }
      closing := .stopping } := by
    show x.shutdown = _
    rw [Session.shutdown, hc]
  obtain ⟨hhost, hclosing⟩ : (x.play .shutdown).Takes x.host.stopMoves x.host.stopWorker :=
    takes_stopMoves hp (by rw [hplay])
  have hstopping : (x.play .shutdown).closing = .stopping := by rw [hplay]
  have hdrain := run_drainMoves hp hhost (hclosing.trans hstopping)
  rw [hhost] at hdrain
  rw [run_cons, run_append]
  exact hdrain

/-! ### one command after another -/

/-- the scheduler of a session is held until its shutdown is called -/
structure Fits (x : Session) : Prop where
  tame : x.host.Tame x.host.held
  uncalled : x.host.held = true → x.closing = .uncalled

theorem fits_opening (hl : h.leaving = []) (b : BackupSettings) : (opening h b).Fits :=
  ⟨⟨hl, rfl, fun hheld => by cases hheld⟩, fun _ => rfl⟩

theorem Fits.of_takes (hx : x.Fits) {ms : List Move} {k : Host} (htakes : x.Takes ms k)
    (htame : k.Tame x.host.held) : (x.run ms).host = k ∧ (x.run ms).Fits := by
  obtain ⟨rfl, hclosing⟩ := htakes
  refine ⟨rfl, ⟨htame.leaving, rfl, fun h => htame.drained (htame.held.symm.trans h)⟩, fun h => ?_⟩
  rw [hclosing]
  exact hx.uncalled (htame.held.symm.trans h)

theorem Fits.run_movesOf (hx : x.Fits) (c : Command) :
    (x.run (x.host.movesOf c)).host = x.host.obey c ∧ (x.run (x.host.movesOf c)).Fits := by
  have hp := hx.tame
  cases c with
  | signals n =>
    exact hx.of_takes (takes_signals hp n) ((hp.repeat (fun _ hp => hp.call .producer) n).wait _)
  | saves k n =>
    exact hx.of_takes (takes_saves hp k n) ((hp.repeat (fun _ hp => hp.save k) n).wait _)
  | start =>
    unfold Host.movesOf Host.obey
    dsimp only
    split
    · next hheld =>
      rw [hheld] at hp
      apply hx.of_takes (takes_start hp.plain (hx.uncalled hheld))
      rw [hheld]
      exact hp.start
    · exact ⟨rfl, hx⟩
  | advance ms =>
    exact hx.of_takes (takes_advanceMoves hp (Nat.le_add_right _ ms)) ((hp.wait _).wait _)
  | become l => exact hx.of_takes (takes_play (.become l) rfl) (hp.premises _)
  | change p => exact hx.of_takes (takes_play (.change p) rfl) (hp.premises _)
  | cycle => exact hx.of_takes (takes_cycle hp) hp.runCycle
  | shutdown =>
    unfold Host.movesOf Host.obey
    dsimp only
    split
    · next hheld =>
      rw [hheld] at hp
      obtain ⟨hhost, -⟩ := run_shutdownMoves hp.plain (hx.uncalled hheld)
      have htame := hp.plain.tame_shutdown
      refine ⟨hhost, ?_, ?_⟩
      · rw [hhost, htame.held]
        exact htame
      · intro h
        rw [hhost, htame.held] at h
        cases h
    · exact ⟨rfl, hx⟩

/-- **the commands of a host are a run** -/
theorem Fits.run_commandMoves (hx : x.Fits) (cs : List Command) :
    (x.run (x.host.commandMoves cs)).host = cs.foldl Host.obey x.host := by
  induction cs generalizing x with
  | nil => rfl
  | cons c cs ih =>
    obtain ⟨hhost, hfits⟩ := hx.run_movesOf c
    rw [Host.commandMoves, run_append, List.foldl_cons, ← hhost]
    exact ih hfits

/-- after the run, the shutdown is as far as the host says -/
theorem Fits.commandMoves (hx : x.Fits) (cs : List Command) :
    (x.run (x.host.commandMoves cs)).Fits := by
  induction cs generalizing x with
  | nil => exact hx
  | cons c cs ih =>
    obtain ⟨hhost, hfits⟩ := hx.run_movesOf c
    rw [Host.commandMoves, run_append, ← hhost]
    exact ih hfits

end Session

end ConfigReconcile
