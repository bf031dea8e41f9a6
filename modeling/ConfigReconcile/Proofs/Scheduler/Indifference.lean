import ConfigReconcile.Proofs.Scheduler.Commands
import ConfigReconcile.Proofs.Scheduler.Veiled

/-!
# A failing cycle changes nothing of what a scheduler does next

Sessions that are the same before the veil stay so if the same moves are made.  Here a host chooses
the moves by itself, and those that it chooses do not depend on what is behind the veil either:

* `Host.Alike`       two hosts, each with one scheduler, that are the same before the veil;
* `Alike.turnBefore?`, `Alike.wait`   their next turns leave them so, and waiting does;
* `Alike.movesUntil`, `Alike.movesOf`   they make the same moves while they wait, and for a command.

So two runs of a scheduler look the same, whether a list of moves is given or a list of commands,
when they differ only in what cycles read and write and in how they end (`Session.indifferent`).
-/

namespace ConfigReconcile

/-- of what others change only the time that an export takes is seen -/
def Command.veiled : Command → Command
  | .change p => .change (.blank p.exporter.delay)
  | c => c

/-! ## turns -/

theorem Premises.turn?_veiled (p : Premises) (held : Bool) (s : Scheduler) :
    (p.veiled.turn? held s.veiled).map (Prod.map Scheduler.veiled veiled) =
      (p.turn? held s).map (Prod.map Scheduler.veiled veiled) := by
  have hact : s.veiled.act? p.veiled.surroundings = _ := s.act?_veiled p.surroundings
  have hdue : (s.veiled.isExporting && s.veiled.due?.any (· ≤ p.veiled.now)) =
      (s.isExporting && s.due?.any (· ≤ p.now)) := rfl
  have hlost : (!held && s.veiled.isAtRest && !s.veiled.closed) =
      (!held && s.isAtRest && !s.closed) := rfl
  have hgranted : s.veiled.granted = s.granted := rfl
  unfold turn?
  rw [hact, hdue, hlost, hgranted]
  cases s.act? p.surroundings with
  | some q =>
    obtain ⟨a, s'⟩ := q
    cases a <;> rfl
  | none =>
    dsimp only [Option.map_none]
    split
    · have hs := s.endCycle_veiled p.veiled.finishCycle.1.isOk p.finishCycle.1.isOk
      exact congrArg some (Prod.ext hs (finishCycle_congr p.veiled_veiled))
    · split
      · exact congrArg some (Prod.ext rfl (noteAll_congr p.veiled_veiled false s.callers))
      · split
        · rfl
        · exact congrArg some (Prod.ext rfl (noteAll_congr p.veiled_veiled true s.granted))

namespace Host

/-- hosts with one scheduler that are the same before the veil -/
structure Alike (h h' : Host) : Prop where
  leaving : h.leaving = []
  leaving' : h'.leaving = []
  veiled : h.veiled = h'.veiled

variable {h h' k : Host} {p p' : Premises} {s s' : Scheduler}

namespace Alike

theorem symm (hh : h.Alike h') : h'.Alike h := ⟨hh.leaving', hh.leaving, hh.veiled.symm⟩

theorem scheduler (hh : h.Alike h') : h.scheduler.veiled = h'.scheduler.veiled :=
  congrArg Host.scheduler hh.veiled

theorem premises (hh : h.Alike h') : h.premises.veiled = h'.premises.veiled :=
  congrArg Host.premises hh.veiled

theorem now (hh : h.Alike h') : h.premises.now = h'.premises.now :=
  congrArg (·.premises.now) hh.veiled

theorem delay (hh : h.Alike h') : h.premises.exporter.delay = h'.premises.exporter.delay :=
  congrArg (·.premises.exporter.delay) hh.veiled

theorem held (hh : h.Alike h') : h.held = h'.held := (congrArg Host.held hh.veiled :)

theorem update (hh : h.Alike h') (hs : s.veiled = s'.veiled) (hp : p.veiled = p'.veiled) :
    ({ h with scheduler := s, premises := p } : Host).Alike
      { h' with scheduler := s', premises := p' } :=
  ⟨hh.leaving, hh.leaving', veiled_ext hs hp hh.held⟩

theorem atTime (hh : h.Alike h') (t : Nat) : (h.atTime t).Alike (h'.atTime t) :=
  hh.update hh.scheduler (congrArg (fun p : Premises => { p with now := t }) hh.premises)

theorem due?_scheduler (hh : h.Alike h') : h.scheduler.due? = h'.scheduler.due? :=
  (congrArg Scheduler.due? hh.scheduler :)

theorem due? (hh : h.Alike h') : h.due? = h'.due? := by
  rw [Host.due?, Host.due?, hh.leaving, hh.leaving', List.nil_append, List.nil_append,
    List.filterMap_cons, List.filterMap_cons, hh.due?_scheduler]

end Alike

theorem turn?_of_leaving (hl : h.leaving = []) :
    h.turn? = (h.premises.turn? h.held h.scheduler).map fun q =>
      { h with scheduler := q.1, premises := q.2 } := by
  rw [Host.turn?, hl]
  rfl

theorem Alike.turn? (hh : h.Alike h') (ht : h.turn? = some k) :
    ∃ k', h'.turn? = some k' ∧ k.Alike k' := by
  rw [turn?_of_leaving hh.leaving] at ht
  obtain ⟨⟨s, p⟩, hq, rfl⟩ := Option.map_eq_some_iff.1 ht
  have hveiled := h.premises.turn?_veiled h.held h.scheduler
  rw [hh.premises, hh.scheduler, hh.held, Premises.turn?_veiled, ← hh.held, hq] at hveiled
  obtain ⟨⟨s', p'⟩, hq', he⟩ := Option.map_eq_some_iff.1 hveiled
  refine ⟨{ h' with scheduler := s', premises := p' }, ?_, ?_⟩
  · rw [turn?_of_leaving hh.leaving', ← hh.held, hq']
    rfl
  · exact hh.update (congrArg Prod.fst he).symm (congrArg Prod.snd he).symm

theorem Alike.turn?_eq_none (hh : h.Alike h') (ht : h.turn? = none) : h'.turn? = none := by
  cases ht' : h'.turn? with
  | none => rfl
  | some k' =>
    obtain ⟨k, hk, -⟩ := hh.symm.turn? ht'
    rw [ht] at hk
    cases hk

theorem Alike.turnBefore? {t : Nat} (hh : h.Alike h') (ht : h.turnBefore? t = some k) :
    ∃ k', h'.turnBefore? t = some k' ∧ k.Alike k' := by
  unfold Host.turnBefore? at ht ⊢
  split at ht
  · next hn =>
    cases ht
    obtain ⟨k', hk', hkk⟩ := hh.turn? hn
    rw [hk']
    exact ⟨k', rfl, hkk⟩
  · next hn =>
    obtain ⟨d, hd, hturn⟩ := Option.bind_eq_some_iff.1 ht
    rw [hh.turn?_eq_none hn, ← hh.due?]
    obtain ⟨k', hk', hkk⟩ := (hh.atTime d).turn? hturn
    exact ⟨k', Option.bind_eq_some_iff.2 ⟨d, hd, hk'⟩, hkk⟩

theorem Alike.turnBefore?_eq_none {t : Nat} (hh : h.Alike h') (ht : h.turnBefore? t = none) :
    h'.turnBefore? t = none := by
  cases ht' : h'.turnBefore? t with
  | none => rfl
  | some k' =>
    obtain ⟨k, hk, -⟩ := hh.symm.turnBefore? ht'
    rw [ht] at hk
    cases hk

theorem Alike.wait (hh : h.Alike h') (t : Nat) : (h.wait t).Alike (h'.wait t) := by
  fun_induction Host.wait h t generalizing h' with
  | case1 h k ht ih =>
    obtain ⟨k', ht', hkk⟩ := hh.turnBefore? ht
    rw [wait_of_turnBefore? ht']
    exact ih hkk
  | case2 h ht =>
    rw [wait_of_none (hh.turnBefore?_eq_none ht)]
    exact hh.atTime t

theorem Alike.settle (hh : h.Alike h') : h.settle.Alike h'.settle := by
  unfold Host.settle
  rw [← hh.now]
  exact hh.wait _

theorem nextMoves_veiled (h : Host) : h.veiled.nextMoves = h.nextMoves := by
  have hact : h.veiled.scheduler.act? h.veiled.premises.surroundings = _ :=
    h.scheduler.act?_veiled h.premises.surroundings
  unfold nextMoves
  rw [hact]
  cases h.scheduler.act? h.premises.surroundings <;> rfl

theorem Alike.nextMoves (hh : h.Alike h') : h.nextMoves = h'.nextMoves := by
  rw [← h.nextMoves_veiled, hh.veiled, nextMoves_veiled]

theorem Alike.movesAhead (hh : h.Alike h') : h.movesAhead = h'.movesAhead := by
  unfold Host.movesAhead
  rw [← hh.due?, ← hh.now, ← hh.nextMoves]
  cases ht : h.turn? with
  | some k =>
    obtain ⟨k', ht', -⟩ := hh.turn? ht
    rw [ht']
  | none =>
    rw [hh.turn?_eq_none ht]
    cases h.due? with
    | none => rfl
    | some d =>
      dsimp only
      rw [(hh.atTime d).nextMoves]

/-- alike hosts do the same while they wait -/
theorem Alike.movesUntil (hh : h.Alike h') (t : Nat) : h.movesUntil t = h'.movesUntil t := by
  fun_induction Host.movesUntil h t generalizing h' with
  | case1 h k ht ih =>
    obtain ⟨k', ht', hkk⟩ := hh.turnBefore? ht
    rw [movesUntil_of_turnBefore? ht', hh.movesAhead, ih hkk]
  | case2 h ht => rw [movesUntil_of_none (hh.turnBefore?_eq_none ht), hh.now]

theorem Alike.settleMoves (hh : h.Alike h') : h.settleMoves = h'.settleMoves := by
  unfold Host.settleMoves
  rw [← hh.now]
  exact hh.movesUntil _

/-! ## commands -/

namespace Alike

theorem call (hh : h.Alike h') (c : Caller) : (h.call c).Alike (h'.call c) := by
  refine ⟨hh.leaving, hh.leaving', ?_⟩
  rw [← h.call_veiled, hh.veiled, call_veiled]

theorem save (hh : h.Alike h') (k : SaveKind) : (h.save k).Alike (h'.save k) := by
  have hl (g : Host) (hg : g.leaving = []) : (g.save k).leaving = [] := by
    unfold Host.save
    split <;> exact hg
  refine ⟨hl h hh.leaving, hl h' hh.leaving', ?_⟩
  rw [← h.save_veiled, hh.veiled, save_veiled]

theorem iterate {f : Host → Host} (hf : ∀ h h', h.Alike h' → (f h).Alike (f h'))
    (hh : h.Alike h') (n : Nat) : (n.repeat f h).Alike (n.repeat f h') := by
  induction n with
  | zero => exact hh
  | succ n ih => exact hf _ _ ih

theorem advanceMoves (hh : h.Alike h') (t : Nat) : h.advanceMoves t = h'.advanceMoves t := by
  rw [Host.advanceMoves, Host.advanceMoves, hh.movesUntil, (hh.wait t).settleMoves]

theorem startMoves (hh : h.Alike h') : h.startMoves = h'.startMoves := by
  have hstart :
      h.scheduler.start.map Scheduler.veiled = h'.scheduler.start.map Scheduler.veiled := by
    rw [← h.scheduler.start_veiled, hh.scheduler, Scheduler.start_veiled]
  unfold Host.startMoves
  cases hs : h.scheduler.start with
  | ok s =>
    cases hs' : h'.scheduler.start with
    | ok s' =>
      rw [hs, hs'] at hstart
      have hveiled : s.veiled = s'.veiled := Except.ok.inj hstart
      dsimp only
      rw [(hh.update hveiled hh.premises).settleMoves]
    | error e =>
      rw [hs, hs'] at hstart
      cases hstart
  | error e =>
    cases hs' : h'.scheduler.start with
    | ok s' =>
      rw [hs, hs'] at hstart
      cases hstart
    | error e' => rfl

theorem change (hp : p.veiled = p'.veiled) :
    (Move.change p).veiled = (Move.change p').veiled :=
  (congrArg (fun p : Premises => Move.change (.blank p.exporter.delay)) hp :)

theorem cycleMoves (hh : h.Alike h') :
    h.cycleMoves.map Move.veiled = h'.cycleMoves.map Move.veiled := by
  have hcall : h.callExporter.Alike h'.callExporter := hh.update hh.scheduler hh.premises
  have hend (t : Nat) :
      (h.callExporter.wait t).finishCycle.Alike (h'.callExporter.wait t).finishCycle := by
    have hwait := hcall.wait t
    exact hwait.update hwait.scheduler (Premises.finishCycle_congr hwait.premises)
  unfold Host.cycleMoves
  dsimp only
  rw [hh.now, hh.delay, hcall.movesUntil, (hend _).settleMoves]
  simp only [List.map_cons, List.map_append, change hcall.premises, change (hend _).premises]

theorem cancel (hh : h.Alike h') :
    ({ h with scheduler := h.scheduler.cancel } : Host).Alike
      { h' with scheduler := h'.scheduler.cancel } :=
  hh.update (congrArg Scheduler.cancel hh.scheduler :) hh.premises

theorem stopMoves (hh : h.Alike h') : h.stopMoves = h'.stopMoves := by
  have hsettle := hh.cancel.settle
  unfold Host.stopMoves
  dsimp only
  rw [hh.cancel.settleMoves, ← hsettle.due?_scheduler]
  split
  · next t _ => rw [hsettle.advanceMoves t]
  · rfl

theorem stopWorker (hh : h.Alike h') : h.stopWorker.Alike h'.stopWorker := by
  have hsettle := hh.cancel.settle
  unfold Host.stopWorker
  dsimp only
  rw [← hsettle.due?_scheduler]
  split
  · next t _ => exact (hsettle.wait t).settle
  · exact hsettle

theorem drainMoves (hh : h.Alike h') : h.drainMoves = h'.drainMoves := by
  have hflush : Session.mustFlush h.scheduler = Session.mustFlush h'.scheduler :=
    (congrArg Session.mustFlush hh.scheduler :)
  have hpremises : h.drain.2.premises.veiled = h'.drain.2.premises.veiled := by
    have hcallers : h.scheduler.callers = h'.scheduler.callers :=
      (congrArg Scheduler.callers hh.scheduler :)
    show (Premises.noteAll _ _ _).veiled = (Premises.noteAll _ _ _).veiled
    rw [hcallers]
    exact Premises.noteAll_congr hh.premises false _
  have hdelay : h.drain.2.premises.exporter.delay = h'.drain.2.premises.exporter.delay :=
    (congrArg (·.exporter.delay) hpremises :)
  unfold Host.drainMoves
  rw [hflush, hdelay]

/-- alike hosts do the same when they are given the same command -/
theorem movesOf (hh : h.Alike h') {c c' : Command} (hc : c.veiled = c'.veiled) :
    (h.movesOf c).map Move.veiled = (h'.movesOf c').map Move.veiled := by
  cases c with
  | change p =>
    cases c' with
    | change p' => exact congrArg (fun p => [Move.change p]) (Command.change.inj hc)
    | _ => cases hc
  | signals n =>
    cases c' <;> cases hc
    have hcalls := iterate (fun _ _ hh => hh.call .producer) hh n
    unfold Host.movesOf
    dsimp only
    rw [hcalls.settleMoves]
  | saves k n =>
    cases c' <;> cases hc
    have hsaves := iterate (fun _ _ hh => hh.save k) hh n
    unfold Host.movesOf
    dsimp only
    rw [hsaves.settleMoves]
  | start =>
    cases c' <;> cases hc
    unfold Host.movesOf
    dsimp only
    rw [hh.held, hh.startMoves]
  | advance ms =>
    cases c' <;> cases hc
    unfold Host.movesOf
    dsimp only
    rw [hh.now, hh.advanceMoves]
  | become l =>
    cases c' <;> cases hc
    rfl
  | cycle =>
    cases c' <;> cases hc
    exact hh.cycleMoves
  | shutdown =>
    cases c' <;> cases hc
    unfold Host.movesOf
    dsimp only
    rw [hh.held, hh.stopMoves, hh.stopWorker.drainMoves]

end Alike

end Host

namespace Session

variable {x y : Session}

/-- a host does the same moves for the same commands, however cycles end -/
theorem Fits.commandMoves_congr (hx : x.Fits) (hy : y.Fits) (hxy : x.veiled = y.veiled)
    {cs ds : List Command} (hcs : cs.map Command.veiled = ds.map Command.veiled) :
    (x.host.commandMoves cs).map Move.veiled = (y.host.commandMoves ds).map Move.veiled := by
  induction cs generalizing x y ds with
  | nil =>
    rw [List.map_nil] at hcs
    rw [List.map_eq_nil_iff.1 hcs.symm]
    rfl
  | cons c cs ih =>
    obtain ⟨d, ds, rfl, hc, hcs⟩ := List.map_eq_cons_iff.1 hcs.symm
    have hh : x.host.Alike y.host :=
      ⟨hx.tame.leaving, hy.tame.leaving, congrArg Session.host hxy⟩
    have hmoves := hh.movesOf hc.symm
    obtain ⟨hxhost, hxfits⟩ := hx.run_movesOf c
    obtain ⟨hyhost, hyfits⟩ := hy.run_movesOf d
    have hrest := ih hxfits hyfits (run_congr hxy hmoves) hcs.symm
    rw [hxhost, hyhost] at hrest
    rw [Host.commandMoves, Host.commandMoves, List.map_append, List.map_append, hmoves, hrest]

/-! ## two runs -/

/-- **a failing cycle changes nothing of what a scheduler does next**: the hosts may differ in their
stores, exports, failures, default documents and paths -/
theorem indifferent (h h' : Host) (b : BackupSettings) (hnow : h.premises.now = h'.premises.now)
    (hlifecycle : h.premises.lifecycle = h'.premises.lifecycle)
    (hdelay : h.premises.exporter.delay = h'.premises.exporter.delay) :
    let x := opening h b
    let y := opening h' b
    (∀ ms ns, ms.map Move.veiled = ns.map Move.veiled → x.SameToSee y ms ns) ∧
      (h.leaving = [] → h'.leaving = [] →
        ∀ cs ds, cs.map Command.veiled = ds.map Command.veiled →
          let ms := x.host.commandMoves cs
          let ns := y.host.commandMoves ds
          ms.map Move.veiled = ns.map Move.veiled ∧ x.SameToSee y ms ns ∧
            (x.run ms).host = cs.foldl Host.obey x.host ∧
            (y.run ns).host = ds.foldl Host.obey y.host) := by
  intro x y
  have hpremises : h.premises.veiled = h'.premises.veiled := by
    unfold Premises.veiled
    rw [hnow, hlifecycle, hdelay]
  have hxy : x.veiled = y.veiled := veiled_ext (Host.veiled_ext rfl hpremises rfl) rfl rfl
  refine ⟨fun ms ns => sameToSee_of_veiled hxy, ?_⟩
  intro hl hl' cs ds hcs ms ns
  have hx : x.Fits := fits_opening hl b
  have hy : y.Fits := fits_opening hl' b
  have hms := hx.commandMoves_congr hy hxy hcs
  exact ⟨hms, sameToSee_of_veiled hxy hms, hx.run_commandMoves cs, hy.run_commandMoves ds⟩

/-- all cycles of the first host fail, and none of the second -/
theorem indifferent_failing :
    let h : Host := .ofSettings {} none default
      { document := [], failures := ["down", "down"], delay := 5 } .always fun _ => default
    let h' : Host := .ofSettings {} (some [35]) default { document := [35, 10], delay := 5 }
      .always fun _ => default
    let b : BackupSettings := { enabled := true, debounceMs := 10 }
    let cs : List Command := [.start, .signals 2, .advance 15, .signals 2, .shutdown]
    let x := opening h b
    let y := opening h' b
    x.SameToSee y (x.host.commandMoves cs) (y.host.commandMoves cs) ∧
      (cs.foldl Host.obey x.host).scheduler.counters = ⟨4, 2, 0, 2⟩ ∧
      (cs.foldl Host.obey y.host).scheduler.counters = ⟨4, 2, 2, 0⟩ := by
  intro h h' b cs x y
  have hsame := (indifferent h h' b rfl rfl rfl).2 rfl rfl cs cs rfl
  exact ⟨hsame.2.1, by decide +kernel, by decide +kernel⟩

end Session

end ConfigReconcile
