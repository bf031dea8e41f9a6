import ConfigReconcile.Proofs.Scheduler.Debounce

/-!
# What a burst costs

The worker takes one signal at a time and lets others gather for a whole window whenever any are left,
so a burst of signals delays the cycle by a window for each but the last.  Time is taken to pass only
while the worker waits, and no further than to what it waits for.

* `announcements`   what the worker says about itself, with the times;
* `timetable`       what it says during a burst, but for being idle;
* `LeftAlone`       the moves during which nobody sends a signal or stops the worker;
* `Way`             what such a move does, one constructor each;
* `Scheduled`       the worker is where the timetable has it.  `Way.scheduled` takes this through a
                    move, and `Scheduled.run` through a run;
* `leftAlone_advanceMoves`   a host that only lets time pass leaves its scheduler alone;
* `burst_timetable`   the whole of a burst.
-/

namespace ConfigReconcile

namespace Session

open Event Scheduler

variable {x y : Session} {m : Move} {ms : List Move} {d : Nat}

/-! ## what the worker says -/

/-- what a worker says by an act that takes it to a state -/
def announcement (now : Nat) (a : Act) (s : Scheduler) : List (Nat × Status) :=
  match a with
  | .wake => []
  | _ => [(now, s.status)]

def announced (x : Session) : Move → List (Nat × Status)
  | .act =>
    match x.host.scheduler.act? x.host.premises.surroundings with
    | some (a, s) => announcement x.host.premises.now a s
    | none => []
  | _ => []

/-- what the worker says about itself, and when -/
def announcements (x : Session) : List Move → List (Nat × Status)
  | [] => []
  | m :: ms => x.announced m ++ (x.play m).announcements ms

/-- without its being idle -/
def busy (l : List (Nat × Status)) : List (Nat × Status) := l.filter (·.2 ≠ .idle)

theorem busy_append (k l : List (Nat × Status)) : busy (k ++ l) = busy k ++ busy l :=
  List.filter_append ..

/-- what a worker says that takes so many signals one after the other, the first of them at a time -/
def timetable (t d : Nat) : Nat → List (Nat × Status)
  | 0 => []
  | 1 => [(t, .exporting)]
  | n + 2 => (t, .coalescing) :: timetable (t + d) d (n + 1)

theorem timetable_succ (t d n : Nat) : timetable t d (n + 1) =
    (List.range n).map (fun i => (t + i * d, .coalescing)) ++ [(t + n * d, .exporting)] := by
  induction n generalizing t with
  | zero => rw [timetable, Nat.zero_mul, Nat.add_zero]; rfl
  | succ n ih =>
    have hstep (i : Nat) : t + d + i * d = t + (i + 1) * d := by
      rw [Nat.add_mul]
      omega
    rw [timetable, ih, List.range_succ_eq_map, List.map_cons, List.map_map, Nat.zero_mul,
      Nat.add_zero]
    simp only [hstep]
    rfl

theorem timetable_of_lt (t d : Nat) {n : Nat} (hn : 1 < n) :
    timetable t d n = (t, .coalescing) :: timetable (t + d) d (n - 1) := by
  obtain ⟨k, rfl⟩ := Nat.exists_eq_add_of_lt hn
  rw [Nat.add_right_comm 1 k 1, Nat.add_comm (1 + 1) k]
  rfl

/-! ## a worker that is left alone -/

/-- nobody sends a signal or stops the worker, and time passes only while it waits -/
def Admits (x : Session) : Move → Prop
  | .call _ => False
  | .save k => x.host.heeds k = false
  | .pass ms =>
    x.host.scheduler.act? x.host.premises.surroundings = none ∧
      ∀ t, x.host.scheduler.due? = some t → x.host.premises.now + ms ≤ t
  | .become l => l.isTerminating = false
  | .shutdown => False
  | _ => True

def LeftAlone (x : Session) : List Move → Prop
  | [] => True
  | m :: ms => x.Admits m ∧ (x.play m).LeftAlone ms

theorem leftAlone_append (x : Session) (as bs : List Move) :
    x.LeftAlone (as ++ bs) ↔ x.LeftAlone as ∧ (x.run as).LeftAlone bs := by
  induction as generalizing x with
  | nil => exact (Iff.of_eq (true_and _)).symm
  | cons m ms ih =>
    rw [List.cons_append, LeftAlone, LeftAlone, ih, run_cons, and_assoc]

theorem Admits.isOrdinary (h : x.Admits m) : m.isOrdinary = true := by
  cases m with
  | become l => exact (Bool.not_eq_true' _).symm ▸ h
  | shutdown => exact h.elim
  | _ => rfl

/-- the scheduler goes on, and nobody waits for a slot -/
structure IsAlone (d : Nat) (x : Session) : Prop extends x.GoesOn d where
  callers : x.host.scheduler.callers = []

/-- what a move can do to a worker that is left alone -/
inductive Way (x : Session) (m : Move) (y : Session) : Prop where
  | quiet (es : List Event) (scheduler : y.host.scheduler = x.host.scheduler)
      (record : y.record = x.record ++ es) (began : .began ∉ es) (announced : x.announced m = [])
      (time : y.host.premises.now = x.host.premises.now ∨
        x.host.scheduler.act? x.host.premises.surroundings = none ∧
          ∀ t, x.host.scheduler.due? = some t → y.host.premises.now ≤ t)
  | act (a : Act) (ha : a ≠ .stop)
      (does : Does x.host.premises.surroundings x.host.scheduler a y.host.scheduler)
      (record : y.record = x.record ++ eventsOf a)
      (announced : x.announced m = announcement x.host.premises.now a y.host.scheduler)
      (time : y.host.premises.now = x.host.premises.now)
  | endCycle (ok : Bool) (hx : x.host.scheduler.isExporting = true)
      (scheduler : y.host.scheduler = x.host.scheduler.endCycle ok)
      (record : y.record = x.record ++ [.ended ok]) (announced : x.announced m = [])

theorem announced_eq_nil (hm : m ≠ .act) : x.announced m = [] := by
  cases m with
  | act => exact absurd rfl hm
  | _ => rfl

theorem way_of_eq (hm : m ≠ .act) (hs : y.host.scheduler = x.host.scheduler)
    (hr : y.record = x.record) (hn : y.host.premises.now = x.host.premises.now) : x.Way m y :=
  .quiet [] hs (hr.trans (List.append_nil _).symm) List.not_mem_nil (announced_eq_nil hm) (.inl hn)

theorem GoesOn.start_eq (h : x.GoesOn d) : x.start = x := by
  unfold Session.start
  split
  · next s _ hs =>
    obtain ⟨-, hw, -⟩ := start_eq_ok hs
    cases h.worker.symm.trans (isAtRest_iff.2 (.inl hw))
  · rfl

theorem GoesOn.way_act (h : x.GoesOn d) : x.Way .act x.act := by
  cases ha : x.host.scheduler.act? x.host.premises.surroundings with
  | none =>
    have hact : x.act = x := by rw [Session.act, ha]
    have hp : x.announced .act = [] := by rw [announced, ha]
    rw [hact]
    exact .quiet [] rfl (List.append_nil _).symm List.not_mem_nil hp (.inl rfl)
  | some q =>
    obtain ⟨a, s⟩ := q
    have hact : x.act = { x with
        host := { x.host with scheduler := s, premises := afterAct x.host.premises a }
        record := x.record ++ eventsOf a } := by rw [Session.act, ha]
    have hp : x.announced .act = announcement x.host.premises.now a s := by rw [announced, ha]
    have hdo := does_of_act? ha
    rw [hact]
    refine .act a (h.ne_stop hdo) hdo rfl hp ?_
    cases a <;> rfl

theorem way_endCycle (x : Session) : x.Way .endCycle x.endCycle := by
  unfold Session.endCycle
  split
  · next hdue =>
    exact .endCycle _ (Bool.and_eq_true_iff.1 hdue).1 rfl rfl (announced_eq_nil (by simp))
  · exact way_of_eq (by simp) rfl rfl rfl

theorem way_save {k : SaveKind} (hk : x.host.heeds k = false) : x.Way (.save k) (x.save k) := by
  have hsave : x.save k = { x with
      host := { x.host with premises := x.host.premises.note false .listener }
      record := x.record ++ [.answered .listener false] } := by
    rw [Session.save, Host.save, hk]
    rfl
  rw [hsave]
  exact .quiet [.answered .listener false] rfl rfl (by simp) (announced_eq_nil (by simp)) (.inl rfl)

theorem IsAlone.way (h : x.IsAlone d) (hm : x.Admits m) : x.Way m (x.play m) := by
  cases m with
  | call c => exact hm.elim
  | save k => exact way_save hm
  | start =>
    show x.Way .start x.start
    rw [h.start_eq]
    exact way_of_eq (by simp) rfl rfl rfl
  | act => exact h.way_act
  | endCycle => exact way_endCycle x
  | enter =>
    have hg : x.host.scheduler.granted = [] := (List.append_eq_nil_iff.1 h.callers).1
    have henter : x.enter = x := by rw [Session.enter, hg]
    show x.Way .enter x.enter
    rw [henter]
    exact way_of_eq (by simp) rfl rfl rfl
  | pass ms =>
    exact .quiet [] rfl (List.append_nil _).symm List.not_mem_nil (announced_eq_nil (by simp))
      (.inr hm)
  | become l => exact way_of_eq (by simp) rfl rfl rfl
  | change p => exact way_of_eq (by simp) rfl rfl rfl
  | shutdown => exact hm.elim
  | drain =>
    have hdrain : x.drain = x := by rw [Session.drain, h.closing]
    show x.Way .drain x.drain
    rw [hdrain]
    exact way_of_eq (by simp) rfl rfl rfl
  | endFlush =>
    have hend : x.endFlush = x := by rw [Session.endFlush, h.closing]
    show x.Way .endFlush x.endFlush
    rw [hend]
    exact way_of_eq (by simp) rfl rfl rfl

theorem Way.callers (h : x.Way m y) (hc : x.host.scheduler.callers = []) :
    y.host.scheduler.callers = [] := by
  cases h with
  | quiet es scheduler record began announced time => rwa [scheduler]
  | act a ha does record announced time => exact does.callers_eq_nil hc
  | endCycle ok hx scheduler record announced =>
    rw [scheduler]
    exact hc

theorem IsAlone.play (h : x.IsAlone d) (hm : x.Admits m) : (x.play m).IsAlone d :=
  ⟨h.toGoesOn.play hm.isOrdinary, (h.way hm).callers h.callers⟩

/-! ### what is counted -/

theorem Way.rounds (h : x.Way m y) : y.host.scheduler.counters.rounds =
    x.host.scheduler.counters.rounds + (busy (x.announced m)).countP (·.2 = .coalescing) := by
  cases h with
  | quiet es scheduler record began announced time => rw [scheduler, announced]; rfl
  | act a ha does record announced time =>
    rw [announced]
    generalize y.host.scheduler = s at does
    cases does with
    | stop _ _ => exact absurd rfl ha
    | _ => rfl
  | endCycle ok hx scheduler record announced =>
    rw [scheduler, announced]
    cases ok <;> rfl

theorem Way.began (h : x.Way m y) : ∃ es, y.record = x.record ++ es ∧
    es.count .began = (busy (x.announced m)).countP (·.2 = .exporting) := by
  cases h with
  | quiet es scheduler record began announced time =>
    exact ⟨es, record, by rw [List.count_eq_zero.2 began, announced]; rfl⟩
  | act a ha does record announced time =>
    refine ⟨eventsOf a, record, ?_⟩
    rw [announced]
    generalize y.host.scheduler = s at does
    cases does with
    | stop _ _ => exact absurd rfl ha
    | _ => rfl
  | endCycle ok hx scheduler record announced => exact ⟨_, record, by rw [announced]; rfl⟩

theorem IsAlone.rounds_run (h : x.IsAlone d) (hms : x.LeftAlone ms) :
    (x.run ms).host.scheduler.counters.rounds = x.host.scheduler.counters.rounds +
      (busy (x.announcements ms)).countP (·.2 = .coalescing) := by
  induction ms generalizing x with
  | nil => rfl
  | cons m ms ih =>
    rw [run_cons, ih (h.play hms.1) hms.2, (h.way hms.1).rounds, announcements, busy_append,
      List.countP_append, Nat.add_assoc]

theorem IsAlone.began_run (h : x.IsAlone d) (hms : x.LeftAlone ms) :
    ∃ es, (x.run ms).record = x.record ++ es ∧
      es.count .began = (busy (x.announcements ms)).countP (·.2 = .exporting) := by
  induction ms generalizing x with
  | nil => exact ⟨[], (List.append_nil _).symm, rfl⟩
  | cons m ms ih =>
    obtain ⟨es, hplay, hes⟩ := (h.way hms.1).began
    obtain ⟨fs, hrun, hfs⟩ := ih (h.play hms.1) hms.2
    refine ⟨es ++ fs, ?_, ?_⟩
    · rw [run_cons, hrun, hplay, List.append_assoc]
    · rw [List.count_append, hes, hfs, announcements, busy_append, List.countP_append]

/-! ## the timetable -/

/-- the worker has said so much of a plan, and is where the rest of it is a timetable -/
inductive Scheduled (plan : List (Nat × Status)) (d : Nat) (x : Session)
    (said : List (Nat × Status)) : Prop where
  | ready (queue : 0 < x.host.scheduler.queue) (worker : IsReady x.host.scheduler)
      (rest : plan = said ++ timetable x.host.premises.now d x.host.scheduler.queue)
  | sleeping (wake : Nat) (queue : 0 < x.host.scheduler.queue)
      (worker : x.host.scheduler.worker = .sleeping wake) (time : x.host.premises.now ≤ wake)
      (rest : plan = said ++ timetable wake d x.host.scheduler.queue)
  | done (queue : x.host.scheduler.queue = 0) (rest : plan = said)

variable {plan said : List (Nat × Status)}

theorem act?_ne_none_of_isReady {s : Scheduler} (hs : IsReady s) (hq : 0 < s.queue)
    (e : Surroundings) : s.act? e ≠ none := by
  intro ha
  rcases of_act?_eq_none ha with hr | ⟨due, hw⟩ | ⟨-, h0⟩ | ⟨wake, hw, -⟩
  · rw [IsActive.not_isAtRest (hs.imp id .inl)] at hr
    cases hr
  · rcases hs with h | h <;> cases h.symm.trans hw
  · omega
  · rcases hs with h | h <;> cases h.symm.trans hw

theorem Scheduled.quiet (h : x.Scheduled plan d said)
    (hs : y.host.scheduler = x.host.scheduler)
    (ht : y.host.premises.now = x.host.premises.now ∨
      x.host.scheduler.act? x.host.premises.surroundings = none ∧
        ∀ t, x.host.scheduler.due? = some t → y.host.premises.now ≤ t) :
    y.Scheduled plan d said := by
  cases h with
  | ready queue worker rest =>
    rcases ht with hn | ⟨ha, -⟩
    · exact .ready (hs ▸ queue) (hs ▸ worker) (by rw [hn, hs]; exact rest)
    · exact absurd ha (act?_ne_none_of_isReady worker queue _)
  | sleeping wake queue worker time rest =>
    refine .sleeping wake (hs ▸ queue) (by rw [hs, worker]) ?_ (by rw [hs]; exact rest)
    rcases ht with hn | ⟨-, hdue⟩
    · omega
    · exact hdue wake (by rw [Scheduler.due?, worker])
  | done queue rest => exact .done (hs ▸ queue) rest

theorem Scheduled.act {a : Act} (h : x.Scheduled plan d said)
    (hd : x.host.scheduler.debounce = d) (ha : a ≠ .stop)
    (does : Does x.host.premises.surroundings x.host.scheduler a y.host.scheduler)
    (ht : y.host.premises.now = x.host.premises.now) :
    y.Scheduled plan d (said ++ busy (announcement x.host.premises.now a y.host.scheduler)) := by
  generalize hs : y.host.scheduler = s at does
  cases does with
  | stop _ _ => exact absurd rfl ha
  | listen hw _ _ =>
    show y.Scheduled plan d (said ++ [])
    rw [List.append_nil]
    cases h with
    | ready queue worker rest =>
      refine .ready (by rw [hs]; exact queue) (.inr (by rw [hs])) ?_
      rw [hs, ht]
      exact rest
    | sleeping wake queue worker time rest => cases hw.symm.trans worker
    | done queue rest => exact .done (by rw [hs]; exact queue) rest
  | wake wake hw _ hle =>
    show y.Scheduled plan d (said ++ [])
    rw [List.append_nil]
    cases h with
    | ready queue worker rest => rcases worker with h | h <;> cases hw.symm.trans h
    | sleeping wake' queue worker time rest =>
      cases hw.symm.trans worker
      refine .ready (by rw [hs]; exact queue) (.inl (by rw [hs])) ?_
      rw [hs, ht, Nat.le_antisymm time hle]
      exact rest
    | done queue rest => exact .done (by rw [hs]; exact queue) rest
  | gather hw _ hq =>
    show y.Scheduled plan d (said ++ [(x.host.premises.now, .coalescing)])
    have hqueue : y.host.scheduler.queue = x.host.scheduler.queue - 1 := by
      rw [hs]
      rfl
    cases h with
    -- the plan goes on a window later, with one signal less
    | ready queue worker rest =>
      refine .sleeping (x.host.premises.now + d) (by omega) ?_ (by omega) ?_
      · rw [hs, ← hd]
        rfl
      · rw [rest, timetable_of_lt _ _ hq, hqueue, List.append_assoc]
        rfl
    | sleeping wake queue worker time rest => cases hw.symm.trans worker
    | done queue rest => omega
  | begin hw _ hq =>
    show y.Scheduled plan d (said ++ [(x.host.premises.now, .exporting)])
    cases h with
    | ready queue worker rest =>
      refine .done ?_ ?_
      · rw [hs]
        exact Nat.sub_eq_of_eq_add hq
      · rw [rest, hq]
        rfl
    | sleeping wake queue worker time rest => cases hw.symm.trans worker
    | done queue rest => omega

theorem Way.scheduled (h : x.Way m y) (hx : x.GoesOn d) (hplan : x.Scheduled plan d said) :
    y.Scheduled plan d (said ++ busy (x.announced m)) := by
  cases h with
  | quiet es scheduler record began announced time =>
    rw [announced, busy, List.filter_nil, List.append_nil]
    exact hplan.quiet scheduler time
  | act a ha does record announced time =>
    rw [announced]
    exact hplan.act hx.debounce ha does time
  | endCycle ok hexp scheduler record announced =>
    rw [announced, busy, List.filter_nil, List.append_nil]
    obtain ⟨due, hw⟩ := isExporting_iff.1 hexp
    cases hplan with
    | ready queue worker rest => rcases worker with h | h <;> cases h.symm.trans hw
    | sleeping wake queue worker time rest => cases worker.symm.trans hw
    | done queue rest => exact .done (by rw [scheduler]; exact queue) rest

theorem Scheduled.run (h : x.Scheduled plan d said) (hx : x.IsAlone d) (hms : x.LeftAlone ms) :
    (x.run ms).Scheduled plan d (said ++ busy (x.announcements ms)) := by
  induction ms generalizing x said with
  | nil => exact (List.append_nil said).symm ▸ h
  | cons m ms ih =>
    have hplay := (hx.way hms.1).scheduled hx.toGoesOn h
    rw [announcements, busy_append, ← List.append_assoc]
    exact ih hplay (hx.play hms.1) hms.2

/-- all has been said once no signal is left -/
theorem Scheduled.eq_iff (h : x.Scheduled plan d said) :
    said = plan ↔ x.host.scheduler.queue = 0 := by
  have hne (t : Nat) (hq : 0 < x.host.scheduler.queue)
      (rest : plan = said ++ timetable t d x.host.scheduler.queue) : said ≠ plan := by
    obtain ⟨k, hk⟩ := Nat.exists_eq_succ_of_ne_zero (Nat.ne_of_gt hq)
    rw [rest, hk, timetable_succ]
    simp
  cases h with
  | ready queue worker rest =>
    exact iff_of_false (hne _ queue rest) (Nat.ne_of_gt queue)
  | sleeping wake queue worker time rest =>
    exact iff_of_false (hne _ queue rest) (Nat.ne_of_gt queue)
  | done queue rest => exact iff_of_true rest.symm queue

theorem Scheduled.isPrefix (h : x.Scheduled plan d said) : said <+: plan := by
  cases h with
  | ready queue worker rest => exact ⟨_, rest.symm⟩
  | sleeping wake queue worker time rest => exact ⟨_, rest.symm⟩
  | done queue rest => exact rest ▸ List.prefix_rfl

theorem getLast?_timetable (t d n : Nat) :
    (timetable t d (n + 1)).getLast? = some (t + n * d, .exporting) := by
  rw [timetable_succ, List.getLast?_append]
  rfl

/-- a worker that waits at the end of the plan waits for nothing of it -/
theorem Scheduled.queue_eq_zero {last : Nat} {s : Status} (h : x.Scheduled plan d said)
    (hplan : plan.getLast? = some (last, s)) (hlast : last ≤ x.host.premises.now)
    (ha : x.host.scheduler.act? x.host.premises.surroundings = none) :
    x.host.scheduler.queue = 0 := by
  cases h with
  | ready queue worker rest => exact absurd ha (act?_ne_none_of_isReady worker queue _)
  -- a worker that sleeps is to wake before the end of the plan
  | sleeping wake queue worker time rest =>
    obtain ⟨k, hk⟩ := Nat.exists_eq_succ_of_ne_zero (Nat.ne_of_gt queue)
    rw [rest, hk, List.getLast?_append, getLast?_timetable] at hplan
    cases hplan
    rcases of_act?_eq_none ha with hr | ⟨due, hw⟩ | ⟨hw, -⟩ | ⟨wake', hw, hlt⟩
    · rw [IsActive.not_isAtRest (.inr (.inr ⟨wake, worker⟩))] at hr
      cases hr
    · cases worker.symm.trans hw
    · cases worker.symm.trans hw
    · cases worker.symm.trans hw
      have hnow : x.host.premises.now < wake := hlt
      omega
  | done queue rest => exact queue

/-! ## a host by itself -/

/-- the scheduler of a session is held as long as its shutdown is not called -/
structure IsHeld (x : Session) : Prop where
  leaving : x.host.leaving = []
  held : x.closing = .uncalled → x.host.held = true

theorem IsHeld.play (h : x.IsHeld) (m : Move) : (x.play m).IsHeld := by
  cases m with
  | call c => exact ⟨h.leaving, h.held⟩
  | save k =>
    show (x.save k).IsHeld
    unfold Session.save Host.save
    split <;> exact ⟨h.leaving, h.held⟩
  | start =>
    show x.start.IsHeld
    unfold Session.start
    split <;> exact ⟨h.leaving, h.held⟩
  | act =>
    show x.act.IsHeld
    unfold Session.act
    split <;> exact ⟨h.leaving, h.held⟩
  | endCycle =>
    show x.endCycle.IsHeld
    unfold Session.endCycle
    split <;> exact ⟨h.leaving, h.held⟩
  | enter =>
    show x.enter.IsHeld
    unfold Session.enter
    split <;> exact ⟨h.leaving, h.held⟩
  | pass ms => exact ⟨h.leaving, h.held⟩
  | become l => exact ⟨h.leaving, h.held⟩
  | change p => exact ⟨h.leaving, h.held⟩
  | shutdown =>
    show x.shutdown.IsHeld
    unfold Session.shutdown
    split
    · exact ⟨h.leaving, fun hc => by cases hc⟩
    · exact h
  | drain =>
    show x.drain.IsHeld
    unfold Session.drain
    split
    · split
      · dsimp only
        split <;> exact ⟨h.leaving, fun hc => by cases hc⟩
      · exact h
    · exact h
  | endFlush =>
    show x.endFlush.IsHeld
    unfold Session.endFlush
    split
    · split
      · exact ⟨h.leaving, fun hc => by cases hc⟩
      · exact h
    · exact h

theorem plain_run {h : Host} (hl : h.leaving = []) (b : BackupSettings) {ms : List Move}
    (hc : ((opening h b).run ms).closing = .uncalled) : ((opening h b).run ms).host.Plain := by
  have hheld : ((opening h b).run ms).IsHeld :=
    run_induction ⟨hl, fun _ => rfl⟩ (fun y m hy => hy.play m) ms
  exact ⟨hheld.leaving, hheld.held hc⟩

theorem leftAlone_nextMoves (x : Session) (k : Host) : x.LeftAlone k.nextMoves := by
  unfold Host.nextMoves
  split
  · exact ⟨trivial, trivial⟩
  · split
    · exact ⟨trivial, trivial⟩
    · generalize k.scheduler.granted = cs
      induction cs generalizing x with
      | nil => trivial
      | cons c cs ih => exact ⟨trivial, ih _⟩

/-- while nothing is to be done, time may pass up to what is due next -/
theorem admits_pass (hp : x.host.Plain) (ht : x.host.turn? = none) {k : Nat}
    (hk : ∀ t, x.host.due? = some t → x.host.premises.now + k ≤ t) : x.Admits (.pass k) := by
  rw [hp.due?] at hk
  exact ⟨(Premises.turn?_eq_none (hp.turn?_eq_none ht)).1, hk⟩

theorem leftAlone_movesAhead (hp : x.host.Plain) : x.LeftAlone x.host.movesAhead := by
  unfold Host.movesAhead
  split
  · next t ht hd =>
    refine ⟨admits_pass hp ht ?_, leftAlone_nextMoves _ _⟩
    intro u hu
    cases hd.symm.trans hu
    have := hp.now_lt_due ht hd
    omega
  · exact leftAlone_nextMoves _ _

/-- until a time before which there are no turns, nothing is due -/
theorem admits_rest (hp : x.host.Plain) {t : Nat} (ht : x.host.premises.now ≤ t)
    (hb : x.host.turnBefore? t = none) : x.Admits (.pass (t - x.host.premises.now)) := by
  unfold Host.turnBefore? at hb
  split at hb
  · cases hb
  · next hn =>
    apply admits_pass hp hn
    intro u hu
    -- at the time at which something is due there is a turn
    have hle : t ≤ u := by
      apply Nat.le_of_not_lt
      intro hlt
      rw [hu, Option.filter_some, if_pos (decide_eq_true hlt)] at hb
      have hpu : (x.host.atTime u).Plain := ⟨hp.leaving, hp.held⟩
      exact Nat.lt_irrefl u (hpu.now_lt_due hb hu)
    omega

/-- a host that waits leaves its scheduler alone -/
theorem leftAlone_movesUntil (hp : x.host.Plain) {t : Nat} (ht : x.host.premises.now ≤ t) :
    x.LeftAlone (x.host.movesUntil t) := by
  induction hw : x.host.weight using Nat.strongRecOn generalizing x with
  | ind w ih =>
    cases hb : x.host.turnBefore? t with
    | none =>
      rw [Host.movesUntil_of_none hb]
      exact ⟨admits_rest hp ht hb, trivial⟩
    | some h' =>
      have hlt : h'.weight < w := hw ▸ Host.weight_turnBefore? hb
      obtain ⟨⟨hhost, -⟩, hp', ht'⟩ := takes_turnBefore hp ht hb
      rw [Host.movesUntil_of_turnBefore? hb, leftAlone_append]
      refine ⟨leftAlone_movesAhead hp, ?_⟩
      rw [← hhost] at hlt hp' ht' ⊢
      exact ih _ hlt hp' ht' rfl

/-- a host to which only time passes leaves its scheduler alone, and in the end everybody waits -/
theorem leftAlone_advanceMoves (hp : x.host.Plain) {t : Nat} (ht : x.host.premises.now ≤ t) :
    let y := x.run (x.host.advanceMoves t)
    x.LeftAlone (x.host.advanceMoves t) ∧ y.host = x.host.advanceTo t ∧
      y.host.premises.now = t ∧ y.host.scheduler.act? y.host.premises.surroundings = none := by
  intro y
  have hwait : (x.host.wait t).Plain := hp.wait t
  have hhost : y.host = x.host.advanceTo t := (takes_advanceMoves hp.tame ht).1
  refine ⟨?_, hhost, ?_, ?_⟩
  · obtain ⟨huntil, -⟩ := takes_wait hp ht
    have hp' : (x.run (x.host.movesUntil t)).host.Plain := huntil ▸ hwait
    rw [Host.advanceMoves, leftAlone_append, ← huntil]
    exact ⟨leftAlone_movesUntil hp ht, leftAlone_movesUntil hp' (Nat.le_refl _)⟩
  · rw [hhost, Host.now_advanceTo]
  · have hsettle : (x.host.wait t).settle.Plain := hwait.wait _
    rw [hhost]
    exact (Premises.turn?_eq_none (hsettle.turn?_eq_none hwait.turn?_settle)).1

/-! ## the burst -/

/-- a worker that is about to see so many signals, while nobody waits for a slot -/
structure IsLoaded (n : Nat) (x : Session) : Prop where
  ready : IsReady x.host.scheduler
  queue : x.host.scheduler.queue = n
  callers : x.host.scheduler.callers = []
  cancelled : x.host.scheduler.cancelled = false
  closing : x.closing = .uncalled
  terminating : x.host.premises.lifecycle.isTerminating = false

theorem IsLoaded.isAlone {n : Nat} (h : x.IsLoaded n) (hs : x.Sound)
    (hd : x.host.scheduler.debounce = d) : x.IsAlone d where
  sound := hs
  worker := IsActive.not_isAtRest (h.ready.imp id .inl)
  cancelled := h.cancelled
  closing := h.closing
  terminating := h.terminating
  debounce := hd
  callers := h.callers

theorem IsLoaded.scheduled {n : Nat} (h : x.IsLoaded (n + 1)) (d : Nat) :
    x.Scheduled (timetable x.host.premises.now d (n + 1)) d [] :=
  .ready (h.queue ▸ Nat.succ_pos n) h.ready (by rw [h.queue, List.nil_append])

/-- so far the worker has only let signals gather -/
theorem counts_of_prefix {first d k : Nat}
    (h : said <+: (List.range k).map fun i => (first + i * d, Status.coalescing)) :
    said.countP (·.2 = .exporting) = 0 ∧ said.countP (·.2 = .coalescing) = said.length := by
  have hall : ∀ p ∈ said, p.2 = .coalescing := by
    intro p hp
    obtain ⟨i, -, rfl⟩ := List.mem_map.1 (h.subset hp)
    rfl
  rw [List.countP_eq_zero, List.countP_eq_length]
  exact ⟨fun p hp => by simp [hall p hp], fun p hp => by simp [hall p hp]⟩

/-- **what a burst costs**: `n` signals that are in the queue when the worker is about to look.
Whatever happens that leaves the scheduler alone, the worker says what the plan has, at the times that
it has, and nothing else: `n - 1` times that it lets others gather, a window after each other, and then
that it exports.  The queue is empty just when all of this is said.  By then one cycle has begun and
`n - 1` rounds are counted, and before no cycle has.  All is said once the time of the cycle has come
and the worker waits; and a host to which nothing is done but that time passes leaves the scheduler
alone and gets there -/
theorem burst_timetable (h : Host) (b : BackupSettings) (hb : b.enabled = true)
    (before : List Move) (n : Nat) (hn : 1 ≤ n) (hx : ((opening h b).run before).IsLoaded n) :
    let x := (opening h b).run before
    let first := x.host.premises.now
    let d := b.debounceMs.toNat
    let last := first + (n - 1) * d
    let plan := (List.range (n - 1)).map (fun i => (first + i * d, Status.coalescing)) ++
      [(last, .exporting)]
    (∀ ms, x.LeftAlone ms →
      let y := x.run ms
      let said := busy (x.announcements ms)
      let cycles := (x.events ms).count .began
      let rounds := x.host.scheduler.counters.rounds
      said <+: plan ∧ (said = plan ↔ y.host.scheduler.queue = 0) ∧
      (said = plan → cycles = 1 ∧ y.host.scheduler.counters.rounds = rounds + (n - 1)) ∧
      (said ≠ plan → cycles = 0 ∧ y.host.scheduler.counters.rounds = rounds + said.length) ∧
      (last ≤ y.host.premises.now →
        y.host.scheduler.act? y.host.premises.surroundings = none → said = plan)) ∧
    (h.leaving = [] → ∀ t, last ≤ t →
      let ms := x.host.advanceMoves t
      let y := x.run ms
      x.LeftAlone ms ∧ y.host = x.host.advanceTo t ∧ y.host.premises.now = t ∧
        y.host.scheduler.act? y.host.premises.surroundings = none) := by
  intro x first d last plan
  obtain ⟨k, rfl⟩ := Nat.exists_eq_add_of_le' hn
  have halone : x.IsAlone d := hx.isAlone (sound_run h hb before) (debounce_run h hb before)
  have hplan : plan = timetable first d (k + 1) := (timetable_succ first d k).symm
  have hstart : x.Scheduled plan d [] := hplan ▸ hx.scheduled d
  constructor
  · intro ms hms y said cycles rounds
    have hend : y.Scheduled plan d said := hstart.run halone hms
    have hrounds : y.host.scheduler.counters.rounds =
        rounds + said.countP (·.2 = .coalescing) := halone.rounds_run hms
    have hcycles : cycles = said.countP (·.2 = .exporting) := by
      obtain ⟨es, hrecord, hes⟩ := halone.began_run hms
      show (x.events ms).count .began = _
      rw [events_eq hrecord, hes]
    refine ⟨hend.isPrefix, hend.eq_iff, ?_, ?_, ?_⟩
    · intro hsaid
      obtain ⟨hnone, hall⟩ := counts_of_prefix (List.prefix_refl
        ((List.range k).map fun i => (first + i * d, Status.coalescing)))
      rw [List.length_map, List.length_range] at hall
      rw [hcycles, hrounds, hsaid, List.countP_append, List.countP_append]
      exact ⟨congrArg (· + 1) hnone, congrArg (rounds + ·) hall⟩
    · intro hsaid
      obtain ⟨hnone, hall⟩ :=
        counts_of_prefix ((List.prefix_concat_iff.1 hend.isPrefix).resolve_left hsaid)
      exact ⟨hcycles.trans hnone, hrounds.trans (congrArg (rounds + ·) hall)⟩
    · intro hlast ha
      exact hend.eq_iff.2
        (hend.queue_eq_zero (hplan ▸ getLast?_timetable first d k) hlast ha)
  · intro hl t ht
    exact leftAlone_advanceMoves (plain_run hl b hx.closing) (Nat.le_trans (Nat.le_add_right _ _) ht)

/-- five signals before the worker is started, with windows of ten milliseconds -/
theorem burst_timetable_five :
    let b : BackupSettings := { enabled := true, debounceMs := 10 }
    let before : List Move := List.replicate 5 (.call .producer) ++ [.start]
    ((opening emptyHost b).run before).IsLoaded 5 ∧
      ∃ ms, ((opening emptyHost b).run before).LeftAlone ms ∧
        busy (((opening emptyHost b).run before).announcements ms) = [(0, .coalescing),
          (10, .coalescing), (20, .coalescing), (30, .coalescing), (40, .exporting)] := by
  intro b before
  have hclosing : ((opening emptyHost b).run before).closing = .uncalled :=
    (sound_opening emptyHost rfl).closing_run (by decide +kernel) rfl
  have hx : ((opening emptyHost b).run before).IsLoaded 5 := ⟨.inl (by decide +kernel),
    by decide +kernel, by decide +kernel, by decide +kernel, hclosing, by decide +kernel⟩
  have hfirst : ((opening emptyHost b).run before).host.premises.now = 0 := by decide +kernel
  have hcost := burst_timetable emptyHost b rfl before 5 (by decide) hx
  -- the rest does not depend on what the session is, and must not evaluate it
  generalize (opening emptyHost b).run before = x at hx hfirst hcost ⊢
  obtain ⟨hruns, hhost⟩ := hcost
  rw [hfirst] at hruns hhost
  obtain ⟨hms, -, hnow, hwaits⟩ := hhost rfl 100 (by decide)
  refine ⟨hx, _, hms, (hruns _ hms).2.2.2.2 ?_ hwaits⟩
  rw [hnow]
  decide

end Session

end ConfigReconcile
