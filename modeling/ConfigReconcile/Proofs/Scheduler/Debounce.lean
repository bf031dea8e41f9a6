import ConfigReconcile.Proofs.Scheduler.Exclusion
import ConfigReconcile.Proofs.Scheduler.Rest

/-!
# Bursts of signals

A worker that takes a signal lets others gather if there are any behind it, and begins a cycle at
once if there are none.  So it depends on the first signal of a burst how many cycles it costs.  If
the worker has found others behind it, it sleeps longer than the burst goes on, and one cycle is
enough; and else the first signal has a cycle of its own.

* `Event.firstTake`   what the worker did when it took the first signal;
* `Stage`             how far a burst is, by what was behind its first signal.  `Stage.play` takes it
                      through a move, and `Stage.run` through a run;
* `cycles_of_burst`   the cycles of a burst.
-/

namespace ConfigReconcile

/-- how the worker has taken its first signal, if it has -/
def Event.firstTake (es : List Event) : Option Event := es.find? (· ∈ [.gathered, .began])

namespace Session

open Event Scheduler

variable {x y : Session} {m : Move} {ms : List Move} {es : List Event} {d : Nat}

/-! ## how far a burst is -/

/-- how far a burst is of which so many signals are accepted, the first of them at a time -/
inductive Stage (d first : Nat) (x : Session) (n : Nat) (es : List Event) : Prop where
  /-- no signal has been taken yet -/
  | untaken (take : firstTake es = none) (began : es.count .began = 0)
      (ready : IsReady x.host.scheduler)
      (queue : x.host.scheduler.queue = n) (time : 0 < n → first ≤ x.host.premises.now)
  /-- the first signal was taken with others behind it, and some are still there -/
  | gathering (take : firstTake es = some .gathered) (began : es.count .began = 0)
      (queue : 0 < x.host.scheduler.queue)
      (time : first + d ≤ x.host.premises.now ∨
        ∃ wake, x.host.scheduler.worker = .sleeping wake ∧ first + d ≤ wake)
  /-- the cycle has begun for all of them -/
  | gathered (take : firstTake es = some .gathered) (began : es.count .began = 1)
      (queue : x.host.scheduler.queue = 0) (time : first + d ≤ x.host.premises.now)
  /-- the first signal had a cycle of its own, and there are no others -/
  | alone (take : firstTake es = some .began) (began : es.count .began = 1) (single : n = 1)
      (queue : x.host.scheduler.queue = 0)
  /-- others have come too late for it, and are still there -/
  | behind (take : firstTake es = some .began) (began : 1 ≤ es.count .began) (more : 2 ≤ n)
      (queue : 0 < x.host.scheduler.queue)
  /-- and have had another cycle -/
  | several (take : firstTake es = some .began) (began : 2 ≤ es.count .began) (more : 2 ≤ n)

variable {first n : Nat} {e : Event}

theorem firstTake_append_of_none {fs : List Event} (h : firstTake es = none) :
    firstTake (es ++ fs) = firstTake fs := by
  rw [firstTake, List.find?_append, ← firstTake, h]
  rfl

theorem firstTake_append_of_some {fs : List Event} (h : firstTake es = some e) :
    firstTake (es ++ fs) = some e := by
  rw [firstTake, List.find?_append, ← firstTake, h]
  rfl

theorem firstTake_append_calm (es : List Event) {fs : List Event}
    (hf : ∀ e ∈ fs, e ≠ .gathered ∧ e ≠ .began) :
    firstTake (es ++ fs) = firstTake es := by
  have hnone : firstTake fs = none := by
    apply List.find?_eq_none.2
    intro e he
    simp [hf e he]
  rw [firstTake, List.find?_append, ← firstTake, ← firstTake, hnone, Option.or_none]

theorem count_began_append_calm (es : List Event) {fs : List Event}
    (hf : ∀ e ∈ fs, e ≠ .gathered ∧ e ≠ .began) :
    (es ++ fs).count .began = es.count .began := by
  rw [List.count_append, List.count_eq_zero.2 fun h => (hf _ h).2 rfl, Nat.add_zero]

/-- signals may come into the queue, and none is taken -/
theorem Stage.calm {k : Nat} {fs : List Event} (h : x.Stage d first n es)
    (hf : ∀ e ∈ fs, e ≠ .gathered ∧ e ≠ .began)
    (hq : y.host.scheduler.queue = x.host.scheduler.queue + k)
    (hnow : x.host.premises.now ≤ y.host.premises.now)
    (hk : 0 < k → first ≤ x.host.premises.now ∧ x.host.premises.now < first + d)
    (hready : IsReady x.host.scheduler → IsReady y.host.scheduler)
    (hsleep : ∀ wake, x.host.scheduler.worker = .sleeping wake →
      y.host.scheduler.worker = .sleeping wake ∨ wake ≤ y.host.premises.now) :
    y.Stage d first (n + k) (es ++ fs) := by
  have hbegan := count_began_append_calm es hf
  have htake := firstTake_append_calm es hf
  cases h with
  | untaken take began ready queue time =>
    refine .untaken (htake.trans take) (hbegan.trans began) (hready ready) (by omega) ?_
    intro hn
    rcases Nat.eq_zero_or_pos n with h0 | h0
    · have := (hk (by omega)).1
      omega
    · have := time h0
      omega
  | gathering take began queue time =>
    refine .gathering (htake.trans take) (hbegan.trans began) (by omega) ?_
    rcases time with ht | ⟨wake, hwake, ht⟩
    · exact .inl (Nat.le_trans ht hnow)
    · rcases hsleep wake hwake with hw | hle
      · exact .inr ⟨wake, hw, ht⟩
      · exact .inl (Nat.le_trans ht hle)
  | gathered take began queue time =>
    -- it is too late for signals of the burst
    have hzero : k = 0 := by
      rcases Nat.eq_zero_or_pos k with h0 | h0
      · exact h0
      · have := (hk h0).2
        omega
    exact .gathered (htake.trans take) (hbegan.trans began) (by omega) (Nat.le_trans time hnow)
  | alone take began single queue =>
    rcases Nat.eq_zero_or_pos k with h0 | h0
    · exact .alone (htake.trans take) (hbegan.trans began) (by omega) (by omega)
    · exact .behind (htake.trans take) (by omega) (by omega) (by omega)
  | behind take began more queue =>
    exact .behind (htake.trans take) (by omega) (by omega) (by omega)
  | several take began more => exact .several (htake.trans take) (by omega) (by omega)

theorem Stage.gather (h : x.Stage d first n es) (hw : x.host.scheduler.worker = .listening)
    (hmore : 1 < x.host.scheduler.queue)
    (hq : y.host.scheduler.queue = x.host.scheduler.queue - 1)
    (hwake : y.host.scheduler.worker = .sleeping (x.host.premises.now + d))
    (hnow : x.host.premises.now ≤ y.host.premises.now) :
    y.Stage d first n (es ++ [.gathered]) := by
  have hbegan : (es ++ [Event.gathered]).count .began = es.count .began := by
    rw [List.count_append]
    rfl
  cases h with
  | untaken take began ready queue time =>
    have := time (by omega)
    exact .gathering (firstTake_append_of_none take) (hbegan.trans began) (by omega)
      (.inr ⟨_, hwake, by omega⟩)
  | gathering take began queue time =>
    refine .gathering (firstTake_append_of_some take) (hbegan.trans began) (by omega) ?_
    rcases time with ht | ⟨wake, hs, -⟩
    · exact .inl (Nat.le_trans ht hnow)
    · cases hs.symm.trans hw
  | gathered take began queue time => omega
  | alone take began single queue => omega
  | behind take began more queue =>
    exact .behind (firstTake_append_of_some take) (by omega) more (by omega)
  | several take began more => exact .several (firstTake_append_of_some take) (by omega) more

theorem Stage.begin (h : x.Stage d first n es) (hw : x.host.scheduler.worker = .listening)
    (hlast : x.host.scheduler.queue = 1) (hq : y.host.scheduler.queue = 0)
    (hnow : x.host.premises.now ≤ y.host.premises.now) :
    y.Stage d first n (es ++ [.began]) := by
  have hbegan : (es ++ [Event.began]).count .began = es.count .began + 1 := by
    rw [List.count_append]
    rfl
  cases h with
  | untaken take began ready queue time =>
    exact .alone (firstTake_append_of_none take) (by omega) (by omega) hq
  | gathering take began queue time =>
    refine .gathered (firstTake_append_of_some take) (by omega) hq ?_
    rcases time with ht | ⟨wake, hs, -⟩
    · exact Nat.le_trans ht hnow
    · cases hs.symm.trans hw
  | gathered take began queue time => omega
  | alone take began single queue => omega
  | behind take began more queue =>
    exact .several (firstTake_append_of_some take) (by omega) more
  | several take began more => exact .several (firstTake_append_of_some take) (by omega) more

theorem Stage.act {a : Act} (h : x.Stage d first n es) (hd : x.host.scheduler.debounce = d)
    (ha : a ≠ .stop)
    (does : Does x.host.premises.surroundings x.host.scheduler a y.host.scheduler)
    (hnow : x.host.premises.now ≤ y.host.premises.now) :
    y.Stage d first n (es ++ eventsOf a) := by
  have hnone : ∀ e ∈ ([] : List Event), e ≠ .gathered ∧ e ≠ .began :=
    fun e he => absurd he List.not_mem_nil
  generalize hs : y.host.scheduler = s at does
  cases does with
  | stop _ _ => exact absurd rfl ha
  | listen hw _ _ =>
    refine h.calm (k := 0) hnone (by rw [hs]; rfl) hnow (by omega) ?_ ?_
    · exact fun _ => .inr (by rw [hs])
    · intro wake hwake
      cases hw.symm.trans hwake
  | wake wake hw _ ht =>
    refine h.calm (k := 0) hnone (by rw [hs]; rfl) hnow (by omega) ?_ ?_
    · rintro (hr | hr) <;> cases hw.symm.trans hr
    · intro wake' hwake
      cases hw.symm.trans hwake
      exact .inr (Nat.le_trans ht hnow)
  | gather hw _ hq =>
    refine h.gather hw hq (by rw [hs]; rfl) ?_ hnow
    rw [hs, ← hd]
    rfl
  | begin hw _ hq => exact h.begin hw hq (by rw [hs]; exact Nat.sub_eq_of_eq_add hq) hnow

theorem Stage.play (h : x.Stage d first n es) (hx : x.GoesOn d) (hm : m.isOrdinary = true)
    (hin : ∀ t ∈ x.arrivals m, first ≤ t ∧ t < first + d) :
    ∃ fs, (x.play m).record = x.record ++ fs ∧
      (x.play m).Stage d first (n + (x.arrivals m).length) (es ++ fs) := by
  have hnow := x.now_le_now_play m
  have hlen : (x.arrivals m).length =
      (x.play m).host.scheduler.counters.accepted - x.host.scheduler.counters.accepted :=
    List.length_replicate
  cases hx.step hm with
  | calm fs hc =>
    obtain ⟨k, granted, waiting, hs⟩ := hc.scheduler
    have hk : (x.arrivals m).length = k := by
      rw [hlen, hs]
      exact Nat.add_sub_cancel_left _ _
    refine ⟨fs, hc.record, hk ▸ h.calm ?_ (by rw [hs]; rfl) hnow ?_ ?_ ?_⟩
    · intro e he
      obtain ⟨c, ok, rfl⟩ := hc.answers e he
      simp
    · intro hpos
      apply hin
      exact List.mem_replicate.2 ⟨by omega, rfl⟩
    · rw [IsReady, IsReady, hc.worker]
      exact id
    · intro wake hw
      exact .inl (hc.worker.trans hw)
  | act a ha does record =>
    have hk : (x.arrivals m).length = 0 := by
      rw [hlen]
      generalize (x.play m).host.scheduler = s at does
      cases does <;> exact Nat.sub_self _
    refine ⟨eventsOf a, record, ?_⟩
    rw [hk]
    exact h.act hx.debounce ha does hnow
  | endCycle ok hexporting hs record =>
    have hk : (x.arrivals m).length = 0 := by
      rw [hlen, hs]
      cases ok <;> exact Nat.sub_self _
    obtain ⟨due, hdue⟩ := isExporting_iff.1 hexporting
    refine ⟨[.ended ok], record, ?_⟩
    rw [hk]
    refine h.calm (k := 0) ?_ (by rw [hs]; rfl) hnow (by omega) ?_ ?_
    · intro e he
      rw [List.mem_singleton.1 he]
      simp
    · rintro (hr | hr) <;> cases hr.symm.trans hdue
    · intro wake hw
      cases hw.symm.trans hdue

theorem Stage.run (h : x.Stage d first n es) (hx : x.GoesOn d)
    (hms : ∀ m ∈ ms, m.isOrdinary = true)
    (hin : ∀ t ∈ x.acceptTimes ms, first ≤ t ∧ t < first + d) :
    ∃ fs, (x.run ms).record = x.record ++ fs ∧
      (x.run ms).Stage d first (n + (x.acceptTimes ms).length) (es ++ fs) := by
  induction ms generalizing x n es with
  | nil => exact ⟨[], (List.append_nil _).symm, by simpa [acceptTimes, Session.run] using h⟩
  | cons m ms ih =>
    have hm := hms m (List.mem_cons_self ..)
    obtain ⟨fs, hrecord, hplay⟩ := h.play hx hm fun t ht => hin t (List.mem_append_left _ ht)
    obtain ⟨gs, hrun, hstage⟩ := ih hplay (hx.play hm)
      (fun k hk => hms k (List.mem_cons_of_mem _ hk)) fun t ht => hin t (List.mem_append_right _ ht)
    refine ⟨fs ++ gs, ?_, ?_⟩
    · rw [run_cons, hrun, hrecord, List.append_assoc]
    · rw [List.append_assoc, Nat.add_assoc, ← List.length_append] at hstage
      exact hstage

/-! ## the cycles of a burst -/

/-- what is recorded during some moves -/
def events (x : Session) (ms : List Move) : List Event := (x.run ms).record.drop x.record.length

theorem events_eq {fs : List Event} (h : (x.run ms).record = x.record ++ fs) : x.events ms = fs := by
  rw [events, h, List.drop_left]

theorem IsIdle.stage (h : x.IsIdle) : x.Stage d first 0 [] :=
  .untaken rfl rfl h.ready h.queue (by omega)

theorem IsIdle.isBusy (h : x.IsIdle) : x.isBusy = false := by
  have hactive : x.host.scheduler.IsActive := h.ready.imp id .inl
  exact isBusy_eq hactive.not_isExporting (by rw [h.closing]; exact id)

/-- all cycles between two times of rest have ended -/
theorem countP_isEnd_events (hx : x.Orderly) (hidle : x.IsIdle) (hrest : (x.run ms).IsIdle)
    (hes : (x.run ms).record = x.record ++ es) : es.countP isEnd = es.count .began := by
  have hbefore := hx.follows
  have hafter := (hx.run ms).follows
  rw [hidle.isBusy] at hbefore
  rw [hrest.isBusy, hes, Follows, List.foldlM_append, hbefore] at hafter
  have hcount : 0 + es.count .began = es.countP isEnd + 0 := count_of_foldlM hafter
  omega

theorem Stage.count_began (h : x.Stage d first n es) (hn : 0 < n)
    (hq : x.host.scheduler.queue = 0) :
    (n = 1 ∨ firstTake es = some .gathered → es.count .began = 1) ∧
      (n ≠ 1 → firstTake es ≠ some .gathered → 2 ≤ es.count .began) := by
  cases h with
  | untaken take began ready queue time => omega
  | gathering take began queue time => omega
  | gathered take began queue time => exact ⟨fun _ => began, fun _ ht => absurd take ht⟩
  | alone take began single queue => exact ⟨fun _ => began, fun hn _ => absurd single hn⟩
  | behind take began more queue => omega
  | several take began more =>
    refine ⟨?_, fun _ _ => began⟩
    rintro (h1 | h1)
    · omega
    · cases take.symm.trans h1

theorem Stage.count_began_le (h : x.Stage d first n es) (ht : firstTake es = some .gathered) :
    es.count .began ≤ 1 := by
  cases h with
  | untaken take began ready queue time => omega
  | gathering take began queue time => omega
  | gathered take began queue time => omega
  | alone take began single queue => cases take.symm.trans ht
  | behind take began more queue => cases take.symm.trans ht
  | several take began more => cases take.symm.trans ht

/-- **the cycles of a burst**: of signals that come into the queue within the window of the first,
the worker being idle before.  Once it is idle again, it has run one cycle if there was one signal, or
if it has found others behind the first; else there were more.  And it always comes to rest by itself
when nobody waits for a slot -/
theorem cycles_of_burst (h : Host) (b : BackupSettings) (hb : b.enabled = true)
    (hd : 0 < b.debounceMs.toNat) (before ms : List Move) (first : Nat) (later : List Nat)
    (hidle : ((opening h b).run before).IsIdle) (hms : ∀ m ∈ ms, m.isOrdinary = true)
    (htimes : ((opening h b).run before).acceptTimes ms = first :: later)
    (hwindow : ∀ t ∈ later, t < first + b.debounceMs.toNat) :
    let x := (opening h b).run before
    let es := x.events ms
    ((x.run ms).IsIdle → es.countP Event.isEnd = es.count .began ∧
      (later = [] ∨ firstTake es = some .gathered → es.count .began = 1) ∧
      (later ≠ [] → firstTake es ≠ some .gathered → 2 ≤ es.count .began)) ∧
    (firstTake es = some .gathered → es.count .began ≤ 1) ∧
    ((x.run ms).host.scheduler.callers = [] → ∃ more, (∀ m ∈ more, m.isOfWorker = true) ∧
      x.acceptTimes (ms ++ more) = first :: later ∧ (x.run (ms ++ more)).IsIdle) := by
  intro x es
  have hx : x.Orderly := (orderly_opening h hb).run before
  have hgoes := hidle.goesOn hx.sound (debounce_run h hb before)
  have hin : ∀ t ∈ x.acceptTimes ms, first ≤ t ∧ t < first + b.debounceMs.toNat := by
    have hsorted := x.pairwise_acceptTimes ms
    rw [htimes] at hsorted ⊢
    intro t ht
    rcases List.mem_cons.1 ht with rfl | ht
    · omega
    · exact ⟨List.rel_of_pairwise_cons hsorted ht, hwindow t ht⟩
  obtain ⟨fs, hrecord, hstage⟩ := hidle.stage.run hgoes hms hin
  have hes : es = fs := events_eq hrecord
  rw [htimes, List.length_cons, Nat.zero_add, List.nil_append, ← hes] at hstage
  refine ⟨?_, hstage.count_began_le, ?_⟩
  · intro hrest
    refine ⟨countP_isEnd_events hx hidle hrest (hes ▸ hrecord), ?_⟩
    have hcount := hstage.count_began (Nat.succ_pos _) hrest.queue
    rw [Nat.add_eq_right, List.length_eq_zero_iff, Ne, Nat.add_eq_right,
      List.length_eq_zero_iff] at hcount
    exact hcount
  · intro hc
    obtain ⟨more, hmore, hnone, hrest⟩ := (hgoes.run hms).exists_run_idle hc
    refine ⟨more, hmore, ?_, ?_⟩
    · rw [acceptTimes_append, htimes, hnone, List.append_nil]
    · rw [run_append]
      exact hrest

theorem isIdle_of_listening (hclosing : x.closing = .uncalled)
    (h : x.host.scheduler.worker = .listening ∧ x.host.scheduler.queue = 0 ∧
      x.host.scheduler.callers = [] ∧ x.host.scheduler.cancelled = false ∧
      x.host.premises.lifecycle.isTerminating = false) : x.IsIdle :=
  ⟨.inr h.1, h.2.1, h.2.2.1, h.2.2.2.1, hclosing, h.2.2.2.2⟩

/-- a host with an empty store, whose exports take no time -/
def emptyHost : Host where
  backup := {}
  paths := default
  premises := {
    cycle := default
    site := default
    exporter := { document := [] }
    lifecycle := .always
    readings := fun _ => default }
  scheduler := default

/-- a signal behind the first one, and a third one late in the window -/
theorem cycles_of_burst_gathered :
    let h := emptyHost
    let b : BackupSettings := { enabled := true, debounceMs := 10 }
    let before : List Move := [.start, .act]
    let ms : List Move := [.call .producer, .call .producer, .act, .pass 9, .call .listener,
      .pass 1, .act, .act, .act, .pass 10, .act, .act, .act, .endCycle, .act]
    ((opening h b).run before).IsIdle ∧ ((opening h b).run before).acceptTimes ms = 0 :: [0, 9] ∧
      (((opening h b).run before).run ms).IsIdle ∧
      (((opening h b).run before).events ms).count .began = 1 := by
  intro h b before ms
  have hms : ∀ m ∈ ms, m.isOrdinary = true := by decide +kernel
  have hsound : ((opening h b).run before).Sound := sound_run h rfl before
  have hclosing : ((opening h b).run before).closing = .uncalled :=
    (sound_opening h rfl).closing_run (by decide +kernel) rfl
  have hidle : ((opening h b).run before).IsIdle := isIdle_of_listening hclosing (by decide +kernel)
  have hrest : (((opening h b).run before).run ms).IsIdle :=
    isIdle_of_listening (hsound.closing_run hms hclosing) (by decide +kernel)
  have htimes : ((opening h b).run before).acceptTimes ms = 0 :: [0, 9] := by decide +kernel
  have htake : firstTake (((opening h b).run before).events ms) = some .gathered := by
    decide +kernel
  have hcycles := cycles_of_burst h b rfl (by decide) before ms 0 [0, 9] hidle hms htimes
    (by decide)
  exact ⟨hidle, htimes, hrest, (hcycles.1 hrest).2.1 (.inr htake)⟩

/-- signals that come in within a closed window, and nothing that would delay the worker -/
structure IsBurst (h : Host) (b : BackupSettings) (before ms : List Move) (first : Nat)
    (later : List Nat) : Prop where
  enabled : b.enabled = true
  debounce : 0 < b.debounceMs.toNat
  delay : h.premises.exporter.delay = 0
  unchanged : ∀ p, .change p ∉ before ++ ms
  idle : ((opening h b).run before).IsIdle
  ordinary : ∀ m ∈ ms, m.isOrdinary = true
  times : ((opening h b).run before).acceptTimes ms = first :: later
  window : ∀ t ∈ later, t ≤ first + b.debounceMs.toNat
  rest : (((opening h b).run before).run ms).IsIdle

/-- a burst may cost more than one cycle: if the second signal comes when the first has been taken,
and even if the worker has found others behind the first, but one comes just as it wakes -/
theorem not_one_cycle_of_burst :
    (¬∀ h b before ms first later, IsBurst h b before ms first later →
      (((opening h b).run before).events ms).count .began = 1) ∧
    ¬∀ h b before ms first later, IsBurst h b before ms first later →
      firstTake (((opening h b).run before).events ms) = some .gathered →
      (((opening h b).run before).events ms).count .began = 1 := by
  let h := emptyHost
  let b : BackupSettings := { enabled := true, debounceMs := 10 }
  let before : List Move := [.start, .act]
  have hsound : ((opening h b).run before).Sound := sound_run h rfl before
  have hclosing : ((opening h b).run before).closing = .uncalled :=
    (sound_opening h rfl).closing_run (by decide +kernel) rfl
  have hidle : ((opening h b).run before).IsIdle := isIdle_of_listening hclosing (by decide +kernel)
  constructor
  · let ms : List Move := [.call .producer, .act, .endCycle, .act, .pass 5, .call .producer, .act,
      .endCycle, .act]
    have hms : ∀ m ∈ ms, m.isOrdinary = true := by decide +kernel
    have hrest : (((opening h b).run before).run ms).IsIdle :=
      isIdle_of_listening (hsound.closing_run hms hclosing) (by decide +kernel)
    have hburst : IsBurst h b before ms 0 [5] := ⟨rfl, by decide, rfl, by simp [before, ms], hidle,
      hms, by decide +kernel, by decide, hrest⟩
    have htwo : (((opening h b).run before).events ms).count .began = 2 := by decide +kernel
    intro hone
    have := hone h b before ms 0 [5] hburst
    omega
  · let ms : List Move := [.call .producer, .call .producer, .act, .pass 10, .act, .act, .act,
      .endCycle, .act, .call .producer, .act, .endCycle, .act]
    have hms : ∀ m ∈ ms, m.isOrdinary = true := by decide +kernel
    have hrest : (((opening h b).run before).run ms).IsIdle :=
      isIdle_of_listening (hsound.closing_run hms hclosing) (by decide +kernel)
    have hburst : IsBurst h b before ms 0 [0, 10] := ⟨rfl, by decide, rfl, by simp [before, ms],
      hidle, hms, by decide +kernel, by decide, hrest⟩
    have htwo : (((opening h b).run before).events ms).count .began = 2 := by decide +kernel
    intro hone
    have := hone h b before ms 0 [0, 10] hburst (by decide +kernel)
    omega

end Session

end ConfigReconcile
