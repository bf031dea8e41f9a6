import ConfigReconcile.Proofs.Scheduler.NoLoss
import Mathlib.Data.List.Nodup

/-!
# Signals are conserved

Signals carry nothing, so a scheduler keeps only numbers of them.  A LEDGER keeps track of each one:
a call that sends a signal is known by the number of calls before it, and it stands in one of the
lists of the ledger, first come first served,

* `waiting`, `granted`      it waits for a slot, or has one and is about to come into the queue;
* `queue`                   its signal is in the queue;
* `gathered`, `cycled`      the worker has taken the signal, for a round or for a cycle;
* `flushed`                 the signal was left in the queue when the shutdown closed it,

and `answers` lists the answers that were given, in order.  `Session.ledger` follows a run.

`Ledger.Sorted` says that a call is answered once or still waits, and that the signals of the calls
answered well, and no others, are in the queue or were taken out of it; every entry in the ledger
keeps it.  `Ledger.Matches` says that the numbers of the scheduler are those of the ledger.  Both
hold of every run (`Session.agrees_run`), and with them the balance of the counters
(`Session.signals_conserved`).
-/

namespace ConfigReconcile

open Scheduler

/-! ## the ledger -/

structure Ledger where
  /-- how many calls there were -/
  calls : Nat := 0
  waiting : List Nat := []
  granted : List Nat := []
  queue : List Nat := []
  gathered : List Nat := []
  cycled : List Nat := []
  flushed : List Nat := []
  answers : List (Nat × Bool) := []

namespace Ledger

/-- a call with what becomes of it at once -/
def call (l : Ledger) : Reply → Ledger
  | .accepted =>
    { l with
      calls := l.calls + 1
      queue := l.queue ++ [l.calls]
      answers := l.answers ++ [(l.calls, true)] }
  | .waiting => { l with calls := l.calls + 1, waiting := l.waiting ++ [l.calls] }
  | .refused => { l with calls := l.calls + 1, answers := l.answers ++ [(l.calls, false)] }

/-- without the first signal, whose slot is granted to the first that waits -/
def take (l : Ledger) : Ledger :=
  { l with
    queue := l.queue.drop 1
    granted := l.granted ++ l.waiting.take 1
    waiting := l.waiting.drop 1 }

def act (l : Ledger) : Act → Ledger
  | .gather => { l.take with gathered := l.gathered ++ l.queue.take 1 }
  | .begin => { l.take with cycled := l.cycled ++ l.queue.take 1 }
  | _ => l

/-- the first that has a slot puts its signal into the queue -/
def enter (l : Ledger) : Ledger :=
  match l.granted with
  | [] => l
  | i :: rest =>
    { l with granted := rest, queue := l.queue ++ [i], answers := l.answers ++ [(i, true)] }

/-- the queue is emptied, and whoever waits is refused -/
def close (l : Ledger) : Ledger :=
  { l with
    waiting := []
    granted := []
    queue := []
    flushed := l.flushed ++ l.queue
    answers := l.answers ++ (l.granted ++ l.waiting).map (·, false) }

/-! ## one place for each call -/

/-- every call is answered once or waits, and its signal is somewhere if the answer was good -/
structure Sorted (l : Ledger) : Prop where
  calls : ∀ i, l.answers.count (i, true) + l.answers.count (i, false) + l.granted.count i +
    l.waiting.count i = (List.range l.calls).count i
  signals : ∀ i, l.answers.count (i, true) =
    l.queue.count i + l.gathered.count i + l.cycled.count i + l.flushed.count i
  total : l.answers.countP (·.2) =
    l.queue.length + l.gathered.length + l.cycled.length + l.flushed.length

theorem sorted_empty : ({} : Ledger).Sorted where
  calls i := by simp
  signals i := by simp
  total := rfl

theorem count_pair (i j : Nat) (a b : Bool) :
    [(i, a)].count (j, b) = if a = b then [i].count j else 0 := by
  rw [List.count_singleton, List.count_singleton]
  by_cases ha : a = b <;> by_cases hi : i = j <;> simp [ha, hi]

theorem count_map_pair (is : List Nat) (j : Nat) (a b : Bool) :
    (is.map (·, a)).count (j, b) = if a = b then is.count j else 0 := by
  induction is with
  | nil => simp
  | cons i is ih =>
    rw [List.map_cons, ← List.singleton_append, List.count_append, ih, count_pair,
      ← List.singleton_append (l := is), List.count_append]
    split <;> rfl

theorem count_take_add_count_drop (is : List Nat) (j : Nat) :
    (is.take 1).count j + (is.drop 1).count j = is.count j := by
  rw [← List.count_append, List.take_append_drop]

variable {l : Ledger}

theorem Sorted.call (h : l.Sorted) (r : Reply) : (l.call r).Sorted where
  calls i := by
    have hc := h.calls i
    cases r <;>
      simp only [Ledger.call, List.count_append, count_pair, List.range_succ, reduceIte,
        reduceCtorEq] <;>
      omega
  signals i := by
    have hs := h.signals i
    cases r <;>
      simp only [Ledger.call, List.count_append, count_pair, reduceIte, reduceCtorEq] <;>
      omega
  total := by
    have ht := h.total
    cases r <;> simp [Ledger.call] <;> omega

theorem Sorted.act (h : l.Sorted) (a : Act) : (l.act a).Sorted where
  calls i := by
    have hc := h.calls i
    have hw := count_take_add_count_drop l.waiting i
    cases a <;> simp only [Ledger.act, Ledger.take, List.count_append] <;> omega
  signals i := by
    have hs := h.signals i
    have hq := count_take_add_count_drop l.queue i
    cases a <;> simp only [Ledger.act, Ledger.take, List.count_append] <;> omega
  total := by
    have ht := h.total
    cases a <;>
      simp only [Ledger.act, Ledger.take, List.length_append, List.length_take,
        List.length_drop] <;>
      omega

theorem Sorted.enter (h : l.Sorted) : l.enter.Sorted := by
  unfold Ledger.enter
  split
  · exact h
  · next i rest hg =>
    constructor
    · intro j
      have hc := h.calls j
      rw [hg, ← List.singleton_append, List.count_append] at hc
      simp only [List.count_append, count_pair, reduceIte, reduceCtorEq]
      omega
    · intro j
      have hs := h.signals j
      simp only [List.count_append, count_pair, reduceIte]
      omega
    · have ht := h.total
      simp
      omega

theorem Sorted.close (h : l.Sorted) : l.close.Sorted where
  calls i := by
    have hc := h.calls i
    simp only [Ledger.close, List.count_append, count_map_pair, reduceIte, reduceCtorEq,
      List.count_nil]
    omega
  signals i := by
    have hs := h.signals i
    simp only [Ledger.close, List.count_append, count_map_pair, reduceIte, reduceCtorEq,
      List.count_nil]
    omega
  total := by
    have ht := h.total
    have hnone : ((l.granted ++ l.waiting).map (·, false)).countP (·.2) = 0 := by
      simp [List.countP_eq_zero]
    simp only [Ledger.close, List.countP_append, hnone, List.length_append, List.length_nil]
    omega

/-! ## where a call stands -/

/-- how often a call has been accepted, has been refused and waits, and in how many places its
signal is: in the queue, or taken out of it -/
structure Standing where
  accepted : Nat
  refused : Nat
  waiting : Nat
  signals : Nat
  deriving DecidableEq

def standing (l : Ledger) (i : Nat) : Standing where
  accepted := l.answers.count (i, true)
  refused := l.answers.count (i, false)
  waiting := l.granted.count i + l.waiting.count i
  signals := l.queue.count i + l.gathered.count i + l.cycled.count i + l.flushed.count i

namespace Standing

def ofAccepted : Standing := ⟨1, 0, 0, 1⟩
def ofWaiting : Standing := ⟨0, 0, 1, 0⟩
def ofRefused : Standing := ⟨0, 1, 0, 0⟩

end Standing

theorem Sorted.standing (h : l.Sorted) {i : Nat} (hi : i < l.calls) :
    l.standing i = .ofAccepted ∨ l.standing i = .ofWaiting ∨
      l.standing i = .ofRefused ∧ (i, false) ∈ l.answers := by
  have hc := h.calls i
  have hs := h.signals i
  rw [List.count_eq_one_of_mem List.nodup_range (List.mem_range.2 hi)] at hc
  simp only [Ledger.standing, Standing.ofAccepted, Standing.ofWaiting, Standing.ofRefused,
    Standing.mk.injEq]
  rcases Nat.eq_zero_or_pos (l.answers.count (i, false)) with hr | hr
  · omega
  · refine .inr (.inr ⟨?_, List.count_pos_iff.1 hr⟩)
    omega

/-! ## the numbers of the scheduler -/

/-- the scheduler has the numbers of the ledger; `flushes` cycles that ended were no worker's -/
structure Matches (l : Ledger) (s : Scheduler) (flushes : Nat) : Prop where
  queue : l.queue.length = s.queue
  granted : l.granted.length = s.granted.length
  waiting : l.waiting.length = s.waiting.length
  accepted : l.answers.countP (·.2) = s.counters.accepted
  rounds : l.gathered.length = s.counters.rounds
  cycles : l.cycled.length + flushes =
    s.counters.completed + s.counters.failed + s.isExporting.toNat
  room : s.queue + s.granted.length ≤ s.capacity

theorem matches_ofSettings (b : BackupSettings) :
    ({} : Ledger).Matches (.ofSettings b) 0 :=
  ⟨rfl, rfl, rfl, rfl, rfl, rfl, Nat.zero_le _⟩

variable {s s' : Scheduler} {n : Nat}

theorem Matches.call {c : Caller} {r : Reply} (h : l.Matches s n) (hr : Replies s c (r, s')) :
    (l.call r).Matches s' n := by
  obtain ⟨hqueue, hgranted, hwaiting, haccepted, hrounds, hcycles, hroom⟩ := h
  cases hr with
  | refused _ =>
    refine ⟨hqueue, hgranted, hwaiting, ?_, hrounds, hcycles, hroom⟩
    simp [Ledger.call, haccepted]
  | waiting _ _ =>
    refine ⟨hqueue, hgranted, ?_, haccepted, hrounds, hcycles, hroom⟩
    simp [Ledger.call, hwaiting]
  | accepted _ hf =>
    refine ⟨?_, hgranted, hwaiting, ?_, hrounds, hcycles, ?_⟩
    · simp [Ledger.call, hqueue]
    · simp [Ledger.call, haccepted]
    · simp only [isFull, decide_eq_false_iff_not] at hf
      show s.queue + 1 + s.granted.length ≤ s.capacity
      omega

theorem Matches.act {e : Surroundings} {a : Act} (h : l.Matches s n) (ha : Does e s a s') :
    (l.act a).Matches s' n := by
  obtain ⟨hqueue, hgranted, hwaiting, haccepted, hrounds, hcycles, hroom⟩ := h
  have hx := ha.isActive.not_isExporting
  rw [hx] at hcycles
  cases ha with
  | stop _ _ => exact ⟨hqueue, hgranted, hwaiting, haccepted, hrounds, hcycles, hroom⟩
  | listen _ _ _ => exact ⟨hqueue, hgranted, hwaiting, haccepted, hrounds, hcycles, hroom⟩
  | wake _ _ _ _ => exact ⟨hqueue, hgranted, hwaiting, haccepted, hrounds, hcycles, hroom⟩
  | gather _ _ hq =>
    refine ⟨?_, ?_, ?_, haccepted, ?_, hcycles, ?_⟩
    · simp [Ledger.act, Ledger.take, Scheduler.gather, Scheduler.take, hqueue]
    · simp [Ledger.act, Ledger.take, Scheduler.gather, Scheduler.take, hgranted, hwaiting]
    · simp [Ledger.act, Ledger.take, Scheduler.gather, Scheduler.take, hwaiting]
    · simp only [Ledger.act, Scheduler.gather, Scheduler.take, List.length_append,
        List.length_take]
      omega
    · simp only [Scheduler.gather, Scheduler.take, List.length_append, List.length_take]
      omega
  | begin _ _ hq =>
    refine ⟨?_, ?_, ?_, haccepted, hrounds, ?_, ?_⟩
    · simp [Ledger.act, Ledger.take, Scheduler.begin, Scheduler.take, hqueue]
    · simp [Ledger.act, Ledger.take, Scheduler.begin, Scheduler.take, hgranted, hwaiting]
    · simp [Ledger.act, Ledger.take, Scheduler.begin, Scheduler.take, hwaiting]
    · simp only [Ledger.act, Scheduler.begin, Scheduler.take, List.length_append,
        List.length_take, isExporting, Bool.toNat_true]
      rw [Bool.toNat_false] at hcycles
      omega
    · simp only [Scheduler.begin, Scheduler.take, List.length_append, List.length_take]
      omega

theorem Matches.enter (h : l.Matches s n) : l.enter.Matches s.enter n := by
  obtain ⟨hqueue, hgranted, hwaiting, haccepted, hrounds, hcycles, hroom⟩ := h
  match hl : l.granted, hs : s.granted with
  | [], [] =>
    rw [Ledger.enter, hl, Scheduler.enter, hs]
    exact ⟨hqueue, hgranted, hwaiting, haccepted, hrounds, hcycles, hroom⟩
  | i :: is, c :: cs =>
    rw [hl, hs, List.length_cons, List.length_cons] at hgranted
    rw [hs, List.length_cons] at hroom
    rw [Ledger.enter, hl, Scheduler.enter, hs]
    refine ⟨?_, Nat.succ.inj hgranted, hwaiting, ?_, hrounds, hcycles, ?_⟩
    · simp [hqueue]
    · simp [haccepted]
    · show s.queue + 1 + cs.length ≤ s.capacity
      omega
  | [], _ :: _ =>
    rw [hl, hs] at hgranted
    cases hgranted
  | _ :: _, [] =>
    rw [hl, hs] at hgranted
    cases hgranted

theorem Matches.endCycle (h : l.Matches s n) (hx : s.isExporting = true) (ok : Bool) :
    l.Matches (s.endCycle ok) n := by
  obtain ⟨hqueue, hgranted, hwaiting, haccepted, hrounds, hcycles, hroom⟩ := h
  rw [hx, Bool.toNat_true] at hcycles
  cases ok with
  | true =>
    refine ⟨hqueue, hgranted, hwaiting, haccepted, hrounds, ?_, hroom⟩
    show l.cycled.length + n = s.counters.completed + 1 + s.counters.failed + 0
    omega
  | false => exact ⟨hqueue, hgranted, hwaiting, haccepted, hrounds, hcycles, hroom⟩

theorem Matches.countCycle (h : l.Matches s n) (ok : Bool) :
    l.Matches (s.countCycle ok) (n + 1) := by
  obtain ⟨hqueue, hgranted, hwaiting, haccepted, hrounds, hcycles, hroom⟩ := h
  refine ⟨hqueue, hgranted, hwaiting, ?_, ?_, ?_, hroom⟩
  · cases ok <;> exact haccepted
  · cases ok <;> exact hrounds
  · cases ok with
    | true =>
      show l.cycled.length + (n + 1) =
        s.counters.completed + 1 + s.counters.failed + s.isExporting.toNat
      omega
    | false =>
      show l.cycled.length + (n + 1) =
        s.counters.completed + (s.counters.failed + 1) + s.isExporting.toNat
      omega

theorem Matches.close (h : l.Matches s n) : l.close.Matches s.close n where
  queue := rfl
  granted := rfl
  waiting := rfl
  accepted := by
    rw [Ledger.close, List.countP_append, h.accepted, List.countP_map]
    simp [Scheduler.close]
  rounds := h.rounds
  cycles := h.cycles
  room := Nat.zero_le _

theorem Matches.cancel (h : l.Matches s n) : l.Matches s.cancel n :=
  ⟨h.queue, h.granted, h.waiting, h.accepted, h.rounds, h.cycles, h.room⟩

theorem Matches.publish (h : l.Matches s n) (t : Status) : l.Matches { s with status := t } n :=
  ⟨h.queue, h.granted, h.waiting, h.accepted, h.rounds, h.cycles, h.room⟩

theorem Matches.of_start (h : l.Matches s n) (hs : s.start = .ok s') : l.Matches s' n := by
  obtain ⟨-, hw, rfl⟩ := start_eq_ok hs
  refine ⟨h.queue, h.granted, h.waiting, h.accepted, h.rounds, ?_, h.room⟩
  have hx := isExporting_of_isAtRest (isAtRest_iff.2 (.inl hw))
  rw [h.cycles, hx]
  rfl

end Ledger

namespace Scheduler

variable {s s' : Scheduler} {c : Caller} {e : Surroundings} {a : Act}

/-- a change that leaves the settings of the queue alone, and does not close it -/
structure Holds (s s' : Scheduler) : Prop where
  capacity : s'.capacity = s.capacity
  closed : s'.closed = s.closed

theorem Replies.holds {r : Reply} (h : Replies s c (r, s')) : s.Holds s' := by
  cases h <;> exact ⟨rfl, rfl⟩

theorem Replies.closed_of_refused (h : Replies s c (.refused, s')) : s.closed = true := by
  cases h with
  | refused hc => exact hc

theorem Does.holds (h : Does e s a s') : s.Holds s' := by
  cases h <;> exact ⟨rfl, rfl⟩

theorem holds_enter (s : Scheduler) : s.Holds s.enter := by
  unfold enter
  split <;> exact ⟨rfl, rfl⟩

end Scheduler

/-! ## the ledger of a run -/

namespace Closing

/-- how many signals the shutdown has found in the queue -/
def pending : Closing → Nat
  | .uncalled => 0
  | .stopping => 0
  | .flushing pending _ => pending
  | .over r => r.pending

/-- how many cycles the shutdown has begun -/
def begun : Closing → Nat
  | .uncalled => 0
  | .stopping => 0
  | .flushing _ _ => 1
  | .over r => r.flush.isSome.toNat

/-- how many of them have ended -/
def ended : Closing → Nat
  | .over r => r.flush.isSome.toNat
  | _ => 0

end Closing

namespace Session

/-- the ledger after one more move -/
def note (x : Session) (l : Ledger) : Move → Ledger
  | .call c => l.call (x.host.scheduler.signal c).1
  | .save k => if x.host.heeds k then l.call (x.host.scheduler.signal .listener).1 else l
  | .act =>
    match x.host.scheduler.act? x.host.premises.surroundings with
    | some (a, _) => l.act a
    | none => l
  | .enter => l.enter
  | .drain =>
    match x.closing with
    | .stopping => if x.host.scheduler.isAtRest then l.close else l
    | _ => l
  | _ => l

def ledgerFrom (x : Session) (l : Ledger) : List Move → Ledger
  | [] => l
  | m :: ms => (x.play m).ledgerFrom (x.note l m) ms

/-- the ledger of a run -/
def ledger (x : Session) (ms : List Move) : Ledger := x.ledgerFrom {} ms

/-- what holds of a session and its ledger, for a scheduler of given settings -/
structure Agrees (b : BackupSettings) (x : Session) (l : Ledger) : Prop where
  sound : x.Sound
  tallies : l.Matches x.host.scheduler x.closing.ended
  sorted : l.Sorted
  capacity : x.host.scheduler.capacity = max 1 b.queueCapacity.toNat
  /-- only the shutdown closes the queue -/
  closed : x.host.scheduler.closed = true → x.closing.IsDrained
  /-- cycles are begun by the worker and by the shutdown -/
  begins : x.record.count .began = l.cycled.length + x.closing.begun
  /-- nobody is refused before the queue is closed -/
  refused : ∀ i, (i, false) ∈ l.answers → x.closing.IsDrained
  flushed : l.flushed.length = x.closing.pending
  /-- the shutdown begins a cycle if it has found anything -/
  flush : x.closing.IsDrained → x.closing.begun = if x.closing.pending = 0 then 0 else 1

variable {b : BackupSettings} {x y : Session} {l k : Ledger}

theorem agrees_opening (h : Host) (hb : b.enabled = true) : (opening h b).Agrees b {} where
  sound := sound_opening h hb
  tallies := Ledger.matches_ofSettings b
  sorted := Ledger.sorted_empty
  capacity := rfl
  closed hc := by cases hc
  begins := rfl
  refused _ hi := absurd hi List.not_mem_nil
  flushed := rfl
  flush := False.elim

theorem Agrees.quiet (h : x.Agrees b l) (hsound : y.Sound) (hc : y.closing = x.closing)
    (hm : k.Matches y.host.scheduler x.closing.ended) (hs : k.Sorted)
    (hh : x.host.scheduler.Holds y.host.scheduler)
    (hb : y.record.count .began + l.cycled.length = x.record.count .began + k.cycled.length)
    (hf : k.flushed = l.flushed)
    (hr : ∀ i, (i, false) ∈ k.answers → (i, false) ∈ l.answers ∨ x.closing.IsDrained) :
    y.Agrees b k where
  sound := hsound
  tallies := hc ▸ hm
  sorted := hs
  capacity := hh.capacity.trans h.capacity
  closed hclosed := by
    rw [hc]
    exact h.closed (hh.closed ▸ hclosed)
  begins := by
    have := h.begins
    rw [hc]
    omega
  refused i hi := by
    rw [hc]
    rcases hr i hi with hl | hd
    · exact h.refused i hl
    · exact hd
  flushed := by rw [hf, h.flushed, hc]
  flush := hc ▸ h.flush

theorem Agrees.unnoted (h : x.Agrees b l) (hsound : y.Sound) (hc : y.closing = x.closing)
    (hm : l.Matches y.host.scheduler x.closing.ended)
    (hh : x.host.scheduler.Holds y.host.scheduler)
    (hb : y.record.count .began = x.record.count .began) : y.Agrees b l :=
  h.quiet hsound hc hm h.sorted hh (by rw [hb]) rfl fun _ hi => .inl hi

theorem count_began_append {es fs : List Event} (h : Event.began ∉ fs) :
    (es ++ fs).count .began = es.count .began := by
  rw [List.count_append, List.count_eq_zero.2 h, Nat.add_zero]

/-! ## calls -/

theorem not_began_answer (c : Caller) (r : Reply) : Event.began ∉ answer c r := by
  intro h
  obtain ⟨ok, he, -⟩ := mem_answer h
  cases he

theorem mem_answers_call {r : Reply} {i : Nat} (h : (i, false) ∈ (l.call r).answers) :
    (i, false) ∈ l.answers ∨ r = .refused := by
  cases r with
  | refused => exact .inr rfl
  | waiting => exact .inl h
  | accepted =>
    rcases List.mem_append.1 h with h | h
    · exact .inl h
    · cases List.mem_singleton.1 h

theorem Agrees.call (h : x.Agrees b l) (c : Caller) :
    (x.call c).Agrees b (l.call (x.host.scheduler.signal c).1) := by
  have hr : Replies x.host.scheduler c ((x.host.scheduler.signal c).1, (x.call c).host.scheduler) :=
    replies_signal h.sound.enabled c
  refine h.quiet (h.sound.call c) rfl (h.tallies.call hr) (h.sorted.call _) hr.holds ?_ ?_ ?_
  · rw [show (x.call c).record = x.record ++ answer c _ from rfl,
      count_began_append (not_began_answer c _)]
    cases (x.host.scheduler.signal c).1 <;> rfl
  · cases (x.host.scheduler.signal c).1 <;> rfl
  · intro i hi
    rcases mem_answers_call hi with hi | hrefused
    · exact .inl hi
    · rw [hrefused] at hr
      exact .inr (h.closed hr.closed_of_refused)

theorem Agrees.save (h : x.Agrees b l) (k : SaveKind) :
    (x.save k).Agrees b (x.note l (.save k)) := by
  show (x.save k).Agrees b (if x.host.heeds k then _ else l)
  by_cases hk : x.host.heeds k = true
  · rw [if_pos hk, Session.save, if_pos hk]
    exact h.call .listener
  · have hsound := h.sound.save k
    have hs : (x.host.save k).scheduler = x.host.scheduler := by rw [Host.save, if_neg hk]
    rw [Session.save, if_neg hk] at hsound ⊢
    rw [if_neg hk]
    refine h.unnoted hsound rfl ?_ ?_ ?_
    · show l.Matches (x.host.save k).scheduler _
      rw [hs]
      exact h.tallies
    · show x.host.scheduler.Holds (x.host.save k).scheduler
      rw [hs]
      exact ⟨rfl, rfl⟩
    · exact count_began_append (by simp)

theorem Agrees.enter (h : x.Agrees b l) : x.enter.Agrees b l.enter := by
  have hsound := h.sound.enter
  have hm := h.tallies.enter
  have hs := h.sorted.enter
  have hh := holds_enter x.host.scheduler
  cases hx : x.host.scheduler.granted with
  | nil =>
    have hl : l.granted = [] := List.length_eq_zero_iff.1 (by rw [h.tallies.granted, hx]; rfl)
    rw [Session.enter, hx, Ledger.enter, hl]
    exact h
  | cons c rest =>
    unfold Session.enter at hsound ⊢
    rw [hx] at hsound ⊢
    refine h.quiet hsound rfl hm hs hh ?_ ?_ ?_
    · rw [count_began_append (by simp), Ledger.enter]
      split <;> rfl
    · rw [Ledger.enter]
      split <;> rfl
    · intro i hi
      left
      rw [Ledger.enter] at hi
      split at hi
      · exact hi
      · rcases List.mem_append.1 hi with hi | hi
        · exact hi
        · cases List.mem_singleton.1 hi

/-! ## the worker -/

theorem Agrees.start (h : x.Agrees b l) : x.start.Agrees b l := by
  have hsound := h.sound.start
  unfold Session.start at hsound ⊢
  split at hsound
  · next s hc hs =>
    obtain ⟨-, -, heq⟩ := start_eq_ok hs
    refine h.unnoted hsound rfl (h.tallies.of_start hs) ?_ rfl
    rw [heq]
    exact ⟨rfl, rfl⟩
  · exact h

theorem Agrees.act (h : x.Agrees b l) : x.act.Agrees b (x.note l .act) := by
  have hsound := h.sound.act
  unfold Session.note
  unfold Session.act at hsound ⊢
  split at hsound
  · next ha =>
    rw [ha]
    exact h
  · next a s ha =>
    have hdo := does_of_act? ha
    rw [ha]
    refine h.quiet hsound rfl (h.tallies.act hdo) (h.sorted.act a) hdo.holds ?_ ?_ ?_
    · cases hdo with
      | begin _ _ hq =>
        have hlen := h.tallies.queue
        show (x.record ++ [Event.began]).count Event.began + _ = _
        rw [List.count_append]
        simp only [Ledger.act, List.length_append, List.length_take, List.count_singleton_self]
        omega
      | _ =>
        rw [count_began_append (by simp [eventsOf])]
        rfl
    · cases a <;> rfl
    · intro i hi
      left
      cases a <;> exact hi

theorem Agrees.endCycle (h : x.Agrees b l) : x.endCycle.Agrees b l := by
  have hsound := h.sound.endCycle
  unfold Session.endCycle at hsound ⊢
  split at hsound
  · next hdue =>
    have hx : x.host.scheduler.isExporting = true := (Bool.and_eq_true_iff.1 hdue).1
    rw [if_pos hdue]
    refine h.unnoted hsound rfl (h.tallies.endCycle hx _) ⟨rfl, rfl⟩ ?_
    exact count_began_append (by simp)
  · next hdue =>
    rw [if_neg hdue]
    exact h

/-! ## the shutdown -/

theorem Agrees.shutdown (h : x.Agrees b l) : x.shutdown.Agrees b l := by
  have hsound := h.sound.shutdown
  cases hc : x.closing with
  | uncalled =>
    rw [Session.shutdown, hc] at hsound ⊢
    obtain ⟨-, hm, hs, hcap, hclosed, hbegins, hrefused, hflushed, -⟩ := h
    rw [hc] at hm hclosed hbegins hrefused hflushed
    exact ⟨hsound, hm.cancel, hs, hcap, hclosed, hbegins, hrefused, hflushed, False.elim⟩
  | _ =>
    rw [Session.shutdown, hc]
    exact h

theorem not_began_refusals (cs : List Caller) : Event.began ∉ cs.map (Event.answered · false) := by
  intro h
  obtain ⟨c, he⟩ := mem_refusals h
  cases he

theorem Agrees.drain_of_atRest (h : x.Agrees b l) (hc : x.closing = .stopping)
    (hr : x.host.scheduler.isAtRest = true) : x.drain.Agrees b l.close := by
  have hsound := h.sound.drain
  have hm := h.tallies.close
  have hqueue := h.tallies.queue
  have hs := h.sorted.close
  have hcap := h.capacity
  have hbegins := h.begins
  have hnone : l.flushed = [] := List.length_eq_zero_iff.1 (by rw [h.flushed, hc]; rfl)
  rw [hc] at hm hbegins
  cases hf : mustFlush x.host.scheduler with
  | true =>
    rw [Session.drain_of_pending hc hr hf] at hsound ⊢
    have hpos : x.host.scheduler.queue ≠ 0 := by
      rw [mustFlush, Bool.and_eq_true] at hf
      simpa using hf.2
    refine ⟨hsound, hm.publish _, hs, hcap, fun _ => trivial, ?_, fun _ _ => trivial, ?_,
      fun _ => ?_⟩
    · show (x.record ++ _ ++ [Event.began]).count Event.began = l.cycled.length + 1
      rw [List.count_append, count_began_append (not_began_refusals _), hbegins]
      rfl
    · show (l.flushed ++ l.queue).length = x.host.scheduler.queue
      rw [hnone, List.nil_append, hqueue]
    · exact (if_neg hpos).symm
  | false =>
    rw [Session.drain_of_empty hc hr hf] at hsound ⊢
    have hzero : x.host.scheduler.queue = 0 := by
      rw [mustFlush, h.sound.enabled] at hf
      simpa using hf
    refine ⟨hsound, hm.publish _, hs, hcap, fun _ => trivial, ?_, fun _ _ => trivial, ?_,
      fun _ => ?_⟩
    · show (x.record ++ _ ++ [Event.returned]).count Event.began = l.cycled.length + 0
      rw [count_began_append (by simp), count_began_append (not_began_refusals _), hbegins]
      rfl
    · show (l.flushed ++ l.queue).length = x.host.scheduler.queue
      rw [hnone, List.nil_append, hqueue]
    · exact (if_pos hzero).symm

theorem Agrees.drain (h : x.Agrees b l) : x.drain.Agrees b (x.note l .drain) := by
  cases hc : x.closing with
  | stopping =>
    cases hr : x.host.scheduler.isAtRest with
    | true =>
      have hnote : x.note l .drain = l.close := by rw [Session.note, hc, hr]; rfl
      rw [hnote]
      exact h.drain_of_atRest hc hr
    | false =>
      have hnote : x.note l .drain = l := by rw [Session.note, hc, hr]; rfl
      rw [hnote, Session.drain, hc, hr]
      exact h
  | _ =>
    have hnote : x.note l .drain = l := by rw [Session.note, hc]
    rw [hnote, Session.drain, hc]
    exact h

theorem Agrees.endFlush (h : x.Agrees b l) : x.endFlush.Agrees b l := by
  have hsound := h.sound.endFlush
  cases hc : x.closing with
  | flushing pending due =>
    by_cases hdue : due ≤ x.host.premises.now
    · rw [endFlush_of_due hc hdue] at hsound ⊢
      obtain ⟨-, hm, hs, hcap, -, hbegins, -, hflushed, hflush⟩ := h
      rw [hc] at hm hbegins hflushed hflush
      refine ⟨hsound, (hm.countCycle _).publish _, hs, ?_, fun _ => trivial, ?_,
        fun _ _ => trivial, hflushed, fun _ => hflush trivial⟩
      · cases x.host.premises.finishCycle.1.isOk <;> exact hcap
      · show (x.record ++ _).count Event.began = _
        rw [count_began_append (by simp), hbegins]
        rfl
    · rw [Session.endFlush, hc]
      dsimp only
      rw [if_neg hdue]
      exact h
  | _ =>
    rw [Session.endFlush, hc]
    exact h

/-! ## runs -/

theorem Agrees.play (h : x.Agrees b l) (m : Move) : (x.play m).Agrees b (x.note l m) := by
  cases m with
  | call c => exact h.call c
  | save k => exact h.save k
  | start => exact h.start
  | act => exact h.act
  | endCycle => exact h.endCycle
  | enter => exact h.enter
  | pass ms => exact h.unnoted (h.sound.play (.pass ms)) rfl h.tallies ⟨rfl, rfl⟩ rfl
  | become k => exact h.unnoted (h.sound.play (.become k)) rfl h.tallies ⟨rfl, rfl⟩ rfl
  | change p => exact h.unnoted (h.sound.play (.change p)) rfl h.tallies ⟨rfl, rfl⟩ rfl
  | shutdown => exact h.shutdown
  | drain => exact h.drain
  | endFlush => exact h.endFlush

theorem Agrees.run (h : x.Agrees b l) (ms : List Move) :
    (x.run ms).Agrees b (x.ledgerFrom l ms) := by
  induction ms generalizing x l with
  | nil => exact h
  | cons m ms ih => exact ih (h.play m)

theorem agrees_run (h : Host) (hb : b.enabled = true) (ms : List Move) :
    ((opening h b).run ms).Agrees b ((opening h b).ledger ms) :=
  (agrees_opening h hb).run ms

/-- no signal is lost or counted twice, in a session of a scheduler of given settings -/
structure Conserved (b : BackupSettings) (x : Session) (l : Ledger) : Prop where
  /-- until the queue is drained, each signal that was accepted is in the queue, or was taken for a
  round or for a cycle of the worker, which has ended or is in flight -/
  balance : ¬x.closing.IsDrained → x.host.scheduler.counters.accepted =
    x.host.scheduler.queue + x.host.scheduler.counters.rounds +
      (x.host.scheduler.counters.completed + x.host.scheduler.counters.failed) +
      x.host.scheduler.isExporting.toNat
  room : x.host.scheduler.queue ≤ max 1 b.queueCapacity.toNat
  /-- the queue and the counter are those of the ledger -/
  queue : x.host.scheduler.queue = l.queue.length
  accepted : x.host.scheduler.counters.accepted = l.answers.countP (·.2)
  /-- a call is accepted once, still waits, or is refused without a signal of its own; and it is
  refused only if the shutdown has closed the queue -/
  calls : ∀ i < l.calls, l.standing i = .ofAccepted ∨ l.standing i = .ofWaiting ∨
    l.standing i = .ofRefused ∧ x.closing.IsDrained
  /-- the report is right about what was left, and one cycle was run for it if there was anything -/
  report : ∀ r, x.closing = .over r →
    x.host.scheduler.counters.accepted =
      r.pending + x.host.scheduler.counters.rounds + l.cycled.length ∧
    (r.flush.isSome = true ↔ 0 < r.pending) ∧
    x.record.count .began = l.cycled.length + r.flush.isSome.toNat ∧
    x.host.scheduler.counters.completed + x.host.scheduler.counters.failed =
      l.cycled.length + r.flush.isSome.toNat

theorem Agrees.report (h : x.Agrees b l) {r : ShutdownReport} (hr : x.closing = .over r) :
    x.host.scheduler.counters.accepted =
      r.pending + x.host.scheduler.counters.rounds + l.cycled.length ∧
    (r.flush.isSome = true ↔ 0 < r.pending) ∧
    x.record.count .began = l.cycled.length + r.flush.isSome.toNat ∧
    x.host.scheduler.counters.completed + x.host.scheduler.counters.failed =
      l.cycled.length + r.flush.isSome.toNat := by
  have hd : x.host.scheduler.IsDrained := h.sound.drained (hr ▸ trivial)
  have htotal := h.sorted.total
  have hqueue := h.tallies.queue
  have haccepted := h.tallies.accepted
  have hrounds := h.tallies.rounds
  have hcycles := h.tallies.cycles
  have hflushed := h.flushed
  have hflush : r.flush.isSome.toNat = if r.pending = 0 then 0 else 1 := by
    have := h.flush (hr ▸ trivial)
    rwa [hr] at this
  rw [hr] at hflushed hcycles
  rw [isExporting_of_isAtRest hd.atRest] at hcycles
  have hpending : l.flushed.length = r.pending := hflushed
  have hended : l.cycled.length + r.flush.isSome.toNat = _ + Bool.toNat false := hcycles
  rw [hd.queue] at hqueue
  refine ⟨by omega, ?_, ?_, ?_⟩
  · rw [Nat.pos_iff_ne_zero]
    cases hf : r.flush.isSome with
    | true =>
      rw [hf] at hflush
      simpa using hflush
    | false =>
      rw [hf] at hflush
      simpa using hflush
  · have := h.begins
    rwa [hr] at this
  · rw [hended]
    rfl

/-- **signals are conserved**, in every state that a run of an enabled scheduler leads to -/
theorem signals_conserved (h : Host) (b : BackupSettings) (hb : b.enabled = true)
    (ms : List Move) : Conserved b ((opening h b).run ms) ((opening h b).ledger ms) := by
  have ha := agrees_run h hb ms
  generalize (opening h b).run ms = x at ha
  generalize (opening h b).ledger ms = l at ha
  refine ⟨?_, ?_, ha.tallies.queue.symm, ha.tallies.accepted.symm, ?_, fun r hr => ha.report hr⟩
  · intro hd
    have htotal := ha.sorted.total
    have hqueue := ha.tallies.queue
    have haccepted := ha.tallies.accepted
    have hrounds := ha.tallies.rounds
    have hcycles := ha.tallies.cycles
    have hflushed := ha.flushed
    have hnone : x.closing.ended = 0 ∧ x.closing.pending = 0 := by
      cases hc : x.closing with
      | uncalled => exact ⟨rfl, rfl⟩
      | stopping => exact ⟨rfl, rfl⟩
      | _ =>
        rw [hc] at hd
        exact absurd trivial hd
    omega
  · have hroom := ha.tallies.room
    rw [ha.capacity] at hroom
    omega
  · intro i hi
    rcases ha.sorted.standing hi with hs | hs | ⟨hs, hm⟩
    · exact .inl hs
    · exact .inr (.inl hs)
    · exact .inr (.inr ⟨hs, ha.refused i hm⟩)

/-- a queue for one signal: the first call begins a cycle, the second gets in behind it, the third
waits until the shutdown, and the last one comes too late -/
theorem signals_conserved_full :
    let h : Host := .ofSettings {} none default { document := [], failures := ["down"], delay := 5 }
      .always fun _ => default
    let b : BackupSettings := { enabled := true, queueCapacity := 0 }
    let ms : List Move := [.start, .act, .call .producer, .act, .call .producer, .call .listener,
      .shutdown, .pass 5, .endCycle, .act, .drain, .pass 5, .endFlush, .call .producer]
    let x := (opening h b).run ms
    let l := (opening h b).ledger ms
    b.enabled = true ∧ Conserved b x l ∧ x.host.scheduler.counters = ⟨2, 0, 1, 1⟩ ∧
      (List.range l.calls).map l.standing =
        [.ofAccepted, .ofAccepted, .ofRefused, .ofRefused] := by
  intro h b ms x l
  exact ⟨rfl, signals_conserved h b rfl ms, by decide, by decide⟩

end Session

end ConfigReconcile
