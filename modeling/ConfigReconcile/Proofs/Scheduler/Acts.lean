import ConfigReconcile.Scheduler.Worker

/-!
# What a scheduler can do

The operations of a scheduler that look at its state, turned round: what was done says what the
state was.  `Replies` and `Does` list the ways, one constructor each, and `replies_signal`,
`does_of_act?` say that there are no others.  Later proofs split by these and do not open the
operations.
-/

namespace ConfigReconcile.Scheduler

variable {s s' : Scheduler} {e : Surroundings} {a : Act}

/-! ## calls -/

/-- what becomes of a signal to a scheduler that is enabled -/
inductive Replies (s : Scheduler) (c : Caller) : Reply × Scheduler → Prop where
  | refused (hc : s.closed = true) : Replies s c (.refused, s)
  | waiting (hc : s.closed = false) (hf : s.isFull = true) :
      Replies s c (.waiting, { s with waiting := s.waiting ++ [c] })
  | accepted (hc : s.closed = false) (hf : s.isFull = false) :
      Replies s c (.accepted, { s with
        queue := s.queue + 1
        counters := { s.counters with accepted := s.counters.accepted + 1 } })

theorem replies_signal (he : s.enabled = true) (c : Caller) : Replies s c (s.signal c) := by
  unfold signal
  split
  · next hd =>
    rw [he] at hd
    cases hd
  · split
    · next hc => exact .refused hc
    · next hc =>
      have hc := Bool.eq_false_iff.2 hc
      split
      · next hf => exact .waiting hc hf
      · next hf => exact .accepted hc (Bool.eq_false_iff.2 hf)

theorem start_eq_ok (h : s.start = .ok s') :
    s.enabled = true ∧ s.worker = .absent ∧ s' = { s with worker := .looking } := by
  unfold start at h
  split at h
  · cases h
  · next he =>
    split at h
    · cases h
    · next hw =>
      cases h
      exact ⟨by simpa using he, by simpa using hw, rfl⟩

/-! ## acts of the worker -/

theorem isAtRest_iff : s.isAtRest = true ↔ s.worker = .absent ∨ s.worker = .ended := by
  rw [isAtRest, Bool.or_eq_true, decide_eq_true_eq, decide_eq_true_eq]

theorem isExporting_iff : s.isExporting = true ↔ ∃ due, s.worker = .exporting due := by
  rw [isExporting]
  cases s.worker <;> simp

theorem isExporting_of_isAtRest (h : s.isAtRest = true) : s.isExporting = false := by
  rw [Bool.eq_false_iff]
  intro hx
  obtain ⟨due, hw⟩ := isExporting_iff.1 hx
  rw [isAtRest_iff, hw] at h
  rcases h with h | h <;> cases h

/-- a worker that waits for a cycle, or is not there, does nothing by itself -/
def IsActive (s : Scheduler) : Prop :=
  s.worker = .looking ∨ s.worker = .listening ∨ ∃ wake, s.worker = .sleeping wake

theorem IsActive.not_isAtRest (h : s.IsActive) : s.isAtRest = false := by
  rw [Bool.eq_false_iff]
  intro hr
  rcases isAtRest_iff.1 hr with hw | hw <;> rcases h with h | h | ⟨wake, h⟩ <;> rw [hw] at h <;>
    cases h

theorem IsActive.not_isExporting (h : s.IsActive) : s.isExporting = false := by
  rw [Bool.eq_false_iff]
  intro hx
  obtain ⟨due, hw⟩ := isExporting_iff.1 hx
  rcases h with h | h | ⟨wake, h⟩ <;> rw [hw] at h <;> cases h

/-- the queue is closed and nobody will touch it again -/
structure IsDrained (s : Scheduler) : Prop where
  closed : s.closed = true
  atRest : s.isAtRest = true
  queue : s.queue = 0
  granted : s.granted = []

/-- the acts of a worker, each with the state it is done in -/
inductive Does (e : Surroundings) (s : Scheduler) : Act → Scheduler → Prop where
  | stop (ha : s.IsActive) (why : s.cancelled = true ∨ s.worker = .looking ∧ e.terminating = true) :
      Does e s .stop s.stop
  | listen (hw : s.worker = .looking) (hc : s.cancelled = false) (ht : e.terminating = false) :
      Does e s .listen { s with status := .idle, worker := .listening }
  | gather (hw : s.worker = .listening) (hc : s.cancelled = false) (hq : 1 < s.queue) :
      Does e s .gather (s.take.gather (e.now + s.debounce))
  | begin (hw : s.worker = .listening) (hc : s.cancelled = false) (hq : s.queue = 1) :
      Does e s .begin (s.take.begin (e.now + e.delay))
  | wake (wake : Nat) (hw : s.worker = .sleeping wake) (hc : s.cancelled = false)
      (ht : wake ≤ e.now) : Does e s .wake { s with worker := .looking }

theorem Does.isActive (h : Does e s a s') : s.IsActive := by
  cases h with
  | stop ha _ => exact ha
  | listen hw _ _ => exact .inl hw
  | gather hw _ _ => exact .inr (.inl hw)
  | begin hw _ _ => exact .inr (.inl hw)
  | wake wake hw _ _ => exact .inr (.inr ⟨wake, hw⟩)

/-- an act brings nobody to wait for a slot -/
theorem Does.callers_eq_nil (h : Does e s a s') (hc : s.callers = []) : s'.callers = [] := by
  obtain ⟨hgranted, hwaiting⟩ := List.append_eq_nil_iff.1 hc
  cases h <;>
    simp [callers, take, Scheduler.gather, Scheduler.begin, Scheduler.stop, hgranted, hwaiting]

theorem act?_of_isAtRest (h : s.isAtRest = true) (e : Surroundings) : s.act? e = none := by
  rcases isAtRest_iff.1 h with hw | hw <;> rw [act?, hw]

theorem does_of_act? (h : s.act? e = some (a, s')) : Does e s a s' := by
  unfold act? at h
  split at h
  · next hw =>
    split at h
    · next hc =>
      cases h
      refine .stop (.inl hw) ?_
      rw [Bool.or_eq_true] at hc
      exact hc.imp id fun ht => ⟨hw, ht⟩
    · next hc =>
      cases h
      rw [Bool.or_eq_true, not_or] at hc
      exact .listen hw (Bool.eq_false_iff.2 hc.1) (Bool.eq_false_iff.2 hc.2)
  · next hw =>
    split at h
    · next hc =>
      cases h
      exact .stop (.inr (.inl hw)) (.inl hc)
    · next hc =>
      have hc := Bool.eq_false_iff.2 hc
      have htake : s.take.queue = s.queue - 1 := rfl
      split at h
      · cases h
      · next hq =>
        simp only at h
        split at h
        · next hlast =>
          cases h
          exact .begin hw hc (by omega)
        · next hmore =>
          cases h
          exact .gather hw hc (by omega)
  · next wake hw =>
    split at h
    · next hc =>
      cases h
      exact .stop (.inr (.inr ⟨wake, hw⟩)) (.inl hc)
    · next hc =>
      split at h
      · next ht =>
        cases h
        exact .wake wake hw (Bool.eq_false_iff.2 hc) ht
      · cases h
  · cases h

/-- a worker that does nothing is at rest, or waits for the end of a cycle, for a signal or for some
time -/
theorem of_act?_eq_none (h : s.act? e = none) :
    s.isAtRest = true ∨ (∃ due, s.worker = .exporting due) ∨
      s.worker = .listening ∧ s.queue = 0 ∨ ∃ wake, s.worker = .sleeping wake ∧ e.now < wake := by
  unfold act? at h
  split at h
  · split at h <;> cases h
  · next hw =>
    split at h
    · cases h
    · split at h
      · next hq => exact .inr (.inr (.inl ⟨hw, hq⟩))
      · dsimp only at h
        split at h <;> cases h
  · next wake hw =>
    split at h
    · cases h
    · split at h
      · cases h
      · next hlt => exact .inr (.inr (.inr ⟨wake, hw, Nat.lt_of_not_le hlt⟩))
  · next hlook hlisten hsleep =>
    cases hw : s.worker with
    | absent => exact .inl (isAtRest_iff.2 (.inl hw))
    | ended => exact .inl (isAtRest_iff.2 (.inr hw))
    | exporting due => exact .inr (.inl ⟨due, rfl⟩)
    | looking => exact absurd hw hlook
    | listening => exact absurd hw hlisten
    | sleeping wake => exact absurd hw (hsleep wake)

end ConfigReconcile.Scheduler
