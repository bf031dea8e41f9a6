import ConfigReconcile.Host.Basic

/-!
# How time passes in a host

Nothing happens at the same time: the schedulers of a host take TURNS.  A worker goes on until it
has to wait, and only then those get through who have been granted a slot.  The schedulers that
leave come before the one that is held.

* `Host.turn?`    the next turn at the present time; every turn lowers `Host.weight`;
* `Host.wait`     time passes, and all goes off that is due before its end (`now_wait`);
* `Host.settle`   all turns of the present time.
-/

namespace ConfigReconcile

open Scheduler (Act)

/-- the next turn of a scheduler, which is lost once its worker is gone if nobody holds it -/
def Premises.turn? (p : Premises) (held : Bool) (s : Scheduler) : Option (Scheduler × Premises) :=
  match s.act? p.surroundings with
  | some (.begin, s') => some (s', { p with exporter := p.exporter.call })
  | some (_, s') => some (s', p)
  | none =>
    if s.isExporting && s.due?.any (· ≤ p.now) then
      let (r, p') := p.finishCycle
      some (s.endCycle r.isOk, p')
    else if !held && s.isAtRest && !s.closed then some (s.close, p.noteAll false s.callers)
    else if s.granted.isEmpty then none
    else some (s.arrive, p.noteAll true s.granted)

theorem Premises.weight_turn? {p p' : Premises} {held : Bool} {s s' : Scheduler}
    (h : p.turn? held s = some (s', p')) : s'.weight < s.weight := by
  unfold turn? at h
  split at h
  · next ha => cases h; exact Scheduler.weight_act ha
  · next ha => cases h; exact Scheduler.weight_act ha
  · split at h
    · next hd => cases h; exact Scheduler.weight_endCycle _ (by simp_all)
    · split at h
      · next hc => cases h; exact Scheduler.weight_close (by simp_all)
      · split at h
        · cases h
        · next hg => cases h; exact Scheduler.weight_arrive (by simpa using hg)

/-- the next turn of schedulers that leave -/
def Premises.turnOfLeaving? (p : Premises) : List Scheduler → Option (List Scheduler × Premises)
  | [] => none
  | s :: rest =>
    match p.turn? false s with
    | some (s', p') => some (s' :: rest, p')
    | none => (p.turnOfLeaving? rest).map fun (rest', p') => (s :: rest', p')

theorem Premises.weight_turnOfLeaving? {p p' : Premises} {ss ss' : List Scheduler}
    (h : p.turnOfLeaving? ss = some (ss', p')) :
    Scheduler.totalWeight ss' < Scheduler.totalWeight ss := by
  induction ss generalizing ss' with
  | nil => cases h
  | cons s rest ih =>
    unfold turnOfLeaving? at h
    split at h
    · next ht =>
      cases h
      have := weight_turn? ht
      simp only [Scheduler.totalWeight]
      omega
    · obtain ⟨⟨rest', p''⟩, hr, he⟩ := Option.map_eq_some_iff.1 h
      cases he
      have := ih hr
      simp only [Scheduler.totalWeight]
      omega

namespace Host

/-- what is left to do without calls from outside -/
def weight (h : Host) : Nat := Scheduler.totalWeight h.leaving + h.scheduler.weight

/-- the next turn at the present time -/
def turn? (h : Host) : Option Host :=
  match h.premises.turnOfLeaving? h.leaving with
  | some (leaving, p) => some { h with leaving, premises := p }
  | none =>
    (h.premises.turn? h.held h.scheduler).map fun (scheduler, p) =>
      { h with scheduler, premises := p }

theorem weight_turn? {h h' : Host} (ht : h.turn? = some h') : h'.weight < h.weight := by
  unfold turn? at ht
  split at ht
  · next hl =>
    cases ht
    have := Premises.weight_turnOfLeaving? hl
    simp only [weight]
    omega
  · obtain ⟨⟨s, p⟩, hs, he⟩ := Option.map_eq_some_iff.1 ht
    cases he
    have := Premises.weight_turn? hs
    simp only [weight]
    omega

/-- the host at another time -/
def atTime (h : Host) (t : Nat) : Host := { h with premises := { h.premises with now := t } }

@[simp] theorem weight_atTime (h : Host) (t : Nat) : (h.atTime t).weight = h.weight := rfl

/-- the next time at which something is due -/
def due? (h : Host) : Option Nat := ((h.leaving ++ [h.scheduler]).filterMap Scheduler.due?).min?

/-- the next turn before a time -/
def turnBefore? (h : Host) (t : Nat) : Option Host :=
  match h.turn? with
  | some h' => some h'
  | none => (h.due?.filter (· < t)).bind fun d => (h.atTime d).turn?

theorem weight_turnBefore? {h h' : Host} {t : Nat} (ht : h.turnBefore? t = some h') :
    h'.weight < h.weight := by
  unfold turnBefore? at ht
  split at ht
  · next hn => cases ht; exact weight_turn? hn
  · obtain ⟨d, -, hd⟩ := Option.bind_eq_some_iff.1 ht
    simpa using weight_turn? hd

/-- time passes until `t`, and what is due before goes off -/
def wait (h : Host) (t : Nat) : Host :=
  match _ht : h.turnBefore? t with
  | some h' => h'.wait t
  | none => h.atTime t
termination_by h.weight
decreasing_by exact weight_turnBefore? ‹_›

theorem now_wait (h : Host) (t : Nat) : (h.wait t).premises.now = t := by
  fun_induction wait h t with
  | case1 _ _ _ ih => exact ih
  | case2 => rfl

/-- all goes on until everybody waits -/
def settle (h : Host) : Host := h.wait h.premises.now

theorem now_settle (h : Host) : h.settle.premises.now = h.premises.now := now_wait h _

/-- time passes until `t`, and what is due by then goes off -/
def advanceTo (h : Host) (t : Nat) : Host := (h.wait t).settle

theorem now_advanceTo (h : Host) (t : Nat) : (h.advanceTo t).premises.now = t := by
  simp [advanceTo, now_settle, now_wait]

end Host

end ConfigReconcile
