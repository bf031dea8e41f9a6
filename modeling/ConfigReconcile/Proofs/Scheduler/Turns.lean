import ConfigReconcile.Proofs.Scheduler.Acts
import ConfigReconcile.Proofs.Scheduler.Session

/-!
# The turns of a host are moves of a session

`Host.turn?` picks the next move in a fixed order.  For a host whose scheduler is held and that has
no schedulers to wait for (`Plain`), each turn is one of the moves of a session (`Turns`), and so
whatever such a host does by itself is a run:

* `Host.nextMoves`, `Host.movesUntil`   the moves of a turn, and of a host that waits;
* `Takes x ms h`      the moves take the session `x` to the host `h`, and the shutdown no further;
* `takes_turn`, `takes_wait`, `takes_settle`   turns, and time passing;
* `wait_induction`    what turns and time keep, waiting keeps.
-/

namespace ConfigReconcile

/-! ## turns -/

section
variable {p : Premises} {s : Scheduler} {q : Scheduler × Premises} {h h' : Host}

/-- the turns of a scheduler that is held -/
inductive Premises.Turns (p : Premises) (s : Scheduler) : Scheduler × Premises → Prop where
  | act {a : Scheduler.Act} {s' : Scheduler} (ha : s.act? p.surroundings = some (a, s')) :
      Turns p s (s', Session.afterAct p a)
  | endCycle (ha : s.act? p.surroundings = none)
      (hdue : (s.isExporting && s.due?.any (· ≤ p.now)) = true) :
      Turns p s (s.endCycle p.finishCycle.1.isOk, p.finishCycle.2)
  | arrive (ha : s.act? p.surroundings = none)
      (hdue : (s.isExporting && s.due?.any (· ≤ p.now)) = false) :
      Turns p s (s.arrive, p.noteAll true s.granted)

theorem Premises.turns_of_turn? (h : p.turn? true s = some q) : p.Turns s q := by
  unfold turn? at h
  split at h
  · next ha =>
    cases h
    exact .act ha
  · next a s' hne ha =>
    cases h
    have hp : Session.afterAct p a = p := by
      cases a with
      | begin => exact absurd rfl hne
      | _ => rfl
    have hact := Turns.act ha
    rwa [hp] at hact
  · next ha =>
    split at h
    · next hdue =>
      cases h
      exact .endCycle ha hdue
    · next hdue =>
      split at h
      · next hc => simp at hc
      · split at h
        · cases h
        · cases h
          exact .arrive ha (Bool.eq_false_iff.2 hdue)

theorem Premises.turn?_eq_none (h : p.turn? true s = none) :
    s.act? p.surroundings = none ∧
      (s.isExporting = true → s.due?.any (· ≤ p.now) = false) ∧ s.granted = [] := by
  unfold turn? at h
  split at h
  · cases h
  · cases h
  · next ha =>
    split at h
    · cases h
    · next hdue =>
      split at h
      · cases h
      · split at h
        · next hg =>
          refine ⟨ha, ?_, by simpa using hg⟩
          intro hx
          rw [hx, Bool.true_and] at hdue
          exact Bool.eq_false_iff.2 hdue
        · cases h

theorem Premises.now_finishCycle (p : Premises) : p.finishCycle.2.now = p.now := by
  unfold finishCycle
  split
  dsimp only
  split <;> rfl

theorem Premises.now_note (p : Premises) (b : Bool) (c : Caller) : (p.note b c).now = p.now := by
  cases c <;> rfl

theorem Premises.now_noteAll (p : Premises) (b : Bool) (cs : List Caller) :
    (p.noteAll b cs).now = p.now := by
  induction cs generalizing p with
  | nil => rfl
  | cons c cs ih =>
    show ((p.note b c).noteAll b cs).now = p.now
    rw [ih, now_note]

theorem Premises.Turns.now (h : p.Turns s q) : q.2.now = p.now := by
  cases h with
  | @act a s' _ => cases a <;> rfl
  | endCycle _ _ => exact p.now_finishCycle
  | arrive _ _ => exact p.now_noteAll true s.granted

namespace Host

/-- a host with one scheduler, which is held -/
structure Plain (h : Host) : Prop where
  leaving : h.leaving = []
  held : h.held = true

theorem Plain.turn? (hp : h.Plain) :
    h.turn? = (h.premises.turn? true h.scheduler).map fun q =>
      { h with scheduler := q.1, premises := q.2 } := by
  rw [Host.turn?, hp.leaving, hp.held]
  rfl

theorem Plain.turns (hp : h.Plain) (ht : h.turn? = some h') :
    ∃ q, h.premises.Turns h.scheduler q ∧ h' = { h with scheduler := q.1, premises := q.2 } := by
  rw [hp.turn?] at ht
  obtain ⟨q, hq, he⟩ := Option.map_eq_some_iff.1 ht
  exact ⟨q, Premises.turns_of_turn? hq, he.symm⟩

theorem Plain.turn?_eq_none (hp : h.Plain) (ht : h.turn? = none) :
    h.premises.turn? true h.scheduler = none := by
  rw [hp.turn?] at ht
  exact Option.map_eq_none_iff.1 ht

theorem Plain.due? (hp : h.Plain) : h.due? = h.scheduler.due? := by
  rw [Host.due?, hp.leaving, List.nil_append]
  cases hd : h.scheduler.due? <;> simp [hd]

/-- what is due when nothing is to be done is yet to come -/
theorem Plain.now_lt_due (hp : h.Plain) (ht : h.turn? = none) {d : Nat} (hd : h.due? = some d) :
    h.premises.now < d := by
  obtain ⟨ha, hx, -⟩ := Premises.turn?_eq_none (hp.turn?_eq_none ht)
  rw [hp.due?] at hd
  unfold Scheduler.due? at hd
  split at hd
  · next wake hw =>
    cases hd
    unfold Scheduler.act? at ha
    rw [hw] at ha
    dsimp only at ha
    split at ha
    · cases ha
    · split at ha
      · cases ha
      · next hlt => exact Nat.lt_of_not_le hlt
  · next due hw =>
    cases hd
    have hlate := hx (Scheduler.isExporting_iff.2 ⟨_, hw⟩)
    rw [Scheduler.due?, hw] at hlate
    simpa using hlate
  · cases hd

/-- what every turn keeps, at any time, waiting keeps -/
theorem wait_induction {P : Host → Prop} (hturn : ∀ h h', P h → h.turn? = some h' → P h')
    (htime : ∀ h t, P h → P (h.atTime t)) (hP : P h) (t : Nat) : P (h.wait t) := by
  fun_induction wait h t with
  | case1 h h' ht ih =>
    apply ih
    unfold turnBefore? at ht
    split at ht
    · next hn =>
      cases ht
      exact hturn _ _ hP hn
    · obtain ⟨d, -, hd⟩ := Option.bind_eq_some_iff.1 ht
      exact hturn _ _ (htime h d hP) hd
  | case2 h ht => exact htime h _ hP

theorem Plain.wait (hp : h.Plain) (t : Nat) : (h.wait t).Plain := by
  apply wait_induction _ _ hp
  · intro h h' hp ht
    obtain ⟨q, -, rfl⟩ := hp.turns ht
    exact ⟨hp.leaving, hp.held⟩
  · exact fun _ _ hp => ⟨hp.leaving, hp.held⟩

theorem wait_of_turnBefore? {t : Nat} (ht : h.turnBefore? t = some h') : h.wait t = h'.wait t := by
  rw [Host.wait]
  split
  · next h'' he =>
    rw [ht] at he
    cases he
    rfl
  · next he =>
    rw [ht] at he
    cases he

theorem wait_of_none {t : Nat} (ht : h.turnBefore? t = none) : h.wait t = h.atTime t := by
  rw [Host.wait]
  split
  · next h'' he =>
    rw [ht] at he
    cases he
  · rfl

/-- at the present time only turns are left -/
theorem Plain.turnBefore?_now (hp : h.Plain) : h.turnBefore? h.premises.now = h.turn? := by
  unfold turnBefore?
  split
  · next ht => exact ht.symm
  · next ht =>
    rw [ht]
    cases hd : h.due? with
    | none => rfl
    | some d =>
      have hlt := hp.now_lt_due ht hd
      rw [Option.filter_some, if_neg (by simp; omega)]
      rfl

theorem Plain.settle_of_turn? (hp : h.Plain) (ht : h.turn? = some h') : h.settle = h'.settle := by
  obtain ⟨q, hq, rfl⟩ := hp.turns ht
  show h.wait h.premises.now = Host.wait _ q.2.now
  rw [hq.now]
  exact wait_of_turnBefore? (hp.turnBefore?_now.trans ht)

theorem Plain.settle_of_none (hp : h.Plain) (ht : h.turn? = none) : h.settle = h :=
  wait_of_none (hp.turnBefore?_now.trans ht)

/-- everybody waits after a host has settled -/
theorem Plain.turn?_settle (hp : h.Plain) : h.settle.turn? = none := by
  induction hw : h.weight using Nat.strongRecOn generalizing h with
  | ind w ih =>
    cases ht : h.turn? with
    | none =>
      rw [hp.settle_of_none ht]
      exact ht
    | some h' =>
      rw [hp.settle_of_turn? ht]
      obtain ⟨q, -, rfl⟩ := hp.turns ht
      exact ih _ (hw ▸ weight_turn? ht) ⟨hp.leaving, hp.held⟩ rfl

end Host

end

/-! ## the moves of a host -/

namespace Host

/-- the moves of the next turn at the present time; those who have a slot come in one turn -/
def nextMoves (h : Host) : List Move :=
  match h.scheduler.act? h.premises.surroundings with
  | some _ => [.act]
  | none =>
    if h.scheduler.isExporting && h.scheduler.due?.any (· ≤ h.premises.now) then [.endCycle]
    else h.scheduler.granted.map fun _ => .enter

/-- the moves of the next turn at all, with the time that passes before it -/
def movesAhead (h : Host) : List Move :=
  match h.turn?, h.due? with
  | none, some d => .pass (d - h.premises.now) :: (h.atTime d).nextMoves
  | _, _ => h.nextMoves

/-- the moves of a host that waits until a time -/
def movesUntil (h : Host) (t : Nat) : List Move :=
  match _ht : h.turnBefore? t with
  | some h' => h.movesAhead ++ h'.movesUntil t
  | none => [.pass (t - h.premises.now)]
termination_by h.weight
decreasing_by exact weight_turnBefore? ‹_›

/-- the moves of the present time -/
def settleMoves (h : Host) : List Move := h.movesUntil h.premises.now

variable {h h' : Host} {t : Nat}

theorem movesUntil_of_turnBefore? (ht : h.turnBefore? t = some h') :
    h.movesUntil t = h.movesAhead ++ h'.movesUntil t := by
  rw [movesUntil]
  split
  · next h'' he =>
    rw [ht] at he
    cases he
    rfl
  · next he =>
    rw [ht] at he
    cases he

theorem movesUntil_of_none (ht : h.turnBefore? t = none) :
    h.movesUntil t = [.pass (t - h.premises.now)] := by
  rw [movesUntil]
  split
  · next h'' he =>
    rw [ht] at he
    cases he
  · rfl

end Host

namespace Session

variable {x : Session} {h h' : Host} {as bs : List Move}

/-- moves take a session to a host, and its shutdown no further -/
def Takes (x : Session) (ms : List Move) (h : Host) : Prop :=
  (x.run ms).host = h ∧ (x.run ms).closing = x.closing

theorem takes_nil (x : Session) : x.Takes [] x.host := ⟨rfl, rfl⟩

theorem takes_play (m : Move) (hc : (x.play m).closing = x.closing) :
    x.Takes [m] (x.play m).host := ⟨rfl, hc⟩

theorem Takes.append (h1 : x.Takes as h)
    (h2 : ∀ y : Session, y.host = h → y.closing = x.closing → y.Takes bs h') :
    x.Takes (as ++ bs) h' := by
  obtain ⟨ha, hac⟩ := h1
  obtain ⟨hb, hbc⟩ := h2 (x.run as) ha hac
  unfold Takes
  rw [run_append]
  exact ⟨hb, hbc.trans hac⟩

/-- those who have a slot come one after the other -/
theorem takes_arrive (x : Session) :
    x.Takes (x.host.scheduler.granted.map fun _ => .enter) { x.host with
      scheduler := x.host.scheduler.arrive
      premises := x.host.premises.noteAll true x.host.scheduler.granted } := by
  induction hg : x.host.scheduler.granted generalizing x with
  | nil =>
    have hs : x.host.scheduler.arrive = x.host.scheduler := by
      rw [Scheduler.arrive, hg]
      show { x.host.scheduler with granted := [] } = x.host.scheduler
      rw [← hg]
    rw [hs]
    exact takes_nil x
  | cons c cs ih =>
    have hplay : x.play .enter = { x with
        host := { x.host with
          scheduler := x.host.scheduler.enter
          premises := x.host.premises.note true c }
        record := x.record ++ [.answered c true] } := by
      show x.enter = _
      rw [Session.enter, hg]
    have henter : x.host.scheduler.enter = { x.host.scheduler with
        queue := x.host.scheduler.queue + 1
        counters := { x.host.scheduler.counters with
          accepted := x.host.scheduler.counters.accepted + 1 }
        granted := cs } := by rw [Scheduler.enter, hg]
    have harrive : x.host.scheduler.enter.arrive = x.host.scheduler.arrive := by
      rw [henter, Scheduler.arrive, Scheduler.arrive, hg, List.length_cons]
      simp only [Nat.add_assoc, Nat.add_comm 1]
    refine (takes_play .enter (by rw [hplay])).append ?_
    intro y hy hc
    have hyc : y.host.scheduler.granted = cs := by rw [hy, hplay, henter]
    have htakes := ih y hyc
    rw [hy, hplay] at htakes
    rw [← harrive]
    exact htakes

theorem takes_turn (hp : x.host.Plain) (ht : x.host.turn? = some h') :
    x.Takes x.host.nextMoves h' := by
  obtain ⟨q, hq, rfl⟩ := hp.turns ht
  unfold Host.nextMoves
  cases hq with
  | @act a s' ha =>
    have hplay : x.play .act = { x with
        host := { x.host with scheduler := s', premises := afterAct x.host.premises a }
        record := x.record ++ eventsOf a } := by
      show x.act = _
      rw [Session.act, ha]
    have htakes := takes_play (x := x) .act (by rw [hplay])
    rw [ha]
    rwa [hplay] at htakes
  | endCycle ha hdue =>
    have hplay : x.play .endCycle = { x with
        host := { x.host with
          scheduler := x.host.scheduler.endCycle x.host.premises.finishCycle.1.isOk
          premises := x.host.premises.finishCycle.2 }
        record := x.record ++ [.ended x.host.premises.finishCycle.1.isOk] } := by
      show x.endCycle = _
      rw [Session.endCycle, isDue, if_pos hdue]
    have htakes := takes_play (x := x) .endCycle (by rw [hplay])
    rw [ha]
    dsimp only
    rw [if_pos hdue]
    rwa [hplay] at htakes
  | arrive ha hdue =>
    rw [ha]
    dsimp only
    rw [if_neg (Bool.eq_false_iff.1 hdue)]
    exact takes_arrive x

theorem takes_atTime {t : Nat} (ht : x.host.premises.now ≤ t) :
    x.Takes [.pass (t - x.host.premises.now)] (x.host.atTime t) := by
  have htakes := takes_play (x := x) (.pass (t - x.host.premises.now)) rfl
  have hnow : x.host.premises.now + (t - x.host.premises.now) = t := by omega
  show x.Takes _ (x.host.atTime t)
  conv => rhs; rw [← hnow]
  exact htakes

theorem takes_turnBefore {t : Nat} (hp : x.host.Plain) (ht : x.host.premises.now ≤ t)
    (hb : x.host.turnBefore? t = some h') :
    x.Takes x.host.movesAhead h' ∧ h'.Plain ∧ h'.premises.now ≤ t := by
  unfold Host.turnBefore? at hb
  unfold Host.movesAhead
  split at hb
  · next hn =>
    cases hb
    obtain ⟨q, hq, he⟩ := hp.turns hn
    rw [hn]
    refine ⟨takes_turn hp hn, ?_, ?_⟩
    · rw [he]
      exact ⟨hp.leaving, hp.held⟩
    · rw [he]
      exact hq.now ▸ ht
  -- nothing is to be done before the time at which the next thing is due
  · next hn =>
    obtain ⟨d, hd, hturn⟩ := Option.bind_eq_some_iff.1 hb
    obtain ⟨hdue, hdt⟩ := Option.filter_eq_some_iff.1 hd
    have hnow := hp.now_lt_due hn hdue
    have hdt : d < t := by simpa using hdt
    have hpd : (x.host.atTime d).Plain := ⟨hp.leaving, hp.held⟩
    obtain ⟨q, hq, he⟩ := hpd.turns hturn
    rw [hn, hdue]
    refine ⟨(takes_atTime (Nat.le_of_lt hnow)).append ?_, ?_, ?_⟩
    · intro y hy _
      have htakes := takes_turn (x := y) (hy ▸ hpd) (hy ▸ hturn)
      rwa [hy] at htakes
    · rw [he]
      exact ⟨hp.leaving, hp.held⟩
    · rw [he]
      show q.2.now ≤ t
      rw [hq.now]
      exact Nat.le_of_lt hdt

theorem takes_wait (hp : x.host.Plain) {t : Nat} (ht : x.host.premises.now ≤ t) :
    x.Takes (x.host.movesUntil t) (x.host.wait t) := by
  induction hw : x.host.weight using Nat.strongRecOn generalizing x with
  | ind w ih =>
    cases hb : x.host.turnBefore? t with
    | none =>
      rw [Host.wait_of_none hb, Host.movesUntil_of_none hb]
      exact takes_atTime ht
    | some h' =>
      have hlt : h'.weight < w := hw ▸ Host.weight_turnBefore? hb
      obtain ⟨htakes, hp', ht'⟩ := takes_turnBefore hp ht hb
      rw [Host.wait_of_turnBefore? hb, Host.movesUntil_of_turnBefore? hb]
      refine htakes.append ?_
      rintro y rfl -
      exact ih _ hlt hp' ht' rfl

theorem takes_settle (hp : x.host.Plain) : x.Takes x.host.settleMoves x.host.settle :=
  takes_wait hp (Nat.le_refl _)

end Session

end ConfigReconcile
