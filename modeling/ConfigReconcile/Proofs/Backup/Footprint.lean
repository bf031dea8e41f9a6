import ConfigReconcile.Proofs.Backup.Retention
import ConfigReconcile.Proofs.Reconcile.Elsewhere
import ConfigReconcile.Proofs.Scheduler.Course

/-!
# The files that a host owns

A host writes, replaces and removes the target, the staged and the delivered document and its
backups, and no other file.  Above all it leaves the user document alone, which is written by hand.

* `BackupLayout.leaves_prune`, `Cycle.leaves_run`   a cycle leaves all files that are not its own,
                          whether it ends well or not and whatever the store refuses;
* `Settings.Owns`         the files of a host of given settings;
* `Session.untouched`     whatever such a host does, in any order, all other files stay as they are.
-/

namespace ConfigReconcile

open Text

/-! ## cycles -/

section
variable {p : Path}

namespace BackupLayout

/-- the files that cycles of a layout write and remove as backups -/
def Owns (l : BackupLayout) (p : Path) : Prop :=
  match l with
  | .single path => path.key = p.key
  | .versioned d _ => isBackupIn d p = true

instance (l : BackupLayout) (p : Path) : Decidable (l.Owns p) :=
  match l with
  | .single path => inferInstanceAs (Decidable (path.key = p.key))
  | .versioned d _ => inferInstanceAs (Decidable (isBackupIn d p = true))

variable {l : BackupLayout}

theorem owns_congr {q : Path} (h : p.key = q.key) : l.Owns p ↔ l.Owns q := by
  cases l with
  | single path => rw [Owns, Owns, h]
  | versioned d retain => rw [Owns, Owns, isBackupIn_congr h]

theorem owns_backupPath (l : BackupLayout) (start : Instant) : l.Owns (l.backupPath start) := by
  cases l with
  | single path => rfl
  | versioned d retain => exact isBackupIn_backupPath start d retain

theorem leaves_removeAll {ps : List Path} (h : ∀ q ∈ ps, q.key ≠ p.key) :
    Leaves (Guarded.bytes p) (removeAll ps : StoreM Guarded Unit) := by
  induction ps with
  | nil => exact leaves_pure _
  | cons q ps ih =>
    obtain ⟨hq, hps⟩ := List.forall_mem_cons.1 h
    exact (Guarded.leaves_remove hq).bind fun _ => ih hps

/-- pruning leaves all files but those that are taken for backups -/
theorem leaves_prune (h : ¬l.Owns p) :
    Leaves (Guarded.bytes p) (l.prune : StoreM Guarded (List Path)) := by
  cases l with
  | single path => exact leaves_pure _
  | versioned d retain =>
    unfold prune
    dsimp only
    split
    · exact leaves_pure _
    · apply (Guarded.leaves_list d).bind_of (P := fun ps => ∀ q ∈ ps.filter isVersioned, q.key ≠ p.key)
      · rintro g _ g' hlist q hq hkey
        rw [Guarded.mem_list hlist, ← Memory.map_fst_backupsIn] at hq
        obtain ⟨e, he, rfl⟩ := List.mem_map.1 hq
        apply h
        rw [Owns, ← isBackupIn_congr hkey]
        exact (List.mem_filter.1 he).2
      · intro ps hps
        apply (leaves_removeAll fun q hq => hps q (List.mem_of_mem_take hq)).bind
        exact fun _ => leaves_pure _

end BackupLayout

namespace Cycle

variable {α : Type}

theorem leaves_onStore {act : StoreM Guarded α} (h : Leaves (Guarded.bytes p) act) :
    Leaves (Workspace.bytes p) (Cycle.onStore act) where
  ok {w a w'} hw := by
    unfold Cycle.onStore at hw
    split at hw
    · next hs =>
      cases hw
      exact h.ok hs
    · cases hw
  error {w e w'} hw := by
    unfold Cycle.onStore at hw
    split at hw
    · cases hw
    · next hs =>
      cases hw
      exact h.error hs

theorem leaves_reconciling {act : ReconcileM Guarded α} (h : Leaves (Workspace.bytes p) act) :
    Leaves (Workspace.bytes p) (reconciling act) where
  ok {w a w'} hw := by
    unfold reconciling at hw
    split at hw
    · next hs =>
      cases hw
      exact h.ok hs
    · cases hw
  error {w e w'} hw := by
    unfold reconciling at hw
    split at hw
    · cases hw
    · next hs =>
      cases hw
      exact h.error hs

theorem leaves_makeParent (q : Path) :
    Leaves (Workspace.bytes p) (makeParent q : CycleM Guarded Unit) := by
  unfold makeParent
  split
  · exact leaves_pure _
  · next d _ =>
    split
    · exact leaves_pure _
    · exact leaves_onStore (Guarded.leaves_bytes (Guarded.leaves_makeDirectory d) p)

variable {c : Cycle}

/-- a cycle leaves all files but its backups and the target -/
theorem leaves_run (hl : ¬c.layout.Owns p) (ht : c.target.key ≠ p.key) (start : Instant)
    (snapshot : Except String Bytes) :
    Leaves (Workspace.bytes p) (c.run start snapshot : CycleM Guarded CycleReport) := by
  have hbackup : (c.layout.backupPath start).key ≠ p.key := fun h =>
    hl ((BackupLayout.owns_congr h).1 (c.layout.owns_backupPath start))
  cases snapshot with
  | error reason => exact leaves_throw _
  | ok b =>
    apply (leaves_makeParent _).bind
    intro _
    apply (leaves_onStore (Guarded.leaves_write hbackup b)).bind
    intro _
    apply (leaves_reconciling (c.reconciler.leaves_reconcile ⟨_, c.user, c.target⟩ ht)).bind
    intro o
    dsimp only
    split
    · apply (leaves_onStore (Guarded.leaves_remove hbackup)).bind
      exact fun _ => leaves_pure _
    · exact (leaves_onStore (BackupLayout.leaves_prune hl)).bind fun _ => leaves_pure _

end Cycle

end

/-! ## a host at work -/

/-- the files that a host of given settings writes, replaces or removes -/
inductive Settings.Owns (s : Settings) (p : Path) : Prop where
  | target (h : s.paths.resolve.target.key = p.key)
  | stagedSystem (h : s.paths.resolve.stagedSystem.key = p.key)
  | incoming (q : Path) (hq : s.paths.resolve.incoming? = some q) (h : q.key = p.key)
  | backup (h : (BackupLayout.ofSettings s.backup.layout s.paths.resolve).Owns p)

/-- what a host does, and what is done around it -/
inductive Deed where
  /-- a delivered document is promoted -/
  | promote (r : Reconciler)
  /-- a cycle beside the scheduler, with an export or the reason why there is none -/
  | cycle (start : Instant) (snapshot : Except String Bytes)
  /-- the exporter gets other documents and failures -/
  | supply (x : Exporter)
  /-- a move of the scheduler and of those around it -/
  | move (m : Move)

/-- others do not write to the store -/
def Deed.IsOwn : Deed → Prop
  | .move (.change _) => False
  | _ => True

/-- by the settings of the host, its promotions and cycles go to these paths -/
def Session.perform (s : Settings) (x : Session) : Deed → Session
  | .promote r => { x with host := (x.host.onSite (promoteIncoming r s.paths.resolve)).2 }
  | .cycle start snapshot =>
    { x with host := (x.host.onSite (x.host.premises.cycle.run start snapshot)).2 }
  | .supply e => { x with host := x.host.modifyExporter fun _ => e }
  | .move m => x.play m

/-- a host that runs a given cycle, and the bytes of one of its files -/
structure Premises.Holds (c : Cycle) (p : Path) (b : Option Bytes) (q : Premises) : Prop where
  cycle : q.cycle = c
  bytes : q.site.bytes p = b

section
variable {c : Cycle} {p : Path} {b : Option Bytes}

theorem Premises.holds_finishCycle (hl : ¬c.layout.Owns p) (ht : c.target.key ≠ p.key)
    (q : Premises) : q.finishCycle.2.Holds c p b ↔ q.Holds c p b := by
  have hcycle : q.finishCycle.2.cycle = q.cycle := by
    unfold finishCycle
    dsimp only
    split <;> rfl
  have hbytes (hq : q.cycle = c) : q.finishCycle.2.site.bytes p = q.site.bytes p := by
    subst hq
    unfold finishCycle
    dsimp only
    split
    · next hrun => exact (Cycle.leaves_run hl ht _ _).ok hrun
    · next hrun => exact (Cycle.leaves_run hl ht _ _).error hrun
  constructor
  · rintro ⟨hc, hb⟩
    have hq := hcycle.symm.trans hc
    exact ⟨hq, (hbytes hq).symm.trans hb⟩
  · rintro ⟨hc, hb⟩
    exact ⟨hcycle.trans hc, (hbytes hc).trans hb⟩

theorem Premises.Holds.onSite {h : Host} {ε α : Type} {act : EStateM ε (Workspace Guarded) α}
    (hh : h.premises.Holds c p b) (hact : Leaves (Workspace.bytes p) act) :
    (h.onSite act).2.premises.Holds c p b := by
  obtain ⟨hcycle, hbytes⟩ := hh
  unfold Host.onSite
  split
  · next hs => exact ⟨hcycle, (hact.ok hs).trans hbytes⟩
  · next hs => exact ⟨hcycle, (hact.error hs).trans hbytes⟩

namespace Session

variable {x : Session}

theorem holds_play (h : x.host.premises.Holds c p b) (hl : ¬c.layout.Owns p)
    (ht : c.target.key ≠ p.key) {m : Move} (hm : ∀ q, m ≠ .change q) :
    (x.play m).host.premises.Holds c p b := by
  cases m with
  | pass ms => exact ⟨h.cycle, h.bytes⟩
  | become l => exact ⟨h.cycle, h.bytes⟩
  | change q => exact absurd rfl (hm q)
  | _ =>
    refine (premises_play (f := Premises.Holds c p b) ?_ ?_ ?_ ?_ ?_ ?_).mpr h
    · intro q accepted caller
      cases caller <;> exact propext ⟨fun h => ⟨h.cycle, h.bytes⟩, fun h => ⟨h.cycle, h.bytes⟩⟩
    · exact fun q => propext (Premises.holds_finishCycle hl ht q)
    · exact fun q => propext ⟨fun h => ⟨h.cycle, h.bytes⟩, fun h => ⟨h.cycle, h.bytes⟩⟩
    all_goals
      intro _ hm
      cases hm

variable {s : Settings} {default? : Option Bytes}

theorem holds_perform (h : x.host.premises.Holds (.ofSettings s default?) p b) (hp : ¬s.Owns p)
    {d : Deed} (hd : d.IsOwn) :
    (x.perform s d).host.premises.Holds (.ofSettings s default?) p b := by
  have hl : ¬(Cycle.ofSettings s default?).layout.Owns p := fun h => hp (.backup h)
  have ht : (Cycle.ofSettings s default?).target.key ≠ p.key := fun h => hp (.target h)
  cases d with
  | promote r =>
    apply h.onSite
    unfold promoteIncoming
    split
    · exact leaves_pure _
    · next incoming hincoming =>
      apply r.leaves_promote
      · exact fun h => hp (.incoming incoming hincoming h)
      · exact fun h => hp (.stagedSystem h)
      · exact ht
  | cycle start snapshot =>
    apply h.onSite
    rw [h.cycle]
    exact Cycle.leaves_run hl ht start snapshot
  | supply e => exact ⟨h.cycle, h.bytes⟩
  | move m =>
    apply holds_play h hl ht
    rintro q rfl
    exact hd

theorem holds_foldl (h : x.host.premises.Holds (.ofSettings s default?) p b) (hp : ¬s.Owns p)
    {ds : List Deed} (hd : ∀ d ∈ ds, d.IsOwn) :
    (ds.foldl (perform s) x).host.premises.Holds (.ofSettings s default?) p b := by
  induction ds generalizing x with
  | nil => exact h
  | cons d ds ih =>
    obtain ⟨hd, hds⟩ := List.forall_mem_cons.1 hd
    exact ih (holds_perform h hp hd) hds

/-- **a host leaves the hand-written document alone, and all files but its own**: by settings whose
user document is none of the files of the host, that document has the same bytes, or is as absent,
after any deeds in any order and from any files, whether they end well or not and whatever the store
refuses; and so has every file that is none of the host's -/
theorem untouched (s : Settings) (default? : Option Bytes) (hu : ¬s.Owns s.paths.resolve.user)
    (x : Session) (hx : x.host.premises.cycle = .ofSettings s default?) (ds : List Deed)
    (hd : ∀ d ∈ ds, d.IsOwn) :
    (ds.foldl (perform s) x).host.premises.site.bytes s.paths.resolve.user =
        x.host.premises.site.bytes s.paths.resolve.user ∧
      ∀ p, ¬s.Owns p →
        (ds.foldl (perform s) x).host.premises.site.bytes p = x.host.premises.site.bytes p :=
  ⟨(holds_foldl ⟨hx, rfl⟩ hu hd).bytes, fun _ hp => (holds_foldl ⟨hx, rfl⟩ hp hd).bytes⟩

/-- a document is delivered and promoted, an export fails, and the scheduler is shut down with a
signal in its queue, next to a user document that is a comment -/
theorem untouched_delivered :
    let s : Settings :=
      { backup := { enabled := true, layout := .versioned ⟨"kept"⟩ 1 }
        paths := { root := ⟨"/home"⟩, incomingFile? := some ⟨"in"⟩ } }
    let files : Memory :=
      (({} : Memory).insert s.paths.resolve.user [0x23, 0x0a]).insert ⟨"/home/in"⟩ [0x61]
    let x : Session := .opening (.ofSettings s none files ⟨[0x62], [], 0, 0⟩ .always default) s.backup
    let ds : List Deed := [.promote {}, .cycle default (.error "no answer"),
      .move (.call .producer), .move .shutdown, .move .drain, .move .endFlush]
    ¬s.Owns s.paths.resolve.user ∧
      (ds.foldl (perform s) x).host.premises.site.bytes s.paths.resolve.user = some [0x23, 0x0a] ∧
      (ds.foldl (perform s) x).host.premises.site.bytes s.paths.resolve.target = some [0x62] := by
  intro s files x ds
  have hu : ¬s.Owns s.paths.resolve.user := by
    intro h
    cases h with
    | target h => exact absurd h (by decide)
    | stagedSystem h => exact absurd h (by decide)
    | incoming q hq h =>
      cases hq
      exact absurd h (by decide)
    | backup h => exact absurd h (by decide)
  have hd : ∀ d ∈ ds, d.IsOwn := by simp [ds, Deed.IsOwn]
  obtain ⟨huser, -⟩ := untouched s none hu x rfl ds hd
  have hbefore : x.host.premises.site.bytes s.paths.resolve.user = some [0x23, 0x0a] := by
    decide
  refine ⟨hu, huser.trans hbefore, ?_⟩
  decide +kernel

end Session

end

end ConfigReconcile
