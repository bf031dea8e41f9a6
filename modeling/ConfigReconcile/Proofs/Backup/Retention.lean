import ConfigReconcile.Proofs.Backup.History
import ConfigReconcile.Proofs.Backup.Stamps
import ConfigReconcile.Proofs.Store.Directories

/-!
# Versioned backups and how many of them stay

The backups of a directory are its files with names like those of backups.  A cycle that ends well
leaves the newest of them, and a cycle that fails leaves all; so after a run of cycles in a directory
that held none, the backups there are the last ones that were written:

* `Memory.backupsIn`      the backups of a directory, with their bytes, in the order of their names;
* `BackupLayout.prune_eq` pruning takes the first ones away;
* `BackupLayout.backupPath_lt`   the backup of a later cycle comes later;
* `Cycle.store_versioned` a cycle of the versioned layout;
* `Cycle.Keeps`           how such a cycle ends, and what it leaves;
* `Cycle.keeps_run`       every cycle of a run ends so.
-/

namespace ConfigReconcile

open Text

/-! ## entries -/

namespace Files

variable {es : List (Path × Bytes)} {e : Path × Bytes} {p : Path} {b : Bytes} {keep : Path → Bool}

theorem Ascending.key_ne (h : Ascending (e :: es)) {f : Path × Bytes} (hf : f ∈ es) :
    e.1.key ≠ f.1.key := by
  have hlt := (List.pairwise_cons.1 h).1 f hf
  rw [Path.lt_iff] at hlt
  intro heq
  rw [heq] at hlt
  exact List.lt_irrefl _ hlt

/-- a file that is not kept in sight can be written without being seen -/
theorem filter_put_of_not (hp : ∀ q : Path, q.key = p.key → keep q = false) (b : Bytes)
    (es : List (Path × Bytes)) :
    (put p b es).filter (fun e => keep e.1) = es.filter fun e => keep e.1 := by
  induction es with
  | nil =>
    rw [put, List.filter_cons_of_neg]
    · rw [hp p rfl]
      exact Bool.false_ne_true
  | cons e es ih =>
    rw [put]
    split
    · next he =>
      rw [List.filter_cons_of_neg, List.filter_cons_of_neg]
      all_goals
        rw [hp e.1 he]
        exact Bool.false_ne_true
    · split
      · rw [List.filter_cons_of_neg]
        rw [hp p rfl]
        exact Bool.false_ne_true
      · rw [List.filter_cons, List.filter_cons, ih]

/-- a file that comes after all that are kept in sight is the last of them -/
theorem filter_put_last (h : Ascending es) (hp : ∀ q : Path, q.key = p.key → keep q = true)
    (hlast : ∀ e ∈ es, keep e.1 = true → e.1 < p) (b : Bytes) :
    (put p b es).filter (fun e => keep e.1) = es.filter (fun e => keep e.1) ++ [(p, b)] := by
  have hself (es : List (Path × Bytes)) : ((p, b) :: es).filter (fun e => keep e.1) =
      (p, b) :: es.filter fun e => keep e.1 := List.filter_cons_of_pos (hp p rfl)
  induction es with
  | nil => exact hself []
  | cons e es ih =>
    obtain ⟨he, hes⟩ := List.pairwise_cons.1 h
    obtain ⟨hlt, hrest⟩ := List.forall_mem_cons.1 hlast
    have hne : e.1.key ≠ p.key := by
      intro heq
      have := hlt (hp e.1 heq)
      rw [Path.lt_iff, heq] at this
      exact List.lt_irrefl _ this
    rw [put, if_neg hne]
    split
    · next hbefore =>
      -- all that follows is after `p`, so nothing of it is in sight
      have hnone : (e :: es).filter (fun e => keep e.1) = [] := by
        rw [List.filter_eq_nil_iff]
        intro f hf hkeep
        refine Path.lt_irrefl p (Path.lt_trans ?_ (hlast f hf hkeep))
        rcases List.mem_cons.1 hf with rfl | hf
        · exact hbefore
        · exact Path.lt_trans hbefore (he f hf)
      rw [hself, hnone]
      rfl
    · rw [List.filter_cons, List.filter_cons, ih hes hrest]
      split <;> rfl

/-- the first entries away by their places, the others are left -/
theorem filter_not_mem_take (h : Ascending es) (n : Nat) :
    es.filter (fun e => e.1.key ∉ (es.take n).map fun f => f.1.key) = es.drop n := by
  induction n generalizing es with
  | zero => simp
  | succ n ih =>
    cases es with
    | nil => rfl
    | cons e es =>
      rw [List.take_succ_cons, List.map_cons, List.drop_succ_cons, List.filter_cons_of_neg (by simp),
        ← ih (List.pairwise_cons.1 h).2]
      apply List.filter_congr
      intro f hf
      simp only [List.mem_cons, (h.key_ne hf).symm, false_or]

end Files

/-! ## the backups of a directory -/

namespace BackupLayout

variable {d p q : Path}

/-- whether a file stands right in a directory under a name like that of a backup -/
def isBackupIn (d p : Path) : Bool :=
  isVersioned p && match p.parent? with
    | some q => q.key = d.key
    | none => false

theorem isBackupIn_iff : isBackupIn d p = true ↔
    ∃ s, d.IsIn s p ∧ nameStart.toList <+: s ∧ nameEnd.toList <:+ s := by
  simp only [Path.isIn_iff, ← List.isPrefixOf_iff_prefix, ← List.isSuffixOf_iff_suffix]
  unfold isBackupIn isVersioned
  cases p.fileName? <;> cases p.parent? <;> simp [and_comm]

theorem isBackupIn_congr (h : p.key = q.key) : isBackupIn d p = isBackupIn d q := by
  rw [Bool.eq_iff_iff, isBackupIn_iff, isBackupIn_iff]
  unfold Path.IsIn
  rw [Path.key_eq_iff.1 h]

/-! ### the backup of a cycle -/

/-- the characters of the name of the backup of a cycle -/
def nameOf (start : Instant) : List Char := nameStart.toList ++ start.stamp ++ nameEnd.toList

theorem ofList_nameOf (start : Instant) : String.ofList (nameOf start) = backupName start := by
  rw [nameOf, backupName, String.ofList_append, String.ofList_append, String.ofList_toList,
    String.ofList_toList]

variable {start later : Instant}

theorem isName_nameOf (start : Instant) : Path.IsName (nameOf start) where
  isStep := rfl
  whole hm := by
    simp only [nameOf, List.mem_append, start.slash_not_mem_stamp, or_false] at hm
    revert hm
    decide

theorem isIn_backupPath (start : Instant) (d : Path) (retain : Nat) :
    d.IsIn (nameOf start) ((versioned d retain).backupPath start) := by
  have hjoin := d.isIn_join (isName_nameOf start)
  rw [ofList_nameOf] at hjoin
  exact hjoin

theorem isBackupIn_backupPath (start : Instant) (d : Path) (retain : Nat) :
    isBackupIn d ((versioned d retain).backupPath start) = true := by
  rw [isBackupIn_iff]
  refine ⟨_, isIn_backupPath start d retain, ?_⟩
  exact ⟨⟨start.stamp ++ nameEnd.toList, (List.append_assoc ..).symm⟩,
    ⟨nameStart.toList ++ start.stamp, rfl⟩⟩

theorem backupPath_lt (h : start.Earlier later) (hs : start.HasPlainYear)
    (hl : later.HasPlainYear) (d : Path) (retain : Nat) :
    (versioned d retain).backupPath start < (versioned d retain).backupPath later := by
  rw [(isIn_backupPath start d retain).lt_iff (isIn_backupPath later d retain)]
  have hstamps := Instant.stamp_lt_stamp h hs hl
  have hlength : start.stamp.length = later.stamp.length := by
    rw [Instant.length_stamp hs, Instant.length_stamp hl]
  apply List.map_lt (fun a b (hlt : a < b) => show a.toNat < b.toNat from hlt)
  unfold nameOf
  rw [List.append_assoc, List.append_assoc]
  exact List.append_left_lt (append_lt_append hlength hstamps _ _)

end BackupLayout

namespace Memory

open BackupLayout

variable {m : Memory} {d p : Path} {b : Bytes}

/-- the backups of a directory, in the order of their names -/
def backupsIn (m : Memory) (d : Path) : List (Path × Bytes) :=
  m.files.entries.filter fun e => isBackupIn d e.1

theorem map_fst_backupsIn (m : Memory) (d : Path) :
    (m.backupsIn d).map (·.1) = (m.list d).filter isVersioned := by
  unfold backupsIn list Files.paths
  rw [List.filter_filter, List.filter_map]
  rfl

theorem ascending_backupsIn (m : Memory) (d : Path) : Files.Ascending (m.backupsIn d) :=
  List.Pairwise.filter _ m.files.ascending

theorem backupsIn_place_of_not (hp : isBackupIn d p = false) (m : Memory) (b : Bytes) :
    (m.place p b).backupsIn d = m.backupsIn d :=
  Files.filter_put_of_not (fun _ hq => (isBackupIn_congr hq).trans hp) b m.files.entries

theorem backupsIn_settle_of_not (hp : isBackupIn d p = false) (m : Memory)
    (written : Option Bytes) : (m.settle p written).backupsIn d = m.backupsIn d := by
  cases written with
  | none => rfl
  | some b => exact backupsIn_place_of_not hp m b

theorem backupsIn_insert_of_not (hp : isBackupIn d p = false) (m : Memory) (b : Bytes) :
    (m.insert p b).backupsIn d = m.backupsIn d := by
  have hfiles : (m.insert p b).files = m.files.insert p b := by
    unfold insert
    cases p.parent? <;> rfl
  rw [backupsIn, hfiles]
  exact Files.filter_put_of_not (fun _ hq => (isBackupIn_congr hq).trans hp) b m.files.entries

theorem backupsIn_remove_of_not (hp : isBackupIn d p = false) (m : Memory) :
    (m.remove p).backupsIn d = m.backupsIn d := by
  show (m.files.entries.filter _).filter _ = _
  rw [List.filter_filter]
  apply List.filter_congr
  intro e _
  by_cases he : e.1.key = p.key
  · rw [isBackupIn_congr he, hp, Bool.false_and]
  · rw [decide_eq_true he, Bool.and_true]

theorem backupsIn_place_last (hp : isBackupIn d p = true)
    (hlast : ∀ e ∈ m.backupsIn d, e.1 < p) (b : Bytes) :
    (m.place p b).backupsIn d = m.backupsIn d ++ [(p, b)] :=
  Files.filter_put_last m.files.ascending (fun _ hq => (isBackupIn_congr hq).trans hp)
    (fun e he hkeep => hlast e (List.mem_filter.2 ⟨he, hkeep⟩)) b

/-! ## pruning -/

/-- the memory without some files -/
def without (m : Memory) (ps : List Path) : Memory := ps.foldl Memory.remove m

theorem entries_without (m : Memory) (ps : List Path) :
    (m.without ps).files.entries =
      m.files.entries.filter fun e => e.1.key ∉ ps.map Path.key := by
  unfold without
  induction ps generalizing m with
  | nil => simp
  | cons p ps ih =>
    rw [List.foldl_cons, ih]
    show (m.files.entries.filter _).filter _ = _
    rw [List.filter_filter]
    apply List.filter_congr
    intro e _
    simp [Bool.and_comm]

theorem read?_without (m : Memory) (ps : List Path) (p : Path) :
    (m.without ps).read? p = if p.key ∈ ps.map Path.key then none else m.read? p := by
  unfold without
  induction ps generalizing m with
  | nil => rfl
  | cons q ps ih =>
    rw [List.foldl_cons, ih, read?_remove, List.map_cons]
    by_cases hq : q.key = p.key
    · simp [hq]
    · simp [hq, Ne.symm hq]

theorem removeAll_eq (m : Memory) (ps : List Path) :
    removeAll ps m = .ok () (m.without ps) := by
  induction ps generalizing m with
  | nil => rfl
  | cons p ps ih => exact ih (m.remove p)

/-- the backups that are too many, oldest first -/
def excess (m : Memory) (d : Path) (retain : Nat) : List (Path × Bytes) :=
  (m.backupsIn d).take ((m.backupsIn d).length - retain)

/-- the memory after they have gone -/
def pruned (m : Memory) (d : Path) (retain : Nat) : Memory :=
  m.without ((m.excess d retain).map (·.1))

theorem prune_eq {retain : Nat} (hr : 1 ≤ retain) (m : Memory) (d : Path) :
    (versioned d retain).prune m =
      .ok ((m.excess d retain).map (·.1)) (m.pruned d retain) := by
  unfold prune
  dsimp only
  rw [if_neg (by omega)]
  have hlist : (Store.list d : StoreM Memory _) m = .ok (m.list d) m := rfl
  rw [bind_of_ok _ hlist, ← map_fst_backupsIn, List.length_map, ← List.map_take,
    bind_of_ok _ (removeAll_eq m _)]
  rfl

theorem backupsIn_pruned (m : Memory) (d : Path) (retain : Nat) :
    (m.pruned d retain).backupsIn d =
      (m.backupsIn d).drop ((m.backupsIn d).length - retain) := by
  unfold pruned
  rw [backupsIn, entries_without, List.filter_comm, List.map_map]
  exact Files.filter_not_mem_take (m.ascending_backupsIn d) _

/-- what goes and what stays are together what was there -/
theorem excess_append_pruned (m : Memory) (d : Path) (retain : Nat) :
    m.excess d retain ++ (m.pruned d retain).backupsIn d = m.backupsIn d := by
  rw [backupsIn_pruned]
  exact List.take_append_drop _ _

end Memory

/-! ## one cycle -/

/-- with a system document there, a run writes at most the target, or it fails and writes nothing -/
theorem Reconciler.reconcile_of_system (r : Reconciler) (ps : DocumentPaths)
    {w : Workspace Memory} {system : Bytes} (h : w.store.read? ps.system = some system) :
    (∃ o written, r.reconcile ps w = .ok o (w.withStore (w.store.settle ps.target written))) ∨
      ∃ e, r.reconcile ps w = .error e w := by
  rw [← r.reconcile_congr (some []) h]
  rcases row_or_unreadable [] ps (w.store.read? ps.system) (w.store.read? ps.user) with
    ⟨o, written, hrow⟩ | ⟨s, u, p, e, hs, hu, hun⟩
  · left
    have hne : o ≠ .producedDefault := by
      rw [h] at hrow
      generalize w.store.read? ps.user = user at hrow
      cases hrow <;> decide
    refine ⟨o, written, ?_⟩
    rw [reconcile_of_row rfl hrow, Workspace.settle, if_neg hne]
    rfl
  · exact .inr ⟨_, reconcile_of_unreadable hs hu hun⟩

namespace Cycle

variable {c : Cycle} {d : Path} {retain : Nat}

/-- with the backup of a snapshot and a target that may have been written -/
def reconciled (c : Cycle) (m : Memory) (start : Instant) (snapshot : Bytes)
    (written : Option Bytes) : Memory :=
  (m.place (c.layout.backupPath start) snapshot).settle c.target written

/-- a cycle of the versioned layout prunes at its end, or fails and leaves its backup as well -/
theorem store_versioned (hl : c.layout = .versioned d retain) (hr : 1 ≤ retain) (start : Instant)
    (snapshot : Bytes) (w : Workspace Memory) :
    (∃ o written, c.store start snapshot w =
      .ok ⟨c.layout.backupPath start, o,
          ((c.reconciled w.store start snapshot written).excess d retain).map (·.1)⟩
        (w.withStore ((c.reconciled w.store start snapshot written).pruned d retain))) ∨
    ∃ e, c.store start snapshot w =
      .error (.reconcile e) (backedUp w (c.layout.backupPath start) snapshot) := by
  generalize hb : c.layout.backupPath start = backup
  have hsystem : (backedUp w backup snapshot).store.read? backup = some snapshot := by
    rw [read?_backedUp, if_pos rfl]
  unfold store
  rw [hb, bind_of_ok _ (makeParent_eq w backup), bind_of_ok _ (onStore_write w backup snapshot), hl]
  dsimp only
  rcases c.reconciler.reconcile_of_system ⟨backup, c.user, c.target⟩ hsystem with
    ⟨o, written, hok⟩ | ⟨e, herror⟩
  · left
    refine ⟨o, written, ?_⟩
    have hfold : reconciling (c.reconciler.reconcile ⟨backup, c.user, c.target⟩)
        (backedUp w backup snapshot) =
        .ok o (w.withStore (c.reconciled w.store start snapshot written)) := by
      rw [reconciling, hok, reconciled, hb]
      rfl
    have hprune : Cycle.onStore (BackupLayout.versioned d retain).prune
        (w.withStore (c.reconciled w.store start snapshot written)) =
        .ok (((c.reconciled w.store start snapshot written).excess d retain).map (·.1))
          (w.withStore ((c.reconciled w.store start snapshot written).pruned d retain)) := by
      simp only [Cycle.onStore, Workspace.withStore, Memory.prune_eq hr]
    exact (bind_of_ok _ hfold).trans (bind_of_ok _ hprune)
  · right
    refine ⟨e, ?_⟩
    have hfold : reconciling (c.reconciler.reconcile ⟨backup, c.user, c.target⟩)
        (backedUp w backup snapshot) = .error (.reconcile e) (backedUp w backup snapshot) := by
      rw [reconciling, herror]
    exact bind_of_error _ hfold

end Cycle

/-! ## one cycle after another -/

/-- the export that a cycle has taken, with the start of the cycle -/
def Happening.export? : Happening → Option (Instant × Bytes)
  | .cycle start (.ok snapshot) => some (start, snapshot)
  | .cycle _ (.error _) => none
  | .edit _ => none

/-- the exports of all cycles, in order -/
def exports (xs : List Happening) : List (Instant × Bytes) := xs.filterMap Happening.export?

/-- the backups that cycles have written -/
def BackupLayout.written (l : BackupLayout) (xs : List Happening) : List (Path × Bytes) :=
  (exports xs).map fun e => (l.backupPath e.1, e.2)

/-- the cycles that had an export have started one after the other, in years of four digits -/
structure InOrder (xs : List Happening) : Prop where
  plain : ∀ e ∈ exports xs, e.1.HasPlainYear
  earlier : (exports xs).Pairwise fun e f => e.1.Earlier f.1

section
variable {xs : List Happening} {x : Happening} {start : Instant} {b : Bytes}

theorem exports_concat (xs : List Happening) (x : Happening) :
    exports (xs ++ [x]) = exports xs ++ x.export?.toList := by
  rw [exports, List.filterMap_append]
  cases h : x.export? with
  | none => rw [List.filterMap_cons_none h]; rfl
  | some e => rw [List.filterMap_cons_some h]; rfl

theorem written_concat (l : BackupLayout) (xs : List Happening) (x : Happening) :
    l.written (xs ++ [x]) =
      l.written xs ++ x.export?.toList.map fun e => (l.backupPath e.1, e.2) := by
  rw [BackupLayout.written, exports_concat, List.map_append]
  rfl

theorem InOrder.init (h : InOrder (xs ++ [x])) : InOrder xs where
  plain e he := h.plain e (by rw [exports_concat]; exact List.mem_append_left _ he)
  earlier := by
    have hearlier := h.earlier
    rw [exports_concat] at hearlier
    exact (List.pairwise_append.1 hearlier).1

theorem InOrder.last (h : InOrder (xs ++ [.cycle start (.ok b)])) :
    start.HasPlainYear ∧ ∀ e ∈ exports xs, e.1.HasPlainYear ∧ e.1.Earlier start := by
  obtain ⟨hplain, hearlier⟩ := h
  rw [exports_concat] at hplain hearlier
  have hlast : (start, b) ∈ (Happening.cycle start (.ok b)).export?.toList :=
    List.mem_singleton_self _
  refine ⟨hplain (start, b) (List.mem_append_right _ hlast), fun e he => ⟨?_, ?_⟩⟩
  · exact hplain e (List.mem_append_left _ he)
  · exact (List.pairwise_append.1 hearlier).2.2 e he (start, b) hlast

end

namespace Memory

variable {m m' : Memory} {d : Path} {retain : Nat} {all : List (Path × Bytes)}
  {own : Path × Bytes}

/-- of all backups that were written, the oldest are gone, but not one of those that are to stay -/
def KeepsOf (m : Memory) (d : Path) (retain : Nat) (all : List (Path × Bytes)) : Prop :=
  ∃ gone ≤ all.length - retain, m.backupsIn d = all.drop gone

theorem KeepsOf.add (h : m.KeepsOf d retain all)
    (hadd : m'.backupsIn d = m.backupsIn d ++ [own]) : m'.KeepsOf d retain (all ++ [own]) := by
  obtain ⟨gone, hgone, hheld⟩ := h
  refine ⟨gone, ?_, ?_⟩
  · rw [List.length_append, List.length_singleton]
    omega
  · rw [hadd, hheld, List.drop_append_of_le_length (by omega)]

/-- pruning brings what is there down to what is to stay -/
theorem KeepsOf.backupsIn_pruned (h : m.KeepsOf d retain all) :
    (m.pruned d retain).backupsIn d = all.drop (all.length - retain) := by
  obtain ⟨gone, hgone, hheld⟩ := h
  rw [Memory.backupsIn_pruned, hheld, List.drop_drop, List.length_drop]
  congr 1
  omega

end Memory

namespace Cycle

/-- how a cycle of the versioned layout ends, where `all` are the backups that have been written,
its own included -/
inductive Keeps (c : Cycle) (d : Path) (retain : Nat) (all : List (Path × Bytes)) (start : Instant)
    (v : Workspace Memory) :
    Except String Bytes → EStateM.Result BackupError (Workspace Memory) CycleReport → Prop where
  /-- without an export, nothing is changed -/
  | unexported (reason : String) :
      Keeps c d retain all start v (.error reason) (.error (.exportFailed reason) v)
  /-- a document cannot be read: there is one backup more, and none is gone -/
  | unreconciled (snapshot : Bytes) (e : ReconcileError) (v' : Workspace Memory)
      (added : v'.store.backupsIn d =
        v.store.backupsIn d ++ [(c.layout.backupPath start, snapshot)]) :
      Keeps c d retain all start v (.ok snapshot) (.error (.reconcile e) v')
  /-- the newest of all backups are there, the new one among them, and the others are reported -/
  | pruned (snapshot : Bytes) (o : Outcome) (gone : List (Path × Bytes)) (v' : Workspace Memory)
      (held : v'.store.backupsIn d = all.drop (all.length - retain))
      (own : (c.layout.backupPath start, snapshot) ∈ v'.store.backupsIn d)
      (parted : v.store.backupsIn d ++ [(c.layout.backupPath start, snapshot)] =
        gone ++ v'.store.backupsIn d) :
      Keeps c d retain all start v (.ok snapshot)
        (.ok ⟨c.layout.backupPath start, o, gone.map (·.1)⟩ v')

variable {c : Cycle} {d : Path} {retain : Nat} {xs : List Happening} {start : Instant}
  {snapshot : Except String Bytes} {w : Workspace Memory}

/-- the backup of the next cycle comes after all that are there -/
theorem backupsIn_lt (hl : c.layout = .versioned d retain)
    (hw : w.store.KeepsOf d retain (c.layout.written xs)) {b : Bytes}
    (h : InOrder (xs ++ [.cycle start (.ok b)])) :
    ∀ e ∈ w.store.backupsIn d, e.1 < c.layout.backupPath start := by
  obtain ⟨gone, -, hheld⟩ := hw
  obtain ⟨hplain, hearlier⟩ := h.last
  intro e he
  rw [hheld] at he
  obtain ⟨f, hf, rfl⟩ := List.mem_map.1 (List.mem_of_mem_drop he)
  have hlt := BackupLayout.backupPath_lt (hearlier f hf).2 (hearlier f hf).1 hplain d retain
  dsimp only
  rw [hl]
  exact hlt

theorem keeps_run_of_keepsOf (hl : c.layout = .versioned d retain) (hr : 1 ≤ retain)
    (ht : BackupLayout.isBackupIn d c.target = false)
    (hw : w.store.KeepsOf d retain (c.layout.written xs))
    (h : InOrder (xs ++ [.cycle start snapshot])) :
    c.Keeps d retain (c.layout.written (xs ++ [.cycle start snapshot])) start w snapshot
      (c.run start snapshot w) := by
  cases snapshot with
  | error reason => exact .unexported reason
  | ok b =>
    show c.Keeps d retain _ start w (.ok b) (c.store start b w)
    have hwritten : c.layout.written (xs ++ [.cycle start (.ok b)]) =
        c.layout.written xs ++ [(c.layout.backupPath start, b)] := written_concat ..
    have hown : BackupLayout.isBackupIn d (c.layout.backupPath start) = true := by
      rw [hl]
      exact BackupLayout.isBackupIn_backupPath start d retain
    have hplace := Memory.backupsIn_place_last hown (backupsIn_lt hl hw h) b
    rcases store_versioned hl hr start b w with ⟨o, written, hok⟩ | ⟨e, herror⟩
    · rw [hok, hwritten]
      have hadd : (c.reconciled w.store start b written).backupsIn d =
          w.store.backupsIn d ++ [(c.layout.backupPath start, b)] :=
        (Memory.backupsIn_settle_of_not ht _ written).trans hplace
      have hheld := (hw.add hadd).backupsIn_pruned
      refine .pruned b o _ _ hheld ?_ ?_
      · show _ ∈ ((c.reconciled w.store start b written).pruned d retain).backupsIn d
        rw [hheld, List.drop_append_of_le_length]
        · exact List.mem_append_right _ (List.mem_singleton_self _)
        · rw [List.length_append, List.length_singleton]
          omega
      · exact hadd.symm.trans (Memory.excess_append_pruned ..).symm
    · rw [herror]
      exact .unreconciled b e _ hplace

theorem Keeps.keepsOf {result : EStateM.Result BackupError (Workspace Memory) CycleReport}
    (hw : w.store.KeepsOf d retain (c.layout.written xs))
    (h : c.Keeps d retain (c.layout.written (xs ++ [.cycle start snapshot])) start w snapshot
      result) :
    (leave result).store.KeepsOf d retain (c.layout.written (xs ++ [.cycle start snapshot])) := by
  rw [written_concat] at h ⊢
  cases h with
  | unexported reason => exact (List.append_nil _).symm ▸ hw
  | unreconciled snapshot e v' added => exact hw.add added
  | pruned snapshot o gone v' held own parted => exact ⟨_, Nat.le_refl _, held⟩

theorem keepsOf_foldl (hl : c.layout = .versioned d retain) (hr : 1 ≤ retain)
    (hu : BackupLayout.isBackupIn d c.user = false)
    (ht : BackupLayout.isBackupIn d c.target = false) (hw : w.store.backupsIn d = [])
    (h : InOrder xs) : (xs.foldl c.after w).store.KeepsOf d retain (c.layout.written xs) := by
  induction xs using List.reverseRecOn with
  | nil => exact ⟨0, Nat.zero_le _, hw⟩
  | append_singleton xs x ih =>
    have hinit := ih h.init
    rw [List.foldl_append, List.foldl_cons, List.foldl_nil]
    cases x with
    | cycle start snapshot => exact (keeps_run_of_keepsOf hl hr ht hinit h).keepsOf hinit
    | edit document =>
      have hwritten : c.layout.written (xs ++ [.edit document]) = c.layout.written xs := by
        rw [written_concat]
        exact List.append_nil _
      rw [hwritten]
      obtain ⟨gone, hgone, hheld⟩ := hinit
      refine ⟨gone, hgone, ?_⟩
      rw [← hheld]
      cases document with
      | none => exact Memory.backupsIn_remove_of_not hu _
      | some b => exact Memory.backupsIn_insert_of_not hu _ b

/-- **the versioned backups that a run of cycles leaves are the last ones that were written**: in a
directory that held none at first, and with cycles that start one after the other, each cycle that
ends well leaves the newest `retain` of all backups so far, its own among them, and reports the
others, oldest first; a cycle that fails takes none away -/
theorem keeps_run (c : Cycle) (d : Path) (retain : Nat) (hl : c.layout = .versioned d retain)
    (hr : 1 ≤ retain) (hu : BackupLayout.isBackupIn d c.user = false)
    (ht : BackupLayout.isBackupIn d c.target = false) (w : Workspace Memory)
    (hw : w.store.backupsIn d = []) (xs : List Happening) (start : Instant)
    (snapshot : Except String Bytes) (h : InOrder (xs ++ [.cycle start snapshot])) :
    c.Keeps d retain (c.layout.written (xs ++ [.cycle start snapshot])) start
      (xs.foldl c.after w) snapshot (c.run start snapshot (xs.foldl c.after w)) :=
  keeps_run_of_keepsOf hl hr ht (keepsOf_foldl hl hr hu ht hw h.init) h

/-- one backup is to stay: a cycle that could not read the user document has left a second one, and
the next one that ends well takes both away -/
theorem keeps_run_two :
    let d : Path := ⟨"/b"⟩
    let c : Cycle := ⟨{}, .versioned d 1, ⟨"/u"⟩, ⟨"/t"⟩⟩
    let t (n : Int) : Instant := (Instant.ofUnix? n 0).getD default
    let p (n : Int) : Path := c.layout.backupPath (t n)
    let xs : List Happening := [.cycle (t 0) (.ok [0x61]), .edit (some [0xff]),
      .cycle (t 1) (.ok [0x62]), .cycle (t 2) (.error "no answer"), .edit none]
    InOrder (xs ++ [.cycle (t 3) (.ok [0x63])]) ∧
    ∃ o v, c.run (t 3) (.ok [0x63]) (xs.foldl c.after ⟨{}, []⟩) = .ok ⟨p 3, o, [p 0, p 1]⟩ v ∧
      v.store.backupsIn d = [(p 3, [0x63])] := by
  intro d c t p xs
  have hin : InOrder (xs ++ [.cycle (t 3) (.ok [0x63])]) := by
    constructor
    · decide +kernel
    · decide +kernel
  refine ⟨hin, ?_⟩
  have hbefore : (xs.foldl c.after ⟨{}, []⟩).store.backupsIn d =
      [(p 0, [0x61]), (p 1, [0x62])] := by decide +kernel
  have hall : c.layout.written (xs ++ [.cycle (t 3) (.ok [0x63])]) =
      [(p 0, [0x61]), (p 1, [0x62]), (p 3, [0x63])] := by decide +kernel
  have hok : (report? (c.run (t 3) (.ok [0x63]) (xs.foldl c.after ⟨{}, []⟩))).isSome = true := by
    decide +kernel
  have h := keeps_run c d 1 rfl (by decide) (by decide) (by decide) ⟨{}, []⟩ rfl xs (t 3)
    (.ok [0x63]) hin
  rw [hall] at h
  generalize c.run (t 3) (.ok [0x63]) (xs.foldl c.after ⟨{}, []⟩) = result at h hok
  have hp : c.layout.backupPath (t 3) = p 3 := rfl
  clear_value p
  cases h with
  | unreconciled snapshot e v' added => cases hok
  | pruned snapshot o gone v' held own parted =>
    rw [hbefore, held, hp] at parted
    have hgone : gone = [(p 0, [0x61]), (p 1, [0x62])] :=
      (List.append_cancel_right parted).symm
    refine ⟨o, v', ?_, held⟩
    rw [hgone, hp]
    rfl

end Cycle

end ConfigReconcile
