import ConfigReconcile.Proofs.Backup.Retention

/-!
# Files that are taken for backups

Pruning goes by the start and the end of a name.  A file may have both and no stamp between them, as
`jenkins.backup.yaml`, in which the two overlap.  Such a stray counts as a backup: it may be taken
away, or it may stay in the place of a backup.

* `isStamped`           the name of a file is start, stamp and end;
* `SparesStamped`       what pruning is for: only stamped files go, and the newest ones stay;
* `spares_pruned_iff`   it does so unless it has to remove something and there is a stray;
* `isSome_read?_backup_iff`   the backup of a cycle is there at its end if any stamped file is, so
                        long as none is later;
* `spares_iff`          both, of the operations themselves.
-/

namespace ConfigReconcile

open Text

/-! ## the last entries of a list -/

section
variable {α : Type} {l : List α}

/-- the entries up to the last `n` are kept in sight, and the last `n` that are kept in sight are
among the last `n`, only if there are no more than `n` entries or all are kept in sight -/
theorem drop_filter_subset_iff (hl : l.Nodup) (keep : α → Bool) (n : Nat) :
    ((∀ a ∈ l.take (l.length - n), keep a = true) ∧
        ∀ a ∈ (l.filter keep).drop ((l.filter keep).length - n), a ∈ l.drop (l.length - n)) ↔
      l.length ≤ n ∨ ∀ a ∈ l, keep a = true := by
  constructor
  · rintro ⟨hgone, hnewest⟩
    by_contra hnot
    rw [not_or, not_le] at hnot
    obtain ⟨hlong, hnot⟩ := hnot
    obtain ⟨k, hk⟩ : ∃ k, l.length - n = k + 1 := ⟨l.length - n - 1, by omega⟩
    rw [hk] at hgone hnewest
    -- the entries that are to go have a last one, and it is one of the newest in sight
    have hlt : k < l.length := by omega
    have hmem : l[k] ∈ l.take (k + 1) := List.mem_take_iff_getElem.2 ⟨k, by omega, rfl⟩
    have hnotmem : l[k] ∉ l.drop (k + 1) := fun h => by
      have hsplit := (List.take_append_drop (k + 1) l) ▸ hl
      exact (List.nodup_append.1 hsplit).2.2 _ hmem _ h rfl
    apply hnotmem (hnewest _ _)
    have hfilter : l.filter keep = l.take k ++ l[k] :: (l.drop (k + 1)).filter keep := by
      have hall : (l.take (k + 1)).filter keep = l.take (k + 1) :=
        List.filter_eq_self.2 hgone
      conv => lhs; rw [← List.take_append_drop (k + 1) l]
      rw [List.filter_append, hall, ← List.take_append_getElem hlt, List.append_assoc]
      rfl
    have hfew : ((l.drop (k + 1)).filter keep).length < n := by
      have hlength : (l.drop (k + 1)).length = n := by
        rw [List.length_drop]
        omega
      rw [← hlength]
      apply List.length_filter_lt_length_iff_exists.2
      by_contra hno
      apply hnot
      intro a ha
      rw [← List.take_append_drop (k + 1) l, List.mem_append] at ha
      rcases ha with ha | ha
      · exact hgone a ha
      · by_contra hkeep
        exact hno ⟨a, ha, hkeep⟩
    rw [hfilter, List.drop_append_of_le_length]
    · exact List.mem_append_right _ (List.mem_cons_self ..)
    · rw [List.length_append, List.length_cons]
      omega
  · rintro (hshort | hall)
    · rw [Nat.sub_eq_zero_of_le hshort]
      refine ⟨fun a ha => absurd ha List.not_mem_nil, fun a ha => ?_⟩
      exact List.mem_of_mem_filter (List.mem_of_mem_drop ha)
    · rw [List.filter_eq_self.2 hall]
      exact ⟨fun a ha => hall a (List.mem_of_mem_take ha), fun a ha => ha⟩

end

/-! ## stamped files -/

namespace BackupLayout

variable {d p q : Path} {start : Instant}

/-- what the name of a backup looks like, with `#` for a digit -/
def namePattern : List Char :=
  nameStart.toList ++ "########T######.###Z".toList ++ nameEnd.toList

/-- whether the name of a file is that of a backup -/
def isStamped (p : Path) : Bool :=
  match p.fileName? with
  | some name => Instant.isLike namePattern name
  | none => false

theorem isStamped_congr (h : p.key = q.key) : isStamped p = isStamped q := by
  unfold isStamped Path.fileName?
  rw [Path.key_eq_iff.1 h]

theorem isVersioned_of_isStamped (h : isStamped p = true) : isVersioned p = true := by
  unfold isStamped at h
  unfold isVersioned
  cases hname : p.fileName? with
  | some name =>
    rw [hname] at h
    obtain ⟨front, last, rfl, hfront, hlast⟩ := Instant.exists_of_isLike_append h
    obtain ⟨first, stamp, rfl, hfirst, -⟩ := Instant.exists_of_isLike_append hfront
    rw [Instant.eq_of_isLike hfirst (by decide), Instant.eq_of_isLike hlast (by decide)]
    dsimp only
    rw [Bool.and_eq_true, List.isPrefixOf_iff_prefix, List.isSuffixOf_iff_suffix, List.append_assoc]
    exact ⟨List.prefix_append .., List.append_assoc .. ▸ List.suffix_append ..⟩
  | none =>
    rw [hname] at h
    cases h

theorem isStamped_backupPath (h : start.HasPlainYear) (d : Path) (retain : Nat) :
    isStamped ((versioned d retain).backupPath start) = true := by
  have hname := (Path.isIn_iff.1 (isIn_backupPath start d retain)).2
  have hlike : Instant.isLike namePattern (nameOf start) = true :=
    Instant.isLike_append (Instant.isLike_append (by decide) (Instant.isStamp_stamp h)) (by decide)
  unfold isStamped
  rw [hname]
  exact hlike

end BackupLayout

namespace Memory

open BackupLayout

variable {m : Memory} {d p : Path}

/-- the stamped files of a directory, in the order of their stamps -/
def stampedIn (m : Memory) (d : Path) : List Path := (m.list d).filter isStamped

theorem mem_backups_iff : p ∈ (m.backupsIn d).map (·.1) ↔ p ∈ m.list d ∧ isVersioned p = true := by
  rw [map_fst_backupsIn, List.mem_filter]

theorem nodup_backups (m : Memory) (d : Path) : ((m.backupsIn d).map (·.1)).Nodup := by
  apply List.Pairwise.imp _ (List.pairwise_map.2 (m.ascending_backupsIn d))
  rintro p _ hlt rfl
  exact Path.lt_irrefl p hlt

/-- the stamped files are among those that are taken for backups -/
theorem stampedIn_eq (m : Memory) (d : Path) :
    m.stampedIn d = ((m.backupsIn d).map (·.1)).filter isStamped := by
  rw [map_fst_backupsIn, List.filter_filter, stampedIn]
  apply List.filter_congr
  intro p _
  cases h : isStamped p with
  | false => rw [Bool.false_and]
  | true => rw [isVersioned_of_isStamped h, Bool.and_self]

theorem isSome_read?_iff : (m.read? p).isSome = true ↔ ∃ e ∈ m.files.entries, e.1.key = p.key := by
  unfold read? Files.get?
  induction m.files.entries with
  | nil => simp [Files.look]
  | cons e es ih =>
    rw [Files.look, List.exists_mem_cons_iff]
    split
    · next he => simp [he]
    · next he => simp [he, ih]

theorem isSome_read?_backup_iff (hp : isBackupIn d p = true) :
    (m.read? p).isSome = true ↔ ∃ e ∈ m.backupsIn d, e.1.key = p.key := by
  rw [isSome_read?_iff]
  constructor
  · rintro ⟨e, he, hkey⟩
    exact ⟨e, List.mem_filter.2 ⟨he, (isBackupIn_congr hkey).trans hp⟩, hkey⟩
  · rintro ⟨e, he, hkey⟩
    exact ⟨e, List.mem_of_mem_filter he, hkey⟩

/-! ## what pruning spares -/

/-- nothing is gone but stamped files, and the newest of these are still there -/
structure SparesStamped (m : Memory) (d : Path) (retain : Nat) (gone : List Path) (m' : Memory) :
    Prop where
  stamped : ∀ p ∈ gone, isStamped p = true
  newest : ∀ p ∈ (m.stampedIn d).drop ((m.stampedIn d).length - retain), p ∈ m'.list d

theorem spares_pruned_iff (m : Memory) (d : Path) (retain : Nat) :
    m.SparesStamped d retain ((m.excess d retain).map (·.1)) (m.pruned d retain) ↔
      (m.backupsIn d).length ≤ retain ∨ ∀ e ∈ m.backupsIn d, isStamped e.1 = true := by
  have hiff := drop_filter_subset_iff (m.nodup_backups d) isStamped retain
  have hkept (p : Path) (hp : isStamped p = true) : p ∈ (m.pruned d retain).list d ↔
      p ∈ ((m.backupsIn d).map (·.1)).drop ((m.backupsIn d).length - retain) := by
    rw [← List.map_drop, ← backupsIn_pruned, mem_backups_iff,
      and_iff_left (isVersioned_of_isStamped hp)]
  rw [← stampedIn_eq, List.length_map, ← List.map_take, List.forall_mem_map,
    List.forall_mem_map] at hiff
  rw [← hiff]
  constructor
  · intro h
    refine ⟨List.forall_mem_map.1 h.stamped, fun p hp => ?_⟩
    have hstamped := List.of_mem_filter (List.mem_of_mem_drop hp)
    exact (hkept p hstamped).1 (h.newest p hp)
  · rintro ⟨hstamped, hnewest⟩
    refine ⟨List.forall_mem_map.2 hstamped, fun p hp => ?_⟩
    have hstamped := List.of_mem_filter (List.mem_of_mem_drop hp)
    exact (hkept p hstamped).2 (hnewest p hp)

/-- once it has been pruned, a directory without a later stamped file has a given stamped one if it
has any -/
theorem isSome_read?_pruned_iff {retain : Nat} (hp : isBackupIn d p = true)
    (hstamped : isStamped p = true) (hm : (m.read? p).isSome = true)
    (hlater : ∀ q ∈ (m.pruned d retain).list d, isStamped q = true → ¬p < q) :
    ((m.pruned d retain).read? p).isSome = true ↔
      ∃ q ∈ (m.pruned d retain).list d, isStamped q = true := by
  rw [isSome_read?_backup_iff hp]
  constructor
  · rintro ⟨e, he, hkey⟩
    refine ⟨e.1, (mem_backups_iff.1 (List.mem_map_of_mem he)).1, ?_⟩
    rw [isStamped_congr hkey, hstamped]
  · rintro ⟨q, hq, hqstamped⟩
    obtain ⟨f, hf, rfl⟩ := List.mem_map.1
      (mem_backups_iff.2 ⟨hq, isVersioned_of_isStamped hqstamped⟩)
    obtain ⟨e, he, hkey⟩ := (isSome_read?_backup_iff hp).1 hm
    refine ⟨e, ?_, hkey⟩
    -- what is gone is before all that is left, so before `f`, but `f` is not after the given one
    have hsplit := excess_append_pruned m d retain
    have hascending := hsplit.symm ▸ m.ascending_backupsIn d
    rw [← hsplit, List.mem_append] at he
    refine he.resolve_left fun hgone => hlater f.1 hq hqstamped ?_
    have hlt := (List.pairwise_append.1 hascending).2.2 e hgone f hf
    rw [Path.lt_iff] at hlt ⊢
    rwa [← hkey]

/-- something is left of what is taken for backups, and if it is all stamped, so is what is left -/
theorem exists_stamped_pruned {retain : Nat} (hr : 1 ≤ retain) (hp : isBackupIn d p = true)
    (hm : (m.read? p).isSome = true)
    (hall : ∀ q ∈ (m.pruned d retain).list d, isVersioned q = true → isStamped q = true) :
    ∃ q ∈ (m.pruned d retain).list d, isStamped q = true := by
  obtain ⟨e, he, -⟩ := (isSome_read?_backup_iff hp).1 hm
  have hpos := List.length_pos_of_mem he
  have hne : (m.pruned d retain).backupsIn d ≠ [] := by
    rw [backupsIn_pruned, Ne, List.drop_eq_nil_iff]
    omega
  obtain ⟨f, hf⟩ := List.exists_mem_of_ne_nil _ hne
  obtain ⟨hlist, hversioned⟩ := mem_backups_iff.1 (List.mem_map_of_mem hf)
  exact ⟨f.1, hlist, hall f.1 hlist hversioned⟩

end Memory

namespace Cycle

open BackupLayout

variable {c : Cycle} {d : Path} {retain : Nat} {w w' : Workspace Memory} {start : Instant}
  {snapshot : Except String Bytes} {report : CycleReport}

/-- a cycle that ends well has pruned a memory in which its backup was there -/
theorem pruned_of_ok (hl : c.layout = .versioned d retain) (hr : 1 ≤ retain)
    (h : c.run start snapshot w = .ok report w') :
    report.backup = c.layout.backupPath start ∧
      ∃ m : Memory, (m.read? report.backup).isSome = true ∧ w'.store = m.pruned d retain := by
  cases snapshot with
  | error reason => cases h
  | ok b =>
    have hrun : c.run start (.ok b) w = c.store start b w := rfl
    rcases store_versioned hl hr start b w with ⟨o, written, hok⟩ | ⟨e, herror⟩
    · rw [hrun, hok] at h
      cases h
      refine ⟨rfl, _, ?_, rfl⟩
      dsimp only
      rw [reconciled, Memory.read?_settle, Memory.read?_place, if_pos rfl]
      split
      · cases written <;> rfl
      · rfl
    · rw [hrun, herror] at h
      cases h

/-- **pruning spares what is no backup, and keeps the newest backups, unless there are strays**: it
takes away the first ones of all files whose names have the start and the end of a backup's, and
changes nothing else; these are stamped, and the newest stamped files stay, if and only if nothing
has to go or there is no stray.  The backup of a cycle that ends well, with no stamped file later
than it, is there if and only if any stamped file is; so it is unless strays fill all places -/
theorem spares_iff (d : Path) (retain : Nat) (hr : 1 ≤ retain) :
    (∀ m : Memory, ∃ gone m', (versioned d retain).prune m = .ok gone m' ∧
      gone = ((m.list d).filter isVersioned).take (((m.list d).filter isVersioned).length - retain) ∧
      (∀ p, m'.read? p = if p.key ∈ gone.map Path.key then none else m.read? p) ∧
      (m.SparesStamped d retain gone m' ↔ ((m.list d).filter isVersioned).length ≤ retain ∨
        ∀ p ∈ (m.list d).filter isVersioned, isStamped p = true)) ∧
    ∀ (c : Cycle) (w w' : Workspace Memory) (start : Instant) (snapshot : Except String Bytes)
      (report : CycleReport), c.layout = .versioned d retain → start.HasPlainYear →
      c.run start snapshot w = .ok report w' →
      (∀ p ∈ w'.store.list d, isStamped p = true → ¬report.backup < p) →
      ((w'.store.read? report.backup).isSome = true ↔
        ∃ p ∈ w'.store.list d, isStamped p = true) ∧
      ((∀ p ∈ w'.store.list d, isVersioned p = true → isStamped p = true) →
        (w'.store.read? report.backup).isSome = true) := by
  constructor
  · intro m
    refine ⟨_, _, Memory.prune_eq hr m d, ?_, fun p => m.read?_without _ p, ?_⟩
    · rw [Memory.excess, List.map_take, ← Memory.map_fst_backupsIn, List.length_map]
    · rw [m.spares_pruned_iff, ← Memory.map_fst_backupsIn, List.length_map, List.forall_mem_map]
  · intro c w w' start snapshot report hl hplain hrun hlater
    obtain ⟨hbackup, m, hm, hstore⟩ := pruned_of_ok hl hr hrun
    rw [hstore] at hlater ⊢
    have hin : isBackupIn d report.backup = true := by
      rw [hbackup, hl]
      exact isBackupIn_backupPath start d retain
    have hstamped : isStamped report.backup = true := by
      rw [hbackup, hl]
      exact isStamped_backupPath hplain d retain
    have hiff := Memory.isSome_read?_pruned_iff hin hstamped hm hlater
    exact ⟨hiff, fun hall => hiff.2 (Memory.exists_stamped_pruned hr hin hm hall)⟩

/-- with two backups and some notes, one of which has to go, and a cycle in an empty directory -/
theorem spares_iff_notes :
    let d : Path := ⟨"/b"⟩
    let older : Path := ⟨"/b/jenkins.backup.20261018T090000.000Z.yaml"⟩
    let newer : Path := ⟨"/b/jenkins.backup.20261018T090001.000Z.yaml"⟩
    let m : Memory := ((({} : Memory).insert newer []).insert older []).insert ⟨"/b/notes.txt"⟩ []
    let c : Cycle := ⟨{}, .versioned d 1, ⟨"/u"⟩, ⟨"/t"⟩⟩
    (∃ m', (versioned d 1).prune m = .ok [older] m' ∧ m.SparesStamped d 1 [older] m') ∧
    ∃ (report : CycleReport) (w' : Workspace Memory),
      c.run default (.ok [0x61]) ⟨{}, []⟩ = .ok report w' ∧
        (w'.store.read? report.backup).isSome = true := by
  intro d older newer m c
  obtain ⟨hprune, hcycle⟩ := spares_iff d 1 (by decide)
  constructor
  · obtain ⟨gone, m', hrun, hgone, -, hspares⟩ := hprune m
    have holder : gone = [older] := hgone.trans (by decide)
    rw [holder] at hrun hspares
    exact ⟨m', hrun, hspares.2 (.inr (by decide))⟩
  · let w : Workspace Memory := ⟨{}, []⟩
    have hends : ∃ report ∈ report? (c.run default (.ok [0x61]) w),
        (leave (c.run default (.ok [0x61]) w)).store.list d = [report.backup] ∧
          isStamped report.backup = true := by decide
    cases hrun : c.run default (.ok [0x61]) w with
    | error e w' =>
      rw [hrun] at hends
      obtain ⟨report, hreport, -⟩ := hends
      cases hreport
    | ok report w' =>
      rw [hrun] at hends
      obtain ⟨report, ⟨⟩, hleft, hstamped⟩ := hends
      have hlist : w'.store.list d = [report.backup] := hleft
      have hlater : ∀ p ∈ w'.store.list d, isStamped p = true → ¬report.backup < p := by
        rw [hlist, List.forall_mem_singleton]
        exact fun _ => Path.lt_irrefl _
      refine ⟨report, w', rfl, (hcycle c w w' _ _ report rfl (by decide) hrun hlater).1.2 ?_⟩
      rw [hlist]
      exact ⟨_, List.mem_singleton_self _, hstamped⟩

/-- of a backup and a stray behind it, the backup goes -/
theorem not_forall_sparesStamped :
    ¬∀ (d : Path) (retain : Nat) (m : Memory) (gone : List Path) (m' : Memory), 1 ≤ retain →
      (versioned d retain).prune m = .ok gone m' → m.SparesStamped d retain gone m' := by
  intro h
  let d : Path := ⟨"/b"⟩
  let backup : Path := ⟨"/b/jenkins.backup.20261018T090000.000Z.yaml"⟩
  let m : Memory := (({} : Memory).insert backup []).insert ⟨"/b/jenkins.backup.yaml"⟩ []
  have hspares := h d 1 m _ _ (by decide) (Memory.prune_eq (by decide) m d)
  have hnewest : backup ∈ (m.stampedIn d).drop ((m.stampedIn d).length - 1) := by decide
  have hgone : backup ∉ (m.pruned d 1).list d := by decide
  exact hgone (hspares.newest backup hnewest)

end Cycle

end ConfigReconcile
