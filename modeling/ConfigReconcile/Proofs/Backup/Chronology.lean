import ConfigReconcile.Proofs.Backup.Retention

/-!
# The order of names is the order of age

A backup is named after the start of its cycle, cut to the millisecond.  So the paths of backups of a
directory say of any two cycles which of them was the earlier one, and two cycles have the same path
only if no whole millisecond is between them:

* `Instant.cut`          an instant without what is below a millisecond;
* `Instant.stamp_congr`  two instants have one stamp if they agree to the millisecond;
* `BackupLayout.backupPath_chronological`   paths are in the order of time, and so are paths that have
                         been sorted.
-/

namespace ConfigReconcile

namespace Instant

variable {t u : Instant}

/-- instants go by seconds, and a leap second comes last in its second -/
instance : LT Instant where
  lt t u := t.seconds < u.seconds ∨ t.seconds = u.seconds ∧ t.nanos < u.nanos

instance (t u : Instant) : Decidable (t < u) := inferInstanceAs (Decidable (_ ∨ _))

theorem lt_def : t < u ↔ t.seconds < u.seconds ∨ t.seconds = u.seconds ∧ t.nanos < u.nanos :=
  Iff.rfl

theorem isInstant_cut (t : Instant) :
    isInstant t.seconds (t.nanos / 1000000 * 1000000) = true := by
  have ht := t.valid
  simp only [isInstant, Bool.and_eq_true, Bool.or_eq_true, decide_eq_true_eq] at ht ⊢
  omega

/-- without what is below a millisecond -/
def cut (t : Instant) : Instant where
  seconds := t.seconds
  nanos := t.nanos / 1000000 * 1000000
  valid := t.isInstant_cut

theorem cut_eq_cut_iff :
    t.cut = u.cut ↔ t.seconds = u.seconds ∧ t.nanos / 1000000 = u.nanos / 1000000 := by
  rw [cut, cut, Instant.mk.injEq]
  omega

theorem cut_lt_cut_iff : t.cut < u.cut ↔ t.Earlier u := by
  rw [lt_def, Earlier, cut, cut]
  dsimp only
  omega

theorem cut_cases (t u : Instant) : t.cut < u.cut ∨ t.cut = u.cut ∨ u.cut < t.cut := by
  rw [cut_eq_cut_iff, cut_lt_cut_iff, cut_lt_cut_iff, Earlier, Earlier]
  omega

/-- a stamp does not tell what is below a millisecond -/
theorem stamp_congr (h : t.cut = u.cut) : t.stamp = u.stamp := by
  obtain ⟨hs, hn⟩ := cut_eq_cut_iff.1 h
  have hdate : t.date = u.date := by rw [date, date, hs]
  have hsecond : t.secondOfDay = u.secondOfDay := by rw [secondOfDay, secondOfDay, hs]
  have hleap : t.nanos / 1000000000 = u.nanos / 1000000000 := by omega
  have hmilli : t.nanos % 1000000000 / 1000000 = u.nanos % 1000000000 / 1000000 := by omega
  rw [stamp, stamp, hdate, hsecond, hleap, hmilli]

end Instant

namespace BackupLayout

variable {t u : Instant} {ts : List Instant}

theorem backupPath_congr (h : t.cut = u.cut) (l : BackupLayout) :
    l.backupPath t = l.backupPath u := by
  cases l with
  | single path => rfl
  | versioned d retain => rw [backupPath, backupPath, backupName, backupName, Instant.stamp_congr h]

theorem backupPath_lt_iff (ht : t.HasPlainYear) (hu : u.HasPlainYear) (d : Path) (retain : Nat) :
    (versioned d retain).backupPath t < (versioned d retain).backupPath u ↔ t.cut < u.cut := by
  refine ⟨fun hlt => ?_, fun h => backupPath_lt (Instant.cut_lt_cut_iff.1 h) ht hu d retain⟩
  rcases Instant.cut_cases t u with h | h | h
  · exact h
  · rw [backupPath_congr h] at hlt
    exact absurd hlt (Path.lt_irrefl _)
  · have hgt := backupPath_lt (Instant.cut_lt_cut_iff.1 h) hu ht d retain
    exact absurd (Path.lt_trans hlt hgt) (Path.lt_irrefl _)

/-- backups of different milliseconds are different files -/
theorem cut_eq_of_key_eq (ht : t.HasPlainYear) (hu : u.HasPlainYear) (d : Path) (retain : Nat)
    (h : ((versioned d retain).backupPath t).key = ((versioned d retain).backupPath u).key) :
    t.cut = u.cut := by
  have hirrefl (a b : Instant) (ha : a.HasPlainYear) (hb : b.HasPlainYear)
      (hkey : ((versioned d retain).backupPath a).key = ((versioned d retain).backupPath b).key) :
      ¬a.cut < b.cut := by
    rw [← backupPath_lt_iff ha hb d retain, Path.lt_iff, hkey]
    exact List.lt_irrefl _
  rcases Instant.cut_cases t u with hlt | heq | hgt
  · exact absurd hlt (hirrefl t u ht hu h)
  · exact heq
  · exact absurd hgt (hirrefl u t hu ht h.symm)

/-- **the order of names is the order of age**: of backups of one directory, to the millisecond.
Backups of different milliseconds do not overwrite each other, and paths that are sorted are sorted by
time -/
theorem backupPath_chronological (d : Path) (retain : Nat) (hts : ∀ t ∈ ts, t.HasPlainYear) :
    let path := (versioned d retain).backupPath
    (∀ t ∈ ts, ∀ u ∈ ts,
      (path t < path u ↔ t.cut < u.cut) ∧ (path t = path u ↔ t.cut = u.cut) ∧
      (t.cut ≠ u.cut → ∀ (m m' : Memory) (b : Text.Bytes), m.write? (path u) b = some m' →
        m'.read? (path t) = m.read? (path t))) ∧
    (ts.map path).mergeSort (fun p q => ¬q < p) =
      (ts.mergeSort fun t u => ¬u.cut < t.cut).map path := by
  intro path
  constructor
  · intro t ht u hu
    have hplain := hts t ht
    have hplain' := hts u hu
    refine ⟨backupPath_lt_iff hplain hplain' d retain, ?_, ?_⟩
    · refine ⟨fun h => ?_, fun h => backupPath_congr h _⟩
      exact cut_eq_of_key_eq hplain hplain' d retain (congrArg Path.key h)
    · intro hne m m' b hwrite
      rw [Memory.read?_write? hwrite, if_neg]
      exact fun hkey => hne (cut_eq_of_key_eq hplain hplain' d retain hkey.symm)
  · symm
    apply List.map_mergeSort
    intro t ht u hu
    rw [decide_eq_decide, not_iff_not]
    exact (backupPath_lt_iff (hts u hu) (hts t ht) d retain).symm

/-- the last millisecond of a leap second, the next one and one that agrees with it -/
theorem backupPath_chronological_leap :
    let path := (versioned ⟨"/b/"⟩ 3).backupPath
    let t : Instant := ⟨1483228799, 1999999999, by decide⟩
    let u : Instant := ⟨1483228800, 0, by decide⟩
    let v : Instant := ⟨1483228800, 999999, by decide⟩
    (∀ x ∈ [u, v, t], x.HasPlainYear) ∧ path t < path u ∧ path u = path v ∧
      path t = ⟨"/b/jenkins.backup.20161231T235960.999Z.yaml"⟩ ∧
      path u = ⟨"/b/jenkins.backup.20170101T000000.000Z.yaml"⟩ := by
  intro path t u v
  have hplain : ∀ x ∈ [u, v, t], x.HasPlainYear := by decide +kernel
  obtain ⟨horder, -⟩ := backupPath_chronological ⟨"/b/"⟩ 3 hplain
  have htu := (horder t (by simp) u (by simp)).1
  have huv := (horder u (by simp) v (by simp)).2.1
  exact ⟨hplain, htu.2 (by decide), huv.2 (by decide), by decide +kernel, by decide +kernel⟩

end BackupLayout

end ConfigReconcile
