import ConfigReconcile.Backup.Cycle
import ConfigReconcile.Proofs.Reconcile.Table

/-!
# Runs of backup cycles

A cycle of the single layout leaves its backup behind when it fails after the backup was written.
The next cycle finds it where a system document stands, and writes its own snapshot over it.  So
nothing of the past is left but the target itself and the user document:

* `foldIn`          what a snapshot and a user document come to, and what is written to the target;
* `Cycle.store_of_ok`, `Cycle.store_of_error`   a cycle of the single layout in a memory that
                    refuses nothing, by what they come to;
* `Happening`       a cycle, or a change of the user document by somebody else;
* `Documents.after` what a happening makes of the user document and the target, of which no backup
                    is a part;
* `Cycle.Ends`      the three ways in which a cycle ends;
* `Cycle.history_free`   a run of cycles goes by `Documents.after`, and each of them by `Cycle.Ends`.
-/

namespace ConfigReconcile

open Text

/-! ## folding a snapshot in -/

/-- the two documents that a cycle reads -/
inductive Source where
  | user
  | snapshot
  deriving DecidableEq, Repr

/-- the outcome for a snapshot and the user document, if there is one, with what is written to the
target, if anything is; or the document that cannot be read -/
def foldIn (snapshot : Bytes) (user : Option Bytes) :
    Except (Source × DocumentError) (Outcome × Option Bytes) :=
  match user with
  | none => .ok (.copiedSystem, some snapshot)
  | some u =>
    match Node.parseBytes u with
    | .error e => .error (.user, e)
    | .ok .null => .ok (.copiedSystem, some snapshot)
    | .ok n =>
      match Node.parseBytes snapshot with
      | .error e => .error (.snapshot, e)
      | .ok m =>
        match (n.merge m).render with
        | some text => .ok (.merged, some (Utf8.encode text))
        | none => .ok (.mergedEmpty, none)

namespace Cycle

/-- where a cycle finds its documents -/
def pathOf (c : Cycle) (backup : Path) : Source → Path
  | .user => c.user
  | .snapshot => backup

end Cycle

section
variable {snapshot : Bytes} {user : Option Bytes} {o : Outcome} {written : Option Bytes}

/-- what the two come to is a row of the table -/
theorem row_of_foldIn (fallback : Bytes) (h : foldIn snapshot user = .ok (o, written)) :
    Row fallback (some snapshot) user o written := by
  unfold foldIn at h
  split at h
  · cases h
    exact .systemOnly snapshot
  · next u =>
    split at h
    · cases h
    · next hu =>
      cases h
      exact .nullUser snapshot u hu
    · next n hn hu =>
      split at h
      · cases h
      · next m hs =>
        split at h
        · next text ht =>
          cases h
          exact .merged snapshot u m n text hu hn hs ht
        · next ht =>
          cases h
          exact .nothing snapshot u m n hu hn hs ht

theorem unreadable_of_foldIn (c : Cycle) (backup : Path) {source : Source} {e : DocumentError}
    (h : foldIn snapshot user = .error (source, e)) :
    ∃ u, user = some u ∧
      Unreadable ⟨backup, c.user, c.target⟩ snapshot u (c.pathOf backup source) e := by
  unfold foldIn at h
  split at h
  · cases h
  · next u =>
    refine ⟨u, rfl, ?_⟩
    split at h
    · next hu =>
      cases h
      exact .user e hu
    · cases h
    · next n hn hu =>
      split at h
      · next hs =>
        cases h
        exact .system e n hu hn hs
      · split at h <;> cases h

/-- with a snapshot there, no default is made and no user document copied -/
theorem outcome_of_foldIn (h : foldIn snapshot user = .ok (o, written)) :
    o = .copiedSystem ∨ o = .merged ∨ o = .mergedEmpty := by
  cases row_of_foldIn [] h <;> simp

end

/-! ## one cycle -/

/-- with a system document there, nobody is asked for a default document -/
theorem Reconciler.reconcile_congr (r : Reconciler) (default? : Option Bytes) {ps : DocumentPaths}
    {w : Workspace Memory} {system : Bytes} (h : w.store.read? ps.system = some system) :
    ({ r with defaultDocument? := default? } : Reconciler).reconcile ps w = r.reconcile ps w := by
  unfold Reconciler.reconcile
  rw [bind_of_ok _ (onStore_isFile w ps.system), bind_of_ok _ (onStore_isFile w ps.system),
    bind_of_ok _ (onStore_isFile w ps.user), bind_of_ok _ (onStore_isFile w ps.user), h]
  cases w.store.read? ps.user <;> rfl

namespace Cycle

/-- the backup, the user document and the target are three files -/
structure Apart (c : Cycle) (backup : Path) : Prop where
  user : backup.key ≠ c.user.key
  target : backup.key ≠ c.target.key
  documents : c.user.key ≠ c.target.key

variable {c : Cycle} {backup : Path} {w : Workspace Memory} {snapshot : Bytes}

theorem makeParent_eq (w : Workspace Memory) (p : Path) :
    makeParent p w = .ok () (w.withStore (w.store.prepare p)) := by
  unfold makeParent Memory.prepare
  cases p.parent? with
  | none => rfl
  | some d =>
    dsimp only
    split <;> rfl

theorem onStore_write (w : Workspace Memory) (p : Path) (b : Bytes) :
    Cycle.onStore (Store.write p b) (w.withStore (w.store.prepare p)) =
      .ok () (w.withStore (w.store.place p b)) := by
  unfold Cycle.onStore
  simp only [Workspace.withStore, Store.write, Memory.write?_prepare]

/-- with the backup of a snapshot -/
def backedUp (w : Workspace Memory) (backup : Path) (snapshot : Bytes) : Workspace Memory :=
  w.withStore (w.store.place backup snapshot)

/-- what a cycle leaves that has folded its snapshot in: the target may be written, and the backup
is gone -/
def folded (w : Workspace Memory) (c : Cycle) (backup : Path) (snapshot : Bytes)
    (written : Option Bytes) : Workspace Memory :=
  w.withStore (((w.store.place backup snapshot).settle c.target written).remove backup)

theorem read?_backedUp (p : Path) :
    (backedUp w backup snapshot).store.read? p =
      if backup.key = p.key then some snapshot else w.store.read? p :=
  w.store.read?_place backup p snapshot

theorem read?_folded (p : Path) (written : Option Bytes) :
    (folded w c backup snapshot written).store.read? p =
      if backup.key = p.key then none
      else if c.target.key = p.key then written.or (w.store.read? p) else w.store.read? p := by
  unfold folded
  simp only [Workspace.withStore, Memory.read?_remove, Memory.read?_settle, Memory.read?_place]
  split <;> simp

/-- a cycle has written its backup before it does anything else -/
theorem store_eq (hl : c.layout = .single backup) (start : Instant) (w : Workspace Memory) :
    c.store start snapshot w =
      ((reconciling (c.reconciler.reconcile ⟨backup, c.user, c.target⟩) >>= fun o =>
          Cycle.onStore (Store.remove backup) >>= fun _ => pure ⟨backup, o, []⟩ :
        CycleM Memory CycleReport) (backedUp w backup snapshot)) := by
  unfold store BackupLayout.backupPath
  rw [hl]
  dsimp only
  rw [bind_of_ok _ (makeParent_eq w backup), bind_of_ok _ (onStore_write w backup snapshot)]
  rfl

variable {o : Outcome} {written : Option Bytes}

theorem store_of_ok (hl : c.layout = .single backup) (ha : c.Apart backup) (start : Instant)
    (hf : foldIn snapshot (w.store.read? c.user) = .ok (o, written)) :
    c.store start snapshot w = .ok ⟨backup, o, []⟩ (folded w c backup snapshot written) := by
  have hsystem : (backedUp w backup snapshot).store.read? backup = some snapshot := by
    rw [read?_backedUp, if_pos rfl]
  have huser : (backedUp w backup snapshot).store.read? c.user = w.store.read? c.user := by
    rw [read?_backedUp, if_neg ha.user]
  have hrow : Row [] ((backedUp w backup snapshot).store.read? backup)
      ((backedUp w backup snapshot).store.read? c.user) o written := by
    rw [hsystem, huser]
    exact row_of_foldIn [] hf
  have hreconcile : c.reconciler.reconcile ⟨backup, c.user, c.target⟩ (backedUp w backup snapshot) =
      .ok o ((backedUp w backup snapshot).settle c.target o written) := by
    rw [← Reconciler.reconcile_congr c.reconciler (some []) hsystem]
    exact Reconciler.reconcile_of_row rfl hrow
  have hsettle : (backedUp w backup snapshot).settle c.target o written =
      w.withStore ((w.store.place backup snapshot).settle c.target written) := by
    have hne : o ≠ .producedDefault := by
      rcases outcome_of_foldIn hf with rfl | rfl | rfl <;> decide
    rw [Workspace.settle, if_neg hne]
    rfl
  have hfold : reconciling (c.reconciler.reconcile ⟨backup, c.user, c.target⟩)
      (backedUp w backup snapshot) =
      .ok o (w.withStore ((w.store.place backup snapshot).settle c.target written)) := by
    rw [reconciling, hreconcile, hsettle]
  rw [store_eq hl, bind_of_ok _ hfold]
  rfl

theorem store_of_error (hl : c.layout = .single backup) (ha : c.Apart backup) (start : Instant)
    {source : Source} {e : DocumentError}
    (hf : foldIn snapshot (w.store.read? c.user) = .error (source, e)) :
    c.store start snapshot w = .error (.reconcile (.document (c.pathOf backup source) e))
      (backedUp w backup snapshot) := by
  obtain ⟨u, hu, hun⟩ := unreadable_of_foldIn c backup hf
  have hsystem : (backedUp w backup snapshot).store.read? backup = some snapshot := by
    rw [read?_backedUp, if_pos rfl]
  have huser : (backedUp w backup snapshot).store.read? c.user = some u := by
    rw [read?_backedUp, if_neg ha.user, hu]
  have hreconcile : c.reconciler.reconcile ⟨backup, c.user, c.target⟩ (backedUp w backup snapshot) =
      .error (.document (c.pathOf backup source) e) (backedUp w backup snapshot) :=
    Reconciler.reconcile_of_unreadable hsystem huser hun
  have hfold : reconciling (c.reconciler.reconcile ⟨backup, c.user, c.target⟩)
      (backedUp w backup snapshot) =
      .error (.reconcile (.document (c.pathOf backup source) e)) (backedUp w backup snapshot) := by
    rw [reconciling, hreconcile]
  rw [store_eq hl, bind_of_error _ hfold]

end Cycle

/-! ## one cycle after another -/

/-- what happens to the files of a cycle -/
inductive Happening where
  /-- a cycle starts, with the export or the reason why there is none -/
  | cycle (start : Instant) (snapshot : Except String Bytes)
  /-- somebody rewrites the user document, or removes it -/
  | edit (document : Option Bytes)

namespace Cycle

/-- the workspace that a cycle leaves, whether or not it ends well -/
def leave : EStateM.Result BackupError (Workspace Memory) CycleReport → Workspace Memory
  | .ok _ w => w
  | .error _ w => w

/-- what a cycle reports, if it ends well -/
def report? : EStateM.Result BackupError (Workspace Memory) CycleReport → Option CycleReport
  | .ok report _ => some report
  | .error _ _ => none

/-- the workspace that a happening leaves -/
def after (c : Cycle) (w : Workspace Memory) : Happening → Workspace Memory
  | .cycle start snapshot => leave (c.run start snapshot w)
  | .edit (some b) => w.withStore (w.store.insert c.user b)
  | .edit none => w.withStore (w.store.remove c.user)

end Cycle

/-- the user document and the target -/
structure Documents where
  user : Option Bytes
  target : Option Bytes
  deriving DecidableEq, Repr

namespace Documents

/-- what a happening makes of the two -/
def after (d : Documents) : Happening → Documents
  | .cycle _ (.error _) => d
  | .cycle _ (.ok snapshot) =>
    match foldIn snapshot d.user with
    | .ok (_, written) => { d with target := written.or d.target }
    | .error _ => d
  | .edit document => { d with user := document }

end Documents

namespace Cycle

/-- the user document and the target that are there -/
def documents (c : Cycle) (w : Workspace Memory) : Documents where
  user := w.store.read? c.user
  target := w.store.read? c.target

/-- how a cycle ends that starts from a workspace -/
inductive Ends (c : Cycle) (backup : Path) (v : Workspace Memory) :
    Except String Bytes → EStateM.Result BackupError (Workspace Memory) CycleReport → Prop where
  /-- without an export, nothing is changed -/
  | unexported (reason : String) :
      Ends c backup v (.error reason) (.error (.exportFailed reason) v)
  /-- the snapshot is folded in, and its backup is gone -/
  | folded (snapshot : Bytes) (o : Outcome) (written : Option Bytes) (v' : Workspace Memory)
      (fold : foldIn snapshot (v.store.read? c.user) = .ok (o, written))
      (outcome : o = .copiedSystem ∨ o = .merged ∨ o = .mergedEmpty)
      (gone : v'.store.read? backup = none)
      (target : v'.store.read? c.target = written.or (v.store.read? c.target))
      (elsewhere : ∀ p, p.key ≠ backup.key → p.key ≠ c.target.key →
        v'.store.read? p = v.store.read? p) :
      Ends c backup v (.ok snapshot) (.ok ⟨backup, o, []⟩ v')
  /-- a document cannot be read, and the snapshot stays where it was backed up -/
  | unreadable (snapshot : Bytes) (source : Source) (e : DocumentError) (v' : Workspace Memory)
      (fold : foldIn snapshot (v.store.read? c.user) = .error (source, e))
      (left : v'.store.read? backup = some snapshot)
      (elsewhere : ∀ p, p.key ≠ backup.key → v'.store.read? p = v.store.read? p) :
      Ends c backup v (.ok snapshot) (.error (.reconcile (.document (c.pathOf backup source) e)) v')

variable {c : Cycle} {backup : Path}

theorem ends_run (hl : c.layout = .single backup) (ha : c.Apart backup) (start : Instant)
    (snapshot : Except String Bytes) (v : Workspace Memory) :
    c.Ends backup v snapshot (c.run start snapshot v) := by
  cases snapshot with
  | error reason => exact .unexported reason
  | ok snapshot =>
    show c.Ends backup v (.ok snapshot) (c.store start snapshot v)
    cases hf : foldIn snapshot (v.store.read? c.user) with
    | ok p =>
      obtain ⟨o, written⟩ := p
      rw [store_of_ok hl ha start hf]
      refine .folded snapshot o written _ hf (outcome_of_foldIn hf) ?_ ?_ ?_
      · rw [read?_folded, if_pos rfl]
      · rw [read?_folded, if_neg ha.target, if_pos rfl]
      · intro p hb ht
        rw [read?_folded, if_neg hb.symm, if_neg ht.symm]
    | error p =>
      obtain ⟨source, e⟩ := p
      rw [store_of_error hl ha start hf]
      refine .unreadable snapshot source e _ hf ?_ ?_
      · rw [read?_backedUp, if_pos rfl]
      · intro p hb
        rw [read?_backedUp, if_neg hb.symm]

theorem Ends.documents_leave {w : Workspace Memory} {snapshot : Except String Bytes}
    {result : EStateM.Result BackupError (Workspace Memory) CycleReport} (ha : c.Apart backup)
    (start : Instant) (h : c.Ends backup w snapshot result) :
    c.documents (leave result) = (c.documents w).after (.cycle start snapshot) := by
  cases h with
  | unexported reason => rfl
  | folded snapshot o written v' fold outcome gone target elsewhere =>
    simp only [documents, Documents.after, fold, leave, target,
      elsewhere c.user ha.user.symm ha.documents]
  | unreadable snapshot source e v' fold left elsewhere =>
    simp only [documents, Documents.after, fold, leave, elsewhere c.user ha.user.symm,
      elsewhere c.target ha.target.symm]

/-- the documents after a happening are made of the documents before it alone -/
theorem documents_after (hl : c.layout = .single backup) (ha : c.Apart backup)
    (w : Workspace Memory) (x : Happening) :
    c.documents (c.after w x) = (c.documents w).after x := by
  cases x with
  | cycle start snapshot => exact (ends_run hl ha start snapshot w).documents_leave ha start
  | edit document =>
    cases document with
    | none =>
      simp [after, documents, Documents.after, Workspace.withStore, Memory.read?_remove,
        ha.documents]
    | some b =>
      simp [after, documents, Documents.after, Workspace.withStore, Memory.read?_insert,
        ha.documents]

theorem documents_foldl (hl : c.layout = .single backup) (ha : c.Apart backup)
    (w : Workspace Memory) (xs : List Happening) :
    c.documents (xs.foldl c.after w) = xs.foldl Documents.after (c.documents w) := by
  induction xs generalizing w with
  | nil => rfl
  | cons x xs ih => rw [List.foldl_cons, List.foldl_cons, ih, documents_after hl ha]

/-- **a run of cycles is free of its history**: after whatever has happened, the target and the user
document are what `Documents.after` makes of the first ones, so a backup that was left behind has no
part in them, and the next cycle ends by its snapshot and the documents that it finds -/
theorem history_free (c : Cycle) (backup : Path) (hl : c.layout = .single backup)
    (ha : c.Apart backup) (w : Workspace Memory) (xs : List Happening) :
    c.documents (xs.foldl c.after w) = xs.foldl Documents.after (c.documents w) ∧
    (∀ w', c.documents w' = c.documents w →
      c.documents (xs.foldl c.after w') = c.documents (xs.foldl c.after w)) ∧
    ∀ start snapshot,
      c.Ends backup (xs.foldl c.after w) snapshot (c.run start snapshot (xs.foldl c.after w)) := by
  refine ⟨documents_foldl hl ha w xs, ?_, fun start snapshot => ends_run hl ha start snapshot _⟩
  intro w' hw
  rw [documents_foldl hl ha, documents_foldl hl ha, hw]

/-- a snapshot that stayed behind, an export that failed and two user documents later, the target is
the merge of the newest snapshot and user document -/
theorem history_free_stale :
    let c : Cycle := ⟨{}, .single ⟨"b"⟩, ⟨"u"⟩, ⟨"t"⟩⟩
    let xs : List Happening := [.edit (some [0xff]), .cycle default (.ok (Utf8.encode "a: 1\n")),
      .cycle default (.error "no answer"), .edit (some (Utf8.encode "k: 2\n"))]
    c.Apart ⟨"b"⟩ ∧
    c.documents (xs.foldl c.after ⟨{}, []⟩) = ⟨some (Utf8.encode "k: 2\n"), none⟩ ∧
    ∃ w, c.run default (.ok (Utf8.encode "s: 3\n")) (xs.foldl c.after ⟨{}, []⟩) =
        .ok ⟨⟨"b"⟩, .merged, []⟩ w ∧
      w.store.read? ⟨"b"⟩ = none ∧ w.store.read? ⟨"t"⟩ = some (Utf8.encode "k: 2\ns: 3\n") := by
  intro c xs
  have ha : c.Apart ⟨"b"⟩ := ⟨by decide, by decide, by decide⟩
  obtain ⟨hdocs, -, hends⟩ := history_free c ⟨"b"⟩ rfl ha ⟨{}, []⟩ xs
  have hfold : xs.foldl Documents.after (c.documents ⟨{}, []⟩) =
      ⟨some (Utf8.encode "k: 2\n"), none⟩ := by decide +kernel
  have hmerged : (foldIn (Utf8.encode "s: 3\n") (some (Utf8.encode "k: 2\n"))).toOption =
      some (.merged, some (Utf8.encode "k: 2\ns: 3\n")) := by decide +kernel
  have hread := hdocs.trans hfold
  refine ⟨ha, hread, ?_⟩
  have huser : (xs.foldl c.after ⟨{}, []⟩).store.read? c.user = some (Utf8.encode "k: 2\n") :=
    congrArg Documents.user hread
  have h := hends default (.ok (Utf8.encode "s: 3\n"))
  generalize c.run default (.ok (Utf8.encode "s: 3\n")) (xs.foldl c.after ⟨{}, []⟩) = result at h ⊢
  cases h with
  | folded snapshot o written v' fold outcome gone target elsewhere =>
    rw [huser] at fold
    rw [fold] at hmerged
    cases hmerged
    exact ⟨v', rfl, gone, target⟩
  | unreadable snapshot source e v' fold left elsewhere =>
    rw [huser] at fold
    rw [fold] at hmerged
    cases hmerged

end Cycle

end ConfigReconcile
