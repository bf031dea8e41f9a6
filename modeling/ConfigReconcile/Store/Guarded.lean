import ConfigReconcile.Store.Memory

/-!
# A store that refuses

`Guarded` is a memory with paths that nothing can be written to and directories that cannot be
made.  All else is as in the memory.
-/

namespace ConfigReconcile

structure Guarded where
  memory : Memory := {}
  unwritable : List Path := []
  unmakeable : List Path := []
  deriving DecidableEq, Inhabited

namespace Guarded

/-- whether one of the paths has the place of another -/
def holds (ps : List Path) (p : Path) : Bool := ps.any fun q => q.key = p.key

def refusal (operation : String) (p : Path) : StoreError :=
  .ofOperation operation p false "injected failure"

/-- what the memory does -/
def onMemory {α : Type} (act : StoreM Memory α) : StoreM Guarded α := fun g =>
  match act g.memory with
  | .ok a m => .ok a { g with memory := m }
  | .error e m => .error e { g with memory := m }

instance : Store Guarded where
  isFile p := onMemory (Store.isFile p)
  read p := onMemory (Store.read p)
  write p b := fun g =>
    if holds g.unwritable p then .error (refusal "write" p) g
    else onMemory (Store.write p b) g
  remove p := onMemory (Store.remove p)
  makeDirectory p := fun g =>
    if holds g.unmakeable p then .error (refusal "create_dir_all" p) g
    else onMemory (Store.makeDirectory p) g
  list d := onMemory (Store.list d)

end Guarded

end ConfigReconcile
