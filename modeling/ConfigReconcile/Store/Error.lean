import ConfigReconcile.Store.Path

/-!
# Errors of a store

An operation that fails says which one it was, on which path and why.  The one failure with a name
of its own is to read what is not there.
-/

namespace ConfigReconcile

inductive StoreError where
  | notFound (path : Path)
  | failed (operation : String) (path : Path) (reason : String)
  deriving DecidableEq, Repr

namespace StoreError

/-- the error of an operation; `absent` says that nothing is at the path -/
def ofOperation (operation : String) (path : Path) (absent : Bool) (reason : String) :
    StoreError :=
  if absent && operation = "read" then .notFound path else .failed operation path reason

def path : StoreError → Path
  | .notFound p => p
  | .failed _ p _ => p

/-- the wording of an error -/
def message : StoreError → String
  | .notFound p => "Document not found: " ++ p.text
  | .failed operation p reason =>
    "Storage " ++ operation ++ " failed for " ++ p.text ++ ": " ++ reason

end StoreError

end ConfigReconcile
