import ConfigReconcile.Store.Error
import ConfigReconcile.Text.Utf8

/-!
# What a store does

`Store σ` says that documents can be kept in a state of type `σ`.  An operation that fails may
have changed the state before.
-/

namespace ConfigReconcile

open Text

/-- an operation on a store -/
abbrev StoreM (σ : Type) := EStateM StoreError σ

class Store (σ : Type) where
  /-- whether there is a file at a path -/
  isFile : Path → StoreM σ Bool
  /-- the bytes of a file -/
  read : Path → StoreM σ Bytes
  /-- new bytes for a file, which need not be there yet -/
  write : Path → Bytes → StoreM σ Unit
  /-- takes a file away, if it is there -/
  remove : Path → StoreM σ Unit
  /-- a directory and all that are above it -/
  makeDirectory : Path → StoreM σ Unit
  /-- the files right below a directory, in path order -/
  list : Path → StoreM σ (List Path)

end ConfigReconcile
