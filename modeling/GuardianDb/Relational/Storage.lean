/-
The storage boundary of the relational engine (`relational/storage.rs`).

`RelationalStorage` is a set of collections of documents keyed by row id, the
catalog document, and a change counter for every collection. `MemoryStorage` is
its exact implementation. Documents and catalogs are opaque here (`δ`, `κ`).

  * `rows_put`, `rows_delete`, `rows_truncate` — what a write does to every
    collection.
  * `generation_put`, `generation_delete`, `generation_truncate` — a write
    advances the counter of its collection, and no other.
-/
import GuardianDb.Lib.OrderedMap

namespace GuardianDb.Relational

open Std ExtTreeMap

structure MemoryStorage (δ κ : Type) where
  collections : ExtTreeMap String (ExtTreeMap String δ)
  catalog : Option κ
  generations : ExtTreeMap String Nat

variable (c' : String)

namespace MemoryStorage

variable {δ κ : Type}

/-- The documents of a collection; one that was never written has none. -/
def rows (s : MemoryStorage δ κ) (collection : String) : ExtTreeMap String δ :=
  s.collections[collection]?.getD ∅

/-- `scan`: the documents in the order of their row ids. -/
def scan (s : MemoryStorage δ κ) (collection : String) : List (String × δ) :=
  (s.rows collection).toList

def get (s : MemoryStorage δ κ) (collection rowId : String) : Option δ :=
  (s.rows collection)[rowId]?

def generation (s : MemoryStorage δ κ) (collection : String) : Nat :=
  s.generations[collection]?.getD 0

def bump (s : MemoryStorage δ κ) (collection : String) : MemoryStorage δ κ :=
  { s with generations := s.generations.insert collection (s.generation collection + 1) }

def put (s : MemoryStorage δ κ) (collection rowId : String) (doc : δ) : MemoryStorage δ κ :=
  bump { s with
    collections := s.collections.insert collection ((s.rows collection).insert rowId doc) }
    collection

def delete (s : MemoryStorage δ κ) (collection rowId : String) : MemoryStorage δ κ :=
  bump { s with
    collections := match s.collections[collection]? with
      | some c => s.collections.insert collection (c.erase rowId)
      | none => s.collections } collection

def truncate (s : MemoryStorage δ κ) (collection : String) : MemoryStorage δ κ :=
  bump { s with
    collections := match s.collections[collection]? with
      | some _ => s.collections.insert collection ∅
      | none => s.collections } collection

def saveCatalog (s : MemoryStorage δ κ) (catalog : κ) : MemoryStorage δ κ :=
  { s with catalog := some catalog }

/-- The rows of all collections. -/
def contents (s : MemoryStorage δ κ) : String × String → Option δ := fun i => s.get i.1 i.2

/-! ### What a write does -/

section
variable (s : MemoryStorage δ κ) (c r : String) (doc : δ) (k : κ)

@[simp] theorem rows_bump : (s.bump c).rows = s.rows := rfl

theorem rows_insert (m : ExtTreeMap String δ) (c' : String) :
    rows { s with collections := s.collections.insert c m } c' =
      if c' = c then m else s.rows c' := by
  unfold rows
  rw [OrderedMap.get_insert]
  split <;> rfl

theorem rows_put :
    (s.put c r doc).rows c' = if c' = c then (s.rows c).insert r doc else s.rows c' := by
  rw [put, rows_bump, rows_insert]

theorem rows_delete :
    (s.delete c r).rows c' = if c' = c then (s.rows c).erase r else s.rows c' := by
  rw [delete, rows_bump]
  cases h : s.collections[c]? with
  | some m =>
    rw [rows_insert]
    simp [rows, h]
  | none => simp_all [rows]

theorem rows_truncate :
    (s.truncate c).rows c' = if c' = c then ∅ else s.rows c' := by
  rw [truncate, rows_bump]
  cases h : s.collections[c]? with
  | some m => rw [rows_insert]
  | none => simp_all [rows]

theorem generation_bump :
    (s.bump c).generation c' = if c' = c then s.generation c + 1 else s.generation c' := by
  unfold generation bump
  rw [OrderedMap.get_insert]
  split <;> rfl

theorem generation_put : (s.put c r doc).generation c' =
    if c' = c then s.generation c + 1 else s.generation c' := generation_bump _ _ _

theorem generation_delete : (s.delete c r).generation c' =
    if c' = c then s.generation c + 1 else s.generation c' := generation_bump _ _ _

theorem generation_truncate : (s.truncate c).generation c' =
    if c' = c then s.generation c + 1 else s.generation c' := generation_bump _ _ _

end

/-- Two storages have the same documents in a collection if they agree on every
row of it. -/
theorem scan_eq_of_get {s t : MemoryStorage δ κ} {c : String}
    (h : ∀ r, s.get c r = t.get c r) : s.scan c = t.scan c := by
  exact congrArg _ (ext_getElem? h)

end MemoryStorage

end GuardianDb.Relational
