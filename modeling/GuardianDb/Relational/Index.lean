/-
In-memory secondary indexes (`relational/index.rs`).

  * `mem_get_insert`, `mem_get_remove` — what an update does to every bucket.
-/
import GuardianDb.Relational.Key
import GuardianDb.Lib.OrderedMap
import Std.Data.ExtTreeSet

namespace GuardianDb.Relational

open Std ExtTreeMap

section
variable {C : Crates}

/-- The separator of key components (`SEP`). -/
def keySep : Char := Char.ofNat 0x1f

/-- The key component of a NULL in an ordered key. -/
def nullComponent : Char := Char.ofNat 0x10fffe

/-- `composite_key`: none when a component is NULL. -/
def compositeKey (values : List (SqlValue C)) : Option String :=
  if values.any SqlValue.isNull then none
  else some (String.ofList ([keySep].intercalate (values.map SqlValue.indexKey)))

def orderedComponent (v : SqlValue C) : List Char :=
  if v.isNull then [nullComponent] else v.indexKey

def orderedKey (values : List (SqlValue C)) : String :=
  String.ofList ([keySep].intercalate (values.map orderedComponent))

end

/-- `SecondaryIndex`: key to row ids. -/
structure SecondaryIndex where
  map : ExtTreeMap String (ExtTreeSet String)
  unique : Bool

variable {s : SecondaryIndex}

namespace SecondaryIndex

def new (unique : Bool) : SecondaryIndex := ⟨∅, unique⟩

def get (s : SecondaryIndex) (key : String) : ExtTreeSet String := s.map[key]?.getD ∅

def insert (s : SecondaryIndex) (key rowId : String) : SecondaryIndex :=
  { s with map := s.map.insert key ((s.get key).insert rowId) }

/-- `SecondaryIndex::remove`; a bucket that gets empty is dropped. -/
def remove (s : SecondaryIndex) (key rowId : String) : SecondaryIndex :=
  match s.map[key]? with
  | none => s
  | some set =>
      let set := set.erase rowId
      { s with map := if set.isEmpty then s.map.erase key else s.map.insert key set }

theorem mem_get_new {unique : Bool} {key rowId : String} : rowId ∉ (new unique).get key := by
  simp [new, get]

theorem get_insert (s : SecondaryIndex) (key rowId k : String) :
    (s.insert key rowId).get k = if k = key then (s.get key).insert rowId else s.get k := by
  unfold insert get
  rw [OrderedMap.get_insert]
  split <;> rfl

theorem get_remove (s : SecondaryIndex) (key rowId k : String) :
    (s.remove key rowId).get k = if k = key then (s.get key).erase rowId else s.get k := by
  unfold remove
  cases hset : s.map[key]? with
  | none =>
    have hempty : s.get key = ∅ := by simp [get, hset]
    dsimp only
    split
    · rename_i hk
      rw [hk, hempty]
      rfl
    · rfl
  | some set =>
    have hbucket : s.get key = set := by simp [get, hset]
    rw [hbucket]
    by_cases hk : k = key
    · subst hk
      dsimp only
      split
      · rename_i hempty
        simp [get, ExtTreeSet.isEmpty_iff.mp hempty]
      · simp [get]
    · have hk' : key ≠ k := Ne.symm hk
      dsimp only
      split <;> simp [get, getElem?_erase, getElem?_insert, hk']

theorem mem_get_insert {key rowId k r : String} :
    r ∈ (s.insert key rowId).get k ↔ (k = key ∧ r = rowId) ∨ r ∈ s.get k := by
  rw [get_insert]
  split
  · grind
  · rename_i hk
    simp [hk]

theorem mem_get_remove {key rowId k r : String} :
    r ∈ (s.remove key rowId).get k ↔ r ∈ s.get k ∧ ¬ (k = key ∧ r = rowId) := by
  rw [get_remove]
  split
  · grind
  · rename_i hk
    simp [hk]

/-- No bucket is empty, so that the buckets determine the map. -/
def Tight (s : SecondaryIndex) : Prop := ∀ key : String, s.map[key]? ≠ some ∅

theorem tight_new (unique : Bool) : (new unique).Tight := by simp [Tight, new]

theorem Tight.insert (h : s.Tight) (key rowId : String) :
    (s.insert key rowId).Tight := by
  intro k hk
  rw [SecondaryIndex.insert, getElem?_insert] at hk
  split at hk
  · have hmem : rowId ∈ (s.get key).insert rowId := ExtTreeSet.mem_insert_self
    rw [Option.some.inj hk] at hmem
    exact ExtTreeSet.not_mem_empty hmem
  · exact h k hk

theorem Tight.remove (h : s.Tight) (key rowId : String) :
    (s.remove key rowId).Tight := by
  intro k hk
  unfold SecondaryIndex.remove at hk
  split at hk
  · exact h k hk
  · dsimp only at hk
    split at hk
    · rw [getElem?_erase] at hk
      split at hk
      · cases hk
      · exact h k hk
    · rename_i hne
      rw [getElem?_insert] at hk
      split at hk
      · exact hne (ExtTreeSet.isEmpty_iff.mpr (Option.some.inj hk))
      · exact h k hk

/-- Tight indexes with the same entries are equal. -/
theorem eq_of_tight {s t : SecondaryIndex} (hs : s.Tight) (ht : t.Tight)
    (hunique : s.unique = t.unique) (hget : ∀ k r, r ∈ s.get k ↔ r ∈ t.get k) : s = t := by
  have hmap : s.map = t.map := by
    refine ext_getElem? fun k => ?_
    have hk : s.get k = t.get k := ExtTreeSet.ext_mem (hget k)
    have hs := hs k
    have ht := ht k
    unfold get at hk
    cases hsk : s.map[k]? <;> cases htk : t.map[k]? <;> simp_all
  cases s
  cases t
  simp_all

end SecondaryIndex

end GuardianDb.Relational
