/-
The level-down datastore (`cache/level_down.rs`, `data_store.rs`).

A `DatastoreWrapper` takes byte strings as keys. Each is read as text, with U+FFFD for what
is not UTF-8, cut into segments at `/`, the segments are trimmed and the empty ones
dropped, and the rest is joined again: only then does it reach the table. The table is that
of redb, a map from byte strings to byte strings; its calls do not fail.

  * `get_after`, `has_after` — what a call finds is the last write to a key with the
    same stored form.
  * `map_of_keys_iff` — calls with certain keys see a map by key if and only if no two of
    these keys have the same stored form.
-/
import Mathlib.Data.Set.Function
import GuardianDb.Relational.Cast
import GuardianDb.Stores.Docs
import GuardianDb.Stores.Snapshot

namespace GuardianDb.Cache

open Stores

/-! ### Keys -/

/-- The code point of a well-formed sequence of bytes, by its length. -/
def decodeChar : Bytes → Char
  | [a] => Char.ofNat a.toNat
  | [a, b] => Char.ofNat ((a.toNat % 32) * 64 + b.toNat % 64)
  | [a, b, c] => Char.ofNat ((a.toNat % 16) * 4096 + (b.toNat % 64) * 64 + c.toNat % 64)
  | [a, b, c, d] => Char.ofNat ((a.toNat % 8) * 262144 + (b.toNat % 64) * 4096 +
      (c.toNat % 64) * 64 + d.toNat % 64)
  | _ => Char.ofNat 0xFFFD

/-- The loop of `from_utf8_lossy`, as characters; each round takes a byte at least. -/
def lossyChars : Nat → Bytes → List Char
  | 0, _ | _ + 1, [] => []
  | fuel + 1, first :: rest =>
      let (n, valid) := nextChar first rest
      (if valid then decodeChar ((first :: rest).take n) else Char.ofNat 0xFFFD) ::
        lossyChars fuel ((first :: rest).drop n)

/-- `String::from_utf8_lossy`. -/
def lossyString (bytes : Bytes) : String := String.ofList (lossyChars bytes.length bytes)

structure Key where
  segments : List String
  deriving DecidableEq, Repr

namespace Key

def new (path : String) : Key :=
  ⟨((((path.toList.splitOn '/').map String.ofList).filter fun p => !p.isEmpty).map
    Relational.trim).filter fun p => !p.isEmpty⟩

def asStr (key : Key) : String :=
  if key.segments.isEmpty then "/" else "/" ++ "/".intercalate key.segments

def asBytes (key : Key) : Bytes := utf8 key.asStr

end Key

def storedKey (key : Bytes) : Bytes := (Key.new (lossyString key)).asBytes

/-! ### The datastore -/

/-- `WrappedCache`: the table of a redb database. -/
structure WrappedCache where
  table : Bytes → Option Bytes

namespace WrappedCache

/-- A database whose table has been opened for the first time. -/
def empty : WrappedCache := ⟨fun _ => none⟩

def get (c : WrappedCache) (key : Key) : Except String Bytes :=
  match c.table key.asBytes with
  | some value => .ok value
  | none => .error ("key not found: " ++ key.asStr)

def has (c : WrappedCache) (key : Key) : Bool := (c.table key.asBytes).isSome

def put (c : WrappedCache) (key : Key) (value : Bytes) : WrappedCache :=
  ⟨fun k => if k = key.asBytes then some value else c.table k⟩

def delete (c : WrappedCache) (key : Key) : WrappedCache :=
  ⟨fun k => if k = key.asBytes then none else c.table k⟩

end WrappedCache

structure DatastoreWrapper where
  cache : WrappedCache

/-- A call that writes, or reads. -/
inductive Call where
  | put (key value : Bytes)
  | delete (key : Bytes)
  | get (key : Bytes)
  | has (key : Bytes)
  deriving DecidableEq, Repr

def Call.key : Call → Bytes
  | .put key _ | .delete key | .get key | .has key => key

namespace DatastoreWrapper

def empty : DatastoreWrapper := ⟨.empty⟩

def has (d : DatastoreWrapper) (key : Bytes) : Bool := d.cache.has (Key.new (lossyString key))

def put (d : DatastoreWrapper) (key value : Bytes) : DatastoreWrapper :=
  ⟨d.cache.put (Key.new (lossyString key)) value⟩

/-- `get`; a missing key is an error of the cache. -/
def get (d : DatastoreWrapper) (key : Bytes) : Option Bytes :=
  match d.cache.get (Key.new (lossyString key)) with
  | .ok value => some value
  | .error _ => none

def delete (d : DatastoreWrapper) (key : Bytes) : DatastoreWrapper :=
  ⟨d.cache.delete (Key.new (lossyString key))⟩

/-- What a call leaves behind. -/
def perform (d : DatastoreWrapper) : Call → DatastoreWrapper
  | .put key value => d.put key value
  | .delete key => d.delete key
  | .get _ | .has _ => d

/-- An empty database after some calls. -/
def after (calls : List Call) : DatastoreWrapper := calls.foldl perform empty

end DatastoreWrapper

/-! ### A map by key -/

/-- The value of the last put of a key that no delete of it followed, where `form` says
which keys count as the same. The calls are given from the last one to the first. -/
def lastValue (form : Bytes → Bytes) (key : Bytes) : List Call → Option Bytes
  | [] => none
  | .put k value :: calls => if form k = form key then some value else lastValue form key calls
  | .delete k :: calls => if form k = form key then none else lastValue form key calls
  | .get _ :: calls | .has _ :: calls => lastValue form key calls

namespace DatastoreWrapper

variable (d : DatastoreWrapper)

theorem get_eq (key : Bytes) :
    d.get key = d.cache.table (storedKey key) := by
  unfold get WrappedCache.get storedKey
  cases d.cache.table (Key.new (lossyString key)).asBytes <;> rfl

theorem has_eq (key : Bytes) : d.has key = (d.get key).isSome := by
  rw [get_eq]
  rfl

/-- One call changes at most the keys with its stored form. -/
theorem get_perform (call : Call) (key : Bytes) :
    (d.perform call).get key = match call with
      | .put k value => if storedKey k = storedKey key then some value else d.get key
      | .delete k => if storedKey k = storedKey key then none else d.get key
      | .get _ | .has _ => d.get key := by
  cases call with
  | put | delete =>
    rw [get_eq, get_eq]
    exact if_congr eq_comm rfl rfl
  | get | has => rfl

/-- **A call finds the last write to a key with the same stored form.** -/
theorem get_after (calls : List Call) (key : Bytes) :
    (after calls).get key = lastValue storedKey key calls.reverse := by
  induction calls using List.reverseRecOn with
  | nil => rfl
  | append_singleton calls call ih =>
    rw [List.reverse_append, List.reverse_singleton, List.singleton_append]
    have hstep : after (calls ++ [call]) = (after calls).perform call := by
      rw [after, List.foldl_append]
      rfl
    rw [hstep, get_perform, ih]
    cases call <;> rfl

end DatastoreWrapper

/-- Among keys with stored forms of their own, the form of a key stands for the key. -/
theorem lastValue_of_injOn {S : Set Bytes} (hinj : Set.InjOn storedKey S) {key : Bytes}
    (hkey : key ∈ S) : ∀ {calls : List Call}, (∀ call ∈ calls, call.key ∈ S) →
      lastValue storedKey key calls = lastValue id key calls
  | [], _ => rfl
  | call :: calls, hcalls => by
      have ih := lastValue_of_injOn hinj hkey fun c hc => hcalls c (List.mem_cons_of_mem call hc)
      have hform : storedKey call.key = storedKey key ↔ id call.key = id key :=
        hinj.eq_iff (hcalls call List.mem_cons_self) hkey
      cases call with
      | put | delete => exact if_congr hform rfl ih
      | get | has => exact ih

/-- **The datastore is a map by key on a set of keys** if and only if no two of them have
the same stored form: then, and only then, after all calls with such keys a key has the
value of its own last put that was not followed by its own delete. -/
theorem map_of_keys_iff (S : Set Bytes) :
    (∀ calls : List Call, (∀ call ∈ calls, call.key ∈ S) → ∀ key ∈ S,
      (DatastoreWrapper.after calls).get key = lastValue id key calls.reverse ∧
        (DatastoreWrapper.after calls).has key = (lastValue id key calls.reverse).isSome) ↔
      Set.InjOn storedKey S := by
  constructor
  · intro hmap k hk k' hk' hform
    by_contra hne
    -- a put of one key is found under the other
    have hget := (hmap [.put k [0]] (by simpa [Call.key] using hk) k' hk').1
    rw [DatastoreWrapper.get_after] at hget
    simp [lastValue, hform, hne] at hget
  · intro hinj calls hcalls key hkey
    have hget : (DatastoreWrapper.after calls).get key = lastValue id key calls.reverse := by
      grind [DatastoreWrapper.get_after, lastValue_of_injOn]
    exact ⟨hget, by rw [DatastoreWrapper.has_eq, hget]⟩

/-- The keys `a` and `/a` have one place: a put of the second replaces the value of the
first, and a delete of the second removes it. -/
theorem slash_key_overwrites :
    (DatastoreWrapper.after [.put [97] [1], .put [47, 97] [2]]).get [97] = some [2] ∧
      lastValue id [97] [.put [47, 97] [2], .put [97] [1]] = some [1] ∧
      (DatastoreWrapper.after [.put [97] [1], .delete [47, 97]]).has [97] = false ∧
      lastValue id [97] [.delete [47, 97], .put [97] [1]] = some [1] := by
  decide +kernel

end GuardianDb.Cache
