/-
Snapshots of a store's log (`save_snapshot`, `process_snapshot_data`).

The writer frames a header and the entries with two-byte lengths; the reader expects frames
with four-byte lengths and no header. So the reader takes the length of the header and its
first two bytes for the length of the first frame, which as a rule is longer than the whole
snapshot, and stops there. What it does read is appended anew, with the payload as text.

The serialization is a parameter that reads the entries it writes. The blob store returns
what was added; the queue that is saved next to a snapshot is empty.

  * `processSnapshotData_overrun` — a first frame that overruns the data loads nothing.
  * `snapshot_round_trip_iff` — only an empty log comes back.
-/
import Mathlib.Logic.Equiv.List
import GuardianDb.Log.Growth

namespace GuardianDb.Stores

open Std ExtTreeMap List

/-! ### UTF-8 -/

/-- A byte, if there is one, that continues a character. -/
def isContinuation : Option UInt8 → Bool
  | some b => 0x80 ≤ b && b ≤ 0xBF
  | none => false

/-- The second byte of a character of three or four bytes, given its first. -/
def isSecond (first : UInt8) : Option UInt8 → Bool
  | none => false
  | some b =>
      if first = 0xE0 then 0xA0 ≤ b && b ≤ 0xBF
      else if first = 0xED then 0x80 ≤ b && b ≤ 0x9F
      else if first = 0xF0 then 0x90 ≤ b && b ≤ 0xBF
      else if first = 0xF4 then 0x80 ≤ b && b ≤ 0x8F
      else 0x80 ≤ b && b ≤ 0xBF

/-- How many bytes the next character, or what there is of it, takes; and whether it is one. -/
def nextChar (first : UInt8) (rest : List UInt8) : Nat × Bool :=
  if first < 0x80 then (1, true)
  else if 0xC2 ≤ first && first ≤ 0xDF then
    if isContinuation rest[0]? then (2, true) else (1, false)
  else if 0xE0 ≤ first && first ≤ 0xEF then
    if !isSecond first rest[0]? then (1, false)
    else if isContinuation rest[1]? then (3, true) else (2, false)
  else if 0xF0 ≤ first && first ≤ 0xF4 then
    if !isSecond first rest[0]? then (1, false)
    else if !isContinuation rest[1]? then (2, false)
    else if isContinuation rest[2]? then (4, true) else (3, false)
  else (1, false)

/-- The loop of `from_utf8_lossy`; each round takes a byte at least. -/
def fromUtf8LossyFrom : Nat → List UInt8 → List UInt8
  | 0, _ | _ + 1, [] => []
  | fuel + 1, first :: rest =>
      let (n, valid) := nextChar first rest
      let next := (first :: rest).take n
      (if valid then next else [0xEF, 0xBF, 0xBD]) ++
        fromUtf8LossyFrom fuel ((first :: rest).drop n)

/-- `String::from_utf8_lossy`, as bytes: U+FFFD in place of what is not a character. -/
def fromUtf8Lossy (bytes : List UInt8) : List UInt8 := fromUtf8LossyFrom bytes.length bytes

/-! ### Writing and reading -/

structure StoreSnapshot where
  id : String
  heads : List Entry
  size : Nat
  storeType : String

/-- `serializer`, on headers and entries. -/
structure SnapshotCodec where
  serializeHeader : StoreSnapshot → List UInt8
  serializeEntry : Entry → List UInt8
  deserializeEntry : List UInt8 → Option Entry
  deserialize_serialize : ∀ e, deserializeEntry (serializeEntry e) = some e

/-- `write_u16` of a length cast to `u16`. -/
def writeU16 (n : Nat) : List UInt8 := [UInt8.ofNat (n / 256), UInt8.ofNat n]

/-- `u32::from_be_bytes`. -/
def u32FromBeBytes (b₀ b₁ b₂ b₃ : UInt8) : Nat :=
  ((b₀.toNat * 256 + b₁.toNat) * 256 + b₂.toNat) * 256 + b₃.toNat

section
variable (codec : SnapshotCodec) (storeType : String) (hashEntry : Entry → Hash)

def snapshotHeader (log : Log) : List UInt8 :=
  codec.serializeHeader ⟨log.id, log.heads, log.length, storeType⟩

def snapshotEntry (e : Entry) : List UInt8 :=
  writeU16 (codec.serializeEntry e).length ++ codec.serializeEntry e

/-- `save_snapshot`: the bytes that are added to the blob store. -/
def saveSnapshot (log : Log) : List UInt8 :=
  let header := snapshotHeader codec storeType log
  writeU16 header.length ++ header ++ log.values.flatMap (snapshotEntry codec) ++ [0]

/-- `process_snapshot_data`, from some position on; each round reads four bytes at least. The
log and the number of entries loaded are carried along. -/
def processSnapshotData : Nat → List UInt8 → Log × Nat → Log × Nat
  | fuel + 1, b₀ :: b₁ :: b₂ :: b₃ :: rest, (log, entriesLoaded) =>
      let entrySize := u32FromBeBytes b₀ b₁ b₂ b₃
      if rest.length < entrySize then (log, entriesLoaded)
      else
        match codec.deserializeEntry (rest.take entrySize) with
        | some entry =>
            let log' := if entry.hash ∈ log.entries then log
              else log.append hashEntry (fromUtf8Lossy entry.payload) none
            processSnapshotData fuel (rest.drop entrySize) (log', entriesLoaded + 1)
        | none => processSnapshotData fuel (rest.drop entrySize) (log, entriesLoaded)
  | _, _, acc => acc

def loadFromSnapshot (data : List UInt8) (log : Log) : Log :=
  (processSnapshotData codec hashEntry data.length data (log, 0)).1

end

/-! ### What comes back -/

/-- The logs have the same entry hashes, heads and values. -/
structure SameLog (log' log : Log) : Prop where
  hashes : ∀ h, h ∈ log'.entries ↔ h ∈ log.entries
  heads : log'.heads = log.heads
  values : log'.values = log.values

section
variable {codec : SnapshotCodec} {storeType : String} {hashEntry : Entry → Hash}

/-- The data is too short for the frame that its first four bytes announce. -/
def Overruns : List UInt8 → Prop
  | b₀ :: b₁ :: b₂ :: b₃ :: rest => rest.length < u32FromBeBytes b₀ b₁ b₂ b₃
  | _ => True

theorem processSnapshotData_overrun {data : List UInt8} (h : Overruns data) (fuel : Nat)
    (acc : Log × Nat) : processSnapshotData codec hashEntry fuel data acc = acc := by
  match fuel, data, h with
  | 0, _, _ => rfl
  | _ + 1, [], _ | _ + 1, [_], _ | _ + 1, [_, _], _ | _ + 1, [_, _, _], _ => rfl
  | _ + 1, b₀ :: b₁ :: b₂ :: b₃ :: rest, h => exact if_pos h

theorem writeU16_toNat (n : Nat) :
    (UInt8.ofNat (n / 256)).toNat * 256 + (UInt8.ofNat n).toNat = n % 65536 := by
  simp only [UInt8.toNat_ofNat']
  omega

/-- The writer's first length is the upper half of the reader's. -/
theorem overruns_of_length_le {n : Nat} {rest : List UInt8}
    (h : (writeU16 n ++ rest).length ≤ 65536 * (n % 65536) + 3) :
    Overruns (writeU16 n ++ rest) := by
  match rest, h with
  | [], _ | [_], _ => trivial
  | b₂ :: b₃ :: rest, h =>
    have hsize := writeU16_toNat n
    simp only [writeU16, cons_append, nil_append, length_cons] at h
    show rest.length < u32FromBeBytes _ _ b₂ b₃
    rw [u32FromBeBytes, hsize]
    omega

end

/-- A log without entries is as it was opened. -/
theorem eq_storeLog_of_empty {hashEntry : Entry → Hash} {log : Log}
    (h : Reachable hashEntry log) (hempty : log.entries = ∅) :
    ∃ pubKey id, log = storeLog pubKey id := by
  cases h with
  | opened pubKey id => exact ⟨pubKey, id, rfl⟩
  | append data nPtr h hfresh => exact absurd hempty ExtTreeMap.insert_ne_empty
  | @addEntry log e h htime => grind [Log.addEntry, ExtTreeMap.insert_ne_empty]

/-- All logs as they are opened are the same up to their owners. -/
theorem sameLog_storeLog (pubKey id pubKey' id' : String) :
    SameLog (storeLog pubKey' id') (storeLog pubKey id) := by
  have hr := Log.Represents.new_empty pubKey id (some defaultSortFn)
  have hr' := Log.Represents.new_empty pubKey' id' (some defaultSortFn)
  have hmono : Monotone ∅ := fun e he => absurd he (Finset.notMem_empty e)
  refine ⟨fun h => ?_, Log.heads_eq_of_represents hr hr' rfl rfl,
    Log.values_eq_of_represents hr hr' hmono rfl rfl⟩
  exact (congrArg (h ∈ ·) (Log.entries_eq_of_represents hr hr')).to_iff

/-- **A snapshot brings back empty logs only.** A log without entries comes back from a
snapshot whose header is shorter than 64 KiB. And wherever a snapshot is not longer than
65536 times what it gives as the length of its header, nothing is loaded, so that the fresh
log is the log of the snapshot if and only if that has no entries. -/
theorem snapshot_round_trip_iff (codec : SnapshotCodec) (storeType : String)
    {hashEntry : Entry → Hash} {log : Log} (h : Reachable hashEntry log) (pubKey id : String) :
    (log.entries = ∅ → (snapshotHeader codec storeType log).length < 65536 →
      SameLog (loadFromSnapshot codec hashEntry (saveSnapshot codec storeType log)
        (storeLog pubKey id)) log) ∧
    ((saveSnapshot codec storeType log).length ≤
        65536 * ((snapshotHeader codec storeType log).length % 65536) + 3 →
      (SameLog (loadFromSnapshot codec hashEntry (saveSnapshot codec storeType log)
        (storeLog pubKey id)) log ↔ log.entries = ∅)) := by
  have hrest : saveSnapshot codec storeType log =
      writeU16 (snapshotHeader codec storeType log).length ++
        (snapshotHeader codec storeType log ++ log.values.flatMap (snapshotEntry codec) ++
          [0]) := by
    simp [saveSnapshot]
  have hload : (saveSnapshot codec storeType log).length ≤
        65536 * ((snapshotHeader codec storeType log).length % 65536) + 3 →
      loadFromSnapshot codec hashEntry (saveSnapshot codec storeType log) (storeLog pubKey id) =
        storeLog pubKey id := by
    intro hshort
    have hover : Overruns (saveSnapshot codec storeType log) := by
      exact overruns_of_length_le hshort
    rw [loadFromSnapshot, processSnapshotData_overrun hover]
  have hsame : log.entries = ∅ → SameLog (storeLog pubKey id) log := by
    grind [eq_storeLog_of_empty, sameLog_storeLog]
  refine ⟨fun hempty hheader => ?_, fun hshort => ?_⟩
  · rw [hload]
    · exact hsame hempty
    · -- without entries there is only the header, and its length is read as it was written
      have hvalues : log.values = [] := (hsame hempty).values.symm.trans rfl
      rw [hrest, hvalues, Nat.mod_eq_of_lt hheader]
      simp only [flatMap_nil, append_nil, length_append, writeU16, length_cons,
        length_nil]
      omega
  · rw [hload hshort]
    refine ⟨fun hloaded => ?_, hsame⟩
    refine ext_getElem? fun k => ?_
    have hnot : k ∉ log.entries := fun hk => by
      have hk' := (hloaded.hashes k).mpr hk
      exact absurd hk' not_mem_empty
    rw [getElem?_eq_none hnot, getElem?_empty]

/-! ### A log of one entry -/

/-- Entries by the numbers in them. -/
instance : Encodable Entry :=
  Encodable.ofLeftInverse
    (fun e : Entry => (e.hash.toNat, e.id.toList.map Char.toNat, e.payload.map UInt8.toNat,
      e.next.map BitVec.toNat, e.clock.id.toList.map Char.toNat, e.clock.time))
    (fun (h, id, payload, next, clockId, time) =>
      ⟨BitVec.ofNat 256 h, String.ofList (id.map Char.ofNat), payload.map UInt8.ofNat,
        next.map (BitVec.ofNat 256), ⟨String.ofList (clockId.map Char.ofNat), time⟩⟩)
    (by
      rintro ⟨h, id, payload, next, clockId, time⟩
      simp [List.map_map, Function.comp_def])

def oneEntryLog : Log := (storeLog "a" "log").append (fun _ => 5) [7] none

def onlyEntry : Entry := (storeLog "a" "log").appended (fun _ => 5) [7] none

/-- A serialization in which that entry takes one byte. -/
def shortCodec : SnapshotCodec where
  serializeHeader _ := [1, 1, 1, 1]
  serializeEntry e := if e = onlyEntry then [1] else 0 :: List.replicate (Encodable.encode e) 0
  deserializeEntry bytes := match bytes with
    | 0 :: rest => Encodable.decode rest.length
    | [1] => some onlyEntry
    | _ => none
  deserialize_serialize e := by
    by_cases h : e = onlyEntry
    · simp [h]
    · simp [h]

/-- A log that was just opened. -/
theorem snapshot_round_trip_opened :
    SameLog (loadFromSnapshot shortCodec (fun _ => 5)
      (saveSnapshot shortCodec "eventlog" (storeLog "a" "log")) (storeLog "a" "log"))
      (storeLog "a" "log") :=
  (snapshot_round_trip_iff shortCodec "eventlog" (.opened "a" "log") "a" "log").1 rfl (by decide)

/-- The entry of a log of one entry does not come back from its snapshot. -/
theorem snapshot_loses_entry :
    Reachable (fun _ => 5) oneEntryLog ∧ (5 : Hash) ∈ oneEntryLog.entries ∧
      (5 : Hash) ∉ (loadFromSnapshot shortCodec (fun _ => 5)
        (saveSnapshot shortCodec "eventlog" oneEntryLog) (storeLog "a" "log")).entries := by
  refine ⟨.append [7] none (.opened "a" "log") (by decide +kernel), by decide +kernel, ?_⟩
  decide +kernel

end GuardianDb.Stores
