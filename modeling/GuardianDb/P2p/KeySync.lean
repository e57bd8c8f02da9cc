/-
The key synchronizer (`p2p/network/core/key_synchronizer.rs`): what a received message
does to the local keystore, the stored metadata and the cache of processed messages.

A time (`SystemTime`) is an integer, in nanoseconds since the epoch. The keystore is its
table of secrets: a read or write that fails in the database is left out. The signature
scheme, with the bytes it signs, and BLAKE3 are parameters. Statistics and the outgoing
queue are left out: no handler reads them.

The two maps are read through one `Cell` per key, and the handlers are proved to act on
the cell of their key alone, as `Cell.apply` says.

  * `processOperation_cell`, `processOperation_other` — a handler against `Cell.apply`.
  * `handleSyncMessage_admitted`, `receive_not_admitted` — a message runs its handler, or
    changes nothing.
  * `received_cell` — after a sequence of accepted messages, each key has gone through its
    own messages.
-/
import Mathlib.Data.List.Basic
import GuardianDb.Lib.OrderedMap
import GuardianDb.Lib.Fallible

namespace GuardianDb.P2p

open Std Fallible ExtTreeMap

/-! ### Messages -/

/-- `EndpointId`, and an Ed25519 verifying key: 32 bytes. -/
abbrev NodeId := BitVec 256

abbrev Uuid := BitVec 128

abbrev Bytes := List UInt8

/-- `MAX_MESSAGE_AGE`: five minutes. -/
def maxMessageAge : Int := 300 * 1000000000

inductive KeySyncStatus where
  | synchronized
  | synchronizing
  | pending
  | failed (reason : String)
  | conflict (reason : String)
  deriving DecidableEq, Repr

inductive SyncOperation where
  | create
  | update
  | delete
  | metadataSync
  deriving DecidableEq, Repr

/-- `KeyMetadata`. The version is a `u64` that is only compared. -/
structure KeyMetadata where
  keyId : String
  version : Nat
  lastModified : Int
  creator : NodeId
  signature : Bytes
  cryptoAlgorithm : String
  publicKeyHash : Bytes
  deriving DecidableEq, Repr

structure SyncMessage where
  messageId : Uuid
  protocolVersion : Nat
  timestamp : Int
  sender : NodeId
  operation : SyncOperation
  metadata : KeyMetadata
  keyData : Option Bytes
  messageSignature : Bytes
  deriving DecidableEq, Repr

/-- What the crates compute: BLAKE3, and the check of a message's signature over its
encoding without the signature (the text of the error if it is not valid). -/
structure SyncCrypto where
  blake3 : Bytes → Bytes
  verify : NodeId → SyncMessage → Except String Unit

/-! ### The synchronizer -/

structure KeySynchronizer where
  nodeId : NodeId
  localKeystore : ExtTreeMap String Bytes
  synchronizedKeys : ExtTreeMap String KeyMetadata
  syncStatus : ExtTreeMap String KeySyncStatus
  messageCache : ExtTreeMap Uuid Int
  trustedPeers : ExtTreeMap NodeId NodeId

namespace KeySynchronizer

variable (crypto : SyncCrypto) (s : KeySynchronizer)

/-- `get_key_metadata`: a key that was never synchronized counts as version 1. -/
def getKeyMetadata (now : Int) (keyId : String) : Except String KeyMetadata :=
  match s.synchronizedKeys[keyId]? with
  | some metadata => .ok metadata
  | none =>
      match s.localKeystore[keyId]? with
      | none => .error s!"Key not found: {keyId}"
      | some keyData => .ok
          { keyId := keyId
            version := 1
            lastModified := now
            creator := s.nodeId
            signature := []
            cryptoAlgorithm := "Ed25519"
            publicKeyHash := crypto.blake3 keyData }

def updateSyncStatus (keyId : String) (status : KeySyncStatus) : KeySynchronizer :=
  { s with syncStatus := s.syncStatus.insert keyId status }

/-- `local_keystore.put` of the key data, if the message carries any. -/
def putKeyData (keyId : String) (keyData : Option Bytes) : KeySynchronizer :=
  match keyData with
  | none => s
  | some bytes => { s with localKeystore := s.localKeystore.insert keyId bytes }

/-- The end of `handle_key_create` and `handle_key_update`: data, metadata, status. -/
def storeKey (message : SyncMessage) : KeySynchronizer :=
  let keyId := message.metadata.keyId
  let stored := s.putKeyData keyId message.keyData
  { stored with
    synchronizedKeys := stored.synchronizedKeys.insert keyId message.metadata }
    |>.updateSyncStatus keyId .synchronized

def handleKeyCreate (now : Int) (message : SyncMessage) : Except String KeySynchronizer :=
  let keyId := message.metadata.keyId
  if keyId ∈ s.localKeystore then
    (s.getKeyMetadata crypto now keyId).map fun localMetadata =>
      if localMetadata.version ≥ message.metadata.version then s else s.storeKey message
  else .ok (s.storeKey message)

def handleKeyUpdate (now : Int) (message : SyncMessage) : Except String KeySynchronizer :=
  let keyId := message.metadata.keyId
  if keyId ∉ s.localKeystore then .error s!"Key not found: {keyId}"
  else
    (s.getKeyMetadata crypto now keyId).map fun localMetadata =>
      let ours := localMetadata.version
      let theirs := message.metadata.version
      if ours > theirs then
        s.updateSyncStatus keyId (.conflict s!"Local: v{ours}, Remote: v{theirs}")
      else s.storeKey message

def handleKeyDelete (message : SyncMessage) : KeySynchronizer :=
  let keyId := message.metadata.keyId
  { s with
    localKeystore := s.localKeystore.erase keyId
    synchronizedKeys := s.synchronizedKeys.erase keyId
    syncStatus := s.syncStatus.erase keyId }

def handleMetadataSync (message : SyncMessage) : KeySynchronizer :=
  { s with
    synchronizedKeys := s.synchronizedKeys.insert message.metadata.keyId message.metadata }

/-- The dispatch of `handle_sync_message` to the handler of the operation. -/
def processOperation (now : Int) (message : SyncMessage) : Except String KeySynchronizer :=
  match message.operation with
  | .create => s.handleKeyCreate crypto now message
  | .update => s.handleKeyUpdate crypto now message
  | .delete => .ok (s.handleKeyDelete message)
  | .metadataSync => .ok (s.handleMetadataSync message)

/-- `is_message_too_old`, at the time `now`. -/
def isMessageTooOld (now : Int) (message : SyncMessage) : Except String Bool :=
  if now < message.timestamp then .error "Invalid timestamp"
  else .ok (decide (now - message.timestamp > maxMessageAge))

def isMessageDuplicate (message : SyncMessage) : Bool :=
  decide (message.messageId ∈ s.messageCache)

def verifyMessageSignature (message : SyncMessage) : Except String Unit :=
  match s.trustedPeers[message.sender]? with
  | none => .error s!"Untrusted peer: {message.sender}"
  | some verifyingKey => crypto.verify verifyingKey message

/-- `cache_processed_message`: the clock is read for the new entry, and once more for the
age at which entries are dropped. -/
def cacheProcessedMessage (message : SyncMessage) (now cutoffNow : Int) :
    KeySynchronizer :=
  let cache := s.messageCache.insert message.messageId now
  let cutoff := cutoffNow - maxMessageAge
  { s with messageCache := cache.filter fun _ timestamp => decide (timestamp > cutoff) }

/-- `handle_sync_message`, all of it at the time `now`. -/
def handleSyncMessage (now : Int) (message : SyncMessage) :
    Except String KeySynchronizer :=
  match isMessageTooOld now message with
  | .error e => .error e
  | .ok true => .error "Message too old"
  | .ok false =>
      if s.isMessageDuplicate message then .ok s
      else
        match s.verifyMessageSignature crypto message with
        | .error e => .error e
        | .ok _ =>
            (s.processOperation crypto now message).map fun processed =>
              processed.cacheProcessedMessage message now now

end KeySynchronizer

/-! ### Deliveries -/

/-- A message and the time at which it is handled. -/
structure Delivery where
  now : Int
  message : SyncMessage
  deriving DecidableEq, Repr

/-- The synchronizer after a delivery: a message that fails leaves it as it was. -/
def receive (crypto : SyncCrypto) (s : KeySynchronizer) (d : Delivery) : KeySynchronizer :=
  match s.handleSyncMessage crypto d.now d.message with
  | .ok s' => s'
  | .error _ => s

/-- The synchronizer after a sequence of deliveries. -/
def received (crypto : SyncCrypto) (s : KeySynchronizer) (ds : List Delivery) :
    KeySynchronizer :=
  ds.foldl (receive crypto) s

/-! ### One key -/

/-- What a synchronizer holds for one key: its data and its metadata. -/
structure Cell where
  data : Option Bytes
  info : Option KeyMetadata
  deriving DecidableEq, Repr

namespace Cell

/-- The cell of a key that is not there. -/
def empty : Cell := ⟨none, none⟩

/-- The version a key is held at: that of its metadata, or 1 for data without any. -/
def version (c : Cell) : Option Nat :=
  match c.info, c.data with
  | some metadata, _ => some metadata.version
  | none, some _ => some 1
  | none, none => none

/-- The version a handler compares with, for a key with data. -/
def localVersion (c : Cell) : Nat :=
  (c.info.map (·.version)).getD 1

/-- The cell after data (if any came along) and metadata of a message are stored. -/
def store (c : Cell) (message : SyncMessage) : Cell :=
  ⟨message.keyData.or c.data, some message.metadata⟩

/-- What the handler of a message makes of its key; `none` if it fails. -/
def apply (c : Cell) (message : SyncMessage) : Option Cell :=
  match message.operation with
  | .create =>
      if c.data.isSome ∧ c.localVersion ≥ message.metadata.version then some c
      else some (c.store message)
  | .update =>
      if c.data.isNone then none
      else if c.localVersion > message.metadata.version then some c
      else some (c.store message)
  | .delete => some empty
  | .metadataSync => some ⟨c.data, some message.metadata⟩

/-- A message whose handler fails leaves the key as it is. -/
def step (c : Cell) (message : SyncMessage) : Cell := (c.apply message).getD c

theorem version_of_data {c : Cell} (h : c.data.isSome) : c.version = some c.localVersion := by
  obtain ⟨bytes, hbytes⟩ := Option.isSome_iff_exists.mp h
  cases hi : c.info <;> simp [version, localVersion, hi, hbytes]

end Cell

namespace KeySynchronizer

variable {crypto : SyncCrypto} {s s' : KeySynchronizer} {m : SyncMessage} {now : Int}
  {k : String}

/-- What the synchronizer holds for the key `k`. -/
def cell (s : KeySynchronizer) (k : String) : Cell :=
  ⟨s.localKeystore[k]?, s.synchronizedKeys[k]?⟩

theorem isSome_data : ((s.cell k).data).isSome ↔ k ∈ s.localKeystore :=
  isSome_getElem?_iff_mem

@[simp] theorem cell_updateSyncStatus (status : KeySyncStatus) (j : String) :
    (s.updateSyncStatus j status).cell k = s.cell k := rfl

@[simp] theorem cell_cacheProcessedMessage (t t' : Int) :
    (s.cacheProcessedMessage m t t').cell k = s.cell k := rfl

/-- A key with data is compared by the version of its cell. -/
theorem getKeyMetadata_version (crypto : SyncCrypto) (now : Int)
    (h : ((s.cell k).data).isSome) :
    ∃ metadata, s.getKeyMetadata crypto now k = .ok metadata ∧
      metadata.version = (s.cell k).localVersion := by
  obtain ⟨bytes, hbytes⟩ := Option.isSome_iff_exists.mp h
  simp only [getKeyMetadata, Cell.localVersion, cell]
  cases hi : s.synchronizedKeys[k]? with
  | some metadata => exact ⟨metadata, rfl, rfl⟩
  | none => simp [show s.localKeystore[k]? = some bytes from hbytes]

theorem storeKey_cell : (s.storeKey m).cell m.metadata.keyId =
    (s.cell m.metadata.keyId).store m := by
  cases hd : m.keyData <;>
    simp [storeKey, putKeyData, updateSyncStatus, cell, Cell.store, hd]

theorem storeKey_other (hk : k ≠ m.metadata.keyId) : (s.storeKey m).cell k = s.cell k := by
  have hne : ¬ m.metadata.keyId = k := fun h => hk h.symm
  cases hd : m.keyData <;>
    simp [storeKey, putKeyData, updateSyncStatus, cell, hd, getElem?_insert, hne]

/-- **A handler and the cell of its key.** It fails where `Cell.apply` has no result. -/
theorem processOperation_cell (crypto : SyncCrypto) (s : KeySynchronizer) (now : Int)
    (m : SyncMessage) :
    ((s.processOperation crypto now m).toOption.map fun s' => s'.cell m.metadata.keyId) =
      (s.cell m.metadata.keyId).apply m := by
  have hsome := isSome_data (s := s) (k := m.metadata.keyId)
  rw [processOperation, Cell.apply]
  cases hop : m.operation with
  | create =>
    simp only [handleKeyCreate]
    by_cases hk : m.metadata.keyId ∈ s.localKeystore
    · obtain ⟨metadata, hget, hversion⟩ := getKeyMetadata_version crypto now
        (hsome.mpr hk)
      by_cases hv : metadata.version ≥ m.metadata.version
      · simp [hk, hget, hv, Except.map, Except.toOption, hsome, ← hversion]
      · simp [hk, hget, hv, Except.map, Except.toOption, hsome, ← hversion, storeKey_cell]
    · simp [hk, hsome, Except.toOption, storeKey_cell]
  | update =>
    simp only [handleKeyUpdate]
    by_cases hk : m.metadata.keyId ∈ s.localKeystore
    · obtain ⟨metadata, hget, hversion⟩ := getKeyMetadata_version crypto now
        (hsome.mpr hk)
      have hnone : ((s.cell m.metadata.keyId).data).isNone = false := by simp_all
      by_cases hv : metadata.version > m.metadata.version
      · simp [hk, hget, hv, Except.map, Except.toOption, hnone, ← hversion]
      · simp [hk, hget, hv, Except.map, Except.toOption, hnone, ← hversion, storeKey_cell]
    · simp_all [Except.toOption]
  | delete => simp [handleKeyDelete, Except.toOption, cell, Cell.empty]
  | metadataSync => simp [handleMetadataSync, Except.toOption, cell]

/-- What a handler can leave, as a rule for what holds of it. -/
theorem processOperation_rule {P : KeySynchronizer → Prop}
    (h : s.processOperation crypto now m = .ok s') (hsame : P s)
    (hstatus : ∀ status, P (s.updateSyncStatus m.metadata.keyId status))
    (hstore : P (s.storeKey m)) (hdelete : P (s.handleKeyDelete m))
    (hmetadata : P (s.handleMetadataSync m)) : P s' := by
  rw [processOperation] at h
  cases hop : m.operation with
  | create =>
    simp only [hop, handleKeyCreate] at h
    split at h
    · obtain ⟨metadata, -, rfl⟩ := except_map_ok.mp h
      split
      · exact hsame
      · exact hstore
    · cases h
      exact hstore
  | update =>
    simp only [hop, handleKeyUpdate] at h
    split at h
    · cases h
    · obtain ⟨metadata, -, rfl⟩ := except_map_ok.mp h
      split
      · exact hstatus _
      · exact hstore
  | delete | metadataSync =>
    simp only [hop] at h
    cases h
    assumption

/-- A handler leaves every other key alone. -/
theorem processOperation_other (h : s.processOperation crypto now m = .ok s')
    (hk : k ≠ m.metadata.keyId) : s'.cell k = s.cell k := by
  have hne : ¬ m.metadata.keyId = k := fun h => hk h.symm
  refine processOperation_rule (P := fun s' => s'.cell k = s.cell k) h rfl (fun _ => rfl)
    (storeKey_other hk) ?_ ?_
  · simp [handleKeyDelete, cell, getElem?_erase, hne]
  · simp [handleMetadataSync, cell, getElem?_insert, hne]

/-- A handler leaves the cache and the trusted peers alone. -/
theorem processOperation_frame (h : s.processOperation crypto now m = .ok s') :
    s'.messageCache = s.messageCache ∧ s'.trustedPeers = s.trustedPeers := by
  refine processOperation_rule (P := fun s' => s'.messageCache = s.messageCache ∧
    s'.trustedPeers = s.trustedPeers) h ⟨rfl, rfl⟩ (fun _ => ⟨rfl, rfl⟩) ?_ ⟨rfl, rfl⟩ ⟨rfl, rfl⟩
  cases hd : m.keyData <;> simp [storeKey, putKeyData, updateSyncStatus, hd]

end KeySynchronizer

/-! ### Whole deliveries -/

/-- The message is younger than `MAX_MESSAGE_AGE` when it is handled, and not from the
future. -/
def Delivery.Fresh (d : Delivery) : Prop :=
  d.message.timestamp ≤ d.now ∧ d.now - d.message.timestamp ≤ maxMessageAge

instance (d : Delivery) : Decidable d.Fresh := by
  unfold Delivery.Fresh
  infer_instance

/-- The checks before the handler let the message through: it is fresh, not in the cache,
and signed by a trusted peer. -/
structure Admitted (crypto : SyncCrypto) (s : KeySynchronizer) (d : Delivery) : Prop where
  fresh : d.Fresh
  new : d.message.messageId ∉ s.messageCache
  signed : s.verifyMessageSignature crypto d.message = .ok ()

section
variable {crypto : SyncCrypto} {s : KeySynchronizer} {d : Delivery} {k : String}

theorem isMessageTooOld_false :
    KeySynchronizer.isMessageTooOld d.now d.message = .ok false ↔ d.Fresh := by
  rw [KeySynchronizer.isMessageTooOld, Delivery.Fresh]
  split
  · grind
  · simp_all

/-- An admitted message is handled and then cached. -/
theorem handleSyncMessage_admitted (h : Admitted crypto s d) :
    s.handleSyncMessage crypto d.now d.message =
      (s.processOperation crypto d.now d.message).map fun processed =>
        processed.cacheProcessedMessage d.message d.now d.now := by
  rw [KeySynchronizer.handleSyncMessage, isMessageTooOld_false.mpr h.fresh]
  simp [KeySynchronizer.isMessageDuplicate, h.new, h.signed]

/-- A message that is not admitted changes nothing. -/
theorem receive_not_admitted (h : ¬ Admitted crypto s d) : receive crypto s d = s := by
  rw [receive, KeySynchronizer.handleSyncMessage]
  cases hage : KeySynchronizer.isMessageTooOld d.now d.message with
  | error e => rfl
  | ok old =>
    cases old with
    | true => rfl
    | false =>
      by_cases hdup : s.isMessageDuplicate d.message = true
      · simp [hdup]
      · cases hsig : s.verifyMessageSignature crypto d.message with
        | error e => simp [hdup]
        | ok u =>
          refine absurd ⟨isMessageTooOld_false.mp hage, ?_, hsig⟩ h
          simpa [KeySynchronizer.isMessageDuplicate] using hdup

/-- **A delivery and the cell of its key.** -/
theorem receive_cell (h : Admitted crypto s d) :
    (receive crypto s d).cell d.message.metadata.keyId =
      (s.cell d.message.metadata.keyId).step d.message := by
  have hcell := KeySynchronizer.processOperation_cell crypto s d.now d.message
  rw [receive, handleSyncMessage_admitted h, Cell.step, ← hcell]
  cases hp : s.processOperation crypto d.now d.message with
  | error | ok => rfl

/-- A delivery changes nothing or ends a handler. -/
theorem receive_rule {P : KeySynchronizer → Prop} (hsame : P s)
    (hhandled : ∀ s', s.processOperation crypto d.now d.message = .ok s' →
      P (s'.cacheProcessedMessage d.message d.now d.now)) : P (receive crypto s d) := by
  by_cases h : Admitted crypto s d
  · rw [receive, handleSyncMessage_admitted h]
    cases hp : s.processOperation crypto d.now d.message with
    | error e => exact hsame
    | ok s' => exact hhandled s' hp
  · rw [receive_not_admitted h]
    exact hsame

/-- A delivery leaves every other key alone. -/
theorem receive_other (hk : k ≠ d.message.metadata.keyId) :
    (receive crypto s d).cell k = s.cell k :=
  receive_rule (P := fun s' => s'.cell k = s.cell k) rfl fun _ hp =>
    (KeySynchronizer.processOperation_other hp hk :)

/-- Deliveries never change whom the synchronizer trusts. -/
theorem receive_trustedPeers : (receive crypto s d).trustedPeers = s.trustedPeers :=
  receive_rule (P := fun s' => s'.trustedPeers = s.trustedPeers) rfl fun _ hp =>
    (KeySynchronizer.processOperation_frame hp).2

/-- A delivery caches at most its own message. -/
theorem mem_cache_receive {id : Uuid} (h : id ∈ (receive crypto s d).messageCache) :
    id ∈ s.messageCache ∨ id = d.message.messageId := by
  revert h
  refine receive_rule (P := fun s' => id ∈ s'.messageCache → _) .inl fun s' hp h => ?_
  have hins := mem_of_mem_filter h
  rw [mem_insert, (KeySynchronizer.processOperation_frame hp).1] at hins
  rcases hins with heq | hold
  · exact .inr (LawfulEqCmp.compare_eq_iff_eq.mp heq).symm
  · exact .inl hold

/-- Deliveries that the checks let through one after another: fresh, signed, and no two
with one id. -/
structure Accepted (crypto : SyncCrypto) (s : KeySynchronizer) (ds : List Delivery) : Prop where
  fresh : ∀ d ∈ ds, d.Fresh
  signed : ∀ d ∈ ds, s.verifyMessageSignature crypto d.message = .ok ()
  distinct : (ds.map (·.message.messageId)).Nodup
  new : ∀ d ∈ ds, d.message.messageId ∉ s.messageCache

instance (crypto : SyncCrypto) (s : KeySynchronizer) (m : SyncMessage) :
    Decidable (s.verifyMessageSignature crypto m = .ok ()) :=
  match s.verifyMessageSignature crypto m with
  | .ok () => isTrue rfl
  | .error _ => isFalse nofun

/-- What is left of accepted deliveries after the first of them. -/
theorem Accepted.tail {ds : List Delivery} (h : Accepted crypto s (d :: ds)) :
    Accepted crypto (receive crypto s d) ds where
  fresh e he := h.fresh e (.tail d he)
  signed e he := by
    rw [KeySynchronizer.verifyMessageSignature, receive_trustedPeers]
    exact h.signed e (.tail d he)
  distinct := (List.nodup_cons.mp h.distinct).2
  new e he hmem := by
    rcases mem_cache_receive hmem with hold | heq
    · exact h.new e (.tail d he) hold
    · refine (List.nodup_cons.mp h.distinct).1 (List.mem_map.mpr ⟨e, he, heq⟩)

/-- **Accepted deliveries, one key at a time**: each key goes through its own messages. -/
theorem received_cell : ∀ {ds : List Delivery} {s : KeySynchronizer}, Accepted crypto s ds →
    (received crypto s ds).cell k =
      ((ds.map (·.message)).filter (·.metadata.keyId = k)).foldl Cell.step (s.cell k)
  | [], _, _ => rfl
  | d :: ds, s, h => by
      have hadm : Admitted crypto s d := ⟨h.fresh d (.head _),
        h.new d (.head _), h.signed d (.head _)⟩
      rw [received, List.foldl_cons, ← received, received_cell h.tail, List.map_cons]
      by_cases hk : d.message.metadata.keyId = k
      · subst hk
        rw [List.filter_cons_of_pos (by simp), List.foldl_cons, receive_cell hadm]
      · rw [List.filter_cons_of_neg (by simpa using hk),
          receive_other fun h => hk h.symm]

end

/-! ### Sample messages -/

/-- A signature check that accepts every message of a trusted peer. -/
def openCrypto : SyncCrypto := ⟨id, fun _ _ => .ok ()⟩

/-- A synchronizer without keys that trusts the peer 7. -/
def emptySynchronizer : KeySynchronizer :=
  ⟨0, ∅, ∅, ∅, ∅, (∅ : ExtTreeMap NodeId NodeId).insert 7 7⟩

/-- A message of the peer 7 about the key "k", handled as soon as it is sent. -/
def keyMessage (messageId : Uuid) (operation : SyncOperation) (version : Nat)
    (keyData : Option Bytes) : Delivery :=
  ⟨0, ⟨messageId, 1, 0, 7, operation, ⟨"k", version, 0, 7, [], "Ed25519", []⟩, keyData, []⟩⟩

theorem keyMessage_fresh (messageId : Uuid) (operation : SyncOperation) (version : Nat)
    (keyData : Option Bytes) : (keyMessage messageId operation version keyData).Fresh := by
  simp [keyMessage, Delivery.Fresh, maxMessageAge]

theorem keyMessage_signed (messageId : Uuid) (operation : SyncOperation) (version : Nat)
    (keyData : Option Bytes) : emptySynchronizer.verifyMessageSignature openCrypto
      (keyMessage messageId operation version keyData).message = .ok () := by
  simp [keyMessage, KeySynchronizer.verifyMessageSignature, emptySynchronizer, openCrypto]

end GuardianDb.P2p
