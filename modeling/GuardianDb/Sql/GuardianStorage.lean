/-
The relational storage adapter over a document store
(`sql/guardian_storage.rs`, `derive_row_id` of `sql/store.rs`).

Rows live under the flat key `collection SEP row-id`. Collections never contain
the separator, so a flat key belongs to one row; but a row id may extend another
one, and deleting a row hands its key to a deletion by prefix. The adapter also
drops the error of a failed deletion.

  * `startsWith_gkey` — one key extends another only within a collection.
  * `agrees_step_iff` — what one call must satisfy to keep the adapter a map.
  * `adapter_map_iff` — the adapter is a map throughout exactly when every call does.
-/
import GuardianDb.Relational.Key
import GuardianDb.Stores.Docs

namespace GuardianDb.Sql

open Std Stores Relational ExtTreeMap

/-! ### Keys -/

def sep : Char := Char.ofNat 31

@[ext]
structure Collection where
  name : String
  sep_free : sep ∉ name.toList

instance : DecidableEq Collection := fun c c' =>
  decidable_of_iff (c.name = c'.name) Collection.ext_iff.symm

def gkey (c : Collection) (rowId : String) : String := c.name ++ sep.toString ++ rowId

/-- `derive_row_id`, from the values of the primary key. -/
def deriveRowId {C : Crates} (pk : List (SqlValue C)) : Option String :=
  if pk.isEmpty || pk.any SqlValue.isNull then none
  else some (String.ofList ([sep].intercalate (pk.map SqlValue.indexKey)))

theorem toList_gkey (c : Collection) (r : String) :
    (gkey c r).toList = c.name.toList ++ sep :: r.toList := by
  simp [gkey]

/-- Two texts with the separator after their first part. -/
theorem prefix_of_sep_prefix {a b x y : List Char} (ha : sep ∉ a) (hb : sep ∉ b)
    (h : a ++ sep :: x <+: b ++ sep :: y) : a = b ∧ x <+: y := by
  obtain ⟨rest, hrest⟩ := h
  rw [List.append_assoc, List.cons_append] at hrest
  have hstop : ∀ s, Delimited.Stops (· != sep) (sep :: s) := fun s =>
    Delimited.stops_cons (by simp) s
  obtain ⟨hab, hxy⟩ := Delimited.run_cut (p := (· != sep))
    (fun c hc => by simp only [bne_iff_ne]; rintro rfl; exact ha hc)
    (fun c hc => by simp only [bne_iff_ne]; rintro rfl; exact hb hc) (hstop _) (hstop _) hrest
  exact ⟨hab, rest, (List.cons.inj hxy).2⟩

/-- **Keys separate collections**: one key extends another only within a
collection, and as the row ids do. -/
theorem startsWith_gkey {c c' : Collection} {r r' : String} :
    StartsWith (gkey c r) (gkey c' r') ↔ c = c' ∧ StartsWith r r' := by
  rw [startsWith_iff, startsWith_iff, toList_gkey, toList_gkey]
  constructor
  · intro h
    obtain ⟨hname, hrow⟩ := prefix_of_sep_prefix c.sep_free c'.sep_free h
    exact ⟨Collection.ext (String.toList_injective hname), hrow⟩
  · simp_all

theorem gkey_inj {c c' : Collection} {r r' : String} : gkey c r = gkey c' r' ↔ c = c' ∧ r = r' := by
  constructor
  · intro h
    have hlist := congrArg String.toList h
    rw [toList_gkey, toList_gkey] at hlist
    obtain ⟨hname, -⟩ := prefix_of_sep_prefix c.sep_free c'.sep_free
      ⟨[], by rw [List.append_nil, hlist]⟩
    obtain rfl := Collection.ext (String.toList_injective hname)
    have hrow := List.append_cancel_left hlist
    exact ⟨rfl, String.toList_injective (List.cons.inj hrow).2⟩
  · rintro ⟨rfl, rfl⟩
    rfl

/-! ### The adapter -/

/-- The object a row document is stored in. -/
structure Wrapped (δ : Type) where
  id : String
  collection : String
  doc : δ

/-- `serde_json` text of wrapped documents. What is read back depends on the
document alone; it is the document itself unless the text loses precision (the
crate promises exact floats only with its feature `float_roundtrip`). -/
structure JsonText (δ : Type) where
  toVec : Wrapped δ → Bytes
  unwrapDoc : Bytes → Except String (Option δ)
  readBack : δ → δ
  toVec_ne_nil : ∀ w, toVec w ≠ []
  unwrapDoc_toVec : ∀ w, unwrapDoc (toVec w) = .ok (some (readBack w.doc))

/-- The keys of a hash map, in the order it happens to list them. -/
structure KeyOrder where
  keys : ExtTreeMap String Bytes → List String
  keys_perm : ∀ m, (keys m).Perm m.keys

/-- The fixed part of `GuardianRelationalStorage`. -/
structure Adapter (δ : Type) where
  writable : Bool
  json : JsonText δ
  order : KeyOrder

/-- `RelError::Storage`. -/
structure StorageError where
  message : String
deriving DecidableEq, Repr

def mapErr : StoreError → StorageError
  | .store message => ⟨"Store error: " ++ message⟩
  | .notFound message => ⟨"Not found: " ++ message⟩
  | .other message => ⟨message⟩

variable {W : WillowDocs} {δ : Type}

namespace Adapter

/-- The document store `open_sql` opens: JSON objects keyed by `_id`. -/
def store (A : Adapter δ) : DocumentStore (Wrapped δ) where
  writable := A.writable
  codec := identityCodec
  keyExtractor w :=
    if w.id = "" then .error (.other "Invalid argument: The field `_id` cannot be an empty string")
    else .ok w.id
  marshal w := .ok (A.json.toVec w)
  marshal_ne_nil := by
    intro w data h
    cases h
    exact A.json.toVec_ne_nil w

/-- A write of the store; `fault` is the error of the iroh call, if it fails. -/
def storePut (A : Adapter δ) (s : Mirror W) (w : Wrapped δ) (fault : Option String) :
    Except StoreError (Operation × Mirror W) :=
  match A.store.put s w, fault with
  | .ok _, some e => .error (.store s!"Error writing key '{w.id}' to iroh-docs: {e}")
  | r, _ => r

/-- A deletion of the store, likewise. -/
def storeDelete (A : Adapter δ) (s : Mirror W) (key : String) (fault : Option String) :
    Except StoreError (Operation × Mirror W) :=
  match A.store.delete s key, fault with
  | .ok _, some e => .error (.store s!"Error deleting key '{key}' in iroh-docs: {e}")
  | r, _ => r

def put (A : Adapter δ) (s : Mirror W) (c : Collection) (rowId : String) (doc : δ)
    (fault : Option String) : Except StorageError Unit × Mirror W :=
  match A.storePut s ⟨gkey c rowId, c.name, doc⟩ fault with
  | .ok (_, s') => (.ok (), s')
  | .error e => (.error (mapErr e), s)

/-- `let _ = self.store.delete(..)`. -/
def discard (A : Adapter δ) (s : Mirror W) (key : String) (fault : Option String) : Mirror W :=
  match A.storeDelete s key fault with
  | .ok (_, s') => s'
  | .error _ => s

/-- `delete`: the outcome of the store is dropped. -/
def delete (A : Adapter δ) (s : Mirror W) (c : Collection) (rowId : String)
    (fault : Option String) : Except StorageError Unit × Mirror W :=
  (.ok (), A.discard s (gkey c rowId) fault)

/-- The loop of `truncate`. -/
def truncateKeys (A : Adapter δ) (c : Collection) (faults : String → Option String) :
    Mirror W → List String → Mirror W
  | s, [] => s
  | s, key :: keys =>
    A.truncateKeys c faults
      (if StartsWith (gkey c "") key then A.discard s key (faults key) else s) keys

/-- `truncate`: every key of the collection is deleted, in the order of the map. -/
def truncate (A : Adapter δ) (s : Mirror W) (c : Collection) (faults : String → Option String) :
    Except StorageError Unit × Mirror W :=
  (.ok (), A.truncateKeys c faults s (A.order.keys s.index))

/-- `get`, on an index. -/
def get (A : Adapter δ) (index : ExtTreeMap String Bytes) (c : Collection) (rowId : String) :
    Except StorageError (Option δ) :=
  match index[gkey c rowId]? with
  | some bytes => (A.json.unwrapDoc bytes).mapError StorageError.mk
  | none => .ok none

def stripPrefix (stem key : String) : Option String :=
  if StartsWith stem key then some (String.ofList (key.toList.drop stem.toList.length)) else none

/-- The loop of `scan`. -/
def scanKeys (A : Adapter δ) (index : ExtTreeMap String Bytes) (c : Collection) :
    List String → Except StorageError (List (String × δ))
  | [] => .ok []
  | key :: keys =>
    match stripPrefix (gkey c "") key, index[key]? with
    | some rowId, some bytes =>
      match A.json.unwrapDoc bytes with
      | .error e => .error ⟨e⟩
      | .ok none => A.scanKeys index c keys
      | .ok (some doc) => (A.scanKeys index c keys).map ((rowId, doc) :: ·)
    | _, _ => A.scanKeys index c keys

/-- `scan`, on an index. -/
def scan (A : Adapter δ) (index : ExtTreeMap String Bytes) (c : Collection) :
    Except StorageError (List (String × δ)) :=
  A.scanKeys index c (A.order.keys index)

end Adapter

open List

/-! ### Calls and the map they describe -/

/-- A call of the adapter, with the iroh calls that fail while it runs. -/
inductive StorageCall (δ : Type) where
  | put (c : Collection) (rowId : String) (doc : δ) (fault : Option String)
  | delete (c : Collection) (rowId : String) (fault : Option String)
  | truncate (c : Collection) (faults : String → Option String)

/-- The abstract map: rows by collection and id. -/
abbrev Rows (δ : Type) := Collection → String → Option δ

/-- What a call that returned `Ok` does to the map: exactly the named row, or
exactly the named collection, changes. -/
def StorageCall.apply (m : Rows δ) : StorageCall δ → Rows δ
  | .put c r doc _ => fun c' r' => if c' = c ∧ r' = r then some doc else m c' r'
  | .delete c r _ => fun c' r' => if c' = c ∧ r' = r then none else m c' r'
  | .truncate c _ => fun c' r' => if c' = c then none else m c' r'

namespace Adapter

def step (A : Adapter δ) (s : Mirror W) : StorageCall δ → Except StorageError Unit × Mirror W
  | .put c r doc fault => A.put s c r doc fault
  | .delete c r fault => A.delete s c r fault
  | .truncate c faults => A.truncate s c faults

/-- The map after a call: unchanged by a call that failed. -/
def applied (A : Adapter δ) (s : Mirror W) (m : Rows δ) (call : StorageCall δ) : Rows δ :=
  match (A.step s call).1 with
  | .ok _ => call.apply m
  | .error _ => m

/-- The index of the store after it is loaded again. -/
def reloaded (s : Mirror W) : ExtTreeMap String Bytes := refreshIndex W s.doc

/-- `get` and `scan` on the reloaded store show the map. -/
def Agrees (A : Adapter δ) (s : Mirror W) (m : Rows δ) : Prop :=
  (∀ c r, A.get (reloaded s) c r = .ok (m c r)) ∧
  ∀ c, ∃ rows, A.scan (reloaded s) c = .ok rows ∧ (rows.map (·.1)).Nodup ∧
    ∀ r doc, (r, doc) ∈ rows ↔ m c r = some doc

end Adapter

/-! ### The reloaded index after a write and after a deletion -/

theorem getElem?_reloaded_write (s : Mirror W) {key : String} {stored : Bytes} (h : stored ≠ [])
    (key' : String) : (Adapter.reloaded (s.write key stored))[key']? =
      if key' = key then some stored else (Adapter.reloaded s)[key']? := by
  refine Option.ext fun content => ?_
  unfold Adapter.reloaded
  rw [getElem?_refreshIndex]
  split
  · rename_i heq
    constructor
    · rintro ⟨hmem, hne⟩
      have := (W.mem_setBytes s.doc key stored key' content hne).mp hmem
      rw [if_pos heq] at this
      rw [this]
    · intro hsome
      cases hsome
      refine ⟨(W.mem_setBytes s.doc key stored key' stored h).mpr ?_, h⟩
      rw [if_pos heq]
  · rename_i hne'
    rw [getElem?_refreshIndex]
    constructor
    · rintro ⟨hmem, hne⟩
      have := (W.mem_setBytes s.doc key stored key' content hne).mp hmem
      rw [if_neg hne'] at this
      exact ⟨this, hne⟩
    · rintro ⟨hmem, hne⟩
      refine ⟨(W.mem_setBytes s.doc key stored key' content hne).mpr ?_, hne⟩
      rwa [if_neg hne']

theorem getElem?_reloaded_erase (s : Mirror W) (key key' : String) :
    (Adapter.reloaded (s.erase key))[key']? =
      if StartsWith key key' then none else (Adapter.reloaded s)[key']? := by
  refine Option.ext fun content => ?_
  unfold Adapter.reloaded
  rw [getElem?_refreshIndex]
  split
  · rename_i hstart
    refine ⟨?_, nofun⟩
    rintro ⟨hmem, hne⟩
    exact absurd hstart ((W.mem_del s.doc key key' content hne).mp hmem).1
  · rename_i hstart
    rw [getElem?_refreshIndex]
    constructor
    · rintro ⟨hmem, hne⟩
      exact ⟨((W.mem_del s.doc key key' content hne).mp hmem).2, hne⟩
    · rintro ⟨hmem, hne⟩
      exact ⟨(W.mem_del s.doc key key' content hne).mpr ⟨hstart, hmem⟩, hne⟩

/-! ### What the calls do -/

variable (A : Adapter δ)

namespace Adapter

theorem put_ok (hw : A.writable = true) (s : Mirror W) (c : Collection) (r : String) (doc : δ) :
    A.put s c r doc none = (.ok (), s.write (gkey c r) (A.json.toVec ⟨gkey c r, c.name, doc⟩)) := by
  have hne : gkey c r ≠ "" := by
    intro h
    have := congrArg String.toList h
    rw [toList_gkey] at this
    simp at this
  simp [put, storePut, DocumentStore.put, store, ensureWritable, hw, hne, identityCodec, bind,
    Except.bind, pure, Except.pure]

theorem put_error (s : Mirror W) (c : Collection) (r : String) (doc : δ)
    {fault : Option String} (h : ¬ (A.writable = true ∧ fault = none)) :
    ∃ e, A.put s c r doc fault = (.error e, s) := by
  cases fault with
  | none => simp_all [put, storePut, DocumentStore.put, store, ensureWritable, bind, Except.bind]
  | some e =>
    unfold put storePut
    cases A.store.put s ⟨gkey c r, c.name, doc⟩ <;> exact ⟨_, rfl⟩

theorem discard_eq (s : Mirror W) (key : String) (fault : Option String) :
    A.discard s key fault =
      if A.writable = true ∧ fault = none ∧ key ∈ s.index then s.erase key else s := by
  unfold discard storeDelete
  cases hw : A.writable with
  | false => simp [DocumentStore.delete, store, ensureWritable, hw, bind, Except.bind]
  | true =>
    by_cases hmem : key ∈ s.index <;> cases fault <;>
      simp [DocumentStore.delete, store, ensureWritable, hw, hmem, bind, Except.bind, pure,
        Except.pure, throw, throwThe, MonadExceptOf.throw]

/-- The keys `truncate` deletes, of those it visits. -/
def Removes (A : Adapter δ) (c : Collection) (faults : String → Option String) (key : String) :
    Prop :=
  StartsWith (gkey c "") key ∧ A.writable = true ∧ faults key = none

/-- The loop of `truncate`: the reloaded index loses what extends a deleted key,
and nothing else. -/
theorem getElem?_truncateKeys (c : Collection) (faults : String → Option String)
    (key' : String) : ∀ (keys : List String) (s : Mirror W), keys.Nodup →
    (∀ key ∈ keys, key ∈ s.index) →
    ((∃ key ∈ keys, A.Removes c faults key ∧ StartsWith key key') →
      (reloaded (A.truncateKeys c faults s keys))[key']? = none) ∧
    ((¬ ∃ key ∈ keys, A.Removes c faults key ∧ StartsWith key key') →
      (reloaded (A.truncateKeys c faults s keys))[key']? = (reloaded s)[key']?) := by
  intro keys
  induction keys with
  | nil =>
    intro s _ _
    exact ⟨fun h => by simp at h, fun _ => rfl⟩
  | cons key keys ih =>
    intro s hnodup hlive
    rw [nodup_cons] at hnodup
    rw [truncateKeys]
    by_cases hrem : A.Removes c faults key
    · have hstep : (if StartsWith (gkey c "") key then A.discard s key (faults key) else s) =
          s.erase key := by
        rw [if_pos hrem.1, discard_eq, if_pos ⟨hrem.2.1, hrem.2.2, hlive key (.head _)⟩]
      have hrest : ∀ k ∈ keys, k ∈ (s.erase key).index := by
        intro k hk
        refine mem_erase.mpr ⟨?_, hlive k (.tail _ hk)⟩
        intro hc
        exact hnodup.1 (LawfulEqCmp.eq_of_compare hc ▸ hk)
      obtain ⟨hgone, hkept⟩ := ih (s.erase key) hnodup.2 hrest
      rw [hstep]
      by_cases hlater : ∃ k ∈ keys, A.Removes c faults k ∧ StartsWith k key'
      · simp_all
      · grind [getElem?_reloaded_erase]
    · have hstep : (if StartsWith (gkey c "") key then A.discard s key (faults key) else s) =
          s := by
        split
        · rename_i hstart
          rw [discard_eq, if_neg]
          rintro ⟨hw, hf, -⟩
          exact hrem ⟨hstart, hw, hf⟩
        · rfl
      rw [hstep]
      have hiff : (∃ k ∈ key :: keys, A.Removes c faults k ∧ StartsWith k key') ↔
          ∃ k ∈ keys, A.Removes c faults k ∧ StartsWith k key' := by
        simp [hrem]
      rw [hiff]
      exact ih s hnodup.2 fun k hk => hlive k (.tail _ hk)

/-! ### Scanning -/

variable {c : Collection} {r : String}

theorem stripPrefix_eq_some {key : String} :
    stripPrefix (gkey c "") key = some r ↔ key = gkey c r := by
  unfold stripPrefix
  constructor
  · intro h
    split at h
    · rename_i hstart
      obtain ⟨rest, hrest⟩ := startsWith_iff.mp hstart
      cases h
      apply String.toList_injective
      rw [toList_gkey, String.toList_ofList, ← hrest, drop_left, toList_gkey]
      simp
    · cases h
  · rintro rfl
    rw [if_pos (startsWith_gkey.mpr ⟨rfl, startsWith_iff.mpr ⟨r.toList, by simp⟩⟩)]
    simp [toList_gkey]

section
variable (A : Adapter δ)

theorem scanKeys_spec {index : ExtTreeMap String Bytes} {m : String → Option δ}
    (hget : ∀ r, A.get index c r = .ok (m r)) :
    ∀ keys : List String, keys.Nodup → ∃ rows, A.scanKeys index c keys = .ok rows ∧
      (rows.map (·.1)).Nodup ∧ ∀ r doc, (r, doc) ∈ rows ↔ gkey c r ∈ keys ∧ m r = some doc := by
  intro keys
  induction keys with
  | nil => exact fun _ => ⟨[], rfl, nodup_nil, by simp⟩
  | cons key keys ih =>
    intro hnodup
    rw [nodup_cons] at hnodup
    obtain ⟨rows, hrows, hids, hmem⟩ := ih hnodup.2
    -- a key that shows no row leaves the result as it is
    have hskip : A.scanKeys index c (key :: keys) = A.scanKeys index c keys →
        (∀ r doc, key = gkey c r → m r ≠ some doc) → ∃ rows, A.scanKeys index c (key :: keys) =
        .ok rows ∧ (rows.map (·.1)).Nodup ∧
        ∀ r doc, (r, doc) ∈ rows ↔ gkey c r ∈ key :: keys ∧ m r = some doc := by grind
    cases hstrip : stripPrefix (gkey c "") key with
    | none =>
      apply hskip
      · simp [scanKeys, hstrip]
      · intro r doc hkey
        rw [stripPrefix_eq_some.mpr hkey] at hstrip
        cases hstrip
    | some r =>
      obtain rfl := stripPrefix_eq_some.mp hstrip
      have hrow := hget r
      unfold get at hrow
      cases hidx : index[gkey c r]? with
      | none => grind [scanKeys, gkey_inj]
      | some bytes =>
        simp only [hidx] at hrow
        cases hunwrap : A.json.unwrapDoc bytes with
        | error e =>
          rw [hunwrap] at hrow
          cases hrow
        | ok found =>
          rw [hunwrap] at hrow
          have hfound : found = m r := Except.ok.inj hrow
          cases found with
          | none => grind [scanKeys, gkey_inj]
          | some doc =>
            refine ⟨(r, doc) :: rows, ?_, ?_, fun r' doc' => ?_⟩
            · simp [scanKeys, hstrip, hidx, hunwrap, hrows, Except.map]
            · simp_all
            · grind [gkey_inj]

/-- `scan` shows what `get` shows. -/
theorem agrees_iff (s : Mirror W) (m : Rows δ) :
    A.Agrees s m ↔ ∀ c r, A.get (reloaded s) c r = .ok (m c r) := by
  refine ⟨fun h => h.1, fun hget => ⟨hget, fun c => ?_⟩⟩
  have hperm := A.order.keys_perm (reloaded s)
  obtain ⟨rows, hrows, hids, hmem⟩ :=
    A.scanKeys_spec (hget c) _ (hperm.nodup_iff.mpr nodup_keys)
  refine ⟨rows, hrows, hids, fun r doc => ?_⟩
  rw [hmem, hperm.mem_iff, ExtTreeMap.mem_keys]
  refine ⟨fun h => h.2, fun hm => ⟨?_, hm⟩⟩
  by_contra habsent
  have hrow := hget c r
  rw [get, getElem?_eq_none habsent, hm] at hrow
  cases hrow

/-! ### One call -/

/-- What a call must satisfy for the adapter to stay the map `m`: a document
written must be readable; a deletion must happen, unless there is no such row,
and must not take longer row ids with it; every row of a truncated collection
must extend a key that is deleted. -/
def Careful (A : Adapter δ) (s : Mirror W) (m : Rows δ) : StorageCall δ → Prop
  | .put _ _ doc fault => A.writable = true → fault = none → A.json.readBack doc = doc
  | .delete c r fault =>
    if A.writable = true ∧ fault = none ∧ gkey c r ∈ s.index then
      ∀ r', r' ≠ r → StartsWith r r' → m c r' = none
    else m c r = none
  | .truncate c faults => ∀ r, m c r ≠ none →
      ∃ key ∈ s.index, A.Removes c faults key ∧ StartsWith key (gkey c r)

theorem get_eq_of_getElem? {i j : ExtTreeMap String Bytes}
    (h : i[gkey c r]? = j[gkey c r]?) : A.get i c r = A.get j c r := by
  rw [get, get, h]

theorem get_of_none {i : ExtTreeMap String Bytes} (h : i[gkey c r]? = none) :
    A.get i c r = .ok none := by
  rw [get, h]

variable {s : Mirror W} {m : Rows δ}

theorem put_step_iff (h : A.Agrees s m) (c : Collection) (r : String) (doc : δ)
    (fault : Option String) :
    A.Agrees (A.put s c r doc fault).2 (A.applied s m (.put c r doc fault)) ↔
      A.Careful s m (.put c r doc fault) := by
  by_cases hok : A.writable = true ∧ fault = none
  · obtain ⟨hw, rfl⟩ := hok
    have hnew : ∀ c' r', A.get (reloaded (A.put s c r doc none).2) c' r' =
        if c' = c ∧ r' = r then .ok (some (A.json.readBack doc)) else .ok (m c' r') := by
      intro c' r'
      rw [A.put_ok hw]
      have hget := @getElem?_reloaded_write _ s (gkey c r) _
        (A.json.toVec_ne_nil ⟨gkey c r, c.name, doc⟩) (gkey c' r')
      simp only [gkey_inj] at hget
      by_cases hsame : c' = c ∧ r' = r
      · rw [if_pos hsame] at hget ⊢
        rw [get, hget]
        simp [A.json.unwrapDoc_toVec, Except.mapError]
      · rw [if_neg hsame] at hget ⊢
        rw [get_eq_of_getElem? A hget, ((agrees_iff A s m).mp h) c' r']
    have happ : A.applied s m (.put c r doc none) = (StorageCall.put c r doc none).apply m := by
      rw [applied, step, A.put_ok hw]
    rw [agrees_iff, happ]
    constructor
    · intro hall _ _
      have hrow := hall c r
      rw [hnew, if_pos ⟨rfl, rfl⟩] at hrow
      simpa [StorageCall.apply] using hrow
    · intro hread c' r'
      rw [hnew, StorageCall.apply, hread hw rfl]
      by_cases hsame : c' = c ∧ r' = r <;> simp [hsame]
  · obtain ⟨e, he⟩ := A.put_error s c r doc hok
    have happ : A.applied s m (.put c r doc fault) = m := by
      rw [applied, step, he]
    rw [happ, he]
    exact ⟨fun _ hw hf => absurd ⟨hw, hf⟩ hok, fun _ => h⟩

theorem delete_step_iff (h : A.Agrees s m) (c : Collection) (r : String) (fault : Option String) :
    A.Agrees (A.delete s c r fault).2 (A.applied s m (.delete c r fault)) ↔
      A.Careful s m (.delete c r fault) := by
  have hold := (agrees_iff A s m).mp h
  have happ : ∀ c' r', A.applied s m (.delete c r fault) c' r' =
      if c' = c ∧ r' = r then none else m c' r' := fun _ _ => rfl
  rw [agrees_iff, delete, discard_eq, Careful]
  by_cases hdone : A.writable = true ∧ fault = none ∧ gkey c r ∈ s.index
  · rw [if_pos hdone, if_pos hdone]
    have hnew : ∀ c' r', A.get (reloaded (s.erase (gkey c r))) c' r' =
        if c = c' ∧ StartsWith r r' then .ok none else .ok (m c' r') := by
      intro c' r'
      have hget := getElem?_reloaded_erase s (gkey c r) (gkey c' r')
      by_cases hstart : StartsWith (gkey c r) (gkey c' r')
      · rw [if_pos hstart] at hget
        rw [if_pos (startsWith_gkey.mp hstart), get_of_none A hget]
      · rw [if_neg hstart] at hget
        rw [if_neg (mt startsWith_gkey.mpr hstart), get_eq_of_getElem? A hget, hold]
    constructor
    · grind
    · intro hfree c' r'
      rw [hnew, happ]
      by_cases hsame : c' = c ∧ r' = r
      · obtain ⟨rfl, rfl⟩ := hsame
        rw [if_pos ⟨rfl, StartsWith.refl _⟩, if_pos ⟨rfl, rfl⟩]
      · grind
  · grind

theorem truncate_step_iff (h : A.Agrees s m) (c : Collection) (faults : String → Option String) :
    A.Agrees (A.truncate s c faults).2 (A.applied s m (.truncate c faults)) ↔
      A.Careful s m (.truncate c faults) := by
  have hold := (agrees_iff A s m).mp h
  have hperm := A.order.keys_perm s.index
  have hloop := fun key' => A.getElem?_truncateKeys c faults key' (A.order.keys s.index) s
    (hperm.nodup_iff.mpr nodup_keys)
    (fun key hkey => ExtTreeMap.mem_keys.mp (hperm.mem_iff.mp hkey))
  simp only [hperm.mem_iff, ExtTreeMap.mem_keys] at hloop
  have happ : ∀ c' r', A.applied s m (.truncate c faults) c' r' =
      if c' = c then none else m c' r' := fun _ _ => rfl
  rw [agrees_iff, truncate, Careful]
  constructor
  · intro hall r hlive
    by_contra hkept
    have hrow := hall c r
    rw [get_eq_of_getElem? A ((hloop (gkey c r)).2 hkept), hold, happ, if_pos rfl] at hrow
    exact hlive (Except.ok.inj hrow)
  · intro hgone c' r'
    rw [happ]
    by_cases hext : ∃ key ∈ s.index, A.Removes c faults key ∧ StartsWith key (gkey c' r')
    · rw [get_of_none A ((hloop (gkey c' r')).1 hext)]
      obtain ⟨key, -, hrem, hstart⟩ := hext
      obtain ⟨rfl, -⟩ := startsWith_gkey.mp (hrem.1.trans hstart)
      rw [if_pos rfl]
    · rw [get_eq_of_getElem? A ((hloop (gkey c' r')).2 hext), hold]
      split
      · rename_i hc
        subst hc
        by_contra hne
        exact hext (hgone r' fun hnone => hne (by rw [hnone]))
      · rfl

/-- **One call keeps the adapter a map exactly when it is careful.** -/
theorem agrees_step_iff (h : A.Agrees s m) (call : StorageCall δ) :
    A.Agrees (A.step s call).2 (A.applied s m call) ↔ A.Careful s m call := by
  cases call with
  | put c r doc fault => exact A.put_step_iff h c r doc fault
  | delete c r fault => exact A.delete_step_iff h c r fault
  | truncate c faults => exact A.truncate_step_iff h c faults

/-! ### Runs -/

/-- The adapter shows the map before the calls and after each of them. -/
def MapThroughout (A : Adapter δ) (s : Mirror W) (m : Rows δ) : List (StorageCall δ) → Prop
  | [] => A.Agrees s m
  | call :: calls =>
    A.Agrees s m ∧ A.MapThroughout (A.step s call).2 (A.applied s m call) calls

/-- Every call is careful where it is made. -/
def CarefulThroughout (A : Adapter δ) (s : Mirror W) (m : Rows δ) : List (StorageCall δ) → Prop
  | [] => True
  | call :: calls =>
    A.Careful s m call ∧ A.CarefulThroughout (A.step s call).2 (A.applied s m call) calls

theorem mapThroughout_iff : ∀ {s : Mirror W} {m : Rows δ}, A.Agrees s m →
    ∀ calls, A.MapThroughout s m calls ↔ A.CarefulThroughout s m calls := by
  intro s m h calls
  induction calls generalizing s m with
  | nil => exact ⟨fun _ => trivial, fun _ => h⟩
  | cons call calls ih =>
    constructor
    · rintro ⟨-, hrest⟩
      have hnext : A.Agrees (A.step s call).2 (A.applied s m call) := by
        cases calls with
        | nil => exact hrest
        | cons _ _ => exact hrest.1
      exact ⟨(A.agrees_step_iff h call).mp hnext, (ih hnext).mp hrest⟩
    · rintro ⟨hcall, hrest⟩
      have hnext := (A.agrees_step_iff h call).mpr hcall
      exact ⟨h, (ih hnext).mpr hrest⟩

end

theorem agrees_create (W : WillowDocs) (A : Adapter δ) :
    A.Agrees (Mirror.create W) fun _ _ => none := by
  rw [agrees_iff]
  intro c r
  apply get_of_none
  rw [reloaded, Mirror.create, refreshIndex, W.getMany_create]
  rfl

end Adapter

/-- The storage collection of the table with the given oid. -/
def rowsCollection (oid : Nat) : Collection where
  name := "__gdb_sql_rows_" ++ oid.repr
  sep_free := by
    rw [String.toList_append, List.mem_append, not_or]
    refine ⟨by decide, ?_⟩
    rw [Nat.toList_repr]
    intro h
    exact absurd (Nat.isDigit_of_mem_toDigits (by decide) (by decide) h) (by decide)

/-- Documents that are their own text. -/
def plainJson : JsonText Bytes where
  toVec w := 0 :: w.doc
  unwrapDoc
    | _ :: doc => .ok (some doc)
    | [] => .error "EOF while parsing a value"
  readBack doc := doc
  toVec_ne_nil _ := List.cons_ne_nil _ _
  unwrapDoc_toVec _ := rfl

def plainAdapter : Adapter Bytes where
  writable := true
  json := plainJson
  order := ⟨fun m => m.keys, fun _ => List.Perm.refl _⟩

/-- Insert the rows with primary keys 1 and 10, then delete the first. -/
def rowCalls : List (StorageCall Bytes) :=
  [.put (rowsCollection 16384) "n:1" [1] none, .put (rowsCollection 16384) "n:10" [10] none,
    .delete (rowsCollection 16384) "n:1" none]

end GuardianDb.Sql
