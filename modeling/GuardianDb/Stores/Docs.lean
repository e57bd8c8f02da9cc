/-
The key-value store and the document store over a replicated document
(`stores/kv_store/mod.rs`, `stores/document_store/mod.rs`,
`p2p/network/core/docs.rs`).

Both stores write to an iroh-docs document and mirror it in a map. The document
is the parameter `WillowDocs`, known by what its calls are documented to do: in
particular `del` takes a prefix. A store keeps the key of one call and hands it
to `del`, so deleting a key also deletes, in the document only, every longer key.

  * `KeyValueStore.step_eq`, `DocumentStore.step_eq` — every call of a store has
    no effect, or is one write or one deletion.
  * `index_performAll` — the in-memory index is the map the calls describe.
  * `refreshIndex_performAll` — the rebuilt index lacks exactly the lost keys.
  * `stores_mirror_iff` — both agree as long as nothing is lost.
-/
import GuardianDb.Lib.OrderedMap
import GuardianDb.Lib.Run
import Mathlib.Data.List.Induction
import Std.Data.ExtTreeMap

namespace GuardianDb.Stores

open Std ExtTreeMap

/-! ### The replicated document -/

abbrev Bytes := List UInt8

def utf8 (key : String) : Bytes := key.toUTF8.data.toList

/-- `key` starts with `stem`, byte for byte. -/
def StartsWith (stem key : String) : Prop := utf8 stem <+: utf8 key

instance : DecidableRel StartsWith := fun stem key =>
  inferInstanceAs (Decidable (utf8 stem <+: utf8 key))

theorem StartsWith.refl (key : String) : StartsWith key key := List.prefix_refl _

theorem StartsWith.trans {a b c : String} (hab : StartsWith a b) (hbc : StartsWith b c) :
    StartsWith a c :=
  List.IsPrefix.trans hab hbc

/-- UTF-8 keeps the characters apart: a prefix of the bytes of a key is a prefix
of its characters. -/
theorem startsWith_iff {stem key : String} :
    StartsWith stem key ↔ stem.toList <+: key.toList := by
  constructor
  · rintro ⟨rest, hrest⟩
    apply List.isPrefix_of_utf8Encode_append_eq_utf8Encode ⟨rest.toArray⟩
    rw [String.utf8Encode_toList, String.utf8Encode_toList]
    apply ByteArray.ext
    apply Array.toList_inj.mp
    exact hrest
  · rintro ⟨rest, hrest⟩
    refine ⟨(rest.utf8Encode).data.toList, ?_⟩
    unfold utf8
    rw [String.toUTF8_eq_toByteArray, String.toUTF8_eq_toByteArray, ← String.utf8Encode_toList,
      ← String.utf8Encode_toList, ← hrest, List.utf8Encode_append, ByteArray.data_append,
      Array.toList_append]

/-- An iroh-docs document as one author writes it. Keys are byte strings; the
stores only write the bytes of a string. `getMany` is the query for the latest
entry of every key, with the content its hash refers to: empty for a deletion
marker. -/
structure WillowDocs where
  Doc : Type
  create : Doc
  setBytes : Doc → String → Bytes → Doc
  del : Doc → String → Doc
  getMany : Doc → List (String × Bytes)
  /-- A new document has no entries. -/
  getMany_create : getMany create = []
  /-- One latest entry per key. -/
  getMany_keys : ∀ d, ((getMany d).map (·.1)).Nodup
  /-- `set_bytes` sets the value of a key. -/
  mem_setBytes : ∀ d k v k' c, c ≠ [] →
    ((k', c) ∈ getMany (setBytes d k v) ↔ if k' = k then c = v else (k', c) ∈ getMany d)
  /-- `del` removes every entry whose key starts with the given one. -/
  mem_del : ∀ d stem k c, c ≠ [] →
    ((k, c) ∈ getMany (del d stem) ↔ ¬ StartsWith stem k ∧ (k, c) ∈ getMany d)

/-! ### What both stores share -/

/-- `GuardianError`, as the stores raise it. -/
inductive StoreError where
  | store (message : String)
  | notFound (message : String)
  | other (message : String)
  deriving DecidableEq, Repr

/-- `Operation`: what a successful call reports. -/
structure Operation where
  key : Option String
  op : String
  value : Option Bytes
  deriving DecidableEq, Repr

/-- `PayloadCodec::encode`. A payload is never encoded to nothing: an entry
without content would be a deletion marker. -/
structure PayloadCodec where
  encode : String → Bytes → Except StoreError Bytes
  encode_ne_nil : ∀ key payload stored, payload ≠ [] → encode key payload = .ok stored →
    stored ≠ []

/-- `IdentityCodec`, the default. -/
def identityCodec : PayloadCodec where
  encode _ payload := .ok payload
  encode_ne_nil := by
    intro _ payload stored hne h
    obtain rfl := Except.ok.inj h
    exact hne

/-- The mutable part of a store: the document and its in-memory index. -/
structure Mirror (W : WillowDocs) where
  index : ExtTreeMap String Bytes
  doc : W.Doc

/-- A store on a new document. -/
def Mirror.create (W : WillowDocs) : Mirror W := ⟨∅, W.create⟩

/-- `refresh_kv_index` and `refresh_doc_index`: clear the index, then insert the
latest entry of every key unless it is a deletion marker. -/
def refreshIndex (W : WillowDocs) (doc : W.Doc) : ExtTreeMap String Bytes :=
  (W.getMany doc).foldl (fun index e => if e.2 = [] then index else index.insert e.1 e.2) ∅

def ensureWritable (writable : Bool) : Except StoreError Unit :=
  if writable then .ok ()
  else .error (.store "store is read-only: this replica cannot originate writes")

/-- Write the stored form of a value to the document, then to the index. -/
def Mirror.write {W : WillowDocs} (s : Mirror W) (key : String) (stored : Bytes) : Mirror W :=
  ⟨s.index.insert key stored, W.setBytes s.doc key stored⟩

/-- Delete from the document, then from the index. -/
def Mirror.erase {W : WillowDocs} (s : Mirror W) (key : String) : Mirror W :=
  ⟨s.index.erase key, W.del s.doc key⟩

/-! ### The key-value store -/

/-- The fixed part of a key-value store. -/
structure KeyValueStore where
  writable : Bool
  codec : PayloadCodec

namespace KeyValueStore

variable {W : WillowDocs}

def putImpl (st : KeyValueStore) (s : Mirror W) (key : String) (value : Bytes) :
    Except StoreError (Operation × Mirror W) := do
  ensureWritable st.writable
  if key = "" then throw (.store "The key cannot be empty")
  if value = [] then throw (.store "The value cannot be empty")
  let stored ← st.codec.encode key value
  return (⟨some key, "PUT", some value⟩, s.write key stored)

def deleteImpl (st : KeyValueStore) (s : Mirror W) (key : String) :
    Except StoreError (Operation × Mirror W) := do
  ensureWritable st.writable
  if key = "" then throw (.store "The key cannot be empty")
  if key ∉ s.index then throw (.store s!"Key '{key}' not found")
  return (⟨some key, "DEL", none⟩, s.erase key)

end KeyValueStore

/-! ### The document store -/

/-- The fixed part of a document store for documents of type `δ`. A marshalled
document is never empty. -/
structure DocumentStore (δ : Type) where
  writable : Bool
  codec : PayloadCodec
  keyExtractor : δ → Except StoreError String
  marshal : δ → Except StoreError Bytes
  marshal_ne_nil : ∀ document data, marshal document = .ok data → data ≠ []

namespace DocumentStore

variable {W : WillowDocs} {δ : Type}

def put (st : DocumentStore δ) (s : Mirror W) (document : δ) :
    Except StoreError (Operation × Mirror W) := do
  ensureWritable st.writable
  let key ← st.keyExtractor document
  let data ← st.marshal document
  let stored ← st.codec.encode key data
  return (⟨some key, "PUT", some data⟩, s.write key stored)

def delete (st : DocumentStore δ) (s : Mirror W) (documentId : String) :
    Except StoreError (Operation × Mirror W) := do
  ensureWritable st.writable
  if documentId ∉ s.index then
    throw (.notFound s!"No entry with key '{documentId}' in the database")
  return (⟨some documentId, "DEL", none⟩, s.erase documentId)

end DocumentStore

/-! ### Runs of a store -/

/-- A call of a store that writes values given as `π`. -/
inductive Call (π : Type) where
  | put (payload : π)
  | delete (key : String)

/-- The state after a call; a failed call leaves it as it was. -/
def settle {W : WillowDocs} (s : Mirror W) :
    Except StoreError (Operation × Mirror W) → Mirror W
  | .ok (_, s') => s'
  | .error _ => s

def KeyValueStore.step {W : WillowDocs} (st : KeyValueStore) (s : Mirror W) :
    Call (String × Bytes) → Mirror W
  | .put (key, value) => settle s (st.putImpl s key value)
  | .delete key => settle s (st.deleteImpl s key)

def DocumentStore.step {W : WillowDocs} {δ : Type} (st : DocumentStore δ) (s : Mirror W) :
    Call δ → Mirror W
  | .put document => settle s (st.put s document)
  | .delete key => settle s (st.delete s key)

/-- What an accepted call asks for. -/
inductive Request where
  | put (key : String) (stored : Bytes)
  | delete (key : String)
  deriving DecidableEq, Repr

/-- What a key-value store makes of a call: nothing when it rejects it whatever
its state is. -/
def KeyValueStore.request (st : KeyValueStore) : Call (String × Bytes) → Option Request
  | .put (key, value) =>
      if st.writable ∧ key ≠ "" ∧ value ≠ [] then
        (st.codec.encode key value).toOption.map (.put key)
      else none
  | .delete key => if st.writable ∧ key ≠ "" then some (.delete key) else none

def DocumentStore.request {δ : Type} (st : DocumentStore δ) : Call δ → Option Request
  | .put document =>
      if st.writable then
        match st.keyExtractor document, st.marshal document with
        | .ok key, .ok data => (st.codec.encode key data).toOption.map (.put key)
        | _, _ => none
      else none
  | .delete key => if st.writable then some (.delete key) else none

/-- The abstract map after a request: exactly the named key changes. -/
def Request.apply (m : ExtTreeMap String Bytes) : Request → ExtTreeMap String Bytes
  | .put key stored => m.insert key stored
  | .delete key => m.erase key

/-- The map of the keys whose last operation was a put, with the value last put. -/
def expected (reqs : List Request) : ExtTreeMap String Bytes := reqs.foldl Request.apply ∅

/-- What a request does to document and index. -/
def Mirror.perform {W : WillowDocs} (s : Mirror W) : Request → Mirror W
  | .put key stored => s.write key stored
  | .delete key => if key ∈ s.index then s.erase key else s

def Request.key : Request → String
  | .put key _ => key
  | .delete key => key

/-! ### Calls are requests -/

variable {W : WillowDocs}

theorem KeyValueStore.step_eq (st : KeyValueStore) (s : Mirror W) (c : Call (String × Bytes)) :
    st.step s c = (st.request c).elim s s.perform := by
  cases c with
  | put payload =>
    obtain ⟨key, value⟩ := payload
    simp only [step, request, putImpl, ensureWritable]
    by_cases hw : st.writable = true
    · by_cases hk : key = ""
      · simp [hk, hw, settle, bind, Except.bind, throw, throwThe, MonadExceptOf.throw]
      · by_cases hv : value = []
        · simp [hk, hv, hw, settle, bind, Except.bind, throw, throwThe, MonadExceptOf.throw]
        · cases st.codec.encode key value <;>
            simp [hk, hv, hw, settle, bind, Except.bind, pure, Except.pure,
              Except.toOption, Mirror.perform]
    · simp [hw, settle, bind, Except.bind]
  | delete key =>
    simp only [step, request, deleteImpl, ensureWritable]
    by_cases hw : st.writable = true
    · by_cases hk : key = ""
      · simp [hk, hw, settle, bind, Except.bind, throw, throwThe, MonadExceptOf.throw]
      · by_cases hmem : key ∈ s.index <;>
          simp [hk, hw, hmem, settle, bind, Except.bind, pure, Except.pure, throw, throwThe,
            MonadExceptOf.throw, Mirror.perform]
    · simp [hw, settle, bind, Except.bind]

theorem DocumentStore.step_eq {δ : Type} (st : DocumentStore δ) (s : Mirror W) (c : Call δ) :
    st.step s c = (st.request c).elim s s.perform := by
  cases c with
  | put document =>
    simp only [step, request, put, ensureWritable]
    by_cases hw : st.writable = true
    · cases st.keyExtractor document with
      | error e => simp [hw, settle, bind, Except.bind]
      | ok key =>
        cases st.marshal document with
        | error e => simp [hw, settle, bind, Except.bind]
        | ok data =>
          cases he : st.codec.encode key data <;>
            simp [hw, he, settle, bind, Except.bind, pure, Except.pure,
              Except.toOption, Mirror.perform]
    · simp [hw, settle, bind, Except.bind]
  | delete key =>
    simp only [step, request, delete, ensureWritable]
    by_cases hw : st.writable = true
    · by_cases hmem : key ∈ s.index <;>
        simp [hw, hmem, settle, bind, Except.bind, pure, Except.pure, throw, throwThe,
          MonadExceptOf.throw, Mirror.perform]
    · simp [hw, settle, bind, Except.bind]

/-- No request writes an empty stored form. -/
def Substantial (reqs : List Request) : Prop := ∀ key stored, .put key stored ∈ reqs → stored ≠ []

theorem toOption_map_put {e : Except StoreError Bytes} {key : String} {r : Request}
    (h : e.toOption.map (Request.put key) = some r) : ∃ stored, e = .ok stored ∧ r = .put key stored := by
  cases e with
  | error e => simp [Except.toOption] at h
  | ok stored => exact ⟨stored, rfl, by simpa [Except.toOption] using h.symm⟩

theorem KeyValueStore.substantial (st : KeyValueStore) (calls : List (Call (String × Bytes))) :
    Substantial (calls.filterMap st.request) := by
  intro key stored hmem
  obtain ⟨c, -, hc⟩ := List.mem_filterMap.mp hmem
  cases c with
  | delete k => simp [request] at hc
  | put payload =>
    simp only [request] at hc
    split at hc
    · rename_i hok
      obtain ⟨stored', henc, heq⟩ := toOption_map_put hc
      obtain ⟨rfl, rfl⟩ := Request.put.inj heq
      exact st.codec.encode_ne_nil _ _ _ hok.2.2 henc
    · exact absurd hc (by simp)

theorem DocumentStore.substantial {δ : Type} (st : DocumentStore δ) (calls : List (Call δ)) :
    Substantial (calls.filterMap st.request) := by
  intro key stored hmem
  obtain ⟨c, -, hc⟩ := List.mem_filterMap.mp hmem
  cases c with
  | delete k => simp [request] at hc
  | put document =>
    simp only [request] at hc
    split at hc
    · split at hc
      · rename_i hm
        obtain ⟨stored', henc, heq⟩ := toOption_map_put hc
        obtain ⟨rfl, rfl⟩ := Request.put.inj heq
        exact st.codec.encode_ne_nil _ _ _ (st.marshal_ne_nil _ _ hm) henc
      · exact absurd hc (by simp)
    · exact absurd hc (by simp)

/-! ### The index is the expected map -/

section
variable {W : WillowDocs} {reqs : List Request}

/-- A store after the requests `reqs`. -/
def performAll (W : WillowDocs) (reqs : List Request) : Mirror W :=
  reqs.foldl Mirror.perform (Mirror.create W)

theorem expected_concat (reqs : List Request) (r : Request) :
    expected (reqs ++ [r]) = r.apply (expected reqs) := by
  simp [expected]

theorem performAll_concat (W : WillowDocs) (reqs : List Request) (r : Request) :
    performAll W (reqs ++ [r]) = (performAll W reqs).perform r := by
  simp [performAll]

variable {key : String}

/-- **The in-memory index is exact**: it holds the keys last put, with their last
values, and nothing else. -/
theorem index_performAll (W : WillowDocs) (reqs : List Request) :
    (performAll W reqs).index = expected reqs := by
  induction reqs using List.reverseRecOn with
  | nil => rfl
  | append_singleton reqs r ih =>
    rw [performAll_concat, expected_concat, ← ih]
    cases r with
    | put key stored => rfl
    | delete key => grind [Mirror.perform, Mirror.erase, Request.apply, OrderedMap.erase_of_notMem]

/-! ### The document loses longer keys -/

/-- `key` was live when a proper prefix of it was deleted, and no later request
names it. -/
def Lost (reqs : List Request) (key : String) : Prop :=
  ∃ before stem after, reqs = before ++ .delete stem :: after ∧ stem ∈ expected before ∧
    key ≠ stem ∧ StartsWith stem key ∧ key ∈ expected before ∧ ∀ r ∈ after, r.key ≠ key

theorem lost_iff : Lost reqs key ↔ ∃ before b after, reqs = before ++ b :: after ∧
    (∃ stem, b = .delete stem ∧ stem ∈ expected before ∧ key ≠ stem ∧ StartsWith stem key ∧
      key ∈ expected before) ∧ ∀ r ∈ after, r.key ≠ key := by
  constructor
  · rintro ⟨before, stem, after, heq, hlive, hne, hstart, hkey, hafter⟩
    exact ⟨before, _, after, heq, ⟨stem, rfl, hlive, hne, hstart, hkey⟩, hafter⟩
  · rintro ⟨before, b, after, heq, ⟨stem, rfl, hlive, hne, hstart, hkey⟩, hafter⟩
    exact ⟨before, stem, after, heq, hlive, hne, hstart, hkey, hafter⟩

/-- A request leaves every key it does not name. -/
theorem getElem?_apply_of_ne {m : ExtTreeMap String Bytes} {r : Request} (h : r.key ≠ key) :
    (r.apply m)[key]? = m[key]? := by
  cases r with
  | put k v => exact (OrderedMap.get_insert m k v key).trans (if_neg h.symm)
  | delete k => exact (OrderedMap.get_erase m k key).trans (if_neg h.symm)

theorem mem_expected_of_lost (h : Lost reqs key) : key ∈ expected reqs := by
  obtain ⟨before, stem, after, rfl, -, hne, -, hkey, hafter⟩ := h
  have hrest : ∀ (rs : List Request) (m : ExtTreeMap String Bytes),
      (∀ r ∈ rs, r.key ≠ key) → (rs.foldl Request.apply m)[key]? = m[key]? := by
    intro rs
    induction rs with
    | nil => intros; rfl
    | cons r rs ih => simp_all [List.foldl_cons, getElem?_apply_of_ne]
  have hget : (expected (before ++ .delete stem :: after))[key]? = (expected before)[key]? := by
    have hsplit : expected (before ++ .delete stem :: after) =
        (Request.delete stem :: after).foldl Request.apply (expected before) := by
      simp [expected]
    rw [hsplit]
    refine hrest _ _ fun r hr => ?_
    rcases List.mem_cons.mp hr with rfl | hr
    · exact Ne.symm hne
    · exact hafter r hr
  rw [← isSome_getElem?_iff_mem] at hkey ⊢
  rwa [hget]

/-- **What the document keeps**: the expected entries, except the lost ones. -/
theorem mem_getMany_performAll (W : WillowDocs) :
    ∀ {reqs : List Request}, Substantial reqs → ∀ (key : String) {content : Bytes}, content ≠ [] →
      ((key, content) ∈ W.getMany (performAll W reqs).doc ↔
        (expected reqs)[key]? = some content ∧ ¬ Lost reqs key) := by
  intro reqs
  induction reqs using List.reverseRecOn with
  | nil =>
    simp [performAll, Mirror.create, W.getMany_create, expected]
  | append_singleton reqs r ih =>
    intro hsub key content hne
    have ih' := ih (fun k v h => hsub k v (by simp [h])) key hne
    rw [performAll_concat, expected_concat, lost_iff, Run.since_concat, ← lost_iff]
    cases r with
    | put k v =>
      simp only [Mirror.perform, Mirror.write, W.mem_setBytes _ _ _ _ _ hne, Request.apply,
        getElem?_insert, Request.key]
      by_cases hk : key = k
      · subst hk
        simp [eq_comm]
      · grind
    | delete stem =>
      simp only [Request.apply, getElem?_erase, Request.key]
      by_cases hlive : stem ∈ expected reqs
      · have hidx : stem ∈ (performAll W reqs).index := by rwa [index_performAll]
        simp only [Mirror.perform, hidx, if_true, Mirror.erase, W.mem_del _ _ _ _ hne, ih']
        by_cases hk : key = stem
        · subst hk
          simp [StartsWith.refl]
        · grind
      · have hidx : stem ∉ (performAll W reqs).index := by rwa [index_performAll]
        simp only [Mirror.perform, hidx, if_false, ih']
        by_cases hk : key = stem
        · simp_all
        · grind

/-! ### Rebuilding the index -/

theorem getElem?_refreshIndex (W : WillowDocs) (doc : W.Doc) (key : String) (content : Bytes) :
    (refreshIndex W doc)[key]? = some content ↔
      (key, content) ∈ W.getMany doc ∧ content ≠ [] := by
  have hfilter : refreshIndex W doc = ((W.getMany doc).filter fun e => !(e.2 == [])).foldl
      (fun index e => index.insert e.1 e.2) ∅ := by
    simp only [refreshIndex, List.foldl_filter, Bool.not_eq_true', beq_eq_false_iff_ne, ite_not]
  rw [hfilter, OrderedMap.getElem?_foldl_insert ((W.getMany_keys doc).sublist
    (List.filter_sublist.map _)) (by simp)]
  simp

theorem expected_substantial (hsub : Substantial reqs) :
    ∀ (key : String) (content : Bytes), (expected reqs)[key]? = some content → content ≠ [] := by
  induction reqs using List.reverseRecOn with
  | nil => simp [expected]
  | append_singleton reqs r ih =>
    intro key content h
    have ih' := ih fun k v hkv => hsub k v (by simp [hkv])
    rw [expected_concat] at h
    by_cases hk : r.key = key
    · cases r with
      | put k v =>
        subst hk
        obtain rfl : v = content := by
          simpa [Request.apply, Request.key, getElem?_insert] using h
        exact hsub k v (by simp)
      | delete k =>
        subst hk
        simp [Request.apply, Request.key] at h
    · rw [getElem?_apply_of_ne hk] at h
      exact ih' key content h

/-- **The rebuilt index** holds the expected keys that are not lost. -/
theorem refreshIndex_performAll (W : WillowDocs) (hsub : Substantial reqs) (key : String)
    (content : Bytes) :
    (refreshIndex W (performAll W reqs).doc)[key]? = some content ↔
      (expected reqs)[key]? = some content ∧ ¬ Lost reqs key := by
  rw [getElem?_refreshIndex]
  constructor
  · exact fun ⟨hmem, hne⟩ => (mem_getMany_performAll W hsub key hne).mp hmem
  · intro h
    have hne := expected_substantial hsub key content h.1
    exact ⟨(mem_getMany_performAll W hsub key hne).mpr h, hne⟩

/-- The index held in memory and the index rebuilt from the document both hold
exactly the keys whose last operation was a put, with the value last put. -/
def Mirrors {W : WillowDocs} (s : Mirror W) (reqs : List Request) : Prop :=
  s.index = expected reqs ∧ refreshIndex W s.doc = expected reqs

theorem mirrors_performAll_iff (W : WillowDocs) (hsub : Substantial reqs) :
    Mirrors (performAll W reqs) reqs ↔ ∀ key, ¬ Lost reqs key := by
  constructor
  · rintro ⟨-, hdoc⟩ key hlost
    obtain ⟨content, hc⟩ := Option.isSome_iff_exists.mp
      (isSome_getElem?_iff_mem.mpr (mem_expected_of_lost hlost))
    have hget := hc
    rw [← hdoc] at hget
    exact ((refreshIndex_performAll W hsub key content).mp hget).2 hlost
  · intro hnone
    refine ⟨index_performAll W reqs, ext_getElem? fun key => Option.ext fun content => ?_⟩
    rw [refreshIndex_performAll W hsub]
    exact ⟨fun h => h.1, fun h => ⟨h, hnone key⟩⟩

end

/-- Running calls performs their requests. -/
theorem foldl_eq_performAll {π : Type} {step : Mirror W → Call π → Mirror W}
    {request : Call π → Option Request} (hstep : ∀ s c, step s c = (request c).elim s s.perform) :
    ∀ (calls : List (Call π)) (s : Mirror W),
      calls.foldl step s = (calls.filterMap request).foldl Mirror.perform s
  | [], _ => rfl
  | c :: calls, s => by
      rw [List.foldl_cons, hstep, foldl_eq_performAll hstep calls]
      cases h : request c <;> simp [h]

/-- A document that does what its calls are documented to do. -/
def plainDocs : WillowDocs where
  Doc := ExtTreeMap String Bytes
  create := ∅
  setBytes d k v := d.insert k v
  del d stem := d.filter fun k _ => ¬ StartsWith stem k
  getMany d := d.toList
  getMany_create := by simp
  getMany_keys d := by
    rw [ExtTreeMap.map_fst_toList_eq_keys]
    exact ExtTreeMap.nodup_keys
  mem_setBytes := by
    intro d k v k' c _
    rw [ExtTreeMap.mem_toList_iff_getElem?_eq_some, ExtTreeMap.mem_toList_iff_getElem?_eq_some,
      ExtTreeMap.getElem?_insert]
    by_cases hk : k' = k
    · subst hk
      simp [eq_comm]
    · have hk' : k ≠ k' := Ne.symm hk
      simp [hk, hk']
  mem_del := by
    intro d stem k c _
    rw [ExtTreeMap.mem_toList_iff_getElem?_eq_some, ExtTreeMap.mem_toList_iff_getElem?_eq_some,
      ExtTreeMap.getElem?_filter']
    simp [Option.filter_eq_some_iff, and_comm]

/-- Two keys, one extending the other; the shorter one is deleted. -/
def userCalls : List (Call (String × Bytes)) :=
  [.put ("user", [1]), .put ("user2", [2]), .delete "user"]

end GuardianDb.Stores
