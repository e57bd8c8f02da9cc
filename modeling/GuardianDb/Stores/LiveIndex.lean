/-
The key-value store while its document changes under it
(`stores/kv_store/mod.rs`).

`put_impl` and `delete_impl` change the document first and the index after. A
background task pops the document's remote events one by one; for each it reads
all entries, clears the index and inserts what it read, entry by entry. All of
these are separate steps, and any number of calls may be between their two
steps. What is modelled is every interleaving of them, with every failure of the
document and of the blob store.

The index is right about a key as long as what was read, or what a call is about
to write, is what the document holds. `Harms` names the steps that break this.

  * `covered_step` — a step that does not harm a key keeps it covered.
  * `covered_read` — reading the document covers every key.
  * `index_eq_of_quiescent` — at quiescence the index is the document, unless a
    harmful step was not followed by a read.
  * `put_during_refresh` — a put between the read and the clear is lost.
-/
import GuardianDb.Lib.Run
import GuardianDb.Stores.Docs

namespace GuardianDb.Stores

open List hiding getElem?_insert
open Std ExtTreeMap

/-! ### State and steps -/

/-- Where the background task is in `refresh_kv_index`. -/
inductive Refresh where
  /-- Waiting for an event. -/
  | idle
  /-- Called; the document has not been read. -/
  | started
  /-- `get_many` has returned these entries; the index has not been cleared. -/
  | loaded (entries : List (String × Bytes))
  /-- The index was cleared; these entries are still to be inserted. -/
  | filling (rest : List (String × Bytes))
  deriving DecidableEq

/-- A call of the store that has passed its checks. -/
structure Flight where
  request : Request
  /-- The document has been changed, the index has not. -/
  written : Bool
  deriving DecidableEq

/-- A key-value store with its calls in progress and its background task. -/
structure LiveStore (W : WillowDocs) where
  doc : W.Doc
  index : ExtTreeMap String Bytes
  flights : List Flight
  /-- Remote events the background task has not popped. -/
  events : Nat
  refresh : Refresh

/-- One step of a call, of a peer or of the background task. -/
inductive LiveAction (W : WillowDocs) where
  /-- A call of `put_impl` or `delete_impl`, up to its change of the document. -/
  | call (c : Call (String × Bytes))
  /-- `set_bytes` or `del` of the `i`-th call in progress. -/
  | write (i : Nat) (ok : Bool)
  /-- The index update of the `i`-th call in progress. -/
  | settle (i : Nat)
  /-- Peer sync leaves the document as `doc` and raises a remote event. -/
  | remote (doc : W.Doc)
  /-- The task pops a remote event. -/
  | wake
  /-- `get_many`. -/
  | read (ok : Bool)
  /-- `clear_all`. -/
  | clear
  /-- One round of the insertion loop; `ok` is the result of `cat_bytes`. -/
  | fill (ok : Bool)
  /-- The insertion loop ends. -/
  | finish

/-- What a request does to the document. -/
def Request.writeDoc {W : WillowDocs} (doc : W.Doc) : Request → W.Doc
  | .put key stored => W.setBytes doc key stored
  | .delete key => W.del doc key

namespace LiveStore

variable {W : WillowDocs}

/-- A store opened on a document, its index loaded. -/
def opened (doc : W.Doc) : LiveStore W := ⟨doc, refreshIndex W doc, [], 0, .idle⟩

/-- The checks at the start of a call; `delete_impl` looks its key up in the
index. -/
def accept (st : KeyValueStore) (s : LiveStore W) (c : Call (String × Bytes)) : LiveStore W :=
  match st.request c with
  | none => s
  | some (.delete key) =>
      if key ∈ s.index then { s with flights := s.flights ++ [⟨.delete key, false⟩] } else s
  | some r => { s with flights := s.flights ++ [⟨r, false⟩] }

def step (st : KeyValueStore) (s : LiveStore W) : LiveAction W → Option (LiveStore W)
  | .call c => some (s.accept st c)
  | .write i ok =>
      match s.flights[i]? with
      | some ⟨r, false⟩ =>
          if ok then
            some { s with doc := r.writeDoc s.doc, flights := s.flights.set i ⟨r, true⟩ }
          else some { s with flights := s.flights.eraseIdx i }
      | _ => none
  | .settle i =>
      match s.flights[i]? with
      | some ⟨r, true⟩ =>
          some { s with index := r.apply s.index, flights := s.flights.eraseIdx i }
      | _ => none
  | .remote doc => some { s with doc := doc, events := s.events + 1 }
  | .wake =>
      match s.refresh, s.events with
      | .idle, n + 1 => some { s with events := n, refresh := .started }
      | _, _ => none
  | .read ok =>
      match s.refresh with
      | .started => some { s with refresh := if ok then .loaded (W.getMany s.doc) else .idle }
      | _ => none
  | .clear =>
      match s.refresh with
      | .loaded entries => some { s with index := ∅, refresh := .filling entries }
      | _ => none
  | .fill ok =>
      match s.refresh with
      | .filling (e :: rest) =>
          -- a deletion marker is skipped before its content is asked for
          if e.2 ≠ [] ∧ ok then
            some { s with index := s.index.insert e.1 e.2, refresh := .filling rest }
          else some { s with refresh := .filling rest }
      | _ => none
  | .finish =>
      match s.refresh with
      | .filling [] => some { s with refresh := .idle }
      | _ => none

/-- No call is in progress and no refresh is running or pending. -/
def Quiescent (s : LiveStore W) : Prop := s.flights = [] ∧ s.events = 0 ∧ s.refresh = .idle

instance : DecidablePred (Quiescent (W := W)) := fun s =>
  inferInstanceAs (Decidable (s.flights = [] ∧ s.events = 0 ∧ s.refresh = .idle))

def contents (s : LiveStore W) : ExtTreeMap String Bytes := refreshIndex W s.doc

/-! ### Harmful steps -/

/-- The entries a refresh has read and not inserted. -/
def entries (s : LiveStore W) : List (String × Bytes) :=
  match s.refresh with
  | .loaded entries => entries
  | .filling rest => rest
  | _ => []

/-- The running refresh will decide what the index holds at `key`. -/
def Awaits (s : LiveStore W) (key : String) : Prop :=
  match s.refresh with
  | .loaded _ => True
  | .filling rest => ∃ content, (key, content) ∈ rest ∧ content ≠ []
  | _ => False

/-- A call on `key` is between its two steps. -/
def InFlight (s : LiveStore W) (key : String) : Prop :=
  ∃ f ∈ s.flights, f.written = true ∧ f.request.key = key

/-- Replacing the document by `doc` changes the value of `key`. -/
def Changes (s : LiveStore W) (doc : W.Doc) (key : String) : Prop :=
  (refreshIndex W doc)[key]? ≠ s.contents[key]?

/-- The steps after which the index may stay wrong about `key`:
* the value of `key` in the document changes after a refresh has read it;
* it changes without a call on `key` that will update the index, as when a peer
  changes it or a proper prefix of `key` is deleted;
* a call updates the index with a value the document no longer has;
* the content of an entry that was read cannot be fetched. -/
def Harms (s : LiveStore W) (a : LiveAction W) (key : String) : Prop :=
  match a with
  | .write i true => ∃ r, s.flights[i]? = some ⟨r, false⟩ ∧ s.Changes (r.writeDoc s.doc) key ∧
      (s.Awaits key ∨ r.key ≠ key ∧ ¬ s.InFlight key)
  | .remote doc => s.Changes doc key ∧ (s.Awaits key ∨ ¬ s.InFlight key)
  | .settle i => ∃ r, s.flights[i]? = some ⟨r, true⟩ ∧ r.key = key ∧ ¬ s.Awaits key ∧
      (r.apply s.index)[key]? ≠ s.contents[key]?
  | .fill false => ∃ content rest, s.refresh = .filling ((key, content) :: rest) ∧
      content ≠ [] ∧ ¬ s.InFlight key ∧ s.index[key]? ≠ some content
  | _ => False

/-- What keeps the index right about `key`: the entries read agree with the
document, or a call is about to update the index, or the index agrees. -/
structure Covered (s : LiveStore W) (key : String) : Prop where
  read : s.Awaits key → ∀ content,
    (key, content) ∈ s.entries ∧ content ≠ [] ↔ s.contents[key]? = some content
  settled : ¬ s.Awaits key → s.InFlight key ∨ s.index[key]? = s.contents[key]?

/-- A refresh read at most one entry for every key. -/
def EntriesDistinct (s : LiveStore W) : Prop := (s.entries.map (·.1)).Nodup

/-! ### What a step preserves -/

variable {s : LiveStore W} {i : Nat} {key : String}

theorem inFlight_of_mem_eraseIdx {f : Flight} (hf : s.flights[i]? = some f)
    (hne : f.written = true → f.request.key ≠ key) (h : s.InFlight key) :
    ∃ g ∈ s.flights.eraseIdx i, g.written = true ∧ g.request.key = key := by
  obtain ⟨g, hg, hwritten, hkey⟩ := h
  refine ⟨g, ?_, hwritten, hkey⟩
  obtain ⟨j, hj⟩ := mem_iff_getElem?.mp hg
  refine mem_eraseIdx_iff_getElem?.mpr ⟨j, ?_, hj⟩
  rintro rfl
  cases hf.symm.trans hj
  exact hne hwritten hkey

theorem flights_accept (st : KeyValueStore) (s : LiveStore W) (c : Call (String × Bytes)) :
    ∃ new : List Flight, s.accept st c = { s with flights := s.flights ++ new } := by
  unfold accept
  split
  · exact ⟨[], by simp⟩
  · split
    · exact ⟨_, rfl⟩
    · exact ⟨[], by simp⟩
  · exact ⟨_, rfl⟩

section
variable {flights : List Flight} (h : s.Covered key)
  (hkeep : s.InFlight key → ∃ f ∈ flights, f.written = true ∧ f.request.key = key)
include h hkeep

/-- Changing only the calls in progress keeps a key covered if none of its calls
is dropped. -/
theorem Covered.of_flights : Covered { s with flights := flights } key :=
  ⟨h.read, fun hno => (h.settled hno).imp_left hkeep⟩

/-- Changing the document keeps a key covered unless its value changes and the
index will not learn it. -/
theorem Covered.of_doc {doc : W.Doc} {events : Nat}
    (hchange : s.Changes doc key → ¬ s.Awaits key ∧
      ∃ f ∈ flights, f.written = true ∧ f.request.key = key) :
    Covered { s with doc := doc, flights := flights, events := events } key := by
  by_cases hch : s.Changes doc key
  · obtain ⟨hno, hfly⟩ := hchange hch
    exact ⟨fun hyes => absurd hyes hno, fun _ => .inl hfly⟩
  · have hsame : (refreshIndex W doc)[key]? = s.contents[key]? := not_not.mp hch
    refine ⟨fun hyes content => ?_, fun hno => ?_⟩
    · refine (h.read hyes content).trans ?_
      exact ⟨fun hc => hsame.trans hc, fun hc => hsame.symm.trans hc⟩
    · exact (h.settled hno).imp hkeep fun hidx => hidx.trans hsame.symm

end

variable {st : KeyValueStore} {s' : LiveStore W}

theorem covered_write {ok : Bool} (hstep : s.step st (.write i ok) = some s') (h : s.Covered key)
    (hsafe : ¬ s.Harms (.write i ok) key) : s'.Covered key := by
  rw [step] at hstep
  split at hstep
  · rename_i r hr
    cases ok with
    | false =>
      cases hstep
      exact h.of_flights (inFlight_of_mem_eraseIdx hr (by simp))
    | true =>
      cases hstep
      have hlt : i < s.flights.length := (List.getElem?_eq_some_iff.mp hr).1
      have hkeep : s.InFlight key →
          ∃ f ∈ s.flights.set i ⟨r, true⟩, f.written = true ∧ f.request.key = key := by
        rintro ⟨g, hg, hwritten, hkey⟩
        obtain ⟨j, hj⟩ := mem_iff_getElem?.mp hg
        refine ⟨g, mem_iff_getElem?.mpr ⟨j, ?_⟩, hwritten, hkey⟩
        rw [List.getElem?_set_ne, hj]
        rintro rfl
        cases hr.symm.trans hj
        cases hwritten
      refine h.of_doc hkeep fun hchange => ?_
      have hquiet : ¬ (s.Awaits key ∨ r.key ≠ key ∧ ¬ s.InFlight key) :=
        fun hbad => hsafe ⟨r, hr, hchange, hbad⟩
      rw [not_or] at hquiet
      refine ⟨hquiet.1, ?_⟩
      by_cases hkey : r.key = key
      · exact ⟨⟨r, true⟩, mem_set hlt _, rfl, hkey⟩
      · exact hkeep (not_not.mp fun hno => hquiet.2 ⟨hkey, hno⟩)
  · cases hstep

theorem covered_settle (hstep : s.step st (.settle i) = some s') (h : s.Covered key)
    (hsafe : ¬ s.Harms (.settle i) key) : s'.Covered key := by
  rw [step] at hstep
  split at hstep
  · rename_i r hr
    cases hstep
    refine ⟨h.read, fun hno => ?_⟩
    by_cases hkey : r.key = key
    · exact .inr (not_not.mp fun hstale => hsafe ⟨r, hr, hkey, hno, hstale⟩)
    · refine (h.settled hno).imp (inFlight_of_mem_eraseIdx hr fun _ => hkey) fun hidx => ?_
      exact (getElem?_apply_of_ne hkey).trans hidx
  · cases hstep

theorem covered_clear (hstep : s.step st .clear = some s') (h : s.Covered key) :
    s'.Covered key := by
  rw [step] at hstep
  split at hstep
  · rename_i es hrefresh
    cases hstep
    have hread := h.read (by simp [Awaits, hrefresh])
    simp only [entries, hrefresh] at hread
    refine ⟨fun _ => hread, fun hno => .inr ?_⟩
    -- no live entry was read for the key, so the document has none
    refine (getElem?_empty).trans (Option.eq_none_iff_forall_ne_some.mpr ?_).symm
    exact fun content hc => hno ⟨content, (hread content).mpr hc⟩
  · cases hstep

/-- Skipping an entry that has no content, or is for another key. -/
theorem Covered.of_skip (h : s.Covered key) {e : String × Bytes} {rest : List (String × Bytes)}
    {index : ExtTreeMap String Bytes} (hrefresh : s.refresh = .filling (e :: rest))
    (hskip : e.2 ≠ [] → e.1 ≠ key) (hidx : index[key]? = s.index[key]?) :
    Covered { s with index := index, refresh := .filling rest } key := by
  have hlive : ∀ content, (key, content) ∈ e :: rest ∧ content ≠ [] ↔
      (key, content) ∈ rest ∧ content ≠ [] := by grind
  have hread := h.read
  have hsettled := h.settled
  simp only [Awaits, entries, hrefresh, hlive] at hread hsettled
  exact ⟨hread, fun hno => (hsettled hno).imp_right fun hold => hidx.trans hold⟩

theorem covered_fill {ok : Bool} (hstep : s.step st (.fill ok) = some s')
    (hdistinct : s.EntriesDistinct) (h : s.Covered key) (hsafe : ¬ s.Harms (.fill ok) key) :
    s'.Covered key := by
  rw [step] at hstep
  split at hstep
  · rename_i e rest hrefresh
    have hother : ∀ content, (e.1, content) ∉ rest := by simp_all [EntriesDistinct, entries]
    split at hstep
    · rename_i hfetched
      cases hstep
      by_cases hkey : e.1 = key
      · subst hkey
        have hdoc := (h.read (by simp only [Awaits, hrefresh]; exact ⟨e.2, by simp, hfetched.1⟩)
          e.2).mp ⟨by simp [entries, hrefresh], hfetched.1⟩
        refine ⟨fun ⟨content, hmem, _⟩ => absurd hmem (hother content), fun _ => .inr ?_⟩
        exact (by simp : (s.index.insert e.1 e.2)[e.1]? = some e.2).trans hdoc.symm
      · refine h.of_skip hrefresh (fun _ => hkey) ?_
        rw [getElem?_insert, if_neg (by simpa using hkey)]
    · rename_i hmissed
      cases hstep
      by_cases hlive : e.2 ≠ [] ∧ e.1 = key
      · obtain ⟨hne, rfl⟩ := hlive
        have hdoc := (h.read (by simp only [Awaits, hrefresh]; exact ⟨e.2, by simp, hne⟩)
          e.2).mp ⟨by simp [entries, hrefresh], hne⟩
        obtain rfl : ok = false := by simpa [hne] using hmissed
        refine ⟨fun ⟨content, hmem, _⟩ => absurd hmem (hother content), fun _ => ?_⟩
        by_contra hbad
        rw [not_or] at hbad
        exact hsafe ⟨e.2, rest, hrefresh, hne, hbad.1, fun hidx => hbad.2 (hidx.trans hdoc.symm)⟩
      · exact h.of_skip hrefresh (fun hne hkey => hlive ⟨hne, hkey⟩) rfl
  · cases hstep

/-- **Reading the document covers every key.** -/
theorem covered_read (hstep : s.step st (.read true) = some s') : s'.Covered key := by
  rw [step] at hstep
  split at hstep
  · cases hstep
    exact ⟨fun _ content => (getElem?_refreshIndex W s.doc key content).symm,
      fun hno => absurd trivial hno⟩
  · cases hstep

/-- **A step that does not harm a key keeps it covered.** -/
theorem covered_step {a : LiveAction W} (hstep : s.step st a = some s')
    (hdistinct : s.EntriesDistinct) (h : s.Covered key) (hsafe : ¬ s.Harms a key) :
    s'.Covered key := by
  cases a with
  | call c =>
    cases hstep
    obtain ⟨new, hnew⟩ := s.flights_accept st c
    rw [hnew]
    exact h.of_flights fun ⟨f, hf, hrest⟩ => ⟨f, mem_append_left new hf, hrest⟩
  | write i ok => exact covered_write hstep h hsafe
  | settle i => exact covered_settle hstep h hsafe
  | remote doc =>
    cases hstep
    refine h.of_doc id fun hchange => ?_
    have hquiet : ¬ (s.Awaits key ∨ ¬ s.InFlight key) := fun hbad => hsafe ⟨hchange, hbad⟩
    rw [not_or, not_not] at hquiet
    exact hquiet
  | wake =>
    rw [step] at hstep
    split at hstep
    · rename_i n hrefresh hevents
      cases hstep
      exact ⟨False.elim, fun _ => h.settled (by simp [Awaits, hrefresh])⟩
    · cases hstep
  | read ok =>
    cases ok with
    | true => exact covered_read hstep
    | false =>
      rw [step] at hstep
      split at hstep
      · rename_i hrefresh
        cases hstep
        exact ⟨False.elim, fun _ => h.settled (by simp [Awaits, hrefresh])⟩
      · cases hstep
  | clear => exact covered_clear hstep h
  | fill ok => exact covered_fill hstep hdistinct h hsafe
  | finish =>
    rw [step] at hstep
    split at hstep
    · rename_i hrefresh
      cases hstep
      exact ⟨False.elim, fun _ => h.settled (by simp [Awaits, hrefresh])⟩
    · cases hstep

theorem entriesDistinct_step {a : LiveAction W} (hstep : s.step st a = some s')
    (h : s.EntriesDistinct) : s'.EntriesDistinct := by
  unfold EntriesDistinct at h ⊢
  cases a with
  | call c =>
    cases hstep
    obtain ⟨new, hnew⟩ := s.flights_accept st c
    rw [hnew]
    exact h
  | remote doc =>
    cases hstep
    exact h
  | write i ok =>
    rw [step] at hstep
    split at hstep
    · split at hstep <;> obtain rfl := Option.some.inj hstep <;> exact h
    · cases hstep
  | settle i =>
    rw [step] at hstep
    split at hstep
    · cases hstep
      exact h
    · cases hstep
  | wake | finish =>
    rw [step] at hstep
    split at hstep
    · cases hstep
      exact nodup_nil
    · cases hstep
  | read ok =>
    rw [step] at hstep
    split at hstep
    · cases hstep
      cases ok with
      | true => exact W.getMany_keys s.doc
      | false => exact nodup_nil
    · cases hstep
  | clear => grind [step, entries]
  | fill ok =>
    rw [step] at hstep
    split at hstep
    · grind [entries, nodup_cons]
    · cases hstep

/-! ### Quiescence -/

/-- Some step of the run harmed `key` and the document was not read after it. -/
def Exposed (st : KeyValueStore) (doc : W.Doc) (acts : List (LiveAction W)) (key : String) : Prop :=
  Run.owes (step st) Harms (fun _ a => a = .read true) key False (opened doc) acts

/-- **At quiescence the index is the document**, for every interleaving of calls,
remote changes and refreshes, every failure of the document and of the blob
store, in which every harmful step is followed by a read of the document. -/
theorem index_eq_of_quiescent (st : KeyValueStore) (doc : W.Doc) (acts : List (LiveAction W))
    (s : LiveStore W) (hrun : Run.run (step st) (opened doc) acts = some s)
    (hquiet : s.Quiescent) (hsafe : ∀ key, ¬ Exposed st doc acts key) :
    s.index = s.contents := by
  refine ext_getElem? fun key => ?_
  have hopened : (opened doc).EntriesDistinct := nodup_nil
  have hloaded : (opened doc).Covered key := ⟨False.elim, fun _ => .inr rfl⟩
  have hreads : ∀ (t : LiveStore W) (a : LiveAction W) (t' : LiveStore W) (k : String),
      t.step st a = some t' → t.EntriesDistinct → a = .read true → t'.Covered k := by
    rintro t _ t' k hstep - rfl
    exact covered_read hstep
  have hcovered : s.Covered key :=
    Run.run_of_not_owes EntriesDistinct Covered (fun _ _ _ => entriesDistinct_step)
      (fun _ _ _ _ => covered_step) hreads hopened (fun _ => hloaded) hrun (hsafe key)
  obtain ⟨hflights, -, hidle⟩ := hquiet
  rcases hcovered.settled (by simp [Awaits, hidle]) with ⟨f, hf, -⟩ | hidx
  · rw [hflights] at hf
    cases hf
  · exact hidx

/-- A peer writes while a put is between its two steps; the refresh follows. -/
def peerWrite : List (LiveAction plainDocs) :=
  [.call (.put ("a", [1])), .write 0 true,
    .remote (plainDocs.setBytes (plainDocs.setBytes plainDocs.create "a" [1]) "b" [2]),
    .settle 0, .wake] ++ .read true :: [.clear, .fill true, .fill true, .finish]

theorem index_eq_peerWrite :
    ∃ s ∈ Run.run (step ⟨true, identityCodec⟩) (opened plainDocs.create) peerWrite,
      s.Quiescent ∧ s.index = s.contents := by
  have hruns : ∃ s ∈ Run.run (step ⟨true, identityCodec⟩) (opened plainDocs.create) peerWrite,
      s.Quiescent := by
    decide +kernel
  obtain ⟨s, hrun, hquiet⟩ := hruns
  refine ⟨s, hrun, hquiet, index_eq_of_quiescent _ _ _ s hrun hquiet fun key => ?_⟩
  apply Run.not_owes_of_repair
  · exact fun _ => rfl
  · intro t b hb
    simp only [mem_cons, not_mem_nil, or_false] at hb
    rcases hb with rfl | rfl | rfl | rfl <;> exact id

/-- The refresh of a sync event has read the empty document when `a` is put. -/
def putDuringRefresh : List (LiveAction plainDocs) :=
  [.remote plainDocs.create, .wake, .read true, .call (.put ("a", [1])), .write 0 true, .settle 0,
    .clear, .finish]

/-- **A put between the read and the clear is lost from the index** and stays in
the document. -/
theorem put_during_refresh :
    ∃ s ∈ Run.run (step ⟨true, identityCodec⟩) (opened plainDocs.create) putDuringRefresh,
      s.Quiescent ∧ s.index["a"]? = none ∧ s.contents["a"]? = some [1] := by
  decide +kernel

end LiveStore

end GuardianDb.Stores
