/-
The auto-embedding service on the change feed (`embedding/service.rs`, `Database::patch_row`).

Commits put whole row documents and announce them; the service takes one change after
another and, for each rule of the table, embeds the text of the announced document and
patches the row as it is by then. A rule is skipped when the announced document carries the
hash of its own text. The two halves of a patch, `get` and `put`, are separate steps, and a
patch is not announced.

The rows are those of one table, whose rules resolve or not as the catalog says (`usable`);
changes of other tables match no rule of it. Embedding backends, the hash of a text and the
encoding of the provenance are parameters.

  * `Tracked.step` — along clean steps, the last embedding still due for a row is that of
    its text, or the row has the embedding of its text.
  * `embeddings_converge` — every row is embedded when the feed is drained.
  * `restored_text_keeps_other_embedding` — a text that is changed and changed back keeps
    the embedding of the change.
-/
import GuardianDb.Lib.Run
import GuardianDb.Sql.Documents

namespace GuardianDb.Embedding

open Std Relational Sql ExtTreeMap List

/-! ### Rules -/

structure ModelSelector where
  name : String
  contentHash : Option String
  deriving DecidableEq, Repr

inductive ExecutionPolicy where
  | localOnly
  | delegated (pinHash allowLocalFallback : Bool)
  deriving DecidableEq, Repr

structure EmbeddingRule where
  schema : String
  table : String
  textColumn : String
  vectorColumn : String
  model : ModelSelector
  policy : ExecutionPolicy
  deriving DecidableEq, Repr

namespace EmbeddingRule

def sourceHashColumn (rule : EmbeddingRule) : String := "_" ++ rule.vectorColumn ++ "_srchash"

/-- `matches`. -/
def matchesTable (rule : EmbeddingRule) (schema table : String) : Bool :=
  rule.schema == schema && rule.table == table

/-- The fields that a patch for the rule writes. -/
def written (rule : EmbeddingRule) : List String :=
  [rule.vectorColumn, rule.sourceHashColumn, "__version"]

theorem vectorColumn_ne_sourceHashColumn (rule : EmbeddingRule) :
    rule.vectorColumn ≠ rule.sourceHashColumn := by
  intro h
  have hlength := congrArg String.length h
  simp only [sourceHashColumn, String.length_append] at hlength
  have : "_".length = 1 := rfl
  have : "_srchash".length = 8 := rfl
  omega

theorem sourceHashColumn_ne_version (rule : EmbeddingRule) :
    rule.sourceHashColumn ≠ "__version" := by
  intro h
  have hlast := congrArg (fun name => name.toList.getLast?) h
  have hsuffix : "_srchash".toList.getLast? = some 'h' := by decide
  simp only [sourceHashColumn, String.toList_append, List.getLast?_append, hsuffix,
    Option.some_or] at hlast
  exact absurd hlast (by decide)

end EmbeddingRule

/-- Where an embedding was made; `EmbeddingProvenance` without the hash. -/
structure Origin where
  model : String
  modelHash : Option String
  executor : String

structure EmbeddingProvenance extends Origin where
  textHash : String

/-- The table, the rules of the Rust API, and what other crates do with texts. -/
structure Env where
  schema : String
  table : String
  rules : List EmbeddingRule
  /-- `resolve_target` finds a dimensioned vector column and the sidecar. -/
  usable : EmbeddingRule → Bool
  /-- The vector of a text, widened to `f64`. -/
  embed : EmbeddingRule → String → List F64
  /-- `text_hash`. -/
  textHash : String → String
  toJsonString : EmbeddingProvenance → String
  parse : String → Option EmbeddingProvenance
  parse_toJsonString : ∀ p, (parse (toJsonString p)).map (·.textHash) = some p.textHash

/-! ### Documents -/

/-- `doc.get(column)`. -/
def fieldAt (doc : Json) (column : String) : Option Json :=
  match doc with
  | .object fields => fields.lookup column
  | _ => none

/-- `doc.get(column).and_then(as_str)`. -/
def textAt (doc : Json) (column : String) : Option String := (fieldAt doc column).bind jsonAsStr

def rowId (doc : Json) : Option String := textAt doc "_id"

/-- The text to embed, if there is any. -/
def sourceText (rule : EmbeddingRule) (doc : Json) : Option String :=
  (textAt doc rule.textColumn).filter (· ≠ "")

/-- The JSON of a text's vector. -/
def vecJson (env : Env) (rule : EmbeddingRule) (text : String) : Json :=
  .array ((env.embed rule text).map Json.ofFloat)

/-- The sidecar of the document records the hash of the text. -/
def upToDate (env : Env) (rule : EmbeddingRule) (doc : Json) (text : String) : Bool :=
  match (textAt doc rule.sourceHashColumn).bind env.parse with
  | some prev => prev.textHash == env.textHash text
  | none => false

/-- The text of the document that the rule does not skip. -/
def needs (env : Env) (rule : EmbeddingRule) (doc : Json) : Option String :=
  (sourceText rule doc).filter fun text => !upToDate env rule doc text

/-- The updates of `embed_and_write`. -/
def updates (env : Env) (rule : EmbeddingRule) (text : String) (origin : Origin) :
    List (String × Json) :=
  [(rule.vectorColumn, vecJson env rule text),
    (rule.sourceHashColumn, .string (env.toJsonString ⟨origin, env.textHash text⟩))]

/-- `patch_row` between its `get` and its `put`. -/
def patchFields (fields updates : List (String × Json)) : List (String × Json) :=
  let fields := updates.foldl (fun fields u => setField fields u.1 u.2) fields
  setField fields "__version" (.number (.int (Int64.ofInt (versionIn fields + 1))))

/-! ### Commits and the service -/

/-- `ChangeEvent`, with the document of an insert or update. -/
inductive Change where
  | upsert (new : Json)
  | delete

/-- A change being processed, with the rules that `process_row` has still to look at. -/
structure Job where
  rowId : String
  doc : Json
  rules : List EmbeddingRule

inductive Stage where
  /-- `run_with` waits for a change. -/
  | idle
  /-- `process_row` at the head of its loop. -/
  | looping (job : Job)
  /-- `compute_embedding` is awaited. -/
  | embedding (job : Job) (rule : EmbeddingRule) (text : String)
  /-- `patch_row` before its `get`. -/
  | patching (job : Job) (rule : EmbeddingRule) (text : String) (origin : Origin)
  /-- `patch_row` before its `put`. -/
  | putting (job : Job) (rule : EmbeddingRule) (text : String) (patched : Json)

/-- The table, the changes announced and not yet received, and the service with the rules in
effect. -/
structure State where
  rows : ExtTreeMap String Json
  feed : List Change
  rules : List EmbeddingRule
  stage : Stage

/-- Steps of the committing sessions and of the service. -/
inductive Act where
  /-- A committed insert or update of a row. -/
  | commit (doc : Json)
  /-- A committed delete. -/
  | delete (rowId : String)
  /-- The timer: the rules of the catalog are read again. -/
  | refresh (catalogRules : List EmbeddingRule)
  /-- The next change is received. -/
  | receive
  /-- The next step of the service; a backend that is asked may fail. -/
  | work (answer : Option Origin)

namespace State

/-- `effective_rules` of the table. -/
def jobFor (env : Env) (s : State) (rowId : String) (doc : Json) : Job :=
  ⟨rowId, doc, s.rules.filter (·.matchesTable env.schema env.table)⟩

/-- The next step of the service in the midst of a change. -/
def work (env : Env) (s : State) (answer : Option Origin) : Option State :=
  match s.stage with
  | .idle => none
  | .looping ⟨_, _, []⟩ => some { s with stage := .idle }
  | .looping ⟨rid, doc, rule :: rules⟩ =>
      match sourceText rule doc with
      | none => some { s with stage := .looping ⟨rid, doc, rules⟩ }
      | some text =>
          if upToDate env rule doc text then some { s with stage := .looping ⟨rid, doc, rules⟩ }
          else if env.usable rule then
            some { s with stage := .embedding ⟨rid, doc, rules⟩ rule text }
          else some { s with stage := .looping ⟨rid, doc, rules⟩ }
  | .embedding job rule text =>
      match answer with
      | none => some { s with stage := .looping job }
      | some origin => some { s with stage := .patching job rule text origin }
  | .patching job rule text origin =>
      match s.rows[job.rowId]? with
      | some (.object fields) =>
          let patched := patchFields fields (updates env rule text origin)
          some { s with stage := .putting job rule text (.object patched) }
      | _ => some { s with stage := .looping job }
  | .putting job _ _ patched =>
      some { s with rows := s.rows.insert job.rowId patched, stage := .looping job }

def step (env : Env) (s : State) : Act → Option State
  | .commit doc =>
      match rowId doc with
      | none => none
      | some rid => some { s with
          rows := s.rows.insert rid doc
          feed := s.feed ++ [.upsert doc] }
  | .delete rid => some { s with rows := s.rows.erase rid, feed := s.feed ++ [.delete] }
  | .refresh catalogRules =>
      match s.stage with
      | .idle => some { s with rules := env.rules ++ catalogRules }
      | _ => none
  | .receive =>
      match s.stage, s.feed with
      | .idle, .delete :: feed => some { s with feed := feed }
      | .idle, .upsert doc :: feed =>
          match rowId doc with
          | none => some { s with feed := feed }
          | some rid => some { s with feed := feed, stage := .looping (s.jobFor env rid doc) }
      | _, _ => none
  | .work answer => s.work env answer

/-- The empty table with an idle service. -/
def start (env : Env) (catalogRules : List EmbeddingRule) : State :=
  ⟨∅, [], env.rules ++ catalogRules, .idle⟩

/-- Nothing is left to process. -/
def Drained (s : State) : Prop := s.feed = [] ∧ s.stage = .idle

end State

/-! ### Embeddings still due -/

section
variable (env : Env) (rule : EmbeddingRule) (rid : String)

/-- What a job has still to embed for the rule and the row. -/
def Job.due (job : Job) : List String :=
  if job.rowId = rid ∧ rule ∈ job.rules then (needs env rule job.doc).toList else []

/-- What the service has still to embed of the change it is at. -/
def Stage.due : Stage → List String
  | .idle => []
  | .looping job => job.due env rule rid
  | .embedding job r text | .patching job r text _ | .putting job r text _ =>
      (if job.rowId = rid ∧ r = rule then [text] else []) ++ job.due env rule rid

/-- What a change will have embedded. -/
def Change.due : Change → List String
  | .upsert doc => if rowId doc = some rid then (needs env rule doc).toList else []
  | .delete => []

/-- The texts still to be embedded for the rule and the row, in their order. -/
def State.due (s : State) : List String :=
  s.stage.due env rule rid ++ s.feed.flatMap (Change.due env rule rid)

/-- The row has the vector of the text, and its sidecar the hash. -/
def Embedded (doc : Json) (text : String) : Prop :=
  fieldAt doc rule.vectorColumn = some (vecJson env rule text) ∧
    upToDate env rule doc text = true

/-- The last embedding due is that of the row's text; with none due, the row has it. -/
def Settled (due : List String) (doc : Json) : Prop :=
  ∀ text, sourceText rule doc = some text →
    match due.getLast? with
    | some last => last = text
    | none => Embedded env rule doc text

end

/-- Patches for `r` leave what `rule` reads alone, and what it writes unless they are the
same rule. -/
structure Compatible (rule r : EmbeddingRule) : Prop where
  text : rule.textColumn ∉ r.written
  written : r ≠ rule → rule.vectorColumn ∉ r.written ∧ rule.sourceHashColumn ∉ r.written

/-- The rule is one of the rules in effect, and they leave its columns alone. -/
structure Listed (env : Env) (rule : EmbeddingRule) (rules : List EmbeddingRule) : Prop where
  mem : rule ∈ rules.filter (·.matchesTable env.schema env.table)
  compatible : ∀ r ∈ rules.filter (·.matchesTable env.schema env.table), Compatible rule r
  usable : env.usable rule = true
  vector : rule.vectorColumn ≠ "__version"

/-- The row is between the `get` and the `put` of a patch. -/
def Stage.Holds (rid : String) : Stage → Prop
  | .putting job _ _ _ => job.rowId = rid
  | _ => False

def Stage.Asks : Stage → Prop
  | .embedding _ _ _ => True
  | _ => False

/-- The step does not disturb the embeddings of the rule: commits do not fall between the
halves of a patch, and a document that comes with the hash of its text is either complete or
finds that text as the last one due; backends answer; and the rule stays in effect. -/
def Clean (env : Env) (rule : EmbeddingRule) (s : State) : Act → Prop
  | .commit doc => ∀ rid, rowId doc = some rid →
      ¬ s.stage.Holds rid ∧
        (needs env rule doc = none → Settled env rule (s.due env rule rid) doc)
  | .delete rid => ¬ s.stage.Holds rid
  | .refresh catalogRules => Listed env rule (env.rules ++ catalogRules)
  | .receive => True
  | .work answer => s.stage.Asks → answer.isSome = true

/-! ### Patched documents -/

variable {fields : List (String × Json)}

section
variable {env : Env} {rule r : EmbeddingRule} {rid : String}

variable {text : String} {origin : Origin}

theorem lookup_patchFields {name : String} (h : name ∉ r.written) :
    (patchFields fields (updates env r text origin)).lookup name = fields.lookup name := by
  simp only [EmbeddingRule.written, mem_cons, not_mem_nil, or_false, not_or] at h
  obtain ⟨hvector, hsidecar, hversion⟩ := h
  simp [patchFields, updates, lookup_setField, if_neg hvector, if_neg hsidecar, if_neg hversion]

/-- A patch gives the row the embedding of the text. -/
theorem embedded_patchFields (hvector : rule.vectorColumn ≠ "__version")
    (fields : List (String × Json)) (text : String) (origin : Origin) :
    Embedded env rule (.object (patchFields fields (updates env rule text origin))) text := by
  have hne := rule.vectorColumn_ne_sourceHashColumn
  have hversion := rule.sourceHashColumn_ne_version
  constructor
  · simp [fieldAt, patchFields, updates, lookup_setField, if_neg hvector, if_neg hne]
  · have hparse := env.parse_toJsonString ⟨origin, env.textHash text⟩
    have htext : textAt (.object (patchFields fields (updates env rule text origin)))
        rule.sourceHashColumn = some (env.toJsonString ⟨origin, env.textHash text⟩) := by
      simp [textAt, fieldAt, patchFields, updates, lookup_setField, if_neg hversion, jsonAsStr]
    rw [Option.map_eq_some_iff] at hparse
    obtain ⟨prev, hprev, hhash⟩ := hparse
    simp [upToDate, htext, hprev, hhash]

theorem Embedded.patchFields (h : Compatible rule r) (hne : r ≠ rule) {own : String}
    (hembedded : Embedded env rule (.object fields) own) :
    Embedded env rule (.object (patchFields fields (updates env r text origin))) own := by
  obtain ⟨hvector, hsidecar⟩ := h.written hne
  obtain ⟨hfield, hdate⟩ := hembedded
  refine ⟨?_, ?_⟩
  · simpa only [fieldAt, lookup_patchFields hvector] using hfield
  · simpa only [upToDate, textAt, fieldAt, lookup_patchFields hsidecar] using hdate

/-! ### One step -/

/-- The rules of the change the service is at. -/
def Stage.rules : Stage → List EmbeddingRule
  | .idle => []
  | .looping job => job.rules
  | .embedding job r _ | .patching job r _ _ | .putting job r _ _ => r :: job.rules

/-- What a patch is about to put is the row as it is, with the updates. -/
def Stage.Fetched (env : Env) (rows : ExtTreeMap String Json) : Stage → Prop
  | .putting job r text patched => ∃ fields origin, rows[job.rowId]? = some (.object fields) ∧
      patched = .object (Embedding.patchFields fields (updates env r text origin))
  | _ => True

/-- The rule is in effect, and the embeddings of all rows are settled for it. -/
structure Tracked (env : Env) (rule : EmbeddingRule) (s : State) : Prop where
  listed : Listed env rule s.rules
  compatible : ∀ r ∈ s.stage.rules, Compatible rule r
  fetched : s.stage.Fetched env s.rows
  settled : ∀ (rid : String) (doc : Json), s.rows[rid]? = some doc →
    Settled env rule (s.due env rule rid) doc

variable {doc : Json}

theorem Settled.of_getLast {due due' : List String} (h : Settled env rule due doc)
    (hlast : due'.getLast? = due.getLast?) : Settled env rule due' doc := by
  intro text htext
  rw [hlast]
  exact h text htext

variable {s : State}

/-- The service moves on with the same last embedding due. -/
theorem Tracked.move (h : Tracked env rule s) {old stage : Stage} (hstage : s.stage = old)
    (hrules : ∀ r ∈ stage.rules, r ∈ old.rules) (hfetched : stage.Fetched env s.rows)
    (hdue : ∀ (rid : String) (doc : Json), s.rows[rid]? = some doc →
      (sourceText rule doc).isSome → (stage.due env rule rid).getLast? =
        (old.due env rule rid).getLast?) :
    Tracked env rule { s with stage := stage } where
  listed := h.listed
  compatible r hr := h.compatible r (by rw [hstage]; exact hrules r hr)
  fetched := hfetched
  settled rid doc hdoc text htext := by
    have hsettled := h.settled rid doc hdoc
    refine hsettled.of_getLast ?_ text htext
    have hlast := hdue rid doc hdoc (by rw [htext]; rfl)
    simp [State.due, hstage, hlast]

theorem Stage.Fetched.of_rows {stage : Stage} {rows rows' : ExtTreeMap String Json}
    (h : stage.Fetched env rows)
    (hrows : ∀ rid : String, stage.Holds rid → rows'[rid]? = rows[rid]?) :
    stage.Fetched env rows' := by
  cases stage with
  | putting job r text patched =>
    obtain ⟨fields, origin, hrow, hpatched⟩ := h
    exact ⟨fields, origin, (hrows job.rowId rfl).trans hrow, hpatched⟩
  | _ => trivial

/-- An announced document is the last one due for its row, unless it is skipped. -/
theorem settled_announced {due : List String}
    (h : needs env rule doc = none → Settled env rule due doc) :
    Settled env rule (due ++ (needs env rule doc).toList) doc := by
  cases hneeds : needs env rule doc with
  | none => simp_all
  | some last =>
    intro text htext
    rw [needs, htext, Option.filter_eq_some_iff] at hneeds
    rw [Option.toList_some, List.getLast?_concat]
    exact (Option.some.inj hneeds.1).symm

theorem Tracked.commit (h : Tracked env rule s) (hid : rowId doc = some rid)
    (hfree : ¬ s.stage.Holds rid)
    (hclean : needs env rule doc = none → Settled env rule (s.due env rule rid) doc) :
    Tracked env rule { s with rows := s.rows.insert rid doc, feed := s.feed ++ [.upsert doc] } where
  listed := h.listed
  compatible := h.compatible
  fetched := by
    refine h.fetched.of_rows fun rid' hholds => ?_
    rw [OrderedMap.get_insert, if_neg]
    rintro rfl
    exact hfree hholds
  settled rid' doc' hdoc' := by
    have hdue : ∀ rid', State.due env rule rid'
        { s with rows := s.rows.insert rid doc, feed := s.feed ++ [.upsert doc] } =
        s.due env rule rid' ++ (Change.upsert doc).due env rule rid' := by
      simp [State.due]
    rw [hdue, Change.due, hid]
    by_cases heq : rid' = rid
    · subst heq
      rw [getElem?_insert_self] at hdoc'
      cases hdoc'
      rw [if_pos rfl]
      exact settled_announced hclean
    · rw [if_neg (fun hsome => heq (Option.some.inj hsome).symm), append_nil]
      rw [OrderedMap.get_insert, if_neg heq] at hdoc'
      exact h.settled rid' doc' hdoc'

theorem Tracked.delete (h : Tracked env rule s) (hfree : ¬ s.stage.Holds rid) :
    Tracked env rule { s with rows := s.rows.erase rid, feed := s.feed ++ [.delete] } where
  listed := h.listed
  compatible := h.compatible
  fetched := by
    refine h.fetched.of_rows fun rid' hholds => ?_
    rw [OrderedMap.get_erase, if_neg]
    rintro rfl
    exact hfree hholds
  settled rid' doc' hdoc' := by
    rw [getElem?_erase, Option.ite_none_left_eq_some] at hdoc'
    refine (h.settled rid' doc' hdoc'.2).of_getLast ?_
    simp [State.due, Change.due]

variable {s' : State}

/-- A change is received: what it has embedded is due as before. -/
theorem Tracked.receive (h : Tracked env rule s) (hstep : s.step env .receive = some s') :
    Tracked env rule s' := by
  simp only [State.step] at hstep
  split at hstep
  · -- a delete
    rename_i feed hstage hfeed
    cases hstep
    refine ⟨h.listed, h.compatible, h.fetched, fun rid doc hdoc => ?_⟩
    have hsettled := h.settled rid doc hdoc
    rw [State.due, hfeed, flatMap_cons] at hsettled
    exact hsettled
  · rename_i doc feed hstage hfeed
    split at hstep
    · rename_i hid
      cases hstep
      refine ⟨h.listed, h.compatible, h.fetched, fun rid doc' hdoc' => ?_⟩
      have hsettled := h.settled rid doc' hdoc'
      rw [State.due, hfeed, flatMap_cons, Change.due, hid] at hsettled
      exact hsettled
    · rename_i rid hid
      cases hstep
      refine ⟨h.listed, h.listed.compatible, trivial, fun rid' doc' hdoc' => ?_⟩
      have hsettled := h.settled rid' doc' hdoc'
      rw [State.due, hfeed, hstage, Stage.due, flatMap_cons, Change.due, hid,
        nil_append] at hsettled
      have hmem : rule ∈ (s.jobFor env rid doc).rules := h.listed.mem
      simp only [State.due, Stage.due, Job.due, hmem, and_true]
      simp only [Option.some.injEq] at hsettled
      exact hsettled
  · cases hstep

/-- A rule that is passed over, or is not the one at hand, leaves what is due. -/
theorem Job.due_skip {rules : List EmbeddingRule} (h : r = rule → needs env rule doc = none)
    (rid' : String) :
    Job.due env rule rid' ⟨rid, doc, rules⟩ = Job.due env rule rid' ⟨rid, doc, r :: rules⟩ := by
  by_cases hr : r = rule
  · simp [Job.due, h hr]
  · simp [Job.due, Ne.symm hr]

/-- A text that is going to be embedded is due as before. -/
theorem Job.getLast_due_embedding {rules : List EmbeddingRule} (h : needs env r doc = some text)
    (rid' : String) :
    ((if rid = rid' ∧ r = rule then [text] else []) ++
      Job.due env rule rid' ⟨rid, doc, rules⟩).getLast? =
      (Job.due env rule rid' ⟨rid, doc, r :: rules⟩).getLast? := by
  by_cases hr : r = rule
  · grind [Job.due]
  · simp [Job.due, Ne.symm hr, hr]

section
variable (h : Tracked env rule s)
include h

/-- The patched row is put. With the rule's own patch, either a later embedding is due as
before, or the text embedded was the last one due and so that of the row. -/
theorem Tracked.put {job : Job} {patched : Json} (hstage : s.stage = .putting job r text patched) :
    Tracked env rule
      { s with rows := s.rows.insert job.rowId patched, stage := .looping job } where
  listed := h.listed
  compatible r' hr' := h.compatible r' (by rw [hstage]; exact mem_cons_of_mem r hr')
  fetched := trivial
  settled rid doc hdoc := by
    have hcompatible : Compatible rule r :=
      h.compatible r (by rw [hstage]; exact mem_cons_self)
    by_cases hid : rid = job.rowId
    · subst hid
      rw [getElem?_insert_self] at hdoc
      cases hdoc
      have hfetched := h.fetched
      rw [hstage] at hfetched
      obtain ⟨fields, origin, hrow, rfl⟩ := hfetched
      intro own hown
      rw [sourceText, textAt, fieldAt, lookup_patchFields hcompatible.text] at hown
      have hsettled := h.settled job.rowId _ hrow own hown
      by_cases hr : r = rule
      · subst hr
        simp only [State.due, hstage, Stage.due, and_self, if_true, cons_append,
          nil_append] at hsettled ⊢
        cases hlast : (job.due env r job.rowId ++
            s.feed.flatMap (Change.due env r job.rowId)).getLast? with
        | some last => grind
        | none =>
          rw [List.getLast?_cons, hlast] at hsettled
          obtain rfl : text = own := hsettled
          exact embedded_patchFields h.listed.vector fields text origin
      · simp only [State.due, hstage, Stage.due, hr, and_false, if_false,
          nil_append] at hsettled ⊢
        split at hsettled
        · exact hsettled
        · exact hsettled.patchFields hcompatible hr
    · rw [OrderedMap.get_insert, if_neg hid] at hdoc
      have hsettled := h.settled rid doc hdoc
      simp only [State.due, hstage, Stage.due, Ne.symm hid, false_and, if_false,
        nil_append] at hsettled ⊢
      exact hsettled

/-- The row is gone, or is not an object: nothing is due for its text. -/
theorem Tracked.give_up {job : Job} (hstage : s.stage = .patching job r text origin)
    (hrow : ∀ fields, s.rows[job.rowId]? ≠ some (.object fields)) :
    Tracked env rule { s with stage := .looping job } := by
  refine h.move hstage (fun r' hr' => .tail r hr') trivial fun rid doc hdoc htext => ?_
  have hid : job.rowId ≠ rid := by
    rintro rfl
    cases doc with
    | object fields => exact hrow fields hdoc
    | _ => cases htext
  simp [Stage.due, hid]

/-- **A step of the service keeps the embeddings settled**, one case per stage. -/
theorem Tracked.work {answer : Option Origin}
    (hasked : s.stage.Asks → answer.isSome = true) (hstep : s.work env answer = some s') :
    Tracked env rule s' := by
  cases hstage : s.stage with
  | idle =>
    simp only [State.work, hstage] at hstep
    cases hstep
  | looping job =>
    obtain ⟨rid, doc, rules⟩ := job
    cases rules with
    | nil =>
      simp only [State.work, hstage] at hstep
      cases hstep
      refine h.move hstage (nofun) trivial fun rid' _ _ _ => ?_
      simp [Stage.due, Job.due]
    | cons r rules =>
      simp only [State.work, hstage] at hstep
      -- all three ways to pass a rule over leave nothing due for it
      have hskip : (r = rule → needs env rule doc = none) →
          Tracked env rule { s with stage := .looping ⟨rid, doc, rules⟩ } := fun hnone =>
        h.move hstage (fun r' hr' => .tail r hr') trivial fun rid' _ _ _ =>
          congrArg List.getLast? (Job.due_skip hnone rid')
      split at hstep
      · grind [needs]
      · rename_i text htext
        split at hstep
        · rename_i hdate
          cases hstep
          refine hskip fun heq => ?_
          subst heq
          simp [needs, htext, hdate]
        · rename_i hdate
          split at hstep
          · cases hstep
            have hneeds : needs env r doc = some text := by
              simp [needs, htext, hdate]
            exact h.move hstage (fun r' hr' => hr') trivial fun rid' _ _ _ =>
              Job.getLast_due_embedding hneeds rid'
          · rename_i husable
            cases hstep
            refine hskip fun heq => ?_
            subst heq
            exact absurd h.listed.usable husable
  | embedding job r text =>
    simp only [State.work, hstage] at hstep
    cases answer with
    | none => exact absurd (hasked (by rw [hstage]; trivial)) Bool.false_ne_true
    | some origin =>
      cases hstep
      exact h.move hstage (fun r' hr' => hr') trivial fun _ _ _ _ => rfl
  | patching job r text origin =>
    simp only [State.work, hstage] at hstep
    split at hstep
    · rename_i fields hrow
      cases hstep
      exact h.move hstage (fun r' hr' => hr') ⟨fields, origin, hrow, rfl⟩ fun _ _ _ _ => rfl
    · rename_i hrow
      cases hstep
      exact h.give_up hstage hrow
  | putting job r text patched =>
    simp only [State.work, hstage] at hstep
    cases hstep
    exact h.put hstage

/-- **A clean step keeps the embeddings settled.** -/
theorem Tracked.step {act : Act} (hclean : Clean env rule s act)
    (hstep : s.step env act = some s') : Tracked env rule s' := by
  cases act with
  | commit doc =>
    simp only [State.step] at hstep
    split at hstep
    · cases hstep
    · rename_i rid hid
      cases hstep
      exact h.commit hid (hclean rid hid).1 (hclean rid hid).2
  | delete rid =>
    cases hstep
    exact h.delete hclean
  | refresh catalogRules =>
    simp only [State.step] at hstep
    split at hstep
    · cases hstep
      exact ⟨hclean, h.compatible, h.fetched, h.settled⟩
    · cases hstep
  | receive => exact h.receive hstep
  | work answer => exact h.work hclean hstep

end

end

theorem tracked_start {env : Env} {rule : EmbeddingRule} {catalogRules : List EmbeddingRule}
    (h : Listed env rule (env.rules ++ catalogRules)) :
    Tracked env rule (.start env catalogRules) := by
  refine ⟨h, fun r hr => (not_mem_nil hr).elim, trivial, fun rid doc hdoc => ?_⟩
  cases hdoc

/-- **Embeddings converge to the current text**: after every run of commits, refreshes and
service steps that are clean for the rule, once the feed is drained each row with a text has
the vector of the text and a sidecar that records its hash. -/
theorem embeddings_converge (env : Env) (rule : EmbeddingRule) (catalogRules : List EmbeddingRule)
    (hlisted : Listed env rule (env.rules ++ catalogRules)) (acts : List Act) (s : State)
    (hrun : Run.run (State.step env) (.start env catalogRules) acts = some s)
    (hclean : Run.Along (State.step env) (Clean env rule) (.start env catalogRules) acts)
    (hdrained : s.Drained) (rid : String) (doc : Json) (text : String)
    (hrow : s.rows[rid]? = some doc) (htext : sourceText rule doc = some text) :
    fieldAt doc rule.vectorColumn = some (vecJson env rule text) ∧
      upToDate env rule doc text = true := by
  have htracked : Tracked env rule s :=
    Run.run_invariant (fun _ _ _ hstep hclean htracked => htracked.step hclean hstep) hclean
      (tracked_start hlisted) hrun
  have hsettled := htracked.settled rid doc hrow text htext
  rw [State.due, hdrained.1, hdrained.2] at hsettled
  exact hsettled

/-! ### A text changed and changed back -/

/-- The text of `body` is embedded into `v`. -/
def bodyRule : EmbeddingRule := ⟨"public", "docs", "body", "v", ⟨"m", none⟩, .localOnly⟩

/-- Texts are their own hashes, and their vectors as long as they are. -/
def sampleEnv : Env where
  schema := "public"
  table := "docs"
  rules := [bodyRule]
  usable _ := true
  embed _ text := List.replicate text.length .nan
  textHash text := text
  toJsonString p := p.textHash
  parse text := some ⟨⟨"m", none, "local"⟩, text⟩
  parse_toJsonString _ := rfl

theorem listed_bodyRule : Listed sampleEnv bodyRule (sampleEnv.rules ++ []) where
  mem := by decide
  compatible r hr := by
    obtain rfl : r = bodyRule := by simpa [sampleEnv] using mem_of_mem_filter hr
    exact ⟨by decide, fun hne => absurd rfl hne⟩
  usable := rfl
  vector := by decide

def newRow (text : String) : Json := .object [("_id", .string "r"), ("body", .string text)]

/-- The row with a new text, and the embedding of another one. -/
def changedRow (text embedded : String) : Json :=
  .object [("_id", .string "r"), ("body", .string text),
    ("v", vecJson sampleEnv bodyRule embedded), ("_v_srchash", .string embedded)]

/-- The steps of the service for one change whose text is embedded. -/
def embedNext : List Act := .receive :: List.replicate 5 (.work (some ⟨"m", none, "local"⟩))

/-- A row is inserted and its change processed. -/
theorem embeddings_converge_new_row :
    ∃ s doc, Run.run (State.step sampleEnv) (.start sampleEnv [])
      (.commit (newRow "a") :: embedNext) = some s ∧ s.Drained ∧ s.rows["r"]? = some doc ∧
      fieldAt doc "v" = some (vecJson sampleEnv bodyRule "a") ∧
      upToDate sampleEnv bodyRule doc "a" = true := by
  refine ⟨_, _, rfl, ⟨rfl, rfl⟩, rfl, ?_⟩
  refine embeddings_converge sampleEnv bodyRule [] listed_bodyRule
    (.commit (newRow "a") :: embedNext) _ rfl ?_ ⟨rfl, rfl⟩ "r" _ "a" rfl rfl
  refine Run.along_of_check (p := fun s act => match act with
    | .commit doc => s.stage matches .idle && (needs sampleEnv bodyRule doc).isSome
    | .receive => true
    | .work answer => answer.isSome
    | _ => false) (fun s act h => ?_) rfl
  cases act with
  | commit doc =>
    rw [Bool.and_eq_true] at h
    intro rid _
    refine ⟨?_, fun hneeds => ?_⟩
    · cases hstage : s.stage <;> simp_all [Stage.Holds]
    · simp_all
  | receive => trivial
  | work answer => exact fun _ => h
  | _ => cases h

/-- The text `a` is embedded; it is changed to `bb` and back before the service sees the
changes. The change back carries the hash of `a` and is skipped, after `bb` was embedded. -/
theorem restored_text_keeps_other_embedding :
    ∃ s doc, Run.run (State.step sampleEnv) (.start sampleEnv [])
      ([.commit (newRow "a")] ++ embedNext ++
        [.commit (changedRow "bb" "a"), .commit (changedRow "a" "a")] ++ embedNext ++
        [.receive, .work none, .work none]) = some s ∧ s.Drained ∧ s.rows["r"]? = some doc ∧
      sourceText bodyRule doc = some "a" ∧
      fieldAt doc "v" = some (vecJson sampleEnv bodyRule "bb") ∧
      upToDate sampleEnv bodyRule doc "a" = false := by
  exact ⟨_, _, rfl, ⟨rfl, rfl⟩, rfl, rfl, rfl, rfl⟩

end GuardianDb.Embedding
