/-
The task ledger and its dispatchers (`compute/ledger.rs`, `compute/triggers.rs`).

A task is recorded as pending, claimed for dispatch by a compare-and-swap, sent out, and
reported done, failed, or pending again. Only the claim is conditional: a report is a read
and a later write (`update`), and so is the end of a task whose attempts are used up. The
steps of any number of notifications, dispatchers and requeue passes interleave freely.

The store keeps records as bytes; here it keeps the records, which the encoding tells
apart, so that a swap compares records. What a rule says about its task (module,
entrypoint, class, limits, model) only travels along and is one value. Times are seconds.

  * `Ledger.Sound.step` — without a late write, a step keeps the finished records, and the
    input of the creation wherever a record can be dispatched.
  * `terminal_tasks_stay` — the same for every run without late writes.
  * `finished_task_restarts` — a late report brings a finished task back.
  * `dispatches_le_maxAttempts` — claims that find attempts left keep the retry budget;
    `dispatched_twice` — a requeue pass checks it too early.
-/
import GuardianDb.Lib.Run
import GuardianDb.Lib.OrderedMap

namespace GuardianDb.Compute

open List hiding getElem?_insert getElem?_eq_none
open Std ExtTreeMap

/-! ### Records -/

abbrev TaskKey := String

abbrev Bytes := List UInt8

variable {Spec Executor Completed : Type}

inductive TaskState (Executor : Type) where
  | pending
  | running (deadlineUnix : Nat)
  | done (executor : Executor)
  | failed (error : String)
  deriving DecidableEq, Repr

structure TaskRecord (Spec Executor Completed : Type) where
  key : TaskKey
  spec : Spec
  input : Bytes
  state : TaskState Executor
  attempts : Nat
  createdAtUnix : Nat
  updatedAtUnix : Nat
  result : Option Completed
  deriving DecidableEq, Repr

namespace TaskRecord

variable (r : TaskRecord Spec Executor Completed)

def pending (key : TaskKey) (spec : Spec) (input : Bytes) (now : Nat) :
    TaskRecord Spec Executor Completed :=
  ⟨key, spec, input, .pending, 0, now, now, none⟩

def needsDispatch (nowUnix : Nat) : Bool :=
  match r.state with
  | .pending => true
  | .running deadlineUnix => deadlineUnix < nowUnix
  | .done _ | .failed _ => false

/-- The task is `Done` or `Failed`. -/
def Terminal : Prop :=
  match r.state with
  | .pending | .running _ => False
  | .done _ | .failed _ => True

instance : Decidable r.Terminal := by
  unfold Terminal
  cases r.state <;> infer_instance

end TaskRecord

structure TriggerConfig where
  maxAttempts : Nat := 3
  taskDeadline : Nat := 300
  deriving DecidableEq, Repr

/-- What a dispatch comes back with: `Delegated` or `DispatchError`. -/
inductive Outcome (Executor Completed : Type) where
  | delegated (executor : Executor) (completed : Completed)
  | dispatchError (permanent : Bool) (message : String)

/-- The change of `run_task` to the record, after a dispatch made at `attempts`. -/
def report (config : TriggerConfig) (attempts : Nat) (outcome : Outcome Executor Completed)
    (r : TaskRecord Spec Executor Completed) : TaskRecord Spec Executor Completed :=
  match outcome with
  | .delegated executor completed =>
      { r with state := .done executor, result := some completed, input := [] }
  | .dispatchError permanent message =>
      let spent := decide (attempts ≥ config.maxAttempts)
      if permanent || spent then { r with state := .failed message, input := [] }
      else { r with state := .pending }

/-- The change of `requeue_due` to a record without attempts left. -/
def exhaust (r : TaskRecord Spec Executor Completed) : TaskRecord Spec Executor Completed :=
  { r with state := .failed "retry budget exhausted", input := [] }

/-! ### Workers -/

/-- Where a spawned `run_task` or a pass of `requeue_due` is, with what it has read. -/
inductive Stage (Spec Executor Completed : Type) where
  /-- `run_task` before it reads the clock. -/
  | starting (key : TaskKey)
  /-- `claim_for_dispatch` at the head of its loop. -/
  | claiming (key : TaskKey) (deadlineUnix : Nat)
  /-- `claim_for_dispatch` before the swap, with the record it has read at `now`. -/
  | swapping (key : TaskKey) (deadlineUnix : Nat) (seen : TaskRecord Spec Executor Completed)
      (now : Nat)
  /-- `run_task` with the claimed record, before the request is sent. -/
  | dispatching (key : TaskKey) (record : TaskRecord Spec Executor Completed)
  /-- `run_task` until the dispatcher answers. -/
  | waiting (key : TaskKey) (record : TaskRecord Spec Executor Completed)
  /-- `run_task` before it reads the record for its report. -/
  | reporting (key : TaskKey) (record : TaskRecord Spec Executor Completed)
      (outcome : Outcome Executor Completed)
  /-- `requeue_due` before it reads a record to fail. -/
  | exhausting (key : TaskKey) (rest : List (TaskRecord Spec Executor Completed))
  /-- `update` before its write; then the pass goes on with `rest`. -/
  | writing (key : TaskKey) (record : TaskRecord Spec Executor Completed)
      (rest : List (TaskRecord Spec Executor Completed))
  /-- `requeue_due` with the due records it has still to look at; finished without any. -/
  | requeuing (rest : List (TaskRecord Spec Executor Completed))

/-- A task of some dispatcher, with that dispatcher's configuration. -/
structure Worker (Spec Executor Completed : Type) where
  config : TriggerConfig
  stage : Stage Spec Executor Completed

/-- The ledger's store and everything at work on it; `created` is the input each task was
created with, and `dispatched` lists the tasks sent out with the inputs they had. -/
structure Ledger (Spec Executor Completed : Type) where
  store : ExtTreeMap TaskKey (TaskRecord Spec Executor Completed)
  workers : List (Worker Spec Executor Completed)
  created : ExtTreeMap TaskKey Bytes
  dispatched : List (TaskKey × Bytes)

/-- Steps of the dispatchers, with the time they are made at. -/
inductive Act (Spec Executor Completed : Type) where
  /-- `notify_replicated`, for one matching rule. -/
  | notify (config : TriggerConfig) (key : TaskKey) (spec : Spec) (payload : Bytes) (now : Nat)
  /-- The scan of `requeue_due`, which lists the due records in any order. -/
  | requeue (config : TriggerConfig) (due : List (TaskRecord Spec Executor Completed)) (now : Nat)
  /-- The next step of a worker. -/
  | work (i : Nat) (now : Nat)
  /-- A dispatched request comes back. -/
  | complete (i : Nat) (outcome : Outcome Executor Completed)

namespace Ledger

section
variable (s : Ledger Spec Executor Completed)

def empty : Ledger Spec Executor Completed := ⟨∅, [], ∅, []⟩

/-- Worker `i` is at `stage`. -/
def move (i : Nat) (config : TriggerConfig) (stage : Stage Spec Executor Completed) :
    Ledger Spec Executor Completed :=
  { s with workers := s.workers.set i ⟨config, stage⟩ }

/-- `claim`: the record is written if there is none, and its `run_task` spawned. -/
def notify (config : TriggerConfig) (key : TaskKey) (spec : Spec) (payload : Bytes)
    (now : Nat) : Ledger Spec Executor Completed :=
  if key ∈ s.store then s
  else
    { s with
      store := s.store.insert key (.pending key spec payload now)
      created := s.created.insert key payload
      workers := s.workers ++ [⟨config, .starting key⟩] }

def needingDispatch (now : Nat) : List (TaskRecord Spec Executor Completed) :=
  (s.store.toList.map (·.2)).filter (·.needsDispatch now)

end

section
variable [DecidableEq Spec] [DecidableEq Executor] [DecidableEq Completed]
variable (s : Ledger Spec Executor Completed)

/-- The next step of the worker `i`. -/
def work (i : Nat) (config : TriggerConfig) (now : Nat) :
    Stage Spec Executor Completed → Option (Ledger Spec Executor Completed)
  | .starting key => some (s.move i config (.claiming key (now + config.taskDeadline)))
  | .claiming key deadlineUnix =>
      match s.store[key]? with
      | none => some (s.move i config (.requeuing []))
      | some record =>
          if record.needsDispatch now then
            some (s.move i config (.swapping key deadlineUnix record now))
          else some (s.move i config (.requeuing []))
  | .swapping key deadlineUnix seen readAt =>
      if s.store[key]? = some seen then
        let running := { seen with
          attempts := seen.attempts + 1
          state := .running deadlineUnix
          updatedAtUnix := readAt }
        some { s.move i config (.dispatching key running) with
          store := s.store.insert key running }
      else some (s.move i config (.claiming key deadlineUnix))
  | .dispatching key record =>
      some { s.move i config (.waiting key record) with
        dispatched := s.dispatched ++ [(key, record.input)] }
  | .waiting _ _ => none
  | .reporting key record outcome =>
      match s.store[key]? with
      | none => some (s.move i config (.requeuing []))
      | some r =>
          let updated := report config record.attempts outcome r
          some (s.move i config (.writing key { updated with updatedAtUnix := now } []))
  | .exhausting key rest =>
      match s.store[key]? with
      | none => some (s.move i config (.requeuing rest))
      | some r =>
          some (s.move i config (.writing key { exhaust r with updatedAtUnix := now } rest))
  | .writing key record rest =>
      some { s.move i config (.requeuing rest) with store := s.store.insert key record }
  | .requeuing [] => none
  | .requeuing (record :: rest) =>
      if record.attempts ≥ config.maxAttempts then
        some (s.move i config (.exhausting record.key rest))
      else
        let moved := s.move i config (.requeuing rest)
        some { moved with workers := moved.workers ++ [⟨config, .starting record.key⟩] }

def step : Act Spec Executor Completed → Option (Ledger Spec Executor Completed)
  | .notify config key spec payload now => some (s.notify config key spec payload now)
  | .requeue config due now =>
      if due.isPerm (s.needingDispatch now) then
        some { s with workers := s.workers ++ [⟨config, .requeuing due⟩] }
      else none
  | .work i now =>
      match s.workers[i]? with
      | none => none
      | some w => s.work i w.config now w.stage
  | .complete i outcome =>
      match s.workers[i]? with
      | some ⟨config, .waiting key record⟩ =>
          some (s.move i config (.reporting key record outcome))
      | _ => none

end

end Ledger

/-! ### Finished tasks -/

theorem TaskRecord.not_terminal_of_needsDispatch {r : TaskRecord Spec Executor Completed}
    {now : Nat} (h : r.needsDispatch now = true) : ¬ r.Terminal := by
  intro ht
  rw [needsDispatch] at h
  rw [Terminal] at ht
  cases hs : r.state <;> simp [hs] at h ht

/-- What a worker holds agrees with the ledger: a record to be claimed is not finished, a
request has the input of the creation, and an update is a final one, keeps that input, or
comes too late. -/
def Stage.Faithful (s : Ledger Spec Executor Completed) : Stage Spec Executor Completed → Prop
  | .swapping _ _ seen _ => ¬ seen.Terminal
  | .dispatching key record => s.created[key]? = some record.input
  | .writing key record _ => key ∈ s.store ∧ (record.Terminal ∨
      s.created[key]? = some record.input ∨ ∃ r, s.store[key]? = some r ∧ r.Terminal)
  | _ => True

/-- The worker is not about to write over a record that is done or failed. -/
def Stage.Timely (s : Ledger Spec Executor Completed) : Stage Spec Executor Completed → Prop
  | .writing key _ _ => ∀ r ∈ s.store[key]?, ¬ r.Terminal
  | _ => True

instance (s : Ledger Spec Executor Completed) : DecidablePred (Stage.Timely s)
  | .writing key _ _ => inferInstanceAs (Decidable (∀ r ∈ s.store[key]?, ¬ r.Terminal))
  | .starting .. | .claiming .. | .swapping .. | .dispatching .. | .waiting .. | .reporting ..
  | .exhausting .. | .requeuing .. => inferInstanceAs (Decidable True)

namespace Ledger

/-- The finished records of `s` are those of `s'`. -/
def Keeps (s s' : Ledger Spec Executor Completed) : Prop :=
  ∀ (key : TaskKey) (r : TaskRecord Spec Executor Completed),
    s.store[key]? = some r → r.Terminal → s'.store[key]? = some r

/-- Tasks that can still be dispatched have the input they were created with, at every
place where it is kept. -/
structure Sound (s : Ledger Spec Executor Completed) : Prop where
  known : ∀ key, key ∈ s.created ↔ key ∈ s.store
  stored : ∀ (key : TaskKey) (r : TaskRecord Spec Executor Completed),
    s.store[key]? = some r → ¬ r.Terminal → s.created[key]? = some r.input
  working : ∀ w ∈ s.workers, w.stage.Faithful s
  sent : ∀ p ∈ s.dispatched, s.created[p.1]? = some p.2

variable {s s' : Ledger Spec Executor Completed} {config : TriggerConfig}
  {stage : Stage Spec Executor Completed}

theorem sound_empty : (empty : Ledger Spec Executor Completed).Sound :=
  ⟨by simp [empty], by simp [empty], by simp [empty], by simp [empty]⟩

variable {key : TaskKey}

theorem mem_of_getElem? {α : Type} {m : ExtTreeMap TaskKey α} {x : α} (h : m[key]? = some x) :
    key ∈ m := by
  rw [← isSome_getElem?_iff_mem, h]
  rfl

theorem keeps_of_eq (hstore : s'.store = s.store) : s.Keeps s' :=
  fun _ _ hr _ => hstore ▸ hr

variable {r : TaskRecord Spec Executor Completed}

/-- A write over a record that is not finished keeps the others. -/
theorem keeps_insert (hold : ∀ r' ∈ s.store[key]?, ¬ r'.Terminal)
    (hstore : s'.store = s.store.insert key r) : s.Keeps s' := by
  intro k r' hr' hterm
  rw [hstore, OrderedMap.get_insert, if_neg, hr']
  rintro rfl
  exact hold r' hr' hterm

/-- Stages stay faithful while the creations and the finished records stay. -/
theorem faithful_mono (h : stage.Faithful s)
    (hcreated : ∀ (key : TaskKey) (x : Bytes), s.created[key]? = some x →
      s'.created[key]? = some x)
    (hmem : ∀ key, key ∈ s.store → key ∈ s'.store) (hkeeps : s.Keeps s') :
    stage.Faithful s' := by
  cases stage with
  | dispatching key record => exact hcreated key record.input h
  | writing key record rest =>
    refine ⟨hmem key h.1, ?_⟩
    rcases h.2 with hterm | hinput | ⟨r, hr, hterm⟩
    · exact .inl hterm
    · exact .inr (.inl (hcreated key record.input hinput))
    · exact .inr (.inr ⟨r, hkeeps key r hr hterm, hterm⟩)
  | _ => exact h

/-- Stages look at the store and the creations only. -/
theorem faithful_of_eq (h : stage.Faithful s) (hstore : s'.store = s.store)
    (hcreated : s'.created = s.created) : stage.Faithful s' :=
  faithful_mono h (fun _ _ hx => hcreated ▸ hx) (fun _ hk => hstore ▸ hk) (keeps_of_eq hstore)

/-- A worker moves on; the ledger is as before. -/
theorem Sound.move (h : s.Sound) (i : Nat) (config : TriggerConfig)
    (stage : Stage Spec Executor Completed) (hstage : stage.Faithful s) :
    (s.move i config stage).Sound where
  known := h.known
  stored := h.stored
  working w hw := by
    rcases mem_or_eq_of_mem_set hw with hold | rfl
    · exact faithful_of_eq (h.working w hold) rfl rfl
    · exact faithful_of_eq hstage rfl rfl
  sent := h.sent

/-- A worker is spawned. -/
theorem Sound.spawn (h : s.Sound) (hstage : stage.Faithful s) :
    Sound { s with workers := s.workers ++ [⟨config, stage⟩] } where
  known := h.known
  stored := h.stored
  working w hw := by
    rcases mem_append.mp hw with hold | hnew
    · exact faithful_of_eq (h.working w hold) rfl rfl
    · obtain rfl := mem_singleton.mp hnew
      exact faithful_of_eq hstage rfl rfl
  sent := h.sent

/-- A record that is not finished is replaced by one that is, or that keeps the input. -/
theorem Sound.replace (h : s.Sound) (hold : ∀ r' ∈ s.store[key]?, ¬ r'.Terminal)
    (hmem : key ∈ s.store) (hr : r.Terminal ∨ s.created[key]? = some r.input) :
    Sound { s with store := s.store.insert key r } where
  known k := by
    rw [h.known, mem_insert, LawfulEqCmp.compare_eq_iff_eq]
    exact ⟨Or.inr, fun hk => hk.elim (fun heq => heq ▸ hmem) id⟩
  stored k r' hr' hterm := by
    rw [getElem?_insert] at hr'
    split at hr'
    · simp_all
    · exact h.stored k r' hr' hterm
  working w hw :=
    faithful_mono (h.working w hw) (fun _ _ hx => hx)
      (fun _ hk => mem_insert.mpr (.inr hk)) (keeps_insert hold rfl)
  sent := h.sent

theorem Sound.notify (h : s.Sound) (key : TaskKey) (spec : Spec) (payload : Bytes) (now : Nat) :
    (s.notify config key spec payload now).Sound ∧
      s.Keeps (s.notify config key spec payload now) := by
  rw [Ledger.notify]
  split
  · exact ⟨h, keeps_of_eq rfl⟩
  · rename_i hnew
    have hold : ∀ r ∈ s.store[key]?, ¬ r.Terminal := fun r hr => absurd (mem_of_getElem? hr) hnew
    have hcreated : ∀ (k : TaskKey) (x : Bytes), s.created[k]? = some x →
        (s.created.insert key payload)[k]? = some x := by
      intro k x hx
      rw [OrderedMap.get_insert, if_neg, hx]
      rintro rfl
      exact hnew ((h.known _).mp (mem_of_getElem? hx))
    refine ⟨⟨fun k => ?_, fun k r hr hterm => ?_, fun w hw => ?_, fun p hp => ?_⟩,
      keeps_insert hold rfl⟩
    · simp [h.known]
    · rw [getElem?_insert] at hr ⊢
      split at hr
      · rename_i heq
        cases hr
        rw [if_pos heq]
        rfl
      · rename_i hne
        rw [if_neg hne]
        exact h.stored k r hr hterm
    · rcases mem_append.mp hw with hbefore | hspawned
      · exact faithful_mono (h.working w hbefore) hcreated
          (fun _ hk => mem_insert.mpr (.inr hk)) (keeps_insert hold rfl)
      · obtain rfl := mem_singleton.mp hspawned
        trivial
    · exact hcreated _ _ (h.sent p hp)

/-- A record read for a report is finished, or its update is final or keeps the input. -/
theorem Sound.faithful_report (h : s.Sound) (hr : s.store[key]? = some r) (config : TriggerConfig)
    (attempts : Nat) (outcome : Outcome Executor Completed) (now : Nat)
    (rest : List (TaskRecord Spec Executor Completed)) :
    (Stage.writing key { report config attempts outcome r with updatedAtUnix := now }
      rest).Faithful s := by
  refine ⟨mem_of_getElem? hr, ?_⟩
  by_cases hterm : r.Terminal
  · exact .inr (.inr ⟨r, hr, hterm⟩)
  · cases outcome with
    | delegated executor completed => exact .inl trivial
    | dispatchError permanent message =>
      simp only [report]
      split
      · exact .inl trivial
      · exact .inr (.inl (h.stored key r hr hterm))

end Ledger

section
variable [DecidableEq Spec] [DecidableEq Executor] [DecidableEq Completed]
variable {s s' : Ledger Spec Executor Completed} {act : Act Spec Executor Completed}

/-- No step writes an update over a record that is done or failed. -/
def Timely (s : Ledger Spec Executor Completed) : Act Spec Executor Completed → Prop
  | .work i _ => ∀ w ∈ s.workers[i]?, w.stage.Timely s
  | _ => True

instance : DecidablePred (Timely s)
  | .work i _ => inferInstanceAs (Decidable (∀ w ∈ s.workers[i]?, w.stage.Timely s))
  | .notify .. | .requeue .. | .complete .. => inferInstanceAs (Decidable True)

namespace Ledger

section
variable {key : TaskKey} {r : TaskRecord Spec Executor Completed} {config : TriggerConfig}
  {i : Nat} (h : s.Sound)
include h

omit [DecidableEq Spec] [DecidableEq Executor] [DecidableEq Completed]

/-- `claim_for_dispatch` has found the record that it read before. -/
theorem Sound.claim {seen : TaskRecord Spec Executor Completed} (hseen : s.store[key]? = some seen)
    (hterm : ¬ seen.Terminal)
    (hs' : s' = { s.move i config (.dispatching key r) with store := s.store.insert key r })
    (hinput : r.input = seen.input) : s'.Sound ∧ s.Keeps s' := by
  subst hs'
  have hcreated : s.created[key]? = some r.input := by
    rw [hinput]
    exact h.stored key seen hseen hterm
  have hold : ∀ r' ∈ s.store[key]?, ¬ r'.Terminal := by
    intro r' hr'
    cases hseen.symm.trans hr'
    exact hterm
  have hmoved := h.move i config (.dispatching key r) hcreated
  exact ⟨hmoved.replace hold (mem_of_getElem? hseen) (.inr hcreated), keeps_insert hold rfl⟩

/-- The request is sent with the input of the claimed record. -/
theorem Sound.send (hinput : s.created[key]? = some r.input)
    (hs' : s' = { s.move i config (.waiting key r) with
      dispatched := s.dispatched ++ [(key, r.input)] }) : s'.Sound ∧ s.Keeps s' := by
  subst hs'
  have hmoved := h.move i config (.waiting key r) trivial
  refine ⟨⟨hmoved.known, hmoved.stored, fun w hw => ?_, fun p hp => ?_⟩, keeps_of_eq rfl⟩
  · exact faithful_of_eq (hmoved.working w hw) rfl rfl
  · rcases mem_append.mp hp with hold | hnew
    · exact h.sent p hold
    · obtain rfl := mem_singleton.mp hnew
      exact hinput

/-- `update` writes in time. -/
theorem Sound.write {rest : List (TaskRecord Spec Executor Completed)}
    (hfaithful : (Stage.writing key r rest).Faithful s)
    (htimely : (Stage.writing key r rest).Timely s)
    (hs' : s' = { s.move i config (.requeuing rest) with store := s.store.insert key r }) :
    s'.Sound ∧ s.Keeps s' := by
  subst hs'
  have hmoved := h.move i config (.requeuing rest) trivial
  refine ⟨hmoved.replace htimely hfaithful.1 ?_, keeps_insert htimely rfl⟩
  rcases hfaithful.2 with hterm | hinput | ⟨r', hr', hterm⟩
  · exact .inl hterm
  · exact .inr hinput
  · exact absurd hterm (htimely r' hr')

end

/-- A step of a worker, one case per stage. -/
theorem Sound.work (h : s.Sound) {i : Nat} {config : TriggerConfig} {now : Nat}
    {stage : Stage Spec Executor Completed} (hfaithful : stage.Faithful s)
    (htimely : stage.Timely s) (hstep : s.work i config now stage = some s') :
    s'.Sound ∧ s.Keeps s' := by
  have hmove : ∀ stage, stage.Faithful s →
      (s.move i config stage).Sound ∧ s.Keeps (s.move i config stage) :=
    fun stage hstage => ⟨h.move i config stage hstage, keeps_of_eq rfl⟩
  cases stage with
  | starting key =>
    cases hstep
    exact hmove _ trivial
  | claiming key deadlineUnix =>
    simp only [Ledger.work] at hstep
    split at hstep
    · cases hstep
      exact hmove _ trivial
    · split at hstep
      · next hneeds =>
        cases hstep
        have hseen := TaskRecord.not_terminal_of_needsDispatch hneeds
        exact hmove _ hseen
      · cases hstep
        exact hmove _ trivial
  | swapping key deadlineUnix seen readAt =>
    simp only [Ledger.work] at hstep
    split at hstep
    · next hseen => exact h.claim hseen hfaithful (Option.some.inj hstep).symm rfl
    · cases hstep
      exact hmove _ trivial
  | dispatching key record => exact h.send hfaithful (Option.some.inj hstep).symm
  | waiting key record => cases hstep
  | reporting key record outcome =>
    simp only [Ledger.work] at hstep
    split at hstep
    · cases hstep
      exact hmove _ trivial
    · next r hr =>
      cases hstep
      exact hmove _ (h.faithful_report hr config record.attempts outcome now [])
  | exhausting key rest =>
    simp only [Ledger.work] at hstep
    split at hstep
    · cases hstep
      exact hmove _ trivial
    · next r hr =>
      cases hstep
      exact hmove _ ⟨mem_of_getElem? hr, .inl trivial⟩
  | writing key record rest => exact h.write hfaithful htimely (Option.some.inj hstep).symm
  | requeuing rest =>
    cases rest with
    | nil => cases hstep
    | cons record rest =>
      simp only [Ledger.work] at hstep
      split at hstep
      · cases hstep
        exact hmove _ trivial
      · cases hstep
        exact ⟨(h.move i config (.requeuing rest) trivial).spawn trivial, keeps_of_eq rfl⟩

/-- **A timely step leaves finished records as they are, and keeps the inputs of those that
can be dispatched.** -/
theorem Sound.step (h : s.Sound) (htimely : Timely s act) (hstep : s.step act = some s') :
    s'.Sound ∧ s.Keeps s' := by
  cases act with
  | notify config key spec payload now =>
    cases hstep
    exact h.notify key spec payload now
  | requeue config due now =>
    simp only [Ledger.step, Option.ite_none_right_eq_some, Option.some.injEq] at hstep
    obtain ⟨-, rfl⟩ := hstep
    exact ⟨h.spawn trivial, keeps_of_eq rfl⟩
  | complete i outcome =>
    simp only [Ledger.step] at hstep
    split at hstep
    · cases hstep
      exact ⟨h.move _ _ _ trivial, keeps_of_eq rfl⟩
    · cases hstep
  | work i now =>
    simp only [Ledger.step] at hstep
    split at hstep
    · cases hstep
    · next w hw =>
      exact h.work (h.working w (List.mem_of_getElem? hw)) (htimely w hw) hstep

/-- A timely run keeps the invariant, and the records finished when it starts. -/
theorem Sound.run (h : s.Sound) {acts : List (Act Spec Executor Completed)}
    (htimely : Run.Along Ledger.step Timely s acts)
    (hrun : Run.run Ledger.step s acts = some s') :
    s'.Sound ∧ s.Keeps s' := by
  have hnext : ∀ t act t', Ledger.step t act = some t' → Timely t act →
      t.Sound ∧ s.Keeps t → t'.Sound ∧ s.Keeps t' := by
    rintro t act t' hstep htimely ⟨hsound, hkeeps⟩
    obtain ⟨hsound', hkeeps'⟩ := hsound.step htimely hstep
    exact ⟨hsound', fun key r hr hterm => hkeeps' key r (hkeeps key r hr hterm) hterm⟩
  exact Run.run_invariant hnext htimely ⟨h, keeps_of_eq rfl⟩ hrun

end Ledger

/-- **Finished tasks stay as they are, and no request has another input than its task was
created with**, in every run that writes no update over a finished record: what is done or
failed at some point of the run has the same state and the same result at its end. -/
theorem terminal_tasks_stay (before after : List (Act Spec Executor Completed))
    {s₁ s₂ : Ledger Spec Executor Completed}
    (hbefore : Run.run Ledger.step .empty before = some s₁)
    (htimely₁ : Run.Along Ledger.step Timely .empty before)
    (hafter : Run.run Ledger.step s₁ after = some s₂)
    (htimely₂ : Run.Along Ledger.step Timely s₁ after) :
    (∀ (key : TaskKey) (r : TaskRecord Spec Executor Completed), s₁.store[key]? = some r →
      r.Terminal → s₂.store[key]? = some r) ∧
    ∀ p ∈ s₂.dispatched, s₂.created[p.1]? = some p.2 := by
  have h₁ := (Ledger.sound_empty.run htimely₁ hbefore).1
  have h₂ := h₁.run htimely₂ hafter
  exact ⟨h₂.2, h₂.1.sent⟩

end

/-! ### A late report -/

/-- A task is claimed by the worker `0` and sent out; it expires, and a requeue pass (worker
`1`) starts the worker `2`, which sends the task out again and reports it done. -/
def takenOver : List (Act Unit Nat Nat) :=
  [.notify {} "k" () [1] 0, .work 0 0, .work 0 0, .work 0 0, .work 0 0,
    .requeue {} [⟨"k", (), [1], .running 300, 1, 0, 0, none⟩] 301,
    .work 1 301, .work 2 301, .work 2 301, .work 2 301, .work 2 301,
    .complete 2 (.delegated 7 9), .work 2 302, .work 2 302]

theorem timely_of_check {acts : List (Act Unit Nat Nat)} {s : Ledger Unit Nat Nat}
    (h : Run.check Ledger.step (fun s act => decide (Timely s act)) s acts = true) :
    Run.Along Ledger.step Timely s acts :=
  Run.along_of_check (fun _ _ htimely => of_decide_eq_true htimely) h

/-- The worker `0` learns that its request has failed, and the event comes again. -/
def redelivered : List (Act Unit Nat Nat) :=
  [.complete 0 (.dispatchError false "connection lost"), .notify {} "k" () [2] 303,
    .requeue {} [] 304]

theorem terminal_tasks_stay_done :
    ∃ s₁ s₂ : Ledger Unit Nat Nat, Run.run Ledger.step .empty takenOver = some s₁ ∧
      Run.run Ledger.step s₁ redelivered = some s₂ ∧
      s₁.store["k"]? = some ⟨"k", (), [], .done 7, 2, 0, 302, some 9⟩ ∧
      s₂.store["k"]? = some ⟨"k", (), [], .done 7, 2, 0, 302, some 9⟩ := by
  refine ⟨_, _, rfl, rfl, by decide +kernel, ?_⟩
  exact (terminal_tasks_stay takenOver redelivered rfl (timely_of_check (by decide +kernel)) rfl
    (timely_of_check (by decide +kernel))).1 "k" _ (by decide +kernel) trivial

/-- Then the worker `0` reports that its request failed, and a requeue pass follows. -/
def lateFailure : List (Act Unit Nat Nat) :=
  [.complete 0 (.dispatchError false "connection lost"), .work 0 303, .work 0 303,
    .requeue {} [⟨"k", (), [], .pending, 2, 0, 303, some 9⟩] 304,
    .work 3 304, .work 4 304, .work 4 304, .work 4 304, .work 4 304]

/-- A late report takes a finished task back; it is sent out once more, without its input. -/
theorem finished_task_restarts :
    ∃ s₁ s₂ : Ledger Unit Nat Nat, Run.run Ledger.step .empty takenOver = some s₁ ∧
      Run.run Ledger.step s₁ lateFailure = some s₂ ∧
      s₁.store["k"]?.map (·.state) = some (.done 7) ∧
      s₂.store["k"]?.map (·.state) = some (.running 604) ∧
      s₂.created["k"]? = some [1] ∧ ("k", []) ∈ s₂.dispatched := by
  refine ⟨_, _, rfl, rfl, ?_, ?_, ?_, ?_⟩ <;> decide +kernel

/-! ### The retry budget -/

/-- The worker has claimed the task and not sent it out yet. -/
def Stage.isDispatching (key : TaskKey) : Stage Spec Executor Completed → Bool
  | .dispatching k _ => k == key
  | _ => false

namespace Ledger

/-- The requests for a task that were sent or are about to be. -/
def requests (s : Ledger Spec Executor Completed) (key : TaskKey) : Nat :=
  s.dispatched.countP (·.1 == key) + s.workers.countP (·.stage.isDispatching key)

def attempts (s : Ledger Spec Executor Completed) (key : TaskKey) : Nat :=
  (s.store[key]?.map (·.attempts)).getD 0

/-- Every request had an attempt of its own, out of `M`. -/
def Budgeted (M : Nat) (key : TaskKey) (s : Ledger Spec Executor Completed) : Prop :=
  s.requests key ≤ s.attempts key ∧ s.attempts key ≤ M

variable {s s' : Ledger Spec Executor Completed}

theorem requests_move {i : Nat} {w : Worker Spec Executor Completed}
    (hw : s.workers[i]? = some w) (config : TriggerConfig)
    (stage : Stage Spec Executor Completed) (key : TaskKey) :
    (s.move i config stage).requests key + (w.stage.isDispatching key).toNat =
      s.requests key + (stage.isDispatching key).toNat := by
  obtain ⟨hi, rfl⟩ := List.getElem?_eq_some_iff.mp hw
  simp only [requests, move, countP_set hi]
  cases hb : s.workers[i].stage.isDispatching key with
  | false => cases stage.isDispatching key <;> simp [Nat.add_assoc]
  | true =>
    have hpos : 0 < s.workers.countP (·.stage.isDispatching key) :=
      countP_pos_iff.mpr ⟨_, getElem_mem hi, hb⟩
    cases stage.isDispatching key <;> simp <;> omega

theorem attempts_insert {r : TaskRecord Spec Executor Completed} {key k : TaskKey}
    (hstore : s'.store = s.store.insert k r) :
    s'.attempts key = if key = k then r.attempts else s.attempts key := by
  rw [attempts, hstore, OrderedMap.get_insert]
  split <;> rfl

variable [DecidableEq Spec] [DecidableEq Executor] [DecidableEq Completed] {M : Nat}

/-- A claim finds fewer than `M` attempts, and an update keeps their number. -/
def inBudget (M : Nat) (s : Ledger Spec Executor Completed) : Act Spec Executor Completed → Bool
  | .work i _ =>
    match s.workers[i]? with
    | some ⟨_, .swapping key _ seen _⟩ => s.store[key]? = some seen → seen.attempts < M
    | some ⟨_, .writing key record _⟩ => s.store[key]?.map (·.attempts) = some record.attempts
    | _ => true
  | _ => true

/-- A step in the budget makes as many requests as it counts attempts. -/
theorem requests_step {act : Act Spec Executor Completed} (hP : inBudget M s act)
    (hstep : s.step act = some s') (key : TaskKey) :
    ∃ b : Bool, s'.requests key = s.requests key + b.toNat ∧
      s'.attempts key = s.attempts key + b.toNat ∧ (b = true → s.attempts key < M) := by
  cases act with
  | notify config k spec payload now =>
    cases hstep
    refine ⟨false, ?_⟩
    unfold notify
    split
    · exact ⟨rfl, rfl, nofun⟩
    · next hnew =>
      refine ⟨by simp [requests, Stage.isDispatching], (attempts_insert rfl).trans ?_, nofun⟩
      split
      · next hk => simp [hk, attempts, getElem?_eq_none hnew, TaskRecord.pending]
      · rfl
  | requeue config due now =>
    simp only [step, Option.ite_none_right_eq_some, Option.some.injEq] at hstep
    obtain ⟨-, rfl⟩ := hstep
    exact ⟨false, by simp [requests, Stage.isDispatching], rfl, nofun⟩
  | complete i outcome =>
    simp only [step] at hstep
    split at hstep
    · next hw =>
      cases hstep
      exact ⟨false, requests_move hw _ _ key, rfl, nofun⟩
    · cases hstep
  | work i now =>
    simp only [step] at hstep
    cases hw : s.workers[i]? with
    | none => simp [hw] at hstep
    | some w =>
      obtain ⟨config, stage⟩ := w
      simp only [hw] at hstep
      simp only [inBudget, hw] at hP
      have hmove := fun stage => requests_move hw config stage key
      cases stage <;> simp only [work] at hstep
      case swapping k deadlineUnix seen readAt =>
        split at hstep
        · next hseen =>
          cases hstep
          refine ⟨k == key, hmove (.dispatching k _), (attempts_insert rfl).trans ?_, fun hk => ?_⟩
          · split
            · next hk => simp [hk, attempts, hseen]
            · next hk => simp [beq_false_of_ne (Ne.symm hk)]
          · rw [attempts, ← beq_iff_eq.mp hk, hseen]
            exact of_decide_eq_true hP hseen
        · cases hstep
          exact ⟨false, hmove _, rfl, nofun⟩
      case dispatching k record =>
        cases hstep
        refine ⟨false, ?_, rfl, nofun⟩
        have hsent := hmove (.waiting k record)
        simp only [requests, move, Stage.isDispatching, countP_append, countP_singleton]
          at hsent ⊢
        cases hk : k == key <;> simp only [hk, Bool.toNat_true, Bool.toNat_false, if_true,
          Bool.false_eq_true, if_false] at hsent ⊢ <;> omega
      case writing k record rest =>
        cases hstep
        refine ⟨false, hmove _, (attempts_insert rfl).trans ?_, nofun⟩
        split
        · next hk =>
          rw [hk, attempts, of_decide_eq_true hP]
          rfl
        · rfl
      case requeuing rest =>
        cases rest with
        | nil => cases hstep
        | cons record rest =>
          simp only at hstep
          split at hstep
          · cases hstep
            exact ⟨false, hmove _, rfl, nofun⟩
          · cases hstep
            refine ⟨false, (Eq.trans ?_ (hmove (.requeuing rest))), rfl, nofun⟩
            simp [requests, Stage.isDispatching]
      all_goals
        (repeat' split at hstep) <;> cases hstep <;> exact ⟨false, hmove _, rfl, nofun⟩

end Ledger

/-- **Tasks keep to their retry budget**, in every run in which a claim finds attempts left
and an update keeps their number. -/
theorem dispatches_le_maxAttempts [DecidableEq Spec] [DecidableEq Executor]
    [DecidableEq Completed] (maxAttempts : Nat) (acts : List (Act Spec Executor Completed))
    {s : Ledger Spec Executor Completed} (hrun : Run.run Ledger.step .empty acts = some s)
    (h : Run.Along Ledger.step (fun s act => s.inBudget maxAttempts act) .empty acts)
    (key : TaskKey) : s.dispatched.countP (·.1 == key) ≤ maxAttempts := by
  have hbudgeted : Ledger.Budgeted maxAttempts key s := by
    refine Run.run_invariant (fun t act t' hstep hP ht => ?_) h ?_ hrun
    · obtain ⟨b, hrequests, hattempts, hb⟩ := Ledger.requests_step hP hstep key
      rw [Ledger.Budgeted, hrequests, hattempts]
      cases b with
      | false => exact ht
      | true => exact ⟨Nat.succ_le_succ ht.1, hb rfl⟩
    · simp [Ledger.Budgeted, Ledger.requests, Ledger.attempts, Ledger.empty]
  exact Nat.le_trans (Nat.le_trans (Nat.le_add_right _ _) hbudgeted.1) hbudgeted.2

/-- The first attempt expires; a requeue pass sends the task out once more. -/
theorem dispatches_le_three : ∃ s : Ledger Unit Nat Nat,
    Run.run Ledger.step .empty takenOver = some s ∧ s.dispatched.countP (·.1 == "k") ≤ 3 :=
  ⟨_, rfl, dispatches_le_maxAttempts 3 takenOver rfl
    (Run.along_of_check (fun _ _ h => h) (by decide +kernel)) "k"⟩

/-- A requeue pass starts a second `run_task` for a task that is still pending; the first
sends it out and expires, and the second claims it although the one attempt is used up. -/
theorem dispatched_twice : ∃ s : Ledger Unit Nat Nat, Run.run Ledger.step .empty
    [.notify ⟨1, 300⟩ "k" () [1] 0, .requeue ⟨1, 300⟩ [.pending "k" () [1] 0] 0, .work 1 0,
      .work 0 0, .work 0 0, .work 0 0, .work 0 0,
      .work 2 301, .work 2 301, .work 2 301, .work 2 301] = some s ∧
    s.dispatched.countP (·.1 == "k") = 2 := by
  refine ⟨_, rfl, ?_⟩
  decide +kernel

end GuardianDb.Compute
