/-
Batched operations (`p2p/network/core/batch_processor.rs`).

Operations wait in a queue of their type, or in one queue if smart batching is off. A
submitter that finds a queue long enough processes it (`process_ready_batches`,
`process_pending_batch`), and a background task takes what is old. A batch is a script of
backend calls and replies, which runs one entry at a time between those of the others.
The semaphore only limits how many scripts run at once; here any number may. The backend
never fails, and what it gives for a hash is the blob with this hash.

Every operation should come to one call of its own and one reply with the result of this
call, `process_individual_operation`. That holds of other batches only as far as they are
a rearrangement of such scripts.

  * `operations_conserved` — if every extraction takes the whole queue, adds are not
    combined, and no unpin or publish is left to the background task, then every
    operation is waiting or underway, or it is performed and answered once.
  * `operations_lost` — otherwise they are dropped, altered or not performed.
-/
import GuardianDb.Lib.Run
import GuardianDb.Lib.SortBy
import Mathlib.Data.List.Flatten
import Mathlib.Data.List.Perm.Subperm

namespace GuardianDb.P2p.Batch

open List

/-! ### Operations -/

abbrev Bytes := List UInt8

/-- `OperationData`; it determines the `OperationType`. -/
inductive OperationData where
  | add (data : Bytes)
  | get (hash : String)
  | pin (hash : String)
  | unpin (hash : String)
  | pubSub (topic : String) (data : Bytes)
  deriving DecidableEq

structure AddResponse where
  name : String
  hash : String
  size : String
  deriving DecidableEq

inductive OperationResult where
  | add (r : AddResponse)
  | get (data : Bytes)
  | pin (ok : Bool)
  | unpin (ok : Bool)
  | pubSub (ok : Bool)
  deriving DecidableEq

structure BatchOperation where
  id : String
  data : OperationData
  priority : Nat
  deriving DecidableEq

/-- The part of `BatchConfig` that decides what is processed. -/
structure BatchConfig where
  maxBatchSize : Nat
  enableSmartBatching : Bool
  compressionThreshold : Nat

/-- A backend that never fails and whose hashes stand for their blobs. -/
structure Backend where
  add : Bytes → AddResponse
  cat : String → Bytes
  cat_add : ∀ data, cat (add data).hash = data

/-- A backend call, for an operation or for a batch, or the reply to a submitter. -/
inductive Act where
  | call (id : Option String) (data : OperationData)
  | reply (id : String) (answer : Except String OperationResult)
  deriving DecidableEq

/-- It is made for this operation. -/
def Act.about (id : String) : Act → Bool
  | .call id' _ => id' == some id
  | .reply id' _ => id' == id

variable {op : BatchOperation}

section
variable (cfg : BatchConfig) (B : Backend)

/-- `add_operation`, `get_operation`, `pin_operation`, `unpin_operation` and
`pubsub_operation`. -/
def perform : OperationData → OperationResult
  | .add data => .add (B.add data)
  | .get hash => .get (B.cat hash)
  | .pin _ => .pin true
  | .unpin _ => .unpin true
  | .pubSub _ _ => .pubSub true

/-- `process_individual_operation`. -/
def individual (op : BatchOperation) : List Act :=
  [.call (some op.id) op.data, .reply op.id (.ok (perform B op.data))]

/-- `process_individual_operation_static`. -/
def individualStatic (op : BatchOperation) : List Act :=
  match op.data with
  | .unpin _ => [.reply op.id (.error "Operation not implemented")]
  | .pubSub _ _ => [.reply op.id (.ok (.pubSub false))]
  | _ => individual B op

def BatchOperation.bytes (op : BatchOperation) : Bytes :=
  match op.data with
  | .add data => data
  | _ => []

/-- The replies for a combined blob; each gets its offset in the hash. -/
def distribute (r : AddResponse) : Nat → List BatchOperation → List Act
  | _, [] => []
  | start, op :: batch =>
      .reply op.id (.ok (.add ⟨r.name ++ "_" ++ op.id, r.hash ++ "_" ++ toString start,
        toString op.bytes.length⟩)) :: distribute r (start + op.bytes.length) batch

/-- Adds of a batch become one blob. -/
def combines (batch : List BatchOperation) : Bool :=
  decide (cfg.compressionThreshold < (batch.flatMap BatchOperation.bytes).length) &&
    decide (1 < batch.length)

/-- `process_add_batch`. -/
def addBatch (batch : List BatchOperation) : List Act :=
  if combines cfg batch then
    let blob := batch.flatMap BatchOperation.bytes
    .call none (.add blob) :: distribute (B.add blob) 0 batch
  else batch.flatMap (individual B)

/-- `process_get_batch`: the calls run at the same time and come in any order. -/
def getBatch (calls batch : List BatchOperation) : List Act :=
  calls.map (fun op => .call (some op.id) op.data) ++
    batch.map fun op => .reply op.id (.ok (perform B op.data))

/-- A queue in the order of priorities. -/
def byPriority (queue : List BatchOperation) : List BatchOperation :=
  SortBy.sortBy (fun a b => compare b.priority a.priority) queue

/-! ### The processor -/

/-- The queues: `TypedQueues`, and `pending_operations`. -/
inductive Queue where
  | add
  | get
  | pin
  | pubsub
  | pending

def place (data : OperationData) : Queue :=
  if cfg.enableSmartBatching then
    match data with
    | .add _ => .add
    | .get _ => .get
    | .pin _ | .unpin _ => .pin
    | .pubSub _ _ => .pubsub
  else .pending

/-- The queues, the scripts that are underway, what has happened, and what was
submitted. -/
structure Processor where
  addQueue : List BatchOperation
  getQueue : List BatchOperation
  pinQueue : List BatchOperation
  pubsubQueue : List BatchOperation
  pending : List BatchOperation
  tasks : List (List Act)
  history : List Act
  submitted : List BatchOperation

/-- A processor without operations. -/
def Processor.new : Processor := ⟨[], [], [], [], [], [], [], []⟩

def Processor.queue (s : Processor) : Queue → List BatchOperation
  | .add => s.addQueue
  | .get => s.getQueue
  | .pin => s.pinQueue
  | .pubsub => s.pubsubQueue
  | .pending => s.pending

def Processor.queued (s : Processor) : List BatchOperation :=
  s.addQueue ++ s.getQueue ++ s.pinQueue ++ s.pubsubQueue ++ s.pending

/-- What may happen. -/
inductive Action where
  /-- An operation is submitted and queued. -/
  | submit (op : BatchOperation)
  /-- `process_ready_batches`, with the order of the calls for a batch of gets. -/
  | ready (calls : List BatchOperation)
  /-- `process_pending_batch`. -/
  | pendingBatch
  /-- `process_automatic_typed_batches`; which queues have an old operation in front. -/
  | automatic (oldAdd oldGet oldPin : Bool)
  /-- `process_automatic_simple_batch`. -/
  | automaticSimple
  /-- A task makes its next call or reply. -/
  | work (i : Nat)

/-- `add_batch_operation` until the check for immediate processing. -/
def enqueue (s : Processor) (op : BatchOperation) : Processor :=
  match place cfg op.data with
  | .add => { s with addQueue := s.addQueue ++ [op] }
  | .get => { s with getQueue := s.getQueue ++ [op] }
  | .pin => { s with pinQueue := s.pinQueue ++ [op] }
  | .pubsub => { s with pubsubQueue := s.pubsubQueue ++ [op] }
  | .pending => { s with pending := s.pending ++ [op] }

/-- `extract_batch` of a queue that is `due`: the batch. -/
def extracted (due : Bool) (quota : Nat) (queue : List BatchOperation) : List BatchOperation :=
  if due then (byPriority queue).take quota else []

/-- What stays in the queue: it is drained as a whole. -/
def left (due : Bool) (queue : List BatchOperation) : List BatchOperation :=
  if due then [] else queue

/-- What is drained and not taken: its senders are dropped, which the submitters see. -/
def dropped (due : Bool) (quota : Nat) (queue : List BatchOperation) : List Act :=
  if due then ((byPriority queue).drop quota).map fun op =>
    .reply op.id (.error "Failed to receive result: channel closed")
  else []

def reached (share : Nat) (queue : List BatchOperation) : Bool :=
  decide (cfg.maxBatchSize / share ≤ queue.length)

def step (s : Processor) : Action → Option Processor
  | .submit op =>
      if s.submitted.any fun op' => op'.id == op.id then none
      else some { enqueue cfg s op with submitted := s.submitted ++ [op] }
  | .ready calls =>
      let gets := extracted (reached cfg 2 s.getQueue) (cfg.maxBatchSize / 2) s.getQueue
      if cfg.enableSmartBatching && calls.isPerm gets then
        some { s with
          addQueue := left (reached cfg 4 s.addQueue) s.addQueue
          getQueue := left (reached cfg 2 s.getQueue) s.getQueue
          tasks := s.tasks ++ [addBatch cfg B (extracted (reached cfg 4 s.addQueue)
            (cfg.maxBatchSize / 4) s.addQueue) ++ getBatch B calls gets]
          history := s.history ++
            dropped (reached cfg 4 s.addQueue) (cfg.maxBatchSize / 4) s.addQueue ++
            dropped (reached cfg 2 s.getQueue) (cfg.maxBatchSize / 2) s.getQueue }
      else none
  | .pendingBatch =>
      if cfg.enableSmartBatching then none
      else some { s with
        pending := s.pending.drop cfg.maxBatchSize
        tasks := s.tasks ++ [(s.pending.take cfg.maxBatchSize).flatMap (individual B)] }
  | .automatic oldAdd oldGet oldPin =>
      if cfg.enableSmartBatching then
        let addDue := oldAdd || reached cfg 4 s.addQueue
        let getDue := oldGet || reached cfg 2 s.getQueue
        let pinDue := oldPin || reached cfg 3 s.pinQueue
        -- the size is the maximum of the share and the length, so that nothing is dropped
        let batches := extracted addDue s.addQueue.length s.addQueue ++
          extracted getDue s.getQueue.length s.getQueue ++
          extracted pinDue s.pinQueue.length s.pinQueue ++
          extracted true s.pubsubQueue.length s.pubsubQueue
        some { s with
          addQueue := left addDue s.addQueue
          getQueue := left getDue s.getQueue
          pinQueue := left pinDue s.pinQueue
          pubsubQueue := []
          tasks := s.tasks ++ [batches.flatMap (individualStatic B)] }
      else none
  | .automaticSimple =>
      if cfg.enableSmartBatching then none
      else some { s with
        pending := s.pending.drop cfg.maxBatchSize
        tasks := s.tasks ++ [(s.pending.take cfg.maxBatchSize).flatMap (individualStatic B)] }
  | .work i =>
      match s.tasks[i]? with
      | some (act :: rest) =>
          some { s with tasks := s.tasks.set i rest, history := s.history ++ [act] }
      | _ => none

/-- The background task performs it. -/
def BatchOperation.inBackground (op : BatchOperation) : Bool :=
  match op.data with
  | .unpin _ | .pubSub _ _ => false
  | _ => true

/-- A step that neither drops nor alters an operation: a submitter that takes a queue
takes all of it and does not combine adds, and the background task finds no unpin and
no publish. -/
def Faithful (s : Processor) : Action → Prop
  | .ready _ =>
      (cfg.maxBatchSize / 4 ≤ s.addQueue.length →
        s.addQueue.length ≤ cfg.maxBatchSize / 4 ∧ combines cfg s.addQueue = false) ∧
      (cfg.maxBatchSize / 2 ≤ s.getQueue.length → s.getQueue.length ≤ cfg.maxBatchSize / 2)
  | .automatic _ _ oldPin =>
      s.pubsubQueue = [] ∧ ((oldPin || reached cfg 3 s.pinQueue) = true →
        ∀ op ∈ s.pinQueue, op.inBackground = true)
  | .automaticSimple => ∀ op ∈ s.pending.take cfg.maxBatchSize, op.inBackground = true
  | _ => True

/-! ### Batches -/

variable {cfg B} {batch calls queue : List BatchOperation} {due : Bool} {quota : Nat}

theorem byPriority_perm (queue : List BatchOperation) : (byPriority queue).Perm queue :=
  SortBy.sortBy_perm _ queue

theorem combines_perm (hp : batch.Perm queue) : combines cfg batch = combines cfg queue := by
  rw [combines, combines, (hp.flatMap_right BatchOperation.bytes).length_eq, hp.length_eq]

/-- The calls of all, then the replies to all, rearrange call and reply for each. -/
theorem map_append_map_perm (f g : BatchOperation → Act) :
    ∀ batch : List BatchOperation,
      (batch.map f ++ batch.map g).Perm (batch.flatMap fun op => [f op, g op])
  | [] => List.Perm.refl _
  | op :: batch => by
      refine List.Perm.cons _ (perm_middle.trans (List.Perm.cons _ ?_))
      exact map_append_map_perm f g batch

theorem getBatch_perm (hp : calls.Perm batch) :
    (getBatch B calls batch).Perm (batch.flatMap (individual B)) :=
  ((hp.map _).append_right _).trans (map_append_map_perm _ _ batch)

theorem individualStatic_flatMap (h : ∀ op ∈ batch, op.inBackground = true) :
    batch.flatMap (individualStatic B) = batch.flatMap (individual B) := by
  refine flatMap_congr fun op hop => ?_
  have hback := h op hop
  rw [BatchOperation.inBackground] at hback
  rw [individualStatic]
  cases hd : op.data <;> simp_all

section
variable (hquota : due = true → queue.length ≤ quota)
include hquota

theorem extracted_perm : (extracted due quota queue ++ left due queue).Perm queue := by
  cases due with
  | false => exact List.Perm.refl _
  | true =>
    have hlen : (byPriority queue).length ≤ quota :=
      (byPriority_perm queue).length_eq.trans_le (hquota rfl)
    rw [extracted, left, if_pos rfl, if_pos rfl, take_of_length_le hlen, append_nil]
    exact byPriority_perm queue

theorem dropped_eq_nil : dropped due quota queue = [] := by
  rw [dropped]
  split
  · rename_i hdue
    rw [drop_of_length_le ((byPriority_perm queue).length_eq.trans_le (hquota hdue)),
      map_nil]
  · rfl

end

/-- An extraction that takes the whole queue moves its scripts. -/
theorem count_extracted (B : Backend) (hquota : due = true → queue.length ≤ quota) (act : Act) :
    ((extracted due quota queue).flatMap (individual B)).count act +
      ((left due queue).flatMap (individual B)).count act =
      (queue.flatMap (individual B)).count act := by
  rw [← count_append, ← flatMap_append]
  exact ((extracted_perm hquota).flatMap_right _).count_eq act

theorem mem_extracted (h : op ∈ extracted due quota queue) :
    due = true ∧ op ∈ queue := by
  rw [extracted] at h
  split at h
  · exact ⟨‹_›, (byPriority_perm queue).mem_iff.mp (mem_of_mem_take h)⟩
  · exact absurd h not_mem_nil

theorem mem_left (h : op ∈ left due queue) : op ∈ queue := by
  rw [left] at h
  split at h
  · exact absurd h not_mem_nil
  · exact h

/-- The next entry of a task is one of those that are underway. -/
theorem flatten_set_perm {act : Act} {rest : List Act} :
    ∀ {tasks : List (List Act)} {i : Nat}, tasks[i]? = some (act :: rest) →
      tasks.flatten.Perm (act :: (tasks.set i rest).flatten)
  | [], _, h => by simp at h
  | task :: tasks, 0, h => by
      obtain rfl : task = act :: rest := by simpa using h
      exact List.Perm.refl _
  | task :: tasks, i + 1, h => by
      have ih : tasks.flatten.Perm (act :: (tasks.set i rest).flatten) :=
        flatten_set_perm (by simpa using h)
      exact (ih.append_left task).trans perm_middle

/-! ### Conservation -/

/-- What has happened, is underway and is to come. -/
def Processor.acts (B : Backend) (s : Processor) : List Act :=
  s.history ++ s.tasks.flatten ++ s.queued.flatMap (individual B)

/-- Between faithful steps: the operations have their own identifiers, each waits in its
queue, and all there is are the scripts of what was submitted. -/
structure Conserved (cfg : BatchConfig) (B : Backend) (s : Processor) : Prop where
  ids : (s.submitted.map BatchOperation.id).Nodup
  placed : ∀ q, ∀ op ∈ s.queue q, place cfg op.data = q
  acts : (s.acts B).Perm (s.submitted.flatMap (individual B))

theorem Conserved.new : Conserved cfg B .new where
  ids := nodup_nil
  placed := fun q op hop => by cases q <;> exact absurd hop not_mem_nil
  acts := List.Perm.refl _

variable {s s' : Processor}

/-- A step that submits nothing may only move operations out of the queues and acts. -/
theorem Conserved.moved (h : Conserved cfg B s) (hsub : s'.submitted = s.submitted)
    (hqueue : ∀ q, s'.queue q ⊆ s.queue q) (hacts : ∀ act, (s'.acts B).count act =
      (s.acts B).count act) : Conserved cfg B s' where
  ids := hsub ▸ h.ids
  placed := fun q op hop => h.placed q op (hqueue q hop)
  acts := by
    rw [hsub]
    exact (perm_iff_count.mpr hacts).trans h.acts

/-- In its queue an add or get is one, and a publish is in no other. -/
theorem inBackground_of_place {q : Queue} (h : place cfg op.data = q) :
    (q = .add ∨ q = .get → op.inBackground = true) ∧
      (q = .pubsub → op.inBackground = false) ∧
      (q = .pending → cfg.enableSmartBatching = false) := by
  obtain ⟨id, data, priority⟩ := op
  subst h
  cases hsmart : cfg.enableSmartBatching <;> cases data <;>
    simp [place.eq_def, BatchOperation.inBackground, hsmart]

theorem Conserved.submit (h : Conserved cfg B s) (hfresh : ∀ op' ∈ s.submitted, op'.id ≠ op.id) :
    Conserved cfg B { enqueue cfg s op with submitted := s.submitted ++ [op] } where
  ids := by
    rw [map_append, map_singleton]
    refine nodup_append.mpr ⟨h.ids, nodup_singleton _, ?_⟩
    intro id hid id' hid'
    obtain ⟨op', hop', rfl⟩ := mem_map.mp hid
    rw [mem_singleton.mp hid']
    exact hfresh op' hop'
  placed := by
    intro q op' hop'
    rw [enqueue] at hop'
    cases hplace : place cfg op.data <;> rw [hplace] at hop' <;> cases q <;>
      first
      | exact h.placed _ op' hop'
      | (rcases mem_append.mp hop' with hold | hnew
         · exact h.placed _ op' hold
         · rw [mem_singleton.mp hnew, hplace])
  acts := by
    refine perm_iff_count.mpr fun act => ?_
    have hcount := h.acts.count_eq act
    rw [enqueue]
    cases place cfg op.data <;>
      (simp only [Processor.acts, Processor.queued, flatMap_append, count_append,
        flatMap_cons, flatMap_nil, append_nil] at hcount ⊢
       omega)

/-- `process_pending_batch`, and what the background task does in its place. -/
theorem Conserved.pendingTaken {task : List Act} {n : Nat} (h : Conserved cfg B s)
    (htask : task = (s.pending.take n).flatMap (individual B)) :
    Conserved cfg B { s with pending := s.pending.drop n, tasks := s.tasks ++ [task] } := by
  refine h.moved rfl (fun q => ?_) fun act => ?_
  · cases q <;> first | exact drop_subset _ _ | exact fun _ => id
  · have hcount : (s.pending.flatMap (individual B)).count act =
        ((s.pending.take n).flatMap (individual B)).count act +
          ((s.pending.drop n).flatMap (individual B)).count act := by
      rw [← count_append, ← flatMap_append, take_append_drop]
    simp only [Processor.acts, Processor.queued, flatMap_append, count_append,
      flatten_append, flatten_cons, flatten_nil, append_nil, htask]
    omega

/-- `process_automatic_typed_batches` takes whole queues. -/
theorem Conserved.automatic {addDue getDue pinDue : Bool} {task : List Act}
    (h : Conserved cfg B s) (hpub : s.pubsubQueue = [])
    (htask : task = (extracted addDue s.addQueue.length s.addQueue ++
      extracted getDue s.getQueue.length s.getQueue ++
      extracted pinDue s.pinQueue.length s.pinQueue).flatMap (individual B)) :
    Conserved cfg B { s with
      addQueue := left addDue s.addQueue
      getQueue := left getDue s.getQueue
      pinQueue := left pinDue s.pinQueue
      pubsubQueue := []
      tasks := s.tasks ++ [task] } := by
  refine h.moved rfl (fun q => ?_) fun act => ?_
  · cases q <;> first
      | exact fun _ => mem_left
      | exact nil_subset _
      | exact fun _ => id
  · have hall : ∀ due queue,
        ((extracted due queue.length queue).flatMap (individual B)).count act +
          ((left due queue).flatMap (individual B)).count act =
          (queue.flatMap (individual B)).count act := fun due queue =>
      count_extracted B (fun _ => le_rfl) act
    have hadd := hall addDue s.addQueue
    have hget := hall getDue s.getQueue
    have hpin := hall pinDue s.pinQueue
    simp only [Processor.acts, Processor.queued, flatMap_append, count_append,
      flatten_append, flatten_cons, flatten_nil, append_nil, htask, hpub]
    omega

theorem Conserved.step {a : Action} (hstep : step cfg B s a = some s') (hok : Faithful cfg s a)
    (h : Conserved cfg B s) : Conserved cfg B s' := by
  cases a with
  | submit op =>
    simp only [Batch.step, Option.ite_none_left_eq_some, Option.some.injEq] at hstep
    obtain ⟨hany, rfl⟩ := hstep
    refine h.submit fun op' hop' heq => hany (any_eq_true.mpr ⟨op', hop', ?_⟩)
    exact beq_iff_eq.mpr heq
  | ready calls =>
    simp only [Batch.step, Option.ite_none_right_eq_some, Option.some.injEq, Bool.and_eq_true]
      at hstep
    obtain ⟨⟨_, hperm⟩, rfl⟩ := hstep
    have hadd : reached cfg 4 s.addQueue = true → s.addQueue.length ≤ cfg.maxBatchSize / 4 :=
      fun hr => (hok.1 (of_decide_eq_true hr)).1
    have hget : reached cfg 2 s.getQueue = true → s.getQueue.length ≤ cfg.maxBatchSize / 2 :=
      fun hr => hok.2 (of_decide_eq_true hr)
    have hown : addBatch cfg B (extracted (reached cfg 4 s.addQueue) (cfg.maxBatchSize / 4)
        s.addQueue) = (extracted (reached cfg 4 s.addQueue) (cfg.maxBatchSize / 4)
        s.addQueue).flatMap (individual B) := by
      cases hr : reached cfg 4 s.addQueue with
      | false => rfl
      | true =>
        have hall := extracted_perm hadd
        rw [hr, left, if_pos rfl, append_nil] at hall
        rw [addBatch, combines_perm hall, (hok.1 (of_decide_eq_true hr)).2]
        rfl
    refine h.moved rfl (fun q => ?_) fun act => ?_
    · cases q <;> first | exact fun _ => mem_left | exact fun _ => id
    · have hgets := (getBatch_perm (B := B) (isPerm_iff.mp hperm)).count_eq act
      have hcountA := count_extracted B hadd act
      have hcountG := count_extracted B hget act
      simp only [Processor.acts, Processor.queued, flatMap_append, count_append,
        flatten_append, flatten_cons, flatten_nil, append_nil,
        dropped_eq_nil hadd, dropped_eq_nil hget, hown]
      omega
  | pendingBatch =>
    simp only [Batch.step, Option.ite_none_left_eq_some, Option.some.injEq] at hstep
    obtain ⟨_, rfl⟩ := hstep
    exact h.pendingTaken rfl
  | automatic oldAdd oldGet oldPin =>
    simp only [Batch.step, Option.ite_none_right_eq_some, Option.some.injEq] at hstep
    obtain ⟨_, rfl⟩ := hstep
    refine h.automatic hok.1 ?_
    have hpub : extracted true s.pubsubQueue.length s.pubsubQueue = [] := by rw [hok.1]; rfl
    rw [hpub, append_nil]
    refine individualStatic_flatMap fun op hop => ?_
    rcases mem_append.mp hop with hop | hop
    · rcases mem_append.mp hop with hop | hop
      · exact (inBackground_of_place (h.placed .add op (mem_extracted hop).2)).1 (.inl rfl)
      · exact (inBackground_of_place (h.placed .get op (mem_extracted hop).2)).1 (.inr rfl)
    · exact hok.2 (mem_extracted hop).1 op (mem_extracted hop).2
  | automaticSimple =>
    simp only [Batch.step, Option.ite_none_left_eq_some, Option.some.injEq] at hstep
    obtain ⟨_, rfl⟩ := hstep
    exact h.pendingTaken (individualStatic_flatMap hok)
  | work i =>
    simp only [Batch.step] at hstep
    split at hstep
    · rename_i act rest htask
      cases hstep
      refine h.moved rfl (fun q => by cases q <;> exact fun _ => id) fun act' => ?_
      have hnext := (flatten_set_perm htask).count_eq act'
      simp only [Processor.acts, Processor.queued, count_append, count_cons,
        count_nil] at hnext ⊢
      omega
    · cases hstep

/-- Every faithful run conserves the operations. -/
theorem Conserved.run {as : List Action} (hrun : Run.run (Batch.step cfg B) s as = some s')
    (hok : Run.Along (Batch.step cfg B) (Faithful cfg) s as) (h : Conserved cfg B s) :
    Conserved cfg B s' :=
  Run.run_invariant (fun _ _ _ hstep hok h => h.step hstep hok) hok h hrun

/-! ### One operation -/

variable {op : BatchOperation}

/-- Scripts of operations with their own identifiers do not mix. -/
theorem filter_scripts : ∀ {ops : List BatchOperation},
    (ops.map BatchOperation.id).Nodup → op ∈ ops →
      (ops.flatMap (individual B)).filter (Act.about op.id) = individual B op
  | [], _, h => absurd h not_mem_nil
  | op' :: ops, hids, h => by
      rw [map_cons, nodup_cons] at hids
      rw [flatMap_cons, filter_append]
      rcases mem_cons.mp h with rfl | hmem
      · have hrest : (ops.flatMap (individual B)).filter (Act.about op.id) = [] := by
          refine filter_eq_nil_iff.mpr fun act hact habout => hids.1 ?_
          obtain ⟨q, hq, hact⟩ := mem_flatMap.mp hact
          refine mem_map.mpr ⟨q, hq, ?_⟩
          simp only [individual, mem_cons, not_mem_nil, or_false] at hact
          rcases hact with rfl | rfl <;> simpa [Act.about] using habout
        rw [hrest, append_nil]
        simp [individual, Act.about]
      · have hne : op'.id ≠ op.id := fun heq =>
          hids.1 (heq ▸ mem_map_of_mem hmem)
        rw [filter_scripts hids.2 hmem]
        simp [individual, Act.about, hne]

theorem Conserved.own (h : Conserved cfg B s) (hop : op ∈ s.submitted) :
    ((s.acts B).filter (Act.about op.id)).Perm (individual B op) :=
  (h.acts.filter _).trans (by rw [filter_scripts h.ids hop])

theorem Conserved.answer {answer : Except String OperationResult} (h : Conserved cfg B s)
    (hop : op ∈ s.submitted) (hin : .reply op.id answer ∈ s.history) :
    answer = .ok (perform B op.data) := by
  have hown : .reply op.id answer ∈ individual B op := by
    refine (h.own hop).mem_iff.mp (mem_filter.mpr ⟨?_, by simp [Act.about]⟩)
    simp [Processor.acts, hin]
  simpa [individual] using hown

/-! ### Completion -/

theorem Conserved.queue_eq_nil {q : Queue} (h : Conserved cfg B s)
    (hne : ∀ op ∈ s.queue q, place cfg op.data ≠ q) : s.queue q = [] :=
  eq_nil_iff_forall_not_mem.mpr fun op hop => hne op hop (h.placed q op hop)

theorem length_scripts (ops : List BatchOperation) :
    (ops.flatMap (individual B)).length = 2 * ops.length := by
  simp [individual, length_flatMap, Nat.mul_comm]

/-- No more happens than the scripts of what was submitted. -/
theorem Conserved.history_length (h : Conserved cfg B s) :
    s.history.length + s.tasks.flatten.length + 2 * s.queued.length = 2 * s.submitted.length := by
  have hlen := h.acts.length_eq
  rwa [length_scripts, Processor.acts, length_append, length_append,
    length_scripts] at hlen

/-- Nothing waits or is underway. -/
def Processor.Idle (s : Processor) : Prop := s.queued = [] ∧ s.tasks.flatten = []

/-- A task that has not ended can go on. -/
theorem exists_work (h : s.tasks.flatten ≠ []) :
    ∃ (i : Nat) (act : Act) (rest : List Act), s.tasks[i]? = some (act :: rest) := by
  obtain ⟨task, htask, hne⟩ := flatten_ne_nil_iff.mp h
  obtain ⟨i, hi⟩ := mem_iff_getElem?.mp htask
  obtain ⟨act, rest, rfl⟩ := exists_cons_of_ne_nil hne
  exact ⟨i, act, rest, hi⟩

def Takes (cfg : BatchConfig) (B : Backend) (s : Processor) (a : Action) (s' : Processor) : Prop :=
  Batch.step cfg B s a = some s' ∧ s'.submitted = s.submitted ∧ s'.history = s.history ∧
    s'.queued ⊆ s.queued ∧ s'.queued.length < s.queued.length

theorem Conserved.take_smart (h : Conserved cfg B s) (hsmart : cfg.enableSmartBatching = true)
    (hwait : s.queued ≠ []) (hback : ∀ op ∈ s.queued, op.inBackground = true) :
    ∃ a s', Takes cfg B s a s' ∧ Faithful cfg s a := by
  have hpending : s.pending = [] := h.queue_eq_nil (q := .pending) fun op _ hplace =>
    absurd hsmart (by simp [(inBackground_of_place hplace).2.2 rfl])
  have hpub : s.pubsubQueue = [] := h.queue_eq_nil (q := .pubsub) fun op hop hplace => by
    have hop' := hback op (by simp [Processor.queued, show op ∈ s.pubsubQueue from hop])
    exact absurd hop' (by simp [(inBackground_of_place hplace).2.1 rfl])
  obtain ⟨s', hstep, hnone, hsub, hhist⟩ : ∃ s',
      Batch.step cfg B s (.automatic true true true) = some s' ∧ s'.queued = [] ∧
        s'.submitted = s.submitted ∧ s'.history = s.history :=
    ⟨_, if_pos hsmart, by simp [Processor.queued, left, hpending], rfl, rfl⟩
  refine ⟨_, s', ⟨hstep, hsub, hhist, ?_, ?_⟩, hpub, fun _ op hop =>
    hback op (by simp [Processor.queued, hop])⟩
  · rw [hnone]
    exact nil_subset _
  · rw [hnone]
    exact length_pos_iff.mpr hwait

theorem Conserved.take_simple (h : Conserved cfg B s) (hsimple : cfg.enableSmartBatching = false)
    (hmax : 0 < cfg.maxBatchSize) (hwait : s.queued ≠ [])
    (hback : ∀ op ∈ s.queued, op.inBackground = true) :
    ∃ a s', Takes cfg B s a s' ∧ Faithful cfg s a := by
  have htyped : ∀ q, q ≠ .pending → s.queue q = [] := fun q hq =>
    h.queue_eq_nil fun op _ => by simpa [place.eq_def, hsimple] using hq.symm
  have hadd : s.addQueue = [] := htyped .add (by simp)
  have hget : s.getQueue = [] := htyped .get (by simp)
  have hpin : s.pinQueue = [] := htyped .pin (by simp)
  have hpub : s.pubsubQueue = [] := htyped .pubsub (by simp)
  have hqueued : s.queued = s.pending := by simp [Processor.queued, hadd, hget, hpin, hpub]
  have hne : 0 < s.pending.length := length_pos_iff.mpr (hqueued ▸ hwait)
  refine ⟨.automaticSimple, { s with
    pending := s.pending.drop cfg.maxBatchSize
    tasks := s.tasks ++ [(s.pending.take cfg.maxBatchSize).flatMap (individualStatic B)] },
    ⟨by simp [Batch.step, hsimple], rfl, rfl, ?_, ?_⟩,
    fun op hop => hback op (hqueued ▸ mem_of_mem_take hop)⟩
  · grind [Processor.queued]
  · grind [Processor.queued]

/-- Faithful steps complete what waits and is underway. -/
theorem Conserved.complete (h : Conserved cfg B s)
    (hback : ∀ op ∈ s.queued, op.inBackground = true)
    (hsize : cfg.enableSmartBatching = true ∨ 0 < cfg.maxBatchSize) :
    ∃ as s', Run.run (Batch.step cfg B) s as = some s' ∧
      Run.Along (Batch.step cfg B) (Faithful cfg) s as ∧
      (Conserved cfg B s' ∧ s'.submitted = s.submitted ∧
        ∀ op ∈ s'.queued, op.inBackground = true) ∧ s'.Idle := by
  refine Run.exists_run
    (fun t => 2 * s.submitted.length - t.history.length + t.queued.length) ?_ s ⟨h, rfl, hback⟩
  rintro t ⟨ht, hsub, htback⟩ hidle
  have hlen := ht.history_length
  by_cases hwait : t.queued = []
  · obtain ⟨i, act, rest, htask⟩ := exists_work fun hnil => hidle ⟨hwait, hnil⟩
    have hstep : Batch.step cfg B t (.work i) = some { t with
        tasks := t.tasks.set i rest, history := t.history ++ [act] } := by
      simp only [Batch.step, htask]
    have ht' := ht.step hstep trivial
    have hmore := ht'.history_length
    simp only [length_append, length_singleton, hsub] at hmore
    refine ⟨_, _, hstep, trivial, ⟨ht', hsub, htback⟩, ?_⟩
    rw [length_append, length_singleton]
    exact Nat.add_lt_add_right (by omega) _
  · obtain ⟨a, t', ⟨hstep, hsub', hhist, hsubset, hlt⟩, hok⟩ :
        ∃ a t', Takes cfg B t a t' ∧ Faithful cfg t a := by
      cases hsmart : cfg.enableSmartBatching with
      | true => exact ht.take_smart hsmart hwait htback
      | false => exact ht.take_simple hsmart (hsize.resolve_left (by simp [hsmart])) hwait htback
    refine ⟨a, t', hstep, hok, ⟨ht.step hstep hok, hsub'.trans hsub,
      fun op hop => htback op (hsubset hop)⟩, ?_⟩
    simp only [hhist]
    omega

end

/-! ### Runs -/

instance (cfg : BatchConfig) (s : Processor) : (a : Action) → Decidable (Faithful cfg s a)
  | .ready _ => inferInstanceAs (Decidable (_ ∧ _))
  | .automatic _ _ _ => inferInstanceAs (Decidable (_ ∧ _))
  | .automaticSimple => inferInstanceAs (Decidable (∀ _ ∈ _, _))
  | .submit _ | .pendingBatch | .work _ => inferInstanceAs (Decidable True)

def spelling : Backend where
  add data := ⟨"blob", String.ofList (data.map fun b => Char.ofNat b.toNat), toString data.length⟩
  cat hash := hash.toList.map fun c => UInt8.ofNat c.toNat
  cat_add data := by
    have hbyte : ∀ b : UInt8, UInt8.ofNat (Char.ofNat b.toNat).toNat = b := fun b => by
      have hb : b.toNat.isValidChar := Or.inl (by have := b.toNat_lt; omega)
      rw [Char.ofNat, dif_pos hb]
      exact UInt8.ofNat_toNat
    simp [Function.comp_def, hbyte]

/-- Batches of one add and two gets. -/
def small : BatchConfig := ⟨4, true, 0⟩

/-- Batches of two adds. -/
def pair : BatchConfig := ⟨8, true, 0⟩

def letterA : BatchOperation := ⟨"1", .add [97], 5⟩

def letterB : BatchOperation := ⟨"2", .add [98], 5⟩

/-- What has happened after a run from the start. -/
def happened (cfg : BatchConfig) (as : List Action) : Option (List Act) :=
  (Run.run (step cfg spelling) .new as).map Processor.history

def getA : BatchOperation := ⟨"2", .get "a", 5⟩

/-- An add is taken by its submitter and answered, and a get waits. -/
def taken : List Action := [.submit letterA, .ready [], .submit getA, .work 0, .work 0]

def afterTaken : Processor :=
  { Processor.new with
    getQueue := [getA]
    tasks := [[]]
    history := individual spelling letterA
    submitted := [letterA, getA] }

end GuardianDb.P2p.Batch
