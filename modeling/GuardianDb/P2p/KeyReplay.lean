/-
Replayed messages and the cache of processed ones.

`handle_sync_message` is a sequence of steps with other deliveries in between: the age
check, the duplicate check, the signature, the handler, and the entry in the cache. The
clock is read at the age check and twice when the entry is made. A run interleaves these
steps for any number of deliveries; `applied` lists the ids whose handler has run.

Nothing between the duplicate check and the entry keeps a second delivery of the same
message out, and an entry may be dropped while a delivery that has passed its age check
still waits for the duplicate check. Runs without these overlaps apply every id once.

  * `Guarded.step` — what one step of such a run keeps.
  * `applied_once` — the ids applied in such a run are distinct.
-/
import Mathlib.Data.List.Nodup
import GuardianDb.Lib.Run
import GuardianDb.P2p.KeySync

namespace GuardianDb.P2p

open Std List Option

/-! ### Deliveries in steps -/

/-- How far the handling of a delivered message has come. -/
inductive Stage where
  | arrived
  | young
  | checked
  | verified
  | handled
  | finished
  deriving DecidableEq, Repr

/-- Past the duplicate check and not yet in the cache. -/
def Stage.Active : Stage → Prop
  | .checked | .verified | .handled => True
  | .arrived | .young | .finished => False

/-- Past the duplicate check, with the handler still to run. -/
def Stage.Pending : Stage → Prop
  | .checked | .verified => True
  | .arrived | .young | .handled | .finished => False

/-- Past the age check. -/
def Stage.Started : Stage → Prop
  | .young | .checked | .verified | .handled => True
  | .arrived | .finished => False

instance : DecidablePred Stage.Active := fun a => by
  cases a <;> unfold Stage.Active <;> infer_instance

/-- A delivered message and how far its handling is. -/
structure Handling where
  message : SyncMessage
  stage : Stage
  deriving DecidableEq, Repr

/-- A synchronizer with its deliveries, the time of the last step, and the ids applied. -/
structure Handlings where
  sync : KeySynchronizer
  inFlight : List Handling
  clock : Int
  applied : List Uuid

/-- The steps of deliveries, each with the times it reads off the clock. -/
inductive Act where
  | deliver (message : SyncMessage)
  | checkAge (i : Nat) (now : Int)
  | checkDuplicate (i : Nat) (now : Int)
  | verifySignature (i : Nat) (now : Int)
  | process (i : Nat) (now : Int)
  | cache (i : Nat) (now cutoffNow : Int)

namespace Handlings

variable (crypto : SyncCrypto) (st : Handlings)

/-- The message of delivery `i`, if it has come to `stage`. -/
def waiting (i : Nat) (stage : Stage) : Option SyncMessage :=
  match st.inFlight[i]? with
  | none => none
  | some h => if h.stage = stage then some h.message else none

/-- Delivery `i` comes to `stage` at the time `now`. -/
def move (i : Nat) (message : SyncMessage) (stage : Stage) (now : Int) : Handlings :=
  { st with inFlight := st.inFlight.set i ⟨message, stage⟩, clock := now }

/-- One step of a delivery. A check that fails ends it. -/
def step : Act → Option Handlings
  | .deliver message => some { st with inFlight := st.inFlight ++ [⟨message, .arrived⟩] }
  | .checkAge i now => (st.waiting i .arrived).map fun message =>
      match KeySynchronizer.isMessageTooOld now message with
      | .ok false => st.move i message .young now
      | _ => st.move i message .finished now
  | .checkDuplicate i now => (st.waiting i .young).map fun message =>
      if st.sync.isMessageDuplicate message then st.move i message .finished now
      else st.move i message .checked now
  | .verifySignature i now => (st.waiting i .checked).map fun message =>
      match st.sync.verifyMessageSignature crypto message with
      | .ok _ => st.move i message .verified now
      | .error _ => st.move i message .finished now
  | .process i now => (st.waiting i .verified).map fun message =>
      match st.sync.processOperation crypto now message with
      | .ok sync => { st.move i message .handled now with
          sync := sync
          applied := st.applied ++ [message.messageId] }
      | .error _ => st.move i message .finished now
  | .cache i now cutoffNow => (st.waiting i .handled).map fun message =>
      { st.move i message .finished cutoffNow with
        sync := st.sync.cacheProcessedMessage message now cutoffNow }

/-- A synchronizer before any delivery. -/
def initial (sync : KeySynchronizer) (clock : Int) : Handlings := ⟨sync, [], clock, []⟩

end Handlings

/-! ### Orderly runs -/

/-- What a step has to meet: the clock does not go back; messages of one id have one
timestamp; and when a message is checked for duplicates it is still younger than
`MAX_MESSAGE_AGE`, and no other delivery of its id is between this check and the cache. -/
def Orderly (st : Handlings) : Act → Prop
  | .deliver message => ∀ h ∈ st.inFlight, h.message.messageId = message.messageId →
      h.message.timestamp = message.timestamp
  | .checkAge _ now => st.clock ≤ now
  | .checkDuplicate i now => st.clock ≤ now ∧ ∀ h ∈ st.inFlight[i]?,
      now - h.message.timestamp < maxMessageAge ∧ ∀ g ∈ st.inFlight, g.stage.Active →
        g.message.messageId ≠ h.message.messageId
  | .verifySignature _ now => st.clock ≤ now
  | .process _ now => st.clock ≤ now
  | .cache _ now cutoffNow => st.clock ≤ now ∧ now ≤ cutoffNow

instance (st : Handlings) : DecidablePred (Orderly st) := fun a => by
  cases a <;> unfold Orderly <;> infer_instance

section
variable {crypto : SyncCrypto} {st st' : Handlings} {i : Nat} {m : SyncMessage} {a b : Stage}
  {now : Int}

/-- The deliveries of one id do not get past each other, and what is applied is remembered
as long as it could be delivered again. -/
structure Guarded (st : Handlings) : Prop where
  nodup : st.applied.Nodup
  same : ∀ g ∈ st.inFlight, ∀ h ∈ st.inFlight, g.message.messageId = h.message.messageId →
    g.message.timestamp = h.message.timestamp
  started : ∀ h ∈ st.inFlight, h.stage.Started → h.message.timestamp ≤ st.clock
  alone : ∀ (i j : Nat) (g h : Handling), st.inFlight[i]? = some g → st.inFlight[j]? = some h →
    g.stage.Active → h.stage.Active → g.message.messageId = h.message.messageId → i = j
  pending : ∀ h ∈ st.inFlight, h.stage.Pending → h.message.messageId ∉ st.applied
  kept : ∀ id ∈ st.applied, ∃ h ∈ st.inFlight, h.message.messageId = id ∧
    (h.stage = .handled ∨
      (∃ time, st.sync.messageCache[id]? = some time ∧ h.message.timestamp ≤ time) ∨
      h.message.timestamp + maxMessageAge ≤ st.clock)

theorem waiting_eq_some (h : st.waiting i a = some m) : st.inFlight[i]? = some ⟨m, a⟩ := by
  rw [Handlings.waiting] at h
  cases hi : st.inFlight[i]? with
  | none => simp [hi] at h
  | some g =>
    simp only [hi, ite_none_right_eq_some, Option.some.injEq] at h
    obtain ⟨rfl, rfl⟩ := h
    rfl

/-- The deliveries after one of them has moved. -/
theorem mem_set (hi : st.inFlight[i]? = some ⟨m, a⟩) {h : Handling} :
    h ∈ st.inFlight.set i ⟨m, b⟩ ↔
      h = ⟨m, b⟩ ∨ ∃ j, j ≠ i ∧ st.inFlight[j]? = some h := by
  have hlt : i < st.inFlight.length := (List.getElem?_eq_some_iff.mp hi).1
  rw [mem_iff_getElem?]
  constructor
  · grind
  · rintro (rfl | ⟨j, hne, hj⟩)
    · exact ⟨i, by simp [hlt]⟩
    · exact ⟨j, by rw [List.getElem?_set_ne fun h => hne h.symm, hj]⟩

/-- Messages are where they were when one of them has moved. -/
theorem mem_set_message (hi : st.inFlight[i]? = some ⟨m, a⟩) {h : Handling}
    (hh : h ∈ st.inFlight.set i ⟨m, b⟩) : ∃ g ∈ st.inFlight, g.message = h.message := by
  rcases (mem_set hi).mp hh with rfl | ⟨j, -, hj⟩
  · exact ⟨⟨m, a⟩, mem_of_getElem? hi, rfl⟩
  · exact ⟨h, mem_of_getElem? hj, rfl⟩

/-- A delivery is still there when one has moved, at its stage if it is another one. -/
theorem exists_mem_set (hi : st.inFlight[i]? = some ⟨m, a⟩) {h : Handling} (hh : h ∈ st.inFlight) :
    ∃ h' ∈ st.inFlight.set i ⟨m, b⟩, h'.message = h.message ∧ (h' = h ∨ h = ⟨m, a⟩) := by
  obtain ⟨j, hj⟩ := mem_iff_getElem?.mp hh
  by_cases hji : j = i
  · subst hji
    cases hi.symm.trans hj
    exact ⟨⟨m, b⟩, (mem_set hi).mpr (.inl rfl), rfl, .inr rfl⟩
  · exact ⟨h, (mem_set hi).mpr (.inr ⟨j, hji, hj⟩), rfl, .inl rfl⟩

section
variable (hg : Guarded st)
include hg

section
variable (hi : st.inFlight[i]? = some ⟨m, a⟩)
include hi

/-- Moving one delivery changes no message. -/
theorem same_set :
    ∀ g ∈ st.inFlight.set i ⟨m, b⟩, ∀ h ∈ st.inFlight.set i ⟨m, b⟩,
      g.message.messageId = h.message.messageId → g.message.timestamp = h.message.timestamp := by
  intro g hgm h hhm heq
  obtain ⟨g', hg', hge⟩ := mem_set_message hi hgm
  obtain ⟨h', hh', hhe⟩ := mem_set_message hi hhm
  rw [← hge, ← hhe] at heq ⊢
  exact hg.same g' hg' h' hh' heq

/-- The messages past their age check are not from the future when one more comes there. -/
theorem started_set (hnow : st.clock ≤ now) (hstarted : b.Started → m.timestamp ≤ now) :
    ∀ h ∈ st.inFlight.set i ⟨m, b⟩, h.stage.Started → h.message.timestamp ≤ now := by
  intro h hh hs
  rcases (mem_set hi).mp hh with rfl | ⟨j, -, hj⟩
  · exact hstarted hs
  · exact Int.le_trans (hg.started h (mem_of_getElem? hj) hs) hnow

/-- Moving one delivery keeps those of one id apart. -/
theorem alone_set (hactive : b.Active → a.Active ∨
      ∀ g ∈ st.inFlight, g.stage.Active → g.message.messageId ≠ m.messageId) :
    ∀ (j k : Nat) (g h : Handling), (st.inFlight.set i ⟨m, b⟩)[j]? = some g →
      (st.inFlight.set i ⟨m, b⟩)[k]? = some h → g.stage.Active → h.stage.Active →
      g.message.messageId = h.message.messageId → j = k := by
  have hlt : i < st.inFlight.length := (List.getElem?_eq_some_iff.mp hi).1
  -- the moved delivery against another one
  have hmoved : ∀ k h, k ≠ i → st.inFlight[k]? = some h → b.Active →
      h.stage.Active → m.messageId ≠ h.message.messageId := by
    intro k h hk hkh hb hh heq
    rcases hactive hb with ha | hnone
    · exact hk (hg.alone i k ⟨m, a⟩ h hi hkh ha hh heq).symm
    · exact hnone h (mem_of_getElem? hkh) hh heq.symm
  intro j k g h hj hk hgs hhs heq
  rw [List.getElem?_set] at hj hk
  by_cases hij : i = j <;> by_cases hik : i = k
  · rw [← hij, ← hik]
  · grind
  · grind
  · rw [if_neg hij] at hj
    rw [if_neg hik] at hk
    exact hg.alone j k g h hj hk hgs hhs heq

/-- The ids that are not applied yet when none is. -/
theorem pending_set (hpending : b.Pending → m.messageId ∉ st.applied) :
    ∀ h ∈ st.inFlight.set i ⟨m, b⟩, h.stage.Pending → h.message.messageId ∉ st.applied := by
  intro h hh hs
  rcases (mem_set hi).mp hh with rfl | ⟨j, -, hj⟩
  · exact hpending hs
  · exact hg.pending h (mem_of_getElem? hj) hs

/-- A step that neither applies nor caches a message. -/
theorem Guarded.move
    (ha : a ≠ .handled) (hnow : st.clock ≤ now) (hstarted : b.Started → m.timestamp ≤ now)
    (hactive : b.Active → a.Active ∨
      ∀ g ∈ st.inFlight, g.stage.Active → g.message.messageId ≠ m.messageId)
    (hpending : b.Pending → m.messageId ∉ st.applied) : Guarded (st.move i m b now) where
  nodup := hg.nodup
  same := same_set hg hi
  started := started_set hg hi hnow hstarted
  alone := alone_set hg hi hactive
  pending := pending_set hg hi hpending
  kept id hid := by
    obtain ⟨h, hh, hhid, hwhy⟩ := hg.kept id hid
    obtain ⟨h', hh', hmsg, hwhich⟩ := exists_mem_set (b := b) hi hh
    refine ⟨h', hh', hmsg ▸ hhid, ?_⟩
    rcases hwhy with hs | hcached | hold
    · rcases hwhich with rfl | rfl
      · exact .inl hs
      · exact absurd hs ha
    · exact .inr (.inl (hmsg ▸ hcached))
    · exact .inr (.inr (Int.le_trans (hmsg ▸ hold) hnow))

/-- A message that is dropped. -/
theorem Guarded.drop (ha : a ≠ .handled) (hnow : st.clock ≤ now) :
    Guarded (st.move i m .finished now) :=
  hg.move hi ha hnow (fun h => h.elim) (fun h => h.elim) fun h => h.elim

end

/-- The handler of a verified message runs: its id was not applied before. -/
theorem Guarded.apply (hi : st.inFlight[i]? = some ⟨m, .verified⟩)
    (hnow : st.clock ≤ now) {sync : KeySynchronizer}
    (hcache : sync.messageCache = st.sync.messageCache) :
    Guarded { st.move i m .handled now with
      sync := sync
      applied := st.applied ++ [m.messageId] } where
  nodup := by
    have hnew := hg.pending _ (mem_of_getElem? hi) trivial
    refine nodup_append.mpr ⟨hg.nodup, nodup_singleton _, ?_⟩
    rintro x hx y hy rfl
    rw [mem_singleton] at hy
    exact hnew (hy ▸ hx)
  same := same_set hg hi
  started := started_set hg hi hnow fun _ =>
    Int.le_trans (hg.started _ (mem_of_getElem? hi) trivial) hnow
  alone := alone_set hg hi fun _ => .inl trivial
  pending h hh hs hmem := by
    rcases (mem_set hi).mp hh with rfl | ⟨j, hji, hj⟩
    · exact hs
    · rcases mem_append.mp hmem with hold | hself
      · exact hg.pending h (mem_of_getElem? hj) hs hold
      · -- a second delivery of the id would be active next to this one
        have hactive : h.stage.Active := by
          cases hst : h.stage <;> simp [hst, Stage.Pending, Stage.Active] at hs ⊢
        exact hji (hg.alone j i h ⟨m, .verified⟩ hj hi hactive trivial
          (mem_singleton.mp hself))
  kept id hid := by
    rcases mem_append.mp hid with hold | hself
    · obtain ⟨h, hh, hhid, hwhy⟩ := hg.kept id hold
      obtain ⟨h, hh', -, rfl | rfl⟩ := exists_mem_set (b := .handled) hi hh
      swap
      · exact absurd (hhid ▸ hold) (hg.pending _ hh trivial)
      refine ⟨h, hh', hhid, ?_⟩
      rcases hwhy with hs | hcached | hexpired
      · exact .inl hs
      · exact .inr (.inl (hcache ▸ hcached))
      · exact .inr (.inr (Int.le_trans hexpired hnow))
    · exact ⟨⟨m, .handled⟩, (mem_set hi).mpr (.inl rfl),
        (mem_singleton.mp hself).symm, .inl rfl⟩

/-- The entry of a handled message is made, and old entries are dropped: what was dropped
is too old to come again. -/
theorem Guarded.cache (hi : st.inFlight[i]? = some ⟨m, .handled⟩)
    {cutoffNow : Int} (hnow : st.clock ≤ now) (hcut : now ≤ cutoffNow) :
    Guarded { st.move i m .finished cutoffNow with
      sync := st.sync.cacheProcessedMessage m now cutoffNow } where
  nodup := hg.nodup
  same := same_set hg hi
  started := started_set hg hi (Int.le_trans hnow hcut) fun h => h.elim
  alone := alone_set hg hi fun h => h.elim
  pending := pending_set hg hi fun h => h.elim
  kept id hid := by
    -- an entry not older than the message is in the cache, or the message is too old
    have hentry : ∀ (h : Handling) (time : Int), h.message.timestamp ≤ time →
        (st.sync.messageCache.insert m.messageId now)[id]? = some time →
        (∃ time, (st.sync.cacheProcessedMessage m now cutoffNow).messageCache[id]? = some time ∧
          h.message.timestamp ≤ time) ∨ h.message.timestamp + maxMessageAge ≤ cutoffNow := by
      grind [KeySynchronizer.cacheProcessedMessage]
    obtain ⟨h, hh, hhid, hwhy⟩ := hg.kept id hid
    have hts : m.messageId = id → h.message.timestamp ≤ now := fun heq => by
      rw [← hg.same _ (mem_of_getElem? hi) h hh (heq.trans hhid.symm)]
      exact Int.le_trans (hg.started _ (mem_of_getElem? hi) trivial) hnow
    obtain ⟨h', hh', hmsg, hwhich⟩ := exists_mem_set (b := .finished) hi hh
    refine ⟨h', hh', hmsg ▸ hhid, ?_⟩
    rw [hmsg]
    by_cases heq : m.messageId = id
    · exact .inr (hentry h now (hts heq) (by simp [heq]))
    · rcases hwhy with hs | ⟨time, hget, hle⟩ | hexpired
      · rcases hwhich with rfl | rfl
        · exact .inl hs
        · exact absurd hhid heq
      · exact .inr (hentry h time hle (by
          rw [ExtTreeMap.getElem?_insert, if_neg (by simpa using heq), hget]))
      · exact .inr (.inr (Int.le_trans hexpired (Int.le_trans hnow hcut)))

/-- **An orderly step keeps the deliveries of one id apart**, one case per step. -/
theorem Guarded.step {act : Act} (horderly : Orderly st act)
    (hstep : st.step crypto act = some st') : Guarded st' := by
  cases act with
  | deliver message =>
    cases hstep
    have hmem : ∀ {h}, h ∈ st.inFlight ++ [⟨message, .arrived⟩] →
        h ∈ st.inFlight ∨ h = ⟨message, .arrived⟩ := by simp
    have hsame : ∀ h ∈ st.inFlight, h.message.messageId = message.messageId →
        h.message.timestamp = message.timestamp := horderly
    refine ⟨hg.nodup, fun g hgm h hhm heq => ?_, fun h hh hs => ?_, ?_, fun h hh hs => ?_, ?_⟩
    · rcases hmem hgm with hgm | rfl <;> rcases hmem hhm with hhm | rfl
      · exact hg.same g hgm h hhm heq
      · exact hsame g hgm heq
      · exact (hsame h hhm heq.symm).symm
      · rfl
    · rcases hmem hh with hh | rfl
      · exact hg.started h hh hs
      · cases hs
    · intro j k g h hj hk hgs hhs heq
      have hold : ∀ {j : Nat} {g : Handling},
          (st.inFlight ++ [⟨message, .arrived⟩])[j]? = some g → g.stage.Active →
          st.inFlight[j]? = some g := by
        intro j g hj hs
        rcases Nat.lt_or_ge j st.inFlight.length with hlt | hge
        · rwa [List.getElem?_append_left hlt] at hj
        · rw [List.getElem?_append_right hge, List.getElem?_singleton] at hj
          split at hj
          · cases hj
            cases hs
          · cases hj
      exact hg.alone j k g h (hold hj hgs) (hold hk hhs) hgs hhs heq
    · rcases hmem hh with hh | rfl
      · exact hg.pending h hh hs
      · cases hs
    · intro id hid
      obtain ⟨h, hh, hhid, hwhy⟩ := hg.kept id hid
      exact ⟨h, mem_append.mpr (.inl hh), hhid, hwhy⟩
  | checkAge i now =>
    obtain ⟨m, hwait, rfl⟩ := map_eq_some_iff.mp hstep
    have hi := waiting_eq_some hwait
    have hend := hg.drop hi (by simp) horderly
    cases hage : KeySynchronizer.isMessageTooOld now m with
    | error e => exact hend
    | ok old =>
      cases old with
      | true => exact hend
      | false =>
        have hfresh := (isMessageTooOld_false (d := ⟨now, m⟩)).mp hage
        exact hg.move hi (by simp) horderly (fun _ => hfresh.1) (fun h => h.elim) fun h => h.elim
  | checkDuplicate i now =>
    obtain ⟨m, hwait, rfl⟩ := map_eq_some_iff.mp hstep
    have hi := waiting_eq_some hwait
    obtain ⟨hnow, hyoung⟩ := horderly
    obtain ⟨hage, halone⟩ := hyoung _ (by rw [hi]; rfl)
    split
    · exact hg.drop hi (by simp) hnow
    · rename_i hdup
      refine hg.move hi (by simp) hnow (fun _ => ?_) (fun _ => .inr halone) fun _ hid => ?_
      · exact Int.le_trans (hg.started _ (mem_of_getElem? hi) trivial) hnow
      · -- an id applied before is still handled, in the cache, or too old
        obtain ⟨h, hh, hhid, hwhy⟩ := hg.kept m.messageId hid
        have hts : m.timestamp = h.message.timestamp :=
          hg.same _ (mem_of_getElem? hi) h hh hhid.symm
        rcases hwhy with hs | ⟨time, hget, -⟩ | hexpired
        · exact halone h hh (by rw [hs]; trivial) hhid
        · simp_all [KeySynchronizer.isMessageDuplicate]
        · grind
  | verifySignature i now =>
    obtain ⟨m, hwait, rfl⟩ := map_eq_some_iff.mp hstep
    have hi := waiting_eq_some hwait
    cases hsig : st.sync.verifyMessageSignature crypto m with
    | error e => exact hg.drop hi (by simp) horderly
    | ok u =>
      exact hg.move hi (by simp) horderly
        (fun _ => Int.le_trans (hg.started _ (mem_of_getElem? hi) trivial) horderly)
        (fun _ => .inl trivial) fun _ => hg.pending _ (mem_of_getElem? hi) trivial
  | process i now =>
    obtain ⟨m, hwait, rfl⟩ := map_eq_some_iff.mp hstep
    have hi := waiting_eq_some hwait
    cases hp : st.sync.processOperation crypto now m with
    | error e => exact hg.drop hi (by simp) horderly
    | ok sync => exact hg.apply hi horderly (KeySynchronizer.processOperation_frame hp).1
  | cache i now cutoffNow =>
    obtain ⟨m, hwait, rfl⟩ := map_eq_some_iff.mp hstep
    exact hg.cache (waiting_eq_some hwait) horderly.1 horderly.2

end

theorem guarded_initial (sync : KeySynchronizer) (clock : Int) :
    Guarded (Handlings.initial sync clock) where
  nodup := nodup_nil
  same := by simp [Handlings.initial]
  started := by simp [Handlings.initial]
  alone := by simp [Handlings.initial]
  pending := by simp [Handlings.initial]
  kept := by simp [Handlings.initial]

end

/-- **No id is applied twice in an orderly run.** Deliveries and their steps interleave
freely otherwise, duplicates come at any time, and the synchronizer is any. -/
theorem applied_once (crypto : SyncCrypto) (sync : KeySynchronizer) (clock : Int)
    (acts : List Act) (st : Handlings)
    (horderly : Run.Along (Handlings.step crypto) Orderly (Handlings.initial sync clock) acts)
    (hrun : Run.run (Handlings.step crypto) (Handlings.initial sync clock) acts = some st) :
    st.applied.Nodup := by
  have hguarded : Guarded st := Run.run_invariant
    (fun _ _ _ hstep horderly hg => hg.step horderly hstep) horderly
    (guarded_initial sync clock) hrun
  exact hguarded.nodup

/-- The steps of delivery `i`, from its arrival to its entry in the cache, at the time 0. -/
def handledAtOnce (i : Nat) (message : SyncMessage) : List Act :=
  [.deliver message, .checkAge i 0, .checkDuplicate i 0, .verifySignature i 0, .process i 0,
    .cache i 0 0]

/-- A message handled, and delivered again. -/
theorem applied_once_sample : ∃ st,
    Run.run (Handlings.step openCrypto) (Handlings.initial emptySynchronizer 0)
      (handledAtOnce 0 (keyMessage 1 .create 1 (some [5])).message ++
        [.deliver (keyMessage 1 .create 1 (some [5])).message, .checkAge 1 0,
          .checkDuplicate 1 0]) = some st ∧ st.applied.Nodup := by
  have hsome : (Run.run (Handlings.step openCrypto) (Handlings.initial emptySynchronizer 0)
      (handledAtOnce 0 (keyMessage 1 .create 1 (some [5])).message ++
        [.deliver (keyMessage 1 .create 1 (some [5])).message, .checkAge 1 0,
          .checkDuplicate 1 0])).isSome := by decide
  obtain ⟨st, hst⟩ := isSome_iff_exists.mp hsome
  refine ⟨st, hst, applied_once openCrypto emptySynchronizer 0 _ st ?_ hst⟩
  exact Run.along_of_check (p := fun st act => decide (Orderly st act))
    (fun _ _ h => of_decide_eq_true h) (by decide)

/-- Two deliveries of a deletion pass their duplicate checks before either is cached; the
key is created in between, and the second delivery deletes it again. -/
theorem deletion_replayed : ∃ st,
    Run.run (Handlings.step openCrypto) (Handlings.initial emptySynchronizer 0)
      [.deliver (keyMessage 1 .delete 1 none).message, .checkAge 0 0, .checkDuplicate 0 0,
        .deliver (keyMessage 1 .delete 1 none).message, .checkAge 1 0, .checkDuplicate 1 0,
        .verifySignature 0 0, .process 0 0, .verifySignature 1 0,
        .deliver (keyMessage 2 .create 2 (some [5])).message, .checkAge 2 0,
        .checkDuplicate 2 0, .verifySignature 2 0, .process 2 0, .process 1 0] = some st ∧
      st.applied = [1, 2, 1] ∧ st.sync.cell "k" = Cell.empty := by
  refine ⟨_, rfl, ?_, ?_⟩ <;> decide

end GuardianDb.P2p
