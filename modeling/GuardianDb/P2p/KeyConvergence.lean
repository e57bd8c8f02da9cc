/-
Convergence of synchronizers that receive one set of messages in different orders.

The handlers are not a merge: an update is lost if it comes before the creation of its
key, a deletion wins only if it comes last, and a message without data can raise the
version over data that was never replaced. `Mergeable` says which sets of messages for one
key end in the same cell in every order, and the results below show that it says so
exactly.

  * `converges_of_mergeable` — in a mergeable set the top message absorbs all others.
  * `mergeable_of_converges` — the orders that tell the other sets apart.
  * `synchronizers_converge_iff` — both, for two synchronizers and all keys.
-/
import Mathlib.Data.Finset.Max
import GuardianDb.Lib.Loop
import GuardianDb.P2p.KeySync

namespace GuardianDb.P2p

open List

/-! ### Sets of messages for one key -/

def SyncMessage.Creates (m : SyncMessage) : Prop :=
  m.operation = .create ∧ m.keyData.isSome

instance : DecidablePred SyncMessage.Creates := fun m => by
  unfold SyncMessage.Creates
  infer_instance

/-- The message brings metadata of the version `v` and no data. -/
def SyncMessage.BareAt (m : SyncMessage) (v : Nat) : Prop :=
  m.operation ≠ .delete ∧ m.metadata.version = v ∧
    (m.operation = .metadataSync ∨ m.keyData = none)

instance (v : Nat) : DecidablePred fun m : SyncMessage => m.BareAt v := fun m => by
  unfold SyncMessage.BareAt
  infer_instance

/-- `top` creates the key with data and prevails over the other messages in any order. -/
structure Prevails (ms : List SyncMessage) (top : SyncMessage) : Prop where
  mem : top ∈ ms
  creates : top.Creates
  noDelete : ∀ m ∈ ms, m.operation ≠ .delete
  /-- Another creation is older, or says the same. -/
  created : ∀ m ∈ ms, m.Creates → m.metadata.version < top.metadata.version ∨
    (m.metadata = top.metadata ∧ m.keyData = top.keyData)
  /-- A creation without data is older, or says the same, or always comes too late. -/
  bareCreated : ∀ m ∈ ms, m.operation = .create → m.keyData = none →
    m.metadata.version < top.metadata.version ∨
    (m.metadata.version = top.metadata.version ∧ (m.metadata = top.metadata ∨
      ∀ c ∈ ms, c.Creates → c.metadata.version = top.metadata.version))
  /-- An update is older, or says the same. -/
  updated : ∀ m ∈ ms, m.operation = .update → m.metadata.version < top.metadata.version ∨
    (m.metadata = top.metadata ∧ (m.keyData = none ∨ m.keyData = top.keyData))
  /-- All metadata messages say the same. -/
  synced : ∀ m ∈ ms, m.operation = .metadataSync → m.metadata = top.metadata
  /-- If a message can raise the version to the top without the data, then no other data
  can be there by then. -/
  bare : (∃ m ∈ ms, m.BareAt top.metadata.version) →
    (∀ c ∈ ms, c.Creates → c.keyData = top.keyData) ∧
    ∀ u ∈ ms, u.operation = .update → u.keyData.isSome →
      (∃ c ∈ ms, c.Creates ∧ c.metadata.version ≤ u.metadata.version) → u.keyData = top.keyData

/-- The messages for a key that end in one cell in every order: nothing is ever stored, or
metadata without data that is always the same, or one creation prevails. -/
inductive Mergeable (ms : List SyncMessage) : Prop where
  | nothing (h : ∀ m ∈ ms, m.operation = .update ∨ m.operation = .delete)
  | metadata (info : KeyMetadata) (hdelete : ∀ m ∈ ms, m.operation ≠ .delete)
      (hdata : ∀ m ∈ ms, ¬ m.Creates)
      (h : ∀ m ∈ ms, m.operation ≠ .update → m.metadata = info)
  | top (top : SyncMessage) (h : Prevails ms top)

/-- Every order of the messages leaves the same cell. -/
def Converges (ms : List SyncMessage) : Prop :=
  ∀ l₁ l₂ : List SyncMessage, l₁.Perm ms → l₂.Perm ms →
    l₁.foldl Cell.step Cell.empty = l₂.foldl Cell.step Cell.empty

/-! ### Single steps -/

section
variable {c : Cell} {m : SyncMessage} {x : Bytes} {i : KeyMetadata}

theorem SyncMessage.not_creates (h : m.operation ≠ .create) : ¬ m.Creates := fun hc => h hc.1

theorem SyncMessage.keyData_none (h : m.operation = .create) (hm : ¬ m.Creates) :
    m.keyData = none :=
  Option.not_isSome_iff_eq_none.mp fun hd => hm ⟨h, hd⟩

theorem step_delete (h : m.operation = .delete) : c.step m = Cell.empty := by
  simp [Cell.step, Cell.apply, h]

theorem step_sync (h : m.operation = .metadataSync) : c.step m = ⟨c.data, some m.metadata⟩ := by
  simp [Cell.step, Cell.apply, h]

section
variable (h : m.operation = .create)
include h

theorem step_create_missing (hc : c.data = none) :
    c.step m = c.store m := by
  simp [Cell.step, Cell.apply, h, hc]

theorem step_create_newer (hv : i.version < m.metadata.version) :
    Cell.step ⟨some x, some i⟩ m = Cell.store ⟨some x, some i⟩ m := by
  simp [Cell.step, Cell.apply, Cell.localVersion, h, Nat.not_le.mpr hv]

theorem step_create_old (hv : m.metadata.version ≤ i.version) :
    Cell.step ⟨some x, some i⟩ m = ⟨some x, some i⟩ := by
  simp [Cell.step, Cell.apply, Cell.localVersion, h, hv]

end

section
variable (h : m.operation = .update)
include h

theorem step_update_missing (hc : c.data = none) :
    c.step m = c := by
  simp [Cell.step, Cell.apply, h, hc]

theorem step_update_old (hv : m.metadata.version < i.version) :
    Cell.step ⟨some x, some i⟩ m = ⟨some x, some i⟩ := by
  simp [Cell.step, Cell.apply, Cell.localVersion, h, hv]

theorem step_update_newer (hv : i.version ≤ m.metadata.version) :
    Cell.step ⟨some x, some i⟩ m = Cell.store ⟨some x, some i⟩ m := by
  simp [Cell.step, Cell.apply, Cell.localVersion, h, Nat.not_lt.mpr hv]

end

/-- A message without data leaves its metadata with a key that has none. -/
theorem step_metadata (hc : c.data = none) (hm : ¬ m.Creates) (hdelete : m.operation ≠ .delete)
    (hupdate : m.operation ≠ .update) : c.step m = ⟨none, some m.metadata⟩ := by
  cases hop : m.operation with
  | create =>
    rw [step_create_missing hop hc, Cell.store, SyncMessage.keyData_none hop hm, hc]
    rfl
  | update => exact absurd hop hupdate
  | delete => exact absurd hop hdelete
  | metadataSync => rw [step_sync hop, hc]

/-- Without a creation, a key that has no data gets none. -/
theorem step_data_none (hm : ¬ m.Creates) (hc : c.data = none) : (c.step m).data = none := by
  cases hop : m.operation with
  | update => rw [step_update_missing hop hc, hc]
  | delete => rw [step_delete hop]; rfl
  | create | metadataSync => rw [step_metadata hc hm (by simp [hop]) (by simp [hop])]

/-- A message without data, newer than what is there, changes the metadata only. -/
theorem step_bare {v : Nat} (hm : m.BareAt v) (hv : i.version < v) :
    Cell.step ⟨some x, some i⟩ m = ⟨some x, some m.metadata⟩ := by
  obtain ⟨hdelete, rfl, hbare⟩ := hm
  cases hop : m.operation with
  | create => simp_all [step_create_newer, Cell.store]
  | update => grind [step_update_newer, Cell.store]
  | delete => exact absurd hop hdelete
  | metadataSync => exact step_sync hop

end

/-! ### Mergeable sets converge -/

variable {m : SyncMessage} {l : List SyncMessage}

section
variable {ms : List SyncMessage} {top : SyncMessage}

/-- What holds of the cell while the messages around `top` come in: data that is not the
top's is held at a lower version. -/
structure Below (ms : List SyncMessage) (top : SyncMessage) (x : Bytes) (i : KeyMetadata) :
    Prop where
  le : i.version ≤ top.metadata.version
  info : i.version = top.metadata.version → i = top.metadata
  data : i.version = top.metadata.version → top.keyData = some x
  bare : (∃ m ∈ ms, m.BareAt top.metadata.version) →
    top.keyData = some x ∧ ∃ c ∈ ms, c.Creates ∧ c.metadata.version ≤ i.version

/-- The cell has no data yet, or is below the top. -/
def Climbing (ms : List SyncMessage) (top : SyncMessage) (c : Cell) : Prop :=
  c.data = none ∨ ∃ x i, c = ⟨some x, some i⟩ ∧ Below ms top x i

section
variable (h : Prevails ms top)
include h

theorem Prevails.version_le (hm : m ∈ ms) :
    m.metadata.version ≤ top.metadata.version := by
  cases hop : m.operation with
  | create =>
    by_cases hc : m.Creates
    · rcases h.created m hm hc with hlt | ⟨heq, -⟩
      · exact hlt.le
      · rw [heq]
    · rcases h.bareCreated m hm hop (SyncMessage.keyData_none hop hc) with hlt | ⟨heq, -⟩ <;> omega
  | update =>
    rcases h.updated m hm hop with hlt | ⟨heq, -⟩
    · exact hlt.le
    · rw [heq]
  | delete => exact absurd hop (h.noDelete m hm)
  | metadataSync => rw [h.synced m hm hop]

/-- A creation with data leaves a cell below the top. -/
theorem below_created (hm : m ∈ ms) (hc : m.Creates)
    {x : Bytes} (hx : m.keyData = some x) : Below ms top x m.metadata where
  le := h.version_le hm
  info hv := by
    rcases h.created m hm hc with hlt | ⟨heq, -⟩
    · omega
    · exact heq
  data hv := by
    rcases h.created m hm hc with hlt | ⟨-, heq⟩
    · omega
    · rw [← heq, hx]
  bare hbare := ⟨by rw [← (h.bare hbare).1 m hm hc, hx], m, hm, hc, le_rfl⟩

/-- Metadata without data over a cell below the top. -/
theorem below_bare {x : Bytes} {i : KeyMetadata} (hbelow : Below ms top x i) (hm : m ∈ ms)
    (hbare : m.operation = .metadataSync ∨ m.keyData = none) (hv : i.version ≤ m.metadata.version)
    (hinfo : m.metadata.version = top.metadata.version → m.metadata = top.metadata) :
    Below ms top x m.metadata where
  le := h.version_le hm
  info := hinfo
  data heq := (hbelow.bare ⟨m, hm, h.noDelete m hm, heq, hbare⟩).1
  bare hbare := by
    obtain ⟨hx, c, hcm, hcc, hcv⟩ := hbelow.bare hbare
    exact ⟨hx, c, hcm, hcc, hcv.trans hv⟩

/-- Steps around `top` keep the cell below it, one case per operation. -/
theorem climbing_step {c : Cell} (hm : m ∈ ms)
    (hc : Climbing ms top c) : Climbing ms top (c.step m) := by
  by_cases hcreates : m.Creates
  · obtain ⟨x, hx⟩ := Option.isSome_iff_exists.mp hcreates.2
    have hstored : Climbing ms top (c.store m) := Or.inr
      ⟨x, m.metadata, by rw [Cell.store, hx]; rfl, below_created h hm hcreates hx⟩
    rcases hc with hnone | ⟨y, i, rfl, hbelow⟩
    · rw [step_create_missing hcreates.1 hnone]
      exact hstored
    · by_cases hv : m.metadata.version ≤ i.version
      · rw [step_create_old hcreates.1 hv]
        exact .inr ⟨y, i, rfl, hbelow⟩
      · rw [step_create_newer hcreates.1 (by omega)]
        exact hstored
  · rcases hc with hnone | ⟨x, i, rfl, hbelow⟩
    · exact .inl (step_data_none hcreates hnone)
    · cases hop : m.operation with
      | create =>
        have hdata := SyncMessage.keyData_none hop hcreates
        by_cases hv : m.metadata.version ≤ i.version
        · rw [step_create_old hop hv]
          exact .inr ⟨x, i, rfl, hbelow⟩
        · rw [step_create_newer hop (by omega), Cell.store, hdata]
          refine .inr ⟨x, _, rfl, below_bare h hbelow hm (.inr hdata) (by omega) fun heq => ?_⟩
          rcases h.bareCreated m hm hop hdata with hlt | ⟨-, heqm | hall⟩
          · omega
          · exact heqm
          · -- a creation that is not newer than the cell is below the top
            obtain ⟨-, c, hcm, hcc, hcv⟩ :=
              hbelow.bare ⟨m, hm, h.noDelete m hm, heq, .inr hdata⟩
            have := hall c hcm hcc
            omega
      | update =>
        by_cases hv : m.metadata.version < i.version
        · rw [step_update_old hop hv]
          exact .inr ⟨x, i, rfl, hbelow⟩
        · rw [step_update_newer hop (by omega)]
          have hinfo : m.metadata.version = top.metadata.version →
              m.metadata = top.metadata := fun heq => by
            rcases h.updated m hm hop with hlt | ⟨heqm, -⟩
            · omega
            · exact heqm
          cases hd : m.keyData with
          | none =>
            rw [Cell.store, hd]
            exact .inr ⟨x, _, rfl, below_bare h hbelow hm (.inr hd) (by omega) hinfo⟩
          | some y =>
            rw [Cell.store, hd]
            refine .inr ⟨y, _, rfl, h.version_le hm, hinfo, fun heq => ?_, fun hbare => ?_⟩
            · rcases h.updated m hm hop with hlt | ⟨-, hnone | hsame⟩
              · omega
              · rw [hd] at hnone
                cases hnone
              · rw [← hsame, hd]
            · obtain ⟨-, c, hcm, hcc, hcv⟩ := hbelow.bare hbare
              refine ⟨?_, c, hcm, hcc, by omega⟩
              rw [← (h.bare hbare).2 m hm hop (by rw [hd]; rfl)
                ⟨c, hcm, hcc, by omega⟩, hd]
      | delete => exact absurd hop (h.noDelete m hm)
      | metadataSync =>
        have hinfo := h.synced m hm hop
        rw [step_sync hop]
        exact .inr ⟨x, _, rfl, below_bare h hbelow hm (.inl hop) (hinfo ▸ hbelow.le) fun _ => hinfo⟩

/-- In any order, the messages end in what `top` says. -/
theorem foldl_of_prevails (hl : l.Perm ms) :
    l.foldl Cell.step Cell.empty = ⟨top.keyData, some top.metadata⟩ := by
  obtain ⟨x, hx⟩ := Option.isSome_iff_exists.mp h.creates.2
  refine Loop.foldl_absorb (I := Climbing ms top) (hl.mem_iff.mpr h.mem)
    (fun c m hm hc => climbing_step h (hl.mem_iff.mp hm) hc) ?_ ?_ (.inl rfl)
  · intro c hc
    rcases hc with hnone | ⟨y, i, rfl, hbelow⟩
    · rw [step_create_missing h.creates.1 hnone, Cell.store, hx]
      rfl
    · by_cases hv : top.metadata.version ≤ i.version
      · have heq : i.version = top.metadata.version := le_antisymm hbelow.le hv
        rw [step_create_old h.creates.1 hv, hbelow.data heq, hbelow.info heq]
      · rw [step_create_newer h.creates.1 (by omega), Cell.store, hx]
        rfl
  · intro m hm
    have hm := hl.mem_iff.mp hm
    rw [hx]
    cases hop : m.operation with
    | create => exact step_create_old hop (h.version_le hm)
    | update =>
      rcases h.updated m hm hop with hlt | ⟨heq, hdata⟩
      · exact step_update_old hop hlt
      · grind [step_update_newer, Cell.store]
    | delete => exact absurd hop (h.noDelete m hm)
    | metadataSync => rw [step_sync hop, h.synced m hm hop]

end

/-- Sets that end in one cell in every order converge. -/
theorem converges_of_goal {goal : Cell}
    (h : ∀ l : List SyncMessage, l.Perm ms → l.foldl Cell.step Cell.empty = goal) :
    Converges ms :=
  fun l₁ l₂ h₁ h₂ => (h l₁ h₁).trans (h l₂ h₂).symm

theorem converges_of_nothing (h : ∀ m ∈ ms, m.operation = .update ∨ m.operation = .delete) :
    Converges ms := by
  refine converges_of_goal fun l hl => Loop.foldl_fixed fun m hm => ?_
  rcases h m (hl.mem_iff.mp hm) with hop | hop
  · exact step_update_missing hop rfl
  · exact step_delete hop

/-- **A mergeable set converges.** -/
theorem converges_of_mergeable (h : Mergeable ms) : Converges ms := by
  cases h with
  | nothing h => exact converges_of_nothing h
  | metadata info hdelete hdata h =>
    by_cases hall : ∀ m ∈ ms, m.operation = .update
    · exact converges_of_nothing fun m hm => .inl (hall m hm)
    · simp only [not_forall] at hall
      obtain ⟨a, ha, hop⟩ := hall
      have hstep : ∀ c : Cell, c.data = none → ∀ m ∈ ms, m.operation ≠ .update →
          c.step m = ⟨none, some info⟩ := by
        intro c hc m hm hne
        rw [step_metadata hc (hdata m hm) (hdelete m hm) hne, h m hm hne]
      refine converges_of_goal fun l hl => Loop.foldl_absorb (I := fun c => c.data = none)
        (hl.mem_iff.mpr ha) (fun c m hm hc => step_data_none (hdata m (hl.mem_iff.mp hm)) hc)
        (fun c hc => hstep c hc a ha hop) (fun m hm => ?_) rfl
      by_cases hu : m.operation = .update
      · exact step_update_missing hu rfl
      · exact hstep _ rfl m (hl.mem_iff.mp hm) hu
  | top top h => exact converges_of_goal fun l hl => foldl_of_prevails h hl

end

/-! ### Sets that converge are mergeable -/

section
variable {ms : List SyncMessage}

/-- The messages that create the key with data, and the others. -/
def creating (ms : List SyncMessage) : List SyncMessage := ms.filter fun m => decide m.Creates

@[inherit_doc creating]
def others (ms : List SyncMessage) : List SyncMessage := ms.filter fun m => !decide m.Creates

theorem mem_creating : m ∈ creating ms ↔ m ∈ ms ∧ m.Creates := by
  simp [creating]

theorem mem_others : m ∈ others ms ↔ m ∈ ms ∧ ¬ m.Creates := by
  simp [others]

/-- An order with the messages of `before` ahead of the first creation `c`, those of `mid`
right after it and those of `late` at the end. -/
theorem order_perm {before mid late rest : List SyncMessage} {c : SyncMessage}
    (hothers : (mid ++ late ++ before).Perm (others ms))
    (hcreating : (c :: rest).Perm (creating ms)) :
    (before ++ c :: (mid ++ rest ++ late)).Perm ms := by
  have hsplit : (creating ms ++ others ms).Perm ms := filter_append_perm _ ms
  refine perm_iff_count.mpr fun a => ?_
  have h₁ := hothers.count_eq a
  have h₂ := hcreating.count_eq a
  have h₃ := hsplit.count_eq a
  simp only [count_append, count_cons] at h₁ h₂ h₃ ⊢
  omega

/-- Messages that are not creations leave a missing key without data. -/
theorem foldl_data_none (h : ∀ m ∈ l, ¬ m.Creates) :
    (l.foldl Cell.step Cell.empty).data = none :=
  Loop.foldl_invariant (I := fun c : Cell => c.data = none) l
    (fun _ m hm hnone => step_data_none (h m hm) hnone) rfl

/-- The first creation is stored as it comes. -/
theorem foldl_from_creation {before after : List SyncMessage} {c : SyncMessage}
    (hbefore : ∀ m ∈ before, ¬ m.Creates) (hc : c.Creates) :
    (before ++ c :: after).foldl Cell.step Cell.empty =
      after.foldl Cell.step ⟨c.keyData, some c.metadata⟩ := by
  obtain ⟨x, hx⟩ := Option.isSome_iff_exists.mp hc.2
  rw [foldl_append, foldl_cons, step_create_missing hc.1 (foldl_data_none hbefore),
    Cell.store, hx]
  rfl

/-- Creations that are not newer than what is there change nothing. -/
theorem foldl_old_creations {x : Bytes} {i : KeyMetadata}
    (h : ∀ m ∈ l, m.Creates ∧ m.metadata.version ≤ i.version) :
    l.foldl Cell.step ⟨some x, some i⟩ = ⟨some x, some i⟩ :=
  Loop.foldl_fixed fun m hm => step_create_old (h m hm).1.1 (h m hm).2

theorem perm_last (hm : m ∈ ms) : (ms.erase m ++ [m]).Perm ms :=
  (perm_append_singleton m _).trans (perm_cons_erase hm).symm

section
variable (h : Converges ms)
include h

/-- A set with a deletion that converges stores nothing. -/
theorem nothing_of_delete {d : SyncMessage} (hd : d ∈ ms) (hop : d.operation = .delete) :
    ∀ m ∈ ms, m.operation = .update ∨ m.operation = .delete := by
  intro m hm
  -- the deletion last, against the message last
  have heq := h _ _ (perm_last hd) (perm_last hm)
  simp only [foldl_append, foldl_cons, foldl_nil, step_delete hop] at heq
  generalize (ms.erase m).foldl Cell.step Cell.empty = c at heq
  cases hm' : m.operation with
  | update => exact .inl rfl
  | delete => exact .inr rfl
  | metadataSync =>
    rw [step_sync hm'] at heq
    cases congrArg Cell.info heq
  | create =>
    rw [Cell.step, Cell.apply, hm'] at heq
    simp only at heq
    split at heq
    · grind [Cell.empty]
    · cases congrArg Cell.info heq

/-- A set without data that converges brings one metadata. -/
theorem metadata_of_converges (hdelete : ∀ m ∈ ms, m.operation ≠ .delete)
    (hdata : ∀ m ∈ ms, ¬ m.Creates) : Mergeable ms := by
  by_cases hall : ∀ m ∈ ms, m.operation = .update
  · exact .nothing fun m hm => .inl (hall m hm)
  · simp only [not_forall] at hall
    obtain ⟨a, ha, hop⟩ := hall
    refine .metadata a.metadata hdelete hdata fun m hm hne => ?_
    -- each message that stores its metadata can come last
    have hlast : ∀ b ∈ ms, b.operation ≠ .update →
        ((ms.erase b ++ [b]).foldl Cell.step Cell.empty).info = some b.metadata := by
      intro b hb hb'
      have hnone : ((ms.erase b).foldl Cell.step Cell.empty).data = none :=
        foldl_data_none fun m hm => hdata m (mem_of_mem_erase hm)
      rw [foldl_append, foldl_cons, foldl_nil,
        step_metadata hnone (hdata b hb) (hdelete b hb) hb']
    have heq := hlast m hm hne
    rw [h _ _ (perm_last hm) (perm_last ha), hlast a ha hop] at heq
    exact (Option.some.inj heq).symm

/-- The newest creation with data, and its data. -/
structure Newest (ms : List SyncMessage) (top : SyncMessage) (x : Bytes) : Prop where
  mem : top ∈ ms
  creates : top.Creates
  data : top.keyData = some x
  max : ∀ m ∈ ms, m.Creates → m.metadata.version ≤ top.metadata.version

section
variable {top c z : SyncMessage} {x y : Bytes} (hn : Newest ms top x)
include hn

omit h in
/-- Creations that come after the newest metadata change nothing. -/
theorem Newest.foldl_rest {i : KeyMetadata} (hi : top.metadata.version ≤ i.version) :
    ((creating ms).erase c).foldl Cell.step ⟨some y, some i⟩ = ⟨some y, some i⟩ := by
  refine foldl_old_creations fun m hm => ?_
  obtain ⟨hms, hmc⟩ := mem_creating.mp (mem_of_mem_erase hm)
  exact ⟨hmc, (hn.max m hms hmc).trans hi⟩

/-- Every order with some creation first ends with the newest one, as the order does in which
that one follows everything that is not a creation. -/
theorem Newest.ends (before mid late : List SyncMessage) (hc : c ∈ ms) (hcc : c.Creates)
    (hperm : (mid ++ late ++ before).Perm (others ms)) :
    (mid ++ (creating ms).erase c ++ late).foldl Cell.step ⟨c.keyData, some c.metadata⟩ =
      ⟨some x, some top.metadata⟩ := by
  have hothers : ∀ {l : List SyncMessage}, l ⊆ others ms → ∀ m ∈ l, ¬ m.Creates :=
    fun hl m hm => (mem_others.mp (hl hm)).2
  have hfirst : ∀ {c : SyncMessage}, c ∈ ms → c.Creates →
      (c :: (creating ms).erase c).Perm (creating ms) := fun hc hcc =>
    (perm_cons_erase (mem_creating.mpr ⟨hc, hcc⟩)).symm
  have hbase : (others ms ++ top :: ([] ++ (creating ms).erase top ++ [])).foldl Cell.step
      Cell.empty = ⟨some x, some top.metadata⟩ := by
    rw [foldl_from_creation (hothers (List.Subset.refl _)) hn.creates, nil_append, append_nil,
      hn.data, hn.foldl_rest le_rfl]
  have hsub : before ⊆ others ms := fun m hm => hperm.subset (mem_append.mpr (.inr hm))
  rw [← foldl_from_creation (hothers hsub) hcc, ← hbase]
  exact h _ _ (order_perm hperm (hfirst hc hcc))
    (order_perm (by simp) (hfirst hn.mem hn.creates))

/-- A message that comes last does not show. -/
theorem Newest.late (hz : z ∈ ms) (hzc : ¬ z.Creates) :
    Cell.step ⟨some x, some top.metadata⟩ z = ⟨some x, some top.metadata⟩ := by
  have hend := hn.ends h ((others ms).erase z) [] [z] hn.mem hn.creates
    (perm_cons_erase (mem_others.mpr ⟨hz, hzc⟩)).symm
  rwa [nil_append, foldl_append, hn.data, hn.foldl_rest le_rfl] at hend

/-- Metadata of the newest version that arrives over other data hides the newest creation. -/
theorem Newest.mid (mid : List SyncMessage) (hc : c ∈ ms) (hcc : c.Creates)
    (hmid : ∃ before, (mid ++ before).Perm (others ms))
    (hv : z.metadata.version = top.metadata.version)
    (hfold : mid.foldl Cell.step ⟨c.keyData, some c.metadata⟩ = ⟨some y, some z.metadata⟩) :
    y = x ∧ z.metadata = top.metadata := by
  obtain ⟨before, hperm⟩ := hmid
  have hend := hn.ends h before mid [] hc hcc (by simpa using hperm)
  rw [append_nil, foldl_append, hfold, hn.foldl_rest hv.ge] at hend
  simpa using hend

/-- A message that comes right after the first creation. -/
theorem Newest.mid_one (hc : c ∈ ms) (hlt : c.metadata.version < top.metadata.version)
    (hcy : c.Creates ∧ c.keyData = some y) (hz : z ∈ ms) (hbare : z.BareAt top.metadata.version)
    (hzc : ¬ z.Creates) : y = x ∧ z.metadata = top.metadata := by
  refine hn.mid h [z] hc hcy.1
    ⟨_, (perm_cons_erase (mem_others.mpr ⟨hz, hzc⟩)).symm⟩ hbare.2.1 ?_
  rw [foldl_cons, foldl_nil, hcy.2, step_bare hbare hlt]

/-- Another creation is older, or says the same. -/
theorem Newest.created (hc : c ∈ ms) (hcc : c.Creates) :
    c.metadata.version < top.metadata.version ∨
      (c.metadata = top.metadata ∧ c.keyData = top.keyData) := by
  rcases Nat.lt_or_eq_of_le (hn.max c hc hcc) with hlt | heq
  · exact .inl hlt
  · obtain ⟨y, hy⟩ := Option.isSome_iff_exists.mp hcc.2
    obtain ⟨rfl, hinfo⟩ := hn.mid h [] hc hcc ⟨_, List.Perm.refl _⟩ heq (by rw [foldl_nil, hy])
    exact .inr ⟨hinfo, hy.trans hn.data.symm⟩

/-- An update is older, or says the same. -/
theorem Newest.updated (hz : z ∈ ms) (hop : z.operation = .update) :
    z.metadata.version < top.metadata.version ∨
      (z.metadata = top.metadata ∧ (z.keyData = none ∨ z.keyData = top.keyData)) := by
  by_cases hv : z.metadata.version < top.metadata.version
  · exact .inl hv
  · have hend := hn.late h hz (SyncMessage.not_creates (by simp [hop]))
    rw [step_update_newer hop (by omega), Cell.store] at hend
    refine .inr ⟨by simpa using congrArg Cell.info hend, ?_⟩
    have hdata := hn.data
    cases hd : z.keyData with
    | none => exact .inl rfl
    | some y => simp_all

/-- A creation without data is older, or says the same, or always comes too late. -/
theorem Newest.bareCreated (hz : z ∈ ms) (hop : z.operation = .create) (hnone : z.keyData = none) :
    z.metadata.version < top.metadata.version ∨
      (z.metadata.version = top.metadata.version ∧ (z.metadata = top.metadata ∨
        ∀ c ∈ ms, c.Creates → c.metadata.version = top.metadata.version)) := by
  have hzc : ¬ z.Creates := by simp [SyncMessage.Creates, hnone]
  have hle : z.metadata.version ≤ top.metadata.version := by
    have hend := hn.late h hz hzc
    grind [step_create_newer, Cell.store]
  rcases Nat.lt_or_eq_of_le hle with hlt | heq
  · exact .inl hlt
  · refine .inr ⟨heq, or_iff_not_imp_right.mpr fun hlower => ?_⟩
    simp only [not_forall] at hlower
    obtain ⟨c, hc, hcc, hne⟩ := hlower
    obtain ⟨y, hy⟩ := Option.isSome_iff_exists.mp hcc.2
    exact (hn.mid_one h hc (Nat.lt_of_le_of_ne (hn.max c hc hcc) hne) ⟨hcc, hy⟩ hz
      ⟨by simp [hop], heq, .inr hnone⟩ hzc).2

/-- All metadata messages say the same. -/
theorem Newest.synced (hz : z ∈ ms) (hop : z.operation = .metadataSync) :
    z.metadata = top.metadata := by
  have hend := hn.late h hz (SyncMessage.not_creates (by simp [hop]))
  rw [step_sync hop] at hend
  simpa using congrArg Cell.info hend

/-- Where the version can be raised to the newest without the data, every creation has them. -/
theorem Newest.bare_created (hz : z ∈ ms) (hbare : z.BareAt top.metadata.version)
    (hzc : ¬ z.Creates) (hc : c ∈ ms) (hcc : c.Creates) : c.keyData = top.keyData := by
  rcases hn.created h hc hcc with hlt | ⟨-, heq⟩
  · obtain ⟨y, hy⟩ := Option.isSome_iff_exists.mp hcc.2
    obtain ⟨rfl, -⟩ := hn.mid_one h hc hlt ⟨hcc, hy⟩ hz hbare hzc
    exact hy.trans hn.data.symm
  · exact heq

/-- So has every update that can be stored before: `u` and then `z` follow a creation `c`. -/
theorem Newest.bare_updated (hz : z ∈ ms) (hbare : z.BareAt top.metadata.version)
    (hzc : ¬ z.Creates) {u : SyncMessage} (hu : u ∈ ms) (hop : u.operation = .update)
    (hsome : u.keyData.isSome) (hc : c ∈ ms) (hcc : c.Creates)
    (hle : c.metadata.version ≤ u.metadata.version) : u.keyData = top.keyData := by
  rcases hn.updated h hu hop with hlt | ⟨-, hnone | heq⟩
  · obtain ⟨y, hy⟩ := Option.isSome_iff_exists.mp hsome
    obtain ⟨w, hw⟩ := Option.isSome_iff_exists.mp hcc.2
    have huz : z ≠ u := by
      rintro rfl
      have := hbare.2.1
      omega
    have huo : u ∈ others ms := mem_others.mpr ⟨hu, SyncMessage.not_creates (by simp [hop])⟩
    have hzo : z ∈ (others ms).erase u := (mem_erase_of_ne huz).mpr (mem_others.mpr ⟨hz, hzc⟩)
    obtain ⟨rfl, -⟩ := hn.mid h [u, z] hc hcc
      ⟨((others ms).erase u).erase z, ((perm_cons_erase huo).trans
        ((perm_cons_erase hzo).cons u)).symm⟩ hbare.2.1 (by
      rw [foldl_cons, foldl_cons, foldl_nil, hw, step_update_newer hop hle, Cell.store, hy]
      exact step_bare hbare hlt)
    exact hy.trans hn.data.symm
  · rw [hnone] at hsome
    cases hsome
  · exact heq

/-- **The newest creation prevails** in a set that converges: every other message is placed
where it would show. -/
theorem Newest.prevails (hdelete : ∀ m ∈ ms, m.operation ≠ .delete) : Prevails ms top where
  mem := hn.mem
  creates := hn.creates
  noDelete := hdelete
  created _ := hn.created h
  bareCreated _ := hn.bareCreated h
  updated _ := hn.updated h
  synced _ := hn.synced h
  bare := by
    rintro ⟨z, hz, hbare⟩
    have hzc : ¬ z.Creates := by
      rintro ⟨hop, hsome⟩
      rcases hbare.2.2 with hsync | hnone
      · simp [hop] at hsync
      · simp [hnone] at hsome
    refine ⟨fun c => hn.bare_created h hz hbare hzc, fun u hu hop hsome => ?_⟩
    rintro ⟨c, hc, hcc, hle⟩
    exact hn.bare_updated h hz hbare hzc hu hop hsome hc hcc hle

end

/-- **A set that converges is mergeable.** -/
theorem mergeable_of_converges : Mergeable ms := by
  by_cases hdelete : ∃ d ∈ ms, d.operation = .delete
  · obtain ⟨d, hd, hop⟩ := hdelete
    exact .nothing (nothing_of_delete h hd hop)
  · have hnone : ∀ m ∈ ms, m.operation ≠ .delete := fun m hm hop => hdelete ⟨m, hm, hop⟩
    by_cases hdata : ∀ m ∈ ms, ¬ m.Creates
    · exact metadata_of_converges h hnone hdata
    · simp only [not_forall, not_not] at hdata
      obtain ⟨c, hc, hcc⟩ := hdata
      obtain ⟨top, htop, hmax⟩ := Finset.exists_max_image (creating ms).toFinset
        (fun m => m.metadata.version) ⟨c, by simp [mem_creating, hc, hcc]⟩
      rw [mem_toFinset, mem_creating] at htop
      obtain ⟨x, hx⟩ := Option.isSome_iff_exists.mp htop.2.2
      have hnewest : Newest ms top x := ⟨htop.1, htop.2, hx, fun m hm hmc =>
        hmax m (by simp [mem_creating, hm, hmc])⟩
      exact .top top (hnewest.prevails h hnone)

end

end

/-! ### Two synchronizers -/

/-- A synchronizer that holds no key and has processed no message. -/
structure KeySynchronizer.Empty (s : KeySynchronizer) : Prop where
  keystore : s.localKeystore = ∅
  keys : s.synchronizedKeys = ∅
  cache : s.messageCache = ∅

section
variable {crypto : SyncCrypto} {s : KeySynchronizer} {ms : List SyncMessage}

/-- What an empty synchronizer holds after fresh messages in some order. -/
theorem received_of_perm (hs : s.Empty) (hids : (ms.map (·.messageId)).Nodup)
    (hsigned : ∀ m ∈ ms, s.verifyMessageSignature crypto m = .ok ()) {ds : List Delivery}
    (hperm : (ds.map (·.message)).Perm ms) (hfresh : ∀ d ∈ ds, d.Fresh) (k : String) :
    (received crypto s ds).cell k =
      ((ds.map (·.message)).filter (·.metadata.keyId = k)).foldl Cell.step Cell.empty := by
  have hmem : ∀ d ∈ ds, d.message ∈ ms := fun d hd =>
    hperm.mem_iff.mp (mem_map_of_mem hd)
  have hdistinct := (hperm.map (·.messageId)).nodup_iff.mpr hids
  rw [map_map] at hdistinct
  rw [received_cell ⟨hfresh, fun d hd => hsigned d.message (hmem d hd), hdistinct, by
    simp [hs.cache]⟩]
  simp [KeySynchronizer.cell, hs.keystore, hs.keys, Cell.empty]

/-- An order of the messages of one key is part of an order of all of them. -/
theorem order_of_key {k : String} (hl : l.Perm (ms.filter (·.metadata.keyId = k))) :
    (l ++ ms.filter (fun m => !decide (m.metadata.keyId = k))).Perm ms ∧
    (l ++ ms.filter (fun m => !decide (m.metadata.keyId = k))).filter
      (·.metadata.keyId = k) = l := by
  refine ⟨(hl.append_right _).trans (filter_append_perm _ ms), ?_⟩
  have hall : ∀ m ∈ l, m.metadata.keyId = k := fun m hm => by
    simpa using (mem_filter.mp (hl.subset hm)).2
  rw [filter_append, filter_eq_self.mpr (by simpa using hall)]
  simp [filter_filter]

end

/-- Every message is handled the moment it was sent. -/
def sent (ms : List SyncMessage) : List Delivery := ms.map fun m => ⟨m.timestamp, m⟩

theorem sent_message (ms : List SyncMessage) : (sent ms).map (·.message) = ms := by
  rw [sent, map_map]
  exact map_id ms

theorem sent_fresh (ms : List SyncMessage) : ∀ d ∈ sent ms, d.Fresh := by
  intro d hd
  obtain ⟨m, -, rfl⟩ := mem_map.mp hd
  simp [Delivery.Fresh, maxMessageAge]

/-- **When synchronization converges.** Let two empty synchronizers be given the same
messages, with ids of their own and signatures that both accept. Whatever orders and times
they are handled in while fresh, both end with the same data and metadata for every key,
if and only if the messages of every key are mergeable. -/
theorem synchronizers_converge_iff (crypto : SyncCrypto) (s₁ s₂ : KeySynchronizer)
    (h₁ : s₁.Empty) (h₂ : s₂.Empty) (ms : List SyncMessage)
    (hids : (ms.map (·.messageId)).Nodup)
    (hsigned₁ : ∀ m ∈ ms, s₁.verifyMessageSignature crypto m = .ok ())
    (hsigned₂ : ∀ m ∈ ms, s₂.verifyMessageSignature crypto m = .ok ()) :
    (∀ ds₁ ds₂ : List Delivery, (ds₁.map (·.message)).Perm ms → (ds₂.map (·.message)).Perm ms →
      (∀ d ∈ ds₁, d.Fresh) → (∀ d ∈ ds₂, d.Fresh) →
      ∀ k, (received crypto s₁ ds₁).cell k = (received crypto s₂ ds₂).cell k) ↔
    ∀ k, Mergeable (ms.filter (·.metadata.keyId = k)) := by
  constructor
  · intro h k
    refine mergeable_of_converges fun l₁ l₂ hl₁ hl₂ => ?_
    have hcell : ∀ {s}, s.Empty →
        (∀ m ∈ ms, s.verifyMessageSignature crypto m = .ok ()) →
        ∀ {l rest}, (l ++ rest).Perm ms →
          (l ++ rest).filter (·.metadata.keyId = k) = l →
          (received crypto s (sent (l ++ rest))).cell k = l.foldl Cell.step Cell.empty := by
      intro s hs hsigned l rest hperm hkey
      rw [received_of_perm hs hids hsigned (by rwa [sent_message]) (sent_fresh _), sent_message,
        hkey]
    obtain ⟨hperm₁, hkey₁⟩ := order_of_key hl₁
    obtain ⟨hperm₂, hkey₂⟩ := order_of_key hl₂
    rw [← hcell h₁ hsigned₁ hperm₁ hkey₁, ← hcell h₂ hsigned₂ hperm₂ hkey₂]
    exact h _ _ (by rwa [sent_message]) (by rwa [sent_message]) (sent_fresh _) (sent_fresh _) k
  · intro h ds₁ ds₂ hperm₁ hperm₂ hfresh₁ hfresh₂ k
    rw [received_of_perm h₁ hids hsigned₁ hperm₁ hfresh₁,
      received_of_perm h₂ hids hsigned₂ hperm₂ hfresh₂]
    exact converges_of_mergeable (h k) _ _ (hperm₁.filter _) (hperm₂.filter _)

theorem emptySynchronizer_empty : emptySynchronizer.Empty := ⟨rfl, rfl, rfl⟩

/-- Two creations of one key: the newer one is left in both orders. -/
theorem synchronizers_converge_newest :
    (received openCrypto emptySynchronizer
      [keyMessage 1 .create 1 (some [4]), keyMessage 2 .create 2 (some [5])]).cell "k" =
    (received openCrypto emptySynchronizer
      [keyMessage 2 .create 2 (some [5]), keyMessage 1 .create 1 (some [4])]).cell "k" := by
  refine (synchronizers_converge_iff openCrypto emptySynchronizer emptySynchronizer
    emptySynchronizer_empty emptySynchronizer_empty
    [(keyMessage 1 .create 1 (some [4])).message, (keyMessage 2 .create 2 (some [5])).message]
    (by decide) (by simp [keyMessage_signed]) (by simp [keyMessage_signed])).mpr ?_ [_, _] [_, _]
    (List.Perm.refl _) (List.Perm.swap _ _ []) (by simp [keyMessage_fresh])
    (by simp [keyMessage_fresh]) "k"
  intro k
  by_cases hk : k = "k"
  · subst hk
    exact .top (keyMessage 2 .create 2 (some [5])).message
      ⟨by decide, by decide, by decide, by decide, by decide, by decide, by decide, by decide⟩
  · have hne : ¬ "k" = k := fun h => hk h.symm
    exact .nothing (by simp [keyMessage, hne])

/-- An update that arrives before the creation of its key is lost. -/
theorem synchronizers_diverge :
    (received openCrypto emptySynchronizer
      [keyMessage 1 .create 1 (some [4]), keyMessage 2 .update 2 (some [5])]).cell "k" ≠
    (received openCrypto emptySynchronizer
      [keyMessage 2 .update 2 (some [5]), keyMessage 1 .create 1 (some [4])]).cell "k" := by
  have hcell : ∀ ds : List Delivery, (ds.map (·.message)).Perm
      [(keyMessage 1 .create 1 (some [4])).message, (keyMessage 2 .update 2 (some [5])).message] →
      (∀ d ∈ ds, d.Fresh) → (received openCrypto emptySynchronizer ds).cell "k" =
        ((ds.map (·.message)).filter (·.metadata.keyId = "k")).foldl Cell.step Cell.empty :=
    fun ds hperm hfresh => received_of_perm emptySynchronizer_empty (by decide)
      (by simp [keyMessage_signed]) hperm hfresh "k"
  rw [hcell _ (List.Perm.refl _) (by simp [keyMessage_fresh]),
    hcell [_, _] (List.Perm.swap _ _ []) (by simp [keyMessage_fresh])]
  decide

end GuardianDb.P2p
