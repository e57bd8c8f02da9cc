/-
The access controller over a key-value store (`access_control/acl_guardian.rs`).

The store maps a capability to the keys that hold it. Capabilities are read through a
view in which everybody who can write is also an administrator, and `grant` and `revoke`
write back the whole list they read. For "admin" that list is the view's, so an operation
on "admin" copies the keys of "write" into the stored administrators, where a later
revocation of "write" does not reach them.

A list of keys is a set here: the source collects it from a hash set, and only membership
is asked for. The controller is the one `new` returns, with its store open; the check of
an identity's signatures is a parameter.

  * `controllerAfter_write`, `controllerAfter_admin` — what is stored after any calls.
  * `canAppend_iff` — the append check against the grants, for every history.
-/
import GuardianDb.Lib.Run
import Mathlib.Data.List.Induction
import Mathlib.Tactic.Tauto
import Std.Data.ExtTreeMap
import Std.Data.ExtTreeSet

namespace GuardianDb.AccessControl

open Std

/-! ### The controller -/

/-- The keys that hold a capability. -/
abbrev Keys := ExtTreeSet String

/-- `GuardianDBAccessController`: the entries of its key-value store. -/
structure GuardianDBAccessController where
  kvStore : ExtTreeMap String Keys

/-- The part of an identity the controller looks at. -/
structure Identity where
  id : String
  deriving DecidableEq, Repr

namespace GuardianDBAccessController

variable (c : GuardianDBAccessController)

/-- `put` of the key-value store. -/
def put (key : String) (value : Keys) : Except String GuardianDBAccessController :=
  if key.isEmpty then .error "The key cannot be empty"
  else .ok ⟨c.kvStore.insert key value⟩

/-- `delete` of the key-value store. -/
def delete (key : String) : Except String GuardianDBAccessController :=
  if key.isEmpty then .error "The key cannot be empty"
  else if key ∈ c.kvStore then .ok ⟨c.kvStore.erase key⟩
  else .error s!"Key '{key}' not found"

/-- `get_authorizations`: whoever may write is also listed under "admin". -/
def getAuthorizations : ExtTreeMap String Keys :=
  match c.kvStore["write"]? with
  | none => c.kvStore
  | some writeKeys =>
      c.kvStore.insert "admin" ((c.kvStore["admin"]?.getD ∅).insertMany writeKeys.toList)

def getAuthorizedByRole (role : String) : Keys :=
  c.getAuthorizations[role]?.getD ∅

/-- `can_append`, for a check `verify` of the identity. -/
def canAppend (verify : Identity → Except String Unit) (identity : Identity) :
    Except String Unit :=
  let writeAccess := c.getAuthorizedByRole "write"
  let adminAccess := c.getAuthorizedByRole "admin"
  let access := writeAccess.insertMany adminAccess.toList
  if identity.id ∈ access ∨ "*" ∈ access then verify identity
  else .error "Not authorized"

def grant (capability keyId : String) : Except String GuardianDBAccessController :=
  let capabilities := (c.getAuthorizedByRole capability).insert keyId
  (c.put capability capabilities).mapError (s!"Error saving to store: {·}")

def revoke (capability keyId : String) : Except String GuardianDBAccessController :=
  let capabilities := (c.getAuthorizedByRole capability).erase keyId
  if capabilities.isEmpty then
    (c.delete capability).mapError (s!"Error removing permissions: {·}")
  else (c.put capability capabilities).mapError (s!"Error persisting permissions: {·}")

end GuardianDBAccessController

inductive Call where
  | grant (capability keyId : String)
  | revoke (capability keyId : String)
  deriving DecidableEq, Repr

/-- The controller after a call; one that fails leaves the store as it was. -/
def GuardianDBAccessController.call (c : GuardianDBAccessController) (op : Call) :
    GuardianDBAccessController :=
  let result := match op with
    | .grant capability keyId => c.grant capability keyId
    | .revoke capability keyId => c.revoke capability keyId
  match result with
  | .ok c' => c'
  | .error _ => c

/-- The controller after a sequence of calls, from an empty store. -/
def controllerAfter (calls : List Call) : GuardianDBAccessController :=
  calls.foldl GuardianDBAccessController.call ⟨∅⟩

/-- The calls `new` makes for the initial write access. -/
def initialCalls (writeAccess : List String) : List Call := writeAccess.map (.grant "write")

/-! ### What the calls grant -/

/-- The last call about `capability` and `key` was a grant. -/
def Unrevoked (calls : List Call) (capability key : String) : Prop :=
  ∃ before after, calls = before ++ .grant capability key :: after ∧
    .revoke capability key ∉ after

/-- The key, or the wildcard, has a write or admin grant that was not revoked. -/
def Entitled (calls : List Call) (key : String) : Prop :=
  ∃ holder, (holder = key ∨ holder = "*") ∧
    (Unrevoked calls "write" holder ∨ Unrevoked calls "admin" holder)

/-- A call that writes the list of "admin" back with `key` in it, if the view has it. -/
def Call.Keeps (key : String) : Call → Prop
  | .grant capability _ => capability = "admin"
  | .revoke capability keyId => capability = "admin" ∧ keyId ≠ key

/-- A call about "admin" that keeps `key` was made while `key` had a write grant, and
`key` was not taken out of "admin" since. -/
def Copied (calls : List Call) (key : String) : Prop :=
  ∃ before op after, calls = before ++ op :: after ∧ op.Keeps key ∧
    Unrevoked before "write" key ∧ .revoke "admin" key ∉ after

section
variable {calls : List Call} {capability key : String}

theorem not_unrevoked_nil : ¬ Unrevoked [] capability key := by
  rintro ⟨before, after, h, -⟩
  simp at h

theorem not_copied_nil : ¬ Copied [] key := by
  rintro ⟨before, op, after, h, -⟩
  simp at h

theorem unrevoked_snoc (op : Call) : Unrevoked (calls ++ [op]) capability key ↔
    op = .grant capability key ∨
      (op ≠ .revoke capability key ∧ Unrevoked calls capability key) := by
  have h := Run.since_concat (P := fun _ b => b = .grant capability key)
    (Q := (· ≠ .revoke capability key)) (l := calls) (a := op)
  simpa [Unrevoked, List.forall_mem_ne'] using h

theorem copied_snoc (op : Call) : Copied (calls ++ [op]) key ↔
    (op.Keeps key ∧ Unrevoked calls "write" key) ∨
    (op ≠ .revoke "admin" key ∧ Copied calls key) := by
  have h := Run.since_concat (P := fun before op => op.Keeps key ∧ Unrevoked before "write" key)
    (Q := (· ≠ .revoke "admin" key)) (l := calls) (a := op)
  simpa only [Copied, List.forall_mem_ne', and_assoc] using h

end

/-! ### What is stored -/

namespace GuardianDBAccessController

variable (c : GuardianDBAccessController)

def stored (capability : String) : Keys := c.kvStore[capability]?.getD ∅

variable {role key : String}

/-- The view adds the keys of "write" to "admin". -/
theorem mem_getAuthorizedByRole : key ∈ c.getAuthorizedByRole role ↔
    key ∈ c.stored role ∨ (role = "admin" ∧ key ∈ c.stored "write") := by
  rw [getAuthorizedByRole, getAuthorizations, stored, stored]
  cases hw : c.kvStore["write"]? with
  | none => simp
  | some writeKeys => grind

theorem stored_put (hkey : key ≠ "") (role : String) (value : Keys) :
    ∃ c', c.put key value = .ok c' ∧
      c'.stored role = if key = role then value else c.stored role := by
  refine ⟨⟨c.kvStore.insert key value⟩, by simp [put, hkey], ?_⟩
  rw [stored, stored, ExtTreeMap.getElem?_insert]
  by_cases h : key = role <;> simp [h]

theorem put_empty (value : Keys) : c.put "" value = .error "The key cannot be empty" := rfl

theorem delete_empty : c.delete "" = .error "The key cannot be empty" := rfl

/-- Deleting an entry, or failing to find one, leaves no keys under the capability. -/
theorem stored_delete (hkey : key ≠ "") :
    (match c.delete key with
      | .ok c' => c'
      | .error _ => c).stored role = if key = role then ∅ else c.stored role := by
  have hempty : key.isEmpty = false := by rwa [String.isEmpty_eq_false_iff]
  simp only [delete, hempty, Bool.false_eq_true, if_false]
  by_cases hmem : key ∈ c.kvStore
  · simp only [hmem, if_true, stored, ExtTreeMap.getElem?_erase]
    by_cases h : key = role <;> simp [h]
  · simp only [hmem, if_false, stored]
    by_cases h : key = role
    · simp_all
    · simp [h]

variable {capability keyId : String}

/-- A grant adds its key to the keys the view reads. -/
theorem mem_stored_grant (hrole : role ≠ "") :
    key ∈ (c.call (.grant capability keyId)).stored role ↔
      if capability = role then key = keyId ∨ key ∈ c.getAuthorizedByRole role
      else key ∈ c.stored role := by
  by_cases hcap : capability = ""
  · subst hcap
    rw [if_neg fun h => hrole h.symm]
    rfl
  · obtain ⟨c', hput, hstored⟩ := c.stored_put hcap role
      ((c.getAuthorizedByRole capability).insert keyId)
    have hcall : c.call (.grant capability keyId) = c' := by
      simp only [call, grant, hput, Except.mapError]
    rw [hcall, hstored]
    split
    · grind
    · exact Iff.rfl

/-- A revocation takes its key out of the keys the view reads. -/
theorem mem_stored_revoke (hrole : role ≠ "") :
    key ∈ (c.call (.revoke capability keyId)).stored role ↔
      if capability = role then key ≠ keyId ∧ key ∈ c.getAuthorizedByRole role
      else key ∈ c.stored role := by
  have hmem : key ∈ (c.getAuthorizedByRole capability).erase keyId ↔
      key ≠ keyId ∧ key ∈ c.getAuthorizedByRole capability := by grind
  by_cases hcap : capability = ""
  · subst hcap
    rw [if_neg fun h => hrole h.symm]
    simp only [call, revoke, put_empty, delete_empty, Except.mapError]
    cases ((c.getAuthorizedByRole "").erase keyId).isEmpty <;> exact Iff.rfl
  · by_cases hnone : ((c.getAuthorizedByRole capability).erase keyId).isEmpty = true
    · have hcall : (c.call (.revoke capability keyId)).stored role =
          if capability = role then ∅ else c.stored role := by
        rw [← c.stored_delete hcap]
        simp only [call, revoke, hnone, if_true]
        cases c.delete capability <;> rfl
      rw [hcall]
      split
      · grind [ExtTreeSet.isEmpty_iff.mp]
      · exact Iff.rfl
    · obtain ⟨c', hput, hstored⟩ := c.stored_put hcap role
        ((c.getAuthorizedByRole capability).erase keyId)
      have hcall : c.call (.revoke capability keyId) = c' := by
        simp only [call, revoke, hnone, Bool.false_eq_true, if_false, hput, Except.mapError]
      rw [hcall, hstored]
      split
      · simp_all
      · exact Iff.rfl

end GuardianDBAccessController

theorem controllerAfter_snoc (calls : List Call) (op : Call) :
    controllerAfter (calls ++ [op]) = (controllerAfter calls).call op :=
  List.foldl_append

/-- The keys stored under "write" are those with an unrevoked write grant. -/
theorem controllerAfter_write (calls : List Call) (key : String) :
    key ∈ (controllerAfter calls).stored "write" ↔ Unrevoked calls "write" key := by
  induction calls using List.reverseRecOn with
  | nil => simp [controllerAfter, GuardianDBAccessController.stored, not_unrevoked_nil]
  | append_singleton calls op ih =>
    rw [controllerAfter_snoc, unrevoked_snoc, ← ih]
    cases op with
    | grant capability keyId =>
      rw [GuardianDBAccessController.mem_stored_grant _ (by decide),
        GuardianDBAccessController.mem_getAuthorizedByRole]
      by_cases hcap : capability = "write" <;> simp [hcap, eq_comm]
    | revoke capability keyId =>
      rw [GuardianDBAccessController.mem_stored_revoke _ (by decide),
        GuardianDBAccessController.mem_getAuthorizedByRole]
      by_cases hcap : capability = "write" <;> simp [hcap, eq_comm]

/-- **Stored administrators.** Those with an unrevoked admin grant, and those that were
copied from "write". -/
theorem controllerAfter_admin (calls : List Call) (key : String) :
    key ∈ (controllerAfter calls).stored "admin" ↔
      Unrevoked calls "admin" key ∨ Copied calls key := by
  induction calls using List.reverseRecOn with
  | nil =>
    simp [controllerAfter, GuardianDBAccessController.stored, not_unrevoked_nil, not_copied_nil]
  | append_singleton calls op ih =>
    rw [controllerAfter_snoc, unrevoked_snoc, copied_snoc]
    cases op with
    | grant capability keyId =>
      rw [GuardianDBAccessController.mem_stored_grant _ (by decide),
        GuardianDBAccessController.mem_getAuthorizedByRole, controllerAfter_write, ih]
      by_cases hcap : capability = "admin"
      · subst hcap
        simp only [if_true, Call.Keeps, true_and, Call.grant.injEq, reduceCtorEq, ne_eq,
          not_false_eq_true, eq_comm (a := keyId)]
        tauto
      · simp [hcap, Call.Keeps]
    | revoke capability keyId =>
      rw [GuardianDBAccessController.mem_stored_revoke _ (by decide),
        GuardianDBAccessController.mem_getAuthorizedByRole, controllerAfter_write, ih]
      by_cases hcap : capability = "admin"
      · subst hcap
        simp only [if_true, Call.Keeps, Call.revoke.injEq, true_and, reduceCtorEq, false_or,
          ne_eq, eq_comm (a := keyId)]
        tauto
      · simp [hcap, Call.Keeps]

/-! ### The append check -/

section
variable (verify : Identity → Except String Unit) (calls : List Call) (identity : Identity)

/-- The append check after any calls: the identity verifies, and it or the wildcard is
entitled or was copied. -/
theorem canAppend_ok : (controllerAfter calls).canAppend verify identity = .ok () ↔
    verify identity = .ok () ∧
      (Entitled calls identity.id ∨ Copied calls identity.id ∨ Copied calls "*") := by
  have haccess : ∀ key, key ∈ ((controllerAfter calls).getAuthorizedByRole "write").insertMany
      ((controllerAfter calls).getAuthorizedByRole "admin").toList ↔
        (Unrevoked calls "write" key ∨ Unrevoked calls "admin" key) ∨ Copied calls key := by
    intro key
    rw [ExtTreeSet.mem_insertMany_list, List.contains_iff_mem, ExtTreeSet.mem_toList,
      GuardianDBAccessController.mem_getAuthorizedByRole,
      GuardianDBAccessController.mem_getAuthorizedByRole, controllerAfter_write,
      controllerAfter_admin]
    simp only [String.reduceEq, false_and, or_false, true_and]
    tauto
  have hentitled : Entitled calls identity.id ↔
      (Unrevoked calls "write" identity.id ∨ Unrevoked calls "admin" identity.id) ∨
      (Unrevoked calls "write" "*" ∨ Unrevoked calls "admin" "*") := by
    simp [Entitled, or_and_right, exists_or]
  rw [GuardianDBAccessController.canAppend, hentitled]
  split
  · grind
  · simp_all

/-- **Grants mean what they say exactly where nothing was copied.** For every history of
calls after the initial write access, and every identity: the append check agrees with the
grants if and only if whoever is entitled verifies, and an identity that verifies and was
copied to the administrators (itself or the wildcard) is entitled anyway. -/
theorem canAppend_iff (writeAccess : List String) :
    ((controllerAfter (initialCalls writeAccess ++ calls)).canAppend verify identity = .ok () ↔
      Entitled (initialCalls writeAccess ++ calls) identity.id) ↔
    (Entitled (initialCalls writeAccess ++ calls) identity.id → verify identity = .ok ()) ∧
    (verify identity = .ok () → Copied (initialCalls writeAccess ++ calls) identity.id ∨
      Copied (initialCalls writeAccess ++ calls) "*" →
      Entitled (initialCalls writeAccess ++ calls) identity.id) := by
  rw [canAppend_ok]
  tauto

end

/-- "a" may write from the start; "b" becomes an administrator; then "a" is revoked. It
can still append. -/
theorem revoked_writer_appends :
    (controllerAfter (initialCalls ["a"] ++ [.grant "admin" "b", .revoke "write" "a"])).canAppend
      (fun _ => .ok ()) ⟨"a"⟩ = .ok () ∧
    ¬ Entitled (initialCalls ["a"] ++ [.grant "admin" "b", .revoke "write" "a"]) "a" := by
  have hcalls : initialCalls ["a"] ++ [.grant "admin" "b", .revoke "write" "a"] =
      (([] ++ [Call.grant "write" "a"]) ++ [.grant "admin" "b"]) ++ [.revoke "write" "a"] := rfl
  constructor
  · rw [canAppend_ok]
    exact ⟨rfl, .inr (.inl ⟨[.grant "write" "a"], .grant "admin" "b", [.revoke "write" "a"],
      rfl, rfl, ⟨[], [], rfl, by simp⟩, by simp⟩)⟩
  · rintro ⟨holder, hholder, h⟩
    rw [hcalls] at h
    simp only [unrevoked_snoc, not_unrevoked_nil] at h
    rcases hholder with rfl | rfl <;> simp at h

end GuardianDb.AccessControl
