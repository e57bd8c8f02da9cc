/-
The lock manager of the SQL gateway (`sql/lock.rs`).

Every call of the manager works under one mutex, so an interleaving of calls is
a sequence of critical sections. `acquire` is the only call with several: it
retries its section each time a release wakes it, until it is granted, gives up
or its deadline passes. `LockState` therefore holds, next to the lock table, the
`acquire` calls that are blocked between two rounds.

  * `conflicts_comm` — the conflict relation is symmetric across table, row and
    advisory modes.
  * `step_compatible` — no critical section makes two sessions hold conflicting
    modes.
  * `run_exclusive` — hence no interleaving does.
-/
import Mathlib.Algebra.GroupWithZero.Nat
import GuardianDb.Lib.Loop
import GuardianDb.Lib.SortBy
import Std.Data.ExtTreeMap
import Std.Data.ExtTreeSet

namespace GuardianDb.Sql

open Std Loop SortBy ExtTreeMap LawfulEqCmp

/-! ### Objects and modes -/

abbrev SessionId := Nat

inductive LockObject where
  | table (oid : Nat)
  | row (oid : Nat) (rid : String)
  | advisory (key : Int)
  deriving DecidableEq, Repr

namespace LockObject

def describe : LockObject → String
  | .table oid => s!"relation {oid}"
  | .row oid rid => s!"row ({oid},{rid})"
  | .advisory key => s!"advisory {key}"

/-- A key that tells lock objects apart, for ordered maps. -/
def sortKey : LockObject → Nat × Int × String
  | .table oid => (0, oid, "")
  | .row oid rid => (1, oid, rid)
  | .advisory key => (2, key, "")

theorem sortKey_injective {a b : LockObject} (h : a.sortKey = b.sortKey) : a = b := by
  cases a <;> cases b <;> grind [sortKey]

instance : Ord LockObject where
  compare := compareLex (compareOn fun o => o.sortKey.1)
    (compareLex (compareOn fun o => o.sortKey.2.1) (compareOn fun o => o.sortKey.2.2))

instance : TransOrd LockObject :=
  inferInstanceAs (TransCmp (compareLex (compareOn fun o : LockObject => o.sortKey.1)
    (compareLex (compareOn fun o => o.sortKey.2.1) (compareOn fun o => o.sortKey.2.2))))

instance : LawfulEqOrd LockObject where
  eq_of_compare := by
    intro a b h
    have h' : compareLex (compareOn fun o : LockObject => o.sortKey.1)
      (compareLex (compareOn fun o => o.sortKey.2.1) (compareOn fun o => o.sortKey.2.2))
        a b = .eq := h
    rw [compareLex_eq_eq, compareLex_eq_eq] at h'
    obtain ⟨h₁, h₂, h₃⟩ := h'
    refine sortKey_injective (Prod.ext (LawfulEqCmp.eq_of_compare h₁) (Prod.ext ?_ ?_))
    · exact LawfulEqCmp.eq_of_compare h₂
    · exact LawfulEqCmp.eq_of_compare h₃

end LockObject

/-- `LockMode`: eight table modes, four row modes, two advisory modes. -/
inductive LockMode where
  | accessShare
  | rowShare
  | rowExclusive
  | shareUpdateExclusive
  | share
  | shareRowExclusive
  | exclusive
  | accessExclusive
  | forKeyShare
  | forShare
  | forNoKeyUpdate
  | forUpdate
  | advisoryShared
  | advisoryExclusive
  deriving DecidableEq, Repr

namespace LockMode

def tableIndex : LockMode → Option (Fin 8)
  | .accessShare => some 0
  | .rowShare => some 1
  | .rowExclusive => some 2
  | .shareUpdateExclusive => some 3
  | .share => some 4
  | .shareRowExclusive => some 5
  | .exclusive => some 6
  | .accessExclusive => some 7
  | _ => none

def rowIndex : LockMode → Option (Fin 4)
  | .forKeyShare => some 0
  | .forShare => some 1
  | .forNoKeyUpdate => some 2
  | .forUpdate => some 3
  | _ => none

/-- The constant `TABLE`: bit `b` of entry `a` is set when `a` conflicts with `b`. -/
def tableConflicts : Vector (BitVec 8) 8 :=
  #v[1 <<< 7,
    (1 <<< 6) ||| (1 <<< 7),
    (1 <<< 4) ||| (1 <<< 5) ||| (1 <<< 6) ||| (1 <<< 7),
    (1 <<< 3) ||| (1 <<< 4) ||| (1 <<< 5) ||| (1 <<< 6) ||| (1 <<< 7),
    (1 <<< 2) ||| (1 <<< 3) ||| (1 <<< 5) ||| (1 <<< 6) ||| (1 <<< 7),
    (1 <<< 2) ||| (1 <<< 3) ||| (1 <<< 4) ||| (1 <<< 5) ||| (1 <<< 6) ||| (1 <<< 7),
    (1 <<< 1) ||| (1 <<< 2) ||| (1 <<< 3) ||| (1 <<< 4) ||| (1 <<< 5) ||| (1 <<< 6) |||
      (1 <<< 7),
    0xFF]

/-- The constant `ROW`. -/
def rowConflicts : Vector (BitVec 8) 4 :=
  #v[1 <<< 3,
    (1 <<< 2) ||| (1 <<< 3),
    (1 <<< 1) ||| (1 <<< 2) ||| (1 <<< 3),
    (1 <<< 0) ||| (1 <<< 1) ||| (1 <<< 2) ||| (1 <<< 3)]

def conflicts (self other : LockMode) : Bool :=
  match self.tableIndex, other.tableIndex with
  | some a, some b => (tableConflicts.get a >>> b.val) &&& 1 == 1
  | _, _ =>
    match self.rowIndex, other.rowIndex with
    | some a, some b => (rowConflicts.get a >>> b.val) &&& 1 == 1
    | _, _ => self == .advisoryExclusive || other == .advisoryExclusive

/-- **The conflict relation is symmetric**, also between modes of different kinds. -/
theorem conflicts_comm (a b : LockMode) : a.conflicts b = b.conflicts a := by
  cases a <;> cases b <;> rfl

end LockMode

inductive LockScope where
  | transaction
  | session
  deriving DecidableEq, Repr

inductive WaitPolicy where
  | wait
  | noWait
  | skipLocked
  deriving DecidableEq, Repr

inductive Acquired where
  | granted
  | skipped
  deriving DecidableEq, Repr

/-- The errors of `acquire`, with their texts. -/
inductive LockError where
  | lockNotAvailable (object : String)
  | deadlockDetected (detail : String)
  deriving DecidableEq, Repr

/-! ### The lock table -/

/-- `Holding`: one granted lock of a session. -/
structure Holding where
  holder : SessionId
  mode : LockMode
  scope : LockScope
  deriving DecidableEq, Repr

/-- `Inner`: the state behind the manager's mutex. -/
structure Inner where
  granted : ExtTreeMap LockObject (List Holding)
  waiting : ExtTreeMap SessionId (LockObject × LockMode)

namespace Inner

/-- The holdings on an object; an object without entry has none. -/
def holders (s : Inner) (object : LockObject) : List Holding :=
  s.granted[object]?.getD []

def grantable (s : Inner) (object : LockObject) (mode : LockMode) (holder : SessionId) : Bool :=
  match s.granted[object]? with
  | none => true
  | some hs => hs.all fun h => h.holder == holder || !mode.conflicts h.mode

def grant (s : Inner) (object : LockObject) (mode : LockMode) (holder : SessionId)
    (scope : LockScope) : Inner :=
  { s with granted := s.granted.insert object (s.holders object ++ [⟨holder, mode, scope⟩]) }

def blockers (s : Inner) (who : SessionId) : List SessionId :=
  match s.waiting[who]? with
  | none => []
  | some (object, mode) =>
    match s.granted[object]? with
    | none => []
    | some hs =>
      (sortBy compare
        ((hs.filter fun h => h.holder != who && mode.conflicts h.mode).map (·.holder))).eraseReps

/-- The local variables of `deadlocked`; the top of the stack comes first. -/
structure Search where
  visited : ExtTreeSet SessionId
  stack : List SessionId
  found : Bool

/-- One round of the loop in `deadlocked`. -/
def searchStep (s : Inner) (start : SessionId) (st : Search) : Search :=
  match st.stack with
  | [] => st
  | node :: rest =>
    if node = start then { st with stack := rest, found := true }
    else if node ∈ st.visited then { st with stack := rest }
    else
      { st with
        visited := st.visited.insert node
        stack := (s.blockers node).reverse ++ rest }

/-- Enough rounds for the search: each waiting session is expanded at most once. -/
def searchFuel (s : Inner) (start : SessionId) : Nat :=
  (s.blockers start).length + (s.waiting.keys.map fun w => (s.blockers w).length).sum

def deadlocked (s : Inner) (start : SessionId) : Bool :=
  (whileLoop (fun st : Search => !st.found && !st.stack.isEmpty) (s.searchStep start)
    (s.searchFuel start) ⟨∅, (s.blockers start).reverse, false⟩).found

/-- `Inner::release_where`: drop the matching holdings, then objects left empty. -/
def releaseWhere (s : Inner) (pred : Holding → Bool) : Inner :=
  { s with
    granted := s.granted.filterMap fun _ hs =>
      let kept := hs.filter fun h => !pred h
      if kept.isEmpty then none else some kept }

def stopWaiting (s : Inner) (holder : SessionId) : Inner :=
  { s with waiting := s.waiting.erase holder }

/-! ### Calls that finish in one section -/

def tryAcquire (s : Inner) (holder : SessionId) (object : LockObject) (mode : LockMode)
    (scope : LockScope) : Bool × Inner :=
  if s.grantable object mode holder then (true, s.grant object mode holder scope)
  else (false, s)

def releaseOne (s : Inner) (holder : SessionId) (object : LockObject) (mode : LockMode) :
    Bool × Inner :=
  match s.granted[object]? with
  | none => (false, s)
  | some hs =>
    let p := fun h : Holding => h.holder == holder && h.mode == mode
    let kept := hs.eraseP p
    (hs.any p,
      { s with
        granted := if kept.isEmpty then s.granted.erase object else s.granted.insert object kept })

def releaseTransaction (s : Inner) (holder : SessionId) : Inner :=
  (s.releaseWhere fun h => h.holder == holder && h.scope == .transaction).stopWaiting holder

def releaseSessionAdvisory (s : Inner) (holder : SessionId) : Inner :=
  s.releaseWhere fun h => h.holder == holder && h.scope == .session

def releaseSession (s : Inner) (holder : SessionId) : Inner :=
  (s.releaseWhere fun h => h.holder == holder).stopWaiting holder

end Inner

/-! ### Blocking calls -/

/-- The arguments of an `acquire` call. -/
structure Request where
  holder : SessionId
  object : LockObject
  mode : LockMode
  scope : LockScope
  wait : WaitPolicy
  deadline : Bool
  deriving DecidableEq, Repr

/-- What one round of `acquire` ends with; `none` goes on to wait. -/
abbrev Outcome := Option (Except LockError Acquired)

/-- The critical section of `acquire`, run once per round. -/
def Inner.attempt (s : Inner) (r : Request) : Inner × Outcome :=
  if s.grantable r.object r.mode r.holder then
    ((s.grant r.object r.mode r.holder r.scope).stopWaiting r.holder, some (.ok .granted))
  else
    match r.wait with
    | .noWait =>
      (s.stopWaiting r.holder, some (.error (.lockNotAvailable r.object.describe)))
    | .skipLocked => (s.stopWaiting r.holder, some (.ok .skipped))
    | .wait =>
      let waiting := { s with waiting := s.waiting.insert r.holder (r.object, r.mode) }
      if waiting.deadlocked r.holder then
        (waiting.stopWaiting r.holder,
          some (.error (.deadlockDetected
            s!"process {r.holder} waits for {r.object.describe}; a cycle was found")))
      else (waiting, none)

/-- The lock table together with the `acquire` calls blocked between rounds. -/
structure LockState where
  inner : Inner
  blocked : List Request

/-- One critical section of one call. -/
inductive LockAction where
  | tryAcquire (holder : SessionId) (object : LockObject) (mode : LockMode) (scope : LockScope)
  /-- An `acquire` call enters its first round. -/
  | acquire (r : Request)
  /-- A blocked `acquire` call is woken and goes through another round. -/
  | retry (r : Request)
  /-- The deadline of a blocked `acquire` call has passed. -/
  | timeUp (r : Request)
  | releaseOne (holder : SessionId) (object : LockObject) (mode : LockMode)
  | releaseTransaction (holder : SessionId)
  | releaseSessionAdvisory (holder : SessionId)
  | releaseSession (holder : SessionId)
  deriving DecidableEq, Repr

namespace LockState

/-- A round of `acquire`: the call is blocked afterwards unless it ended. -/
def round (s : LockState) (r : Request) (others : List Request) : LockState :=
  match s.inner.attempt r with
  | (inner, none) => ⟨inner, r :: others⟩
  | (inner, some _) => ⟨inner, others⟩

/-- The manager after one critical section. Only a blocked call can retry or time
out, and only one with a deadline can time out. -/
def step (s : LockState) : LockAction → LockState
  | .tryAcquire holder object mode scope =>
      { s with inner := (s.inner.tryAcquire holder object mode scope).2 }
  | .acquire r => s.round r s.blocked
  | .retry r => if r ∈ s.blocked then s.round r (s.blocked.erase r) else s
  | .timeUp r =>
      if r ∈ s.blocked ∧ r.deadline then ⟨s.inner.stopWaiting r.holder, s.blocked.erase r⟩ else s
  | .releaseOne holder object mode =>
      { s with inner := (s.inner.releaseOne holder object mode).2 }
  | .releaseTransaction holder => { s with inner := s.inner.releaseTransaction holder }
  | .releaseSessionAdvisory holder => { s with inner := s.inner.releaseSessionAdvisory holder }
  | .releaseSession holder => { s with inner := s.inner.releaseSession holder }

/-- The manager as `LockManager::new` creates it. -/
def initial : LockState := ⟨⟨∅, ∅⟩, []⟩

/-- The manager after an interleaving of critical sections. -/
def run (acts : List LockAction) : LockState := acts.foldl step initial

end LockState

/-! ### Exclusion -/

namespace Inner

/-- No two sessions hold conflicting modes on one object. -/
def Compatible (s : Inner) : Prop :=
  ∀ object, ∀ a ∈ s.holders object, ∀ b ∈ s.holders object,
    a.holder ≠ b.holder → a.mode.conflicts b.mode = false

/-- `s'` has no holding that `s` does not have. -/
def Shrinks (s s' : Inner) : Prop :=
  ∀ object, ∀ h ∈ s'.holders object, h ∈ s.holders object

section
variable {s s' : Inner}

theorem Compatible.of_shrinks (hc : s.Compatible) (hs : s.Shrinks s') : s'.Compatible :=
  fun object a ha b hb => hc object a (hs object a ha) b (hs object b hb)

variable {object : LockObject} {mode : LockMode} {holder : SessionId}

theorem grantable_iff :
    s.grantable object mode holder = true ↔
      ∀ h ∈ s.holders object, h.holder ≠ holder → mode.conflicts h.mode = false := by
  rw [grantable, holders]
  cases s.granted[object]? with
  | none => simp
  | some hs => grind

theorem holders_grant (scope : LockScope) (o : LockObject) :
    (s.grant object mode holder scope).holders o =
      s.holders o ++ if o = object then [⟨holder, mode, scope⟩] else [] := by
  by_cases ho : o = object
  · subst ho
    simp [grant, holders]
  · have hne : compare object o ≠ .eq := fun he => ho (eq_of_compare he).symm
    simp [grant, holders, getElem?_insert, hne, ho]

theorem mem_holders_grant {o : LockObject} {scope : LockScope} {h : Holding} :
    h ∈ (s.grant object mode holder scope).holders o ↔
      h ∈ s.holders o ∨ (o = object ∧ h = ⟨holder, mode, scope⟩) := by
  rw [holders_grant, List.mem_append]
  split <;> simp_all

/-- A grant is compatible: the requester's mode was checked against every other
holder, and conflicts are symmetric. -/
theorem Compatible.grant (hc : s.Compatible) (scope : LockScope)
    (hg : s.grantable object mode holder = true) :
    (s.grant object mode holder scope).Compatible := by
  have hfree := grantable_iff.mp hg
  intro o a ha b hb hab
  rcases mem_holders_grant.mp ha with hold | ⟨rfl, rfl⟩
  · rcases mem_holders_grant.mp hb with hold' | ⟨rfl, rfl⟩
    · exact hc o a hold b hold' hab
    · rw [LockMode.conflicts_comm]
      exact hfree a hold hab
  · grind [mem_holders_grant]

theorem holders_releaseWhere (s : Inner) (pred : Holding → Bool) (object : LockObject) :
    (s.releaseWhere pred).holders object = (s.holders object).filter fun h => !pred h := by
  simp only [holders, releaseWhere, getElem?_filterMap']
  cases s.granted[object]? with
  | none => rfl
  | some hs => grind

theorem shrinks_releaseWhere (s : Inner) (pred : Holding → Bool) :
    s.Shrinks (s.releaseWhere pred) := by
  intro object h hh
  rw [holders_releaseWhere] at hh
  exact (List.mem_filter.mp hh).1

theorem holders_releaseOne (s : Inner) (holder : SessionId) (object : LockObject) (mode : LockMode)
    (o : LockObject) : (s.releaseOne holder object mode).2.holders o =
      if o = object then (s.holders o).eraseP fun h => h.holder == holder && h.mode == mode
      else s.holders o := by
  rw [releaseOne]
  cases hg : s.granted[object]? with
  | none =>
    dsimp only
    split
    · simp_all [holders]
    · rfl
  | some hs =>
    by_cases ho : o = object
    · subst ho
      simp only [holders, hg, if_true]
      split
      · simp_all
      · simp
    · have hne : compare object o ≠ .eq := fun he => ho (eq_of_compare he).symm
      simp only [holders, if_neg ho]
      split
      · simp [getElem?_erase, hne]
      · simp [getElem?_insert, hne]

theorem shrinks_releaseOne (s : Inner) (holder : SessionId) (object : LockObject)
    (mode : LockMode) : s.Shrinks (s.releaseOne holder object mode).2 := by
  intro o h hh
  rw [holders_releaseOne] at hh
  split at hh
  · exact List.mem_of_mem_eraseP hh
  · exact hh

/-- The session holds a lock that lasts until the end of its transaction. -/
def HoldsTransaction (s : Inner) (sid : SessionId) : Prop :=
  ∃ object, ∃ h ∈ s.holders object, h.holder = sid ∧ h.scope = .transaction

/-- **The end of a transaction releases its locks.** -/
theorem not_holdsTransaction_releaseTransaction (s : Inner) (sid : SessionId) :
    ¬ (s.releaseTransaction sid).HoldsTransaction sid := by
  rintro ⟨object, h, hh, hholder, hscope⟩
  have hkept := (holders_releaseWhere s _ object).symm ▸ hh
  simp [hholder, hscope] at hkept

theorem Compatible.attempt (hc : s.Compatible) (r : Request) : (s.attempt r).1.Compatible := by
  rw [Inner.attempt]
  split
  · rename_i hg
    exact hc.grant r.scope hg
  · split
    · exact hc
    · exact hc
    · simp only
      split <;> exact hc

end

end Inner

namespace LockState

theorem inner_round (s : LockState) (r : Request) (others : List Request) :
    (s.round r others).inner = (s.inner.attempt r).1 := by
  rw [round]
  split <;> simp_all

/-- **One critical section.** Whatever call runs it, it leaves no conflict. -/
theorem step_compatible {s : LockState} (hc : s.inner.Compatible) (a : LockAction) :
    (s.step a).inner.Compatible := by
  cases a with
  | tryAcquire holder object mode scope =>
    simp only [step, Inner.tryAcquire]
    split
    · rename_i hg
      exact hc.grant scope hg
    · exact hc
  | acquire r => exact inner_round s r _ ▸ hc.attempt r
  | retry r =>
    rw [step]
    split
    · exact inner_round s r _ ▸ hc.attempt r
    · exact hc
  | timeUp r =>
    simp only [step]
    split <;> exact hc
  | releaseOne holder object mode => exact hc.of_shrinks (s.inner.shrinks_releaseOne _ _ _)
  | releaseTransaction | releaseSessionAdvisory | releaseSession =>
    exact hc.of_shrinks (s.inner.shrinks_releaseWhere _)

theorem run_compatible (acts : List LockAction) : (run acts).inner.Compatible :=
  foldl_invariant (I := fun s : LockState => s.inner.Compatible) acts
    (fun _ a _ hc => step_compatible hc a) (by simp [initial, Inner.Compatible, Inner.holders])

/-- **Mutual exclusion.** At every point of every interleaving of lock manager
calls, two different sessions never hold conflicting modes on one object. -/
theorem run_exclusive (acts : List LockAction) (object : LockObject) (a b : Holding)
    (ha : a ∈ (run acts).inner.holders object) (hb : b ∈ (run acts).inner.holders object)
    (hab : a.holder ≠ b.holder) : a.mode.conflicts b.mode = false :=
  run_compatible acts object a ha b hb hab

/-- Session 1 upgrades its own lock and gives the upgrade back; session 2 waits for
the upgrade and is let in after it, while session 3 stays blocked. -/
def sampleRun : List LockAction :=
  [.tryAcquire 1 (.table 7) .share .transaction,
    .tryAcquire 1 (.table 7) .accessExclusive .transaction,
    .acquire ⟨2, .table 7, .accessShare, .transaction, .wait, false⟩,
    .acquire ⟨3, .table 7, .exclusive, .transaction, .wait, true⟩,
    .releaseOne 1 (.table 7) .accessExclusive,
    .retry ⟨2, .table 7, .accessShare, .transaction, .wait, false⟩,
    .retry ⟨3, .table 7, .exclusive, .transaction, .wait, true⟩]

theorem run_exclusive_sampleRun :
    (run sampleRun).inner.holders (.table 7) =
      [⟨1, .share, .transaction⟩, ⟨2, .accessShare, .transaction⟩] ∧
    LockMode.conflicts .share .accessShare = false :=
  ⟨by decide, run_exclusive sampleRun (.table 7) ⟨1, .share, .transaction⟩
    ⟨2, .accessShare, .transaction⟩ (by decide) (by decide) (by decide)⟩

end LockState

/-! ### Locks of a transaction -/

/-- The call ends the transaction of the session, or the session. -/
def LockAction.Ends (sid : SessionId) (a : LockAction) : Prop :=
  a = .releaseTransaction sid ∨ a = .releaseSession sid

/-- The lock that an unlock call comes to first is session-scoped. -/
def LockAction.Apart (s : Inner) : LockAction → Prop
  | .releaseOne holder object mode =>
    ∀ h ∈ (s.holders object).find? fun h => h.holder == holder && h.mode == mode,
      h.scope = .session
  | _ => True

namespace LockState

/-- Until the transaction of a session ends, no lock that was taken for it is released. -/
def LocksLast (acts : List LockAction) : Prop :=
  ∀ pre mid, pre ++ mid <+: acts → ∀ object (h : Holding), h.scope = .transaction →
    (∀ a ∈ mid, ¬ a.Ends h.holder) →
      ((run pre).inner.holders object).count h ≤ ((run (pre ++ mid)).inner.holders object).count h

theorem count_eraseP (p : Holding → Bool) (h : Holding) (l : List Holding) :
    (l.eraseP p).count h = l.count h - if l.find? p = some h then 1 else 0 := by
  induction l with
  | nil => rfl
  | cons a l ih => grind

theorem count_attempt (s : Inner) (r : Request) (o : LockObject) (h : Holding) :
    (s.holders o).count h ≤ ((s.attempt r).1.holders o).count h := by
  rw [Inner.attempt]
  split
  · exact (Inner.holders_grant r.scope o ▸ List.sublist_append_left _ _).count_le h
  · split
    · exact le_rfl
    · exact le_rfl
    · dsimp only
      split <;> exact le_rfl

/-- One call. -/
theorem step_keeps_iff (s : LockState) (a : LockAction) :
    (∀ object (h : Holding), h.scope = .transaction → ¬ a.Ends h.holder →
      (s.inner.holders object).count h ≤ ((s.step a).inner.holders object).count h) ↔
    a.Apart s.inner := by
  cases a with
  | releaseOne holder object mode =>
    simp only [step, Inner.holders_releaseOne, LockAction.Apart, LockAction.Ends]
    constructor
    · intro hkeeps h hfind
      cases hscope : h.scope with
      | session => rfl
      | transaction =>
        have hle := hkeeps object h hscope (by simp)
        have hpos := List.count_pos_iff.mpr (List.mem_of_find?_eq_some hfind)
        rw [if_pos rfl, count_eraseP, if_pos (Option.mem_def.mp hfind)] at hle
        omega
    · intro hapart o h hscope _
      split
      · subst o
        rw [count_eraseP, if_neg fun hfind => ?_, Nat.sub_zero]
        simp [hapart h hfind] at hscope
      · exact le_rfl
  | tryAcquire holder object mode scope =>
    refine iff_of_true (fun o h _ _ => ?_) trivial
    simp only [step, Inner.tryAcquire]
    split
    · exact (Inner.holders_grant scope o ▸ List.sublist_append_left _ _).count_le h
    · exact le_rfl
  | acquire r =>
    refine iff_of_true (fun o h _ _ => ?_) trivial
    exact inner_round s r _ ▸ count_attempt s.inner r o h
  | retry r =>
    refine iff_of_true (fun o h _ _ => ?_) trivial
    rw [step]
    split
    · exact inner_round s r _ ▸ count_attempt s.inner r o h
    · exact le_rfl
  | timeUp r =>
    refine iff_of_true (fun o h _ _ => ?_) trivial
    rw [step]
    split <;> exact le_rfl
  | releaseTransaction | releaseSessionAdvisory | releaseSession =>
    refine iff_of_true (fun o h hscope hends => ?_) trivial
    refine (List.count_filter ?_).ge.trans_eq (congrArg _ (Inner.holders_releaseWhere ..).symm)
    grind [LockAction.Ends]

/-- **Transaction-scoped locks last until the end of the transaction exactly in the
runs whose unlock calls come to a session-scoped lock first.** -/
theorem locksLast_iff (acts : List LockAction) : LocksLast acts ↔
    ∀ pre a, pre ++ [a] <+: acts → a.Apart (run pre).inner := by
  have hrun : ∀ pre a, run (pre ++ [a]) = (run pre).step a := by simp [run]
  constructor
  · intro h pre a hpre
    refine (step_keeps_iff (run pre) a).mp fun object l hscope hends => ?_
    exact hrun pre a ▸ h pre [a] hpre object l hscope (by simpa using hends)
  · intro h pre mid hpre object l hscope hends
    induction mid generalizing pre with
    | nil => simp
    | cons a mid ih =>
      rw [List.forall_mem_cons] at hends
      rw [List.append_cons] at hpre ⊢
      have hstep := (step_keeps_iff (run pre) a).mpr
        (h pre a ((List.prefix_append _ mid).trans hpre)) object l hscope hends.1
      exact (hrun pre a ▸ hstep).trans (ih _ hpre hends.2)

/-- `pg_advisory_unlock` releases the lock of `pg_advisory_xact_lock`. -/
theorem unlock_ends_transaction_lock : ¬ LocksLast
    [.tryAcquire 1 (.advisory 7) .advisoryExclusive .transaction,
      .tryAcquire 1 (.advisory 7) .advisoryExclusive .session,
      .releaseOne 1 (.advisory 7) .advisoryExclusive] := fun h =>
  absurd (h [_, _] [_] (List.prefix_refl _) (.advisory 7) ⟨1, .advisoryExclusive, .transaction⟩ rfl
    (by simp [LockAction.Ends])) (by decide)

end LockState

end GuardianDb.Sql
