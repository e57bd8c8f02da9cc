/-
The operation log (`log/mod.rs`): construction, local appends, replicated
entries, joins, and the sorted traversal behind `values`.

`BTreeMap`, `HashMap` and `HashSet` are ordered maps and sets; the log never
observes the iteration order of the hashed ones. The network client, the access
check (which admits everything) and the owner's identity beyond its public key
are left out. The content hash computed for an appended entry is a parameter.

Loops carry a fuel that covers their measure: every round of `traverse` and
`diff` pops one element and pushes only elements it marks as traversed.
-/
import Mathlib.Algebra.Group.Nat.Defs
import GuardianDb.Lib.Loop
import GuardianDb.Lib.SortBy
import GuardianDb.Log.Entry

namespace GuardianDb

open Std Loop SortBy

/-- `Log`. The field `heads` of the source is `headEntries` here: `heads` is its
sorting accessor. -/
structure Log where
  id : String
  entries : ExtTreeMap Hash Entry
  length : Nat
  headEntries : List Entry
  nexts : ExtTreeSet Hash
  sortFn : SortFn
  clock : LamportClock

namespace Log

/-! ### Heads -/

/-- `dedup`'s filter: keep the entries whose hash is new to `seen`. -/
def dedupFrom (seen : ExtTreeSet Hash) : List Entry → List Entry
  | [] => []
  | e :: es =>
      if e.hash ∈ seen then dedupFrom seen es
      else e :: dedupFrom (seen.insert e.hash) es

/-- `Log::dedup`: the first entry of every hash. -/
def dedup (v : List Entry) : List Entry :=
  dedupFrom ∅ v

/-- The `parents` map of `find_heads`: every linked hash, to an entry linking it. -/
def parents (entries : List Entry) : ExtTreeMap Hash Hash :=
  entries.foldl (fun m e => e.next.foldl (fun m n => m.insert n e.hash) m) ∅

/-- The comparator of `find_heads`: by clock id, and `Less` on equal ids. -/
def headOrder : SortFn := fun a b =>
  let diff := compare a.clock.id b.clock.id
  if diff = .eq then .lt else diff

def findHeads (entries : List Entry) : List Entry :=
  sortBy headOrder (entries.filter fun e => e.hash ∉ parents entries)

/-- The highest clock time of a list of entries, from `t` up. -/
def maxTime (t : Nat) (es : List Entry) : Nat :=
  es.foldl (fun t h => max t h.clock.time) t

/-! ### Construction -/

/-- `LogOptions`, with the identifier already chosen (the source falls back to
the wall clock). -/
structure LogOptions where
  id : String
  entries : List Entry := []
  heads : List Entry := []
  clock : Option LamportClock := none
  sortFn : Option SortFn := none

/-- Every hash linked by one of `es`. -/
def linkSet (nexts : ExtTreeSet Hash) (es : List Entry) : ExtTreeSet Hash :=
  es.foldl (fun s e => s.insertMany e.next) nexts

/-- `Log::new` for an owner with public key `pubKey`. -/
def new (pubKey : String) (opts : LogOptions) : Log :=
  let heads := dedup (if opts.heads.isEmpty then findHeads opts.entries else opts.heads)
  { id := opts.id
    entries := opts.entries.foldl (fun m e => m.insert e.hash e) ∅
    length := opts.entries.length
    headEntries := heads
    nexts := linkSet ∅ opts.entries
    sortFn := noZeroes (opts.sortFn.getD lastWriteWins)
    clock := ⟨pubKey, maxTime ((opts.clock.map (·.time)).getD 0) heads⟩ }

/-! ### Traversal -/

/-- The local variables of `traverse`. `halted` is the `break` at `end_hash`. -/
structure TraverseState where
  stack : List Entry
  traversed : ExtTreeSet Hash
  result : List Entry
  count : Nat
  halted : Bool

/-- `sort_by` with the log's comparator, then `reverse`: latest entry first. -/
def resort (log : Log) (stack : List Entry) : List Entry :=
  (sortBy log.sortFn stack).reverse

/-- One link of the popped entry: push its target unless already traversed. -/
def visit (log : Log) (acc : List Entry × ExtTreeSet Hash) (h : Hash) :
    List Entry × ExtTreeSet Hash :=
  match log.entries[h]? with
  | none => acc
  | some e =>
      if e.hash ∈ acc.2 then acc
      else (log.resort (e :: acc.1), acc.2.insert e.hash)

/-- One round of the loop in `traverse`. -/
def traverseStep (log : Log) (endHash : Option Hash) (s : TraverseState) : TraverseState :=
  match s.stack with
  | [] => s
  | e :: rest =>
      let acc := e.next.foldl log.visit (rest, s.traversed)
      { stack := acc.1
        traversed := acc.2
        result := s.result ++ [e]
        count := s.count + 1
        halted := endHash == some e.hash }

/-- The loop condition of `traverse`. -/
def traverseCond (amount : Option Nat) (s : TraverseState) : Bool :=
  !s.stack.isEmpty && amount.all (s.count < ·) && !s.halted

/-- The state `traverse` starts its loop in. -/
def traverseInit (log : Log) (roots : List Entry) : TraverseState :=
  { stack := log.resort (dedup roots)
    traversed := ∅
    result := []
    count := 0
    halted := false }

/-- The state `traverse` leaves its loop in. -/
def traverseRun (log : Log) (roots : List Entry) (amount : Option Nat)
    (endHash : Option Hash) : TraverseState :=
  whileLoop (traverseCond amount) (log.traverseStep endHash)
    ((dedup roots).length + log.entries.size) (log.traverseInit roots)

def traverse (log : Log) (roots : List Entry) (amount : Option Nat)
    (endHash : Option Hash) : List Entry :=
  (log.traverseRun roots amount endHash).result

def values (log : Log) : List Entry :=
  (log.traverse log.headEntries none none).reverse

def heads (log : Log) : List Entry :=
  log.resort (dedup log.headEntries)

/-! ### Writing -/

/-- `Log::add_entry`. The source also reports whether the entry was new. -/
def addEntry (log : Log) (entry : Entry) : Log :=
  if entry.hash ∈ log.entries then log
  else
    let nexts := log.nexts.insertMany entry.next
    let kept := log.headEntries.filter fun h => h.hash ∉ entry.next
    { log with
      nexts := nexts
      entries := log.entries.insert entry.hash entry
      headEntries := if entry.hash ∈ nexts then kept else kept ++ [entry]
      length := log.length + 1 }

/-- The clock of the next entry, past the own one and the heads'; a `u64` that wraps. -/
def nextClock (log : Log) : LamportClock :=
  ⟨log.clock.id, (maxTime log.clock.time log.headEntries + 1) % 2 ^ 64⟩

/-- What `append` links to: the heads, and the references of a traversal from them. -/
def appendLinks (log : Log) (nPtr : Option Nat) : List Hash :=
  let refs := log.traverse log.headEntries
    (some (max (nPtr.getD 1) log.headEntries.length)) none
  (dedup log.headEntries.reverse ++ refs).map (·.hash)

/-- The entry `append` creates, for a content hash `hashEntry` of the finished entry. -/
def appended (hashEntry : Entry → Hash) (log : Log) (data : List UInt8) (nPtr : Option Nat) :
    Entry :=
  let draft : Entry := ⟨0, log.id, data, log.appendLinks nPtr, log.nextClock⟩
  { draft with hash := hashEntry draft }

def append (hashEntry : Entry → Hash) (log : Log) (data : List UInt8) (nPtr : Option Nat) :
    Log :=
  let entry := log.appended hashEntry data nPtr
  { log with
    clock := log.nextClock
    entries := log.entries.insert entry.hash entry
    nexts := log.nexts.insertMany (log.appendLinks nPtr)
    headEntries := [entry]
    length := log.length + 1 }

def syncClockFromHeads (log : Log) : Log :=
  { log with clock := ⟨log.clock.id, maxTime log.clock.time log.headEntries⟩ }

/-! ### Difference and join -/

/-- The local variables of `diff`. -/
structure DiffState where
  stack : List Hash
  traversed : ExtTreeSet Hash
  diff : ExtTreeMap Hash Entry

/-- One link of a differing entry: queue it unless traversed or held by `other`. -/
def diffVisit (other : Log) (acc : List Hash × ExtTreeSet Hash) (n : Hash) :
    List Hash × ExtTreeSet Hash :=
  if n ∉ acc.2 ∧ n ∉ other.entries then (acc.1 ++ [n], acc.2.insert n) else acc

/-- One round of the loop in `diff`. -/
def diffStep (log other : Log) (s : DiffState) : DiffState :=
  match s.stack with
  | [] => s
  | hash :: rest =>
      match log.entries[hash]? with
      | none => { s with stack := rest }
      | some e =>
          if hash ∉ other.entries ∧ e.id = other.id then
            let acc := e.next.foldl (diffVisit other) (rest, s.traversed)
            { stack := acc.1
              traversed := acc.2.insert e.hash
              diff := s.diff.insert e.hash e }
          else { s with stack := rest }

/-- Every link of a held entry, with repetitions. -/
def allLinks (log : Log) : List Hash :=
  log.entries.toList.flatMap (·.2.next)

/-- The state `diff` leaves its loop in. -/
def diffRun (log other : Log) : DiffState :=
  whileLoop (fun s : DiffState => !s.stack.isEmpty) (log.diffStep other)
    (log.headEntries.length + log.allLinks.length)
    ⟨log.headEntries.map (·.hash), ∅, ∅⟩

/-- `Log::diff`: the entries of `log` found missing from `other`. -/
def diff (log other : Log) : ExtTreeMap Hash Entry :=
  (log.diffRun other).diff

/-- The heads of a join, before any truncation: `nexts` is the merged reverse
index and `newItems` the entries taken from `other`. -/
def mergedHeads (log other : Log) (nexts : ExtTreeSet Hash)
    (newItems : ExtTreeMap Hash Entry) : List Entry :=
  let nextsFromNewItems := linkSet ∅ (newItems.toList.map (·.2))
  let allHeads := findHeads (log.headEntries ++ other.headEntries)
  let merged := (allHeads.filter fun x => x.hash ∉ nextsFromNewItems).filter
    fun x => x.hash ∉ nexts
  dedup merged

/-- `join`'s truncation to the `n` latest values. -/
def truncate (log : Log) (n : Nat) : Log :=
  let vs := log.values.reverse.take n
  let entries : ExtTreeMap Hash Entry := vs.foldl (fun m v => m.insert v.hash v) ∅
  { log with
    entries := entries
    headEntries := findHeads (dedup vs)
    length := entries.size }

/-- The merge of `join`, before truncation and clock update. -/
def merge (log other : Log) : Log :=
  let newItems := other.diff log
  let items := newItems.toList.map (·.2)
  let nexts := linkSet log.nexts items
  { log with
    entries := newItems.toList.foldl (fun m p => m.insert p.1 p.2) log.entries
    length := log.length + (newItems.toList.filter fun p => p.1 ∉ log.entries).length
    nexts := nexts
    headEntries := log.mergedHeads other nexts newItems }

/-- `Log::join`: `none` when the log ids differ. -/
def join (log other : Log) (size : Option Nat) : Option Log :=
  if log.id ≠ other.id then none
  else
    let merged := log.merge other
    let sized := match size with
      | none => merged
      | some n => merged.truncate n
    some { sized with clock := ⟨log.clock.id, maxTime 0 sized.headEntries⟩ }

/-! ### The comparators as orders -/

/-- What `sort_by` asks of a comparator on the entries it sorts. -/
structure TotalPreorderOn (cmp : SortFn) (S : Set Entry) : Prop where
  refl : ∀ a ∈ S, cmp a a = .eq
  swap : ∀ a ∈ S, ∀ b ∈ S, cmp a b = (cmp b a).swap
  trans : ∀ a ∈ S, ∀ b ∈ S, ∀ c ∈ S, (cmp a b).isLE → (cmp b c).isLE → (cmp a c).isLE

theorem noZeroes_lastWriteWins (a b : Entry) : noZeroes lastWriteWins a b =
    if a.hash = b.hash then .eq else if a.clock = b.clock then .lt else clockKey a b := by
  simp only [noZeroes, lastWriteWins_eq]
  by_cases hc : a.clock = b.clock
  · simp [hc]
  · simp [hc, clockKey_eq_iff]

/-- Entries of different hashes have different clocks. -/
def ClocksApart (S : Set Entry) : Prop :=
  ∀ a ∈ S, ∀ b ∈ S, a.hash ≠ b.hash → a.clock ≠ b.clock

theorem ClocksApart.key {S : Set Entry} (h : ClocksApart S) {a b : Entry} (ha : a ∈ S)
    (hb : b ∈ S) (hne : a.hash ≠ b.hash) :
    noZeroes lastWriteWins a b = clockKey a b ∧ clockKey a b ≠ .eq := by
  have hclock := h a ha b hb hne
  rw [noZeroes_lastWriteWins, if_neg hne, if_neg hclock]
  exact ⟨rfl, mt clockKey_eq_iff.mp hclock⟩

/-- **The default comparator is a total preorder exactly on entries whose clocks differ
when their hashes do, and that compare alike when their hashes are equal**; the one of
`find_heads` is none on any entry. -/
theorem comparators_lawful_iff (S : Set Entry) :
    (TotalPreorderOn (noZeroes lastWriteWins) S ↔ ClocksApart S ∧
      ∀ a ∈ S, ∀ b ∈ S, ∀ c ∈ S, a.hash = b.hash → b.hash ≠ c.hash →
        clockKey a c = clockKey b c) ∧
    (TotalPreorderOn headOrder S ↔ S = ∅) := by
  have hone : ∀ {a b}, a.hash = b.hash → noZeroes lastWriteWins a b = .eq := by
    intro a b hh
    rw [noZeroes_lastWriteWins, if_pos hh]
  refine ⟨⟨fun h => ?_, fun ⟨hapart, hsame⟩ => ⟨fun a _ => hone rfl, fun a ha b hb => ?_,
    fun a ha b hb c hc hab hbc => ?_⟩⟩, fun h => ?_, ?_⟩
  · have hapart : ClocksApart S := by
      intro a ha b hb hne heq
      have hswap := h.swap a ha b hb
      simp [noZeroes_lastWriteWins, hne, hne.symm, heq] at hswap
    refine ⟨hapart, fun a ha b hb c hc hab hbc => ?_⟩
    -- an entry between two of one hash would be on both sides of their place
    have hle := h.trans b hb a ha c hc
    have hge := h.trans a ha b hb c hc
    obtain ⟨hkey, hne⟩ := hapart.key ha hc (hab ▸ hbc)
    obtain ⟨hkey', hne'⟩ := hapart.key hb hc hbc
    rw [hone hab.symm, hkey, hkey'] at hle
    rw [hone hab, hkey, hkey'] at hge
    cases hk : clockKey a c <;> cases hk' : clockKey b c <;> simp_all
  · by_cases hab : a.hash = b.hash
    · rw [hone hab, hone hab.symm]
      rfl
    · rw [(hapart.key ha hb hab).1, (hapart.key hb ha (Ne.symm hab)).1]
      exact OrientedCmp.eq_swap
  · by_cases hac : a.hash = c.hash
    · rw [hone hac]
      rfl
    · rw [(hapart.key ha hc hac).1]
      by_cases h₁ : a.hash = b.hash
      · rw [(hapart.key hb hc (h₁ ▸ hac)).1] at hbc
        rwa [hsame a ha b hb c hc h₁ (h₁ ▸ hac)]
      · rw [(hapart.key ha hb h₁).1] at hab
        by_cases h₂ : b.hash = c.hash
        · have hkey := congrArg Ordering.swap (hsame b hb c hc a ha h₂ (h₂ ▸ Ne.symm h₁))
          rw [← OrientedCmp.eq_swap, ← OrientedCmp.eq_swap] at hkey
          exact hkey ▸ hab
        · rw [(hapart.key hb hc h₂).1] at hbc
          exact TransCmp.isLE_trans hab hbc
  · refine Set.eq_empty_of_forall_notMem fun a ha => ?_
    have hrefl := h.refl a ha
    simp [headOrder] at hrefl
  · rintro rfl
    exact ⟨by simp, by simp, by simp⟩

/-- Two entries of one clock are both `Less` than the other. -/
theorem one_clock_both_less : ¬ TotalPreorderOn (noZeroes lastWriteWins)
    {⟨1, "log", [1], [], ⟨"a", 1⟩⟩, ⟨2, "log", [2], [], ⟨"a", 1⟩⟩} := fun h =>
  absurd (h.swap _ (.inl rfl) _ (.inr rfl)) (by decide)

end Log

end GuardianDb
