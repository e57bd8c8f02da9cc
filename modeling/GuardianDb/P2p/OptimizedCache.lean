/-
The content cache (`p2p/network/core/optimized_cache.rs`).

Small payloads are held as they are, large ones compressed in a second cache. A hit in the
second is copied to the first, which is asked first. A payload is put into one of the two
and the other keeps what it has of the key. So an old payload in the first cache hides a
new one in the second, and an old one in the second comes back when the first evicts.

The compressor is a parameter that reads what it writes. The order of candidates for
eviction and the test for when to evict are parameters too: they come from floating-point
scores and the clock.

  * `coherent_step` — a put that does not differ from the other cache keeps both fresh.
  * `get_returns_latest` — in runs of such puts every hit is the latest payload.
-/
import GuardianDb.Lib.Lru
import GuardianDb.Lib.Run

namespace GuardianDb.P2p

/-! ### The cache -/

abbrev Payload := List UInt8

/-- `zstd`: the compression of payloads, and the decompression to a given size. -/
structure Zstd where
  compress : Payload → Option Payload
  decompress : Payload → Nat → Option Payload
  /-- What was compressed comes back. -/
  lossless : ∀ {data c}, compress data = some c → decompress c data.length = some data

structure CacheEntry where
  data : Payload
  lastAccessed : Nat
  accessCount : Nat
  priority : Nat
  deriving DecidableEq, Repr

structure CompressedEntry where
  compressedData : Payload
  originalSize : Nat
  deriving DecidableEq, Repr

/-- What the cache takes from elsewhere, and its configuration. -/
structure CacheEnv where
  zstd : Zstd
  compressionThreshold : Nat
  /-- The usage is above the threshold for eviction. -/
  overfull : Nat → Bool
  /-- The candidates for eviction at a time, by their scores. -/
  sortCandidates : Nat → List (String × CacheEntry) → List (String × CacheEntry)

/-- `OptimizedCache`: the two caches and the number of bytes that have been put. -/
structure OptimizedCache where
  dataCache : Lru String CacheEntry
  compressedCache : Lru String CompressedEntry
  totalBytesCached : Nat
  deriving DecidableEq, Repr

namespace OptimizedCache

variable (env : CacheEnv)

def new (maxDataEntries maxCompressedEntries : Nat) : OptimizedCache where
  dataCache := .empty (if maxDataEntries = 0 then 10000 else maxDataEntries)
  compressedCache := .empty (if maxCompressedEntries = 0 then 50000 else maxCompressedEntries)
  totalBytesCached := 0

/-- `decompress_data`; the task that runs it may fail. -/
def decompressData (taskFails : Bool) (e : CompressedEntry) : Option Payload :=
  if taskFails then none else env.zstd.decompress e.compressedData e.originalSize

/-- `compress_data`; the task that runs it may fail. -/
def compressData (taskFails : Bool) (data : Payload) : Option Payload :=
  if taskFails then none else env.zstd.compress data

/-- `get` at a time. -/
def get (s : OptimizedCache) (cid : String) (now : Nat) (taskFails : Bool) :
    Option Payload × OptimizedCache :=
  match s.dataCache.peek cid with
  | some entry =>
      (some entry.data, { s with
        dataCache := s.dataCache.modify cid fun e =>
          { e with lastAccessed := now, accessCount := e.accessCount + 1 } })
  | none =>
      match s.compressedCache.peek cid with
      | some entry =>
          let compressed := s.compressedCache.modify cid id
          match decompressData env taskFails entry with
          | some data =>
              -- move it into the data cache for faster access
              (some data, { s with
                dataCache := s.dataCache.put cid ⟨data, now, 1, 7⟩
                compressedCache := compressed })
          | none => (none, { s with compressedCache := compressed.pop cid })
      | none => (none, s)

def storeUncompressed (s : OptimizedCache) (cid : String) (data : Payload) (now : Nat) :
    OptimizedCache :=
  { s with
    dataCache := s.dataCache.put cid ⟨data, now, 1, 5⟩
    totalBytesCached := s.totalBytesCached + data.length }

/-- One removal of `intelligent_eviction`, with the bytes freed so far. -/
def evictOne (acc : Lru String CacheEntry × Nat) (candidate : String × CacheEntry) :
    Lru String CacheEntry × Nat :=
  (acc.1.pop candidate.1,
    if (acc.1.peek candidate.1).isSome then acc.2 + candidate.2.data.length else acc.2)

/-- `intelligent_eviction`: a fifth of the candidates goes, rounded up. -/
def intelligentEviction (s : OptimizedCache) (now : Nat) : OptimizedCache :=
  let candidates := env.sortCandidates now s.dataCache.entries
  let evicted := (candidates.take ((candidates.length + 4) / 5)).foldl evictOne (s.dataCache, 0)
  { s with dataCache := evicted.1, totalBytesCached := s.totalBytesCached - evicted.2 }

def checkAndEvict (s : OptimizedCache) (now : Nat) : OptimizedCache :=
  if env.overfull s.totalBytesCached then intelligentEviction env s now else s

/-- What `put` compresses its payload to, if it does. -/
def compressed (data : Payload) (taskFails : Bool) : Option Payload :=
  if env.compressionThreshold ≤ data.length then compressData env taskFails data else none

/-- The storing part of `put`. -/
def store (s : OptimizedCache) (cid : String) (data : Payload) (now : Nat) (taskFails : Bool) :
    OptimizedCache :=
  match compressed env data taskFails with
  | some c => { s with
      compressedCache := s.compressedCache.put cid ⟨c, data.length⟩
      totalBytesCached := s.totalBytesCached + data.length }
  | none => storeUncompressed s cid data now

/-- `put` at a time. -/
def put (s : OptimizedCache) (cid : String) (data : Payload) (now : Nat) (taskFails : Bool) :
    OptimizedCache :=
  checkAndEvict env (store env s cid data now taskFails) now

end OptimizedCache

/-! ### Runs -/

/-- A call at a time; the task that compresses or decompresses for it may fail. -/
inductive CacheCall where
  | put (cid : String) (data : Payload) (now : Nat) (taskFails : Bool)
  | get (cid : String) (now : Nat) (taskFails : Bool)
  deriving DecidableEq, Repr

/-- The cache, and the payload that was last put for each key, which nothing reads. -/
structure CacheState where
  cache : OptimizedCache
  latest : String → Option Payload

/-- The latest payloads after a put. -/
def recorded (latest : String → Option Payload) (cid : String) (data : Payload) :
    String → Option Payload :=
  fun k => if k = cid then some data else latest k

variable (latest : String → Option Payload)

theorem recorded_self (cid : String) (data : Payload) :
    recorded latest cid data cid = some data :=
  if_pos rfl

theorem recorded_of_ne {cid k : String} (data : Payload)
    (h : k ≠ cid) : recorded latest cid data k = latest k :=
  if_neg h

/-- A cache that nothing has been put into. -/
def CacheState.start (maxDataEntries maxCompressedEntries : Nat) : CacheState :=
  ⟨.new maxDataEntries maxCompressedEntries, fun _ => none⟩

section
variable (env : CacheEnv)

def cacheStep (s : CacheState) : CacheCall → Option CacheState
  | .put cid data now taskFails =>
      some ⟨s.cache.put env cid data now taskFails, recorded s.latest cid data⟩
  | .get cid now taskFails => some ⟨(s.cache.get env cid now taskFails).2, s.latest⟩

/-- A put into one of the two caches does not differ from what the other one has of the
key. -/
def AgreesWithOther (s : CacheState) : CacheCall → Prop
  | .put cid data _ taskFails =>
      match OptimizedCache.compressed env data taskFails with
      | some _ => ∀ e, s.cache.dataCache.peek cid = some e → e.data = data
      | none => ∀ e, s.cache.compressedCache.peek cid = some e →
          ∀ d, env.zstd.decompress e.compressedData e.originalSize = some d → d = data
  | .get _ _ _ => True

/-- What the two caches hold is the latest. -/
structure Coherent (s : CacheState) : Prop where
  data : ∀ k e, s.cache.dataCache.peek k = some e → s.latest k = some e.data
  compressed : ∀ k e, s.cache.compressedCache.peek k = some e →
    ∀ d, env.zstd.decompress e.compressedData e.originalSize = some d → s.latest k = some d

end

variable {s : CacheState} {cid : String} {taskFails : Bool}

section
variable {env : CacheEnv}

open OptimizedCache

/-! ### Eviction -/

/-- Evictions only lose entries. -/
theorem peek_of_evict {k : String} {e : CacheEntry} (candidates : List (String × CacheEntry))
    {acc : Lru String CacheEntry × Nat}
    (h : (candidates.foldl evictOne acc).1.peek k = some e) : acc.1.peek k = some e := by
  induction candidates generalizing acc with
  | nil => exact h
  | cons candidate candidates ih =>
    have hpop : (acc.1.pop candidate.1).peek k = some e := ih h
    rw [Lru.peek_pop] at hpop
    split at hpop
    · cases hpop
    · exact hpop

theorem coherent_checkAndEvict {s : OptimizedCache} {latest : String → Option Payload}
    (h : Coherent env ⟨s, latest⟩) (now : Nat) :
    Coherent env ⟨checkAndEvict env s now, latest⟩ := by
  unfold checkAndEvict
  split
  · exact ⟨fun k e he => h.data k e (peek_of_evict _ he), h.compressed⟩
  · exact h

/-! ### Steps -/

/-- What was compressed for a put is read as its payload. -/
theorem decompress_compressed {data c d : Payload}
    (hc : OptimizedCache.compressed env data taskFails = some c)
    (hd : env.zstd.decompress c data.length = some d) : d = data := by
  unfold OptimizedCache.compressed at hc
  split at hc
  · simp_all [env.zstd.lossless, compressData]
  · cases hc

section
variable (h : Coherent env s)
include h

/-- A compressed payload that agrees with the other cache. -/
theorem coherent_putCompressed {data c : Payload} (total : Nat)
    (hother : ∀ e, s.cache.dataCache.peek cid = some e → e.data = data)
    (hread : ∀ d, env.zstd.decompress c data.length = some d → d = data) :
    Coherent env ⟨⟨s.cache.dataCache, s.cache.compressedCache.put cid ⟨c, data.length⟩, total⟩,
      recorded s.latest cid data⟩ where
  data k e he := by
    dsimp only
    by_cases hk : k = cid
    · subst hk
      rw [recorded_self, hother e he]
    · rw [recorded_of_ne _ _ hk]
      exact h.data k e he
  compressed k e he d hd := by
    have he : (s.cache.compressedCache.put cid ⟨c, data.length⟩).peek k = some e := he
    dsimp only
    by_cases hk : k = cid
    · grind [Lru.peek_put_self, recorded_self]
    · rw [recorded_of_ne _ _ hk]
      exact h.compressed k e (Lru.peek_of_put hk he) d hd

/-- A payload that is held as it is and agrees with the other cache. -/
theorem coherent_storeUncompressed {data : Payload} (now : Nat)
    (hother : ∀ e, s.cache.compressedCache.peek cid = some e →
      ∀ d, env.zstd.decompress e.compressedData e.originalSize = some d → d = data) :
    Coherent env ⟨storeUncompressed s.cache cid data now, recorded s.latest cid data⟩ where
  data k e he := by
    have he : (s.cache.dataCache.put cid ⟨data, now, 1, 5⟩).peek k = some e := he
    dsimp only
    by_cases hk : k = cid
    · subst hk
      rw [Lru.peek_put_self] at he
      cases he
      rw [recorded_self]
    · rw [recorded_of_ne _ _ hk]
      exact h.data k e (Lru.peek_of_put hk he)
  compressed k e he d hd := by
    dsimp only
    by_cases hk : k = cid
    · subst hk
      rw [recorded_self, hother e he d hd]
    · rw [recorded_of_ne _ _ hk]
      exact h.compressed k e he d hd

/-- **A put keeps both caches fresh** if the other one agrees. -/
theorem coherent_store {data : Payload}
    {now : Nat} (hagrees : AgreesWithOther env s (.put cid data now taskFails)) :
    Coherent env ⟨OptimizedCache.store env s.cache cid data now taskFails,
      recorded s.latest cid data⟩ := by
  simp only [AgreesWithOther] at hagrees
  unfold OptimizedCache.store
  cases hc : OptimizedCache.compressed env data taskFails with
  | some c => grind [coherent_putCompressed, decompress_compressed]
  | none =>
    rw [hc] at hagrees
    exact coherent_storeUncompressed h now hagrees

/-- What a hit in the compressed cache is decompressed to. -/
theorem latest_of_decompressData
    {entry : CompressedEntry} (hentry : s.cache.compressedCache.peek cid = some entry)
    {d : Payload} (hd : decompressData env taskFails entry = some d) :
    s.latest cid = some d := by
  unfold decompressData at hd
  split at hd
  · cases hd
  · exact h.compressed cid entry hentry d hd

/-- **A hit is the latest payload.** -/
theorem get_of_coherent {now : Nat}
    {v : Payload} (hget : (s.cache.get env cid now taskFails).1 = some v) :
    s.latest cid = some v := by
  unfold OptimizedCache.get at hget
  split at hget
  · next e he =>
    cases hget
    exact h.data cid e he
  · split at hget
    · next e he => grind [latest_of_decompressData]
    · cases hget

/-- **A get keeps both caches fresh**: it promotes the latest payload. -/
theorem coherent_get (cid : String) (now : Nat)
    (taskFails : Bool) : Coherent env ⟨(s.cache.get env cid now taskFails).2, s.latest⟩ := by
  unfold OptimizedCache.get
  split
  · refine ⟨fun k e he => ?_, h.compressed⟩
    rw [Lru.peek_modify] at he
    split at he
    · next hk =>
      obtain ⟨e', he', rfl⟩ := Option.map_eq_some_iff.mp he
      rw [hk]
      exact h.data cid e' he'
    · exact h.data k e he
  · split
    · next entry hentry =>
      have hused : ∀ k e, (s.cache.compressedCache.modify cid id).peek k = some e →
          s.cache.compressedCache.peek k = some e := by grind [Lru.peek_modify]
      dsimp only
      cases hd : decompressData env taskFails entry with
      | some data =>
        refine ⟨fun k e he => ?_, fun k e he => h.compressed k e (hused k e he)⟩
        by_cases hk : k = cid
        · grind [Lru.peek_put_self, latest_of_decompressData]
        · exact h.data k e (Lru.peek_of_put hk he)
      | none =>
        refine ⟨h.data, fun k e he => ?_⟩
        rw [Lru.peek_pop] at he
        split at he
        · cases he
        · exact h.compressed k e (hused k e he)
    · exact h

end

/-- **One call** keeps both caches fresh. -/
theorem coherent_step {s s' : CacheState} {call : CacheCall} (h : Coherent env s)
    (hagrees : AgreesWithOther env s call) (hstep : cacheStep env s call = some s') :
    Coherent env s' := by
  cases call with
  | put cid data now taskFails =>
    cases hstep
    exact coherent_checkAndEvict (coherent_store h hagrees) now
  | get cid now taskFails =>
    cases hstep
    exact coherent_get h cid now taskFails

end

/-- **Every hit is the latest payload**, in every run in which no put differs from what
the other cache has of its key. -/
theorem get_returns_latest (env : CacheEnv) (maxDataEntries maxCompressedEntries : Nat)
    {calls : List CacheCall} {s : CacheState}
    (hagrees : Run.Along (cacheStep env) (AgreesWithOther env)
      (.start maxDataEntries maxCompressedEntries) calls)
    (hrun : Run.run (cacheStep env) (.start maxDataEntries maxCompressedEntries) calls = some s)
    {cid : String} {now : Nat} {taskFails : Bool} {v : Payload}
    (hget : (s.cache.get env cid now taskFails).1 = some v) : s.latest cid = some v := by
  have hcoherent : Coherent env s :=
    Run.run_invariant (fun _ _ _ hstep hagrees h => coherent_step h hagrees hstep) hagrees
      ⟨nofun, nofun⟩ hrun
  exact get_of_coherent hcoherent hget

/-! ### Two payloads of one key -/

/-- Payloads of four bytes and more are compressed, and nothing is evicted for its
score. -/
def sampleCacheEnv : CacheEnv where
  zstd := ⟨fun data => some data.reverse, fun c _ => some c.reverse, by
    rintro data c h
    obtain rfl := Option.some.inj h
    rw [List.reverse_reverse]⟩
  compressionThreshold := 4
  overfull _ := false
  sortCandidates _ candidates := candidates

def isNewKey (s : CacheState) : CacheCall → Bool
  | .put cid _ _ _ =>
      (s.cache.dataCache.peek cid).isNone && (s.cache.compressedCache.peek cid).isNone
  | .get _ _ _ => true

theorem agreesWithOther_of_isNewKey {env : CacheEnv} (s : CacheState) (call : CacheCall)
    (h : isNewKey s call = true) : AgreesWithOther env s call := by
  cases call with
  | get cid now taskFails => trivial
  | put cid data now taskFails =>
    simp only [isNewKey, Bool.and_eq_true, Option.isNone_iff_eq_none] at h
    simp only [AgreesWithOther]
    split
    · simp_all
    · simp_all

/-- A small and a large payload under keys of their own; the large one is promoted and
found again. -/
theorem get_returns_latest_promoted :
    ∃ s, Run.run (cacheStep sampleCacheEnv) (.start 2 2)
        [.put "k" [1] 0 false, .put "l" [1, 2, 3, 4] 1 false, .get "l" 2 false] = some s ∧
      (s.cache.get sampleCacheEnv "l" 3 false).1 = some [1, 2, 3, 4] ∧
      s.latest "l" = some [1, 2, 3, 4] := by
  have hnew : Run.Along (cacheStep sampleCacheEnv) (AgreesWithOther sampleCacheEnv) (.start 2 2)
      [.put "k" [1] 0 false, .put "l" [1, 2, 3, 4] 1 false, .get "l" 2 false] :=
    Run.along_of_check agreesWithOther_of_isNewKey (by decide +kernel)
  exact ⟨_, rfl, by decide +kernel, get_returns_latest sampleCacheEnv 2 2 hnew rfl
    (by decide +kernel : (OptimizedCache.get sampleCacheEnv _ "l" 3 false).1 =
      some [1, 2, 3, 4])⟩

/-- A small payload hides the large one that was put after it; and a large payload comes
back when the small one that was put after it has been evicted. -/
theorem old_payload_returned :
    (∃ s, Run.run (cacheStep sampleCacheEnv) (.start 2 2)
        [.put "k" [1] 0 false, .put "k" [1, 2, 3, 4] 1 false] = some s ∧
      (s.cache.get sampleCacheEnv "k" 2 false).1 = some [1] ∧ s.latest "k" = some [1, 2, 3, 4]) ∧
    ∃ s, Run.run (cacheStep sampleCacheEnv) (.start 1 1)
        [.put "k" [1, 2, 3, 4] 0 false, .put "k" [1] 1 false, .put "l" [2] 2 false] = some s ∧
      (s.cache.get sampleCacheEnv "k" 3 false).1 = some [1, 2, 3, 4] ∧ s.latest "k" = some [1] :=
  ⟨⟨_, rfl, by decide +kernel, by decide +kernel⟩, _, rfl, by decide +kernel, by decide +kernel⟩

end GuardianDb.P2p
