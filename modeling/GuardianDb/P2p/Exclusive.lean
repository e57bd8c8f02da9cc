/-
Connections of the pool are exclusive.

A connection is in one place: active, or in the pool of its peer. One that somebody
holds is active or marked in the pool, as long as a new connection never takes the
place of one that has not been released yet.

  * `Pool.sound_step` — a step keeps each connection in one place, marked while held.
  * `connections_exclusive` — over whole runs no connection has two holders, and a
    released one can be taken again under its own id.
  * `permits_balanced` — permits are passed on, never lost or doubled.
-/
import GuardianDb.Lib.Tasks
import GuardianDb.P2p.ConnectionPool

namespace GuardianDb.P2p.ConnectionPool

open List

open Function (update)
open Tasks

variable {Node Address Caller : Type}
  {change : PooledConnection Node Address → PooledConnection Node Address}
  {test : PooledConnection Node Address → Bool}

theorem touchFirst_eq_none :
    ∀ {l : List (PooledConnection Node Address)}, touchFirst test change l = none →
      ∀ conn ∈ l, test conn = false
  | [], _, _, hmem => by cases hmem
  | conn :: rest, h, conn', hmem => by
      rw [touchFirst] at h
      split at h
      · cases h
      next htest =>
        obtain rfl | hmem := mem_cons.mp hmem
        · exact Bool.not_eq_true _ ▸ htest
        · exact touchFirst_eq_none (Option.map_eq_none_iff.mp h) conn' hmem

theorem touchFirst_eq_some {conn : PooledConnection Node Address} :
    ∀ {l l' : List (PooledConnection Node Address)}, touchFirst test change l = some (conn, l') →
      test conn = true ∧ ∃ pre post, l = pre ++ conn :: post ∧ l' = pre ++ change conn :: post
  | [], _, h => by cases h
  | c :: rest, l', h => by
      rw [touchFirst] at h
      split at h
      next htest =>
        cases h
        exact ⟨htest, [], rest, rfl, rfl⟩
      · obtain ⟨⟨found, rest'⟩, hfound, heq⟩ := Option.map_eq_some_iff.mp h
        cases heq
        obtain ⟨htest, pre, post, rfl, hrest⟩ := touchFirst_eq_some hfound
        exact ⟨htest, c :: pre, post, rfl, congrArg (c :: ·) hrest⟩

/-- The call is in `establish_new_connection`. -/
def Phase.isEstablishing : Phase Node → Bool
  | .establishing => true
  | _ => false

theorem not_inUse_of_reusable {cfg : PoolConfig} {now : Nat}
    {conn : PooledConnection Node Address} (h : conn.reusable cfg now = true) :
    conn.inUse = false := by
  rw [PooledConnection.reusable, Bool.and_eq_true, Bool.and_eq_true] at h
  exact Bool.not_eq_true' _ |>.mp h.1.1

/-! ### Every connection in one place -/

/-- The connection is one that was established for the peer. -/
structure Genuine (drawn : List Nat) (node : Node) (info : ConnectionInfo Node Address) :
    Prop where
  node : info.connectionId.node = node
  drawn : info.connectionId.uuid ∈ drawn
  healthy : info.status = .healthy

/-- Each connection is in one place, active or pooled, and one that is out is active or
marked in the pool. -/
structure Placed (active : Node → Option (ConnectionInfo Node Address))
    (pool : Node → List (PooledConnection Node Address)) (drawn : List Nat)
    (out : List (ConnectionId Node)) : Prop where
  pooled : ∀ node, ∀ conn ∈ pool node, Genuine drawn node conn.info
  distinct : ∀ node, ((pool node).map (·.info.connectionId)).Nodup
  live : ∀ node info, active node = some info → Genuine drawn node info
  apart : ∀ node info, active node = some info →
    ∀ conn ∈ pool node, conn.info.connectionId ≠ info.connectionId
  exclusive : out.Nodup
  placed : ∀ id ∈ out, (∃ info, active id.node = some info ∧ info.connectionId = id) ∨
    ∃ conn ∈ pool id.node, conn.info.connectionId = id ∧ conn.inUse = true

variable {c : PooledConnection Node Address}

namespace Placed

variable {active : Node → Option (ConnectionInfo Node Address)}
  {pool : Node → List (PooledConnection Node Address)} {drawn : List Nat}
  {out out' : List (ConnectionId Node)} {id : ConnectionId Node}

section
variable (h : Placed active pool drawn out)
include h

theorem perm (hout : out.Perm out') :
    Placed active pool drawn out' :=
  { h with
    exclusive := hout.nodup_iff.mp h.exclusive
    placed := fun id hid => h.placed id (hout.mem_iff.mpr hid) }

/-- The uuid of a connection that is out was drawn. -/
theorem drawn_of_out (hid : id ∈ out) : id.uuid ∈ drawn := by
  obtain ⟨info, hinfo, rfl⟩ | ⟨conn, hconn, rfl, -⟩ := h.placed id hid
  · exact (h.live _ info hinfo).drawn
  · exact (h.pooled _ conn hconn).drawn

end

section
variable [DecidableEq Node]

/-- A new connection takes a free place. -/
theorem establish (h : Placed active pool drawn out) (info : ConnectionInfo Node Address)
    (hfresh : info.connectionId.uuid ∉ drawn) (hhealthy : info.status = .healthy)
    (hplace : active info.connectionId.node = none) :
    Placed (update active info.connectionId.node (some info)) pool
      (info.connectionId.uuid :: drawn) (info.connectionId :: out) := by
  have hmono : ∀ {node} {info' : ConnectionInfo Node Address}, Genuine drawn node info' →
      Genuine (info.connectionId.uuid :: drawn) node info' :=
    fun hg => ⟨hg.node, .tail _ hg.drawn, hg.healthy⟩
  have hcases : ∀ {node info'}, update active info.connectionId.node (some info) node =
      some info' → node = info.connectionId.node ∧ info' = info ∨ active node = some info' := by
    grind
  constructor
  · exact fun node conn hconn => hmono (h.pooled node conn hconn)
  · exact h.distinct
  · intro node info' hinfo
    obtain ⟨rfl, rfl⟩ | hinfo := hcases hinfo
    · exact ⟨rfl, .head _, hhealthy⟩
    · exact hmono (h.live node info' hinfo)
  · intro node info' hinfo conn hconn heq
    obtain ⟨rfl, rfl⟩ | hinfo := hcases hinfo
    · exact hfresh (heq ▸ (h.pooled _ conn hconn).drawn)
    · exact h.apart node info' hinfo conn hconn heq
  · exact nodup_cons.mpr ⟨fun hid => hfresh (h.drawn_of_out hid), h.exclusive⟩
  · intro id hid
    obtain rfl | hid := mem_cons.mp hid
    · exact .inl ⟨info, Function.update_self .., rfl⟩
    · refine (h.placed id hid).imp_left ?_
      rintro ⟨info', hinfo, heq⟩
      -- the place of `id` was taken, so it is another one
      have hne : id.node ≠ info.connectionId.node := by grind
      exact ⟨info', by rw [Function.update_of_ne hne, hinfo], heq⟩

section Replace

variable {node : Node} {pre post : List (PooledConnection Node Address)}
  {conn conn' : PooledConnection Node Address} (hsplit : pool node = pre ++ conn :: post)

include hsplit

theorem mem_replace {n : Node}
    (hc : c ∈ update pool node (pre ++ conn' :: post) n) : c ∈ pool n ∨ n = node ∧ c = conn' := by
  rw [Function.update_apply] at hc
  split at hc
  next hn => grind
  · exact .inl hc

theorem mem_replace_of_ne {n : Node} (hne : c ≠ conn)
    (hc : c ∈ pool n) : c ∈ update pool node (pre ++ conn' :: post) n := by
  rw [Function.update_apply]
  split
  next hn => grind
  · exact hc

theorem mem_replace_self (conn' : PooledConnection Node Address) :
    conn' ∈ update pool node (pre ++ conn' :: post) node ∧ conn ∈ pool node := by
  rw [Function.update_self, hsplit]
  exact ⟨mem_append_right _ (.head _), mem_append_right _ (.head _)⟩

/-- A pooled connection changes without changing its identity. -/
theorem replace (h : Placed active pool drawn out)
    (hid : conn'.info.connectionId = conn.info.connectionId)
    (hstatus : conn'.info.status = conn.info.status) (hexclusive : out'.Nodup)
    (hplaced : ∀ id ∈ out', (∃ info, active id.node = some info ∧ info.connectionId = id) ∨
      ∃ c ∈ update pool node (pre ++ conn' :: post) id.node,
        c.info.connectionId = id ∧ c.inUse = true) :
    Placed active (update pool node (pre ++ conn' :: post)) drawn out' := by
  have hself := (mem_replace_self hsplit conn').2
  refine ⟨fun n c hc => ?_, fun n => ?_, h.live, fun n info hinfo c hc => ?_, hexclusive,
    hplaced⟩
  · obtain hc | ⟨rfl, rfl⟩ := mem_replace hsplit hc
    · exact h.pooled n c hc
    · obtain ⟨hnode, hdrawn, hhealthy⟩ := h.pooled n conn hself
      exact ⟨hid ▸ hnode, hid ▸ hdrawn, hstatus ▸ hhealthy⟩
  · rw [Function.update_apply]
    split
    next hn =>
      have hdistinct := h.distinct node
      rw [hsplit, map_append, map_cons, ← hid] at hdistinct
      rw [map_append, map_cons]
      exact hdistinct
    · exact h.distinct n
  · obtain hc | ⟨rfl, rfl⟩ := mem_replace hsplit hc
    · exact h.apart n info hinfo c hc
    · rw [hid]
      exact h.apart n info hinfo conn hself

/-- A connection that is taken from the pool is not out. -/
theorem reuse (h : Placed active pool drawn out) (hfree : conn.inUse = false) (now : Nat) :
    Placed active (update pool node (pre ++ conn.take now :: post)) drawn
      (conn.info.connectionId :: out) := by
  obtain ⟨hafter, hbefore⟩ := mem_replace_self hsplit (conn.take now)
  have hnode : conn.info.connectionId.node = node := (h.pooled node conn hbefore).node
  refine h.replace hsplit rfl rfl ?_ fun id hid => ?_
  · refine nodup_cons.mpr ⟨fun hid => ?_, h.exclusive⟩
    obtain ⟨info, hinfo, heq⟩ | ⟨c, hc, heq, huse⟩ := h.placed _ hid
    · rw [hnode] at hinfo
      exact h.apart node info hinfo conn hbefore heq.symm
    · rw [hnode] at hc
      rw [inj_on_of_nodup_map (h.distinct node) hc hbefore heq, hfree] at huse
      cases huse
  · obtain rfl | hid := mem_cons.mp hid
    · rw [hnode]
      exact .inr ⟨_, hafter, rfl, rfl⟩
    · refine (h.placed id hid).imp_right ?_
      rintro ⟨c, hc, heq, huse⟩
      refine ⟨c, mem_replace_of_ne hsplit ?_ hc, heq, huse⟩
      rintro rfl
      cases hfree.symm.trans huse

theorem free (h : Placed active pool drawn (conn.info.connectionId :: out)) (now : Nat) :
    Placed active (update pool node (pre ++ conn.free now :: post)) drawn out := by
  obtain ⟨hgone, hnodup⟩ := nodup_cons.mp h.exclusive
  refine h.replace hsplit rfl rfl hnodup fun id hid => ?_
  refine (h.placed id (.tail _ hid)).imp_right ?_
  rintro ⟨c, hc, heq, huse⟩
  refine ⟨c, mem_replace_of_ne hsplit ?_ hc, heq, huse⟩
  rintro rfl
  exact hgone (heq ▸ hid)

end Replace

/-- A new connection moves to the pool when it is released. -/
theorem settle {info : ConnectionInfo Node Address}
    (h : Placed active pool drawn (info.connectionId :: out))
    (hplace : active info.connectionId.node = some info)
    (habsent : ∀ conn ∈ pool info.connectionId.node,
      conn.info.connectionId ≠ info.connectionId) (now : Nat) :
    Placed (update active info.connectionId.node none)
      (update pool info.connectionId.node (pool info.connectionId.node ++ [⟨info, now, 0, false⟩]))
      drawn out := by
  obtain ⟨hgone, hnodup⟩ := nodup_cons.mp h.exclusive
  have hstill : ∀ {node info'}, update active info.connectionId.node none node = some info' →
      node ≠ info.connectionId.node ∧ active node = some info' := by grind
  refine ⟨fun node conn hconn => ?_, fun node => ?_,
    fun node info' hinfo => h.live node info' (hstill hinfo).2,
    fun node info' hinfo conn hconn => ?_, hnodup, fun id hid => ?_⟩
  · rw [Function.update_apply] at hconn
    split at hconn
    next hnode =>
      obtain hconn | hconn := mem_append.mp hconn
      · exact hnode ▸ h.pooled _ conn hconn
      · rw [mem_singleton.mp hconn, hnode]
        exact h.live _ info hplace
    · exact h.pooled node conn hconn
  · rw [Function.update_apply]
    split
    · rw [map_append, nodup_append]
      refine ⟨h.distinct _, nodup_singleton _, fun x hx y hy => ?_⟩
      obtain ⟨conn, hconn, rfl⟩ := mem_map.mp hx
      rw [mem_singleton.mp hy]
      exact habsent conn hconn
    · exact h.distinct node
  · obtain ⟨hne, hinfo⟩ := hstill hinfo
    rw [Function.update_of_ne hne] at hconn
    exact h.apart node info' hinfo conn hconn
  · obtain ⟨info', hinfo, rfl⟩ | ⟨conn, hconn, heq, huse⟩ :=
      h.placed id (.tail _ hid)
    · grind
    · grind

end

end Placed

/-! ### Steps -/

namespace Pool

variable {s s' : Pool Node Address Caller}

/-- The connections that are out: those the callers hold and those about to be returned. -/
def out (s : Pool Node Address Caller) : List (ConnectionId Node) :=
  s.holds.map (·.2) ++ claims (·.phase.returning) s.calls

/-- Each connection of the pool is in one place. -/
def Sound (s : Pool Node Address Caller) : Prop :=
  Placed s.activeConnections s.connectionPool s.drawn s.out

/-- The connection is in the pool of its peer and passes the test for reuse. -/
def Available (s : Pool Node Address Caller) (cfg : PoolConfig) (id : ConnectionId Node) : Prop :=
  ∃ conn ∈ s.connectionPool id.node, conn.info.connectionId = id ∧ conn.reusable cfg s.clock

theorem sound_new (cfg : PoolConfig) : (new cfg : Pool Node Address Caller).Sound where
  pooled _ _ hconn := by cases hconn
  distinct _ := nodup_nil
  live _ _ h := by cases h
  apart _ _ h := by cases h
  exclusive := nodup_nil
  placed _ h := by cases h

section
variable {i : Nat} {call : Call Node Address Caller} (hcall : s.calls[i]? = some call)

include hcall

/-- The connections out after a call without one has moved. -/
theorem out_move (hbefore : call.phase.returning = none) (phase : Phase Node) :
    (phase.returning.toList ++ s.out).Perm (s.holds.map (·.2) ++
      claims (·.phase.returning) (s.calls.set i { call with phase := phase })) := by
  have hset := claims_set_of_none (fun c : Call Node Address Caller => c.phase.returning)
    (y := { call with phase := phase }) hcall hbefore
  exact (perm_append_comm_assoc _ _ _).trans (hset.symm.append_left _)

theorem out_return {id : ConnectionId Node} (hphase : call.phase = .recordingSuccess id)
    (result : Except String (ConnectionId Node)) :
    id :: (s.holds.map (·.2) ++
      claims (·.phase.returning) (s.calls.set i { call with phase := .returned result }))
      |>.Perm s.out := by
  have hset := claims_set (fun c : Call Node Address Caller => c.phase.returning)
    { call with phase := .returned result } hcall
  rw [hphase] at hset
  exact perm_middle.symm.trans (hset.append_left _)

end

variable [DecidableEq Node] {cfg : PoolConfig}

/-- **New connections one at a time.** A connection is established while the place of its
peer is free, that is, while no earlier new connection to the peer is unreleased; and it is
released for the first time before it counts as idle. -/
def Orderly (cfg : PoolConfig) (s : Pool Node Address Caller) : Act Node Address Caller → Prop
  | .run i .connected _ => ∀ call ∈ s.calls[i]?, call.phase.isEstablishing →
      s.activeConnections call.node = none
  | .release _ id => ∀ info ∈ s.activeConnections id.node, info.connectionId = id →
      secsSince s.clock info.lastUsed < cfg.idleTimeoutSecs
  | _ => True

instance (cfg : PoolConfig) (s : Pool Node Address Caller) : DecidablePred (s.Orderly cfg)
  | .run i .connected _ => inferInstanceAs (Decidable (∀ call ∈ s.calls[i]?,
      call.phase.isEstablishing → s.activeConnections call.node = none))
  | .release _ id => inferInstanceAs (Decidable (∀ info ∈ s.activeConnections id.node,
      info.connectionId = id → secsSince s.clock info.lastUsed < cfg.idleTimeoutSecs))
  | .run _ (.failed _) _ | .run _ .timedOut _ | .get .. | .tick _ =>
      inferInstanceAs (Decidable True)

theorem sound_work [ToString Node] {i : Nat} {outcome : Outcome} {uuid : Nat}
    {call : Call Node Address Caller} (hcall : s.calls[i]? = some call)
    (h : s.work cfg i outcome uuid call = some s') (horderly : s.Orderly cfg (.run i outcome uuid))
    (hs : s.Sound) : s'.Sound := by
  -- the moves of a call that has no connection, before or after
  have hsilent : ∀ {p phase : Phase Node}, call.phase = p → p.returning = none →
      phase.returning = none → s.out.Perm (s.holds.map (·.2) ++
        claims (·.phase.returning) (s.calls.set i { call with phase := phase })) :=
    fun {_ phase} hphase hbefore hafter => by
      have hmove := out_move hcall (hphase ▸ hbefore) phase
      rwa [hafter] at hmove
  rw [work.eq_def] at h
  split at h
  next hphase =>
    split at h <;> obtain rfl := Option.some.inj h <;> exact hs.perm (hsilent hphase rfl rfl)
  next hphase =>
    cases h
    exact hs.perm (hsilent hphase rfl rfl)
  next hphase =>
    cases h
    rw [reuse]
    split
    · exact hs.perm (hsilent hphase rfl rfl)
    next conn connections hfound =>
      obtain ⟨htest, pre, post, hsplit, rfl⟩ := touchFirst_eq_some hfound
      exact (hs.reuse hsplit (not_inUse_of_reusable htest) s.clock).perm
        ((hsilent hphase rfl rfl).cons _)
  next hphase =>
    split at h
    · cases h
    · cases h
      exact hs.perm (hsilent hphase rfl rfl)
  next hphase =>
    split at h
    · split at h
      · cases h
      next hfresh =>
        cases h
        have hplace := horderly call hcall (hphase ▸ rfl)
        exact (Placed.establish hs (s.newConnection call uuid) hfresh rfl hplace).perm
          (out_move hcall (hphase ▸ rfl) (.recordingSuccess ⟨call.node, uuid⟩))
    · cases h
      exact hs.perm (hsilent hphase rfl rfl)
    · cases h
      exact hs.perm (hsilent hphase rfl rfl)
  next id hphase =>
    cases h
    exact hs.perm (out_return hcall hphase _).symm
  next message hphase =>
    cases h
    exact hs.perm (hsilent hphase rfl rfl)
  · cases h

/-- A release keeps each connection in one place, and the released one can be taken. -/
theorem sound_release [DecidableEq Caller] (cfg : PoolConfig) {caller : Caller}
    {id : ConnectionId Node} (hs : s.Sound) (hheld : (caller, id) ∈ s.holds) :
    Sound { s.release id with holds := s.holds.erase (caller, id) } ∧
      (0 < cfg.idleTimeoutSecs → s.Orderly cfg (.release caller id) →
        Available { s.release id with holds := s.holds.erase (caller, id) } cfg id) := by
  have hout : s.out.Perm (id :: ((s.holds.erase (caller, id)).map (·.2) ++
      claims (·.phase.returning) s.calls)) :=
    ((perm_cons_erase hheld).map (·.2)).append_right _
  have hs : Placed s.activeConnections s.connectionPool s.drawn _ := hs.perm hout
  rw [release]
  split
  next conn connections hfound =>
    obtain ⟨htest, pre, post, hsplit, rfl⟩ := touchFirst_eq_some hfound
    obtain rfl := of_decide_eq_true htest
    refine ⟨hs.free hsplit s.clock, fun hidle _ => ?_⟩
    obtain ⟨hafter, hbefore⟩ := Placed.mem_replace_self hsplit (conn.free s.clock)
    refine ⟨conn.free s.clock, hafter, rfl, ?_⟩
    have hhealthy : conn.info.status = .healthy := (hs.pooled _ conn hbefore).healthy
    simp [PooledConnection.reusable, PooledConnection.free, hhealthy, secsSince, hidle]
  next hnone =>
    have habsent : ∀ conn ∈ s.connectionPool id.node, conn.info.connectionId ≠ id :=
      fun conn hconn => of_decide_eq_false (touchFirst_eq_none hnone conn hconn)
    obtain ⟨info, hplace, rfl⟩ := (hs.placed id (.head _)).resolve_right
      fun ⟨conn, hconn, heq, _⟩ => habsent conn hconn heq
    simp only [hplace]
    refine ⟨hs.settle hplace habsent s.clock, fun _ horderly => ?_⟩
    refine ⟨⟨info, s.clock, 0, false⟩, ?_, rfl, ?_⟩
    · simp_all
    · have hhealthy : info.status = .healthy := (hs.live _ info hplace).healthy
      simp [PooledConnection.reusable, hhealthy, horderly info hplace rfl]

/-- **A step that establishes connections one at a time keeps each in one place.** -/
theorem sound_step [ToString Node] [DecidableEq Caller] {a : Act Node Address Caller}
    (h : step cfg s a = some s') (horderly : s.Orderly cfg a) (hs : s.Sound) : s'.Sound := by
  cases a with
  | get caller node address =>
    cases h
    refine hs.perm (.of_eq ?_)
    rw [out, out, claims_append_none]
    rfl
  | run i outcome uuid =>
    rw [step] at h
    split at h
    · cases h
    next call hcall => exact sound_work hcall h horderly hs
  | release caller id =>
    rw [step] at h
    split at h
    next hheld =>
      cases h
      exact (sound_release cfg hs hheld).1
    · cases h
  | tick nanos =>
    cases h
    exact hs

end Pool

/-- **Connections are exclusive.** In a run of any callers in which new connections to a peer
are established one at a time, no connection has two holders, and a released one can be
taken again under its own id. -/
theorem connections_exclusive [DecidableEq Node] [ToString Node] [DecidableEq Caller]
    (cfg : PoolConfig) (hidle : 0 < cfg.idleTimeoutSecs) {acts : List (Act Node Address Caller)}
    {s : Pool Node Address Caller}
    (horderly : Run.Along (Pool.step cfg) (Pool.Orderly cfg) (.new cfg) acts)
    (hrun : Run.run (Pool.step cfg) (.new cfg) acts = some s) :
    (s.holds.map (·.2)).Nodup ∧
      ∀ caller id s', Pool.step cfg s (.release caller id) = some s' →
        s.Orderly cfg (.release caller id) → s'.Available cfg id := by
  have hs : s.Sound := Run.run_invariant
    (fun _ _ _ h horderly hs => Pool.sound_step h horderly hs) horderly (Pool.sound_new cfg) hrun
  refine ⟨List.Nodup.of_append_left hs.exclusive, fun caller id s' hstep hrelease => ?_⟩
  rw [Pool.step] at hstep
  split at hstep
  next hheld => grind [Pool.sound_release]
  · cases hstep

/-! ### Two new connections to one peer -/

/-- A call is made and runs until it has a new connection with the uuid. -/
def obtains (i caller node uuid : Nat) : List (Act Nat Unit Nat) :=
  .get caller node () :: List.replicate 5 (.run i .connected uuid)

/-- Caller `0` has a new connection, releases it after a second, and caller `1` is given it. -/
def takesTurns : List (Act Nat Unit Nat) :=
  obtains 0 0 7 100 ++ [.tick 1000000000, .release 0 ⟨7, 100⟩, .get 1 7 (),
    .run 1 .connected 0, .run 1 .connected 0]

instance (cfg : PoolConfig) (s : Pool Nat Unit Nat) (id : ConnectionId Nat) :
    Decidable (s.Available cfg id) :=
  inferInstanceAs (Decidable (∃ conn ∈ s.connectionPool id.node,
    conn.info.connectionId = id ∧ conn.reusable cfg s.clock))

theorem connections_exclusive_turns :
    ∃ s s' : Pool Nat Unit Nat, Run.run (Pool.step {}) (.new {}) takesTurns = some s ∧
      s.holds = [(1, ⟨7, 100⟩)] ∧ Pool.step {} s (.release 1 ⟨7, 100⟩) = some s' ∧
      (s.holds.map (·.2)).Nodup ∧ s'.Available {} ⟨7, 100⟩ := by
  refine ⟨_, _, rfl, by decide +kernel, rfl, ?_⟩
  have horderly : Run.Along (Pool.step {}) (Pool.Orderly {}) (.new {}) takesTurns :=
    Run.along_of_check (p := fun s a => decide (s.Orderly {} a))
      (fun _ _ horderly => of_decide_eq_true horderly) (by decide +kernel)
  have h := connections_exclusive {} (by decide) horderly rfl
  exact ⟨h.1, h.2 1 ⟨7, 100⟩ _ rfl (by decide +kernel)⟩

/-- Callers `0` and `1` have new connections to one peer, and the first is released. -/
def overlapping : List (Act Nat Unit Nat) :=
  obtains 0 0 7 100 ++ obtains 1 1 7 101 ++ [.release 0 ⟨7, 100⟩]

/-- Caller `2` asks for a connection to the peer. -/
def asksNext : List (Act Nat Unit Nat) :=
  [.get 2 7 (), .run 2 .connected 0, .run 2 .connected 0]

/-- A new connection is held for longer than the idle timeout. -/
def heldLong : List (Act Nat Unit Nat) :=
  obtains 0 0 7 100 ++ [.tick 300000000000, .release 0 ⟨7, 100⟩]

/-- The released connection is not available, its peer's other connection gets a second
holder, and one that was held for long is not available either. -/
theorem connection_held_twice :
    (∃ s s' : Pool Nat Unit Nat, Run.run (Pool.step {}) (.new {}) overlapping = some s ∧
      ¬ s.Available {} ⟨7, 100⟩ ∧ Run.run (Pool.step {}) s asksNext = some s' ∧
      (1, ⟨7, 101⟩) ∈ s'.holds ∧ (2, ⟨7, 101⟩) ∈ s'.holds) ∧
    ∃ s : Pool Nat Unit Nat, Run.run (Pool.step {}) (.new {}) heldLong = some s ∧
      ¬ s.Available {} ⟨7, 100⟩ := by
  refine ⟨⟨_, _, rfl, by decide +kernel, rfl, by decide +kernel, by decide +kernel⟩, ?_⟩
  exact ⟨_, rfl, by decide +kernel⟩

/-! ### Permits -/

/-- The call has a permit for a new connection. -/
def Phase.hasPermit : Phase Node → Bool
  | .establishing | .recordingSuccess _ | .recordingFailure _ => true
  | _ => false

namespace Pool

/-- The permits that calls have. -/
def taken (s : Pool Node Address Caller) : Nat := s.calls.countP (·.phase.hasPermit)

variable {s s' : Pool Node Address Caller} {cfg : PoolConfig} {i : Nat}
  {call : Call Node Address Caller}

/-- A call moves on, and a permit goes where it does. -/
theorem balanced_move (hcall : s.calls[i]? = some call) (phase : Phase Node)
    (t : Pool Node Address Caller) (hcalls : t.calls = (s.move i call phase).calls)
    (hpermits : t.permits + phase.hasPermit.toNat = s.permits + call.phase.hasPermit.toNat) :
    t.permits + t.taken = s.permits + s.taken := by
  obtain ⟨hi, rfl⟩ := List.getElem?_eq_some_iff.mp hcall
  have hpos : s.calls[i].phase.hasPermit = true → 0 < s.calls.countP (·.phase.hasPermit) :=
    fun hb => countP_pos_iff.mpr ⟨_, getElem_mem hi, hb⟩
  rw [taken, taken, hcalls, move, countP_set hi]
  cases hb : s.calls[i].phase.hasPermit <;> cases hq : phase.hasPermit <;>
    simp only [hb, hq, Bool.toNat_true, Bool.toNat_false, if_true, Bool.false_eq_true, if_false,
      true_implies] at hpermits hpos ⊢ <;> omega

variable [DecidableEq Node] [ToString Node]

/-- Whatever a call does next, permits are only passed on. -/
theorem balanced_work {outcome : Outcome} {uuid : Nat} (hcall : s.calls[i]? = some call)
    (hwork : s.work cfg i outcome uuid call = some s') :
    s'.permits + s'.taken = s.permits + s.taken := by
  have hmoved := balanced_move hcall
  unfold work at hwork
  cases hphase : call.phase <;> rw [hphase] at hwork hmoved
  case checking =>
    dsimp only at hwork
    split at hwork <;> cases hwork <;> exact hmoved _ _ rfl rfl
  case acquiring =>
    obtain ⟨hfree, hwork⟩ := Option.ite_none_left_eq_some.mp hwork
    cases hwork
    exact hmoved _ _ rfl (Nat.sub_add_cancel (Nat.pos_of_ne_zero hfree))
  case establishing =>
    cases outcome with
    | connected =>
      obtain ⟨-, hwork⟩ := Option.ite_none_left_eq_some.mp hwork
      cases hwork
      exact hmoved _ _ rfl rfl
    | failed | timedOut =>
      cases hwork
      exact hmoved _ _ rfl rfl
  case reusing =>
    cases hwork
    unfold reuse
    split <;> exact hmoved _ _ rfl rfl
  case returned => cases hwork
  all_goals
    cases hwork
    exact hmoved _ _ rfl rfl

theorem balanced_step [DecidableEq Caller] {a : Act Node Address Caller}
    (hstep : s.step cfg a = some s') : s'.permits + s'.taken = s.permits + s.taken := by
  cases a with
  | get caller node address =>
    cases hstep
    simp [taken, Phase.hasPermit]
  | run i outcome uuid =>
    rw [step.eq_def] at hstep
    dsimp only at hstep
    split at hstep
    · cases hstep
    · next call hcall => exact balanced_work hcall hstep
  | release caller id =>
    obtain ⟨-, hstep⟩ := Option.ite_none_right_eq_some.mp hstep
    cases hstep
    unfold release
    split
    · rfl
    · split <;> rfl
  | tick nanos =>
    cases hstep
    rfl

end Pool

/-- **No permit is lost or given twice.** However the calls overlap, the free permits and
the calls that have one add up to the configured maximum. -/
theorem permits_balanced [DecidableEq Node] [ToString Node] [DecidableEq Caller]
    (cfg : PoolConfig) (acts : List (Act Node Address Caller)) {s : Pool Node Address Caller}
    (hrun : Run.run (Pool.step cfg) (.new cfg) acts = some s) :
    s.permits + s.taken = cfg.maxTotalConnections :=
  Run.run_invariant (fun _ _ _ hstep _ h => (Pool.balanced_step hstep).trans h)
    (Run.along_true acts _) rfl hrun

/-- One connection is held and one attempt is under way. -/
theorem permits_balanced_busy : ∃ s : Pool Nat Unit Nat,
    Run.run (Pool.step {}) (.new {}) (obtains 0 0 7 100 ++ (obtains 1 1 8 101).take 4) = some s ∧
      s.permits + s.taken = 1000 :=
  ⟨_, rfl, permits_balanced {} (obtains 0 0 7 100 ++ (obtains 1 1 8 101).take 4) rfl⟩

end GuardianDb.P2p.ConnectionPool
