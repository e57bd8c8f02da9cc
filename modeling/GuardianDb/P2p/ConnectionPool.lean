/-
The pool of connections to peers: who holds which connection.

A new connection is kept in a map with one place per peer until it is released for
the first time; from then on it is in the peer's pool, where it is marked while in
use. The pool is a transition system whose steps are what its functions do under
one lock, for any number of callers at once. Statistics and events are left out.

Who holds a connection is judged in `Exclusive`.
-/
import GuardianDb.Lib.Run
import Mathlib.Logic.Function.Basic

namespace GuardianDb.P2p.ConnectionPool

/-! ### Connections -/

/-- The id `conn_{node}_{uuid}` of a connection. -/
structure ConnectionId (Node : Type) where
  node : Node
  uuid : Nat
  deriving DecidableEq

inductive ConnectionStatus where
  | healthy
  | degraded
  | unavailable
  | disconnected
  | failed
  deriving DecidableEq

/-- What is read of a `ConnectionInfo`; times are in nanoseconds. -/
structure ConnectionInfo (Node Address : Type) where
  connectionId : ConnectionId Node
  peerAddress : Address
  connectedAt : Nat
  lastUsed : Nat
  status : ConnectionStatus

structure PooledConnection (Node Address : Type) where
  info : ConnectionInfo Node Address
  pooledAt : Nat
  reuseCount : Nat
  inUse : Bool

/-- What the modelled functions read of a `PoolConfig`; `failureThreshold` is
`circuit_breaker_threshold * 10` as an integer. -/
structure PoolConfig where
  maxTotalConnections : Nat := 1000
  connectionTimeoutMs : Nat := 10000
  idleTimeoutSecs : Nat := 300
  initialRetryBackoffMs : Nat := 1000
  failureThreshold : Nat := 5

variable {Node Address Caller : Type}

/-- `Duration::as_secs` of the time since `t`. -/
def secsSince (now t : Nat) : Nat := (now - t) / 1000000000

/-- `Duration::as_millis` of the time since `t`. -/
def millisSince (now t : Nat) : Nat := (now - t) / 1000000

/-- The test of `try_reuse_connection`. -/
def PooledConnection.reusable (cfg : PoolConfig) (now : Nat)
    (conn : PooledConnection Node Address) : Bool :=
  !conn.inUse && conn.info.status = .healthy &&
    secsSince now conn.info.lastUsed < cfg.idleTimeoutSecs

/-- A connection that `try_reuse_connection` hands out. -/
def PooledConnection.take (now : Nat) (conn : PooledConnection Node Address) :
    PooledConnection Node Address :=
  { conn with
    inUse := true
    reuseCount := conn.reuseCount + 1
    info := { conn.info with lastUsed := now } }

/-- A pooled connection that `release_connection` takes back. -/
def PooledConnection.free (now : Nat) (conn : PooledConnection Node Address) :
    PooledConnection Node Address :=
  { conn with inUse := false, info := { conn.info with lastUsed := now } }

/-- The loops of `try_reuse_connection` and `release_connection`: the first connection that
passes the test is changed, and returned as it was. -/
def touchFirst (test : PooledConnection Node Address → Bool)
    (change : PooledConnection Node Address → PooledConnection Node Address) :
    List (PooledConnection Node Address) →
      Option (PooledConnection Node Address × List (PooledConnection Node Address))
  | [] => none
  | conn :: rest =>
      if test conn then some (conn, change conn :: rest)
      else (touchFirst test change rest).map fun found => (found.1, conn :: found.2)

/-! ### Circuit breakers -/

inductive CircuitState where
  | closed
  | opened
  | halfOpen
  deriving DecidableEq

structure CircuitBreaker where
  state : CircuitState
  failureCount : Nat
  failureThreshold : Nat
  lastFailureTime : Option Nat
  timeoutMs : Nat
  successCount : Nat

/-- What `check_circuit_breaker` finds under the read lock. -/
inductive Verdict where
  | allowed
  | denied
  | halfOpens
  deriving DecidableEq

/-- `check_circuit_breaker` under the read lock. -/
def checkCircuitBreaker (now : Nat) : Option CircuitBreaker → Verdict
  | none => .allowed
  | some breaker =>
      match breaker.state with
      | .closed | .halfOpen => .allowed
      | .opened =>
          match breaker.lastFailureTime with
          | none => .denied
          | some lastFailure =>
              if millisSince now lastFailure > breaker.timeoutMs then .halfOpens else .denied

def recordSuccess (breaker : CircuitBreaker) : CircuitBreaker :=
  let counted := { breaker with successCount := breaker.successCount + 1 }
  match breaker.state with
  | .halfOpen =>
      if counted.successCount ≥ 3 then { counted with state := .closed, failureCount := 0 }
      else counted
  | .opened => { counted with state := .closed, failureCount := 0 }
  | .closed => { counted with failureCount := 0 }

/-- The breaker that `record_failure` starts with. -/
def newBreaker (cfg : PoolConfig) : CircuitBreaker where
  state := .closed
  failureCount := 0
  failureThreshold := cfg.failureThreshold
  lastFailureTime := none
  timeoutMs := cfg.initialRetryBackoffMs * 5
  successCount := 0

def recordFailure (now : Nat) (breaker : CircuitBreaker) : CircuitBreaker :=
  let counted := { breaker with
    failureCount := breaker.failureCount + 1
    lastFailureTime := some now
    successCount := 0 }
  if counted.failureCount ≥ counted.failureThreshold ∧ counted.state = .closed then
    { counted with state := .opened }
  else counted

/-! ### The pool and its callers -/

/-- Where a call of `get_connection` is, named by what it does next. -/
inductive Phase (Node : Type) where
  /-- `check_circuit_breaker` under the read lock. -/
  | checking
  /-- `check_circuit_breaker` under the write lock. -/
  | halfOpening
  /-- `try_reuse_connection`. -/
  | reusing
  /-- The permit for a new connection. -/
  | acquiring
  /-- `establish_new_connection` until the connection is in the active map. -/
  | establishing
  /-- `record_success` for the new connection. -/
  | recordingSuccess (id : ConnectionId Node)
  /-- `record_failure` for an attempt that failed with the message. -/
  | recordingFailure (message : String)
  /-- The call has returned. -/
  | returned (result : Except String (ConnectionId Node))

/-- The new connection a call is about to return. -/
def Phase.returning : Phase Node → Option (ConnectionId Node)
  | .recordingSuccess id => some id
  | _ => none

/-- A call of `get_connection`. -/
structure Call (Node Address Caller : Type) where
  caller : Caller
  node : Node
  address : Address
  phase : Phase Node

/-- The pool, the calls by the order of their arrival, and the connections the callers hold.
`drawn` lists the uuids drawn so far. -/
structure Pool (Node Address Caller : Type) where
  activeConnections : Node → Option (ConnectionInfo Node Address)
  connectionPool : Node → List (PooledConnection Node Address)
  permits : Nat
  circuitBreakers : Node → Option CircuitBreaker
  calls : List (Call Node Address Caller)
  holds : List (Caller × ConnectionId Node)
  drawn : List Nat
  clock : Nat

/-- How an attempt to connect ends. -/
inductive Outcome where
  | connected
  | failed (message : String)
  | timedOut

inductive Act (Node Address Caller : Type) where
  /-- `get_connection` is called. -/
  | get (caller : Caller) (node : Node) (address : Address)
  /-- The next step of a call; a connection is established with the outcome and uuid. -/
  | run (i : Nat) (outcome : Outcome) (uuid : Nat)
  /-- `release_connection` of a connection the caller holds, with the peer it is for. -/
  | release (caller : Caller) (id : ConnectionId Node)
  /-- Time passes. -/
  | tick (nanos : Nat)

/-! ### Steps of a call -/

namespace Pool

variable [DecidableEq Node]

def new (cfg : PoolConfig) : Pool Node Address Caller where
  activeConnections _ := none
  connectionPool _ := []
  permits := cfg.maxTotalConnections
  circuitBreakers _ := none
  calls := []
  holds := []
  drawn := []
  clock := 0

variable (s : Pool Node Address Caller)

/-- Call `i` is at `phase`. -/
def move (i : Nat) (call : Call Node Address Caller) (phase : Phase Node) :
    Pool Node Address Caller :=
  { s with calls := s.calls.set i { call with phase := phase } }

/-- The connection of `establish_new_connection`. -/
def newConnection (call : Call Node Address Caller) (uuid : Nat) :
    ConnectionInfo Node Address where
  connectionId := ⟨call.node, uuid⟩
  peerAddress := call.address
  connectedAt := s.clock
  lastUsed := s.clock
  status := .healthy

/-- `try_reuse_connection`, and what `get_connection` does with its result. -/
def reuse (cfg : PoolConfig) (i : Nat) (call : Call Node Address Caller) :
    Pool Node Address Caller :=
  match touchFirst (·.reusable cfg s.clock) (·.take s.clock) (s.connectionPool call.node) with
  | none => s.move i call .acquiring
  | some (conn, connections) =>
      { s.move i call (.returned (.ok conn.info.connectionId)) with
        connectionPool := Function.update s.connectionPool call.node connections
        holds := (call.caller, conn.info.connectionId) :: s.holds }

/-- The next step of call `i`. -/
def work [ToString Node] (cfg : PoolConfig) (i : Nat) (outcome : Outcome) (uuid : Nat)
    (call : Call Node Address Caller) : Option (Pool Node Address Caller) :=
  match call.phase with
  | .checking =>
      match checkCircuitBreaker s.clock (s.circuitBreakers call.node) with
      | .allowed => some (s.move i call .reusing)
      | .halfOpens => some (s.move i call .halfOpening)
      | .denied => some (s.move i call (.returned (.error
          ("Circuit breaker open for node " ++ toString call.node))))
  | .halfOpening =>
      some { s.move i call .reusing with
        circuitBreakers := Function.update s.circuitBreakers call.node
          ((s.circuitBreakers call.node).map fun b => { b with state := .halfOpen }) }
  | .reusing => some (s.reuse cfg i call)
  | .acquiring =>
      if s.permits = 0 then none
      else some { s.move i call .establishing with permits := s.permits - 1 }
  | .establishing =>
      match outcome with
      | .connected =>
          -- a v4 uuid is not drawn twice
          if uuid ∈ s.drawn then none
          else
            some { s.move i call (.recordingSuccess ⟨call.node, uuid⟩) with
              activeConnections := Function.update s.activeConnections call.node
                (some (s.newConnection call uuid))
              drawn := uuid :: s.drawn }
      | .failed message => some (s.move i call (.recordingFailure message))
      | .timedOut => some (s.move i call (.recordingFailure
          ("Timeout connecting to node " ++ toString call.node ++ " (" ++
            toString cfg.connectionTimeoutMs ++ "ms)")))
  | .recordingSuccess id =>
      some { s.move i call (.returned (.ok id)) with
        circuitBreakers := Function.update s.circuitBreakers call.node
          ((s.circuitBreakers call.node).map recordSuccess)
        permits := s.permits + 1
        holds := (call.caller, id) :: s.holds }
  | .recordingFailure message =>
      some { s.move i call (.returned (.error message)) with
        circuitBreakers := Function.update s.circuitBreakers call.node
          (some (recordFailure s.clock ((s.circuitBreakers call.node).getD (newBreaker cfg))))
        permits := s.permits + 1 }
  | .returned _ => none

/-- `release_connection`. A connection that is not in the pool of its peer may be a new one:
whatever is active for the peer moves to the pool. -/
def release (id : ConnectionId Node) : Pool Node Address Caller :=
  match touchFirst (fun conn => decide (conn.info.connectionId = id)) (·.free s.clock)
      (s.connectionPool id.node) with
  | some (_, connections) =>
      { s with connectionPool := Function.update s.connectionPool id.node connections }
  | none =>
      match s.activeConnections id.node with
      | none => s
      | some info =>
          { s with
            activeConnections := Function.update s.activeConnections id.node none
            connectionPool := Function.update s.connectionPool id.node
              (s.connectionPool id.node ++ [⟨info, s.clock, 0, false⟩]) }

def step [ToString Node] [DecidableEq Caller] (cfg : PoolConfig) (s : Pool Node Address Caller) :
    Act Node Address Caller → Option (Pool Node Address Caller)
  | .get caller node address =>
      some { s with calls := s.calls ++ [⟨caller, node, address, .checking⟩] }
  | .run i outcome uuid =>
      match s.calls[i]? with
      | none => none
      | some call => s.work cfg i outcome uuid call
  | .release caller id =>
      if (caller, id) ∈ s.holds then
        some { s.release id with holds := s.holds.erase (caller, id) }
      else none
  | .tick nanos => some { s with clock := s.clock + nanos }

end Pool

end GuardianDb.P2p.ConnectionPool
