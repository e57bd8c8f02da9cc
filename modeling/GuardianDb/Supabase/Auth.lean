/-
The authentication service: refresh tokens, sessions and the requests over them.

`token_refresh` looks a token up, marks it revoked and issues its successor in
separate statements, each in a transaction of its own, and `logout` marks all tokens
of a user in one. The service is a transition system whose steps are these
statements, for any number of requests at once.

The rotation of tokens is judged in `Rotation`.
-/
import GuardianDb.Lib.Run
import Std.Data.ExtTreeMap
import Std.Data.ExtTreeMap.Lemmas

namespace GuardianDb.Supabase.Auth

open Std (ExtTreeMap LawfulEqCmp)

/-! ### Tables and answers -/

abbrev Uuid := BitVec 128

/-- A row of `auth.refresh_tokens` without its primary key, the token. -/
structure RefreshToken where
  userId : Option Uuid
  sessionId : Option Uuid
  parent : Option String
  revoked : Option Bool
  deriving DecidableEq

/-- What is read of a row of `auth.users`. -/
structure User where
  id : Uuid
  email : Option String
  deriving DecidableEq

/-- A row of `auth.sessions`. -/
structure SessionRow where
  id : Uuid
  userId : Uuid
  aal : String
  deriving DecidableEq

/-- `Claims` of an access token. -/
structure Claims where
  iss : String
  role : String
  sub : Uuid
  email : String
  aud : String
  iat : Int
  exp : Int
  sessionId : Uuid

structure Issued where
  accessToken : String
  refreshToken : String
  expiresIn : Int
  expiresAt : Int
  deriving DecidableEq

/-- The errors a request is answered with. -/
inductive AuthError where
  | oauth (status : Nat) (error description : String)
  | internal (message : String)
  | sql (message : String)
  deriving DecidableEq

/-- The configuration of the gateway, with `jwt::sign` under the project's secret. -/
structure Config where
  apiUrl : String
  jwtAud : String
  jwtExp : Int
  sign : Claims → Except String String

/-! ### Requests -/

/-- Where a `token_refresh` or a sign-in is, named by the statement it runs next. -/
inductive Phase where
  /-- The lookup of the presented token. -/
  | selecting (token : String)
  /-- The revocation of the presented token, found with its user and session. -/
  | revoking (token : String) (userId : Uuid) (sessionId : Option Uuid)
  /-- `fetch_user_email`. -/
  | fetchingEmail (token : String) (userId : Uuid) (sessionId : Option Uuid)
  /-- `issue_session_with` before it inserts the session. -/
  | creatingSession (parent : Option String) (userId : Uuid) (email : String) (now : Int)
  /-- `issue_session_with` before it inserts the new token. -/
  | insertingToken (parent : Option String) (userId : Uuid) (email : String) (sessionId : Uuid)
      (now : Int)
  /-- `fetch_user_json`. -/
  | fetchingUser (parent : Option String) (userId : Uuid) (issued : Issued)
  /-- The request is answered; `exchanged` is the presented token if a new one was
  inserted for it. -/
  | answered (exchanged : Option String) (answer : Except AuthError (Issued × User))

namespace Phase

/-- The token that is looked up next. -/
def selects : Phase → Option String
  | .selecting token => some token
  | _ => none

/-- The token that is looked up and not yet marked. -/
def rotating : Phase → Option String
  | .revoking token .. => some token
  | _ => none

/-- The token whose successor is still to be inserted, with its user. -/
def pending : Phase → Option (String × Uuid)
  | .revoking token userId _ | .fetchingEmail token userId _ => some (token, userId)
  | .creatingSession parent userId .. | .insertingToken parent userId .. =>
      parent.map fun token => (token, userId)
  | _ => none

/-- The token whose successor is inserted. -/
def exchanged : Phase → Option String
  | .fetchingUser parent .. => parent
  | .answered exchanged _ => exchanged
  | _ => none

/-- The token the request has found alive, unless it has failed since. -/
def claimed (p : Phase) : Option String :=
  (p.pending.map (·.1)).or p.exchanged

end Phase

/-- The tables, the requests by the order of their arrival and, in `ended`, the tokens
their users had at a logout. -/
structure Service where
  tokens : ExtTreeMap String RefreshToken
  sessions : List SessionRow
  users : List User
  requests : List Phase
  ended : List String

/-- What a statement draws: the clock, and the random session and token. -/
structure Draw where
  now : Int
  sessionId : Uuid
  token : String

/-- Steps of the service. -/
inductive Act where
  /-- A `token_refresh` request arrives. -/
  | refresh (token : String)
  /-- `token_password` has accepted the credentials of a user. -/
  | signIn (userId : Uuid) (email : String) (now : Int)
  /-- The next statement of a request succeeds. -/
  | run (i : Nat) (draw : Draw)
  /-- The next statement of a request fails. -/
  | fail (i : Nat) (message : String)
  /-- The statement of a `logout`. -/
  | logout (userId : Uuid)

/-- `SET revoked = TRUE`. -/
def RefreshToken.revoke (r : RefreshToken) : RefreshToken :=
  { r with revoked := some true }

/-- `issue_session_with`: a session is created when there is none to reuse. -/
def issueSessionWith (parent : Option String) (userId : Uuid) (email : String)
    (sessionId : Option Uuid) (now : Int) : Phase :=
  match sessionId with
  | some id => .insertingToken parent userId email id now
  | none => .creatingSession parent userId email now

/-- The claims that `issue_session_with` signs. -/
def accessClaims (cfg : Config) (userId : Uuid) (email : String) (sessionId : Uuid)
    (now : Int) : Claims where
  iss := cfg.apiUrl ++ "/auth/v1"
  role := "authenticated"
  sub := userId
  email := email
  aud := cfg.jwtAud
  iat := now
  exp := now + cfg.jwtExp
  sessionId := sessionId

/-- `issue_session_with` after the insertion of the new token. -/
def afterInsert (cfg : Config) (parent : Option String) (userId : Uuid) (email : String)
    (sessionId : Uuid) (now : Int) (token : String) : Phase :=
  match cfg.sign (accessClaims cfg userId email sessionId now) with
  | .ok accessToken => .fetchingUser parent userId
      { accessToken, refreshToken := token, expiresIn := cfg.jwtExp,
        expiresAt := now + cfg.jwtExp }
  | .error e => .answered parent (.error (.internal ("token signing failed: " ++ e)))

/-- A used, revoked or unknown token. -/
def alreadyUsed : AuthError :=
  .oauth 400 "invalid_grant" "Invalid Refresh Token: Already Used"

namespace Service

variable (s : Service)

/-- Request `i` is at `p`. -/
def move (i : Nat) (p : Phase) : Service :=
  { s with requests := s.requests.set i p }

/-- `SELECT user_id, session_id … WHERE token = $1 AND revoked = FALSE`, and what
`token_refresh` makes of its rows. -/
def lookup (token : String) : Phase :=
  match s.tokens[token]? with
  | none => .answered none (.error alreadyUsed)
  | some row =>
      if row.revoked = some false then
        match row.userId with
        | none => .answered none (.error (.internal "bad user_id on refresh token"))
        | some userId => .revoking token userId row.sessionId
      else .answered none (.error alreadyUsed)

/-- `fetch_user_email`, with the default of `token_refresh`. -/
def userEmail (userId : Uuid) : String :=
  ((s.users.find? (·.id = userId)).bind (·.email)).getD ""

/-- `fetch_user_json`. -/
def userJson (userId : Uuid) : Except AuthError User :=
  match s.users.find? (·.id = userId) with
  | some user => .ok user
  | none => .error (.internal "user missing")

def tokensOf (userId : Uuid) : List String :=
  (s.tokens.toList.filter (·.2.userId = some userId)).map (·.1)

/-- The next statement of request `i`, at the given phase. -/
def work (cfg : Config) (i : Nat) (d : Draw) : Phase → Option Service
  | .selecting token => some (s.move i (s.lookup token))
  | .revoking token userId sessionId =>
      some { s.move i (.fetchingEmail token userId sessionId) with
        tokens := s.tokens.alter token (·.map RefreshToken.revoke) }
  | .fetchingEmail token userId sessionId =>
      some (s.move i (issueSessionWith (some token) userId (s.userEmail userId) sessionId d.now))
  | .creatingSession parent userId email now =>
      -- the primary key of `auth.sessions`
      if s.sessions.any (·.id = d.sessionId) then none
      else
        some { s.move i (.insertingToken parent userId email d.sessionId now) with
          sessions := s.sessions ++ [⟨d.sessionId, userId, "aal1"⟩] }
  | .insertingToken parent userId email sessionId now =>
      -- the primary key of `auth.refresh_tokens`
      if d.token ∈ s.tokens then none
      else
        some { s.move i (afterInsert cfg parent userId email sessionId now d.token) with
          tokens := s.tokens.insert d.token ⟨some userId, some sessionId, parent, some false⟩ }
  | .fetchingUser parent userId issued =>
      some (s.move i (.answered parent ((s.userJson userId).map fun user => (issued, user))))
  | .answered _ _ => none

def step (cfg : Config) (s : Service) : Act → Option Service
  | .refresh token => some { s with requests := s.requests ++ [.selecting token] }
  | .signIn userId email now =>
      some { s with
        requests := s.requests ++ [issueSessionWith none userId email none now] }
  | .run i d =>
      match s.requests[i]? with
      | none => none
      | some p => s.work cfg i d p
  | .fail i message =>
      match s.requests[i]? with
      | none | some (.answered _ _) => none
      | some p => some (s.move i (.answered p.exchanged (.error (.sql message))))
  | .logout userId =>
      some { s with
        tokens := s.tokens.map fun _ r => if r.userId = some userId then r.revoke else r
        ended := s.ended ++ s.tokensOf userId }

end Service

end GuardianDb.Supabase.Auth
