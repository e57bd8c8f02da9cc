/-
Rotation and revocation of refresh tokens.

A request that has found a token alive claims it until it fails, and a logout ends
the tokens its user has. Both are safe where the statements of different requests do
not get in each other's way.

  * `Service.sound_step` — a step keeps the claims single and the ended tokens dead.
  * `exchanged_once` — over whole runs a token is exchanged at most once, and what
    descends from a token issued before a logout is revoked.
  * `tokens_kept` — no interleaving revives a token or gives it to another user.
-/
import GuardianDb.Lib.Tasks
import GuardianDb.Supabase.Auth

namespace GuardianDb.Supabase.Auth

open List

open Std (ExtTreeMap LawfulEqCmp)
open Tasks

/-! ### Tables -/

section
variable {T T' : ExtTreeMap String RefreshToken} {token parent : String} {userId : Uuid}

/-- The token is in the table and belongs to the user. -/
def Owns (T : ExtTreeMap String RefreshToken) (token : String) (userId : Uuid) : Prop :=
  ∃ r, T[token]? = some r ∧ r.userId = some userId

def Dead (T : ExtTreeMap String RefreshToken) (token : String) : Prop :=
  ∃ r, T[token]? = some r ∧ r.revoked = some true

/-- The token was issued for `parent`. -/
def Child (T : ExtTreeMap String RefreshToken) (token parent : String) : Prop :=
  ∃ r, T[token]? = some r ∧ r.parent = some parent

/-- Each token belongs to the user of its parent. -/
def Lineage (T : ExtTreeMap String RefreshToken) : Prop :=
  ∀ token parent, Child T token parent →
    parent ∈ T ∧ ∀ userId, Owns T parent userId → Owns T token userId

theorem Owns.mem (h : Owns T token userId) : token ∈ T := by
  obtain ⟨r, hr, -⟩ := h
  rw [← ExtTreeMap.isSome_getElem?_iff_mem, hr]
  rfl

theorem Owns.unique {u v : Uuid} (hu : Owns T token u) (hv : Owns T token v) : u = v := by
  obtain ⟨r, hr, huser⟩ := hu
  obtain ⟨r', hr', huser'⟩ := hv
  cases hr.symm.trans hr'
  exact Option.some.inj (huser.symm.trans huser')

theorem Dead.not_live {row : RefreshToken} (h : Dead T token) (hrow : T[token]? = some row) :
    row.revoked ≠ some false := by
  obtain ⟨r, hr, hrev⟩ := h
  cases hr.symm.trans hrow
  rw [hrev]
  decide

/-- The rows of `T'` are those of `T`, some of them marked as revoked. -/
def Marked (T T' : ExtTreeMap String RefreshToken) : Prop :=
  ∀ token : String, T'[token]? = T[token]? ∨ T'[token]? = T[token]?.map RefreshToken.revoke

theorem Marked.refl (T : ExtTreeMap String RefreshToken) : Marked T T := fun _ => .inl rfl

section
variable (h : Marked T T')
include h

theorem Marked.owns_iff : Owns T' token userId ↔ Owns T token userId := by
  rw [Owns, Owns]
  obtain heq | heq := h token <;> simp [heq, Option.map_eq_some_iff, RefreshToken.revoke]

theorem Marked.child_iff : Child T' token parent ↔ Child T token parent := by
  rw [Child, Child]
  obtain heq | heq := h token <;> simp [heq, Option.map_eq_some_iff, RefreshToken.revoke]

theorem Marked.mem_iff : token ∈ T' ↔ token ∈ T := by
  rw [← ExtTreeMap.isSome_getElem?_iff_mem, ← ExtTreeMap.isSome_getElem?_iff_mem]
  obtain heq | heq := h token <;> rw [heq]
  exact iff_of_eq (congrArg (· = true) Option.isSome_map)

theorem Marked.dead (hdead : Dead T token) : Dead T' token := by
  obtain ⟨r, hr, hrev⟩ := hdead
  obtain heq | heq := h token
  · exact ⟨r, heq.trans hr, hrev⟩
  · exact ⟨r.revoke, by rw [heq, hr]; rfl, rfl⟩

theorem Marked.lineage (hT : Lineage T) : Lineage T' := by
  intro token parent hc
  obtain ⟨hmem, howns⟩ := hT token parent (h.child_iff.mp hc)
  exact ⟨h.mem_iff.mpr hmem, fun u hu => h.owns_iff.mpr (howns u (h.owns_iff.mp hu))⟩

end

theorem marked_alter (T : ExtTreeMap String RefreshToken) (token : String) :
    Marked T (T.alter token (·.map RefreshToken.revoke)) := by
  intro t
  rw [ExtTreeMap.getElem?_alter]
  split
  next ht => exact .inr (by rw [LawfulEqCmp.compare_eq_iff_eq.mp ht])
  · exact .inl rfl

theorem marked_map (T : ExtTreeMap String RefreshToken) (f : RefreshToken → Prop)
    [DecidablePred f] : Marked T (T.map fun _ r => if f r then r.revoke else r) := by
  intro t
  rw [ExtTreeMap.getElem?_map]
  cases T[t]? with
  | none => exact .inl rfl
  | some r => grind

/-- The rows of a table with a new token. -/
theorem getElem?_insert_fresh {t : String} {r : RefreshToken} (row : RefreshToken)
    (hfresh : token ∉ T) : (T.insert token row)[t]? = some r ↔
      t = token ∧ r = row ∨ T[t]? = some r := by
  rw [ExtTreeMap.getElem?_insert]
  split
  next heq => grind
  next hne => grind

end

/-! ### Requests -/

theorem issueSessionWith_spec (parent : Option String) (userId : Uuid) (email : String)
    (sessionId : Option Uuid) (now : Int) :
    (issueSessionWith parent userId email sessionId now).rotating = none ∧
      (issueSessionWith parent userId email sessionId now).claimed = parent ∧
      (issueSessionWith parent userId email sessionId now).pending =
        parent.map fun token => (token, userId) := by
  cases sessionId <;> cases parent <;> exact ⟨rfl, rfl, rfl⟩

theorem afterInsert_spec (cfg : Config) (parent : Option String) (userId : Uuid) (email : String)
    (sessionId : Uuid) (now : Int) (token : String) :
    (afterInsert cfg parent userId email sessionId now token).claimed = parent ∧
      (afterInsert cfg parent userId email sessionId now token).pending = none := by
  rw [afterInsert]
  cases cfg.sign (accessClaims cfg userId email sessionId now) <;> exact ⟨rfl, rfl⟩

theorem Phase.claimed_of_rotating {p : Phase} {token : String} (h : p.rotating = some token) :
    p.claimed = some token := by
  cases p <;> first | exact h | cases h

theorem Phase.claimed_of_exchanged {p : Phase} {token : String} (h : p.exchanged = some token) :
    p.rotating = none ∧ p.claimed = some token := by
  cases p <;> first | exact ⟨rfl, h⟩ | cases h

/-- A phase that follows without the table: the request keeps the token it claims, once
that is marked, or gives up. -/
structure Phase.Quiet (p p' : Phase) : Prop where
  rotating : p'.rotating = none
  claimed : p'.claimed = none ∨ p.rotating = none ∧ p'.claimed = p.claimed
  pending : p'.pending = none ∨ p'.pending = p.pending

theorem Phase.quiet_failed (p : Phase) (answer : Except AuthError (Issued × User)) :
    p.Quiet (.answered p.exchanged answer) := by
  refine ⟨rfl, ?_, .inl rfl⟩
  cases h : p.exchanged with
  | none => exact .inl rfl
  | some token =>
    obtain ⟨hrot, hclaimed⟩ := Phase.claimed_of_exchanged h
    exact .inr ⟨hrot, hclaimed.symm⟩

namespace Service

variable {s s' : Service} {cfg : Config}

variable {token : String} {userId : Uuid}

theorem mem_tokensOf : token ∈ s.tokensOf userId ↔ Owns s.tokens token userId := by
  simp [tokensOf, Owns]

/-- The lookup of a token that is not alive ends the request. -/
theorem lookup_cases (s : Service) (token : String) :
    (∃ answer, s.lookup token = .answered none answer) ∨
      ∃ row userId, s.tokens[token]? = some row ∧ row.revoked = some false ∧
        row.userId = some userId ∧ s.lookup token = .revoking token userId row.sessionId := by
  rw [lookup]
  split
  · exact .inl ⟨_, rfl⟩
  next row hrow =>
    split
    next hlive =>
      split
      · exact .inl ⟨_, rfl⟩
      next userId huser => exact .inr ⟨row, userId, hrow, hlive, huser, rfl⟩
    · exact .inl ⟨_, rfl⟩

/-! ### Tokens that are claimed once -/

/-- What a request holds agrees with the table: the successor is for a token of the same
user that no logout has ended, and a claimed token is revoked once it is marked. -/
structure Backed (T : ExtTreeMap String RefreshToken) (ended : List String) (p : Phase) :
    Prop where
  owned : ∀ token userId, p.pending = some (token, userId) → Owns T token userId
  unended : ∀ token userId, p.pending = some (token, userId) → token ∉ ended
  rotated : ∀ token, p.claimed = some token → p.rotating = none → Dead T token

/-- A token is claimed by one request, belongs to the user of its parent, and is revoked
with all its descendants when a logout has ended it. -/
structure Sound (s : Service) : Prop where
  lineage : Lineage s.tokens
  backed : ∀ p ∈ s.requests, Backed s.tokens s.ended p
  single : (claims Phase.claimed s.requests).Nodup
  dead : ∀ token ∈ s.ended, Dead s.tokens token
  closed : ∀ token parent, Child s.tokens token parent → parent ∈ s.ended → token ∈ s.ended

/-- **Requests that do not get in each other's way.** A lookup finds a token alive only
when no other request has looked it up and not yet marked it, and a logout comes when no
successor of the user's tokens is still to be inserted. -/
def Serial (s : Service) : Act → Prop
  | .run i _ => ∀ token ∈ s.requests[i]?.bind Phase.selects, ∀ row ∈ s.tokens[token]?,
      row.revoked = some false → ∀ p ∈ s.requests, p.rotating ≠ some token
  | .logout userId => ∀ p ∈ s.requests, ∀ x ∈ p.pending, x.2 ≠ userId
  | .refresh _ | .signIn .. | .fail .. => True

instance (s : Service) : DecidablePred s.Serial
  | .run i _ => inferInstanceAs (Decidable (∀ token ∈ s.requests[i]?.bind Phase.selects,
      ∀ row ∈ s.tokens[token]?, row.revoked = some false →
        ∀ p ∈ s.requests, p.rotating ≠ some token))
  | .logout userId =>
      inferInstanceAs (Decidable (∀ p ∈ s.requests, ∀ x ∈ p.pending, x.2 ≠ userId))
  | .refresh _ | .signIn .. | .fail .. => inferInstanceAs (Decidable True)

variable {p : Phase}

theorem backed_of_claimed_none {T : ExtTreeMap String RefreshToken} {ended : List String}
    (h : p.claimed = none) : Backed T ended p := by
  have hpending : p.pending = none := by
    rw [Phase.claimed, Option.or_eq_none_iff, Option.map_eq_none_iff] at h
    exact h.1
  refine ⟨fun t u ht => ?_, fun t u ht => ?_, fun t ht => ?_⟩
  · cases hpending.symm.trans ht
  · cases hpending.symm.trans ht
  · cases h.symm.trans ht

section
variable (hs : s.Sound)
include hs

theorem Sound.arrive (hp : p.claimed = none) :
    Sound { s with requests := s.requests ++ [p] } where
  lineage := hs.lineage
  backed q hq := by
    obtain hq | hq := mem_append.mp hq
    · exact hs.backed q hq
    · rw [mem_singleton.mp hq]
      exact backed_of_claimed_none hp
  single := by
    rw [claims_append_none _ hp]
    exact hs.single
  dead := hs.dead
  closed := hs.closed

variable {i : Nat} {p' : Phase}

/-- A request moves while the table is at most marked. -/
theorem Sound.move {T' : ExtTreeMap String RefreshToken} (hT : Marked s.tokens T')
    (hp' : Backed T' s.ended p') (hsingle : (claims Phase.claimed (s.requests.set i p')).Nodup) :
    Sound { s.move i p' with tokens := T' } where
  lineage := hT.lineage hs.lineage
  backed q hq := by
    obtain hq | rfl := mem_or_eq_of_mem_set hq
    · have hback := hs.backed q hq
      exact ⟨fun t u h => hT.owns_iff.mpr (hback.owned t u h), hback.unended,
        fun t h hrot => hT.dead (hback.rotated t h hrot)⟩
    · exact hp'
  single := hsingle
  dead t ht := hT.dead (hs.dead t ht)
  closed t p hc hp := hs.closed t p (hT.child_iff.mp hc) hp

theorem Sound.quiet (hp : s.requests[i]? = some p) (hfollows : p.Quiet p') :
    Sound (s.move i p') := by
  have hback := hs.backed p (mem_of_getElem? hp)
  have hpending : ∀ x, p'.pending = some x → p.pending = some x := by
    intro x hx
    obtain hnone | hsame := hfollows.pending
    · cases hnone.symm.trans hx
    · exact hsame ▸ hx
  refine hs.move (.refl _) ⟨fun t u h => hback.owned t u (hpending _ h),
    fun t u h => hback.unended t u (hpending _ h), fun t ht _ => ?_⟩
    (nodup_set _ hp (hfollows.claimed.imp_right And.right) hs.single)
  obtain hnone | ⟨hrot, hsame⟩ := hfollows.claimed
  · cases hnone.symm.trans ht
  · exact hback.rotated t (hsame ▸ ht) hrot

/-- A token that is found alive was claimed by nobody else. -/
theorem Sound.found {sessionId : Option Uuid} {row : RefreshToken}
    (hp : s.requests[i]? = some (.selecting token)) (hrow : s.tokens[token]? = some row)
    (hlive : row.revoked = some false) (huser : row.userId = some userId)
    (hserial : ∀ p ∈ s.requests, p.rotating ≠ some token) :
    Sound (s.move i (.revoking token userId sessionId)) := by
  refine hs.move (.refl _) ⟨?_, ?_, nofun⟩ ?_
  · rintro t u ⟨⟩
    exact ⟨row, hrow, huser⟩
  · rintro t u ⟨⟩ ht
    exact (hs.dead token ht).not_live hrow hlive
  · rw [(claims_set_of_none _ hp rfl).nodup_iff]
    refine nodup_cons.mpr ⟨fun hmem => ?_, hs.single⟩
    obtain ⟨q, hq, hqt⟩ := (mem_claims _).mp hmem
    cases hrot : q.rotating with
    | none => exact ((hs.backed q hq).rotated token hqt hrot).not_live hrow hlive
    | some t => exact hserial q hq (hrot.trans ((Phase.claimed_of_rotating hrot).symm.trans hqt))

theorem Sound.revoke {sessionId : Option Uuid}
    (hp : s.requests[i]? = some (.revoking token userId sessionId)) :
    Sound { s.move i (.fetchingEmail token userId sessionId) with
      tokens := s.tokens.alter token (·.map RefreshToken.revoke) } := by
  have hmarked := marked_alter s.tokens token
  have hback := hs.backed _ (mem_of_getElem? hp)
  refine hs.move hmarked ⟨fun t u h => hmarked.owns_iff.mpr (hback.owned t u h), hback.unended, ?_⟩
    (nodup_set _ hp (.inr rfl) hs.single)
  rintro t ⟨⟩ -
  obtain ⟨r, hr, -⟩ := hback.owned token userId rfl
  refine ⟨r.revoke, ?_, rfl⟩
  rw [ExtTreeMap.getElem?_alter, if_pos (LawfulEqCmp.compare_eq_iff_eq.mpr rfl), hr]
  rfl

/-- The new token has the user of its parent, which no logout has ended. -/
theorem Sound.mint {parent : Option String} {email : String} {sessionId : Uuid}
    {now : Int} (hp : s.requests[i]? = some (.insertingToken parent userId email sessionId now))
    (hfresh : token ∉ s.tokens) (hclaims : p'.claimed = parent) (hsettled : p'.pending = none) :
    Sound { s.move i p' with
      tokens := s.tokens.insert token ⟨some userId, some sessionId, parent, some false⟩ } := by
  have hrows := fun {t r} => getElem?_insert_fresh (t := t) (r := r)
    ⟨some userId, some sessionId, parent, some false⟩ hfresh
  generalize s.tokens.insert token _ = T' at hrows ⊢
  have hkeeps : ∀ {t} {r}, s.tokens[t]? = some r → T'[t]? = some r :=
    fun hr => hrows.mpr (.inr hr)
  have howns : ∀ {t u}, t ∈ s.tokens → Owns T' t u → Owns s.tokens t u := by
    rintro t u ht ⟨r, hr, hu⟩
    obtain ⟨rfl, -⟩ | hr := hrows.mp hr
    · exact absurd ht hfresh
    · exact ⟨r, hr, hu⟩
  have hmem : ∀ {t}, t ∈ s.tokens → t ∈ T' := by
    intro t ht
    obtain ⟨r, hr⟩ := Option.isSome_iff_exists.mp (ExtTreeMap.isSome_getElem?_iff_mem.mpr ht)
    rw [← ExtTreeMap.isSome_getElem?_iff_mem, hkeeps hr]
    rfl
  have hback := hs.backed _ (mem_of_getElem? hp)
  -- the rows of the new table: the inserted one and those there were
  have hchild : ∀ {t p}, Child T' t p → t = token ∧ parent = some p ∨ Child s.tokens t p := by
    rintro t p ⟨r, hr, hpar⟩
    obtain ⟨rfl, rfl⟩ | hr := hrows.mp hr
    · exact .inl ⟨rfl, hpar⟩
    · exact .inr ⟨r, hr, hpar⟩
  constructor
  · intro t p hc
    obtain ⟨rfl, rfl⟩ | hc := hchild hc
    · have hown := hback.owned p userId rfl
      refine ⟨hmem hown.mem, fun u hu => ?_⟩
      obtain rfl := hown.unique (howns hown.mem hu)
      exact ⟨_, hrows.mpr (.inl ⟨rfl, rfl⟩), rfl⟩
    · obtain ⟨hparent, hsame⟩ := hs.lineage t p hc
      refine ⟨hmem hparent, fun u hu => ?_⟩
      obtain ⟨r, hr, hru⟩ := hsame u (howns hparent hu)
      exact ⟨r, hkeeps hr, hru⟩
  · intro q hq
    obtain hq | rfl := mem_or_eq_of_mem_set hq
    · have hq := hs.backed q hq
      exact ⟨fun t u h => (hq.owned t u h).imp fun _ hr => ⟨hkeeps hr.1, hr.2⟩, hq.unended,
        fun t h hrot => (hq.rotated t h hrot).imp fun _ hr => ⟨hkeeps hr.1, hr.2⟩⟩
    · refine ⟨fun t u h => ?_, fun t u h => ?_, fun t ht _ => ?_⟩
      · cases hsettled.symm.trans h
      · cases hsettled.symm.trans h
      · obtain rfl := hclaims.symm.trans ht
        exact (hback.rotated t rfl rfl).imp fun _ hr => ⟨hkeeps hr.1, hr.2⟩
  · refine nodup_set _ hp (.inr (hclaims.trans ?_)) hs.single
    cases parent <;> rfl
  · exact fun t ht => (hs.dead t ht).imp fun _ hr => ⟨hkeeps hr.1, hr.2⟩
  · intro t p hc hparent
    obtain ⟨-, rfl⟩ | hc := hchild hc
    · exact absurd hparent (hback.unended p userId rfl)
    · exact hs.closed t p hc hparent

/-- A logout between the successors of the user's tokens ends all of them. -/
theorem Sound.logout (hserial : ∀ p ∈ s.requests, ∀ x ∈ p.pending, x.2 ≠ userId) :
    Sound { s with
      tokens := s.tokens.map fun _ r => if r.userId = some userId then r.revoke else r
      ended := s.ended ++ s.tokensOf userId } := by
  have hmarked := marked_map s.tokens fun r => r.userId = some userId
  have hmem : ∀ t, t ∈ s.ended ++ s.tokensOf userId ↔
      t ∈ s.ended ∨ Owns s.tokens t userId := by
    intro t
    rw [mem_append, mem_tokensOf]
  constructor
  · exact hmarked.lineage hs.lineage
  · intro p hp
    have hback := hs.backed p hp
    refine ⟨fun t u h => hmarked.owns_iff.mpr (hback.owned t u h), fun t u h ht => ?_,
      fun t h hr => hmarked.dead (hback.rotated t h hr)⟩
    obtain ht | ht := (hmem t).mp ht
    · exact hback.unended t u h ht
    · exact hserial p hp (t, u) h ((hback.owned t u h).unique ht)
  · exact hs.single
  · intro t ht
    obtain ht | ⟨r, hr, huser⟩ := (hmem t).mp ht
    · exact hmarked.dead (hs.dead t ht)
    · refine ⟨r.revoke, ?_, rfl⟩
      simp [hr, if_pos huser]
  · intro t p hc hparent
    have hc := hmarked.child_iff.mp hc
    obtain hp | hp := (hmem p).mp hparent
    · exact (hmem t).mpr (.inl (hs.closed t p hc hp))
    · exact (hmem t).mpr (.inr ((hs.lineage t p hc).2 userId hp))

end

theorem sound_work {d : Draw} (hp : s.requests[i]? = some p) (h : s.work cfg i d p = some s')
    (hserial : s.Serial (.run i d)) (hs : s.Sound) : s'.Sound := by
  cases p with
  | selecting token =>
    cases h
    obtain ⟨answer, hans⟩ | ⟨row, userId, hrow, hlive, huser, hfound⟩ := s.lookup_cases token
    · rw [hans]
      exact hs.quiet hp ⟨rfl, .inl rfl, .inl rfl⟩
    · rw [hfound]
      exact hs.found hp hrow hlive huser (hserial token (by rw [hp]; rfl) row hrow hlive)
  | revoking token userId sessionId =>
    cases h
    exact hs.revoke hp
  | fetchingEmail token userId sessionId =>
    cases h
    obtain ⟨hrot, hclaimed, hpending⟩ :=
      issueSessionWith_spec (some token) userId (s.userEmail userId) sessionId d.now
    exact hs.quiet hp ⟨hrot, .inr ⟨rfl, hclaimed⟩, .inr hpending⟩
  | creatingSession parent userId email now =>
    rw [work] at h
    split at h
    · cases h
    · cases h
      have hmoved : Sound (s.move i (.insertingToken parent userId email d.sessionId now)) :=
        hs.quiet hp ⟨rfl, .inr ⟨rfl, rfl⟩, .inr rfl⟩
      exact ⟨hmoved.lineage, hmoved.backed, hmoved.single, hmoved.dead, hmoved.closed⟩
  | insertingToken parent userId email sessionId now =>
    rw [work] at h
    split at h
    · cases h
    next hfresh =>
      cases h
      obtain ⟨hclaims, hsettled⟩ :=
        afterInsert_spec cfg parent userId email sessionId now d.token
      exact hs.mint hp hfresh hclaims hsettled
  | fetchingUser parent userId issued =>
    cases h
    exact hs.quiet hp ⟨rfl, .inr ⟨rfl, rfl⟩, .inl rfl⟩
  | answered exchanged answer => cases h

/-- **A step of requests that do not get in each other's way keeps the claims single and
the ended tokens dead.** -/
theorem sound_step {a : Act} (h : step cfg s a = some s') (hserial : s.Serial a)
    (hs : s.Sound) : s'.Sound := by
  cases a with
  | refresh | signIn =>
    cases h
    exact hs.arrive rfl
  | run i d => grind [step, sound_work]
  | fail i message =>
    rw [step.eq_def] at h
    dsimp only at h
    split at h
    · cases h
    · cases h
    next p _ hp =>
      cases h
      exact hs.quiet hp (p.quiet_failed _)
  | logout userId =>
    cases h
    exact hs.logout hserial

/-! ### Whole runs -/

/-- The service before any request. -/
structure AtRest (s : Service) : Prop where
  requests : s.requests = []
  ended : s.ended = []
  lineage : Lineage s.tokens

/-- Request `i` has issued a session for the token it presented. -/
def Exchanged (s : Service) (i : Nat) (token : String) : Prop :=
  ∃ p, s.requests[i]? = some p ∧ p.exchanged = some token

/-- The token is `root` or was issued, over any number of exchanges, for it. -/
inductive Descends (s : Service) (root : String) : String → Prop where
  | root : Descends s root root
  | child {token parent : String} :
      Child s.tokens token parent → Descends s root parent → Descends s root token

theorem AtRest.sound (h : s.AtRest) : s.Sound := by
  obtain ⟨hrequests, hended, hlineage⟩ := h
  constructor
  · exact hlineage
  · simp [hrequests]
  · simp [hrequests, claims]
  · simp [hended]
  · simp [hended]

theorem Sound.descends_ended (hs : s.Sound) {root : String} (hroot : root ∈ s.ended)
    (h : s.Descends root token) : token ∈ s.ended := by
  induction h with
  | root => exact hroot
  | child hc _ ih => exact hs.closed _ _ hc ih

end Service

/-- **Rotation.** In a run from any tables whose requests do not get in each other's way, a
refresh token is exchanged by one request at most, and every token that descends from one
its user had at a logout is revoked. -/
theorem exchanged_once (cfg : Config) {s₀ s : Service} {acts : List Act} (hrest : s₀.AtRest)
    (hserial : Run.Along (Service.step cfg) Service.Serial s₀ acts)
    (hrun : Run.run (Service.step cfg) s₀ acts = some s) :
    (∀ token i j, s.Exchanged i token → s.Exchanged j token → i = j) ∧
      ∀ root ∈ s.ended, ∀ token, s.Descends root token → Dead s.tokens token := by
  have hs : s.Sound := Run.run_invariant
    (fun _ _ _ h hserial hs => Service.sound_step h hserial hs) hserial hrest.sound hrun
  refine ⟨?_, fun root hroot token hdesc => hs.dead token (hs.descends_ended hroot hdesc)⟩
  rintro token i j ⟨p, hp, hpt⟩ ⟨q, hq, hqt⟩
  exact index_unique _ hs.single hp hq (Phase.claimed_of_exchanged hpt).2
    (Phase.claimed_of_exchanged hqt).2

/-! ### Requests that overlap -/

/-- A signer that accepts everything. -/
def plainConfig : Config where
  apiUrl := "http://localhost"
  jwtAud := "authenticated"
  jwtExp := 3600
  sign _ := .ok "jwt"

def noTokens : Service where
  tokens := ∅
  sessions := []
  users := [⟨1, some "user@example.com"⟩]
  requests := []
  ended := []

theorem noTokens_atRest : noTokens.AtRest := by
  refine ⟨rfl, rfl, ?_⟩
  rintro token parent ⟨r, hr, -⟩
  cases ExtTreeMap.getElem?_empty.symm.trans hr

/-- The next statement of request `i`, which draws the token `token`. -/
def next (i : Nat) (token : String) : Act := .run i ⟨0, 8, token⟩

/-- The user signs in and is given the token `r0`. -/
def signsIn : List Act :=
  [.signIn 1 "user@example.com" 0, next 0 "", next 0 "r0", next 0 ""]

/-- The token is exchanged for `r1` and presented once more, and the user logs out. -/
def rotatedOnce : List Act :=
  signsIn ++ [.refresh "r0", next 1 "", next 1 "", next 1 "", next 1 "r1", next 1 "",
    .refresh "r0", next 2 "", .logout 1]

theorem exchanged_once_rotated :
    ∃ s, Run.run (Service.step plainConfig) noTokens rotatedOnce = some s ∧
      s.Exchanged 1 "r0" ∧ (∀ j, s.Exchanged j "r0" → 1 = j) ∧ Dead s.tokens "r1" := by
  have hissued : ∀ s, Run.run (Service.step plainConfig) noTokens rotatedOnce = some s →
      s.Exchanged 1 "r0" := by
    rintro s ⟨⟩
    exact ⟨_, rfl, rfl⟩
  have hended : ∀ s, Run.run (Service.step plainConfig) noTokens rotatedOnce = some s →
      "r1" ∈ s.ended := by
    rintro s ⟨⟩
    decide +kernel
  obtain ⟨s, hrun⟩ : ∃ s, Run.run (Service.step plainConfig) noTokens rotatedOnce = some s :=
    ⟨_, rfl⟩
  have h := exchanged_once plainConfig noTokens_atRest
    (Run.along_of_check (p := fun s a => decide (s.Serial a))
      (fun _ _ hserial => of_decide_eq_true hserial) (by decide +kernel)) hrun
  exact ⟨s, hrun, hissued s hrun, fun j hj => h.1 "r0" 1 j (hissued s hrun) hj,
    h.2 "r1" (hended s hrun) "r1" .root⟩

/-- Two requests look the token up before either has marked it. -/
def lookedUpTwice : List Act :=
  signsIn ++ [.refresh "r0", .refresh "r0", next 1 "", next 2 "", next 1 "", next 1 "",
    next 1 "r1", next 2 "", next 2 "", next 2 "r2"]

/-- The user logs out between the lookup of a token and the insertion of its successor. -/
def loggedOutBetween : List Act :=
  signsIn ++ [.refresh "r0", next 1 "", .logout 1, next 1 "", next 1 "", next 1 "r1"]

/-- Two requests exchange one token, and a token outlives the logout of its user. -/
theorem token_exchanged_twice :
    (∃ s, Run.run (Service.step plainConfig) noTokens lookedUpTwice = some s ∧
      s.Exchanged 1 "r0" ∧ s.Exchanged 2 "r0") ∧
    ∃ s, Run.run (Service.step plainConfig) noTokens loggedOutBetween = some s ∧
      "r0" ∈ s.ended ∧ s.Descends "r0" "r1" ∧ ¬ Dead s.tokens "r1" := by
  constructor
  · exact ⟨_, rfl, ⟨_, rfl, rfl⟩, ⟨_, rfl, rfl⟩⟩
  · have hrow : ∀ s, Run.run (Service.step plainConfig) noTokens loggedOutBetween = some s →
        s.tokens["r1"]? = some ⟨some 1, some 8, some "r0", some false⟩ := by
      rintro s ⟨⟩
      decide +kernel
    refine ⟨_, rfl, by decide +kernel, .child ⟨_, hrow _ rfl, rfl⟩ .root, ?_⟩
    rintro ⟨r, hr, hdead⟩
    cases (hrow _ rfl).symm.trans hr
    cases hdead

/-! ### Any interleaving -/

section
variable {T T' : ExtTreeMap String RefreshToken}

/-- No token changes its user, and none that is revoked comes back. -/
def Keeps (T T' : ExtTreeMap String RefreshToken) : Prop :=
  (∀ token userId, Owns T token userId → Owns T' token userId) ∧
    ∀ token, Dead T token → Dead T' token

theorem Marked.keeps (h : Marked T T') : Keeps T T' :=
  ⟨fun _ _ => h.owns_iff.mpr, fun _ => h.dead⟩

theorem keeps_insert {token : String} (row : RefreshToken) (hfresh : token ∉ T) :
    Keeps T (T.insert token row) := by
  have hold : ∀ {t r}, T[t]? = some r → (T.insert token row)[t]? = some r :=
    fun hr => (getElem?_insert_fresh row hfresh).mpr (.inr hr)
  exact ⟨fun t u => Exists.imp fun r => .imp_left hold, fun t => Exists.imp fun r => .imp_left hold⟩

end

theorem keeps_step {cfg : Config} {s s' : Service} {a : Act} (hstep : s.step cfg a = some s') :
    Keeps s.tokens s'.tokens := by
  have hsame := (Marked.refl s.tokens).keeps
  rw [Service.step.eq_def] at hstep
  cases a with
  | refresh | signIn =>
    cases hstep
    exact hsame
  | logout userId =>
    cases hstep
    exact (marked_map _ _).keeps
  | fail i message =>
    dsimp only at hstep
    split at hstep <;> cases hstep
    exact hsame
  | run i d =>
    dsimp only at hstep
    split at hstep
    · cases hstep
    · next p _ =>
      cases p with
      | revoking token userId sessionId =>
        cases hstep
        exact (marked_alter _ _).keeps
      | creatingSession =>
        obtain ⟨-, hstep⟩ := Option.ite_none_left_eq_some.mp hstep
        cases hstep
        exact hsame
      | insertingToken =>
        obtain ⟨hfresh, hstep⟩ := Option.ite_none_left_eq_some.mp hstep
        cases hstep
        exact keeps_insert _ hfresh
      | answered => cases hstep
      | selecting | fetchingEmail | fetchingUser =>
        cases hstep
        exact hsame

/-- **Tokens do not come back or change hands.** However requests overlap or fail, from any
state on, a token keeps its user and a revoked token stays revoked. -/
theorem tokens_kept (cfg : Config) {s s' : Service} (acts : List Act)
    (hrun : Run.run (Service.step cfg) s acts = some s') : Keeps s.tokens s'.tokens := by
  refine @Run.run_invariant _ _ _ _ (fun t => Keeps s.tokens t.tokens)
    (fun _ _ _ h _ hs => ?_) _ _ _ (Run.along_true acts s) (Marked.refl _).keeps hrun
  have hstep := keeps_step h
  exact ⟨fun t u ht => hstep.1 t u (hs.1 t u ht), fun t ht => hstep.2 t (hs.2 t ht)⟩

/-- A revoked token that is presented stays revoked. -/
theorem tokens_kept_presented :
    let s : Service :=
      { noTokens with tokens := noTokens.tokens.insert "r0" ⟨some 1, none, none, some true⟩ }
    ∃ s', Run.run (Service.step plainConfig) s [.refresh "r0", next 0 ""] = some s' ∧
      Dead s'.tokens "r0" := by
  intro s
  exact ⟨_, rfl, (tokens_kept (s := s) plainConfig [.refresh "r0", next 0 ""] rfl).2 "r0"
    ⟨_, ExtTreeMap.getElem?_insert_self, rfl⟩⟩

end GuardianDb.Supabase.Auth
