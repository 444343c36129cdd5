import TeamClu.ForStd.JsonText

/-!
# Tickets of the apps' login wall

`services/fc/src/lib/apps-auth-session.ts`: the four kinds of tickets, told apart by their audience,
the one-shot codes with the ledger of the spent ones, and the cookie that carries a session.

A ticket is a signed token text.  `Signing` writes a ticket as a text and reads one back; a text
verifies when it is the signed text of a ticket that was minted here, which is what a signature that
cannot be forged says.
-/

namespace TeamClu.Apps

/-! ## Tickets -/

/-- The `aud` of a ticket. -/
inductive TicketAudience where
  | sso
  | app
  | code
  | loginState
  deriving DecidableEq

/-- The payload of a ticket. -/
inductive TicketClaims where
  | sso (sub email : Str)
  | app (sub email appId : Str)
  | code (sub email appId redirect jti : Str)
  | loginState (appId redirect next provider state codeVerifier : Str)
  deriving DecidableEq

namespace TicketClaims

def audience : TicketClaims → TicketAudience
  | .sso .. => .sso
  | .app .. => .app
  | .code .. => .code
  | .loginState .. => .loginState

/-- `str(payload.sub)`: empty where the payload has no such field, as in the next ones. -/
def sub : TicketClaims → Str
  | .sso sub _ | .app sub _ _ | .code sub _ _ _ _ => sub
  | .loginState .. => []

def email : TicketClaims → Str
  | .sso _ email | .app _ email _ | .code _ email _ _ _ => email
  | .loginState .. => []

/-- `str(payload.aid)`. -/
def aid : TicketClaims → Str
  | .sso .. => []
  | .app _ _ appId | .code _ _ appId _ _ | .loginState appId _ _ _ _ _ => appId

def redirect : TicketClaims → Str
  | .sso .. | .app .. => []
  | .code _ _ _ redirect _ | .loginState _ redirect _ _ _ _ => redirect

def jti : TicketClaims → Str
  | .code _ _ _ _ jti => jti
  | .sso .. | .app .. | .loginState .. => []

end TicketClaims

/-- A ticket, with its `iat` and `exp` in seconds. -/
structure Ticket where
  claims : TicketClaims
  issuedAt : Nat
  expiresAt : Nat
  deriving DecidableEq

/-- The signed text of a ticket, and the ticket that a text claims to be. -/
structure Signing where
  sign : Ticket → Str
  decode : Str → Option Ticket

def SSO_TTL_SECONDS : Nat := 30 * 24 * 60 * 60
def APP_TTL_SECONDS : Nat := 7 * 24 * 60 * 60
def CODE_TTL_SECONDS : Nat := 60
def SPENT_CODE_TTL_MS : Nat := 120000
def APP_RENEW_WINDOW_SECONDS : Nat := 24 * 60 * 60
def LOGIN_STATE_TTL_SECONDS : Nat := 10 * 60

def APP_COOKIE : Str := "__teamclu_app_session".toList
def APP_AUTH_CALLBACK_PATH : Str := "/__teamclu/auth/callback".toList
def APP_AUTH_LOGOUT_PATH : Str := "/__teamclu/auth/logout".toList

/-- A code that was redeemed, by an app on an origin. -/
structure Redemption where
  code : Ticket
  appId : Str
  origin : Str
  /-- In milliseconds. -/
  redeemedAt : Nat
  deriving DecidableEq

/-- The clock in milliseconds, the tickets that were minted and the ledger of spent codes with the
    time when each may be forgotten.  `redeemed` keeps what the ledger forgets; nothing reads it. -/
structure AuthState where
  now : Nat := 0
  minted : List Ticket := []
  spentCodes : List (Str × Nat) := []
  redeemed : List Redemption := []
  deriving DecidableEq

namespace AuthState

/-- `Math.floor(Date.now() / 1000)`. -/
def nowSeconds (s : AuthState) : Nat := s.now / 1000

/-- The ticket that `mint` signs. -/
def ticket (s : AuthState) (claims : TicketClaims) (ttlSeconds : Nat) : Ticket :=
  { claims, issuedAt := s.nowSeconds, expiresAt := s.nowSeconds + ttlSeconds }

/-- `mint`. -/
def mint (s : AuthState) (claims : TicketClaims) (ttlSeconds : Nat) : AuthState :=
  { s with minted := s.minted ++ [s.ticket claims ttlSeconds] }

/-! ## Verification -/

/-- `verify`: signature, audience and expiry. -/
def verify (signing : Signing) (s : AuthState) (token : Str) (audience : TicketAudience) :
    Option Ticket :=
  if token = [] then none
  else
    match signing.decode token with
    | none => none
    | some ticket =>
      if ticket ∈ s.minted ∧ signing.sign ticket = token ∧ ticket.claims.audience = audience ∧
          s.nowSeconds < ticket.expiresAt then
        some ticket
      else none

end AuthState

/-- `AppSessionClaims`. -/
structure AppSessionClaims where
  sub : Str
  email : Str
  appId : Str
  expiresAt : Nat
  deriving DecidableEq

/-- `AuthCodeClaims`. -/
structure AuthCodeClaims where
  sub : Str
  email : Str
  appId : Str
  redirect : Str
  jti : Str
  deriving DecidableEq

/-- `verifyAppSession`. -/
def verifyAppSession (signing : Signing) (s : AuthState) (token expectedAppId : Str) :
    Option AppSessionClaims :=
  match s.verify signing token .app with
  | none => none
  | some { claims, expiresAt, .. } =>
    if claims.sub = [] ∨ claims.email = [] ∨ claims.aid = [] then none
    else if expectedAppId = [] ∨ claims.aid ≠ expectedAppId then none
    else some { sub := claims.sub, email := claims.email, appId := claims.aid, expiresAt }

/-! ## One-shot codes -/

/-- `sweepSpentCodes`. -/
def sweepSpentCodes (now : Nat) (spentCodes : List (Str × Nat)) : List (Str × Nat) :=
  spentCodes.filter fun entry => now < entry.2

/-- The claims that `consumeAuthCode` reads from a payload. -/
def authCodeClaims (claims : TicketClaims) : AuthCodeClaims :=
  { sub := claims.sub, email := claims.email, appId := claims.aid, redirect := claims.redirect
    jti := claims.jti }

/-- `spentCodes.has` after the sweep. -/
def isSpent (s : AuthState) (jti : Str) : Bool :=
  (sweepSpentCodes s.now s.spentCodes).any (·.1 == jti)

/-- `consumeAuthCode`: the code is burned last, after everything it is pinned to. -/
def consumeAuthCode (signing : Signing) (s : AuthState) (token appId redirect : Str) :
    AuthState × Option AuthCodeClaims :=
  match s.verify signing token .code with
  | none => (s, none)
  | some code =>
    if code.claims.sub = [] ∨ code.claims.email = [] ∨ code.claims.aid = [] ∨
        code.claims.redirect = [] ∨ code.claims.jti = [] then
      (s, none)
    else if code.claims.aid ≠ appId then (s, none)
    else if code.claims.redirect ≠ redirect then (s, none)
    else if isSpent s code.claims.jti then
      ({ s with spentCodes := sweepSpentCodes s.now s.spentCodes }, none)
    else
      ({ s with
          spentCodes := sweepSpentCodes s.now s.spentCodes ++
            [(code.claims.jti, s.now + SPENT_CODE_TTL_MS)]
          redeemed := s.redeemed ++ [{ code, appId, origin := redirect, redeemedAt := s.now }] },
        some (authCodeClaims code.claims))

/-! ## Cookies -/

/-- `serializeSessionCookie`. -/
def serializeSessionCookie (name value : Str) (maxAgeSeconds : Nat) (secure : Bool) : Str :=
  List.intercalate "; ".toList
    ([name ++ ['='] ++ value, "Path=/".toList, "HttpOnly".toList] ++
      (if secure then ["Secure".toList] else []) ++
      ["SameSite=Lax".toList, "Max-Age=".toList ++ JsonText.natText maxAgeSeconds])

/-- `clearSessionCookie`. -/
def clearSessionCookie (name : Str) (secure : Bool) : Str := serializeSessionCookie name [] 0 secure

/-- The value of one trimmed pair of a cookie header, if it has the name.  The first `=` ends the
    name, and a pair that starts with it has none. -/
def readPair (name pair : Str) : Option Str :=
  match Str.splitOnce ['='] pair with
  | none | some ([], _) => none
  | some (key, value) => if key = name then some value else none

/-- `readCookie`. -/
def readCookie (header : Option Str) (name : Str) : Option Str :=
  match header with
  | none => none
  | some text => (text.splitOn ';').findSome? fun pair => readPair name (Str.jsTrim pair)

/-- `shouldRenew`. -/
def shouldRenew (expiresAtSeconds nowSeconds : Nat) : Bool :=
  (expiresAtSeconds : Int) - nowSeconds < APP_RENEW_WINDOW_SECONDS

/-! ## What each of them says -/

/-- A ticket verifies when it was minted, for the audience, and has not expired. -/
theorem AuthState.verify_eq_some_iff {signing : Signing} {s : AuthState} {token : Str}
    {audience : TicketAudience} {ticket : Ticket} :
    s.verify signing token audience = some ticket ↔
      token ≠ [] ∧ signing.decode token = some ticket ∧ signing.sign ticket = token ∧
        ticket ∈ s.minted ∧ ticket.claims.audience = audience ∧ s.nowSeconds < ticket.expiresAt := by
  unfold AuthState.verify
  by_cases htoken : token = []
  · simp [htoken]
  · simp only [htoken, if_false, ne_eq, not_false_eq_true, true_and]
    cases hdecode : signing.decode token with
    | none => simp
    | some decoded =>
      simp only [Option.ite_none_right_eq_some, Option.some.injEq]
      constructor
      · rintro ⟨⟨hmem, hsign, haud, hexp⟩, rfl⟩
        exact ⟨rfl, hsign, hmem, haud, hexp⟩
      · rintro ⟨rfl, hsign, hmem, haud, hexp⟩
        exact ⟨⟨hmem, hsign, haud, hexp⟩, rfl⟩

/-- A session verifies for one app only: the ticket is an app session of that very app. -/
theorem verifyAppSession_eq_some_iff {signing : Signing} {s : AuthState} {token appId : Str}
    {session : AppSessionClaims} :
    verifyAppSession signing s token appId = some session ↔
      ∃ ticket, s.verify signing token .app = some ticket ∧
        ticket.claims = .app session.sub session.email appId ∧ session.appId = appId ∧
        session.expiresAt = ticket.expiresAt ∧
        session.sub ≠ [] ∧ session.email ≠ [] ∧ appId ≠ [] := by
  unfold verifyAppSession
  cases hverify : s.verify signing token .app with
  | none => simp
  | some ticket =>
    obtain ⟨-, -, -, -, haud, -⟩ := AuthState.verify_eq_some_iff.mp hverify
    obtain ⟨claims, issuedAt, expiresAt⟩ := ticket
    obtain ⟨sub, email, sessionAppId, sessionExpiresAt⟩ := session
    cases claims with
    | app ticketSub ticketEmail aid =>
      simp only [TicketClaims.sub, TicketClaims.email, TicketClaims.aid]
      grind
    | _ => cases haud

/-- What redeeming a code does: a code that is refused only lets the ledger forget, and one that is
    accepted is a minted code for the app and the origin, unexpired and not in the ledger. -/
theorem consumeAuthCode_cases (signing : Signing) (s : AuthState) (token appId redirect : Str) :
    (∃ spentCodes, (spentCodes = s.spentCodes ∨ spentCodes = sweepSpentCodes s.now s.spentCodes) ∧
      consumeAuthCode signing s token appId redirect = ({ s with spentCodes }, none)) ∨
    ∃ code sub email jti, code ∈ s.minted ∧ s.nowSeconds < code.expiresAt ∧
      code.claims = .code sub email appId redirect jti ∧
      (∀ entry ∈ s.spentCodes, s.now < entry.2 → entry.1 ≠ jti) ∧
      consumeAuthCode signing s token appId redirect =
        ({ s with
            spentCodes := sweepSpentCodes s.now s.spentCodes ++ [(jti, s.now + SPENT_CODE_TTL_MS)]
            redeemed := s.redeemed ++ [{ code, appId, origin := redirect, redeemedAt := s.now }] },
          some { sub, email, appId, redirect, jti }) := by
  generalize hresult : consumeAuthCode signing s token appId redirect = result
  unfold consumeAuthCode at hresult
  cases hverify : s.verify signing token .code with
  | none =>
    simp only [hverify] at hresult
    exact .inl ⟨s.spentCodes, .inl rfl, hresult.symm⟩
  | some code =>
    obtain ⟨-, -, -, hmem, haud, hexp⟩ := AuthState.verify_eq_some_iff.mp hverify
    simp only [hverify] at hresult
    split at hresult
    · exact .inl ⟨s.spentCodes, .inl rfl, hresult.symm⟩
    split at hresult
    · exact .inl ⟨s.spentCodes, .inl rfl, hresult.symm⟩
    split at hresult
    · exact .inl ⟨s.spentCodes, .inl rfl, hresult.symm⟩
    split at hresult
    · exact .inl ⟨_, .inr rfl, hresult.symm⟩
    rename_i happ horigin hspent
    obtain rfl : code.claims.aid = appId := Classical.not_not.mp happ
    obtain rfl : code.claims.redirect = redirect := Classical.not_not.mp horigin
    have hclaims : code.claims = .code code.claims.sub code.claims.email code.claims.aid
        code.claims.redirect code.claims.jti := by
      cases hkind : code.claims with
      | code => rfl
      | _ => simp [hkind, TicketClaims.audience] at haud
    refine .inr ⟨code, _, _, _, hmem, hexp, hclaims, fun entry hentry hlive heq => ?_, hresult.symm⟩
    exact hspent (List.any_eq_true.mpr
      ⟨entry, by simp [sweepSpentCodes, hentry, hlive], by simp [heq]⟩)

end TeamClu.Apps
