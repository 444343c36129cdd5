import TeamClu.ForStd.Machine
import TeamClu.Native.AppsAuthGate
import Mathlib.Data.List.Nodup

/-!
# The login wall holds

The login service mints tickets, time passes, and requests for any apps arrive in any order, with any
paths, cookies, headers and codes.  What an app behind the wall receives on a protected path comes
from a session of that very app whose user satisfies the path's policy, and the identity headers are
those of a visitor so admitted, whatever the client sent (`login_wall`).

Sessions go back to codes, and each code is redeemed once: a code outlives its minting by a minute,
its entry in the ledger outlives its redemption by two.
-/

namespace TeamClu.Apps

/-! ## The gateway -/

/-- What can happen at the gateway. -/
inductive GatewayStep where
  | tick (ms : Nat)
  /-- The login service mints a ticket; the `jti` of a code is a fresh UUID. -/
  | mintSsoSession (sub email : Str)
  | mintAuthCode (sub email appId redirect jti : Str)
  | mintLoginState (appId redirect next provider state codeVerifier : Str)
  /-- A request for an app. -/
  | request (app : GateApp) (req : Request) (secure : Bool) (originToken : Option Str)

/-- The runs of the gateway. -/
def gateway (deps : GateDeps) : Machine AuthState GatewayStep where
  init := {}
  step s step :=
    match step with
    | .tick ms => { s with now := s.now + ms }
    | .mintSsoSession sub email => s.mint (.sso sub email) SSO_TTL_SECONDS
    | .mintAuthCode sub email appId redirect jti =>
      if s.minted.any (·.claims.jti == jti) then s
      else s.mint (.code sub email appId redirect jti) CODE_TTL_SECONDS
    | .mintLoginState appId redirect next provider state codeVerifier =>
      s.mint (.loginState appId redirect next provider state codeVerifier) LOGIN_STATE_TTL_SECONDS
    | .request app req secure _ => (applyAuthGate deps s req app secure).1

/-- What the app receives of a request: it is proxied when the gate has no response. -/
def received (deps : GateDeps) (s : AuthState) (req : Request) (app : GateApp) (secure : Bool)
    (originToken : Option Str) : Option Headers :=
  let outcome := (applyAuthGate deps s req app secure).2
  match outcome.response with
  | some _ => none
  | none => some (proxyHeaders deps req outcome.identity originToken)

/-! ## Who may enter -/

/-- The request's cookie is an unexpired session of a user, minted for this very app. -/
def HasSession (deps : GateDeps) (s : AuthState) (req : Request) (app : GateApp) (sub email : Str) :
    Prop :=
  ∃ token ticket, readCookie (req.headers.get "cookie".toList) APP_COOKIE = some token ∧
    token ≠ [] ∧ deps.signing.decode token = some ticket ∧ deps.signing.sign ticket = token ∧
    ticket ∈ s.minted ∧ ticket.claims = .app sub email app.id ∧
    s.nowSeconds < ticket.expiresAt ∧ sub ≠ [] ∧ email ≠ [] ∧ app.id ≠ []

/-- The codes of a user's active roles in the app's organization. -/
def activeRoles (deps : GateDeps) (app : GateApp) (sub : Str) : List Str :=
  match app.orgId with
  | none | some [] => []
  | some orgId =>
    match deps.resolveRoleIdentities sub orgId with
    | [] => []
    | identityIds => deps.resolveVisitorRoles identityIds orgId

/-- A user satisfies a policy: one of its roles if it names any, else its audience, else the app's; of
    a policy that could not be read, by an active role. -/
def Satisfies (deps : GateDeps) (app : GateApp) (sub : Str) (policy : PathPolicy) : Prop :=
  if policy.unreadable then activeRoles deps app sub ≠ []
  else
    match policy.roles with
    | some roles => roles = [] ∨ ∃ code ∈ roles, code ∈ activeRoles deps app sub
    | none => (policy.audience.or app.authAudience).getD .org = .org → activeRoles deps app sub ≠ []

/-- The organization under which a policy admits: the app's where it asks for a role. -/
def admittedOrg (app : GateApp) (policy : PathPolicy) : Option Str :=
  if policy.unreadable then app.orgId
  else
    match policy.roles with
    | some [] => none
    | some _ => app.orgId
    | none => if (policy.audience.or app.authAudience).getD .org = .org then app.orgId else none

/-- The policy of a request's path. -/
def policyOf (req : Request) (app : GateApp) : PathPolicy :=
  resolvePathPolicy req.url.pathname app.authScope app.authRules

/-- A visitor of a walled app whom the path's policy admits. -/
def Admitted (deps : GateDeps) (s : AuthState) (req : Request) (app : GateApp) (sub email : Str) :
    Prop :=
  app.authMode = some "platform".toList ∧ HasSession deps s req app sub email ∧
    Satisfies deps app sub (policyOf req app)

/-! ## Identity headers -/

/-- The names of the headers that name a visitor. -/
def isIdentityName (name : Str) : Bool :=
  sameName name USER_ID_HEADER || sameName name USER_EMAIL_HEADER || sameName name ORG_ID_HEADER

/-- The headers that name a visitor. -/
def isIdentityHeader (h : Str × Str) : Bool := isIdentityName h.1

/-- The identity headers of a visitor, with the organization if there is one. -/
def namedHeaders (sub email : Str) (orgId : Option Str) : Headers :=
  [(USER_ID_HEADER, sub), (USER_EMAIL_HEADER, email)] ++
    (orgId.toList.filter (· ≠ [])).map fun orgId => (ORG_ID_HEADER, orgId)

/-- The identity headers are those of the admitted visitor, or there is none of either. -/
def NamesVisitor (deps : GateDeps) (s : AuthState) (req : Request) (app : GateApp)
    (headers : Headers) : Prop :=
  (∃ sub email, Admitted deps s req app sub email ∧
      headers.filter isIdentityHeader =
        namedHeaders sub email (admittedOrg app (policyOf req app))) ∨
    (¬∃ sub email, Admitted deps s req app sub email) ∧ headers.filter isIdentityHeader = []

/-- What the wall promises of a step: the gateway's own paths reach no app, a protected path is only
    for an admitted visitor, and the identity headers name the admitted visitor. -/
def RequestSafe (deps : GateDeps) (s : AuthState) : GatewayStep → Prop
  | .request app req secure originToken =>
    ∀ headers, received deps s req app secure originToken = some headers →
      isGatewayPath req.url.pathname = false ∧
      (app.authMode = some "platform".toList → (policyOf req app).requiresLogin = true →
        ∃ sub email, Admitted deps s req app sub email) ∧
      NamesVisitor deps s req app headers
  | _ => True

/-- What the wall promises of a run. -/
structure LoginWall (deps : GateDeps) (steps : List GatewayStep) : Prop where
  requests : (gateway deps).Steps (RequestSafe deps) (gateway deps).init steps
  /-- No code is redeemed twice. -/
  once : (((gateway deps).run steps).redeemed.map (·.code.claims.jti)).Nodup
  /-- A code is redeemed by the app and on the origin that it was minted for, before it expires. -/
  pinned : ∀ r ∈ ((gateway deps).run steps).redeemed, r.code ∈ ((gateway deps).run steps).minted ∧
    (∃ sub email jti, r.code.claims = .code sub email r.appId r.origin jti) ∧
    r.code.issuedAt ≤ r.redeemedAt / 1000 ∧ r.redeemedAt / 1000 < r.code.issuedAt + CODE_TTL_SECONDS
  /-- Each session of an app goes back to a code of the same user that the app redeemed. -/
  sessions : ∀ t ∈ ((gateway deps).run steps).minted, ∀ sub email appId,
    t.claims = .app sub email appId → ∃ r ∈ ((gateway deps).run steps).redeemed,
      (∃ jti, r.code.claims = .code sub email appId r.origin jti) ∧
      r.appId = appId ∧ r.redeemedAt / 1000 ≤ t.issuedAt

/-! ## What an app receives -/

/-- Names that differ only in case are the same identity header, or none. -/
private theorem isIdentityName_congr {a b : Str} (h : sameName a b = true) :
    isIdentityName a = isIdentityName b := by
  have hab : a.map Char.toLower = b.map Char.toLower := by simpa [sameName] using h
  simp [isIdentityName, sameName, hab]

/-- Deleting a header and picking the identity headers commute. -/
private theorem filter_delete (headers : Headers) (name : Str) :
    (headers.delete name).filter isIdentityHeader =
      Headers.delete (headers.filter isIdentityHeader) name := by
  simp only [Headers.delete, List.filter_filter, Bool.and_comm]

/-- Setting a header that names nobody leaves the identity headers as they are. -/
private theorem filter_set_other {headers : Headers} {name : Str} (value : Str)
    (hname : isIdentityName name = false) :
    (headers.set name value).filter isIdentityHeader = headers.filter isIdentityHeader := by
  have hkept : Headers.delete (headers.filter isIdentityHeader) name =
      headers.filter isIdentityHeader := by
    refine List.filter_eq_self.mpr fun h hmem => ?_
    have hidentity : isIdentityName h.1 = true := (List.mem_filter.mp hmem).2
    cases hsame : sameName h.1 name with
    | false => rfl
    | true => simp [isIdentityName_congr hsame, hname] at hidentity
  rw [Headers.set, List.filter_append, filter_delete, hkept]
  simp [isIdentityHeader, hname]

/-- Setting an identity header replaces the ones of its name. -/
private theorem filter_set_identity {headers : Headers} {name : Str} (value : Str)
    (hname : isIdentityName name = true) :
    (headers.set name value).filter isIdentityHeader =
      Headers.delete (headers.filter isIdentityHeader) name ++ [(name, value)] := by
  rw [Headers.set, List.filter_append, filter_delete]
  simp [isIdentityHeader, hname]

/-- No identity header of the client is left. -/
private theorem filter_client_deleted (headers : Headers) :
    ((((headers.delete USER_ID_HEADER).delete USER_EMAIL_HEADER).delete ORG_ID_HEADER).filter
      isIdentityHeader) = [] := by
  simp only [Headers.delete, List.filter_filter, List.filter_eq_nil_iff]
  intro h _
  simp only [isIdentityHeader, isIdentityName]
  grind

/-- The identity headers of an identity. -/
def identityHeaders : Option ProxyIdentity → Headers
  | none => []
  | some identity => namedHeaders identity.userId identity.email identity.orgId

private theorem filter_setIdentity {headers : Headers} (identity : Option ProxyIdentity)
    -- no header that names a visitor was left
    (hnone : headers.filter isIdentityHeader = []) :
    (setIdentity headers identity).filter isIdentityHeader = identityHeaders identity := by
  have hid : isIdentityName USER_ID_HEADER = true := by decide
  have hemail : isIdentityName USER_EMAIL_HEADER = true := by decide
  have horg : isIdentityName ORG_ID_HEADER = true := by decide
  -- the three names differ, so none of them is deleted again
  have hidEmail : sameName USER_ID_HEADER USER_EMAIL_HEADER = false := by decide
  have hidOrg : sameName USER_ID_HEADER ORG_ID_HEADER = false := by decide
  have hemailOrg : sameName USER_EMAIL_HEADER ORG_ID_HEADER = false := by decide
  cases identity with
  | none => exact hnone
  | some identity =>
    obtain ⟨userId, email, orgId⟩ := identity
    have htwo : ((headers.set USER_ID_HEADER userId).set USER_EMAIL_HEADER email).filter
        isIdentityHeader = [(USER_ID_HEADER, userId), (USER_EMAIL_HEADER, email)] := by
      rw [filter_set_identity email hemail, filter_set_identity userId hid, hnone]
      simp [Headers.delete, hidEmail]
    match orgId with
    -- an organisation that is empty is not set
    | none | some [] => simpa [setIdentity, identityHeaders, namedHeaders] using htwo
    | some (c :: cs) =>
      simp only [setIdentity, filter_set_identity _ horg, htwo]
      simp [Headers.delete, hidOrg, hemailOrg, identityHeaders, namedHeaders]

private theorem filter_fillFetchMetadata (deps : GateDeps) (headers : Headers) (incoming : Url) :
    (fillFetchMetadata deps headers incoming).filter isIdentityHeader =
      headers.filter isIdentityHeader := by
  have hname : isIdentityName "sec-fetch-site".toList = false := by decide
  unfold fillFetchMetadata
  split
  · rfl
  · split
    · rfl
    · rfl
    · split
      · rfl
      · exact filter_set_other _ hname

/-- The identity headers that an app receives are those of the identity, whatever the client sent. -/
theorem proxyHeaders_identity (deps : GateDeps) (request : Request)
    (identity : Option ProxyIdentity) (originToken : Option Str) :
    (proxyHeaders deps request identity originToken).filter isIdentityHeader =
      identityHeaders identity := by
  have hhost : isIdentityName "x-forwarded-host".toList = false := by decide
  have hproto : isIdentityName "x-forwarded-proto".toList = false := by decide
  have htoken : isIdentityName "x-teamclu-origin-authorization".toList = false := by decide
  unfold proxyHeaders
  cases originToken with
  | none =>
    simp only [filter_fillFetchMetadata, filter_set_other _ hproto, filter_set_other _ hhost]
    exact filter_setIdentity identity (filter_client_deleted _)
  | some token =>
    simp only [filter_set_other _ htoken, filter_fillFetchMetadata, filter_set_other _ hproto,
      filter_set_other _ hhost]
    exact filter_setIdentity identity (filter_client_deleted _)

/-! ## Admission -/

/-- A user has one of the required codes, or any active role when none is required. -/
def HasRole (deps : GateDeps) (app : GateApp) (sub : Str) (required : Option (List Str)) : Prop :=
  activeRoles deps app sub ≠ [] ∧
    ∀ codes, required = some codes → ∃ code ∈ codes, code ∈ activeRoles deps app sub

/-- What an admission says: it is granted without a denial, or denied with the reason. -/
def Admission.Decides (admission : Admission) (p : Prop) (orgId : Option Str) : Prop :=
  (p ∧ admission = { ok := true, denial := .none, orgId }) ∨
    ∃ denial, ¬p ∧ admission = { ok := false, denial, orgId := none } ∧
      (denial = .wrong_org ∨ denial = .missing_role ∨ denial = .no_app_org)

theorem admitByRoles_decides (deps : GateDeps) (sub : Str) (app : GateApp)
    (required : Option (List Str)) :
    (admitByRoles deps sub app required).Decides (HasRole deps app sub required) app.orgId := by
  match horg : app.orgId with
  | none | some [] =>
    -- without an organisation nobody has a role
    have hroles : activeRoles deps app sub = [] := by simp only [activeRoles, horg]
    exact .inr ⟨.no_app_org, fun h => h.1 hroles, by simp only [admitByRoles, horg], by simp⟩
  | some (c :: cs) =>
    match hids : deps.resolveRoleIdentities sub (c :: cs) with
    -- the visitor is no member
    | [] =>
      have hroles : activeRoles deps app sub = [] := by simp only [activeRoles, horg, hids]
      exact .inr ⟨.wrong_org, fun h => h.1 hroles, by simp only [admitByRoles, horg, hids], by simp⟩
    | identity :: identities =>
      have hroles : activeRoles deps app sub =
          deps.resolveVisitorRoles (identity :: identities) (c :: cs) := by
        simp only [activeRoles, horg, hids]
      match hcodes : deps.resolveVisitorRoles (identity :: identities) (c :: cs), required with
      -- a member without any role
      | [], required =>
        exact .inr ⟨.wrong_org, fun h => h.1 (hroles.trans hcodes),
          by simp only [admitByRoles, horg, hids, hcodes], by simp⟩
      -- any role is enough
      | code :: codes, none =>
        exact .inl ⟨⟨by simp [hroles, hcodes], fun _ h => nomatch h⟩,
          by simp only [admitByRoles, horg, hids, hcodes]⟩
      | code :: codes, some required =>
        -- one of the required roles has to be among the visitor's
        by_cases hany : required.any ((code :: codes).contains ·) = true
        · refine .inl ⟨⟨by simp [hroles, hcodes], fun _ h => ?_⟩,
            by simp only [admitByRoles, horg, hids, hcodes, hany, if_true]⟩
          obtain rfl := Option.some.inj h
          obtain ⟨r, hr, hin⟩ := List.any_eq_true.mp hany
          exact ⟨r, hr, by simpa [hroles, hcodes] using hin⟩
        · refine .inr ⟨.missing_role, fun h => hany ?_,
            by simp only [admitByRoles, horg, hids, hcodes, hany, Bool.false_eq_true, if_false],
            by simp⟩
          obtain ⟨r, hr, hin⟩ := h.2 required rfl
          rw [hroles, hcodes] at hin
          exact List.any_eq_true.mpr ⟨r, hr, by simpa using hin⟩

/-- The gate admits exactly the users who satisfy the policy. -/
theorem admit_decides (deps : GateDeps) (sub : Str) (app : GateApp) (policy : PathPolicy) :
    (admitVisitor deps sub app policy).Decides (Satisfies deps app sub policy)
      (admittedOrg app policy) := by
  have hany : (admitByRoles deps sub app none).Decides (activeRoles deps app sub ≠ []) app.orgId := by
    have hrole : HasRole deps app sub none ↔ activeRoles deps app sub ≠ [] := by simp [HasRole]
    exact propext hrole ▸ admitByRoles_decides deps sub app none
  obtain ⟨requiresLogin, audience, roles, unreadable⟩ := policy
  match unreadable, roles with
  | true, _ => simpa [admitVisitor, Satisfies, admittedOrg] using hany
  -- an empty list of roles asks for nothing
  | false, some [] => exact .inl ⟨.inl rfl, rfl⟩
  -- a list of roles is what the visitor's roles are compared with
  | false, some (code :: codes) =>
    have hrole : HasRole deps app sub (some (code :: codes)) ↔
        Satisfies deps app sub { requiresLogin, audience, roles := some (code :: codes) } := by
      simp only [HasRole, Satisfies, Bool.false_eq_true, if_false, Option.some.injEq, forall_eq',
        reduceCtorEq, false_or, and_iff_right_iff_imp]
      rintro ⟨r, -, hr⟩
      exact List.ne_nil_of_mem hr
    exact propext hrole ▸ admitByRoles_decides deps sub app (some (code :: codes))
  -- without a list, the audience decides: everyone, or the app's organisation
  | false, none =>
    cases haudience : (audience.or app.authAudience).getD .org with
    | any => exact .inl ⟨by simp [Satisfies, haudience], by simp [admitVisitor, admittedOrg, haudience]⟩
    | org => simpa [admitVisitor, Satisfies, admittedOrg, haudience] using hany

/-! ## Sessions -/

theorem sessionOf_hasSession {deps : GateDeps} {s : AuthState} {req : Request} {app : GateApp}
    {session : AppSessionClaims} (h : sessionOf deps s req app = some session) :
    HasSession deps s req app session.sub session.email := by
  obtain ⟨ticket, hverify, hclaims, -, -, hsub, hemail, hid⟩ := verifyAppSession_eq_some_iff.mp h
  obtain ⟨htoken, hdecode, hsign, hmem, -, hexp⟩ := AuthState.verify_eq_some_iff.mp hverify
  cases hcookie : readCookie (req.headers.get "cookie".toList) APP_COOKIE with
  | none =>
    rw [hcookie] at htoken
    exact absurd rfl htoken
  | some token =>
    rw [hcookie] at htoken hdecode hsign
    exact ⟨token, ticket, hcookie, htoken, hdecode, hsign, hmem, hclaims, hexp, hsub, hemail, hid⟩

theorem HasSession.sessionOf {deps : GateDeps} {s : AuthState} {req : Request} {app : GateApp}
    {sub email : Str} (h : HasSession deps s req app sub email) :
    ∃ session, sessionOf deps s req app = some session ∧ session.sub = sub ∧
      session.email = email := by
  obtain ⟨token, ticket, hcookie, htoken, hdecode, hsign, hmem, hclaims, hexp, hsub, hemail, hid⟩ := h
  refine ⟨{ sub, email, appId := app.id, expiresAt := ticket.expiresAt }, ?_, rfl, rfl⟩
  refine verifyAppSession_eq_some_iff.mpr ⟨ticket, ?_, hclaims, rfl, rfl, hsub, hemail, hid⟩
  rw [hcookie]
  exact AuthState.verify_eq_some_iff.mpr
    ⟨htoken, hdecode, hsign, hmem, by rw [hclaims]; rfl, hexp⟩

/-! ## What a request can do -/

/-- The tickets and the ledger after a request: codes may be forgotten, or one session is minted, for
    a code that is redeemed now or to renew an unexpired session of the same user and app. -/
inductive Effect (s : AuthState) : AuthState → Prop where
  | forget (spentCodes : List (Str × Nat))
      (h : spentCodes = s.spentCodes ∨ spentCodes = sweepSpentCodes s.now s.spentCodes) :
      Effect s { s with spentCodes }
  | redeem (code : Ticket) (sub email appId origin jti : Str) (hmem : code ∈ s.minted)
      (hexp : s.nowSeconds < code.expiresAt)
      (hclaims : code.claims = .code sub email appId origin jti)
      (hunspent : ∀ entry ∈ s.spentCodes, s.now < entry.2 → entry.1 ≠ jti) :
      Effect s (AuthState.mint
        { s with
          spentCodes := sweepSpentCodes s.now s.spentCodes ++ [(jti, s.now + SPENT_CODE_TTL_MS)]
          redeemed := s.redeemed ++ [{ code, appId, origin, redeemedAt := s.now }] }
        (.app sub email appId) APP_TTL_SECONDS)
  | renew (ticket : Ticket) (sub email appId : Str) (hmem : ticket ∈ s.minted)
      (hexp : s.nowSeconds < ticket.expiresAt) (hclaims : ticket.claims = .app sub email appId) :
      Effect s (s.mint (.app sub email appId) APP_TTL_SECONDS)

theorem Effect.refl (s : AuthState) : Effect s s := .forget s.spentCodes (.inl rfl)

private theorem handleCallback_effect (deps : GateDeps) (s : AuthState) (req : Request)
    (app : GateApp) (origin : Str) (secure : Bool) :
    Effect s (handleCallback deps s req app origin secure).1 := by
  unfold handleCallback
  split
  · exact .refl s
  · obtain ⟨spentCodes, hspent, hcode⟩ |
        ⟨code, sub, email, jti, hmem, hexp, hclaims, hunspent, hcode⟩ :=
      consumeAuthCode_cases deps.signing s
        ((req.url.searchParams.lookup "code".toList).getD []) app.id origin
    · simp only [hcode]
      exact .forget spentCodes hspent
    · simp only [hcode]
      exact .redeem code sub email app.id origin jti hmem hexp hclaims hunspent

private theorem renewalCookie_effect {deps : GateDeps} {s : AuthState} {req : Request}
    {app : GateApp} {session : AppSessionClaims} (h : sessionOf deps s req app = some session)
    (secure : Bool) : Effect s (renewalCookie deps s session app secure).1 := by
  obtain ⟨_, ticket, -, -, -, -, hmem, hclaims, hexp, -⟩ := sessionOf_hasSession h
  unfold renewalCookie
  split
  · exact .renew ticket session.sub session.email app.id hmem hexp hclaims
  · exact .refl s

private theorem proceedAs_effect {deps : GateDeps} {s : AuthState} {req : Request} {app : GateApp}
    {session : AppSessionClaims} (h : sessionOf deps s req app = some session)
    (admission : Admission) (secure : Bool) :
    Effect s (proceedAs deps s session admission app secure).1 :=
  renewalCookie_effect h secure

private theorem walledPath_effect (deps : GateDeps) (s : AuthState) (req : Request) (app : GateApp)
    (origin : Str) (secure : Bool) : Effect s (walledPath deps s req app origin secure).1 := by
  unfold walledPath
  cases hsession : sessionOf deps s req app with
  | none =>
    simp only []
    split <;> exact .refl s
  | some session =>
    simp only []
    split
    · split
      · exact .refl s
      · exact proceedAs_effect hsession _ secure
    · split
      · exact .refl s
      · exact .refl s
      · exact .refl s
      · exact proceedAs_effect hsession _ secure
      · exact proceedAs_effect hsession _ secure

private theorem gatewayPath_effect (deps : GateDeps) (s : AuthState) (req : Request)
    (app : GateApp) (secure : Bool) : Effect s (gatewayPath deps s req app secure).1 := by
  unfold gatewayPath
  split
  · exact .refl s
  · split
    · exact .refl s
    · split
      · exact .refl s
      · split
        · exact .refl s
        · exact handleCallback_effect ..

theorem applyAuthGate_effect (deps : GateDeps) (s : AuthState) (req : Request) (app : GateApp)
    (secure : Bool) : Effect s (applyAuthGate deps s req app secure).1 := by
  unfold applyAuthGate
  by_cases hgateway : isGatewayPath req.url.pathname = true
  · rw [if_pos hgateway]
    exact gatewayPath_effect ..
  · rw [if_neg hgateway]
    split
    · exact .refl s
    · split
      · exact .refl s
      · split
        · exact .refl s
        · exact walledPath_effect ..

/-! ## What is forwarded -/

/-- On a path that is not the gateway's, a request without a session of its cookie is forwarded
    without a name, and only where no login is needed. -/
private theorem walledPath_forwards {deps : GateDeps} {s : AuthState} {req : Request} {app : GateApp}
    {origin : Str} {secure : Bool}
    (h : (walledPath deps s req app origin secure).2.response = none) :
    ((policyOf req app).requiresLogin = false ∧
        (walledPath deps s req app origin secure).2.identity = none ∧
        ∀ session, sessionOf deps s req app = some session →
          ¬Satisfies deps app session.sub (policyOf req app)) ∨
      ∃ session, sessionOf deps s req app = some session ∧
        Satisfies deps app session.sub (policyOf req app) ∧
        (walledPath deps s req app origin secure).2.identity =
          some { userId := session.sub, email := session.email
                 orgId := admittedOrg app (policyOf req app) } := by
  generalize hresult : walledPath deps s req app origin secure = result at h ⊢
  unfold walledPath at hresult
  cases hsession : sessionOf deps s req app with
  -- nobody is signed in: only a public path is forwarded
  | none =>
    simp only [hsession] at hresult
    split at hresult
    · subst hresult
      cases h
    · rename_i hpublic
      subst hresult
      exact .inl ⟨by simpa [policyOf] using hpublic, rfl, fun _ h => nomatch h⟩
  | some session =>
    simp only [hsession] at hresult
    -- somebody is: the admission is that of `admit_decides`
    have hadmit := admit_decides deps session.sub app (policyOf req app)
    unfold policyOf at hadmit
    obtain ⟨hsat, hadmission⟩ | ⟨denial, hsat, hadmission, hdenial⟩ := hadmit
    · -- admitted, on a public path or on another
      simp only [hadmission] at hresult
      refine .inr ⟨session, rfl, hsat, ?_⟩
      split at hresult
      · simp only [Bool.not_true, Bool.false_eq_true, if_false] at hresult
        subst hresult
        rfl
      · subst hresult
        rfl
    · -- not admitted: a public path is forwarded without an identity
      simp only [hadmission] at hresult
      split at hresult
      · rename_i hpublic
        simp only [Bool.not_false, if_true] at hresult
        subst hresult
        refine .inl ⟨by simpa [policyOf] using hpublic, rfl, fun session' h => ?_⟩
        obtain rfl := Option.some.inj h
        exact hsat
      · obtain rfl | rfl | rfl := hdenial <;> (subst hresult; cases h)

private theorem answered_response (response : GateResponse) : (answered response).response ≠ none :=
  nofun

/-- A request that is proxied is on none of the gateway's paths; of a walled app, it is what
    `walledPath` lets through, and of another one it has no name. -/
private theorem applyAuthGate_forwards {deps : GateDeps} {s : AuthState} {req : Request}
    {app : GateApp} {secure : Bool} (h : (applyAuthGate deps s req app secure).2.response = none) :
    isGatewayPath req.url.pathname = false ∧
      ((app.authMode ≠ some "platform".toList ∧
          (applyAuthGate deps s req app secure).2.identity = none) ∨
        app.authMode = some "platform".toList ∧
          ∃ origin, (walledPath deps s req app origin secure).2.response = none ∧
          (applyAuthGate deps s req app secure).2.identity =
            (walledPath deps s req app origin secure).2.identity) := by
  unfold applyAuthGate at h ⊢
  -- the gateway answers its own paths itself
  by_cases hgateway : isGatewayPath req.url.pathname = true
  · rw [if_pos hgateway] at h
    exact absurd h (answered_response _)
  · refine ⟨by simpa using hgateway, ?_⟩
    rw [if_neg hgateway] at h ⊢
    -- an app without the wall is forwarded as it is
    by_cases hmode : app.authMode ≠ some "platform".toList
    · rw [if_pos hmode]
      exact .inl ⟨hmode, rfl⟩
    · rw [if_neg hmode] at h ⊢
      cases horigin : currentOrigin deps app (requestHost req) with
      -- with the wall, a host that is no host of the app is answered
      | none =>
        simp only [horigin] at h
        exact absurd h (answered_response _)
      | some origin =>
        simp only [horigin] at h
        by_cases hdomain : deps.domain = []
        · rw [if_pos hdomain] at h
          exact absurd h (answered_response _)
        · rw [if_neg hdomain] at h
          exact .inr ⟨Classical.not_not.mp hmode, origin, h, by simp only [if_neg hdomain]⟩

/-- Every request is safe, whatever the tickets and the ledger. -/
theorem request_safe (deps : GateDeps) (s : AuthState) (step : GatewayStep) :
    RequestSafe deps s step := by
  cases step with
  | request app req secure originToken =>
    intro headers hreceived
    unfold received at hreceived
    simp only [] at hreceived
    split at hreceived
    · cases hreceived
    · -- only a request that is not answered reaches the app
      rename_i hresponse
      obtain rfl := Option.some.inj hreceived
      obtain ⟨hgateway, ⟨hmode, hidentity⟩ | ⟨hmode, origin, hwalled, hidentity⟩⟩ :=
        applyAuthGate_forwards hresponse
      · refine ⟨hgateway, fun hplatform => absurd hplatform hmode, .inr ⟨?_, ?_⟩⟩
        · rintro ⟨_, _, hplatform, _⟩
          -- no wall, and no identity
          exact hmode hplatform
        · rw [hidentity]
          exact proxyHeaders_identity ..
      · obtain ⟨hpublic, hnone, hdenied⟩ | ⟨session, hsession, hsat, hsome⟩ :=
          walledPath_forwards hwalled
        · -- a public path for a visitor who is not admitted
          refine ⟨hgateway, fun _ hlogin => by simp [hpublic] at hlogin, .inr ⟨?_, ?_⟩⟩
          · rintro ⟨sub, email, -, hsession, hsat⟩
            obtain ⟨session, hsome, rfl, -⟩ := hsession.sessionOf
            exact hdenied session hsome hsat
          · rw [hidentity, hnone]
            exact proxyHeaders_identity ..
        · -- a visitor who is admitted
          have hadmitted : Admitted deps s req app session.sub session.email :=
            ⟨hmode, sessionOf_hasSession hsession, hsat⟩
          refine ⟨hgateway, fun _ _ => ⟨_, _, hadmitted⟩, .inl ⟨_, _, hadmitted, ?_⟩⟩
          rw [hidentity, hsome]
          exact proxyHeaders_identity ..
  | _ => trivial

/-! ## Codes and sessions over a run -/

/-- What holds of the tickets and of the ledger. -/
structure AuthState.Inv (s : AuthState) : Prop where
  /-- A `jti` belongs to one code. -/
  codes : ∀ t ∈ s.minted, ∀ t' ∈ s.minted, t.claims.audience = .code → t'.claims.audience = .code →
    t.claims.jti = t'.claims.jti → t = t'
  codeTimes : ∀ t ∈ s.minted, t.claims.audience = .code →
    t.expiresAt = t.issuedAt + CODE_TTL_SECONDS ∧ t.issuedAt ≤ s.nowSeconds
  redeemed : ∀ r ∈ s.redeemed, r.code ∈ s.minted ∧
    (∃ sub email jti, r.code.claims = .code sub email r.appId r.origin jti) ∧
    r.code.issuedAt ≤ r.redeemedAt / 1000 ∧
    r.redeemedAt / 1000 < r.code.issuedAt + CODE_TTL_SECONDS ∧ r.redeemedAt ≤ s.now
  /-- The ledger has the codes that were redeemed lately. -/
  remembered : ∀ r ∈ s.redeemed, s.now < r.redeemedAt + SPENT_CODE_TTL_MS →
    (r.code.claims.jti, r.redeemedAt + SPENT_CODE_TTL_MS) ∈ s.spentCodes
  once : (s.redeemed.map (·.code.claims.jti)).Nodup
  sessions : ∀ t ∈ s.minted, ∀ sub email appId, t.claims = .app sub email appId →
    ∃ r ∈ s.redeemed, (∃ jti, r.code.claims = .code sub email appId r.origin jti) ∧
      r.appId = appId ∧ r.redeemedAt / 1000 ≤ t.issuedAt

namespace AuthState.Inv

theorem init : Inv {} where
  codes := by simp
  codeTimes := by simp
  redeemed := by simp
  remembered := by simp
  once := by simp
  sessions := by simp

theorem tick {s : AuthState} (h : s.Inv) (ms : Nat) : Inv { s with now := s.now + ms } where
  codes := h.codes
  codeTimes t ht hcode := by
    have := h.codeTimes t ht hcode
    simp only [AuthState.nowSeconds] at this ⊢
    omega
  redeemed r hr := by
    obtain ⟨hmem, hclaims, hissued, hexp, hle⟩ := h.redeemed r hr
    exact ⟨hmem, hclaims, hissued, hexp, Nat.le_add_right_of_le hle⟩
  remembered r hr hlive := h.remembered r hr (by simp only at hlive; omega)
  once := h.once
  sessions := h.sessions

/-- The ledger may forget what has run out. -/
theorem forget {s : AuthState} (h : s.Inv) {spentCodes : List (Str × Nat)}
    (hspent : spentCodes = s.spentCodes ∨ spentCodes = sweepSpentCodes s.now s.spentCodes) :
    Inv { s with spentCodes } where
  codes := h.codes
  codeTimes := h.codeTimes
  redeemed := h.redeemed
  remembered r hr hlive := by
    have hmem := h.remembered r hr hlive
    obtain rfl | rfl := hspent
    · exact hmem
    · exact List.mem_filter.mpr ⟨hmem, by simpa using hlive⟩
  once := h.once
  sessions := h.sessions

/-- A ticket is minted: a code with a fresh `jti`, or a session that goes back to a code. -/
theorem mint {s : AuthState} (h : s.Inv) (claims : TicketClaims) (ttlSeconds : Nat)
    (hcode : claims.audience = .code →
      ttlSeconds = CODE_TTL_SECONDS ∧ ∀ t ∈ s.minted, t.claims.jti ≠ claims.jti)
    (hsession : ∀ sub email appId, claims = .app sub email appId → ∃ r ∈ s.redeemed,
      (∃ jti, r.code.claims = .code sub email appId r.origin jti) ∧ r.appId = appId) :
    Inv (s.mint claims ttlSeconds) where
  codes t ht t' ht' haud haud' hjti := by
    -- two codes with one identifier: the new one was drawn fresh
    rcases List.mem_append.mp ht with hold | hnew <;>
      rcases List.mem_append.mp ht' with hold' | hnew'
    · exact h.codes t hold t' hold' haud haud' hjti
    · obtain rfl := List.mem_singleton.mp hnew'
      exact absurd hjti ((hcode haud').2 t hold)
    · obtain rfl := List.mem_singleton.mp hnew
      exact absurd hjti.symm ((hcode haud).2 t' hold')
    · rw [List.mem_singleton.mp hnew, List.mem_singleton.mp hnew']
  -- a code has just been issued, with its whole life before it
  codeTimes t ht haud := by
    rcases List.mem_append.mp ht with hold | hnew
    · exact h.codeTimes t hold haud
    · obtain rfl := List.mem_singleton.mp hnew
      obtain ⟨rfl, -⟩ := hcode haud
      exact ⟨rfl, Nat.le_refl _⟩
  redeemed r hr := by
    obtain ⟨hmem, hrest⟩ := h.redeemed r hr
    exact ⟨List.mem_append_left _ hmem, hrest⟩
  remembered := h.remembered
  once := h.once
  -- a session of an app needs a code that was redeemed there
  sessions t ht sub email appId hclaims := by
    rcases List.mem_append.mp ht with hold | hnew
    · exact h.sessions t hold sub email appId hclaims
    · obtain rfl := List.mem_singleton.mp hnew
      obtain ⟨r, hr, hcode, happ⟩ := hsession sub email appId hclaims
      exact ⟨r, hr, hcode, happ, Nat.div_le_div_right (h.redeemed r hr).2.2.2.2⟩

/-- A code that is accepted was not redeemed before: had it been, the ledger would still have it. -/
theorem unredeemed {s : AuthState} (h : s.Inv) {code : Ticket} (hmem : code ∈ s.minted)
    (haud : code.claims.audience = .code) (hexp : s.nowSeconds < code.expiresAt)
    (hunspent : ∀ entry ∈ s.spentCodes, s.now < entry.2 → entry.1 ≠ code.claims.jti) :
    ∀ r ∈ s.redeemed, r.code.claims.jti ≠ code.claims.jti := by
  intro r hr hjti
  obtain ⟨hrmem, ⟨sub, email, jti, hclaims⟩, hissued, -, -⟩ := h.redeemed r hr
  have hraud : r.code.claims.audience = .code := by rw [hclaims]; rfl
  obtain rfl : r.code = code := h.codes _ hrmem _ hmem hraud haud hjti
  have hlife : r.code.expiresAt = r.code.issuedAt + 60 := (h.codeTimes _ hrmem hraud).1
  -- a minute after it was minted is less than two minutes after it was redeemed
  have hlive : s.now < r.redeemedAt + SPENT_CODE_TTL_MS := by
    simp only [nowSeconds, SPENT_CODE_TTL_MS] at hexp ⊢
    omega
  exact hunspent _ (h.remembered r hr hlive) hlive rfl

/-- A code is redeemed. -/
theorem redeem {s : AuthState} (h : s.Inv) {code : Ticket} {sub email appId origin jti : Str}
    (hmem : code ∈ s.minted) (hexp : s.nowSeconds < code.expiresAt)
    (hclaims : code.claims = .code sub email appId origin jti)
    (hunspent : ∀ entry ∈ s.spentCodes, s.now < entry.2 → entry.1 ≠ jti) :
    Inv { s with
      spentCodes := sweepSpentCodes s.now s.spentCodes ++ [(jti, s.now + SPENT_CODE_TTL_MS)]
      redeemed := s.redeemed ++ [{ code, appId, origin, redeemedAt := s.now }] } := by
  have haud : code.claims.audience = .code := by rw [hclaims]; rfl
  have hjti : code.claims.jti = jti := by rw [hclaims]; rfl
  obtain ⟨hlife, hissued⟩ := h.codeTimes code hmem haud
  exact {
    codes := h.codes
    codeTimes := h.codeTimes
    redeemed := fun r hr => by
      -- the code is spent within its life
      rcases List.mem_append.mp hr with hold | hnew
      · exact h.redeemed r hold
      · obtain rfl := List.mem_singleton.mp hnew
        exact ⟨hmem, ⟨sub, email, jti, hclaims⟩, hissued, hlife ▸ hexp, Nat.le_refl _⟩
    remembered := fun r hr hlive => by
      -- what is swept is over, and the new code is remembered
      rcases List.mem_append.mp hr with hold | hnew
      · exact List.mem_append_left _
          (List.mem_filter.mpr ⟨h.remembered r hold hlive, by simpa using hlive⟩)
      · obtain rfl := List.mem_singleton.mp hnew
        exact List.mem_append_right _ (by simp [hjti])
    -- the new code was not redeemed before: it would still be remembered
    once := by
      rw [List.map_append]
      refine h.once.append (by simp) fun j hold hnew => ?_
      obtain ⟨r, hr, rfl⟩ := List.mem_map.mp hold
      exact h.unredeemed hmem haud hexp (hjti ▸ hunspent) r hr (by simpa using hnew)
    sessions := fun t ht sub' email' appId' hsession => by
      obtain ⟨r, hr, hrest⟩ := h.sessions t ht sub' email' appId' hsession
      exact ⟨r, List.mem_append_left _ hr, hrest⟩ }

/-- Whatever a request does to the tickets and the ledger. -/
theorem effect {s s' : AuthState} (h : s.Inv) (heffect : Effect s s') : s'.Inv := by
  cases heffect with
  | forget spentCodes hspent => exact h.forget hspent
  | redeem code sub email appId origin jti hmem hexp hclaims hunspent =>
    refine (h.redeem hmem hexp hclaims hunspent).mint _ _ nofun fun sub' email' appId' heq => ?_
    obtain ⟨rfl, rfl, rfl⟩ := TicketClaims.app.inj heq
    exact ⟨_, List.mem_append_right _ (List.mem_singleton_self _), ⟨jti, hclaims⟩, rfl⟩
  | renew ticket sub email appId hmem hexp hclaims =>
    refine h.mint _ _ nofun fun sub' email' appId' heq => ?_
    obtain ⟨rfl, rfl, rfl⟩ := TicketClaims.app.inj heq
    obtain ⟨r, hr, hcode, happ, -⟩ := h.sessions ticket hmem _ _ _ hclaims
    exact ⟨r, hr, hcode, happ⟩

theorem step {deps : GateDeps} {s : AuthState} (h : s.Inv) (step : GatewayStep) :
    ((gateway deps).step s step).Inv := by
  cases step with
  | tick ms => exact h.tick ms
  | mintSsoSession sub email => exact h.mint _ _ nofun nofun
  | mintAuthCode sub email appId redirect jti =>
    simp only [gateway]
    split
    · exact h
    · rename_i hfresh
      refine h.mint _ _ (fun _ => ⟨rfl, fun t ht hjti => hfresh ?_⟩) nofun
      exact List.any_eq_true.mpr ⟨t, ht, by simpa [TicketClaims.jti] using hjti⟩
  | mintLoginState => exact h.mint _ _ nofun nofun
  | request app req secure originToken => exact h.effect (applyAuthGate_effect ..)

end AuthState.Inv

/-- The tickets and the ledger of every run. -/
theorem gateway_inv (deps : GateDeps) (steps : List GatewayStep) : ((gateway deps).run steps).Inv :=
  Machine.invariant_runFrom (fun _ step h _ => h.step step) AuthState.Inv.init
    ((gateway deps).steps_true _ steps)

/-- The login wall holds over whole runs: an app that has one receives a request on a protected path
    only from a visitor whose session of that app satisfies the path's policy, with the identity
    headers of a visitor so admitted; codes are redeemed once, where they belong, and each session
    goes back to one. -/
theorem login_wall (deps : GateDeps) (steps : List GatewayStep) : LoginWall deps steps where
  requests := ((gateway deps).steps_true _ steps).mono fun s step _ => request_safe deps s step
  once := (gateway_inv deps steps).once
  pinned r hr := by
    obtain ⟨hmem, hclaims, hissued, hexp, -⟩ := (gateway_inv deps steps).redeemed r hr
    exact ⟨hmem, hclaims, hissued, hexp⟩
  sessions t ht sub email appId hclaims := by
    obtain ⟨r, hr, hcode, happ, hle⟩ :=
      (gateway_inv deps steps).sessions t ht sub email appId hclaims
    exact ⟨r, hr, hcode, happ, hle⟩

end TeamClu.Apps
