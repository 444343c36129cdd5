import TeamClu.Native.AppsAuthPaths
import TeamClu.Native.AppsAuthSession

/-!
# The login wall of deployed apps

`applyAuthGate` of `services/fc/src/lib/apps-auth-gate.ts` and the headers of `proxyToApp` in
`services/fc/src/lib/apps-vanity.ts`.  What the gate asks of the world around it is a `GateDeps`: the
role lookups, the deployment's environment and the parsing of URLs.
-/

namespace TeamClu.Apps

/-! ## Requests -/

/-- The headers of a request; a name is compared without regard to case. -/
abbrev Headers := List (Str × Str)

def sameName (a b : Str) : Bool := a.map Char.toLower == b.map Char.toLower

/-- `Headers.get`: several values are joined. -/
def Headers.get (headers : Headers) (name : Str) : Option Str :=
  match headers.filter fun h => sameName h.1 name with
  | [] => none
  | values => some (List.intercalate ", ".toList (values.map Prod.snd))

def Headers.delete (headers : Headers) (name : Str) : Headers :=
  headers.filter fun h => !sameName h.1 name

def Headers.set (headers : Headers) (name value : Str) : Headers :=
  headers.delete name ++ [(name, value)]

/-- A parsed URL. -/
structure Url where
  protocol : Str
  host : Str
  pathname : Str
  search : Str
  searchParams : List (Str × Str)

/-- A request at the gateway. -/
structure Request where
  url : Url
  headers : Headers

/-- `GateApp`.  The table keeps `auth_audience` to the two values. -/
structure GateApp where
  id : Str
  slug : Str
  appCode : Option Str
  usesAppCodeDomain : Bool
  teamId : Option Str
  orgId : Option Str
  authMode : Option Str
  authAudience : Option AuthAudience
  authScope : Option Str
  authRules : RawJson

/-- `GateDeps`, with the environment: the login domain, the origins of an app, and `hostname` and
    `host` of `new URL`, absent where it throws. -/
structure GateDeps where
  resolveRoleIdentities : Str → Str → List Str
  resolveVisitorRoles : List Str → Str → List Str
  signing : Signing
  loginDomain : Option Str
  appOrigins : GateApp → List Str
  hostname : Str → Option Str
  hostOf : Str → Option Str

/-- `ProxyIdentity`. -/
structure ProxyIdentity where
  userId : Str
  email : Str
  orgId : Option Str
  deriving DecidableEq

/-- The login page of an app, for a visitor on an origin headed for a path. -/
structure LoginUrl where
  domain : Str
  app : Str
  r : Str
  next : Str
  deriving DecidableEq

/-- What the gateway answers by itself. -/
inductive GateResponse where
  | redirect (location : Str) (cookies : List Str)
  | redirectToLogin (url : LoginUrl)
  /-- 503. -/
  | misconfigured (reason : Str)
  /-- 400: the code has expired or has been used. -/
  | loginExpired (again : LoginUrl)
  /-- 403. -/
  | accessDenied (email : Str) (missingRole : Bool)
  deriving DecidableEq

/-- `GateOutcome`: proxy the request when there is no response. -/
structure GateOutcome where
  response : Option GateResponse := none
  identity : Option ProxyIdentity := none
  setCookie : Option Str := none
  deriving DecidableEq

def PROCEED_ANONYMOUS : GateOutcome := {}

def answered (response : GateResponse) : GateOutcome := { response := some response }

/-- `isGatewayPath`. -/
def isGatewayPath (path : Str) : Bool :=
  path = APP_AUTH_CALLBACK_PATH || path = APP_AUTH_LOGOUT_PATH

/-- `loginDomain`. -/
def GateDeps.domain (deps : GateDeps) : Str := Str.jsTrim (deps.loginDomain.getD [])

/-- `loginUrl`. -/
def loginUrl (deps : GateDeps) (app : GateApp) (origin next : Str) : LoginUrl :=
  { domain := deps.domain, app := app.id, r := origin, next }

/-- `safeNext`: a path inside the app, never a way out of it. -/
def safeNext (raw : Option Str) : Str :=
  match raw with
  | none => "/".toList
  | some raw =>
    if raw.head? ≠ some '/' then "/".toList
    else if "//".toList.isPrefixOf raw || raw.any (· = '\\') then "/".toList
    else raw

/-- The text before the first `sep`. -/
def before (sep : Char) (s : Str) : Str := s.takeWhile (· ≠ sep)

/-- The host that the visitor asked for. -/
def requestHost (req : Request) : Str :=
  let forwarded := Str.jsTrim (before ',' ((req.headers.get "x-forwarded-host".toList).getD []))
  if forwarded = [] then req.url.host else forwarded

/-- `currentOrigin`: the app's origin with the request's host, else its first. -/
def currentOrigin (deps : GateDeps) (app : GateApp) (host : Str) : Option Str :=
  let name := Str.jsLowerCase (Str.jsTrim (before ':' host))
  match deps.appOrigins app with
  | [] => none
  | first :: rest =>
    some (((first :: rest).find? fun o => deps.hostname o == some name).getD first)

/-- The session of the request's cookie, for this app. -/
def sessionOf (deps : GateDeps) (s : AuthState) (req : Request) (app : GateApp) :
    Option AppSessionClaims :=
  let token := (readCookie (req.headers.get "cookie".toList) APP_COOKIE).getD []
  verifyAppSession deps.signing s token app.id

/-! ## Callback and logout -/

/-- `handleCallback`. -/
def handleCallback (deps : GateDeps) (s : AuthState) (req : Request) (app : GateApp) (origin : Str)
    (secure : Bool) : AuthState × GateResponse :=
  let next := safeNext (req.url.searchParams.lookup "next".toList)
  match sessionOf deps s req app with
  | some _ => (s, .redirect (origin ++ next) [])
  | none =>
    let code := (req.url.searchParams.lookup "code".toList).getD []
    match consumeAuthCode deps.signing s code app.id origin with
    | (s, none) => (s, .loginExpired (loginUrl deps app origin next))
    | (s, some claims) =>
      let session : TicketClaims := .app claims.sub claims.email app.id
      let token := deps.signing.sign (s.ticket session APP_TTL_SECONDS)
      (s.mint session APP_TTL_SECONDS,
        .redirect (origin ++ next) [serializeSessionCookie APP_COOKIE token APP_TTL_SECONDS secure])

/-- `handleLogout`. -/
def handleLogout (deps : GateDeps) (origin : Str) (secure : Bool) : GateResponse :=
  let target :=
    if deps.domain ≠ [] then "https://".toList ++ deps.domain ++ "/logout".toList
    else origin ++ "/".toList
  .redirect target [clearSessionCookie APP_COOKIE secure]

/-! ## Admission -/

/-- Why a visitor is not admitted. -/
inductive Denial where
  | none
  | anonymous
  | wrong_org
  | missing_role
  | no_app_org
  deriving DecidableEq

/-- `Admission`. -/
structure Admission where
  ok : Bool
  denial : Denial
  orgId : Option Str
  deriving DecidableEq

/-- `admitByRoles`; without required codes any active role will do. -/
def admitByRoles (deps : GateDeps) (sub : Str) (app : GateApp) (required : Option (List Str)) :
    Admission :=
  match app.orgId with
  | none | some [] => { ok := false, denial := .no_app_org, orgId := none }
  | some orgId =>
    match deps.resolveRoleIdentities sub orgId with
    | [] => { ok := false, denial := .wrong_org, orgId := none }
    | identityIds =>
      match deps.resolveVisitorRoles identityIds orgId, required with
      | [], _ => { ok := false, denial := .wrong_org, orgId := none }
      | _, none => { ok := true, denial := .none, orgId := some orgId }
      | codes, some required =>
        if required.any (codes.contains ·) then { ok := true, denial := .none, orgId := some orgId }
        else { ok := false, denial := .missing_role, orgId := none }

/-- `admit`: the path's roles, else its audience, else the app's; the fail-safe verdict asks for a
    role whatever the app's audience says. -/
def admitVisitor (deps : GateDeps) (sub : Str) (app : GateApp) (policy : PathPolicy) : Admission :=
  if policy.unreadable then admitByRoles deps sub app none
  else
    match policy.roles with
    | some [] => { ok := true, denial := .none, orgId := none }
    | some roles => admitByRoles deps sub app (some roles)
    | none =>
      match (policy.audience.or app.authAudience).getD .org with
      | .any => { ok := true, denial := .none, orgId := none }
      | .org => admitByRoles deps sub app none

/-- `renewalCookie`, with the ticket that it mints. -/
def renewalCookie (deps : GateDeps) (s : AuthState) (session : AppSessionClaims) (app : GateApp)
    (secure : Bool) : AuthState × Option Str :=
  if shouldRenew session.expiresAt s.nowSeconds then
    let claims : TicketClaims := .app session.sub session.email app.id
    let token := deps.signing.sign (s.ticket claims APP_TTL_SECONDS)
    (s.mint claims APP_TTL_SECONDS,
      some (serializeSessionCookie APP_COOKIE token APP_TTL_SECONDS secure))
  else (s, none)

/-- Proxy a request under the name of its session. -/
def proceedAs (deps : GateDeps) (s : AuthState) (session : AppSessionClaims) (admission : Admission)
    (app : GateApp) (secure : Bool) : AuthState × GateOutcome :=
  let (s, setCookie) := renewalCookie deps s session app secure
  (s, { identity := some { userId := session.sub, email := session.email, orgId := admission.orgId }
        setCookie })

/-! ## The gate -/

/-- The paths that the gateway owns. -/
def gatewayPath (deps : GateDeps) (s : AuthState) (req : Request) (app : GateApp) (secure : Bool) :
    AuthState × GateResponse :=
  match currentOrigin deps app (requestHost req) with
  | none => (s, .misconfigured "未配置应用域名".toList)
  | some origin =>
    if req.url.pathname = APP_AUTH_LOGOUT_PATH then (s, handleLogout deps origin secure)
    else if app.authMode ≠ some "platform".toList then (s, .redirect (origin ++ "/".toList) [])
    else if deps.domain = [] then (s, .misconfigured "未配置登录域名".toList)
    else handleCallback deps s req app origin secure

/-- A request that is neither anonymous by right nor for the gateway itself, once the deployment is
    known to have an origin for the app and a login domain. -/
def walledPath (deps : GateDeps) (s : AuthState) (req : Request) (app : GateApp) (origin : Str)
    (secure : Bool) : AuthState × GateOutcome :=
  let policy := resolvePathPolicy req.url.pathname app.authScope app.authRules
  match sessionOf deps s req app with
  | none =>
    if policy.requiresLogin then
      let next := safeNext (some (req.url.pathname ++ req.url.search))
      (s, answered (.redirectToLogin (loginUrl deps app origin next)))
    else (s, PROCEED_ANONYMOUS)
  | some session =>
    let admission := admitVisitor deps session.sub app policy
    if !policy.requiresLogin then
      -- a public path names the visitor only when the visitor would have been admitted anyway
      if !admission.ok then (s, PROCEED_ANONYMOUS)
      else proceedAs deps s session admission app secure
    else
      match admission.denial with
      | .no_app_org => (s, answered (.misconfigured "该应用所属团队未关联组织".toList))
      | .wrong_org => (s, answered (.accessDenied session.email false))
      | .missing_role => (s, answered (.accessDenied session.email true))
      | .none | .anonymous => proceedAs deps s session admission app secure

/-- `applyAuthGate`. -/
def applyAuthGate (deps : GateDeps) (s : AuthState) (req : Request) (app : GateApp) (secure : Bool) :
    AuthState × GateOutcome :=
  if isGatewayPath req.url.pathname then
    let (s, response) := gatewayPath deps s req app secure
    (s, answered response)
  else if app.authMode ≠ some "platform".toList then (s, PROCEED_ANONYMOUS)
  else
    match currentOrigin deps app (requestHost req) with
    | none => (s, answered (.misconfigured "未配置应用域名".toList))
    | some origin =>
      if deps.domain = [] then (s, answered (.misconfigured "未配置登录域名".toList))
      else walledPath deps s req app origin secure

/-! ## Forwarding -/

def HOP_BY_HOP : List Str :=
  ["connection".toList, "keep-alive".toList, "proxy-authenticate".toList,
    "proxy-authorization".toList, "te".toList, "trailer".toList, "transfer-encoding".toList,
    "upgrade".toList]

def ORIGIN_VERSION_HEADER : Str := "X-Teamclu-Origin-Version".toList

def USER_ID_HEADER : Str := "x-teamclu-user-id".toList
def USER_EMAIL_HEADER : Str := "x-teamclu-user-email".toList
def ORG_ID_HEADER : Str := "x-teamclu-org-id".toList

/-- `strip`. -/
def strip (headers : Headers) : Headers := HOP_BY_HOP.foldl Headers.delete headers

/-- The identity headers that `proxyToApp` sets. -/
def setIdentity (headers : Headers) : Option ProxyIdentity → Headers
  | none => headers
  | some identity =>
    let headers := (headers.set USER_ID_HEADER identity.userId).set USER_EMAIL_HEADER identity.email
    match identity.orgId with
    | none | some [] => headers
    | some orgId => headers.set ORG_ID_HEADER orgId

/-- `fillFetchMetadata`. -/
def fillFetchMetadata (deps : GateDeps) (headers : Headers) (incoming : Url) : Headers :=
  if (headers.get "sec-fetch-site".toList).isSome then headers
  else
    match (headers.get "origin".toList).or (headers.get "referer".toList) with
    | none | some [] => headers
    | some initiator =>
      match deps.hostOf initiator with
      | none => headers
      | some host =>
        headers.set "sec-fetch-site".toList
          (if host = incoming.host then "same-origin".toList else "cross-site".toList)

/-- The headers that `proxyToApp` sends to the app; `originToken` is the token of a protected
    origin. -/
def proxyHeaders (deps : GateDeps) (request : Request) (identity : Option ProxyIdentity)
    (originToken : Option Str) : Headers :=
  let headers := (((strip request.headers).delete "host".toList).delete
    "x-teamclu-origin-authorization".toList).delete ORIGIN_VERSION_HEADER
  -- a client's own identity headers go first, also where nothing is written back
  let headers := ((headers.delete USER_ID_HEADER).delete USER_EMAIL_HEADER).delete ORG_ID_HEADER
  let headers := setIdentity headers identity
  let headers := headers.set "x-forwarded-host".toList request.url.host
  let headers := headers.set "x-forwarded-proto".toList (request.url.protocol.erase ':')
  let headers := fillFetchMetadata deps headers request.url
  match originToken with
  | none => headers
  | some token =>
    headers.set "x-teamclu-origin-authorization".toList ("Bearer ".toList ++ token)

end TeamClu.Apps
