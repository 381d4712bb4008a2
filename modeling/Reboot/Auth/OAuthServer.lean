import Reboot.Admin.AdminAuth
import Reboot.Lib.Base64
import Reboot.Names

/-!
# The OAuth server

The request handlers of `OAuthServer` (`reboot/aio/auth/oauth_server.py`) that hand out
authorization codes and tokens. The server keeps no state: what a handler knows of the
requests before it is in the signed tokens and cookies that the request carries.

Mirroring notes:
- A `Token` is a parameter, a form field or a cookie that may hold a JWT: either one with
  the claims of one of the kinds this server signs, or `text`. `jwt.decode` with this
  server's key is successful on exactly the JWTs this server has handed out, so verifying
  takes them as an argument (`Signing.issued`).
- The header of a JWT, and claims that repeat a constant (`aud` of an access token), are left
  to the kind. Signing is deterministic: equal claims give one and the same string.
- `origin_from_request` is a function of the headers of a request, so each request has the
  `origin` it names.
- Random values, the answer of the identity provider and an exception of the `authenticated`
  hook are arguments (`External`). `_store_oauth_tokens` swallows its exceptions and has no
  part in the response.
- A redirect is kept as its target and its query, before `urlencode`; a redirect to the
  identity provider as what `authorization_url` is called with.
- `sha256` maps a string to the digest of its UTF-8 encoding; `urlparse` gives the scheme and
  the network location, or fails with a `ValueError`; `isDecimal` is what `\d` matches.
-/

namespace Reboot.Auth

open Reboot.Lib

/-! ## Constants -/

def authCodeTtlSeconds : Nat := 300

def refreshTokenTtlSeconds : Nat := 30 * 24 * 60 * 60

def pendingStateTtlSeconds : Nat := 600

/-- The time to live of a `client_id`: around 1000 years. -/
def clientTtlSeconds : Nat := 1000 * 365 * 24 * 3600

def maxClientMetadataLength : Nat := 256

/-- `_AUDIENCE`. -/
def accessAudience : Str := "reboot-mcp".toList

def authorizePath : Str := "/__/oauth/authorize".toList

def consentPath : Str := "/__/oauth/consent".toList

def callbackPath : Str := "/__/oauth/callback".toList

def finishPath : Str := "/__/oauth/finish".toList

def consentCsrfCookie : Str := "rbt_oauth_consent".toList

def sessionCookieName : Str := "rbt_session".toList

def refreshCookieName : Str := "rbt_refresh".toList

def pendingCookieName : Str := "rbt_oauth_pending".toList

/-! ## Tokens -/

abbrev UserId := Str

/-- The claim `type`. -/
inductive JwtType
  | client | browserClient | consent | pending | code | access | refresh | pendingBrowser
  deriving DecidableEq

/-- The value of a parameter, a form field or a cookie that may hold a JWT. -/
inductive Token
  /-- anything but a JWT of this server -/
  | text (s : Str)
  /-- An entry of `redirect_uris` that is no string is `none`. -/
  | client (redirectUris : List (Option Str)) (firstParty : Bool)
      (clientName clientUri : Option Str) (iat exp : Nat)
  /-- with the one entry of its `redirect_uris` -/
  | browserClient (redirectUri : Str) (iat exp : Nat)
  | consent (clientId : Token)
      (redirectUri codeChallenge codeChallengeMethod mcpState nonce : Str) (iat exp : Nat)
  | pending (clientId : Token)
      (redirectUri codeChallenge codeChallengeMethod mcpState : Str) (iat exp : Nat)
  | code (sub : UserId) (clientId : Token) (redirectUri codeChallenge : Str) (iat exp : Nat)
  | access (sub : UserId) (iss : Str) (iat exp : Nat)
  | refresh (sub : UserId) (clientId : Token) (iat exp : Nat)
  | pendingBrowser (codeVerifier returnTo : Str) (iat exp : Nat)
  deriving DecidableEq

namespace Token

/-- The claim `type`; `none` for what does not decode. -/
def jwtType : Token → Option JwtType
  | text _ => none
  | client .. => some .client
  | browserClient .. => some .browserClient
  | consent .. => some .consent
  | pending .. => some .pending
  | code .. => some .code
  | access .. => some .access
  | refresh .. => some .refresh
  | pendingBrowser .. => some .pendingBrowser

/-- The claim `exp`. -/
def expiry : Token → Nat
  | text _ => 0
  | client _ _ _ _ _ exp | browserClient _ _ exp | consent _ _ _ _ _ _ _ exp
  | pending _ _ _ _ _ _ exp | code _ _ _ _ _ exp | access _ _ _ exp | refresh _ _ _ exp
  | pendingBrowser _ _ _ exp => exp

/-- The claim `aud`: only access tokens have one. -/
def aud : Token → Option Str
  | access .. => some accessAudience
  | _ => none

/-- `client_data.get("redirect_uris", [])`. -/
def redirectUris : Token → List (Option Str)
  | client uris .. => uris
  | browserClient uri .. => [some uri]
  | _ => []

end Token

/-- What making and verifying a JWT depends on: the time in seconds and the JWTs handed
out so far. -/
structure Signing where
  now : Nat
  issued : List Token

/-- `_verify_jwt`. -/
def Signing.verifyJwt (g : Signing) (token : Token) (expectedTypes : List JwtType) :
    Option Token :=
  if token ∉ g.issued then none
  else if token.expiry ≤ g.now then none
  else if JwtType.access ∈ expectedTypes ∧ token.aud ≠ some accessAudience then none
  else
    match token.jwtType with
    | none => none
    | some type => if type ∈ expectedTypes then some token else none

/-! ## Configuration and libraries -/

/-- The configuration of an application. -/
structure Config where
  applicationTitle : Str
  allowedOrigins : List Str
  skipConsentForRedirectUris : List Str
  accessTokenTtlSeconds : Nat
  environ : Admin.Environ

/-- What a URL is parsed into. -/
structure ParsedUrl where
  scheme : Str
  netloc : Str

/-- The functions of Python's library that are used. -/
structure Library where
  sha256 : Str → List Byte
  urlparse : Str → Option ParsedUrl
  isDecimal : Char → Bool

/-- `s.rstrip(c)`. -/
def rstrip (c : Char) : Str → Str
  | [] => []
  | a :: s => if a = c ∧ rstrip c s = [] then [] else a :: rstrip c s

/-- `_compute_code_challenge`. -/
def computeCodeChallenge (lib : Library) (codeVerifier : Str) : Str :=
  rstrip '=' (urlsafeB64encode (lib.sha256 codeVerifier))

/-- The whole of a URI matches the one of `DEV_REDIRECT_URI_REGEXES`, Expo's: after the scheme
a host without a slash, then a slash, two dashes, and nothing or a path without a newline. -/
def isDevRedirectUri (redirectUri : Str) : Bool :=
  if "exp://".toList.isPrefixOf redirectUri then
    let host := (redirectUri.drop 6).takeWhile (· ≠ '/')
    let rest := (redirectUri.drop 6).dropWhile (· ≠ '/')
    if host = [] then false
    else if ['/', '-', '-'].isPrefixOf rest then
      match rest.drop 3 with
      | [] => true
      | c :: path => decide (c = '/') && path.all (· ≠ '\n')
    else false
  else false

/-- `skips_consent`. -/
def skipsConsent (config : Config) (redirectUri : Str) : Bool :=
  if redirectUri ∈ config.skipConsentForRedirectUris then true
  else if Admin.runningRbtDev config.environ then isDevRedirectUri redirectUri
  else false

/-- Every URI of a registration is a string that skips consent. -/
def allSkipConsent (config : Config) (redirectUris : List (Option Str)) : Bool :=
  redirectUris.all fun
    | some redirectUri => skipsConsent config redirectUri
    | none => false

/-- `(:\d+)?` to the end. -/
def isPort (lib : Library) : Str → Bool
  | [] => true
  | c :: digits => decide (c = ':') && decide (digits ≠ []) && digits.all lib.isDecimal

/-- One of `DEV_ORIGIN_REGEXES` matches. -/
def isDevOrigin (lib : Library) (origin : Str) : Bool :=
  ["http://localhost".toList, "http://127.0.0.1".toList].any fun host =>
    host.isPrefixOf origin && isPort lib (origin.drop host.length)

/-- `is_allowed_origin`. -/
def isAllowedOrigin (config : Config) (lib : Library) (origin ownOrigin : Str) : Bool :=
  if origin ∈ config.allowedOrigins then true
  else if origin = ownOrigin then true
  else if Admin.runningRbtDev config.environ then isDevOrigin lib origin
  else false

/-- `_is_valid_return_to`. -/
def isValidReturnTo (config : Config) (lib : Library) (returnTo origin : Str) : Bool :=
  if returnTo = [] then false
  else if "/".toList.isPrefixOf returnTo && !"//".toList.isPrefixOf returnTo then true
  else
    match lib.urlparse returnTo with
    | none => false
    | some parsed =>
      if parsed.scheme ∉ ["http".toList, "https".toList] then false
      else if parsed.netloc = [] then false
      else isAllowedOrigin config lib (parsed.scheme ++ "://".toList ++ parsed.netloc) origin

/-- What follows the last `@`, as `netloc.rsplit("@", 1)[-1]`. -/
def withoutUserinfo (netloc : Str) : Str :=
  (netloc.reverse.takeWhile (· ≠ '@')).reverse

/-- `secrets.compare_digest`; `none` is the `TypeError` for what is not ASCII. -/
def compareDigest (a b : Str) : Option Bool :=
  if (a ++ b).all (fun c => decide (c.toNat < 128)) then some (decide (a = b)) else none

/-! ## Requests and responses -/

/-- The JSON body of a registration. -/
inductive RegisterBody
  | invalidJson
  /-- JSON, but no object: `body.get` raises -/
  | notAnObject
  /-- A field that is missing or of another type is `none`. -/
  | object (redirectUris : Option (List (Option Str))) (clientName clientUri : Option Str)
  deriving DecidableEq

structure AuthorizeRequest where
  origin : Str
  sessionCookie : Option Token
  responseType : Option Str
  clientId : Option Token
  redirectUri : Option Str
  codeChallenge : Option Str
  codeChallengeMethod : Option Str
  state : Option Str
  deriving DecidableEq

structure ConsentRequest where
  origin : Str
  sessionCookie : Option Token
  consentCsrfCookie : Option Str
  consent : Option Token
  action : Option Str
  deriving DecidableEq

structure CallbackRequest where
  origin : Str
  error : Option Str
  state : Option Token
  code : Option Str
  deriving DecidableEq

structure TokenRequest where
  origin : Str
  grantType : Option Str
  code : Option Token
  clientId : Option Token
  redirectUri : Option Str
  codeVerifier : Option Str
  refreshToken : Option Token
  deriving DecidableEq

structure StartRequest where
  origin : Str
  returnTo : Option Str
  deriving DecidableEq

structure FinishRequest where
  origin : Str
  pendingCookie : Option Token
  error : Option Str
  errorDescription : Option Str
  code : Option Token
  deriving DecidableEq

inductive Request
  | register (body : RegisterBody)
  | authorize (request : AuthorizeRequest)
  | consent (request : ConsentRequest)
  | callback (request : CallbackRequest)
  | token (request : TokenRequest)
  | start (request : StartRequest)
  | finish (request : FinishRequest)
  deriving DecidableEq

/-- What a handler gets from elsewhere. -/
structure External where
  /-- `secrets.token_urlsafe(32)`, for the consent screen -/
  nonce : Str
  /-- `secrets.token_urlsafe(64)` -/
  codeVerifier : Str
  /-- `secrets.token_urlsafe(16)` -/
  state : Str
  /-- the user that the identity provider has signed in for a code; `none` if the exchange
  fails -/
  exchangeCode : Str → Option UserId
  /-- whether the `authenticated` hook raises -/
  authenticatedRaises : Bool

inductive SameSite
  | none | lax | strict
  deriving DecidableEq

/-- The arguments of `response.set_cookie`. -/
structure SetCookie where
  key : Str
  value : Token
  maxAge : Nat
  path : Str
  secure : Bool
  httponly : Bool
  samesite : SameSite
  deriving DecidableEq

/-- What the consent screen is rendered from. -/
structure ConsentPage where
  applicationTitle : Str
  clientName : Option Str
  clientUri : Option Str
  clientUriSafe : Bool
  redirectUri : Str
  redirectOrigin : Str
  consentToken : Token
  consentPath : Str
  deriving DecidableEq

/-- The body of a token response. -/
structure TokenResponse where
  accessToken : Token
  tokenType : Str
  expiresIn : Nat
  refreshToken : Token
  deriving DecidableEq

inductive Body
  /-- `error` and `error_description` -/
  | error (error description : Str)
  | registered (clientId : Token) (redirectUris : List (Option Str))
  | consentPage (page : ConsentPage)
  /-- a redirect, with its query -/
  | redirect (url : Str) (query : List (Str × Token))
  /-- a redirect to the identity provider -/
  | identityProvider (state : Token) (redirectUri : Str)
  | tokens (tokens : TokenResponse)
  /-- an exception, which the framework answers -/
  | raised
  deriving DecidableEq

structure Response where
  statusCode : Nat
  body : Body
  cookies : List SetCookie
  /-- `response.delete_cookie`, by name and path -/
  deletedCookies : List (Str × Str)
  deriving DecidableEq

/-- The tokens in a body, in a redirect's query included. -/
def Body.sent : Body → List Token
  | .error _ _ => []
  | .registered clientId _ => [clientId]
  | .consentPage page => [page.consentToken]
  | .redirect _ query => query.map (·.2)
  | .identityProvider state _ => [state]
  | .tokens minted => [minted.accessToken, minted.refreshToken]
  | .raised => []

/-- The tokens that a response sets as cookies. -/
def Response.cookieTokens (response : Response) : List Token := response.cookies.map (·.value)

/-- The tokens in a response. -/
def Response.sent (response : Response) : List Token :=
  response.body.sent ++ response.cookieTokens

/-! ## Helpers -/

def oauthError (error description : String) (statusCode : Nat) : Response :=
  ⟨statusCode, .error error.toList description.toList, [], []⟩

/-- An unhandled exception. -/
def raised : Response := ⟨500, .raised, [], []⟩

def redirectResponse (url : Str) (query : List (Str × Token)) : Response :=
  ⟨302, .redirect url query, [], []⟩

/-- The redirect that reports `access_denied` to the client. -/
def redirectDenied (redirectUri mcpState : Str) : Response :=
  redirectResponse redirectUri
    [("error".toList, .text "access_denied".toList), ("state".toList, .text mcpState)]

/-- `_mint_tokens_for_user`; `none` if the `authenticated` hook raises. -/
def mintTokensForUser (config : Config) (g : Signing) (ext : External) (userId : UserId)
    (clientId : Token) (base : Str) : Option TokenResponse :=
  if ext.authenticatedRaises then none
  else
    some {
      accessToken := .access userId base g.now (g.now + config.accessTokenTtlSeconds)
      tokenType := "bearer".toList
      expiresIn := config.accessTokenTtlSeconds
      refreshToken := .refresh userId clientId g.now (g.now + refreshTokenTtlSeconds) }

/-- `_set_session_cookies`. -/
def setSessionCookies (response : Response) (tokens : TokenResponse) : Response :=
  { response with
    cookies := response.cookies ++
      [⟨sessionCookieName, tokens.accessToken, tokens.expiresIn, oauthPathPrefix, true, true,
          .none⟩,
        ⟨refreshCookieName, tokens.refreshToken, refreshTokenTtlSeconds, oauthPathPrefix, true,
          true, .none⟩]
    deletedCookies := response.deletedCookies ++ [(sessionCookieName, "/".toList)] }

def deleteCookie (response : Response) (key path : Str) : Response :=
  { response with deletedCookies := response.deletedCookies ++ [(key, path)] }

/-- `_verify_session_cookie`. -/
def verifySessionCookie (g : Signing) (sessionCookie : Option Token) : Option UserId :=
  match sessionCookie with
  | none => none
  | some token =>
    match g.verifyJwt token [.access] with
    | some (.access sub _ _ _) => if sub = [] then none else some sub
    | _ => none

/-- `_redirect_with_auth_code`. -/
def redirectWithAuthCode (g : Signing) (userId : UserId) (clientId : Token)
    (redirectUri codeChallenge state : Str) : Response :=
  redirectResponse redirectUri
    [("code".toList,
        .code userId clientId redirectUri codeChallenge g.now (g.now + authCodeTtlSeconds)),
      ("state".toList, .text state)]

/-- `_redirect_to_idp`. -/
def redirectToIdp (g : Signing) (origin : Str) (clientId : Token)
    (redirectUri codeChallenge codeChallengeMethod mcpState : Str) : Response :=
  ⟨302, .identityProvider
    (.pending clientId redirectUri codeChallenge codeChallengeMethod mcpState g.now
      (g.now + pendingStateTtlSeconds))
    (origin ++ callbackPath), [], []⟩

/-! ## Handlers -/

/-- A string of at most `_MAX_CLIENT_METADATA_LENGTH` characters, otherwise nothing. -/
def clientMetadata (value : Option Str) : Option Str :=
  value.filter fun v => decide (v.length ≤ maxClientMetadataLength)

/-- `POST /register`. -/
def register (config : Config) (g : Signing) : RegisterBody → Response
  | .invalidJson => oauthError "invalid_request" "Request body must be valid JSON." 400
  | .notAnObject => raised
  | .object redirectUris clientName clientUri =>
    match redirectUris with
    | none | some [] =>
      oauthError "invalid_request"
        "The 'redirect_uris' field is required and must be a non-empty list." 400
    | some redirectUris =>
      let clientId := .client redirectUris (allSkipConsent config redirectUris)
        (clientMetadata clientName) (clientMetadata clientUri) g.now (g.now + clientTtlSeconds)
      ⟨201, .registered clientId redirectUris, [], []⟩

/-- The client's own part of the consent screen: its name and its URI. -/
def clientDisplay : Token → Option Str × Option Str
  | .client _ _ clientName clientUri _ _ => (clientName.filter fun n => decide (n ≠ []), clientUri)
  | _ => (none, none)

/-- Whether a client skips the consent screen. -/
def consentSkipped : Token → Bool
  | .browserClient .. => true
  | .client _ firstParty _ _ _ _ => firstParty
  | _ => false

/-- What `/authorize` does when the request is valid but consent is not skipped: the consent
screen. -/
def askForConsent (config : Config) (lib : Library) (g : Signing) (ext : External)
    (origin : Str) (clientId : Token) (redirectUri codeChallenge codeChallengeMethod mcpState : Str) :
    Response :=
  let (clientName, clientUri) := clientDisplay clientId
  -- both calls of `urlparse` can raise
  match lib.urlparse redirectUri,
      (match clientUri with
        | none => some none
        | some uri => (lib.urlparse uri).map some) with
  | some parsedRedirect, some parsedClientUri =>
    let page := {
      applicationTitle := config.applicationTitle
      clientName := clientName
      clientUri := clientUri
      clientUriSafe := parsedClientUri.any fun p =>
        decide (p.scheme = "http".toList) || decide (p.scheme = "https".toList)
      redirectUri := redirectUri
      redirectOrigin :=
        parsedRedirect.scheme ++ "://".toList ++ withoutUserinfo parsedRedirect.netloc
      consentToken := .consent clientId redirectUri codeChallenge codeChallengeMethod mcpState
        ext.nonce g.now (g.now + pendingStateTtlSeconds)
      consentPath := consentPath }
    ⟨200, .consentPage page,
      [⟨consentCsrfCookie, .text ext.nonce, pendingStateTtlSeconds, consentPath,
        "https://".toList.isPrefixOf origin, true, .strict⟩], []⟩
  | _, _ => raised

/-- What `/authorize` does with a valid request. -/
def authorizeClient (config : Config) (lib : Library) (g : Signing) (ext : External)
    (request : AuthorizeRequest) (clientId : Token)
    (redirectUri codeChallenge codeChallengeMethod : Str) : Response :=
  let mcpState := request.state.getD []
  if consentSkipped clientId then
    match verifySessionCookie g request.sessionCookie with
    | some existingUserId =>
      redirectWithAuthCode g existingUserId clientId redirectUri codeChallenge mcpState
    | none =>
      redirectToIdp g request.origin clientId redirectUri codeChallenge codeChallengeMethod
        mcpState
  else
    askForConsent config lib g ext request.origin clientId redirectUri codeChallenge
      codeChallengeMethod mcpState

/-- `GET /authorize`. -/
def authorize (config : Config) (lib : Library) (g : Signing) (ext : External)
    (request : AuthorizeRequest) : Response :=
  if request.responseType ≠ some "code".toList then
    oauthError "unsupported_response_type" "Only 'code' response_type is supported." 400
  else
    match request.clientId with
    | none => oauthError "invalid_request" "The 'client_id' parameter is required." 400
    | some clientIdToken =>
      match g.verifyJwt clientIdToken [.client, .browserClient] with
      | none => oauthError "invalid_client" "The 'client_id' is invalid." 400
      | some clientData =>
        match request.redirectUri with
        | none => oauthError "invalid_request" "The 'redirect_uri' parameter is required." 400
        | some redirectUri =>
          if some redirectUri ∉ clientData.redirectUris then
            oauthError "invalid_request" "The 'redirect_uri' is not registered for this client." 400
          else
            match request.codeChallenge, request.codeChallengeMethod with
            | some codeChallenge, some codeChallengeMethod =>
              if codeChallengeMethod ≠ "S256".toList then
                oauthError "invalid_request"
                  "PKCE is required: provide 'code_challenge' with 'code_challenge_method=S256'."
                  400
              else
                authorizeClient config lib g ext request clientData redirectUri codeChallenge
                  codeChallengeMethod
            | _, _ =>
              oauthError "invalid_request"
                "PKCE is required: provide 'code_challenge' with 'code_challenge_method=S256'."
                400

/-- `POST /consent`. -/
def consent (g : Signing) (request : ConsentRequest) : Response :=
  match request.consent with
  | none => oauthError "invalid_request" "The 'consent' parameter is required." 400
  | some consentToken =>
    match g.verifyJwt consentToken [.consent] with
    | some (.consent clientId redirectUri codeChallenge codeChallengeMethod mcpState nonce _ _) =>
      -- A cookie that is not ASCII makes the comparison raise.
      match request.consentCsrfCookie.elim (some false) (compareDigest · nonce) with
      | none => raised
      | some false =>
        oauthError "access_denied" "Consent could not be verified; please restart the sign-in." 403
      | some true =>
        if request.action ≠ some "approve".toList then
          deleteCookie (redirectDenied redirectUri mcpState) consentCsrfCookie consentPath
        else
          match verifySessionCookie g request.sessionCookie with
          | some existingUserId =>
            deleteCookie
              (redirectWithAuthCode g existingUserId clientId redirectUri codeChallenge mcpState)
              consentCsrfCookie consentPath
          | none =>
            deleteCookie
              (redirectToIdp g request.origin clientId redirectUri codeChallenge
                codeChallengeMethod mcpState)
              consentCsrfCookie consentPath
    | _ => oauthError "invalid_request" "Invalid or expired consent request." 400

/-- What `/callback` does when the identity provider reports an error. -/
def callbackError (g : Signing) (idpError : Str) (state : Option Token) : Response :=
  match state.bind fun stateToken => g.verifyJwt stateToken [.pending] with
  | some (.pending _ redirectUri _ _ mcpState _ _) => redirectDenied redirectUri mcpState
  | _ =>
    ⟨400, .error "access_denied".toList
      ("Identity provider returned error: ".toList ++ idpError), [], []⟩

/-- `GET /callback`. -/
def callback (config : Config) (g : Signing) (ext : External) (request : CallbackRequest) :
    Response :=
  match request.error with
  | some idpError => callbackError g idpError request.state
  | none =>
    match request.state with
    | none => oauthError "invalid_request" "Missing 'state' parameter." 400
    | some stateToken =>
      match g.verifyJwt stateToken [.pending] with
      | some (.pending clientId redirectUri codeChallenge _ mcpState _ _) =>
        match request.code with
        | none =>
          oauthError "invalid_request" "Missing 'code' parameter from identity provider." 400
        | some idpCode =>
          match ext.exchangeCode idpCode with
          | none => redirectDenied redirectUri mcpState
          | some userId =>
            let response :=
              redirectWithAuthCode g userId clientId redirectUri codeChallenge mcpState
            match mintTokensForUser config g ext userId clientId request.origin with
            | none => raised
            | some tokens => setSessionCookies response tokens
      | _ => oauthError "invalid_request" "Invalid or expired state parameter." 400

/-- The answer with new tokens. -/
def tokenResponse : Option TokenResponse → Response
  | none => raised
  | some tokens => ⟨200, .tokens tokens, [], []⟩

/-- `_token_authorization_code`. -/
def tokenAuthorizationCode (config : Config) (lib : Library) (g : Signing) (ext : External)
    (form : TokenRequest) : Response :=
  match form.code with
  | none => oauthError "invalid_request" "The 'code' parameter is required." 400
  | some codeToken =>
    match g.verifyJwt codeToken [.code] with
    | some (.code sub clientId redirectUri codeChallenge _ _) =>
      if form.clientId ≠ some clientId then
        oauthError "invalid_grant" "The 'client_id' does not match the authorization code." 400
      else if form.redirectUri ≠ some redirectUri then
        oauthError "invalid_grant" "The 'redirect_uri' does not match the authorization code." 400
      else
        match form.codeVerifier with
        | none => oauthError "invalid_request" "The 'code_verifier' parameter is required." 400
        | some codeVerifier =>
          if computeCodeChallenge lib codeVerifier ≠ codeChallenge then
            oauthError "invalid_grant" "PKCE verification failed." 400
          else tokenResponse (mintTokensForUser config g ext sub clientId form.origin)
    | _ => oauthError "invalid_grant" "The authorization code is invalid or expired." 400

/-- `_token_refresh`. -/
def tokenRefresh (config : Config) (g : Signing) (ext : External) (form : TokenRequest) :
    Response :=
  match form.refreshToken with
  | none => oauthError "invalid_request" "The 'refresh_token' parameter is required." 400
  | some refreshToken =>
    match g.verifyJwt refreshToken [.refresh] with
    | some (.refresh sub clientId _ _) =>
      if form.clientId ≠ some clientId then
        oauthError "invalid_grant" "The 'client_id' does not match the refresh token." 400
      else tokenResponse (mintTokensForUser config g ext sub clientId form.origin)
    | _ => oauthError "invalid_grant" "The refresh token is invalid or expired." 400

/-- `POST /token`. -/
def token (config : Config) (lib : Library) (g : Signing) (ext : External) (form : TokenRequest) :
    Response :=
  if form.grantType = some "authorization_code".toList then
    tokenAuthorizationCode config lib g ext form
  else if form.grantType = some "refresh_token".toList then tokenRefresh config g ext form
  else
    oauthError "unsupported_grant_type"
      "Supported grant types: 'authorization_code', 'refresh_token'." 400

/-- `GET /start`. -/
def start (config : Config) (lib : Library) (g : Signing) (ext : External)
    (request : StartRequest) : Response :=
  let returnTo := request.returnTo.getD "/".toList
  if isValidReturnTo config lib returnTo request.origin then
    let finishUri := request.origin ++ finishPath
    let browserClientId := .browserClient finishUri g.now (g.now + pendingStateTtlSeconds)
    let pendingValue :=
      .pendingBrowser ext.codeVerifier returnTo g.now (g.now + pendingStateTtlSeconds)
    ⟨302, .redirect (request.origin ++ authorizePath)
      [("response_type".toList, .text "code".toList),
        ("client_id".toList, browserClientId),
        ("redirect_uri".toList, .text finishUri),
        ("code_challenge".toList, .text (computeCodeChallenge lib ext.codeVerifier)),
        ("code_challenge_method".toList, .text "S256".toList),
        ("state".toList, .text ext.state)],
      [⟨pendingCookieName, pendingValue, pendingStateTtlSeconds, oauthPathPrefix, true, true,
        .lax⟩], []⟩
  else
    oauthError "invalid_request"
      "The 'return_to' parameter must be a same-origin path or an absolute http(s) URL." 400

/-- `_finish_error`. -/
def finishError (error description : String) : Response :=
  deleteCookie (oauthError error description 400) pendingCookieName oauthPathPrefix

/-- `GET /finish`. -/
def finish (config : Config) (lib : Library) (g : Signing) (ext : External)
    (request : FinishRequest) : Response :=
  match request.error with
  | some idpError =>
    -- `params.get("error_description") or ..`
    let description := match request.errorDescription with
      | none | some [] => "Identity provider returned an error.".toList
      | some description => description
    deleteCookie ⟨400, .error idpError description, [], []⟩ pendingCookieName oauthPathPrefix
  | none =>
    match request.code, request.pendingCookie with
    | none, _ => finishError "invalid_request" "Missing 'code' parameter."
    | some _, none =>
      finishError "invalid_request"
        "Missing pending-flow cookie. The sign-in flow may have expired; try signing in again."
    | some codeToken, some pendingValue =>
      match g.verifyJwt pendingValue [.pendingBrowser] with
      | some (.pendingBrowser codeVerifier returnTo _ _) =>
        match g.verifyJwt codeToken [.code] with
        | some (.code sub clientId _ codeChallenge _ _) =>
          if computeCodeChallenge lib codeVerifier ≠ codeChallenge then
            finishError "invalid_grant" "PKCE verification failed."
          else
            match mintTokensForUser config g ext sub clientId request.origin with
            | none => raised
            | some tokens =>
              deleteCookie (setSessionCookies (redirectResponse returnTo []) tokens)
                pendingCookieName oauthPathPrefix
        | _ => finishError "invalid_grant" "Authorization code is invalid or expired."
      | _ =>
        finishError "invalid_request"
          "Invalid or expired pending-flow cookie. Try signing in again."

/-- The handler of a request. -/
def handle (config : Config) (lib : Library) (g : Signing) (ext : External) : Request → Response
  | .register body => register config g body
  | .authorize request => authorize config lib g ext request
  | .consent request => consent g request
  | .callback request => callback config g ext request
  | .token form => token config lib g ext form
  | .start request => start config lib g ext request
  | .finish request => finish config lib g ext request

/-! ## PKCE -/

theorem rstrip_cons {c a : Char} {s : Str} (h : a ≠ c) : rstrip c (a :: s) = a :: rstrip c s := by
  show (if a = c ∧ rstrip c s = [] then [] else a :: rstrip c s) = a :: rstrip c s
  rw [if_neg fun hac => h hac.1]

/-- What the padding was can be told from the length of what is left. -/
theorem rstrip_urlsafeB64encode (bs : List Byte) :
    urlsafeB64encode bs = rstrip '=' (urlsafeB64encode bs) ++
      List.replicate ((4 - (rstrip '=' (urlsafeB64encode bs)).length % 4) % 4) '=' := by
  induction bs using urlsafeB64encode.induct with
  | case1 => rfl
  | case2 a =>
    have ha := a.isLt
    rw [urlsafeB64encode, rstrip_cons (base64Char_ne_pad (by omega)),
      rstrip_cons (base64Char_ne_pad (by omega))]
    rfl
  | case3 a b =>
    have ha := a.isLt
    have hb := b.isLt
    rw [urlsafeB64encode, rstrip_cons (base64Char_ne_pad (by omega)),
      rstrip_cons (base64Char_ne_pad (by omega)), rstrip_cons (base64Char_ne_pad (by omega))]
    rfl
  | case4 a b c rest ih =>
    have ha := a.isLt
    have hb := b.isLt
    have hc := c.isLt
    rw [urlsafeB64encode, rstrip_cons (base64Char_ne_pad (by omega)),
      rstrip_cons (base64Char_ne_pad (by omega)), rstrip_cons (base64Char_ne_pad (by omega)),
      rstrip_cons (base64Char_ne_pad (by omega))]
    simp only [List.length_cons, List.cons_append]
    have hlen : ∀ n : Nat, (4 - (n + 1 + 1 + 1 + 1) % 4) % 4 = (4 - n % 4) % 4 := by omega
    rw [hlen, ← ih]

theorem urlsafeB64encode_injective : Function.Injective urlsafeB64encode := by
  intro bs bs' h
  have hdecode := congrArg urlsafeB64decode h
  rw [urlsafeB64decode_encode, urlsafeB64decode_encode, Option.some.injEq] at hdecode
  exact List.map_injective_iff.mpr Fin.val_injective hdecode

/-- As long as SHA-256 tells two verifiers apart, so do their challenges. -/
theorem computeCodeChallenge_injective {lib : Library} (hsha256 : Function.Injective lib.sha256) :
    Function.Injective (computeCodeChallenge lib) := by
  intro v v' h
  apply hsha256
  apply urlsafeB64encode_injective
  rw [rstrip_urlsafeB64encode (lib.sha256 v), rstrip_urlsafeB64encode (lib.sha256 v')]
  unfold computeCodeChallenge at h
  rw [h]

end Reboot.Auth
