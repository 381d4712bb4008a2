import Reboot.Auth.OAuthServer
import Reboot.Lib.Run

/-!
# Browsers, clients and the OAuth server

The OAuth server (`Reboot.Auth.OAuthServer`) among any number of browsers and other clients:
each sends any request at any time, with any parameters and cookies, those that were handed
to another one included. Kept is the `history`, the exchanges of a request for its response
and the sign-ins at the identity provider, the latest first.

`Promised` says of a history that every code and token in it was handed out with reason:
by a redirect to where the user's browser let it go, at the end of a flow that this browser
started, or in exchange for one that was handed out before, presented with what it was issued
for. The consent screen is there for the first of these.

`StepOk` is what the server has no means to check: the `state` that comes back from the
identity provider was given to that very browser, the browser client in `/authorize` comes
from its own `/start`, and a session cookie, a code of the identity provider and what is
handed to `/finish` are the browser's own.

Mirroring notes:
- Nothing is kept from anybody: a token that was handed out may be presented by everyone. That
  no JWT is forged is in `Signing.issued`, which are the tokens of the history.
- `/refresh`, `/signout` and `/whoami` are no part of it.
-/

namespace Reboot.Auth

open Reboot.Lib

/-! ## The system -/

/-- A browser, or another program that sends requests. -/
abbrev Browser := Nat

/-- What has happened. -/
inductive Event
  /-- A user signed in at the identity provider, which gave the browser a code. -/
  | signedIn (browser : Browser) (user : UserId) (idpCode : Str)
  | exchange (browser : Browser) (request : Request) (response : Response)
  deriving DecidableEq

structure State where
  now : Nat
  history : List Event
  deriving DecidableEq

def State.init : State := ⟨0, []⟩

/-- What an exchange sends. -/
def Event.sent : Event → List Token
  | .signedIn _ _ _ => []
  | .exchange _ _ response => response.sent

/-- The tokens handed out so far. -/
def issued (h : List Event) : List Token := h.flatMap Event.sent

def State.signing (s : State) : Signing := ⟨s.now, issued s.history⟩

/-- The user the identity provider has signed in for a code. -/
def signedInFor (idpCode : Str) (h : List Event) : Option UserId :=
  h.findSome? fun
    | .signedIn _ user idpCode' => if idpCode' = idpCode then some user else none
    | .exchange .. => none

/-- What is random in a request, and what fails in it. -/
structure Draw where
  nonce : Str
  codeVerifier : Str
  state : Str
  exchangeFails : Bool
  authenticatedRaises : Bool
  deriving DecidableEq

/-- The identity provider is honest: it knows a code for the user who signed in. -/
def Draw.external (draw : Draw) (h : List Event) : External where
  nonce := draw.nonce
  codeVerifier := draw.codeVerifier
  state := draw.state
  exchangeCode idpCode := if draw.exchangeFails then none else signedInFor idpCode h
  authenticatedRaises := draw.authenticatedRaises

inductive Act
  | tick (seconds : Nat)
  | signIn (browser : Browser) (user : UserId) (idpCode : Str)
  | request (browser : Browser) (request : Request) (draw : Draw)
  deriving DecidableEq

/-- The response to a request. -/
def respond (config : Config) (lib : Library) (s : State) (request : Request) (draw : Draw) :
    Response :=
  handle config lib s.signing (draw.external s.history) request

def step (config : Config) (lib : Library) (s : State) : Act → Option State
  | .tick seconds => some { s with now := s.now + seconds }
  | .signIn browser user idpCode =>
    -- A code of the identity provider is for one sign-in.
    if (signedInFor idpCode s.history).isSome then none
    else some { s with history := .signedIn browser user idpCode :: s.history }
  | .request browser request draw =>
    some { s with
      history := .exchange browser request (respond config lib s request draw) :: s.history }

/-! ## What a history says -/

/-- The event is a sign-in of the user with the browser. -/
def Event.SignsIn (browser : Browser) (user : UserId) : Event → Prop
  | .signedIn browser' user' _ => browser' = browser ∧ user' = user
  | .exchange .. => False

/-- The browser is one the user has signed in with. -/
def SignedIn (h : List Event) (browser : Browser) (user : UserId) : Prop :=
  ∃ e ∈ h, e.SignsIn browser user

/-- The event sends the token to the browser. -/
def Event.Gives (browser : Browser) (token : Token) : Event → Prop
  | .signedIn _ _ _ => False
  | .exchange browser' _ response => browser' = browser ∧ token ∈ response.sent

def Given (h : List Event) (browser : Browser) (token : Token) : Prop :=
  ∃ e ∈ h, e.Gives browser token

/-- The event is a `/start` of the browser that answers with the token. -/
def Event.Starts (browser : Browser) (token : Token) : Event → Prop
  | .exchange browser' (.start _) response => browser' = browser ∧ token ∈ response.sent
  | _ => False

def Started (h : List Event) (browser : Browser) (token : Token) : Prop :=
  ∃ e ∈ h, e.Starts browser token

/-- The request posts consent, with the nonce of the consent token as its cookie. -/
def ConsentRequest.Approves (request : ConsentRequest) (clientId : Token) (redirectUri : Str) :
    Prop :=
  request.action = some "approve".toList ∧
    match request.consent with
    | some (.consent clientId' redirectUri' _ _ _ nonce _ _) =>
      clientId' = clientId ∧ redirectUri' = redirectUri ∧ request.consentCsrfCookie = some nonce
    | _ => False

/-- The event is the browser's consent, which the server accepts. -/
def Event.Consents (browser : Browser) (clientId : Token) (redirectUri : Str) : Event → Prop
  | .exchange browser' (.consent request) response =>
    browser' = browser ∧ response.statusCode = 302 ∧ request.Approves clientId redirectUri
  | _ => False

def Consented (h : List Event) (browser : Browser) (clientId : Token) (redirectUri : Str) : Prop :=
  ∃ e ∈ h, e.Consents browser clientId redirectUri

/-- Every redirect URI of the client is one that skips consent. -/
def SkipsConsent (config : Config) : Token → Prop
  | .client redirectUris .. => allSkipConsent config redirectUris = true
  | _ => False

/-- The flow of a client in a browser was let go: by consent, by the list of redirect URIs
that skip it, or because the browser started it for itself. -/
def FlowOk (config : Config) (h : List Event) (browser : Browser) (clientId : Token)
    (redirectUri : Str) : Prop :=
  Consented h browser clientId redirectUri ∨ SkipsConsent config clientId ∨
    Started h browser clientId

/-- A user's browser let a code go to a redirect URI of the client. -/
def LetGo (config : Config) (h : List Event) (browser : Browser) (user : UserId)
    (clientId : Token) (redirectUri : Str) : Prop :=
  SignedIn h browser user ∧ some redirectUri ∈ clientId.redirectUris ∧
    FlowOk config h browser clientId redirectUri

/-- The user whose identity a token carries. -/
def Token.owner : Token → Option UserId
  | .code sub .. => some sub
  | .access sub .. => some sub
  | .refresh sub .. => some sub
  | _ => none

/-- The token is a code of the user, whose browser let it go to the URL. -/
def Token.LetGoTo (config : Config) (h : List Event) (browser : Browser) (user : UserId)
    (url : Str) : Token → Prop
  | .code sub clientId redirectUri _ _ _ =>
    sub = user ∧ redirectUri = url ∧ LetGo config h browser user clientId redirectUri
  | _ => False

/-- The response redirects to where the user's browser let the code go. -/
def Redirected (config : Config) (h : List Event) (browser : Browser) (user : UserId)
    (response : Response) : Prop :=
  match response.body with
  | .redirect url query => ∃ p ∈ query, p.2.LetGoTo config h browser user url
  | _ => False

/-- The request is the end of a flow that the user's browser started. -/
def Finished (h : List Event) (browser : Browser) (user : UserId) (request : Request) : Prop :=
  match request with
  | .finish request =>
    SignedIn h browser user ∧ ∃ token ∈ request.pendingCookie, Started h browser token
  | _ => False

/-- The token is a code of the user, presented with what it was issued for. -/
def Token.CodeFor (lib : Library) (user : UserId) (form : TokenRequest) : Token → Prop
  | .code sub clientId redirectUri codeChallenge _ _ =>
    sub = user ∧ form.clientId = some clientId ∧ form.redirectUri = some redirectUri ∧
      ∃ codeVerifier ∈ form.codeVerifier, computeCodeChallenge lib codeVerifier = codeChallenge
  | _ => False

/-- The token is a refresh token of the user, presented for the client it was issued for. -/
def Token.RefreshFor (user : UserId) (form : TokenRequest) : Token → Prop
  | .refresh sub clientId _ _ => sub = user ∧ form.clientId = some clientId
  | _ => False

/-- A code that was handed out is presented with what it was issued for. -/
def RedeemsCode (lib : Library) (h : List Event) (user : UserId) (form : TokenRequest) : Prop :=
  ∃ codeToken ∈ form.code, codeToken ∈ issued h ∧ codeToken.CodeFor lib user form

/-- A refresh token that was handed out is presented for the client it was issued for. -/
def RedeemsRefresh (h : List Event) (user : UserId) (form : TokenRequest) : Prop :=
  ∃ refreshToken ∈ form.refreshToken, refreshToken ∈ issued h ∧ refreshToken.RefreshFor user form

/-- The request exchanges a user's code or refresh token for new tokens. -/
def Redeemed (lib : Library) (h : List Event) (user : UserId) (request : Request) : Prop :=
  match request with
  | .token form => RedeemsCode lib h user form ∨ RedeemsRefresh h user form
  | _ => False

/-- What an exchange hands out in a user's name is handed out with reason. -/
def Justified (config : Config) (lib : Library) (h : List Event) (browser : Browser)
    (request : Request) (response : Response) : Prop :=
  ∀ token ∈ response.sent, ∀ user ∈ token.owner,
    Redirected config h browser user response ∨ Finished h browser user request ∨
      Redeemed lib h user request

/-- Every exchange of a history was justified when it took place. -/
def Promised (config : Config) (lib : Library) : List Event → Prop
  | [] => True
  | .signedIn _ _ _ :: h => Promised config lib h
  | .exchange browser request response :: h =>
    Justified config lib (.exchange browser request response :: h) browser request response ∧
      Promised config lib h

/-- The token endpoint has redeemed a code with the client and the redirect URI that it was
issued for, and no other verifier than the one its challenge was made of. -/
def Event.UsesOwnVerifier (lib : Library) : Event → Prop
  | .exchange _ (.token form) response =>
    ∀ sub clientId redirectUri codeChallenge iat exp,
      form.grantType = some "authorization_code".toList →
      form.code = some (.code sub clientId redirectUri codeChallenge iat exp) →
      response.sent ≠ [] →
      form.clientId = some clientId ∧ form.redirectUri = some redirectUri ∧
        ∀ codeVerifier, computeCodeChallenge lib codeVerifier = codeChallenge →
          form.codeVerifier = some codeVerifier
  | _ => True

/-! ## The condition -/

/-- Whoever the session cookie is of signed in with this browser. -/
def SessionOwn (s : State) (browser : Browser) (sessionCookie : Option Token) : Prop :=
  ∀ user ∈ verifySessionCookie s.signing sessionCookie, SignedIn s.history browser user

/-- A browser client is used where `/start` handed it out. -/
def ClientOwn (s : State) (browser : Browser) : Option Token → Prop
  | some (.browserClient redirectUri iat exp) =>
    .browserClient redirectUri iat exp ∈ issued s.history →
      Started s.history browser (.browserClient redirectUri iat exp)
  | _ => True

/-- A `state` comes back in the browser that was sent to the identity provider with it, unless
its client skips consent. -/
def StateOwn (config : Config) (s : State) (browser : Browser) : Option Token → Prop
  | some (.pending clientId redirectUri codeChallenge codeChallengeMethod mcpState iat exp) =>
    .pending clientId redirectUri codeChallenge codeChallengeMethod mcpState iat exp ∈
        issued s.history →
      SkipsConsent config clientId ∨
        Given s.history browser
          (.pending clientId redirectUri codeChallenge codeChallengeMethod mcpState iat exp)
  | _ => True

/-- Whoever the identity provider's code is of signed in with this browser. -/
def IdpCodeOwn (s : State) (browser : Browser) (code : Option Str) : Prop :=
  ∀ idpCode ∈ code, ∀ user ∈ signedInFor idpCode s.history, SignedIn s.history browser user

/-- `/finish` gets a code of a user who signed in with this browser, and the cookie of a flow
this browser started. -/
def FinishOwn (s : State) (browser : Browser) (request : FinishRequest) : Prop :=
  (∀ codeToken ∈ request.code, ∀ user ∈ codeToken.owner,
    codeToken ∈ issued s.history → SignedIn s.history browser user) ∧
  ∀ pendingCookie ∈ request.pendingCookie,
    pendingCookie ∈ issued s.history → Started s.history browser pendingCookie

/-- What a browser presents as its own is its own. -/
def StepOk (config : Config) (s : State) : Act → Prop
  | .request browser (.authorize request) _ =>
    SessionOwn s browser request.sessionCookie ∧ ClientOwn s browser request.clientId
  | .request browser (.consent request) _ => SessionOwn s browser request.sessionCookie
  | .request browser (.callback request) _ =>
    StateOwn config s browser request.state ∧ IdpCodeOwn s browser request.code
  | .request browser (.finish request) _ => FinishOwn s browser request
  | _ => True

/-! ## Deciding -/

section

variable {config : Config} {lib : Library} {h : List Event} {s : State} {browser : Browser}
  {user : UserId} {token clientId : Token} {redirectUri url : Str} {form : TokenRequest}

instance : DecidablePred (Event.SignsIn browser user)
  | .signedIn .. => inferInstanceAs (Decidable (_ ∧ _))
  | .exchange .. => isFalse id

instance : DecidablePred (Event.Gives browser token)
  | .signedIn .. => isFalse id
  | .exchange .. => inferInstanceAs (Decidable (_ ∧ _))

instance : DecidablePred (Event.Starts browser token)
  | .exchange _ (.start _) _ => inferInstanceAs (Decidable (_ ∧ _))
  | .exchange _ (.register _) _ | .exchange _ (.authorize _) _ | .exchange _ (.consent _) _
  | .exchange _ (.callback _) _ | .exchange _ (.token _) _ | .exchange _ (.finish _) _
  | .signedIn .. => isFalse id

instance {request : ConsentRequest} : Decidable (request.Approves clientId redirectUri) := by
  unfold ConsentRequest.Approves
  split <;> infer_instance

instance : DecidablePred (Event.Consents browser clientId redirectUri)
  | .exchange _ (.consent _) _ => inferInstanceAs (Decidable (_ ∧ _ ∧ _))
  | .exchange _ (.register _) _ | .exchange _ (.authorize _) _ | .exchange _ (.start _) _
  | .exchange _ (.callback _) _ | .exchange _ (.token _) _ | .exchange _ (.finish _) _
  | .signedIn .. => isFalse id

instance : Decidable (SignedIn h browser user) := inferInstanceAs (Decidable (∃ e ∈ h, _))

instance : Decidable (Given h browser token) := inferInstanceAs (Decidable (∃ e ∈ h, _))

instance : Decidable (Started h browser token) := inferInstanceAs (Decidable (∃ e ∈ h, _))

instance : Decidable (Consented h browser clientId redirectUri) :=
  inferInstanceAs (Decidable (∃ e ∈ h, _))

instance : DecidablePred (SkipsConsent config)
  | .client .. => inferInstanceAs (Decidable (_ = true))
  | .text _ | .browserClient .. | .consent .. | .pending .. | .code .. | .access .. | .refresh ..
  | .pendingBrowser .. => isFalse id

instance : Decidable (LetGo config h browser user clientId redirectUri) :=
  inferInstanceAs (Decidable (_ ∧ _ ∧ (_ ∨ _ ∨ _)))

instance : DecidablePred (Token.LetGoTo config h browser user url)
  | .code .. => inferInstanceAs (Decidable (_ ∧ _ ∧ _))
  | .text _ | .client .. | .browserClient .. | .consent .. | .pending .. | .access .. | .refresh ..
  | .pendingBrowser .. => isFalse id

instance : DecidablePred (Token.CodeFor lib user form)
  | .code .. => inferInstanceAs (Decidable (_ ∧ _ ∧ _ ∧ ∃ v ∈ form.codeVerifier, _))
  | .text _ | .client .. | .browserClient .. | .consent .. | .pending .. | .access .. | .refresh ..
  | .pendingBrowser .. => isFalse id

instance : DecidablePred (Token.RefreshFor user form)
  | .refresh .. => inferInstanceAs (Decidable (_ ∧ _))
  | .text _ | .client .. | .browserClient .. | .consent .. | .pending .. | .access .. | .code ..
  | .pendingBrowser .. => isFalse id

instance {response : Response} : Decidable (Redirected config h browser user response) := by
  unfold Redirected
  split <;> infer_instance

instance {request : Request} : Decidable (Finished h browser user request) := by
  unfold Finished
  split <;> infer_instance

instance {request : Request} : Decidable (Redeemed lib h user request) := by
  unfold Redeemed RedeemsCode RedeemsRefresh
  split <;> infer_instance

instance {request : Request} {response : Response} :
    Decidable (Justified config lib h browser request response) := by
  unfold Justified
  infer_instance

instance Promised.decidable : DecidablePred (Promised config lib)
  | [] => isTrue trivial
  | .signedIn _ _ _ :: h => Promised.decidable h
  | .exchange .. :: h =>
    have := Promised.decidable h
    inferInstanceAs (Decidable (_ ∧ _))

instance {sessionCookie : Option Token} : Decidable (SessionOwn s browser sessionCookie) := by
  unfold SessionOwn
  infer_instance

instance {clientId : Option Token} : Decidable (ClientOwn s browser clientId) := by
  unfold ClientOwn
  split <;> infer_instance

instance {state : Option Token} : Decidable (StateOwn config s browser state) := by
  unfold StateOwn
  split <;> infer_instance

instance {code : Option Str} : Decidable (IdpCodeOwn s browser code) := by
  unfold IdpCodeOwn
  infer_instance

instance {request : FinishRequest} : Decidable (FinishOwn s browser request) := by
  unfold FinishOwn
  infer_instance

instance StepOk.decidable (s : State) (a : Act) : Decidable (StepOk config s a) := by
  unfold StepOk
  split <;> infer_instance

end

end Reboot.Auth
