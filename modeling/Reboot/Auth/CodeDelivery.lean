import Mathlib.Logic.Equiv.List
import Reboot.Auth.OAuthSystem

/-!
# Where authorization codes and tokens go

What a token of the server says about the requests that led to it is `TokenOk`: the redirect
URI in a consent token or a pending token is registered in its client, and a browser that was
given a pending token has consented to its flow, started it itself or uses a client that skips
consent. `Sound` says so of everything in a history.

> `delivered_where_let_go`: in every run in which browsers present their own (`StepOk`), all
> that was handed out was handed out with reason (`Promised`), and the token endpoint redeems a
> code only with the verifier, the client and the redirect URI it was issued for.

Each handler has a lemma `fine_..`, that its response is `Fine`: what it sends is sound and
justified. Most of its branches send nothing but text (`fine_of_plain`); the others redirect
with a code (`fine_redirectWithAuthCode`), to the identity provider (`fine_redirectToIdp`) or
hand out tokens.

`sent_where_not_let_go` shows two runs without the condition: a browser takes someone else's
`state` back from the identity provider, and a browser uses a browser client that was made
for another origin.
-/

namespace Reboot.Auth

open Reboot.Lib

/-! ## Growing histories -/

section

variable {config : Config} {h : List Event} {e : Event} {browser : Browser} {user : UserId}
  {token clientId : Token} {redirectUri : Str}

theorem exists_mem_cons_of {P : Event → Prop} (hp : ∃ e ∈ h, P e) : ∃ e' ∈ e :: h, P e' := by
  obtain ⟨e', he', hP⟩ := hp
  exact ⟨e', List.mem_cons_of_mem e he', hP⟩

theorem SignedIn.cons (hs : SignedIn h browser user) : SignedIn (e :: h) browser user :=
  exists_mem_cons_of hs

theorem FlowOk.cons (hf : FlowOk config h browser clientId redirectUri) :
    FlowOk config (e :: h) browser clientId redirectUri := by
  obtain hc | hs | hst := hf
  · exact .inl (exists_mem_cons_of hc)
  · exact .inr (.inl hs)
  · exact .inr (.inr (exists_mem_cons_of hst))

theorem issued_cons (ht : token ∈ issued h) : token ∈ issued (e :: h) := by
  rw [issued, List.flatMap_cons]
  exact List.mem_append_right _ ht

end

/-! ## What tokens say -/

/-- What can be relied on when a token comes back; `browser` is the one it was given to. -/
def TokenOk (config : Config) (h : List Event) (browser : Browser) : Token → Prop
  | .client redirectUris firstParty .. => firstParty = true → allSkipConsent config redirectUris
  | .consent clientId redirectUri .. => some redirectUri ∈ clientId.redirectUris
  | .pending clientId redirectUri .. =>
    some redirectUri ∈ clientId.redirectUris ∧ FlowOk config h browser clientId redirectUri
  | _ => True

/-- Every token in a history can be relied on. -/
def Sound (config : Config) (h : List Event) : Prop :=
  ∀ browser request response, .exchange browser request response ∈ h →
    ∀ token ∈ response.sent, TokenOk config h browser token

section

variable {config : Config} {h : List Event} {browser : Browser} {token clientId : Token}
  {redirectUri codeChallenge codeChallengeMethod mcpState nonce : Str} {iat exp : Nat}

theorem TokenOk.cons {e : Event} (ht : TokenOk config h browser token) :
    TokenOk config (e :: h) browser token := by
  cases token with
  | pending => exact ⟨ht.1, ht.2.cons⟩
  | client => exact ht
  | consent => exact ht
  | _ => trivial

theorem Sound.of_issued (hsound : Sound config h) (ht : token ∈ issued h) :
    ∃ browser, TokenOk config h browser token := by
  obtain ⟨e, he, hte⟩ := List.mem_flatMap.mp ht
  cases e with
  | signedIn => cases hte
  | exchange browser request response => exact ⟨browser, hsound _ _ _ he _ hte⟩

theorem Sound.of_given (hsound : Sound config h) (ht : Given h browser token) :
    TokenOk config h browser token := by
  obtain ⟨e, he, hgives⟩ := ht
  cases e with
  | signedIn => exact hgives.elim
  | exchange browser' request response =>
    obtain ⟨rfl, hsent⟩ := hgives
    exact hsound _ _ _ he _ hsent

/-- A client that skips the consent screen is one every URI of which skips consent, or the
browser client of `/start`. -/
theorem Sound.skips (hsound : Sound config h) (ht : token ∈ issued h)
    (hskipped : consentSkipped token = true) :
    SkipsConsent config token ∨ ∃ redirectUri iat exp, token = .browserClient redirectUri iat exp := by
  obtain ⟨browser, hok⟩ := hsound.of_issued ht
  cases token with
  | client redirectUris firstParty clientName clientUri iat exp => exact .inl (hok hskipped)
  | browserClient redirectUri iat exp => exact .inr ⟨_, _, _, rfl⟩
  | _ => cases hskipped

theorem Sound.consent (hsound : Sound config h)
    (ht : .consent clientId redirectUri codeChallenge codeChallengeMethod mcpState nonce iat exp ∈
      issued h) : some redirectUri ∈ clientId.redirectUris :=
  (hsound.of_issued ht).choose_spec

theorem Sound.pending (hsound : Sound config h)
    (ht : .pending clientId redirectUri codeChallenge codeChallengeMethod mcpState iat exp ∈
      issued h) : some redirectUri ∈ clientId.redirectUris :=
  (hsound.of_issued ht).choose_spec.1

end

/-! ## Verifying -/

section

variable {g : Signing} {token token' : Token} {types : List JwtType}

/-- A JWT that verifies was handed out and is of a kind that is expected. -/
theorem verifyJwt_eq_some (hv : g.verifyJwt token types = some token') :
    token' = token ∧ token ∈ g.issued := by
  unfold Signing.verifyJwt at hv
  split at hv
  next => cases hv
  next hissued =>
    split at hv
    next => cases hv
    next =>
      split at hv
      next => cases hv
      next =>
        split at hv
        next => cases hv
        next =>
          split at hv
          next => exact ⟨(Option.some.inj hv).symm, Decidable.not_not.mp hissued⟩
          next => cases hv

end

/-! ## Fine responses -/

section

variable {config : Config} {lib : Library} {h : List Event} {browser : Browser}
  {request : Request} {response : Response}

/-- What a response sends is sound and justified. -/
structure Fine (config : Config) (lib : Library) (h : List Event) (browser : Browser)
    (request : Request) (response : Response) : Prop where
  sound : ∀ token ∈ response.sent, TokenOk config h browser token
  justified : Justified config lib h browser request response

/-- A response without a token. -/
def Response.Plain (response : Response) : Prop := ∀ token ∈ response.sent, ∃ s, token = .text s

theorem fine_of_plain (hplain : response.Plain) : Fine config lib h browser request response where
  sound token ht := by
    obtain ⟨s, rfl⟩ := hplain token ht
    trivial
  justified token ht user huser := by
    obtain ⟨s, rfl⟩ := hplain token ht
    cases huser

theorem plain_oauthError {error description : String} {statusCode : Nat} :
    (oauthError error description statusCode).Plain := by
  intro token ht
  cases ht

theorem plain_raised : raised.Plain := by
  intro token ht
  cases ht

theorem plain_redirectDenied {redirectUri mcpState : Str} :
    (redirectDenied redirectUri mcpState).Plain := by
  intro token ht
  have ht' : token ∈ [Token.text "access_denied".toList, .text mcpState] := ht
  simp only [List.mem_cons, List.not_mem_nil, or_false] at ht'
  obtain rfl | rfl := ht'
  · exact ⟨_, rfl⟩
  · exact ⟨_, rfl⟩

theorem plain_deleteCookie {key path : Str} (hplain : response.Plain) :
    (deleteCookie response key path).Plain := hplain

theorem fine_deleteCookie {key path : Str} (hfine : Fine config lib h browser request response) :
    Fine config lib h browser request (deleteCookie response key path) :=
  ⟨hfine.sound, hfine.justified⟩

variable {g : Signing} {user : UserId} {clientId : Token}
  {redirectUri codeChallenge codeChallengeMethod mcpState origin : Str}

theorem redirected_withAuthCode {cookies : List SetCookie} {deleted : List (Str × Str)}
    (hgo : LetGo config h browser user clientId redirectUri) :
    Redirected config h browser user
      { redirectWithAuthCode g user clientId redirectUri codeChallenge mcpState with
        cookies := cookies, deletedCookies := deleted } :=
  ⟨_, List.mem_cons_self, rfl, rfl, hgo⟩

theorem fine_redirectWithAuthCode (hgo : LetGo config h browser user clientId redirectUri) :
    Fine config lib h browser request
      (redirectWithAuthCode g user clientId redirectUri codeChallenge mcpState) where
  sound token ht := by
    have ht' : token ∈ [Token.code .., .text mcpState] := ht
    simp only [List.mem_cons, List.not_mem_nil, or_false] at ht'
    obtain rfl | rfl := ht' <;> trivial
  justified token ht user' huser := by
    have ht' : token ∈ [Token.code .., .text mcpState] := ht
    simp only [List.mem_cons, List.not_mem_nil, or_false] at ht'
    obtain rfl | rfl := ht'
    · cases huser
      exact .inl (redirected_withAuthCode hgo)
    · cases huser

theorem fine_redirectToIdp (hregistered : some redirectUri ∈ clientId.redirectUris)
    (hflow : FlowOk config h browser clientId redirectUri) :
    Fine config lib h browser request
      (redirectToIdp g origin clientId redirectUri codeChallenge codeChallengeMethod mcpState) where
  sound token ht := by
    have ht' : token ∈ [Token.pending ..] := ht
    rw [List.mem_singleton] at ht'
    subst ht'
    exact ⟨hregistered, hflow⟩
  justified token ht user huser := by
    have ht' : token ∈ [Token.pending ..] := ht
    rw [List.mem_singleton] at ht'
    subst ht'
    cases huser

variable {ext : External} {minted : TokenResponse} {userId : UserId}

/-- What is minted for a user carries the identity of this user. -/
theorem mintTokensForUser_owner
    (hmint : mintTokensForUser config g ext user clientId origin = some minted) :
    (∃ iat exp, minted.accessToken = .access user origin iat exp) ∧
      ∃ iat exp, minted.refreshToken = .refresh user clientId iat exp := by
  unfold mintTokensForUser at hmint
  split at hmint
  next => cases hmint
  next =>
    cases hmint
    exact ⟨⟨_, _, rfl⟩, ⟨_, _, rfl⟩⟩

/-- Tokens of a user may be handed out where the response is justified for this user. -/
theorem fine_of_minted (tokens : List Token) {user : UserId}
    (hmint : mintTokensForUser config g ext user clientId origin = some minted)
    (hsent : ∀ token ∈ response.sent, token ∈ tokens ∨ token = minted.accessToken ∨
      token = minted.refreshToken)
    (htokens : ∀ token ∈ tokens, TokenOk config h browser token ∧
      ∀ user' ∈ token.owner, user' = user)
    (hreason : Redirected config h browser user response ∨ Finished h browser user request ∨
      Redeemed lib h user request) : Fine config lib h browser request response := by
  obtain ⟨⟨iat, exp, haccess⟩, iat', exp', hrefresh⟩ := mintTokensForUser_owner hmint
  have hall : ∀ token ∈ response.sent, TokenOk config h browser token ∧
      ∀ user' ∈ token.owner, user' = user := by
    intro token ht
    obtain ht | rfl | rfl := hsent token ht
    · exact htokens token ht
    · rw [haccess]
      exact ⟨trivial, fun user' huser => (Option.some.inj huser).symm⟩
    · rw [hrefresh]
      exact ⟨trivial, fun user' huser => (Option.some.inj huser).symm⟩
  refine ⟨fun token ht => (hall token ht).1, fun token ht user' huser => ?_⟩
  rw [(hall token ht).2 user' huser]
  exact hreason

theorem fine_tokenResponse (hreason : Redeemed lib h user request) :
    Fine config lib h browser request
      (tokenResponse (mintTokensForUser config g ext user clientId origin)) := by
  cases hmint : mintTokensForUser config g ext user clientId origin with
  | none => exact fine_of_plain plain_raised
  | some minted =>
    refine fine_of_minted [] hmint ?_ (fun token ht => by simp at ht) (.inr (.inr hreason))
    intro token ht
    have ht' : token ∈ [minted.accessToken, minted.refreshToken] := ht
    simp only [List.mem_cons, List.not_mem_nil, or_false] at ht'
    exact .inr ht'

end

/-! ## The handlers -/

section

variable {config : Config} {lib : Library} {s : State} {browser : Browser} {ext : External}
  {response : Response} {e : Event}

/-- The register handler. -/
theorem fine_register {h : List Event} {request : Request} (body : RegisterBody) :
    Fine config lib h browser request (register config s.signing body) := by
  cases body with
  | invalidJson => exact fine_of_plain plain_oauthError
  | notAnObject => exact fine_of_plain plain_raised
  | object redirectUris clientName clientUri =>
    dsimp only [register]
    split
    next => exact fine_of_plain plain_oauthError
    next => exact fine_of_plain plain_oauthError
    next redirectUris _ =>
      refine ⟨fun token ht => ?_, fun token ht user huser => ?_⟩
      · have ht' : token ∈ [Token.client ..] := ht
        rw [List.mem_singleton] at ht'
        subst ht'
        exact fun hfirst => hfirst
      · have ht' : token ∈ [Token.client ..] := ht
        rw [List.mem_singleton] at ht'
        subst ht'
        cases huser

/-- The consent screen carries a consent token for a registered URI. -/
theorem fine_askForConsent {h : List Event} {request : Request} {clientId : Token}
    {origin redirectUri codeChallenge codeChallengeMethod mcpState : Str}
    (hregistered : some redirectUri ∈ clientId.redirectUris) :
    Fine config lib h browser request (askForConsent config lib s.signing ext origin clientId
      redirectUri codeChallenge codeChallengeMethod mcpState) := by
  dsimp only [askForConsent]
  split
  next =>
    have hcases : ∀ page : ConsentPage, ∀ cookie : SetCookie, ∀ token : Token,
        token ∈ Response.sent ⟨200, .consentPage page, [cookie], []⟩ →
          token = page.consentToken ∨ token = cookie.value := by
      intro page cookie token ht
      have ht' : token ∈ [page.consentToken, cookie.value] := ht
      simpa only [List.mem_cons, List.not_mem_nil, or_false] using ht'
    refine ⟨fun token ht => ?_, fun token ht user huser => ?_⟩
    · obtain rfl | rfl := hcases _ _ token ht
      · exact hregistered
      · trivial
    · obtain rfl | rfl := hcases _ _ token ht
      · cases huser
      · cases huser
  next => exact fine_of_plain plain_raised

/-- The authorize handler: where the consent screen is skipped, the client is one that skips
it or a browser client, which is of this very browser. -/
theorem fine_authorize {request : AuthorizeRequest} {request' : Request}
    (hsound : Sound config s.history) (hsession : SessionOwn s browser request.sessionCookie)
    (hclient : ClientOwn s browser request.clientId) :
    Fine config lib (e :: s.history) browser request'
      (authorize config lib s.signing ext request) := by
  dsimp only [authorize]
  split
  next => exact fine_of_plain plain_oauthError
  next =>
  split
  next => exact fine_of_plain plain_oauthError
  next clientIdToken hid =>
  split
  next => exact fine_of_plain plain_oauthError
  next clientData hverify =>
  obtain ⟨rfl, hissued⟩ := verifyJwt_eq_some hverify
  split
  next => exact fine_of_plain plain_oauthError
  next redirectUri _ =>
  split
  next => exact fine_of_plain plain_oauthError
  next hregistered =>
  rw [Decidable.not_not] at hregistered
  split
  next codeChallenge codeChallengeMethod _ _ =>
    split
    next => exact fine_of_plain plain_oauthError
    next =>
      dsimp only [authorizeClient]
      split
      next hskipped =>
        have hflow : FlowOk config s.history browser clientData redirectUri := by
          obtain hskips | ⟨uri, iat, exp, rfl⟩ := hsound.skips hissued hskipped
          · exact .inr (.inl hskips)
          · rw [hid] at hclient
            exact .inr (.inr (hclient hissued))
        split
        next existingUserId hcookie =>
          exact fine_redirectWithAuthCode
            ⟨(hsession existingUserId hcookie).cons, hregistered, hflow.cons⟩
        next => exact fine_redirectToIdp hregistered hflow.cons
      next => exact fine_askForConsent hregistered
  next => exact fine_of_plain plain_oauthError

theorem compareDigest_eq_true {a b : Str} (h : compareDigest a b = some true) : a = b := by
  unfold compareDigest at h
  split at h
  next => exact of_decide_eq_true (Option.some.inj h)
  next => cases h

/-- The consent handler: it answers with a redirect to the identity provider or with a code
only where the exchange itself is the browser's consent. -/
theorem fine_consent {request : ConsentRequest} (hsound : Sound config s.history)
    (hsession : SessionOwn s browser request.sessionCookie) :
    Fine config lib
      (.exchange browser (.consent request) (consent s.signing request) :: s.history) browser
      (.consent request) (consent s.signing request) := by
  -- The exchange is in the history it is judged by, so the response is named first.
  generalize hresponse : consent s.signing request = response
  have hresponse' := hresponse
  dsimp only [consent] at hresponse
  split at hresponse
  next => exact hresponse ▸ fine_of_plain plain_oauthError
  next consentToken htoken =>
  split at hresponse
  next clientId redirectUri codeChallenge codeChallengeMethod mcpState nonce iat exp hverify =>
    obtain ⟨rfl, hissued⟩ := verifyJwt_eq_some hverify
    have hregistered := hsound.consent hissued
    split at hresponse
    next => exact hresponse ▸ fine_of_plain plain_raised
    next => exact hresponse ▸ fine_of_plain plain_oauthError
    next hdigest =>
      have hcookie : request.consentCsrfCookie = some nonce := by
        cases hc : request.consentCsrfCookie with
        | none =>
          rw [hc] at hdigest
          cases hdigest
        | some cookie =>
          rw [hc] at hdigest
          rw [compareDigest_eq_true hdigest]
      split at hresponse
      next => exact hresponse ▸ fine_of_plain (plain_deleteCookie plain_redirectDenied)
      next haction =>
        have happroves : request.Approves clientId redirectUri := by
          refine ⟨Decidable.not_not.mp haction, ?_⟩
          rw [htoken]
          exact ⟨rfl, rfl, hcookie⟩
        have hflow : response.statusCode = 302 →
            FlowOk config (.exchange browser (.consent request) response :: s.history) browser
              clientId redirectUri := fun hstatus =>
          .inl ⟨_, List.mem_cons_self, rfl, hstatus, happroves⟩
        split at hresponse
        next existingUserId hsome =>
          have hflow' := hflow (by rw [← hresponse]; rfl)
          rw [← hresponse] at hflow' ⊢
          exact fine_deleteCookie (fine_redirectWithAuthCode
            ⟨(hsession existingUserId hsome).cons, hregistered, hflow'⟩)
        next =>
          have hflow' := hflow (by rw [← hresponse]; rfl)
          rw [← hresponse] at hflow' ⊢
          exact fine_deleteCookie (fine_redirectToIdp hregistered hflow')
  next => exact hresponse ▸ fine_of_plain plain_oauthError

/-- The callback handler: the pending token was given to this browser or is of a client that
skips consent, and whoever the identity provider names signed in with this browser. -/
theorem fine_callback {request : CallbackRequest} {request' : Request}
    (hsound : Sound config s.history) (hstate : StateOwn config s browser request.state)
    (huser : ∀ idpCode ∈ request.code, ∀ user ∈ ext.exchangeCode idpCode,
      SignedIn s.history browser user) :
    Fine config lib (e :: s.history) browser request'
      (callback config s.signing ext request) := by
  dsimp only [callback]
  split
  next idpError _ =>
    dsimp only [callbackError]
    split
    next => exact fine_of_plain plain_redirectDenied
    next => exact fine_of_plain fun token ht => by cases ht
  next =>
  split
  next => exact fine_of_plain plain_oauthError
  next stateToken htoken =>
  split
  next clientId redirectUri codeChallenge codeChallengeMethod mcpState iat exp hverify =>
    obtain ⟨rfl, hissued⟩ := verifyJwt_eq_some hverify
    rw [htoken] at hstate
    have hflow : FlowOk config s.history browser clientId redirectUri := by
      obtain hskips | hgiven := hstate hissued
      · exact .inr (.inl hskips)
      · exact (hsound.of_given hgiven).2
    split
    next => exact fine_of_plain plain_oauthError
    next idpCode hcode =>
      split
      next => exact fine_of_plain plain_redirectDenied
      next userId hexchange =>
        have hgo : LetGo config (e :: s.history) browser userId clientId redirectUri :=
          ⟨(huser idpCode hcode userId hexchange).cons, hsound.pending hissued, hflow.cons⟩
        split
        next => exact fine_of_plain plain_raised
        next minted hmint =>
          refine fine_of_minted
            ((redirectWithAuthCode s.signing userId clientId redirectUri codeChallenge
              mcpState).sent) hmint ?_ ?_ (.inl (redirected_withAuthCode hgo))
          · intro token ht
            have ht' : token ∈ (_ :: _ :: [minted.accessToken, minted.refreshToken]) := ht
            simp only [List.mem_cons, List.not_mem_nil, or_false] at ht'
            obtain rfl | rfl | hminted := ht'
            · exact .inl List.mem_cons_self
            · exact .inl (List.mem_cons_of_mem _ List.mem_cons_self)
            · exact .inr hminted
          · intro token ht
            have ht' : token ∈ [Token.code userId .., .text mcpState] := ht
            simp only [List.mem_cons, List.not_mem_nil, or_false] at ht'
            obtain rfl | rfl := ht'
            · exact ⟨trivial, fun user' hu => (Option.some.inj hu).symm⟩
            · exact ⟨trivial, fun user' hu => by cases hu⟩
  next => exact fine_of_plain plain_oauthError

/-- The token handler: what is presented was handed out and is for what is presented with it. -/
theorem fine_token {form : TokenRequest} :
    Fine config lib (e :: s.history) browser (.token form)
      (token config lib s.signing ext form) := by
  dsimp only [token]
  split
  next =>
    dsimp only [tokenAuthorizationCode]
    split
    next => exact fine_of_plain plain_oauthError
    next codeToken hcode =>
    split
    next sub clientId redirectUri codeChallenge iat exp hverify =>
      obtain ⟨rfl, hissued⟩ := verifyJwt_eq_some hverify
      split
      next => exact fine_of_plain plain_oauthError
      next hclient =>
      split
      next => exact fine_of_plain plain_oauthError
      next hredirect =>
      split
      next => exact fine_of_plain plain_oauthError
      next codeVerifier hverifier =>
      split
      next => exact fine_of_plain plain_oauthError
      next hchallenge =>
        exact fine_tokenResponse (.inl ⟨_, hcode, issued_cons hissued, rfl,
          Decidable.not_not.mp hclient, Decidable.not_not.mp hredirect, codeVerifier, hverifier,
          Decidable.not_not.mp hchallenge⟩)
    next => exact fine_of_plain plain_oauthError
  next =>
    split
    next =>
      dsimp only [tokenRefresh]
      split
      next => exact fine_of_plain plain_oauthError
      next refreshToken hrefresh =>
      split
      next sub clientId iat exp hverify =>
        obtain ⟨rfl, hissued⟩ := verifyJwt_eq_some hverify
        split
        next => exact fine_of_plain plain_oauthError
        next hclient =>
          exact fine_tokenResponse (.inr ⟨_, hrefresh, issued_cons hissued, rfl,
            Decidable.not_not.mp hclient⟩)
      next => exact fine_of_plain plain_oauthError
    next => exact fine_of_plain plain_oauthError

/-- The start handler hands out nothing in a user's name. -/
theorem fine_start {h : List Event} {request : StartRequest} {request' : Request} :
    Fine config lib h browser request' (start config lib s.signing ext request) := by
  dsimp only [start]
  split
  next =>
    have hall : ∀ token ∈ (start config lib s.signing ext request).sent,
        TokenOk config h browser token ∧ token.owner = none := by
      intro token ht
      dsimp only [start] at ht
      rw [if_pos ‹_›] at ht
      simp only [Response.sent, Body.sent, Response.cookieTokens, List.map_cons, List.map_nil,
        List.cons_append, List.nil_append, List.mem_cons, List.not_mem_nil, or_false] at ht
      obtain rfl | rfl | rfl | rfl | rfl | rfl | rfl := ht <;> exact ⟨trivial, rfl⟩
    dsimp only [start] at hall
    rw [if_pos ‹_›] at hall
    refine ⟨fun token ht => (hall token ht).1, fun token ht user huser => ?_⟩
    rw [(hall token ht).2] at huser
    cases huser
  next => exact fine_of_plain plain_oauthError

theorem plain_finishError {error description : String} :
    (finishError error description).Plain :=
  plain_deleteCookie plain_oauthError

/-- The finish handler: the code and the cookie of the flow are this browser's. -/
theorem fine_finish {request : FinishRequest} (hown : FinishOwn s browser request) :
    Fine config lib (e :: s.history) browser (.finish request)
      (finish config lib s.signing ext request) := by
  dsimp only [finish]
  split
  next => exact fine_of_plain fun token ht => nomatch ht
  next =>
  split
  next => exact fine_of_plain plain_finishError
  next => exact fine_of_plain plain_finishError
  next codeToken pendingValue hcode hpending =>
  split
  next codeVerifier returnTo iat exp hverifyPending =>
    obtain ⟨rfl, hissuedPending⟩ := verifyJwt_eq_some hverifyPending
    split
    next sub clientId redirectUri codeChallenge iat' exp' hverifyCode =>
      obtain ⟨rfl, hissuedCode⟩ := verifyJwt_eq_some hverifyCode
      split
      next => exact fine_of_plain plain_finishError
      next =>
        split
        next => exact fine_of_plain plain_raised
        next minted hmint =>
          have hsigned : SignedIn s.history browser sub :=
            hown.1 _ hcode sub rfl hissuedCode
          have hstarted := hown.2 _ hpending hissuedPending
          refine fine_of_minted [] hmint ?_ (fun token ht => nomatch ht)
            (.inr (.inl ⟨hsigned.cons, _, hpending, exists_mem_cons_of hstarted⟩))
          intro token ht
          have ht' : token ∈ [minted.accessToken, minted.refreshToken] := ht
          simp only [List.mem_cons, List.not_mem_nil, or_false] at ht'
          exact .inr ht'
    next => exact fine_of_plain plain_finishError
  next => exact fine_of_plain plain_finishError

end

/-! ## Runs -/

section

variable {config : Config} {lib : Library} {s s' : State} {browser : Browser} {draw : Draw}

/-- What the token endpoint redeems, it redeems for the client, the redirect URI and the
verifier that the code was issued for. -/
theorem usesOwnVerifier_token (hsha256 : Function.Injective lib.sha256) {g : Signing}
    {ext : External} (form : TokenRequest) :
    (Event.exchange browser (.token form) (token config lib g ext form)).UsesOwnVerifier lib := by
  intro sub clientId redirectUri codeChallenge iat exp hgrant hcode hsent
  dsimp only [token] at hsent
  rw [if_pos hgrant] at hsent
  dsimp only [tokenAuthorizationCode] at hsent
  rw [hcode] at hsent
  dsimp only at hsent
  split at hsent
  next sub' clientId' redirectUri' codeChallenge' _ _ hverify =>
    obtain ⟨hsame, -⟩ := verifyJwt_eq_some hverify
    cases hsame
    split at hsent
    next => exact absurd rfl hsent
    next hclient =>
    split at hsent
    next => exact absurd rfl hsent
    next hredirect =>
    split at hsent
    next => exact absurd rfl hsent
    next codeVerifier hverifier =>
    split at hsent
    next => exact absurd rfl hsent
    next hchallenge =>
      refine ⟨Decidable.not_not.mp hclient, Decidable.not_not.mp hredirect, fun v hv => ?_⟩
      have hsame : computeCodeChallenge lib v = computeCodeChallenge lib codeVerifier :=
        hv.trans (Decidable.not_not.mp hchallenge).symm
      rw [computeCodeChallenge_injective hsha256 hsame]
      exact hverifier
  next => exact absurd rfl hsent

/-- Every response to a request that meets the condition is fine. -/
theorem fine_respond (hsound : Sound config s.history) (request : Request)
    (hok : StepOk config s (.request browser request draw)) :
    Fine config lib
      (.exchange browser request (respond config lib s request draw) :: s.history) browser
      request (respond config lib s request draw) := by
  cases request with
  | register body => exact fine_register body
  | authorize request => exact fine_authorize hsound hok.1 hok.2
  | consent request => exact fine_consent hsound hok
  | callback request =>
    refine fine_callback hsound hok.1 fun idpCode hcode user huser => hok.2 idpCode hcode user ?_
    have hexchange : (if draw.exchangeFails then none else signedInFor idpCode s.history) =
        some user := huser
    split at hexchange
    next => cases hexchange
    next => exact hexchange
  | token form => exact fine_token
  | start request => exact fine_start
  | finish request => exact fine_finish hok

/-- What holds of a history all along. -/
structure HistoryOk (config : Config) (lib : Library) (h : List Event) : Prop where
  sound : Sound config h
  promised : Promised config lib h
  own : ∀ e ∈ h, e.UsesOwnVerifier lib

/-- One step. -/
theorem historyOk_step (hsha256 : Function.Injective lib.sha256) {a : Act}
    (hi : HistoryOk config lib s.history) (hok : StepOk config s a)
    (hstep : step config lib s a = some s') : HistoryOk config lib s'.history := by
  cases a with
  | tick seconds =>
    cases hstep
    exact hi
  | signIn browser user idpCode =>
    dsimp only [step] at hstep
    split at hstep
    next => cases hstep
    next =>
      cases hstep
      refine ⟨fun browser' request response he token ht => ?_, hi.promised, fun e he => ?_⟩
      · obtain he | he := List.mem_cons.mp he
        · cases he
        · exact (hi.sound _ _ _ he token ht).cons
      · obtain rfl | he := List.mem_cons.mp he
        · trivial
        · exact hi.own e he
  | request browser request draw =>
    cases hstep
    have hfine : Fine config lib
        (.exchange browser request (respond config lib s request draw) :: s.history) browser
        request (respond config lib s request draw) := fine_respond hi.sound request hok
    refine ⟨fun browser' request' response he token ht => ?_, ⟨hfine.justified, hi.promised⟩,
      fun e he => ?_⟩
    · obtain he | he := List.mem_cons.mp he
      · cases he
        exact hfine.sound token ht
      · exact (hi.sound _ _ _ he token ht).cons
    · obtain rfl | he := List.mem_cons.mp he
      · cases request with
        | token form => exact usesOwnVerifier_token hsha256 form
        | _ => trivial
      · exact hi.own e he

/-- As long as browsers present their own, codes and tokens go only where the user's browser
let them go, and a code is redeemed only with what it was issued for. -/
theorem delivered_where_let_go (hsha256 : Function.Injective lib.sha256)
    (hr : Reach (step config lib) (StepOk config) .init s) :
    Promised config lib s.history ∧ ∀ e ∈ s.history, e.UsesOwnVerifier lib := by
  have hinv : HistoryOk config lib s.history := by
    refine hr.invariant (fun s => HistoryOk config lib s.history) ?_ ?_
    · exact ⟨fun _ _ _ he => (nomatch he), trivial, fun e he => (nomatch he)⟩
    · intro s a s' hi hok hs
      exact historyOk_step hsha256 hi hok hs
  exact ⟨hinv.promised, hinv.own⟩

end

/-! ## Concrete runs -/

/-- The verifier that RFC 7636 has as its example. -/
def exampleVerifier : Str := "dBjftJeZ4CVP-mB92K27uhbUJU1p1r_wW1gFWFOEjXk".toList

/-- Its SHA-256 digest. -/
def exampleDigest : List Byte :=
  [19, 211, 30, 150, 26, 26, 216, 236, 47, 22, 177, 12, 76, 152, 46, 8, 118, 168, 120, 173, 109,
    241, 68, 86, 110, 225, 137, 74, 203, 112, 249, 195]

def exampleChallenge : Str := "E9Melhoa2OwvFrEMTJguCHaoeK1t8URWbuGJSstw-cM".toList

/-- A number that tells a string from the others. -/
def strNumber (s : Str) : Nat := Encodable.encode (s.map Char.toNat)

/-- SHA-256 on the one verifier, and something injective on all other strings. -/
def exampleSha256 (s : Str) : List Byte :=
  if s = exampleVerifier then exampleDigest else List.replicate (strNumber s) 0

theorem strNumber_injective : Function.Injective strNumber := by
  intro s s' h
  have hmap : s.map Char.toNat = s'.map Char.toNat := Encodable.encode_injective h
  refine List.map_injective_iff.mpr ?_ hmap
  intro c c' hc
  exact Char.ext (UInt32.toNat_inj.mp hc)

theorem exampleDigest_ne_replicate (n : Nat) : exampleDigest ≠ List.replicate n 0 := by
  intro h
  have hmem : (19 : Byte) ∈ List.replicate n 0 := h ▸ List.mem_cons_self
  exact absurd (List.eq_of_mem_replicate hmem) (by decide)

theorem exampleSha256_injective : Function.Injective exampleSha256 := by
  intro s s' h
  unfold exampleSha256 at h
  split at h
  next hs =>
    split at h
    next hs' => rw [hs, hs']
    next => exact absurd h (exampleDigest_ne_replicate _)
  next =>
    split at h
    next => exact absurd h.symm (exampleDigest_ne_replicate _)
    next =>
      have hlen := congrArg List.length h
      rw [List.length_replicate, List.length_replicate] at hlen
      exact strNumber_injective hlen

def exampleConfig : Config :=
  ⟨"Hipster Chat".toList, [], [], 1800, ⟨none, none, some "true".toList, none, none⟩⟩

def exampleLibrary : Library where
  sha256 := exampleSha256
  urlparse url :=
    if url = "https://client.example/cb".toList then
      some ⟨"https".toList, "client.example".toList⟩
    else if url = "https://evil.example/cb".toList then
      some ⟨"https".toList, "evil.example".toList⟩
    else none
  isDecimal c := c.isDigit

/-- A draw in which nothing fails. -/
def exampleDraw : Draw := ⟨"nonce".toList, exampleVerifier, "state".toList, false, false⟩

def exampleOrigin : Str := "https://app.example".toList

/-- What a client's `/register` of one redirect URI answers at time 0. -/
def exampleClient (redirectUri : Str) : Token :=
  .client [some redirectUri] false none none 0 clientTtlSeconds

def registerRequest (redirectUri : Str) : Request :=
  .register (.object (some [some redirectUri]) none none)

def authorizeRequest (clientId : Token) (redirectUri : Str) (sessionCookie : Option Token) :
    Request :=
  .authorize ⟨exampleOrigin, sessionCookie, some "code".toList, some clientId, some redirectUri,
    some exampleChallenge, some "S256".toList, none⟩

def consentRequest (clientId : Token) (redirectUri : Str) : Request :=
  .consent ⟨exampleOrigin, none, some "nonce".toList,
    some (.consent clientId redirectUri exampleChallenge "S256".toList [] "nonce".toList 0
      pendingStateTtlSeconds), some "approve".toList⟩

def callbackRequest (clientId : Token) (redirectUri idpCode : Str) : Request :=
  .callback ⟨exampleOrigin, none, some (.pending clientId redirectUri exampleChallenge
    "S256".toList [] 0 pendingStateTtlSeconds), some idpCode⟩

/-- A user registers with a client, consents, signs in and the client redeems the code. -/
def redeemedRun : List Act :=
  let redirectUri := "https://client.example/cb".toList
  let clientId := exampleClient redirectUri
  [.request 2 (registerRequest redirectUri) exampleDraw,
    .request 1 (authorizeRequest clientId redirectUri none) exampleDraw,
    .request 1 (consentRequest clientId redirectUri) exampleDraw,
    .signIn 1 "ann".toList "idp-code".toList,
    .request 1 (callbackRequest clientId redirectUri "idp-code".toList) exampleDraw,
    .request 2 (.token ⟨exampleOrigin, some "authorization_code".toList,
      some (.code "ann".toList clientId redirectUri exampleChallenge 0 authCodeTtlSeconds),
      some clientId, some redirectUri, some exampleVerifier, none⟩) exampleDraw]

/-- The state at the end of a run. -/
def exampleEnd (run : List Act) : State := last (step exampleConfig exampleLibrary) .init run

theorem delivered_where_let_go_redeemed :
    ((exampleEnd redeemedRun).history.head?.map fun e => e.sent.length) = some 2 ∧
      Promised exampleConfig exampleLibrary (exampleEnd redeemedRun).history ∧
        ∀ e ∈ (exampleEnd redeemedRun).history, e.UsesOwnVerifier exampleLibrary :=
  ⟨by decide +kernel, delivered_where_let_go exampleSha256_injective
    (reach_last redeemedRun .init (by decide +kernel))⟩

/-- Someone registers a client, consents in a browser of his own, and sends the `state` to a
user, who signs in with it. -/
def strangersStateRun : List Act :=
  let redirectUri := "https://evil.example/cb".toList
  let clientId := exampleClient redirectUri
  [.request 2 (registerRequest redirectUri) exampleDraw,
    .request 2 (authorizeRequest clientId redirectUri none) exampleDraw,
    .request 2 (consentRequest clientId redirectUri) exampleDraw,
    .signIn 1 "ann".toList "idp-code".toList,
    .request 1 (callbackRequest clientId redirectUri "idp-code".toList) exampleDraw]

/-- A user signs in with a flow of her own. Someone else has a `/start` answered with the host
of his in `X-Forwarded-Host`, and sends the user to `/authorize` with the browser client. -/
def strangersClientRun : List Act :=
  let finishUri := exampleOrigin ++ finishPath
  let clientId := .browserClient finishUri 0 pendingStateTtlSeconds
  let evilUri := "https://evil.example".toList ++ finishPath
  let evilClientId := .browserClient evilUri 0 pendingStateTtlSeconds
  [.request 1 (.start ⟨exampleOrigin, none⟩) exampleDraw,
    .request 1 (authorizeRequest clientId finishUri none) exampleDraw,
    .signIn 1 "ann".toList "idp-code".toList,
    .request 1 (callbackRequest clientId finishUri "idp-code".toList) exampleDraw,
    .request 2 (.start ⟨"https://evil.example".toList, none⟩) exampleDraw,
    .request 1 (authorizeRequest evilClientId evilUri
      (some (.access "ann".toList exampleOrigin 0 1800))) exampleDraw]

/-- Neither run is promised: the user's code goes where she let nothing go. -/
theorem sent_where_not_let_go :
    (∃ s, exec (step exampleConfig exampleLibrary) .init strangersStateRun = some s ∧
      ¬ Promised exampleConfig exampleLibrary s.history) ∧
    ∃ s, exec (step exampleConfig exampleLibrary) .init strangersClientRun = some s ∧
      ¬ Promised exampleConfig exampleLibrary s.history := by
  refine ⟨⟨exampleEnd strangersStateRun, exec_eq_last (by decide +kernel), by decide +kernel⟩,
    exampleEnd strangersClientRun, exec_eq_last (by decide +kernel), by decide +kernel⟩

end Reboot.Auth
