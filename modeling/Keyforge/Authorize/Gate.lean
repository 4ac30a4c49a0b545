/-
What an authorization request has shown when it is answered. A code is stored for the user of a live session, for
a complete request of a proven client, and only after the checks that the request called for: a login that is
fresh enough, the user's rules, and a consent that covers the scopes or that this very request saved. The database
may change between the reads in any way.
-/
import Keyforge.Authorize.Admission
import Keyforge.Lib.Pointwise
import Keyforge.OAuth.Checks
import Keyforge.Routes.Authorize

namespace Keyforge.Authorize

open Lib Db Do Auth OAuth Security Routes

/-! ## The requests -/

inductive AuthorizeCall where
  | get (context : AuthorizeContext) (request : AuthorizeRequest)
  | decide (context : AuthorizeContext) (request : DecisionRequest)

namespace AuthorizeCall

def code (env : Env) : AuthorizeCall → App AuthorizeAnswer
  | .get context request => getAuthorize env context request
  | .decide context request => postDecision env context request

def context : AuthorizeCall → AuthorizeContext
  | .get context _ => context
  | .decide context _ => context

def cookie : AuthorizeCall → Option String
  | .get _ request => request.sessionToken
  | .decide _ request => request.sessionToken

/-- What the request asks for. -/
def query (env : Env) (viewer : Option AuthenticatedSession) : AuthorizeCall → SearchParams
  | .get context request => continuedQuery env context request viewer
  | .decide _ request => decisionQuery request.form

end AuthorizeCall

/-! ## What is shown -/

/-- The cookie was that of a live session, and the user was enabled. -/
structure SawViewer (env : Env) (cookie : Option String) (viewer : AuthenticatedSession) (tr : Steps) : Prop where
  read : ∃ token row, cookie = some token ∧ row.tokenHash = hashOpaqueToken env token ∧ toSession row = viewer.session ∧
    row.userId = viewer.user.id ∧ row.revokedAt = none ∧ (∃ t ∈ tr, t.2.nowSeconds < row.expiresAt) ∧
      Saw (fun db => row ∈ db.sessions ∧ db.users.get? row.userId = some viewer.user) tr
  enabled : viewer.user.disabled = false

structure Admitted (env : Env) (query : SearchParams) (params : AuthorizeParams) (tr : Steps) : Prop where
  client : ProvenClient env query params.clientId params.client params.redirectUri tr
  complete : CompleteRequest query params tr

/-- The session is as fresh as the request asks for. -/
structure Fresh (params : AuthorizeParams) (viewer : AuthenticatedSession) (tr : Steps) : Prop where
  prompts : .login ∉ params.prompts
  maxAge : ∀ age ∈ params.maxAge, age ≠ 0 ∧ ∃ t ∈ tr, t.2.nowSeconds - viewer.session.authTime ≤ age

def consentInput (params : AuthorizeParams) (viewer : AuthenticatedSession) : SaveConsentInput :=
  { userId := viewer.user.id, clientId := params.clientId, scope := serializeScopes params.scopes,
    resource := params.resource, metadataFingerprint := params.client.metadataFingerprint }

/-- The consent that was read covers the scopes under the client's metadata. -/
def SawConsent (params : AuthorizeParams) (viewer : AuthenticatedSession) (tr : Steps) : Prop :=
  Saw (fun db => consentCovers params.scopes params.client.metadataFingerprint
    (db.consents.get? (viewer.user.id, params.clientId, params.resource)) = true) tr

/-- The user approved these scopes in this request, and the approval was saved. -/
structure ApprovedNow (env : Env) (request : DecisionRequest) (params : AuthorizeParams) (viewer : AuthenticatedSession)
    (tr : Steps) : Prop where
  csrf : verifyCsrfToken env request.csrfCookie (some (readFormField request.form "csrf_token")) = true
  interactive : .none ∉ params.prompts
  approved : readFormField request.form "decision" = "approve"
  elevated : "mcp.tools.execute" ∈ params.scopes → readFormField request.form "confirm_elevated" = "yes"
  saved : ∃ t ∈ tr, ∃ now id, saveConsentStatement now id (consentInput params viewer) t.1.db = some t.2.db

/-- The user's consent, as the request calls for it. -/
def AuthorizeCall.Consented (env : Env) (params : AuthorizeParams) (viewer : AuthenticatedSession) (tr : Steps) :
    AuthorizeCall → Prop
  | .get _ _ => .consent ∉ params.prompts ∧ SawConsent params viewer tr
  | .decide _ request => ApprovedNow env request params viewer tr

/-- The request may have its code, but for the consent. -/
structure Permitted (env : Env) (c : AuthorizeCall) (params : AuthorizeParams) (viewer : AuthenticatedSession) (tr : Steps) :
    Prop where
  live : SawViewer env c.cookie viewer tr
  admitted : Admitted env (c.query env (some viewer)) params tr
  fresh : Fresh params viewer tr
  policy : Saw (fun db => userTokenAccess env (accessInput viewer params) db = none) tr

/-- The step stores the code for this payload. -/
def StoresCode (env : Env) (code : String) (payload : AuthorizationCodePayload) (t : World × World) : Prop :=
  t.2.codes = Function.update t.1.codes (hashOpaqueToken env code)
    ((t.1.codes (hashOpaqueToken env code)).store t.2.nowMs payload TOKEN_TTL.authorizationCode)

def subjectOf (viewer : AuthenticatedSession) : AuthorizationSubject :=
  { user := viewer.user, sessionId := viewer.session.id, authTime := viewer.session.authTime }

/-- The payload is that of a request which may have its code. -/
def Backs (env : Env) (c : AuthorizeCall) (payload : AuthorizationCodePayload) (tr : Steps) : Prop :=
  ∃ params viewer resource, payload = codePayload env params (subjectOf viewer) resource ∧
    Permitted env c params viewer tr ∧ c.Consented env params viewer tr ∧
      Saw (fun db => db.resources.get? params.resource = resource) tr

/-- Only a request that allows interaction is sent to the login. -/
def AuthorizeCall.Interactive (env : Env) (tr : Steps) : AuthorizeCall → Prop
  | .get context request => ∃ viewer params,
    Admitted env ((AuthorizeCall.get context request).query env viewer) params tr ∧ .none ∉ params.prompts
  | .decide _ _ => True

/-- Why a request is answered so. -/
inductive Reason (env : Env) (c : AuthorizeCall) (tr : Steps) : AuthorizeAnswer → Prop
  | errorPage (status : Nat) (message : String) : Reason env c tr (.errorPage status message)
  | tooManyRequests (retryAfterSeconds : Int) : Reason env c tr (.tooManyRequests retryAfterSeconds)
  | login (returnTo : String) (forceReauthentication : Bool) (interactive : c.Interactive env tr) :
    Reason env c tr (.login returnTo forceReauthentication)
  | refused (viewer : Option AuthenticatedSession) {clientId redirectUri : String} {client : ClientRow}
    (proven : ProvenClient env (c.query env viewer) clientId client redirectUri tr) (error description : String)
    (state : Option String) : Reason env c tr (.respond redirectUri
      (authorizationResponseParams env [("error", error), ("error_description", description)] state))
  | consentPage (params : AuthorizeParams) (viewer : AuthenticatedSession) (permitted : Permitted env c params viewer tr)
    (interactive : .none ∉ params.prompts) (page : ConsentPage) (scopes : page.scopes = params.scopes)
    (redirectUri : page.redirectUri = params.redirectUri) (user : page.user = viewer.user) : Reason env c tr (.consentPage page)
  | code (params : AuthorizeParams) (viewer : AuthenticatedSession) (resource : Option ResourceRow)
    (permitted : Permitted env c params viewer tr) (consented : c.Consented env params viewer tr)
    (stored : ∃ t ∈ tr, StoresCode env c.context.code (codePayload env params (subjectOf viewer) resource) t) :
    Reason env c tr (.respond params.redirectUri (authorizationResponseParams env [("code", c.context.code)] params.state))

/-- The steps left the codes alone. -/
def Untouched (tr : Steps) : Prop :=
  ∀ t ∈ tr, t.2.codes = t.1.codes

/-- What the request's steps do to the codes: nothing, or they store one that is backed by the steps before, none of
which stored one. -/
def CodeStep (env : Env) (c : AuthorizeCall) (past : Steps) (t : World × World) : Prop :=
  t.2.codes = t.1.codes ∨ (Untouched past ∧ ∃ payload, Backs env c payload past ∧ StoresCode env c.context.code payload t)

/-! ## The reads -/

section

variable {env : Env} {c : AuthorizeCall} {context : AuthorizeContext} {cookie : Option String} {query : SearchParams}
  {params : AuthorizeParams} {viewer : AuthenticatedSession} {tr tr' : Steps}

theorem SawViewer.sublist (h : SawViewer env cookie viewer tr) (hsub : tr.Sublist tr') : SawViewer env cookie viewer tr' := by
  obtain ⟨⟨token, row, hcookie, hhash, hsession, huser, hrevoked, ⟨t, ht, hlt⟩, hsaw⟩, henabled⟩ := h
  exact ⟨⟨token, row, hcookie, hhash, hsession, huser, hrevoked, ⟨t, hsub.subset ht, hlt⟩, hsaw.sublist hsub⟩, henabled⟩

theorem ProvenClient.sublist {clientId redirectUri : String} {client : ClientRow}
    (h : ProvenClient env query clientId client redirectUri tr) (hsub : tr.Sublist tr') :
    ProvenClient env query clientId client redirectUri tr' :=
  { h with stored := h.stored.sublist hsub }

theorem Admitted.sublist (h : Admitted env query params tr) (hsub : tr.Sublist tr') : Admitted env query params tr' :=
  ⟨h.client.sublist hsub, h.complete.sublist hsub⟩

theorem Fresh.sublist (h : Fresh params viewer tr) (hsub : tr.Sublist tr') : Fresh params viewer tr' := by
  refine ⟨h.prompts, fun age hage => ?_⟩
  obtain ⟨hne, t, ht, hle⟩ := h.maxAge age hage
  exact ⟨hne, t, hsub.subset ht, hle⟩

theorem Permitted.sublist (h : Permitted env c params viewer tr) (hsub : tr.Sublist tr') :
    Permitted env c params viewer tr' :=
  ⟨h.live.sublist hsub, h.admitted.sublist hsub, h.fresh.sublist hsub, h.policy.sublist hsub⟩

theorem AuthorizeCall.Consented.sublist (h : c.Consented env params viewer tr) (hsub : tr.Sublist tr') :
    c.Consented env params viewer tr' := by
  cases c with
  | get => exact ⟨h.1, h.2.sublist hsub⟩
  | decide context request =>
    obtain ⟨t, ht, hsaved⟩ := h.saved
    exact { h with saved := ⟨t, hsub.subset ht, hsaved⟩ }

theorem sessionMiddleware_ends :
    endsE (sessionMiddleware env cookie) (fun found tr => ∀ viewer, found = some viewer → SawViewer env cookie viewer tr)
      fun _ _ => True := by
  cases cookie with
  | none => rintro viewer ⟨⟩
  | some token =>
    unfold sessionMiddleware getAuthenticatedSessionByToken
    rw [endsE_bind]
    refine endsE_select (fun w dt => ?_) fun _ => trivial
    cases hrow : authenticatedRow (hashOpaqueToken env token) w.db with
    | none => rintro viewer ⟨⟩
    | some found =>
      obtain ⟨row, user⟩ := found
      obtain ⟨row', hfind, huser⟩ := Option.bind_eq_some_iff.1 hrow
      obtain ⟨user', hget, heq⟩ := Option.bind_eq_some_iff.1 huser
      cases heq
      refine endsE_ite (fun _ => by rintro viewer ⟨⟩) fun hrevoked => ?_
      rw [endsE_bind]
      refine endsE_clock fun w' dt' => ?_
      rw [endsE_pure]
      intro viewer hviewer
      split at hviewer
      · cases hviewer
      · rename_i hlive
        cases hviewer
        simp only [Bool.or_eq_true, decide_eq_true_eq, not_or, ge_iff_le, not_le, Bool.not_eq_true] at hlive
        have hhash := List.find?_some hfind
        refine ⟨⟨token, row, rfl, of_decide_eq_true hhash, rfl, (Table.get?_eq_some.1 hget).2.symm, not_not.1 hrevoked,
          ⟨(w', w'.tick dt'), by simp, hlive.1⟩, .head ⟨List.mem_of_find?_eq_some hfind, hget⟩⟩, hlive.2⟩

theorem sessionTooOld_ends :
    endsE (sessionTooOld params.maxAge viewer.session) (fun old tr => old = false → ∀ age ∈ params.maxAge,
      age ≠ 0 ∧ ∃ t ∈ tr, t.2.nowSeconds - viewer.session.authTime ≤ age) fun _ _ => True := by
  cases hmax : params.maxAge with
  | none => rintro - age ⟨⟩
  | some maxAge =>
    refine endsE_ite (fun _ h => by cases h) fun hne => ?_
    rw [endsE_bind]
    refine endsE_clock fun w dt => ?_
    rw [endsE_pure]
    rintro hfresh age ⟨⟩
    exact ⟨hne, (w, w.tick dt), by simp, not_lt.1 (of_decide_eq_false hfresh)⟩

theorem enforceMetadataAuthorizeRate_ends :
    endsE (enforceMetadataAuthorizeRate env context query)
      (fun limited _ => ∀ answer, limited = some answer → ∃ k, answer = .tooManyRequests k) fun _ _ => True := by
  unfold enforceMetadataAuthorizeRate
  refine endsE_ite (fun _ => by rintro answer ⟨⟩) fun _ => ?_
  split
  · rintro answer ⟨⟩
  · refine endsE_ite (fun _ => by rintro answer ⟨⟩) fun _ => ?_
    rw [endsE_bind]
    refine endsE_query (fun w dt => endsE_ite (fun _ => by rintro answer ⟨⟩) fun _ => endsE_ite (fun _ => ?_) fun _ => ?_)
      fun _ => trivial
    · rw [endsE_bind]
      exact endsE_query (fun _ _ => by rintro answer ⟨⟩; exact ⟨_, rfl⟩) fun _ => trivial
    · rintro answer ⟨⟩
      exact ⟨_, rfl⟩

/-- A validation redirects to a proven URI only, and accepts what is admitted. -/
theorem validation_ends (hyolo : env.yolo = false) :
    endsE (validateAuthorizeRequest env context.fetched query)
      (fun v tr => match v with
        | .invalidRequestPage _ _ _ => True
        | .errorRedirect redirectUri _ _ _ => ∃ clientId client, ProvenClient env query clientId client redirectUri tr
        | .ok params => Admitted env query params tr) fun _ _ => True := by
  refine endsE_imp (fun v tr h => ?_) (fun _ _ _ => trivial) _ (validateAuthorizeRequest_ends hyolo)
  cases v with
  | invalidRequestPage => trivial
  | errorRedirect redirectUri =>
    obtain ⟨clientId, client, h⟩ := h
    exact ⟨clientId, client, h.toProvenClient⟩
  | ok params => exact ⟨h.1.toProvenClient, h.2⟩

theorem access_ends (hyolo : env.yolo = false) {input : UserTokenAccessInput} :
    endsE (evaluateUserTokenAccess env input) (fun denial tr => denial = none →
      Saw (fun db => userTokenAccess env input db = none) tr) fun _ _ => True := by
  rw [evaluateUserTokenAccess, if_neg (by simp [hyolo])]
  exact endsE_select (fun w dt hnone => .head hnone) fun _ => trivial

theorem saveConsent_ends {id : String} {input : SaveConsentInput} :
    endsE (saveConsent id input)
      (fun _ tr => ∃ t ∈ tr, ∃ now id, saveConsentStatement now id input t.1.db = some t.2.db) fun _ _ => True := by
  rw [saveConsent, endsE_bind]
  refine endsE_clock fun w dt => ?_
  rw [endsE_bind]
  refine endsE_d1Logged (fun w₁ w₁' dt₁ hw' => ?_) fun _ => trivial
  rw [endsE_require]
  refine ⟨fun hsaved => ?_, fun _ => trivial⟩
  obtain ⟨db', hdb'⟩ := Option.isSome_iff_exists.1 hsaved
  refine ⟨(w₁, w₁'), by simp, (w.tick dt).nowSeconds, id, ?_⟩
  show _ = some w₁'.db
  rw [hw', hdb']
  rfl

theorem consentReads_ends (hyolo : env.yolo = false) :
    endsE (consentReads env viewer params) (fun r tr => r.1 = true → SawConsent params viewer tr) fun _ _ => True := by
  have hX : Lasting fun (_ : Failure) (_ : Steps) => True := fun _ _ _ _ _ => trivial
  have hcovers : endsE (consentCoversScopes env viewer.user.id params.clientId params.resource params.scopes
      params.client.metadataFingerprint) (fun covered tr => covered = true → SawConsent params viewer tr) fun _ _ => True := by
    rw [consentCoversScopes, if_neg (by simp [hyolo]), endsE_bind]
    exact endsE_select (fun w dt hcovered => .head hcovered) fun _ => trivial
  refine endsE_imp (fun r tr h => h.1) (fun _ _ _ => trivial) _ (endsE_all ?_ ?_ hX hcovers (endsE_true _))
  · exact fun covered tr tr' hsub h hc => (h hc).sublist hsub
  · exact fun _ _ _ _ _ => trivial

end

/-! ## Steps that leave the codes alone -/

def codesKept : Protocol Input World where
  inv := fun _ => True
  rely := fun _ _ => True
  guar := fun w w' => w'.codes = w.codes
  allow := fun _ _ _ => True

theorem codesKept_clocked : Clocked codesKept :=
  ⟨⟨fun _ => trivial, fun _ _ => trivial⟩, fun _ _ => trivial, fun _ _ => trivial, fun _ _ => rfl, fun _ _ => trivial,
    fun _ h => h⟩

theorem codesKept_d1 {α : Type} (committed : Database → List Event) (stmt : Database → α × Database) :
    Keeps codesKept (d1Logged committed stmt) :=
  Keeps.d1Logged codesKept_clocked fun w w' _ _ hw' _ => ⟨trivial, by rw [hw']; rfl⟩

section

variable {env : Env} {context : AuthorizeContext} {fetched : Option ClientIdMetadata} {query : SearchParams}
  {params : AuthorizeParams} {viewer : AuthenticatedSession}

theorem codesKept_quiet {α : Type} {p : App α} (hp : Quiet p) : Keeps codesKept p :=
  Keeps.of_quiet codesKept_clocked hp

theorem persistMetadataClient_codes (input : UpsertMetadataClientInput) : Keeps codesKept (persistMetadataClient input) := by
  unfold persistMetadataClient d1
  refine Keeps.bind (codesKept_quiet .clock) fun now => Keeps.bind (codesKept_d1 _ _) fun _ =>
    Keeps.bind (codesKept_quiet (.select _)) fun current => ?_
  split
  · exact Keeps.throw _
  · refine Keeps.bind (codesKept_d1 _ _) fun _ => Keeps.bind (codesKept_quiet (.select _)) fun updated => ?_
    split
    · exact Keeps.throw _
    · exact Keeps.pure _

theorem upsertMetadataClient_codes (input : UpsertMetadataClientInput) : Keeps codesKept (upsertMetadataClient input) := by
  unfold upsertMetadataClient
  refine Keeps.bind (codesKept_quiet (.select _)) fun existing => Keeps.bind (Keeps.require _ _) fun _ => Keeps.ite ?_ ?_
  · exact Keeps.bind (codesKept_quiet (.select _)) fun count => Keeps.bind (Keeps.require _ _) fun _ =>
      persistMetadataClient_codes input
  · exact persistMetadataClient_codes input

theorem onboardMetadataClient_codes (clientId resourceUri : String) (allowedScopes : List String) (current : Option ClientRow) :
    Keeps codesKept (onboardMetadataClient env fetched clientId resourceUri allowedScopes current) := by
  unfold onboardMetadataClient
  refine Keeps.bind (codesKept_quiet .clock) fun now => ?_
  split
  · exact upsertMetadataClient_codes _
  · refine Keeps.bind ?_ fun metadata => upsertMetadataClient_codes _
    unfold fetchClientIdMetadata
    refine Keeps.bind (Keeps.require _ _) fun _ => Keeps.bind (codesKept_quiet (.query _)) fun answer => ?_
    split
    · exact Keeps.throw _
    · exact Keeps.pure _

theorem resolveAuthorizationClient_codes (clientId : String) (resourceUri : Option String) :
    Keeps codesKept (resolveAuthorizationClient env fetched clientId resourceUri) := by
  unfold resolveAuthorizationClient
  refine Keeps.bind (codesKept_quiet (.select _)) fun current => ?_
  split
  · exact Keeps.pure _
  · exact Keeps.pure _
  · refine Keeps.ite (Keeps.pure _) (Keeps.bind (codesKept_quiet (.select _)) fun found => ?_)
    split
    · exact Keeps.pure _
    · refine Keeps.bind (Keeps.tryCatch (onboardMetadataClient_codes _ _ _ _) fun error => ?_) fun client => ?_
      · split <;> exact Keeps.throw _
      · refine Keeps.ite (Keeps.bind (codesKept_quiet (.select _)) fun approved => ?_) (Keeps.pure _)
        exact Keeps.pure _

theorem validateParams_codes (clientId redirectUri : String) (client : ClientRow) :
    Keeps codesKept (validateParams env query clientId client redirectUri) := by
  unfold validateParams
  split
  · exact Keeps.pure _
  · refine Keeps.ite (Keeps.pure _) (Keeps.ite (Keeps.pure _) (Keeps.ite (Keeps.pure _) (Keeps.ite (Keeps.pure _) ?_)))
    split
    · exact Keeps.pure _
    · split
      · exact Keeps.pure _
      · refine Keeps.tryCatch (codesKept_quiet ?_) fun error => ?_
        · exact (validateRequestedScopes_quiet _ _).bind fun _ => (resolveResourceForScopes_quiet _ _ _ _).bind fun _ => .pure _
        · split
          · exact Keeps.pure _
          · exact Keeps.throw _

theorem validateAuthorizeRequest_codes : Keeps codesKept (validateAuthorizeRequest env fetched query) := by
  unfold validateAuthorizeRequest
  refine Keeps.ite (Keeps.pure _) (Keeps.ite (Keeps.pure _) ?_)
  split
  · exact Keeps.pure _
  · refine Keeps.bind (Keeps.tryCatch (Keeps.map _ (resolveAuthorizationClient_codes _ _)) fun error => ?_) fun resolved => ?_
    · split
      · exact Keeps.pure _
      · exact Keeps.throw _
    · split
      · exact Keeps.pure _
      · split
        · exact Keeps.pure _
        · refine Keeps.ite (Keeps.pure _) ?_
          split
          · exact Keeps.pure _
          · exact Keeps.ite (Keeps.pure _) (validateParams_codes _ _ _)

theorem sessionMiddleware_quiet (cookie : Option String) : Quiet (sessionMiddleware env cookie) := by
  cases cookie with
  | none => exact .pure _
  | some token =>
    unfold sessionMiddleware getAuthenticatedSessionByToken
    refine .bind (.select _) fun row => ?_
    split
    · exact .pure _
    · exact .ite (.pure _) (.bind .clock fun _ => .pure _)

theorem enforceMetadataAuthorizeRate_quiet : Quiet (enforceMetadataAuthorizeRate env context query) := by
  unfold enforceMetadataAuthorizeRate
  refine .ite (.pure _) ?_
  split
  · exact .pure _
  · refine .ite (.pure _) (.bind (.query _) fun rate => .ite (.pure _) ?_)
    exact .ite (.bind recordAudit_quiet fun _ => .pure _) (.pure _)

theorem sessionTooOld_quiet (maxAge : Option Nat) (session : SessionRecord) : Quiet (sessionTooOld maxAge session) := by
  unfold sessionTooOld
  split
  · exact .pure _
  · exact .ite (.pure _) (.bind .clock fun _ => .pure _)

theorem consentReads_quiet : Quiet (consentReads env viewer params) :=
  .all (consentCoversScopes_quiet _ _ _ _ _ _) (.all (.select _) (.select _))

theorem saveConsent_codes (id : String) (input : SaveConsentInput) : Keeps codesKept (saveConsent id input) :=
  Keeps.bind (codesKept_quiet .clock) fun _ => Keeps.bind (codesKept_d1 _ _) fun _ => Keeps.require _ _

end

/-! ## The endpoint -/

section

variable {env : Env} {c : AuthorizeCall} {context : AuthorizeContext} {params : AuthorizeParams}
  {viewer : AuthenticatedSession} {past : Steps} {α β : Type}

theorem Untouched.append {tr tr' : Steps} (h : Untouched tr) (h' : Untouched tr') : Untouched (tr ++ tr') :=
  fun t ht => (List.mem_append.1 ht).elim (h t) (h' t)

/-- A program that leaves the codes alone goes first. -/
theorem first_along {p : App α} {g : α → App β} {R : α → Steps → Prop} {Q : β → Steps → Prop} (hp : Keeps codesKept p)
    (hR : endsE p R fun _ _ => True)
    (hg : ∀ a tr, R a tr → Untouched tr → alongE (CodeStep env c) (g a) Q (fun _ _ => True) (past ++ tr)) :
    alongE (CodeStep env c) (p >>= g) Q (fun _ _ => True) past := by
  have hwp := hp Deployment.world trivial
  have hevery := every_of_wp (fun _ => trivial) (fun _ _ => trivial) (fun _ _ _ => trivial) _ hwp
  have huntouched : endsE p (fun a tr => R a tr ∧ Untouched tr) fun _ _ => True := by
    refine ends_imp ?_ _ (ends_and hR (ends_guar (fun _ => trivial) (fun _ _ => trivial) (fun _ _ _ => trivial) _ hwp))
    rintro (x | a) tr h
    · trivial
    · exact h
  rw [alongE_bind]
  refine alongE_imp ?_ (fun _ _ _ => trivial) _ (alongE_every (fun past t h => Or.inl h) hevery huntouched)
  rintro a past' ⟨tr, rfl, h, hkept⟩
  exact hg a tr h hkept

theorem quiet_along {p : App α} {g : α → App β} {Q : β → Steps → Prop} (hp : Quiet p)
    (hg : ∀ a tr, Untouched tr → alongE (CodeStep env c) (g a) Q (fun _ _ => True) (past ++ tr)) :
    alongE (CodeStep env c) (p >>= g) Q (fun _ _ => True) past :=
  first_along (codesKept_quiet hp) (endsE_true p) fun a tr _ => hg a tr

theorem refused_along (viewer : Option AuthenticatedSession) {clientId redirectUri : String} {client : ClientRow}
    (h : ProvenClient env (c.query env viewer) clientId client redirectUri past) (error description : String)
    (state : Option String) :
    alongE (CodeStep env c) (do
      recordAudit
      pure (.respond redirectUri
        (authorizationResponseParams env [("error", error), ("error_description", description)] state)))
      (fun answer tr => Reason env c tr answer) (fun _ _ => True) past :=
  quiet_along recordAudit_quiet fun _ tr _ =>
    .refused viewer (h.sublist (List.sublist_append_left past tr)) error description state

theorem completeAuthorization_along (hcontext : context = c.context) (hpermitted : Permitted env c params viewer past)
    (hconsented : c.Consented env params viewer past) (huntouched : Untouched past) :
    alongE (CodeStep env c) (completeAuthorization env context params viewer) (fun answer tr => Reason env c tr answer)
      (fun _ _ => True) past := by
  subst hcontext
  have hkept : ∀ w dt (past : Steps), CodeStep env c past (w, w.tick dt) := fun w dt past => Or.inl rfl
  unfold completeAuthorization issueAuthorizationCode getResourceByUri
  rw [alongE_bind, alongE_bind]
  refine alongE_select (fun w dt => hkept w dt past) (fun w dt => ?_) fun _ => trivial
  rw [alongE_bind]
  have hpermitted := hpermitted.sublist (List.sublist_append_left past [(w, w.tick dt)])
  have hconsented := hconsented.sublist (List.sublist_append_left past [(w, w.tick dt)])
  have hbacks : Backs env c (codePayload env params (subjectOf viewer) (w.db.resources.get? params.resource))
      (past ++ [(w, w.tick dt)]) :=
    ⟨params, viewer, _, rfl, hpermitted, hconsented, .right (.head rfl)⟩
  have huntouched : Untouched (past ++ [(w, w.tick dt)]) := huntouched.append fun t ht => by
    rw [List.mem_singleton.1 ht]
    rfl
  generalize past ++ [(w, w.tick dt)] = past at hpermitted hconsented hbacks huntouched
  unfold storeCode
  refine alongE_io (fun w' dt' => Or.inr ⟨huntouched, _, hbacks, rfl⟩) (fun w' dt' => hkept w' dt' _) (fun w' dt' => ?_) fun _ => trivial
  rw [alongE_pure]
  refine quiet_along recordAudit_quiet fun _ tr _ => ?_
  rw [alongE_pure, List.append_assoc]
  have hsub := fun later : Steps => List.sublist_append_left past later
  exact .code params viewer (w.db.resources.get? params.resource) (hpermitted.sublist (hsub _)) (hconsented.sublist (hsub _))
    ⟨_, List.mem_append_right _ List.mem_cons_self, rfl⟩

/-- What the checks of the session and the policy have shown. -/
theorem Permitted.of_reads {tr tr' : Steps} (hlive : SawViewer env c.cookie viewer past)
    (hadmitted : Admitted env (c.query env (some viewer)) params past) (hprompts : params.prompts.contains .login = false)
    (hfresh : ∀ age ∈ params.maxAge, age ≠ 0 ∧ ∃ t ∈ tr, t.2.nowSeconds - viewer.session.authTime ≤ age)
    (hpolicy : Saw (fun db => userTokenAccess env (accessInput viewer params) db = none) tr') :
    Permitted env c params viewer (past ++ tr ++ tr') := by
  have hpast : past.Sublist (past ++ tr ++ tr') := by simp
  refine ⟨hlive.sublist hpast, hadmitted.sublist hpast, ⟨by simpa using hprompts, fun age hage => ?_⟩, hpolicy.right⟩
  obtain ⟨hne, t, ht, hle⟩ := hfresh age hage
  exact ⟨hne, t, by simp [ht], hle⟩

theorem handleAuthorized_along (hyolo : env.yolo = false) {request : AuthorizeRequest} {found : Option AuthenticatedSession}
    {hiddenFields : SearchParams} (hlive : ∀ viewer, found = some viewer → SawViewer env request.sessionToken viewer past)
    (hadmitted : Admitted env (continuedQuery env context request found) params past) (huntouched : Untouched past) :
    alongE (CodeStep env (.get context request))
      (handleAuthorized env context request.pathname request.searchParams found params hiddenFields)
      (fun answer tr => Reason env (.get context request) tr answer) (fun _ _ => True) past := by
  -- an error sent back to the client
  have hinteraction : ∀ (error : OAuthErrorCode) (description : String) (tr : Steps),
      alongE (CodeStep env (.get context request)) (interactionError env params error description)
        (fun answer tr => Reason env (.get context request) tr answer) (fun _ _ => True) (past ++ tr) := fun error description tr =>
    refused_along found (hadmitted.client.sublist (List.sublist_append_left past tr)) _ _ _
  -- a way to the login page, which `none` forbids
  have hlogin : ∀ (forced : Bool) (tr : Steps), params.prompts.contains .none = false →
      Reason env (.get context request) (past ++ tr) (redirectToLogin request.pathname request.searchParams forced) :=
    fun forced tr hnone => .login _ _ ⟨found, params, hadmitted.sublist (List.sublist_append_left past tr), by simpa using hnone⟩
  unfold handleAuthorized
  dsimp only
  cases found with
  | none =>
    refine alongE_ite (fun _ => ?_) fun hnone => ?_
    · simpa using hinteraction .loginRequired "User authentication is required" []
    · simpa using hlogin (params.prompts.contains .login || params.maxAge.isSome) [] (by simpa using hnone)
  | some viewer =>
    refine first_along (codesKept_quiet (sessionTooOld_quiet _ _)) sessionTooOld_ends fun old tr₁ hfresh h₁ => ?_
    refine alongE_ite (fun _ => alongE_ite (fun _ => hinteraction _ _ _) fun hnone => ?_) fun hlogin => ?_
    · exact hlogin true tr₁ (by simpa using hnone)
    · simp only [Bool.or_eq_true, not_or, Bool.not_eq_true] at hlogin
      refine first_along (codesKept_quiet (evaluateUserTokenAccess_quiet _ _)) (access_ends hyolo) fun access tr₂ hpolicy h₂ => ?_
      cases access with
      | some reason => simpa using hinteraction _ _ (tr₁ ++ tr₂)
      | none =>
        -- every gate before the consent is passed
        have hpermitted := Permitted.of_reads (c := .get context request) (hlive viewer rfl) hadmitted hlogin.1
          (hfresh hlogin.2) (hpolicy rfl)
        refine quiet_along recordAudit_quiet fun _ tr₃ h₃ => ?_
        refine first_along (codesKept_quiet consentReads_quiet) (consentReads_ends hyolo) fun reads tr₄ hconsent h₄ => ?_
        obtain ⟨hasConsent, priorConsent, resource⟩ := reads
        have hsub : ((past ++ tr₁ ++ tr₂).Sublist (past ++ tr₁ ++ tr₂ ++ tr₃ ++ tr₄)) := by simp
        have hpermitted := hpermitted.sublist hsub
        dsimp only
        refine alongE_ite (fun hcovered => ?_) fun _ => alongE_ite (fun _ => ?_) fun hnone => ?_
        · rw [Bool.and_eq_true, Bool.not_eq_true'] at hcovered
          exact completeAuthorization_along rfl hpermitted ⟨by simpa using hcovered.2, .right (hconsent hcovered.1)⟩
            ((((huntouched.append h₁).append h₂).append h₃).append h₄)
        · simpa using hinteraction _ _ (tr₁ ++ tr₂ ++ tr₃ ++ tr₄)
        · exact .consentPage params viewer hpermitted (by simpa using hnone) _ rfl rfl rfl

/-- A validation that did not accept the request. -/
theorem dispatchValidation_along {pathname : String} {searchParams hiddenFields : SearchParams}
    (found : Option AuthenticatedSession) {validation : AuthorizeValidation} {before : Steps}
    (hok : ∀ params, validation ≠ .ok params) (h : match validation with
      | .invalidRequestPage _ _ _ => True
      | .errorRedirect redirectUri _ _ _ =>
        ∃ clientId client, ProvenClient env (c.query env found) clientId client redirectUri past
      | .ok _ => True) :
    alongE (CodeStep env c) (dispatchValidation env context pathname searchParams found validation hiddenFields)
      (fun answer tr => Reason env c tr answer) (fun _ _ => True) (before ++ past) := by
  unfold dispatchValidation
  cases validation with
  | invalidRequestPage description reason clientId =>
    refine alongE_ite (fun _ => quiet_along recordAudit_quiet fun _ tr _ => ?_) fun _ => ?_
    · exact .errorPage 400 description
    · exact .errorPage 400 description
  | errorRedirect redirectUri state error description =>
    obtain ⟨clientId, client, h⟩ := h
    exact refused_along found (h.sublist (List.sublist_append_right before past)) _ _ _
  | ok params => exact absurd rfl (hok params)

theorem getAuthorize_along (hyolo : env.yolo = false) {request : AuthorizeRequest} :
    alongE (CodeStep env (.get context request)) (getAuthorize env context request)
      (fun answer tr => Reason env (.get context request) tr answer) (fun _ _ => True) [] := by
  unfold getAuthorize
  refine first_along (codesKept_quiet (sessionMiddleware_quiet _)) sessionMiddleware_ends fun found tr₁ hlive h₁ => ?_
  refine alongE_ite (fun _ => .errorPage 400 _) fun _ => ?_
  refine first_along (codesKept_quiet enforceMetadataAuthorizeRate_quiet) enforceMetadataAuthorizeRate_ends
    fun limited tr₂ hlimited h₂ => ?_
  cases limited with
  | some answer =>
    obtain ⟨k, rfl⟩ := hlimited answer rfl
    exact .tooManyRequests k
  | none =>
    refine first_along validateAuthorizeRequest_codes (validation_ends hyolo) fun validation tr₃ hvalidation h₃ => ?_
    have hlive : ∀ viewer, found = some viewer →
        SawViewer env request.sessionToken viewer ([] ++ tr₁ ++ tr₂ ++ tr₃) :=
      fun viewer hviewer => (hlive viewer hviewer).sublist (by simp)
    cases validation with
    | ok params =>
      exact handleAuthorized_along hyolo hlive (hvalidation.sublist (by simp)) ((h₁.append h₂).append h₃)
    | invalidRequestPage description reason clientId =>
      exact dispatchValidation_along found (fun params => by rintro ⟨⟩) trivial
    | errorRedirect redirectUri state error description =>
      exact dispatchValidation_along found (fun params => by rintro ⟨⟩) hvalidation

theorem handleDecision_along (hyolo : env.yolo = false) {request : DecisionRequest}
    (hlive : SawViewer env request.sessionToken viewer past)
    (hcsrf : verifyCsrfToken env request.csrfCookie (some (readFormField request.form "csrf_token")) = true)
    (hadmitted : Admitted env (decisionQuery request.form) params past) (huntouched : Untouched past) :
    alongE (CodeStep env (.decide context request)) (handleDecision env context request.form viewer params)
      (fun answer tr => Reason env (.decide context request) tr answer) (fun _ _ => True) past := by
  have hinteraction : ∀ (error : OAuthErrorCode) (description : String) (tr : Steps),
      alongE (CodeStep env (.decide context request)) (interactionError env params error description)
        (fun answer tr => Reason env (.decide context request) tr answer) (fun _ _ => True) (past ++ tr) :=
    fun error description tr =>
      refused_along (some viewer) (hadmitted.client.sublist (List.sublist_append_left past tr)) _ _ _
  unfold handleDecision
  refine first_along (codesKept_quiet (sessionTooOld_quiet _ _)) sessionTooOld_ends fun old tr₁ hfresh h₁ => ?_
  refine alongE_ite (fun _ => hinteraction _ _ _) fun hlogin => ?_
  simp only [Bool.or_eq_true, not_or, Bool.not_eq_true] at hlogin
  refine first_along (codesKept_quiet (evaluateUserTokenAccess_quiet _ _)) (access_ends hyolo) fun access tr₂ hpolicy h₂ => ?_
  cases access with
  | some reason => simpa using hinteraction _ _ (tr₁ ++ tr₂)
  | none =>
    have hpermitted := Permitted.of_reads (c := .decide context request) hlive hadmitted hlogin.1 (hfresh hlogin.2)
      (hpolicy rfl)
    refine alongE_ite (fun _ => by simpa using hinteraction _ _ (tr₁ ++ tr₂)) fun hnone => ?_
    refine alongE_ite (fun _ => ?_) fun hdecision => ?_
    · refine refused_along (some viewer) (hadmitted.client.sublist ?_) _ _ _
      simp
    · refine alongE_ite (fun _ => by simpa using hinteraction _ _ (tr₁ ++ tr₂)) fun helevated => ?_
      refine first_along (saveConsent_codes _ _) saveConsent_ends fun _ tr₃ hsaved h₃ => ?_
      refine completeAuthorization_along rfl (hpermitted.sublist (List.sublist_append_left _ tr₃)) ?_
        (((huntouched.append h₁).append h₂).append h₃)
      obtain ⟨t, ht, hstmt⟩ := hsaved
      refine ⟨hcsrf, by simpa using hnone, not_not.1 hdecision, fun hmem => ?_, t, List.mem_append_right _ ht, hstmt⟩
      by_contra hconfirm
      simp [hmem, hconfirm] at helevated

theorem postDecision_along (hyolo : env.yolo = false) {request : DecisionRequest} :
    alongE (CodeStep env (.decide context request)) (postDecision env context request)
      (fun answer tr => Reason env (.decide context request) tr answer) (fun _ _ => True) [] := by
  unfold postDecision
  refine first_along (codesKept_quiet (sessionMiddleware_quiet _)) sessionMiddleware_ends fun found tr₁ hlive h₁ => ?_
  refine alongE_ite (fun _ => .errorPage 400 _) fun _ => ?_
  cases found with
  | none => exact .login _ _ trivial
  | some viewer =>
    refine alongE_ite (fun _ => .errorPage 403 _) fun hcsrf => ?_
    refine first_along (codesKept_quiet enforceMetadataAuthorizeRate_quiet) enforceMetadataAuthorizeRate_ends
      fun limited tr₂ hlimited h₂ => ?_
    cases limited with
    | some answer =>
      obtain ⟨k, rfl⟩ := hlimited answer rfl
      exact .tooManyRequests k
    | none =>
      refine first_along validateAuthorizeRequest_codes (validation_ends hyolo) fun validation tr₃ hvalidation h₃ => ?_
      cases validation with
      | ok params =>
        exact handleDecision_along hyolo ((hlive viewer rfl).sublist (by simp)) (by simpa using hcsrf)
          (hvalidation.sublist (by simp)) ((h₁.append h₂).append h₃)
      | invalidRequestPage description reason clientId =>
        exact dispatchValidation_along (some viewer) (fun params => by rintro ⟨⟩) trivial
      | errorRedirect redirectUri state error description =>
        exact dispatchValidation_along (some viewer) (fun params => by rintro ⟨⟩) hvalidation

theorem authorize_along (hyolo : env.yolo = false) (c : AuthorizeCall) :
    alongE (CodeStep env c) (c.code env) (fun answer tr => Reason env c tr answer) (fun _ _ => True) [] := by
  cases c with
  | get context request => exact getAuthorize_along hyolo
  | decide context request => exact postDecision_along hyolo

/-! ## Requests that allow no interaction -/

/-- The prompts are those of the words. -/
theorem parsePrompts_congr {raw raw' : String} (h : parseScopeString (some raw) = parseScopeString (some raw')) :
    parsePrompts (some raw) = parsePrompts (some raw') := by
  unfold parsePrompts
  dsimp only
  rw [h]

/-- `prompt=none` is asked for with this word alone. -/
theorem eq_none_of_parsePrompts {raw : String} (h : parsePrompts (some raw) = some [.none]) :
    ∀ word ∈ parseScopeString (some raw), word = "none" := by
  intro word hword
  unfold parsePrompts at h
  dsimp only at h
  split at h
  · cases h
  · rename_i prompts hprompts
    split at h
    · cases h
    · cases h
      rw [mapM_eq_some, List.forall₂_cons_right_iff] at hprompts
      obtain ⟨w, words, hparse, hrest, hwords⟩ := hprompts
      cases hrest
      have hmem : word ∈ (parseScopeString (some raw)).eraseDups := List.mem_eraseDups.2 hword
      rw [hwords, List.mem_singleton] at hmem
      subst hmem
      unfold AuthorizePrompt.parse at hparse
      split at hparse
      · rfl
      all_goals cases hparse

/-- A login does not take `prompt=none` away. -/
theorem continuedQuery_prompt {request : AuthorizeRequest} (found : Option AuthenticatedSession)
    (h : parsePrompts (request.searchParams.get "prompt") = some [.none]) :
    parsePrompts ((continuedQuery env context request found).get "prompt") = some [.none] := by
  have hproof : (request.searchParams.delete REAUTH_PROOF_PARAM).get "prompt" = request.searchParams.get "prompt" :=
    SearchParams.get_delete (by decide) _
  unfold continuedQuery
  rcases consume_cases env (found.map (·.session.id)) context.consumedAt context.now request.pathname request.searchParams
    context.continuations with ⟨-, heq⟩ | ⟨token, session, row, -, -, -, heq⟩
  · rw [heq, hproof, h]
  · rw [heq]
    dsimp only
    split
    · cases hprompt : request.searchParams.get "prompt" with
      | none =>
        rw [hprompt] at h
        cases h
      | some raw =>
        rw [hprompt] at h
        have hnone := eq_none_of_parsePrompts h
        have hkept : (parseScopeString (some raw)).filter (· ≠ "login") = parseScopeString (some raw) :=
          List.filter_eq_self.2 fun word hword => by
            rw [hnone word hword]
            decide
        have hsome : parseScopeString (some raw) ≠ [] := by
          intro hempty
          unfold parsePrompts at h
          dsimp only at h
          rw [hempty] at h
          cases h
        unfold satisfied
        rw [hproof, hprompt, Option.getD_some]
        dsimp only
        rw [hkept, if_neg hsome, SearchParams.get_delete (by decide), SearchParams.get_set]
        rw [parsePrompts_congr (parse_serialize fun s hs => isWord_of_mem_parse hs), h]
    · rw [hproof, h]

/-- A request with `prompt=none` is answered without any interaction, whatever the server finds: it is never sent to
the login nor shown a consent page. What is sent back goes to a URI of the client that the request names, and a code
is sent only for a live and fresh session whose user had consented before. -/
theorem none_is_silent (hyolo : env.yolo = false) {request : AuthorizeRequest} {answer : AuthorizeAnswer}
    (hpath : Path (getAuthorize env context request).run tr (.done (.ok answer)))
    (hprompt : parsePrompts (request.searchParams.get "prompt") = some [.none]) :
    (∀ returnTo forced, answer ≠ .login returnTo forced) ∧ (∀ page, answer ≠ .consentPage page) ∧
      ∀ redirectUri response, answer = .respond redirectUri response →
        (∃ viewer clientId client, ProvenClient env (continuedQuery env context request viewer) clientId client redirectUri tr) ∧
          ∀ code, ("code", code) ∈ response → ∃ params viewer, params.redirectUri = redirectUri ∧
            Permitted env (.get context request) params viewer tr ∧ SawConsent params viewer tr := by
  have hreason : Reason env (.get context request) tr answer := hpath.along_end (getAuthorize_along hyolo)
  have hnone : ∀ {params viewer}, Admitted env (continuedQuery env context request viewer) params tr → .none ∈ params.prompts := by
    intro params viewer hadmitted
    have hparams := hadmitted.complete.prompts.1
    rw [continuedQuery_prompt viewer hprompt] at hparams
    rw [← Option.some.inj hparams]
    exact List.mem_singleton_self _
  cases hreason with
  | errorPage => exact ⟨by rintro _ _ ⟨⟩, by rintro _ ⟨⟩, by rintro _ _ ⟨⟩⟩
  | tooManyRequests => exact ⟨by rintro _ _ ⟨⟩, by rintro _ ⟨⟩, by rintro _ _ ⟨⟩⟩
  | login returnTo forced hinteractive =>
    obtain ⟨viewer, params, hadmitted, hprompts⟩ := hinteractive
    exact absurd (hnone hadmitted) hprompts
  | consentPage params viewer hpermitted hprompts => exact absurd (hnone hpermitted.admitted) hprompts
  | refused viewer hproven error description state =>
    refine ⟨by rintro _ _ ⟨⟩, by rintro _ ⟨⟩, ?_⟩
    rintro _ _ ⟨⟩
    refine ⟨⟨viewer, _, _, hproven⟩, fun code hcode => ?_⟩
    cases state <;> simp [authorizationResponseParams, withState] at hcode
  | code params viewer resource hpermitted hconsented hstored =>
    refine ⟨by rintro _ _ ⟨⟩, by rintro _ ⟨⟩, ?_⟩
    rintro _ _ ⟨⟩
    exact ⟨⟨some viewer, _, _, hpermitted.admitted.client⟩, fun code _ => ⟨params, viewer, rfl, hpermitted, hconsented.2⟩⟩

end

/-! ## An answered request -/

/-- The deployment, with the session of the cookie `token_b`. -/
def cookieWorld : World :=
  { Deployment.world with
    db := { Deployment.database with
      sessions := (∅ : Table SessionRow.id).insert
        { Deployment.session with tokenHash := hashOpaqueToken Deployment.env "token_b" } } }

def sampleContext : AuthorizeContext :=
  { rate := ⟨true, 59, 0, false⟩, consumedAt := 1000, now := 1000, continuations := ∅, fetched := none, consentId := "con_b",
    code := "code_a" }

def silentRequest : AuthorizeRequest :=
  { sessionToken := some "token_b", pathname := "/oauth/authorize", searchParams := sampleQuery ++ [("prompt", "none")] }

theorem none_is_silent_answered : ∃ tr response, ("code", "code_a") ∈ response ∧
    Path (getAuthorize Deployment.env sampleContext silentRequest).run tr
      (.done (.ok (.respond "https://app.example.com/callback" response))) ∧
    ∃ params viewer, params.redirectUri = "https://app.example.com/callback" ∧
      Permitted Deployment.env (.get sampleContext silentRequest) params viewer tr ∧ SawConsent params viewer tr := by
  have hrun : (runOn Deployment.ok 30 (getAuthorize Deployment.env sampleContext silentRequest).run cookieWorld).map (·.1) =
      some (.ok (.respond "https://app.example.com/callback"
        [("code", "code_a"), ("iss", "https://auth.example.com"), ("state", "xyz")])) := by decide +kernel
  obtain ⟨⟨r, w'⟩, hrun, rfl⟩ := Option.map_eq_some_iff.1 hrun
  obtain ⟨tr, hpath⟩ := (runs_of_runOn hrun).path
  obtain ⟨-, -, hresponse⟩ := none_is_silent rfl hpath (by decide +kernel)
  exact ⟨tr, _, List.mem_cons_self, hpath, (hresponse _ _ rfl).2 "code_a" List.mem_cons_self⟩

end Keyforge.Authorize
