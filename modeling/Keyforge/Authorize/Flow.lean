/-
The authorization code flow, from the consent to the tokens. Authorization requests, decisions and exchanges
interleave with each other and with whatever else the server does. The invariant: a code that can be consumed was
stored by a request that had passed every check, and no other step has stored it. So tokens that are answered for
a code are those that this request approved, to the client that it named, and only once.
-/
import Keyforge.Authorize.Gate
import Keyforge.Do.Consume
import Keyforge.OAuth.Confinement
import Keyforge.Tokens.Rules

namespace Keyforge.Authorize

open Lib Db Do Auth OAuth Security Routes Tokens

/-! ## The calls -/

/-- The rest of the server does not store codes; an alarm empties an object. -/
def LeavesCodes (w w' : World) : Prop :=
  ∀ h, w'.codes h = w.codes h ∨ w'.codes h = .empty

inductive FlowCall where
  | authorize (c : AuthorizeCall)
  | exchange (client : ClientRow) (form : AuthorizationCodeForm) (familyId secret grantId : String)
  | other (step : World → World)

inductive FlowAnswer where
  | authorized (answer : AuthorizeAnswer)
  | tokens (response : TokenResponse)
  | done
  deriving DecidableEq, Repr

def FlowCall.code (env : Env) : FlowCall → App FlowAnswer
  | .authorize c => FlowAnswer.authorized <$> c.code env
  | .exchange client form familyId secret grantId =>
    FlowAnswer.tokens <$> handleAuthorizationCode env client form familyId secret grantId
  | .other step => io fun w => (.done, step w)

/-- The object that a code drawn by the request would be stored in. -/
def FlowCall.stores (env : Env) : FlowCall → Option String
  | .authorize c => some (hashOpaqueToken env c.context.code)
  | _ => none

/-- A call may arrive: the code it draws is new. -/
structure FlowAdmits (env : Env) (P : Pool FlowCall Input World (Except Failure FlowAnswer)) (c : FlowCall) : Prop where
  fresh : ∀ h, c.stores env = some h → ∀ t ∈ P.threads, t.1.stores env ≠ some h
  leaves : ∀ step, c = .other step → ∀ w, LeavesCodes w (step w)

/-- Any storage call may fail, with or without having taken effect. -/
def flowSystem (env : Env) : System FlowCall Input World (Except Failure FlowAnswer) where
  code := fun c => (c.code env).run
  allow := fun _ _ _ => True
  arrive := FlowAdmits env

/-! ## Redeeming a code -/

/-- The step consumes the code that the form presents, as its payload asks for. -/
structure Redeems (env : Env) (client : ClientRow) (form : AuthorizationCodeForm) (grant : AuthorizationCodePayload)
    (t : World × World) : Prop where
  presented : ∃ code input, form.code = some code ∧ form.redirectUri = some input.redirectUri ∧
    form.codeVerifier = some input.codeVerifier ∧ input.clientId = client.clientId ∧
      input.metadataFingerprint = client.metadataFingerprint ∧ Do.Presents env.sha256 grant input ∧
        (t.1.codes (hashOpaqueToken env code)).Live t.2.nowMs grant ∧
          (t.2.codes (hashOpaqueToken env code)).Gone

/-- The tokens are those of the grant. -/
structure GrantTokens (client : ClientRow) (grant : AuthorizationCodePayload) (response : TokenResponse) : Prop where
  accessToken : response.accessToken = ⟨grant.userId, grant.resource, client.clientId, grant.scope, some grant.authTime,
    TOKEN_TTL.userAccessToken⟩
  idToken : ∀ idToken, response.idToken = some idToken →
    idToken = ⟨grant.userId, client.clientId, parseScopeString (some grant.scope), grant.authTime, grant.nonce⟩

/-- What the steps of a call do to the codes. -/
inductive FlowStep (env : Env) (c : FlowCall) (past : Steps) (t : World × World) : Prop
  | leave (h : LeavesCodes t.1 t.2)
  | store (a : AuthorizeCall) (call : c = .authorize a) (untouched : Untouched past) (payload : AuthorizationCodePayload)
    (backs : Backs env a payload past) (h : StoresCode env a.context.code payload t)
  | consume (codeHash : String) (input : ConsumeIfInput) (h : t.2.codes = Function.update t.1.codes codeHash
      (consumeIf env.sha256 false t.2.nowMs input (t.1.codes codeHash)).2)

section

variable {env : Env} {client : ClientRow} {form : AuthorizationCodeForm} {familyId secret grantId : String} {past : Steps}

theorem leavesCodes_of_eq {w w' : World} (h : w'.codes = w.codes) : LeavesCodes w w' :=
  fun _ => Or.inl (by rw [h])

theorem codesKept_tolerant : Tolerant codesKept where
  toClocked := codesKept_clocked
  burnInv := fun _ _ => trivial
  burnRely := fun _ => trivial
  burnGuar := fun ⟨_, _, h⟩ => by
    rw [h]
    rfl

theorem codesKept_io {α : Type} {op : World → α × World} (h : ∀ w, (op w).2.codes = w.codes) : Keeps codesKept (io op) :=
  Keeps.io codesKept_clocked fun w _ _ _ => ⟨trivial, h w⟩

theorem issueRefreshToken_codes (input : IssueRefreshInput) : Keeps codesKept (issueRefreshToken env input familyId secret) := by
  have hrevoke : ∀ {α : Type} (x : Failure), Keeps codesKept (do revokeFamily familyId; throw x : App α) := fun x =>
    Keeps.bind (by unfold revokeFamily familyObject; exact codesKept_io fun _ => rfl) fun _ => Keeps.throw x
  unfold issueRefreshToken
  refine Keeps.bind (codesKept_quiet .clock) fun now => Keeps.bind ?_ fun _ => ?_
  · unfold initFamily familyObject
    exact codesKept_io fun _ => rfl
  · refine Keeps.bind (Keeps.tryCatch (codesKept_d1 _ _) fun x => hrevoke x) fun r => Keeps.ite (hrevoke _) ?_
    exact Keeps.bind (keeps_revokeRefreshFamilyDurableObjects codesKept_tolerant _) fun _ => Keeps.pure _

theorem issueUserTokens_codes {input : IssueUserTokensInput} (haccess : input.accessValidated = true) :
    Keeps codesKept (issueUserTokens env input familyId secret) := by
  rw [issueUserTokens, haccess]
  dsimp only
  rw [Bool.not_true, if_neg Bool.false_ne_true]
  refine Keeps.bind (codesKept_quiet (signJwt_quiet _)) fun _ => Keeps.bind (codesKept_quiet (idTokenFor_quiet _ _ _ _ _)) fun _ => ?_
  exact Keeps.ite (Keeps.bind (issueRefreshToken_codes _) fun _ => Keeps.pure _) (Keeps.pure _)

theorem exchangeGrant_codes {grant : AuthorizationCodePayload} :
    Keeps codesKept (exchangeGrant env client grant familyId secret grantId) := by
  unfold exchangeGrant
  refine Keeps.bind (codesKept_quiet (grantChecks_quiet _ _ _ _ _ _)) fun checks => ?_
  split
  · exact Keeps.throw _
  · refine Keeps.bind (Keeps.require _ _) fun _ => Keeps.bind (Keeps.require _ _) fun _ => ?_
    split
    · exact Keeps.throw _
    · exact Keeps.throw _
    · refine Keeps.bind (issueUserTokens_codes rfl) fun response => Keeps.bind ?_ fun _ => ?_
      · unfold recordAuthorizationGrant d1
        exact Keeps.bind (codesKept_quiet .clock) fun _ => codesKept_d1 _ _
      · exact Keeps.bind (codesKept_quiet recordAudit_quiet) fun _ => Keeps.pure _

/-- The tokens of a consumed code are its own. -/
theorem exchangeGrant_tokens (hyolo : env.yolo = false) {grant : AuthorizationCodePayload} :
    endsE (exchangeGrant env client grant familyId secret grantId) (fun response _ => GrantTokens client grant response)
      fun _ _ => True := by
  have hlast : ∀ grant, Lasting fun (response : TokenResponse) (_ : Steps) => GrantTokens client grant response :=
    fun _ _ _ _ _ h => h
  rw [exchangeGrant, endsE_bind]
  refine endsE_imp (fun checks tr hchecks => ?_) (fun _ _ _ => trivial) _ (grantChecks_ends hyolo)
  split
  · trivial
  · rename_i user huser
    obtain ⟨hfound, -⟩ := Option.filter_eq_some_iff.1 huser
    obtain ⟨t, -, hget⟩ := hchecks.user user hfound
    -- the user is the one of the grant
    have hid : user.id = grant.userId := (Table.get?_eq_some.1 hget).2
    refine endsE_skip (hlast _) (fun _ _ => trivial) fun _ => endsE_skip (hlast _) (fun _ _ => trivial) fun _ => ?_
    split
    · trivial
    · trivial
    · rw [endsE_bind]
      refine endsE_imp (fun response tr' htokens => ?_) (fun _ _ _ => trivial)
        (issueUserTokens env _ familyId secret) (Q := fun response _ => GrantTokens client grant response) (X := fun _ _ => True) ?_
      · refine endsE_skip (hlast _) (fun _ _ => trivial) fun _ => endsE_skip (hlast _) (fun _ _ => trivial) fun _ => htokens
      · rw [issueUserTokens]
        dsimp only
        rw [Bool.not_true, if_neg Bool.false_ne_true, issueUserAccessToken, OAuth.signJwt, endsE_bind]
        refine endsE_query (fun w dt => ?_) fun _ => trivial
        rw [endsE_bind]
        refine endsE_imp (fun idToken tr₁ hidToken => ?_) (fun _ _ _ => trivial)
          (idTokenFor user client.clientId _ grant.authTime grant.nonce) (Q := fun idToken _ => ∀ t, idToken = some t →
            t = ⟨grant.userId, client.clientId, parseScopeString (some grant.scope), grant.authTime, grant.nonce⟩)
          (X := fun _ _ => True) ?_
        -- the access token is signed before the other two
        · have htokens : ∀ refreshToken, GrantTokens client grant ⟨⟨user.id, grant.resource, client.clientId, grant.scope,
              some grant.authTime, TOKEN_TTL.userAccessToken⟩, grant.scope, idToken, refreshToken⟩ :=
            fun _ => ⟨by rw [hid], hidToken⟩
          refine endsE_ite (fun _ => ?_) fun _ => htokens _
          exact endsE_skip (hlast _) (fun _ _ => trivial) fun refresh => htokens _
        · unfold idTokenFor issueIdToken OAuth.signJwt
          refine endsE_ite (fun _ => ?_) fun _ => by rintro t ⟨⟩
          rw [map_eq_pure_bind, endsE_bind]
          refine endsE_query (fun w dt => ?_) fun _ => trivial
          rintro t ⟨⟩
          rw [hid]

/-- An exchange that is answered with tokens redeemed its code. -/
theorem exchange_redeems (hyolo : env.yolo = false) :
    endsE (handleAuthorizationCode env client form familyId secret grantId) (fun response tr =>
      ∃ grant, ∃ t ∈ tr, Redeems env client form grant t ∧ GrantTokens client grant response) fun _ _ => True := by
  unfold handleAuthorizationCode
  split
  · rename_i code redirectUri codeVerifier hcode hredirectUri hcodeVerifier
    rw [endsE_bind, consumeCode]
    refine endsE_io (fun w dt => ?_) fun _ => trivial
    dsimp only
    rw [hyolo]
    generalize hinput : ConsumeIfInput.mk env.issuer client.clientId redirectUri form.resource client.metadataFingerprint
      codeVerifier = input
    cases hresult : (consumeIf env.sha256 false (w.tick dt).nowMs input ((w.tick dt).codes (hashOpaqueToken env code))).1 with
    | refused reason =>
      dsimp only
      have hnever : ∀ holds x y, endsE (require holds x >>= fun _ => (throw y : App TokenResponse))
          (fun _ _ => False) fun _ _ => True := by
        intro holds x y
        rw [endsE_bind, endsE_require]
        exact ⟨fun _ => trivial, fun _ => trivial⟩
      refine endsE_ite (fun _ => ?_) fun _ => endsE_imp (fun _ _ h => h.elim) (fun _ _ _ => trivial) _ (hnever _ _ _)
      rw [endsE_bind]
      refine endsE_imp (fun _ _ _ => ?_) (fun _ _ _ => trivial) _ (endsE_true recordAudit)
      exact endsE_imp (fun _ _ h => h.elim) (fun _ _ _ => trivial) _ (hnever _ _ _)
    | found grant =>
      dsimp only
      refine endsE_imp (fun response tr htokens => ?_) (fun _ _ _ => trivial) _ (exchangeGrant_tokens hyolo)
      obtain ⟨hlive, hpresents⟩ := consumeIf_found.1 hresult
      refine ⟨grant, _, List.mem_cons_self, ⟨code, input, hcode, ?_, ?_, ?_, ?_, hpresents, hlive, ?_⟩, htokens⟩
      · rw [← hinput, hredirectUri]
      · rw [← hinput, hcodeVerifier]
      · rw [← hinput]
      · rw [← hinput]
      · have hgone := (consumeIf_outcome env.sha256 (w.tick dt).nowMs input ((w.tick dt).codes (hashOpaqueToken env code)))
        rw [hresult] at hgone
        simpa using hgone.gone_after
  · trivial

theorem exchange_along (hyolo : env.yolo = false) :
    alongE (FlowStep env (.exchange client form familyId secret grantId))
      (handleAuthorizationCode env client form familyId secret grantId) (fun _ _ => True) (fun _ _ => True) past := by
  have hkeeps : ∀ {p : App TokenResponse} (past : Steps), Keeps codesKept p →
      alongE (FlowStep env (.exchange client form familyId secret grantId)) p (fun _ _ => True) (fun _ _ => True) past := by
    intro p past hp
    have hevery := every_of_wp (fun _ => trivial) (fun _ _ => trivial) (fun _ _ _ => trivial) _ (hp Deployment.world trivial)
    refine alongE_imp (fun _ _ _ => trivial) (fun _ _ _ => trivial) _ (alongE_every (fun past t h => ?_) hevery (endsE_true p))
    exact .leave (leavesCodes_of_eq h)
  unfold handleAuthorizationCode
  split
  · rw [alongE_bind, consumeCode, hyolo]
    refine alongE_io (fun w dt => ?_) (fun w dt => ?_) (fun w dt => ?_) fun _ => trivial
    · exact .consume _ _ rfl
    · exact .leave (leavesCodes_of_eq rfl)
    · refine hkeeps _ ?_
      split
      · dsimp only
        refine Keeps.ite (Keeps.bind (codesKept_quiet recordAudit_quiet) fun _ => ?_) ?_
        · exact Keeps.bind (Keeps.require _ _) fun _ => Keeps.throw _
        · exact Keeps.bind (Keeps.require _ _) fun _ => Keeps.throw _
      · exact exchangeGrant_codes
  · trivial

/-- Every step of a call is one of these. -/
theorem flow_step (hyolo : env.yolo = false) {c : FlowCall} (hleaves : ∀ step, c = .other step → ∀ w, LeavesCodes w (step w))
    {tr before after : Steps} {t : World × World} {q : Prog Input World (Except Failure FlowAnswer)}
    (h : Path (c.code env).run tr q) (htr : tr = before ++ t :: after) : FlowStep env c before t := by
  have hstep : ∀ {Ψ : Steps → World × World → Prop}, alongE Ψ (c.code env) (fun _ _ => True) (fun _ _ => True) [] →
      Ψ before t := fun halong => h.along halong htr
  cases c with
  | authorize a =>
    have hcode : alongE (CodeStep env a) (FlowCall.code env (.authorize a)) (fun _ _ => True) (fun _ _ => True) [] := by
      rw [FlowCall.code, map_eq_pure_bind, alongE_bind]
      exact alongE_imp (fun _ _ _ => trivial) (fun _ _ _ => trivial) _ (authorize_along hyolo a)
    rcases hstep hcode with hsame | ⟨huntouched, payload, hbacks, hstores⟩
    · exact .leave (leavesCodes_of_eq hsame)
    · exact .store a rfl huntouched payload hbacks hstores
  | exchange client form familyId secret grantId =>
    refine hstep ?_
    rw [FlowCall.code, map_eq_pure_bind, alongE_bind]
    exact alongE_imp (fun _ _ _ => trivial) (fun _ _ _ => trivial) _ (exchange_along hyolo)
  | other step =>
    refine hstep (?_ : alongE (FlowStep env (.other step)) (io fun w => (FlowAnswer.done, step w)) (fun _ _ => True)
      (fun _ _ => True) [])
    refine alongE_io (fun w dt => ?_) (fun w dt => ?_) (fun _ _ => trivial) fun _ => trivial
    · exact .leave (hleaves step rfl (w.tick dt))
    · exact .leave (leavesCodes_of_eq rfl)

end

/-! ## Where a code comes from -/

/-- The code at `h` was stored by a request of the run that had passed its checks, and could be consumed ever since. -/
structure Origin (env : Env) (P : Pool FlowCall Input World (Except Failure FlowAnswer)) (h : String)
    (payload : AuthorizationCodePayload) (now : Nat) (older : List (Taken World)) (first : List (Taken World)) (t : Taken World)
    (a : AuthorizeCall) : Prop where
  split : ∃ rest, older = first ++ t :: rest ∧ ∀ v ∈ rest, (v.after.codes h).Live now payload
  thread : ∃ p, P.threads[t.thread]? = some (.authorize a, p)
  object : hashOpaqueToken env a.context.code = h
  untouched : Untouched (stepsOf t.thread first)
  backs : Backs env a payload (stepsOf t.thread first)
  stores : StoresCode env a.context.code payload (t.before, t.after)
  changes : t.after.codes ≠ t.before.codes
  inTime : now ≤ t.after.nowMs + TOKEN_TTL.authorizationCode * 1000

section

variable {env : Env} {w₀ : World} {steps older newer : List (Taken World)}
  {P : Pool FlowCall Input World (Except Failure FlowAnswer)} {t : Taken World} {h : String}
  {payload : AuthorizationCodePayload} {now : Nat}

theorem Origin.next {first : List (Taken World)} {u : Taken World} {a : AuthorizeCall}
    (ho : Origin env P h payload now older first u a) (hlive : (t.after.codes h).Live now payload) :
    Origin env P h payload now (older ++ [t]) first u a := by
  obtain ⟨rest, rfl, hrest⟩ := ho.split
  refine { ho with split := ⟨rest ++ [t], by simp, fun v hv => ?_⟩ }
  rcases List.mem_append.1 hv with hv | hv
  · exact hrest v hv
  · rwa [List.mem_singleton.1 hv]

/-- An object whose item can be consumed after a step that did not store it could be before. -/
theorem live_of_outcome {T : Type} {s s' : OneTimeStorage T} {found : Bool} {nowMs : Nat} {v : T}
    (ho : OneTimeStorage.Outcome nowMs s found s') (hlive : s'.Live now v) : s.Live now v := by
  cases ho with
  | kept => exact hlive
  | deleted => exact absurd hlive.1 (by simp [OneTimeStorage.empty])
  | taken => exact absurd hlive.1 (by simp)

/-- What a step of a run does to the codes. -/
theorem run_step (hyolo : env.yolo = false) (hrun : (flowSystem env).Run ⟨w₀, []⟩ steps P)
    (hsteps : steps = older ++ t :: newer) : ∃ c p, P.threads[t.thread]? = some (c, p) ∧
      FlowStep env c (stepsOf t.thread older) (t.before, t.after) := by
  have hlt := hrun.thread_lt t (by simp [hsteps])
  obtain ⟨⟨c, p⟩, hthread⟩ : ∃ x, P.threads[t.thread]? = some x := ⟨_, List.getElem?_eq_getElem hlt⟩
  have hleaves : ∀ x ∈ P.threads, ∀ step, x.1 = .other step → ∀ w, LeavesCodes w (step w) :=
    hrun.arrived (V := fun c => ∀ step, c = .other step → ∀ w, LeavesCodes w (step w)) fun P c (hc : FlowAdmits env P c) =>
      hc.leaves
  have htr : stepsOf t.thread steps = stepsOf t.thread older ++ (t.before, t.after) :: stepsOf t.thread newer := by
    rw [hsteps, stepsOf_append, stepsOf_cons, if_pos rfl]
  exact ⟨c, p, hthread, flow_step hyolo (hleaves _ (List.mem_of_getElem? hthread)) (hrun.path hthread) htr⟩

/-- A code that can be consumed has its origin among the steps before. -/
theorem live_origin (hyolo : env.yolo = false) (hstart : ∀ h, w₀.codes h = .empty)
    (hrun : (flowSystem env).Run ⟨w₀, []⟩ steps P) (hsteps : steps = older ++ t :: newer)
    (hlive : (t.before.codes h).Live now payload) : ∃ first u a, Origin env P h payload now older first u a := by
  -- induction on the steps before `t`
  have hchain : Chained w₀ older t.before := by
    have hchained := hrun.chained
    rw [hsteps] at hchained
    exact hchained.at.1
  have hall := hchain.trace (K := fun older w => ∀ h now payload, (w.codes h).Live now payload →
    ∃ first u a, Origin env P h payload now older first u a) ?_ ?_
  · exact hall h now payload hlive
  · intro h now payload hlive
    rw [hstart] at hlive
    cases hlive.1
  · intro before u after hbefore ih h now payload hlive
    -- live before the step, or only since
    by_cases hwas : (u.before.codes h).Live now payload
    · obtain ⟨first, v, a, ho⟩ := ih h now payload hwas
      exact ⟨first, v, a, ho.next hlive⟩
    · have hsplit : steps = before ++ u :: (after ++ t :: newer) := by
        rw [hsteps, hbefore]
        simp
      obtain ⟨c, p, hthread, hstep⟩ := run_step hyolo hrun hsplit
      cases hstep with
      | leave hleaves =>
        rcases hleaves h with hsame | hempty
        · exact absurd (hsame ▸ hlive) hwas
        · rw [hempty] at hlive
          cases hlive.1
      -- a consumption makes no code live
      | consume codeHash input hcodes =>
        refine absurd ?_ hwas
        by_cases hh : h = codeHash
        · subst hh
          rw [hcodes, Function.update_self] at hlive
          exact live_of_outcome (consumeIf_outcome _ _ _ _) hlive
        · rwa [hcodes, Function.update_of_ne hh] at hlive
      | store a hcall huntouched payload' hbacks hstores =>
        by_cases hh : h = hashOpaqueToken env a.context.code
        · subst hh
          have hobject := congrFun hstores (hashOpaqueToken env a.context.code)
          rw [Function.update_self] at hobject
          have hlive' := hlive
          rw [hobject] at hlive'
          obtain ⟨-, hvalue, e, he, hle⟩ := hlive'
          cases hvalue
          cases he
          -- stored by this step: the origin starts here
          refine ⟨before, u, a, ⟨⟨[], rfl, fun v hv => absurd hv List.not_mem_nil⟩, ⟨p, by rw [hthread, hcall]⟩, rfl, huntouched, hbacks, hstores, fun hsame => ?_, hle⟩⟩
          rw [hsame] at hlive
          exact hwas hlive
        · rw [hstores, Function.update_of_ne hh] at hlive
          exact absurd hlive hwas

end

/-! ## The flow -/

/-- The tokens are those that the request approved, to the client that it named. -/
structure FlowTokens (env : Env) (a : AuthorizeCall) (params : AuthorizeParams) (viewer : AuthenticatedSession)
    (client : ClientRow) (form : AuthorizationCodeForm) (response : TokenResponse) : Prop where
  code : ∃ code, form.code = some code ∧ hashOpaqueToken env code = hashOpaqueToken env a.context.code
  redirectUri : form.redirectUri = some params.redirectUri
  verifier : ∃ codeVerifier, form.codeVerifier = some codeVerifier ∧ isValidCodeVerifier codeVerifier = true ∧
    computeS256Challenge env.sha256 codeVerifier = params.codeChallenge
  client : client.clientId = params.clientId ∧ client.metadataFingerprint = params.client.metadataFingerprint
  accessToken : response.accessToken = ⟨viewer.user.id, params.resource, params.clientId, serializeScopes params.scopes,
    some viewer.session.authTime, TOKEN_TTL.userAccessToken⟩
  idToken : ∀ idToken, response.idToken = some idToken →
    idToken = ⟨viewer.user.id, params.clientId, params.scopes, viewer.session.authTime, params.nonce⟩

section

variable {env : Env} {w₀ : World} {steps : List (Taken World)} {P : Pool FlowCall Input World (Except Failure FlowAnswer)}
  {i i' : Nat} {client client' : ClientRow} {form form' : AuthorizationCodeForm} {familyId familyId' secret secret' grantId grantId' : String}
  {response response' : TokenResponse}

/-- The step at which an exchange that is answered with tokens redeemed its code. -/
theorem redeemed (hyolo : env.yolo = false) (hrun : (flowSystem env).Run ⟨w₀, []⟩ steps P)
    (hdone : P.finished i = some (.exchange client form familyId secret grantId, .ok (.tokens response))) :
    ∃ older u newer grant, steps = older ++ u :: newer ∧ u.thread = i ∧ Redeems env client form grant (u.before, u.after) ∧
      GrantTokens client grant response := by
  have hends : endsE (FlowCall.code env (.exchange client form familyId secret grantId)) (fun answer tr => ∀ response,
      answer = .tokens response → ∃ grant, ∃ t ∈ tr, Redeems env client form grant t ∧ GrantTokens client grant response)
      fun _ _ => True := by
    rw [FlowCall.code, map_eq_pure_bind, endsE_bind]
    refine endsE_imp (fun response tr h => ?_) (fun _ _ _ => trivial) _ (exchange_redeems hyolo)
    rw [endsE_pure, List.append_nil]
    rintro _ ⟨⟩
    exact h
  obtain ⟨grant, x, hx, hredeems, htokens⟩ := (endsE_iff.1 hends).1 _ _ (hrun.finished hdone) response rfl
  obtain ⟨u, hu, hthread, rfl⟩ := mem_stepsOf.1 hx
  obtain ⟨older, newer, hsplit⟩ := List.append_of_mem hu
  exact ⟨older, u, newer, grant, hsplit, hthread, hredeems, htokens⟩

/-- In every run, whatever else the server does in between, tokens are answered for a code only after a request of
a live session stored it, once every check of that request had passed; the exchange redeems what the request stored
in time, for the client, the redirect URI, the verifier, the user, the audience and the scopes of that request. -/
theorem code_flow (hyolo : env.yolo = false) (hstart : ∀ h, w₀.codes h = .empty)
    (hrun : (flowSystem env).Run ⟨w₀, []⟩ steps P)
    (hdone : P.finished i = some (.exchange client form familyId secret grantId, .ok (.tokens response))) :
    ∃ first t rest a p params viewer resource, steps = first ++ t :: rest ∧
      P.threads[t.thread]? = some (.authorize a, p) ∧ Permitted env a params viewer (stepsOf t.thread first) ∧
      a.Consented env params viewer (stepsOf t.thread first) ∧
      StoresCode env a.context.code (codePayload env params (subjectOf viewer) resource) (t.before, t.after) ∧
      (∃ u ∈ rest, u.thread = i ∧ Redeems env client form (codePayload env params (subjectOf viewer) resource)
        (u.before, u.after) ∧ u.after.nowMs ≤ t.after.nowMs + TOKEN_TTL.authorizationCode * 1000) ∧
      FlowTokens env a params viewer client form response := by
  obtain ⟨older, u, newer, grant, hsteps, hthread, hredeems, htokens⟩ := redeemed hyolo hrun hdone
  obtain ⟨code, input, hcode, hredirectUri, hverifier, hclient, hfingerprint, hpresents, hlive, -⟩ := hredeems.presented
  obtain ⟨first, t, a, ho⟩ := live_origin hyolo hstart hrun hsteps hlive
  obtain ⟨rest, rfl, -⟩ := ho.split
  obtain ⟨p, hp⟩ := ho.thread
  obtain ⟨params, viewer, resource, rfl, hpermitted, hconsented, -⟩ := ho.backs
  refine ⟨first, t, rest ++ u :: newer, a, p, params, viewer, resource, by rw [hsteps]; simp, hp, hpermitted, hconsented, ho.stores,
    ⟨u, by simp, hthread, hredeems, ho.inTime⟩, ?_⟩
  have hscopes : parseScopeString (some (serializeScopes params.scopes)) = params.scopes := by
    rw [hpermitted.admitted.complete.scopes.1]
    exact parse_serialize fun s hs => isWord_of_mem_parse hs
  refine ⟨⟨code, hcode, ho.object.symm⟩, ?_, ⟨input.codeVerifier, hverifier, hpresents.verifier, hpresents.challenge⟩,
    ⟨hclient.symm.trans hpresents.clientId, hfingerprint.symm.trans hpresents.metadataFingerprint⟩, ?_, ?_⟩
  · rw [hredirectUri, hpresents.redirectUri]
    rfl
  · rw [htokens.accessToken, ← hclient, hpresents.clientId]
    rfl
  · intro idToken hidToken
    rw [htokens.idToken idToken hidToken, ← hclient, hpresents.clientId]
    show (_ : IdToken) = ⟨_, _, params.scopes, _, _⟩
    rw [← hscopes]
    rfl

/-- Two requests of a run that draw one code are one request. -/
theorem stores_unique (hrun : (flowSystem env).Run ⟨w₀, []⟩ steps P) {j j' : Nat} {a a' : AuthorizeCall}
    {p p' : Prog Input World (Except Failure FlowAnswer)} (hj : P.threads[j]? = some (.authorize a, p))
    (hj' : P.threads[j']? = some (.authorize a', p'))
    (hsame : hashOpaqueToken env a.context.code = hashOpaqueToken env a'.context.code) : j = j' := by
  have hpairs : (P.threads.map Prod.fst).Pairwise fun c d => ∀ h, d.stores env = some h → c.stores env ≠ some h :=
    hrun.pairwise fun P c (hc : FlowAdmits env P c) t ht h hh => hc.fresh h hh t ht
  have hget : ∀ {j a p}, P.threads[j]? = some (FlowCall.authorize a, p) →
      ∃ hlt : j < (P.threads.map Prod.fst).length, (P.threads.map Prod.fst)[j] = .authorize a := by
    intro j a p h
    obtain ⟨hlt, heq⟩ := List.getElem?_eq_some_iff.1 h
    exact ⟨by simpa using hlt, by simp [heq]⟩
  obtain ⟨hlt, heq⟩ := hget hj
  obtain ⟨hlt', heq'⟩ := hget hj'
  rw [List.pairwise_iff_getElem] at hpairs
  rcases Nat.lt_trichotomy j j' with hjj | hjj | hjj
  · have hne := hpairs j j' hlt hlt' hjj _ (by rw [heq', FlowCall.stores])
    rw [heq, FlowCall.stores, hsame] at hne
    exact absurd rfl hne
  · exact hjj
  · have hne := hpairs j' j hlt' hlt hjj _ (by rw [heq, FlowCall.stores])
    rw [heq', FlowCall.stores, hsame] at hne
    exact absurd rfl hne

/-- A code that was redeemed cannot be consumed at any later step. -/
theorem redeemed_for_good (hyolo : env.yolo = false) (hstart : ∀ h, w₀.codes h = .empty)
    (hrun : (flowSystem env).Run ⟨w₀, []⟩ steps P) {older between newer : List (Taken World)} {u v : Taken World} {h : String}
    {now now' : Nat} {payload payload' : AuthorizationCodePayload} (hsteps : steps = older ++ u :: (between ++ v :: newer))
    (hbefore : (u.before.codes h).Live now payload) (hgone : (u.after.codes h).Gone) :
    ¬(v.before.codes h).Live now' payload' := by
  intro hlive
  obtain ⟨first, t, a, ho⟩ := live_origin hyolo hstart hrun hsteps hbefore
  have hsteps' : steps = (older ++ u :: between) ++ v :: newer := by rw [hsteps]; simp
  obtain ⟨first', t', a', ho'⟩ := live_origin hyolo hstart hrun hsteps' hlive
  obtain ⟨rest, hrest, -⟩ := ho.split
  obtain ⟨rest', hrest', hsince⟩ := ho'.split
  obtain ⟨p, hp⟩ := ho.thread
  obtain ⟨p', hp'⟩ := ho'.thread
  have hthread := stores_unique hrun hp hp' (ho.object.trans ho'.object.symm)
  have hself : t' ≠ u := by
    rintro rfl
    have hobject := congrFun ho'.stores (hashOpaqueToken env a'.context.code)
    rw [Function.update_self, ho'.object] at hobject
    rw [hobject] at hgone
    exact hgone rfl
  -- the second store came after the first one was redeemed, or the code was there all along
  rcases List.append_eq_append_iff.1 hrest' with ⟨xs, hfirst, hxs⟩ | ⟨xs, holder, hxs⟩
  · cases xs with
    | nil => exact hself (List.cons.inj hxs).1.symm
    | cons x xs =>
      have hmem : t ∈ first' := by
        rw [hfirst, hrest]
        simp
      exact ho.changes (ho'.untouched (t.before, t.after) (mem_stepsOf.2 ⟨t, hmem, hthread, rfl⟩))
  · cases xs with
    | nil => exact hself (List.cons.inj hxs).1
    | cons x xs =>
      have hmem : u ∈ rest' := by
        rw [(List.cons.inj hxs).2]
        simp
      exact hgone (hsince u hmem).1

/-- A code is good for one exchange: in every run at most one is answered with tokens for it. -/
theorem code_used_once (hyolo : env.yolo = false) (hstart : ∀ h, w₀.codes h = .empty)
    (hrun : (flowSystem env).Run ⟨w₀, []⟩ steps P)
    (hdone : P.finished i = some (.exchange client form familyId secret grantId, .ok (.tokens response)))
    (hdone' : P.finished i' = some (.exchange client' form' familyId' secret' grantId', .ok (.tokens response')))
    (hcode : form.code = form'.code) : i = i' := by
  obtain ⟨older, u, newer, grant, hsteps, hthread, hredeems, -⟩ := redeemed hyolo hrun hdone
  obtain ⟨older', u', newer', grant', hsteps', hthread', hredeems', -⟩ := redeemed hyolo hrun hdone'
  obtain ⟨code, input, hform, -, -, -, -, -, hlive, hgone⟩ := hredeems.presented
  obtain ⟨code', input', hform', -, -, -, -, -, hlive', hgone'⟩ := hredeems'.presented
  have hsame : code' = code := Option.some.inj (hform'.symm.trans (hcode.symm.trans hform))
  subst hsame
  rcases List.append_eq_append_iff.1 (hsteps.symm.trans hsteps') with ⟨xs, hfirst, hxs⟩ | ⟨xs, hfirst, hxs⟩
  · cases xs with
    | nil => rw [← hthread, ← hthread', (List.cons.inj hxs).1]
    | cons x xs =>
      obtain ⟨-, hrest⟩ := List.cons.inj hxs
      have hsplit : steps = older ++ u :: (xs ++ u' :: newer') := by
        rw [hsteps, hrest]
        rfl
      exact absurd hlive' (redeemed_for_good hyolo hstart hrun hsplit hlive hgone)
  · cases xs with
    | nil => rw [← hthread, ← hthread', (List.cons.inj hxs).1]
    | cons x xs =>
      obtain ⟨-, hrest⟩ := List.cons.inj hxs
      have hsplit : steps = older' ++ u' :: (xs ++ u :: newer) := by
        rw [hsteps', hrest]
        rfl
      exact absurd hlive (redeemed_for_good hyolo hstart hrun hsplit hlive' hgone')

end

/-! ## Runs -/

/-- A schedule in which one request draws a code and nothing else stores one is allowed. -/
theorem flow_allows {env : Env} : ∀ {ms : List (System.Move FlowCall Input)}
    {P : Pool FlowCall Input World (Except Failure FlowAnswer)},
    (P.threads.map Prod.fst ++ System.calls ms).Pairwise (fun _ c => ∃ client form familyId secret grantId,
      c = .exchange client form familyId secret grantId) →
    (∀ c ∈ System.calls ms, ∀ step, c ≠ .other step) → (flowSystem env).Allows P ms
  | [], _, _, _ => trivial
  | .arrive c :: ms, P, hpairs, hcalls => by
    obtain ⟨-, -, hcross⟩ := List.pairwise_append.1 hpairs
    refine ⟨⟨fun h hh t ht => ?_, fun step hstep => absurd hstep (hcalls c List.mem_cons_self step)⟩, ?_⟩
    · obtain ⟨client, form, familyId, secret, grantId, rfl⟩ :=
        hcross t.1 (List.mem_map.2 ⟨t, ht, rfl⟩) c List.mem_cons_self
      cases hh
    · refine flow_allows ?_ fun d hd => hcalls d (List.mem_cons_of_mem _ hd)
      rw [System.move, List.map_append, List.append_assoc]
      exact hpairs
  | .run i e :: ms, P, hpairs, hcalls => by
    refine ⟨trivial, flow_allows ?_ hcalls⟩
    have hsame := System.map_fst_moves (flowSystem env) [.run i e] P
    rw [show System.calls [System.Move.run i e] = ([] : List FlowCall) from rfl, List.append_nil] at hsame
    rw [show (flowSystem env).moves P [.run i e] = (flowSystem env).move P (.run i e) from rfl] at hsame
    rw [hsame]
    exact hpairs

def flowRequest : AuthorizeCall :=
  .get sampleContext { sessionToken := some "token_b", pathname := "/oauth/authorize", searchParams := sampleQuery }

def flowForm : AuthorizationCodeForm :=
  ⟨some "code_a", some "https://app.example.com/callback", some Deployment.verifier, none⟩

def flowExchange : FlowCall :=
  .exchange Deployment.client flowForm "rtf_a" "secret" "grant_a"

/-- A request stores a code, and the code is presented twice. -/
def flowSchedule : List (System.Move FlowCall Input) :=
  .arrive (.authorize flowRequest) :: List.replicate 30 (.run 0 Deployment.ok) ++
    (.arrive flowExchange :: List.replicate 30 (.run 1 Deployment.ok) ++
      .arrive flowExchange :: List.replicate 30 (.run 2 Deployment.ok))

def flowTokens : TokenResponse :=
  ⟨⟨"usr_a", "https://api.example.com", "app", "openid offline_access", some 0, 900⟩, "openid offline_access",
    some ⟨"usr_a", "app", ["openid", "offline_access"], 0, none⟩, some "rtf_a.secret"⟩

theorem flow_run : (flowSystem Deployment.env).Run ⟨cookieWorld, []⟩
    ((flowSystem Deployment.env).taken ⟨cookieWorld, []⟩ flowSchedule)
    ((flowSystem Deployment.env).moves ⟨cookieWorld, []⟩ flowSchedule) := by
  have hcalls : System.calls flowSchedule = [.authorize flowRequest, flowExchange, flowExchange] := by
    simp [flowSchedule, System.calls]
  refine System.run_moves _ (flow_allows ?_ ?_)
  · rw [hcalls]
    simp [flowExchange]
  · rw [hcalls]
    simp [flowExchange]

theorem flow_redeemed : ((flowSystem Deployment.env).moves ⟨cookieWorld, []⟩ flowSchedule).finished 1 =
    some (flowExchange, .ok (.tokens flowTokens)) :=
  System.finished_moves (by decide +kernel) rfl

theorem code_flow_redeemed :
    let S := flowSystem Deployment.env
    let P := S.moves ⟨cookieWorld, []⟩ flowSchedule
    ∃ first t rest a p params viewer resource, S.taken ⟨cookieWorld, []⟩ flowSchedule = first ++ t :: rest ∧
      P.threads[t.thread]? = some (.authorize a, p) ∧ Permitted Deployment.env a params viewer (stepsOf t.thread first) ∧
      a.Consented Deployment.env params viewer (stepsOf t.thread first) ∧
      StoresCode Deployment.env a.context.code (codePayload Deployment.env params (subjectOf viewer) resource) (t.before, t.after) ∧
      (∃ u ∈ rest, u.thread = 1 ∧ Redeems Deployment.env Deployment.client flowForm
        (codePayload Deployment.env params (subjectOf viewer) resource) (u.before, u.after) ∧
          u.after.nowMs ≤ t.after.nowMs + TOKEN_TTL.authorizationCode * 1000) ∧
      FlowTokens Deployment.env a params viewer Deployment.client flowForm flowTokens := by
  intro S P
  exact code_flow rfl (fun _ => rfl) flow_run flow_redeemed

theorem code_used_once_redeemed :
    let P := (flowSystem Deployment.env).moves ⟨cookieWorld, []⟩ flowSchedule
    P.finished 1 = some (flowExchange, .ok (.tokens flowTokens)) ∧ (P.finished 2).isSome ∧
      ∀ response, P.finished 2 ≠ some (flowExchange, .ok (.tokens response)) := by
  intro P
  refine ⟨flow_redeemed, by decide +kernel, fun response hagain => ?_⟩
  exact absurd (code_used_once rfl (fun _ => rfl) flow_run flow_redeemed hagain rfl) (by decide)

end Keyforge.Authorize
