/-
Introspection and the refresh grant. What the introspection of a refresh token checks is what the refresh
grant checks before it rotates, except that introspection asks neither whether the client may use the grant
nor whether the family has any scope: at any state, the client of a refresh token that introspection reports
as active passes the checks of the grant exactly when it is allowed the grant and the scope is not empty.
-/
import Keyforge.Deployment
import Keyforge.OAuth.Introspection
import Keyforge.OAuth.Token
import Keyforge.Still

namespace Keyforge.Introspection

open Lib Db Tokens Auth OAuth

/-! ## The checks before the rotation -/

/-- What `handleRefreshToken` checks before it calls `rotateRefreshToken`; the result is the token and the
scope to rotate to. -/
def refreshAdmission (env : Env) (client : ClientRow) (form : RefreshForm) : App (String × String) := do
  match form.refreshToken with
  | none => throw (.oauth .invalidRequest "Missing refresh_token" "refresh_token grant without a refresh_token")
  | some presented =>
    require (client.allowedGrantTypes.contains "refresh_token")
      (.oauth .unauthorizedClient "Client is not permitted to use this grant"
        ("refresh_token not allowed for " ++ client.clientId))
    let effectiveScope ← refreshChecks env client form presented
    pure (presented, effectiveScope)

theorem handleRefreshToken_eq (env : Env) (client : ClientRow) (form : RefreshForm) (secret : String) :
    handleRefreshToken env client form secret = refreshAdmission env client form >>= fun admitted =>
      rotateRefreshToken env admitted.1 client.clientId admitted.2 secret >>= answerRotation client := by
  unfold handleRefreshToken refreshAdmission
  cases form.refreshToken with
  | none => rfl
  | some presented => simp only [bind_assoc, pure_bind]

/-! ## Programs that answer one thing -/

theorem consentCoversScopes_steady (env : Env) (userId clientId resource : String) (scopes : List String)
    (metadataFingerprint : Option String) :
    Steady (consentCoversScopes env userId clientId resource scopes metadataFingerprint) :=
  .ite (.pure _) (.bind (.select _) fun _ => .pure _)

theorem evaluateUserTokenAccess_steady (env : Env) (input : UserTokenAccessInput) :
    Steady (evaluateUserTokenAccess env input) :=
  .ite (.pure _) (.select _)

theorem validateRequestedScopes_steady (requested allowed : List String) :
    Steady (validateRequestedScopes requested allowed) :=
  .bind (.require _ _) fun _ => .pure _

theorem resolveResourceRecord_steady (env : Env) (client : ClientRow) (requestedResource : Option String) :
    Steady (resolveResourceRecord env client requestedResource) := by
  unfold resolveResourceRecord
  split
  · exact .throw _
  · refine .bind (.require _ _) fun _ => .bind (.select _) fun found => ?_
    split
    · exact .ite (.pure _) (.throw _)
    · refine .bind (.require _ _) fun _ => .bind (.require _ _) fun _ => .ite ?_ (.pure _)
      dsimp only
      split
      · exact .bind (.select _) fun _ => .bind (.require _ _) fun _ => .pure _
      · exact .bind (.pure _) fun _ => .bind (.require _ _) fun _ => .pure _

theorem resolveResourceForScopes_steady (env : Env) (client : ClientRow) (requestedResource : Option String)
    (scopes : List String) : Steady (resolveResourceForScopes env client requestedResource scopes) := by
  refine .bind (resolveResourceRecord_steady _ _ _) fun registered => .ite (.pure _) ?_
  refine .bind (validateRequestedScopes_steady _ _) fun _ => .bind (.tryCatch (validateRequestedScopes_steady _ _) ?_)
    fun _ => .pure _
  intro error
  split <;> exact .throw _

theorem getSessionById_steady (sessionId : String) : Steady (getSessionById sessionId) := by
  refine .bind (.select _) fun row => ?_
  split
  · exact .pure _
  · exact .ite (.pure _) (.bind .clock fun _ => .pure _)

theorem verifyAccessToken_steady (jwtVerify : JwtVerify) (token : String) (audience : List String) :
    Steady (verifyAccessToken jwtVerify token audience) := by
  refine .bind (.query _) fun verified => ?_
  split
  · exact .throw _
  · exact .bind (.require _ _) fun _ => .bind (.require _ _) fun _ => .bind (.require _ _) fun _ =>
      .bind (.require _ _) fun _ => .pure _

theorem inspectAccessToken_steady (env : Env) (introspector : ClientRow) (payload : Json) :
    Steady (inspectAccessToken env introspector payload) := by
  unfold inspectAccessToken
  split
  · refine .ite (.pure _) (.bind (.select _) fun tokenClient => ?_)
    split
    · exact .pure _
    · refine .bind (resolveResourceForScopes_steady _ _ _ _) fun _ => .ite (.pure _) (.ite (.pure _) ?_)
      split
      · exact .pure _
      · refine .bind (.select _) fun user => ?_
        split
        · exact .pure _
        · exact .bind (evaluateUserTokenAccess_steady _ _) fun _ => .ite (.pure _)
            (.bind (consentCoversScopes_steady _ _ _ _ _ _) fun _ => .pure _)
  · exact .pure _

theorem introspectAccessToken_steady (env : Env) (jwtVerify : JwtVerify) (token : String) (introspector : ClientRow) :
    Steady (introspectAccessToken env jwtVerify token introspector) :=
  .tryCatch (.ite (.pure _) (.bind (verifyAccessToken_steady _ _ _) fun _ => inspectAccessToken_steady _ _ _))
    fun _ => .pure _

/-! ## What introspection checks -/

/-- What the introspection of an active refresh token found at a state. -/
structure Active (env : Env) (w : World) (token : String) (record : RefreshTokenRecord) (client : ClientRow)
    (user : UserRow) : Prop where
  found : (w.db.refreshTokens.rows.find? (·.tokenHash = hashOpaqueToken env token)).map toRecord = some record
  live : record.revokedAt = none
  unexpired : w.nowSeconds < record.expiresAt
  registered : w.db.clients.get? record.clientId = some client
  holder : w.db.users.get? record.userId = some user
  enabled : user.disabled = false
  access : Answers w (evaluateUserTokenAccess env
    { userId := user.id, clientId := client.clientId, resourceUri := record.resource,
      scopes := parseScopeString (some record.scope) }) (.ok none)
  covered : Answers w (consentCoversScopes env user.id client.clientId record.resource
    (parseScopeString (some record.scope)) client.metadataFingerprint) (.ok true)
  session : Answers w (sessionHolds record.sessionId user.id) (.ok true)
  resource : ∃ r, Answers w (resolveResourceForScopes env client (some record.resource)
    (parseScopeString (some record.scope))) (.ok r)

/-- The report on a refresh token. -/
def reportOf (record : RefreshTokenRecord) : RefreshTokenReport :=
  { sub := record.userId, clientId := record.clientId, scope := record.scope, aud := record.resource,
    exp := record.expiresAt }

section

variable {env : Env} {w : World} {token : String} {record : RefreshTokenRecord} {client : ClientRow} {user : UserRow}

theorem sessionHolds_steady (sessionId : Option String) (userId : String) : Steady (sessionHolds sessionId userId) := by
  unfold sessionHolds
  split
  · exact .pure _
  · exact .bind (getSessionById_steady _) fun _ => .pure _

/-- A reading step is taken with what it answers. -/
theorem readsE_steady {α β : Type} {p : App α} {g : α → App β} {Q : β → Prop} (hp : Steady p)
    (h : ∀ a, Answers w p (.ok a) → readsE w (g a) Q fun _ => True) : readsE w (p >>= g) Q fun _ => True := by
  rw [readsE_bind]
  obtain ⟨r, hr⟩ := hp w
  exact readsE_cases hr (fun a ha => h a (ha ▸ hr)) fun _ _ => trivial

/-- A check that ends with a harmless answer: the rest runs where it did not end. -/
theorem readsE_unless {α : Type} {c : Prop} [Decidable c] {a : α} {p : App α} {Q : α → Prop} {X : Failure → Prop} (ha : Q a)
    (h : ¬c → readsE w p Q X) : readsE w (if c then pure a else p) Q X := by
  split
  · exact ha
  · exact h ‹_›

theorem introspectRefreshToken_reads (introspector : ClientRow) :
    readsE w (introspectRefreshToken env token introspector)
      (fun answer => ∀ report, answer = .refreshToken report →
        ∃ record client user, report = reportOf record ∧ Active env w token record client user) fun _ => True := by
  have hinactive : ∀ report, IntrospectionAnswer.inactive = .refreshToken report →
      ∃ record client user, report = reportOf record ∧ Active env w token record client user := nofun
  unfold introspectRefreshToken
  rw [readsE_bind]
  refine readsE_select ?_
  split
  · exact hinactive
  rename_i record hrecord
  obtain ⟨hfound, hlive⟩ := Option.filter_eq_some_iff.1 hrecord
  rw [readsE_bind]
  refine readsE_clock (readsE_unless hinactive fun hexpired => ?_)
  -- the family's object, the introspector's rights and the scope `groups` leave no trace in `Active`
  rw [readsE_bind]
  refine readsE_query (readsE_unless hinactive fun _ => readsE_unless hinactive fun _ => readsE_unless hinactive fun _ => ?_)
  rw [readsE_bind]
  refine readsE_imp ?_ (fun _ _ => trivial) _
    (readsE_all (X := fun _ => True) (readsE_select (Q := (· = w.db.clients.get? record.clientId)) rfl)
      (readsE_select (Q := (· = w.db.users.get? record.userId)) rfl))
  rintro ⟨tokenClient, found⟩ ⟨rfl, rfl⟩
  refine readsE_unless hinactive fun _ => ?_
  split
  swap
  · exact hinactive
  rename_i client user hclient huser
  obtain ⟨hclient, -⟩ := Option.filter_eq_some_iff.1 hclient
  obtain ⟨huser, henabled⟩ := Option.filter_eq_some_iff.1 huser
  -- from here on the checks are those of a refresh
  refine readsE_steady (evaluateUserTokenAccess_steady _ _) fun access haccess => readsE_unless hinactive fun hnone => ?_
  refine readsE_steady (consentCoversScopes_steady _ _ _ _ _ _) fun covered hcovered => readsE_unless hinactive fun hyes => ?_
  refine readsE_steady (sessionHolds_steady _ _) fun holds hholds => readsE_unless hinactive fun hsession => ?_
  rw [readsE_bind, readsE_settled]
  obtain ⟨r, hr⟩ := resolveResourceForScopes_steady env client (some record.resource) (parseScopeString (some record.scope)) w
  refine readsE_cases hr (fun a ha report heq => ?_) fun _ _ => hinactive
  cases heq
  rw [Option.not_isSome_iff_eq_none] at hnone
  rw [Bool.not_eq_true, Bool.not_eq_false'] at hyes hsession
  exact ⟨record, client, user, rfl,
    { found := hfound
      live := Option.isNone_iff_eq_none.1 hlive
      unexpired := Nat.lt_of_not_le hexpired
      registered := hclient
      holder := huser
      enabled := by simpa using henabled
      access := hnone ▸ haccess
      covered := hyes ▸ hcovered
      session := hsession ▸ hholds
      resource := ⟨a, ha ▸ hr⟩ }⟩

theorem handleIntrospect_reads (jwtVerify : JwtVerify) (introspector : ClientRow) :
    readsE w (handleIntrospect env jwtVerify (some token) introspector)
      (fun answer => ∀ report, answer = .refreshToken report →
        ∃ record client user, report = reportOf record ∧ Active env w token record client user) fun _ => True := by
  have hresponse : ∀ {answer : IntrospectionAnswer} {Q : IntrospectionAnswer → Prop}, Q answer →
      readsE w (introspectionResponse answer) Q fun _ => True := by
    intro answer Q hQ
    rw [introspectionResponse, readsE_bind, recordAudit]
    exact readsE_query hQ
  unfold handleIntrospect
  dsimp only
  refine readsE_steady (introspectAccessToken_steady _ _ _ _) fun jwtResult _ => ?_
  split
  · exact hresponse nofun
  · rw [readsE_bind]
    exact readsE_imp (fun answer h => hresponse h) (fun _ _ => trivial) _ (introspectRefreshToken_reads introspector)

/-! ## What the refresh grant checks -/

/-- The five reads of the refresh grant find what introspection found. -/
theorem grantChecks_reads (h : Active env w token record client user) :
    readsE w (grantChecks env client record.userId record.sessionId record.resource (parseScopeString (some record.scope)))
      (fun checks => checks.user = some user ∧
        (record.sessionId.isNone || checks.sourceSession.any (·.userId = user.id)) = true ∧ checks.consentCovered = true ∧
        checks.access = none ∧ ∃ r, checks.resource = .ok r) fun _ => False := by
  obtain ⟨hmem, hid⟩ := Table.get?_eq_some.1 h.holder
  have hsession : readsE w (match record.sessionId with
      | none => pure none
      | some sessionId => getSessionById sessionId)
      (fun s => (record.sessionId.isNone || s.any (·.userId = user.id)) = true) fun _ => False := by
    have hholds := h.session
    cases hs : record.sessionId with
    | none => rfl
    | some sessionId =>
      rw [hs, sessionHolds] at hholds
      obtain ⟨r, hr⟩ := getSessionById_steady sessionId w
      refine readsE_cases hr (fun s hok => ?_) fun x herror => ?_
      · have hanswer := Answers.bind (hok ▸ hr) (g := fun s => pure (s.any (·.userId = user.id))) rfl
        simpa using (Except.ok.inj (hholds.unique hanswer)).symm
      · cases hholds.unique (Answers.bind_error (herror ▸ hr))
  obtain ⟨r, hr⟩ := h.resource
  have hresource : readsE w (settled (resolveResourceForScopes env client (some record.resource)
      (parseScopeString (some record.scope)))) (fun a => ∃ r, a = .ok r) fun _ => False :=
    readsE_settled.2 (readsE_ok hr ⟨r, rfl⟩)
  unfold grantChecks
  rw [readsE_bind]
  refine readsE_imp ?_ (fun _ h => h) _
    (readsE_all (readsE_select (Q := (· = some user)) h.holder) <|
      readsE_all hsession <|
      readsE_all (readsE_ok (Q := (· = true)) (hid ▸ h.covered) rfl) <|
      readsE_all (readsE_ok (Q := (· = none)) (hid ▸ h.access) rfl) <|
      hresource)
  rintro ⟨u, s, c, a, e⟩ ⟨h1, h2, h3, h4, h5⟩
  exact ⟨h1, h2, h3, h4, h5⟩

/-- The client of an active refresh token passes the checks of the grant if it may use the grant and the
family has a scope, and fails them otherwise. -/
theorem refreshAdmission_reads (h : Active env w token record client user) :
    readsE w (refreshAdmission env client ⟨some token, some record.resource, none⟩)
      (fun _ => client.allowedGrantTypes.contains "refresh_token" = true ∧ parseScopeString (some record.scope) ≠ [])
      fun _ => ¬(client.allowedGrantTypes.contains "refresh_token" = true ∧ parseScopeString (some record.scope) ≠ []) := by
  have hclient : client.clientId = record.clientId := (Table.get?_eq_some.1 h.registered).2
  unfold refreshAdmission
  dsimp only
  rw [readsE_bind, readsE_require]
  refine ⟨fun hgrant => ?_, fun hgrant hboth => Bool.false_ne_true (hgrant.symm.trans hboth.1)⟩
  rw [readsE_bind]
  unfold refreshChecks lookupPresentedFamily
  rw [bind_assoc, readsE_bind]
  -- the row of the token
  refine readsE_select ?_
  rw [h.found]
  dsimp only
  rw [pure_bind, Option.filter_some, if_pos (by simp [hclient, h.live])]
  dsimp only
  rw [readsE_bind]
  -- not yet expired
  refine readsE_clock ?_
  rw [readsE_bind, readsE_require]
  refine ⟨fun _ => ?_, fun hlt => absurd h.unexpired (by simpa using hlt)⟩
  rw [readsE_bind]
  refine readsE_select ?_
  rw [readsE_bind, readsE_require]
  refine ⟨fun _ => ?_, fun hmcp => by simp at hmcp⟩
  rw [readsE_bind, readsE_require]
  refine ⟨fun _ => ?_, fun hresource => by simp at hresource⟩
  rw [readsE_bind, readsE_require]
  simp only [Option.isNone_none, if_true]
  -- the scopes asked for are those of the row, so they are within it
  refine ⟨fun hscopes => ?_, fun hscopes hboth => ?_⟩
  · rw [readsE_bind]
    refine readsE_imp ?_ (fun _ h => h.elim) _ (grantChecks_reads h)
    -- and the grant is as the introspection read it
    rintro checks ⟨huser, hsession, hcovered, haccess, r, hresource⟩
    rw [huser, Option.filter_some, if_pos (by simp [h.enabled])]
    dsimp only
    rw [readsE_bind, readsE_require]
    refine ⟨fun _ => ?_, fun hno => Bool.noConfusion (hno.symm.trans hsession)⟩
    rw [haccess]
    dsimp only
    rw [readsE_bind, readsE_require]
    refine ⟨fun _ => ?_, fun hno => Bool.noConfusion (hno.symm.trans hcovered)⟩
    rw [hresource]
    refine ⟨hgrant, fun hempty => ?_⟩
    rw [hempty] at hscopes
    cases hscopes
  · rw [Bool.and_eq_false_iff] at hscopes
    rcases hscopes with hempty | hall
    · exact hboth.2 (List.isEmpty_iff.1 (by simpa using hempty))
    · simp at hall

end

/-! ## Agreement -/

/-- At the state `w` the client presents the token to the refresh grant with this resource and no scope, and
passes every check before the rotation. -/
def PassesRefresh (env : Env) (w : World) (client : ClientRow) (token resource : String) : Prop :=
  ∀ r w', RunsBy Still (refreshAdmission env client ⟨some token, some resource, none⟩).run w r w' → ∃ admitted, r = .ok admitted

/-- At every state, a refresh token that introspection reports as active is one that its client may refresh,
exactly when the client is allowed the grant and the family's scope is not empty. -/
theorem active_passes_refresh_iff (env : Env) (jwtVerify : JwtVerify) (introspector : ClientRow) (w w' : World) (token : String)
    (report : RefreshTokenReport)
    (hactive : RunsBy Still (handleIntrospect env jwtVerify (some token) introspector).run w (.ok (.refreshToken report)) w') :
    ∃ record client,
      (w.db.refreshTokens.rows.find? (·.tokenHash = hashOpaqueToken env token)).map toRecord = some record ∧
      report = reportOf record ∧ w.db.clients.get? report.clientId = some client ∧
      (PassesRefresh env w client token report.aud ↔
        client.allowedGrantTypes.contains "refresh_token" = true ∧ parseScopeString (some record.scope) ≠ []) := by
  obtain ⟨record, client, user, rfl, h⟩ := (hactive.reads (handleIntrospect_reads jwtVerify introspector)).1 report rfl
  refine ⟨record, client, h.found, rfl, h.registered, fun hpasses => ?_, fun hcond r w'' hrun => ?_⟩
  · obtain ⟨r, w'', hrun⟩ := exists_still (refreshAdmission env client ⟨some token, some record.resource, none⟩) w
    obtain ⟨admitted, rfl⟩ := hpasses r w'' hrun
    exact (hrun.reads (refreshAdmission_reads h)).1
  · have hr := (hrun.reads (refreshAdmission_reads h)).1
    cases r with
    | ok admitted => exact ⟨admitted, rfl⟩
    | error x => exact absurd hcond hr

/-! ## A resource service asks -/

/-- The service of the deployment's API. -/
def inspector : ClientRow :=
  { Deployment.client with clientId := "api", name := "API", type := .confidential, clientKind := .service,
                           allowedGrantTypes := [] }

/-- An input on which storage calls succeed at once. -/
def still : Input := ⟨0, false, false, fun _ => false⟩

/-- The deployment with a live family whose client has lost the refresh grant. -/
def withdrawnGrantWorld : World :=
  { Deployment.familyWorld with
    db := { Deployment.familyWorld.db with
      clients := (∅ : Table ClientRow.clientId).insert
        { Deployment.client with allowedGrantTypes := ["authorization_code"] } } }

/-- The report of introspection, if it reports an active refresh token. -/
def reportAt (w : World) : Option RefreshTokenReport :=
  match runOn still 30 (handleIntrospect Deployment.env (fun _ _ _ => none) (some "rtf_a.secret") inspector).run w with
  | some (.ok (.refreshToken report), _) => some report
  | _ => none

theorem run_of_reportAt {w : World} {report : RefreshTokenReport} (h : reportAt w = some report) :
    ∃ w', RunsBy Still (handleIntrospect Deployment.env (fun _ _ _ => none) (some "rtf_a.secret") inspector).run w
      (.ok (.refreshToken report)) w' := by
  unfold reportAt at h
  split at h
  · rename_i hrun
    cases h
    exact ⟨_, runsBy_of_runOn (e := still) ⟨rfl, rfl⟩ hrun⟩
  · cases h

theorem active_passes_refresh_iff_app :
    ∃ record client,
      (Deployment.familyWorld.db.refreshTokens.rows.find?
        (·.tokenHash = hashOpaqueToken Deployment.env "rtf_a.secret")).map toRecord = some record ∧
      (reportAt Deployment.familyWorld) = some (reportOf record) ∧
      Deployment.familyWorld.db.clients.get? record.clientId = some client ∧
      (PassesRefresh Deployment.env Deployment.familyWorld client "rtf_a.secret" record.resource ↔
        client.allowedGrantTypes.contains "refresh_token" = true ∧ parseScopeString (some record.scope) ≠ []) := by
  have hreport : reportAt Deployment.familyWorld = some (reportOf (toRecord Deployment.familyRow)) := by
    decide +kernel
  obtain ⟨w', hrun⟩ := run_of_reportAt hreport
  obtain ⟨record, client, hrecord, heq, hclient, hiff⟩ := active_passes_refresh_iff _ _ _ _ w' _ _ hrun
  rw [heq] at hreport hclient hiff
  exact ⟨record, client, hrecord, hreport, hclient, hiff⟩

/-- The client has lost the grant: introspection still reports its token as active, and the grant refuses
it. -/
theorem active_without_grant :
    ∃ report w' client,
      RunsBy Still (handleIntrospect Deployment.env (fun _ _ _ => none) (some "rtf_a.secret") inspector).run
        withdrawnGrantWorld (.ok (.refreshToken report)) w' ∧
      withdrawnGrantWorld.db.clients.get? report.clientId = some client ∧
      ¬ PassesRefresh Deployment.env withdrawnGrantWorld client "rtf_a.secret" report.aud := by
  have hreport : reportAt withdrawnGrantWorld = some (reportOf (toRecord Deployment.familyRow)) := by
    decide +kernel
  obtain ⟨w', hrun⟩ := run_of_reportAt hreport
  refine ⟨_, w', { Deployment.client with allowedGrantTypes := ["authorization_code"] }, hrun, by decide +kernel,
    fun hpasses => ?_⟩
  obtain ⟨r, w'', hrun⟩ := exists_still (refreshAdmission Deployment.env
    { Deployment.client with allowedGrantTypes := ["authorization_code"] }
    ⟨some "rtf_a.secret", some "https://api.example.com", none⟩) withdrawnGrantWorld
  obtain ⟨admitted, rfl⟩ := hpasses r w'' hrun
  obtain ⟨hok, -⟩ := runsBy_done.1 hrun
  cases hok

end Keyforge.Introspection
