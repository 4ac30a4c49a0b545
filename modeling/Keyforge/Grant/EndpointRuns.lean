/-
What runs of the token and revocation endpoints guarantee. Tokens are answered only after every check passed
on a database that the request read; a family that its client revoked never rotates again; and a client
revokes none but its own.
-/
import Keyforge.Deployment
import Keyforge.Grant.Endpoint

namespace Keyforge.Grant

open Lib Db Do Tokens OAuth Refresh

section

variable {env : Env} {client : ClientRow} {form : RefreshForm} {presented secret : String}

/-- A refresh request that is answered with tokens made its checks first, and then rotated to the scope that
they granted. -/
theorem handleRefreshToken_granted (hyolo : env.yolo = false) (hform : form.refreshToken = some presented) :
    endsE (handleRefreshToken env client form secret) (fun answer tr => ∀ response, answer = .issued response →
      ∃ row m past t future, tr = past ++ t :: future ∧ RefreshGranted env client presented row m.scope past ∧
        Rotates (familyIdOf presented) m t.1 t.2 ∧ Refresh.Grants m response) fun _ _ => True := by
  unfold handleRefreshToken
  rw [hform]
  dsimp only
  rw [endsE_bind, endsE_require]
  refine ⟨fun _ => ?_, fun _ => trivial⟩
  rw [endsE_bind]
  refine endsE_imp (fun scope past hgranted => ?_) (fun _ _ _ => trivial) _ (refreshChecks_granted hyolo)
  obtain ⟨row, hgranted⟩ := hgranted
  rw [endsE_bind]
  refine endsE_iff.2 ⟨fun tr outcome hpath => ?_, fun _ _ _ => trivial⟩
  have hrotated := (endsE_iff.1 rotateRefreshToken_ends).1 tr outcome hpath
  have hscope := (endsE_iff.1 rotateRefreshToken_scope).1 tr outcome hpath
  cases outcome with
  | rotated token userId clientId resource scope' authTime =>
    obtain ⟨m, ⟨t, ht, hrot⟩, heq⟩ := hrotated _ _ _ _ _ _ rfl
    have hm := hscope _ _ _ _ _ _ rfl
    cases heq
    obtain ⟨before, after, rfl⟩ := List.append_of_mem ht
    rw [answerRotation, map_eq_pure_bind, endsE_bind]
    refine endsE_imp (fun response tr' hgrants answered hanswer => ?_) (fun _ _ _ => trivial) _ issueRotatedTokens_ends
    cases hanswer
    refine ⟨row, m, past ++ before, t, after ++ tr', by simp, ?_, hrot, hgrants⟩
    rw [hm]
    have hsub := List.sublist_append_left past before
    exact ⟨hgranted.read.sublist hsub, hgranted.clientId, hgranted.narrows,
      fun id hid => (hgranted.session id hid).sublist hsub, hgranted.granted.sublist hsub⟩
  | reuseDetected familyId =>
    rw [answerRotation, endsE_bind]
    exact endsE_query (fun _ _ => trivial) fun _ => trivial
  | tooSoon k => exact fun response hanswer => by cases hanswer
  | reauthorizationRequired familyId => trivial
  | invalid => trivial

end

/-! ## At each step of a run -/

section

variable {env : Env} {w₀ : World} {steps : List (Taken World)} {P : Pool EndpointCall Input World (Except Failure EndpointAnswer)}
  {t : Taken World} {d : EndpointCall} {token : String} {row : RefreshTokenRow}

theorem endpoint_steps (hfamilies : ∀ f, w₀.families f = .empty) (hrows : w₀.db.refreshTokens = ∅)
    (hrun : (endpointSystem env).Run ⟨w₀, []⟩ steps P) : ∀ t ∈ steps, EndpointInv t.before ∧
      EndpointTrace env (P.threads.map Prod.fst) t.before ∧
        ∃ c p, P.threads[t.thread]? = some (c, p) ∧ EndpointGuar env c t.before t.after := by
  have hempty : ∀ {p : RefreshTokenRow → Prop}, ∀ r ∈ w₀.db.refreshTokens, p r :=
    fun r hr => absurd (hrows ▸ hr) Table.not_mem_empty
  have hfirst : ∀ cs, EndpointTrace env cs w₀ := by
    refine fun cs => ⟨fun f hf => absurd ?_ hf, hempty⟩
    rw [hfamilies]
    rfl
  have houtline := hrun.outline endpoint_valid (Outline.holds_start hempty (hfirst []))
  have htrace := hrun.chained.all (p := EndpointTrace env (P.threads.map Prod.fst)) (fun t ht h => ?_) (hfirst _)
  · intro t ht
    obtain ⟨hi, c, p, hthread, hguar⟩ := houtline t ht
    exact ⟨hi, (htrace t ht).1, c, p, hthread, hguar⟩
  · obtain ⟨-, c, p, hthread, hguar⟩ := houtline t ht
    exact h.step (List.mem_map.2 ⟨(c, p), List.mem_of_getElem? hthread, rfl⟩) hguar

theorem endpoint_kept (hfamilies : ∀ f, w₀.families f = .empty) (hrows : w₀.db.refreshTokens = ∅)
    (hrun : (endpointSystem env).Run ⟨w₀, []⟩ steps P) (ht : t ∈ steps) (f : String) :
    FamilyKept (t.before.families f) (t.after.families f) := by
  obtain ⟨-, -, c, p, -, hguar⟩ := endpoint_steps hfamilies hrows hrun t ht
  exact hguar.kept f

/-- Any two calls of a run, and any call and itself. -/
theorem endpoint_distinct (hrun : (endpointSystem env).Run ⟨w₀, []⟩ steps P) {c : EndpointCall}
    (hc : c ∈ P.threads.map Prod.fst) (hd : d ∈ P.threads.map Prod.fst) : Distinct env c d := by
  have hpairs : (P.threads.map Prod.fst).Pairwise fun c d => Distinct env c d ∧ Distinct env d c :=
    hrun.pairwise fun P c (hc : Admits env P c) t ht => hc.older t ht
  have hself : ∀ t ∈ P.threads, Distinct env t.1 t.1 :=
    hrun.arrived (V := fun c => Distinct env c c) fun P c (hc : Admits env P c) => hc.self
  refine (hpairs.forall_of_forall_of_flip (fun c hc => ?_) (hpairs.imp And.symm) hc hd).1
  obtain ⟨t, ht, rfl⟩ := List.mem_map.1 hc
  exact ⟨hself t ht, hself t ht⟩

/-- The row that a presented token finds is that of its family. -/
theorem presents_family (hfamilies : ∀ f, w₀.families f = .empty) (hrows : w₀.db.refreshTokens = ∅)
    (hrun : (endpointSystem env).Run ⟨w₀, []⟩ steps P) (ht : t ∈ steps) (hd : d ∈ P.threads.map Prod.fst)
    (hpresents : d.presents = some token) (hrow : Presents env token row t.before.db) : row.id = familyIdOf token := by
  rcases hrow.2 with hhash | hid
  · obtain ⟨-, htrace, -⟩ := endpoint_steps hfamilies hrows hrun t ht
    obtain ⟨c, hc, drawn, hdraws, hfamily, hdigest⟩ := htrace.token row hrow.1
    have hsame := endpoint_distinct hrun hc hd drawn token hdraws hpresents (hdigest.symm.trans hhash)
    rw [← hsame, hfamily]
  · exact hid

/-- A row with its object has it at every later step. -/
theorem backed_later (hfamilies : ∀ f, w₀.families f = .empty) (hrows : w₀.db.refreshTokens = ∅)
    (hrun : (endpointSystem env).Run ⟨w₀, []⟩ steps P) {older newer : List (Taken World)} (hsplit : steps = older ++ t :: newer)
    (hrow : row ∈ t.before.db.refreshTokens) : ∀ u ∈ t :: newer, Backed row u.before ∧ Backed row u.after := by
  subst hsplit
  have ht : t ∈ older ++ t :: newer := List.mem_append_right _ List.mem_cons_self
  obtain ⟨hi, -⟩ := endpoint_steps hfamilies hrows hrun t ht
  obtain ⟨w, hchain, hrest⟩ := hrun.chained.split
  refine Chained.all hrest (fun u hu h => h.kept (Kept.refl row) fun f => ?_) (hrest.1 ▸ hi row hrow)
  exact endpoint_kept hfamilies hrows hrun (List.mem_append_right _ hu) f

end

/-! ## Tokens -/

/-- What an answer with an access token says of the steps of its request: the token is for the client, and
every check of its grant passed on a database that the request read. -/
def Confined (env : Env) (tr : Steps) : EndpointCall → EndpointAnswer → Prop
  | .exchange client _ _ _ _, .tokens response => UserToken env client response.accessToken tr
  | .poll client _ _ _ _, .tokens response => UserToken env client response.accessToken tr
  | .refresh client _ _, .refreshed (.issued response) => UserToken env client response.accessToken tr
  | .service client _, .tokens response =>
    (∀ s ∈ client.allowedScopes, IsWord s) → ServiceToken client response.accessToken tr
  | _, _ => True

section

variable {env : Env} {w₀ : World} {steps : List (Taken World)} {P : Pool EndpointCall Input World (Except Failure EndpointAnswer)}
  {i : Nat}

/-- What a handler's paths end with, the endpoint's do. -/
theorem endsE_answer {α : Type} {p : App α} {g : α → EndpointAnswer} {Q : EndpointAnswer → Steps → Prop}
    (h : endsE p (fun a tr => Q (g a) tr) fun _ _ => True) : endsE (g <$> p) Q fun _ _ => True := by
  rw [map_eq_pure_bind, endsE_bind]
  refine endsE_imp (fun a tr ha => ?_) (fun _ _ _ => trivial) _ h
  rw [endsE_pure, List.append_nil]
  exact ha

/-- A refresh request's tokens are for the user and the audience of the row it read, since its object has not
changed hands in between. -/
theorem refresh_confined (hyolo : env.yolo = false) (hfamilies : ∀ f, w₀.families f = .empty)
    (hrows : w₀.db.refreshTokens = ∅) (hrun : (endpointSystem env).Run ⟨w₀, []⟩ steps P) {client : ClientRow}
    {form : RefreshForm} {secret : String} {response : TokenResponse}
    (hdone : P.finished i = some (.refresh client form secret, .ok (.refreshed (.issued response)))) :
    UserToken env client response.accessToken (stepsOf i steps) := by
  have hpath := hrun.finished hdone
  cases hform : form.refreshToken with
  | none =>
    have hends : endsE ((EndpointCall.refresh client form secret).code env) (fun _ _ => False) fun _ _ => True := by
      refine endsE_answer ?_
      rw [handleRefreshToken, hform]
      trivial
    exact ((endsE_iff.1 hends).1 _ _ hpath).elim
  | some presented =>
    have hends : endsE ((EndpointCall.refresh client form secret).code env) (fun answer tr => ∀ response,
        answer = .refreshed (.issued response) → ∃ row m past t future, tr = past ++ t :: future ∧
          RefreshGranted env client presented row m.scope past ∧ Rotates (familyIdOf presented) m t.1 t.2 ∧
            Refresh.Grants m response) fun _ _ => True := by
      refine endsE_answer (endsE_imp (fun answer tr h response hanswer => ?_) (fun _ _ _ => trivial) _
        (handleRefreshToken_granted hyolo hform))
      cases hanswer
      exact h response rfl
    obtain ⟨row, m, past, x, future, hsteps, hgranted, hrot, hgrants⟩ := (endsE_iff.1 hends).1 _ _ hpath response rfl
    obtain ⟨older, u, newer, hsplit, -, rfl, holder, -⟩ := stepsOf_split hsteps
    have hcall : EndpointCall.refresh client form secret ∈ P.threads.map Prod.fst :=
      List.mem_map.2 ⟨_, Pool.mem_of_finished hdone, rfl⟩
    -- the read came before the rotation
    obtain ⟨_, hread, hrow⟩ := hgranted.read
    rw [← holder] at hread
    obtain ⟨v, hv, -, rfl⟩ := mem_stepsOf.1 hread
    obtain ⟨first, between, rfl⟩ := List.append_of_mem hv
    have hsplit' : steps = first ++ v :: (between ++ u :: newer) := by
      rw [hsplit]
      simp
    have hv' : v ∈ steps := hsplit' ▸ List.mem_append_right _ List.mem_cons_self
    have hid := presents_family hfamilies hrows hrun hv' hcall hform hrow
    obtain ⟨-, m', hm', huser, hclient, hresource⟩ := backed_later hfamilies hrows hrun hsplit' hrow.1 u
      (List.mem_cons_of_mem _ (List.mem_append_right _ List.mem_cons_self))
    obtain ⟨-, -, hm, -⟩ := hrot
    rw [hid, hm] at hm'
    cases hm'
    have hsub : past.Sublist (stepsOf i steps) := hsteps ▸ List.sublist_append_left _ _
    refine ⟨hgrants.clientId.trans (hclient.trans hgranted.clientId), ?_⟩
    rw [hgrants.sub, hgrants.aud, hgrants.tokenScope, huser, hresource]
    exact hgranted.granted.sublist hsub

/-- In every run of the token and revocation endpoints, whatever else changes the database, each access token
that was answered is for the client that asked, and what it grants was checked on databases that its request
read. -/
theorem tokens_confined (hyolo : env.yolo = false) (hfamilies : ∀ f, w₀.families f = .empty)
    (hrows : w₀.db.refreshTokens = ∅) (hrun : (endpointSystem env).Run ⟨w₀, []⟩ steps P) {c : EndpointCall}
    {answer : EndpointAnswer} (hdone : P.finished i = some (c, .ok answer)) : Confined env (stepsOf i steps) c answer := by
  have hpath := hrun.finished hdone
  have hends : endsE (c.code env) (fun answer tr => Confined env tr c answer) (fun _ _ => True) →
      Confined env (stepsOf i steps) c answer := fun h => (endsE_iff.1 h).1 _ _ hpath
  cases c with
  | exchange client form familyId secret grantId =>
    refine hends (endsE_answer ?_)
    exact endsE_imp (fun response tr h => h.2) (fun _ _ _ => trivial) _ (handleAuthorizationCode_ends hyolo)
  | poll client deviceCode familyId secret grantId =>
    refine hends (endsE_answer ?_)
    exact endsE_imp (fun response tr h => h.2) (fun _ _ _ => trivial) _ (handleDeviceCodeGrant_granted hyolo)
  | refresh client form secret =>
    cases answer with
    | refreshed answer =>
      cases answer with
      | issued response => exact refresh_confined hyolo hfamilies hrows hrun hdone
      | tooSoon retryAfterSeconds => trivial
    | tokens response => trivial
    | revoked answer => trivial
    | done => trivial
  | service client form =>
    refine hends (endsE_answer (endsE_iff.2 ⟨fun tr response hpath => ?_, fun _ _ _ => trivial⟩))
    intro hscopes
    exact ((endsE_iff.1 (handleClientCredentials_ends hyolo hscopes)).1 tr response hpath).2
  | revoke client token => trivial
  | other step => trivial

end

/-! ## Revocations -/

section

variable {env : Env} {w₀ : World} {steps older newer : List (Taken World)}
  {P : Pool EndpointCall Input World (Except Failure EndpointAnswer)} {i : Nat} {client : ClientRow} {token : String}
  {answer : EndpointAnswer}

/-- A revoked object is the same at every later step. -/
theorem revoked_later (hfamilies : ∀ f, w₀.families f = .empty) (hrows : w₀.db.refreshTokens = ∅)
    (hrun : (endpointSystem env).Run ⟨w₀, []⟩ steps P) {t : Taken World} (hsplit : steps = older ++ t :: newer) {f : String}
    {m : RefreshFamilyMeta} (hm : (t.after.families f).familyMeta = some m) (hrevoked : m.revoked = true) :
    ∀ u ∈ newer, (u.before.families f).familyMeta = some m ∧ (u.after.families f).familyMeta = some m := by
  subst hsplit
  obtain ⟨w, hchain, hrest⟩ := hrun.chained.split
  refine Chained.all (p := fun w => (w.families f).familyMeta = some m) hrest.2 (fun u hu h => ?_) hm
  obtain ⟨m', hm', -, -, -, hsame⟩ := endpoint_kept hfamilies hrows hrun
    (List.mem_append_right _ (List.mem_cons_of_mem _ hu)) f m h
  rw [hm', hsame hrevoked]

/-- An answered revocation of a family that was the client's has revoked its object. -/
theorem revocation_revokes (hfamilies : ∀ f, w₀.families f = .empty) (hrows : w₀.db.refreshTokens = ∅)
    (hrun : (endpointSystem env).Run ⟨w₀, []⟩ steps P)
    (hdone : P.finished i = some (.revoke client (some token), .ok answer)) (hdot : '.' ∈ token.toList)
    (hfamily : familyIdOf token ≠ "") (hrow : ∀ t ∈ steps, t.thread = i →
      ∃ r ∈ t.before.db.refreshTokens, r.id = familyIdOf token ∧ r.clientId = client.clientId) :
    ∃ t ∈ steps, t.thread = i ∧
      ∃ m, (t.after.families (familyIdOf token)).familyMeta = some m ∧ m.revoked = true := by
  have hends : endsE ((EndpointCall.revoke client (some token)).code env) (fun _ tr =>
      Saw (fun db => ∀ r ∈ db.refreshTokens, r.id ≠ familyIdOf token) tr ∨
      ∃ row, Saw (Presents env token row) tr ∧ (row.clientId = client.clientId →
        ∃ t ∈ tr, t.2.families row.id = Do.revoke (t.1.families row.id))) fun _ _ => True :=
    endsE_answer (endsE_imp (fun _ _ h => h) (fun _ _ _ => trivial) _ (handleRevoke_ends hdot hfamily))
  rcases (endsE_iff.1 hends).1 _ _ (hrun.finished hdone) with ⟨x, hx, hnone⟩ | ⟨row, ⟨x, hx, hread⟩, hrevokes⟩
  · obtain ⟨t, ht, hthread, rfl⟩ := mem_stepsOf.1 hx
    obtain ⟨r, hr, hid, -⟩ := hrow t ht hthread
    exact absurd hid (hnone r hr)
  · obtain ⟨t, ht, hthread, rfl⟩ := mem_stepsOf.1 hx
    obtain ⟨r, hr, hid, hclient⟩ := hrow t ht hthread
    have hcall : EndpointCall.revoke client (some token) ∈ P.threads.map Prod.fst :=
      List.mem_map.2 ⟨_, Pool.mem_of_finished hdone, rfl⟩
    have hrowid := presents_family hfamilies hrows hrun ht hcall rfl hread
    have hsame := Table.key_inj hread.1 hr (hrowid.trans hid.symm)
    subst hsame
    obtain ⟨y, hy, hrevoke⟩ := hrevokes hclient
    obtain ⟨u, hu, huthread, rfl⟩ := mem_stepsOf.1 hy
    refine ⟨u, hu, huthread, ?_⟩
    obtain ⟨r', hr', hid', -⟩ := hrow u hu huthread
    obtain ⟨hi, -⟩ := endpoint_steps hfamilies hrows hrun u hu
    obtain ⟨m, hm, -⟩ := hi r' hr'
    rw [hid'] at hm
    rw [hid] at hrevoke
    refine ⟨{ m with revoked := true }, ?_, rfl⟩
    rw [hrevoke, Do.revoke, hm]
    rfl

/-- Once a client has revoked a family, by any of the family's tokens, the family does not rotate, in any run:
a refresh request for it that is answered with tokens rotated it before the revocation returned. -/
theorem revocation_is_final (hfamilies : ∀ f, w₀.families f = .empty)
    (hrows : w₀.db.refreshTokens = ∅) (hrun : (endpointSystem env).Run ⟨w₀, []⟩ (older ++ newer) P)
    (hdone : P.finished i = some (.revoke client (some token), .ok answer)) (hdot : '.' ∈ token.toList)
    (hfamily : familyIdOf token ≠ "") (hreturned : stepsOf i newer = []) (hrow : ∀ t ∈ older, t.thread = i →
      ∃ r ∈ t.before.db.refreshTokens, r.id = familyIdOf token ∧ r.clientId = client.clientId) :
    (∀ t ∈ newer, ∀ m, ¬Rotates (familyIdOf token) m t.before t.after) ∧
      ∀ (j : Nat) other form secret presented response,
        P.finished j = some (.refresh other form secret, .ok (.refreshed (.issued response))) →
        form.refreshToken = some presented → familyIdOf presented = familyIdOf token →
        ∃ t ∈ older, t.thread = j ∧ ∃ m, Rotates (familyIdOf token) m t.before t.after ∧ Refresh.Grants m response := by
  -- the call has returned, so none of its steps is among the later ones
  have hnew : ∀ t ∈ newer, t.thread ≠ i := by
    intro t ht hthread
    have hmem : (t.before, t.after) ∈ stepsOf i newer := mem_stepsOf.2 ⟨t, ht, hthread, rfl⟩
    rw [hreturned] at hmem
    exact List.not_mem_nil hmem
  obtain ⟨t, ht, hthread, m, hm, hrevoked⟩ := revocation_revokes hfamilies hrows hrun hdone hdot hfamily (by
    intro t ht hthread
    rcases List.mem_append.1 ht with ht | ht
    · exact hrow t ht hthread
    · exact absurd hthread (hnew t ht))
  have hbefore : t ∈ older := (List.mem_append.1 ht).resolve_right fun h => hnew t h hthread
  obtain ⟨first, between, rfl⟩ := List.append_of_mem hbefore
  have hstill := revoked_later hfamilies hrows hrun (by rw [List.append_assoc, List.cons_append]) hm hrevoked
  -- a rotation would raise the generation of a family that no longer changes
  have hnever : ∀ u ∈ newer, ∀ m', ¬Rotates (familyIdOf token) m' u.before u.after := by
    rintro u hu m' ⟨m₀, hm₀, hm', hgen⟩
    obtain ⟨h1, h2⟩ := hstill u (List.mem_append_right _ hu)
    cases hm₀.symm.trans h1
    cases hm'.symm.trans h2
    omega
  refine ⟨hnever, fun j other form secret presented response hdone' hform hsame => ?_⟩
  have hends : endsE ((EndpointCall.refresh other form secret).code env) (fun answer tr => ∀ response,
      answer = .refreshed (.issued response) →
        ∃ m, Rotated (familyIdOf presented) m tr ∧ Refresh.Grants m response) fun _ _ => True := by
    refine endsE_answer (endsE_imp (fun answer tr h response hanswer => ?_) (fun _ _ _ => trivial) _ (handleRefreshToken_ends hform))
    cases hanswer
    exact h response rfl
  -- a response goes back to a rotation of its own call
  obtain ⟨m', ⟨x, hx, hrot⟩, hgrants⟩ := (endsE_iff.1 hends).1 _ _ (hrun.finished hdone') response rfl
  rw [hsame] at hrot
  obtain ⟨u, hu, huthread, rfl⟩ := mem_stepsOf.1 hx
  have hold := (List.mem_append.1 hu).resolve_right fun h => hnever u h m' hrot
  exact ⟨u, hold, huthread, m', hrot, hgrants⟩

/-- No step of a revocation touches a family of another client, whatever token it presents. -/
theorem revocation_spares_other_clients (hfamilies : ∀ f, w₀.families f = .empty) (hrows : w₀.db.refreshTokens = ∅)
    (hrun : (endpointSystem env).Run ⟨w₀, []⟩ steps P) {token : Option String}
    {p : Prog Input World (Except Failure EndpointAnswer)} (hcall : P.threads[i]? = some (.revoke client token, p)) :
    ∀ t ∈ steps, t.thread = i →
      (∀ f m, (t.before.families f).familyMeta = some m → m.clientId ≠ client.clientId →
        t.after.families f = t.before.families f) ∧
      ∀ r ∈ t.before.db.refreshTokens, r.clientId ≠ client.clientId → r ∈ t.after.db.refreshTokens := by
  intro t ht hthread
  obtain ⟨-, -, c, q, hcall', hguar⟩ := endpoint_steps hfamilies hrows hrun t ht
  rw [hthread, hcall] at hcall'
  cases hcall'
  exact hguar.spared client token rfl

end

/-! ## Runs -/

/-- What a call may ask of those before it. -/
def Fresh (env : Env) (c d : EndpointCall) : Prop :=
  (∀ f, d.family = some f → c.family ≠ some f) ∧ Distinct env c d ∧ Distinct env d c

/-- A schedule is allowed if each call may arrive after those before it. -/
theorem endpoint_allows {env : Env} : ∀ {ms : List (System.Move EndpointCall Input)}
    {P : Pool EndpointCall Input World (Except Failure EndpointAnswer)},
    (P.threads.map Prod.fst ++ System.calls ms).Pairwise (Fresh env) →
    (∀ c ∈ System.calls ms, (∀ f, c.family = some f → '.' ∉ f.toList) ∧ Distinct env c c ∧
      ∀ step, c = .other step → ∀ w, Spares w (step w)) → (endpointSystem env).Allows P ms
  | [], _, _, _ => trivial
  | .arrive c :: ms, P, hpairs, hcalls => by
    obtain ⟨hdots, hself, hspares⟩ := hcalls c List.mem_cons_self
    obtain ⟨-, -, hcross⟩ := List.pairwise_append.1 hpairs
    have hfresh : ∀ t ∈ P.threads, Fresh env t.1 c := fun t ht =>
      hcross t.1 (List.mem_map.2 ⟨t, ht, rfl⟩) c List.mem_cons_self
    refine ⟨⟨fun f hf => ⟨hdots f hf, fun t ht => (hfresh t ht).1 f hf⟩, hself, fun t ht => (hfresh t ht).2, hspares⟩, ?_⟩
    refine endpoint_allows ?_ fun d hd => hcalls d (List.mem_cons_of_mem _ hd)
    rw [System.move, List.map_append, List.append_assoc]
    exact hpairs
  | .run i e :: ms, P, hpairs, hcalls => by
    refine ⟨trivial, endpoint_allows ?_ hcalls⟩
    have hsame := System.map_fst_moves (endpointSystem env) [.run i e] P
    rw [show System.calls [System.Move.run i e] = ([] : List EndpointCall) from rfl, List.append_nil] at hsame
    rw [show (endpointSystem env).moves P [.run i e] = (endpointSystem env).move P (.run i e) from rfl] at hsame
    rw [hsame]
    exact hpairs

def endpointExchange : EndpointCall :=
  .exchange Deployment.client ⟨some "code_a", some "https://app.example.com/cb", some Deployment.verifier, none⟩ "rtf_a"
    "secret" "grant_a"

def endpointRefresh : EndpointCall :=
  .refresh Deployment.client ⟨some "rtf_a.secret", none, none⟩ "next"

def endpointRevoke : EndpointCall :=
  .revoke Deployment.client (some "rtf_a.secret")

/-- A code is exchanged, and the refresh token of the answer is used. -/
def refreshedSchedule : List (System.Move EndpointCall Input) :=
  .arrive endpointExchange :: List.replicate 30 (.run 0 Deployment.ok) ++
    .arrive endpointRefresh :: List.replicate 30 (.run 1 Deployment.ok)

/-- A code is exchanged, the refresh token of the answer is revoked, and then it is used. -/
def revokedSchedule : List (System.Move EndpointCall Input) :=
  .arrive endpointExchange :: List.replicate 30 (.run 0 Deployment.ok) ++
    (.arrive endpointRevoke :: List.replicate 10 (.run 1 Deployment.ok) ++
      .arrive endpointRefresh :: List.replicate 30 (.run 2 Deployment.ok))

/-- Another application of the same deployment. -/
def otherClient : ClientRow := { Deployment.client with clientId := "app_b", name := "App B" }

/-- The deployment where the user may use, and has consented to, both applications, with a code for each. -/
def twoClientWorld : World :=
  { Deployment.codeWorld with
    db := { Deployment.database with
      clients := Deployment.database.clients.insert otherClient
      consents := Deployment.database.consents.insert { Deployment.consent with id := "con_b", clientId := "app_b" }
      permissionGroupRules := Deployment.database.permissionGroupRules.insert
        { Deployment.rule with id := "rule_b", condition := some (.single .application .equals "app_b") } }
    codes := fun h =>
      if h = hashOpaqueToken Deployment.env "code_b" then
        .store 1000000 { Deployment.authorizationCode with clientId := "app_b" } 60 .empty
      else Deployment.codeWorld.codes h }

def otherExchange : EndpointCall :=
  .exchange otherClient ⟨some "code_b", some "https://app.example.com/cb", some Deployment.verifier, none⟩ "rtf_b" "secret" "grant_b"

/-- The first application presents the token of the other one. -/
def foreignRevoke : EndpointCall :=
  .revoke Deployment.client (some "rtf_b.secret")

/-- Both applications exchange their codes; then the first one presents for revocation its own refresh token
and that of the other. -/
def foreignSchedule : List (System.Move EndpointCall Input) :=
  List.flatten [[.arrive otherExchange], List.replicate 30 (.run 0 Deployment.ok),
    [.arrive endpointExchange], List.replicate 30 (.run 1 Deployment.ok),
    [.arrive endpointRevoke], List.replicate 10 (.run 2 Deployment.ok),
    [.arrive foreignRevoke], List.replicate 10 (.run 3 Deployment.ok)]

/-- The calls of the runs. -/
def deployedCalls : List EndpointCall :=
  [otherExchange, endpointExchange, endpointRevoke, foreignRevoke, endpointRefresh]

theorem distinct_deployed : ∀ c ∈ deployedCalls, ∀ d ∈ deployedCalls, Distinct Deployment.env c d := by
  have htokens : ∀ c ∈ deployedCalls, ∀ d ∈ deployedCalls, ∀ t ∈ c.draws, ∀ t' ∈ d.presents,
      hashOpaqueToken Deployment.env t = hashOpaqueToken Deployment.env t' → t = t' := by decide +kernel
  exact fun c hc d hd t t' ht ht' => htokens c hc d hd t ht t' ht'

/-- The deployment's calls may arrive in this order. -/
theorem deployed_allows {w : World} {ms : List (System.Move EndpointCall Input)}
    (hcalls : (System.calls ms).Sublist deployedCalls) : (endpointSystem Deployment.env).Allows ⟨w, []⟩ ms := by
  have hfamilies : deployedCalls.Pairwise fun c d => ∀ f ∈ d.family, c.family ≠ some f := by decide
  have hdots : ∀ c ∈ deployedCalls, ∀ f ∈ c.family, '.' ∉ f.toList := by decide
  refine endpoint_allows (List.Pairwise.sublist hcalls ?_) fun c hc => ?_
  · exact hfamilies.imp_of_mem fun {c d} hc hd h => ⟨h, distinct_deployed c hc d hd, distinct_deployed d hd c hc⟩
  · have hmem := hcalls.subset hc
    refine ⟨hdots c hmem, distinct_deployed c hmem c hmem, fun step hstep => ?_⟩
    simp only [deployedCalls, List.mem_cons, List.not_mem_nil, or_false] at hmem
    rcases hmem with rfl | rfl | rfl | rfl | rfl <;> cases hstep

theorem tokens_confined_refreshed :
    let S := endpointSystem Deployment.env
    let P := S.moves ⟨Deployment.codeWorld, []⟩ refreshedSchedule
    ∃ response, P.finished 1 = some (endpointRefresh, .ok (.refreshed (.issued response))) ∧
      UserToken Deployment.env Deployment.client response.accessToken
        (stepsOf 1 (S.taken ⟨Deployment.codeWorld, []⟩ refreshedSchedule)) := by
  intro S P
  have hresult : (P.finished 1).map Prod.snd = some (.ok (.refreshed (.issued
      ⟨⟨"usr_a", "https://api.example.com", "app", "openid offline_access", some 0, 900⟩, "openid offline_access",
        some ⟨"usr_a", "app", ["openid", "offline_access"], 0, none⟩, some "rtf_a.next"⟩))) := by
    decide +kernel
  have hdone := System.finished_moves (c := endpointRefresh) hresult rfl
  exact ⟨_, hdone, tokens_confined rfl (fun _ => rfl) rfl (System.run_moves _ (deployed_allows (by simp [refreshedSchedule, deployedCalls, System.calls]))) hdone⟩

theorem revocation_is_final_revoked :
    let S := endpointSystem Deployment.env
    let P := S.moves ⟨Deployment.codeWorld, []⟩ revokedSchedule
    let steps := S.taken ⟨Deployment.codeWorld, []⟩ revokedSchedule
    P.finished 1 = some (endpointRevoke, .ok (.revoked .ok)) ∧ (steps.drop 20).map (·.thread) = [2] ∧
      ∀ t ∈ steps.drop 20, ∀ m, ¬Rotates (familyIdOf "rtf_a.secret") m t.before t.after := by
  intro S P steps
  obtain ⟨hresult, hthreads, hrow⟩ : (P.finished 1).map Prod.snd = some (.ok (.revoked .ok)) ∧
      (steps.drop 20).map (·.thread) = [2] ∧ (steps.take 20).all (fun t => t.thread ≠ 1 ||
        t.before.db.refreshTokens.rows.any fun r => r.id = familyIdOf "rtf_a.secret" && r.clientId = "app") = true := by
    decide +kernel
  have hdone := System.finished_moves (c := endpointRevoke) hresult rfl
  have hrun : S.Run ⟨Deployment.codeWorld, []⟩ (steps.take 20 ++ steps.drop 20) P := by
    rw [List.take_append_drop]
    exact System.run_moves _ (deployed_allows (by simp [revokedSchedule, deployedCalls, System.calls]))
  refine ⟨hdone, hthreads, (revocation_is_final (fun _ => rfl) rfl hrun hdone (by decide) (by decide +kernel) ?_ ?_).1⟩
  · refine List.eq_nil_iff_forall_not_mem.2 fun x hx => ?_
    obtain ⟨t, ht, hthread, -⟩ := mem_stepsOf.1 hx
    have hmem := List.mem_map.2 ⟨t, ht, hthread⟩
    rw [hthreads] at hmem
    exact absurd hmem (by decide)
  · intro t ht hthread
    have hany := List.all_eq_true.1 hrow t ht
    simp only [hthread, ne_eq, not_true_eq_false, decide_false, Bool.false_or, List.any_eq_true, Bool.and_eq_true,
      decide_eq_true_eq] at hany
    exact hany

/-- Both revocations take steps, and at each of them the other application has its family and its row. -/
theorem revocation_spares_other_clients_revoked :
    let S := endpointSystem Deployment.env
    let steps := S.taken ⟨twoClientWorld, []⟩ foreignSchedule
    steps.map (·.thread) = List.replicate 15 0 ++ List.replicate 15 1 ++ [2, 2, 2, 2, 2, 3] ∧
      ∀ t ∈ steps, t.thread = 2 ∨ t.thread = 3 →
        ((t.before.families "rtf_b").familyMeta.map (·.clientId) = some "app_b" ∧
          t.after.families "rtf_b" = t.before.families "rtf_b") ∧
        ∃ r ∈ t.before.db.refreshTokens, r.clientId = "app_b" ∧ r ∈ t.after.db.refreshTokens := by
  intro S steps
  have hrun := System.run_moves (S := S) foreignSchedule (deployed_allows (w := twoClientWorld)
    (by simp [foreignSchedule, deployedCalls, System.calls]))
  obtain ⟨hthreads, hheld⟩ : steps.map (·.thread) = List.replicate 15 0 ++ List.replicate 15 1 ++ [2, 2, 2, 2, 2, 3] ∧
      ∀ t ∈ steps, t.thread = 2 ∨ t.thread = 3 →
        (t.before.families "rtf_b").familyMeta.map (·.clientId) = some "app_b" ∧
          t.before.db.refreshTokens.has (fun r => r.clientId = "app_b") = true := by decide +kernel
  have hspared : ∀ {i : Nat} {token : Option String},
      ((System.calls foreignSchedule)[i]? = some (.revoke Deployment.client token)) → ∀ t ∈ steps, t.thread = i →
      (∀ f m, (t.before.families f).familyMeta = some m → m.clientId ≠ "app" → t.after.families f = t.before.families f) ∧
        ∀ r ∈ t.before.db.refreshTokens, r.clientId ≠ "app" → r ∈ t.after.db.refreshTokens := by
    intro i token hcall
    have hcalls := congrArg (·[i]?) (System.map_fst_moves S foreignSchedule ⟨twoClientWorld, []⟩)
    rw [List.getElem?_map] at hcalls
    obtain ⟨⟨c, p⟩, hthread, rfl⟩ := Option.map_eq_some_iff.1 (hcalls.trans hcall)
    exact revocation_spares_other_clients (fun _ => rfl) rfl hrun hthread
  refine ⟨hthreads, fun t ht hthread => ?_⟩
  obtain ⟨hmeta, hrow⟩ := hheld t ht hthread
  obtain ⟨hfamilies, hrows⟩ : _ ∧ _ := hthread.elim (hspared (i := 2) rfl t ht) (hspared (i := 3) rfl t ht)
  obtain ⟨m, hm, hclient⟩ := Option.map_eq_some_iff.1 hmeta
  obtain ⟨r, hr, hother⟩ := Table.has_iff.1 hrow
  have hother := of_decide_eq_true hother
  exact ⟨⟨hmeta, hfamilies "rtf_b" m hm (by rw [hclient]; decide)⟩, r, hr, hother, hrows r hr (by rw [hother]; decide)⟩

end Keyforge.Grant
