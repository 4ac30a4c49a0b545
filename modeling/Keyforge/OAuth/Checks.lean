/-
The token endpoint's reads change nothing: every check a grant makes before it issues, and every
step after its last write, is quiet. The scopes that a refresh request is granted are among those its
family had when it was read.
-/
import Keyforge.Logic
import Keyforge.OAuth.Token
import Keyforge.Paths

namespace Keyforge.OAuth

open Lib Db Tokens Auth

/-! ## Gates -/

theorem getSessionById_quiet (sessionId : String) : Quiet (getSessionById sessionId) := by
  unfold getSessionById
  refine .bind (.select _) fun row => ?_
  cases row with
  | none => exact .pure _
  | some s => exact .ite (.pure _) (.bind .clock fun _ => .pure _)

theorem consentCoversScopes_quiet (env : Env) (userId clientId resource : String) (scopes : List String)
    (metadataFingerprint : Option String) :
    Quiet (consentCoversScopes env userId clientId resource scopes metadataFingerprint) :=
  .ite (.pure _) (.bind (.select _) fun _ => .pure _)

theorem evaluateUserTokenAccess_quiet (env : Env) (input : UserTokenAccessInput) :
    Quiet (evaluateUserTokenAccess env input) :=
  .ite (.pure _) (.select _)

theorem validateRequestedScopes_quiet (requested allowed : List String) :
    Quiet (validateRequestedScopes requested allowed) :=
  .bind (.require _ _) fun _ => .pure _

theorem resolveResourceRecord_quiet (env : Env) (client : ClientRow) (requestedResource : Option String) :
    Quiet (resolveResourceRecord env client requestedResource) := by
  unfold resolveResourceRecord
  split
  · exact .throw _
  · refine .bind (.require _ _) fun _ => .bind (.select _) fun found => ?_
    split
    · exact .ite (.pure _) (.throw _)
    · refine .bind (.require _ _) fun _ => .bind (.require _ _) fun _ => .ite ?_ (.pure _)
      dsimp only
      split
      · exact .bind (.select _) fun _ => .bind (.require _ _) fun _ => .pure _
      · exact .bind (.pure _) fun _ => .bind (.require _ _) fun _ => .pure _

theorem resolveResourceForScopes_quiet (env : Env) (client : ClientRow) (requestedResource : Option String)
    (scopes : List String) : Quiet (resolveResourceForScopes env client requestedResource scopes) := by
  refine .bind (resolveResourceRecord_quiet _ _ _) fun registered => .ite (.pure _) ?_
  refine .bind (validateRequestedScopes_quiet _ _) fun _ => .bind (.tryCatch (validateRequestedScopes_quiet _ _) ?_)
    fun _ => .pure _
  intro error
  split <;> exact .throw _

theorem grantChecks_quiet (env : Env) (client : ClientRow) (userId : String) (sessionId : Option String)
    (resource : String) (scopes : List String) :
    Quiet (grantChecks env client userId sessionId resource scopes) := by
  refine .bind ?_ fun _ => .pure _
  refine .all (.select _) (.all ?_ (.all (consentCoversScopes_quiet _ _ _ _ _ _)
    (.all (evaluateUserTokenAccess_quiet _ _) (.settled (resolveResourceForScopes_quiet _ _ _ _)))))
  cases sessionId with
  | none => exact .pure _
  | some sessionId => exact getSessionById_quiet sessionId

/-! ## Tokens and answers -/

theorem signJwt_quiet {α : Type} (claims : α) : Quiet (signJwt claims) := .query _

theorem recordAudit_quiet : Quiet recordAudit := .query _

theorem idTokenFor_quiet (user : UserRow) (clientId : String) (scopes : List String) (authTime : Nat)
    (nonce : Option String) : Quiet (idTokenFor user clientId scopes authTime nonce) :=
  .ite (.map _ (signJwt_quiet _)) (.pure _)

theorem lookupPresentedFamily_quiet (env : Env) (presented : String) :
    Quiet (lookupPresentedFamily env presented) := by
  refine .bind (.select _) fun byHash => ?_
  cases byHash with
  | some record => exact .pure _
  | none => exact .ite (.select _) (.pure _)

/-- The scope string `s'` holds some of the scopes of `s`, and at least one. -/
def Narrows (s s' : String) : Prop :=
  parseScopeString (some s') ≠ [] ∧ parseScopeString (some s') ⊆ parseScopeString (some s)

/-- What a request asks for, if the check of its scopes passed, narrows what it was checked against. -/
theorem narrows_requested {original : String} {requested : Option String} {scopes : List String}
    (hscopes : scopes = if requested.isNone then parseScopeString (some original) else parseScopeString requested)
    (hsub : (!scopes.isEmpty && scopes.all (parseScopeString (some original)).contains) = true) :
    Narrows original (serializeScopes scopes) := by
  rw [Bool.and_eq_true, Bool.not_eq_true', List.isEmpty_eq_false_iff, List.all_eq_true] at hsub
  have hwords : ∀ s ∈ scopes, IsWord s := by
    intro s hs
    rw [hscopes] at hs
    split at hs
    · exact isWord_of_mem_parse hs
    · exact isWord_of_mem_parse hs
  rw [Narrows, parse_serialize hwords]
  exact ⟨hsub.1, fun s hs => by simpa using hsub.2 s hs⟩

/-- The checks look up the presented family; the rest of them reads, and narrows the family's scope. -/
theorem refreshChecks_lookup (env : Env) (client : ClientRow) (form : RefreshForm) (presented : String) :
    ∃ rest : Option RefreshTokenRecord → App String,
      refreshChecks env client form presented = lookupPresentedFamily env presented >>= rest ∧
      ∀ found, Quiet (rest found) ∧
        endsE (rest found) (fun scope _ => ∃ record, found = some record ∧ Narrows record.scope scope) fun _ _ => True := by
  refine ⟨_, rfl, fun found => ⟨?_, ?_⟩⟩
  -- no check writes
  · dsimp only
    split
    · exact .throw _
    · refine .bind .clock fun now => .bind (.require _ _) fun _ => .bind (.select _) fun _ => ?_
      refine .bind (.require _ _) fun _ => .bind (.require _ _) fun _ => .bind (.require _ _) fun _ => ?_
      refine .bind (grantChecks_quiet _ _ _ _ _ _) fun checks => ?_
      split
      · exact .throw _
      · refine .bind (.require _ _) fun _ => ?_
        split
        · exact .throw _
        · refine .bind (.require _ _) fun _ => ?_
          split
          · exact .throw _
          · exact .throw _
          · exact .pure _
  -- and the scopes are a part of the record's
  · have hlast : Lasting fun (scope : String) (_ : Steps) => ∃ record, found = some record ∧ Narrows record.scope scope :=
      fun _ _ _ _ h => h
    dsimp only
    split
    · trivial
    · rename_i record hfound
      obtain ⟨hfound, -⟩ := Option.filter_eq_some_iff.1 hfound
      refine endsE_skip hlast (fun _ _ => trivial) fun now => ?_
      refine endsE_skip hlast (fun _ _ => trivial) fun _ => endsE_skip hlast (fun _ _ => trivial) fun registered => ?_
      refine endsE_skip hlast (fun _ _ => trivial) fun _ => endsE_skip hlast (fun _ _ => trivial) fun _ => ?_
      rw [endsE_bind, endsE_require]
      refine ⟨fun hsub => ?_, fun _ => trivial⟩
      have hnarrows := narrows_requested rfl hsub
      refine endsE_skip hlast (fun _ _ => trivial) fun checks => ?_
      split
      · trivial
      · refine endsE_skip hlast (fun _ _ => trivial) fun _ => ?_
        split
        · trivial
        · refine endsE_skip hlast (fun _ _ => trivial) fun _ => ?_
          split
          · trivial
          · trivial
          · exact ⟨record, hfound, hnarrows⟩

theorem refreshChecks_quiet (env : Env) (client : ClientRow) (form : RefreshForm) (presented : String) :
    Quiet (refreshChecks env client form presented) := by
  obtain ⟨rest, hrest, hall⟩ := refreshChecks_lookup env client form presented
  rw [hrest]
  exact .bind (lookupPresentedFamily_quiet _ _) fun found => (hall found).1

theorem issueRotatedTokens_quiet (client : ClientRow) (token userId clientId resource scope : String)
    (authTime : Nat) : Quiet (issueRotatedTokens client token userId clientId resource scope authTime) := by
  refine .bind (.require _ _) fun _ => .bind (.select _) fun user => ?_
  split
  · exact .throw _
  · exact .bind (signJwt_quiet _) fun _ => .bind (idTokenFor_quiet _ _ _ _ _) fun _ =>
      .bind recordAudit_quiet fun _ => .pure _

theorem answerRotation_quiet (client : ClientRow) (outcome : RotateOutcome) :
    Quiet (answerRotation client outcome) := by
  cases outcome with
  | rotated token userId clientId resource scope authTime => exact .map _ (issueRotatedTokens_quiet _ _ _ _ _ _ _)
  | reuseDetected familyId => exact .bind recordAudit_quiet fun _ => .throw _
  | tooSoon retryAfterSeconds => exact .pure _
  | reauthorizationRequired familyId => exact .throw _
  | invalid => exact .throw _

/-! ## What the reads find -/

section

variable {Γ : Protocol Input World} {w : World} {P : World → Prop} {X : Failure → World → Prop}

theorem idTokenFor_wpE (hc : Clocked Γ) (hP : Γ.Stable P) (hw : P w) (hi : Γ.inv w) {user : UserRow}
    {clientId : String} {scopes : List String} {authTime : Nat} {nonce : Option String}
    {Q : Option IdToken → World → Prop} (hQ : ∀ t w, P w → Γ.inv w → Q t w)
    (hX : ∀ w, P w → Γ.inv w → X .storage w) : wpE Γ (idTokenFor user clientId scopes authTime nonce) Q X w := by
  unfold idTokenFor
  split
  · rw [map_eq_pure_bind, wpE_bind, issueIdToken, signJwt]
    exact wpE_query hc hP hw (fun w hw hi => hQ (some _) w hw hi) hX
  · exact hQ none w hw hi

/-- A live session: `R` is what its row, read unrevoked, tells for as long as the request runs. -/
theorem getSessionById_wpE (hc : Clocked Γ) (hP : Γ.Stable P) (hw : P w) {sessionId : String}
    {R : SessionRow → World → Prop} (hR : ∀ s, Γ.Stable (R s))
    (hread : ∀ w s, P w → Γ.inv w → w.db.sessions.get? sessionId = some s → s.revokedAt = none → R s w)
    {Q : Option SessionRecord → World → Prop} (hnone : ∀ w, P w → Γ.inv w → Q none w)
    (hsome : ∀ s w, P w → R s w → Γ.inv w → w.nowSeconds < s.expiresAt → Q (some (toSession s)) w)
    (hX : ∀ w, P w → Γ.inv w → X .storage w) : wpE Γ (getSessionById sessionId) Q X w := by
  rw [getSessionById, wpE_bind]
  refine wpE_select hc hP hw (fun w hw hi => ?_) hX
  cases hs : w.db.sessions.get? sessionId with
  | none => exact hnone w hw hi
  | some s =>
    dsimp only
    split
    · exact hnone w hw hi
    · rename_i hrev
      rw [wpE_bind]
      have hr := hread w s hw hi hs (not_not.1 hrev)
      refine wpE_clock hc (Stable.and hP (hR s)) ⟨hw, hr⟩ fun w h hi => ?_
      rw [wpE_pure]
      split
      · exact hnone w h.1 hi
      · rename_i hlt
        exact hsome s w h.1 h.2 hi (not_le.1 hlt)

/-- The five reads side by side, each checked on its own. -/
theorem grantChecks_wpE (hc : Clocked Γ) {env : Env} {client : ClientRow} {userId resource : String}
    {sessionId : Option String} {scopes : List String} {U : Option UserRow → World → Prop}
    {S : Option SessionRecord → World → Prop} {C : Bool → World → Prop} {A : Option AccessDenial → World → Prop}
    {R : Except Failure String → World → Prop} (hU : ∀ a, Γ.Stable (U a)) (hS : ∀ a, Γ.Stable (S a))
    (hC : ∀ a, Γ.Stable (C a)) (hA : ∀ a, Γ.Stable (A a)) (hR : ∀ a, Γ.Stable (R a)) (hX : ∀ x, Γ.Stable (X x))
    (huser : wpE (quiet Γ) (getUserById userId) U X w)
    (hsession : wpE (quiet Γ) (match sessionId with
      | none => pure none
      | some sessionId => getSessionById sessionId) S X w)
    (hconsent : wpE (quiet Γ)
      (consentCoversScopes env userId client.clientId resource scopes client.metadataFingerprint) C X w)
    (haccess : wpE (quiet Γ) (evaluateUserTokenAccess env
      { userId, clientId := client.clientId, resourceUri := resource, scopes }) A X w)
    (hresource : wpE (quiet Γ) (settled (resolveResourceForScopes env client (some resource) scopes)) R X w) :
    wpE Γ (grantChecks env client userId sessionId resource scopes)
      (fun checks w => U checks.user w ∧ S checks.sourceSession w ∧ C checks.consentCovered w ∧
        A checks.access w ∧ R checks.resource w) X w := by
  have hself : ∀ {a b}, (quiet Γ).guar a b → (quiet Γ).rely a b := quiet_self hc
  have hok := hc.quiet.ok
  have hAR := fun b : Option AccessDenial × Except Failure String => Stable.and (hA b.1) (hR b.2)
  have hCAR := fun b : Bool × _ => Stable.and (hC b.1) (hAR b.2)
  have hSCAR := fun b : Option SessionRecord × _ => Stable.and (hS b.1) (hCAR b.2)
  refine wpE_of_quiet hc ?_
  unfold grantChecks
  rw [wpE_bind]
  exact wpE_all hok hself hU hSCAR hX huser (wpE_all hok hself hS hCAR hX hsession
    (wpE_all hok hself hC hAR hX hconsent (wpE_all hok hself hA hR hX haccess hresource)))

/-- What was known stays known across the checks, and the user found is the one asked for. -/
theorem grantChecks_user (hc : Clocked Γ) (hP : Γ.Stable P) (hw : P w) (hi : Γ.inv w) {env : Env}
    {client : ClientRow} {userId resource : String} {sessionId : Option String} {scopes : List String} :
    wpE Γ (grantChecks env client userId sessionId resource scopes)
      (fun checks w => P w ∧ ∀ u ∈ checks.user, u.id = userId) (fun _ => P) w := by
  have hquiet : ∀ {α : Type} {p : App α}, Quiet p → wpE (quiet Γ) p (fun _ => P) (fun _ => P) w :=
    fun hp => hp.wpE hc.quiet hP hw hi (fun _ _ h _ => h) fun _ _ h _ => h
  have hsession : Quiet (match sessionId with
      | none => pure none
      | some sessionId => getSessionById sessionId) := by
    cases sessionId with
    | none => exact .pure _
    | some sessionId => exact getSessionById_quiet sessionId
  refine wpE_imp (fun _ _ h => h.1) (fun _ _ h => h) _ (grantChecks_wpE hc
    (U := fun a w => P w ∧ ∀ u ∈ a, u.id = userId) ?_ (fun _ => hP) (fun _ => hP) (fun _ => hP) (fun _ => hP)
    (fun _ => hP) ?_ (hquiet hsession) (hquiet (consentCoversScopes_quiet _ _ _ _ _ _))
    (hquiet (evaluateUserTokenAccess_quiet _ _)) (hquiet (.settled (resolveResourceForScopes_quiet _ _ _ _))))
  · exact fun a w w' h hr hi => ⟨hP h.1 hr hi, h.2⟩
  · refine wpE_select hc.quiet hP hw (fun w hw _ => ⟨hw, fun u hu => ?_⟩) fun _ hw _ => hw
    exact (Table.get?_eq_some.1 hu).2

theorem consentCoversScopes_wpE (hc : Clocked Γ) (hP : Γ.Stable P) (hw : P w) (hi : Γ.inv w) {env : Env}
    {userId clientId resource : String} {scopes : List String} {metadataFingerprint : Option String}
    {Q : Bool → World → Prop} (hyolo : env.yolo = true → ∀ w, P w → Γ.inv w → Q true w)
    (hread : env.yolo = false → ∀ w, P w → Γ.inv w →
      Q (consentCovers scopes metadataFingerprint (w.db.consents.get? (userId, clientId, resource))) w)
    (hX : ∀ w, P w → Γ.inv w → X .storage w) :
    wpE Γ (consentCoversScopes env userId clientId resource scopes metadataFingerprint) Q X w := by
  unfold consentCoversScopes
  split
  · rename_i h
    exact hyolo h w hw hi
  · rename_i h
    rw [wpE_bind]
    exact wpE_select hc hP hw (fun w hw hi => hread (Bool.not_eq_true _ ▸ h) w hw hi) hX

end

end Keyforge.OAuth
