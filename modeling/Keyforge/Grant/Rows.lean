/-
Family rows along a run, as the proofs about exchanges and withdrawals see them. A step keeps every
row, revokes some, and inserts a row only with an entry in the history (`Follows`); so once a
withdrawal has revoked all rows it is about, a live one among them was inserted later (`Cleared`).
-/
import Keyforge.History
import Keyforge.OAuth.Checks
import Keyforge.Routes.Account
import Keyforge.Tokens.Rules

namespace Keyforge.Grant

open Lib Db Tokens Auth OAuth

/-! ## Steps on the rows -/

/-- The history goes on with events that satisfy `E`, every row was there or is recorded as
inserted, and no family object is lost or unrevoked. -/
structure Follows (E : Event → Prop) (w w' : World) : Prop where
  rows : ∃ ext, w'.log = ext ++ w.log ∧ (∀ x ∈ ext, E x) ∧
    ∀ r' ∈ w'.db.refreshTokens, (∃ r ∈ w.db.refreshTokens, Kept r r') ∨ Event.familyInserted r'.id ∈ ext
  mono : ∀ f, FamilyMono (w.families f) (w'.families f)

namespace Follows

variable {E E' : Event → Prop} {w w' w'' : World}

/-- A step that inserts no row. -/
theorem of_rows {ext : List Event} (hlog : w'.log = ext ++ w.log) (hE : ∀ x ∈ ext, E x)
    (hrows : RowsRevoked w.db.refreshTokens w'.db.refreshTokens)
    (hmono : ∀ f, FamilyMono (w.families f) (w'.families f)) : Follows E w w' :=
  ⟨⟨ext, hlog, hE, fun r' hr' => Or.inl (hrows r' hr')⟩, hmono⟩

/-- A step on D1 that inserts no row and records nothing. -/
theorem of_silent (hlog : w'.log = w.log) (hrows : w'.db.refreshTokens = w.db.refreshTokens)
    (hmono : ∀ f, FamilyMono (w.families f) (w'.families f)) : Follows E w w' :=
  of_rows (hlog.trans (List.nil_append _).symm) (fun _ hx => (List.not_mem_nil hx).elim) (hrows ▸ RowsRevoked.refl _) hmono

theorem burns (h : Burns w w') : Follows E w w' :=
  of_silent h.log (by rw [h.db]) h.mono

theorem trans (h₁ : Follows E w w') (h₂ : Follows E w' w'') : Follows E w w'' := by
  obtain ⟨ext, hlog, hE, hrows⟩ := h₁.rows
  obtain ⟨ext', hlog', hE', hrows'⟩ := h₂.rows
  refine ⟨⟨ext' ++ ext, by rw [hlog', hlog, List.append_assoc], ?_, ?_⟩, fun f => (h₁.mono f).trans (h₂.mono f)⟩
  · intro x hx
    rcases List.mem_append.1 hx with hx | hx
    · exact hE' x hx
    · exact hE x hx
  · intro r'' hr''
    rcases hrows' r'' hr'' with ⟨r', hr', hk'⟩ | hnew
    · rcases hrows r' hr' with ⟨r, hr, hk⟩ | hnew
      · exact Or.inl ⟨r, hr, hk.trans hk'⟩
      · exact Or.inr (List.mem_append_right _ (hk'.id ▸ hnew))
    · exact Or.inr (List.mem_append_left _ hnew)

theorem imp (hE : ∀ x, E x → E' x) (h : Follows E w w') : Follows E' w w' := by
  obtain ⟨ext, hlog, hx, hrows⟩ := h.rows
  exact ⟨⟨ext, hlog, fun x hm => hE x (hx x hm), hrows⟩, h.mono⟩

theorem log (h : Follows E w w') : Continues E w w' := by
  obtain ⟨ext, hlog, hx, -⟩ := h.rows
  exact ⟨ext, hlog, hx⟩

/-- A row whose insertion `E` excludes was there before. -/
theorem old (h : Follows E w w') {r' : RefreshTokenRow} (hr' : r' ∈ w'.db.refreshTokens)
    (hn : ¬E (.familyInserted r'.id)) : ∃ r ∈ w.db.refreshTokens, Kept r r' := by
  obtain ⟨ext, -, hx, hrows⟩ := h.rows
  rcases hrows r' hr' with hold | hnew
  · exact hold
  · exact absurd (hx _ hnew) hn

end Follows

/-! ## Cleared rows -/

/-- `x` is recorded, and at some point after it no row that `p` selects was live: one that is live
now was inserted later. -/
def Cleared (p : RefreshTokenRow → Prop) (x : Event) (w : World) : Prop :=
  ∃ newer older, w.log = newer ++ older ∧ x ∈ older ∧
    ∀ r ∈ w.db.refreshTokens, p r → r.revokedAt = none → Event.familyInserted r.id ∈ newer

theorem Cleared.follows {p : RefreshTokenRow → Prop} {x : Event} {E : Event → Prop} {w w' : World}
    (hp : ∀ {r r'}, Kept r r' → p r' → p r) (h : Cleared p x w) (hf : Follows E w w') : Cleared p x w' := by
  obtain ⟨newer, older, hlog, hx, hlive⟩ := h
  obtain ⟨ext, hlog', -, hrows⟩ := hf.rows
  refine ⟨ext ++ newer, older, by rw [hlog', hlog, List.append_assoc], hx, ?_⟩
  intro r' hr' hpr hn
  rcases hrows r' hr' with ⟨r, hr, hk⟩ | hnew
  · rw [hk.id]
    exact List.mem_append_right _ (hlive r hr (hp hk hpr) (hk.live hn))
  · exact List.mem_append_left _ hnew

/-- Right after a statement that leaves no row of `p` live. -/
theorem Cleared.now {p : RefreshTokenRow → Prop} {x : Event} {w : World} (hx : x ∈ w.log)
    (h : ∀ r ∈ w.db.refreshTokens, p r → r.revokedAt ≠ none) : Cleared p x w :=
  ⟨[], w.log, rfl, hx, fun r hr hp hn => absurd hn (h r hr hp)⟩

/-- A live row of a cleared kind is not one whose insertions all precede the clearing. -/
theorem Cleared.revoked {p : RefreshTokenRow → Prop} {x : Event} {w : World} (h : Cleared p x w)
    {r : RefreshTokenRow} (hr : r ∈ w.db.refreshTokens) (hp : p r)
    (hbefore : AlwaysWhen (fun older => x ∉ older) (.familyInserted r.id) w.log) : r.revokedAt ≠ none := by
  intro hn
  obtain ⟨newer, older, hlog, hx, hlive⟩ := h
  obtain ⟨a, b, rfl⟩ := List.append_of_mem (hlive r hr hp hn)
  refine hbefore a (b ++ older) ?_ (List.mem_append_right _ hx)
  rw [hlog, List.append_assoc, List.cons_append]

/-! ## Issuance -/

/-- What the batch of an issuance records. -/
theorem issueEvents_cases (now : Nat) (input : IssueRefreshInput) (row : RefreshTokenRow) (db : Database) :
    issueEvents now input row db = [.familyInserted row.id] ∧ sessionGuard now input db = true ∨
      issueEvents now input row db = [.familyRefused row.id] ∧ sessionGuard now input db = false := by
  cases h : sessionGuard now input db <;> simp [issueEvents, h]

/-- Every row after the batch was there, or is the one it inserted. -/
theorem issueBatch_rows {now : Nat} {input : IssueRefreshInput} {row : RefreshTokenRow} {db : Database}
    {r' : RefreshTokenRow} (hr' : r' ∈ (issueBatch now input row db).2.refreshTokens) :
    (∃ r ∈ db.refreshTokens, Kept r r') ∨
      (Kept row r' ∧ sessionGuard now input db = true ∧ db.refreshTokens.get? row.id = none) := by
  obtain ⟨r, hr, hk⟩ := rowsRevoked_prune _ _ _ _ _ r' hr'
  unfold insertStatement at hr
  split at hr
  · rename_i hg
    rcases Table.mem_insert.1 hr with hr | ⟨rfl, hn⟩
    · exact Or.inl ⟨r, hr, hk⟩
    · exact Or.inr ⟨hk, hg, hn⟩
  · exact Or.inl ⟨r, hr, hk⟩

theorem follows_issue {E : Event → Prop} (now : Nat) (input : IssueRefreshInput) (row : RefreshTokenRow) (w : World)
    (hins : E (.familyInserted row.id)) (href : E (.familyRefused row.id)) :
    Follows E w (issuedWorld now input row w) := by
  refine ⟨⟨issueEvents now input row w.db, rfl, ?_, ?_⟩, fun _ => FamilyMono.refl _⟩
  · intro x hx
    rcases issueEvents_cases now input row w.db with ⟨h, -⟩ | ⟨h, -⟩ <;> rw [h] at hx <;>
      rw [List.mem_singleton.1 hx]
    · exact hins
    · exact href
  · intro r' hr'
    rcases issueBatch_rows hr' with hold | ⟨hk, hg, -⟩
    · exact Or.inl hold
    · refine Or.inr ?_
      rw [hk.id]
      simp [issueEvents, hg]

theorem follows_create {E : Event → Prop} (f : String) (now : Nat) (data : Do.RefreshFamilyInit) (w : World) :
    Follows E w (createdWorld f now data w) :=
  Follows.of_silent rfl rfl (createdWorld_mono f now data w)

section

variable {Γ : Protocol Input World} {w : World} {P A B : World → Prop} {X : Failure → World → Prop}

/-- Tokens for a user whose access is already validated. The response carries the family's token if
there is one: `P` is known when there is none, `A` when the family went in. -/
theorem issueUserTokens_wpE (hΓ : Tolerant Γ) {env : Env} {input : IssueUserTokensInput} {f secret : String}
    (haccess : input.accessValidated = true)
    (hlive : Γ.Stable fun w => (w.families f).familyMeta.isSome = true)
    (hP : Γ.Stable P) (hA : Γ.Stable A) (hB : Γ.Stable B) (hw : P w)
    (hcreate : ∀ w now data, P w → Γ.inv w →
      Γ.inv (createdWorld f now data w) ∧ Γ.guar w (createdWorld f now data w) ∧ P (createdWorld f now data w))
    (hbatch : ∀ w now tokenHash expiresAt e, P w → Γ.inv w →
      let w' := issuedWorld now input.refreshInput (issuedRow now f tokenHash expiresAt input.refreshInput) w
      Γ.allow w e w' → Γ.inv w' ∧ Γ.guar w w' ∧ (sessionGuard now input.refreshInput w.db = true → A w') ∧
        (sessionGuard now input.refreshInput w.db = false → B w'))
    (hrefused : ∀ w, B w → Γ.inv w →
      X (.oauth .invalidGrant "The authorization session is no longer active"
        "session or user changed while creating the refresh token family") w)
    (hstorage : ∀ w, X .storage w) {Q : TokenResponse → World → Prop}
    (hnone : ∀ t w, P w → Γ.inv w → t.refreshToken = none → Q t w)
    (hsome : ∀ t w, A w → Γ.inv w → t.refreshToken = some (f ++ "." ++ secret) → Q t w) :
    wpE Γ (issueUserTokens env input f secret) Q X w := by
  have hc := hΓ.toClocked
  rw [issueUserTokens, haccess]
  dsimp only
  rw [Bool.not_true, if_neg Bool.false_ne_true, wpE_bind, issueUserAccessToken, OAuth.signJwt]
  refine wpE_query hc hP hw (fun w hw hi => ?_) fun w _ _ => hstorage w
  rw [wpE_bind]
  refine idTokenFor_wpE hc hP hw hi (fun idToken w hw hi => ?_) fun w _ _ => hstorage w
  split
  · rw [wpE_bind]
    exact issueRefreshToken_wpE hΓ hlive hP hA hB hw hcreate hbatch (fun w hb hi _ => hrefused w hb hi) hstorage
      fun t w ha hi ht _ => hsome _ w ha hi (congrArg some ht)
  · exact hnone _ w hw hi rfl

/-! ## App revocation -/

/-- The world after the consents of a user for a client were deleted. -/
def unconsentedWorld (userId clientId : String) (w : World) : World :=
  { w with
    db := { w.db with consents := w.db.consents.delete fun k => k.userId = userId ∧ k.clientId = clientId }
    log := .consentDeleted userId clientId :: w.log }

/-- The world after the families `p` selects were revoked in D1. -/
def revokedWorld (now : Nat) (p : RefreshTokenRow → Bool) (w : World) : World :=
  { w with db := revokeRows now p w.db, log := .familiesRevoked (revokedIds p w.db) :: w.log }

theorem follows_revoked {E : Event → Prop} (now : Nat) (p : RefreshTokenRow → Bool) (w : World)
    (hE : ∀ ids, E (.familiesRevoked ids)) : Follows E w (revokedWorld now p w) := by
  have hlog : (revokedWorld now p w).log = [.familiesRevoked (revokedIds p w.db)] ++ w.log := rfl
  refine .of_rows hlog (fun x hx => ?_) (rowsRevoked_update _ _ _) fun _ => FamilyMono.refl _
  rw [List.mem_singleton.1 hx]
  exact hE _

/-- App revocation: `P` holds at the start, `A` once the consents are gone, `B` once the families are
revoked; its last write is to the grants alone. -/
theorem revokeApp_wpE (hΓ : Tolerant Γ) {userId clientId : String} (hP : Γ.Stable P) (hA : Γ.Stable A)
    (hB : Γ.Stable B) (hw : P w)
    (hdelete : ∀ w e, P w → Γ.inv w → Γ.allow w e (unconsentedWorld userId clientId w) →
      Γ.inv (unconsentedWorld userId clientId w) ∧ Γ.guar w (unconsentedWorld userId clientId w) ∧
        A (unconsentedWorld userId clientId w))
    (hrevoke : ∀ w e now, A w → Γ.inv w →
      let w' := revokedWorld now (fun r => r.userId = userId ∧ r.clientId = clientId) w
      Γ.allow w e w' → Γ.inv w' ∧ Γ.guar w w' ∧ B w')
    (hgrants : ∀ w w', B w → Γ.inv w → (∃ grants, w' = { w with db := { w.db with grants } }) →
      Γ.inv w' ∧ Γ.guar w w' ∧ B w')
    (hstorage : ∀ w, X .storage w) {Q : Bool → World → Prop} (hQ : ∀ b w, B w → Q b w) :
    wpE Γ (Routes.revokeApp userId clientId) Q X w := by
  have hc := hΓ.toClocked
  rw [Routes.revokeApp, wpE_bind]
  refine wpE_d1Logged hc hP hw ?_ fun w _ _ => hstorage w
  rintro w w' e hp hi rfl ha
  obtain ⟨h1, h2, h3⟩ := hdelete w e hp hi ha
  refine ⟨h1, h2, ?_, hstorage _⟩
  rw [wpE_bind, revokeRefreshFamiliesByUserClient, revokeMatchingFamilies, wpE_bind]
  refine wpE_clock hc hA h3 fun w₁ ha _ => ?_
  rw [wpE_bind]
  refine wpE_d1Logged hc hA ha ?_ fun w _ _ => hstorage w
  rintro w w' e ha hi rfl hallow
  obtain ⟨h1, h2, h3⟩ := hrevoke w e _ ha hi hallow
  refine ⟨h1, h2, ?_, hstorage _⟩
  rw [wpE_bind]
  refine revokeRefreshFamilyDurableObjects_wpE hΓ hB h3 h1 fun w hb _ => ?_
  rw [wpE_pure, wpE_bind, revokeAuthorizationGrantsByUserClient, wpE_bind]
  refine wpE_clock hc hB hb fun w₂ hb _ => ?_
  refine wpE_d1Logged hc hB hb ?_ fun w _ _ => hstorage w
  rintro w w' - hb hi hw' -
  obtain ⟨h1, h2, h3⟩ := hgrants w w' hb hi ⟨_, hw'⟩
  refine ⟨h1, h2, ?_, hstorage _⟩
  dsimp only
  split
  · rw [wpE_bind, recordAudit]
    exact wpE_query hc hB h3 (fun w hb _ => hQ _ w hb) fun w _ _ => hstorage w
  · exact hQ _ _ h3

end

end Keyforge.Grant
