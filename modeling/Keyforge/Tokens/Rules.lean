/-
Proof rules for the family objects. Mirroring a revocation into the objects, in whatever order and
however often, only burns families (`Burns`); a program that tolerates burned families keeps what it
knows across it.
-/
import Keyforge.Logic
import Keyforge.Tokens.RefreshToken

namespace Keyforge.Tokens

open Lib Db Do

/-! ## The family objects' methods -/

theorem isRevoked_revoke {s : RefreshFamilyStorage} {m : RefreshFamilyMeta} (h : s.familyMeta = some m) :
    (revoke s).isRevoked = true := by
  simp [revoke, h, RefreshFamilyStorage.burn, RefreshFamilyStorage.isRevoked]

theorem revoke_revoke (s : RefreshFamilyStorage) : revoke (revoke s) = revoke s := by
  cases h : s.familyMeta <;> simp [revoke, h, RefreshFamilyStorage.burn]

/-- How a family may change under `init`, `rotate` and `revoke`: it is not lost, and a revoked one
stays revoked. -/
structure FamilyMono (s s' : RefreshFamilyStorage) : Prop where
  alive : s.familyMeta.isSome = true → s'.familyMeta.isSome = true
  revoked : s.isRevoked = true → s'.isRevoked = true

theorem FamilyMono.refl (s : RefreshFamilyStorage) : FamilyMono s s := ⟨id, id⟩

theorem FamilyMono.trans {a b c : RefreshFamilyStorage} (h₁ : FamilyMono a b) (h₂ : FamilyMono b c) :
    FamilyMono a c :=
  ⟨h₂.alive ∘ h₁.alive, h₂.revoked ∘ h₁.revoked⟩

theorem init_mono (now : Nat) (data : RefreshFamilyInit) (s : RefreshFamilyStorage) :
    FamilyMono s (init now data s) := by
  cases h : s.familyMeta <;> refine ⟨?_, ?_⟩ <;> simp [init, h, RefreshFamilyStorage.isRevoked]

theorem revoke_mono (s : RefreshFamilyStorage) : FamilyMono s (revoke s) := by
  cases h : s.familyMeta <;> refine ⟨?_, ?_⟩ <;>
    simp [revoke, h, RefreshFamilyStorage.isRevoked, RefreshFamilyStorage.burn]

/-! ## Burned families -/

/-- The world with the families `b` selects burned. -/
def burned (b : String → Bool) (w : World) : World :=
  { w with families := fun f => if b f then revoke (w.families f) else w.families f }

/-- Time passes and families are burned; nothing else changes. -/
def Burns (w w' : World) : Prop :=
  ∃ dt b, w' = burned b (w.tick dt)

theorem Burns.tick (w : World) (dt : Nat) : Burns w (w.tick dt) :=
  ⟨dt, fun _ => false, rfl⟩

theorem Burns.trans {a b c : World} (h₁ : Burns a b) (h₂ : Burns b c) : Burns a c := by
  obtain ⟨d, s, rfl⟩ := h₁
  obtain ⟨d', s', rfl⟩ := h₂
  refine ⟨d + d', fun f => s f || s' f, ?_⟩
  simp only [burned, World.tick, Nat.add_assoc]
  congr 1
  funext f
  by_cases h : s f = true <;> by_cases h' : s' f = true <;> simp [h, h', revoke_revoke]

theorem burns_revokeFamily (w : World) (f : String) :
    Burns w { w with families := Function.update w.families f (revoke (w.families f)) } := by
  refine ⟨0, fun g => g = f, ?_⟩
  simp only [burned, World.tick_zero]
  congr 1
  funext g
  by_cases h : g = f
  · subst h; simp
  · simp [h]

theorem Burns.mono {w w' : World} (h : Burns w w') (f : String) : FamilyMono (w.families f) (w'.families f) := by
  obtain ⟨dt, b, rfl⟩ := h
  simp only [burned, World.tick_families]
  split
  · exact revoke_mono _
  · exact FamilyMono.refl _

@[simp] theorem Burns.db {w w' : World} (h : Burns w w') : w'.db = w.db := by
  obtain ⟨dt, b, rfl⟩ := h
  rfl

@[simp] theorem Burns.log {w w' : World} (h : Burns w w') : w'.log = w.log := by
  obtain ⟨dt, b, rfl⟩ := h
  rfl

/-- A protocol under which families may be burned, by the program and by others. -/
structure Tolerant (Γ : Protocol Input World) : Prop extends Clocked Γ where
  burnInv : ∀ {w w'}, Burns w w' → Γ.inv w → Γ.inv w'
  burnRely : ∀ {w w'}, Burns w w' → Γ.rely w w'
  burnGuar : ∀ {w w'}, Burns w w' → Γ.guar w w'

/-- The protocol of a program that only burns families. -/
def burning (Γ : Protocol Input World) : Protocol Input World :=
  Γ.withGuar Burns

section

variable {Γ : Protocol Input World} {w : World} {P : World → Prop} {X : Failure → World → Prop}

theorem Tolerant.burning (hΓ : Tolerant Γ) : Clocked (burning Γ) :=
  ⟨⟨hΓ.ok.refl, hΓ.ok.trans⟩, hΓ.tickInv, hΓ.tickRely, Burns.tick, hΓ.tickAllow,
    fun dt h => (Burns.tick _ dt).trans h⟩

theorem Tolerant.mild (hΓ : Tolerant Γ) : Tolerant (mild Γ) where
  toClocked := hΓ.toClocked.mild
  burnInv := hΓ.burnInv
  burnRely := hΓ.burnRely
  burnGuar := fun h => ⟨hΓ.burnRely h, hΓ.burnGuar h⟩

theorem Tolerant.knowing (hΓ : Tolerant Γ) (hP : Γ.Stable P) : Tolerant (Γ.knowing P) where
  toClocked := hΓ.toClocked.knowing hP
  burnInv := fun hb h => ⟨hΓ.burnInv hb h.1, hP h.2 (hΓ.burnRely hb) (hΓ.burnInv hb h.1)⟩
  burnRely := hΓ.burnRely
  burnGuar := hΓ.burnGuar

theorem revokeFamily_wpE (hΓ : Tolerant Γ) (hP : Γ.Stable P) (hw : P w) (f : String)
    {Q : Unit → World → Prop} (hQ : ∀ w w', P w → Burns w w' → Γ.inv w' →
      (∀ m, (w.families f).familyMeta = some m → (w'.families f).isRevoked = true) → Q () w')
    (hX : ∀ w, P w → Γ.inv w → X .storage w) : wpE Γ (revokeFamily f) Q X w := by
  refine wpE_familyObject hΓ.toClocked hP hw ?_ hX
  rintro w w' - hp hi rfl -
  have hb := burns_revokeFamily w f
  have hi' := hΓ.burnInv hb hi
  refine ⟨hi', hΓ.burnGuar hb, hQ w _ hp hb hi' ?_, hX _ (hP hp (hΓ.burnRely hb) hi') hi'⟩
  intro m hm
  simpa using isRevoked_revoke hm

theorem revokeFamilies_burning (hΓ : Tolerant Γ) : ∀ (ids : List String) (w : World),
    wpE (burning Γ) (revokeFamilies ids) (fun _ _ => True) (fun _ _ => False) w
  | [], _ => trivial
  | f :: rest, w => by
    have hstable : ∀ Q : Prop, (burning Γ).Stable fun _ => Q := fun _ _ _ h _ _ => h
    have hf : wpE (burning Γ) (settled (revokeFamily f)) (fun _ _ => True) (fun _ _ => False) w := by
      rw [wpE_settled]
      refine wpE_familyObject hΓ.burning (hstable True) trivial ?_ (fun _ _ _ => trivial)
      rintro w w' - - hi rfl -
      exact ⟨hΓ.burnInv (burns_revokeFamily w f) hi, burns_revokeFamily w f, trivial, trivial⟩
    rw [revokeFamilies, wpE_bind]
    exact wpE_imp (fun _ _ _ => trivial) (fun _ _ h => h) _
      (wpE_all hΓ.burning.ok (fun h => hΓ.burnRely h) (fun _ => hstable True) (fun _ => hstable True)
        (fun _ => hstable False) hf (revokeFamilies_burning hΓ rest w))

/-- Mirroring a revocation into the family objects keeps every stable fact. It never throws. -/
theorem revokeRefreshFamilyDurableObjects_wpE (hΓ : Tolerant Γ) (hP : Γ.Stable P) (hw : P w) (hi : Γ.inv w)
    {ids : List String} {Q : Unit → World → Prop} (hQ : ∀ w, P w → Γ.inv w → Q () w) :
    wpE Γ (revokeRefreshFamilyDurableObjects ids) Q X w := by
  have hb : wpE (burning Γ) (revokeRefreshFamilyDurableObjects ids) (fun _ _ => True) (fun _ _ => False) w := by
    rw [revokeRefreshFamilyDurableObjects, wpE_bind]
    refine wpE_imp (fun pending w _ => ?_) (fun _ _ h => h) _ (revokeFamilies_burning hΓ _ w)
    rw [wpE_bind]
    exact wpE_imp (fun _ _ _ => trivial) (fun _ _ h => h) _ (revokeFamilies_burning hΓ _ w)
  have hf := wpE_frame (Γ := burning Γ) hP (fun h => hΓ.burnRely h) hw hb
  refine wp_withGuar (Γ := Γ) (fun h => hΓ.burnGuar h) _ ?_
  refine wpE_mono ?_ ?_ _ hi hf
  · exact fun a w hi h => hQ w h.1 hi
  · exact fun x w _ h => h.2.elim

end

theorem keeps_revokeRefreshFamilyDurableObjects {Γ : Protocol Input World} (hΓ : Tolerant Γ) (ids : List String) :
    Keeps Γ (revokeRefreshFamilyDurableObjects ids) :=
  fun _ hi => revokeRefreshFamilyDurableObjects_wpE hΓ (stable_true Γ) trivial hi fun _ _ _ => trivial

/-! ## Rows under revocation -/

/-- A row `r'` that was the row `r`: whose it is has not changed, and no revocation was undone. -/
structure Kept (r r' : RefreshTokenRow) : Prop where
  id : r'.id = r.id
  userId : r'.userId = r.userId
  clientId : r'.clientId = r.clientId
  sessionId : r'.sessionId = r.sessionId
  resource : r'.resource = r.resource
  revoked : r.revokedAt ≠ none → r'.revokedAt ≠ none

theorem Kept.refl (r : RefreshTokenRow) : Kept r r := ⟨rfl, rfl, rfl, rfl, rfl, fun h => h⟩

theorem Kept.trans {r r' r'' : RefreshTokenRow} (h₁ : Kept r r') (h₂ : Kept r' r'') : Kept r r'' :=
  ⟨h₂.id.trans h₁.id, h₂.userId.trans h₁.userId, h₂.clientId.trans h₁.clientId, h₂.sessionId.trans h₁.sessionId,
    h₂.resource.trans h₁.resource, fun h => h₂.revoked (h₁.revoked h)⟩

theorem Kept.live {r r' : RefreshTokenRow} (hk : Kept r r') (h : r'.revokedAt = none) : r.revokedAt = none := by
  by_contra hr
  exact hk.revoked hr h

/-- Every row of `t'` was a row of `t`. -/
def RowsRevoked (t t' : Table RefreshTokenRow.id) : Prop :=
  ∀ r' ∈ t', ∃ r ∈ t, Kept r r'

theorem RowsRevoked.refl (t : Table RefreshTokenRow.id) : RowsRevoked t t :=
  fun r hr => ⟨r, hr, Kept.refl r⟩

/-- A statement that sets `revoked_at` on some rows. -/
theorem rowsRevoked_update (t : Table RefreshTokenRow.id) (p : RefreshTokenRow → Bool) (now : Nat) :
    RowsRevoked t (t.update p (fun r => { r with revokedAt := some now }) fun _ => rfl) := by
  intro r' hr'
  obtain ⟨r, hr, rfl⟩ := (Table.mem_update fun _ => by rfl).1 hr'
  refine ⟨r, hr, ?_⟩
  split
  · exact ⟨rfl, rfl, rfl, rfl, rfl, fun _ => Option.some_ne_none _⟩
  · exact Kept.refl r

theorem rowsRevoked_prune (now : Nat) (userId clientId familyId : String) (db : Database) :
    RowsRevoked db.refreshTokens (pruneStatement now userId clientId familyId db).2.refreshTokens := by
  unfold pruneStatement
  dsimp only
  split
  · exact rowsRevoked_update _ _ _
  · exact RowsRevoked.refl _

theorem prune_sessions (now : Nat) (userId clientId familyId : String) (db : Database) :
    (pruneStatement now userId clientId familyId db).2.sessions = db.sessions := by
  unfold pruneStatement
  dsimp only
  split <;> rfl

/-- A row after a revoking statement. -/
theorem mem_revokeRows {now : Nat} {p : RefreshTokenRow → Bool} {db : Database} {r' : RefreshTokenRow} :
    r' ∈ (revokeRows now p db).refreshTokens ↔
      ∃ r ∈ db.refreshTokens, r' = if p r && r.revokedAt.isNone then { r with revokedAt := some now } else r :=
  Table.mem_update fun _ => by rfl

/-- The rows a revoking statement selects are revoked after it, whatever they were before. -/
theorem revokeRows_revoked {now : Nat} {p : RefreshTokenRow → Bool} {db : Database} {r' : RefreshTokenRow}
    (h : r' ∈ (revokeRows now p db).refreshTokens) :
    ∃ r ∈ db.refreshTokens, Kept r r' ∧ (p r = true → r'.revokedAt ≠ none) := by
  obtain ⟨r, hr, rfl⟩ := mem_revokeRows.1 h
  refine ⟨r, hr, ?_⟩
  split
  · exact ⟨⟨rfl, rfl, rfl, rfl, rfl, fun _ => Option.some_ne_none _⟩, fun _ => Option.some_ne_none _⟩
  · rename_i hp
    refine ⟨Kept.refl r, fun hpr hn => hp ?_⟩
    simp [hpr, hn]

/-! ## Issuance -/

/-- The world after the insert and prune of a family. -/
def issuedWorld (now : Nat) (input : IssueRefreshInput) (row : RefreshTokenRow) (w : World) : World :=
  { w with db := (issueBatch now input row w.db).2, log := issueEvents now input row w.db ++ w.log }

/-- The world after the family object `f` was created. -/
def createdWorld (f : String) (now : Nat) (data : RefreshFamilyInit) (w : World) : World :=
  { w with families := Function.update w.families f (init now data (w.families f)) }

theorem createdWorld_alive (f : String) (now : Nat) (data : RefreshFamilyInit) (w : World) :
    ((createdWorld f now data w).families f).familyMeta.isSome = true := by
  cases h : (w.families f).familyMeta <;> simp [createdWorld, init, h]

theorem createdWorld_mono (f : String) (now : Nat) (data : RefreshFamilyInit) (w : World) (g : String) :
    FamilyMono (w.families g) ((createdWorld f now data w).families g) := by
  by_cases h : g = f
  · subst h
    simpa [createdWorld] using init_mono now data (w.families g)
  · simpa [createdWorld, h] using FamilyMono.refl _

/-- The batch writes the families and nothing else. -/
theorem issueBatch_frame (now : Nat) (input : IssueRefreshInput) (row : RefreshTokenRow) (db : Database) :
    ∃ refreshTokens, (issueBatch now input row db).2 = { db with refreshTokens } := by
  unfold issueBatch insertStatement pruneStatement
  dsimp only
  split <;> split <;> exact ⟨_, rfl⟩

theorem issueBatch_inserted (now : Nat) (input : IssueRefreshInput) (row : RefreshTokenRow) (db : Database) :
    (issueBatch now input row db).1.1 = sessionGuard now input db := by
  cases h : sessionGuard now input db <;> simp [issueBatch, insertStatement, h]

section

variable {Γ : Protocol Input World} {w : World} {P A B : World → Prop} {X : Failure → World → Prop}

/-- Issuing a family: `P` is known up to the batch, which leaves `A` if the row went in and `B` if it
was refused. A refused call throws with its object burned. -/
theorem issueRefreshToken_wpE (hΓ : Tolerant Γ) {env : Env} {input : IssueRefreshInput} {f secret : String}
    (hlive : Γ.Stable fun w => (w.families f).familyMeta.isSome = true)
    (hP : Γ.Stable P) (hA : Γ.Stable A) (hB : Γ.Stable B) (hw : P w)
    (hcreate : ∀ w now data, P w → Γ.inv w →
      Γ.inv (createdWorld f now data w) ∧ Γ.guar w (createdWorld f now data w) ∧ P (createdWorld f now data w))
    (hbatch : ∀ w now tokenHash expiresAt e, P w → Γ.inv w →
      let w' := issuedWorld now input (issuedRow now f tokenHash expiresAt input) w
      Γ.allow w e w' → Γ.inv w' ∧ Γ.guar w w' ∧ (sessionGuard now input w.db = true → A w') ∧
        (sessionGuard now input w.db = false → B w'))
    (hrefused : ∀ w, B w → Γ.inv w → (w.families f).isRevoked = true →
      X (.oauth .invalidGrant "The authorization session is no longer active"
        "session or user changed while creating the refresh token family") w)
    (hstorage : ∀ w, X .storage w) {Q : IssuedRefreshToken → World → Prop}
    (hQ : ∀ t w, A w → Γ.inv w → t.token = f ++ "." ++ secret → t.familyId = f → Q t w) :
    wpE Γ (issueRefreshToken env input f secret) Q X w := by
  have hc := hΓ.toClocked
  rw [issueRefreshToken, wpE_bind]
  refine wpE_clock hc hP hw fun w hw hi => ?_
  rw [wpE_bind]
  refine wpE_familyObject hc hP hw ?_ (fun w _ _ => hstorage w)
  rintro w w' e hw hi rfl ha
  -- the object is created
  obtain ⟨h1, h2, h3⟩ := hcreate w _ _ hw hi
  refine ⟨h1, h2, ?_, hstorage _⟩
  dsimp only
  rw [wpE_bind, wpE_tryCatch]
  refine wpE_d1Logged hc (Stable.and hP hlive) ⟨h3, createdWorld_alive f w.nowSeconds _ w⟩ ?_ ?_
  · rintro w w' e ⟨hw, hl⟩ hi rfl ha
    -- the batch, which the guard on the session may refuse
    obtain ⟨h1, h2, h3, h4⟩ := hbatch w _ _ _ e hw hi ha
    refine ⟨h1, h2, ?_, ?_⟩
    · show wpE Γ (if (!(issueBatch _ input _ w.db).1.1) = true then _ else _) Q X _
      rw [issueBatch_inserted]
      cases hg : sessionGuard _ input w.db with
      | false =>
        rw [if_pos (by rfl), wpE_bind]
        refine revokeFamily_wpE hΓ (Stable.and hB hlive) ⟨h4 hg, hl⟩ f ?_ fun w _ _ => hstorage w
        rintro w w' ⟨hb, hl⟩ hburn hi hrev
        -- refused: the object just created is revoked
        obtain ⟨m, hm⟩ := Option.isSome_iff_exists.1 hl
        exact hrefused w' (hB hb (hΓ.burnRely hburn) hi) hi (hrev m hm)
      | true =>
        rw [if_neg (by simp), wpE_bind]
        exact revokeRefreshFamilyDurableObjects_wpE hΓ hA (h3 hg) h1 fun w ha hi => hQ _ w ha hi rfl rfl
    · rw [wpE_bind]
      exact revokeFamily_wpE hΓ (stable_true Γ) trivial f (fun w w' _ _ _ _ => hstorage w') fun w _ _ => hstorage w
  · intro w _ _
    rw [wpE_bind]
    exact revokeFamily_wpE hΓ (stable_true Γ) trivial f (fun w w' _ _ _ _ => hstorage w') fun w _ _ => hstorage w

end

end Keyforge.Tokens
