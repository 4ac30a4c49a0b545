/-
The token and revocation endpoints together. Exchanges, polls, refresh requests, service requests and
revocations interleave with whatever else changes the database. A family belongs to one user, client and
resource for as long as its object lives, and its row says the same; so what a refresh request checked on the
row is what the object grants, and a revoked object stays revoked.
-/
import Keyforge.Grant.Rows
import Keyforge.OAuth.Revoke
import Keyforge.Refresh.Narrowing

namespace Keyforge.Grant

open Lib Db Do Tokens OAuth Refresh

/-! ## The calls -/

/-- A family object is as it was but for a rotation or a revocation; a revoked one stays as it is. -/
def FamilyKept (s s' : RefreshFamilyStorage) : Prop :=
  ∀ m, s.familyMeta = some m → ∃ m', s'.familyMeta = some m' ∧ m'.userId = m.userId ∧ m'.clientId = m.clientId ∧
    m'.resource = m.resource ∧ (m.revoked = true → m' = m)

/-- A row is as it was but for its scope, its counters or a revocation. -/
def RowKept (r r' : RefreshTokenRow) : Prop :=
  Kept r r' ∧ r'.tokenHash = r.tokenHash

/-- A step of any other request: it may change the database and the objects as it likes, but it neither creates
families nor hands them to others, takes back no revocation, of a row or of an object, and leaves the hashes of
tokens as they are. (The alarm that empties an expired object is not among these steps.) -/
structure Spares (w w' : World) : Prop where
  kept : ∀ f, FamilyKept (w.families f) (w'.families f)
  unborn : ∀ f, (w.families f).familyMeta = none → (w'.families f).familyMeta = none
  rows : ∀ r' ∈ w'.db.refreshTokens, ∃ r ∈ w.db.refreshTokens, RowKept r r'

inductive EndpointCall where
  | exchange (client : ClientRow) (form : AuthorizationCodeForm) (familyId secret grantId : String)
  | poll (client : ClientRow) (deviceCode : Option String) (familyId secret grantId : String)
  | refresh (client : ClientRow) (form : RefreshForm) (secret : String)
  | service (client : ClientRow) (form : ClientCredentialsForm)
  | revoke (client : ClientRow) (token : Option String)
  | other (step : World → World)

inductive EndpointAnswer where
  | tokens (response : TokenResponse)
  | refreshed (answer : RefreshAnswer)
  | revoked (answer : RevokeAnswer)
  | done
  deriving DecidableEq, Repr

def EndpointCall.code (env : Env) : EndpointCall → App EndpointAnswer
  | .exchange client form familyId secret grantId =>
    EndpointAnswer.tokens <$> handleAuthorizationCode env client form familyId secret grantId
  | .poll client deviceCode familyId secret grantId =>
    EndpointAnswer.tokens <$> handleDeviceCodeGrant env client deviceCode familyId secret grantId
  | .refresh client form secret => EndpointAnswer.refreshed <$> handleRefreshToken env client form secret
  | .service client form => EndpointAnswer.tokens <$> handleClientCredentials env client form
  | .revoke client token => EndpointAnswer.revoked <$> handleRevoke env client token
  | .other step => io fun w => (.done, step w)

/-- The family a call draws. -/
def EndpointCall.family : EndpointCall → Option String
  | .exchange _ _ familyId _ _ => some familyId
  | .poll _ _ familyId _ _ => some familyId
  | _ => none

/-- The refresh token a call draws. -/
def EndpointCall.draws : EndpointCall → Option String
  | .exchange _ _ familyId secret _ => some (familyId ++ "." ++ secret)
  | .poll _ _ familyId secret _ => some (familyId ++ "." ++ secret)
  | .refresh _ form secret => form.refreshToken.map fun t => familyIdOf t ++ "." ++ secret
  | _ => none

/-- The refresh token a call presents. -/
def EndpointCall.presents : EndpointCall → Option String
  | .refresh _ form _ => form.refreshToken
  | .revoke _ token => token
  | _ => none

/-- A presented token with the digest of a drawn one is that token. -/
def Distinct (env : Env) (c d : EndpointCall) : Prop :=
  ∀ t t', c.draws = some t → d.presents = some t' → hashOpaqueToken env t = hashOpaqueToken env t' → t = t'

/-- A call may arrive: a family it draws is new and its id has no dot, and digests tell its tokens from those
of other calls. -/
structure Admits (env : Env) (P : Pool EndpointCall Input World (Except Failure EndpointAnswer)) (c : EndpointCall) : Prop where
  family : ∀ f, c.family = some f → '.' ∉ f.toList ∧ ∀ t ∈ P.threads, t.1.family ≠ some f
  self : Distinct env c c
  older : ∀ t ∈ P.threads, Distinct env t.1 c ∧ Distinct env c t.1
  spares : ∀ step, c = .other step → ∀ w, Spares w (step w)

/-- Any storage call may fail, with or without having taken effect. -/
def endpointSystem (env : Env) : System EndpointCall Input World (Except Failure EndpointAnswer) where
  code := fun c => (c.code env).run
  allow := fun _ _ _ => True
  arrive := Admits env

/-! ## The outline -/

/-- The object grants what the row says. -/
def Grants (r : RefreshTokenRow) (m : RefreshFamilyMeta) : Prop :=
  m.userId = r.userId ∧ m.clientId = r.clientId ∧ m.resource = r.resource

/-- The row has its object. -/
def Backed (r : RefreshTokenRow) (w : World) : Prop :=
  ∃ m, (w.families r.id).familyMeta = some m ∧ Grants r m

/-- Every row has its object. -/
def EndpointInv (w : World) : Prop :=
  ∀ r ∈ w.db.refreshTokens, Backed r w

/-- The row was there, or has the token that `c` draws. -/
def RowStep (env : Env) (c : EndpointCall) (w : World) (r' : RefreshTokenRow) : Prop :=
  (∃ r ∈ w.db.refreshTokens, RowKept r r') ∨
    ∃ t, c.draws = some t ∧ familyIdOf t = r'.id ∧ r'.tokenHash = hashOpaqueToken env t

structure EndpointGuar (env : Env) (c : EndpointCall) (w w' : World) : Prop where
  kept : ∀ f, FamilyKept (w.families f) (w'.families f)
  unborn : ∀ f, c.family ≠ some f → (w.families f).familyMeta = none → (w'.families f).familyMeta = none
  rows : ∀ r' ∈ w'.db.refreshTokens, RowStep env c w r'
  spared : ∀ client token, c = .revoke client token →
    (∀ f m, (w.families f).familyMeta = some m → m.clientId ≠ client.clientId → w'.families f = w.families f) ∧
      ∀ r ∈ w.db.refreshTokens, r.clientId ≠ client.clientId → r ∈ w'.db.refreshTokens

structure EndpointRely (c : EndpointCall) (w w' : World) : Prop where
  kept : ∀ f, FamilyKept (w.families f) (w'.families f)
  unborn : ∀ f, c.family = some f → (w.families f).familyMeta = none → (w'.families f).familyMeta = none

/-- Where the objects and the tokens of the rows come from. -/
structure EndpointTrace (env : Env) (cs : List EndpointCall) (w : World) : Prop where
  family : ∀ f, (w.families f).familyMeta ≠ none → ∃ c ∈ cs, c.family = some f
  token : ∀ r ∈ w.db.refreshTokens, ∃ c ∈ cs, ∃ t, c.draws = some t ∧ familyIdOf t = r.id ∧
    r.tokenHash = hashOpaqueToken env t

def endpointOutline (env : Env) : Outline (endpointSystem env) where
  inv := EndpointInv
  rely := EndpointRely
  guar := EndpointGuar env
  post := fun _ _ _ => True
  apart := fun c d => ∀ f, c.family = some f → d.family ≠ some f
  beside := fun _ _ => True
  trace := EndpointTrace env

section

variable {env : Env} {c d : EndpointCall} {s s' s'' : RefreshFamilyStorage} {w w' w'' : World} {f : String}
  {r r' : RefreshTokenRow}

theorem FamilyKept.refl (s : RefreshFamilyStorage) : FamilyKept s s :=
  fun m hm => ⟨m, hm, rfl, rfl, rfl, fun _ => rfl⟩

theorem FamilyKept.trans (h : FamilyKept s s') (h' : FamilyKept s' s'') : FamilyKept s s'' := by
  intro m hm
  obtain ⟨m₁, hm₁, huser, hclient, hresource, hrevoked⟩ := h m hm
  obtain ⟨m₂, hm₂, huser', hclient', hresource', hrevoked'⟩ := h' m₁ hm₁
  refine ⟨m₂, hm₂, huser'.trans huser, hclient'.trans hclient, hresource'.trans hresource, fun hr => ?_⟩
  have hsame := hrevoked hr
  subst hsame
  exact hrevoked' hr

theorem familyKept_revoke (s : RefreshFamilyStorage) : FamilyKept s (Do.revoke s) := by
  intro m hm
  refine ⟨{ m with revoked := true }, ?_, rfl, rfl, rfl, fun hr => ?_⟩
  · simp [Do.revoke, hm, RefreshFamilyStorage.burn]
  · rw [← hr]

theorem familyKept_init (now : Nat) (data : RefreshFamilyInit) (s : RefreshFamilyStorage) :
    FamilyKept s (Do.init now data s) := by
  intro m hm
  exact ⟨m, by simp [Do.init, hm], rfl, rfl, rfl, fun _ => rfl⟩

theorem familyKept_rotate {now : Nat} {presentedHash new clientId scope : String} {result : RotateResult}
    (h : Do.rotate now presentedHash new clientId scope s = (result, s')) : FamilyKept s s' := by
  intro m hm
  cases rotate_effect h with
  | refused _ => exact ⟨m, hm, rfl, rfl, rfl, fun _ => rfl⟩
  | @burned _ m₀ hm₀ _ =>
    cases hm.symm.trans hm₀
    exact ⟨{ m with revoked := true }, rfl, rfl, rfl, rfl, fun hr => by rw [← hr]⟩
  | @rotated m₀ hm₀ _ hrev _ _ =>
    cases hm.symm.trans hm₀
    exact ⟨_, rfl, rfl, rfl, rfl, fun hr => absurd (hr.symm.trans hrev) Bool.noConfusion⟩

theorem rotate_unborn {now : Nat} {presentedHash new clientId scope : String} {result : RotateResult}
    (h : Do.rotate now presentedHash new clientId scope s = (result, s')) (hnone : s.familyMeta = none) :
    s'.familyMeta = none := by
  cases rotate_effect h with
  | refused _ => exact hnone
  | burned hm _ => exact absurd (hm.symm.trans hnone) (Option.some_ne_none _)
  | rotated hm _ _ _ _ => exact absurd (hm.symm.trans hnone) (Option.some_ne_none _)

theorem RowKept.refl (r : RefreshTokenRow) : RowKept r r := ⟨Kept.refl r, rfl⟩

/-- A row that is kept has its object as long as the object is kept. -/
theorem Backed.kept (h : Backed r w) (hrow : Kept r r') (hkept : ∀ f, FamilyKept (w.families f) (w'.families f)) :
    Backed r' w' := by
  obtain ⟨m, hm, huser, hclient, hresource⟩ := h
  obtain ⟨m', hm', huser', hclient', hresource', -⟩ := hkept r.id m hm
  refine ⟨m', by rw [hrow.id, hm'], ?_, ?_, ?_⟩
  · rw [huser', huser, hrow.userId]
  · rw [hclient', hclient, hrow.clientId]
  · rw [hresource', hresource, hrow.resource]

/-! ## Steps that create nothing -/

theorem Spares.inv (h : Spares w w') (hi : EndpointInv w) : EndpointInv w' := by
  intro r' hr'
  obtain ⟨r, hr, hkept⟩ := h.rows r' hr'
  exact (hi r hr).kept hkept.1 h.kept

theorem Spares.rely (h : Spares w w') : EndpointRely c w w' :=
  ⟨h.kept, fun f _ => h.unborn f⟩

theorem Spares.guar (hc : ∀ client token, c ≠ .revoke client token) (h : Spares w w') : EndpointGuar env c w w' :=
  ⟨h.kept, fun f _ => h.unborn f, fun r' hr' => Or.inl (h.rows r' hr'),
    fun client token he => absurd he (hc client token)⟩

/-- A statement that leaves the objects alone, and inserts no row. -/
theorem spares_rows (hfamilies : w'.families = w.families)
    (hrows : ∀ r' ∈ w'.db.refreshTokens, ∃ r ∈ w.db.refreshTokens, RowKept r r') : Spares w w' :=
  ⟨fun _ => hfamilies ▸ FamilyKept.refl _, fun _ hf => hfamilies ▸ hf, hrows⟩

/-- A statement that leaves the objects and the rows alone. -/
theorem spares_aside (hfamilies : w'.families = w.families) (hrows : w'.db.refreshTokens = w.db.refreshTokens) : Spares w w' :=
  spares_rows hfamilies fun r hr => ⟨r, hrows ▸ hr, RowKept.refl r⟩

/-- A call on one object that keeps it. -/
theorem spares_family {s' : RefreshFamilyStorage} {log : List Event} (hkept : FamilyKept (w.families f) s')
    (hunborn : (w.families f).familyMeta = none → s'.familyMeta = none) :
    Spares w { w with families := Function.update w.families f s', log } := by
  refine ⟨fun g => ?_, fun g hg => ?_, fun r hr => ⟨r, hr, RowKept.refl r⟩⟩
  · by_cases h : g = f
    · subst h
      simpa using hkept
    · simpa [h] using FamilyKept.refl _
  · by_cases h : g = f
    · subst h
      simpa using hunborn hg
    · simpa [h] using hg

theorem spares_rotate {presentedHash new clientId scope : String} {now : Nat} {log : List Event} :
    Spares w { w with
      families := Function.update w.families f (Do.rotate now presentedHash new clientId scope (w.families f)).2, log } :=
  spares_family (familyKept_rotate (Prod.eta _).symm) fun hnone => rotate_unborn (Prod.eta _).symm hnone

theorem spares_burns (hb : Burns w w') : Spares w w' := by
  refine ⟨fun f => ?_, fun f hf => ?_, fun r hr => ⟨r, hb.db ▸ hr, RowKept.refl r⟩⟩
  · obtain ⟨dt, b, rfl⟩ := hb
    simp only [burned, World.tick_families]
    split
    · exact familyKept_revoke _
    · exact FamilyKept.refl _
  · obtain ⟨dt, b, rfl⟩ := hb
    simp only [burned, World.tick_families]
    split
    · exact revoke_familyMeta_none.2 hf
    · exact hf

/-- A statement that sets `revoked_at` on some rows. -/
theorem rowKept_revoking {p : RefreshTokenRow → Bool} {now : Nat} {t : Table RefreshTokenRow.id}
    (hr : r' ∈ t.update p (fun r => { r with revokedAt := some now }) fun _ => rfl) : ∃ r ∈ t, RowKept r r' := by
  obtain ⟨r, hmem, rfl⟩ := (Table.mem_update fun _ => by rfl).1 hr
  refine ⟨r, hmem, ?_⟩
  split
  · exact ⟨⟨rfl, rfl, rfl, rfl, rfl, fun _ => Option.some_ne_none _⟩, rfl⟩
  · exact RowKept.refl r

theorem endpoint_clocked (env : Env) (c : EndpointCall) : Clocked ((endpointOutline env).protocol c) where
  ok := ⟨fun _ => ⟨fun _ => FamilyKept.refl _, fun _ _ h => h⟩,
    fun h h' => ⟨fun f => (h.kept f).trans (h'.kept f), fun f hf hnone => h'.unborn f hf (h.unborn f hf hnone)⟩⟩
  tickInv := fun _ h => h
  tickRely := fun _ _ => ⟨fun _ => FamilyKept.refl _, fun _ _ h => h⟩
  tickGuar := fun _ _ => ⟨fun _ => FamilyKept.refl _, fun _ _ h => h, fun r hr => Or.inl ⟨r, hr, RowKept.refl r⟩,
    fun _ _ _ => ⟨fun _ _ _ _ => rfl, fun _ hr _ => hr⟩⟩
  tickAllow := fun _ h => h
  guarTick := fun _ h => ⟨h.kept, h.unborn, h.rows, h.spared⟩

/-- A call that does not revoke may burn families. -/
theorem endpoint_tolerant (hc : ∀ client token, c ≠ .revoke client token) :
    Tolerant ((endpointOutline env).protocol c) where
  toClocked := endpoint_clocked env c
  burnInv := fun hb hi => (spares_burns hb).inv hi
  burnRely := fun hb => (spares_burns hb).rely
  burnGuar := fun hb => (spares_burns hb).guar hc

/-- A program is gentle if its steps create nothing. -/
def Gentle {α : Type} (env : Env) (c : EndpointCall) (p : App α) : Prop :=
  Keeps (mild ((endpointOutline env).protocol c)) p

theorem unborn_stable (hf : c.family = some f) :
    ((endpointOutline env).protocol c).Stable fun w => (w.families f).familyMeta = none :=
  fun _ _ hnone hr _ => hr.unborn f hf hnone

theorem backed_stable (r : RefreshTokenRow) : ((endpointOutline env).protocol c).Stable (Backed r) :=
  fun _ _ h hr _ => h.kept (Kept.refl r) hr.kept

/-- What is known before a gentle program is known after it. -/
theorem Gentle.first {α β : Type} {p : App α} {g : α → App β} (hp : Gentle env c p) {P : World → Prop}
    (hP : ((endpointOutline env).protocol c).Stable P) (hw : P w) (hi : EndpointInv w)
    (hg : ∀ a w, P w → EndpointInv w →
      wpE ((endpointOutline env).protocol c) (g a) (fun _ _ => True) (fun _ _ => True) w) :
    wpE ((endpointOutline env).protocol c) (p >>= g) (fun _ _ => True) (fun _ _ => True) w := by
  rw [wpE_bind]
  exact wpE_of_mild (Keeps.wpE hp And.left hP hw hi hg fun _ _ _ _ => trivial)

theorem Gentle.keeps {α : Type} {p : App α} (hp : Gentle env c p) : Keeps ((endpointOutline env).protocol c) p :=
  fun w hi => wpE_of_mild (hp w hi)

theorem gentle_quiet {α : Type} {p : App α} (hp : Quiet p) : Gentle env c p :=
  Keeps.of_quiet (endpoint_clocked env c).mild hp

section

variable (hc : ∀ client token, c ≠ .revoke client token)

include hc

theorem gentle_io {α : Type} {op : World → α × World} (hop : ∀ w, Spares w (op w).2) : Gentle env c (io op) :=
  Keeps.io (endpoint_clocked env c).mild fun w _ hi _ => ⟨(hop w).inv hi, (hop w).rely, (hop w).guar hc⟩

theorem gentle_d1Logged {α : Type} {committed : Database → List Event} {stmt : Database → α × Database}
    (hrows : ∀ db, ∀ r' ∈ (stmt db).2.refreshTokens, ∃ r ∈ db.refreshTokens, RowKept r r') :
    Gentle env c (d1Logged committed stmt) :=
  gentle_io hc fun w => spares_rows rfl (hrows w.db)

/-- A statement on other tables. -/
theorem gentle_aside {α : Type} {committed : Database → List Event} {stmt : Database → α × Database}
    (hrows : ∀ db, (stmt db).2.refreshTokens = db.refreshTokens) : Gentle env c (d1Logged committed stmt) :=
  gentle_d1Logged hc fun db r hr => ⟨r, hrows db ▸ hr, RowKept.refl r⟩

theorem gentle_revokeFamily (f : String) : Gentle env c (revokeFamily f) := by
  unfold revokeFamily familyObject
  exact gentle_io hc fun _ => spares_family (familyKept_revoke _) revoke_familyMeta_none.2

theorem gentle_markRefreshTokenRevoked (f : String) : Gentle env c (markRefreshTokenRevoked f) :=
  Keeps.bind (gentle_quiet .clock) fun _ => gentle_d1Logged hc fun _ _ hr => rowKept_revoking hr

theorem gentle_recordAuthorizationGrant (id : String) (input : AuthorizationGrantInput) :
    Gentle env c (recordAuthorizationGrant id input) := by
  unfold recordAuthorizationGrant d1
  exact Keeps.bind (gentle_quiet .clock) fun _ => gentle_aside hc fun _ => rfl

theorem gentle_withdrawDeviceFamily (response : TokenResponse) : Gentle env c (withdrawDeviceFamily response) := by
  unfold withdrawDeviceFamily
  split
  · exact Keeps.pure ()
  · refine Keeps.bind (Keeps.all (endpoint_clocked env c).mild And.left ?_ ?_) fun _ => Keeps.pure ()
    · exact gentle_revokeFamily hc _
    · exact gentle_markRefreshTokenRevoked hc _

end

/-! ## Issuing -/

/-- The rows after the batch: those before it, and the one issued. -/
theorem issueBatch_kept {now : Nat} {input : IssueRefreshInput} {row : RefreshTokenRow} {db : Database}
    (h : r' ∈ (issueBatch now input row db).2.refreshTokens) :
    (∃ r ∈ db.refreshTokens, RowKept r r') ∨ RowKept row r' := by
  have hpruned : ∃ r ∈ (insertStatement now input row db).2.refreshTokens, RowKept r r' := by
    unfold issueBatch pruneStatement at h
    dsimp only at h
    split at h
    · exact rowKept_revoking h
    · exact ⟨r', h, RowKept.refl r'⟩
  obtain ⟨r, hr, hkept⟩ := hpruned
  unfold insertStatement at hr
  split at hr
  · rcases Table.mem_insert.1 hr with hr | ⟨rfl, -⟩
    · exact Or.inl ⟨r, hr, hkept⟩
    · exact Or.inr hkept
  · exact Or.inl ⟨r, hr, hkept⟩

theorem familyIdOf_drawn {secret : String} (hdot : '.' ∉ f.toList) : familyIdOf (f ++ "." ++ secret) = f := by
  rw [familyIdOf, String.toList_append, String.toList_append, List.append_assoc, List.takeWhile_append_of_pos]
  · simp
  · intro ch hch
    have hne : ch ≠ '.' := by
      rintro rfl
      exact hdot hch
    simpa using hne

variable (env) in
/-- The creation of the object. -/
theorem created_endpoint (now now' : Nat) (input : IssueRefreshInput) (tokenHash : String) (expiresAt : Nat) (hi : EndpointInv w)
    (hc : ∀ client token, c ≠ .revoke client token) (hf : c.family = some f) (hnone : (w.families f).familyMeta = none) :
    let w' := createdWorld f now (issuedFamily input tokenHash expiresAt) w
    EndpointInv w' ∧ EndpointGuar env c w w' ∧ Backed (issuedRow now' f tokenHash expiresAt input) w' := by
  intro w'
  have hself : w'.families f = Do.init now (issuedFamily input tokenHash expiresAt) (w.families f) := Function.update_self _ _ _
  have hother : ∀ g, g ≠ f → w'.families g = w.families g := fun g hg => Function.update_of_ne hg _ _
  have hkept : ∀ g, FamilyKept (w.families g) (w'.families g) := by
    intro g
    by_cases hg : g = f
    · subst hg
      rw [hself]
      exact familyKept_init _ _ _
    · rw [hother g hg]
      exact FamilyKept.refl _
  refine ⟨fun r hr => (hi r hr).kept (Kept.refl r) hkept, ⟨hkept, fun g hg hgnone => ?_,
    fun r hr => Or.inl ⟨r, hr, RowKept.refl r⟩, fun client token he => absurd he (hc client token)⟩, ?_⟩
  · rw [hother g fun h => hg (h ▸ hf)]
    exact hgnone
  · refine ⟨initialMeta now (issuedFamily input tokenHash expiresAt), ?_, rfl, rfl, rfl⟩
    show (w'.families f).familyMeta = _
    rw [hself, Do.init, hnone]

/-- The issuing batch, with the object created. -/
theorem issued_endpoint {now : Nat} {input : IssueRefreshInput} {secret : String} {expiresAt : Nat} {log : List Event}
    (hi : EndpointInv w) (hc : ∀ client token, c ≠ .revoke client token)
    (hdraws : c.draws = some (f ++ "." ++ secret)) (hdot : '.' ∉ f.toList)
    (hbacked : Backed (issuedRow now f (hashOpaqueToken env (f ++ "." ++ secret)) expiresAt input) w)
    (hw' : w' = { w with
      db := (issueBatch now input (issuedRow now f (hashOpaqueToken env (f ++ "." ++ secret)) expiresAt input) w.db).2, log }) :
    EndpointInv w' ∧ EndpointGuar env c w w' := by
  subst hw'
  have hkept : ∀ g, FamilyKept (w.families g) (w.families g) := fun g => FamilyKept.refl _
  refine ⟨fun r' hr' => ?_, hkept, fun g _ hg => hg, fun r' hr' => ?_, fun client token he => absurd he (hc client token)⟩
  · rcases issueBatch_kept hr' with ⟨r, hr, hrow⟩ | hrow
    · exact (hi r hr).kept hrow.1 hkept
    · exact hbacked.kept hrow.1 hkept
  · rcases issueBatch_kept hr' with hold | hrow
    · exact Or.inl hold
    · exact Or.inr ⟨_, hdraws, (familyIdOf_drawn hdot).trans hrow.1.id.symm, hrow.2⟩

theorem issue_endpoint {input : IssueRefreshInput} {secret : String} (hc : ∀ client token, c ≠ .revoke client token)
    (hf : c.family = some f) (hdraws : c.draws = some (f ++ "." ++ secret)) (hdot : '.' ∉ f.toList)
    (hnone : (w.families f).familyMeta = none) :
    wpE ((endpointOutline env).protocol c) (issueRefreshToken env input f secret) (fun _ _ => True) (fun _ _ => True) w := by
  have hΓ : Tolerant ((endpointOutline env).protocol c) := endpoint_tolerant hc
  have hclk := hΓ.toClocked
  have ht := stable_true ((endpointOutline env).protocol c)
  have hrevoke : ∀ {α : Type} {Q : α → World → Prop} (x : Failure) w,
      wpE ((endpointOutline env).protocol c) (do revokeFamily f; throw x) Q (fun _ _ => True) w := by
    intro α Q x w
    rw [wpE_bind]
    exact revokeFamily_wpE hΓ ht trivial f (fun _ _ _ _ _ _ => trivial) fun _ _ _ => trivial
  rw [issueRefreshToken, wpE_bind]
  refine wpE_clock hclk (unborn_stable hf) hnone fun w hnone _ => ?_
  generalize w.nowSeconds = now
  rw [wpE_bind]
  refine wpE_familyObject hclk (unborn_stable hf) hnone ?_ fun _ _ _ => trivial
  rintro w w' - hnone hi rfl -
  generalize now + (if input.rememberMe then TOKEN_TTL.refreshTokenRememberMe else TOKEN_TTL.refreshToken) = expiresAt
  obtain ⟨h1, h2, h3⟩ := created_endpoint env w.nowSeconds now input (hashOpaqueToken env (f ++ "." ++ secret)) expiresAt
    hi hc hf hnone
  refine ⟨h1, h2, ?_, trivial⟩
  dsimp only
  rw [wpE_bind, wpE_tryCatch]
  refine wpE_d1Logged hclk (backed_stable _) h3 ?_ fun w _ _ => hrevoke _ w
  rintro w w' - hbacked hi rfl -
  obtain ⟨h1, h2⟩ := issued_endpoint hi hc hdraws hdot hbacked rfl
  refine ⟨h1, h2, ?_, hrevoke _ _⟩
  split
  · exact hrevoke _ _
  · rw [wpE_bind]
    exact revokeRefreshFamilyDurableObjects_wpE hΓ ht trivial h1 fun _ _ _ => trivial

section

variable {client : ClientRow} {secret grantId : String} (hc : ∀ client token, c ≠ .revoke client token) (hf : c.family = some f)
  (hdraws : c.draws = some (f ++ "." ++ secret)) (hdot : '.' ∉ f.toList)

include hc hf hdraws hdot

theorem issueUserTokens_endpoint {input : IssueUserTokensInput} (haccess : input.accessValidated = true)
    (hi : EndpointInv w) (hnone : (w.families f).familyMeta = none) :
    wpE ((endpointOutline env).protocol c) (issueUserTokens env input f secret) (fun _ _ => True) (fun _ _ => True) w := by
  rw [issueUserTokens, haccess]
  dsimp only
  rw [Bool.not_true, if_neg Bool.false_ne_true]
  refine (gentle_quiet (signJwt_quiet _)).first (unborn_stable hf) hnone hi fun accessToken w hnone hi => ?_
  refine (gentle_quiet (idTokenFor_quiet _ _ _ _ _)).first (unborn_stable hf) hnone hi fun idToken w hnone hi => ?_
  split
  · rw [wpE_bind]
    exact wpE_imp (fun _ _ _ => trivial) (fun _ _ _ => trivial) _ (issue_endpoint hc hf hdraws hdot hnone)
  · trivial

theorem exchangeGrant_endpoint {grant : AuthorizationCodePayload} (hi : EndpointInv w)
    (hnone : (w.families f).familyMeta = none) :
    wpE ((endpointOutline env).protocol c) (exchangeGrant env client grant f secret grantId) (fun _ _ => True)
      (fun _ _ => True) w := by
  rw [exchangeGrant]
  refine (gentle_quiet (grantChecks_quiet _ _ _ _ _ _)).first (unborn_stable hf) hnone hi fun checks w hnone hi => ?_
  split
  · trivial
  · rw [wpE_bind, wpE_require]
    refine ⟨fun _ => ?_, fun _ => trivial⟩
    rw [wpE_bind, wpE_require]
    refine ⟨fun _ => ?_, fun _ => trivial⟩
    split
    · trivial
    · trivial
    · rw [wpE_bind]
      refine wpE_mono (fun response w hi _ => ?_) (fun _ _ _ _ => trivial) _ hi
        (issueUserTokens_endpoint hc hf hdraws hdot rfl hi hnone)
      refine Gentle.keeps (Keeps.bind ?_ fun _ => ?_) w hi
      · exact gentle_recordAuthorizationGrant hc grantId _
      · exact Keeps.bind (gentle_quiet recordAudit_quiet) fun _ => Keeps.pure response

theorem exchange_endpoint {form : AuthorizationCodeForm} (hi : EndpointInv w) (hnone : (w.families f).familyMeta = none) :
    wpE ((endpointOutline env).protocol c) (handleAuthorizationCode env client form f secret grantId) (fun _ _ => True)
      (fun _ _ => True) w := by
  unfold handleAuthorizationCode
  split
  · have hconsume : ∀ codeHash input, Gentle env c (consumeCode env codeHash input) := fun _ _ =>
      gentle_io hc fun _ => spares_aside rfl rfl
    refine (hconsume _ _).first (unborn_stable hf) hnone hi fun consumed w hnone hi => ?_
    split
    · dsimp only
      have hthrow : ∀ holds x y w, EndpointInv w → wpE ((endpointOutline env).protocol c)
          (require holds x >>= fun _ => (throw y : App TokenResponse)) (fun _ _ => True) (fun _ _ => True) w :=
        fun holds x y w hi => Gentle.keeps (Keeps.bind (Keeps.require holds x) fun _ => Keeps.throw y) w hi
      split
      · exact (gentle_quiet recordAudit_quiet).first (stable_true _) trivial hi fun _ w _ hi => hthrow _ _ _ w hi
      · exact hthrow _ _ _ w hi
    · exact exchangeGrant_endpoint hc hf hdraws hdot hi hnone
  · trivial

theorem issueDeviceTokens_endpoint {session : DeviceRow} (hi : EndpointInv w) (hnone : (w.families f).familyMeta = none) :
    wpE ((endpointOutline env).protocol c) (issueDeviceTokens env client session f secret grantId) (fun _ _ => True)
      (fun _ _ => True) w := by
  unfold issueDeviceTokens
  split
  · refine (gentle_quiet (grantChecks_quiet _ _ _ _ _ _)).first (unborn_stable hf) hnone hi fun checks w hnone hi => ?_
    split
    · trivial
    · trivial
    · rw [wpE_bind, wpE_require]
      refine ⟨fun _ => ?_, fun _ => trivial⟩
      split
      · trivial
      · have hconsume : Gentle env c (consumeApprovedDevice session.id) := by
          unfold consumeApprovedDevice d1
          exact gentle_aside hc fun _ => rfl
        refine hconsume.first (unborn_stable hf) hnone hi fun consumed w hnone hi => ?_
        rw [wpE_bind, wpE_require]
        refine ⟨fun _ => ?_, fun _ => trivial⟩
        rw [wpE_bind]
        refine wpE_mono (fun response w hi _ => ?_) (fun _ _ _ _ => trivial) _ hi
          (issueUserTokens_endpoint hc hf hdraws hdot rfl hi hnone)
        refine Gentle.keeps ?_ w hi
        refine Keeps.bind (gentle_quiet ((getSessionById_quiet _).all (consentCoversScopes_quiet _ _ _ _ _ _))) fun after => ?_
        refine Keeps.ite ?_ ?_
        · exact Keeps.bind (gentle_withdrawDeviceFamily hc response) fun _ => Keeps.throw _
        · refine Keeps.bind (gentle_recordAuthorizationGrant hc grantId _) fun _ => ?_
          exact Keeps.bind (gentle_quiet recordAudit_quiet) fun _ =>
            Keeps.bind (gentle_quiet recordAudit_quiet) fun _ => Keeps.pure response
  · trivial

theorem poll_endpoint {deviceCode : Option String} (hi : EndpointInv w) (hnone : (w.families f).familyMeta = none) :
    wpE ((endpointOutline env).protocol c) (handleDeviceCodeGrant env client deviceCode f secret grantId) (fun _ _ => True)
      (fun _ _ => True) w := by
  have hpoll : ∀ slower id, Gentle env c (recordPoll slower id) := by
    intro slower id
    unfold recordPoll d1
    exact Keeps.bind (gentle_quiet .clock) fun _ => gentle_aside hc fun _ => rfl
  have hexpired : ∀ id, Gentle env c (markDeviceExpired id) := by
    intro id
    unfold markDeviceExpired d1
    exact gentle_aside hc fun _ => rfl
  have hrefuse : ∀ {p : App Unit} {x : Failure}, Gentle env c p → Gentle env c
      (p >>= fun _ => recordAudit >>= fun _ => (throw x : App TokenResponse)) := fun hp =>
    Keeps.bind hp fun _ => Keeps.bind (gentle_quiet recordAudit_quiet) fun _ => Keeps.throw _
  unfold handleDeviceCodeGrant
  split
  · trivial
  · rw [wpE_bind, wpE_require]
    refine ⟨fun _ => ?_, fun _ => trivial⟩
    refine (gentle_quiet (.select _)).first (unborn_stable hf) hnone hi fun found w hnone hi => ?_
    split
    · trivial
    · refine (gentle_quiet .clock).first (unborn_stable hf) hnone hi fun now w hnone hi => ?_
      split
      · exact Gentle.keeps (hrefuse (hexpired _)) w hi
      · refine (gentle_quiet .clock).first (unborn_stable hf) hnone hi fun now w hnone hi => ?_
        split
        · exact Gentle.keeps (hrefuse (hpoll _ _)) w hi
        · refine (hpoll _ _).first (unborn_stable hf) hnone hi fun _ w hnone hi => ?_
          split
          · trivial
          · exact Gentle.keeps (Keeps.bind (gentle_quiet recordAudit_quiet) fun _ => Keeps.throw _) w hi
          · trivial
          · trivial
          · exact issueDeviceTokens_endpoint hc hf hdraws hdot hi hnone

end

/-! ## Refreshing -/

theorem familyIdOf_dotless (t : String) : '.' ∉ (familyIdOf t).toList := by
  intro h
  rw [familyIdOf, String.toList_ofList] at h
  simpa using List.all_eq_true.1 List.all_takeWhile _ h

section

variable (hc : ∀ client token, c ≠ .revoke client token)

include hc

/-- The mirror write gives the family's row the token that the call drew. -/
theorem mirror_endpoint {secret scope : String} {now generation : Nat} {log : List Event} (hdot : '.' ∉ f.toList)
    (hdraws : c.draws = some (f ++ "." ++ secret)) (hi : EndpointInv w)
    (hw' : w' = { w with
      db := (mirrorStatement now f (hashOpaqueToken env (f ++ "." ++ secret)) scope generation w.db).2, log }) :
    EndpointInv w' ∧ EndpointGuar env c w w' := by
  subst hw'
  have hkept : ∀ g, FamilyKept (w.families g) (w.families g) := fun g => FamilyKept.refl _
  refine ⟨fun r' hr' => ?_, hkept, fun g _ hg => hg, fun r' hr' => ?_, fun client token he => absurd he (hc client token)⟩
  · obtain ⟨r, hr, rfl⟩ := (Table.mem_update fun _ => by rfl).1 hr'
    refine (hi r hr).kept ?_ hkept
    split
    · exact ⟨rfl, rfl, rfl, rfl, rfl, id⟩
    · exact Kept.refl r
  · obtain ⟨r, hr, rfl⟩ := (Table.mem_update fun _ => by rfl).1 hr'
    split
    · rename_i hrow
      rw [decide_eq_true_eq] at hrow
      exact Or.inr ⟨_, hdraws, (familyIdOf_drawn hdot).trans hrow.1.symm, rfl⟩
    · exact Or.inl ⟨r, hr, RowKept.refl r⟩

theorem keeps_compensate (f tokenHash : String) : Keeps ((endpointOutline env).protocol c) (compensate f tokenHash) := by
  have hspares : ∀ (w : World) (log : List Event),
      Spares w { w with families := Function.update w.families f (Do.revoke (w.families f)), log } :=
    fun w log => spares_family (familyKept_revoke _) revoke_familyMeta_none.2
  refine Keeps.ioLogged (endpoint_clocked env c) (fun w _ hi _ => ?_) fun w w' _ hi hw' _ => ?_
  · exact ⟨(hspares w w.log).inv hi, (hspares w w.log).guar hc⟩
  · have hspare : Spares w { w' with log := [Event.compensationFailed f tokenHash] ++ w'.log } := by
      rcases hw' with rfl | rfl
      · exact spares_aside rfl rfl
      · exact hspares w _
    exact ⟨hspare.inv hi, hspare.guar hc⟩

theorem keeps_rotateRefreshToken {presented clientId scope secret : String}
    (hdraws : c.draws = some (familyIdOf presented ++ "." ++ secret)) :
    Keeps ((endpointOutline env).protocol c) (rotateRefreshToken env presented clientId scope secret) := by
  have hclk := endpoint_clocked env c
  have hdot := familyIdOf_dotless presented
  rw [rotateRefreshToken]
  refine Keeps.bind (Keeps.io hclk fun w _ hi _ => ?_) fun result => ?_
  · exact ⟨spares_rotate.inv hi, spares_rotate.guar hc⟩
  · cases result with
    | rotated m =>
      refine Keeps.bind (Keeps.clock hclk) fun now => Keeps.bind (Keeps.tryCatch ?_ fun x => ?_) fun updated => ?_
      · refine Keeps.ioLogged hclk (fun w _ hi _ => mirror_endpoint hc hdot hdraws hi rfl) fun w w' _ hi hw' _ => ?_
        rcases hw' with rfl | rfl
        · have hspare : ∀ log, Spares w' { w' with log } := fun log => spares_aside rfl rfl
          exact ⟨hi, (hspare _).guar hc⟩
        · exact mirror_endpoint hc hdot hdraws hi rfl
      · exact Keeps.bind (keeps_compensate hc _ _) fun _ => Keeps.throw x
      · exact Keeps.ite (Keeps.bind (keeps_compensate hc _ _) fun _ => Keeps.pure _) (Keeps.pure _)
    | reuseDetected m =>
      refine Keeps.bind (Keeps.clock hclk) fun now => Keeps.bind ?_ fun _ => Keeps.pure _
      exact (gentle_d1Logged hc fun _ _ hr => rowKept_revoking hr).keeps
    | generationLimit m =>
      exact Keeps.bind (gentle_markRefreshTokenRevoked hc _).keeps fun _ => Keeps.pure _
    | tooSoon k => exact Keeps.pure _
    | revoked => exact Keeps.pure _
    | expired => exact Keeps.pure _
    | invalid => exact Keeps.pure _

end

theorem keeps_refresh {client : ClientRow} {form : RefreshForm} {secret : String} :
    Keeps ((endpointOutline env).protocol (.refresh client form secret)) (handleRefreshToken env client form secret) := by
  have hclk := endpoint_clocked env (.refresh client form secret)
  unfold handleRefreshToken
  split
  · exact Keeps.throw _
  · rename_i presented hform
    refine Keeps.bind (Keeps.require _ _) fun _ => Keeps.bind (Keeps.of_quiet hclk (refreshChecks_quiet _ _ _ _)) fun scope => ?_
    refine Keeps.bind (keeps_rotateRefreshToken (fun client token => by rintro ⟨⟩) ?_) fun outcome =>
      Keeps.of_quiet hclk (answerRotation_quiet client outcome)
    simp [EndpointCall.draws, hform]

/-! ## Service requests and revocations -/

theorem handleClientCredentials_quiet (env : Env) (client : ClientRow) (form : ClientCredentialsForm) :
    Quiet (handleClientCredentials env client form) := by
  unfold handleClientCredentials
  refine Quiet.ite (recordAudit_quiet.bind fun _ => .throw _) (Quiet.ite (recordAudit_quiet.bind fun _ => .throw _) ?_)
  dsimp only
  refine Quiet.ite (recordAudit_quiet.bind fun _ => .throw _) ?_
  refine (validateRequestedScopes_quiet _ _).bind fun granted => (resolveResourceForScopes_quiet _ _ _ _).bind fun resource => ?_
  exact (signJwt_quiet _).bind fun accessToken => recordAudit_quiet.bind fun _ => .pure _

/-- A record that is found is that of a row with its object. -/
theorem lookup_endpoint {presented : String} :
    wpE ((endpointOutline env).protocol c) (lookupPresentedFamily env presented)
      (fun found w => ∀ record, found = some record → ∃ r, toRecord r = record ∧ Backed r w) (fun _ _ => True) w := by
  have hclk := endpoint_clocked env c
  have ht := stable_true ((endpointOutline env).protocol c)
  rw [lookupPresentedFamily, wpE_bind]
  refine wpE_select hclk ht trivial (fun w _ hi => ?_) fun _ _ _ => trivial
  cases hfound : w.db.refreshTokens.rows.find? (·.tokenHash = hashOpaqueToken env presented) with
  | some row =>
    intro record hrecord
    cases hrecord
    exact ⟨row, rfl, hi row (List.mem_of_find?_eq_some hfound)⟩
  | none =>
    dsimp only [Option.map_none]
    split
    · refine wpE_select hclk ht trivial (fun w _ hi record hrecord => ?_) fun _ _ _ => trivial
      obtain ⟨row, hrow, rfl⟩ := Option.map_eq_some_iff.1 hrecord
      exact ⟨row, rfl, hi row (Table.get?_eq_some.1 hrow).1⟩
    · rintro record ⟨⟩

/-- A step on the family of `r` alone spares the families of other clients. -/
theorem revoke_guar {client : ClientRow} {token : Option String} (hspares : Spares w w') (hi : EndpointInv w)
    (hbacked : Backed r w) (hclient : r.clientId = client.clientId)
    (hfamilies : ∀ f, f ≠ r.id → w'.families f = w.families f)
    (hrows : ∀ x ∈ w.db.refreshTokens, x.id ≠ r.id → x ∈ w'.db.refreshTokens) :
    EndpointGuar env (.revoke client token) w w' := by
  obtain ⟨m, hm, -, hmclient, -⟩ := hbacked
  have hown : m.clientId = client.clientId := hmclient.trans hclient
  refine ⟨hspares.kept, fun f _ => hspares.unborn f, fun r' hr' => Or.inl (hspares.rows r' hr'), ?_⟩
  rintro _ _ ⟨⟩
  refine ⟨fun f m' hm' hother => hfamilies f ?_, fun x hx hother => hrows x hx ?_⟩
  · rintro rfl
    cases hm.symm.trans hm'
    exact hother hown
  · intro hid
    obtain ⟨m', hm', -, hxclient, -⟩ := hi x hx
    rw [hid, hm] at hm'
    cases hm'
    exact hother (hxclient.symm.trans hown)

theorem keeps_revoke {client : ClientRow} {token : Option String} :
    Keeps ((endpointOutline env).protocol (.revoke client token)) (handleRevoke env client token) := by
  have hclk := endpoint_clocked env (.revoke client token)
  cases token with
  | none => exact Keeps.pure _
  | some token =>
    intro w hi
    rw [handleRevoke, wpE_bind]
    refine wpE_mono (fun found w hi hfound => ?_) (fun _ _ _ _ => trivial) _ hi lookup_endpoint
    split
    · trivial
    · rename_i record hrecord
      obtain ⟨hrecord, hclient⟩ := Option.filter_eq_some_iff.1 hrecord
      obtain ⟨r, rfl, hbacked⟩ := hfound record hrecord
      have hclient : r.clientId = client.clientId := of_decide_eq_true hclient
      have hstable : ((endpointOutline env).protocol (.revoke client (some token))).Stable (Backed r) := backed_stable r
      rw [wpE_bind, revokeFamily]
      refine wpE_familyObject hclk hstable hbacked ?_ fun _ _ _ => trivial
      rintro w w' - hbacked hi rfl -
      have hspares : Spares w { w with families := Function.update w.families r.id (Do.revoke (w.families r.id)), log := w.log } :=
        spares_family (familyKept_revoke _) revoke_familyMeta_none.2
      refine ⟨hspares.inv hi, ?_, ?_, trivial⟩
      · exact revoke_guar hspares hi hbacked hclient (fun f hf => Function.update_of_ne hf _ _) fun x hx _ => hx
      · rw [wpE_bind, markRefreshTokenRevoked, wpE_bind]
        refine wpE_clock hclk hstable (hbacked.kept (Kept.refl r) hspares.kept) fun w hbacked _ => ?_
        refine wpE_d1Logged hclk hstable hbacked ?_ fun _ _ _ => trivial
        rintro w w' - hbacked hi rfl -
        have hmarked : ∀ now log, Spares w { w with db := revokeRows now (·.id = (toRecord r).familyId) w.db, log } :=
          fun now log => spares_rows rfl fun _ hr => rowKept_revoking hr
        refine ⟨(hmarked _ _).inv hi, ?_, ?_, trivial⟩
        · refine revoke_guar (hmarked _ _) hi hbacked hclient (fun f _ => rfl) fun x hx hid => ?_
          refine (Table.mem_update fun _ => by rfl).2 ⟨x, hx, ?_⟩
          rw [if_neg]
          simp [toRecord, hid]
        · exact (Keeps.bind (Keeps.of_quiet hclk recordAudit_quiet) fun _ => Keeps.pure _) _ ((hmarked _ _).inv hi)

/-! ## The outline holds -/

theorem EndpointTrace.step {cs : List EndpointCall} (hc : c ∈ cs) (h : EndpointTrace env cs w) (hg : EndpointGuar env c w w') :
    EndpointTrace env cs w' := by
  refine ⟨fun f hf => ?_, fun r' hr' => ?_⟩
  · by_cases hfamily : c.family = some f
    · exact ⟨c, hc, hfamily⟩
    · exact h.family f fun hnone => hf (hg.unborn f hfamily hnone)
  · rcases hg.rows r' hr' with ⟨r, hr, hkept, hhash⟩ | ⟨t, hdraws, hid, hhash⟩
    · rw [hkept.id, hhash]
      exact h.token r hr
    · exact ⟨c, hc, t, hdraws, hid, hhash⟩

theorem endpoint_valid : (endpointOutline env).Valid where
  symm := fun h f hd hc => h f hc hd
  besideSymm := fun _ => trivial
  arrives := fun hc t ht => ⟨fun f htf hcf => (hc.family f hcf).2 t ht htf, fun _ => trivial⟩
  traceArrives := by
    intro cs c w h
    have hmem : ∀ {p : EndpointCall → Prop}, (∃ d ∈ cs, p d) → ∃ d ∈ cs ++ [c], p d :=
      fun ⟨d, hd, hp⟩ => ⟨d, List.mem_append_left _ hd, hp⟩
    exact ⟨fun f hf => hmem (h.family f hf), fun r hr => hmem (h.token r hr)⟩
  traceStep := fun hc h hg => h.step hc hg
  ok := fun c => (endpoint_clocked env c).ok
  compat := fun ha _ _ hg => ⟨hg.kept, fun f hf => hg.unborn f fun hc => ha f hc hf⟩
  stable := fun _ _ => stable_true _
  settled := fun _ _ _ _ _ => trivial
  safe := by
    intro P c hc hP
    -- no call before drew this id, so there is no such object
    have hunborn : ∀ f, c.family = some f → (P.store.families f).familyMeta = none := by
      intro f hf
      by_contra hm
      obtain ⟨d, hd, hfamily⟩ := hP.trace.family f hm
      obtain ⟨t, ht, rfl⟩ := List.mem_map.1 hd
      exact (hc.family f hf).2 t ht hfamily
    apply wp_of_wpE
    have hmap : ∀ {α : Type} {g : α → EndpointAnswer} {p : App α},
        wpE ((endpointOutline env).protocol c) p (fun _ _ => True) (fun _ _ => True) P.store →
          wpE ((endpointOutline env).protocol c) (g <$> p) (fun _ _ => True) (fun _ _ => True) P.store := by
      intro α g p h
      rw [map_eq_pure_bind, wpE_bind]
      exact wpE_imp (fun _ _ _ => trivial) (fun _ _ _ => trivial) _ h
    cases c with
    | exchange client form familyId secret grantId =>
      exact hmap (exchange_endpoint (fun client token => by rintro ⟨⟩) rfl rfl (hc.family familyId rfl).1 hP.inv
        (hunborn familyId rfl))
    | poll client deviceCode familyId secret grantId =>
      exact hmap (poll_endpoint (fun client token => by rintro ⟨⟩) rfl rfl (hc.family familyId rfl).1 hP.inv
        (hunborn familyId rfl))
    | refresh client form secret => exact hmap (keeps_refresh P.store hP.inv)
    | service client form =>
      exact hmap ((handleClientCredentials_quiet env client form).wpE (endpoint_clocked env _) (stable_true _) trivial hP.inv
        (fun _ _ _ _ => trivial) fun _ _ _ _ => trivial)
    | revoke client token => exact hmap (keeps_revoke P.store hP.inv)
    | other step =>
      have hgentle : Gentle env (.other step) (io fun w => (EndpointAnswer.done, step w)) :=
        gentle_io (fun client token => by rintro ⟨⟩) (hc.spares step rfl)
      exact hgentle.keeps P.store hP.inv

end

end Keyforge.Grant
