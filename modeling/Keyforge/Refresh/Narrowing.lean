/-
Refresh never widens. A refresh request reads its family's scope from D1, checks what it asks for
against it, and later rotates the family object to what it checked; between the two steps others may
rotate, so that the scope it read is old. An old scope is the scope of an old hash: while the object
holds a hash whose token was returned, its row has the object's scope, and a hash that was rotated
away never comes back. So a rotation that the object accepts was checked against the scope the object
has.
-/
import Keyforge.Deployment
import Keyforge.Do.Chain
import Keyforge.Lib.Run
import Keyforge.OAuth.Checks
import Keyforge.Paths
import Keyforge.Tokens.Rules

namespace Keyforge.Refresh

open Lib Db Do Tokens OAuth

/-! ## The calls -/

/-- Issuances and refresh requests, each with the secret it draws, and revokers of the rows `p` selects. -/
inductive NarrowCall where
  | issue (input : IssueRefreshInput) (familyId secret : String)
  | refresh (client : ClientRow) (form : RefreshForm) (secret : String)
  | revoke (p : RefreshTokenRow → Bool)

inductive NarrowAnswer where
  | issued (token : IssuedRefreshToken)
  | refreshed (answer : RefreshAnswer)
  | revoked (families : Nat)
  deriving DecidableEq, Repr

def NarrowCall.code (env : Env) : NarrowCall → App NarrowAnswer
  | .issue input familyId secret => NarrowAnswer.issued <$> issueRefreshToken env input familyId secret
  | .refresh client form secret => NarrowAnswer.refreshed <$> handleRefreshToken env client form secret
  | .revoke p => NarrowAnswer.revoked <$> revokeMatchingFamilies p

/-- The family an issuance draws. -/
def NarrowCall.family : NarrowCall → Option String
  | .issue _ familyId _ => some familyId
  | _ => none

/-- The family and hash a request presents. -/
def NarrowCall.presents (env : Env) : NarrowCall → Option (String × String)
  | .refresh _ form _ => form.refreshToken.map fun t => (familyIdOf t, hashOpaqueToken env t)
  | _ => none

/-- The family and hash of the token a call draws. -/
def NarrowCall.draws (env : Env) : NarrowCall → Option (String × String)
  | .issue _ familyId secret => some (familyId, hashOpaqueToken env (familyId ++ "." ++ secret))
  | .refresh _ form secret =>
    form.refreshToken.map fun t => (familyIdOf t, hashOpaqueToken env (familyIdOf t ++ "." ++ secret))
  | .revoke _ => none

/-- The call returned a token. -/
def Returned : Except Failure NarrowAnswer → Prop
  | .ok (.issued _) => True
  | .ok (.refreshed (.issued _)) => True
  | _ => False

/-- A call may arrive. The family and the token it draws are new, and so is the token's hash. The token
it presents is one that a call has returned, or one that no call has drawn. -/
structure Arrives (env : Env) (P : Pool NarrowCall Input World (Except Failure NarrowAnswer)) (c : NarrowCall) : Prop where
  family : ∀ f, c.family = some f → ∀ t ∈ P.threads, t.1.family ≠ some f
  drawn : ∀ f h, c.draws env = some (f, h) → (∀ g, c.presents env ≠ some (g, h)) ∧
    ∀ t ∈ P.threads, ∀ g, t.1.draws env ≠ some (g, h) ∧ t.1.presents env ≠ some (g, h)
  presented : ∀ f h, c.presents env = some (f, h) → ∀ t ∈ P.threads, ∀ g, t.1.draws env = some (g, h) →
    g = f ∧ ∃ r, t.2 = .done r ∧ Returned r

/-- Any storage call may fail, with or without having taken effect. -/
def narrowSystem (env : Env) : System NarrowCall Input World (Except Failure NarrowAnswer) where
  code := fun c => (c.code env).run
  allow := fun _ _ _ => True
  arrive := Arrives env

/-! ## The outline -/

/-- While the object of `f` holds the hash `h`, its row has the object's scope. -/
def Tracks (f h : String) (w : World) : Prop :=
  ∀ m, (w.families f).familyMeta = some m → (w.families f).currentHash = some h → m.revoked = false →
    ∀ r, w.db.refreshTokens.get? f = some r → r.scope = m.scope

/-- What is known of a presented hash: a row that has it is the family's. -/
structure Known (f h : String) (w : World) : Prop where
  tracks : Tracks f h w
  row : ∀ r ∈ w.db.refreshTokens, r.tokenHash = h → r.id = f

/-- An object without a family holds no hash. -/
def NarrowInv (w : World) : Prop :=
  ∀ f, (w.families f).familyMeta = none → (w.families f).currentHash = none

/-- What an issuance creates its object with. -/
def issuedFamily (input : IssueRefreshInput) (tokenHash : String) (expiresAt : Nat) : RefreshFamilyInit :=
  { userId := input.userId, clientId := input.clientId, resource := input.resource, scope := input.scope,
    authTime := input.authTime, currentTokenHash := tokenHash, absoluteExpiresAt := expiresAt }

/-- How a step of `c` may change the object of `f`. -/
inductive FamilyMove (env : Env) (c : NarrowCall) (f : String) (s s' : RefreshFamilyStorage) : Prop
  | same (h : s' = s)
  | revoked (h : s' = revoke s)
  | created (now expiresAt : Nat) (input : IssueRefreshInput) (secret : String) (hc : c = .issue input f secret)
    (hm : s.familyMeta = none) (hcur : s.currentHash = none)
    (h : s' = Do.init now (issuedFamily input (hashOpaqueToken env (f ++ "." ++ secret)) expiresAt) s)
  | rotated (now : Nat) (m : RefreshFamilyMeta) (old new scope : String) (hp : c.presents env = some (f, old))
    (hd : c.draws env = some (f, new)) (hm : s.familyMeta = some m) (hcur : s.currentHash = some old)
    (hrev : m.revoked = false) (hn : Narrows m.scope scope) (hm' : s'.familyMeta = some (nextMeta now scope m))
    (hcur' : s'.currentHash = some new)

/-- How a row of the families after a step of `c` came about. -/
inductive RowMove (env : Env) (c : NarrowCall) (w w' : World) (r' : RefreshTokenRow) : Prop
  | kept (r : RefreshTokenRow) (hr : r ∈ w.db.refreshTokens) (hid : r'.id = r.id) (hhash : r'.tokenHash = r.tokenHash)
    (hscope : r'.scope = r.scope)
  | written (hd : c.draws env = some (r'.id, r'.tokenHash))
    (hid : c.family = some r'.id ∨ ∃ r ∈ w.db.refreshTokens, r.id = r'.id)
    (hcur : (w'.families r'.id).currentHash = some r'.tokenHash)
    (hscope : ∀ m, (w'.families r'.id).familyMeta = some m → r'.scope = m.scope)

structure NarrowGuar (env : Env) (c : NarrowCall) (w w' : World) : Prop where
  moves : ∀ f, FamilyMove env c f (w.families f) (w'.families f)
  rows : ∀ r' ∈ w'.db.refreshTokens, RowMove env c w w' r'

/-- An object is as it was, or revoked. -/
def Stays (s s' : RefreshFamilyStorage) : Prop :=
  s' = s ∨ s' = revoke s

/-- What other calls leave alone while `c` runs: what is known of the hash it presents and of the one it
draws, and the family it draws before it exists. -/
structure NarrowRely (env : Env) (c : NarrowCall) (w w' : World) : Prop where
  known : ∀ f h, c.presents env = some (f, h) → Known f h w → Known f h w'
  back : ∀ f h, c.presents env = some (f, h) → (w'.families f).currentHash = some h →
    Stays (w.families f) (w'.families f)
  held : ∀ f h, c.draws env = some (f, h) → (w.families f).currentHash = some h →
    Stays (w.families f) (w'.families f)
  tracks : ∀ f h, c.draws env = some (f, h) → Tracks f h w → Tracks f h w'
  unborn : ∀ f, c.family = some f → (w.families f).familyMeta = none → (w'.families f).familyMeta = none
  absent : ∀ f, c.family = some f → w.db.refreshTokens.get? f = none → w'.db.refreshTokens.get? f = none

/-- Where the objects and the rows come from. -/
structure NarrowTrace (env : Env) (cs : List NarrowCall) (w : World) : Prop where
  family : ∀ f, (w.families f).familyMeta ≠ none → ∃ c ∈ cs, c.family = some f
  row : ∀ r ∈ w.db.refreshTokens, ∃ c ∈ cs, c.family = some r.id
  current : ∀ f h, (w.families f).currentHash = some h → ∃ c ∈ cs, c.draws env = some (f, h)
  hash : ∀ r ∈ w.db.refreshTokens, ∃ c ∈ cs, c.draws env = some (r.id, r.tokenHash)

def narrowOutline (env : Env) : Outline (narrowSystem env) where
  inv := NarrowInv
  rely := NarrowRely env
  guar := NarrowGuar env
  post := fun c r w => Returned r → ∀ f h, c.draws env = some (f, h) → Tracks f h w
  apart := fun c d => (∀ f, c.family = some f → d.family ≠ some f) ∧
    ∀ f g h, c.draws env = some (f, h) → d.draws env ≠ some (g, h)
  beside := fun c d => (∀ f g h, c.draws env = some (f, h) → d.presents env ≠ some (g, h)) ∧
    ∀ f g h, d.draws env = some (f, h) → c.presents env ≠ some (g, h)
  trace := NarrowTrace env

section

variable {env : Env} {c d : NarrowCall} {f h : String} {s s' s'' : RefreshFamilyStorage} {w w' w'' : World}

theorem revoke_currentHash (s : RefreshFamilyStorage) : (revoke s).currentHash = s.currentHash := by
  unfold revoke
  split <;> rfl

theorem revoke_familyMeta_none : (revoke s).familyMeta = none ↔ s.familyMeta = none := by
  cases hm : s.familyMeta with
  | none => simp [revoke, hm]
  | some m => simp [revoke, hm, RefreshFamilyStorage.burn]

/-- A live family that is there after a revocation was there before it. -/
theorem revoke_live {m : RefreshFamilyMeta} (hm : (revoke s).familyMeta = some m) (hlive : m.revoked = false) :
    s.familyMeta = some m := by
  cases hs : s.familyMeta with
  | none =>
    rw [revoke, hs] at hm
    exact absurd hm (by simp [hs])
  | some m₀ =>
    simp only [revoke, hs, RefreshFamilyStorage.burn] at hm
    cases hm
    cases hlive

theorem Stays.trans (h : Stays s s') (h' : Stays s' s'') : Stays s s'' := by
  rcases h with rfl | rfl
  · exact h'
  · rcases h' with rfl | rfl
    · exact Or.inr rfl
    · exact Or.inr (revoke_revoke s)

theorem Stays.currentHash (h : Stays s s') : s'.currentHash = s.currentHash := by
  rcases h with rfl | rfl
  · rfl
  · exact revoke_currentHash s

theorem Stays.live (h : Stays s s') {m : RefreshFamilyMeta} (hm : s'.familyMeta = some m) (hlive : m.revoked = false) :
    s.familyMeta = some m := by
  rcases h with rfl | rfl
  · exact hm
  · exact revoke_live hm hlive

/-- An object that holds a hash after a step of a call that did not draw it stays. -/
theorem FamilyMove.stays (hmove : FamilyMove env c f s s') (hcur : s'.currentHash = some h)
    (hne : ∀ g, c.draws env ≠ some (g, h)) : Stays s s' := by
  cases hmove with
  | same he => exact Or.inl he
  | revoked he => exact Or.inr he
  | created now expiresAt input secret hc hm _ he =>
    subst hc he
    rw [Do.init, hm] at hcur
    cases hcur
    exact absurd rfl (hne f)
  | rotated now m old new scope hp hd hm _ hrev hn hm' hcur' =>
    rw [hcur'] at hcur
    cases hcur
    exact absurd hd (hne f)

/-- The hash that a call did not draw is tracked after its step as before. -/
theorem NarrowGuar.tracks (hg : NarrowGuar env c w w') (hne : ∀ g, c.draws env ≠ some (g, h)) (ht : Tracks f h w) :
    Tracks f h w' := by
  intro m hm hcur hlive r' hr'
  have hstays := (hg.moves f).stays hcur hne
  have hm₀ := hstays.live hm hlive
  have hcur₀ : (w.families f).currentHash = some h := by rw [← hstays.currentHash, hcur]
  obtain ⟨hmem, hid⟩ := Table.get?_eq_some.1 hr'
  cases hg.rows r' hmem with
  | kept r hr hrid _ hscope =>
    rw [hscope]
    refine ht m hm₀ hcur₀ hlive r (Table.get?_eq_some.2 ⟨hr, ?_⟩)
    rw [← hrid, hid]
  | written hd _ hrcur _ =>
    rw [hid, hcur] at hrcur
    cases hrcur
    exact absurd hd (hne r'.id)

/-- The guarantee of a call is within the rely of every other. -/
theorem NarrowGuar.rely (ha : (narrowOutline env).apart c d) (hb : (narrowOutline env).beside c d)
    (hg : NarrowGuar env c w w') : NarrowRely env d w w' := by
  refine ⟨?_, ?_, ?_, ?_, ?_, ?_⟩
  · intro f h hp hk
    -- the other call does not draw a hash this one presents
    have hne : ∀ g, c.draws env ≠ some (g, h) := fun g hd => hb.1 g f h hd hp
    refine ⟨hg.tracks hne hk.tracks, fun r' hr' hhash => ?_⟩
    cases hg.rows r' hr' with
    | kept r hr hid hrhash _ => rw [hid, hk.row r hr (hrhash ▸ hhash)]
    | written hd _ _ _ =>
      rw [hhash] at hd
      exact absurd hd (hne r'.id)
  · exact fun f h hp hcur => (hg.moves f).stays hcur fun g hd => hb.1 g f h hd hp
  · intro f h hd hcur
    cases hg.moves f with
    | same he => exact Or.inl he
    | revoked he => exact Or.inr he
    | created _ _ _ _ _ _ hnone _ =>
      rw [hnone] at hcur
      cases hcur
    | rotated now m old new scope hp _ _ hold _ _ _ _ =>
      rw [hold] at hcur
      cases hcur
      -- nor present one this one draws
      exact absurd hp (hb.2 f f h hd)
  · exact fun f h hd ht => hg.tracks (fun g hc => ha.2 g f h hc hd) ht
  · intro f hf hnone
    cases hg.moves f with
    | same he => rw [he, hnone]
    | revoked he => rw [he, revoke_familyMeta_none, hnone]
    | created _ _ input secret hc _ _ _ =>
      subst hc
      exact absurd hf (ha.1 f rfl)
    | rotated _ m _ _ _ _ _ hm _ _ _ _ _ =>
      rw [hnone] at hm
      cases hm
  · intro f hf hnone
    rw [Table.get?_eq_none] at hnone ⊢
    intro r' hr' hid
    cases hg.rows r' hr' with
    | kept r hr hrid _ _ => exact hnone r hr (by rw [← hrid, hid])
    | written _ hold _ _ =>
      rcases hold with hc | ⟨r, hr, hrid⟩
      · rw [hid] at hc
        exact ha.1 f hc hf
      · exact hnone r hr (hrid.trans hid)

theorem NarrowRely.trans (h₁ : NarrowRely env c w w') (h₂ : NarrowRely env c w' w'') : NarrowRely env c w w'' where
  known := fun f h hp hk => h₂.known f h hp (h₁.known f h hp hk)
  back := fun f h hp hcur => by
    have h' := h₂.back f h hp hcur
    exact (h₁.back f h hp (by rw [← h'.currentHash, hcur])).trans h'
  held := fun f h hd hcur => by
    have h' := h₁.held f h hd hcur
    exact h'.trans (h₂.held f h hd (by rw [h'.currentHash, hcur]))
  tracks := fun f h hd ht => h₂.tracks f h hd (h₁.tracks f h hd ht)
  unborn := fun f hf hnone => h₂.unborn f hf (h₁.unborn f hf hnone)
  absent := fun f hf hnone => h₂.absent f hf (h₁.absent f hf hnone)

/-- Burning families is within every guarantee. -/
theorem narrowGuar_burns (hb : Burns w w') : NarrowGuar env c w w' := by
  refine ⟨fun f => ?_, fun r' hr' => ?_⟩
  · obtain ⟨dt, b, rfl⟩ := hb
    simp only [burned, World.tick_families]
    split
    · exact .revoked rfl
    · exact .same rfl
  · rw [hb.db] at hr'
    exact .kept r' hr' rfl rfl rfl

/-- The guarantee of a revoker is within every rely. -/
theorem narrowRely_burns (hb : Burns w w') : NarrowRely env c w w' := by
  refine NarrowGuar.rely (c := .revoke fun _ => false) ⟨?_, ?_⟩ ⟨?_, ?_⟩ (narrowGuar_burns hb)
  · intro f hf
    cases hf
  · intro f g h hd
    cases hd
  · intro f g h hd
    cases hd
  · intro f g h _ hp
    cases hp

theorem narrowInv_burns (hb : Burns w w') (hi : NarrowInv w) : NarrowInv w' := by
  intro f hm
  obtain ⟨dt, b, rfl⟩ := hb
  simp only [burned, World.tick_families] at hm ⊢
  split at hm
  · rename_i hbf
    rw [if_pos hbf, revoke_currentHash]
    exact hi f (revoke_familyMeta_none.1 hm)
  · rename_i hbf
    rw [if_neg hbf]
    exact hi f hm

theorem narrow_tolerant (env : Env) (c : NarrowCall) : Tolerant ((narrowOutline env).protocol c) where
  ok := ⟨fun w => narrowRely_burns (Burns.tick w 0), NarrowRely.trans⟩
  tickInv := fun {w} dt => narrowInv_burns (Burns.tick w dt)
  tickRely := fun w dt => narrowRely_burns (Burns.tick w dt)
  tickGuar := fun w dt => narrowGuar_burns (Burns.tick w dt)
  tickAllow := fun _ h => h
  guarTick := fun {w w'} dt h => by
    refine ⟨h.moves, fun r' hr' => ?_⟩
    cases h.rows r' hr' with
    | kept r hr hid hhash hscope => exact .kept r hr hid hhash hscope
    | written hd hid hcur hscope => exact .written hd hid hcur hscope
  burnInv := narrowInv_burns
  burnRely := narrowRely_burns
  burnGuar := narrowGuar_burns

/-! ## Steps on D1 alone -/

/-- A statement that leaves hashes and scopes alone. -/
theorem narrowGuar_rows (hfam : w'.families = w.families)
    (hrows : ∀ r' ∈ w'.db.refreshTokens, ∃ r ∈ w.db.refreshTokens, r'.id = r.id ∧ r'.tokenHash = r.tokenHash ∧ r'.scope = r.scope) :
    NarrowGuar env c w w' := by
  refine ⟨fun f => .same (by rw [hfam]), fun r' hr' => ?_⟩
  obtain ⟨r, hr, hid, hhash, hscope⟩ := hrows r' hr'
  exact .kept r hr hid hhash hscope

/-- A statement that sets `revoked_at` on some rows. -/
theorem narrowGuar_revoking (p : RefreshTokenRow → Bool) (now : Nat) (log : List Event) :
    NarrowGuar env c w { w with
      db := { w.db with
        refreshTokens := w.db.refreshTokens.update p (fun r => { r with revokedAt := some now }) fun _ => rfl }
      log } := by
  refine narrowGuar_rows rfl fun r' hr' => ?_
  obtain ⟨r, hr, rfl⟩ := (Table.mem_update fun _ => by rfl).1 hr'
  refine ⟨r, hr, ?_⟩
  split
  · exact ⟨rfl, rfl, rfl⟩
  · exact ⟨rfl, rfl, rfl⟩

/-! ## Issuing -/

/-- The rows of the issuing batch: those before it, and the one issued. -/
theorem issueBatch_row {now : Nat} {input : IssueRefreshInput} {row : RefreshTokenRow} {db : Database}
    {r' : RefreshTokenRow} (h : r' ∈ (issueBatch now input row db).2.refreshTokens) :
    (∃ r ∈ db.refreshTokens, r'.id = r.id ∧ r'.tokenHash = r.tokenHash ∧ r'.scope = r.scope) ∨
      (r'.id = row.id ∧ r'.tokenHash = row.tokenHash ∧ r'.scope = row.scope) := by
  have hpruned : ∃ r ∈ (insertStatement now input row db).2.refreshTokens,
      r'.id = r.id ∧ r'.tokenHash = r.tokenHash ∧ r'.scope = r.scope := by
    unfold issueBatch pruneStatement at h
    dsimp only at h
    split at h
    · obtain ⟨r, hr, rfl⟩ := (Table.mem_update fun _ => by rfl).1 h
      refine ⟨r, hr, ?_⟩
      split
      · exact ⟨rfl, rfl, rfl⟩
      · exact ⟨rfl, rfl, rfl⟩
    · exact ⟨r', h, rfl, rfl, rfl⟩
  obtain ⟨r, hr, heq⟩ := hpruned
  unfold insertStatement at hr
  split at hr
  · rcases Table.mem_insert.1 hr with hr | ⟨rfl, -⟩
    · exact Or.inl ⟨r, hr, heq⟩
    · exact Or.inr heq
  · exact Or.inl ⟨r, hr, heq⟩

/-- The object of `f` holds the hash `h` with this scope, revoked or not. -/
def Holding (f h scope : String) (w : World) : Prop :=
  (w.families f).currentHash = some h ∧ ∃ m, (w.families f).familyMeta = some m ∧ m.scope = scope

theorem holding_stable (hd : c.draws env = some (f, h)) (scope : String) :
    ((narrowOutline env).protocol c).Stable (Holding f h scope) := by
  rintro w w' ⟨hcur, m, hm, hscope⟩ hr -
  have hstays := hr.held f h hd hcur
  refine ⟨by rw [hstays.currentHash, hcur], ?_⟩
  rcases hstays with he | he
  · rw [he]
    exact ⟨m, hm, hscope⟩
  · rw [he]
    simp only [revoke, hm, RefreshFamilyStorage.burn]
    exact ⟨_, rfl, hscope⟩

/-- The creation of the object. -/
theorem created_narrow {input : IssueRefreshInput} {secret : String} {now expiresAt : Nat} (hi : NarrowInv w)
    (hnone : (w.families f).familyMeta = none) (hh : hashOpaqueToken env (f ++ "." ++ secret) = h) :
    NarrowInv (createdWorld f now (issuedFamily input h expiresAt) w) ∧
      NarrowGuar env (.issue input f secret) w (createdWorld f now (issuedFamily input h expiresAt) w) ∧
      Holding f h input.scope (createdWorld f now (issuedFamily input h expiresAt) w) := by
  have hself : (createdWorld f now (issuedFamily input h expiresAt) w).families f =
      Do.init now (issuedFamily input h expiresAt) (w.families f) := Function.update_self _ _ _
  have hother : ∀ g, g ≠ f → (createdWorld f now (issuedFamily input h expiresAt) w).families g = w.families g :=
    fun g hg => Function.update_of_ne hg _ _
  have hstored : Holding f h input.scope (createdWorld f now (issuedFamily input h expiresAt) w) := by
    rw [Holding, hself, Do.init, hnone]
    exact ⟨rfl, _, rfl, rfl⟩
  refine ⟨fun g hm => ?_, ⟨fun g => ?_, fun r' hr' => .kept r' hr' rfl rfl rfl⟩, hstored⟩
  · by_cases hg : g = f
    · subst hg
      obtain ⟨-, m, hm', -⟩ := hstored
      rw [hm] at hm'
      cases hm'
    · rw [hother g hg] at hm ⊢
      exact hi g hm
  · by_cases hg : g = f
    · subst hg
      refine .created now expiresAt input secret rfl hnone (hi g hnone) ?_
      rw [hself, hh]
    · exact .same (hother g hg)

/-- The issuing batch, with the object created. -/
theorem issued_narrow {input : IssueRefreshInput} {secret : String} {now expiresAt : Nat} {log : List Event}
    (hh : hashOpaqueToken env (f ++ "." ++ secret) = h) (hheld : Holding f h input.scope w)
    (habsent : w.db.refreshTokens.get? f = none) {w' : World}
    (hw' : w' = { w with db := (issueBatch now input (issuedRow now f h expiresAt input) w.db).2, log }) :
    NarrowGuar env (.issue input f secret) w w' ∧ Tracks f h w' := by
  subst hw'
  obtain ⟨hcur, m, hm, hscope⟩ := hheld
  refine ⟨⟨fun g => .same rfl, fun r' hr' => ?_⟩, ?_⟩
  · rcases issueBatch_row hr' with ⟨r, hr, hid, hhash, hrscope⟩ | ⟨hid, hhash, hrscope⟩
    · exact .kept r hr hid hhash hrscope
    · have hid : r'.id = f := hid
      have hhash : r'.tokenHash = h := hhash
      refine .written ?_ (Or.inl ?_) ?_ fun m' hm' => ?_
      · rw [NarrowCall.draws, hh, hid, hhash]
      · rw [NarrowCall.family, hid]
      · rw [hid, hhash]
        exact hcur
      · rw [hid] at hm'
        cases hm.symm.trans hm'
        rw [hrscope, hscope]
        rfl
  · intro m' hm' _ _ r' hr'
    cases hm.symm.trans hm'
    obtain ⟨hmem, hid⟩ := Table.get?_eq_some.1 hr'
    rcases issueBatch_row hmem with ⟨r, hr, hrid, -⟩ | ⟨-, -, hrscope⟩
    · exact absurd (hrid.symm.trans hid) (Table.get?_eq_none.1 habsent r hr)
    · rw [hrscope, hscope]
      rfl

theorem issue_narrow {input : IssueRefreshInput} {f secret : String} {w : World} (hunborn : (w.families f).familyMeta = none)
    (habsent : w.db.refreshTokens.get? f = none) :
    wpE ((narrowOutline env).protocol (.issue input f secret)) (issueRefreshToken env input f secret)
      (fun _ => Tracks f (hashOpaqueToken env (f ++ "." ++ secret))) (fun _ _ => True) w := by
  have hΓ := narrow_tolerant env (.issue input f secret)
  have hc := hΓ.toClocked
  have ht := stable_true ((narrowOutline env).protocol (.issue input f secret))
  have hd : (NarrowCall.issue input f secret).draws env = some (f, hashOpaqueToken env (f ++ "." ++ secret)) := rfl
  generalize hhash : hashOpaqueToken env (f ++ "." ++ secret) = h at hd
  -- until the object is created neither it nor the row exists
  have hgone : ((narrowOutline env).protocol (.issue input f secret)).Stable fun w =>
      (w.families f).familyMeta = none ∧ w.db.refreshTokens.get? f = none :=
    fun _ _ hw hr _ => ⟨hr.unborn f rfl hw.1, hr.absent f rfl hw.2⟩
  -- then the object holds the new hash, and there is still no row
  have hheld : ((narrowOutline env).protocol (.issue input f secret)).Stable fun w =>
      Holding f h input.scope w ∧ w.db.refreshTokens.get? f = none :=
    Stable.and (holding_stable hd _) fun _ _ hw hr _ => hr.absent f rfl hw
  have htracks : ((narrowOutline env).protocol (.issue input f secret)).Stable (Tracks f h) :=
    fun _ _ hw hr _ => hr.tracks f h hd hw
  -- every failure after that revokes the family
  have hrevoke : ∀ (x : Failure) w,
      wpE ((narrowOutline env).protocol (.issue input f secret)) (do revokeFamily f; throw x)
        (fun _ : IssuedRefreshToken => Tracks f h) (fun _ _ => True) w := by
    intro x w
    rw [wpE_bind]
    exact revokeFamily_wpE hΓ ht trivial f (fun _ _ _ _ _ _ => trivial) fun _ _ _ => trivial
  rw [issueRefreshToken, wpE_bind]
  refine wpE_clock hc hgone ⟨hunborn, habsent⟩ fun w hw _ => ?_
  generalize w.nowSeconds = now
  rw [wpE_bind]
  refine wpE_familyObject hc hgone hw ?_ fun _ _ _ => trivial
  rintro w w' - ⟨hnone, hrow⟩ hi rfl -
  rw [hhash]
  obtain ⟨h1, h2, h3⟩ := created_narrow hi hnone hhash
  refine ⟨h1, h2, ?_, trivial⟩
  dsimp only
  rw [wpE_bind, wpE_tryCatch]
  generalize now + (if input.rememberMe then TOKEN_TTL.refreshTokenRememberMe else TOKEN_TTL.refreshToken) = expiresAt at h3 ⊢
  refine wpE_d1Logged hc hheld ⟨h3, hrow⟩ ?_ fun w _ _ => ?_
  · rintro w w' - ⟨hheld, hrow⟩ hi rfl -
    obtain ⟨hg, htracks'⟩ := issued_narrow hhash hheld hrow rfl
    refine ⟨hi, hg, ?_, ?_⟩
    · split
      · exact hrevoke _ _
      · rw [wpE_bind]
        exact revokeRefreshFamilyDurableObjects_wpE hΓ htracks htracks' hi fun w hw _ => hw
    · rw [wpE_bind]
      exact revokeFamily_wpE hΓ ht trivial f (fun _ _ _ _ _ _ => trivial) fun _ _ _ => trivial
  · rw [wpE_bind]
    exact revokeFamily_wpE hΓ ht trivial f (fun _ _ _ _ _ _ => trivial) fun _ _ _ => trivial

/-! ## Refreshing -/

/-- What a rotation may be asked for: while the object holds the presented hash, some of its scopes. -/
def Read (f h scope : String) (w : World) : Prop :=
  ∀ m, (w.families f).familyMeta = some m → (w.families f).currentHash = some h → m.revoked = false → Narrows m.scope scope

theorem read_stable (hp : c.presents env = some (f, h)) (scope : String) :
    ((narrowOutline env).protocol c).Stable (Read f h scope) := by
  intro w w' hw hr _ m hm hcur hlive
  have hstays := hr.back f h hp hcur
  exact hw m (hstays.live hm hlive) (by rw [← hstays.currentHash, hcur]) hlive

/-- A row found by the presented hash, or by the family, has the scope of the object while it holds that
hash. -/
theorem Known.read {record : RefreshTokenRecord} {scope : String} {r : RefreshTokenRow} (hk : Known f h w)
    (hr : r ∈ w.db.refreshTokens) (hfound : r.tokenHash = h ∨ r.id = f) (hrecord : toRecord r = record)
    (hn : Narrows record.scope scope) : Read f h scope w := by
  intro m hm hcur hlive
  have hid : r.id = f := hfound.elim (hk.row r hr) id
  have hscope := hk.tracks m hm hcur hlive r (Table.get?_eq_some.2 ⟨hr, hid⟩)
  subst hrecord
  rw [← hscope]
  exact hn

/-- The checks of a request, with what they may rotate to. -/
theorem refreshChecks_narrow {client : ClientRow} {form : RefreshForm} {presented : String} {w : World}
    (hp : c.presents env = some (familyIdOf presented, hashOpaqueToken env presented))
    (hk : Known (familyIdOf presented) (hashOpaqueToken env presented) w) :
    wpE ((narrowOutline env).protocol c) (refreshChecks env client form presented)
      (Read (familyIdOf presented) (hashOpaqueToken env presented)) (fun _ _ => True) w := by
  have hc := (narrow_tolerant env c).toClocked
  have hstable : ((narrowOutline env).protocol c).Stable (Known (familyIdOf presented) (hashOpaqueToken env presented)) :=
    fun _ _ hk hr _ => hr.known _ _ hp hk
  have hreads : ∀ record : Option RefreshTokenRecord, ((narrowOutline env).protocol c).Stable fun w =>
      ∀ found, record = some found → ∀ scope, Narrows found.scope scope →
        Read (familyIdOf presented) (hashOpaqueToken env presented) scope w :=
    fun record w w' hw hr hi found hfound scope hn => read_stable hp scope (hw found hfound scope hn) hr hi
  obtain ⟨rest, hrest, hall⟩ := refreshChecks_lookup env client form presented
  have hfinish : ∀ (record : Option RefreshTokenRecord) (w : World), NarrowInv w → (∀ found, record = some found →
      ∀ scope, Narrows found.scope scope → Read (familyIdOf presented) (hashOpaqueToken env presented) scope w) →
      wpE ((narrowOutline env).protocol c) (rest record) (Read (familyIdOf presented) (hashOpaqueToken env presented))
        (fun _ _ => True) w := by
    intro record w hi hw
    obtain ⟨hquiet, hends⟩ := hall record
    have hkept := hquiet.wpE hc (hreads record) hw hi (fun _ _ h _ => h) (X := fun _ _ => True) fun _ _ _ _ => trivial
    refine wpE_imp ?_ (fun _ _ _ => trivial) _ (wpE_ends hkept hends)
    rintro scope w ⟨hw, found, hfound, hn⟩
    exact hw found hfound scope hn
  rw [hrest, wpE_bind, lookupPresentedFamily, wpE_bind]
  refine wpE_select hc (Stable.and hstable (stable_true _)) ⟨hk, trivial⟩ (fun w hk hi => ?_) fun _ _ _ => trivial
  cases hbyHash : (w.db.refreshTokens.rows.find? (·.tokenHash = hashOpaqueToken env presented)).map toRecord with
  | some record =>
    obtain ⟨r, hr, hrecord⟩ := Option.map_eq_some_iff.1 hbyHash
    refine hfinish _ w hi fun found hfound scope hn => ?_
    cases hfound
    exact hk.1.read (List.mem_of_find?_eq_some hr) (Or.inl (by simpa using List.find?_some hr)) hrecord hn
  | none =>
    dsimp only
    split
    · refine wpE_select hc (Stable.and hstable (stable_true _)) hk (fun w hk hi => ?_) fun _ _ _ => trivial
      refine hfinish _ w hi fun found hfound scope hn => ?_
      obtain ⟨r, hr, hrecord⟩ := Option.map_eq_some_iff.1 hfound
      obtain ⟨hmem, hid⟩ := Table.get?_eq_some.1 hr
      exact hk.1.read hmem (Or.inr hid) hrecord hn
    · exact hfinish none w hi fun found hfound => by cases hfound

/-- The mirror write, by the call whose hash the object holds. -/
theorem mirror_narrow {now generation : Nat} {scope : String} {log : List Event} (hd : c.draws env = some (f, h))
    (hheld : Holding f h scope w) {w' : World}
    (hw' : w' = { w with db := (mirrorStatement now f h scope generation w.db).2, log }) :
    NarrowGuar env c w w' ∧ ((mirrorStatement now f h scope generation w.db).1 = true → Tracks f h w') := by
  subst hw'
  obtain ⟨hcur, m, hm, hscope⟩ := hheld
  refine ⟨⟨fun g => .same rfl, fun r' hr' => ?_⟩, fun hrow => ?_⟩
  · obtain ⟨r, hr, rfl⟩ := (Table.mem_update fun _ => by rfl).1 hr'
    split
    · rename_i hpr
      simp only [decide_eq_true_eq] at hpr
      refine .written ?_ (Or.inr ⟨r, hr, rfl⟩) ?_ fun m' hm' => ?_
      · rw [hd, ← hpr.1]
      · rw [← hpr.1] at hcur
        exact hcur
      · rw [← hpr.1] at hm
        cases hm.symm.trans hm'
        exact hscope.symm
    · exact .kept r hr rfl rfl rfl
  · intro m' hm' _ _ r' hr'
    cases hm.symm.trans hm'
    obtain ⟨r, hr, hlive⟩ := (Option.any_eq_true _ _).1 hrow
    have hget := (Table.get?_update (t := w.db.refreshTokens) (p := fun r => decide (r.id = f ∧ r.revokedAt = none))
      (f := fun r => { r with tokenHash := h, scope := scope, generation := generation, lastRotatedAt := now })
      (fun _ => by rfl) (k := f)).symm.trans hr'
    rw [hr, Option.map_some, if_pos] at hget
    · cases hget
      exact hscope.symm
    · rw [decide_eq_true_eq]
      exact ⟨(Table.get?_eq_some.1 hr).2, by simpa using hlive⟩

/-- What a request does to the object whose hash it presents. -/
theorem rotated_narrow {presented new clientId scope : String} (hi : NarrowInv w)
    (hp : c.presents env = some (f, hashOpaqueToken env presented)) (hd : c.draws env = some (f, new))
    (hread : Read f (hashOpaqueToken env presented) scope w) {r : RotateResult} {s' : RefreshFamilyStorage}
    (hrot : Do.rotate w.nowSeconds (hashOpaqueToken env presented) new clientId scope (w.families f) = (r, s'))
    {log : List Event} {w' : World} (hw' : w' = { w with families := Function.update w.families f s', log }) :
    NarrowInv w' ∧ NarrowGuar env c w w' ∧ ∀ m, r = .rotated m → Holding f new m.scope w' := by
  subst hw'
  have hself : (Function.update w.families f s') f = s' := Function.update_self _ _ _
  -- only the one object changes
  have hframe : FamilyMove env c f (w.families f) s' → (s'.familyMeta = none → s'.currentHash = none) →
      NarrowInv { w with families := Function.update w.families f s', log } ∧
        NarrowGuar env c w { w with families := Function.update w.families f s', log } := by
    intro hmove hinv
    refine ⟨fun g hm => ?_, fun g => ?_, fun r' hr' => .kept r' hr' rfl rfl rfl⟩
    · by_cases hg : g = f
      · subst hg
        simp only [Function.update_self] at hm ⊢
        exact hinv hm
      · simp only [Function.update_of_ne hg] at hm ⊢
        exact hi g hm
    · by_cases hg : g = f
      · subst hg
        simp only [Function.update_self]
        exact hmove
      · simp only [Function.update_of_ne hg]
        exact .same rfl
  cases rotate_effect hrot with
  | refused hr =>
    obtain ⟨h1, h2⟩ := hframe (.same rfl) (hi f)
    refine ⟨h1, h2, ?_⟩
    rintro m rfl
    rcases hr with hr | hr | hr | ⟨k, hr⟩ <;> cases hr
  | @burned _ m hm hr =>
    have hburn : (w.families f).burn m = Do.revoke (w.families f) := by simp [Do.revoke, hm]
    obtain ⟨h1, h2⟩ := hframe (.revoked hburn) fun hnone => by cases hnone
    refine ⟨h1, h2, ?_⟩
    rintro m rfl
    rcases hr with hr | hr <;> cases hr
  | @rotated m hm hcur hrev _ _ =>
    -- the current hash moves on, with the scope that was read
    obtain ⟨h1, h2⟩ := hframe (.rotated w.nowSeconds m _ new scope hp hd hm hcur hrev (hread m hm hcur hrev) rfl rfl)
      fun hnone => by cases hnone
    refine ⟨h1, h2, fun m' hm' => ?_⟩
    cases hm'
    exact ⟨congrArg (·.currentHash) hself, _, congrArg (·.familyMeta) hself, rfl⟩

/-- A compensation keeps the outline, wherever it fails. -/
theorem compensate_narrow (f h : String) (w : World) :
    wpE ((narrowOutline env).protocol c) (compensate f h) (fun _ _ => True) (fun _ _ => True) w := by
  have hΓ := narrow_tolerant env c
  have ht := stable_true ((narrowOutline env).protocol c)
  refine wpE_ioLogged hΓ.toClocked ht trivial (fun w e _ hi _ => ?_) fun w w' e _ hi hw' _ => ?_
  · have hb := burns_revokeFamily w f
    exact ⟨hΓ.burnInv hb hi, hΓ.burnGuar hb, trivial⟩
  · have hb : Burns w w' := by
      rcases hw' with rfl | rfl
      · exact Burns.tick _ 0
      · exact burns_revokeFamily w f
    have hg : NarrowGuar env c w w' := hΓ.burnGuar hb
    have hinv : NarrowInv w' := hΓ.burnInv hb hi
    refine ⟨hinv, ⟨hg.moves, fun r' hr' => ?_⟩, trivial⟩
    exact .kept r' (hb.db ▸ hr') rfl rfl rfl

/-- The new hash is tracked, if the token is to be returned. -/
abbrev TracksIf (f h : String) (o : RotateOutcome) (w : World) : Prop :=
  (∃ token userId clientId resource scope authTime, o = .rotated token userId clientId resource scope authTime) → Tracks f h w

theorem tracksIf_of_refused {f h : String} {o : RotateOutcome} {w : World} (ho : ∀ token userId clientId resource scope authTime,
    o ≠ .rotated token userId clientId resource scope authTime) : TracksIf f h o w := by
  rintro ⟨_, _, _, _, _, _, heq⟩
  exact absurd heq (ho _ _ _ _ _ _)

/-- After a rotation the row is mirrored, or the family is burned. -/
theorem mirroring_narrow {f h scope token userId clientId resource : String} {generation : Nat} {authTime : Nat}
    (hd : c.draws env = some (f, h)) {w : World} (hw : Holding f h scope w) :
    wpE ((narrowOutline env).protocol c)
      (do
        let now ← clock
        let updated ← tryCatch (mirror now f h scope generation) fun error => do
          compensate f h
          throw error
        if !updated then
          compensate f h
          pure .invalid
        else
          pure (.rotated token userId clientId resource scope authTime))
      (TracksIf f h) (fun _ _ => True) w := by
  have hc := (narrow_tolerant env c).toClocked
  have hst := holding_stable hd scope
  rw [wpE_bind]
  refine wpE_clock hc hst hw fun w hw _ => ?_
  rw [wpE_bind, wpE_tryCatch]
  refine wpE_ioLogged hc hst hw (fun w e hw hi _ => ?_) fun w w' e hw hi hw' _ => ?_
  · obtain ⟨hg, htracks⟩ := mirror_narrow hd hw rfl
    refine ⟨hi, hg, ?_⟩
    dsimp only
    split
    · rw [wpE_bind]
      exact wpE_imp (fun _ _ _ => tracksIf_of_refused (o := .invalid) nofun) (fun _ _ _ => trivial) _ (compensate_narrow f h _)
    · rename_i hmatched
      rw [Bool.not_eq_true', Bool.not_eq_false] at hmatched
      exact fun _ => htracks hmatched
  · -- the write was lost, with or without an effect
    have hinv : NarrowInv w' ∧ NarrowGuar env c w { w' with log := .mirrorLost f h :: w'.log } := by
      rcases hw' with rfl | rfl
      · exact ⟨hi, fun g => .same rfl, fun r' hr' => .kept r' hr' rfl rfl rfl⟩
      · exact ⟨hi, (mirror_narrow hd hw rfl).1⟩
    refine ⟨hinv.1, hinv.2, ?_⟩
    rw [wpE_bind]
    exact wpE_imp (fun _ _ _ => trivial) (fun _ _ _ => trivial) _ (compensate_narrow f h _)

/-- A rotation to what was read: the new hash is tracked once it is to be returned. -/
theorem rotateRefreshToken_narrow {presented secret clientId scope : String}
    (hp : c.presents env = some (familyIdOf presented, hashOpaqueToken env presented))
    (hd : c.draws env = some (familyIdOf presented, hashOpaqueToken env (familyIdOf presented ++ "." ++ secret)))
    {w : World} (hread : Read (familyIdOf presented) (hashOpaqueToken env presented) scope w) :
    wpE ((narrowOutline env).protocol c) (rotateRefreshToken env presented clientId scope secret)
      (TracksIf (familyIdOf presented) (hashOpaqueToken env (familyIdOf presented ++ "." ++ secret))) (fun _ _ => True) w := by
  have hΓ := narrow_tolerant env c
  have hc := hΓ.toClocked
  have ht := stable_true ((narrowOutline env).protocol c)
  rw [rotateRefreshToken, wpE_bind]
  refine wpE_io hc (read_stable hp scope) hread ?_ fun _ _ _ => trivial
  intro w e hread hi _
  set f := familyIdOf presented
  set new := hashOpaqueToken env (f ++ "." ++ secret)
  rcases hrot : Do.rotate w.nowSeconds (hashOpaqueToken env presented) new clientId scope (w.families f) with ⟨r, s'⟩
  obtain ⟨h1, h2, h3⟩ := rotated_narrow hi hp hd hread hrot (w := w) rfl
  refine ⟨h1, h2, ?_, fun _ => trivial⟩
  cases r with
  | rotated m => exact mirroring_narrow hd (h3 m rfl)
  | reuseDetected m =>
    dsimp only
    rw [wpE_bind]
    refine wpE_clock hc ht trivial fun w _ _ => ?_
    rw [wpE_bind]
    refine wpE_d1Logged hc ht trivial ?_ fun _ _ _ => trivial
    rintro w w' - - hi rfl -
    exact ⟨hi, narrowGuar_revoking _ _ _, tracksIf_of_refused nofun, trivial⟩
  | generationLimit m =>
    dsimp only
    rw [wpE_bind, markRefreshTokenRevoked, wpE_bind]
    refine wpE_clock hc ht trivial fun w _ _ => ?_
    refine wpE_d1Logged hc ht trivial ?_ fun _ _ _ => trivial
    rintro w w' - - hi rfl -
    exact ⟨hi, narrowGuar_revoking _ _ _, tracksIf_of_refused nofun, trivial⟩
  | tooSoon k => exact tracksIf_of_refused nofun
  | revoked => exact tracksIf_of_refused nofun
  | expired => exact tracksIf_of_refused nofun
  | invalid => exact tracksIf_of_refused nofun

theorem refresh_narrow {client : ClientRow} {form : RefreshForm} {secret : String} {w : World} (hi : NarrowInv w)
    (hk : ∀ f h, (NarrowCall.refresh client form secret).presents env = some (f, h) → Known f h w) :
    wpE ((narrowOutline env).protocol (.refresh client form secret)) (handleRefreshToken env client form secret)
      (fun answer w => ∀ response, answer = .issued response → ∀ f h,
        (NarrowCall.refresh client form secret).draws env = some (f, h) → Tracks f h w) (fun _ _ => True) w := by
  have hc := (narrow_tolerant env (.refresh client form secret)).toClocked
  rw [handleRefreshToken]
  cases hform : form.refreshToken with
  | none => trivial
  | some presented =>
    have hp : (NarrowCall.refresh client form secret).presents env =
        some (familyIdOf presented, hashOpaqueToken env presented) := by simp [NarrowCall.presents, hform]
    have hd : (NarrowCall.refresh client form secret).draws env = some (familyIdOf presented,
        hashOpaqueToken env (familyIdOf presented ++ "." ++ secret)) := by simp [NarrowCall.draws, hform]
    have hpost : ∀ {w : World}, Tracks (familyIdOf presented) (hashOpaqueToken env (familyIdOf presented ++ "." ++ secret)) w →
        ∀ f h, (NarrowCall.refresh client form secret).draws env = some (f, h) → Tracks f h w := by
      intro w ht f h hd'
      rw [hd] at hd'
      cases hd'
      exact ht
    have htracks : ((narrowOutline env).protocol (.refresh client form secret)).Stable
        (Tracks (familyIdOf presented) (hashOpaqueToken env (familyIdOf presented ++ "." ++ secret))) :=
      fun _ _ hw hr _ => hr.tracks _ _ hd hw
    dsimp only
    rw [wpE_bind, wpE_require]
    refine ⟨fun _ => ?_, fun _ => trivial⟩
    rw [wpE_bind]
    refine wpE_mono (fun scope w hi hread => ?_) (fun _ _ _ _ => trivial) _ hi (refreshChecks_narrow hp (hk _ _ hp))
    rw [wpE_bind]
    refine wpE_mono (fun outcome w hi hrotated => ?_) (fun _ _ _ _ => trivial) _ hi (rotateRefreshToken_narrow hp hd hread)
    cases outcome with
    | rotated token userId clientId resource scope authTime =>
      exact (answerRotation_quiet client _).wpE hc htracks (hrotated ⟨_, _, _, _, _, _, rfl⟩) hi
        (fun _ _ ht _ _ _ => hpost ht) fun _ _ _ _ => trivial
    | reuseDetected familyId =>
      rw [answerRotation, wpE_bind]
      exact recordAudit_quiet.wpE hc (stable_true _) trivial hi (fun _ _ _ _ => trivial) fun _ _ _ _ => trivial
    | tooSoon retryAfterSeconds => exact fun response hr => by cases hr
    | reauthorizationRequired familyId => trivial
    | invalid => trivial

theorem revoke_narrow (p q : RefreshTokenRow → Bool) (w : World) :
    wpE ((narrowOutline env).protocol (.revoke q)) (revokeMatchingFamilies p) (fun _ _ => True) (fun _ _ => True) w := by
  have hΓ := narrow_tolerant env (.revoke q)
  have ht := stable_true ((narrowOutline env).protocol (.revoke q))
  rw [revokeMatchingFamilies, wpE_bind]
  refine wpE_clock hΓ.toClocked ht trivial fun w₁ _ _ => ?_
  rw [wpE_bind]
  refine wpE_d1Logged hΓ.toClocked ht trivial ?_ fun _ _ _ => trivial
  rintro w w' - - hi rfl -
  refine ⟨hi, narrowGuar_revoking _ _ _, ?_, trivial⟩
  rw [wpE_bind]
  refine revokeRefreshFamilyDurableObjects_wpE hΓ ht trivial ?_ fun _ _ _ => ?_
  · exact hi
  · trivial

/-- The hash that a new call presents is known. -/
theorem Known.of_arrives {P : Pool NarrowCall Input World (Except Failure NarrowAnswer)} (hP : (narrowOutline env).Holds P)
    (hc : Arrives env P c) (hp : c.presents env = some (f, h)) : Known f h P.store := by
  have hdrawn : ∀ {g}, (∃ d ∈ P.threads.map Prod.fst, d.draws env = some (g, h)) → g = f ∧ Tracks f h P.store := by
    rintro g ⟨d, hd, hdraws⟩
    obtain ⟨t, ht, rfl⟩ := List.mem_map.1 hd
    obtain ⟨rfl, r, hdone, hreturned⟩ := hc.presented f h hp t ht g hdraws
    exact ⟨rfl, hP.post (hdone ▸ ht) hreturned g h hdraws⟩
  refine ⟨fun m hm hcur hlive => ?_, fun r hr hhash => ?_⟩
  · exact (hdrawn (hP.trace.current f h hcur)).2 m hm hcur hlive
  · obtain ⟨d, hd, hdraws⟩ := hP.trace.hash r hr
    rw [hhash] at hdraws
    exact (hdrawn ⟨d, hd, hdraws⟩).1

theorem NarrowTrace.step {cs : List NarrowCall} (hc : c ∈ cs) (h : NarrowTrace env cs w) (hg : NarrowGuar env c w w') :
    NarrowTrace env cs w' := by
  refine ⟨fun f hm => ?_, fun r' hr' => ?_, fun f k hcur => ?_, fun r' hr' => ?_⟩
  · cases hg.moves f with
    | same he => exact h.family f (he ▸ hm)
    | revoked he => exact h.family f fun hnone => hm (he ▸ revoke_familyMeta_none.2 hnone)
    | created _ _ input secret hcall _ _ _ => exact ⟨c, hc, by rw [hcall]; rfl⟩
    | rotated _ m _ _ _ _ _ hm' _ _ _ _ _ => exact h.family f (by rw [hm']; nofun)
  · cases hg.rows r' hr' with
    | kept r hr hid _ _ => exact hid ▸ h.row r hr
    | written _ hold _ _ =>
      rcases hold with hfamily | ⟨r, hr, hid⟩
      · exact ⟨c, hc, hfamily⟩
      · exact hid ▸ h.row r hr
  · by_cases hd : c.draws env = some (f, k)
    · exact ⟨c, hc, hd⟩
    · cases hg.moves f with
      | same he => exact h.current f k (he ▸ hcur)
      | revoked he => exact h.current f k (by rw [← hcur, he, revoke_currentHash])
      | created now expiresAt input secret hcall hm _ he =>
        rw [he, Do.init, hm] at hcur
        cases hcur
        exact ⟨c, hc, by rw [hcall]; rfl⟩
      | rotated _ _ _ new _ _ hdraws _ _ _ _ _ hcur' =>
        rw [hcur] at hcur'
        cases hcur'
        exact ⟨c, hc, hdraws⟩
  · cases hg.rows r' hr' with
    | kept r hr hid hhash _ => exact hid ▸ hhash ▸ h.hash r hr
    | written hd _ _ _ => exact ⟨c, hc, hd⟩

theorem narrow_valid : (narrowOutline env).Valid where
  symm := fun h => ⟨fun f hd hc => h.1 f hc hd, fun f g k hd hc => h.2 g f k hc hd⟩
  besideSymm := fun h => ⟨h.2, h.1⟩
  arrives := by
    intro P c hc t ht
    refine ⟨⟨fun f htf hcf => hc.family f hcf t ht htf, fun f g k htd hcd => ((hc.drawn g k hcd).2 t ht f).1 htd⟩,
      fun hrun => ⟨fun f g k htd hcp => ?_, fun f g k hcd => ((hc.drawn f k hcd).2 t ht g).2⟩⟩
    -- a token is presented only once the call that drew it has answered
    obtain ⟨-, r, hdone, -⟩ := hc.presented g k hcp t ht f htd
    rw [hdone] at hrun
    cases hrun
  traceArrives := by
    intro cs c w h
    have hmem : ∀ {P : NarrowCall → Prop}, (∃ d ∈ cs, P d) → ∃ d ∈ cs ++ [c], P d :=
      fun ⟨d, hd, hP⟩ => ⟨d, List.mem_append_left _ hd, hP⟩
    exact ⟨fun f hm => hmem (h.family f hm), fun r hr => hmem (h.row r hr), fun f k hcur => hmem (h.current f k hcur),
      fun r hr => hmem (h.hash r hr)⟩
  traceStep := fun hc h hg => h.step hc hg
  ok := fun c => (narrow_tolerant env c).ok
  compat := fun ha hb _ hg => hg.rely ha hb
  stable := fun c r w w' h hr _ hreturned f k hd => hr.tracks f k hd (h hreturned f k hd)
  settled := fun ha _ hg _ h hreturned f k hd => hg.tracks (fun g hc => ha.2 g f k hc hd) (h hreturned f k hd)
  safe := by
    intro P c hc hP
    apply wp_of_wpE
    cases c with
    | issue input familyId secret =>
      -- no call before drew this id
      have hnew : ∀ {d}, d ∈ P.threads.map Prod.fst → d.family ≠ some familyId := by
        intro d hd
        obtain ⟨t, ht, rfl⟩ := List.mem_map.1 hd
        exact hc.family familyId rfl t ht
      -- so neither the object nor the row exists
      have hunborn : (P.store.families familyId).familyMeta = none := by
        by_contra hm
        obtain ⟨d, hd, hfamily⟩ := hP.trace.family familyId hm
        exact hnew hd hfamily
      have habsent : P.store.db.refreshTokens.get? familyId = none := by
        rw [Table.get?_eq_none]
        intro r hr hid
        obtain ⟨d, hd, hfamily⟩ := hP.trace.row r hr
        exact hnew hd (hid ▸ hfamily)
      show wpE _ (NarrowAnswer.issued <$> issueRefreshToken env input familyId secret) _ _ _
      rw [map_eq_pure_bind, wpE_bind]
      refine wpE_imp (fun token w ht _ f k hd => ?_) (fun _ _ _ => False.elim) _ (issue_narrow hunborn habsent)
      cases hd
      exact ht
    | refresh client form secret =>
      show wpE _ (NarrowAnswer.refreshed <$> handleRefreshToken env client form secret) _ _ _
      rw [map_eq_pure_bind, wpE_bind]
      refine wpE_imp (fun answer w ht hreturned => ?_) (fun _ _ _ => False.elim) _
        (refresh_narrow hP.inv fun f k hp => Known.of_arrives hP hc hp)
      cases answer with
      | issued response => exact ht response rfl
      | tooSoon retryAfterSeconds => exact hreturned.elim
    | revoke p =>
      show wpE _ (NarrowAnswer.revoked <$> revokeMatchingFamilies p) _ _ _
      rw [map_eq_pure_bind, wpE_bind]
      exact wpE_imp (fun _ _ _ => False.elim) (fun _ _ _ => False.elim) _ (revoke_narrow p p P.store)

end

/-! ## What a family grants -/

/-- A step rotates the object of `f`, and leaves it with `m`. -/
def Rotates (f : String) (m : RefreshFamilyMeta) (w w' : World) : Prop :=
  ∃ m₀, (w.families f).familyMeta = some m₀ ∧ (w'.families f).familyMeta = some m ∧ m.generation = m₀.generation + 1

/-- The authorization `m'` is within `m`: some of its scopes, for the same user, client and resource, from
the same authentication, until the same time. -/
structure Within (m m' : RefreshFamilyMeta) : Prop where
  userId : m'.userId = m.userId
  clientId : m'.clientId = m.clientId
  resource : m'.resource = m.resource
  authTime : m'.authTime.getD m'.createdAt = m.authTime.getD m.createdAt
  absoluteExpiresAt : m'.absoluteExpiresAt = m.absoluteExpiresAt
  scope : parseScopeString (some m'.scope) ⊆ parseScopeString (some m.scope)

theorem Within.refl (m : RefreshFamilyMeta) : Within m m :=
  ⟨rfl, rfl, rfl, rfl, rfl, fun _ h => h⟩

theorem Within.trans {m m' m'' : RefreshFamilyMeta} (h : Within m m') (h' : Within m' m'') : Within m m'' :=
  ⟨h'.userId.trans h.userId, h'.clientId.trans h.clientId, h'.resource.trans h.resource, h'.authTime.trans h.authTime,
    h'.absoluteExpiresAt.trans h.absoluteExpiresAt, fun _ hs => h.scope (h'.scope hs)⟩

/-- The answer's tokens are for what the family grants. -/
structure Grants (m : RefreshFamilyMeta) (response : TokenResponse) : Prop where
  scope : response.scope = m.scope
  tokenScope : response.accessToken.scope = m.scope
  sub : response.accessToken.sub = m.userId
  clientId : response.accessToken.clientId = m.clientId
  aud : response.accessToken.aud = m.resource
  authTime : response.accessToken.authTime = some (m.authTime.getD m.createdAt)

section

variable {env : Env} {c : NarrowCall} {f : String} {s s' : RefreshFamilyStorage}

/-- Once there is a family, every step leaves it within what it was. -/
theorem FamilyMove.within {m : RefreshFamilyMeta} (hmove : FamilyMove env c f s s') (hm : s.familyMeta = some m) :
    ∃ m', s'.familyMeta = some m' ∧ Within m m' := by
  cases hmove with
  | same he => exact ⟨m, he ▸ hm, .refl m⟩
  | revoked he =>
    subst he
    refine ⟨{ m with revoked := true }, ?_, rfl, rfl, rfl, rfl, rfl, fun _ h => h⟩
    rw [revoke, hm]
    rfl
  | created _ _ _ _ _ hnone _ _ =>
    rw [hm] at hnone
    cases hnone
  | rotated now m₀ _ _ scope _ _ hm₀ _ _ hn hm' _ =>
    cases hm.symm.trans hm₀
    exact ⟨_, hm', rfl, rfl, rfl, rfl, rfl, hn.2⟩

/-- A rotation leaves some scope. -/
theorem FamilyMove.nonempty {w w' : World} {m : RefreshFamilyMeta} (hmove : FamilyMove env c f (w.families f) (w'.families f))
    (hrot : Rotates f m w w') : parseScopeString (some m.scope) ≠ [] := by
  obtain ⟨m₀, hm₀, hm, hgen⟩ := hrot
  cases hmove with
  | same he =>
    rw [he, hm₀] at hm
    cases hm
    omega
  | revoked he =>
    rw [he, revoke, hm₀] at hm
    cases hm
    simp at hgen
  | created _ _ _ _ _ hnone _ _ =>
    rw [hm₀] at hnone
    cases hnone
  | rotated now m₁ _ _ scope _ _ _ _ _ hn hm' _ =>
    cases hm.symm.trans hm'
    exact hn.1

/-! ## Answers -/

theorem issueRotatedTokens_ends {client : ClientRow} {m : RefreshFamilyMeta} {token : String} :
    endsE (issueRotatedTokens client token m.userId m.clientId m.resource m.scope (m.authTime.getD m.createdAt))
      (fun response _ => Grants m response) fun _ _ => True := by
  rw [issueRotatedTokens, endsE_bind, endsE_require]
  refine ⟨fun hclient => ?_, fun _ => trivial⟩
  rw [decide_eq_true_eq] at hclient
  rw [endsE_bind]
  refine endsE_select (fun w _ => ?_) fun _ => trivial
  cases huser : (w.db.users.get? m.userId).filter fun user => !user.disabled with
  | none => trivial
  | some user =>
    obtain ⟨hget, -⟩ := Option.filter_eq_some_iff.1 huser
    obtain ⟨-, hid⟩ := Table.get?_eq_some.1 hget
    dsimp only
    rw [issueUserAccessToken, OAuth.signJwt, endsE_bind]
    refine endsE_query (fun _ _ => ?_) fun _ => trivial
    refine endsE_skip (fun _ _ _ _ h => h) (fun _ _ => trivial) fun idToken => ?_
    refine endsE_skip (fun _ _ _ _ h => h) (fun _ _ => trivial) fun _ => ?_
    exact ⟨rfl, rfl, hid, hclient.symm, rfl, rfl⟩

/-- The step in which a request rotated. -/
def Rotated (f : String) (m : RefreshFamilyMeta) (tr : Steps) : Prop :=
  ∃ t ∈ tr, Rotates f m t.1 t.2

/-- An outcome with a token is that of a rotation. -/
def RotatedAs (f : String) (o : RotateOutcome) (tr : Steps) : Prop :=
  ∀ token userId clientId resource scope authTime, o = .rotated token userId clientId resource scope authTime →
    ∃ m, Rotated f m tr ∧ o = .rotated token m.userId m.clientId m.resource m.scope (m.authTime.getD m.createdAt)

theorem rotateRefreshToken_ends {presented clientId scope secret : String} :
    endsE (rotateRefreshToken env presented clientId scope secret) (RotatedAs (familyIdOf presented)) fun _ _ => True := by
  rw [rotateRefreshToken, endsE_bind]
  refine endsE_io (fun w dt => ?_) fun _ => trivial
  set f := familyIdOf presented
  set new := hashOpaqueToken env (f ++ "." ++ secret)
  rcases hrot : Do.rotate (w.tick dt).nowSeconds (hashOpaqueToken env presented) new clientId scope
    ((w.tick dt).families f) with ⟨result, s'⟩
  -- an outcome that is no rotation has nothing to show
  have hother : ∀ {p : App RotateOutcome} {t : World × World}, endsE p (fun o _ => ∀ token userId clientId resource scope authTime,
      o ≠ .rotated token userId clientId resource scope authTime) (fun _ _ => True) →
      endsE p (fun o tr => RotatedAs f o ([t] ++ tr)) fun _ _ => True := by
    intro p t hp
    refine endsE_imp (fun o tr ho token userId clientId resource scope authTime heq => ?_) (fun _ _ _ => trivial) _ hp
    exact absurd heq (ho _ _ _ _ _ _)
  dsimp only
  cases result with
  | rotated m =>
    -- the first step is the rotation itself
    have hstep : Rotates f m w { w.tick dt with
        families := Function.update (w.tick dt).families f s', log := rotateEvents f new (.rotated m) ++ (w.tick dt).log } := by
      cases rotate_effect hrot with
      | refused hr => rcases hr with hr | hr | hr | ⟨k, hr⟩ <;> cases hr
      | burned _ hr => rcases hr with hr | hr <;> cases hr
      | @rotated m₀ hm₀ _ _ _ _ => exact ⟨m₀, hm₀, by simp, rfl⟩
    refine endsE_imp (Q := fun o _ => o = RotateOutcome.invalid ∨ o = .rotated (f ++ "." ++ secret) m.userId m.clientId
      m.resource m.scope (m.authTime.getD m.createdAt)) (X := fun _ _ => True) ?_ (fun _ _ _ => trivial) _ ?_
    -- then the row follows, or the rotation is taken back
    · rintro o tr ho token userId clientId resource scope authTime heq
      rcases ho with rfl | rfl
      · cases heq
      · cases heq
        exact ⟨m, ⟨_, List.mem_cons_self, hstep⟩, rfl⟩
    · refine endsE_skip (fun _ _ _ _ h => h) (fun _ _ => trivial) fun now => ?_
      refine endsE_skip (fun _ _ _ _ h => h) (fun _ _ => trivial) fun updated => ?_
      refine endsE_ite (fun _ => ?_) fun _ => Or.inr rfl
      exact endsE_skip (fun _ _ _ _ h => h) (fun _ _ => trivial) fun _ => Or.inl rfl
  | reuseDetected m =>
    refine hother (endsE_skip (fun _ _ _ _ h => h) (fun _ _ => trivial) fun now => ?_)
    refine endsE_skip (fun _ _ _ _ h => h) (fun _ _ => trivial) fun _ => ?_
    exact fun _ _ _ _ _ _ heq => by cases heq
  | generationLimit m =>
    refine hother (endsE_skip (fun _ _ _ _ h => h) (fun _ _ => trivial) fun _ => ?_)
    exact fun _ _ _ _ _ _ heq => by cases heq
  | tooSoon k => exact hother fun _ _ _ _ _ _ heq => by cases heq
  | revoked => exact hother fun _ _ _ _ _ _ heq => by cases heq
  | expired => exact hother fun _ _ _ _ _ _ heq => by cases heq
  | invalid => exact hother fun _ _ _ _ _ _ heq => by cases heq

/-- A request that is answered with tokens rotated its family, and they are for what it left. -/
theorem handleRefreshToken_ends {client : ClientRow} {form : RefreshForm} {presented secret : String}
    (hform : form.refreshToken = some presented) :
    endsE (handleRefreshToken env client form secret)
      (fun answer tr => ∀ response, answer = .issued response → ∃ m, Rotated (familyIdOf presented) m tr ∧ Grants m response)
      fun _ _ => True := by
  have hlast : Lasting fun (answer : RefreshAnswer) (tr : Steps) => ∀ response, answer = .issued response →
      ∃ m, Rotated (familyIdOf presented) m tr ∧ Grants m response := by
    intro answer tr tr' hsub h response heq
    obtain ⟨m, ⟨t, ht, hrot⟩, hgrants⟩ := h response heq
    exact ⟨m, ⟨t, hsub.subset ht, hrot⟩, hgrants⟩
  unfold handleRefreshToken
  rw [hform]
  dsimp only
  refine endsE_skip hlast (fun _ _ => trivial) fun _ => endsE_skip hlast (fun _ _ => trivial) fun scope => ?_
  rw [endsE_bind]
  refine endsE_imp (fun outcome tr hrotated => ?_) (fun _ _ _ => trivial) _ rotateRefreshToken_ends
  cases outcome with
  | rotated token userId clientId resource scope authTime =>
    obtain ⟨m, hm, heq⟩ := hrotated _ _ _ _ _ _ rfl
    rw [heq, answerRotation, map_eq_pure_bind, endsE_bind]
    refine endsE_imp (fun response tr' hgrants answered hanswer => ?_) (fun _ _ _ => trivial) _ issueRotatedTokens_ends
    obtain ⟨t, ht, hrot⟩ := hm
    cases hanswer
    exact ⟨m, ⟨t, List.mem_append_left _ ht, hrot⟩, hgrants⟩
  | reuseDetected familyId =>
    rw [answerRotation, endsE_bind]
    exact endsE_query (fun _ _ => trivial) fun _ => trivial
  | tooSoon k => exact fun response hanswer => by cases hanswer
  | reauthorizationRequired familyId => trivial
  | invalid => trivial

end

/-! ## Runs -/

/-- What a run of the token endpoint says of the family `f`: an issuance creates it with what it was asked
for; a rotation leaves it at least one scope, and within what it was after any earlier step, so within what
the rotations before it and the issuance left; and the tokens of an answer are for what its rotation left. -/
structure NeverWidens (f : String) (steps : List (Taken World)) (P : Pool NarrowCall Input World (Except Failure NarrowAnswer)) :
    Prop where
  issued : ∀ t ∈ steps, ∀ m, (t.before.families f).familyMeta = none → (t.after.families f).familyMeta = some m →
    ∃ input secret p, P.threads[t.thread]? = some (.issue input f secret, p) ∧ m.userId = input.userId ∧
      m.clientId = input.clientId ∧ m.resource = input.resource ∧ m.scope = input.scope ∧ m.authTime = some input.authTime
  nonempty : ∀ t ∈ steps, ∀ m, Rotates f m t.before t.after → parseScopeString (some m.scope) ≠ []
  within : ∀ older t newer, steps = older ++ t :: newer → ∀ m, (t.after.families f).familyMeta = some m →
    ∀ u ∈ newer, ∀ m', Rotates f m' u.before u.after → Within m m'
  granted : ∀ (i : Nat) client form secret presented response, P.threads[i]? =
      some (.refresh client form secret, .done (.ok (.refreshed (.issued response)))) →
    form.refreshToken = some presented → familyIdOf presented = f →
    ∃ t ∈ steps, t.thread = i ∧ ∃ m, Rotates f m t.before t.after ∧ Grants m response

/-- In every run of issuances, refresh requests and revocations, from a server without families, no
refresh widens an authorization. -/
theorem refresh_never_widens (env : Env) (w₀ : World) (hfamilies : ∀ f, w₀.families f = .empty)
    (hrows : w₀.db.refreshTokens = ∅) (steps : List (Taken World))
    (P : Pool NarrowCall Input World (Except Failure NarrowAnswer)) (hrun : (narrowSystem env).Run ⟨w₀, []⟩ steps P)
    (f : String) : NeverWidens f steps P := by
  have h₀ : (narrowOutline env).Holds ⟨w₀, []⟩ := by
    refine Outline.holds_start (fun f _ => by rw [hfamilies]; rfl) ⟨?_, ?_, ?_, ?_⟩
    · exact fun f hm => absurd (by rw [hfamilies]; rfl) hm
    · exact fun r hr => absurd (hrows ▸ hr) Table.not_mem_empty
    · intro f h hcur
      rw [hfamilies] at hcur
      cases hcur
    · exact fun r hr => absurd (hrows ▸ hr) Table.not_mem_empty
  -- every step makes one of the moves of a family
  have hmoves : ∀ t ∈ steps, ∃ c p, P.threads[t.thread]? = some (c, p) ∧
      FamilyMove env c f (t.before.families f) (t.after.families f) := by
    intro t ht
    obtain ⟨-, c, p, hthread, hg⟩ := hrun.outline narrow_valid h₀ t ht
    exact ⟨c, p, hthread, hg.moves f⟩
  refine ⟨?_, ?_, ?_, ?_⟩
  -- the step that creates it
  · intro t ht m hnone hm
    obtain ⟨c, p, hthread, hmove⟩ := hmoves t ht
    cases hmove with
    | same he =>
      rw [he, hnone] at hm
      cases hm
    | revoked he =>
      rw [he, revoke_familyMeta_none.2 hnone] at hm
      cases hm
    | created now expiresAt input secret hc _ _ he =>
      subst hc
      rw [he, Do.init, hnone] at hm
      cases hm
      exact ⟨input, secret, p, hthread, rfl, rfl, rfl, rfl, rfl⟩
    | rotated _ m₀ _ _ _ _ _ hm₀ _ _ _ _ _ =>
      rw [hnone] at hm₀
      cases hm₀
  -- a rotation grants something
  · intro t ht m hrot
    obtain ⟨c, p, -, hmove⟩ := hmoves t ht
    exact hmove.nonempty hrot
  -- and no more than before
  · rintro older t newer rfl m hm u hu m' ⟨-, -, hm', -⟩
    have hkeep : ∀ v ∈ newer, (∃ m', (v.before.families f).familyMeta = some m' ∧ Within m m') →
        ∃ m', (v.after.families f).familyMeta = some m' ∧ Within m m' := by
      rintro v hv ⟨m₁, hm₁, hw₁⟩
      obtain ⟨c, p, -, hmove⟩ := hmoves v (List.mem_append_right _ (List.mem_cons_of_mem _ hv))
      obtain ⟨m₂, hm₂, hw₂⟩ := hmove.within hm₁
      exact ⟨m₂, hm₂, hw₁.trans hw₂⟩
    obtain ⟨-, m₂, hm₂, hw₂⟩ := Chained.all
      (p := fun w : World => ∃ m', (w.families f).familyMeta = some m' ∧ Within m m')
      hrun.chained.at.2 hkeep ⟨m, hm, .refl m⟩ u hu
    cases hm'.symm.trans hm₂
    exact hw₂
  -- a response is of a rotation of its own call
  · rintro i client form secret presented response hthread hform rfl
    have hpath := hrun.path hthread
    have hends : endsE ((NarrowCall.refresh client form secret).code env)
        (fun answer tr => ∀ response, answer = .refreshed (.issued response) →
          ∃ m, Rotated (familyIdOf presented) m tr ∧ Grants m response) fun _ _ => True := by
      show endsE (NarrowAnswer.refreshed <$> handleRefreshToken env client form secret) _ _
      rw [map_eq_pure_bind, endsE_bind]
      refine endsE_imp (fun answer tr h => ?_) (fun _ _ _ => trivial) _ (handleRefreshToken_ends hform)
      intro response hanswer
      cases hanswer
      rw [List.append_nil]
      exact h response rfl
    obtain ⟨m, ⟨x, hx, hrot⟩, hgrants⟩ := (endsE_iff.1 hends).1 _ _ hpath response rfl
    obtain ⟨t, ht, hthread, rfl⟩ := mem_stepsOf.1 hx
    exact ⟨t, ht, hthread, m, hrot, hgrants⟩

/-! ## A run -/

def narrowIssue : IssueRefreshInput :=
  { userId := "usr_a", clientId := "app", sessionId := some "sess_a", resource := "https://api.example.com",
    scope := "openid offline_access", authTime := 0, rememberMe := false }

/-- The token that an issuance returned is presented for one of its two scopes. -/
def narrowSchedule : List (System.Move NarrowCall Input) :=
  .arrive (.issue narrowIssue "rtf_a" "secret") :: List.replicate 3 (.run 0 Deployment.ok) ++
    .arrive (.refresh Deployment.client ⟨some "rtf_a.secret", none, some "openid"⟩ "next") ::
      List.replicate 16 (.run 1 Deployment.ok)

theorem refresh_never_widens_narrowed :
    let S := narrowSystem Deployment.env
    let steps := S.taken ⟨Deployment.world, []⟩ narrowSchedule
    (∃ t ∈ steps, (t.before.families "rtf_a").familyMeta.map (·.scope) = some "openid offline_access" ∧
      (t.after.families "rtf_a").familyMeta.map (·.scope) = some "openid") ∧
      NeverWidens "rtf_a" steps (S.moves ⟨Deployment.world, []⟩ narrowSchedule) := by
  intro S steps
  -- the second call arrives when the first has returned, and presents what it returned
  have hissued : ((S.moves ⟨Deployment.world, []⟩ (narrowSchedule.take 4)).finished 0).map Prod.snd =
      some (.ok (.issued ⟨"rtf_a.secret", "rtf_a", 2593001⟩)) := by
    decide +kernel
  have hcalls := System.map_fst_moves S (narrowSchedule.take 4) ⟨Deployment.world, []⟩
  have hthreads : ∀ t ∈ (S.moves ⟨Deployment.world, []⟩ (narrowSchedule.take 4)).threads,
      t.1 = .issue narrowIssue "rtf_a" "secret" ∧ ∃ r, t.2 = .done r ∧ Returned r := by
    generalize S.moves ⟨Deployment.world, []⟩ (narrowSchedule.take 4) = P at hissued hcalls
    have hcalls : P.threads.map Prod.fst = [.issue narrowIssue "rtf_a" "secret"] := hcalls
    obtain ⟨⟨c, p⟩, hthreads, rfl⟩ := List.map_eq_singleton_iff.1 hcalls
    unfold Pool.finished at hissued
    rw [hthreads] at hissued
    intro t ht
    rw [hthreads, List.mem_singleton] at ht
    subst ht
    cases p with
    | done r =>
      cases hissued
      exact ⟨rfl, _, rfl, trivial⟩
    | step _ _ => cases hissued
  have hfresh : hashOpaqueToken Deployment.env "rtf_a.secret" ≠ hashOpaqueToken Deployment.env "rtf_a.next" := by
    decide +kernel
  have hallows : S.Allows ⟨Deployment.world, []⟩ narrowSchedule := by
    refine ⟨⟨?_, ?_, ?_⟩, trivial, trivial, trivial, ⟨?_, ?_, ?_⟩, ?_⟩
    · exact fun _ _ _ ht => absurd ht List.not_mem_nil
    · exact fun f h _ => ⟨fun g hg => (by cases hg), fun t ht => absurd ht List.not_mem_nil⟩
    · exact fun f h hp => by cases hp
    · exact fun f hf => by cases hf
    · rintro f h hd
      cases hd
      refine ⟨fun g hg => hfresh (Prod.mk.inj (Option.some.inj hg)).2, fun t ht g => ?_⟩
      rw [(hthreads t ht).1]
      exact ⟨fun hg => hfresh (Prod.mk.inj (Option.some.inj hg)).2, fun hg => by cases hg⟩
    · rintro f h hp t ht g hd
      obtain ⟨hcall, hdone⟩ := hthreads t ht
      rw [hcall] at hd
      cases hp
      refine ⟨?_, hdone⟩
      cases hd
      decide +kernel
    · trivial
  exact ⟨by decide +kernel,
    refresh_never_widens Deployment.env Deployment.world (fun _ => rfl) rfl steps _ (System.run_moves narrowSchedule hallows) "rtf_a"⟩

end Keyforge.Refresh
