/-
Device-code exchange against revocation. The family of a device carries no session, so the insert's
guard cannot protect it: safety rests on the second look at the approving session and the consent,
taken after the insert, against revocations that withdraw these first and revoke the families
second. Any number of exchanges and revocations interleave. The invariant: a revoked user's sessions
stay revoked and a deleted consent stays deleted, so a second look that finds both was taken before
the revocation began, and the insert even earlier.
-/
import Keyforge.Auth.Password
import Keyforge.Deployment
import Keyforge.Grant.Rows
import Keyforge.Lib.Pool
import Keyforge.Routes.Account

namespace Keyforge.Grant

open Lib Db Tokens Auth OAuth

/-! ## The invariant -/

/-- What the withdrawals so far have taken away is not back. -/
structure DeviceInv (w : World) : Prop where
  sessions : ∀ u, Event.userRevoked u ∈ w.log → ∀ s ∈ w.db.sessions, s.userId = u → s.revokedAt ≠ none
  consents : ∀ u c, Event.consentDeleted u c ∈ w.log → ∀ k ∈ w.db.consents, k.userId = u → k.clientId ≠ c

/-- The events the invariant is about. -/
def withdrawal : Event → Bool
  | .userRevoked _ => true
  | .consentDeleted _ _ => true
  | _ => false

/-- A step that touches neither sessions nor consents. -/
theorem DeviceInv.keep {w w' : World} (hi : DeviceInv w) (hs : w'.db.sessions = w.db.sessions)
    (hk : w'.db.consents = w.db.consents) (hlog : Continues (fun x => withdrawal x = false) w w') : DeviceInv w' := by
  refine ⟨fun u hu => ?_, fun u c hc => ?_⟩
  · rw [hs]
    exact hi.sessions u (hlog.old (by simp [withdrawal]) hu)
  · rw [hk]
    exact hi.consents u c (hlog.old (by simp [withdrawal]) hc)

theorem deviceInv_burns {w w' : World} (hb : Burns w w') (hi : DeviceInv w) : DeviceInv w' :=
  hi.keep (by rw [hb.db]) (by rw [hb.db]) (.of_eq hb.log)

/-- A batch that ends all access of a user, after statements that touch no session and no consent. -/
theorem DeviceInv.revokeAll {w w' : World} (hi : DeviceInv w) {db : Database} {now : Nat} {u : String}
    (hs : db.sessions = w.db.sessions) (hk : db.consents = w.db.consents)
    (hdb : w'.db = (revokeBatch now (·.userId = u) (fun _ r => r.userId = u) db).2)
    (hlog : Continues (fun x => withdrawal x = true → x = .userRevoked u) w w') : DeviceInv w' := by
  refine ⟨fun v hv s' hs' hu => ?_, fun v c hc k hk' => ?_⟩
  · rw [hdb] at hs'
    obtain ⟨s, hmem, -, huser, hkeep, hset⟩ := revokeSessionRows_spec hs'
    by_cases h : v = u
    · exact hset (decide_eq_true ((huser.symm.trans hu).trans h))
    · refine hkeep (hi.sessions v (hlog.old ?_ hv) s (hs ▸ hmem) (huser.symm.trans hu))
      intro hx
      exact h (Event.userRevoked.inj (hx rfl))
  · rw [hdb] at hk'
    refine hi.consents v c (hlog.old ?_ hc) k (hk ▸ hk')
    intro hx
    cases hx rfl

theorem DeviceInv.deleteConsent {w : World} (hi : DeviceInv w) (u c : String) :
    DeviceInv { w with
      db := { w.db with consents := w.db.consents.delete fun k => k.userId = u ∧ k.clientId = c }
      log := .consentDeleted u c :: w.log } := by
  refine ⟨fun v hv => hi.sessions v (by simpa using hv), fun v d hd k hk hu hc => ?_⟩
  obtain ⟨hmem, hnot⟩ := Table.mem_delete.1 hk
  rcases List.mem_cons.1 hd with he | hd
  · cases he
    simp [hu, hc] at hnot
  · exact hi.consents v d hd k hmem hu hc

/-! ## The calls -/

/-- The calls that interleave. An exchange carries the ids and the secret it draws. -/
inductive DeviceCall where
  | exchange (client : ClientRow) (session : DeviceRow) (familyId secret grantId : String)
  | revokeAll (userId : String)
  | reset (input : PasswordResetInput)
  | revokeApp (userId clientId : String)
  deriving DecidableEq, Repr

/-- Tokens, or whether a revocation took effect. -/
inductive DeviceAnswer where
  | tokens (response : TokenResponse)
  | revoked (effective : Bool)
  deriving DecidableEq, Repr

def DeviceCall.code (env : Env) : DeviceCall → App DeviceAnswer
  | .exchange client session familyId secret grantId =>
    .tokens <$> issueDeviceTokens env client session familyId secret grantId
  | .revokeAll userId => do revokeAllUserSessions userId; pure (.revoked true)
  | .reset input => .revoked <$> setUserPasswordAtSecurityVersion env [] input
  | .revokeApp userId clientId => do let _ ← Routes.revokeApp userId clientId; pure (.revoked true)

/-- The family a call draws. -/
def DeviceCall.family : DeviceCall → Option String
  | .exchange _ _ familyId _ _ => some familyId
  | _ => none

/-- Whose access a revocation ends: a user's, and the client if it is about one. -/
def DeviceCall.revokes : DeviceCall → Option (String × Option String)
  | .exchange _ _ _ _ _ => none
  | .revokeAll userId => some (userId, none)
  | .reset input => some (input.userId, none)
  | .revokeApp userId clientId => some (userId, some clientId)

/-- The first write of a revocation. -/
def firstWrite : String × Option String → Event
  | (userId, none) => .userRevoked userId
  | (userId, some clientId) => .consentDeleted userId clientId

/-- The rows a revocation is about. -/
def Reached (who : String × Option String) (r : RefreshTokenRow) : Prop :=
  r.userId = who.1 ∧ ∀ c ∈ who.2, r.clientId = c

/-- A generated family id: not empty and without the separator of refresh tokens. -/
def IsFamilyId (f : String) : Prop := f ≠ "" ∧ '.' ∉ f.toList

/-- Calls arrive at any time; an exchange draws a family id that no row and no other call has. Any
storage call may fail. -/
def deviceSystem (env : Env) : System DeviceCall Input World (Except Failure DeviceAnswer) where
  code := fun c => (c.code env).run
  allow := fun _ _ _ => True
  arrive := fun P c => ∀ f, c.family = some f →
    IsFamilyId f ∧ P.store.db.refreshTokens.get? f = none ∧ ∀ t ∈ P.threads, t.1.family ≠ some f

/-! ## The outline -/

/-- No row of `f` exists and none was recorded. -/
def Unborn (f : String) (w : World) : Prop :=
  Event.familyInserted f ∉ w.log ∧ ∀ r ∈ w.db.refreshTokens, r.id ≠ f

/-- No live row of `f` exists. -/
def Dead (f : String) (w : World) : Prop :=
  ∀ r ∈ w.db.refreshTokens, r.id = f → r.revokedAt ≠ none

/-- The row of `f` belongs to the user and the client. -/
def Owned (f userId clientId : String) (w : World) : Prop :=
  ∀ r ∈ w.db.refreshTokens, r.id = f → r.userId = userId ∧ r.clientId = clientId

/-- `f` went in before the user's access, or the client's, was withdrawn. YOLO mode asks for no
consent. -/
structure BeforeWithdrawal (env : Env) (f userId clientId : String) (log : List Event) : Prop where
  sessions : AlwaysWhen (fun older => Event.userRevoked userId ∉ older) (.familyInserted f) log
  consents : env.yolo = false →
    AlwaysWhen (fun older => Event.consentDeleted userId clientId ∉ older) (.familyInserted f) log

/-- What an exchange leaves: a family that went in in time, or none that is live. -/
def Exchanged (env : Env) (client : ClientRow) (session : DeviceRow) (f : String) (r : Except Failure DeviceAnswer)
    (w : World) : Prop :=
  match r with
  | .ok _ => ∀ u ∈ session.userId, Owned f u client.clientId w ∧ BeforeWithdrawal env f u client.clientId w.log
  | .error x => x ≠ .storage → Dead f w

/-- What other calls may do while `c` runs: they do not insert its family. -/
def DeviceCall.rely (c : DeviceCall) : World → World → Prop :=
  Follows fun x => ∀ f, x = .familyInserted f → c.family ≠ some f

/-- What `c` does: it inserts no family but its own. -/
def DeviceCall.guar (c : DeviceCall) : World → World → Prop :=
  Follows fun x => ∀ f, x = .familyInserted f → c.family = some f

def deviceOutline (env : Env) : Outline (deviceSystem env) where
  inv := DeviceInv
  rely := DeviceCall.rely
  guar := DeviceCall.guar
  post := fun c r w => match c with
    | .exchange client session f _ _ => Exchanged env client session f r w
    | c => ∀ who ∈ c.revokes, r = .ok (.revoked true) → Cleared (Reached who) (firstWrite who) w
  apart := fun c d => ∀ f, c.family = some f → d.family ≠ some f
  beside := fun _ _ => True
  trace := fun cs w => ∀ f, Event.familyInserted f ∈ w.log → ∃ c ∈ cs, c.family = some f

section

variable {env : Env}

theorem device_tolerant (env : Env) (c : DeviceCall) : Tolerant ((deviceOutline env).protocol c) where
  ok := ⟨fun _ => .burns (Burns.tick _ 0), .trans⟩
  tickInv := fun {w} dt => deviceInv_burns (Burns.tick w dt)
  tickRely := fun w dt => .burns (Burns.tick w dt)
  tickGuar := fun w dt => .burns (Burns.tick w dt)
  tickAllow := fun _ _ => trivial
  guarTick := fun dt h => .trans (.burns (Burns.tick _ dt)) h
  burnInv := deviceInv_burns
  burnRely := .burns
  burnGuar := .burns

section

variable {c : DeviceCall} {f : String} {w w' : World}

theorem Unborn.rely (h : Unborn f w) (hr : c.rely w w') (hf : c.family = some f) : Unborn f w' := by
  refine ⟨fun hm => h.1 (hr.log.old (fun hE => hE f rfl hf) hm), fun r' hr' hid => ?_⟩
  obtain ⟨r, hmem, hk⟩ := hr.old hr' fun hE => hE _ rfl (hid ▸ hf)
  exact h.2 r hmem (hk.id.symm.trans hid)

theorem Owned.rely {u cl : String} (h : Owned f u cl w) (hr : c.rely w w') (hf : c.family = some f) :
    Owned f u cl w' := by
  intro r' hr' hid
  obtain ⟨r, hmem, hk⟩ := hr.old hr' fun hE => hE _ rfl (hid ▸ hf)
  rw [hk.userId, hk.clientId]
  exact h r hmem (hk.id.symm.trans hid)

theorem Dead.rely (h : Dead f w) (hr : c.rely w w') (hf : c.family = some f) : Dead f w' := by
  intro r' hr' hid
  obtain ⟨r, hmem, hk⟩ := hr.old hr' fun hE => hE _ rfl (hid ▸ hf)
  exact hk.revoked (h r hmem (hk.id.symm.trans hid))

/-- What held whenever `f` was inserted is not changed by others. -/
theorem always_rely {Q : List Event → Prop} (h : AlwaysWhen Q (.familyInserted f) w.log) (hr : c.rely w w')
    (hf : c.family = some f) : AlwaysWhen Q (.familyInserted f) w'.log :=
  h.continues hr.log fun hE => hE f rfl hf

theorem BeforeWithdrawal.rely {env : Env} {u cl : String} (h : BeforeWithdrawal env f u cl w.log) (hr : c.rely w w')
    (hf : c.family = some f) : BeforeWithdrawal env f u cl w'.log :=
  ⟨always_rely h.sessions hr hf, fun hy => always_rely (h.consents hy) hr hf⟩

theorem Unborn.dead (h : Unborn f w) : Dead f w := fun r hr hid => absurd hid (h.2 r hr)

end

theorem reached_kept {who : String × Option String} {r r' : RefreshTokenRow} (hk : Kept r r') (h : Reached who r') :
    Reached who r :=
  ⟨hk.userId ▸ h.1, fun c hc => hk.clientId ▸ h.2 c hc⟩

theorem device_stable (c : DeviceCall) (r : Except Failure DeviceAnswer) :
    ((deviceOutline env).protocol c).Stable ((deviceOutline env).post c r) := by
  intro w w' h hr _
  cases c with
  | exchange client session f secret grantId =>
    cases r with
    | ok a =>
      intro u hu
      exact ⟨(h u hu).1.rely hr rfl, (h u hu).2.rely hr rfl⟩
    | error x => exact fun hx => (h hx).rely hr rfl
  | revokeAll userId => exact fun who hwho hok => (h who hwho hok).follows reached_kept hr
  | reset input => exact fun who hwho hok => (h who hwho hok).follows reached_kept hr
  | revokeApp userId clientId => exact fun who hwho hok => (h who hwho hok).follows reached_kept hr

theorem device_compat {c d : DeviceCall} {w w' : World} (ha : (deviceOutline env).apart c d)
    (hg : (deviceOutline env).guar c w w') : (deviceOutline env).rely d w w' :=
  hg.imp fun _ hx f he => ha f (hx f he)

/-! ## Revocations -/

theorem cleared_stable {c : DeviceCall} (who : String × Option String) (x : Event) :
    ((deviceOutline env).protocol c).Stable (Cleared (Reached who) x) :=
  fun _ _ h hr _ => h.follows reached_kept hr

/-- The batch that ends all access of a user, after statements on other tables. -/
theorem revokeAll_step (c : DeviceCall) {w : World} (w' : World) (now : Nat) (u : String) (db : Database)
    (ext : List Event) (hi : DeviceInv w) (hs : db.sessions = w.db.sessions) (hk : db.consents = w.db.consents)
    (hr : db.refreshTokens = w.db.refreshTokens)
    (hdb : w'.db = (revokeBatch now (·.userId = u) (fun _ r => r.userId = u) db).2)
    (hfam : w'.families = w.families) (hlog : w'.log = ext ++ w.log) (hu : Event.userRevoked u ∈ ext)
    (hext : ∀ x ∈ ext, (withdrawal x = true → x = .userRevoked u) ∧ ∀ f, x ≠ .familyInserted f) :
    DeviceInv w' ∧ c.guar w w' ∧ Cleared (Reached (u, none)) (firstWrite (u, none)) w' := by
  refine ⟨hi.revokeAll hs hk hdb ⟨ext, hlog, fun x hx => (hext x hx).1⟩, ?_, ?_⟩
  · refine .of_rows hlog (fun x hx f he => absurd he ((hext x hx).2 f)) ?_ fun _ => by rw [hfam]; exact FamilyMono.refl _
    intro r' hr'
    rw [hdb] at hr'
    obtain ⟨r, hmem, hk, -⟩ := mem_revokeAll hr'
    exact ⟨r, hr ▸ hmem, hk⟩
  · refine Cleared.now (by rw [hlog]; exact List.mem_append_left _ hu) fun r' hr' hp => ?_
    rw [hdb] at hr'
    obtain ⟨r, -, hk, hrev⟩ := mem_revokeAll hr'
    exact hrev (hk.userId ▸ hp.1)

theorem revokeAll_safe {u : String} {w : World} :
    wpE ((deviceOutline env).protocol (.revokeAll u)) ((DeviceCall.revokeAll u).code env)
      (fun a => (deviceOutline env).post (.revokeAll u) (.ok a))
      (fun x => (deviceOutline env).post (.revokeAll u) (.error x)) w := by
  have hΓ := device_tolerant env (.revokeAll u)
  have ht := stable_true ((deviceOutline env).protocol (.revokeAll u))
  rw [DeviceCall.code, wpE_bind, revokeAllUserSessions, wpE_bind, revokeSessions, wpE_bind]
  refine wpE_clock hΓ.toClocked ht trivial fun w₁ _ _ => ?_
  rw [wpE_bind]
  refine wpE_d1Logged hΓ.toClocked ht trivial ?_ fun _ _ _ => nofun
  rintro w w' - - hi hw' -
  obtain ⟨h1, h2, h3⟩ := revokeAll_step (.revokeAll u) w' w₁.nowSeconds u w.db
    (revokeEvents (some u) w₁.nowSeconds (·.userId = u) (fun _ r => r.userId = u) w.db) hi rfl rfl rfl (by rw [hw'])
    (by rw [hw']) (by rw [hw']) (by simp [revokeEvents]) (by simp [revokeEvents, withdrawal])
  refine ⟨h1, h2, ?_, nofun⟩
  show wpE _ (do revokeRefreshFamilyDurableObjects _; pure _) _ _ _
  rw [wpE_bind]
  refine revokeRefreshFamilyDurableObjects_wpE hΓ (cleared_stable _ _) h3 h1 fun w hcl _ => ?_
  intro who hwho _
  cases hwho
  exact hcl

theorem reset_safe {input : PasswordResetInput} {w : World} :
    wpE ((deviceOutline env).protocol (.reset input)) ((DeviceCall.reset input).code env)
      (fun a => (deviceOutline env).post (.reset input) (.ok a))
      (fun x => (deviceOutline env).post (.reset input) (.error x)) w := by
  have hΓ := device_tolerant env (.reset input)
  have ht := stable_true ((deviceOutline env).protocol (.reset input))
  rw [DeviceCall.code, map_eq_pure_bind, wpE_bind, setUserPasswordAtSecurityVersion, wpE_bind]
  refine wpE_select hΓ.toClocked ht trivial (fun w _ _ => ?_) fun _ _ _ => nofun
  split
  · intro who _ he
    cases he
  · rw [wpE_bind]
    refine wpE_clock hΓ.toClocked ht trivial fun w₁ _ _ => ?_
    rw [wpE_bind]
    refine wpE_d1Logged hΓ.toClocked ht trivial ?_ fun _ _ _ => nofun
    rintro w w' - - hi hw' -
    cases hplace : resetInPlace input (resetCredentials env w₁.nowSeconds input w.db) with
    | true =>
      obtain ⟨h1, h2, h3⟩ := revokeAll_step (.reset input) w' w₁.nowSeconds input.userId
        (resetCredentials env w₁.nowSeconds input w.db) [.userRevoked input.userId] hi rfl rfl rfl (by rw [hw', resetBatch, revokeAccessIf, hplace]; rfl)
        (by rw [hw']) (by rw [hw', resetEvents, accessEvents, hplace, ite_self]; rfl) List.mem_cons_self (by simp)
      refine ⟨h1, h2, ?_, nofun⟩
      show wpE _ (do revokeRefreshFamilyDurableObjects _; pure _) _ _ _
      rw [wpE_bind]
      refine revokeRefreshFamilyDurableObjects_wpE hΓ (cleared_stable _ _) h3 h1 fun w hcl _ => ?_
      intro who hwho _
      cases hwho
      exact hcl
    | false =>
      -- nothing is in place: the batch did nothing but perhaps touch the credentials
      have heff : resetEffective env w₁.nowSeconds input w.db = false := by
        by_contra h
        rw [resetInPlace_of_effective (Bool.not_eq_false _ ▸ h)] at hplace
        cases hplace
      have hev : resetEvents env [] w₁.nowSeconds input w.db = [] := by simp [resetEvents, accessEvents, hplace]
      have hdb : w'.db = resetCredentials env w₁.nowSeconds input w.db := by
        rw [hw', resetBatch, revokeAccessIf, hplace]
        rfl
      have hlog : w'.log = w.log := by
        rw [hw', hev]
        rfl
      have hi' : DeviceInv w' := hi.keep (by rw [hdb]; rfl) (by rw [hdb]; rfl) (.of_eq hlog)
      refine ⟨hi', .of_silent hlog (by rw [hdb]; rfl) fun _ => by rw [hw']; exact FamilyMono.refl _, ?_, nofun⟩
      show wpE _ (do revokeRefreshFamilyDurableObjects _; pure _) _ _ _
      rw [wpE_bind]
      refine revokeRefreshFamilyDurableObjects_wpE hΓ ht trivial hi' fun w _ _ => ?_
      intro who _ he
      rw [resetBatch, heff] at he
      cases he

theorem revokeApp_safe {u cl : String} {w : World} :
    wpE ((deviceOutline env).protocol (.revokeApp u cl)) ((DeviceCall.revokeApp u cl).code env)
      (fun a => (deviceOutline env).post (.revokeApp u cl) (.ok a))
      (fun x => (deviceOutline env).post (.revokeApp u cl) (.error x)) w := by
  have hΓ := device_tolerant env (.revokeApp u cl)
  have ht := stable_true ((deviceOutline env).protocol (.revokeApp u cl))
  have hdel : ((deviceOutline env).protocol (.revokeApp u cl)).Stable fun w => Event.consentDeleted u cl ∈ w.log :=
    fun _ _ h hr _ => hr.log.mem h
  rw [DeviceCall.code, wpE_bind]
  refine revokeApp_wpE hΓ ht hdel (cleared_stable (u, some cl) (.consentDeleted u cl)) trivial ?_ ?_ ?_ (fun _ => nofun)
    fun b w hcl => ?_
  · intro w e _ hi _
    have hlog : (unconsentedWorld u cl w).log = [.consentDeleted u cl] ++ w.log := rfl
    exact ⟨hi.deleteConsent u cl, .of_rows hlog (by simp) (RowsRevoked.refl _) fun _ => FamilyMono.refl _,
      List.mem_cons_self⟩
  · intro w e now hw hi w' _
    refine ⟨hi.keep rfl rfl ⟨[_], rfl, by simp [withdrawal]⟩, follows_revoked _ _ _ (by simp), ?_⟩
    refine Cleared.now (List.mem_cons_of_mem _ hw) fun r' hr' hp => ?_
    obtain ⟨r, -, hk, hrev⟩ := revokeRows_revoked hr'
    exact hrev (decide_eq_true ⟨hk.userId ▸ hp.1, hk.clientId ▸ hp.2 cl rfl⟩)
  · rintro w w' hcl hi ⟨grants, rfl⟩
    have hg : DeviceCall.guar (.revokeApp u cl) w { w with db := { w.db with grants } } :=
      .of_silent rfl rfl fun _ => FamilyMono.refl _
    exact ⟨hi.keep rfl rfl (.of_eq rfl), hg, hcl.follows reached_kept hg⟩
  · intro who hwho _
    cases hwho
    exact hcl

/-! ## The exchange -/

theorem DeviceInv.issued {w : World} (hi : DeviceInv w) (now : Nat) (input : IssueRefreshInput)
    (row : RefreshTokenRow) : DeviceInv (issuedWorld now input row w) := by
  obtain ⟨rows, hdb⟩ := issueBatch_frame now input row w.db
  refine hi.keep (by rw [issuedWorld, hdb]) (by rw [issuedWorld, hdb]) ⟨_, rfl, fun x hx => ?_⟩
  rcases issueEvents_cases now input row w.db with ⟨h, -⟩ | ⟨h, -⟩ <;> rw [h] at hx <;>
    rw [List.mem_singleton.1 hx] <;> rfl

section

variable {f : String} {w : World} {now : Nat} {row : RefreshTokenRow}

theorem Unborn.inserted (hw : Unborn f w) (input : IssueRefreshInput) :
    Owned f row.userId row.clientId (issuedWorld now input row w) := by
  intro r' hr' hid
  rcases issueBatch_rows hr' with ⟨r, hr, hk⟩ | ⟨hk, -⟩
  · exact absurd (hk.id.symm.trans hid) (hw.2 r hr)
  · exact ⟨hk.userId, hk.clientId⟩

theorem Unborn.refused (hw : Unborn f w) (input : IssueRefreshInput)
    (hg : sessionGuard now input w.db = false) : Unborn f (issuedWorld now input row w) := by
  have hev : issueEvents now input row w.db = [.familyRefused row.id] := by simp [issueEvents, hg]
  refine ⟨fun hm => hw.1 ?_, fun r' hr' hid => ?_⟩
  · simpa [issuedWorld, hev] using hm
  · rcases issueBatch_rows hr' with ⟨r, hr, hk⟩ | ⟨-, h, -⟩
    · exact hw.2 r hr (hk.id.symm.trans hid)
    · rw [hg] at h
      cases h

end

theorem familyIdOf_token {f : String} (hf : IsFamilyId f) (secret : String) : familyIdOf (f ++ "." ++ secret) = f := by
  have hall : ∀ x ∈ f.toList, (decide (x ≠ '.')) = true := by
    intro x hx
    refine decide_eq_true ?_
    rintro rfl
    exact hf.2 hx
  rw [familyIdOf, String.toList_append, String.toList_append, List.append_assoc, List.takeWhile_append_of_pos hall]
  simp

section

variable {client : ClientRow} {session : DeviceRow} {f secret grantId : String} {w : World}

/-- A response that is not returned leaves no live family. -/
theorem withdraw_safe (hf : IsFamilyId f) {response : TokenResponse}
    (hr : response.refreshToken = some (f ++ "." ++ secret)) :
    wpE ((deviceOutline env).protocol (.exchange client session f secret grantId)) (withdrawDeviceFamily response)
      (fun _ => Dead f) (fun x _ => x = .storage) w := by
  have hΓ := (device_tolerant env (.exchange client session f secret grantId)).mild
  have ht := stable_true (mild ((deviceOutline env).protocol (.exchange client session f secret grantId)))
  have hid : (response.refreshToken.map familyIdOf).filter (· ≠ "") = some f := by
    simp [hr, familyIdOf_token hf, hf.1]
  unfold withdrawDeviceFamily
  rw [hid]
  dsimp only
  rw [wpE_bind]
  refine wpE_of_mild (wpE_imp (fun _ _ h => h.2) (fun _ _ h => h) _ (wpE_all hΓ.ok And.left (fun _ => ht)
    (fun _ _ _ h hr _ => Dead.rely h hr rfl) (fun x _ _ h _ _ => h) ?_ ?_))
  · exact revokeFamily_wpE hΓ ht trivial f (fun _ _ _ _ _ _ => trivial) fun _ _ _ => rfl
  · rw [markRefreshTokenRevoked, wpE_bind]
    refine wpE_clock hΓ.toClocked ht trivial fun w₁ _ _ => ?_
    refine wpE_d1Logged hΓ.toClocked ht trivial ?_ fun _ _ _ => rfl
    rintro w w' - - hi rfl -
    have hfollow : ∀ {E : Event → Prop}, E (.familiesRevoked [f]) → Follows E w
        { w with db := revokeRows w₁.nowSeconds (·.id = f) w.db, log := [.familiesRevoked [f]] ++ w.log } := by
      intro E hE
      refine .of_rows rfl (fun x hx => ?_) (rowsRevoked_update _ _ _) fun _ => FamilyMono.refl _
      rw [List.mem_singleton.1 hx]
      exact hE
    refine ⟨hi.keep rfl rfl ⟨_, rfl, by simp [withdrawal]⟩, ⟨hfollow nofun, hfollow nofun⟩, ?_, rfl⟩
    intro r' hr' hid
    obtain ⟨r, -, hk, hrev⟩ := revokeRows_revoked hr'
    exact hrev (decide_eq_true (hk.id.symm.trans hid))

/-- What is known of the family once the tokens are made: it is the user's and the client's, and
without a refresh token there is none. -/
def Made (f secret userId clientId : String) (response : TokenResponse) (w : World) : Prop :=
  Owned f userId clientId w ∧
    (response.refreshToken = none ∧ Unborn f w ∨ response.refreshToken = some (f ++ "." ++ secret))

theorem Made.rely {c : DeviceCall} {u cl : String} {response : TokenResponse} {w' : World}
    (h : Made f secret u cl response w) (hr : c.rely w w') (hf : c.family = some f) :
    Made f secret u cl response w' :=
  ⟨h.1.rely hr hf, h.2.imp (fun hn => ⟨hn.1, hn.2.rely hr hf⟩) fun h => h⟩

theorem not_mem_older {x : Event} {w : World} (h : x ∉ w.log) (y : Event) :
    AlwaysWhen (fun older => x ∉ older) y w.log := by
  intro newer older hlog hx
  refine h ?_
  rw [hlog]
  exact List.mem_append_right _ (List.mem_cons_of_mem _ hx)

/-- The second look: a live session and a covering consent were there after the insert, so neither
had been withdrawn by then. -/
theorem recheck_safe {u browserSessionId resource : String} {scopes : List String} {response : TokenResponse}
    (hi : DeviceInv w) (hm : Made f secret u client.clientId response w) :
    wpE ((deviceOutline env).protocol (.exchange client session f secret grantId))
      (all 0 (getSessionById browserSessionId)
        (consentCoversScopes env u client.clientId resource scopes client.metadataFingerprint))
      (fun r w => Made f secret u client.clientId response w ∧
        ((r.1.any (·.userId = u) && r.2) = true → BeforeWithdrawal env f u client.clientId w.log))
      (fun x _ => x = .storage) w := by
  have hc := (device_tolerant env (.exchange client session f secret grantId)).toClocked
  have hs : ∀ x, (quiet ((deviceOutline env).protocol (.exchange client session f secret grantId))).Stable
      fun _ => x = Failure.storage := fun _ _ _ h _ _ => h
  have hM : (quiet ((deviceOutline env).protocol (.exchange client session f secret grantId))).Stable
      (Made f secret u client.clientId response) := fun _ _ h hr _ => h.rely hr rfl
  -- what held before the insertion holds whatever follows
  have hS : ∀ Q, (quiet ((deviceOutline env).protocol (.exchange client session f secret grantId))).Stable
      fun w => AlwaysWhen Q (.familyInserted f) w.log := fun _ _ _ h hr _ => always_rely h hr rfl
  refine wpE_of_quiet hc (wpE_imp ?_ (fun _ _ h => h) _ (wpE_all hc.quiet.ok (quiet_self hc)
    (Q := fun s w => Made f secret u client.clientId response w ∧ (s.any (·.userId = u) = true →
      AlwaysWhen (fun older => Event.userRevoked u ∉ older) (.familyInserted f) w.log))
    (R := fun b w => b = true → env.yolo = false →
      AlwaysWhen (fun older => Event.consentDeleted u client.clientId ∉ older) (.familyInserted f) w.log)
    ?_ ?_ hs ?_ ?_))
  · rintro ⟨s, b⟩ w ⟨⟨h1, h2⟩, h3⟩
    refine ⟨h1, fun h => ?_⟩
    rw [Bool.and_eq_true] at h
    exact ⟨h2 h.1, h3 h.2⟩
  · exact fun s w w' h hr hi => ⟨hM h.1 hr hi, fun ha => hS _ (h.2 ha) hr hi⟩
  · exact fun b w w' h hr hi hb hy => hS _ (h hb hy) hr hi
  · refine getSessionById_wpE hc.quiet hM hm (R := fun s w => s.userId = u →
      AlwaysWhen (fun older => Event.userRevoked u ∉ older) (.familyInserted f) w.log) ?_ ?_ ?_ ?_ fun _ _ _ => rfl
    · exact fun s w w' h hr hi hu => hS _ (h hu) hr hi
    -- a live session shows that its user was not revoked
    · intro w s _ hi hs hlive hu
      obtain ⟨hmem, -⟩ := Table.get?_eq_some.1 hs
      exact not_mem_older (fun hx => hi.sessions u hx s hmem hu hlive) _
    · exact fun w hm _ => ⟨hm, nofun⟩
    · exact fun s w hm hR _ _ => ⟨hm, fun h => hR (by simpa [toSession] using h)⟩
  · refine consentCoversScopes_wpE hc.quiet (stable_true _) trivial hi ?_ ?_ fun _ _ _ => rfl
    · intro hy w _ _ _ hn
      rw [hy] at hn
      cases hn
    · intro _ w _ hi hcov _
      -- and a consent that covers shows that it was not deleted
      obtain ⟨k, hk, -⟩ := (Option.any_eq_true _ _).1 hcov
      obtain ⟨hmem, hkey⟩ := Table.get?_eq_some.1 hk
      simp only [Prod.mk.injEq] at hkey
      obtain ⟨hu, hcl, -⟩ := hkey
      exact not_mem_older (fun hx => hi.consents _ _ hx k hmem hu hcl) _

/-- The end of an exchange, from the second look on. -/
theorem answer_safe (hf : IsFamilyId f) {user : UserRow} (hu : session.userId = some user.id)
    {browserSessionId resource : String} {scopes : List String} {response : TokenResponse}
    (hi : DeviceInv w) (hm : Made f secret user.id client.clientId response w) :
    wpE ((deviceOutline env).protocol (.exchange client session f secret grantId))
      (do
        let (sessionAfterIssue, consentAfterIssue) ← all 0 (getSessionById browserSessionId)
          (consentCoversScopes env user.id client.clientId resource scopes client.metadataFingerprint)
        if !(sessionAfterIssue.any (·.userId = user.id) && consentAfterIssue) then
          withdrawDeviceFamily response
          throw (deviceRevoked "authorization changed while device tokens were being issued")
        else
          recordAuthorizationGrant grantId
            { userId := user.id, clientId := client.clientId, sessionId := none, scope := session.scope,
              resource := resource, grantType := DEVICE_CODE_GRANT }
          recordAudit
          recordAudit
          pure response)
      (fun a => wpE ((deviceOutline env).protocol (.exchange client session f secret grantId))
        (pure (DeviceAnswer.tokens a)) (fun a => Exchanged env client session f (.ok a))
        fun x => Exchanged env client session f (.error x))
      (fun x => Exchanged env client session f (.error x)) w := by
  have hΓ := device_tolerant env (.exchange client session f secret grantId)
  have hc := hΓ.toClocked
  have hstorage : ∀ x w, x = Failure.storage → Exchanged env client session f (.error x) w := fun x w h h' => absurd h h'
  rw [wpE_bind]
  refine wpE_mono (fun r w hi h => ?_) (fun x w _ h => hstorage x w h) _ hi (recheck_safe hi hm)
  obtain ⟨s, b⟩ := r
  obtain ⟨hm, hbefore⟩ := h
  dsimp only at hbefore ⊢
  split
  · rw [wpE_bind]
    rcases hm.2 with ⟨hnone, hunborn⟩ | hsome
    · -- nothing to withdraw: no refresh token, so no family
      unfold withdrawDeviceFamily
      rw [hnone]
      exact fun _ => hunborn.dead
    · exact wpE_imp (fun _ w hd _ => hd) (fun x w h => hstorage x w h) _ (withdraw_safe hf hsome)
  · rename_i hok
    have hbefore := hbefore (by simpa using hok)
    set K : World → Prop := fun w => Owned f user.id client.clientId w ∧
      BeforeWithdrawal env f user.id client.clientId w.log with hK
    have hKs : ((deviceOutline env).protocol (.exchange client session f secret grantId)).Stable K :=
      fun _ _ h hr _ => ⟨h.1.rely hr rfl, h.2.rely hr rfl⟩
    have hk : K w := ⟨hm.1, hbefore⟩
    rw [wpE_bind, recordAuthorizationGrant, wpE_bind]
    refine wpE_clock hc hKs hk fun w₁ hk _ => ?_
    rw [d1]
    refine wpE_d1Logged hc hKs hk ?_ fun w _ _ => hstorage _ w rfl
    rintro w w' - hk hi hw' -
    have hk : K w' := by
      rw [hw']
      exact hk
    have hi' : DeviceInv w' := by
      rw [hw']
      exact hi.keep rfl rfl (.of_eq rfl)
    refine ⟨hi', ?_, ?_, hstorage _ _ rfl⟩
    · rw [hw']
      exact .of_silent rfl rfl fun _ => FamilyMono.refl _
    rw [wpE_bind, recordAudit]
    refine wpE_query hc hKs hk (fun w hk _ => ?_) fun w _ _ => hstorage _ w rfl
    rw [wpE_bind]
    refine wpE_query hc hKs hk (X := fun x => Exchanged env client session f (.error x)) (fun w hk _ => ?_) fun w _ _ =>
      hstorage _ w rfl
    intro v hv
    rw [hu] at hv
    cases hv
    exact hk

/-- An exchange meets its triple. -/
theorem exchange_safe (hf : IsFamilyId f) (hi : DeviceInv w) (hw : Unborn f w) :
    wpE ((deviceOutline env).protocol (.exchange client session f secret grantId))
      ((DeviceCall.exchange client session f secret grantId).code env)
      (fun a => Exchanged env client session f (.ok a)) (fun x => Exchanged env client session f (.error x)) w := by
  have hΓ := device_tolerant env (.exchange client session f secret grantId)
  have hc := hΓ.toClocked
  -- until the object is created the family is unborn, whatever the others do
  have hU : ((deviceOutline env).protocol (.exchange client session f secret grantId)).Stable (Unborn f) :=
    fun _ _ h hr _ => h.rely hr rfl
  have hdead : ∀ {x w}, Unborn f w → Exchanged env client session f (.error x) w := fun h _ => h.dead
  have hstorage : ∀ w, Exchanged env client session f (.error .storage) w := fun w h => absurd rfl h
  rw [DeviceCall.code, map_eq_pure_bind, wpE_bind, issueDeviceTokens]
  split
  · rename_i u resource browserSessionId authTime hu _ _ _
    rw [wpE_bind]
    refine wpE_mono (fun checks w hi h => ?_) (fun x w _ h => hdead h) _ hi (grantChecks_user hc hU hw hi)
    obtain ⟨hw, huser⟩ := h
    split
    · exact hdead hw
    · exact hdead hw
    · rename_i user hres hfound
      have hid : user.id = u := huser user (by
        obtain ⟨hmem, -⟩ := Option.filter_eq_some_iff.1 hfound
        exact hmem)
      rw [wpE_bind, wpE_require]
      refine ⟨fun _ => ?_, fun _ => hdead hw⟩
      split
      · exact hdead hw
      -- the row of the device is consumed
      · rw [wpE_bind, consumeApprovedDevice, d1]
        refine wpE_d1Logged hc hU hw ?_ fun w hw _ => hdead hw
        rintro w w' - hw hi hw' -
        have hw : Unborn f w' := by
          rw [hw']
          exact hw
        have hi' : DeviceInv w' := by
          rw [hw']
          exact hi.keep rfl rfl (.of_eq rfl)
        refine ⟨hi', ?_, ?_, hdead hw⟩
        · rw [hw']
          exact .of_silent rfl rfl fun _ => FamilyMono.refl _
        rw [wpE_bind, wpE_require]
        refine ⟨fun _ => ?_, fun _ => hdead hw⟩
        subst hid
        rw [wpE_bind]
        -- the tokens, once with the row written and once with it refused
        refine issueUserTokens_wpE hΓ ?_ (A := Owned f user.id client.clientId) (B := Unborn f)
          (X := fun x => Exchanged env client session f (.error x)) ?_ hU
          (fun _ _ h hr _ => h.rely hr rfl) hU hw ?_ ?_ (fun w hw _ => hdead hw) hstorage ?_ ?_
        · rfl
        · exact fun _ _ h hr _ => (hr.mono f).alive h
        · exact fun w now data hw hi => ⟨hi.keep rfl rfl (.of_eq rfl), follows_create f now data w, hw⟩
        · intro w now tokenHash expiresAt _ hw hi w' _
          refine ⟨hi.issued _ _ _, ?_, fun _ => hw.inserted _, fun hg => hw.refused _ hg⟩
          exact follows_issue now _ _ w (fun g hg => by cases hg; rfl) nofun
        · exact fun response w hw hi hnone =>
            answer_safe hf hu hi ⟨fun r hr hid => absurd hid (hw.2 r hr), Or.inl ⟨hnone, hw⟩⟩
        · exact fun response w hw hi hsome => answer_safe hf hu hi ⟨hw, Or.inr hsome⟩
  · exact hdead hw

end

theorem device_valid : (deviceOutline env).Valid where
  symm := fun h f hd hc => h f hc hd
  besideSymm := fun _ => trivial
  arrives := fun hc t ht => ⟨fun f htf hcf => (hc f hcf).2.2 t ht htf, fun _ => trivial⟩
  traceArrives := fun h f hf => by
    obtain ⟨c, hc, hcf⟩ := h f hf
    exact ⟨c, List.mem_append_left _ hc, hcf⟩
  traceStep := by
    intro cs c w w' hc h hg f hf
    by_cases hcf : c.family = some f
    · exact ⟨c, hc, hcf⟩
    · exact h f (hg.log.old (fun hE => hcf (hE f rfl)) hf)
  ok := fun c => (device_tolerant env c).ok
  compat := fun ha _ _ hg => device_compat ha hg
  stable := device_stable
  settled := fun ha _ hg hi h => device_stable _ _ h (device_compat ha hg) hi
  safe := by
    intro P c hc hP
    apply wp_of_wpE
    cases c with
    | exchange client session f secret grantId =>
      obtain ⟨hf, hrow, hfresh⟩ := hc f rfl
      refine exchange_safe hf hP.inv ⟨fun hm => ?_, Table.get?_eq_none.1 hrow⟩
      -- a recorded insert of `f` is the work of a call that drew it
      obtain ⟨d, hd, hdf⟩ := hP.trace f hm
      obtain ⟨t, ht, rfl⟩ := List.mem_map.1 hd
      exact hfresh t ht hdf
    | revokeAll userId => exact revokeAll_safe
    | reset input => exact reset_safe
    | revokeApp userId clientId => exact revokeApp_safe

end

/-- Device-code exchange against revocation. In every pool reachable from a world without history,
take an exchange and a revocation of the same user that took effect (a reset, if it replaced the
password; an app revocation, if it is about the exchange's client and consent is asked for), both
finished without a failed storage call of the exchange's own: no live family of the exchange remains,
and if the revocation's first write precedes the family's insert, the exchange returned no tokens. -/
theorem device_exchange_against_revocation (env : Env) (w₀ : World) (hlog : w₀.log = [])
    (P : Pool DeviceCall Input World (Except Failure DeviceAnswer)) (hP : (deviceSystem env).Reach ⟨w₀, []⟩ P)
    (client : ClientRow) (session : DeviceRow) (f secret grantId : String) (r : Except Failure DeviceAnswer)
    (hr : (.exchange client session f secret grantId, .done r) ∈ P.threads) (hstorage : r ≠ .error .storage)
    (revocation : DeviceCall) (who : String × Option String) (hwho : revocation.revokes = some who)
    (heffect : (revocation, .done (.ok (.revoked true))) ∈ P.threads) (huser : session.userId = some who.1)
    (hclient : ∀ c ∈ who.2, c = client.clientId ∧ env.yolo = false) :
    (∀ row ∈ P.store.db.refreshTokens, row.id = f → row.revokedAt ≠ none) ∧
    (RecordedWhen (fun older => firstWrite who ∈ older) (.familyInserted f) P.store.log → ∀ a, r ≠ .ok a) := by
  have h₀ : DeviceInv w₀ := by
    refine ⟨fun u hu => ?_, fun u c hc => ?_⟩
    · rw [hlog] at hu
      cases hu
    · rw [hlog] at hc
      cases hc
  have hH := device_valid.reach (Outline.holds_start h₀ (by simp [deviceOutline, hlog])) hP
  have hcl : Cleared (Reached who) (firstWrite who) P.store := by
    have := hH.post heffect
    cases revocation with
    | exchange client session f secret grantId => cases hwho
    | revokeAll userId => exact this who hwho rfl
    | reset input => exact this who hwho rfl
    | revokeApp userId clientId => exact this who hwho rfl
  have hex : Exchanged env client session f r P.store := hH.post hr
  cases r with
  | error x => exact ⟨hex fun hx => hstorage (hx ▸ rfl), fun _ => nofun⟩
  | ok a =>
    obtain ⟨howned, hbefore⟩ := hex who.1 huser
    have hfirst : AlwaysWhen (fun older => firstWrite who ∉ older) (.familyInserted f) P.store.log := by
      obtain ⟨u, c⟩ := who
      cases c with
      | none => exact hbefore.sessions
      | some c =>
        obtain ⟨rfl, hyolo⟩ := hclient c rfl
        exact hbefore.consents hyolo
    refine ⟨fun row hrow hid => ?_, ?_⟩
    · obtain ⟨h1, h2⟩ := howned row hrow hid
      refine hcl.revoked hrow ⟨h1, fun c hc => h2.trans (hclient c hc).1.symm⟩ ?_
      rw [hid]
      exact hfirst
    · rintro ⟨newer, older, hlog, hx⟩
      exact absurd hx (hfirst newer older hlog)

/-! ## Runs -/

def sampleExchange : DeviceCall :=
  .exchange Deployment.client Deployment.device "rtf_a" "secret" "grant_a"

theorem sampleExchange_arrives (env : Env)
    {P : Pool DeviceCall Input World (Except Failure DeviceAnswer)} (hrow : P.store.db.refreshTokens.get? "rtf_a" = none)
    (hfresh : ∀ t ∈ P.threads, t.1.family = none) : (deviceSystem env).arrive P sampleExchange := by
  intro f hf
  cases hf
  refine ⟨⟨by decide, by decide⟩, hrow, fun t ht => ?_⟩
  rw [hfresh t ht]
  nofun

/-- The exchange inserts its family, all sessions of the user are revoked, and then the exchange
looks again. -/
def deviceSchedule : List (System.Move DeviceCall Input) :=
  .arrive sampleExchange :: (List.replicate 12 (.run 0 Deployment.ok) ++
    .arrive (.revokeAll "usr_a") :: (List.replicate 3 (.run 1 Deployment.ok) ++ (List.replicate 6 (.run 0 Deployment.ok) ++
      [])))

theorem device_exchange_against_revocation_withdrawn :
    let P := (deviceSystem Deployment.env).moves ⟨Deployment.world, []⟩ deviceSchedule
    Event.familyInserted "rtf_a" ∈ P.store.log ∧
      ∀ row ∈ P.store.db.refreshTokens, row.id = "rtf_a" → row.revokedAt ≠ none := by
  intro P
  have hall : ∀ s e s', (deviceSystem Deployment.env).allow s e s' := fun _ _ _ => trivial
  have hreach : (deviceSystem Deployment.env).Reach ⟨Deployment.world, []⟩ P := by
    refine System.reach_moves deviceSchedule ⟨?_, System.allows_runs hall _ _ _ ⟨nofun,
      System.allows_runs hall _ _ _ (System.allows_runs hall _ _ _ trivial)⟩⟩
    exact sampleExchange_arrives _ (by decide) fun t ht => (List.not_mem_nil ht).elim
  have hdone : P.finished 0 = some (sampleExchange, .error (deviceRevoked
      "authorization changed while device tokens were being issued")) := by rfl
  have hrevoked : P.finished 1 = some (.revokeAll "usr_a", .ok (.revoked true)) := by rfl
  exact ⟨by decide, (device_exchange_against_revocation _ Deployment.world rfl P hreach _ _ _ _ _ _
    (Pool.mem_of_finished hdone) nofun (.revokeAll "usr_a") _ rfl (Pool.mem_of_finished hrevoked) rfl nofun).1⟩

/-- A reset whose version has passed. -/
def staleReset : DeviceCall :=
  .reset { userId := "usr_a", password := "correct horse", expectedSecurityVersion := 0, verifyEmail := false,
           credentialId := "pwd_b", salt := "salt" }

/-- A stale reset runs after the exchange. -/
def staleSchedule : List (System.Move DeviceCall Input) :=
  .arrive sampleExchange :: (List.replicate 19 (.run 0 Deployment.ok) ++
    .arrive staleReset :: (List.replicate 3 (.run 1 Deployment.ok) ++ []))

/-- The application's access is revoked before the exchange begins. -/
def yoloSchedule : List (System.Move DeviceCall Input) :=
  .arrive (.revokeApp "usr_a" "app") :: (List.replicate 6 (.run 0 Deployment.ok) ++
    .arrive sampleExchange :: (List.replicate 19 (.run 1 Deployment.ok) ++ []))

/-- Two revocations that leave a live family behind: a reset that takes no effect, and in YOLO mode
an app revocation. Both calls finish and no storage call fails. -/
theorem device_exchange_outlives_revocation :
    (let P := (deviceSystem Deployment.env).moves ⟨Deployment.world, []⟩ staleSchedule
     (deviceSystem Deployment.env).Reach ⟨Deployment.world, []⟩ P ∧
      (∃ response, P.finished 0 = some (sampleExchange, .ok (.tokens response))) ∧
      P.finished 1 = some (staleReset, .ok (.revoked false)) ∧
      ∃ row ∈ P.store.db.refreshTokens, row.id = "rtf_a" ∧ row.revokedAt = none) ∧
    (let env : Env := { Deployment.env with yolo := true }
     let P := (deviceSystem env).moves ⟨Deployment.world, []⟩ yoloSchedule
     (deviceSystem env).Reach ⟨Deployment.world, []⟩ P ∧
      P.finished 0 = some (.revokeApp "usr_a" "app", .ok (.revoked true)) ∧
      (∃ response, P.finished 1 = some (sampleExchange, .ok (.tokens response))) ∧
      ∃ row ∈ P.store.db.refreshTokens, row.id = "rtf_a" ∧ row.revokedAt = none) := by
  have hall : ∀ env s e s', (deviceSystem env).allow s e s' := fun _ _ _ _ => trivial
  refine ⟨⟨?_, ⟨_, rfl⟩, rfl, ?_⟩, ⟨?_, rfl, ⟨_, rfl⟩, ?_⟩⟩
  · refine System.reach_moves staleSchedule ⟨?_, System.allows_runs (hall _) _ _ _ ⟨nofun,
      System.allows_runs (hall _) _ _ _ trivial⟩⟩
    exact sampleExchange_arrives _ (by decide) fun t ht => (List.not_mem_nil ht).elim
  · exact ⟨_, List.mem_cons_self, rfl, rfl⟩
  · refine System.reach_moves yoloSchedule ⟨nofun, System.allows_runs (hall _) _ _ _ ⟨?_,
      System.allows_runs (hall _) _ _ _ trivial⟩⟩
    exact sampleExchange_arrives _ (by decide) fun t ht => by
      rw [List.mem_singleton.1 ht]
      rfl
  · exact ⟨_, List.mem_cons_self, rfl, rfl⟩

end Keyforge.Grant
