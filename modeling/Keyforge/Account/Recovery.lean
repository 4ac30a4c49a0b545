/-
The security epoch of emailed capabilities. Magic links, password resets, invitations and email
changes carry the security version their user had at issue. However their minting and redemption
interleave with each other and with everything that moves a version, a redemption changes something
only while its user is enabled and at that version, and of the resets, invitations and email changes
of one version at most one takes effect, since it moves the version.
-/
import Keyforge.Auth.Epoch
import Keyforge.Deployment
import Keyforge.Do.Consume
import Keyforge.History
import Keyforge.Lib.Pool
import Keyforge.OAuth.Checks
import Keyforge.Routes.Recovery

namespace Keyforge.Account

open Lib Db Tokens Auth Routes OAuth Do

/-! ## What a step can do -/

/-- The address and the version of a user. -/
def face (db : Database) (id : String) : Option (String × Nat) :=
  (db.users.get? id).map fun u => (u.email, u.securityVersion)

theorem version_of_face {db db' : Database} {id : String} (h : face db' id = face db id) : version db' id = version db id := by
  have hface : ∀ db : Database, version db id = (face db id).map Prod.snd := by
    intro db
    rw [version, face, Option.map_map]
    rfl
  rw [hface, hface, h]

def isRedeemed : Event → Bool
  | .redeemed _ _ _ => true
  | _ => false

/-- Passwords, addresses and versions are what they were, and no session is created. -/
structure Unchanged (w w' : World) : Prop where
  passwords : w'.db.passwordCredentials = w.db.passwordCredentials
  users : ∀ id, face w'.db id = face w.db id
  sessions : SessionsKept w.db w'.db
  log : Continues (fun x => isRedeemed x = false) w w'

/-- A session is created for the user of a capability minted at `v`, who is enabled and still at `v`. -/
structure SignsIn (h uid : String) (v : Nat) (w w' : World) : Prop where
  minted : Event.minted h uid v ∈ w.log
  epoch : (w.db.users.get? uid).any (atVersion v) = true
  passwords : w'.db.passwordCredentials = w.db.passwordCredentials
  users : ∀ id, face w'.db id = face w.db id
  sessions : ∀ s' ∈ w'.db.sessions, s' ∈ w.db.sessions ∨ s'.userId = uid
  log : Continues (fun x => isRedeemed x = false) w w'

/-- The passwords or the address of the user of a capability minted at `v` change, the user being
enabled and still at `v`; the version moves on, and nothing of other users changes. -/
structure Transits (h uid : String) (v : Nat) (w w' : World) : Prop where
  minted : Event.minted h uid v ∈ w.log
  epoch : (w.db.users.get? uid).any (atVersion v) = true
  moved : version w'.db uid = some (v + 1)
  passwords : ∀ r, r.userId ≠ uid → (r ∈ w'.db.passwordCredentials ↔ r ∈ w.db.passwordCredentials)
  users : ∀ id, id ≠ uid → face w'.db id = face w.db id
  sessions : SessionsKept w.db w'.db
  log : ∃ revoked, (∀ x ∈ revoked, isRedeemed x = false) ∧ w'.log = .redeemed h uid v :: revoked ++ w.log

/-- What a step of the redemption of the token with hash `h` can do. -/
def Redeems (h : String) (w w' : World) : Prop :=
  Unchanged w w' ∨ ∃ uid v, SignsIn h uid v w w' ∨ Transits h uid v w w'

/-- No user is lost, and no version goes down. -/
def VersionsGrow (db db' : Database) : Prop :=
  ∀ id v, version db id = some v → ∃ v', version db' id = some v' ∧ v ≤ v'

theorem VersionsGrow.of_eq {db db' : Database} (h : ∀ id, version db' id = version db id) : VersionsGrow db db' :=
  fun id v hv => ⟨v, (h id).trans hv, le_refl v⟩

theorem VersionsGrow.of_transition {db db' : Database} (h : Transition db db') : VersionsGrow db db' := by
  intro id v hv
  rcases h.versions id with he | ⟨⟨n, hn, hn'⟩, -⟩
  · exact ⟨v, he.trans hv, le_refl v⟩
  · rw [hv] at hn
    cases hn
    exact ⟨v + 1, hn', Nat.le_succ v⟩

/-- An update of the users that keeps the versions or moves them up. -/
theorem VersionsGrow.of_update {db db' : Database} {p : UserRow → Bool} {f : UserRow → UserRow}
    (hf : ∀ u, (f u).id = u.id) (h : db'.users = db.users.update p f hf)
    (hup : ∀ u, u.securityVersion ≤ (f u).securityVersion) : VersionsGrow db db' := by
  intro id v hv
  rw [version, Option.map_eq_some_iff] at hv
  obtain ⟨u, hu, rfl⟩ := hv
  rw [version_update h, hu, Option.map_some]
  refine ⟨_, rfl, ?_⟩
  split
  · exact hup u
  · exact le_refl _

/-! ## The invariant -/

/-- The event is a reset, an invitation or an email change of the user, minted at `v`, that took
effect. -/
def redemptionOf (uid : String) (v : Nat) : Event → Bool
  | .redeemed _ u n => u = uid && n = v
  | _ => false

/-- Every stored capability was minted at the version it carries; versions at which a transition took
effect are passed; and at each of them at most one did. -/
structure EpochInv (w : World) : Prop where
  tokens : ∀ h p, (w.oneTimeTokens h).value = some p → Event.minted h p.userId p.securityVersion ∈ w.log
  passed : ∀ h uid v, Event.redeemed h uid v ∈ w.log → ∃ n, version w.db uid = some n ∧ v < n
  once : ∀ uid v, (w.log.filter (redemptionOf uid v)).length ≤ 1

theorem redemptionOf_of_isRedeemed {x : Event} (h : isRedeemed x = false) (uid : String) (v : Nat) :
    redemptionOf uid v x = false := by
  cases x with
  | redeemed _ _ _ => cases h
  | _ => rfl

theorem filter_redemption_of_none {ext : List Event} (h : ∀ x ∈ ext, isRedeemed x = false) (uid : String) (v : Nat) :
    ext.filter (redemptionOf uid v) = [] := by
  rw [List.filter_eq_nil_iff]
  intro x hx
  rw [redemptionOf_of_isRedeemed (h x hx)]
  exact Bool.false_ne_true

/-- How the stored capabilities may change: none is altered, and a new one was minted. -/
def TokensMinted (w w' : World) : Prop :=
  ∀ h p, (w'.oneTimeTokens h).value = some p →
    (w.oneTimeTokens h).value = some p ∨ Event.minted h p.userId p.securityVersion ∈ w'.log

theorem TokensMinted.of_eq {w w' : World} (h : w'.oneTimeTokens = w.oneTimeTokens) : TokensMinted w w' :=
  fun t p hp => Or.inl (by rw [← h]; exact hp)

/-- One step that redeems nothing for good. -/
theorem EpochInv.step {w w' : World} (hi : EpochInv w) (hlog : Continues (fun x => isRedeemed x = false) w w')
    (htokens : TokensMinted w w') (hgrow : VersionsGrow w.db w'.db) : EpochInv w' := by
  have hmem := hlog
  obtain ⟨ext, hext, hnone⟩ := hlog
  refine ⟨fun h p hp => ?_, fun h uid v hv => ?_, fun uid v => ?_⟩
  · rcases htokens h p hp with hp | hm
    · exact hmem.mem (hi.tokens h p hp)
    · exact hm
  · obtain ⟨n, hn, hlt⟩ := hi.passed h uid v (hmem.old (by simp [isRedeemed]) hv)
    obtain ⟨n', hn', hle⟩ := hgrow uid n hn
    exact ⟨n', hn', lt_of_lt_of_le hlt hle⟩
  · rw [hext, List.filter_append, filter_redemption_of_none hnone, List.nil_append]
    exact hi.once uid v

/-- A transition: the version it moves had not been used up. -/
theorem EpochInv.transit {w w' : World} (hi : EpochInv w) {h uid : String} {v : Nat} (ht : Transits h uid v w w')
    (htokens : TokensMinted w w') (hgrow : VersionsGrow w.db w'.db) : EpochInv w' := by
  obtain ⟨revoked, hnone, hlog⟩ := ht.log
  have hcur : version w.db uid = some v := by
    obtain ⟨u, hu, hat⟩ := Option.any_eq_true _ _ |>.1 ht.epoch
    simp only [atVersion, Bool.and_eq_true, decide_eq_true_eq] at hat
    rw [version, hu, Option.map_some, hat.2]
  have hold : ∀ {x}, x ∈ w.log → x ∈ w'.log := fun hx => by
    rw [hlog]
    exact List.mem_append_right _ hx
  refine ⟨fun t p hp => ?_, fun t u n hn => ?_, fun u n => ?_⟩
  · rcases htokens t p hp with hp | hm
    · exact hold (hi.tokens t p hp)
    · exact hm
  · rw [hlog, List.cons_append, List.mem_cons, List.mem_append] at hn
    rcases hn with hn | hn | hn
    · cases hn
      exact ⟨v + 1, ht.moved, Nat.lt_succ_self v⟩
    · cases hnone _ hn
    · obtain ⟨m, hm, hlt⟩ := hi.passed t u n hn
      obtain ⟨m', hm', hle⟩ := hgrow u m hm
      exact ⟨m', hm', lt_of_lt_of_le hlt hle⟩
  · rw [hlog, List.filter_append, List.filter_cons, filter_redemption_of_none hnone]
    by_cases heq : redemptionOf u n (.redeemed h uid v) = true
    · -- an earlier one at this version would have moved it
      simp only [redemptionOf, Bool.and_eq_true, decide_eq_true_eq] at heq
      have hfirst : w.log.filter (redemptionOf u n) = [] := by
        rw [List.filter_eq_nil_iff]
        intro x hx hred
        cases x with
        | redeemed t a b =>
          simp only [redemptionOf, Bool.and_eq_true, decide_eq_true_eq] at hred
          obtain ⟨m, hm, hlt⟩ := hi.passed t a b hx
          rw [hred.1, ← heq.1, hcur] at hm
          cases hm
          omega
        | _ => cases hred
      rw [hfirst]
      split <;> simp
    · rw [if_neg heq, List.nil_append]
      exact hi.once u n

/-! ## The protocol -/

/-- The protocol of a request; `token` is the hash of the capability it redeems, if it redeems one. -/
def epochProtocol (token : Option String) : Protocol Input World where
  inv := EpochInv
  rely := Continues fun _ => True
  guar := fun w w' => Continues (fun _ => True) w w' ∧ VersionsGrow w.db w'.db ∧ ∀ h, token = some h → Redeems h w w'
  allow := fun _ _ _ => True

section

variable {token : Option String} {w w' : World}

theorem epoch_unchanged (hi : EpochInv w) (hu : Unchanged w w') (htokens : TokensMinted w w') :
    EpochInv w' ∧ (epochProtocol token).guar w w' := by
  have hgrow : VersionsGrow w.db w'.db := .of_eq fun id => version_of_face (hu.users id)
  exact ⟨hi.step hu.log htokens hgrow, hu.log.imp fun _ _ => trivial, hgrow, fun _ _ => Or.inl hu⟩

/-- A step that writes neither users, passwords, sessions nor capabilities, and records nothing. -/
theorem epoch_silent (hi : EpochInv w) (husers : w'.db.users = w.db.users)
    (hpasswords : w'.db.passwordCredentials = w.db.passwordCredentials) (hsessions : w'.db.sessions = w.db.sessions)
    (htokens : w'.oneTimeTokens = w.oneTimeTokens) (hlog : w'.log = w.log) :
    EpochInv w' ∧ (epochProtocol token).guar w w' :=
  epoch_unchanged hi ⟨hpasswords, fun _ => by rw [face, husers, face], .of_eq hsessions, .of_eq hlog⟩ (.of_eq htokens)

theorem epoch_tolerant (token : Option String) : Tolerant (epochProtocol token) where
  ok := ⟨fun _ => .of_eq rfl, fun h₁ h₂ => h₁.trans h₂⟩
  tickInv := fun _ h => ⟨h.tokens, h.passed, h.once⟩
  tickRely := fun _ _ => .of_eq rfl
  tickGuar := fun _ _ => ⟨.of_eq rfl, .of_eq fun _ => rfl, fun _ _ => Or.inl ⟨rfl, fun _ => rfl, .of_eq rfl, .of_eq rfl⟩⟩
  tickAllow := fun _ h => h
  guarTick := by
    rintro w w' dt ⟨h1, h2, h3⟩
    refine ⟨h1, h2, fun h ht => ?_⟩
    rcases h3 h ht with hu | ⟨uid, v, hs | ht⟩
    · exact Or.inl ⟨hu.passwords, hu.users, hu.sessions, hu.log⟩
    · exact Or.inr ⟨uid, v, Or.inl ⟨hs.minted, hs.epoch, hs.passwords, hs.users, hs.sessions, hs.log⟩⟩
    · exact Or.inr ⟨uid, v, Or.inr ⟨ht.minted, ht.epoch, ht.moved, ht.passwords, ht.users, ht.sessions, ht.log⟩⟩
  burnInv := by
    rintro w w' ⟨dt, b, rfl⟩ hi
    exact ⟨hi.tokens, hi.passed, hi.once⟩
  burnRely := fun hb => .of_eq hb.log
  burnGuar := by
    rintro w w' ⟨dt, b, rfl⟩
    exact ⟨.of_eq rfl, .of_eq fun _ => rfl, fun _ _ => Or.inl ⟨rfl, fun _ => rfl, .of_eq rfl, .of_eq rfl⟩⟩

theorem epoch_self {a b : World} (h : (epochProtocol token).guar a b) : (epochProtocol token).rely a b := h.1

theorem minted_stable (h uid : String) (v : Nat) :
    (epochProtocol token).Stable fun w => Event.minted h uid v ∈ w.log :=
  fun _ _ hm hr _ => hr.mem hm

/-! ## Capabilities -/

/-- A call on a one-time object that stores nothing new. -/
theorem epoch_token (hi : EpochInv w) (tokenHash : String) {s : OneTimeStorage AccountOneTimeTokenPayload}
    (hs : ∀ p, s.value = some p → (w.oneTimeTokens tokenHash).value = some p ∨
      Event.minted tokenHash p.userId p.securityVersion ∈ w.log) :
    EpochInv { w with oneTimeTokens := Function.update w.oneTimeTokens tokenHash s } ∧
      (epochProtocol token).guar w { w with oneTimeTokens := Function.update w.oneTimeTokens tokenHash s } := by
  refine epoch_unchanged hi ⟨rfl, fun _ => rfl, .of_eq rfl, .of_eq rfl⟩ fun h p hp => ?_
  by_cases he : h = tokenHash
  · subst he
    simp only [Function.update_self] at hp
    exact hs p hp
  · simp only [Function.update_of_ne he] at hp
    exact Or.inl hp

variable {P : World → Prop} {X : Failure → World → Prop}

/-- A capability that is consumed was minted for its user at the version it carries. -/
theorem consumeToken_wpE (tokenHash : String) {Q : ConsumeResult AccountOneTimeTokenPayload → World → Prop}
    (hnone : ∀ w, EpochInv w → Q .notFound w)
    (hfound : ∀ p w, EpochInv w → Event.minted tokenHash p.userId p.securityVersion ∈ w.log → Q (.found p) w)
    (hX : ∀ w, X .storage w) : wpE (epochProtocol token) (consumeToken tokenHash) Q X w := by
  rw [consumeToken, tokenObject]
  refine wpE_io (epoch_tolerant token).toClocked (stable_true _) trivial (fun w _ _ hi _ => ?_) fun w _ _ => hX w
  obtain ⟨h1, h2⟩ : EpochInv _ ∧ (epochProtocol token).guar w _ :=
    epoch_token hi tokenHash fun p hp => Or.inl (OneTimeStorage.value_consume hp)
  refine ⟨h1, h2, ?_, fun _ => hX _⟩
  dsimp only
  cases hr : ((w.oneTimeTokens tokenHash).consume w.nowMs).1 with
  | notFound => exact hnone _ h1
  | found p => exact hfound p _ h1 (hi.tokens tokenHash p (OneTimeStorage.consume_found hr))

theorem storeToken_wpE (tokenHash : String) (payload : AccountOneTimeTokenPayload) (ttlSeconds : Nat)
    (hw : Event.minted tokenHash payload.userId payload.securityVersion ∈ w.log) :
    wpE (epochProtocol token) (storeToken tokenHash payload ttlSeconds) (fun _ _ => True) (fun _ _ => True) w := by
  rw [storeToken, tokenObject]
  refine wpE_io (epoch_tolerant token).toClocked (minted_stable _ _ _) hw (fun w _ hm hi _ => ?_) fun _ _ _ => trivial
  obtain ⟨h1, h2⟩ : EpochInv _ ∧ (epochProtocol token).guar w _ := by
    refine epoch_token hi tokenHash (s := (w.oneTimeTokens tokenHash).store w.nowMs payload ttlSeconds) fun p hp => ?_
    cases hp
    exact Or.inr hm
  exact ⟨h1, h2, trivial, fun _ => trivial⟩

/-- The version a capability will carry is recorded with it. -/
theorem mintedVersion_wpE (tokenHash userId : String) {Q : Nat → World → Prop}
    (hQ : ∀ v w, EpochInv w → Event.minted tokenHash userId v ∈ w.log → Q v w) (hX : ∀ x w, X x w) :
    wpE (epochProtocol token) (mintedVersion tokenHash userId) Q X w := by
  rw [mintedVersion, wpE_bind]
  refine wpE_d1Logged (epoch_tolerant token).toClocked (stable_true _) trivial ?_ fun w _ _ => hX _ w
  rintro w w' - - hi hw' -
  have hlog : Continues (fun x => isRedeemed x = false) w w' := by
    refine ⟨mintEvents tokenHash userId w.db, by rw [hw'], fun x hx => ?_⟩
    simp only [mintEvents, List.mem_map] at hx
    obtain ⟨u, -, rfl⟩ := hx
    rfl
  obtain ⟨h1, h2⟩ : EpochInv w' ∧ (epochProtocol token).guar w w' := by
    refine epoch_unchanged hi ⟨?_, ?_, ?_, hlog⟩ (.of_eq (by rw [hw']))
    · rw [hw']
    · intro id
      rw [hw']
    · exact .of_eq (by rw [hw'])
  refine ⟨h1, h2, ?_, hX _ _⟩
  dsimp only
  cases hu : w.db.users.get? userId with
  | none => exact hX _ _
  | some u =>
    refine hQ u.securityVersion w' h1 ?_
    rw [hw', mintEvents, hu]
    simp

/-! ## Minting and peeking -/

theorem createEmailToken_keeps (purpose : OneTimeTokenPurpose) (env : Env) (t id userId email : String) :
    Keeps (epochProtocol token) (createEmailToken purpose env t id userId email) := by
  have hΓ := epoch_tolerant token
  refine .bind (.clock hΓ.toClocked) fun now w hi => ?_
  rw [wpE_bind]
  refine mintedVersion_wpE _ _ (fun v w hi hm => ?_) fun _ _ => trivial
  rw [wpE_bind]
  refine Keeps.wpE (.d1 hΓ.toClocked fun w w' _ hi hw' _ => ?_) epoch_self (minted_stable _ _ _) hm hi
    (fun stored w hm _ => ?_) fun _ _ _ _ => trivial
  · subst hw'
    split <;> exact epoch_silent hi rfl rfl rfl rfl rfl
  · rw [wpE_bind, wpE_require]
    refine ⟨fun _ => ?_, fun _ => trivial⟩
    rw [wpE_bind]
    exact storeToken_wpE _ _ _ hm

theorem createPasswordResetToken_keeps (env : Env) (t id userId email : String) (options : PasswordResetTokenOptions) :
    Keeps (epochProtocol token) (createPasswordResetToken env t id userId email options) := by
  have hΓ := epoch_tolerant token
  refine .bind (.clock hΓ.toClocked) fun now w hi => ?_
  rw [wpE_bind]
  refine mintedVersion_wpE _ _ (fun v w hi hm => ?_) fun _ _ => trivial
  rw [wpE_bind]
  refine Keeps.wpE (.d1 hΓ.toClocked fun w w' _ hi hw' _ => ?_) epoch_self (minted_stable _ _ _) hm hi
    (fun stored w hm _ => ?_) fun _ _ _ _ => trivial
  · subst hw'
    split <;> exact epoch_silent hi rfl rfl rfl rfl rfl
  · rw [wpE_bind, wpE_require]
    refine ⟨fun _ => ?_, fun _ => trivial⟩
    rw [wpE_bind]
    exact storeToken_wpE _ _ _ hm

theorem createMagicLink_keeps (env : Env) (t : String) (input : MagicLinkInput) :
    Keeps (epochProtocol token) (createMagicLink env t input) := by
  have hΓ := epoch_tolerant token
  refine .bind (.select hΓ.toClocked _) fun user w hi => ?_
  rw [wpE_bind]
  refine mintedVersion_wpE _ _ (fun v w hi hm => ?_) fun _ _ => trivial
  split
  · trivial
  · rw [wpE_bind]
    exact storeToken_wpE _ _ _ hm

theorem currentMagicLink_quiet (result : ConsumeResult AccountOneTimeTokenPayload) : Quiet (currentMagicLink result) := by
  unfold currentMagicLink
  split
  · exact .pure _
  · exact .ite (.pure _) (.bind (.select _) fun _ => .pure _)

theorem peekMagicLink_quiet (env : Env) (t : String) : Quiet (peekMagicLink env t) :=
  .bind (.query _) fun _ => currentMagicLink_quiet _

theorem peekEmailToken_quiet (env : Env) (t : String) (purpose : OneTimeTokenPurpose) :
    Quiet (peekEmailToken env t purpose) := by
  refine .bind (.query _) fun result => ?_
  split
  · exact .pure _
  · exact .ite (.pure _) (.bind .clock fun _ => .bind (.select _) fun _ => .pure _)

theorem peekPasswordResetToken_quiet (env : Env) (t : String) : Quiet (peekPasswordResetToken env t) := by
  refine .bind (.query _) fun result => ?_
  split
  · exact .pure _
  · exact .ite (.pure _) (.bind .clock fun _ => .bind (.select _) fun _ =>
      .ite (.pure _) (.bind (.select _) fun _ => .pure _))

/-! ## Consuming -/

theorem consumeEmailToken_wpE (purpose : OneTimeTokenPurpose) (env : Env) (t : String)
    {Q : Option AccountOneTimeTokenPayload → World → Prop} (hnone : ∀ w, EpochInv w → Q none w)
    (hsome : ∀ p w, EpochInv w → Event.minted (hashOpaqueToken env t) p.userId p.securityVersion ∈ w.log →
      Q (some p) w) (hX : ∀ x w, X x w) : wpE (epochProtocol token) (consumeEmailToken purpose env t) Q X w := by
  have hΓ := epoch_tolerant token
  rw [consumeEmailToken, wpE_bind]
  refine consumeToken_wpE _ hnone (fun p w hi hm => ?_) fun w => hX _ w
  dsimp only
  split
  · exact hnone w hi
  · rw [wpE_bind]
    refine wpE_clock hΓ.toClocked (minted_stable _ _ _) hm fun w hm hi => ?_
    rw [wpE_bind]
    refine Keeps.wpE (.d1 hΓ.toClocked fun w w' _ hi hw' _ => ?_) epoch_self (minted_stable _ _ _) hm hi
      (fun changed w hm hi => ?_) fun x w _ _ => hX x w
    · subst hw'
      exact epoch_silent hi rfl rfl rfl rfl rfl
    · rw [wpE_pure]
      split
      · exact hsome p w hi hm
      · exact hnone w hi

theorem consumePasswordResetToken_wpE (env : Env) (t : String)
    {Q : Option AccountOneTimeTokenPayload → World → Prop} (hnone : ∀ w, EpochInv w → Q none w)
    (hsome : ∀ p w, EpochInv w → Event.minted (hashOpaqueToken env t) p.userId p.securityVersion ∈ w.log →
      Q (some p) w) (hX : ∀ x w, X x w) : wpE (epochProtocol token) (consumePasswordResetToken env t) Q X w := by
  have hΓ := epoch_tolerant token
  rw [consumePasswordResetToken, wpE_bind]
  refine consumeToken_wpE _ hnone (fun p w hi hm => ?_) fun w => hX _ w
  dsimp only
  split
  · exact hnone w hi
  · rw [wpE_bind]
    refine wpE_clock hΓ.toClocked (minted_stable _ _ _) hm fun w hm hi => ?_
    rw [wpE_bind]
    refine Keeps.wpE (.d1 hΓ.toClocked fun w w' _ hi hw' _ => ?_) epoch_self (minted_stable _ _ _) hm hi
      (fun changed w hm hi => ?_) fun x w _ _ => hX x w
    · subst hw'
      exact epoch_silent hi rfl rfl rfl rfl rfl
    · rw [wpE_pure]
      split
      · exact hsome p w hi hm
      · exact hnone w hi

theorem consumeMagicLink_wpE (env : Env) (t : String)
    {Q : Option AccountOneTimeTokenPayload → World → Prop} (hnone : ∀ w, EpochInv w → Q none w)
    (hsome : ∀ p w, EpochInv w → Event.minted (hashOpaqueToken env t) p.userId p.securityVersion ∈ w.log →
      Q (some p) w) (hX : ∀ x w, X x w) : wpE (epochProtocol token) (consumeMagicLink env t) Q X w := by
  have hc := (epoch_tolerant token).toClocked
  rw [consumeMagicLink, wpE_bind]
  refine consumeToken_wpE _ hnone (fun p w hi hm => ?_) fun w => hX _ w
  rw [currentMagicLink]
  split
  · exact hnone w hi
  · rw [wpE_bind]
    refine wpE_select hc (minted_stable _ _ _) hm (fun w hm hi => ?_) fun w _ _ => hX _ w
    rw [wpE_pure]
    split
    · exact hsome p w hi hm
    · exact hnone w hi

/-! ## Redeeming -/

theorem face_update {db db' : Database} {p : UserRow → Bool} {f : UserRow → UserRow} (hf : ∀ u, (f u).id = u.id)
    (h : db'.users = db.users.update p f hf) (id : String) :
    face db' id = (db.users.get? id).map fun u =>
      if p u then ((f u).email, (f u).securityVersion) else (u.email, u.securityVersion) := by
  rw [face, h, Table.get?_update hf, Option.map_map]
  refine Option.map_congr fun u _ => ?_
  simp only [Function.comp]
  split <;> rfl

theorem accessEvents_continue {effective : Bool} {userId : String} {x : Event} (hx : x ∈ accessEvents effective userId) :
    isRedeemed x = false := by
  unfold accessEvents at hx
  split at hx
  · rw [List.mem_singleton.1 hx]
    rfl
  · cases hx

/-- An update of a user that does not enable or disable it. -/
theorem updateUser_unchanged {id : String} {patch : UserPatch} (hpatch : patch.disabled = none) :
    Keeps (epochProtocol token) (updateUser id patch) := by
  have hΓ := epoch_tolerant token
  refine keeps_updateUser hΓ fun now current => .d1Logged hΓ.toClocked fun w w' _ hi hw' _ => ?_
  have hsame : (patch.next current).disabled = current.disabled := by simp [UserPatch.next, hpatch]
  have hoff : ∀ db, updateInPlace now current (patch.next current) db = false := by
    intro db
    simp [updateInPlace, hsame]
  have hdb : w'.db = updateUserStatement now current (patch.next current) w.db := by
    rw [hw', updateUserBatch, hoff]
    rfl
  refine epoch_unchanged hi ⟨by rw [hdb]; rfl, fun id => ?_, .of_eq (by rw [hdb]; rfl), ?_⟩ (.of_eq (by rw [hw']))
  · rw [hdb, face_update (updatedUser_id now current (patch.next current)) rfl, face]
    refine Option.map_congr fun u _ => ?_
    simp [updatedUser, hsame]
  · refine ⟨updateUserEvents now current (patch.next current) w.db, by rw [hw'], fun x hx => accessEvents_continue hx⟩

theorem revokeSessions_unchanged (p : SessionRow → Bool) (q : Database → RefreshTokenRow → Bool) :
    Keeps (epochProtocol token) (revokeSessions none p q) := by
  have hΓ := epoch_tolerant token
  refine .bind (.clock hΓ.toClocked) fun now => .bind (.d1Logged hΓ.toClocked fun w w' _ hi hw' _ => ?_) fun r =>
    .bind (keeps_revokeRefreshFamilyDurableObjects hΓ r.2) fun _ => .pure _
  refine epoch_unchanged hi ⟨by rw [hw']; rfl, fun _ => by rw [hw']; rfl, ?_, ?_⟩ (.of_eq (by rw [hw']))
  · rw [hw']
    exact .revoke now p w.db
  · refine ⟨revokeEvents none now p q w.db, by rw [hw'], fun x hx => ?_⟩
    simp only [revokeEvents, Option.toList_none, List.map_nil, List.nil_append, List.mem_cons, List.not_mem_nil,
      or_false] at hx
    rcases hx with rfl | rfl <;> rfl

/-- The insert of a magic link's session. -/
theorem createSessionAtSecurityVersion_wpE {h : String} {env : Env} {input : CreateSessionInput} {v : Nat}
    {sessionId sessionToken : String} (hm : Event.minted h input.userId v ∈ w.log)
    {Q : Option CreatedSession → World → Prop} (hQ : ∀ r w, EpochInv w → Q r w) (hX : ∀ x w, X x w) :
    wpE (epochProtocol (some h)) (createSessionAtSecurityVersion env input v sessionId sessionToken) Q X w := by
  have hc := (epoch_tolerant (some h)).toClocked
  rw [createSessionAtSecurityVersion, wpE_bind]
  refine wpE_clock hc (minted_stable _ _ _) hm fun w₁ hm _ => ?_
  rw [wpE_bind]
  refine wpE_d1Logged hc (minted_stable _ _ _) hm ?_ fun w _ _ => hX _ w
  rintro w w' - hm hi hw' -
  suffices hstep : EpochInv w' ∧ (epochProtocol (some h)).guar w w' from ⟨hstep.1, hstep.2, hQ _ _ hstep.1, hX _ _⟩
  cases hg : (w.db.users.get? input.userId).any (atVersion v) with
  | false =>
    -- the guard fails: nothing is inserted
    have hdb : w'.db = w.db := by simp [hw', insertSession, createdRow, hg]
    have hlog : w'.log = w.log := by simp [hw', sessionEvents, createdRow, hg]
    exact epoch_silent hi (by rw [hdb]) (by rw [hdb]) (by rw [hdb]) (by rw [hw']) hlog
  | true =>
    have hdb : w'.db = { w.db with
        sessions := w.db.sessions.insert (createdRow env w₁.nowSeconds input sessionId sessionToken) } := by
      simp [hw', insertSession, createdRow, hg]
    have hlog : Continues (fun x => isRedeemed x = false) w w' := by
      refine ⟨[.sessionCreated sessionId input.userId], by simp [hw', sessionEvents, createdRow, hg], fun x hx => ?_⟩
      rw [List.mem_singleton.1 hx]
      rfl
    have hsigns : SignsIn h input.userId v w w' := by
      refine ⟨hm, hg, by rw [hdb], fun _ => by rw [hdb]; rfl, fun s' hs' => ?_, hlog⟩
      rw [hdb] at hs'
      rcases Table.mem_insert.1 hs' with hs | ⟨rfl, -⟩
      · exact Or.inl hs
      · exact Or.inr rfl
    have hgrow : VersionsGrow w.db w'.db := .of_eq fun _ => by rw [hdb]; rfl
    refine ⟨hi.step hlog (.of_eq (by rw [hw'])) hgrow, hlog.imp fun _ _ => trivial, hgrow, ?_⟩
    rintro _ ⟨⟩
    exact Or.inr ⟨_, _, Or.inl hsigns⟩

/-- The batch of a reset: nothing, or a transition. -/
theorem resetBatch_redeems {h : String} {env : Env} {now : Nat} {input : PasswordResetInput} (hi : EpochInv w)
    (hm : Event.minted h input.userId input.expectedSecurityVersion ∈ w.log)
    (hw' : w' = { w with
      db := (resetBatch env now input w.db).2
      log := resetEvents env [.redeemed h input.userId input.expectedSecurityVersion] now input w.db ++ w.log }) :
    EpochInv w' ∧ (epochProtocol (some h)).guar w w' := by
  have htransition : Transition w.db w'.db := by
    rw [hw']
    exact resetBatch_transition env input
  have hgrow := VersionsGrow.of_transition htransition
  obtain ⟨sessions, refreshTokens, hframe⟩ := revokeAccessIf_frame
    (resetInPlace input (resetCredentials env now input w.db)) now input.userId (resetCredentials env now input w.db)
  have hdb : w'.db = { resetCredentials env now input w.db with sessions, refreshTokens } := by
    rw [hw']
    exact hframe
  -- the guard decides whether anything is written
  cases hg : resetGuard input w.db with
  | false =>
    rw [resetCredentials_of_not_guard hg] at hdb
    refine epoch_unchanged hi ⟨by rw [hdb], fun _ => by rw [hdb]; rfl, htransition.sessions, ?_⟩ (.of_eq (by rw [hw']))
    refine ⟨_, by rw [hw'], fun x hx => ?_⟩
    rw [resetEvents, resetEffective_eq, hg] at hx
    exact accessEvents_continue hx
  | true =>
    obtain ⟨u, hu, hd, hv⟩ := atVersion_of_resetGuard hg
    -- the sweep of the access leaves the users alone
    have hface : ∀ id, face w'.db id = face (resetCredentials env now input w.db) id := fun _ => by rw [hdb]; rfl
    -- the version the capability was minted for is left behind
    have htransits : Transits h input.userId input.expectedSecurityVersion w w' := by
      refine ⟨hm, ?_, ?_, fun r hr => ?_, fun id hid => ?_, htransition.sessions, ?_⟩
      · rw [hu, Option.any_some, atVersion, hd, hv]
        simp
      · rw [version_of_face (hface _), version, resetCredentials_users hg, hu]
        simp [resetUser, bump, hv]
      · rw [hdb]
        simp only [resetCredentials, hg, if_true]
        rw [Table.mem_insert, Table.mem_delete]
        constructor
        · rintro (⟨h, -⟩ | ⟨rfl, -⟩)
          · exact h
          · exact absurd rfl hr
        · exact fun h => Or.inl ⟨h, by simp [hr]⟩
      · rw [hface, face, resetCredentials_users hg, face, Option.map_map]
        simp [hid, Function.comp_def]
      · refine ⟨accessEvents (resetInPlace input (resetCredentials env now input w.db)) input.userId,
          fun x hx => accessEvents_continue hx, ?_⟩
        rw [hw', resetEvents, resetEffective_eq, hg]
        rfl
    refine ⟨hi.transit htransits (.of_eq (by rw [hw'])) hgrow, ⟨_, by rw [hw'], fun _ _ => trivial⟩, hgrow, ?_⟩
    rintro _ ⟨⟩
    exact Or.inr ⟨_, _, Or.inr htransits⟩

/-- The batch of an email change: nothing, or a transition. -/
theorem emailBatch_redeems {h : String} {now : Nat} {change : EmailChange} (hi : EpochInv w)
    (hm : Event.minted h change.id change.expectedSecurityVersion ∈ w.log)
    (hw' : w' = { w with
      db := (emailBatch now change w.db).2
      log := emailEvents [.redeemed h change.id change.expectedSecurityVersion] now change w.db ++ w.log }) :
    EpochInv w' ∧ (epochProtocol (some h)).guar w w' := by
  -- what the batch does to the users
  have htransition : Transition w.db w'.db := by
    rw [hw']
    exact emailBatch_transition change
  have hgrow := VersionsGrow.of_transition htransition
  obtain ⟨sessions, refreshTokens, hframe⟩ := revokeAccessIf_frame (emailInPlace now change (emailStatement now change w.db))
    now change.id (emailStatement now change w.db)
  have hdb : w'.db = { emailStatement now change w.db with sessions, refreshTokens } := by
    rw [hw']
    exact hframe
  have hface : ∀ id, face w'.db id = (w.db.users.get? id).map fun u =>
      if emailGuard change w.db u then (change.email, u.securityVersion + 1) else (u.email, u.securityVersion) := by
    intro id
    rw [hdb]
    exact face_update (changedEmail_id now change) rfl id
  -- the guard is about one user
  have hother : ∀ u id, w.db.users.get? id = some u → id ≠ change.id → emailGuard change w.db u = false := by
    intro u id hu hid
    obtain ⟨-, hk⟩ := Table.get?_eq_some.1 hu
    simp [emailGuard, hk, hid]
  cases hg : emailEffective change w.db with
  -- the guard fails: nothing is redeemed
  | false =>
    refine epoch_unchanged hi ⟨by rw [hdb]; rfl, fun id => ?_, htransition.sessions, ?_⟩ (.of_eq (by rw [hw']))
    · rw [hface, face]
      refine Option.map_congr fun u hu => ?_
      by_cases hid : id = change.id
      · subst hid
        rw [emailEffective, hu, Option.any_some] at hg
        rw [hg]
        rfl
      · rw [hother u id hu hid]
        rfl
    · refine ⟨_, by rw [hw'], fun x hx => ?_⟩
      rw [emailEvents, hg] at hx
      exact accessEvents_continue hx
  -- the guard holds: the version moves on
  | true =>
    obtain ⟨u, hu, hguard⟩ := Option.any_eq_true _ _ |>.1 hg
    have hat : atVersion change.expectedSecurityVersion u = true := by
      simp only [emailGuard, Bool.and_eq_true] at hguard
      exact hguard.1.2
    have htransits : Transits h change.id change.expectedSecurityVersion w w' := by
      refine ⟨hm, by rw [hu]; exact hat, ?_, fun r _ => by rw [hdb]; rfl, fun id hid => ?_, htransition.sessions, ?_⟩
      · have hv : version w'.db change.id = (face w'.db change.id).map Prod.snd := by
          rw [version, face, Option.map_map]
          rfl
        simp only [atVersion, Bool.and_eq_true, decide_eq_true_eq] at hat
        rw [hv, hface, hu]
        simp [hguard, hat.2]
      · rw [hface, face]
        refine Option.map_congr fun u hu => ?_
        rw [hother u id hu hid]
        rfl
      · refine ⟨accessEvents (emailInPlace now change (emailStatement now change w.db)) change.id,
          fun x hx => accessEvents_continue hx, ?_⟩
        rw [hw', emailEvents, hg]
        rfl
    refine ⟨hi.transit htransits (.of_eq (by rw [hw'])) hgrow, ⟨_, by rw [hw'], fun _ _ => trivial⟩, hgrow, ?_⟩
    rintro _ ⟨⟩
    exact Or.inr ⟨_, _, Or.inr htransits⟩

/-- The rest of a redemption, once its capability is consumed: the minting stays known. -/
theorem redeems_of_knowing {α : Type} {h uid : String} {v : Nat} {p : App α}
    (hp : Keeps ((epochProtocol (some h)).knowing fun w => Event.minted h uid v ∈ w.log) p)
    (hi : EpochInv w) (hm : Event.minted h uid v ∈ w.log) :
    wpE (epochProtocol (some h)) p (fun _ _ => True) (fun _ _ => True) w :=
  hp.knowing (minted_stable h uid v) hm hi

theorem signInWithLink_redeems {env : Env} {form : MagicForm} {payload : AccountOneTimeTokenPayload}
    {h : String} (hm : Event.minted h payload.userId payload.securityVersion ∈ w.log) :
    wpE (epochProtocol (some h)) (signInWithLink env form payload) (fun _ _ => True) (fun _ _ => True) w := by
  have hΓ := epoch_tolerant (some h)
  rw [signInWithLink, wpE_bind]
  refine wpE_select hΓ.toClocked (minted_stable _ _ _) hm (fun w hm hi => ?_) fun _ _ _ => trivial
  split
  · trivial
  · rename_i user huser
    obtain ⟨hget, -⟩ := Option.filter_eq_some_iff.1 huser
    obtain ⟨-, hid⟩ := Table.get?_eq_some.1 hget
    have hmark : Keeps (epochProtocol (some h)) (markEmailVerified user) := by
      unfold markEmailVerified
      exact .ite (.bind (updateUser_unchanged rfl) fun _ => .pure _) (.pure _)
    rw [wpE_bind]
    refine hmark.wpE epoch_self (minted_stable _ _ _) hm hi (fun _ w hm hi => ?_) fun _ _ _ _ => trivial
    rw [wpE_bind]
    refine createSessionAtSecurityVersion_wpE (hid ▸ hm) (fun r w hi => ?_) fun _ _ => trivial
    have haudit : Keeps (epochProtocol (some h)) recordAudit := .of_quiet hΓ.toClocked recordAudit_quiet
    refine (?_ : Keeps (epochProtocol (some h)) _) w hi
    split
    · exact .pure _
    · dsimp only
      split
      · exact .bind (keeps_replaceReauthenticatedSession revokeSessions_unchanged _ _ _) fun _ =>
          .bind haudit fun _ => .pure _
      · exact .bind haudit fun _ => .pure _

theorem applyReset_redeems {env : Env} {form : ResetForm} {payload : AccountOneTimeTokenPayload}
    (hm : Event.minted (hashOpaqueToken env form.token) payload.userId payload.securityVersion ∈ w.log) :
    wpE (epochProtocol (some (hashOpaqueToken env form.token))) (applyReset env form payload)
      (fun _ _ => True) (fun _ _ => True) w := by
  have hΓ := epoch_tolerant (some (hashOpaqueToken env form.token))
  rw [applyReset, wpE_bind, resetUserOf, wpE_bind]
  refine wpE_select hΓ.toClocked (minted_stable _ _ _) hm (fun w hm hi => ?_) fun _ _ _ => trivial
  rw [wpE_pure]
  split
  · trivial
  · rename_i user huser
    obtain ⟨hget, -⟩ := Option.filter_eq_some_iff.1 huser
    obtain ⟨-, hid⟩ := Table.get?_eq_some.1 hget
    rw [hid]
    refine redeems_of_knowing (.bind ?_ fun set => ?_) hi hm
    · refine keeps_setUserPasswordAtSecurityVersion (hΓ.knowing (minted_stable _ _ _)) fun now => ?_
      refine .d1Logged (hΓ.knowing (minted_stable _ _ _)).toClocked fun w w' _ hi hw' _ => ?_
      obtain ⟨h1, h2⟩ := resetBatch_redeems hi.1 hi.2 hw'
      exact ⟨⟨h1, h2.1.mem hi.2⟩, h2⟩
    · have haudit : Quiet recordAudit := recordAudit_quiet
      dsimp only
      split
      · exact .bind (.of_quiet (hΓ.knowing (minted_stable _ _ _)).toClocked haudit) fun _ => .pure _
      · exact .pure _

theorem applyEmailChange_redeems {env : Env} {t : String} {payload : AccountOneTimeTokenPayload}
    (hm : Event.minted (hashOpaqueToken env t) payload.userId payload.securityVersion ∈ w.log) (hi : EpochInv w) :
    wpE (epochProtocol (some (hashOpaqueToken env t))) (applyEmailChange env t payload)
      (fun _ _ => True) (fun _ _ => True) w := by
  have hΓ := (epoch_tolerant (some (hashOpaqueToken env t))).knowing
    (minted_stable (hashOpaqueToken env t) payload.userId payload.securityVersion)
  refine redeems_of_knowing (.bind (.select hΓ.toClocked _) fun user => ?_) hi hm
  split
  · exact .pure _
  · refine .bind ?_ fun result => ?_
    · rw [updateUserEmail]
      refine .bind (.clock hΓ.toClocked) fun now => .bind (.d1Logged hΓ.toClocked fun w w' _ hi hw' _ => ?_) fun r =>
        .bind (keeps_revokeRefreshFamilyDurableObjects hΓ r.2) fun _ =>
          .ite (.pure _) (.bind (.select hΓ.toClocked _) fun _ => .pure _)
      obtain ⟨h1, h2⟩ := emailBatch_redeems hi.1 hi.2 hw'
      exact ⟨⟨h1, h2.1.mem hi.2⟩, h2⟩
    · dsimp only
      split
      · exact .bind (.of_quiet hΓ.toClocked recordAudit_quiet) fun _ => .pure _
      · exact .pure _

theorem magicCallback_redeems (env : Env) (form : MagicForm) :
    Keeps (epochProtocol (some (hashOpaqueToken env form.token))) (magicCallback env form) := by
  have hΓ := epoch_tolerant (some (hashOpaqueToken env form.token))
  refine .ite (.pure _) (.bind (.of_quiet hΓ.toClocked (peekMagicLink_quiet _ _)) fun _ w hi => ?_)
  rw [wpE_bind]
  refine consumeMagicLink_wpE env form.token (fun _ _ => trivial) (fun p w _ hm => ?_) fun _ _ => trivial
  exact signInWithLink_redeems hm

theorem passwordReset_redeems (env : Env) (form : ResetForm) :
    Keeps (epochProtocol (some (hashOpaqueToken env form.token))) (passwordReset env form) := by
  have hΓ := epoch_tolerant (some (hashOpaqueToken env form.token))
  refine .ite (.pure _) (.bind (.of_quiet hΓ.toClocked (peekPasswordResetToken_quiet _ _)) fun pending => ?_)
  split
  · exact .pure _
  · refine .bind (.bind (.select hΓ.toClocked _) fun _ => .pure _) fun user => ?_
    split
    · exact .pure _
    · refine .bind (.select hΓ.toClocked _) fun administrator => .ite (.pure _) fun w hi => ?_
      rw [wpE_bind]
      refine consumePasswordResetToken_wpE env form.token (fun _ _ => trivial) (fun p w _ hm => ?_) fun _ _ => trivial
      exact applyReset_redeems hm

theorem emailChange_redeems (env : Env) (t : String) :
    Keeps (epochProtocol (some (hashOpaqueToken env t))) (emailChange env t) := by
  refine .ite (.pure _) fun w hi => ?_
  rw [wpE_bind, consumeEmailChangeToken]
  refine consumeEmailToken_wpE _ env t (fun _ _ => trivial) (fun p w hi hm => ?_) fun _ _ => trivial
  exact applyEmailChange_redeems hm hi

theorem emailVerify_redeems (env : Env) (t : String) :
    Keeps (epochProtocol (some (hashOpaqueToken env t))) (emailVerify env t) := by
  have hΓ := epoch_tolerant (some (hashOpaqueToken env t))
  refine .ite (.pure _) fun w hi => ?_
  rw [wpE_bind, consumeEmailVerificationToken]
  refine consumeEmailToken_wpE _ env t (fun _ _ => trivial) (fun p w hi hm => ?_) fun _ _ => trivial
  refine (?_ : Keeps (epochProtocol (some (hashOpaqueToken env t))) _) w hi
  refine .bind (.select hΓ.toClocked _) fun user => ?_
  split
  · exact .pure _
  · exact .bind (updateUser_unchanged rfl) fun _ => .bind (.of_quiet hΓ.toClocked recordAudit_quiet) fun _ => .pure _

end

/-! ## The system -/

/-- The requests that run side by side: minting, peeking and redeeming, the expiry of a capability,
and everything that moves a version. -/
inductive EpochCall where
  | mintMagicLink (token : String) (input : MagicLinkInput)
  | mintReset (token id userId email : String) (options : PasswordResetTokenOptions)
  | mintInvitation (token id userId email : String)
  | mintEmailChange (token id userId newEmail : String)
  | mintEmailVerification (token id userId email : String)
  | peekMagicLink (token : String)
  | peekReset (token : String)
  | peekEmailChange (token : String)
  | peekEmailVerification (token : String)
  | redeemMagicLink (form : MagicForm)
  | redeemReset (form : ResetForm)
  | redeemEmailChange (token : String)
  | redeemEmailVerification (token : String)
  | alarm (tokenHash : String)
  | setPassword (id salt userId password name : String)
  | addPassword (id salt userId password : String) (name : Option String)
  | updateUser (id : String) (patch : UserPatch)
  | setGroups (userId : String) (groupIds : List String)
  | replaceGroups (userId : String) (groupIds : List String)
  | addMember (groupId userId : String)
  | approveMember (groupId userId : String)
  deriving DecidableEq

def EpochCall.code (env : Env) : EpochCall → App Unit
  | .mintMagicLink token input => ignore (createMagicLink env token input)
  | .mintReset token id userId email options => ignore (createPasswordResetToken env token id userId email options)
  | .mintInvitation token id userId email => ignore (createAccountInvitationToken env token id userId email)
  | .mintEmailChange token id userId newEmail => ignore (createEmailChangeToken env token id userId newEmail)
  | .mintEmailVerification token id userId email => ignore (createEmailVerificationToken env token id userId email)
  | .peekMagicLink token => ignore (Auth.peekMagicLink env token)
  | .peekReset token => ignore (peekPasswordResetToken env token)
  | .peekEmailChange token => ignore (peekEmailChangeToken env token)
  | .peekEmailVerification token => ignore (peekEmailVerificationToken env token)
  | .redeemMagicLink form => ignore (magicCallback env form)
  | .redeemReset form => ignore (passwordReset env form)
  | .redeemEmailChange token => ignore (emailChange env token)
  | .redeemEmailVerification token => ignore (emailVerify env token)
  | .alarm tokenHash => tokenObject tokenHash fun _ s => ((), s.alarmed)
  | .setPassword id salt userId password name => setUserPassword env id salt userId password name
  | .addPassword id salt userId password name => ignore (addUserPassword env id salt userId password name)
  | .updateUser id patch => ignore (Db.updateUser id patch)
  | .setGroups userId groupIds => setUserGroups userId groupIds
  | .replaceGroups userId groupIds => ignore (setUserGroupsPreservingActiveAdmin userId groupIds)
  | .addMember groupId userId => ignore (addUserToPermissionGroup groupId userId)
  | .approveMember groupId userId => ignore (approvePermissionGroupMembershipRequest groupId userId)

/-- The hash of the capability a request redeems. -/
def EpochCall.redeems (env : Env) : EpochCall → Option String
  | .redeemMagicLink form => some (hashOpaqueToken env form.token)
  | .redeemReset form => some (hashOpaqueToken env form.token)
  | .redeemEmailChange token => some (hashOpaqueToken env token)
  | .redeemEmailVerification token => some (hashOpaqueToken env token)
  | _ => none

def epochSystem (env : Env) : System EpochCall Input World (Except Failure Unit) where
  code := fun c => (c.code env).run
  allow := fun _ _ _ => True
  arrive := fun _ _ => True

/-! ## Everything that moves a version -/

section

variable {w w' : World}

/-- A step of a request that redeems nothing. -/
theorem epoch_other (hi : EpochInv w) (hlog : Continues (fun x => isRedeemed x = false) w w')
    (htokens : w'.oneTimeTokens = w.oneTimeTokens) (hgrow : VersionsGrow w.db w'.db) :
    EpochInv w' ∧ (epochProtocol none).guar w w' :=
  ⟨hi.step hlog (.of_eq htokens) hgrow, hlog.imp fun _ _ => trivial, hgrow, nofun⟩

/-- A batch that is a transition. -/
theorem epoch_transition {α : Type} {committed : Database → List Event} {stmt : Database → α × Database}
    (hevents : ∀ db, ∃ effective userId, committed db = accessEvents effective userId)
    (htransition : ∀ db, Transition db (stmt db).2) : Keeps (epochProtocol none) (d1Logged committed stmt) := by
  refine .d1Logged (epoch_tolerant none).toClocked fun w w' _ hi hw' _ => ?_
  obtain ⟨effective, userId, h⟩ := hevents w.db
  refine epoch_other hi ⟨committed w.db, by rw [hw'], fun x hx => ?_⟩ (by rw [hw']) (.of_transition ?_)
  · rw [h] at hx
    exact accessEvents_continue hx
  · rw [hw']
    exact htransition w.db

theorem setUserPassword_keeps (env : Env) (id salt userId password name : String) :
    Keeps (epochProtocol none) (setUserPassword env id salt userId password name) := by
  have hc := (epoch_tolerant none).toClocked
  refine .bind (.select hc _) fun administrator => .bind (.require _ _) fun _ => .bind (.clock hc) fun now =>
    .d1 hc fun w w' _ hi hw' _ => ?_
  refine epoch_other hi (.of_eq (by rw [hw'])) (by rw [hw']) (.of_update (bump_id now) (by rw [hw']) fun u => ?_)
  exact Nat.le_succ _

theorem addUserPassword_keeps (env : Env) (id salt userId password : String) (name : Option String) :
    Keeps (epochProtocol none) (addUserPassword env id salt userId password name) := by
  have hc := (epoch_tolerant none).toClocked
  refine .bind (.select hc _) fun administrator => .ite (.pure _) (.bind (.clock hc) fun now =>
    .bind (.d1 hc fun w w' _ hi hw' _ => ?_) fun _ => .pure _)
  refine epoch_other hi (.of_eq (by rw [hw'])) (by rw [hw']) (.of_update (bump_id now) (by rw [hw']) fun u => ?_)
  exact Nat.le_succ _

theorem membership_transition {α : Type} {now : Nat} {userId : String} {valid : Database → Bool}
    {memberships : Database → Database} {stmt : Database → α × Database}
    (hframe : ∀ db, MembershipsOnly db (memberships db))
    (hstmt : ∀ db, (stmt db).2 = (membershipBatch (valid db) memberships now userId db).2) :
    Keeps (epochProtocol none) (d1Logged (fun db => membershipEvents (valid db) memberships now userId db) stmt) := by
  refine epoch_transition (fun db => ⟨_, userId, rfl⟩) fun db => ?_
  rw [hstmt]
  exact membershipBatch_transition hframe

theorem addGroupMember_transition (groupId userId : String) (requireRequest : Bool) :
    Keeps (epochProtocol none) (addGroupMember groupId userId requireRequest) := by
  have hΓ := epoch_tolerant none
  refine keeps_addGroupMember hΓ (fun now => ?_) (.d1 hΓ.toClocked fun w w' _ hi hw' _ => ?_)
  · exact membership_transition (addMembership_frame now groupId userId requireRequest) fun _ => rfl
  · subst hw'
    exact epoch_silent hi rfl rfl rfl rfl rfl

end

theorem epochCall_keeps (env : Env) (c : EpochCall) : Keeps (epochProtocol (c.redeems env)) (c.code env) := by
  have hΓ := epoch_tolerant none
  have hc := hΓ.toClocked
  cases c with
  | mintMagicLink token input => exact .bind (createMagicLink_keeps _ _ _) fun _ => .pure _
  | mintReset token id userId email options => exact .bind (createPasswordResetToken_keeps _ _ _ _ _ _) fun _ => .pure _
  | mintInvitation token id userId email => exact .bind (createPasswordResetToken_keeps _ _ _ _ _ _) fun _ => .pure _
  | mintEmailChange token id userId newEmail => exact .bind (createEmailToken_keeps _ _ _ _ _ _) fun _ => .pure _
  | mintEmailVerification token id userId email => exact .bind (createEmailToken_keeps _ _ _ _ _ _) fun _ => .pure _
  | peekMagicLink token => exact .bind (.of_quiet hc (peekMagicLink_quiet _ _)) fun _ => .pure _
  | peekReset token => exact .bind (.of_quiet hc (peekPasswordResetToken_quiet _ _)) fun _ => .pure _
  | peekEmailChange token => exact .bind (.of_quiet hc (peekEmailToken_quiet _ _ _)) fun _ => .pure _
  | peekEmailVerification token => exact .bind (.of_quiet hc (peekEmailToken_quiet _ _ _)) fun _ => .pure _
  | redeemMagicLink form => exact .bind (magicCallback_redeems env form) fun _ => .pure _
  | redeemReset form => exact .bind (passwordReset_redeems env form) fun _ => .pure _
  | redeemEmailChange token => exact .bind (emailChange_redeems env token) fun _ => .pure _
  | redeemEmailVerification token => exact .bind (emailVerify_redeems env token) fun _ => .pure _
  | alarm tokenHash =>
    rw [EpochCall.code, tokenObject]
    refine .io hc fun w _ hi _ => ?_
    refine epoch_token hi tokenHash fun p hp => ?_
    cases hp
  | setPassword id salt userId password name => exact setUserPassword_keeps _ _ _ _ _ _
  | addPassword id salt userId password name => exact .bind (addUserPassword_keeps _ _ _ _ _ _) fun _ => .pure _
  | updateUser id patch =>
    refine .bind (keeps_updateUser hΓ fun now current => ?_) fun _ => .pure _
    exact epoch_transition (fun db => ⟨_, _, rfl⟩) fun db => updateUserBatch_transition current _
  | setGroups userId groupIds =>
    refine keeps_setUserGroups hΓ fun _ now => ?_
    exact membership_transition (fun db => (leaveGroups_frame _ _ db).trans (joinGroups_frame now _ _ _)) fun _ => rfl
  | replaceGroups userId groupIds =>
    refine .bind (keeps_setUserGroupsPreservingActiveAdmin hΓ fun _ now => ?_) fun _ => .pure _
    exact membership_transition (replaceGroups_frame now _ _) fun _ => rfl
  | addMember groupId userId => exact .bind (addGroupMember_transition _ _ _) fun _ => .pure _
  | approveMember groupId userId => exact .bind (addGroupMember_transition _ _ _) fun _ => .pure _

/-- The outline: requests rely on a growing history and keep the protocol of what they redeem. -/
def epochOutline (env : Env) : Outline (epochSystem env) where
  inv := EpochInv
  rely := fun _ => Continues fun _ => True
  guar := fun c => (epochProtocol (c.redeems env)).guar
  post := fun _ _ _ => True
  apart := fun _ _ => True
  beside := fun _ _ => True
  trace := fun _ _ => True

theorem epoch_valid (env : Env) : (epochOutline env).Valid where
  symm := fun _ => trivial
  besideSymm := fun _ => trivial
  arrives := fun _ _ _ => ⟨trivial, fun _ => trivial⟩
  traceArrives := fun _ => trivial
  traceStep := fun _ _ _ => trivial
  ok := fun _ => ⟨fun _ => .of_eq rfl, fun h₁ h₂ => h₁.trans h₂⟩
  compat := fun _ _ _ hg => hg.1
  stable := fun _ _ _ _ _ _ _ => trivial
  settled := fun _ _ _ _ _ => trivial
  safe := fun {P c} _ hP => wp_of_wpE (epochCall_keeps env c P.store hP.inv)

/-- Emailed capabilities respect the security epoch. Take any reachable state of a run that started
without history and without capabilities. Every step of a redemption either leaves passwords,
addresses and versions as they are and creates no session, or acts for the user of a capability that
was minted at the version that user still has, and the user is enabled. For each user and version, at
most one reset, invitation or email change took effect. No step of any request lowers a version. -/
theorem capabilities_respect_epochs (env : Env) (w₀ : World) (hlog : w₀.log = [])
    (htokens : ∀ h, w₀.oneTimeTokens h = .empty) (P : Pool EpochCall Input World (Except Failure Unit))
    (hP : (epochSystem env).Reach ⟨w₀, []⟩ P) :
    (∀ s pre c f k post e, P = ⟨s, pre ++ (c, .step f k) :: post⟩ →
      VersionsGrow s.db (f e s).db ∧ ∀ h, c.redeems env = some h → Redeems h s (f e s)) ∧
    ∀ uid v, (P.store.log.filter (redemptionOf uid v)).length ≤ 1 := by
  have h₀ : EpochInv w₀ := by
    refine ⟨fun h p hp => ?_, fun h uid v hv => ?_, fun uid v => by simp [hlog]⟩
    · rw [htokens] at hp
      cases hp
    · rw [hlog] at hv
      cases hv
  have hH := (epoch_valid env).reach (Outline.holds_start h₀ trivial) hP
  refine ⟨?_, hH.inv.once⟩
  rintro s pre c f k post e rfl
  obtain ⟨-, hgrow, hredeems⟩ := hH.guar (epoch_valid env) (e := e) trivial
  exact ⟨hgrow, hredeems⟩

/-! ## A run -/

def sampleMint : EpochCall :=
  .mintReset Deployment.resetToken "prt_a" "usr_a" "a@example.com"
    { redirectTo := none, reauthenticate := false, purpose := .passwordReset }

def sampleMintChange : EpochCall :=
  .mintEmailChange Deployment.changeToken "emv_a" "usr_a" "b@example.com"

def sampleRedeem : EpochCall :=
  .redeemReset { token := Deployment.resetToken, password := "a-new-password", confirmation := "a-new-password",
                 credentialId := "pwd_b", salt := "EBESExQVFhcYGRobHB0eHw" }

def sampleRedeemChange : EpochCall := .redeemEmailChange Deployment.changeToken

/-- A reset and an email change are mailed at one version; the reset is redeemed, then the change. -/
def epochSchedule : List (System.Move EpochCall Input) :=
  .arrive sampleMint :: (List.replicate 4 (.run 0 Deployment.ok) ++
    .arrive sampleMintChange :: (List.replicate 4 (.run 1 Deployment.ok) ++
      .arrive sampleRedeem :: (List.replicate 14 (.run 2 Deployment.ok) ++
        .arrive sampleRedeemChange :: (List.replicate 3 (.run 3 Deployment.ok) ++ []))))

/-- The reset takes effect; the change, minted at the same version, does not. -/
theorem capabilities_respect_epochs_reset :
    let P := (epochSystem Deployment.passwordEnv).moves ⟨Deployment.passwordWorld, []⟩ epochSchedule
    P.finished 2 = some (sampleRedeem, .ok ()) ∧ P.finished 3 = some (sampleRedeemChange, .ok ()) ∧
      face P.store.db "usr_a" = some ("a@example.com", 2) ∧
      Event.redeemed (hashOpaqueToken Deployment.passwordEnv Deployment.resetToken) "usr_a" 1 ∈ P.store.log ∧
      (P.store.log.filter (redemptionOf "usr_a" 1)).length ≤ 1 := by
  intro P
  have hall : ∀ s e s', (epochSystem Deployment.passwordEnv).allow s e s' := fun _ _ _ => trivial
  have hreach : (epochSystem Deployment.passwordEnv).Reach ⟨Deployment.passwordWorld, []⟩ P :=
    System.reach_moves epochSchedule ⟨trivial, System.allows_runs hall _ _ _ ⟨trivial, System.allows_runs hall _ _ _
      ⟨trivial, System.allows_runs hall _ _ _ ⟨trivial, System.allows_runs hall _ _ _ trivial⟩⟩⟩⟩
  obtain ⟨hreset, hchange, hface, hredeemed⟩ : P.finished 2 = some (sampleRedeem, .ok ()) ∧
      P.finished 3 = some (sampleRedeemChange, .ok ()) ∧ face P.store.db "usr_a" = some ("a@example.com", 2) ∧
      Event.redeemed (hashOpaqueToken Deployment.passwordEnv Deployment.resetToken) "usr_a" 1 ∈ P.store.log := by
    decide +kernel
  refine ⟨hreset, hchange, hface, hredeemed, ?_⟩
  exact (capabilities_respect_epochs Deployment.passwordEnv Deployment.passwordWorld rfl (fun _ => rfl) P hreach).2 _ _

end Keyforge.Account
