/-
Logins against security transitions. A password or passkey login verifies the credential and, some
awaits later, inserts the session under a guard that asks only whether the user is enabled; the
magic-link path asks for the user's security version as well. So a reset, an email change, a
disabling or a promotion in between is missed, and the session it should have ended is created after
it. In every run in which a login inserts its session at the version its verification began at, no
live session is older than a transition.
-/
import Keyforge.Auth.Epoch
import Keyforge.Deployment
import Keyforge.Lib.Pool
import Keyforge.OAuth.Checks
import Keyforge.Routes.Login

namespace Keyforge.Account

open Lib Db Tokens Auth Routes OAuth

/-! ## The invariant -/

/-- A live session of a login belongs to the version at which its verification began. -/
def LoginInv (w : World) : Prop :=
  ∀ s ∈ w.db.sessions, s.revokedAt = none → ∀ v, Event.verifying s.id s.userId v ∈ w.log →
    version w.db s.userId = some v

/-- A step that inserts a session finds its user at the version at which the login's verification
began. -/
def Timely (w w' : World) : Prop :=
  ∀ s ∈ w'.db.sessions, w.db.sessions.get? s.id = none → ∀ v, Event.verifying s.id s.userId v ∈ w.log →
    version w.db s.userId = some v

/-- Events about the version of a user say the version it has. -/
def Dated (db : Database) (x : Event) : Prop :=
  ∀ sessionId userId v, x = .verifying sessionId userId v → version db userId = some v

/-- One step: new events are dated, a live session was live or is inserted in time, and a version
moves only when its user has no live session. -/
theorem LoginInv.step {w w' : World} (hi : LoginInv w) {ext : List Event} (hlog : w'.log = ext ++ w.log)
    (hdated : ∀ x ∈ ext, Dated w'.db x)
    (hsessions : ∀ s' ∈ w'.db.sessions, s'.revokedAt = none →
      (∃ s ∈ w.db.sessions, s'.id = s.id ∧ s'.userId = s.userId ∧ s.revokedAt = none) ∨
        ∀ v, Event.verifying s'.id s'.userId v ∈ w.log → version w.db s'.userId = some v)
    (hversions : ∀ id, version w'.db id = version w.db id ∨ ∀ s ∈ w'.db.sessions, s.userId = id → s.revokedAt ≠ none) :
    LoginInv w' := by
  intro s' hs' hlive v hv
  have hver : version w'.db s'.userId = version w.db s'.userId := by
    rcases hversions s'.userId with h | h
    · exact h
    · exact absurd hlive (h s' hs' rfl)
  rw [hlog] at hv
  rcases List.mem_append.1 hv with hv | hv
  · exact hdated _ hv _ _ _ rfl
  · rw [hver]
    rcases hsessions s' hs' hlive with ⟨s, hs, hid, hu, hl⟩ | h
    · rw [hid, hu] at hv
      rw [hu]
      exact hi s hs hl v hv
    · exact h v hv

theorem dated_of_ne {db : Database} {x : Event} (h : ∀ sessionId userId v, x ≠ .verifying sessionId userId v) : Dated db x :=
  fun _ _ _ hx => absurd hx (h _ _ _)

/-- A step that moves no version and creates no session. -/
theorem LoginInv.keep {w w' : World} (hi : LoginInv w) {ext : List Event} (hlog : w'.log = ext ++ w.log)
    (hdated : ∀ x ∈ ext, Dated w'.db x) (hsessions : SessionsKept w.db w'.db)
    (hversions : ∀ id, version w'.db id = version w.db id) : LoginInv w' := by
  refine hi.step hlog hdated (fun s' hs' hlive => Or.inl ?_) fun id => Or.inl (hversions id)
  obtain ⟨s, hs, hid, hu, hl⟩ := hsessions s' hs'
  exact ⟨s, hs, hid, hu, hl hlive⟩

/-- A step of a security transition. -/
theorem LoginInv.transition {w w' : World} (hi : LoginInv w) (effective : Bool) (userId : String)
    (hlog : w'.log = accessEvents effective userId ++ w.log) (ht : Transition w.db w'.db) : LoginInv w' := by
  refine hi.step hlog ?_ (fun s' hs' hlive => Or.inl ?_) fun id => ?_
  · intro x hx
    unfold accessEvents at hx
    split at hx
    · rw [List.mem_singleton.1 hx]
      exact dated_of_ne (by simp)
    · cases hx
  · obtain ⟨s, hs, hid, hu, hl⟩ := ht.sessions s' hs'
    exact ⟨s, hs, hid, hu, hl hlive⟩
  · exact (ht.versions id).imp (fun h => h) And.right

/-- The first read of a verification. -/
theorem LoginInv.verifying {w w' : World} (hi : LoginInv w) (sessionId userId : String) (hdb : w'.db = w.db)
    (hlog : w'.log = verifyEvents sessionId userId w.db ++ w.log) : LoginInv w' := by
  refine hi.keep hlog ?_ (.of_eq (by rw [hdb])) fun _ => by rw [hdb]
  intro x hx s u v he
  subst he
  simp only [verifyEvents, List.mem_map, Option.mem_toList] at hx
  obtain ⟨r, hr, he⟩ := hx
  simp only [Event.verifying.injEq] at he
  rw [hdb, ← he.2.1, version, hr, Option.map_some, he.2.2]

/-- The insert of a session, in time. -/
theorem LoginInv.created {w w' : World} (hi : LoginInv w) {guard : UserRow → Bool} {row : SessionRow} (ht : Timely w w')
    (hw' : w' = { w with db := (insertSession guard row w.db).2, log := sessionEvents guard row w.db ++ w.log }) :
    LoginInv w' := by
  have hversion : ∀ id, version w'.db id = version w.db id := by
    intro id
    rw [hw', version, version]
    unfold insertSession
    split <;> rfl
  have hlog : w'.log = sessionEvents guard row w.db ++ w.log := by rw [hw']
  refine hi.step hlog ?_ (fun s' hs' hlive => ?_) fun id => Or.inl (hversion id)
  · intro x hx
    unfold sessionEvents at hx
    split at hx
    · rw [List.mem_singleton.1 hx]
      exact dated_of_ne (by simp)
    · cases hx
  · cases hold : w.db.sessions.get? s'.id with
    | none => exact Or.inr (ht s' hs' hold)
    | some s =>
      left
      refine ⟨s', ?_, rfl, rfl, hlive⟩
      have hmem : s' ∈ (insertSession guard row w.db).2.sessions := by
        rw [hw'] at hs'
        exact hs'
      unfold insertSession at hmem
      split at hmem
      · rcases Table.mem_insert.1 hmem with h | ⟨rfl, hn⟩
        · exact h
        · rw [hold] at hn
          cases hn
      · exact hmem

/-! ## The system -/

/-- The requests that run side by side: the two logins, and the four kinds of transition. -/
inductive LoginCall where
  | password (form : LoginForm)
  | passkey (form : PasskeyForm)
  | reset (input : PasswordResetInput)
  | changeEmail (id newEmail : String) (expectedSecurityVersion : Nat)
  | updateUser (id : String) (patch : UserPatch)
  | setGroups (userId : String) (groupIds : List String)
  | replaceGroups (userId : String) (groupIds : List String)
  | addMember (groupId userId : String)
  | approveMember (groupId userId : String)
  deriving DecidableEq

def LoginCall.code (env : Env) : LoginCall → App Unit
  | .password form => do
    let _ ← login env form
    pure ()
  | .passkey form => do
    let _ ← passkeyLogin env form
    pure ()
  | .reset input => do
    let _ ← setUserPasswordAtSecurityVersion env [] input
    pure ()
  | .changeEmail id newEmail expectedSecurityVersion => do
    let _ ← updateUserEmail env [] id newEmail expectedSecurityVersion
    pure ()
  | .updateUser id patch => do
    let _ ← Db.updateUser id patch
    pure ()
  | .setGroups userId groupIds => setUserGroups userId groupIds
  | .replaceGroups userId groupIds => do
    let _ ← setUserGroupsPreservingActiveAdmin userId groupIds
    pure ()
  | .addMember groupId userId => do
    let _ ← addUserToPermissionGroup groupId userId
    pure ()
  | .approveMember groupId userId => do
    let _ ← approvePermissionGroupMembershipRequest groupId userId
    pure ()

/-- Requests arrive at any time; `allow` says which steps can happen. -/
def loginSystem (env : Env) (allow : World → World → Prop) : System LoginCall Input World (Except Failure Unit) where
  code := fun c => (c.code env).run
  allow := fun w _ w' => allow w w'
  arrive := fun _ _ => True

/-- The protocol of the system's programs. -/
def loginProtocol : Protocol Input World :=
  .sharing LoginInv fun w _ w' => Timely w w'

theorem login_tolerant : Tolerant loginProtocol where
  ok := ⟨fun _ => trivial, fun _ _ => trivial⟩
  tickInv := fun _ h => h
  tickRely := fun _ _ => trivial
  tickGuar := fun _ _ => trivial
  tickAllow := fun _ h => h
  guarTick := fun _ _ => trivial
  burnInv := fun hb h s hs hl v hv => by
    rw [hb.db] at hs ⊢
    rw [hb.log] at hv
    exact h s hs hl v hv
  burnRely := fun _ => trivial
  burnGuar := fun _ => trivial

/-! ## The programs -/

/-- A D1 step that neither writes users or sessions nor records anything. -/
theorem LoginInv.silent {w w' : World} (hi : LoginInv w) (hlog : w'.log = w.log) (husers : w'.db.users = w.db.users)
    (hsessions : w'.db.sessions = w.db.sessions) : LoginInv w' :=
  hi.keep (hlog.trans (List.nil_append _).symm) (fun _ hx => (List.not_mem_nil hx).elim) (.of_eq hsessions)
    fun id => by rw [version, husers, version]

theorem createSession_keeps (env : Env) (input : CreateSessionInput) (sessionId token : String) :
    Keeps loginProtocol (createSession env input sessionId token) := by
  have hc := login_tolerant.toClocked
  refine .bind (.clock hc) fun now => .bind (.d1Logged hc fun w w' _ hi hw' ht => ?_) fun _ =>
    .bind (.require _ _) fun _ => .pure _
  exact ⟨hi.created ht hw', trivial⟩

/-- Revocations of sessions, whichever they cover. -/
theorem revokeSessions_keeps (p : SessionRow → Bool) (q : Database → RefreshTokenRow → Bool) :
    Keeps loginProtocol (revokeSessions none p q) := by
  have hc := login_tolerant.toClocked
  refine .bind (.clock hc) fun now => .bind (.d1Logged hc fun w w' _ hi hw' _ => ⟨?_, trivial⟩) fun r =>
    .bind (keeps_revokeRefreshFamilyDurableObjects login_tolerant r.2) fun _ => .pure _
  have hlog : w'.log = revokeEvents none now p q w.db ++ w.log := by rw [hw']
  refine hi.keep hlog ?_ ?_ fun id => ?_
  · intro x hx
    simp only [revokeEvents, Option.toList_none, List.map_nil, List.nil_append, List.mem_cons, List.not_mem_nil,
      or_false] at hx
    rcases hx with rfl | rfl <;> exact dated_of_ne (by simp)
  · rw [hw']
    exact .revoke now p w.db
  · rw [hw']
    rfl

theorem startSession_keeps (env : Env) (input : CreateSessionInput) (reauthenticating : Bool)
    (previous : Option SessionRecord) (sessionId token : String) :
    Keeps loginProtocol (startSession env input reauthenticating previous sessionId token) := by
  have haudit : Keeps loginProtocol recordAudit := .of_quiet login_tolerant.toClocked recordAudit_quiet
  refine .bind (createSession_keeps _ _ _ _) fun session => ?_
  dsimp only
  split
  · exact .bind (keeps_replaceReauthenticatedSession revokeSessions_keeps _ _ _) fun _ => .bind haudit fun _ => .pure _
  · exact .bind haudit fun _ => .pure _

theorem verifyLoginPassword_keeps (env : Env) (sessionId : String) (userId : Option String) (password : String)
    (identifier : Option String) : Keeps loginProtocol (verifyLoginPassword env sessionId userId password identifier) := by
  have hc := login_tolerant.toClocked
  cases userId with
  | none => exact .pure _
  | some userId =>
    unfold verifyLoginPassword
    refine .ite (.pure _) (.bind (.d1Logged hc fun w w' _ hi hw' _ => ?_) fun administrator => .bind (.select hc _) fun rows => ?_)
    · exact ⟨hi.verifying sessionId userId (by rw [hw']) (by rw [hw']), trivial⟩
    · split
      · exact .pure _
      · refine .bind (.clock hc) fun now => .bind (.d1 hc fun w w' _ hi hw' _ => ?_) fun _ => .pure _
        exact ⟨hi.silent (by rw [hw']) (by rw [hw']) (by rw [hw']), trivial⟩

theorem login_keeps (env : Env) (form : LoginForm) : Keeps loginProtocol (login env form) := by
  have hc := login_tolerant.toClocked
  unfold login
  dsimp only
  split
  on_goal 1 => refine .bind (.select hc _) fun user => ?_
  on_goal 2 => refine .bind (.pure none) fun user => ?_
  all_goals
    refine .bind (verifyLoginPassword_keeps _ _ _ _ _) fun valid => ?_
    split
    · exact .bind (.of_quiet hc recordAudit_quiet) fun _ => .pure _
    · exact .bind (startSession_keeps _ _ _ _ _ _) fun _ => .pure _

theorem consumeChallenge_keeps (env : Env) (ceremonyId : Option String) :
    Keeps loginProtocol (consumeChallenge env ceremonyId) := by
  have hc := login_tolerant.toClocked
  unfold consumeChallenge
  split
  · exact .pure _
  · exact .bind (.io hc fun w _ hi _ => ⟨hi, trivial⟩) fun _ => .pure _

theorem verifyAuthentication_keeps (env : Env) (sessionId : String) (response : AuthenticationResponse)
    (challenge : String) : Keeps loginProtocol (verifyAuthentication env sessionId response challenge) := by
  have hc := login_tolerant.toClocked
  unfold verifyAuthentication
  split
  · exact .pure _
  · rename_i credentialId _
    refine .bind (.d1Logged hc fun w w' _ hi hw' _ => ⟨?_, trivial⟩) fun stored => ?_
    · have hdb : w'.db = w.db := by rw [hw']
      cases hget : storedCredential credentialId w.db with
      | none =>
        have hlog : w'.log = w.log := by rw [hw', assertionEvents, hget]; rfl
        exact hi.silent hlog (by rw [hdb]) (by rw [hdb])
      | some stored =>
        refine hi.verifying sessionId stored.userId hdb ?_
        rw [hw', assertionEvents, hget]
        simp
    · split
      · exact .pure _
      · dsimp only
        split
        · exact .pure _
        · refine .bind (.bind (.clock hc) fun now => .d1 hc fun w w' _ hi hw' _ => ?_) fun _ => .pure _
          exact ⟨hi.silent (by rw [hw']) (by rw [hw']) (by rw [hw']), trivial⟩

theorem passkeyLogin_keeps (env : Env) (form : PasskeyForm) : Keeps loginProtocol (passkeyLogin env form) := by
  have hc := login_tolerant.toClocked
  refine .bind (consumeChallenge_keeps _ _) fun challenge => ?_
  split
  · exact .pure _
  · refine .bind (verifyAuthentication_keeps _ _ _ _) fun userId => ?_
    cases userId
    on_goal 1 => refine .bind (.pure _) fun user => ?_
    on_goal 2 => refine .bind (.select hc _) fun user => ?_
    all_goals
      dsimp only
      split
      · exact .bind (.of_quiet hc recordAudit_quiet) fun _ => .pure _
      · exact .bind (startSession_keeps _ _ _ _ _ _) fun _ => .pure _

/-- A batch that is a transition. -/
theorem transition_keeps {α : Type} {committed : Database → List Event} {stmt : Database → α × Database}
    (hevents : ∀ db, ∃ effective userId, committed db = accessEvents effective userId)
    (htransition : ∀ db, Transition db (stmt db).2) : Keeps loginProtocol (d1Logged committed stmt) := by
  refine .d1Logged login_tolerant.toClocked fun w w' _ hi hw' _ => ⟨?_, trivial⟩
  obtain ⟨effective, userId, h⟩ := hevents w.db
  refine hi.transition effective userId (by rw [hw', h]) ?_
  rw [hw']
  exact htransition w.db

theorem membership_keeps {α : Type} {now : Nat} {userId : String} {valid : Database → Bool}
    {memberships : Database → Database} {stmt : Database → α × Database}
    (hframe : ∀ db, MembershipsOnly db (memberships db))
    (hstmt : ∀ db, (stmt db).2 = (membershipBatch (valid db) memberships now userId db).2) :
    Keeps loginProtocol (d1Logged (fun db => membershipEvents (valid db) memberships now userId db) stmt) := by
  refine transition_keeps (fun db => ⟨_, userId, rfl⟩) fun db => ?_
  rw [hstmt]
  exact membershipBatch_transition hframe

theorem addGroupMember_keeps (groupId userId : String) (requireRequest : Bool) :
    Keeps loginProtocol (addGroupMember groupId userId requireRequest) := by
  refine keeps_addGroupMember login_tolerant (fun now => ?_) (.d1 login_tolerant.toClocked fun w w' _ hi hw' _ => ?_)
  · exact membership_keeps (addMembership_frame now groupId userId requireRequest) fun _ => rfl
  · exact ⟨hi.silent (by rw [hw']) (by rw [hw']) (by rw [hw']), trivial⟩

theorem loginCall_keeps (env : Env) (c : LoginCall) : Keeps loginProtocol (c.code env) := by
  have hΓ := login_tolerant
  cases c with
  | password form => exact .bind (login_keeps env form) fun _ => .pure _
  | passkey form => exact .bind (passkeyLogin_keeps env form) fun _ => .pure _
  | reset input =>
    refine .bind (keeps_setUserPasswordAtSecurityVersion hΓ fun now => ?_) fun _ => .pure _
    exact transition_keeps (fun db => ⟨_, _, by rw [resetEvents, ite_self]; rfl⟩) fun db => resetBatch_transition env input
  | changeEmail id newEmail expected =>
    refine .bind (keeps_updateUserEmail hΓ fun now change => ?_) fun _ => .pure _
    exact transition_keeps (fun db => ⟨_, _, by rw [emailEvents, ite_self]; rfl⟩) fun db => emailBatch_transition change
  | updateUser id patch =>
    refine .bind (keeps_updateUser hΓ fun now current => ?_) fun _ => .pure _
    exact transition_keeps (fun db => ⟨_, _, rfl⟩) fun db => updateUserBatch_transition current _
  | setGroups userId groupIds =>
    refine keeps_setUserGroups hΓ fun _ now => ?_
    exact membership_keeps (fun db => (leaveGroups_frame _ _ db).trans (joinGroups_frame now _ _ _)) fun _ => rfl
  | replaceGroups userId groupIds =>
    refine .bind (keeps_setUserGroupsPreservingActiveAdmin hΓ fun _ now => ?_) fun _ => .pure _
    exact membership_keeps (replaceGroups_frame now _ _) fun _ => rfl
  | addMember groupId userId => exact .bind (addGroupMember_keeps _ _ _) fun _ => .pure _
  | approveMember groupId userId => exact .bind (addGroupMember_keeps _ _ _) fun _ => .pure _

/-- Logins respect security transitions in every run in which each login inserts its session at the
version its verification began at: in every reachable state, a live session whose verification began
at a version is a session of a user who still has that version, so no transition has committed since. -/
theorem logins_respect_transitions_in_time (env : Env) (w₀ : World) (hlog : w₀.log = [])
    (P : Pool LoginCall Input World (Except Failure Unit)) (hP : (loginSystem env Timely).Reach ⟨w₀, []⟩ P) :
    ∀ s ∈ P.store.db.sessions, s.revokedAt = none → ∀ v, Event.verifying s.id s.userId v ∈ P.store.log →
      version P.store.db s.userId = some v := by
  have h₀ : LoginInv w₀ := by
    intro s _ _ v hv
    rw [hlog] at hv
    cases hv
  refine System.reach_inv (fun c w hi => ?_) h₀ hP
  exact wp_of_wpE (loginCall_keeps env c w hi)

/-! ## Runs -/

def sampleLogin : LoginCall :=
  .password { identifier := "a@example.com", password := "correct-horse-battery", reauthenticating := false,
              previous := none, sessionId := "sess_b", token := "token_b" }

def sampleReset : LoginCall :=
  .reset { userId := "usr_a", password := "a-new-password", expectedSecurityVersion := 1, verifyEmail := false,
           credentialId := "pwd_b", salt := "EBESExQVFhcYGRobHB0eHw" }

/-- The login finishes, and then the password is reset. -/
def loginFirst : List (System.Move LoginCall Input) :=
  .arrive sampleLogin :: (List.replicate 8 (.run 0 Deployment.ok) ++
    .arrive sampleReset :: (List.replicate 3 (.run 1 Deployment.ok) ++ []))

/-- `Timely`, tested. -/
def timely (w w' : World) : Bool :=
  w'.db.sessions.rows.all fun s => (w.db.sessions.get? s.id).isSome || w.log.all fun x =>
    match x with
    | .verifying sessionId userId v => !(sessionId = s.id && userId = s.userId) || version w.db s.userId = some v
    | _ => true

theorem timely_of_test {w w' : World} : timely w w' = true → Timely w w' := by
  intro h s hs hn v hv
  have h := List.all_eq_true.1 h s hs
  rw [hn, Option.isSome_none, Bool.false_or] at h
  simpa using List.all_eq_true.1 h _ hv

/-- After the reset the session that was verified before it is not live. -/
theorem logins_respect_transitions_in_time_reset :
    let P := (loginSystem Deployment.passwordEnv Timely).moves ⟨Deployment.passwordWorld, []⟩ loginFirst
    P.finished 0 = some (sampleLogin, .ok ()) ∧ P.finished 1 = some (sampleReset, .ok ()) ∧
      ∀ s ∈ P.store.db.sessions, s.id = "sess_b" → s.userId = "usr_a" → s.revokedAt ≠ none := by
  intro P
  have hreach : (loginSystem Deployment.passwordEnv Timely).Reach ⟨Deployment.passwordWorld, []⟩ P :=
    System.reach_moves loginFirst (System.allows_of_passes timely (fun _ _ => trivial)
      (fun _ _ _ => timely_of_test) loginFirst (by decide +kernel))
  obtain ⟨hlogin, hreset, hmark, hversion⟩ : P.finished 0 = some (sampleLogin, .ok ()) ∧
      P.finished 1 = some (sampleReset, .ok ()) ∧ Event.verifying "sess_b" "usr_a" 1 ∈ P.store.log ∧
      version P.store.db "usr_a" = some 2 := by decide +kernel
  refine ⟨hlogin, hreset, fun s hs hid hu hlive => ?_⟩
  have := logins_respect_transitions_in_time Deployment.passwordEnv Deployment.passwordWorld rfl P hreach s hs hlive 1
    (by rw [hid, hu]; exact hmark)
  rw [hu, hversion] at this
  cases this

/-- The login verifies the old password, the password is reset, and then the session goes in. -/
def resetBetween : List (System.Move LoginCall Input) :=
  .arrive sampleLogin :: (List.replicate 5 (.run 0 Deployment.ok) ++
    .arrive sampleReset :: (List.replicate 3 (.run 1 Deployment.ok) ++ (List.replicate 3 (.run 0 Deployment.ok) ++ [])))

/-- Where every step can happen, a login that verified the old password leaves a live session after the
reset that removed it. -/
theorem login_outlives_reset :
    let S := loginSystem Deployment.passwordEnv fun _ _ => True
    let P := S.moves ⟨Deployment.passwordWorld, []⟩ resetBetween
    S.Reach ⟨Deployment.passwordWorld, []⟩ P ∧
      P.finished 0 = some (sampleLogin, .ok ()) ∧ P.finished 1 = some (sampleReset, .ok ()) ∧
      P.store.log = [.sessionCreated "sess_b" "usr_a", .userRevoked "usr_a", .verifying "sess_b" "usr_a" 1] ∧
      version P.store.db "usr_a" = some 2 ∧
      ∃ s ∈ P.store.db.sessions, s.id = "sess_b" ∧ s.userId = "usr_a" ∧ s.revokedAt = none := by
  intro S P
  have hall : ∀ s e s', S.allow s e s' := fun _ _ _ => trivial
  obtain ⟨hlogin, hreset, hlog, hversion, hlive⟩ : P.finished 0 = some (sampleLogin, .ok ()) ∧
      P.finished 1 = some (sampleReset, .ok ()) ∧
      P.store.log = [.sessionCreated "sess_b" "usr_a", .userRevoked "usr_a", .verifying "sess_b" "usr_a" 1] ∧
      version P.store.db "usr_a" = some 2 ∧
      (P.store.db.sessions.has fun s => s.id = "sess_b" ∧ s.userId = "usr_a" ∧ s.revokedAt = none) = true := by
    decide +kernel
  refine ⟨?_, hlogin, hreset, hlog, hversion, ?_⟩
  · exact System.reach_moves resetBetween ⟨trivial, System.allows_runs hall _ _ _ ⟨trivial,
      System.allows_runs hall _ _ _ (System.allows_runs hall _ _ _ trivial)⟩⟩
  · obtain ⟨s, hs, h⟩ := Table.has_iff.1 hlive
    exact ⟨s, hs, of_decide_eq_true h⟩

end Keyforge.Account
