/-
The security epoch. Every security transition moves its user's version and revokes all of the user's
sessions in the same batch (`Transition`), whichever way the batch's statements ask whether it took
effect.
-/
import Keyforge.Db.Users

namespace Keyforge.Auth

open Lib Db Tokens

/-! ## Versions and sessions -/

/-- The security version of a user. -/
def version (db : Database) (id : String) : Option Nat :=
  (db.users.get? id).map (·.securityVersion)

/-- No session is created, handed to another user or brought back to life. -/
def SessionsKept (db db' : Database) : Prop :=
  ∀ s' ∈ db'.sessions, ∃ s ∈ db.sessions, s'.id = s.id ∧ s'.userId = s.userId ∧ (s'.revokedAt = none → s.revokedAt = none)

theorem SessionsKept.of_eq {db db' : Database} (h : db'.sessions = db.sessions) : SessionsKept db db' :=
  fun s hs => ⟨s, h ▸ hs, rfl, rfl, id⟩

theorem SessionsKept.revoke (now : Nat) (p : SessionRow → Bool) (db : Database) :
    SessionsKept db (revokeSessionRows now p db) := by
  intro s' hs'
  obtain ⟨s, hs, hid, hu, hrev, -⟩ := revokeSessionRows_spec hs'
  refine ⟨s, hs, hid, hu, fun hn => ?_⟩
  by_contra hr
  exact hrev hr hn

/-- Versions move only with all of the user's sessions revoked. -/
structure Transition (db db' : Database) : Prop where
  sessions : SessionsKept db db'
  versions : ∀ id, version db' id = version db id ∨
    (∃ v, version db id = some v ∧ version db' id = some (v + 1)) ∧ ∀ s ∈ db'.sessions, s.userId = id → s.revokedAt ≠ none

theorem Transition.refl (db : Database) : Transition db db :=
  ⟨.of_eq rfl, fun _ => Or.inl rfl⟩

/-- The statements that close a batch write sessions and families only. -/
theorem revokeAccessIf_frame (effective : Bool) (now : Nat) (userId : String) (db : Database) :
    ∃ sessions refreshTokens, (revokeAccessIf effective now userId db).2 = { db with sessions, refreshTokens } := by
  cases effective with
  | true => exact ⟨_, _, rfl⟩
  | false => exact ⟨_, _, rfl⟩

theorem revokeAccessIf_sessions (effective : Bool) (now : Nat) (userId : String) (db : Database) :
    SessionsKept db (revokeAccessIf effective now userId db).2 := by
  cases effective with
  | true => exact .revoke now (·.userId = userId) db
  | false => exact .of_eq rfl

theorem version_revokeAccessIf (effective : Bool) (now : Nat) (userId : String) (db : Database) (id : String) :
    version (revokeAccessIf effective now userId db).2 id = version db id := by
  obtain ⟨_, _, h⟩ := revokeAccessIf_frame effective now userId db
  rw [h]
  rfl

/-- The version of a user after an update of the users. -/
theorem version_update {db db' : Database} {p : UserRow → Bool} {f : UserRow → UserRow} {hf : ∀ u, (f u).id = u.id}
    (h : db'.users = db.users.update p f hf) (id : String) : version db' id =
      (db.users.get? id).map fun u => if p u then (f u).securityVersion else u.securityVersion := by
  rw [version, h, Table.get?_update hf, Option.map_map]
  refine Option.map_congr fun u _ => ?_
  simp only [Function.comp]
  split <;> rfl

/-- A batch that writes the row of a user and then closes is a transition if a version it moved makes
the closing statements take effect. -/
theorem Transition.of_update {db db' : Database} {p : UserRow → Bool} {f : UserRow → UserRow}
    {effective : Bool} {now : Nat} {userId : String} (hf : ∀ u, (f u).id = u.id) (hsessions : db'.sessions = db.sessions)
    (husers : db'.users = db.users.update p f hf) (hp : ∀ u, p u = true → u.id = userId)
    (hrow : ∀ u, db.users.get? userId = some u → p u = true →
      (f u).securityVersion = u.securityVersion ∨ (f u).securityVersion = u.securityVersion + 1 ∧ effective = true) :
    Transition db (revokeAccessIf effective now userId db').2 := by
  refine ⟨fun s' hs' => ?_, fun id => ?_⟩
  · obtain ⟨s, hs, h⟩ := revokeAccessIf_sessions effective now userId db' s' hs'
    exact ⟨s, hsessions ▸ hs, h⟩
  · rw [version_revokeAccessIf, version_update husers, version]
    cases hu : db.users.get? id with
    | none => exact Or.inl rfl
    | some u =>
      simp only [Option.map_some]
      cases hsel : p u with
      | false => exact Or.inl (by simp)
      | true =>
        obtain ⟨-, hid⟩ := Table.get?_eq_some.1 hu
        have hid' : id = userId := hid.symm.trans (hp u hsel)
        rcases hrow u (hid' ▸ hu) hsel with h | ⟨h, rfl⟩
        · exact Or.inl (by simp [h])
        · refine Or.inr ⟨⟨u.securityVersion, rfl, by simp [h]⟩, fun s' hs' hsu => ?_⟩
          obtain ⟨s, -, -, hown, -, hrev⟩ := revokeSessionRows_spec (p := (·.userId = userId)) hs'
          exact hrev (decide_eq_true (hown.symm.trans (hsu.trans hid')))

/-! ## What writes memberships -/

/-- Only memberships and requests for them differ. -/
def MembershipsOnly (db db' : Database) : Prop :=
  ∃ userGroups groupMembershipRequests, db' = { db with userGroups, groupMembershipRequests }

theorem MembershipsOnly.trans {db db' db'' : Database} (h₁ : MembershipsOnly db db') (h₂ : MembershipsOnly db' db'') :
    MembershipsOnly db db'' := by
  obtain ⟨_, _, rfl⟩ := h₁
  obtain ⟨_, _, rfl⟩ := h₂
  exact ⟨_, _, rfl⟩

theorem MembershipsOnly.ite {c : Prop} [Decidable c] {db db' : Database} (h : MembershipsOnly db db') :
    MembershipsOnly db (if c then db' else db) := by
  split
  · exact h
  · exact ⟨_, _, rfl⟩

theorem joinGroups_frame (now : Nat) (userId : String) (groupIds : List String) (db : Database) :
    MembershipsOnly db (joinGroups now userId groupIds db) :=
  ⟨_, _, rfl⟩

theorem leaveGroups_frame (userId : String) (groupIds : List String) (db : Database) :
    MembershipsOnly db (leaveGroups userId groupIds db) :=
  ⟨_, _, rfl⟩

theorem replaceGroups_frame (now : Nat) (userId : String) (groupIds : List String) (db : Database) :
    MembershipsOnly db (replaceGroups now userId groupIds db) :=
  (joinGroups_frame now userId groupIds db).ite.trans (leaveGroups_frame userId groupIds _).ite

theorem addMembership_frame (now : Nat) (groupId userId : String) (requireRequest : Bool) (db : Database) :
    MembershipsOnly db (addMembership now groupId userId requireRequest db) :=
  (joinGroups_frame now userId [groupId] db).ite

/-! ## The batches -/

section

variable {now : Nat} {db : Database}

theorem resetBatch_transition (env : Env) (input : PasswordResetInput) :
    Transition db (resetBatch env now input db).2 := by
  refine .of_update (resetUser_id now input) rfl rfl (fun u hu => ?_) fun u hu hsel => ?_
  · simp only [Bool.and_eq_true, decide_eq_true_eq] at hu
    exact hu.1.1
  · simp only [Bool.and_eq_true, decide_eq_true_eq] at hsel
    refine Or.inr ⟨rfl, resetInPlace_of_effective ?_⟩
    rw [resetEffective, hu, Option.any_some, hsel.1.2]
    exact hsel.2

theorem emailBatch_transition (change : EmailChange) : Transition db (emailBatch now change db).2 := by
  refine .of_update (changedEmail_id now change) rfl rfl (fun u hu => ?_) fun u hu hsel => ?_
  · simp only [emailGuard, Bool.and_eq_true, decide_eq_true_eq] at hu
    exact hu.1.1
  · refine Or.inr ⟨rfl, ?_⟩
    rw [emailInPlace, emailStatement, Table.get?_update (changedEmail_id now change), hu, Option.map_some, hsel,
      if_pos rfl, Option.any_some]
    simp only [emailGuard, atVersion, Bool.and_eq_true, decide_eq_true_eq] at hsel
    simp [changedEmail, bump, hsel.1.2.2]

theorem updateUserBatch_transition (current next : UserRow) : Transition db (updateUserBatch now current next db).2 := by
  refine .of_update (updatedUser_id now current next) rfl rfl (fun u hu => ?_) fun u hu hsel => ?_
  · simp only [updateGuard, Bool.and_eq_true, decide_eq_true_eq] at hu
    exact hu.1.1.1
  · by_cases hchanged : current.disabled = next.disabled
    · exact Or.inl (by simp [updatedUser, hchanged])
    · refine Or.inr ⟨by simp [updatedUser, hchanged], ?_⟩
      rw [updateInPlace, updateUserStatement, Table.get?_update (updatedUser_id now current next), hu, Option.map_some,
        hsel, if_pos rfl, Option.any_some]
      simp only [updateGuard, Bool.and_eq_true, decide_eq_true_eq] at hsel
      simp [updatedUser, hchanged, hsel.1.2]

/-- A batch that writes memberships and closes with the revocations of a promotion. -/
theorem membershipBatch_transition {valid : Bool} {memberships : Database → Database} {userId : String}
    (hframe : ∀ db, MembershipsOnly db (memberships db)) : Transition db (membershipBatch valid memberships now userId db).2 := by
  cases valid with
  | false => exact .refl db
  | true =>
    obtain ⟨userGroups, requests, h⟩ := hframe db
    refine .of_update (p := fun u => u.id = userId && promoted now userId (memberships db)) (bump_id now)
      (by rw [h]) (by rw [h]) (fun u hu => ?_) fun u _ hsel => ?_
    · simp only [Bool.and_eq_true, decide_eq_true_eq] at hu
      exact hu.1
    · simp only [Bool.and_eq_true] at hsel
      exact Or.inr ⟨rfl, hsel.2⟩

end

/-! ## The programs -/

section

variable {Γ : Protocol Input World} {env : Env} {mark : List Event} {id userId groupId newEmail : String}
  {groupIds : List String} {expected : Nat} {patch : UserPatch} {input : PasswordResetInput} {requireRequest : Bool}

theorem keeps_replaceReauthenticatedSession (hrevoke : ∀ p q, Keeps Γ (revokeSessions none p q))
    (previous : Option SessionRecord) (next : CreatedSession) (userId : String) :
    Keeps Γ (replaceReauthenticatedSession previous next userId) := by
  have hid : ∀ sessionId userId, Keeps Γ (revokeSessionById sessionId userId) :=
    fun _ _ => .bind (hrevoke _ _) fun _ => .pure _
  cases previous with
  | none => exact .pure ()
  | some previous =>
    refine .tryCatch (.bind (hid _ _) fun _ => .pure _) fun x => .bind ?_ fun _ => .throw x
    exact .tryCatch (.bind (hid _ _) fun _ => .pure _) fun _ => .pure _

theorem keeps_setUserPasswordAtSecurityVersion (hΓ : Tolerant Γ)
    (hbatch : ∀ now, Keeps Γ (d1Logged (resetEvents env mark now input) (resetBatch env now input))) :
    Keeps Γ (setUserPasswordAtSecurityVersion env mark input) := by
  have hc := hΓ.toClocked
  refine .bind (.select hc _) fun administrator => ?_
  split
  · exact .pure _
  · exact .bind (.clock hc) fun now => .bind (hbatch now) fun r =>
      .bind (keeps_revokeRefreshFamilyDurableObjects hΓ r.2) fun _ => .pure _

theorem keeps_updateUserEmail (hΓ : Tolerant Γ)
    (hbatch : ∀ now change, Keeps Γ (d1Logged (emailEvents mark now change) (emailBatch now change))) :
    Keeps Γ (updateUserEmail env mark id newEmail expected) := by
  have hc := hΓ.toClocked
  refine .bind (.clock hc) fun now => .bind (hbatch now _) fun r =>
    .bind (keeps_revokeRefreshFamilyDurableObjects hΓ r.2) fun _ => ?_
  exact .ite (.pure _) (.bind (.select hc _) fun _ => .pure _)

theorem keeps_updateUser (hΓ : Tolerant Γ)
    (hbatch : ∀ now current, Keeps Γ (d1Logged (updateUserEvents now current (patch.next current))
      (updateUserBatch now current (patch.next current)))) : Keeps Γ (updateUser id patch) := by
  have hc := hΓ.toClocked
  refine .bind (.select hc _) fun row => ?_
  split
  · exact .pure _
  · exact .bind (.clock hc) fun now => .bind (hbatch now _) fun r =>
      .bind (keeps_revokeRefreshFamilyDurableObjects hΓ r.2) fun _ => .pure _

theorem keeps_setUserGroupsMarked (hΓ : Tolerant Γ) {mark : Database → List Event}
    (hbatch : groupIds.eraseDups.length ≤ MAX_USER_GROUPS → ∀ now, Keeps Γ (d1Logged
      (fun db => mark db ++ membershipEvents (joinable userId groupIds.eraseDups db)
        (fun db => joinGroups now userId groupIds.eraseDups (leaveGroups userId groupIds.eraseDups db)) now userId db)
      fun db => membershipBatch (joinable userId groupIds.eraseDups db)
        (fun db => joinGroups now userId groupIds.eraseDups (leaveGroups userId groupIds.eraseDups db)) now userId db)) :
    Keeps Γ (setUserGroupsMarked mark userId groupIds) := by
  have hc := hΓ.toClocked
  exact .bind (.clock hc) fun now => .required fun hlength => .bind (hbatch (of_decide_eq_true hlength) now) fun r =>
    .bind (.require _ _) fun _ => keeps_revokeRefreshFamilyDurableObjects hΓ r.2

theorem keeps_setUserGroups (hΓ : Tolerant Γ)
    (hbatch : groupIds.eraseDups.length ≤ MAX_USER_GROUPS → ∀ now, Keeps Γ (d1Logged
      (fun db => membershipEvents (joinable userId groupIds.eraseDups db)
        (fun db => joinGroups now userId groupIds.eraseDups (leaveGroups userId groupIds.eraseDups db)) now userId db)
      fun db => membershipBatch (joinable userId groupIds.eraseDups db)
        (fun db => joinGroups now userId groupIds.eraseDups (leaveGroups userId groupIds.eraseDups db)) now userId db)) :
    Keeps Γ (setUserGroups userId groupIds) :=
  keeps_setUserGroupsMarked hΓ hbatch

theorem keeps_setUserGroupsPreservingActiveAdmin (hΓ : Tolerant Γ)
    (hbatch : groupIds.eraseDups.length ≤ MAX_USER_GROUPS → ∀ now, Keeps Γ (d1Logged
      (fun db => membershipEvents
        (!replacementIsSafe userId groupIds.eraseDups db || joinable userId groupIds.eraseDups db)
        (replaceGroups now userId groupIds.eraseDups) now userId db)
      fun db => membershipBatch
        (!replacementIsSafe userId groupIds.eraseDups db || joinable userId groupIds.eraseDups db)
        (replaceGroups now userId groupIds.eraseDups) now userId db)) :
    Keeps Γ (setUserGroupsPreservingActiveAdmin userId groupIds) := by
  have hc := hΓ.toClocked
  exact .bind (.clock hc) fun now => .required fun hlength => .bind (hbatch (of_decide_eq_true hlength) now) fun r =>
    .bind (.require _ _) fun _ => .bind (keeps_revokeRefreshFamilyDurableObjects hΓ r.2) fun _ =>
      .bind (.of_quiet hc (.all (.select _) (.select _))) fun _ => .pure _

theorem keeps_addGroupMember (hΓ : Tolerant Γ)
    (hbatch : ∀ now, Keeps Γ (d1Logged (membershipEvents true (addMembership now groupId userId requireRequest) now userId)
      fun db =>
        let r := membershipBatch true (addMembership now groupId userId requireRequest) now userId db
        ((addGuard groupId userId requireRequest db && (db.userGroups.get? (userId, groupId)).isNone, r.1.2), r.2)))
    (hrequests : Keeps Γ (deleteMembershipRequest userId groupId)) :
    Keeps Γ (addGroupMember groupId userId requireRequest) := by
  have hc := hΓ.toClocked
  refine .bind (.clock hc) fun now => .bind (hbatch now) fun r =>
    .bind (keeps_revokeRefreshFamilyDurableObjects hΓ r.2) fun _ => ?_
  refine .ite (.bind hrequests fun _ => .pure _) (.bind (.select hc _) fun state => ?_)
  exact .ite (.pure _) (.ite (.pure _) (.ite (.bind hrequests fun _ => .pure _) (.pure _)))

end

end Keyforge.Auth
