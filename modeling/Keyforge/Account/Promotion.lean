/-
A promotion ends the access a user had before. The batches that write memberships find out about it
afterwards: a membership in `admins` that carries the time of the batch is one that it inserted,
unless the user was promoted earlier in the same second, since an insert never replaces a membership.
-/
import Keyforge.Auth.Epoch
import Keyforge.Deployment

namespace Keyforge.Account

open Lib Db Auth Tokens

/-! ## The calls -/

inductive MembershipCall where
  | add (groupId userId : String)
  | approve (groupId userId : String)
  | setGroups (userId : String) (groupIds : List String)
  | setGroupsPreserving (userId : String) (groupIds : List String)
  deriving DecidableEq

namespace MembershipCall

def userId : MembershipCall → String
  | add _ userId => userId
  | approve _ userId => userId
  | setGroups userId _ => userId
  | setGroupsPreserving userId _ => userId

def code : MembershipCall → App Unit
  | add groupId userId => ignore (addUserToPermissionGroup groupId userId)
  | approve groupId userId => ignore (approvePermissionGroupMembershipRequest groupId userId)
  | setGroups userId groupIds => Db.setUserGroups userId groupIds
  | setGroupsPreserving userId groupIds => ignore (setUserGroupsPreservingActiveAdmin userId groupIds)

/-- The foreign keys of the call's inserts hold. -/
def valid (db : Database) : MembershipCall → Bool
  | add _ _ | approve _ _ => true
  | setGroups userId groupIds => joinable userId groupIds.eraseDups db
  | setGroupsPreserving userId groupIds =>
    !replacementIsSafe userId groupIds.eraseDups db || joinable userId groupIds.eraseDups db

/-- The statements of the call's batch that write memberships. -/
def memberships (now : Nat) : MembershipCall → Database → Database
  | add groupId userId => addMembership now groupId userId false
  | approve groupId userId => addMembership now groupId userId true
  | setGroups userId groupIds => fun db => joinGroups now userId groupIds.eraseDups (leaveGroups userId groupIds.eraseDups db)
  | setGroupsPreserving userId groupIds => replaceGroups now userId groupIds.eraseDups

/-- The call's transaction, at a clock reading. -/
def transaction (c : MembershipCall) (now : Nat) (db : Database) : Database :=
  (membershipBatch (c.valid db) (c.memberships now) now c.userId db).2

theorem memberships_frame (c : MembershipCall) (now : Nat) (db : Database) : MembershipsOnly db (c.memberships now db) := by
  cases c with
  | add groupId userId => exact addMembership_frame now groupId userId false db
  | approve groupId userId => exact addMembership_frame now groupId userId true db
  | setGroups userId groupIds =>
    exact (leaveGroups_frame userId groupIds.eraseDups db).trans (joinGroups_frame now userId groupIds.eraseDups _)
  | setGroupsPreserving userId groupIds => exact replaceGroups_frame now userId groupIds.eraseDups db

end MembershipCall

/-! ## The inserted memberships -/

/-- What the statements insert: memberships of the user that it did not have, with the time of the
batch. -/
def Joins (now : Nat) (userId : String) (db db' : Database) : Prop :=
  ∀ m ∈ db'.userGroups, m ∈ db.userGroups ∨
    (m.userId = userId ∧ m.createdAt = now ∧ db.userGroups.get? (userId, m.groupId) = none ∧ (db.users.get? userId).isSome)

theorem mem_joinGroups_iff {now : Nat} {userId : String} {m : UserGroupRow} : ∀ {groupIds : List String}
    {t : Table fun r : UserGroupRow => (r.userId, r.groupId)},
    m ∈ groupIds.foldl (fun t groupId => t.insert { userId, groupId, createdAt := now }) t →
      m ∈ t ∨ (m.userId = userId ∧ m.createdAt = now ∧ m.groupId ∈ groupIds ∧ t.get? (userId, m.groupId) = none)
  | [], t, h => Or.inl h
  | g :: groupIds, t, h => by
    rcases mem_joinGroups_iff (t := t.insert { userId, groupId := g, createdAt := now }) h with h | ⟨hid, hat, hg, hn⟩
    · rcases Table.mem_insert.1 h with h | ⟨rfl, hn⟩
      · exact Or.inl h
      · exact Or.inr ⟨rfl, rfl, List.mem_cons_self, hn⟩
    · refine Or.inr ⟨hid, hat, List.mem_cons_of_mem _ hg, ?_⟩
      rw [Table.get?_eq_none] at hn ⊢
      exact fun m' hm' => hn m' (Table.mem_insert.2 (Or.inl hm'))

theorem joinGroups_joins {now : Nat} {userId : String} {groupIds : List String} {db : Database}
    (h : joinable userId groupIds db = true) : Joins now userId db (joinGroups now userId groupIds db) := by
  intro m hm
  rcases mem_joinGroups_iff hm with hm | ⟨hid, hat, hg, hn⟩
  · exact Or.inl hm
  · refine Or.inr ⟨hid, hat, hn, ?_⟩
    rw [joinable, Bool.or_eq_true, List.isEmpty_iff] at h
    rcases h with rfl | h
    · exact (List.not_mem_nil hg).elim
    · exact (Bool.and_eq_true_iff.1 h).1

theorem leaveGroups_subset {userId : String} {desired : List String} {db : Database} {m : UserGroupRow}
    (h : m ∈ (leaveGroups userId desired db).userGroups) : m ∈ db.userGroups :=
  (Table.mem_delete.1 h).1

/-- The statements of each call, where its foreign keys hold, insert only what the user did not have. -/
theorem MembershipCall.joins (c : MembershipCall) (now : Nat) (db : Database) (h : c.valid db = true) :
    Joins now c.userId db (c.memberships now db) := by
  have hadd : ∀ groupId userId requireRequest, Joins now userId db (addMembership now groupId userId requireRequest db) := by
    intro groupId userId requireRequest
    unfold addMembership
    split
    · rename_i hguard
      refine joinGroups_joins ?_
      simp only [addGuard, Bool.and_eq_true] at hguard
      simp [joinable, hguard.1.1]
    · exact fun m hm => Or.inl hm
  cases c with
  | add groupId userId => exact hadd groupId userId false
  | approve groupId userId => exact hadd groupId userId true
  | setGroups userId groupIds =>
    intro m hm
    rcases mem_joinGroups_iff hm with hm | ⟨hid, hat, hg, hn⟩
    · exact Or.inl (leaveGroups_subset hm)
    · refine Or.inr ⟨hid, hat, ?_, ?_⟩
      · -- a desired membership is not among those left, so it was missing before
        rw [Table.get?_eq_none] at hn ⊢
        intro m' hm' hk
        refine hn m' (Table.mem_delete.2 ⟨hm', ?_⟩) hk
        rw [(Prod.mk.inj hk).2, List.contains_iff_mem.2 hg]
        simp
      · rw [valid, joinable, Bool.or_eq_true, List.isEmpty_iff] at h
        rcases h with h | h
        · rw [h] at hg
          exact (List.not_mem_nil hg).elim
        · exact (Bool.and_eq_true_iff.1 h).1
  | setGroupsPreserving userId groupIds =>
    let joined := if replacementIsSafe userId groupIds.eraseDups db then joinGroups now userId groupIds.eraseDups db else db
    have hjoined : Joins now userId db joined := by
      unfold joined
      split
      · rename_i hsafe
        rw [valid, hsafe, Bool.not_true, Bool.false_or] at h
        exact joinGroups_joins h
      · exact fun m hm => Or.inl hm
    intro m hm
    have hm : m ∈ (if replacementIsSafe userId groupIds.eraseDups joined then leaveGroups userId groupIds.eraseDups joined
        else joined).userGroups := hm
    by_cases hsafe : replacementIsSafe userId groupIds.eraseDups joined = true
    · rw [if_pos hsafe] at hm
      exact hjoined m (leaveGroups_subset hm)
    · rw [if_neg hsafe] at hm
      exact hjoined m hm

/-- The statements only drop requests. -/
theorem MembershipCall.requests_subset (c : MembershipCall) (now : Nat) {db : Database} {r : GroupMembershipRequestRow}
    (h : r ∈ (c.memberships now db).groupMembershipRequests) : r ∈ db.groupMembershipRequests := by
  have hadd : ∀ {groupId userId requireRequest}, r ∈ (addMembership now groupId userId requireRequest db).groupMembershipRequests →
      r ∈ db.groupMembershipRequests := by
    intro groupId userId requireRequest h
    unfold addMembership at h
    split at h
    · exact (Table.mem_delete.1 h).1
    · exact h
  cases c with
  | add groupId userId => exact hadd h
  | approve groupId userId => exact hadd h
  | setGroups userId groupIds => exact (Table.mem_delete.1 h).1
  | setGroupsPreserving userId groupIds =>
    have hjoined : (replaceGroups now userId groupIds.eraseDups db).groupMembershipRequests =
        (if replacementIsSafe userId groupIds.eraseDups db then joinGroups now userId groupIds.eraseDups db
          else db).groupMembershipRequests := by
      unfold replaceGroups
      dsimp only
      split
      · split <;> rfl
      · rfl
    have h : r ∈ (replaceGroups now userId groupIds.eraseDups db).groupMembershipRequests := h
    rw [hjoined] at h
    split at h
    · exact (Table.mem_delete.1 h).1
    · exact h

/-! ## What a transaction does to access -/

/-- The version of the user moves up, and every session and family it had is revoked. -/
structure EndsAccess (id : String) (db db' : Database) : Prop where
  version : ∃ v, version db id = some v ∧ version db' id = some (v + 1)
  sessions : ∀ s ∈ db.sessions, s.userId = id → (db'.sessions.get? s.id).any (·.revokedAt.isSome) = true
  refreshTokens : ∀ r ∈ db.refreshTokens, r.userId = id → (db'.refreshTokens.get? r.id).any (·.revokedAt.isSome) = true

/-- The version, the sessions and the families of the user are what they were. -/
structure SameAccess (id : String) (db db' : Database) : Prop where
  version : Auth.version db' id = Auth.version db id
  sessions : ∀ s, s.userId = id → (s ∈ db'.sessions ↔ s ∈ db.sessions)
  refreshTokens : ∀ r, r.userId = id → (r ∈ db'.refreshTokens ↔ r ∈ db.refreshTokens)

theorem revokeAccessIf_ends {now : Nat} {userId : String} {db : Database} :
    (∀ s ∈ db.sessions, s.userId = userId →
      ((revokeAccessIf true now userId db).2.sessions.get? s.id).any (·.revokedAt.isSome) = true) ∧
    ∀ r ∈ db.refreshTokens, r.userId = userId →
      ((revokeAccessIf true now userId db).2.refreshTokens.get? r.id).any (·.revokedAt.isSome) = true := by
  constructor
  · intro s hs hid
    have hget : (revokeAccessIf true now userId db).2.sessions.get? s.id = (db.sessions.get? s.id).map fun s =>
        if s.userId = userId && s.revokedAt.isNone then { s with revokedAt := some now } else s :=
      Table.get?_update fun _ => by rfl
    rw [hget, Table.get?_of_mem hs, Option.map_some, Option.any_some]
    cases hr : s.revokedAt <;> simp [hid, hr]
  · intro r hr hid
    have hget : (revokeAccessIf true now userId db).2.refreshTokens.get? r.id = (db.refreshTokens.get? r.id).map fun r =>
        if r.userId = userId && r.revokedAt.isNone then { r with revokedAt := some now } else r :=
      Table.get?_update fun _ => by rfl
    rw [hget, Table.get?_of_mem hr, Option.map_some, Option.any_some]
    cases hrev : r.revokedAt <;> simp [hid, hrev]

/-- The closing statements of a batch leave the rows of other users alone, and those of the user if the
transition did not take effect. -/
theorem revokeAccessIf_same {effective : Bool} {now : Nat} {userId a : String} {db : Database}
    (h : a = userId → effective = false) :
    (∀ s, s.userId = a → (s ∈ (revokeAccessIf effective now userId db).2.sessions ↔ s ∈ db.sessions)) ∧
      ∀ r, r.userId = a → (r ∈ (revokeAccessIf effective now userId db).2.refreshTokens ↔ r ∈ db.refreshTokens) := by
  cases effective with
  | false => exact ⟨fun _ _ => Iff.rfl, fun _ _ => Iff.rfl⟩
  | true =>
    have hne : a ≠ userId := fun he => Bool.noConfusion (h he)
    constructor
    · intro s hs
      rw [show s ∈ (revokeAccessIf true now userId db).2.sessions ↔ _ from mem_revokeSessionRows]
      constructor
      · rintro ⟨s', hs', rfl⟩
        split at hs
        · rename_i hp
          simp only [Bool.and_eq_true, decide_eq_true_eq] at hp
          exact absurd (hs.symm.trans hp.1) hne
        · rename_i hp
          rw [if_neg hp]
          exact hs'
      · exact fun hmem => ⟨s, hmem, by rw [decide_eq_false (hs ▸ hne)]; rfl⟩
    · intro r hr
      rw [show r ∈ (revokeAccessIf true now userId db).2.refreshTokens ↔ _ from mem_revokeRows]
      constructor
      · rintro ⟨r', hr', rfl⟩
        split at hr
        · rename_i hp
          simp only [Bool.and_eq_true, decide_eq_true_eq] at hp
          exact absurd (hr.symm.trans hp.1) hne
        · rename_i hp
          rw [if_neg hp]
          exact hr'
      · refine fun hmem => ⟨r, hmem, ?_⟩
        beta_reduce
        rw [decide_eq_false (hr ▸ hne)]
        rfl

theorem version_adminPromotionRevocation (now : Nat) (userId : String) (db : Database) (a : String) :
    version (adminPromotionRevocation now userId db).2 a = (db.users.get? a).map fun u =>
      if u.id = userId && promoted now userId db then u.securityVersion + 1 else u.securityVersion := by
  rw [adminPromotionRevocation, version_revokeAccessIf]
  exact @version_update db _ _ _ (bump_id now) rfl a

theorem adminPromotionRevocation_ends {now : Nat} {userId : String} {db : Database} (h : promoted now userId db = true)
    (hu : (db.users.get? userId).isSome) : EndsAccess userId db (adminPromotionRevocation now userId db).2 := by
  obtain ⟨u, hu⟩ := Option.isSome_iff_exists.1 hu
  refine ⟨⟨u.securityVersion, ?_, ?_⟩, ?_, ?_⟩
  · rw [version, hu, Option.map_some]
  · rw [version_adminPromotionRevocation, hu, Option.map_some, (Table.get?_eq_some.1 hu).2, h, decide_eq_true rfl]
    rfl
  · rw [adminPromotionRevocation, h]
    exact revokeAccessIf_ends.1
  · rw [adminPromotionRevocation, h]
    exact revokeAccessIf_ends.2

theorem adminPromotionRevocation_same {now : Nat} {userId a : String} {db : Database}
    (h : a = userId → promoted now userId db = false) : SameAccess a db (adminPromotionRevocation now userId db).2 := by
  obtain ⟨hsessions, hrefresh⟩ := @revokeAccessIf_same _ now _ _ { db with
    users := db.users.update (fun u => u.id = userId && promoted now userId db) (bump now) (bump_id now) } h
  refine ⟨?_, hsessions, hrefresh⟩
  rw [version_adminPromotionRevocation, version]
  refine Option.map_congr fun u hu => ?_
  rw [if_neg]
  rintro hp
  obtain ⟨hid, hp⟩ := Bool.and_eq_true_iff.1 hp
  rw [h ((Table.get?_eq_some.1 hu).2.symm.trans (of_decide_eq_true hid))] at hp
  cases hp

theorem isAdmin_adminPromotionRevocation (now : Nat) (userId : String) (db : Database) (a : String) :
    isAdmin a (adminPromotionRevocation now userId db).2 = isAdmin a db := by
  obtain ⟨_, _, h⟩ := revokeAccessIf_frame (promoted now userId db) now userId
    { db with users := db.users.update (fun u => u.id = userId && promoted now userId db) (bump now) (bump_id now) }
  rw [adminPromotionRevocation, h]
  rfl

/-! ## The law -/

/-- Group names are unique (a constraint of the schema). -/
def UniqueNames (db : Database) : Prop :=
  (db.groups.rows.map (·.name)).Nodup

/-- Whoever a transaction at `now` makes an administrator loses all access; whoever it does not, and
who was not promoted in the same second before, loses none. -/
structure PromotionLaw (now : Nat) (db db' : Database) : Prop where
  promotes : ∀ a, isAdmin a db = false → isAdmin a db' = true → EndsAccess a db db'
  keeps : ∀ a, ¬ (isAdmin a db = false ∧ isAdmin a db' = true) → promoted now a db = false → SameAccess a db db'

theorem isAdmin_iff_member {db : Database} {a : String} : isAdmin a db = true ↔
    ∃ m ∈ db.userGroups, m.userId = a ∧ (db.groups.get? m.groupId).any (·.name = "admins") = true := by
  simp only [isAdmin, Table.has_iff, Bool.and_eq_true, decide_eq_true_eq]

theorem promoted_iff {now : Nat} {db : Database} {a : String} : promoted now a db = true ↔
    ∃ m ∈ db.userGroups, m.userId = a ∧ (db.groups.get? m.groupId).any (·.name = "admins") = true ∧ m.createdAt = now := by
  simp only [promoted, Table.has_iff, Bool.and_eq_true, decide_eq_true_eq, and_assoc]

/-- A user who becomes a member of `admins` is the one of the batch, and the batch finds out. -/
theorem promoted_of_newcomer {now : Nat} {userId a : String} {db db' : Database} (hjoins : Joins now userId db db')
    (hgroups : db'.groups = db.groups) (h : isAdmin a db = false) (h' : isAdmin a db' = true) :
    a = userId ∧ promoted now userId db' = true ∧ (db.users.get? userId).isSome := by
  obtain ⟨m, hm, hid, hname⟩ := isAdmin_iff_member.1 h'
  rcases hjoins m hm with hold | ⟨hown, hat, -, hu⟩
  · rw [Bool.eq_false_iff] at h
    exact absurd (isAdmin_iff_member.2 ⟨m, hold, hid, hgroups ▸ hname⟩) h
  · exact ⟨hid.symm.trans hown, promoted_iff.2 ⟨m, hm, hown, hname, hat⟩, hu⟩

/-- A batch that finds a promotion made one, unless there was one in the same second. -/
theorem newcomer_of_promoted {now : Nat} {userId : String} {db db' : Database} (hnames : UniqueNames db)
    (hjoins : Joins now userId db db') (hgroups : db'.groups = db.groups) (hbefore : promoted now userId db = false)
    (h : promoted now userId db' = true) : isAdmin userId db = false ∧ isAdmin userId db' = true := by
  obtain ⟨m, hm, hid, hname, hat⟩ := promoted_iff.1 h
  refine ⟨?_, isAdmin_iff_member.2 ⟨m, hm, hid, hname⟩⟩
  rcases hjoins m hm with hold | ⟨-, -, hnew, -⟩
  · rw [Bool.eq_false_iff] at hbefore
    exact absurd (promoted_iff.2 ⟨m, hold, hid, hgroups ▸ hname, hat⟩) hbefore
  · rw [Bool.eq_false_iff]
    intro hadmin
    obtain ⟨m₀, hm₀, hid₀, hname₀⟩ := isAdmin_iff_member.1 hadmin
    -- there is one group named `admins`, so the insert would have found this membership
    obtain ⟨g, hg, hgn⟩ := (Option.any_eq_true _ _).1 (hgroups ▸ hname)
    obtain ⟨g₀, hg₀, hgn₀⟩ := (Option.any_eq_true _ _).1 hname₀
    have hsame : g = g₀ := List.inj_on_of_nodup_map hnames (Table.get?_eq_some.1 hg).1 (Table.get?_eq_some.1 hg₀).1
      ((of_decide_eq_true hgn).trans (of_decide_eq_true hgn₀).symm)
    have hgroup : m₀.groupId = m.groupId :=
      (Table.get?_eq_some.1 hg₀).2.symm.trans ((congrArg GroupRow.id hsame.symm).trans (Table.get?_eq_some.1 hg).2)
    exact Table.get?_eq_none.1 hnew m₀ hm₀ (by rw [hid₀, hgroup])

/-- The transaction of every call obeys the law. -/
theorem transaction_law (c : MembershipCall) {now : Nat} {db : Database} (hnames : UniqueNames db) :
    PromotionLaw now db (c.transaction now db) := by
  unfold MembershipCall.transaction membershipBatch
  by_cases hvalid : c.valid db = true
  swap
  · rw [if_neg hvalid]
    exact ⟨fun a h h' => absurd h' (Bool.eq_false_iff.1 h), fun a _ _ => ⟨rfl, fun _ _ => Iff.rfl, fun _ _ => Iff.rfl⟩⟩
  rw [if_pos hvalid]
  dsimp only
  have hjoins := c.joins now db hvalid
  obtain ⟨userGroups, requests, hframe⟩ := c.memberships_frame now db
  have hgroups : (c.memberships now db).groups = db.groups := by rw [hframe]
  constructor
  · intro a h h'
    rw [isAdmin_adminPromotionRevocation] at h'
    obtain ⟨rfl, hp, hu⟩ := promoted_of_newcomer hjoins hgroups h h'
    obtain ⟨⟨v, hv, hv'⟩, hs, hr⟩ := adminPromotionRevocation_ends hp (by rw [hframe]; exact hu)
    refine ⟨⟨v, ?_, hv'⟩, fun s hmem => hs s ?_, fun r hmem => hr r ?_⟩
    · rw [hframe] at hv
      exact hv
    · rw [hframe]
      exact hmem
    · rw [hframe]
      exact hmem
  · intro a h hbefore
    rw [isAdmin_adminPromotionRevocation] at h
    have hsame : SameAccess a (c.memberships now db) (adminPromotionRevocation now c.userId (c.memberships now db)).2 := by
      refine adminPromotionRevocation_same fun he => ?_
      subst he
      rw [Bool.eq_false_iff]
      exact fun hp => h (newcomer_of_promoted hnames hjoins hgroups hbefore hp)
    refine ⟨hsame.version.trans ?_, fun s hs => (hsame.sessions s hs).trans ?_,
      fun r hr => (hsame.refreshTokens r hr).trans ?_⟩
    all_goals rw [hframe]
    rfl

/-! ## The steps of a call -/

/-- A step that leaves users, memberships, groups, sessions and families as they are. -/
def AccessUntouched (db db' : Database) : Prop :=
  ∃ groupMembershipRequests, db' = { db with groupMembershipRequests }

/-- The protocol whose steps are a transaction of the call, at some clock reading, or touch no access. -/
def transactionProtocol (c : MembershipCall) : Protocol Input World :=
  ⟨fun _ => True, fun _ _ => True, fun w w' => (∃ now, w'.db = c.transaction now w.db) ∨ AccessUntouched w.db w'.db,
    fun _ _ _ => True⟩

theorem transaction_tolerant (c : MembershipCall) : Tolerant (transactionProtocol c) where
  ok := ⟨fun _ => trivial, fun _ _ => trivial⟩
  tickInv := fun _ _ => trivial
  tickRely := fun _ _ => trivial
  tickGuar := fun _ _ => Or.inr ⟨_, rfl⟩
  tickAllow := fun _ _ => trivial
  guarTick := fun _ h => h
  burnInv := fun _ _ => trivial
  burnRely := fun _ => trivial
  burnGuar := fun hb => Or.inr ⟨_, hb.db⟩

/-- Every step of a call is its transaction or touches no access. -/
theorem membershipCall_keeps (c : MembershipCall) : Keeps (transactionProtocol c) c.code := by
  have hΓ := transaction_tolerant c
  have hc := hΓ.toClocked
  have hadd : ∀ groupId userId requireRequest, (∀ now db, c.transaction now db =
      (membershipBatch true (addMembership now groupId userId requireRequest) now userId db).2) →
      Keeps (transactionProtocol c) (addGroupMember groupId userId requireRequest) := by
    intro groupId userId requireRequest htransaction
    refine keeps_addGroupMember hΓ (fun now => .d1Logged hc fun w w' e _ hw' _ => ⟨trivial, Or.inl ⟨now, ?_⟩⟩)
      (.d1 hc fun w w' e _ hw' _ => ⟨trivial, Or.inr ?_⟩)
    · rw [hw', htransaction]
    · rw [hw']
      exact ⟨_, rfl⟩
  cases c with
  | add groupId userId => exact .bind (hadd groupId userId false fun _ _ => rfl) fun _ => .pure _
  | approve groupId userId => exact .bind (hadd groupId userId true fun _ _ => rfl) fun _ => .pure _
  | setGroups userId groupIds =>
    refine keeps_setUserGroups hΓ fun _ now => .d1Logged hc fun w w' e _ hw' _ => ⟨trivial, Or.inl ⟨now, ?_⟩⟩
    rw [hw']
    rfl
  | setGroupsPreserving userId groupIds =>
    refine .bind (keeps_setUserGroupsPreservingActiveAdmin hΓ fun _ now => .d1Logged hc fun w w' e _ hw' _ =>
      ⟨trivial, Or.inl ⟨now, ?_⟩⟩) fun _ => .pure _
    rw [hw']
    rfl

/-- Every step of a call is its transaction at some clock reading or touches no access, and the
transaction ends the access of whoever it promotes and of nobody else, unless there was a promotion in
the same second. -/
theorem promotion_ends_access (c : MembershipCall) :
    Keeps (transactionProtocol c) c.code ∧
      ∀ (now : Nat) (db : Database), UniqueNames db → PromotionLaw now db (c.transaction now db) :=
  ⟨membershipCall_keeps c, fun _ _ hnames => transaction_law c hnames⟩

/-- The deployment with a group `admins` that has no member. -/
def noAdmins : Database :=
  { Deployment.database with
    groups := Deployment.database.groups.insert
      { id := "grp_admins", name := "admins", description := none, isPublic := false, priority := 0 } }

theorem promotion_ends_access_added :
    EndsAccess "usr_a" noAdmins ((MembershipCall.add "grp_admins" "usr_a").transaction 1000 noAdmins) := by
  have hlaw := (promotion_ends_access (.add "grp_admins" "usr_a")).2 1000 noAdmins (by
    show List.Nodup _
    decide +kernel)
  exact hlaw.promotes "usr_a" (by decide +kernel) (by decide +kernel)

end Keyforge.Account
