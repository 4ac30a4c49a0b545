/-
The store of groups, memberships and requests. Every user is in `all`, in at most a hundred groups
besides, and waits for none that it is in or that is protected. Each operation keeps this with a guard
inside the statement that writes; the removal of a member and the update of a group rely on a name they
read before, which stays true since no other group can take the names `admins` and `all`, and none that
has one is renamed or deleted. A request of a user that is gone would abort on its foreign key; the runs
here contain those in which it does and those in which it is stored.
-/
import Keyforge.Account.Admins
import Keyforge.Account.Promotion
import Keyforge.Db.GroupMemberships
import Keyforge.Paths

namespace Keyforge.Account

open Lib Db Auth Tokens

/-! ## The invariant -/

/-- The memberships of a user in groups other than `all`. -/
def otherMemberships (userId : String) (db : Database) : List UserGroupRow :=
  db.userGroups.select fun m => m.userId = userId && !named "all" db m.groupId

/-- The two protected groups exist, names are unique, and what the foreign keys, the triggers and the
guards keep of users, memberships and requests. -/
structure MembershipStore (db : Database) : Prop where
  names : UniqueNames db
  admins : ∃ g, named "admins" db g = true
  universal : ∃ g, named "all" db g = true
  grouped : ∀ m ∈ db.userGroups, (db.groups.get? m.groupId).isSome = true
  everyone : ∀ u ∈ db.users, ∃ m ∈ db.userGroups, m.userId = u.id ∧ named "all" db m.groupId = true
  limited : ∀ userId, (otherMemberships userId db).length ≤ MAX_USER_GROUPS
  unanswered : ∀ r ∈ db.groupMembershipRequests, db.userGroups.get? (r.userId, r.groupId) = none
  unprotected : ∀ r ∈ db.groupMembershipRequests, named "admins" db r.groupId = false ∧ named "all" db r.groupId = false

/-- The groups with protected names are the same. -/
def SameProtected (db db' : Database) : Prop :=
  ∀ name, isProtectedGroupName name = true → ∀ g, named name db' g = named name db g

theorem SameProtected.trans {db db' db'' : Database} (h₁ : SameProtected db db') (h₂ : SameProtected db' db'') :
    SameProtected db db'' :=
  fun name hname g => (h₂ name hname g).trans (h₁ name hname g)

theorem SameProtected.of_groups {db db' : Database} (h : db'.groups = db.groups) : SameProtected db db' := by
  intro name _ g
  unfold named
  rw [h]

theorem SameProtected.admins {db db' : Database} (h : SameProtected db db') (g : String) :
    named "admins" db' g = named "admins" db g :=
  h "admins" (by decide) g

theorem SameProtected.all {db db' : Database} (h : SameProtected db db') (g : String) :
    named "all" db' g = named "all" db g :=
  h "all" (by decide) g

/-- Only one group has a name. -/
theorem named_unique {name : String} {db : Database} (h : UniqueNames db) {g g' : String} (hg : named name db g = true)
    (hg' : named name db g' = true) : g = g' := by
  obtain ⟨row, hmem, rfl, hname⟩ := named_iff.1 hg
  obtain ⟨row', hmem', rfl, hname'⟩ := named_iff.1 hg'
  rw [List.inj_on_of_nodup_map h hmem hmem' (hname.trans hname'.symm)]

theorem mem_otherMemberships {userId : String} {db : Database} {m : UserGroupRow} :
    m ∈ otherMemberships userId db ↔ m ∈ db.userGroups ∧ m.userId = userId ∧ named "all" db m.groupId = false := by
  simp [otherMemberships]

/-! ## Counting -/

/-- Memberships of one user are in different groups. -/
theorem nodup_otherMemberships (userId : String) (db : Database) : ((otherMemberships userId db).map (·.groupId)).Nodup := by
  refine List.Nodup.map_on (fun m hm m' hm' h => ?_) ((List.Nodup.of_map _ db.userGroups.nodup).filter _)
  obtain ⟨hmem, hown, -⟩ := mem_otherMemberships.1 hm
  obtain ⟨hmem', hown', -⟩ := mem_otherMemberships.1 hm'
  exact Table.key_inj hmem hmem' (Prod.ext (hown.trans hown'.symm) h)

/-- A user is in no more groups than a list of them has. -/
theorem length_otherMemberships_le {userId : String} {db : Database} (groupIds : List String)
    (h : ∀ m ∈ otherMemberships userId db, m.groupId ∈ groupIds) : (otherMemberships userId db).length ≤ groupIds.length := by
  have hsub : (otherMemberships userId db).map (·.groupId) ⊆ groupIds := by
    intro g hg
    obtain ⟨m, hm, rfl⟩ := List.mem_map.1 hg
    exact h m hm
  have hlength := (List.subperm_of_subset (nodup_otherMemberships userId db) hsub).length_le
  rwa [List.length_map] at hlength

theorem MembershipStore.limited_of_subset {db db' : Database} (h : MembershipStore db) {userId : String}
    (hsub : ∀ m ∈ otherMemberships userId db', m ∈ otherMemberships userId db) :
    (otherMemberships userId db').length ≤ MAX_USER_GROUPS := by
  have hlength := length_otherMemberships_le ((otherMemberships userId db).map (·.groupId)) fun m hm =>
    List.mem_map.2 ⟨m, hsub m hm, rfl⟩
  rw [List.length_map] at hlength
  exact hlength.trans (h.limited userId)

/-- Where every membership is of a group that exists, the statements count these. -/
theorem groupCount_eq {userId : String} {db : Database} (h : ∀ m ∈ db.userGroups, (db.groups.get? m.groupId).isSome = true) :
    groupCount userId db = (otherMemberships userId db).length := by
  refine congrArg List.length (List.filter_congr fun m hm => ?_)
  obtain ⟨g, hg⟩ := Option.isSome_iff_exists.1 (h m hm)
  unfold named
  rw [hg]
  by_cases hname : g.name = "all" <;> simp [hname]

/-! ## Steps that write no group -/

/-- What a step must show that changes no group. -/
theorem MembershipStore.step {db db' : Database} (h : MembershipStore db) (hgroups : db'.groups = db.groups)
    (hgrouped : ∀ m ∈ db'.userGroups, m ∈ db.userGroups ∨ (db.groups.get? m.groupId).isSome = true)
    (heveryone : ∀ u ∈ db'.users, ∃ m ∈ db'.userGroups, m.userId = u.id ∧ named "all" db m.groupId = true)
    (hlimited : ∀ userId, (otherMemberships userId db').length ≤ MAX_USER_GROUPS)
    (hrequests : ∀ r ∈ db'.groupMembershipRequests, db'.userGroups.get? (r.userId, r.groupId) = none ∧
      named "admins" db r.groupId = false ∧ named "all" db r.groupId = false) :
    MembershipStore db' ∧ SameProtected db db' := by
  have hsame : SameProtected db db' := .of_groups hgroups
  refine ⟨⟨?_, ?_, ?_, fun m hm => ?_, fun u hu => ?_, hlimited, fun r hr => (hrequests r hr).1, fun r hr => ?_⟩, hsame⟩
  · unfold UniqueNames
    rw [hgroups]
    exact h.names
  · obtain ⟨g, hg⟩ := h.admins
    exact ⟨g, (hsame.admins g).trans hg⟩
  · obtain ⟨g, hg⟩ := h.universal
    exact ⟨g, (hsame.all g).trans hg⟩
  · rw [hgroups]
    rcases hgrouped m hm with hold | hnew
    · exact h.grouped m hold
    · exact hnew
  · obtain ⟨m, hm, hown, hall⟩ := heveryone u hu
    exact ⟨m, hm, hown, (hsame.all _).trans hall⟩
  · rw [hsame.admins, hsame.all]
    exact (hrequests r hr).2

/-- A step that adds no membership and no request, and keeps the users and what they have of `all`. -/
theorem MembershipStore.shrink {db db' : Database} (h : MembershipStore db) (hgroups : db'.groups = db.groups)
    (husers : ∀ u ∈ db'.users, ∃ u₀ ∈ db.users, u₀.id = u.id)
    (hmemberships : ∀ m ∈ db'.userGroups, m ∈ db.userGroups)
    (huniversal : ∀ m ∈ db.userGroups, named "all" db m.groupId = true → (∃ u ∈ db'.users, u.id = m.userId) →
      m ∈ db'.userGroups)
    (hrequests : ∀ r ∈ db'.groupMembershipRequests, r ∈ db.groupMembershipRequests) :
    MembershipStore db' ∧ SameProtected db db' := by
  refine h.step hgroups (fun m hm => Or.inl (hmemberships m hm)) (fun u hu => ?_) (fun userId => ?_) fun r hr => ?_
  · obtain ⟨u₀, hu₀, hid⟩ := husers u hu
    obtain ⟨m, hm, hown, hall⟩ := h.everyone u₀ hu₀
    exact ⟨m, huniversal m hm hall ⟨u, hu, hid.symm.trans hown.symm⟩, hown.trans hid, hall⟩
  · refine h.limited_of_subset fun m hm => ?_
    obtain ⟨hmem, hown, hall⟩ := mem_otherMemberships.1 hm
    rw [SameProtected.all (.of_groups hgroups)] at hall
    exact mem_otherMemberships.2 ⟨hmemberships m hmem, hown, hall⟩
  · refine ⟨Table.get?_eq_none.2 fun m hm => ?_, h.unprotected r (hrequests r hr)⟩
    exact Table.get?_eq_none.1 (h.unanswered r (hrequests r hr)) m (hmemberships m hm)

/-! ## Memberships -/

/-- Joining groups that exist: the requests that are answered go. -/
theorem MembershipStore.join {db : Database} (h : MembershipStore db) {now : Nat} {userId : String} {groupIds : List String}
    (hexist : ∀ g ∈ groupIds, (db.groups.get? g).isSome = true)
    (hlimit : (otherMemberships userId (joinGroups now userId groupIds db)).length ≤ MAX_USER_GROUPS) :
    MembershipStore (joinGroups now userId groupIds db) ∧ SameProtected db (joinGroups now userId groupIds db) := by
  refine h.step rfl (fun m hm => ?_) (fun u hu => ?_) (fun id => ?_) fun r hr => ?_
  · rcases mem_joinGroups_iff hm with hold | ⟨-, -, hg, -⟩
    · exact Or.inl hold
    · exact Or.inr (hexist _ hg)
  · obtain ⟨m, hm, hown, hall⟩ := h.everyone u hu
    exact ⟨m, mem_joinGroups hm, hown, hall⟩
  · by_cases hid : id = userId
    · rw [hid]
      exact hlimit
    · refine h.limited_of_subset fun m hm => ?_
      obtain ⟨hmem, hown, hall⟩ := mem_otherMemberships.1 hm
      rcases mem_joinGroups_iff hmem with hold | ⟨hjoined, -⟩
      · exact mem_otherMemberships.2 ⟨hold, hown, hall⟩
      · exact absurd (hown.symm.trans hjoined) hid
  · obtain ⟨hold, hkept⟩ := Table.mem_delete.1 hr
    refine ⟨Table.get?_eq_none.2 fun m hm hk => ?_, h.unprotected r hold⟩
    obtain ⟨hid, hgid⟩ := Prod.mk.inj hk
    rcases mem_joinGroups_iff hm with hm | ⟨hown, -, hg, -⟩
    · exact Table.get?_eq_none.1 (h.unanswered r hold) m hm hk
    · -- a request that the new membership answers has been deleted
      have hnone := h.unanswered r hold
      rw [← hid, hown] at hnone
      simp [← hid, hown, ← hgid, hg] at hkept
      rw [hgid, hnone] at hkept
      cases hkept

theorem MembershipStore.add {db : Database} (h : MembershipStore db) (now : Nat) (groupId userId : String)
    (requireRequest : Bool) : MembershipStore (addMembership now groupId userId requireRequest db) ∧
      SameProtected db (addMembership now groupId userId requireRequest db) := by
  unfold addMembership
  split
  · rename_i hguard
    simp only [addGuard, Bool.and_eq_true, decide_eq_true_eq, groupCount_eq h.grouped] at hguard
    refine h.join (fun g hg => ?_) ?_
    · rw [List.mem_singleton.1 hg]
      exact hguard.1.1.2
    · -- at most the new group comes to those counted
      refine (length_otherMemberships_le (groupId :: (otherMemberships userId db).map (·.groupId)) fun m hm => ?_).trans ?_
      · obtain ⟨hmem, hown, hall⟩ := mem_otherMemberships.1 hm
        rcases mem_joinGroups_iff hmem with hold | ⟨-, -, hg, -⟩
        · exact List.mem_cons_of_mem _ (List.mem_map.2 ⟨m, mem_otherMemberships.2 ⟨hold, hown, hall⟩, rfl⟩)
        · exact List.mem_cons.2 (Or.inl (List.mem_singleton.1 hg))
      · rw [List.length_cons, List.length_map]
        omega
  · exact h.step rfl (fun m hm => Or.inl hm) h.everyone h.limited fun r hr => ⟨h.unanswered r hr, h.unprotected r hr⟩

/-- What a user has of desired groups and `all` alone is within the limit if the desired groups are. -/
theorem length_desired_le {userId : String} {db : Database} {desired : List String}
    (hmem : ∀ m ∈ db.userGroups, m.userId = userId → m.groupId ∈ desired ∨ named "all" db m.groupId = true)
    (hlength : desired.length ≤ MAX_USER_GROUPS) : (otherMemberships userId db).length ≤ MAX_USER_GROUPS := by
  refine (length_otherMemberships_le desired fun m hm => ?_).trans hlength
  obtain ⟨hm, hown, hall⟩ := mem_otherMemberships.1 hm
  rcases hmem m hm hown with hdesired | huniversal
  · exact hdesired
  · rw [huniversal] at hall
    cases hall

/-- What is left of a user's memberships is desired, or `all`. -/
theorem mem_leaveGroups {userId : String} {desired : List String} {db : Database} {m : UserGroupRow} :
    m ∈ (leaveGroups userId desired db).userGroups ↔
      m ∈ db.userGroups ∧ (m.userId = userId → m.groupId ∈ desired ∨ named "all" db m.groupId = true) := by
  refine Table.mem_delete.trans (and_congr_right fun _ => ?_)
  by_cases hown : m.userId = userId <;> simp [hown, named, or_iff_not_imp_left]

/-- A step that replaces the memberships of a user by desired groups that exist, all but `all`. -/
theorem MembershipStore.replaced {db db' : Database} (h : MembershipStore db) {userId : String} {desired : List String}
    (hvalid : joinable userId desired db = true) (hlength : desired.length ≤ MAX_USER_GROUPS)
    (hgroups : db'.groups = db.groups) (husers : db'.users = db.users)
    (hnew : ∀ m ∈ db'.userGroups, m ∈ db.userGroups ∨ m.userId = userId ∧ m.groupId ∈ desired)
    (hown : ∀ m ∈ db'.userGroups, m.userId = userId → m.groupId ∈ desired ∨ named "all" db m.groupId = true)
    (huniversal : ∀ m ∈ db.userGroups, named "all" db m.groupId = true → m ∈ db'.userGroups)
    (hrequests : ∀ r ∈ db'.groupMembershipRequests, r ∈ db.groupMembershipRequests ∧
      ¬(r.userId = userId ∧ r.groupId ∈ desired)) : MembershipStore db' ∧ SameProtected db db' := by
  have hsame : SameProtected db db' := .of_groups hgroups
  refine h.step hgroups (fun m hm => (hnew m hm).imp_right fun hjoined => ?_) (fun u hu => ?_) (fun id => ?_)
    fun r hr => ⟨Table.get?_eq_none.2 fun m hm hk => ?_, h.unprotected r (hrequests r hr).1⟩
  · rw [joinable, Bool.or_eq_true, List.isEmpty_iff] at hvalid
    rcases hvalid with rfl | hvalid
    · exact absurd hjoined.2 List.not_mem_nil
    · exact List.all_eq_true.1 (Bool.and_eq_true_iff.1 hvalid).2 _ hjoined.2
  · rw [husers] at hu
    obtain ⟨m, hm, hid, hall⟩ := h.everyone u hu
    exact ⟨m, huniversal m hm hall, hid, hall⟩
  · by_cases hid : id = userId
    · subst hid
      refine length_desired_le (fun m hm hm' => ?_) hlength
      rw [hsame.all]
      exact hown m hm hm'
    · refine h.limited_of_subset fun m hm => ?_
      obtain ⟨hmem, hid', hall⟩ := mem_otherMemberships.1 hm
      rw [hsame.all] at hall
      refine mem_otherMemberships.2 ⟨(hnew m hmem).resolve_right fun hjoined => ?_, hid', hall⟩
      exact hid (hid'.symm.trans hjoined.1)
  · obtain ⟨hold, hopen⟩ := hrequests r hr
    obtain ⟨hid, hgid⟩ := Prod.mk.inj hk
    rcases hnew m hm with hm | ⟨hm, hdesired⟩
    · exact Table.get?_eq_none.1 (h.unanswered r hold) m hm hk
    · exact hopen ⟨hid.symm.trans hm, hgid ▸ hdesired⟩

/-- A request is left only where no desired group answers it. -/
theorem mem_joinGroups_requests {db : Database} {now : Nat} {userId : String} {desired : List String}
    {r : GroupMembershipRequestRow} (hnone : db.userGroups.get? (r.userId, r.groupId) = none)
    (hr : r ∈ (joinGroups now userId desired db).groupMembershipRequests) :
    r ∈ db.groupMembershipRequests ∧ ¬(r.userId = userId ∧ r.groupId ∈ desired) := by
  obtain ⟨hold, hkept⟩ := Table.mem_delete.1 hr
  refine ⟨hold, ?_⟩
  rintro ⟨rfl, hg⟩
  simp [hg, hnone] at hkept

/-- The statements of a replacement without a guard. -/
theorem MembershipStore.set {db : Database} (h : MembershipStore db) {now : Nat} {userId : String} {desired : List String}
    (hvalid : joinable userId desired db = true) (hlength : desired.length ≤ MAX_USER_GROUPS) :
    MembershipStore (joinGroups now userId desired (leaveGroups userId desired db)) ∧
      SameProtected db (joinGroups now userId desired (leaveGroups userId desired db)) := by
  refine h.replaced hvalid hlength rfl rfl (fun m hm => ?_) (fun m hm hown => ?_) (fun m hm hall => ?_) fun r hr => ?_
  · rcases mem_joinGroups_iff hm with hold | ⟨hown, -, hg, -⟩
    · exact Or.inl (leaveGroups_subset hold)
    · exact Or.inr ⟨hown, hg⟩
  · rcases mem_joinGroups_iff hm with hold | ⟨-, -, hg, -⟩
    · exact (mem_leaveGroups.1 hold).2 hown
    · exact Or.inl hg
  · exact mem_joinGroups (mem_leaveGroups.2 ⟨hm, fun _ => Or.inr hall⟩)
  · have hold : r ∈ db.groupMembershipRequests := (Table.mem_delete.1 hr).1
    have hnone : (leaveGroups userId desired db).userGroups.get? (r.userId, r.groupId) = none :=
      Table.get?_eq_none.2 fun m hm => Table.get?_eq_none.1 (h.unanswered r hold) m (leaveGroups_subset hm)
    have hopen := mem_joinGroups_requests hnone hr
    exact hopen

/-- The guard of a replacement, asked again after the insert, gives the same answer. -/
theorem replacementIsSafe_joined {db : Database} {now : Nat} {userId : String} {desired : List String}
    (hsafe : replacementIsSafe userId desired db = true) :
    replacementIsSafe userId desired (joinGroups now userId desired db) = true := by
  rw [replacementIsSafe, Bool.or_eq_true] at hsafe
  rcases hsafe with hkeeps | hsafe
  · exact Bool.or_eq_true_iff.2 (Or.inl hkeeps)
  · by_cases hkeeps : (desired.any fun g => named "admins" db g) = true
    · exact Bool.or_eq_true_iff.2 (Or.inl hkeeps)
    · -- the insert makes no one an administrator, and leaves the others what they are
      have hadmin : ∀ a, isAdmin a (joinGroups now userId desired db) = isAdmin a db := by
        intro a
        rw [Bool.eq_iff_iff, isAdmin_iff, isAdmin_iff]
        constructor
        · rintro ⟨m, hm, hown, hgroup⟩
          rcases mem_joinGroups_iff hm with hold | ⟨-, -, hg, -⟩
          · exact ⟨m, hold, hown, hgroup⟩
          · exact absurd (List.any_eq_true.2 ⟨m.groupId, hg, hgroup⟩) hkeeps
        · rintro ⟨m, hm, hown, hgroup⟩
          exact ⟨m, mem_joinGroups hm, hown, hgroup⟩
      have hother : anotherActiveAdmin userId (joinGroups now userId desired db) = anotherActiveAdmin userId db := by
        rw [Bool.eq_iff_iff, anotherActiveAdmin_iff, anotherActiveAdmin_iff]
        refine exists_congr fun a => and_congr_right fun _ => ?_
        rw [administrator, administrator, hadmin]
        rfl
      refine Bool.or_eq_true_iff.2 (Or.inr ?_)
      rw [hadmin, hother]
      exact hsafe

/-- A replacement takes place as a whole or not at all. -/
theorem replaceGroups_eq (now : Nat) (userId : String) (desired : List String) (db : Database) :
    replaceGroups now userId desired db = if replacementIsSafe userId desired db then
      leaveGroups userId desired (joinGroups now userId desired db) else db := by
  unfold replaceGroups
  by_cases hsafe : replacementIsSafe userId desired db = true
  · simp [hsafe, replacementIsSafe_joined hsafe]
  · simp [hsafe]

theorem MembershipStore.replace {db : Database} (h : MembershipStore db) {now : Nat} {userId : String}
    {desired : List String} (hvalid : (!replacementIsSafe userId desired db || joinable userId desired db) = true)
    (hlength : desired.length ≤ MAX_USER_GROUPS) :
    MembershipStore (replaceGroups now userId desired db) ∧ SameProtected db (replaceGroups now userId desired db) := by
  rw [replaceGroups_eq]
  by_cases hsafe : replacementIsSafe userId desired db = true
  · rw [if_pos hsafe]
    rw [hsafe, Bool.not_true, Bool.false_or] at hvalid
    refine h.replaced hvalid hlength rfl rfl (fun m hm => ?_) (fun m hm hown => ?_) (fun m hm hall => ?_) fun r hr => ?_
    · exact (mem_joinGroups_iff (leaveGroups_subset hm)).imp_right fun hjoined => ⟨hjoined.1, hjoined.2.2.1⟩
    · exact (mem_leaveGroups.1 hm).2 hown
    · exact mem_leaveGroups.2 ⟨mem_joinGroups hm, fun _ => Or.inr hall⟩
    · have hr : r ∈ (joinGroups now userId desired db).groupMembershipRequests := hr
      exact mem_joinGroups_requests (h.unanswered r (Table.mem_delete.1 hr).1) hr
  · rw [if_neg hsafe]
    exact ⟨h, .of_groups rfl⟩

/-- What a call asks for is within the limit. -/
def MembershipCall.withinLimit : MembershipCall → Prop
  | .add _ _ | .approve _ _ => True
  | .setGroups _ groupIds | .setGroupsPreserving _ groupIds => groupIds.eraseDups.length ≤ MAX_USER_GROUPS

/-- The statements that close a batch write the version of a user, its sessions and its families. -/
theorem adminPromotionRevocation_frame (now : Nat) (userId : String) (db : Database) :
    ∃ sessions refreshTokens, (adminPromotionRevocation now userId db).2 = { db with
      users := db.users.update (fun u => u.id = userId && promoted now userId db) (bump now) (bump_id now)
      sessions
      refreshTokens } :=
  revokeAccessIf_frame (promoted now userId db) now userId { db with
    users := db.users.update (fun u => u.id = userId && promoted now userId db) (bump now) (bump_id now) }

theorem MembershipStore.close {db : Database} (h : MembershipStore db) (now : Nat) (userId : String) :
    MembershipStore (adminPromotionRevocation now userId db).2 ∧ SameProtected db (adminPromotionRevocation now userId db).2 := by
  obtain ⟨_, _, hframe⟩ := adminPromotionRevocation_frame now userId db
  rw [hframe]
  refine h.shrink rfl (fun u hu => ?_) (fun _ hm => hm) (fun _ hm _ _ => hm) fun _ hr => hr
  obtain ⟨u₀, hu₀, rfl⟩ := (Table.mem_update (bump_id now)).1 hu
  refine ⟨u₀, hu₀, ?_⟩
  split <;> rfl

/-- The transaction of every call that writes memberships. -/
theorem MembershipStore.transaction {db : Database} (h : MembershipStore db) {c : MembershipCall} (hlimit : c.withinLimit)
    (now : Nat) : MembershipStore (c.transaction now db) ∧ SameProtected db (c.transaction now db) := by
  unfold MembershipCall.transaction membershipBatch
  by_cases hvalid : c.valid db = true
  swap
  · rw [if_neg hvalid]
    exact ⟨h, .of_groups rfl⟩
  rw [if_pos hvalid]
  have hwritten : MembershipStore (c.memberships now db) ∧ SameProtected db (c.memberships now db) := by
    cases c with
    | add groupId userId => exact h.add now groupId userId false
    | approve groupId userId => exact h.add now groupId userId true
    | setGroups userId groupIds => exact h.set hvalid hlimit
    | setGroupsPreserving userId groupIds => exact h.replace hvalid hlimit
  have hclosed := hwritten.1.close now c.userId
  exact ⟨hclosed.1, hwritten.2.trans hclosed.2⟩

/-! ## Users -/

/-- A new user joins `all`. -/
theorem MembershipStore.insertUser {db : Database} (h : MembershipStore db) (now : Nat) (u : UserRow) :
    MembershipStore (insertUser now u db).2 ∧ SameProtected db (insertUser now u db).2 := by
  unfold Db.insertUser
  split
  · exact ⟨h, .of_groups rfl⟩
  have huniversal : ∀ g ∈ (db.groups.select (·.name = "all")).map (·.id), named "all" db g = true := by
    intro g hg
    obtain ⟨row, hrow, rfl⟩ := List.mem_map.1 hg
    obtain ⟨hmem, hname⟩ := Table.mem_select.1 hrow
    exact named_iff.2 ⟨row, hmem, rfl, of_decide_eq_true hname⟩
  refine h.step rfl (fun m hm => ?_) (fun v hv => ?_) (fun id => ?_) fun r hr => ?_
  · refine (mem_joinGroups_iff hm).imp_right fun hjoined => ?_
    obtain ⟨row, hrow, -⟩ := (Option.any_eq_true _ _).1 (huniversal _ hjoined.2.2.1)
    exact Option.isSome_iff_exists.2 ⟨row, hrow⟩
  · have hv : v ∈ db.users.insert u := hv
    rcases Table.mem_insert.1 hv with hold | ⟨rfl, -⟩
    · obtain ⟨m, hm, hown, hall⟩ := h.everyone v hold
      exact ⟨m, mem_joinGroups hm, hown, hall⟩
    · obtain ⟨g, hg⟩ := h.universal
      obtain ⟨row, hrow, rfl, hname⟩ := named_iff.1 hg
      have hall : row.id ∈ (db.groups.select (·.name = "all")).map (·.id) :=
        List.mem_map.2 ⟨row, Table.mem_select.2 ⟨hrow, decide_eq_true hname⟩, rfl⟩
      have hjoined : ∃ m ∈ (joinGroups now v.id ((db.groups.select (·.name = "all")).map (·.id))
          { db with users := db.users.insert v }).userGroups, m.userId = v.id ∧ m.groupId = row.id := joined_of_mem hall
      obtain ⟨m, hm, hown, hgroup⟩ := hjoined
      exact ⟨m, hm, hown, hgroup ▸ hg⟩
  · refine h.limited_of_subset fun m hm => ?_
    obtain ⟨hmem, hown, hall⟩ := mem_otherMemberships.1 hm
    have hall : named "all" db m.groupId = false := hall
    refine mem_otherMemberships.2 ⟨(mem_joinGroups_iff hmem).resolve_right fun hjoined => ?_, hown, hall⟩
    rw [huniversal _ hjoined.2.2.1] at hall
    cases hall
  · have hold : r ∈ db.groupMembershipRequests := (Table.mem_delete.1 hr).1
    refine ⟨Table.get?_eq_none.2 fun m hm hk => ?_, h.unprotected r hold⟩
    rcases mem_joinGroups_iff hm with hm | ⟨-, -, hg, -⟩
    · exact Table.get?_eq_none.1 (h.unanswered r hold) m hm hk
    · -- no one waits for `all`
      have hall := huniversal _ hg
      rw [(Prod.mk.inj hk).2, (h.unprotected r hold).2] at hall
      cases hall

theorem MembershipStore.deleteUser {db : Database} (h : MembershipStore db) (guard : Database → UserRow → Bool) (id : String) :
    MembershipStore (deleteUserIf guard id db).2 ∧ SameProtected db (deleteUserIf guard id db).2 := by
  unfold deleteUserIf
  split
  · refine h.shrink rfl (fun u hu => ⟨u, (Table.mem_delete.1 hu).1, rfl⟩) (fun m hm => (Table.mem_delete.1 hm).1)
      (fun m hm _ hkept => ?_) fun r hr => (Table.mem_delete.1 hr).1
    obtain ⟨u, hu, hid⟩ := hkept
    have hne : u.id ≠ id := of_decide_eq_false (Table.mem_delete.1 hu).2
    exact Table.mem_delete.2 ⟨hm, decide_eq_false (hid ▸ hne)⟩
  · exact ⟨h, .of_groups rfl⟩

/-! ## Requests and removals -/

theorem mem_foldl_insertRequest {userId : String} {r : GroupMembershipRequestRow} : ∀ {groupIds : List String}
    {t : Table fun r : GroupMembershipRequestRow => (r.userId, r.groupId)},
    r ∈ groupIds.foldl (fun t groupId => t.insert { userId, groupId }) t → r ∈ t ∨ r.userId = userId ∧ r.groupId ∈ groupIds
  | [], t, h => Or.inl h
  | g :: groupIds, t, h => by
    rcases mem_foldl_insertRequest (t := t.insert { userId, groupId := g }) h with h | ⟨hown, hg⟩
    · rcases Table.mem_insert.1 h with h | ⟨rfl, -⟩
      · exact Or.inl h
      · exact Or.inr ⟨rfl, List.mem_cons_self⟩
    · exact Or.inr ⟨hown, List.mem_cons_of_mem _ hg⟩

/-- New requests are for groups that the user is not in and that are not protected. -/
theorem MembershipStore.request {db : Database} (h : MembershipStore db) (userId : String) {matching : GroupRow → Bool}
    (hmatching : ∀ g, matching g = true → isProtectedGroupName g.name = false) :
    MembershipStore (insertRequests userId matching db).2 ∧ SameProtected db (insertRequests userId matching db).2 := by
  refine h.step rfl (fun m hm => Or.inl hm) h.everyone h.limited fun r hr => ?_
  rcases mem_foldl_insertRequest hr with hold | ⟨hown, hg⟩
  · exact ⟨h.unanswered r hold, h.unprotected r hold⟩
  · obtain ⟨row, hrow, hid⟩ := List.mem_map.1 hg
    obtain ⟨hmem, hselected⟩ := Table.mem_select.1 hrow
    obtain ⟨hmatch, hout⟩ := Bool.and_eq_true_iff.1 hselected
    have hname := hmatching row hmatch
    simp only [isProtectedGroupName, Bool.or_eq_false_iff, decide_eq_false_iff_not] at hname
    have hrow : db.groups.get? r.groupId = some row := Table.get?_eq_some.2 ⟨hmem, hid⟩
    refine ⟨Table.get?_eq_none.2 fun m hm hk => ?_, ?_, ?_⟩
    · obtain ⟨hk₁, hk₂⟩ := Prod.mk.inj hk
      rw [Bool.not_eq_true'] at hout
      refine Bool.eq_false_iff.1 hout (Table.has_iff.2 ⟨m, hm, ?_⟩)
      simp [hk₁, hk₂, hown, hid]
    · simp [named, hrow, hname.1]
    · simp [named, hrow, hname.2]

theorem MembershipStore.dropRequests {db : Database} (h : MembershipStore db) (p : GroupMembershipRequestRow → Bool) :
    MembershipStore { db with groupMembershipRequests := db.groupMembershipRequests.delete p } ∧
      SameProtected db { db with groupMembershipRequests := db.groupMembershipRequests.delete p } :=
  h.shrink rfl (fun u hu => ⟨u, hu, rfl⟩) (fun _ hm => hm) (fun _ hm _ _ => hm) fun _ hr => (Table.mem_delete.1 hr).1

theorem MembershipStore.leaveGroup {db : Database} (h : MembershipStore db) {groupId : String} (userId : String)
    (hnot : named "all" db groupId = false) :
    MembershipStore (leaveGroup groupId userId db).2 ∧ SameProtected db (leaveGroup groupId userId db).2 := by
  refine h.shrink rfl (fun u hu => ⟨u, hu, rfl⟩) (fun m hm => (Table.mem_delete.1 hm).1) (fun m hm hall _ => ?_) fun _ hr => hr
  refine Table.mem_delete.2 ⟨hm, Bool.eq_false_iff.2 fun hleaves => ?_⟩
  simp only [leaveGuard, Bool.and_eq_true, decide_eq_true_eq] at hleaves
  rw [hleaves.1.2, hnot] at hall
  cases hall

/-! ## Groups -/

/-- A step that changes groups, but none with a protected name, and keeps the users. -/
theorem MembershipStore.regroup {db db' : Database} (h : MembershipStore db) (hsame : SameProtected db db')
    (hnames : UniqueNames db') (husers : db'.users = db.users) (hmemberships : ∀ m ∈ db'.userGroups, m ∈ db.userGroups)
    (huniversal : ∀ m ∈ db.userGroups, named "all" db m.groupId = true → m ∈ db'.userGroups)
    (hgrouped : ∀ m ∈ db'.userGroups, (db.groups.get? m.groupId).isSome = true → (db'.groups.get? m.groupId).isSome = true)
    (hrequests : ∀ r ∈ db'.groupMembershipRequests, r ∈ db.groupMembershipRequests) :
    MembershipStore db' ∧ SameProtected db db' := by
  refine ⟨⟨hnames, ?_, ?_, fun m hm => hgrouped m hm (h.grouped m (hmemberships m hm)), fun u hu => ?_, fun userId => ?_,
    fun r hr => Table.get?_eq_none.2 fun m hm => ?_, fun r hr => ?_⟩, hsame⟩
  · obtain ⟨g, hg⟩ := h.admins
    exact ⟨g, (hsame.admins g).trans hg⟩
  · obtain ⟨g, hg⟩ := h.universal
    exact ⟨g, (hsame.all g).trans hg⟩
  · rw [husers] at hu
    obtain ⟨m, hm, hown, hall⟩ := h.everyone u hu
    exact ⟨m, huniversal m hm hall, hown, (hsame.all _).trans hall⟩
  · refine h.limited_of_subset fun m hm => ?_
    obtain ⟨hmem, hown, hall⟩ := mem_otherMemberships.1 hm
    rw [hsame.all] at hall
    exact mem_otherMemberships.2 ⟨hmemberships m hmem, hown, hall⟩
  · exact Table.get?_eq_none.1 (h.unanswered r (hrequests r hr)) m (hmemberships m hm)
  · rw [hsame.admins, hsame.all]
    exact h.unprotected r (hrequests r hr)

theorem MembershipStore.insertGroup {db : Database} (h : MembershipStore db) (g : GroupRow) :
    MembershipStore (insertGroup g db).2 ∧ SameProtected db (insertGroup g db).2 := by
  unfold Db.insertGroup
  by_cases htaken : db.groups.has (fun other => other.id = g.id || other.name.toLower = g.name.toLower) = true
  · rw [if_pos htaken]
    exact ⟨h, .of_groups rfl⟩
  rw [if_neg htaken]
  have hfree : ∀ other ∈ db.groups, other.id ≠ g.id ∧ other.name ≠ g.name := by
    intro other hother
    constructor
    · exact fun he => htaken (Table.has_iff.2 ⟨other, hother, by simp [he]⟩)
    · exact fun he => htaken (Table.has_iff.2 ⟨other, hother, by simp [he]⟩)
  have hnone : db.groups.get? g.id = none := Table.get?_eq_none.2 fun other hother => (hfree other hother).1
  have hsame : SameProtected db { db with groups := db.groups.insert g } := by
    intro name hname id
    rw [named, Table.get?_insert hnone]
    split
    · rename_i hid
      subst hid
      -- both protected names are taken
      have hne : g.name ≠ name := by
        have hexists : ∃ g', named name db g' = true := by
          rw [isProtectedGroupName, Bool.or_eq_true, decide_eq_true_eq, decide_eq_true_eq] at hname
          rcases hname with rfl | rfl
          · exact h.admins
          · exact h.universal
        obtain ⟨g', hg'⟩ := hexists
        obtain ⟨other, hother, -, rfl⟩ := named_iff.1 hg'
        exact (hfree other hother).2.symm
      simp [named, hnone, hne]
    · rfl
  refine h.regroup hsame ?_ rfl (fun _ hm => hm) (fun _ hm _ => hm) (fun m _ hsome => ?_) fun _ hr => hr
  · have hrows : (db.groups.insert g).rows = db.groups.rows ++ [g] :=
      Table.rows_insert (Table.get?_eq_none.2 fun other hother => (hfree other hother).1)
    unfold UniqueNames
    rw [hrows, List.map_append, List.nodup_append]
    refine ⟨h.names, List.nodup_singleton _, fun name hname name' hname' => ?_⟩
    obtain ⟨other, hother, rfl⟩ := List.mem_map.1 hname
    rw [List.map_singleton, List.mem_singleton] at hname'
    rw [hname']
    exact (hfree other hother).2
  · obtain ⟨row, hrow⟩ := Option.isSome_iff_exists.1 hsome
    exact Option.isSome_iff_exists.2 ⟨row, Table.get?_insert_mono hrow⟩

/-- A rename that was checked to leave protected names where they are. -/
theorem MembershipStore.renameGroup {db : Database} (h : MembershipStore db) {id normalized : String}
    {description : Option String} {isPublic : Bool} {priority : Nat}
    (hchecked : ∀ name, isProtectedGroupName name = true → named name db id = true → normalized = name) :
    MembershipStore (renameGroup id normalized description isPublic priority db).2 ∧
      SameProtected db (renameGroup id normalized description isPublic priority db).2 := by
  have hsame : SameProtected db (Db.renameGroup id normalized description isPublic priority db).2 := by
    intro name hname
    refine renameGroup_named ?_ (hchecked name hname)
    rw [isProtectedGroupName, Bool.or_eq_true, decide_eq_true_eq, decide_eq_true_eq] at hname
    rcases hname with rfl | rfl
    · exact h.admins
    · exact h.universal
  refine h.regroup hsame ?_ rfl (fun _ hm => hm) (fun _ hm _ => hm) (fun m _ hsome => ?_) fun _ hr => hr
  · unfold UniqueNames
    show ((db.groups.rows.map fun g => if renameGuard id normalized db g then
      editedGroup normalized description isPublic priority g else g).map (·.name)).Nodup
    rw [List.map_map]
    refine List.Nodup.map_on (fun a ha b hb hab => ?_) (List.Nodup.of_map _ db.groups.nodup)
    -- a row that is edited takes a name that no other row has
    have hedited : ∀ {a b : GroupRow}, b ∈ db.groups → renameGuard id normalized db a = true → a.id ≠ b.id →
        b.name ≠ normalized := by
      intro a b hb hguard hne hname
      obtain ⟨hid, hfree⟩ := Bool.and_eq_true_iff.1 hguard
      rw [Bool.not_eq_true'] at hfree
      refine Bool.eq_false_iff.1 hfree (Table.has_iff.2 ⟨b, hb, ?_⟩)
      rw [← of_decide_eq_true hid]
      simp [hname, hne.symm]
    by_contra hne
    have hids : a.id ≠ b.id := fun he => hne (Table.key_inj ha hb he)
    simp only [Function.comp] at hab
    split at hab
    · rename_i hga
      split at hab
      · rename_i hgb
        have ha' := of_decide_eq_true (Bool.and_eq_true_iff.1 hga).1
        exact hids (ha'.trans (of_decide_eq_true (Bool.and_eq_true_iff.1 hgb).1).symm)
      · exact hedited hb hga hids hab.symm
    · split at hab
      · rename_i hgb
        exact hedited ha hgb hids.symm hab
      · exact hne (List.inj_on_of_nodup_map h.names ha hb hab)
  · show ((db.groups.update _ _ (editedGroup_id normalized description isPublic priority)).get? m.groupId).isSome = true
    rw [Table.isSome_get?_update]
    exact hsome

theorem MembershipStore.deleteGroup {db : Database} (h : MembershipStore db) (id : String) :
    MembershipStore (deleteGroupStatement id db).2 ∧ SameProtected db (deleteGroupStatement id db).2 := by
  have hsame : SameProtected db (deleteGroupStatement id db).2 := fun _ hname => deleteGroupStatement_named hname id db
  revert hsame
  unfold deleteGroupStatement
  split
  · rename_i hdeletable
    intro hsame
    refine h.regroup hsame ?_ rfl (fun m hm => (Table.mem_delete.1 hm).1) (fun m hm hall => ?_) (fun m hm hsome => ?_)
      fun r hr => (Table.mem_delete.1 hr).1
    · exact h.names.sublist (List.filter_sublist.map _)
    · refine Table.mem_delete.2 ⟨hm, decide_eq_false ?_⟩
      rintro rfl
      rw [not_named_of_deletable rfl hdeletable] at hall
      cases hall
    · have hne : m.groupId ≠ id := of_decide_eq_false (Table.mem_delete.1 hm).2
      obtain ⟨row, hrow⟩ := Option.isSome_iff_exists.1 hsome
      have hid := (Table.get?_eq_some.1 hrow).2
      show ((db.groups.delete (·.id = id)).get? m.groupId).isSome = true
      rw [Table.get?_delete, hrow, Option.filter_some, decide_eq_false (hid ▸ hne)]
      rfl
  · exact fun _ => ⟨h, .of_groups rfl⟩

/-! ## The operations -/

inductive StoreCall where
  | createUser (id : String) (input : CreateUserInput)
  | deleteUser (id : String)
  | deleteUserPreservingActiveAdmin (id : String)
  | createGroup (id name : String) (description : Option String) (isPublic : Bool) (priority : Nat)
  | updateGroup (id name : String) (description : Option String) (isPublic : Option Bool) (priority : Option Nat)
  | deleteGroup (id : String)
  | add (groupId userId : String)
  | request (userId groupId : String)
  | requestHidden (userId exactGroupName : String)
  | approve (groupId userId : String)
  | reject (groupId userId : String)
  | cancel (userId groupId : String)
  | remove (groupId userId : String)
  | setUserGroups (userId : String) (groupIds : List String)
  | setUserGroupsPreservingActiveAdmin (userId : String) (groupIds : List String)
  deriving DecidableEq

/-- The operations; only an approval's answer is looked at. -/
def StoreCall.code (env : Env) : StoreCall → App (Option AddGroupMemberResult)
  | .createUser id input => (fun _ => none) <$> Db.createUser [] id input
  | .deleteUser id => (fun _ => none) <$> Db.deleteUser [] [] id
  | .deleteUserPreservingActiveAdmin id => (fun _ => none) <$> Db.deleteUserPreservingActiveAdmin id
  | .createGroup id name description isPublic priority =>
    (fun _ => none) <$> Db.createGroup env id name description isPublic priority
  | .updateGroup id name description isPublic priority =>
    (fun _ => none) <$> Db.updateGroup env id name description isPublic priority
  | .deleteGroup id => (fun _ => none) <$> Db.deleteGroup id
  | .add groupId userId => (fun _ => none) <$> addUserToPermissionGroup groupId userId
  | .request userId groupId => (fun _ => none) <$> requestPermissionGroupMembership userId groupId
  | .requestHidden userId exactGroupName => (fun _ => none) <$> requestHiddenPermissionGroupMembership userId exactGroupName
  | .approve groupId userId => some <$> approvePermissionGroupMembershipRequest groupId userId
  | .reject groupId userId => (fun _ => none) <$> rejectPermissionGroupMembershipRequest groupId userId
  | .cancel userId groupId => (fun _ => none) <$> cancelPermissionGroupMembershipRequest userId groupId
  | .remove groupId userId => (fun _ => none) <$> removeUserFromPermissionGroup groupId userId
  | .setUserGroups userId groupIds => (fun _ => none) <$> Db.setUserGroups userId groupIds
  | .setUserGroupsPreservingActiveAdmin userId groupIds =>
    (fun _ => none) <$> Db.setUserGroupsPreservingActiveAdmin userId groupIds

/-- What a D1 statement or batch of the operations does; two of them rely on a name that was read. -/
inductive StoreStep : Database → Database → Prop where
  | insertUser (now : Nat) (u : UserRow) (db : Database) : StoreStep db (insertUser now u db).2
  | deleteUser (guard : Database → UserRow → Bool) (id : String) (db : Database) : StoreStep db (deleteUserIf guard id db).2
  | insertGroup (g : GroupRow) (db : Database) : StoreStep db (insertGroup g db).2
  | renameGroup (id normalized : String) (description : Option String) (isPublic : Bool) (priority : Nat) (db : Database)
    (hchecked : ∀ name, isProtectedGroupName name = true → named name db id = true → normalized = name) :
    StoreStep db (renameGroup id normalized description isPublic priority db).2
  | deleteGroup (id : String) (db : Database) : StoreStep db (deleteGroupStatement id db).2
  | memberships (c : MembershipCall) (hlimit : c.withinLimit) (now : Nat) (db : Database) :
    StoreStep db (c.transaction now db)
  | request (userId : String) (matching : GroupRow → Bool)
    (hmatching : ∀ g, matching g = true → isProtectedGroupName g.name = false) (db : Database) :
    StoreStep db (insertRequests userId matching db).2
  | dropRequests (p : GroupMembershipRequestRow → Bool) (db : Database) :
    StoreStep db { db with groupMembershipRequests := db.groupMembershipRequests.delete p }
  | leaveGroup (groupId userId : String) (db : Database) (hnot : named "all" db groupId = false) :
    StoreStep db (leaveGroup groupId userId db).2

/-- Every statement of the operations keeps the store and its protected groups. -/
theorem StoreStep.keeps {db db' : Database} (h : StoreStep db db') (hi : MembershipStore db) :
    MembershipStore db' ∧ SameProtected db db' := by
  cases h with
  | insertUser now u => exact hi.insertUser now u
  | deleteUser guard id => exact hi.deleteUser guard id
  | insertGroup g => exact hi.insertGroup g
  | renameGroup id normalized description isPublic priority _ hchecked => exact hi.renameGroup hchecked
  | deleteGroup id => exact hi.deleteGroup id
  | memberships c hlimit now => exact hi.transaction hlimit now
  | request userId matching hmatching => exact hi.request userId hmatching
  | dropRequests p => exact hi.dropRequests p
  | leaveGroup groupId userId _ hnot => exact hi.leaveGroup userId hnot

/-- The protocol of programs that keep the store and its protected groups. -/
def storeProtocol : Protocol Input World :=
  .among (fun w => MembershipStore w.db) (fun w w' => SameProtected w.db w'.db) fun _ _ _ => True

theorem store_tolerant : Tolerant storeProtocol where
  ok := ⟨fun _ _ _ _ => rfl, SameProtected.trans⟩
  tickInv := fun _ h => h
  tickRely := fun _ _ _ _ _ => rfl
  tickGuar := fun _ _ _ _ _ => rfl
  tickAllow := fun _ _ => trivial
  guarTick := fun _ h => h
  burnInv := fun hb h => by
    show MembershipStore _
    rw [hb.db]
    exact h
  burnRely := fun hb => .of_groups (congrArg Database.groups hb.db)
  burnGuar := fun hb => .of_groups (congrArg Database.groups hb.db)

/-- A statement or batch of an operation. -/
theorem keeps_statement {α : Type} {committed : Database → List Event} {stmt : Database → α × Database}
    (hstep : ∀ db, StoreStep db (stmt db).2) : Keeps storeProtocol (d1Logged committed stmt) := by
  refine .d1Logged store_tolerant.toClocked fun w w' _ hi hw' _ => ?_
  rw [hw']
  exact (hstep w.db).keeps hi

/-- One whose failure the history records. -/
theorem keeps_logged {α : Type} {failed : List Event} {op : World → α × World} (hstep : ∀ w, StoreStep w.db (op w).2.db) :
    Keeps storeProtocol (ioLogged failed op) := by
  refine .ioLogged store_tolerant.toClocked (fun w _ hi _ => (hstep w).keeps hi) fun w w' _ hi hw' _ => ?_
  rcases hw' with rfl | rfl
  · exact ⟨hi, .of_groups rfl⟩
  · exact (hstep w).keeps hi

/-- The same where the statement relies on what was known of the groups before. -/
theorem wpE_statement {α : Type} {P : World → Prop} {w : World} (hP : storeProtocol.Stable P) (hw : P w)
    {stmt : Database → α × Database} (hstep : ∀ w, P w → StoreStep w.db (stmt w.db).2) :
    wpE storeProtocol (d1 stmt) (fun _ _ => True) (fun _ _ => True) w := by
  refine wpE_d1Logged store_tolerant.toClocked hP hw (fun w w' _ hp hi hw' _ => ?_) fun _ _ _ => trivial
  obtain ⟨hkept, hsame⟩ := (hstep w hp).keeps hi
  rw [hw']
  exact ⟨hkept, hsame, trivial, trivial⟩

theorem updateGroup_keepsStore (env : Env) (id name : String) (description : Option String) (isPublic : Option Bool)
    (priority : Option Nat) : Keeps storeProtocol (updateGroup env id name description isPublic priority) := by
  have hc := store_tolerant.toClocked
  intro w _
  unfold updateGroup
  rw [wpE_bind]
  refine wpE_select hc (stable_true _) trivial (fun w _ _ => ?_) fun _ _ _ => trivial
  split
  · trivial
  · rename_i current hf
    split
    · trivial
    · rename_i hkeeps
      have hrow := mem_listing hf
      -- what was read of the group stays true, since the protected groups do not change
      have hchecked : ∀ n, isProtectedGroupName n = true → named n w.db id = true → env.trimLowerCase name = n := by
        intro n hprotected hnamed
        rw [named, hrow, Option.any_some, decide_eq_true_eq] at hnamed
        by_contra hne
        refine hkeeps ?_
        rw [hnamed, hprotected, Bool.true_and]
        exact decide_eq_true hne
      have hstable : storeProtocol.Stable fun w =>
          ∀ n, isProtectedGroupName n = true → named n w.db id = true → env.trimLowerCase name = n :=
        fun _ _ h hr _ n hprotected hnamed => h n hprotected ((hr n hprotected id).symm.trans hnamed)
      rw [wpE_bind]
      refine wpE_imp (fun _ _ _ => trivial) (fun _ _ _ => trivial) _ (wpE_statement hstable hchecked fun w hp => ?_)
      exact .renameGroup id _ description _ _ w.db hp

theorem removeUser_keepsStore (groupId userId : String) :
    Keeps storeProtocol (removeUserFromPermissionGroup groupId userId) := by
  have hc := store_tolerant.toClocked
  intro w _
  unfold removeUserFromPermissionGroup
  rw [wpE_bind]
  refine wpE_select hc (stable_true _) trivial (fun w _ _ => ?_) fun _ _ _ => trivial
  split
  · trivial
  · rename_i hname
    have hnot : named "all" w.db groupId = false := by
      rw [Bool.eq_false_iff]
      intro hall
      obtain ⟨g, hg, hall⟩ := (Option.any_eq_true _ _).1 hall
      exact hname (by rw [hg, Option.map_some, of_decide_eq_true hall])
    have hstable : storeProtocol.Stable fun w => named "all" w.db groupId = false :=
      fun _ _ h hr _ => (hr.all groupId).trans h
    rw [wpE_bind]
    refine wpE_mono (fun removed w hi _ => ?_) (fun _ _ _ _ => trivial) _ ‹_› (wpE_statement hstable hnot fun w hp => ?_)
    · have hrest : Keeps storeProtocol (if removed then pure .removed else do
          let membership ← select fun db => db.userGroups.get? (userId, groupId)
          pure (if membership.isNone then .notMember else .lastAdmin) : App RemoveGroupMemberResult) :=
        .ite (.pure _) (.bind (.select hc _) fun _ => .pure _)
      exact hrest w hi
    · exact .leaveGroup groupId userId w.db hp

theorem storeCall_keeps (env : Env) : ∀ c : StoreCall, Keeps storeProtocol (c.code env) := by
  have hΓ := store_tolerant
  have hc := hΓ.toClocked
  -- adding and approving are one statement with a flag
  have hadd : ∀ groupId userId requireRequest, Keeps storeProtocol (addGroupMember groupId userId requireRequest) := by
    intro groupId userId requireRequest
    refine keeps_addGroupMember hΓ (fun now => keeps_statement fun db => ?_) ?_
    · cases requireRequest with
      | false => exact .memberships (.add groupId userId) trivial now db
      | true => exact .memberships (.approve groupId userId) trivial now db
    · unfold deleteMembershipRequest
      exact keeps_statement fun db => .dropRequests _ db
  intro c
  cases c with
  | createUser id input =>
    refine .map _ ?_
    unfold createUser
    dsimp only
    -- any alias will do
    generalize (if trim (input.loginAlias.getD "") = "" then _ else _) = loginAlias
    refine .bind (.require _ _) fun _ => .bind (.clock hc) fun now => .bind (keeps_logged fun w => ?_) fun _ =>
      .bind (.require _ _) fun _ => .pure _
    exact .insertUser now _ w.db
  | deleteUser id => exact .map _ (keeps_logged fun w => .deleteUser _ id w.db)
  | deleteUserPreservingActiveAdmin id =>
    refine .map _ ?_
    unfold deleteUserPreservingActiveAdmin
    exact keeps_statement fun db => .deleteUser removable id db
  | createGroup id name description isPublic priority =>
    exact .map _ (.bind (keeps_statement fun db => .insertGroup _ db) fun _ => .bind (.require _ _) fun _ => .pure _)
  | updateGroup id name description isPublic priority => exact .map _ (updateGroup_keepsStore env id name description isPublic priority)
  | deleteGroup id =>
    refine .map _ (.bind (.select hc _) fun groups => ?_)
    split
    · exact .pure _
    · exact .ite (.pure _) (.bind (keeps_statement fun db => .deleteGroup id db) fun _ => .pure _)
  | add groupId userId => exact .map _ (hadd groupId userId false)
  | request userId groupId =>
    refine .map _ (.bind (.select hc _) fun target => ?_)
    split
    · exact .pure _
    · refine .ite (.pure _) (.ite (.pure _) (.ite (.pure _) (.bind (keeps_statement fun db => ?_) fun _ => .pure _)))
      refine .request userId _ (fun g hg => ?_) db
      simpa using (Bool.and_eq_true_iff.1 hg).2
  | requestHidden userId exactGroupName =>
    refine .map _ (.bind (keeps_statement fun db => ?_) fun _ => .pure _)
    refine .request userId _ (fun g hg => ?_) db
    simpa using (Bool.and_eq_true_iff.1 hg).2
  | approve groupId userId => exact .map _ (hadd groupId userId true)
  | reject groupId userId =>
    refine .map _ ?_
    unfold rejectPermissionGroupMembershipRequest
    exact keeps_statement fun db => .dropRequests _ db
  | cancel userId groupId =>
    refine .map _ ?_
    unfold cancelPermissionGroupMembershipRequest
    exact keeps_statement fun db => .dropRequests _ db
  | remove groupId userId => exact .map _ (removeUser_keepsStore groupId userId)
  | setUserGroups userId groupIds =>
    exact .map _ (keeps_setUserGroups hΓ fun hlimit now => keeps_statement fun db =>
      .memberships (.setGroups userId groupIds) hlimit now db)
  | setUserGroupsPreservingActiveAdmin userId groupIds =>
    exact .map _ (keeps_setUserGroupsPreservingActiveAdmin hΓ fun hlimit now => keeps_statement fun db =>
      .memberships (.setGroupsPreserving userId groupIds) hlimit now db)

/-! ## Approvals -/

/-- The step inserts a membership that the user had asked for and did not have. -/
def AnswersRequest (groupId userId : String) (db db' : Database) : Prop :=
  (db.groupMembershipRequests.get? (userId, groupId)).isSome = true ∧ db.userGroups.get? (userId, groupId) = none ∧
    (db'.userGroups.get? (userId, groupId)).isSome = true

/-- The batch of an approval inserts only what was asked for. -/
theorem approve_answers {now : Nat} {groupId userId : String} {db : Database}
    (hinserted : (addGuard groupId userId true db && (db.userGroups.get? (userId, groupId)).isNone) = true) :
    AnswersRequest groupId userId db (membershipBatch true (addMembership now groupId userId true) now userId db).2 := by
  obtain ⟨hguard, hnone⟩ := Bool.and_eq_true_iff.1 hinserted
  refine ⟨?_, Option.isNone_iff_eq_none.1 hnone, ?_⟩
  · simp only [addGuard, Bool.not_true, Bool.false_or, Bool.and_eq_true] at hguard
    exact hguard.1.2
  · obtain ⟨_, _, hframe⟩ := adminPromotionRevocation_frame now userId (addMembership now groupId userId true db)
    have hjoined : ∃ m ∈ (joinGroups now userId [groupId] db).userGroups, m.userId = userId ∧ m.groupId = groupId :=
      joined_of_mem (List.mem_singleton_self groupId)
    obtain ⟨m, hm, rfl, rfl⟩ := hjoined
    have hrows : (membershipBatch true (addMembership now m.groupId m.userId true) now m.userId db).2.userGroups =
        (joinGroups now m.userId [m.groupId] db).userGroups := by
      show (adminPromotionRevocation now m.userId (addMembership now m.groupId m.userId true db)).2.userGroups = _
      rw [hframe, addMembership, if_pos hguard]
    rw [hrows]
    exact Option.isSome_iff_exists.2 ⟨m, Table.get?_of_mem hm⟩

/-- A call that answers `added` has answered a request with its insert. -/
theorem approve_ends (groupId userId : String) :
    endsE (approvePermissionGroupMembershipRequest groupId userId)
      (fun result tr => result = .added → ∃ t ∈ tr, AnswersRequest groupId userId t.1.db t.2.db) fun _ _ => True := by
  unfold approvePermissionGroupMembershipRequest addGroupMember
  rw [endsE_bind]
  refine endsE_clock fun w₀ dt₀ => ?_
  rw [endsE_bind]
  refine endsE_d1Logged (fun w w' dt hw' => ?_) fun _ => trivial
  dsimp only
  cases hinserted : addGuard groupId userId true w.db && (w.db.userGroups.get? (userId, groupId)).isNone with
  | true =>
    refine endsE_imp (fun _ tr _ _ => ⟨(w, w'), by simp, ?_⟩) (fun _ _ _ => trivial) _ (endsE_true _)
    rw [hw']
    exact approve_answers hinserted
  | false =>
    -- the answer is read from the state afterwards, and is another one
    refine endsE_imp (Q := fun result _ => result ≠ .added) (X := fun _ _ => True) (fun _ _ h ha => absurd ha h)
      (fun _ _ _ => trivial) _ ?_
    refine endsE_skip (fun _ _ _ _ h => h) (fun _ _ => trivial) fun _ => ?_
    simp only [Bool.false_eq_true, if_false]
    refine endsE_skip (fun _ _ _ _ h => h) (fun _ _ => trivial) fun state => ?_
    refine endsE_ite (fun _ => by simp) fun _ => endsE_ite (fun _ => by simp) fun _ => endsE_ite (fun _ => ?_) fun _ => ?_
    · exact endsE_skip (fun _ _ _ _ h => h) (fun _ _ => trivial) fun _ => by simp
    · rw [endsE_pure]
      split <;> simp

/-! ## Every interleaving -/

/-- The groups that the migrations create. -/
def migratedGroups : List GroupRow :=
  [{ id := "grp_seed_employees", name := "employees", description := some "Internal Pangda staff", isPublic := true, priority := 0 },
   { id := "grp_seed_admins", name := "admins", description := some "Administrators with elevated access", isPublic := true,
     priority := 0 },
   { id := "grp_seed_all", name := "all", description := some "All users", isPublic := true, priority := 0 }]

theorem nodup_migratedGroups : (migratedGroups.map GroupRow.id).Nodup := by decide

/-- The migrated database before its first user. -/
structure Migrated (db : Database) : Prop where
  groups : db.groups.rows = migratedGroups
  users : ∀ u, u ∉ db.users
  memberships : ∀ m, m ∉ db.userGroups
  requests : ∀ r, r ∉ db.groupMembershipRequests

theorem Migrated.store {db : Database} (h : Migrated db) : MembershipStore db := by
  have hnamed : ∀ {name : String}, (∃ g ∈ migratedGroups, g.name = name) → ∃ g, named name db g = true := by
    rintro name ⟨g, hg, hname⟩
    rw [← h.groups] at hg
    exact ⟨g.id, named_iff.2 ⟨g, hg, rfl, hname⟩⟩
  refine ⟨?_, hnamed (by decide), hnamed (by decide), fun m hm => absurd hm (h.memberships m),
    fun u hu => absurd hu (h.users u), fun userId => ?_, fun r hr => absurd hr (h.requests r),
    fun r hr => absurd hr (h.requests r)⟩
  · unfold UniqueNames
    rw [h.groups]
    decide
  · have hnone : otherMemberships userId db = [] :=
      List.eq_nil_iff_forall_not_mem.2 fun m hm => h.memberships m (mem_otherMemberships.1 hm).1
    rw [hnone]
    exact Nat.zero_le _

/-- The user is in `all`, in at most a hundred other groups, and waits for none that it is in or that is
protected. -/
structure InOrder (userId : String) (db : Database) : Prop where
  universal : ∃ m ∈ db.userGroups, m.userId = userId ∧ named "all" db m.groupId = true
  limited : (otherMemberships userId db).length ≤ 100
  unanswered : ∀ r ∈ db.groupMembershipRequests, r.userId = userId → db.userGroups.get? (userId, r.groupId) = none
  unprotected : ∀ r ∈ db.groupMembershipRequests, r.userId = userId →
    named "admins" db r.groupId = false ∧ named "all" db r.groupId = false

theorem MembershipStore.inOrder {db : Database} (h : MembershipStore db) {u : UserRow} (hu : u ∈ db.users) :
    InOrder u.id db where
  universal := h.everyone u hu
  limited := h.limited u.id
  unanswered := by
    intro r hr hown
    rw [← hown]
    exact h.unanswered r hr
  unprotected := fun r hr _ => h.unprotected r hr

/-- The operations on users, groups, memberships and requests. -/
def storeSystem (env : Env) : System StoreCall Input World (Except Failure (Option AddGroupMemberResult)) where
  code := fun c => (c.code env).run
  allow := fun _ _ _ => True
  arrive := fun _ _ => True

/-- From the migrated database, in every state that an interleaving of the operations leads to, whatever
storage calls fail, every user is in order; and an approval that answers `added` answered a request. -/
theorem membership_store_in_order (env : Env) {w₀ : World} (h₀ : Migrated w₀.db) {steps : List (Taken World)}
    {P : Pool StoreCall Input World (Except Failure (Option AddGroupMemberResult))}
    (hrun : (storeSystem env).Run ⟨w₀, []⟩ steps P) :
    (∀ u ∈ P.store.db.users, InOrder u.id P.store.db) ∧
      ∀ i groupId userId, P.finished i = some (.approve groupId userId, .ok (some .added)) →
        ∃ t ∈ steps, t.thread = i ∧ AnswersRequest groupId userId t.before.db t.after.db := by
  have hstore : MembershipStore P.store.db := by
    refine System.reach_inv_among (I := fun w => MembershipStore w.db) (R := fun w w' => SameProtected w.db w'.db)
      (fun _ _ _ _ => rfl) SameProtected.trans (fun c w hi => ?_) h₀.store hrun.reach
    exact wp_of_wpE (storeCall_keeps env c w hi)
  refine ⟨fun u hu => hstore.inOrder hu, fun i groupId userId hi => ?_⟩
  have hends : endsE ((StoreCall.approve groupId userId).code env)
      (fun result tr => result = some .added → ∃ t ∈ tr, AnswersRequest groupId userId t.1.db t.2.db) fun _ _ => True := by
    rw [StoreCall.code, map_eq_pure_bind, endsE_bind]
    refine endsE_imp (fun result tr hr => ?_) (fun _ _ _ => trivial) _ (approve_ends groupId userId)
    simpa using hr
  obtain ⟨x, hx, hanswers⟩ := (hrun.finished hi).post hends rfl
  obtain ⟨t, ht, hthread, rfl⟩ := mem_stepsOf.1 hx
  exact ⟨t, ht, hthread, hanswers⟩

/-- The deployment just migrated. -/
def migratedWorld : World :=
  { Deployment.world with db := { Database.empty with groups := ⟨migratedGroups, nodup_migratedGroups⟩ } }

theorem migratedWorld_migrated : Migrated migratedWorld.db :=
  ⟨rfl, fun _ => Table.not_mem_empty, fun _ => Table.not_mem_empty, fun _ => Table.not_mem_empty⟩

/-- The first user asks to join the employees and is let in. -/
def approvedRequest : List (System.Move StoreCall Input) :=
  [.arrive (.createUser "usr_a" { email := "a@example.com", loginAlias := some "a", name := none, emailVerified := none }),
   .arrive (.request "usr_a" "grp_seed_employees"), .arrive (.approve "grp_seed_employees" "usr_a")] ++
    (List.replicate 2 (.run 0 Deployment.ok) ++ List.replicate 2 (.run 1 Deployment.ok) ++
      List.replicate 3 (.run 2 Deployment.ok))

theorem membership_store_in_order_approved :
    let P := (storeSystem (.sample [])).moves ⟨migratedWorld, []⟩ approvedRequest
    P.finished 2 = some (.approve "grp_seed_employees" "usr_a", .ok (some .added)) ∧
      (∀ u ∈ P.store.db.users, InOrder u.id P.store.db) ∧
      ∃ t ∈ (storeSystem (.sample [])).taken ⟨migratedWorld, []⟩ approvedRequest,
        t.thread = 2 ∧ AnswersRequest "grp_seed_employees" "usr_a" t.before.db t.after.db := by
  intro P
  have hfinished : P.finished 2 = some (.approve "grp_seed_employees" "usr_a", .ok (some .added)) := by decide +kernel
  have hrun : (storeSystem (.sample [])).Run ⟨migratedWorld, []⟩ ((storeSystem (.sample [])).taken ⟨migratedWorld, []⟩ approvedRequest) P :=
    System.run_moves approvedRequest (System.allows_of_passes (fun _ _ => true) (fun _ _ => trivial)
      (fun _ _ _ _ => trivial) approvedRequest (by decide +kernel))
  obtain ⟨horder, hanswers⟩ := membership_store_in_order (.sample []) migratedWorld_migrated hrun
  exact ⟨hfinished, horder, hanswers 2 _ _ hfinished⟩

end Keyforge.Account
