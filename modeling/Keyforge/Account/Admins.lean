/-
There is always an active administrator. Six operations can take the last one away, each with a
guard inside the one statement that writes; an update of a group relies on what it read before. What
carries both is that the groups named `admins` are the same in all states: while one has an enabled
member no other group can take the name, and none is renamed or deleted.
-/
import Keyforge.Auth.Epoch
import Keyforge.Db.Administration
import Keyforge.Deployment
import Keyforge.Lib.Pool

namespace Keyforge.Account

open Lib Db Auth Tokens

/-! ## Active administrators -/

/-- The group has this name. -/
def named (name : String) (db : Database) (groupId : String) : Bool :=
  (db.groups.get? groupId).any (·.name = name)

def enabled (db : Database) (id : String) : Bool :=
  (db.users.get? id).any (!·.disabled)

/-- The user is an enabled member of `admins`. -/
def administrator (db : Database) (id : String) : Bool :=
  isAdmin id db && enabled db id

def HasActiveAdmin (db : Database) : Prop :=
  ∃ id, administrator db id = true

theorem isAdmin_iff {db : Database} {id : String} :
    isAdmin id db = true ↔ ∃ m ∈ db.userGroups, m.userId = id ∧ named "admins" db m.groupId = true := by
  simp only [isAdmin, Table.has_iff, Bool.and_eq_true, decide_eq_true_eq]
  rfl

theorem administrator_iff {db : Database} {id : String} : administrator db id = true ↔
    (∃ m ∈ db.userGroups, m.userId = id ∧ named "admins" db m.groupId = true) ∧ enabled db id = true := by
  rw [administrator, Bool.and_eq_true, isAdmin_iff]

theorem anotherActiveAdmin_iff {db : Database} {id : String} :
    anotherActiveAdmin id db = true ↔ ∃ a, a ≠ id ∧ administrator db a = true := by
  simp only [anotherActiveAdmin, Table.has_iff, Bool.and_eq_true]
  constructor
  · rintro ⟨m, hm, hgroup, huser⟩
    obtain ⟨u, hu, h⟩ := (Option.any_eq_true _ _).1 huser
    obtain ⟨-, hid⟩ := Table.get?_eq_some.1 hu
    simp only [Bool.and_eq_true, decide_eq_true_eq] at h
    refine ⟨m.userId, hid ▸ h.2, administrator_iff.2 ⟨⟨m, hm, rfl, hgroup⟩, ?_⟩⟩
    exact (Option.any_eq_true _ _).2 ⟨u, hu, h.1⟩
  · rintro ⟨a, hne, h⟩
    obtain ⟨⟨m, hm, rfl, hgroup⟩, huser⟩ := administrator_iff.1 h
    obtain ⟨u, hu, h⟩ := (Option.any_eq_true _ _).1 huser
    obtain ⟨-, hid⟩ := Table.get?_eq_some.1 hu
    refine ⟨m, hm, hgroup, (Option.any_eq_true _ _).2 ⟨u, hu, ?_⟩⟩
    rw [h, Bool.true_and, decide_eq_true_eq]
    exact hid.symm ▸ hne

/-- What keeps a user an active administrator. -/
theorem administrator_of {db db' : Database} {a : String} (h : administrator db a = true)
    (hgroups : ∀ g, named "admins" db' g = named "admins" db g)
    (hmemberships : ∀ m ∈ db.userGroups, m.userId = a → named "admins" db m.groupId = true → m ∈ db'.userGroups)
    (henabled : enabled db a = true → enabled db' a = true) : administrator db' a = true := by
  obtain ⟨⟨m, hm, hid, hgroup⟩, hu⟩ := administrator_iff.1 h
  exact administrator_iff.2 ⟨⟨m, hmemberships m hm hid hgroup, hid, (hgroups _).trans hgroup⟩, henabled hu⟩

/-- The groups named `admins` are the same. -/
def SameAdmins (db db' : Database) : Prop :=
  ∀ g, named "admins" db' g = named "admins" db g

theorem SameAdmins.trans {db db' db'' : Database} (h₁ : SameAdmins db db') (h₂ : SameAdmins db' db'') : SameAdmins db db'' :=
  fun g => (h₂ g).trans (h₁ g)

/-- A step that can only take the administrator rights of one user. -/
structure Spares (id : String) (db db' : Database) : Prop where
  groups : SameAdmins db db'
  others : ∀ a, a ≠ id → administrator db a = true → administrator db' a = true

/-- Such a step leaves an active administrator if it leaves the user one, or another one exists. -/
theorem Spares.keeps {id : String} {db db' : Database} (h : Spares id db db')
    (hguard : administrator db id = true → administrator db' id = true ∨ anotherActiveAdmin id db = true)
    (hadmin : HasActiveAdmin db) : HasActiveAdmin db' := by
  obtain ⟨a, ha⟩ := hadmin
  by_cases hid : a = id
  · subst hid
    rcases hguard ha with h' | hother
    · exact ⟨a, h'⟩
    · obtain ⟨b, hne, hb⟩ := anotherActiveAdmin_iff.1 hother
      exact ⟨b, h.others b hne hb⟩
  · exact ⟨a, h.others a hid ha⟩

/-! ## What the statements do -/

theorem enabled_update {db db' : Database} {p : UserRow → Bool} {f : UserRow → UserRow} (hf : ∀ u, (f u).id = u.id)
    (h : db'.users = db.users.update p f hf) (a : String)
    (hrow : ∀ u, db.users.get? a = some u → p u = true → u.disabled = false → (f u).disabled = false)
    (he : enabled db a = true) : enabled db' a = true := by
  obtain ⟨u, hu, hd⟩ := (Option.any_eq_true _ _).1 he
  rw [Bool.not_eq_true'] at hd
  rw [enabled, h, Table.get?_update hf, hu, Option.map_some, Option.any_some, Bool.not_eq_true']
  split
  · rename_i hp
    exact hrow u hu hp hd
  · exact hd

/-- The closing statements of a batch leave the administrators alone. -/
theorem revokeAccessIf_admins (effective : Bool) (now : Nat) (userId : String) (db : Database) :
    SameAdmins db (revokeAccessIf effective now userId db).2 ∧
      ∀ a, administrator (revokeAccessIf effective now userId db).2 a = administrator db a := by
  obtain ⟨_, _, h⟩ := revokeAccessIf_frame effective now userId db
  rw [h]
  exact ⟨fun _ => rfl, fun _ => rfl⟩

theorem updateUserStatement_spares (now : Nat) (current next : UserRow) (db : Database) :
    Spares current.id db (updateUserStatement now current next db) := by
  refine ⟨fun _ => rfl, fun a hne ha => administrator_of ha (fun _ => rfl) (fun _ hm _ _ => hm) ?_⟩
  refine enabled_update (updatedUser_id now current next) rfl a fun u hu hp _ => ?_
  simp only [updateGuard, Bool.and_eq_true, decide_eq_true_eq] at hp
  exact absurd ((Table.get?_eq_some.1 hu).2.symm.trans hp.1.1.1) hne

/-- An administrator that no other one backs passes the guard only if it stays enabled. -/
theorem updateUserStatement_guarded {now : Nat} {current next : UserRow} {db : Database}
    (hid : administrator db current.id = true) (hother : anotherActiveAdmin current.id db = false) :
    administrator (updateUserStatement now current next db) current.id = true := by
  have henabled : enabled db current.id = true → enabled (updateUserStatement now current next db) current.id = true := by
    refine enabled_update (updatedUser_id now current next) rfl _ fun u hu hp hd => ?_
    have hadmin : isAdmin current.id db = true := (Bool.and_eq_true_iff.1 hid).1
    rw [updateGuard, (Table.get?_eq_some.1 hu).2, hd, hadmin, hother] at hp
    simp only [Bool.and_eq_true, Bool.or_false, Bool.not_true, Bool.not_eq_true'] at hp
    exact hp.2
  exact administrator_of hid (fun _ => rfl) (fun _ hm _ _ => hm) henabled

theorem updateUserBatch_keeps (now : Nat) (current next : UserRow) (db : Database) :
    SameAdmins db (updateUserBatch now current next db).2 ∧
      (HasActiveAdmin db → HasActiveAdmin (updateUserBatch now current next db).2) := by
  obtain ⟨hgroups, hadmins⟩ := revokeAccessIf_admins
    (updateInPlace now current next (updateUserStatement now current next db)) now current.id
    (updateUserStatement now current next db)
  have hspares := updateUserStatement_spares now current next db
  have hguard : administrator db current.id = true →
      administrator (updateUserStatement now current next db) current.id = true ∨
        anotherActiveAdmin current.id db = true := by
    intro hid
    cases hother : anotherActiveAdmin current.id db with
    | true => exact Or.inr rfl
    | false => exact Or.inl (updateUserStatement_guarded hid hother)
  refine ⟨fun g => (hgroups g).trans (hspares.groups g), fun h => ?_⟩
  obtain ⟨a, ha⟩ := hspares.keeps hguard h
  exact ⟨a, (hadmins a).trans ha⟩

theorem withoutUser_spares (id : String) (db : Database) : Spares id db (withoutUser id db) := by
  refine ⟨fun _ => rfl, fun a hne ha => administrator_of ha (fun _ => rfl) (fun m hm hid _ => ?_) fun h => ?_⟩
  · exact Table.mem_delete.2 ⟨hm, decide_eq_false (hid ▸ hne)⟩
  · obtain ⟨u, hu, hd⟩ := (Option.any_eq_true _ _).1 h
    refine (Option.any_eq_true _ _).2 ⟨u, ?_, hd⟩
    have hid := (Table.get?_eq_some.1 hu).2
    show (db.users.delete (·.id = id)).get? a = some u
    rw [Table.get?_delete, hu, Option.filter_some, decide_eq_false (hid.symm ▸ hne)]
    rfl

/-- A user that may go is no active administrator, or not the only one. -/
theorem another_of_removable {db : Database} {id : String} (h : (db.users.get? id).any (removable db) = true)
    (hid : administrator db id = true) : anotherActiveAdmin id db = true := by
  obtain ⟨u, hu, h⟩ := (Option.any_eq_true _ _).1 h
  obtain ⟨hadmin, he⟩ := Bool.and_eq_true_iff.1 hid
  rw [enabled, hu, Option.any_some, Bool.not_eq_true'] at he
  rw [removable, (Table.get?_eq_some.1 hu).2, he, hadmin] at h
  exact h

theorem deleteUserIf_keeps (id : String) (db : Database) :
    SameAdmins db (deleteUserIf removable id db).2 ∧ (HasActiveAdmin db → HasActiveAdmin (deleteUserIf removable id db).2) := by
  unfold deleteUserIf
  split
  · rename_i h
    have hspares := withoutUser_spares id db
    exact ⟨hspares.groups, hspares.keeps fun hid => Or.inr (another_of_removable h hid)⟩
  · exact ⟨fun _ => rfl, fun h => h⟩

/-! ## Memberships -/

/-- A batch that writes memberships of one user, and the closing statements of a promotion. -/
theorem membershipBatch_keeps {valid : Bool} {memberships : Database → Database} {now : Nat} {userId : String}
    {db : Database} (hgroups : SameAdmins db (memberships db))
    (hadmins : valid = true → HasActiveAdmin db → HasActiveAdmin (memberships db)) :
    SameAdmins db (membershipBatch valid memberships now userId db).2 ∧
      (HasActiveAdmin db → HasActiveAdmin (membershipBatch valid memberships now userId db).2) := by
  cases valid with
  | false => exact ⟨fun _ => rfl, fun h => h⟩
  | true =>
    obtain ⟨hsame, hsame'⟩ := revokeAccessIf_admins (promoted now userId (memberships db)) now userId
      { memberships db with
        users := (memberships db).users.update (fun u => u.id = userId && promoted now userId (memberships db)) (bump now)
          (bump_id now) }
    refine ⟨fun g => (hsame g).trans (hgroups g), fun h => ?_⟩
    obtain ⟨a, ha⟩ := hadmins rfl h
    refine ⟨a, (hsame' a).trans ?_⟩
    exact administrator_of ha (fun _ => rfl) (fun _ hm _ _ => hm) (enabled_update (bump_id now) rfl a fun _ _ _ hd => hd)

/-- Joining groups adds memberships. -/
theorem mem_joinGroups {now : Nat} {userId : String} {m : UserGroupRow} {groupIds : List String} {db : Database}
    (h : m ∈ db.userGroups) : m ∈ (joinGroups now userId groupIds db).userGroups := by
  have hfold : ∀ (groupIds : List String) (t : Table fun r : UserGroupRow => (r.userId, r.groupId)), m ∈ t →
      m ∈ groupIds.foldl (fun t groupId => t.insert { userId, groupId, createdAt := now }) t := by
    intro groupIds
    induction groupIds with
    | nil => exact fun _ h => h
    | cons g groupIds ih => exact fun t h => ih _ (Table.mem_insert.2 (Or.inl h))
  exact hfold _ _ h

/-- Every group joined is among the memberships. -/
theorem joined_of_mem {now : Nat} {userId g : String} {db : Database} {groupIds : List String} (hg : g ∈ groupIds) :
    ∃ m ∈ (joinGroups now userId groupIds db).userGroups, m.userId = userId ∧ m.groupId = g := by
  have hfold : ∀ (groupIds : List String) (t : Table fun r : UserGroupRow => (r.userId, r.groupId)),
      (g ∈ groupIds ∨ ∃ m ∈ t, m.userId = userId ∧ m.groupId = g) →
      ∃ m ∈ groupIds.foldl (fun t groupId => t.insert { userId, groupId, createdAt := now }) t,
        m.userId = userId ∧ m.groupId = g := by
    intro groupIds
    induction groupIds with
    | nil => exact fun t h => h.resolve_left List.not_mem_nil
    | cons g' groupIds ih =>
      refine fun t h => ih _ ?_
      rcases h with h | ⟨m, hm, hid⟩
      · rcases List.mem_cons.1 h with rfl | h
        · cases hget : t.get? (userId, g) with
          | some m =>
            obtain ⟨hm, hk⟩ := Table.get?_eq_some.1 hget
            exact Or.inr ⟨m, Table.mem_insert.2 (Or.inl hm), Prod.mk.inj hk⟩
          | none => exact Or.inr ⟨_, Table.mem_insert.2 (Or.inr ⟨rfl, hget⟩), rfl, rfl⟩
        · exact Or.inl h
      · exact Or.inr ⟨m, Table.mem_insert.2 (Or.inl hm), hid⟩
  exact hfold _ _ (Or.inl hg)

theorem joinGroups_administrator {now : Nat} {userId a : String} {groupIds : List String} {db : Database}
    (h : administrator db a = true) : administrator (joinGroups now userId groupIds db) a = true :=
  administrator_of h (fun _ => rfl) (fun _ hm _ _ => mem_joinGroups hm) fun he => he

theorem leaveGroups_spares (userId : String) (desired : List String) (db : Database) :
    Spares userId db (leaveGroups userId desired db) := by
  refine ⟨fun _ => rfl, fun a hne ha => administrator_of ha (fun _ => rfl) (fun m hm hid _ => ?_) fun he => he⟩
  refine Table.mem_delete.2 ⟨hm, ?_⟩
  rw [decide_eq_false (hid ▸ hne)]
  rfl

/-- The only active administrator leaves groups only to stay one. -/
theorem leaveGroups_guarded {userId : String} {desired : List String} {db : Database}
    (hjoined : ∀ g ∈ desired, ∃ m ∈ db.userGroups, m.userId = userId ∧ m.groupId = g)
    (hsafe : replacementIsSafe userId desired db = true) (hid : administrator db userId = true)
    (hother : anotherActiveAdmin userId db = false) : administrator (leaveGroups userId desired db) userId = true := by
  obtain ⟨hadmin, he⟩ := Bool.and_eq_true_iff.1 hid
  have henabled : ((db.users.get? userId).any fun u => !u.disabled) = true := he
  rw [replacementIsSafe, hadmin, henabled, hother] at hsafe
  simp only [Bool.and_self, Bool.not_true, Bool.or_false, Bool.not_false, List.any_eq_true] at hsafe
  obtain ⟨g, hg, hname⟩ := hsafe
  obtain ⟨m, hm, hown, rfl⟩ := hjoined g hg
  refine administrator_iff.2 ⟨⟨m, Table.mem_delete.2 ⟨hm, ?_⟩, hown, hname⟩, he⟩
  rw [List.contains_iff_mem.2 hg]
  simp

theorem replaceGroups_keeps (now : Nat) (userId : String) (desired : List String) (db : Database) :
    HasActiveAdmin db → HasActiveAdmin (replaceGroups now userId desired db) := by
  intro h
  unfold replaceGroups
  dsimp only
  by_cases hsafe : replacementIsSafe userId desired db = true
  · rw [if_pos hsafe]
    obtain ⟨a, ha⟩ := h
    have h' : HasActiveAdmin (joinGroups now userId desired db) := ⟨a, joinGroups_administrator ha⟩
    split
    · rename_i hsafe'
      refine (leaveGroups_spares userId desired _).keeps (fun hid => ?_) h'
      cases hother : anotherActiveAdmin userId (joinGroups now userId desired db) with
      | true => exact Or.inr rfl
      | false => exact Or.inl (leaveGroups_guarded (fun g hg => joined_of_mem hg) hsafe' hid hother)
    · exact h'
  · rw [if_neg hsafe, if_neg hsafe]
    exact h

theorem leaveGroup_keeps (groupId userId : String) (db : Database) :
    SameAdmins db (leaveGroup groupId userId db).2 ∧ (HasActiveAdmin db → HasActiveAdmin (leaveGroup groupId userId db).2) := by
  have hspares : Spares userId db (leaveGroup groupId userId db).2 := by
    refine ⟨fun _ => rfl, fun a hne ha => administrator_of ha (fun _ => rfl) (fun m hm hid _ => ?_) fun he => he⟩
    refine Table.mem_delete.2 ⟨hm, ?_⟩
    rw [leaveGuard, decide_eq_false (hid ▸ hne)]
    rfl
  refine ⟨hspares.groups, hspares.keeps fun hid => ?_⟩
  cases hother : anotherActiveAdmin userId db with
  | true => exact Or.inr rfl
  | false =>
    refine Or.inl (administrator_of hid (fun _ => rfl) (fun m hm hown hgroup => ?_) fun he => he)
    refine Table.mem_delete.2 ⟨hm, ?_⟩
    have hname : ((db.groups.get? m.groupId).any fun g => g.name = "admins") = true := hgroup
    obtain ⟨u, hu, hd⟩ := (Option.any_eq_true _ _).1 (Bool.and_eq_true_iff.1 hid).2
    rw [Bool.not_eq_true'] at hd
    rw [leaveGuard, hown, hname, hu, Option.any_some, hd, hother]
    simp

/-! ## Groups -/

theorem named_iff {name : String} {db : Database} {g : String} :
    named name db g = true ↔ ∃ row ∈ db.groups, row.id = g ∧ row.name = name := by
  unfold named
  rw [Option.any_eq_true]
  constructor
  · rintro ⟨row, hrow, hname⟩
    obtain ⟨hmem, hid⟩ := Table.get?_eq_some.1 hrow
    exact ⟨row, hmem, hid, of_decide_eq_true hname⟩
  · rintro ⟨row, hmem, hid, hname⟩
    exact ⟨row, Table.get?_eq_some.2 ⟨hmem, hid⟩, decide_eq_true hname⟩

/-- The group that a deletion takes has no protected name. -/
theorem not_named_of_deletable {name id : String} {db : Database} (hname : isProtectedGroupName name = true)
    (h : (db.groups.get? id).any (!isProtectedGroupName ·.name) = true) : named name db id = false := by
  obtain ⟨g, hg, hfree⟩ := (Option.any_eq_true _ _).1 h
  rw [named, hg, Option.any_some, decide_eq_false_iff_not]
  rintro rfl
  rw [hname] at hfree
  cases hfree

/-- A deletion leaves the groups with a protected name as they are. -/
theorem deleteGroupStatement_named {name : String} (hname : isProtectedGroupName name = true) (id : String) (db : Database)
    (g : String) : named name (deleteGroupStatement id db).2 g = named name db g := by
  unfold deleteGroupStatement
  split
  · rename_i h
    have hnot := not_named_of_deletable hname h
    show ((db.groups.delete (·.id = id)).get? g).any (·.name = name) = named name db g
    rw [Table.get?_delete]
    cases hg : db.groups.get? g with
    | none => rw [named, hg]; rfl
    | some row =>
      have hid := (Table.get?_eq_some.1 hg).2
      by_cases he : g = id
      · subst he
        rw [hnot, Option.filter_some, decide_eq_true hid]
        rfl
      · rw [named, hg, Option.filter_some, decide_eq_false (hid.symm ▸ he)]
        rfl
  · rfl

theorem deleteGroupStatement_keeps (id : String) (db : Database) :
    SameAdmins db (deleteGroupStatement id db).2 ∧ (HasActiveAdmin db → HasActiveAdmin (deleteGroupStatement id db).2) := by
  have hgroups : SameAdmins db (deleteGroupStatement id db).2 := deleteGroupStatement_named rfl id db
  refine ⟨hgroups, fun ⟨a, ha⟩ => ⟨a, administrator_of ha hgroups (fun m hm _ hgroup => ?_) fun he => ?_⟩⟩
  · unfold deleteGroupStatement
    split
    · rename_i h
      refine Table.mem_delete.2 ⟨hm, decide_eq_false ?_⟩
      rintro rfl
      have hnot : named "admins" db m.groupId = false := not_named_of_deletable rfl h
      exact Bool.eq_false_iff.1 hnot hgroup
    · exact hm
  · unfold deleteGroupStatement
    split <;> exact he

/-- A rename leaves the groups with a name as they are, if one has it and it was checked that this group
keeps it should it be that one. -/
theorem renameGroup_named {name id normalized : String} {description : Option String} {isPublic : Bool} {priority : Nat}
    {db : Database} (hexists : ∃ g, named name db g = true) (hchecked : named name db id = true → normalized = name)
    (g : String) : named name (renameGroup id normalized description isPublic priority db).2 g = named name db g := by
  show ((db.groups.update _ _ (editedGroup_id normalized description isPublic priority)).get? g).any _ = _
  rw [Table.get?_update, named]
  cases hg : db.groups.get? g with
  | none => rfl
  | some row =>
    rw [Option.map_some, Option.any_some, Option.any_some]
    split
    · rename_i hguard
      obtain ⟨hid, hfree⟩ := Bool.and_eq_true_iff.1 hguard
      have hgid : g = id := (Table.get?_eq_some.1 hg).2.symm.trans (of_decide_eq_true hid)
      subst hgid
      refine decide_eq_decide.2 ⟨fun hname => ?_, fun hname => ?_⟩
      · -- another group has the name, so this one cannot take it
        have hname : normalized = name := hname
        subst hname
        by_contra hne
        obtain ⟨g', hg'⟩ := hexists
        obtain ⟨other, hother, -, hsame⟩ := named_iff.1 hg'
        rw [Bool.not_eq_true'] at hfree
        refine Bool.eq_false_iff.1 hfree (Table.has_iff.2 ⟨other, hother, ?_⟩)
        refine Bool.and_eq_true_iff.2 ⟨decide_eq_true hsame, decide_eq_true fun he => hne ?_⟩
        rw [← hsame, Table.key_inj (Table.get?_eq_some.1 hg).1 hother ((Table.get?_eq_some.1 hg).2.trans he.symm)]
      · refine hchecked ?_
        rw [named, hg, Option.any_some]
        exact decide_eq_true hname
    · rfl

/-- A rename leaves the groups named `admins` as they are, if it was checked that this one keeps the
name should it have it. -/
theorem renameGroup_keeps {id normalized : String} {description : Option String} {isPublic : Bool} {priority : Nat}
    {db : Database} (hadmin : HasActiveAdmin db) (hchecked : named "admins" db id = true → normalized = "admins") :
    SameAdmins db (renameGroup id normalized description isPublic priority db).2 ∧
      HasActiveAdmin (renameGroup id normalized description isPublic priority db).2 := by
  obtain ⟨a, ha⟩ := hadmin
  obtain ⟨⟨m, -, -, hgroup⟩, -⟩ := administrator_iff.1 ha
  have hgroups : SameAdmins db (renameGroup id normalized description isPublic priority db).2 :=
    renameGroup_named ⟨m.groupId, hgroup⟩ hchecked
  exact ⟨hgroups, a, administrator_of ha hgroups (fun _ hm _ _ => hm) fun he => he⟩

/-! ## The operations -/

inductive AdminCall where
  | updateUser (id : String) (patch : UserPatch)
  | deleteUser (id : String)
  | setUserGroups (userId : String) (groupIds : List String)
  | removeMember (groupId userId : String)
  | updateGroup (id name : String) (description : Option String) (isPublic : Option Bool) (priority : Option Nat)
  | deleteGroup (id : String)
  | addMember (groupId userId : String)
  | approveMember (groupId userId : String)
  deriving DecidableEq

def AdminCall.code (env : Env) : AdminCall → App Unit
  | .updateUser id patch => ignore (Db.updateUser id patch)
  | .deleteUser id => ignore (deleteUserPreservingActiveAdmin id)
  | .setUserGroups userId groupIds => ignore (setUserGroupsPreservingActiveAdmin userId groupIds)
  | .removeMember groupId userId => ignore (removeUserFromPermissionGroup groupId userId)
  | .updateGroup id name description isPublic priority => ignore (Db.updateGroup env id name description isPublic priority)
  | .deleteGroup id => ignore (Db.deleteGroup id)
  | .addMember groupId userId => ignore (addUserToPermissionGroup groupId userId)
  | .approveMember groupId userId => ignore (approvePermissionGroupMembershipRequest groupId userId)

/-- What a D1 statement or batch of the operations does, the update of a group apart. -/
inductive GuardedStep : Database → Database → Prop where
  | updateUser (now : Nat) (current next : UserRow) (db : Database) :
    GuardedStep db (updateUserBatch now current next db).2
  | deleteUser (id : String) (db : Database) : GuardedStep db (deleteUserIf removable id db).2
  | replaceGroups (now : Nat) (userId : String) (groupIds : List String) (db : Database) :
    GuardedStep db (membershipBatch
      (!replacementIsSafe userId groupIds.eraseDups db || joinable userId groupIds.eraseDups db)
      (replaceGroups now userId groupIds.eraseDups) now userId db).2
  | leaveGroup (groupId userId : String) (db : Database) : GuardedStep db (leaveGroup groupId userId db).2
  | addMember (now : Nat) (groupId userId : String) (requireRequest : Bool) (db : Database) :
    GuardedStep db (membershipBatch true (addMembership now groupId userId requireRequest) now userId db).2
  | dropRequest (userId groupId : String) (db : Database) :
    GuardedStep db { db with
      groupMembershipRequests := db.groupMembershipRequests.delete fun r => r.userId = userId ∧ r.groupId = groupId }
  | deleteGroup (id : String) (db : Database) : GuardedStep db (deleteGroupStatement id db).2

/-- Every statement of the operations keeps the groups named `admins` and an active administrator. -/
theorem GuardedStep.keeps {db db' : Database} (h : GuardedStep db db') :
    SameAdmins db db' ∧ (HasActiveAdmin db → HasActiveAdmin db') := by
  cases h with
  | updateUser now current next => exact updateUserBatch_keeps now current next db
  | deleteUser id => exact deleteUserIf_keeps id db
  | replaceGroups now userId groupIds =>
    refine membershipBatch_keeps ?_ fun _ => replaceGroups_keeps now userId groupIds.eraseDups db
    obtain ⟨_, _, h⟩ := replaceGroups_frame now userId groupIds.eraseDups db
    rw [h]
    exact fun _ => rfl
  | leaveGroup groupId userId => exact leaveGroup_keeps groupId userId db
  | addMember now groupId userId requireRequest =>
    refine membershipBatch_keeps ?_ fun _ ⟨a, ha⟩ => ⟨a, ?_⟩
    · obtain ⟨_, _, h⟩ := addMembership_frame now groupId userId requireRequest db
      rw [h]
      exact fun _ => rfl
    · unfold addMembership
      split
      · exact joinGroups_administrator ha
      · exact ha
  | dropRequest => exact ⟨fun _ => rfl, fun h => h⟩
  | deleteGroup id => exact deleteGroupStatement_keeps id db

/-- The operations keep a protocol if their statements and the update of a group do. -/
theorem adminCall_keeps {Γ : Protocol Input World} (hΓ : Tolerant Γ) {env : Env}
    (hstep : ∀ {w w' e} ext, Γ.inv w → GuardedStep w.db w'.db → w' = { w with db := w'.db, log := ext ++ w.log } →
      Γ.allow w e w' → Γ.inv w' ∧ Γ.guar w w')
    (hupdate : ∀ id name description isPublic priority, Keeps Γ (updateGroup env id name description isPublic priority)) :
    ∀ c : AdminCall, Keeps Γ (c.code env) := by
  have hc := hΓ.toClocked
  have hadd : ∀ groupId userId requireRequest, Keeps Γ (addGroupMember groupId userId requireRequest) := by
    intro groupId userId requireRequest
    refine keeps_addGroupMember hΓ (fun now => .d1Logged hc fun w w' e hi hw' ha => ?_)
      (.d1 hc fun w w' e hi hw' ha => ?_)
    · exact hstep _ hi (by rw [hw']; exact .addMember now groupId userId requireRequest w.db) (by rw [hw']) ha
    · exact hstep [] hi (by rw [hw']; exact .dropRequest userId groupId w.db) (by rw [hw']; rfl) ha
  intro c
  cases c with
  | updateUser id patch =>
    refine .bind (keeps_updateUser hΓ fun now current => .d1Logged hc fun w w' e hi hw' ha => ?_) fun _ => .pure _
    exact hstep _ hi (by rw [hw']; exact .updateUser now current _ w.db) (by rw [hw']) ha
  | deleteUser id =>
    refine .bind (.d1 hc fun w w' e hi hw' ha => ?_) fun _ => .pure _
    exact hstep [] hi (by rw [hw']; exact .deleteUser id w.db) (by rw [hw']; rfl) ha
  | setUserGroups userId groupIds =>
    refine .bind (keeps_setUserGroupsPreservingActiveAdmin hΓ fun _ now => .d1Logged hc fun w w' e hi hw' ha => ?_)
      fun _ => .pure _
    exact hstep _ hi (by rw [hw']; exact .replaceGroups now userId _ w.db) (by rw [hw']) ha
  | removeMember groupId userId =>
    refine .bind (.bind (.select hc _) fun target => .ite (.pure _) (.bind (.d1 hc fun w w' e hi hw' ha => ?_)
      fun removed => .ite (.pure _) (.bind (.select hc _) fun _ => .pure _))) fun _ => .pure _
    exact hstep [] hi (by rw [hw']; exact .leaveGroup groupId userId w.db) (by rw [hw']; rfl) ha
  | updateGroup id name description isPublic priority => exact .bind (hupdate _ _ _ _ _) fun _ => .pure _
  | deleteGroup id =>
    refine .bind (.bind (.select hc _) fun groups => ?_) fun _ => .pure _
    split
    · exact .pure _
    · refine .ite (.pure _) (.bind (.d1Logged hc fun w w' e hi hw' ha => ?_) fun _ => .pure _)
      exact hstep [] hi (by rw [hw']; exact .deleteGroup id w.db) (by rw [hw']) ha
  | addMember groupId userId => exact .bind (hadd _ _ _) fun _ => .pure _
  | approveMember groupId userId => exact .bind (hadd _ _ _) fun _ => .pure _

/-! ## Every interleaving -/

/-- The protocol of programs that keep an active administrator and the groups named `admins`. -/
def adminProtocol (allow : World → Input → World → Prop) : Protocol Input World :=
  .among (fun w => HasActiveAdmin w.db) (fun w w' => SameAdmins w.db w'.db) allow

theorem admin_tolerant {allow : World → Input → World → Prop}
    (hallow : ∀ w e w', allow w e w' → allow (w.tick e.dt) e w') : Tolerant (adminProtocol allow) where
  ok := ⟨fun _ _ => rfl, SameAdmins.trans⟩
  tickInv := fun _ h => h
  tickRely := fun _ _ _ => rfl
  tickGuar := fun _ _ _ => rfl
  tickAllow := fun e h => hallow _ e _ h
  guarTick := fun _ h => h
  burnInv := fun hb h => by
    show HasActiveAdmin _
    rw [hb.db]
    exact h
  burnRely := fun hb g => by rw [hb.db]
  burnGuar := fun hb g => by rw [hb.db]

theorem mem_listing {db : Database} {id : String} {current : GroupSummary} {le : GroupRow → GroupRow → Prop} [DecidableRel le]
    {count : GroupRow → Nat}
    (h : ((db.groups.rows.insertionSort le).map fun g => ({ g with memberCount := count g } : GroupSummary)).find?
      (·.id = id) = some current) : db.groups.get? id = some current.toGroupRow := by
  have hid : current.id = id := by simpa using List.find?_some h
  obtain ⟨g, hg, rfl⟩ := List.mem_map.1 (List.mem_of_find?_eq_some h)
  rw [List.mem_insertionSort] at hg
  exact Table.get?_eq_some.2 ⟨hg, hid⟩

theorem updateGroup_keeps {allow : World → Input → World → Prop}
    (hallow : ∀ w e w', allow w e w' → allow (w.tick e.dt) e w') (env : Env) (id name : String)
    (description : Option String) (isPublic : Option Bool) (priority : Option Nat) :
    Keeps (adminProtocol allow) (updateGroup env id name description isPublic priority) := by
  have hc := (admin_tolerant hallow).toClocked
  intro w _
  unfold updateGroup
  rw [wpE_bind]
  refine wpE_select hc (stable_true _) trivial (fun w _ hi => ?_) fun _ _ _ => trivial
  split
  · trivial
  · rename_i current hf
    split
    · trivial
    · rename_i hname
      have hrow := mem_listing hf
      -- what was read of the group stays true, since the groups named `admins` do not change
      have hchecked : named "admins" w.db id = true → env.trimLowerCase name = "admins" := by
        intro hadmin
        rw [named, hrow, Option.any_some, decide_eq_true_eq] at hadmin
        by_contra hne
        refine hname ?_
        rw [hadmin]
        simpa [isProtectedGroupName] using hne
      have hstable : (adminProtocol allow).Stable fun w => named "admins" w.db id = true → env.trimLowerCase name = "admins" :=
        fun _ _ h hr _ hadmin => h ((hr id).symm.trans hadmin)
      rw [wpE_bind, d1]
      refine wpE_d1Logged hc hstable hchecked (fun w w' e hp hi hw' _ => ?_) fun _ _ _ => trivial
      obtain ⟨hgroups, hadmins⟩ := renameGroup_keeps hi hp
      rw [hw']
      exact ⟨hadmins, hgroups, trivial, trivial⟩

theorem adminCall_keepsAdmin {allow : World → Input → World → Prop}
    (hallow : ∀ w e w', allow w e w' → allow (w.tick e.dt) e w') (env : Env) (c : AdminCall) :
    Keeps (adminProtocol allow) (c.code env) := by
  refine adminCall_keeps (admin_tolerant hallow) (fun ext hi hs _ _ => ?_) (updateGroup_keeps hallow env) c
  exact ⟨hs.keeps.2 hi, hs.keeps.1⟩

/-- The operations on accounts, groups and memberships. -/
def adminSystem (env : Env) : System AdminCall Input World (Except Failure Unit) where
  code := fun c => (c.code env).run
  allow := fun _ _ _ => True
  arrive := fun _ _ => True

/-- From a state with an active administrator, every interleaving of the operations, whatever storage
calls fail, leads to states with one. -/
theorem active_admin_remains (env : Env) (w₀ : World) (h₀ : HasActiveAdmin w₀.db)
    (P : Pool AdminCall Input World (Except Failure Unit)) (hP : (adminSystem env).Reach ⟨w₀, []⟩ P) :
    HasActiveAdmin P.store.db := by
  refine System.reach_inv_among (I := fun w => HasActiveAdmin w.db) (R := fun w w' => SameAdmins w.db w'.db)
    (fun _ _ => rfl) SameAdmins.trans (fun c w hi => ?_) h₀ hP
  exact wp_of_wpE (adminCall_keepsAdmin (fun _ _ _ _ => trivial) env c w hi)

/-! ## Two administrators disable each other -/

def twoAdmins : World :=
  { Deployment.world with
    db := { Deployment.database with
      users := Deployment.database.users.insert
        { Deployment.user with id := "usr_b", email := "b@example.com", loginAlias := "b" }
      groups := Deployment.database.groups.insert
        { id := "grp_admins", name := "admins", description := none, isPublic := false, priority := 0 }
      userGroups := (Deployment.database.userGroups.insert { userId := "usr_a", groupId := "grp_admins", createdAt := 0 }).insert
        { userId := "usr_b", groupId := "grp_admins", createdAt := 0 } } }

def disable : UserPatch :=
  { name := none, disabled := some true, emailVerified := none }

/-- Both updates read their user before either of them writes. -/
def disableEachOther : List (System.Move AdminCall Input) :=
  [.arrive (.updateUser "usr_b" disable), .arrive (.updateUser "usr_a" disable), .run 0 Deployment.ok, .run 1 Deployment.ok] ++
    (List.replicate 4 (.run 0 Deployment.ok) ++ List.replicate 4 (.run 1 Deployment.ok))

theorem active_admin_remains_racing :
    let P := (adminSystem (.sample [])).moves ⟨twoAdmins, []⟩ disableEachOther
    administrator P.store.db "usr_b" = false ∧ HasActiveAdmin P.store.db := by
  intro P
  have hreach : (adminSystem (.sample [])).Reach ⟨twoAdmins, []⟩ P :=
    System.reach_moves disableEachOther (System.allows_of_passes (fun _ _ => true) (fun _ _ => trivial)
      (fun _ _ _ _ => trivial) disableEachOther (by decide +kernel))
  exact ⟨by decide +kernel, active_admin_remains _ twoAdmins ⟨"usr_a", by decide +kernel⟩ P hreach⟩

end Keyforge.Account
