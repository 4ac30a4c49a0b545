/-
Replacing the groups of a user, alone. The batch asks twice whether the replacement is safe, before and
after its insert; both answers are the same, so it takes place as a whole or not at all. What is returned
is computed from a third read: it is true exactly where the batch took effect.
-/
import Keyforge.Account.MembershipStore
import Keyforge.Calm
import Keyforge.Db.PermissionGroupRules
import Keyforge.Lib.Reads

namespace Keyforge.Account

open Lib Db Auth Tokens

/-! ## What a replacement is to do -/

/-- The user is the only enabled administrator. -/
def SoleAdministrator (userId : String) (db : Database) : Prop :=
  administrator db userId = true ∧ ∀ a, administrator db a = true → a = userId

/-- None of the groups is `admins`. -/
def OmitsAdmins (groupIds : List String) (db : Database) : Prop :=
  ∀ g ∈ groupIds, named "admins" db g = false

/-- The user is in the requested groups and in `all`, and every other membership is what it was. -/
structure Replaced (userId : String) (groupIds : List String) (db db' : Database) : Prop where
  own : ∀ g, (db'.userGroups.get? (userId, g)).isSome = true ↔ g ∈ groupIds ∨ named "all" db g = true
  others : ∀ m, m.userId ≠ userId → (m ∈ db'.userGroups ↔ m ∈ db.userGroups)

/-- The guard refuses exactly where the only enabled administrator would cease to be one. -/
theorem replacementIsSafe_eq_false {userId : String} {desired : List String} {db : Database} :
    replacementIsSafe userId desired db = false ↔ SoleAdministrator userId db ∧ OmitsAdmins desired db := by
  have hadmins : (desired.any fun g => named "admins" db g) = false ↔ OmitsAdmins desired db := by
    simp [OmitsAdmins]
  have hother : anotherActiveAdmin userId db = false ↔ ∀ a, administrator db a = true → a = userId := by
    rw [Bool.eq_false_iff, Ne, anotherActiveAdmin_iff]
    constructor
    · intro h a ha
      by_contra hne
      exact h ⟨a, hne, ha⟩
    · rintro h ⟨a, hne, ha⟩
      exact hne (h a ha)
  unfold replacementIsSafe
  rw [Bool.or_eq_false_iff]
  constructor
  · rintro ⟨hkeeps, hsole⟩
    simp only [Bool.not_eq_false', Bool.and_eq_true, Bool.not_eq_true'] at hsole
    exact ⟨⟨Bool.and_eq_true_iff.2 hsole.1, hother.1 hsole.2⟩, hadmins.1 hkeeps⟩
  · rintro ⟨⟨hadmin, hsole⟩, homits⟩
    have hadmin : (isAdmin userId db && (db.users.get? userId).any (!·.disabled)) = true := hadmin
    refine ⟨hadmins.2 homits, ?_⟩
    rw [hadmin, hother.2 hsole]
    rfl

/-! ## The answer -/

/-- The ids of the user's groups. -/
def groupIdsOf (userId : String) (db : Database) : List String :=
  (db.userGroups.select (·.userId = userId)).map (·.groupId)

/-- What is compared with the memberships read at the end. -/
def expectedGroups (desired : List String) (db : Database) : List String :=
  (desired ++ ((db.groups.rows.find? (·.name = "all")).map (·.id)).toList).eraseDups

def replacementAnswer (userId : String) (desired : List String) (db : Database) : Bool :=
  (groupIdsOf userId db).length = (expectedGroups desired db).length &&
    (groupIdsOf userId db).all (expectedGroups desired db).contains

theorem nodup_groupIdsOf (userId : String) (db : Database) : (groupIdsOf userId db).Nodup := by
  refine List.Nodup.map_on (fun m hm m' hm' h => ?_) ((List.Nodup.of_map _ db.userGroups.nodup).filter _)
  obtain ⟨hmem, hown⟩ := Table.mem_select.1 hm
  obtain ⟨hmem', hown'⟩ := Table.mem_select.1 hm'
  exact Table.key_inj hmem hmem' (Prod.ext ((of_decide_eq_true hown).trans (of_decide_eq_true hown').symm) h)

theorem mem_groupIdsOf {userId g : String} {db : Database} :
    g ∈ groupIdsOf userId db ↔ ∃ m ∈ db.userGroups, m.userId = userId ∧ m.groupId = g := by
  simp [groupIdsOf, and_assoc]

theorem mem_groupIdsOf_iff {userId g : String} {db : Database} :
    g ∈ groupIdsOf userId db ↔ (db.userGroups.get? (userId, g)).isSome = true := by
  rw [mem_groupIdsOf, Option.isSome_iff_exists]
  constructor
  · rintro ⟨m, hm, rfl, rfl⟩
    exact ⟨m, Table.get?_of_mem hm⟩
  · rintro ⟨m, hm⟩
    obtain ⟨hmem, hk⟩ := Table.get?_eq_some.1 hm
    exact ⟨m, hmem, (Prod.mk.inj hk).1, (Prod.mk.inj hk).2⟩

theorem mem_expectedGroups {desired : List String} {g : String} {db : Database} (h : UniqueNames db) :
    g ∈ expectedGroups desired db ↔ g ∈ desired ∨ named "all" db g = true := by
  unfold expectedGroups
  rw [List.mem_eraseDups, List.mem_append]
  refine or_congr_right ?_
  constructor
  · intro hg
    rw [Option.mem_toList, Option.map_eq_some_iff] at hg
    obtain ⟨found, hfound, rfl⟩ := hg
    exact named_iff.2 ⟨found, List.mem_of_find?_eq_some hfound, rfl, by simpa using List.find?_some hfound⟩
  · intro hg
    obtain ⟨row, hrow, -, hname⟩ := named_iff.1 hg
    cases hfind : db.groups.rows.find? (·.name = "all") with
    | none => exact absurd (decide_eq_true hname) (List.find?_eq_none.1 hfind row hrow)
    | some found =>
      have hfound : named "all" db found.id = true :=
        named_iff.2 ⟨found, List.mem_of_find?_eq_some hfind, rfl, by simpa using List.find?_some hfind⟩
      simp [named_unique h hfound hg]

/-- The answer is true exactly if the user is in the requested groups and `all`. -/
theorem replacementAnswer_iff {userId : String} {desired : List String} {db : Database} (h : UniqueNames db) :
    replacementAnswer userId desired db = true ↔ ∀ g, g ∈ groupIdsOf userId db ↔ g ∈ desired ∨ named "all" db g = true := by
  have hnodup := nodup_groupIdsOf userId db
  have hexpected : (expectedGroups desired db).Nodup := nodup_eraseDups _
  simp only [replacementAnswer, Bool.and_eq_true, decide_eq_true_eq, List.all_eq_true, List.contains_iff_mem]
  constructor
  · rintro ⟨hlength, hall⟩ g
    rw [← mem_expectedGroups h]
    have hperm := (List.subperm_of_subset hnodup hall).perm_of_length_le hlength.ge
    exact hperm.mem_iff
  · intro hsame
    have hperm : (groupIdsOf userId db).Perm (expectedGroups desired db) :=
      (List.perm_ext_iff_of_nodup hnodup hexpected).2 fun g => (hsame g).trans (mem_expectedGroups h).symm
    exact ⟨hperm.length_eq, fun g hg => hperm.mem_iff.1 hg⟩

/-! ## The batch -/

/-- The foreign keys of the insert hold, or the guard keeps it from inserting. -/
def replaceable (userId : String) (desired : List String) (db : Database) : Bool :=
  !replacementIsSafe userId desired db || joinable userId desired db

/-- The database after the batch. -/
def replacementBatch (now : Nat) (userId : String) (desired : List String) (db : Database) : Database :=
  (membershipBatch (replaceable userId desired db) (replaceGroups now userId desired) now userId db).2

theorem replacementBatch_aborted {now : Nat} {userId : String} {desired : List String} {db : Database}
    (h : replaceable userId desired db = false) : replacementBatch now userId desired db = db := by
  rw [replacementBatch, h]
  rfl

theorem replacementBatch_rows {now : Nat} {userId : String} {desired : List String} {db : Database}
    (h : replaceable userId desired db = true) :
    (replacementBatch now userId desired db).userGroups = (replaceGroups now userId desired db).userGroups ∧
      (replacementBatch now userId desired db).groups = db.groups := by
  obtain ⟨_, _, hclosed⟩ := adminPromotionRevocation_frame now userId (replaceGroups now userId desired db)
  obtain ⟨_, _, hwritten⟩ := replaceGroups_frame now userId desired db
  have hbatch : replacementBatch now userId desired db =
      (adminPromotionRevocation now userId (replaceGroups now userId desired db)).2 := by
    rw [replacementBatch, h]
    rfl
  constructor
  · rw [hbatch, hclosed]
  · rw [hbatch, hclosed, hwritten]

/-- Where the guard refuses, the batch writes nothing. -/
theorem replacementBatch_refused {now : Nat} {userId : String} {desired : List String} {db : Database}
    (hsafe : replacementIsSafe userId desired db = false) :
    (replacementBatch now userId desired db).userGroups = db.userGroups := by
  rw [(replacementBatch_rows (by rw [replaceable, hsafe]; rfl)).1, replaceGroups_eq, hsafe]
  rfl

/-- Where the guard passes and the foreign keys hold, the memberships are those requested. -/
theorem replacementBatch_safe {now : Nat} {userId : String} {groupIds : List String} {db : Database}
    (hall : ∀ g, named "all" db g = true → (db.userGroups.get? (userId, g)).isSome = true)
    (hsafe : replacementIsSafe userId groupIds.eraseDups db = true) (hvalid : joinable userId groupIds.eraseDups db = true) :
    Replaced userId groupIds db (replacementBatch now userId groupIds.eraseDups db) := by
  have hrows : (replacementBatch now userId groupIds.eraseDups db).userGroups =
      (leaveGroups userId groupIds.eraseDups (joinGroups now userId groupIds.eraseDups db)).userGroups := by
    rw [(replacementBatch_rows (by rw [replaceable, hvalid, Bool.or_true])).1, replaceGroups_eq, if_pos hsafe]
  have hleft : ∀ m, m ∈ (replacementBatch now userId groupIds.eraseDups db).userGroups ↔
      m ∈ (joinGroups now userId groupIds.eraseDups db).userGroups ∧
        (m.userId = userId → m.groupId ∈ groupIds.eraseDups ∨ named "all" db m.groupId = true) := by
    intro m
    rw [hrows]
    exact mem_leaveGroups
  constructor
  · intro g
    constructor
    · intro hg
      obtain ⟨m, hm⟩ := Option.isSome_iff_exists.1 hg
      obtain ⟨hmem, hk⟩ := Table.get?_eq_some.1 hm
      obtain ⟨hown, rfl⟩ := Prod.mk.inj hk
      exact (((hleft m).1 hmem).2 hown).imp_left List.mem_eraseDups.1
    · intro hg
      have hjoined : ∃ m ∈ (joinGroups now userId groupIds.eraseDups db).userGroups, m.userId = userId ∧ m.groupId = g := by
        rcases hg with hrequested | huniversal
        · exact joined_of_mem (List.mem_eraseDups.2 hrequested)
        · -- the user was in `all` before
          obtain ⟨m, hm⟩ := Option.isSome_iff_exists.1 (hall g huniversal)
          obtain ⟨hmem, hk⟩ := Table.get?_eq_some.1 hm
          exact ⟨m, mem_joinGroups hmem, (Prod.mk.inj hk).1, (Prod.mk.inj hk).2⟩
      obtain ⟨m, hm, rfl, rfl⟩ := hjoined
      exact Option.isSome_iff_exists.2 ⟨m, Table.get?_of_mem ((hleft m).2 ⟨hm, fun _ => hg.imp_left List.mem_eraseDups.2⟩)⟩
  · intro m hne
    rw [hleft]
    constructor
    · rintro ⟨hm, -⟩
      rcases mem_joinGroups_iff hm with hold | ⟨hown, -⟩
      · exact hold
      · exact absurd hown hne
    · exact fun hm => ⟨mem_joinGroups hm, fun hown => absurd hown hne⟩

/-! ## The call -/

/-- Alone, the call throws and leaves the database as it is, or runs its batch and answers from what that
leaves. -/
theorem setUserGroupsPreservingActiveAdmin_calm {userId : String} {groupIds : List String} {w w' : World}
    {r : Except Failure Bool} (hlength : groupIds.eraseDups.length ≤ MAX_USER_GROUPS)
    (hrun : RunsBy Calm (setUserGroupsPreservingActiveAdmin userId groupIds).run w r w') :
    (replaceable userId groupIds.eraseDups w.db = false ∧ r = .error .storage ∧ w'.db = w.db) ∨
      (replaceable userId groupIds.eraseDups w.db = true ∧
        r = .ok (replacementAnswer userId groupIds.eraseDups w'.db) ∧
        ∃ now, w'.db = replacementBatch now userId groupIds.eraseDups w.db) := by
  have hpost : wpE calm (setUserGroupsPreservingActiveAdmin userId groupIds)
      (fun answer w' => replaceable userId groupIds.eraseDups w.db = true ∧
        answer = replacementAnswer userId groupIds.eraseDups w'.db ∧
        ∃ now, w'.db = replacementBatch now userId groupIds.eraseDups w.db)
      (fun x w' => replaceable userId groupIds.eraseDups w.db = false ∧ x = .storage ∧ w'.db = w.db) w := by
    unfold setUserGroupsPreservingActiveAdmin
    rw [wpE_bind]
    refine wpE_clock calm_tolerant.toClocked (P := fun w₁ => w₁.db = w.db) (calm_stable (P := (· = w.db))) rfl fun w₁ h₁ _ => ?_
    rw [wpE_bind, wpE_require]
    refine ⟨fun _ => ?_, fun hlong => absurd hlength (of_decide_eq_false hlong)⟩
    rw [wpE_bind]
    refine wpE_d1_calm (P := (· = w.db)) h₁ fun w₂ w₃ h₂ h₃ => ?_
    rw [h₂] at h₃ ⊢
    have h₃ : w₃.db = replacementBatch w₁.nowSeconds userId groupIds.eraseDups w.db := h₃
    dsimp only
    rw [wpE_bind, wpE_require]
    refine ⟨fun hvalid => ?_, fun hrefused => ?_⟩
    -- the batch ran: the families go, and the answer is read back
    · have hvalid : replaceable userId groupIds.eraseDups w.db = true := by
        unfold membershipBatch at hvalid
        split at hvalid
        · assumption
        · cases hvalid
      rw [wpE_bind]
      refine revokeRefreshFamilyDurableObjects_wpE calm_tolerant (P := fun w' => w'.db = w₃.db)
        (calm_stable (P := (· = w₃.db))) rfl trivial fun w₄ h₄ _ => ?_
      have h₄ : w₄.db = replacementBatch w₁.nowSeconds userId groupIds.eraseDups w.db := h₄.trans h₃
      rw [wpE_bind]
      exact wpE_selects_calm fun w₅ h₅ => ⟨hvalid, by rw [h₅]; rfl, _, h₅.trans h₄⟩
    -- or its guard aborted it
    · have hrefused : replaceable userId groupIds.eraseDups w.db = false := by
        unfold membershipBatch at hrefused
        split at hrefused
        · cases hrefused
        · rename_i hinvalid
          exact Bool.eq_false_iff.2 hinvalid
      exact ⟨hrefused, rfl, h₃.trans (replacementBatch_aborted hrefused)⟩
  have := post_of_calm hrun hpost
  cases r with
  | ok answer => exact Or.inr ⟨this.1, congrArg _ this.2.1, this.2.2⟩
  | error x => exact Or.inl ⟨this.1, congrArg _ this.2.1, this.2.2⟩

/-- The administrator that the guard protects is in a group that is not among those expected. -/
theorem replacementAnswer_refused {userId : String} {desired : List String} {db db' : Database} (h : UniqueNames db')
    (hsafe : replacementIsSafe userId desired db = false) (hgroups : db'.groups = db.groups)
    (hrows : db'.userGroups = db.userGroups) : replacementAnswer userId desired db' = false := by
  obtain ⟨⟨hadmin, -⟩, homits⟩ := replacementIsSafe_eq_false.1 hsafe
  obtain ⟨⟨m, hm, hown, hname⟩, -⟩ := administrator_iff.1 hadmin
  rw [Bool.eq_false_iff, Ne, replacementAnswer_iff h]
  intro hsame
  have hmem : m.groupId ∈ groupIdsOf userId db' := mem_groupIdsOf.2 ⟨m, hrows ▸ hm, hown, rfl⟩
  rcases (hsame m.groupId).1 hmem with hdesired | hall
  · rw [homits _ hdesired] at hname
    cases hname
  · -- one group has one name
    rw [SameProtected.all (.of_groups hgroups)] at hall
    obtain ⟨row, hrow, hid, hadmins⟩ := named_iff.1 hname
    obtain ⟨row', hrow', hid', hall⟩ := named_iff.1 hall
    rw [Table.key_inj hrow hrow' (hid.trans hid'.symm), hall] at hadmins
    exact absurd hadmins (by decide)

/-- Alone, the call for an existing user, who is in `all`, returns false exactly where the only enabled
administrator would leave `admins`. If the requested groups exist it replaces the memberships as a whole and
returns true, or leaves every membership and returns false. If one does not, no membership changes, and the
call throws unless it returns false for that reason. -/
theorem replacement_all_or_nothing {userId : String} {groupIds : List String} {w w' : World} {r : Except Failure Bool}
    (hnames : UniqueNames w.db) (huser : (w.db.users.get? userId).isSome = true)
    (hall : ∀ g, named "all" w.db g = true → (w.db.userGroups.get? (userId, g)).isSome = true)
    (hlength : groupIds.eraseDups.length ≤ 100)
    (hrun : RunsBy Calm (setUserGroupsPreservingActiveAdmin userId groupIds).run w r w') :
    (r = .ok false ↔ SoleAdministrator userId w.db ∧ OmitsAdmins groupIds w.db) ∧
      ((∀ g ∈ groupIds, (w.db.groups.get? g).isSome = true) →
        (r = .ok true ∧ Replaced userId groupIds w.db w'.db) ∨ (r = .ok false ∧ w'.db.userGroups = w.db.userGroups)) ∧
      ((∃ g ∈ groupIds, w.db.groups.get? g = none) →
        ((∃ x, r = .error x) ∨ r = .ok false) ∧ w'.db.userGroups = w.db.userGroups) := by
  have homits : OmitsAdmins groupIds.eraseDups w.db ↔ OmitsAdmins groupIds w.db := by
    simp [OmitsAdmins]
  have hsole : replacementIsSafe userId groupIds.eraseDups w.db = false ↔
      SoleAdministrator userId w.db ∧ OmitsAdmins groupIds w.db := by
    rw [replacementIsSafe_eq_false, homits]
  have hjoinable : joinable userId groupIds.eraseDups w.db = true ↔ ∀ g ∈ groupIds, (w.db.groups.get? g).isSome = true := by
    rw [joinable, huser, Bool.true_and, Bool.or_eq_true, List.all_eq_true]
    constructor
    · rintro (hempty | hall) g hg
      · rw [List.isEmpty_iff] at hempty
        exact absurd (List.mem_eraseDups.2 hg) (hempty ▸ List.not_mem_nil)
      · exact hall g (List.mem_eraseDups.2 hg)
    · exact fun hall => Or.inr fun g hg => hall g (List.mem_eraseDups.1 hg)
  rcases setUserGroupsPreservingActiveAdmin_calm hlength hrun with ⟨haborted, rfl, hdb⟩ | ⟨hvalid, rfl, now, hdb⟩
  · -- a foreign key is violated, and the batch is aborted
    rw [replaceable, Bool.or_eq_false_iff, Bool.not_eq_false'] at haborted
    rw [← hsole, haborted.1]
    refine ⟨⟨by rintro ⟨⟩, by rintro ⟨⟩⟩, fun hexist => ?_, fun _ => ⟨Or.inl ⟨_, rfl⟩, by rw [hdb]⟩⟩
    rw [hjoinable.2 hexist] at haborted
    cases haborted.2
  · have hgroups : w'.db.groups = w.db.groups := by
      rw [hdb]
      exact (replacementBatch_rows hvalid).2
    have hkept : UniqueNames w'.db := by
      rw [UniqueNames, hgroups]
      exact hnames
    rw [← hsole]
    cases hsafe : replacementIsSafe userId groupIds.eraseDups w.db with
    | false =>
      have hrows : w'.db.userGroups = w.db.userGroups := by
        rw [hdb]
        exact replacementBatch_refused hsafe
      rw [replacementAnswer_refused hkept hsafe hgroups hrows]
      exact ⟨⟨fun _ => rfl, fun _ => rfl⟩, fun _ => Or.inr ⟨rfl, hrows⟩, fun _ => ⟨Or.inr rfl, hrows⟩⟩
    | true =>
      have hjoined : joinable userId groupIds.eraseDups w.db = true := by
        rw [replaceable, hsafe] at hvalid
        exact hvalid
      have hreplaced : Replaced userId groupIds w.db w'.db := by
        rw [hdb]
        exact replacementBatch_safe hall hsafe hjoined
      have htrue : replacementAnswer userId groupIds.eraseDups w'.db = true := by
        refine (replacementAnswer_iff hkept).2 fun g => ?_
        rw [mem_groupIdsOf_iff, hreplaced.own g, List.mem_eraseDups, SameProtected.all (.of_groups hgroups)]
      rw [htrue]
      refine ⟨⟨by rintro ⟨⟩, by rintro ⟨⟩⟩, fun _ => Or.inl ⟨rfl, hreplaced⟩, ?_⟩
      rintro ⟨g, hg, hnone⟩
      have hsome := hjoinable.1 hjoined g hg
      rw [hnone] at hsome
      cases hsome

/-! ## The only administrator -/

/-- One enabled administrator, with no other user. -/
def soleAdminWorld : World :=
  { Deployment.world with
    db := { Database.empty with
      users := (∅ : Table UserRow.id).insert Deployment.user
      groups := ⟨migratedGroups, nodup_migratedGroups⟩
      userGroups := ((∅ : Table fun r : UserGroupRow => (r.userId, r.groupId)).insert
        { userId := "usr_a", groupId := "grp_seed_all", createdAt := 0 }).insert
        { userId := "usr_a", groupId := "grp_seed_admins", createdAt := 0 } } }

theorem soleAdminWorld_names : UniqueNames soleAdminWorld.db := by
  unfold UniqueNames
  decide

theorem soleAdminWorld_all : ∀ g, named "all" soleAdminWorld.db g = true →
    (soleAdminWorld.db.userGroups.get? ("usr_a", g)).isSome = true := by
  intro g hg
  rw [named_unique soleAdminWorld_names hg (by decide : named "all" soleAdminWorld.db "grp_seed_all" = true)]
  decide

theorem soleAdminWorld_store : MembershipStore soleAdminWorld.db where
  names := soleAdminWorld_names
  admins := ⟨"grp_seed_admins", by decide⟩
  universal := ⟨"grp_seed_all", by decide⟩
  grouped := by unfold soleAdminWorld; decide
  everyone := by unfold soleAdminWorld; decide
  limited := fun userId => (List.length_filter_le _ _).trans (by decide)
  unanswered := nofun
  unprotected := nofun

theorem replacement_all_or_nothing_added : ∃ w',
    RunsBy Calm (setUserGroupsPreservingActiveAdmin "usr_a" ["grp_seed_admins", "grp_seed_employees"]).run soleAdminWorld
      (.ok true) w' ∧ Replaced "usr_a" ["grp_seed_admins", "grp_seed_employees"] soleAdminWorld.db w'.db := by
  have hcalm : Calm Deployment.ok := rfl
  obtain ⟨r, w', hrun⟩ := exists_runsBy hcalm
    (setUserGroupsPreservingActiveAdmin "usr_a" ["grp_seed_admins", "grp_seed_employees"]).run soleAdminWorld
  obtain ⟨hsole, hexist, -⟩ := replacement_all_or_nothing soleAdminWorld_names (by decide) soleAdminWorld_all (by decide) hrun
  rcases hexist (by decide) with ⟨rfl, hreplaced⟩ | ⟨hfalse, -⟩
  · exact ⟨w', hrun, hreplaced⟩
  · have homits := (hsole.1 hfalse).2 "grp_seed_admins" (by decide)
    exact absurd homits (by decide)

/-- A requested group does not exist and the call does not fail: it is refused before the insert. -/
theorem missing_group_refused :
    MembershipStore soleAdminWorld.db ∧ soleAdminWorld.db.groups.get? "grp_missing" = none ∧
      ∃ w', RunsBy Calm (setUserGroupsPreservingActiveAdmin "usr_a" ["grp_missing"]).run soleAdminWorld (.ok false) w' := by
  refine ⟨soleAdminWorld_store, by decide, ?_⟩
  obtain ⟨⟨r, w'⟩, hr⟩ : ∃ x,
      runOn Deployment.ok 6 (setUserGroupsPreservingActiveAdmin "usr_a" ["grp_missing"]).run soleAdminWorld = some x := ⟨_, rfl⟩
  have hfalse : r = .ok false := by
    have hanswer : (runOn Deployment.ok 6 (setUserGroupsPreservingActiveAdmin "usr_a" ["grp_missing"]).run
        soleAdminWorld).map Prod.fst = some (.ok false) := by decide +kernel
    rw [hr] at hanswer
    exact Option.some.inj hanswer
  subst hfalse
  have hcalm : Calm Deployment.ok := rfl
  exact ⟨w', runsBy_of_runOn hcalm hr⟩

end Keyforge.Account
