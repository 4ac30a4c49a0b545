/-
Hidden groups cannot be told from missing ones. Two databases that differ in groups which are not
public and have the user for no member, and in requests to join them, stay such through everything
the user may do with groups, and answer it alike: a listing shows no such group, a request by id
finds none, and a request by name says the same whether it wrote a row or not.
-/
import Keyforge.Calm
import Keyforge.Deployment
import Keyforge.Routes.Account

namespace Keyforge.Account

open Lib Db Routes

/-! ## Databases that differ in hidden groups -/

/-- The groups `hidden` are not public, and the user is a member of none. -/
structure Conceals (userId : String) (hidden : String → Bool) (db : Database) : Prop where
  notPublic : ∀ g ∈ db.groups, hidden g.id = true → g.isPublic = false
  notMember : ∀ m ∈ db.userGroups, hidden m.groupId = true → m.userId ≠ userId

/-- The databases differ in groups `hidden` from the user at most: the other groups, their members and
the requests to join them are the same. -/
structure SameButHidden (userId : String) (hidden : String → Bool) (db db' : Database) : Prop where
  left : Conceals userId hidden db
  right : Conceals userId hidden db'
  groups : Table.SameRows (fun g => !hidden g.id) db.groups db'.groups
  userGroups : Table.SameRows (fun m => !hidden m.groupId) db.userGroups db'.userGroups
  requests : Table.SameRows (fun r => !hidden r.groupId) db.groupMembershipRequests db'.groupMembershipRequests

section

variable {userId : String} {hidden : String → Bool} {db db' : Database}

theorem Conceals.not_inGroup (h : Conceals userId hidden db) {id : String} (hid : hidden id = true) :
    inGroup userId id db = false := by
  rw [Bool.eq_false_iff]
  intro hin
  obtain ⟨m, hm, hp⟩ := Table.has_iff.1 hin
  simp only [Bool.and_eq_true, decide_eq_true_eq] at hp
  obtain ⟨huser, hgroup⟩ := hp
  exact h.notMember m hm (by rw [hgroup]; exact hid) huser

/-- A group the user can see is not hidden. -/
theorem Conceals.seen (h : Conceals userId hidden db) {g : GroupRow} (hg : g ∈ db.groups)
    (hseen : g.isPublic = true ∨ inGroup userId g.id db = true) : (!hidden g.id) = true := by
  cases hid : hidden g.id with
  | false => rfl
  | true =>
    rcases hseen with hpub | hin
    · rw [h.notPublic g hg hid] at hpub
      cases hpub
    · rw [h.not_inGroup hid] at hin
      cases hin

theorem SameButHidden.inGroup_eq (h : SameButHidden userId hidden db db') {id : String} (hid : (!hidden id) = true) :
    inGroup userId id db = inGroup userId id db' := by
  refine h.userGroups.has fun m hm => ?_
  simp only [Bool.and_eq_true, decide_eq_true_eq] at hm
  rw [hm.2]
  exact hid

theorem SameButHidden.hasRequested_eq (h : SameButHidden userId hidden db db') {id : String} (hid : (!hidden id) = true) :
    hasRequested userId id db = hasRequested userId id db' := by
  refine h.requests.has fun r hr => ?_
  simp only [Bool.and_eq_true, decide_eq_true_eq] at hr
  rw [hr.2]
  exact hid

/-! ## Listing -/

theorem SameButHidden.summary_eq (h : SameButHidden userId hidden db db') {g : GroupRow} (hid : (!hidden g.id) = true) :
    membershipSummary userId db g = membershipSummary userId db' g := by
  have hmembers : db.userGroups.select (·.groupId = g.id) = db'.userGroups.select (·.groupId = g.id) := by
    have hkind : ∀ m : UserGroupRow, decide (m.groupId = g.id) = true → (!hidden m.groupId) = true := by
      intro m hm
      rw [of_decide_eq_true hm]
      exact hid
    exact h.userGroups.select_congr (fun m _ => hkind m) (fun m _ => hkind m) fun _ _ => rfl
  have hstate : membershipState userId g.id db = membershipState userId g.id db' := by
    rw [membershipState, membershipState, h.inGroup_eq hid, h.hasRequested_eq hid]
  rw [membershipSummary, membershipSummary, hmembers, hstate]

theorem SameButHidden.listed_eq (h : SameButHidden userId hidden db db') :
    db.groups.select (isListed userId db) = db'.groups.select (isListed userId db') := by
  have hseen : ∀ {d : Database}, Conceals userId hidden d → ∀ g ∈ d.groups, isListed userId d g = true → (!hidden g.id) = true := by
    intro d hd g hg hlisted
    rw [isListed, Bool.or_eq_true, Bool.and_eq_true] at hlisted
    exact hd.seen hg (hlisted.imp And.left id)
  refine h.groups.select_congr (hseen h.left) (hseen h.right) fun g hid => ?_
  rw [isListed, isListed, h.inGroup_eq hid]

theorem SameButHidden.summaries_eq (h : SameButHidden userId hidden db db') :
    groupSummaries userId db = groupSummaries userId db' := by
  have hmap : (db.groups.select (isListed userId db)).map (membershipSummary userId db) =
      (db.groups.select (isListed userId db)).map (membershipSummary userId db') := by
    refine List.map_congr_left fun g hg => h.summary_eq ?_
    obtain ⟨hmem, hlisted⟩ := Table.mem_select.1 hg
    rw [isListed, Bool.or_eq_true, Bool.and_eq_true] at hlisted
    exact h.left.seen hmem (hlisted.imp And.left id)
  rw [groupSummaries, groupSummaries, hmap, h.listed_eq]

/-! ## Requesting -/

/-- The public group with an id, or with a name, is the same group. -/
theorem SameButHidden.public_eq (h : SameButHidden userId hidden db db') (p : GroupRow → Bool) :
    db.groups.select (fun g => p g && g.isPublic) = db'.groups.select (fun g => p g && g.isPublic) := by
  have hseen : ∀ {d : Database}, Conceals userId hidden d → ∀ g ∈ d.groups, (p g && g.isPublic) = true → (!hidden g.id) = true := by
    intro d hd g hg hpub
    exact hd.seen hg (Or.inl (Bool.and_eq_true_iff.1 hpub).2)
  exact h.groups.select_congr (hseen h.left) (hseen h.right) fun _ _ => rfl

theorem SameButHidden.target_eq (h : SameButHidden userId hidden db db') (groupId : String) :
    requestTarget userId groupId db = requestTarget userId groupId db' := by
  rw [requestTarget, requestTarget, ← h.public_eq fun g => g.id = groupId]
  refine Option.map_congr fun g hg => ?_
  obtain ⟨hmem, hp⟩ := Table.mem_select.1 (List.mem_of_mem_head? hg)
  have hid := h.left.seen hmem (Or.inl (Bool.and_eq_true_iff.1 hp).2)
  rw [h.inGroup_eq hid, h.hasRequested_eq hid]

/-- What is inserted for hidden groups stays out of sight. -/
theorem sameRows_foldl_insert (userId : String) (hidden : String → Bool) :
    ∀ (ids : List String) {t t' : Table fun r : GroupMembershipRequestRow => (r.userId, r.groupId)},
      Table.SameRows (fun r => !hidden r.groupId) t t' →
      Table.SameRows (fun r => !hidden r.groupId) (ids.foldl (fun t groupId => t.insert { userId, groupId }) t)
        ((ids.filter (!hidden ·)).foldl (fun t groupId => t.insert { userId, groupId }) t')
  | [], _, _, h => h
  | id :: ids, t, t', h => by
    cases hid : hidden id with
    | true =>
      rw [List.filter_cons_of_neg (by rw [hid]; decide), List.foldl_cons]
      refine sameRows_foldl_insert userId hidden ids ?_
      exact (Table.SameRows.of_insert (by rw [hid]; rfl)).trans h
    | false =>
      rw [List.filter_cons_of_pos (by rw [hid]; rfl), List.foldl_cons, List.foldl_cons]
      refine sameRows_foldl_insert userId hidden ids (h.insert (fun a b hab => ?_) _)
      rw [(Prod.mk.injEq .. ▸ hab : a.userId = b.userId ∧ a.groupId = b.groupId).2]

/-- The groups outside `hidden` for which a row is inserted. -/
theorem SameButHidden.inserted_eq (h : SameButHidden userId hidden db db') (matching : GroupRow → Bool) :
    ((db.groups.select fun g => matching g && !inGroup userId g.id db).map (·.id)).filter (!hidden ·) =
      ((db'.groups.select fun g => matching g && !inGroup userId g.id db').map (·.id)).filter (!hidden ·) := by
  rw [List.filter_map, List.filter_map, Table.select, Table.select, List.filter_filter, List.filter_filter]
  refine congrArg (List.map (·.id)) (h.groups.select_congr ?_ ?_ fun g hid => ?_)
  · exact fun g _ hg => (Bool.and_eq_true_iff.1 hg).1
  · exact fun g _ hg => (Bool.and_eq_true_iff.1 hg).1
  · simp only [Function.comp, h.inGroup_eq hid]

theorem SameButHidden.insertRequests (h : SameButHidden userId hidden db db') (matching : GroupRow → Bool) :
    SameButHidden userId hidden (insertRequests userId matching db).2 (insertRequests userId matching db').2 where
  left := ⟨h.left.notPublic, h.left.notMember⟩
  right := ⟨h.right.notPublic, h.right.notMember⟩
  groups := h.groups
  userGroups := h.userGroups
  requests := by
    have h₁ := sameRows_foldl_insert userId hidden
      ((db.groups.select fun g => matching g && !inGroup userId g.id db).map (·.id)) h.requests
    have h₂ := sameRows_foldl_insert userId hidden
      ((db'.groups.select fun g => matching g && !inGroup userId g.id db').map (·.id)) (t := db'.groupMembershipRequests) rfl
    rw [h.inserted_eq matching] at h₁
    exact h₁.trans h₂.symm

/-- A request for a public group inserts the same rows. -/
theorem SameButHidden.requested_eq (h : SameButHidden userId hidden db db') {matching : GroupRow → Bool}
    (hpub : ∀ g, matching g = true → g.isPublic = true) :
    (Db.insertRequests userId matching db).1 = (Db.insertRequests userId matching db').1 := by
  have hseen : ∀ {d : Database}, Conceals userId hidden d → ∀ g ∈ d.groups,
      (matching g && !inGroup userId g.id d) = true → (!hidden g.id) = true := by
    intro d hd g hg hp
    exact hd.seen hg (Or.inl (hpub g (Bool.and_eq_true_iff.1 hp).1))
  have hselect : db.groups.select (fun g => matching g && !inGroup userId g.id db) =
      db'.groups.select fun g => matching g && !inGroup userId g.id db' := by
    refine h.groups.select_congr (hseen h.left) (hseen h.right) fun g hid => ?_
    rw [h.inGroup_eq hid]
  simp only [Db.insertRequests, ← hselect]
  refine List.filter_congr fun id hid => ?_
  obtain ⟨g, hg, rfl⟩ := List.mem_map.1 hid
  obtain ⟨hmem, hp⟩ := Table.mem_select.1 hg
  rw [h.hasRequested_eq (hseen h.left g hmem hp)]

end

/-! ## The user's operations -/

/-- List the groups, or send the form that asks to join one. -/
inductive GroupOperation where
  | list
  | request (form : GroupRequestForm)
  deriving DecidableEq, Repr

inductive GroupAnswer where
  | groups (summaries : List PermissionGroupMembershipSummary)
  | redirect (location : String)
  deriving DecidableEq, Repr

def GroupOperation.program (userId : String) : GroupOperation → App GroupAnswer
  | .list => GroupAnswer.groups <$> listPermissionGroupsForUser userId
  | .request form => GroupAnswer.redirect <$> requestGroup userId form

section

variable (userId : String) (hidden : String → Bool)

/-- An audit record before the answer, or none. -/
theorem audited_idle {α : Type} (p : Prop) [Decidable p] (a : α) (w : World) (r : Except Failure α) (w' : World)
    (h : RunsBy Calm (if p then OAuth.recordAudit >>= fun _ => pure a else pure a : App α).run w r w') :
    r = .ok a ∧ w'.db = w.db := by
  split at h
  · obtain ⟨s, v, hrun, hrest⟩ := runsBy_bind.1 h
    obtain ⟨e, he, hop⟩ := runsBy_atomic.1 hrun
    have hcalm : e.fail = false := he
    simp only [hcalm, Bool.false_eq_true, if_false] at hop
    cases hop
    obtain ⟨rfl, rfl⟩ := runsBy_done.1 hrest
    exact ⟨rfl, rfl⟩
  · obtain ⟨rfl, rfl⟩ := runsBy_done.1 h
    exact ⟨rfl, rfl⟩

theorem audited_alike {α : Type} (p p' : Prop) [Decidable p] [Decidable p'] (a : α) :
    AlikeE (SameButHidden userId hidden) (· = ·) (if p then OAuth.recordAudit >>= fun _ => pure a else pure a)
      (if p' then OAuth.recordAudit >>= fun _ => pure a else pure a) :=
  AlikeE.of_idle rfl (audited_idle p a) (audited_idle p' a)

theorem list_alike :
    AlikeE (SameButHidden userId hidden) (· = ·) (listPermissionGroupsForUser userId) (listPermissionGroupsForUser userId) :=
  .select fun _ _ h => h.summaries_eq

theorem request_alike (groupId : String) :
    AlikeE (SameButHidden userId hidden) (· = ·) (requestPermissionGroupMembership userId groupId)
      (requestPermissionGroupMembership userId groupId) := by
  refine AlikeE.bind (AlikeE.select fun _ _ h => h.target_eq groupId) ?_
  rintro target _ rfl
  cases target with
  | none => exact .pure rfl
  | some target =>
    dsimp only
    split
    · exact .pure rfl
    split
    · exact .pure rfl
    split
    · exact .pure rfl
    refine AlikeE.bind (AlikeE.d1 fun db db' h => ⟨h.requested_eq ?_, h.insertRequests _⟩) ?_
    · intro g hg
      simp only [Bool.and_eq_true] at hg
      exact hg.1.2
    · rintro inserted _ rfl
      exact .pure rfl

/-- The answers may differ, the databases do not show it. -/
theorem requestHidden_alike (groupName : String) :
    AlikeE (SameButHidden userId hidden) (fun _ _ => True) (requestHiddenPermissionGroupMembership userId groupName)
      (requestHiddenPermissionGroupMembership userId groupName) :=
  AlikeE.bind (S := fun _ _ => True) (AlikeE.d1 fun _ _ h => ⟨trivial, h.insertRequests _⟩) fun _ _ _ => .pure trivial

theorem requestGroup_alike (form : GroupRequestForm) :
    AlikeE (SameButHidden userId hidden) (· = ·) (requestGroup userId form) (requestGroup userId form) := by
  unfold requestGroup
  cases form.groupName with
  | none =>
    refine AlikeE.bind (request_alike userId hidden form.groupId) ?_
    rintro result _ rfl
    exact audited_alike userId hidden _ _ _
  | some groupName =>
    refine AlikeE.bind (S := (· = ·)) (AlikeE.select fun _ _ h => ?_) ?_
    · rw [h.public_eq fun g => g.name = groupName]
    rintro publicGroupId _ rfl
    cases publicGroupId with
    | some publicGroupId =>
      refine AlikeE.bind (request_alike userId hidden publicGroupId) ?_
      rintro result _ rfl
      exact audited_alike userId hidden _ _ _
    | none =>
      refine AlikeE.bind (requestHidden_alike userId hidden groupName) fun a b _ => ?_
      exact audited_alike userId hidden _ _ _

theorem operation_alike (op : GroupOperation) :
    AlikeE (SameButHidden userId hidden) (· = ·) (op.program userId) (op.program userId) := by
  cases op with
  | list => exact (list_alike userId hidden).map fun a b h => congrArg GroupAnswer.groups h
  | request form => exact (requestGroup_alike userId hidden form).map fun a b h => congrArg GroupAnswer.redirect h

end

/-- What the user is answered by its operations, one after another, when no storage call fails. -/
def Answered (userId : String) (w : World) (ops : List GroupOperation) (answers : List GroupAnswer) : Prop :=
  Session Calm (fun op : GroupOperation => (op.program userId).run) w ops (answers.map .ok)

theorem calm_still : Calm ⟨0, false, false, fun _ => false⟩ := rfl

theorem SameButHidden.refl (userId : String) (db : Database) : SameButHidden userId (fun _ => false) db db :=
  ⟨⟨fun _ _ h => absurd h Bool.false_ne_true, fun _ _ h => absurd h Bool.false_ne_true⟩,
    ⟨fun _ _ h => absurd h Bool.false_ne_true, fun _ _ h => absurd h Bool.false_ne_true⟩, rfl, rfl, rfl⟩

/-- Every list of operations is answered. -/
theorem exists_answered (userId : String) (ops : List GroupOperation) (w : World) : ∃ answers, Answered userId w ops answers := by
  have hok : ∀ op w r w', RunsBy Calm (GroupOperation.program userId op).run w r w' → ∃ a, r = .ok a := by
    intro op w r w' hrun
    obtain ⟨⟨a, -, ha, -⟩, -⟩ := operation_alike userId _ op w w r r w' w' (.refl userId w.db) hrun hrun
    exact ⟨a, ha⟩
  obtain ⟨rs, hrs, hall⟩ := exists_session calm_still hok ops w
  obtain ⟨answers, rfl⟩ : ∃ answers : List GroupAnswer, rs = answers.map .ok := by
    clear hrs
    induction rs with
    | nil => exact ⟨[], rfl⟩
    | cons r rs ih =>
      obtain ⟨hr, hrest⟩ := List.forall_mem_cons.1 hall
      obtain ⟨a, rfl⟩ := hr
      obtain ⟨as, rfl⟩ := ih hrest
      exact ⟨a :: as, rfl⟩
  exact ⟨answers, hrs⟩

/-- From databases that differ in groups hidden from the user only, any sequence of the user's
operations on groups gets the same answers. -/
theorem hidden_groups_invisible {userId : String} {hidden : String → Bool} {w w' : World}
    (h : SameButHidden userId hidden w.db w'.db) (ops : List GroupOperation) :
    ∃ answers, ∀ given, (Answered userId w ops given ↔ given = answers) ∧ (Answered userId w' ops given ↔ given = answers) := by
  have hcode : ∀ op : GroupOperation, Alike Calm (fun w w' => SameButHidden userId hidden w.db w'.db) (· = ·)
      (op.program userId).run (op.program userId).run := by
    refine fun op => (operation_alike userId hidden op).imp ?_
    rintro _ _ ⟨x, y, rfl, rfl, rfl⟩
    rfl
  have hself : ∀ op : GroupOperation, Alike Calm (fun w w' => SameButHidden userId (fun _ => false) w.db w'.db) (· = ·)
      (op.program userId).run (op.program userId).run := by
    refine fun op => (operation_alike userId _ op).imp ?_
    rintro _ _ ⟨x, y, rfl, rfl, rfl⟩
    rfl
  have hinj : ∀ {as bs : List GroupAnswer}, as.map (Except.ok (ε := Failure)) = bs.map .ok → as = bs := fun hab =>
    List.map_injective_iff.2 (fun _ _ hxy => Except.ok.inj hxy) hab
  obtain ⟨answers, hanswers⟩ := exists_answered userId ops w
  obtain ⟨answers', hanswers'⟩ := exists_answered userId ops w'
  obtain rfl : answers = answers' := hinj (hanswers.eq_of_alike hcode h hanswers')
  refine ⟨answers, fun given => ⟨⟨fun hg => ?_, ?_⟩, ⟨fun hg => ?_, ?_⟩⟩⟩
  · exact hinj (hg.eq_of_alike hself (.refl userId w.db) hanswers)
  · rintro rfl
    exact hanswers
  · exact hinj (hg.eq_of_alike hself (.refl userId w'.db) hanswers')
  · rintro rfl
    exact hanswers'

def staffGroup : GroupRow := { id := "g1", name := "staff", description := none, isPublic := true, priority := 0 }

def boardGroup : GroupRow := { id := "g2", name := "board", description := none, isPublic := false, priority := 0 }

/-- A public group. -/
def staffWorld : World :=
  { Deployment.world with db := { Deployment.database with groups := ⟨[staffGroup], by decide⟩, userGroups := ∅ } }

/-- A public group, and a hidden one with a member. -/
def boardWorld : World :=
  { Deployment.world with
    db := { Deployment.database with
      groups := ⟨[staffGroup, boardGroup], by decide⟩
      userGroups := ⟨[{ userId := "u2", groupId := "g2", createdAt := 0 }], by decide⟩ } }

/-- A user asks for the hidden group by name, lists the groups, and asks for it by its id. -/
theorem hidden_groups_invisible_board : ∃ answers, ∀ given,
    (Answered "u1" boardWorld [.request ⟨some "board", ""⟩, .list, .request ⟨none, "g2"⟩] given ↔ given = answers) ∧
    (Answered "u1" staffWorld [.request ⟨some "board", ""⟩, .list, .request ⟨none, "g2"⟩] given ↔ given = answers) := by
  have hboard : Conceals "u1" (· = "g2") boardWorld.db := ⟨by decide, by decide⟩
  have hstaff : Conceals "u1" (· = "g2") staffWorld.db := ⟨by decide, by decide⟩
  exact hidden_groups_invisible ⟨hboard, hstaff, rfl, rfl, rfl⟩ _

end Keyforge.Account
