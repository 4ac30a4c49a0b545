/-
What a signed-in user sees of the groups, how it asks to join one, and how a request ends unanswered
(`db/queries/group-memberships.ts`). The user exists, so the foreign key of a request holds.
-/
import Keyforge.Db.Administration

namespace Keyforge.Db

open Lib

/-! ## Listing -/

inductive MembershipState where
  | member
  | pending
  | available
  deriving DecidableEq, Repr

/-- The place of a state in the listing. -/
def MembershipState.rank : MembershipState → Nat
  | .member => 0
  | .pending => 1
  | .available => 2

structure PermissionGroupMembershipSummary where
  id : String
  name : String
  description : Option String
  memberCount : Nat
  state : MembershipState
  deriving DecidableEq, Repr

/-- `EXISTS (SELECT 1 FROM user_groups …)`. -/
def inGroup (userId groupId : String) (db : Database) : Bool :=
  db.userGroups.has fun m => m.userId = userId && m.groupId = groupId

/-- `EXISTS (SELECT 1 FROM group_membership_requests …)`. -/
def hasRequested (userId groupId : String) (db : Database) : Bool :=
  db.groupMembershipRequests.has fun r => r.userId = userId && r.groupId = groupId

def membershipState (userId groupId : String) (db : Database) : MembershipState :=
  if inGroup userId groupId db then .member
  else if hasRequested userId groupId db then .pending
  else .available

def membershipSummary (userId : String) (db : Database) (g : GroupRow) : PermissionGroupMembershipSummary :=
  { id := g.id, name := g.name, description := g.description,
    memberCount := (db.userGroups.select (·.groupId = g.id)).length, state := membershipState userId g.id db }

/-- The groups a user sees: the public ones but `admins`, and its own. -/
def isListed (userId : String) (db : Database) (g : GroupRow) : Bool :=
  (g.isPublic && g.name ≠ "admins") || inGroup userId g.id db

def summaryOrder (a b : PermissionGroupMembershipSummary) : Prop :=
  a.state.rank < b.state.rank ∨ (a.state.rank = b.state.rank ∧ a.name ≤ b.name)

instance : DecidableRel summaryOrder := fun _ _ => inferInstanceAs (Decidable (_ ∨ _))

def groupSummaries (userId : String) (db : Database) : List PermissionGroupMembershipSummary :=
  ((db.groups.select (isListed userId db)).map (membershipSummary userId db)).insertionSort summaryOrder

def listPermissionGroupsForUser (userId : String) : App (List PermissionGroupMembershipSummary) :=
  select (groupSummaries userId)

/-! ## Requesting -/

/-- `INSERT OR IGNORE INTO group_membership_requests … SELECT … FROM groups g WHERE … RETURNING group_id`
for the groups that `matching` selects and the user is not a member of. -/
def insertRequests (userId : String) (matching : GroupRow → Bool) (db : Database) : List String × Database :=
  let groupIds := (db.groups.select fun g => matching g && !inGroup userId g.id db).map (·.id)
  (groupIds.filter fun groupId => !hasRequested userId groupId db, { db with
    groupMembershipRequests := groupIds.foldl (fun t groupId => t.insert { userId, groupId }) db.groupMembershipRequests })

inductive MembershipRequestResult where
  | requested
  | alreadyMember
  | alreadyPending
  | notFound
  | protectedGroup
  deriving DecidableEq, Repr

structure RequestTarget where
  name : String
  isMember : Bool
  isPending : Bool
  deriving DecidableEq, Repr

/-- The public group with this id, as the user stands to it. -/
def requestTarget (userId groupId : String) (db : Database) : Option RequestTarget :=
  ((db.groups.select fun g => g.id = groupId && g.isPublic).head?).map fun g =>
    { name := g.name, isMember := inGroup userId g.id db, isPending := hasRequested userId g.id db }

def requestPermissionGroupMembership (userId groupId : String) : App MembershipRequestResult := do
  match ← select (requestTarget userId groupId) with
  | none => pure .notFound
  | some target =>
    if isProtectedGroupName target.name then pure .protectedGroup
    else if target.isMember then pure .alreadyMember
    else if target.isPending then pure .alreadyPending
    else
      let inserted ← d1 (insertRequests userId fun g => g.id = groupId && g.isPublic && !isProtectedGroupName g.name)
      pure (if inserted.length = 1 then .requested else .notFound)

def findPublicPermissionGroupIdByExactName (exactGroupName : String) : App (Option String) :=
  select fun db => ((db.groups.select fun g => g.name = exactGroupName && g.isPublic).head?).map (·.id)

/-- Request a hidden group without revealing whether an exact name existed or a row was inserted.
Callers must return the same response for every result. -/
def requestHiddenPermissionGroupMembership (userId exactGroupName : String) : App (Option String) := do
  let inserted ← d1 (insertRequests userId fun g =>
    g.name = exactGroupName && !g.isPublic && !isProtectedGroupName g.name)
  pure inserted.head?

/-! ## Withdrawing and rejecting -/

/-- `DELETE FROM group_membership_requests WHERE user_id = ? AND group_id = ?`, with whether a row went. -/
def dropMembershipRequest (userId groupId : String) (db : Database) : Bool × Database :=
  ((db.groupMembershipRequests.get? (userId, groupId)).isSome, { db with
    groupMembershipRequests := db.groupMembershipRequests.delete fun r => r.userId = userId ∧ r.groupId = groupId })

def cancelPermissionGroupMembershipRequest (userId groupId : String) : App Bool :=
  d1 (dropMembershipRequest userId groupId)

def rejectPermissionGroupMembershipRequest (groupId userId : String) : App Bool :=
  d1 (dropMembershipRequest userId groupId)

end Keyforge.Db
