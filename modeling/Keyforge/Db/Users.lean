/-
Accounts and their groups (`db/queries/users.ts`, `admin-promotion.ts`, `group-memberships.ts`): the
lookups, and the security transitions. A transition is one D1 batch that moves the user's security
version and, in statements that ask whether it did, revokes the user's sessions and refresh families;
the family objects hear of it afterwards.
-/
import Keyforge.Auth.Password
import Keyforge.Db.Queries

namespace Keyforge.Db

open Lib Auth Tokens

/-! ## Lookup -/

/-- The caller passes the address in lower case. -/
def getUserByEmail (email : String) : App (Option UserRow) :=
  select fun db => db.users.rows.find? (·.email = email)

/-- Resolve the identifier accepted by the login form: `normalized` is it trimmed and in lower case. -/
def getUserByLogin (normalized : String) : App (Option UserRow) :=
  select fun db => db.users.rows.find? fun u => u.email = normalized || u.loginAlias.toLower = normalized

def getUserSecurityVersion (id : String) : App (Option Nat) :=
  select fun db => (db.users.get? id).map (·.securityVersion)

/-! ## Updating a user -/

/-- An absent field keeps its column; `name` can also be cleared. -/
structure UserPatch where
  name : Option (Option String)
  disabled : Option Bool
  emailVerified : Option Bool
  deriving DecidableEq, Repr

def UserPatch.next (patch : UserPatch) (current : UserRow) : UserRow :=
  { current with
    name := patch.name.getD current.name
    disabled := patch.disabled.getD current.disabled
    emailVerified := patch.emailVerified.getD current.emailVerified }

/-- Whether an enabled member of `admins` other than the user exists. -/
def anotherActiveAdmin (userId : String) (db : Database) : Bool :=
  db.userGroups.has fun m => (db.groups.get? m.groupId).any (·.name = "admins") &&
    (db.users.get? m.userId).any fun u => !u.disabled && u.id ≠ userId

/-- The row is still the one read, and no sole administrator is disabled. -/
def updateGuard (current next : UserRow) (db : Database) (u : UserRow) : Bool :=
  u.id = current.id && u.disabled = current.disabled && u.securityVersion = current.securityVersion &&
    (!next.disabled || u.disabled || !isAdmin u.id db || anotherActiveAdmin u.id db)

def updatedUser (now : Nat) (current next u : UserRow) : UserRow :=
  { u with
    name := next.name
    securityVersion := u.securityVersion + if current.disabled ≠ next.disabled then 1 else 0
    disabled := next.disabled
    emailVerified := next.emailVerified
    updatedAt := now }

theorem updatedUser_id (now : Nat) (current next u : UserRow) : (updatedUser now current next u).id = u.id := rfl

def updateUserStatement (now : Nat) (current next : UserRow) (db : Database) : Database :=
  { db with
    users := db.users.update (updateGuard current next db) (updatedUser now current next)
      (updatedUser_id now current next) }

/-- What the revocations of the batch ask. -/
def updateInPlace (now : Nat) (current next : UserRow) (db : Database) : Bool :=
  current.disabled ≠ next.disabled && (db.users.get? current.id).any fun u =>
    u.disabled = next.disabled && u.securityVersion = current.securityVersion + 1 && u.updatedAt = now

def updateUserBatch (now : Nat) (current next : UserRow) (db : Database) : (Option UserRow × List String) × Database :=
  let db' := updateUserStatement now current next db
  let revoked := revokeAccessIf (updateInPlace now current next db') now current.id db'
  let row := if (db.users.get? current.id).any (updateGuard current next db) then db'.users.get? current.id else none
  ((row, revoked.1), revoked.2)

def updateUserEvents (now : Nat) (current next : UserRow) (db : Database) : List Event :=
  accessEvents (updateInPlace now current next (updateUserStatement now current next db)) current.id

def updateUser (id : String) (patch : UserPatch) : App (Option UserRow) := do
  match ← getUserById id with
  | none => pure none
  | some current =>
    let next := patch.next current
    let now ← clock
    let (row, refreshFamilyIds) ← d1Logged (updateUserEvents now current next) (updateUserBatch now current next)
    revokeRefreshFamilyDurableObjects refreshFamilyIds
    pure row

/-! ## Changing the email -/

inductive UpdateUserEmailResult where
  | updated
  | notFound
  | conflict
  deriving DecidableEq, Repr

/-- What an email change binds; `email` is normalized. -/
structure EmailChange where
  id : String
  email : String
  expectedSecurityVersion : Nat
  deriving DecidableEq, Repr

/-- The user is enabled at the expected version, and no other user has the address. -/
def emailGuard (change : EmailChange) (db : Database) (u : UserRow) : Bool :=
  u.id = change.id && atVersion change.expectedSecurityVersion u &&
    !db.users.has fun other => other.email = change.email && other.id ≠ change.id

def emailEffective (change : EmailChange) (db : Database) : Bool :=
  (db.users.get? change.id).any (emailGuard change db)

def changedEmail (now : Nat) (change : EmailChange) (u : UserRow) : UserRow :=
  { bump now u with email := change.email, emailVerified := true }

theorem changedEmail_id (now : Nat) (change : EmailChange) (u : UserRow) : (changedEmail now change u).id = u.id := rfl

def emailStatement (now : Nat) (change : EmailChange) (db : Database) : Database :=
  { db with users := db.users.update (emailGuard change db) (changedEmail now change) (changedEmail_id now change) }

/-- What the revocations of the batch ask. -/
def emailInPlace (now : Nat) (change : EmailChange) (db : Database) : Bool :=
  (db.users.get? change.id).any fun u =>
    u.email = change.email && u.securityVersion = change.expectedSecurityVersion + 1 && u.updatedAt = now

def emailBatch (now : Nat) (change : EmailChange) (db : Database) : (Bool × List String) × Database :=
  let db' := emailStatement now change db
  let revoked := revokeAccessIf (emailInPlace now change db') now change.id db'
  ((emailEffective change db, revoked.1), revoked.2)

/-- What the history records of the batch; `mark` is recorded if it takes effect. -/
def emailEvents (mark : List Event) (now : Nat) (change : EmailChange) (db : Database) : List Event :=
  (if emailEffective change db then mark else []) ++
    accessEvents (emailInPlace now change (emailStatement now change db)) change.id

/-- Atomically change a login email only when no other account owns it. -/
def updateUserEmail (env : Env) (mark : List Event) (id newEmail : String) (expectedSecurityVersion : Nat) :
    App UpdateUserEmailResult := do
  let change : EmailChange := { id, email := env.trimLowerCase newEmail, expectedSecurityVersion }
  let now ← clock
  let (effective, refreshFamilyIds) ← d1Logged (emailEvents mark now change) (emailBatch now change)
  revokeRefreshFamilyDurableObjects refreshFamilyIds
  if effective then pure .updated
  else
    let conflicting ← getUserByEmail change.email
    pure (if conflicting.any (·.id ≠ id) then .conflict else .notFound)

/-! ## Groups -/

def MAX_USER_GROUPS : Nat := 100

/-- `INSERT OR IGNORE INTO user_groups` for each group, with the trigger that clears the requests a
new membership answers. -/
def joinGroups (now : Nat) (userId : String) (groupIds : List String) (db : Database) : Database :=
  { db with
    userGroups := groupIds.foldl (fun t groupId => t.insert { userId, groupId, createdAt := now }) db.userGroups
    groupMembershipRequests := db.groupMembershipRequests.delete fun r =>
      r.userId = userId && groupIds.contains r.groupId && (db.userGroups.get? (userId, r.groupId)).isNone }

/-- Leave every group that is not desired, except `all`. -/
def leaveGroups (userId : String) (desired : List String) (db : Database) : Database :=
  { db with
    userGroups := db.userGroups.delete fun m =>
      m.userId = userId && !desired.contains m.groupId && !(db.groups.get? m.groupId).any (·.name = "all") }

/-- The foreign keys of the memberships; a violation aborts the batch. -/
def joinable (userId : String) (groupIds : List String) (db : Database) : Bool :=
  groupIds.isEmpty || ((db.users.get? userId).isSome && groupIds.all fun g => (db.groups.get? g).isSome)

/-- Whether a membership in `admins` carries the time of the batch. -/
def promoted (now : Nat) (userId : String) (db : Database) : Bool :=
  db.userGroups.has fun m =>
    m.userId = userId && (db.groups.get? m.groupId).any (·.name = "admins") && m.createdAt = now

/-- `adminPromotionRevocationStatements`, run at the end of a batch that writes memberships. -/
def adminPromotionRevocation (now : Nat) (userId : String) (db : Database) : List String × Database :=
  let effective := promoted now userId db
  revokeAccessIf effective now userId
    { db with users := db.users.update (fun u => u.id = userId && effective) (bump now) (bump_id now) }

/-- A batch that writes memberships and then revokes on promotion, unless it is aborted. -/
def membershipBatch (valid : Bool) (memberships : Database → Database) (now : Nat) (userId : String) (db : Database) :
    (Bool × List String) × Database :=
  if valid then
    let revoked := adminPromotionRevocation now userId (memberships db)
    ((true, revoked.1), revoked.2)
  else ((false, []), db)

def membershipEvents (valid : Bool) (memberships : Database → Database) (now : Nat) (userId : String) (db : Database) :
    List Event :=
  accessEvents (valid && promoted now userId (memberships db)) userId

def tooManyGroups : Failure :=
  .error ("a user may belong to at most " ++ toString MAX_USER_GROUPS ++ " groups")

/-- `mark` is what the history records of the batch besides. -/
def setUserGroupsMarked (mark : Database → List Event) (userId : String) (groupIds : List String) : App Unit := do
  let now ← clock
  let unique := groupIds.eraseDups
  require (unique.length ≤ MAX_USER_GROUPS) tooManyGroups
  let write := fun db => joinGroups now userId unique (leaveGroups userId unique db)
  let (valid, familyIds) ← d1Logged (fun db => mark db ++ membershipEvents (joinable userId unique db) write now userId db)
    fun db => membershipBatch (joinable userId unique db) write now userId db
  require valid .storage
  revokeRefreshFamilyDurableObjects familyIds

def setUserGroups (userId : String) (groupIds : List String) : App Unit :=
  setUserGroupsMarked (fun _ => []) userId groupIds

/-- The user stays an administrator, or is not the only active one. -/
def replacementIsSafe (userId : String) (desired : List String) (db : Database) : Bool :=
  (desired.any fun g => (db.groups.get? g).any (·.name = "admins")) ||
    !(isAdmin userId db && (db.users.get? userId).any (!·.disabled) && !anotherActiveAdmin userId db)

/-- The two membership statements; each asks again whether the replacement is safe. -/
def replaceGroups (now : Nat) (userId : String) (desired : List String) (db : Database) : Database :=
  let db := if replacementIsSafe userId desired db then joinGroups now userId desired db else db
  if replacementIsSafe userId desired db then leaveGroups userId desired db else db

/-- The caller does not use the order. -/
def getUserGroupIds (userId : String) : App (List String) :=
  select fun db => (db.userGroups.select (·.userId = userId)).map (·.groupId)

def getGroupByName (name : String) : App (Option GroupRow) :=
  select fun db => db.groups.rows.find? (·.name = name)

/-- Replace memberships while atomically preserving one active administrator. -/
def setUserGroupsPreservingActiveAdmin (userId : String) (groupIds : List String) : App Bool := do
  let now ← clock
  let unique := groupIds.eraseDups
  require (unique.length ≤ MAX_USER_GROUPS) tooManyGroups
  let valid := fun db => !replacementIsSafe userId unique db || joinable userId unique db
  let (valid, familyIds) ←
    d1Logged (fun db => membershipEvents (valid db) (replaceGroups now userId unique) now userId db)
      fun db => membershipBatch (valid db) (replaceGroups now userId unique) now userId db
  require valid .storage
  revokeRefreshFamilyDurableObjects familyIds
  let (actual, universalGroup) ← all 0 (getUserGroupIds userId) (getGroupByName "all")
  let expected := (unique ++ (universalGroup.map (·.id)).toList).eraseDups
  pure (actual.length = expected.length && actual.all expected.contains)

inductive AddGroupMemberResult where
  | added
  | alreadyMember
  | notFound
  | limit
  | noRequest
  deriving DecidableEq, Repr

/-- How many groups other than `all` the user is in. -/
def groupCount (userId : String) (db : Database) : Nat :=
  (db.userGroups.select fun m => m.userId = userId && (db.groups.get? m.groupId).any (·.name ≠ "all")).length

def addGuard (groupId userId : String) (requireRequest : Bool) (db : Database) : Bool :=
  (db.users.get? userId).isSome && (db.groups.get? groupId).isSome &&
    (!requireRequest || (db.groupMembershipRequests.get? (userId, groupId)).isSome) &&
    groupCount userId db < MAX_USER_GROUPS

def addMembership (now : Nat) (groupId userId : String) (requireRequest : Bool) (db : Database) : Database :=
  if addGuard groupId userId requireRequest db then joinGroups now userId [groupId] db else db

def deleteMembershipRequest (userId groupId : String) : App Unit :=
  d1 fun db => ((), { db with
    groupMembershipRequests := db.groupMembershipRequests.delete fun r => r.userId = userId ∧ r.groupId = groupId })

/-- What the last read of `addGroupMember` finds. -/
structure AddState where
  userExists : Bool
  groupExists : Bool
  isMember : Bool
  hasRequest : Bool
  groupCount : Nat

def addState (groupId userId : String) : App AddState :=
  select fun db =>
    { userExists := (db.users.get? userId).isSome, groupExists := (db.groups.get? groupId).isSome,
      isMember := (db.userGroups.get? (userId, groupId)).isSome,
      hasRequest := (db.groupMembershipRequests.get? (userId, groupId)).isSome, groupCount := groupCount userId db }

def addGroupMember (groupId userId : String) (requireRequest : Bool) : App AddGroupMemberResult := do
  let now ← clock
  let (inserted, familyIds) ← d1Logged (membershipEvents true (addMembership now groupId userId requireRequest) now userId)
    fun db =>
      let r := membershipBatch true (addMembership now groupId userId requireRequest) now userId db
      ((addGuard groupId userId requireRequest db && (db.userGroups.get? (userId, groupId)).isNone, r.1.2), r.2)
  revokeRefreshFamilyDurableObjects familyIds
  if inserted then
    deleteMembershipRequest userId groupId
    pure .added
  else
    let state ← addState groupId userId
    if !state.userExists || !state.groupExists then pure .notFound
    else if requireRequest && !state.hasRequest then pure .noRequest
    else if state.isMember then
      deleteMembershipRequest userId groupId
      pure .alreadyMember
    else pure (if state.groupCount ≥ MAX_USER_GROUPS then .limit else .notFound)

def addUserToPermissionGroup (groupId userId : String) : App AddGroupMemberResult :=
  addGroupMember groupId userId false

def approvePermissionGroupMembershipRequest (groupId userId : String) : App AddGroupMemberResult :=
  addGroupMember groupId userId true

end Keyforge.Db
