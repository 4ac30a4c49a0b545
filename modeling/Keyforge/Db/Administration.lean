/-
Accounts and groups as administrators create and delete them (`db/queries/users.ts`,
`group-memberships.ts`). Every removal is one statement with its own guard that an active
administrator remains; what refers to a deleted row goes with it or is set to null.
-/
import Keyforge.Db.Users
import Keyforge.Lib.Text

namespace Keyforge.Db

open Lib Auth
open OAuth (utf16Length)

/-! ## Creating a user -/

def MAX_ALIAS_LENGTH : Nat := 64

/-- `ALIAS_PATTERN.test`. -/
def matchesAliasPattern (s : String) : Bool :=
  !s.toList.isEmpty && s.toList.all fun c => isAlphanumeric c || c = '_' || c = '-'

def generatedAlias (email id : String) : String :=
  let chars := ((email.toList.takeWhile (· ≠ '@')).filter isAlphanumeric).take 48
  let localPart := if chars.isEmpty then "user".toList else chars
  let suffix := id.toList.filter isAlphanumeric
  String.ofList ((localPart ++ suffix.drop (suffix.length - 10)).take MAX_ALIAS_LENGTH)

/-- `email` is in lower case. -/
structure CreateUserInput where
  email : String
  loginAlias : Option String
  name : Option String
  emailVerified : Option Bool
  deriving DecidableEq, Repr

def createdUser (now : Nat) (id loginAlias : String) (input : CreateUserInput) : UserRow :=
  { id, email := input.email, loginAlias, emailVerified := input.emailVerified.getD false, name := input.name,
    disabled := false, securityVersion := 0, updatedAt := now }

/-- The insert, with the trigger that makes every user a member of `all`. A taken id, address or alias
aborts it. -/
def insertUser (now : Nat) (u : UserRow) (db : Database) : Bool × Database :=
  if db.users.has fun other => other.id = u.id || other.email = u.email || other.loginAlias.toLower = u.loginAlias.toLower
  then (false, db)
  else (true, joinGroups now u.id ((db.groups.select (·.name = "all")).map (·.id)) { db with users := db.users.insert u })

/-- `failed` is what the history records of an insert that fails. -/
def createUser (failed : List Event) (id : String) (input : CreateUserInput) : App UserRow := do
  let given := trim (input.loginAlias.getD "")
  let loginAlias := if given = "" then generatedAlias input.email id else given
  require (matchesAliasPattern loginAlias && utf16Length loginAlias ≤ MAX_ALIAS_LENGTH)
    (.error "alias must contain only English letters, numbers, hyphens, and underscores")
  let now ← clock
  let user := createdUser now id loginAlias input
  let inserted ← ioLogged failed fun w => ((insertUser now user w.db).1, { w with db := (insertUser now user w.db).2 })
  require inserted .storage
  pure user

def getUserByAlias (loginAlias : String) : App (Option UserRow) :=
  select fun db => db.users.rows.find? (·.loginAlias.toLower = loginAlias.toLower)

/-! ## Deleting a user -/

/-- Delete a user with all rows that cascade; devices lose their user. -/
def withoutUser (id : String) (db : Database) : Database :=
  let db := deleteSessions ((db.sessions.select (·.userId = id)).map (·.id)) db
  { db with
    users := db.users.delete (·.id = id)
    userGroups := db.userGroups.delete (·.userId = id)
    groupMembershipRequests := db.groupMembershipRequests.delete (·.userId = id)
    passwordCredentials := db.passwordCredentials.delete (·.userId = id)
    webauthnCredentials := db.webauthnCredentials.delete (·.userId = id)
    consents := db.consents.delete (·.userId = id)
    refreshTokens := db.refreshTokens.delete (·.userId = id)
    grants := db.grants.delete (·.userId = id)
    devices := db.devices.update (·.userId = some id) (fun d => { d with userId := none }) fun _ => rfl
    emailVerifications := db.emailVerifications.delete (·.userId = id)
    passwordResetTokens := db.passwordResetTokens.delete (·.userId = id) }

/-- `DELETE FROM users WHERE id = ? AND guard`. -/
def deleteUserIf (guard : Database → UserRow → Bool) (id : String) (db : Database) : Bool × Database :=
  if (db.users.get? id).any (guard db) then (true, withoutUser id db) else (false, db)

/-- `committed` is what the history records of the deletion, `failed` what it records if it fails. -/
def deleteUser (committed failed : List Event) (id : String) : App Bool :=
  ioLogged failed fun w =>
    let deleted := deleteUserIf (fun _ _ => true) id w.db
    (deleted.1, { w with db := deleted.2, log := committed ++ w.log })

/-- The user may go: it is disabled, no administrator, or not the only active one. -/
def removable (db : Database) (u : UserRow) : Bool :=
  u.disabled || !isAdmin u.id db || anotherActiveAdmin u.id db

/-- Atomically delete unless this is the last active administrator. -/
def deleteUserPreservingActiveAdmin (id : String) : App Bool :=
  d1 (deleteUserIf removable id)

/-! ## Groups -/

def isProtectedGroupName (name : String) : Bool :=
  name = "admins" || name = "all"

structure GroupSummary extends GroupRow where
  memberCount : Nat
  deriving DecidableEq, Repr

def listGroups : App (List GroupSummary) :=
  select fun db =>
    (db.groups.rows.insertionSort fun a b => a.priority < b.priority || (a.priority = b.priority && a.name ≤ b.name)).map
      fun g => { g with memberCount := (db.userGroups.select (·.groupId = g.id)).length }

/-- `INSERT INTO groups`; a taken id or canonical name aborts it. -/
def insertGroup (g : GroupRow) (db : Database) : Bool × Database :=
  if db.groups.has fun other => other.id = g.id || other.name.toLower = g.name.toLower then (false, db)
  else (true, { db with groups := db.groups.insert g })

def createGroup (env : Env) (id name : String) (description : Option String) (isPublic : Bool) (priority : Nat) :
    App GroupSummary := do
  let group : GroupRow := { id, name := env.trimLowerCase name, description, isPublic, priority }
  let inserted ← d1 (insertGroup group)
  require inserted .storage
  pure { group with memberCount := 0 }

inductive GroupMutationResult where
  | updated
  | deleted
  | notFound
  | conflict
  | protectedGroup
  deriving DecidableEq, Repr

/-- No other group has the name. -/
def renameGuard (id normalized : String) (db : Database) (g : GroupRow) : Bool :=
  g.id = id && !db.groups.has fun other => other.name = normalized && other.id ≠ id

def editedGroup (normalized : String) (description : Option String) (isPublic : Bool) (priority : Nat) (g : GroupRow) :
    GroupRow :=
  { g with name := normalized, description, isPublic, priority }

theorem editedGroup_id (normalized : String) (description : Option String) (isPublic : Bool) (priority : Nat)
    (g : GroupRow) : (editedGroup normalized description isPublic priority g).id = g.id := rfl

def renameGroup (id normalized : String) (description : Option String) (isPublic : Bool) (priority : Nat) (db : Database) :
    Bool × Database :=
  ((db.groups.get? id).any (renameGuard id normalized db), { db with
    groups := db.groups.update (renameGuard id normalized db) (editedGroup normalized description isPublic priority)
      (editedGroup_id normalized description isPublic priority) })

def updateGroup (env : Env) (id name : String) (description : Option String) (isPublic : Option Bool)
    (priority : Option Nat) : App GroupMutationResult := do
  let normalized := env.trimLowerCase name
  match (← listGroups).find? (·.id = id) with
  | none => pure .notFound
  | some current =>
    if isProtectedGroupName current.name && normalized ≠ current.name then pure .protectedGroup
    else
      let changed ← d1 (renameGroup id normalized description (isPublic.getD current.isPublic)
        (priority.getD current.priority))
      pure (if changed then .updated else .conflict)

/-- The deletion of a group that is not protected, with the rows that cascade. -/
def deleteGroupStatement (id : String) (db : Database) : Bool × Database :=
  if (db.groups.get? id).any (!isProtectedGroupName ·.name) then
    (true, { db with
      groups := db.groups.delete (·.id = id)
      userGroups := db.userGroups.delete (·.groupId = id)
      groupMembershipRequests := db.groupMembershipRequests.delete (·.groupId = id)
      permissionGroupRules := db.permissionGroupRules.delete (·.groupId = id) })
  else (false, db)

def deleteGroup (id : String) : App GroupMutationResult := do
  match (← listGroups).find? (·.id = id) with
  | none => pure .notFound
  | some current =>
    if isProtectedGroupName current.name then pure .protectedGroup
    else
      let deleted ← d1 (deleteGroupStatement id)
      pure (if deleted then .deleted else .notFound)

/-! ## Leaving a group -/

inductive RemoveGroupMemberResult where
  | removed
  | notMember
  | lastAdmin
  | protectedGroup
  deriving DecidableEq, Repr

/-- The membership may go: its group is not `admins`, its user is disabled, or another active
administrator exists. -/
def leaveGuard (groupId userId : String) (db : Database) (m : UserGroupRow) : Bool :=
  m.userId = userId && m.groupId = groupId &&
    (!(db.groups.get? m.groupId).any (·.name = "admins") || (db.users.get? m.userId).any (·.disabled) ||
      anotherActiveAdmin m.userId db)

def leaveGroup (groupId userId : String) (db : Database) : Bool × Database :=
  (db.userGroups.has (leaveGuard groupId userId db),
    { db with userGroups := db.userGroups.delete (leaveGuard groupId userId db) })

def removeUserFromPermissionGroup (groupId userId : String) : App RemoveGroupMemberResult := do
  let target ← select fun db => (db.groups.get? groupId).map (·.name)
  if target = some "all" then pure .protectedGroup
  else
    let removed ← d1 (leaveGroup groupId userId)
    if removed then pure .removed
    else
      let membership ← select fun db => db.userGroups.get? (userId, groupId)
      pure (if membership.isNone then .notMember else .lastAdmin)

end Keyforge.Db
