/-
Accounts created by an administrator (`admin/user-management.ts`). The account is committed before its
groups, its password or invitation and the mail; a failure among these deletes it again. Random ids,
salts and tokens are arguments, and the mail's template is left out.
-/
import Keyforge.Auth.AccountTokens
import Keyforge.Db.Administration

namespace Keyforge.Admin

open Lib Db Auth

structure ManagedUserInput where
  email : String
  loginAlias : String
  name : Option String
  emailVerified : Bool
  password : Option String
  groupIds : List String
  deriving DecidableEq, Repr

inductive ManagedUserResult where
  | created (user : UserRow) (groups : List String) (invitationSent : Bool)
  | duplicateEmail
  | duplicateAlias
  | invalidGroups
  | invalidPassword
  deriving DecidableEq, Repr

/-- What one call draws at random. -/
structure ManagedUserDraws where
  userId : String
  credentialId : String
  salt : String
  token : String
  tokenId : String
  deriving DecidableEq, Repr

/-- `enqueueEmail`: a queue send, or the delivery itself. -/
def enqueueEmail : App Unit :=
  query fun _ => ()

/-- What the history records when the groups of the new account are set. -/
def groupsSetEvents (userId : String) (groupIds : List String) (db : Database) : List Event :=
  if joinable userId groupIds.eraseDups db then [.groupsSet userId groupIds.eraseDups] else []

/-- The steps whose failure deletes the account again. -/
def provision (env : Env) (draws : ManagedUserDraws) (password : Option String) (user : UserRow) (requestedIds : List String) :
    App Unit := do
  setUserGroupsMarked (groupsSetEvents user.id requestedIds) user.id requestedIds
  match password with
  | some password => setUserPassword env draws.credentialId draws.salt user.id password "Password"
  | none =>
    let _ ← createAccountInvitationToken env draws.token draws.tokenId user.id user.email
    enqueueEmail

def createManagedUser (env : Env) (draws : ManagedUserDraws) (input : ManagedUserInput) : App ManagedUserResult := do
  let email := env.trimLowerCase input.email
  let sameEmail ← getUserByEmail email
  if sameEmail.isSome then pure .duplicateEmail
  else
    let sameAlias ← getUserByAlias input.loginAlias
    if sameAlias.isSome then pure .duplicateAlias
    else
      let groups ← listGroups
      let requestedIds := input.groupIds.eraseDups
      if requestedIds.any fun id => !groups.any (·.id = id) then pure .invalidGroups
      else
        let administrator := groups.any fun g => g.name = "admins" && requestedIds.contains g.id
        if input.password.any fun password => !passwordMeetsPolicy password administrator then pure .invalidPassword
        else
          let user ← createUser [.accountStranded draws.userId] draws.userId
            { email, loginAlias := some input.loginAlias, name := input.name, emailVerified := some input.emailVerified }
          tryCatch (provision env draws input.password user requestedIds) fun failure => do
            let _ ← deleteUser [.rolledBack user.id] [.accountStranded user.id] user.id
            throw failure
          let selected := groups.filter fun g => g.name = "all" || requestedIds.contains g.id
          pure (.created user (selected.map (·.name)) input.password.isNone)

end Keyforge.Admin
