/-
The account pages' actions (`routes/account.ts`) that end an application's access or ask to join a
group. The user is signed in and the form's CSRF token has been verified.
-/
import Keyforge.Db.GroupMemberships
import Keyforge.OAuth.Issue

namespace Keyforge.Routes

open Db Tokens OAuth

/-- `POST /account/apps/:clientId/revoke`: delete the consents, then revoke the families, then the
grants. The result is whether anything changed. -/
def revokeApp (userId clientId : String) : App Bool := do
  let removed ← deleteConsent userId clientId
  let revokedFamilies ← revokeRefreshFamiliesByUserClient userId clientId
  let revokedGrants ← revokeAuthorizationGrantsByUserClient userId clientId
  let changed := removed || revokedFamilies > 0 || revokedGrants > 0
  if changed then recordAudit
  pure changed

/-! ## Joining a group -/

/-- The form's fields; `groupName` is missing when the form has no `group_name`. -/
structure GroupRequestForm where
  groupName : Option String
  groupId : String
  deriving DecidableEq, Repr

def groupRequestNotice : MembershipRequestResult → String
  | .requested => "group_request_submitted"
  | .alreadyPending => "group_request_pending"
  | .alreadyMember => "group_already_joined"
  | .notFound => "group_request_unavailable"
  | .protectedGroup => "group_request_unavailable"

/-- `POST /account/groups/request`. A request by name gets one notice, whatever became of it. The
result is where the browser is sent. -/
def requestGroup (userId : String) (form : GroupRequestForm) : App String := do
  match form.groupName with
  | some groupName =>
    match ← findPublicPermissionGroupIdByExactName groupName with
    | some publicGroupId =>
      let result ← requestPermissionGroupMembership userId publicGroupId
      if result = .requested then recordAudit
      pure "/?section=groups&notice=group_name_request_received"
    | none =>
      let groupId ← requestHiddenPermissionGroupMembership userId groupName
      if groupId.isSome then recordAudit
      pure "/?section=groups&notice=group_name_request_received"
  | none =>
    let result ← requestPermissionGroupMembership userId form.groupId
    if result = .requested then recordAudit
    pure ("/?section=groups&notice=" ++ groupRequestNotice result)

end Keyforge.Routes
