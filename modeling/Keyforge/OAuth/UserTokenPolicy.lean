/-
What a user's permission groups allow a token to carry (`oauth/user-token-policy.ts`,
`db/queries/permission-group-rules.ts`). The decision is a function of the database;
`evaluateUserTokenAccess` is the one read that computes it.
-/
import Keyforge.Env
import Keyforge.World
import Mathlib.Data.List.Sort

namespace Keyforge.OAuth

open Lib Db

/-! ## The user's rules -/

structure UserPermissionRules where
  valid : Bool
  adminMember : Bool
  rules : List EffectivePermissionRule
  deriving Repr

/-- `ORDER BY priority, group id, position, rule id`; a missing rule sorts first. -/
def policyRowOrder (a b : GroupRow × Option PermissionGroupRuleRow) : Bool :=
  let position := fun r : Option PermissionGroupRuleRow => r.elim 0 (·.position + 1)
  let ruleId := fun r : Option PermissionGroupRuleRow => r.elim "" (·.id)
  a.1.priority < b.1.priority || (a.1.priority = b.1.priority &&
    (a.1.id < b.1.id || (a.1.id = b.1.id &&
      (position a.2 < position b.2 || (position a.2 = position b.2 && ruleId a.2 ≤ ruleId b.2)))))

/-- The user's memberships joined with their groups, left-joined with the groups' rules. -/
def policyRows (db : Database) (userId : String) : List (GroupRow × Option PermissionGroupRuleRow) :=
  let groups := (db.userGroups.select (·.userId = userId)).filterMap fun m => db.groups.get? m.groupId
  (groups.flatMap fun g => match db.permissionGroupRules.select (·.groupId = g.id) with
    | [] => [(g, none)]
    | rules => rules.map fun r => (g, some r)).insertionSort fun a b => policyRowOrder a b = true

/-- The loop over the rows; a rule that does not parse or validate makes the whole policy invalid. -/
def collectRules (adminMember : Bool) (rules : List EffectivePermissionRule) :
    List (GroupRow × Option PermissionGroupRuleRow) → UserPermissionRules
  | [] => ⟨true, adminMember, rules⟩
  | (g, none) :: rest => collectRules (adminMember || g.name = "admins") rules rest
  | (g, some r) :: rest =>
    match r.condition.filter conditionSchema with
    | none => ⟨false, adminMember || g.name = "admins", []⟩
    | some condition =>
      if validatePermissionGroupRule condition then
        collectRules (adminMember || g.name = "admins")
          (rules ++ [⟨r.id, r.effect, condition, g.id, g.name, g.priority⟩]) rest
      else ⟨false, adminMember || g.name = "admins", []⟩

def getUserPermissionRules (db : Database) (userId : String) : UserPermissionRules :=
  collectRules false [] (policyRows db userId)

/-! ## The decision -/

def ADMIN_SCOPES : List String := ["admin.read", "admin.write"]

inductive AccessDenial where
  | applicationResource
  | adminScope
  | scopeDenied
  | scopeNotAllowed
  | invalidPolicy
  deriving DecidableEq, Repr

def AccessDenial.text : AccessDenial → String
  | .applicationResource => "application_resource"
  | .adminScope => "admin_scope"
  | .scopeDenied => "scope_denied"
  | .scopeNotAllowed => "scope_not_allowed"
  | .invalidPolicy => "invalid_policy"

structure UserTokenAccessInput where
  userId : String
  clientId : String
  resourceUri : String
  scopes : List String
  deriving DecidableEq, Repr

/-- The loop over the requested scopes: the first custom scope without a deciding allow rule denies. -/
def scopeDenial (rules : List EffectivePermissionRule) (context : PermissionRuleContext) :
    List String → Option AccessDenial
  | [] => none
  | scope :: rest =>
    if isResourceAuthorizedScope scope then scopeDenial rules context rest
    else match resolvePermissionRules rules { context with scope } .scope with
      | .allowed _ => scopeDenial rules context rest
      | .denied _ => some .scopeDenied
      | .noMatch => some .scopeNotAllowed

/-- The decision on a database: `none` allows. -/
def userTokenAccess (env : Env) (input : UserTokenAccessInput) (db : Database) : Option AccessDenial :=
  if env.yolo then none
  else
    let policy := getUserPermissionRules db input.userId
    if !policy.valid then some .invalidPolicy
    else
      let uniqueScopes := input.scopes.eraseDups
      let context := { application := input.clientId, api := input.resourceUri, scope := uniqueScopes.headD "" }
      match resolvePermissionRules policy.rules context .base with
      | .allowed _ =>
        if uniqueScopes.any ADMIN_SCOPES.contains && !policy.adminMember then some .adminScope
        else scopeDenial policy.rules context uniqueScopes
      | _ => some .applicationResource

/-- The decision on the policy that was read. -/
def decideAccess (env : Env) (policy : UserPermissionRules) (input : UserTokenAccessInput) : Option AccessDenial :=
  if env.yolo then none
  else if !policy.valid then some .invalidPolicy
  else
    let uniqueScopes := input.scopes.eraseDups
    let context := { application := input.clientId, api := input.resourceUri, scope := uniqueScopes.headD "" }
    match resolvePermissionRules policy.rules context .base with
    | .allowed _ =>
      if uniqueScopes.any ADMIN_SCOPES.contains && !policy.adminMember then some .adminScope
      else scopeDenial policy.rules context uniqueScopes
    | _ => some .applicationResource

def evaluateUserTokenAccess (env : Env) (input : UserTokenAccessInput) : App (Option AccessDenial) :=
  if env.yolo then pure none else select (userTokenAccess env input)

end Keyforge.OAuth
