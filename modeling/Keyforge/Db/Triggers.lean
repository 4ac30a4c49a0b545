/-
The triggers of migration 0025. A rule's condition is stored as JSON; the triggers look for a node of
that JSON with a given field and a value of a given kind, reject rules on standard scopes, and delete
the rules that mention a client, a resource or a scope that goes. What the queries find in the JSON
is what `listPermissionRuleReferences` lists of the condition.
-/
import Keyforge.Db.Schema
import Keyforge.Lib.Json

namespace Keyforge.Db

open Lib OAuth

/-! ## Stored conditions -/

def effectText : PermissionRuleEffect → String
  | .allow => "allow"
  | .deny => "deny"

def fieldText : PermissionRuleField → String
  | .application => "application"
  | .api => "api"
  | .scope => "scope"

def singleOperatorText : PermissionRuleSingleOperator → String
  | .equals => "equals"
  | .notEquals => "not_equals"

def setOperatorText : PermissionRuleSetOperator → String
  | .isIn => "in"
  | .notIn => "not_in"

def groupOperatorText : PermissionRuleGroupOperator → String
  | .and => "and"
  | .or => "or"

mutual

/-- What `condition_json` holds for a condition. -/
def conditionJson : PermissionRuleCondition → Json
  | .single field operator value =>
    .obj [("field", .str (fieldText field)), ("operator", .str (singleOperatorText operator)), ("value", .str value)]
  | .set field operator values =>
    .obj [("field", .str (fieldText field)), ("operator", .str (setOperatorText operator)),
      ("values", .arr (values.map .str))]
  | .group operator conditions =>
    .obj [("operator", .str (groupOperatorText operator)), ("conditions", .arr (conditionJsons conditions))]

def conditionJsons : List PermissionRuleCondition → List Json
  | [] => []
  | condition :: conditions => conditionJson condition :: conditionJsons conditions

end

/-! ## The queries -/

/-- An object with this field and a value, or one of its values, that satisfies `p`. -/
def conditionNode (field : String) (p : String → Bool) (node : Json) : Bool :=
  node.isObject && (node.extract "field").castText = some field &&
    ((node.extract "value").castText.any p || (node.extract "values").coalesceArray.each.any fun value => value.castText.any p)

/-- `EXISTS (SELECT 1 FROM json_tree(…) WHERE …)`. -/
def existsConditionNode (field : String) (p : String → Bool) (json : Json) : Bool :=
  json.tree.any (conditionNode field p)

/-- `reject_standard_scope_rule_insert` and `reject_standard_scope_rule_update`. -/
def rejectStandardScopeRule (json : Json) : Bool :=
  existsConditionNode "scope" (["openid", "profile", "email", "offline_access"].contains ·) json

/-- Whether a deleted client is mentioned. -/
def mentionsClient (clientId : String) (json : Json) : Bool :=
  existsConditionNode "application" (· = clientId) json

/-- Whether a deleted resource is mentioned. -/
def mentionsResource (resourceUri : String) (json : Json) : Bool :=
  existsConditionNode "api" (· = resourceUri) json

/-- Whether some resource offers the scope. -/
def offersScope (resources : Table ResourceRow.resourceUri) (scope : String) : Bool :=
  resources.has fun r => r.allowedScopes.contains scope

/-- Whether the rule has lost a scope by an update of a resource: it mentions the resource and a scope
that the resource does not offer, or a scope that no resource offers. -/
def mentionsRetiredScope (resourceUri : String) (allowedScopes : List String) (resources : Table ResourceRow.resourceUri)
    (json : Json) : Bool :=
  (mentionsResource resourceUri json && existsConditionNode "scope" (!allowedScopes.contains ·) json) ||
    existsConditionNode "scope" (!offersScope resources ·) json

/-! ## The triggers -/

/-- `DELETE FROM permission_group_rules WHERE …`, for a condition on the stored JSON. -/
def pruneRules (p : Json → Bool) (rules : Table PermissionGroupRuleRow.id) : Table PermissionGroupRuleRow.id :=
  rules.delete fun r => r.condition.any fun c => p (conditionJson c)

/-- `prune_permission_rules_after_client_delete`. -/
def prunePermissionRulesAfterClientDelete (clientId : String) (rules : Table PermissionGroupRuleRow.id) :
    Table PermissionGroupRuleRow.id :=
  pruneRules (mentionsClient clientId) rules

/-- `prune_permission_rules_after_resource_delete`. -/
def prunePermissionRulesAfterResourceDelete (resourceUri : String) (rules : Table PermissionGroupRuleRow.id) :
    Table PermissionGroupRuleRow.id :=
  pruneRules (mentionsResource resourceUri) rules

/-- `prune_permission_rules_after_resource_scope_update`; `resources` is the table after the update. -/
def prunePermissionRulesAfterResourceScopeUpdate (resourceUri : String) (allowedScopes : List String)
    (resources : Table ResourceRow.resourceUri) (rules : Table PermissionGroupRuleRow.id) :
    Table PermissionGroupRuleRow.id :=
  pruneRules (mentionsRetiredScope resourceUri allowedScopes resources) rules

/-! ## What the queries find -/

theorem fieldText_inj {field field' : PermissionRuleField} : fieldText field = fieldText field' ↔ field = field' := by
  cases field <;> cases field' <;> decide

theorem conditionNode_str (field : String) (p : String → Bool) (s : String) : conditionNode field p (.str s) = false := rfl

theorem conditionNode_arr (field : String) (p : String → Bool) (elements : List Json) :
    conditionNode field p (.arr elements) = false := rfl

theorem conditionNode_strs (field : String) (p : String → Bool) (values : List String) :
    (values.map Json.str).any (conditionNode field p) = false := by
  rw [List.any_map]
  exact List.any_eq_false.2 fun value _ => by simp [conditionNode_str]

theorem conditionNode_single (field field' : PermissionRuleField) (operator value : String) (p : String → Bool) :
    conditionNode (fieldText field) p
      (.obj [("field", .str (fieldText field')), ("operator", .str operator), ("value", .str value)]) =
      (field' = field && p value) := by
  simp [conditionNode, Json.isObject, Json.extract, Json.coalesceArray, Json.each, List.lookup_cons, fieldText_inj]

theorem conditionNode_set (field field' : PermissionRuleField) (operator : String) (values : List String)
    (p : String → Bool) :
    conditionNode (fieldText field) p
      (.obj [("field", .str (fieldText field')), ("operator", .str operator), ("values", .arr (values.map .str))]) =
      (field' = field && values.any p) := by
  have hvalues := Json.any_castText_strs p values
  simp only [conditionNode, Json.isObject, Json.extract, List.lookup_cons]
  simp only [String.reduceBEq, List.lookup_nil, Option.getD_some, Option.getD_none, Json.castText_str, Json.castText_null,
    Json.coalesceArray, Json.each, hvalues, Option.any_none, Option.some.injEq, fieldText_inj, Bool.true_and,
    Bool.false_or]

theorem conditionNode_group (field : PermissionRuleField) (operator : String) (conditions : List Json)
    (p : String → Bool) :
    conditionNode (fieldText field) p (.obj [("operator", .str operator), ("conditions", .arr conditions)]) = false := by
  simp [conditionNode, Json.isObject, Json.extract, List.lookup_cons]

mutual

/-- A query on the stored JSON finds a node exactly when the condition refers to such a value. -/
theorem existsConditionNode_conditionJson (field : PermissionRuleField) (p : String → Bool) :
    ∀ condition, existsConditionNode (fieldText field) p (conditionJson condition) = refersTo field p condition
  | .single field' operator value => by
    simp only [existsConditionNode, conditionJson, Json.tree, Json.treeMembers, List.any_cons, List.append_nil,
      List.singleton_append, List.any_nil, conditionNode_single, conditionNode_str, Bool.or_false]
    simp [refersTo, listPermissionRuleReferences]
  | .set field' operator values => by
    simp only [existsConditionNode, conditionJson, Json.tree, Json.treeMembers, List.any_cons, List.append_nil,
      List.singleton_append, Json.treeElements_strs, conditionNode_set, conditionNode_str, conditionNode_arr,
      conditionNode_strs, Bool.or_false]
    rw [refersTo, listPermissionRuleReferences, List.any_map]
    cases h : decide (field' = field) <;> simp_all [Function.comp_def]
  | .group operator conditions => by
    simp only [existsConditionNode, conditionJson, Json.tree, Json.treeMembers, List.any_cons, List.append_nil,
      List.singleton_append, conditionNode_group, conditionNode_str, conditionNode_arr, Bool.false_or]
    rw [existsConditionNode_conditionJsons field p conditions]
    rfl

theorem existsConditionNode_conditionJsons (field : PermissionRuleField) (p : String → Bool) :
    ∀ conditions, (Json.treeElements (conditionJsons conditions)).any (conditionNode (fieldText field) p) =
      (listReferences conditions).any fun r => r.1 = field && p r.2
  | [] => rfl
  | condition :: conditions => by
    rw [conditionJsons, Json.treeElements, List.any_append, listReferences, List.any_append,
      existsConditionNode_conditionJsons field p conditions]
    exact congrArg (· || _) (existsConditionNode_conditionJson field p condition)

end

/-! ## What the triggers keep -/

theorem mem_pruneRules {p : Json → Bool} {rules : Table PermissionGroupRuleRow.id} {r : PermissionGroupRuleRow} :
    r ∈ pruneRules p rules ↔ r ∈ rules ∧ (r.condition.any fun c => p (conditionJson c)) = false :=
  Table.mem_delete

theorem mentionsClient_eq (clientId : String) (c : PermissionRuleCondition) :
    mentionsClient clientId (conditionJson c) = refersTo .application (· = clientId) c :=
  existsConditionNode_conditionJson .application _ c

theorem mentionsResource_eq (resourceUri : String) (c : PermissionRuleCondition) :
    mentionsResource resourceUri (conditionJson c) = refersTo .api (· = resourceUri) c :=
  existsConditionNode_conditionJson .api _ c

theorem mentionsRetiredScope_eq (resourceUri : String) (allowedScopes : List String)
    (resources : Table ResourceRow.resourceUri) (c : PermissionRuleCondition) :
    mentionsRetiredScope resourceUri allowedScopes resources (conditionJson c) =
      ((refersTo .api (· = resourceUri) c && refersTo .scope (!allowedScopes.contains ·) c) ||
        refersTo .scope (!offersScope resources ·) c) := by
  have hscope := fun p => existsConditionNode_conditionJson .scope p c
  simp only [fieldText] at hscope
  rw [mentionsRetiredScope, mentionsResource_eq, hscope, hscope]

end Keyforge.Db
