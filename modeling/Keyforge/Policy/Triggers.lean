/-
The two readings of a rule. The server inspects a condition as a tree; the triggers enumerate the
nodes of its JSON. Both find the same standard scopes, and a trigger deletes a rule exactly when the
tree refers to the client or resource that goes.
-/
import Keyforge.Db.Triggers

namespace Keyforge.Policy

open Lib Db OAuth

/-- The scopes the triggers name are the ones the server authorizes by the resource. -/
theorem rejectStandardScopeRule_eq (condition : PermissionRuleCondition) :
    rejectStandardScopeRule (conditionJson condition) = refersTo .scope USER_ONLY_SCOPES.contains condition :=
  existsConditionNode_conditionJson .scope _ condition

theorem inspected_valid {condition : PermissionRuleCondition} (h : wellFormedCondition condition = true) :
    (inspectCondition 1 condition).valid = true := by
  unfold wellFormedCondition at h
  simp only [Bool.and_eq_true] at h
  exact h.1.2

/-- A trigger deletes a stored rule exactly when its query finds a reference. -/
theorem pruned_iff {field : PermissionRuleField} {value : String} {p : Json → Bool}
    (hp : ∀ condition, p (conditionJson condition) = refersTo field (· = value) condition)
    {rules : Table PermissionGroupRuleRow.id} {rule : PermissionGroupRuleRow} (hrule : rule ∈ rules)
    {condition : PermissionRuleCondition} (hc : rule.condition = some condition) :
    rule ∉ pruneRules p rules ↔ (field, value) ∈ listPermissionRuleReferences condition := by
  have hrefers : refersTo field (· = value) condition = true ↔ (field, value) ∈ listPermissionRuleReferences condition := by
    rw [refersTo_iff]
    constructor
    · rintro ⟨v, hv, he⟩
      rwa [of_decide_eq_true he] at hv
    · exact fun h => ⟨value, h, by simp⟩
  rw [pruneRules, Table.mem_delete, not_and, hc, Option.any_some, hp, ← hrefers, Bool.not_eq_false]
  exact ⟨fun h => h hrule, fun h _ => h⟩

/-- On every condition accepted up to the standard-scope test the inspection reports a standard scope
exactly when the rejecting triggers find one in the stored JSON; and a stored rule is deleted with a
client or a resource exactly when the condition refers to it. -/
theorem triggers_read_conditions :
    (∀ condition, wellFormedCondition condition = true →
      ((inspectCondition 1 condition).standardScope = true ↔ rejectStandardScopeRule (conditionJson condition) = true)) ∧
    (∀ (rules : Table PermissionGroupRuleRow.id) (rule : PermissionGroupRuleRow) (condition : PermissionRuleCondition),
      rule ∈ rules → rule.condition = some condition → ∀ value,
        (rule ∉ prunePermissionRulesAfterClientDelete value rules ↔
          (.application, value) ∈ listPermissionRuleReferences condition) ∧
        (rule ∉ prunePermissionRulesAfterResourceDelete value rules ↔
          (.api, value) ∈ listPermissionRuleReferences condition)) := by
  refine ⟨fun condition h => ?_, fun rules rule condition hrule hc value => ⟨?_, ?_⟩⟩
  · rw [inspectCondition_standardScope 1 condition (inspected_valid h), rejectStandardScopeRule_eq]
  · exact pruned_iff (fun c => existsConditionNode_conditionJson .application _ c) hrule hc
  · exact pruned_iff (fun c => existsConditionNode_conditionJson .api _ c) hrule hc

/-- A rule that mixes a negated set of scopes, an application and an API. -/
def mixedCondition : PermissionRuleCondition :=
  .group .and [.set .scope .notIn ["api.read", "email"],
    .group .or [.single .application .notEquals "app", .single .api .equals "https://api.example.com"]]

def mixedRule : PermissionGroupRuleRow :=
  { id := "rule_m", groupId := "grp_a", effect := .deny, condition := some mixedCondition, position := 0 }

def mixedRules : Table PermissionGroupRuleRow.id :=
  (∅ : Table PermissionGroupRuleRow.id).insert mixedRule

/-- The standard scope is found, and the rule goes with its application and with its API, but not with another. -/
theorem triggers_read_conditions_mixed :
    (wellFormedCondition mixedCondition = true ∧ (inspectCondition 1 mixedCondition).standardScope = true ∧
      rejectStandardScopeRule (conditionJson mixedCondition) = true) ∧
    mixedRule ∉ prunePermissionRulesAfterClientDelete "app" mixedRules ∧
      mixedRule ∉ prunePermissionRulesAfterResourceDelete "https://api.example.com" mixedRules ∧
      mixedRule ∈ prunePermissionRulesAfterClientDelete "other" mixedRules := by
  have hwf : wellFormedCondition mixedCondition = true := by decide +kernel
  have hscope : (inspectCondition 1 mixedCondition).standardScope = true := by decide +kernel
  have hpruned := triggers_read_conditions.2 mixedRules mixedRule mixedCondition (List.mem_singleton.2 rfl) rfl
  have hreferences : listPermissionRuleReferences mixedCondition = [(.scope, "api.read"), (.scope, "email"),
      (.application, "app"), (.api, "https://api.example.com")] := rfl
  rw [hreferences] at hpruned
  refine ⟨⟨hwf, hscope, (triggers_read_conditions.1 mixedCondition hwf).1 hscope⟩, (hpruned "app").1.2 ?_,
    (hpruned "https://api.example.com").2.2 ?_, not_not.1 fun h => absurd ((hpruned "other").1.1 h) ?_⟩
  · decide
  · decide
  · decide

end Keyforge.Policy
