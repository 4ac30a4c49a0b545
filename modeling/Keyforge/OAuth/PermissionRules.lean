/-
Permission rules (`oauth/permission-rules.ts`): a condition tree over application, API and scope,
what makes a stored rule acceptable, and how the matching rules of the smallest priority decide.
-/
import Keyforge.Config
import Mathlib.Algebra.Ring.Nat

namespace Keyforge.OAuth

/-! ## Conditions -/

inductive PermissionRuleEffect where
  | allow
  | deny
  deriving DecidableEq, Repr

inductive PermissionRuleField where
  | application
  | api
  | scope
  deriving DecidableEq, Repr

inductive PermissionRuleSingleOperator where
  | equals
  | notEquals
  deriving DecidableEq, Repr

inductive PermissionRuleSetOperator where
  | isIn
  | notIn
  deriving DecidableEq, Repr

inductive PermissionRuleGroupOperator where
  | and
  | or
  deriving DecidableEq, Repr

inductive PermissionRuleCondition where
  | single (field : PermissionRuleField) (operator : PermissionRuleSingleOperator) (value : String)
  | set (field : PermissionRuleField) (operator : PermissionRuleSetOperator) (values : List String)
  | group (operator : PermissionRuleGroupOperator) (conditions : List PermissionRuleCondition)
  deriving Repr

structure PermissionRuleContext where
  application : String
  api : String
  scope : String
  deriving DecidableEq, Repr

def PermissionRuleContext.field (context : PermissionRuleContext) : PermissionRuleField → String
  | .application => context.application
  | .api => context.api
  | .scope => context.scope

/-! ## Acceptable rules -/

def MAX_PERMISSION_GROUP_RULES : Nat := 256
def MAX_PERMISSION_RULE_DEPTH : Nat := 5
def MAX_PERMISSION_RULE_NODES : Nat := 64
def MAX_PERMISSION_RULE_CHILDREN : Nat := 16
def MAX_PERMISSION_RULE_SET_VALUES : Nat := 64

/-- `length` of an ECMAScript string: UTF-16 code units. -/
def utf16Length (s : String) : Nat :=
  (s.toList.map fun c => if c.toNat < 0x10000 then 1 else 2).sum

/-- What `ruleValueSchema` asks of a text. -/
def isRuleValue (value : String) : Bool :=
  1 ≤ utf16Length value && utf16Length value ≤ 2048

mutual

/-- What `permissionRuleConditionSchema` asks of a condition. -/
def conditionSchema : PermissionRuleCondition → Bool
  | .single _ _ value => isRuleValue value
  | .set _ _ values =>
    values.all isRuleValue && 1 ≤ values.length && values.length ≤ MAX_PERMISSION_RULE_SET_VALUES && values.Nodup
  | .group _ conditions =>
    conditionSchemas conditions && 1 ≤ conditions.length && conditions.length ≤ MAX_PERMISSION_RULE_CHILDREN

def conditionSchemas : List PermissionRuleCondition → Bool
  | [] => true
  | condition :: conditions => conditionSchema condition && conditionSchemas conditions

end

structure InspectedCondition where
  nodes : Nat
  valid : Bool
  standardScope : Bool
  deriving DecidableEq, Repr

mutual

def inspectCondition (depth : Nat) : PermissionRuleCondition → InspectedCondition
  | .single field _ value =>
    if depth > MAX_PERMISSION_RULE_DEPTH then ⟨1, false, false⟩
    else ⟨1, true, field = .scope && USER_ONLY_SCOPES.contains value⟩
  | .set field _ values =>
    if depth > MAX_PERMISSION_RULE_DEPTH then ⟨1, false, false⟩
    else ⟨1, true, field = .scope && values.any USER_ONLY_SCOPES.contains⟩
  | .group _ conditions =>
    if depth > MAX_PERMISSION_RULE_DEPTH then ⟨1, false, false⟩
    else
      let inspected := inspectConditions (depth + 1) conditions ⟨1, !conditions.isEmpty, false⟩
      { inspected with valid := inspected.valid && inspected.nodes ≤ MAX_PERMISSION_RULE_NODES }

/-- The loop over a group's children, from the totals so far. -/
def inspectConditions (depth : Nat) : List PermissionRuleCondition → InspectedCondition → InspectedCondition
  | [], total => total
  | condition :: conditions, total =>
    let inspected := inspectCondition depth condition
    inspectConditions depth conditions
      ⟨total.nodes + inspected.nodes, total.valid && inspected.valid, total.standardScope || inspected.standardScope⟩

end

/-- `validatePermissionGroupRules` on the one rule of a stored row. -/
def validatePermissionGroupRule (condition : PermissionRuleCondition) : Bool :=
  let inspected := inspectCondition 1 condition
  conditionSchema condition && inspected.valid && inspected.nodes ≤ MAX_PERMISSION_RULE_NODES &&
    !inspected.standardScope

/-! ## Submitted rules -/

structure PermissionGroupRuleInput where
  id : Option String
  effect : PermissionRuleEffect
  condition : PermissionRuleCondition
  deriving Repr

inductive PermissionRuleValidationIssue where
  | invalidRule
  | tooManyRules
  | duplicateRuleId
  | standardScope
  deriving DecidableEq, Repr

/-- What `ruleInputSchema` asks of a rule. -/
def isRuleInput (rule : PermissionGroupRuleInput) : Bool :=
  (rule.id.all fun id => 1 ≤ utf16Length id && utf16Length id ≤ 128) && conditionSchema rule.condition

/-- The loop over the parsed rules. -/
def firstIssue : List PermissionGroupRuleInput → Option PermissionRuleValidationIssue
  | [] => none
  | rule :: rules =>
    let inspected := inspectCondition 1 rule.condition
    if !inspected.valid || inspected.nodes > MAX_PERMISSION_RULE_NODES then some .invalidRule
    else if inspected.standardScope then some .standardScope
    else firstIssue rules

/-- What `validatePermissionGroupRules` asks of the parsed rules. -/
def validateParsedRules (rules : List PermissionGroupRuleInput) :
    Except PermissionRuleValidationIssue (List PermissionGroupRuleInput) :=
  if !(rules.filterMap (·.id)).Nodup then .error .duplicateRuleId
  else match firstIssue rules with
    | some issue => .error issue
    | none => .ok rules

/-- `validatePermissionGroupRules` on rules that are written out in JSON. -/
def validateRuleInputs (rules : List PermissionGroupRuleInput) :
    Except PermissionRuleValidationIssue (List PermissionGroupRuleInput) :=
  if !rules.all isRuleInput || rules.length > MAX_PERMISSION_GROUP_RULES then
    .error (if rules.length > MAX_PERMISSION_GROUP_RULES then .tooManyRules else .invalidRule)
  else validateParsedRules rules

theorem validateParsedRules_ok {rules rules' : List PermissionGroupRuleInput} : validateParsedRules rules = .ok rules' ↔
    rules = rules' ∧ (rules.filterMap (·.id)).Nodup ∧ firstIssue rules = none := by
  unfold validateParsedRules
  by_cases hids : (rules.filterMap (·.id)).Nodup
  · cases firstIssue rules <;> simp [hids]
  · simp [hids]

theorem validateRuleInputs_ok {rules rules' : List PermissionGroupRuleInput} : validateRuleInputs rules = .ok rules' ↔
    (rules.length ≤ MAX_PERMISSION_GROUP_RULES ∧ ∀ rule ∈ rules, isRuleInput rule = true) ∧
      validateParsedRules rules = .ok rules' := by
  unfold validateRuleInputs
  by_cases hinputs : rules.length ≤ MAX_PERMISSION_GROUP_RULES ∧ ∀ rule ∈ rules, isRuleInput rule = true
  · rw [if_neg (by simp [List.all_eq_true.2 hinputs.2, hinputs.1])]
    exact (and_iff_right hinputs).symm
  · rw [if_pos]
    · exact iff_of_false nofun fun h => hinputs h.1
    · rw [Bool.or_eq_true, Bool.not_eq_true', decide_eq_true_eq]
      by_contra hneither
      obtain ⟨hall, hsize⟩ := not_or.1 hneither
      exact hinputs ⟨Nat.le_of_not_lt hsize, List.all_eq_true.1 ((Bool.not_eq_false _).mp hall)⟩

/-- What is asked of a condition before the standard-scope test. -/
def wellFormedCondition (condition : PermissionRuleCondition) : Bool :=
  let inspected := inspectCondition 1 condition
  conditionSchema condition && inspected.valid && inspected.nodes ≤ MAX_PERMISSION_RULE_NODES

theorem validatePermissionGroupRule_eq (condition : PermissionRuleCondition) :
    validatePermissionGroupRule condition =
      (wellFormedCondition condition && !(inspectCondition 1 condition).standardScope) := rfl

/-- The validation of one rule without an id. -/
theorem validateRuleInputs_single (effect : PermissionRuleEffect) (condition : PermissionRuleCondition) :
    validateRuleInputs [⟨none, effect, condition⟩] =
      if wellFormedCondition condition then
        if (inspectCondition 1 condition).standardScope then .error .standardScope
        else .ok [⟨none, effect, condition⟩]
      else .error .invalidRule := by
  unfold validateRuleInputs validateParsedRules wellFormedCondition
  cases hschema : conditionSchema condition with
  | false => simp [isRuleInput, hschema, MAX_PERMISSION_GROUP_RULES]
  | true =>
    have hsize : ¬ 1 > MAX_PERMISSION_GROUP_RULES := by decide
    simp only [List.all_cons, List.all_nil, isRuleInput, hschema, Option.all_none, Bool.and_self, Bool.not_true,
      List.length_singleton, hsize, decide_false, Bool.or_self, Bool.false_eq_true, if_false, List.filterMap_cons,
      List.filterMap_nil, List.nodup_nil, decide_true, firstIssue, Bool.true_and]
    by_cases hnodes : (inspectCondition 1 condition).nodes ≤ MAX_PERMISSION_RULE_NODES
    · have : ¬ (inspectCondition 1 condition).nodes > MAX_PERMISSION_RULE_NODES := Nat.not_lt.2 hnodes
      cases (inspectCondition 1 condition).valid <;> cases (inspectCondition 1 condition).standardScope <;>
        simp [hnodes, this]
    · have : (inspectCondition 1 condition).nodes > MAX_PERMISSION_RULE_NODES := Nat.lt_of_not_le hnodes
      simp [hnodes, this]

/-! ## Matching -/

mutual

def conditionUsesScope : PermissionRuleCondition → Bool
  | .single field _ _ => field = .scope
  | .set field _ _ => field = .scope
  | .group _ conditions => conditionsUseScope conditions

def conditionsUseScope : List PermissionRuleCondition → Bool
  | [] => false
  | condition :: conditions => conditionUsesScope condition || conditionsUseScope conditions

end

mutual

def listPermissionRuleReferences : PermissionRuleCondition → List (PermissionRuleField × String)
  | .single field _ value => [(field, value)]
  | .set field _ values => values.map fun value => (field, value)
  | .group _ conditions => listReferences conditions

def listReferences : List PermissionRuleCondition → List (PermissionRuleField × String)
  | [] => []
  | condition :: conditions => listPermissionRuleReferences condition ++ listReferences conditions

end

/-- Whether a condition refers to a value of a field that satisfies `p`. -/
def refersTo (field : PermissionRuleField) (p : String → Bool) (condition : PermissionRuleCondition) : Bool :=
  (listPermissionRuleReferences condition).any fun r => r.1 = field && p r.2

theorem refersTo_iff {field : PermissionRuleField} {p : String → Bool} {condition : PermissionRuleCondition} :
    refersTo field p condition = true ↔ ∃ value, (field, value) ∈ listPermissionRuleReferences condition ∧ p value = true := by
  simp only [refersTo, List.any_eq_true, Bool.and_eq_true, decide_eq_true_eq]
  constructor
  · rintro ⟨⟨_, value⟩, hmem, rfl, hp⟩
    exact ⟨value, hmem, hp⟩
  · rintro ⟨value, hmem, hp⟩
    exact ⟨_, hmem, rfl, hp⟩

/-- Valid children make a valid total. -/
theorem inspectConditions_valid (depth : Nat) : ∀ conditions total,
    (inspectConditions depth conditions total).valid = true → total.valid = true
  | [], _, h => h
  | condition :: conditions, total, h => by
    rw [inspectConditions] at h
    have := inspectConditions_valid depth conditions _ h
    rw [Bool.and_eq_true] at this
    exact this.1

mutual

/-- Within the depth limit, the inspection finds every reference to a standard scope. -/
theorem inspectCondition_standardScope (depth : Nat) : ∀ condition, (inspectCondition depth condition).valid = true →
    (inspectCondition depth condition).standardScope = refersTo .scope USER_ONLY_SCOPES.contains condition
  | .single field operator value, h => by
    unfold inspectCondition at h ⊢
    split at h
    · cases h
    · rename_i hdepth
      rw [if_neg hdepth, refersTo, listPermissionRuleReferences]
      simp
  | .set field operator values, h => by
    unfold inspectCondition at h ⊢
    split at h
    · cases h
    · rename_i hdepth
      rw [if_neg hdepth, refersTo, listPermissionRuleReferences, List.any_map]
      show (decide (field = .scope) && _) = values.any fun value => decide (field = .scope) && USER_ONLY_SCOPES.contains value
      cases decide (field = .scope) with
      | true => rfl
      | false => simp
  | .group operator conditions, h => by
    unfold inspectCondition at h ⊢
    split at h
    · cases h
    · rename_i hdepth
      simp only [Bool.and_eq_true] at h
      rw [if_neg hdepth]
      exact (inspectConditions_standardScope (depth + 1) conditions _ h.1).trans (Bool.false_or _)

theorem inspectConditions_standardScope (depth : Nat) : ∀ conditions total,
    (inspectConditions depth conditions total).valid = true →
      (inspectConditions depth conditions total).standardScope = (total.standardScope ||
        (listReferences conditions).any fun r => r.1 = .scope && USER_ONLY_SCOPES.contains r.2)
  | [], total, _ => (Bool.or_false _).symm
  | condition :: conditions, total, h => by
    rw [inspectConditions] at h ⊢
    have hvalid := inspectConditions_valid depth conditions _ h
    rw [Bool.and_eq_true] at hvalid
    rw [inspectConditions_standardScope depth conditions _ h, inspectCondition_standardScope depth condition hvalid.2,
      listReferences, List.any_append, ← Bool.or_assoc]
    rfl

end

mutual

def permissionRuleMatches (context : PermissionRuleContext) : PermissionRuleCondition → Bool
  | .single field .equals value => context.field field = value
  | .single field .notEquals value => context.field field ≠ value
  | .set field .isIn values => values.contains (context.field field)
  | .set field .notIn values => !values.contains (context.field field)
  | .group .and conditions => everyMatches context conditions
  | .group .or conditions => someMatches context conditions

def everyMatches (context : PermissionRuleContext) : List PermissionRuleCondition → Bool
  | [] => true
  | condition :: conditions => permissionRuleMatches context condition && everyMatches context conditions

def someMatches (context : PermissionRuleContext) : List PermissionRuleCondition → Bool
  | [] => false
  | condition :: conditions => permissionRuleMatches context condition || someMatches context conditions

end

/-! ## Decisions -/

structure EffectivePermissionRule where
  id : String
  effect : PermissionRuleEffect
  condition : PermissionRuleCondition
  groupId : String
  groupName : String
  priority : Nat
  deriving Repr

inductive PermissionRuleStage where
  | base
  | scope
  deriving DecidableEq, Repr

inductive PermissionRuleDecision where
  | allowed (priority : Nat)
  | noMatch
  | denied (priority : Nat)
  deriving DecidableEq, Repr

/-- Resolve matching rules at the smallest priority; deny wins ties. -/
def resolvePermissionRules (rules : List EffectivePermissionRule) (context : PermissionRuleContext)
    (stage : PermissionRuleStage) : PermissionRuleDecision :=
  let matching := rules.filter fun rule =>
    conditionUsesScope rule.condition = decide (stage = .scope) && permissionRuleMatches context rule.condition
  match (matching.map (·.priority)).min? with
  | none => .noMatch
  | some priority =>
    if (matching.filter (·.priority = priority)).any (·.effect = .deny) then .denied priority else .allowed priority

/-- Standard scopes inherit the base decision. -/
def isResourceAuthorizedScope (scope : String) : Bool :=
  USER_ONLY_SCOPES.contains scope

end Keyforge.OAuth
