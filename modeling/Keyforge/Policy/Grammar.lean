/-
The grammar of submitted rules. A condition is a tree; the grammar bounds its height and its number of
nodes and says what each node may be, and the rules are an array of such conditions with their effects
and distinct ids. The validation accepts exactly the JSON that writes rules of the grammar, and answers
with those rules.
-/
import Keyforge.Policy.RuleInput

namespace Keyforge.Policy

open Lib Db OAuth

/-! ## The grammar -/

mutual

/-- The levels of a condition. -/
def height : PermissionRuleCondition → Nat
  | .single _ _ _ => 1
  | .set _ _ _ => 1
  | .group _ conditions => 1 + heights conditions

def heights : List PermissionRuleCondition → Nat
  | [] => 0
  | condition :: conditions => max (height condition) (heights conditions)

end

mutual

/-- The condition and every condition in it. -/
def nodes : PermissionRuleCondition → List PermissionRuleCondition
  | .single field operator value => [.single field operator value]
  | .set field operator values => [.set field operator values]
  | .group operator conditions => .group operator conditions :: nodesOf conditions

def nodesOf : List PermissionRuleCondition → List PermissionRuleCondition
  | [] => []
  | condition :: conditions => nodes condition ++ nodesOf conditions

end

/-- A value is not empty and has at most 2048 characters. -/
def ValueInGrammar (value : String) : Prop :=
  1 ≤ utf16Length value ∧ utf16Length value ≤ 2048

/-- A leaf has a value, or 1 to 64 distinct values; an inner node has 1 to 16 children. -/
def NodeInGrammar : PermissionRuleCondition → Prop
  | .single _ _ value => ValueInGrammar value
  | .set _ _ values => (1 ≤ values.length ∧ values.length ≤ 64) ∧ values.Nodup ∧ ∀ value ∈ values, ValueInGrammar value
  | .group _ conditions => 1 ≤ conditions.length ∧ conditions.length ≤ 16

/-- The scopes that a leaf on the field scope mentions. -/
def scopesOf : PermissionRuleCondition → List String
  | .single .scope _ value => [value]
  | .set .scope _ values => values
  | _ => []

structure ConditionInGrammar (condition : PermissionRuleCondition) : Prop where
  height : height condition ≤ 5
  size : (nodes condition).length ≤ 64
  node : ∀ n ∈ nodes condition, NodeInGrammar n
  scope : ∀ n ∈ nodes condition, ∀ scope ∈ scopesOf n, scope ∉ ["openid", "profile", "email", "offline_access"]

/-- The JSON value is an array that writes these rules of the grammar, in this order. -/
structure RulesInGrammar (raw : JsonValue) (rules : List PermissionGroupRuleInput) : Prop where
  spelled : ∃ elements, raw = .array elements ∧ List.Forall₂ (fun v rule => SpellsRule rule v) elements rules
  size : rules.length ≤ 256
  ids : (rules.filterMap (·.id)).Nodup
  id : ∀ rule ∈ rules, ∀ id, rule.id = some id → 1 ≤ utf16Length id ∧ utf16Length id ≤ 128
  condition : ∀ rule ∈ rules, ConditionInGrammar rule.condition

/-! ## Nodes -/

theorem valueInGrammar_iff {value : String} : isRuleValue value = true ↔ ValueInGrammar value := by
  simp [isRuleValue, ValueInGrammar]

mutual

/-- The schema asks of a condition what the grammar asks of its nodes. -/
theorem conditionSchema_iff : ∀ condition : PermissionRuleCondition,
    conditionSchema condition = true ↔ ∀ n ∈ nodes condition, NodeInGrammar n
  | .single field operator value => by
    simp only [nodes, List.forall_mem_singleton, NodeInGrammar, conditionSchema, valueInGrammar_iff]
  | .set field operator values => by
    have hlimit : MAX_PERMISSION_RULE_SET_VALUES = 64 := rfl
    rw [nodes, List.forall_mem_singleton, NodeInGrammar, conditionSchema, hlimit]
    simp only [Bool.and_eq_true, List.all_eq_true, decide_eq_true_eq, valueInGrammar_iff]
    constructor
    · exact fun h => ⟨⟨h.1.1.2, h.1.2⟩, h.2, h.1.1.1⟩
    · exact fun h => ⟨⟨⟨h.2.2, h.1.1⟩, h.1.2⟩, h.2.1⟩
  | .group operator conditions => by
    have hlimit : MAX_PERMISSION_RULE_CHILDREN = 16 := rfl
    rw [nodes, List.forall_mem_cons, conditionSchema, hlimit]
    simp only [Bool.and_eq_true, decide_eq_true_eq, conditionSchemas_nodes conditions]
    constructor
    · exact fun h => ⟨⟨h.1.2, h.2⟩, h.1.1⟩
    · exact fun h => ⟨⟨h.2, h.1.1⟩, h.1.2⟩

theorem conditionSchemas_nodes : ∀ conditions : List PermissionRuleCondition,
    conditionSchemas conditions = true ↔ ∀ n ∈ nodesOf conditions, NodeInGrammar n
  | [] => by simp [conditionSchemas, nodesOf]
  | condition :: conditions => by
    rw [conditionSchemas, Bool.and_eq_true, conditionSchema_iff condition, conditionSchemas_nodes conditions, nodesOf,
      List.forall_mem_append]

end

mutual

/-- The references to scopes are those of the nodes. -/
theorem mem_references_iff {scope : String} : ∀ condition : PermissionRuleCondition,
    (PermissionRuleField.scope, scope) ∈ listPermissionRuleReferences condition ↔ ∃ n ∈ nodes condition, scope ∈ scopesOf n
  | .single field operator value => by
    simp only [listPermissionRuleReferences, nodes, List.mem_singleton, exists_eq_left]
    cases field <;> simp [scopesOf]
  | .set field operator values => by
    simp only [listPermissionRuleReferences, nodes, List.mem_singleton, exists_eq_left]
    cases field <;> simp [scopesOf]
  | .group operator conditions => by
    rw [listPermissionRuleReferences, nodes, mem_listReferences_iff conditions]
    simp [scopesOf]

theorem mem_listReferences_iff {scope : String} : ∀ conditions : List PermissionRuleCondition,
    (PermissionRuleField.scope, scope) ∈ listReferences conditions ↔ ∃ n ∈ nodesOf conditions, scope ∈ scopesOf n
  | [] => by simp [listReferences, nodesOf]
  | condition :: conditions => by
    rw [listReferences, nodesOf, List.mem_append, mem_references_iff condition, mem_listReferences_iff conditions]
    simp [or_and_right, exists_or]

end

theorem standardScope_iff {condition : PermissionRuleCondition} : refersTo .scope USER_ONLY_SCOPES.contains condition = false ↔
    ∀ n ∈ nodes condition, ∀ scope ∈ scopesOf n, scope ∉ ["openid", "profile", "email", "offline_access"] := by
  rw [Bool.eq_false_iff, Ne, refersTo_iff]
  simp only [mem_references_iff]
  constructor
  · exact fun h n hn scope hscope hmem => h ⟨scope, ⟨n, hn, hscope⟩, List.contains_iff_mem.2 hmem⟩
  · rintro h ⟨scope, ⟨n, hn, hscope⟩, hmem⟩
    exact h n hn scope hscope (List.contains_iff_mem.1 hmem)

/-! ## The inspection -/

mutual

/-- A valid inspection has counted every node. -/
theorem inspectCondition_nodes : ∀ (condition : PermissionRuleCondition) (depth : Nat),
    (inspectCondition depth condition).valid = true → (inspectCondition depth condition).nodes = (nodes condition).length
  | .single field operator value, depth, h => by
    unfold inspectCondition at h ⊢
    split at h
    · cases h
    · rename_i hdepth
      rw [if_neg hdepth]
      rfl
  | .set field operator values, depth, h => by
    unfold inspectCondition at h ⊢
    split at h
    · cases h
    · rename_i hdepth
      rw [if_neg hdepth]
      rfl
  | .group operator conditions, depth, h => by
    unfold inspectCondition at h ⊢
    split at h
    · cases h
    · rename_i hdepth
      rw [if_neg hdepth]
      simp only [Bool.and_eq_true] at h
      refine (inspectConditions_nodes conditions (depth + 1) _ h.1).trans ?_
      rw [nodes, List.length_cons, Nat.add_comm]

theorem inspectConditions_nodes : ∀ (conditions : List PermissionRuleCondition) (depth : Nat) (total : InspectedCondition),
    (inspectConditions depth conditions total).valid = true →
      (inspectConditions depth conditions total).nodes = total.nodes + (nodesOf conditions).length
  | [], _, total, _ => rfl
  | condition :: conditions, depth, total, h => by
    rw [inspectConditions] at h ⊢
    have hvalid := inspectConditions_valid depth conditions _ h
    rw [Bool.and_eq_true] at hvalid
    rw [inspectConditions_nodes conditions depth _ h, inspectCondition_nodes condition depth hvalid.2, nodesOf,
      List.length_append, Nat.add_assoc]

end

mutual

/-- Where there are few enough nodes, the inspection is valid if and only if the condition is low enough. -/
theorem inspectCondition_valid_iff : ∀ (condition : PermissionRuleCondition) (depth : Nat), conditionSchema condition = true →
    (nodes condition).length ≤ 64 → ((inspectCondition depth condition).valid = true ↔ depth + height condition ≤ 6)
  | .single field operator value, depth, _, _ => by
    unfold inspectCondition MAX_PERMISSION_RULE_DEPTH
    rw [height]
    by_cases hdepth : depth > 5
    · have hhigh : ¬depth + 1 ≤ 6 := by omega
      simp [hdepth, hhigh]
    · have hlow : depth + 1 ≤ 6 := by omega
      simp [hdepth, hlow]
  | .set field operator values, depth, _, _ => by
    unfold inspectCondition MAX_PERMISSION_RULE_DEPTH
    rw [height]
    by_cases hdepth : depth > 5
    · have hhigh : ¬depth + 1 ≤ 6 := by omega
      simp [hdepth, hhigh]
    · have hlow : depth + 1 ≤ 6 := by omega
      simp [hdepth, hlow]
  | .group operator conditions, depth, hschema, hsize => by
    rw [conditionSchema] at hschema
    simp only [Bool.and_eq_true, decide_eq_true_eq] at hschema
    obtain ⟨⟨hschemas, hchild⟩, -⟩ := hschema
    rw [nodes, List.length_cons] at hsize
    unfold inspectCondition MAX_PERMISSION_RULE_DEPTH MAX_PERMISSION_RULE_NODES
    rw [height]
    by_cases hdepth : depth > 5
    · have hhigh : ¬depth + (1 + heights conditions) ≤ 6 := by omega
      simp [hdepth, hhigh]
    -- the members, one level down
    · have hvalid := inspectConditions_valid_iff conditions (depth + 1) ⟨1, !conditions.isEmpty, false⟩ hschemas
        (by omega) (by omega)
      have hnonempty : conditions.isEmpty = false := by
        cases conditions with
        | nil => cases hchild
        | cons _ _ => rfl
      simp only [hdepth, if_false, Bool.and_eq_true, decide_eq_true_eq]
      constructor
      · rintro ⟨h, -⟩
        have hlow := (hvalid.1 h).2
        omega
      · intro h
        have hall := hvalid.2 ⟨by simp [hnonempty], by omega⟩
        -- the limit on the count is never met: the whole tree has 64 nodes at most
        have hcount := inspectConditions_nodes conditions (depth + 1) _ hall
        refine ⟨hall, ?_⟩
        rw [hcount]
        show 1 + (nodesOf conditions).length ≤ 64
        omega

theorem inspectConditions_valid_iff : ∀ (conditions : List PermissionRuleCondition) (depth : Nat) (total : InspectedCondition),
    conditionSchemas conditions = true → (nodesOf conditions).length ≤ 64 → depth ≤ 6 →
      ((inspectConditions depth conditions total).valid = true ↔ total.valid = true ∧ depth + heights conditions ≤ 6)
  | [], depth, total, _, _, hdepth => by
    rw [inspectConditions, heights]
    exact ⟨fun h => ⟨h, hdepth⟩, And.left⟩
  | condition :: conditions, depth, total, hschema, hsize, hdepth => by
    rw [conditionSchemas, Bool.and_eq_true] at hschema
    rw [nodesOf, List.length_append] at hsize
    have hhead := inspectCondition_valid_iff condition depth hschema.1 (by omega)
    rw [inspectConditions, inspectConditions_valid_iff conditions depth _ hschema.2 (by omega) hdepth, heights,
      Bool.and_eq_true, hhead, and_assoc]
    refine and_congr_right fun _ => ?_
    omega

end

/-- The loop over the parsed rules finds no issue where every condition is in the grammar. -/
theorem firstIssue_none_iff : ∀ rules : List PermissionGroupRuleInput,
    (∀ rule ∈ rules, conditionSchema rule.condition = true) →
      (firstIssue rules = none ↔ ∀ rule ∈ rules, ConditionInGrammar rule.condition)
  | [], _ => by simp [firstIssue]
  | rule :: rules, hschema => by
    obtain ⟨hhead, hrest⟩ := List.forall_mem_cons.1 hschema
    have hcondition : ConditionInGrammar rule.condition ↔ (inspectCondition 1 rule.condition).valid = true ∧
        (inspectCondition 1 rule.condition).nodes ≤ 64 ∧ (inspectCondition 1 rule.condition).standardScope = false := by
      constructor
      · intro h
        have hvalid := (inspectCondition_valid_iff rule.condition 1 hhead h.size).2 (by have := h.height; omega)
        refine ⟨hvalid, ?_, ?_⟩
        · rw [inspectCondition_nodes rule.condition 1 hvalid]
          exact h.size
        · rw [inspectCondition_standardScope 1 rule.condition hvalid, standardScope_iff]
          exact h.scope
      · rintro ⟨hvalid, hnodes, hscope⟩
        rw [inspectCondition_nodes rule.condition 1 hvalid] at hnodes
        rw [inspectCondition_standardScope 1 rule.condition hvalid, standardScope_iff] at hscope
        have hheight := (inspectCondition_valid_iff rule.condition 1 hhead hnodes).1 hvalid
        exact ⟨by omega, hnodes, (conditionSchema_iff _).1 hhead, hscope⟩
    rw [firstIssue, List.forall_mem_cons, hcondition, ← firstIssue_none_iff rules hrest]
    unfold MAX_PERMISSION_RULE_NODES
    cases (inspectCondition 1 rule.condition).valid with
    | false => simp
    | true =>
      by_cases hnodes : (inspectCondition 1 rule.condition).nodes > 64
      · have hmany : ¬(inspectCondition 1 rule.condition).nodes ≤ 64 := by omega
        simp [hnodes, hmany]
      · have hfew : (inspectCondition 1 rule.condition).nodes ≤ 64 := by omega
        cases (inspectCondition 1 rule.condition).standardScope <;> simp [hnodes, hfew]

/-! ## The validation -/

section

variable {zod : SchemaLibrary} {permissionRuleConditionSchema : zod.Schema PermissionRuleCondition}

/-- What the schema of submitted rules accepts. -/
theorem permissionGroupRulesInputSchema_iff (laws : zod.Laws utf16Length) (hlazy : Lazy zod permissionRuleConditionSchema)
    {raw : JsonValue} {rules : List PermissionGroupRuleInput} :
    zod.safeParse (permissionGroupRulesInputSchema zod permissionRuleConditionSchema) raw = some rules ↔
      (∃ elements, raw = .array elements ∧ List.Forall₂ (fun v rule => SpellsRule rule v) elements rules) ∧
        rules.length ≤ 256 ∧ ∀ rule ∈ rules, isRuleInput rule = true := by
  have hsplit : ∀ {elements : List JsonValue},
      List.Forall₂ (fun v rule => zod.safeParse (ruleInputSchema zod permissionRuleConditionSchema) v = some rule) elements rules ↔
        List.Forall₂ (fun v rule => SpellsRule rule v) elements rules ∧ ∀ rule ∈ rules, isRuleInput rule = true := by
    intro elements
    simp only [ruleInputSchema_iff laws hlazy]
    constructor
    · intro h
      induction h with
      | nil => exact ⟨.nil, fun _ hrule => absurd hrule List.not_mem_nil⟩
      | cons hrule _ ih => exact ⟨.cons hrule.1 ih.1, List.forall_mem_cons.2 ⟨hrule.2, ih.2⟩⟩
    · rintro ⟨h, hall⟩
      induction h with
      | nil => exact .nil
      | cons hrule _ ih =>
        obtain ⟨hhead, hrest⟩ := List.forall_mem_cons.1 hall
        exact .cons ⟨hrule, hhead⟩ (ih hrest)
  rw [permissionGroupRulesInputSchema, laws.array_iff]
  constructor
  · rintro ⟨elements, rfl, -, hlargest, hmap⟩
    obtain ⟨hspelled, hall⟩ := hsplit.1 (mapM_eq_some.1 hmap)
    exact ⟨⟨elements, rfl, hspelled⟩, hspelled.length_eq ▸ hlargest, hall⟩
  · rintro ⟨⟨elements, rfl, hspelled⟩, hsize, hall⟩
    exact ⟨elements, rfl, Nat.zero_le _, hspelled.length_eq ▸ hsize, mapM_eq_some.2 (hsplit.2 ⟨hspelled, hall⟩)⟩

/-- The validation answers with rules if and only if the value writes them down and they pass as they are. -/
theorem validatePermissionGroupRules_spelled (laws : zod.Laws utf16Length) (hlazy : Lazy zod permissionRuleConditionSchema)
    {raw : JsonValue} {rules : List PermissionGroupRuleInput} :
    validatePermissionGroupRules zod permissionRuleConditionSchema raw = .ok rules ↔
      (∃ elements, raw = .array elements ∧ List.Forall₂ (fun v rule => SpellsRule rule v) elements rules) ∧
        validateRuleInputs rules = .ok rules := by
  have hparse := @permissionGroupRulesInputSchema_iff zod permissionRuleConditionSchema laws hlazy raw rules
  rw [validateRuleInputs_ok]
  unfold validatePermissionGroupRules
  constructor
  · intro h
    split at h
    · cases h
    · rename_i parsed hparsed
      obtain ⟨rfl, -⟩ := validateParsedRules_ok.1 h
      obtain ⟨hspelled, hinputs⟩ := hparse.1 hparsed
      exact ⟨hspelled, hinputs, h⟩
  · rintro ⟨hspelled, hinputs, h⟩
    rw [hparse.2 ⟨hspelled, hinputs⟩]
    exact h

theorem isRuleInput_iff {rule : PermissionGroupRuleInput} : isRuleInput rule = true ↔
    (∀ id, rule.id = some id → 1 ≤ utf16Length id ∧ utf16Length id ≤ 128) ∧ conditionSchema rule.condition = true := by
  rw [isRuleInput, Bool.and_eq_true]
  refine and_congr_left fun _ => ?_
  cases rule.id <;> simp

/-- The validation answers with rules if and only if the value writes them down and they are in the grammar. -/
theorem validatePermissionGroupRules_ok_iff (laws : zod.Laws utf16Length) (hlazy : Lazy zod permissionRuleConditionSchema)
    (raw : JsonValue) (rules : List PermissionGroupRuleInput) :
    validatePermissionGroupRules zod permissionRuleConditionSchema raw = .ok rules ↔ RulesInGrammar raw rules := by
  rw [validatePermissionGroupRules_spelled laws hlazy, validateRuleInputs_ok, validateParsedRules_ok]
  constructor
  · rintro ⟨hspelled, ⟨hsize, hinputs⟩, -, hids, hissue⟩
    have hrules : ∀ rule ∈ rules, _ := fun rule hrule => isRuleInput_iff.1 (hinputs rule hrule)
    have hconditions := (firstIssue_none_iff rules fun rule hrule => (hrules rule hrule).2).1 hissue
    exact ⟨hspelled, hsize, hids, fun rule hrule => (hrules rule hrule).1, hconditions⟩
  · intro h
    have hschema : ∀ rule ∈ rules, conditionSchema rule.condition = true := fun rule hrule =>
      (conditionSchema_iff _).2 (h.condition rule hrule).node
    have hinputs : ∀ rule ∈ rules, isRuleInput rule = true := fun rule hrule =>
      isRuleInput_iff.2 ⟨h.id rule hrule, hschema rule hrule⟩
    exact ⟨h.spelled, ⟨h.size, hinputs⟩, rfl, h.ids, (firstIssue_none_iff rules hschema).2 h.condition⟩

end

/-! ## A library with the schema -/

/-- The condition schema of the library of parsing functions. -/
def conditionFunction : (functions utf16Length).Schema PermissionRuleCondition :=
  fixed fun self => conditionUnion (functions utf16Length) self

theorem conditionFunction_guarded : Guarded fun self => conditionUnion (functions utf16Length) self :=
  fun _ _ _ hsame => conditionUnion_congr (functions_laws utf16Length) hsame

theorem conditionFunction_lazy : Lazy (functions utf16Length) conditionFunction :=
  fixed_eq conditionFunction_guarded

/-- One rule: any application but one, or an API of two. -/
def submittedRules : JsonValue :=
  .array [.object [("effect", .string "allow"), ("id", .string "rule_a"), ("condition", .object [("operator", .string "or"),
    ("conditions", .array [.object [("field", .string "application"), ("operator", .string "not_equals"), ("value", .string "app")],
      .object [("values", .array [.string "https://api.example.com", .string "https://b.example.com"]),
        ("field", .string "api"), ("operator", .string "in")]])])]]

/-- The rule that they write. -/
def submittedRule : PermissionGroupRuleInput :=
  ⟨some "rule_a", .allow, .group .or [.single .application .notEquals "app",
    .set .api .isIn ["https://api.example.com", "https://b.example.com"]]⟩

theorem validatePermissionGroupRules_submitted :
    validatePermissionGroupRules (functions utf16Length) conditionFunction submittedRules = .ok [submittedRule] ∧
      RulesInGrammar submittedRules [submittedRule] := by
  have hok : validatePermissionGroupRules (functions utf16Length) conditionFunction submittedRules = .ok [submittedRule] := by
    rfl
  exact ⟨hok, (validatePermissionGroupRules_ok_iff (functions_laws utf16Length) conditionFunction_lazy submittedRules
    [submittedRule]).1 hok⟩

end Keyforge.Policy
