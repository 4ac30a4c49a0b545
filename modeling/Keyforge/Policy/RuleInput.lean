/-
The schemas of submitted rules (`oauth/permission-rules.ts`), over a schema library, and what they
accept: the JSON that spells a rule, whose condition keeps the limits of each node. The condition schema
refers to itself; it is any schema that its own definition unfolds to.
-/
import Keyforge.Db.Triggers
import Keyforge.Lib.Schema

namespace Keyforge.Policy

open Lib Db OAuth

/-! ## Schemas -/

def PERMISSION_RULE_EFFECTS : List PermissionRuleEffect := [.allow, .deny]
def PERMISSION_RULE_FIELDS : List PermissionRuleField := [.application, .api, .scope]
def PERMISSION_RULE_SINGLE_OPERATORS : List PermissionRuleSingleOperator := [.equals, .notEquals]
def PERMISSION_RULE_SET_OPERATORS : List PermissionRuleSetOperator := [.isIn, .notIn]

section

variable (zod : SchemaLibrary)

def ruleValueSchema : zod.Schema String :=
  zod.string 1 2048

def singleMatchConditionSchema : zod.Schema PermissionRuleCondition :=
  zod.strictObject <|
    .required "field" (zod.enumeration fieldText PERMISSION_RULE_FIELDS) <|
    .required "operator" (zod.enumeration singleOperatorText PERMISSION_RULE_SINGLE_OPERATORS) <|
    .required "value" (ruleValueSchema zod) <|
    .done fun value operator field => .single field operator value

def setMatchConditionSchema : zod.Schema PermissionRuleCondition :=
  zod.strictObject <|
    .required "field" (zod.enumeration fieldText PERMISSION_RULE_FIELDS) <|
    .required "operator" (zod.enumeration setOperatorText PERMISSION_RULE_SET_OPERATORS) <|
    .required "values" (zod.refine (zod.array (ruleValueSchema zod) 1 MAX_PERMISSION_RULE_SET_VALUES) (·.Nodup)) <|
    .done fun values operator field => .set field operator values

def groupConditionSchema (permissionRuleConditionSchema : zod.Schema PermissionRuleCondition) :
    zod.Schema PermissionRuleCondition :=
  zod.strictObject <|
    .required "operator" (zod.enumeration groupOperatorText [.and, .or]) <|
    .required "conditions" (zod.array permissionRuleConditionSchema 1 MAX_PERMISSION_RULE_CHILDREN) <|
    .done fun conditions operator => .group operator conditions

/-- What `permissionRuleConditionSchema` is, given what it refers to. -/
def conditionUnion (permissionRuleConditionSchema : zod.Schema PermissionRuleCondition) : zod.Schema PermissionRuleCondition :=
  zod.union [singleMatchConditionSchema zod, setMatchConditionSchema zod,
    groupConditionSchema zod permissionRuleConditionSchema]

/-- `z.lazy`: the schema parses what its definition parses. -/
def Lazy (permissionRuleConditionSchema : zod.Schema PermissionRuleCondition) : Prop :=
  ∀ v, zod.safeParse permissionRuleConditionSchema v = zod.safeParse (conditionUnion zod permissionRuleConditionSchema) v

variable (permissionRuleConditionSchema : zod.Schema PermissionRuleCondition)

def ruleInputSchema : zod.Schema PermissionGroupRuleInput :=
  zod.strictObject <|
    .optional "id" (zod.string 1 128) <|
    .required "effect" (zod.enumeration effectText PERMISSION_RULE_EFFECTS) <|
    .required "condition" permissionRuleConditionSchema <|
    .done fun condition effect id => ⟨id, effect, condition⟩

def permissionGroupRulesInputSchema : zod.Schema (List PermissionGroupRuleInput) :=
  zod.array (ruleInputSchema zod permissionRuleConditionSchema) 0 MAX_PERMISSION_GROUP_RULES

/-- `Array.isArray(raw) && raw.length > MAX_PERMISSION_GROUP_RULES`. -/
def tooMany : JsonValue → Bool
  | .array elements => elements.length > MAX_PERMISSION_GROUP_RULES
  | _ => false

def validatePermissionGroupRules (raw : JsonValue) :
    Except PermissionRuleValidationIssue (List PermissionGroupRuleInput) :=
  match zod.safeParse (permissionGroupRulesInputSchema zod permissionRuleConditionSchema) raw with
  | none => .error (if tooMany raw then .tooManyRules else .invalidRule)
  | some rules => validateParsedRules rules

end

/-! ## What they accept -/

mutual

/-- The JSON value writes the condition down. -/
def Spells : PermissionRuleCondition → JsonValue → Prop
  | .single field operator value, v =>
    v.IsObject [("field", .string (fieldText field)), ("operator", .string (singleOperatorText operator)),
      ("value", .string value)]
  | .set field operator values, v =>
    v.IsObject [("field", .string (fieldText field)), ("operator", .string (setOperatorText operator)),
      ("values", .array (values.map .string))]
  | .group operator conditions, v =>
    ∃ children, v.IsObject [("operator", .string (groupOperatorText operator)), ("conditions", .array children)] ∧
      SpellsEach conditions children

def SpellsEach : List PermissionRuleCondition → List JsonValue → Prop
  | [], [] => True
  | condition :: conditions, v :: vs => Spells condition v ∧ SpellsEach conditions vs
  | _, _ => False

end

/-- The JSON value writes the rule down; the id may be left out. -/
def SpellsRule (rule : PermissionGroupRuleInput) (v : JsonValue) : Prop :=
  ∃ condition, Spells rule.condition condition ∧
    v.IsObject (rule.id.toList.map (fun id => ("id", .string id)) ++
      [("effect", .string (effectText rule.effect)), ("condition", condition)])

theorem SpellsEach.length : ∀ {conditions : List PermissionRuleCondition} {vs : List JsonValue}, SpellsEach conditions vs →
    conditions.length = vs.length
  | [], [], _ => rfl
  | _ :: _, _ :: _, h => congrArg (· + 1) (SpellsEach.length h.2)

theorem fieldText_injective : Function.Injective fieldText := by
  intro a b
  cases a <;> cases b <;> simp [fieldText]

theorem singleOperatorText_injective : Function.Injective singleOperatorText := by
  intro a b
  cases a <;> cases b <;> simp [singleOperatorText]

theorem setOperatorText_injective : Function.Injective setOperatorText := by
  intro a b
  cases a <;> cases b <;> simp [setOperatorText]

theorem groupOperatorText_injective : Function.Injective groupOperatorText := by
  intro a b
  cases a <;> cases b <;> simp [groupOperatorText]

theorem effectText_injective : Function.Injective effectText := by
  intro a b
  cases a <;> cases b <;> simp [effectText]

section

variable {zod : SchemaLibrary} {permissionRuleConditionSchema : zod.Schema PermissionRuleCondition} {v : JsonValue}
  {condition : PermissionRuleCondition}

theorem field_iff (laws : zod.Laws utf16Length) {field : PermissionRuleField} :
    zod.safeParse (zod.enumeration fieldText PERMISSION_RULE_FIELDS) v = some field ↔ v = .string (fieldText field) :=
  laws.enumeration_iff fieldText_injective fun field => by cases field <;> decide

theorem ruleValueSchema_iff (laws : zod.Laws utf16Length) {value : String} :
    zod.safeParse (ruleValueSchema zod) v = some value ↔ v = .string value ∧ isRuleValue value = true := by
  rw [ruleValueSchema, laws.string_iff, isRuleValue]
  simp

/-- A parsed list of values spells itself. -/
theorem values_of_mapM (laws : zod.Laws utf16Length) {elements : List JsonValue} {values : List String}
    (h : List.Forall₂ (fun w value => zod.safeParse (ruleValueSchema zod) w = some value) elements values) :
    elements = values.map .string ∧ values.all isRuleValue = true := by
  induction h with
  | nil => exact ⟨rfl, rfl⟩
  | cons hvalue _ ih =>
    obtain ⟨rfl, hlength⟩ := (ruleValueSchema_iff laws).1 hvalue
    obtain ⟨rfl, hall⟩ := ih
    exact ⟨rfl, by rw [List.all_cons, hlength, hall, Bool.and_self]⟩

theorem singleMatchConditionSchema_iff (laws : zod.Laws utf16Length) :
    zod.safeParse (singleMatchConditionSchema zod) v = some condition ↔
      ∃ field operator value, condition = .single field operator value ∧ isRuleValue value = true ∧
        Spells (.single field operator value) v := by
  have hoperator : ∀ {w : JsonValue} {operator : PermissionRuleSingleOperator},
      zod.safeParse (zod.enumeration singleOperatorText PERMISSION_RULE_SINGLE_OPERATORS) w = some operator ↔
        w = .string (singleOperatorText operator) :=
    laws.enumeration_iff singleOperatorText_injective fun operator => by cases operator <;> decide
  rw [singleMatchConditionSchema, laws.strictObject_iff]
  simp only [Shape.parse_required, Shape.parse_done, Shape.keys, field_iff laws, hoperator, ruleValueSchema_iff laws]
  constructor
  · rintro ⟨members, rfl, hkeys, _, hfield, field, rfl, _, ⟨_, hoperator, operator, rfl, _, ⟨_, hvalue, value,
      ⟨rfl, hlength⟩, _, rfl, rfl⟩, rfl⟩, rfl⟩
    refine ⟨field, operator, value, rfl, hlength, JsonValue.isObject_iff.2 ⟨members, rfl, hkeys, ?_⟩⟩
    simp [hfield, hoperator, hvalue, List.lookup_cons]
  · rintro ⟨field, operator, value, rfl, hlength, hspells⟩
    obtain ⟨members, rfl, hkeys, hget⟩ := JsonValue.isObject_iff.1 hspells
    simp only [List.map_cons, List.map_nil, List.forall_mem_cons] at hget
    obtain ⟨hfield, hoperator, hvalue, -⟩ := hget
    exact ⟨members, rfl, hkeys, _, hfield, field, rfl, _, ⟨_, hoperator, operator, rfl, _, ⟨_, hvalue, value,
      ⟨rfl, hlength⟩, _, rfl, rfl⟩, rfl⟩, rfl⟩

theorem setMatchConditionSchema_iff (laws : zod.Laws utf16Length) :
    zod.safeParse (setMatchConditionSchema zod) v = some condition ↔
      ∃ field operator values, condition = .set field operator values ∧ conditionSchema (.set field operator values) = true ∧
        Spells (.set field operator values) v := by
  have hoperator : ∀ {w : JsonValue} {operator : PermissionRuleSetOperator},
      zod.safeParse (zod.enumeration setOperatorText PERMISSION_RULE_SET_OPERATORS) w = some operator ↔
        w = .string (setOperatorText operator) :=
    laws.enumeration_iff setOperatorText_injective fun operator => by cases operator <;> decide
  have hvalues : ∀ {w : JsonValue} {values : List String},
      zod.safeParse (zod.refine (zod.array (ruleValueSchema zod) 1 MAX_PERMISSION_RULE_SET_VALUES) (·.Nodup)) w = some values ↔
        w = .array (values.map .string) ∧ conditionSchema (.set .scope .isIn values) = true := by
    intro w values
    rw [laws.refine, Option.filter_eq_some_iff, laws.array_iff, conditionSchema]
    constructor
    · rintro ⟨⟨elements, rfl, hleast, hlargest, hmap⟩, hnodup⟩
      obtain ⟨rfl, hall⟩ := values_of_mapM laws (mapM_eq_some.1 hmap)
      rw [List.length_map] at hleast hlargest
      simp [hall, hleast, hlargest, of_decide_eq_true hnodup]
    · rintro ⟨rfl, hschema⟩
      simp only [Bool.and_eq_true, List.all_eq_true, decide_eq_true_eq] at hschema
      obtain ⟨⟨⟨hall, hleast⟩, hlargest⟩, hnodup⟩ := hschema
      refine ⟨⟨_, rfl, by rwa [List.length_map], by rwa [List.length_map], mapM_eq_some.2 ?_⟩, decide_eq_true hnodup⟩
      rw [List.forall₂_map_left_iff, List.forall₂_same]
      exact fun value hvalue => (ruleValueSchema_iff laws).2 ⟨rfl, hall value hvalue⟩
  rw [setMatchConditionSchema, laws.strictObject_iff]
  simp only [Shape.parse_required, Shape.parse_done, Shape.keys, field_iff laws, hoperator, hvalues]
  constructor
  · rintro ⟨members, rfl, hkeys, _, hfield, field, rfl, _, ⟨_, hoperator, operator, rfl, _, ⟨_, hvalue, values,
      ⟨rfl, hschema⟩, _, rfl, rfl⟩, rfl⟩, rfl⟩
    refine ⟨field, operator, values, rfl, hschema, JsonValue.isObject_iff.2 ⟨members, rfl, hkeys, ?_⟩⟩
    simp [hfield, hoperator, hvalue, List.lookup_cons]
  · rintro ⟨field, operator, values, rfl, hschema, hspells⟩
    obtain ⟨members, rfl, hkeys, hget⟩ := JsonValue.isObject_iff.1 hspells
    simp only [List.map_cons, List.map_nil, List.forall_mem_cons] at hget
    obtain ⟨hfield, hoperator, hvalue, -⟩ := hget
    exact ⟨members, rfl, hkeys, _, hfield, field, rfl, _, ⟨_, hoperator, operator, rfl, _, ⟨_, hvalue, values,
      ⟨rfl, hschema⟩, _, rfl, rfl⟩, rfl⟩, rfl⟩

theorem groupConditionSchema_iff (laws : zod.Laws utf16Length) :
    zod.safeParse (groupConditionSchema zod permissionRuleConditionSchema) v = some condition ↔
      ∃ operator conditions children, condition = .group operator conditions ∧
        v.IsObject [("operator", .string (groupOperatorText operator)), ("conditions", .array children)] ∧
        1 ≤ children.length ∧ children.length ≤ MAX_PERMISSION_RULE_CHILDREN ∧
        List.Forall₂ (fun w child => zod.safeParse permissionRuleConditionSchema w = some child) children conditions := by
  have hoperator : ∀ {w : JsonValue} {operator : PermissionRuleGroupOperator},
      zod.safeParse (zod.enumeration groupOperatorText [.and, .or]) w = some operator ↔
        w = .string (groupOperatorText operator) :=
    laws.enumeration_iff groupOperatorText_injective fun operator => by cases operator <;> decide
  rw [groupConditionSchema, laws.strictObject_iff]
  simp only [Shape.parse_required, Shape.parse_done, Shape.keys, hoperator, laws.array_iff, mapM_eq_some]
  constructor
  · rintro ⟨members, rfl, hkeys, _, hoperator, operator, rfl, _, ⟨_, hconditions, conditions, ⟨children, rfl, hleast,
      hlargest, hmap⟩, _, rfl, rfl⟩, rfl⟩
    refine ⟨operator, conditions, children, rfl, JsonValue.isObject_iff.2 ⟨members, rfl, hkeys, ?_⟩, hleast, hlargest, hmap⟩
    simp [hoperator, hconditions, List.lookup_cons]
  · rintro ⟨operator, conditions, children, rfl, hobject, hleast, hlargest, hmap⟩
    obtain ⟨members, rfl, hkeys, hget⟩ := JsonValue.isObject_iff.1 hobject
    simp only [List.map_cons, List.map_nil, List.forall_mem_cons] at hget
    obtain ⟨hoperator, hconditions, -⟩ := hget
    exact ⟨members, rfl, hkeys, _, hoperator, operator, rfl, _, ⟨_, hconditions, conditions, ⟨children, rfl, hleast,
      hlargest, hmap⟩, _, rfl, rfl⟩, rfl⟩

/-- The operator of a spelled condition tells which of the three schemas it is for. -/
theorem conditionUnion_iff (laws : zod.Laws utf16Length) :
    zod.safeParse (conditionUnion zod permissionRuleConditionSchema) v = some condition ↔
      zod.safeParse (singleMatchConditionSchema zod) v = some condition ∨
        zod.safeParse (setMatchConditionSchema zod) v = some condition ∨
        zod.safeParse (groupConditionSchema zod permissionRuleConditionSchema) v = some condition := by
  -- the alternatives differ in the operators they take
  have hkey : ∀ {shape shape' : List (String × JsonValue)}, v.IsObject shape → v.IsObject shape' →
      shape.lookup "operator" = shape'.lookup "operator" := by
    rintro shape shape' ⟨members, hv, hget⟩ h'
    rw [← hget, h'.get hv]
  have hsingle_set : ∀ {a b}, zod.safeParse (singleMatchConditionSchema zod) v = some a →
      zod.safeParse (setMatchConditionSchema zod) v = some b → False := by
    intro a b ha hb
    obtain ⟨_, operator, _, -, -, hspells⟩ := (singleMatchConditionSchema_iff laws).1 ha
    obtain ⟨_, operator', _, -, -, hspells'⟩ := (setMatchConditionSchema_iff laws).1 hb
    have heq := hkey hspells hspells'
    cases operator <;> cases operator' <;> simp [List.lookup_cons, singleOperatorText, setOperatorText] at heq
  have hsingle_group : ∀ {a b}, zod.safeParse (singleMatchConditionSchema zod) v = some a →
      zod.safeParse (groupConditionSchema zod permissionRuleConditionSchema) v = some b → False := by
    intro a b ha hb
    obtain ⟨_, operator, _, -, -, hspells⟩ := (singleMatchConditionSchema_iff laws).1 ha
    obtain ⟨operator', _, _, -, hspells', -⟩ := (groupConditionSchema_iff laws).1 hb
    have heq := hkey hspells hspells'
    cases operator <;> cases operator' <;> simp [List.lookup_cons, singleOperatorText, groupOperatorText] at heq
  have hset_group : ∀ {a b}, zod.safeParse (setMatchConditionSchema zod) v = some a →
      zod.safeParse (groupConditionSchema zod permissionRuleConditionSchema) v = some b → False := by
    intro a b ha hb
    obtain ⟨_, operator, _, -, -, hspells⟩ := (setMatchConditionSchema_iff laws).1 ha
    obtain ⟨operator', _, _, -, hspells', -⟩ := (groupConditionSchema_iff laws).1 hb
    have heq := hkey hspells hspells'
    cases operator <;> cases operator' <;> simp [List.lookup_cons, setOperatorText, groupOperatorText] at heq
  rw [conditionUnion, laws.union]
  simp only [List.findSome?_cons, List.findSome?_nil]
  -- so at most one of the three answers
  cases hsingle : zod.safeParse (singleMatchConditionSchema zod) v with
  | some a =>
    have hset : zod.safeParse (setMatchConditionSchema zod) v = none :=
      Option.eq_none_iff_forall_not_mem.2 fun b hb => hsingle_set hsingle hb
    have hgroup : zod.safeParse (groupConditionSchema zod permissionRuleConditionSchema) v = none :=
      Option.eq_none_iff_forall_not_mem.2 fun b hb => hsingle_group hsingle hb
    simp [hset, hgroup]
  | none =>
    cases hset : zod.safeParse (setMatchConditionSchema zod) v with
    | some b =>
      have hgroup : zod.safeParse (groupConditionSchema zod permissionRuleConditionSchema) v = none :=
        Option.eq_none_iff_forall_not_mem.2 fun c hc => hset_group hset hc
      simp [hgroup]
    | none => cases zod.safeParse (groupConditionSchema zod permissionRuleConditionSchema) v <;> simp

/-- The condition schema looks only at the children of a group, which are smaller. -/
theorem conditionUnion_congr (laws : zod.Laws utf16Length) {s s' : zod.Schema PermissionRuleCondition}
    (hsame : ∀ u, u.size < v.size → zod.safeParse s u = zod.safeParse s' u) :
    zod.safeParse (conditionUnion zod s) v = zod.safeParse (conditionUnion zod s') v := by
  have hgroup : zod.safeParse (groupConditionSchema zod s) v = zod.safeParse (groupConditionSchema zod s') v := by
    ext condition
    simp only [groupConditionSchema_iff laws]
    refine exists_congr fun operator => exists_congr fun conditions => exists_congr fun children =>
      and_congr_right fun _ => and_congr_right fun hobject => and_congr_right fun _ => and_congr_right fun _ => ?_
    refine forall₂_congr_left fun w hw child => ?_
    have harray : (JsonValue.array children).size < v.size := @JsonValue.IsObject.size_lt _ _ _ "conditions" hobject rfl
    rw [hsame w (Nat.lt_trans (JsonValue.size_element_lt hw) harray)]
  ext condition
  rw [conditionUnion_iff laws, conditionUnion_iff laws, hgroup]

mutual

/-- The condition schema accepts the JSON that spells a condition within the limits of each node. -/
theorem permissionRuleConditionSchema_iff (laws : zod.Laws utf16Length) (hlazy : Lazy zod permissionRuleConditionSchema) :
    ∀ (condition : PermissionRuleCondition) (v : JsonValue), zod.safeParse permissionRuleConditionSchema v = some condition ↔
      Spells condition v ∧ conditionSchema condition = true
  | .single field operator value, v => by
    rw [hlazy, conditionUnion_iff laws, singleMatchConditionSchema_iff laws, setMatchConditionSchema_iff laws,
      groupConditionSchema_iff laws, conditionSchema]
    simp [and_comm]
  | .set field operator values, v => by
    rw [hlazy, conditionUnion_iff laws, singleMatchConditionSchema_iff laws, setMatchConditionSchema_iff laws,
      groupConditionSchema_iff laws]
    simp [and_comm]
  | .group operator conditions, v => by
    rw [hlazy, conditionUnion_iff laws, singleMatchConditionSchema_iff laws, setMatchConditionSchema_iff laws,
      groupConditionSchema_iff laws, conditionSchema, Spells]
    simp only [reduceCtorEq, false_and, exists_false, false_or, PermissionRuleCondition.group.injEq, Bool.and_eq_true,
      decide_eq_true_eq]
    constructor
    · rintro ⟨_, _, children, ⟨rfl, rfl⟩, hobject, hleast, hlargest, hmap⟩
      obtain ⟨heach, hschemas⟩ := (conditionSchemas_iff laws hlazy conditions children).1 hmap
      rw [heach.length]
      exact ⟨⟨children, hobject, heach⟩, ⟨hschemas, hleast⟩, hlargest⟩
    · rintro ⟨⟨children, hobject, heach⟩, ⟨hschemas, hleast⟩, hlargest⟩
      rw [heach.length] at hleast hlargest
      exact ⟨operator, conditions, children, ⟨rfl, rfl⟩, hobject, hleast, hlargest,
        (conditionSchemas_iff laws hlazy conditions children).2 ⟨heach, hschemas⟩⟩

theorem conditionSchemas_iff (laws : zod.Laws utf16Length) (hlazy : Lazy zod permissionRuleConditionSchema) :
    ∀ (conditions : List PermissionRuleCondition) (vs : List JsonValue),
      List.Forall₂ (fun v condition => zod.safeParse permissionRuleConditionSchema v = some condition) vs conditions ↔
        SpellsEach conditions vs ∧ conditionSchemas conditions = true
  | [], vs => by
    rw [List.forall₂_nil_right_iff, conditionSchemas]
    cases vs with
    | nil => simp [SpellsEach]
    | cons v vs => simp [SpellsEach]
  | condition :: conditions, [] => by simp [SpellsEach]
  | condition :: conditions, v :: vs => by
    rw [List.forall₂_cons, permissionRuleConditionSchema_iff laws hlazy condition v,
      conditionSchemas_iff laws hlazy conditions vs, conditionSchemas, SpellsEach, Bool.and_eq_true]
    exact and_and_and_comm

end

/-- A rule schema accepts the JSON that spells a rule within its limits. -/
theorem ruleInputSchema_iff (laws : zod.Laws utf16Length) (hlazy : Lazy zod permissionRuleConditionSchema)
    {rule : PermissionGroupRuleInput} : zod.safeParse (ruleInputSchema zod permissionRuleConditionSchema) v = some rule ↔
      SpellsRule rule v ∧ isRuleInput rule = true := by
  have heffect : ∀ {w : JsonValue} {effect : PermissionRuleEffect},
      zod.safeParse (zod.enumeration effectText PERMISSION_RULE_EFFECTS) w = some effect ↔ w = .string (effectText effect) :=
    laws.enumeration_iff effectText_injective fun effect => by cases effect <;> decide
  rw [ruleInputSchema, laws.strictObject_iff]
  simp only [Shape.parse_required, Shape.parse_optional, Shape.parse_done, Shape.keys, heffect, laws.string_iff,
    permissionRuleConditionSchema_iff laws hlazy]
  obtain ⟨id, effect, condition⟩ := rule
  unfold SpellsRule isRuleInput
  dsimp only
  rw [Bool.and_eq_true]
  constructor
  · rintro ⟨members, rfl, hkeys, id', hid, _, ⟨_, heffect, effect', rfl, _, ⟨w, hcondition, condition',
      ⟨hspells, hschema⟩, _, rfl, rfl⟩, rfl⟩, heq⟩
    cases heq
    cases hget : JsonValue.get "id" members with
    | none =>
      rw [hget] at hid
      have hid : id = none := hid
      subst hid
      refine ⟨⟨w, hspells, JsonValue.isObject_iff.2 ⟨members, rfl, fun m hm => ?_, ?_⟩⟩, rfl, hschema⟩
      · rcases List.mem_cons.1 (hkeys m hm) with hkey | hkey
        · -- a member under `id` would have been found
          have hsome := JsonValue.get_isSome.2 (List.mem_map_of_mem hm)
          rw [hkey, hget] at hsome
          cases hsome
        · exact hkey
      · simp [heffect, hcondition, List.lookup_cons]
    | some u =>
      rw [hget] at hid
      obtain ⟨s, ⟨rfl, hleast, hlargest⟩, rfl⟩ := hid
      refine ⟨⟨w, hspells, JsonValue.isObject_iff.2 ⟨members, rfl, hkeys, ?_⟩⟩, ?_, hschema⟩
      · simp [hget, heffect, hcondition, List.lookup_cons]
      · simp [hleast, hlargest]
  · rintro ⟨⟨w, hspells, hobject⟩, hid, hschema⟩
    obtain ⟨members, rfl, hkeys, hget⟩ := JsonValue.isObject_iff.1 hobject
    have hall := hobject.get rfl
    refine ⟨members, rfl, fun m hm => ?_, id, ?_, _, ⟨_, ?_, effect, rfl, _, ⟨w, ?_, condition, ⟨hspells, hschema⟩, _, rfl,
      rfl⟩, rfl⟩, rfl⟩
    · have hkey := hkeys m hm
      cases id <;> simp at hkey ⊢ <;> tauto
    · rw [hall]
      cases id with
      | none => rfl
      | some s =>
        have hlength : 1 ≤ utf16Length s ∧ utf16Length s ≤ 128 := by simpa using hid
        exact ⟨s, ⟨rfl, hlength⟩, rfl⟩
    · rw [hall]
      cases id <;> rfl
    · rw [hall]
      cases id <;> rfl

end

end Keyforge.Policy
