/-
What the policy decides, without its order of evaluation. A stage of a request is granted when some
allow rule of the user applies whose priority is below that of every deny rule that applies; access
is granted when every stored rule of the user is valid and every stage is.
-/
import Keyforge.OAuth.UserTokenPolicy

namespace Keyforge.Policy

open Lib Db OAuth

/-! ## One stage -/

/-- The condition belongs to the stage and matches there. -/
def applies (context : PermissionRuleContext) (stage : PermissionRuleStage) (condition : PermissionRuleCondition) : Bool :=
  conditionUsesScope condition = decide (stage = .scope) && permissionRuleMatches context condition

theorem min?_le {l : List Nat} {m : Nat} (h : l.min? = some m) {a : Nat} (ha : a ∈ l) : m ≤ a :=
  (List.min?_eq_some_iff.1 h).2 a ha

/-- The rules allow a stage exactly when an allow rule undercuts every deny rule. -/
theorem resolve_allowed_iff {rules : List EffectivePermissionRule} {context : PermissionRuleContext}
    {stage : PermissionRuleStage} :
    (∃ priority, resolvePermissionRules rules context stage = .allowed priority) ↔
      ∃ a ∈ rules, applies context stage a.condition = true ∧ a.effect = .allow ∧
        ∀ d ∈ rules, applies context stage d.condition = true → d.effect = .deny → a.priority < d.priority := by
  have hmem : ∀ r, r ∈ rules.filter (fun r => applies context stage r.condition) ↔
      r ∈ rules ∧ applies context stage r.condition = true := fun _ => List.mem_filter
  have hfilter : (rules.filter fun rule => conditionUsesScope rule.condition = decide (stage = .scope) &&
      permissionRuleMatches context rule.condition) = rules.filter fun r => applies context stage r.condition := rfl
  unfold resolvePermissionRules
  rw [hfilter]
  dsimp only
  generalize rules.filter (fun r => applies context stage r.condition) = matching at hmem ⊢
  -- the least priority among the rules that apply
  cases hmin : (matching.map (·.priority)).min? with
  | none =>
    rw [List.min?_eq_none_iff, List.map_eq_nil_iff] at hmin
    subst hmin
    simp only [reduceCtorEq, exists_false, false_iff]
    rintro ⟨a, ha, happ, -⟩
    exact List.not_mem_nil ((hmem a).2 ⟨ha, happ⟩)
  | some priority =>
    obtain ⟨w, hw, hpw⟩ := List.mem_map.1 (List.min?_eq_some_iff.1 hmin).1
    have hle : ∀ r ∈ matching, priority ≤ r.priority := fun r hr => min?_le hmin (List.mem_map.2 ⟨r, hr, rfl⟩)
    have hdeny : (matching.filter (·.priority = priority)).any (·.effect = .deny) = true ↔
        ∃ d ∈ matching, d.priority = priority ∧ d.effect = .deny := by
      simp [List.any_eq_true]
    dsimp only
    split
    -- a deny rule has that priority
    · rename_i h
      obtain ⟨d, hd, hpd, heff⟩ := hdeny.1 h
      simp only [reduceCtorEq, exists_false, false_iff]
      rintro ⟨a, ha, happ, -, hbelow⟩
      have := hbelow d ((hmem d).1 hd).1 ((hmem d).1 hd).2 heff
      have := hle a ((hmem a).2 ⟨ha, happ⟩)
      omega
    -- none has: the rule that attains it allows
    · rename_i h
      refine iff_of_true ⟨priority, rfl⟩ ⟨w, ((hmem w).1 hw).1, ((hmem w).1 hw).2, ?_, fun d hd happ heff => ?_⟩
      · cases heff : w.effect with
        | allow => rfl
        | deny => exact absurd (hdeny.2 ⟨w, hw, hpw, heff⟩) h
      · have hd := (hmem d).2 ⟨hd, happ⟩
        have hne : d.priority ≠ priority := fun he => h (hdeny.2 ⟨d, hd, he, heff⟩)
        have := hle d hd
        have hpw : w.priority = priority := hpw
        omega

/-! ## The user's rules -/

/-- A stored rule that parses and validates. -/
def validRow (r : PermissionGroupRuleRow) : Bool :=
  r.condition.any validatePermissionGroupRule

/-- The rule, as a rule of its group. -/
def effectiveRule (row : GroupRow × Option PermissionGroupRuleRow) : Option EffectivePermissionRule :=
  row.2.bind fun r => r.condition.map fun condition =>
    ⟨r.id, r.effect, condition, row.1.id, row.1.name, row.1.priority⟩

/-- What the loop collects of valid rows. -/
theorem collectRules_of_valid : ∀ (rows : List (GroupRow × Option PermissionGroupRuleRow)) (adminMember : Bool)
    (rules : List EffectivePermissionRule), (∀ row ∈ rows, ∀ r, row.2 = some r → validRow r = true) →
      collectRules adminMember rules rows =
        ⟨true, adminMember || rows.any (·.1.name = "admins"), rules ++ rows.filterMap effectiveRule⟩
  | [], adminMember, rules, _ => by simp [collectRules]
  | (g, none) :: rows, adminMember, rules, h => by
    rw [collectRules, collectRules_of_valid rows _ _ fun row hr => h row (List.mem_cons_of_mem _ hr)]
    simp [effectiveRule, Bool.or_assoc]
  | (g, some r) :: rows, adminMember, rules, h => by
    obtain ⟨condition, hc, hvalid⟩ := (Option.any_eq_true _ _).1 (h _ List.mem_cons_self r rfl)
    have hschema : conditionSchema condition = true := by
      unfold validatePermissionGroupRule at hvalid
      simp only [Bool.and_eq_true] at hvalid
      exact hvalid.1.1.1
    rw [collectRules, hc, Option.filter_some, if_pos hschema]
    dsimp only
    rw [if_pos hvalid, collectRules_of_valid rows _ _ fun row hr => h row (List.mem_cons_of_mem _ hr)]
    simp [effectiveRule, hc, Bool.or_assoc]

/-- One row that is not valid makes the policy invalid. -/
theorem collectRules_of_invalid : ∀ (rows : List (GroupRow × Option PermissionGroupRuleRow)) (adminMember : Bool)
    (rules : List EffectivePermissionRule), (collectRules adminMember rules rows).valid = true →
      ∀ row ∈ rows, ∀ r, row.2 = some r → validRow r = true
  | [], _, _, _, _, hrow, _, _ => (List.not_mem_nil hrow).elim
  | (g, none) :: rows, adminMember, rules, h, row, hrow, r, hr => by
    rcases List.mem_cons.1 hrow with rfl | hrow
    · cases hr
    · rw [collectRules] at h
      exact collectRules_of_invalid rows _ _ h row hrow r hr
  | (g, some r') :: rows, adminMember, rules, h, row, hrow, r, hr => by
    rw [collectRules] at h
    split at h
    · cases h
    · rename_i condition hc
      split at h
      · rename_i hvalid
        rcases List.mem_cons.1 hrow with rfl | hrow
        · cases hr
          exact (Option.any_eq_true _ _).2 ⟨condition, (Option.filter_eq_some_iff.1 hc).1, hvalid⟩
        · exact collectRules_of_invalid rows _ _ h row hrow r hr
      · cases h

/-- The user's groups. -/
def UserGroup (db : Database) (userId : String) (g : GroupRow) : Prop :=
  ∃ m ∈ db.userGroups, m.userId = userId ∧ db.groups.get? m.groupId = some g

/-- The stored rules of the user's groups. -/
def UserRule (db : Database) (userId : String) (g : GroupRow) (r : PermissionGroupRuleRow) : Prop :=
  UserGroup db userId g ∧ r ∈ db.permissionGroupRules ∧ r.groupId = g.id

theorem mem_userGroups {db : Database} {userId : String} {g : GroupRow} :
    g ∈ (db.userGroups.select (·.userId = userId)).filterMap (fun m => db.groups.get? m.groupId) ↔ UserGroup db userId g := by
  simp only [List.mem_filterMap, Table.mem_select, decide_eq_true_eq, UserGroup, and_assoc]

theorem mem_policyRows {db : Database} {userId : String} {row : GroupRow × Option PermissionGroupRuleRow} :
    row ∈ policyRows db userId ↔ UserGroup db userId row.1 ∧ row ∈
      (match db.permissionGroupRules.select (·.groupId = row.1.id) with
        | [] => [(row.1, none)]
        | rules => rules.map fun r => (row.1, some r)) := by
  unfold policyRows
  dsimp only
  rw [List.mem_insertionSort, List.mem_flatMap]
  constructor
  · rintro ⟨g, hg, hrow⟩
    have hfst : row.1 = g := by
      split at hrow
      · rw [List.mem_singleton.1 hrow]
      · obtain ⟨r, -, rfl⟩ := List.mem_map.1 hrow
        rfl
    rw [hfst]
    exact ⟨mem_userGroups.1 hg, hrow⟩
  · rintro ⟨hg, hrow⟩
    exact ⟨row.1, mem_userGroups.2 hg, hrow⟩

theorem mem_policyRows_some {db : Database} {userId : String} {g : GroupRow} {r : PermissionGroupRuleRow} :
    (g, some r) ∈ policyRows db userId ↔ UserRule db userId g r := by
  rw [mem_policyRows]
  have hselect : r ∈ db.permissionGroupRules.select (·.groupId = g.id) ↔ r ∈ db.permissionGroupRules ∧ r.groupId = g.id := by
    simp
  refine and_congr_right fun _ => ?_
  rw [← hselect]
  dsimp only
  split
  · rename_i hnil
    simp [hnil]
  · simp

/-- The policy is valid exactly when every stored rule of the user is. -/
theorem valid_iff {db : Database} {userId : String} :
    (getUserPermissionRules db userId).valid = true ↔ ∀ g r, UserRule db userId g r → validRow r = true := by
  constructor
  · intro h g r hrule
    exact collectRules_of_invalid _ _ _ h _ (mem_policyRows_some.2 hrule) r rfl
  · intro h
    rw [getUserPermissionRules, collectRules_of_valid]
    rintro ⟨g, row⟩ hrow r rfl
    exact h g r (mem_policyRows_some.1 hrow)

/-! ## The decision -/

def requestContext (input : UserTokenAccessInput) : PermissionRuleContext :=
  { application := input.clientId, api := input.resourceUri, scope := input.scopes.eraseDups.headD "" }

/-- The stages of a request: the base stage, and one for every custom scope. -/
def StageOf (input : UserTokenAccessInput) (context : PermissionRuleContext) (stage : PermissionRuleStage) : Prop :=
  (context = requestContext input ∧ stage = .base) ∨
    ∃ scope ∈ input.scopes, isResourceAuthorizedScope scope = false ∧
      context = { requestContext input with scope } ∧ stage = .scope

theorem scopeDenial_eq_none {rules : List EffectivePermissionRule} {context : PermissionRuleContext} :
    ∀ {scopes : List String}, scopeDenial rules context scopes = none ↔
      ∀ scope ∈ scopes, isResourceAuthorizedScope scope = false →
        ∃ priority, resolvePermissionRules rules { context with scope } .scope = .allowed priority
  | [] => by simp [scopeDenial]
  | scope :: scopes => by
    rw [scopeDenial, List.forall_mem_cons]
    cases hstandard : isResourceAuthorizedScope scope with
    | true => simpa using scopeDenial_eq_none
    | false =>
      simp only [Bool.false_eq_true, if_false, true_implies]
      split
      · rename_i priority hres
        simpa [hres] using scopeDenial_eq_none
      · rename_i hres
        simp [hres]
      · rename_i hres
        simp [hres]

/-- A policy allows a request when it is valid, its administrators ask for the administrators' scopes, and
its rules allow every stage. -/
theorem decideAccess_eq_none {env : Env} (hyolo : env.yolo = false) {policy : UserPermissionRules}
    {input : UserTokenAccessInput} : decideAccess env policy input = none ↔ policy.valid = true ∧
      ((∃ scope ∈ input.scopes, scope ∈ ADMIN_SCOPES) → policy.adminMember = true) ∧
      ∀ context stage, StageOf input context stage →
        ∃ priority, resolvePermissionRules policy.rules context stage = .allowed priority := by
  have hneeds : input.scopes.eraseDups.any ADMIN_SCOPES.contains = true ↔ ∃ scope ∈ input.scopes, scope ∈ ADMIN_SCOPES := by
    simp [List.any_eq_true, List.mem_eraseDups]
  have hstages := @scopeDenial_eq_none policy.rules (requestContext input) input.scopes.eraseDups
  unfold requestContext at hstages
  unfold decideAccess
  rw [hyolo, if_neg Bool.false_ne_true]
  -- an invalid policy denies everything
  by_cases hvalid : policy.valid = true
  swap
  · rw [if_pos (by simpa using hvalid)]
    exact iff_of_false nofun fun h => hvalid h.1
  rw [if_neg (by simpa using hvalid)]
  dsimp only
  constructor
  · intro hnone
    split at hnone
    swap
    · cases hnone
    rename_i priority hbase
    split at hnone
    · cases hnone
    rename_i hadmin
    refine ⟨hvalid, fun hn => ?_, ?_⟩
    · simpa [hneeds.2 hn] using hadmin
    -- the base stage, then one stage for each custom scope
    · rintro context stage (⟨rfl, rfl⟩ | ⟨scope, hscope, hcustom, rfl, rfl⟩)
      · exact ⟨priority, hbase⟩
      · exact hstages.1 hnone scope (List.mem_eraseDups.2 hscope) hcustom
  · rintro ⟨-, hadmin, hall⟩
    obtain ⟨priority, hbase⟩ := hall _ _ (Or.inl ⟨rfl, rfl⟩)
    unfold requestContext at hbase
    rw [hbase]
    dsimp only
    rw [if_neg, hstages]
    · intro scope hscope hcustom
      exact hall _ _ (Or.inr ⟨scope, List.mem_eraseDups.1 hscope, hcustom, rfl, rfl⟩)
    · intro hdenied
      rw [Bool.and_eq_true, Bool.not_eq_true'] at hdenied
      rw [hadmin (hneeds.1 hdenied.1)] at hdenied
      cases hdenied.2

end Keyforge.Policy
