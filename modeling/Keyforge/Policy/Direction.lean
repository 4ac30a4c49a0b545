/-
What access depends on. A stage is allowed when an allow rule of it undercuts its deny rules, so only the
members of the rule list count, allow rules can only help and deny rules can only hurt. The base stage is
evaluated with whichever scope comes first, but its rules mention no scope, so only the members of the
scope list count either, and fewer scopes ask for less.
-/
import Keyforge.Deployment
import Keyforge.Policy.Decision

namespace Keyforge.Policy

open Lib Db OAuth

/-! ## Conditions that mention no scope -/

mutual

/-- A condition without a scope leaf does not read the scope. -/
theorem permissionRuleMatches_scope (context : PermissionRuleContext) (scope : String) : ∀ condition,
    conditionUsesScope condition = false →
      permissionRuleMatches { context with scope } condition = permissionRuleMatches context condition
  | .single field operator value, h => by
    rw [conditionUsesScope, decide_eq_false_iff_not] at h
    cases field with
    | scope => exact absurd rfl h
    | application => cases operator <;> rfl
    | api => cases operator <;> rfl
  | .set field operator values, h => by
    rw [conditionUsesScope, decide_eq_false_iff_not] at h
    cases field with
    | scope => exact absurd rfl h
    | application => cases operator <;> rfl
    | api => cases operator <;> rfl
  | .group .and conditions, h => everyMatches_scope context scope conditions h
  | .group .or conditions, h => someMatches_scope context scope conditions h

theorem everyMatches_scope (context : PermissionRuleContext) (scope : String) : ∀ conditions,
    conditionsUseScope conditions = false → everyMatches { context with scope } conditions = everyMatches context conditions
  | [], _ => rfl
  | condition :: conditions, h => by
    rw [conditionsUseScope, Bool.or_eq_false_iff] at h
    rw [everyMatches, everyMatches, permissionRuleMatches_scope context scope condition h.1,
      everyMatches_scope context scope conditions h.2]

theorem someMatches_scope (context : PermissionRuleContext) (scope : String) : ∀ conditions,
    conditionsUseScope conditions = false → someMatches { context with scope } conditions = someMatches context conditions
  | [], _ => rfl
  | condition :: conditions, h => by
    rw [conditionsUseScope, Bool.or_eq_false_iff] at h
    rw [someMatches, someMatches, permissionRuleMatches_scope context scope condition h.1,
      someMatches_scope context scope conditions h.2]

end

/-- What applies at the base stage does not depend on the scope. -/
theorem applies_base (context : PermissionRuleContext) (scope : String) (condition : PermissionRuleCondition) :
    applies { context with scope } .base condition = applies context .base condition := by
  unfold applies
  cases h : conditionUsesScope condition with
  | true => rfl
  | false => rw [permissionRuleMatches_scope context scope condition h]

/-! ## One stage -/

/-- The rules allow a stage. -/
def Allows (rules : List EffectivePermissionRule) (context : PermissionRuleContext) (stage : PermissionRuleStage) : Prop :=
  ∃ priority, resolvePermissionRules rules context stage = .allowed priority

section

variable {rules rules' : List EffectivePermissionRule} {context : PermissionRuleContext} {stage : PermissionRuleStage}

/-- More allow rules and fewer deny rules allow more. -/
theorem Allows.mono (h : Allows rules context stage) (hallow : ∀ a ∈ rules, a.effect = .allow → a ∈ rules')
    (hdeny : ∀ d ∈ rules', d.effect = .deny → d ∈ rules) : Allows rules' context stage := by
  obtain ⟨a, ha, happ, heff, hbelow⟩ := resolve_allowed_iff.1 h
  exact resolve_allowed_iff.2 ⟨a, hallow a ha heff, happ, heff, fun d hd hdapp hdeff =>
    hbelow d (hdeny d hd hdeff) hdapp hdeff⟩

/-- The base stage does not depend on the scope in its context. -/
theorem resolve_base_scope (scope : String) :
    resolvePermissionRules rules { context with scope } .base = resolvePermissionRules rules context .base := by
  have hfilter : rules.filter (fun r => applies { context with scope } .base r.condition) =
      rules.filter fun r => applies context .base r.condition :=
    List.filter_congr fun r _ => applies_base context scope r.condition
  unfold applies at hfilter
  rw [resolvePermissionRules, resolvePermissionRules, hfilter]

theorem mem_insert {pre post : List EffectivePermissionRule} {rule r : EffectivePermissionRule} :
    r ∈ pre ++ rule :: post ↔ r = rule ∨ r ∈ pre ++ post := by
  rw [List.mem_append, List.mem_cons, List.mem_append]
  tauto

/-- One more allow rule keeps what is allowed. -/
theorem Allows.insert {pre post : List EffectivePermissionRule} {rule : EffectivePermissionRule} (hallow : rule.effect = .allow)
    (h : Allows (pre ++ post) context stage) : Allows (pre ++ rule :: post) context stage := by
  refine h.mono (fun a ha _ => mem_insert.2 (Or.inr ha)) fun d hd hdeny => ?_
  rcases mem_insert.1 hd with rfl | hd
  · rw [hallow] at hdeny
    cases hdeny
  · exact hd

/-- Without a deny rule, what was allowed still is. -/
theorem Allows.remove {pre post : List EffectivePermissionRule} {rule : EffectivePermissionRule} (hdeny : rule.effect = .deny)
    (h : Allows (pre ++ rule :: post) context stage) : Allows (pre ++ post) context stage := by
  refine h.mono (fun a ha hallow => ?_) fun d hd _ => mem_insert.2 (Or.inr hd)
  rcases mem_insert.1 ha with rfl | ha
  · rw [hdeny] at hallow
    cases hallow
  · exact ha

end

/-! ## The decision -/

/-- What is allowed stays allowed for no more scopes, under rules that allow no less. -/
theorem decideAccess_mono {env : Env} {adminMember : Bool} {rules rules' : List EffectivePermissionRule}
    {userId clientId resourceUri : String} {scopes scopes' : List String} (hscopes : scopes' ⊆ scopes)
    (hrules : ∀ context stage, Allows rules context stage → Allows rules' context stage)
    (h : decideAccess env ⟨true, adminMember, rules⟩ ⟨userId, clientId, resourceUri, scopes⟩ = none) :
    decideAccess env ⟨true, adminMember, rules'⟩ ⟨userId, clientId, resourceUri, scopes'⟩ = none := by
  cases hyolo : env.yolo with
  | true => rw [decideAccess, if_pos hyolo]
  | false =>
    obtain ⟨-, hadmin, hall⟩ := (decideAccess_eq_none hyolo).1 h
    have hbase : Allows rules' ⟨clientId, resourceUri, scopes.eraseDups.headD ""⟩ .base :=
      hrules _ _ (hall _ _ (Or.inl ⟨rfl, rfl⟩))
    refine (decideAccess_eq_none hyolo).2 ⟨rfl, fun ⟨scope, hs, hneeds⟩ => hadmin ⟨scope, hscopes hs, hneeds⟩, ?_⟩
    rintro context stage (⟨rfl, rfl⟩ | ⟨scope, hs, hcustom, rfl, rfl⟩)
    · -- the base stage, with another first scope
      obtain ⟨priority, hbase⟩ := hbase
      exact ⟨priority, (resolve_base_scope (scopes'.eraseDups.headD "")).trans hbase⟩
    · exact hrules _ _ (hall _ _ (Or.inr ⟨scope, hscopes hs, hcustom, rfl, rfl⟩))

/-- Access depends on the members of the rules and of the scopes only, and fewer scopes need less. -/
theorem access_shrinks (env : Env) (adminMember : Bool) (rules : List EffectivePermissionRule)
    (userId clientId resourceUri : String) (scopes : List String) :
    let allows := fun rules scopes =>
      decideAccess env ⟨true, adminMember, rules⟩ ⟨userId, clientId, resourceUri, scopes⟩ = none
    (∀ rules', (∀ r, r ∈ rules' ↔ r ∈ rules) → (allows rules' scopes ↔ allows rules scopes)) ∧
      (∀ scopes', (∀ s, s ∈ scopes' ↔ s ∈ scopes) → (allows rules scopes' ↔ allows rules scopes)) ∧
      (∀ first first', resolvePermissionRules rules ⟨clientId, resourceUri, first⟩ .base =
        resolvePermissionRules rules ⟨clientId, resourceUri, first'⟩ .base) ∧
      ∀ scopes', scopes' ⊆ scopes → allows rules scopes → allows rules scopes' := by
  intro allows
  refine ⟨fun rules' hrules => ?_, fun scopes' hscopes => ?_, fun first first' => ?_, fun scopes' hscopes h => ?_⟩
  · constructor
    · exact decideAccess_mono (List.Subset.refl _) fun context stage h =>
        h.mono (fun a ha _ => (hrules a).1 ha) fun d hd _ => (hrules d).2 hd
    · exact decideAccess_mono (List.Subset.refl _) fun context stage h =>
        h.mono (fun a ha _ => (hrules a).2 ha) fun d hd _ => (hrules d).1 hd
  · constructor
    · exact decideAccess_mono (fun s hs => (hscopes s).2 hs) fun _ _ h => h
    · exact decideAccess_mono (fun s hs => (hscopes s).1 hs) fun _ _ h => h
  · exact @resolve_base_scope rules ⟨clientId, resourceUri, first'⟩ first
  · exact decideAccess_mono hscopes (fun _ _ h => h) h

/-- Rules that open an API to an application, with one custom scope. -/
def sampleRules : List EffectivePermissionRule :=
  [⟨"prl_a", .allow, .single .application .equals "app", "grp_a", "users", 10⟩,
    ⟨"prl_b", .allow, .set .scope .isIn ["notes.read"], "grp_a", "users", 10⟩]

theorem access_shrinks_sample :
    decideAccess Deployment.env ⟨true, false, sampleRules⟩ ⟨"usr_a", "app", "https://api.example.com", ["openid", "notes.read"]⟩ =
        none ∧
      decideAccess Deployment.env ⟨true, false, sampleRules⟩ ⟨"usr_a", "app", "https://api.example.com", []⟩ = none := by
  have h : decideAccess Deployment.env ⟨true, false, sampleRules⟩
      ⟨"usr_a", "app", "https://api.example.com", ["openid", "notes.read"]⟩ = none := by decide +kernel
  exact ⟨h, (access_shrinks Deployment.env false sampleRules "usr_a" "app" "https://api.example.com"
    ["openid", "notes.read"]).2.2.2 [] (by simp) h⟩

/-- An allow rule never takes access away, and a deny rule never gives it, in the decision and in each stage. -/
theorem rules_keep_direction (env : Env) (adminMember : Bool) (input : UserTokenAccessInput)
    (pre post : List EffectivePermissionRule) (rule : EffectivePermissionRule) :
    let decision := fun rules => decideAccess env ⟨true, adminMember, rules⟩ input
    (rule.effect = .allow → (decision (pre ++ post) = none → decision (pre ++ rule :: post) = none) ∧
      ∀ context stage, Allows (pre ++ post) context stage → Allows (pre ++ rule :: post) context stage) ∧
    (rule.effect = .deny → (decision (pre ++ post) ≠ none → decision (pre ++ rule :: post) ≠ none) ∧
      ∀ context stage, ¬Allows (pre ++ post) context stage → ¬Allows (pre ++ rule :: post) context stage) := by
  intro decision
  refine ⟨fun hallow => ⟨fun h => ?_, fun context stage h => h.insert hallow⟩,
    fun hdeny => ⟨fun h h' => h ?_, fun context stage h h' => h (h'.remove hdeny)⟩⟩
  · exact decideAccess_mono (List.Subset.refl _) (fun context stage h => h.insert hallow) h
  · exact decideAccess_mono (List.Subset.refl _) (fun context stage h => h.remove hdeny) h'

/-- An allow rule of a smaller priority than all others, in front. -/
theorem rules_keep_direction_sample :
    decideAccess Deployment.env ⟨true, false,
      ⟨"prl_c", .allow, .single .scope .notEquals "notes.write", "grp_b", "more", 0⟩ :: sampleRules⟩
        ⟨"usr_a", "app", "https://api.example.com", ["openid", "notes.read"]⟩ = none :=
  ((rules_keep_direction Deployment.env false ⟨"usr_a", "app", "https://api.example.com", ["openid", "notes.read"]⟩ []
    sampleRules ⟨"prl_c", .allow, .single .scope .notEquals "notes.write", "grp_b", "more", 0⟩).1 rfl).1 (by decide +kernel)

end Keyforge.Policy
