/-
The catalog and the rules that refer to it. Editing a resource fires the trigger for retired scopes,
which also deletes rules that name the resource beside a scope of another one; deleting a resource
leaves rules on scopes that only it offered; and a reference can go between the check of
`replacePermissionGroupRules` and its write. Outside these cases an edit that retires nothing leaves
the rules alone, and every stored reference stays resolved.
-/
import Keyforge.Db.PermissionGroupRules
import Keyforge.Lib.Pool
import Keyforge.Logic
import Keyforge.Policy.Cleanup

namespace Keyforge.Policy

open Lib Db OAuth Operations

/-! ## Editing a resource -/

/-- What an update of a resource leaves, run alone. -/
theorem updateResource_runs {uri : String} {patch : ResourcePatch} {w w' : World} {next : ResourceRow}
    (hrun : Runs (updateResource uri patch).run w (.ok (some next)) w') :
    ∃ current, w.db.resources.get? uri = some current ∧ next = patch.next current ∧
      w'.db = updateResourceStatement uri next w.db := by
  have hc := alone_clocked
  have hP := alone_stable_db w.db
  refine post_of_runs (Q := fun r w' => ∀ next, r = some next → ∃ current, w.db.resources.get? uri = some current ∧
    next = patch.next current ∧ w'.db = updateResourceStatement uri next w.db) (X := fun _ _ => True) hrun ?_ next rfl
  rw [updateResource, wpE_bind]
  refine wpE_select hc hP rfl (fun w₁ h₁ _ => ?_) fun _ _ _ => trivial
  rw [h₁]
  cases hget : w.db.resources.get? uri with
  | none =>
    intro next hnext
    cases hnext
  | some current =>
    dsimp only
    rw [wpE_bind, d1]
    refine wpE_d1Logged hc hP h₁ (fun w₂ w₃ e h₂ _ hw₃ _ => ⟨trivial, trivial, ?_, trivial⟩) fun _ _ _ => trivial
    rw [wpE_bind, wpE_require]
    refine ⟨fun hupdated => ?_, fun _ => trivial⟩
    intro next hnext
    cases hnext
    refine ⟨current, rfl, rfl, ?_⟩
    rw [hw₃]
    dsimp only at hupdated ⊢
    rw [h₂] at hupdated ⊢
    split at hupdated
    · rename_i hcheck
      rw [if_pos hcheck]
    · cases hupdated

/-- What the update offers afterwards, if it keeps what the resource offered. -/
theorem offersScope_update {uri : String} {current next : ResourceRow} {db : Database}
    (hcurrent : db.resources.get? uri = some current) (hkept : ∀ s ∈ current.allowedScopes, s ∈ next.allowedScopes)
    (scope : String) :
    offersScope (updateResourceStatement uri next db).resources scope = true ↔
      offersScope db.resources scope = true ∨ scope ∈ next.allowedScopes := by
  obtain ⟨hmem, huri⟩ := Table.get?_eq_some.1 hcurrent
  simp only [offersScope, Table.has_iff, List.contains_iff_mem]
  constructor
  · rintro ⟨r', hr', hs⟩
    obtain ⟨r, hr, rfl⟩ := (Table.mem_update (resourceColumns_resourceUri next)).1 hr'
    split at hs
    · exact Or.inr hs
    · exact Or.inl ⟨r, hr, hs⟩
  · rintro (⟨r, hr, hs⟩ | hs)
    · refine ⟨_, (Table.mem_update (resourceColumns_resourceUri next)).2 ⟨r, hr, rfl⟩, ?_⟩
      split
      · rename_i hr'
        have : r = current := Table.key_inj hr hmem ((of_decide_eq_true hr').trans huri.symm)
        exact hkept scope (this ▸ hs)
      · exact hs
    · refine ⟨_, (Table.mem_update (resourceColumns_resourceUri next)).2 ⟨current, hmem, rfl⟩, ?_⟩
      rw [if_pos (decide_eq_true huri)]
      exact hs

/-- The rule survives an edit of the resource: it does not name the resource beside a scope that the
resource does not offer, and names no scope that nothing offers. -/
def SurvivesEdit (uri : String) (next : ResourceRow) (db : Database) (condition : PermissionRuleCondition) : Prop :=
  ((.api, uri) ∈ listPermissionRuleReferences condition →
    ∀ scope, (.scope, scope) ∈ listPermissionRuleReferences condition → scope ∈ next.allowedScopes) ∧
  ∀ scope, (.scope, scope) ∈ listPermissionRuleReferences condition →
    offersScope db.resources scope = true ∨ scope ∈ next.allowedScopes

theorem refersTo_eq_false {field : PermissionRuleField} {p : String → Bool} {condition : PermissionRuleCondition} :
    refersTo field p condition = false ↔
      ∀ value, (field, value) ∈ listPermissionRuleReferences condition → p value = false := by
  rw [Bool.eq_false_iff, ne_eq, refersTo_iff]
  simp

theorem not_retired_iff {uri : String} {current next : ResourceRow} {db : Database}
    (hcurrent : db.resources.get? uri = some current) (hkept : ∀ s ∈ current.allowedScopes, s ∈ next.allowedScopes)
    (condition : PermissionRuleCondition) :
    mentionsRetiredScope uri next.allowedScopes (updateResourceStatement uri next db).resources (conditionJson condition) = false ↔
      SurvivesEdit uri next db condition := by
  rw [mentionsRetiredScope_eq, Bool.or_eq_false_iff, Bool.and_eq_false_iff]
  simp only [refersTo_eq_false, Bool.not_eq_false', offersScope_update hcurrent hkept, decide_eq_false_iff_not,
    List.contains_iff_mem]
  refine and_congr_left fun _ => ⟨?_, fun h => ?_⟩
  · rintro (hapi | hscopes) happ
    · exact absurd rfl (hapi uri happ)
    · exact hscopes
  · by_cases happ : (.api, uri) ∈ listPermissionRuleReferences condition
    · exact Or.inr (h happ)
    · exact Or.inl fun value hv he => happ (he ▸ hv)

/-- An edit of a resource that retires no scope leaves the table of rules as it was exactly when every
stored rule survives it. -/
theorem resource_edit_keeps_rules_iff (uri : String) (patch : ResourcePatch) (w w' : World) (current next : ResourceRow)
    (hcurrent : w.db.resources.get? uri = some current)
    (hrun : Runs (updateResource uri patch).run w (.ok (some next)) w')
    (hkept : ∀ scope ∈ current.allowedScopes, scope ∈ next.allowedScopes) :
    w'.db.permissionGroupRules = w.db.permissionGroupRules ↔
      ∀ rule ∈ w.db.permissionGroupRules, ∀ condition, rule.condition = some condition →
        SurvivesEdit uri next w.db condition := by
  obtain ⟨_, -, -, hdb⟩ := updateResource_runs hrun
  have hrules : w'.db.permissionGroupRules =
      prunePermissionRulesAfterResourceScopeUpdate uri next.allowedScopes (updateResourceStatement uri next w.db).resources
        w.db.permissionGroupRules := by
    rw [hdb]
    show (if (w.db.resources.get? uri).isSome then _ else _) = _
    rw [hcurrent]
    rfl
  rw [hrules, prunePermissionRulesAfterResourceScopeUpdate, pruneRules, Table.delete_eq_self_iff]
  refine forall₂_congr fun rule _ => ?_
  cases rule.condition with
  | none => simp
  | some condition =>
    rw [Option.any_some, not_retired_iff hcurrent hkept]
    simp

/-- A change of the name only. -/
def rename (name : String) : ResourcePatch :=
  { name := some name, allowedScopes := none, enabled := none, mcpEnabled := none, metadataClientPolicy := none }

/-- The deployment with a rule on reading from the API. -/
def readingWorld : World :=
  { Deployment.world with
    db := { Deployment.database with
      permissionGroupRules := (∅ : Table PermissionGroupRuleRow.id).insert
        { Deployment.rule with
          condition := some (.group .and [.single .api .equals "https://api.example.com", .single .scope .equals "api.read"]) } } }

/-- Renaming the API leaves a rule on the API and on a scope that it offers. -/
theorem resource_edit_keeps_rules_iff_rename :
    ∃ w', Runs (updateResource "https://api.example.com" (rename "Renamed")).run readingWorld
      (.ok (some { Deployment.resource with name := "Renamed" })) w' ∧
      w'.db.permissionGroupRules = readingWorld.db.permissionGroupRules := by
  have hrun : (runOn Deployment.ok 5 (updateResource "https://api.example.com" (rename "Renamed")).run readingWorld).map
      (·.1) = some (.ok (some { Deployment.resource with name := "Renamed" })) := by
    decide +kernel
  obtain ⟨⟨_, w'⟩, hrun, rfl⟩ := Option.map_eq_some_iff.1 hrun
  refine ⟨w', runs_of_runOn hrun, ?_⟩
  refine (resource_edit_keeps_rules_iff _ _ _ w' Deployment.resource _ rfl (runs_of_runOn hrun) fun _ h => h).2 ?_
  intro rule hrule condition hc
  rw [List.mem_singleton.1 hrule] at hc
  cases hc
  have hscope : ∀ scope, (PermissionRuleField.scope, scope) ∈ listPermissionRuleReferences (.group .and
      [.single .api .equals "https://api.example.com", .single .scope .equals "api.read"]) → scope ∈ ["api.read"] := by
    intro scope h
    simpa [listPermissionRuleReferences, listReferences] using h
  exact ⟨fun _ => hscope, fun scope h => Or.inr (hscope scope h)⟩

/-- Two resources, and no rules yet. -/
def twoResources : World :=
  { Deployment.world with
    db := { Deployment.database with
      permissionGroupRules := ∅
      resources := Deployment.database.resources.insert
        { resourceUri := "urn:reports", name := "Reports", allowedScopes := ["reports.read"], enabled := true,
          mcpEnabled := false, metadataClientPolicy := .disabled } } }

/-- The API, or reading reports. -/
def apiOrReports : PermissionGroupRuleInput :=
  { id := none, effect := .allow,
    condition := .group .or [.single .api .equals "https://api.example.com",
      .group .and [.single .api .equals "urn:reports", .single .scope .equals "reports.read"]] }

/-- A rule that `replacePermissionGroupRules` has accepted is gone after one of the resources it names
was renamed. -/
theorem rename_drops_accepted_rule :
    ∃ w₁ w₂,
      Runs (replacePermissionGroupRules "grp_a" [apiOrReports] fun _ => "prule_a").run twoResources (.ok .updated) w₁ ∧
      Runs (updateResource "https://api.example.com" (rename "Renamed")).run w₁
        (.ok (some { Deployment.resource with name := "Renamed" })) w₂ ∧
      (w₁.db.resources.get? "https://api.example.com").map (·.allowedScopes) = some Deployment.resource.allowedScopes ∧
      w₁.db.permissionGroupRules.rows.map (·.id) = ["prule_a"] ∧ w₂.db.permissionGroupRules.rows.map (·.id) = [] := by
  have h : ((runOn Deployment.ok 10
      (replacePermissionGroupRules "grp_a" [apiOrReports] fun _ => "prule_a").run twoResources).any fun r₁ =>
        (runOn Deployment.ok 5 (updateResource "https://api.example.com" (rename "Renamed")).run r₁.2).any fun r₂ =>
          decide (r₁.1 = .ok .updated) && decide (r₂.1 = .ok (some { Deployment.resource with name := "Renamed" })) &&
            decide ((r₁.2.db.resources.get? "https://api.example.com").map (·.allowedScopes) =
              some Deployment.resource.allowedScopes) &&
            decide (r₁.2.db.permissionGroupRules.rows.map (·.id) = ["prule_a"]) &&
            decide (r₂.2.db.permissionGroupRules.rows.map (·.id) = [])) = true := by
    decide +kernel
  obtain ⟨⟨_, w₁⟩, h₁, h⟩ := (Option.any_eq_true _ _).1 h
  obtain ⟨⟨_, w₂⟩, h₂, h⟩ := (Option.any_eq_true _ _).1 h
  simp only [Bool.and_eq_true, decide_eq_true_eq] at h
  obtain ⟨⟨⟨⟨rfl, rfl⟩, hscopes⟩, hbefore⟩, hafter⟩ := h
  exact ⟨w₁, w₂, runs_of_runOn h₁, runs_of_runOn h₂, hscopes, hbefore, hafter⟩

end Keyforge.Policy
