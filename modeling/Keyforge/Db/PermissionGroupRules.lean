/-
Replacing a group's rules (`db/queries/permission-group-rules.ts`). The submitted rules are validated,
what they refer to is looked up in one read, and one batch deletes the group's rules and inserts the
new ones; between the read and the batch other requests may run.
-/
import Keyforge.Db.Queries

namespace Keyforge.Db

open Lib OAuth

/-! ## References -/

inductive ReplacePermissionGroupRulesResult where
  | updated
  | notFound
  | invalidRule
  | invalidApplication
  | invalidApi
  | invalidScope
  | standardScope
  deriving DecidableEq, Repr

/-- The distinct values the conditions refer to in a field. -/
def referencedValues (field : PermissionRuleField) (conditions : List PermissionRuleCondition) : List String :=
  (((conditions.flatMap listPermissionRuleReferences).filter (·.1 = field)).map Prod.snd).eraseDups

/-- What the three queries find of the references; `none` is `"valid"`. -/
def referenceIssue (conditions : List PermissionRuleCondition) (db : Database) :
    Option ReplacePermissionGroupRulesResult :=
  let applicationIds := referencedValues .application conditions
  let apiUris := referencedValues .api conditions
  let scopes := referencedValues .scope conditions
  let applications := db.clients.select fun c =>
    (c.clientKind = .application || c.clientKind = .device) && applicationIds.contains c.clientId
  let apis := db.resources.select fun r => apiUris.contains r.resourceUri
  let offered := ((db.resources.rows.flatMap (·.allowedScopes)).filter scopes.contains).eraseDups
  if applications.length ≠ applicationIds.length then some .invalidApplication
  else if apis.length ≠ apiUris.length then some .invalidApi
  else if offered.length ≠ scopes.length then some .invalidScope
  else none

def validateRuleReferences (conditions : List PermissionRuleCondition) :
    App (Option ReplacePermissionGroupRulesResult) :=
  select (referenceIssue conditions)

/-! ## The write -/

/-- The rows of the rules, numbered from `position` on; `newIds` are the ids generated for rules without one. -/
def ruleRows (groupId : String) (newIds : Nat → String) : Nat → List PermissionGroupRuleInput → List PermissionGroupRuleRow
  | _, [] => []
  | position, rule :: rules =>
    { id := rule.id.getD (newIds position), groupId, effect := rule.effect, condition := some rule.condition, position } ::
      ruleRows groupId newIds (position + 1) rules

/-- Insert the rows; a standard scope or a taken id aborts. -/
def insertRules : List PermissionGroupRuleRow → Table PermissionGroupRuleRow.id → Option (Table PermissionGroupRuleRow.id)
  | [], rules => some rules
  | row :: rows, rules =>
    if (row.condition.any fun c => rejectStandardScopeRule (conditionJson c)) || (rules.get? row.id).isSome then none
    else insertRules rows (rules.insert row)

/-- The batch; an abort leaves the database as it was. A missing group aborts the insert of a row. -/
def replaceRulesBatch (groupId : String) (rows : List PermissionGroupRuleRow) (db : Database) : Bool × Database :=
  let cleared := db.permissionGroupRules.delete fun r => r.groupId = groupId
  match insertRules rows cleared with
  | some rules =>
    if rows.isEmpty || (db.groups.get? groupId).isSome then (true, { db with permissionGroupRules := rules })
    else (false, db)
  | none => (false, db)

def replacePermissionGroupRules (groupId : String) (rawRules : List PermissionGroupRuleInput) (newIds : Nat → String) :
    App ReplacePermissionGroupRulesResult := do
  match validateRuleInputs rawRules with
  | .error issue => pure (if issue = .standardScope then .standardScope else .invalidRule)
  | .ok rules =>
    let (group, existingIds) ← all 0 (select fun db => db.groups.get? groupId)
      (select fun db => (db.permissionGroupRules.select (·.groupId = groupId)).map (·.id))
    if group.isNone then pure .notFound
    else if rules.any fun rule => rule.id.any fun id => !existingIds.contains id then pure .invalidRule
    else
      match ← validateRuleReferences (rules.map (·.condition)) with
      | some issue => pure issue
      | none =>
        let replaced ← d1 (replaceRulesBatch groupId (ruleRows groupId newIds 0 rules))
        require replaced .storage
        pure .updated

/-- An insert adds its rows and nothing else. -/
theorem mem_insertRules : ∀ {rows : List PermissionGroupRuleRow} {rules rules' : Table PermissionGroupRuleRow.id},
    insertRules rows rules = some rules' → ∀ rule ∈ rules', rule ∈ rules ∨ rule ∈ rows
  | [], rules, rules', h, rule, hrule => by
    rw [insertRules] at h
    cases h
    exact Or.inl hrule
  | row :: rows, rules, rules', h, rule, hrule => by
    rw [insertRules] at h
    split at h
    · cases h
    · rcases mem_insertRules h rule hrule with hmem | hmem
      · rcases Table.mem_insert.1 hmem with hmem | ⟨rfl, -⟩
        · exact Or.inl hmem
        · exact Or.inr List.mem_cons_self
      · exact Or.inr (List.mem_cons_of_mem _ hmem)

/-! ## What the check finds -/

theorem nodup_eraseDups {α : Type} [DecidableEq α] : ∀ l : List α, l.eraseDups.Nodup
  | [] => List.nodup_nil
  | a :: l => by
    rw [List.eraseDups_cons]
    have hle : (l.filter fun b => !b == a).length ≤ l.length := List.length_filter_le _ _
    refine List.nodup_cons.2 ⟨fun h => ?_, nodup_eraseDups _⟩
    simpa using (List.mem_filter.1 (List.mem_eraseDups.1 h)).2
  termination_by l => l.length

theorem mem_referencedValues {field : PermissionRuleField} {conditions : List PermissionRuleCondition} {value : String} :
    value ∈ referencedValues field conditions ↔
      ∃ condition ∈ conditions, (field, value) ∈ listPermissionRuleReferences condition := by
  simp only [referencedValues, List.mem_eraseDups, List.mem_map, List.mem_filter, List.mem_flatMap, decide_eq_true_eq]
  constructor
  · rintro ⟨⟨_, _⟩, ⟨⟨condition, hc, hr⟩, rfl⟩, rfl⟩
    exact ⟨condition, hc, hr⟩
  · rintro ⟨condition, hc, hr⟩
    exact ⟨_, ⟨⟨condition, hc, hr⟩, rfl⟩, rfl⟩

/-- What a rule may refer to: an existing client, an existing resource, a scope some resource offers. -/
def referenceExists (db : Database) : PermissionRuleField × String → Bool
  | (.application, value) => (db.clients.get? value).isSome
  | (.api, value) => (db.resources.get? value).isSome
  | (.scope, value) => offersScope db.resources value

/-- Distinct values within `m` that are as many as `m` holds are all of `m`. -/
theorem mem_of_nodup_of_length {α : Type} {l m : List α} (hl : l.Nodup) (hsub : l ⊆ m) (hlen : l.length = m.length)
    {a : α} (ha : a ∈ m) : a ∈ l :=
  ((hl.subperm hsub).perm_of_length_le hlen.ge).mem_iff.2 ha

/-- A lookup by key that finds as many rows as there are keys finds every key. -/
theorem isSome_of_select {α : Type} {key : α → String} {t : Table key} {p : α → Bool} {keys : List String}
    (hp : ∀ a, p a = true → keys.contains (key a) = true) (hlen : (t.select p).length = keys.length) {k : String}
    (hk : k ∈ keys) : (t.get? k).isSome := by
  have hnodup : ((t.select p).map key).Nodup := t.nodup.sublist (List.filter_sublist.map key)
  have hsub : (t.select p).map key ⊆ keys := by
    intro x hx
    obtain ⟨a, ha, rfl⟩ := List.mem_map.1 hx
    exact List.contains_iff_mem.1 (hp a (Table.mem_select.1 ha).2)
  obtain ⟨a, ha, rfl⟩ := List.mem_map.1 (mem_of_nodup_of_length hnodup hsub (by rw [List.length_map, hlen]) hk)
  rw [Table.get?_of_mem (Table.mem_select.1 ha).1]
  rfl

/-- A checked reference exists. -/
theorem referenceExists_of_issue {conditions : List PermissionRuleCondition} {db : Database}
    (h : referenceIssue conditions db = none) {condition : PermissionRuleCondition} (hc : condition ∈ conditions) :
    ∀ r ∈ listPermissionRuleReferences condition, referenceExists db r = true := by
  rintro ⟨field, value⟩ hr
  have hvalue : value ∈ referencedValues field conditions := mem_referencedValues.2 ⟨condition, hc, hr⟩
  unfold referenceIssue at h
  dsimp only at h
  split at h
  · cases h
  rename_i happlications
  split at h
  · cases h
  rename_i hapis
  split at h
  · cases h
  rename_i hscopes
  cases field with
  | application => exact isSome_of_select (fun c hc => (Bool.and_eq_true_iff.1 hc).2) (not_not.1 happlications) hvalue
  | api => exact isSome_of_select (fun _ h => h) (not_not.1 hapis) hvalue
  | scope =>
    have hsub : ((db.resources.rows.flatMap (·.allowedScopes)).filter
        (referencedValues .scope conditions).contains).eraseDups ⊆ referencedValues .scope conditions := by
      intro x hx
      exact List.contains_iff_mem.1 (List.mem_filter.1 (List.mem_eraseDups.1 hx)).2
    have hmem := mem_of_nodup_of_length (nodup_eraseDups _) hsub (not_not.1 hscopes) hvalue
    obtain ⟨hmem, -⟩ := List.mem_filter.1 (List.mem_eraseDups.1 hmem)
    obtain ⟨resource, hresource, hoffered⟩ := List.mem_flatMap.1 hmem
    exact Table.has_iff.2 ⟨resource, hresource, List.contains_iff_mem.2 hoffered⟩

end Keyforge.Db
