/-
Migration 0025: the translation of the legacy assignments of groups to clients, resources and scopes
into rules. Each insert reads the rules inserted before it and numbers its own rows after them. The
base rule of a group has one child for every assigned client and one for every assigned resource,
which nothing bounds, while the server accepts sixteen children.
-/
import Keyforge.Db.PermissionGroupRules
import Keyforge.Deployment
import Keyforge.Policy.Decision
import Keyforge.Policy.Triggers

namespace Keyforge.Policy

open Lib Db OAuth

/-! ## The legacy tables -/

structure ClientPermissionGroupRow where
  clientId : String
  groupId : String
  deriving DecidableEq, Repr

structure ResourcePermissionGroupRow where
  resourceUri : String
  groupId : String
  deriving DecidableEq, Repr

structure ScopePermissionGroupRow where
  resourceUri : String
  scope : String
  groupId : String
  effect : PermissionRuleEffect
  deriving DecidableEq, Repr

/-- The database before the migration; it has no table of rules yet. -/
structure LegacyDatabase where
  db : Database
  clientGroups : Table fun r : ClientPermissionGroupRow => (r.clientId, r.groupId)
  resourceGroups : Table fun r : ResourcePermissionGroupRow => (r.resourceUri, r.groupId)
  scopeGroups : Table fun r : ScopePermissionGroupRow => (r.resourceUri, r.scope, r.groupId)

/-! ## Base rules -/

/-- The clients assigned to a group, in the order the aggregate visits them. -/
def clientsOf (legacy : LegacyDatabase) (groupId : String) : List String :=
  (legacy.clientGroups.select (·.groupId = groupId)).map (·.clientId)

def resourcesOf (legacy : LegacyDatabase) (groupId : String) : List String :=
  (legacy.resourceGroups.select (·.groupId = groupId)).map (·.resourceUri)

/-- The group targets at least one client and one resource. -/
def targeted (legacy : LegacyDatabase) (groupId : String) : Bool :=
  legacy.clientGroups.has (·.groupId = groupId) && legacy.resourceGroups.has (·.groupId = groupId)

def baseCondition (clientIds resourceUris : List String) : PermissionRuleCondition :=
  .group .and [.group .or (clientIds.map (.single .application .equals)), .group .or (resourceUris.map (.single .api .equals))]

def baseRules (legacy : LegacyDatabase) : List PermissionGroupRuleRow :=
  (legacy.db.groups.select fun g => targeted legacy g.id).map fun g =>
    { id := "prule_migrated_base_" ++ g.id, groupId := g.id, effect := .allow,
      condition := some (baseCondition (clientsOf legacy g.id) (resourcesOf legacy g.id)), position := 0 }

/-! ## Positions -/

/-- `n + COALESCE((SELECT MAX(position) … WHERE group_id = …), -1)`, for a row number. -/
def positionAfter (rules : List PermissionGroupRuleRow) (groupId : String) (n : Nat) : Nat :=
  match ((rules.filter (·.groupId = groupId)).map (·.position)).max? with
  | some position => n + position
  | none => n - 1

def adminCondition : PermissionRuleCondition :=
  .group .and [.single .application .equals "pangda_admin", .single .api .equals "https://admin.pangda.app"]

/-- The rule of the built-in administrator path. -/
def adminRules (legacy : LegacyDatabase) (rules : List PermissionGroupRuleRow) : List PermissionGroupRuleRow :=
  (legacy.db.groups.select fun g =>
    g.name = "admins" && (legacy.db.clients.get? "pangda_admin").isSome &&
      (legacy.db.resources.get? "https://admin.pangda.app").isSome &&
      !rules.any fun r => r.groupId = g.id && r.id = "prule_migrated_admin_base").map fun g =>
    { id := "prule_migrated_admin_base", groupId := g.id, effect := .allow, condition := some adminCondition,
      position := positionAfter rules g.id 1 }

/-! ## Scope rules -/

/-- What a scope rule is made of. -/
structure ScopeGrant where
  groupId : String
  resourceUri : String
  scope : String
  effect : PermissionRuleEffect
  deriving DecidableEq, Repr

/-- The offered custom scopes of an assigned resource, unless one is explicitly allowed to some group. -/
def offeredGrants (legacy : LegacyDatabase) : List ScopeGrant :=
  legacy.resourceGroups.rows.flatMap fun access =>
    match legacy.db.resources.get? access.resourceUri with
    | none => []
    | some resource =>
      (resource.allowedScopes.filter fun scope => !USER_ONLY_SCOPES.contains scope &&
        !legacy.scopeGroups.has fun p => p.resourceUri = access.resourceUri && p.scope = scope && p.effect = .allow).map
          fun scope => ⟨access.groupId, access.resourceUri, scope, .allow⟩

def explicitGrants (legacy : LegacyDatabase) : List ScopeGrant :=
  (legacy.scopeGroups.select fun p => !USER_ONLY_SCOPES.contains p.scope).map fun p =>
    ⟨p.groupId, p.resourceUri, p.scope, p.effect⟩

/-- `ORDER BY resource_uri, scope, effect`; the offered grants all allow. -/
def grantOrder (a b : ScopeGrant) : Bool :=
  a.resourceUri < b.resourceUri || (a.resourceUri = b.resourceUri &&
    (a.scope < b.scope || (a.scope = b.scope && effectText a.effect ≤ effectText b.effect)))

/-- `ROW_NUMBER() OVER (PARTITION BY group_id …)` of sorted grants; `seen` are the groups of those before. -/
def rowNumbers : List String → List ScopeGrant → List (ScopeGrant × Nat)
  | _, [] => []
  | seen, grant :: grants => (grant, seen.count grant.groupId + 1) :: rowNumbers (grant.groupId :: seen) grants

def scopeCondition (grant : ScopeGrant) : PermissionRuleCondition :=
  .group .and [.single .api .equals grant.resourceUri, .single .scope .equals grant.scope]

/-- The rows of one insert of scope rules; `randomId` gives the id of each row. -/
def scopeRules (rules : List PermissionGroupRuleRow) (randomId : Nat → String) (grants : List ScopeGrant) :
    List PermissionGroupRuleRow :=
  (rowNumbers [] (grants.insertionSort fun a b => grantOrder a b = true)).zipIdx.map fun numbered =>
    { id := randomId numbered.2, groupId := numbered.1.1.groupId, effect := numbered.1.1.effect,
      condition := some (scopeCondition numbered.1.1),
      position := positionAfter rules numbered.1.1.groupId numbered.1.2 }

/-! ## The migration -/

/-- The rows of the four inserts, in order. -/
def migratedRules (legacy : LegacyDatabase) (randomId : Nat → Nat → String) : List PermissionGroupRuleRow :=
  let base := baseRules legacy
  let admin := base ++ adminRules legacy base
  let offered := admin ++ scopeRules admin (randomId 0) (offeredGrants legacy)
  offered ++ scopeRules offered (randomId 1) (explicitGrants legacy)

/-- The database after the migration, unless an insert aborts. -/
def migrate (legacy : LegacyDatabase) (randomId : Nat → Nat → String) : Option Database :=
  (insertRules (migratedRules legacy randomId) ∅).map fun rules => { legacy.db with permissionGroupRules := rules }

/-! ## Positions are distinct -/

def place (r : PermissionGroupRuleRow) : String × Nat := (r.groupId, r.position)

theorem lt_of_mem_rowNumbers : ∀ {grants : List ScopeGrant} {seen : List String} {numbered : ScopeGrant × Nat},
    numbered ∈ rowNumbers seen grants → seen.count numbered.1.groupId < numbered.2
  | grant :: grants, seen, numbered, h => by
    rcases List.mem_cons.1 h with rfl | h
    · exact Nat.lt_succ_self _
    · have := lt_of_mem_rowNumbers h
      have : seen.count numbered.1.groupId ≤ (grant.groupId :: seen).count numbered.1.groupId := List.count_le_count_cons
      omega

theorem rowNumbers_nodup : ∀ (grants : List ScopeGrant) (seen : List String),
    ((rowNumbers seen grants).map fun numbered => (numbered.1.groupId, numbered.2)).Nodup
  | [], _ => List.nodup_nil
  | grant :: grants, seen => by
    rw [rowNumbers, List.map_cons, List.nodup_cons]
    refine ⟨fun h => ?_, rowNumbers_nodup grants _⟩
    obtain ⟨numbered, hmem, he⟩ := List.mem_map.1 h
    have hlt := lt_of_mem_rowNumbers hmem
    obtain ⟨hgroup, hn⟩ := Prod.mk.inj he
    dsimp only at hgroup hn
    rw [hgroup, List.count_cons_self] at hlt
    omega

/-- A new position lies after every position of its group. -/
theorem lt_positionAfter {rules : List PermissionGroupRuleRow} {groupId : String} {n : Nat} (hn : 0 < n)
    {r : PermissionGroupRuleRow} (hr : r ∈ rules) (hg : r.groupId = groupId) : r.position < positionAfter rules groupId n := by
  have hmem : r.position ∈ (rules.filter (·.groupId = groupId)).map (·.position) :=
    List.mem_map.2 ⟨r, List.mem_filter.2 ⟨hr, decide_eq_true hg⟩, rfl⟩
  unfold positionAfter
  split
  · rename_i position hmax
    have := (List.max?_eq_some_iff.1 hmax).2 _ hmem
    omega
  · rename_i hmax
    rw [List.max?_eq_none_iff] at hmax
    rw [hmax] at hmem
    exact (List.not_mem_nil hmem).elim

theorem positionAfter_inj {rules : List PermissionGroupRuleRow} {groupId : String} {n m : Nat} (hn : 0 < n) (hm : 0 < m)
    (h : positionAfter rules groupId n = positionAfter rules groupId m) : n = m := by
  unfold positionAfter at h
  split at h <;> omega

/-- Rows placed after the ones before them keep the places distinct. -/
theorem places_append {rules rows : List PermissionGroupRuleRow} (hrules : (rules.map place).Nodup)
    (hrows : (rows.map place).Nodup)
    (hafter : ∀ row ∈ rows, ∃ n, 0 < n ∧ row.position = positionAfter rules row.groupId n) :
    ((rules ++ rows).map place).Nodup := by
  rw [List.map_append, List.nodup_append]
  refine ⟨hrules, hrows, ?_⟩
  intro a ha b hb hab
  obtain ⟨r, hr, rfl⟩ := List.mem_map.1 ha
  obtain ⟨row, hrow, rfl⟩ := List.mem_map.1 hb
  obtain ⟨hgroup, hposition⟩ := Prod.mk.inj hab
  obtain ⟨n, hn, hp⟩ := hafter row hrow
  have hlt : r.position < positionAfter rules row.groupId n := lt_positionAfter hn hr hgroup
  omega

theorem scopeRules_after {rules : List PermissionGroupRuleRow} {randomId : Nat → String} {grants : List ScopeGrant}
    {row : PermissionGroupRuleRow} (h : row ∈ scopeRules rules randomId grants) :
    ∃ n, 0 < n ∧ row.position = positionAfter rules row.groupId n := by
  obtain ⟨⟨numbered, i⟩, hmem, rfl⟩ := List.mem_map.1 h
  exact ⟨_, Nat.zero_lt_of_lt (lt_of_mem_rowNumbers (List.fst_mem_of_mem_zipIdx hmem)), rfl⟩

theorem scopeRules_places (rules : List PermissionGroupRuleRow) (randomId : Nat → String) (grants : List ScopeGrant) :
    ((scopeRules rules randomId grants).map place).Nodup := by
  let numbers := rowNumbers [] (grants.insertionSort fun a b => grantOrder a b = true)
  have hplaces : (scopeRules rules randomId grants).map place =
      (numbers.map fun numbered => (numbered.1.groupId, numbered.2)).map fun p => (p.1, positionAfter rules p.1 p.2) := by
    rw [scopeRules, List.map_map, List.map_map, ← List.zipIdx_map_fst 0 numbers, List.map_map]
    rfl
  rw [hplaces]
  refine List.Nodup.map_on ?_ (rowNumbers_nodup _ [])
  rintro ⟨g, n⟩ hp ⟨g', n'⟩ hp' h
  obtain ⟨hg, hposition⟩ := Prod.mk.inj h
  dsimp only at hg hposition
  subst hg
  have hpos : ∀ {q : String × Nat}, q ∈ numbers.map (fun numbered => (numbered.1.groupId, numbered.2)) → 0 < q.2 := by
    intro q hq
    obtain ⟨numbered, hmem, rfl⟩ := List.mem_map.1 hq
    exact Nat.zero_lt_of_lt (lt_of_mem_rowNumbers hmem)
  have hn : n = n' := positionAfter_inj (hpos hp) (hpos hp') hposition
  rw [hn]

/-- Distinct groups, one place each. -/
theorem groups_places {groups : List GroupRow} (hnodup : (groups.map (·.id)).Nodup) {row : GroupRow → PermissionGroupRuleRow}
    (hrow : ∀ g, (row g).groupId = g.id) : ((groups.map row).map place).Nodup := by
  have hmap : ((groups.map row).map place).map Prod.fst = groups.map (·.id) := by
    simp only [List.map_map]
    exact List.map_congr_left fun g _ => hrow g
  exact List.Nodup.of_map Prod.fst (by rw [hmap]; exact hnodup)

theorem select_ids_nodup {t : Table GroupRow.id} (p : GroupRow → Bool) : ((t.select p).map (·.id)).Nodup :=
  t.nodup.sublist (List.filter_sublist.map _)

/-- The migration gives every rule a place of its own. -/
theorem migratedRules_places (legacy : LegacyDatabase) (randomId : Nat → Nat → String) :
    ((migratedRules legacy randomId).map place).Nodup := by
  have hbase : ((baseRules legacy).map place).Nodup := groups_places (select_ids_nodup _) fun _ => rfl
  have hadmin : ((baseRules legacy ++ adminRules legacy (baseRules legacy)).map place).Nodup := by
    refine places_append hbase (groups_places (select_ids_nodup _) fun _ => rfl) fun row hrow => ?_
    obtain ⟨g, -, rfl⟩ := List.mem_map.1 hrow
    exact ⟨1, Nat.one_pos, rfl⟩
  have hoffered := places_append hadmin (scopeRules_places _ (randomId 0) (offeredGrants legacy)) fun _ => scopeRules_after
  exact places_append hoffered (scopeRules_places _ (randomId 1) (explicitGrants legacy)) fun _ => scopeRules_after

/-! ## Which conditions are accepted -/

theorem conditionSchemas_singles (field : PermissionRuleField) : ∀ values : List String,
    conditionSchemas (values.map (.single field .equals)) = values.all isRuleValue
  | [] => rfl
  | value :: values => by
    rw [List.map_cons, conditionSchemas, conditionSchemas_singles field values]
    rfl

/-- The children of a base rule count one node each and name no scope. -/
theorem inspectConditions_singles {field : PermissionRuleField} (hfield : field ≠ .scope) : ∀ (values : List String)
    (total : InspectedCondition), inspectConditions 3 (values.map (.single field .equals)) total =
      { total with nodes := total.nodes + values.length }
  | [], total => rfl
  | value :: values, total => by
    have hleaf : inspectCondition 3 (.single field .equals value) = ⟨1, true, false⟩ := by
      rw [inspectCondition, if_neg (by decide), decide_eq_false hfield, Bool.false_and]
    rw [List.map_cons, inspectConditions, hleaf]
    dsimp only
    rw [inspectConditions_singles hfield values]
    simp [Nat.add_comm, Nat.add_left_comm]

theorem isEmpty_singles (field : PermissionRuleField) (values : List String) :
    (values.map (PermissionRuleCondition.single field .equals)).isEmpty = values.isEmpty := by
  cases values <;> rfl

theorem inspect_or {field : PermissionRuleField} (hfield : field ≠ .scope) (values : List String) :
    inspectCondition 2 (.group .or (values.map (.single field .equals))) =
      ⟨1 + values.length, !values.isEmpty && decide (1 + values.length ≤ MAX_PERMISSION_RULE_NODES), false⟩ := by
  rw [inspectCondition, if_neg (by decide)]
  dsimp only
  rw [inspectConditions_singles hfield, isEmpty_singles]

/-- A list of targets as a base rule holds it. -/
def AcceptableTargets (values : List String) : Prop :=
  1 ≤ values.length ∧ values.length ≤ MAX_PERMISSION_RULE_CHILDREN ∧ ∀ value ∈ values, isRuleValue value = true

theorem schema_or (field : PermissionRuleField) (values : List String) :
    conditionSchema (.group .or (values.map (.single field .equals))) = true ↔ AcceptableTargets values := by
  rw [conditionSchema, conditionSchemas_singles, List.length_map, AcceptableTargets]
  simp only [Bool.and_eq_true, List.all_eq_true, decide_eq_true_eq, and_assoc]
  exact ⟨fun h => ⟨h.2.1, h.2.2, h.1⟩, fun h => ⟨h.2.2, h.1, h.2.1⟩⟩

/-- A base rule is accepted exactly when it has one to sixteen clients and as many resources, each an
acceptable value. -/
theorem validate_baseCondition (clientIds resourceUris : List String) :
    validatePermissionGroupRule (baseCondition clientIds resourceUris) = true ↔
      AcceptableTargets clientIds ∧ AcceptableTargets resourceUris := by
  have hschema : conditionSchema (baseCondition clientIds resourceUris) = true ↔
      AcceptableTargets clientIds ∧ AcceptableTargets resourceUris := by
    rw [baseCondition, conditionSchema, conditionSchemas, conditionSchemas, conditionSchemas]
    simp only [Bool.and_eq_true, schema_or, and_true]
    exact (and_iff_left_of_imp fun _ => rfl).trans (and_iff_left_of_imp fun _ => rfl)
  rw [validatePermissionGroupRule_eq, wellFormedCondition]
  simp only [Bool.and_eq_true, hschema, and_assoc]
  refine ⟨fun h => ⟨h.1, h.2.1⟩, ?_⟩
  rintro ⟨hclients, hresources⟩
  refine ⟨hclients, hresources, ?_⟩
  have hnonempty : ∀ {values : List String}, AcceptableTargets values → values.isEmpty = false := by
    intro values h
    cases values with
    | nil => exact absurd h.1 (by decide)
    | cons => rfl
  have hor := fun {values : List String} (h : AcceptableTargets values) =>
    Nat.le_trans (Nat.add_le_add_left h.2.1 1) (by decide : 1 + MAX_PERMISSION_RULE_CHILDREN ≤ MAX_PERMISSION_RULE_NODES)
  have hnodes : 1 + (1 + clientIds.length) + (1 + resourceUris.length) ≤ MAX_PERMISSION_RULE_NODES := by
    have h1 := hclients.2.1
    have h2 := hresources.2.1
    simp only [MAX_PERMISSION_RULE_CHILDREN, MAX_PERMISSION_RULE_NODES] at h1 h2 ⊢
    omega
  have hinspect : inspectCondition 1 (baseCondition clientIds resourceUris) =
      ⟨1 + (1 + clientIds.length) + (1 + resourceUris.length), true, false⟩ := by
    rw [baseCondition, inspectCondition, if_neg (by decide)]
    simp only [inspectConditions, inspect_or (show PermissionRuleField.application ≠ .scope by decide),
      inspect_or (show PermissionRuleField.api ≠ .scope by decide), hnonempty hclients, hnonempty hresources, hor hclients,
      hor hresources, hnodes]
    rfl
  rw [hinspect]
  exact ⟨rfl, decide_eq_true hnodes, rfl⟩

/-- A scope rule on a custom scope is accepted exactly when both its values are acceptable. -/
theorem validate_scopeCondition {grant : ScopeGrant} (hcustom : USER_ONLY_SCOPES.contains grant.scope = false) :
    validatePermissionGroupRule (scopeCondition grant) = true ↔
      isRuleValue grant.resourceUri = true ∧ isRuleValue grant.scope = true := by
  have hinspect : inspectCondition 1 (scopeCondition grant) = ⟨3, true, false⟩ := by
    simp only [scopeCondition, inspectCondition, inspectConditions, hcustom]
    rfl
  rw [validatePermissionGroupRule_eq, wellFormedCondition, hinspect]
  simp [scopeCondition, conditionSchema, conditionSchemas, MAX_PERMISSION_RULE_NODES, MAX_PERMISSION_RULE_CHILDREN]

theorem validate_adminCondition : validatePermissionGroupRule adminCondition = true := by
  decide +kernel

/-! ## The migrated rules -/

theorem rowNumbers_fst : ∀ (grants : List ScopeGrant) (seen : List String), (rowNumbers seen grants).map Prod.fst = grants
  | [], _ => rfl
  | grant :: grants, seen => by rw [rowNumbers, List.map_cons, rowNumbers_fst grants]

/-- A scope rule for every grant, and no others. -/
theorem scopeRules_conditions {rules : List PermissionGroupRuleRow} {randomId : Nat → String} {grants : List ScopeGrant}
    {condition : PermissionRuleCondition} :
    (∃ row ∈ scopeRules rules randomId grants, row.condition = some condition) ↔
      ∃ grant ∈ grants, scopeCondition grant = condition := by
  let sorted := grants.insertionSort fun a b => grantOrder a b = true
  have hconditions : (scopeRules rules randomId grants).map (·.condition) = sorted.map fun grant => some (scopeCondition grant) := by
    calc (scopeRules rules randomId grants).map (·.condition)
        = ((rowNumbers [] sorted).zipIdx.map Prod.fst).map fun numbered => some (scopeCondition numbered.1) := by
          rw [scopeRules, List.map_map, List.map_map]
          rfl
      _ = ((rowNumbers [] sorted).map Prod.fst).map fun grant => some (scopeCondition grant) := by
          rw [List.zipIdx_map_fst, List.map_map]
          rfl
      _ = sorted.map fun grant => some (scopeCondition grant) := by rw [rowNumbers_fst]
  have hmem : (∃ row ∈ scopeRules rules randomId grants, row.condition = some condition) ↔
      some condition ∈ (scopeRules rules randomId grants).map (·.condition) := List.mem_map.symm
  rw [hmem, hconditions, List.mem_map]
  simp only [sorted, List.mem_insertionSort, Option.some.injEq]

/-- The conditions the migration inserts. -/
theorem migratedRules_conditions {legacy : LegacyDatabase} {randomId : Nat → Nat → String}
    {condition : PermissionRuleCondition} :
    (∃ row ∈ migratedRules legacy randomId, row.condition = some condition) ↔
      (∃ g ∈ legacy.db.groups, targeted legacy g.id = true ∧
        baseCondition (clientsOf legacy g.id) (resourcesOf legacy g.id) = condition) ∨
      (∃ row ∈ adminRules legacy (baseRules legacy), row.condition = some condition) ∨
      ∃ grant ∈ offeredGrants legacy ++ explicitGrants legacy, scopeCondition grant = condition := by
  have happend : ∀ {rules rows : List PermissionGroupRuleRow}, (∃ row ∈ rules ++ rows, row.condition = some condition) ↔
      (∃ row ∈ rules, row.condition = some condition) ∨ ∃ row ∈ rows, row.condition = some condition := by
    simp only [List.mem_append, or_and_right, exists_or, implies_true]
  have hbase : (∃ row ∈ baseRules legacy, row.condition = some condition) ↔ ∃ g ∈ legacy.db.groups,
      targeted legacy g.id = true ∧ baseCondition (clientsOf legacy g.id) (resourcesOf legacy g.id) = condition := by
    constructor
    · rintro ⟨row, hrow, hc⟩
      obtain ⟨g, hg, rfl⟩ := List.mem_map.1 hrow
      exact ⟨g, (Table.mem_select.1 hg).1, (Table.mem_select.1 hg).2, Option.some.inj hc⟩
    · rintro ⟨g, hg, htargeted, rfl⟩
      exact ⟨_, List.mem_map.2 ⟨g, Table.mem_select.2 ⟨hg, htargeted⟩, rfl⟩, rfl⟩
  have hgrants : (∃ grant ∈ offeredGrants legacy ++ explicitGrants legacy, scopeCondition grant = condition) ↔
      (∃ grant ∈ offeredGrants legacy, scopeCondition grant = condition) ∨
        ∃ grant ∈ explicitGrants legacy, scopeCondition grant = condition := by
    simp only [List.mem_append, or_and_right, exists_or]
  rw [migratedRules, happend, happend, happend, scopeRules_conditions, scopeRules_conditions, hbase, hgrants, or_assoc,
    or_assoc]

/-- The grants are of custom scopes. -/
theorem custom_of_mem_grants {legacy : LegacyDatabase} {grant : ScopeGrant}
    (h : grant ∈ offeredGrants legacy ++ explicitGrants legacy) : USER_ONLY_SCOPES.contains grant.scope = false := by
  rcases List.mem_append.1 h with h | h
  · obtain ⟨access, -, h⟩ := List.mem_flatMap.1 h
    split at h
    · exact (List.not_mem_nil h).elim
    · obtain ⟨scope, hscope, rfl⟩ := List.mem_map.1 h
      have := (List.mem_filter.1 hscope).2
      rw [Bool.and_eq_true, Bool.not_eq_true'] at this
      exact this.1
  · obtain ⟨p, hp, rfl⟩ := List.mem_map.1 h
    simpa using (Table.mem_select.1 hp).2

/-- Legacy assignments that fit the rules of the server: no group with more than sixteen clients or
resources, and no value that is empty or too long. -/
structure Translatable (legacy : LegacyDatabase) : Prop where
  targets : ∀ g ∈ legacy.db.groups, targeted legacy g.id = true →
    AcceptableTargets (clientsOf legacy g.id) ∧ AcceptableTargets (resourcesOf legacy g.id)
  grants : ∀ grant ∈ offeredGrants legacy ++ explicitGrants legacy,
    isRuleValue grant.resourceUri = true ∧ isRuleValue grant.scope = true

/-- The server accepts a condition: its schema, and the validation of a rule as it is read. -/
def Accepted (effect : PermissionRuleEffect) (condition : PermissionRuleCondition) : Prop :=
  conditionSchema condition = true ∧
    validateRuleInputs [⟨none, effect, condition⟩] = .ok [⟨none, effect, condition⟩]

theorem accepted_iff {effect : PermissionRuleEffect} {condition : PermissionRuleCondition} :
    Accepted effect condition ↔ validatePermissionGroupRule condition = true := by
  rw [Accepted, validateRuleInputs_single, validatePermissionGroupRule_eq]
  constructor
  · rintro ⟨-, h⟩
    cases hwell : wellFormedCondition condition <;> cases hscope : (inspectCondition 1 condition).standardScope <;>
      simp_all
  · intro h
    obtain ⟨hwell, hscope⟩ := Bool.and_eq_true_iff.1 h
    rw [Bool.not_eq_true'] at hscope
    have hschema : conditionSchema condition = true := by
      unfold wellFormedCondition at hwell
      simp only [Bool.and_eq_true] at hwell
      exact hwell.1.1
    exact ⟨hschema, by rw [if_pos hwell, hscope]; rfl⟩

theorem accepted_conditions_iff {legacy : LegacyDatabase} {randomId : Nat → Nat → String} :
    (∀ row ∈ migratedRules legacy randomId, ∀ condition, row.condition = some condition →
      validatePermissionGroupRule condition = true) ↔ Translatable legacy := by
  constructor
  · intro h
    have hall : ∀ condition, (∃ row ∈ migratedRules legacy randomId, row.condition = some condition) →
        validatePermissionGroupRule condition = true := fun condition ⟨row, hrow, hc⟩ => h row hrow condition hc
    refine ⟨fun g hg ht => ?_, fun grant hgrant => ?_⟩
    · exact (validate_baseCondition _ _).1 (hall _ (migratedRules_conditions.2 (.inl ⟨g, hg, ht, rfl⟩)))
    · exact (validate_scopeCondition (custom_of_mem_grants hgrant)).1
        (hall _ (migratedRules_conditions.2 (.inr (.inr ⟨grant, hgrant, rfl⟩))))
  · intro h row hrow condition hc
    rcases migratedRules_conditions.1 ⟨row, hrow, hc⟩ with ⟨g, hg, ht, rfl⟩ | ⟨admin, hadmin, ha⟩ | ⟨grant, hgrant, rfl⟩
    · exact (validate_baseCondition _ _).2 (h.targets g hg ht)
    · obtain ⟨g, -, rfl⟩ := List.mem_map.1 hadmin
      cases ha
      exact validate_adminCondition
    · exact (validate_scopeCondition (custom_of_mem_grants hgrant)).2 (h.grants grant hgrant)

/-- Every migrated rule holds a condition. -/
theorem migratedRules_some {legacy : LegacyDatabase} {randomId : Nat → Nat → String} {row : PermissionGroupRuleRow}
    (h : row ∈ migratedRules legacy randomId) : row.condition.isSome = true := by
  have hscope : ∀ {rules : List PermissionGroupRuleRow} {ids : Nat → String} {grants : List ScopeGrant},
      row ∈ scopeRules rules ids grants → row.condition.isSome = true := by
    intro rules ids grants h
    obtain ⟨numbered, -, rfl⟩ := List.mem_map.1 h
    rfl
  simp only [migratedRules, List.mem_append] at h
  rcases h with ((h | h) | h) | h
  · obtain ⟨g, -, rfl⟩ := List.mem_map.1 h
    rfl
  · obtain ⟨g, -, rfl⟩ := List.mem_map.1 h
    rfl
  · exact hscope h
  · exact hscope h

/-- The policies after the migration are valid for every user exactly when the legacy assignments fit
the limits of the server. -/
theorem migration_valid_iff (legacy : LegacyDatabase) (randomId : Nat → Nat → String) (db : Database)
    (h : migrate legacy randomId = some db) :
    ((∀ row ∈ migratedRules legacy randomId, ∀ condition, row.condition = some condition → Accepted row.effect condition) ∧
      ((migratedRules legacy randomId).map fun row => (row.groupId, row.position)).Nodup ∧
      ∀ userId, (getUserPermissionRules db userId).valid = true) ↔ Translatable legacy := by
  have haccepted : (∀ row ∈ migratedRules legacy randomId, ∀ condition, row.condition = some condition →
      Accepted row.effect condition) ↔ Translatable legacy := by
    simp only [accepted_iff]
    exact accepted_conditions_iff
  rw [haccepted]
  refine and_iff_left_of_imp fun ht => ⟨migratedRules_places legacy randomId, fun userId => ?_⟩
  rw [valid_iff]
  rintro g r ⟨-, hr, -⟩
  obtain ⟨rules, hrules, rfl⟩ := Option.map_eq_some_iff.1 h
  rcases mem_insertRules hrules r hr with hr | hr
  · exact (Table.not_mem_empty hr).elim
  · obtain ⟨condition, hc⟩ := Option.isSome_iff_exists.1 (migratedRules_some hr)
    exact (Option.any_eq_true _ _).2 ⟨condition, hc, accepted_conditions_iff.2 ht r hr condition hc⟩

/-! ## Small legacy databases -/

/-- One group with the given clients, one API and an explicit grant. -/
def staffLegacy (clientIds : List String) : LegacyDatabase where
  db := { Deployment.database with
    permissionGroupRules := ∅
    clients := clientIds.foldl (fun t clientId => t.insert { Deployment.client with clientId }) Deployment.database.clients }
  clientGroups := clientIds.foldl (fun t clientId => t.insert ⟨clientId, "grp_a"⟩) ∅
  resourceGroups := (∅ : Table fun r : ResourcePermissionGroupRow => (r.resourceUri, r.groupId)).insert
    ⟨"https://api.example.com", "grp_a"⟩
  scopeGroups := (∅ : Table fun r : ScopePermissionGroupRow => (r.resourceUri, r.scope, r.groupId)).insert
    ⟨"https://api.example.com", "api.read", "grp_a", .allow⟩

def hexId (statement row : Nat) : String :=
  "prule_" ++ toString statement ++ toString row

theorem migration_valid_iff_one_client :
    ∃ db, migrate (staffLegacy ["app"]) hexId = some db ∧
      (((∀ row ∈ migratedRules (staffLegacy ["app"]) hexId, ∀ condition, row.condition = some condition →
          Accepted row.effect condition) ∧
        ((migratedRules (staffLegacy ["app"]) hexId).map fun row => (row.groupId, row.position)).Nodup ∧
        ∀ userId, (getUserPermissionRules db userId).valid = true) ↔ Translatable (staffLegacy ["app"])) := by
  have hsome : (migrate (staffLegacy ["app"]) hexId).isSome = true := by decide +kernel
  obtain ⟨db, h⟩ := Option.isSome_iff_exists.1 hsome
  exact ⟨db, h, migration_valid_iff _ _ db h⟩

def seventeenClients : List String :=
  (List.range 17).map fun n => "app" ++ toString n

/-- The base rule of a group with seventeen clients is refused, and its members have no valid policy. -/
theorem migration_of_seventeen_clients :
    ∃ db, migrate (staffLegacy seventeenClients) hexId = some db ∧
      (∃ row ∈ db.permissionGroupRules, ∃ condition, row.condition = some condition ∧ ¬ Accepted row.effect condition) ∧
      (getUserPermissionRules db "usr_a").valid = false := by
  have h : ((migrate (staffLegacy seventeenClients) hexId).any fun db =>
      (db.permissionGroupRules.has fun row => row.condition.any fun condition => !validatePermissionGroupRule condition) &&
        !(getUserPermissionRules db "usr_a").valid) = true := by
    decide +kernel
  obtain ⟨db, hdb, h⟩ := (Option.any_eq_true _ _).1 h
  obtain ⟨hrule, hvalid⟩ := Bool.and_eq_true_iff.1 h
  obtain ⟨row, hrow, hc⟩ := Table.has_iff.1 hrule
  obtain ⟨condition, hc, hinvalid⟩ := (Option.any_eq_true _ _).1 hc
  rw [Bool.not_eq_true'] at hinvalid hvalid
  refine ⟨db, hdb, ⟨row, hrow, condition, hc, fun haccepted => ?_⟩, hvalid⟩
  rw [accepted_iff, hinvalid] at haccepted
  cases haccepted

end Keyforge.Policy
