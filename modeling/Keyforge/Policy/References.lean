/-
References of stored rules over whole runs. Rules are replaced, resources are created, edited and
deleted, and clients are deleted, in any interleaving. The triggers keep every reference resolved
except in two places: the deletion of a resource does not look at the scopes that only it offered,
and `replacePermissionGroupRules` writes what it checked some awaits earlier. In every run in which
neither happens, no stored rule dangles.
-/
import Keyforge.Policy.Catalog

namespace Keyforge.Policy

open Lib Db OAuth Operations

/-! ## The invariant -/

/-- Every value a stored rule refers to exists. -/
def NoDangling (db : Database) : Prop :=
  ∀ rule ∈ db.permissionGroupRules, ∀ condition, rule.condition = some condition →
    ∀ r ∈ listPermissionRuleReferences condition, referenceExists db r = true

/-- `NoDangling`, tested. -/
def noDangling (db : Database) : Bool :=
  db.permissionGroupRules.rows.all fun rule => rule.condition.all fun condition =>
    (listPermissionRuleReferences condition).all (referenceExists db)

theorem noDangling_iff {db : Database} : noDangling db = true ↔ NoDangling db := by
  simp only [noDangling, List.all_eq_true, Option.all_eq_true]
  rfl

/-- A step keeps what its rules refer to: a rule it writes passes the reference check in the state
before, and a resource it deletes is not the only one to offer a scope that a rule without a reference
to that resource names. -/
structure Careful (db db' : Database) : Prop where
  written : ∀ rule ∈ db'.permissionGroupRules, rule ∉ db.permissionGroupRules → ∀ condition,
    rule.condition = some condition → referenceIssue [condition] db = none
  deleted : ∀ uri, (db.resources.get? uri).isSome → db'.resources.get? uri = none →
    ∀ rule ∈ db.permissionGroupRules, ∀ condition, rule.condition = some condition →
      (.api, uri) ∉ listPermissionRuleReferences condition → ∀ scope,
        (.scope, scope) ∈ listPermissionRuleReferences condition →
          ∃ r ∈ db.resources, r.resourceUri ≠ uri ∧ scope ∈ r.allowedScopes

/-- One step: rules that stay keep their references, rules that are new have theirs. -/
theorem NoDangling.step {db db' : Database} (hi : NoDangling db)
    (hstay : ∀ rule ∈ db'.permissionGroupRules, rule ∈ db.permissionGroupRules → ∀ condition,
      rule.condition = some condition → ∀ r ∈ listPermissionRuleReferences condition, referenceExists db r = true →
        referenceExists db' r = true)
    (hnew : ∀ rule ∈ db'.permissionGroupRules, rule ∉ db.permissionGroupRules → ∀ condition,
      rule.condition = some condition → ∀ r ∈ listPermissionRuleReferences condition, referenceExists db' r = true) :
    NoDangling db' := by
  intro rule hrule condition hc r hr
  by_cases hold : rule ∈ db.permissionGroupRules
  · exact hstay rule hrule hold condition hc r hr (hi rule hold condition hc r hr)
  · exact hnew rule hrule hold condition hc r hr

/-- A step that only removes rules. -/
theorem NoDangling.remove {db db' : Database} (hi : NoDangling db)
    (hsub : ∀ rule ∈ db'.permissionGroupRules, rule ∈ db.permissionGroupRules)
    (hstay : ∀ rule ∈ db'.permissionGroupRules, ∀ condition, rule.condition = some condition →
      ∀ r ∈ listPermissionRuleReferences condition, referenceExists db r = true → referenceExists db' r = true) :
    NoDangling db' :=
  hi.step (fun rule hrule _ => hstay rule hrule) fun rule hrule hold => absurd (hsub rule hrule) hold

/-- What exists depends on the clients and the resources. -/
theorem referenceExists_congr {db db' : Database} (hclients : db'.clients = db.clients)
    (hresources : db'.resources = db.resources) (r : PermissionRuleField × String) :
    referenceExists db' r = referenceExists db r := by
  obtain ⟨field, value⟩ := r
  cases field <;> simp only [referenceExists, hclients, hresources]

/-! ## The statements -/

theorem replaceRules_noDangling {groupId : String} {rows : List PermissionGroupRuleRow} {db db' : Database}
    (hi : NoDangling db) (hdb : db' = (replaceRulesBatch groupId rows db).2) (hcareful : Careful db db') :
    NoDangling db' := by
  have hcatalog : db'.clients = db.clients ∧ db'.resources = db.resources := by
    rw [hdb]
    unfold replaceRulesBatch
    dsimp only
    split
    · split <;> exact ⟨rfl, rfl⟩
    · exact ⟨rfl, rfl⟩
  have hexists := referenceExists_congr hcatalog.1 hcatalog.2
  refine hi.step (fun _ _ _ _ _ r _ h => (hexists r).trans h) fun rule hrule hold condition hc r hr => ?_
  rw [hexists r]
  exact referenceExists_of_issue (hcareful.written rule hrule hold condition hc) (List.mem_singleton_self _) r hr

theorem createResource_noDangling {row : ResourceRow} {db : Database} (hi : NoDangling db) :
    NoDangling { db with resources := db.resources.insert row } := by
  refine hi.remove (fun _ h => h) fun rule _ condition _ r _ hex => ?_
  obtain ⟨field, value⟩ := r
  cases field with
  | application => exact hex
  | api =>
    obtain ⟨resource, hget⟩ := Option.isSome_iff_exists.1 hex
    show ((db.resources.insert row).get? value).isSome = true
    rw [Table.get?_insert_mono hget]
    rfl
  | scope =>
    obtain ⟨resource, hmem, hoffers⟩ := Table.has_iff.1 hex
    exact Table.has_iff.2 ⟨resource, Table.mem_insert.2 (Or.inl hmem), hoffers⟩

/-- The trigger keeps no rule on a scope that nothing offers any more. -/
theorem updateResource_noDangling {uri : String} {next : ResourceRow} {db : Database} (hi : NoDangling db) :
    NoDangling (updateResourceStatement uri next db) := by
  have hmem := CatalogChange.mem_apply (.updateResource uri next) db
  cases hget : db.resources.get? uri with
  | none =>
    have hself : updateResourceStatement uri next db = db := by
      have hresources : db.resources.update (fun r => decide (r.resourceUri = uri)) (resourceColumns next)
          (resourceColumns_resourceUri next) = db.resources := by
        refine Table.update_eq_self _ fun r hr => ?_
        exact decide_eq_false (Table.get?_eq_none.1 hget r hr)
      unfold updateResourceStatement
      dsimp only
      rw [hresources, hget]
      rfl
    rw [hself]
    exact hi
  | some current =>
    refine hi.remove (fun rule hrule => ((hmem rule).1 hrule).1) fun rule hrule condition hc r hr hex => ?_
    obtain ⟨field, value⟩ := r
    cases field with
    | application => exact hex
    | api => exact (Table.isSome_get?_update (resourceColumns_resourceUri next)).trans hex
    | scope =>
      have hpruned := ((hmem rule).1 hrule).2
      simp only [CatalogChange.prunes, hget, Option.isSome_some, Bool.true_and, hc, Option.any_some,
        Bool.or_eq_false_iff] at hpruned
      have hoffered := refersTo_eq_false.1 hpruned.2 value hr
      rw [Bool.not_eq_false'] at hoffered
      exact hoffered

theorem deleteResource_noDangling {now : Nat} {uri : String} {db : Database} (hi : NoDangling db)
    (hcareful : Careful db (deleteResourceBatch now uri db)) : NoDangling (deleteResourceBatch now uri db) := by
  have hmem := CatalogChange.mem_apply (.deleteResource now uri) db
  refine hi.remove (fun rule hrule => ((hmem rule).1 hrule).1) fun rule hrule condition hc r hr hex => ?_
  obtain ⟨field, value⟩ := r
  cases field with
  | application => exact (Table.isSome_get?_update (withoutResource_clientId uri)).trans hex
  | api =>
    obtain ⟨resource, hresource⟩ := Option.isSome_iff_exists.1 hex
    show (Table.get? (Table.delete _ _) value).isSome = true
    rw [Table.get?_delete, hresource, Option.filter_some]
    have hne : resource.resourceUri ≠ uri := by
      intro he
      have hvalue : value = uri := (Table.get?_eq_some.1 hresource).2.symm.trans he
      have hpruned := ((hmem rule).1 hrule).2
      subst hvalue
      simp only [CatalogChange.prunes, hresource, Option.isSome_some, Bool.true_and, hc, Option.any_some] at hpruned
      simpa using refersTo_eq_false.1 hpruned value hr
    simp [hne]
  | scope =>
    obtain ⟨resource, hresource, hoffers⟩ := Table.has_iff.1 hex
    by_cases hne : resource.resourceUri = uri
    swap
    · exact Table.has_iff.2 ⟨resource, Table.mem_delete.2 ⟨hresource, decide_eq_false hne⟩, hoffers⟩
    have hget : (db.resources.get? uri).isSome = true := by
      rw [← hne, Table.get?_of_mem hresource]
      rfl
    have hgone : (deleteResourceBatch now uri db).resources.get? uri = none := by
      show (Table.delete _ _).get? uri = none
      rw [Table.get?_delete, ← hne, Table.get?_of_mem hresource, Option.filter_some]
      simp
    have hapi : (.api, uri) ∉ listPermissionRuleReferences condition := by
      intro happ
      have hpruned := ((hmem rule).1 hrule).2
      simp only [CatalogChange.prunes, hget, Bool.true_and, hc, Option.any_some] at hpruned
      simpa using refersTo_eq_false.1 hpruned uri happ
    obtain ⟨other, hother, hneq, hoffers⟩ :=
      hcareful.deleted uri hget hgone rule ((hmem rule).1 hrule).1 condition hc hapi value hr
    exact Table.has_iff.2 ⟨other, Table.mem_delete.2 ⟨hother, decide_eq_false hneq⟩, List.contains_iff_mem.2 hoffers⟩

theorem deleteClients_noDangling {clientIds : List String} {db : Database} (hi : NoDangling db) :
    NoDangling (deleteClients clientIds db) := by
  refine hi.remove (fun rule hrule => (mem_deleteClients.1 hrule).1) fun rule hrule condition hc r hr hex => ?_
  obtain ⟨field, value⟩ := r
  cases field with
  | application =>
    obtain ⟨client, hclient⟩ := Option.isSome_iff_exists.1 hex
    show (Table.get? (Table.delete _ _) value).isSome = true
    rw [Table.get?_delete, hclient, Option.filter_some]
    have hkept : value ∉ clientIds := by
      intro hmem
      have hpruned := (mem_deleteClients.1 hrule).2
      rw [namesDeletedClient, List.any_eq_false] at hpruned
      have hvalue := hpruned value hmem
      simp only [hclient, Option.isSome_some, Bool.true_and, hc, Option.any_some, Bool.not_eq_true] at hvalue
      simpa using refersTo_eq_false.1 hvalue value hr
    have hid : client.clientId = value := (Table.get?_eq_some.1 hclient).2
    simp [hid, hkept]
  | api => exact hex
  | scope => exact hex

/-! ## The system -/

/-- The requests that run side by side. -/
inductive CatalogCall where
  | replaceRules (groupId : String) (rules : List PermissionGroupRuleInput) (newIds : Nat → String)
  | createResource (input : CreateResourceInput)
  | updateResource (uri : String) (patch : ResourcePatch)
  | deleteResource (resourceUri : String)
  | deleteClient (clientId : String)
  | cleanup (cutoff batchSize now : Nat)

def CatalogCall.code : CatalogCall → App Unit
  | .replaceRules groupId rules newIds => do
    let _ ← replacePermissionGroupRules groupId rules newIds
    pure ()
  | .createResource input => Db.createResource input
  | .updateResource uri patch => do
    let _ ← Db.updateResource uri patch
    pure ()
  | .deleteResource resourceUri => do
    let _ ← Db.deleteResource resourceUri
    pure ()
  | .deleteClient clientId => do
    let _ ← Db.deleteClient clientId
    pure ()
  | .cleanup cutoff batchSize now => do
    let _ ← cleanupTerminalRows cutoff batchSize now
    pure ()

/-- Requests arrive at any time; `allow` says which steps can happen. -/
def catalogSystem (allow : Database → Database → Prop) : System CatalogCall Input World (Except Failure Unit) where
  code := fun c => c.code.run
  allow := fun w _ w' => allow w.db w'.db
  arrive := fun _ _ => True

/-- The protocol of the system's programs. -/
def catalogProtocol : Protocol Input World :=
  .sharing (fun w => NoDangling w.db) fun w _ w' => Careful w.db w'.db

theorem catalog_clocked : Clocked catalogProtocol where
  ok := ⟨fun _ => trivial, fun _ _ => trivial⟩
  tickInv := fun _ h => h
  tickRely := fun _ _ => trivial
  tickGuar := fun _ _ => trivial
  tickAllow := fun _ h => h
  guarTick := fun _ _ => trivial

/-- A D1 statement or batch whose outcome has no dangling rules. -/
theorem statement_keeps {α : Type} {stmt : Database → α × Database}
    (h : ∀ db, NoDangling db → Careful db (stmt db).2 → NoDangling (stmt db).2) : Keeps catalogProtocol (d1 stmt) := by
  refine .d1 catalog_clocked fun w w' e hi hw' ha => ⟨?_, trivial⟩
  have hdb : w'.db = (stmt w.db).2 := by rw [hw']
  have hcareful : Careful w.db w'.db := ha
  show NoDangling w'.db
  rw [hdb] at hcareful ⊢
  exact h w.db hi hcareful

theorem cleanupTable_keeps {batchSize : Nat} {keys : Database → List String} {remove : List String → Database → Database}
    (h : ∀ ids db, NoDangling db → NoDangling (remove ids db)) :
    ∀ batches, Keeps catalogProtocol (cleanupTable batchSize keys remove batches)
  | 0 => .pure _
  | batches + 1 => by
    refine .bind (statement_keeps fun db hi _ => h _ db hi) fun changes => .ite (.pure _) ?_
    exact .bind (cleanupTable_keeps h batches) fun _ => .pure _

theorem runCleanupStatements_keeps {batchSize : Nat} : ∀ {statements : List CleanupStatement},
    (∀ statement ∈ statements, ∀ ids db, NoDangling db → NoDangling (statement.remove ids db)) →
      Keeps catalogProtocol (runCleanupStatements batchSize statements)
  | [], _ => .pure _
  | statement :: statements, h => by
    refine .bind (cleanupTable_keeps (h statement List.mem_cons_self) _) fun deleted => ?_
    exact .bind (runCleanupStatements_keeps fun s hs => h s (List.mem_cons_of_mem _ hs)) fun _ => .pure _

theorem cleanupTerminalRows_keeps (cutoff batchSize now : Nat) :
    Keeps catalogProtocol (cleanupTerminalRows cutoff batchSize now) := by
  refine runCleanupStatements_keeps ?_
  simp only [cleanupStatements, List.forall_mem_cons]
  -- all tables but the clients hold no reference and nothing a rule refers to
  refine ⟨fun _ _ hi => hi, fun _ _ hi => hi, fun _ _ hi => hi, fun _ _ hi => hi, fun _ _ hi => hi, fun _ _ hi => hi,
    fun _ _ hi => hi, fun _ _ hi => hi, fun _ _ hi => deleteClients_noDangling hi, ?_⟩
  exact List.forall_mem_nil _

theorem replacePermissionGroupRules_keeps (groupId : String) (rules : List PermissionGroupRuleInput) (newIds : Nat → String) :
    Keeps catalogProtocol (replacePermissionGroupRules groupId rules newIds) := by
  have hc := catalog_clocked
  unfold replacePermissionGroupRules
  split
  · exact .pure _
  · refine .bind (.of_quiet hc (.all (.select _) (.select _))) fun found => .ite (.pure _) (.ite (.pure _) ?_)
    refine .bind (.select hc _) fun issue => ?_
    split
    · exact .pure _
    · refine .bind (statement_keeps fun db hi hcareful => ?_) fun _ => .bind (.require _ _) fun _ => .pure _
      exact replaceRules_noDangling hi rfl hcareful

theorem catalogCall_keeps (c : CatalogCall) : Keeps catalogProtocol c.code := by
  have hc := catalog_clocked
  cases c with
  | replaceRules groupId rules newIds => exact .bind (replacePermissionGroupRules_keeps groupId rules newIds) fun _ => .pure _
  | createResource input =>
    refine .bind (statement_keeps fun db hi _ => ?_) fun _ => .require _ _
    split
    · exact createResource_noDangling hi
    · exact hi
  | updateResource uri patch =>
    refine .bind (.bind (.select hc _) fun current => ?_) fun _ => .pure _
    split
    · exact .pure _
    · refine .bind (statement_keeps fun db hi _ => ?_) fun _ => .bind (.require _ _) fun _ => .pure _
      split
      · exact updateResource_noDangling hi
      · exact hi
  | deleteResource resourceUri =>
    refine .bind (.bind (.select hc _) fun registered => .ite (.pure _) (.io hc fun w e hi ha => ?_)) fun _ => .pure _
    exact ⟨deleteResource_noDangling hi ha, trivial⟩
  | deleteClient clientId => exact .bind (statement_keeps fun db hi _ => deleteClients_noDangling hi) fun _ => .pure _
  | cleanup cutoff batchSize now => exact .bind (cleanupTerminalRows_keeps cutoff batchSize now) fun _ => .pure _

/-- No stored rule dangles in any state of a run whose steps are all careful. -/
theorem references_resolved_in_careful_runs (w₀ : World) (h₀ : NoDangling w₀.db)
    (P : Pool CatalogCall Input World (Except Failure Unit)) (hP : (catalogSystem Careful).Reach ⟨w₀, []⟩ P) :
    NoDangling P.store.db := by
  refine System.reach_inv (I := fun w => NoDangling w.db) (fun c w hi => ?_) h₀ hP
  exact wp_of_wpE (catalogCall_keeps c w hi)

/-! ## Runs -/

/-- A test that implies `Careful`: it asks the reference check of every rule that is there after the step. -/
def careful (db db' : Database) : Bool :=
  (db'.permissionGroupRules.rows.all fun rule => rule.condition.all fun condition =>
    (referenceIssue [condition] db).isNone) &&
  db.resources.rows.all fun gone => (db'.resources.get? gone.resourceUri).isSome ||
    db.permissionGroupRules.rows.all fun rule => rule.condition.all fun condition =>
      (listPermissionRuleReferences condition).all fun r => r.1 ≠ .scope ||
        db.resources.rows.any fun other => other.resourceUri ≠ gone.resourceUri && other.allowedScopes.contains r.2

theorem careful_of_test {db db' : Database} (h : careful db db' = true) : Careful db db' := by
  rw [careful, Bool.and_eq_true] at h
  constructor
  · intro rule hrule _ condition hc
    have := List.all_eq_true.1 h.1 rule hrule
    rw [hc, Option.all_some] at this
    exact Option.isNone_iff_eq_none.1 this
  · intro uri hsome hnone rule hrule condition hc _ scope hscope
    obtain ⟨gone, hgone⟩ := Option.isSome_iff_exists.1 hsome
    obtain ⟨hmem, rfl⟩ := Table.get?_eq_some.1 hgone
    have := List.all_eq_true.1 h.2 gone hmem
    rw [hnone, Option.isSome_none, Bool.false_or] at this
    have := List.all_eq_true.1 this rule hrule
    rw [hc, Option.all_some] at this
    have := List.all_eq_true.1 this _ hscope
    simp only [ne_eq, not_true, decide_false, Bool.false_or, List.any_eq_true, Bool.and_eq_true, decide_eq_true_eq,
      List.contains_iff_mem] at this
    exact this

/-- The API and the reports, with one rule. -/
def oneRule (condition : PermissionRuleCondition) : World :=
  { twoResources with
    db := { twoResources.db with
      permissionGroupRules := (∅ : Table PermissionGroupRuleRow.id).insert
        { id := "prule_a", groupId := "grp_a", effect := .allow, condition := some condition, position := 0 } } }

def deleteReports : List (System.Move CatalogCall Input) :=
  .arrive (.deleteResource "urn:reports") :: (List.replicate 2 (.run 0 Deployment.ok) ++ [])

/-- Deleting the reports leaves a rule on the API's scope, resolved. -/
theorem references_resolved_in_careful_runs_api :
    let P := (catalogSystem Careful).moves ⟨oneRule (.single .scope .equals "api.read"), []⟩ deleteReports
    P.store.db.resources.get? "urn:reports" = none ∧ P.store.db.permissionGroupRules.rows.length = 1 ∧
      NoDangling P.store.db := by
  intro P
  have hreach : (catalogSystem Careful).Reach ⟨oneRule (.single .scope .equals "api.read"), []⟩ P :=
    System.reach_moves deleteReports (System.allows_of_passes (fun w w' => careful w.db w'.db) (fun _ _ => trivial)
      (fun _ _ _ => careful_of_test) deleteReports (by decide +kernel))
  exact ⟨by decide +kernel, by decide +kernel,
    references_resolved_in_careful_runs _ (noDangling_iff.1 (by decide +kernel)) P hreach⟩

/-- Where every step can happen, deleting the only resource that offers a scope leaves the rules on that
scope dangling. -/
theorem deleted_resource_leaves_dangling_rule :
    let S := catalogSystem fun _ _ => True
    let w₀ := oneRule (.single .scope .equals "reports.read")
    let P := S.moves ⟨w₀, []⟩ deleteReports
    NoDangling w₀.db ∧ S.Reach ⟨w₀, []⟩ P ∧ ¬ NoDangling P.store.db := by
  intro S w₀ P
  refine ⟨noDangling_iff.1 (by decide +kernel), ?_, ?_⟩
  · exact System.reach_moves deleteReports ⟨trivial, System.allows_runs (fun _ _ _ => trivial) _ _ _ trivial⟩
  · rw [← noDangling_iff]
    decide +kernel

end Keyforge.Policy
