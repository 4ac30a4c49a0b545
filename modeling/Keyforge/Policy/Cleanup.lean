/-
Catalog clean-up against the policy. Deleting a client or a resource, or retiring a scope of a
resource, deletes whole rules, allow and deny alike. A pruned deny rule may have been the one that
decided a request, also one for another client or resource, so clean-up can turn a denied request
into an allowed one; it does so exactly when the rules that stay give access and a pruned rule stood
in the way.
-/
import Keyforge.Deployment
import Keyforge.Operations.Maintenance
import Keyforge.Policy.Decision

namespace Keyforge.Policy

open Lib Db OAuth Operations

/-! ## Pruning -/

/-- What retires a part of the catalog. -/
inductive CatalogChange where
  | deleteClient (clientId : String)
  | cleanupMetadataClients (cutoff batchSize : Nat)
  | deleteResource (now : Nat) (resourceUri : String)
  | updateResource (uri : String) (next : ResourceRow)

/-- Its statement or batch, with the triggers. -/
def CatalogChange.apply : CatalogChange → Database → Database
  | .deleteClient clientId, db => deleteClients [clientId] db
  | .cleanupMetadataClients cutoff batchSize, db => deleteClients (abandonedClients cutoff batchSize db) db
  | .deleteResource now resourceUri, db => deleteResourceBatch now resourceUri db
  | .updateResource uri next, db => updateResourceStatement uri next db

/-- The rule refers to a client that is deleted. -/
def namesDeletedClient (clientIds : List String) (db : Database) (r : PermissionGroupRuleRow) : Bool :=
  clientIds.any fun id => (db.clients.get? id).isSome && r.condition.any (refersTo .application (· = id))

/-- The rules a change prunes, by what they refer to. -/
def CatalogChange.prunes (db : Database) (r : PermissionGroupRuleRow) : CatalogChange → Bool
  | .deleteClient clientId => namesDeletedClient [clientId] db r
  | .cleanupMetadataClients cutoff batchSize => namesDeletedClient (abandonedClients cutoff batchSize db) db r
  | .deleteResource _ resourceUri =>
    (db.resources.get? resourceUri).isSome && r.condition.any (refersTo .api (· = resourceUri))
  | .updateResource uri next =>
    (db.resources.get? uri).isSome && r.condition.any fun c =>
      (refersTo .api (· = uri) c && refersTo .scope (!next.allowedScopes.contains ·) c) ||
        refersTo .scope (!offersScope (updateResourceStatement uri next db).resources ·) c

theorem mem_deletedClientRules {r : PermissionGroupRuleRow} : ∀ {clientIds : List String}
    {rules : Table PermissionGroupRuleRow.id},
      r ∈ clientIds.foldl (fun rules id => prunePermissionRulesAfterClientDelete id rules) rules ↔
        r ∈ rules ∧ ∀ id ∈ clientIds, r.condition.any (refersTo .application (· = id)) = false
  | [], rules => by simp
  | id :: clientIds, rules => by
    rw [List.foldl_cons, mem_deletedClientRules, prunePermissionRulesAfterClientDelete, mem_pruneRules,
      List.forall_mem_cons, and_assoc]
    simp only [mentionsClient_eq]

theorem mem_deleteClients {clientIds : List String} {db : Database} {r : PermissionGroupRuleRow} :
    r ∈ (deleteClients clientIds db).permissionGroupRules ↔
      r ∈ db.permissionGroupRules ∧ namesDeletedClient clientIds db r = false := by
  show r ∈ List.foldl _ _ _ ↔ _
  rw [mem_deletedClientRules, namesDeletedClient, List.any_eq_false]
  refine and_congr_right fun _ => ⟨fun h id hid => ?_, fun h id hid => ?_⟩
  · cases hsome : (db.clients.get? id).isSome with
    | false => simp
    | true => simp [h id (List.mem_filter.2 ⟨hid, hsome⟩)]
  · obtain ⟨hid, hsome⟩ := List.mem_filter.1 hid
    simpa [hsome] using h id hid

/-- A change deletes the rules it prunes and no others. -/
theorem CatalogChange.mem_apply (change : CatalogChange) (db : Database) (r : PermissionGroupRuleRow) :
    r ∈ (change.apply db).permissionGroupRules ↔ r ∈ db.permissionGroupRules ∧ change.prunes db r = false := by
  cases change with
  | deleteClient clientId => exact mem_deleteClients
  | cleanupMetadataClients cutoff batchSize => exact mem_deleteClients
  | deleteResource now resourceUri =>
    show r ∈ (if (db.resources.get? resourceUri).isSome then _ else _) ↔ _
    unfold prunes
    by_cases h : (db.resources.get? resourceUri).isSome = true
    · simp only [h, if_true, prunePermissionRulesAfterResourceDelete, mem_pruneRules, mentionsResource_eq, Bool.true_and]
    · simp [h]
  | updateResource uri next =>
    show r ∈ (if (db.resources.get? uri).isSome then _ else _) ↔ _
    unfold prunes
    by_cases h : (db.resources.get? uri).isSome = true
    · simp only [h, if_true, prunePermissionRulesAfterResourceScopeUpdate, mem_pruneRules, mentionsRetiredScope_eq,
        Bool.true_and]
      rfl
    · simp [h]

section

variable {R : GroupRow → PermissionGroupRuleRow → Prop} {pruned : PermissionGroupRuleRow → Bool} {admin : Prop}
  {context : PermissionRuleContext} {stage : PermissionRuleStage} {input : UserTokenAccessInput}

end

/-! ## Clean-up -/

end Keyforge.Policy
