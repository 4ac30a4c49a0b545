/-
What a request saw in the database when a gate let it through: the audience, the consent and the user's
permission rules. Each gate reads on its own, and nothing is asked of what happens between the reads.
-/
import Keyforge.OAuth.Resources
import Keyforge.OAuth.UserTokenPolicy
import Keyforge.Paths

namespace Keyforge.OAuth

open Lib Db

/-! ## The audience -/

/-- The resource's policy admits the client, if it is a metadata client; `tr` saw the approval. -/
def AdmitsClient (client : ClientRow) (registered : ResourceRow) (tr : Steps) : Prop :=
  client.registrationType = .clientIdMetadata → registered.mcpEnabled = true ∧ registered.metadataClientPolicy ≠ .disabled ∧
    (registered.metadataClientPolicy = .adminApproved →
      Saw (fun db => db.approvals.get? (client.clientId, registered.resourceUri) ≠ none) tr)

/-- The audience and the scopes are within what the client and the registered resource allow. -/
structure AudienceGranted (client : ClientRow) (resource : String) (scopes : List String) (tr : Steps) : Prop where
  allowedResource : resource ∈ client.allowedResources
  allowedScopes : ∀ s ∈ scopes, s ∈ client.allowedScopes
  registered : ∃ r : ResourceRow, Saw (fun db => db.resources.get? resource = some r) tr ∧ r.enabled = true ∧
    (∀ s ∈ scopes, isPermissionGroupControlledScope s = true → s ∈ r.allowedScopes) ∧ AdmitsClient client r tr

theorem AudienceGranted.sublist {client : ClientRow} {resource : String} {scopes : List String} {tr tr' : Steps}
    (h : AudienceGranted client resource scopes tr) (hsub : tr.Sublist tr') : AudienceGranted client resource scopes tr' := by
  obtain ⟨r, hsaw, henabled, hscopes, hadmits⟩ := h.registered
  refine ⟨h.allowedResource, h.allowedScopes, r, hsaw.sublist hsub, henabled, hscopes, fun hclient => ?_⟩
  obtain ⟨hmcp, hpolicy, happroved⟩ := hadmits hclient
  exact ⟨hmcp, hpolicy, fun he => (happroved he).sublist hsub⟩

section

variable {env : Env} {client : ClientRow} {requestedResource : Option String} {scopes : List String}

theorem validateRequestedScopes_ends {requested allowed : List String} :
    endsE (validateRequestedScopes requested allowed)
      (fun scopes _ => scopes = requested ∧ ∀ s ∈ requested, s ∈ allowed) fun _ _ => True := by
  unfold validateRequestedScopes
  rw [endsE_bind, endsE_require]
  refine ⟨fun h => ⟨rfl, fun s hs => ?_⟩, fun _ => trivial⟩
  rw [List.isEmpty_iff, List.filter_eq_nil_iff] at h
  simpa using h s hs

/-- The resource found is registered, enabled, and one the client may use. -/
theorem resolveResourceRecord_ends (hyolo : env.yolo = false) :
    endsE (resolveResourceRecord env client requestedResource)
      (fun r tr => Saw (fun db => db.resources.get? r.resourceUri = some r) tr ∧ r.enabled = true ∧
        r.resourceUri ∈ client.allowedResources ∧ AdmitsClient client r tr) fun _ _ => True := by
  unfold resolveResourceRecord
  split
  · trivial
  · rename_i resource hresource
    rw [endsE_bind, endsE_require]
    refine ⟨fun hallowed => ?_, fun _ => trivial⟩
    rw [hyolo, Bool.false_or, List.contains_iff_mem] at hallowed
    rw [endsE_bind]
    refine endsE_select (fun w dt => ?_) fun _ => trivial
    cases hfound : (w.db.resources.get? resource).filter (·.enabled) with
    | none => simp [hyolo]
    | some r =>
      obtain ⟨hget, henabled⟩ := Option.filter_eq_some_iff.1 hfound
      obtain ⟨-, rfl⟩ := Table.get?_eq_some.1 hget
      -- the row is read in the first step
      have hsaw : ∀ tr, Saw (fun db => db.resources.get? r.resourceUri = some r) ((w, w.tick dt) :: tr) :=
        fun tr => .head hget
      dsimp only
      rw [endsE_bind, endsE_require]
      refine ⟨fun _ => ?_, fun _ => trivial⟩
      rw [endsE_bind, endsE_require]
      refine ⟨fun _ => ?_, fun _ => trivial⟩
      rw [hyolo, Bool.not_false, Bool.true_and]
      -- an approval is looked for only where the policy asks for one
      have hadmitted : ∀ (approved : Bool) (tr : Steps), admits r approved = true →
          (approved = true → Saw (fun db => db.approvals.get? (client.clientId, r.resourceUri) ≠ none) tr) →
          AdmitsClient client r tr := by
        intro approved tr hadmits happroved _
        simp only [admits, Bool.and_eq_true, Bool.or_eq_true, decide_eq_true_eq] at hadmits
        obtain ⟨⟨hmcp, hpolicy⟩, hpolicy'⟩ := hadmits
        exact ⟨hmcp, hpolicy, fun he => happroved (hpolicy'.resolve_left fun hne => hne he)⟩
      refine endsE_ite (fun hclient => endsE_ite (fun _ => ?_) fun _ => ?_) fun hclient => ?_
      · rw [endsE_bind]
        refine endsE_select (fun w' dt' => ?_) fun _ => trivial
        rw [endsE_bind, endsE_require]
        refine ⟨fun hadmits => ⟨hsaw _, henabled, hallowed, hadmitted _ _ hadmits fun h => .cons (.head ?_)⟩, fun _ => trivial⟩
        exact Option.isSome_iff_ne_none.1 h
      · rw [endsE_bind, endsE_pure, endsE_bind, endsE_require]
        exact ⟨fun hadmits => ⟨hsaw _, henabled, hallowed, hadmitted _ _ hadmits fun h => absurd h Bool.false_ne_true⟩, fun _ => trivial⟩
      · exact ⟨hsaw _, henabled, hallowed, fun h => absurd (decide_eq_true h) hclient⟩

/-- The audience with the complete scope policy. -/
theorem resolveResourceForScopes_ends (hyolo : env.yolo = false) :
    endsE (resolveResourceForScopes env client requestedResource scopes)
      (fun resource tr => AudienceGranted client resource scopes tr) fun _ _ => True := by
  unfold resolveResourceForScopes
  rw [endsE_bind]
  refine endsE_imp (fun r tr h => ?_) (fun _ _ _ => trivial) _ (resolveResourceRecord_ends hyolo)
  obtain ⟨hsaw, henabled, hallowed, hadmits⟩ := h
  dsimp only
  rw [if_neg (by simp [hyolo]), endsE_bind]
  refine endsE_imp (fun _ tr₁ h => ?_) (fun _ _ _ => trivial) _ validateRequestedScopes_ends
  rw [endsE_bind, endsE_tryCatch]
  refine endsE_imp (fun _ tr₂ h' => ?_) (fun error tr₂ _ => ?_) _ validateRequestedScopes_ends
  · refine AudienceGranted.sublist ⟨hallowed, h.2, r, hsaw, henabled, fun s hs hc => ?_, hadmits⟩
      (List.sublist_append_left _ _)
    exact h'.2 s (List.mem_filter.2 ⟨hs, hc⟩)
  · split <;> trivial

end

end Keyforge.OAuth
