/-
Deleting a resource retires what refers to it. The batch of `deleteResource` rewrites five tables: no
client, no consent and no live authorization for the resource is left, and no row that does not concern
the resource, or that was at its end before, is touched. The allowed resources of a client are rebuilt
from the rows that `json_each` lists of them, in the order of their keys.
-/
import Keyforge.Db.Queries
import Keyforge.Deployment
import Keyforge.Logic
import Mathlib.Data.List.Sort

namespace Keyforge.Grant

open Lib Db

/-! ## Rows that end -/

/-- The rows of `t'` are those of `t`, but that those that concern something have come to their end. -/
structure Retires {α κ : Type} {key : α → κ} (concerns ended : α → Prop) (t t' : Table key) : Prop where
  noneLeft : ∀ a ∈ t', concerns a → ended a
  kept : ∀ a ∈ t, ¬concerns a ∨ ended a → a ∈ t'
  noneNew : ∀ a' ∈ t', a' ∈ t ∨ ∃ a ∈ t, key a = key a' ∧ concerns a ∧ ¬ended a

theorem retires_update {α κ : Type} {key : α → κ} {concerns ended : α → Prop} {t : Table key} {p : α → Bool} {f : α → α}
    (hf : ∀ a, key (f a) = key a) (hp : ∀ a, p a = true ↔ concerns a ∧ ¬ended a) (hend : ∀ a, p a = true → ended (f a)) :
    Retires concerns ended t (t.update p f hf) := by
  refine ⟨fun b hb hc => ?_, fun a ha h => ?_, fun b hb => ?_⟩
  · obtain ⟨a, ha, rfl⟩ := (Table.mem_update hf).1 hb
    split
    · rename_i hpa
      exact hend a hpa
    · rename_i hpa
      rw [if_neg hpa] at hc
      by_contra hne
      exact hpa ((hp a).2 ⟨hc, hne⟩)
  · refine (Table.mem_update hf).2 ⟨a, ha, (if_neg fun hpa => ?_).symm⟩
    obtain ⟨hc, hne⟩ := (hp a).1 hpa
    exact h.elim (fun hnc => hnc hc) hne
  · obtain ⟨a, ha, rfl⟩ := (Table.mem_update hf).1 hb
    split
    · rename_i hpa
      exact Or.inr ⟨a, ha, (hf a).symm, (hp a).1 hpa⟩
    · exact Or.inl ha

/-! ## The allowed resources of a client -/

/-- The `key` and `value` columns of `json_each` on an array of strings. -/
def jsonEach (values : List String) : List (Nat × String) :=
  values.zipIdx.map Prod.swap

/-- `SELECT json_group_array(value) FROM (SELECT … WHERE value != ? ORDER BY CAST(key AS INTEGER))`, from
the rows of `json_each` in whatever order they come. -/
def rebuiltResources (resourceUri : String) (rows : List (Nat × String)) : List String :=
  ((rows.filter (·.2 ≠ resourceUri)).insertionSort fun a b => a.1 ≤ b.1).map Prod.snd

theorem keys_jsonEach (values : List String) : (jsonEach values).map Prod.fst = List.range values.length := by
  rw [jsonEach, List.map_map]
  exact (List.zipIdx_map_snd 0 values).trans (List.range_eq_range' ..).symm

/-- The other resources stay, in their order. -/
theorem rebuiltResources_eq {resourceUri : String} {values : List String} {rows : List (Nat × String)}
    (h : rows.Perm (jsonEach values)) : rebuiltResources resourceUri rows = values.filter (· ≠ resourceUri) := by
  have hlt : (jsonEach values).Pairwise fun a b => a.1 < b.1 := by
    have hrange := List.pairwise_lt_range (n := values.length)
    rwa [← keys_jsonEach, List.pairwise_map] at hrange
  have hnodup : ((jsonEach values).map Prod.fst).Nodup := by
    rw [keys_jsonEach]
    exact List.nodup_range
  have hsorted : ((rows.filter (·.2 ≠ resourceUri)).insertionSort fun a b => a.1 ≤ b.1).Pairwise fun a b => a.1 ≤ b.1 :=
    List.pairwise_insertionSort _ _
  have hperm := (List.perm_insertionSort (fun a b : Nat × String => a.1 ≤ b.1) _).trans (h.filter (·.2 ≠ resourceUri))
  -- the keys are distinct, so there is one sorted list of these rows
  have hfiltered : (rows.filter (·.2 ≠ resourceUri)).insertionSort (fun a b => a.1 ≤ b.1) =
      (jsonEach values).filter (·.2 ≠ resourceUri) := by
    refine hperm.eq_of_pairwise (fun a b ha hb hab hba => ?_) hsorted ((hlt.filter _).imp Nat.le_of_lt)
    exact List.inj_on_of_nodup_map hnodup (List.mem_filter.1 (hperm.mem_iff.1 ha)).1 (List.mem_filter.1 hb).1
      (Nat.le_antisymm hab hba)
  rw [rebuiltResources, hfiltered, jsonEach, List.filter_map, List.map_map]
  show (List.filter ((fun v => decide (v ≠ resourceUri)) ∘ Prod.fst) values.zipIdx).map Prod.fst = _
  rw [← List.filter_map, List.zipIdx_map_fst]

/-! ## What the deletion leaves -/

/-- The client names the resource. -/
def Mentions (resourceUri : String) (c : ClientRow) : Prop :=
  resourceUri ∈ c.allowedResources ∨ c.defaultResource = some resourceUri

/-- `c'` is the client `c` without the resource: its other resources stay in their order, and its default
if it was another one. -/
structure Forgets (resourceUri : String) (c c' : ClientRow) : Prop where
  allowedResources : c'.allowedResources = c.allowedResources.filter (· ≠ resourceUri)
  otherDefault : c.defaultResource ≠ some resourceUri → c'.defaultResource = c.defaultResource
  ownDefault : c.defaultResource = some resourceUri → c'.defaultResource = none
  rest : c' = { c with allowedResources := c'.allowedResources, defaultResource := c'.defaultResource }
  unmentioned : ¬Mentions resourceUri c → c' = c

/-- The status of a device session that no one can use any more. -/
def IsFinal (status : DeviceStatus) : Prop :=
  status ≠ .pending ∧ status ≠ .approved

/-- What refers to the resource is retired, and nothing else changes. -/
structure Retired (resourceUri : String) (db db' : Database) : Prop where
  clientsKept : ∀ c ∈ db.clients, ∃ c' ∈ db'.clients, c'.clientId = c.clientId ∧ Forgets resourceUri c c'
  clientsOld : ∀ c' ∈ db'.clients, ∃ c ∈ db.clients, c.clientId = c'.clientId ∧ Forgets resourceUri c c'
  clients : ∀ c' ∈ db'.clients, ¬Mentions resourceUri c'
  consents : ∀ k, k ∈ db'.consents ↔ k ∈ db.consents ∧ k.resource ≠ resourceUri
  refreshTokens : Retires (·.resource = resourceUri) (·.revokedAt ≠ none) db.refreshTokens db'.refreshTokens
  grants : Retires (·.resource = resourceUri) (·.revokedAt ≠ none) db.grants db'.grants
  devices : Retires (·.resourceUri = some resourceUri) (IsFinal ·.status) db.devices db'.devices

theorem forgets_withoutResource (resourceUri : String) (c : ClientRow) :
    Forgets resourceUri c (withoutResource resourceUri c) where
  allowedResources := rfl
  otherDefault := fun h => if_neg h
  ownDefault := fun h => if_pos h
  rest := rfl
  unmentioned := by
    intro h
    have hfilter : c.allowedResources.filter (· ≠ resourceUri) = c.allowedResources := by
      refine List.filter_eq_self.2 fun v hv => decide_eq_true ?_
      rintro rfl
      exact h (Or.inl hv)
    have hdefault : (if c.defaultResource = some resourceUri then none else c.defaultResource) = c.defaultResource :=
      if_neg fun hd => h (Or.inr hd)
    rw [withoutResource, hfilter, hdefault]

theorem Forgets.not_mentions {resourceUri : String} {c c' : ClientRow} (h : Forgets resourceUri c c') :
    ¬Mentions resourceUri c' := by
  rintro (hmem | hdefault)
  · rw [h.allowedResources] at hmem
    simpa using (List.mem_filter.1 hmem).2
  · by_cases hc : c.defaultResource = some resourceUri
    · rw [h.ownDefault hc] at hdefault
      cases hdefault
    · exact hc ((h.otherDefault hc).symm.trans hdefault)

/-- A client that the statement does not select keeps its row. -/
theorem forgets_updated (resourceUri : String) (c : ClientRow) : Forgets resourceUri c
    (if (c.defaultResource = some resourceUri || c.allowedResources.contains resourceUri) = true then
      withoutResource resourceUri c else c) := by
  split
  · exact forgets_withoutResource resourceUri c
  · rename_i h
    have hno : ¬Mentions resourceUri c := by
      rintro (hmem | hdefault)
      · exact h (by simp [hmem])
      · exact h (by simp [hdefault])
    have hself := (forgets_withoutResource resourceUri c).unmentioned hno
    have := forgets_withoutResource resourceUri c
    rwa [hself] at this

theorem deleteResourceBatch_retired (now : Nat) (resourceUri : String) (db : Database) :
    Retired resourceUri db (deleteResourceBatch now resourceUri db) := by
  have hclient : ∀ c' ∈ (deleteResourceBatch now resourceUri db).clients,
      ∃ c ∈ db.clients, c.clientId = c'.clientId ∧ Forgets resourceUri c c' := by
    intro c' hc'
    obtain ⟨c, hc, rfl⟩ := (Table.mem_update (withoutResource_clientId resourceUri)).1 hc'
    refine ⟨c, hc, ?_, forgets_updated resourceUri c⟩
    split <;> rfl
  refine ⟨fun c hc => ?_, hclient, fun c' hc' => ?_, fun k => ?_, ?_, ?_, ?_⟩
  · refine ⟨_, (Table.mem_update (withoutResource_clientId resourceUri)).2 ⟨c, hc, rfl⟩, ?_, forgets_updated resourceUri c⟩
    split <;> rfl
  · obtain ⟨c, -, -, h⟩ := hclient c' hc'
    exact h.not_mentions
  · refine Table.mem_delete.trans (and_congr_right fun _ => ?_)
    exact decide_eq_false_iff_not
  · show Retires _ _ _ (db.refreshTokens.update _ (fun r => { r with revokedAt := some now }) fun _ => rfl)
    apply retires_update
    · simp
    · simp
  · show Retires _ _ _ (db.grants.update _ (fun g => { g with revokedAt := some now }) fun _ => rfl)
    apply retires_update
    · simp
    · simp
  · show Retires _ _ _ (db.devices.update _ (fun d => { d with status := .denied }) fun _ => rfl)
    apply retires_update
    · simp only [IsFinal, decide_eq_true_eq]
      tauto
    · simp [IsFinal]

/-- Whatever the database holds, a deletion that returns true has retired what refers to the resource, in
its own transaction, and left every other row of these tables as it was. -/
theorem deleteResource_retires {resourceUri : String} {w w' : World}
    (hrun : Runs (deleteResource resourceUri).run w (.ok true) w') : Retired resourceUri w.db w'.db := by
  have hc := alone_clocked
  have hP := alone_stable_db w.db
  refine post_of_runs (Q := fun r w' => r = true → Retired resourceUri w.db w'.db) (X := fun _ _ => True) hrun ?_ rfl
  rw [deleteResource, wpE_bind]
  refine wpE_select hc hP rfl (fun w₁ h₁ _ => ?_) fun _ _ _ => trivial
  rw [wpE_ite]
  refine ⟨fun _ hfalse => absurd hfalse Bool.false_ne_true, fun _ => ?_⟩
  refine wpE_io hc hP h₁ (fun w₂ _ h₂ _ _ => ⟨trivial, trivial, fun _ => ?_, fun _ => trivial⟩) fun _ _ _ => trivial
  rw [← h₂]
  exact deleteResourceBatch_retired w₂.nowSeconds resourceUri w₂.db

/-- The API of the deployment is deleted. -/
theorem deleteResource_retires_api : ∃ w', Runs (deleteResource "https://api.example.com").run Deployment.familyWorld
    (.ok true) w' ∧ Retired "https://api.example.com" Deployment.familyWorld.db w'.db := by
  obtain ⟨⟨r, w'⟩, hr⟩ : ∃ x, runOn Deployment.ok 3 (deleteResource "https://api.example.com").run Deployment.familyWorld = some x :=
    ⟨_, rfl⟩
  have htrue : r = .ok true := by
    cases hr
    rfl
  subst htrue
  exact ⟨w', runs_of_runOn hr, deleteResource_retires (runs_of_runOn hr)⟩

end Keyforge.Grant
