/-
The consent of a user, a client and a resource is the union of what the user approved under the client's
current metadata. Any number of approvals, on the consent page and by devices, interleave with each
other and with those of other consents. The invariant: what is stored is joined pieces, and they are the
words of the approvals since the last one that changed the fingerprint.
-/
import Keyforge.Db.Devices
import Keyforge.Deployment
import Keyforge.Lib.Run
import Keyforge.OAuth.Checks
import Keyforge.Paths

namespace Keyforge.Grant

open Lib Db OAuth

/-! ## The calls -/

/-- A user, a client and a resource. -/
abbrev ConsentKey := String × String × String

/-- What was approved, and under which metadata. -/
structure Approval where
  scope : String
  metadataFingerprint : Option String
  deriving DecidableEq, Repr

inductive ConsentCall where
  | save (id : String) (input : SaveConsentInput)
  | approve (consentId : String) (input : ApproveDeviceInput)
  deriving DecidableEq, Repr

def ConsentCall.code : ConsentCall → App Bool
  | .save id input => do saveConsent id input; pure true
  | .approve consentId input => approveDeviceWithConsent consentId input

def ConsentCall.key : ConsentCall → ConsentKey
  | .save _ input => (input.userId, input.clientId, input.resource)
  | .approve _ input => (input.userId, input.clientId, input.resource)

/-- The approval of a device merges whatever fingerprint is stored. -/
def ConsentCall.merges : ConsentCall → Bool
  | .save .. => false
  | .approve .. => true

/-- A device's approval is for a client without a metadata fingerprint. -/
def ConsentCall.approval : ConsentCall → Approval
  | .save _ input => ⟨input.scope, input.metadataFingerprint⟩
  | .approve _ input => ⟨input.scope, none⟩

/-- The scope string joins tokens that the catalog's validation accepts. -/
def JoinsCatalog (scope : String) : Prop :=
  ∃ tokens, validateScopeCatalog tokens = .ok tokens ∧ scope = serializeScopes tokens

/-- What is asked of the calls for one consent: their scopes join tokens, and a client without metadata
(`metadata` is false) has no fingerprint; devices are approved for such clients only. -/
def ConsentCall.Fits (key : ConsentKey) (metadata : Bool) (c : ConsentCall) : Prop :=
  c.key = key → JoinsCatalog c.approval.scope ∧
    match c with
    | .save _ input => metadata = true ∨ input.metadataFingerprint = none
    | .approve _ _ => metadata = false

/-- Calls for this consent and for others arrive at any time, and any storage call may fail. -/
def consentSystem (key : ConsentKey) (metadata : Bool) : System ConsentCall Input World (Except Failure Bool) where
  code := fun c => c.code.run
  allow := fun _ _ _ => True
  arrive := fun _ c => c.Fits key metadata

/-! ## The approvals of a run -/

/-- The approval that a step committed for a consent. -/
def committedBy (key : ConsentKey) (P : Pool ConsentCall Input World (Except Failure Bool)) (t : Taken World) :
    Option Approval :=
  if t.after.log = .consentSaved key.1 key.2.1 key.2.2 :: t.before.log then
    (P.threads[t.thread]?).map fun thread => thread.1.approval
  else none

/-- The approvals of a consent, in the order in which they were committed. -/
def approvals (key : ConsentKey) (P : Pool ConsentCall Input World (Except Failure Bool)) (steps : List (Taken World)) :
    List Approval :=
  steps.filterMap (committedBy key P)

/-- The approvals from the last on, back to the last change of the fingerprint; the last comes first. -/
def sinceChange (approvals : List Approval) : List Approval :=
  match approvals.reverse with
  | [] => []
  | last :: earlier => last :: earlier.takeWhile (·.metadataFingerprint = last.metadataFingerprint)

/-- The fingerprint of the last approval. -/
def currentFingerprint (approvals : List Approval) : Option (Option String) :=
  approvals.getLast?.map (·.metadataFingerprint)

/-- Some approval under the current fingerprint has the scope. -/
def ApprovedScope (approvals : List Approval) (scope : String) : Prop :=
  ∃ a ∈ sinceChange approvals, scope ∈ parseScopeString (some a.scope)

section

variable {as : List Approval} {a : Approval}

theorem currentFingerprint_snoc : currentFingerprint (as ++ [a]) = some a.metadataFingerprint := by
  simp [currentFingerprint]

theorem sinceChange_snoc :
    sinceChange (as ++ [a]) = a :: as.reverse.takeWhile (·.metadataFingerprint = a.metadataFingerprint) := by
  rw [sinceChange, List.reverse_append]
  rfl

/-- An approval under the same fingerprint is added. -/
theorem sinceChange_same (h : currentFingerprint as = some a.metadataFingerprint) :
    sinceChange (as ++ [a]) = a :: sinceChange as := by
  rw [sinceChange_snoc, sinceChange]
  unfold currentFingerprint at h
  rw [List.getLast?_eq_head?_reverse] at h
  cases hr : as.reverse with
  | nil => rfl
  | cons last earlier =>
    rw [hr] at h
    have hf : last.metadataFingerprint = a.metadataFingerprint := Option.some.inj h
    rw [List.takeWhile_cons, hf, if_pos (decide_eq_true rfl)]
    show _ = a :: last :: earlier.takeWhile (·.metadataFingerprint = last.metadataFingerprint)
    rw [hf]

/-- An approval under another fingerprint starts anew. -/
theorem sinceChange_other (h : currentFingerprint as ≠ some a.metadataFingerprint) : sinceChange (as ++ [a]) = [a] := by
  rw [sinceChange_snoc]
  unfold currentFingerprint at h
  rw [List.getLast?_eq_head?_reverse] at h
  cases hr : as.reverse with
  | nil => rfl
  | cons last earlier =>
    rw [hr] at h
    rw [List.takeWhile_cons, if_neg]
    intro hf
    exact h (congrArg some (of_decide_eq_true hf))

end

/-! ## The invariant -/

/-- What is stored after some approvals. -/
def Stored (key : ConsentKey) (as : List Approval) (db : Database) : Prop :=
  match currentFingerprint as with
  | none => db.consents.get? key = none
  | some metadataFingerprint => ∃ row pieces, db.consents.get? key = some row ∧
      row.metadataFingerprint = metadataFingerprint ∧ row.scope = serializeScopes pieces ∧ pieces ≠ [] ∧
      (∀ s ∈ pieces, IsPiece s) ∧ ∀ s, s ≠ "" → (s ∈ pieces ↔ ApprovedScope as s)

/-- The pieces of a scope string that joins tokens; an empty one has an empty piece. -/
theorem JoinsCatalog.pieces {scope : String} (h : JoinsCatalog scope) :
    ∃ pieces, scope = serializeScopes pieces ∧ pieces ≠ [] ∧ (∀ s ∈ pieces, IsPiece s) ∧
      ∀ s, s ≠ "" → (s ∈ pieces ↔ s ∈ parseScopeString (some scope)) := by
  obtain ⟨tokens, hvalid, rfl⟩ := h
  have htoken := scopeToken_of_catalog hvalid
  cases tokens with
  | nil =>
    refine ⟨[""], rfl, List.cons_ne_nil _ _, fun s hs => Or.inl (List.mem_singleton.1 hs), fun s hs => ?_⟩
    rw [show parseScopeString (some (serializeScopes [])) = [] by decide]
    simp [hs]
  | cons token tokens =>
    refine ⟨token :: tokens, rfl, List.cons_ne_nil _ _, fun s hs => Or.inr (htoken s hs), fun s _ => ?_⟩
    rw [parse_serialize fun s hs => isWord_of_scopeToken (htoken s hs)]

/-- How an approval writes the row: a new row is the approval's; a stored one keeps its fingerprint and
gains the scopes if the statement merges (`merges`) or the fingerprints agree, and is replaced otherwise. -/
def Written (a : Approval) (merges : Bool) (before : Option ConsentRow) (row : ConsentRow) : Prop :=
  match before with
  | none => row.scope = a.scope ∧ row.metadataFingerprint = a.metadataFingerprint
  | some stored =>
    if merges = true ∨ stored.metadataFingerprint = a.metadataFingerprint then
      mergeScopes stored.scope a.scope = some row.scope ∧ row.metadataFingerprint = stored.metadataFingerprint
    else row.scope = a.scope ∧ row.metadataFingerprint = a.metadataFingerprint

section

variable {a : Approval} {merges : Bool} {stored row : ConsentRow}

theorem Written.merge (h : merges = true ∨ stored.metadataFingerprint = a.metadataFingerprint)
    (hscope : mergeScopes stored.scope a.scope = some row.scope) (hf : row.metadataFingerprint = stored.metadataFingerprint) :
    Written a merges (some stored) row := by
  rw [Written, if_pos h]
  exact ⟨hscope, hf⟩

theorem Written.replace (hm : merges = false) (h : stored.metadataFingerprint ≠ a.metadataFingerprint)
    (hscope : row.scope = a.scope) (hf : row.metadataFingerprint = a.metadataFingerprint) :
    Written a merges (some stored) row := by
  rw [Written, if_neg (by simp [hm, h])]
  exact ⟨hscope, hf⟩

end

theorem Stored.next {key : ConsentKey} {as : List Approval} {a : Approval} {merges : Bool} {db db' : Database}
    {row : ConsentRow} (h : Stored key as db) (ha : JoinsCatalog a.scope) (hget : db'.consents.get? key = some row)
    (hmerges : merges = true → ∀ f, currentFingerprint as = some f → f = a.metadataFingerprint)
    (hrow : Written a merges (db.consents.get? key) row) : Stored key (as ++ [a]) db' := by
  obtain ⟨pieces, hscope, hne, hpieces, hwords⟩ := ha.pieces
  -- the approval alone, where nothing is kept
  have hfresh : currentFingerprint as ≠ some a.metadataFingerprint → row.scope = a.scope ∧
      row.metadataFingerprint = a.metadataFingerprint → Stored key (as ++ [a]) db' := by
    rintro hother ⟨h1, h2⟩
    rw [Stored, currentFingerprint_snoc]
    refine ⟨row, pieces, hget, h2, h1.trans hscope, hne, hpieces, fun s hs => (hwords s hs).trans ?_⟩
    rw [ApprovedScope, sinceChange_other hother]
    simp
  rw [Stored] at h
  cases hf : currentFingerprint as with
  | none =>
    rw [hf] at h
    rw [h] at hrow
    exact hfresh (by rw [hf]; nofun) hrow
  | some f =>
    rw [hf] at h
    obtain ⟨stored, kept, hstored, hfp, hkept, hkeptne, hkeptpieces, hkeptwords⟩ := h
    rw [hstored, Written] at hrow
    split at hrow
    · rename_i hsame
      have hfa : f = a.metadataFingerprint := hsame.elim (fun hm => hmerges hm f hf) (fun he => hfp.symm.trans he)
      obtain ⟨merged, hmerged, hmem⟩ := mergeScopes_serialize hkeptne hne hkeptpieces hpieces
      rw [hkept, hscope, hmerged] at hrow
      rw [Stored, currentFingerprint_snoc]
      refine ⟨row, merged, hget, hrow.2.trans (hfp.trans hfa), (Option.some.inj hrow.1).symm, ?_, fun s hs => ?_, fun s hs => ?_⟩
      · rintro rfl
        cases hk : kept with
        | nil => exact hkeptne hk
        | cons s rest => exact absurd ((hmem s).2 (Or.inl (hk ▸ List.mem_cons_self))) List.not_mem_nil
      · exact ((hmem s).1 hs).elim (hkeptpieces s) (hpieces s)
      · rw [hmem, hkeptwords s hs, hwords s hs, ApprovedScope, ApprovedScope, sinceChange_same (hf.trans (congrArg some hfa))]
        simp [or_comm]
    · rename_i hother
      exact hfresh (by rw [hf]; exact fun he => hother (Or.inr (hfp.trans (Option.some.inj he)))) hrow

/-! ## The calls take such steps -/

/-- A step of `c`: it commits an approval of this consent and writes its row, or leaves the row alone. -/
def ConsentStep (key : ConsentKey) (c : ConsentCall) (w w' : World) : Prop :=
  if w'.log = .consentSaved key.1 key.2.1 key.2.2 :: w.log then
    c.key = key ∧ ∃ row, w'.db.consents.get? key = some row ∧ Written c.approval c.merges (w.db.consents.get? key) row
  else w'.db.consents.get? key = w.db.consents.get? key

section

variable {key : ConsentKey} {c : ConsentCall} {w w' : World}

theorem ConsentStep.unlogged (hdb : w'.db.consents = w.db.consents) (hlog : w'.log = w.log) : ConsentStep key c w w' := by
  rw [ConsentStep, if_neg, hdb]
  rw [hlog]
  exact fun h => absurd (congrArg List.length h) (by simp)

/-- The step of a consents statement. -/
theorem ConsentStep.upsert {row : ConsentRow} {merged : ConsentRow → Option (String × Option String)}
    (hconsents : upsertConsent row merged w.db.consents = some w'.db.consents)
    (hlog : w'.log = .consentSaved row.userId row.clientId row.resource :: w.log)
    (hkey : c.key = (row.userId, row.clientId, row.resource)) (hrow : ⟨row.scope, row.metadataFingerprint⟩ = c.approval)
    (hmerged : ∀ stored scope metadataFingerprint, merged stored = some (scope, metadataFingerprint) →
      Written c.approval c.merges (some stored) { stored with scope, metadataFingerprint, updatedAt := row.updatedAt }) :
    ConsentStep key c w w' := by
  rw [ConsentStep, hlog]
  split
  · rename_i he
    injection (List.cons.inj he).1 with h1 h2 h3
    obtain rfl : (row.userId, row.clientId, row.resource) = key := by rw [h1, h2, h3]
    refine ⟨hkey, ?_⟩
    rcases upsertConsent_self hconsents with ⟨hnone, hnew⟩ | ⟨stored, scope, fingerprint, hstored, hm, hnew⟩
    · rw [hnone]
      exact ⟨row, hnew, by rw [← hrow], by rw [← hrow]⟩
    · rw [hstored]
      exact ⟨_, hnew, hmerged stored scope fingerprint hm⟩
  · rename_i hne
    refine upsertConsent_other hconsents fun hk => hne ?_
    rw [hk]

end

/-- What a call relies on, and the steps it takes. -/
def consentProtocol (key : ConsentKey) (c : ConsentCall) : Protocol Input World :=
  ⟨fun _ => True, fun _ _ => True, ConsentStep key c, fun _ _ _ => True⟩

theorem consent_clocked (key : ConsentKey) (c : ConsentCall) : Clocked (consentProtocol key c) where
  ok := ⟨fun _ => trivial, fun _ _ => trivial⟩
  tickInv := fun _ _ => trivial
  tickRely := fun _ _ => trivial
  tickGuar := fun _ _ => .unlogged rfl rfl
  tickAllow := fun _ _ => trivial
  guarTick := fun _ h => h

theorem consent_keeps (key : ConsentKey) (c : ConsentCall) : Keeps (consentProtocol key c) c.code := by
  have hk := consent_clocked key c
  cases c with
  | save id input =>
    refine .bind (.bind (.clock hk) fun now => .bind (.d1Logged hk fun w w' _ _ hw' _ => ⟨trivial, ?_⟩) fun _ =>
      .require _ _) fun _ => .pure _
    subst hw'
    cases hsave : saveConsentStatement now id input w.db with
    | none => exact .unlogged rfl rfl
    | some db =>
      obtain ⟨consents, hconsents, rfl⟩ := Option.map_eq_some_iff.1 hsave
      refine .upsert hconsents rfl rfl rfl fun stored scope fingerprint hm => ?_
      -- of the same document the scopes are added, else the row is replaced
      split at hm
      · rename_i hsame
        obtain ⟨merged, hmerged, he⟩ := Option.map_eq_some_iff.1 hm
        obtain ⟨rfl, rfl⟩ := Prod.mk.inj he
        exact .merge (Or.inr hsame) hmerged hsame.symm
      · rename_i hother
        obtain ⟨rfl, rfl⟩ := Prod.mk.inj (Option.some.inj hm)
        exact .replace rfl hother rfl rfl
  | approve consentId input =>
    refine .bind (.clock hk) fun now => .bind (.d1Logged hk fun w w' _ _ hw' _ => ⟨trivial, ?_⟩) fun approved => ?_
    · subst hw'
      cases hbatch : approveDeviceBatch now consentId input w.db with
      | none => exact .unlogged rfl rfl
      | some r =>
        obtain ⟨consents, hconsents, he⟩ := Option.map_eq_some_iff.1 hbatch
        subst he
        -- the consent is written only while the device waits
        cases hpending : devicePending input.id w.db with
        | false =>
          rw [hpending, if_neg Bool.false_ne_true] at hconsents
          cases hconsents
          exact .unlogged rfl rfl
        | true =>
          rw [hpending, if_pos rfl] at hconsents
          refine .upsert hconsents rfl rfl rfl fun stored scope fingerprint hm => ?_
          obtain ⟨merged, hmerged, he⟩ := Option.map_eq_some_iff.1 hm
          obtain ⟨rfl, rfl⟩ := Prod.mk.inj he
          exact .merge (Or.inl rfl) hmerged rfl
    · split
      · exact .pure _
      · exact .throw _

/-- A call that returns says whether it committed its approval. -/
theorem consent_ends (c : ConsentCall) :
    endsE c.code (fun b tr => b = true ↔ ∃ t ∈ tr, t.2.log = .consentSaved c.key.1 c.key.2.1 c.key.2.2 :: t.1.log)
      fun _ _ => True := by
  have hsame : ∀ (w : World) (x : Event), w.log ≠ x :: w.log := fun w x h => absurd (congrArg List.length h) (by simp)
  have hclock : ∀ {w w₁ w' : World} {dt : Nat} {x : Event},
      (∃ t ∈ ([(w, w.tick dt)] ++ ([(w₁, w')] ++ []) : Steps), t.2.log = x :: t.1.log) ↔ w'.log = x :: w₁.log := by
    intro w w₁ w' dt x
    simp [hsame]
  cases c with
  | save id input =>
    show endsE (saveConsent id input >>= fun _ => pure true) _ _
    rw [saveConsent, bind_assoc, endsE_bind]
    refine endsE_clock fun w dt => ?_
    rw [bind_assoc, endsE_bind]
    refine endsE_d1Logged (fun w₁ w' dt' hw' => ?_) fun _ => trivial
    rw [endsE_bind, endsE_require]
    refine ⟨fun hsaved => ?_, fun _ => trivial⟩
    show true = true ↔ ∃ t ∈ [(w, w.tick dt)] ++ ([(w₁, w')] ++ []), _
    rw [hclock, hw']
    dsimp only
    rw [if_pos hsaved]
    exact iff_of_true rfl rfl
  | approve consentId input =>
    show endsE (approveDeviceWithConsent consentId input) _ _
    rw [approveDeviceWithConsent, endsE_bind]
    refine endsE_clock fun w dt => ?_
    rw [endsE_bind]
    refine endsE_d1Logged (fun w₁ w' dt' hw' => ?_) fun _ => trivial
    cases hbatch : approveDeviceBatch (w.tick dt).nowSeconds consentId input w₁.db with
    | none => trivial
    | some r =>
      obtain ⟨b, db⟩ := r
      rw [hbatch] at hw'
      show b = true ↔ ∃ t ∈ _, _
      rw [hclock, hw']
      cases b with
      | true => exact iff_of_true rfl rfl
      | false => exact iff_of_false Bool.false_ne_true (hsame _ _)

/-! ## Runs -/

section

variable {key : ConsentKey} {metadata : Bool} {w₀ : World} {steps : List (Taken World)}
  {P : Pool ConsentCall Input World (Except Failure Bool)}

theorem consent_steps (h : (consentSystem key metadata).Run ⟨w₀, []⟩ steps P) :
    ∀ t ∈ steps, ∃ c p, P.threads[t.thread]? = some (c, p) ∧ ConsentStep key c t.before t.after := by
  intro t ht
  refine (System.Run.guar (I := fun _ => True) (R := fun _ _ => True) (G := ConsentStep key) (fun _ => trivial)
    (fun _ _ => trivial) (fun _ => trivial) (fun c w _ => ?_) trivial h t ht).2
  exact wp_of_wpE (consent_keeps key c w trivial)

/-- A committed approval is that of a call for this consent, whose scope and fingerprint are as asked. -/
theorem committed_fits (h : (consentSystem key metadata).Run ⟨w₀, []⟩ steps P) {t : Taken World} (ht : t ∈ steps)
    {a : Approval} (ha : committedBy key P t = some a) :
    JoinsCatalog a.scope ∧ (metadata = false → a.metadataFingerprint = none) := by
  unfold committedBy at ha
  split at ha
  · rename_i hlog
    obtain ⟨c, p, hthread, hstep⟩ := consent_steps h t ht
    rw [hthread] at ha
    cases ha
    rw [ConsentStep, if_pos hlog] at hstep
    have hfits : c.Fits key metadata :=
      h.arrived (V := fun c => c.Fits key metadata) (fun _ _ hc => hc) _ (List.mem_of_getElem? hthread)
    obtain ⟨hscope, hcall⟩ := hfits hstep.1
    refine ⟨hscope, fun hmetadata => ?_⟩
    cases c with
    | save id input => exact hcall.resolve_left (by simp [hmetadata])
    | approve consentId input => rfl
  · cases ha

/-- What is stored at the end of a run that found no consent. -/
theorem consent_stored (h : (consentSystem key metadata).Run ⟨w₀, []⟩ steps P) (hfirst : w₀.db.consents.get? key = none) :
    Stored key (approvals key P steps) P.store.db := by
  -- by induction on the steps taken so far
  suffices hsofar : ∀ sofar rest w, steps = sofar ++ rest → Chained w₀ sofar w → Stored key (approvals key P sofar) w.db from
    hsofar steps [] P.store (List.append_nil _).symm h.chained
  intro sofar
  induction sofar using List.reverseRecOn with
  | nil =>
    rintro rest w - hchain
    cases hchain
    exact hfirst
  | append_singleton sofar t ih =>
    intro rest w hsteps hchain
    obtain ⟨hbefore, hlast⟩ := hchain.at
    cases hlast
    have hstored := ih (t :: rest) t.before (by rw [hsteps, List.append_assoc]; rfl) hbefore
    have hmem : ∀ u ∈ sofar ++ [t], u ∈ steps := fun u hu => hsteps ▸ List.mem_append_left _ hu
    obtain ⟨c, p, hthread, hstep⟩ := consent_steps h t (hmem t (by simp))
    have hcommitted : committedBy key P t =
        if t.after.log = .consentSaved key.1 key.2.1 key.2.2 :: t.before.log then some c.approval else none := by
      rw [committedBy, hthread]
      rfl
    have happrovals : approvals key P (sofar ++ [t]) = approvals key P sofar ++ (committedBy key P t).toList := by
      rw [approvals, List.filterMap_append, List.filterMap_cons]
      cases committedBy key P t <;> rfl
    rw [happrovals]
    unfold ConsentStep at hstep
    by_cases hlog : t.after.log = .consentSaved key.1 key.2.1 key.2.2 :: t.before.log
    · rw [if_pos hlog] at hstep hcommitted
      rw [hcommitted]
      obtain ⟨hkey, row, hget, hrow⟩ := hstep
      refine hstored.next (committed_fits h (hmem t (by simp)) hcommitted).1 hget (fun hmerges f hf => ?_) hrow
      -- a device's approval: the client has no metadata, so neither has an earlier approval
      have hfits : c.Fits key metadata :=
        h.arrived (V := fun c => c.Fits key metadata) (fun _ _ hc => hc) _ (List.mem_of_getElem? hthread)
      cases c with
      | save id input => cases hmerges
      | approve consentId input =>
        obtain ⟨a, ha, rfl⟩ := Option.map_eq_some_iff.1 hf
        obtain ⟨u, hu, hua⟩ := List.mem_filterMap.1 (List.mem_of_getLast? ha)
        exact (committed_fits h (hmem u (List.mem_append_left _ hu)) hua).2 (hfits hkey).2
    · rw [if_neg hlog] at hstep hcommitted
      rw [hcommitted, Option.toList_none, List.append_nil]
      unfold Stored at hstored ⊢
      rw [hstep]
      exact hstored

end

/-- The words of what is stored are the approved ones. -/
theorem Stored.words {key : ConsentKey} {as : List Approval} {db : Database} (h : Stored key as db) :
    match currentFingerprint as with
    | none => db.consents.get? key = none
    | some metadataFingerprint => ∃ row, db.consents.get? key = some row ∧ row.metadataFingerprint = metadataFingerprint ∧
        ∀ s, s ∈ parseScopeString (some row.scope) ↔ ApprovedScope as s := by
  unfold Stored at h
  split at h
  · exact h
  · obtain ⟨row, pieces, hget, hf, hscope, -, hpieces, hwords⟩ := h
    refine ⟨row, hget, hf, fun s => ?_⟩
    rw [hscope, mem_parse_serialize hpieces]
    constructor
    · rintro ⟨hs, hne⟩
      exact (hwords s hne).1 hs
    · intro hs
      have hne : s ≠ "" := by
        obtain ⟨_, -, hmem⟩ := hs
        exact (isWord_of_mem_parse hmem).1
      exact ⟨(hwords s hne).2 hs, hne⟩

/-- The stored consent covers what was approved, under the current fingerprint. -/
theorem Stored.covers {key : ConsentKey} {as : List Approval} {db : Database} (h : Stored key as db)
    (requested : List String) (metadataFingerprint : Option String) :
    consentCovers requested metadataFingerprint (db.consents.get? key) = true ↔
      currentFingerprint as = some metadataFingerprint ∧ ∀ s ∈ requested, ApprovedScope as s := by
  have hwords := h.words
  cases hf : currentFingerprint as with
  | none =>
    rw [hf] at hwords
    rw [hwords]
    exact iff_of_false Bool.false_ne_true nofun
  | some current =>
    rw [hf] at hwords
    obtain ⟨row, hget, hrow, hscope⟩ := hwords
    rw [hget, ← hrow]
    simp [consentCovers, hscope]

/-- The consent is the union of the approvals under the current metadata. In every run that finds no
consent of the user, the client and the resource, whatever else is approved meanwhile and whatever fails:
the approvals are those of the calls that took effect; what is stored has the last one's fingerprint, and
its scopes are those approved since the last change of the fingerprint; and a check answers yes exactly in
YOLO mode, or under that fingerprint for scopes among these. -/
theorem consent_union (env : Env) (key : ConsentKey) (metadata : Bool) (w₀ : World) (steps : List (Taken World))
    (P : Pool ConsentCall Input World (Except Failure Bool))
    (hrun : (consentSystem key metadata).Run ⟨w₀, []⟩ steps P) (hfirst : w₀.db.consents.get? key = none) :
    (∀ i c b, P.finished i = some (c, .ok b) → c.key = key →
      (b = true ↔ ∃ t ∈ steps, t.thread = i ∧ committedBy key P t = some c.approval)) ∧
    (match currentFingerprint (approvals key P steps) with
      | none => P.store.db.consents.get? key = none
      | some metadataFingerprint => ∃ row, P.store.db.consents.get? key = some row ∧
          row.metadataFingerprint = metadataFingerprint ∧
          ∀ s, s ∈ parseScopeString (some row.scope) ↔ ApprovedScope (approvals key P steps) s) ∧
    ∀ requested metadataFingerprint b w',
      Runs (consentCoversScopes env key.1 key.2.1 key.2.2 requested metadataFingerprint).run P.store (.ok b) w' →
      (b = true ↔ env.yolo = true ∨ (currentFingerprint (approvals key P steps) = some metadataFingerprint ∧
        ∀ s ∈ requested, ApprovedScope (approvals key P steps) s)) := by
  have hstored := consent_stored hrun hfirst
  refine ⟨fun i c b hi hkey => ?_, hstored.words, fun requested metadataFingerprint b w' hcheck => ?_⟩
  -- a call that has finished
  · have hthread : P.threads[i]? = some (c, .done (.ok b)) := by
      unfold Pool.finished at hi
      split at hi
      · rename_i c' r' hthread
        cases hi
        exact hthread
      · cases hi
    -- it answers `true` after a write of its own, read off the log
    have hpost : b = true ↔ ∃ t ∈ stepsOf i steps, t.2.log = .consentSaved c.key.1 c.key.2.1 c.key.2.2 :: t.1.log :=
      (hrun.path hthread).post (consent_ends c)
    rw [hpost]
    constructor
    · rintro ⟨x, hx, hlog⟩
      obtain ⟨t, ht, rfl, rfl⟩ := mem_stepsOf.1 hx
      refine ⟨t, ht, rfl, ?_⟩
      rw [committedBy, ← hkey, if_pos hlog, hthread]
      rfl
    · rintro ⟨t, ht, rfl, hc⟩
      refine ⟨_, mem_stepsOf.2 ⟨t, ht, rfl, rfl⟩, ?_⟩
      unfold committedBy at hc
      split at hc
      · rename_i hlog
        rw [hkey]
        exact hlog
      · cases hc
  -- a check of its own, once the others have stopped
  · have hcovers := hstored.covers requested metadataFingerprint
    have hanswer : b = true ↔ env.yolo = true ∨
        consentCovers requested metadataFingerprint (P.store.db.consents.get? key) = true := by
      refine post_of_runs hcheck (Q := fun b _ => b = true ↔ env.yolo = true ∨
        consentCovers requested metadataFingerprint (P.store.db.consents.get? key) = true) (X := fun _ _ => True) ?_
      refine consentCoversScopes_wpE alone_clocked (alone_stable_db P.store.db) rfl trivial ?_ ?_ fun _ _ _ => trivial
      · exact fun hyolo _ _ _ => iff_of_true rfl (Or.inl hyolo)
      · intro hyolo w hdb _
        rw [hyolo, hdb]
        simp
    rw [hanswer, hcovers]

/-- In YOLO mode the check answers yes for scopes that nobody approved, under any fingerprint. -/
theorem consent_union_yolo :
    let env : Env := { Deployment.env with yolo := true }
    let key : ConsentKey := ("usr_b", "app", "https://api.example.com")
    (consentSystem key true).Run ⟨Deployment.world, []⟩ [] ⟨Deployment.world, []⟩ ∧
      Deployment.world.db.consents.get? key = none ∧
      Runs (consentCoversScopes env key.1 key.2.1 key.2.2 ["openid"] (some "fingerprint")).run Deployment.world (.ok true)
        Deployment.world ∧
      ¬(currentFingerprint (approvals key ⟨Deployment.world, []⟩ []) = some (some "fingerprint") ∧
        ∀ s ∈ ["openid"], ApprovedScope (approvals key ⟨Deployment.world, []⟩ []) s) :=
  ⟨.start, by decide, .done _ _, fun h => nomatch h.1⟩

/-! ## A run -/

def sampleSave (scope : String) (metadataFingerprint : Option String) : ConsentCall :=
  .save "con_b"
    { userId := "usr_b", clientId := "app", scope, resource := "https://api.example.com", metadataFingerprint }

/-- Two approvals under one fingerprint, then one under another. -/
def savesSchedule : List (System.Move ConsentCall Input) :=
  .arrive (sampleSave "openid" (some "first")) :: (List.replicate 2 (.run 0 Deployment.ok) ++
    .arrive (sampleSave "email profile" (some "second")) :: (List.replicate 2 (.run 1 Deployment.ok) ++
      .arrive (sampleSave "openid email" (some "second")) :: (List.replicate 2 (.run 2 Deployment.ok) ++ [])))

theorem consent_union_changed :
    let key : ConsentKey := ("usr_b", "app", "https://api.example.com")
    let P := (consentSystem key true).moves ⟨Deployment.world, []⟩ savesSchedule
    ∃ steps, (consentSystem key true).Run ⟨Deployment.world, []⟩ steps P ∧
      (∃ t ∈ steps, t.thread = 2 ∧ committedBy key P t = some ⟨"openid email", some "second"⟩) := by
  intro key P
  have hjoins : ∀ tokens, validateScopeCatalog tokens = .ok tokens → JoinsCatalog (serializeScopes tokens) :=
    fun tokens h => ⟨tokens, h, rfl⟩
  have hall : ∀ s e s', (consentSystem key true).allow s e s' := fun _ _ _ => trivial
  have hreach : (consentSystem key true).Reach ⟨Deployment.world, []⟩ P := by
    refine System.reach_moves savesSchedule ⟨fun _ => ⟨hjoins ["openid"] (by decide), Or.inl rfl⟩,
      System.allows_runs hall _ _ _ ⟨fun _ => ⟨hjoins ["email", "profile"] (by decide), Or.inl rfl⟩,
        System.allows_runs hall _ _ _ ⟨fun _ => ⟨hjoins ["openid", "email"] (by decide), Or.inl rfl⟩,
          System.allows_runs hall _ _ _ trivial⟩⟩⟩
  obtain ⟨steps, hrun⟩ := hreach.run
  have hunion := consent_union Deployment.env key true Deployment.world steps P hrun (by decide)
  refine ⟨steps, hrun, (hunion.1 2 (sampleSave "openid email" (some "second")) true ?_ rfl).1 rfl⟩
  decide +kernel

end Keyforge.Grant
