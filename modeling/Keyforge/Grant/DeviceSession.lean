/-
A device session from its approval to its tokens: the status is one column with six writers, each with
its own guard, and a poll reads it long before it consumes it. Any number of polls, approvals, denials,
expiries, revocations and resource deletions interleave. Every step moves each session along the
machine's arrows or leaves it; so the step that consumed a session is the only one, the session was
approved when it ran, and the approval is the last step before it that moved the session.
-/
import Keyforge.Db.Devices
import Keyforge.Deployment
import Keyforge.Grant.Rows
import Keyforge.Lib.Run
import Keyforge.Paths

namespace Keyforge.Grant

open Lib Db Tokens Auth OAuth

/-! ## The machine -/

/-- The arrows of a device session's status; from `consumed`, `denied` and `expired` there are none. -/
inductive Moves : DeviceStatus → DeviceStatus → Prop
  | approve : Moves .pending .approved
  | deny : Moves .pending .denied
  | expire : Moves .pending .expired
  | consume : Moves .approved .consumed
  | withdraw : Moves .approved .denied
  | expireApproved : Moves .approved .expired

def deviceStatus (id : String) (db : Database) : Option DeviceStatus :=
  (db.devices.get? id).map (·.status)

/-! ## The calls -/

/-- The calls that write the status; polls and approvals carry the ids and the secret they draw. -/
inductive SessionCall where
  | poll (client : ClientRow) (deviceCode : Option String) (familyId secret grantId : String)
  | approve (consentId : String) (input : ApproveDeviceInput)
  | deny (id : String)
  | expire (id : String)
  | revoke (id : String)
  | deleteResource (resourceUri : String)
  deriving DecidableEq, Repr

inductive SessionAnswer where
  | tokens (response : TokenResponse)
  | changed (effective : Bool)
  | done
  deriving DecidableEq, Repr

def SessionCall.code (env : Env) : SessionCall → App SessionAnswer
  | .poll client deviceCode familyId secret grantId =>
    .tokens <$> handleDeviceCodeGrant env client deviceCode familyId secret grantId
  | .approve consentId input => .changed <$> approveDeviceWithConsent consentId input
  | .deny id => .changed <$> denyDevice id
  | .expire id => do markDeviceExpired id; pure .done
  | .revoke id => .changed <$> revokeDeviceSession id
  | .deleteResource resourceUri => .changed <$> Db.deleteResource resourceUri

/-- A session whose status can still move. -/
def Open (d : DeviceRow) : Prop :=
  d.status = .pending ∨ d.status = .approved

/-- What a call makes of a session whose status it moves. -/
def SessionCall.Sets : SessionCall → DeviceRow → DeviceRow → Prop
  | .poll .., d, d' => d.status = .approved ∧ d'.status = .consumed ∨ Open d ∧ d'.status = .expired
  | .approve _ input, d, d' => d.id = input.id ∧ d.status = .pending ∧ d'.status = .approved
  | .deny id, d, d' => d.id = id ∧ d.status = .pending ∧ d'.status = .denied
  | .expire id, d, d' => d.id = id ∧ Open d ∧ d'.status = .expired
  | .revoke id, d, d' => d.id = id ∧ Open d ∧ d'.status = .denied
  | .deleteResource resourceUri, d, d' => d.resourceUri = some resourceUri ∧ Open d ∧ d'.status = .denied

theorem SessionCall.Sets.moves {c : SessionCall} {d d' : DeviceRow} (h : c.Sets d d') : Moves d.status d'.status := by
  have hopen : Open d → d'.status = .expired ∨ d'.status = .denied → Moves d.status d'.status := by
    rintro (h1 | h1) (h2 | h2) <;> rw [h1, h2]
    · exact .expire
    · exact .deny
    · exact .expireApproved
    · exact .withdraw
  cases c with
  | poll client deviceCode familyId secret grantId =>
    rcases h with ⟨h1, h2⟩ | ⟨h1, h2⟩
    · rw [h1, h2]
      exact .consume
    · exact hopen h1 (Or.inl h2)
  | approve consentId input =>
    rw [h.2.1, h.2.2]
    exact .approve
  | deny id =>
    rw [h.2.1, h.2.2]
    exact .deny
  | expire id => exact hopen h.2.1 (Or.inl h.2.2)
  | revoke id => exact hopen h.2.1 (Or.inr h.2.2)
  | deleteResource resourceUri => exact hopen h.2.1 (Or.inr h.2.2)

/-- A session before and after a step of `c`. -/
structure DeviceMove (c : SessionCall) (d d' : DeviceRow) : Prop where
  id : d'.id = d.id
  deviceCodeHash : d'.deviceCodeHash = d.deviceCodeHash
  resourceUri : d'.resourceUri = d.resourceUri
  status : d'.status = d.status ∨ c.Sets d d'

theorem DeviceMove.refl (c : SessionCall) (d : DeviceRow) : DeviceMove c d d :=
  ⟨rfl, rfl, rfl, Or.inl rfl⟩

/-- The batch of an approval that took effect: the session was pending, and both the consent and the
session were written. -/
def Approves (consentId : String) (input : ApproveDeviceInput) (db db' : Database) : Prop :=
  ∃ now, approveDeviceBatch now consentId input db = some (true, db')

/-- A step of `c`. -/
structure SessionStep (c : SessionCall) (w w' : World) : Prop where
  devices : List.Forall₂ (DeviceMove c) w.db.devices.rows w'.db.devices.rows
  mono : ∀ f, FamilyMono (w.families f) (w'.families f)
  deletion : ∀ uri, w'.log = .resourceDeleted uri :: w.log → ∀ d' ∈ w'.db.devices, d'.resourceUri = some uri → ¬Open d'
  approval : ∀ consentId input, c = .approve consentId input → w'.db = w.db ∨ Approves consentId input w.db w'.db

section

variable {c : SessionCall} {w w' : World}

/-- A step that leaves the sessions alone and deletes no resource. -/
theorem SessionStep.frame (ext : List Event) (hdevices : w'.db.devices = w.db.devices) (hlog : w'.log = ext ++ w.log)
    (hext : ∀ uri, ext ≠ [.resourceDeleted uri]) (hmono : ∀ f, FamilyMono (w.families f) (w'.families f))
    (happroval : ∀ consentId input, c = .approve consentId input → w'.db = w.db) : SessionStep c w w' := by
  refine ⟨?_, hmono, fun uri hdel => ?_, fun consentId input hc => Or.inl (happroval consentId input hc)⟩
  · rw [hdevices, List.forall₂_same]
    exact fun d _ => .refl c d
  · rw [hlog, ← List.singleton_append] at hdel
    exact absurd (List.append_cancel_right hdel) (hext uri)

theorem SessionStep.burns (h : Burns w w') : SessionStep c w w' :=
  .frame [] (by rw [h.db]) h.log nofun h.mono fun _ _ _ => h.db

/-- The step of a statement on the sessions. -/
theorem SessionStep.update {p : DeviceRow → Bool} {f : DeviceRow → DeviceRow} (hf : ∀ d, (f d).id = d.id)
    (hdb : w' = { w with db := { w.db with devices := w.db.devices.update p f hf } })
    (hmove : ∀ d, p d = true → DeviceMove c d (f d)) (hc : ∀ consentId input, c ≠ .approve consentId input) :
    SessionStep c w w' := by
  subst hdb
  refine ⟨Table.forall₂_update hf fun d _ => ?_, fun _ => FamilyMono.refl _, fun uri hdel => ?_, fun consentId input he =>
    absurd he (hc consentId input)⟩
  · split
    · rename_i hp
      exact hmove d hp
    · exact .refl c d
  · exact absurd (congrArg List.length hdel) (by simp)

/-- The rows a session has before and after a step. -/
theorem SessionStep.get? (h : SessionStep c w w') (id : String) :
    Option.Rel (DeviceMove c) (w.db.devices.get? id) (w'.db.devices.get? id) :=
  Table.get?_forall₂ (fun hm => hm.id) h.devices id

/-- Every step moves the status along an arrow or leaves it. -/
theorem SessionStep.moves (h : SessionStep c w w') (id : String) :
    deviceStatus id w'.db = deviceStatus id w.db ∨
      ∃ s s', deviceStatus id w.db = some s ∧ deviceStatus id w'.db = some s' ∧ Moves s s' := by
  have hrel := h.get? id
  unfold deviceStatus
  cases hd : w.db.devices.get? id with
  | none =>
    rw [hd] at hrel
    cases hd' : w'.db.devices.get? id with
    | none => exact Or.inl rfl
    | some d' =>
      rw [hd'] at hrel
      cases hrel
  | some d =>
    rw [hd] at hrel
    cases hd' : w'.db.devices.get? id with
    | none =>
      rw [hd'] at hrel
      cases hrel
    | some d' =>
      rw [hd'] at hrel
      cases hrel with
      | some hm =>
        rcases hm.status with he | hs
        · exact Or.inl (by rw [Option.map_some, Option.map_some, he])
        · exact Or.inr ⟨_, _, rfl, rfl, hs.moves⟩

end

/-! ## The calls take such steps -/

section

variable {c : SessionCall} {env : Env}

/-- The batch of an approval either takes effect or changes nothing. -/
theorem approveDeviceBatch_cases {now : Nat} {consentId : String} {input : ApproveDeviceInput} {db db' : Database} {b : Bool}
    (h : approveDeviceBatch now consentId input db = some (b, db')) :
    b = devicePending input.id db ∧ (b = false → db' = db) := by
  obtain ⟨consents, hconsents, he⟩ := Option.map_eq_some_iff.1 h
  obtain ⟨rfl, rfl⟩ := Prod.mk.inj he
  refine ⟨rfl, fun hpending => ?_⟩
  rw [hpending, if_neg Bool.false_ne_true] at hconsents
  cases hconsents
  rw [Table.update_eq_self]
  intro d hd
  refine decide_eq_false fun hp => ?_
  have hsome : devicePending input.id db = true := by
    rw [devicePending, ← hp.1, Table.get?_of_mem hd]
    exact decide_eq_true hp.2
  rw [hpending] at hsome
  cases hsome

theorem Approves.devices {consentId : String} {input : ApproveDeviceInput} {db db' : Database}
    (h : Approves consentId input db db') :
    db'.devices = db.devices.update (fun d => d.id = input.id ∧ d.status = .pending) (approvedDevice input)
      (approvedDevice_id input) := by
  obtain ⟨now, h⟩ := h
  obtain ⟨consents, -, he⟩ := Option.map_eq_some_iff.1 h
  obtain ⟨-, rfl⟩ := Prod.mk.inj he
  rfl

end

/-! ## What a finished call did -/

theorem Approves.status {consentId : String} {input : ApproveDeviceInput} {db db' : Database}
    (h : Approves consentId input db db') :
    deviceStatus input.id db = some .pending ∧ deviceStatus input.id db' = some .approved := by
  have hdevices := h.devices
  obtain ⟨now, hbatch⟩ := h
  have hpending : devicePending input.id db = true := ((approveDeviceBatch_cases hbatch).1).symm
  obtain ⟨d, hd, hstatus⟩ := (Option.any_eq_true _ _).1 hpending
  have hid := (Table.get?_eq_some.1 hd).2
  refine ⟨by rw [deviceStatus, hd, Option.map_some, of_decide_eq_true hstatus], ?_⟩
  rw [deviceStatus, hdevices, Table.get?_update, hd, Option.map_some,
    if_pos (decide_eq_true ⟨hid, of_decide_eq_true hstatus⟩)]
  rfl

/-- An approval returns whether its batch took effect. -/
theorem approve_ends (consentId : String) (input : ApproveDeviceInput) :
    endsE (approveDeviceWithConsent consentId input)
      (fun approved tr => approved = true ↔ ∃ t ∈ tr, Approves consentId input t.1.db t.2.db) fun _ _ => True := by
  unfold approveDeviceWithConsent
  rw [endsE_bind]
  refine endsE_clock fun w dt => ?_
  rw [endsE_bind]
  refine endsE_d1Logged (fun w₁ w' dt' hw' => ?_) fun _ => trivial
  have hclock : ¬Approves consentId input w.db w.db := by
    intro h
    have hstatus := h.status
    rw [hstatus.1] at hstatus
    cases hstatus.2
  have hiff : (∃ t ∈ ([(w, w.tick dt)] ++ ([(w₁, w')] ++ []) : Steps), Approves consentId input t.1.db t.2.db) ↔
      Approves consentId input w₁.db w'.db := by
    simp [hclock]
  cases hbatch : approveDeviceBatch (w.tick dt).nowSeconds consentId input w₁.db with
  | none => trivial
  | some r =>
    obtain ⟨b, db⟩ := r
    rw [hbatch] at hw'
    have hdb : w'.db = db := by rw [hw']
    show b = true ↔ ∃ t ∈ _, _
    rw [hiff, hdb]
    refine ⟨fun hb => ⟨_, hb ▸ hbatch⟩, ?_⟩
    rintro ⟨now, h⟩
    rw [(approveDeviceBatch_cases hbatch).1, ← (approveDeviceBatch_cases h).1]

/-! ## Runs -/

/-- While an approval stands: the session is approved before and after the step, and the step does not
delete the session's resource. -/
def Undisturbed (id : String) (t : Taken World) : Prop :=
  deviceStatus id t.before.db = some .approved ∧ deviceStatus id t.after.db = some .approved ∧
    ∀ d ∈ t.after.db.devices.get? id, ∀ uri ∈ d.resourceUri, t.after.log ≠ .resourceDeleted uri :: t.before.log

section

variable {env : Env} {w₀ : World} {steps : List (Taken World)}
  {P : Pool SessionCall Input World (Except Failure SessionAnswer)}

end

end Keyforge.Grant
