/-
Authorization-code exchange against withdrawal. A user's consent for a client and a resource is
withdrawn when the user revokes the application, when the resource is deleted, and when the client's
metadata fingerprint changes. The exchange reads the consent, and inserts the family some awaits
later under a guard that mentions only session and user: a withdrawal in between goes unnoticed. In
every run in which no family is inserted without a current consent, and no fingerprint becomes one
that an old consent carries, withdrawals hold: a withdrawn triple has no current consent, and no live
family, until a consent is saved again.
-/
import Keyforge.Deployment
import Keyforge.Grant.Rows
import Keyforge.Lib.Pool

namespace Keyforge.Grant

open Lib Db Tokens Auth OAuth

/-! ## Consents and withdrawals -/

/-- A user, a client and a resource. -/
abbrev Triple := String × String × String

/-- Whose family a row is. -/
def triple (r : RefreshTokenRow) : Triple := (r.userId, r.clientId, r.resource)

theorem triple_kept {r r' : RefreshTokenRow} (hk : Kept r r') : triple r' = triple r := by
  simp [triple, hk.userId, hk.clientId, hk.resource]

/-- A consent for the triple is stored, with the fingerprint its client has now. -/
def Current (db : Database) (k : Triple) : Prop :=
  ∃ c, db.consents.get? k = some c ∧ ∀ cl, db.clients.get? k.2.1 = some cl →
    cl.metadataFingerprint = c.metadataFingerprint

/-- The event withdraws the triple's consent. -/
def withdraws : Event → Triple → Prop
  | .consentDeleted u c, k => k.1 = u ∧ k.2.1 = c
  | .resourceDeleted resource, k => k.2.2 = resource
  | .fingerprintChanged c, k => k.2.1 = c
  | _, _ => False

/-- The withdrawal's batch also revokes the families. App revocation does that in a later step. -/
def atOnce : Event → Bool
  | .resourceDeleted _ => true
  | .fingerprintChanged _ => true
  | _ => false

/-- A consent for the triple was saved. -/
def saved (k : Triple) : Event := .consentSaved k.1 k.2.1 k.2.2

/-- Until a consent is saved again, a withdrawn triple has no current consent, and no live family if
the withdrawal revoked them at once. -/
structure WithdrawalInv (w : World) : Prop where
  gone : ∀ newer x older, w.log = newer ++ x :: older → ∀ k, withdraws x k → Current w.db k → saved k ∈ newer
  rows : ∀ newer x older, w.log = newer ++ x :: older → atOnce x = true → ∀ r ∈ w.db.refreshTokens,
    r.revokedAt = none → withdraws x (triple r) → saved (triple r) ∈ newer

/-- What the steps of the system have in common: the history grows, family objects are not lost, and
a live row was live before or has a consent saved after every earlier withdrawal of its triple. -/
structure Grows (w w' : World) : Prop where
  rows : ∃ ext, w'.log = ext ++ w.log ∧ ∀ r' ∈ w'.db.refreshTokens, r'.revokedAt = none →
    (∃ r ∈ w.db.refreshTokens, Kept r r') ∨
      ∀ newer x older, w.log = newer ++ x :: older → withdraws x (triple r') → saved (triple r') ∈ ext ++ newer
  mono : ∀ f, FamilyMono (w.families f) (w'.families f)

theorem Grows.trans {a b c : World} (h₁ : Grows a b) (h₂ : Grows b c) : Grows a c := by
  obtain ⟨ext, hlog, hrows⟩ := h₁.rows
  obtain ⟨ext', hlog', hrows'⟩ := h₂.rows
  refine ⟨⟨ext' ++ ext, by rw [hlog', hlog, List.append_assoc], ?_⟩, fun f => (h₁.mono f).trans (h₂.mono f)⟩
  intro r'' hr'' hlive
  rcases hrows' r'' hr'' hlive with ⟨r', hr', hk'⟩ | hnew
  · rcases hrows r' hr' (hk'.live hlive) with ⟨r, hr, hk⟩ | hnew
    · exact Or.inl ⟨r, hr, hk.trans hk'⟩
    · refine Or.inr fun newer x older hl hx => ?_
      rw [triple_kept hk'] at hx ⊢
      rw [List.append_assoc]
      exact List.mem_append_right _ (hnew newer x older hl hx)
  · refine Or.inr fun newer x older hl hx => ?_
    rw [List.append_assoc]
    exact hnew (ext ++ newer) x older (by rw [hlog, hl, List.append_assoc]) hx

/-- An entry of a longer history is new or old. -/
theorem split_log {ext log newer older : List Event} {x : Event} (h : ext ++ log = newer ++ x :: older) :
    (∃ rest, ext = newer ++ x :: rest) ∨ ∃ newer', newer = ext ++ newer' ∧ log = newer' ++ x :: older := by
  rcases List.append_eq_append_iff.1 h with ⟨a, h1, h2⟩ | ⟨a, h1, h2⟩
  · exact Or.inr ⟨a, h1, h2⟩
  · cases a with
    | nil => exact Or.inr ⟨[], by simpa using h1.symm, by simpa using h2.symm⟩
    | cons y a =>
      obtain ⟨rfl, -⟩ := List.cons.inj h2
      exact Or.inl ⟨a, h1⟩

/-- One step: consents become current only by being saved, a live row was there or goes in under a
current consent, and what the step itself withdraws is gone after it. -/
theorem WithdrawalInv.step {w w' : World} (hi : WithdrawalInv w) {ext : List Event} (hlog : w'.log = ext ++ w.log)
    (hconsent : ∀ k, Current w'.db k → Current w.db k ∨ saved k ∈ ext)
    (hrows : ∀ r' ∈ w'.db.refreshTokens, r'.revokedAt = none →
      (∃ r ∈ w.db.refreshTokens, Kept r r') ∨ Current w.db (triple r'))
    (hgone : ∀ newer x older, ext = newer ++ x :: older → ∀ k, withdraws x k → Current w'.db k → saved k ∈ newer)
    (hnow : ∀ newer x older, ext = newer ++ x :: older → atOnce x = true → ∀ r ∈ w'.db.refreshTokens,
      r.revokedAt = none → withdraws x (triple r) → saved (triple r) ∈ newer)
    (hmono : ∀ f, FamilyMono (w.families f) (w'.families f)) : WithdrawalInv w' ∧ Grows w w' := by
  refine ⟨⟨?_, ?_⟩, ⟨⟨ext, hlog, ?_⟩, hmono⟩⟩
  · intro newer x older hl k hx hc
    rcases split_log (hlog.symm.trans hl) with ⟨rest, hext⟩ | ⟨newer', rfl, hold⟩
    · exact hgone newer x rest hext k hx hc
    · rcases hconsent k hc with hc | hs
      · exact List.mem_append_right _ (hi.gone newer' x older hold k hx hc)
      · exact List.mem_append_left _ hs
  · intro newer x older hl ha r' hr' hlive hx
    rcases split_log (hlog.symm.trans hl) with ⟨rest, hext⟩ | ⟨newer', rfl, hold⟩
    · exact hnow newer x rest hext ha r' hr' hlive hx
    · refine List.mem_append_right _ ?_
      rcases hrows r' hr' hlive with ⟨r, hr, hk⟩ | hc
      · rw [triple_kept hk] at hx ⊢
        exact hi.rows newer' x older hold ha r hr (hk.live hlive) hx
      · exact hi.gone newer' x older hold _ hx hc
  · intro r' hr' hlive
    rcases hrows r' hr' hlive with hold | hc
    · exact Or.inl hold
    · exact Or.inr fun newer x older hl hx => List.mem_append_right _ (hi.gone newer x older hl _ hx hc)

/-- A step that records no withdrawal. -/
theorem WithdrawalInv.keep {w w' : World} (hi : WithdrawalInv w) {ext : List Event} (hlog : w'.log = ext ++ w.log)
    (hext : ∀ x ∈ ext, ∀ k, ¬withdraws x k) (hconsent : ∀ k, Current w'.db k → Current w.db k ∨ saved k ∈ ext)
    (hrows : ∀ r' ∈ w'.db.refreshTokens, r'.revokedAt = none →
      (∃ r ∈ w.db.refreshTokens, Kept r r') ∨ Current w.db (triple r'))
    (hmono : ∀ f, FamilyMono (w.families f) (w'.families f)) : WithdrawalInv w' ∧ Grows w w' := by
  have hmem : ∀ {newer x older}, ext = newer ++ x :: older → x ∈ ext :=
    fun h => h ▸ List.mem_append_right _ List.mem_cons_self
  refine hi.step hlog hconsent hrows ?_ ?_ hmono
  · exact fun newer x older h k hx => absurd hx (hext x (hmem h) k)
  · exact fun newer x older h _ r _ _ hx => absurd hx (hext x (hmem h) _)

/-- A withdrawal. -/
theorem WithdrawalInv.withdraw {w w' : World} (hi : WithdrawalInv w) {x : Event} (hlog : w'.log = x :: w.log)
    (hconsent : ∀ k, Current w'.db k → Current w.db k)
    (hrows : RowsRevoked w.db.refreshTokens w'.db.refreshTokens) (hgone : ∀ k, withdraws x k → ¬Current w'.db k)
    (hnow : atOnce x = true → ∀ r ∈ w'.db.refreshTokens, withdraws x (triple r) → r.revokedAt ≠ none)
    (hmono : ∀ f, FamilyMono (w.families f) (w'.families f)) : WithdrawalInv w' ∧ Grows w w' := by
  have hext : ∀ {newer y older}, [x] = newer ++ y :: older → y = x := by
    intro newer y older h
    have : y ∈ [x] := h ▸ List.mem_append_right _ List.mem_cons_self
    exact List.mem_singleton.1 this
  refine hi.step (show w'.log = [x] ++ w.log from hlog) (fun k h => Or.inl (hconsent k h))
    (fun r' hr' _ => Or.inl (hrows r' hr')) ?_ ?_ hmono
  · intro newer y older h k hx hc
    rw [hext h] at hx
    exact absurd hc (hgone k hx)
  · intro newer y older h ha r hr hlive hx
    rw [hext h] at ha hx
    exact absurd hlive (hnow ha r hr hx)

/-- A step on other tables and objects. -/
theorem WithdrawalInv.silent {w w' : World} (hi : WithdrawalInv w) (hlog : w'.log = w.log)
    (hc : w'.db.consents = w.db.consents) (hcl : w'.db.clients = w.db.clients)
    (hr : w'.db.refreshTokens = w.db.refreshTokens) (hmono : ∀ f, FamilyMono (w.families f) (w'.families f)) :
    WithdrawalInv w' ∧ Grows w w' := by
  refine hi.keep (hlog.trans (List.nil_append _).symm) (fun _ hx => (List.not_mem_nil hx).elim) ?_ ?_ hmono
  · rintro k ⟨c, h1, h2⟩
    rw [hc] at h1
    rw [hcl] at h2
    exact Or.inl ⟨c, h1, h2⟩
  · intro r hr' _
    exact Or.inl ⟨r, hr ▸ hr', Kept.refl r⟩

/-! ## The withdrawals and the consent -/

theorem withdrawalInv_burns {w w' : World} (hb : Burns w w') (hi : WithdrawalInv w) : WithdrawalInv w' ∧ Grows w w' :=
  hi.silent hb.log (by rw [hb.db]) (by rw [hb.db]) (by rw [hb.db]) hb.mono

/-- What the withdrawals look at in a client. -/
def face (db : Database) (clientId : String) : Option (Option String × RegistrationType) :=
  (db.clients.get? clientId).map fun c => (c.metadataFingerprint, c.registrationType)

/-- A consent stays current only under a client that keeps its face. -/
theorem current_face {db db' : Database} {k : Triple} (hf : face db' k.2.1 = face db k.2.1)
    (hc : db'.consents.get? k = db.consents.get? k) (h : Current db' k) : Current db k := by
  obtain ⟨c, h1, h2⟩ := h
  refine ⟨c, hc ▸ h1, fun cl hget => ?_⟩
  unfold face at hf
  rw [hget, Option.map_some, Option.map_eq_some_iff] at hf
  obtain ⟨cl', hcl', he⟩ := hf
  exact (Prod.ext_iff.1 he).1.symm.trans (h2 cl' hcl')

/-- A consent that a statement deletes is not current. -/
theorem current_delete (db db' : Database) {p : ConsentRow → Bool} (hc : db'.consents = db.consents.delete p)
    (hf : ∀ id, face db' id = face db id) {k : Triple} (h : Current db' k) :
    Current db k ∧ ∃ c, db.consents.get? k = some c ∧ p c = false := by
  obtain ⟨c, h1, -⟩ := id h
  rw [hc, Table.get?_delete] at h1
  obtain ⟨hget, hp⟩ := Option.filter_eq_some_iff.1 h1
  refine ⟨current_face (hf _) ?_ h, c, hget, by simpa using hp⟩
  rw [hc, Table.get?_delete, hget]
  simpa using hp

theorem key_of_get {db : Database} {k : Triple} {c : ConsentRow} (h : db.consents.get? k = some c) :
    k = (c.userId, c.clientId, c.resource) :=
  (Table.get?_eq_some.1 h).2.symm

theorem WithdrawalInv.unconsented {w : World} (hi : WithdrawalInv w) (u c : String) :
    WithdrawalInv (unconsentedWorld u c w) ∧ Grows w (unconsentedWorld u c w) := by
  have hdel : ∀ {k}, Current (unconsentedWorld u c w).db k → Current w.db k ∧
      ∃ row, w.db.consents.get? k = some row ∧ decide (row.userId = u ∧ row.clientId = c) = false :=
    fun h => current_delete w.db (unconsentedWorld u c w).db rfl (fun _ => rfl) h
  refine hi.withdraw rfl (fun k h => (hdel h).1) (RowsRevoked.refl _) ?_ nofun fun _ => FamilyMono.refl _
  rintro k hx hcur
  obtain ⟨-, row, hget, hp⟩ := hdel hcur
  rw [key_of_get hget] at hx
  exact of_decide_eq_false hp hx

/-- The world after a resource was deleted. -/
def resourceDeletedWorld (resource : String) (w : World) : World :=
  { w with db := deleteResourceBatch w.nowSeconds resource w.db, log := .resourceDeleted resource :: w.log }

theorem face_deleteResource (now : Nat) (resource : String) (db : Database) (id : String) :
    face (deleteResourceBatch now resource db) id = face db id := by
  unfold face deleteResourceBatch
  dsimp only
  rw [Table.get?_update, Option.map_map]
  congr 1
  funext c
  simp only [Function.comp]
  split <;> rfl

theorem WithdrawalInv.resourceDeleted {w : World} (hi : WithdrawalInv w) (resource : String) :
    WithdrawalInv (resourceDeletedWorld resource w) ∧ Grows w (resourceDeletedWorld resource w) := by
  have hdel : ∀ {k}, Current (resourceDeletedWorld resource w).db k → Current w.db k ∧
      ∃ row, w.db.consents.get? k = some row ∧ decide (row.resource = resource) = false :=
    fun h => current_delete w.db (resourceDeletedWorld resource w).db rfl
      (face_deleteResource _ _ _) h
  refine hi.withdraw rfl (fun k h => (hdel h).1) (rowsRevoked_update _ _ _) ?_ ?_ fun _ => FamilyMono.refl _
  · intro k hx hcur
    obtain ⟨-, row, hget, hp⟩ := hdel hcur
    rw [key_of_get hget] at hx
    exact of_decide_eq_false hp hx
  · intro _ r' hr' hx hlive
    obtain ⟨r, hr, rfl⟩ := (Table.mem_update fun _ => by rfl).1 hr'
    split at hlive
    · cases hlive
    · rename_i hp
      rw [if_neg hp] at hx
      exact hp (decide_eq_true ⟨hx, hlive⟩)

/-- Saving a consent makes only that triple's consent current. -/
theorem current_save {now : Nat} {id : String} {input : SaveConsentInput} {db db' : Database} {k : Triple}
    (hsave : saveConsentStatement now id input db = some db') (h : Current db' k) :
    Current db k ∨ k = (input.userId, input.clientId, input.resource) := by
  obtain ⟨consents, hupsert, rfl⟩ := Option.map_eq_some_iff.1 hsave
  obtain ⟨c, h1, h2⟩ := h
  by_cases hk : k = (input.userId, input.clientId, input.resource)
  · exact Or.inr hk
  · exact Or.inl ⟨c, (upsertConsent_other hupsert hk).symm.trans h1, h2⟩

theorem WithdrawalInv.saveConsent {w : World} (hi : WithdrawalInv w) {now : Nat} {id : String}
    {input : SaveConsentInput} {db : Database} (hsave : saveConsentStatement now id input w.db = some db) :
    let w' : World := { w with
      db, log := [.consentSaved input.userId input.clientId input.resource] ++ w.log }
    WithdrawalInv w' ∧ Grows w w' := by
  obtain ⟨consents, -, hdb⟩ := Option.map_eq_some_iff.1 hsave
  have hrows : db.refreshTokens = w.db.refreshTokens := by rw [← hdb]
  refine hi.keep rfl ?_ ?_ (fun r hr _ => Or.inl ⟨r, ?_, Kept.refl r⟩) fun _ => FamilyMono.refl _
  · intro x hx k hw
    rw [List.mem_singleton.1 hx] at hw
    exact hw
  · intro k hcur
    rcases current_save hsave hcur with h | rfl
    · exact Or.inl h
    · exact Or.inr List.mem_cons_self
  · rw [← hrows]
    exact hr

/-! ## The condition -/

/-- The step inserts families under a current consent only, and gives no client a fingerprint that a
stored consent of the client carries. -/
structure Heeds (w w' : World) : Prop where
  inserts : ∀ r ∈ w'.db.refreshTokens, w.db.refreshTokens.get? r.id = none → Current w.db (triple r)
  renames : ∀ id cl cl', w.db.clients.get? id = some cl → w'.db.clients.get? id = some cl' →
    cl'.metadataFingerprint ≠ cl.metadataFingerprint →
    ∀ c ∈ w.db.consents, c.clientId = id → c.metadataFingerprint ≠ cl'.metadataFingerprint

theorem face_issued (now : Nat) (input : IssueRefreshInput) (row : RefreshTokenRow) (w : World) (id : String) :
    face (issuedWorld now input row w).db id = face w.db id := by
  obtain ⟨rows, hdb⟩ := issueBatch_frame now input row w.db
  rw [issuedWorld, hdb]
  rfl

theorem WithdrawalInv.issued {w : World} (hi : WithdrawalInv w) {now : Nat} {input : IssueRefreshInput}
    {row : RefreshTokenRow} (hh : Heeds w (issuedWorld now input row w)) :
    WithdrawalInv (issuedWorld now input row w) ∧ Grows w (issuedWorld now input row w) := by
  obtain ⟨rows, hdb⟩ := issueBatch_frame now input row w.db
  refine hi.keep rfl ?_ (fun k h => Or.inl ?_) ?_ fun _ => FamilyMono.refl _
  · intro x hx k hw
    rcases issueEvents_cases now input row w.db with ⟨h, -⟩ | ⟨h, -⟩ <;> rw [h] at hx <;>
      rw [List.mem_singleton.1 hx] at hw <;> exact hw
  · exact current_face (face_issued _ _ _ _ _) (by rw [issuedWorld, hdb]) h
  · intro r' hr' _
    rcases issueBatch_rows hr' with hold | ⟨hk, -, hfresh⟩
    · exact Or.inl hold
    · exact Or.inr (hh.inserts r' hr' (hk.id ▸ hfresh))

/-- A client is registered. -/
theorem WithdrawalInv.registered {w : World} (hi : WithdrawalInv w) (row : ClientRow) :
    let w' : World := { w with db := { w.db with clients := w.db.clients.insert row }, log := [] ++ w.log }
    WithdrawalInv w' ∧ Grows w w' := by
  refine hi.keep rfl (fun x hx => (List.not_mem_nil hx).elim) ?_ (fun r hr _ => Or.inl ⟨r, hr, Kept.refl r⟩)
    fun _ => FamilyMono.refl _
  rintro k ⟨c, h1, h2⟩
  exact Or.inl ⟨c, h1, fun cl hget => h2 cl (Table.get?_insert_mono hget)⟩

section

variable {now : Nat} {input : UpsertMetadataClientInput} {current : ClientRow} {db : Database}

/-- The closing batch of an upsert writes the client it is about. -/
theorem face_upsert (hface : face db input.clientId = some (current.metadataFingerprint, .clientIdMetadata))
    (id : String) : face (metadataClientBatch now input current db) id =
      if id = input.clientId then some (some input.metadataFingerprint, .clientIdMetadata) else face db id := by
  have hclients : (metadataClientBatch now input current db).clients = db.clients.update
      (fun c => c.clientId = input.clientId ∧ c.registrationType = .clientIdMetadata)
      (metadataClientColumns input current) (metadataClientColumns_clientId input current) := by
    unfold metadataClientBatch
    dsimp only
    split <;> rfl
  unfold face at hface ⊢
  rw [hclients, Table.get?_update, Option.map_map]
  by_cases hid : id = input.clientId
  · subst hid
    obtain ⟨cl, hcl, he⟩ := Option.map_eq_some_iff.1 hface
    obtain ⟨-, hreg⟩ := Prod.ext_iff.1 he
    obtain ⟨-, hkey⟩ := Table.get?_eq_some.1 hcl
    rw [if_pos rfl, hcl, Option.map_some]
    simp only [Function.comp]
    rw [if_pos (decide_eq_true ⟨hkey, hreg⟩)]
    exact congrArg (fun r => some (some input.metadataFingerprint, r)) hreg
  · rw [if_neg hid]
    cases hcl : db.clients.get? id with
    | none => rfl
    | some cl =>
      obtain ⟨-, hkey⟩ := Table.get?_eq_some.1 hcl
      simp only [Option.map_some, Function.comp]
      rw [if_neg (fun h => hid (hkey ▸ (of_decide_eq_true h).1))]

theorem consents_upsert : (metadataClientBatch now input current db).consents = db.consents := by
  unfold metadataClientBatch
  dsimp only
  split <;> rfl

/-- The closing batch, when the row it replaces is the one that was read. -/
theorem WithdrawalInv.upserted {w w' : World} (hi : WithdrawalInv w) (hh : Heeds w w')
    (hface : face w.db input.clientId = some (current.metadataFingerprint, .clientIdMetadata))
    (hw' : w' = { w with
      db := metadataClientBatch now input current w.db, log := metadataClientEvents input current ++ w.log }) :
    WithdrawalInv w' ∧ Grows w w' := by
  have hdb : w'.db = metadataClientBatch now input current w.db := by rw [hw']
  have hmono : ∀ f, FamilyMono (w.families f) (w'.families f) := fun f => by rw [hw']; exact FamilyMono.refl _
  have hnew : ∀ id, face (metadataClientBatch now input current w.db) id = _ := face_upsert hface
  have hother : ∀ {k : Triple}, k.2.1 ≠ input.clientId → Current w'.db k → Current w.db k := by
    intro k hk hcur
    refine current_face ?_ (by rw [hdb, consents_upsert]) hcur
    rw [hdb, hnew, if_neg hk]
  by_cases hch : current.metadataFingerprint = some input.metadataFingerprint
  · refine hi.keep (show w'.log = [] ++ w.log by rw [hw', metadataClientEvents, if_neg (not_not.2 hch)])
      (fun x hx => (List.not_mem_nil hx).elim) (fun k hcur => Or.inl ?_) ?_ hmono
    · by_cases hk : k.2.1 = input.clientId
      · refine current_face ?_ (by rw [hdb, consents_upsert]) hcur
        rw [hdb, hnew, if_pos hk, hk, hface, hch]
      · exact hother hk hcur
    · intro r hr _
      rw [hdb, metadataClientBatch, if_neg (not_not.2 hch)] at hr
      exact Or.inl ⟨r, hr, Kept.refl r⟩
  · -- the new fingerprint is one that no stored consent carries
    have hgone : ∀ k : Triple, k.2.1 = input.clientId → ¬Current w'.db k := by
      rintro k hk ⟨c, h1, h2⟩
      rw [hdb, consents_upsert] at h1
      obtain ⟨hmem, -⟩ := Table.get?_eq_some.1 h1
      obtain ⟨cl, hcl, he⟩ := Option.map_eq_some_iff.1 hface
      have hface' : face w'.db input.clientId = some (some input.metadataFingerprint, .clientIdMetadata) := by
        rw [hdb, hnew, if_pos rfl]
      obtain ⟨cl', hcl', he'⟩ := Option.map_eq_some_iff.1 hface'
      have hfp : cl.metadataFingerprint = current.metadataFingerprint := (Prod.ext_iff.1 he).1
      have hfp' : cl'.metadataFingerprint = some input.metadataFingerprint := (Prod.ext_iff.1 he').1
      have hid : c.clientId = input.clientId := by
        rw [key_of_get h1] at hk
        exact hk
      refine hh.renames _ cl cl' hcl hcl' ?_ c hmem hid (h2 cl' (hk ▸ hcl')).symm
      rw [hfp, hfp']
      exact Ne.symm hch
    have hrows : w'.db.refreshTokens = w.db.refreshTokens.update
        (fun r => r.clientId = input.clientId ∧ r.revokedAt = none) (fun r => { r with revokedAt := some now })
        fun _ => rfl := by
      rw [hdb, metadataClientBatch, if_pos hch]
    refine hi.withdraw (x := .fingerprintChanged input.clientId)
      (by rw [hw', metadataClientEvents, if_pos hch]; rfl) (fun k hcur => ?_) (hrows ▸ rowsRevoked_update _ _ _)
      hgone ?_ hmono
    · by_cases hk : k.2.1 = input.clientId
      · exact absurd hcur (hgone k hk)
      · exact hother hk hcur
    · intro _ r' hr' hx hlive
      rw [hrows] at hr'
      obtain ⟨r, hr, rfl⟩ := (Table.mem_update fun _ => by rfl).1 hr'
      split at hlive
      · cases hlive
      · rename_i hp
        rw [if_neg hp] at hx
        exact hp (decide_eq_true ⟨hx, hlive⟩)

end

/-! ## The calls -/

/-- The calls that interleave. An exchange carries the ids and the secret it draws. -/
inductive WithdrawalCall where
  | exchange (client : ClientRow) (form : AuthorizationCodeForm) (familyId secret grantId : String)
  | revokeApp (userId clientId : String)
  | deleteResource (resource : String)
  | upsert (input : UpsertMetadataClientInput)
  | saveConsent (id : String) (input : SaveConsentInput)
  deriving DecidableEq, Repr

def WithdrawalCall.code (env : Env) : WithdrawalCall → App Unit
  | .exchange client form familyId secret grantId => do
    let _ ← handleAuthorizationCode env client form familyId secret grantId
  | .revokeApp userId clientId => do let _ ← Routes.revokeApp userId clientId
  | .deleteResource resource => do let _ ← Db.deleteResource resource
  | .upsert input => do let _ ← upsertMetadataClient input
  | .saveConsent id input => Db.saveConsent id input

/-- The client a call writes. -/
def WithdrawalCall.upserts : WithdrawalCall → Option String
  | .upsert input => some input.clientId
  | _ => none

/-- Calls arrive at any time, except that two upserts of one client do not overlap; `allow` says
which steps can happen. -/
def withdrawalSystem (env : Env) (allow : World → World → Prop) :
    System WithdrawalCall Input World (Except Failure Unit) where
  code := fun c => (c.code env).run
  allow := fun w _ w' => allow w w'
  arrive := fun P c => ∀ id, c.upserts = some id → ∀ t ∈ P.threads, t.1.upserts = some id → t.2.isDone = true

/-! ## The outline -/

/-- Once its record `x` stands in the history, a live row of `p` has a consent saved after it. -/
def Ended (x : Event) (p : Triple → Prop) (w : World) : Prop :=
  ∃ newer older, w.log = newer ++ x :: older ∧ ∀ r ∈ w.db.refreshTokens, r.revokedAt = none → p (triple r) →
    saved (triple r) ∈ newer

theorem Ended.grows {x : Event} {p : Triple → Prop} {w w' : World} (hp : ∀ k, p k → withdraws x k) (h : Ended x p w)
    (hg : Grows w w') : Ended x p w' := by
  obtain ⟨newer, older, hlog, hlive⟩ := h
  obtain ⟨ext, hlog', hrows⟩ := hg.rows
  refine ⟨ext ++ newer, older, by rw [hlog', hlog, List.append_assoc], fun r' hr' hl hpr => ?_⟩
  rcases hrows r' hr' hl with ⟨r, hr, hk⟩ | hnew
  · rw [triple_kept hk] at hpr ⊢
    exact List.mem_append_right _ (hlive r hr (hk.live hl) hpr)
  · exact hnew newer x older hlog (hp _ hpr)

/-- What other calls may do: they leave the client alone that `c` is about to write. -/
structure WithdrawalCall.Rely (c : WithdrawalCall) (w w' : World) : Prop where
  grows : Grows w w'
  face : ∀ id, c.upserts = some id → Grant.face w'.db id = Grant.face w.db id

/-- What `c` does: the only client it writes is its own. -/
structure WithdrawalCall.Guar (c : WithdrawalCall) (w w' : World) : Prop where
  grows : Grows w w'
  face : ∀ id, c.upserts ≠ some id → Grant.face w'.db id = Grant.face w.db id

theorem Grows.of_rows {w w' : World} {ext : List Event} (hlog : w'.log = ext ++ w.log)
    (hrows : RowsRevoked w.db.refreshTokens w'.db.refreshTokens)
    (hmono : ∀ f, FamilyMono (w.families f) (w'.families f)) : Grows w w' :=
  ⟨⟨ext, hlog, fun r' hr' _ => Or.inl (hrows r' hr')⟩, hmono⟩

theorem Grows.burns {w w' : World} (hb : Burns w w') : Grows w w' :=
  .of_rows (hb.log.trans (List.nil_append _).symm) (by rw [hb.db]; exact RowsRevoked.refl _) hb.mono

def withdrawalOutline (env : Env) : Outline (withdrawalSystem env Heeds) where
  inv := WithdrawalInv
  rely := WithdrawalCall.Rely
  guar := WithdrawalCall.Guar
  post := fun c r w => ∀ u cl, c = .revokeApp u cl → r = .ok () →
    Ended (.consentDeleted u cl) (fun k => k.1 = u ∧ k.2.1 = cl) w
  apart := fun _ _ => True
  beside := fun c d => ∀ id, c.upserts = some id → d.upserts ≠ some id
  trace := fun _ _ => True

section

variable {env : Env}

theorem withdrawal_tolerant (env : Env) (c : WithdrawalCall) : Tolerant ((withdrawalOutline env).protocol c) where
  ok := ⟨fun w => ⟨.burns (Burns.tick w 0), fun _ _ => rfl⟩,
    fun h₁ h₂ => ⟨h₁.grows.trans h₂.grows, fun id hid => (h₂.face id hid).trans (h₁.face id hid)⟩⟩
  tickInv := fun {w} dt hi => (withdrawalInv_burns (Burns.tick w dt) hi).1
  tickRely := fun w dt => ⟨.burns (Burns.tick w dt), fun _ _ => rfl⟩
  tickGuar := fun w dt => ⟨.burns (Burns.tick w dt), fun _ _ => rfl⟩
  tickAllow := fun _ h => ⟨h.inserts, h.renames⟩
  guarTick := fun dt h => ⟨.trans (.burns (Burns.tick _ dt)) h.grows, h.face⟩
  burnInv := fun hb hi => (withdrawalInv_burns hb hi).1
  burnRely := fun hb => ⟨.burns hb, fun _ _ => by rw [hb.db]⟩
  burnGuar := fun hb => ⟨.burns hb, fun _ _ => by rw [hb.db]⟩

theorem withdrawal_settled {c : WithdrawalCall} {r : Except Failure Unit} {w w' : World} (hg : Grows w w')
    (h : (withdrawalOutline env).post c r w) : (withdrawalOutline env).post c r w' :=
  fun u cl hc hr => (h u cl hc hr).grows (fun _ hk => hk) hg

/-! ## The programs -/

/-- A call that is no app revocation has nothing to establish. -/
theorem post_trivial (env : Env) {c : WithdrawalCall} (hc : ∀ u cl, c ≠ .revokeApp u cl) :
    ∀ (r : Except Failure Unit) (w : World), (withdrawalOutline env).post c r w :=
  fun _ _ u cl h => absurd h (hc u cl)

theorem revokeApp_holds {u cl : String} {w : World} :
    wpE ((withdrawalOutline env).protocol (.revokeApp u cl)) ((WithdrawalCall.revokeApp u cl).code env)
      (fun a => (withdrawalOutline env).post (.revokeApp u cl) (.ok a))
      (fun x => (withdrawalOutline env).post (.revokeApp u cl) (.error x)) w := by
  have hΓ := withdrawal_tolerant env (.revokeApp u cl)
  have hA : ((withdrawalOutline env).protocol (.revokeApp u cl)).Stable fun w =>
      ∃ newer older, w.log = newer ++ .consentDeleted u cl :: older := by
    rintro w w' ⟨newer, older, hlog⟩ hr _
    obtain ⟨ext, hlog', -⟩ := hr.grows.rows
    exact ⟨ext ++ newer, older, by rw [hlog', hlog, List.append_assoc]⟩
  have hB : ((withdrawalOutline env).protocol (.revokeApp u cl)).Stable
      (Ended (.consentDeleted u cl) fun k => k.1 = u ∧ k.2.1 = cl) :=
    fun _ _ h hr _ => h.grows (fun _ hk => hk) hr.grows
  rw [WithdrawalCall.code, wpE_bind]
  refine revokeApp_wpE hΓ (stable_true _) hA hB trivial ?_ ?_ ?_ (fun _ => nofun) fun b w hend => ?_
  · intro w e _ hi _
    obtain ⟨h1, h2⟩ := hi.unconsented u cl
    exact ⟨h1, ⟨h2, fun _ _ => rfl⟩, [], w.log, rfl⟩
  · rintro w e now ⟨newer, older, hlog⟩ hi w' -
    have hstep : WithdrawalInv w' ∧ Grows w w' := hi.keep (show w'.log = [_] ++ w.log from rfl) (by simp [withdraws])
      (fun k h => Or.inl h) (fun r hr _ => Or.inl (rowsRevoked_update _ _ _ r hr)) fun _ => FamilyMono.refl _
    obtain ⟨h1, h2⟩ := hstep
    refine ⟨h1, ⟨h2, fun _ _ => rfl⟩, _ :: newer, older, congrArg (List.cons _) hlog, fun r' hr' hlive hk => ?_⟩
    obtain ⟨r, -, hkept, hrev⟩ := revokeRows_revoked hr'
    rw [triple_kept hkept] at hk
    exact absurd hlive (hrev (decide_eq_true hk))
  · rintro w w' hend hi ⟨grants, rfl⟩
    have hstep : WithdrawalInv { w with db := { w.db with grants } } ∧ Grows w { w with db := { w.db with grants } } :=
      hi.silent rfl rfl rfl rfl fun _ => FamilyMono.refl _
    obtain ⟨h1, h2⟩ := hstep
    exact ⟨h1, ⟨h2, fun _ _ => rfl⟩, hend.grows (fun _ hk => hk) h2⟩
  · intro v c hc _
    cases hc
    exact hend

section

variable {w : World} {Q : Unit → World → Prop} {X : Failure → World → Prop}

theorem deleteResource_holds {resource : String} (hQ : ∀ a w, Q a w) (hX : ∀ x w, X x w) :
    wpE ((withdrawalOutline env).protocol (.deleteResource resource))
      ((WithdrawalCall.deleteResource resource).code env) Q X w := by
  have hc := (withdrawal_tolerant env (.deleteResource resource)).toClocked
  have ht := stable_true ((withdrawalOutline env).protocol (.deleteResource resource))
  rw [WithdrawalCall.code, wpE_bind, Db.deleteResource, wpE_bind]
  refine wpE_select hc ht trivial (fun w _ _ => ?_) fun w _ _ => hX _ w
  split
  · exact hQ _ w
  · refine wpE_io hc ht trivial (fun w e _ hi _ => ?_) fun w _ _ => hX _ w
    obtain ⟨h1, h2⟩ := hi.resourceDeleted resource
    exact ⟨h1, ⟨h2, fun id _ => face_deleteResource _ _ _ id⟩, hQ _ _, fun _ => hX _ _⟩

theorem saveConsent_holds {id : String} {input : SaveConsentInput} (hQ : ∀ a w, Q a w) (hX : ∀ x w, X x w) :
    wpE ((withdrawalOutline env).protocol (.saveConsent id input)) ((WithdrawalCall.saveConsent id input).code env)
      Q X w := by
  have hc := (withdrawal_tolerant env (.saveConsent id input)).toClocked
  have ht := stable_true ((withdrawalOutline env).protocol (.saveConsent id input))
  rw [WithdrawalCall.code, Db.saveConsent, wpE_bind]
  refine wpE_clock hc ht trivial fun w₁ _ _ => ?_
  rw [wpE_bind]
  refine wpE_d1Logged hc ht trivial ?_ fun w _ _ => hX _ w
  rintro w w' - - hi rfl -
  have hend : ∀ saved w, wpE ((withdrawalOutline env).protocol (.saveConsent id input)) (require saved .storage) Q X w :=
    fun saved w => wpE_require saved _ Q |>.2 ⟨fun _ => hQ _ w, fun _ => hX _ w⟩
  cases hsave : saveConsentStatement w₁.nowSeconds id input w.db with
  | none => exact ⟨hi, ⟨.burns (Burns.tick w 0), fun _ _ => rfl⟩, hend _ _, hX _ _⟩
  | some db =>
    obtain ⟨h1, h2⟩ := hi.saveConsent hsave
    obtain ⟨consents, -, hdb⟩ := Option.map_eq_some_iff.1 hsave
    refine ⟨h1, ⟨h2, fun _ _ => ?_⟩, hend _ _, hX _ _⟩
    rw [Option.getD_some, ← hdb]
    rfl

/-- The client's row, once read, keeps its face until the closing batch: no other upsert of it runs. -/
theorem persist_holds {input : UpsertMetadataClientInput} {Q : ClientRow → World → Prop} (hQ : ∀ a w, Q a w)
    (hX : ∀ x w, X x w) :
    wpE ((withdrawalOutline env).protocol (.upsert input)) (persistMetadataClient input) Q X w := by
  have hc := (withdrawal_tolerant env (.upsert input)).toClocked
  have ht := stable_true ((withdrawalOutline env).protocol (.upsert input))
  have hface : ∀ f, ((withdrawalOutline env).protocol (.upsert input)).Stable fun w => face w.db input.clientId = f :=
    fun f _ _ h hr _ => (hr.face _ rfl).trans h
  have hown : ∀ {id}, (WithdrawalCall.upsert input).upserts ≠ some id → id ≠ input.clientId :=
    fun h he => h (congrArg some he.symm)
  rw [persistMetadataClient, wpE_bind]
  refine wpE_clock hc ht trivial fun w₁ _ _ => ?_
  rw [wpE_bind, d1]
  refine wpE_d1Logged hc ht trivial ?_ fun w _ _ => hX _ w
  rintro w w' - - hi rfl -
  obtain ⟨h1, h2⟩ := hi.registered (metadataClientRow input)
  refine ⟨h1, ⟨h2, fun id hid => ?_⟩, ?_, hX _ _⟩
  · exact congrArg (Option.map _) (Table.get?_insert_of_ne (Ne.symm (hown hid)))
  rw [wpE_bind]
  refine wpE_select hc ht trivial (fun w _ _ => ?_) fun w _ _ => hX _ w
  split
  · exact hX _ w
  · rename_i current hcur
    obtain ⟨hget, hreg⟩ := Option.filter_eq_some_iff.1 hcur
    have hw : face w.db input.clientId = some (current.metadataFingerprint, .clientIdMetadata) := by
      rw [face, hget, Option.map_some, of_decide_eq_true hreg]
    rw [wpE_bind]
    refine wpE_d1Logged hc (hface _) hw ?_ fun w _ _ => hX _ w
    rintro w w' e hw hi hw' hallow
    obtain ⟨h1, h2⟩ := hi.upserted hallow hw hw'
    refine ⟨h1, ⟨h2, fun id hid => ?_⟩, ?_, hX _ _⟩
    · rw [hw', face_upsert hw, if_neg (hown hid)]
    · rw [wpE_bind]
      refine wpE_select hc ht trivial (fun w _ _ => ?_) fun w _ _ => hX _ w
      split
      · exact hX _ w
      · exact hQ _ w

theorem upsert_holds {input : UpsertMetadataClientInput} (hQ : ∀ a w, Q a w) (hX : ∀ x w, X x w) :
    wpE ((withdrawalOutline env).protocol (.upsert input)) ((WithdrawalCall.upsert input).code env) Q X w := by
  have hc := (withdrawal_tolerant env (.upsert input)).toClocked
  have ht := stable_true ((withdrawalOutline env).protocol (.upsert input))
  rw [WithdrawalCall.code, wpE_bind, upsertMetadataClient, wpE_bind]
  refine wpE_select hc ht trivial (fun w _ _ => ?_) fun w _ _ => hX _ w
  rw [wpE_bind, wpE_require]
  refine ⟨fun _ => ?_, fun _ => hX _ w⟩
  dsimp only
  split
  · rw [wpE_bind]
    refine wpE_select hc ht trivial (fun w _ _ => ?_) fun w _ _ => hX _ w
    rw [wpE_bind, wpE_require]
    exact ⟨fun _ => persist_holds (fun _ w => hQ _ w) hX, fun _ => hX _ w⟩
  · exact persist_holds (fun _ w => hQ _ w) hX

theorem exchangeGrant_holds {client : ClientRow} {form : AuthorizationCodeForm} {grant : Do.AuthorizationCodePayload}
    {f secret grantId : String} {Q : TokenResponse → World → Prop} (hi : WithdrawalInv w) (hQ : ∀ a w, Q a w)
    (hX : ∀ x w, X x w) :
    wpE ((withdrawalOutline env).protocol (.exchange client form f secret grantId))
      (exchangeGrant env client grant f secret grantId) Q X w := by
  have hΓ := withdrawal_tolerant env (.exchange client form f secret grantId)
  have hc := hΓ.toClocked
  have ht := stable_true ((withdrawalOutline env).protocol (.exchange client form f secret grantId))
  rw [exchangeGrant, wpE_bind]
  refine (grantChecks_quiet _ _ _ _ _ _).wpE hc ht trivial hi (fun checks w _ _ => ?_) fun x w _ _ => hX x w
  split
  · exact hX _ w
  · rw [wpE_bind, wpE_require]
    refine ⟨fun _ => ?_, fun _ => hX _ w⟩
    rw [wpE_bind, wpE_require]
    refine ⟨fun _ => ?_, fun _ => hX _ w⟩
    split
    · exact hX _ w
    · exact hX _ w
    · rw [wpE_bind]
      -- the last steps write the grant, which no withdrawal here looks at
      have hend : ∀ (response : TokenResponse) (input : AuthorizationGrantInput) (w : World),
          wpE ((withdrawalOutline env).protocol (.exchange client form f secret grantId))
            (do recordAuthorizationGrant grantId input; recordAudit; pure response) Q X w := by
        intro response input w
        rw [wpE_bind, recordAuthorizationGrant, wpE_bind]
        refine wpE_clock hc ht trivial fun w₁ _ _ => ?_
        rw [d1]
        refine wpE_d1Logged hc ht trivial ?_ fun w _ _ => hX _ w
        rintro w w' - - hi hw' -
        have hstep : WithdrawalInv w' ∧ Grows w w' := by
          rw [hw']
          exact hi.silent rfl rfl rfl rfl fun _ => FamilyMono.refl _
        refine ⟨hstep.1, ⟨hstep.2, fun _ _ => by rw [hw']; rfl⟩, ?_, hX _ _⟩
        rw [wpE_bind, recordAudit]
        exact wpE_query hc ht trivial (fun w _ _ => hQ _ w) fun w _ _ => hX _ w
      refine issueUserTokens_wpE hΓ ?_ (A := fun _ => True) (B := fun _ => True) ?_ ht ht ht trivial ?_ ?_
        (fun w _ _ => hX _ w) (fun w => hX _ w) (fun t w _ _ _ => hend _ _ w) fun t w _ _ _ => hend _ _ w
      · rfl
      · exact fun _ _ h hr _ => (hr.grows.mono f).alive h
      · intro w now data _ hi
        have hstep := hi.silent (show (createdWorld f now data w).log = w.log from rfl) rfl rfl rfl
          (createdWorld_mono f now data w)
        exact ⟨hstep.1, ⟨hstep.2, fun _ _ => rfl⟩, trivial⟩
      · intro w now tokenHash expiresAt e _ hi w' hallow
        obtain ⟨h1, h2⟩ := hi.issued hallow
        exact ⟨h1, ⟨h2, fun id _ => face_issued _ _ _ _ id⟩, fun _ => trivial, fun _ => trivial⟩

theorem exchange_holds {client : ClientRow} {form : AuthorizationCodeForm} {f secret grantId : String}
    (hQ : ∀ a w, Q a w) (hX : ∀ x w, X x w) :
    wpE ((withdrawalOutline env).protocol (.exchange client form f secret grantId))
      ((WithdrawalCall.exchange client form f secret grantId).code env) Q X w := by
  have hc := (withdrawal_tolerant env (.exchange client form f secret grantId)).toClocked
  have ht := stable_true ((withdrawalOutline env).protocol (.exchange client form f secret grantId))
  rw [WithdrawalCall.code, wpE_bind, handleAuthorizationCode]
  split
  · rw [wpE_bind, consumeCode]
    refine wpE_io hc ht trivial (fun w e _ hi _ => ?_) fun w _ _ => hX _ w
    have hstep : ∀ codes, WithdrawalInv { w with codes } ∧ Grows w { w with codes } :=
      fun codes => hi.silent rfl rfl rfl rfl fun _ => FamilyMono.refl _
    refine ⟨(hstep _).1, ⟨(hstep _).2, fun _ _ => rfl⟩, ?_, fun _ => hX _ _⟩
    split
    · rename_i reason _
      have hq : ∀ (b : Bool) (x y : Failure),
          Quiet (do
            if reason = .pkce then recordAudit
            require b x
            throw y : App TokenResponse) := by
        intro b x y
        dsimp only
        split
        · exact .bind recordAudit_quiet fun _ => .bind (.require _ _) fun _ => .throw _
        · exact .bind (.require _ _) fun _ => .throw _
      exact (hq _ _ _).wpE hc ht trivial (hstep _).1 (fun _ w _ _ => hQ _ w) fun x w _ _ => hX x w
    · exact exchangeGrant_holds (hstep _).1 (fun _ w => hQ _ w) hX
  · exact hX _ w

end

theorem withdrawal_valid : (withdrawalOutline env).Valid where
  symm := fun _ => trivial
  besideSymm := fun h id hd hc => h id hc hd
  arrives := by
    intro P c hc t ht
    refine ⟨trivial, fun hrun id htid hcid => ?_⟩
    rw [hc id hcid t ht htid] at hrun
    cases hrun
  traceArrives := fun _ => trivial
  traceStep := fun _ _ _ => trivial
  ok := fun c => (withdrawal_tolerant env c).ok
  compat := fun _ hb _ hg => ⟨hg.grows, fun id hd => hg.face id fun hc => hb id hc hd⟩
  stable := fun c r _ _ h hr _ => withdrawal_settled hr.grows h
  settled := fun _ _ hg _ h => withdrawal_settled hg.grows h
  safe := by
    intro P c _ _
    apply wp_of_wpE
    cases c with
    | exchange client form f secret grantId =>
      have hpost := post_trivial env (c := .exchange client form f secret grantId) (by simp)
      exact exchange_holds (fun _ => hpost _) fun _ => hpost _
    | revokeApp u cl => exact revokeApp_holds
    | deleteResource resource =>
      have hpost := post_trivial env (c := .deleteResource resource) (by simp)
      exact deleteResource_holds (fun _ => hpost _) fun _ => hpost _
    | upsert input =>
      have hpost := post_trivial env (c := .upsert input) (by simp)
      exact upsert_holds (fun _ => hpost _) fun _ => hpost _
    | saveConsent id input =>
      have hpost := post_trivial env (c := .saveConsent id input) (by simp)
      exact saveConsent_holds (fun _ => hpost _) fun _ => hpost _

end

/-- Withdrawals hold in every run whose steps heed the consents. Take a pool reachable from a world
without history by such steps. Once an app revocation has finished, every live family of its user and
client has a consent that was saved after the consents were deleted; and once a resource deletion or
a fingerprint change has committed, every live family of the resource or the client has a consent
saved after it. -/
theorem withdrawals_hold_under_consent (env : Env) (w₀ : World) (hlog : w₀.log = [])
    (P : Pool WithdrawalCall Input World (Except Failure Unit))
    (hP : (withdrawalSystem env Heeds).Reach ⟨w₀, []⟩ P) :
    (∀ u cl, (.revokeApp u cl, .done (.ok ())) ∈ P.threads →
      ∃ newer older, P.store.log = newer ++ .consentDeleted u cl :: older ∧
        ∀ r ∈ P.store.db.refreshTokens, r.revokedAt = none → r.userId = u → r.clientId = cl →
          Event.consentSaved u cl r.resource ∈ newer) ∧
    (∀ resource newer older, P.store.log = newer ++ .resourceDeleted resource :: older →
      ∀ r ∈ P.store.db.refreshTokens, r.revokedAt = none → r.resource = resource →
        Event.consentSaved r.userId r.clientId resource ∈ newer) ∧
    (∀ cl newer older, P.store.log = newer ++ .fingerprintChanged cl :: older →
      ∀ r ∈ P.store.db.refreshTokens, r.revokedAt = none → r.clientId = cl →
        Event.consentSaved r.userId cl r.resource ∈ newer) := by
  have h₀ : WithdrawalInv w₀ := by
    refine ⟨fun newer x older h => ?_, fun newer x older h => ?_⟩ <;> rw [hlog] at h <;> simp at h
  have hH := withdrawal_valid.reach (Outline.holds_start h₀ trivial) hP
  refine ⟨fun u cl ht => ?_, fun resource newer older h r hr hlive hres => ?_,
    fun cl newer older h r hr hlive hcl => ?_⟩
  · obtain ⟨newer, older, hl, hsaved⟩ := hH.post ht u cl rfl rfl
    refine ⟨newer, older, hl, fun r hr hlive hu hc => ?_⟩
    have := hsaved r hr hlive ⟨hu, hc⟩
    rwa [saved, triple, hu, hc] at this
  · subst hres
    exact hH.inv.rows newer _ older h rfl r hr hlive rfl
  · subst hcl
    exact hH.inv.rows newer _ older h rfl r hr hlive rfl

/-! ## Runs -/

def currentTest (db : Database) (k : Triple) : Bool :=
  (db.consents.get? k).any fun c => (db.clients.get? k.2.1).all fun cl => cl.metadataFingerprint = c.metadataFingerprint

theorem current_of_test {db : Database} {k : Triple} (h : currentTest db k = true) : Current db k := by
  obtain ⟨c, hc, hcl⟩ := Option.any_eq_true .. |>.1 h
  exact ⟨c, hc, fun cl hget => of_decide_eq_true (Option.all_eq_true .. |>.1 hcl cl hget)⟩

/-- `Heeds`, as a test that a run can evaluate. -/
def heedsTest (w w' : World) : Bool :=
  (w'.db.refreshTokens.rows.all fun r => (w.db.refreshTokens.get? r.id).isSome || currentTest w.db (triple r)) &&
    w.db.clients.rows.all fun cl => (w'.db.clients.get? cl.clientId).all fun cl' =>
      cl'.metadataFingerprint = cl.metadataFingerprint ∨
        ∀ c ∈ w.db.consents.rows, c.clientId = cl.clientId → c.metadataFingerprint ≠ cl'.metadataFingerprint

theorem heeds_of_test {w w' : World} (h : heedsTest w w' = true) : Heeds w w' := by
  obtain ⟨hrows, hclients⟩ := Bool.and_eq_true .. |>.mp h
  refine ⟨fun r hr hn => ?_, fun id cl cl' hcl hcl' hne c hc hid => ?_⟩
  · have hrow := List.all_eq_true.1 hrows r hr
    rw [hn] at hrow
    exact current_of_test hrow
  · obtain ⟨hmem, rfl⟩ := Table.get?_eq_some.1 hcl
    have htest := Option.all_eq_true .. |>.1 (List.all_eq_true.1 hclients cl hmem) cl' hcl'
    exact (of_decide_eq_true htest).resolve_left hne c hc hid

def sampleForm : AuthorizationCodeForm :=
  { code := some "code_a", redirectUri := some "https://app.example.com/cb", codeVerifier := some Deployment.verifier,
    resource := none }

/-- The application as a metadata client. -/
def metadataClient : ClientRow :=
  { Deployment.client with
    registrationType := .clientIdMetadata, metadataFingerprint := some "fp_1", metadataExpiresAt := some 100000 }

/-- The deployment with a code of the metadata client, whose metadata the user has consented to. -/
def metadataWorld : World :=
  { Deployment.codeWorld with
    db := { Deployment.database with
      clients := (∅ : Table ClientRow.clientId).insert metadataClient
      resources := (∅ : Table ResourceRow.resourceUri).insert
        { Deployment.resource with mcpEnabled := true, metadataClientPolicy := .consentRequired }
      consents := (∅ : Table fun r : ConsentRow => (r.userId, r.clientId, r.resource)).insert
        { Deployment.consent with metadataFingerprint := some "fp_1" } }
    codes := fun h =>
      if h = hashOpaqueToken Deployment.env "code_a" then
        .store 1000000 { Deployment.authorizationCode with metadataFingerprint := some "fp_1" } 60 .empty
      else .empty }

def metadataExchange : WithdrawalCall :=
  .exchange metadataClient sampleForm "rtf_a" "secret" "grant_a"

/-- The client's document as it is fetched next. -/
def renewedMetadata : UpsertMetadataClientInput :=
  { clientId := "app", name := "App", redirectUris := ["https://app.example.com/cb"],
    allowedGrantTypes := ["authorization_code"], tokenEndpointAuthMethods := [.none], metadataJwksUri := none,
    metadataFingerprint := "fp_2", resourceUri := "https://api.example.com", allowedScopes := ["openid"],
    metadataExpiresAt := 200000, metadataFetchedAt := some 1000 }

/-- While the exchange runs the client's new document is on its way; the family goes in before the
fingerprint changes, and then the user revokes the application. -/
def withdrawalSchedule : List (System.Move WithdrawalCall Input) :=
  List.flatten [[.arrive metadataExchange], List.replicate 9 (.run 0 Deployment.ok),
    [.arrive (.upsert renewedMetadata)], List.replicate 3 (.run 1 Deployment.ok), List.replicate 6 (.run 0 Deployment.ok),
    List.replicate 3 (.run 1 Deployment.ok), [.arrive (.revokeApp "usr_a" "app")], List.replicate 7 (.run 2 Deployment.ok)]

theorem withdrawals_hold_under_consent_revoked :
    let P := (withdrawalSystem Deployment.env Heeds).moves ⟨metadataWorld, []⟩ withdrawalSchedule
    P.finished 0 = some (metadataExchange, .ok ()) ∧ P.finished 1 = some (.upsert renewedMetadata, .ok ()) ∧
      P.finished 2 = some (.revokeApp "usr_a" "app", .ok ()) ∧
      P.store.log = [.familiesRevoked [], .consentDeleted "usr_a" "app", .fingerprintChanged "app",
        .familyInserted "rtf_a"] ∧
      (∃ r ∈ P.store.db.refreshTokens, triple r = ("usr_a", "app", "https://api.example.com")) ∧
      (∀ r ∈ P.store.db.refreshTokens, r.userId = "usr_a" → r.clientId = "app" → r.revokedAt ≠ none) ∧
      ∀ r ∈ P.store.db.refreshTokens, r.clientId = "app" → r.revokedAt ≠ none := by
  intro P
  have hpasses : (withdrawalSystem Deployment.env Heeds).passes heedsTest ⟨metadataWorld, []⟩ withdrawalSchedule = true := by
    decide +kernel
  have harrives : (withdrawalSystem Deployment.env Heeds).Arrives ⟨metadataWorld, []⟩ withdrawalSchedule := by
    refine ⟨nofun, fun id _ t ht hid => ?_, nofun, trivial⟩
    have hcalls : t.1 ∈ [metadataExchange] := List.mem_map_of_mem ht
    rw [List.mem_singleton.1 hcalls] at hid
    cases hid
  have hreach : (withdrawalSystem Deployment.env Heeds).Reach ⟨metadataWorld, []⟩ P :=
    System.reach_moves withdrawalSchedule
      (System.allows_of_arrives heedsTest (fun _ _ _ => heeds_of_test) withdrawalSchedule harrives hpasses)
  obtain ⟨hexchange, hupsert, hdone, hlog, hrow⟩ : P.finished 0 = some (metadataExchange, .ok ()) ∧
      P.finished 1 = some (.upsert renewedMetadata, .ok ()) ∧
      P.finished 2 = some (.revokeApp "usr_a" "app", .ok ()) ∧
      P.store.log = [.familiesRevoked [], .consentDeleted "usr_a" "app", .fingerprintChanged "app",
        .familyInserted "rtf_a"] ∧
      (P.store.db.refreshTokens.has fun r => triple r = ("usr_a", "app", "https://api.example.com")) = true := by
    decide +kernel
  have hnone : ∀ u cl resource, Event.consentSaved u cl resource ∉ P.store.log := by simp [hlog]
  obtain ⟨hrevoked, -, hrenamed⟩ := withdrawals_hold_under_consent Deployment.env metadataWorld rfl P hreach
  refine ⟨hexchange, hupsert, hdone, hlog, ?_, fun r hr hu hc hlive => ?_, fun r hr hc hlive => ?_⟩
  · obtain ⟨r, hr, h⟩ := Table.has_iff.1 hrow
    exact ⟨r, hr, of_decide_eq_true h⟩
  · obtain ⟨newer, older, hl, hsaved⟩ := hrevoked "usr_a" "app" (Pool.mem_of_finished hdone)
    exact hnone _ _ _ (hl ▸ List.mem_append_left _ (hsaved r hr hlive hu hc))
  · have hsaved := hrenamed "app" [.familiesRevoked [], .consentDeleted "usr_a" "app"] [.familyInserted "rtf_a"] hlog r hr
      hlive hc
    simp at hsaved

def codeExchange : WithdrawalCall :=
  .exchange Deployment.client sampleForm "rtf_a" "secret" "grant_a"

/-- The exchange reads the consent, the user revokes the application, and then the family goes in. -/
def raceSchedule : List (System.Move WithdrawalCall Input) :=
  .arrive codeExchange :: (List.replicate 9 (.run 0 Deployment.ok) ++
    .arrive (.revokeApp "usr_a" "app") :: (List.replicate 6 (.run 1 Deployment.ok) ++
      (List.replicate 6 (.run 0 Deployment.ok) ++ [])))

/-- Where every step can happen, a finished exchange and a finished app revocation leave a live
family behind although no consent was saved. -/
theorem code_exchange_outlives_withdrawal :
    let S := withdrawalSystem Deployment.env fun _ _ => True
    let P := S.moves ⟨Deployment.codeWorld, []⟩ raceSchedule
    S.Reach ⟨Deployment.codeWorld, []⟩ P ∧
      P.finished 0 = some (codeExchange, .ok ()) ∧ P.finished 1 = some (.revokeApp "usr_a" "app", .ok ()) ∧
      P.store.log = [.familyInserted "rtf_a", .familiesRevoked [], .consentDeleted "usr_a" "app"] ∧
      ∃ r ∈ P.store.db.refreshTokens,
        triple r = ("usr_a", "app", "https://api.example.com") ∧ r.revokedAt = none := by
  intro S P
  have hall : ∀ s e s', S.allow s e s' := fun _ _ _ => trivial
  obtain ⟨hexchange, hrevoke, hlog, hlive⟩ : P.finished 0 = some (codeExchange, .ok ()) ∧
      P.finished 1 = some (.revokeApp "usr_a" "app", .ok ()) ∧
      P.store.log = [.familyInserted "rtf_a", .familiesRevoked [], .consentDeleted "usr_a" "app"] ∧
      (P.store.db.refreshTokens.has fun r =>
        triple r = ("usr_a", "app", "https://api.example.com") ∧ r.revokedAt = none) = true := by decide +kernel
  refine ⟨?_, hexchange, hrevoke, hlog, ?_⟩
  · exact System.reach_moves raceSchedule ⟨nofun, System.allows_runs hall _ _ _ ⟨nofun,
      System.allows_runs hall _ _ _ (System.allows_runs hall _ _ _ trivial)⟩⟩
  · obtain ⟨r, hr, h⟩ := Table.has_iff.1 hlive
    exact ⟨r, hr, of_decide_eq_true h⟩

end Keyforge.Grant
