/-
Audit messages (`security/audit.ts`): what `recordAudit` enqueues, and what the consumer makes of a batch. It
sanitises every message again before it parses it, so no message that was recorded spoils its batch, whatever
the queue made of the metadata.
-/
import Keyforge.Lib.JsSchema
import Keyforge.Security.AuditSanitize

namespace Keyforge.Security

open Lib

/-! ## Events -/

def AUDIT_EVENTS : List Text := [
  "user.created",
  "user.login.password.success",
  "user.login.password.failure",
  "user.login.magic_link.requested",
  "user.login.magic_link.consumed",
  "user.login.passkey.success",
  "user.login.passkey.failure",
  "user.password.reset.requested",
  "user.password.reset.completed",
  "user.password.changed",
  "user.email.verification.requested",
  "user.email.verified",
  "user.email.change.requested",
  "user.email.changed",
  "user.profile.updated",
  "user.passkey.updated",
  "user.group_membership.requested",
  "user.group_membership.request_cancelled",
  "user.deleted",
  "user.logout",
  "oauth.authorize.started",
  "oauth.authorize.completed",
  "oauth.authorize.denied",
  "oauth.token.issued",
  "oauth.refresh.used",
  "oauth.refresh.reused",
  "oauth.token.revoked",
  "oauth.device.started",
  "oauth.device.approved",
  "oauth.device.denied",
  "oauth.device.pending",
  "oauth.device.slow_down",
  "oauth.device.consumed",
  "oauth.device.expired",
  "oauth.client_credentials.issued",
  "oauth.client_credentials.denied",
  "oauth.introspection.completed",
  "admin.client.created",
  "admin.client.updated",
  "admin.client.secret_rotated",
  "admin.client.disabled",
  "admin.client.enabled",
  "admin.client.deleted",
  "admin.metadata_client.approved",
  "admin.metadata_client.approval_revoked",
  "admin.user.updated",
  "admin.user.created",
  "admin.user.magic_link.generated",
  "admin.user.password_added",
  "admin.user.password_deleted",
  "admin.user.passkey_deleted",
  "admin.user.sessions_revoked",
  "admin.user.disabled",
  "admin.user.enabled",
  "admin.group.created",
  "admin.group.updated",
  "admin.group.deleted",
  "admin.group.access_updated",
  "admin.group.member_added",
  "admin.group.member_removed",
  "admin.group.membership_request_approved",
  "admin.group.membership_request_rejected",
  "admin.user.groups_updated",
  "admin.device.revoked",
  "admin.resource.created",
  "admin.resource.updated",
  "admin.resource.deleted",
  "security.rate_limited",
  "security.invalid_client",
  "security.invalid_redirect_uri",
  "security.invalid_pkce"].map textOf

abbrev AuditEventType := { type : Text // type ∈ AUDIT_EVENTS }

/-- An event; its metadata may be any value. -/
structure AuditEvent (ν : Type) where
  type : AuditEventType
  actorUserId : Nullish Text
  actorClientId : Nullish Text
  userId : Nullish Text
  clientId : Nullish Text
  resourceUri : Nullish Text
  requestId : Nullish Text
  ipHash : Nullish Text
  userAgentHash : Nullish Text
  scope : Nullish Text
  success : Nullish Bool
  detail : Nullish Text
  metadata : JsValue ν

section

variable {ν : Type} [JsNumber ν]

/-- The event's own properties. -/
def AuditEvent.properties (event : AuditEvent ν) : List (Text × JsValue ν) :=
  [(textOf "type", .string event.type),
    (textOf "actorUserId", event.actorUserId.toJs .string),
    (textOf "actorClientId", event.actorClientId.toJs .string),
    (textOf "userId", event.userId.toJs .string),
    (textOf "clientId", event.clientId.toJs .string),
    (textOf "resourceUri", event.resourceUri.toJs .string),
    (textOf "requestId", event.requestId.toJs .string),
    (textOf "ipHash", event.ipHash.toJs .string),
    (textOf "userAgentHash", event.userAgentHash.toJs .string),
    (textOf "scope", event.scope.toJs .string),
    (textOf "success", event.success.toJs .bool),
    (textOf "detail", event.detail.toJs .string),
    (textOf "metadata", event.metadata)]

/-- What `recordAudit` sets. -/
def AuditEvent.recorded (event : AuditEvent ν) (metadata : JsValue ν) (id : Text) (nowSeconds : Nat) : List (Text × JsValue ν) :=
  [(textOf "actorUserId", event.actorUserId.toJs .string),
    (textOf "actorClientId", event.actorClientId.toJs .string),
    (textOf "detail", (sanitizeAuditDetail event.detail).toJs .string),
    (textOf "metadata", metadata),
    (textOf "id", .string id),
    (textOf "createdAt", .number (JsNumber.ofNat nowSeconds))]

/-- The message that `recordAudit` enqueues, with the id and the time it draws. -/
def auditMessage (h : Heap ν) (event : AuditEvent ν) (id : Text) (nowSeconds : Nat) : List (Text × JsValue ν) × Heap ν :=
  let (metadata, h) := sanitizeAuditMetadata h event.metadata
  (defineAll (event.properties ++ event.recorded metadata id nowSeconds), h)

/-! ## The consumer -/

/-- The properties that replace a detail. -/
def normalizedDetail (detail : JsValue ν) : List (Text × JsValue ν) :=
  match detail with
  | .string detail => [(textOf "detail", (sanitizeAuditDetail (.value detail)).toJs .string)]
  | _ => []

/-- The properties that replace metadata. -/
def normalizedMetadata (h : Heap ν) (metadata : JsValue ν) : List (Text × JsValue ν) × Heap ν :=
  match metadata with
  | .undefined => ([], h)
  | metadata =>
    let (metadata, h) := sanitizeAuditMetadata h metadata
    ([(textOf "metadata", metadata)], h)

/-- The message with its detail and its metadata sanitised again; `none` is an exception. -/
def normalizeAuditMessage (h : Heap ν) (raw : JsValue ν) : Option (JsValue ν × Heap ν) :=
  match raw with
  | .ref o =>
    match h.object o with
    | .array _ => some (raw, h)
    | .record message _ =>
      let detail := normalizedDetail (property message (textOf "detail"))
      let (metadata, h) := normalizedMetadata h (property message (textOf "metadata"))
      some (.ref h.length, h ++ [.ofEntries (message ++ detail ++ metadata)])
    | .unreadable => none
  | _ => some (raw, h)

structure AuditMessage (ν : Type) where
  id : Text
  type : Text
  actorUserId : Nullish Text
  actorClientId : Nullish Text
  userId : Nullish Text
  clientId : Nullish Text
  resourceUri : Nullish Text
  requestId : Nullish Text
  ipHash : Nullish Text
  userAgentHash : Nullish Text
  scope : Nullish Text
  success : Nullish Bool
  detail : Nullish Text
  metadata : Nullish (List (Text × JsValue ν))
  createdAt : ν

variable (zod : JsSchemaLibrary ν)

def auditMessageSchema : zod.Schema (AuditMessage ν) :=
  zod.object <|
    .field (textOf "id") zod.string <|
    .field (textOf "type") (zod.enumeration AUDIT_EVENTS) <|
    .field (textOf "actorUserId") (zod.nullish zod.string) <|
    .field (textOf "actorClientId") (zod.nullish zod.string) <|
    .field (textOf "userId") (zod.nullish zod.string) <|
    .field (textOf "clientId") (zod.nullish zod.string) <|
    .field (textOf "resourceUri") (zod.nullish zod.string) <|
    .field (textOf "requestId") (zod.nullish zod.string) <|
    .field (textOf "ipHash") (zod.nullish zod.string) <|
    .field (textOf "userAgentHash") (zod.nullish zod.string) <|
    .field (textOf "scope") (zod.nullish zod.string) <|
    .field (textOf "success") (zod.nullish zod.boolean) <|
    .field (textOf "detail") (zod.nullish (zod.refine zod.string fun _ => isBoundedAuditDetail)) <|
    .field (textOf "metadata") (zod.nullish (zod.refine zod.record fun h entries =>
      isBoundedAuditMetadata (h ++ [.ofEntries entries]) (.ref h.length))) <|
    .field (textOf "createdAt") zod.number <|
    .done fun createdAt metadata detail success scope userAgentHash ipHash requestId resourceUri clientId userId actorClientId
      actorUserId type id =>
        ⟨id, type, actorUserId, actorClientId, userId, clientId, resourceUri, requestId, ipHash, userAgentHash, scope, success,
          detail, metadata, createdAt⟩

/-- A value bound to a statement. -/
inductive BoundValue (ν : Type) where
  | null
  | text (s : Text)
  | number (x : ν)

/-- `value ?? null`. -/
def orNull (value : Nullish Text) : BoundValue ν :=
  match value with
  | .value s => .text s
  | _ => .null

/-- What is bound for a message; `none` is an exception of `JSON.stringify`. -/
def boundValues (h : Heap ν) (message : AuditMessage ν) : Option (List (BoundValue ν)) := do
  let metadata ← match message.metadata with
    | .value entries => (stringify (h ++ [.ofEntries entries]) (.ref h.length)).map fun text? => text?.elim .null .text
    | _ => some .null
  pure [.text message.id, .text message.type, orNull message.actorUserId, orNull message.actorClientId, orNull message.userId,
    orNull message.clientId, orNull message.resourceUri, orNull message.requestId, orNull message.ipHash,
    orNull message.userAgentHash, orNull message.scope,
    match message.success with
      | .value success => .number (JsNumber.ofNat success.toNat)
      | _ => .null,
    orNull message.detail, metadata, .number message.createdAt]

/-- The statements of a batch; `none` where a message is rejected, and with it the batch. -/
def insertAuditBatch (h : Heap ν) (rawMessages : List (JsValue ν)) : Option (List (List (BoundValue ν))) :=
  rawMessages.mapM fun raw => do
    let (value, h) ← normalizeAuditMessage h raw
    let message ← zod.safeParse (auditMessageSchema zod) h value
    boundValues h message

/-! ## No recorded message is rejected -/

/-- A raw message with the properties that `recordAudit` gave it, but for its metadata, which may be anything: it
is the message itself or the queue's copy of it. -/
def Recorded (h : Heap ν) (raw : JsValue ν) : Prop :=
  ∃ o entries nodup, raw = .ref o ∧ h.object o = .record entries nodup ∧
    ∃ h' event id nowSeconds, ∀ key, key ≠ textOf "metadata" →
      property entries key = property (auditMessage h' event id nowSeconds).1 key

/-- A fresh object with such properties. -/
theorem Recorded.fresh (h : Heap ν) {entries : List (Text × JsValue ν)} (hnodup : (entries.map Prod.fst).Nodup)
    (hsame : ∃ h' event id nowSeconds, ∀ key, key ≠ textOf "metadata" →
      property entries key = property (auditMessage h' event id nowSeconds).1 key) :
    Recorded (h ++ [.ofEntries entries]) (.ref h.length) := by
  refine ⟨h.length, defineAll entries, nodup_defineAll entries, rfl, Heap.object_length h _, ?_⟩
  rwa [defineAll_eq hnodup]

section

variable (h : Heap ν) (event : AuditEvent ν) (id : Text) (nowSeconds : Nat)

theorem nodup_auditMessage : ((auditMessage h event id nowSeconds).1.map Prod.fst).Nodup := by
  unfold auditMessage
  dsimp only
  exact nodup_defineAll (event.properties ++ event.recorded (sanitizeAuditMetadata h event.metadata).1 id nowSeconds)

/-- The message itself, as an object of its heap. -/
theorem recorded_auditMessage : Recorded ((auditMessage h event id nowSeconds).2 ++ [.ofEntries (auditMessage h event id nowSeconds).1])
    (.ref (auditMessage h event id nowSeconds).2.length) :=
  .fresh _ (nodup_auditMessage h event id nowSeconds) ⟨h, event, id, nowSeconds, fun _ _ => rfl⟩

/-- The last definition of a property counts. -/
theorem property_auditMessage (key : Text) : property (auditMessage h event id nowSeconds).1 key =
    property (event.properties ++ event.recorded (sanitizeAuditMetadata h event.metadata).1 id nowSeconds).reverse key := by
  rw [auditMessage]
  unfold property
  rw [lookup_defineAll]

/-- The texts that may be missing. -/
def AuditEvent.texts : List (String × Nullish Text) :=
  [("actorUserId", event.actorUserId), ("actorClientId", event.actorClientId), ("userId", event.userId),
    ("clientId", event.clientId), ("resourceUri", event.resourceUri), ("requestId", event.requestId), ("ipHash", event.ipHash),
    ("userAgentHash", event.userAgentHash), ("scope", event.scope)]

theorem auditMessage_texts : ∀ t ∈ event.texts,
    property (auditMessage h event id nowSeconds).1 (textOf t.1) = t.2.toJs .string := by
  simp only [property_auditMessage]
  simp [property, AuditEvent.texts, AuditEvent.properties, AuditEvent.recorded, List.lookup_cons, beq_textOf]

theorem auditMessage_id : property (auditMessage h event id nowSeconds).1 (textOf "id") = .string id := by
  rw [property_auditMessage]
  simp [property, AuditEvent.recorded, List.lookup_cons, beq_textOf]

theorem auditMessage_type : property (auditMessage h event id nowSeconds).1 (textOf "type") = .string event.type := by
  rw [property_auditMessage]
  simp [property, AuditEvent.properties, AuditEvent.recorded, List.lookup_cons, beq_textOf]

theorem auditMessage_success : property (auditMessage h event id nowSeconds).1 (textOf "success") = event.success.toJs .bool := by
  rw [property_auditMessage]
  simp [property, AuditEvent.properties, AuditEvent.recorded, List.lookup_cons, beq_textOf]

theorem auditMessage_detail : property (auditMessage h event id nowSeconds).1 (textOf "detail") =
    (sanitizeAuditDetail event.detail).toJs .string := by
  rw [property_auditMessage]
  simp [property, AuditEvent.recorded, List.lookup_cons, beq_textOf]

theorem auditMessage_createdAt : property (auditMessage h event id nowSeconds).1 (textOf "createdAt") =
    .number (JsNumber.ofNat nowSeconds) := by
  rw [property_auditMessage]
  simp [property, AuditEvent.recorded]

end

omit [JsNumber ν] in
theorem property_normalized {message : List (Text × JsValue ν)} (hnodup : (message.map Prod.fst).Nodup)
    (detail metadata : List (Text × JsValue ν)) (key : Text) :
    property (defineAll (message ++ detail ++ metadata)) key = property (metadata.reverse ++ (detail.reverse ++ message)) key := by
  unfold property
  rw [lookup_defineAll, List.reverse_append, List.reverse_append, List.lookup_append, List.lookup_append, lookup_reverse hnodup,
    List.lookup_append, List.lookup_append]

/-- What is done to the message leaves its other properties. -/
theorem normalized_other {message : List (Text × JsValue ν)} (hnodup : (message.map Prod.fst).Nodup) (h : Heap ν) (key : String)
    (hdetail : key ≠ "detail") (hmetadata : key ≠ "metadata") (d m : JsValue ν) :
    property (defineAll (message ++ normalizedDetail d ++ (normalizedMetadata h m).1)) (textOf key) = property message (textOf key) := by
  rw [property_normalized hnodup]
  cases d <;> cases m <;>
    simp [normalizedDetail, normalizedMetadata, property, List.lookup_cons, beq_textOf, hdetail, hmetadata]

theorem normalized_detail {message : List (Text × JsValue ν)} (hnodup : (message.map Prod.fst).Nodup) (h : Heap ν)
    {detail : Nullish Text} (hdetail : property message (textOf "detail") = detail.toJs .string) (m : JsValue ν) :
    property (defineAll (message ++ normalizedDetail (property message (textOf "detail")) ++ (normalizedMetadata h m).1))
      (textOf "detail") = (sanitizeAuditDetail detail).toJs .string := by
  rw [property_normalized hnodup, hdetail]
  unfold property at hdetail ⊢
  cases detail <;> cases m <;>
    simp [normalizedDetail, normalizedMetadata, List.lookup_cons, beq_textOf, Nullish.toJs, sanitizeAuditDetail, Nullish.map] at hdetail ⊢ <;>
    exact hdetail

theorem normalized_metadata {message : List (Text × JsValue ν)} (hnodup : (message.map Prod.fst).Nodup) (h : Heap ν) (d : JsValue ν) :
    property (defineAll (message ++ normalizedDetail d ++ (normalizedMetadata h (property message (textOf "metadata"))).1))
      (textOf "metadata") = (sanitizeAuditMetadata h (property message (textOf "metadata"))).1 := by
  rw [property_normalized hnodup]
  generalize hm : property message (textOf "metadata") = m
  unfold property at hm ⊢
  cases d <;> cases m <;>
    simp [normalizedDetail, normalizedMetadata, List.lookup_cons, beq_textOf] at hm ⊢ <;>
    exact hm

variable {zod : JsSchemaLibrary ν}

/-- Sanitised metadata is parsed, also where the heap has grown. -/
theorem sanitized_parses (laws : zod.Laws) (h : Heap ν) (metadata : JsValue ν) (new : Heap ν) :
    (zod.safeParse (zod.nullish (zod.refine zod.record fun h entries =>
        isBoundedAuditMetadata (h ++ [.ofEntries entries]) (.ref h.length)))
      ((sanitizeAuditMetadata h metadata).2 ++ new) (sanitizeAuditMetadata h metadata).1).isSome = true := by
  rw [laws.nullish]
  obtain hnull | hundefined | hbounded := sanitizeAuditMetadata_bounded h metadata
  · rw [hnull]
    rfl
  · rw [hundefined]
    rfl
  · obtain ⟨entries, hu, hentries⟩ := isBoundedAuditMetadata_iff.1 hbounded
    have hgrown : Unfolds ((sanitizeAuditMetadata h metadata).2 ++ new) AUDIT_METADATA_MAX_DEPTH (.record entries)
        (sanitizeAuditMetadata h metadata).1 := hu.append
    obtain ⟨o, own, nodup, below, hvalue, hobject, hlevels, hown⟩ := hgrown.object
    have hkeys : entries.map Prod.fst = own.map Prod.fst := map_fst_of_forall₂ (hown.imp fun _ _ he => he.1)
    have hproto : textOf "__proto__" ∉ own.map Prod.fst := by
      rw [← hkeys]
      intro hmem
      obtain ⟨e, he, hkey⟩ := List.mem_map.1 hmem
      have husable := (hentries.fits.2.2 e he).1
      rw [hkey] at husable
      exact absurd husable (by decide +kernel)
    have hcheck := isBoundedAuditMetadata_iff.2 ⟨entries, hlevels ▸ unfolds_ofEntries hown nodup, hentries⟩
    rw [hvalue]
    dsimp only
    rw [laws.refine, laws.record _ _ _ _ hobject hproto, Option.filter_some, if_pos hcheck]
    rfl

/-- The text of parsed metadata. -/
theorem stringify_parsed (laws : zod.Laws) {h : Heap ν} {value : JsValue ν} {entries : List (Text × JsValue ν)}
    (hparsed : zod.safeParse (zod.nullish (zod.refine zod.record fun h entries =>
      isBoundedAuditMetadata (h ++ [.ofEntries entries]) (.ref h.length))) h value = some (.value entries)) :
    ∃ text, stringify (h ++ [.ofEntries entries]) (.ref h.length) = some text := by
  have hchecked : isBoundedAuditMetadata (h ++ [.ofEntries entries]) (.ref h.length) = true := by
    rw [laws.nullish] at hparsed
    cases value with
    | undefined | null => cases hparsed
    | _ =>
      rw [laws.refine] at hparsed
      obtain ⟨found, hfound, heq⟩ := Option.map_eq_some_iff.1 hparsed
      cases heq
      exact (Option.filter_eq_some_iff.1 hfound).2
  obtain ⟨tree, hu, -⟩ := isBoundedAuditMetadata_iff.1 hchecked
  exact ⟨_, stringify_of_unfolds hu⟩

theorem nullish_string_isSome (laws : zod.Laws) (h : Heap ν) (value : Nullish Text) :
    (zod.safeParse (zod.nullish zod.string) h (value.toJs .string)).isSome = true := by
  rw [laws.nullish]
  cases value with
  | undefined | null => rfl
  | value s =>
    dsimp only [Nullish.toJs]
    rw [laws.string]
    rfl

theorem nullish_boolean_isSome (laws : zod.Laws) (h : Heap ν) (value : Nullish Bool) :
    (zod.safeParse (zod.nullish zod.boolean) h (value.toJs .bool)).isSome = true := by
  rw [laws.nullish]
  cases value with
  | undefined | null => rfl
  | value b =>
    dsimp only [Nullish.toJs]
    rw [laws.boolean]
    rfl

/-- A sanitised detail is parsed. -/
theorem sanitized_detail_isSome (laws : zod.Laws) (h : Heap ν) (detail : Nullish Text) :
    (zod.safeParse (zod.nullish (zod.refine zod.string fun _ => isBoundedAuditDetail)) h
      ((sanitizeAuditDetail detail).toJs .string)).isSome = true := by
  have hbounded := sanitizeAuditDetail_bounded detail
  rw [laws.nullish]
  cases detail with
  | undefined | null => rfl
  | value s =>
    dsimp only [sanitizeAuditDetail, Nullish.map, Nullish.toJs] at hbounded ⊢
    rw [laws.refine, laws.string, Option.filter_some, if_pos hbounded.1]
    rfl

/-- The schema parses a message whose fields are those of a recorded one, with a detail and metadata sanitised. -/
theorem auditMessageSchema_isSome (laws : zod.Laws) {h : Heap ν} {o : Nat} {entries : List (Text × JsValue ν)}
    {nodup : (entries.map Prod.fst).Nodup} (hobject : h.object o = .record entries nodup) {h₀ : Heap ν} {event : AuditEvent ν}
    {id : Text} {nowSeconds : Nat}
    (hother : ∀ key : String, key ≠ "detail" → key ≠ "metadata" →
      property entries (textOf key) = property (auditMessage h₀ event id nowSeconds).1 (textOf key))
    {detail : Nullish Text} (hdetail : property entries (textOf "detail") = (sanitizeAuditDetail detail).toJs .string)
    (hmetadata : (zod.safeParse (zod.nullish (zod.refine zod.record fun h entries =>
      isBoundedAuditMetadata (h ++ [.ofEntries entries]) (.ref h.length))) h (property entries (textOf "metadata"))).isSome = true) :
    (zod.safeParse (auditMessageSchema zod) h (.ref o)).isSome = true := by
  -- the optional texts
  have htexts : ∀ t ∈ event.texts, (zod.safeParse (zod.nullish zod.string) h (property entries (textOf t.1))).isSome = true := by
    intro t ht
    have hkey : t.1 ≠ "detail" ∧ t.1 ≠ "metadata" := by
      revert t
      simp [AuditEvent.texts]
    rw [hother t.1 hkey.1 hkey.2, auditMessage_texts h₀ event id nowSeconds t ht]
    exact nullish_string_isSome laws h t.2
  simp only [AuditEvent.texts, List.forall_mem_cons] at htexts
  obtain ⟨hactorUserId, hactorClientId, huserId, hclientId, hresourceUri, hrequestId, hipHash, huserAgentHash, hscope, -⟩ := htexts
  rw [auditMessageSchema, laws.object _ _ _ _ _ hobject, Fields.parse_isSome]
  -- and the fields with a type of their own
  refine ⟨?_, ?_, hactorUserId, hactorClientId, huserId, hclientId, hresourceUri, hrequestId, hipHash, huserAgentHash, hscope,
    ?_, ?_, hmetadata, ?_, trivial⟩
  · have hid : property entries (textOf "id") = .string id := by rw [hother _ (by decide) (by decide), auditMessage_id]
    show (zod.safeParse zod.string h _).isSome = true
    rw [hid, laws.string]
    rfl
  · have htype : property entries (textOf "type") = .string event.type := by rw [hother _ (by decide) (by decide), auditMessage_type]
    show (zod.safeParse (zod.enumeration AUDIT_EVENTS) h _).isSome = true
    rw [htype, laws.enumeration]
    dsimp only
    rw [if_pos event.type.property]
    rfl
  · rw [hother "success" (by decide) (by decide), auditMessage_success]
    exact nullish_boolean_isSome laws h event.success
  · rw [hdetail]
    exact sanitized_detail_isSome laws h detail
  · have hcreatedAt : property entries (textOf "createdAt") = .number (JsNumber.ofNat nowSeconds) := by
      rw [hother _ (by decide) (by decide), auditMessage_createdAt]
    show (zod.safeParse zod.number h _).isSome = true
    rw [hcreatedAt, laws.number]
    dsimp only
    rw [if_pos (JsNumber.isFinite_ofNat nowSeconds)]
    rfl

/-- The metadata of a parsed message is its own field. -/
theorem auditMessageSchema_metadata (laws : zod.Laws) {h : Heap ν} {o : Nat} {entries : List (Text × JsValue ν)}
    {nodup : (entries.map Prod.fst).Nodup} (hobject : h.object o = .record entries nodup) {message : AuditMessage ν}
    (hmessage : zod.safeParse (auditMessageSchema zod) h (.ref o) = some message) :
    zod.safeParse (zod.nullish (zod.refine zod.record fun h entries =>
      isBoundedAuditMetadata (h ++ [.ofEntries entries]) (.ref h.length))) h (property entries (textOf "metadata")) =
        some message.metadata := by
  rw [auditMessageSchema, laws.object _ _ _ _ _ hobject] at hmessage
  have hrest := Fields.parse_field.1 hmessage
  iterate 13
    obtain ⟨_, -, _, hparsed, rfl⟩ := hrest
    replace hrest := Fields.parse_field.1 hparsed
    clear hparsed
  obtain ⟨metadata, hmetadata, _, hparsed, rfl⟩ := hrest
  obtain ⟨_, -, _, hdone, rfl⟩ := Fields.parse_field.1 hparsed
  cases hdone
  exact hmetadata

/-- A parsed message is bound. -/
theorem parsed_bound (laws : zod.Laws) {h : Heap ν} {o : Nat} {entries : List (Text × JsValue ν)}
    {nodup : (entries.map Prod.fst).Nodup} (hobject : h.object o = .record entries nodup) {message : AuditMessage ν}
    (hmessage : zod.safeParse (auditMessageSchema zod) h (.ref o) = some message) :
    ∃ bound, boundValues h message = some bound := by
  have hfield := auditMessageSchema_metadata laws hobject hmessage
  unfold boundValues
  cases hvalue : message.metadata with
  | undefined | null => exact ⟨_, rfl⟩
  | value found =>
    obtain ⟨text, htext⟩ := stringify_parsed laws (hvalue ▸ hfield)
    dsimp only
    rw [htext]
    exact ⟨_, rfl⟩

/-- What becomes of an object: a fresh one, with its detail and metadata sanitised. -/
theorem normalizeAuditMessage_object {h : Heap ν} {o : Nat} {message : List (Text × JsValue ν)}
    {nodup : (message.map Prod.fst).Nodup} (hobject : h.object o = .record message nodup) {detail : Nullish Text}
    (hdetail : property message (textOf "detail") = detail.toJs .string) :
    ∃ o' entries nodup' new, normalizeAuditMessage h (.ref o) =
        some (.ref o', (sanitizeAuditMetadata h (property message (textOf "metadata"))).2 ++ new) ∧
      Heap.object ((sanitizeAuditMetadata h (property message (textOf "metadata"))).2 ++ new) o' = .record entries nodup' ∧
      (∀ key : String, key ≠ "detail" → key ≠ "metadata" → property entries (textOf key) = property message (textOf key)) ∧
      property entries (textOf "detail") = (sanitizeAuditDetail detail).toJs .string ∧
      property entries (textOf "metadata") = (sanitizeAuditMetadata h (property message (textOf "metadata"))).1 := by
  have hheap : (normalizedMetadata h (property message (textOf "metadata"))).2 =
      (sanitizeAuditMetadata h (property message (textOf "metadata"))).2 := by
    cases property message (textOf "metadata") <;> rfl
  rw [← hheap, normalizeAuditMessage]
  dsimp only
  rw [hobject]
  exact ⟨_, _, nodup_defineAll _, _, rfl, Heap.object_length _ _, fun key hd hm => normalized_other nodup h key hd hm _ _,
    normalized_detail nodup h hdetail _, normalized_metadata nodup h _⟩

/-- A message that was recorded is parsed and bound. -/
theorem recorded_bound (laws : zod.Laws) {h : Heap ν} {raw : JsValue ν} (hraw : Recorded h raw) :
    ∃ value h' message bound, normalizeAuditMessage h raw = some (value, h') ∧
      zod.safeParse (auditMessageSchema zod) h' value = some message ∧ boundValues h' message = some bound := by
  obtain ⟨o, properties, nodup, rfl, hobject, h₀, event, id, nowSeconds, hsame⟩ := hraw
  have hother : ∀ key : String, key ≠ "metadata" → property properties (textOf key) =
      property (auditMessage h₀ event id nowSeconds).1 (textOf key) := fun key hkey => hsame _ fun heq => hkey (textOf_inj.1 heq)
  obtain ⟨o', entries, nodup', new, hnormalize, hfresh, hkept, hdetail, hmetadata⟩ := normalizeAuditMessage_object hobject
    ((hother "detail" (by decide)).trans (auditMessage_detail h₀ event id nowSeconds))
  have hparses := auditMessageSchema_isSome laws hfresh (fun key hd hm => (hkept key hd hm).trans (hother key hm)) hdetail
    (hmetadata ▸ sanitized_parses laws h _ new)
  obtain ⟨message, hmessage⟩ := Option.isSome_iff_exists.1 hparses
  obtain ⟨bound, hbound⟩ := parsed_bound laws hfresh hmessage
  exact ⟨_, _, message, bound, hnormalize, hmessage, hbound⟩

/-- A batch of messages that were recorded is inserted. -/
theorem insertAuditBatch_recorded (laws : zod.Laws) {h : Heap ν} {rawMessages : List (JsValue ν)}
    (hraw : ∀ raw ∈ rawMessages, Recorded h raw) : ∃ statements, insertAuditBatch zod h rawMessages = some statements := by
  induction rawMessages with
  | nil => exact ⟨[], rfl⟩
  | cons raw rawMessages ih =>
    obtain ⟨hfirst, hrest⟩ := List.forall_mem_cons.1 hraw
    obtain ⟨value, h', message, bound, hnormalize, hmessage, hbound⟩ := recorded_bound laws hfirst
    obtain ⟨statements, hstatements⟩ := ih hrest
    refine ⟨bound :: statements, ?_⟩
    unfold insertAuditBatch at hstatements ⊢
    rw [List.mapM_cons, hnormalize, hstatements]
    simp [hmessage, hbound]

/-- Sanitised metadata is `null`, `undefined` or accepted; what is accepted comes back equal, so sanitising again
changes nothing, and an object without the marker is equal to what was given. A detail becomes a prefix within its
limit. No batch is rejected for a message that was recorded. -/
theorem audit_sanitizing (laws : zod.Laws) (h : Heap ν) :
    (∀ metadata, ((sanitizeAuditMetadata h metadata).1 = .null ∨ (sanitizeAuditMetadata h metadata).1 = .undefined ∨
        isBoundedAuditMetadata (sanitizeAuditMetadata h metadata).2 (sanitizeAuditMetadata h metadata).1 = true) ∧
      (isBoundedAuditMetadata h metadata = true →
        SameValue h metadata (sanitizeAuditMetadata h metadata).2 (sanitizeAuditMetadata h metadata).1) ∧
      SameValue (sanitizeAuditMetadata h metadata).2 (sanitizeAuditMetadata h metadata).1
        (sanitizeAuditMetadata (sanitizeAuditMetadata h metadata).2 (sanitizeAuditMetadata h metadata).1).2
        (sanitizeAuditMetadata (sanitizeAuditMetadata h metadata).2 (sanitizeAuditMetadata h metadata).1).1) ∧
    (∀ o, ¬HasKey (sanitizeAuditMetadata h (.ref o)).2 (sanitizeAuditMetadata h (.ref o)).1 TRUNCATED →
      SameValue h (.ref o) (sanitizeAuditMetadata h (.ref o)).2 (sanitizeAuditMetadata h (.ref o)).1) ∧
    (∀ detail, match detail, sanitizeAuditDetail detail with
      | .value s, .value sanitized => isBoundedAuditDetail sanitized = true ∧ sanitized <+: s
      | .null, .null | .undefined, .undefined => True
      | _, _ => False) ∧
    ∀ rawMessages, (∀ raw ∈ rawMessages, Recorded h raw) → ∃ statements, insertAuditBatch zod h rawMessages = some statements := by
  refine ⟨fun metadata => ⟨?_, ?_, ?_⟩, fun o => ?_, ?_, fun rawMessages hraw => ?_⟩
  · exact sanitizeAuditMetadata_bounded h metadata
  · exact sanitizeAuditMetadata_same
  · exact sanitizeAuditMetadata_idempotent h metadata
  · exact sanitizeAuditMetadata_honest
  · exact sanitizeAuditDetail_bounded
  · exact insertAuditBatch_recorded laws hraw

end

/-! ### A cyclic object -/

/-- Whole numbers, all finite. -/
instance wholeNumbers : JsNumber Int where
  isFinite := fun _ => true
  text := fun n => textOf (toString n)
  ofNat := Int.ofNat
  isFinite_ofNat := fun _ => rfl

/-- An object that is its own property, beside a number. -/
def cyclicHeap : Heap Int :=
  [.record [(textOf "self", .ref 0), (textOf "attempts", .number 3)] (by decide +kernel)]

/-- A failed login with the object as its metadata. -/
def cyclicEvent : AuditEvent Int where
  type := ⟨textOf "user.login.password.failure", by decide +kernel⟩
  actorUserId := .undefined
  actorClientId := .undefined
  userId := .value (textOf "usr_1")
  clientId := .undefined
  resourceUri := .undefined
  requestId := .null
  ipHash := .undefined
  userAgentHash := .undefined
  scope := .undefined
  success := .value false
  detail := .value (textOf "bad password")
  metadata := .ref 0

theorem audit_sanitizing_cyclic : ∃ statements, insertAuditBatch (parsingFunctions Int)
    ((auditMessage cyclicHeap cyclicEvent (textOf "log_1") 1700000000).2 ++
      [.ofEntries (auditMessage cyclicHeap cyclicEvent (textOf "log_1") 1700000000).1])
    [.ref (auditMessage cyclicHeap cyclicEvent (textOf "log_1") 1700000000).2.length] = some statements :=
  (audit_sanitizing (parsingFunctions_laws Int) _).2.2.2 _ (List.forall_mem_singleton.2 (recorded_auditMessage _ _ _ _))

end Keyforge.Security
