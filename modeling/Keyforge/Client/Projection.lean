/-
The stored projection of a metadata client. A resolution takes its document from the row, while it is
fresh, or fetches it, and writes it back several steps later, over whatever is stored by then; whether it
revokes depends on one more read in between. A resolution that overlaps with another can put an older
document back and can change the fingerprint without revoking. Where no later document was stored since a
resolution obtained its own, the stored documents go forward; where the fingerprint has not changed since it
was last read, every change of it revokes.
-/
import Keyforge.Deployment
import Keyforge.OAuth.AuthorizationClient
import Keyforge.Paths

namespace Keyforge.Client

open Lib Db OAuth

/-! ## Documents -/

/-- The columns of a client that come from its metadata document, with the history of the document. -/
structure ClientDocument where
  name : String
  redirectUris : List String
  allowedGrantTypes : List String
  tokenEndpointAuthMethods : List TokenEndpointAuthMethod
  metadataJwksUri : Option String
  metadataFingerprint : Option String
  metadataExpiresAt : Option Nat
  metadataFetchedAt : Option Nat
  deriving DecidableEq, Repr

def document (c : ClientRow) : ClientDocument :=
  ⟨c.name, c.redirectUris, c.allowedGrantTypes, c.tokenEndpointAuthMethods, c.metadataJwksUri, c.metadataFingerprint,
    c.metadataExpiresAt, c.metadataFetchedAt⟩

def inputDocument (input : UpsertMetadataClientInput) : ClientDocument :=
  ⟨input.name, input.redirectUris, input.allowedGrantTypes, input.tokenEndpointAuthMethods, input.metadataJwksUri,
    some input.metadataFingerprint, some input.metadataExpiresAt, input.metadataFetchedAt⟩

@[simp] theorem document_metadataClientRow (input : UpsertMetadataClientInput) :
    document (metadataClientRow input) = inputDocument input := rfl

@[simp] theorem document_metadataClientColumns (input : UpsertMetadataClientInput) (current c : ClientRow) :
    document (metadataClientColumns input current c) = inputDocument input := rfl

/-- The client's row. -/
def rowOf (clientId : String) (w : World) : Option ClientRow :=
  w.db.clients.get? clientId

/-- The document stored for the client. -/
def storedDocument (clientId : String) (w : World) : Option ClientDocument :=
  (rowOf clientId w).map document

/-- The stored document was fetched at this time. -/
def FetchedAt (clientId : String) (fetchedAt : Nat) (w : World) : Prop :=
  ∃ d ∈ storedDocument clientId w, d.metadataFetchedAt = some fetchedAt

/-- No family or grant of the client is left unrevoked. -/
def AllRevoked (clientId : String) (db : Database) : Prop :=
  (∀ r ∈ db.refreshTokens, r.clientId = clientId → r.revokedAt.isSome) ∧
    ∀ g ∈ db.grants, g.clientId = clientId → g.revokedAt.isSome

/-! ## The calls -/

/-- Resolutions of the client, each with what its fetch would give, and the rest of the server, which leaves
the clients alone. -/
inductive ResolutionCall where
  | resolve (fetched : Option ClientIdMetadata) (resourceUri : Option String)
  | other (stmt : Database → Database)

def ResolutionCall.code (env : Env) (clientId : String) : ResolutionCall → App (Option ClientRow)
  | .resolve fetched resourceUri => resolveAuthorizationClient env fetched clientId resourceUri
  | .other stmt => d1 fun db => (none, { stmt db with clients := db.clients })

/-- Calls arrive at any time, and any storage call may fail. -/
def resolutionSystem (env : Env) (clientId : String) : System ResolutionCall Input World (Except Failure (Option ClientRow)) where
  code := fun c => (c.code env clientId).run
  allow := fun _ _ _ => True
  arrive := fun _ _ => True

/-! ## What a resolution does -/

/-- At this step the document could be had: it was in the row, or it was fetched. -/
def Obtains (clientId : String) (d : ClientDocument) (t : World × World) : Prop :=
  storedDocument clientId t.1 = some d ∨ d.metadataFetchedAt = some t.2.nowMs

/-- A step inserts the client. -/
def Inserts (clientId : String) (input : UpsertMetadataClientInput) (t : World × World) : Prop :=
  rowOf clientId t.1 = none ∧ rowOf clientId t.2 = some (metadataClientRow input)

/-- A step leaves the client's row alone. -/
def Leaves (clientId : String) (t : World × World) : Prop :=
  rowOf clientId t.2 = rowOf clientId t.1

/-- What a resolution's steps do to the row: nothing, or they insert it, or close with the batch, whose
decision to revoke rests on the step before. The document was obtained before, and no other was inserted. -/
inductive RowChange (clientId : String) (past : Steps) (t : World × World) : Prop
  | leave (h : Leaves clientId t)
  | insert (input : UpsertMetadataClientInput) (hobtained : ∃ s ∈ past, Obtains clientId (inputDocument input) s)
      (h : Inserts clientId input t)
  | close (input : UpsertMetadataClientInput) (now : Nat) (current : ClientRow) (before : Steps) (read : World × World)
      (hid : input.clientId = clientId) (hobtained : ∃ s ∈ past, Obtains clientId (inputDocument input) s)
      (hown : ∀ s ∈ past, Leaves clientId s ∨ Inserts clientId input s) (hpast : past = before ++ [read])
      (hread : read.2.db = read.1.db) (hcurrent : rowOf clientId read.1 = some current)
      (h : t.2.db = metadataClientBatch now input current t.1.db)

/-- A step of a resolution: the clock goes forward, and the row changes in one of these ways. -/
structure ResolutionStep (clientId : String) (past : Steps) (t : World × World) : Prop where
  now : t.1.nowMs ≤ t.2.nowMs
  change : RowChange clientId past t

section

variable {clientId : String} {past : Steps} {env : Env}

theorem resolutionStep_tick (w : World) (dt : Nat) : ResolutionStep clientId past (w, w.tick dt) :=
  ⟨Nat.le_add_right _ _, .leave rfl⟩

theorem forall_mem_snoc {p : World × World → Prop} {t : World × World} (h : ∀ s ∈ past, p s) (ht : p t) :
    ∀ s ∈ past ++ [t], p s := by
  intro s hs
  rcases List.mem_append.1 hs with hs | hs
  · exact h s hs
  · rw [List.mem_singleton.1 hs]
    exact ht

theorem exists_mem_snoc {p : World × World → Prop} {t : World × World} (h : ∃ s ∈ past, p s) : ∃ s ∈ past ++ [t], p s := by
  obtain ⟨s, hs, hp⟩ := h
  exact ⟨s, List.mem_append_left _ hs, hp⟩

theorem leaves_tick (w : World) (dt : Nat) : Leaves clientId (w, w.tick dt) := rfl

theorem persistMetadataClient_along (input : UpsertMetadataClientInput) (hid : input.clientId = clientId)
    (hobtained : ∃ s ∈ past, Obtains clientId (inputDocument input) s) (hown : ∀ s ∈ past, Leaves clientId s) :
    alongE (ResolutionStep clientId) (persistMetadataClient input) (fun _ _ => True) (fun _ _ => True) past := by
  unfold persistMetadataClient
  rw [alongE_bind]
  refine alongE_clock resolutionStep_tick fun w₁ dt₁ => ?_
  rw [alongE_bind]
  have hobtained := exists_mem_snoc (t := (w₁, w₁.tick dt₁)) hobtained
  have hown := forall_mem_snoc hown (leaves_tick w₁ dt₁)
  generalize past ++ [(w₁, w₁.tick dt₁)] = past at hobtained hown
  -- the insert does nothing if the row is there
  have hinsert : ∀ w w' : World, w'.db = { w.db with clients := w.db.clients.insert (metadataClientRow input) } →
      Leaves clientId (w, w') ∨ Inserts clientId input (w, w') := by
    intro w w' hdb
    subst hid
    cases hrow : w.db.clients.get? input.clientId with
    | none =>
      refine Or.inr ⟨hrow, ?_⟩
      rw [rowOf, hdb]
      exact (Table.get?_insert hrow).trans (if_pos rfl)
    | some c => exact Or.inl (by rw [Leaves, rowOf, rowOf, hdb, Table.get?_insert_mono hrow, hrow])
  refine alongE_d1Logged (fun w w' dt hw' => ?_) resolutionStep_tick (fun w₂ w₂' hdb => ?_) fun _ => trivial
  · have hdb : w'.db = { w.db with clients := w.db.clients.insert (metadataClientRow input) } := by rw [hw']
    refine ⟨by rw [hw']; exact Nat.le_add_right _ _, ?_⟩
    rcases hinsert w w' hdb with h | h
    · exact .leave h
    · exact .insert input hobtained h
  · have hobtained := exists_mem_snoc (t := (w₂, w₂')) hobtained
    have hown : ∀ s ∈ past ++ [(w₂, w₂')], Leaves clientId s ∨ Inserts clientId input s :=
      forall_mem_snoc (fun s hs => Or.inl (hown s hs)) (hinsert w₂ w₂' hdb)
    generalize past ++ [(w₂, w₂')] = past at hobtained hown
    rw [alongE_bind]
    refine alongE_select resolutionStep_tick (fun w₃ dt₃ => ?_) fun _ => trivial
    cases hcurrent : (w₃.db.clients.get? input.clientId).filter fun c => c.registrationType = .clientIdMetadata with
    | none => trivial
    | some current =>
      dsimp only
      rw [alongE_bind]
      refine alongE_d1Logged (fun w w' dt hw' => ?_) resolutionStep_tick (fun w₄ w₄' _ => ?_) fun _ => trivial
      · refine ⟨by rw [hw']; exact Nat.le_add_right _ _, ?_⟩
        refine .close input _ current past (w₃, w₃.tick dt₃) hid (exists_mem_snoc hobtained)
          (forall_mem_snoc hown (Or.inl (leaves_tick w₃ dt₃))) rfl rfl ?_ (by rw [hw'])
        rw [← hid]
        exact (Option.filter_eq_some_iff.1 hcurrent).1
      · rw [alongE_bind]
        refine alongE_select resolutionStep_tick (fun w₅ dt₅ => ?_) fun _ => trivial
        split <;> trivial

theorem upsertMetadataClient_along (input : UpsertMetadataClientInput) (hid : input.clientId = clientId)
    (hobtained : ∃ s ∈ past, Obtains clientId (inputDocument input) s) (hown : ∀ s ∈ past, Leaves clientId s) :
    alongE (ResolutionStep clientId) (upsertMetadataClient input) (fun _ _ => True) (fun _ _ => True) past := by
  unfold upsertMetadataClient
  rw [alongE_bind]
  refine alongE_select resolutionStep_tick (fun w₁ dt₁ => ?_) fun _ => trivial
  have hobtained := exists_mem_snoc (t := (w₁, w₁.tick dt₁)) hobtained
  have hown := forall_mem_snoc hown (leaves_tick w₁ dt₁)
  generalize past ++ [(w₁, w₁.tick dt₁)] = past at hobtained hown
  rw [alongE_bind, alongE_require]
  refine ⟨fun _ => ?_, fun _ => trivial⟩
  split
  · rw [alongE_bind]
    refine alongE_select resolutionStep_tick (fun w₂ dt₂ => ?_) fun _ => trivial
    have hobtained := exists_mem_snoc (t := (w₂, w₂.tick dt₂)) hobtained
    have hown := forall_mem_snoc hown (leaves_tick w₂ dt₂)
    generalize past ++ [(w₂, w₂.tick dt₂)] = past at hobtained hown
    rw [alongE_bind, alongE_require]
    exact ⟨fun _ => persistMetadataClient_along input hid hobtained hown, fun _ => trivial⟩
  · exact persistMetadataClient_along input hid hobtained hown

/-- Fresh stored metadata is the row's document. -/
theorem storedMetadata_eq_some {now : Nat} {current : Option ClientRow} {metadata : ClientIdMetadata}
    (h : storedMetadata now current = some metadata) : ∃ c, current = some c ∧ document c =
      ⟨metadata.clientName, metadata.redirectUris, metadata.allowedGrantTypes, metadata.tokenEndpointAuthMethods,
        metadata.jwksUri, some metadata.fingerprint, some metadata.expiresAt, metadata.fetchedAt⟩ := by
  cases current with
  | none => cases h
  | some c =>
    refine ⟨c, rfl, ?_⟩
    obtain ⟨fingerprint, hf, h⟩ := Option.bind_eq_some_iff.1 h
    split at h
    · rename_i hfresh
      cases h
      cases he : c.metadataExpiresAt with
      | none =>
        rw [he] at hfresh
        exact absurd hfresh (Nat.not_lt_zero _)
      | some expiresAt => simp [document, hf, he]
    · cases h

theorem onboardMetadataClient_along {fetched : Option ClientIdMetadata} {resourceUri : String} {allowedScopes : List String}
    {current : Option ClientRow} (hread : ∃ s ∈ past, rowOf clientId s.1 = current)
    (hown : ∀ s ∈ past, Leaves clientId s) :
    alongE (ResolutionStep clientId) (onboardMetadataClient env fetched clientId resourceUri allowedScopes current)
      (fun _ _ => True) (fun _ _ => True) past := by
  unfold onboardMetadataClient
  rw [alongE_bind]
  refine alongE_clock resolutionStep_tick fun w₁ dt₁ => ?_
  have hread := exists_mem_snoc (t := (w₁, w₁.tick dt₁)) hread
  have hown := forall_mem_snoc hown (leaves_tick w₁ dt₁)
  generalize past ++ [(w₁, w₁.tick dt₁)] = past at hread hown
  cases hstored : storedMetadata (w₁.tick dt₁).nowSeconds current with
  | some metadata =>
    obtain ⟨c, rfl, hdocument⟩ := storedMetadata_eq_some hstored
    obtain ⟨s, hs, hrow⟩ := hread
    refine upsertMetadataClient_along _ rfl ⟨s, hs, Or.inl ?_⟩ hown
    rw [storedDocument, hrow, Option.map_some, hdocument]
    rfl
  | none =>
    dsimp only
    rw [alongE_bind, fetchClientIdMetadata, alongE_bind, alongE_require]
    refine ⟨fun _ => ?_, fun _ => trivial⟩
    rw [alongE_bind]
    refine alongE_query resolutionStep_tick (fun w₂ dt₂ => ?_) fun _ => trivial
    cases fetched with
    | none => trivial
    | some metadata =>
      refine upsertMetadataClient_along _ rfl ⟨(w₂, w₂.tick dt₂), by simp, Or.inr rfl⟩ ?_
      exact forall_mem_snoc hown (leaves_tick w₂ dt₂)

theorem resolve_along (fetched : Option ClientIdMetadata) (resourceUri : Option String) :
    alongE (ResolutionStep clientId) (resolveAuthorizationClient env fetched clientId resourceUri) (fun _ _ => True)
      (fun _ _ => True) [] := by
  unfold resolveAuthorizationClient
  rw [alongE_bind]
  refine alongE_select resolutionStep_tick (fun w₁ dt₁ => ?_) fun _ => trivial
  split
  · trivial
  · trivial
  · rename_i resourceUri _
    split
    · trivial
    · rw [alongE_bind]
      refine alongE_select resolutionStep_tick (fun w₂ dt₂ => ?_) fun _ => trivial
      have hread : ∃ s ∈ ([] ++ [(w₁, w₁.tick dt₁)] ++ [(w₂, w₂.tick dt₂)] : Steps),
          rowOf clientId s.1 = w₁.db.clients.get? clientId := ⟨(w₁, w₁.tick dt₁), by simp, rfl⟩
      have hown : ∀ s ∈ ([] ++ [(w₁, w₁.tick dt₁)] ++ [(w₂, w₂.tick dt₂)] : Steps), Leaves clientId s :=
        forall_mem_snoc (forall_mem_snoc (fun _ hs => absurd hs List.not_mem_nil) (leaves_tick w₁ dt₁)) (leaves_tick w₂ dt₂)
      generalize ([] ++ [(w₁, w₁.tick dt₁)] ++ [(w₂, w₂.tick dt₂)] : Steps) = past at hread hown
      split
      · trivial
      · dsimp only
        rw [alongE_bind, alongE_tryCatch]
        refine alongE_imp (fun client past _ => ?_) (fun error past _ => ?_) _ (onboardMetadataClient_along hread hown)
        · split
          · rw [alongE_bind]
            refine alongE_select resolutionStep_tick (fun w₃ dt₃ => ?_) fun _ => trivial
            trivial
          · trivial
        · split <;> trivial

theorem resolution_along (c : ResolutionCall) :
    along (ResolutionStep clientId) ((resolutionSystem env clientId).code c) (fun _ _ => True) [] := by
  have h : alongE (ResolutionStep clientId) (c.code env clientId) (fun _ _ => True) (fun _ _ => True) [] := by
    cases c with
    | resolve fetched resourceUri => exact resolve_along fetched resourceUri
    | other stmt =>
      rw [ResolutionCall.code, d1]
      refine alongE_d1Logged (fun w w' dt hw' => ?_) resolutionStep_tick (fun _ _ _ => trivial) fun _ => trivial
      exact ⟨by rw [hw']; exact Nat.le_add_right _ _, .leave (by rw [Leaves, rowOf, hw']; rfl)⟩
  exact along_imp (fun r past _ => trivial) _ _ h

end

/-! ## What the batch does -/

section

variable {clientId : String} {past : Steps} {t : World × World}

/-- The batch writes the document over the one that is there. -/
theorem document_batch {now : Nat} {input : UpsertMetadataClientInput} {current : ClientRow} {w w' : World}
    (h : w'.db = metadataClientBatch now input current w.db) : storedDocument clientId w' = storedDocument clientId w ∨
      storedDocument clientId w' = some (inputDocument input) := by
  have hclients : w'.db.clients = w.db.clients.update
      (fun c => c.clientId = input.clientId ∧ c.registrationType = .clientIdMetadata) (metadataClientColumns input current)
      (metadataClientColumns_clientId input current) := by
    rw [h, metadataClientBatch]
    dsimp only
    split <;> rfl
  rw [storedDocument, storedDocument, rowOf, rowOf, hclients, Table.get?_update]
  cases hrow : w.db.clients.get? clientId with
  | none => exact Or.inl rfl
  | some c =>
    rw [Option.map_some]
    split
    · exact Or.inr rfl
    · exact Or.inl rfl

/-- The document after a step: the one before, or one that was obtained. -/
theorem RowChange.document (h : RowChange clientId past t) : storedDocument clientId t.2 = storedDocument clientId t.1 ∨
    ∃ input, (∃ s ∈ past, Obtains clientId (inputDocument input) s) ∧
      storedDocument clientId t.2 = some (inputDocument input) := by
  cases h with
  | leave h => exact Or.inl (congrArg (Option.map Client.document) h)
  | insert input hobtained h => exact Or.inr ⟨input, hobtained, by rw [storedDocument, h.2]; rfl⟩
  | close input now current before read hid hobtained hown hpast hread hcurrent h =>
    exact (document_batch h).imp_right fun hinput => ⟨input, hobtained, hinput⟩

/-- A step that replaces the document is a closing batch. -/
theorem RowChange.replaces (h : RowChange clientId past t) {d d' : ClientDocument} (hd : storedDocument clientId t.1 = some d)
    (hd' : storedDocument clientId t.2 = some d') (hne : d ≠ d') : ∃ input now current before read,
      d' = inputDocument input ∧ input.clientId = clientId ∧ (∀ s ∈ past, Leaves clientId s ∨ Inserts clientId input s) ∧
      past = before ++ [read] ∧ read.2.db = read.1.db ∧ rowOf clientId read.1 = some current ∧
      t.2.db = metadataClientBatch now input current t.1.db := by
  have hsame : storedDocument clientId t.2 ≠ storedDocument clientId t.1 := by
    rw [hd, hd']
    exact fun he => hne (Option.some.inj he).symm
  cases h with
  | leave h => exact absurd (congrArg (Option.map Client.document) h) hsame
  | insert input hobtained h =>
    rw [storedDocument, h.1] at hd
    cases hd
  | close input now current before read hid hobtained hown hpast hread hcurrent h =>
    have hinput := (document_batch h).resolve_left hsame
    exact ⟨input, now, current, before, read, Option.some.inj (hd'.symm.trans hinput), hid, hown, hpast, hread, hcurrent, h⟩

/-- The batch revokes if the fingerprint differs from the one read before. -/
theorem allRevoked_batch {now : Nat} {input : UpsertMetadataClientInput} {current : ClientRow} {db : Database}
    (h : current.metadataFingerprint ≠ some input.metadataFingerprint) :
    AllRevoked input.clientId (metadataClientBatch now input current db) := by
  rw [metadataClientBatch, if_pos h]
  constructor
  · intro r hr hclient
    have hr : r ∈ db.refreshTokens.update (fun r => r.clientId = input.clientId ∧ r.revokedAt = none)
        (fun r => { r with revokedAt := some now }) fun _ => rfl := hr
    obtain ⟨r, -, rfl⟩ := (Table.mem_update fun _ => by rfl).1 hr
    split
    · rfl
    · rename_i hp
      rw [if_neg hp] at hclient
      exact Option.isSome_iff_ne_none.2 fun hnone => hp (decide_eq_true ⟨hclient, hnone⟩)
  · intro g hg hclient
    have hg : g ∈ db.grants.update (fun g => g.clientId = input.clientId ∧ g.revokedAt = none)
        (fun g => { g with revokedAt := some now }) fun _ => rfl := hg
    obtain ⟨g, -, rfl⟩ := (Table.mem_update fun _ => by rfl).1 hg
    split
    · rfl
    · rename_i hp
      rw [if_neg hp] at hclient
      exact Option.isSome_iff_ne_none.2 fun hnone => hp (decide_eq_true ⟨hclient, hnone⟩)

end

/-! ## Runs -/

/-- A step stores no document fetched later than this one. -/
def StoresNoLater (clientId : String) (d : ClientDocument) (u : Taken World) : Prop :=
  storedDocument clientId u.after = storedDocument clientId u.before ∨
    ∀ n, FetchedAt clientId n u.after → ∃ n', d.metadataFetchedAt = some n' ∧ n ≤ n'

/-- The stored fingerprint. -/
def storedFingerprint (clientId : String) (w : World) : Option (Option String) :=
  (rowOf clientId w).map (·.metadataFingerprint)

/-- Nothing intervenes where a step replaces the stored document by another. No other resolution has stored
a document fetched later since this one was obtained, and where the fingerprint read just before is the new
one, none has changed it since. -/
def Undisturbed (clientId : String) (steps : List (Taken World)) : Prop :=
  ∀ sofar t later, steps = sofar ++ t :: later → ∀ d d', storedDocument clientId t.before = some d →
    storedDocument clientId t.after = some d' → d ≠ d' →
    (∃ older s between, sofar = older ++ s :: between ∧ s.thread = t.thread ∧ Obtains clientId d' (s.before, s.after) ∧
      ∀ u ∈ between, u.thread ≠ t.thread → StoresNoLater clientId d' u) ∧
    ∀ older r others, sofar = older ++ r :: others → r.thread = t.thread → (∀ u ∈ others, u.thread ≠ t.thread) →
      storedFingerprint clientId r.after = some d'.metadataFingerprint →
      ∀ u ∈ others, storedFingerprint clientId u.after = storedFingerprint clientId u.before

/-- Documents were fetched in the past. -/
def FetchedInPast (clientId : String) (w : World) : Prop :=
  ∀ fetchedAt, FetchedAt clientId fetchedAt w → fetchedAt ≤ w.nowMs

section

variable {env : Env} {clientId : String} {w₀ : World} {steps sofar later : List (Taken World)} {t : Taken World}
  {P : Pool ResolutionCall Input World (Except Failure (Option ClientRow))}

theorem resolution_step (h : (resolutionSystem env clientId).Run ⟨w₀, []⟩ steps P) (hsteps : steps = sofar ++ t :: later) :
    ResolutionStep clientId (stepsOf t.thread sofar) (t.before, t.after) :=
  h.along resolution_along hsteps

/-- What an obtained document says of the time it was fetched. -/
theorem Obtains.fetchedAt {d : ClientDocument} {s : World × World} (h : Obtains clientId d s)
    (hpast : FetchedInPast clientId s.1) {fetchedAt : Nat} (hd : d.metadataFetchedAt = some fetchedAt) :
    fetchedAt ≤ s.1.nowMs ∨ fetchedAt = s.2.nowMs := by
  rcases h with h | h
  · exact Or.inl (hpast fetchedAt ⟨d, h, hd⟩)
  · exact Or.inr (Option.some.inj (hd.symm.trans h))

/-- The clock goes forward, and no document is from the future. -/
theorem fetched_in_past (h : (resolutionSystem env clientId).Run ⟨w₀, []⟩ steps P) (hfirst : FetchedInPast clientId w₀) :
    ∀ sofar later w, steps = sofar ++ later → Chained w₀ sofar w → FetchedInPast clientId w ∧
      ∀ u ∈ sofar, FetchedInPast clientId u.before ∧ FetchedInPast clientId u.after ∧ u.before.nowMs ≤ w.nowMs ∧
        u.after.nowMs ≤ w.nowMs := by
  intro sofar
  induction sofar using List.reverseRecOn with
  | nil =>
    rintro later w - hchain
    cases hchain
    exact ⟨hfirst, fun u hu => absurd hu List.not_mem_nil⟩
  | append_singleton sofar t ih =>
    intro later w hsteps hchain
    obtain ⟨hbefore, hlast⟩ := hchain.at
    cases hlast
    have hsplit : steps = sofar ++ t :: later := by rw [hsteps, List.append_assoc]; rfl
    obtain ⟨hpast, hall⟩ := ih (t :: later) t.before hsplit hbefore
    have hstep := resolution_step h hsplit
    have hnow : t.before.nowMs ≤ t.after.nowMs := hstep.now
    have hafter : FetchedInPast clientId t.after := by
      rintro fetchedAt ⟨d, hd, hf⟩
      rcases hstep.change.document with hsame | ⟨input, ⟨s, hs, hobtained⟩, hinput⟩
      · exact Nat.le_trans (hpast fetchedAt ⟨d, hsame ▸ hd, hf⟩) hnow
      · obtain ⟨u, hu, -, rfl⟩ := mem_stepsOf.1 hs
        obtain ⟨hupast, -, hub, hua⟩ := hall u hu
        have hinput : storedDocument clientId t.after = some (inputDocument input) := hinput
        cases Option.some.inj (hinput.symm.trans hd)
        rcases hobtained.fetchedAt hupast hf with hle | rfl
        · exact Nat.le_trans hle (Nat.le_trans hub hnow)
        · exact Nat.le_trans hua hnow
    refine ⟨hafter, fun u hu => ?_⟩
    rcases List.mem_append.1 hu with hu | hu
    · obtain ⟨h1, h2, h3, h4⟩ := hall u hu
      exact ⟨h1, h2, Nat.le_trans h3 hnow, Nat.le_trans h4 hnow⟩
    · rw [List.mem_singleton.1 hu]
      exact ⟨hpast, hafter, hnow, Nat.le_refl _⟩

/-- What a resolution that replaces the document has done to the row before: nothing, or it inserted this one. -/
theorem replaced_since (h : (resolutionSystem env clientId).Run ⟨w₀, []⟩ steps P) (hsteps : steps = sofar ++ t :: later)
    {d d' : ClientDocument} (hd : storedDocument clientId t.before = some d) (hd' : storedDocument clientId t.after = some d')
    (hne : d ≠ d') : ∀ u ∈ sofar, u.thread = t.thread → storedDocument clientId u.after = storedDocument clientId u.before ∨
      storedDocument clientId u.after = some d' := by
  obtain ⟨input, -, -, -, -, rfl, -, hown, -⟩ := (resolution_step h hsteps).change.replaces hd hd' hne
  intro u hu hut
  rcases hown _ (mem_stepsOf.2 ⟨u, hu, hut, rfl⟩) with hleaves | ⟨-, hsome⟩
  · exact Or.inl (congrArg (Option.map document) hleaves)
  · exact Or.inr (congrArg (Option.map document) hsome)

/-- A step does not put an older document in place of a newer one. -/
theorem fetched_forward (h : (resolutionSystem env clientId).Run ⟨w₀, []⟩ steps P) (hfirst : FetchedInPast clientId w₀)
    (hundisturbed : Undisturbed clientId steps) (hsteps : steps = sofar ++ t :: later) {fetchedAt : Nat}
    (hf : FetchedAt clientId fetchedAt t.before) : ∃ fetchedAt', fetchedAt ≤ fetchedAt' ∧ FetchedAt clientId fetchedAt' t.after := by
  obtain ⟨d, hd, hfetched⟩ := hf
  have hd : storedDocument clientId t.before = some d := hd
  rcases (resolution_step h hsteps).change.document with hsame | ⟨input, -, hd'⟩
  · exact ⟨fetchedAt, Nat.le_refl _, d, hsame.trans hd, hfetched⟩
  · have hd' : storedDocument clientId t.after = some (inputDocument input) := hd'
    by_cases hne : d = inputDocument input
    · exact ⟨fetchedAt, Nat.le_refl _, d, hne ▸ hd', hfetched⟩
    · obtain ⟨older, s, between, rfl, hthread, hobtains, hothers⟩ := (hundisturbed sofar t later hsteps _ _ hd hd' hne).1
      have hown := replaced_since h hsteps hd hd' hne
      have hchain := h.chained
      rw [hsteps] at hchain
      -- what is stored was not fetched later than the document that replaces it
      let NoLater (w : World) : Prop := ∀ n, FetchedAt clientId n w → ∃ n', input.metadataFetchedAt = some n' ∧ n ≤ n'
      have hinput : ∀ w, storedDocument clientId w = some (inputDocument input) → NoLater w := by
        rintro w hw n ⟨e, he, hn⟩
        have he : storedDocument clientId w = some e := he
        cases Option.some.inj (hw.symm.trans he)
        exact ⟨n, hn, Nat.le_refl n⟩
      have hsame : ∀ w w', storedDocument clientId w' = storedDocument clientId w → NoLater w → NoLater w' :=
        fun w w' he hle n ⟨e, hs, hn⟩ => hle n ⟨e, he ▸ hs, hn⟩
      have hown' : ∀ u ∈ older ++ s :: between, u.thread = t.thread → NoLater u.before → NoLater u.after := by
        intro u hu hut hle
        rcases hown u hu hut with he | hstored
        · exact hsame _ _ he hle
        · exact hinput _ hstored
      have hobtained : NoLater s.after := by
        rcases hobtains with hrow | hnow
        · exact hown' s (by simp) hthread (hinput _ hrow)
        · intro n hn
          have hs := (fetched_in_past h hfirst (older ++ s :: between) (t :: later) t.before hsteps hchain.at.1).2 s (by simp)
          exact ⟨s.after.nowMs, hnow, hs.2.1 n hn⟩
      have hlast : NoLater t.before := by
        refine hchain.at.1.at.2.keep (fun u hu hle => ?_) hobtained
        by_cases hut : u.thread = t.thread
        · exact hown' u (by simp [hu]) hut hle
        · exact (hothers u hu hut).elim (fun he => hsame _ _ he hle) id
      obtain ⟨n', hn', hle⟩ := hlast fetchedAt ⟨d, hd, hfetched⟩
      exact ⟨n', hle, _, hd', hn'⟩

/-- A step that changes the fingerprint revokes. -/
theorem changed_revokes (h : (resolutionSystem env clientId).Run ⟨w₀, []⟩ steps P) (hundisturbed : Undisturbed clientId steps)
    (hsteps : steps = sofar ++ t :: later) {d d' : ClientDocument} (hd : storedDocument clientId t.before = some d)
    (hd' : storedDocument clientId t.after = some d') (hne : d.metadataFingerprint ≠ d'.metadataFingerprint) :
    AllRevoked clientId t.after.db := by
  have hdne : d ≠ d' := fun he => hne (congrArg _ he)
  have hothers := (hundisturbed sofar t later hsteps d d' hd hd' hdne).2
  obtain ⟨input, now, current, before, read, rfl, rfl, -, hpast, hread, hcurrent, hbatch⟩ :=
    (resolution_step h hsteps).change.replaces hd hd' hdne
  -- the read before the batch, after which only others moved
  obtain ⟨older, r, others, hlast, hrthread, rfl, -, hnone⟩ := stepsOf_last hpast
  have hchain := h.chained
  rw [hsteps, hlast] at hchain
  have hfirst : storedFingerprint input.clientId r.after = some current.metadataFingerprint := by
    rw [storedFingerprint, rowOf, hread]
    exact congrArg (Option.map (·.metadataFingerprint)) hcurrent
  have hcurrent : current.metadataFingerprint ≠ some input.metadataFingerprint := by
    intro he
    have hkept := hothers older r others hlast hrthread hnone (hfirst.trans (congrArg some he))
    have hstored : storedFingerprint input.clientId t.before = some current.metadataFingerprint :=
      hchain.at.1.at.2.keep (p := fun w => storedFingerprint input.clientId w = some current.metadataFingerprint)
        (fun u hu hw => (hkept u hu).trans hw) hfirst
    obtain ⟨c, hc, rfl⟩ := Option.map_eq_some_iff.1 hd
    rw [storedFingerprint, hc] at hstored
    exact hne ((Option.some.inj hstored).trans he)
  show AllRevoked input.clientId (t.before, t.after).2.db
  rw [hbatch]
  exact allRevoked_batch hcurrent

end

/-- The stored projection never goes back in time. In every run of resolutions of one client beside the
rest of the server, where nothing intervenes between a resolution's reads and its batch: later documents
were not fetched earlier, and every step that changes the fingerprint leaves no family or grant of the
client unrevoked. -/
theorem projection_goes_forward (env : Env) (clientId : String) (w₀ : World) (steps : List (Taken World))
    (P : Pool ResolutionCall Input World (Except Failure (Option ClientRow)))
    (hrun : (resolutionSystem env clientId).Run ⟨w₀, []⟩ steps P) (hfirst : FetchedInPast clientId w₀)
    (hundisturbed : Undisturbed clientId steps) :
    (∀ sofar t later, steps = sofar ++ t :: later → ∀ u ∈ t :: later, ∀ fetchedAt, FetchedAt clientId fetchedAt t.before →
      ∃ fetchedAt', fetchedAt ≤ fetchedAt' ∧ FetchedAt clientId fetchedAt' u.after) ∧
    ∀ t ∈ steps, ∀ c c', rowOf clientId t.before = some c → rowOf clientId t.after = some c' →
      c.metadataFingerprint ≠ c'.metadataFingerprint → AllRevoked clientId t.after.db := by
  refine ⟨?_, ?_⟩
  · rintro sofar t later rfl u hu fetchedAt hf
    have hlater : ∀ v ∈ t :: later, (∃ n, fetchedAt ≤ n ∧ FetchedAt clientId n v.before) →
        ∃ n, fetchedAt ≤ n ∧ FetchedAt clientId n v.after := by
      rintro v hv ⟨n, hle, hn⟩
      obtain ⟨older, newer, hsplit⟩ := List.append_of_mem hv
      have hsteps : sofar ++ t :: later = (sofar ++ older) ++ v :: newer := by rw [hsplit, List.append_assoc]
      obtain ⟨n', hle', hn'⟩ := fetched_forward hrun hfirst hundisturbed hsteps hn
      exact ⟨n', Nat.le_trans hle hle', hn'⟩
    have hchain : Chained t.before (t :: later) P.store := ⟨rfl, hrun.chained.at.2⟩
    exact (hchain.all (p := fun w => ∃ n, fetchedAt ≤ n ∧ FetchedAt clientId n w) hlater ⟨fetchedAt, Nat.le_refl _, hf⟩ u hu).2
  · intro t ht c c' hc hc' hne
    obtain ⟨sofar, later, hsteps⟩ := List.append_of_mem ht
    exact changed_revokes hrun hundisturbed hsteps (congrArg (Option.map document) hc) (congrArg (Option.map document) hc') hne

/-! ## Runs on a small deployment -/

/-- A URL parser that knows one client identifier. -/
def clientUrlEnv : Env :=
  { Deployment.env with
    parseUrl := fun raw =>
      if raw = "https://client.example.com/metadata" then
        some { protocol := "https:", username := "", password := "", hostname := "client.example.com", port := "",
               pathname := "/metadata", search := "", hash := "" }
      else none }

/-- A metadata client whose document was fetched at second 900 and is fresh until second 1005. -/
def firstDocumentClient : ClientRow :=
  { Deployment.client with
    clientId := "https://client.example.com/metadata", redirectUris := ["https://old.example.com/callback"],
    registrationType := .clientIdMetadata, metadataFingerprint := some "first", metadataExpiresAt := some 1005,
    metadataFetchedAt := some 900000 }

/-- The deployment with this client and a family of it, where the API admits metadata clients. -/
def projectionWorld : World :=
  { Deployment.world with
    db := { Deployment.database with
      clients := (∅ : Table ClientRow.clientId).insert firstDocumentClient
      resources := (∅ : Table ResourceRow.resourceUri).insert
        { Deployment.resource with mcpEnabled := true, metadataClientPolicy := .consentRequired } } }

def secondDocument : ClientIdMetadata :=
  { clientName := "App", redirectUris := ["https://new.example.com/callback"], allowedGrantTypes := ["authorization_code"],
    tokenEndpointAuthMethods := [.none], jwksUri := none, fingerprint := "second", expiresAt := 5000, fetchedAt := none }

def sampleResolution (fetched : Option ClientIdMetadata) : ResolutionCall :=
  .resolve fetched (some "https://api.example.com")

/-- A family of the client. -/
def issueFamily : ResolutionCall :=
  .other fun db => { db with
    refreshTokens := db.refreshTokens.insert { Deployment.familyRow with clientId := "https://client.example.com/metadata" } }

/-- A resolution finds the document fresh and reaches its batch at second 1000. Another starts after second
1005, fetches a new document and stores it, and a family is issued. -/
def overtaken : List (System.Move ResolutionCall Input) :=
  .arrive (sampleResolution none) :: (List.replicate 7 (.run 0 { Deployment.ok with dt := 0 }) ++
    .arrive (sampleResolution (some secondDocument)) :: .run 1 { Deployment.ok with dt := 10000 } ::
      (List.replicate 9 (.run 1 Deployment.ok) ++ [.arrive issueFamily, .run 2 Deployment.ok]))

theorem allows_resolution {env : Env} {clientId : String} : ∀ (ms : List (System.Move ResolutionCall Input)) P,
    (resolutionSystem env clientId).Allows P ms
  | [], _ => trivial
  | .arrive _ :: rest, _ => ⟨trivial, allows_resolution rest _⟩
  | .run _ _ :: rest, _ => ⟨trivial, allows_resolution rest _⟩

theorem fetchedAt_iff {clientId : String} {fetchedAt : Nat} {w : World} :
    FetchedAt clientId fetchedAt w ↔ (storedDocument clientId w).bind (·.metadataFetchedAt) = some fetchedAt := by
  rw [FetchedAt, Option.bind_eq_some_iff]
  rfl

/-- The batch of the first resolution puts the older document back, and the fingerprint changes with a family
left unrevoked. -/
theorem projection_goes_back :
    let S := resolutionSystem clientUrlEnv "https://client.example.com/metadata"
    let steps := S.taken ⟨projectionWorld, []⟩ (overtaken ++ [.run 0 Deployment.ok])
    S.Run ⟨projectionWorld, []⟩ steps (S.moves ⟨projectionWorld, []⟩ (overtaken ++ [.run 0 Deployment.ok])) ∧
      ∃ t ∈ steps, FetchedAt "https://client.example.com/metadata" 1013000 t.before ∧
        FetchedAt "https://client.example.com/metadata" 900000 t.after ∧
        ((rowOf "https://client.example.com/metadata" t.before).map (·.metadataFingerprint) = some (some "second")) ∧
        ((rowOf "https://client.example.com/metadata" t.after).map (·.metadataFingerprint) = some (some "first")) ∧
        ∃ r ∈ t.after.db.refreshTokens.rows, r.clientId = "https://client.example.com/metadata" ∧ r.revokedAt = none := by
  intro S steps
  refine ⟨System.run_moves _ (allows_resolution _ _), ?_⟩
  simp only [fetchedAt_iff]
  decide +kernel

/-- Calls that follow each other do not disturb each other. -/
theorem undisturbed_of_following {env : Env} {clientId : String} {w₀ : World} {steps : List (Taken World)}
    {P : Pool ResolutionCall Input World (Except Failure (Option ClientRow))}
    (h : (resolutionSystem env clientId).Run ⟨w₀, []⟩ steps P) (hfollow : steps.Pairwise fun s t => s.thread ≤ t.thread) :
    Undisturbed clientId steps := by
  intro sofar t later hsteps d d' hd hd' hne
  -- between two steps of one call no other takes a step
  have hown : ∀ {older between : List (Taken World)} {u v : Taken World}, sofar = older ++ u :: between → u.thread = t.thread →
      v ∈ between → v.thread = t.thread := by
    rintro older between u v rfl hut hv
    rw [hsteps, List.append_assoc, List.pairwise_append] at hfollow
    obtain ⟨-, hfollow, -⟩ := hfollow
    have huv : u.thread ≤ v.thread := (List.pairwise_cons.1 hfollow).1 v (List.mem_append_left _ hv)
    obtain ⟨-, -, hcross⟩ := List.pairwise_append.1 (List.pairwise_cons.1 hfollow).2
    exact Nat.le_antisymm (hcross v hv t List.mem_cons_self) (hut ▸ huv)
  rcases (resolution_step h hsteps).change.document with hsame | ⟨input, ⟨s, hs, hobtains⟩, hinput⟩
  · exact absurd (Option.some.inj (hd.symm.trans (hsame.symm.trans hd'))) hne
  · have hinput : storedDocument clientId t.after = some (inputDocument input) := hinput
    cases Option.some.inj (hinput.symm.trans hd')
    obtain ⟨u, hu, hut, rfl⟩ := mem_stepsOf.1 hs
    obtain ⟨older, between, hsofar⟩ := List.append_of_mem hu
    refine ⟨⟨older, u, between, hsofar, hut, hobtains, fun v hv hvt => absurd (hown hsofar hut hv) hvt⟩, ?_⟩
    exact fun older r others hlast hrt hnone _ v hv => absurd (hown hlast hrt hv) (hnone v hv)

def thirdDocument : ClientIdMetadata :=
  { secondDocument with fingerprint := "third", expiresAt := 9000 }

/-- Two resolutions, each after the stored document has ended, and a family issued in between. -/
def refetched : List (System.Move ResolutionCall Input) :=
  .arrive (sampleResolution (some secondDocument)) :: .run 0 { Deployment.ok with dt := 10000 } ::
    (List.replicate 9 (.run 0 Deployment.ok) ++ .arrive issueFamily :: .run 1 { Deployment.ok with dt := 4000000 } ::
      .arrive (sampleResolution (some thirdDocument)) :: List.replicate 10 (.run 2 Deployment.ok))

theorem projection_goes_forward_refetched :
    let steps := (resolutionSystem clientUrlEnv "https://client.example.com/metadata").taken ⟨projectionWorld, []⟩ refetched
    (∃ t ∈ steps, ((rowOf "https://client.example.com/metadata" t.before).map (·.metadataFingerprint) = some (some "first")) ∧
      ((rowOf "https://client.example.com/metadata" t.after).map (·.metadataFingerprint) = some (some "second")) ∧
      AllRevoked "https://client.example.com/metadata" t.after.db) ∧
    (∃ t ∈ steps, ((rowOf "https://client.example.com/metadata" t.before).map (·.metadataFingerprint) = some (some "second")) ∧
      ((rowOf "https://client.example.com/metadata" t.after).map (·.metadataFingerprint) = some (some "third")) ∧
      (∃ r ∈ t.before.db.refreshTokens.rows, r.clientId = "https://client.example.com/metadata" ∧ r.revokedAt = none) ∧
      AllRevoked "https://client.example.com/metadata" t.after.db ∧
      FetchedAt "https://client.example.com/metadata" 1013000 t.before ∧
      ∃ fetchedAt, 1013000 ≤ fetchedAt ∧ FetchedAt "https://client.example.com/metadata" fetchedAt t.after) := by
  intro steps
  have hallows : (resolutionSystem clientUrlEnv "https://client.example.com/metadata").Allows ⟨projectionWorld, []⟩ refetched :=
    allows_resolution _ _
  have hrun := System.run_moves refetched hallows
  have hfirst : FetchedInPast "https://client.example.com/metadata" projectionWorld := by
    intro fetchedAt h
    have hstored : (storedDocument "https://client.example.com/metadata" projectionWorld).bind (·.metadataFetchedAt) =
        some 900000 := by
      decide +kernel
    cases Option.some.inj ((fetchedAt_iff.1 h).symm.trans hstored)
    decide
  have hundisturbed := undisturbed_of_following hrun (by decide +kernel)
  obtain ⟨hforward, hrevokes⟩ := projection_goes_forward clientUrlEnv "https://client.example.com/metadata" projectionWorld
    steps _ hrun hfirst hundisturbed
  have hrevoked : ∀ {t : Taken World} {fp fp' : String}, t ∈ steps →
      (rowOf "https://client.example.com/metadata" t.before).map (·.metadataFingerprint) = some (some fp) →
      (rowOf "https://client.example.com/metadata" t.after).map (·.metadataFingerprint) = some (some fp') → fp ≠ fp' →
      AllRevoked "https://client.example.com/metadata" t.after.db := by
    intro t fp fp' ht hbefore hafter hne
    obtain ⟨c, hc, hfp⟩ := Option.map_eq_some_iff.1 hbefore
    obtain ⟨c', hc', hfp'⟩ := Option.map_eq_some_iff.1 hafter
    exact hrevokes t ht c c' hc hc' (by rw [hfp, hfp']; simpa using hne)
  obtain ⟨⟨t, ht, hbefore, hafter⟩, t', ht', hbefore', hafter', hfamily, hfetched⟩ : (∃ t ∈ steps,
      ((rowOf "https://client.example.com/metadata" t.before).map (·.metadataFingerprint) = some (some "first")) ∧
      ((rowOf "https://client.example.com/metadata" t.after).map (·.metadataFingerprint) = some (some "second"))) ∧
    ∃ t ∈ steps,
      ((rowOf "https://client.example.com/metadata" t.before).map (·.metadataFingerprint) = some (some "second")) ∧
      ((rowOf "https://client.example.com/metadata" t.after).map (·.metadataFingerprint) = some (some "third")) ∧
      (∃ r ∈ t.before.db.refreshTokens.rows, r.clientId = "https://client.example.com/metadata" ∧ r.revokedAt = none) ∧
      FetchedAt "https://client.example.com/metadata" 1013000 t.before := by
    simp only [fetchedAt_iff]
    decide +kernel
  obtain ⟨sofar, later, hsteps⟩ := List.append_of_mem ht'
  refine ⟨⟨t, ht, hbefore, hafter, hrevoked ht hbefore hafter (by decide)⟩,
    t', ht', hbefore', hafter', hfamily, hrevoked ht' hbefore' hafter' (by decide), hfetched, ?_⟩
  exact hforward sofar t' later hsteps t' List.mem_cons_self 1013000 hfetched

end Keyforge.Client
