/-
The newest email capability. Verifications and changes of an address share one table: the batch that
creates a capability closes the open rows of its user and adds its own, and a consumption closes the row
it finds. So a user has at most one open row, and while a row is open no later batch of its user has
committed; the object of a token only adds what the creation stored there.
-/
import Keyforge.Auth.AccountTokens
import Keyforge.Auth.Epoch
import Keyforge.Deployment
import Keyforge.Do.Consume
import Keyforge.Paths

namespace Keyforge.Account

open Lib Db Do Auth

/-! ## The calls -/

/-- A capability that a call creates. -/
structure EmailCapability where
  purpose : OneTimeTokenPurpose
  token : String
  userId : String
  email : String
  deriving DecidableEq, Repr

/-- Creations, each with the token and the row id it draws, consumptions, and one step of anything else. -/
inductive EmailCall where
  | createVerification (token id userId email : String)
  | createChange (token id userId newEmail : String)
  | consumeVerification (token : String)
  | consumeChange (token : String)
  | elsewhere (update : World → World)

inductive EmailAnswer where
  | created (token : String)
  | consumed (payload : Option AccountOneTimeTokenPayload)
  | elsewhere
  deriving DecidableEq, Repr

namespace EmailCall

def code (env : Env) : EmailCall → App EmailAnswer
  | .createVerification token id userId email => EmailAnswer.created <$> createEmailVerificationToken env token id userId email
  | .createChange token id userId newEmail => EmailAnswer.created <$> createEmailChangeToken env token id userId newEmail
  | .consumeVerification token => EmailAnswer.consumed <$> consumeEmailVerificationToken env token
  | .consumeChange token => EmailAnswer.consumed <$> consumeEmailChangeToken env token
  | .elsewhere update => (fun _ => .elsewhere) <$> io fun w => ((), update w)

def creates : EmailCall → Option EmailCapability
  | .createVerification token _ userId email => some ⟨.emailVerification, token, userId, email⟩
  | .createChange token _ userId newEmail => some ⟨.emailChange, token, userId, newEmail⟩
  | _ => none

/-- The purpose and the token a call asks for. -/
def consumes : EmailCall → Option (OneTimeTokenPurpose × String)
  | .consumeVerification token => some (.emailVerification, token)
  | .consumeChange token => some (.emailChange, token)
  | _ => none

/-- The token a call draws or presents. -/
def token (c : EmailCall) : Option String :=
  (c.creates.map (·.token)).or (c.consumes.map Prod.snd)

end EmailCall

/-- Two rows stand for the same capability. -/
structure SameRow (r r' : EmailVerificationRow) : Prop where
  id : r'.id = r.id
  userId : r'.userId = r.userId
  email : r'.email = r.email
  tokenHash : r'.tokenHash = r.tokenHash

def isEmailPurpose (purpose : OneTimeTokenPurpose) : Bool :=
  purpose = .emailVerification || purpose = .emailChange

/-- Rows are at most closed or removed, and no capability is stored. -/
structure Closes (w w' : World) : Prop where
  rows : ∀ r' ∈ w'.db.emailVerifications, ∃ r ∈ w.db.emailVerifications, SameRow r r' ∧
    (r'.consumedAt = none → r.consumedAt = none)
  values : ∀ h p, (w'.oneTimeTokens h).value = some p → isEmailPurpose p.purpose = true → (w.oneTimeTokens h).value = some p

/-- A call may arrive. The token a creation draws is new, no two tokens have one hash, and anything else
leaves the creation of capabilities to the creations. -/
structure EmailArrives (env : Env) (P : Pool EmailCall Input World (Except Failure EmailAnswer)) (c : EmailCall) : Prop where
  fresh : ∀ e, c.creates = some e → ∀ t ∈ P.threads, ∀ d, t.1.creates = some d → d.token ≠ e.token
  distinct : ∀ x, c.token = some x → ∀ t ∈ P.threads, ∀ y, t.1.token = some y →
    hashOpaqueToken env x = hashOpaqueToken env y → x = y
  elsewhere : ∀ update, c = .elsewhere update → ∀ w, Closes w (update w)

/-- Any storage call may fail, with or without having taken effect. -/
def emailSystem (env : Env) : System EmailCall Input World (Except Failure EmailAnswer) where
  code := fun c => (c.code env).run
  allow := fun _ _ _ => True
  arrive := EmailArrives env

/-! ## What a step can do -/

/-- A step commits the batch of a creation for the user: a row appears. -/
def Commits (userId : String) (w w' : World) : Prop :=
  ∃ r ∈ w'.db.emailVerifications, r.userId = userId ∧ w.db.emailVerifications.get? r.id = none

/-- The row a creation adds. -/
def capabilityRow (env : Env) (e : EmailCapability) (id : String) (now : Nat) : EmailVerificationRow :=
  { id, userId := e.userId, email := e.email, tokenHash := hashOpaqueToken env e.token, createdAt := now,
    expiresAt := now + TOKEN_TTL.emailVerification, consumedAt := none }

theorem closed_id (now : Nat) (r : EmailVerificationRow) :
    ({ r with consumedAt := some now } : EmailVerificationRow).id = r.id :=
  rfl

/-- The rows after the batch of a creation. -/
def committedRows (env : Env) (e : EmailCapability) (id : String) (now : Nat) (rows : Table EmailVerificationRow.id) :
    Table EmailVerificationRow.id :=
  (rows.update (fun r => r.userId = e.userId && r.consumedAt.isNone) (fun r => { r with consumedAt := some now })
    (closed_id now)).insert (capabilityRow env e id now)

/-- What a creation stores. -/
def capabilityPayload (e : EmailCapability) (securityVersion : Nat) : AccountOneTimeTokenPayload :=
  { purpose := e.purpose, userId := e.userId, email := e.email, redirectTo := none, securityVersion, reauthenticate := false }

/-- A step of `c` after the steps `past` of the same call. -/
inductive EmailStep (env : Env) (c : EmailCall) (past : Steps) (t : World × World) : Prop
  | closes (h : Closes t.1 t.2)
  | commits (e : EmailCapability) (id : String) (now : Nat) (hc : c.creates = some e)
    (hfirst : ∀ u ∈ past, u.2.db.emailVerifications = u.1.db.emailVerifications)
    (hrows : t.2.db.emailVerifications = committedRows env e id now t.1.db.emailVerifications)
    (hvalues : t.2.oneTimeTokens = t.1.oneTimeTokens)
  | stores (e : EmailCapability) (v : Nat) (hc : c.creates = some e)
    (hminted : ∃ u ∈ past, version u.1.db e.userId = some v)
    (hrows : t.2.db.emailVerifications = t.1.db.emailVerifications)
    (hvalues : ∀ h p, (t.2.oneTimeTokens h).value = some p → (t.1.oneTimeTokens h).value = some p ∨
      h = hashOpaqueToken env e.token ∧ p = capabilityPayload e v)

section

variable {env : Env} {c : EmailCall} {past : Steps} {w w' : World}

theorem SameRow.refl (r : EmailVerificationRow) : SameRow r r := ⟨rfl, rfl, rfl, rfl⟩

theorem Closes.of_eq (hrows : w'.db.emailVerifications = w.db.emailVerifications)
    (hvalues : w'.oneTimeTokens = w.oneTimeTokens) : Closes w w' :=
  ⟨fun r hr => ⟨r, hrows ▸ hr, .refl r, id⟩, fun _ _ hp _ => hvalues ▸ hp⟩

theorem Closes.tick (w : World) (dt : Nat) : Closes w (w.tick dt) := .of_eq rfl rfl

/-- Closing the rows that `p` selects. -/
theorem Closes.update {p : EmailVerificationRow → Bool} {now : Nat}
    (hrows : w'.db.emailVerifications =
      w.db.emailVerifications.update p (fun r => { r with consumedAt := some now }) fun _ => rfl)
    (hvalues : w'.oneTimeTokens = w.oneTimeTokens) : Closes w w' := by
  refine ⟨fun r' hr' => ?_, fun _ _ hp _ => hvalues ▸ hp⟩
  rw [hrows, Table.mem_update] at hr'
  obtain ⟨r, hr, rfl⟩ := hr'
  refine ⟨r, hr, ?_⟩
  split
  · exact ⟨⟨rfl, rfl, rfl, rfl⟩, fun hnone => absurd hnone (Option.some_ne_none now)⟩
  · exact ⟨.refl r, id⟩

/-- Where rows are at most closed, no batch of a creation committed. -/
theorem Closes.not_commits (h : Closes w w') (userId : String) : ¬ Commits userId w w' := by
  rintro ⟨r', hr', -, hnone⟩
  obtain ⟨r, hr, hsame, -⟩ := h.rows r' hr'
  exact Table.get?_eq_none.1 hnone r hr hsame.id.symm

/-- The table does not change. -/
def Untouched (past : Steps) : Prop :=
  ∀ u ∈ past, u.2.db.emailVerifications = u.1.db.emailVerifications

theorem Untouched.snoc {t : World × World} (h : Untouched past) (ht : t.2.db.emailVerifications = t.1.db.emailVerifications) :
    Untouched (past ++ [t]) := by
  intro u hu
  rcases List.mem_append.1 hu with hu | hu
  · exact h u hu
  · rw [List.mem_singleton.1 hu]
    exact ht

theorem createEmailToken_along {purpose : OneTimeTokenPurpose} {token id userId email : String}
    (hc : c.creates = some ⟨purpose, token, userId, email⟩) :
    alongE (EmailStep env c) (createEmailToken purpose env token id userId email) (fun _ _ => True) (fun _ _ => True) [] := by
  have htick : ∀ {past : Steps} (w : World) (dt : Nat), EmailStep env c past (w, w.tick dt) :=
    fun w dt => .closes (.tick w dt)
  unfold createEmailToken
  dsimp only
  rw [alongE_bind]
  refine alongE_clock htick fun w₁ dt₁ => ?_
  have hpast₁ : Untouched ([] ++ [(w₁, w₁.tick dt₁)]) := Untouched.snoc (fun _ hu => absurd hu List.not_mem_nil) rfl
  generalize (w₁.tick dt₁).nowSeconds = now
  rw [mintedVersion, bind_assoc, alongE_bind]
  refine alongE_d1Logged (fun w w' _ h => .closes ?_) htick (fun w₂ w₂' h₂ => ?_) fun _ => trivial
  · subst h
    exact .of_eq rfl rfl
  have hpast₂ := hpast₁.snoc (t := (w₂, w₂')) (congrArg (·.emailVerifications) h₂)
  dsimp only
  split
  · trivial
  · rename_i v hv
    rw [pure_bind, alongE_bind, d1]
    refine alongE_d1Logged (fun w w' _ h => ?_) htick (fun w₃ w₃' h₃ => ?_) fun _ => trivial
    · subst h
      dsimp only
      split
      · exact .commits ⟨purpose, token, userId, email⟩ id now hc hpast₂ rfl rfl
      · exact htick _ _
    rw [alongE_bind]
    refine alongE_require.2 ⟨fun _ => ?_, fun _ => trivial⟩
    rw [alongE_bind, storeToken, tokenObject]
    refine alongE_io (fun w dt => ?_) htick (fun _ _ => trivial) fun _ => trivial
    refine .stores ⟨purpose, token, userId, email⟩ v hc ⟨(w₂, w₂'), by simp, hv⟩ rfl fun h p hp => ?_
    dsimp only at hp
    by_cases he : h = hashOpaqueToken env token
    · subst he
      rw [Function.update_self] at hp
      cases hp
      exact Or.inr ⟨rfl, rfl⟩
    · rw [Function.update_of_ne he] at hp
      exact Or.inl hp

theorem consumeEmailToken_along (purpose : OneTimeTokenPurpose) (token : String) :
    alongE (EmailStep env c) (consumeEmailToken purpose env token) (fun _ _ => True) (fun _ _ => True) [] := by
  have htick : ∀ {past : Steps} (w : World) (dt : Nat), EmailStep env c past (w, w.tick dt) :=
    fun w dt => .closes (.tick w dt)
  unfold consumeEmailToken
  dsimp only
  rw [alongE_bind, consumeToken, tokenObject]
  refine alongE_io (fun w dt => .closes ⟨fun r hr => ⟨r, hr, .refl r, fun h => h⟩, fun h p hp _ => ?_⟩) htick
    (fun w dt => ?_) fun _ => trivial
  · dsimp only at hp
    by_cases he : h = hashOpaqueToken env token
    · subst he
      rw [Function.update_self] at hp
      exact OneTimeStorage.value_consume hp
    · rw [Function.update_of_ne he] at hp
      exact hp
  · dsimp only
    split
    · trivial
    · split
      · trivial
      · rw [alongE_bind]
        refine alongE_clock htick fun w₂ dt₂ => ?_
        rw [alongE_bind, d1]
        refine alongE_d1Logged (fun w w' _ h => ?_) htick (fun _ _ _ => trivial) fun _ => trivial
        subst h
        exact .closes (.update rfl rfl)

/-- Every step of a call is one of these. -/
theorem email_along (hc : ∀ update, c = .elsewhere update → ∀ w, Closes w (update w)) :
    along (EmailStep env c) (c.code env).run (fun _ _ => True) [] := by
  have hE : alongE (EmailStep env c) (c.code env) (fun _ _ => True) (fun _ _ => True) [] := by
    unfold EmailCall.code
    split <;> rw [map_eq_pure_bind, alongE_bind]
    · exact createEmailToken_along rfl
    · exact createEmailToken_along rfl
    · exact consumeEmailToken_along _ _
    · exact consumeEmailToken_along _ _
    · rename_i update
      refine alongE_io (fun w dt => .closes ?_) (fun w dt => .closes (.tick w dt)) (fun _ _ => trivial) fun _ => trivial
      exact ⟨(hc update rfl (w.tick dt)).rows, (hc update rfl (w.tick dt)).values⟩
  exact along_imp (by rintro (x | a) past h <;> trivial) _ _ hE

/-! ## What a consumption sees -/

/-- The last step closes the row of `payload` that it finds open, its user being at the version it carries. -/
def Redeemed (tokenHash : String) (payload : AccountOneTimeTokenPayload) (t : World × World) : Prop :=
  ∃ now, t.1.db.emailVerifications.has (emailTokenOpen tokenHash payload now t.1.db) = true ∧
    t.2.db.emailVerifications = t.1.db.emailVerifications.update (emailTokenOpen tokenHash payload now t.1.db)
      (fun r => { r with consumedAt := some now }) (closed_id now)

theorem consumeEmailToken_ends (purpose : OneTimeTokenPurpose) (token : String) :
    endsE (consumeEmailToken purpose env token)
      (fun r tr => ∀ payload, r = some payload → payload.purpose = purpose ∧ ∃ before t, tr = before ++ [t] ∧
        (∃ u ∈ before, (u.1.oneTimeTokens (hashOpaqueToken env token)).value = some payload) ∧
        Redeemed (hashOpaqueToken env token) payload t)
      fun _ _ => True := by
  unfold consumeEmailToken
  dsimp only
  rw [endsE_bind, consumeToken, tokenObject]
  refine endsE_io (fun w dt => ?_) fun _ => trivial
  dsimp only
  have hvalue : ∀ p, ((w.oneTimeTokens (hashOpaqueToken env token)).consume (w.tick dt).nowMs).1 = .found p →
      (w.oneTimeTokens (hashOpaqueToken env token)).value = some p := fun p h => OneTimeStorage.consume_found h
  split
  · exact fun _ h => absurd h (Option.some_ne_none _).symm
  · rename_i payload hfound
    split
    · exact fun _ h => absurd h (Option.some_ne_none _).symm
    · rename_i hpurpose
      rw [endsE_bind]
      refine endsE_clock fun w₂ dt₂ => ?_
      generalize (w₂.tick dt₂).nowSeconds = now
      rw [endsE_bind, d1]
      refine endsE_d1Logged (fun w₃ w₃' dt₃ h₃ => ?_) fun _ => trivial
      intro payload' heq
      split at heq
      · rename_i hhas
        cases heq
        refine ⟨not_not.1 hpurpose, [_, _], (w₃, w₃'), rfl, ⟨_, List.mem_cons_self, hvalue payload hfound⟩, now, hhas, ?_⟩
        rw [h₃]
      · cases heq

end

/-! ## Where rows and capabilities come from -/

/-- The step is one of the call that creates `e`. -/
def StepOf (P : Pool EmailCall Input World (Except Failure EmailAnswer)) (e : EmailCapability) (t : Taken World) : Prop :=
  ∃ c p, P.threads[t.thread]? = some (c, p) ∧ c.creates = some e

/-- The step is the batch of the creation of `e`, and `r` the row it added. -/
structure Created (env : Env) (P : Pool EmailCall Input World (Except Failure EmailAnswer)) (e : EmailCapability)
    (r : EmailVerificationRow) (t : Taken World) : Prop where
  call : StepOf P e t
  userId : r.userId = e.userId
  email : r.email = e.email
  tokenHash : r.tokenHash = hashOpaqueToken env e.token
  absent : t.before.db.emailVerifications.get? r.id = none
  present : ∃ r' ∈ t.after.db.emailVerifications, r'.id = r.id

/-- What is known after some steps: every row was added by the batch of a creation, and no later batch of
its user committed while it is open; a user has at most one open row; and every capability was stored by a
creation, with the version it read. -/
structure Provenance (env : Env) (P : Pool EmailCall Input World (Except Failure EmailAnswer)) (steps : List (Taken World))
    (w : World) : Prop where
  rows : ∀ r ∈ w.db.emailVerifications, ∃ older t newer e, steps = older ++ t :: newer ∧ Created env P e r t ∧
    (r.consumedAt = none → ∀ v ∈ newer, ¬ Commits r.userId v.before v.after)
  single : ∀ r ∈ w.db.emailVerifications, ∀ r' ∈ w.db.emailVerifications, r.userId = r'.userId → r.consumedAt = none →
    r'.consumedAt = none → r = r'
  values : ∀ h p, (w.oneTimeTokens h).value = some p → isEmailPurpose p.purpose = true → ∃ e, ∃ t ∈ steps, StepOf P e t ∧
    h = hashOpaqueToken env e.token ∧ p = capabilityPayload e p.securityVersion ∧
    version t.before.db e.userId = some p.securityVersion

section

variable {env : Env} {P : Pool EmailCall Input World (Except Failure EmailAnswer)} {steps : List (Taken World)} {t : Taken World}

theorem SameRow.created {e : EmailCapability} {r r' : EmailVerificationRow} (hsame : SameRow r r')
    (h : Created env P e r t) : Created env P e r' t where
  call := h.call
  userId := hsame.userId.trans h.userId
  email := hsame.email.trans h.email
  tokenHash := hsame.tokenHash.trans h.tokenHash
  absent := hsame.id ▸ h.absent
  present := hsame.id ▸ h.present

theorem Provenance.snocValues (h : Provenance env P steps t.before)
    (hvalues : ∀ k p, (t.after.oneTimeTokens k).value = some p → isEmailPurpose p.purpose = true →
      (t.before.oneTimeTokens k).value = some p) (k : String) (p : AccountOneTimeTokenPayload)
    (hp : (t.after.oneTimeTokens k).value = some p) (hpurpose : isEmailPurpose p.purpose = true) :
    ∃ e, ∃ u ∈ steps ++ [t], StepOf P e u ∧ k = hashOpaqueToken env e.token ∧ p = capabilityPayload e p.securityVersion ∧
      version u.before.db e.userId = some p.securityVersion := by
  obtain ⟨e, u, hu, hstored⟩ := h.values k p (hvalues k p hp hpurpose) hpurpose
  exact ⟨e, u, List.mem_append_left _ hu, hstored⟩

theorem Provenance.closes (h : Provenance env P steps t.before)
    (hrows : ∀ r' ∈ t.after.db.emailVerifications, ∃ r ∈ t.before.db.emailVerifications, SameRow r r' ∧
      (r'.consumedAt = none → r.consumedAt = none)) (hcommits : ∀ userId, ¬ Commits userId t.before t.after)
    (hvalues : ∀ k p, (t.after.oneTimeTokens k).value = some p → isEmailPurpose p.purpose = true →
      ∃ e, ∃ u ∈ steps ++ [t], StepOf P e u ∧ k = hashOpaqueToken env e.token ∧
        p = capabilityPayload e p.securityVersion ∧ version u.before.db e.userId = some p.securityVersion) :
    Provenance env P (steps ++ [t]) t.after := by
  refine ⟨fun r' hr' => ?_, fun r₁ hr₁ r₂ hr₂ huser hopen₁ hopen₂ => ?_, hvalues⟩
  · obtain ⟨r, hr, hsame, hopen⟩ := hrows r' hr'
    obtain ⟨older, u, newer, e, rfl, hcreated, hnewest⟩ := h.rows r hr
    refine ⟨older, u, newer ++ [t], e, by simp, hsame.created hcreated, fun hnone v hv => ?_⟩
    rcases List.mem_append.1 hv with hv | hv
    · rw [hsame.userId]
      exact hnewest (hopen hnone) v hv
    · rw [List.mem_singleton.1 hv]
      exact hcommits _
  · obtain ⟨s₁, hs₁, hsame₁, hclosed₁⟩ := hrows r₁ hr₁
    obtain ⟨s₂, hs₂, hsame₂, hclosed₂⟩ := hrows r₂ hr₂
    have heq : s₁ = s₂ := h.single s₁ hs₁ s₂ hs₂ (by rw [← hsame₁.userId, ← hsame₂.userId, huser]) (hclosed₁ hopen₁)
      (hclosed₂ hopen₂)
    refine Table.key_inj hr₁ hr₂ ?_
    rw [hsame₁.id, hsame₂.id, heq]

/-- The rows after the batch of a creation: the old ones, those of its user closed, and the new one. -/
theorem mem_committedRows {e : EmailCapability} {id : String} {now : Nat} {rows : Table EmailVerificationRow.id}
    {r' : EmailVerificationRow} (h : r' ∈ committedRows env e id now rows) :
    (∃ r ∈ rows, SameRow r r' ∧ (r'.consumedAt = none → r.consumedAt = none ∧ r.userId ≠ e.userId)) ∨
      r' = capabilityRow env e id now ∧ rows.get? id = none := by
  rw [committedRows, Table.mem_insert, Table.mem_update] at h
  rcases h with ⟨r, hr, rfl⟩ | ⟨rfl, hnone⟩
  · refine Or.inl ⟨r, hr, ?_⟩
    split
    · exact ⟨⟨rfl, rfl, rfl, rfl⟩, fun h => absurd h (Option.some_ne_none now)⟩
    · rename_i hselected
      refine ⟨.refl r, fun hopen => ⟨hopen, fun huser => hselected ?_⟩⟩
      simp [huser, hopen]
  · refine Or.inr ⟨rfl, ?_⟩
    rwa [Table.get?_update, Option.map_eq_none_iff] at hnone

theorem Provenance.commits {e : EmailCapability} {id : String} {now : Nat} (h : Provenance env P steps t.before)
    (hcall : StepOf P e t)
    (hrows : t.after.db.emailVerifications = committedRows env e id now t.before.db.emailVerifications)
    (hvalues : t.after.oneTimeTokens = t.before.oneTimeTokens) : Provenance env P (steps ++ [t]) t.after := by
  refine ⟨fun r' hr' => ?_, fun r₁ hr₁ r₂ hr₂ huser hopen₁ hopen₂ => ?_, ?_⟩
  · have hmem := hr'
    rw [hrows] at hr'
    rcases mem_committedRows hr' with ⟨r, hr, hsame, hopen⟩ | ⟨rfl, hnone⟩
    · obtain ⟨older, u, newer, d, rfl, hcreated, hnewest⟩ := h.rows r hr
      refine ⟨older, u, newer ++ [t], d, by simp, hsame.created hcreated, fun hclosed v hv => ?_⟩
      obtain ⟨hopen, hother⟩ := hopen hclosed
      rw [hsame.userId]
      rcases List.mem_append.1 hv with hv | hv
      · exact hnewest hopen v hv
      · -- the batch added a row of another user
        rw [List.mem_singleton.1 hv]
        rintro ⟨s', hs', huser, habsent⟩
        rw [hrows] at hs'
        rcases mem_committedRows hs' with ⟨s, hs, hs₁, -⟩ | ⟨rfl, -⟩
        · exact Table.get?_eq_none.1 habsent s hs hs₁.id.symm
        · exact hother huser.symm
    · exact ⟨steps, t, [], e, rfl, ⟨hcall, rfl, rfl, rfl, hnone, _, hmem, rfl⟩, fun _ v hv => absurd hv List.not_mem_nil⟩
  · rw [hrows] at hr₁ hr₂
    rcases mem_committedRows hr₁ with ⟨s₁, hs₁, hsame₁, hclosed₁⟩ | ⟨rfl, -⟩ <;>
      rcases mem_committedRows hr₂ with ⟨s₂, hs₂, hsame₂, hclosed₂⟩ | ⟨rfl, -⟩
    · have heq : s₁ = s₂ := h.single s₁ hs₁ s₂ hs₂ (by rw [← hsame₁.userId, ← hsame₂.userId, huser]) (hclosed₁ hopen₁).1
        (hclosed₂ hopen₂).1
      exact Table.key_inj hr₁ hr₂ (by rw [hsame₁.id, hsame₂.id, heq])
    · exact absurd (hsame₁.userId.symm.trans huser) (hclosed₁ hopen₁).2
    · exact absurd (hsame₂.userId.symm.trans huser.symm) (hclosed₂ hopen₂).2
    · rfl
  · exact h.snocValues fun k p hp _ => hvalues ▸ hp

theorem Provenance.stores {e : EmailCapability} {v : Nat} (h : Provenance env P steps t.before)
    (hcall : StepOf P e t) (hminted : ∃ u ∈ steps, u.thread = t.thread ∧ version u.before.db e.userId = some v)
    (hrows : t.after.db.emailVerifications = t.before.db.emailVerifications)
    (hvalues : ∀ k p, (t.after.oneTimeTokens k).value = some p → (t.before.oneTimeTokens k).value = some p ∨
      k = hashOpaqueToken env e.token ∧ p = capabilityPayload e v) : Provenance env P (steps ++ [t]) t.after := by
  refine h.closes (fun r hr => ⟨r, hrows ▸ hr, .refl r, fun hopen => hopen⟩) ?_ fun k p hp hpurpose => ?_
  · rintro userId ⟨r, hr, -, hnone⟩
    exact Table.get?_eq_none.1 hnone r (hrows ▸ hr) rfl
  · rcases hvalues k p hp with hp | ⟨rfl, rfl⟩
    · obtain ⟨d, u, hu, hstored⟩ := h.values k p hp hpurpose
      exact ⟨d, u, List.mem_append_left _ hu, hstored⟩
    · obtain ⟨u, hu, hthread, hv⟩ := hminted
      obtain ⟨c, q, hget, hc⟩ := hcall
      exact ⟨e, u, List.mem_append_left _ hu, ⟨c, q, hthread ▸ hget, hc⟩, rfl, rfl, hv⟩

end

/-! ## Runs -/

/-- The `i`th call consumed a capability. -/
def Consumed (P : Pool EmailCall Input World (Except Failure EmailAnswer)) (i : Nat) (purpose : OneTimeTokenPurpose)
    (token : String) (payload : AccountOneTimeTokenPayload) : Prop :=
  ∃ c, P.threads[i]? = some (c, .done (.ok (.consumed (some payload)))) ∧ c.consumes = some (purpose, token)

/-- How the `i`th call consumed a capability. At the step `u` it found open and closed the row `r`. The batch
that had added `r` at the step `t` is that of a creation of this token with this purpose, and the last one
to commit for its user; and the user was at the version that the creation had read. -/
structure ConsumedAt (env : Env) (steps : List (Taken World)) (P : Pool EmailCall Input World (Except Failure EmailAnswer))
    (i : Nat) (purpose : OneTimeTokenPurpose) (token : String) (payload : AccountOneTimeTokenPayload) (t : Taken World)
    (between : List (Taken World)) (u : Taken World) (e : EmailCapability) (r : EmailVerificationRow) : Prop where
  created : Created env P e r t
  newest : ∀ v ∈ between, ¬ Commits e.userId v.before v.after
  thread : u.thread = i
  row : r ∈ u.before.db.emailVerifications ∧ r.consumedAt = none
  redeemed : Redeemed r.tokenHash payload (u.before, u.after)
  ofToken : e.token = token
  ofPurpose : e.purpose = purpose
  stored : payload = capabilityPayload e payload.securityVersion
  epoch : version u.before.db e.userId = some payload.securityVersion
  minted : ∃ m ∈ steps, m.thread = t.thread ∧ version m.before.db e.userId = some payload.securityVersion

/-- What a run says of the email capabilities: a user has at most one open row at any time, only the newest
capability of a user is consumed, and no token is consumed twice. -/
structure OnlyNewest (env : Env) (steps : List (Taken World)) (P : Pool EmailCall Input World (Except Failure EmailAnswer)) :
    Prop where
  single : ∀ t ∈ steps, ∀ userId,
    (t.after.db.emailVerifications.select fun r => r.userId = userId && r.consumedAt.isNone).length ≤ 1
  newest : ∀ i purpose token payload, Consumed P i purpose token payload → ∃ older t between u newer e r,
    steps = older ++ t :: between ++ u :: newer ∧ ConsumedAt env steps P i purpose token payload t between u e r
  once : ∀ i j purpose purpose' token payload payload', Consumed P i purpose token payload →
    Consumed P j purpose' token payload' → i = j

section

variable {env : Env} {P : Pool EmailCall Input World (Except Failure EmailAnswer)} {w₀ : World} {steps : List (Taken World)}

theorem step_of_run (hrun : (emailSystem env).Run ⟨w₀, []⟩ steps P) {older newer : List (Taken World)} {t : Taken World}
    (hsteps : steps = older ++ t :: newer) : ∃ c p, P.threads[t.thread]? = some (c, p) ∧
      EmailStep env c (stepsOf t.thread older) (t.before, t.after) := by
  have hlt := hrun.thread_lt t (by simp [hsteps])
  have hthread := List.getElem?_eq_getElem hlt
  refine ⟨_, _, hthread, hrun.alongCall hthread (email_along ?_) hsteps⟩
  have helsewhere := hrun.arrived (V := fun c : EmailCall => ∀ update, c = .elsewhere update → ∀ w, Closes w (update w))
    fun _ _ (h : EmailArrives env _ _) => h.elsewhere
  exact helsewhere _ (List.getElem_mem hlt)

theorem provenance_step (hrun : (emailSystem env).Run ⟨w₀, []⟩ steps P) {older newer : List (Taken World)} {t : Taken World}
    (hsteps : steps = older ++ t :: newer) (h : Provenance env P older t.before) : Provenance env P (older ++ [t]) t.after := by
  obtain ⟨c, p, hthread, hstep⟩ := step_of_run hrun hsteps
  cases hstep with
  | closes hclose => exact h.closes hclose.rows hclose.not_commits (h.snocValues hclose.values)
  | commits e id now hc _ hrows hvalues => exact h.commits ⟨c, p, hthread, hc⟩ hrows hvalues
  | stores e v hc hminted hrows hvalues =>
    obtain ⟨u, hu, hv⟩ := hminted
    obtain ⟨m, hm, hmthread, rfl⟩ := mem_stepsOf.1 hu
    exact h.stores ⟨c, p, hthread, hc⟩ ⟨m, hm, hmthread, hv⟩ hrows hvalues

/-- From a server without email capabilities, the provenance is known at every step. -/
theorem provenance_of_run (hrows : w₀.db.emailVerifications = ∅)
    (hvalues : ∀ h p, (w₀.oneTimeTokens h).value = some p → isEmailPurpose p.purpose = false)
    (hrun : (emailSystem env).Run ⟨w₀, []⟩ steps P) {older newer : List (Taken World)} {t : Taken World}
    (hsteps : steps = older ++ t :: newer) : Provenance env P older t.before := by
  have hchain : Chained w₀ older t.before := (hsteps ▸ hrun.chained).at.1
  refine hchain.trace ⟨?_, ?_, ?_⟩ fun first u rest hfirst => ?_
  · exact fun r hr => absurd (hrows ▸ hr) Table.not_mem_empty
  · exact fun r hr => absurd (hrows ▸ hr) Table.not_mem_empty
  · intro h p hp hpurpose
    rw [hvalues h p hp] at hpurpose
    cases hpurpose
  · subst hfirst
    have hsplit : steps = first ++ u :: (rest ++ t :: newer) := by rw [hsteps, List.append_assoc, List.cons_append]
    exact provenance_step hrun hsplit

/-- The calls of a run draw different tokens, and no two of its tokens have one hash. -/
theorem tokens_apart (hrun : (emailSystem env).Run ⟨w₀, []⟩ steps P) :
    (P.threads.map Prod.fst).Pairwise fun c d =>
      (∀ e e', c.creates = some e → d.creates = some e' → e.token ≠ e'.token) ∧
      ∀ x y, c.token = some x → d.token = some y → hashOpaqueToken env x = hashOpaqueToken env y → x = y := by
  refine hrun.pairwise fun Q d (h : EmailArrives env Q d) t ht => ⟨fun e e' he he' => ?_, fun x y hx hy hhash => ?_⟩
  · exact h.fresh e' he' t ht e he
  · exact (h.distinct y hy t ht x hx hhash.symm).symm

/-- What holds of any two calls of a list, the later after the earlier, holds of two given ones. -/
theorem pairwise_threads {R : EmailCall → EmailCall → Prop} (h : (P.threads.map Prod.fst).Pairwise R) {i j : Nat}
    {c d : EmailCall} {p q : Prog Input World (Except Failure EmailAnswer)} (hi : P.threads[i]? = some (c, p))
    (hj : P.threads[j]? = some (d, q)) (hlt : i < j) : R c d := by
  have hget : ∀ {k c p}, P.threads[k]? = some (c, p) → (P.threads.map Prod.fst)[k]? = some c := fun hk => by
    rw [List.getElem?_map, hk]
    rfl
  obtain ⟨hli, hci⟩ := List.getElem?_eq_some_iff.1 (hget hi)
  obtain ⟨hlj, hdj⟩ := List.getElem?_eq_some_iff.1 (hget hj)
  rw [← hci, ← hdj]
  exact List.pairwise_iff_getElem.1 h i j hli hlj hlt

/-- Two tokens of a run with one hash are one token. -/
theorem tokens_agree (hrun : (emailSystem env).Run ⟨w₀, []⟩ steps P) {i j : Nat} {c d : EmailCall}
    {p q : Prog Input World (Except Failure EmailAnswer)} (hi : P.threads[i]? = some (c, p)) (hj : P.threads[j]? = some (d, q))
    {x y : String} (hx : c.token = some x) (hy : d.token = some y) (hhash : hashOpaqueToken env x = hashOpaqueToken env y) :
    x = y := by
  rcases Nat.lt_trichotomy i j with hlt | rfl | hlt
  · exact (pairwise_threads (tokens_apart hrun) hi hj hlt).2 x y hx hy hhash
  · cases hi.symm.trans hj
    exact Option.some_inj.1 (hx.symm.trans hy)
  · exact ((pairwise_threads (tokens_apart hrun) hj hi hlt).2 y x hy hx hhash.symm).symm

theorem token_of_creates {c : EmailCall} {e : EmailCapability} (h : c.creates = some e) : c.token = some e.token := by
  rw [EmailCall.token, h]
  rfl

theorem token_of_consumes {c : EmailCall} {purpose : OneTimeTokenPurpose} {token : String}
    (h : c.consumes = some (purpose, token)) : c.token = some token := by
  cases c <;> cases h <;> rfl

theorem creates_of_consumes {c : EmailCall} {purpose : OneTimeTokenPurpose} {token : String}
    (h : c.consumes = some (purpose, token)) : c.creates = none := by
  cases c <;> cases h <;> rfl

/-- The steps of creations whose tokens have one hash are steps of one call. -/
theorem creation_unique (hrun : (emailSystem env).Run ⟨w₀, []⟩ steps P) {e e' : EmailCapability} {t t' : Taken World}
    (h : StepOf P e t) (h' : StepOf P e' t') (hhash : hashOpaqueToken env e.token = hashOpaqueToken env e'.token) :
    t.thread = t'.thread ∧ e = e' := by
  obtain ⟨c, p, hthread, hc⟩ := h
  obtain ⟨d, q, hthread', hd⟩ := h'
  have htoken := tokens_agree hrun hthread hthread' (token_of_creates hc) (token_of_creates hd) hhash
  rcases Nat.lt_trichotomy t.thread t'.thread with hlt | heq | hlt
  · exact absurd htoken ((pairwise_threads (tokens_apart hrun) hthread hthread' hlt).1 e e' hc hd)
  · rw [heq, hthread'] at hthread
    cases hthread
    exact ⟨heq, Option.some_inj.1 (hc.symm.trans hd)⟩
  · exact absurd htoken.symm ((pairwise_threads (tokens_apart hrun) hthread' hthread hlt).1 e' e hd hc)

/-- The last step of a call that consumed a capability. -/
theorem consumed_step (hrun : (emailSystem env).Run ⟨w₀, []⟩ steps P) {i : Nat} {purpose : OneTimeTokenPurpose}
    {token : String} {payload : AccountOneTimeTokenPayload} (h : Consumed P i purpose token payload) :
    isEmailPurpose payload.purpose = true ∧ payload.purpose = purpose ∧ ∃ older u newer, steps = older ++ u :: newer ∧
      u.thread = i ∧ (∃ m ∈ older, (m.before.oneTimeTokens (hashOpaqueToken env token)).value = some payload) ∧
      Redeemed (hashOpaqueToken env token) payload (u.before, u.after) := by
  obtain ⟨c, hthread, hc⟩ := h
  have hends : ∀ {q : OneTimeTokenPurpose} {p : App (Option AccountOneTimeTokenPayload)},
      p = consumeEmailToken q env token → endsE (EmailAnswer.consumed <$> p)
        (fun answer tr => answer = .consumed (some payload) → payload.purpose = q ∧ ∃ before t, tr = before ++ [t] ∧
          (∃ u ∈ before, (u.1.oneTimeTokens (hashOpaqueToken env token)).value = some payload) ∧
          Redeemed (hashOpaqueToken env token) payload t) fun _ _ => True := by
    rintro q _ rfl
    rw [map_eq_pure_bind, endsE_bind]
    refine endsE_imp (fun r tr hr heq => ?_) (fun _ _ _ => trivial) _ (consumeEmailToken_ends q token)
    cases heq
    rw [List.append_nil]
    exact hr payload rfl
  have hpath := hrun.path hthread
  have hconsumed : payload.purpose = purpose ∧ isEmailPurpose purpose = true ∧ ∃ before t, stepsOf i steps = before ++ [t] ∧
      (∃ u ∈ before, (u.1.oneTimeTokens (hashOpaqueToken env token)).value = some payload) ∧
      Redeemed (hashOpaqueToken env token) payload t := by
    cases c with
    | consumeVerification _ =>
      cases hc
      obtain ⟨hpurpose, hsteps⟩ := (endsE_iff.1 (hends rfl)).1 _ _ hpath rfl
      exact ⟨hpurpose, rfl, hsteps⟩
    | consumeChange _ =>
      cases hc
      obtain ⟨hpurpose, hsteps⟩ := (endsE_iff.1 (hends rfl)).1 _ _ hpath rfl
      exact ⟨hpurpose, rfl, hsteps⟩
    | _ => cases hc
  obtain ⟨hpurpose, hemail, before, x, hsteps, ⟨y, hy, hvalue⟩, hredeemed⟩ := hconsumed
  obtain ⟨older, u, others, rfl, hu, rfl, hbefore, -⟩ := stepsOf_last hsteps
  obtain ⟨m, hm, -, rfl⟩ := mem_stepsOf.1 (hbefore ▸ hy)
  exact ⟨hpurpose ▸ hemail, hpurpose, older, u, others, rfl, hu, ⟨m, hm, hvalue⟩, hredeemed⟩

/-- No row of the user is open. -/
def NoneOpen (userId : String) (w : World) : Prop :=
  ∀ r ∈ w.db.emailVerifications, r.userId = userId → r.consumedAt ≠ none

/-- A consumption leaves its user no open row. -/
theorem Redeemed.noneOpen {tokenHash : String} {payload : AccountOneTimeTokenPayload} {u : Taken World}
    (h : Redeemed tokenHash payload (u.before, u.after)) {older : List (Taken World)}
    (hprov : Provenance env P older u.before) : NoneOpen payload.userId u.after := by
  obtain ⟨now, hhas, hrows⟩ := h
  obtain ⟨r, hr, hopen⟩ := Table.has_iff.1 hhas
  intro r' hr' huser hnone
  rw [hrows, Table.mem_update] at hr'
  obtain ⟨s, hs, rfl⟩ := hr'
  split at hnone
  · cases hnone
  · rename_i hclosed
    rw [if_neg hclosed] at huser
    have hsame : s = r := by
      simp only [emailTokenOpen, Bool.and_eq_true, decide_eq_true_eq, Option.isNone_iff_eq_none] at hopen
      exact hprov.single s hs r hr (huser.trans hopen.1.1.1.1.2.symm) hnone hopen.1.1.2
    exact hclosed (hsame ▸ hopen)

/-- Only the batch of a creation opens a row. -/
theorem noneOpen_step (hrun : (emailSystem env).Run ⟨w₀, []⟩ steps P) {older newer : List (Taken World)} {t : Taken World}
    (hsteps : steps = older ++ t :: newer) {userId : String} (hcommits : ¬ Commits userId t.before t.after)
    (h : NoneOpen userId t.before) : NoneOpen userId t.after := by
  intro r' hr' huser hnone
  obtain ⟨c, p, -, hstep⟩ := step_of_run hrun hsteps
  cases hstep with
  | closes hclose =>
    obtain ⟨r, hr, hsame, hopen⟩ := hclose.rows r' hr'
    exact h r hr (hsame.userId ▸ huser) (hopen hnone)
  | commits e id now _ _ hrows _ =>
    have hmem := hr'
    rw [show t.after.db.emailVerifications = _ from hrows] at hr'
    rcases mem_committedRows hr' with ⟨r, hr, hsame, hopen⟩ | ⟨rfl, habsent⟩
    · exact h r hr (hsame.userId ▸ huser) (hopen hnone).1
    · exact hcommits ⟨_, hmem, huser, habsent⟩
  | stores _ _ _ _ hrows _ => exact h r' (hrows ▸ hr') huser hnone

/-- The call of a creation commits its batch once. -/
theorem created_once (hrun : (emailSystem env).Run ⟨w₀, []⟩ steps P) {older newer : List (Taken World)} {t t' : Taken World}
    (hsteps : steps = older ++ t' :: newer) (ht : t ∈ older) (hthread : t.thread = t'.thread) {e e' : EmailCapability}
    {r r' : EmailVerificationRow} (h : Created env P e r t) (h' : Created env P e' r' t') : False := by
  obtain ⟨c, p, -, hstep⟩ := step_of_run hrun hsteps
  obtain ⟨s', hs', hid'⟩ := h'.present
  cases hstep with
  | closes hclose =>
    obtain ⟨s, hs, hsame, -⟩ := hclose.rows s' hs'
    exact Table.get?_eq_none.1 h'.absent s hs (hsame.id.symm.trans hid')
  | commits _ _ _ _ hfirst _ _ =>
    obtain ⟨s, hs, hid⟩ := h.present
    have hsame : t.after.db.emailVerifications = t.before.db.emailVerifications :=
      hfirst (t.before, t.after) (mem_stepsOf.2 ⟨t, ht, hthread, rfl⟩)
    exact Table.get?_eq_none.1 h.absent s (hsame ▸ hs) hid
  | stores _ _ _ _ hrows _ => exact Table.get?_eq_none.1 h'.absent s' (hrows ▸ hs') hid'

theorem consumed_at (hrows : w₀.db.emailVerifications = ∅)
    (hvalues : ∀ h p, (w₀.oneTimeTokens h).value = some p → isEmailPurpose p.purpose = false)
    (hrun : (emailSystem env).Run ⟨w₀, []⟩ steps P) {i : Nat} {purpose : OneTimeTokenPurpose} {token : String}
    {payload : AccountOneTimeTokenPayload} (h : Consumed P i purpose token payload) :
    ∃ older t between u newer e r, steps = older ++ t :: between ++ u :: newer ∧
      ConsumedAt env steps P i purpose token payload t between u e r := by
  obtain ⟨hemail, hpurpose, before, u, newer, hsteps, hthread, ⟨m, hm, hvalue⟩, hredeemed⟩ := consumed_step hrun h
  have hprov := provenance_of_run hrows hvalues hrun hsteps
  -- the capability was stored by a creation of this token
  obtain ⟨A, B, rfl⟩ := List.append_of_mem hm
  have hsplit : steps = A ++ m :: (B ++ u :: newer) := by rw [hsteps, List.append_assoc, List.cons_append]
  have hprovm := provenance_of_run hrows hvalues hrun hsplit
  obtain ⟨e, s, hs, hstored, hhash, hpayload, hversion⟩ := hprovm.values _ _ hvalue hemail
  -- its row was added by the same creation
  obtain ⟨now, hhas, hclosed⟩ := hredeemed
  obtain ⟨r, hr, hopen⟩ := Table.has_iff.1 hhas
  simp only [emailTokenOpen, Bool.and_eq_true, decide_eq_true_eq, Option.isNone_iff_eq_none] at hopen
  obtain ⟨⟨⟨⟨⟨hrhash, hruser⟩, hremail⟩, hnone⟩, -⟩, hat⟩ := hopen
  obtain ⟨older, t, between, e', hbefore, hcreated, hnewest⟩ := hprov.rows r hr
  obtain ⟨hsame, rfl⟩ := creation_unique hrun hcreated.call hstored (by rw [← hcreated.tokenHash, hrhash, hhash])
  obtain ⟨c, hcthread, hc⟩ := h
  obtain ⟨d, q, hdthread, hd⟩ := hcreated.call
  refine ⟨older, t, between, u, newer, e', r, by rw [hsteps, hbefore], ?_⟩
  exact {
    created := hcreated
    newest := hcreated.userId ▸ hnewest hnone
    thread := hthread
    row := ⟨hr, hnone⟩
    redeemed := hrhash ▸ ⟨now, hhas, hclosed⟩
    ofToken := tokens_agree hrun hdthread hcthread (token_of_creates hd) (token_of_consumes hc) hhash.symm
    ofPurpose := by rw [← hpurpose, hpayload]; rfl
    stored := hpayload
    epoch := by
      obtain ⟨user, huser, hv⟩ := (Option.any_eq_true _ _).1 hat
      rw [version, ← hcreated.userId, hruser, huser, Option.map_some, of_decide_eq_true hv]
    minted := ⟨s, by simp [hsteps, hs], hsame.symm, hversion⟩ }

/-- A consumption closes the row of its capability for good: none that comes later finds one of it. -/
theorem not_consumed_twice (hrun : (emailSystem env).Run ⟨w₀, []⟩ steps P) {i j : Nat} {purpose purpose' : OneTimeTokenPurpose}
    {token : String} {payload payload' : AccountOneTimeTokenPayload} {older mid newer between between' : List (Taken World)}
    {t u t' u' : Taken World} {e e' : EmailCapability} {r r' : EmailVerificationRow} (hi : Consumed P i purpose token payload)
    (h : ConsumedAt env steps P i purpose token payload t between u e r)
    (h' : ConsumedAt env steps P j purpose' token payload' t' between' u' e' r') (ht : t ∈ older)
    (hprov : Provenance env P older u.before) (hsteps : steps = older ++ u :: mid ++ u' :: newer)
    (hbetween : ∃ older', older ++ u :: mid = older' ++ t' :: between') : False := by
  obtain ⟨hthread, rfl⟩ := creation_unique hrun h.created.call h'.created.call (by rw [h.ofToken, h'.ofToken])
  have hafter : NoneOpen e.userId u.after := by
    have := h.redeemed.noneOpen hprov
    rwa [h.stored] at this
  obtain ⟨older', hbetween⟩ := hbetween
  rcases List.append_eq_append_iff.1 hbetween with ⟨rest, rfl, hrest⟩ | ⟨rest, rfl, hrest⟩
  · cases rest with
    | nil =>
      -- the batch would be the consumption
      cases hrest
      obtain ⟨c, hcthread, hc⟩ := hi
      obtain ⟨d, q, hdthread, hd⟩ := h'.created.call
      rw [h.thread, hcthread] at hdthread
      cases hdthread
      rw [creates_of_consumes hc] at hd
      cases hd
    | cons v rest =>
      -- the creation would have committed before
      cases hrest
      have hsplit : steps = (older ++ u :: rest) ++ t' :: (between' ++ u' :: newer) := by simp [hsteps]
      exact created_once hrun hsplit (List.mem_append_left _ ht) hthread h.created h'.created
  · cases rest with
    | nil =>
      cases hrest
      obtain ⟨c, hcthread, hc⟩ := hi
      obtain ⟨d, q, hdthread, hd⟩ := h'.created.call
      rw [h.thread, hcthread] at hdthread
      cases hdthread
      rw [creates_of_consumes hc] at hd
      cases hd
    | cons v rest =>
      -- no batch of the user committed since, so that no row is open
      cases hrest
      have hchain : Chained u.after mid u'.before := (hsteps ▸ hrun.chained).at.1.at.2
      have hnone : NoneOpen e.userId u'.before := by
        refine hchain.keep (fun v hv hopen => ?_) hafter
        obtain ⟨first, last, rfl⟩ := List.append_of_mem hv
        have hsplit : steps = (older' ++ t' :: rest ++ u :: first) ++ v :: (last ++ u' :: newer) := by simp [hsteps]
        exact noneOpen_step hrun hsplit (h'.newest v (by simp)) hopen
      exact hnone r' h'.row.1 h'.created.userId h'.row.2

/-- In every run of creations and consumptions beside anything else, from a server without email
capabilities, only the newest capability of a user works. -/
theorem only_newest_works (env : Env) (w₀ : World) (hrows : w₀.db.emailVerifications = ∅)
    (hvalues : ∀ h p, (w₀.oneTimeTokens h).value = some p → isEmailPurpose p.purpose = false) (steps : List (Taken World))
    (P : Pool EmailCall Input World (Except Failure EmailAnswer)) (hrun : (emailSystem env).Run ⟨w₀, []⟩ steps P) :
    OnlyNewest env steps P := by
  have hprov : ∀ {older newer : List (Taken World)} {t : Taken World}, steps = older ++ t :: newer →
      Provenance env P older t.before := fun h => provenance_of_run hrows hvalues hrun h
  refine ⟨fun t ht userId => ?_, fun i purpose token payload h => consumed_at hrows hvalues hrun h, ?_⟩
  · obtain ⟨older, newer, hsteps⟩ := List.append_of_mem ht
    have hsingle := (provenance_step hrun hsteps (hprov hsteps)).single
    refine Table.length_select_le_one fun r hr r' hr' hopen hopen' => ?_
    simp only [Bool.and_eq_true, decide_eq_true_eq, Option.isNone_iff_eq_none] at hopen hopen'
    exact hsingle r hr r' hr' (hopen.1.trans hopen'.1.symm) hopen.2 hopen'.2
  · intro i j purpose purpose' token payload payload' hi hj
    by_contra hne
    obtain ⟨older, t, between, u, newer, e, r, hsteps, h⟩ := consumed_at hrows hvalues hrun hi
    obtain ⟨older', t', between', u', newer', e', r', hsteps', h'⟩ := consumed_at hrows hvalues hrun hj
    have hlists := hsteps.symm.trans hsteps'
    rcases List.append_eq_append_iff.1 hlists with ⟨rest, hbefore, hrest⟩ | ⟨rest, hbefore, hrest⟩
    · cases rest with
      | nil =>
        cases hrest
        exact hne (h.thread.symm.trans h'.thread)
      | cons v mid =>
        cases hrest
        exact not_consumed_twice hrun hi h h' (by simp) (hprov hsteps) (hsteps'.trans (by rw [hbefore])) ⟨older', hbefore.symm⟩
    · cases rest with
      | nil =>
        cases hrest
        exact hne (h.thread.symm.trans h'.thread)
      | cons v mid =>
        cases hrest
        exact not_consumed_twice hrun hj h' h (by simp) (hprov hsteps') (hsteps.trans (by rw [hbefore])) ⟨older, hbefore.symm⟩

end

/-! ## A run -/

/-- A change is asked for while a verification is being created; then both links are followed. -/
def supersededSchedule : List (System.Move EmailCall Input) :=
  [.arrive (.createVerification Deployment.resetToken "ver_a" "usr_a" "a@example.com"),
   .arrive (.createChange Deployment.changeToken "ver_b" "usr_a" "b@example.com"),
   .arrive (.consumeVerification Deployment.resetToken),
   .arrive (.consumeChange Deployment.changeToken)] ++
    [0, 0, 0, 1, 1, 1, 1, 0, 2, 2, 2, 3, 3, 3].map fun i => .run i Deployment.ok

theorem only_newest_works_superseded :
    let S := emailSystem Deployment.env
    let P := S.moves ⟨Deployment.world, []⟩ supersededSchedule
    (P.finished 2).map Prod.snd = some (.ok (.consumed none)) ∧
      (P.finished 3).map Prod.snd = some (.ok (.consumed (some
        { purpose := .emailChange, userId := "usr_a", email := "b@example.com", redirectTo := none, securityVersion := 1,
          reauthenticate := false }))) ∧
      OnlyNewest Deployment.env (S.taken ⟨Deployment.world, []⟩ supersededSchedule) P := by
  intro S P
  have hdistinct : ∀ x ∈ [Deployment.resetToken, Deployment.changeToken], ∀ y ∈ [Deployment.resetToken, Deployment.changeToken],
      hashOpaqueToken Deployment.env x = hashOpaqueToken Deployment.env y → x = y := by
    decide +kernel
  have harrives : ∀ (Q : Pool EmailCall Input World (Except Failure EmailAnswer)) (c : EmailCall),
      (∀ update, c ≠ .elsewhere update) →
      ((Q.threads.map Prod.fst).all fun d => c.creates.all fun e => d.creates.all fun e' => e'.token ≠ e.token) = true →
      ((c :: Q.threads.map Prod.fst).all fun d =>
        d.token.all fun x => [Deployment.resetToken, Deployment.changeToken].contains x) = true →
      EmailArrives Deployment.env Q c := by
    intro Q c helsewhere hfresh htokens
    rw [List.all_eq_true] at hfresh htokens
    refine ⟨fun e he t ht d hd => ?_, fun x hx t ht y hy hhash => ?_, fun update h => absurd h (helsewhere update)⟩
    · have := hfresh t.1 (List.mem_map_of_mem ht)
      rw [he, hd] at this
      exact of_decide_eq_true this
    · have h₁ := htokens c List.mem_cons_self
      have h₂ := htokens t.1 (List.mem_cons_of_mem _ (List.mem_map_of_mem ht))
      rw [hx] at h₁
      rw [hy] at h₂
      exact hdistinct x (List.contains_iff_mem.1 h₁) y (List.contains_iff_mem.1 h₂) hhash
  have hallows : S.Allows ⟨Deployment.world, []⟩ supersededSchedule :=
    ⟨harrives _ _ (fun _ => nofun) rfl (by decide), harrives _ _ (fun _ => nofun) (by decide) (by decide),
      harrives _ _ (fun _ => nofun) rfl (by decide), harrives _ _ (fun _ => nofun) rfl (by decide), by trivial⟩
  exact ⟨by decide +kernel, by decide +kernel, only_newest_works Deployment.env Deployment.world rfl (fun _ _ h => by cases h)
    _ P (System.run_moves supersededSchedule hallows)⟩

end Keyforge.Account
