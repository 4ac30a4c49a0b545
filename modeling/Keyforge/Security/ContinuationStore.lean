/-
What a continuation proves (`consumeReauthContinuation` of `security/reauth-continuation.ts`). A proof is a row
that one guarded statement consumes: for the session it was drawn for, for the parameters it was drawn with, in
time, and once. Where it is accepted the request goes on with what is left to ask for.
-/
import Keyforge.Lib.Machine
import Keyforge.Lib.Table
import Keyforge.OAuth.Scopes
import Keyforge.Security.ReauthContinuation

namespace Keyforge.Security

open Lib OAuth Utils

/-! ## The functions -/

/-- A row of `reauth_continuations`. -/
structure StoredContinuation extends ReauthContinuationRow where
  consumedAt : Option Nat
  deriving DecidableEq, Repr

abbrev Continuations := Table fun r : StoredContinuation => r.tokenHash

/-- `WHERE token_hash = ? AND session_id = ? AND request_hash = ? AND consumed_at IS NULL AND expires_at > ?`. -/
def consumable (tokenHash sessionId requestHash : String) (now : Nat) (r : StoredContinuation) : Bool :=
  r.tokenHash = tokenHash && r.sessionId = sessionId && r.requestHash = requestHash && r.consumedAt.isNone && now < r.expiresAt

theorem consumed_tokenHash (consumedAt : Nat) (r : StoredContinuation) :
    ({ r with consumedAt := some consumedAt } : StoredContinuation).tokenHash = r.tokenHash :=
  rfl

/-- `UPDATE reauth_continuations SET consumed_at = ? WHERE p RETURNING token_hash`. -/
def consumeStatement (consumedAt : Nat) (p : StoredContinuation → Bool) (rows : Continuations) : Bool × Continuations :=
  (rows.has p, rows.update p (fun r => { r with consumedAt := some consumedAt }) (consumed_tokenHash consumedAt))

/-- What is left to ask for after the login: no prompt for it, and no age. -/
def satisfied (sanitized : SearchParams) : SearchParams :=
  let prompts := (parseScopeString (some ((sanitized.get "prompt").getD ""))).filter (· ≠ "login")
  let prompted := if prompts = [] then sanitized.delete "prompt" else sanitized.set "prompt" (serializeScopes prompts)
  prompted.delete "max_age"

/-- The proof a request presents, if it is there and not empty. -/
def presentedProof (params : SearchParams) : Option String :=
  (params.get REAUTH_PROOF_PARAM).filter (· ≠ "")

/-- Whether the proof was accepted, the parameters the request goes on with, and the rows after it. The clock is
read once for `consumed_at` and once for the expiry. -/
def consumeReauthContinuation (env : Env) (sessionId : Option String) (consumedAt now : Nat) (pathname : String)
    (params : SearchParams) (rows : Continuations) : (Bool × SearchParams) × Continuations :=
  let sanitized := params.delete REAUTH_PROOF_PARAM
  match presentedProof params with
  | none => ((false, sanitized), rows)
  | some token =>
    match sessionId with
    | none => ((false, sanitized), rows)
    | some sessionId =>
      let row := consumeStatement consumedAt (consumable (hashOpaqueToken env token) sessionId
        (sha256Hex env.sha256 (writeLocal pathname sanitized)) now) rows
      ((row.1, if row.1 then satisfied sanitized else sanitized), row.2)

/-! ## Calls -/

/-- What happens to the table: a login draws a proof, a request presents one, maintenance deletes rows that have
expired or were consumed, a session is deleted with its rows. The table of sessions is not modelled: an insert
that the foreign key to it would refuse goes through here. -/
inductive ContinuationCall where
  | create (getRandomValues : (length : Nat) → { bytes : List UInt8 // bytes.length = length }) (now : Nat)
    (sessionId rawReturnTo : String)
  | consume (sessionId : Option String) (consumedAt now : Nat) (pathname : String) (params : SearchParams)
  | cleanup (now : Nat) (batch : StoredContinuation → Bool)
  | endSession (now : Nat) (sessionId : String)

/-- The terminal branches of the table. -/
def cleanable (now : Nat) (r : StoredContinuation) : Bool :=
  r.expiresAt < now || r.consumedAt.isSome

/-- The row a call inserts, unless its text is no request to the authorization endpoint. -/
def ContinuationCall.drawn (env : Env) : ContinuationCall → Option ReauthContinuationRow
  | .create getRandomValues now sessionId rawReturnTo =>
    (createReauthContinuation env getRandomValues now sessionId rawReturnTo).bind Prod.fst
  | _ => none

/-- The answer says whether a proof was accepted. -/
def ContinuationCall.step (env : Env) (c : ContinuationCall) (rows : Continuations) : Bool × Continuations :=
  match c with
  | .create .. =>
    match c.drawn env with
    | some row => (false, rows.insert { row with consumedAt := none })
    | none => (false, rows)
  | .consume sessionId consumedAt now pathname params =>
    let r := consumeReauthContinuation env sessionId consumedAt now pathname params rows
    (r.1.1, r.2)
  | .cleanup now batch => (false, rows.delete fun r => cleanable now r && batch r)
  | .endSession _ sessionId => (false, rows.delete (·.sessionId = sessionId))

def continuations (env : Env) : Machine Continuations ContinuationCall Bool where
  start := ∅
  call := ContinuationCall.step env

theorem continuations_call (env : Env) (c : ContinuationCall) (rows : Continuations) :
    (continuations env).call c rows = c.step env rows := rfl

def ContinuationCall.time : ContinuationCall → Nat
  | .create _ now _ _ => now
  | .consume _ consumedAt _ _ _ => consumedAt
  | .cleanup now _ => now
  | .endSession now _ => now

/-- The token a login draws. -/
def ContinuationCall.token : ContinuationCall → Option String
  | .create getRandomValues _ _ _ => some (drawnToken getRandomValues 24)
  | _ => none

/-- The token a request presents. -/
def ContinuationCall.presented : ContinuationCall → Option String
  | .consume _ _ _ _ params => presentedProof params
  | _ => none

/-- The text of the request, without a proof, that a call hashes. -/
def ContinuationCall.request (env : Env) : ContinuationCall → Option String
  | .create _ _ _ rawReturnTo => canonicalReturnTo env rawReturnTo
  | .consume _ _ _ pathname params => some (writeLocal pathname (params.delete REAUTH_PROOF_PARAM))
  | _ => none

/-- A run: the clock never goes back, every drawn token is new, and the texts hashed in it have distinct
digests. -/
structure Admissible (env : Env) (calls : List ContinuationCall) : Prop where
  clock : calls.Pairwise fun c d => c.time ≤ d.time
  forward : ∀ sessionId consumedAt now pathname params, .consume sessionId consumedAt now pathname params ∈ calls →
    consumedAt ≤ now
  fresh : calls.Pairwise fun c d => ∀ t t', c.token = some t → d.token = some t' → hashOpaqueToken env t ≠ hashOpaqueToken env t'
  tokens : ∀ c ∈ calls, ∀ d ∈ calls, ∀ t t', c.token = some t → d.presented = some t' →
    hashOpaqueToken env t = hashOpaqueToken env t' → t = t'
  requests : ∀ c ∈ calls, ∀ d ∈ calls, ∀ t t', c.request env = some t → d.request env = some t' →
    sha256Hex env.sha256 t = sha256Hex env.sha256 t' → t = t'

/-- The call ends a proof: it is accepted, or its session is deleted. -/
inductive Ends (env : Env) (token sessionId : String) (rows : Continuations) (c : ContinuationCall) : Prop
  | accepted (hpresented : c.presented = some token) (h : (c.step env rows).1 = true)
  | deleted (now : Nat) (h : c = .endSession now sessionId)

/-! ## One call -/

section

variable {env : Env} {rows : Continuations} {c : ContinuationCall} {row : ReauthContinuationRow}

theorem drawn_eq_some (h : c.drawn env = some row) : ∃ getRandomValues now sessionId rawReturnTo returnTo,
    c = .create getRandomValues now sessionId rawReturnTo ∧ canonicalReturnTo env rawReturnTo = some returnTo ∧
      row = { tokenHash := hashOpaqueToken env (drawnToken getRandomValues 24), sessionId,
              requestHash := sha256Hex env.sha256 returnTo, expiresAt := now + REAUTH_PROOF_TTL_SECONDS, createdAt := now } := by
  cases c with
  | create getRandomValues now sessionId rawReturnTo =>
    obtain ⟨p, hp, hrow⟩ := Option.bind_eq_some_iff.1 h
    unfold createReauthContinuation at hp
    obtain ⟨returnTo, hreturnTo, hp⟩ := Option.bind_eq_some_iff.1 hp
    obtain ⟨resolved, -, hp⟩ := Option.bind_eq_some_iff.1 hp
    dsimp only at hp
    split at hp <;> cases hp
    · cases hrow
    · cases hrow
      exact ⟨_, _, _, _, _, rfl, hreturnTo, rfl⟩
  | consume | cleanup | endSession => cases h

theorem step_create {getRandomValues : (length : Nat) → { bytes : List UInt8 // bytes.length = length }} {now : Nat}
    {sessionId rawReturnTo : String} (hrow : (ContinuationCall.create getRandomValues now sessionId rawReturnTo).drawn env = some row) :
    ((ContinuationCall.create getRandomValues now sessionId rawReturnTo).step env rows).2 =
      rows.insert { row with consumedAt := none } := by
  unfold ContinuationCall.step
  rw [hrow]

/-- A request without a proof or without a session changes nothing; any other runs the statement. -/
theorem consume_cases (env : Env) (sessionId : Option String) (consumedAt now : Nat) (pathname : String) (params : SearchParams)
    (rows : Continuations) :
    ((presentedProof params = none ∨ sessionId = none) ∧
        consumeReauthContinuation env sessionId consumedAt now pathname params rows =
          ((false, params.delete REAUTH_PROOF_PARAM), rows)) ∨
      ∃ token session row, presentedProof params = some token ∧ sessionId = some session ∧
        row = consumeStatement consumedAt (consumable (hashOpaqueToken env token) session
          (sha256Hex env.sha256 (writeLocal pathname (params.delete REAUTH_PROOF_PARAM))) now) rows ∧
        consumeReauthContinuation env sessionId consumedAt now pathname params rows =
          ((row.1, if row.1 then satisfied (params.delete REAUTH_PROOF_PARAM) else params.delete REAUTH_PROOF_PARAM), row.2) := by
  unfold consumeReauthContinuation
  dsimp only
  cases presentedProof params with
  | none => exact .inl ⟨.inl rfl, rfl⟩
  | some token =>
    cases sessionId with
    | none => exact .inl ⟨.inr rfl, rfl⟩
    | some session => exact .inr ⟨token, session, _, rfl, rfl, rfl, rfl⟩

/-- A request is accepted if there is a row for what it presents. -/
theorem step_consume (sessionId : Option String) (consumedAt now : Nat) (pathname : String) (params : SearchParams) :
    ((ContinuationCall.consume sessionId consumedAt now pathname params).step env rows).1 = true ↔
      ∃ token session, presentedProof params = some token ∧ sessionId = some session ∧
        ∃ r ∈ rows, consumable (hashOpaqueToken env token) session
          (sha256Hex env.sha256 (writeLocal pathname (params.delete REAUTH_PROOF_PARAM))) now r = true := by
  show (consumeReauthContinuation env sessionId consumedAt now pathname params rows).1.1 = true ↔ _
  rcases consume_cases env sessionId consumedAt now pathname params rows with
    ⟨hnone, heq⟩ | ⟨token, session, row, htoken, rfl, rfl, heq⟩
  · rw [heq]
    refine iff_of_false Bool.false_ne_true ?_
    rintro ⟨token, session, htoken, rfl, -⟩
    rcases hnone with hnone | hnone
    · rw [hnone] at htoken
      cases htoken
    · cases hnone
  · rw [heq, htoken]
    simp [consumeStatement]

/-- What a request leaves of the rows: it consumes the one whose proof it presents, if it is accepted. -/
theorem step_consume_rows (sessionId : Option String) (consumedAt now : Nat) (pathname : String) (params : SearchParams) :
    ∃ p : StoredContinuation → Bool, ((ContinuationCall.consume sessionId consumedAt now pathname params).step env rows).2 =
        rows.update p (fun r => { r with consumedAt := some consumedAt }) (consumed_tokenHash consumedAt) ∧
      ∀ r ∈ rows, p r = true ↔
        ((ContinuationCall.consume sessionId consumedAt now pathname params).step env rows).1 = true ∧
          ∃ token, presentedProof params = some token ∧ hashOpaqueToken env token = r.tokenHash := by
  show ∃ p : StoredContinuation → Bool, (consumeReauthContinuation env sessionId consumedAt now pathname params rows).2 = _ ∧
    ∀ r ∈ rows, p r = true ↔ (consumeReauthContinuation env sessionId consumedAt now pathname params rows).1.1 = true ∧ _
  rcases consume_cases env sessionId consumedAt now pathname params rows with
    ⟨-, heq⟩ | ⟨token, session, row, htoken, rfl, rfl, heq⟩
  · rw [heq]
    exact ⟨fun _ => false, (Table.update_eq_self _ fun _ _ => rfl).symm, fun _ _ => by simp⟩
  · rw [heq, htoken]
    refine ⟨_, rfl, fun r hr => ⟨fun hp => ⟨Table.has_iff.2 ⟨r, hr, hp⟩, token, rfl, ?_⟩, ?_⟩⟩
    · simp only [consumable, Bool.and_eq_true, decide_eq_true_eq] at hp
      exact hp.1.1.1.1.symm
    · rintro ⟨hfound, t, ht, hhash⟩
      obtain rfl := Option.some.inj ht
      obtain ⟨r', hr', hp⟩ := Table.has_iff.1 hfound
      have hp' := hp
      simp only [consumable, Bool.and_eq_true, decide_eq_true_eq] at hp'
      rwa [Table.key_inj hr hr' (hhash.symm.trans hp'.1.1.1.1.symm)]

/-! ## A proof through a run -/

/-- The proof is at hand. -/
def Open (row : ReauthContinuationRow) (rows : Continuations) : Prop :=
  { row with consumedAt := none } ∈ rows

/-- The proof was consumed or is gone. -/
def Closed (row : ReauthContinuationRow) (rows : Continuations) : Prop :=
  ∀ r ∈ rows, r.tokenHash = row.tokenHash → r.consumedAt ≠ none

/-- Where a row after a call comes from. -/
theorem mem_step {r : StoredContinuation} (h : r ∈ (c.step env rows).2) :
    (∃ r' ∈ rows, r.toReauthContinuationRow = r'.toReauthContinuationRow ∧ (r = r' ∨ r.consumedAt ≠ none)) ∨
      c.drawn env = some r.toReauthContinuationRow := by
  cases c with
  | create getRandomValues now sessionId rawReturnTo =>
    unfold ContinuationCall.step at h
    dsimp only at h
    split at h
    · next row hrow =>
      rcases Table.mem_insert.1 h with h | ⟨rfl, -⟩
      · exact .inl ⟨r, h, rfl, .inl rfl⟩
      · exact .inr hrow
    · exact .inl ⟨r, h, rfl, .inl rfl⟩
  | consume sessionId consumedAt now pathname params =>
    obtain ⟨p, hrows, -⟩ := @step_consume_rows env rows sessionId consumedAt now pathname params
    rw [hrows] at h
    obtain ⟨r', hr', rfl⟩ := (Table.mem_update _).1 h
    refine .inl ⟨r', hr', ?_⟩
    split
    · exact ⟨rfl, .inr (Option.some_ne_none _)⟩
    · exact ⟨rfl, .inl rfl⟩
  | cleanup now batch => exact .inl ⟨r, (Table.mem_delete.1 h).1, rfl, .inl rfl⟩
  | endSession now sessionId => exact .inl ⟨r, (Table.mem_delete.1 h).1, rfl, .inl rfl⟩

theorem Closed.step (h : Closed row rows) (hfresh : ∀ t, c.token = some t → hashOpaqueToken env t ≠ row.tokenHash) :
    Closed row (c.step env rows).2 := by
  intro r hr htoken
  rcases mem_step hr with ⟨r', hr', hsame, rfl | hconsumed⟩ | hdrawn
  · exact h r hr' htoken
  · exact hconsumed
  · obtain ⟨getRandomValues, now, sessionId, raw, returnTo, rfl, -, hrow⟩ := drawn_eq_some hdrawn
    exact absurd (htoken ▸ congrArg ReauthContinuationRow.tokenHash hrow).symm (hfresh _ rfl)

/-- A call leaves a proof that has not expired at hand, or ends it. -/
theorem Open.step {token : String} (h : Open row rows) (htoken : row.tokenHash = hashOpaqueToken env token)
    (htime : c.time ≤ row.expiresAt) (hpresented : ∀ t, c.presented = some t → hashOpaqueToken env t = row.tokenHash → t = token) :
    (Open row (c.step env rows).2 ∧ ¬Ends env token row.sessionId rows c) ∨
      (Closed row (c.step env rows).2 ∧ Ends env token row.sessionId rows c) := by
  -- a call that presents nothing ends at most its own session's rows
  have hquiet : ∀ {c : ContinuationCall}, c.presented = none → (∀ now, c ≠ .endSession now row.sessionId) →
      ¬Ends env token row.sessionId rows c := by
    rintro c hnone hother (⟨hp, -⟩ | ⟨now, rfl⟩)
    · rw [hnone] at hp
      cases hp
    · exact hother now rfl
  cases c with
  | create getRandomValues now sessionId rawReturnTo =>
    refine .inl ⟨?_, hquiet rfl fun _ => by rintro ⟨⟩⟩
    unfold ContinuationCall.step
    dsimp only
    split
    · exact Table.mem_insert.2 (.inl h)
    · exact h
  | consume sessionId consumedAt now pathname params =>
    obtain ⟨p, hrows, hp⟩ := @step_consume_rows env rows sessionId consumedAt now pathname params
    have hrow := hp _ h
    rw [hrows]
    cases hconsumed : p { row with consumedAt := none } with
    | false =>
      refine .inl ⟨(Table.mem_update _).2 ⟨_, h, by rw [if_neg (by simp [hconsumed])]⟩, ?_⟩
      -- an acceptance of the token would have matched the row
      rintro (⟨hpres, haccepted⟩ | ⟨_, ⟨⟩⟩)
      have := hrow.2 ⟨haccepted, token, hpres, htoken.symm⟩
      rw [hconsumed] at this
      cases this
    | true =>
      obtain ⟨haccepted, t, ht, hhash⟩ := hrow.1 hconsumed
      -- the token accepted is this one
      have hsame : t = token := hpresented t ht hhash
      refine .inr ⟨fun r hr hkey => ?_, .accepted (hsame ▸ ht) haccepted⟩
      obtain ⟨r', hr', rfl⟩ := (Table.mem_update _).1 hr
      have hkey' : r'.tokenHash = row.tokenHash := by
        rw [← hkey]
        split <;> rfl
      rw [Table.key_inj hr' h hkey', hconsumed]
      exact Option.some_ne_none _
  | cleanup now batch =>
    refine .inl ⟨Table.mem_delete.2 ⟨h, ?_⟩, hquiet rfl fun _ => by rintro ⟨⟩⟩
    -- neither expired nor consumed: the sweep leaves it
    have hlive : cleanable now { row with consumedAt := none } = false := by
      simp only [cleanable, Option.isSome_none, Bool.or_false, decide_eq_false_iff_not, Nat.not_lt]
      exact htime
    rw [hlive, Bool.false_and]
  | endSession now sessionId =>
    by_cases hsession : row.sessionId = sessionId
    · subst hsession
      refine .inr ⟨fun r hr hkey => ?_, .deleted now rfl⟩
      obtain ⟨hr, hother⟩ := Table.mem_delete.1 hr
      rw [Table.key_inj hr h hkey] at hother
      simp at hother
    · exact .inl ⟨Table.mem_delete.2 ⟨h, decide_eq_false hsession⟩,
        hquiet rfl fun _ => by rintro ⟨⟩; exact hsession rfl⟩

/-- Every row was drawn by one of the calls. -/
theorem drawn_of_mem (calls : List ContinuationCall) : ∀ r ∈ (continuations env).run calls,
    ∃ c ∈ calls, c.drawn env = some r.toReauthContinuationRow := by
  refine Machine.run_inv (M := continuations env) (I := fun calls rows => ∀ r ∈ rows, ∃ c ∈ calls,
    c.drawn env = some r.toReauthContinuationRow) (fun r hr => absurd hr Table.not_mem_empty) (fun pre c ih r hr => ?_) calls
  rcases mem_step hr with ⟨r', hr', hsame, -⟩ | hdrawn
  · obtain ⟨d, hd, hdrawn⟩ := ih r' hr'
    exact ⟨d, List.mem_append_left _ hd, hsame ▸ hdrawn⟩
  · exact ⟨c, by simp, hdrawn⟩

end

section

variable {env : Env} {older newer : List ContinuationCall} {row : ReauthContinuationRow}
  {getRandomValues : (length : Nat) → { bytes : List UInt8 // bytes.length = length }} {created : Nat} {sessionId raw : String}

theorem Admissible.start {calls later : List ContinuationCall} (h : Admissible env (calls ++ later)) : Admissible env calls where
  clock := (List.pairwise_append.1 h.clock).1
  forward := fun s consumedAt now pathname params hc => h.forward s consumedAt now pathname params (List.mem_append_left _ hc)
  fresh := (List.pairwise_append.1 h.fresh).1
  tokens := fun c hc d hd => h.tokens c (List.mem_append_left _ hc) d (List.mem_append_left _ hd)
  requests := fun c hc d hd => h.requests c (List.mem_append_left _ hc) d (List.mem_append_left _ hd)

/-- What a login draws. -/
theorem drawn_create (hrow : (ContinuationCall.create getRandomValues created sessionId raw).drawn env = some row) :
    row.tokenHash = hashOpaqueToken env (drawnToken getRandomValues 24) ∧ row.sessionId = sessionId ∧
      row.expiresAt = created + REAUTH_PROOF_TTL_SECONDS ∧
      ∃ returnTo, canonicalReturnTo env raw = some returnTo ∧ row.requestHash = sha256Hex env.sha256 returnTo := by
  obtain ⟨_, _, _, _, returnTo, hc, hreturnTo, rfl⟩ := drawn_eq_some hrow
  cases hc
  exact ⟨rfl, rfl, rfl, returnTo, hreturnTo, rfl⟩

/-- From where a proof is drawn on it is at hand until a call ends it. -/
theorem open_or_closed (hrow : (ContinuationCall.create getRandomValues created sessionId raw).drawn env = some row)
    (h : Admissible env (older ++ .create getRandomValues created sessionId raw :: newer))
    (htime : ∀ c ∈ newer, c.time ≤ row.expiresAt) :
    (Open row ((continuations env).run (older ++ .create getRandomValues created sessionId raw :: newer)) ∧
      ∀ between c rest, newer = between ++ c :: rest → ¬Ends env (drawnToken getRandomValues 24) sessionId
        ((continuations env).run (older ++ .create getRandomValues created sessionId raw :: between)) c) ∨
    (Closed row ((continuations env).run (older ++ .create getRandomValues created sessionId raw :: newer)) ∧
      ∃ between c rest, newer = between ++ c :: rest ∧ Ends env (drawnToken getRandomValues 24) sessionId
        ((continuations env).run (older ++ .create getRandomValues created sessionId raw :: between)) c) := by
  obtain ⟨htoken, hsession, -⟩ := drawn_create hrow
  induction newer using List.reverseRecOn with
  | nil =>
    -- no row has this digest yet, since no earlier call drew this token
    have hnone : ((continuations env).run older).get? row.tokenHash = none := by
      refine Table.get?_eq_none.2 fun r hr hkey => ?_
      obtain ⟨d, hd, hdrawn⟩ := drawn_of_mem older r hr
      obtain ⟨_, _, _, _, _, rfl, -, hr'⟩ := drawn_eq_some hdrawn
      refine (List.pairwise_append.1 h.fresh).2.2 _ hd _ List.mem_cons_self _ _ rfl rfl ?_
      rw [← htoken, ← hkey]
      exact (congrArg ReauthContinuationRow.tokenHash hr').symm
    refine .inl ⟨?_, fun between c rest heq => absurd heq (by simp)⟩
    rw [Machine.run_concat, continuations_call, step_create hrow]
    exact Table.mem_insert.2 (.inr ⟨rfl, hnone⟩)
  | append_singleton newer c ih =>
    rw [← List.cons_append, ← List.append_assoc] at h ⊢
    have hlast : c ∈ older ++ .create getRandomValues created sessionId raw :: newer ++ [c] := by simp
    have hcreate : .create getRandomValues created sessionId raw ∈
        older ++ .create getRandomValues created sessionId raw :: newer ++ [c] := by simp
    rw [Machine.run_concat]
    rcases ih h.start (fun d hd => htime d (by simp [hd])) with ⟨hopen, hnone⟩ | ⟨hclosed, between, d, rest, heq, hends⟩
    · have hstep := hopen.step htoken (htime c (by simp)) fun t ht hhash =>
        (h.tokens _ hcreate c hlast _ t rfl ht (hhash.trans htoken).symm).symm
      rw [hsession] at hstep
      rcases hstep with ⟨hopen, hquiet⟩ | ⟨hclosed, hends⟩
      · refine .inl ⟨hopen, fun between d rest heq => ?_⟩
        rcases List.eq_nil_or_concat rest with rfl | ⟨rest, e, rfl⟩
        · obtain ⟨rfl, hd⟩ := List.append_inj' heq rfl
          cases hd
          exact hquiet
        · rw [List.concat_eq_append, ← List.cons_append, ← List.append_assoc] at heq
          exact hnone between d rest (List.append_inj' heq rfl).1
      · exact .inr ⟨hclosed, newer, c, [], rfl, hends⟩
    · refine .inr ⟨hclosed.step fun t ht hhash => ?_, between, d, rest ++ [c], by rw [heq]; simp, hends⟩
      refine (List.pairwise_append.1 h.fresh).2.2 _ (List.mem_append_right _ List.mem_cons_self) c List.mem_cons_self _ t rfl ht ?_
      rw [hhash, htoken]

end

/-! ## Acceptance -/

theorem drawnToken_ne_empty (getRandomValues : (length : Nat) → { bytes : List UInt8 // bytes.length = length }) :
    drawnToken getRandomValues 24 ≠ "" := by
  intro hempty
  have hlength := congrArg (·.toList.length) hempty
  simp only [drawnToken, length_base64UrlEncode, (getRandomValues 24).2] at hlength
  exact absurd hlength (by decide)

/-- A login drew the proof for this request, and it is in time. -/
structure Proves (env : Env) (created : Nat) (raw : String) (now : Nat) (pathname : String) (params : SearchParams) : Prop where
  authorize : ∃ params', resolveLocal env (writeLocal pathname (params.delete REAUTH_PROOF_PARAM)) = some ("/oauth/authorize", params')
  request : canonicalReturnTo env raw = some (writeLocal pathname (params.delete REAUTH_PROOF_PARAM))
  inTime : now < created + REAUTH_PROOF_TTL_SECONDS

theorem drawn_of_canonical {env : Env} {getRandomValues : (length : Nat) → { bytes : List UInt8 // bytes.length = length }}
    {created : Nat} {sessionId raw returnTo : String} (hreturnTo : canonicalReturnTo env raw = some returnTo) :
    ((ContinuationCall.create getRandomValues created sessionId raw).drawn env).isSome = true ↔
      ∃ params, resolveLocal env returnTo = some ("/oauth/authorize", params) := by
  unfold ContinuationCall.drawn createReauthContinuation
  dsimp only
  rw [hreturnTo]
  simp only [Option.bind_eq_bind, Option.bind_some]
  rcases resolveLocal env returnTo with _ | ⟨pathname, params⟩
  · simp
  · by_cases hpath : pathname = "/oauth/authorize"
    · simp [hpath, randomToken_eq getRandomValues (by decide : 24 ≤ RANDOM_QUOTA)]
    · simp [hpath]

/-- A request is accepted exactly if a login in its session drew the proof it presents for just this request, no
more than five minutes ago, and since then the proof has not been accepted and the session has not been deleted. -/
theorem continuation_accepted_iff (env : Env) (before : List ContinuationCall) (sessionId : String) (consumedAt now : Nat)
    (pathname : String) (params : SearchParams)
    (h : Admissible env (before ++ [.consume (some sessionId) consumedAt now pathname params])) :
    (continuations env).answer before (.consume (some sessionId) consumedAt now pathname params) = true ↔
      ∃ older getRandomValues created raw newer,
        before = older ++ .create getRandomValues created sessionId raw :: newer ∧
        params.get REAUTH_PROOF_PARAM = some (drawnToken getRandomValues 24) ∧
        Proves env created raw now pathname params ∧
        ∀ between c rest, newer = between ++ c :: rest → ¬Ends env (drawnToken getRandomValues 24) sessionId
          ((continuations env).run (older ++ .create getRandomValues created sessionId raw :: between)) c := by
  have hlast : .consume (some sessionId) consumedAt now pathname params ∈
      before ++ [.consume (some sessionId) consumedAt now pathname params] := by simp
  have hforward := h.forward _ _ _ _ _ hlast
  have htimes : ∀ c ∈ before, c.time ≤ now := fun c hc =>
    Nat.le_trans ((List.pairwise_append.1 h.clock).2.2 c hc _ (List.mem_singleton_self _)) hforward
  unfold Machine.answer
  rw [continuations_call, step_consume]
  constructor
  -- accepted: the row that matched was drawn by one of the calls before
  · rintro ⟨token, session, hpresented, ⟨⟩, r, hr, hmatch⟩
    simp only [consumable, Bool.and_eq_true, decide_eq_true_eq, Option.isNone_iff_eq_none] at hmatch
    obtain ⟨⟨⟨⟨hhash, hsession⟩, hrequest⟩, hunconsumed⟩, hlive⟩ := hmatch
    obtain ⟨c, hc, hdrawn⟩ := drawn_of_mem before r hr
    obtain ⟨getRandomValues, created, s, raw, returnTo, rfl, hreturnTo, hrow⟩ := drawn_eq_some hdrawn
    obtain ⟨htoken, hs, hexpires, -⟩ := drawn_create hdrawn
    have hrequest' : r.requestHash = sha256Hex env.sha256 returnTo := by rw [hrow]
    obtain ⟨older, newer, rfl⟩ := List.append_of_mem hc
    have hcreate : .create getRandomValues created s raw ∈ older ++ .create getRandomValues created s raw :: newer ++
        [.consume (some sessionId) consumedAt now pathname params] := by simp
    obtain rfl : s = sessionId := hs.symm.trans hsession
    -- the digests agree, so do the tokens and the requests
    have hsame : drawnToken getRandomValues 24 = token :=
      h.tokens _ hcreate _ hlast _ _ rfl hpresented (htoken.symm.trans hhash)
    have htext : returnTo = writeLocal pathname (params.delete REAUTH_PROOF_PARAM) :=
      h.requests _ hcreate _ hlast _ _ hreturnTo rfl (hrequest'.symm.trans hrequest)
    subst htext
    have hauthorize := (drawn_of_canonical hreturnTo).1 (Option.isSome_iff_exists.2 ⟨_, hdrawn⟩)
    rw [hexpires] at hlive
    refine ⟨older, getRandomValues, created, raw, newer, rfl, ?_, ⟨hauthorize, hreturnTo, hlive⟩, ?_⟩
    · rw [hsame]
      exact (Option.filter_eq_some_iff.1 hpresented).1
    -- an open row was ended by nobody
    · rcases open_or_closed hdrawn h.start fun c hc =>
          Nat.le_trans (htimes c (by simp [hc])) (hexpires ▸ Nat.le_of_lt hlive) with ⟨-, hnone⟩ | ⟨hclosed, -⟩
      · exact hnone
      · exact absurd hunconsumed (hclosed r hr rfl)
  -- and back: the row drawn then is still there, open
  · rintro ⟨older, getRandomValues, created, raw, newer, rfl, hpresented, hproves, hnone⟩
    obtain ⟨row, hdrawn⟩ := Option.isSome_iff_exists.1 ((drawn_of_canonical hproves.request).2 hproves.authorize)
    obtain ⟨htoken, hsession, hexpires, returnTo, hreturnTo, hrequest⟩ := drawn_create hdrawn
    obtain rfl : returnTo = writeLocal pathname (params.delete REAUTH_PROOF_PARAM) :=
      Option.some.inj (hreturnTo.symm.trans hproves.request)
    have hlive : now < row.expiresAt := hexpires ▸ hproves.inTime
    rcases open_or_closed hdrawn h.start fun c hc =>
        Nat.le_trans (htimes c (by simp [hc])) (Nat.le_of_lt hlive) with ⟨hopen, -⟩ | ⟨-, between, c, rest, heq, hends⟩
    · refine ⟨drawnToken getRandomValues 24, sessionId, ?_, rfl, _, hopen, ?_⟩
      · rw [presentedProof, hpresented, Option.filter_some, if_pos (decide_eq_true (drawnToken_ne_empty getRandomValues))]
      · simp [consumable, htoken, hsession, hrequest, hlive]
    · exact absurd hends (hnone between c rest heq)

/-! ## The way round -/

/-- What becomes of one parameter once the login has taken place. -/
def answeredParameter (p : String × String) : Option (String × String) :=
  if p.1 = "max_age" then none
  else if p.1 = "prompt" then
    match (parseScopeString (some p.2)).filter (· ≠ "login") with
    | [] => none
    | prompts => some ("prompt", serializeScopes prompts)
  else some p

/-- The parameters of the request, in their order, as it goes on. -/
def answered (params : SearchParams) : SearchParams :=
  (params.delete REAUTH_PROOF_PARAM).filterMap answeredParameter

section

variable {env : Env} {params : SearchParams}

theorem filterMap_answered (h : ∀ p ∈ params, p.1 ≠ "prompt") : params.filterMap answeredParameter = params.delete "max_age" := by
  unfold SearchParams.delete
  rw [← List.filterMap_eq_filter]
  refine List.filterMap_congr fun p hp => ?_
  unfold answeredParameter
  by_cases hage : p.1 = "max_age" <;> simp [hage, h p hp, Option.guard]

/-- With one prompt at most, what is left to ask for is what was asked for, parameter by parameter. -/
theorem satisfied_eq (honce : (params.getAll "prompt").length ≤ 1) : satisfied params = params.filterMap answeredParameter := by
  unfold satisfied
  cases hget : params.get "prompt" with
  | none =>
    -- without a prompt the request stays as it is
    have hnone : ∀ p ∈ params, p.1 ≠ "prompt" := by
      intro p hp he
      have := List.lookup_eq_none_iff.1 hget p hp
      simp [he] at this
    have hdelete : params.delete "prompt" = params := List.filter_eq_self.2 fun p hp => decide_eq_true (hnone p hp)
    have hempty : (parseScopeString (some "")).filter (· ≠ "login") = [] := by decide
    rw [filterMap_answered hnone, Option.getD_none]
    dsimp only
    rw [if_pos hempty, hdelete]
  | some value =>
    -- the prompt stands once, between parameters of other names
    obtain ⟨before, after, rfl, hbefore⟩ : ∃ before after, params = before ++ ("prompt", value) :: after ∧
        ∀ p ∈ before, p.1 ≠ "prompt" := by
      clear honce
      unfold SearchParams.get at hget
      induction params with
      | nil => cases hget
      | cons p params ih =>
        obtain ⟨name, v⟩ := p
        rw [List.lookup_cons] at hget
        by_cases hname : name = "prompt"
        · subst hname
          simp only [beq_self_eq_true, Option.some.injEq] at hget
          exact ⟨[], params, by rw [hget]; rfl, fun _ h => absurd h List.not_mem_nil⟩
        · have hne : ("prompt" == name) = false := beq_eq_false_iff_ne.2 fun he => hname he.symm
          rw [hne] at hget
          obtain ⟨before, after, rfl, hbefore⟩ := ih hget
          exact ⟨(name, v) :: before, after, rfl, List.forall_mem_cons.2 ⟨hname, hbefore⟩⟩
    have hafter : ∀ p ∈ after, p.1 ≠ "prompt" := by
      intro p hp he
      have hcount : (after.filter (·.1 = "prompt")).length = 0 := by
        have hnone : before.filter (·.1 = "prompt") = [] := List.filter_eq_nil_iff.2 fun p hp => by simpa using hbefore p hp
        simp only [SearchParams.getAll, List.filter_append, hnone, List.nil_append, List.length_map] at honce
        rw [List.filter_cons_of_pos (by simp), List.length_cons] at honce
        omega
      have hmem : p ∈ after.filter (·.1 = "prompt") := List.mem_filter.2 ⟨hp, decide_eq_true he⟩
      rw [List.length_eq_zero_iff.1 hcount] at hmem
      exact List.not_mem_nil hmem
    rw [Option.getD_some, List.filterMap_append, List.filterMap_cons, filterMap_answered hbefore, filterMap_answered hafter]
    have hpassed : ∀ {l : SearchParams}, (∀ p ∈ l, p.1 ≠ "prompt") → l.filter (·.1 ≠ "prompt") = l := fun hl =>
      List.filter_eq_self.2 fun p hp => decide_eq_true (hl p hp)
    have hset : ∀ v, (before ++ ("prompt", value) :: after : SearchParams).set "prompt" v = before ++ ("prompt", v) :: after := by
      intro v
      have hany : (before ++ ("prompt", value) :: after).any (·.1 = "prompt") = true := by simp
      have hall : ∀ p ∈ before, decide (p.1 ≠ "prompt") = true := fun p hp => decide_eq_true (hbefore p hp)
      unfold SearchParams.set
      rw [if_pos hany, List.takeWhile_append_of_pos hall, List.dropWhile_append_of_pos hall,
        List.takeWhile_cons_of_neg (by simp), List.dropWhile_cons_of_neg (by simp), List.append_nil, List.tail_cons, hpassed hafter]
    have hdelete : (before ++ ("prompt", value) :: after : SearchParams).delete "prompt" = before ++ after := by
      unfold SearchParams.delete
      rw [List.filter_append, List.filter_cons_of_neg (by simp), hpassed hbefore, hpassed hafter]
    unfold answeredParameter
    dsimp only
    rw [if_neg (by decide : ¬"prompt" = "max_age"), if_pos rfl]
    -- `login` was the only prompt, or the others stay
    cases hprompts : (parseScopeString (some value)).filter (· ≠ "login") with
    | nil =>
      rw [if_pos rfl, hdelete]
      exact List.filter_append _ _
    | cons prompt prompts =>
      rw [if_neg (by simp), hset]
      unfold SearchParams.delete
      have hkept : decide ((("prompt", serializeScopes (prompt :: prompts)) : String × String).1 ≠ "max_age") = true :=
        decide_eq_true (by decide : "prompt" ≠ "max_age")
      rw [List.filter_append, List.filter_cons_of_pos (p := fun p : String × String => decide (p.1 ≠ "max_age")) hkept]

end

/-- The request of the concrete runs. -/
def loginQuery : SearchParams := [("prompt", "login"), ("state", "x")]

/-- What its continuation is read as. -/
def loginContinuation : SearchParams := loginQuery ++ [(REAUTH_PROOF_PARAM, drawnToken zeros 24)]

/-- The digests of the token drawn from `zeros` and of the request. -/
def continuationEnv : Env := .sample
  [("AAAAAAAAAAAAAAAAAAAAAAAAAAAAAAAA", [34, 164, 128, 81, 89, 76, 25, 73, 222, 237, 112, 64, 133, 12, 31, 15, 135, 100, 83,
    127, 81, 145, 190, 86, 115, 45, 22, 165, 76, 29, 129, 83]),
   ("/oauth/authorize?prompt=login&state=x", [236, 92, 152, 64, 192, 48, 47, 34, 77, 162, 84, 146, 158, 138, 126, 48, 145,
    152, 27, 36, 116, 168, 34, 227, 167, 200, 203, 68, 90, 80, 187, 145])]

theorem continuation_accepted_iff_followed :
    (continuations continuationEnv).answer [.create zeros 10 "sess_a" (writeLocal "/oauth/authorize" loginQuery)]
      (.consume (some "sess_a") 20 20 "/oauth/authorize" loginContinuation) = true := by
  have hdelete : loginContinuation.delete REAUTH_PROOF_PARAM = loginQuery := by decide +kernel
  have hget : loginContinuation.get REAUTH_PROOF_PARAM = some (drawnToken zeros 24) := by decide +kernel
  have hok : refusedReturnTo (writeLocal "/oauth/authorize" loginQuery) = false := by decide +kernel
  have hquery := authorizeQuery_write loginQuery
  have hcanonical := @canonicalReturnTo_eq continuationEnv loginQuery _ hok hquery
  rw [show loginQuery.delete REAUTH_PROOF_PARAM = loginQuery by decide +kernel] at hcanonical
  obtain ⟨row, -, hresolve⟩ :=
    @createReauthContinuation_eq continuationEnv loginQuery _ hok hquery (by decide +kernel) zeros 10 "sess_a"
  have hadmissible : Admissible continuationEnv [.create zeros 10 "sess_a" (writeLocal "/oauth/authorize" loginQuery),
      .consume (some "sess_a") 20 20 "/oauth/authorize" loginContinuation] := by
    refine ⟨by simp [ContinuationCall.time], ?_, ?_, ?_, ?_⟩
    · rintro _ _ _ _ _ hmem
      simp only [List.mem_cons, reduceCtorEq, List.not_mem_nil, or_false, false_or] at hmem
      cases hmem
      exact Nat.le_refl 20
    · simp [ContinuationCall.token]
    · intro c hc d hd t t' ht ht' _
      simp only [List.mem_cons, List.not_mem_nil, or_false] at hc hd
      rcases hc with rfl | rfl
      · rcases hd with rfl | rfl
        · cases ht'
        · have hpresented : presentedProof loginContinuation = some t' := ht'
          exact Option.some.inj (ht.symm.trans (hget.symm.trans (Option.filter_eq_some_iff.1 hpresented).1))
      · cases ht
    · intro c hc d hd t t' ht ht' _
      simp only [List.mem_cons, List.not_mem_nil, or_false] at hc hd
      have htext : ∀ {e : ContinuationCall} {text : String}, e.request continuationEnv = some text →
          (e = .create zeros 10 "sess_a" (writeLocal "/oauth/authorize" loginQuery) ∨
            e = .consume (some "sess_a") 20 20 "/oauth/authorize" loginContinuation) →
          text = writeLocal "/oauth/authorize" loginQuery := by
        rintro e text htext (rfl | rfl)
        · exact Option.some.inj (htext.symm.trans hcanonical)
        · rw [← Option.some.inj htext, hdelete]
      rw [htext ht hc, htext ht' hd]
  refine (continuation_accepted_iff continuationEnv _ "sess_a" 20 20 "/oauth/authorize" loginContinuation hadmissible).2
    ⟨[], zeros, 10, writeLocal "/oauth/authorize" loginQuery, [], rfl, hget, ⟨⟨loginQuery, ?_⟩, ?_, by decide⟩, ?_⟩
  · rw [hdelete]
    exact hresolve _
  · rw [hdelete, hcanonical]
  · intro between c rest heq
    simp at heq

/-- A request that must log in follows the URL of its continuation: the proof is good for just these parameters, in
whatever way they are written, and with it the request goes on in their order, without the prompt for the login and
without the age. Without it nothing is taken away but the proof. -/
theorem continuation_round_trip (env : Env) (getRandomValues : (length : Nat) → { bytes : List UInt8 // bytes.length = length })
    (created : Nat) (sessionId raw : String) (params : SearchParams) (hok : refusedReturnTo raw = false)
    (h : AuthorizeQuery raw params) (honce : (params.getAll "prompt").length ≤ 1) :
    ∃ row url query, createReauthContinuation env getRandomValues created sessionId raw = some (some row, url) ∧
      resolveLocal env url = some ("/oauth/authorize", query) ∧
      query.get REAUTH_PROOF_PARAM = some (drawnToken getRandomValues 24) ∧
      (∀ now (query' : SearchParams), Proves env created raw now "/oauth/authorize" query' ↔
        query'.delete REAUTH_PROOF_PARAM = params.delete REAUTH_PROOF_PARAM ∧ now < created + REAUTH_PROOF_TTL_SECONDS) ∧
      ∀ session consumedAt now (query' : SearchParams) rows,
        query'.delete REAUTH_PROOF_PARAM = params.delete REAUTH_PROOF_PARAM →
        (consumeReauthContinuation env session consumedAt now "/oauth/authorize" query' rows).1.2 =
          if (consumeReauthContinuation env session consumedAt now "/oauth/authorize" query' rows).1.1 then answered params
          else params.delete REAUTH_PROOF_PARAM := by
  have hcanonical := @canonicalReturnTo_eq env params raw hok h
  -- what is written for the path reads back as itself
  have hresolve : ∀ pairs, resolveLocal env (writeLocal "/oauth/authorize" pairs) = some ("/oauth/authorize", pairs) := by
    obtain ⟨url, hurl, hpath, -⟩ := h
    intro pairs
    rw [← hpath]
    exact resolveLocal_write (wellFormed_of_pathAbsolute hurl) (not_looksAuthority hpath)
  -- the proof is appended, since no old one is left
  have hset : ∀ value, (params.delete REAUTH_PROOF_PARAM).set REAUTH_PROOF_PARAM value =
      params.delete REAUTH_PROOF_PARAM ++ [(REAUTH_PROOF_PARAM, value)] := by
    intro value
    have habsent : ¬(params.delete REAUTH_PROOF_PARAM).any (·.1 = REAUTH_PROOF_PARAM) = true := by
      rw [List.any_eq_true]
      rintro ⟨p, hp, hname⟩
      exact of_decide_eq_true (List.mem_filter.1 hp).2 (of_decide_eq_true hname)
    unfold SearchParams.set
    rw [if_neg habsent]
  have hget : (params.delete REAUTH_PROOF_PARAM).lookup REAUTH_PROOF_PARAM = none := by
    refine List.lookup_eq_none_iff.2 fun p hp => ?_
    exact bne_iff_ne.2 fun he => of_decide_eq_true (List.mem_filter.1 hp).2 he.symm
  -- dropping the proof leaves the prompts alone
  have honce' : ((params.delete REAUTH_PROOF_PARAM).getAll "prompt").length ≤ 1 := by
    refine Nat.le_trans ?_ honce
    unfold SearchParams.getAll
    rw [List.length_map, List.length_map]
    exact (List.filter_sublist.filter _).length_le
  refine ⟨{ tokenHash := hashOpaqueToken env (drawnToken getRandomValues 24), sessionId,
            requestHash := sha256Hex env.sha256 (writeLocal "/oauth/authorize" (params.delete REAUTH_PROOF_PARAM)),
            expiresAt := created + REAUTH_PROOF_TTL_SECONDS, createdAt := created }, _,
    params.delete REAUTH_PROOF_PARAM ++ [(REAUTH_PROOF_PARAM, drawnToken getRandomValues 24)], ?_, hresolve _, ?_,
    fun now query' => ⟨fun hproves => ⟨?_, hproves.inTime⟩, fun hsame => ?_⟩, ?_⟩
  -- the row and the URL
  · rw [createReauthContinuation, hcanonical]
    simp only [Option.bind_eq_bind, Option.bind_some, hresolve, hset, ne_eq, not_true_eq_false, if_false]
    rfl
  · rw [SearchParams.get, List.lookup_append, hget]
    rfl
  -- equal texts carry equal parameters
  · have htext := Option.some.inj (hcanonical.symm.trans hproves.request)
    have hread := (hresolve (params.delete REAUTH_PROOF_PARAM)).symm.trans ((congrArg _ htext).trans (hresolve _))
    exact (congrArg Prod.snd (Option.some.inj hread)).symm
  · exact ⟨⟨_, hresolve _⟩, by rw [hcanonical, hsame.1], hsame.2⟩
  -- the request that goes on
  · intro session consumedAt now query' rows hsame
    rcases consume_cases env session consumedAt now "/oauth/authorize" query' rows with
      ⟨-, heq⟩ | ⟨token, session, row, -, -, -, heq⟩
    · rw [heq, hsame]
      rfl
    · rw [heq, hsame, satisfied_eq honce']
      rfl

theorem continuation_round_trip_login :
    ∃ row url query, createReauthContinuation continuationEnv zeros 10 "sess_a" (writeLocal "/oauth/authorize" loginQuery) =
        some (some row, url) ∧
      resolveLocal continuationEnv url = some ("/oauth/authorize", query) ∧
      query.get REAUTH_PROOF_PARAM = some (drawnToken zeros 24) ∧ answered loginQuery = [("state", "x")] := by
  obtain ⟨row, url, query, hcreate, hresolve, hget, -⟩ := continuation_round_trip continuationEnv zeros 10 "sess_a"
    (writeLocal "/oauth/authorize" loginQuery) loginQuery (by decide +kernel) (authorizeQuery_write _) (by decide)
  exact ⟨row, url, query, hcreate, hresolve, hget, by decide +kernel⟩

end Keyforge.Security
