/-
The signature counters of passkeys. A login reads the stored credential, lets the library check the
assertion against the counter it read, and moves the counter under the guard that it still is that one.
The read may be stale, the guard is not: whatever overlaps, a counter only moves forward, and a positive
counter lets one login through.
-/
import Keyforge.Deployment
import Keyforge.Paths
import Keyforge.Lib.Along
import Keyforge.Auth.Passkey

namespace Keyforge.Account

open Lib Db Auth

/-! ## The calls -/

/-- A call of `verifyAuthentication`, for a login that is to create the session `sessionId`. -/
structure Assertion where
  sessionId : String
  response : AuthenticationResponse
  expectedChallenge : String
  deriving DecidableEq, Repr

/-- Assertions arrive at any time, for any credential, and any storage call may fail. -/
def assertionSystem (env : Env) : System Assertion Input World (Except Failure (Option String)) where
  code := fun a => (verifyAuthentication env a.sessionId a.response a.expectedChallenge).run
  allow := fun _ _ _ => True
  arrive := fun _ _ => True

/-- The counter that is stored with a credential id. -/
def counterOf (credentialId : String) (w : World) : Option Nat :=
  (storedCredential credentialId w.db).map (·.counter)

/-- The library gives the counter of the response, and it rejects a response whose counter is not greater
than the stored one unless both are zero. -/
structure ChecksCounter (env : Env) (responseCounter : String → Nat) : Prop where
  returns : ∀ input n, env.verifyAuthenticationResponse input = some n → n = responseCounter input.response
  rejects : ∀ input n, env.verifyAuthenticationResponse input = some n → input.counter < n ∨ (n = 0 ∧ input.counter = 0)

/-- `credential_id` is unique. -/
def UniqueCredential (credentialId : String) (w : World) : Prop :=
  (w.db.webauthnCredentials.select (·.credentialId = credentialId)).length ≤ 1

/-! ## One step -/

/-- The rows that the guard of a counter update selects. -/
def guarded (credentialId : String) (expectedCounter : Nat) (r : WebauthnCredentialRow) : Bool :=
  r.credentialId = credentialId && r.counter = expectedCounter

/-- What a step does to the stored credentials: nothing, or it moves a counter forward under the guard. -/
inductive CounterStep (t : World × World) : Prop
  | rests (h : t.2.db.webauthnCredentials = t.1.db.webauthnCredentials)
  | moves (credentialId : String) (expectedCounter nextCounter now : Nat)
      (forward : expectedCounter < nextCounter ∨ (nextCounter = 0 ∧ expectedCounter = 0))
      (h : t.2.db.webauthnCredentials = t.1.db.webauthnCredentials.update (guarded credentialId expectedCounter)
        (fun r => { r with counter := nextCounter, lastUsedAt := some now }) fun _ => rfl)

section

variable {env : Env} {responseCounter : String → Nat} {credentialId : String}

/-- The rows of a credential after a counter update. -/
theorem select_moved {t : World × World} {moved : String} {expectedCounter nextCounter now : Nat}
    (h : t.2.db.webauthnCredentials = t.1.db.webauthnCredentials.update (guarded moved expectedCounter)
      (fun r => { r with counter := nextCounter, lastUsedAt := some now }) fun _ => rfl) :
    t.2.db.webauthnCredentials.select (·.credentialId = credentialId) =
      (t.1.db.webauthnCredentials.select (·.credentialId = credentialId)).map fun r =>
        if guarded moved expectedCounter r then { r with counter := nextCounter, lastUsedAt := some now } else r := by
  rw [h]
  exact Table.select_update _ fun _ => rfl

theorem CounterStep.unique {t : World × World} (h : CounterStep t) (hu : UniqueCredential credentialId t.1) :
    UniqueCredential credentialId t.2 := by
  unfold UniqueCredential at hu ⊢
  cases h with
  | rests h => rwa [h]
  | moves moved expectedCounter nextCounter now forward h =>
    rw [select_moved h, List.length_map]
    exact hu

theorem CounterStep.mono {t : World × World} (h : CounterStep t) {n : Nat} (hn : counterOf credentialId t.1 = some n) :
    ∃ m, counterOf credentialId t.2 = some m ∧ n ≤ m := by
  unfold counterOf storedCredential at hn ⊢
  cases h with
  | rests h =>
    rw [h]
    exact ⟨n, hn, Nat.le_refl n⟩
  | moves moved expectedCounter nextCounter now forward h =>
    obtain ⟨r, hr, rfl⟩ := Option.map_eq_some_iff.1 hn
    rw [select_moved h, List.head?_map, hr, Option.map_some, Option.map_some]
    refine ⟨_, rfl, ?_⟩
    split
    · next hguard =>
      have hcounter : r.counter = expectedCounter := by
        simp only [guarded, Bool.and_eq_true, decide_eq_true_eq] at hguard
        exact hguard.2
      show r.counter ≤ nextCounter
      omega
    · exact Nat.le_refl _

theorem moved_id (nextCounter now : Nat) (r : WebauthnCredentialRow) :
    ({ r with counter := nextCounter, lastUsedAt := some now } : WebauthnCredentialRow).id = r.id :=
  rfl

/-- The step that let a login with this counter through. -/
def MovesTo (credentialId : String) (nextCounter : Nat) (t : World × World) : Prop :=
  ∃ expectedCounter now, (expectedCounter < nextCounter ∨ (nextCounter = 0 ∧ expectedCounter = 0)) ∧
    t.1.db.webauthnCredentials.has (guarded credentialId expectedCounter) = true ∧
    t.2.db.webauthnCredentials = t.1.db.webauthnCredentials.update (guarded credentialId expectedCounter)
      (fun r => { r with counter := nextCounter, lastUsedAt := some now }) (moved_id nextCounter now)

/-- With one row for the credential, its counter was smaller before the step and is the login's after it. -/
theorem MovesTo.counterOf {t : World × World} {nextCounter : Nat} (h : MovesTo credentialId nextCounter t)
    (hu : UniqueCredential credentialId t.1) : ∃ n, counterOf credentialId t.1 = some n ∧
      (n < nextCounter ∨ (nextCounter = 0 ∧ n = 0)) ∧ counterOf credentialId t.2 = some nextCounter := by
  obtain ⟨expectedCounter, now, forward, hhas, hmoved⟩ := h
  obtain ⟨r, hr, hguard⟩ := Table.has_iff.1 hhas
  have hguarded := hguard
  simp only [guarded, Bool.and_eq_true, decide_eq_true_eq] at hguard
  have hrow : t.1.db.webauthnCredentials.select (·.credentialId = credentialId) = [r] := by
    have hmem : r ∈ t.1.db.webauthnCredentials.select (·.credentialId = credentialId) :=
      Table.mem_select.2 ⟨hr, decide_eq_true hguard.1⟩
    have hone := hu
    unfold UniqueCredential at hone
    generalize t.1.db.webauthnCredentials.select (·.credentialId = credentialId) = rows at hmem hone
    obtain ⟨first, rfl⟩ := List.length_eq_one_iff.1 (Nat.le_antisymm hone (List.length_pos_of_mem hmem))
    rw [List.mem_singleton.1 hmem]
  refine ⟨expectedCounter, ?_, forward, ?_⟩
  · rw [Account.counterOf, storedCredential, hrow, ← hguard.2]
    rfl
  · rw [Account.counterOf, storedCredential, select_moved hmoved, hrow, List.map_singleton, if_pos hguarded]
    rfl

/-! ## One call -/

theorem verifyAuthentication_along (hlib : ChecksCounter env responseCounter) (a : Assertion) :
    along (fun _ t => CounterStep t) ((assertionSystem env).code a) (fun _ _ => True) [] := by
  suffices h : alongE (fun _ t => CounterStep t) (verifyAuthentication env a.sessionId a.response a.expectedChallenge)
      (fun _ _ => True) (fun _ _ => True) [] from along_imp (fun _ _ _ => trivial) _ _ h
  unfold verifyAuthentication
  split
  · trivial
  rw [alongE_bind]
  refine alongE_d1Logged (fun w w' dt hw => .rests (by rw [hw])) (fun _ _ => .rests rfl) (fun w w' hdb => ?_) fun _ => trivial
  split
  · trivial
  rename_i stored _
  dsimp only
  split
  · trivial
  rename_i newCounter hverified
  rw [alongE_bind]
  unfold updateCredentialCounter
  rw [alongE_bind]
  refine alongE_clock (fun _ _ => .rests rfl) fun w dt => ?_
  refine alongE_d1Logged (fun w w' dt hw => ?_) (fun _ _ => .rests rfl) (fun _ _ _ => trivial) fun _ => trivial
  exact .moves stored.credentialId stored.counter newCounter _ (hlib.rejects _ _ hverified) (by rw [hw]; rfl)

/-- A login that went through moved the counter to the response's. -/
theorem verifyAuthentication_ends (hlib : ChecksCounter env responseCounter) (a : Assertion) :
    endsE (verifyAuthentication env a.sessionId a.response a.expectedChallenge)
      (fun result tr => ∀ userId, result = some userId → ∃ credentialId, a.response.id = some credentialId ∧
        ∃ t ∈ tr, MovesTo credentialId (responseCounter a.response.body) t)
      fun _ _ => True := by
  unfold verifyAuthentication
  split
  · rintro userId ⟨⟩
  rename_i credentialId hid
  rw [endsE_bind]
  refine endsE_d1Logged (fun w w' dt hw => ?_) fun _ => trivial
  split
  · rintro userId ⟨⟩
  rename_i stored hstored
  dsimp only
  split
  · rintro userId ⟨⟩
  rename_i newCounter hverified
  have hcredential : stored.credentialId = credentialId := by
    have hmem := List.mem_of_mem_head? (Option.mem_def.2 hstored)
    exact of_decide_eq_true (Table.mem_select.1 hmem).2
  rw [endsE_bind]
  unfold updateCredentialCounter
  rw [endsE_bind]
  refine endsE_clock fun w₂ dt₂ => ?_
  refine endsE_d1Logged (fun w₃ w₃' dt₃ hw₃ => ?_) fun _ => trivial
  intro userId hresult
  split at hresult
  · rename_i hmoved
    refine ⟨credentialId, hid, (w₃, w₃'), by simp, ?_⟩
    rw [← hlib.returns _ _ hverified, ← hcredential]
    exact ⟨stored.counter, _, hlib.rejects _ _ hverified, hmoved, by rw [hw₃]; rfl⟩
  · cases hresult

end

/-! ## Runs -/

/-- **Counters only move forward.** However assertions overlap, the stored counter of a credential never
decreases, and two logins that went through on it with the same counter have the counter zero. -/
theorem counters_forward (env : Env) (responseCounter : String → Nat) (hlib : ChecksCounter env responseCounter)
    (credentialId : String) (w₀ : World) (hunique : UniqueCredential credentialId w₀) (steps : List (Taken World))
    (P : Pool Assertion Input World (Except Failure (Option String))) (h : (assertionSystem env).Run ⟨w₀, []⟩ steps P) :
    (∀ t ∈ steps, ∀ n, counterOf credentialId t.before = some n → ∃ m, counterOf credentialId t.after = some m ∧ n ≤ m) ∧
    ∀ i j a b userId userId', i ≠ j → P.finished i = some (a, .ok (some userId)) →
      P.finished j = some (b, .ok (some userId')) → a.response.id = some credentialId → b.response.id = some credentialId →
      responseCounter a.response.body = responseCounter b.response.body → responseCounter a.response.body = 0 := by
  have hsteps : ∀ t ∈ steps, CounterStep (t.before, t.after) := by
    intro t ht
    obtain ⟨sofar, later, hsplit⟩ := List.append_of_mem ht
    exact h.along (verifyAuthentication_along hlib) hsplit
  have hchain : Chained w₀ steps P.store := h.chained
  have huniques := hchain.all (p := UniqueCredential credentialId) (fun t ht hu => (hsteps t ht).unique hu) hunique
  -- The step of a login that went through: it is the one that reaches the login's counter.
  have hmoved : ∀ i a userId, P.finished i = some (a, .ok (some userId)) → a.response.id = some credentialId →
      ∃ t ∈ steps, t.thread = i ∧ ∃ n, counterOf credentialId t.before = some n ∧
        (n < responseCounter a.response.body ∨ (responseCounter a.response.body = 0 ∧ n = 0)) ∧
        counterOf credentialId t.after = some (responseCounter a.response.body) := by
    intro i a userId hi hid
    obtain ⟨moved, hsame, x, hx, hmoves⟩ :=
      (endsE_iff.1 (verifyAuthentication_ends hlib a)).1 _ _ (h.finished hi) userId rfl
    obtain ⟨t, ht, hthread, rfl⟩ := mem_stepsOf.1 hx
    cases hid.symm.trans hsame
    exact ⟨t, ht, hthread, hmoves.counterOf (huniques t ht).1⟩
  refine ⟨fun t ht n hn => (hsteps t ht).mono hn, ?_⟩
  intro i j a b userId userId' hne hi hj hida hidb heq
  by_contra hpos
  obtain ⟨t, ht, rfl, n, hn, hforward, hreached⟩ := hmoved i a userId hi hida
  obtain ⟨u, hu, rfl, m, hm, hforward', hreached'⟩ := hmoved j b userId' hj hidb
  let reached (w : World) : Prop := ∃ k, counterOf credentialId w = some k ∧ responseCounter a.response.body ≤ k
  have hkeep : ∀ v ∈ steps, reached v.before → reached v.after := by
    rintro v hv ⟨k, hk, hle⟩
    obtain ⟨k', hk', hle'⟩ := (hsteps v hv).mono hk
    exact ⟨k', hk', hle.trans hle'⟩
  have hfirst : ∀ {w : World} {k : Nat}, counterOf credentialId w = some k → k < responseCounter a.response.body → ¬reached w := by
    rintro w k hk hlt ⟨k', hk', hle⟩
    cases hk.symm.trans hk'
    omega
  refine hne (congrArg Taken.thread (hchain.unique hkeep ht hu (hfirst hn ?_) ⟨_, hreached, Nat.le_refl _⟩ (hfirst hm ?_)
    ⟨_, hreached', heq.le⟩))
  · omega
  · omega

/-! ## Two assertions on a small deployment -/

/-- A response stands for its counter in unary. -/
def unaryEnv : Env :=
  { Deployment.env with
    verifyAuthenticationResponse := fun input =>
      if input.counter < input.response.length ∨ (input.response.length = 0 ∧ input.counter = 0) then
        some input.response.length
      else none }

theorem unaryEnv_checks : ChecksCounter unaryEnv String.length where
  returns := by
    intro input n h
    simp only [unaryEnv, Option.ite_none_right_eq_some, Option.some.injEq] at h
    exact h.2.symm
  rejects := by
    intro input n h
    simp only [unaryEnv, Option.ite_none_right_eq_some, Option.some.injEq] at h
    rw [← h.2]
    exact h.1

def passkeyWorld : World :=
  { Deployment.world with
    db := { Deployment.database with
      webauthnCredentials := (∅ : Table WebauthnCredentialRow.id).insert
        { id := "wac_a", userId := "usr_a", credentialId := "cred", publicKey := "key", counter := 2, lastUsedAt := none } } }

def assertionOf (body : String) : Assertion :=
  { sessionId := "ses_a", response := { id := some "cred", body }, expectedChallenge := "challenge" }

/-- An authenticator and its clone present the counter 3: both read the counter 2 before either moves it. -/
def cloned : List (System.Move Assertion Input) :=
  [.arrive (assertionOf "iii"), .arrive (assertionOf "iii"), .run 0 Deployment.ok, .run 1 Deployment.ok, .run 0 Deployment.ok,
    .run 1 Deployment.ok, .run 0 Deployment.ok, .run 1 Deployment.ok]

theorem allows_assertion {env : Env} : ∀ (ms : List (System.Move Assertion Input)) P, (assertionSystem env).Allows P ms
  | [], _ => trivial
  | .arrive _ :: rest, _ => ⟨trivial, allows_assertion rest _⟩
  | .run _ _ :: rest, _ => ⟨trivial, allows_assertion rest _⟩

theorem counters_forward_cloned :
    let S := assertionSystem unaryEnv
    let P := S.moves ⟨passkeyWorld, []⟩ cloned
    P.finished 0 = some (assertionOf "iii", .ok (some "usr_a")) ∧ P.finished 1 = some (assertionOf "iii", .ok none) ∧
      ∀ t ∈ S.taken ⟨passkeyWorld, []⟩ cloned, ∀ n, counterOf "cred" t.before = some n →
        ∃ m, counterOf "cred" t.after = some m ∧ n ≤ m := by
  intro S P
  exact ⟨by decide +kernel, by decide +kernel, (counters_forward unaryEnv String.length unaryEnv_checks "cred" passkeyWorld
    (by unfold UniqueCredential; decide +kernel) _ P (System.run_moves _ (allows_assertion _ _))).1⟩

end Keyforge.Account
