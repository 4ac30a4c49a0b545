/-
A one-time store is consumed at most once, and wrong guesses never burn it, over every sequence of
calls after one `store`. One call either keeps the storage, deletes it, or takes a live item and
marks it consumed (`Outcome`); "no longer live" is then stable, which gives at most one success, and
a store that has not been consumed is still the stored one until its expiry.
-/
import Keyforge.Do.OneTime

namespace Keyforge.Do

open Lib (Machine)
open Security

/-- Whether `consume` or `peek` found the item. -/
def ConsumeResult.isFound {T : Type} : ConsumeResult T → Bool
  | .found _ => true
  | .notFound => false

namespace OneTimeStorage

variable {T : Type}

/-- The store holds `v`, unconsumed and not past its expiry. -/
def Live (nowMs : Nat) (s : OneTimeStorage T) (v : T) : Prop :=
  s.consumed = some false ∧ s.value = some v ∧ ∃ e, s.expiresAt = some e ∧ nowMs ≤ e

theorem peek_found {nowMs : Nat} {s : OneTimeStorage T} {v : T} :
    s.peek nowMs = .found v ↔ s.Live nowMs v := by
  unfold peek Live
  split
  · rename_i e w hc he hv
    rw [hc, he, hv]
    split
    · rename_i hlt
      simp [hlt]
    · rename_i hle
      simpa using fun _ => Nat.not_lt.1 hle
  · rename_i hno
    simp only [reduceCtorEq, false_iff]
    rintro ⟨hc, hv, e, he, -⟩
    exact hno e v hc he hv

/-- `peek` answers as `consume` would. -/
theorem peek_eq_consume (nowMs : Nat) (s : OneTimeStorage T) : s.peek nowMs = (s.consume nowMs).1 := by
  unfold peek consume
  rcases s with ⟨_ | v, _ | e, _ | _ | _, a⟩
  case some.some.some.false =>
    simp only [ne_eq, not_true_eq_false, if_false]
    split <;> rfl
  case none.some.some.false =>
    simp only [ne_eq, not_true_eq_false, if_false]
    split <;> rfl
  all_goals rfl

/-- What is consumed was stored. -/
theorem consume_found {nowMs : Nat} {s : OneTimeStorage T} {v : T} (h : (s.consume nowMs).1 = .found v) :
    s.value = some v :=
  (peek_found.1 (peek_eq_consume nowMs s ▸ h)).2.1

/-- A store holds no more after `consume` than before. -/
theorem value_consume {nowMs : Nat} {s : OneTimeStorage T} {v : T} (h : (s.consume nowMs).2.value = some v) :
    s.value = some v := by
  unfold consume at h
  split at h
  · exact h
  · split at h
    · cases h
    · split at h
      · cases h
      · split at h <;> simpa using h

/-- Everything a call can do to a one-time store; the flag says whether it succeeded. -/
inductive Outcome (nowMs : Nat) (s : OneTimeStorage T) : Bool → OneTimeStorage T → Prop
  | kept : Outcome nowMs s false s
  | deleted : Outcome nowMs s false .empty
  | taken {v : T} (h : s.Live nowMs v) : Outcome nowMs s true { s with consumed := some true }

/-- No call can take the item any more. -/
def Gone (s : OneTimeStorage T) : Prop :=
  s.consumed ≠ some false

theorem Outcome.gone_after {nowMs : Nat} {s s' : OneTimeStorage T} (h : Outcome nowMs s true s') : s'.Gone := by
  cases h
  simp [Gone]

theorem Outcome.gone_stays {nowMs : Nat} {s s' : OneTimeStorage T} {b : Bool} (h : Outcome nowMs s b s')
    (hg : s.Gone) : s'.Gone := by
  cases h with
  | kept => exact hg
  | deleted => simp [Gone, empty]
  | taken => simp [Gone]

theorem Outcome.not_gone {nowMs : Nat} {s s' : OneTimeStorage T} (h : Outcome nowMs s true s') : ¬ s.Gone := by
  cases h with
  | taken hl => exact fun hg => hg hl.1

/-- The item and its expiry are the stored ones for as long as there is an item. -/
def Holds (v : T) (e : Nat) (s : OneTimeStorage T) : Prop :=
  ∀ now w, s.Live now w → w = v ∧ now ≤ e

theorem Outcome.holds {nowMs e : Nat} {s s' : OneTimeStorage T} {b : Bool} {v : T} (h : Outcome nowMs s b s')
    (hh : s.Holds v e) : s'.Holds v e := by
  cases h with
  | kept => exact hh
  | deleted => rintro now w ⟨hc, -⟩; cases hc
  | taken => rintro now w ⟨hc, -⟩; cases hc

theorem consume_outcome (nowMs : Nat) (s : OneTimeStorage T) :
    Outcome nowMs s ((s.consume nowMs).1.isFound) (s.consume nowMs).2 := by
  unfold consume
  split
  · exact .kept
  rename_i hc
  split
  · exact .deleted
  rename_i e he
  split
  · exact .deleted
  rename_i hle
  split
  · exact .kept
  rename_i v hv
  exact .taken ⟨not_not.1 hc, hv, e, he, by omega⟩

end OneTimeStorage

/-! ## Conditional consumption -/

/-- What an exchange has to present for the code payload `v`: the bound issuer, client, redirect URI
and metadata fingerprint; the resource, which may be left out when it is not required; and a
well-formed verifier whose S256 hash is the stored challenge. -/
structure Presents (sha256 : String → List UInt8) (v : AuthorizationCodePayload) (input : ConsumeIfInput) : Prop where
  issuer : input.issuer = v.issuer
  clientId : input.clientId = v.clientId
  redirectUri : input.redirectUri = v.redirectUri
  metadataFingerprint : input.metadataFingerprint = v.metadataFingerprint
  resource : (input.resource = none ∧ v.resourceRequired = false) ∨ input.resource = some v.resource
  verifier : isValidCodeVerifier input.codeVerifier = true
  challenge : computeS256Challenge sha256 input.codeVerifier = v.codeChallenge

/-- The checks of `consumeIf` pass exactly on what `Presents` asks for. -/
theorem consumeIf_live (sha256 : String → List UInt8) {nowMs : Nat} (input : ConsumeIfInput)
    {s : OneTimeStorage AuthorizationCodePayload} {v : AuthorizationCodePayload} (h : s.Live nowMs v) :
    (Presents sha256 v input ∧
      consumeIf sha256 false nowMs input s = (.found v, { s with consumed := some true })) ∨
    (¬ Presents sha256 v input ∧ ∃ reason, consumeIf sha256 false nowMs input s = (.refused reason, s)) := by
  obtain ⟨hc, hv, e, he, hle⟩ := h
  unfold consumeIf
  simp only [hc, hv, he, gt_iff_lt, Nat.not_lt.2 hle, if_false, Bool.not_false, Bool.true_and]
  split
  · rename_i hb
    refine Or.inr ⟨fun hp => ?_, _, rfl⟩
    simp [hp.issuer, hp.clientId, hp.redirectUri, hp.metadataFingerprint] at hb
  rename_i hb
  split
  · rename_i hr
    refine Or.inr ⟨fun hp => ?_, _, rfl⟩
    rcases hp.resource with ⟨h1, h2⟩ | h1 <;> simp [h1] at hr
    · simp [h2] at hr
  rename_i hr
  split
  · rename_i hk
    refine Or.inr ⟨fun hp => ?_, _, rfl⟩
    have heq := (timingSafeEqualString_iff v.codeChallenge v.codeChallenge).2 rfl
    simp [computedChallenge, hp.verifier, hp.challenge, heq] at hk
  rename_i hk
  refine Or.inl ⟨?_, rfl⟩
  simp only [Bool.or_eq_true, bne_iff_ne, ne_eq, not_or, not_not] at hb
  obtain ⟨⟨⟨h1, h2⟩, h3⟩, h4⟩ := hb
  simp only [computedChallenge, Bool.not_eq_true', Bool.not_eq_false, Option.any_eq_true, Option.ite_none_right_eq_some,
    Option.some.injEq, timingSafeEqualString_iff] at hk
  obtain ⟨c, ⟨hver, rfl⟩, hch⟩ := hk
  refine ⟨h1.symm, h2.symm, h3.symm, h4.symm, ?_, hver, hch⟩
  cases hres : input.resource with
  | none => simp [hres] at hr; exact Or.inl ⟨rfl, hr⟩
  | some r => simp [hres] at hr; exact Or.inr (by rw [hr])

theorem consumeIf_not_live {sha256 : String → List UInt8} {nowMs : Nat} {input : ConsumeIfInput}
    {s : OneTimeStorage AuthorizationCodePayload} (h : ∀ v, ¬ s.Live nowMs v) :
    consumeIf sha256 false nowMs input s = (.refused .notFound, s) := by
  unfold consumeIf
  split
  · rename_i e v hc he hv
    have hlt : nowMs > e := by
      by_contra hle
      exact h v ⟨hc, hv, e, he, by omega⟩
    rw [if_pos hlt]
  · rfl

/-- Whether `consumeIf` succeeded. -/
def ConsumeIfResult.isFound : ConsumeIfResult → Bool
  | .found _ => true
  | .refused _ => false

theorem consumeIf_outcome (sha256 : String → List UInt8) (nowMs : Nat) (input : ConsumeIfInput)
    (s : OneTimeStorage AuthorizationCodePayload) :
    s.Outcome nowMs (consumeIf sha256 false nowMs input s).1.isFound (consumeIf sha256 false nowMs input s).2 := by
  by_cases h : ∃ v, s.Live nowMs v
  · obtain ⟨v, hv⟩ := h
    rcases consumeIf_live sha256 input hv with ⟨-, he⟩ | ⟨-, r, he⟩
    · rw [he]; exact .taken hv
    · rw [he]; exact .kept
  · rw [consumeIf_not_live (not_exists.1 h)]
    exact .kept

/-- A refused `consumeIf` leaves the storage as it was. -/
theorem consumeIf_refused {sha256 : String → List UInt8} {nowMs : Nat} {input : ConsumeIfInput}
    {s : OneTimeStorage AuthorizationCodePayload} {reason : ConsumeIfReason}
    (h : (consumeIf sha256 false nowMs input s).1 = .refused reason) :
    (consumeIf sha256 false nowMs input s).2 = s := by
  by_cases hl : ∃ v, s.Live nowMs v
  · obtain ⟨v, hv⟩ := hl
    rcases consumeIf_live sha256 input hv with ⟨-, he⟩ | ⟨-, r, he⟩
    · rw [he] at h; cases h
    · rw [he]
  · rw [consumeIf_not_live (not_exists.1 hl)]

theorem consumeIf_found {sha256 : String → List UInt8} {nowMs : Nat} {input : ConsumeIfInput}
    {s : OneTimeStorage AuthorizationCodePayload} {v : AuthorizationCodePayload} :
    (consumeIf sha256 false nowMs input s).1 = .found v ↔ s.Live nowMs v ∧ Presents sha256 v input := by
  by_cases h : ∃ w, s.Live nowMs w
  · obtain ⟨w, hw⟩ := h
    have huniq : ∀ v, s.Live nowMs v → v = w := by
      intro v hv
      exact Option.some.inj (hv.2.1.symm.trans hw.2.1)
    rcases consumeIf_live sha256 input hw with ⟨hp, he⟩ | ⟨hp, r, he⟩
    · rw [he]
      constructor
      · rintro ⟨⟩
        exact ⟨hw, hp⟩
      · rintro ⟨hv, -⟩
        rw [huniq v hv]
    · rw [he]
      constructor
      · rintro ⟨⟩
      · rintro ⟨hv, hpv⟩
        rw [huniq v hv] at hpv
        exact absurd hpv hp
  · rw [consumeIf_not_live (not_exists.1 h)]
    constructor
    · rintro ⟨⟩
    · rintro ⟨hv, -⟩
      exact absurd ⟨v, hv⟩ h

/-! ## Runs -/

/-- Whether an answer is a success of `consume` or `consumeIf`. -/
def OneTimeAnswer.succeeded {T ρ : Type} (isFound : ρ → Bool) : OneTimeAnswer T ρ → Bool
  | .consume r => r.isFound
  | .consumeIf r => isFound r
  | .peek _ => false
  | .alarm => false

section

variable {T ι ρ : Type} {cond : Nat → ι → OneTimeStorage T → ρ × OneTimeStorage T} {isFound : ρ → Bool}

theorem call_outcome (hcond : ∀ now i (s : OneTimeStorage T), s.Outcome now (isFound (cond now i s).1) (cond now i s).2)
    (start : OneTimeStorage T) (c : Nat × OneTimeCall ι) (s : OneTimeStorage T) :
    s.Outcome c.1 (((oneTimeMachine cond start).call c s).1.succeeded isFound)
      ((oneTimeMachine cond start).call c s).2 := by
  obtain ⟨now, c⟩ := c
  cases c with
  | consume => exact s.consume_outcome now
  | consumeIf input => exact hcond now input s
  | peek => exact .kept
  | alarm => exact .deleted

/-- After one success no call succeeds. -/
theorem succeeded_once (hcond : ∀ now i (s : OneTimeStorage T), s.Outcome now (isFound (cond now i s).1) (cond now i s).2)
    {start : OneTimeStorage T} {pre mid : List (Nat × OneTimeCall ι)} {c c' : Nat × OneTimeCall ι}
    (h : ((oneTimeMachine cond start).answer pre c).succeeded isFound = true) :
    ((oneTimeMachine cond start).answer (pre ++ [c] ++ mid) c').succeeded isFound = false := by
  have h1 := call_outcome hcond start c ((oneTimeMachine cond start).run pre)
  rw [show ((oneTimeMachine cond start).call c _).1.succeeded isFound = true from h, ← Machine.run_concat] at h1
  have hg : ((oneTimeMachine cond start).run (pre ++ [c] ++ mid)).Gone :=
    Machine.run_stays (P := OneTimeStorage.Gone)
      (fun c _ s hg => (call_outcome hcond start c s).gone_stays hg) h1.gone_after
  have h2 := call_outcome hcond start c' ((oneTimeMachine cond start).run (pre ++ [c] ++ mid))
  cases hs : ((oneTimeMachine cond start).answer (pre ++ [c] ++ mid) c').succeeded isFound with
  | false => rfl
  | true =>
    rw [show ((oneTimeMachine cond start).call c' _).1.succeeded isFound = true from hs] at h2
    exact absurd hg h2.not_gone

theorem holds_run (hcond : ∀ now i (s : OneTimeStorage T), s.Outcome now (isFound (cond now i s).1) (cond now i s).2)
    (t₀ ttl : Nat) (v : T) (s₀ : OneTimeStorage T) (calls : List (Nat × OneTimeCall ι)) :
    ((oneTimeMachine cond (.store t₀ v ttl s₀)).run calls).Holds v (t₀ + ttl * 1000) := by
  refine Machine.run_inv (I := fun _ (s : OneTimeStorage T) => s.Holds v (t₀ + ttl * 1000)) ?_ ?_ calls
  · rintro now w ⟨-, hv, e, he, hle⟩
    cases hv
    cases he
    exact ⟨rfl, hle⟩
  · intro pre c ih
    exact (call_outcome hcond (.store t₀ v ttl s₀) c _).holds ih

end

theorem peek_iff_consume {T ι ρ : Type} {cond : Nat → ι → OneTimeStorage T → ρ × OneTimeStorage T}
    {start : OneTimeStorage T} (calls : List (Nat × OneTimeCall ι)) (now : Nat) (w : T) :
    (oneTimeMachine cond start).answer calls (now, .peek) = .peek (.found w) ↔
      (oneTimeMachine cond start).answer calls (now, .consume) = .consume (.found w) := by
  show OneTimeAnswer.peek _ = _ ↔ OneTimeAnswer.consume _ = _
  rw [OneTimeStorage.peek_eq_consume, OneTimeAnswer.peek.injEq, OneTimeAnswer.consume.injEq]

/-- A code that no call has taken is still as stored, up to its expiry: wrong guesses, peeks and
alarms that are not yet due leave it alone. -/
theorem code_kept (sha256 : String → List UInt8) (s₀ : OneTimeStorage AuthorizationCodePayload)
    {t₀ ttl now : Nat} (v : AuthorizationCodePayload) (hnow : now ≤ t₀ + ttl * 1000) :
    ∀ calls : List (Nat × OneTimeCall ConsumeIfInput),
      (∀ c ∈ calls, c.1 ≤ now) →
      (∀ t, (t, OneTimeCall.alarm) ∈ calls → t₀ + ttl * 1000 + 60000 ≤ t) →
      (∀ pre c, pre ++ [c] <+: calls →
        ((codeMachine sha256 (.store t₀ v ttl s₀)).answer pre c).succeeded ConsumeIfResult.isFound = false) →
      (codeMachine sha256 (.store t₀ v ttl s₀)).run calls = .store t₀ v ttl s₀ := by
  refine Machine.run_inv (M := codeMachine sha256 (.store t₀ v ttl s₀)) (I := fun calls s => (∀ c ∈ calls, c.1 ≤ now) →
    (∀ t, (t, OneTimeCall.alarm) ∈ calls → t₀ + ttl * 1000 + 60000 ≤ t) →
    (∀ pre c, pre ++ [c] <+: calls →
      ((codeMachine sha256 (.store t₀ v ttl s₀)).answer pre c).succeeded ConsumeIfResult.isFound = false) →
    s = .store t₀ v ttl s₀) (fun _ _ _ => rfl) ?_
  intro pre c ih htime hal hfail
  have hpre := ih (fun c hc => htime c (List.mem_append_left _ hc))
    (fun t ht => hal t (List.mem_append_left _ ht))
    (fun p c hp => hfail p c (hp.trans (List.prefix_append _ _)))
  have hf := hfail pre c (List.prefix_refl _)
  have hle := htime c (by simp)
  unfold Machine.answer at hf
  rw [hpre] at hf ⊢
  obtain ⟨t, c⟩ := c
  have hlive : (OneTimeStorage.store t₀ v ttl s₀).Live t v := ⟨rfl, rfl, _, rfl, le_trans hle hnow⟩
  cases c with
  | consume =>
    have hfound := (OneTimeStorage.peek_eq_consume t _).symm.trans (OneTimeStorage.peek_found.2 hlive)
    simp only [codeMachine, oneTimeMachine, OneTimeAnswer.succeeded, hfound, ConsumeResult.isFound] at hf
    cases hf
  | consumeIf input =>
    rcases consumeIf_live sha256 input hlive with ⟨-, he⟩ | ⟨-, r, he⟩
    · simp only [codeMachine, oneTimeMachine, OneTimeAnswer.succeeded, he, ConsumeIfResult.isFound] at hf
      cases hf
    · show (consumeIf sha256 false t input _).2 = _
      rw [he]
  | peek => rfl
  | alarm =>
    have := hal t (by simp)
    have : t ≤ now := hle
    omega

/-! ## One-time consumption -/

/-- One-time stores are consumed at most once and cannot be burned by wrong guesses. After one
`store` and any calls, for the plain stores and for authorization codes alike: at most one
consumption succeeds; `peek` answers what `consume` would; a failing `consumeIf` and every `peek`
leave the storage unchanged. A `consumeIf` succeeds exactly when the code is live and every binding
is presented, and up to the expiry an untaken code stays redeemable (alarms run no earlier than they
were set for). -/
theorem one_time_consumption (sha256 : String → List UInt8) (t₀ ttl : Nat) :
    (∀ (T : Type) (v : T) (s₀ : OneTimeStorage T) (calls : List (Nat × OneTimeCall Empty)),
      let M := plainMachine (.store t₀ v ttl s₀)
      (∀ pre mid post c c', calls = pre ++ [c] ++ mid ++ [c'] ++ post →
        (M.answer pre c).succeeded Empty.elim = true →
        (M.answer (pre ++ [c] ++ mid) c').succeeded Empty.elim = false) ∧
      (∀ now, M.run (calls ++ [(now, .peek)]) = M.run calls) ∧
      (∀ now w, M.answer calls (now, .peek) = .peek (.found w) ↔ M.answer calls (now, .consume) = .consume (.found w))) ∧
    (∀ (v : AuthorizationCodePayload) (s₀ : OneTimeStorage AuthorizationCodePayload)
      (calls : List (Nat × OneTimeCall ConsumeIfInput)),
      let M := codeMachine sha256 (.store t₀ v ttl s₀)
      (∀ pre mid post c c', calls = pre ++ [c] ++ mid ++ [c'] ++ post →
        (M.answer pre c).succeeded ConsumeIfResult.isFound = true →
        (M.answer (pre ++ [c] ++ mid) c').succeeded ConsumeIfResult.isFound = false) ∧
      (∀ now input w, M.answer calls (now, .consumeIf input) = .consumeIf (.found w) →
        w = v ∧ Presents sha256 v input ∧ now ≤ t₀ + ttl * 1000) ∧
      (∀ now input reason, M.answer calls (now, .consumeIf input) = .consumeIf (.refused reason) →
        M.run (calls ++ [(now, .consumeIf input)]) = M.run calls) ∧
      (∀ now, M.run (calls ++ [(now, .peek)]) = M.run calls) ∧
      (∀ now input, (∀ c ∈ calls, c.1 ≤ now) → now ≤ t₀ + ttl * 1000 →
        (∀ t, (t, .alarm) ∈ calls → t₀ + ttl * 1000 + 60000 ≤ t) →
        (∀ i c, calls[i]? = some c → (M.answer (calls.take i) c).succeeded ConsumeIfResult.isFound = false) →
        Presents sha256 v input → M.answer calls (now, .consumeIf input) = .consumeIf (.found v)) ∧
      (∀ now w, M.answer calls (now, .peek) = .peek (.found w) ↔
        M.answer calls (now, .consume) = .consume (.found w))) := by
  refine ⟨?_, ?_⟩
  -- the plain store
  · intro T v s₀ calls M
    refine ⟨?_, fun now => Machine.run_concat _ _ _, fun now w => peek_iff_consume calls now w⟩
    rintro pre mid post c c' - h
    exact succeeded_once (fun _ i => i.elim) h
  -- the authorization code
  · intro v s₀ calls M
    refine ⟨?_, ?_, ?_, fun now => Machine.run_concat _ _ _, ?_, fun now w => peek_iff_consume calls now w⟩
    · rintro pre mid post c c' - h
      exact succeeded_once (consumeIf_outcome sha256) h
    · intro now input w h
      obtain ⟨hl, hp⟩ := consumeIf_found.1 (OneTimeAnswer.consumeIf.inj h)
      obtain ⟨rfl, hle⟩ := holds_run (consumeIf_outcome sha256) t₀ ttl v s₀ calls now w hl
      exact ⟨rfl, hp, hle⟩
    · intro now input reason h
      rw [Machine.run_concat]
      exact consumeIf_refused (OneTimeAnswer.consumeIf.inj h)
    · intro now input htime hnow hal hfail hp
      -- nothing before it has consumed or swept the code
      have hs := code_kept sha256 s₀ v hnow calls htime hal fun pre c hpre => by
        obtain ⟨post, rfl⟩ := hpre
        simpa using hfail pre.length c (by simp)
      have hl : (OneTimeStorage.store t₀ v ttl s₀).Live now v := ⟨rfl, rfl, _, rfl, hnow⟩
      show OneTimeAnswer.consumeIf (consumeIf sha256 false now input (M.run calls)).1 = _
      rw [hs, consumeIf_found.2 ⟨hl, hp⟩]

/-- The verifier of RFC 7636, appendix B, and its digest. -/
def rfcVerifier : String := "dBjftJeZ4CVP-mB92K27uhbUJU1p1r_wW1gFWFOEjXk"

def rfcDigest (s : String) : List UInt8 :=
  if s = rfcVerifier then
    [19, 211, 30, 150, 26, 26, 216, 236, 47, 22, 177, 12, 76, 152, 46, 8, 118, 168, 120, 173, 109, 241, 68, 86, 110,
      225, 137, 74, 203, 112, 249, 195]
  else []

def rfcPayload : AuthorizationCodePayload :=
  { issuer := "https://auth.example.com", clientId := "client-a", userId := "usr_a",
    redirectUri := "https://app.example.com/cb", scope := "openid", resource := "https://api.example.com",
    resourceRequired := true, metadataFingerprint := none,
    codeChallenge := "E9Melhoa2OwvFrEMTJguCHaoeK1t8URWbuGJSstw-cM", nonce := none, authTime := 100,
    sessionId := "sess_a" }

def rfcInput : ConsumeIfInput :=
  { issuer := "https://auth.example.com", clientId := "client-a", redirectUri := "https://app.example.com/cb",
    resource := some "https://api.example.com", metadataFingerprint := none, codeVerifier := rfcVerifier }

/-- A wrong redirect URI and a peek do not burn the code: the right exchange after them succeeds. -/
theorem one_time_consumption_rfc :
    (codeMachine rfcDigest (.store 1000 rfcPayload 60 .empty)).answer
      [(2000, .consumeIf { rfcInput with redirectUri := "https://evil.example.com" }), (3000, .peek)]
      (4000, .consumeIf rfcInput) = .consumeIf (.found rfcPayload) := by
  have hp : Presents rfcDigest rfcPayload rfcInput :=
    ⟨rfl, rfl, rfl, rfl, Or.inr rfl, by decide, by decide⟩
  refine ((one_time_consumption rfcDigest 1000 60).2 rfcPayload .empty
    [(2000, .consumeIf { rfcInput with redirectUri := "https://evil.example.com" }), (3000, .peek)]).2.2.2.2.1
    4000 rfcInput (by decide) (by decide) (by simp) ?_ hp
  rintro (_ | _ | i) c hc
  · cases hc; decide
  · cases hc; decide
  · cases hc

end Keyforge.Do
