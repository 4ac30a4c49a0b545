/-
Random tokens (`utils/random.ts`). A token is drawn in one call of the runtime, which draws up to 65536 bytes
and throws above that; one that is drawn has the shape that is asked of it.
-/
import Keyforge.Security.Crypto
import Mathlib.Algebra.Order.Floor.Semiring

namespace Keyforge.Utils

open Security

/-- As many bytes as one call of `crypto.getRandomValues` fills. -/
def RANDOM_QUOTA : Nat := 65536

/-- The parameter is the runtime's source of random bytes. `none` where the runtime throws, since there is
no array of this length or its length is over the quota (`QuotaExceededError`). -/
def randomBytes (getRandomValues : (length : Nat) → { bytes : List UInt8 // bytes.length = length }) (length : Nat) :
    Option { bytes : List UInt8 // bytes.length = length } :=
  if length ≤ RANDOM_QUOTA then some (getRandomValues length) else none

def randomToken (getRandomValues : (length : Nat) → { bytes : List UInt8 // bytes.length = length }) (byteLength : Nat) :
    Option String :=
  (randomBytes getRandomValues byteLength).map fun bytes => base64UrlEncode bytes.val

/-- The token where the runtime draws it. -/
def drawnToken (getRandomValues : (length : Nat) → { bytes : List UInt8 // bytes.length = length }) (byteLength : Nat) : String :=
  base64UrlEncode (getRandomValues byteLength).val

section

variable (getRandomValues : (length : Nat) → { bytes : List UInt8 // bytes.length = length }) {n : Nat}

theorem randomToken_eq (h : n ≤ RANDOM_QUOTA) : randomToken getRandomValues n = some (drawnToken getRandomValues n) := by
  rw [randomToken, randomBytes, if_pos h]
  rfl

theorem randomToken_none (h : RANDOM_QUOTA < n) : randomToken getRandomValues n = none := by
  rw [randomToken, randomBytes, if_neg (Nat.not_le.2 h)]
  rfl

end

theorem ceil_eq (n : Nat) : ⌈(4 * n : ℚ) / 3⌉₊ = (n * 4 + 2) / 3 := by
  apply le_antisymm
  · have hle : 4 * n ≤ (n * 4 + 2) / 3 * 3 := by omega
    rw [Nat.ceil_le, div_le_iff₀ (by norm_num)]
    exact_mod_cast hle
  · by_cases hzero : n = 0
    · simp [hzero]
    · have hlt : ((n * 4 + 2) / 3 - 1) * 3 < 4 * n := by omega
      have hceil : (n * 4 + 2) / 3 - 1 < ⌈(4 * n : ℚ) / 3⌉₊ := by
        rw [Nat.lt_ceil, lt_div_iff₀ (by norm_num)]
        exact_mod_cast hlt
      omega

theorem isOpaqueToken_base64UrlEncode {bytes : List UInt8} (h : bytes ≠ []) :
    isOpaqueToken (base64UrlEncode bytes) bytes.length = true := by
  have hlength : (base64UrlEncode bytes).length = (bytes.length * 4 + 2) / 3 := by
    rw [← String.length_toList, length_base64UrlEncode]
  have hne : (base64UrlEncode bytes).toList ≠ [] := by
    have hpositive := List.length_pos_iff.2 h
    rw [← List.length_pos_iff, length_base64UrlEncode]
    omega
  unfold isOpaqueToken
  simp only [Bool.and_eq_true, decide_eq_true_eq, List.all_eq_true, Bool.not_eq_true', List.isEmpty_eq_false_iff]
  exact ⟨⟨hlength, hne⟩, fun c hc => base64UrlEncode_chars hc⟩

/-- What is encoded decodes to the same bytes, in digits of base64url only and four for three bytes, rounded
up; a random token is opaque, if there are no more bytes than the runtime draws at once; and what the encoder
wrote is written again from what it decodes to. -/
theorem base64Url_codec :
    (∀ bytes, base64UrlDecode (base64UrlEncode bytes) = some bytes ∧
      (∀ c ∈ (base64UrlEncode bytes).toList, (c.isAlphanum || c = '_' || c = '-') = true) ∧
      (base64UrlEncode bytes).length = ⌈(4 * bytes.length : ℚ) / 3⌉₊) ∧
    (∀ getRandomValues n, 1 ≤ n →
      (n ≤ 65536 → ∃ token, randomToken getRandomValues n = some token ∧ isOpaqueToken token n = true) ∧
      (65536 < n → randomToken getRandomValues n = none)) ∧
    ∀ s ∈ Set.range base64UrlEncode, (base64UrlDecode s).map base64UrlEncode = some s := by
  refine ⟨fun bytes => ⟨base64UrlDecode_encode bytes, fun c hc => base64UrlEncode_chars hc, ?_⟩, ?_, ?_⟩
  · rw [← String.length_toList, length_base64UrlEncode, ceil_eq]
  · intro getRandomValues n hn
    refine ⟨fun hquota => ⟨_, randomToken_eq getRandomValues hquota, ?_⟩, fun hover => randomToken_none getRandomValues hover⟩
    have hlength := (getRandomValues n).property
    have hne : (getRandomValues n).val ≠ [] := by
      rw [← List.length_pos_iff, hlength]
      exact hn
    have htoken := isOpaqueToken_base64UrlEncode hne
    rwa [hlength] at htoken
  · rintro _ ⟨bytes, rfl⟩
    rw [base64UrlDecode_encode, Option.map_some]

/-- One byte more than the runtime draws at once, and there is no token. -/
theorem randomToken_over_quota :
    ¬∃ token, randomToken (fun length => ⟨List.replicate length 0, List.length_replicate⟩) 65537 = some token ∧
      isOpaqueToken token 65537 = true := by
  rintro ⟨token, htoken, -⟩
  rw [randomToken_none _ (by decide)] at htoken
  cases htoken

end Keyforge.Utils
