/-
The parts of `security/crypto.ts` and `oauth/pkce.ts` that the modelled paths use: the encoding of a
digest, the constant-time comparison and the PKCE S256 challenge.
SHA-256 itself is the platform's; it appears as a parameter `sha256` from text to bytes.
-/
import Keyforge.Lib.Text
import Keyforge.Utils.Base64Url
import Mathlib.Data.List.Basic
import Mathlib.Tactic

namespace Keyforge.Security

open Lib

/-! ## Comparison -/

/-- The UTF-8 bytes of a text (`new TextEncoder().encode`). -/
def encode (s : String) : List UInt8 :=
  s.toUTF8.data.toList

/-- Byte comparison that does not stop at the first difference. -/
def timingSafeEqual (a b : List UInt8) : Bool :=
  if a.length ≠ b.length then false
  else (List.zipWith (· ^^^ ·) a b).foldl (· ||| ·) 0 == 0

def timingSafeEqualString (a b : String) : Bool :=
  timingSafeEqual (encode a) (encode b)

/-- Exact unpadded base64url syntax for a token generated from this many bytes. -/
def isOpaqueToken (value : String) (byteLength : Nat) : Bool :=
  value.length = (byteLength * 4 + 2) / 3 && !value.toList.isEmpty &&
    value.toList.all fun c => c.isAlphanum || c = '_' || c = '-'

theorem or_foldl_eq_zero (l : List UInt8) (d : UInt8) :
    l.foldl (· ||| ·) d = 0 ↔ d = 0 ∧ ∀ x ∈ l, x = 0 := by
  induction l generalizing d with
  | nil => simp
  | cons x l ih =>
    rw [List.foldl_cons, ih, List.forall_mem_cons, UInt8.or_eq_zero_iff, and_assoc]

theorem zipWith_xor_zero : ∀ {a b : List UInt8}, a.length = b.length →
    ((∀ x ∈ List.zipWith (· ^^^ ·) a b, x = 0) ↔ a = b)
  | [], [], _ => by simp
  | x :: a, y :: b, h => by
    have h' : a.length = b.length := by simpa using h
    rw [List.zipWith_cons_cons, List.forall_mem_cons, zipWith_xor_zero h', UInt8.xor_eq_zero_iff, List.cons.injEq]

@[simp] theorem timingSafeEqual_iff (a b : List UInt8) : timingSafeEqual a b = true ↔ a = b := by
  unfold timingSafeEqual
  split
  · rename_i h
    simp only [Bool.false_eq_true, false_iff]
    exact fun he => h (congrArg _ he)
  · rename_i h
    rw [beq_iff_eq, or_foldl_eq_zero, zipWith_xor_zero (not_not.1 h)]
    simp

theorem encode_inj {a b : String} : encode a = encode b ↔ a = b := by
  constructor
  · intro h
    apply String.toByteArray_inj.1
    apply ByteArray.ext
    exact Array.toList_inj.1 h
  · rintro rfl
    rfl

@[simp] theorem timingSafeEqualString_iff (a b : String) : timingSafeEqualString a b = true ↔ a = b := by
  rw [timingSafeEqualString, timingSafeEqual_iff, encode_inj]

/-! ## The encoding of a digest -/

def hexDigits : List Char := "0123456789abcdef".toList

/-- `bytesToHex`: two lowercase digits a byte. -/
def bytesToHex (bytes : List UInt8) : String :=
  String.ofList (bytes.flatMap fun b => [hexDigits.getD (b.toNat / 16) '0', hexDigits.getD (b.toNat % 16) '0'])

/-! ## PKCE -/

/-- A character of RFC 7636's unreserved set, `[A-Za-z0-9\-._~]`. -/
def isUnreserved (c : Char) : Bool :=
  isAlphanumeric c || ['-', '.', '_', '~'].contains c

/-- `CODE_VERIFIER_PATTERN`: 43 to 128 unreserved characters. -/
def isValidCodeVerifier (verifier : String) : Bool :=
  verifier.toList.all isUnreserved && 43 ≤ verifier.toList.length && verifier.toList.length ≤ 128

/-- `S256_CHALLENGE_PATTERN`: 43 characters of base64url. -/
def isValidS256Challenge (challenge : String) : Bool :=
  challenge.toList.length = 43 && challenge.toList.all fun c => isAlphanumeric c || ['_', '-'].contains c

section

variable (sha256 : String → List UInt8)

/-- `sha256Hex`, also the at-rest form of an opaque token. -/
def sha256Hex (data : String) : String :=
  bytesToHex (sha256 data)

/-- `BASE64URL(SHA256(verifier))`. -/
def computeS256Challenge (verifier : String) : String :=
  Utils.base64UrlEncode (sha256 verifier)

end

end Keyforge.Security
