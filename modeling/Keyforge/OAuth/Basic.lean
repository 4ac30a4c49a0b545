/-
HTTP Basic credentials of a client, as the token and introspection endpoints read them
(`oauth/clients.ts`).
-/
import Keyforge.Lib.Base64
import Keyforge.Lib.Utf8
import Keyforge.OAuth.RequestLimits
import Keyforge.OAuth.Scopes

namespace Keyforge.OAuth

open Lib

def OAUTH_STATIC_CLIENT_ID_MAX_BYTES : Nat := 128

/-- Largest Base64 payload that can contain a bounded `client_id:client_secret` pair. -/
def OAUTH_BASIC_CREDENTIALS_MAX_ENCODED_BYTES : Nat :=
  4 * ((OAUTH_STATIC_CLIENT_ID_MAX_BYTES + 1 + OAUTH_CLIENT_SECRET_MAX_BYTES + 2) / 3)

structure BasicCredentials where
  clientId : String
  clientSecret : String
  deriving DecidableEq, Repr

/-- `/^[A-Za-z0-9+/]*={0,2}$/.test`. -/
def matchesBase64 (text : List Char) : Bool :=
  let digits := text.rdropWhile (· = '=')
  digits.all Base64.alphabet.contains && text.length - digits.length ≤ 2

/-- `new TextDecoder().decode`, which drops a byte order mark. -/
def decodeText (bytes : List UInt8) : List Char :=
  match bytes.map UInt8.toNat with
  | 0xEF :: 0xBB :: 0xBF :: rest => utf8Decode none rest
  | bytes => utf8Decode none bytes

def decodeBasic (env : Env) (header : String) : Option BasicCredentials :=
  let encoded := trimText (dropUnits 6 header.toList)
  if encoded.isEmpty || encoded.length > OAUTH_BASIC_CREDENTIALS_MAX_ENCODED_BYTES || !matchesBase64 encoded then none
  else
    match Base64.atob encoded with
    | none => none
    | some bytes =>
      match cutAt ':' (decodeText bytes) with
      | (_, none) => none
      | (clientId, some clientSecret) =>
        let clientId := String.ofList clientId
        let clientSecret := String.ofList clientSecret
        if validateOAuthParameter env "client_id" clientId ≠ none ||
            validateOAuthParameter env "client_secret" clientSecret ≠ none then none
        else some { clientId, clientSecret }

/-! ## What it reads -/

theorem decodeText_ascii {text : List Char} (h : ∀ c ∈ text, c.toNat < 0x80) :
    decodeText (text.map fun c => UInt8.ofNat c.toNat) = text := by
  have hbytes : (text.map fun c => UInt8.ofNat c.toNat).map UInt8.toNat = text.map Char.toNat := by
    rw [List.map_map, List.map_inj_left]
    intro c hc
    have hlt := h c hc
    simp only [Function.comp_apply, UInt8.toNat_ofNat']
    omega
  unfold decodeText
  rw [hbytes]
  split
  · -- a byte order mark is not ASCII
    rename_i rest heq
    cases text with
    | nil => cases heq
    | cons c text =>
      have hlt := h c List.mem_cons_self
      have hfirst : c.toNat = 0xEF := (List.cons.inj heq).1
      omega
  · exact utf8Decode_ascii h

/-- Base64 text has the shape that is asked for. -/
theorem matchesBase64_btoa (bytes : List UInt8) : matchesBase64 (Base64.btoa bytes) = true := by
  have hdigits : (Base64.btoa bytes).rdropWhile (· = '=') = (Base64.sextets bytes).map Base64.digit := by
    rw [Base64.btoa, Base64.fill]
    refine rdropWhile_replicate (fun c hc => ?_) _
    obtain ⟨n, -, rfl⟩ := List.mem_map.1 hc
    exact (Base64.alphabet_plain _ (Base64.digit_mem n)).1
  unfold matchesBase64
  dsimp only
  rw [hdigits, Bool.and_eq_true, List.all_eq_true, decide_eq_true_eq]
  constructor
  · intro c hc
    obtain ⟨n, -, rfl⟩ := List.mem_map.1 hc
    exact List.contains_iff_mem.2 (Base64.digit_mem n)
  · rw [Base64.btoa, Base64.fill, List.length_append, List.length_replicate]
    omega

/-- No character of Base64 text is white space to `trim()`. -/
theorem btoa_plain {bytes : List UInt8} {c : Char} (h : c ∈ Base64.btoa bytes) : isWhiteSpace c = false := by
  have hchars : ∀ c ∈ '=' :: Base64.alphabet, isWhiteSpace c = false :=
    List.all_iff_forall_prop.1 (by decide +kernel)
  refine hchars c ?_
  rcases List.mem_append.1 h with h | h
  · obtain ⟨n, -, rfl⟩ := List.mem_map.1 h
    exact List.mem_cons_of_mem _ (Base64.digit_mem n)
  · rw [List.eq_of_mem_replicate h]
    exact List.mem_cons_self

end Keyforge.OAuth
