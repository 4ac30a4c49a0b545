/-
base64url without padding (`utils/base64url.ts`). It is base64 with two other digits and without the fill;
the decoder puts both back. So what is encoded decodes, and the length of the text is a third more than that
of the bytes.
-/
import Keyforge.Lib.Base64

namespace Keyforge.Utils

open Lib

/-! ## The codec -/

def base64UrlEncode (bytes : List UInt8) : String :=
  let text := (Base64.btoa bytes).map fun c => if c = '+' then '-' else c
  let text := text.map fun c => if c = '/' then '_' else c
  -- `replace(/=+$/, "")`
  String.ofList (text.rdropWhile (· = '='))

/-- `none` where `atob` throws. -/
def base64UrlDecode (input : String) : Option (List UInt8) :=
  let normalized := (input.toList.map fun c => if c = '-' then '+' else c).map fun c => if c = '_' then '/' else c
  let remainder := normalized.length % 4
  let padded := if remainder = 0 then normalized else normalized ++ List.replicate (4 - remainder) '='
  Base64.atob padded

/-! ## The digits -/

/-- A digit of base64url for a digit of base64. -/
def toUrl (c : Char) : Char :=
  if (if c = '+' then '-' else c) = '/' then '_' else if c = '+' then '-' else c

def ofUrl (c : Char) : Char :=
  if (if c = '-' then '+' else c) = '_' then '/' else if c = '-' then '+' else c

theorem ofUrl_toUrl : ∀ c ∈ Base64.alphabet, ofUrl (toUrl c) = c ∧ toUrl c ≠ '=' ∧
    ((toUrl c).isAlphanum || toUrl c = '_' || toUrl c = '-') = true :=
  List.all_iff_forall_prop.1 (by decide +kernel)

/-- The digits that encode the bytes. -/
def urlDigits (bytes : List UInt8) : List Char :=
  (Base64.sextets bytes).map (toUrl ∘ Base64.digit)

theorem mem_urlDigits {bytes : List UInt8} {c : Char} (h : c ∈ urlDigits bytes) : ∃ d ∈ Base64.alphabet, toUrl d = c := by
  obtain ⟨n, -, rfl⟩ := List.mem_map.1 h
  exact ⟨_, Base64.digit_mem n, rfl⟩

/-- The fill goes, the digits stay. -/
theorem toList_base64UrlEncode (bytes : List UInt8) : (base64UrlEncode bytes).toList = urlDigits bytes := by
  have htext : ((Base64.btoa bytes).map fun c => if c = '+' then '-' else c).map (fun c => if c = '/' then '_' else c) =
      urlDigits bytes ++ List.replicate ((3 - bytes.length % 3) % 3) '=' := by
    rw [Base64.btoa, Base64.fill, List.map_append, List.map_append, List.map_replicate, List.map_replicate, List.map_map, List.map_map]
    rfl
  unfold base64UrlEncode
  dsimp only
  rw [htext, String.toList_ofList, rdropWhile_replicate]
  intro c hc
  obtain ⟨d, hd, rfl⟩ := mem_urlDigits hc
  exact (ofUrl_toUrl d hd).2.1

/-- The decoder reckons the fill from the digits as the encoder did from the bytes. -/
theorem fill_eq {n : Nat} (h : (n * 4 + 2) / 3 % 4 ≠ 0) : 4 - (n * 4 + 2) / 3 % 4 = (3 - n % 3) % 3 := by
  obtain ⟨k, r, hr, rfl⟩ : ∃ k r, r < 3 ∧ n = 3 * k + r := ⟨n / 3, n % 3, by omega, by omega⟩
  have hdigits : ((3 * k + r) * 4 + 2) / 3 = 4 * k + (r * 4 + 2) / 3 := by omega
  rw [hdigits] at h ⊢
  interval_cases r <;> omega

theorem base64UrlDecode_encode (bytes : List UInt8) : base64UrlDecode (base64UrlEncode bytes) = some bytes := by
  have hnormal : ((urlDigits bytes).map fun c => if c = '-' then '+' else c).map (fun c => if c = '_' then '/' else c) =
      (Base64.sextets bytes).map Base64.digit := by
    have hof : ((fun c => if c = '_' then '/' else c) ∘ fun c => if c = '-' then '+' else c) = ofUrl := rfl
    rw [urlDigits, List.map_map, List.map_map, hof, List.map_inj_left]
    intro n _
    rw [Function.comp_apply, Function.comp_apply, (ofUrl_toUrl _ (Base64.digit_mem n)).1]
  have hlength := Base64.length_sextets bytes
  have hpadded : ∀ n, n = (3 - bytes.length % 3) % 3 →
      (Base64.sextets bytes).map Base64.digit ++ List.replicate n '=' = Base64.btoa bytes := by
    rintro n rfl
    rfl
  unfold base64UrlDecode
  dsimp only
  rw [toList_base64UrlEncode, hnormal, List.length_map, hlength]
  split
  · rename_i hwhole
    have hnone := hpadded 0 (by omega)
    rw [List.replicate_zero, List.append_nil] at hnone
    rw [hnone, Base64.atob_btoa]
  · rename_i hpart
    rw [hpadded _ (fill_eq hpart), Base64.atob_btoa]

theorem length_base64UrlEncode (bytes : List UInt8) : (base64UrlEncode bytes).toList.length = (bytes.length * 4 + 2) / 3 := by
  rw [toList_base64UrlEncode, urlDigits, List.length_map, Base64.length_sextets]

theorem base64UrlEncode_chars {bytes : List UInt8} {c : Char} (h : c ∈ (base64UrlEncode bytes).toList) :
    (c.isAlphanum || c = '_' || c = '-') = true := by
  rw [toList_base64UrlEncode] at h
  obtain ⟨d, hd, rfl⟩ := mem_urlDigits h
  exact (ofUrl_toUrl d hd).2.2

end Keyforge.Utils
