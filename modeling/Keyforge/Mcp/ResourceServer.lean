/-
The credentials that the MCP adapter presents to the introspection endpoint (`mcp/resource-server.ts`). The
server reads every pair it admits back as it was: the bounds and the alphabet it checks leave room for the
longest of them.
-/
import Keyforge.OAuth.Basic

namespace Keyforge.Mcp

open Lib OAuth

/-- The `authorization` header of `authorizeMcpRequest`; `none` where `btoa` throws. -/
def basicAuthorization (clientId clientSecret : String) : Option String :=
  let credentials := clientId.toList ++ ':' :: clientSecret.toList
  if credentials.all fun c => c.toNat ≤ 0xFF then
    some (String.ofList ("Basic ".toList ++ Base64.btoa (credentials.map fun c => UInt8.ofNat c.toNat)))
  else none

/-! ## What the parts admit -/

theorem isAlphanumeric_ascii {c : Char} (h : isAlphanumeric c = true) : c.toNat < 0x80 ∧ c ≠ ':' := by
  have hle : ∀ {a b : Char}, a ≤ b → a.toNat ≤ b.toNat := fun h => h
  simp only [isAlphanumeric, Bool.or_eq_true, Bool.and_eq_true, decide_eq_true_eq] at h
  constructor
  · rcases h with (⟨-, h⟩ | ⟨-, h⟩) | ⟨-, h⟩
    · exact Nat.lt_of_le_of_lt (hle h) (by decide)
    · exact Nat.lt_of_le_of_lt (hle h) (by decide)
    · exact Nat.lt_of_le_of_lt (hle h) (by decide)
  · rintro rfl
    revert h
    decide

/-- A static client id is short and has no colon. -/
theorem matchesStaticClientId_chars {clientId : String} (h : matchesStaticClientId clientId = true) :
    1 ≤ clientId.toList.length ∧ clientId.toList.length ≤ 128 ∧ ∀ c ∈ clientId.toList, c.toNat < 0x80 ∧ c ≠ ':' := by
  unfold matchesStaticClientId at h
  split at h
  · cases h
  · rename_i c cs heq
    rw [heq]
    simp only [Bool.and_eq_true, decide_eq_true_eq, List.all_eq_true, Bool.or_eq_true, List.contains_iff_mem] at h
    obtain ⟨⟨hfirst, hlength⟩, hrest⟩ := h
    refine ⟨by simp, by simp; omega, ?_⟩
    rw [List.forall_mem_cons]
    refine ⟨isAlphanumeric_ascii hfirst, fun c hc => ?_⟩
    rcases hrest c hc with hc | hc
    · exact isAlphanumeric_ascii hc
    · have hpunctuation : ∀ c ∈ ['.', '_', '~', '-'], c.toNat < 0x80 ∧ c ≠ ':' := List.all_iff_forall_prop.1 (by decide)
      exact hpunctuation c hc

theorem validateOAuthParameter_clientId (env : Env) {clientId : String} (h : matchesStaticClientId clientId = true) :
    validateOAuthParameter env "client_id" clientId = none := by
  obtain ⟨-, hlength, hchars⟩ := matchesStaticClientId_chars h
  have hsize : clientId.utf8ByteSize ≤ 2048 := by
    rw [utf8ByteSize_ascii fun c hc => (hchars c hc).1, ← String.length_toList]
    omega
  have hname : (decide ("client_id" = "") || decide ("client_id".utf8ByteSize > OAUTH_PARAMETER_NAME_MAX_BYTES) ||
      !matchesParameterName "client_id") = false := by decide
  have hmaximum : (OAUTH_PARAMETER_MAX_BYTES.lookup "client_id").getD OAUTH_PARAMETER_DEFAULT_MAX_BYTES = 2048 := by decide
  have hproperty : OBJECT_PROPERTIES.contains "client_id" = false := by decide
  unfold validateOAuthParameter
  rw [hname, hproperty, hmaximum]
  simp [isValidOAuthClientId, h, hsize]

theorem validateOAuthParameter_clientSecret (env : Env) {clientSecret : String} (hascii : ∀ c ∈ clientSecret.toList, c.toNat < 0x80)
    (hlength : clientSecret.length ≤ 512) : validateOAuthParameter env "client_secret" clientSecret = none := by
  have hsize : clientSecret.utf8ByteSize ≤ 512 := by
    rw [utf8ByteSize_ascii hascii]
    exact hlength
  have hname : (decide ("client_secret" = "") || decide ("client_secret".utf8ByteSize > OAUTH_PARAMETER_NAME_MAX_BYTES) ||
      !matchesParameterName "client_secret") = false := by decide
  have hmaximum : (OAUTH_PARAMETER_MAX_BYTES.lookup "client_secret").getD OAUTH_PARAMETER_DEFAULT_MAX_BYTES = 512 := by decide
  have hproperty : OBJECT_PROPERTIES.contains "client_secret" = false := by decide
  unfold validateOAuthParameter
  rw [hname, hproperty, hmaximum]
  simp [hsize]

/-! ## The round trip -/

/-- Every pair of a static client id and an ASCII secret of at most 512 characters is read back. -/
theorem decodeBasic_basicAuthorization (env : Env) {clientId clientSecret : String} (hid : matchesStaticClientId clientId = true)
    (hascii : ∀ c ∈ clientSecret.toList, c.toNat < 0x80) (hlength : clientSecret.length ≤ 512) :
    ∃ header, basicAuthorization clientId clientSecret = some header ∧
      decodeBasic env header = some { clientId, clientSecret } := by
  obtain ⟨hpositive, hshort, hchars⟩ := matchesStaticClientId_chars hid
  have hcredentials : ∀ c ∈ clientId.toList ++ ':' :: clientSecret.toList, c.toNat < 0x80 := by
    rw [List.forall_mem_append, List.forall_mem_cons]
    exact ⟨fun c hc => (hchars c hc).1, by decide, hascii⟩
  have hall : ((clientId.toList ++ ':' :: clientSecret.toList).all fun c => c.toNat ≤ 0xFF) = true := by
    rw [List.all_eq_true]
    intro c hc
    have hlt := hcredentials c hc
    rw [decide_eq_true_eq]
    omega
  refine ⟨_, if_pos hall, ?_⟩
  generalize hbytes : (clientId.toList ++ ':' :: clientSecret.toList).map (fun c => UInt8.ofNat c.toNat) = bytes
  have hcount : bytes.length = clientId.toList.length + clientSecret.length + 1 := by
    rw [← hbytes, List.length_map, List.length_append, List.length_cons, String.length_toList, String.length_toList, Nat.add_assoc]
  have hencoded : trimText (dropUnits 6 (String.ofList ("Basic ".toList ++ Base64.btoa bytes)).toList) = Base64.btoa bytes := by
    have hscheme : "Basic ".toList = ['B', 'a', 's', 'i', 'c', ' '] := by decide
    have hdrop : ∀ text, dropUnits 0 text = text := by
      intro text
      cases text <;> rfl
    rw [String.toList_ofList, hscheme]
    show trimText (dropUnits 0 (Base64.btoa bytes)) = _
    rw [hdrop]
    exact trimText_eq_self fun c hc => btoa_plain hc
  -- the longest pair has 641 characters, and its text 856
  have hbound : (Base64.btoa bytes).length ≤ OAUTH_BASIC_CREDENTIALS_MAX_ENCODED_BYTES := by
    have hmaximum : OAUTH_BASIC_CREDENTIALS_MAX_ENCODED_BYTES = 856 := by decide
    rw [Base64.length_btoa, hmaximum]
    omega
  have hne : (Base64.btoa bytes).isEmpty = false := by
    rw [List.isEmpty_eq_false_iff, ← List.length_pos_iff, Base64.length_btoa]
    omega
  have hdecoded : decodeText bytes = clientId.toList ++ ':' :: clientSecret.toList := by
    rw [← hbytes]
    exact decodeText_ascii hcredentials
  have hsplit : cutAt ':' (decodeText bytes) = (clientId.toList, some clientSecret.toList) := by
    rw [hdecoded]
    exact cutAt_append clientSecret.toList fun c hc => (hchars c hc).2
  unfold decodeBasic
  dsimp only
  rw [hencoded, hne, matchesBase64_btoa, if_neg (by simp; exact hbound), Base64.atob_btoa]
  dsimp only
  rw [hsplit]
  dsimp only
  rw [String.ofList_toList, String.ofList_toList, validateOAuthParameter_clientId env hid,
    validateOAuthParameter_clientSecret env hascii hlength]
  rfl

theorem decodeBasic_basicAuthorization_sample : ∃ header, basicAuthorization "mcp-server" "a:b" = some header ∧
    decodeBasic (.sample []) header = some { clientId := "mcp-server", clientSecret := "a:b" } :=
  decodeBasic_basicAuthorization (.sample []) (by decide) (List.all_iff_forall_prop.1 (by decide)) (by decide)

end Keyforge.Mcp
