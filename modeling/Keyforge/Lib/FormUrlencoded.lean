/-
`application/x-www-form-urlencoded`, as the URL standard has it: the serializer and the parser of lists of
names and values. What was serialized reads back, and it is written with characters that a query may hold.
-/
import Keyforge.Lib.Url

namespace Keyforge.Lib

/-! ## Percent-decoding -/

def hexDigitValue (c : Char) : Option Nat :=
  if '0' ≤ c ∧ c ≤ '9' then some (c.toNat - 0x30)
  else if 'A' ≤ c ∧ c ≤ 'F' then some (c.toNat - 0x37)
  else if 'a' ≤ c ∧ c ≤ 'f' then some (c.toNat - 0x57)
  else none

/-- The bytes that a text stands for. -/
def percentDecode : List Char → List Nat
  | '%' :: a :: b :: rest =>
    match hexDigitValue a, hexDigitValue b with
    | some x, some y => (x * 16 + y) :: percentDecode rest
    | _, _ => 0x25 :: percentDecode (a :: b :: rest)
  | c :: rest => utf8Encode c ++ percentDecode rest
  | [] => []

theorem hexDigitValue_upperHexDigit : ∀ d < 16, hexDigitValue (upperHexDigit d) = some d := by decide

theorem percentDecode_byte {b : Nat} (hb : b < 256) (rest : List Char) :
    percentDecode (percentEncodeByte b ++ rest) = b :: percentDecode rest := by
  have hhigh := hexDigitValue_upperHexDigit (b / 16) (by omega)
  have hlow := hexDigitValue_upperHexDigit (b % 16) (by omega)
  rw [percentEncodeByte, List.cons_append, List.cons_append, List.singleton_append, percentDecode, hhigh, hlow]
  dsimp only
  rw [Nat.div_add_mod']

theorem percentDecode_bytes : ∀ {bytes : List Nat}, (∀ b ∈ bytes, b < 256) → ∀ rest : List Char,
    percentDecode (bytes.flatMap percentEncodeByte ++ rest) = bytes ++ percentDecode rest
  | [], _, _ => rfl
  | b :: bytes, h, rest => by
    obtain ⟨hb, hbytes⟩ := List.forall_mem_cons.1 h
    rw [List.flatMap_cons, List.append_assoc, percentDecode_byte hb, percentDecode_bytes hbytes, List.cons_append]

theorem percentDecode_plain {c : Char} (h : c ≠ '%') (rest : List Char) :
    percentDecode (c :: rest) = utf8Encode c ++ percentDecode rest := by
  rw [percentDecode]
  exact fun _ _ _ heq => absurd heq h

/-! ## Names and values -/

/-- The characters that are percent-encoded; the space is written as a plus sign. -/
def formSet (c : Char) : Bool :=
  !(('A' ≤ c && c ≤ 'Z') || ('a' ≤ c && c ≤ 'z') || ('0' ≤ c && c ≤ '9') || ['*', '-', '.', '_'].contains c)

def formEncodeChar (c : Char) : List Char :=
  if c = ' ' then ['+'] else if formSet c then (utf8Encode c).flatMap percentEncodeByte else [c]

def formEncode (text : List Char) : List Char :=
  text.flatMap formEncodeChar

def plusToSpace (text : List Char) : List Char :=
  text.map fun c => if c = '+' then ' ' else c

def formDecode (text : List Char) : List Char :=
  utf8Decode none (percentDecode (plusToSpace text))

/-- One name and its value, as they are written. -/
def formPair (pair : String × String) : List Char :=
  formEncode pair.1.toList ++ '=' :: formEncode pair.2.toList

/-- `URLSearchParams`'s `toString`. -/
def formSerialize (pairs : List (String × String)) : List Char :=
  ['&'].intercalate (pairs.map formPair)

/-- The names and values of a query. -/
def formParse (query : List Char) : List (String × String) :=
  ((query.splitOn '&').filter (· ≠ [])).map fun piece =>
    let (name, value) := cutAt '=' piece
    (String.ofList (formDecode name), String.ofList (formDecode (value.getD [])))

/-! ## Reading back -/

theorem upperHexDigit_ne_plus : ∀ d < 16, upperHexDigit d ≠ '+' := by decide

theorem plusToSpace_append (text rest : List Char) : plusToSpace (text ++ rest) = plusToSpace text ++ plusToSpace rest :=
  List.map_append

theorem plusToSpace_bytes : ∀ {bytes : List Nat}, (∀ b ∈ bytes, b < 256) →
    plusToSpace (bytes.flatMap percentEncodeByte) = bytes.flatMap percentEncodeByte
  | [], _ => rfl
  | b :: bytes, h => by
    obtain ⟨hb, hbytes⟩ := List.forall_mem_cons.1 h
    have hbyte : plusToSpace (percentEncodeByte b) = percentEncodeByte b := by
      have hhigh := upperHexDigit_ne_plus (b / 16) (by omega)
      have hlow := upperHexDigit_ne_plus (b % 16) (by omega)
      simp [plusToSpace, percentEncodeByte, hhigh, hlow]
    rw [List.flatMap_cons, plusToSpace_append, hbyte, plusToSpace_bytes hbytes]

/-- A character that is written as it is. -/
theorem ne_of_formSet {c : Char} (h : formSet c = false) : ∀ d ∈ ['%', '+', '&', '='], c ≠ d := by
  rintro d hd rfl
  simp only [List.mem_cons, List.not_mem_nil, or_false] at hd
  rcases hd with rfl | rfl | rfl | rfl <;> revert h <;> decide

theorem percentDecode_encodeChar (c : Char) (rest : List Char) :
    percentDecode (plusToSpace (formEncodeChar c ++ rest)) = utf8Encode c ++ percentDecode (plusToSpace rest) := by
  rw [plusToSpace_append]
  unfold formEncodeChar
  split
  · next hspace =>
    subst hspace
    exact percentDecode_plain (by decide) _
  · split
    · rw [plusToSpace_bytes (utf8Encode_lt c), percentDecode_bytes (utf8Encode_lt c)]
    · next hset =>
      have hne := ne_of_formSet (Bool.eq_false_iff.2 hset)
      have hsame : plusToSpace [c] = [c] := by simp [plusToSpace, hne '+' (by decide)]
      rw [hsame]
      exact percentDecode_plain (hne '%' (by decide)) _

theorem percentDecode_encode : ∀ text : List Char, percentDecode (plusToSpace (formEncode text)) = text.flatMap utf8Encode
  | [] => rfl
  | c :: text => by
    rw [formEncode, List.flatMap_cons, percentDecode_encodeChar, List.flatMap_cons]
    exact congrArg _ (percentDecode_encode text)

@[simp] theorem formDecode_encode (text : List Char) : formDecode (formEncode text) = text := by
  rw [formDecode, percentDecode_encode, utf8Decode_encode]

/-- A character that is written as it is may stand in a query. -/
theorem specialQuerySet_of_formSet {c : Char} (h : formSet c = false) : specialQuerySet c = false := by
  have hlt : c.toNat < 128 := by
    simp only [formSet, Bool.not_eq_false', Bool.or_eq_true, Bool.and_eq_true, decide_eq_true_eq, List.contains_eq_mem] at h
    rcases h with ((h | h) | h) | h
    · exact lt_of_le_of_lt (show c.toNat ≤ 'Z'.toNat from h.2) (by decide)
    · exact lt_of_le_of_lt (show c.toNat ≤ 'z'.toNat from h.2) (by decide)
    · exact lt_of_le_of_lt (show c.toNat ≤ '9'.toNat from h.2) (by decide)
    · simp only [List.mem_cons, List.not_mem_nil, or_false] at h
      rcases h with rfl | rfl | rfl | rfl <;> decide
  have hall : ∀ n < 128, formSet (Char.ofNat n) = false → specialQuerySet (Char.ofNat n) = false := by decide
  have := hall c.toNat hlt
  rw [Char.ofNat_toNat] at this
  exact this h

/-- What is written is visible and separates nothing. -/
structure FormChar (c : Char) : Prop where
  query : specialQuerySet c = false
  amp : c ≠ '&'
  equals : c ≠ '='

theorem formChar_byte {b : Nat} (hb : b < 256) : ∀ c ∈ percentEncodeByte b, FormChar c := by
  have hdigit : ∀ d < 16, specialQuerySet (upperHexDigit d) = false ∧ upperHexDigit d ≠ '&' ∧ upperHexDigit d ≠ '=' := by
    decide
  intro c hc
  simp only [percentEncodeByte, List.mem_cons, List.not_mem_nil, or_false] at hc
  rcases hc with rfl | rfl | rfl
  · exact ⟨by decide, by decide, by decide⟩
  · obtain ⟨h1, h2, h3⟩ := hdigit (b / 16) (by omega)
    exact ⟨h1, h2, h3⟩
  · obtain ⟨h1, h2, h3⟩ := hdigit (b % 16) (by omega)
    exact ⟨h1, h2, h3⟩

theorem formChar_encode {text : List Char} {c : Char} (h : c ∈ formEncode text) : FormChar c := by
  obtain ⟨d, -, hc⟩ := List.mem_flatMap.1 h
  unfold formEncodeChar at hc
  split at hc
  · rw [List.mem_singleton.1 hc]
    exact ⟨by decide, by decide, by decide⟩
  · split at hc
    · obtain ⟨b, hb, hc⟩ := List.mem_flatMap.1 hc
      exact formChar_byte (utf8Encode_lt d b hb) c hc
    · next hset =>
      rw [List.mem_singleton.1 hc]
      have hplain := Bool.eq_false_iff.2 hset
      have hne := ne_of_formSet hplain
      exact ⟨specialQuerySet_of_formSet hplain, hne '&' (by decide), hne '=' (by decide)⟩

theorem mem_formPair {pair : String × String} {c : Char} (h : c ∈ formPair pair) : specialQuerySet c = false ∧ c ≠ '&' := by
  rcases List.mem_append.1 h with h | h
  · exact ⟨(formChar_encode h).query, (formChar_encode h).amp⟩
  · rcases List.mem_cons.1 h with rfl | h
    · exact ⟨by decide, by decide⟩
    · exact ⟨(formChar_encode h).query, (formChar_encode h).amp⟩

theorem cutAt_formPair (pair : String × String) :
    cutAt '=' (formPair pair) = (formEncode pair.1.toList, some (formEncode pair.2.toList)) :=
  cutAt_append _ fun _ hc => (formChar_encode hc).equals

/-- The serialized list reads back. -/
theorem formParse_serialize (pairs : List (String × String)) : formParse (formSerialize pairs) = pairs := by
  have hpieces : ((formSerialize pairs).splitOn '&').filter (· ≠ []) = pairs.map formPair := by
    cases pairs with
    | nil => rfl
    | cons pair pairs =>
      have hfree : ∀ piece ∈ (pair :: pairs).map formPair, '&' ∉ piece := by
        intro piece hpiece hamp
        obtain ⟨p, -, rfl⟩ := List.mem_map.1 hpiece
        exact (mem_formPair hamp).2 rfl
      rw [formSerialize, List.splitOn_intercalate '&' hfree (by simp), List.filter_eq_self]
      intro piece hpiece
      obtain ⟨p, -, rfl⟩ := List.mem_map.1 hpiece
      simp [formPair]
  rw [formParse, hpieces, List.map_map]
  refine (List.map_congr_left fun pair _ => ?_).trans (List.map_id _)
  rw [Function.comp_apply, cutAt_formPair]
  simp

/-- The serialized list may stand in a query. -/
theorem specialQuerySet_serialize {pairs : List (String × String)} : ∀ c ∈ formSerialize pairs, specialQuerySet c = false := by
  intro c hc
  rcases mem_intercalate hc with hc | ⟨piece, hpiece, hc⟩
  · rw [List.mem_singleton.1 hc]
    decide
  · obtain ⟨pair, -, rfl⟩ := List.mem_map.1 hpiece
    exact (mem_formPair hc).1

end Keyforge.Lib
