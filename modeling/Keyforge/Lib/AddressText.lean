/-
The textual forms of internet addresses: dotted decimal, and the forms of RFC 4291 with hexadecimal
groups, a run of zero groups written as two colons, and the last 32 bits in dotted decimal.
-/
import Keyforge.Lib.Pointwise
import Keyforge.Lib.Split
import Mathlib.Data.Bool.AllAny
import Mathlib.Data.Nat.Digits.Defs

namespace Keyforge.Lib

/-! ## Numerals -/

def decimalDigits : List Char := "0123456789".toList

def hexDigits : List Char := "0123456789abcdefABCDEF".toList

/-- The value of a hexadecimal digit in either case. -/
def digitValue (c : Char) : Nat :=
  if c.toNat < 0x3A then c.toNat - 0x30 else if c.toNat < 0x61 then c.toNat - 0x37 else c.toNat - 0x57

/-- The number that digits write, the most significant first. -/
def numeral (base : Nat) (text : List Char) : Nat :=
  Nat.ofDigits base (text.reverse.map digitValue)

/-- The number that words write, the most significant first. -/
def bigEndian (base : Nat) (words : List Nat) : Nat :=
  Nat.ofDigits base words.reverse

theorem ofDigits_reverse (base : Nat) : ∀ words : List Nat,
    Nat.ofDigits base words.reverse = words.foldl (fun value word => value * base + word) 0 := by
  intro words
  rw [Nat.ofDigits_eq_foldr, List.foldr_reverse]
  congr 1
  ext value word
  simp only [Nat.cast_id]
  ring

/-- Read from the left, each digit makes room for itself. -/
theorem bigEndian_eq (base : Nat) (words : List Nat) :
    bigEndian base words = words.foldl (fun value word => value * base + word) 0 :=
  ofDigits_reverse base words

theorem numeral_eq (base : Nat) (text : List Char) :
    numeral base text = text.foldl (fun value c => value * base + digitValue c) 0 := by
  rw [numeral, List.map_reverse, ofDigits_reverse, List.foldl_map]

theorem bigEndian_append (base : Nat) (words words' : List Nat) :
    bigEndian base (words ++ words') = bigEndian base words * base ^ words'.length + bigEndian base words' := by
  rw [bigEndian, List.reverse_append, Nat.ofDigits_append, List.length_reverse, bigEndian, bigEndian]
  ring

theorem bigEndian_lt {base : Nat} {words : List Nat} (h : ∀ word ∈ words, word < base) :
    bigEndian base words < base ^ words.length := by
  induction words using List.reverseRecOn with
  | nil => simp [bigEndian]
  | append_singleton words word ih =>
    have hlast : word < base := h word (by simp)
    have hrest := ih fun w hw => h w (List.mem_append_left _ hw)
    rw [bigEndian_append, List.length_singleton, pow_one, List.length_append, List.length_singleton, pow_succ]
    have hword : bigEndian base [word] = word := by simp [bigEndian]
    rw [hword]
    calc bigEndian base words * base + word < bigEndian base words * base + base := Nat.add_lt_add_left hlast _
      _ = (bigEndian base words + 1) * base := by ring
      _ ≤ base ^ words.length * base := Nat.mul_le_mul_right _ hrest

/-! ## The forms -/

/-- A number up to 255 in one to three decimal digits. -/
structure Octet (text : List Char) (n : Nat) : Prop where
  length : 1 ≤ text.length ∧ text.length ≤ 3
  digits : ∀ c ∈ text, c ∈ decimalDigits
  value : numeral 10 text = n
  small : n ≤ 255

/-- A 32-bit value as four octets between dots. -/
def DottedDecimal (text : List Char) (value : Nat) : Prop :=
  ∃ pieces octets, text = ['.'].intercalate pieces ∧ List.Forall₂ Octet pieces octets ∧ octets.length = 4 ∧
    bigEndian 256 octets = value

/-- A 16-bit group in one to four hexadecimal digits. -/
structure Group (text : List Char) (word : Nat) : Prop where
  length : 1 ≤ text.length ∧ text.length ≤ 4
  digits : ∀ c ∈ text, c ∈ hexDigits
  value : numeral 16 text = word

/-- The pieces that an address may end with: groups, the last two of which may be in dotted decimal. -/
inductive LastGroups : List (List Char) → List Nat → Prop
  | groups {pieces : List (List Char)} {words : List Nat} (h : List.Forall₂ Group pieces words) : LastGroups pieces words
  | dotted {pieces : List (List Char)} {words : List Nat} {text : List Char} {value : Nat}
    (h : List.Forall₂ Group pieces words) (ht : DottedDecimal text value) :
    LastGroups (pieces ++ [text]) (words ++ [value / 65536, value % 65536])

/-- A 128-bit value as eight groups, or with one run of zero groups left out. -/
inductive AddressText : List Char → Nat → Prop
  | full {pieces : List (List Char)} {words : List Nat} (h : LastGroups pieces words) (hlength : words.length = 8) :
    AddressText ([':'].intercalate pieces) (bigEndian 65536 words)
  | compressed {left right : List (List Char)} {leftWords rightWords : List Nat} {zeros : Nat}
    (hleft : List.Forall₂ Group left leftWords) (hright : LastGroups right rightWords) (hzeros : 1 ≤ zeros)
    (hlength : leftWords.length + zeros + rightWords.length = 8) :
    AddressText ([':'].intercalate left ++ ':' :: ':' :: [':'].intercalate right)
      (bigEndian 65536 (leftWords ++ List.replicate zeros 0 ++ rightWords))

/-! ## Their values -/

theorem digitValue_lt : ∀ c ∈ hexDigits, digitValue c < 16 :=
  List.all_iff_forall_prop.1 (by decide)

theorem numeral_lt {text : List Char} (h : ∀ c ∈ text, c ∈ hexDigits) : numeral 16 text < 16 ^ text.length := by
  have hlt : bigEndian 16 (text.map digitValue) < 16 ^ (text.map digitValue).length := by
    refine bigEndian_lt fun word hword => ?_
    obtain ⟨c, hc, rfl⟩ := List.mem_map.1 hword
    exact digitValue_lt c (h c hc)
  rw [List.length_map] at hlt
  rw [numeral, List.map_reverse]
  exact hlt

theorem Group.lt {text : List Char} {word : Nat} (h : Group text word) : word < 65536 := by
  have hlt := numeral_lt h.digits
  rw [h.value] at hlt
  calc word < 16 ^ text.length := hlt
    _ ≤ 16 ^ 4 := Nat.pow_le_pow_right (by decide) h.length.2

theorem DottedDecimal.lt {text : List Char} {value : Nat} (h : DottedDecimal text value) : value < 2 ^ 32 := by
  obtain ⟨pieces, octets, -, hoctets, hlength, rfl⟩ := h
  have hlt : bigEndian 256 octets < 256 ^ octets.length := by
    refine bigEndian_lt fun octet hmem => ?_
    obtain ⟨piece, -, hoctet⟩ := exists_left_of_forall₂ hoctets octet hmem
    have := hoctet.small
    omega
  rw [hlength] at hlt
  exact hlt

theorem LastGroups.lt {pieces : List (List Char)} {words : List Nat} (h : LastGroups pieces words) :
    ∀ word ∈ words, word < 65536 := by
  have hgroups : ∀ {pieces : List (List Char)} {words : List Nat}, List.Forall₂ Group pieces words →
      ∀ word ∈ words, word < 65536 := by
    intro pieces words h word hword
    obtain ⟨piece, -, hgroup⟩ := exists_left_of_forall₂ h word hword
    exact hgroup.lt
  cases h with
  | groups h => exact hgroups h
  | dotted h ht =>
    have hlt := ht.lt
    rw [List.forall_mem_append]
    refine ⟨hgroups h, ?_⟩
    simp only [List.mem_cons, List.not_mem_nil, or_false, forall_eq_or_imp, forall_eq]
    omega

/-! ## Their characters -/

/-- Digits and dots. -/
theorem DottedDecimal.chars {text : List Char} {value : Nat} (h : DottedDecimal text value) :
    ∀ c ∈ text, c ∈ '.' :: decimalDigits := by
  obtain ⟨pieces, octets, rfl, hoctets, -, -⟩ := h
  intro c hc
  rcases mem_intercalate hc with hsep | ⟨piece, hpiece, hc⟩
  · rw [List.mem_singleton.1 hsep]
    exact List.mem_cons_self
  · obtain ⟨octet, -, hoctet⟩ := exists_right_of_forall₂ hoctets piece hpiece
    exact List.mem_cons_of_mem _ (hoctet.digits c hc)

theorem addressChars_of_dotted : ∀ c ∈ '.' :: decimalDigits, c ∈ ':' :: '.' :: hexDigits :=
  List.all_iff_forall_prop.1 (by decide)

theorem LastGroups.chars {pieces : List (List Char)} {words : List Nat} (h : LastGroups pieces words) :
    ∀ piece ∈ pieces, ∀ c ∈ piece, c ∈ ':' :: '.' :: hexDigits := by
  have hgroups : ∀ {pieces : List (List Char)} {words : List Nat}, List.Forall₂ Group pieces words →
      ∀ piece ∈ pieces, ∀ c ∈ piece, c ∈ ':' :: '.' :: hexDigits := by
    intro pieces words h piece hpiece c hc
    obtain ⟨word, -, hgroup⟩ := exists_right_of_forall₂ h piece hpiece
    exact List.mem_cons_of_mem _ (List.mem_cons_of_mem _ (hgroup.digits c hc))
  cases h with
  | groups h => exact hgroups h
  | dotted h ht =>
    rw [List.forall_mem_append, List.forall_mem_singleton]
    exact ⟨hgroups h, fun c hc => addressChars_of_dotted c (ht.chars c hc)⟩

/-- A form has a colon, and besides colons only digits and dots. -/
theorem AddressText.chars {text : List Char} {value : Nat} (h : AddressText text value) :
    ':' ∈ text ∧ ∀ c ∈ text, c ∈ ':' :: '.' :: hexDigits := by
  have hjoined : ∀ {pieces : List (List Char)} {words : List Nat}, LastGroups pieces words →
      ∀ c ∈ [':'].intercalate pieces, c ∈ ':' :: '.' :: hexDigits := by
    intro pieces words h c hc
    rcases mem_intercalate hc with hsep | ⟨piece, hpiece, hc⟩
    · rw [List.mem_singleton.1 hsep]
      exact List.mem_cons_self
    · exact h.chars piece hpiece c hc
  cases h with
  | @full pieces words h hlength =>
    refine ⟨?_, hjoined h⟩
    have hmany : 2 ≤ pieces.length := by
      cases h with
      | groups h => rw [h.length_eq]; omega
      | dotted h ht =>
        have heq := h.length_eq
        simp only [List.length_append, List.length_cons, List.length_nil] at hlength ⊢
        omega
    match pieces, hmany with
    | piece :: next :: pieces, _ =>
      rw [List.intercalate_cons_cons]
      simp
  | compressed hleft hright _ _ =>
    refine ⟨by simp, fun c hc => ?_⟩
    rcases List.mem_append.1 hc with hc | hc
    · exact hjoined (.groups hleft) c hc
    · rcases List.mem_cons.1 hc with rfl | hc
      · exact List.mem_cons_self
      · rcases List.mem_cons.1 hc with rfl | hc
        · exact List.mem_cons_self
        · exact hjoined hright c hc

end Keyforge.Lib
