/-
Special-use addresses, whatever their spelling. A literal is judged by its value: it is refused exactly
when the value lies in one of the listed ranges. The IPv6 ranges hold the mapped, the translated and the
6to4 addresses of every IPv4 address, but not the compatible ones.
-/
import Keyforge.OAuth.InternetAddress

namespace Keyforge.Metadata

open Lib OAuth

/-! ## By value -/

/-- The value lies in a listed IPv4 range. -/
def ListedIpv4 (value : Nat) : Prop :=
  ∃ r ∈ SPECIAL_IPV4_RANGES, ∃ base, DottedDecimal r.1.toList base ∧ InCidr 32 value base r.2

/-- The value lies in a listed IPv6 range. -/
def ListedIpv6 (value : Nat) : Prop :=
  ∃ r ∈ SPECIAL_IPV6_RANGES, ∃ base, AddressText r.1.toList base ∧ InCidr 128 value base r.2

/-- Brackets around an IPv6 address, as in a URL, make no difference. -/
theorem isPublicInternetAddress_bracketed {text : List Char} {value : Nat} (h : AddressText text value) :
    isPublicInternetAddress ('[' :: text ++ [']']) = isPublicInternetAddress text := by
  obtain ⟨hcolon, hchars⟩ := h.chars
  have hplain : stripBrackets text = text := stripBrackets_eq_self fun c hc => addressChars_plain c (hchars c hc)
  have hopen : '[' ∈ '[' :: text ++ [']'] := List.mem_cons_self
  unfold isPublicInternetAddress
  rw [parseIpv4_none hopen (by decide), parseIpv4_none hcolon (by decide), stripBrackets_bracketed, hplain]

/-- Every form of an address is read as its value, and a literal is refused exactly when its value is in a
listed range. -/
theorem addresses_by_value :
    (∀ text value, DottedDecimal text value →
      parseIpv4 text = some value ∧ (isPublicInternetAddress text = false ↔ ListedIpv4 value)) ∧
    ∀ text value, AddressText text value →
      parseIpv6 text = some value ∧ (isPublicInternetAddress text = false ↔ ListedIpv6 value) ∧
        (isPublicInternetAddress ('[' :: text ++ [']']) = false ↔ ListedIpv6 value) := by
  refine ⟨fun text value h => ⟨parseIpv4_iff.2 h, isPublicInternetAddress_ipv4 h⟩, fun text value h => ?_⟩
  have hpublic := isPublicInternetAddress_ipv6 h
  exact ⟨parseIpv6_text h, hpublic, by rw [isPublicInternetAddress_bracketed h]; exact hpublic⟩

theorem dottedDecimal_ten : DottedDecimal "10.0.0.1".toList 0x0A000001 :=
  parseIpv4_iff.1 (by decide +kernel)

/-- `64:FF9b::10.0.0.1`, with a group in both cases and a dotted end. -/
theorem addressText_translated : AddressText "64:FF9b::10.0.0.1".toList (0x64FF9B * 2 ^ 96 + 0x0A000001) := by
  have hleft : List.Forall₂ Group ["64".toList, "FF9b".toList] [0x64, 0xFF9B] := by
    refine .cons ⟨by decide, ?_, by decide +kernel⟩ (.cons ⟨by decide, ?_, by decide +kernel⟩ .nil) <;>
      exact List.all_iff_forall_prop.1 (by decide)
  have htext := @AddressText.compressed _ _ _ _ 4 hleft (.dotted .nil dottedDecimal_ten) (by decide) (by decide)
  have hvalue : bigEndian 65536 ([0x64, 0xFF9B] ++ List.replicate 4 0 ++ ([] ++ [0x0A000001 / 65536, 0x0A000001 % 65536])) =
      0x64FF9B * 2 ^ 96 + 0x0A000001 := by decide +kernel
  rw [hvalue] at htext
  exact htext

theorem addresses_by_value_translated :
    (parseIpv4 "10.0.0.1".toList = some 0x0A000001 ∧
      (isPublicInternetAddress "10.0.0.1".toList = false ↔ ListedIpv4 0x0A000001)) ∧
    parseIpv6 "64:FF9b::10.0.0.1".toList = some (0x64FF9B * 2 ^ 96 + 0x0A000001) ∧
      (isPublicInternetAddress "64:FF9b::10.0.0.1".toList = false ↔ ListedIpv6 (0x64FF9B * 2 ^ 96 + 0x0A000001)) ∧
      (isPublicInternetAddress "[64:FF9b::10.0.0.1]".toList = false ↔ ListedIpv6 (0x64FF9B * 2 ^ 96 + 0x0A000001)) :=
  ⟨addresses_by_value.1 _ _ dottedDecimal_ten, addresses_by_value.2 _ _ addressText_translated⟩

/-! ## Embedded IPv4 addresses -/

/-- The IPv6 addresses that embed an IPv4 address; those of 6to4 have 80 bits of their own. -/
inductive Embedding where
  | mapped
  | compatible
  | nat64
  | sixToFour (lower : Fin (2 ^ 80))

def Embedding.address (a : Nat) : Embedding → Nat
  | mapped => 0xFFFF * 2 ^ 32 + a
  | compatible => a
  | nat64 => 0x64FF9B * 2 ^ 96 + a
  | sixToFour lower => 0x2002 * 2 ^ 112 + a * 2 ^ 80 + lower

/-- The listed ranges as numbers. -/
def specialIpv6Bases : List (Nat × Nat) :=
  [(0, 128), (1, 128), (0xFFFF * 2 ^ 32, 96), (0x64FF9B * 2 ^ 96, 96), (0x64FF9B0001 * 2 ^ 80, 48), (0x100 * 2 ^ 112, 64),
    (0x2001 * 2 ^ 112, 23), (0x20010DB8 * 2 ^ 96, 32), (0x2002 * 2 ^ 112, 16), (0xFC00 * 2 ^ 112, 7), (0xFE80 * 2 ^ 112, 10),
    (0xFF00 * 2 ^ 112, 8)]

theorem specialIpv6Bases_eq : SPECIAL_IPV6_RANGES.map (fun r => (parseIpv6 r.1.toList, r.2)) =
    specialIpv6Bases.map fun b => (some b.1, b.2) := by
  decide +kernel

theorem listedIpv6_iff {value : Nat} : ListedIpv6 value ↔ ∃ b ∈ specialIpv6Bases, InCidr 128 value b.1 b.2 := by
  constructor
  · rintro ⟨r, hr, base, hbase, hin⟩
    have hmem := List.mem_map_of_mem (f := fun r : String × Nat => (parseIpv6 r.1.toList, r.2)) hr
    rw [specialIpv6Bases_eq] at hmem
    obtain ⟨b, hb, heq⟩ := List.mem_map.1 hmem
    rw [parseIpv6_text hbase, Prod.mk.injEq, Option.some.injEq] at heq
    exact ⟨b, hb, by rw [heq.1, heq.2]; exact hin⟩
  · rintro ⟨b, hb, hin⟩
    have hmem := List.mem_map_of_mem (f := fun b : Nat × Nat => (some b.1, b.2)) hb
    rw [← specialIpv6Bases_eq] at hmem
    obtain ⟨r, hr, heq⟩ := List.mem_map.1 hmem
    rw [Prod.mk.injEq] at heq
    exact ⟨r, hr, b.1, (specialIpv6_text hr).1 heq.1, by rw [heq.2]; exact hin⟩

/-- The IPv6 addresses that embed an IPv4 address, special or not, are refused, in every form, unless they are
IPv4-compatible and neither the unspecified nor the loopback address. -/
theorem embedded_special_iff {a : Nat} {text : List Char} (ha : DottedDecimal text a) (e : Embedding) {text' : List Char}
    (htext' : AddressText text' (e.address a)) :
    isPublicInternetAddress text' = false ↔ e ≠ .compatible ∨ a ≤ 1 := by
  have hlt : a < 4294967296 := ha.lt
  have hlisted : isPublicInternetAddress text' = false ↔ ∃ b ∈ specialIpv6Bases, InCidr 128 (e.address a) b.1 b.2 :=
    (isPublicInternetAddress_ipv6 htext').trans listedIpv6_iff
  rw [hlisted]
  unfold InCidr
  cases e with
  | mapped =>
    refine iff_of_true ⟨(0xFFFF * 2 ^ 32, 96), by decide, ?_⟩ (Or.inl (by simp))
    simp only [Embedding.address]
    omega
  | compatible =>
    simp only [Embedding.address, specialIpv6Bases, List.mem_cons, List.not_mem_nil, or_false, exists_eq_or_imp,
      exists_eq_left, ne_eq, not_true_eq_false, false_or]
    norm_num
    omega
  | nat64 =>
    refine iff_of_true ⟨(0x64FF9B * 2 ^ 96, 96), by decide, ?_⟩ (Or.inl (by simp))
    simp only [Embedding.address]
    omega
  | sixToFour lower =>
    have hlower := lower.isLt
    refine iff_of_true ⟨(0x2002 * 2 ^ 112, 16), by decide, ?_⟩ (Or.inl (by simp))
    simp only [Embedding.address]
    omega

/-- `::10.0.0.1`. -/
theorem addressText_compatible : AddressText "::10.0.0.1".toList (Embedding.compatible.address 0x0A000001) := by
  have htext := @AddressText.compressed _ _ _ _ 6 .nil (.dotted .nil dottedDecimal_ten) (by decide) (by decide)
  have hvalue : bigEndian 65536 ([] ++ List.replicate 6 0 ++ ([] ++ [0x0A000001 / 65536, 0x0A000001 % 65536])) =
      Embedding.compatible.address 0x0A000001 := by decide +kernel
  rw [hvalue] at htext
  exact htext

theorem special_ten : isPublicInternetAddress "10.0.0.1".toList = false := by decide +kernel

theorem embedded_special_iff_compatible :
    isPublicInternetAddress "::10.0.0.1".toList = false ↔ Embedding.compatible ≠ .compatible ∨ 0x0A000001 ≤ 1 :=
  embedded_special_iff dottedDecimal_ten .compatible addressText_compatible

/-- A private IPv4 address, refused as it is, passes as an IPv4-compatible one. -/
theorem compatible_passes : ¬∀ (a : Nat) (text text' : List Char) (e : Embedding), DottedDecimal text a →
    isPublicInternetAddress text = false → AddressText text' (e.address a) → isPublicInternetAddress text' = false := by
  intro h
  have hrefused := h _ _ _ .compatible dottedDecimal_ten special_ten addressText_compatible
  revert hrefused
  decide +kernel

end Keyforge.Metadata
