/-
Base64, as `btoa` writes it and `atob` reads it. Bytes are written as sextets, three bytes as four of them,
and `=` fills the last group; `atob` drops white space and fill, and the bits that make no byte. What was
written reads back.
-/
import Mathlib.Data.Bool.AllAny
import Mathlib.Data.List.DropRight
import Mathlib.Tactic

namespace Keyforge.Lib

/-- The fill at the end of a text goes. -/
theorem rdropWhile_replicate {text : List Char} (h : ∀ c ∈ text, c ≠ '=') (n : Nat) :
    (text ++ List.replicate n '=').rdropWhile (· = '=') = text := by
  induction n with
  | zero =>
    rw [List.replicate_zero, List.append_nil, List.rdropWhile_eq_self_iff]
    intro hne
    simpa using h _ (List.getLast_mem hne)
  | succ n ih => rw [List.replicate_succ', ← List.append_assoc, List.rdropWhile_concat_pos _ _ _ (by decide), ih]

namespace Base64

/-! ## Sextets -/

/-- The sextets of the bytes, the last one with zeros for the bits that are missing. -/
def sextets : List UInt8 → List Nat
  | [] => []
  | [a] => [a.toNat / 4, a.toNat % 4 * 16]
  | [a, b] => [a.toNat / 4, a.toNat % 4 * 16 + b.toNat / 16, b.toNat % 16 * 4]
  | a :: b :: c :: rest =>
    a.toNat / 4 :: (a.toNat % 4 * 16 + b.toNat / 16) :: (b.toNat % 16 * 4 + c.toNat / 64) :: c.toNat % 64 :: sextets rest

/-- The bytes of the sextets. One sextet alone is no byte, and the bits over are dropped. -/
def ofSextets : List Nat → Option (List UInt8)
  | [] => some []
  | [_] => none
  | [a, b] => some [UInt8.ofNat (a * 4 + b / 16)]
  | [a, b, c] => some [UInt8.ofNat (a * 4 + b / 16), UInt8.ofNat (b % 16 * 16 + c / 4)]
  | a :: b :: c :: d :: rest => (ofSextets rest).map fun bytes =>
    UInt8.ofNat (a * 4 + b / 16) :: UInt8.ofNat (b % 16 * 16 + c / 4) :: UInt8.ofNat (c % 4 * 64 + d) :: bytes

theorem sextets_lt (bytes : List UInt8) : ∀ n ∈ sextets bytes, n < 64 := by
  fun_induction sextets bytes with
  | case1 => simp
  | case2 a =>
    have ha := a.toNat_lt
    simp
    omega
  | case3 a b =>
    have ha := a.toNat_lt
    have hb := b.toNat_lt
    simp
    omega
  | case4 a b c rest ih =>
    have ha := a.toNat_lt
    have hb := b.toNat_lt
    have hc := c.toNat_lt
    simp only [List.forall_mem_cons]
    exact ⟨by omega, by omega, by omega, by omega, ih⟩

/-- Four sextets for three bytes, rounded up. -/
theorem length_sextets (bytes : List UInt8) : (sextets bytes).length = (bytes.length * 4 + 2) / 3 := by
  fun_induction sextets bytes with
  | case1 => rfl
  | case2 a => simp
  | case3 a b => simp
  | case4 a b c rest ih =>
    simp only [List.length_cons, ih]
    omega

theorem ofNat_eq {a : UInt8} {n : Nat} (h : n = a.toNat) : UInt8.ofNat n = a := by
  rw [h, UInt8.ofNat_toNat]

theorem ofSextets_sextets (bytes : List UInt8) : ofSextets (sextets bytes) = some bytes := by
  fun_induction sextets bytes with
  | case1 => rfl
  | case2 a =>
    have ha : a.toNat / 4 * 4 + a.toNat % 4 * 16 / 16 = a.toNat := by omega
    rw [ofSextets, ofNat_eq ha]
  | case3 a b =>
    have hlt := b.toNat_lt
    have ha : a.toNat / 4 * 4 + (a.toNat % 4 * 16 + b.toNat / 16) / 16 = a.toNat := by omega
    have hb : (a.toNat % 4 * 16 + b.toNat / 16) % 16 * 16 + b.toNat % 16 * 4 / 4 = b.toNat := by omega
    rw [ofSextets, ofNat_eq ha, ofNat_eq hb]
  | case4 a b c rest ih =>
    have hb' := b.toNat_lt
    have hc' := c.toNat_lt
    have ha : a.toNat / 4 * 4 + (a.toNat % 4 * 16 + b.toNat / 16) / 16 = a.toNat := by omega
    have hb : (a.toNat % 4 * 16 + b.toNat / 16) % 16 * 16 + (b.toNat % 16 * 4 + c.toNat / 64) / 4 = b.toNat := by omega
    have hc : (b.toNat % 16 * 4 + c.toNat / 64) % 4 * 64 + c.toNat % 64 = c.toNat := by omega
    rw [ofSextets, ih, Option.map_some, ofNat_eq ha, ofNat_eq hb, ofNat_eq hc]

/-! ## Digits -/

def alphabet : List Char :=
  "ABCDEFGHIJKLMNOPQRSTUVWXYZabcdefghijklmnopqrstuvwxyz0123456789+/".toList

def digit (n : Nat) : Char :=
  alphabet.getD (n % 64) 'A'

/-- The value of a digit. -/
def value (c : Char) : Option Nat :=
  alphabet.idxOf? c

theorem value_digit : ∀ n < 64, value (digit n) = some n := by
  decide +kernel

theorem digit_mem (n : Nat) : digit n ∈ alphabet := by
  have hlt : n % 64 < alphabet.length := Nat.mod_lt _ (by decide)
  rw [digit, List.getD, List.getElem?_eq_getElem hlt, Option.getD_some]
  exact List.getElem_mem hlt

/-- What no digit is. -/
theorem alphabet_plain : ∀ c ∈ alphabet, c ≠ '=' ∧ c ≠ ' ' ∧ c ≠ '\t' ∧ c ≠ '\n' ∧ c ≠ '\x0c' ∧ c ≠ '\r' :=
  List.all_iff_forall_prop.1 (by decide +kernel)

theorem mapM_value_digit : ∀ {l : List Nat}, (∀ n ∈ l, n < 64) → (l.map digit).mapM value = some l
  | [], _ => rfl
  | n :: l, h => by
    obtain ⟨hn, hl⟩ := List.forall_mem_cons.1 h
    rw [List.map_cons, List.mapM_cons, value_digit n hn, mapM_value_digit hl]
    rfl

/-! ## Text -/

/-- The fill after so many bytes. -/
def fill (length : Nat) : List Char :=
  List.replicate ((3 - length % 3) % 3) '='

/-- `btoa`, of a text whose characters are these bytes. -/
def btoa (bytes : List UInt8) : List Char :=
  (sextets bytes).map digit ++ fill bytes.length

/-- White space as the decoder knows it. -/
def isSpace (c : Char) : Bool :=
  c = ' ' || c = '\t' || c = '\n' || c = '\x0c' || c = '\r'

/-- In a text of whole groups, one or two `=` at the end go. -/
def stripFill (text : List Char) : List Char :=
  if text.length % 4 = 0 then
    match text.reverse with
    | '=' :: '=' :: rest => rest.reverse
    | '=' :: rest => rest.reverse
    | _ => text
  else text

/-- `atob`, as the bytes of the text it returns. -/
def atob (text : List Char) : Option (List UInt8) := do
  let values ← (stripFill (text.filter fun c => !isSpace c)).mapM value
  ofSextets values

theorem stripFill_append {text : List Char} (htext : ∀ c ∈ text, c ≠ '=') {n : Nat} (hn : n ≤ 2)
    (hlength : (text.length + n) % 4 = 0) : stripFill (text ++ List.replicate n '=') = text := by
  have hwhole : (text ++ List.replicate n '=').length % 4 = 0 := by
    rw [List.length_append, List.length_replicate]
    exact hlength
  unfold stripFill
  rw [if_pos hwhole, List.reverse_append, List.reverse_replicate]
  match n, hn with
  | 0, _ =>
    rw [List.replicate_zero, List.append_nil, List.nil_append]
    cases hreverse : text.reverse with
    | nil => rfl
    | cons c rest =>
      have hc : c ≠ '=' := htext c (by rw [← List.mem_reverse, hreverse]; exact List.mem_cons_self)
      split
      · rename_i heq
        exact absurd (List.cons.inj heq).1 hc
      · rename_i heq
        exact absurd (List.cons.inj heq).1 hc
      · rfl
  | 1, _ =>
    cases hreverse : text.reverse with
    | nil => simpa using hreverse
    | cons c rest =>
      have hc : c ≠ '=' := htext c (by rw [← List.mem_reverse, hreverse]; exact List.mem_cons_self)
      have htext : text = (c :: rest).reverse := by rw [← hreverse, List.reverse_reverse]
      show (match '=' :: c :: rest with
        | '=' :: '=' :: rest => rest.reverse
        | '=' :: rest => rest.reverse
        | _ => text ++ ['=']) = text
      split
      · rename_i heq
        exact absurd (List.cons.inj (List.cons.inj heq).2).1 hc
      · rename_i heq
        rw [htext, (List.cons.inj heq).2]
      · rename_i hother
        exact absurd rfl (hother _)
  | 2, _ => simp [List.replicate]

/-- What is written reads back. -/
theorem atob_btoa (bytes : List UInt8) : atob (btoa bytes) = some bytes := by
  have hplain : ∀ c ∈ (sextets bytes).map digit, c ≠ '=' ∧ isSpace c = false := by
    intro c hc
    obtain ⟨n, -, rfl⟩ := List.mem_map.1 hc
    obtain ⟨h1, h2, h3, h4, h5, h6⟩ := alphabet_plain _ (digit_mem n)
    exact ⟨h1, by simp [isSpace, h2, h3, h4, h5, h6]⟩
  have hkept : (btoa bytes).filter (fun c => !isSpace c) = btoa bytes := by
    refine List.filter_eq_self.2 fun c hc => ?_
    rcases List.mem_append.1 hc with hc | hc
    · rw [(hplain c hc).2]
      rfl
    · rw [List.eq_of_mem_replicate hc]
      decide
  have hgroups : ((sextets bytes).map digit).length + (3 - bytes.length % 3) % 3 = 4 * ((bytes.length + 2) / 3) := by
    rw [List.length_map, length_sextets]
    omega
  unfold atob
  rw [hkept, btoa, fill, stripFill_append (fun c hc => (hplain c hc).1) (by omega) (by omega),
    mapM_value_digit (sextets_lt bytes)]
  exact ofSextets_sextets bytes

theorem length_btoa (bytes : List UInt8) : (btoa bytes).length = 4 * ((bytes.length + 2) / 3) := by
  rw [btoa, fill, List.length_append, List.length_map, length_sextets, List.length_replicate]
  omega

end Base64

end Keyforge.Lib
