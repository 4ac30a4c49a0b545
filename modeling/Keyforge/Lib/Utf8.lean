/-
UTF-8. `utf8Encode` gives the bytes of one character; `utf8Decode` reads any bytes, as the decoder of the
encoding standard does, with U+FFFD for what is not UTF-8. What was encoded reads back.
-/
import Mathlib.Tactic

namespace Keyforge.Lib

/-- The bytes of a character. -/
def utf8Encode (c : Char) : List Nat :=
  if c.toNat < 0x80 then [c.toNat]
  else if c.toNat < 0x800 then [0xC0 + c.toNat / 64, 0x80 + c.toNat % 64]
  else if c.toNat < 0x10000 then [0xE0 + c.toNat / 4096, 0x80 + c.toNat / 64 % 64, 0x80 + c.toNat % 64]
  else [0xF0 + c.toNat / 262144, 0x80 + c.toNat / 4096 % 64, 0x80 + c.toNat / 64 % 64, 0x80 + c.toNat % 64]

/-- A sequence that has begun: how many bytes it still needs, between which the next one has to be, and the
code point so far. -/
structure Utf8State where
  needed : Nat
  lower : Nat
  upper : Nat
  codePoint : Nat

/-- What a first byte does: it is a character, or no start at all, or it begins a sequence. -/
def utf8First (b : Nat) : Char ⊕ Utf8State :=
  if b < 0x80 then .inl (Char.ofNat b)
  else if 0xC2 ≤ b ∧ b ≤ 0xDF then .inr ⟨1, 0x80, 0xBF, b - 0xC0⟩
  else if 0xE0 ≤ b ∧ b ≤ 0xEF then
    .inr ⟨2, if b = 0xE0 then 0xA0 else 0x80, if b = 0xED then 0x9F else 0xBF, b - 0xE0⟩
  else if 0xF0 ≤ b ∧ b ≤ 0xF4 then
    .inr ⟨3, if b = 0xF0 then 0x90 else 0x80, if b = 0xF4 then 0x8F else 0xBF, b - 0xF0⟩
  else .inl '\uFFFD'

def utf8Decode : Option Utf8State → List Nat → List Char
  | none, [] => []
  | some _, [] => ['\uFFFD']
  | none, b :: rest =>
    match utf8First b with
    | .inl c => c :: utf8Decode none rest
    | .inr state => utf8Decode (some state) rest
  | some state, b :: rest =>
    if state.lower ≤ b ∧ b ≤ state.upper then
      if state.needed = 1 then Char.ofNat (state.codePoint * 64 + (b - 0x80)) :: utf8Decode none rest
      else utf8Decode (some ⟨state.needed - 1, 0x80, 0xBF, state.codePoint * 64 + (b - 0x80)⟩) rest
    else
      -- the byte is read again, as a first one
      '\uFFFD' :: match utf8First b with
        | .inl c => c :: utf8Decode none rest
        | .inr state => utf8Decode (some state) rest

section

variable {rest : List Nat}

/-- A byte within bounds goes on with the sequence. -/
theorem utf8Decode_more {needed lower upper codePoint b : Nat} (hl : lower ≤ b) (hu : b ≤ upper) :
    utf8Decode (some ⟨needed + 2, lower, upper, codePoint⟩) (b :: rest) =
      utf8Decode (some ⟨needed + 1, 0x80, 0xBF, codePoint * 64 + (b - 0x80)⟩) rest := by
  rw [utf8Decode, if_pos ⟨hl, hu⟩, if_neg (by simp)]
  rfl

/-- The last byte of a sequence. -/
theorem utf8Decode_last {lower upper codePoint b : Nat} (hl : lower ≤ b) (hu : b ≤ upper) :
    utf8Decode (some ⟨1, lower, upper, codePoint⟩) (b :: rest) =
      Char.ofNat (codePoint * 64 + (b - 0x80)) :: utf8Decode none rest := by
  rw [utf8Decode, if_pos ⟨hl, hu⟩, if_pos rfl]

/-- What a character's bytes begin with reads back as the character. -/
theorem utf8Decode_encode_append (c : Char) : utf8Decode none (utf8Encode c ++ rest) = c :: utf8Decode none rest := by
  have hc := Char.ofNat_toNat c
  have hvalid : c.toNat < 0xD800 ∨ (0xDFFF < c.toNat ∧ c.toNat < 0x110000) := c.valid
  unfold utf8Encode
  generalize c.toNat = n at hc hvalid
  subst hc
  split
  · rename_i h
    rw [List.singleton_append, utf8Decode, utf8First, if_pos h]
  · split
    · rename_i h1 h2
      have hfirst : utf8First (0xC0 + n / 64) = .inr ⟨1, 0x80, 0xBF, n / 64⟩ := by
        rw [utf8First, if_neg (by omega), if_pos (by omega), Nat.add_sub_cancel_left]
      rw [List.cons_append, utf8Decode, hfirst]
      dsimp only
      have hn : n / 64 * 64 + (0x80 + n % 64 - 0x80) = n := by omega
      rw [List.singleton_append, utf8Decode_last (by omega) (by omega), hn]
    · split
      · rename_i h1 h2 h3
        have hfirst : utf8First (0xE0 + n / 4096) = .inr ⟨2, if 0xE0 + n / 4096 = 0xE0 then 0xA0 else 0x80,
            if 0xE0 + n / 4096 = 0xED then 0x9F else 0xBF, n / 4096⟩ := by
          rw [utf8First, if_neg (by omega), if_neg (by omega), if_pos (by omega), Nat.add_sub_cancel_left]
        have hn : (n / 4096 * 64 + (0x80 + n / 64 % 64 - 0x80)) * 64 + (0x80 + n % 64 - 0x80) = n := by omega
        rw [List.cons_append, utf8Decode, hfirst]
        dsimp only
        rw [List.cons_append, utf8Decode_more (by split <;> omega) (by split <;> omega), List.singleton_append,
          utf8Decode_last (by omega) (by omega), hn]
      · rename_i h1 h2 h3
        have hfirst : utf8First (0xF0 + n / 262144) = .inr ⟨3, if 0xF0 + n / 262144 = 0xF0 then 0x90 else 0x80,
            if 0xF0 + n / 262144 = 0xF4 then 0x8F else 0xBF, n / 262144⟩ := by
          rw [utf8First, if_neg (by omega), if_neg (by omega), if_neg (by omega), if_pos (by omega), Nat.add_sub_cancel_left]
        have hn : ((n / 262144 * 64 + (0x80 + n / 4096 % 64 - 0x80)) * 64 + (0x80 + n / 64 % 64 - 0x80)) * 64 +
            (0x80 + n % 64 - 0x80) = n := by omega
        rw [List.cons_append, utf8Decode, hfirst]
        dsimp only
        rw [List.cons_append, utf8Decode_more (by split <;> omega) (by split <;> omega), List.cons_append,
          utf8Decode_more (by omega) (by omega), List.singleton_append, utf8Decode_last (by omega) (by omega), hn]

theorem utf8Decode_encode : ∀ text : List Char, utf8Decode none (text.flatMap utf8Encode) = text
  | [] => rfl
  | c :: text => by rw [List.flatMap_cons, utf8Decode_encode_append, utf8Decode_encode text]

end

/-! ## ASCII -/

/-- A text of ASCII characters is its own encoding. -/
theorem utf8Decode_ascii {text : List Char} (h : ∀ c ∈ text, c.toNat < 0x80) : utf8Decode none (text.map Char.toNat) = text := by
  have hencode : text.flatMap utf8Encode = text.map Char.toNat := by
    rw [List.map_eq_flatMap]
    refine List.flatMap_congr fun c hc => ?_
    rw [utf8Encode, if_pos (h c hc)]
  rw [← hencode, utf8Decode_encode]

theorem utf8ByteSize_ascii {s : String} (h : ∀ c ∈ s.toList, c.toNat < 0x80) : s.utf8ByteSize = s.length := by
  have hlist : ∀ l : List Char, (∀ c ∈ l, c.toNat < 0x80) → (String.ofList l).utf8ByteSize = l.length := by
    intro l hl
    induction l with
    | nil => rfl
    | cons c l ih =>
      obtain ⟨hc, hl⟩ := List.forall_mem_cons.1 hl
      have hsize : c.utf8Size = 1 := by
        rw [Char.utf8Size_eq_one_iff, UInt32.le_iff_toNat_le]
        exact Nat.le_of_lt_succ hc
      rw [String.ofList_cons, String.utf8ByteSize_append, String.utf8ByteSize_singleton, ih hl, hsize, List.length_cons, Nat.add_comm]
  rw [← s.ofList_toList, hlist _ h, String.length_ofList]

end Keyforge.Lib
