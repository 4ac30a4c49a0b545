/-
ECMAScript's white space, and what `trim` leaves of a text.
-/
import Mathlib.Data.List.DropRight
import Mathlib.Tactic

namespace Keyforge.Lib

def isAlphanumeric (c : Char) : Bool :=
  ('A' ≤ c && c ≤ 'Z') || ('a' ≤ c && c ≤ 'z') || ('0' ≤ c && c ≤ '9')

/-- White space and line terminators, as `\s` and `trim` know them. -/
def isWhiteSpace (c : Char) : Bool :=
  [0x9, 0xA, 0xB, 0xC, 0xD, 0x20, 0xA0, 0x1680, 0x2028, 0x2029, 0x202F, 0x205F, 0x3000, 0xFEFF].contains c.toNat ||
    (0x2000 ≤ c.toNat && c.toNat ≤ 0x200A)

/-- `trim()`. -/
def trimText (text : List Char) : List Char :=
  ((text.dropWhile isWhiteSpace).reverse.dropWhile isWhiteSpace).reverse

def trim (s : String) : String :=
  String.ofList (trimText s.toList)

theorem trimText_eq_self {text : List Char} (h : ∀ c ∈ text, isWhiteSpace c = false) : trimText text = text := by
  have hdrop : ∀ {text : List Char}, (∀ c ∈ text, isWhiteSpace c = false) → text.dropWhile isWhiteSpace = text := by
    intro text htext
    cases text with
    | nil => rfl
    | cons c text => rw [List.dropWhile_cons_of_neg (by rw [htext c List.mem_cons_self]; exact Bool.false_ne_true)]
  unfold trimText
  rw [hdrop h, hdrop fun c hc => h c (List.mem_reverse.1 hc), List.reverse_reverse]

theorem toList_trim (s : String) : (trim s).toList = (s.toList.dropWhile isWhiteSpace).rdropWhile isWhiteSpace := by
  rw [trim, String.toList_ofList]
  rfl

/-- What is left after trimming at the front and then at the end is trimmed at both. -/
theorem trim_trim (s : String) : trim (trim s) = trim s := by
  apply String.toList_injective
  rw [toList_trim (trim s), toList_trim s]
  generalize hfront : s.toList.dropWhile isWhiteSpace = front
  have hdrop : (front.rdropWhile isWhiteSpace).dropWhile isWhiteSpace = front.rdropWhile isWhiteSpace := by
    cases hback : front.rdropWhile isWhiteSpace with
    | nil => rfl
    | cons c rest =>
      obtain ⟨after, hafter⟩ := List.rdropWhile_prefix isWhiteSpace front
      have hhead : isWhiteSpace c = false := by
        have hidem : front.dropWhile isWhiteSpace = front := by rw [← hfront, List.dropWhile_idempotent]
        rw [← hafter, hback, List.cons_append, List.dropWhile_cons] at hidem
        split at hidem
        · have := congrArg List.length hidem
          have hle := List.length_dropWhile_le isWhiteSpace (rest ++ after)
          simp only [List.length_cons] at this
          omega
        · rename_i h
          exact Bool.not_eq_true _ ▸ h
      rw [List.dropWhile_cons_of_neg (by rw [hhead]; exact Bool.false_ne_true)]
  rw [hdrop, List.rdropWhile_idempotent]

theorem mem_trim {s : String} {c : Char} (h : c ∈ (trim s).toList) : c ∈ s.toList := by
  rw [toList_trim] at h
  exact (List.dropWhile_suffix isWhiteSpace).subset ((List.rdropWhile_prefix isWhiteSpace _).subset h)

end Keyforge.Lib
