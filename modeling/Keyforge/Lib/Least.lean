/-
The least elements of a list under a total order: those with few elements below them.
-/
import Mathlib.Data.List.Sort
import Mathlib.Tactic

namespace Keyforge.Lib

section

variable {α : Type} {r : α → α → Prop} [DecidableRel r] {a : α}

/-- Among the first `k` of a sorted list are the elements with fewer than `k` below them. -/
theorem mem_take_of_sorted (hrefl : ∀ a, r a a) : ∀ {l : List α} (k : Nat),
    (∀ a ∈ l, ∀ b ∈ l, r a b → r b a → a = b) → l.Pairwise r →
      (a ∈ l.take k ↔ a ∈ l ∧ (l.filter fun b => ¬r a b).length < k)
  | [], _, _, _ => by simp
  | _ :: _, 0, _, _ => by simp
  | b :: l, k + 1, hanti, h => by
    obtain ⟨hb, hl⟩ := List.pairwise_cons.1 h
    have ih := mem_take_of_sorted hrefl k
      (fun a ha b hb => hanti a (List.mem_cons_of_mem _ ha) b (List.mem_cons_of_mem _ hb)) hl
    rw [List.take_succ_cons, List.mem_cons, List.mem_cons, ih]
    by_cases hab : a = b
    · subst hab
      have hnone : (a :: l).filter (fun c => decide ¬r a c) = [] := by
        refine List.filter_eq_nil_iff.2 fun c hc => ?_
        rcases List.mem_cons.1 hc with rfl | hc
        · simp [hrefl]
        · simp [hb c hc]
      rw [hnone]
      simp
    · -- an element of the rest is above the first
      have hcount : a ∈ l → ((b :: l).filter fun c => decide ¬r a c).length = (l.filter fun c => decide ¬r a c).length + 1 := by
        intro hmem
        have hnot : ¬r a b := fun h => hab (hanti a (List.mem_cons_of_mem _ hmem) b List.mem_cons_self h (hb a hmem))
        rw [List.filter_cons_of_pos (by simpa using hnot), List.length_cons]
      constructor
      · rintro (h | ⟨hmem, hlt⟩)
        · exact absurd h hab
        · exact ⟨Or.inr hmem, by rw [hcount hmem]; omega⟩
      · rintro ⟨h | hmem, hlt⟩
        · exact absurd h hab
        · rw [hcount hmem] at hlt
          exact Or.inr ⟨hmem, by omega⟩

/-- Among the first `k` after sorting. -/
theorem mem_take_insertionSort [Std.Total r] [IsTrans α r] {l : List α} (k : Nat)
    (hanti : ∀ a ∈ l, ∀ b ∈ l, r a b → r b a → a = b) : a ∈ (l.insertionSort r).take k ↔ a ∈ l ∧ (l.filter fun b => ¬r a b).length < k := by
  have hrefl : ∀ a, r a a := fun a => (Std.Total.total a a).elim id id
  rw [mem_take_of_sorted hrefl k (by simpa only [List.mem_insertionSort] using hanti) (List.pairwise_insertionSort r l),
    List.mem_insertionSort, ((List.perm_insertionSort r l).filter _).length_eq]

/-! ## Parts and estimates -/

/-- A part of a sorted list is sorted. -/
theorem insertionSort_filter [Std.Total r] [IsTrans α r] (p : α → Bool) {l : List α}
    (hanti : ∀ a ∈ l, ∀ b ∈ l, r a b → r b a → a = b) : (l.filter p).insertionSort r = (l.insertionSort r).filter p := by
  have hperm : ((l.filter p).insertionSort r).Perm ((l.insertionSort r).filter p) :=
    (List.perm_insertionSort r _).trans ((List.perm_insertionSort r l).symm.filter p)
  refine hperm.eq_of_pairwise (fun a b ha hb => hanti a ?_ b ?_) (List.pairwise_insertionSort r _)
    ((List.pairwise_insertionSort r l).filter p)
  · exact List.mem_of_mem_filter ((List.mem_insertionSort r).1 ha)
  · exact (List.mem_insertionSort r).1 (List.mem_of_mem_filter hb)

/-- Without its first elements, by their keys, a list is what follows them. -/
theorem filter_not_take {κ : Type} [BEq κ] [LawfulBEq κ] {key : α → κ} {l : List α} (h : (l.map key).Nodup) (n : Nat) :
    (l.filter fun a => !((l.take n).map key).contains (key a)) = l.drop n := by
  have hsplit : (((l.take n).map key) ++ (l.drop n).map key).Nodup := by rwa [← List.map_append, List.take_append_drop]
  have htake : (l.take n).filter (fun a => !((l.take n).map key).contains (key a)) = [] := by
    refine List.filter_eq_nil_iff.2 fun a ha => ?_
    simp only [Bool.not_eq_true', Bool.not_eq_false, List.contains_iff_mem]
    exact List.mem_map_of_mem ha
  have hdrop : (l.drop n).filter (fun a => !((l.take n).map key).contains (key a)) = l.drop n := by
    refine List.filter_eq_self.2 fun a ha => ?_
    rw [Bool.not_eq_true', ← Bool.not_eq_true, List.contains_iff_mem]
    exact fun hmem => (List.disjoint_of_nodup_append hsplit) hmem (List.mem_map_of_mem ha)
  calc (l.filter fun a => !((l.take n).map key).contains (key a))
      = ((l.take n) ++ l.drop n).filter (fun a => !((l.take n).map key).contains (key a)) := by rw [List.take_append_drop]
    _ = l.drop n := by rw [List.filter_append, htake, hdrop, List.nil_append]

variable {f : α → α} {l l' : List α}

end

end Keyforge.Lib
