/-
Lists element by element: a partial function on every element of a list, and a relation between the
elements of two.
-/
import Mathlib.Data.List.Forall2
import Mathlib.Tactic

namespace Keyforge.Lib

theorem exists_left_of_forall₂ {α β : Type} {R : α → β → Prop} {l : List α} {l' : List β} (h : List.Forall₂ R l l') :
    ∀ b ∈ l', ∃ a ∈ l, R a b := by
  induction h with
  | nil => exact fun b hb => absurd hb List.not_mem_nil
  | cons hab _ ih =>
    refine List.forall_mem_cons.2 ⟨⟨_, List.mem_cons_self, hab⟩, fun b hb => ?_⟩
    obtain ⟨a, ha, hR⟩ := ih b hb
    exact ⟨a, List.mem_cons_of_mem _ ha, hR⟩

theorem exists_right_of_forall₂ {α β : Type} {R : α → β → Prop} {l : List α} {l' : List β} (h : List.Forall₂ R l l') :
    ∀ a ∈ l, ∃ b ∈ l', R a b :=
  exists_left_of_forall₂ h.flip

theorem forall₂_imp_of_mem_mem {α β : Type} {R S : α → β → Prop} {l : List α} {l' : List β}
    (h : ∀ a ∈ l, ∀ b ∈ l', R a b → S a b) (hR : List.Forall₂ R l l') : List.Forall₂ S l l' := by
  induction hR with
  | nil => exact .nil
  | cons hab _ ih =>
    refine .cons (h _ List.mem_cons_self _ List.mem_cons_self hab) (ih fun a ha b hb => ?_)
    exact h a (List.mem_cons_of_mem _ ha) b (List.mem_cons_of_mem _ hb)

theorem forall₂_imp_of_mem {α β : Type} {R S : α → β → Prop} {l : List α} {l' : List β} (h : ∀ a ∈ l, ∀ b, R a b → S a b)
    (hR : List.Forall₂ R l l') : List.Forall₂ S l l' :=
  forall₂_imp_of_mem_mem (fun a ha b _ => h a ha b) hR

theorem forall₂_congr_left {α β : Type} {R S : α → β → Prop} : ∀ {l : List α} {l' : List β},
    (∀ a ∈ l, ∀ b, R a b ↔ S a b) → (List.Forall₂ R l l' ↔ List.Forall₂ S l l')
  | [], l', _ => by rw [List.forall₂_nil_left_iff, List.forall₂_nil_left_iff]
  | a :: l, l', h => by
    obtain ⟨hhead, hrest⟩ := List.forall_mem_cons.1 h
    rw [List.forall₂_cons_left_iff, List.forall₂_cons_left_iff]
    exact exists_congr fun b => exists_congr fun bs => by rw [hhead, forall₂_congr_left hrest]

/-- The elements of a parsed array, one by one. -/
theorem mapM_eq_some {α β : Type} {f : α → Option β} : ∀ {l : List α} {l' : List β},
    l.mapM f = some l' ↔ List.Forall₂ (fun a b => f a = some b) l l'
  | [], l' => by
    rw [List.mapM_nil, List.forall₂_nil_left_iff]
    exact ⟨fun h => by cases h; rfl, fun h => by rw [h]; rfl⟩
  | a :: l, l' => by
    rw [List.mapM_cons, List.forall₂_cons_left_iff]
    cases ha : f a with
    | none => simp
    | some b =>
      cases hl : l.mapM f with
      | none =>
        have hnone : ∀ l', ¬List.Forall₂ (fun a b => f a = some b) l l' := fun l' h => by
          rw [mapM_eq_some.2 h] at hl
          cases hl
        simp [hnone]
      | some bs =>
        constructor
        · intro h
          cases h
          exact ⟨b, bs, rfl, mapM_eq_some.1 hl, rfl⟩
        · rintro ⟨b', bs', hb, hbs, rfl⟩
          cases hb
          rw [mapM_eq_some.2 hbs] at hl
          cases hl
          rfl

end Keyforge.Lib
