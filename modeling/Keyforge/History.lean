/-
Facts about the history. It only grows, so an event that was recorded stays, and what preceded it
stays what preceded it.
-/
import Keyforge.World

namespace Keyforge

/-- The history of `w'` continues that of `w` with events that satisfy `E`. -/
def Continues (E : Event → Prop) (w w' : World) : Prop :=
  ∃ ext, w'.log = ext ++ w.log ∧ ∀ x ∈ ext, E x

namespace Continues

variable {E E' : Event → Prop} {w w' w'' : World} {x : Event}

theorem of_eq (h : w'.log = w.log) : Continues E w w' :=
  ⟨[], h, fun _ hx => (List.not_mem_nil hx).elim⟩

theorem trans (h₁ : Continues E w w') (h₂ : Continues E w' w'') : Continues E w w'' := by
  obtain ⟨ext, h1, hE⟩ := h₁
  obtain ⟨ext', h2, hE'⟩ := h₂
  refine ⟨ext' ++ ext, by rw [h2, h1, List.append_assoc], ?_⟩
  intro x hx
  rcases List.mem_append.1 hx with hx | hx
  · exact hE' x hx
  · exact hE x hx

theorem imp (hE : ∀ x, E x → E' x) (h : Continues E w w') : Continues E' w w' := by
  obtain ⟨ext, h1, h2⟩ := h
  exact ⟨ext, h1, fun x hx => hE x (h2 x hx)⟩

theorem mem (h : Continues E w w') (hx : x ∈ w.log) : x ∈ w'.log := by
  obtain ⟨ext, h1, -⟩ := h
  rw [h1]
  exact List.mem_append_right _ hx

/-- An event of the longer history that is not new is old. -/
theorem old (h : Continues E w w') (hn : ¬E x) (hx : x ∈ w'.log) : x ∈ w.log := by
  obtain ⟨ext, h1, h2⟩ := h
  rw [h1] at hx
  rcases List.mem_append.1 hx with hx | hx
  · exact absurd (h2 x hx) hn
  · exact hx

end Continues

/-- `x` was recorded when the history so far satisfied `Q`. -/
def RecordedWhen (Q : List Event → Prop) (x : Event) (log : List Event) : Prop :=
  ∃ newer older, log = newer ++ x :: older ∧ Q older

/-- Each time `x` was recorded, the history so far satisfied `Q`. -/
def AlwaysWhen (Q : List Event → Prop) (x : Event) (log : List Event) : Prop :=
  ∀ newer older, log = newer ++ x :: older → Q older

theorem RecordedWhen.continues {Q : List Event → Prop} {E : Event → Prop} {x : Event} {w w' : World}
    (h : RecordedWhen Q x w.log) (hc : Continues E w w') : RecordedWhen Q x w'.log := by
  obtain ⟨newer, older, h1, hq⟩ := h
  obtain ⟨ext, h2, -⟩ := hc
  exact ⟨ext ++ newer, older, by rw [h2, h1, List.append_assoc], hq⟩

theorem AlwaysWhen.continues {Q : List Event → Prop} {E : Event → Prop} {x : Event} {w w' : World}
    (h : AlwaysWhen Q x w.log) (hc : Continues E w w') (hx : ¬E x) : AlwaysWhen Q x w'.log := by
  obtain ⟨ext, h2, hE⟩ := hc
  intro newer older hlog
  rw [h2] at hlog
  rcases List.append_eq_append_iff.1 hlog with ⟨a, h1, h3⟩ | ⟨a, h1, h3⟩
  · exact h a older h3
  · cases a with
    | nil => exact h [] older (by simpa using h3.symm)
    | cons y a =>
      obtain ⟨rfl, -⟩ := List.cons.inj h3
      exact absurd (hE _ (h1 ▸ List.mem_append_right _ List.mem_cons_self)) hx

end Keyforge
