/-
Sequential objects. An object answers one call at a time: a call reads the stored state, answers,
and leaves a new stored state. A run is a list of calls from a starting state, and every fact about
a run is proved from what one call preserves.
-/
import Mathlib.Data.List.Basic
import Mathlib.Data.List.Infix

namespace Keyforge.Lib

/-- An object with states `σ`, calls `κ` and answers `ρ`. -/
structure Machine (σ κ ρ : Type) where
  start : σ
  call : κ → σ → ρ × σ

namespace Machine

variable {σ κ ρ : Type} (M : Machine σ κ ρ)

/-- The state after a list of calls, oldest call first. -/
def run (calls : List κ) : σ :=
  calls.foldl (fun s c => (M.call c s).2) M.start

/-- The answer a call gets after the calls `pre`. -/
def answer (pre : List κ) (c : κ) : ρ :=
  (M.call c (M.run pre)).1

@[simp] theorem run_nil : M.run [] = M.start := rfl

theorem run_concat (pre : List κ) (c : κ) : M.run (pre ++ [c]) = (M.call c (M.run pre)).2 := by
  simp [run]

variable {M}

/-- A property of the calls so far and the state they lead to, kept by one more call, holds of
every run. -/
theorem run_inv {I : List κ → σ → Prop} (h0 : I [] M.start)
    (hstep : ∀ pre c, I pre (M.run pre) → I (pre ++ [c]) (M.call c (M.run pre)).2) :
    ∀ calls, I calls (M.run calls) := by
  intro calls
  induction calls using List.reverseRecOn with
  | nil => exact h0
  | append_singleton pre c ih =>
    rw [run_concat]
    exact hstep pre c ih

/-- A property that each of the calls `post` keeps, once reached, stays through them. -/
theorem run_stays {P : σ → Prop} {pre post : List κ} (hstep : ∀ c ∈ post, ∀ s, P s → P (M.call c s).2)
    (h : P (M.run pre)) : P (M.run (pre ++ post)) := by
  induction post using List.reverseRecOn with
  | nil => simpa using h
  | append_singleton post c ih =>
    rw [← List.append_assoc, run_concat]
    refine hstep c (by simp) _ (ih ?_)
    intro c' hc' s
    exact hstep c' (by simp [hc']) s

end Machine

end Keyforge.Lib
