/-
Programs at one state. Storage calls succeed and the clock stands still, so a program that only reads
answers from the state it began in.
-/
import Keyforge.Lib.Reads
import Keyforge.World

namespace Keyforge

open Lib

/-- The storage call succeeds and takes no time. -/
def Still (e : Input) : Prop :=
  e.fail = false ∧ e.dt = 0

/-- At the state `w` the program only reads; `Q` holds of its result, `X` of its failure. -/
def readsE {α : Type} (w : World) (p : App α) (Q : α → Prop) (X : Failure → Prop) : Prop :=
  reads Still w p.run fun r => match r with
    | .ok a => Q a
    | .error x => X x

section

variable {α β : Type} {w : World} {Q : α → Prop} {X : Failure → Prop}

@[simp] theorem readsE_pure (a : α) : readsE w (pure a : App α) Q X = Q a := rfl

@[simp] theorem readsE_throw (x : Failure) : readsE w (throw x : App α) Q X = X x := rfl

theorem readsE_imp {Q' : α → Prop} {X' : Failure → Prop} (hQ : ∀ a, Q a → Q' a) (hX : ∀ x, X x → X' x) (p : App α)
    (h : readsE w p Q X) : readsE w p Q' X' :=
  reads_imp (by rintro (x | a) h <;> [exact hX x h; exact hQ a h]) _ h

theorem readsE_bind (p : App α) (g : α → App β) (Q : β → Prop) :
    readsE w (p >>= g) Q X ↔ readsE w p (fun a => readsE w (g a) Q X) X := by
  unfold readsE
  rw [ExceptT.run_bind, Prog.bind_eq, reads_bind]
  refine ⟨reads_imp ?_ _, reads_imp ?_ _⟩ <;> rintro (x | a) h <;> exact h

theorem readsE_query {q : World → α} (hQ : Q (q w)) : readsE w (query q) Q X := by
  rintro e ⟨hfail, hdt⟩
  simp only [hfail, hdt]
  exact ⟨rfl, hQ⟩

theorem readsE_select {q : Db.Database → α} (hQ : Q (q w.db)) : readsE w (select q) Q X :=
  readsE_query hQ

theorem readsE_clock {Q : Nat → Prop} (hQ : Q w.nowSeconds) : readsE w clock Q X := by
  rintro e ⟨-, hdt⟩
  simp only [hdt]
  exact ⟨rfl, hQ⟩

@[simp] theorem readsE_require {holds : Bool} {x : Failure} {Q : Unit → Prop} :
    readsE w (require holds x) Q X ↔ (holds = true → Q ()) ∧ (holds = false → X x) := by
  cases holds <;> simp [require]

theorem readsE_settled {p : App α} {Q : Except Failure α → Prop} :
    readsE w (settled p) Q X ↔ readsE w p (fun a => Q (.ok a)) fun x => Q (.error x) := by
  show reads Still w (p.run.bind _) _ ↔ reads Still w p.run _
  rw [reads_bind]
  refine ⟨reads_imp ?_ _, reads_imp ?_ _⟩ <;> rintro (x | a) h <;> exact h

theorem readsE_all {depth : Nat} {p : App α} {q : App β} {R : β → Prop} (hp : readsE w p Q X) (hq : readsE w q R X) :
    readsE w (all depth p q) (fun r => Q r.1 ∧ R r.2) X := by
  show reads Still w (Prog.bind _ _) _
  rw [reads_bind]
  refine reads_imp ?_ _ (reads_par p.run q.run hp hq)
  rintro ⟨x | a, y | b⟩ ⟨h1, h2⟩
  · exact h1
  · exact h1
  · exact h2
  · exact ⟨h1, h2⟩

/-- A program that answers `r` at the state `w`, whatever order its parts take their steps in. -/
def Answers (w : World) (p : App α) (r : Except Failure α) : Prop :=
  reads Still w p.run (· = r)

theorem readsE_ok {p : App α} {a : α} (h : Answers w p (.ok a)) (hQ : Q a) : readsE w p Q X :=
  reads_imp (by rintro _ rfl; exact hQ) _ h

theorem readsE_error {p : App α} {x : Failure} (h : Answers w p (.error x)) (hX : X x) : readsE w p Q X :=
  reads_imp (by rintro _ rfl; exact hX) _ h

/-- Whatever the program's outcome is at `w`, it is one. -/
theorem readsE_cases {p : App α} {r : Except Failure α} (h : Answers w p r) (hok : ∀ a, r = .ok a → Q a)
    (herr : ∀ x, r = .error x → X x) : readsE w p Q X := by
  cases r with
  | ok a => exact readsE_ok h (hok a rfl)
  | error x => exact readsE_error h (herr x rfl)

end

/-- What a run at a still state returns, the program answers. -/
theorem Answers.of_run {α : Type} {p : App α} {w w' : World} {r r' : Except Failure α} (h : Answers w p r)
    (hrun : RunsBy Still p.run w r' w') : r' = r ∧ w' = w :=
  hrun.reads h

theorem exists_still {α : Type} (p : App α) (w : World) : ∃ r w', RunsBy Still p.run w r w' :=
  exists_runsBy (e := ⟨0, false, false, fun _ => false⟩) ⟨rfl, rfl⟩ p.run w

theorem Answers.unique {α : Type} {p : App α} {w : World} {r r' : Except Failure α} (h : Answers w p r)
    (h' : Answers w p r') : r = r' := by
  obtain ⟨x, w', hrun⟩ := exists_still p w
  exact (h.of_run hrun).1.symm.trans (h'.of_run hrun).1

theorem Answers.bind {α β : Type} {p : App α} {g : α → App β} {w : World} {a : α} {r : Except Failure β}
    (h : Answers w p (.ok a)) (h' : Answers w (g a) r) : Answers w (p >>= g) r := by
  unfold Answers at h ⊢
  rw [ExceptT.run_bind, Prog.bind_eq, reads_bind]
  refine reads_imp ?_ _ h
  rintro _ rfl
  exact h'

theorem Answers.bind_error {α β : Type} {p : App α} {g : α → App β} {w : World} {x : Failure}
    (h : Answers w p (.error x)) : Answers w (p >>= g) (.error x) := by
  unfold Answers at h ⊢
  rw [ExceptT.run_bind, Prog.bind_eq, reads_bind]
  refine reads_imp ?_ _ h
  rintro _ rfl
  rfl

/-- At every state the program answers one thing. -/
def Steady {α : Type} (p : App α) : Prop :=
  ∀ w, ∃ r, Answers w p r

namespace Steady

variable {α β : Type}

theorem pure (a : α) : Steady (pure a : App α) := fun _ => ⟨.ok a, rfl⟩

theorem throw (x : Failure) : Steady (throw x : App α) := fun _ => ⟨.error x, rfl⟩

theorem query (q : World → α) : Steady (query q) := fun w =>
  ⟨.ok (q w), fun e he => by
    simp only [he.1, he.2]
    exact ⟨rfl, rfl⟩⟩

theorem select (q : Db.Database → α) : Steady (select q) := query _

theorem clock : Steady clock := fun w =>
  ⟨.ok w.nowSeconds, fun e he => by
    simp only [he.2]
    exact ⟨rfl, rfl⟩⟩

theorem bind {p : App α} {g : α → App β} (hp : Steady p) (hg : ∀ a, Steady (g a)) : Steady (p >>= g) := by
  intro w
  obtain ⟨r, hr⟩ := hp w
  cases r with
  | ok a =>
    obtain ⟨r', hr'⟩ := hg a w
    exact ⟨r', hr.bind hr'⟩
  | error x => exact ⟨.error x, hr.bind_error⟩

theorem require (holds : Bool) (x : Failure) : Steady (require holds x) := by
  unfold Keyforge.require
  split
  · exact pure ()
  · exact throw x

theorem tryCatch {p : App α} {h : Failure → App α} (hp : Steady p) (hh : ∀ x, Steady (h x)) :
    Steady (MonadExcept.tryCatch p h) := by
  intro w
  obtain ⟨r, hr⟩ := hp w
  have hcatch : ∀ {r' : Except Failure α}, (∀ a, r = .ok a → r' = .ok a) → (∀ x, r = .error x → Answers w (h x) r') →
      Answers w (MonadExcept.tryCatch p h) r' := by
    intro r' hok herr
    show reads Still w (p.run.bind _) _
    rw [reads_bind]
    refine reads_imp ?_ _ hr
    rintro (x | a) rfl
    · exact herr x rfl
    · exact (hok a rfl).symm
  cases r with
  | ok a => exact ⟨.ok a, hcatch (fun b hb => by cases hb; rfl) nofun⟩
  | error x =>
    obtain ⟨r', hr'⟩ := hh x w
    exact ⟨r', hcatch nofun fun y hy => by cases hy; exact hr'⟩

theorem ite {c : Prop} [Decidable c] {p q : App α} (hp : Steady p) (hq : Steady q) : Steady (if c then p else q) := by
  split
  · exact hp
  · exact hq

end Steady

end Keyforge
