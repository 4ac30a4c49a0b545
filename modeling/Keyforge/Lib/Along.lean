/-
Programs with a memory of their own steps. What a step of a program may do can rest on what the program
did before, such as a value it read: each step is checked against the steps before it, whether or not the
program ever ends.
-/
import Keyforge.Lib.Run

namespace Keyforge.Lib

/-- From the steps `past` on, each step of `p` satisfies `Ψ` with the steps before it, and the end `Q` with
all of them. -/
def along {ε σ α : Type} (Ψ : List (σ × σ) → σ × σ → Prop) : Prog ε σ α → (α → List (σ × σ) → Prop) →
    List (σ × σ) → Prop
  | .done a, Q, past => Q a past
  | .step f k, Q, past => ∀ s e, Ψ past (s, f e s) ∧ along Ψ (k e s) Q (past ++ [(s, f e s)])

section

variable {ε σ α β : Type} {Ψ : List (σ × σ) → σ × σ → Prop} {past : List (σ × σ)}

/-- Every step of a path satisfies `Ψ` with those before it. -/
theorem Path.along {p q : Prog ε σ α} {tr : List (σ × σ)} (h : Path p tr q) : ∀ {Q : α → List (σ × σ) → Prop}
    {past : List (σ × σ)}, along Ψ p Q past → ∀ {before after : List (σ × σ)} {t : σ × σ}, tr = before ++ t :: after →
      Ψ (past ++ before) t := by
  induction h with
  | nil p =>
    intro Q past _ before after t htr
    cases before <;> cases htr
  | step s e _ ih =>
    intro Q past hp before after t htr
    cases before with
    | nil =>
      cases htr
      rw [List.append_nil]
      exact (hp s e).1
    | cons first before =>
      cases htr
      have := ih (hp s e).2 rfl
      rwa [List.append_assoc] at this

/-- A path to the end arrives with all its steps. -/
theorem Path.along_end {p q : Prog ε σ α} {tr : List (σ × σ)} (h : Path p tr q) : ∀ {Q : α → List (σ × σ) → Prop}
    {past : List (σ × σ)}, Lib.along Ψ p Q past → Lib.along Ψ q Q (past ++ tr) := by
  induction h with
  | nil p =>
    intro Q past hp
    rwa [List.append_nil]
  | step s e _ ih =>
    intro Q past hp
    have := ih (hp s e).2
    rwa [List.append_assoc] at this

theorem along_bind (g : α → Prog ε σ β) : ∀ (p : Prog ε σ α) (Q : β → List (σ × σ) → Prop) (past : List (σ × σ)),
    along Ψ (p.bind g) Q past ↔ along Ψ p (fun a past => along Ψ (g a) Q past) past
  | .done _, _, _ => Iff.rfl
  | .step f k, Q, past => by
    simp only [Prog.bind, along]
    exact forall_congr' fun s => forall_congr' fun e => and_congr_right fun _ => along_bind g (k e s) Q _

theorem along_imp {Q Q' : α → List (σ × σ) → Prop} (h : ∀ a past, Q a past → Q' a past) : ∀ (p : Prog ε σ α)
    (past : List (σ × σ)), along Ψ p Q past → along Ψ p Q' past
  | .done a, past, hp => h a past hp
  | .step _ k, _, hp => fun s e => ⟨(hp s e).1, along_imp h (k e s) _ (hp s e).2⟩

/-- Every step of `p` satisfies `φ`, whatever came before it. -/
def every {ε σ α : Type} (φ : σ × σ → Prop) : Prog ε σ α → Prop
  | .done _ => True
  | .step f k => ∀ s e, φ (s, f e s) ∧ every φ (k e s)

/-- Where anything may intervene, every step of a program keeps its guarantee. -/
theorem every_of_wp {Γ : Protocol ε σ} (hinv : ∀ s, Γ.inv s) (hrely : ∀ s s', Γ.rely s s') (hallow : ∀ s e s', Γ.allow s e s')
    {Q : α → σ → Prop} : ∀ (p : Prog ε σ α) {s : σ}, wp Γ p Q s → every (fun t => Γ.guar t.1 t.2) p
  | .done _, _, _ => trivial
  | .step f k, s, h => fun s' e => by
    obtain ⟨-, hguar, hrest⟩ := h s' (hrely s s') (hinv s') e (hallow _ _ _)
    exact ⟨hguar, every_of_wp hinv hrely hallow (k e s') hrest⟩

/-- A program whose every step may be taken at any time, with what its own steps tell of its end. -/
theorem along_every {φ : σ × σ → Prop} (hφ : ∀ past t, φ t → Ψ past t) : ∀ {p : Prog ε σ α} {Q : α → List (σ × σ) → Prop}
    {past : List (σ × σ)}, every φ p → ends p Q → along Ψ p (fun a past' => ∃ tr, past' = past ++ tr ∧ Q a tr) past
  | .done a, Q, past, _, h => ⟨[], (List.append_nil past).symm, h⟩
  | .step f k, Q, past, hp, h => fun s e => by
    refine ⟨hφ _ _ (hp s e).1, along_imp ?_ _ _ (along_every hφ (hp s e).2 (h s e))⟩
    rintro a past' ⟨tr, rfl, hQ⟩
    exact ⟨(s, f e s) :: tr, by simp, hQ⟩

end

/-! ## Programs that may fail -/

section

variable {χ ε σ α β : Type} {Ψ : List (σ × σ) → σ × σ → Prop} {past : List (σ × σ)}

/-- `along` for programs with failures `χ`: `Q` of a result, `X` of a failure. -/
def alongE (Ψ : List (σ × σ) → σ × σ → Prop) (p : ExceptT χ (Prog ε σ) α) (Q : α → List (σ × σ) → Prop)
    (X : χ → List (σ × σ) → Prop) (past : List (σ × σ)) : Prop :=
  along Ψ p.run (fun r => match r with
    | .ok a => Q a
    | .error x => X x) past

@[simp] theorem alongE_pure (a : α) (Q : α → List (σ × σ) → Prop) (X : χ → List (σ × σ) → Prop) :
    alongE Ψ (pure a : ExceptT χ (Prog ε σ) α) Q X past = Q a past := rfl

@[simp] theorem alongE_throw (x : χ) (Q : α → List (σ × σ) → Prop) (X : χ → List (σ × σ) → Prop) :
    alongE Ψ (throw x : ExceptT χ (Prog ε σ) α) Q X past = X x past := rfl

theorem alongE_imp {Q Q' : α → List (σ × σ) → Prop} {X X' : χ → List (σ × σ) → Prop} (hQ : ∀ a past, Q a past → Q' a past)
    (hX : ∀ x past, X x past → X' x past) (p : ExceptT χ (Prog ε σ) α) (h : alongE Ψ p Q X past) : alongE Ψ p Q' X' past :=
  along_imp (by rintro (x | a) past h <;> [exact hX x past h; exact hQ a past h]) _ _ h

theorem alongE_bind (p : ExceptT χ (Prog ε σ) α) (g : α → ExceptT χ (Prog ε σ) β) (Q : β → List (σ × σ) → Prop)
    (X : χ → List (σ × σ) → Prop) :
    alongE Ψ (p >>= g) Q X past ↔ alongE Ψ p (fun a past => alongE Ψ (g a) Q X past) X past := by
  unfold alongE
  rw [ExceptT.run_bind, Prog.bind_eq, along_bind]
  refine ⟨along_imp ?_ _ _, along_imp ?_ _ _⟩ <;> rintro (x | a) past h <;> exact h

theorem alongE_ite {c : Prop} [Decidable c] {p q : ExceptT χ (Prog ε σ) α} {Q : α → List (σ × σ) → Prop}
    {X : χ → List (σ × σ) → Prop} (hp : c → alongE Ψ p Q X past) (hq : ¬c → alongE Ψ q Q X past) :
    alongE Ψ (if c then p else q) Q X past := by
  split
  · rename_i h
    exact hp h
  · rename_i h
    exact hq h

/-- A program whose every step may be taken at any time, with what its own steps tell of its end. -/
theorem alongE_every {φ : σ × σ → Prop} (hφ : ∀ past t, φ t → Ψ past t) {p : ExceptT χ (Prog ε σ) α}
    {Q : α → List (σ × σ) → Prop} {X : χ → List (σ × σ) → Prop} (hp : every φ p.run) (h : endsE p Q X) :
    alongE Ψ p (fun a past' => ∃ tr, past' = past ++ tr ∧ Q a tr) (fun x past' => ∃ tr, past' = past ++ tr ∧ X x tr) past :=
  along_imp (by rintro (x | a) past' ⟨tr, rfl, h⟩ <;> exact ⟨tr, rfl, h⟩) _ _ (along_every hφ hp h)

theorem alongE_tryCatch (p : ExceptT χ (Prog ε σ) α) (h : χ → ExceptT χ (Prog ε σ) α) (Q : α → List (σ × σ) → Prop)
    (X : χ → List (σ × σ) → Prop) :
    alongE Ψ (tryCatch p h) Q X past ↔ alongE Ψ p Q (fun x past => alongE Ψ (h x) Q X past) past := by
  show along Ψ (p.run.bind _) _ past ↔ along Ψ p.run _ past
  rw [along_bind]
  refine ⟨along_imp ?_ _ _, along_imp ?_ _ _⟩ <;> rintro (x | a) past h' <;> exact h'

end

/-! ## Threads -/

namespace System

variable {κ ε σ ρ : Type} {S : System κ ε σ ρ} {s₀ : σ} {steps : List (Taken σ)} {P : Pool κ ε σ ρ}

/-- Every step of a call satisfies `Ψ` with the steps that the call took before. -/
theorem Run.alongCall {Ψ : List (σ × σ) → σ × σ → Prop} (h : S.Run ⟨s₀, []⟩ steps P) {c : κ} {p : Prog ε σ ρ}
    {sofar later : List (Taken σ)} {t : Taken σ} (hthread : P.threads[t.thread]? = some (c, p))
    (hcode : Lib.along Ψ (S.code c) (fun _ _ => True) []) (hsteps : steps = sofar ++ t :: later) :
    Ψ (stepsOf t.thread sofar) (t.before, t.after) := by
  have htr : stepsOf t.thread steps = stepsOf t.thread sofar ++ (t.before, t.after) :: stepsOf t.thread later := by
    rw [hsteps, stepsOf_append, ← List.singleton_append, stepsOf_append, stepsOf_singleton, if_pos rfl]
    rfl
  exact (h.path hthread).along hcode htr

/-- Every step of a run satisfies `Ψ` with the steps that its thread took before. -/
theorem Run.along {Ψ : List (σ × σ) → σ × σ → Prop} (h : S.Run ⟨s₀, []⟩ steps P)
    (hcode : ∀ c, along Ψ (S.code c) (fun _ _ => True) []) {sofar later : List (Taken σ)} {t : Taken σ}
    (hsteps : steps = sofar ++ t :: later) : Ψ (stepsOf t.thread sofar) (t.before, t.after) := by
  have hlt := h.thread_lt t (by simp [hsteps])
  exact h.alongCall (List.getElem?_eq_getElem hlt) (hcode _) hsteps

end System

end Keyforge.Lib
