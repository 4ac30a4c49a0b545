/-
Programs that leave the state alone. On good inputs every step of such a program leads back to the state
it began in, so all of its runs see that one state, in whatever order its parts take their steps.
-/
import Keyforge.Lib.TwoRuns

namespace Keyforge.Lib

/-- On good inputs the steps of `p` leave the state `s` as it is, and the result satisfies `Q`. -/
def reads {ε σ α : Type} (good : ε → Prop) (s : σ) : Prog ε σ α → (α → Prop) → Prop
  | .done a, Q => Q a
  | .step f k, Q => ∀ e, good e → f e s = s ∧ reads good s (k e s) Q

section

variable {ε σ α β : Type} {good : ε → Prop} {s : σ}

theorem RunsBy.reads {p : Prog ε σ α} {a : α} {s' : σ} (h : RunsBy good p s a s') : ∀ {Q : α → Prop},
    Lib.reads good s p Q → Q a ∧ s' = s := by
  induction h with
  | done a s => exact fun hQ => ⟨hQ, rfl⟩
  | step he _ ih =>
    intro Q hp
    obtain ⟨hsame, hrest⟩ := hp _ he
    rw [hsame] at ih
    exact ih hrest

/-- The lone run on one good input for all steps. -/
theorem runsBy_of_runOn {e : ε} (he : good e) : ∀ {n : Nat} {p : Prog ε σ α} {s : σ} {a : α} {s' : σ},
    runOn e n p s = some (a, s') → RunsBy good p s a s'
  | 0, .done a, s, _, _, h => by
    cases h
    exact .done a s
  | _ + 1, .done a, s, _, _, h => by
    cases h
    exact .done a s
  | 0, .step _ _, _, _, _, h => by cases h
  | _ + 1, .step _ _, _, _, _, h => .step he (runsBy_of_runOn he h)

theorem reads_imp {Q Q' : α → Prop} (h : ∀ a, Q a → Q' a) : ∀ (p : Prog ε σ α), reads good s p Q → reads good s p Q'
  | .done a, hp => h a hp
  | .step _ k, hp => fun e he => ⟨(hp e he).1, reads_imp h (k e s) (hp e he).2⟩

theorem reads_bind (g : α → Prog ε σ β) (Q : β → Prop) : ∀ (p : Prog ε σ α),
    reads good s (p.bind g) Q ↔ reads good s p fun a => reads good s (g a) Q
  | .done _ => Iff.rfl
  | .step f k => by
    simp only [Prog.bind, reads]
    exact forall_congr' fun e => forall_congr' fun _ => and_congr_right fun _ => reads_bind g Q (k e s)

/-- Two programs side by side, in every order of their steps. -/
theorem reads_par {left : ε → Bool} : ∀ (p : Prog ε σ α) (q : Prog ε σ β) {Q : α → Prop} {R : β → Prop},
    reads good s p Q → reads good s q R → reads good s (.par left p q) fun r => Q r.1 ∧ R r.2 := by
  intro p
  induction p with
  | done a =>
    intro q Q R hp hq
    rw [Prog.par_done_left, reads_bind]
    exact reads_imp (fun b hb => ⟨hp, hb⟩) q hq
  | step f k ihp =>
    intro q
    induction q with
    | done b =>
      intro Q R hp hq
      rw [Prog.par_done_right, reads_bind]
      exact reads_imp (fun a ha => ⟨ha, hq⟩) _ hp
    | step g l ihq =>
      intro Q R hp hq
      rw [Prog.par_step]
      intro e he
      obtain ⟨hf, hk⟩ := hp e he
      obtain ⟨hg, hl⟩ := hq e he
      beta_reduce
      cases left e with
      | true => exact ⟨hf, ihp e s (.step g l) hk hq⟩
      | false => exact ⟨hg, ihq e s hp hl⟩

end

end Keyforge.Lib
