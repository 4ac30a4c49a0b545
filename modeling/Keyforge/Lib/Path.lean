/-
What one program does, whatever runs beside it. A path lists the program's own steps, each with the
state before it and the state after; between two of them the state may change in any way. In a pool
the steps of a thread's path are steps of the run.
-/
import Keyforge.Lib.Pool

namespace Keyforge.Lib

/-- `p` takes the steps `tr`, and `q` is what is left of it. -/
inductive Path {ε σ α : Type} : Prog ε σ α → List (σ × σ) → Prog ε σ α → Prop
  | nil (p : Prog ε σ α) : Path p [] p
  | step {f : ε → σ → σ} {k : ε → σ → Prog ε σ α} {tr : List (σ × σ)} {q : Prog ε σ α} (s : σ) (e : ε)
    (h : Path (k e s) tr q) : Path (.step f k) ((s, f e s) :: tr) q

/-- Every path of `p` to its end satisfies `Q`, with the result. -/
def ends {ε σ α : Type} : Prog ε σ α → (α → List (σ × σ) → Prop) → Prop
  | .done a, Q => Q a []
  | .step f k, Q => ∀ s e, ends (k e s) fun a tr => Q a ((s, f e s) :: tr)

section

variable {ε σ α β : Type}

theorem Path.trans {p q r : Prog ε σ α} {tr tr' : List (σ × σ)} (h : Path p tr q) (h' : Path q tr' r) :
    Path p (tr ++ tr') r := by
  induction h with
  | nil p => exact h'
  | step s e _ ih => exact .step s e (ih h')

theorem Path.snoc {p : Prog ε σ α} {f : ε → σ → σ} {k : ε → σ → Prog ε σ α} {tr : List (σ × σ)}
    (h : Path p tr (.step f k)) (s : σ) (e : ε) : Path p (tr ++ [(s, f e s)]) (k e s) :=
  h.trans (.step s e (.nil _))

/-- A lone run is a path. -/
theorem Runs.path {p : Prog ε σ α} {s s' : σ} {a : α} (h : Runs p s a s') : ∃ tr, Path p tr (.done a) := by
  induction h with
  | done a s => exact ⟨[], .nil _⟩
  | step e _ ih =>
    obtain ⟨tr, hpath⟩ := ih
    exact ⟨_, .step _ e hpath⟩

theorem ends_iff {Q : α → List (σ × σ) → Prop} : ∀ {p : Prog ε σ α},
    ends p Q ↔ ∀ tr a, Path p tr (.done a) → Q a tr
  | .done a => by
    refine ⟨fun h tr b hp => ?_, fun h => h [] a (.nil _)⟩
    cases hp
    exact h
  | .step f k => by
    refine ⟨fun h tr a hp => ?_, fun h s e => ends_iff.2 fun tr a hp => h _ a (.step s e hp)⟩
    cases hp with
    | step s e hp => exact ends_iff.1 (h s e) _ a hp

theorem Path.post {p : Prog ε σ α} {tr : List (σ × σ)} {a : α} (h : Path p tr (.done a)) {Q : α → List (σ × σ) → Prop}
    (hQ : ends p Q) : Q a tr :=
  ends_iff.1 hQ tr a h

theorem ends_imp {Q Q' : α → List (σ × σ) → Prop} (h : ∀ a tr, Q a tr → Q' a tr) (p : Prog ε σ α) (hp : ends p Q) :
    ends p Q' :=
  ends_iff.2 fun tr a hpath => h a tr (hpath.post hp)

theorem ends_and {Q Q' : α → List (σ × σ) → Prop} {p : Prog ε σ α} (h : ends p Q) (h' : ends p Q') :
    ends p fun a tr => Q a tr ∧ Q' a tr :=
  ends_iff.2 fun _ _ hpath => ⟨hpath.post h, hpath.post h'⟩

/-- What every end of a program satisfies, its triples may add. -/
theorem wp_ends {Γ : Protocol ε σ} {Q : α → σ → Prop} {R : α → Prop} : ∀ (p : Prog ε σ α) {s : σ}, wp Γ p Q s →
    ends p (fun a _ => R a) → wp Γ p (fun a s => Q a s ∧ R a) s
  | .done _, _, h, h' => ⟨h, h'⟩
  | .step _ k, _, h, h' => fun s hr hi e he => by
    obtain ⟨h1, h2, h3⟩ := h s hr hi e he
    exact ⟨h1, h2, wp_ends (k e s) h3 (h' s e)⟩

/-- Where anything may intervene, every step of a program keeps its guarantee. -/
theorem ends_guar {Γ : Protocol ε σ} (hinv : ∀ s, Γ.inv s) (hrely : ∀ s s', Γ.rely s s') (hallow : ∀ s e s', Γ.allow s e s')
    {Q : α → σ → Prop} : ∀ (p : Prog ε σ α) {s : σ}, wp Γ p Q s → ends p fun _ tr => ∀ t ∈ tr, Γ.guar t.1 t.2
  | .done _, _, _ => fun t ht => absurd ht List.not_mem_nil
  | .step f k, s, h => fun s' e => by
    obtain ⟨-, hguar, hrest⟩ := h s' (hrely s s') (hinv s') e (hallow _ _ _)
    refine ends_imp (fun a tr htr t ht => ?_) _ (ends_guar hinv hrely hallow (k e s') hrest)
    rcases List.mem_cons.1 ht with rfl | ht
    · exact hguar
    · exact htr t ht

theorem ends_bind (g : α → Prog ε σ β) : ∀ (p : Prog ε σ α) (Q : β → List (σ × σ) → Prop),
    ends (p.bind g) Q ↔ ends p fun a tr => ends (g a) fun b tr' => Q b (tr ++ tr')
  | .done _, _ => Iff.rfl
  | .step f k, Q => by
    simp only [Prog.bind, ends, List.cons_append]
    exact forall_congr' fun s => forall_congr' fun e => ends_bind g (k e s) _

/-- What a program saw, it also saw with more steps between. -/
def Lasting (Q : α → List (σ × σ) → Prop) : Prop :=
  ∀ a {tr tr' : List (σ × σ)}, tr.Sublist tr' → Q a tr → Q a tr'

theorem Lasting.cons {Q : α → List (σ × σ) → Prop} (hQ : Lasting Q) (t : σ × σ) : Lasting fun a tr => Q a (t :: tr) :=
  fun a _ _ hsub h => hQ a (hsub.cons_cons t) h

theorem Lasting.append {Q : α → List (σ × σ) → Prop} (hQ : Lasting Q) (tr : List (σ × σ)) :
    Lasting fun a tr' => Q a (tr ++ tr') :=
  fun a _ _ hsub h => hQ a (hsub.append_left tr) h

/-- Two programs side by side: each saw what it sees alone. -/
theorem ends_par {left : ε → Bool} : ∀ (p : Prog ε σ α) (q : Prog ε σ β) {Q : α → List (σ × σ) → Prop}
    {Q' : β → List (σ × σ) → Prop}, Lasting Q → Lasting Q' → ends p Q → ends q Q' →
      ends (.par left p q) fun r tr => Q r.1 tr ∧ Q' r.2 tr := by
  intro p
  induction p with
  | done a =>
    intro q Q Q' hQ hQ' hp hq
    rw [Prog.par_done_left, ends_bind]
    refine ends_imp (fun b tr hb => ?_) _ hq
    rw [ends, List.append_nil]
    exact ⟨hQ a (List.nil_sublist tr) hp, hb⟩
  | step f k ihp =>
    intro q
    induction q with
    | done b =>
      intro Q Q' hQ hQ' hp hq
      rw [Prog.par_done_right, ends_bind]
      refine ends_imp (fun a tr ha => ?_) _ hp
      rw [ends, List.append_nil]
      exact ⟨ha, hQ' b (List.nil_sublist tr) hq⟩
    | step g l ihq =>
      intro Q Q' hQ hQ' hp hq
      rw [Prog.par_step]
      intro s e
      beta_reduce
      cases hl : left e with
      | true =>
        simp only [if_true]
        refine ends_imp (fun r tr h => ⟨h.1, ?_⟩) _ (ihp e s (.step g l) (hQ.cons _) hQ' (hp s e) hq)
        exact hQ' r.2 (List.sublist_cons_self _ tr) h.2
      | false =>
        simp only [Bool.false_eq_true, if_false]
        refine ends_imp (fun r tr h => ⟨?_, h.2⟩) _ (ihq e s hQ (hQ'.cons _) hp (hq s e))
        exact hQ r.1 (List.sublist_cons_self _ tr) h.1

end

/-! ## Programs that may fail -/

section

variable {χ ε σ α β : Type}

/-- `ends` for programs with failures `χ`: `Q` of a result, `X` of a failure. -/
def endsE (p : ExceptT χ (Prog ε σ) α) (Q : α → List (σ × σ) → Prop) (X : χ → List (σ × σ) → Prop) : Prop :=
  ends p.run fun r => match r with
    | .ok a => Q a
    | .error x => X x

@[simp] theorem endsE_pure (a : α) (Q : α → List (σ × σ) → Prop) (X : χ → List (σ × σ) → Prop) :
    endsE (pure a : ExceptT χ (Prog ε σ) α) Q X = Q a [] := rfl

@[simp] theorem endsE_throw (x : χ) (Q : α → List (σ × σ) → Prop) (X : χ → List (σ × σ) → Prop) :
    endsE (throw x : ExceptT χ (Prog ε σ) α) Q X = X x [] := rfl

theorem endsE_iff {p : ExceptT χ (Prog ε σ) α} {Q : α → List (σ × σ) → Prop} {X : χ → List (σ × σ) → Prop} :
    endsE p Q X ↔ (∀ tr a, Path p.run tr (.done (.ok a)) → Q a tr) ∧ ∀ tr x, Path p.run tr (.done (.error x)) → X x tr := by
  refine ⟨fun h => ⟨fun tr a hp => hp.post h, fun tr x hp => hp.post h⟩, fun h => ends_iff.2 fun tr r hp => ?_⟩
  cases r with
  | ok a => exact h.1 tr a hp
  | error x => exact h.2 tr x hp

theorem endsE_imp {Q Q' : α → List (σ × σ) → Prop} {X X' : χ → List (σ × σ) → Prop} (hQ : ∀ a tr, Q a tr → Q' a tr)
    (hX : ∀ x tr, X x tr → X' x tr) (p : ExceptT χ (Prog ε σ) α) (h : endsE p Q X) : endsE p Q' X' := by
  rw [endsE_iff] at h ⊢
  exact ⟨fun tr a hp => hQ a tr (h.1 tr a hp), fun tr x hp => hX x tr (h.2 tr x hp)⟩

theorem endsE_bind (p : ExceptT χ (Prog ε σ) α) (g : α → ExceptT χ (Prog ε σ) β) (Q : β → List (σ × σ) → Prop)
    (X : χ → List (σ × σ) → Prop) :
    endsE (p >>= g) Q X ↔
      endsE p (fun a tr => endsE (g a) (fun b tr' => Q b (tr ++ tr')) fun x tr' => X x (tr ++ tr')) X := by
  unfold endsE
  rw [ExceptT.run_bind, Prog.bind_eq, ends_bind]
  refine ⟨ends_imp ?_ _, ends_imp ?_ _⟩ <;> rintro (x | a) tr h
  · simpa [ends] using h
  · exact ends_imp (by rintro (x | b) tr' h <;> exact h) _ h
  · simpa [ends] using h
  · exact ends_imp (by rintro (x | b) tr' h <;> exact h) _ h

theorem endsE_tryCatch (p : ExceptT χ (Prog ε σ) α) (h : χ → ExceptT χ (Prog ε σ) α) (Q : α → List (σ × σ) → Prop)
    (X : χ → List (σ × σ) → Prop) :
    endsE (tryCatch p h) Q X ↔
      endsE p Q fun x tr => endsE (h x) (fun b tr' => Q b (tr ++ tr')) fun y tr' => X y (tr ++ tr') := by
  show ends (p.run.bind _) _ ↔ ends p.run _
  rw [ends_bind]
  refine ⟨ends_imp ?_ _, ends_imp ?_ _⟩ <;> rintro (x | a) tr h'
  · exact ends_imp (by rintro (x | b) tr' h <;> exact h) _ h'
  · simpa [ends] using h'
  · exact ends_imp (by rintro (x | b) tr' h <;> exact h) _ h'
  · simpa [ends] using h'

theorem wpE_ends {Γ : Protocol ε σ} {p : ExceptT χ (Prog ε σ) α} {Q : α → σ → Prop} {X : χ → σ → Prop} {R : α → Prop}
    {s : σ} (h : wpE Γ p Q X s) (h' : endsE p (fun a _ => R a) fun _ _ => True) : wpE Γ p (fun a s => Q a s ∧ R a) X s := by
  refine wp_imp ?_ _ (wp_ends (R := fun r => ∀ a, r = .ok a → R a) p.run h ?_)
  · rintro (x | a) s ⟨hq, hr⟩
    · exact hq
    · exact ⟨hq, hr a rfl⟩
  · refine ends_imp ?_ _ h'
    rintro (x | a) tr hr b hb
    · cases hb
    · cases hb
      exact hr

theorem endsE_ite {c : Prop} [Decidable c] {p q : ExceptT χ (Prog ε σ) α} {Q : α → List (σ × σ) → Prop}
    {X : χ → List (σ × σ) → Prop} (hp : c → endsE p Q X) (hq : ¬ c → endsE q Q X) : endsE (if c then p else q) Q X := by
  split
  · rename_i h
    exact hp h
  · rename_i h
    exact hq h

end

/-! ## Threads -/

namespace System

variable {κ ε σ ρ : Type} {S : System κ ε σ ρ}

/-- The run from `P₀` to `P` has this step. -/
def Passed (S : System κ ε σ ρ) (P₀ P : Pool κ ε σ ρ) (t : σ × σ) : Prop :=
  ∃ P₁ P₂, S.Reach P₀ P₁ ∧ S.Step P₁ P₂ ∧ S.Reach P₂ P ∧ P₁.store = t.1 ∧ P₂.store = t.2

theorem Passed.next {P₀ P P' : Pool κ ε σ ρ} {t : σ × σ} (h : S.Passed P₀ P t) (hs : S.Step P P') : S.Passed P₀ P' t := by
  obtain ⟨P₁, P₂, h₁, hstep, h₂, hbefore, hafter⟩ := h
  exact ⟨P₁, P₂, h₁, hstep, h₂.next hs, hbefore, hafter⟩

/-- Every thread has taken a path whose steps are steps of the run. -/
theorem Reach.path {s₀ : σ} {P : Pool κ ε σ ρ} (h : S.Reach ⟨s₀, []⟩ P) :
    ∀ t ∈ P.threads, ∃ tr, Path (S.code t.1) tr t.2 ∧ ∀ x ∈ tr, S.Passed ⟨s₀, []⟩ P x := by
  induction h with
  | refl => exact fun t ht => absurd ht List.not_mem_nil
  | @next P P' hP hs ih =>
    have hold : ∀ t ∈ P.threads, ∃ tr, Path (S.code t.1) tr t.2 ∧ ∀ x ∈ tr, S.Passed ⟨s₀, []⟩ P' x := by
      intro t ht
      obtain ⟨tr, hpath, htr⟩ := ih t ht
      exact ⟨tr, hpath, fun x hx => (htr x hx).next hs⟩
    have hs' := hs
    cases hs with
    | arrive hc =>
      intro t ht
      rcases List.mem_append.1 ht with ht | ht
      · exact hold t ht
      · rw [List.mem_singleton.1 ht]
        exact ⟨[], .nil _, fun _ hx => absurd hx List.not_mem_nil⟩
    | @run s pre post c f k e he =>
      intro t ht
      have hcase : t = (c, k e s) ∨ t ∈ pre ++ (c, .step f k) :: post := by
        rcases List.mem_append.1 ht with ht | ht
        · exact Or.inr (List.mem_append_left _ ht)
        · rcases List.mem_cons.1 ht with rfl | ht
          · exact Or.inl rfl
          · exact Or.inr (List.mem_append_right _ (List.mem_cons_of_mem _ ht))
      rcases hcase with rfl | ht
      · obtain ⟨tr, hpath, htr⟩ := hold (c, .step f k) (by simp)
        refine ⟨tr ++ [(s, f e s)], hpath.snoc s e, fun x hx => ?_⟩
        rcases List.mem_append.1 hx with hx | hx
        · exact htr x hx
        · rw [List.mem_singleton.1 hx]
          exact ⟨_, _, hP, hs', .refl, rfl, rfl⟩
      · exact hold t ht

end System

end Keyforge.Lib
