/-
Programs over shared storage. A program is a tree of atomic steps; each step reads an input of its
own (how far the clock moved, whether the storage call failed) and the shared state, writes the
state, and chooses how to go on. Other programs may run between any two steps.
The logic is rely and guarantee: `wp` says that from a state, under interference the rely allows,
every step keeps the invariant and the guarantee and the result satisfies the postcondition.
-/
import Mathlib.Tactic

namespace Keyforge.Lib

/-- A program with step inputs `ε` over shared states `σ`, with results `α`. -/
inductive Prog (ε σ α : Type) : Type where
  | done (a : α)
  | step (f : ε → σ → σ) (k : ε → σ → Prog ε σ α)

namespace Prog

variable {ε σ α β γ : Type}

def bind : Prog ε σ α → (α → Prog ε σ β) → Prog ε σ β
  | done a, g => g a
  | step f k, g => step f fun e s => (k e s).bind g

def isDone : Prog ε σ α → Bool
  | done _ => true
  | step _ _ => false

instance : Monad (Prog ε σ) where
  pure := done
  bind := bind

@[simp] theorem pure_eq (a : α) : (pure a : Prog ε σ α) = done a := rfl
@[simp] theorem bind_eq (p : Prog ε σ α) (g : α → Prog ε σ β) : p >>= g = p.bind g := rfl

theorem bind_done : ∀ p : Prog ε σ α, p.bind done = p
  | done _ => rfl
  | step f k => by simp only [bind, bind_done]

theorem bind_assoc (g : α → Prog ε σ β) (h : β → Prog ε σ γ) : ∀ p : Prog ε σ α,
    (p.bind g).bind h = p.bind fun a => (g a).bind h
  | done _ => rfl
  | step f k => by simp only [bind, bind_assoc]

instance : LawfulMonad (Prog ε σ) :=
  LawfulMonad.mk' _ (fun p => bind_done p) (fun _ _ => rfl) (fun p g h => bind_assoc g h p)

/-- One atomic operation. -/
def atomic (op : ε → σ → α × σ) : Prog ε σ α :=
  step (fun e s => (op e s).2) fun e s => done (op e s).1

/-- The right half of `par`: runs `q` beside a program whose next step is `f`. `left e` says which
side moves. -/
def parRight (left : ε → Bool) (f : ε → σ → σ) (p : Prog ε σ α)
    (k : ε → σ → Prog ε σ β → Prog ε σ (α × β)) : Prog ε σ β → Prog ε σ (α × β)
  | done b => p.bind fun a => done (a, b)
  | step g l => step (fun e s => if left e then f e s else g e s) fun e s =>
      if left e then k e s (step g l) else parRight left f p k (l e s)

/-- Two programs side by side, in every order of their steps; the result is both results
(`Promise.all`). -/
def par (left : ε → Bool) : Prog ε σ α → Prog ε σ β → Prog ε σ (α × β)
  | done a, q => q.bind fun b => done (a, b)
  | step f k, q => parRight left f (step f k) (fun e s => par left (k e s)) q

theorem par_done_left (left : ε → Bool) (a : α) (q : Prog ε σ β) :
    par left (done a) q = q.bind fun b => done (a, b) := rfl

theorem par_done_right (left : ε → Bool) (b : β) : ∀ p : Prog ε σ α,
    par left p (done b) = p.bind fun a => done (a, b)
  | done _ => rfl
  | step _ _ => rfl

theorem par_step (left : ε → Bool) (f g : ε → σ → σ) (k : ε → σ → Prog ε σ α) (l : ε → σ → Prog ε σ β) :
    par left (step f k) (step g l) = step (fun e s => if left e then f e s else g e s) fun e s =>
      if left e then par left (k e s) (step g l) else par left (step f k) (l e s) := rfl

end Prog

/-! ## Rely and guarantee -/

/-- What a program may assume and must keep: an invariant, the interference it tolerates, the steps
it makes, and the steps that can happen at all (from a state, on an input, to a state). -/
structure Protocol (ε σ : Type) where
  inv : σ → Prop
  rely : σ → σ → Prop
  guar : σ → σ → Prop
  allow : σ → ε → σ → Prop

/-- The rely is a preorder. -/
structure Protocol.Ok {ε σ : Type} (Γ : Protocol ε σ) : Prop where
  refl : ∀ s, Γ.rely s s
  trans : ∀ {a b c}, Γ.rely a b → Γ.rely b c → Γ.rely a c

/-- `P` survives interference. -/
def Protocol.Stable {ε σ : Type} (Γ : Protocol ε σ) (P : σ → Prop) : Prop :=
  ∀ ⦃s s'⦄, P s → Γ.rely s s' → Γ.inv s' → P s'

/-- The protocol with another guarantee. -/
def Protocol.withGuar {ε σ : Type} (Γ : Protocol ε σ) (G : σ → σ → Prop) : Protocol ε σ :=
  { Γ with guar := G }

/-- The protocol in which `P` is known throughout. -/
def Protocol.knowing {ε σ : Type} (Γ : Protocol ε σ) (P : σ → Prop) : Protocol ε σ :=
  { Γ with inv := fun s => Γ.inv s ∧ P s }

/-- Every step, taken after any interference, keeps the invariant and the guarantee; the result
satisfies `Q`. -/
def wp {ε σ α : Type} (Γ : Protocol ε σ) : Prog ε σ α → (α → σ → Prop) → σ → Prop
  | .done a, Q, s => Q a s
  | .step f k, Q, s => ∀ s', Γ.rely s s' → Γ.inv s' → ∀ e, Γ.allow s' e (f e s') →
      Γ.inv (f e s') ∧ Γ.guar s' (f e s') ∧ wp Γ (k e s') Q (f e s')

section

variable {ε σ α β : Type} {Γ : Protocol ε σ}

@[simp] theorem wp_done (a : α) (Q : α → σ → Prop) (s : σ) : wp Γ (.done a) Q s = Q a s := rfl

theorem wp_bind (g : α → Prog ε σ β) (Q : β → σ → Prop) : ∀ (p : Prog ε σ α) (s : σ),
    wp Γ (p.bind g) Q s ↔ wp Γ p (fun a => wp Γ (g a) Q) s
  | .done _, _ => Iff.rfl
  | .step f k, s => by
    simp only [Prog.bind, wp, wp_bind g Q]

theorem wp_mono {Q Q' : α → σ → Prop} (h : ∀ a s, Γ.inv s → Q a s → Q' a s) : ∀ (p : Prog ε σ α) {s : σ},
    Γ.inv s → wp Γ p Q s → wp Γ p Q' s
  | .done a, s, hi, hq => h a s hi hq
  | .step f k, s, _, hp => by
    intro s' hr hi e he
    obtain ⟨h1, h2, h3⟩ := hp s' hr hi e he
    exact ⟨h1, h2, wp_mono h _ h1 h3⟩

theorem wp_imp {Q Q' : α → σ → Prop} (h : ∀ a s, Q a s → Q' a s) : ∀ (p : Prog ε σ α) {s : σ},
    wp Γ p Q s → wp Γ p Q' s
  | .done a, s, hq => h a s hq
  | .step f k, s, hp => by
    intro s' hr hi e he
    obtain ⟨h1, h2, h3⟩ := hp s' hr hi e he
    exact ⟨h1, h2, wp_imp h _ h3⟩

/-- Interference before the first step is already counted in. -/
theorem wp_rely (hok : Γ.Ok) {Q : α → σ → Prop} (hQ : ∀ a, Γ.Stable (Q a)) : ∀ (p : Prog ε σ α) {s s' : σ},
    wp Γ p Q s → Γ.rely s s' → Γ.inv s' → wp Γ p Q s'
  | .done a, _, _, hq, hr, hi => hQ a hq hr hi
  | .step _ _, _, _, hp, hr, _ => fun s'' hr' hi e he => hp s'' (hok.trans hr hr') hi e he

/-- A program may be checked under a smaller guarantee. -/
theorem wp_withGuar {G : σ → σ → Prop} (hguar : ∀ {s s'}, G s s' → Γ.guar s s') {Q : α → σ → Prop} :
    ∀ (p : Prog ε σ α) {s : σ}, wp (Γ.withGuar G) p Q s → wp Γ p Q s
  | .done _, _, hq => hq
  | .step f k, s, hp => by
    intro s' hr hi e he
    obtain ⟨h1, h2, h3⟩ := hp s' hr hi e he
    exact ⟨h1, hguar h2, wp_withGuar hguar _ h3⟩

/-- A program may be checked with a stable fact known throughout, if its steps keep it. -/
theorem wp_knowing {P : σ → Prop} (hP : Γ.Stable P) {Q : α → σ → Prop} : ∀ (p : Prog ε σ α) {s : σ}, P s →
    wp (Γ.knowing P) p Q s → wp Γ p Q s
  | .done _, _, _, hq => hq
  | .step f k, s, h, hp => by
    intro s' hr hi e he
    obtain ⟨⟨h1, h1'⟩, h2, h3⟩ := hp s' hr ⟨hi, hP h hr hi⟩ e he
    exact ⟨h1, h2, wp_knowing hP _ h1' h3⟩

/-- A stable fact that the program's own steps keep holds beside the result. -/
theorem wp_frame {P : σ → Prop} (hP : Γ.Stable P) (hself : ∀ {s s'}, Γ.guar s s' → Γ.rely s s')
    {Q : α → σ → Prop} : ∀ (p : Prog ε σ α) {s : σ}, P s → wp Γ p Q s →
      wp Γ p (fun a s => P s ∧ Q a s) s
  | .done _, _, h, hq => ⟨h, hq⟩
  | .step f k, s, h, hp => by
    intro s' hr hi e he
    obtain ⟨h1, h2, h3⟩ := hp s' hr hi e he
    exact ⟨h1, h2, wp_frame hP hself _ (hP (hP h hr hi) (hself h2) h1) h3⟩

/-- How a protocol is shared by two programs side by side: each has its own rely and guarantee, and
tolerates the guarantee of the other. -/
structure Shares (Γ Γ₁ Γ₂ : Protocol ε σ) : Prop where
  ok : Γ₁.Ok
  inv : Γ₁.inv = Γ.inv
  allow : Γ₁.allow = Γ.allow
  rely : ∀ {s s'}, Γ.rely s s' → Γ₁.rely s s'
  guar : ∀ {s s'}, Γ₁.guar s s' → Γ.guar s s'
  cross : ∀ {s s'}, Γ₂.guar s s' → Γ₁.rely s s'

variable {Γ₁ Γ₂ : Protocol ε σ}

/-- The rest of one program when the other has ended. -/
theorem wp_shared (h₁ : Shares Γ Γ₁ Γ₂) (h₂ : Shares Γ Γ₂ Γ₁) {P : σ → Prop} (hP : Γ₁.Stable P) {Q : β → σ → Prop} :
    ∀ (q : Prog ε σ β) {s : σ}, P s → wp Γ₂ q Q s → wp Γ q (fun b s => P s ∧ Q b s) s
  | .done _, _, h, hq => ⟨h, hq⟩
  | .step f k, s, h, hq => by
    intro s' hr hi e he
    have h2 := hq s' (h₂.rely hr) (h₂.inv ▸ hi) e (h₂.allow ▸ he)
    obtain ⟨hi', hg, hrest⟩ := h2
    have hp := hP (hP h (h₁.rely hr) (h₁.inv ▸ hi)) (h₁.cross hg) (h₁.inv ▸ h₂.inv ▸ hi')
    exact ⟨h₂.inv ▸ hi', h₂.guar hg, wp_shared h₁ h₂ hP _ hp hrest⟩

/-- Two programs side by side: each is checked with the other among its interference. -/
theorem wp_parallel (h₁ : Shares Γ Γ₁ Γ₂) (h₂ : Shares Γ Γ₂ Γ₁) {left : ε → Bool} {Q : α → σ → Prop}
    {Q' : β → σ → Prop} (hQ : ∀ a, Γ₁.Stable (Q a)) (hQ' : ∀ b, Γ₂.Stable (Q' b)) :
    ∀ (p : Prog ε σ α) (q : Prog ε σ β) {s : σ}, wp Γ₁ p Q s → wp Γ₂ q Q' s →
      wp Γ (.par left p q) (fun r s => Q r.1 s ∧ Q' r.2 s) s := by
  intro p
  induction p with
  | done a =>
    intro q s hp hq
    rw [Prog.par_done_left, wp_bind]
    exact wp_shared h₁ h₂ (hQ a) q hp hq
  | step f k ihp =>
    intro q
    induction q with
    | done b =>
      intro s hp hq
      rw [Prog.par_done_right, wp_bind]
      exact wp_imp (fun _ _ h => h.symm) _ (wp_shared h₂ h₁ (hQ' b) _ hq hp)
    | step g l ihq =>
      intro s hp hq
      rw [Prog.par_step]
      intro s' hr hi e he
      beta_reduce at he ⊢
      cases hl : left e with
      | true =>
        simp only [hl, if_true] at he ⊢
        obtain ⟨hi', hg, hrest⟩ := hp s' (h₁.rely hr) (h₁.inv ▸ hi) e (h₁.allow ▸ he)
        have hi'' : Γ.inv (f e s') := h₁.inv ▸ hi'
        exact ⟨hi'', h₁.guar hg, ihp e s' _ hrest
          (wp_rely h₂.ok hQ' _ hq (h₂.ok.trans (h₂.rely hr) (h₂.cross hg)) (h₂.inv ▸ hi''))⟩
      | false =>
        simp only [hl, Bool.false_eq_true, if_false] at he ⊢
        obtain ⟨hi', hg, hrest⟩ := hq s' (h₂.rely hr) (h₂.inv ▸ hi) e (h₂.allow ▸ he)
        have hi'' : Γ.inv (g e s') := h₂.inv ▸ hi'
        exact ⟨hi'', h₂.guar hg, ihq e s'
          (wp_rely h₁.ok hQ _ hp (h₁.ok.trans (h₁.rely hr) (h₁.cross hg)) (h₁.inv ▸ hi'')) hrest⟩

/-- Two programs side by side whose steps are such as they tolerate. -/
theorem wp_par (hok : Γ.Ok) (hself : ∀ {s s'}, Γ.guar s s' → Γ.rely s s') {left : ε → Bool}
    {Q : α → σ → Prop} {Q' : β → σ → Prop} (hQ : ∀ a, Γ.Stable (Q a)) (hQ' : ∀ b, Γ.Stable (Q' b))
    (p : Prog ε σ α) (q : Prog ε σ β) {s : σ} (hp : wp Γ p Q s) (hq : wp Γ q Q' s) :
    wp Γ (.par left p q) (fun r s => Q r.1 s ∧ Q' r.2 s) s := by
  have h : Shares Γ Γ Γ := ⟨hok, rfl, rfl, id, id, hself⟩
  exact wp_parallel h h hQ hQ' p q hp hq

end

/-! ## Lone runs -/

/-- The program runs to its end on some inputs, with nothing else moving. -/
inductive Runs {ε σ α : Type} : Prog ε σ α → σ → α → σ → Prop
  | done (a : α) (s : σ) : Runs (.done a) s a s
  | step {f : ε → σ → σ} {k : ε → σ → Prog ε σ α} {s : σ} (e : ε) {a : α} {s' : σ} (h : Runs (k e s) (f e s) a s') :
    Runs (.step f k) s a s'

section

variable {ε σ α : Type}

/-- What a triple promises holds after a lone run. -/
theorem Runs.post {Γ : Protocol ε σ} (hrely : ∀ s, Γ.rely s s) (hallow : ∀ s e s', Γ.allow s e s') {Q : α → σ → Prop}
    {p : Prog ε σ α} {s : σ} {a : α} {s' : σ} (hr : Runs p s a s') (hi : Γ.inv s) (h : wp Γ p Q s) : Q a s' := by
  induction hr with
  | done a s => exact h
  | step e hr ih =>
    obtain ⟨h1, -, h3⟩ := h _ (hrely _) hi e (hallow _ _ _)
    exact ih h1 h3

/-- The lone run on one input for all steps, if it ends within `n` of them. -/
def runOn (e : ε) : Nat → Prog ε σ α → σ → Option (α × σ)
  | _, .done a, s => some (a, s)
  | 0, .step _ _, _ => none
  | n + 1, .step f k, s => runOn e n (k e s) (f e s)

theorem runs_of_runOn {e : ε} : ∀ {n : Nat} {p : Prog ε σ α} {s : σ} {a : α} {s' : σ}, runOn e n p s = some (a, s') →
    Runs p s a s'
  | n, .done a, s, _, _, h => by
    rw [runOn] at h
    cases h
    exact .done a s
  | 0, .step _ _, _, _, _, h => by cases h
  | n + 1, .step f k, s, _, _, h => .step e (runs_of_runOn h)

end

/-! ## Programs that may fail -/

section

variable {χ ε σ α β : Type} {Γ : Protocol ε σ}

/-- `wp` for programs with failures `χ`: `Q` holds of a result, `X` of a failure. -/
def wpE (Γ : Protocol ε σ) (p : ExceptT χ (Prog ε σ) α) (Q : α → σ → Prop) (X : χ → σ → Prop) (s : σ) : Prop :=
  wp Γ p.run (fun r => match r with
    | .ok a => Q a
    | .error x => X x) s

@[simp] theorem wpE_pure (a : α) (Q : α → σ → Prop) (X : χ → σ → Prop) (s : σ) :
    wpE Γ (pure a) Q X s = Q a s := rfl

@[simp] theorem wpE_throw (x : χ) (Q : α → σ → Prop) (X : χ → σ → Prop) (s : σ) :
    wpE Γ (throw x : ExceptT χ (Prog ε σ) α) Q X s = X x s := rfl

theorem wpE_bind (p : ExceptT χ (Prog ε σ) α) (g : α → ExceptT χ (Prog ε σ) β) (Q : β → σ → Prop)
    (X : χ → σ → Prop) (s : σ) :
    wpE Γ (p >>= g) Q X s ↔ wpE Γ p (fun a => wpE Γ (g a) Q X) X s := by
  unfold wpE
  rw [ExceptT.run_bind, Prog.bind_eq, wp_bind]
  refine ⟨wp_imp ?_ _, wp_imp ?_ _⟩ <;> rintro (x | a) s h <;> exact h

theorem wpE_ite {c : Prop} [Decidable c] (p q : ExceptT χ (Prog ε σ) α) (Q : α → σ → Prop) (X : χ → σ → Prop) (s : σ) :
    wpE Γ (if c then p else q) Q X s ↔ (c → wpE Γ p Q X s) ∧ (¬ c → wpE Γ q Q X s) := by
  split
  · rename_i h
    exact ⟨fun hp => ⟨fun _ => hp, fun hn => absurd h hn⟩, fun hp => hp.1 h⟩
  · rename_i h
    exact ⟨fun hq => ⟨fun hc => absurd hc h, fun _ => hq⟩, fun hq => hq.2 h⟩

theorem wpE_tryCatch (p : ExceptT χ (Prog ε σ) α) (h : χ → ExceptT χ (Prog ε σ) α) (Q : α → σ → Prop)
    (X : χ → σ → Prop) (s : σ) :
    wpE Γ (tryCatch p h) Q X s ↔ wpE Γ p Q (fun x => wpE Γ (h x) Q X) s := by
  show wp Γ (p.run.bind _) _ s ↔ wp Γ p.run _ s
  rw [wp_bind]
  refine ⟨wp_imp ?_ _, wp_imp ?_ _⟩ <;> rintro (x | a) s h <;> exact h

theorem wpE_imp {Q Q' : α → σ → Prop} {X X' : χ → σ → Prop} (hQ : ∀ a s, Q a s → Q' a s)
    (hX : ∀ x s, X x s → X' x s) (p : ExceptT χ (Prog ε σ) α) {s : σ} (h : wpE Γ p Q X s) :
    wpE Γ p Q' X' s := by
  refine wp_imp ?_ _ h
  rintro (x | a) s h
  · exact hX x s h
  · exact hQ a s h

theorem wpE_mono {Q Q' : α → σ → Prop} {X X' : χ → σ → Prop} (hQ : ∀ a s, Γ.inv s → Q a s → Q' a s)
    (hX : ∀ x s, Γ.inv s → X x s → X' x s) (p : ExceptT χ (Prog ε σ) α) {s : σ} (hi : Γ.inv s)
    (h : wpE Γ p Q X s) : wpE Γ p Q' X' s := by
  refine wp_mono ?_ _ hi h
  rintro (x | a) s hi h
  · exact hX x s hi h
  · exact hQ a s hi h

end

end Keyforge.Lib
