/-
Two runs of programs from related states. A run by inputs of a kind `good` has nothing else moving
beside it; two programs are alike when such runs of them, begun in related states, end in related
states with related results. What each call of a session does alike, the whole session does alike.
-/
import Keyforge.Lib.Prog

namespace Keyforge.Lib

/-! ## Runs by good inputs -/

/-- The program runs to its end on good inputs, with nothing else moving. -/
inductive RunsBy {ε σ α : Type} (good : ε → Prop) : Prog ε σ α → σ → α → σ → Prop
  | done (a : α) (s : σ) : RunsBy good (.done a) s a s
  | step {f : ε → σ → σ} {k : ε → σ → Prog ε σ α} {s : σ} {e : ε} {a : α} {s' : σ} (he : good e)
    (h : RunsBy good (k e s) (f e s) a s') : RunsBy good (.step f k) s a s'

section

variable {ε σ α β : Type} {good : ε → Prop}

/-- Every program comes to its end. -/
theorem exists_runsBy {e : ε} (he : good e) : ∀ (p : Prog ε σ α) (s : σ), ∃ a s', RunsBy good p s a s'
  | .done a, s => ⟨a, s, .done a s⟩
  | .step f k, s => by
    obtain ⟨a, s', h⟩ := exists_runsBy he (k e s) (f e s)
    exact ⟨a, s', .step he h⟩

theorem runsBy_done {a b : α} {s s' : σ} : RunsBy good (.done a : Prog ε σ α) s b s' ↔ b = a ∧ s' = s := by
  constructor
  · intro h
    cases h
    exact ⟨rfl, rfl⟩
  · rintro ⟨rfl, rfl⟩
    exact .done b s'

theorem runsBy_atomic {op : ε → σ → α × σ} {s s' : σ} {a : α} :
    RunsBy good (.atomic op) s a s' ↔ ∃ e, good e ∧ op e s = (a, s') := by
  constructor
  · intro h
    cases h with
    | @step _ _ _ e _ _ he h =>
      obtain ⟨rfl, rfl⟩ := runsBy_done.1 h
      exact ⟨e, he, rfl⟩
  · rintro ⟨e, he, h⟩
    have hdone : RunsBy good (.done (op e s).1) (op e s).2 a s' := runsBy_done.2 ⟨by rw [h], by rw [h]⟩
    exact .step he hdone

theorem runsBy_bind {g : α → Prog ε σ β} : ∀ {p : Prog ε σ α} {s : σ} {b : β} {t : σ},
    RunsBy good (p.bind g) s b t ↔ ∃ a s', RunsBy good p s a s' ∧ RunsBy good (g a) s' b t
  | .done a, s, b, t => by
    constructor
    · exact fun h => ⟨a, s, .done a s, h⟩
    · rintro ⟨a', s', h, h'⟩
      obtain ⟨rfl, rfl⟩ := runsBy_done.1 h
      exact h'
  | .step f k, s, b, t => by
    constructor
    · intro h
      cases h with
      | step he h =>
        obtain ⟨a, s', h₁, h₂⟩ := runsBy_bind.1 h
        exact ⟨a, s', .step he h₁, h₂⟩
    · rintro ⟨a, s', h, h'⟩
      cases h with
      | step he h => exact .step he (runsBy_bind.2 ⟨a, s', h, h'⟩)

/-- What a triple promises holds after a run by good inputs, if the protocol allows these. -/
theorem RunsBy.post {Γ : Protocol ε σ} (hrely : ∀ s, Γ.rely s s) (hallow : ∀ s e s', good e → Γ.allow s e s')
    {Q : α → σ → Prop} {p : Prog ε σ α} {s s' : σ} {a : α} (hr : RunsBy good p s a s') (hi : Γ.inv s) (h : wp Γ p Q s) :
    Q a s' := by
  induction hr with
  | done a s => exact h
  | step he _ ih =>
    obtain ⟨h1, -, h3⟩ := h _ (hrely _) hi _ (hallow _ _ _ he)
    exact ih h1 h3

end

/-! ## Programs that act alike -/

/-- Begun in related states, runs of `p` and `q` end in related states with related results. -/
def Alike {ε σ α β : Type} (good : ε → Prop) (R : σ → σ → Prop) (S : α → β → Prop) (p : Prog ε σ α) (q : Prog ε σ β) :
    Prop :=
  ∀ s s' a b t t', R s s' → RunsBy good p s a t → RunsBy good q s' b t' → S a b ∧ R t t'

namespace Alike

variable {ε σ α α' β β' : Type} {good : ε → Prop} {R : σ → σ → Prop}

theorem done {S : α → β → Prop} {a : α} {b : β} (h : S a b) : Alike good R S (.done a) (.done b) := by
  intro s s' x y t t' hR hp hq
  obtain ⟨rfl, rfl⟩ := runsBy_done.1 hp
  obtain ⟨rfl, rfl⟩ := runsBy_done.1 hq
  exact ⟨h, hR⟩

theorem bind {S : α → β → Prop} {T : α' → β' → Prop} {p : Prog ε σ α} {q : Prog ε σ β} {f : α → Prog ε σ α'}
    {g : β → Prog ε σ β'} (hpq : Alike good R S p q) (hfg : ∀ a b, S a b → Alike good R T (f a) (g b)) :
    Alike good R T (p.bind f) (q.bind g) := by
  intro s s' x y t t' hR hp hq
  obtain ⟨a, s₁, hp, hf⟩ := runsBy_bind.1 hp
  obtain ⟨b, s₂, hq, hg⟩ := runsBy_bind.1 hq
  obtain ⟨hS, hR'⟩ := hpq s s' a b s₁ s₂ hR hp hq
  exact hfg a b hS s₁ s₂ x y t t' hR' hf hg

theorem imp {S T : α → β → Prop} {p : Prog ε σ α} {q : Prog ε σ β} (h : Alike good R S p q) (hST : ∀ a b, S a b → T a b) :
    Alike good R T p q := by
  intro s s' a b t t' hR hp hq
  obtain ⟨hS, hR'⟩ := h s s' a b t t' hR hp hq
  exact ⟨hST a b hS, hR'⟩

end Alike

/-! ## Sessions -/

/-- The calls, one after another, get these answers. -/
inductive Session {κ ε σ ρ : Type} (good : ε → Prop) (code : κ → Prog ε σ ρ) : σ → List κ → List ρ → Prop
  | nil (s : σ) : Session good code s [] []
  | cons {c : κ} {cs : List κ} {s s' : σ} {r : ρ} {rs : List ρ} (h : RunsBy good (code c) s r s')
    (rest : Session good code s' cs rs) : Session good code s (c :: cs) (r :: rs)

section

variable {κ ε σ ρ : Type} {good : ε → Prop} {code : κ → Prog ε σ ρ} {R : σ → σ → Prop} {ok : ρ → Prop}

/-- Calls that act alike get the same answers in whole sessions. -/
theorem Session.eq_of_alike (hcode : ∀ c, Alike good R (· = ·) (code c) (code c)) {s s' : σ} {cs : List κ} {rs rs' : List ρ}
    (hR : R s s') (h : Session good code s cs rs) (h' : Session good code s' cs rs') : rs = rs' := by
  induction h generalizing s' rs' with
  | nil s =>
    cases h'
    rfl
  | @cons c cs s t r rs hrun _ ih =>
    cases h' with
    | @cons _ _ _ t' r' rs' hrun' hrest' =>
      obtain ⟨rfl, hR'⟩ := hcode c s s' r r' t t' hR hrun hrun'
      rw [ih hR' hrest']

/-- Every list of calls is answered, each call as `ok` says if every call is. -/
theorem exists_session {e : ε} (he : good e) (hok : ∀ c s r s', RunsBy good (code c) s r s' → ok r) :
    ∀ (cs : List κ) (s : σ), ∃ rs, Session good code s cs rs ∧ ∀ r ∈ rs, ok r
  | [], s => ⟨[], .nil s, fun _ h => absurd h List.not_mem_nil⟩
  | c :: cs, s => by
    obtain ⟨r, s', hrun⟩ := exists_runsBy he (code c) s
    obtain ⟨rs, hrest, hall⟩ := exists_session he hok cs s'
    exact ⟨r :: rs, .cons hrun hrest, List.forall_mem_cons.2 ⟨hok c s r s' hrun, hall⟩⟩

end

end Keyforge.Lib
