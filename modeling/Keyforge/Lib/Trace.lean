/-
A program alone, up to any point of it. The state of such a program is the trace of its own events,
newest first, and each event is judged by the events before it. An invariant of the trace then holds
whenever the program is stopped, and the postcondition when it has ended.
-/
import Keyforge.Lib.Prog

namespace Keyforge.Lib

/-! ## Up to any point -/

/-- Alone, `p` comes from one state to another, where `q` is what is left of it. -/
inductive Comes {ε σ α : Type} : Prog ε σ α → σ → Prog ε σ α → σ → Prop
  | refl (p : Prog ε σ α) (s : σ) : Comes p s p s
  | step {f : ε → σ → σ} {k : ε → σ → Prog ε σ α} {s : σ} {q : Prog ε σ α} {s' : σ} (e : ε)
    (h : Comes (k e s) (f e s) q s') : Comes (.step f k) s q s'

section

variable {ε σ α : Type}

/-- At every point the invariant holds, and the rest of the program does what the whole was to do. -/
theorem Comes.post {Γ : Protocol ε σ} (hrely : ∀ s, Γ.rely s s) (hallow : ∀ s e s', Γ.allow s e s') {Q : α → σ → Prop}
    {p q : Prog ε σ α} {s s' : σ} (hc : Comes p s q s') (hi : Γ.inv s) (h : wp Γ p Q s) : Γ.inv s' ∧ wp Γ q Q s' := by
  induction hc with
  | refl p s => exact ⟨hi, h⟩
  | step e _ ih =>
    obtain ⟨h1, -, h3⟩ := h _ (hrely _) hi e (hallow _ _ _)
    exact ih h1 h3

/-- Where the program is after these inputs. -/
def follow : List ε → Prog ε σ α → σ → Prog ε σ α × σ
  | e :: es, .step f k, s => follow es (k e s) (f e s)
  | _, p, s => (p, s)

theorem comes_follow : ∀ (es : List ε) (p : Prog ε σ α) (s : σ), Comes p s (follow es p s).1 (follow es p s).2
  | [], p, s => by
    cases p <;> exact .refl _ _
  | _ :: _, .done a, s => .refl _ _
  | e :: es, .step f k, s => .step e (comes_follow es (k e s) (f e s))

end

/-! ## Events and what came before them -/

/-- Each event of the trace is in the relation to the events before it. -/
def Each {τ : Type} (R : τ → List τ → Prop) (trace : List τ) : Prop :=
  ∀ later event earlier, trace = later ++ event :: earlier → R event earlier

section

variable {τ : Type} {R : τ → List τ → Prop}

theorem each_nil : Each R [] := by
  intro later event earlier h
  cases later <;> cases h

theorem each_cons {event : τ} {earlier : List τ} : Each R (event :: earlier) ↔ R event earlier ∧ Each R earlier := by
  constructor
  · intro h
    refine ⟨h [] event earlier rfl, fun later event' earlier' heq => ?_⟩
    exact h (event :: later) event' earlier' (by rw [heq, List.cons_append])
  · rintro ⟨hevent, hrest⟩ later event' earlier' heq
    cases later with
    | nil =>
      cases heq
      exact hevent
    | cons first later =>
      cases heq
      exact hrest later event' earlier' rfl

end

/-! ## Programs that trace their events -/

/-- Nothing else writes the trace, which keeps the invariant. -/
def tracing {ε τ : Type} (inv : List τ → Prop) : Protocol ε (List τ) :=
  ⟨inv, fun s s' => s' = s, fun _ _ => True, fun _ _ _ => True⟩

/-- One operation, which leaves an event. -/
def record {χ ε τ α : Type} (op : ε → Except χ α × τ) : ExceptT χ (Prog ε (List τ)) α :=
  ExceptT.mk (.atomic fun e trace => ((op e).1, (op e).2 :: trace))

/-- What `p` comes to is an event of its own. -/
def recordOutcome {χ ε τ α : Type} (event : Except χ α → τ) (p : ExceptT χ (Prog ε (List τ)) α) :
    ExceptT χ (Prog ε (List τ)) α :=
  ExceptT.mk (p.run.bind fun outcome => .atomic fun _ trace => (outcome, event outcome :: trace))

/-- A result that is already there. -/
def settledAs {χ ε σ α : Type} (result : Except χ α) : ExceptT χ (Prog ε σ) α :=
  ExceptT.mk (.done result)

section

variable {χ ε τ α : Type} {inv : List τ → Prop} {Q : α → List τ → Prop} {X : χ → List τ → Prop} {trace : List τ}

theorem wpE_record {op : ε → Except χ α × τ}
    (h : ∀ e, inv ((op e).2 :: trace) ∧ (∀ a, (op e).1 = .ok a → Q a ((op e).2 :: trace)) ∧
      ∀ x, (op e).1 = .error x → X x ((op e).2 :: trace)) : wpE (tracing inv) (record op) Q X trace := by
  rintro _ rfl _ e -
  obtain ⟨hinv, hok, herror⟩ := h e
  refine ⟨hinv, trivial, ?_⟩
  cases hr : (op e).1 with
  | ok a => simpa [hr] using hok a hr
  | error x => simpa [hr] using herror x hr

theorem wpE_recordOutcome {event : Except χ α → τ} {p : ExceptT χ (Prog ε (List τ)) α}
    (h : wpE (tracing inv) p (fun a trace => inv (event (.ok a) :: trace) ∧ Q a (event (.ok a) :: trace))
      (fun x trace => inv (event (.error x) :: trace) ∧ X x (event (.error x) :: trace)) trace) :
    wpE (tracing inv) (recordOutcome event p) Q X trace := by
  show wp _ (p.run.bind _) _ trace
  rw [wp_bind]
  refine wp_imp ?_ _ h
  rintro (x | a) trace ⟨hinv, hq⟩ _ rfl _ e -
  · exact ⟨hinv, trivial, hq⟩
  · exact ⟨hinv, trivial, hq⟩

theorem wpE_settledAs {Γ : Protocol ε (List τ)} {result : Except χ α} (hok : ∀ a, result = .ok a → Q a trace)
    (herror : ∀ x, result = .error x → X x trace) : wpE Γ (settledAs result) Q X trace := by
  cases result with
  | ok a => exact hok a rfl
  | error x => exact herror x rfl

/-- At every point the trace keeps the invariant, and a result has what was promised of it. -/
theorem Comes.traced {p : ExceptT χ (Prog ε (List τ)) α} {q : Prog ε (List τ) (Except χ α)} {trace' : List τ}
    (hc : Comes p.run trace q trace') (hi : inv trace) (h : wpE (tracing inv) p Q X trace) :
    inv trace' ∧ ∀ a, q = .done (.ok a) → Q a trace' := by
  obtain ⟨hinv, hrest⟩ := hc.post (Γ := tracing inv) (fun _ => rfl) (fun _ _ _ => trivial) hi h
  refine ⟨hinv, ?_⟩
  rintro a rfl
  exact hrest

end

end Keyforge.Lib
