/-
Runs with their steps. A run lists what its threads did, in order: each step with the thread that took
it and the states before and after it. The steps of one thread are the path of its program, the steps of
all of them lead from the first state to the last, and a fact that changed along the way changed at one
of them.
-/
import Keyforge.Lib.Path

namespace Keyforge.Lib

/-- A step of a run: the thread that took it, and the states before and after it. -/
structure Taken (σ : Type) where
  thread : Nat
  before : σ
  after : σ

/-- The steps of one thread, as its path lists them. -/
def stepsOf {σ : Type} (i : Nat) (steps : List (Taken σ)) : List (σ × σ) :=
  (steps.filter (·.thread = i)).map fun t => (t.before, t.after)

section

variable {σ : Type} {i : Nat} {steps steps' : List (Taken σ)} {t : Taken σ}

theorem stepsOf_append : stepsOf i (steps ++ steps') = stepsOf i steps ++ stepsOf i steps' := by
  rw [stepsOf, List.filter_append, List.map_append]
  rfl

theorem stepsOf_singleton : stepsOf i [t] = if t.thread = i then [(t.before, t.after)] else [] := by
  by_cases h : t.thread = i <;> simp [stepsOf, h]

/-- The last step of a thread: after it only others have moved. -/
theorem stepsOf_last {before : List (σ × σ)} {x : σ × σ} : ∀ {steps : List (Taken σ)}, stepsOf i steps = before ++ [x] →
    ∃ older t others, steps = older ++ t :: others ∧ t.thread = i ∧ (t.before, t.after) = x ∧ stepsOf i older = before ∧
      ∀ u ∈ others, u.thread ≠ i := by
  intro steps
  induction steps using List.reverseRecOn with
  | nil => exact fun h => absurd h (by simp [stepsOf])
  | append_singleton steps t ih =>
    intro h
    rw [stepsOf_append, stepsOf_singleton] at h
    split at h
    · rename_i hthread
      exact ⟨steps, t, [], rfl, hthread, List.singleton_inj.1 (List.append_inj' h rfl).2, (List.append_inj' h rfl).1,
        fun u hu => absurd hu List.not_mem_nil⟩
    · rename_i hthread
      rw [List.append_nil] at h
      obtain ⟨older, u, others, rfl, h1, h2, h3, h4⟩ := ih h
      refine ⟨older, u, others ++ [t], by simp, h1, h2, h3, fun v hv => ?_⟩
      rcases List.mem_append.1 hv with hv | hv
      · exact h4 v hv
      · rw [List.mem_singleton.1 hv]
        exact hthread

theorem stepsOf_cons : stepsOf i (t :: steps) = if t.thread = i then (t.before, t.after) :: stepsOf i steps else stepsOf i steps := by
  by_cases h : t.thread = i <;> simp [stepsOf, h]

/-- One of a thread's steps, with the steps before and after it. -/
theorem stepsOf_split {before after : List (σ × σ)} {x : σ × σ} : ∀ {steps : List (Taken σ)}, stepsOf i steps = before ++ x :: after →
    ∃ older t newer, steps = older ++ t :: newer ∧ t.thread = i ∧ (t.before, t.after) = x ∧ stepsOf i older = before ∧
      stepsOf i newer = after
  | [], h => absurd h (by simp [stepsOf])
  | t :: steps, h => by
    rw [stepsOf_cons] at h
    split at h
    · rename_i hthread
      cases before with
      | nil =>
        obtain ⟨hx, hafter⟩ := List.cons_eq_cons.1 h
        exact ⟨[], t, steps, rfl, hthread, hx, rfl, hafter⟩
      | cons first before =>
        obtain ⟨hfirst, hrest⟩ := List.cons_eq_cons.1 h
        obtain ⟨older, u, newer, rfl, h1, h2, h3, h4⟩ := stepsOf_split hrest
        exact ⟨t :: older, u, newer, rfl, h1, h2, by rw [stepsOf_cons, if_pos hthread, h3, hfirst], h4⟩
    · rename_i hthread
      obtain ⟨older, u, newer, rfl, h1, h2, h3, h4⟩ := stepsOf_split h
      exact ⟨t :: older, u, newer, rfl, h1, h2, by rw [stepsOf_cons, if_neg hthread, h3], h4⟩

theorem mem_stepsOf {x : σ × σ} : x ∈ stepsOf i steps ↔ ∃ t ∈ steps, t.thread = i ∧ (t.before, t.after) = x := by
  simp only [stepsOf, List.mem_map, List.mem_filter, decide_eq_true_eq, and_assoc]

end

/-! ## Chains of steps -/

/-- The steps lead from one state to another. -/
def Chained {σ : Type} : σ → List (Taken σ) → σ → Prop
  | s, [], s' => s = s'
  | s, t :: steps, s' => s = t.before ∧ Chained t.after steps s'

section

variable {σ : Type} {s s' s'' : σ} {steps older newer : List (Taken σ)} {t : Taken σ} {p : σ → Prop}

theorem Chained.append : ∀ {steps : List (Taken σ)} {s : σ}, Chained s steps s' → Chained s' newer s'' →
    Chained s (steps ++ newer) s''
  | [], _, h, h' => by
    cases h
    exact h'
  | _ :: _, _, h, h' => ⟨h.1, h.2.append h'⟩

theorem Chained.split : ∀ {older : List (Taken σ)} {s : σ}, Chained s (older ++ newer) s' →
    ∃ m, Chained s older m ∧ Chained m newer s'
  | [], s, h => ⟨s, rfl, h⟩
  | _ :: _, _, h => by
    obtain ⟨m, h1, h2⟩ := h.2.split
    exact ⟨m, ⟨h.1, h1⟩, h2⟩

/-- What a step leaves is where the later ones begin. -/
theorem Chained.at (h : Chained s (older ++ t :: newer) s') : Chained s older t.before ∧ Chained t.after newer s' := by
  obtain ⟨m, h1, h2⟩ := h.split
  exact ⟨h2.1 ▸ h1, h2.2⟩

/-- What every step keeps, the steps keep together. -/
theorem Chained.keep : ∀ {steps : List (Taken σ)} {s : σ}, Chained s steps s' →
    (∀ t ∈ steps, p t.before → p t.after) → p s → p s'
  | [], _, h, _, hp => h ▸ hp
  | t :: _, _, h, hkeep, hp =>
    h.2.keep (fun u hu => hkeep u (List.mem_cons_of_mem _ hu)) (hkeep t List.mem_cons_self (h.1 ▸ hp))

/-- What every step keeps holds at each of them, if it holds at first. -/
theorem Chained.all (h : Chained s steps s') (hkeep : ∀ t ∈ steps, p t.before → p t.after) (hp : p s) :
    ∀ t ∈ steps, p t.before ∧ p t.after := by
  intro t ht
  obtain ⟨older, newer, rfl⟩ := List.append_of_mem ht
  have hbefore := h.at.1.keep (fun u hu => hkeep u (List.mem_append_left _ hu)) hp
  exact ⟨hbefore, hkeep t ht hbefore⟩

/-- What is known of a state and the steps that led to it, each further step passing it on. -/
theorem Chained.trace {K : List (Taken σ) → σ → Prop} (h : Chained s steps s') (hs : K [] s)
    (hstep : ∀ older t newer, steps = older ++ t :: newer → K older t.before → K (older ++ [t]) t.after) : K steps s' := by
  induction steps using List.reverseRecOn generalizing s' with
  | nil => exact (show s = s' from h) ▸ hs
  | append_singleton steps t ih =>
    obtain ⟨hchain, hlast⟩ := h.at
    cases hlast
    refine hstep steps t [] rfl (ih hchain fun older u newer heq => hstep older u (newer ++ [t]) ?_)
    rw [heq, List.append_assoc, List.cons_append]

/-- A fact that did not hold at first and holds at last began to hold at some step, and has held since. -/
theorem Chained.since (h : Chained s steps s') (hs : ¬p s) (hs' : p s') :
    ∃ older t newer, steps = older ++ t :: newer ∧ ¬p t.before ∧ p t.after ∧ ∀ u ∈ newer, p u.before ∧ p u.after := by
  induction steps using List.reverseRecOn generalizing s' with
  | nil => exact absurd (show p s from h ▸ hs') hs
  | append_singleton steps t ih =>
    obtain ⟨hchain, hlast⟩ := h.at
    have hafter : p t.after := by
      cases hlast
      exact hs'
    by_cases hbefore : p t.before
    · obtain ⟨older, u, newer, rfl, h1, h2, h3⟩ := ih hchain hbefore
      refine ⟨older, u, newer ++ [t], by simp, h1, h2, fun v hv => ?_⟩
      rcases List.mem_append.1 hv with hv | hv
      · exact h3 v hv
      · rw [List.mem_singleton.1 hv]
        exact ⟨hbefore, hafter⟩
    · exact ⟨steps, t, [], rfl, hbefore, hafter, fun v hv => absurd hv List.not_mem_nil⟩

/-- A fact that no step ends begins at one step only. -/
theorem Chained.unique {u : Taken σ} (h : Chained s steps s') (hkeep : ∀ t ∈ steps, p t.before → p t.after)
    (ht : t ∈ steps) (hu : u ∈ steps) (htb : ¬p t.before) (hta : p t.after) (hub : ¬p u.before) (hua : p u.after) :
    t = u := by
  obtain ⟨older, newer, rfl⟩ := List.append_of_mem ht
  rcases List.mem_append.1 hu with hu | hu
  · -- `u` came first: the fact held when `t` came
    obtain ⟨first, rest, rfl⟩ := List.append_of_mem hu
    have hchain := h.at.1.at.2
    refine absurd (hchain.keep (fun v hv => hkeep v ?_) hua) htb
    exact List.mem_append_left _ (List.mem_append_right _ (List.mem_cons_of_mem _ hv))
  · rcases List.mem_cons.1 hu with rfl | hu
    · rfl
    · have hall := h.at.2.all (fun v hv => hkeep v (List.mem_append_right _ (List.mem_cons_of_mem _ hv))) hta
      exact absurd (hall u hu).1 hub

end

/-! ## Runs -/

namespace System

variable {κ ε σ ρ : Type} {S : System κ ε σ ρ}

/-- The run from `P₀` to `P` took these steps. -/
inductive Run (S : System κ ε σ ρ) (P₀ : Pool κ ε σ ρ) : List (Taken σ) → Pool κ ε σ ρ → Prop
  | start : Run S P₀ [] P₀
  | arrive {steps : List (Taken σ)} {P : Pool κ ε σ ρ} {c : κ} (h : Run S P₀ steps P) (hc : S.arrive P c) :
    Run S P₀ steps { P with threads := P.threads ++ [(c, S.code c)] }
  | run {steps : List (Taken σ)} {s : σ} {pre post : List (κ × Prog ε σ ρ)} {c : κ} {f : ε → σ → σ}
    {k : ε → σ → Prog ε σ ρ} {e : ε} (h : Run S P₀ steps ⟨s, pre ++ (c, .step f k) :: post⟩) (he : S.allow s e (f e s)) :
    Run S P₀ (steps ++ [⟨pre.length, s, f e s⟩]) ⟨f e s, pre ++ (c, k e s) :: post⟩

section

variable {P₀ P : Pool κ ε σ ρ} {steps : List (Taken σ)} {s₀ : σ}

theorem Run.reach (h : S.Run P₀ steps P) : S.Reach P₀ P := by
  induction h with
  | start => exact .refl
  | arrive _ hc ih => exact ih.next (.arrive hc)
  | run _ he ih => exact ih.next (.run he)

theorem Reach.run (h : S.Reach P₀ P) : ∃ steps, S.Run P₀ steps P := by
  induction h with
  | refl => exact ⟨[], .start⟩
  | next _ hs ih =>
    obtain ⟨steps, hrun⟩ := ih
    cases hs with
    | arrive hc => exact ⟨steps, hrun.arrive hc⟩
    | run he => exact ⟨_, hrun.run he⟩

theorem Run.chained (h : S.Run P₀ steps P) : Chained P₀.store steps P.store := by
  induction h with
  | start => rfl
  | arrive _ _ ih => exact ih
  | run _ _ ih => exact ih.append ⟨rfl, rfl⟩

/-- What every call that may arrive satisfies, every call of the run does. -/
theorem Run.arrived {V : κ → Prop} (hV : ∀ P c, S.arrive P c → V c) (h : S.Run ⟨s₀, []⟩ steps P) :
    ∀ t ∈ P.threads, V t.1 := by
  induction h with
  | start => exact fun t ht => absurd ht List.not_mem_nil
  | arrive _ hc ih =>
    intro t ht
    rcases List.mem_append.1 ht with ht | ht
    · exact ih t ht
    · rw [List.mem_singleton.1 ht]
      exact hV _ _ hc
  | @run steps s pre post c f k e _ _ ih =>
    intro t ht
    rcases List.mem_append.1 ht with ht | ht
    · exact ih t (List.mem_append_left _ ht)
    · rcases List.mem_cons.1 ht with rfl | ht
      · exact ih (c, .step f k) (List.mem_append_right _ List.mem_cons_self)
      · exact ih t (List.mem_append_right _ (List.mem_cons_of_mem _ ht))

/-- What an arriving call is to those before it, any two calls of the run are to each other. -/
theorem Run.pairwise {R : κ → κ → Prop} (hR : ∀ P c, S.arrive P c → ∀ t ∈ P.threads, R t.1 c)
    (h : S.Run ⟨s₀, []⟩ steps P) : (P.threads.map Prod.fst).Pairwise R := by
  induction h with
  | start => exact List.Pairwise.nil
  | arrive _ hc ih =>
    rw [List.map_append, List.pairwise_append]
    refine ⟨ih, List.pairwise_singleton _ _, fun c hc' d hd => ?_⟩
    obtain ⟨t, ht, rfl⟩ := List.mem_map.1 hc'
    rw [List.mem_singleton.1 hd]
    exact hR _ _ hc t ht
  | run _ _ ih =>
    rw [List.map_append] at ih ⊢
    exact ih

/-- Only threads that are there have taken steps. -/
theorem Run.thread_lt (h : S.Run ⟨s₀, []⟩ steps P) : ∀ t ∈ steps, t.thread < P.threads.length := by
  induction h with
  | start => exact fun t ht => absurd ht List.not_mem_nil
  | arrive _ _ ih =>
    intro t ht
    rw [List.length_append]
    exact Nat.lt_add_right _ (ih t ht)
  | run _ _ ih =>
    intro t ht
    rcases List.mem_append.1 ht with ht | ht
    · simpa using ih t ht
    · rw [List.mem_singleton.1 ht]
      simp

/-- A thread's steps are the path of its program. -/
theorem Run.path (h : S.Run ⟨s₀, []⟩ steps P) : ∀ {i : Nat} {c : κ} {p : Prog ε σ ρ},
    P.threads[i]? = some (c, p) → Path (S.code c) (stepsOf i steps) p := by
  induction h with
  | start => exact fun hi => absurd hi (by simp)
  | @arrive steps P c h _ ih =>
    intro i d p hi
    rcases Nat.lt_or_ge i P.threads.length with hlt | hge
    · rw [List.getElem?_append_left hlt] at hi
      exact ih hi
    · rw [List.getElem?_append_right hge] at hi
      -- the new thread: it has taken no step
      have hnone : stepsOf i steps = [] := by
        refine List.eq_nil_iff_forall_not_mem.2 fun x hx => ?_
        obtain ⟨t, ht, rfl, -⟩ := mem_stepsOf.1 hx
        exact absurd (h.thread_lt t ht) (Nat.not_lt.2 hge)
      obtain ⟨_, hnew⟩ := List.getElem?_eq_some_iff.1 hi
      rw [List.getElem_singleton] at hnew
      cases hnew
      rw [hnone]
      exact .nil _
  | @run steps s pre post c f k e h _ ih =>
    intro i d p hi
    rw [stepsOf_append, stepsOf_singleton]
    by_cases he : pre.length = i
    · subst he
      rw [List.getElem?_append_right (Nat.le_refl _), Nat.sub_self] at hi
      cases hi
      rw [if_pos rfl]
      exact (ih (by simp)).snoc s e
    · rw [if_neg he, List.append_nil]
      refine ih ?_
      rcases Nat.lt_or_gt_of_ne he with hlt | hgt
      · rw [List.getElem?_append_right (Nat.le_of_lt hlt)] at hi ⊢
        obtain ⟨n, hn⟩ := Nat.exists_eq_succ_of_ne_zero (Nat.sub_ne_zero_of_lt hlt)
        rw [hn] at hi ⊢
        exact hi
      · rw [List.getElem?_append_left hgt] at hi ⊢
        exact hi

/-- A finished call took a path that ends with its result. -/
theorem Run.finished (h : S.Run ⟨s₀, []⟩ steps P) {i : Nat} {c : κ} {r : ρ} (hi : P.finished i = some (c, r)) :
    Path (S.code c) (stepsOf i steps) (.done r) := by
  unfold Pool.finished at hi
  split at hi
  · rename_i c' r' hthread
    cases hi
    exact h.path hthread
  · cases hi

/-- Under a valid outline every step of a run keeps the guarantee of its call. -/
theorem Run.outline {O : Outline S} (hv : O.Valid) (h₀ : O.Holds ⟨s₀, []⟩) (h : S.Run ⟨s₀, []⟩ steps P) :
    ∀ t ∈ steps, O.inv t.before ∧ ∃ c p, P.threads[t.thread]? = some (c, p) ∧ O.guar c t.before t.after := by
  induction h with
  | start => exact fun t ht => absurd ht List.not_mem_nil
  | arrive _ _ ih =>
    intro t ht
    obtain ⟨hi, c, p, hget, hg⟩ := ih t ht
    exact ⟨hi, c, p, by rw [List.getElem?_append_left (List.getElem?_eq_some_iff.1 hget).1, hget], hg⟩
  | @run steps s pre post c f k e h he ih =>
    intro t ht
    have hH := hv.reach h₀ h.reach
    rcases List.mem_append.1 ht with ht | ht
    · obtain ⟨hi, d, p, hget, hg⟩ := ih t ht
      by_cases hthread : t.thread = pre.length
      · rw [hthread, List.getElem?_append_right (Nat.le_refl _), Nat.sub_self] at hget
        cases hget
        exact ⟨hi, c, k e s, by rw [hthread]; simp, hg⟩
      · refine ⟨hi, d, p, ?_, hg⟩
        rcases Nat.lt_or_gt_of_ne hthread with hlt | hgt
        · rw [List.getElem?_append_left hlt] at hget ⊢
          exact hget
        · rw [List.getElem?_append_right (Nat.le_of_lt hgt)] at hget ⊢
          obtain ⟨n, hn⟩ := Nat.exists_eq_succ_of_ne_zero (Nat.sub_ne_zero_of_lt hgt)
          rw [hn] at hget ⊢
          exact hget
    · rw [List.mem_singleton.1 ht]
      exact ⟨hH.inv, c, k e s, by simp, hH.guar hv he⟩

/-- If every step of every call keeps an invariant and the call's guarantee, every step of the run does;
the calls may rely on a preorder that the guarantees are within. -/
theorem Run.guar {I : σ → Prop} {R : σ → σ → Prop} {G : κ → σ → σ → Prop} (hrefl : ∀ s, R s s)
    (htrans : ∀ {a b c}, R a b → R b c → R a c) (hrely : ∀ {c s s'}, G c s s' → R s s')
    (hcode : ∀ c s, I s → wp ⟨I, R, G c, S.allow⟩ (S.code c) (fun _ _ => True) s) (h₀ : I s₀)
    (h : S.Run ⟨s₀, []⟩ steps P) :
    ∀ t ∈ steps, I t.before ∧ ∃ c p, P.threads[t.thread]? = some (c, p) ∧ G c t.before t.after := by
  let O : Outline S :=
    ⟨I, fun _ => R, G, fun _ _ _ => True, fun _ _ => True, fun _ _ => True, fun _ _ => True⟩
  have hv : O.Valid :=
    { symm := fun _ => trivial, besideSymm := fun _ => trivial, arrives := fun _ _ _ => ⟨trivial, fun _ => trivial⟩,
      traceArrives := fun _ => trivial, traceStep := fun _ _ _ => trivial,
      ok := fun _ => ⟨hrefl, htrans⟩, compat := fun _ _ _ hg => hrely hg,
      stable := fun _ _ _ _ _ _ _ => trivial, settled := fun _ _ _ _ _ => trivial,
      safe := fun {P c} _ hP => hcode c P.store hP.inv }
  exact h.outline hv (Outline.holds_start h₀ trivial)

/-! ## Schedules -/

/-- The steps that an entry of a schedule takes: one, or none if the thread has finished. -/
def takenBy (P : Pool κ ε σ ρ) : Move κ ε → List (Taken σ)
  | .arrive _ => []
  | .run i e => match P.threads[i]? with
    | some (_, .step f _) => [⟨i, P.store, f e P.store⟩]
    | _ => []

/-- The steps that a schedule takes. -/
def taken (S : System κ ε σ ρ) : Pool κ ε σ ρ → List (Move κ ε) → List (Taken σ)
  | _, [] => []
  | P, m :: ms => takenBy P m ++ taken S (S.move P m) ms

theorem move_step {P : Pool κ ε σ ρ} {i : Nat} {e : ε} {c : κ} {f : ε → σ → σ} {k : ε → σ → Prog ε σ ρ}
    (hi : P.threads[i]? = some (c, .step f k)) :
    S.move P (.run i e) = ⟨f e P.store, P.threads.set i (c, k e P.store)⟩ := by
  unfold System.move
  dsimp only
  rw [hi]

theorem Run.moveRun (h : S.Run P₀ steps P) {i : Nat} {e : ε} (ha : S.allow P.store e (S.move P (.run i e)).store) :
    S.Run P₀ (steps ++ takenBy P (.run i e)) (S.move P (.run i e)) := by
  unfold takenBy
  dsimp only
  split
  · rename_i c f k hi
    rw [move_step hi] at ha ⊢
    obtain ⟨hlt, hget⟩ := List.getElem?_eq_some_iff.1 hi
    -- the thread with those before and after it
    have hlen : (P.threads.take i).length = i := List.length_take_of_le (Nat.le_of_lt hlt)
    have hsplit : P.threads = P.threads.take i ++ (c, .step f k) :: P.threads.drop (i + 1) := by
      rw [← hget, List.getElem_cons_drop, List.take_append_drop]
    have hrun : S.Run P₀ steps ⟨P.store, P.threads.take i ++ (c, .step f k) :: P.threads.drop (i + 1)⟩ := hsplit ▸ h
    have hnext := hrun.run ha
    rw [hlen] at hnext
    rw [List.set_eq_take_append_cons_drop, if_pos hlt]
    exact hnext
  · rename_i hnone
    have hmove : S.move P (.run i e) = P := by
      unfold System.move
      dsimp only
      split
      · rename_i c f k hi
        exact absurd hi (hnone c f k)
      · rfl
    rw [hmove, List.append_nil]
    exact h

/-- A schedule that the system allows is a run with these steps. -/
theorem Run.moves : ∀ (ms : List (Move κ ε)) {steps : List (Taken σ)} {P : Pool κ ε σ ρ}, S.Run P₀ steps P → S.Allows P ms →
    S.Run P₀ (steps ++ S.taken P ms) (S.moves P ms)
  | [], _, _, h, _ => by
    rw [taken, List.append_nil]
    exact h
  | .arrive c :: ms, _, _, h, ha => by
    exact (h.arrive ha.1).moves ms ha.2
  | .run i e :: ms, _, _, h, ha => by
    rw [taken, ← List.append_assoc]
    exact (h.moveRun ha.1).moves ms ha.2

theorem run_moves (ms : List (Move κ ε)) (h : S.Allows P₀ ms) : S.Run P₀ (S.taken P₀ ms) (S.moves P₀ ms) :=
  Run.start.moves ms h

/-- A finished call of a schedule, from the result that it computes. -/
theorem finished_moves {ms : List (Move κ ε)} {i : Nat} {c : κ} {r : ρ} (hr : ((S.moves P₀ ms).finished i).map Prod.snd = some r)
    (hc : (P₀.threads.map Prod.fst ++ calls ms)[i]? = some c) : (S.moves P₀ ms).finished i = some (c, r) := by
  rw [← map_fst_moves S ms P₀, List.getElem?_map] at hc
  obtain ⟨⟨c, p⟩, hthread, rfl⟩ := Option.map_eq_some_iff.1 hc
  obtain ⟨⟨d, r⟩, hfinished, rfl⟩ := Option.map_eq_some_iff.1 hr
  unfold Pool.finished at hfinished ⊢
  rw [hthread] at hfinished ⊢
  cases p with
  | done r =>
    cases hfinished
    rfl
  | step f k => cases hfinished

end

end System

end Keyforge.Lib
