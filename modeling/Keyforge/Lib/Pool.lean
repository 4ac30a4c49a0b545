/-
Pools of running programs. Calls arrive over time, each runs its program, and the programs' steps
interleave in every order; a program that crashes is one that is never scheduled again. If every
call's program meets its rely-guarantee triple and the guarantees of different calls are within each
other's relies, the invariant holds in every reachable pool and a finished call's postcondition holds
for as long as the pool runs.
-/
import Keyforge.Lib.Prog

namespace Keyforge.Lib

/-- The shared state and the calls so far, each with what is left of its program. -/
structure Pool (κ ε σ ρ : Type) where
  store : σ
  threads : List (κ × Prog ε σ ρ)

/-- The calls a system serves: the program of a call, the steps that can happen, and the pools in
which a call may arrive. -/
structure System (κ ε σ ρ : Type) where
  code : κ → Prog ε σ ρ
  allow : σ → ε → σ → Prop
  arrive : Pool κ ε σ ρ → κ → Prop

namespace System

variable {κ ε σ ρ : Type}

/-- A call arrives, or one thread makes one step. -/
inductive Step (S : System κ ε σ ρ) : Pool κ ε σ ρ → Pool κ ε σ ρ → Prop
  | arrive {P : Pool κ ε σ ρ} {c : κ} (h : S.arrive P c) :
    Step S P { P with threads := P.threads ++ [(c, S.code c)] }
  | run {s : σ} {pre post : List (κ × Prog ε σ ρ)} {c : κ} {f : ε → σ → σ} {k : ε → σ → Prog ε σ ρ} {e : ε}
    (h : S.allow s e (f e s)) :
    Step S ⟨s, pre ++ (c, .step f k) :: post⟩ ⟨f e s, pre ++ (c, k e s) :: post⟩

/-- The pools reachable from `P₀`. -/
inductive Reach (S : System κ ε σ ρ) (P₀ : Pool κ ε σ ρ) : Pool κ ε σ ρ → Prop
  | refl : Reach S P₀ P₀
  | next {P P' : Pool κ ε σ ρ} : Reach S P₀ P → Step S P P' → Reach S P₀ P'

theorem Reach.trans {S : System κ ε σ ρ} {P₀ P₁ P₂ : Pool κ ε σ ρ} (h₁ : Reach S P₀ P₁) (h₂ : Reach S P₁ P₂) :
    Reach S P₀ P₂ := by
  induction h₂ with
  | refl => exact h₁
  | next _ hs ih => exact ih.next hs

/-! ## Scheduled runs -/

/-- One entry of a schedule: a call arrives, or the `i`th thread steps on an input. -/
inductive Move (κ ε : Type) where
  | arrive (c : κ)
  | run (i : Nat) (e : ε)

def move (S : System κ ε σ ρ) (P : Pool κ ε σ ρ) : Move κ ε → Pool κ ε σ ρ
  | .arrive c => { P with threads := P.threads ++ [(c, S.code c)] }
  | .run i e => match P.threads[i]? with
    | some (c, .step f k) => ⟨f e P.store, P.threads.set i (c, k e P.store)⟩
    | _ => P

/-- The pool a schedule leads to. -/
def moves (S : System κ ε σ ρ) (P : Pool κ ε σ ρ) (ms : List (Move κ ε)) : Pool κ ε σ ρ :=
  ms.foldl S.move P

/-- The calls that arrive. -/
def calls : List (Move κ ε) → List κ
  | [] => []
  | .arrive c :: ms => c :: calls ms
  | .run _ _ :: ms => calls ms

/-- The calls of the pool that a schedule leads to. -/
theorem map_fst_moves (S : System κ ε σ ρ) : ∀ (ms : List (Move κ ε)) (P : Pool κ ε σ ρ),
    (S.moves P ms).threads.map Prod.fst = P.threads.map Prod.fst ++ calls ms
  | [], _ => (List.append_nil _).symm
  | .arrive c :: ms, P => by
    refine (map_fst_moves S ms _).trans ?_
    rw [move, List.map_append, List.append_assoc]
    rfl
  | .run i e :: ms, P => by
    refine (map_fst_moves S ms _).trans (congrArg (· ++ calls ms) ?_)
    unfold move
    dsimp only
    split
    · rename_i c f k hi
      obtain ⟨hlt, hget⟩ := List.getElem?_eq_some_iff.1 hi
      refine List.ext_getElem? fun j => ?_
      rw [List.getElem?_map, List.getElem?_map, List.getElem?_set]
      split
      · rename_i hj
        rw [← hj, hi]
        rfl
      · rfl
    · rfl

/-- The system allows every entry of the schedule. -/
def Allows (S : System κ ε σ ρ) : Pool κ ε σ ρ → List (Move κ ε) → Prop
  | _, [] => True
  | P, .arrive c :: ms => S.arrive P c ∧ Allows S (S.move P (.arrive c)) ms
  | P, .run i e :: ms => S.allow P.store e (S.move P (.run i e)).store ∧ Allows S (S.move P (.run i e)) ms

instance Allows.decidable (S : System κ ε σ ρ) [∀ P c, Decidable (S.arrive P c)] [∀ s e s', Decidable (S.allow s e s')] :
    ∀ (P : Pool κ ε σ ρ) (ms : List (Move κ ε)), Decidable (S.Allows P ms)
  | _, [] => isTrue trivial
  | P, .arrive c :: ms => @instDecidableAnd _ _ _ (Allows.decidable S (S.move P (.arrive c)) ms)
  | P, .run i e :: ms => @instDecidableAnd _ _ _ (Allows.decidable S (S.move P (.run i e)) ms)

theorem reach_run {S : System κ ε σ ρ} {P : Pool κ ε σ ρ} {i : Nat} {e : ε}
    (h : S.allow P.store e (S.move P (.run i e)).store) : S.Reach P (S.move P (.run i e)) := by
  unfold move at h ⊢
  dsimp only at h ⊢
  split at h
  · rename_i c f k hi
    obtain ⟨hlt, hget⟩ := List.getElem?_eq_some_iff.1 hi
    have hsplit : P.threads = P.threads.take i ++ (c, .step f k) :: P.threads.drop (i + 1) := by
      rw [← hget, List.getElem_cons_drop, List.take_append_drop]
    have hset : P.threads.set i (c, k e P.store) =
        P.threads.take i ++ (c, k e P.store) :: P.threads.drop (i + 1) := by
      rw [List.set_eq_take_append_cons_drop, if_pos hlt]
    have hstep : S.Step ⟨P.store, P.threads.take i ++ (c, .step f k) :: P.threads.drop (i + 1)⟩
        ⟨f e P.store, P.threads.take i ++ (c, k e P.store) :: P.threads.drop (i + 1)⟩ := .run h
    rw [← hsplit, ← hset] at hstep
    exact Reach.refl.next hstep
  · exact Reach.refl

theorem reach_moves {S : System κ ε σ ρ} : ∀ {P : Pool κ ε σ ρ} (ms : List (Move κ ε)), S.Allows P ms →
    S.Reach P (S.moves P ms)
  | _, [], _ => Reach.refl
  | _, .arrive _ :: ms, h => (Reach.refl.next (.arrive h.1)).trans (reach_moves ms h.2)
  | _, .run _ _ :: ms, h => (reach_run h.1).trans (reach_moves ms h.2)

/-- A thread that steps `n` times, in a system that allows every step. -/
theorem allows_runs {S : System κ ε σ ρ} (h : ∀ s e s', S.allow s e s') (i : Nat) (e : ε) {rest : List (Move κ ε)} :
    ∀ (n : Nat) {P : Pool κ ε σ ρ}, S.Allows (S.moves P (List.replicate n (.run i e))) rest →
      S.Allows P (List.replicate n (.run i e) ++ rest)
  | 0, _, hrest => hrest
  | n + 1, _, hrest => ⟨h _ _ _, allows_runs h i e n hrest⟩

/-- Every step of the schedule passes a test. -/
def passes (S : System κ ε σ ρ) (test : σ → σ → Bool) : Pool κ ε σ ρ → List (Move κ ε) → Bool
  | _, [] => true
  | P, .arrive c :: ms => passes S test (S.move P (.arrive c)) ms
  | P, .run i e :: ms => test P.store (S.move P (.run i e)).store && passes S test (S.move P (.run i e)) ms

/-- Every call of the schedule may arrive when it does. -/
def Arrives (S : System κ ε σ ρ) : Pool κ ε σ ρ → List (Move κ ε) → Prop
  | _, [] => True
  | P, .arrive c :: ms => S.arrive P c ∧ Arrives S (S.move P (.arrive c)) ms
  | P, .run i e :: ms => Arrives S (S.move P (.run i e)) ms

/-- A schedule whose steps pass a test that implies what the system allows. -/
theorem allows_of_arrives {S : System κ ε σ ρ} (test : σ → σ → Bool) (htest : ∀ s e s', test s s' = true → S.allow s e s') :
    ∀ (ms : List (Move κ ε)) {P : Pool κ ε σ ρ}, S.Arrives P ms → S.passes test P ms = true → S.Allows P ms
  | [], _, _, _ => trivial
  | .arrive _ :: ms, _, ha, h => ⟨ha.1, allows_of_arrives test htest ms ha.2 h⟩
  | .run i e :: ms, P, ha, h => by
    rw [passes, Bool.and_eq_true] at h
    exact ⟨htest _ _ _ h.1, allows_of_arrives test htest ms ha h.2⟩

theorem arrives_of_forall {S : System κ ε σ ρ} (h : ∀ P c, S.arrive P c) : ∀ (ms : List (Move κ ε)) (P : Pool κ ε σ ρ),
    S.Arrives P ms
  | [], _ => trivial
  | .arrive c :: ms, P => ⟨h P c, arrives_of_forall h ms _⟩
  | .run _ _ :: ms, _ => arrives_of_forall h ms _

theorem allows_of_passes {S : System κ ε σ ρ} (test : σ → σ → Bool) (harrive : ∀ P c, S.arrive P c)
    (htest : ∀ s e s', test s s' = true → S.allow s e s') (ms : List (Move κ ε)) {P : Pool κ ε σ ρ}
    (h : S.passes test P ms = true) : S.Allows P ms :=
  allows_of_arrives test htest ms (arrives_of_forall harrive ms P) h

end System

/-- The `i`th call and its result, if it has finished. -/
def Pool.finished {κ ε σ ρ : Type} (P : Pool κ ε σ ρ) (i : Nat) : Option (κ × ρ) :=
  match P.threads[i]? with
  | some (c, .done r) => some (c, r)
  | _ => none

theorem Pool.mem_of_finished {κ ε σ ρ : Type} {P : Pool κ ε σ ρ} {i : Nat} {c : κ} {r : ρ}
    (h : P.finished i = some (c, r)) : (c, .done r) ∈ P.threads := by
  unfold finished at h
  split at h
  · rename_i hi
    cases h
    exact List.mem_of_getElem? hi
  · cases h

/-- A proof outline for a system: one invariant, and for each call what it relies on, what it
guarantees and what it establishes. Any two calls are `apart`, two running ones are also `beside`
each other, and `trace` says what the calls so far can have done to the state. -/
structure Outline {κ ε σ ρ : Type} (S : System κ ε σ ρ) where
  inv : σ → Prop
  rely : κ → σ → σ → Prop
  guar : κ → σ → σ → Prop
  post : κ → ρ → σ → Prop
  apart : κ → κ → Prop
  beside : κ → κ → Prop
  trace : List κ → σ → Prop

namespace Outline

variable {κ ε σ ρ : Type} {S : System κ ε σ ρ}

/-- The protocol of one call. -/
def protocol (O : Outline S) (c : κ) : Protocol ε σ :=
  ⟨O.inv, O.rely c, O.guar c, S.allow⟩

/-- What the outline says of a pool. -/
structure Holds (O : Outline S) (P : Pool κ ε σ ρ) : Prop where
  inv : O.inv P.store
  apart : P.threads.Pairwise fun t u =>
    O.apart t.1 u.1 ∧ (t.2.isDone = false → u.2.isDone = false → O.beside t.1 u.1)
  trace : O.trace (P.threads.map Prod.fst) P.store
  safe : ∀ t ∈ P.threads, wp (O.protocol t.1) t.2 (O.post t.1) P.store

/-- The outline is valid: calls that arrive are apart from those already there, the relies are
preorders that allow the guarantees of others, a finished call's postcondition survives them, and
every program meets its triple. -/
structure Valid (O : Outline S) : Prop where
  symm : ∀ {c d}, O.apart c d → O.apart d c
  besideSymm : ∀ {c d}, O.beside c d → O.beside d c
  arrives : ∀ {P : Pool κ ε σ ρ} {c}, S.arrive P c → ∀ t ∈ P.threads,
    O.apart t.1 c ∧ (t.2.isDone = false → O.beside t.1 c)
  traceArrives : ∀ {cs c s}, O.trace cs s → O.trace (cs ++ [c]) s
  traceStep : ∀ {cs c s s'}, c ∈ cs → O.trace cs s → O.guar c s s' → O.trace cs s'
  ok : ∀ c, (O.protocol c).Ok
  compat : ∀ {c d s s'}, O.apart c d → O.beside c d → O.inv s → O.guar c s s' → O.rely d s s'
  stable : ∀ c r, (O.protocol c).Stable (O.post c r)
  settled : ∀ {c d s s' r}, O.apart c d → O.inv s → O.guar c s s' → O.inv s' → O.post d r s → O.post d r s'
  safe : ∀ {P : Pool κ ε σ ρ} {c}, S.arrive P c → O.Holds P → wp (O.protocol c) (S.code c) (O.post c) P.store

/-- A thread keeps its triple across a step of another one. -/
theorem Valid.undisturbed {O : Outline S} (hv : O.Valid) {c d : κ} {p : Prog ε σ ρ} {s s' : σ} (ha : O.apart c d)
    (hb : p.isDone = false → O.beside c d) (hi : O.inv s) (hg : O.guar c s s') (hi' : O.inv s')
    (h : wp (O.protocol d) p (O.post d) s) : wp (O.protocol d) p (O.post d) s' := by
  cases p with
  | done r => exact hv.settled ha hi hg hi' h
  | step f k => exact wp_rely (hv.ok d) (hv.stable d) _ h (hv.compat ha (hb rfl) hi hg) hi'

theorem Holds.arrive {O : Outline S} (hv : O.Valid) {P : Pool κ ε σ ρ} {c : κ} (h : O.Holds P) (hc : S.arrive P c) :
    O.Holds { P with threads := P.threads ++ [(c, S.code c)] } := by
  refine ⟨h.inv, ?_, ?_, ?_⟩
  · refine List.pairwise_append.2 ⟨h.apart, List.pairwise_singleton _ _, ?_⟩
    intro t ht u hu
    rw [List.mem_singleton.1 hu]
    exact ⟨(hv.arrives hc t ht).1, fun hd _ => (hv.arrives hc t ht).2 hd⟩
  · rw [List.map_append]
    exact hv.traceArrives h.trace
  · intro t ht
    rcases List.mem_append.1 ht with ht | ht
    · exact h.safe t ht
    · rw [List.mem_singleton.1 ht]
      exact hv.safe (P := P) hc h

theorem Holds.run {O : Outline S} (hv : O.Valid) {s : σ} {pre post : List (κ × Prog ε σ ρ)} {c : κ} {f : ε → σ → σ}
    {k : ε → σ → Prog ε σ ρ} {e : ε} (h : O.Holds ⟨s, pre ++ (c, .step f k) :: post⟩) (he : S.allow s e (f e s)) :
    O.Holds ⟨f e s, pre ++ (c, k e s) :: post⟩ := by
  obtain ⟨h1, h2, h3⟩ := h.safe (c, .step f k) (by simp) s ((hv.ok c).refl s) h.inv e he
  obtain ⟨hpre, hpost, hcross⟩ := List.pairwise_append.1 h.apart
  obtain ⟨hc, hpost⟩ := List.pairwise_cons.1 hpost
  refine ⟨h1, ?_, ?_, ?_⟩
  · refine List.pairwise_append.2 ⟨hpre, List.pairwise_cons.2 ⟨?_, hpost⟩, ?_⟩
    · exact fun u hu => ⟨(hc u hu).1, fun _ => (hc u hu).2 rfl⟩
    · intro t ht u hu
      rcases List.mem_cons.1 hu with rfl | hu
      · have := hcross t ht (c, .step f k) List.mem_cons_self
        exact ⟨this.1, fun hd _ => this.2 hd rfl⟩
      · exact hcross t ht u (List.mem_cons_of_mem _ hu)
  · have htrace := h.trace
    rw [List.map_append, List.map_cons] at htrace ⊢
    exact hv.traceStep (by simp) htrace h2
  · intro t ht
    rcases List.mem_append.1 ht with ht | ht
    · have := hcross t ht (c, .step f k) List.mem_cons_self
      exact hv.undisturbed (hv.symm this.1) (fun hd => hv.besideSymm (this.2 hd rfl)) h.inv h2 h1
        (h.safe t (List.mem_append_left _ ht))
    · rcases List.mem_cons.1 ht with rfl | ht
      · exact h3
      · exact hv.undisturbed (hc t ht).1 ((hc t ht).2 rfl) h.inv h2 h1
          (h.safe t (List.mem_append_right _ (List.mem_cons_of_mem _ ht)))

theorem Holds.step {O : Outline S} (hv : O.Valid) {P P' : Pool κ ε σ ρ} (h : O.Holds P) (hs : S.Step P P') :
    O.Holds P' := by
  cases hs with
  | arrive hc => exact h.arrive hv hc
  | run he => exact h.run hv he

/-- The rule of pools: a valid outline holds in every reachable pool. -/
theorem Valid.reach {O : Outline S} (hv : O.Valid) {P₀ P : Pool κ ε σ ρ} (h₀ : O.Holds P₀) (h : S.Reach P₀ P) :
    O.Holds P := by
  induction h with
  | refl => exact h₀
  | next _ hs ih => exact ih.step hv hs

theorem holds_start {O : Outline S} {s : σ} (h : O.inv s) (ht : O.trace [] s) : O.Holds ⟨s, []⟩ :=
  ⟨h, List.Pairwise.nil, ht, fun _ ht => by cases ht⟩

/-- One step of a call keeps its guarantee. -/
theorem Holds.guar {O : Outline S} (hv : O.Valid) {s : σ} {pre post : List (κ × Prog ε σ ρ)} {c : κ} {f : ε → σ → σ}
    {k : ε → σ → Prog ε σ ρ} {e : ε} (h : O.Holds ⟨s, pre ++ (c, .step f k) :: post⟩) (he : S.allow s e (f e s)) :
    O.guar c s (f e s) :=
  (h.safe (c, .step f k) (by simp) s ((hv.ok c).refl s) h.inv e he).2.1

/-- A finished call's postcondition holds. -/
theorem Holds.post {O : Outline S} {P : Pool κ ε σ ρ} (h : O.Holds P) {c : κ} {r : ρ}
    (ht : (c, .done r) ∈ P.threads) : O.post c r P.store :=
  h.safe (c, .done r) ht

end Outline

/-! ## Systems with one rely for all -/

/-- The protocol of programs that share an invariant, rely on `R` and guarantee it. -/
def Protocol.among {ε σ : Type} (inv : σ → Prop) (R : σ → σ → Prop) (allow : σ → ε → σ → Prop) : Protocol ε σ :=
  ⟨inv, R, R, allow⟩

/-- The protocol of programs that share an invariant and rely on nothing else. -/
def Protocol.sharing {ε σ : Type} (inv : σ → Prop) (allow : σ → ε → σ → Prop) : Protocol ε σ :=
  .among inv (fun _ _ => True) allow

section

variable {κ ε σ ρ : Type} {S : System κ ε σ ρ} {I : σ → Prop} {s₀ : σ} {P : Pool κ ε σ ρ}

/-- If every step of every call keeps the invariant and a preorder on which the calls rely, the
invariant holds in every reachable pool. -/
theorem System.reach_inv_among {R : σ → σ → Prop} (hrefl : ∀ s, R s s) (htrans : ∀ {a b c}, R a b → R b c → R a c)
    (hcode : ∀ c s, I s → wp (.among I R S.allow) (S.code c) (fun _ _ => True) s) (h₀ : I s₀)
    (h : S.Reach ⟨s₀, []⟩ P) : I P.store := by
  let O : Outline S :=
    ⟨I, fun _ => R, fun _ => R, fun _ _ _ => True, fun _ _ => True, fun _ _ => True, fun _ _ => True⟩
  have hv : O.Valid :=
    { symm := fun _ => trivial, besideSymm := fun _ => trivial, arrives := fun _ _ _ => ⟨trivial, fun _ => trivial⟩,
      traceArrives := fun _ => trivial, traceStep := fun _ _ _ => trivial,
      ok := fun _ => ⟨hrefl, htrans⟩, compat := fun _ _ _ hg => hg,
      stable := fun _ _ _ _ _ _ _ => trivial, settled := fun _ _ _ _ _ => trivial,
      safe := fun {P c} _ hP => hcode c P.store hP.inv }
  exact (hv.reach (Outline.holds_start h₀ trivial) h).inv

/-- If every step of every call keeps the invariant, it holds in every reachable pool. -/
theorem System.reach_inv (hcode : ∀ c s, I s → wp (.sharing I S.allow) (S.code c) (fun _ _ => True) s)
    (h₀ : I s₀) (h : S.Reach ⟨s₀, []⟩ P) : I P.store :=
  System.reach_inv_among (fun _ => trivial) (fun _ _ => trivial) hcode h₀ h

end

end Keyforge.Lib
