/-
Rules for the paths of programs over the world: what a request saw in the database, one rule for each
kind of step. Nothing is asked of what happens between the steps.
-/
import Keyforge.Lib.Along
import Keyforge.Logic

namespace Keyforge

open Lib

/-- The steps of a request, each with the world before and after it. -/
abbrev Steps := List (World × World)

/-- Before one of the steps the database satisfied `φ`. -/
def Saw (φ : Db.Database → Prop) (tr : Steps) : Prop :=
  ∃ t ∈ tr, φ t.1.db

section

variable {α β : Type} {φ : Db.Database → Prop} {tr tr' : Steps} {Q : α → Steps → Prop} {X : Failure → Steps → Prop}

theorem Saw.sublist (h : Saw φ tr) (hsub : tr.Sublist tr') : Saw φ tr' := by
  obtain ⟨t, ht, hφ⟩ := h
  exact ⟨t, hsub.subset ht, hφ⟩

theorem Saw.left (h : Saw φ tr) : Saw φ (tr ++ tr') :=
  h.sublist (List.sublist_append_left tr tr')

theorem Saw.right (h : Saw φ tr') : Saw φ (tr ++ tr') :=
  h.sublist (List.sublist_append_right tr tr')

theorem Saw.cons {t : World × World} (h : Saw φ tr) : Saw φ (t :: tr) :=
  h.sublist (List.sublist_cons_self t tr)

theorem Saw.head {t : World × World} (h : φ t.1.db) : Saw φ (t :: tr) :=
  ⟨t, List.mem_cons_self, h⟩

theorem Saw.imp {ψ : Db.Database → Prop} (himp : ∀ db, φ db → ψ db) (h : Saw φ tr) : Saw ψ tr := by
  obtain ⟨t, ht, hφ⟩ := h
  exact ⟨t, ht, himp _ hφ⟩

/-! ## Steps -/

/-- A storage call. -/
theorem endsE_io {op : World → α × World} (hQ : ∀ w dt, Q (op (w.tick dt)).1 [(w, (op (w.tick dt)).2)])
    (hX : ∀ t, X .storage [t]) : endsE (io op) Q X := by
  intro w e
  cases hf : e.fail with
  | true => simpa [ends, hf] using hX _
  | false => simpa [ends, hf] using hQ w e.dt

theorem endsE_query {q : World → α} (hQ : ∀ w dt, Q (q (w.tick dt)) [(w, w.tick dt)]) (hX : ∀ t, X .storage [t]) :
    endsE (query q) Q X :=
  endsE_io hQ hX

theorem endsE_select {q : Db.Database → α} (hQ : ∀ w dt, Q (q w.db) [(w, w.tick dt)]) (hX : ∀ t, X .storage [t]) :
    endsE (select q) Q X :=
  endsE_query (fun w dt => hQ w dt) hX

theorem endsE_d1Logged {committed : Db.Database → List Event} {stmt : Db.Database → α × Db.Database}
    (hQ : ∀ w w' dt, w' = { w.tick dt with db := (stmt w.db).2, log := committed w.db ++ w.log } →
      Q (stmt w.db).1 [(w, w')]) (hX : ∀ t, X .storage [t]) : endsE (d1Logged committed stmt) Q X :=
  endsE_io (fun w dt => hQ w _ dt rfl) hX

theorem endsE_clock {Q : Nat → Steps → Prop} (hQ : ∀ w dt, Q (w.tick dt).nowSeconds [(w, w.tick dt)]) :
    endsE clock Q X :=
  fun w e => hQ w e.dt

/-- A storage call whose failure the history records. -/
theorem endsE_ioLogged {failed : List Event} {op : World → α × World}
    (hQ : ∀ w dt, Q (op (w.tick dt)).1 [(w, (op (w.tick dt)).2)]) (hX : ∀ t, X .storage [t]) :
    endsE (ioLogged failed op) Q X := by
  intro w e
  cases hf : e.fail with
  | true => simpa [ends, hf] using hX _
  | false => simpa [ends, hf] using hQ w e.dt

theorem endsE_clockLogged {decided : Nat → List Event} {Q : Nat → Steps → Prop}
    (hQ : ∀ w dt, Q (w.tick dt).nowSeconds [(w, { w.tick dt with log := decided (w.tick dt).nowSeconds ++ w.log })]) :
    endsE (clockLogged decided) Q X :=
  fun w e => hQ w e.dt

@[simp] theorem endsE_require {holds : Bool} {x : Failure} {Q : Unit → Steps → Prop} :
    endsE (require holds x) Q X ↔ (holds = true → Q () []) ∧ (holds = false → X x []) := by
  cases holds <;> simp [require]

theorem endsE_settled {p : App α} {Q : Except Failure α → Steps → Prop} :
    endsE (settled p) Q X ↔ endsE p (fun a => Q (.ok a)) fun x => Q (.error x) := by
  show ends (p.run.bind _) _ ↔ ends p.run _
  rw [ends_bind]
  refine ⟨ends_imp ?_ _, ends_imp ?_ _⟩ <;> rintro (x | a) tr h <;> simpa [ends] using h

/-- Nothing is asked. -/
theorem endsE_true (p : App α) : endsE p (fun _ _ => True) fun _ _ => True :=
  endsE_iff.2 ⟨fun _ _ _ => trivial, fun _ _ _ => trivial⟩

/-- The result is one that the program can give, by these steps. -/
theorem endsE_path {p : App α} (h : endsE p Q X) : endsE p (fun a tr => Path p.run tr (.done (.ok a)) ∧ Q a tr) X := by
  rw [endsE_iff] at h ⊢
  exact ⟨fun tr a hpath => ⟨hpath, h.1 tr a hpath⟩, h.2⟩

theorem lasting_saw (φ : α → Db.Database → Prop) : Lasting fun a tr => Saw (φ a) tr :=
  fun _ _ _ hsub h => h.sublist hsub

/-- What the rest of a program sees, the program sees. -/
theorem endsE_skip {p : App α} {g : α → App β} {Q : β → Steps → Prop} (hQ : Lasting Q) (hX : ∀ x tr, X x tr)
    (h : ∀ a, endsE (g a) Q X) : endsE (p >>= g) Q X := by
  rw [endsE_bind]
  refine endsE_iff.2 ⟨fun tr a _ => ?_, fun tr x _ => hX x tr⟩
  exact endsE_imp (fun b tr' hb => hQ b (List.sublist_append_right tr tr') hb) (fun x _ _ => hX x _) _ (h a)

/-- Two programs side by side: each saw what it sees alone. -/
theorem endsE_all {depth : Nat} {p : App α} {q : App β} {Q : α → Steps → Prop} {R : β → Steps → Prop} (hQ : Lasting Q)
    (hR : Lasting R) (hX : Lasting X) (hp : endsE p Q X) (hq : endsE q R X) :
    endsE (all depth p q) (fun r tr => Q r.1 tr ∧ R r.2 tr) X := by
  show ends (Prog.bind _ _) _
  rw [ends_bind]
  refine ends_imp ?_ _ (ends_par p.run q.run ?_ ?_ hp hq)
  · rintro ⟨x | a, y | b⟩ tr ⟨h1, h2⟩ <;> simp only [ends, List.append_nil]
    · exact h1
    · exact h1
    · exact h2
    · exact ⟨h1, h2⟩
  · rintro (x | a) tr tr' hsub h
    · exact hX x hsub h
    · exact hQ a hsub h
  · rintro (x | b) tr tr' hsub h
    · exact hX x hsub h
    · exact hR b hsub h

/-! ## Failures that do not occur -/

/-- No path of the program ends with the failure `x`. -/
def Avoids {α : Type} (x : Failure) (p : App α) : Prop :=
  endsE p (fun _ _ => True) fun y _ => y ≠ x

namespace Avoids

variable {x : Failure} {p : App α} {q : App β}

theorem pure (a : α) : Avoids x (pure a : App α) := trivial

theorem throw {y : Failure} (h : y ≠ x) : Avoids x (throw y : App α) := h

theorem io (hx : x ≠ .storage) (op : World → α × World) : Avoids x (io op) :=
  endsE_io (fun _ _ => trivial) fun _ => hx.symm

theorem clock : Avoids x clock :=
  endsE_clock fun _ _ => trivial

theorem require {holds : Bool} {y : Failure} (h : y ≠ x) : Avoids x (require holds y) :=
  endsE_require.2 ⟨fun _ => trivial, fun _ => h⟩

theorem bind {g : α → App β} (hp : Avoids x p) (hg : ∀ a, Avoids x (g a)) : Avoids x (p >>= g) :=
  (endsE_bind ..).2 (endsE_imp (fun a _ _ => hg a) (fun _ _ h => h) p hp)

theorem settled (hp : Avoids x p) : endsE (settled p) (fun r _ => r ≠ .error x) fun _ _ => False :=
  endsE_settled.2 (endsE_imp (fun _ _ _ => nofun) (fun _ _ h he => h (Except.error.inj he)) p hp)

/-- A caught failure is any. -/
theorem tryCatch {h : Failure → App α} (hh : ∀ y, Avoids x (h y)) : Avoids x (tryCatch p h) :=
  (endsE_tryCatch ..).2 (endsE_imp (fun _ _ _ => trivial) (fun y _ _ => hh y) p (endsE_true p))

theorem all (depth : Nat) (hp : Avoids x p) (hq : Avoids x q) : Avoids x (all depth p q) :=
  endsE_imp (fun _ _ _ => trivial) (fun _ _ h => h) _
    (endsE_all (fun _ _ _ _ h => h) (fun _ _ _ _ h => h) (fun _ _ _ _ h => h) hp hq)

end Avoids

/-! ## Steps with the steps before them -/

variable {Ψ : Steps → World × World → Prop} {past : Steps}

theorem alongE_io {op : World → α × World} (hstep : ∀ w dt, Ψ past (w, (op (w.tick dt)).2))
    (hlost : ∀ w dt, Ψ past (w, w.tick dt)) (hQ : ∀ w dt, Q (op (w.tick dt)).1 (past ++ [(w, (op (w.tick dt)).2)]))
    (hX : ∀ t, X .storage (past ++ [t])) : alongE Ψ (io op) Q X past := by
  intro w e
  dsimp only
  cases hf : e.fail with
  | true =>
    refine ⟨?_, hX _⟩
    cases ha : e.applied with
    | true => simpa only [hf, ha, if_true] using hstep w e.dt
    | false => simpa only [hf, ha, if_true, Bool.false_eq_true, if_false] using hlost w e.dt
  | false => exact ⟨hstep w e.dt, hQ w e.dt⟩

theorem alongE_query {q : World → α} (hstep : ∀ w dt, Ψ past (w, w.tick dt))
    (hQ : ∀ w dt, Q (q (w.tick dt)) (past ++ [(w, w.tick dt)])) (hX : ∀ t, X .storage (past ++ [t])) :
    alongE Ψ (query q) Q X past :=
  alongE_io hstep hstep hQ hX

theorem alongE_select {q : Db.Database → α} (hstep : ∀ w dt, Ψ past (w, w.tick dt))
    (hQ : ∀ w dt, Q (q w.db) (past ++ [(w, w.tick dt)])) (hX : ∀ t, X .storage (past ++ [t])) :
    alongE Ψ (select q) Q X past :=
  alongE_query hstep (fun w dt => hQ w dt) hX

theorem alongE_d1Logged {committed : Db.Database → List Event} {stmt : Db.Database → α × Db.Database}
    (hstep : ∀ w w' dt, w' = { w.tick dt with db := (stmt w.db).2, log := committed w.db ++ w.log } → Ψ past (w, w'))
    (hlost : ∀ w dt, Ψ past (w, w.tick dt))
    (hQ : ∀ w w', w'.db = (stmt w.db).2 → Q (stmt w.db).1 (past ++ [(w, w')])) (hX : ∀ t, X .storage (past ++ [t])) :
    alongE Ψ (d1Logged committed stmt) Q X past :=
  alongE_io (fun w dt => hstep w _ dt rfl) hlost (fun w _ => hQ w _ rfl) hX

theorem alongE_clock {Q : Nat → Steps → Prop} (hstep : ∀ w dt, Ψ past (w, w.tick dt))
    (hQ : ∀ w dt, Q (w.tick dt).nowSeconds (past ++ [(w, w.tick dt)])) : alongE Ψ clock Q X past :=
  fun w e => ⟨hstep w e.dt, hQ w e.dt⟩

@[simp] theorem alongE_require {holds : Bool} {x : Failure} {Q : Unit → Steps → Prop} :
    alongE Ψ (require holds x) Q X past ↔ (holds = true → Q () past) ∧ (holds = false → X x past) := by
  cases holds <;> simp [require]

end

end Keyforge
