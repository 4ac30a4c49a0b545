/-
Programs that run alone and whose storage calls all succeed: the protocol of one, and two side by side
from two databases. `Alike` follows the program: what two calls answer and how they leave the databases
related is all the rest may use.
-/
import Keyforge.Lib.TwoRuns
import Keyforge.Tokens.Rules

namespace Keyforge

open Lib Db Tokens

/-- The storage call succeeds. -/
def Calm (e : Input) : Prop := e.fail = false

/-! ## One program -/

/-- Nothing else writes the database, and every storage call succeeds. -/
def calm : Protocol Input World :=
  ⟨fun _ => True, fun w w' => w'.db = w.db, fun _ _ => True, fun _ e _ => Calm e⟩

theorem calm_tolerant : Tolerant calm where
  ok := ⟨fun _ => rfl, fun h h' => h'.trans h⟩
  tickInv := fun _ _ => trivial
  tickRely := fun _ _ => rfl
  tickGuar := fun _ _ => trivial
  tickAllow := fun _ h => h
  guarTick := fun _ _ => trivial
  burnInv := fun _ _ => trivial
  burnRely := fun hb => hb.db
  burnGuar := fun _ => trivial

theorem calm_stable {P : Database → Prop} : calm.Stable fun w => P w.db := by
  intro w w' h hr _
  have hdb : w'.db = w.db := hr
  show P w'.db
  rw [hdb]
  exact h

/-- A read: what is known of the database is all it can answer from. -/
theorem wpE_select_calm {α : Type} {P : Database → Prop} {w : World} (hw : P w.db) {q : Database → α}
    {Q : α → World → Prop} {X : Failure → World → Prop} (hQ : ∀ w, P w.db → Q (q w.db) w) : wpE calm (select q) Q X w :=
  wpE_queryFail calm_tolerant.toClocked calm_stable hw (fun w hp _ => hQ w hp)
    fun _ _ _ _ hf ha => absurd (hf.symm.trans ha) Bool.noConfusion

/-- One D1 statement or batch, which succeeds. -/
theorem wpE_d1_calm {α : Type} {P : Database → Prop} {w : World} (hw : P w.db) {committed : Database → List Event}
    {stmt : Database → α × Database} {Q : α → World → Prop} {X : Failure → World → Prop}
    (hQ : ∀ w w' : World, P w.db → w'.db = (stmt w.db).2 → Q (stmt w.db).1 w') : wpE calm (d1Logged committed stmt) Q X w := by
  refine wpE_d1LoggedFail calm_tolerant.toClocked calm_stable hw (fun w w' e hp _ hw' ha => ?_)
    fun _ _ _ _ hf ha => absurd (hf.symm.trans ha) Bool.noConfusion
  exact ⟨trivial, trivial, hQ w w' hp (by rw [hw']), fun hf => absurd (hf.symm.trans ha) Bool.noConfusion⟩

/-- Two reads side by side. -/
theorem wpE_selects_calm {α β : Type} {w : World} {depth : Nat} {q : Database → α} {q' : Database → β}
    {Q : α × β → World → Prop} {X : Failure → World → Prop} (hQ : ∀ w', w'.db = w.db → Q (q w.db, q' w.db) w') :
    wpE calm (all depth (select q) (select q')) Q X w := by
  have hc := calm_tolerant.toClocked
  have hread : ∀ {γ : Type} (q : Database → γ),
      wpE (quiet calm) (select q) (fun a w' => a = q w.db ∧ w'.db = w.db) (fun _ _ => False) w := fun q =>
    wpE_queryFail hc.quiet (P := fun w' => w'.db = w.db) (calm_stable (P := (· = w.db))) rfl
      (fun w' h _ => ⟨congrArg q h, h⟩) fun _ _ _ _ hf ha => absurd (hf.symm.trans ha) Bool.noConfusion
  have hstable : ∀ Q : Prop, (quiet calm).Stable fun w' => Q ∧ w'.db = w.db := fun Q _ _ h hr _ => ⟨h.1, hr.trans h.2⟩
  refine wpE_of_quiet hc (wpE_imp (fun r w' h => ?_) (fun _ _ h => h.elim) _
    (wpE_all hc.quiet.ok (quiet_self hc) (fun a => hstable (a = q w.db)) (fun b => hstable (b = q' w.db))
      (fun _ _ _ h _ _ => h) (hread q) (hread q')))
  obtain ⟨a, b⟩ := r
  obtain ⟨⟨rfl, hdb⟩, rfl, -⟩ := h
  exact hQ w' hdb

/-- What a triple promises of a calm run. -/
theorem post_of_calm {α : Type} {p : App α} {w w' : World} {r : Except Failure α} {Q : α → World → Prop}
    {X : Failure → World → Prop} (hr : RunsBy Calm p.run w r w') (h : wpE calm p Q X w) :
    match r with
    | .ok a => Q a w'
    | .error x => X x w' := by
  have := hr.post (Γ := calm) (fun _ => rfl) (fun _ _ _ he => he) trivial h
  cases r <;> exact this

/-! ## Two programs -/

/-- Calm runs of `p` and `q` from related databases return related results and leave related
databases. -/
def AlikeE {α β : Type} (R : Database → Database → Prop) (S : α → β → Prop) (p : App α) (q : App β) : Prop :=
  Alike Calm (fun w w' => R w.db w'.db) (fun a b => ∃ x y, a = .ok x ∧ b = .ok y ∧ S x y) p.run q.run

namespace AlikeE

variable {α α' β β' : Type} {R : Database → Database → Prop} {S : α → β → Prop}

theorem pure {a : α} {b : β} (h : S a b) : AlikeE R S (pure a) (pure b) :=
  Alike.done ⟨a, b, rfl, rfl, h⟩

theorem bind {T : α' → β' → Prop} {p : App α} {q : App β} {f : α → App α'} {g : β → App β'} (hpq : AlikeE R S p q)
    (hfg : ∀ a b, S a b → AlikeE R T (f a) (g b)) : AlikeE R T (p >>= f) (q >>= g) := by
  refine Alike.bind hpq ?_
  rintro _ _ ⟨x, y, rfl, rfl, hS⟩
  exact hfg x y hS

theorem map {T : α' → β' → Prop} {p : App α} {q : App β} {f : α → α'} {g : β → β'} (hpq : AlikeE R S p q)
    (hfg : ∀ a b, S a b → T (f a) (g b)) : AlikeE R T (f <$> p) (g <$> q) := by
  rw [map_eq_pure_bind, map_eq_pure_bind]
  exact hpq.bind fun a b h => pure (hfg a b h)

theorem io {op : World → α × World} {op' : World → β × World}
    (h : ∀ w w', R w.db w'.db → S (op w).1 (op' w').1 ∧ R (op w).2.db (op' w').2.db) : AlikeE R S (io op) (io op') := by
  intro w w' a b v v' hR hp hq
  obtain ⟨e, he, hop⟩ := runsBy_atomic.1 hp
  obtain ⟨e', he', hop'⟩ := runsBy_atomic.1 hq
  have hc : e.fail = false := he
  have hc' : e'.fail = false := he'
  simp only [hc, hc', Bool.false_eq_true, if_false] at hop hop'
  cases hop
  cases hop'
  obtain ⟨hS, hR'⟩ := h (w.tick e.dt) (w'.tick e'.dt) hR
  exact ⟨⟨_, _, rfl, rfl, hS⟩, hR'⟩

theorem select {q : Database → α} {q' : Database → β} (h : ∀ db db', R db db' → S (q db) (q' db')) :
    AlikeE R S (select q) (select q') := by
  unfold Keyforge.select query
  exact io fun w w' hR => ⟨h w.db w'.db hR, hR⟩

theorem d1 {stmt : Database → α × Database} {stmt' : Database → β × Database}
    (h : ∀ db db', R db db' → S (stmt db).1 (stmt' db').1 ∧ R (stmt db).2 (stmt' db').2) :
    AlikeE R S (d1 stmt) (d1 stmt') := by
  unfold Keyforge.d1 d1Logged
  exact io fun w w' hR => h w.db w'.db hR

/-- Programs that return a given result and leave the database as it is. -/
theorem of_idle {p : App α} {q : App β} {a : α} {b : β} (hS : S a b)
    (hp : ∀ w r w', RunsBy Calm p.run w r w' → r = .ok a ∧ w'.db = w.db)
    (hq : ∀ w r w', RunsBy Calm q.run w r w' → r = .ok b ∧ w'.db = w.db) : AlikeE R S p q := by
  intro w w' r r' v v' hR hrun hrun'
  obtain ⟨rfl, hdb⟩ := hp w r v hrun
  obtain ⟨rfl, hdb'⟩ := hq w' r' v' hrun'
  refine ⟨⟨a, b, rfl, rfl, hS⟩, ?_⟩
  show R v.db v'.db
  rw [hdb, hdb']
  exact hR

end AlikeE

end Keyforge
