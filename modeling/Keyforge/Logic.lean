/-
Proof rules for programs over the world. A storage call is checked against a stable assertion about
the world before it; the rules hide the clock, the failed call and the interference. Programs that
only read need no check of their own (`Quiet`).
-/
import Keyforge.World

namespace Keyforge

open Lib

namespace World

@[simp] theorem tick_db (w : World) (dt : Nat) : (w.tick dt).db = w.db := rfl
@[simp] theorem tick_families (w : World) (dt : Nat) : (w.tick dt).families = w.families := rfl
@[simp] theorem tick_codes (w : World) (dt : Nat) : (w.tick dt).codes = w.codes := rfl
@[simp] theorem tick_oneTimeTokens (w : World) (dt : Nat) : (w.tick dt).oneTimeTokens = w.oneTimeTokens := rfl
@[simp] theorem tick_challenges (w : World) (dt : Nat) : (w.tick dt).challenges = w.challenges := rfl
@[simp] theorem tick_kv (w : World) (dt : Nat) : (w.tick dt).kv = w.kv := rfl
@[simp] theorem tick_log (w : World) (dt : Nat) : (w.tick dt).log = w.log := rfl
@[simp] theorem tick_zero (w : World) : w.tick 0 = w := rfl

theorem tick_tick (w : World) (d d' : Nat) : (w.tick d).tick d' = w.tick (d + d') := by
  simp [tick, Nat.add_assoc]

end World

/-- A protocol that the passing of time respects. -/
structure Clocked (Γ : Protocol Input World) : Prop where
  ok : Γ.Ok
  tickInv : ∀ {w} dt, Γ.inv w → Γ.inv (w.tick dt)
  tickRely : ∀ w dt, Γ.rely w (w.tick dt)
  tickGuar : ∀ w dt, Γ.guar w (w.tick dt)
  tickAllow : ∀ {w w'} e, Γ.allow w e w' → Γ.allow (w.tick e.dt) e w'
  guarTick : ∀ {w w'} dt, Γ.guar (w.tick dt) w' → Γ.guar w w'

/-- The protocol of a program that changes nothing but the clock. -/
def quiet (Γ : Protocol Input World) : Protocol Input World :=
  Γ.withGuar fun w w' => ∃ dt, w' = w.tick dt

section

variable {Γ : Protocol Input World} {α β : Type} {Q : α → World → Prop} {X : Failure → World → Prop} {w : World}
  {P : World → Prop}

theorem Clocked.guarRefl (hc : Clocked Γ) (w : World) : Γ.guar w w :=
  hc.tickGuar w 0

theorem Clocked.quiet (hc : Clocked Γ) : Clocked (quiet Γ) := by
  refine ⟨⟨hc.ok.refl, hc.ok.trans⟩, hc.tickInv, hc.tickRely, fun w dt => ⟨dt, rfl⟩, hc.tickAllow, ?_⟩
  rintro w w' d ⟨d', rfl⟩
  exact ⟨d + d', World.tick_tick _ _ _⟩

theorem quiet_self (hc : Clocked Γ) {a b : World} (h : (quiet Γ).guar a b) : (quiet Γ).rely a b := by
  obtain ⟨dt, rfl⟩ := h
  exact hc.tickRely a dt

theorem wpE_of_quiet (hc : Clocked Γ) {p : App α} (h : wpE (quiet Γ) p Q X w) : wpE Γ p Q X w := by
  refine wp_withGuar (Γ := Γ) ?_ _ h
  rintro s s' ⟨dt, rfl⟩
  exact hc.tickGuar s dt

/-- The protocol of a program whose own steps are such as it tolerates from others. -/
def mild (Γ : Protocol Input World) : Protocol Input World :=
  Γ.withGuar fun w w' => Γ.rely w w' ∧ Γ.guar w w'

theorem Clocked.mild (hc : Clocked Γ) : Clocked (mild Γ) :=
  ⟨⟨hc.ok.refl, hc.ok.trans⟩, hc.tickInv, hc.tickRely, fun w dt => ⟨hc.tickRely w dt, hc.tickGuar w dt⟩,
    hc.tickAllow, fun dt h => ⟨hc.ok.trans (hc.tickRely _ dt) h.1, hc.guarTick dt h.2⟩⟩

theorem wpE_of_mild {p : App α} (h : wpE (mild Γ) p Q X w) : wpE Γ p Q X w :=
  wp_withGuar (Γ := Γ) And.right _ h

theorem Clocked.knowing (hc : Clocked Γ) (hP : Γ.Stable P) : Clocked (Γ.knowing P) where
  ok := ⟨hc.ok.refl, hc.ok.trans⟩
  tickInv := fun dt h => ⟨hc.tickInv dt h.1, hP h.2 (hc.tickRely _ dt) (hc.tickInv dt h.1)⟩
  tickRely := hc.tickRely
  tickGuar := hc.tickGuar
  tickAllow := hc.tickAllow
  guarTick := hc.guarTick

/-! ## Storage calls -/

/-- A storage call, checked against what is known before it. A failed call may have taken effect; what
is asked of a failure is asked where the system lets the call fail. -/
theorem wpE_ioFail (hc : Clocked Γ) (hP : Γ.Stable P) (hw : P w) {op : World → α × World}
    (hop : ∀ w e, P w → Γ.inv w → Γ.allow w e (op w).2 →
      Γ.inv (op w).2 ∧ Γ.guar w (op w).2 ∧ Q (op w).1 (op w).2 ∧ (e.fail = true → X .storage (op w).2))
    (hX : ∀ w e, P w → Γ.inv w → e.fail = true → Γ.allow w e w → X .storage w) : wpE Γ (io op) Q X w := by
  intro w' hr hi e ha
  have hi' := hc.tickInv e.dt hi
  have hp : P (w'.tick e.dt) := hP (hP hw hr hi) (hc.tickRely w' e.dt) hi'
  have ha' := hc.tickAllow e ha
  dsimp only at ha' ⊢
  cases hf : e.fail with
  | true =>
    cases hap : e.applied with
    | true =>
      simp only [hf, hap, if_true] at ha' ⊢
      obtain ⟨h1, h2, -, h4⟩ := hop _ e hp hi' ha'
      exact ⟨h1, hc.guarTick e.dt h2, h4 hf⟩
    | false =>
      simp only [hf, hap, if_true, Bool.false_eq_true, if_false] at ha' ⊢
      exact ⟨hi', hc.tickGuar w' e.dt, hX _ e hp hi' hf ha'⟩
  | false =>
    simp only [hf, Bool.false_eq_true, if_false] at ha' ⊢
    obtain ⟨h1, h2, h3, -⟩ := hop _ e hp hi' ha'
    exact ⟨h1, hc.guarTick e.dt h2, h3⟩

theorem wpE_io (hc : Clocked Γ) (hP : Γ.Stable P) (hw : P w) {op : World → α × World}
    (hop : ∀ w e, P w → Γ.inv w → Γ.allow w e (op w).2 →
      Γ.inv (op w).2 ∧ Γ.guar w (op w).2 ∧ Q (op w).1 (op w).2 ∧ (e.fail = true → X .storage (op w).2))
    (hX : ∀ w, P w → Γ.inv w → X .storage w) : wpE Γ (io op) Q X w :=
  wpE_ioFail hc hP hw hop fun w _ hp hi _ _ => hX w hp hi

/-- A storage call whose failure the history records. -/
theorem wpE_ioLogged (hc : Clocked Γ) (hP : Γ.Stable P) (hw : P w) {failed : List Event} {op : World → α × World}
    (hop : ∀ w e, P w → Γ.inv w → Γ.allow w e (op w).2 →
      Γ.inv (op w).2 ∧ Γ.guar w (op w).2 ∧ Q (op w).1 (op w).2)
    (hX : ∀ w w' e, P w → Γ.inv w → w' = w ∨ w' = (op w).2 → Γ.allow w e { w' with log := failed ++ w'.log } →
      Γ.inv { w' with log := failed ++ w'.log } ∧ Γ.guar w { w' with log := failed ++ w'.log } ∧
        X .storage { w' with log := failed ++ w'.log }) : wpE Γ (ioLogged failed op) Q X w := by
  intro w' hr hi e ha
  have hi' := hc.tickInv e.dt hi
  have hp : P (w'.tick e.dt) := hP (hP hw hr hi) (hc.tickRely w' e.dt) hi'
  have ha' := hc.tickAllow e ha
  dsimp only at ha' ⊢
  cases hf : e.fail with
  | true =>
    simp only [hf, if_true] at ha' ⊢
    obtain ⟨h1, h2, h3⟩ := hX (w'.tick e.dt) (if e.applied then (op (w'.tick e.dt)).2 else w'.tick e.dt) e hp hi' (by
      split
      · exact Or.inr rfl
      · exact Or.inl rfl) ha'
    exact ⟨h1, hc.guarTick e.dt h2, h3⟩
  | false =>
    simp only [hf, Bool.false_eq_true, if_false] at ha' ⊢
    obtain ⟨h1, h2, h3⟩ := hop _ e hp hi' ha'
    exact ⟨h1, hc.guarTick e.dt h2, h3⟩

theorem wpE_queryFail (hc : Clocked Γ) (hP : Γ.Stable P) (hw : P w) {q : World → α}
    (hQ : ∀ w, P w → Γ.inv w → Q (q w) w)
    (hX : ∀ w e, P w → Γ.inv w → e.fail = true → Γ.allow w e w → X .storage w) : wpE Γ (query q) Q X w :=
  wpE_ioFail hc hP hw (fun w e hp hi ha => ⟨hi, hc.guarRefl w, hQ w hp hi, fun hf => hX w e hp hi hf ha⟩) hX

theorem wpE_query (hc : Clocked Γ) (hP : Γ.Stable P) (hw : P w) {q : World → α}
    (hQ : ∀ w, P w → Γ.inv w → Q (q w) w) (hX : ∀ w, P w → Γ.inv w → X .storage w) :
    wpE Γ (query q) Q X w :=
  wpE_io hc hP hw (fun w _ hp hi _ => ⟨hi, hc.guarRefl w, hQ w hp hi, fun _ => hX w hp hi⟩) hX

theorem wpE_select (hc : Clocked Γ) (hP : Γ.Stable P) (hw : P w) {q : Db.Database → α}
    (hQ : ∀ w, P w → Γ.inv w → Q (q w.db) w) (hX : ∀ w, P w → Γ.inv w → X .storage w) :
    wpE Γ (select q) Q X w :=
  wpE_query hc hP hw hQ hX

/-- One D1 statement or batch, with what is asked of a failure asked where the system lets it fail. -/
theorem wpE_d1LoggedFail (hc : Clocked Γ) (hP : Γ.Stable P) (hw : P w) {committed : Db.Database → List Event}
    {stmt : Db.Database → α × Db.Database}
    (hop : ∀ w w' e, P w → Γ.inv w → w' = { w with db := (stmt w.db).2, log := committed w.db ++ w.log } →
      Γ.allow w e w' → Γ.inv w' ∧ Γ.guar w w' ∧ Q (stmt w.db).1 w' ∧ (e.fail = true → X .storage w'))
    (hX : ∀ w e, P w → Γ.inv w → e.fail = true → Γ.allow w e w → X .storage w) :
    wpE Γ (d1Logged committed stmt) Q X w :=
  wpE_ioFail hc hP hw (fun w e hp hi ha => hop w _ e hp hi rfl ha) hX

/-- One D1 statement or batch. -/
theorem wpE_d1Logged (hc : Clocked Γ) (hP : Γ.Stable P) (hw : P w) {committed : Db.Database → List Event}
    {stmt : Db.Database → α × Db.Database}
    (hop : ∀ w w' e, P w → Γ.inv w → w' = { w with db := (stmt w.db).2, log := committed w.db ++ w.log } →
      Γ.allow w e w' → Γ.inv w' ∧ Γ.guar w w' ∧ Q (stmt w.db).1 w' ∧ X .storage w')
    (hX : ∀ w, P w → Γ.inv w → X .storage w) : wpE Γ (d1Logged committed stmt) Q X w := by
  refine wpE_io hc hP hw (fun w e hp hi ha => ?_) hX
  obtain ⟨h1, h2, h3, h4⟩ := hop w _ e hp hi rfl ha
  exact ⟨h1, h2, h3, fun _ => h4⟩

/-- One call on a family object. -/
theorem wpE_familyObject (hc : Clocked Γ) (hP : Γ.Stable P) (hw : P w) {f : String}
    {call : Nat → Do.RefreshFamilyStorage → α × Do.RefreshFamilyStorage}
    (hop : ∀ w w' e, P w → Γ.inv w →
      w' = { w with families := Function.update w.families f (call w.nowSeconds (w.families f)).2 } →
      Γ.allow w e w' → Γ.inv w' ∧ Γ.guar w w' ∧ Q (call w.nowSeconds (w.families f)).1 w' ∧ X .storage w')
    (hX : ∀ w, P w → Γ.inv w → X .storage w) : wpE Γ (familyObject f call) Q X w := by
  refine wpE_io hc hP hw (fun w e hp hi ha => ?_) hX
  obtain ⟨h1, h2, h3, h4⟩ := hop w _ e hp hi rfl ha
  exact ⟨h1, h2, h3, fun _ => h4⟩

theorem wpE_clock (hc : Clocked Γ) (hP : Γ.Stable P) (hw : P w) {Q : Nat → World → Prop}
    (hQ : ∀ w, P w → Γ.inv w → Q w.nowSeconds w) : wpE Γ clock Q X w := by
  intro w' hr hi e _
  have hi' := hc.tickInv e.dt hi
  have hp : P (w'.tick e.dt) := hP (hP hw hr hi) (hc.tickRely w' e.dt) hi'
  exact ⟨hi', hc.tickGuar w' e.dt, hQ _ hp hi'⟩

@[simp] theorem wpE_require (holds : Bool) (x : Failure) (Q : Unit → World → Prop) :
    wpE Γ (require holds x) Q X w ↔ (holds = true → Q () w) ∧ (holds = false → X x w) := by
  cases holds <;> simp [require]

theorem wpE_settled {p : App α} {Q : Except Failure α → World → Prop} :
    wpE Γ (settled p) Q X w ↔ wpE Γ p (fun a => Q (.ok a)) (fun x => Q (.error x)) w := by
  show wp Γ (p.run.bind _) _ w ↔ wp Γ p.run _ w
  rw [wp_bind]
  refine ⟨wp_imp ?_ _, wp_imp ?_ _⟩ <;> rintro (x | a) s h <;> exact h

/-- Two programs side by side, each with a rely and a guarantee of its own. -/
theorem wpE_parallel {Γ₁ Γ₂ : Protocol Input World} (h₁ : Shares Γ Γ₁ Γ₂) (h₂ : Shares Γ Γ₂ Γ₁) {depth : Nat} {p : App α}
    {q : App β} {Q : α → World → Prop} {R : β → World → Prop} {Y : Failure → World → Prop} (hQ : ∀ a, Γ₁.Stable (Q a))
    (hX : ∀ x, Γ₁.Stable (X x)) (hR : ∀ b, Γ₂.Stable (R b)) (hY : ∀ x, Γ₂.Stable (Y x)) (hp : wpE Γ₁ p Q X w)
    (hq : wpE Γ₂ q R Y w) :
    wpE Γ (all depth p q) (fun r w => Q r.1 w ∧ R r.2 w) (fun x w => X x w ∨ Y x w) w := by
  show wp Γ (Prog.bind _ _) _ w
  rw [wp_bind]
  refine wp_imp ?_ _ (wp_parallel h₁ h₂ ?_ ?_ _ _ hp hq)
  · rintro ⟨x | a, y | b⟩ s ⟨h1, h2⟩
    · exact Or.inl h1
    · exact Or.inl h1
    · exact Or.inr h2
    · exact ⟨h1, h2⟩
  · rintro (x | a)
    · exact hX x
    · exact hQ a
  · rintro (x | b)
    · exact hY x
    · exact hR b

/-- Two programs side by side, each quiet about the other. -/
theorem wpE_all (hc : Γ.Ok) (hself : ∀ {a b}, Γ.guar a b → Γ.rely a b) {depth : Nat} {p : App α} {q : App β}
    {Q : α → World → Prop} {R : β → World → Prop} (hQ : ∀ a, Γ.Stable (Q a)) (hR : ∀ b, Γ.Stable (R b))
    (hX : ∀ x, Γ.Stable (X x)) (hp : wpE Γ p Q X w) (hq : wpE Γ q R X w) :
    wpE Γ (all depth p q) (fun r w => Q r.1 w ∧ R r.2 w) X w := by
  show wp Γ (Prog.bind _ _) _ w
  rw [wp_bind]
  refine wp_imp ?_ _ (wp_par hc hself ?_ ?_ _ _ hp hq)
  · rintro ⟨x | a, y | b⟩ s ⟨h1, h2⟩
    · exact h1
    · exact h1
    · exact h2
    · exact ⟨h1, h2⟩
  · rintro (x | a)
    · exact hX x
    · exact hQ a
  · rintro (x | b)
    · exact hX x
    · exact hR b

theorem wp_of_wpE {p : App α} {R : Except Failure α → World → Prop}
    (h : wpE Γ p (fun a => R (.ok a)) (fun x => R (.error x)) w) : wp Γ p.run R w := by
  refine wp_imp ?_ _ h
  rintro (x | a) s h <;> exact h

theorem stable_true (Γ : Protocol Input World) : Γ.Stable fun _ => True := fun _ _ _ _ _ => trivial

theorem Stable.and {P P' : World → Prop} (h : Γ.Stable P) (h' : Γ.Stable P') : Γ.Stable fun w => P w ∧ P' w :=
  fun _ _ hp hr hi => ⟨h hp.1 hr hi, h' hp.2 hr hi⟩

/-- A stable fact holds beside the result of a program whose own steps keep it. -/
theorem wpE_frame (hP : Γ.Stable P) (hself : ∀ {a b}, Γ.guar a b → Γ.rely a b) {p : App α} (hw : P w)
    (h : wpE Γ p Q X w) : wpE Γ p (fun a w => P w ∧ Q a w) (fun x w => P w ∧ X x w) w := by
  refine wp_imp ?_ _ (wp_frame hP hself _ hw h)
  rintro (x | a) s h <;> exact h

end

/-! ## Programs that only read -/

/-- Whatever the protocol, every step of `p` changes nothing but the clock. -/
def Quiet {α : Type} (p : App α) : Prop :=
  ∀ Γ : Protocol Input World, Clocked Γ → ∀ w, wpE (quiet Γ) p (fun _ _ => True) (fun _ _ => True) w

namespace Quiet

variable {α β : Type}

theorem pure (a : α) : Quiet (pure a : App α) := fun _ _ _ => trivial

theorem throw (x : Failure) : Quiet (throw x : App α) := fun _ _ _ => trivial

theorem query (q : World → α) : Quiet (query q) := fun _ hc _ =>
  wpE_query hc.quiet (P := fun _ => True) (stable_true _) trivial (fun _ _ _ => trivial) (fun _ _ _ => trivial)

theorem select (q : Db.Database → α) : Quiet (select q) := query _

theorem clock : Quiet clock := fun _ hc _ =>
  wpE_clock hc.quiet (P := fun _ => True) (stable_true _) trivial (fun _ _ _ => trivial)

theorem bind {p : App α} {g : α → App β} (hp : Quiet p) (hg : ∀ a, Quiet (g a)) : Quiet (p >>= g) := by
  intro Γ hc w
  rw [wpE_bind]
  exact wpE_imp (fun a w _ => hg a Γ hc w) (fun _ _ _ => trivial) _ (hp Γ hc w)

theorem map {p : App α} (f : α → β) (hp : Quiet p) : Quiet (f <$> p) := by
  rw [map_eq_pure_bind]
  exact hp.bind fun a => pure (f a)

theorem tryCatch {p : App α} {h : Failure → App α} (hp : Quiet p) (hh : ∀ x, Quiet (h x)) :
    Quiet (tryCatch p h) := by
  intro Γ hc w
  rw [wpE_tryCatch]
  exact wpE_imp (fun _ _ _ => trivial) (fun x w _ => hh x Γ hc w) _ (hp Γ hc w)

theorem require (holds : Bool) (x : Failure) : Quiet (require holds x) := by
  unfold Keyforge.require
  split
  · exact pure ()
  · exact throw x

theorem settled {p : App α} (hp : Quiet p) : Quiet (settled p) := by
  intro Γ hc w
  rw [wpE_settled]
  exact hp Γ hc w

theorem all {depth : Nat} {p : App α} {q : App β} (hp : Quiet p) (hq : Quiet q) : Quiet (all depth p q) := by
  intro Γ hc w
  refine wpE_imp (fun _ _ _ => trivial) (fun _ _ _ => trivial) _
    (wpE_all hc.quiet.ok (quiet_self hc) (fun _ => stable_true _) (fun _ => stable_true _) (fun _ => stable_true _)
      (hp Γ hc w) (hq Γ hc w))

theorem ite {c : Prop} [Decidable c] {p q : App α} (hp : Quiet p) (hq : Quiet q) : Quiet (if c then p else q) := by
  split
  · exact hp
  · exact hq

/-- Run a program that only reads: what was known before it is known after it. -/
theorem wpE {Γ : Protocol Input World} (hc : Clocked Γ) {p : App α} (hp : Quiet p) {P : World → Prop}
    (hP : Γ.Stable P) {w : World} (hw : P w) (hi : Γ.inv w) {Q : α → World → Prop} {X : Failure → World → Prop}
    (hQ : ∀ a w, P w → Γ.inv w → Q a w) (hX : ∀ x w, P w → Γ.inv w → X x w) : wpE Γ p Q X w := by
  have hf := wpE_frame (Γ := quiet Γ) hP (quiet_self hc) hw (hp Γ hc w)
  refine wpE_of_quiet hc (wpE_mono ?_ ?_ _ hi hf)
  · exact fun a w hi h => hQ a w h.1 hi
  · exact fun x w hi h => hX x w h.1 hi

end Quiet

/-! ## Programs that run alone -/

/-- Nothing else moves but the clock. -/
def alone : Protocol Input World :=
  ⟨fun _ => True, fun w w' => ∃ dt, w' = w.tick dt, fun _ _ => True, fun _ _ _ => True⟩

theorem alone_clocked : Clocked alone where
  ok := ⟨fun w => ⟨0, rfl⟩, by
    rintro a b c ⟨d, rfl⟩ ⟨d', rfl⟩
    exact ⟨d + d', World.tick_tick _ _ _⟩⟩
  tickInv := fun _ _ => trivial
  tickRely := fun _ dt => ⟨dt, rfl⟩
  tickGuar := fun _ _ => trivial
  tickAllow := fun _ _ => trivial
  guarTick := fun _ _ => trivial

theorem alone_stable_db (db : Db.Database) : alone.Stable fun w => w.db = db := by
  rintro w w' rfl ⟨dt, rfl⟩ -
  rfl

/-- What a triple promises of a program that runs alone. -/
theorem post_of_runs {α : Type} {p : App α} {w w' : World} {r : Except Failure α} {Q : α → World → Prop}
    {X : Failure → World → Prop} (hr : Runs p.run w r w') (h : wpE alone p Q X w) :
    match r with
    | .ok a => Q a w'
    | .error x => X x w' := by
  have := hr.post (Γ := alone) (fun w => ⟨0, rfl⟩) (fun _ _ _ => trivial) trivial h
  cases r <;> exact this

/-! ## Programs that keep the protocol -/

/-- Every step of `p` keeps the invariant and the guarantee, whatever is known. -/
def Keeps {α : Type} (Γ : Protocol Input World) (p : App α) : Prop :=
  ∀ w, Γ.inv w → wpE Γ p (fun _ _ => True) (fun _ _ => True) w

namespace Keeps

variable {α β : Type} {Γ : Protocol Input World}

theorem of_quiet (hc : Clocked Γ) {p : App α} (hp : Quiet p) : Keeps Γ p :=
  fun _ hi => hp.wpE hc (stable_true Γ) trivial hi (fun _ _ _ _ => trivial) fun _ _ _ _ => trivial

theorem pure (a : α) : Keeps Γ (pure a : App α) := fun _ _ => trivial

theorem throw (x : Failure) : Keeps Γ (throw x : App α) := fun _ _ => trivial

theorem require (holds : Bool) (x : Failure) : Keeps Γ (require holds x) := by
  unfold Keyforge.require
  split
  · exact pure ()
  · exact throw x

theorem clock (hc : Clocked Γ) : Keeps Γ clock := of_quiet hc .clock

theorem select (hc : Clocked Γ) (q : Db.Database → α) : Keeps Γ (select q) := of_quiet hc (.select q)

theorem io (hc : Clocked Γ) {op : World → α × World}
    (hop : ∀ w e, Γ.inv w → Γ.allow w e (op w).2 → Γ.inv (op w).2 ∧ Γ.guar w (op w).2) : Keeps Γ (io op) := by
  intro w _
  refine wpE_io hc (stable_true Γ) trivial (fun w e _ hi ha => ?_) fun _ _ _ => trivial
  obtain ⟨h1, h2⟩ := hop w e hi ha
  exact ⟨h1, h2, trivial, fun _ => trivial⟩

/-- A storage call whose failure the history records. -/
theorem ioLogged (hc : Clocked Γ) {failed : List Event} {op : World → α × World}
    (hop : ∀ w e, Γ.inv w → Γ.allow w e (op w).2 → Γ.inv (op w).2 ∧ Γ.guar w (op w).2)
    (hfail : ∀ w w' e, Γ.inv w → w' = w ∨ w' = (op w).2 → Γ.allow w e { w' with log := failed ++ w'.log } →
      Γ.inv { w' with log := failed ++ w'.log } ∧ Γ.guar w { w' with log := failed ++ w'.log }) :
    Keeps Γ (ioLogged failed op) := by
  intro w _
  refine wpE_ioLogged hc (stable_true Γ) trivial (fun w e _ hi ha => ?_) fun w w' e _ hi hw' ha => ?_
  · obtain ⟨h1, h2⟩ := hop w e hi ha
    exact ⟨h1, h2, trivial⟩
  · obtain ⟨h1, h2⟩ := hfail w w' e hi hw' ha
    exact ⟨h1, h2, trivial⟩

/-- The clock, where the history records what the time decides. -/
theorem clockLogged (hc : Clocked Γ) {decided : Nat → List Event}
    (hop : ∀ w e, Γ.inv w → Γ.allow w e { w with log := decided w.nowSeconds ++ w.log } →
      Γ.inv { w with log := decided w.nowSeconds ++ w.log } ∧ Γ.guar w { w with log := decided w.nowSeconds ++ w.log }) :
    Keeps Γ (clockLogged decided) := by
  intro w _ w' _ hi e ha
  obtain ⟨h1, h2⟩ := hop _ e (hc.tickInv e.dt hi) (hc.tickAllow e ha)
  exact ⟨h1, hc.guarTick e.dt h2, trivial⟩

/-- One D1 statement or batch. -/
theorem d1Logged (hc : Clocked Γ) {committed : Db.Database → List Event} {stmt : Db.Database → α × Db.Database}
    (hop : ∀ w w' e, Γ.inv w → w' = { w with db := (stmt w.db).2, log := committed w.db ++ w.log } →
      Γ.allow w e w' → Γ.inv w' ∧ Γ.guar w w') : Keeps Γ (d1Logged committed stmt) :=
  io hc fun w e hi ha => hop w _ e hi rfl ha

/-- One D1 statement or batch that the history does not record. -/
theorem d1 (hc : Clocked Γ) {stmt : Db.Database → α × Db.Database}
    (hop : ∀ w w' e, Γ.inv w → w' = { w with db := (stmt w.db).2 } → Γ.allow w e w' → Γ.inv w' ∧ Γ.guar w w') :
    Keeps Γ (d1 stmt) := by
  unfold Keyforge.d1
  exact d1Logged hc hop

theorem bind {p : App α} {g : α → App β} (hp : Keeps Γ p) (hg : ∀ a, Keeps Γ (g a)) : Keeps Γ (p >>= g) := by
  intro w hi
  rw [wpE_bind]
  exact wpE_mono (fun a w hi _ => hg a w hi) (fun _ _ _ _ => trivial) _ hi (hp w hi)

/-- What comes after a check may use that it passed. -/
theorem required {holds : Bool} {x : Failure} {g : Unit → App α} (hg : holds = true → Keeps Γ (g ())) :
    Keeps Γ (Keyforge.require holds x >>= g) := by
  intro w hi
  rw [wpE_bind, wpE_require]
  exact ⟨fun h => hg h w hi, fun _ => trivial⟩

theorem map {p : App α} (f : α → β) (hp : Keeps Γ p) : Keeps Γ (f <$> p) := by
  rw [map_eq_pure_bind]
  exact hp.bind fun a => pure (f a)

theorem tryCatch {p : App α} {h : Failure → App α} (hp : Keeps Γ p) (hh : ∀ x, Keeps Γ (h x)) :
    Keeps Γ (tryCatch p h) := by
  intro w hi
  rw [wpE_tryCatch]
  exact wpE_mono (fun _ _ _ _ => trivial) (fun x w hi _ => hh x w hi) _ hi (hp w hi)

theorem ite {c : Prop} [Decidable c] {p q : App α} (hp : Keeps Γ p) (hq : Keeps Γ q) :
    Keeps Γ (if c then p else q) := by
  split
  · exact hp
  · exact hq

theorem settled {p : App α} (hp : Keeps Γ p) : Keeps Γ (settled p) := by
  intro w hi
  rw [wpE_settled]
  exact hp w hi

theorem all (hc : Clocked Γ) (hself : ∀ {a b}, Γ.guar a b → Γ.rely a b) {depth : Nat} {p : App α} {q : App β}
    (hp : Keeps Γ p) (hq : Keeps Γ q) : Keeps Γ (all depth p q) := fun w hi =>
  wpE_imp (fun _ _ _ => trivial) (fun _ _ _ => trivial) _
    (wpE_all hc.ok hself (fun _ => stable_true Γ) (fun _ => stable_true Γ) (fun _ => stable_true Γ) (hp w hi) (hq w hi))

/-- Run a program that keeps the protocol, where its own steps are such as it tolerates from others:
what was known before it is known after it. -/
theorem wpE {p : App α} (hp : Keeps Γ p) (hself : ∀ {a b}, Γ.guar a b → Γ.rely a b) {P : World → Prop}
    (hP : Γ.Stable P) {w : World} (hw : P w) (hi : Γ.inv w) {Q : α → World → Prop} {X : Failure → World → Prop}
    (hQ : ∀ a w, P w → Γ.inv w → Q a w) (hX : ∀ x w, P w → Γ.inv w → X x w) : wpE Γ p Q X w := by
  refine wpE_mono ?_ ?_ _ hi (wpE_frame hP hself hw (hp w hi))
  · exact fun a w hi h => hQ a w h.1 hi
  · exact fun x w hi h => hX x w h.1 hi

/-- Run a program that keeps the protocol when `P` is known. -/
theorem knowing {p : App α} {P : World → Prop} (hp : Keeps (Γ.knowing P) p) (hP : Γ.Stable P) {w : World} (hw : P w)
    (hi : Γ.inv w) : Keyforge.Lib.wpE Γ p (fun _ _ => True) (fun _ _ => True) w :=
  wp_knowing hP _ hw (hp w ⟨hi, hw⟩)

end Keeps

end Keyforge
