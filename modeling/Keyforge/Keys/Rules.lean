/-
Proof rules for the programs of the signing keys. The removal of the copies in KV and its marker touch
nothing of the keyring; a protocol that tolerates such steps needs to say no more about them.
-/
import Keyforge.Tokens.KeyRotation

namespace Keyforge.Keys

open Lib Db Tokens

/-- At most copies in KV and the marker of their removal are not as before. -/
structure SameKeyring (w w' : World) : Prop where
  nowMs : w'.nowMs = w.nowMs
  row : w'.db.operations.signingKeyState = w.db.operations.signingKeyState
  leases : w'.db.operations.maintenanceLeases = w.db.operations.maintenanceLeases
  kv : w.kv = .empty → w'.kv = .empty
  log : w'.log = w.log

/-- The protocol tolerates and keeps such steps. -/
def TolerantOfCleanup (Γ : Protocol Input World) : Prop :=
  ∀ w w', Γ.inv w → SameKeyring w w' → Γ.inv w' ∧ Γ.rely w w' ∧ Γ.guar w w'

section

variable {Γ : Protocol Input World} {P : World → Prop} {w : World}

theorem quiet_readLegacyKvCopies : Quiet readLegacyKvCopies :=
  .bind (.all (.query _) (.query _)) fun _ => .pure _

theorem quiet_loadLegacyKeyring : Quiet loadLegacyKeyring := by
  refine .bind (.all (.query _) (.query _)) fun r => ?_
  obtain ⟨rawKeys, activeKid⟩ := r
  dsimp only
  split
  · exact .pure _
  · exact .throw _
  · exact .pure _

theorem quiet_sleep (ms : Nat) : Quiet (sleep ms) :=
  fun _ hc _ _ _ hi _ _ => ⟨hc.tickInv _ hi, ⟨_, rfl⟩, trivial⟩

theorem wpE_sleep (hc : Clocked Γ) (hP : Γ.Stable P) (hw : P w) {ms : Nat} {Q : Unit → World → Prop}
    {X : Failure → World → Prop} (hQ : ∀ w, P w → Γ.inv w → Q () w) : wpE Γ (sleep ms) Q X w := by
  intro w' hr hi e _
  have hi' : Γ.inv (w'.tick (ms + e.dt)) := hc.tickInv _ hi
  exact ⟨hi', hc.tickGuar w' _, hQ _ (hP (hP hw hr hi) (hc.tickRely w' _) hi') hi'⟩

theorem wpE_whenever {c : Bool} {p : App Unit} {Q : Unit → World → Prop} {X : Failure → World → Prop} :
    wpE Γ (whenever c p) Q X w ↔ (c = true → wpE Γ p Q X w) ∧ (c = false → Q () w) := by
  cases c <;> simp [whenever]

/-- The two reads of KV, in either order. -/
theorem kvReads_wpE (hc : Clocked Γ) (hP : Γ.Stable P) (hw : P w)
    {A : Option (Except String (List StoredSigningKey)) → World → Prop} {B : Option String → World → Prop}
    {X : Failure → World → Prop} (hAs : ∀ r, Γ.Stable (A r)) (hBs : ∀ r, Γ.Stable (B r)) (hXs : ∀ x, Γ.Stable (X x))
    (hA : ∀ w, P w → Γ.inv w → A w.kv.signingKeys w) (hB : ∀ w, P w → Γ.inv w → B w.kv.activeKid w)
    (hX : ∀ w e, P w → Γ.inv w → e.fail = true → Γ.allow w e w → X .storage w) :
    wpE Γ (all 1 kvGetSigningKeys kvGetActiveKid) (fun r w => A r.1 w ∧ B r.2 w) X w := by
  refine wpE_of_quiet hc (wpE_all hc.quiet.ok (quiet_self hc) hAs hBs hXs ?_ ?_)
  · exact wpE_queryFail hc.quiet hP hw hA hX
  · exact wpE_queryFail hc.quiet hP hw hB hX

/-- Without copies there is no legacy keyring. -/
theorem loadLegacyKeyring_wpE (hc : Clocked Γ) (hkv : ∀ w, Γ.inv w → w.kv = .empty) (hP : Γ.Stable P) (hw : P w)
    {Q : Option StoredKeyring → World → Prop} {X : Failure → World → Prop} (hXs : ∀ x, Γ.Stable (X x))
    (hQ : ∀ w, P w → Q none w) (hX : ∀ w e, P w → Γ.inv w → e.fail = true → Γ.allow w e w → X .storage w) :
    wpE Γ loadLegacyKeyring Q X w := by
  rw [loadLegacyKeyring, wpE_bind]
  refine wpE_imp ?_ (fun _ _ h => h) _ (kvReads_wpE (A := fun r w => r = none ∧ P w) (B := fun _ _ => True) hc hP hw
    (fun r => Stable.and (fun _ _ h _ _ => h) hP) (fun _ => stable_true Γ) hXs
    (fun w hp hi => ⟨by rw [hkv w hi]; rfl, hp⟩) (fun _ _ _ => trivial) hX)
  rintro ⟨rawKeys, activeKid⟩ w ⟨⟨rfl, hp⟩, -⟩
  exact hQ w hp

/-! ## Removing the copies -/

theorem keeps_removeLegacyKvKeyring (hc : Clocked Γ) (ht : TolerantOfCleanup Γ) : Keeps (mild Γ) removeLegacyKvKeyring := by
  have hm := hc.mild
  have hkeep : ∀ w w', Γ.inv w → SameKeyring w w' → (mild Γ).inv w' ∧ (mild Γ).guar w w' := by
    intro w w' hi hs
    obtain ⟨h1, h2, h3⟩ := ht w w' hi hs
    exact ⟨h1, h2, h3⟩
  have hdelete : Keeps (mild Γ) kvDeleteSigningKeys := .io hm fun w e hi _ =>
    hkeep w _ hi ⟨rfl, rfl, rfl, fun h => by rw [h]; rfl, rfl⟩
  have hdelete' : Keeps (mild Γ) kvDeleteActiveKid := .io hm fun w e hi _ =>
    hkeep w _ hi ⟨rfl, rfl, rfl, fun h => by rw [h]; rfl, rfl⟩
  refine .bind (.all hm (fun h => h.1) hdelete hdelete') fun _ => ?_
  refine .bind (.of_quiet hm quiet_readLegacyKvCopies) fun remaining => ?_
  refine .bind (.require _ _) fun _ => ?_
  exact .d1 hm fun w w' e hi hw' _ => hkeep w w' hi (by rw [hw']; exact ⟨rfl, rfl, rfl, id, rfl⟩)

/-- Failed removals are swallowed. -/
theorem retryLegacyKvCleanup_wpE (hc : Clocked Γ) (ht : TolerantOfCleanup Γ) (hP : Γ.Stable P) (hw : P w) (hi : Γ.inv w)
    {Q : Unit → World → Prop} {X : Failure → World → Prop} (hQ : ∀ w, P w → Γ.inv w → Q () w) :
    wpE Γ retryLegacyKvCleanup Q X w := by
  rw [retryLegacyKvCleanup, wpE_tryCatch]
  refine wpE_of_mild ?_
  exact (keeps_removeLegacyKvKeyring hc ht).wpE (fun h => h.1) hP hw hi (fun _ w hp hi => hQ w hp hi)
    fun _ w hp hi => hQ w hp hi

theorem markLegacyKvCleanupPending_wpE (hc : Clocked Γ) (ht : TolerantOfCleanup Γ) (hP : Γ.Stable P) (hw : P w)
    {Q : Unit → World → Prop} {X : Failure → World → Prop} (hQ : ∀ w, P w → Γ.inv w → Q () w)
    (hX : ∀ w, P w → Γ.inv w → X .storage w) : wpE Γ markLegacyKvCleanupPending Q X w := by
  rw [markLegacyKvCleanupPending, wpE_bind]
  refine wpE_clock hc hP hw fun w₁ hw₁ _ => ?_
  refine wpE_d1Logged hc hP hw₁ ?_ hX
  intro w w' e hp hi hw' _
  obtain ⟨h1, h2, h3⟩ := ht w w' hi (by rw [hw']; exact ⟨rfl, rfl, rfl, id, rfl⟩)
  exact ⟨h1, h3, hQ w' (hP hp h2 h1) h1, hX w' (hP hp h2 h1) h1⟩

/-! ## Loading the keyring -/

/-- The row as it is loaded. -/
def loaded (row : Option SigningKeyStateRow) : Option PersistedKeyring :=
  row.map fun row => ⟨row.keyring, row.version⟩

/-- What the history records of a load. -/
def missingEvents (missing : List Event) (w : World) : List Event :=
  if w.db.operations.signingKeyState.isNone then missing else []

theorem loadPersistedKeyringLogged_wpE (hc : Clocked Γ) (ht : TolerantOfCleanup Γ) (hP : Γ.Stable P) (hw : P w)
    {missing : List Event} {Q : Option PersistedKeyring → World → Prop} {X : Failure → World → Prop}
    (hQs : ∀ r, Γ.Stable (Q r))
    (hread : ∀ w w' e, P w → Γ.inv w → w' = { w with log := missingEvents missing w ++ w.log } → Γ.allow w e w' →
      Γ.inv w' ∧ Γ.guar w w' ∧ Q (loaded w.db.operations.signingKeyState) w' ∧ (e.fail = true → X .storage w') ∧
        ∀ row, w.db.operations.signingKeyState = some row → hasUsableActiveKey row.keyring = false →
          X (.app 500 "Signing key unavailable") w')
    (hX : ∀ w e, P w → Γ.inv w → e.fail = true → Γ.allow w e w → X .storage w) :
    wpE Γ (loadPersistedKeyringLogged missing) Q X w := by
  rw [loadPersistedKeyringLogged, wpE_bind]
  refine wpE_d1LoggedFail hc hP hw ?_ hX
  intro w w' e hp hi hw' ha
  obtain ⟨h1, h2, h3, h4, h5⟩ := hread w w' e hp hi hw' ha
  refine ⟨h1, h2, ?_, h4⟩
  dsimp only
  generalize w.db.operations.signingKeyState = row at h3 h5
  cases row with
  | none => exact h3
  | some row =>
    show wpE Γ (finishLoad (some row) _) Q X w'
    rw [finishLoad, wpE_bind, wpE_require]
    refine ⟨fun _ => ?_, fun hunusable => h5 row rfl hunusable⟩
    rw [wpE_bind, wpE_whenever]
    refine ⟨fun _ => ?_, fun _ => h3⟩
    exact retryLegacyKvCleanup_wpE hc ht (hQs _) h3 h1 fun w hq _ => hq

/-- The load, where only its result matters. -/
theorem loadPersistedKeyring_wpE (hc : Clocked Γ) (ht : TolerantOfCleanup Γ) (hP : Γ.Stable P) (hw : P w)
    {Q : Option PersistedKeyring → World → Prop} {X : Failure → World → Prop} (hQs : ∀ r, Γ.Stable (Q r))
    (hQ : ∀ w, P w → Γ.inv w → Q (loaded w.db.operations.signingKeyState) w)
    (hX : ∀ w e, P w → Γ.inv w → e.fail = true → Γ.allow w e w → X .storage w)
    (hX' : ∀ w row, P w → Γ.inv w → w.db.operations.signingKeyState = some row → hasUsableActiveKey row.keyring = false →
      X (.app 500 "Signing key unavailable") w) : wpE Γ loadPersistedKeyring Q X w := by
  refine loadPersistedKeyringLogged_wpE hc ht hP hw hQs ?_ hX
  intro w w' e hp hi hw' ha
  have he : w' = w := by
    rw [hw', missingEvents, ite_self]
    rfl
  subst he
  exact ⟨hi, hc.guarRefl _, hQ _ hp hi, fun hf => hX _ e hp hi hf ha, fun row hrow hun => hX' _ row hp hi hrow hun⟩

/-! ## Endings -/

variable {α : Type} {p : App α} {q : App Unit} {Q : α → World → Prop} {X : Failure → World → Prop}

/-- What is asked of a result or of a failure. -/
def outcome (Q : α → World → Prop) (X : Failure → World → Prop) : Except Failure α → World → Prop
  | .ok a => Q a
  | .error x => X x

theorem wpE_withFinally : wpE Γ (withFinally p q) Q X w ↔
    wpE Γ p (fun a => wpE Γ q (fun _ => Q a) X) (fun x => wpE Γ q (fun _ => X x) X) w := by
  have hrest : ∀ (r : Except Failure α) w, wpE Γ (do
      q
      match r with
        | .ok a => pure a
        | .error x => throw x) Q X w ↔ wpE Γ q (fun _ => outcome Q X r) X w := by
    intro r w
    rw [wpE_bind]
    cases r <;> rfl
  rw [withFinally, wpE_bind, wpE_settled]
  exact ⟨wpE_imp (fun a w h => (hrest (.ok a) w).1 h) (fun x w h => (hrest (.error x) w).1 h) _,
    wpE_imp (fun a w h => (hrest (.ok a) w).2 h) (fun x w h => (hrest (.error x) w).2 h) _⟩

theorem keeps_withFinally (hp : Keeps Γ p) (hq : Keeps Γ q) : Keeps Γ (withFinally p q) := fun w hi =>
  wpE_withFinally.2 (wpE_mono (fun _ w hi _ => hq w hi) (fun _ w hi _ => hq w hi) _ hi (hp w hi))

/-- A program that is only started: it and the `finally` block run side by side. -/
theorem startedFinally_wpE {Γ₁ Γ₂ : Protocol Input World} (h₁ : Shares Γ Γ₁ Γ₂) (h₂ : Shares Γ Γ₂ Γ₁)
    {Y : Failure → World → Prop} (hQ : ∀ a, Γ₁.Stable (Q a)) (hX : ∀ x, Γ₁.Stable (X x)) (hY : ∀ x, Γ₂.Stable (Y x))
    (hp : wpE Γ₁ p Q X w) (hq : wpE Γ₂ q (fun _ _ => True) Y w) :
    wpE Γ (startedFinally p q) Q (fun x w => X x w ∨ Y x w) w := by
  rw [startedFinally, wpE_bind]
  refine wpE_imp ?_ ?_ _ (wpE_parallel h₁ h₂ (Q := outcome Q X) (X := fun _ _ => False)
    (R := fun _ _ => True) (Y := Y) ?_ ?_ (fun _ => stable_true Γ₂) hY ?_ hq)
  · rintro ⟨x | a, ⟨⟩⟩ w ⟨h, -⟩
    · exact Or.inl h
    · exact h
  · rintro x w (h | h)
    · exact h.elim
    · exact Or.inr h
  · rintro (x | a)
    · exact hX x
    · exact hQ a
  · exact fun _ _ _ h _ _ => h
  · rw [wpE_settled]
    exact hp

end

end Keyforge.Keys
