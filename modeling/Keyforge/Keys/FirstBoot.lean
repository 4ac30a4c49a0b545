/-
The first boot under the lease. Callers that find no keyring ask for the lease, and the one that gets it
loads again, generates a key and writes it. The lease keeps the others out only while it is held, and a
caller that found neither a row nor a copy in KV gives it back as soon as its rotation has been
started. Where no lease is given back before the keyring is stored, the callers exclude each other and
all return the stored keyring, unless they never got the lease and polled for it in vain.
-/
import Keyforge.Deployment
import Keyforge.Keys.Calls
import Keyforge.Keys.Rotation
import Keyforge.Keys.Waiting
import Keyforge.Lib.Run

namespace Keyforge.Keys

open Lib Db Tokens

/-! ## Statements -/

/-- The stored keyring. -/
def storedKeyring (w : World) : Option StoredKeyring :=
  w.db.operations.signingKeyState.map (·.keyring)

/-- The caller has loaded under the lease, found nothing, and has not written yet. -/
def Initializing (owner : String) (w : World) : Prop :=
  Event.keyringMissing owner ∈ w.log ∧ Event.keyringWritten owner ∉ w.log

instance (owner : String) (w : World) : Decidable (Initializing owner w) :=
  instDecidableAnd

/-- No two callers are between their load under the lease and their write. -/
def Exclusive (w : World) : Prop :=
  ∀ owner owner', Initializing owner w → Initializing owner' w → owner = owner'

/-- A caller's answer, with the steps it took: the stored keyring, or that the initialization is still in
progress, which is for a caller that never got the lease and waited out its polls. -/
def Answered (r : Except Failure KeyAnswer) (tr : Steps) (w : World) : Prop :=
  match r with
  | .ok answer => ∃ keyring, answer = .keyring keyring ∧ storedKeyring w = some keyring
  | .error x => x = stillInProgress ∧ WaitedOut tr

/-- No storage call fails, and no lease but one left from before runs out while it is held. -/
def Smooth (left : Option MaintenanceLeaseRow) (w : World) (e : Input) (w' : World) : Prop :=
  e.fail = false ∧ ∀ l ∈ leaseOf w, some l ≠ left → w'.nowSeconds < l.leaseUntil

/-- First uses in different isolates: each draws a lease token of its own. -/
def arriveFirst (left : Option MaintenanceLeaseRow) (P : Pool KeyCall Input World (Except Failure KeyAnswer)) : KeyCall → Prop
  | .load owner _ => (∀ t ∈ P.threads, t.1.ownerToken ≠ some owner) ∧ ∀ l ∈ left, l.ownerToken ≠ owner
  | .rotate .. => False
  | .assertCleanup => False

/-- The lease is not given back before the keyring is stored. -/
def HeldUntilStored (w w' : World) : Prop :=
  leaseOf w ≠ none → leaseOf w' = none → w.db.operations.signingKeyState ≠ none

/-- First boots as the code runs them. -/
def firstBootSystem (left : Option MaintenanceLeaseRow) : System KeyCall Input World (Except Failure KeyAnswer) :=
  keySystem (Smooth left) (arriveFirst left)

/-- First boots in which each lease is held until the keyring is stored. -/
def heldSystem (left : Option MaintenanceLeaseRow) : System KeyCall Input World (Except Failure KeyAnswer) :=
  keySystem (fun w e w' => Smooth left w e w' ∧ HeldUntilStored w w') (arriveFirst left)

/-! ## The invariant -/

/-- Who is initializing holds the lease, and nothing is stored yet. -/
structure BootInv (left : Option MaintenanceLeaseRow) (w : World) : Prop where
  kv : w.kv = .empty
  usable : ∀ row, w.db.operations.signingKeyState = some row → hasUsableActiveKey row.keyring = true
  window : ∀ owner, Initializing owner w → w.db.operations.signingKeyState = none ∧
    ∃ l, leaseOf w = some l ∧ some l ≠ left ∧ l.ownerToken = owner

theorem BootInv.exclusive {left : Option MaintenanceLeaseRow} {w : World} (hi : BootInv left w) : Exclusive w := by
  intro owner owner' h h'
  obtain ⟨-, l, hl, -, rfl⟩ := hi.window owner h
  obtain ⟨-, l', hl', -, rfl⟩ := hi.window owner' h'
  rw [hl, Option.some.injEq] at hl'
  rw [hl']

/-- The events about a caller are as before. -/
def SameEvents (owner : String) (w w' : World) : Prop :=
  (Event.keyringMissing owner ∈ w'.log ↔ Event.keyringMissing owner ∈ w.log) ∧
    (Event.keyringWritten owner ∈ w'.log ↔ Event.keyringWritten owner ∈ w.log)

/-- What every step keeps: the stored row, the events about all callers but `owners`, and the leases of
all holders but `holders`. -/
structure BootStep (left : Option MaintenanceLeaseRow) (owners holders : String → Prop) (w w' : World) : Prop where
  now : w.nowMs ≤ w'.nowMs
  row : ∀ row, w.db.operations.signingKeyState = some row → w'.db.operations.signingKeyState = some row
  events : ∀ owner, ¬ owners owner → SameEvents owner w w'
  lease : ∀ l, leaseOf w = some l → some l ≠ left → ¬ holders l.ownerToken → leaseOf w' = some l

section

variable {left : Option MaintenanceLeaseRow} {A A' B B' : String → Prop} {w w' w'' : World} {owner : String}

theorem SameEvents.trans (h : SameEvents owner w w') (h' : SameEvents owner w' w'') : SameEvents owner w w'' :=
  ⟨h'.1.trans h.1, h'.2.trans h.2⟩

theorem sameEvents_of_log (h : w'.log = w.log) : SameEvents owner w w' := by
  rw [SameEvents, h]
  exact ⟨Iff.rfl, Iff.rfl⟩

theorem SameEvents.initializing (h : SameEvents owner w w') : Initializing owner w' ↔ Initializing owner w :=
  and_congr h.1 (not_congr h.2)

theorem BootStep.imp (hA : ∀ o, A o → A' o) (hB : ∀ o, B o → B' o) (h : BootStep left A B w w') : BootStep left A' B' w w' :=
  ⟨h.now, h.row, fun o ho => h.events o (fun ha => ho (hA o ha)), fun l hl hne ho => h.lease l hl hne fun hb => ho (hB _ hb)⟩

theorem BootStep.trans (h : BootStep left A B w w') (h' : BootStep left A B w' w'') : BootStep left A B w w'' :=
  ⟨h.now.trans h'.now, fun _ hr => h'.row _ (h.row _ hr), fun o ho => (h.events o ho).trans (h'.events o ho),
    fun l hl hne ho => h'.lease l (h.lease l hl hne ho) hne ho⟩

/-- A step that leaves the row, the history and the lease alone. -/
theorem BootStep.of_same (hnow : w.nowMs ≤ w'.nowMs) (hrow : w'.db.operations.signingKeyState = w.db.operations.signingKeyState)
    (hlog : w'.log = w.log) (hlease : leaseOf w' = leaseOf w) : BootStep left A B w w' :=
  ⟨hnow, fun _ hr => hrow.trans hr, fun _ _ => sameEvents_of_log hlog, fun _ hl _ _ => hlease.trans hl⟩

theorem bootStep_tick (w : World) (dt : Nat) : BootStep left A B w (w.tick dt) :=
  .of_same (Nat.le_add_right _ _) rfl rfl rfl

theorem BootInv.of_same (hi : BootInv left w) (hkv : w'.kv = .empty)
    (hrow : w'.db.operations.signingKeyState = w.db.operations.signingKeyState) (hlog : w'.log = w.log)
    (hlease : leaseOf w' = leaseOf w) : BootInv left w' := by
  refine ⟨hkv, fun row hr => hi.usable row (hrow ▸ hr), fun o ho => ?_⟩
  rw [hrow, hlease]
  exact hi.window o ((sameEvents_of_log hlog).initializing.1 ho)

/-- The protocols of the first boot: others leave alone the events about the callers outside `A` and the
leases of the holders outside `B`, and so does the program for `A'` and `B'`. -/
def bootProtocol (left : Option MaintenanceLeaseRow) (A B A' B' : String → Prop) : Protocol Input World :=
  ⟨BootInv left, BootStep left A B, BootStep left A' B', fun w e w' => Smooth left w e w' ∧ HeldUntilStored w w'⟩

theorem boot_clocked (left : Option MaintenanceLeaseRow) (A B A' B' : String → Prop) :
    Clocked (bootProtocol left A B A' B') where
  ok := ⟨fun _ => .of_same le_rfl rfl rfl rfl, .trans⟩
  tickInv := fun _ hi => hi.of_same hi.kv rfl rfl rfl
  tickRely := bootStep_tick
  tickGuar := bootStep_tick
  tickAllow := fun _ h => h
  guarTick := fun dt h => (bootStep_tick _ dt).trans h

theorem boot_tolerant (left : Option MaintenanceLeaseRow) (A B A' B' : String → Prop) :
    TolerantOfCleanup (bootProtocol left A B A' B') := by
  intro w w' hi hs
  have hlease : leaseOf w' = leaseOf w := by rw [leaseOf, hs.leases]; rfl
  exact ⟨BootInv.of_same hi (hs.kv hi.kv) hs.row hs.log hlease, .of_same hs.nowMs.ge hs.row hs.log hlease,
    .of_same hs.nowMs.ge hs.row hs.log hlease⟩

end

/-! ## The lease -/

section

variable {left : Option MaintenanceLeaseRow} {A B A' B' : String → Prop} {w w' : World} {owner : String} {P : World → Prop}
  {X : Failure → World → Prop}

/-- The caller holds the lease. -/
def LeaseMine (left : Option MaintenanceLeaseRow) (owner : String) (w : World) : Prop :=
  ∃ l, leaseOf w = some l ∧ some l ≠ left ∧ l.ownerToken = owner

theorem leaseMine_stable (hB : ¬ B owner) : (bootProtocol left A B A' B').Stable (LeaseMine left owner) := by
  rintro w w' ⟨l, hl, hne, rfl⟩ hr -
  exact ⟨l, hr.lease l hl hne hB, hne, rfl⟩

theorem leaseOf_release (h : w'.db.operations.maintenanceLeases = w.db.operations.maintenanceLeases.delete fun r =>
    r.jobName = ROTATION_LEASE_NAME ∧ r.ownerToken = owner) :
    leaseOf w' = (leaseOf w).filter fun l => l.ownerToken ≠ owner := by
  rw [leaseOf, h, Table.get?_delete, leaseOf]
  cases hl : w.db.operations.maintenanceLeases.get? ROTATION_LEASE_NAME with
  | none => rfl
  | some l =>
    have hname := (Table.get?_eq_some.1 hl).2
    simp only [Option.filter_some, hname, true_and, decide_not]

/-- The release, where a lease is held until the keyring is stored. -/
theorem releaseRotationLease_wpE (hB : B' owner) (hP : (bootProtocol left A B A' B').Stable P)
    (hown : ∀ w w', P w → BootStep left (fun _ => False) (· = owner) w w' → P w') (hw : P w) :
    wpE (bootProtocol left A B A' B') (releaseRotationLease owner) (fun _ => P) X w := by
  rw [releaseRotationLease, d1]
  refine wpE_d1LoggedFail (boot_clocked left A B A' B') hP hw ?_ fun _ _ _ _ hf ha => absurd hf (by rw [ha.1.1]; exact Bool.false_ne_true)
  intro w w' e hp hi hw' ha
  have hrow : w'.db.operations.signingKeyState = w.db.operations.signingKeyState := by rw [hw']; rfl
  have hlog : w'.log = w.log := by rw [hw']; rfl
  have hlease : leaseOf w' = (leaseOf w).filter fun l => l.ownerToken ≠ owner := leaseOf_release (by rw [hw']; rfl)
  have hstep : BootStep left (fun _ => False) (· = owner) w w' := by
    refine ⟨by rw [hw'], fun _ hr => hrow.trans hr, fun _ _ => sameEvents_of_log hlog, fun l hl _ hne => ?_⟩
    rw [hlease, hl, Option.filter_some, if_pos (by simpa using hne)]
  refine ⟨⟨by rw [hw']; exact hi.kv, fun row hr => hi.usable row (hrow ▸ hr), fun o ho => ?_⟩,
    hstep.imp (fun _ h => h.elim) (by rintro o rfl; exact hB), hown w w' hp hstep, fun hf => absurd hf (by rw [ha.1.1]; exact Bool.false_ne_true)⟩
  obtain ⟨hnone, l, hl, hne, hl'⟩ := hi.window o ((sameEvents_of_log hlog).initializing.1 ho)
  refine ⟨hrow.trans hnone, l, ?_, hne, hl'⟩
  by_cases he : o = owner
  · -- the lease would be given back before anything is stored
    refine absurd hnone (ha.2 (by rw [hl]; exact Option.some_ne_none l) ?_)
    rw [hlease, hl, Option.filter_some, if_neg (by simpa using hl'.trans he)]
  · exact hstep.lease l hl hne (hl' ▸ he)

/-- Who is granted the lease owns it. -/
theorem leaseTaken_owner {now : Nat} {t leases : Table MaintenanceLeaseRow.jobName} (h : leaseTaken owner now t = some leases) :
    ∃ l, leases.get? ROTATION_LEASE_NAME = some l ∧ l.ownerToken = owner := by
  unfold leaseTaken at h
  dsimp only at h
  split at h
  · rename_i hnone
    cases h
    refine ⟨_, (Table.get?_insert hnone).trans (if_pos rfl), ?_⟩
    rfl
  · rename_i held hheld
    split at h
    · cases h
      have hname := (Table.get?_eq_some.1 hheld).2
      refine ⟨_, (Table.get?_update _).trans ((congrArg _ hheld).trans (congrArg some (if_pos (decide_eq_true hname)))), ?_⟩
      rfl
    · cases h

/-- The lease is granted only where none is held, or one that was left from before. -/
theorem acquireRotationLease_spec {now : Nat} (hfresh : ∀ l, left = some l → l.ownerToken ≠ owner)
    (hP : (bootProtocol left A B A' B').Stable P) (hnow : ∀ w, P w → now ≤ w.nowSeconds)
    (hown : ∀ w w', P w → BootStep left (fun _ => False) (fun _ => False) w w' → P w') (hw : P w) :
    wpE (bootProtocol left A B A' B') (acquireRotationLease owner now)
      (fun acquired w => P w ∧ (acquired = true → LeaseMine left owner w)) X w := by
  rw [acquireRotationLease, d1]
  refine wpE_d1LoggedFail (boot_clocked left A B A' B') hP hw ?_ fun _ _ _ _ hf ha => absurd hf (by rw [ha.1.1]; exact Bool.false_ne_true)
  intro w w' e hp hi hw' ha
  have hsure : e.fail = true → X .storage w' := fun hf => absurd hf (by rw [ha.1.1]; exact Bool.false_ne_true)
  have hclock : w'.nowSeconds = w.nowSeconds := by rw [hw']; rfl
  cases htaken : leaseTaken owner now w.db.operations.maintenanceLeases with
  | none =>
    have he : w' = w := by
      rw [hw', htaken]
      rfl
    subst he
    have hstep : BootStep left (fun _ => False) (fun _ => False) w' w' := .of_same le_rfl rfl rfl rfl
    exact ⟨hi, hstep.imp (fun _ h => h.elim) (fun _ h => h.elim), ⟨hp, fun h => absurd h Bool.false_ne_true⟩, hsure⟩
  | some leases =>
    have hrow : w'.db.operations.signingKeyState = w.db.operations.signingKeyState := by rw [hw', htaken]; rfl
    have hlog : w'.log = w.log := by rw [hw']; rfl
    have hlease : leaseOf w' = leases.get? ROTATION_LEASE_NAME := by rw [leaseOf, hw', htaken]; rfl
    -- nobody held it, or it was left from before
    have hfree : ∀ l, leaseOf w = some l → some l = left := by
      intro l hl
      by_contra hne
      have hheld := ha.1.2 l hl hne
      rw [hclock] at hheld
      have := hnow w hp
      rw [leaseTaken, show w.db.operations.maintenanceLeases.get? ROTATION_LEASE_NAME = some l from hl] at htaken
      simp only [show ¬ l.leaseUntil ≤ now by omega, if_false] at htaken
      cases htaken
    have hmine : LeaseMine left owner w' := by
      obtain ⟨l, hl, hown'⟩ := leaseTaken_owner htaken
      exact ⟨l, hlease.trans hl, fun he => hfresh l he.symm hown', hown'⟩
    have hstep : BootStep left (fun _ => False) (fun _ => False) w w' :=
      ⟨by rw [hw'], fun _ hr => hrow.trans hr, fun _ _ => sameEvents_of_log hlog,
        fun l hl hne _ => absurd (hfree l hl) hne⟩
    refine ⟨⟨by rw [hw']; exact hi.kv, fun row hr => hi.usable row (hrow ▸ hr), fun o ho => ?_⟩,
      hstep.imp (fun _ h => h.elim) (fun _ h => h.elim), ⟨hown w w' hp hstep, fun _ => hmine⟩, hsure⟩
    obtain ⟨-, l, hl, hne, -⟩ := hi.window o ((sameEvents_of_log hlog).initializing.1 ho)
    exact absurd (hfree l hl) hne

end

/-! ## The programs -/

section

variable {left : Option MaintenanceLeaseRow} {A A' B B' : String → Prop} {w w' : World} {owner : String} {pair : KeyPair}
  {P : World → Prop}

/-- What was loaded is stored, and usable. -/
def Stored (persisted : Option PersistedKeyring) (w : World) : Prop :=
  ∀ p, persisted = some p → storedKeyring w = some p.keyring ∧ hasUsableActiveKey p.keyring = true

theorem storedKeyring_mono {keyring : StoredKeyring} (hs : BootStep left A B w w') (h : storedKeyring w = some keyring) :
    storedKeyring w' = some keyring := by
  obtain ⟨row, hrow, rfl⟩ := Option.map_eq_some_iff.1 h
  rw [storedKeyring, hs.row row hrow]
  rfl

theorem stored_stable (persisted : Option PersistedKeyring) : (bootProtocol left A B A' B').Stable (Stored persisted) :=
  fun _ _ h hr _ p hp => ⟨storedKeyring_mono hr (h p hp).1, (h p hp).2⟩

theorem BootInv.stored (hi : BootInv left w) : Stored (loaded w.db.operations.signingKeyState) w := by
  intro p hp
  obtain ⟨row, hrow, rfl⟩ := Option.map_eq_some_iff.1 hp
  refine ⟨?_, hi.usable row hrow⟩
  rw [storedKeyring, hrow]
  rfl

theorem storedKeyring_stable (keyring : StoredKeyring) :
    (bootProtocol left A B A' B').Stable fun w => storedKeyring w = some keyring :=
  fun _ _ h hr _ => storedKeyring_mono hr h

theorem initializing_stable (hA : ¬ A owner) : (bootProtocol left A B A' B').Stable (Initializing owner) :=
  fun _ _ h hr _ => (hr.events owner hA).initializing.2 h

/-- A load that the history does not record. -/
theorem loadPersistedKeyring_boot (hP : (bootProtocol left A B A' B').Stable P) (hw : P w) {X : Failure → World → Prop} :
    wpE (bootProtocol left A B A' B') loadPersistedKeyring (fun persisted w => P w ∧ Stored persisted w) X w :=
  loadPersistedKeyring_wpE (boot_clocked left A B A' B') (boot_tolerant left A B A' B') hP hw
    (fun persisted => Stable.and hP (stored_stable persisted)) (fun _ hp hi => ⟨hp, hi.stored⟩)
    (fun _ _ _ _ hf ha => absurd hf (by rw [ha.1.1]; exact Bool.false_ne_true))
    fun _ row _ hi hrow hun => absurd (hi.usable row hrow) (by rw [hun]; exact Bool.false_ne_true)

/-- The write of a caller that is initializing takes effect. -/
theorem persistKeyring_boot (hA : ¬ A owner) (hA' : A' owner) {rotatedAt now : Nat} {X : Failure → World → Prop}
    (hw : Initializing owner w) :
    wpE (bootProtocol left A B A' B') (persistKeyring ⟨owner, some rotatedAt, false⟩ (initialKeyring pair rotatedAt) none now)
      (fun _ w => storedKeyring w = some (initialKeyring pair rotatedAt)) X w := by
  rw [persistKeyring, wpE_bind]
  refine wpE_d1LoggedFail (boot_clocked left A B A' B') (initializing_stable hA) hw ?_
    fun _ _ _ _ hf ha => absurd hf (by rw [ha.1.1]; exact Bool.false_ne_true)
  intro w w' e hinit hi hw' ha
  obtain ⟨hnone, l, hl, hne, hown⟩ := hi.window owner hinit
  have hwritten : writtenRow (initialKeyring pair rotatedAt) none now w.db.operations.signingKeyState =
      some ⟨initialKeyring pair rotatedAt, 1, now⟩ := by
    rw [hnone]
    rfl
  have hlog : w'.log = [.keyringWritten owner, .keyringCommitted 1 (some rotatedAt) false (initialKeyring pair rotatedAt)] ++
      w.log := by
    rw [hw', writeEvents, hwritten]
  have hrow : w'.db.operations.signingKeyState = some ⟨initialKeyring pair rotatedAt, 1, now⟩ := by
    rw [hw', writeKeyring, hwritten]
    rfl
  have hleases : leaseOf w' = leaseOf w := by
    rw [leaseOf, hw', writeKeyring, hwritten]
    rfl
  have hevents : ∀ o, o ≠ owner → SameEvents o w w' := by
    intro o ho
    rw [SameEvents, hlog]
    simp [ho]
  have hstep : BootStep left A' B' w w' :=
    ⟨by rw [hw'], fun row hr => (by rw [hnone] at hr; cases hr), fun o ho => hevents o fun he => ho (he ▸ hA'),
      fun l hl _ _ => hleases.trans hl⟩
  refine ⟨⟨by rw [hw']; exact hi.kv, fun row hr => ?_, fun o ho => ?_⟩, hstep, ?_, fun hf => absurd hf (by rw [ha.1.1]; exact Bool.false_ne_true)⟩
  · rw [hrow] at hr
    cases hr
    exact (sound_initialKeyring pair rotatedAt).usable
  · -- this caller's window is closed, and no other was open
    by_cases he : o = owner
    · subst he
      refine absurd ?_ ho.2
      rw [hlog]
      exact List.mem_cons_self
    · obtain ⟨-, l', hl', -, rfl⟩ := hi.window o ((hevents o he).initializing.1 ho)
      rw [hl, Option.some.injEq] at hl'
      exact absurd (hl' ▸ hown) he
  · rw [writeKeyring, hwritten, wpE_require]
    refine ⟨fun _ => ?_, fun h => absurd h.symm Bool.false_ne_true⟩
    rw [storedKeyring, hrow]
    rfl

/-- The rotation of a caller that is initializing: it finds nothing, and stores its first keyring. -/
theorem rotatePersistedKeyring_boot (hA : ¬ A owner) (hA' : A' owner) {rotatedAt : Nat} (hw : Initializing owner w) :
    wpE (bootProtocol left A B A' B') (rotatePersistedKeyring owner pair rotatedAt)
      (fun keyring w => storedKeyring w = some keyring) (fun _ _ => False) w := by
  have hc := boot_clocked left A B A' B'
  have hinit : (bootProtocol left A B A' B').Stable (Initializing owner) := initializing_stable hA
  rw [rotatePersistedKeyring, wpE_bind]
  refine wpE_imp (fun persisted w h => ?_) (fun _ _ h => h) _ (loadPersistedKeyring_wpE hc (boot_tolerant left A B A' B')
    hinit hw (Q := fun persisted w => persisted = none ∧ Initializing owner w)
    (fun persisted => Stable.and (fun _ _ h _ _ => h) hinit) (fun w hp hi => ⟨?_, hp⟩)
    (fun _ _ _ _ hf ha => absurd hf (by rw [ha.1.1]; exact Bool.false_ne_true))
    fun _ row _ hi hrow hun => absurd (hi.usable row hrow) (by rw [hun]; exact Bool.false_ne_true))
  · obtain ⟨rfl, hw⟩ := h
    rw [wpE_bind]
    refine loadLegacyKeyring_wpE hc (fun _ hi => hi.kv) hinit hw (fun _ _ _ h _ _ => h) (fun w hw => ?_)
      fun _ _ _ _ hf ha => absurd hf (by rw [ha.1.1]; exact Bool.false_ne_true)
    rw [rotateLoaded]
    show wpE _ (do
      whenever false markLegacyKvCleanupPending
      let now ← clock
      persistKeyring ⟨owner, some rotatedAt, false⟩ (initialKeyring pair rotatedAt) none now
      whenever false retryLegacyKvCleanup
      pure (initialKeyring pair rotatedAt)) _ _ _
    rw [wpE_bind, wpE_whenever]
    refine ⟨nofun, fun _ => ?_⟩
    rw [wpE_bind]
    refine wpE_clock hc hinit hw fun w hw _ => ?_
    rw [wpE_bind]
    refine wpE_imp (fun _ w hstored => ?_) (fun _ _ h => h) _ (persistKeyring_boot hA hA' hw)
    rw [wpE_bind, wpE_whenever]
    exact ⟨nofun, fun _ => hstored⟩
  · rw [(hi.window owner hp).1]
    rfl

/-- The failure a caller ends with. -/
def InProgress (x : Failure) (_ : World) : Prop :=
  x = stillInProgress

/-- The release runs beside the rotation that was only started; it leaves the row alone, and by
`HeldUntilStored` it does not come before the row is there. -/
theorem rotateStarted_boot (hA : ¬ A owner) (hA' : A' owner) (hB' : B' owner) (hw : Initializing owner w) :
    wpE (bootProtocol left A B A' B') (rotateStarted owner pair) (fun keyring w => storedKeyring w = some keyring)
      InProgress w := by
  have hc := boot_clocked left A B A' B'
  have h₁ : Shares (bootProtocol left A B A' B') (bootProtocol left A (fun _ => True) (· = owner) fun _ => False)
      (bootProtocol left (fun _ => True) (fun _ => True) (fun _ => False) (· = owner)) :=
    ⟨(boot_clocked left A _ _ _).ok, rfl, rfl, .imp (fun _ h => h) fun _ _ => trivial,
      .imp (by rintro o rfl; exact hA') fun _ h => h.elim, .imp (fun _ h => h.elim) fun _ _ => trivial⟩
  have h₂ : Shares (bootProtocol left A B A' B') (bootProtocol left (fun _ => True) (fun _ => True) (fun _ => False) (· = owner))
      (bootProtocol left A (fun _ => True) (· = owner) fun _ => False) :=
    ⟨(boot_clocked left _ _ _ _).ok, rfl, rfl, .imp (fun _ _ => trivial) fun _ _ => trivial,
      .imp (fun _ h => h.elim) (by rintro o rfl; exact hB'), .imp (fun _ _ => trivial) fun _ _ => trivial⟩
  rw [rotateStarted, wpE_bind]
  refine wpE_clock hc (initializing_stable hA) hw fun w hw _ => ?_
  have hrotation : wpE (bootProtocol left A (fun _ => True) (· = owner) fun _ => False)
      (rotatePersistedKeyring owner pair w.nowSeconds) (fun keyring w => storedKeyring w = some keyring) (fun _ _ => False) w := by
    refine rotatePersistedKeyring_boot hA ?_ hw
    rfl
  refine wpE_imp (fun _ _ h => h) (fun _ _ h => h.elim False.elim False.elim) _
    (startedFinally_wpE (X := fun _ _ => False) (Y := fun _ _ => False) h₁ h₂ storedKeyring_stable (fun _ _ _ h _ _ => h)
      (fun _ _ _ h _ _ => h) hrotation ?_)
  exact releaseRotationLease_wpE rfl (stable_true _) (fun _ _ _ _ => trivial) trivial

/-- The loads under the lease: a keyring is stored, or from now on the caller is initializing. -/
theorem loadUnderLease_boot (hA : ¬ A owner) (hA' : A' owner) (hB : ¬ B owner)
    (hw : LeaseMine left owner w ∧ Event.keyringWritten owner ∉ w.log) :
    wpE (bootProtocol left A B A' B') (loadUnderLease owner) (fun found w =>
      (∃ keyring, found = .stored keyring ∧ storedKeyring w = some keyring) ∨ found = .nothing ∧ Initializing owner w)
      (fun _ _ => False) w := by
  have hc := boot_clocked left A B A' B'
  have hinit : (bootProtocol left A B A' B').Stable (Initializing owner) := initializing_stable hA
  have hP : (bootProtocol left A B A' B').Stable fun w => LeaseMine left owner w ∧ Event.keyringWritten owner ∉ w.log :=
    Stable.and (leaseMine_stable hB) fun _ _ h hr _ hm => h ((hr.events owner hA).2.1 hm)
  rw [loadUnderLease, wpE_bind]
  refine wpE_imp (fun persisted w h => ?_) (fun _ _ h => h) _ (loadPersistedKeyringLogged_wpE (X := fun _ _ => False)
    (Q := fun persisted w => Stored persisted w ∧ (persisted = none → Initializing owner w)) hc (boot_tolerant left A B A' B') hP hw
    (fun persisted => Stable.and (stored_stable persisted) fun _ _ h hr hi hn => hinit (h hn) hr hi) (fun w w' e hp hi hw' ha => ?_)
    (fun _ _ _ _ hf ha => absurd hf (by rw [ha.1.1]; simp)))
  -- after the load
  · obtain ⟨hstored, hnone⟩ := h
    cases persisted with
    | none =>
      show wpE _ (loadLegacyKeyring >>= _) _ _ _
      rw [wpE_bind]
      exact loadLegacyKeyring_wpE hc (fun _ hi => hi.kv) hinit (hnone rfl) (fun _ _ _ h _ _ => h)
        (fun w hw => Or.inr ⟨rfl, hw⟩) fun _ _ _ _ hf ha => absurd hf (by rw [ha.1.1]; simp)
    | some p =>
      obtain ⟨hrow, husable⟩ := hstored p rfl
      have husable' : usableKeyring (some p) = some p.keyring := by
        rw [usableKeyring, Option.map_some, Option.filter_some, if_pos husable]
      rw [husable']
      exact Or.inl ⟨p.keyring, rfl, hrow⟩
  -- the load itself: where it finds nothing the caller begins to initialize
  · have hrow : w'.db.operations.signingKeyState = w.db.operations.signingKeyState := by rw [hw']
    have hlease : leaseOf w' = leaseOf w := by rw [hw']; rfl
    have hsure : e.fail = true → False := fun hf => absurd hf (by rw [ha.1.1]; simp)
    have hstored : Stored (loaded w.db.operations.signingKeyState) w' := by
      intro p hp
      refine ⟨?_, (hi.stored p hp).2⟩
      rw [storedKeyring, hrow]
      exact (hi.stored p hp).1
    cases hnone : w.db.operations.signingKeyState with
    | some row =>
      have hlog : w'.log = w.log := by rw [hw', missingEvents, hnone]; rfl
      refine ⟨.of_same hi (by rw [hw']; exact hi.kv) hrow hlog hlease, .of_same (by rw [hw']) hrow hlog hlease,
        ⟨hnone ▸ hstored, by rintro ⟨⟩⟩, hsure, fun row' hr hun => ?_⟩
      exact absurd (hi.usable row' (hnone.trans hr)) (by rw [hun]; simp)
    | none =>
      have hlog : w'.log = .keyringMissing owner :: w.log := by rw [hw', missingEvents, hnone]; rfl
      -- only the caller's own events change
      have hevents : ∀ o, o ≠ owner → SameEvents o w w' := by
        intro o ho
        rw [SameEvents, hlog]
        simp [ho]
      have hmine : Initializing owner w' := by
        rw [Initializing, hlog]
        exact ⟨List.mem_cons_self, fun hm => hp.2 (by simpa using hm)⟩
      refine ⟨⟨by rw [hw']; exact hi.kv, fun row hr => hi.usable row (hrow ▸ hr), fun o ho => ?_⟩,
        ⟨by rw [hw'], fun row hr => hrow.trans hr, fun o ho => hevents o fun he => ho (he ▸ hA'),
          fun l hl _ _ => hlease.trans hl⟩, ⟨hnone ▸ hstored, fun _ => hmine⟩, hsure, by rintro _ ⟨⟩⟩
      rw [hrow, hlease]
      by_cases he : o = owner
      · rw [he]
        exact ⟨hnone, hp.1⟩
      · exact hi.window o ((hevents o he).initializing.1 ho)

/-- A caller that got the lease. -/
theorem initializeKeyring_boot (hA : ¬ A owner) (hA' : A' owner) (hB : ¬ B owner) (hB' : B' owner)
    (hw : LeaseMine left owner w ∧ Event.keyringWritten owner ∉ w.log) :
    wpE (bootProtocol left A B A' B') (initializeKeyring owner pair) (fun keyring w => storedKeyring w = some keyring)
      InProgress w := by
  rw [initializeKeyring, wpE_bind, wpE_settled]
  refine wpE_imp (fun found w h => ?_) (fun _ _ h => h.elim) _ (loadUnderLease_boot hA hA' hB hw)
  rcases h with ⟨keyring, rfl, hstored⟩ | ⟨rfl, hinit⟩
  · rw [wpE_withFinally]
    exact releaseRotationLease_wpE hB' (storedKeyring_stable keyring) (fun _ _ h hs => storedKeyring_mono hs h) hstored
  · exact rotateStarted_boot hA hA' hB' hinit

/-- The polls of a caller that did not get it. -/
theorem awaitKeyring_boot : ∀ (attempts : Nat) {w : World}, BootInv left w →
    wpE (bootProtocol left A B A' B') (awaitKeyring attempts) (fun keyring w => storedKeyring w = some keyring) InProgress w
  | 0, _, _ => rfl
  | attempts + 1, w, hi => by
    have hc := boot_clocked left A B A' B'
    rw [awaitKeyring, wpE_bind]
    refine wpE_sleep hc (stable_true _) trivial fun w _ hi => ?_
    rw [wpE_bind]
    refine wpE_mono (fun initialized w hi h => ?_) (fun _ _ _ h => h) _ hi (loadPersistedKeyring_boot (stable_true _) trivial)
    split
    · rename_i keyring hk
      obtain ⟨p, hp, rfl⟩ := Option.map_eq_some_iff.1 (Option.filter_eq_some_iff.1 hk).1
      exact (h.2 p hp).1
    · exact awaitKeyring_boot attempts hi

theorem loadOrInitializeKeyring_boot (hA : ¬ A owner) (hA' : A' owner) (hB : ¬ B owner) (hB' : B' owner)
    (hfresh : ∀ l, left = some l → l.ownerToken ≠ owner) (hw : Event.keyringWritten owner ∉ w.log) :
    wpE (bootProtocol left A B A' B') (loadOrInitializeKeyring owner pair) (fun keyring w => storedKeyring w = some keyring)
      InProgress w := by
  have hc := boot_clocked left A B A' B'
  have hunwritten : (bootProtocol left A B A' B').Stable fun w => Event.keyringWritten owner ∉ w.log :=
    fun _ _ h hr _ hm => h ((hr.events owner hA).2.1 hm)
  rw [loadOrInitializeKeyring, wpE_bind]
  refine wpE_imp (fun current w h => ?_) (fun _ _ h => h) _ (loadPersistedKeyring_boot hunwritten hw)
  split
  · rename_i keyring hk
    obtain ⟨p, hp, rfl⟩ := Option.map_eq_some_iff.1 (Option.filter_eq_some_iff.1 hk).1
    exact (h.2 p hp).1
  · rw [wpE_bind]
    refine wpE_clock hc hunwritten h.1 fun w hw hi => ?_
    have hlater : (bootProtocol left A B A' B').Stable fun w' => w.nowSeconds ≤ w'.nowSeconds ∧ Event.keyringWritten owner ∉ w'.log :=
      Stable.and (fun _ _ h hr _ => h.trans (Nat.div_le_div_right hr.now)) hunwritten
    have hkeep : ∀ w₁ w₂, w.nowSeconds ≤ w₁.nowSeconds ∧ Event.keyringWritten owner ∉ w₁.log →
        BootStep left (fun _ => False) (fun _ => False) w₁ w₂ →
        w.nowSeconds ≤ w₂.nowSeconds ∧ Event.keyringWritten owner ∉ w₂.log :=
      fun w₁ w₂ h hs => ⟨h.1.trans (Nat.div_le_div_right hs.now), fun hm => h.2 ((hs.events owner not_false).2.1 hm)⟩
    rw [wpE_bind]
    refine wpE_mono (fun acquired w' hi' h => ?_) (fun _ _ _ h => h) _ hi
      (acquireRotationLease_spec hfresh hlater (fun _ h => h.1) hkeep ⟨le_rfl, hw⟩)
    rw [wpE_ite]
    exact ⟨fun ha => initializeKeyring_boot hA hA' hB hB' ⟨h.2 ha, h.1.2⟩, fun _ => awaitKeyring_boot 40 hi'⟩

end

/-! ## Every run -/

/-- What is known of an answer where the caller's steps are not looked at. -/
def Concluded (r : Except Failure KeyAnswer) (w : World) : Prop :=
  match r with
  | .ok answer => ∃ keyring, answer = .keyring keyring ∧ storedKeyring w = some keyring
  | .error x => x = stillInProgress

def heldOutline (left : Option MaintenanceLeaseRow) : Outline (heldSystem left) where
  inv := BootInv left
  rely := fun c => BootStep left (c.ownerToken ≠ some ·) (c.ownerToken ≠ some ·)
  guar := fun c => BootStep left (c.ownerToken = some ·) (c.ownerToken = some ·)
  post := fun _ => Concluded
  apart := fun c d => ∀ owner, c.ownerToken = some owner → d.ownerToken ≠ some owner
  beside := fun _ _ => True
  trace := fun cs w => ∀ owner, Event.keyringWritten owner ∈ w.log → ∃ c ∈ cs, c.ownerToken = some owner

theorem concluded_mono {left : Option MaintenanceLeaseRow} {A B : String → Prop} {w w' : World} {r : Except Failure KeyAnswer}
    (hs : BootStep left A B w w') (h : Concluded r w) : Concluded r w' := by
  cases r with
  | error x => exact h
  | ok answer =>
    obtain ⟨keyring, rfl, hstored⟩ := h
    exact ⟨keyring, rfl, storedKeyring_mono hs hstored⟩

theorem held_valid (left : Option MaintenanceLeaseRow) : (heldOutline left).Valid where
  symm := fun {c d} h owner hd hc => h owner hc hd
  besideSymm := fun _ => trivial
  arrives := fun {P c} h t ht => by
    cases c with
    | rotate ownerToken pair rotatedAt => exact h.elim
    | assertCleanup => exact h.elim
    | load owner pair => exact ⟨fun o hto hco => h.1 t ht (hto.trans hco.symm), fun _ => trivial⟩
  traceArrives := fun h owner ho => by
    obtain ⟨d, hd, hdo⟩ := h owner ho
    exact ⟨d, List.mem_append_left _ hd, hdo⟩
  traceStep := fun {cs c w w'} hc h hg owner ho => by
    by_cases hown : c.ownerToken = some owner
    · exact ⟨c, hc, hown⟩
    · exact h owner ((hg.events owner hown).2.1 ho)
  ok := fun c => (boot_clocked left _ _ (c.ownerToken = some ·) (c.ownerToken = some ·)).ok
  compat := fun {c d w w'} ha _ _ hg => hg.imp (fun o ho => ha o ho) fun o ho => ha o ho
  stable := fun _ _ _ _ h hr _ => concluded_mono hr h
  settled := fun _ _ hg _ h => concluded_mono hg h
  safe := fun {P c} harrive hP => by
    cases c with
    | rotate ownerToken pair rotatedAt => exact harrive.elim
    | assertCleanup => exact harrive.elim
    | load owner pair =>
      refine wp_of_wpE ?_
      show wpE _ (KeyAnswer.keyring <$> loadOrInitializeKeyring owner pair) _ _ _
      rw [map_eq_pure_bind, wpE_bind]
      refine wpE_imp (fun keyring w h => ⟨keyring, rfl, h⟩) (fun x w h => h) _
        (loadOrInitializeKeyring_boot (not_not.2 rfl) rfl (not_not.2 rfl) rfl (fun l hl => harrive.2 l hl) ?_)
      intro hm
      obtain ⟨d, hd, hdo⟩ := hP.trace owner hm
      obtain ⟨t, ht, rfl⟩ := List.mem_map.1 hd
      exact harrive.1 t ht hdo

/-- In every run of first uses, from a deployment without keys, in which no storage call fails, no lease
runs out while it is held, and none is given back before the keyring is stored: no two callers are
between their load under the lease and their write, and every caller ends with the keyring that is
stored, or never got the lease and polled 40 times in vain. -/
theorem first_boot_held {w : World} (hrow : w.db.operations.signingKeyState = none) (hkv : w.kv = .empty)
    (hlog : ∀ owner, Event.keyringMissing owner ∉ w.log ∧ Event.keyringWritten owner ∉ w.log)
    {steps : List (Taken World)} {P : Pool KeyCall Input World (Except Failure KeyAnswer)}
    (h : (heldSystem (leaseOf w)).Run ⟨w, []⟩ steps P) :
    Exclusive P.store ∧ ∀ i c r, P.finished i = some (c, r) → Answered r (stepsOf i steps) P.store := by
  have hstart : BootInv (leaseOf w) w :=
    ⟨hkv, fun row hr => (by rw [hrow] at hr; cases hr), fun owner ho => absurd ho.1 (hlog owner).1⟩
  have hholds := (held_valid (leaseOf w)).reach (Outline.holds_start (O := heldOutline (leaseOf w)) hstart
    fun owner ho => absurd ho (hlog owner).2) h.reach
  have harrived := h.arrived (V := fun c => ∃ owner pair, c = .load owner pair) fun P c hc => by
    cases c with
    | load owner pair => exact ⟨owner, pair, rfl⟩
    | rotate ownerToken pair rotatedAt => exact hc.elim
    | assertCleanup => exact hc.elim
  refine ⟨hholds.inv.exclusive, fun i c r hfinished => ?_⟩
  have hmem := Pool.mem_of_finished hfinished
  have hconcluded : Concluded r P.store := hholds.post hmem
  cases r with
  | ok answer => exact hconcluded
  | error x =>
    obtain ⟨owner, pair, rfl⟩ := harrived _ hmem
    refine ⟨hconcluded, ?_⟩
    -- the wait is read off the caller's own steps
    have hwaits : endsE (KeyAnswer.keyring <$> loadOrInitializeKeyring owner pair) (fun _ _ => True)
        fun x tr => x = stillInProgress → WaitedOut tr := by
      rw [map_eq_pure_bind, endsE_bind]
      exact endsE_imp (fun _ _ _ => trivial) (fun _ _ h => h) _ (loadOrInitializeKeyring_waits owner pair)
    exact (endsE_iff.1 hwaits).2 _ x (h.finished hfinished) hconcluded

/-! ## Runs -/

instance (left : Option MaintenanceLeaseRow) (w : World) (e : Input) (w' : World) : Decidable (Smooth left w e w') :=
  instDecidableAnd

instance (w w' : World) : Decidable (HeldUntilStored w w') :=
  inferInstanceAs (Decidable (leaseOf w ≠ none → leaseOf w' = none → w.db.operations.signingKeyState ≠ none))

instance (left : Option MaintenanceLeaseRow) (P : Pool KeyCall Input World (Except Failure KeyAnswer)) :
    ∀ c, Decidable (arriveFirst left P c)
  | .load _ _ => instDecidableAnd
  | .rotate .. => instDecidableFalse
  | .assertCleanup => instDecidableFalse

instance (left : Option MaintenanceLeaseRow) : ∀ P c, Decidable ((firstBootSystem left).arrive P c) :=
  fun P c => inferInstanceAs (Decidable (arriveFirst left P c))

instance (left : Option MaintenanceLeaseRow) : ∀ w e w', Decidable ((firstBootSystem left).allow w e w') :=
  fun w e w' => inferInstanceAs (Decidable (Smooth left w e w'))

instance (left : Option MaintenanceLeaseRow) : ∀ P c, Decidable ((heldSystem left).arrive P c) :=
  fun P c => inferInstanceAs (Decidable (arriveFirst left P c))

instance (left : Option MaintenanceLeaseRow) : ∀ w e w', Decidable ((heldSystem left).allow w e w') :=
  fun _ _ _ => instDecidableAnd

/-- A first boot of three callers. The first gets the lease; another asks for it, polls 40 times and gives
up; the third polls until the first has stored its keyring, and the release comes last. -/
def bootedTogether : List (System.Move KeyCall Input) :=
  List.flatten [[.arrive (.load "a" ⟨"kid_a", "private a", "parameters a"⟩),
      .arrive (.load "b" ⟨"kid_b", "private b", "parameters b"⟩), .arrive (.load "c" ⟨"kid_c", "private c", "parameters c"⟩)],
    List.replicate 3 (.run 0 ⟨0, false, false, fun _ => true⟩), List.replicate 83 (.run 1 ⟨0, false, false, fun _ => true⟩),
    List.replicate 5 (.run 2 ⟨0, false, false, fun _ => true⟩), List.replicate 12 (.run 0 ⟨0, false, false, fun _ => true⟩),
    List.replicate 3 (.run 2 ⟨0, false, false, fun _ => true⟩)]

def togetherPool : Pool KeyCall Input World (Except Failure KeyAnswer) :=
  (heldSystem none).moves ⟨Deployment.world, []⟩ bootedTogether

theorem first_boot_held_together :
    let keyring := initialKeyring ⟨"kid_a", "private a", "parameters a"⟩ 1002
    togetherPool.finished 0 = some (.load "a" ⟨"kid_a", "private a", "parameters a"⟩, .ok (.keyring keyring)) ∧
      togetherPool.finished 1 = some (.load "b" ⟨"kid_b", "private b", "parameters b"⟩, .error stillInProgress) ∧
      togetherPool.finished 2 = some (.load "c" ⟨"kid_c", "private c", "parameters c"⟩, .ok (.keyring keyring)) ∧
      Exclusive togetherPool.store ∧ storedKeyring togetherPool.store = some keyring ∧
      WaitedOut (stepsOf 1 ((heldSystem none).taken ⟨Deployment.world, []⟩ bootedTogether)) := by
  intro keyring
  have hallows : (heldSystem none).Allows ⟨Deployment.world, []⟩ bootedTogether := by decide +kernel
  obtain ⟨h0, h1, h2⟩ :
      togetherPool.finished 0 = some (.load "a" ⟨"kid_a", "private a", "parameters a"⟩, .ok (.keyring keyring)) ∧
      togetherPool.finished 1 = some (.load "b" ⟨"kid_b", "private b", "parameters b"⟩, .error stillInProgress) ∧
      togetherPool.finished 2 = some (.load "c" ⟨"kid_c", "private c", "parameters c"⟩, .ok (.keyring keyring)) := by
    decide +kernel
  obtain ⟨hexclusive, hanswered⟩ := first_boot_held (w := Deployment.world) rfl rfl
    (fun _ => ⟨List.not_mem_nil, List.not_mem_nil⟩) (System.run_moves bootedTogether hallows)
  obtain ⟨stored, hstored, hrow⟩ := hanswered 2 _ _ h2
  cases hstored
  exact ⟨h0, h1, h2, hexclusive, hrow, (hanswered 1 _ _ h1).2⟩

/-- One caller gives the lease back as soon as it has started its rotation, and rotates on its own; the
other gets the lease meanwhile. -/
def releasedEarly : List (System.Move KeyCall Input) :=
  .arrive (.load "a" ⟨"kid_a", "private a", "parameters a"⟩) :: .arrive (.load "b" ⟨"kid_b", "private b", "parameters b"⟩) ::
    List.replicate 12 (.run 0 ⟨0, false, false, fun depth => depth ≠ 0⟩) ++
    List.replicate 6 (.run 1 ⟨0, false, false, fun depth => depth ≠ 0⟩)

/-- The other stores its keyring first. -/
def overtaken : List (System.Move KeyCall Input) :=
  List.replicate 6 (.run 1 ⟨0, false, false, fun _ => true⟩) ++ [.run 0 ⟨0, false, false, fun _ => true⟩]

/-- Two callers are initializing at once, and one of them fails. -/
theorem first_boot_not_exclusive :
    ∃ P P', (firstBootSystem none).Reach ⟨Deployment.world, []⟩ P ∧ (firstBootSystem none).Reach P P' ∧ ¬ Exclusive P.store ∧
      P'.finished 0 = some (.load "a" ⟨"kid_a", "private a", "parameters a"⟩,
        .error (.app 503 "Signing key state changed concurrently")) := by
  refine ⟨(firstBootSystem none).moves ⟨Deployment.world, []⟩ releasedEarly,
    (firstBootSystem none).moves ((firstBootSystem none).moves ⟨Deployment.world, []⟩ releasedEarly) overtaken,
    System.reach_moves _ (by decide +kernel), System.reach_moves _ (by decide +kernel), fun h => ?_, by decide +kernel⟩
  have := h "a" "b" (by decide +kernel) (by decide +kernel)
  exact absurd this (by decide)

end Keyforge.Keys
