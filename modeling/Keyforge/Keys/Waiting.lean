/-
The caller that does not get the lease. It has asked once, leaves every lease as it is, and polls 40
times before it gives up; no other path of a first use ends with the error that the initialization is
still in progress.
-/
import Keyforge.Deployment
import Keyforge.Keys.Rules
import Keyforge.Paths

namespace Keyforge.Keys

open Lib Db Tokens

/-! ## Waiting -/

/-- The lease on the signing keys. -/
def leaseOf (w : World) : Option MaintenanceLeaseRow :=
  w.db.operations.maintenanceLeases.get? ROTATION_LEASE_NAME

/-- The error of a caller that gives up. -/
def stillInProgress : Failure := .app 503 "Signing key initialization is still in progress"

/-- One poll: 50 milliseconds passed, and then no usable keyring was stored. -/
def Polled (tr : Steps) : Prop :=
  ∃ slept read rest, tr = slept :: read :: rest ∧ slept.1.nowMs + 50 ≤ slept.2.nowMs ∧
    usableKeyring (loaded read.1.db.operations.signingKeyState) = none

/-- The caller never got the lease: none of its steps changed who holds it, and the one that asked for it
found it held, not yet run out by the clock just read. Then it polled 40 times, each time in vain. -/
structure WaitedOut (tr : Steps) : Prop where
  unleased : ∀ t ∈ tr, leaseOf t.2 = leaseOf t.1
  polls : ∃ (before : Steps) (clock asked : World × World) (polls : List Steps), tr = before ++ clock :: asked :: polls.flatten ∧
    (∃ l, leaseOf asked.1 = some l ∧ clock.2.nowSeconds < l.leaseUntil) ∧ polls.length = 40 ∧ ∀ poll ∈ polls, Polled poll

/-! ## Steps that change no lease -/

/-- The steps leave the lease alone, whatever happens in between. -/
def leaseKept : Protocol Input World :=
  ⟨fun _ => True, fun _ _ => True, fun w w' => leaseOf w' = leaseOf w, fun _ _ _ => True⟩

theorem leaseKept_clocked : Clocked leaseKept where
  ok := ⟨fun _ => trivial, fun _ _ => trivial⟩
  tickInv := fun _ _ => trivial
  tickRely := fun _ _ => trivial
  tickGuar := fun _ _ => rfl
  tickAllow := fun _ _ => trivial
  guarTick := fun _ h => h

theorem leaseKept_tolerant : TolerantOfCleanup leaseKept := by
  intro w w' _ hs
  refine ⟨trivial, trivial, ?_⟩
  show leaseOf w' = leaseOf w
  rw [leaseOf, hs.leases]
  rfl

theorem unleased_loadPersistedKeyring : Keeps leaseKept loadPersistedKeyring := fun _ _ =>
  loadPersistedKeyring_wpE leaseKept_clocked leaseKept_tolerant (stable_true _) trivial (fun _ => stable_true _)
    (fun _ _ _ => trivial) (fun _ _ _ _ _ _ => trivial) fun _ _ _ _ _ _ => trivial

theorem unleased_awaitKeyring : ∀ attempts, Keeps leaseKept (awaitKeyring attempts)
  | 0 => .throw _
  | attempts + 1 => by
    unfold awaitKeyring
    refine .bind (.of_quiet leaseKept_clocked (quiet_sleep 50)) fun _ => .bind unleased_loadPersistedKeyring fun initialized => ?_
    cases usableKeyring initialized with
    | some keyring => exact .pure _
    | none => exact unleased_awaitKeyring attempts

/-- What a program keeps, each of its paths keeps. -/
theorem endsE_unleased {α : Type} {p : App α} {Q : α → Steps → Prop} {X : Failure → Steps → Prop} (hp : Keeps leaseKept p)
    (h : endsE p Q X) : endsE p (fun a tr => Q a tr ∧ ∀ t ∈ tr, leaseOf t.2 = leaseOf t.1)
      fun x tr => X x tr ∧ ∀ t ∈ tr, leaseOf t.2 = leaseOf t.1 := by
  have hguar := ends_guar (fun _ => trivial) (fun _ _ => trivial) (fun _ _ _ => trivial) _ (hp Deployment.world trivial)
  refine ends_imp ?_ _ (ends_and h hguar)
  rintro (x | a) tr h <;> exact h

/-! ## Paths that end otherwise -/

theorem avoids_io {α : Type} (op : World → α × World) : Avoids stillInProgress (io op) :=
  .io (by simp [stillInProgress]) op

theorem avoids_query {α : Type} (q : World → α) : Avoids stillInProgress (query q) :=
  avoids_io _

theorem avoids_d1 {α : Type} (stmt : Database → α × Database) : Avoids stillInProgress (d1 stmt) := by
  unfold d1
  exact avoids_io _

theorem avoids_loadLegacyKeyring : Avoids stillInProgress loadLegacyKeyring := by
  refine .bind (.all 1 (avoids_query _) (avoids_query _)) fun copies => ?_
  obtain ⟨rawKeys, activeKid⟩ := copies
  rcases rawKeys with _ | _ | keys <;> rcases activeKid with _ | activeKid
  case some.error.some => exact .throw nofun
  all_goals exact .pure _

theorem avoids_retryLegacyKvCleanup : Avoids stillInProgress retryLegacyKvCleanup :=
  .tryCatch fun _ => .pure _

theorem avoids_whenever {c : Bool} {p : App Unit} (hp : Avoids stillInProgress p) : Avoids stillInProgress (whenever c p) := by
  cases c with
  | true => exact hp
  | false => exact .pure _

theorem finishLoad_ends (row : Option SigningKeyStateRow) (pending : Bool) :
    endsE (finishLoad row pending) (fun persisted _ => persisted = loaded row) fun x _ => x ≠ stillInProgress := by
  cases row with
  | none => exact rfl
  | some row =>
    refine (endsE_bind ..).2 (endsE_require.2 ⟨fun _ => ?_, fun _ => by simp [stillInProgress]⟩)
    exact (endsE_bind ..).2 (endsE_imp (fun _ _ _ => rfl) (fun _ _ h => h) _ (avoids_whenever avoids_retryLegacyKvCleanup))

theorem avoids_loadPersistedKeyringLogged (missing : List Event) : Avoids stillInProgress (loadPersistedKeyringLogged missing) :=
  .bind (avoids_io _) fun _ => endsE_imp (fun _ _ _ => trivial) (fun _ _ h => h) _ (finishLoad_ends _ _)

theorem avoids_releaseRotationLease (owner : String) : Avoids stillInProgress (releaseRotationLease owner) :=
  avoids_d1 _

theorem avoids_markLegacyKvCleanupPending : Avoids stillInProgress markLegacyKvCleanupPending :=
  .bind .clock fun _ => avoids_d1 _

theorem avoids_persistKeyring (origin : WriteOrigin) (keyring : StoredKeyring) (expectedVersion : Option Nat) (now : Nat) :
    Avoids stillInProgress (persistKeyring origin keyring expectedVersion now) :=
  .bind (avoids_io _) fun _ => .require (by simp [stillInProgress])

theorem avoids_rotatePersistedKeyring (owner : String) (pair : KeyPair) (rotatedAt : Nat) :
    Avoids stillInProgress (rotatePersistedKeyring owner pair rotatedAt) := by
  refine .bind (avoids_loadPersistedKeyringLogged []) fun persisted => .bind ?_ fun legacy => ?_
  · cases persisted with
    | none => exact avoids_loadLegacyKeyring
    | some persisted => exact .pure _
  · unfold rotateLoaded
    split
    · exact .pure _
    · exact .throw (by simp [stillInProgress])
    · exact .bind (avoids_whenever avoids_markLegacyKvCleanupPending) fun _ => .bind .clock fun _ =>
        .bind (avoids_persistKeyring _ _ _ _) fun _ => .bind (avoids_whenever avoids_retryLegacyKvCleanup) fun _ => .pure _

theorem avoids_withFinally {α : Type} {p : App α} {q : App Unit} (hp : Avoids stillInProgress p)
    (hq : Avoids stillInProgress q) : Avoids stillInProgress (withFinally p q) := by
  refine (endsE_bind ..).2 (endsE_imp (fun r _ hr => Avoids.bind hq fun _ => ?_) (fun _ _ h => h.elim) _ hp.settled)
  cases r with
  | ok a => exact .pure a
  | error x => exact .throw fun he => hr (he ▸ rfl)

theorem avoids_startedFinally {α : Type} {p : App α} {q : App Unit} (hp : Avoids stillInProgress p)
    (hq : Avoids stillInProgress q) : Avoids stillInProgress (startedFinally p q) := by
  have hall : endsE (all 0 (settled p) q) _ fun x _ => x ≠ stillInProgress :=
    endsE_all (fun _ _ _ _ h => h) (fun _ _ _ _ h => h) (fun _ _ _ _ h => h)
      (endsE_imp (fun _ _ h => h) (fun _ _ h => h.elim) _ hp.settled) hq
  refine (endsE_bind ..).2 (endsE_imp (fun r _ hr => ?_) (fun _ _ h => h) _ hall)
  obtain ⟨r, ⟨⟩⟩ := r
  cases r with
  | ok a => exact Avoids.pure a
  | error x => exact Avoids.throw fun he => hr.1 (he ▸ rfl)

/-- A caller that got the lease does not end so. -/
theorem avoids_initializeKeyring (owner : String) (pair : KeyPair) : Avoids stillInProgress (initializeKeyring owner pair) := by
  have hload : Avoids stillInProgress (loadUnderLease owner) := by
    refine .bind (avoids_loadPersistedKeyringLogged _) fun afterLease => ?_
    split
    · exact .pure _
    · exact .pure _
    · exact .bind avoids_loadLegacyKeyring fun _ => .pure _
  refine (endsE_bind ..).2 (endsE_imp (fun found _ hfound => ?_) (fun _ _ h => h.elim) _ hload.settled)
  rcases found with x | (keyring | legacy | _)
  · exact avoids_withFinally (.throw fun he => hfound (he ▸ rfl)) (avoids_releaseRotationLease owner)
  · exact avoids_withFinally (.pure _) (avoids_releaseRotationLease owner)
  · refine avoids_withFinally ?_ (avoids_releaseRotationLease owner)
    exact .bind avoids_markLegacyKvCleanupPending fun _ => .bind .clock fun _ => .bind (avoids_persistKeyring _ _ _ _) fun _ =>
      .bind avoids_retryLegacyKvCleanup fun _ => .pure _
  · exact Avoids.bind .clock fun now => avoids_startedFinally (avoids_rotatePersistedKeyring owner pair now) (avoids_releaseRotationLease owner)

/-! ## The path that ends so -/

/-- A load begins with the read of what it returns. -/
theorem loadPersistedKeyring_ends : endsE loadPersistedKeyring
    (fun persisted tr => ∃ read rest, tr = read :: rest ∧ persisted = loaded read.1.db.operations.signingKeyState)
    fun x _ => x ≠ stillInProgress := by
  rw [loadPersistedKeyring, loadPersistedKeyringLogged, endsE_bind]
  refine endsE_d1Logged (fun w w' dt _ => ?_) fun _ => by simp [stillInProgress]
  exact endsE_imp (fun persisted tr h => ⟨(w, w'), tr, rfl, h⟩) (fun _ _ h => h) _ (finishLoad_ends _ _)

theorem awaitKeyring_ends : ∀ attempts, endsE (awaitKeyring attempts) (fun _ _ => True) fun x tr => x = stillInProgress →
    ∃ polls : List Steps, tr = polls.flatten ∧ polls.length = attempts ∧ ∀ poll ∈ polls, Polled poll
  | 0 => fun _ => ⟨[], rfl, rfl, nofun⟩
  | attempts + 1 => by
    rw [awaitKeyring, endsE_bind]
    intro w e
    show endsE (loadPersistedKeyring >>= _) _ _
    rw [endsE_bind]
    refine endsE_imp (fun initialized tr h => ?_) (fun x tr h hx => absurd hx h) _ loadPersistedKeyring_ends
    obtain ⟨read, rest, rfl, rfl⟩ := h
    cases hk : usableKeyring (loaded read.1.db.operations.signingKeyState) with
    | some keyring => trivial
    | none =>
      refine endsE_imp (fun _ _ _ => trivial) (fun x tr h hx => ?_) _ (awaitKeyring_ends attempts)
      obtain ⟨polls, rfl, hlength, hpolls⟩ := h hx
      refine ⟨((w, w.tick (50 + e.dt)) :: read :: rest) :: polls, by simp, by rw [List.length_cons, hlength], ?_⟩
      intro poll hpoll
      rcases List.mem_cons.1 hpoll with rfl | hpoll
      · exact ⟨_, read, rest, rfl, by simp [World.tick], hk⟩
      · exact hpolls poll hpoll

/-- A lease that is not taken is held, and has not run out. -/
theorem leaseTaken_none {owner : String} {now : Nat} {t : Table MaintenanceLeaseRow.jobName} (h : leaseTaken owner now t = none) :
    ∃ l, t.get? ROTATION_LEASE_NAME = some l ∧ now < l.leaseUntil := by
  unfold leaseTaken at h
  dsimp only at h
  split at h
  · cases h
  · rename_i held hheld
    split at h
    · cases h
    · exact ⟨held, hheld, not_le.1 ‹_›⟩

/-- A first use that ends with the error has waited in vain. -/
theorem loadOrInitializeKeyring_waits (owner : String) (pair : KeyPair) :
    endsE (loadOrInitializeKeyring owner pair) (fun _ _ => True) fun x tr => x = stillInProgress → WaitedOut tr := by
  rw [loadOrInitializeKeyring, endsE_bind]
  refine endsE_imp (fun current before h' => ?_) (fun x tr h hx => absurd hx h.1) _
    (endsE_unleased unleased_loadPersistedKeyring loadPersistedKeyring_ends)
  cases usableKeyring current with
  | some keyring => trivial
  | none =>
    rw [endsE_bind]
    refine endsE_clock fun w dt => ?_
    rw [endsE_bind, acquireRotationLease, d1]
    refine endsE_d1Logged (fun w₁ w₂ dt₁ hw₂ => ?_) fun _ hx => by cases hx
    cases htaken : leaseTaken owner (w.tick dt).nowSeconds w₁.db.operations.maintenanceLeases with
    | some leases =>
      -- the caller has the lease
      refine endsE_imp (fun _ _ _ => trivial) (fun x tr h hx => absurd hx h) _ (avoids_initializeKeyring owner pair)
    | none =>
      obtain ⟨l, hl, hlive⟩ := leaseTaken_none htaken
      have hkept : leaseOf w₂ = leaseOf w₁ := by
        rw [hw₂, htaken]
        rfl
      refine endsE_imp (fun _ _ _ => trivial) (fun x tr h hx => ?_) _
        (endsE_unleased (unleased_awaitKeyring 40) (awaitKeyring_ends 40))
      obtain ⟨polls, rfl, hlength, hpolls⟩ := h.1 hx
      refine ⟨fun t ht => ?_, before, (w, w.tick dt), (w₁, w₂), polls, by simp, ⟨l, hl, hlive⟩, hlength, hpolls⟩
      rcases List.mem_append.1 ht with ht | ht
      · exact h'.2 t ht
      · rcases List.mem_cons.1 ht with rfl | ht
        · rfl
        rcases List.mem_cons.1 ht with rfl | ht
        · exact hkept
        · exact h.2 t ht

end Keyforge.Keys
