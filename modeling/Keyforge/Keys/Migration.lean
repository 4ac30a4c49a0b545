/-
The move of the keys from KV to D1. The copies in KV are deleted only once the keyring is in D1; from
the moment a keyring made from them is stored until both are gone, the marker says that their removal
is pending; and the marker is cleared only after both were seen gone. Calls interleave in every order,
and any storage call may fail. The readiness check reads the marker before it reads the copies, so the
marker may come back while it runs.
-/
import Keyforge.Deployment
import Keyforge.Keys.Calls
import Keyforge.Keys.Rules
import Keyforge.Lib.Path
import Keyforge.Paths

namespace Keyforge.Keys

open Lib Db Tokens

/-! ## Statements -/

def CopiesAbsent (w : World) : Prop :=
  w.kv.signingKeys = none ∧ w.kv.activeKid = none

/-- A keyring made from the copies in KV has been stored. -/
def FromLegacy (w : World) : Prop :=
  ∃ version rotatedAt keyring, Event.keyringCommitted version rotatedAt true keyring ∈ w.log

/-- While a copy of what has been moved is left, its removal is marked as pending. -/
def Guarded (w : World) : Prop :=
  FromLegacy w → CopiesAbsent w ∨ cleanupPending w.db = true

/-- The step deletes a copy. -/
def Deletes (w w' : World) : Prop :=
  (w.kv.signingKeys ≠ none ∧ w'.kv.signingKeys = none) ∨ (w.kv.activeKid ≠ none ∧ w'.kv.activeKid = none)

/-- Every call may arrive at any time, and any storage call may fail. -/
def migrationSystem : System KeyCall Input World (Except Failure KeyAnswer) :=
  keySystem (fun _ _ _ => True) fun _ _ => True

/-! ## The protocol -/

/-- What every step keeps: the row, the absence of a copy, and the marker while a copy is left. -/
structure Moves (w w' : World) : Prop where
  row : w.db.operations.signingKeyState.isSome → w'.db.operations.signingKeyState.isSome
  signingKeys : w.kv.signingKeys = none → w'.kv.signingKeys = none
  activeKid : w.kv.activeKid = none → w'.kv.activeKid = none
  marker : cleanupPending w.db = true → CopiesAbsent w' ∨ cleanupPending w'.db = true

/-- Every step deletes a copy only where the row exists. -/
def moveProtocol : Protocol Input World :=
  ⟨Guarded, Moves, fun w w' => Moves w w' ∧ (Deletes w w' → w.db.operations.signingKeyState.isSome), fun _ _ _ => True⟩

section

variable {w w' w'' : World}

theorem Moves.absent (h : Moves w w') (ha : CopiesAbsent w) : CopiesAbsent w' :=
  ⟨h.signingKeys ha.1, h.activeKid ha.2⟩

theorem Moves.trans (h : Moves w w') (h' : Moves w' w'') : Moves w w'' :=
  ⟨fun hr => h'.row (h.row hr), fun hs => h'.signingKeys (h.signingKeys hs), fun ha => h'.activeKid (h.activeKid ha), fun hm =>
    (h.marker hm).elim (fun ha => Or.inl (h'.absent ha)) h'.marker⟩

/-- A step that touches neither KV nor the marker. -/
theorem Moves.of_same (hrow : w.db.operations.signingKeyState.isSome → w'.db.operations.signingKeyState.isSome)
    (hkv : w'.kv = w.kv) (hmarker : w'.db.operations.maintenanceState = w.db.operations.maintenanceState) : Moves w w' :=
  ⟨hrow, fun h => hkv ▸ h, fun h => hkv ▸ h, fun h => Or.inr (by rwa [cleanupPending, hmarker])⟩

theorem not_deletes_of_kv (hkv : w'.kv = w.kv) : ¬ Deletes w w' := by
  rw [Deletes, hkv]
  rintro (⟨h, h'⟩ | ⟨h, h'⟩) <;> exact h h'

theorem move_clocked : Clocked moveProtocol where
  ok := ⟨fun _ => .of_same id rfl rfl, .trans⟩
  tickInv := fun _ h => h
  tickRely := fun _ _ => .of_same id rfl rfl
  tickGuar := fun _ _ => ⟨.of_same id rfl rfl, fun h => absurd h (not_deletes_of_kv rfl)⟩
  tickAllow := fun _ h => h
  guarTick := fun _ h => ⟨⟨h.1.row, h.1.signingKeys, h.1.activeKid, h.1.marker⟩, h.2⟩

theorem move_self {a b : World} (h : moveProtocol.guar a b) : moveProtocol.rely a b :=
  h.1

/-- A step that touches neither KV nor the marker, and stores nothing made from the copies. -/
theorem move_same (hi : Guarded w) (hrow : w.db.operations.signingKeyState.isSome → w'.db.operations.signingKeyState.isSome)
    (hkv : w'.kv = w.kv) (hmarker : w'.db.operations.maintenanceState = w.db.operations.maintenanceState)
    (hlog : FromLegacy w' → FromLegacy w) : Guarded w' ∧ moveProtocol.guar w w' := by
  refine ⟨fun hf => ?_, .of_same hrow hkv hmarker, fun h => absurd h (not_deletes_of_kv hkv)⟩
  rw [CopiesAbsent, hkv, cleanupPending, hmarker]
  exact hi (hlog hf)

/-- Either both copies are gone, or their removal is marked. -/
def Covered (w : World) : Prop :=
  CopiesAbsent w ∨ cleanupPending w.db = true

theorem covered_stable : moveProtocol.Stable Covered :=
  fun _ _ h hr _ => h.elim (fun ha => Or.inl (hr.absent ha)) hr.marker

theorem row_stable : moveProtocol.Stable fun w => w.db.operations.signingKeyState.isSome :=
  fun _ _ h hr _ => hr.row h

theorem absent_stable : moveProtocol.Stable CopiesAbsent :=
  fun _ _ h hr _ => hr.absent h

/-! ## The marker -/

theorem cleanupPending_upsert (row : MaintenanceStateRow) (hkey : row.key = LEGACY_KV_CLEANUP_STATE_KEY) (db : Database) :
    cleanupPending (setOperations { db.operations with
      maintenanceState := upsertState row db.operations.maintenanceState } db) = true := by
  show ((upsertState row db.operations.maintenanceState).get? LEGACY_KV_CLEANUP_STATE_KEY).isSome = true
  unfold upsertState
  split
  · rename_i h
    rw [Table.get?_update, ← hkey, Option.isSome_map]
    exact h
  · rename_i h
    rw [← hkey, Table.get?_insert (Option.not_isSome_iff_eq_none.1 h), if_pos rfl]
    rfl

theorem cleanupPending_delete (db : Database) :
    cleanupPending (setOperations { db.operations with
      maintenanceState := db.operations.maintenanceState.delete fun r => r.key = LEGACY_KV_CLEANUP_STATE_KEY } db) = false := by
  show ((db.operations.maintenanceState.delete _).get? LEGACY_KV_CLEANUP_STATE_KEY).isSome = false
  rw [Table.get?_delete]
  cases h : db.operations.maintenanceState.get? LEGACY_KV_CLEANUP_STATE_KEY with
  | none => rfl
  | some row =>
    have hkey := (Table.get?_eq_some.1 h).2
    rw [Option.filter_some, if_neg (by simpa using hkey)]
    rfl

theorem markLegacyKvCleanupPending_covers {X : Failure → World → Prop} (hX : ∀ x w, X x w) (w : World) :
    wpE moveProtocol markLegacyKvCleanupPending (fun _ => Covered) X w := by
  rw [markLegacyKvCleanupPending, wpE_bind]
  refine wpE_clock move_clocked (stable_true _) trivial fun w₁ _ _ => ?_
  refine wpE_d1Logged move_clocked (stable_true _) trivial ?_ fun _ _ _ => hX _ _
  intro w w' e _ hi hw' _
  have hmarked : cleanupPending w'.db = true := by
    rw [hw']
    exact cleanupPending_upsert _ rfl w.db
  have hkv : w'.kv = w.kv := by rw [hw']
  refine ⟨fun _ => Or.inr hmarked, ⟨⟨by rw [hw']; exact id, fun h => hkv ▸ h, fun h => hkv ▸ h, fun _ => Or.inr hmarked⟩,
    fun h => absurd h (not_deletes_of_kv hkv)⟩, Or.inr hmarked, hX _ _⟩

/-! ## The removal -/

/-- One copy is deleted, where the row exists. -/
theorem kvDelete_moves {op : World → Unit × World} (hdb : ∀ w, (op w).2.db = w.db) (hlog : ∀ w, (op w).2.log = w.log)
    (hsigning : ∀ w, w.kv.signingKeys = none → (op w).2.kv.signingKeys = none)
    (hactive : ∀ w, w.kv.activeKid = none → (op w).2.kv.activeKid = none)
    (hw : w.db.operations.signingKeyState.isSome) :
    wpE moveProtocol (io op) (fun _ _ => True) (fun _ _ => True) w := by
  refine wpE_io move_clocked row_stable hw (fun w e hrow hi _ => ?_) fun _ _ _ => trivial
  refine ⟨fun hf => ?_, ⟨⟨fun h => by rw [hdb]; exact h, hsigning w, hactive w, fun h => Or.inr (by rw [hdb]; exact h)⟩,
    fun _ => hrow⟩, trivial, fun _ => trivial⟩
  rw [hdb]
  refine (hi ?_).imp_left fun ha => ⟨hsigning w ha.1, hactive w ha.2⟩
  rw [FromLegacy, hlog] at hf
  exact hf

/-- A copy that was seen gone stays gone. -/
theorem readLegacyKvCopies_sees (w : World) :
    wpE moveProtocol readLegacyKvCopies
      (fun r w => (r.1 = false → w.kv.signingKeys = none) ∧ (r.2 = false → w.kv.activeKid = none)) (fun _ _ => True) w := by
  rw [readLegacyKvCopies, wpE_bind]
  refine wpE_imp (fun r w h => ?_) (fun _ _ h => h) _ (kvReads_wpE (X := fun _ _ => True)
    (A := fun r w => r = none → w.kv.signingKeys = none) (B := fun r w => r = none → w.kv.activeKid = none) move_clocked
    (stable_true _) trivial (fun _ _ _ h hr _ hn => hr.signingKeys (h hn)) (fun _ _ _ h hr _ hn => hr.activeKid (h hn))
    (fun _ => stable_true _) (fun _ _ _ h => h) (fun _ _ _ h => h) fun _ _ _ _ _ _ => trivial)
  obtain ⟨rawKeys, activeKid⟩ := r
  exact ⟨fun hnone => h.1 (by simpa using hnone), fun hnone => h.2 (by simpa using hnone)⟩

/-- Where the row exists, a removal that succeeds has seen both copies gone. -/
theorem removeLegacyKvKeyring_removes (hw : w.db.operations.signingKeyState.isSome) :
    wpE moveProtocol removeLegacyKvKeyring (fun _ => CopiesAbsent) (fun _ _ => True) w := by
  rw [removeLegacyKvKeyring, wpE_bind]
  refine wpE_imp (fun _ w _ => ?_) (fun _ _ _ => trivial) _ (wpE_all move_clocked.ok move_self (fun _ => stable_true _)
    (fun _ => stable_true _) (fun _ => stable_true _) (kvDelete_moves (fun _ => rfl) (fun _ => rfl) (fun _ _ => rfl) (fun _ h => h) hw)
    (kvDelete_moves (fun _ => rfl) (fun _ => rfl) (fun _ h => h) (fun _ _ => rfl) hw))
  rw [wpE_bind]
  refine wpE_imp (fun remaining w h => ?_) (fun _ _ _ => trivial) _ (readLegacyKvCopies_sees w)
  rw [wpE_bind, wpE_require]
  refine ⟨fun hgone => ?_, fun _ => trivial⟩
  simp only [Bool.and_eq_true, Bool.not_eq_true'] at hgone
  have habsent : CopiesAbsent w := ⟨h.1 hgone.1, h.2 hgone.2⟩
  rw [clearLegacyKvCleanupPending, d1]
  refine wpE_d1Logged move_clocked absent_stable habsent ?_ fun _ _ _ => trivial
  intro w w' e ha hi hw' _
  have hkv : w'.kv = w.kv := by rw [hw']
  have ha' : CopiesAbsent w' := by rw [CopiesAbsent, hkv]; exact ha
  exact ⟨fun _ => Or.inl ha', ⟨⟨by rw [hw']; exact id, fun h => hkv ▸ h, fun h => hkv ▸ h, fun _ => Or.inl ha'⟩,
    fun h => absurd h (not_deletes_of_kv hkv)⟩, ha', trivial⟩

theorem retryLegacyKvCleanup_moves (hw : w.db.operations.signingKeyState.isSome) :
    wpE moveProtocol retryLegacyKvCleanup (fun _ _ => True) (fun _ _ => True) w := by
  rw [retryLegacyKvCleanup, wpE_tryCatch]
  exact wpE_imp (fun _ _ _ => trivial) (fun _ _ _ => trivial) _ (removeLegacyKvKeyring_removes hw)

/-! ## The calls -/

theorem keeps_finishLoad {row : Option SigningKeyStateRow} {pending : Bool}
    (hw : row.isSome → w.db.operations.signingKeyState.isSome) :
    wpE moveProtocol (finishLoad row pending) (fun _ _ => True) (fun _ _ => True) w := by
  cases row with
  | none => trivial
  | some row =>
    rw [finishLoad, wpE_bind, wpE_require]
    refine ⟨fun _ => ?_, fun _ => trivial⟩
    rw [wpE_bind, wpE_whenever]
    exact ⟨fun _ => wpE_imp (fun _ _ _ => trivial) (fun _ _ _ => trivial) _ (retryLegacyKvCleanup_moves (hw rfl)), fun _ => trivial⟩

/-- A load retries the removal only where it has found the row. -/
theorem keeps_loadPersistedKeyringLogged {missing : List Event}
    (hmissing : ∀ version rotatedAt keyring, Event.keyringCommitted version rotatedAt true keyring ∉ missing) :
    Keeps moveProtocol (loadPersistedKeyringLogged missing) := by
  intro w _
  rw [loadPersistedKeyringLogged, wpE_bind]
  refine wpE_d1Logged move_clocked (stable_true _) trivial ?_ fun _ _ _ => trivial
  intro w w' e _ hi hw' _
  obtain ⟨h1, h2⟩ : Guarded w' ∧ moveProtocol.guar w w' := move_same hi (by rw [hw']; exact id) (by rw [hw']) (by rw [hw']) (by
    rintro ⟨version, rotatedAt, keyring, hm⟩
    rw [hw'] at hm
    rcases List.mem_append.1 hm with hm | hm
    · split at hm
      · exact absurd hm (hmissing _ _ _)
      · cases hm
    · exact ⟨version, rotatedAt, keyring, hm⟩)
  exact ⟨h1, h2, keeps_finishLoad (by rw [hw']; exact id), trivial⟩

theorem keeps_loadPersistedKeyring : Keeps moveProtocol loadPersistedKeyring :=
  keeps_loadPersistedKeyringLogged fun _ _ _ => List.not_mem_nil

/-- A keyring made from the copies is stored under the marker; a write that succeeds leaves a row. -/
theorem persistKeyring_moves {origin : WriteOrigin} {keyring : StoredKeyring} {expectedVersion : Option Nat} {updatedAt : Nat}
    (hw : origin.legacy = true → Covered w) :
    wpE moveProtocol (persistKeyring origin keyring expectedVersion updatedAt)
      (fun _ w => w.db.operations.signingKeyState.isSome) (fun _ _ => True) w := by
  have hP : moveProtocol.Stable fun w => origin.legacy = true → Covered w :=
    fun _ _ h hr hi hl => covered_stable (h hl) hr hi
  rw [persistKeyring, wpE_bind]
  refine wpE_d1Logged move_clocked hP hw ?_ fun _ _ _ => trivial
  intro w w' e hcovered hi hw' _
  rw [writeEvents, writeKeyring] at hw'
  rw [writeKeyring]
  cases hwritten : writtenRow keyring expectedVersion updatedAt w.db.operations.signingKeyState with
  | none =>
    rw [hwritten] at hw'
    obtain ⟨h1, h2⟩ : Guarded w' ∧ moveProtocol.guar w w' := move_same hi (by rw [hw']; exact id) (by rw [hw']) (by rw [hw']) (by
      rintro ⟨version, rotatedAt, keyring, hm⟩
      rw [hw'] at hm
      exact ⟨version, rotatedAt, keyring, (List.mem_cons.1 hm).resolve_left nofun⟩)
    refine ⟨h1, h2, ?_, trivial⟩
    rw [wpE_require]
    exact ⟨nofun, fun _ => trivial⟩
  | some row =>
    rw [hwritten] at hw'
    have hkv : w'.kv = w.kv := by rw [hw']
    have hrow : w'.db.operations.signingKeyState = some row := by rw [hw']; rfl
    have hmarker : cleanupPending w'.db = cleanupPending w.db := by rw [hw']; rfl
    have hguarded : Guarded w' := by
      rintro ⟨version, rotatedAt, keyring', hm⟩
      rw [CopiesAbsent, hkv, hmarker]
      rw [hw'] at hm
      rcases List.mem_cons.1 hm with he | hm
      · cases he
      · rcases List.mem_cons.1 hm with he | hm
        · injection he with _ _ hlegacy _
          exact hcovered hlegacy.symm
        · exact hi ⟨version, rotatedAt, keyring', hm⟩
    refine ⟨hguarded, ⟨⟨fun _ => by rw [hrow]; rfl, fun h => hkv ▸ h, fun h => hkv ▸ h, fun h => Or.inr (hmarker.trans h)⟩,
      fun h => absurd h (not_deletes_of_kv hkv)⟩, ?_, trivial⟩
    rw [wpE_require]
    exact ⟨fun _ => by rw [hrow]; rfl, nofun⟩

theorem keeps_rotateLoaded (owner : String) (pair : KeyPair) (rotatedAt : Nat) (persisted : Option PersistedKeyring)
    (legacy : Option StoredKeyring) : Keeps moveProtocol (rotateLoaded owner pair rotatedAt persisted legacy) := by
  intro w hi
  unfold rotateLoaded
  split
  · trivial
  · trivial
  · rename_i keyring _
    -- the marker comes before the write, and the write before the removal
    have hmark : wpE moveProtocol (whenever legacy.isSome markLegacyKvCleanupPending)
        (fun _ w => legacy.isSome = true → Covered w) (fun _ _ => True) w := by
      rw [wpE_whenever]
      refine ⟨fun _ => ?_, fun h hl => absurd hl (by rw [h]; nofun)⟩
      exact wpE_imp (fun _ _ h _ => h) (fun _ _ h => h) _ (markLegacyKvCleanupPending_covers (fun _ _ => trivial) w)
    rw [wpE_bind]
    refine wpE_imp (fun _ w hcovered => ?_) (fun _ _ h => h) _ hmark
    rw [wpE_bind]
    refine wpE_clock move_clocked (fun _ _ h hr hi hl => covered_stable (h hl) hr hi) hcovered fun w hcovered _ => ?_
    rw [wpE_bind]
    refine wpE_imp (fun _ w hrow => ?_) (fun _ _ h => h) _ (persistKeyring_moves hcovered)
    rw [wpE_bind, wpE_whenever]
    exact ⟨fun _ => wpE_imp (fun _ _ _ => trivial) (fun _ _ _ => trivial) _ (retryLegacyKvCleanup_moves hrow), fun _ => trivial⟩

theorem keeps_rotatePersistedKeyring (owner : String) (pair : KeyPair) (rotatedAt : Nat) :
    Keeps moveProtocol (rotatePersistedKeyring owner pair rotatedAt) := by
  refine .bind keeps_loadPersistedKeyring fun persisted => .bind ?_ fun legacy => keeps_rotateLoaded _ _ _ _ _
  cases persisted with
  | none => exact .of_quiet move_clocked quiet_loadLegacyKeyring
  | some p => exact .pure _

theorem keeps_releaseRotationLease_moves (ownerToken : String) : Keeps moveProtocol (releaseRotationLease ownerToken) :=
  .d1 move_clocked fun w w' e hi hw' _ => move_same hi (by rw [hw']; exact id) (by rw [hw']) (by rw [hw']; rfl)
    (by rw [FromLegacy, hw']; exact id)

theorem keeps_acquireRotationLease (ownerToken : String) (now : Nat) : Keeps moveProtocol (acquireRotationLease ownerToken now) := by
  refine .d1 move_clocked fun w w' e hi hw' _ => ?_
  have hsame : w'.db.operations.signingKeyState = w.db.operations.signingKeyState ∧
      w'.db.operations.maintenanceState = w.db.operations.maintenanceState := by
    rw [hw']
    dsimp only
    split <;> exact ⟨rfl, rfl⟩
  exact move_same hi (by rw [hsame.1]; exact id) (by rw [hw']) hsame.2 (by rw [FromLegacy, hw']; exact id)

theorem keeps_migrateLegacyKeyring (ownerToken : String) (legacy : StoredKeyring) :
    Keeps moveProtocol (migrateLegacyKeyring ownerToken legacy) := by
  intro w _
  rw [migrateLegacyKeyring, wpE_bind]
  refine wpE_imp (fun _ w hcovered => ?_) (fun _ _ h => h) _ (markLegacyKvCleanupPending_covers (fun _ _ => trivial) w)
  rw [wpE_bind]
  refine wpE_clock move_clocked covered_stable hcovered fun w hcovered _ => ?_
  rw [wpE_bind]
  refine wpE_imp (fun _ w hrow => ?_) (fun _ _ h => h) _ (persistKeyring_moves fun _ => hcovered)
  rw [wpE_bind]
  exact wpE_imp (fun _ _ _ => trivial) (fun _ _ _ => trivial) _ (retryLegacyKvCleanup_moves hrow)

theorem keeps_rotateStarted (ownerToken : String) (pair : KeyPair) : Keeps moveProtocol (rotateStarted ownerToken pair) := by
  refine .bind (.clock move_clocked) fun now => .bind (.all move_clocked move_self (.settled ?_) ?_) fun r => ?_
  · exact keeps_rotatePersistedKeyring _ _ _
  · exact keeps_releaseRotationLease_moves _
  · obtain ⟨x | keyring, -⟩ := r
    · exact .throw x
    · exact .pure keyring

theorem keeps_loadUnderLease (ownerToken : String) : Keeps moveProtocol (loadUnderLease ownerToken) := by
  refine .bind (keeps_loadPersistedKeyringLogged (by simp)) fun afterLease => ?_
  split
  · exact .pure _
  · exact .pure _
  · exact .bind (.of_quiet move_clocked quiet_loadLegacyKeyring) fun _ => .pure _

theorem keeps_awaitKeyring_moves : ∀ attempts, Keeps moveProtocol (awaitKeyring attempts)
  | 0 => .throw _
  | attempts + 1 => by
    refine .bind (.of_quiet move_clocked (quiet_sleep 50)) fun _ => .bind keeps_loadPersistedKeyring fun initialized => ?_
    split
    · exact .pure _
    · exact keeps_awaitKeyring_moves attempts

theorem keeps_initializeKeyring (ownerToken : String) (pair : KeyPair) :
    Keeps moveProtocol (initializeKeyring ownerToken pair) := by
  refine .bind (.settled (keeps_loadUnderLease ownerToken)) fun found => ?_
  have hrelease := keeps_releaseRotationLease_moves ownerToken
  split
  · exact keeps_withFinally (.pure _) hrelease
  · exact keeps_withFinally (keeps_migrateLegacyKeyring _ _) hrelease
  · exact keeps_rotateStarted ownerToken pair
  · exact keeps_withFinally (.throw _) hrelease

theorem keeps_loadOrInitializeKeyring (ownerToken : String) (pair : KeyPair) :
    Keeps moveProtocol (loadOrInitializeKeyring ownerToken pair) := by
  refine .bind keeps_loadPersistedKeyring fun current => ?_
  split
  · exact .pure _
  · refine .bind (.clock move_clocked) fun now => .bind (keeps_acquireRotationLease ownerToken now) fun acquired => ?_
    exact .ite (keeps_initializeKeyring ownerToken pair) (keeps_awaitKeyring_moves 40)

theorem keeps_rotateSigningKey (ownerToken : String) (pair : KeyPair) (rotatedAt : Nat) :
    Keeps moveProtocol (rotateSigningKey ownerToken pair rotatedAt) := by
  refine .bind (.clock move_clocked) fun now => .bind (keeps_acquireRotationLease ownerToken now) fun acquired => ?_
  refine .bind (.require _ _) fun _ => .bind ?_ fun keyring => .pure _
  exact keeps_withFinally (keeps_rotatePersistedKeyring ownerToken pair rotatedAt) (keeps_releaseRotationLease_moves ownerToken)

/-- A readiness check that succeeds has seen both copies gone. -/
theorem assertLegacySigningKeyCleanupComplete_absent :
    wpE moveProtocol assertLegacySigningKeyCleanupComplete (fun _ => CopiesAbsent) (fun _ _ => True) w := by
  have hread : wpE moveProtocol (select fun db => (db.operations.signingKeyState.isSome, cleanupPending db))
      (fun r w => r.1 = true → w.db.operations.signingKeyState.isSome) (fun _ _ => True) w :=
    wpE_select move_clocked (stable_true _) trivial (fun _ _ _ h => h) fun _ _ _ => trivial
  rw [assertLegacySigningKeyCleanupComplete, wpE_bind]
  refine wpE_imp (fun r w hrow => ?_) (fun _ _ h => h) _ hread
  obtain ⟨hasD1Keyring, pending⟩ := r
  have hstable : moveProtocol.Stable fun w => hasD1Keyring = true → w.db.operations.signingKeyState.isSome :=
    fun _ _ h hr _ hd => hr.row (h hd)
  show wpE moveProtocol (readLegacyKvCopies >>= _) _ _ w
  rw [wpE_bind]
  refine wpE_imp (fun copies w h => ?_) (fun _ _ _ => trivial) _
    (wpE_frame hstable move_self hrow (readLegacyKvCopies_sees w))
  obtain ⟨hrow, hsigning, hactive⟩ := h
  rw [wpE_ite]
  refine ⟨fun hgone => ?_, fun _ => ?_⟩
  · simp only [Bool.and_eq_true, Bool.not_eq_true'] at hgone
    exact ⟨hsigning hgone.1.1, hactive hgone.1.2⟩
  · rw [wpE_bind, wpE_require]
    refine ⟨fun hd => ?_, fun _ => trivial⟩
    rw [wpE_bind]
    refine wpE_imp (fun _ w h => ?_) (fun _ _ _ => trivial) _ (wpE_frame row_stable move_self (hrow hd)
      (markLegacyKvCleanupPending_covers (fun _ _ => trivial) w))
    exact removeLegacyKvKeyring_removes h.1

end

/-! ## What the readiness check sees -/

/-- After one of the steps the removal was not marked as pending. -/
def Unmarked (tr : Steps) : Prop :=
  ∃ t ∈ tr, cleanupPending t.2.db = false

theorem lasting_unmarked {α : Type} : Lasting fun (_ : α) tr => Unmarked tr := by
  rintro _ tr tr' hsub ⟨t, ht, h⟩
  exact ⟨t, hsub.subset ht, h⟩

theorem removeLegacyKvKeyring_unmarked : endsE removeLegacyKvKeyring (fun _ => Unmarked) fun _ _ => True := by
  refine endsE_skip lasting_unmarked (fun _ _ => trivial) fun _ => ?_
  refine endsE_skip lasting_unmarked (fun _ _ => trivial) fun _ => ?_
  refine endsE_skip lasting_unmarked (fun _ _ => trivial) fun _ => ?_
  rw [clearLegacyKvCleanupPending, d1]
  refine endsE_d1Logged (fun w w' dt hw' => ⟨_, List.mem_singleton_self _, ?_⟩) fun _ => trivial
  rw [hw']
  exact cleanupPending_delete w.db

/-- The marker was absent at the first read, or has been cleared. -/
theorem assertLegacySigningKeyCleanupComplete_unmarked :
    endsE assertLegacySigningKeyCleanupComplete (fun _ => Unmarked) fun _ _ => True := by
  rw [assertLegacySigningKeyCleanupComplete, endsE_bind]
  refine endsE_select (fun w dt => ?_) fun _ => trivial
  dsimp only
  cases hpending : cleanupPending w.db with
  | false =>
    refine endsE_imp (fun _ tr _ => ?_) (fun _ _ _ => trivial) _ (endsE_true _)
    exact ⟨_, List.mem_append_left _ List.mem_cons_self, hpending⟩
  | true =>
    refine endsE_imp (fun _ tr h => ?_) (fun _ _ _ => trivial) _ (Q := fun _ => Unmarked) (X := fun _ _ => True) ?_
    · exact lasting_unmarked () (List.sublist_append_right _ tr) h
    · refine endsE_skip lasting_unmarked (fun _ _ => trivial) fun copies => ?_
      refine endsE_ite (fun hgone => ?_) fun _ => ?_
      · rw [Bool.not_true, Bool.and_false] at hgone
        cases hgone
      · refine endsE_skip lasting_unmarked (fun _ _ => trivial) fun _ => ?_
        exact endsE_skip lasting_unmarked (fun _ _ => trivial) fun _ => removeLegacyKvKeyring_unmarked

/-! ## Every run -/

theorem keeps_keyCall : ∀ c : KeyCall, Keeps moveProtocol c.code
  | .rotate ownerToken pair rotatedAt => .map _ (keeps_rotateSigningKey ownerToken pair rotatedAt)
  | .load ownerToken pair => .map _ (keeps_loadOrInitializeKeyring ownerToken pair)
  | .assertCleanup => fun _ _ => by
    rw [KeyCall.code, wpE_bind]
    exact wpE_imp (fun _ _ _ => trivial) (fun _ _ _ => trivial) _ assertLegacySigningKeyCleanupComplete_absent

def migrationOutline : Outline migrationSystem where
  inv := Guarded
  rely := fun _ => moveProtocol.rely
  guar := fun _ => moveProtocol.guar
  post := fun c r w => c = .assertCleanup → ∀ answer, r = .ok answer → CopiesAbsent w
  apart := fun _ _ => True
  beside := fun _ _ => True
  trace := fun _ _ => True

theorem migration_valid : migrationOutline.Valid where
  symm := fun _ => trivial
  besideSymm := fun _ => trivial
  arrives := fun _ _ _ => ⟨trivial, fun _ => trivial⟩
  traceArrives := fun _ => trivial
  traceStep := fun _ _ _ => trivial
  ok := fun _ => move_clocked.ok
  compat := fun _ _ _ hg => hg.1
  stable := fun _ _ _ _ h hr _ hc answer ha => hr.absent (h hc answer ha)
  settled := fun _ _ hg _ h hc answer ha => hg.1.absent (h hc answer ha)
  safe := fun {P c} _ hP => by
    cases c with
    | rotate ownerToken pair rotatedAt =>
      exact wp_of_wpE (wpE_imp (fun _ _ _ => nofun) (fun _ _ _ => nofun) _ (keeps_keyCall (.rotate ownerToken pair rotatedAt) _ hP.inv))
    | load ownerToken pair =>
      exact wp_of_wpE (wpE_imp (fun _ _ _ => nofun) (fun _ _ _ => nofun) _ (keeps_keyCall (.load ownerToken pair) _ hP.inv))
    | assertCleanup =>
      refine wp_of_wpE (?_ : wpE moveProtocol KeyCall.assertCleanup.code _ _ P.store)
      rw [KeyCall.code, wpE_bind]
      exact wpE_imp (fun _ _ h _ _ _ => h) (fun _ _ _ _ _ => nofun) _ assertLegacySigningKeyCleanupComplete_absent

/-- In every run, any storage call of which may fail: a copy in KV is deleted only where the keyring is
in D1; while a copy of what was moved is left, the marker is there; and after a readiness check that
succeeded no copy is there, and the marker was absent after one of its steps. -/
theorem legacy_migration {w : World} (h₀ : Guarded w) {P : Pool KeyCall Input World (Except Failure KeyAnswer)}
    (h : migrationSystem.Reach ⟨w, []⟩ P) :
    Guarded P.store ∧
      (∀ P', migrationSystem.Step P P' → Deletes P.store P'.store → P.store.db.operations.signingKeyState.isSome) ∧
      ∀ answer, (KeyCall.assertCleanup, .done (.ok answer)) ∈ P.threads → CopiesAbsent P.store ∧
        ∃ tr, Path KeyCall.assertCleanup.code.run tr (.done (.ok answer)) ∧
          (∀ t ∈ tr, migrationSystem.Passed ⟨w, []⟩ P t) ∧ Unmarked tr := by
  have hholds := migration_valid.reach (Outline.holds_start (O := migrationOutline) h₀ trivial) h
  refine ⟨hholds.inv, fun P' hs hdeletes => ?_, fun answer ht => ⟨hholds.post ht rfl answer rfl, ?_⟩⟩
  · cases hs with
    | arrive _ => exact absurd hdeletes (not_deletes_of_kv rfl)
    | run he => exact (hholds.guar migration_valid he).2 hdeletes
  · obtain ⟨tr, hpath, hpassed⟩ := h.path _ ht
    refine ⟨tr, hpath, hpassed, ?_⟩
    have hends : endsE KeyCall.assertCleanup.code (fun _ => Unmarked) fun _ _ => True := by
      rw [KeyCall.code, endsE_bind]
      refine endsE_imp (fun _ tr h => ?_) (fun _ _ h => h) _ assertLegacySigningKeyCleanupComplete_unmarked
      rw [endsE_pure, List.append_nil]
      exact h
    exact (endsE_iff.1 hends).1 tr answer hpath

/-! ## A run -/

/-- A deployment whose keys are still in KV. -/
def legacyWorld : World :=
  { Deployment.world with kv := ⟨some (.ok [generateStoredKey ⟨"kid_l", "private l", "parameters l"⟩ 0]), some "kid_l"⟩ }

/-- A first use loads the copies; the readiness check reads that nothing is marked; the first use marks,
stores the keyring and deletes the copies; the readiness check reads that both are gone. -/
def checkedBetween : Pool KeyCall Input World (Except Failure KeyAnswer) :=
  migrationSystem.moves ⟨legacyWorld, []⟩
    (.arrive (.load "a" ⟨"kid_a", "private a", "parameters a"⟩) :: .arrive .assertCleanup ::
      List.replicate 6 (.run 0 ⟨0, false, false, fun _ => true⟩) ++ .run 1 ⟨0, false, false, fun _ => true⟩ ::
      List.replicate 6 (.run 0 ⟨0, false, false, fun _ => true⟩) ++
      List.replicate 2 (.run 1 ⟨0, false, false, fun _ => true⟩))

theorem reach_checkedBetween : migrationSystem.Reach ⟨legacyWorld, []⟩ checkedBetween := by
  refine System.reach_moves _ ?_
  refine System.allows_of_passes (fun _ _ => true) (fun _ _ => trivial) (fun _ _ _ _ => trivial) _ ?_
  decide +kernel

theorem legacy_migration_checked :
    Guarded checkedBetween.store ∧ CopiesAbsent checkedBetween.store :=
  have h := legacy_migration (fun ⟨_, _, _, h⟩ => absurd h List.not_mem_nil) reach_checkedBetween
  ⟨h.1, (h.2.2 .cleaned (Pool.mem_of_finished (i := 1) (by decide +kernel))).1⟩

/-- The readiness check succeeds, and the marker is there. -/
theorem marker_after_check :
    ∃ P, migrationSystem.Reach ⟨legacyWorld, []⟩ P ∧ P.finished 1 = some (.assertCleanup, .ok .cleaned) ∧
      cleanupPending P.store.db = true :=
  ⟨checkedBetween, reach_checkedBetween, by decide +kernel, by decide +kernel⟩

end Keyforge.Keys
