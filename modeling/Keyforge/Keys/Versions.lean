/-
The committed versions of the signing keyring. Rotations and first uses interleave in every order, and
any storage call may fail. Every write is a compare and swap on the version that was loaded, so a
version is made from the one before it; soundness and the retention of once active keys follow from
what one rotation makes of a sound keyring. A call draws a key of its own: until it commits, no
version holds the key.
-/
import Keyforge.Deployment
import Keyforge.Keys.Calls
import Keyforge.Keys.Rotation
import Keyforge.Keys.Rules

namespace Keyforge.Keys

open Lib Db Tokens

/-! ## Committed versions -/

structure Commit where
  version : Nat
  rotatedAt : Option Nat
  legacy : Bool
  keyring : StoredKeyring
  deriving DecidableEq, Repr

def commitOf : Event → Option Commit
  | .keyringCommitted version rotatedAt legacy keyring => some ⟨version, rotatedAt, legacy, keyring⟩
  | _ => none

/-- The committed versions, newest first. -/
def commits (w : World) : List Commit :=
  w.log.filterMap commitOf

/-- Each version is made from the one before it by a rotation, the first from nothing. -/
inductive Lineage : List Commit → Prop
  | nil : Lineage []
  | first {c : Commit} {pair : KeyPair} {rotatedAt : Nat} (hversion : c.version = 1) (hat : c.rotatedAt = some rotatedAt)
    (hkeyring : c.keyring = initialKeyring pair rotatedAt) : Lineage [c]
  | next {c d : Commit} {rest : List Commit} {rotatedAt : Nat} (h : Lineage (d :: rest)) (hversion : c.version = d.version + 1)
    (hat : c.rotatedAt = some rotatedAt) (hsucceeds : Succeeds d.keyring rotatedAt c.keyring) : Lineage (c :: d :: rest)

/-- Some version holds a key with this kid. -/
def Born (kid : String) (w : World) : Prop :=
  ∃ c ∈ commits w, Holds c.keyring kid

/-- The keys that have been active, and where each is now: active, retired, or past its grace period. -/
def Kept (keyring : StoredKeyring) (w : World) : Prop :=
  ∀ c ∈ commits w, (keyring.activeKid = c.keyring.activeKid ∨ Retired keyring c.keyring.activeKid) ∨
    ∃ d ∈ commits w, Outlived d.keyring c.keyring.activeKid w.nowSeconds

structure KeyInv (w : World) : Prop where
  kv : w.kv = .empty
  row : w.db.operations.signingKeyState.map (fun r => (r.version, r.keyring)) =
    (commits w).head?.map fun c => (c.version, c.keyring)
  lineage : Lineage (commits w)
  sound : ∀ c ∈ commits w, Sound c.keyring
  kept : ∀ row, w.db.operations.signingKeyState = some row → Kept row.keyring w

section

variable {w w' : World}

/-- Versions go down from the newest. -/
theorem Lineage.version_lt {l : List Commit} (h : Lineage l) : l.Pairwise fun c d => d.version < c.version := by
  induction h with
  | nil => exact List.Pairwise.nil
  | first => exact List.pairwise_singleton _ _
  | @next c d rest rotatedAt _ hversion _ _ ih =>
    refine List.pairwise_cons.2 ⟨fun e he => ?_, ih⟩
    rcases List.mem_cons.1 he with rfl | he
    · omega
    · have := (List.pairwise_cons.1 ih).1 e he
      omega

/-- Two committed versions with one number are the same. -/
theorem Lineage.eq_of_version {l : List Commit} (h : Lineage l) {c d : Commit} (hc : c ∈ l) (hd : d ∈ l)
    (hv : c.version = d.version) : c = d := by
  have hnodup : (l.map (·.version)).Nodup := List.pairwise_map.2 (h.version_lt.imp Nat.ne_of_gt)
  exact List.inj_on_of_nodup_map hnodup hc hd hv

theorem KeyInv.congr (hi : KeyInv w) (hkv : w'.kv = .empty)
    (hrow : w'.db.operations.signingKeyState = w.db.operations.signingKeyState) (hcommits : commits w' = commits w)
    (hnow : w.nowMs ≤ w'.nowMs) : KeyInv w' := by
  refine ⟨hkv, by rw [hrow, hcommits]; exact hi.row, by rw [hcommits]; exact hi.lineage, by rw [hcommits]; exact hi.sound,
    fun row hr c hc => ?_⟩
  rw [hcommits] at hc ⊢
  rcases hi.kept row (hrow ▸ hr) c hc with h | ⟨d, hd, hout⟩
  · exact Or.inl h
  · exact Or.inr ⟨d, hd, hout.mono (Nat.div_le_div_right hnow)⟩

/-- The newest commit is the row. -/
theorem KeyInv.newest (hi : KeyInv w) {row : SigningKeyStateRow} (h : w.db.operations.signingKeyState = some row) :
    ∃ c rest, commits w = c :: rest ∧ c.version = row.version ∧ c.keyring = row.keyring := by
  have hrow := hi.row
  rw [h] at hrow
  cases hl : commits w with
  | nil =>
    rw [hl] at hrow
    cases hrow
  | cons c rest =>
    rw [hl] at hrow
    simp only [Option.map_some, List.head?_cons, Option.some.injEq, Prod.mk.injEq] at hrow
    exact ⟨c, rest, rfl, hrow.1.symm, hrow.2.symm⟩

theorem KeyInv.no_commit (hi : KeyInv w) (h : w.db.operations.signingKeyState = none) : commits w = [] := by
  have hrow := hi.row
  rw [h] at hrow
  cases hl : commits w with
  | nil => rfl
  | cons c rest =>
    rw [hl] at hrow
    cases hrow

end

/-! ## A commit -/

section

variable {w w' : World} {next : StoredKeyring} {pair : KeyPair} {rotatedAt updatedAt : Nat}

/-- The first commit. -/
theorem KeyInv.boot (hi : KeyInv w) (hnone : w.db.operations.signingKeyState = none) (hkv : w'.kv = w.kv)
    (hrow : w'.db.operations.signingKeyState = some ⟨initialKeyring pair rotatedAt, 1, updatedAt⟩)
    (hcommits : commits w' = ⟨1, some rotatedAt, false, initialKeyring pair rotatedAt⟩ :: commits w) : KeyInv w' := by
  rw [hi.no_commit hnone] at hcommits
  refine ⟨hkv.trans hi.kv, by rw [hrow, hcommits]; rfl, ?_, ?_, ?_⟩
  · rw [hcommits]
    exact .first rfl rfl rfl
  · rw [hcommits]
    intro c hc
    rw [List.mem_singleton.1 hc]
    exact sound_initialKeyring pair rotatedAt
  · intro row hr c hc
    rw [hcommits, List.mem_singleton] at hc
    rw [hrow] at hr
    cases hr
    rw [hc]
    exact Or.inl (Or.inl rfl)

/-- A later commit: a rotation of the stored keyring. -/
theorem KeyInv.rotate (hi : KeyInv w) {row : SigningKeyStateRow} (hstored : w.db.operations.signingKeyState = some row)
    (hrot : rotation (some row.keyring) pair rotatedAt = .next next) (hfresh : ¬ Born pair.thumbprint w)
    (hlate : rotatedAt ≤ w.nowSeconds) (hnow : w'.nowMs = w.nowMs) (hkv : w'.kv = w.kv)
    (hrow : w'.db.operations.signingKeyState = some ⟨next, row.version + 1, updatedAt⟩)
    (hcommits : commits w' = ⟨row.version + 1, some rotatedAt, false, next⟩ :: commits w) : KeyInv w' := by
  obtain ⟨c₀, rest, hl, hversion, hkeyring⟩ := hi.newest hstored
  have hmem₀ : c₀ ∈ commits w := hl ▸ List.mem_cons_self
  have hsound : Sound row.keyring := hkeyring ▸ hi.sound c₀ hmem₀
  have hnew : Sound next := sound_rotation hsound (fun h => hfresh ⟨c₀, hmem₀, hkeyring ▸ h⟩) hrot
  refine ⟨hkv.trans hi.kv, by rw [hrow, hcommits]; rfl, ?_, ?_, ?_⟩
  · have hlineage := hi.lineage
    rw [hl] at hlineage
    rw [hcommits, hl]
    exact .next hlineage (by rw [hversion]) rfl (hkeyring ▸ succeeds_of_rotation hrot)
  · rw [hcommits]
    intro c hc
    rcases List.mem_cons.1 hc with rfl | hc
    · exact hnew
    · exact hi.sound c hc
  · intro row' hr c hc
    rw [hrow] at hr
    cases hr
    have hsec : w'.nowSeconds = w.nowSeconds := by rw [World.nowSeconds, World.nowSeconds, hnow]
    rw [hcommits] at hc ⊢
    rw [hsec]
    rcases List.mem_cons.1 hc with rfl | hc
    · exact Or.inl (Or.inl rfl)
    · rcases hi.kept row hstored c hc with hkept | ⟨d, hd, hout⟩
      · rcases kept_rotation hsound hrot hkept with h | h | h
        · exact Or.inl (Or.inl h)
        · exact Or.inl (Or.inr h)
        · exact Or.inr ⟨c₀, List.mem_cons_of_mem _ hmem₀, hkeyring ▸ h.mono hlate⟩
      · exact Or.inr ⟨d, List.mem_cons_of_mem _ hd, hout⟩

end

/-! ## The outline -/

/-- The keys that calls draw differ, and no rotation is dated after the second in which it is called: an
administrator's is dated by the clock, a scheduled one by the time for which it was scheduled. -/
def arriveDistinct (P : Pool KeyCall Input World (Except Failure KeyAnswer)) (c : KeyCall) : Prop :=
  (∀ kid, c.thumbprint = some kid → ∀ t ∈ P.threads, t.1.thumbprint ≠ some kid) ∧
    ∀ ownerToken pair rotatedAt, c = .rotate ownerToken pair rotatedAt → rotatedAt ≤ P.store.nowSeconds

/-- Any storage call may fail. -/
def versionSystem : System KeyCall Input World (Except Failure KeyAnswer) :=
  keySystem (fun _ _ _ => True) arriveDistinct

/-- Time and history go on, and no key is born but such as `E` allows. -/
structure Goes (E : String → Prop) (w w' : World) : Prop where
  now : w.nowMs ≤ w'.nowMs
  log : ∃ ext, w'.log = ext ++ w.log
  born : ∀ kid, Born kid w' → E kid ∨ Born kid w

/-- Others give birth to no key of `c`. -/
def KeyCall.rely (c : KeyCall) : World → World → Prop :=
  Goes fun kid => c.thumbprint ≠ some kid

def KeyCall.guar (c : KeyCall) : World → World → Prop :=
  Goes fun kid => c.thumbprint = some kid

def versionOutline : Outline versionSystem where
  inv := KeyInv
  rely := KeyCall.rely
  guar := KeyCall.guar
  post := fun _ _ _ => True
  apart := fun c d => ∀ kid, c.thumbprint = some kid → d.thumbprint ≠ some kid
  beside := fun _ _ => True
  trace := fun cs w => ∀ kid, Born kid w → ∃ c ∈ cs, c.thumbprint = some kid

section

variable {E E' : String → Prop} {w w' w'' : World} {c : KeyCall}

theorem Goes.imp (hE : ∀ kid, E kid → E' kid) (h : Goes E w w') : Goes E' w w' :=
  ⟨h.now, h.log, fun kid hk => (h.born kid hk).imp_left (hE kid)⟩

theorem Goes.trans (h : Goes E w w') (h' : Goes E w' w'') : Goes E w w'' := by
  refine ⟨h.now.trans h'.now, ?_, fun kid hk => ?_⟩
  · obtain ⟨ext, he⟩ := h.log
    obtain ⟨ext', he'⟩ := h'.log
    exact ⟨ext' ++ ext, by rw [he', he, List.append_assoc]⟩
  · rcases h'.born kid hk with hE | hk
    · exact Or.inl hE
    · exact h.born kid hk

/-- A step that commits nothing. -/
theorem Goes.of_commits (hnow : w.nowMs ≤ w'.nowMs) (hlog : ∃ ext, w'.log = ext ++ w.log) (h : commits w' = commits w) :
    Goes E w w' :=
  ⟨hnow, hlog, fun kid hk => Or.inr (by rwa [Born, h] at hk)⟩

theorem commits_of_log (h : w'.log = w.log) : commits w' = commits w := by
  rw [commits, commits, h]

theorem Goes.of_log (hnow : w.nowMs ≤ w'.nowMs) (h : w'.log = w.log) : Goes E w w' :=
  .of_commits hnow ⟨[], h⟩ (commits_of_log h)

theorem tick_nowMs (w : World) (dt : Nat) : w.nowMs ≤ (w.tick dt).nowMs :=
  Nat.le_add_right _ _

/-- The protocols in which a call guarantees `G`, relying on what others do beside it. -/
def versionProtocol (R G : String → Prop) : Protocol Input World :=
  ⟨KeyInv, Goes R, Goes G, fun _ _ _ => True⟩

theorem version_clocked (R G : String → Prop) : Clocked (versionProtocol R G) where
  ok := ⟨fun _ => .of_log le_rfl rfl, .trans⟩
  tickInv := fun dt hi => hi.congr hi.kv rfl rfl (tick_nowMs _ dt)
  tickRely := fun w dt => .of_log (tick_nowMs w dt) rfl
  tickGuar := fun w dt => .of_log (tick_nowMs w dt) rfl
  tickAllow := fun _ _ => trivial
  guarTick := fun dt h => ⟨(tick_nowMs _ dt).trans h.now, h.log, h.born⟩

/-- A step that writes no keyring keeps every such protocol. -/
theorem version_step {R G : String → Prop} (w' : World) (hi : KeyInv w) (hnow : w'.nowMs = w.nowMs)
    (hrow : w'.db.operations.signingKeyState = w.db.operations.signingKeyState) (hkv : w'.kv = .empty)
    (hlog : ∃ ext, w'.log = ext ++ w.log) (hcommits : commits w' = commits w) :
    (versionProtocol R G).inv w' ∧ (versionProtocol R G).rely w w' ∧ (versionProtocol R G).guar w w' :=
  ⟨hi.congr hkv hrow hcommits hnow.ge, .of_commits hnow.ge hlog hcommits, .of_commits hnow.ge hlog hcommits⟩

theorem version_tolerant (R G : String → Prop) : TolerantOfCleanup (versionProtocol R G) := fun _ _ hi hs =>
  version_step _ hi hs.nowMs hs.row (hs.kv hi.kv) ⟨[], hs.log⟩ (commits_of_log hs.log)

end

/-! ## The programs -/

section

variable {R G : String → Prop} {pair : KeyPair} {rotatedAt : Nat} {w w' : World}

/-- The key is not born, and the rotation is not dated ahead. -/
def Ready (pair : KeyPair) (rotatedAt : Nat) (w : World) : Prop :=
  ¬ Born pair.thumbprint w ∧ rotatedAt ≤ w.nowSeconds

/-- What was loaded is a committed version. -/
def Committed (persisted : Option PersistedKeyring) (w : World) : Prop :=
  ∀ p, persisted = some p → ∃ c ∈ commits w, c.version = p.version ∧ c.keyring = p.keyring

theorem ready_stable (hR : ¬ R pair.thumbprint) : (versionProtocol R G).Stable (Ready pair rotatedAt) :=
  fun _ _ h hr _ => ⟨fun hb => (hr.born _ hb).elim hR h.1, h.2.trans (Nat.div_le_div_right hr.now)⟩

theorem mem_commits_of_log {c : Commit} (h : ∃ ext, w'.log = ext ++ w.log) (hc : c ∈ commits w) : c ∈ commits w' := by
  obtain ⟨ext, he⟩ := h
  rw [commits, he, List.filterMap_append]
  exact List.mem_append_right _ hc

theorem committed_stable (persisted : Option PersistedKeyring) : (versionProtocol R G).Stable (Committed persisted) := by
  intro w w' h hr _ p hp
  obtain ⟨c, hc, hv⟩ := h p hp
  exact ⟨c, mem_commits_of_log hr.log hc, hv⟩

/-- The stored row is a committed version. -/
theorem KeyInv.committed (hi : KeyInv w) : Committed (loaded w.db.operations.signingKeyState) w := by
  intro p hp
  obtain ⟨row, hrow, rfl⟩ := Option.map_eq_some_iff.1 hp
  obtain ⟨c, rest, hl, hv, hk⟩ := hi.newest hrow
  exact ⟨c, hl ▸ List.mem_cons_self, hv, hk⟩

/-- The write of a rotation of what was loaded. -/
theorem persistKeyring_wpE {owner : String} {keyring : StoredKeyring} {persisted : Option PersistedKeyring} {now : Nat}
    (hR : ¬ R pair.thumbprint) (hG : G pair.thumbprint)
    (hrot : rotation (persisted.map (·.keyring)) pair rotatedAt = .next keyring)
    (hw : Ready pair rotatedAt w ∧ Committed persisted w) :
    wpE (versionProtocol R G) (persistKeyring ⟨owner, some rotatedAt, false⟩ keyring (persisted.map (·.version)) now)
      (fun _ _ => True) (fun _ _ => True) w := by
  have hc := version_clocked R G
  rw [persistKeyring, wpE_bind]
  refine wpE_d1Logged hc (Stable.and (ready_stable hR) (committed_stable persisted)) hw ?_ fun _ _ _ => trivial
  rintro w w' e ⟨hready, hcommitted⟩ hi hw' -
  have hdone : ∀ changed, wpE (versionProtocol R G) (require changed (.app 503 "Signing key state changed concurrently"))
      (fun _ _ => True) (fun _ _ => True) w' := fun changed => wpE_require .. |>.2 ⟨fun _ => trivial, fun _ => trivial⟩
  cases hwritten : writtenRow keyring (persisted.map (·.version)) now w.db.operations.signingKeyState with
  | none =>
    have he : w'.log = .keyringWritten owner :: w.log := by rw [hw', writeEvents, hwritten]; rfl
    have hdb : w'.db = w.db := by rw [hw', writeKeyring, hwritten]
    have hcommits : commits w' = commits w := by rw [commits, he]; rfl
    obtain ⟨h1, -, h3⟩ := version_step (R := R) (G := G) w' hi (by rw [hw']) (by rw [hdb]) (by rw [hw']; exact hi.kv) ⟨[_], he⟩ hcommits
    exact ⟨h1, h3, hdone _, trivial⟩
  | some row =>
    have he : w'.log = [.keyringWritten owner, .keyringCommitted row.version (some rotatedAt) false keyring] ++ w.log := by
      rw [hw', writeEvents, hwritten]
    have hrow : w'.db.operations.signingKeyState = some row := by rw [hw', writeKeyring, hwritten]; rfl
    have hcommits : commits w' = ⟨row.version, some rotatedAt, false, keyring⟩ :: commits w := by rw [commits, he]; rfl
    have hkv : w'.kv = w.kv := by rw [hw']
    have hnow : w'.nowMs = w.nowMs := by rw [hw']
    -- the swap took effect: what was loaded is what is stored
    suffices hinv : KeyInv w' ∧ ∀ kid, Holds keyring kid → kid = pair.thumbprint ∨ Born kid w by
      refine ⟨hinv.1, ⟨hnow.ge, ⟨_, he⟩, fun kid hk => ?_⟩, hdone _, trivial⟩
      obtain ⟨c, hmem, hholds⟩ := hk
      rw [hcommits] at hmem
      rcases List.mem_cons.1 hmem with rfl | hmem
      · rcases hinv.2 kid hholds with rfl | hborn
        · exact Or.inl hG
        · exact Or.inr hborn
      · exact Or.inr ⟨c, hmem, hholds⟩
    cases persisted with
    | none =>
      rw [Option.map_none] at hrot hwritten
      cases hstored : w.db.operations.signingKeyState with
      | some stored => rw [hstored] at hwritten; cases hwritten
      | none =>
        rw [hstored] at hwritten
        cases hwritten
        obtain rfl := rotation_none hrot
        exact ⟨hi.boot hstored hkv hrow hcommits, fun kid hk => Or.inl (holds_initialKeyring hk)⟩
    | some p =>
      rw [Option.map_some] at hrot hwritten
      cases hstored : w.db.operations.signingKeyState with
      | none => rw [hstored] at hwritten; cases hwritten
      | some stored =>
        rw [hstored, writtenRow] at hwritten
        split at hwritten
        · rename_i hversion
          cases hwritten
          obtain ⟨c, hc, hcv, hck⟩ := hcommitted p rfl
          obtain ⟨d, rest, hl, hdv, hdk⟩ := hi.newest hstored
          have hsame : c = d := hi.lineage.eq_of_version hc (hl ▸ List.mem_cons_self) (by rw [hcv, hdv, hversion])
          have hkeyring : stored.keyring = p.keyring := by rw [← hck, hsame, hdk]
          rw [← hkeyring] at hrot
          rw [← hversion] at hrow hcommits
          refine ⟨hi.rotate hstored hrot hready.1 hready.2 hnow hkv hrow hcommits, fun kid hk => ?_⟩
          rcases holds_rotation hrot hk with h | h
          · exact Or.inl h
          · exact Or.inr ⟨d, hl ▸ List.mem_cons_self, hdk ▸ h⟩
        · cases hwritten

/-- A rotation, from a load of the committed version. -/
theorem rotatePersistedKeyring_wpE {owner : String} (hR : ¬ R pair.thumbprint) (hG : G pair.thumbprint)
    (hw : Ready pair rotatedAt w) :
    wpE (versionProtocol R G) (rotatePersistedKeyring owner pair rotatedAt) (fun _ _ => True) (fun _ _ => True) w := by
  have hc := version_clocked R G
  have hready : (versionProtocol R G).Stable (Ready pair rotatedAt) := ready_stable hR
  have hboth : ∀ persisted, (versionProtocol R G).Stable fun w => Ready pair rotatedAt w ∧ Committed persisted w :=
    fun persisted => Stable.and hready (committed_stable persisted)
  have hrest : ∀ persisted w, Ready pair rotatedAt w ∧ Committed persisted w → wpE (versionProtocol R G)
      (rotateLoaded owner pair rotatedAt persisted none) (fun _ _ => True) (fun _ _ => True) w := by
    intro persisted w hw
    rw [rotateLoaded, Option.or_none]
    split
    · trivial
    · trivial
    · rename_i keyring hrot
      rw [wpE_bind, wpE_whenever]
      refine ⟨nofun, fun _ => ?_⟩
      rw [wpE_bind]
      refine wpE_clock hc (hboth persisted) hw fun w₁ hw₁ _ => ?_
      rw [wpE_bind]
      refine wpE_imp (fun _ w _ => ?_) (fun _ _ _ => trivial) _ (persistKeyring_wpE hR hG hrot hw₁)
      rw [wpE_bind, wpE_whenever]
      exact ⟨nofun, fun _ => trivial⟩
  rw [rotatePersistedKeyring, wpE_bind]
  refine wpE_imp (fun persisted w hw => ?_) (fun _ _ h => h) _ (loadPersistedKeyring_wpE hc (version_tolerant R G) hready hw
    hboth (fun w hp hi => ⟨hp, hi.committed⟩) (fun _ _ _ _ _ _ => trivial) fun _ _ _ _ _ _ => trivial)
  rw [wpE_bind]
  cases persisted with
  | none =>
    exact loadLegacyKeyring_wpE hc (fun _ hi => hi.kv) (hboth none) hw (fun _ => stable_true _) (hrest none)
      fun _ _ _ _ _ _ => trivial
  | some p => exact hrest (some p) w hw

/-! ## Leases and loads -/

theorem keeps_releaseRotationLease (ownerToken : String) :
    Keeps (mild (versionProtocol R G)) (releaseRotationLease ownerToken) := by
  refine .d1 (version_clocked R G).mild fun w w' e hi hw' _ => ?_
  obtain ⟨h1, h2, h3⟩ := version_step (R := R) (G := G) w' hi (by rw [hw']) (by rw [hw']; rfl)
    (by rw [hw']; exact hi.kv) ⟨[], by rw [hw']; rfl⟩ (by rw [hw']; rfl)
  exact ⟨h1, h2, h3⟩

theorem keeps_of_mild {Γ : Protocol Input World} {α : Type} {p : App α} (h : Keeps (mild Γ) p) : Keeps Γ p :=
  fun w hi => wpE_of_mild (h w hi)

theorem acquireRotationLease_wpE {ownerToken : String} {now : Nat} {P : World → Prop}
    (hP : (versionProtocol R G).Stable P) (hw : P w) {Q : Bool → World → Prop} (hQ : ∀ acquired w, P w → KeyInv w → Q acquired w) :
    wpE (versionProtocol R G) (acquireRotationLease ownerToken now) Q (fun _ _ => True) w := by
  rw [acquireRotationLease, d1]
  refine wpE_d1Logged (version_clocked R G) hP hw ?_ fun _ _ _ => trivial
  intro w w' e hp hi hw' _
  have hsame : w'.db.operations.signingKeyState = w.db.operations.signingKeyState ∧ w'.kv = w.kv ∧ w'.log = w.log ∧
      w'.nowMs = w.nowMs := by
    rw [hw']
    refine ⟨?_, rfl, rfl, rfl⟩
    dsimp only
    split <;> rfl
  obtain ⟨hrow, hkv, hlog, hnow⟩ := hsame
  obtain ⟨h1, h2, h3⟩ := version_step (R := R) (G := G) _ hi hnow hrow (hkv.trans hi.kv) ⟨[], hlog⟩ (commits_of_log hlog)
  exact ⟨h1, h3, hQ _ w' (hP hp h2 h1) h1, trivial⟩

/-- A load keeps what is known, whatever it finds. -/
theorem loadPersistedKeyringLogged_keeps {missing : List Event} (hmissing : missing.filterMap commitOf = []) {P : World → Prop}
    (hP : (versionProtocol R G).Stable P) (hw : P w) :
    wpE (versionProtocol R G) (loadPersistedKeyringLogged missing) (fun _ => P) (fun _ _ => True) w := by
  refine loadPersistedKeyringLogged_wpE (version_clocked R G) (version_tolerant R G) hP hw (fun _ => hP) ?_
    fun _ _ _ _ _ _ => trivial
  intro w w' e hp hi hw' _
  have hcommits : commits w' = commits w := by
    rw [hw', commits, missingEvents]
    dsimp only
    split
    · rw [List.filterMap_append, hmissing]
      rfl
    · rfl
  obtain ⟨h1, h2, h3⟩ := version_step (R := R) (G := G) w' hi (by rw [hw']) (by rw [hw']) (by rw [hw']; exact hi.kv)
    ⟨missingEvents missing w, by rw [hw']⟩ hcommits
  exact ⟨h1, h3, hP hp h2 h1, fun _ => trivial, fun _ _ _ => trivial⟩

theorem keeps_awaitKeyring : ∀ attempts, Keeps (versionProtocol R G) (awaitKeyring attempts)
  | 0 => .throw _
  | attempts + 1 => by
    refine .bind (.of_quiet (version_clocked R G) (quiet_sleep 50)) fun _ => ?_
    refine .bind (fun w _ => loadPersistedKeyringLogged_keeps rfl (stable_true _) trivial) fun initialized => ?_
    split
    · exact .pure _
    · exact keeps_awaitKeyring attempts

/-! ## The calls -/

theorem rotateSigningKey_wpE {ownerToken : String} (hR : ¬ R pair.thumbprint) (hG : G pair.thumbprint)
    (hw : Ready pair rotatedAt w) :
    wpE (versionProtocol R G) (rotateSigningKey ownerToken pair rotatedAt) (fun _ _ => True) (fun _ _ => True) w := by
  have hready : (versionProtocol R G).Stable (Ready pair rotatedAt) := ready_stable hR
  rw [rotateSigningKey, wpE_bind]
  refine wpE_clock (version_clocked R G) hready hw fun w₁ hw₁ _ => ?_
  rw [wpE_bind]
  refine acquireRotationLease_wpE hready hw₁ fun acquired w hw hi => ?_
  rw [wpE_bind, wpE_require]
  refine ⟨fun _ => ?_, fun _ => trivial⟩
  rw [wpE_bind, wpE_withFinally]
  have hrelease : ∀ w, KeyInv w → wpE (versionProtocol R G) (releaseRotationLease ownerToken) (fun _ _ => True)
      (fun _ _ => True) w := keeps_of_mild (keeps_releaseRotationLease ownerToken)
  exact wpE_mono (fun _ w hi _ => hrelease w hi) (fun _ w hi _ => hrelease w hi) _ hi (rotatePersistedKeyring_wpE hR hG hw)

/-- The release of the lease beside the rotation that was only started: it gives birth to nothing. -/
def releaseProtocol (R G : String → Prop) : Protocol Input World :=
  ⟨KeyInv, fun _ _ => True, fun w w' => Goes R w w' ∧ Goes G w w', fun _ _ _ => True⟩

theorem release_clocked : Clocked (releaseProtocol R G) where
  ok := ⟨fun _ => trivial, fun _ _ => trivial⟩
  tickInv := (version_clocked R G).tickInv
  tickRely := fun _ _ => trivial
  tickGuar := fun w dt => ⟨.of_log (tick_nowMs w dt) rfl, .of_log (tick_nowMs w dt) rfl⟩
  tickAllow := fun _ _ => trivial
  guarTick := fun dt h => ⟨(version_clocked R R).guarTick dt h.1, (version_clocked R G).guarTick dt h.2⟩

theorem rotateStarted_wpE {ownerToken : String} (hR : ¬ R pair.thumbprint) (hG : G pair.thumbprint)
    (hw : ¬ Born pair.thumbprint w) :
    wpE (versionProtocol R G) (rotateStarted ownerToken pair) (fun _ _ => True) (fun _ _ => True) w := by
  have hc := version_clocked R G
  have hborn : (versionProtocol R G).Stable fun w => ¬ Born pair.thumbprint w := fun _ _ h hr _ hb => (hr.born _ hb).elim hR h
  have h₁ : Shares (versionProtocol R G) (versionProtocol R G) (releaseProtocol R G) :=
    ⟨hc.ok, rfl, rfl, id, id, fun h => h.1⟩
  have h₂ : Shares (versionProtocol R G) (releaseProtocol R G) (versionProtocol R G) :=
    ⟨release_clocked.ok, rfl, rfl, fun _ => trivial, fun h => h.2, fun _ => trivial⟩
  rw [rotateStarted, wpE_bind]
  refine wpE_clock hc hborn hw fun w hw hi => ?_
  refine wpE_imp (fun _ _ h => h) (fun _ _ _ => trivial) _ (startedFinally_wpE h₁ h₂ (fun _ => stable_true _)
    (fun _ => stable_true _) (fun _ => stable_true _) (rotatePersistedKeyring_wpE hR hG ⟨hw, le_rfl⟩) ?_)
  have hrelease : Keeps (releaseProtocol R G) (releaseRotationLease ownerToken) := .d1 release_clocked fun w w' e hi hw' _ =>
    (version_step (R := R) (G := G) w' hi (by rw [hw']) (by rw [hw']; rfl) (by rw [hw']; exact hi.kv)
      ⟨[], by rw [hw']; rfl⟩ (by rw [hw']; rfl)).imp_right fun h => h
  exact hrelease w hi

/-- Under the lease there is no copy in KV to move. -/
theorem loadUnderLease_wpE {ownerToken : String} {P : World → Prop} (hP : (versionProtocol R G).Stable P) (hw : P w) :
    wpE (versionProtocol R G) (loadUnderLease ownerToken) (fun found w => (∀ legacy, found ≠ .legacy legacy) ∧ P w)
      (fun _ _ => True) w := by
  rw [loadUnderLease, wpE_bind]
  refine wpE_imp (fun afterLease w hw => ?_) (fun _ _ _ => trivial) _
    (loadPersistedKeyringLogged_keeps (show [Event.keyringMissing ownerToken].filterMap commitOf = [] from rfl) hP hw)
  split
  · exact ⟨nofun, hw⟩
  · exact ⟨nofun, hw⟩
  · rw [wpE_bind]
    exact loadLegacyKeyring_wpE (version_clocked R G) (fun _ hi => hi.kv) hP hw (fun _ => stable_true _)
      (fun w hp => ⟨nofun, hp⟩) fun _ _ _ _ _ _ => trivial

theorem initializeKeyring_wpE {ownerToken : String} (hR : ¬ R pair.thumbprint) (hG : G pair.thumbprint)
    (hw : ¬ Born pair.thumbprint w) (hi : KeyInv w) :
    wpE (versionProtocol R G) (initializeKeyring ownerToken pair) (fun _ _ => True) (fun _ _ => True) w := by
  have hborn : (versionProtocol R G).Stable fun w => ¬ Born pair.thumbprint w := fun _ _ h hr _ hb => (hr.born _ hb).elim hR h
  have hrelease : Keeps (versionProtocol R G) (releaseRotationLease ownerToken) :=
    keeps_of_mild (keeps_releaseRotationLease ownerToken)
  rw [initializeKeyring, wpE_bind, wpE_settled]
  refine wpE_mono (fun found w hi hfound => ?_) (fun x w hi _ => ?_) _ hi (loadUnderLease_wpE hborn hw)
  · cases found with
    | stored keyring => exact keeps_withFinally (.pure keyring) hrelease w hi
    | legacy keyring => exact absurd rfl (hfound.1 keyring)
    | nothing => exact rotateStarted_wpE hR hG hfound.2
  · exact keeps_withFinally (.throw x) hrelease w hi

theorem loadOrInitializeKeyring_wpE {ownerToken : String} (hR : ¬ R pair.thumbprint) (hG : G pair.thumbprint)
    (hw : ¬ Born pair.thumbprint w) :
    wpE (versionProtocol R G) (loadOrInitializeKeyring ownerToken pair) (fun _ _ => True) (fun _ _ => True) w := by
  have hborn : (versionProtocol R G).Stable fun w => ¬ Born pair.thumbprint w := fun _ _ h hr _ hb => (hr.born _ hb).elim hR h
  rw [loadOrInitializeKeyring, wpE_bind]
  refine wpE_imp (fun current w hw => ?_) (fun _ _ _ => trivial) _ (loadPersistedKeyringLogged_keeps rfl hborn hw)
  split
  · trivial
  · rw [wpE_bind]
    refine wpE_clock (version_clocked R G) hborn hw fun w₁ hw₁ _ => ?_
    rw [wpE_bind]
    refine acquireRotationLease_wpE hborn hw₁ fun acquired w hw hi => ?_
    rw [wpE_ite]
    exact ⟨fun _ => initializeKeyring_wpE hR hG hw hi, fun _ => keeps_awaitKeyring 40 w hi⟩

theorem keeps_assertLegacySigningKeyCleanupComplete : Keeps (versionProtocol R G) assertLegacySigningKeyCleanupComplete := by
  have hc := version_clocked R G
  have ht := version_tolerant R G
  refine .bind (.select hc _) fun state => ?_
  refine .bind (.of_quiet hc quiet_readLegacyKvCopies) fun copies => ?_
  refine .ite (.pure _) (.bind (.require _ _) fun _ => .bind (fun w _ => ?_) fun _ => ?_)
  · exact markLegacyKvCleanupPending_wpE hc ht (stable_true _) trivial (fun _ _ _ => trivial) fun _ _ _ => trivial
  · exact keeps_of_mild (keeps_removeLegacyKvKeyring hc ht)

end

/-! ## Every run -/

theorem keyCall_wpE {c : KeyCall} {w : World} (hi : KeyInv w)
    (hfresh : ∀ kid, c.thumbprint = some kid → ¬ Born kid w)
    (hdate : ∀ ownerToken pair rotatedAt, c = .rotate ownerToken pair rotatedAt → rotatedAt ≤ w.nowSeconds) :
    wpE (versionOutline.protocol c) c.code (fun _ _ => True) (fun _ _ => True) w := by
  cases c with
  | rotate ownerToken pair rotatedAt =>
    rw [KeyCall.code, map_eq_pure_bind, wpE_bind]
    exact wpE_imp (fun _ _ _ => trivial) (fun _ _ _ => trivial) _
      (rotateSigningKey_wpE (not_not.2 rfl) rfl ⟨hfresh _ rfl, hdate _ _ _ rfl⟩)
  | load ownerToken pair =>
    rw [KeyCall.code, map_eq_pure_bind, wpE_bind]
    exact wpE_imp (fun _ _ _ => trivial) (fun _ _ _ => trivial) _
      (loadOrInitializeKeyring_wpE (not_not.2 rfl) rfl (hfresh _ rfl))
  | assertCleanup =>
    rw [KeyCall.code, wpE_bind]
    exact wpE_imp (fun _ _ _ => trivial) (fun _ _ _ => trivial) _ (keeps_assertLegacySigningKeyCleanupComplete w hi)

theorem version_valid : versionOutline.Valid where
  symm := fun {c d} h kid hd hc => h kid hc hd
  besideSymm := fun _ => trivial
  arrives := fun {P c} h t ht => ⟨fun kid htk hck => h.1 kid hck t ht htk, fun _ => trivial⟩
  traceArrives := fun h kid hk => by
    obtain ⟨d, hd, hdk⟩ := h kid hk
    exact ⟨d, List.mem_append_left _ hd, hdk⟩
  traceStep := fun {cs c w w'} hc h hg kid hk => by
    rcases hg.born kid hk with hE | hk
    · exact ⟨c, hc, hE⟩
    · exact h kid hk
  ok := fun c => (version_clocked _ _).ok
  compat := fun {c d w w'} ha _ _ hg => hg.imp fun kid hk => ha kid hk
  stable := fun _ _ => stable_true _
  settled := fun _ _ _ _ _ => trivial
  safe := fun {P c} harrive hP => by
    refine wp_of_wpE (wpE_imp (fun _ _ _ => trivial) (fun _ _ _ => trivial) _ (keyCall_wpE hP.inv ?_ harrive.2))
    intro kid hk hborn
    obtain ⟨d, hd, hdk⟩ := hP.trace kid hborn
    obtain ⟨t, ht, rfl⟩ := List.mem_map.1 hd
    exact harrive.1 kid hk t ht hdk

/-- In every run, from a deployment without keys, of rotations and first uses in any order, each storage
call of which may fail: every committed keyring is sound; each is made from the one before it, and a
key that becomes active has been pending for the propagation window; the newest is what is stored; and
a key that has been active is published until its grace period is over. -/
theorem keyring_versions {w : World} (hrow : w.db.operations.signingKeyState = none) (hkv : w.kv = .empty)
    (hlog : commits w = []) {P : Pool KeyCall Input World (Except Failure KeyAnswer)}
    (h : versionSystem.Reach ⟨w, []⟩ P) :
    (∀ c ∈ commits P.store, Sound c.keyring) ∧ Lineage (commits P.store) ∧
      (P.store.db.operations.signingKeyState.map fun r => (r.version, r.keyring)) =
        ((commits P.store).head?.map fun c => (c.version, c.keyring)) ∧
      ∀ row, P.store.db.operations.signingKeyState = some row → ∀ c ∈ commits P.store, ∀ now, P.store.nowSeconds ≤ now →
        c.keyring.activeKid ∈ (publishedKeys row.keyring now).map (·.kid) ∨
          ∃ d ∈ commits P.store, Outlived d.keyring c.keyring.activeKid now := by
  have hstart : KeyInv w :=
    { kv := hkv, row := by rw [hrow, hlog]; rfl, lineage := by rw [hlog]; exact .nil,
      sound := by rw [hlog]; exact fun _ hc => absurd hc List.not_mem_nil
      kept := fun row hr => by rw [hrow] at hr; cases hr }
  have hborn : ∀ kid, Born kid w → ∃ c ∈ ([] : List KeyCall), c.thumbprint = some kid := by
    rintro kid ⟨c, hc, -⟩
    rw [hlog] at hc
    cases hc
  have hi : KeyInv P.store := (version_valid.reach (Outline.holds_start (O := versionOutline) hstart hborn) h).inv
  refine ⟨hi.sound, hi.lineage, hi.row, fun row hr c hc now hnow => ?_⟩
  obtain ⟨d, rest, hl, -, hkeyring⟩ := hi.newest hr
  have hmem : d ∈ commits P.store := hl ▸ List.mem_cons_self
  rcases hi.kept row hr c hc with hkept | ⟨e, he, hout⟩
  · have hpublished : c.keyring.activeKid ∈ (publishedKeys row.keyring now).map (·.kid) ∨ _ :=
      published_or_outlived (hkeyring ▸ hi.sound d hmem) hkept
    rcases hpublished with hp | hout
    · exact Or.inl hp
    · exact Or.inr ⟨d, hmem, hkeyring ▸ hout⟩
  · exact Or.inr ⟨e, he, hout.mono hnow⟩

/-- The first rotation makes a keyring, the second stages a key, and the third, two minutes later, activates it. -/
def bootSchedule : List (System.Move KeyCall Input) :=
  List.flatten [[.arrive (.rotate "owner_a" ⟨"kid_a", "private a", "parameters a"⟩ 1000)], List.replicate 9 (.run 0 Deployment.ok),
    [.arrive (.rotate "owner_b" ⟨"kid_b", "private b", "parameters b"⟩ 1005)], List.replicate 5 (.run 1 Deployment.ok),
    [.run 1 { Deployment.ok with dt := 121000 }],
    [.arrive (.rotate "owner_c" ⟨"kid_c", "private c", "parameters c"⟩ 1130)], List.replicate 9 (.run 2 Deployment.ok)]

def booted : Pool KeyCall Input World (Except Failure KeyAnswer) :=
  versionSystem.moves ⟨Deployment.world, []⟩ bootSchedule

theorem arriveDistinct_rotate {P : Pool KeyCall Input World (Except Failure KeyAnswer)} {ownerToken : String} {pair : KeyPair}
    {rotatedAt : Nat} (hfresh : ∀ c ∈ P.threads.map Prod.fst, c.thumbprint ≠ some pair.thumbprint)
    (hnow : rotatedAt ≤ P.store.nowSeconds) : arriveDistinct P (.rotate ownerToken pair rotatedAt) := by
  refine ⟨fun kid hkid t ht => ?_, fun _ _ _ he => ?_⟩
  · cases hkid
    exact hfresh t.1 (List.mem_map_of_mem ht)
  · cases he
    exact hnow

theorem not_outlived_of_test {keyring : StoredKeyring} {now : Nat}
    (h : (keyring.keys.all fun key => key.retiredAt.all fun retiredAt => now < retiredAt + RETIRED_GRACE_SECONDS) = true)
    (kid : String) : ¬Outlived keyring kid now := by
  rintro ⟨key, hkey, -, retiredAt, hretired, hle⟩
  have hgrace := List.all_eq_true.1 h key hkey
  rw [hretired, Option.all_some, decide_eq_true_eq] at hgrace
  exact absurd hgrace (Nat.not_lt.2 hle)

/-- The key that was active first is still published beside the one that replaced it. -/
theorem keyring_versions_booted :
    (commits booted.store).map (fun c => (c.version, c.keyring.activeKid)) = [(3, "kid_b"), (2, "kid_a"), (1, "kid_a")] ∧
      (∀ c ∈ commits booted.store, Sound c.keyring) ∧ Lineage (commits booted.store) ∧
      booted.store.db.operations.signingKeyState.map (·.version) = some 3 ∧
      ∀ row, booted.store.db.operations.signingKeyState = some row →
        "kid_a" ∈ (publishedKeys row.keyring booted.store.nowSeconds).map (·.kid) := by
  have harrives : versionSystem.Arrives ⟨Deployment.world, []⟩ bootSchedule := by
    refine ⟨arriveDistinct_rotate ?_ ?_, arriveDistinct_rotate ?_ ?_, arriveDistinct_rotate ?_ ?_, trivial⟩
    all_goals decide +kernel
  have hreach : versionSystem.Reach ⟨Deployment.world, []⟩ booted :=
    System.reach_moves _ (System.allows_of_arrives (fun _ _ => true) (fun _ _ _ _ => trivial) _ harrives (by decide +kernel))
  obtain ⟨hsound, hlineage, hrow, hpublished⟩ := keyring_versions rfl rfl rfl hreach
  have hcommits : (commits booted.store).map (fun c => (c.version, c.keyring.activeKid)) =
      [(3, "kid_b"), (2, "kid_a"), (1, "kid_a")] := by decide +kernel
  have hversion : booted.store.db.operations.signingKeyState.map (·.version) = some 3 := by decide +kernel
  refine ⟨hcommits, hsound, hlineage, hversion, fun row hstored => ?_⟩
  have hfirst : (1, "kid_a") ∈ (commits booted.store).map fun c => (c.version, c.keyring.activeKid) := by
    rw [hcommits]
    decide
  obtain ⟨c, hc, hactive⟩ := List.mem_map.1 hfirst
  rw [← (Prod.mk.inj hactive).2]
  rcases hpublished row hstored c hc booted.store.nowSeconds le_rfl with hkid | ⟨d, hd, hout⟩
  · exact hkid
  · have hgrace : ((commits booted.store).all fun d => d.keyring.keys.all fun key => key.retiredAt.all fun retiredAt =>
        booted.store.nowSeconds < retiredAt + RETIRED_GRACE_SECONDS) = true := by decide +kernel
    exact absurd hout (not_outlived_of_test (List.all_eq_true.1 hgrace d hd) _)

end Keyforge.Keys
