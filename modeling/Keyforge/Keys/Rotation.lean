/-
What a rotation makes of a sound keyring: another sound keyring, in which every key that has been
active is still active, or retired, or past its grace period; and a key that becomes active has been
published for the propagation window.
-/
import Keyforge.Tokens.Keyring
import Mathlib.Data.List.Nodup
import Mathlib.Tactic

namespace Keyforge.Keys

open Tokens

/-! ## Sound keyrings -/

/-- One unretired key is active and holds private material, the unretired keys are this one and the
pending one, retired keys hold no private material, and no two keys share a kid. -/
structure Sound (keyring : StoredKeyring) : Prop where
  nodup : (keyring.keys.map (·.kid)).Nodup
  active : ∃ key ∈ keyring.keys, key.kid = keyring.activeKid ∧ key.retiredAt = none ∧ key.privateJwk.isSome
  pending : ∀ kid, keyring.pendingKid = some kid → kid ≠ keyring.activeKid ∧
    ∃ key ∈ keyring.keys, key.kid = kid ∧ key.retiredAt = none
  unretired : ∀ key ∈ keyring.keys, key.retiredAt = none → key.kid = keyring.activeKid ∨ some key.kid = keyring.pendingKid
  retired : ∀ key ∈ keyring.keys, key.retiredAt ≠ none → key.privateJwk = none

/-- The keyring holds a key with this kid. -/
def Holds (keyring : StoredKeyring) (kid : String) : Prop :=
  ∃ key ∈ keyring.keys, key.kid = kid

/-- The key `kid` has retired in this keyring, and its grace period is over at `now`. -/
def Outlived (keyring : StoredKeyring) (kid : String) (now : Nat) : Prop :=
  ∃ key ∈ keyring.keys, key.kid = kid ∧ ∃ retiredAt, key.retiredAt = some retiredAt ∧
    retiredAt + RETIRED_GRACE_SECONDS ≤ now

/-- The key `kid` has retired in this keyring. -/
def Retired (keyring : StoredKeyring) (kid : String) : Prop :=
  ∃ key ∈ keyring.keys, key.kid = kid ∧ key.retiredAt ≠ none

/-- The key `kid` retired at this second. -/
def RetiredAt (keyring : StoredKeyring) (kid : String) (retiredAt : Nat) : Prop :=
  ∃ key ∈ keyring.keys, key.kid = kid ∧ key.retiredAt = some retiredAt

section

variable {current next : StoredKeyring} {pair : KeyPair} {rotatedAt now : Nat}

theorem Retired.at {kid : String} (h : Retired current kid) : ∃ retiredAt, RetiredAt current kid retiredAt := by
  obtain ⟨key, hkey, hkid, hr⟩ := h
  obtain ⟨retiredAt, hretired⟩ := Option.ne_none_iff_exists'.1 hr
  exact ⟨retiredAt, key, hkey, hkid, hretired⟩

theorem RetiredAt.retired {kid : String} {retiredAt : Nat} (h : RetiredAt current kid retiredAt) : Retired current kid := by
  obtain ⟨key, hkey, hkid, hr⟩ := h
  exact ⟨key, hkey, hkid, by rw [hr]; nofun⟩

theorem RetiredAt.outlived {kid : String} {retiredAt : Nat} (h : RetiredAt current kid retiredAt)
    (hnow : retiredAt + RETIRED_GRACE_SECONDS ≤ now) : Outlived current kid now := by
  obtain ⟨key, hkey, hkid, hr⟩ := h
  exact ⟨key, hkey, hkid, retiredAt, hr, hnow⟩

theorem Sound.usable (h : Sound current) : hasUsableActiveKey current = true := by
  obtain ⟨key, hkey, hkid, hretired, hprivate⟩ := h.active
  refine List.any_eq_true.2 ⟨key, hkey, ?_⟩
  simp [hkid, hretired, hprivate]

/-- Two keys of a sound keyring with one kid are the same. -/
theorem Sound.key_eq (h : Sound current) {a b : StoredSigningKey} (ha : a ∈ current.keys) (hb : b ∈ current.keys)
    (hkid : a.kid = b.kid) : a = b :=
  List.inj_on_of_nodup_map h.nodup ha hb hkid

@[simp] theorem publicOnly_kid (key : StoredSigningKey) : (publicOnly key).kid = key.kid := rfl
@[simp] theorem publicOnly_retiredAt (key : StoredSigningKey) : (publicOnly key).retiredAt = key.retiredAt := rfl
@[simp] theorem publicOnly_privateJwk (key : StoredSigningKey) : (publicOnly key).privateJwk = none := rfl

theorem mem_retain {keys : List StoredSigningKey} {key : StoredSigningKey} :
    key ∈ retain rotatedAt keys ↔ key ∈ keys ∧ (key.retiredAt = none ∨ withinGrace rotatedAt key = true) := by
  simp [retain]

/-- A retired key that the filter drops is past its grace period. -/
theorem not_withinGrace {key : StoredSigningKey} {retiredAt : Nat} (hr : key.retiredAt = some retiredAt)
    (h : withinGrace now key = false) : retiredAt + RETIRED_GRACE_SECONDS ≤ now := by
  have hgrace : 0 < RETIRED_GRACE_SECONDS := by decide
  simp only [withinGrace, hr, Option.any_some, decide_eq_false_iff_not] at h
  omega

/-! ## First boot -/

theorem sound_initialKeyring (pair : KeyPair) (rotatedAt : Nat) : Sound (initialKeyring pair rotatedAt) where
  nodup := List.nodup_singleton _
  active := ⟨_, List.mem_singleton_self _, rfl, rfl, rfl⟩
  pending := fun _ h => nomatch h
  unretired := fun key hkey _ => Or.inl (by rw [List.mem_singleton.1 hkey]; rfl)
  retired := fun key hkey hr => absurd (by rw [List.mem_singleton.1 hkey]; rfl) hr

theorem holds_initialKeyring {kid : String} (h : Holds (initialKeyring pair rotatedAt) kid) : kid = pair.thumbprint := by
  obtain ⟨key, hkey, rfl⟩ := h
  rw [List.mem_singleton.1 hkey]
  rfl

/-! ## Phase 1 -/

/-- The keys that stay when a key is staged. -/
theorem mem_staged {key : StoredSigningKey} (h : key ∈ (stageKeyring current pair rotatedAt).keys) :
    key = generateStoredKey pair rotatedAt ∨ ∃ old ∈ current.keys, key.kid = old.kid ∧ key.retiredAt = old.retiredAt ∧
      key.privateJwk = if old.retiredAt.isNone then old.privateJwk else none := by
  rcases List.mem_cons.1 h with rfl | h
  · exact Or.inl rfl
  · obtain ⟨hmem, -⟩ := mem_retain.1 h
    obtain ⟨old, hold, rfl⟩ := List.mem_map.1 hmem
    refine Or.inr ⟨old, hold, ?_⟩
    split <;> simp

/-- An unretired key stays as it is. -/
theorem mem_stage_of_unretired {key : StoredSigningKey} (h : key ∈ current.keys) (hr : key.retiredAt = none) :
    key ∈ (stageKeyring current pair rotatedAt).keys := by
  refine List.mem_cons_of_mem _ (mem_retain.2 ⟨List.mem_map.2 ⟨key, h, ?_⟩, Or.inl hr⟩)
  simp [hr]

theorem sound_stageKeyring (h : Sound current) (hpending : current.pendingKid = none)
    (hfresh : ¬ Holds current pair.thumbprint) : Sound (stageKeyring current pair rotatedAt) where
  nodup := by
    refine List.nodup_cons.2 ⟨fun hmem => ?_, ?_⟩
    · obtain ⟨key, hkey, hkid⟩ := List.mem_map.1 hmem
      obtain ⟨old, hold, rfl⟩ := List.mem_map.1 (mem_retain.1 hkey).1
      -- no key kept has the new thumbprint
      refine hfresh ⟨old, hold, ?_⟩
      rw [apply_ite StoredSigningKey.kid, publicOnly_kid, ite_self] at hkid
      exact hkid
    · refine (List.filter_sublist.map _).nodup ?_
      rw [List.map_map]
      -- dropping the private part keeps the kid
      have hkid : (StoredSigningKey.kid ∘ fun key => if key.retiredAt.isNone then key else publicOnly key) =
          StoredSigningKey.kid := by
        funext key
        simp only [Function.comp]
        split <;> rfl
      rw [hkid]
      exact h.nodup
  active := by
    obtain ⟨key, hkey, hkid, hretired, hprivate⟩ := h.active
    exact ⟨key, mem_stage_of_unretired hkey hretired, hkid, hretired, hprivate⟩
  pending := by
    intro kid hkid
    cases hkid
    refine ⟨fun he => ?_, _, List.mem_cons_self, rfl, rfl⟩
    obtain ⟨key, hkey, hkid, -⟩ := h.active
    exact hfresh ⟨key, hkey, hkid.trans he.symm⟩
  unretired := by
    intro key hkey hr
    rcases mem_staged hkey with rfl | ⟨old, hold, hkid, hretired, -⟩
    · exact Or.inr rfl
    · rcases h.unretired old hold (hretired ▸ hr) with ha | hp
      · exact Or.inl (hkid.trans ha)
      · rw [hpending] at hp
        cases hp
  retired := by
    intro key hkey hr
    rcases mem_staged hkey with rfl | ⟨old, hold, -, hretired, hprivate⟩
    · exact absurd rfl hr
    · rw [hretired] at hr
      rw [hprivate, if_neg]
      simpa [Option.isNone_iff_eq_none] using hr

theorem holds_stageKeyring {kid : String} (h : Holds (stageKeyring current pair rotatedAt) kid) :
    kid = pair.thumbprint ∨ Holds current kid := by
  obtain ⟨key, hkey, rfl⟩ := h
  rcases mem_staged hkey with rfl | ⟨old, hold, hkid, -⟩
  · exact Or.inl rfl
  · exact Or.inr ⟨old, hold, hkid.symm⟩

theorem retiredAt_stageKeyring {kid : String} {retiredAt : Nat} (h : RetiredAt current kid retiredAt) :
    RetiredAt (stageKeyring current pair rotatedAt) kid retiredAt ∨ retiredAt + RETIRED_GRACE_SECONDS ≤ rotatedAt := by
  obtain ⟨key, hkey, hkid, hretired⟩ := h
  cases hgrace : withinGrace rotatedAt key with
  | true =>
    refine Or.inl ⟨publicOnly key, List.mem_cons_of_mem _ (mem_retain.2 ⟨List.mem_map.2 ⟨key, hkey, ?_⟩, Or.inr hgrace⟩),
      hkid, hretired⟩
    simp [hretired]
  | false => exact Or.inr (not_withinGrace hretired hgrace)

/-! ## Phase 2 -/

variable {pendingKid : String}

@[simp] theorem activateKey_kid (activeKid pendingKid : String) (rotatedAt : Nat) (key : StoredSigningKey) :
    (activateKey activeKid pendingKid rotatedAt key).kid = key.kid := by
  unfold activateKey
  split
  · rfl
  · split
    · rfl
    · split <;> rfl

theorem mem_activated {key : StoredSigningKey} (h : key ∈ (activateKeyring current pendingKid rotatedAt).keys) :
    ∃ old ∈ current.keys, key = activateKey current.activeKid pendingKid rotatedAt old := by
  obtain ⟨hmem, -⟩ := mem_retain.1 h
  obtain ⟨old, hold, rfl⟩ := List.mem_map.1 hmem
  exact ⟨old, hold, rfl⟩

theorem mem_activate {key : StoredSigningKey} (h : key ∈ current.keys)
    (hr : (activateKey current.activeKid pendingKid rotatedAt key).retiredAt = none ∨
      withinGrace rotatedAt (activateKey current.activeKid pendingKid rotatedAt key) = true) :
    activateKey current.activeKid pendingKid rotatedAt key ∈ (activateKeyring current pendingKid rotatedAt).keys :=
  mem_retain.2 ⟨List.mem_map.2 ⟨key, h, rfl⟩, hr⟩

/-- The old active key retires at the rotation. -/
theorem retiredAt_activateKeyring_active (h : Sound current) :
    RetiredAt (activateKeyring current pendingKid rotatedAt) current.activeKid rotatedAt := by
  obtain ⟨key, hkey, hkid, -, -⟩ := h.active
  have hact : activateKey current.activeKid pendingKid rotatedAt key = { publicOnly key with retiredAt := some rotatedAt } :=
    if_pos hkid
  refine ⟨_, mem_activate hkey (Or.inr ?_), (activateKey_kid _ _ _ _).trans hkid, ?_⟩
  · rw [hact]
    simp only [withinGrace, Option.any_some, Nat.sub_self]
    decide
  · rw [hact]

theorem retiredAt_activateKeyring {kid : String} {retiredAt : Nat} (h : Sound current)
    (hpending : current.pendingKid = some pendingKid) (hretired : RetiredAt current kid retiredAt) :
    RetiredAt (activateKeyring current pendingKid rotatedAt) kid retiredAt ∨ retiredAt + RETIRED_GRACE_SECONDS ≤ rotatedAt := by
  obtain ⟨key, hkey, rfl, hat⟩ := hretired
  have hactive : key.kid ≠ current.activeKid := by
    intro he
    obtain ⟨a, ha, hkid, hnone, -⟩ := h.active
    rw [h.key_eq hkey ha (he.trans hkid.symm), hnone] at hat
    cases hat
  have hother : key.kid ≠ pendingKid := by
    intro he
    obtain ⟨-, p, hp, hkid, hnone⟩ := h.pending pendingKid hpending
    rw [h.key_eq hkey hp (he.trans hkid.symm), hnone] at hat
    cases hat
  have hact : activateKey current.activeKid pendingKid rotatedAt key = publicOnly key := by
    simp [activateKey, hactive, hother, hat]
  cases hgrace : withinGrace rotatedAt key with
  | true =>
    refine Or.inl ⟨_, mem_activate hkey (Or.inr ?_), activateKey_kid _ _ _ _, ?_⟩
    · rw [hact]
      exact hgrace
    · rw [hact]
      exact hat
  | false => exact Or.inr (not_withinGrace hat hgrace)

theorem sound_activateKeyring (h : Sound current) (hpending : current.pendingKid = some pendingKid)
    (hprivate : ∃ key ∈ current.keys, key.kid = pendingKid ∧ key.retiredAt = none ∧ key.privateJwk.isSome) :
    Sound (activateKeyring current pendingKid rotatedAt) where
  nodup := by
    refine (List.filter_sublist.map _).nodup ?_
    rw [List.map_map]
    have hkid : StoredSigningKey.kid ∘ activateKey current.activeKid pendingKid rotatedAt = StoredSigningKey.kid :=
      funext fun key => activateKey_kid _ _ _ key
    rw [hkid]
    exact h.nodup
  active := by
    obtain ⟨key, hkey, hkid, hretired, hsome⟩ := hprivate
    have hne : key.kid ≠ current.activeKid := hkid ▸ (h.pending pendingKid hpending).1
    have hact : activateKey current.activeKid pendingKid rotatedAt key = { key with retiredAt := none } := by
      unfold activateKey
      rw [if_neg hne, if_pos hkid]
    refine ⟨_, mem_activate hkey (Or.inl ?_), (activateKey_kid _ _ _ _).trans hkid, ?_, ?_⟩
    · rw [hact]
    · rw [hact]
    · rw [hact]
      exact hsome
  pending := fun _ hkid => nomatch hkid
  unretired := by
    intro key hkey hr
    obtain ⟨old, hold, rfl⟩ := mem_activated hkey
    refine Or.inl ?_
    unfold activateKey at hr ⊢
    split at hr
    · cases hr
    · rename_i hactive
      rw [if_neg hactive]
      split at hr
      · rename_i hp
        rw [if_pos hp]
        exact hp
      · rename_i hp
        -- an unretired key is the active or the pending one
        have hnone : old.retiredAt = none := by
          split at hr <;> exact hr
        rcases h.unretired old hold hnone with ha | hpend
        · exact absurd ha hactive
        · rw [hpending, Option.some.injEq] at hpend
          exact absurd hpend hp
  retired := by
    intro key hkey hr
    obtain ⟨old, hold, rfl⟩ := mem_activated hkey
    unfold activateKey at hr ⊢
    split at hr
    · rename_i hactive
      rw [if_pos hactive]
      rfl
    · rename_i hactive
      rw [if_neg hactive]
      split at hr
      · exact absurd rfl hr
      · rename_i hp
        rw [if_neg hp]
        split at hr
        · rename_i hnone
          exact absurd (Option.isNone_iff_eq_none.1 hnone) hr
        · rename_i hsome
          rw [if_neg hsome]
          rfl

theorem holds_activateKeyring {kid : String} (h : Holds (activateKeyring current pendingKid rotatedAt) kid) :
    Holds current kid := by
  obtain ⟨key, hkey, rfl⟩ := h
  obtain ⟨old, hold, rfl⟩ := mem_activated hkey
  exact ⟨old, hold, (activateKey_kid _ _ _ _).symm⟩

theorem Outlived.mono {kid : String} {later : Nat} (h : Outlived current kid now) (hle : now ≤ later) :
    Outlived current kid later := by
  obtain ⟨key, hkey, hkid, retiredAt, hr, hnow⟩ := h
  exact ⟨key, hkey, hkid, retiredAt, hr, hnow.trans hle⟩

/-! ## One rotation -/

/-- How one keyring comes from another: a key becomes active only after it has been pending for the
propagation window. -/
structure Succeeds (current : StoredKeyring) (rotatedAt : Nat) (next : StoredKeyring) : Prop where
  rotated : ∃ pair, rotation (some current) pair rotatedAt = .next next
  activated : next.activeKid ≠ current.activeKid → current.pendingKid = some next.activeKid ∧
    ∃ pendingSince, current.pendingSince = some pendingSince ∧ pendingSince + JWKS_PROPAGATION_SECONDS ≤ rotatedAt

/-- The two phases. -/
theorem rotation_cases (h : rotation (some current) pair rotatedAt = .next next) :
    (current.pendingKid = none ∧ next = stageKeyring current pair rotatedAt) ∨
      ∃ pendingKid pendingSince, current.pendingKid = some pendingKid ∧ current.pendingSince = some pendingSince ∧
        pendingSince + JWKS_PROPAGATION_SECONDS ≤ rotatedAt ∧ next = activateKeyring current pendingKid rotatedAt ∧
        ∃ key ∈ current.keys, key.kid = pendingKid ∧ key.retiredAt = none ∧ key.privateJwk.isSome := by
  unfold Tokens.rotation at h
  dsimp only at h
  split at h
  · rename_i hpending
    cases h
    exact Or.inl ⟨hpending, rfl⟩
  · rename_i pendingKid hpending
    split at h
    · cases h
    · rename_i pendingSince hsince
      split at h
      · cases h
      · rename_i hlate
        split at h
        · cases h
        · rename_i key hfind
          have hkey := List.mem_of_find?_eq_some hfind
          have htest := List.find?_some hfind
          simp only [Bool.and_eq_true, decide_eq_true_eq, Option.isNone_iff_eq_none] at htest
          obtain ⟨⟨hkid, hretired⟩, hprivate⟩ := htest
          cases h
          have hpos : 0 < JWKS_PROPAGATION_SECONDS := by decide
          exact Or.inr ⟨pendingKid, pendingSince, hpending, hsince, by omega, by rw [hkid],
            key, hkey, hkid, hretired, hprivate⟩

theorem rotation_none (h : rotation none pair rotatedAt = .next next) : next = initialKeyring pair rotatedAt := by
  cases h
  rfl

theorem succeeds_of_rotation (h : rotation (some current) pair rotatedAt = .next next) : Succeeds current rotatedAt next := by
  refine ⟨⟨pair, h⟩, fun hne => ?_⟩
  rcases rotation_cases h with ⟨-, rfl⟩ | ⟨pendingKid, pendingSince, hpending, hsince, hlate, rfl, -⟩
  · exact absurd rfl hne
  · exact ⟨hpending, pendingSince, hsince, hlate⟩

theorem sound_rotation (hs : Sound current) (hfresh : ¬ Holds current pair.thumbprint)
    (h : rotation (some current) pair rotatedAt = .next next) : Sound next := by
  rcases rotation_cases h with ⟨hpending, rfl⟩ | ⟨pendingKid, pendingSince, hpending, -, -, rfl, hprivate⟩
  · exact sound_stageKeyring hs hpending hfresh
  · exact sound_activateKeyring hs hpending hprivate

theorem holds_rotation {kid : String} (h : rotation (some current) pair rotatedAt = .next next) (hk : Holds next kid) :
    kid = pair.thumbprint ∨ Holds current kid := by
  rcases rotation_cases h with ⟨-, rfl⟩ | ⟨pendingKid, pendingSince, -, -, -, rfl, -⟩
  · exact holds_stageKeyring hk
  · exact Or.inr (holds_activateKeyring hk)

/-- The active key stays active or retires at the rotation. -/
theorem active_rotation (hs : Sound current) (h : rotation (some current) pair rotatedAt = .next next) :
    next.activeKid = current.activeKid ∨ RetiredAt next current.activeKid rotatedAt := by
  rcases rotation_cases h with ⟨-, rfl⟩ | ⟨pendingKid, pendingSince, -, -, -, rfl, -⟩
  · exact Or.inl rfl
  · exact Or.inr (retiredAt_activateKeyring_active hs)

/-- A retired key stays, unless its grace period is over. -/
theorem retiredAt_rotation {kid : String} {retiredAt : Nat} (hs : Sound current)
    (h : rotation (some current) pair rotatedAt = .next next) (hk : RetiredAt current kid retiredAt) :
    RetiredAt next kid retiredAt ∨ retiredAt + RETIRED_GRACE_SECONDS ≤ rotatedAt := by
  rcases rotation_cases h with ⟨-, rfl⟩ | ⟨pendingKid, pendingSince, hpending, -, -, rfl, -⟩
  · exact retiredAt_stageKeyring hk
  · exact retiredAt_activateKeyring hs hpending hk

/-- A key that is or was active stays so, unless its grace period is over. -/
theorem kept_rotation {kid : String} (hs : Sound current) (h : rotation (some current) pair rotatedAt = .next next)
    (hk : current.activeKid = kid ∨ Retired current kid) :
    next.activeKid = kid ∨ Retired next kid ∨ Outlived current kid rotatedAt := by
  rcases hk with rfl | hk
  · exact (active_rotation hs h).imp_right fun h => Or.inl h.retired
  · obtain ⟨retiredAt, hat⟩ := hk.at
    rcases retiredAt_rotation hs h hat with h | h
    · exact Or.inr (Or.inl h.retired)
    · exact Or.inr (Or.inr (hat.outlived h))

/-- The active key and the pending one are published. -/
theorem Sound.published (hs : Sound current) {kid : String} (hk : current.activeKid = kid ∨ current.pendingKid = some kid) :
    kid ∈ (publishedKeys current now).map (·.kid) := by
  rcases hk with rfl | hk
  · obtain ⟨key, hkey, hkid, -⟩ := hs.active
    exact List.mem_map.2 ⟨key, List.mem_filter.2 ⟨hkey, by simp [hkid]⟩, hkid⟩
  · obtain ⟨-, key, hkey, hkid, -⟩ := hs.pending kid hk
    exact List.mem_map.2 ⟨key, List.mem_filter.2 ⟨hkey, by simp [hkid, hk]⟩, hkid⟩

/-- A retired key is published until its grace period is over. -/
theorem RetiredAt.published {kid : String} {retiredAt : Nat} (h : RetiredAt current kid retiredAt) :
    kid ∈ (publishedKeys current now).map (·.kid) ∨ retiredAt + RETIRED_GRACE_SECONDS ≤ now := by
  obtain ⟨key, hkey, hkid, hretired⟩ := h
  cases hgrace : withinGrace now key with
  | true => exact Or.inl (List.mem_map.2 ⟨key, List.mem_filter.2 ⟨hkey, by simp [hgrace]⟩, hkid⟩)
  | false => exact Or.inr (not_withinGrace hretired hgrace)

/-- A key that is active, or retired within its grace period, is published. -/
theorem published_or_outlived {kid : String} (hs : Sound current) (hk : current.activeKid = kid ∨ Retired current kid) :
    kid ∈ (publishedKeys current now).map (·.kid) ∨ Outlived current kid now := by
  rcases hk with hk | hk
  · exact Or.inl (hs.published (Or.inl hk))
  · obtain ⟨retiredAt, hat⟩ := hk.at
    exact hat.published.imp_right hat.outlived

end

end Keyforge.Keys
