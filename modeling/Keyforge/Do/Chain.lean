/-
One refresh family is a rotation chain, over every sequence of calls from empty storage.
The proof says once what a call can do (`RotateEffect`), carries the invariant `ChainInv` along
the run (the used hashes are the earlier current ones, one for each generation), and reads the
claims about replay, revocation and acceptance off it. Freshness of a new hash is used only against
hashes the object has already seen.
-/
import Keyforge.Do.Family
import Mathlib.Tactic

namespace Keyforge.Do

open Lib (Machine)

/-! ## Runs -/

/-- The hashes carried by a list of calls. -/
def seenHashes (calls : List (Nat × FamilyCall)) : List String :=
  calls.flatMap (·.2.hashes)

/-- The calls an object receives: `init` at most once, and every new hash given to `rotate` unlike
all hashes of the calls before it. -/
structure Admissible (calls : List (Nat × FamilyCall)) : Prop where
  initOnce : calls.countP (·.2.isInit) ≤ 1
  fresh : ∀ (i now : Nat) (presentedHash newTokenHash clientId scope : String),
    calls[i]? = some (now, .rotate presentedHash newTokenHash clientId scope) →
      newTokenHash ∉ seenHashes (calls.take i)

/-- `h` was the current hash after some prefix of the calls. -/
def WasCurrent (calls : List (Nat × FamilyCall)) (h : String) : Prop :=
  ∃ pre, pre <+: calls ∧ (familyMachine.run pre).currentHash = some h

theorem Admissible.of_prefix {pre calls : List (Nat × FamilyCall)} (h : Admissible calls)
    (hp : pre <+: calls) : Admissible pre := by
  refine ⟨le_trans (hp.sublist.countP_le) h.initOnce, ?_⟩
  obtain ⟨post, rfl⟩ := hp
  intro i now a b c d hi
  have hlt : i < pre.length := (List.getElem?_eq_some_iff.1 hi).1
  have hf := h.fresh i now a b c d (by rw [List.getElem?_append_left hlt]; exact hi)
  rwa [List.take_append_of_le_length hlt.le] at hf

/-- The new hash of the last call is unlike every hash seen before it. -/
theorem Admissible.fresh_last {calls : List (Nat × FamilyCall)} {now : Nat}
    {presentedHash newTokenHash clientId scope : String}
    (h : Admissible (calls ++ [(now, .rotate presentedHash newTokenHash clientId scope)])) :
    newTokenHash ∉ seenHashes calls := by
  have hf := h.fresh calls.length now presentedHash newTokenHash clientId scope (by simp)
  rwa [List.take_left'] at hf
  rfl

theorem wasCurrent_nil {h : String} : ¬ WasCurrent [] h := by
  rintro ⟨pre, hpre, hc⟩
  rw [List.prefix_nil.1 hpre] at hc
  cases hc

theorem wasCurrent_concat {calls : List (Nat × FamilyCall)} {c : Nat × FamilyCall} {h : String} :
    WasCurrent (calls ++ [c]) h ↔
      WasCurrent calls h ∨ (familyMachine.run (calls ++ [c])).currentHash = some h := by
  constructor
  · rintro ⟨pre, hpre, hc⟩
    rcases List.prefix_concat_iff.1 hpre with rfl | hpre
    · exact Or.inr hc
    · exact Or.inl ⟨pre, hpre, hc⟩
  · rintro (⟨pre, hpre, hc⟩ | hc)
    · exact ⟨pre, hpre.trans (List.prefix_append _ _), hc⟩
    · exact ⟨_, List.prefix_refl _, hc⟩

/-- A call that leaves the current hash alone, or deletes it, adds nothing to the history. -/
theorem wasCurrent_concat_of_kept {calls : List (Nat × FamilyCall)} {c : Nat × FamilyCall}
    (hk : (familyMachine.run (calls ++ [c])).currentHash = none ∨
      (familyMachine.run (calls ++ [c])).currentHash = (familyMachine.run calls).currentHash) {h : String} :
    WasCurrent (calls ++ [c]) h ↔ WasCurrent calls h := by
  rw [wasCurrent_concat]
  refine ⟨?_, Or.inl⟩
  rintro (h1 | h1)
  · exact h1
  · rcases hk with hk | hk
    · rw [hk] at h1; cases h1
    · exact ⟨calls, List.prefix_refl _, hk ▸ h1⟩

/-! ## What one call can do -/

/-- Everything `rotate` can do to the storage, with the answer it gives. -/
inductive RotateEffect (now : Nat) (presentedHash newTokenHash nextScope : String) (s : RefreshFamilyStorage) :
    RotateResult → RefreshFamilyStorage → Prop
  | refused {r : RotateResult} (hr : r = .invalid ∨ r = .revoked ∨ r = .expired ∨ ∃ k, r = .tooSoon k) :
    RotateEffect now presentedHash newTokenHash nextScope s r s
  | burned {r : RotateResult} {m : RefreshFamilyMeta} (hm : s.familyMeta = some m)
    (hr : r = .generationLimit { m with revoked := true } ∨ r = .reuseDetected { m with revoked := true }) :
    RotateEffect now presentedHash newTokenHash nextScope s r (s.burn m)
  | rotated {m : RefreshFamilyMeta} (hm : s.familyMeta = some m) (hc : s.currentHash = some presentedHash)
    (hrev : m.revoked = false) (hexp : now ≤ m.absoluteExpiresAt)
    (hgen : m.generation < REFRESH_TOKEN_POLICY.maximumGeneration) :
    RotateEffect now presentedHash newTokenHash nextScope s (.rotated (nextMeta now nextScope m))
      { s with
        familyMeta := some (nextMeta now nextScope m), currentHash := some newTokenHash,
        used := insert presentedHash s.used }

theorem rotate_effect {now : Nat} {presentedHash newTokenHash clientId nextScope : String}
    {s s' : RefreshFamilyStorage} {r : RotateResult}
    (hrot : rotate now presentedHash newTokenHash clientId nextScope s = (r, s')) :
    RotateEffect now presentedHash newTokenHash nextScope s r s' := by
  obtain ⟨rfl, rfl⟩ : (rotate now presentedHash newTokenHash clientId nextScope s).1 = r ∧
      (rotate now presentedHash newTokenHash clientId nextScope s).2 = s' := by rw [hrot]; exact ⟨rfl, rfl⟩
  clear hrot
  unfold rotate
  split
  · rename_i m currentHash hm hc
    split
    · exact .refused (by simp)
    split
    · exact .refused (by simp)
    rename_i hrev
    split
    · exact .refused (by simp)
    rename_i hexp
    split
    · rename_i hp
      subst hp
      split
      · exact .burned hm (Or.inl rfl)
      rename_i hgen
      dsimp only
      split
      · exact .refused (by simp)
      · exact .rotated hm hc (by simpa using hrev) (by omega) (by omega)
    split
    · exact .burned hm (Or.inr rfl)
    · exact .refused (by simp)
  · exact .refused (by simp)

theorem run_rotate (pre : List (Nat × FamilyCall)) (now : Nat)
    (presentedHash newTokenHash clientId nextScope : String) :
    familyMachine.run (pre ++ [(now, .rotate presentedHash newTokenHash clientId nextScope)]) =
      (rotate now presentedHash newTokenHash clientId nextScope (familyMachine.run pre)).2 :=
  Machine.run_concat _ _ _

theorem answer_rotate (pre : List (Nat × FamilyCall)) (now : Nat)
    (presentedHash newTokenHash clientId nextScope : String) :
    familyMachine.answer pre (now, .rotate presentedHash newTokenHash clientId nextScope) =
      some (rotate now presentedHash newTokenHash clientId nextScope (familyMachine.run pre)).1 :=
  rfl

/-- A hash of the used set, presented by the family's own client while the family is neither
revoked nor expired, burns the family. -/
theorem rotate_used {now : Nat} {presentedHash clientId currentHash : String} (newTokenHash nextScope : String)
    {s : RefreshFamilyStorage} {m : RefreshFamilyMeta} (hm : s.familyMeta = some m)
    (hc : s.currentHash = some currentHash) (hne : currentHash ∉ s.used) (hcl : m.clientId = clientId)
    (hrev : m.revoked = false) (hexp : now ≤ m.absoluteExpiresAt) (hu : presentedHash ∈ s.used) :
    rotate now presentedHash newTokenHash clientId nextScope s =
      (.reuseDetected { m with revoked := true }, s.burn m) := by
  have hp : presentedHash ≠ currentHash := fun h => hne (h ▸ hu)
  simp [rotate, hm, hc, hcl, hrev, Nat.not_lt.2 hexp, hp, hu]

theorem init_absent {now : Nat} {data : RefreshFamilyInit} {s : RefreshFamilyStorage}
    (hm : s.familyMeta = none) :
    init now data s = { s with
      familyMeta := some (initialMeta now data), currentHash := some data.currentTokenHash,
      alarm := some (data.absoluteExpiresAt * 1000 + 60000) } := by
  simp [init, hm]

theorem revoke_present {s : RefreshFamilyStorage} {m : RefreshFamilyMeta} (hm : s.familyMeta = some m) :
    revoke s = s.burn m := by
  simp [revoke, hm]

theorem revoke_absent {s : RefreshFamilyStorage} (hm : s.familyMeta = none) : revoke s = s := by
  simp [revoke, hm]

/-! ## The invariant -/

/-- The link between the used set, the current hash and the generation counter of a family with
meta record `m`, after the calls `calls`. -/
structure Linked (calls : List (Nat × FamilyCall)) (s : RefreshFamilyStorage) (m : RefreshFamilyMeta) : Prop where
  current : ∃ c, s.currentHash = some c
  fresh : ∀ c, s.currentHash = some c → c ∉ s.used
  used : ∀ h, h ∈ s.used ↔ s.currentHash ≠ some h ∧ WasCurrent calls h
  size : s.used.card = m.generation
  bound : m.generation ≤ REFRESH_TOKEN_POLICY.maximumGeneration

/-- The invariant of a run: nothing before `init`; a linked family after it; nothing again after
the alarm. -/
structure ChainInv (calls : List (Nat × FamilyCall)) (s : RefreshFamilyStorage) : Prop where
  legacy : s.usedHashes = none
  absent : s.familyMeta = none → s.currentHash = none ∧ s.used = ∅
  before : (∀ x ∈ calls, x.2.isInit = false) → s.familyMeta = none ∧ ∀ h, ¬ WasCurrent calls h
  alive : (∃ x ∈ calls, x.2.isInit = true) → (∀ x ∈ calls, x.2 ≠ .alarm) → ∃ m, s.familyMeta = some m
  linked : ∀ m, s.familyMeta = some m → Linked calls s m
  seen : ∀ h, WasCurrent calls h → h ∈ seenHashes calls

theorem seenHashes_concat (calls : List (Nat × FamilyCall)) (c : Nat × FamilyCall) :
    seenHashes (calls ++ [c]) = seenHashes calls ++ c.2.hashes := by
  simp [seenHashes]

/-- Rewriting the meta record with the same generation keeps the chain. -/
theorem Linked.remeta {calls : List (Nat × FamilyCall)} {c : Nat × FamilyCall} {s s' : RefreshFamilyStorage}
    {m m' : RefreshFamilyMeta} (h : Linked calls s m) (hcur : s'.currentHash = s.currentHash)
    (hused : s'.used = s.used) (hgen : m'.generation = m.generation)
    (hhist : ∀ h, WasCurrent (calls ++ [c]) h ↔ WasCurrent calls h) : Linked (calls ++ [c]) s' m' := by
  refine ⟨?_, ?_, ?_, ?_, ?_⟩
  · rw [hcur]; exact h.current
  · rw [hcur, hused]; exact h.fresh
  · intro x; rw [hcur, hused, hhist]; exact h.used x
  · rw [hused, hgen]; exact h.size
  · rw [hgen]; exact h.bound

/-- A call other than `init` and the alarm that keeps the current hash and the used set keeps the
invariant, if it keeps the family and its generation. -/
theorem ChainInv.kept {calls : List (Nat × FamilyCall)} {c : Nat × FamilyCall} {s : RefreshFamilyStorage}
    (h : ChainInv calls (familyMachine.run calls)) (hs : familyMachine.run (calls ++ [c]) = s)
    (hinit : c.2.isInit = false) (hcur : s.currentHash = (familyMachine.run calls).currentHash)
    (hused : s.used = (familyMachine.run calls).used)
    (hleg : s.usedHashes = (familyMachine.run calls).usedHashes)
    (hmeta : s.familyMeta.map (·.generation) = (familyMachine.run calls).familyMeta.map (·.generation)) :
    ChainInv (calls ++ [c]) s := by
  have hhist : ∀ x, WasCurrent (calls ++ [c]) x ↔ WasCurrent calls x :=
    fun x => wasCurrent_concat_of_kept (Or.inr (by rw [hs, hcur]))
  refine ⟨hleg.trans h.legacy, ?_, ?_, ?_, ?_, ?_⟩
  · intro hn
    rw [hn] at hmeta
    rw [hcur, hused]
    exact h.absent (by simpa using hmeta.symm)
  · intro hi
    obtain ⟨h1, h2⟩ := h.before fun x hx => hi x (List.mem_append_left _ hx)
    rw [h1] at hmeta
    exact ⟨by simpa using hmeta, fun x hx => h2 x ((hhist x).1 hx)⟩
  · rintro ⟨x, hx, hxi⟩ hal
    have hx' : x ∈ calls := by
      rcases List.mem_append.1 hx with hx | hx
      · exact hx
      · rw [List.mem_singleton.1 hx, hinit] at hxi; cases hxi
    obtain ⟨m, hm⟩ := h.alive ⟨x, hx', hxi⟩ fun y hy => hal y (List.mem_append_left _ hy)
    rw [hm] at hmeta
    cases hn : s.familyMeta with
    | none => rw [hn] at hmeta; cases hmeta
    | some m' => exact ⟨m', rfl⟩
  · intro m' hm'
    cases hn : (familyMachine.run calls).familyMeta with
    | none => rw [hn, hm'] at hmeta; cases hmeta
    | some m =>
      rw [hn, hm'] at hmeta
      exact (h.linked m hn).remeta hcur hused (by simpa using hmeta) hhist
  · intro x hx
    rw [seenHashes_concat]
    exact List.mem_append_left _ (h.seen x ((hhist x).1 hx))

theorem ChainInv.init {calls : List (Nat × FamilyCall)} {now : Nat} {data : RefreshFamilyInit}
    (h : ChainInv calls (familyMachine.run calls)) (hno : ∀ x ∈ calls, x.2.isInit = false) :
    ChainInv (calls ++ [(now, .init data)]) (familyMachine.run (calls ++ [(now, .init data)])) := by
  obtain ⟨hn, hw⟩ := h.before hno
  obtain ⟨-, hu⟩ := h.absent hn
  have hs : familyMachine.run (calls ++ [(now, .init data)]) = _ :=
    (Machine.run_concat _ _ _).trans (init_absent hn)
  have hhist : ∀ x, WasCurrent (calls ++ [(now, .init data)]) x ↔ x = data.currentTokenHash := by
    intro x
    rw [wasCurrent_concat, hs]
    simp [hw x, eq_comm]
  rw [hs]
  refine ⟨h.legacy, fun h0 => (Option.some_ne_none _ h0).elim, ?_, fun _ _ => ⟨_, rfl⟩, ?_, ?_⟩
  · intro hi
    exact absurd (hi (now, .init data) (by simp)) (by simp [FamilyCall.isInit])
  · intro m hm
    cases hm
    refine ⟨⟨_, rfl⟩, by simp [hu], ?_, by simp [hu, initialMeta], by simp [initialMeta]⟩
    intro x
    rw [hhist]
    simp [hu, eq_comm]
  · intro x hx
    rw [hhist] at hx
    rw [seenHashes_concat]
    simp [FamilyCall.hashes, hx]

theorem ChainInv.rotated {calls : List (Nat × FamilyCall)} {now : Nat}
    {presentedHash newTokenHash clientId nextScope : String} {m : RefreshFamilyMeta}
    (h : ChainInv calls (familyMachine.run calls)) (hfresh : newTokenHash ∉ seenHashes calls)
    (hm : (familyMachine.run calls).familyMeta = some m)
    (hc : (familyMachine.run calls).currentHash = some presentedHash)
    (hgen : m.generation < REFRESH_TOKEN_POLICY.maximumGeneration)
    (hs : familyMachine.run (calls ++ [(now, .rotate presentedHash newTokenHash clientId nextScope)]) =
      { familyMachine.run calls with
        familyMeta := some (nextMeta now nextScope m), currentHash := some newTokenHash,
        used := insert presentedHash (familyMachine.run calls).used }) :
    ChainInv (calls ++ [(now, .rotate presentedHash newTokenHash clientId nextScope)])
      (familyMachine.run (calls ++ [(now, .rotate presentedHash newTokenHash clientId nextScope)])) := by
  have hl := h.linked m hm
  -- the presented hash is retired, the new one was never current
  have hpu : presentedHash ∉ (familyMachine.run calls).used := hl.fresh _ hc
  have hpw : WasCurrent calls presentedHash := ⟨calls, List.prefix_refl _, hc⟩
  have hnw : ¬ WasCurrent calls newTokenHash := fun hw => hfresh (h.seen _ hw)
  -- the current hashes of the longer list
  have hhist : ∀ x, WasCurrent (calls ++ [(now, .rotate presentedHash newTokenHash clientId nextScope)]) x ↔
      WasCurrent calls x ∨ x = newTokenHash := by
    intro x
    rw [wasCurrent_concat, hs]
    simp [eq_comm]
  rw [hs]
  refine ⟨h.legacy, fun h0 => (Option.some_ne_none _ h0).elim, ?_, fun _ _ => ⟨_, rfl⟩, ?_, ?_⟩
  · intro hi
    obtain ⟨hn, -⟩ := h.before fun x hx => hi x (List.mem_append_left _ hx)
    rw [hm] at hn
    cases hn
  · intro m' hm'
    cases hm'
    refine ⟨⟨_, rfl⟩, ?_, ?_, ?_, ?_⟩
    -- the new hash is unused
    · intro c hc'
      cases hc'
      rw [Finset.mem_insert, hl.used]
      rintro (rfl | ⟨-, hw⟩)
      · exact hnw hpw
      · exact hnw hw
    -- the used hashes are the former current ones
    · intro x
      rw [hhist, Finset.mem_insert, hl.used, hc]
      constructor
      · rintro (rfl | ⟨-, hw⟩)
        · exact ⟨fun he => hnw (Option.some.inj he ▸ hpw), Or.inl hpw⟩
        · exact ⟨fun he => hnw (Option.some.inj he ▸ hw), Or.inl hw⟩
      · rintro ⟨hne, hw | rfl⟩
        · by_cases hx : x = presentedHash
          · exact Or.inl hx
          · exact Or.inr ⟨fun he => hx (Option.some.inj he).symm, hw⟩
        · exact absurd rfl hne
    · rw [Finset.card_insert_of_notMem hpu, hl.size]
      rfl
    · show m.generation + 1 ≤ _
      omega
  · intro x hx
    rw [seenHashes_concat]
    rcases (hhist x).1 hx with hx | rfl
    · exact List.mem_append_left _ (h.seen x hx)
    · simp [FamilyCall.hashes]

theorem ChainInv.alarm {calls : List (Nat × FamilyCall)} {now : Nat}
    (h : ChainInv calls (familyMachine.run calls)) :
    ChainInv (calls ++ [(now, .alarm)]) (familyMachine.run (calls ++ [(now, .alarm)])) := by
  have hs : familyMachine.run (calls ++ [(now, .alarm)]) = .empty := Machine.run_concat _ _ _
  have hhist : ∀ x, WasCurrent (calls ++ [(now, .alarm)]) x ↔ WasCurrent calls x :=
    fun x => wasCurrent_concat_of_kept (Or.inl (by rw [hs]; rfl))
  rw [hs]
  refine ⟨rfl, fun _ => ⟨rfl, rfl⟩, ?_, ?_, fun m hm => (Option.some_ne_none m hm.symm).elim, ?_⟩
  · intro hi
    obtain ⟨-, h2⟩ := h.before fun x hx => hi x (List.mem_append_left _ hx)
    exact ⟨rfl, fun x hx => h2 x ((hhist x).1 hx)⟩
  · intro _ hal
    exact absurd rfl (hal (now, .alarm) (by simp))
  · intro x hx
    rw [seenHashes_concat]
    exact List.mem_append_left _ (h.seen x ((hhist x).1 hx))

theorem initOnce_before {calls : List (Nat × FamilyCall)} {c : Nat × FamilyCall}
    (h : Admissible (calls ++ [c])) (hc : c.2.isInit = true) : ∀ x ∈ calls, x.2.isInit = false := by
  have h1 := h.initOnce
  rw [List.countP_append] at h1
  have h2 : List.countP (·.2.isInit) [c] = 1 := by simp [hc]
  have h3 : calls.countP (·.2.isInit) = 0 := by omega
  intro x hx
  simpa using List.countP_eq_zero.1 h3 x hx

theorem chainInv_run : ∀ calls, Admissible calls → ChainInv calls (familyMachine.run calls) := by
  refine Machine.run_inv (I := fun calls s => Admissible calls → ChainInv calls s) ?_ ?_
  · intro _
    refine ⟨rfl, fun _ => ⟨rfl, rfl⟩, fun _ => ⟨rfl, fun _ => wasCurrent_nil⟩, ?_, ?_, ?_⟩
    · rintro ⟨x, hx, -⟩
      cases hx
    · intro m hm
      cases hm
    · intro h hw
      exact (wasCurrent_nil hw).elim
  · intro pre c ih hadm
    have hi := ih (hadm.of_prefix (List.prefix_append _ _))
    rw [← Machine.run_concat]
    obtain ⟨now, c⟩ := c
    cases c with
    | init data => exact hi.init (initOnce_before hadm rfl)
    | rotate presentedHash newTokenHash clientId nextScope =>
      obtain ⟨⟨r, s'⟩, hrot⟩ : ∃ x, rotate now presentedHash newTokenHash clientId nextScope
        (familyMachine.run pre) = x := ⟨_, rfl⟩
      have hs : familyMachine.run (pre ++ [(now, .rotate presentedHash newTokenHash clientId nextScope)]) = s' :=
        (run_rotate _ _ _ _ _ _).trans (congrArg Prod.snd hrot)
      cases rotate_effect hrot with
      | refused => rw [hs]; exact hi.kept hs rfl rfl rfl rfl rfl
      | burned hm => rw [hs]; exact hi.kept hs rfl rfl rfl rfl (by rw [hm]; rfl)
      | rotated hm hc _ _ hgen =>
        exact hi.rotated hadm.fresh_last hm hc hgen hs
    | revoke =>
      have hs : familyMachine.run (pre ++ [(now, .revoke)]) = revoke (familyMachine.run pre) :=
        Machine.run_concat _ _ _
      cases hm : (familyMachine.run pre).familyMeta with
      | none =>
        have hs' := hs.trans (revoke_absent hm)
        rw [hs']
        exact hi.kept hs' rfl rfl rfl rfl rfl
      | some m =>
        have hs' := hs.trans (revoke_present hm)
        rw [hs']
        exact hi.kept hs' rfl rfl rfl rfl (by rw [hm]; rfl)
    | alarm => exact hi.alarm

/-! ## Revocation and acceptance along a run -/

/-- The family does not exist, or is revoked. -/
def Dead (s : RefreshFamilyStorage) : Prop :=
  ∀ m, s.familyMeta = some m → m.revoked = true

/-- The family does not exist, or has rotated `h` away. -/
def Spent (h : String) (s : RefreshFamilyStorage) : Prop :=
  ∀ m, s.familyMeta = some m → h ∈ s.used

theorem dead_call {c : Nat × FamilyCall} (hc : c.2.isInit = false) {s : RefreshFamilyStorage} (h : Dead s) :
    Dead (familyMachine.call c s).2 := by
  obtain ⟨now, c⟩ := c
  cases c with
  | init data => cases hc
  | rotate presentedHash newTokenHash clientId nextScope =>
    show Dead (rotate now presentedHash newTokenHash clientId nextScope s).2
    rcases hrot : rotate now presentedHash newTokenHash clientId nextScope s with ⟨r, s'⟩
    cases rotate_effect hrot with
    | refused => exact h
    | burned _ => intro m' hm'; cases hm'; rfl
    | rotated hm _ hrev => rw [h _ hm] at hrev; cases hrev
  | revoke =>
    show Dead (revoke s)
    cases hm : s.familyMeta with
    | none => rw [revoke_absent hm]; exact h
    | some m => rw [revoke_present hm]; intro m' hm'; cases hm'; rfl
  | alarm => intro m hm; cases hm

theorem spent_call {h : String} {c : Nat × FamilyCall} (hc : c.2.isInit = false) {s : RefreshFamilyStorage}
    (hs : Spent h s) : Spent h (familyMachine.call c s).2 := by
  obtain ⟨now, c⟩ := c
  cases c with
  | init data => cases hc
  | rotate presentedHash newTokenHash clientId nextScope =>
    show Spent h (rotate now presentedHash newTokenHash clientId nextScope s).2
    rcases hrot : rotate now presentedHash newTokenHash clientId nextScope s with ⟨r, s'⟩
    cases rotate_effect hrot with
    | refused => exact hs
    | burned hm => intro m' _; exact hs _ hm
    | rotated hm => intro m' _; exact Finset.mem_insert_of_mem (hs _ hm)
  | revoke =>
    show Spent h (revoke s)
    cases hm : s.familyMeta with
    | none => rw [revoke_absent hm]; exact hs
    | some m => rw [revoke_present hm]; intro m' _; exact hs _ hm
  | alarm => intro m hm; cases hm

/-- After the family has existed no `init` is left. -/
theorem no_init_after {pre post : List (Nat × FamilyCall)} (hadm : Admissible (pre ++ post))
    {m : RefreshFamilyMeta} (hm : (familyMachine.run pre).familyMeta = some m) :
    ∀ x ∈ post, x.2.isInit = false := by
  have hi := chainInv_run pre (hadm.of_prefix (List.prefix_append _ _))
  have h1 := hadm.initOnce
  rw [List.countP_append] at h1
  have hpos : 0 < pre.countP (·.2.isInit) := by
    rw [List.countP_pos_iff]
    by_contra hno
    obtain ⟨hn, -⟩ := hi.before (by simpa using hno)
    rw [hm] at hn
    cases hn
  have h0 : post.countP (·.2.isInit) = 0 := by omega
  intro x hx
  simpa using List.countP_eq_zero.1 h0 x hx

theorem dead_stays {pre post : List (Nat × FamilyCall)} (hadm : Admissible (pre ++ post))
    {m : RefreshFamilyMeta} (hm : (familyMachine.run pre).familyMeta = some m) (hrev : m.revoked = true) :
    Dead (familyMachine.run (pre ++ post)) := by
  have hno := no_init_after hadm hm
  refine Machine.run_stays (fun c hc s => dead_call (hno c hc)) ?_
  intro m' hm'
  rw [hm] at hm'
  cases hm'
  exact hrev

/-- A dead family rotates nothing. -/
theorem dead_not_rotated {s : RefreshFamilyStorage} (h : Dead s) (now : Nat)
    (presentedHash newTokenHash clientId nextScope : String) (r : RefreshFamilyMeta) :
    (rotate now presentedHash newTokenHash clientId nextScope s).1 ≠ .rotated r := by
  rcases hrot : rotate now presentedHash newTokenHash clientId nextScope s with ⟨r', s'⟩
  rintro rfl
  cases rotate_effect hrot with
  | refused hr => rcases hr with h | h | h | ⟨_, h⟩ <;> cases h
  | burned _ hr => rcases hr with h | h <;> cases h
  | rotated hm _ hrev => rw [h _ hm] at hrev; cases hrev

/-- An accepted hash was current, and is used from then on. -/
theorem rotated_spent {s : RefreshFamilyStorage} {now : Nat}
    {presentedHash newTokenHash clientId nextScope : String} {r : RefreshFamilyMeta}
    (hr : (rotate now presentedHash newTokenHash clientId nextScope s).1 = .rotated r) :
    s.currentHash = some presentedHash ∧ (∃ m, s.familyMeta = some m) ∧
    (∃ m, (rotate now presentedHash newTokenHash clientId nextScope s).2.familyMeta = some m) ∧
    presentedHash ∈ (rotate now presentedHash newTokenHash clientId nextScope s).2.used := by
  rcases hrot : rotate now presentedHash newTokenHash clientId nextScope s with ⟨r', s'⟩
  rw [hrot] at hr
  cases hr
  cases rotate_effect hrot with
  | refused hr => rcases hr with h | h | h | ⟨_, h⟩ <;> cases h
  | burned _ hr => rcases hr with h | h <;> cases h
  | rotated hm hc => exact ⟨hc, ⟨_, hm⟩, ⟨_, rfl⟩, Finset.mem_insert_self _ _⟩

theorem accepted_once {pre mid : List (Nat × FamilyCall)} {now now' : Nat}
    {h n n' cid cid' sc sc' : String} {r r' : RefreshFamilyMeta}
    (hadm : Admissible (pre ++ [(now, .rotate h n cid sc)] ++ mid))
    (hr : familyMachine.answer pre (now, .rotate h n cid sc) = some (.rotated r)) :
    familyMachine.answer (pre ++ [(now, .rotate h n cid sc)] ++ mid) (now', .rotate h n' cid' sc') ≠
      some (.rotated r') := by
  obtain ⟨-, -, ⟨m, hm⟩, hu⟩ := rotated_spent (Option.some.inj hr)
  rw [← run_rotate] at hm hu
  have hno := no_init_after hadm hm
  have hsp : Spent h (familyMachine.run (pre ++ [(now, .rotate h n cid sc)] ++ mid)) :=
    Machine.run_stays (fun c hc s => spent_call (hno c hc)) (fun _ _ => hu)
  intro hr'
  obtain ⟨hc, ⟨m', hm'⟩, -⟩ := rotated_spent (Option.some.inj hr')
  exact ((chainInv_run _ hadm).linked m' hm').fresh h hc (hsp m' hm')

/-- A refusal that is not a burn leaves the storage as it was. -/
theorem refused_unchanged {s : RefreshFamilyStorage} {now : Nat}
    {presentedHash newTokenHash clientId nextScope : String} {r : RotateResult}
    (hr : (rotate now presentedHash newTokenHash clientId nextScope s).1 = r)
    (href : r = .invalid ∨ r = .expired ∨ r = .revoked ∨ ∃ k, r = .tooSoon k) :
    (rotate now presentedHash newTokenHash clientId nextScope s).2 = s := by
  rcases hrot : rotate now presentedHash newTokenHash clientId nextScope s with ⟨r', s'⟩
  rw [hrot] at hr
  cases hr
  cases rotate_effect hrot with
  | refused => rfl
  | burned _ hr => rcases hr with rfl | rfl <;> simp at href
  | rotated => simp at href

/-! ## The rotation chain -/

/-- A refresh family is a sound rotation chain: (a) before the alarm the used hashes are exactly the
hashes that were current earlier, the current one is not among them, and there are `generation ≤
10000` of them; (b) a revoked family stays revoked and never rotates again; (c) a hash is accepted
at most once; (d) replaying a used hash burns the family; (e) every other refusal leaves the storage
unchanged. -/
theorem family_rotation_chain (calls : List (Nat × FamilyCall)) (hadm : Admissible calls) :
    let s := familyMachine.run calls
    ((∀ x ∈ calls, x.2 ≠ .alarm) →
      (∀ h, h ∈ s.used ↔ s.currentHash ≠ some h ∧ WasCurrent calls h) ∧
      (∀ c, s.currentHash = some c → c ∉ s.used) ∧
      (∀ m, s.familyMeta = some m → (∃ c, s.currentHash = some c) ∧ s.used.card = m.generation ∧
        m.generation ≤ 10000) ∧
      ((∃ x ∈ calls, x.2.isInit = true) ↔ ∃ m, s.familyMeta = some m)) ∧
    (∀ pre post m, calls = pre ++ post → (familyMachine.run pre).familyMeta = some m → m.revoked = true →
      (∀ m', s.familyMeta = some m' → m'.revoked = true) ∧
      ∀ now presentedHash newTokenHash clientId scope r,
        familyMachine.answer calls (now, .rotate presentedHash newTokenHash clientId scope) ≠
          some (.rotated r)) ∧
    (∀ pre mid post now now' h n n' clientId clientId' scope scope' r r',
      calls = pre ++ [(now, .rotate h n clientId scope)] ++ mid ++
        [(now', .rotate h n' clientId' scope')] ++ post →
      familyMachine.answer pre (now, .rotate h n clientId scope) = some (.rotated r) →
      familyMachine.answer (pre ++ [(now, .rotate h n clientId scope)] ++ mid)
        (now', .rotate h n' clientId' scope') ≠ some (.rotated r')) ∧
    (∀ pre post now h n scope m,
      calls = pre ++ [(now, .rotate h n m.clientId scope)] ++ post →
      (familyMachine.run pre).familyMeta = some m → m.revoked = false → now ≤ m.absoluteExpiresAt →
      h ∈ (familyMachine.run pre).used →
      familyMachine.answer pre (now, .rotate h n m.clientId scope) =
        some (.reuseDetected { m with revoked := true }) ∧
      ∀ m', s.familyMeta = some m' → m'.revoked = true) ∧
    (∀ pre post now h n clientId scope r,
      calls = pre ++ [(now, .rotate h n clientId scope)] ++ post →
      familyMachine.answer pre (now, .rotate h n clientId scope) = some r →
      (r = .invalid ∨ r = .expired ∨ r = .revoked ∨ ∃ k, r = .tooSoon k) →
      familyMachine.run (pre ++ [(now, .rotate h n clientId scope)]) = familyMachine.run pre) := by
  intro s
  have hi := chainInv_run calls hadm
  refine ⟨?_, ?_, ?_, ?_, ?_⟩
  -- the chain, as long as no alarm has fired
  · intro hal
    cases hm : s.familyMeta with
    | none =>
      obtain ⟨hc, hu⟩ := hi.absent hm
      have hno : ¬ ∃ x ∈ calls, x.2.isInit = true := by
        intro hin
        obtain ⟨m, hm'⟩ := hi.alive hin hal
        rw [show (familyMachine.run calls).familyMeta = none from hm] at hm'
        cases hm'
      obtain ⟨-, hw⟩ := hi.before (by simpa using hno)
      refine ⟨fun h => ?_, ?_, by simp, by simpa using hno⟩
      · rw [show s.used = ∅ from hu]
        simp [hw h]
      · rw [show s.currentHash = none from hc]
        simp
    | some m =>
      have hl := hi.linked m hm
      refine ⟨hl.used, hl.fresh, ?_, ?_⟩
      · intro m' hm'
        cases hm'
        exact ⟨hl.current, hl.size, hl.bound⟩
      · refine ⟨fun _ => ⟨m, rfl⟩, fun _ => ?_⟩
        by_contra hno
        obtain ⟨hn, -⟩ := hi.before (by simpa using hno)
        rw [show (familyMachine.run calls).familyMeta = some m from hm] at hn
        cases hn
  -- a revoked family stays revoked, and rotates no more
  · rintro pre post m rfl hm hrev
    have hd := dead_stays hadm hm hrev
    refine ⟨hd, ?_⟩
    intro now p n cid sc r hr
    exact dead_not_rotated hd now p n cid sc r (Option.some.inj hr)
  -- a hash is accepted once
  · rintro pre mid post now now' h n n' cid cid' sc sc' r r' rfl hr
    refine accepted_once (hadm.of_prefix ?_) hr
    rw [List.append_assoc _ [_] post]
    exact List.prefix_append _ _
  -- a used hash burns the family
  · rintro pre post now h n sc m rfl hm hrev hexp hu
    have hpre := chainInv_run pre (hadm.of_prefix (by rw [List.append_assoc]; exact List.prefix_append _ _))
    have hl := hpre.linked m hm
    obtain ⟨c, hc⟩ := hl.current
    have hrot := rotate_used n sc hm hc (hl.fresh c hc) rfl hrev hexp hu
    have hs : familyMachine.run (pre ++ [(now, .rotate h n m.clientId sc)]) = (familyMachine.run pre).burn m :=
      (run_rotate _ _ _ _ _ _).trans (congrArg Prod.snd hrot)
    refine ⟨by rw [answer_rotate, hrot], dead_stays hadm (m := { m with revoked := true }) ?_ rfl⟩
    rw [hs]
    rfl
  -- a refusal changes nothing
  · rintro pre post now h n cid sc r rfl hr href
    rw [run_rotate]
    exact refused_unchanged (Option.some.inj hr) href

/-- A family created, rotated once, and burned by a replay of its first hash. -/
def replayedCalls : List (Nat × FamilyCall) :=
  [(100, .init ⟨"usr_a", "client-a", "https://api.example.com", "openid", 90, "h0", 5000⟩),
    (101, .rotate "h0" "h1" "client-a" "openid"), (102, .rotate "h0" "h2" "client-a" "openid")]

theorem replayedCalls_admissible : Admissible replayedCalls := by
  refine ⟨by decide, ?_⟩
  rintro (_ | _ | _ | i) now p n cid sc hi
  · cases hi
  · cases hi; decide
  · cases hi; decide
  · cases hi

theorem family_rotation_chain_replayed :
    Admissible replayedCalls ∧
      (familyMachine.run replayedCalls).isRevoked = true ∧ "h0" ∈ (familyMachine.run replayedCalls).used ∧
      ∀ m', (familyMachine.run replayedCalls).familyMeta = some m' → m'.revoked = true := by
  refine ⟨replayedCalls_admissible, by decide, by decide, ?_⟩
  exact ((family_rotation_chain replayedCalls replayedCalls_admissible).2.2.2.1 (replayedCalls.take 2) [] 102 "h0" "h2"
    "openid" ⟨"usr_a", "client-a", "https://api.example.com", "openid", some 90, 5000, 100, 1, false, some 101⟩
    rfl (by decide) rfl (by decide) (by decide)).2

end Keyforge.Do
