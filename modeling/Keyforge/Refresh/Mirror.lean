/-
Rotation against revocation. A refresh request rotates its family object first and mirrors the new
hash into D1 second; a revoker marks the D1 row first and burns the object second; there is no common
transaction. Any number of requests and revokers interleave. The invariant: a live object and its
live row agree, unless the object's current hash was rotated in and is not mirrored yet. A hash is
presented only after the response that returned it, so the request that rotated it in is the only one
that can be between the two stores.
-/
import Keyforge.Deployment
import Keyforge.Do.Chain
import Keyforge.History
import Keyforge.Lib.Pool
import Keyforge.OAuth.Checks
import Keyforge.Tokens.Rules

namespace Keyforge.Refresh

open Lib Db Do Tokens OAuth

/-! ## The invariant -/

/-- A row mirrors the object's state. -/
def Agrees (r : RefreshTokenRow) (m : RefreshFamilyMeta) (h : String) : Prop :=
  r.tokenHash = h ∧ r.scope = m.scope ∧ r.generation = m.generation

/-- The object of `f` has rotated to `h` and the row has not followed. -/
def Ahead (f h : String) (log : List Event) : Prop :=
  Event.rotated f h ∈ log ∧ Event.mirrored f h ∉ log

structure MirrorInv (w : World) : Prop where
  revoked : ∀ ids, Event.familiesRevoked ids ∈ w.log → ∀ r ∈ w.db.refreshTokens, r.id ∈ ids → r.revokedAt ≠ none
  agree : ∀ f m h, (w.families f).familyMeta = some m → (w.families f).currentHash = some h → m.revoked = false →
    ∀ r ∈ w.db.refreshTokens, r.id = f → r.revokedAt = none → Agrees r m h ∨ Ahead f h w.log

/-- The rotation an event is about. -/
def rotation : Event → Option (String × String)
  | .rotated f h => some (f, h)
  | .mirrored f h => some (f, h)
  | .mirrorLost f h => some (f, h)
  | .compensationFailed f h => some (f, h)
  | _ => none

/-- Objects change and D1 does not: each object is the same, or revoked, or ahead of its row. -/
theorem MirrorInv.families {w w' : World} (hi : MirrorInv w) (hdb : w'.db = w.db)
    (hlog : Continues (fun x => (∀ ids, x ≠ .familiesRevoked ids) ∧ ∀ f h, x ≠ .mirrored f h) w w')
    (hfam : ∀ f, w'.families f = w.families f ∨ (w'.families f).isRevoked = true ∨
      ∃ h, (w'.families f).currentHash = some h ∧ Ahead f h w'.log) : MirrorInv w' := by
  refine ⟨?_, ?_⟩
  · intro ids hids
    rw [hdb]
    exact hi.revoked ids (hlog.old (fun h => h.1 ids rfl) hids)
  · intro f m h hm hh hrev r hr hid hlive
    rcases hfam f with hf | hf | ⟨h', hh', ha⟩
    · rw [hf] at hm hh
      rw [hdb] at hr
      rcases hi.agree f m h hm hh hrev r hr hid hlive with ha | ha
      · exact Or.inl ha
      · exact Or.inr ⟨hlog.mem ha.1, fun hm' => ha.2 (hlog.old (fun hx => hx.2 f h rfl) hm')⟩
    · simp [RefreshFamilyStorage.isRevoked, hm, hrev] at hf
    · rw [hh] at hh'
      cases hh'
      exact Or.inr ha

theorem revoke_same_or_revoked (s : RefreshFamilyStorage) : revoke s = s ∨ (revoke s).isRevoked = true := by
  cases hm : s.familyMeta with
  | none => exact Or.inl (by simp [revoke, hm])
  | some m => exact Or.inr (isRevoked_revoke hm)

theorem mirrorInv_burns {w w' : World} (hb : Burns w w') (hi : MirrorInv w) : MirrorInv w' := by
  refine hi.families hb.db (.of_eq hb.log) fun f => ?_
  obtain ⟨dt, b, rfl⟩ := hb
  simp only [burned, World.tick_families]
  split
  · rcases revoke_same_or_revoked (w.families f) with h | h
    · exact Or.inl h
    · exact Or.inr (Or.inl h)
  · exact Or.inl rfl

/-- A statement that sets `revoked_at` on the rows `p` selects, recorded under `ids`. -/
theorem mirrorInv_revoking {w : World} (hi : MirrorInv w) (p : RefreshTokenRow → Bool) (now : Nat) (ids : List String)
    (hids : ∀ r ∈ w.db.refreshTokens, r.id ∈ ids → p r = true ∨ r.revokedAt ≠ none) :
    MirrorInv { w with
      db := { w.db with
        refreshTokens := w.db.refreshTokens.update p (fun r => { r with revokedAt := some now }) fun _ => rfl }
      log := .familiesRevoked ids :: w.log } := by
  refine ⟨?_, ?_⟩
  · intro ids' hids' r' hr' hid
    obtain ⟨r, hr, rfl⟩ := (Table.mem_update fun _ => by rfl).1 hr'
    split
    · exact Option.some_ne_none _
    · rename_i hp
      rw [if_neg hp] at hid
      rcases List.mem_cons.1 hids' with he | hids'
      · cases he
        rcases hids r hr hid with h | h
        · exact absurd h hp
        · exact h
      · exact hi.revoked ids' hids' r hr hid
  · intro f m h hm hh hrev r' hr' hid hlive
    obtain ⟨r, hr, rfl⟩ := (Table.mem_update fun _ => by rfl).1 hr'
    split at hlive
    · cases hlive
    · rename_i hp
      rw [if_neg hp] at hid ⊢
      rcases hi.agree f m h hm hh hrev r hr hid hlive with ha | ha
      · exact Or.inl ha
      · refine Or.inr ⟨List.mem_cons_of_mem _ ha.1, fun hm' => ha.2 ?_⟩
        simpa using hm'

/-- The mirror write of `f`, by the one request whose hash the object holds. -/
theorem mirrorInv_mirror {w : World} (hi : MirrorInv w) {f h scope : String} {now generation : Nat}
    (hown : ∀ m, (w.families f).familyMeta = some m → m.revoked = false →
      (w.families f).currentHash = some h ∧ m.scope = scope ∧ m.generation = generation) :
    MirrorInv { w with
      db := (mirrorStatement now f h scope generation w.db).2, log := mirrorEvents f h w.db ++ w.log } := by
  have hlog : ∀ ids, Event.familiesRevoked ids ∈ mirrorEvents f h w.db ++ w.log → Event.familiesRevoked ids ∈ w.log := by
    intro ids hm
    rcases List.mem_append.1 hm with hm | hm
    · simp only [mirrorEvents, List.mem_singleton] at hm
      split at hm <;> cases hm
    · exact hm
  refine ⟨?_, ?_⟩
  · intro ids hids r' hr' hid
    obtain ⟨r, hr, rfl⟩ := (Table.mem_update fun _ => by rfl).1 hr'
    split
    · rename_i hp
      rw [if_pos hp] at hid
      simp only [decide_eq_true_eq] at hp
      exact absurd hp.2 (hi.revoked ids (hlog ids hids) r hr hid)
    · rename_i hp
      rw [if_neg hp] at hid
      exact hi.revoked ids (hlog ids hids) r hr hid
  · intro g m k hm hk hrev r' hr' hid hlive
    obtain ⟨r, hr, rfl⟩ := (Table.mem_update fun _ => by rfl).1 hr'
    split
    · rename_i hp
      rw [if_pos hp] at hid
      simp only [decide_eq_true_eq] at hp
      -- the row written is the object's own
      obtain rfl : f = g := hp.1.symm.trans hid
      obtain ⟨h1, h2, h3⟩ := hown m hm hrev
      rw [h1] at hk
      cases hk
      exact Or.inl ⟨rfl, h2.symm, h3.symm⟩
    · rename_i hp
      rw [if_neg hp] at hid hlive
      have hne : g ≠ f := fun he => hp (by simp [hid.trans he, hlive])
      rcases hi.agree g m k hm hk hrev r hr hid hlive with ha | ha
      · exact Or.inl ha
      · refine Or.inr ⟨List.mem_append_right _ ha.1, fun hm' => ?_⟩
        rcases List.mem_append.1 hm' with hm' | hm'
        · simp only [mirrorEvents, List.mem_singleton] at hm'
          split at hm' <;> cases hm'
          exact hne rfl
        · exact ha.2 hm'

/-! ## The calls -/

/-- A refresh request with the secret it draws, or a revoker of the rows `p` selects. -/
inductive MirrorCall where
  | refresh (client : ClientRow) (form : RefreshForm) (secret : String)
  | revoke (p : RefreshTokenRow → Bool)

/-- The family and hash a request presents. -/
def MirrorCall.presents (env : Env) : MirrorCall → Option (String × String)
  | .refresh _ form _ => form.refreshToken.map fun t => (familyIdOf t, hashOpaqueToken env t)
  | .revoke _ => none

/-- The family and hash a request rotates to. -/
def MirrorCall.draws (env : Env) : MirrorCall → Option (String × String)
  | .refresh _ form secret =>
    form.refreshToken.map fun t => (familyIdOf t, hashOpaqueToken env (familyIdOf t ++ "." ++ secret))
  | .revoke _ => none

def MirrorCall.code (env : Env) : MirrorCall → App (Option RefreshAnswer)
  | .refresh client form secret => some <$> handleRefreshToken env client form secret
  | .revoke p => do let _ ← revokeMatchingFamilies p; pure none

/-- Requests and revokers arrive at any time. A drawn hash is new: no other call draws or has
presented it; and it is presented only after the request that drew it has answered. Every storage
call may fail, with or without having taken effect, except that a rotation whose answer is lost has
not happened. -/
def mirrorSystem (env : Env) : System MirrorCall Input World (Except Failure (Option RefreshAnswer)) where
  code := fun c => (c.code env).run
  allow := fun w e w' => e.fail = true → ∀ f h, Event.rotated f h ∈ w'.log → Event.rotated f h ∈ w.log
  arrive := fun P c =>
    (∀ x, c.draws env = some x → ∀ t ∈ P.threads, t.1.draws env ≠ some x ∧ t.1.presents env ≠ some x) ∧
    (∀ x, c.presents env = some x → ∀ t ∈ P.threads, t.1.draws env = some x → t.2.isDone = true)

/-! ## The outline -/

/-- What other calls may do while `c` runs: they record nothing about the hashes `c` draws or
presents, and from the hash `c` drew they can only revoke. -/
structure MirrorRely (env : Env) (c : MirrorCall) (w w' : World) : Prop where
  log : Continues (fun x => ∀ y, rotation x = some y → c.draws env ≠ some y ∧ c.presents env ≠ some y) w w'
  mono : ∀ f, FamilyMono (w.families f) (w'.families f)
  held : ∀ f h, c.draws env = some (f, h) → (w.families f).currentHash = some h →
    w'.families f = w.families f ∨ w'.families f = revoke (w.families f)

/-- What `c` does: it records rotations of its own hash only, and an object it does not leave alone
or revoke is the one whose hash it presents. -/
structure MirrorGuar (env : Env) (c : MirrorCall) (w w' : World) : Prop where
  log : Continues (fun x => ∀ y, rotation x = some y → c.draws env = some y) w w'
  mono : ∀ f, FamilyMono (w.families f) (w'.families f)
  moves : ∀ f, w'.families f = w.families f ∨ w'.families f = revoke (w.families f) ∨
    ∃ h, c.presents env = some (f, h) ∧ (w.families f).currentHash = some h

/-- What is true of a rotation of `f` to `h` once its request is over. -/
structure Settled (f h : String) (returned : Prop) (w : World) : Prop where
  committed : returned →
    RecordedWhen (fun older => ∀ ids, Event.familiesRevoked ids ∈ older → f ∉ ids) (.mirrored f h) w.log
  lost : Event.mirrorLost f h ∈ w.log →
    ¬returned ∧ (Event.compensationFailed f h ∉ w.log → (w.families f).isRevoked = true)
  mirrored : Event.rotated f h ∈ w.log → Event.mirrored f h ∈ w.log ∨ Event.mirrorLost f h ∈ w.log

theorem Settled.imp {f h : String} {R R' : Prop} {w : World} (hs : Settled f h R w) (hR : R' → R) : Settled f h R' w :=
  ⟨fun h => hs.committed (hR h), fun h => ⟨fun h' => (hs.lost h).1 (hR h'), (hs.lost h).2⟩, hs.mirrored⟩

/-- A settled rotation stays settled when nothing more is recorded about it. -/
theorem Settled.continues {f h : String} {R : Prop} {w w' : World} {E : Event → Prop} (hs : Settled f h R w)
    (hc : Continues E w w') (hE : ∀ x, E x → rotation x ≠ some (f, h))
    (hmono : FamilyMono (w.families f) (w'.families f)) : Settled f h R w' := by
  refine ⟨fun h => (hs.committed h).continues hc, ?_, ?_⟩
  · intro hl
    obtain ⟨h1, h2⟩ := hs.lost (hc.old (fun hx => hE _ hx rfl) hl)
    exact ⟨h1, fun hn => hmono.revoked (h2 fun hm => hn (hc.mem hm))⟩
  · intro hr
    rcases hs.mirrored (hc.old (fun hx => hE _ hx rfl) hr) with h | h
    · exact Or.inl (hc.mem h)
    · exact Or.inr (hc.mem h)

def mirrorOutline (env : Env) : Outline (mirrorSystem env) where
  inv := MirrorInv
  rely := MirrorRely env
  guar := MirrorGuar env
  post := fun c r w => ∀ f h, c.draws env = some (f, h) →
    Settled f h (∃ response, r = .ok (some (.issued response))) w
  apart := fun c d => ∀ x, c.draws env = some x → d.draws env ≠ some x
  beside := fun c d => (∀ x, c.draws env = some x → d.presents env ≠ some x) ∧
    ∀ x, d.draws env = some x → c.presents env ≠ some x
  trace := fun cs w => ∀ x ∈ w.log, ∀ y, rotation x = some y → ∃ c ∈ cs, c.draws env = some y

section

variable {env : Env}

theorem MirrorRely.trans {c : MirrorCall} {w₁ w₂ w₃ : World} (h₁ : MirrorRely env c w₁ w₂)
    (h₂ : MirrorRely env c w₂ w₃) : MirrorRely env c w₁ w₃ := by
  refine ⟨h₁.log.trans h₂.log, fun f => (h₁.mono f).trans (h₂.mono f), ?_⟩
  intro f h hd hh
  rcases h₁.held f h hd hh with h1 | h1
  · rw [← h1]
    exact h₂.held f h hd (h1 ▸ hh)
  · have hcur : (w₂.families f).currentHash = some h := by
      rw [h1, revoke]
      split
      · exact hh
      · exact hh
    rcases h₂.held f h hd hcur with h2 | h2
    · exact Or.inr (h2.trans h1)
    · exact Or.inr (by rw [h2, h1, revoke_revoke])

theorem burns_moves {w w' : World} (hb : Burns w w') (f : String) :
    w'.families f = w.families f ∨ w'.families f = revoke (w.families f) := by
  obtain ⟨dt, b, rfl⟩ := hb
  simp only [burned, World.tick_families]
  split
  · exact Or.inr rfl
  · exact Or.inl rfl

theorem mirrorRely_burns {c : MirrorCall} {w w' : World} (hb : Burns w w') : MirrorRely env c w w' :=
  ⟨.of_eq hb.log, hb.mono, fun f _ _ _ => burns_moves hb f⟩

theorem mirrorGuar_burns {c : MirrorCall} {w w' : World} (hb : Burns w w') : MirrorGuar env c w w' := by
  refine ⟨.of_eq hb.log, hb.mono, fun f => ?_⟩
  rcases burns_moves hb f with h | h
  · exact Or.inl h
  · exact Or.inr (Or.inl h)

/-- A step on D1 alone. -/
theorem mirrorGuar_d1 {c : MirrorCall} {w w' : World} (hfam : w'.families = w.families)
    (hlog : Continues (fun x => ∀ y, rotation x = some y → c.draws env = some y) w w') : MirrorGuar env c w w' :=
  ⟨hlog, fun f => hfam ▸ FamilyMono.refl _, fun f => Or.inl (by rw [hfam])⟩

theorem mirror_tolerant (env : Env) (c : MirrorCall) : Tolerant ((mirrorOutline env).protocol c) where
  ok := ⟨fun w => mirrorRely_burns (Burns.tick w 0), MirrorRely.trans⟩
  tickInv := fun {w} dt => mirrorInv_burns (Burns.tick w dt)
  tickRely := fun w dt => mirrorRely_burns (Burns.tick w dt)
  tickGuar := fun w dt => mirrorGuar_burns (Burns.tick w dt)
  tickAllow := fun _ h => h
  guarTick := fun _ h => ⟨h.log, h.mono, h.moves⟩
  burnInv := mirrorInv_burns
  burnRely := mirrorRely_burns
  burnGuar := mirrorGuar_burns

theorem mirror_stable (c : MirrorCall) (r : Except Failure (Option RefreshAnswer)) :
    ((mirrorOutline env).protocol c).Stable ((mirrorOutline env).post c r) := by
  intro w w' h hr _ f k hd
  exact (h f k hd).continues hr.log (fun x hx he => (hx _ he).1 hd) (hr.mono f)

theorem mirror_compat {c d : MirrorCall} {w w' : World} (ha : (mirrorOutline env).apart c d)
    (hb : (mirrorOutline env).beside c d) (hg : MirrorGuar env c w w') : MirrorRely env d w w' := by
  refine ⟨hg.log.imp ?_, hg.mono, ?_⟩
  · exact fun x hx y hy => ⟨ha y (hx y hy), hb.1 y (hx y hy)⟩
  · intro f h hd hh
    rcases hg.moves f with h1 | h1 | ⟨k, h1, h2⟩
    · exact Or.inl h1
    · exact Or.inr h1
    · rw [hh] at h2
      cases h2
      exact absurd h1 (hb.2 _ hd)

theorem mirror_settled {c d : MirrorCall} {w w' : World} {r : Except Failure (Option RefreshAnswer)}
    (ha : (mirrorOutline env).apart c d) (hg : MirrorGuar env c w w') (h : (mirrorOutline env).post d r w) :
    (mirrorOutline env).post d r w' := by
  intro f k hd
  exact (h f k hd).continues hg.log (fun x hx he => ha _ (hx _ he) hd) (hg.mono f)

/-! ## One request -/

/-- Nothing is recorded yet about the hash `c` draws. -/
def Fresh (env : Env) (c : MirrorCall) (w : World) : Prop :=
  ∀ x ∈ w.log, ∀ y, rotation x = some y → c.draws env ≠ some y

/-- The request is between the two stores: its object holds the hash it drew, revoked or not. -/
structure Between (f h scope : String) (generation : Nat) (w : World) : Prop where
  rotated : Event.rotated f h ∈ w.log
  only : ∀ x ∈ w.log, rotation x = some (f, h) → x = .rotated f h
  held : (w.families f).currentHash = some h ∧
    ∃ m, (w.families f).familyMeta = some m ∧ m.scope = scope ∧ m.generation = generation

variable {c : MirrorCall} {f h : String}

theorem fresh_stable (c : MirrorCall) : ((mirrorOutline env).protocol c).Stable (Fresh env c) := by
  intro w w' hw hr _ x hx y hy hd
  exact hw x (hr.log.old (fun hE => (hE y hy).1 hd) hx) y hy hd

theorem between_stable (hd : c.draws env = some (f, h)) (scope : String) (generation : Nat) :
    ((mirrorOutline env).protocol c).Stable (Between f h scope generation) := by
  intro w w' hw hr _
  refine ⟨hr.log.mem hw.rotated, ?_, ?_⟩
  · intro x hx hy
    exact hw.only x (hr.log.old (fun hE => (hE _ hy).1 hd) hx) hy
  · obtain ⟨hcur, m, hm, h1, h2⟩ := hw.held
    rcases hr.held f h hd hcur with he | he
    · rw [he]
      exact ⟨hcur, m, hm, h1, h2⟩
    · rw [he]
      simp only [revoke, hm, RefreshFamilyStorage.burn]
      exact ⟨hcur, _, rfl, h1, h2⟩

theorem settled_of_fresh (hd : c.draws env = some (f, h)) {w : World} (hw : Fresh env c w) : Settled f h False w :=
  ⟨False.elim, fun hl => absurd hd (hw _ hl _ rfl), fun hr => absurd hd (hw _ hr _ rfl)⟩

theorem mirrorInv_log {w : World} (hi : MirrorInv w) {x : Event} (h1 : ∀ ids, x ≠ .familiesRevoked ids)
    (h2 : ∀ f h, x ≠ .mirrored f h) : MirrorInv { w with log := x :: w.log } := by
  have hlog : Continues (fun y => (∀ ids, y ≠ .familiesRevoked ids) ∧ ∀ f h, y ≠ .mirrored f h) w
      { w with log := x :: w.log } := by
    refine ⟨[x], rfl, fun y hy => ?_⟩
    rw [List.mem_singleton.1 hy]
    exact ⟨h1, h2⟩
  exact hi.families rfl hlog fun f => Or.inl rfl

/-- The lost mirror write is on record and the object is there to be burned. -/
theorem compensate_settles (hd : c.draws env = some (f, h)) {w : World} (hw : Event.mirrorLost f h ∈ w.log)
    (hlive : (w.families f).familyMeta.isSome = true) :
    wpE ((mirrorOutline env).protocol c) (compensate f h) (fun _ => Settled f h False) (fun _ => Settled f h False) w := by
  have hΓ := mirror_tolerant env c
  refine wpE_ioLogged hΓ.toClocked
    (P := fun w => Event.mirrorLost f h ∈ w.log ∧ (w.families f).familyMeta.isSome = true) ?_ ⟨hw, hlive⟩ ?_ ?_
  · exact fun w w' hw hr _ => ⟨hr.log.mem hw.1, (hr.mono f).alive hw.2⟩
  · rintro w e ⟨hl, hlive⟩ hi -
    obtain ⟨m, hm⟩ := Option.isSome_iff_exists.1 hlive
    have hb := burns_revokeFamily w f
    refine ⟨hΓ.burnInv hb hi, hΓ.burnGuar hb, False.elim, fun _ => ⟨id, fun _ => ?_⟩, fun _ => Or.inr hl⟩
    simpa using isRevoked_revoke hm
  · rintro w w' - ⟨hl, -⟩ hi hw' -
    have hb : Burns w w' := by
      rcases hw' with rfl | rfl
      · exact Burns.tick _ 0
      · exact burns_revokeFamily w f
    have hg := hΓ.burnGuar hb
    have hlog := hb.log
    refine ⟨mirrorInv_log (hΓ.burnInv hb hi) nofun nofun, ⟨?_, hg.mono, hg.moves⟩, False.elim, ?_, ?_⟩
    · refine ⟨[.compensationFailed f h], by rw [← hlog], fun x hx y hy => ?_⟩
      rw [List.mem_singleton.1 hx] at hy
      cases hy
      exact hd
    · exact fun _ => ⟨id, fun hn => absurd (List.mem_cons_self) hn⟩
    · exact fun _ => Or.inr (List.mem_cons_of_mem _ (hlog ▸ hl))

theorem mirror_guar (hd : c.draws env = some (f, h)) (w : World) (now : Nat) (scope : String) (generation : Nat) :
    MirrorGuar env c w { w with
      db := (mirrorStatement now f h scope generation w.db).2, log := mirrorEvents f h w.db ++ w.log } := by
  refine mirrorGuar_d1 rfl ⟨mirrorEvents f h w.db, rfl, fun x hx y hy => ?_⟩
  simp only [mirrorEvents, List.mem_singleton] at hx
  rw [hx] at hy
  split at hy <;> cases hy <;> exact hd

/-- A matched mirror write settles the rotation: no revocation of the family was recorded before it. -/
theorem settled_mirrored {scope : String} {generation : Nat} {w : World} (hi : MirrorInv w)
    (hw : Between f h scope generation w) (hrow : (w.db.refreshTokens.get? f).any (·.revokedAt.isNone) = true)
    {w' : World} (hlog : w'.log = .mirrored f h :: w.log) : Settled f h True w' := by
  obtain ⟨r, hr, hlive⟩ := (Option.any_eq_true _ _).1 hrow
  obtain ⟨hmem, hid⟩ := Table.get?_eq_some.1 hr
  refine ⟨fun _ => ⟨[], w.log, hlog, ?_⟩, ?_, fun _ => Or.inl (hlog ▸ List.mem_cons_self)⟩
  · intro ids hids hf
    exact hi.revoked ids hids r hmem (hid ▸ hf) (by simpa using hlive)
  · intro hl
    rw [hlog] at hl
    rcases List.mem_cons.1 hl with hl | hl
    · cases hl
    · cases hw.only _ hl rfl

/-- What follows a successful rotation: the mirror write, and the compensation if it is lost. -/
theorem mirroring_settles (hd : c.draws env = some (f, h)) {m : RefreshFamilyMeta} {w : World}
    (hw : Between f h m.scope m.generation w) (o : RotateOutcome) :
    wpE ((mirrorOutline env).protocol c)
      (do
        let now ← clock
        let updated ← tryCatch (mirror now f h m.scope m.generation) fun error => do
          compensate f h
          throw error
        if !updated then
          compensate f h
          pure .invalid
        else pure o)
      (fun o' => Settled f h (o' ≠ .invalid)) (fun _ => Settled f h False) w := by
  have hΓ := mirror_tolerant env c
  have hst := between_stable hd m.scope m.generation
  rw [wpE_bind]
  refine wpE_clock hΓ.toClocked hst hw fun w hw _ => ?_
  rw [wpE_bind, wpE_tryCatch]
  -- in between the object holds a family, and what it is to be mirrored with
  have hlive : ∀ {w}, Between f h m.scope m.generation w → (w.families f).familyMeta.isSome = true := by
    intro w hw
    obtain ⟨-, m', hm, -⟩ := hw.held
    simp [hm]
  have hown : ∀ {w}, Between f h m.scope m.generation w → ∀ m', (w.families f).familyMeta = some m' →
      m'.revoked = false → (w.families f).currentHash = some h ∧ m'.scope = m.scope ∧ m'.generation = m.generation := by
    intro w hw m' hm' _
    obtain ⟨hcur, m'', hm, h1, h2⟩ := hw.held
    rw [hm'] at hm
    cases hm
    exact ⟨hcur, h1, h2⟩
  refine wpE_ioLogged hΓ.toClocked hst hw ?_ ?_
  -- the write goes through: the row was open, or had been revoked
  · intro w e hw hi _
    refine ⟨mirrorInv_mirror hi (hown hw), mirror_guar hd w _ _ _, ?_⟩
    show wpE _ (if (!(w.db.refreshTokens.get? f).any (·.revokedAt.isNone)) = true then _ else _) _ _ _
    cases hrow : (w.db.refreshTokens.get? f).any (·.revokedAt.isNone) with
    | true =>
      rw [if_neg (by simp)]
      exact (settled_mirrored hi hw hrow (by simp [mirrorEvents, hrow])).imp fun _ => trivial
    | false =>
      rw [if_pos (by rfl), wpE_bind]
      refine wpE_imp (fun _ w hs => ?_) (fun _ w hs => hs) _ (compensate_settles hd ?_ ?_)
      · exact hs.imp fun hne => hne rfl
      · simp [mirrorEvents, hrow]
      · show (w.families f).familyMeta.isSome = true
        exact hlive hw
  -- the write fails, with or without an effect
  · intro w w' _ hw hi hw' _
    have hinv : MirrorInv w' ∧ MirrorGuar env c w w' ∧ w'.families = w.families := by
      rcases hw' with rfl | rfl
      · exact ⟨hi, mirrorGuar_burns (Burns.tick _ 0), rfl⟩
      · exact ⟨mirrorInv_mirror hi (hown hw), mirror_guar hd w _ _ _, rfl⟩
    obtain ⟨hi', hg, hfam⟩ := hinv
    refine ⟨mirrorInv_log hi' (by rintro _ ⟨⟩) (by rintro _ _ ⟨⟩), ⟨?_, hg.mono, hg.moves⟩, ?_⟩
    · refine hg.log.trans ⟨[.mirrorLost f h], rfl, fun x hx y hy => ?_⟩
      rw [List.mem_singleton.1 hx] at hy
      cases hy
      exact hd
    · rw [wpE_bind]
      refine compensate_settles hd List.mem_cons_self ?_
      show (w'.families f).familyMeta.isSome = true
      rw [hfam]
      exact hlive hw

/-- A burned object's row is revoked next. -/
theorem revoking_settles (hd : c.draws env = some (f, h)) {w : World} (hw : Fresh env c w)
    {p : RefreshTokenRow → Bool} {ids : List String} (hids : ∀ r : RefreshTokenRow, r.id ∈ ids → p r = true ∨ r.revokedAt ≠ none)
    (now : Nat) {Q : Unit → World → Prop} (hQ : ∀ w, Settled f h False w → Q () w) :
    wpE ((mirrorOutline env).protocol c)
      (d1Logged (fun _ => [.familiesRevoked ids]) fun db => ((), { db with
        refreshTokens := db.refreshTokens.update p (fun r => { r with revokedAt := some now }) fun _ => rfl }))
      Q (fun _ => Settled f h False) w := by
  refine wpE_d1Logged (mirror_tolerant env c).toClocked (fresh_stable c) hw ?_ fun w hw _ => settled_of_fresh hd hw
  rintro w w' - hw hi rfl -
  have hw' : Fresh env c { w with
      db := { w.db with
        refreshTokens := w.db.refreshTokens.update p (fun r => { r with revokedAt := some now }) fun _ => rfl }
      log := [.familiesRevoked ids] ++ w.log } := by
    intro x hx y hy
    rcases List.mem_cons.1 hx with rfl | hx
    · cases hy
    · exact hw x hx y hy
  refine ⟨mirrorInv_revoking hi _ _ _ fun r _ => hids r, mirrorGuar_d1 rfl ⟨[.familiesRevoked ids], rfl, ?_⟩,
    hQ _ (settled_of_fresh hd hw'), settled_of_fresh hd hw'⟩
  intro x hx y hy
  rw [List.mem_singleton.1 hx] at hy
  cases hy

/-- A refusal or a burned family, which the answer is not a rotation of. -/
theorem settled_refused {o : RotateOutcome} {w : World} (ho : ∀ token userId clientId resource scope authTime,
    o ≠ .rotated token userId clientId resource scope authTime) (hs : Settled f h False w) :
    Settled f h (∃ token userId clientId resource scope authTime,
      o = .rotated token userId clientId resource scope authTime) w := by
  refine hs.imp ?_
  rintro ⟨_, _, _, _, _, _, heq⟩
  exact ho _ _ _ _ _ _ heq

/-- The world once the object of `f` has rotated to `h`. -/
def rotatedWorld (w : World) (f h presentedHash nextScope : String) (m : RefreshFamilyMeta) : World :=
  { w with
    families := Function.update w.families f { w.families f with
      familyMeta := some (nextMeta w.nowSeconds nextScope m), currentHash := some h,
      used := insert presentedHash (w.families f).used }
    log := .rotated f h :: w.log }

section

variable {w : World} {presentedHash nextScope : String} {m : RefreshFamilyMeta}

theorem rotatedWorld_current : ((rotatedWorld w f h presentedHash nextScope m).families f).currentHash = some h := by
  simp [rotatedWorld]

theorem rotatedWorld_other {g : String} (hg : g ≠ f) :
    (rotatedWorld w f h presentedHash nextScope m).families g = w.families g := by
  simp [rotatedWorld, hg]

theorem rotatedWorld_log : Continues (fun x => x = .rotated f h) w (rotatedWorld w f h presentedHash nextScope m) :=
  ⟨[.rotated f h], rfl, fun _ hx => List.mem_singleton.1 hx⟩

theorem rotated_between (hd : c.draws env = some (f, h)) (hw : Fresh env c w) :
    Between f h (nextMeta w.nowSeconds nextScope m).scope (nextMeta w.nowSeconds nextScope m).generation
      (rotatedWorld w f h presentedHash nextScope m) := by
  refine ⟨List.mem_cons_self, ?_, rotatedWorld_current, nextMeta w.nowSeconds nextScope m, by simp [rotatedWorld], rfl, rfl⟩
  intro x hx hy
  rcases List.mem_cons.1 hx with rfl | hx
  · rfl
  · exact absurd hd (hw x hx _ hy)

theorem rotated_inv (hd : c.draws env = some (f, h)) (hi : MirrorInv w) (hw : Fresh env c w) :
    MirrorInv (rotatedWorld w f h presentedHash nextScope m) := by
  refine hi.families rfl (rotatedWorld_log.imp ?_) fun g => ?_
  · rintro x rfl
    exact ⟨by rintro _ ⟨⟩, by rintro _ _ ⟨⟩⟩
  · by_cases hg : g = f
    · subst hg
      refine Or.inr (Or.inr ⟨h, rotatedWorld_current, List.mem_cons_self, fun hm' => ?_⟩)
      rcases List.mem_cons.1 hm' with hm' | hm'
      · cases hm'
      · exact hw _ hm' _ rfl hd
    · exact Or.inl (rotatedWorld_other hg)

theorem rotated_guar (hp : c.presents env = some (f, presentedHash)) (hd : c.draws env = some (f, h))
    (hm : (w.families f).familyMeta = some m) (hc : (w.families f).currentHash = some presentedHash) (hrev : m.revoked = false) :
    MirrorGuar env c w (rotatedWorld w f h presentedHash nextScope m) := by
  refine ⟨rotatedWorld_log.imp ?_, fun g => ?_, fun g => ?_⟩
  · rintro x rfl y hy
    cases hy
    exact hd
  · by_cases hg : g = f
    · subst hg
      refine ⟨fun _ => by simp [rotatedWorld], fun hr => ?_⟩
      simp [RefreshFamilyStorage.isRevoked, hm, hrev] at hr
    · rw [rotatedWorld_other hg]
      exact FamilyMono.refl _
  · by_cases hg : g = f
    · subst hg
      exact Or.inr (Or.inr ⟨_, hp, hc⟩)
    · exact Or.inl (rotatedWorld_other hg)

end

theorem rotateRefreshToken_settles {presented secret clientId nextScope : String}
    (hp : c.presents env = some (familyIdOf presented, hashOpaqueToken env presented)) (hf : f = familyIdOf presented)
    (hh : h = hashOpaqueToken env (familyIdOf presented ++ "." ++ secret)) (hd : c.draws env = some (f, h))
    {w : World} (hw : Fresh env c w) :
    wpE ((mirrorOutline env).protocol c) (rotateRefreshToken env presented clientId nextScope secret)
      (fun o => Settled f h (∃ token userId clientId resource scope authTime,
        o = .rotated token userId clientId resource scope authTime)) (fun _ => Settled f h False) w := by
  have hΓ := mirror_tolerant env c
  subst hf hh
  rw [rotateRefreshToken, wpE_bind]
  refine wpE_io hΓ.toClocked (fresh_stable c) hw ?_ fun w hw _ => settled_of_fresh hd hw
  intro w e hw hi hallow
  set f := familyIdOf presented
  set h := hashOpaqueToken env (f ++ "." ++ secret)
  rcases hrot : Do.rotate w.nowSeconds (hashOpaqueToken env presented) h clientId nextScope (w.families f) with ⟨r, s'⟩
  simp only [hrot] at hallow ⊢
  cases rotate_effect hrot with
  | refused hr =>
    have hsame : { w with families := Function.update w.families f (w.families f), log := rotateEvents f h r ++ w.log } = w := by
      have hev : rotateEvents f h r = [] := by
        rcases hr with rfl | rfl | rfl | ⟨k, rfl⟩ <;> rfl
      rw [hev, Function.update_eq_self]
      rfl
    rw [hsame]
    have hs := settled_of_fresh hd hw
    refine ⟨hi, hΓ.toClocked.guarRefl w, ?_, fun _ => hs⟩
    rcases hr with rfl | rfl | rfl | ⟨k, rfl⟩ <;> exact settled_refused (by rintro _ _ _ _ _ _ ⟨⟩) hs
  | @burned _ m hm hr =>
    have hburn : (w.families f).burn m = Do.revoke (w.families f) := by
      simp [Do.revoke, hm]
    have hev : rotateEvents f h r = [] := by
      rcases hr with rfl | rfl <;> rfl
    rw [hev, hburn]
    have hb := burns_revokeFamily w f
    have hw' : Fresh env c { w with families := Function.update w.families f (Do.revoke (w.families f)) } := hw
    refine ⟨hΓ.burnInv hb hi, hΓ.burnGuar hb, ?_, fun _ => settled_of_fresh hd hw'⟩
    -- the row follows the object: once where it is still open, once over an earlier revocation
    rcases hr with rfl | rfl
    · dsimp only
      rw [wpE_bind, markRefreshTokenRevoked, wpE_bind]
      refine wpE_clock hΓ.toClocked (fresh_stable c) hw' fun w hw _ => ?_
      refine revoking_settles hd hw (fun r hid => ?_) _ fun w hs => settled_refused (by rintro _ _ _ _ _ _ ⟨⟩) hs
      have hr : r.id = f := List.mem_singleton.1 hid
      cases hrev : r.revokedAt <;> simp [hr]
    · dsimp only
      rw [wpE_bind]
      refine wpE_clock hΓ.toClocked (fresh_stable c) hw' fun w hw _ => ?_
      rw [wpE_bind]
      refine revoking_settles hd hw (fun r hid => ?_) _ fun w hs => settled_refused (by rintro _ _ _ _ _ _ ⟨⟩) hs
      rw [List.mem_singleton.1 hid]
      simp
  | @rotated m hm hc hrev _ _ =>
    refine ⟨rotated_inv hd hi hw, rotated_guar hp hd hm hc hrev, ?_, fun hfail => ?_⟩
    · refine wpE_imp (fun o w hs => hs.imp ?_) (fun _ _ hs => hs) _ (mirroring_settles hd (rotated_between hd hw) _)
      rintro ⟨_, _, _, _, _, _, rfl⟩ ⟨⟩
    · -- a drawn hash that the history holds already
      exact absurd hd (hw _ (hallow hfail f h List.mem_cons_self) _ rfl)

/-- A refresh request meets its triple. -/
theorem refresh_safe {client : ClientRow} {form : RefreshForm} {secret : String} {w : World} (hi : MirrorInv w)
    (hw : Fresh env (.refresh client form secret) w) :
    wpE ((mirrorOutline env).protocol (.refresh client form secret)) (some <$> handleRefreshToken env client form secret)
      (fun a => (mirrorOutline env).post (.refresh client form secret) (.ok a))
      (fun x => (mirrorOutline env).post (.refresh client form secret) (.error x)) w := by
  have hc := (mirror_tolerant env (.refresh client form secret)).toClocked
  rw [map_eq_pure_bind, wpE_bind, handleRefreshToken]
  cases hform : form.refreshToken with
  | none =>
    intro f h hd
    simp [MirrorCall.draws, hform] at hd
  | some presented =>
    have hp : (MirrorCall.refresh client form secret).presents env =
        some (familyIdOf presented, hashOpaqueToken env presented) := by simp [MirrorCall.presents, hform]
    have hd : (MirrorCall.refresh client form secret).draws env = some (familyIdOf presented,
        hashOpaqueToken env (familyIdOf presented ++ "." ++ secret)) := by simp [MirrorCall.draws, hform]
    set f := familyIdOf presented with hf
    set h := hashOpaqueToken env (f ++ "." ++ secret) with hh
    -- a settled family is all that is asked of the answer
    have hpost : ∀ {r w R}, Settled f h R w → ((∃ response, r = .ok (some (.issued response))) → R) →
        (mirrorOutline env).post (.refresh client form secret) r w := by
      intro r w R hs hR g k hd'
      rw [hd] at hd'
      cases hd'
      exact hs.imp hR
    have hfail : ∀ {x : Failure} {w}, Settled f h False w →
        (mirrorOutline env).post (.refresh client form secret) (.error x) w :=
      fun hs => hpost hs (by rintro ⟨_, hr⟩; cases hr)
    -- and it stays settled, whatever the others do
    have hstable : ∀ R, ((mirrorOutline env).protocol (.refresh client form secret)).Stable (Settled f h R) :=
      fun R w w' hs hr _ => hs.continues hr.log (fun x hx he => (hx _ he).1 hd) (hr.mono f)
    dsimp only
    rw [wpE_bind, wpE_require]
    refine ⟨fun _ => ?_, fun _ => hfail (settled_of_fresh hd hw)⟩
    rw [wpE_bind]
    -- the checks write nothing
    refine (refreshChecks_quiet _ _ _ _).wpE hc (fresh_stable _) hw hi (fun scope w hw _ => ?_)
      fun x w hw _ => hfail (settled_of_fresh hd hw)
    rw [wpE_bind]
    -- the rotation, then the answer to what it found
    refine wpE_mono (fun o w hi hs => ?_) (fun x w _ hs => hfail hs) _ ‹_› (rotateRefreshToken_settles hp hf hh hd hw)
    cases o with
    | rotated token userId clientId resource scope authTime =>
      have hs : Settled f h True w := hs.imp fun _ => ⟨_, _, _, _, _, _, rfl⟩
      refine (answerRotation_quiet client _).wpE hc (hstable True) hs hi (fun a w hs _ => hpost hs fun _ => trivial)
        fun x w hs _ => hpost hs fun _ => trivial
    | reuseDetected familyId =>
      have hs : Settled f h False w := hs.imp False.elim
      rw [answerRotation, wpE_bind]
      exact recordAudit_quiet.wpE hc (hstable False) hs hi (fun _ w hs _ => hfail hs) fun x w hs _ => hfail hs
    | tooSoon retryAfterSeconds =>
      exact hpost (show Settled f h False w from hs.imp False.elim) (by rintro ⟨_, hr⟩; cases hr)
    | reauthorizationRequired familyId => exact hfail (hs.imp False.elim)
    | invalid => exact hfail (hs.imp False.elim)

/-- A revoker meets its triple: it records no rotation. -/
theorem revoke_safe {p : RefreshTokenRow → Bool} {w : World} {Q : Option RefreshAnswer → World → Prop}
    {X : Failure → World → Prop} (hQ : ∀ a w, Q a w) (hX : ∀ x w, X x w) :
    wpE ((mirrorOutline env).protocol (.revoke p)) (do let _ ← revokeMatchingFamilies p; pure none) Q X w := by
  have hΓ := mirror_tolerant env (.revoke p)
  have ht := stable_true ((mirrorOutline env).protocol (.revoke p))
  rw [wpE_bind, revokeMatchingFamilies, wpE_bind]
  refine wpE_clock hΓ.toClocked ht trivial fun w₁ _ _ => ?_
  rw [wpE_bind]
  refine wpE_d1Logged hΓ.toClocked ht trivial ?_ fun w _ _ => hX _ w
  rintro w w' - - hi rfl -
  have hi' := mirrorInv_revoking hi (fun r => p r && r.revokedAt.isNone) w₁.nowSeconds (revokedIds p w.db) ?_
  · refine ⟨hi', mirrorGuar_d1 rfl ⟨[.familiesRevoked (revokedIds p w.db)], rfl, ?_⟩, ?_, hX _ _⟩
    · intro x hx y hy
      rw [List.mem_singleton.1 hx] at hy
      cases hy
    · rw [wpE_bind]
      exact revokeRefreshFamilyDurableObjects_wpE hΓ ht trivial hi' fun w _ _ => hQ _ w
  · intro r hr hid
    obtain ⟨r', hr', he⟩ := List.mem_map.1 hid
    obtain ⟨hmem, hp⟩ := Table.mem_select.1 hr'
    rw [Table.key_inj hr hmem he.symm]
    exact Or.inl hp

theorem mirror_valid : (mirrorOutline env).Valid where
  symm := fun h x hd hc => h x hc hd
  besideSymm := fun h => ⟨h.2, h.1⟩
  arrives := by
    intro P c hc t ht
    refine ⟨fun x hx hx' => (hc.1 x hx' t ht).1 hx, fun hrun => ⟨?_, fun x hx => (hc.1 x hx t ht).2⟩⟩
    intro x hx hx'
    rw [hc.2 x hx' t ht hx] at hrun
    cases hrun
  traceArrives := fun h x hx y hy => by
    obtain ⟨c, hc, hd⟩ := h x hx y hy
    exact ⟨c, List.mem_append_left _ hc, hd⟩
  traceStep := by
    intro cs c w w' hc h hg x hx y hy
    by_cases hd : c.draws env = some y
    · exact ⟨c, hc, hd⟩
    · exact h x (hg.log.old (fun hE => hd (hE y hy)) hx) y hy
  ok := fun c => (mirror_tolerant env c).ok
  compat := fun ha hb _ hg => mirror_compat ha hb hg
  stable := mirror_stable
  settled := fun ha _ hg _ h => mirror_settled ha hg h
  safe := by
    intro P c hc hP
    apply wp_of_wpE
    cases c with
    | refresh client form secret =>
      refine refresh_safe hP.inv fun x hx y hy hd => ?_
      obtain ⟨d, hd', hdraws⟩ := hP.trace x hx y hy
      obtain ⟨t, ht, rfl⟩ := List.mem_map.1 hd'
      exact (hc.1 y hd t ht).1 hdraws
    | revoke p => exact revoke_safe (fun _ _ f h hd => by cases hd) (fun _ _ f h hd => by cases hd)

end

/-- A token that a request draws. -/
def drawnHash (env : Env) (presented secret : String) : String :=
  hashOpaqueToken env (familyIdOf presented ++ "." ++ secret)

/-- Rotation agrees with revocation. In every pool reachable from a world without history in which
live objects and live rows agree: a request that answers with tokens mirrored its hash before any
revocation of the family committed; a request whose mirror write was lost answers with none and,
unless the compensation failed too, leaves its object revoked; and when no request is running and no
compensation failed, live objects and live rows agree. -/
theorem rotation_agrees_with_revocation (env : Env) (w₀ : World) (hlog : w₀.log = [])
    (hagree : ∀ f m h, (w₀.families f).familyMeta = some m → (w₀.families f).currentHash = some h →
      m.revoked = false → ∀ r ∈ w₀.db.refreshTokens, r.id = f → r.revokedAt = none → Agrees r m h)
    (P : Pool MirrorCall Input World (Except Failure (Option RefreshAnswer)))
    (hP : (mirrorSystem env).Reach ⟨w₀, []⟩ P) :
    (∀ client form secret presented response,
      (.refresh client form secret, .done (.ok (some (.issued response)))) ∈ P.threads →
      form.refreshToken = some presented →
      RecordedWhen (fun older => ∀ ids, Event.familiesRevoked ids ∈ older → familyIdOf presented ∉ ids)
        (.mirrored (familyIdOf presented) (drawnHash env presented secret)) P.store.log) ∧
    (∀ client form secret presented r, (.refresh client form secret, .done r) ∈ P.threads →
      form.refreshToken = some presented →
      Event.mirrorLost (familyIdOf presented) (drawnHash env presented secret) ∈ P.store.log →
      (∀ response, r ≠ .ok (some (.issued response))) ∧
      (Event.compensationFailed (familyIdOf presented) (drawnHash env presented secret) ∉ P.store.log →
        (P.store.families (familyIdOf presented)).isRevoked = true)) ∧
    ((∀ client form secret p, (.refresh client form secret, p) ∈ P.threads → p.isDone = true) →
      (∀ f h, Event.compensationFailed f h ∉ P.store.log) →
      ∀ f m h, (P.store.families f).familyMeta = some m → (P.store.families f).currentHash = some h →
        m.revoked = false → ∀ r ∈ P.store.db.refreshTokens, r.id = f → r.revokedAt = none → Agrees r m h) := by
  have h₀ : MirrorInv w₀ := by
    refine ⟨?_, fun f m h hm hh hrev r hr hid hlive => Or.inl (hagree f m h hm hh hrev r hr hid hlive)⟩
    intro ids hids
    rw [hlog] at hids
    cases hids
  have ht₀ : (mirrorOutline env).trace [] w₀ := by
    intro x hx
    rw [hlog] at hx
    cases hx
  have hH := mirror_valid.reach (Outline.holds_start h₀ ht₀) hP
  have hdraws : ∀ {client form secret presented}, form.refreshToken = some presented →
      (MirrorCall.refresh client form secret).draws env = some (familyIdOf presented, drawnHash env presented secret) := by
    intro client form secret presented hform
    simp [MirrorCall.draws, drawnHash, hform]
  refine ⟨?_, ?_, ?_⟩
  · intro client form secret presented response ht hform
    exact (hH.post ht _ _ (hdraws hform)).committed ⟨response, rfl⟩
  · intro client form secret presented r ht hform hl
    obtain ⟨h1, h2⟩ := (hH.post ht _ _ (hdraws hform)).lost hl
    exact ⟨fun response hr => h1 ⟨response, hr⟩, h2⟩
  · intro hidle hcomp f m h hm hh hrev r hr hid hlive
    rcases hH.inv.agree f m h hm hh hrev r hr hid hlive with ha | ha
    · exact ha
    · -- the request that rotated the hash in is over, so the hash is mirrored or the object revoked
      obtain ⟨c, hc, hd⟩ := hH.trace _ ha.1 _ rfl
      obtain ⟨⟨c, p⟩, ht, rfl⟩ := List.mem_map.1 hc
      cases c with
      | revoke q => cases hd
      | refresh client form secret =>
        cases p with
        | step g k => exact absurd (hidle _ _ _ _ ht) (by simp [Prog.isDone])
        | done res =>
          have hs := hH.post ht f h hd
          rcases hs.mirrored ha.1 with hmir | hlost
          · exact absurd hmir ha.2
          · have := (hs.lost hlost).2 (hcomp f h)
            simp [RefreshFamilyStorage.isRevoked, hm, hrev] at this

/-! ## A run -/

def sampleRefresh : MirrorCall :=
  .refresh Deployment.client { refreshToken := some "rtf_a.secret", resource := none, scope := none } "next"

/-- The request checks and rotates, a revoker marks the row, and then the mirror write runs. -/
def mirrorSchedule : List (System.Move MirrorCall Input) :=
  .arrive sampleRefresh :: List.replicate 10 (.run 0 Deployment.ok) ++
    [.arrive (.revoke fun r => r.userId = "usr_a"), .run 1 Deployment.ok, .run 1 Deployment.ok, .run 0 Deployment.ok,
      .run 0 Deployment.ok, .run 0 Deployment.ok]

theorem rotation_agrees_with_revocation_lost :
    let P := (mirrorSystem Deployment.env).moves ⟨Deployment.familyWorld, []⟩ mirrorSchedule
    Event.mirrorLost "rtf_a" (drawnHash Deployment.env "rtf_a.secret" "next") ∈ P.store.log ∧
      (P.store.families "rtf_a").isRevoked = true := by
  intro P
  have hreach : (mirrorSystem Deployment.env).Reach ⟨Deployment.familyWorld, []⟩ P := by
    refine System.reach_moves mirrorSchedule ⟨⟨?_, ?_⟩, nofun, nofun, nofun, nofun, nofun, nofun, nofun, nofun, nofun,
      nofun, ⟨nofun, nofun⟩, nofun, nofun, nofun, nofun, nofun, trivial⟩
    · exact fun _ _ t ht => (List.not_mem_nil ht).elim
    · exact fun _ _ t ht => (List.not_mem_nil ht).elim
  have hagree : ∀ f m h, (Deployment.familyWorld.families f).familyMeta = some m →
      (Deployment.familyWorld.families f).currentHash = some h → m.revoked = false →
      ∀ r ∈ Deployment.familyWorld.db.refreshTokens, r.id = f → r.revokedAt = none → Agrees r m h := by
    intro f m h hm hh _ r hr hid _
    rcases Table.mem_insert.1 hr with hr | ⟨rfl, -⟩
    · exact (Table.not_mem_empty hr).elim
    · subst hid
      cases hm
      cases hh
      exact ⟨rfl, rfl, rfl⟩
  have h := (rotation_agrees_with_revocation Deployment.env Deployment.familyWorld rfl hagree P hreach).2.1
  have hdone : P.finished 0 = some (sampleRefresh, .error (invalidRefreshToken
      "refresh token unknown, expired, revoked, or lost a rotation race")) := by rfl
  have hlost : Event.mirrorLost "rtf_a" (drawnHash Deployment.env "rtf_a.secret" "next") ∈ P.store.log := by decide
  exact ⟨hlost, (h _ _ _ _ _ (Pool.mem_of_finished hdone) rfl hlost).2 (by decide)⟩

end Keyforge.Refresh
