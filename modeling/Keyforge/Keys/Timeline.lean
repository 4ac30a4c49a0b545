/-
Committed versions in time. A key becomes active only after it has been pending for the propagation
window, and one that was active is retired, not dropped. So of two keyrings that were current at two
moments, the older publishes what the newer signs with, unless the key was staged between them; and
the newer publishes what the older signs with, unless the grace period has run out.
-/
import Keyforge.Keys.Rotation

namespace Keyforge.Keys

open Tokens

/-- A committed version: the second its rotation is dated, and when it was written, in milliseconds. -/
structure Version where
  version : Nat
  rotatedAt : Nat
  writtenMs : Nat
  keyring : StoredKeyring
  deriving DecidableEq, Repr

/-- `v` is made from `d`, no earlier than it is dated, and as the schedule `G` has it. -/
structure Follows (G : Version → Version → Prop) (v d : Version) : Prop where
  version : v.version = d.version + 1
  written : d.writtenMs ≤ v.writtenMs
  dated : v.rotatedAt * 1000 ≤ v.writtenMs
  succeeds : Succeeds d.keyring v.rotatedAt v.keyring
  schedule : G d v

/-- Versions, newest first. -/
structure Timeline (G : Version → Version → Prop) (l : List Version) : Prop where
  chain : l.IsChain (Follows G)
  sound : ∀ v ∈ l, Sound v.keyring

/-- The keyring was the newest at this moment. -/
def Current (l : List Version) (ms : Nat) (keyring : StoredKeyring) : Prop :=
  ∃ v ∈ l, v.keyring = keyring ∧ v.writtenMs ≤ ms ∧ ∀ v' ∈ l, v.version < v'.version → ms ≤ v'.writtenMs

section

variable {G : Version → Version → Prop} {l : List Version} {v d c : Version} {keyring next : StoredKeyring} {pair : KeyPair}
  {rotatedAt : Nat} {kid : String}

/-- A key that is active or pending after a rotation was so before it, or is the one it drew. -/
theorem live_rotation (h : rotation (some keyring) pair rotatedAt = .next next) (hk : next.pendingKid = some kid) :
    next.pendingSince = some rotatedAt := by
  rcases rotation_cases h with ⟨-, rfl⟩ | ⟨pendingKid, pendingSince, -, -, -, rfl, -⟩
  · rfl
  · cases hk

theorem Timeline.tail (h : Timeline G (v :: l)) : Timeline G l :=
  ⟨h.chain.tail, fun w hw => h.sound w (List.mem_cons_of_mem _ hw)⟩

theorem Timeline.follows (h : Timeline G (v :: d :: l)) : Follows G v d :=
  (List.isChain_cons_cons.1 h.chain).1

/-- Later versions have greater numbers and were written later. -/
theorem Timeline.newest (h : Timeline G (v :: l)) : ∀ d ∈ l, d.version < v.version ∧ d.writtenMs ≤ v.writtenMs := by
  induction l generalizing v with
  | nil => exact fun _ hd => absurd hd List.not_mem_nil
  | cons e rest ih =>
    have hf := h.follows
    have he : e.version < v.version ∧ e.writtenMs ≤ v.writtenMs := ⟨by rw [hf.version]; exact Nat.lt_succ_self _, hf.written⟩
    intro d hd
    rcases List.mem_cons.1 hd with rfl | hd
    · exact he
    · obtain ⟨h1, h2⟩ := ih h.tail d hd
      exact ⟨h1.trans he.1, h2.trans he.2⟩

theorem Timeline.written_mono (h : Timeline G l) (hc : c ∈ l) (hd : d ∈ l) (hle : c.version ≤ d.version) :
    c.writtenMs ≤ d.writtenMs := by
  induction l with
  | nil => cases hc
  | cons v rest ih =>
    rcases List.mem_cons.1 hd with rfl | hd'
    · rcases List.mem_cons.1 hc with rfl | hc'
      · exact le_rfl
      · exact (h.newest c hc').2
    · rcases List.mem_cons.1 hc with rfl | hc'
      · exact absurd (h.newest d hd').1 (by omega)
      · exact ih h.tail hc' hd'

/-- Two versions with one number are the same. -/
theorem Timeline.eq_of_version (h : Timeline G l) (hc : c ∈ l) (hd : d ∈ l) (he : c.version = d.version) : c = d := by
  induction l with
  | nil => cases hc
  | cons v rest ih =>
    rcases List.mem_cons.1 hc with rfl | hc' <;> rcases List.mem_cons.1 hd with rfl | hd'
    · rfl
    · exact absurd (h.newest d hd').1 (by omega)
    · exact absurd (h.newest c hc').1 (by omega)
    · exact ih h.tail hc' hd'

/-! ## What a newer version keeps -/

/-- After `c`, a version retired the key, and up to `d` nothing has dropped it. -/
def RetiredSince (G : Version → Version → Prop) (l : List Version) (c d : Version) (kid : String) : Prop :=
  ∃ m ∈ l, ∃ e ∈ l, Follows G m e ∧ m.keyring.activeKid ≠ e.keyring.activeKid ∧ c.version < m.version ∧
    m.version ≤ d.version ∧ (RetiredAt d.keyring kid m.rotatedAt ∨
      ∃ m' ∈ l, m'.version ≤ d.version ∧ m.rotatedAt + RETIRED_GRACE_SECONDS ≤ m'.rotatedAt ∧ m'.rotatedAt * 1000 ≤ m'.writtenMs)

theorem RetiredSince.cons {d' : Version} (h : RetiredSince G l c d kid) (hd : d.version ≤ d'.version)
    (hr : ∀ at', RetiredAt d.keyring kid at' → RetiredAt d'.keyring kid at' ∨
      ∃ m' ∈ v :: l, m'.version ≤ d'.version ∧ at' + RETIRED_GRACE_SECONDS ≤ m'.rotatedAt ∧ m'.rotatedAt * 1000 ≤ m'.writtenMs) :
    RetiredSince G (v :: l) c d' kid := by
  obtain ⟨m, hm, e, he, hf, hne, hlt, hle, hout⟩ := h
  refine ⟨m, List.mem_cons_of_mem _ hm, e, List.mem_cons_of_mem _ he, hf, hne, hlt, hle.trans hd, ?_⟩
  rcases hout with hat | ⟨m', hm', hle', hgrace, hdated⟩
  · exact hr _ hat
  · exact Or.inr ⟨m', List.mem_cons_of_mem _ hm', hle'.trans hd, hgrace, hdated⟩

/-- What an older version signs with is active in a newer one, or has retired since. -/
theorem Timeline.active_or_retired (h : Timeline G l) (hc : c ∈ l) (hd : d ∈ l) (hle : c.version ≤ d.version)
    (hk : c.keyring.activeKid = kid) : d.keyring.activeKid = kid ∨ RetiredSince G l c d kid := by
  induction l generalizing d with
  | nil => cases hc
  | cons v rest ih =>
    rcases List.mem_cons.1 hd with rfl | hd'
    · rcases List.mem_cons.1 hc with rfl | hc
      · exact Or.inl hk
      · cases rest with
        | nil => cases hc
        | cons e rest =>
          have hf := h.follows
          have he : e ∈ e :: rest := List.mem_cons_self
          obtain ⟨pair, hrot⟩ := hf.succeeds.rotated
          have hsound := h.sound e (List.mem_cons_of_mem _ he)
          have hce : c.version ≤ e.version := by
            rcases List.mem_cons.1 hc with rfl | hc
            · exact le_rfl
            · exact (h.tail.newest c hc).1.le
          rcases ih h.tail hc he hce with hactive | hretired
          · by_cases hsame : d.keyring.activeKid = e.keyring.activeKid
            · exact Or.inl (hsame.trans hactive)
            · refine Or.inr ⟨d, List.mem_cons_self, e, List.mem_cons_of_mem _ he, hf, hsame, ?_, le_rfl, Or.inl ?_⟩
              · rw [hf.version]
                omega
              · exact hactive ▸ (active_rotation hsound hrot).resolve_left hsame
          · refine Or.inr (hretired.cons (by rw [hf.version]; omega) fun at' hat => ?_)
            rcases retiredAt_rotation hsound hrot hat with hat | hgrace
            · exact Or.inl hat
            · exact Or.inr ⟨d, List.mem_cons_self, le_rfl, hgrace, hf.dated⟩
    · rcases List.mem_cons.1 hc with rfl | hc'
      · exact absurd (h.newest d hd').1 (by omega)
      · exact (ih h.tail hc' hd' hle).imp_right fun hr => hr.cons le_rfl fun _ hat => Or.inl hat

/-! ## What an older version already has -/

/-- After `d`, one version staged the key, and the next, no later than `c`, activated it. -/
def StagedSince (G : Version → Version → Prop) (l : List Version) (d c : Version) : Prop :=
  ∃ e ∈ l, ∃ s ∈ l, ∃ a ∈ l, Follows G s e ∧ Follows G a s ∧ a.keyring.activeKid ≠ s.keyring.activeKid ∧
    d.version < s.version ∧ a.version ≤ c.version ∧ s.rotatedAt + JWKS_PROPAGATION_SECONDS ≤ a.rotatedAt

/-- What a newer version signs with is active or pending in an older one, or was staged since. -/
theorem Timeline.live_or_staged (h : Timeline G l) (hc : c ∈ l) (hd : d ∈ l) (hle : d.version ≤ c.version)
    (hk : c.keyring.activeKid = kid) :
    (d.keyring.activeKid = kid ∨ d.keyring.pendingKid = some kid) ∨ StagedSince G l d c := by
  induction l generalizing c with
  | nil => cases hc
  | cons v rest ih =>
    have hmono : ∀ {c c' : Version}, c.version ≤ c'.version → StagedSince G rest d c → StagedSince G (v :: rest) d c' := by
      rintro c c' hcc ⟨e, he, s, hs, a, ha, hfs, hfa, hne, hlt, hle, hwindow⟩
      exact ⟨e, List.mem_cons_of_mem _ he, s, List.mem_cons_of_mem _ hs, a, List.mem_cons_of_mem _ ha, hfs, hfa, hne, hlt,
        hle.trans hcc, hwindow⟩
    rcases List.mem_cons.1 hc with rfl | hc'
    · rcases List.mem_cons.1 hd with rfl | hd
      · exact Or.inl (Or.inl hk)
      · cases rest with
        | nil => cases hd
        | cons s rest =>
          have hf := h.follows
          have hsmem : s ∈ s :: rest := List.mem_cons_self
          have hds : d.version ≤ s.version := by
            rcases List.mem_cons.1 hd with rfl | hd
            · exact le_rfl
            · exact (h.tail.newest d hd).1.le
          by_cases hsame : c.keyring.activeKid = s.keyring.activeKid
          · exact (ih h.tail hsmem hd hds (hsame.symm.trans hk)).imp_right (hmono (by rw [hf.version]; omega))
          · -- the key was pending in the version before
            obtain ⟨hpending, pendingSince, hsince, hwindow⟩ := hf.succeeds.activated hsame
            rcases List.mem_cons.1 hd with rfl | hd
            · exact Or.inl (Or.inr (hpending.trans (congrArg some hk)))
            · cases rest with
              | nil => cases hd
              | cons e rest =>
                have hfs := h.tail.follows
                obtain ⟨pair, hrot⟩ := hfs.succeeds.rotated
                rw [live_rotation hrot hpending, Option.some.injEq] at hsince
                refine Or.inr ⟨e, by simp, s, by simp, c, List.mem_cons_self, hfs, hf, hsame, ?_, le_rfl, hsince ▸ hwindow⟩
                exact (h.tail.newest d hd).1
    · rcases List.mem_cons.1 hd with rfl | hd'
      · exact absurd (h.newest c hc').1 (by omega)
      · exact (ih h.tail hc' hd' hle hk).imp_right (hmono le_rfl)

/-! ## Two keyrings that were current -/

/-- How a keyring from which one signs and one that is published at another moment can be apart: the key
retired after the first was current, or it was staged after the second was. -/
theorem Timeline.published_or (h : Timeline G l) {signerMs publisherMs now : Nat} {signer publisher : StoredKeyring}
    (hsigner : Current l signerMs signer) (hpublisher : Current l publisherMs publisher) (hnow : publisherMs ≤ now * 1000 + 999) :
    signer.activeKid ∈ (publishedKeys publisher now).map (·.kid) ∨
      (∃ m ∈ l, ∃ e ∈ l, Follows G m e ∧ m.keyring.activeKid ≠ e.keyring.activeKid ∧ signerMs ≤ m.writtenMs ∧
        m.rotatedAt + RETIRED_GRACE_SECONDS ≤ now) ∨
      ∃ e ∈ l, ∃ s ∈ l, ∃ a ∈ l, Follows G s e ∧ Follows G a s ∧ a.keyring.activeKid ≠ s.keyring.activeKid ∧
        publisherMs ≤ s.writtenMs ∧ a.writtenMs ≤ signerMs ∧ s.rotatedAt + JWKS_PROPAGATION_SECONDS ≤ a.rotatedAt := by
  obtain ⟨c, hc, rfl, hcms, hcnext⟩ := hsigner
  obtain ⟨d, hd, rfl, hdms, hdnext⟩ := hpublisher
  rcases le_total c.version d.version with hle | hle
  · rcases h.active_or_retired hc hd hle rfl with hactive | ⟨m, hm, e, he, hf, hne, hlt, hmd, hout⟩
    · exact Or.inl ((h.sound d hd).published (Or.inl hactive))
    · rcases hout with hat | ⟨m', hm', hle', hgrace, hdated⟩
      · have hpublished : c.keyring.activeKid ∈ (publishedKeys d.keyring now).map (·.kid) ∨ _ := hat.published
        rcases hpublished with hp | hgrace
        · exact Or.inl hp
        · exact Or.inr (Or.inl ⟨m, hm, e, he, hf, hne, hcnext m hm hlt, hgrace⟩)
      · -- the rotation that dropped the key was dated before now
        have hm'ms := h.written_mono hm' hd hle'
        exact Or.inr (Or.inl ⟨m, hm, e, he, hf, hne, hcnext m hm hlt, by omega⟩)
  · rcases h.live_or_staged hc hd hle rfl with hlive | ⟨e, he, s, hs, a, ha, hfs, hfa, hne, hlt, hac, hwindow⟩
    · exact Or.inl ((h.sound d hd).published hlive)
    · exact Or.inr (Or.inr ⟨e, he, s, hs, a, ha, hfs, hfa, hne, hdnext s hs hlt, (h.written_mono ha hc hac).trans hcms, hwindow⟩)

/-- A new version leaves what was current current. -/
theorem Current.cons {ms : Nat} {keyring : StoredKeyring} (h : Current l ms keyring) (hv : ms ≤ v.writtenMs) :
    Current (v :: l) ms keyring := by
  obtain ⟨d, hd, hk, hw, hnext⟩ := h
  refine ⟨d, List.mem_cons_of_mem _ hd, hk, hw, fun v' hv' hlt => ?_⟩
  rcases List.mem_cons.1 hv' with rfl | hv'
  · exact hv
  · exact hnext v' hv' hlt

/-- The newest version is current. -/
theorem Timeline.current (h : Timeline G (v :: l)) {ms : Nat} (hv : v.writtenMs ≤ ms) : Current (v :: l) ms v.keyring := by
  refine ⟨v, List.mem_cons_self, rfl, hv, fun v' hv' hlt => ?_⟩
  rcases List.mem_cons.1 hv' with rfl | hv'
  · exact absurd hlt (lt_irrefl _)
  · exact absurd (h.newest v' hv').1 (by omega)

end

end Keyforge.Keys
