/-
Who knows a key when it signs. Within the fleet every isolate verifies what any isolate signs until the
token expires. Outside it a consumer may use a document that was served before the key was staged: the
margin is counted from the second the rotation is dated, not from the write.
-/
import Keyforge.Keys.Isolates

namespace Keyforge.Keys

open Db Tokens

/-! ## Verification within the fleet -/

/-- Rotations are dated to the second in which they are called, and have written within 90 seconds of
it; those whose storage calls take no time are among them. -/
def promptSchedule : Fleet.Schedule where
  dates := fun rotatedAt nowMs => rotatedAt = nowMs / 1000
  follows := fun _ v => v.writtenMs < (v.rotatedAt + 90) * 1000

section

variable {G : Version → Version → Prop} {s : Fleet}

/-- Where a version is committed, a load returns a keyring. -/
theorem FleetInv.load_isSome (hi : FleetInv G s) {v : Version} (hv : v ∈ s.versions) : s.load.isSome := by
  cases hl : s.versions with
  | nil =>
    rw [hl] at hv
    cases hv
  | cons c rest =>
    have hrow := hi.row
    rw [hl, List.head?_cons, Option.map_some, Option.map_eq_some_iff] at hrow
    obtain ⟨row, hr, he⟩ := hrow
    have hk : row.keyring = c.keyring := (Prod.mk.injEq .. |>.mp he).2
    have husable := (hi.timeline.sound c (hl ▸ List.mem_cons_self)).usable
    rw [← hk] at husable
    rw [Fleet.load, hr]
    show ((some row.keyring).filter hasUsableActiveKey).isSome
    rw [Option.filter_some, if_pos husable]
    rfl

/-- A token of at most 15 minutes is signed with a key that every isolate verifies with, from then on
until the token expires. -/
theorem signed_verifiable {s₀ : Fleet} (h₀ : Starts s₀) (h : Fleet.Reach promptSchedule s₀ s) {t : Signed} (ht : t ∈ s.tokens)
    (hlife : t.jwt.exp ≤ t.jwt.iat + 15 * 60) (hexp : s.nowMs ≤ t.jwt.exp * 1000) (i : Nat) :
    ∃ jwks, (localJwkSet s.nowMs s.load (s.isolates i)).1 = some jwks ∧ ∃ jwk ∈ jwks, jwk.kid = some t.jwt.kid := by
  have hi : FleetInv promptSchedule.follows s := fleet_inv (fun rotatedAt nowMs hd => by
    rw [show rotatedAt = nowMs / 1000 from hd]
    exact Nat.div_mul_le_self nowMs 1000) h₀ h
  obtain ⟨hsigned, hiat, signer, ⟨signerMs, hsigner, hle, hlt⟩, hkid⟩ := hi.tokens t ht
  obtain ⟨-, hset, hsome⟩ := localJwkSet_spec (hi.remembers i) hi.load_spec fun v hv => ⟨hi.timeline.sound v hv, hi.named v hv⟩
  obtain ⟨jwks, hjwks⟩ := Option.isSome_iff_exists.1 (hsome (hi.load_isSome hsigner.choose_spec.1))
  obtain ⟨publisher, ⟨publisherMs, hpublisher, hle', hlt'⟩, hkids⟩ := hset jwks hjwks
  have hgrace : RETIRED_GRACE_SECONDS = 7862400 := rfl
  have hwindow : JWKS_PROPAGATION_SECONDS = 120 := rfl
  have hcache : KEYRING_CACHE_TTL_MS = 30000 := rfl
  refine ⟨jwks, hjwks, ?_⟩
  rcases hi.timeline.published_or hsigner hpublisher (show _ ≤ s.nowMs / 1000 * 1000 + 999 by omega) with
    hp | ⟨m, -, e, -, hf, -, hms, hout⟩ | ⟨e, -, v, -, a, -, hfv, hfa, -, hms, hms', hstaged⟩
  · obtain ⟨key, hkey, hk⟩ := List.mem_map.1 hp
    have hmem : some t.jwt.kid ∈ jwks.map (·.kid) := by
      rw [hkids, ← hkid, ← hk]
      exact List.mem_map.2 ⟨key, hkey, rfl⟩
    exact List.mem_map.1 hmem
  · -- the key has retired since it signed, and tokens do not live for 91 days
    have hprompt : m.writtenMs < (m.rotatedAt + 90) * 1000 := hf.schedule
    omega
  · -- the key was staged since the isolate's load, and was active within 30 seconds of it
    have hprompt : v.writtenMs < (v.rotatedAt + 90) * 1000 := hfv.schedule
    have hdated := hfa.dated
    omega

end

/-- A deployment with one key and isolates that have just started. -/
def keyedFleet : Fleet where
  nowMs := 1000998
  row := some ⟨initialKeyring ⟨"kid_a", "private a", "parameters a"⟩ 1000, 1, 1000⟩
  isolates := fun _ => .fresh
  rotating := []
  versions := [⟨1, 1000, 1000000, initialKeyring ⟨"kid_a", "private a", "parameters a"⟩ 1000⟩]
  drawn := ["kid_a"]
  tokens := []
  documents := []

theorem starts_keyedFleet : Starts keyedFleet where
  versions := Or.inr ⟨_, _, rfl, rfl, rfl, rfl, by decide, sound_initialKeyring _ _, named_initialKeyring (by decide)⟩
  drawn := by
    intro v hv kid hkid
    rw [List.mem_singleton.1 hv] at hkid
    rw [holds_initialKeyring hkid]
    exact List.mem_singleton_self _
  isolates := fun _ => rfl
  rotating := rfl
  tokens := rfl
  documents := rfl

/-- A rotation that writes at once. -/
theorem Fleet.Reach.rotated {S : Fleet.Schedule} {s₀ s : Fleet} {i : Nat} {pair : KeyPair} {rotatedAt : Nat} {r : Rotating}
    (h : Fleet.Reach S s₀ s) (hdate : S.dates rotatedAt s.nowMs) (hnew : pair.thumbprint ∉ s.drawn)
    (hnul : '\x00' ∉ pair.thumbprint.toList) (hr : r ∈ (s.rotate i pair rotatedAt).rotating)
    (ht : (s.rotate i pair rotatedAt).Timely S r) : Fleet.Reach S s₀ ((s.rotate i pair rotatedAt).write r) :=
  (h.tail (.rotate s i hdate hnew hnul)).tail (.write _ hr ht)

/-- The isolate 0 signs. -/
def signedFleet : Fleet := keyedFleet.sign 0 900

/-- The key that an administrator stages at the end of a second. -/
def stagedPair : KeyPair := ⟨"kid_b", "private b", "parameters b"⟩

def nextPair : KeyPair := ⟨"kid_c", "private c", "parameters c"⟩

/-- The isolate 1 remembers the keyring, a millisecond passes, and the isolate 0 stages a key; 99 seconds
pass. -/
def pendingFleet : Fleet :=
  { (Fleet.rotate 0 stagedPair 1000 { signedFleet.verify 1 with nowMs := 1000999 }).write
      ⟨0, stagedPair, 1000, loaded keyedFleet.row⟩ with
    nowMs := 1100000 }

/-- The isolate 1, whose memory is out of date by now, serves the published keys; 21 seconds pass. -/
def fetchedFleet : Fleet := { pendingFleet.serve 1 with nowMs := 1121000 }

/-- The isolate 0 activates the key and signs with it; 40 seconds pass. -/
def activeFleet : Fleet :=
  { ((fetchedFleet.rotate 0 nextPair 1121).write ⟨0, nextPair, 1121, loaded fetchedFleet.row⟩).sign 0 900 with
    nowMs := 1161000 }

theorem reach_activeFleet {S : Fleet.Schedule} (hdates : ∀ nowMs, S.dates (nowMs / 1000) nowMs)
    (hstage : (Fleet.rotate 0 stagedPair 1000 { signedFleet.verify 1 with nowMs := 1000999 }).Timely S
      ⟨0, stagedPair, 1000, loaded keyedFleet.row⟩)
    (hactivate : (fetchedFleet.rotate 0 nextPair 1121).Timely S ⟨0, nextPair, 1121, loaded fetchedFleet.row⟩) :
    Fleet.Reach S keyedFleet activeFleet := by
  have hremembered : Fleet.Reach S keyedFleet { signedFleet.verify 1 with nowMs := 1000999 } :=
    ((Relation.ReflTransGen.refl.tail (.sign _ 0 900)).tail (.verify _ 1)).tail (.tick _ 1)
  have hstaged := hremembered.rotated (hdates 1000999) (by decide +kernel) (by decide) (by decide +kernel) hstage
  have hfetched : Fleet.Reach S keyedFleet fetchedFleet :=
    ((hstaged.tail (.tick _ 99001)).tail (.serve _ 1)).tail (.tick _ 21000)
  have hactivated := hfetched.rotated (hdates 1121000) (by decide +kernel) (by decide) (by decide +kernel) hactivate
  exact (hactivated.tail (.sign _ 0 900)).tail (.tick _ 40000)

/-- Both keys are verified with after the second one has replaced the first. -/
theorem signed_verifiable_keyed :
    activeFleet.tokens.map (·.jwt.kid) = ["kid_b", "kid_a"] ∧
      ∀ t ∈ activeFleet.tokens, ∀ i, ∃ jwks, (localJwkSet activeFleet.nowMs activeFleet.load (activeFleet.isolates i)).1 = some jwks ∧
        ∃ jwk ∈ jwks, jwk.kid = some t.jwt.kid := by
  have hreach : Fleet.Reach promptSchedule keyedFleet activeFleet :=
    reach_activeFleet (fun _ => rfl) (by unfold Fleet.Timely promptSchedule; decide +kernel)
      (by unfold Fleet.Timely promptSchedule; decide +kernel)
  have hlives : ∀ t ∈ activeFleet.tokens, t.jwt.exp ≤ t.jwt.iat + 15 * 60 ∧ activeFleet.nowMs ≤ t.jwt.exp * 1000 := by
    decide +kernel
  exact ⟨by decide +kernel, fun t ht i => signed_verifiable starts_keyedFleet hreach ht (hlives t ht).1 (hlives t ht).2 i⟩

/-! ## Consumers of the published keys -/

section

variable {G : Version → Version → Prop} {s : Fleet}

/-- A document may be used for as long as its `Cache-Control` header says, stale or not. -/
def Usable (s : Fleet) (d : Document) : Prop :=
  s.nowMs ≤ d.servedMs + (JWKS_MAX_AGE + JWKS_STALE_WHILE_REVALIDATE) * 1000

end

end Keyforge.Keys
