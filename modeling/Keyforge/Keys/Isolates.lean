/-
Isolates that remember the keyring. Any number of isolates sign, verify and serve the published keys,
each from what it remembers or, where that has expired, from a load; rotations load at one moment and
write at another. Loads and writes take no time. The invariant dates every memory: what an isolate
uses was the stored keyring at most 30 seconds ago.
-/
import Keyforge.Keys.Rules
import Keyforge.Keys.Timeline
import Keyforge.Tokens.Isolate

namespace Keyforge.Keys

open Lib Db Tokens

/-! ## The system -/

/-- A rotation that has loaded the row and not yet written. -/
structure Rotating where
  isolate : Nat
  pair : KeyPair
  rotatedAt : Nat
  loaded : Option PersistedKeyring
  deriving DecidableEq, Repr

/-- A token, and when it was signed. -/
structure Signed where
  jwt : SignedJwt
  signedMs : Nat
  deriving DecidableEq, Repr

/-- The published keys as an isolate has served them. -/
structure Document where
  servedMs : Nat
  keys : List PublicJwk
  deriving DecidableEq, Repr

/-- The stored row, the isolates, and the rotations on their way. The other fields are history: the
committed versions, the thumbprints drawn, the tokens signed and the documents served. -/
structure Fleet where
  nowMs : Nat
  row : Option SigningKeyStateRow
  isolates : Nat → Isolate
  rotating : List Rotating
  versions : List Version
  drawn : List String
  tokens : List Signed
  documents : List Document

namespace Fleet

/-- What `loadOrInitializeKeyring` returns where there is a row. -/
def load (s : Fleet) : Option StoredKeyring :=
  usableKeyring (loaded s.row)

def setIsolate (i : Nat) (isolate : Isolate) (s : Fleet) : Fleet :=
  { s with isolates := Function.update s.isolates i isolate }

/-- The isolate `i` begins a rotation, or a first use that finds no row. One that finds nothing to do is
over at once. -/
def rotate (i : Nat) (pair : KeyPair) (rotatedAt : Nat) (s : Fleet) : Fleet :=
  match rotation ((loaded s.row).map (·.keyring)) pair rotatedAt with
  | .unchanged keyring => s.setIsolate i (rememberKeyring s.nowMs keyring (s.isolates i))
  | .pendingUnavailable => s
  | .next _ =>
    { s with
      rotating := ⟨i, pair, rotatedAt, loaded s.row⟩ :: s.rotating
      drawn := pair.thumbprint :: s.drawn }

/-- The row that the rotation writes, if its write takes effect, and the keyring in it. -/
def writing (r : Rotating) (s : Fleet) : Option SigningKeyStateRow :=
  match rotation (r.loaded.map (·.keyring)) r.pair r.rotatedAt with
  | .next keyring => writtenRow keyring (r.loaded.map (·.version)) (s.nowMs / 1000) s.row
  | _ => none

def versionOf (r : Rotating) (row : SigningKeyStateRow) (s : Fleet) : Version :=
  { version := row.version, rotatedAt := r.rotatedAt, writtenMs := s.nowMs, keyring := row.keyring }

/-- The rotation writes, and remembers what it has written. -/
def write (r : Rotating) (s : Fleet) : Fleet :=
  match s.writing r with
  | none => { s with rotating := s.rotating.erase r }
  | some row =>
    { s with
      row := some row
      isolates := Function.update s.isolates r.isolate (rememberKeyring s.nowMs row.keyring (s.isolates r.isolate))
      rotating := s.rotating.erase r
      versions := s.versionOf r row :: s.versions }

def sign (i : Nat) (expiresInSeconds : Nat) (s : Fleet) : Fleet :=
  let (jwt, isolate) := signJwt s.nowMs s.load expiresInSeconds (s.isolates i)
  { s.setIsolate i isolate with tokens := (jwt.map fun jwt => ⟨jwt, s.nowMs⟩).toList ++ s.tokens }

def verify (i : Nat) (s : Fleet) : Fleet :=
  s.setIsolate i (localJwkSet s.nowMs s.load (s.isolates i)).2

def serve (i : Nat) (s : Fleet) : Fleet :=
  let (keys, isolate) := getPublicJwks s.nowMs s.load (s.isolates i)
  { s.setIsolate i isolate with documents := (keys.map fun keys => ⟨s.nowMs, keys⟩).toList ++ s.documents }

def status (i : Nat) (s : Fleet) : Fleet :=
  s.setIsolate i (rememberStatus s.nowMs s.load (s.isolates i))

/-- How rotations are dated when they begin, and when a version may follow another. -/
structure Schedule where
  dates : (rotatedAt nowMs : Nat) → Prop
  follows : Version → Version → Prop

/-- The write may happen now. -/
def Timely (S : Schedule) (r : Rotating) (s : Fleet) : Prop :=
  ∀ d ∈ s.versions.head?, ∀ row ∈ s.writing r, S.follows d (s.versionOf r row)

/-- The steps. Thumbprints are drawn once and hold no NUL. -/
inductive Step (S : Schedule) : Fleet → Fleet → Prop
  | tick (s : Fleet) (dt : Nat) : Step S s { s with nowMs := s.nowMs + dt }
  | start (s : Fleet) (i : Nat) : Step S s (s.setIsolate i .fresh)
  | rotate (s : Fleet) (i : Nat) {pair : KeyPair} {rotatedAt : Nat} (hdate : S.dates rotatedAt s.nowMs)
    (hnew : pair.thumbprint ∉ s.drawn) (hnul : '\x00' ∉ pair.thumbprint.toList) : Step S s (s.rotate i pair rotatedAt)
  | write (s : Fleet) {r : Rotating} (hr : r ∈ s.rotating) (ht : s.Timely S r) : Step S s (s.write r)
  | sign (s : Fleet) (i expiresInSeconds : Nat) : Step S s (s.sign i expiresInSeconds)
  | verify (s : Fleet) (i : Nat) : Step S s (s.verify i)
  | serve (s : Fleet) (i : Nat) : Step S s (s.serve i)
  | status (s : Fleet) (i : Nat) : Step S s (s.status i)

def Reach (S : Schedule) : Fleet → Fleet → Prop :=
  Relation.ReflTransGen (Step S)

end Fleet

/-! ## The programs -/

/-- No other call writes the keyring, and no storage call fails. -/
def unwritten : Protocol Input World :=
  ⟨fun w => w.kv = .empty, fun w w' => w'.db.operations.signingKeyState = w.db.operations.signingKeyState, fun _ _ => True,
    fun _ e _ => e.fail = false⟩

theorem unwritten_clocked : Clocked unwritten where
  ok := ⟨fun _ => rfl, fun h h' => h'.trans h⟩
  tickInv := fun _ h => h
  tickRely := fun _ _ => rfl
  tickGuar := fun _ _ => trivial
  tickAllow := fun _ h => h
  guarTick := fun _ _ => trivial

theorem unwritten_tolerant : TolerantOfCleanup unwritten := fun _ _ hi hs => ⟨hs.kv hi, hs.row, trivial⟩

/-- What a rotation comes to where no other call writes: it finds nothing to do, or writes the row that
`Fleet.writing` says, or the pending key cannot be used. -/
theorem rotatePersistedKeyring_writes {owner : String} {pair : KeyPair} {rotatedAt : Nat} {w : World}
    {row : Option SigningKeyStateRow} (hrow : w.db.operations.signingKeyState = row)
    (husable : ∀ r, row = some r → hasUsableActiveKey r.keyring = true) :
    wpE unwritten (rotatePersistedKeyring owner pair rotatedAt)
      (fun keyring w' => match rotation ((loaded row).map (·.keyring)) pair rotatedAt with
        | .unchanged current => keyring = current ∧ w'.db.operations.signingKeyState = row
        | .next next => keyring = next ∧ ∃ now written, writtenRow next ((loaded row).map (·.version)) now row = some written ∧
            w'.db.operations.signingKeyState = some written
        | .pendingUnavailable => False)
      (fun _ _ => rotation ((loaded row).map (·.keyring)) pair rotatedAt = .pendingUnavailable) w := by
  have hc := unwritten_clocked
  have hP : unwritten.Stable fun w => w.db.operations.signingKeyState = row := fun _ _ h hr _ => hr.trans h
  -- what comes after the loads
  have hrest : ∀ w, w.db.operations.signingKeyState = row → wpE unwritten (rotateLoaded owner pair rotatedAt (loaded row) none)
      (fun keyring w' => match rotation ((loaded row).map (·.keyring)) pair rotatedAt with
        | .unchanged current => keyring = current ∧ w'.db.operations.signingKeyState = row
        | .next next => keyring = next ∧ ∃ now written, writtenRow next ((loaded row).map (·.version)) now row = some written ∧
            w'.db.operations.signingKeyState = some written
        | .pendingUnavailable => False)
      (fun _ _ => rotation ((loaded row).map (·.keyring)) pair rotatedAt = .pendingUnavailable) w := by
    intro w hw
    rw [rotateLoaded, Option.or_none]
    cases hrot : rotation ((loaded row).map (·.keyring)) pair rotatedAt with
    | unchanged current => exact ⟨rfl, hw⟩
    | pendingUnavailable => rfl
    | next next =>
      -- the version that is stored is the one that was loaded
      have hfound : ∀ now, ∃ written, writtenRow next ((loaded row).map (·.version)) now row = some written := by
        intro now
        cases row with
        | none => exact ⟨_, rfl⟩
        | some r => exact ⟨_, if_pos rfl⟩
      dsimp only
      rw [wpE_bind, wpE_whenever]
      refine ⟨nofun, fun _ => ?_⟩
      rw [wpE_bind]
      refine wpE_clock hc hP hw fun w₁ hw₁ _ => ?_
      rw [persistKeyring, wpE_bind, wpE_bind]
      refine wpE_d1LoggedFail hc hP hw₁ ?_ fun _ _ _ _ hf ha => absurd hf (by rw [ha]; nofun)
      intro w₂ w₃ e hw₂ hi hw₃ ha
      obtain ⟨written, hwritten⟩ := hfound w₁.nowSeconds
      refine ⟨by rw [hw₃]; exact hi, trivial, ?_, fun hf => absurd hf (by rw [ha]; nofun)⟩
      rw [writeKeyring, hw₂, hwritten, wpE_require]
      refine ⟨fun _ => ?_, nofun⟩
      rw [wpE_bind, wpE_whenever]
      refine ⟨nofun, fun _ => ⟨rfl, w₁.nowSeconds, written, hwritten, ?_⟩⟩
      rw [hw₃, writeKeyring, hw₂, hwritten]
      rfl
  rw [rotatePersistedKeyring, wpE_bind]
  refine wpE_imp (fun persisted w h => ?_) (fun _ _ h => h) _ (loadPersistedKeyring_wpE hc unwritten_tolerant hP hrow
    (Q := fun persisted w => persisted = loaded row ∧ w.db.operations.signingKeyState = row)
    (fun persisted => Stable.and (fun _ _ h _ _ => h) hP) (fun w hw _ => ⟨by rw [hw], hw⟩)
    (fun _ _ _ _ hf ha => absurd hf (by rw [ha]; nofun))
    fun _ r hw _ hr hun => absurd (husable r (hw.symm.trans hr)) (by rw [hun]; nofun))
  -- the copies in KV are read where nothing was loaded
  obtain ⟨rfl, hw⟩ := h
  rw [wpE_bind]
  cases row with
  | some r => exact hrest w hw
  | none =>
    exact loadLegacyKeyring_wpE hc (fun _ hi => hi) hP hw (fun _ _ _ h _ _ => h) (fun w hw => hrest w hw)
      fun _ _ _ _ hf ha => absurd hf (by rw [ha]; nofun)

/-! ## The invariant -/

/-- The public key has a `kid`, which holds no NUL. -/
def NamedJwk (jwk : PublicJwk) : Prop :=
  ∃ kid, jwk.kid = some kid ∧ '\x00' ∉ kid.toList

/-- Every public key goes by its key's `kid`, which holds no NUL. -/
def Named (keyring : StoredKeyring) : Prop :=
  ∀ key ∈ keyring.keys, key.publicJwk.kid = some key.kid ∧ '\x00' ∉ key.kid.toList

/-- The keyring was stored at most 30 seconds ago. -/
def Recent (l : List Version) (nowMs : Nat) (keyring : StoredKeyring) : Prop :=
  ∃ ms, Current l ms keyring ∧ ms ≤ nowMs ∧ nowMs < ms + KEYRING_CACHE_TTL_MS

/-- What an isolate remembers was once stored, and its key set goes by the `kid`s in it. -/
structure Remembers (l : List Version) (nowMs : Nat) (isolate : Isolate) : Prop where
  keyring : ∀ c, isolate.keyringCache = some c →
    ∃ ms, Current l ms c.keyring ∧ ms ≤ nowMs ∧ c.expiresAt = ms + KEYRING_CACHE_TTL_MS
  jwks : ∀ c, isolate.localJwkSetCache = some c → c.kids = joinKids c.jwks ∧ c.jwks ≠ [] ∧
    ∀ jwk ∈ c.jwks, NamedJwk jwk

/-- A rotation that has begun: its key is in no version, and what it loaded is one. -/
structure Begun (s : Fleet) (r : Rotating) : Prop where
  drawn : r.pair.thumbprint ∈ s.drawn
  unborn : ∀ v ∈ s.versions, ¬ Holds v.keyring r.pair.thumbprint
  nul : '\x00' ∉ r.pair.thumbprint.toList
  loaded : ∀ p, r.loaded = some p → ∃ v ∈ s.versions, v.version = p.version ∧ v.keyring = p.keyring
  dated : r.rotatedAt * 1000 ≤ s.nowMs

structure FleetInv (G : Version → Version → Prop) (s : Fleet) : Prop where
  timeline : Timeline G s.versions
  named : ∀ v ∈ s.versions, Named v.keyring
  row : s.row.map (fun r => (r.version, r.keyring)) = s.versions.head?.map fun v => (v.version, v.keyring)
  written : ∀ v ∈ s.versions, v.writtenMs ≤ s.nowMs
  drawn : ∀ v ∈ s.versions, ∀ kid, Holds v.keyring kid → kid ∈ s.drawn
  begun : ∀ r ∈ s.rotating, Begun s r
  distinct : s.rotating.Pairwise fun r r' => r.pair.thumbprint ≠ r'.pair.thumbprint
  remembers : ∀ i, Remembers s.versions s.nowMs (s.isolates i)
  tokens : ∀ t ∈ s.tokens, t.signedMs ≤ s.nowMs ∧ t.jwt.iat = t.signedMs / 1000 ∧
    ∃ keyring, Recent s.versions t.signedMs keyring ∧ keyring.activeKid = t.jwt.kid
  documents : ∀ d ∈ s.documents, d.servedMs ≤ s.nowMs ∧ ∃ keyring, Recent s.versions d.servedMs keyring ∧ Named keyring ∧
    d.keys = (publishedKeys keyring (d.servedMs / 1000)).map (·.publicJwk)

/-- A deployment whose isolates have just started, with a sound keyring or none. -/
structure Starts (s : Fleet) : Prop where
  versions : (s.row = none ∧ s.versions = []) ∨ ∃ row v, s.row = some row ∧ s.versions = [v] ∧ v.version = row.version ∧
    v.keyring = row.keyring ∧ v.writtenMs ≤ s.nowMs ∧ Sound row.keyring ∧ Named row.keyring
  drawn : ∀ v ∈ s.versions, ∀ kid, Holds v.keyring kid → kid ∈ s.drawn
  isolates : ∀ i, s.isolates i = .fresh
  rotating : s.rotating = []
  tokens : s.tokens = []
  documents : s.documents = []

/-! ## What an isolate uses -/

section

variable {l : List Version} {nowMs : Nat} {load : Option StoredKeyring} {isolate : Isolate} {keyring : StoredKeyring}

theorem Current.recent (h : Current l nowMs keyring) : Recent l nowMs keyring :=
  ⟨nowMs, h, le_rfl, Nat.lt_add_of_pos_right (by decide)⟩

theorem remembers_fresh : Remembers l nowMs .fresh :=
  ⟨nofun, nofun⟩

theorem Remembers.remember (h : Remembers l nowMs isolate) (hk : Current l nowMs keyring) :
    Remembers l nowMs (rememberKeyring nowMs keyring isolate) :=
  ⟨fun c hc => by cases hc; exact ⟨nowMs, hk, le_rfl, rfl⟩, h.jwks⟩

theorem Remembers.forget (h : Remembers l nowMs isolate) : Remembers l nowMs { isolate with keyringCache := none } :=
  ⟨nofun, h.jwks⟩

/-- Where something is stored, something is used; and it is no older than 30 seconds. -/
theorem ensureKeyring_spec (h : Remembers l nowMs isolate) (hload : ∀ keyring, load = some keyring → Current l nowMs keyring) :
    Remembers l nowMs (ensureKeyring nowMs load isolate).2 ∧
      (∀ keyring, (ensureKeyring nowMs load isolate).1 = some keyring → Recent l nowMs keyring) ∧
      (load.isSome → (ensureKeyring nowMs load isolate).1.isSome) := by
  have hcached : Remembers l nowMs (cachedKeyring nowMs isolate).2 ∧
      ∀ keyring, (cachedKeyring nowMs isolate).1 = some keyring → Recent l nowMs keyring := by
    unfold cachedKeyring
    split
    · exact ⟨h, nofun⟩
    · rename_i c hc
      obtain ⟨ms, hcurrent, hms, hexpires⟩ := h.keyring c hc
      split
      · exact ⟨h.forget, nofun⟩
      · rename_i hlive
        refine ⟨h, fun keyring hk => ?_⟩
        cases hk
        exact ⟨ms, hcurrent, hms, by omega⟩
  obtain ⟨hremembers, hrecent⟩ := hcached
  unfold ensureKeyring
  dsimp only
  split
  · rename_i keyring hk
    refine ⟨hremembers, fun keyring' hk' => ?_, fun _ => rfl⟩
    cases hk'
    exact hrecent keyring (Option.filter_eq_some_iff.1 hk).1
  · split
    · rename_i keyring
      refine ⟨hremembers.remember (hload keyring rfl), fun keyring' hk' => ?_, fun _ => rfl⟩
      cases hk'
      exact (hload keyring rfl).recent
    · exact ⟨hremembers, nofun, nofun⟩

theorem getActiveSigningKey_spec (h : Remembers l nowMs isolate)
    (hload : ∀ keyring, load = some keyring → Current l nowMs keyring) :
    Remembers l nowMs (getActiveSigningKey nowMs load isolate).2 ∧
      ∀ key, (getActiveSigningKey nowMs load isolate).1 = some key → ∃ keyring, Recent l nowMs keyring ∧
        keyring.activeKid = key.kid := by
  obtain ⟨hremembers, hrecent, -⟩ := ensureKeyring_spec h hload
  unfold getActiveSigningKey
  split
  · rename_i isolate' he
    rw [he] at hremembers
    exact ⟨hremembers, nofun⟩
  · rename_i keyring isolate' he
    rw [he] at hremembers hrecent
    have hk := hrecent keyring rfl
    dsimp only
    split
    · exact ⟨hremembers, fun key hkey => by cases hkey; exact ⟨keyring, hk, rfl⟩⟩
    · split
      · exact ⟨⟨hremembers.keyring, hremembers.jwks⟩, fun key hkey => by cases hkey; exact ⟨keyring, hk, rfl⟩⟩
      · exact ⟨hremembers, nofun⟩

theorem getPublicJwks_spec (h : Remembers l nowMs isolate) (hload : ∀ keyring, load = some keyring → Current l nowMs keyring) :
    Remembers l nowMs (getPublicJwks nowMs load isolate).2 ∧
      (∀ keys, (getPublicJwks nowMs load isolate).1 = some keys → ∃ keyring, Recent l nowMs keyring ∧
        keys = (publishedKeys keyring (nowMs / 1000)).map (·.publicJwk)) ∧
      (load.isSome → (getPublicJwks nowMs load isolate).1.isSome) := by
  obtain ⟨hremembers, hrecent, hsome⟩ := ensureKeyring_spec h hload
  unfold getPublicJwks
  split
  · rename_i isolate' he
    rw [he] at hremembers hsome
    exact ⟨hremembers, nofun, hsome⟩
  · rename_i keyring isolate' he
    rw [he] at hremembers hrecent
    exact ⟨hremembers, fun keys hkeys => by cases hkeys; exact ⟨keyring, hrecent keyring rfl, rfl⟩, fun _ => rfl⟩

/-! ## The key set of an isolate -/

/-- Where no `kid` holds a NUL, the joined `kid`s tell key sets apart. -/
theorem joinKids_inj {keys keys' : List PublicJwk} (hne : keys ≠ []) (hne' : keys' ≠ []) (h : ∀ jwk ∈ keys, NamedJwk jwk)
    (h' : ∀ jwk ∈ keys', NamedJwk jwk) (he : joinKids keys = joinKids keys') : keys.map (·.kid) = keys'.map (·.kid) := by
  have hsplit : ∀ {keys : List PublicJwk}, keys ≠ [] → (∀ jwk ∈ keys, NamedJwk jwk) →
      (joinKids keys).toList.splitOn '\x00' = keys.map fun jwk => (jwk.kid.getD "").toList := by
    intro keys hne h
    rw [joinKids, String.toList_ofList, List.splitOn_intercalate]
    · intro kid hkid
      obtain ⟨jwk, hjwk, rfl⟩ := List.mem_map.1 hkid
      obtain ⟨kid, hkid, hnul⟩ := h jwk hjwk
      rw [hkid]
      exact hnul
    · exact fun hnil => hne (List.map_eq_nil_iff.1 hnil)
  have hkids : ∀ {keys : List PublicJwk}, (∀ jwk ∈ keys, NamedJwk jwk) →
      keys.map (·.kid) = (keys.map fun jwk => (jwk.kid.getD "").toList).map fun kid => some (String.ofList kid) := by
    intro keys h
    rw [List.map_map]
    refine List.map_congr_left fun jwk hjwk => ?_
    obtain ⟨kid, hkid, -⟩ := h jwk hjwk
    simp [hkid]
  rw [hkids h, hkids h', ← hsplit hne h, ← hsplit hne' h', he]

theorem Named.published (h : Named keyring) {now : Nat} : ∀ jwk ∈ (publishedKeys keyring now).map (·.publicJwk), NamedJwk jwk := by
  intro jwk hjwk
  obtain ⟨key, hkey, rfl⟩ := List.mem_map.1 hjwk
  exact ⟨key.kid, h key (List.mem_filter.1 hkey).1⟩

theorem Named.kids (h : Named keyring) {now : Nat} :
    ((publishedKeys keyring now).map (·.publicJwk)).map (·.kid) = (publishedKeys keyring now).map fun key => some key.kid := by
  rw [List.map_map]
  exact List.map_congr_left fun key hkey => (h key (List.mem_filter.1 hkey).1).1

/-- The set that verifies holds the keys published in a keyring no older than 30 seconds. -/
theorem localJwkSet_spec (h : Remembers l nowMs isolate) (hload : ∀ keyring, load = some keyring → Current l nowMs keyring)
    (hl : ∀ v ∈ l, Sound v.keyring ∧ Named v.keyring) :
    Remembers l nowMs (localJwkSet nowMs load isolate).2 ∧
      (∀ jwks, (localJwkSet nowMs load isolate).1 = some jwks → ∃ keyring, Recent l nowMs keyring ∧
        jwks.map (·.kid) = (publishedKeys keyring (nowMs / 1000)).map fun key => some key.kid) ∧
      (load.isSome → (localJwkSet nowMs load isolate).1.isSome) := by
  obtain ⟨hremembers, hkeys, hsome⟩ := getPublicJwks_spec h hload
  unfold localJwkSet
  split
  · rename_i isolate' he
    rw [he] at hremembers hsome
    exact ⟨hremembers, nofun, hsome⟩
  · rename_i keys isolate' he
    rw [he] at hremembers hkeys
    obtain ⟨keyring, hrecent, rfl⟩ := hkeys keys rfl
    obtain ⟨v, hv, hvk, -⟩ := hrecent.choose_spec.1
    obtain ⟨hsound, hnamed⟩ := hl v hv
    rw [hvk] at hsound hnamed
    have hne : (publishedKeys keyring (nowMs / 1000)).map (·.publicJwk) ≠ [] := by
      have : keyring.activeKid ∈ (publishedKeys keyring (nowMs / 1000)).map (·.kid) := hsound.published (Or.inl rfl)
      intro hnil
      rw [List.map_eq_nil_iff.1 hnil] at this
      cases this
    split
    · rename_i cache hcache
      obtain ⟨hstored, hsame⟩ := Option.filter_eq_some_iff.1 hcache
      obtain ⟨hjoin, hcne, hcnamed⟩ := hremembers.jwks cache hstored
      refine ⟨hremembers, fun jwks hjwks => ?_, fun _ => rfl⟩
      cases hjwks
      refine ⟨keyring, hrecent, ?_⟩
      rw [← hnamed.kids]
      exact joinKids_inj hcne hne hcnamed hnamed.published (hjoin.symm.trans (of_decide_eq_true hsame))
    · refine ⟨⟨hremembers.keyring, fun c hc => ?_⟩, fun jwks hjwks => ?_, fun _ => rfl⟩
      · cases hc
        exact ⟨rfl, hne, hnamed.published⟩
      · cases hjwks
        exact ⟨keyring, hrecent, hnamed.kids⟩

end

/-! ## Every run -/

section

variable {G : Version → Version → Prop} {s : Fleet} {r : Rotating} {row : SigningKeyStateRow} {keyring next : StoredKeyring}
  {pair : KeyPair} {rotatedAt : Nat}

theorem rotation_unchanged (h : rotation (some keyring) pair rotatedAt = .unchanged next) : next = keyring := by
  unfold Tokens.rotation at h
  dsimp only at h
  split at h
  · cases h
  · split at h
    · cases h
      rfl
    · split at h
      · cases h
        rfl
      · split at h <;> cases h

theorem named_initialKeyring (hnul : '\x00' ∉ pair.thumbprint.toList) : Named (initialKeyring pair rotatedAt) := by
  intro key hkey
  rw [List.mem_singleton.1 hkey]
  exact ⟨rfl, hnul⟩

theorem named_rotation (hn : Named keyring) (hnul : '\x00' ∉ pair.thumbprint.toList)
    (h : rotation (some keyring) pair rotatedAt = .next next) : Named next := by
  rcases rotation_cases h with ⟨-, rfl⟩ | ⟨pendingKid, pendingSince, -, -, -, rfl, -⟩
  · intro key hkey
    rcases List.mem_cons.1 hkey with rfl | hkey
    · exact ⟨rfl, hnul⟩
    · obtain ⟨old, hold, rfl⟩ := List.mem_map.1 (mem_retain.1 hkey).1
      have := hn old hold
      split <;> exact this
  · intro key hkey
    obtain ⟨old, hold, rfl⟩ := mem_activated hkey
    have := hn old hold
    unfold activateKey
    split
    · exact this
    · split
      · exact this
      · split <;> exact this

theorem FleetInv.newest (hi : FleetInv G s) (h : s.row = some row) :
    ∃ v rest, s.versions = v :: rest ∧ v.version = row.version ∧ v.keyring = row.keyring := by
  have hrow := hi.row
  rw [h] at hrow
  cases hl : s.versions with
  | nil =>
    rw [hl] at hrow
    cases hrow
  | cons v rest =>
    rw [hl] at hrow
    simp only [Option.map_some, List.head?_cons, Option.some.injEq, Prod.mk.injEq] at hrow
    exact ⟨v, rest, rfl, hrow.1.symm, hrow.2.symm⟩

theorem FleetInv.no_version (hi : FleetInv G s) (h : s.row = none) : s.versions = [] := by
  have hrow := hi.row
  rw [h] at hrow
  cases hl : s.versions with
  | nil => rfl
  | cons v rest =>
    rw [hl] at hrow
    cases hrow

/-- A load finds the newest version. -/
theorem FleetInv.load_current (hi : FleetInv G s) (h : s.load = some keyring) : Current s.versions s.nowMs keyring := by
  obtain ⟨p, hp, rfl⟩ := Option.map_eq_some_iff.1 (Option.filter_eq_some_iff.1 h).1
  obtain ⟨row, hrow, rfl⟩ := Option.map_eq_some_iff.1 hp
  obtain ⟨v, rest, hl, -, hk⟩ := hi.newest hrow
  have ht := hi.timeline
  have hw := hi.written
  rw [hl] at ht hw ⊢
  exact hk ▸ ht.current (hw v List.mem_cons_self)

theorem Remembers.mono {l : List Version} {ms ms' : Nat} {isolate : Isolate} (h : Remembers l ms isolate) (hle : ms ≤ ms') :
    Remembers l ms' isolate :=
  ⟨fun c hc => by
    obtain ⟨ms₀, hcurrent, hms, he⟩ := h.keyring c hc
    exact ⟨ms₀, hcurrent, hms.trans hle, he⟩, h.jwks⟩

theorem remembers_update {l : List Version} {ms i : Nat} {isolates : Nat → Isolate} {isolate : Isolate}
    (h : ∀ j, Remembers l ms (isolates j)) (hi : Remembers l ms isolate) :
    ∀ j, Remembers l ms (Function.update isolates i isolate j) := by
  intro j
  by_cases hj : j = i
  · rw [hj, Function.update_self]
    exact hi
  · rw [Function.update_of_ne hj]
    exact h j

theorem Begun.mono {s' : Fleet} (h : Begun s r) (hdrawn : s.drawn ⊆ s'.drawn) (hversions : s'.versions = s.versions)
    (hnow : s.nowMs ≤ s'.nowMs) : Begun s' r :=
  ⟨hdrawn h.drawn, hversions ▸ h.unborn, h.nul, hversions ▸ h.loaded, h.dated.trans hnow⟩

/-- A step in which one isolate at most changes what it remembers, and nothing is drawn or written. -/
theorem FleetInv.isolate (hi : FleetInv G s) (i : Nat) {isolate : Isolate} (h : Remembers s.versions s.nowMs isolate) :
    FleetInv G (s.setIsolate i isolate) where
  timeline := hi.timeline
  named := hi.named
  row := hi.row
  written := hi.written
  drawn := hi.drawn
  begun := fun r hr => (hi.begun r hr).mono (List.Subset.refl _) rfl le_rfl
  distinct := hi.distinct
  remembers := remembers_update hi.remembers h
  tokens := hi.tokens
  documents := hi.documents

theorem FleetInv.tick (hi : FleetInv G s) (dt : Nat) : FleetInv G { s with nowMs := s.nowMs + dt } where
  timeline := hi.timeline
  named := hi.named
  row := hi.row
  written := fun v hv => (hi.written v hv).trans (Nat.le_add_right _ _)
  drawn := hi.drawn
  begun := fun r hr => (hi.begun r hr).mono (List.Subset.refl _) rfl (Nat.le_add_right _ _)
  distinct := hi.distinct
  remembers := fun i => (hi.remembers i).mono (Nat.le_add_right _ _)
  tokens := fun t ht => ⟨(hi.tokens t ht).1.trans (Nat.le_add_right _ _), (hi.tokens t ht).2⟩
  documents := fun d hd => ⟨(hi.documents d hd).1.trans (Nat.le_add_right _ _), (hi.documents d hd).2⟩

theorem FleetInv.rotate (hi : FleetInv G s) (i : Nat) (hdate : rotatedAt * 1000 ≤ s.nowMs) (hnew : pair.thumbprint ∉ s.drawn)
    (hnul : '\x00' ∉ pair.thumbprint.toList) : FleetInv G (s.rotate i pair rotatedAt) := by
  unfold Fleet.rotate
  split
  · rename_i keyring hrot
    -- a rotation with nothing to do remembers what it loaded
    refine hi.isolate i ((hi.remembers i).remember ?_)
    cases hrow : s.row with
    | none =>
      rw [hrow] at hrot
      cases hrot
    | some row =>
      obtain ⟨v, rest, hl, -, hk⟩ := hi.newest hrow
      rw [hrow] at hrot
      have hsame : keyring = row.keyring := rotation_unchanged hrot
      have ht := hi.timeline
      have hw := hi.written
      rw [hl] at ht hw ⊢
      rw [hsame, ← hk]
      exact ht.current (hw v List.mem_cons_self)
  · exact hi
  · have hunborn : ∀ v ∈ s.versions, ¬ Holds v.keyring pair.thumbprint := fun v hv hh => hnew (hi.drawn v hv _ hh)
    exact
      { timeline := hi.timeline, named := hi.named, row := hi.row, written := hi.written
        drawn := fun v hv kid hk => List.mem_cons_of_mem _ (hi.drawn v hv kid hk)
        begun := fun r hr => by
          rcases List.mem_cons.1 hr with rfl | hr
          · refine ⟨List.mem_cons_self, hunborn, hnul, fun p hp => ?_, hdate⟩
            obtain ⟨row, hrow, rfl⟩ := Option.map_eq_some_iff.1 hp
            obtain ⟨v, rest, hl, hv, hk⟩ := hi.newest hrow
            exact ⟨v, hl ▸ List.mem_cons_self, hv, hk⟩
          · exact (hi.begun r hr).mono (fun _ h => List.mem_cons_of_mem _ h) rfl le_rfl
        distinct := List.pairwise_cons.2 ⟨fun r hr he => hnew (he ▸ (hi.begun r hr).drawn), hi.distinct⟩
        remembers := hi.remembers, tokens := hi.tokens, documents := hi.documents }

/-- What a write makes of the stored keyring: its first version, or a rotation of the newest. -/
theorem FleetInv.writing_cases (hi : FleetInv G s) (hr : r ∈ s.rotating) (h : s.writing r = some row) :
    (s.versions = [] ∧ row.keyring = initialKeyring r.pair r.rotatedAt) ∨
      ∃ v rest, s.versions = v :: rest ∧ row.version = v.version + 1 ∧
        rotation (some v.keyring) r.pair r.rotatedAt = .next row.keyring := by
  unfold Fleet.writing at h
  split at h
  · rename_i keyring hrot
    unfold writtenRow at h
    cases hloaded : r.loaded with
    | none =>
      rw [hloaded] at h hrot
      cases hrow : s.row with
      | none =>
        rw [hrow] at h
        cases h
        exact Or.inl ⟨hi.no_version hrow, rotation_none hrot⟩
      | some row' =>
        rw [hrow] at h
        cases h
    | some p =>
      rw [hloaded] at h hrot
      cases hrow : s.row with
      | none =>
        rw [hrow] at h
        cases h
      | some row' =>
        rw [hrow] at h
        simp only [Option.map_some] at h
        split at h
        · rename_i hversion
          cases h
          -- the swap took effect: what was loaded is the newest version
          obtain ⟨v, rest, hl, hv, -⟩ := hi.newest hrow
          obtain ⟨d, hd, hdv, hdk⟩ := (hi.begun r hr).loaded p hloaded
          have hsame : d = v := hi.timeline.eq_of_version hd (hl ▸ List.mem_cons_self) (hdv.trans (hversion.symm.trans hv.symm))
          refine Or.inr ⟨v, rest, hl, ?_, ?_⟩
          · show p.version + 1 = v.version + 1
            rw [← hdv, hsame]
          · rw [← hsame, hdk]
            exact hrot
        · cases h
  · cases h

theorem FleetInv.write (hi : FleetInv G s) (hr : r ∈ s.rotating)
    (hG : ∀ d ∈ s.versions.head?, ∀ row ∈ s.writing r, G d (s.versionOf r row)) : FleetInv G (s.write r) := by
  have herase : ∀ r' ∈ s.rotating.erase r, r' ∈ s.rotating := fun r' h => List.mem_of_mem_erase h
  unfold Fleet.write
  split
  · exact
      { timeline := hi.timeline, named := hi.named, row := hi.row, written := hi.written, drawn := hi.drawn
        begun := fun r' hr' => (hi.begun r' (herase r' hr')).mono (List.Subset.refl _) rfl le_rfl
        distinct := hi.distinct.sublist List.erase_sublist
        remembers := hi.remembers, tokens := hi.tokens, documents := hi.documents }
  · rename_i row hwriting
    have hbegun := hi.begun r hr
    -- the new version: it follows the newest one, and draws at most the rotation's own key
    have hnew : Timeline G (s.versionOf r row :: s.versions) ∧ Named row.keyring ∧
        ∀ kid, Holds row.keyring kid → kid = r.pair.thumbprint ∨ ∃ v ∈ s.versions, Holds v.keyring kid := by
      rcases hi.writing_cases hr hwriting with ⟨hnil, hk⟩ | ⟨v, rest, hl, hversion, hrot⟩
      · rw [hnil, hk]
        refine ⟨⟨List.isChain_singleton _, fun v hv => ?_⟩, named_initialKeyring hbegun.nul, fun kid hkid =>
          Or.inl (holds_initialKeyring hkid)⟩
        rw [List.mem_singleton.1 hv, Fleet.versionOf, hk]
        exact sound_initialKeyring _ _
      · have hv : v ∈ s.versions := hl ▸ List.mem_cons_self
        have hfollows : Follows G (s.versionOf r row) v :=
          ⟨hversion, hi.written v hv, hbegun.dated, succeeds_of_rotation hrot, hG v (by rw [hl]; rfl) row hwriting⟩
        refine ⟨⟨?_, ?_⟩, named_rotation (hi.named v hv) hbegun.nul hrot, fun kid hkid =>
          (holds_rotation hrot hkid).imp_right fun h => ⟨v, hv, h⟩⟩
        · have hchain := hi.timeline.chain
          rw [hl] at hchain ⊢
          exact List.isChain_cons_cons.2 ⟨hfollows, hchain⟩
        · intro v' hv'
          rcases List.mem_cons.1 hv' with rfl | hv'
          · exact sound_rotation (hi.timeline.sound v hv) (hbegun.unborn v hv) hrot
          · exact hi.timeline.sound v' hv'
    obtain ⟨htimeline, hnamed, hholds⟩ := hnew
    have hcurrent : ∀ {ms : Nat} {keyring : StoredKeyring}, ms ≤ s.nowMs → Current s.versions ms keyring →
        Current (s.versionOf r row :: s.versions) ms keyring := fun hms h => h.cons hms
    have hrecent : ∀ {ms : Nat} {keyring : StoredKeyring}, ms ≤ s.nowMs → Recent s.versions ms keyring →
        Recent (s.versionOf r row :: s.versions) ms keyring := by
      rintro ms keyring hms ⟨ms₀, h, hle, hlt⟩
      exact ⟨ms₀, hcurrent (hle.trans hms) h, hle, hlt⟩
    have hremembers : ∀ i, Remembers (s.versionOf r row :: s.versions) s.nowMs (s.isolates i) := by
      intro i
      refine ⟨fun c hc => ?_, (hi.remembers i).jwks⟩
      obtain ⟨ms, h, hle, he⟩ := (hi.remembers i).keyring c hc
      exact ⟨ms, hcurrent hle h, hle, he⟩
    exact
      { timeline := htimeline
        named := fun v hv => by
          rcases List.mem_cons.1 hv with rfl | hv
          · exact hnamed
          · exact hi.named v hv
        row := rfl
        written := fun v hv => by
          rcases List.mem_cons.1 hv with rfl | hv
          · exact le_rfl
          · exact hi.written v hv
        drawn := fun v hv kid hkid => by
          rcases List.mem_cons.1 hv with rfl | hv
          · rcases hholds kid hkid with rfl | ⟨v, hv, hkid⟩
            · exact hbegun.drawn
            · exact hi.drawn v hv kid hkid
          · exact hi.drawn v hv kid hkid
        begun := fun r' hr' => by
          have hb := hi.begun r' (herase r' hr')
          refine ⟨hb.drawn, fun v hv => ?_, hb.nul, fun p hp => ?_, hb.dated⟩
          · rcases List.mem_cons.1 hv with rfl | hv
            · intro hh
              rcases hholds _ hh with he | ⟨v, hv, hh⟩
              · -- the other rotations have drawn other keys
                have hne := (List.pairwise_cons.1 ((List.perm_cons_erase hr).pairwise_iff (fun h => h.symm) |>.1 hi.distinct)).1
                exact hne r' hr' he.symm
              · exact hb.unborn v hv hh
            · exact hb.unborn v hv
          · obtain ⟨v, hv, h⟩ := hb.loaded p hp
            exact ⟨v, List.mem_cons_of_mem _ hv, h⟩
        distinct := hi.distinct.sublist List.erase_sublist
        remembers := remembers_update hremembers ((hremembers r.isolate).remember (htimeline.current le_rfl))
        tokens := fun t ht => by
          obtain ⟨hms, hiat, keyring, h, hkid⟩ := hi.tokens t ht
          exact ⟨hms, hiat, keyring, hrecent hms h, hkid⟩
        documents := fun d hd => by
          obtain ⟨hms, keyring, h, hrest⟩ := hi.documents d hd
          exact ⟨hms, keyring, hrecent hms h, hrest⟩ }

theorem FleetInv.load_spec (hi : FleetInv G s) : ∀ keyring, s.load = some keyring → Current s.versions s.nowMs keyring :=
  fun _ h => hi.load_current h

theorem FleetInv.sign (hi : FleetInv G s) (i expiresInSeconds : Nat) : FleetInv G (s.sign i expiresInSeconds) := by
  obtain ⟨hremembers, hkey⟩ := getActiveSigningKey_spec (hi.remembers i) hi.load_spec
  have hstep : ∀ jwt isolate, signJwt s.nowMs s.load expiresInSeconds (s.isolates i) = (jwt, isolate) →
      Remembers s.versions s.nowMs isolate ∧ ∀ t, jwt = some t → t.iat = s.nowMs / 1000 ∧
        ∃ keyring, Recent s.versions s.nowMs keyring ∧ keyring.activeKid = t.kid := by
    intro jwt isolate he
    unfold signJwt at he
    split at he
    · rename_i isolate' hg
      cases he
      rw [hg] at hremembers
      exact ⟨hremembers, nofun⟩
    · rename_i key isolate' hg
      cases he
      rw [hg] at hremembers hkey
      refine ⟨hremembers, fun t ht => ?_⟩
      cases ht
      exact ⟨rfl, hkey key rfl⟩
  unfold Fleet.sign
  split
  rename_i jwt isolate he
  obtain ⟨hmemory, htoken⟩ := hstep jwt isolate he
  have hi' := hi.isolate i hmemory
  exact { hi' with
    begun := fun r hr => (hi'.begun r hr).mono (List.Subset.refl _) rfl le_rfl
    tokens := fun t ht => by
      rcases List.mem_append.1 ht with ht | ht
      · rw [Option.mem_toList, Option.map_eq_some_iff] at ht
        obtain ⟨jwt, rfl, rfl⟩ := ht
        exact ⟨le_rfl, htoken jwt rfl⟩
      · exact hi.tokens t ht }

theorem FleetInv.serve (hi : FleetInv G s) (i : Nat) : FleetInv G (s.serve i) := by
  obtain ⟨hremembers, hkeys, -⟩ := getPublicJwks_spec (hi.remembers i) hi.load_spec
  unfold Fleet.serve
  split
  rename_i keys isolate he
  rw [he] at hremembers hkeys
  have hi' := hi.isolate i hremembers
  exact { hi' with
    begun := fun r hr => (hi'.begun r hr).mono (List.Subset.refl _) rfl le_rfl
    documents := fun d hd => by
      rcases List.mem_append.1 hd with hd | hd
      · rw [Option.mem_toList, Option.map_eq_some_iff] at hd
        obtain ⟨keys, rfl, rfl⟩ := hd
        obtain ⟨keyring, h, rfl⟩ := hkeys keys rfl
        obtain ⟨v, hv, hvk, -⟩ := h.choose_spec.1
        exact ⟨le_rfl, keyring, h, hvk ▸ hi.named v hv, rfl⟩
      · exact hi.documents d hd }

theorem FleetInv.step {S : Fleet.Schedule} {s' : Fleet} (hdates : ∀ rotatedAt nowMs, S.dates rotatedAt nowMs → rotatedAt * 1000 ≤ nowMs)
    (hi : FleetInv S.follows s) (h : Fleet.Step S s s') : FleetInv S.follows s' := by
  cases h with
  | tick dt => exact hi.tick dt
  | start i => exact hi.isolate i remembers_fresh
  | rotate i hdate hnew hnul => exact hi.rotate i (hdates _ _ hdate) hnew hnul
  | write hr ht => exact hi.write hr ht
  | sign i expiresInSeconds => exact hi.sign i expiresInSeconds
  | verify i =>
    exact hi.isolate i (localJwkSet_spec (hi.remembers i) hi.load_spec fun v hv => ⟨hi.timeline.sound v hv, hi.named v hv⟩).1
  | serve i => exact hi.serve i
  | status i =>
    refine hi.isolate i ?_
    unfold rememberStatus
    split
    · exact (hi.remembers i).forget
    · rename_i keyring hload
      exact (hi.remembers i).remember (hi.load_spec keyring hload)

theorem Starts.inv (h : Starts s) : FleetInv G s where
  timeline := by
    rcases h.versions with ⟨-, hl⟩ | ⟨row, v, -, hl, -, hk, -, hs, -⟩
    · rw [hl]
      exact ⟨List.isChain_nil, fun _ hv => absurd hv List.not_mem_nil⟩
    · rw [hl]
      exact ⟨List.isChain_singleton _, fun d hd => by rw [List.mem_singleton.1 hd, hk]; exact hs⟩
  named := by
    rcases h.versions with ⟨-, hl⟩ | ⟨row, v, -, hl, -, hk, -, -, hn⟩
    · rw [hl]
      exact fun _ hv => absurd hv List.not_mem_nil
    · rw [hl]
      exact fun d hd => by rw [List.mem_singleton.1 hd, hk]; exact hn
  row := by
    rcases h.versions with ⟨hr, hl⟩ | ⟨row, v, hr, hl, hv, hk, -⟩
    · rw [hr, hl]
      rfl
    · rw [hr, hl, Option.map_some, List.head?_cons, Option.map_some, hv, hk]
  written := by
    rcases h.versions with ⟨-, hl⟩ | ⟨row, v, -, hl, -, -, hw, -⟩
    · rw [hl]
      exact fun _ hv => absurd hv List.not_mem_nil
    · rw [hl]
      exact fun d hd => by rw [List.mem_singleton.1 hd]; exact hw
  drawn := h.drawn
  begun := fun r hr => by rw [h.rotating] at hr; cases hr
  distinct := by rw [h.rotating]; exact List.Pairwise.nil
  remembers := fun i => by rw [h.isolates i]; exact remembers_fresh
  tokens := fun t ht => by rw [h.tokens] at ht; cases ht
  documents := fun d hd => by rw [h.documents] at hd; cases hd

/-- The invariant holds in every reachable state. -/
theorem fleet_inv {S : Fleet.Schedule} {s₀ : Fleet} (hdates : ∀ rotatedAt nowMs, S.dates rotatedAt nowMs → rotatedAt * 1000 ≤ nowMs)
    (h₀ : Starts s₀) (h : Fleet.Reach S s₀ s) : FleetInv S.follows s := by
  induction h with
  | refl => exact h₀.inv
  | tail _ hs ih => exact ih.step hdates hs

end

end Keyforge.Keys
