/-
Session revocation against refresh issuance. Any number of `issueRefreshToken` calls and session
revocations interleave, step by step, from a database in which a family belongs to its session's
user. The invariant: a session that a revocation batch has covered stays revoked and has no live
family. The insert's own guard keeps it, wherever the batch falls between the object's creation and
the insert; a refused insert burns the object it had created.
-/
import Keyforge.Lib.Pool
import Keyforge.Auth.Session
import Keyforge.Deployment
import Keyforge.Tokens.Rules

namespace Keyforge.Refresh

open Lib Db Tokens Auth

/-! ## The invariant -/

/-- A revocation batch that covers session `S` has committed. -/
def Covered (log : List Event) (S : String) : Prop :=
  ∃ ids, Event.sessionsRevoked ids ∈ log ∧ S ∈ ids

/-- A family that carries a session belongs to the session's user. -/
def OwnerOk (db : Database) : Prop :=
  ∀ r ∈ db.refreshTokens, ∀ s ∈ db.sessions, r.sessionId = some s.id → s.userId = r.userId

/-- Covered sessions are revoked and have no live family. -/
structure SessionInv (w : World) : Prop where
  owner : OwnerOk w.db
  dead : ∀ S, Covered w.log S → ∀ s ∈ w.db.sessions, s.id = S → s.revokedAt ≠ none
  rows : ∀ S, Covered w.log S → ∀ r ∈ w.db.refreshTokens, r.sessionId = some S → r.revokedAt ≠ none

theorem sessionInv_congr {w w' : World} (hdb : w'.db = w.db) (hlog : w'.log = w.log) (h : SessionInv w) :
    SessionInv w' := by
  obtain ⟨h1, h2, h3⟩ := h
  exact ⟨by rw [hdb]; exact h1, by rw [hdb, hlog]; exact h2, by rw [hdb, hlog]; exact h3⟩

theorem covered_cons {e : Event} {log : List Event} {S : String} (he : ∀ ids, e ≠ .sessionsRevoked ids) :
    Covered (e :: log) S ↔ Covered log S := by
  constructor
  · rintro ⟨ids, hm, hS⟩
    rcases List.mem_cons.1 hm with h | h
    · exact absurd h.symm (he ids)
    · exact ⟨ids, h, hS⟩
  · rintro ⟨ids, hm, hS⟩
    exact ⟨ids, List.mem_cons_of_mem _ hm, hS⟩

/-- The insert keeps the invariant: its guard asks for a live session of the same user. -/
theorem sessionInv_insert {w : World} (now : Nat) {input : IssueRefreshInput} {row : RefreshTokenRow}
    (hrow : row.sessionId = input.sessionId ∧ row.userId = input.userId) (h : SessionInv w) :
    SessionInv { w with db := (insertStatement now input row w.db).2 } := by
  unfold insertStatement
  split
  · rename_i hg
    have hnew : ∀ s ∈ w.db.sessions, row.sessionId = some s.id → s.userId = row.userId ∧ s.revokedAt = none := by
      intro s hs hid
      unfold sessionGuard at hg
      rw [hrow.1] at hid
      rw [hid] at hg
      simp only [Table.get?_of_mem hs, Option.any_some, Bool.and_eq_true, decide_eq_true_eq] at hg
      exact ⟨hg.1.1.trans hrow.2.symm, hg.1.2.1⟩
    refine ⟨?_, h.dead, ?_⟩
    · intro r hr s hs hid
      rcases Table.mem_insert.1 hr with hr | ⟨rfl, -⟩
      · exact h.owner r hr s hs hid
      · exact (hnew s hs hid).1
    · intro S hS r hr hid
      rcases Table.mem_insert.1 hr with hr | ⟨rfl, -⟩
      · exact h.rows S hS r hr hid
      · -- the guard saw the session live, so no batch has covered it
        unfold sessionGuard at hg
        rw [← hrow.1, hid] at hg
        simp only [Bool.and_eq_true, Option.any_eq_true, decide_eq_true_eq] at hg
        obtain ⟨⟨s, hs, -, hlive, -⟩, -⟩ := hg
        obtain ⟨hmem, hsid⟩ := Table.get?_eq_some.1 hs
        exact absurd hlive (h.dead S hS s hmem hsid)
  · exact h

/-- Revoking more families keeps the invariant. -/
theorem sessionInv_revoked {w w' : World} (h : SessionInv w) (hlog : w'.log = w.log)
    (hs : w'.db.sessions = w.db.sessions) (hr : RowsRevoked w.db.refreshTokens w'.db.refreshTokens) :
    SessionInv w' := by
  refine ⟨?_, ?_, ?_⟩
  · intro r' hr' s hs' hid
    obtain ⟨r, hm, hk⟩ := hr r' hr'
    rw [hs] at hs'
    rw [hk.userId]
    exact h.owner r hm s hs' (hk.sessionId ▸ hid)
  · rw [hlog, hs]
    exact h.dead
  · intro S hS r' hr' hid
    obtain ⟨r, hm, hk⟩ := hr r' hr'
    rw [hlog] at hS
    exact hk.revoked (h.rows S hS r hm (hk.sessionId ▸ hid))

theorem sessionInv_issue {w : World} {now : Nat} {input : IssueRefreshInput} {familyId tokenHash : String}
    {expiresAt : Nat} (h : SessionInv w) :
    SessionInv { w with
      db := (issueBatch now input (issuedRow now familyId tokenHash expiresAt input) w.db).2,
      log := issueEvents now input (issuedRow now familyId tokenHash expiresAt input) w.db ++ w.log } := by
  have h1 : SessionInv { w with
      db := (insertStatement now input (issuedRow now familyId tokenHash expiresAt input) w.db).2 } :=
    sessionInv_insert now ⟨rfl, rfl⟩ h
  have hc : ∀ S, Covered (issueEvents now input (issuedRow now familyId tokenHash expiresAt input) w.db ++ w.log) S ↔
      Covered w.log S := by
    intro S
    refine covered_cons ?_
    intro ids
    split <;> simp
  have h2 : SessionInv { w with
      db := (issueBatch now input (issuedRow now familyId tokenHash expiresAt input) w.db).2 } :=
    sessionInv_revoked h1 rfl (prune_sessions _ _ _ _ _) (rowsRevoked_prune _ _ _ _ _)
  exact ⟨h2.owner, fun S hS => h2.dead S ((hc S).1 hS), fun S hS => h2.rows S ((hc S).1 hS)⟩

/-- The families' predicate of a revocation reaches every family of the sessions it covers. -/
structure Reaches (p : SessionRow → Bool) (q : Database → RefreshTokenRow → Bool) : Prop where
  blind : ∀ now s, p { s with revokedAt := some now } = p s
  all : ∀ db, OwnerOk db → ∀ s ∈ db.sessions, p s = true → ∀ r ∈ db.refreshTokens, r.sessionId = some s.id →
    q db r = true

/-- A session the first statement selects is still selected after it. -/
theorem revokeSessionRows_selects {p : SessionRow → Bool} (hp : ∀ now s, p { s with revokedAt := some now } = p s)
    (now : Nat) {db : Database} {t : SessionRow} (ht : t ∈ db.sessions) (hpt : p t = true) :
    ∃ t' ∈ (revokeSessionRows now p db).sessions, p t' = true ∧ t'.id = t.id := by
  refine ⟨_, mem_revokeSessionRows.2 ⟨t, ht, rfl⟩, ?_⟩
  split
  · exact ⟨(hp now t).trans hpt, rfl⟩
  · exact ⟨hpt, rfl⟩

theorem revokeSessionRows_owner (now : Nat) {p : SessionRow → Bool} {db : Database} (h : OwnerOk db) :
    OwnerOk (revokeSessionRows now p db) := by
  intro r hr s' hs' hid
  obtain ⟨s, hs, h1, h2, -⟩ := revokeSessionRows_spec hs'
  rw [h2]
  exact h r hr s hs (h1 ▸ hid)

/-- The revocation batch keeps the invariant, with the sessions it covers added. -/
theorem sessionInv_batch {w : World} (user : Option String) (now : Nat) {p : SessionRow → Bool} {q : Database → RefreshTokenRow → Bool}
    (hpq : Reaches p q) (h : SessionInv w) :
    SessionInv { w with
      db := (revokeBatch now p q w.db).2, log := revokeEvents user now p q w.db ++ w.log } := by
  have howner := revokeSessionRows_owner now (p := p) h.owner
  have hrows := rowsRevoked_update w.db.refreshTokens
    (fun r => q (revokeSessionRows now p w.db) r && r.revokedAt.isNone) now
  have hcov : ∀ S, Covered (revokeEvents user now p q w.db ++ w.log) S →
      (∃ s ∈ w.db.sessions, p s = true ∧ s.id = S) ∨ Covered w.log S := by
    rintro S ⟨ids, hm, hS⟩
    simp only [revokeEvents, List.append_assoc, List.cons_append, List.nil_append, List.mem_append, List.mem_map,
      List.mem_cons, Event.sessionsRevoked.injEq, reduceCtorEq, and_false, exists_false, false_or] at hm
    rcases hm with rfl | hm
    · obtain ⟨s, hs, rfl⟩ := List.mem_map.1 hS
      obtain ⟨hs, hp⟩ := Table.mem_select.1 hs
      exact Or.inl ⟨s, hs, hp, rfl⟩
    · exact Or.inr ⟨ids, hm, hS⟩
  refine ⟨?_, ?_, ?_⟩
  · intro r' hr' s hs hid
    obtain ⟨r, hr, hk⟩ := hrows r' hr'
    rw [hk.userId]
    exact howner r hr s hs (hk.sessionId ▸ hid)
  · intro S hS s' hs' hid
    obtain ⟨s, hs, h1, -, hkeep, hset⟩ := revokeSessionRows_spec hs'
    rcases hcov S hS with ⟨t, ht, hpt, htid⟩ | hS
    · have : s = t := Table.key_inj hs ht (h1.symm.trans (hid.trans htid.symm))
      exact hset (this ▸ hpt)
    · exact hkeep (h.dead S hS s hs (h1 ▸ hid))
  · intro S hS r' hr' hid
    rcases hcov S hS with ⟨t, ht, hpt, htid⟩ | hS
    · -- the covered session is still selected after the first statement, so the second reaches `r'`
      obtain ⟨r, hr, rfl⟩ := mem_revokeRows.1 hr'
      have hsid : r.sessionId = some t.id := by
        rw [htid]
        split at hid <;> exact hid
      obtain ⟨t', ht', hpt', htid'⟩ := revokeSessionRows_selects hpq.blind now ht hpt
      have hq : q (revokeSessionRows now p w.db) r = true :=
        hpq.all _ howner t' ht' hpt' r hr (hsid.trans (congrArg some htid'.symm))
      cases hrev : r.revokedAt with
      | none => simp [hq]
      | some t => simp [hrev]
    · obtain ⟨r, hr, hk⟩ := hrows r' hr'
      exact hk.revoked (h.rows S hS r hr (hk.sessionId ▸ hid))

/-! ## The calls -/

/-- The calls that interleave. An `issue` carries the family id and secret it draws. -/
inductive IssuanceCall where
  | issue (input : IssueRefreshInput) (familyId secret : String)
  | revokeById (sessionId userId : String)
  | revokeByToken (token : String)
  | revokeAll (userId : String)
  | revokeOther (userId keepSessionId : String)
  deriving DecidableEq, Repr

/-- The family a call draws. -/
def IssuanceCall.family : IssuanceCall → Option String
  | .issue _ familyId _ => some familyId
  | _ => none

def IssuanceCall.code (env : Env) : IssuanceCall → App (Option IssuedRefreshToken)
  | .issue input familyId secret => some <$> issueRefreshToken env input familyId secret
  | .revokeById sessionId userId => do let _ ← revokeSessionById sessionId userId; pure none
  | .revokeByToken token => do revokeSessionByToken env token; pure none
  | .revokeAll userId => do revokeAllUserSessions userId; pure none
  | .revokeOther userId keepSessionId => do let _ ← revokeOtherUserSessions userId keepSessionId; pure none

/-- Calls arrive at any time; an issued family's id is drawn fresh. Any storage call may fail. -/
def issuanceSystem (env : Env) : System IssuanceCall Input World (Except Failure (Option IssuedRefreshToken)) where
  code := fun c => (c.code env).run
  allow := fun _ _ _ => True
  arrive := fun P c => ∀ f, c.family = some f → ∀ t ∈ P.threads, t.1.family ≠ some f

/-! ## The outline -/

/-- Families are not lost or unrevoked, and refusals of the families `F` selects are not added. -/
structure Evolves (F : String → Prop) (w w' : World) : Prop where
  mono : ∀ f, FamilyMono (w.families f) (w'.families f)
  refused : ∀ f, F f → Event.familyRefused f ∈ w'.log → Event.familyRefused f ∈ w.log

theorem Evolves.trans {F : String → Prop} {a b c : World} (h₁ : Evolves F a b) (h₂ : Evolves F b c) :
    Evolves F a c :=
  ⟨fun f => (h₁.mono f).trans (h₂.mono f), fun f hf h => h₁.refused f hf (h₂.refused f hf h)⟩

theorem Evolves.of_log {F : String → Prop} {w w' : World} (hm : ∀ f, FamilyMono (w.families f) (w'.families f))
    (hlog : ∀ f, Event.familyRefused f ∈ w'.log → Event.familyRefused f ∈ w.log) : Evolves F w w' :=
  ⟨hm, fun f _ => hlog f⟩

theorem Evolves.burns {F : String → Prop} {w w' : World} (h : Burns w w') : Evolves F w w' :=
  Evolves.of_log h.mono fun _ hf => h.log ▸ hf

def issuanceOutline (env : Env) : Outline (issuanceSystem env) where
  inv := SessionInv
  rely := fun c => Evolves fun f => c.family = some f
  guar := fun c => Evolves fun f => c.family ≠ some f
  post := fun c r w => ∀ f, c.family = some f → Event.familyRefused f ∈ w.log →
    (∀ t, r ≠ .ok t) ∧ (r ≠ .error .storage → (w.families f).isRevoked = true)
  apart := fun c d => ∀ f, c.family = some f → d.family ≠ some f
  beside := fun _ _ => True
  trace := fun cs w => ∀ f, Event.familyRefused f ∈ w.log → ∃ c ∈ cs, c.family = some f

section

variable {env : Env}

theorem issuance_tolerant (env : Env) (c : IssuanceCall) : Tolerant ((issuanceOutline env).protocol c) where
  ok := ⟨fun _ => Evolves.burns (Burns.tick _ 0), Evolves.trans⟩
  tickInv := fun {w} _ h => sessionInv_congr (w := w) rfl rfl h
  tickRely := fun w dt => Evolves.burns (Burns.tick w dt)
  tickGuar := fun w dt => Evolves.burns (Burns.tick w dt)
  tickAllow := fun _ _ => trivial
  guarTick := fun dt h => (Evolves.burns (Burns.tick _ dt)).trans h
  burnInv := fun hb h => sessionInv_congr hb.db hb.log h
  burnRely := Evolves.burns
  burnGuar := Evolves.burns

theorem issuance_stable (c : IssuanceCall) (r : Except Failure (Option IssuedRefreshToken)) :
    ((issuanceOutline env).protocol c).Stable ((issuanceOutline env).post c r) := by
  intro w w' h hr _ f hf hl
  obtain ⟨h1, h2⟩ := h f hf (hr.refused f hf hl)
  exact ⟨h1, fun hne => (hr.mono f).revoked (h2 hne)⟩

/-- A session revocation keeps the invariant and touches no family of an issuing call. -/
theorem revokeSessions_safe {c : IssuanceCall} {user : Option String} {p : SessionRow → Bool}
    {q : Database → RefreshTokenRow → Bool} (hpq : Reaches p q) {Q : Nat → World → Prop}
    {X : Failure → World → Prop} (hQ : ∀ n w, Q n w) (hX : ∀ x w, X x w) (w : World) :
    wpE ((issuanceOutline env).protocol c) (revokeSessions user p q) Q X w := by
  have hΓ := issuance_tolerant env c
  have ht := stable_true ((issuanceOutline env).protocol c)
  rw [revokeSessions, wpE_bind]
  refine wpE_clock hΓ.toClocked ht trivial fun w _ _ => ?_
  rw [wpE_bind]
  refine wpE_d1Logged hΓ.toClocked ht trivial ?_ fun w _ _ => hX _ w
  rintro w w' - - hi rfl -
  refine ⟨sessionInv_batch _ _ hpq hi, Evolves.of_log (fun _ => FamilyMono.refl _) ?_, ?_, hX _ _⟩
  · intro f hf
    simpa [revokeEvents] using hf
  · rw [wpE_bind]
    exact revokeRefreshFamilyDurableObjects_wpE hΓ ht trivial (sessionInv_batch _ _ hpq hi) fun w _ _ => hQ _ w

theorem reaches_byId (sessionId userId : String) :
    Reaches (fun s => s.id = sessionId ∧ s.userId = userId) fun db r =>
      r.sessionId = some sessionId ∧ (db.sessions.get? sessionId).any fun s => s.userId = userId := by
  refine ⟨fun _ _ => rfl, ?_⟩
  intro db _ s hs hp r _ hid
  simp only [decide_eq_true_eq] at hp
  obtain ⟨rfl, rfl⟩ := hp
  simp [hid, Table.get?_of_mem hs]

theorem reaches_byToken (tokenHash : String) :
    Reaches (fun s => s.tokenHash = tokenHash) fun db r =>
      r.sessionId.any fun sessionId => (db.sessions.get? sessionId).any fun s => s.tokenHash = tokenHash := by
  refine ⟨fun _ _ => rfl, ?_⟩
  intro db _ s hs hp r _ hid
  simp only [decide_eq_true_eq] at hp
  simp [hid, Table.get?_of_mem hs, hp]

theorem reaches_all (userId : String) : Reaches (fun s => s.userId = userId) fun _ r => r.userId = userId := by
  refine ⟨fun _ _ => rfl, ?_⟩
  intro db ho s hs hp r hr hid
  simp only [decide_eq_true_eq] at hp ⊢
  exact (ho r hr s hs hid).symm.trans hp

theorem reaches_other (userId keepSessionId : String) :
    Reaches (fun s => s.userId = userId ∧ s.id ≠ keepSessionId) fun _ r =>
      r.userId = userId ∧ r.sessionId ≠ some keepSessionId := by
  refine ⟨fun _ _ => rfl, ?_⟩
  intro db ho s hs hp r hr hid
  simp only [decide_eq_true_eq] at hp ⊢
  refine ⟨(ho r hr s hs hid).symm.trans hp.1, ?_⟩
  rw [hid]
  exact fun h => hp.2 (Option.some.inj h)

/-- An issuing call meets its triple: a refused insert throws with the object burned. -/
theorem issue_safe {input : IssueRefreshInput} {f secret : String} {w : World}
    (hfresh : Event.familyRefused f ∉ w.log) :
    wpE ((issuanceOutline env).protocol (.issue input f secret)) (some <$> issueRefreshToken env input f secret)
      (fun t => (issuanceOutline env).post (.issue input f secret) (.ok t))
      (fun x => (issuanceOutline env).post (.issue input f secret) (.error x)) w := by
  have hΓ := issuance_tolerant env (.issue input f secret)
  have hstable : ((issuanceOutline env).protocol (.issue input f secret)).Stable
      fun w => Event.familyRefused f ∉ w.log := fun _ _ h hr _ hl => h (hr.refused f rfl hl)
  rw [map_eq_pure_bind, wpE_bind]
  refine issueRefreshToken_wpE hΓ (A := fun w => Event.familyRefused f ∉ w.log) (B := fun _ => True) ?_ hstable hstable
    (stable_true _) hfresh ?_ ?_ ?_ ?_ ?_
  · exact fun _ _ h hr _ => (hr.mono f).alive h
  · intro w now data hw hi
    exact ⟨sessionInv_congr (w := w) rfl rfl hi, Evolves.of_log (createdWorld_mono f now data w) fun _ h => h, hw⟩
  · intro w now tokenHash expiresAt _ hw hi w' _
    refine ⟨sessionInv_issue hi, ⟨fun _ => FamilyMono.refl _, ?_⟩, ?_, fun _ => trivial⟩
    · intro g hg hl
      simp only [w', issuedWorld, issueEvents, List.mem_append, List.mem_singleton] at hl
      rcases hl with hl | hl
      · split at hl
        · cases hl
        · cases hl; exact absurd rfl hg
      · exact hl
    · intro hg hl
      simp only [w', issuedWorld, issueEvents, hg, if_true, List.cons_append, List.nil_append, List.mem_cons,
        reduceCtorEq, false_or] at hl
      exact hw hl
  · intro w _ _ hrev g hg hl
    cases hg
    exact ⟨by rintro _ ⟨⟩, fun _ => hrev⟩
  · intro w g hg hl
    exact ⟨by rintro _ ⟨⟩, fun h => absurd rfl h⟩
  · intro t w hw _ _ _ g hg hl
    cases hg
    exact absurd hl hw

theorem issuance_compat {c d : IssuanceCall} {w w' : World} (ha : (issuanceOutline env).apart c d)
    (hg : (issuanceOutline env).guar c w w') : (issuanceOutline env).rely d w w' :=
  ⟨hg.mono, fun f hd => hg.refused f fun hc => ha f hc hd⟩

theorem issuance_valid : (issuanceOutline env).Valid where
  symm := fun h f hd hc => h f hc hd
  besideSymm := fun _ => trivial
  arrives := fun hc t ht => ⟨fun f htf hcf => hc f hcf t ht htf, fun _ => trivial⟩
  traceArrives := fun h f hf => by
    obtain ⟨c, hc, hcf⟩ := h f hf
    exact ⟨c, List.mem_append_left _ hc, hcf⟩
  traceStep := by
    intro cs c w w' hc h hg f hf
    by_cases hcf : c.family = some f
    · exact ⟨c, hc, hcf⟩
    · exact h f (hg.refused f hcf hf)
  ok := fun c => (issuance_tolerant env c).ok
  compat := fun ha _ _ hg => issuance_compat ha hg
  stable := issuance_stable
  settled := fun ha _ hg hi h => issuance_stable _ _ h (issuance_compat ha hg) hi
  safe := by
    intro P c hc hP
    apply wp_of_wpE
    cases c with
    | issue input f secret =>
      -- the id is new, so nothing was refused under it
      refine issue_safe fun hf => ?_
      obtain ⟨d, hd, hdf⟩ := hP.trace f hf
      obtain ⟨t, ht, rfl⟩ := List.mem_map.1 hd
      exact hc f rfl t ht hdf
    | revokeById sessionId userId =>
      show wpE _ (do let _ ← revokeSessionById sessionId userId; pure none) _ _ _
      rw [wpE_bind, revokeSessionById, wpE_bind]
      exact revokeSessions_safe (reaches_byId _ _) (fun _ _ f hf => by cases hf) (fun _ _ f hf => by cases hf) _
    | revokeByToken token =>
      show wpE _ (do revokeSessionByToken env token; pure none) _ _ _
      rw [wpE_bind, revokeSessionByToken, wpE_bind]
      exact revokeSessions_safe (reaches_byToken _) (fun _ _ f hf => by cases hf) (fun _ _ f hf => by cases hf) _
    | revokeAll userId =>
      show wpE _ (do revokeAllUserSessions userId; pure none) _ _ _
      rw [wpE_bind, revokeAllUserSessions, wpE_bind]
      exact revokeSessions_safe (reaches_all _) (fun _ _ f hf => by cases hf) (fun _ _ f hf => by cases hf) _
    | revokeOther userId keepSessionId =>
      show wpE _ (do let _ ← revokeOtherUserSessions userId keepSessionId; pure none) _ _ _
      rw [wpE_bind, revokeOtherUserSessions]
      exact revokeSessions_safe (reaches_other _ _) (fun _ _ f hf => by cases hf) (fun _ _ f hf => by cases hf) _

end

/-- Session revocation wins against refresh issuance. In every pool reachable from a world without
history whose families belong to their sessions' users: once a revocation batch covering session `S`
has committed, no family with session `S` is unrevoked; and an `issueRefreshToken` call whose insert
was refused returns no token and, unless one of its own storage calls failed, leaves its family
object revoked. -/
theorem revocation_beats_issuance (env : Env) (w₀ : World) (howner : OwnerOk w₀.db) (hlog : w₀.log = [])
    (P : Pool IssuanceCall Input World (Except Failure (Option IssuedRefreshToken)))
    (hP : (issuanceSystem env).Reach ⟨w₀, []⟩ P) :
    (∀ S, Covered P.store.log S → ∀ r ∈ P.store.db.refreshTokens, r.sessionId = some S → r.revokedAt ≠ none) ∧
    (∀ input f secret r, (.issue input f secret, .done r) ∈ P.threads → Event.familyRefused f ∈ P.store.log →
      (∀ t, r ≠ .ok t) ∧ (r ≠ .error .storage → (P.store.families f).isRevoked = true)) := by
  have h₀ : SessionInv w₀ := by
    refine ⟨howner, ?_, ?_⟩ <;> rintro S ⟨ids, hm, -⟩ <;> rw [hlog] at hm <;> cases hm
  have h := issuance_valid.reach (Outline.holds_start h₀ (by simp [issuanceOutline, hlog])) hP
  refine ⟨h.inv.rows, ?_⟩
  intro input f secret r ht hl
  exact h.post ht f rfl hl

/-! ## A run -/

def sampleIssue : IssueRefreshInput :=
  { userId := "usr_a", clientId := "app", sessionId := some "sess_a", resource := "https://api.example.com",
    scope := "openid offline_access", authTime := 0, rememberMe := false }

/-- The family object is created, all sessions of the user are revoked, and then the insert runs. -/
def sampleSchedule : List (System.Move IssuanceCall Input) :=
  [.arrive (.issue sampleIssue "rtf_a" "secret"), .run 0 Deployment.ok, .run 0 Deployment.ok,
    .arrive (.revokeAll "usr_a"), .run 1 Deployment.ok, .run 1 Deployment.ok, .run 0 Deployment.ok,
    .run 0 Deployment.ok]

theorem revocation_beats_issuance_refused :
    let P := (issuanceSystem Deployment.env).moves ⟨Deployment.world, []⟩ sampleSchedule
    Covered P.store.log "sess_a" ∧ Event.familyRefused "rtf_a" ∈ P.store.log ∧
      (P.store.families "rtf_a").isRevoked = true := by
  intro P
  have hreach : (issuanceSystem Deployment.env).Reach ⟨Deployment.world, []⟩ P := by
    refine System.reach_moves sampleSchedule ⟨?_, trivial, trivial, ?_, trivial, trivial, trivial, trivial, trivial⟩
    · intro f _ t ht
      exact (List.not_mem_nil ht).elim
    · intro f hf
      cases hf
  have howner : OwnerOk Deployment.world.db := by
    intro r hr
    exact (Table.not_mem_empty hr).elim
  have h := revocation_beats_issuance _ Deployment.world howner rfl P hreach
  have hdone : P.finished 0 = some (.issue sampleIssue "rtf_a" "secret",
      .error (.oauth .invalidGrant "The authorization session is no longer active"
        "session or user changed while creating the refresh token family")) := by decide
  have hrefused : Event.familyRefused "rtf_a" ∈ P.store.log := by decide
  exact ⟨⟨["sess_a"], by decide, by decide⟩, hrefused,
    (h.2 _ _ _ _ (Pool.mem_of_finished hdone) hrefused).2 nofun⟩

end Keyforge.Refresh
