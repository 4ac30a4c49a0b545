/-
Updates of a profile. An update reads the row and writes it back several steps later: name, state and
verification, whichever of them it was asked to change. The write asks that the state and the security
version are the ones read, not that the name and the verification are. So an update that overlaps with
another can undo it, and does exactly where its batch puts back a name or a verification that the other has
changed in the meantime.
-/
import Keyforge.Deployment
import Keyforge.Paths
import Keyforge.Tokens.Rules
import Keyforge.Db.Users

namespace Keyforge.Account

open Lib Db Auth Tokens

/-! ## The calls -/

/-- Updates of the user. They arrive at any time, and any storage call may fail. -/
def updateSystem (id : String) : System UserPatch Input World (Except Failure (Option UserRow)) where
  code := fun patch => (updateUser id patch).run
  allow := fun _ _ _ => True
  arrive := fun _ _ => True

/-- The user's row. -/
def userOf (id : String) (w : World) : Option UserRow :=
  w.db.users.get? id

/-- A step leaves the user's row alone. -/
def LeavesUser (id : String) (t : World × World) : Prop :=
  userOf id t.2 = userOf id t.1

/-- No field is set by both. -/
structure SetApart (patch patch' : UserPatch) : Prop where
  name : patch.name = none ∨ patch'.name = none
  disabled : patch.disabled = none ∨ patch'.disabled = none
  emailVerified : patch.emailVerified = none ∨ patch'.emailVerified = none

theorem SetApart.symm {patch patch' : UserPatch} (h : SetApart patch patch') : SetApart patch' patch :=
  ⟨h.name.symm, h.disabled.symm, h.emailVerified.symm⟩

/-- The fields that the patch sets have the patched values. -/
structure Applied (patch : UserPatch) (u : UserRow) : Prop where
  name : ∀ name, patch.name = some name → u.name = name
  disabled : ∀ disabled, patch.disabled = some disabled → u.disabled = disabled
  emailVerified : ∀ emailVerified, patch.emailVerified = some emailVerified → u.emailVerified = emailVerified

/-- The name and the verification, where the patch does not set them, are the ones read. -/
structure Current (patch : UserPatch) (read u : UserRow) : Prop where
  name : patch.name = none → u.name = read.name
  emailVerified : patch.emailVerified = none → u.emailVerified = read.emailVerified

/-- The batch of a call, its third step, finds what it is going to write back as the first step read it. -/
def FindsCurrent (id : String) (patch : UserPatch) (own : Steps) : Prop :=
  ∀ read time batch rest, own = read :: time :: batch :: rest → ∀ current ∈ userOf id read.1, ∀ u ∈ userOf id batch.1,
    Current patch current u

/-! ## What an update does -/

section

variable {id : String}

theorem leavesUser_of_db {t : World × World} (h : t.2.db = t.1.db) : LeavesUser id t := by
  rw [LeavesUser, userOf, userOf, h]

/-- Mirroring a revocation into the family objects leaves the row alone. -/
theorem revokeRefreshFamilyDurableObjects_leaves (id : String) (familyIds : List String) :
    endsE (revokeRefreshFamilyDurableObjects familyIds) (fun _ tr => ∀ t ∈ tr, LeavesUser id t) fun _ _ => True := by
  let Γ : Protocol Input World := ⟨fun _ => True, fun _ _ => True, fun w w' => w'.db = w.db, fun _ _ _ => True⟩
  have hΓ : Tolerant Γ :=
    { ok := ⟨fun _ => trivial, fun _ _ => trivial⟩, tickInv := fun _ _ => trivial, tickRely := fun _ _ => trivial,
      tickGuar := fun _ _ => rfl, tickAllow := fun _ _ => trivial, guarTick := fun _ h => h,
      burnInv := fun _ _ => trivial, burnRely := fun _ => trivial, burnGuar := fun hb => hb.db }
  have hkeeps := keeps_revokeRefreshFamilyDurableObjects hΓ familyIds Deployment.world trivial
  refine ends_imp ?_ _ (ends_guar (Γ := Γ) (fun _ => trivial) (fun _ _ => trivial) (fun _ _ _ => trivial) _ hkeeps)
  rintro (x | a) tr htr
  · trivial
  · exact fun t ht => leavesUser_of_db (htr t ht)

/-- The batch returns the row it wrote over, or leaves the row alone. -/
theorem updateUserBatch_row {now : Nat} {current next : UserRow} (hid : current.id = id) {w w' : World}
    (hdb : w'.db = (updateUserBatch now current next w.db).2) {row : Option UserRow}
    (hrow : (updateUserBatch now current next w.db).1.1 = row) :
    (row = none → LeavesUser id (w, w')) ∧ ∀ r, row = some r → ∃ u, userOf id w = some u ∧ u.disabled = current.disabled ∧
      userOf id w' = some (updatedUser now current next u) := by
  have hafter : userOf id w' = (userOf id w).map fun u =>
      if updateGuard current next w.db u then updatedUser now current next u else u := by
    rw [userOf, hdb, updateUserBatch, revokeAccessIf_users]
    exact Table.get?_update (updatedUser_id now current next)
  have hstatement : (updateUserStatement now current next w.db).users.get? id = userOf id w' := by
    rw [hafter]
    exact Table.get?_update (updatedUser_id now current next)
  subst hrow
  rw [updateUserBatch, hid, hstatement]
  cases hu : userOf id w with
  | none =>
    have hnone : w.db.users.get? id = none := hu
    rw [hu] at hafter
    refine ⟨fun _ => hafter.trans hu.symm, fun r hr => ?_⟩
    rw [hnone] at hr
    cases hr
  | some u =>
    have hsome : w.db.users.get? id = some u := hu
    rw [hu, Option.map_some] at hafter
    dsimp only
    rw [hsome, Option.any_some]
    by_cases hguard : updateGuard current next w.db u = true
    · rw [if_pos hguard] at hafter ⊢
      refine ⟨fun hnone => ?_, fun r _ => ⟨u, rfl, ?_, hafter⟩⟩
      · rw [hafter] at hnone
        cases hnone
      · unfold updateGuard at hguard
        simp only [Bool.and_eq_true, decide_eq_true_eq] at hguard
        exact hguard.1.1.2
    · rw [if_neg hguard] at hafter ⊢
      exact ⟨fun _ => hafter.trans hu.symm, fun r hr => by cases hr⟩

/-- The steps of an update that returned the user: it read the row, and later wrote it over with the patch. -/
structure Updates (id : String) (patch : UserPatch) (read time batch : World × World) (rest : Steps) : Prop where
  leaves : ∀ t ∈ read :: time :: rest, LeavesUser id t
  writes : ∃ now current u, userOf id read.1 = some current ∧ userOf id batch.1 = some u ∧ u.disabled = current.disabled ∧
    userOf id batch.2 = some (updatedUser now current (patch.next current) u)

theorem updateUser_ends (patch : UserPatch) :
    endsE (updateUser id patch)
      (fun result tr => (result = none → ∀ t ∈ tr, LeavesUser id t) ∧
        ∀ r, result = some r → ∃ read time batch rest, tr = read :: time :: batch :: rest ∧ Updates id patch read time batch rest)
      fun _ _ => True := by
  unfold updateUser
  rw [endsE_bind]
  refine endsE_select (fun w₁ dt₁ => ?_) fun _ => trivial
  have hread : LeavesUser id (w₁, w₁.tick dt₁) := leavesUser_of_db rfl
  cases hcurrent : w₁.db.users.get? id with
  | none =>
    refine ⟨fun _ t ht => ?_, fun r hr => by cases hr⟩
    rw [List.append_nil, List.mem_singleton] at ht
    rw [ht]
    exact hread
  | some current =>
    dsimp only
    rw [endsE_bind]
    refine endsE_clock fun w₂ dt₂ => ?_
    have htime : LeavesUser id (w₂, w₂.tick dt₂) := leavesUser_of_db rfl
    generalize (w₂.tick dt₂).nowSeconds = now
    rw [endsE_bind]
    refine endsE_d1Logged (fun w₃ w₃' dt₃ hw₃ => ?_) fun _ => trivial
    rw [endsE_bind]
    refine endsE_imp (fun _ tr htr => ?_) (fun _ _ _ => trivial) _ (revokeRefreshFamilyDurableObjects_leaves id _)
    obtain ⟨hnone, hsome⟩ := updateUserBatch_row (Table.get?_eq_some.1 hcurrent).2 (show w₃'.db = _ by rw [hw₃]) rfl
    rw [endsE_pure, List.append_nil]
    refine ⟨fun hresult => ?_, fun r hresult => ?_⟩
    · rw [List.singleton_append, List.singleton_append, List.singleton_append, List.forall_mem_cons, List.forall_mem_cons,
        List.forall_mem_cons]
      exact ⟨hread, htime, hnone hresult, htr⟩
    · obtain ⟨u, hu, hdisabled, hafter⟩ := hsome r hresult
      refine ⟨_, _, _, tr, rfl, ?_, now, current, u, hcurrent, hu, hdisabled, hafter⟩
      rw [List.forall_mem_cons, List.forall_mem_cons]
      exact ⟨hread, htime, htr⟩

/-! ## Two updates, one after the other -/

/-- Over the row that the earlier batch left, the later one keeps both patches exactly if it finds what it
writes back as it read it: it read the row after the earlier batch, or before it. -/
theorem applied_iff {patch patch' : UserPatch} (hapart : SetApart patch patch') {now : Nat} {read read' u : UserRow}
    (hu : u = updatedUser now read (patch.next read) read) (hread : read' = read ∨ read' = u)
    (hdisabled : u.disabled = read'.disabled) (now' : Nat) :
    Applied patch (updatedUser now' read' (patch'.next read') u) ∧ Applied patch' (updatedUser now' read' (patch'.next read') u) ↔
      Current patch' read' u := by
  have hname : u.name = patch.name.getD read.name := by rw [hu]; rfl
  have hverified : u.emailVerified = patch.emailVerified.getD read.emailVerified := by rw [hu]; rfl
  have hstate : u.disabled = patch.disabled.getD read.disabled := by rw [hu]; rfl
  have hwritten : Applied patch' (updatedUser now' read' (patch'.next read') u) := by
    constructor <;> intro v hv <;> simp [updatedUser, UserPatch.next, hv]
  constructor
  · rintro ⟨⟨hkeptName, -, hkeptVerified⟩, -⟩
    simp only [updatedUser, UserPatch.next] at hkeptName hkeptVerified
    rcases hread with rfl | rfl
    swap
    · exact ⟨fun _ => rfl, fun _ => rfl⟩
    refine ⟨fun hnone => ?_, fun hnone => ?_⟩
    · -- the earlier patch sets the name to what it was, or not at all
      rw [hname]
      cases hset : patch.name with
      | none => rfl
      | some name =>
        have hsame := hkeptName name hset
        rw [hnone, Option.getD_none] at hsame
        exact hsame.symm
    · rw [hverified]
      cases hset : patch.emailVerified with
      | none => rfl
      | some verified =>
        have hsame := hkeptVerified verified hset
        rw [hnone, Option.getD_none] at hsame
        exact hsame.symm
  · rintro ⟨hfoundName, hfoundVerified⟩
    refine ⟨⟨fun name hset => ?_, fun disabled hset => ?_, fun verified hset => ?_⟩, hwritten⟩
    · have hnone : patch'.name = none := hapart.name.resolve_left (by rw [hset]; simp)
      have hfound := hfoundName hnone
      rw [hname, hset, Option.getD_some] at hfound
      simp [updatedUser, UserPatch.next, hnone, hfound]
    · have hnone : patch'.disabled = none := hapart.disabled.resolve_left (by rw [hset]; simp)
      rw [hstate, hset, Option.getD_some] at hdisabled
      simp [updatedUser, UserPatch.next, hnone, hdisabled]
    · have hnone : patch'.emailVerified = none := hapart.emailVerified.resolve_left (by rw [hset]; simp)
      have hfound := hfoundVerified hnone
      rw [hverified, hset, Option.getD_some] at hfound
      simp [updatedUser, UserPatch.next, hnone, hfound]

/-- Both patches are in the last row. -/
def Kept (id : String) (patch patch' : UserPatch) (w : World) : Prop :=
  ∃ u, userOf id w = some u ∧ Applied patch u ∧ Applied patch' u

theorem Updates.findsCurrent_iff {patch : UserPatch} {read time batch : World × World} {rest own : Steps}
    (hown : own = read :: time :: batch :: rest) {current u : UserRow} (hread : userOf id read.1 = some current)
    (hu : userOf id batch.1 = some u) : FindsCurrent id patch own ↔ Current patch current u := by
  subst hown
  constructor
  · exact fun h => h read time batch rest rfl current hread u hu
  · rintro h _ _ _ _ ⟨⟩ current' hread' u' hu'
    cases Option.some.inj (hread.symm.trans hread')
    cases Option.some.inj (hu.symm.trans hu')
    exact h

/-- Steps that leave the row alone. -/
theorem userOf_chained {w w' : World} {steps : List (Taken World)} (hchain : Chained w steps w')
    (hleaves : ∀ t ∈ steps, LeavesUser id (t.before, t.after)) :
    userOf id w' = userOf id w ∧ ∀ t ∈ steps, userOf id t.before = userOf id w := by
  have hkeep : ∀ t ∈ steps, userOf id t.before = userOf id w → userOf id t.after = userOf id w :=
    fun t ht h => (hleaves t ht).trans h
  exact ⟨hchain.keep (p := fun v => userOf id v = userOf id w) hkeep rfl,
    fun t ht => (hchain.all (p := fun v => userOf id v = userOf id w) hkeep rfl t ht).1⟩

/-- Steps of two threads, of which each is among steps of its thread that leave the row alone. -/
theorem leaves_of_threads {i j : Nat} {steps mine yours : List (Taken World)} (hthreads : ∀ t ∈ steps, t.thread = i ∨ t.thread = j)
    (hmine : steps ⊆ mine) (hleaves : ∀ x ∈ stepsOf i mine, LeavesUser id x) (hyours : steps ⊆ yours)
    (hleaves' : ∀ x ∈ stepsOf j yours, LeavesUser id x) : ∀ t ∈ steps, LeavesUser id (t.before, t.after) := by
  intro t ht
  rcases hthreads t ht with hthread | hthread
  · exact hleaves _ (mem_stepsOf.2 ⟨t, hmine ht, hthread, rfl⟩)
  · exact hleaves' _ (mem_stepsOf.2 ⟨t, hyours ht, hthread, rfl⟩)

/-- The update of thread `i` writes before that of thread `j`, and nothing else moves. -/
theorem kept_iff_ordered {i j : Nat} (hne : i ≠ j) {patch patch' : UserPatch} (hapart : SetApart patch patch') {w₀ w : World}
    {older mid newer : List (Taken World)} {s s' : Taken World} (hchain : Chained w₀ (older ++ s :: (mid ++ s' :: newer)) w)
    (hthreads : ∀ t ∈ older ++ s :: (mid ++ s' :: newer), t.thread = i ∨ t.thread = j) (hs : s.thread = i)
    {read time read' time' : World × World} {rest rest' : Steps}
    (h : Updates id patch read time (s.before, s.after) rest) (hbefore : stepsOf i older = [read, time])
    (hafter : stepsOf i (mid ++ s' :: newer) = rest)
    (h' : Updates id patch' read' time' (s'.before, s'.after) rest') (hbefore' : stepsOf j (older ++ s :: mid) = [read', time'])
    (hafter' : stepsOf j newer = rest') :
    Kept id patch patch' w ↔ FindsCurrent id patch (read :: time :: (s.before, s.after) :: rest) ∧
      FindsCurrent id patch' (read' :: time' :: (s'.before, s'.after) :: rest') := by
  obtain ⟨hleaves, now, current, u, hread, hu, -, hwritten⟩ := h
  obtain ⟨hleaves', now', current', u', hread', hu', hdisabled', hwritten'⟩ := h'
  rw [List.forall_mem_cons, List.forall_mem_cons] at hleaves hleaves'
  obtain ⟨hquiet, hquietTime, hquietRest⟩ := hleaves
  obtain ⟨hquiet', hquietTime', hquietRest'⟩ := hleaves'
  -- every step but the two leaves the row alone
  have hearly : ∀ t ∈ stepsOf i older, LeavesUser id t := by
    rw [hbefore]
    simp [hquiet, hquietTime]
  have hearly' : ∀ t ∈ stepsOf j (older ++ s :: mid), LeavesUser id t := by
    rw [hbefore']
    simp [hquiet', hquietTime']
  have hlate : ∀ t ∈ stepsOf i (mid ++ s' :: newer), LeavesUser id t := by
    rw [hafter]
    exact hquietRest
  have hlate' : ∀ t ∈ stepsOf j newer, LeavesUser id t := by
    rw [hafter']
    exact hquietRest'
  have hquietOlder : ∀ t ∈ older, LeavesUser id (t.before, t.after) :=
    leaves_of_threads (fun t ht => hthreads t (by simp [ht])) (List.Subset.refl _) hearly (List.subset_append_left _ _) hearly'
  have hquietMid : ∀ t ∈ mid, LeavesUser id (t.before, t.after) :=
    leaves_of_threads (fun t ht => hthreads t (by simp [ht])) (List.subset_append_left _ _) hlate (fun t ht => by simp [ht]) hearly'
  have hquietNewer : ∀ t ∈ newer, LeavesUser id (t.before, t.after) :=
    leaves_of_threads (fun t ht => hthreads t (by simp [ht])) (fun t ht => by simp [ht]) hlate (List.Subset.refl _) hlate'
  obtain ⟨hfirst, hrow⟩ := userOf_chained hchain.at.1 hquietOlder
  obtain ⟨hsecond, hrow'⟩ := userOf_chained hchain.at.2.at.1 hquietMid
  obtain ⟨hlast, -⟩ := userOf_chained hchain.at.2.at.2 hquietNewer
  -- the earlier update read the row that its batch found
  obtain ⟨r, hr, -, rfl⟩ := mem_stepsOf.1 (show read ∈ stepsOf i older by rw [hbefore]; exact List.mem_cons_self)
  have hsame : u = current :=
    Option.some.inj (hu.symm.trans (hfirst.trans ((hrow r hr).symm.trans hread)))
  subst hsame
  have hfound : u' = updatedUser now u (patch.next u) u := Option.some.inj (hu'.symm.trans (hsecond.trans hwritten))
  -- the later one read that row too, or what the batch made of it
  obtain ⟨r', hr', hthread', rfl⟩ := mem_stepsOf.1
    (show read' ∈ stepsOf j (older ++ s :: mid) by rw [hbefore']; exact List.mem_cons_self)
  have hreads : current' = u ∨ current' = u' := by
    rcases List.mem_append.1 hr' with hr' | hr'
    · exact .inl (Option.some.inj (hread'.symm.trans ((hrow r' hr').trans (hfirst.symm.trans hu))))
    · rcases List.mem_cons.1 hr' with rfl | hr'
      · exact absurd (hs.symm.trans hthread') hne
      · exact .inr (Option.some.inj (hread'.symm.trans ((hrow' r' hr').trans (hsecond.symm.trans hu'))))
  have hwhole := hlast.trans hwritten'
  rw [Updates.findsCurrent_iff rfl hread hu, Updates.findsCurrent_iff rfl hread' hu',
    ← applied_iff hapart hfound hreads hdisabled' now']
  constructor
  · rintro ⟨v, hv, happlied⟩
    cases Option.some.inj (hwhole.symm.trans hv)
    exact ⟨⟨fun _ => rfl, fun _ => rfl⟩, happlied⟩
  · exact fun h => ⟨_, hwhole, h.2⟩

/-! ## Runs -/

variable {w₀ : World} {steps : List (Taken World)} {P : Pool UserPatch Input World (Except Failure (Option UserRow))}

theorem update_finished (h : (updateSystem id).Run ⟨w₀, []⟩ steps P) {i : Nat} {patch : UserPatch} {result : Option UserRow}
    (hi : P.finished i = some (patch, .ok result)) :
    (result = none → ∀ t ∈ stepsOf i steps, LeavesUser id t) ∧ ∀ r, result = some r → ∃ read time batch rest,
      stepsOf i steps = read :: time :: batch :: rest ∧ Updates id patch read time batch rest :=
  (endsE_iff.1 (updateUser_ends patch)).1 _ _ (h.finished hi)

/-- Two updates of one user that overlap in any way. -/
theorem kept_iff (h : (updateSystem id).Run ⟨w₀, []⟩ steps P) (htwo : P.threads.length = 2) {patch patch' : UserPatch}
    (hapart : SetApart patch patch') {r r' : UserRow} (hfirst : P.finished 0 = some (patch, .ok (some r)))
    (hsecond : P.finished 1 = some (patch', .ok (some r'))) :
    Kept id patch patch' P.store ↔ FindsCurrent id patch (stepsOf 0 steps) ∧ FindsCurrent id patch' (stepsOf 1 steps) := by
  have hthreads : ∀ t ∈ steps, t.thread = 0 ∨ t.thread = 1 := by
    intro t ht
    have hlt := h.thread_lt t ht
    omega
  have hchain : Chained w₀ steps P.store := h.chained
  obtain ⟨read, time, batch, rest, hown, hupdates⟩ := (update_finished h hfirst).2 r rfl
  obtain ⟨read', time', batch', rest', hown', hupdates'⟩ := (update_finished h hsecond).2 r' rfl
  obtain ⟨older, s, newer, hsteps, hs, rfl, hbefore, hafter⟩ :=
    @stepsOf_split _ 0 [read, time] rest batch steps hown
  obtain ⟨older', s', newer', hsteps', hs', rfl, hbefore', hafter'⟩ :=
    @stepsOf_split _ 1 [read', time'] rest' batch' steps hown'
  rw [hown, hown']
  rcases List.append_eq_append_iff.1 (hsteps.symm.trans hsteps') with ⟨mid, hmid, hnewer⟩ | ⟨mid, hmid, hnewer⟩
  · -- the first call writes first
    cases mid with
    | nil =>
      rw [List.nil_append] at hnewer
      cases hnewer
      omega
    | cons x mid =>
      rw [List.cons_append, List.cons.injEq] at hnewer
      obtain ⟨rfl, rfl⟩ := hnewer
      subst hmid
      rw [hsteps] at hchain hthreads
      exact kept_iff_ordered (by decide) hapart hchain hthreads hs hupdates hbefore hafter hupdates' hbefore' hafter'
  · cases mid with
    | nil =>
      rw [List.nil_append] at hnewer
      cases hnewer
      omega
    | cons x mid =>
      rw [List.cons_append, List.cons.injEq] at hnewer
      obtain ⟨rfl, rfl⟩ := hnewer
      subst hmid
      rw [hsteps'] at hchain hthreads
      have hiff := kept_iff_ordered (by decide) hapart.symm hchain (fun t ht => (hthreads t ht).symm) hs' hupdates' hbefore' hafter'
        hupdates hbefore hafter
      rw [and_comm, ← hiff]
      exact ⟨fun ⟨u, hu, h1, h2⟩ => ⟨u, hu, h2, h1⟩, fun ⟨u, hu, h1, h2⟩ => ⟨u, hu, h2, h1⟩⟩

end

/-- A call that returns nothing changed nothing, and of two calls that return the user, each keeps what it
was asked for exactly if their batches find what they write back as the calls read it. -/
theorem updates_kept_iff (id : String) :
    (∀ w₀ steps P, (updateSystem id).Run ⟨w₀, []⟩ steps P → ∀ i patch, P.finished i = some (patch, .ok none) →
      ∀ t ∈ steps, t.thread = i → userOf id t.after = userOf id t.before) ∧
    ∀ w₀ steps P, (updateSystem id).Run ⟨w₀, []⟩ steps P → P.threads.length = 2 → ∀ patch patch' r r', SetApart patch patch' →
      P.finished 0 = some (patch, .ok (some r)) → P.finished 1 = some (patch', .ok (some r')) →
        (Kept id patch patch' P.store ↔ FindsCurrent id patch (stepsOf 0 steps) ∧ FindsCurrent id patch' (stepsOf 1 steps)) := by
  constructor
  · intro w₀ steps P h i patch hi t ht hthread
    exact (update_finished h hi).1 rfl (t.before, t.after) (mem_stepsOf.2 ⟨t, ht, hthread, rfl⟩)
  · intro w₀ steps P h htwo patch patch' r r' hapart hfirst hsecond
    exact kept_iff h htwo hapart hfirst hsecond

/-! ## Two updates on a small deployment -/

/-- The deployment with a user whose address is not verified. -/
def unverifiedWorld : World :=
  { Deployment.world with
    db := { Deployment.database with
      users := (∅ : Table UserRow.id).insert { Deployment.user with emailVerified := false } } }

/-- `POST /account/profile`. -/
def setName : UserPatch := { name := some (some "Ada"), disabled := none, emailVerified := none }

/-- `POST /login/magic/callback`. -/
def setVerified : UserPatch := { name := none, disabled := none, emailVerified := some true }

theorem setApart_profile : SetApart setName setVerified := ⟨.inr rfl, .inl rfl, .inl rfl⟩

theorem allows_update {id : String} : ∀ (ms : List (System.Move UserPatch Input)) P, (updateSystem id).Allows P ms
  | [], _ => trivial
  | .arrive _ :: rest, _ => ⟨trivial, allows_update rest _⟩
  | .run _ _ :: rest, _ => ⟨trivial, allows_update rest _⟩

/-- Both calls read the row before either writes it. -/
def overlapping : List (System.Move UserPatch Input) :=
  [.arrive setName, .arrive setVerified, .run 0 Deployment.ok, .run 1 Deployment.ok, .run 0 Deployment.ok, .run 1 Deployment.ok,
    .run 0 Deployment.ok, .run 1 Deployment.ok]

/-- Both calls return the user, and the new name is lost. -/
theorem overlapping_update_lost :
    let S := updateSystem "usr_a"
    let P := S.moves ⟨unverifiedWorld, []⟩ overlapping
    S.Run ⟨unverifiedWorld, []⟩ (S.taken ⟨unverifiedWorld, []⟩ overlapping) P ∧ P.threads.length = 2 ∧ SetApart setName setVerified ∧
      P.finished 0 = some (setName, .ok (some { Deployment.user with
        name := some "Ada", emailVerified := false, updatedAt := 1003 })) ∧
      P.finished 1 = some (setVerified, .ok (some { Deployment.user with updatedAt := 1004 })) ∧
      ¬Kept "usr_a" setName setVerified P.store := by
  intro S P
  refine ⟨System.run_moves _ (allows_update _ _), by decide +kernel, setApart_profile, by decide +kernel, by decide +kernel, ?_⟩
  rintro ⟨u, hu, ⟨hname, -, -⟩, -⟩
  have hlost : (userOf "usr_a" P.store).map (·.name) = some none := by decide +kernel
  rw [hu, Option.map_some, hname _ rfl] at hlost
  cases hlost

/-- The second call begins when the first has ended. -/
def consecutive : List (System.Move UserPatch Input) :=
  [.arrive setName, .arrive setVerified, .run 0 Deployment.ok, .run 0 Deployment.ok, .run 0 Deployment.ok, .run 1 Deployment.ok,
    .run 1 Deployment.ok, .run 1 Deployment.ok]

theorem updates_kept_iff_consecutive :
    let steps := (updateSystem "usr_a").taken ⟨unverifiedWorld, []⟩ consecutive
    FindsCurrent "usr_a" setName (stepsOf 0 steps) ∧ FindsCurrent "usr_a" setVerified (stepsOf 1 steps) := by
  intro steps
  let P := (updateSystem "usr_a").moves ⟨unverifiedWorld, []⟩ consecutive
  have hrun : (updateSystem "usr_a").Run ⟨unverifiedWorld, []⟩ steps P := System.run_moves _ (allows_update _ _)
  have htwo : P.threads.length = 2 := by decide +kernel
  have hfirst : P.finished 0 = some (setName, .ok (some { Deployment.user with
      name := some "Ada", emailVerified := false, updatedAt := 1002 })) := by decide +kernel
  have hsecond : P.finished 1 = some (setVerified, .ok (some { Deployment.user with
      name := some "Ada", updatedAt := 1005 })) := by decide +kernel
  have hlast : (userOf "usr_a" P.store).map (fun u => (u.name, u.emailVerified)) = some (some "Ada", true) := by decide +kernel
  obtain ⟨u, hu, hcolumns⟩ := Option.map_eq_some_iff.1 hlast
  obtain ⟨hname, hverified⟩ := Prod.mk.inj hcolumns
  refine ((updates_kept_iff "usr_a").2 unverifiedWorld steps P hrun htwo setName setVerified _ _ setApart_profile hfirst hsecond).1
    ⟨u, hu, ⟨?_, nofun, nofun⟩, ⟨nofun, nofun, ?_⟩⟩
  · rintro _ ⟨⟩
    exact hname
  · rintro _ ⟨⟩
    exact hverified

end Keyforge.Account
