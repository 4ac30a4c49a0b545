/-
The life of an avatar object. Its key is generated, the object is written, the row names it, another call
moves the row away from it, and that call deletes it. The key belongs to the call that generated it until the
row names it, and to the call that moved the row away from it after that, so whatever overlaps: the row never
names a missing object, no object is deleted twice, and without failures nothing but the named object is left.
-/
import Keyforge.Deployment
import Keyforge.Lib.Along
import Keyforge.Media.Avatar

namespace Keyforge.Media

open Lib

/-! ## The calls -/

/-- A call for the user; an upload draws `token`. -/
inductive AvatarCall where
  | store (bytes : List UInt8) (token : String)
  | remove
  deriving DecidableEq, Repr

inductive AvatarAnswer where
  | store (result : AvatarStoreResult)
  | remove (existed : Bool)
  deriving DecidableEq, Repr

def AvatarCall.code (userId : String) : AvatarCall → AvatarApp AvatarAnswer
  | .store bytes token => do
    let result ← storeUserAvatar userId bytes token
    pure (.store result)
  | .remove => do
    let existed ← removeUserAvatar userId
    pure (.remove existed)

/-- The key that the call writes an object under, if it gets that far. -/
def AvatarCall.key : AvatarCall → Option String
  | .store bytes token => match validateAvatarBytes bytes with
    | .error _ => none
    | .ok contentType => some (generateAvatarKey token contentType)
  | .remove => none

/-- Calls for one user arrive at any time, each with a key of its own that is not the one the row named at
first, and any storage call may fail. -/
def avatarSystem (userId : String) (initial : Option String) : System AvatarCall Input AvatarWorld (Except Failure AvatarAnswer) where
  code := fun c => (c.code userId).run
  allow := fun _ _ _ => True
  arrive := fun P c => ∀ key, c.key = some key → initial ≠ some key ∧ ∀ t ∈ P.threads, t.1.key ≠ some key

/-- The key that the user's row names. -/
def avatarKey (userId : String) (w : AvatarWorld) : Option String :=
  (w.users.get? userId).bind (·.avatarKey)

/-- The user exists. -/
def UserExists (userId : String) (w : AvatarWorld) : Prop :=
  (w.users.get? userId).isSome

/-! ## The steps of a call -/

/-- The steps of a call, each with the state before and after it. -/
abbrev AvatarSteps := List (AvatarWorld × AvatarWorld)

/-- A step that leaves the rows and the deletions alone. -/
structure Still (t : AvatarWorld × AvatarWorld) : Prop where
  users : t.2.users = t.1.users
  former : t.2.former = t.1.former
  deleted : t.2.deleted = t.1.deleted

/-- A step that makes the user's row name the key of the call `c`, or nothing if it has none. -/
structure Swap (userId : String) (c : AvatarCall) (t : AvatarWorld × AvatarWorld) : Prop where
  row : UserExists userId t.2 ↔ UserExists userId t.1
  names : UserExists userId t.1 → avatarKey userId t.2 = c.key
  avatars : t.2.avatars = t.1.avatars
  former : t.2.former = (avatarKey userId t.1).toList ++ t.1.former
  deleted : t.2.deleted = t.1.deleted

/-- What a step of the call `c` does after its steps `past`. -/
inductive AvatarStep (userId : String) (c : AvatarCall) (past : AvatarSteps) (t : AvatarWorld × AvatarWorld) : Prop
  | rests (still : Still t) (avatars : t.2.avatars = t.1.avatars)
  | puts (key : String) (object : AvatarObject) (still : Still t) (owns : c.key = some key) (fresh : ∀ s ∈ past, Still s)
      (avatars : t.2.avatars = Function.update t.1.avatars key (some object))
  | swaps (swap : Swap userId c t) (fresh : ∀ s ∈ past, Still s)
      (put : ∀ key, c.key = some key → ∃ s ∈ past, s.2.avatars key ≠ none)
  | deletes (key : String) (users : t.2.users = t.1.users) (former : t.2.former = t.1.former)
      (deleted : t.2.deleted = key :: t.1.deleted)
      (avatars : t.2.avatars = t.1.avatars ∨ t.2.avatars = Function.update t.1.avatars key none)
      (swapped : ∃ s ∈ past, UserExists userId s.1 → s.2.former = key :: s.1.former)
      (first : ∀ s ∈ past, s.2.deleted = s.1.deleted)

/-- A step also remembers that a call has failed. -/
structure AvatarMove (userId : String) (c : AvatarCall) (past : AvatarSteps) (t : AvatarWorld × AvatarWorld) : Prop where
  step : AvatarStep userId c past t
  failed : t.1.failed = true → t.2.failed = true

/-- The steps of a call that has finished: one of them failed, or the call wrote nothing, or it swapped the
row to its key and saw the bucket without the object that the row had named. -/
inductive Finished (userId : String) (c : AvatarCall) (own : AvatarSteps) : Prop
  | failed (t : AvatarWorld × AvatarWorld) (mem : t ∈ own) (failed : t.2.failed = true)
  | rejected (key : c.key = none) (still : ∀ s ∈ own, Still s)
  | swapped (before after : AvatarSteps) (s : AvatarWorld × AvatarWorld) (own_eq : own = before ++ s :: after)
      (others : ∀ t ∈ before ++ after, t.2.former = t.1.former) (names : UserExists userId s.1 → avatarKey userId s.2 = c.key)
      (deleted : UserExists userId s.1 → ∀ key, avatarKey userId s.1 = some key → ∃ d ∈ after, d.2.avatars key = none)

section

variable {userId : String} {c : AvatarCall} {past : AvatarSteps} {α : Type}

/-! ## Rules -/

theorem alongE_storageCall {Ψ : AvatarSteps → AvatarWorld × AvatarWorld → Prop} {issued : AvatarWorld → AvatarWorld}
    {op : AvatarWorld → α × AvatarWorld} {Q : α → AvatarSteps → Prop} {X : Failure → AvatarSteps → Prop}
    (hstep : ∀ w dt, Ψ past (w, (op (issued (w.tick dt))).2) ∧
      Q (op (issued (w.tick dt))).1 (past ++ [(w, (op (issued (w.tick dt))).2)]))
    (hfail : ∀ w w' dt, w' = (op (issued (w.tick dt))).2 ∨ w' = issued (w.tick dt) →
      Ψ past (w, { w' with failed := true }) ∧ X .storage (past ++ [(w, { w' with failed := true })])) :
    alongE Ψ (storageCall issued op) Q X past := by
  intro w e
  dsimp only
  cases hf : e.fail with
  | true =>
    obtain ⟨h1, h2⟩ := hfail w (if e.applied then (op (issued (w.tick e.dt))).2 else issued (w.tick e.dt)) e.dt (by
      split
      · exact .inl rfl
      · exact .inr rfl)
    exact ⟨h1, h2⟩
  | false => exact hstep w e.dt

theorem alongE_nowSeconds {Q : Nat → AvatarSteps → Prop} {X : Failure → AvatarSteps → Prop}
    (hQ : ∀ t now, Still t → Q now (past ++ [t])) : alongE (AvatarMove userId c) nowSeconds Q X past :=
  fun w e => ⟨⟨.rests ⟨rfl, rfl, rfl⟩ rfl, fun hf => hf⟩, hQ (w, w.tick e.dt) _ ⟨rfl, rfl, rfl⟩⟩

theorem alongE_putAvatar {key : String} {bytes : List UInt8} {contentType : AvatarContentType} (owns : c.key = some key)
    {Q : Unit → AvatarSteps → Prop} {X : Failure → AvatarSteps → Prop}
    (hQ : ∀ t, Still t → t.2.avatars key ≠ none → Q () [t]) (hX : ∀ t, t.2.failed = true → X .storage [t]) :
    alongE (AvatarMove userId c) (putAvatar key bytes contentType) Q X [] := by
  have hfresh : ∀ s ∈ ([] : AvatarSteps), Still s := fun s hs => absurd hs List.not_mem_nil
  refine alongE_storageCall (fun w dt => ⟨⟨.puts key _ ⟨rfl, rfl, rfl⟩ owns hfresh rfl, fun hf => hf⟩, hQ _ ⟨rfl, rfl, rfl⟩ ?_⟩)
    fun w w' dt hw' => ⟨⟨?_, fun _ => rfl⟩, hX (w, { w' with failed := true }) rfl⟩
  · intro hnone
    cases (Function.update_self key (some (AvatarObject.mk bytes contentType)) (w.tick dt).avatars).symm.trans hnone
  · rcases hw' with rfl | rfl
    · exact .puts key _ ⟨rfl, rfl, rfl⟩ owns hfresh rfl
    · exact .rests ⟨rfl, rfl, rfl⟩ rfl

/-! ## What the calls do -/

theorem not_userExists {w : AvatarWorld} (h : w.users.get? userId = none) : ¬UserExists userId w := by
  unfold UserExists
  rw [h]
  exact Bool.false_ne_true

theorem avatarKey_of_row {w : AvatarWorld} {r : AvatarRow} (h : w.users.get? userId = some r) :
    avatarKey userId w = r.avatarKey := by
  rw [avatarKey, h]
  rfl

theorem swap_update {set : AvatarRow → AvatarRow} (hset : ∀ r, (set r).id = r.id) (hkey : ∀ r, (set r).avatarKey = c.key)
    {w w' : AvatarWorld} (husers : w'.users = w.users.update (·.id = userId) set hset) (havatars : w'.avatars = w.avatars)
    (hformer : w'.former = ((w.users.get? userId).map (·.avatarKey)).join.toList ++ w.former)
    (hdeleted : w'.deleted = w.deleted) : Swap userId c (w, w') := by
  have hget : w'.users.get? userId = (w.users.get? userId).map set := by
    rw [husers, Table.get?_update hset]
    cases hrow : w.users.get? userId with
    | none => rfl
    | some r => simp [(Table.get?_eq_some.1 hrow).2]
  refine ⟨?_, fun hexists => ?_, havatars, ?_, hdeleted⟩
  · unfold UserExists
    rw [hget, Option.isSome_map]
  · obtain ⟨r, hr⟩ := Option.isSome_iff_exists.1 hexists
    have hr : w.users.get? userId = some r := hr
    rw [avatarKey, hget, hr]
    exact hkey r
  · rw [hformer, avatarKey]
    cases w.users.get? userId <;> rfl

theorem alongE_swapAvatar {set : AvatarRow → AvatarRow} {hset : ∀ r, (set r).id = r.id} (hkey : ∀ r, (set r).avatarKey = c.key)
    (fresh : ∀ s ∈ past, Still s) (put : ∀ key, c.key = some key → ∃ s ∈ past, s.2.avatars key ≠ none)
    {Q : Option (Option String) → AvatarSteps → Prop} {X : Failure → AvatarSteps → Prop}
    (hQ : ∀ s, Swap userId c s → Q ((s.1.users.get? userId).map (·.avatarKey)) (past ++ [s]))
    (hX : ∀ s, s.2.failed = true → X .storage (past ++ [s])) :
    alongE (AvatarMove userId c) (swapAvatar userId set hset) Q X past := by
  have hswap : ∀ {w w' : AvatarWorld} (dt : Nat), w'.users = (w.tick dt).users.update (·.id = userId) set hset →
      w'.avatars = w.avatars → w'.former = (((w.tick dt).users.get? userId).map (·.avatarKey)).join.toList ++ w.former →
      w'.deleted = w.deleted → Swap userId c (w, w') :=
    fun dt husers havatars hformer hdeleted => swap_update hset hkey husers havatars hformer hdeleted
  refine alongE_storageCall (fun w dt => ?_) fun w w' dt hw' => ⟨⟨?_, fun _ => rfl⟩, hX _ rfl⟩
  · let w' : AvatarWorld :=
      { w.tick dt with
        users := w.users.update (·.id = userId) set hset
        former := ((w.users.get? userId).map (·.avatarKey)).join.toList ++ w.former }
    have h : Swap userId c (w, w') := hswap dt rfl rfl rfl rfl
    exact ⟨⟨.swaps h fresh put, fun hf => hf⟩, hQ (w, w') h⟩
  · rcases hw' with rfl | rfl
    · exact .swaps (hswap dt rfl rfl rfl rfl) fresh put
    · exact .rests ⟨rfl, rfl, rfl⟩ rfl

/-- The deletion of the object that the swap `s` moved the row away from. -/
theorem alongE_retire {s : AvatarWorld × AvatarWorld} (hswap : Swap userId c s) (fresh : ∀ t ∈ past, Still t) :
    ∀ {key : Option String}, (UserExists userId s.1 → avatarKey userId s.1 = key) →
    alongE (AvatarMove userId c) (deleteAvatarObject key) (fun _ own => Finished userId c own)
      (fun _ own => Finished userId c own) (past ++ [s])
  | none, hkey => by
    refine .swapped past [] s rfl ?_ hswap.names fun hexists key hsome => ?_
    · rw [List.append_nil]
      exact fun t ht => (fresh t ht).former
    · rw [hkey hexists] at hsome
      cases hsome
  | some key, hkey => by
    have hswapped : ∃ t ∈ past ++ [s], UserExists userId t.1 → t.2.former = key :: t.1.former :=
      ⟨s, by simp, fun hexists => by rw [hswap.former, hkey hexists]; rfl⟩
    have hfirst : ∀ t ∈ past ++ [s], t.2.deleted = t.1.deleted := by
      intro t ht
      rcases List.mem_append.1 ht with ht | ht
      · exact (fresh t ht).deleted
      · rw [List.mem_singleton.1 ht]
        exact hswap.deleted
    unfold deleteAvatarObject
    rw [alongE_tryCatch]
    refine alongE_storageCall (fun w dt => ⟨⟨?_, fun hf => hf⟩, ?_⟩) fun w w' dt hw' => ⟨⟨?_, fun _ => rfl⟩, ?_⟩
    · exact .deletes key rfl rfl rfl (.inr rfl) hswapped hfirst
    · refine .swapped past [_] s (by rw [List.append_assoc, List.singleton_append]) ?_ hswap.names fun hexists key' hsome => ?_
      · intro t ht
        rcases List.mem_append.1 ht with ht | ht
        · exact (fresh t ht).former
        · rw [List.mem_singleton.1 ht]
          rfl
      · cases (hkey hexists).symm.trans hsome
        exact ⟨_, List.mem_singleton_self _, Function.update_self _ _ _⟩
    · rcases hw' with rfl | rfl
      · exact .deletes key rfl rfl rfl (.inr rfl) hswapped hfirst
      · exact .deletes key rfl rfl rfl (.inl rfl) hswapped hfirst
    · exact .failed (w, { w' with failed := true }) (by simp) rfl

theorem alongE_storeUserAvatar (bytes : List UInt8) (token : String) :
    alongE (AvatarMove userId (.store bytes token)) (storeUserAvatar userId bytes token)
      (fun _ own => Finished userId (.store bytes token) own) (fun _ own => Finished userId (.store bytes token) own) [] := by
  unfold storeUserAvatar
  cases hvalid : validateAvatarBytes bytes with
  | error reason => exact .rejected (by rw [AvatarCall.key, hvalid]) fun s hs => absurd hs List.not_mem_nil
  | ok contentType =>
    have hkey : AvatarCall.key (.store bytes token) = some (generateAvatarKey token contentType) := by
      rw [AvatarCall.key, hvalid]
    dsimp only
    rw [alongE_bind]
    refine alongE_putAvatar hkey (fun p hp hput => ?_) fun p hp => .failed p (by simp) hp
    unfold setUserAvatar
    rw [alongE_bind, alongE_bind]
    refine alongE_nowSeconds fun q now hq => ?_
    have hfresh : ∀ s ∈ [p] ++ [q], Still s := by
      intro s hs
      rw [List.singleton_append, List.mem_cons, List.mem_singleton] at hs
      rcases hs with rfl | rfl
      · exact hp
      · exact hq
    have hwritten : ∀ key, AvatarCall.key (.store bytes token) = some key → ∃ s ∈ [p] ++ [q], s.2.avatars key ≠ none := by
      intro key hown
      cases hkey.symm.trans hown
      exact ⟨p, by simp, hput⟩
    refine alongE_swapAvatar (fun _ => hkey.symm) hfresh hwritten (fun s hswap => ?_) fun s hs => .failed s (by simp) hs
    cases hrow : s.1.users.get? userId with
    | none =>
      rw [Option.map_none]
      dsimp only
      rw [alongE_bind]
      exact alongE_imp (fun _ _ h => h) (fun _ _ h => h) _
        (alongE_retire hswap hfresh fun hexists => absurd hexists (not_userExists hrow))
    | some r =>
      rw [Option.map_some]
      dsimp only
      rw [alongE_bind]
      exact alongE_imp (fun _ _ h => h) (fun _ _ h => h) _ (alongE_retire hswap hfresh fun _ => avatarKey_of_row hrow)

theorem alongE_removeUserAvatar :
    alongE (AvatarMove userId .remove) (removeUserAvatar userId) (fun _ own => Finished userId .remove own)
      (fun _ own => Finished userId .remove own) [] := by
  unfold removeUserAvatar clearUserAvatar
  rw [alongE_bind, alongE_bind]
  refine alongE_nowSeconds fun q now hq => ?_
  have hfresh : ∀ s ∈ [] ++ [q], Still s := by
    intro s hs
    rw [List.nil_append, List.mem_singleton] at hs
    rw [hs]
    exact hq
  refine alongE_swapAvatar (fun _ => rfl) hfresh (fun key hown => by cases hown) (fun s hswap => ?_) fun s hs => .failed s (by simp) hs
  cases hrow : s.1.users.get? userId with
  | none => exact @alongE_retire userId .remove _ s hswap hfresh none fun hexists => absurd hexists (not_userExists hrow)
  | some r =>
    have hprevious := avatarKey_of_row hrow
    rw [Option.map_some]
    cases hkey : r.avatarKey with
    | none => exact @alongE_retire userId .remove _ s hswap hfresh none fun _ => hprevious.trans hkey
    | some key =>
      dsimp only
      rw [alongE_bind]
      exact alongE_imp (fun _ _ h => h) (fun _ _ h => h) _ (alongE_retire hswap hfresh fun _ => hprevious.trans hkey)

theorem code_along : ∀ c : AvatarCall,
    along (AvatarMove userId c) (c.code userId).run (fun _ own => Finished userId c own) []
  | .store bytes token => by
    have h : alongE (AvatarMove userId (.store bytes token)) (AvatarCall.code userId (.store bytes token))
        (fun _ own => Finished userId (.store bytes token) own) (fun _ own => Finished userId (.store bytes token) own) [] := by
      unfold AvatarCall.code
      rw [alongE_bind]
      exact alongE_storeUserAvatar bytes token
    exact along_imp (by rintro (x | a) own h <;> exact h) _ _ h
  | .remove => by
    have h : alongE (AvatarMove userId .remove) (AvatarCall.code userId .remove)
        (fun _ own => Finished userId .remove own) (fun _ own => Finished userId .remove own) [] := by
      unfold AvatarCall.code
      rw [alongE_bind]
      exact alongE_removeUserAvatar
    exact along_imp (by rintro (x | a) own h <;> exact h) _ _ h

/-! ## One step of a run -/

/-- The steps so far, and what holds after them: the row's object is there and was not given up, and the key
of a call that has not swapped the row yet is unused, with its object in place once it is written. `keys` is
the key of each thread. -/
structure Safe (userId : String) (keys : Nat → Option String) (older : List (Taken AvatarWorld)) (w : AvatarWorld) : Prop where
  user : UserExists userId w
  existed : ∀ u ∈ older, UserExists userId u.before
  named : ∀ key, avatarKey userId w = some key → w.avatars key ≠ none ∧ key ∉ w.former
  former : w.former.Nodup
  kept : ∀ u ∈ older, u.after.former ⊆ w.former
  unused : ∀ i key, keys i = some key → (∀ x ∈ stepsOf i older, Still x) →
    avatarKey userId w ≠ some key ∧ key ∉ w.former ∧ ((∃ x ∈ stepsOf i older, x.2.avatars key ≠ none) → w.avatars key ≠ none)

/-- Each call has a key of its own. -/
def OwnKeys (keys : Nat → Option String) : Prop :=
  ∀ i j key, keys i = some key → keys j = some key → i = j

variable {keys : Nat → Option String} {older : List (Taken AvatarWorld)} {t : Taken AvatarWorld}

theorem avatarKey_congr {w w' : AvatarWorld} (h : w'.users = w.users) : avatarKey userId w' = avatarKey userId w := by
  rw [avatarKey, avatarKey, h]

theorem userExists_congr {w w' : AvatarWorld} (h : w'.users = w.users) : UserExists userId w' ↔ UserExists userId w := by
  rw [UserExists, UserExists, h]

/-- What a step of thread `i` adds to the steps of a thread. -/
theorem mem_stepsOf_snoc {j : Nat} {x : AvatarWorld × AvatarWorld} :
    x ∈ stepsOf j (older ++ [t]) ↔ x ∈ stepsOf j older ∨ (t.thread = j ∧ x = (t.before, t.after)) := by
  rw [stepsOf_append, stepsOf_singleton, List.mem_append]
  split
  · next hthread => simp [hthread]
  · next hthread => simp [hthread]

theorem AvatarStep.former_subset {c : AvatarCall} {past : AvatarSteps} {t : AvatarWorld × AvatarWorld}
    (h : AvatarStep userId c past t) : t.1.former ⊆ t.2.former := by
  cases h with
  | rests still _ => rw [still.former]; exact List.Subset.refl _
  | puts _ _ still _ _ _ => rw [still.former]; exact List.Subset.refl _
  | swaps swap _ _ => rw [swap.former]; exact List.subset_append_right _ _
  | deletes _ _ former _ _ _ _ => rw [former]; exact List.Subset.refl _

/-- The bookkeeping that every step shares: the step leaves the former keys and the user there. -/
theorem Safe.append (hsafe : Safe userId keys older t.before) (hsub : t.before.former ⊆ t.after.former)
    (huser : UserExists userId t.after)
    (hnamed : ∀ key, avatarKey userId t.after = some key → t.after.avatars key ≠ none ∧ key ∉ t.after.former)
    (hformer : t.after.former.Nodup)
    (hunused : ∀ i key, keys i = some key → (∀ x ∈ stepsOf i (older ++ [t]), Still x) →
      avatarKey userId t.after ≠ some key ∧ key ∉ t.after.former ∧ (t.before.avatars key ≠ none → t.after.avatars key ≠ none)) :
    Safe userId keys (older ++ [t]) t.after := by
  refine ⟨huser, ?_, hnamed, hformer, ?_, fun i key hkey hstill => ?_⟩
  · intro u hu
    rcases List.mem_append.1 hu with hu | hu
    · exact hsafe.existed u hu
    · rw [List.mem_singleton.1 hu]
      exact hsafe.user
  · intro u hu
    rcases List.mem_append.1 hu with hu | hu
    · exact List.Subset.trans (hsafe.kept u hu) hsub
    · rw [List.mem_singleton.1 hu]
      exact List.Subset.refl _
  · obtain ⟨h1, h2, h3⟩ := hunused i key hkey hstill
    refine ⟨h1, h2, ?_⟩
    rintro ⟨x, hx, hput⟩
    rcases mem_stepsOf_snoc.1 hx with hx | ⟨-, rfl⟩
    · exact h3 ((hsafe.unused i key hkey fun y hy => hstill y (mem_stepsOf_snoc.2 (.inl hy))).2.2 ⟨x, hx, hput⟩)
    · exact hput

/-- A step that leaves the rows alone and takes no object away but former ones. -/
theorem Safe.quiet (hsafe : Safe userId keys older t.before) (husers : t.after.users = t.before.users)
    (hformer : t.after.former = t.before.former)
    (havatars : ∀ key, key ∉ t.before.former → t.before.avatars key ≠ none → t.after.avatars key ≠ none) :
    Safe userId keys (older ++ [t]) t.after := by
  refine hsafe.append (by rw [hformer]; exact List.Subset.refl _) ((userExists_congr husers).2 hsafe.user) ?_
    (by rw [hformer]; exact hsafe.former) ?_
  · rw [avatarKey_congr husers, hformer]
    intro key hkey
    obtain ⟨hobject, hnew⟩ := hsafe.named key hkey
    exact ⟨havatars key hnew hobject, hnew⟩
  · rw [avatarKey_congr husers, hformer]
    intro i key hkey hstill
    obtain ⟨h1, h2, -⟩ := hsafe.unused i key hkey fun y hy => hstill y (mem_stepsOf_snoc.2 (.inl hy))
    exact ⟨h1, h2, havatars key h2⟩

theorem Safe.step (hkeys : OwnKeys keys) (hsafe : Safe userId keys older t.before) {c : AvatarCall} (hc : keys t.thread = c.key)
    (h : AvatarStep userId c (stepsOf t.thread older) (t.before, t.after)) : Safe userId keys (older ++ [t]) t.after := by
  cases h with
  | rests still avatars => exact hsafe.quiet still.users still.former fun key _ hobject => by rwa [avatars]
  | puts key object still _ _ avatars =>
    refine hsafe.quiet still.users still.former fun key' _ hobject => ?_
    rw [avatars, Function.update_apply]
    split
    · exact Option.some_ne_none _
    · exact hobject
  | deletes key users former deleted avatars swapped first =>
    -- the key was given up by an earlier step of this call
    obtain ⟨x, hx, hgave⟩ := swapped
    obtain ⟨u, hu, -, rfl⟩ := mem_stepsOf.1 hx
    have hmem : key ∈ t.before.former := by
      refine hsafe.kept u hu ?_
      have hgave : u.after.former = key :: u.before.former := hgave (hsafe.existed u hu)
      rw [hgave]
      exact List.mem_cons_self
    refine hsafe.quiet users former fun key' hnew hobject => ?_
    have hne : key' ≠ key := fun heq => hnew (heq ▸ hmem)
    rcases avatars with avatars | avatars
    · rwa [avatars]
    · rwa [avatars, Function.update_of_ne hne]
  | swaps swap fresh put =>
    have hnames : avatarKey userId t.after = c.key := swap.names hsafe.user
    have hformer : t.after.former = (avatarKey userId t.before).toList ++ t.before.former := swap.former
    have hmem : ∀ key, key ∈ t.after.former ↔ avatarKey userId t.before = some key ∨ key ∈ t.before.former := by
      intro key
      rw [hformer, List.mem_append, Option.mem_toList]
    refine hsafe.append (by rw [hformer]; exact List.subset_append_right _ _) (swap.row.2 hsafe.user) ?_ ?_ ?_
    · -- the call's own key: its object is written and nothing has used the key
      intro key hkey
      have hown : c.key = some key := hnames.symm.trans hkey
      obtain ⟨hother, hnew, hobject⟩ := hsafe.unused t.thread key (hc.trans hown) fresh
      refine ⟨?_, fun h => ?_⟩
      · rw [show t.after.avatars = t.before.avatars from swap.avatars]
        exact hobject (put key hown)
      · rcases (hmem key).1 h with h | h
        · exact hother h
        · exact hnew h
    · rw [hformer]
      cases hkey : avatarKey userId t.before with
      | none => exact hsafe.former
      | some key => exact List.nodup_cons.2 ⟨(hsafe.named key hkey).2, hsafe.former⟩
    · intro i key hkey hstill
      obtain ⟨hother, hnew, -⟩ := hsafe.unused i key hkey fun y hy => hstill y (mem_stepsOf_snoc.2 (.inl hy))
      refine ⟨fun h => ?_, fun h => ?_, fun hobject => by rwa [show t.after.avatars = t.before.avatars from swap.avatars]⟩
      · -- the row names the key now: the step was one of the key's own call
        have hown : c.key = some key := hnames.symm.trans h
        have hthread : t.thread = i := hkeys _ _ key (hc.trans hown) hkey
        have hstill := hstill (t.before, t.after) (mem_stepsOf_snoc.2 (.inr ⟨hthread, rfl⟩))
        exact hother ((avatarKey_congr hstill.users).symm.trans h)
      · rcases (hmem key).1 h with h | h
        · exact hother h
        · exact hnew h

/-! ## Runs -/

variable {initial : Option String} {w₀ : AvatarWorld} {steps : List (Taken AvatarWorld)}
  {P : Pool AvatarCall Input AvatarWorld (Except Failure AvatarAnswer)}

/-- The key of each thread. -/
def keyOf (P : Pool AvatarCall Input AvatarWorld (Except Failure AvatarAnswer)) (i : Nat) : Option String :=
  P.threads[i]?.bind (·.1.key)

theorem keyOf_eq {i : Nat} {key : String} (h : keyOf P i = some key) : ∃ hi : i < P.threads.length, (P.threads[i]).1.key = some key := by
  obtain ⟨t, ht, hkey⟩ := Option.bind_eq_some_iff.1 h
  obtain ⟨hi, rfl⟩ := List.getElem?_eq_some_iff.1 ht
  exact ⟨hi, hkey⟩

theorem ownKeys (h : (avatarSystem userId initial).Run ⟨w₀, []⟩ steps P) : OwnKeys (keyOf P) := by
  have hpairs := h.pairwise (R := fun c d => ∀ key, d.key = some key → c.key ≠ some key) fun P c hc t ht key hkey =>
    (hc key hkey).2 t ht
  have hlt : ∀ i j key, i < j → keyOf P i = some key → keyOf P j ≠ some key := by
    intro i j key hij hi hj
    obtain ⟨hi, hkey⟩ := keyOf_eq hi
    obtain ⟨hj, hkey'⟩ := keyOf_eq hj
    have := List.pairwise_iff_getElem.1 hpairs i j (by simpa using hi) (by simpa using hj) hij
    rw [List.getElem_map, List.getElem_map] at this
    exact this key hkey' hkey
  intro i j key hi hj
  rcases Nat.lt_trichotomy i j with h | h | h
  · exact absurd hj (hlt i j key h hi)
  · exact h
  · exact absurd hi (hlt j i key h hj)

theorem keyOf_ne_initial (h : (avatarSystem userId initial).Run ⟨w₀, []⟩ steps P) {i : Nat} {key : String}
    (hi : keyOf P i = some key) : initial ≠ some key := by
  obtain ⟨hi, hkey⟩ := keyOf_eq hi
  exact h.arrived (V := fun c => ∀ key, c.key = some key → initial ≠ some key) (fun P c hc key hkey => (hc key hkey).1) _
    (List.getElem_mem hi) key hkey

/-- Every step of the run is a move of its call. -/
theorem move_of_run (h : (avatarSystem userId initial).Run ⟨w₀, []⟩ steps P) {newer : List (Taken AvatarWorld)}
    (hsteps : steps = older ++ t :: newer) :
    ∃ c, keyOf P t.thread = c.key ∧ AvatarMove userId c (stepsOf t.thread older) (t.before, t.after) := by
  have hlt := h.thread_lt t (by simp [hsteps])
  refine ⟨(P.threads[t.thread]).1, by rw [keyOf, List.getElem?_eq_getElem hlt]; rfl, ?_⟩
  exact h.alongCall (List.getElem?_eq_getElem hlt) (along_imp (fun _ _ _ => trivial) _ _ (code_along _)) hsteps

/-- What the run starts from: the user exists, a named object is there, and the history is empty. -/
structure Start (userId : String) (w₀ : AvatarWorld) : Prop where
  user : UserExists userId w₀
  named : ∀ key, avatarKey userId w₀ = some key → w₀.avatars key ≠ none
  former : w₀.former = []
  deleted : w₀.deleted = []

theorem safe_of_run (hstart : Start userId w₀) (h : (avatarSystem userId (avatarKey userId w₀)).Run ⟨w₀, []⟩ steps P)
    {newer : List (Taken AvatarWorld)} {w : AvatarWorld} (hsteps : steps = older ++ newer) (hchain : Chained w₀ older w) :
    Safe userId (keyOf P) older w := by
  refine hchain.trace ⟨hstart.user, fun u hu => absurd hu List.not_mem_nil, fun key hkey => ⟨hstart.named key hkey, ?_⟩, ?_,
    fun u hu => absurd hu List.not_mem_nil, fun i key hkey _ => ⟨keyOf_ne_initial h hkey, ?_, ?_⟩⟩ ?_
  · rw [hstart.former]
    exact List.not_mem_nil
  · rw [hstart.former]
    exact List.nodup_nil
  · rw [hstart.former]
    exact List.not_mem_nil
  · rintro ⟨x, hx, -⟩
    exact absurd hx List.not_mem_nil
  · intro sofar t later heq hsafe
    have hsplit : steps = sofar ++ t :: (later ++ newer) := by rw [hsteps, heq, List.append_assoc, List.cons_append]
    obtain ⟨c, hc, hmove⟩ := move_of_run h hsplit
    exact hsafe.step (ownKeys h) hc hmove.step

/-- The states around a step of the run are safe. -/
theorem safe_around (hstart : Start userId w₀) (h : (avatarSystem userId (avatarKey userId w₀)).Run ⟨w₀, []⟩ steps P)
    {newer : List (Taken AvatarWorld)} (hsteps : steps = older ++ t :: newer) :
    Safe userId (keyOf P) older t.before ∧ Safe userId (keyOf P) (older ++ [t]) t.after := by
  have hchain := h.chained
  rw [hsteps] at hchain
  obtain ⟨hbefore, -⟩ := hchain.at
  exact ⟨safe_of_run hstart h hsteps hbefore,
    safe_of_run hstart h (hsteps.trans (List.append_cons _ _ _)) (hbefore.append ⟨rfl, rfl⟩)⟩

theorem former_mono (h : (avatarSystem userId initial).Run ⟨w₀, []⟩ steps P) (ht : t ∈ steps) : t.before.former ⊆ t.after.former := by
  obtain ⟨older, newer, hsteps⟩ := List.append_of_mem ht
  obtain ⟨c, -, hmove⟩ := move_of_run h hsteps
  exact hmove.step.former_subset

/-! ## Deletions -/

/-- A step that gives up a key is the only one that does. -/
theorem gave_unique (hstart : Start userId w₀) (h : (avatarSystem userId (avatarKey userId w₀)).Run ⟨w₀, []⟩ steps P)
    {u : Taken AvatarWorld} {key : String} (ht : t ∈ steps) (hu : u ∈ steps) (htgave : t.after.former = key :: t.before.former)
    (hugave : u.after.former = key :: u.before.former) : t = u := by
  have hnew : ∀ v ∈ steps, v.after.former = key :: v.before.former → key ∉ v.before.former ∧ key ∈ v.after.former := by
    intro v hv hgave
    obtain ⟨older, newer, hsteps⟩ := List.append_of_mem hv
    have hnodup := (safe_around hstart h hsteps).2.former
    rw [hgave] at hnodup ⊢
    exact ⟨(List.nodup_cons.1 hnodup).1, List.mem_cons_self⟩
  exact h.chained.unique (p := fun w => key ∈ w.former) (fun v hv hmem => former_mono h hv hmem) ht hu (hnew t ht htgave).1
    (hnew t ht htgave).2 (hnew u hu hugave).1 (hnew u hu hugave).2

/-- A deletion: the steps of the call before it gave up the key and deleted nothing. -/
theorem deletes_of_move {c : AvatarCall} {past : AvatarSteps} {s : AvatarWorld × AvatarWorld} (h : AvatarStep userId c past s) :
    s.2.deleted = s.1.deleted ∨ ∃ key, s.2.deleted = key :: s.1.deleted ∧
      (∃ x ∈ past, UserExists userId x.1 → x.2.former = key :: x.1.former) ∧ ∀ x ∈ past, x.2.deleted = x.1.deleted := by
  cases h with
  | rests still _ => exact .inl still.deleted
  | puts _ _ still _ _ _ => exact .inl still.deleted
  | swaps swap _ _ => exact .inl swap.deleted
  | deletes key _ _ deleted _ swapped first => exact .inr ⟨key, deleted, swapped, first⟩

/-- No two deletions are of one key. -/
theorem deleted_nodup (hstart : Start userId w₀) (h : (avatarSystem userId (avatarKey userId w₀)).Run ⟨w₀, []⟩ steps P) :
    P.store.deleted.Nodup ∧ ∀ key ∈ P.store.deleted, ∃ u ∈ steps, u.after.deleted = key :: u.before.deleted := by
  refine h.chained.trace (K := fun older w =>
    w.deleted.Nodup ∧ ∀ key ∈ w.deleted, ∃ u ∈ older, u.after.deleted = key :: u.before.deleted) ?_ ?_
  · show (w₀.deleted).Nodup ∧ _
    rw [hstart.deleted]
    exact ⟨List.nodup_nil, fun key hkey => absurd hkey List.not_mem_nil⟩
  · rintro older t newer hsteps ⟨hnodup, hissued⟩
    obtain ⟨c, -, hmove⟩ := move_of_run h hsteps
    rcases deletes_of_move hmove.step with hsame | ⟨key, hdeleted, hswapped, hfirst⟩
    · have hsame : t.after.deleted = t.before.deleted := hsame
      rw [hsame]
      refine ⟨hnodup, fun key hkey => ?_⟩
      obtain ⟨u, hu, hissue⟩ := hissued key hkey
      exact ⟨u, List.mem_append_left _ hu, hissue⟩
    · have hdeleted : t.after.deleted = key :: t.before.deleted := hdeleted
      rw [hdeleted]
      refine ⟨List.nodup_cons.2 ⟨fun hagain => ?_, hnodup⟩, ?_⟩
      · -- an earlier step `u` deleted the key: its call gave up the key too, so it is the same call
        obtain ⟨u, hu, hissue⟩ := hissued key hagain
        obtain ⟨first, second, hsplit⟩ := List.append_of_mem hu
        have hsteps' : steps = first ++ u :: (second ++ t :: newer) := by
          rw [hsteps, hsplit, List.append_assoc, List.cons_append]
        obtain ⟨c', -, hmove'⟩ := move_of_run h hsteps'
        rcases deletes_of_move hmove'.step with hsame | ⟨key', hdeleted', hswapped', -⟩
        · exact List.cons_ne_self _ _ (hissue.symm.trans hsame)
        obtain rfl : key' = key := by
          have heq : key' :: u.before.deleted = key :: u.before.deleted := hdeleted'.symm.trans hissue
          exact (List.cons.inj heq).1
        obtain ⟨x, hx, hgave⟩ := hswapped
        obtain ⟨v, hv, hthread, rfl⟩ := mem_stepsOf.1 hx
        obtain ⟨x', hx', hgave'⟩ := hswapped'
        obtain ⟨v', hv', hthread', rfl⟩ := mem_stepsOf.1 hx'
        have hsafe := (safe_around hstart h hsteps).1
        have hsafe' := (safe_around hstart h hsteps').1
        have hsame : v = v' := gave_unique hstart h (by rw [hsteps]; exact List.mem_append_left _ hv)
          (by rw [hsteps']; exact List.mem_append_left _ hv') (hgave (hsafe.existed v hv)) (hgave' (hsafe'.existed v' hv'))
        have hown : (u.before, u.after) ∈ stepsOf t.thread older :=
          mem_stepsOf.2 ⟨u, hu, by rw [← hthread', ← hsame, hthread], rfl⟩
        exact List.cons_ne_self _ _ (hissue.symm.trans (hfirst _ hown))
      · intro key' hkey'
        rcases List.mem_cons.1 hkey' with rfl | hkey'
        · exact ⟨t, List.mem_append_right _ (List.mem_singleton_self _), hdeleted⟩
        · obtain ⟨u, hu, hissue⟩ := hissued key' hkey'
          exact ⟨u, List.mem_append_left _ hu, hissue⟩

/-! ## Finished calls -/

/-- A failure is remembered to the end of the run. -/
theorem failed_mono (h : (avatarSystem userId initial).Run ⟨w₀, []⟩ steps P) (ht : t ∈ steps) (hfailed : t.after.failed = true) :
    P.store.failed = true := by
  obtain ⟨older, newer, hsteps⟩ := List.append_of_mem ht
  have hchain := h.chained
  rw [hsteps] at hchain
  refine hchain.at.2.keep (p := fun w => w.failed = true) (fun u hu hf => ?_) hfailed
  obtain ⟨before, after, hsplit⟩ := List.append_of_mem (show u ∈ steps by rw [hsteps]; simp [hu])
  obtain ⟨c, -, hmove⟩ := move_of_run h hsplit
  exact hmove.failed hf

/-- The steps of a finished call. -/
theorem finished_of_run (h : (avatarSystem userId initial).Run ⟨w₀, []⟩ steps P) {i : Nat} (hi : i < P.threads.length)
    (hdone : (P.threads[i]).2.isDone = true) : Finished userId (P.threads[i]).1 (stepsOf i steps) := by
  have hget : P.threads[i]? = some P.threads[i] := List.getElem?_eq_getElem hi
  generalize P.threads[i] = thread at hdone hget
  obtain ⟨c, p⟩ := thread
  cases p with
  | step f k => cases hdone
  | done r => exact (h.path hget).along_end (code_along c)

/-- A key that was given up and has no object: it stays so. -/
theorem gone_stays (hstart : Start userId w₀) (h : (avatarSystem userId (avatarKey userId w₀)).Run ⟨w₀, []⟩ steps P)
    (ht : t ∈ steps) {key : String} (hgone : key ∈ t.before.former ∧ t.before.avatars key = none) :
    key ∈ t.after.former ∧ t.after.avatars key = none := by
  obtain ⟨older, newer, hsteps⟩ := List.append_of_mem ht
  obtain ⟨c, hc, hmove⟩ := move_of_run h hsteps
  have hsafe := (safe_around hstart h hsteps).1
  refine ⟨former_mono h ht hgone.1, ?_⟩
  cases hmove.step with
  | rests _ avatars => exact (congrFun avatars key).trans hgone.2
  | swaps swap _ _ => exact (congrFun swap.avatars key).trans hgone.2
  | puts own object _ owns fresh avatars =>
    -- the call's key is unused, so it is another one
    have hne : key ≠ own := by
      rintro rfl
      exact (hsafe.unused t.thread key (hc.trans owns) fresh).2.1 hgone.1
    rw [show t.after.avatars = _ from avatars, Function.update_of_ne hne]
    exact hgone.2
  | deletes own _ _ _ avatars _ _ =>
    rcases avatars with avatars | avatars
    · exact (congrFun avatars key).trans hgone.2
    · rw [show t.after.avatars = _ from avatars, Function.update_apply]
      split
      · rfl
      · exact hgone.2

/-- A key that the row names, or named before. -/
theorem used_stays (h : (avatarSystem userId initial).Run ⟨w₀, []⟩ steps P) (ht : t ∈ steps) {key : String}
    (hused : avatarKey userId t.before = some key ∨ key ∈ t.before.former) :
    avatarKey userId t.after = some key ∨ key ∈ t.after.former := by
  rcases hused with hnamed | hformer
  · obtain ⟨older, newer, hsteps⟩ := List.append_of_mem ht
    obtain ⟨c, -, hmove⟩ := move_of_run h hsteps
    cases hmove.step with
    | rests still _ => exact .inl ((avatarKey_congr still.users).trans hnamed)
    | puts _ _ still _ _ _ => exact .inl ((avatarKey_congr still.users).trans hnamed)
    | deletes _ users _ _ _ _ _ => exact .inl ((avatarKey_congr users).trans hnamed)
    | swaps swap _ _ =>
      refine .inr ?_
      rw [show t.after.former = _ from swap.former]
      exact List.mem_append_left _ (Option.mem_toList.2 hnamed)
  · exact .inr (former_mono h ht hformer)

/-- When all calls have finished without a failure, a key that was given up has no object. -/
theorem former_gone (hstart : Start userId w₀) (h : (avatarSystem userId (avatarKey userId w₀)).Run ⟨w₀, []⟩ steps P)
    (hfailed : P.store.failed = false) (hdone : ∀ t ∈ P.threads, t.2.isDone = true) {key : String}
    (hformer : key ∈ P.store.former) : P.store.avatars key = none := by
  have hnofail : ∀ t ∈ steps, t.after.failed ≠ true := fun t ht hf => by
    rw [failed_mono h ht hf] at hfailed
    cases hfailed
  have hfirst : key ∉ w₀.former := by
    rw [hstart.former]
    exact List.not_mem_nil
  -- the step that gave the key up, and the call that took it
  obtain ⟨older, t, newer, hsteps, hnew, hold, -⟩ := h.chained.since (p := fun w => key ∈ w.former) hfirst hformer
  have hmem : t ∈ steps := by rw [hsteps]; simp
  have hlt := h.thread_lt t hmem
  have hown : (t.before, t.after) ∈ stepsOf t.thread steps := mem_stepsOf.2 ⟨t, hmem, rfl, rfl⟩
  have hchanged : t.after.former ≠ t.before.former := fun heq => hnew (heq ▸ hold)
  cases finished_of_run h hlt (hdone _ (List.getElem_mem hlt)) with
  | failed x hx hf =>
    obtain ⟨u, hu, -, rfl⟩ := mem_stepsOf.1 hx
    exact absurd hf (hnofail u hu)
  | rejected _ still => exact absurd (still _ hown).former hchanged
  | swapped before after s hsplit others _ deleted =>
    have hs : (t.before, t.after) = s := by
      rw [hsplit, List.mem_append, List.mem_cons] at hown
      rcases hown with hin | heq | hin
      · exact absurd (others _ (List.mem_append_left _ hin)) hchanged
      · exact heq
      · exact absurd (others _ (List.mem_append_right _ hin)) hchanged
    obtain ⟨older', u, newer', hsteps', hthread, hu, -, hafter⟩ := stepsOf_split hsplit
    have hsame : u.before = t.before ∧ u.after = t.after := by
      have := hu.trans hs.symm
      exact ⟨congrArg Prod.fst this, congrArg Prod.snd this⟩
    have hsafe := (safe_around hstart h hsteps').1
    -- the swap moved the row away from the key
    have hnamed : avatarKey userId s.1 = some key := by
      obtain ⟨c, -, hmove⟩ := move_of_run h hsteps
      have hmove := hmove.step
      rw [hs] at hmove
      have hin : key ∈ s.2.former := by rw [← hs]; exact hold
      have hout : key ∉ s.1.former := by rw [← hs]; exact hnew
      cases hmove with
      | rests still _ => exact absurd (still.former ▸ hin) hout
      | puts _ _ still _ _ _ => exact absurd (still.former ▸ hin) hout
      | deletes _ _ former _ _ _ _ => exact absurd (former ▸ hin) hout
      | swaps swap _ _ =>
        rw [swap.former] at hin
        rcases List.mem_append.1 hin with hin | hin
        · exact Option.mem_toList.1 hin
        · exact absurd hin hout
    have huser : UserExists userId s.1 := by
      rw [← hu]
      exact hsafe.user
    obtain ⟨d, hd, hgone⟩ := deleted huser key hnamed
    rw [← hafter] at hd
    obtain ⟨v, hv, -, rfl⟩ := mem_stepsOf.1 hd
    -- from the deletion on, the key has no object
    have hchain := h.chained
    rw [hsteps'] at hchain
    have hlater : ∀ x ∈ newer', x ∈ steps := fun x hx => by rw [hsteps']; simp [hx]
    have hkept := hchain.at.2.all (p := fun w => key ∈ w.former) (fun x hx => fun hmem => former_mono h (hlater x hx) hmem)
      (by rw [hsame.2]; exact hold)
    obtain ⟨first, second, hsecond⟩ := List.append_of_mem hv
    have htail := hchain.at.2
    rw [hsecond] at htail
    have hlast := htail.at.2.keep (p := fun w => key ∈ w.former ∧ w.avatars key = none)
      (fun x hx => fun hgone => gone_stays hstart h (hlater x (by rw [hsecond]; simp [hx])) hgone) ⟨(hkept v hv).2, hgone⟩
    exact hlast.2

/-! ## The life of an avatar -/

/-- **Avatars never dangle and never leak.** Whatever uploads and removals for an existing user overlap, the
key that the row names has its object in every reachable state, no object is deleted twice, and when all the
calls have finished without a storage failure, the objects they wrote are gone but for the one that the row
names. -/
theorem avatars_owned (userId : String) (w₀ : AvatarWorld) (hstart : Start userId w₀)
    (P : Pool AvatarCall Input AvatarWorld (Except Failure AvatarAnswer))
    (h : (avatarSystem userId (avatarKey userId w₀)).Reach ⟨w₀, []⟩ P) :
    (∀ key, avatarKey userId P.store = some key → P.store.avatars key ≠ none) ∧
    P.store.deleted.Nodup ∧
    (P.store.failed = false → (∀ t ∈ P.threads, t.2.isDone = true) → ∀ t ∈ P.threads, ∀ key, t.1.key = some key →
      (P.store.avatars key ≠ none ↔ avatarKey userId P.store = some key)) := by
  obtain ⟨steps, hrun⟩ := h.run
  have hsafe := safe_of_run hstart hrun (List.append_nil steps).symm hrun.chained
  refine ⟨fun key hkey => (hsafe.named key hkey).1, (deleted_nodup hstart hrun).1, fun hfailed hdone t ht key hkey =>
    ⟨fun hobject => ?_, fun hnamed => (hsafe.named key hnamed).1⟩⟩
  obtain ⟨i, hi, rfl⟩ := List.mem_iff_getElem.1 ht
  -- the call swapped the row to its key
  cases finished_of_run hrun hi (hdone _ ht) with
  | failed x hx hf =>
    obtain ⟨u, hu, -, rfl⟩ := mem_stepsOf.1 hx
    rw [failed_mono hrun hu hf] at hfailed
    cases hfailed
  | rejected hnone _ =>
    rw [hkey] at hnone
    cases hnone
  | swapped before after s hsplit _ names _ =>
    obtain ⟨older, u, newer, hsteps, -, rfl, -, -⟩ := stepsOf_split hsplit
    have hnamed : avatarKey userId u.after = some key := (names (safe_around hstart hrun hsteps).1.user).trans hkey
    have hchain := hrun.chained
    rw [hsteps] at hchain
    have hused := hchain.at.2.keep (p := fun w => avatarKey userId w = some key ∨ key ∈ w.former)
      (fun x hx => used_stays hrun (by rw [hsteps]; simp [hx])) (.inl hnamed)
    rcases hused with hlast | hformer
    · exact hlast
    · exact absurd (former_gone hstart hrun hfailed hdone hformer) hobject

end

/-! ## Two uploads on a small deployment -/

/-- A user without an avatar. -/
def avatarWorld : AvatarWorld where
  nowMs := 0
  users := (∅ : Table AvatarRow.id).insert
    { id := "usr_a", avatarKey := none, avatarContentType := none, avatarUpdatedAt := none, updatedAt := 0 }
  avatars := fun _ => none
  former := []
  deleted := []
  failed := false

theorem start_avatarWorld : Start "usr_a" avatarWorld :=
  ⟨rfl, nofun, rfl, rfl⟩

def gif : List UInt8 := [0x47, 0x49, 0x46, 0x38]

/-- Both uploads write their objects before either swaps the row. -/
def twoUploads : List (System.Move AvatarCall Input) :=
  [.arrive (.store gif "a"), .arrive (.store gif "b"), .run 0 Deployment.ok, .run 1 Deployment.ok, .run 0 Deployment.ok,
    .run 1 Deployment.ok, .run 0 Deployment.ok, .run 1 Deployment.ok, .run 1 Deployment.ok]

theorem allows_twoUploads : (avatarSystem "usr_a" none).Allows ⟨avatarWorld, []⟩ twoUploads := by
  refine ⟨fun key _ => ⟨nofun, fun t ht => absurd ht List.not_mem_nil⟩, fun key hkey => ⟨nofun, fun t ht hsame => ?_⟩,
    trivial, trivial, trivial, trivial, trivial, trivial, trivial, trivial⟩
  obtain rfl := List.mem_singleton.1 ht
  exact absurd (hsame.trans hkey.symm) (by decide)

theorem avatars_owned_twoUploads :
    let P := (avatarSystem "usr_a" none).moves ⟨avatarWorld, []⟩ twoUploads
    avatarKey "usr_a" P.store = some "b.gif" ∧ P.store.avatars "b.gif" ≠ none ∧ P.store.avatars "a.gif" = none := by
  intro P
  have hnamed : avatarKey "usr_a" P.store = some "b.gif" := by decide +kernel
  have hkeys : P.threads.map (·.1.key) = [some "a.gif", some "b.gif"] := by decide +kernel
  have howned := avatars_owned "usr_a" avatarWorld start_avatarWorld P (System.reach_moves _ allows_twoUploads)
  refine ⟨hnamed, howned.1 _ hnamed, ?_⟩
  have ha : some "a.gif" ∈ P.threads.map (·.1.key) := by rw [hkeys]; exact List.mem_cons_self
  obtain ⟨t, ht, hkey⟩ := List.mem_map.1 ha
  by_contra hobject
  have hother := (howned.2.2 (by decide +kernel) (by decide +kernel) t ht "a.gif" hkey).1 hobject
  rw [hnamed] at hother
  exact absurd hother (by decide)

end Keyforge.Media
