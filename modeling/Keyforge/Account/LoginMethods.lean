/-
The last usable login method of a user, under any interleaving of protected deletes. Login looks at the
user's role: an administrator's password is good only if it is eligible. The guards of the deletes do not
look: they count any other password. The two agree unless an administrator holds a password that is not
eligible, and then the deletes can leave that one as the last.
-/
import Keyforge.Auth.LoginMethods
import Keyforge.Calm
import Keyforge.Deployment
import Keyforge.Lib.Run
import Keyforge.Paths

namespace Keyforge.Account

open Lib Db Auth
open OAuth (utf16Length)

/-! ## What verification accepts -/

/-- The passwords that login compares with, by the user's current role. -/
def usablePasswords (userId : String) (db : Database) : List PasswordCredentialRow :=
  (((db.passwordCredentials.select (·.userId = userId)).insertionSort fun a b => a.createdAt ≤ b.createdAt).take
    PASSWORD_POLICY.maximumCredentials).filter fun r => !isAdmin userId db || r.adminEligible

/-- The user has a passkey, or a password that login compares with. -/
def Usable (userId : String) (db : Database) : Prop :=
  (∃ c ∈ db.webauthnCredentials, c.userId = userId) ∨ usablePasswords userId db ≠ []

instance (userId : String) (db : Database) : Decidable (Usable userId db) :=
  inferInstanceAs (Decidable ((∃ c ∈ db.webauthnCredentials.rows, c.userId = userId) ∨ usablePasswords userId db ≠ []))

/-- A password that matches a usable row is what verification accepts, and nothing else. -/
theorem verifyUserPassword_calm {env : Env} (hyolo : env.yolo = false) {userId password : String} {w w' : World} {b : Bool}
    (h : RunsBy Calm (verifyUserPassword env userId password).run w (.ok b) w') :
    b = true ↔ utf16Length password ≤ PASSWORD_POLICY.maximum ∧
      ∃ r ∈ usablePasswords userId w.db, env.verifyPassword password r.passwordHash = true := by
  have hrun : wpE calm (verifyUserPassword env userId password)
      (fun b _ => b = (verifyRows env password (usablePasswords userId w.db)).isSome) (fun _ _ => True) w := by
    unfold verifyUserPassword isUserAdmin passwordRows
    simp only [hyolo, Bool.false_eq_true, if_false, pure_bind]
    rw [wpE_bind]
    refine wpE_select_calm (P := (· = w.db)) rfl fun w₁ h₁ => ?_
    rw [wpE_bind]
    refine wpE_select_calm (P := (· = w.db)) h₁ fun w₂ h₂ => ?_
    rw [wpE_pure, h₁, h₂]
    rfl
  rw [show b = _ from post_of_calm h hrun]
  unfold verifyRows
  split
  · rename_i hlength
    simp [List.find?_isSome, hlength]
  · rename_i hlength
    simp [hlength]

theorem exists_mem_take {α : Type} {n : Nat} (hn : 0 < n) {l : List α} : (∃ a, a ∈ l.take n) ↔ ∃ a, a ∈ l := by
  cases l with
  | nil => simp
  | cons a l =>
    obtain ⟨m, rfl⟩ := Nat.exists_eq_succ_of_ne_zero (Nat.ne_of_gt hn)
    simp

/-- A usable password is one of the user's, and eligible if the user is an administrator. -/
theorem mem_of_usable {userId : String} {db : Database} {r : PasswordCredentialRow} (h : r ∈ usablePasswords userId db) :
    r ∈ db.passwordCredentials ∧ r.userId = userId ∧ (isAdmin userId db = true → r.adminEligible = true) := by
  obtain ⟨htake, hrole⟩ := List.mem_filter.1 h
  have hmem := (List.mem_insertionSort _).1 (List.mem_of_mem_take htake)
  obtain ⟨hr, hown⟩ := Table.mem_select.1 hmem
  refine ⟨hr, of_decide_eq_true hown, fun hadmin => ?_⟩
  simpa [hadmin] using hrole

/-- Where the role asks nothing of the user's passwords, any of them makes login possible. -/
theorem usable_of_password {userId : String} {db : Database}
    (hrole : isAdmin userId db = true → ∀ r ∈ db.passwordCredentials, r.userId = userId → r.adminEligible = true)
    (h : ∃ r ∈ db.passwordCredentials, r.userId = userId) : usablePasswords userId db ≠ [] := by
  obtain ⟨r, hr, hown⟩ := h
  have hsorted : ∃ a, a ∈ (db.passwordCredentials.select (·.userId = userId)).insertionSort fun a b => a.createdAt ≤ b.createdAt :=
    ⟨r, (List.mem_insertionSort _).2 (Table.mem_select.2 ⟨hr, decide_eq_true hown⟩)⟩
  obtain ⟨a, ha⟩ := (exists_mem_take (n := PASSWORD_POLICY.maximumCredentials) (by decide)).2 hsorted
  refine List.ne_nil_of_mem (a := a) (List.mem_filter.2 ⟨ha, ?_⟩)
  obtain ⟨hmem, hown'⟩ := Table.mem_select.1 ((List.mem_insertionSort _).1 (List.mem_of_mem_take ha))
  cases hadmin : isAdmin userId db with
  | false => rfl
  | true => simpa using hrole hadmin a hmem (of_decide_eq_true hown')

/-! ## The calls -/

inductive DeleteCall where
  | password (credentialId userId : String)
  | passkey (credentialId userId : String)
  deriving DecidableEq, Repr

def DeleteCall.code : DeleteCall → App ProtectedDeleteResult
  | password credentialId userId => deletePasswordCredentialPreservingLoginMethod credentialId userId
  | passkey credentialId userId => deleteCredentialPreservingLoginMethod credentialId userId

/-- The statement of the call that writes. -/
def DeleteCall.statement : DeleteCall → Database → Bool × Database
  | password credentialId userId => deletePassword credentialId userId
  | passkey credentialId userId => deletePasskey credentialId userId

/-- What the call reads if no row went. -/
def DeleteCall.present : DeleteCall → Database → Bool
  | password credentialId userId => fun db => db.passwordCredentials.has fun r => r.id = credentialId && r.userId = userId
  | passkey credentialId userId => fun db => db.webauthnCredentials.has fun c => c.id = credentialId && c.userId = userId

theorem DeleteCall.code_eq (c : DeleteCall) : c.code = protectedDelete c.statement c.present := by
  cases c <;> rfl

theorem DeleteCall.refused {c : DeleteCall} {db : Database} (h : (c.statement db).1 = false) : (c.statement db).2 = db := by
  cases c with
  | password => exact deletePassword_refused h
  | passkey => exact deletePasskey_refused h

/-- A call that answers anything but `deleted` left the database as it was at each of its steps. -/
theorem deleteCall_ends (c : DeleteCall) :
    endsE c.code (fun result tr => result ≠ .deleted → ∀ t ∈ tr, t.2.db = t.1.db) fun _ _ => True := by
  rw [c.code_eq]
  unfold protectedDelete
  rw [endsE_bind]
  refine endsE_d1Logged (fun w w' dt hw' => ?_) fun _ => trivial
  cases hgone : (c.statement w.db).1 with
  | true => simp
  | false =>
    have hsame : w'.db = w.db := by
      rw [hw']
      exact c.refused hgone
    simp only [Bool.false_eq_true, if_false]
    rw [endsE_bind]
    refine endsE_select (fun w₁ dt₁ => ?_) fun _ => trivial
    simp [hsame]

/-- Any calls of the two functions, for any credentials of any users. -/
def deleteSystem : System DeleteCall Input World (Except Failure ProtectedDeleteResult) where
  code := fun c => c.code.run
  allow := fun _ _ _ => True
  arrive := fun _ _ => True

/-! ## Where the guards see what login sees -/

/-- The user has a login method, and an administrator has only eligible passwords. -/
structure HasMethod (userId : String) (db : Database) : Prop where
  eligible : isAdmin userId db = true → ∀ r ∈ db.passwordCredentials, r.userId = userId → r.adminEligible = true
  method : (∃ c ∈ db.webauthnCredentials, c.userId = userId) ∨ ∃ r ∈ db.passwordCredentials, r.userId = userId

theorem HasMethod.usable {userId : String} {db : Database} (h : HasMethod userId db) : Usable userId db := by
  rcases h.method with hpasskey | hpassword
  · exact Or.inl hpasskey
  · exact Or.inr (usable_of_password h.eligible hpassword)

theorem HasMethod.of_usable {userId : String} {db : Database} (h : Usable userId db)
    (hrole : isAdmin userId db = true → ∀ r ∈ db.passwordCredentials, r.userId = userId → r.adminEligible = true) :
    HasMethod userId db := by
  refine ⟨hrole, h.imp_right fun hpassword => ?_⟩
  obtain ⟨r, hr⟩ := List.exists_mem_of_ne_nil _ hpassword
  exact ⟨r, (mem_of_usable hr).1, (mem_of_usable hr).2.1⟩

/-- A delete, of whatever credential of whatever user, leaves the user a method. -/
theorem HasMethod.statement (c : DeleteCall) {userId : String} {db : Database} (h : HasMethod userId db) :
    HasMethod userId (c.statement db).2 := by
  cases c with
  | password credentialId caller =>
    refine ⟨fun hadmin r hr => h.eligible hadmin r (mem_deletePassword.1 hr).1, ?_⟩
    rcases h.method with hpasskey | ⟨r, hr, hown⟩
    · exact Or.inl hpasskey
    · by_cases hgone : r ∈ (deletePassword credentialId caller db).2.passwordCredentials
      · exact Or.inr ⟨r, hgone, hown⟩
      · -- the row went, so the guard saw what is left
        rw [mem_deletePassword, not_and_not_right] at hgone
        obtain ⟨-, hcaller, hother⟩ := hgone hr
        rcases hother with ⟨r', hr', hown', hid⟩ | ⟨c, hc, hown'⟩
        · exact Or.inr ⟨r', mem_deletePassword.2 ⟨hr', fun hgone => hid hgone.1⟩, hown'.trans (hcaller.symm.trans hown)⟩
        · exact Or.inl ⟨c, hc, hown'.trans (hcaller.symm.trans hown)⟩
  | passkey credentialId caller =>
    refine ⟨h.eligible, ?_⟩
    rcases h.method with ⟨c, hc, hown⟩ | hpassword
    · by_cases hgone : c ∈ (deletePasskey credentialId caller db).2.webauthnCredentials
      · exact Or.inl ⟨c, hgone, hown⟩
      · rw [mem_deletePasskey, not_and_not_right] at hgone
        obtain ⟨-, hcaller, hother⟩ := hgone hc
        rcases hother with ⟨r, hr, hown'⟩ | ⟨c', hc', hown', hid⟩
        · exact Or.inr ⟨r, hr, hown'.trans (hcaller.symm.trans hown)⟩
        · exact Or.inl ⟨c', mem_deletePasskey.2 ⟨hc', fun hgone => hid hgone.1⟩, hown'.trans (hcaller.symm.trans hown)⟩
    · exact Or.inr hpassword

/-- The protocol whose every state leaves the user a method. -/
def methodProtocol (userId : String) : Protocol Input World :=
  .sharing (fun w => HasMethod userId w.db) fun _ _ _ => True

theorem method_clocked (userId : String) : Clocked (methodProtocol userId) where
  ok := ⟨fun _ => trivial, fun _ _ => trivial⟩
  tickInv := fun _ h => h
  tickRely := fun _ _ => trivial
  tickGuar := fun _ _ => trivial
  tickAllow := fun _ _ => trivial
  guarTick := fun _ _ => trivial

theorem deleteCall_keeps (userId : String) (c : DeleteCall) : Keeps (methodProtocol userId) c.code := by
  have hc := method_clocked userId
  rw [c.code_eq]
  refine .bind (.d1 hc fun w w' e hi hw' _ => ⟨?_, trivial⟩) fun gone => ?_
  · rw [hw']
    exact HasMethod.statement c hi
  · exact .ite (.pure _) (.bind (.select hc _) fun _ => .pure _)

/-! ## Where they do not -/

/-- The deletes one after the other, each to the end of its write. -/
theorem reach_statements : ∀ (cs : List DeleteCall)
    (P : Pool DeleteCall Input World (Except Failure ProtectedDeleteResult)),
    ∃ P', deleteSystem.Reach P P' ∧ P'.store.db = cs.foldl (fun db c => (c.statement db).2) P.store.db
  | [], P => ⟨P, .refl, rfl⟩
  | c :: cs, P => by
    let P₁ := deleteSystem.move P (.arrive c)
    let P₂ := deleteSystem.move P₁ (.run P.threads.length Deployment.ok)
    have hreach : deleteSystem.Reach P P₂ := (System.Reach.refl.next (.arrive trivial)).trans (System.reach_run trivial)
    have hdb : P₂.store.db = (c.statement P.store.db).2 := by
      have hthread : P₁.threads[P.threads.length]? = some (c, c.code.run) := by
        show (P.threads ++ [(c, c.code.run)])[P.threads.length]? = _
        simp
      show (deleteSystem.move P₁ (.run P.threads.length Deployment.ok)).store.db = _
      unfold System.move
      dsimp only
      rw [hthread, c.code_eq]
      rfl
    obtain ⟨P', hP', hfold⟩ := reach_statements cs P₂
    exact ⟨P', hreach.trans hP', by rw [hfold, hdb]; rfl⟩

/-- While another password of the user stays, the deletes of a list of passwords remove them all. -/
theorem delete_passwords {userId : String} {kept : PasswordCredentialRow} (hown : kept.userId = userId) :
    ∀ (ids : List String) {db : Database}, kept ∈ db.passwordCredentials → kept.id ∉ ids →
      let db' := (ids.map fun id => DeleteCall.password id userId).foldl (fun db c => (c.statement db).2) db
      (∃ passwordCredentials, db' = { db with passwordCredentials }) ∧ kept ∈ db'.passwordCredentials ∧
        ∀ r ∈ db'.passwordCredentials, r ∈ db.passwordCredentials ∧ (r.userId = userId → r.id ∉ ids)
  | [], db, hkept, _ => ⟨⟨_, rfl⟩, hkept, fun r hr => ⟨hr, fun _ => List.not_mem_nil⟩⟩
  | id :: ids, db, hkept, hnot => by
    rw [List.mem_cons, not_or] at hnot
    obtain ⟨hne, hnot⟩ := hnot
    have hstays : kept ∈ (deletePassword id userId db).2.passwordCredentials :=
      mem_deletePassword.2 ⟨hkept, fun hgone => hne hgone.1⟩
    obtain ⟨⟨_, hframe⟩, hkept', hrest⟩ := delete_passwords hown ids hstays hnot
    refine ⟨⟨_, hframe⟩, hkept', fun r hr => ?_⟩
    obtain ⟨hr₁, hout⟩ := hrest r hr
    obtain ⟨hr₀, hnotgone⟩ := mem_deletePassword.1 hr₁
    refine ⟨hr₀, fun hr' hin => ?_⟩
    rcases List.mem_cons.1 hin with rfl | hin
    · exact hnotgone ⟨rfl, hr', Or.inl ⟨kept, hkept, hown, hne⟩⟩
    · exact hout hr' hin

/-- While a password of the user stays, the deletes of a list of passkeys remove them all. -/
theorem delete_passkeys {userId : String} : ∀ (ids : List String) {db : Database},
    (∃ r ∈ db.passwordCredentials, r.userId = userId) →
      let db' := (ids.map fun id => DeleteCall.passkey id userId).foldl (fun db c => (c.statement db).2) db
      (∃ webauthnCredentials, db' = { db with webauthnCredentials }) ∧
        ∀ c ∈ db'.webauthnCredentials, c ∈ db.webauthnCredentials ∧ (c.userId = userId → c.id ∉ ids)
  | [], db, _ => ⟨⟨_, rfl⟩, fun c hc => ⟨hc, fun _ => List.not_mem_nil⟩⟩
  | id :: ids, db, hpassword => by
    obtain ⟨⟨_, hframe⟩, hrest⟩ := @delete_passkeys userId ids (deletePasskey id userId db).2 hpassword
    refine ⟨⟨_, hframe⟩, fun c hc => ?_⟩
    obtain ⟨hc₁, hout⟩ := hrest c hc
    obtain ⟨hc₀, hnotgone⟩ := mem_deletePasskey.1 hc₁
    refine ⟨hc₀, fun hc' hin => ?_⟩
    rcases List.mem_cons.1 hin with rfl | hin
    · exact hnotgone ⟨rfl, hc', Or.inl hpassword⟩
    · exact hout hc' hin

/-- An administrator with a password that is not eligible can be left with that one alone. -/
theorem reach_unusable {userId : String} {w₀ : World} (hadmin : isAdmin userId w₀.db = true) {kept : PasswordCredentialRow}
    (hkept : kept ∈ w₀.db.passwordCredentials) (hown : kept.userId = userId) (hineligible : kept.adminEligible = false) :
    ∃ P, deleteSystem.Reach ⟨w₀, []⟩ P ∧ ¬Usable userId P.store.db := by
  let eligible := (w₀.db.passwordCredentials.select fun r => r.userId = userId && r.adminEligible).map (·.id)
  let passkeys := (w₀.db.webauthnCredentials.select (·.userId = userId)).map (·.id)
  have hnot : kept.id ∉ eligible := by
    intro hin
    obtain ⟨r, hr, hid⟩ := List.mem_map.1 hin
    obtain ⟨hr, hp⟩ := Table.mem_select.1 hr
    rw [Table.key_inj hr hkept hid, hineligible] at hp
    simp at hp
  obtain ⟨⟨_, hframe⟩, hkept', hpasswords⟩ := delete_passwords hown eligible hkept hnot
  obtain ⟨P₁, hreach₁, hdb₁⟩ := reach_statements (eligible.map fun id => DeleteCall.password id userId) ⟨w₀, []⟩
  rw [← hdb₁] at hframe hkept' hpasswords
  obtain ⟨⟨_, hframe'⟩, hpasskeys⟩ := @delete_passkeys userId passkeys P₁.store.db ⟨kept, hkept', hown⟩
  obtain ⟨P₂, hreach₂, hdb₂⟩ := reach_statements (passkeys.map fun id => DeleteCall.passkey id userId) P₁
  rw [← hdb₂] at hframe' hpasskeys
  refine ⟨P₂, hreach₁.trans hreach₂, ?_⟩
  rintro (⟨c, hc, hcown⟩ | hpassword)
  · obtain ⟨hc₁, hout⟩ := hpasskeys c hc
    rw [hframe] at hc₁
    exact hout hcown (List.mem_map.2 ⟨c, Table.mem_select.2 ⟨hc₁, decide_eq_true hcown⟩, rfl⟩)
  · obtain ⟨r, hr⟩ := List.exists_mem_of_ne_nil _ hpassword
    obtain ⟨hr₂, hrown, hrole⟩ := mem_of_usable hr
    have hstill : isAdmin userId P₂.store.db = true := by
      rw [hframe', hframe]
      exact hadmin
    rw [hframe'] at hr₂
    obtain ⟨hr₀, hout⟩ := hpasswords r hr₂
    refine hout hrown (List.mem_map.2 ⟨r, Table.mem_select.2 ⟨hr₀, ?_⟩, rfl⟩)
    rw [hrole hstill, Bool.and_true]
    exact decide_eq_true hrown

/-! ## Protected deletes -/

/-- Whatever calls are made from `w₀` on: a user with a usable method keeps one in every state, and a call
that answers anything but `deleted` changes nothing. -/
structure PreservesLoginMethod (userId : String) (w₀ : World) : Prop where
  kept : Usable userId w₀.db → ∀ P, deleteSystem.Reach ⟨w₀, []⟩ P → Usable userId P.store.db
  unchanged : ∀ steps P, deleteSystem.Run ⟨w₀, []⟩ steps P → ∀ i c result, P.finished i = some (c, .ok result) →
    result ≠ .deleted → ∀ t ∈ stepsOf i steps, t.2.db = t.1.db

/-- The deletes preserve a usable login method unless the user is an administrator, has one, and has a
password that is not eligible. -/
theorem preservesLoginMethod_iff (userId : String) (w₀ : World) : PreservesLoginMethod userId w₀ ↔
    ¬(isAdmin userId w₀.db = true ∧ Usable userId w₀.db ∧
      ∃ r ∈ w₀.db.passwordCredentials, r.userId = userId ∧ r.adminEligible = false) := by
  constructor
  · rintro h ⟨hadmin, husable, kept, hkept, hown, hineligible⟩
    obtain ⟨P, hreach, hnot⟩ := reach_unusable hadmin hkept hown hineligible
    exact hnot (h.kept husable P hreach)
  · intro h
    refine ⟨fun husable P hreach => ?_, fun steps P hrun i c result hi hne => ?_⟩
    · have hmethod : HasMethod userId w₀.db := by
        apply HasMethod.of_usable husable
        intro hadmin r hr hown
        by_contra hineligible
        exact h ⟨hadmin, husable, r, hr, hown, Bool.eq_false_iff.2 hineligible⟩
      have hinv : HasMethod userId P.store.db := by
        refine System.reach_inv (I := fun w => HasMethod userId w.db) (fun c w hi => ?_) hmethod hreach
        exact wp_of_wpE (deleteCall_keeps userId c w hi)
      exact hinv.usable
    · exact (hrun.finished hi).post (deleteCall_ends c) hne

/-- The deployment with its user an administrator who holds an eligible password and one that is not. -/
def twoPasswords : World :=
  { Deployment.world with
    db := { Deployment.database with
      groups := Deployment.database.groups.insert
        { id := "grp_admins", name := "admins", description := none, isPublic := false, priority := 0 }
      userGroups := Deployment.database.userGroups.insert { userId := "usr_a", groupId := "grp_admins", createdAt := 0 }
      passwordCredentials := ((∅ : Table PasswordCredentialRow.id).insert Deployment.passwordRow).insert
        { Deployment.passwordRow with id := "pwd_b", adminEligible := false } } }

/-- The administrator deletes the eligible password and can no longer log in. -/
theorem last_usable_password_deleted :
    Usable "usr_a" twoPasswords.db ∧
      (let P := deleteSystem.moves ⟨twoPasswords, []⟩ [.arrive (.password "pwd_a" "usr_a"), .run 0 Deployment.ok]
       P.finished 0 = some (.password "pwd_a" "usr_a", .ok .deleted) ∧ ¬Usable "usr_a" P.store.db) ∧
      ¬PreservesLoginMethod "usr_a" twoPasswords := by
  have hbefore : Usable "usr_a" twoPasswords.db := by decide +kernel
  have hafter : ¬Usable "usr_a"
      (deleteSystem.moves ⟨twoPasswords, []⟩ [.arrive (.password "pwd_a" "usr_a"), .run 0 Deployment.ok]).store.db := by
    decide +kernel
  refine ⟨hbefore, ⟨by decide +kernel, hafter⟩, fun h => hafter (h.kept hbefore _ ?_)⟩
  exact System.reach_moves _ ⟨trivial, trivial, trivial⟩

end Keyforge.Account
