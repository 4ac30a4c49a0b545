/-
Password credentials (`auth/password.ts`): the length policy, verification at login, and the
functions that replace or add a credential. Random ids and salts are arguments.
-/
import Keyforge.Auth.Session
import Keyforge.Db.Queries
import Mathlib.Data.List.Sort

namespace Keyforge.Auth

open Lib Db Tokens
open OAuth (utf16Length)

variable {env : Env}

/-! ## Policy -/

namespace PASSWORD_POLICY

def standardMinimum : Nat := 6
def administratorMinimum : Nat := 12
def maximum : Nat := 128
def maximumCredentials : Nat := 5

end PASSWORD_POLICY

def minimumPasswordLength (administrator : Bool) : Nat :=
  if administrator then PASSWORD_POLICY.administratorMinimum else PASSWORD_POLICY.standardMinimum

def passwordMeetsPolicy (password : String) (administrator : Bool) : Bool :=
  minimumPasswordLength administrator ≤ utf16Length password && utf16Length password ≤ PASSWORD_POLICY.maximum

/-- YOLO mode drops the floor and keeps the ceiling. -/
def passwordAcceptable (env : Env) (password : String) (administrator : Bool) : Bool :=
  if env.yolo then utf16Length password ≤ PASSWORD_POLICY.maximum else passwordMeetsPolicy password administrator

def adminEligible (password : String) : Bool :=
  PASSWORD_POLICY.administratorMinimum ≤ utf16Length password

/-- Whether the user is in the group named `admins`. -/
def isAdmin (userId : String) (db : Database) : Bool :=
  db.userGroups.has fun m => m.userId = userId && (db.groups.get? m.groupId).any (·.name = "admins")

def isUserAdmin (userId : String) : App Bool :=
  select (isAdmin userId)

/-! ## Verification -/

/-- The rows login considers: the user's oldest credentials. -/
def passwordRows (userId : String) : App (List PasswordCredentialRow) :=
  select fun db => ((db.passwordCredentials.select (·.userId = userId)).insertionSort
    fun a b => a.createdAt ≤ b.createdAt).take PASSWORD_POLICY.maximumCredentials

/-- The row the password matches. The source also hashes a dummy when there is no row. -/
def verifyRows (env : Env) (password : String) (rows : List PasswordCredentialRow) : Option PasswordCredentialRow :=
  if utf16Length password ≤ PASSWORD_POLICY.maximum then rows.find? fun r => env.verifyPassword password r.passwordHash
  else none

def yoloIdentifierMatchesPassword (env : Env) (identifier : Option String) (password : String) : Bool :=
  identifier.any fun identifier => env.trimLowerCase identifier = env.trimLowerCase password

/-- What the history records of a verification's first read: the version the user has then. -/
def verifyEvents (sessionId userId : String) (db : Database) : List Event :=
  (db.users.get? userId).toList.map fun u => .verifying sessionId userId u.securityVersion

/-- Verify any eligible login password and update the matched method. The login is to create the
session `sessionId`. -/
def verifyLoginPassword (env : Env) (sessionId : String) (userId : Option String) (password : String)
    (identifier : Option String) : App Bool := do
  match userId with
  | none => pure false
  | some userId =>
    if env.yolo && yoloIdentifierMatchesPassword env identifier password then pure true
    else
      let administrator ← d1Logged (verifyEvents sessionId userId) fun db => (isAdmin userId db, db)
      let rows ← passwordRows userId
      match verifyRows env password (rows.filter fun r => !administrator || r.adminEligible) with
      | none => pure false
      | some matched =>
        let now ← clock
        d1 fun db => ((), { db with
          passwordCredentials := db.passwordCredentials.update (fun r => r.id = matched.id ∧ r.userId = userId)
            (fun r => { r with lastUsedAt := some now }) fun _ => rfl })
        pure true

/-- True when the password repeats one of the account's own login names. -/
def yoloLoginNameMatches (env : Env) (userId password : String) : App Bool := do
  match ← getUserById userId with
  | none => pure false
  | some user => pure (yoloIdentifierMatchesPassword env (some user.email) password ||
      yoloIdentifierMatchesPassword env (some user.loginAlias) password)

def verifyUserPassword (env : Env) (userId password : String) : App Bool := do
  let repeated ← if env.yolo then yoloLoginNameMatches env userId password else pure false
  if repeated then pure true
  else
    let administrator ← isUserAdmin userId
    let rows ← passwordRows userId
    pure (verifyRows env password (rows.filter fun r => !administrator || r.adminEligible)).isSome

/-! ## Replacing credentials -/

/-- The credential a function of this file inserts. -/
def credentialRow (env : Env) (now : Nat) (id salt userId password : String) (name : Option String) :
    PasswordCredentialRow :=
  { id, userId, passwordHash := env.hashPassword salt password, name, adminEligible := adminEligible password,
    createdAt := now, updatedAt := now, lastUsedAt := none }

/-- The characters that fit into `n` UTF-16 code units. -/
def takeUnits : Nat → List Char → List Char
  | _, [] => []
  | n, c :: cs =>
    let size := if c.toNat < 0x10000 then 1 else 2
    if size ≤ n then c :: takeUnits (n - size) cs else []

/-- `name.slice(0, 80)`. -/
def sliceName (name : String) : String :=
  String.ofList (takeUnits 80 name.toList)

/-- `UPDATE users SET security_version = security_version + 1, …`. -/
def bump (now : Nat) (u : UserRow) : UserRow :=
  { u with securityVersion := u.securityVersion + 1, updatedAt := now }

theorem bump_id (now : Nat) (u : UserRow) : (bump now u).id = u.id := rfl

/-- Replace every password credential. Intended for provisioning and recovery. -/
def setUserPassword (env : Env) (id salt userId password name : String) : App Unit := do
  let administrator ← isUserAdmin userId
  require (passwordAcceptable env password administrator) (.error ("password must contain " ++
    toString (minimumPasswordLength administrator) ++ "–" ++ toString PASSWORD_POLICY.maximum ++ " characters"))
  let now ← clock
  d1 fun db =>
    let row := credentialRow env now id salt userId password (some (sliceName name))
    let credentials := db.passwordCredentials.delete (·.userId = userId)
    ((), { db with
      passwordCredentials := if (db.users.get? userId).isSome then credentials.insert row else credentials
      users := db.users.update (·.id = userId) (bump now) (bump_id now) })

/-- Add another independently manageable password login method. -/
def addUserPassword (env : Env) (id salt userId password : String) (name : Option String) : App (Option String) := do
  let administrator ← isUserAdmin userId
  if !passwordAcceptable env password administrator then pure none
  else
    let now ← clock
    let added ← d1 fun db =>
      let row := credentialRow env now id salt userId password (name.map sliceName)
      let room := (db.users.get? userId).any (!·.disabled) &&
        (db.passwordCredentials.select (·.userId = userId)).length < PASSWORD_POLICY.maximumCredentials
      let credentials := if room then db.passwordCredentials.insert row else db.passwordCredentials
      let present := credentials.has fun r => r.id = id && r.userId = userId
      (room && present && (db.users.get? userId).isSome, { db with
        passwordCredentials := credentials
        users := db.users.update (fun u => u.id = userId && present) (bump now) (bump_id now) })
    pure (if added then some id else none)

/-! ## Recovery -/

structure PasswordResetInput where
  userId : String
  password : String
  expectedSecurityVersion : Nat
  verifyEmail : Bool
  credentialId : String
  salt : String
  deriving DecidableEq, Repr

/-- The guard that the first statements of the recovery batch repeat. An insert whose id is taken
aborts the batch, so it is part of it. -/
def resetGuard (input : PasswordResetInput) (db : Database) : Bool :=
  (db.users.get? input.userId).any (atVersion input.expectedSecurityVersion) &&
    !db.passwordCredentials.has fun r => r.id = input.credentialId && r.userId ≠ input.userId

/-- The user's row once the epoch moved. -/
def resetUser (now : Nat) (input : PasswordResetInput) (u : UserRow) : UserRow :=
  { bump now u with emailVerified := input.verifyEmail || u.emailVerified }

theorem resetUser_id (now : Nat) (input : PasswordResetInput) (u : UserRow) : (resetUser now input u).id = u.id := rfl

/-- The first three statements of the recovery batch: drop the old credentials, insert the new one,
move the security epoch. -/
def resetCredentials (env : Env) (now : Nat) (input : PasswordResetInput) (db : Database) : Database :=
  let guard := resetGuard input db
  let row := credentialRow env now input.credentialId input.salt input.userId input.password (some "Password")
  let credentials := if guard then (db.passwordCredentials.delete (·.userId = input.userId)).insert row
    else db.passwordCredentials
  { db with
    passwordCredentials := credentials
    users := db.users.update
      (fun u => u.id = input.userId && atVersion input.expectedSecurityVersion u &&
        credentials.has fun r => r.id = input.credentialId && r.userId = input.userId)
      (resetUser now input) (resetUser_id now input) }

/-- Whether the replacement is in place: what the batch's revocations ask. -/
def resetInPlace (input : PasswordResetInput) (db : Database) : Bool :=
  (db.users.get? input.userId).any (·.securityVersion = input.expectedSecurityVersion + 1) &&
    db.passwordCredentials.has fun r => r.id = input.credentialId && r.userId = input.userId

/-- Whether the batch inserted the credential and moved the epoch. -/
def resetEffective (env : Env) (now : Nat) (input : PasswordResetInput) (db : Database) : Bool :=
  (db.users.get? input.userId).any (atVersion input.expectedSecurityVersion) &&
    (resetCredentials env now input db).passwordCredentials.has fun r =>
      r.id = input.credentialId && r.userId = input.userId

def resetBatch (env : Env) (now : Nat) (input : PasswordResetInput) (db : Database) : (Bool × List String) × Database :=
  let db' := resetCredentials env now input db
  let revoked := revokeAccessIf (resetInPlace input db') now input.userId db'
  ((resetEffective env now input db, revoked.1), revoked.2)

/-- What the history records of the batch; `mark` is recorded if it takes effect. -/
def resetEvents (env : Env) (mark : List Event) (now : Nat) (input : PasswordResetInput) (db : Database) : List Event :=
  (if resetEffective env now input db then mark else []) ++
    accessEvents (resetInPlace input (resetCredentials env now input db)) input.userId

/-- Set a recovery password only if no security transition occurred since issue. -/
def setUserPasswordAtSecurityVersion (env : Env) (mark : List Event) (input : PasswordResetInput) : App Bool := do
  let administrator ← isUserAdmin input.userId
  if !passwordAcceptable env input.password administrator then pure false
  else
    let now ← clock
    let (effective, familyIds) ← d1Logged (resetEvents env mark now input) (resetBatch env now input)
    revokeRefreshFamilyDurableObjects familyIds
    pure effective

/-! ## What the recovery batch leaves -/

/-- Under the guard the batch finds its credential in place. -/
theorem credentialPresent_of_guard {now : Nat} {input : PasswordResetInput} {db : Database}
    (h : resetGuard input db = true) : ((resetCredentials env now input db).passwordCredentials.has fun r =>
      r.id = input.credentialId && r.userId = input.userId) = true := by
  have hfree : (db.passwordCredentials.delete (·.userId = input.userId)).get? input.credentialId = none := by
    rw [resetGuard, Bool.and_eq_true, Bool.not_eq_true', Bool.eq_false_iff] at h
    refine Table.get?_eq_none.2 fun r hr hid => h.2 (Table.has_iff.2 ⟨r, (Table.mem_delete.1 hr).1, ?_⟩)
    have := (Table.mem_delete.1 hr).2
    simp_all
  simp only [resetCredentials, h, if_true]
  exact Table.has_iff.2 ⟨credentialRow env now input.credentialId input.salt input.userId input.password "Password",
    Table.mem_insert.2 (Or.inr ⟨rfl, hfree⟩), by simp [credentialRow]⟩

/-- A credential of another user with the id leaves none of this user's with it. -/
theorem credentialAbsent_of_taken {input : PasswordResetInput} {db : Database}
    (h : (db.passwordCredentials.has fun r => r.id = input.credentialId && r.userId ≠ input.userId) = true) :
    (db.passwordCredentials.has fun r => r.id = input.credentialId && r.userId = input.userId) = false := by
  obtain ⟨r, hr, hid⟩ := Table.has_iff.1 h
  rw [Bool.eq_false_iff]
  intro hin
  obtain ⟨r', hr', hid'⟩ := Table.has_iff.1 hin
  simp only [Bool.and_eq_true, decide_eq_true_eq] at hid hid'
  have := Table.key_inj hr hr' (hid.1.trans hid'.1.symm)
  exact hid.2 (this ▸ hid'.2)

/-- A batch whose guard fails changes nothing before its revocations. -/
theorem resetCredentials_of_not_guard {now : Nat} {input : PasswordResetInput} {db : Database}
    (h : resetGuard input db = false) : resetCredentials env now input db = db := by
  have husers : db.users.update (fun u => u.id = input.userId && atVersion input.expectedSecurityVersion u &&
      db.passwordCredentials.has fun r => r.id = input.credentialId && r.userId = input.userId)
      (resetUser now input) (resetUser_id now input) = db.users := by
    refine Table.update_eq_self _ fun u hu => ?_
    by_cases hid : u.id = input.userId
    · have hget : db.users.get? input.userId = some u := Table.get?_eq_some.2 ⟨hu, hid⟩
      rw [resetGuard, hget, Option.any_some, Bool.and_eq_false_iff, Bool.not_eq_false'] at h
      rcases h with h | h
      · simp [h]
      · simp [credentialAbsent_of_taken h]
    · simp [hid]
  simp only [resetCredentials, h, Bool.false_eq_true, if_false, husers]

theorem resetEffective_eq (now : Nat) (input : PasswordResetInput) (db : Database) :
    resetEffective env now input db = resetGuard input db := by
  cases h : resetGuard input db with
  | true =>
    rw [resetEffective, credentialPresent_of_guard h, Bool.and_true]
    rw [resetGuard, Bool.and_eq_true] at h
    exact h.1
  | false =>
    rw [resetEffective, resetCredentials_of_not_guard h]
    rw [resetGuard, Bool.and_eq_false_iff, Bool.not_eq_false'] at h
    rcases h with h | h
    · rw [h, Bool.false_and]
    · rw [credentialAbsent_of_taken h, Bool.and_false]

/-- Under the guard the user is enabled, at the expected version. -/
theorem atVersion_of_resetGuard {input : PasswordResetInput} {db : Database} (h : resetGuard input db = true) :
    ∃ u, db.users.get? input.userId = some u ∧ u.disabled = false ∧
      u.securityVersion = input.expectedSecurityVersion := by
  rw [resetGuard, Bool.and_eq_true, Option.any_eq_true] at h
  obtain ⟨⟨u, hu, hv⟩, -⟩ := h
  simp only [atVersion, Bool.and_eq_true, Bool.not_eq_true', decide_eq_true_eq] at hv
  exact ⟨u, hu, hv⟩

/-- Under the guard the epoch of the user moves by one, and that of no other. -/
theorem resetCredentials_users {now : Nat} {input : PasswordResetInput} {db : Database}
    (h : resetGuard input db = true) (id : String) : (resetCredentials env now input db).users.get? id =
      (db.users.get? id).map fun u => if id = input.userId then resetUser now input u else u := by
  have hpresent : ((resetCredentials env now input db).passwordCredentials.has fun r =>
      r.id = input.credentialId && r.userId = input.userId) = true := credentialPresent_of_guard h
  obtain ⟨u, hu, hd, hv⟩ := atVersion_of_resetGuard h
  simp only [resetCredentials, h, if_true] at hpresent ⊢
  rw [Table.get?_update (resetUser_id now input), hpresent]
  refine Option.map_congr fun v hget => ?_
  obtain ⟨-, hid⟩ := Table.get?_eq_some.1 hget
  by_cases heq : id = input.userId
  · subst heq
    rw [hu] at hget
    cases hget
    simp [hid, atVersion, hd, hv]
  · simp [hid, heq]

/-- A reset that inserted its credential and moved the epoch has its replacement in place. -/
theorem resetInPlace_of_effective {now : Nat} {input : PasswordResetInput} {db : Database}
    (h : resetEffective env now input db = true) : resetInPlace input (resetCredentials env now input db) = true := by
  rw [resetEffective_eq] at h
  obtain ⟨u, hu, -, hv⟩ := atVersion_of_resetGuard h
  rw [resetInPlace, credentialPresent_of_guard h, resetCredentials_users h, hu]
  simp [resetUser, bump, hv]

end Keyforge.Auth
