/-
Removing a login method (`deletePasswordCredentialPreservingLoginMethod` of `auth/password.ts`,
`deleteCredentialPreservingLoginMethod` of `db/queries/webauthn.ts`): one guarded `DELETE`, and a read
that says why no row went.
-/
import Keyforge.Auth.Passkey

namespace Keyforge.Auth

open Lib Db

inductive ProtectedDeleteResult where
  | deleted
  | notFound
  | lastLoginMethod
  deriving DecidableEq, Repr

/-- The statement answers whether a row went; the key is primary, so one row at most can. -/
def protectedDelete (statement : Database → Bool × Database) (present : Database → Bool) : App ProtectedDeleteResult := do
  if ← d1 statement then pure .deleted
  else
    let found ← select present
    pure (if found then .lastLoginMethod else .notFound)

/-- The guard counts any other password of the user, and any passkey. -/
def deletePassword (credentialId userId : String) (db : Database) : Bool × Database :=
  let other := db.passwordCredentials.has (fun r => r.userId = userId && r.id ≠ credentialId) ||
    db.webauthnCredentials.has (·.userId = userId)
  let gone := fun r : PasswordCredentialRow => r.id = credentialId && r.userId = userId && other
  (db.passwordCredentials.has gone, { db with passwordCredentials := db.passwordCredentials.delete gone })

def deletePasswordCredentialPreservingLoginMethod (credentialId userId : String) : App ProtectedDeleteResult :=
  protectedDelete (deletePassword credentialId userId) fun db =>
    db.passwordCredentials.has fun r => r.id = credentialId && r.userId = userId

def deletePasskey (credentialId userId : String) (db : Database) : Bool × Database :=
  let other := db.passwordCredentials.has (·.userId = userId) ||
    db.webauthnCredentials.has fun c => c.userId = userId && c.id ≠ credentialId
  let gone := fun c : WebauthnCredentialRow => c.id = credentialId && c.userId = userId && other
  (db.webauthnCredentials.has gone, { db with webauthnCredentials := db.webauthnCredentials.delete gone })

/-- Delete only when another currently usable login method remains. -/
def deleteCredentialPreservingLoginMethod (credentialId userId : String) : App ProtectedDeleteResult :=
  protectedDelete (deletePasskey credentialId userId) fun db =>
    db.webauthnCredentials.has fun c => c.id = credentialId && c.userId = userId

/-! ## What the statements do -/

theorem mem_deletePassword {credentialId userId : String} {db : Database} {r : PasswordCredentialRow} :
    r ∈ (deletePassword credentialId userId db).2.passwordCredentials ↔
      r ∈ db.passwordCredentials ∧ ¬(r.id = credentialId ∧ r.userId = userId ∧
        ((∃ r' ∈ db.passwordCredentials, r'.userId = userId ∧ r'.id ≠ credentialId) ∨
          ∃ c ∈ db.webauthnCredentials, c.userId = userId)) := by
  unfold deletePassword
  dsimp only
  rw [Table.mem_delete]
  refine and_congr_right fun _ => ?_
  rw [Bool.eq_false_iff]
  simp [and_assoc]

theorem mem_deletePasskey {credentialId userId : String} {db : Database} {c : WebauthnCredentialRow} :
    c ∈ (deletePasskey credentialId userId db).2.webauthnCredentials ↔
      c ∈ db.webauthnCredentials ∧ ¬(c.id = credentialId ∧ c.userId = userId ∧
        ((∃ r ∈ db.passwordCredentials, r.userId = userId) ∨
          ∃ c' ∈ db.webauthnCredentials, c'.userId = userId ∧ c'.id ≠ credentialId)) := by
  unfold deletePasskey
  dsimp only
  rw [Table.mem_delete]
  refine and_congr_right fun _ => ?_
  rw [Bool.eq_false_iff]
  simp [and_assoc]

/-- A statement that answers that no row went changed nothing. -/
theorem deletePassword_refused {credentialId userId : String} {db : Database}
    (h : (deletePassword credentialId userId db).1 = false) : (deletePassword credentialId userId db).2 = db := by
  unfold deletePassword at h ⊢
  dsimp only at h ⊢
  rw [Table.delete_eq_self fun r hr => ?_]
  rw [Bool.eq_false_iff] at h ⊢
  exact fun hgone => h (Table.has_iff.2 ⟨r, hr, hgone⟩)

theorem deletePasskey_refused {credentialId userId : String} {db : Database}
    (h : (deletePasskey credentialId userId db).1 = false) : (deletePasskey credentialId userId db).2 = db := by
  unfold deletePasskey at h ⊢
  dsimp only at h ⊢
  rw [Table.delete_eq_self fun c hc => ?_]
  rw [Bool.eq_false_iff] at h ⊢
  exact fun hgone => h (Table.has_iff.2 ⟨c, hc, hgone⟩)

end Keyforge.Auth
