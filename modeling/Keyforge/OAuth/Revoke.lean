/-
The revocation endpoint (`oauth/revoke.ts`). A refresh token, current or rotated away, stands for its whole
family; a token that is unknown or another client's is answered as one that was revoked.
-/
import Keyforge.OAuth.Confinement

namespace Keyforge.OAuth

open Lib Db Tokens

inductive RevokeAnswer where
  /-- 400, `invalid_request`. -/
  | missingToken
  /-- 200, whether or not anything was revoked. -/
  | ok
  deriving DecidableEq, Repr

/-- The record is looked up as for the refresh grant: by the token's hash, then by the family before its first
dot, if that is not empty. -/
def handleRevoke (env : Env) (client : ClientRow) (token : Option String) : App RevokeAnswer := do
  match token with
  | none => pure .missingToken
  | some token =>
    let record ← lookupPresentedFamily env token
    match record.filter fun r => r.clientId = client.clientId with
    | none => pure .ok
    | some record =>
      revokeFamily record.familyId
      markRefreshTokenRevoked record.familyId
      recordAudit
      pure .ok

/-- A lookup that finds nothing read no row with the token's hash, and none of its family. -/
theorem lookupPresentedFamily_none {env : Env} {presented : String} (hdot : '.' ∈ presented.toList)
    (hfamily : familyIdOf presented ≠ "") :
    endsE (lookupPresentedFamily env presented)
      (fun found tr => found = none → Saw (fun db => ∀ r ∈ db.refreshTokens, r.id ≠ familyIdOf presented) tr)
      fun _ _ => True := by
  rw [lookupPresentedFamily, getRefreshTokenByHash, endsE_bind]
  refine endsE_select (fun w dt => ?_) fun _ => trivial
  cases w.db.refreshTokens.rows.find? (·.tokenHash = hashOpaqueToken env presented) with
  | some row => exact fun h => by cases h
  | none =>
    refine endsE_ite (fun _ => ?_) fun hnot => absurd ?_ hnot
    · rw [getRefreshTokenByFamilyId]
      refine endsE_select (fun w' dt' hnone => ?_) fun _ => trivial
      exact .right (.head (Table.get?_eq_none.1 (Option.map_eq_none_iff.1 hnone)))
    · simp [hfamily, hdot]

/-- A request that was answered read no row of the token's family, or found a row that the token presents; if
that is the client's, it revoked the row's family. -/
theorem handleRevoke_ends {env : Env} {client : ClientRow} {token : String} (hdot : '.' ∈ token.toList)
    (hfamily : familyIdOf token ≠ "") :
    endsE (handleRevoke env client (some token)) (fun _ tr =>
      Saw (fun db => ∀ r ∈ db.refreshTokens, r.id ≠ familyIdOf token) tr ∨
      ∃ row, Saw (Presents env token row) tr ∧ (row.clientId = client.clientId →
        ∃ t ∈ tr, t.2.families row.id = Do.revoke (t.1.families row.id))) fun _ _ => True := by
  rw [handleRevoke, endsE_bind]
  refine endsE_iff.2 ⟨fun tr found hpath => ?_, fun _ _ _ => trivial⟩
  cases found with
  | none => exact Or.inl ((endsE_iff.1 (lookupPresentedFamily_none hdot hfamily)).1 tr none hpath rfl).left
  | some record =>
    obtain ⟨row, rfl, hrow⟩ := (endsE_iff.1 lookupPresentedFamily_ends).1 tr _ hpath record rfl
    have hfilter : (some (toRecord row)).filter (fun r => decide (r.clientId = client.clientId)) =
        if row.clientId = client.clientId then some (toRecord row) else none := by
      by_cases hclient : row.clientId = client.clientId <;> simp [toRecord, hclient]
    rw [hfilter]
    split
    · rename_i hsplit
      rw [ite_eq_right_iff] at hsplit
      exact Or.inr ⟨row, hrow.left, fun hclient => absurd (hsplit hclient) (Option.some_ne_none _)⟩
    · rename_i found hsplit
      obtain ⟨-, hfound⟩ := Option.ite_none_right_eq_some.1 hsplit
      cases hfound
      rw [revokeFamily, familyObject, endsE_bind]
      refine endsE_io (fun w dt => ?_) fun _ => trivial
      refine endsE_imp (fun _ tr' _ => ?_) (fun _ _ _ => trivial) _ (endsE_true _)
      refine Or.inr ⟨row, hrow.left, fun _ => ⟨_, List.mem_append_right _ (List.mem_append_left _ (List.mem_singleton_self _)), ?_⟩⟩
      simp [toRecord]

end Keyforge.OAuth
