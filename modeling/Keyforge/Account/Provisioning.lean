/-
Accounts that could not be provisioned. `createManagedUser` commits the account first and deletes it
when a later step fails: whatever runs beside it, nothing of the account is left then. But its two
writes of the account, unlike those of every other operation, do not ask whether an active
administrator remains, and the account may be the one that the others counted on.
-/
import Keyforge.Account.Admins
import Keyforge.Account.Promotion
import Keyforge.Admin.UserManagement

namespace Keyforge.Account

open Lib Db Auth Tokens Admin

/-! ## The rows of an account -/

/-- No row belongs to the user. -/
structure NoRows (id : String) (db : Database) : Prop where
  memberships : ∀ m ∈ db.userGroups, m.userId ≠ id
  requests : ∀ r ∈ db.groupMembershipRequests, r.userId ≠ id
  passwords : ∀ c ∈ db.passwordCredentials, c.userId ≠ id
  passkeys : ∀ c ∈ db.webauthnCredentials, c.userId ≠ id
  sessions : ∀ s ∈ db.sessions, s.userId ≠ id
  consents : ∀ c ∈ db.consents, c.userId ≠ id
  refreshTokens : ∀ r ∈ db.refreshTokens, r.userId ≠ id
  grants : ∀ g ∈ db.grants, g.userId ≠ id
  devices : ∀ d ∈ db.devices, d.userId ≠ some id
  emailVerifications : ∀ v ∈ db.emailVerifications, v.userId ≠ id
  resetTokens : ∀ t ∈ db.passwordResetTokens, t.userId ≠ id

/-- There is no such user, and no row belongs to it. -/
def Absent (id : String) (db : Database) : Prop :=
  db.users.get? id = none ∧ NoRows id db

/-- Rows that belong to the user exist only while it does (the foreign keys of the schema). -/
def Rooted (id : String) (db : Database) : Prop :=
  db.users.get? id = none → NoRows id db

/-- What a step may do to an account that is not its own: no user appears, and the rows stay rooted. -/
def AccountKept (id : String) (db db' : Database) : Prop :=
  (db.users.get? id = none → db'.users.get? id = none) ∧ (Rooted id db → Rooted id db')

theorem AccountKept.refl (id : String) (db : Database) : AccountKept id db db :=
  ⟨fun h => h, fun h => h⟩

theorem AccountKept.trans {id : String} {db db' db'' : Database} (h₁ : AccountKept id db db')
    (h₂ : AccountKept id db' db'') : AccountKept id db db'' :=
  ⟨fun h => h₂.1 (h₁.1 h), fun h => h₂.2 (h₁.2 h)⟩

/-- A step that keeps every user and gives no rows to a user that is missing. -/
theorem AccountKept.of_rows {id : String} {db db' : Database} (husers : db.users.get? id = none ↔ db'.users.get? id = none)
    (hrows : db.users.get? id = none → NoRows id db → NoRows id db') : AccountKept id db db' :=
  ⟨husers.1, fun h hn => hrows (husers.2 hn) (h (husers.2 hn))⟩

theorem Rooted.absent {id : String} {db : Database} (h : Rooted id db) (hn : db.users.get? id = none) : Absent id db :=
  ⟨hn, h hn⟩

theorem get?_update_eq_none {p : UserRow → Bool} {f : UserRow → UserRow} (hf : ∀ u, (f u).id = u.id) {t : Table UserRow.id}
    {id : String} : t.get? id = none ↔ (t.update p f hf).get? id = none := by
  rw [Table.get?_update, Option.map_eq_none_iff]

/-! ## What the statements leave -/

theorem NoRows.revokeAccessIf {id : String} {db : Database} (h : NoRows id db) (effective : Bool) (now : Nat)
    (userId : String) : NoRows id (revokeAccessIf effective now userId db).2 := by
  cases effective with
  | false => exact h
  | true =>
    refine { h with sessions := fun s hs => ?_, refreshTokens := fun r hr => ?_ }
    · obtain ⟨s', hs', -, hown, -⟩ := revokeSessionRows_spec hs
      rw [hown]
      exact h.sessions s' hs'
    · obtain ⟨r', hr', hkept, -⟩ := revokeRows_revoked hr
      rw [hkept.userId]
      exact h.refreshTokens r' hr'

/-- What is left of a deleted user. -/
theorem noRows_withoutUser (id : String) (db : Database) : NoRows id (withoutUser id db) := by
  have hdelete : ∀ {α κ : Type} {key : α → κ} {t : Table key} {owner : α → String} {a : α},
      a ∈ t.delete (fun a => owner a = id) → owner a ≠ id := by
    intro α κ key t owner a ha
    exact of_decide_eq_false (Table.mem_delete.1 ha).2
  refine ⟨fun _ => hdelete, fun _ => hdelete, fun _ => hdelete, fun _ => hdelete, fun s hs hid => ?_, fun _ => hdelete,
    fun _ => hdelete, fun _ => hdelete, fun d hd => ?_, fun _ => hdelete, fun _ => hdelete⟩
  · obtain ⟨hs, hkept⟩ := Table.mem_delete.1 hs
    refine Bool.eq_false_iff.1 hkept (List.contains_iff_mem.2 (List.mem_map.2 ⟨s, ?_, rfl⟩))
    exact Table.mem_select.2 ⟨hs, decide_eq_true hid⟩
  · obtain ⟨d', -, rfl⟩ := (Table.mem_update fun _ => by rfl).1 hd
    split
    · exact nofun
    · rename_i h
      exact fun he => h (decide_eq_true he)

/-- Deleting a user adds no rows. -/
theorem NoRows.withoutUser {id : String} {db : Database} (h : NoRows id db) (other : String) :
    NoRows id (withoutUser other db) := by
  refine ⟨fun m hm => h.memberships m (Table.mem_delete.1 hm).1, fun r hr => h.requests r (Table.mem_delete.1 hr).1,
    fun c hc => h.passwords c (Table.mem_delete.1 hc).1, fun c hc => h.passkeys c (Table.mem_delete.1 hc).1,
    fun s hs => h.sessions s (Table.mem_delete.1 hs).1, fun c hc => h.consents c (Table.mem_delete.1 hc).1,
    fun r hr => ?_, fun g hg => ?_, fun d hd => ?_, fun v hv => h.emailVerifications v (Table.mem_delete.1 hv).1,
    fun t ht => h.resetTokens t (Table.mem_delete.1 ht).1⟩
  · obtain ⟨r', hr', rfl⟩ := (Table.mem_update fun _ => by rfl).1 (Table.mem_delete.1 hr).1
    split <;> exact h.refreshTokens r' hr'
  · obtain ⟨g', hg', rfl⟩ := (Table.mem_update fun _ => by rfl).1 (Table.mem_delete.1 hg).1
    split <;> exact h.grants g' hg'
  · obtain ⟨d₁, hd₁, hd⟩ := (Table.mem_update fun _ => by rfl).1 hd
    have hown : d₁.userId ≠ some id := by
      obtain ⟨d', hd', rfl⟩ := (Table.mem_update fun _ => by rfl).1 hd₁
      split <;> exact h.devices d' hd'
    rw [hd]
    split
    · exact nofun
    · exact hown

theorem deleteUserIf_kept (guard : Database → UserRow → Bool) (other id : String) (db : Database) :
    AccountKept id db (deleteUserIf guard other db).2 := by
  unfold deleteUserIf
  split
  swap
  · exact .refl id db
  have hget : (withoutUser other db).users.get? id = (db.users.get? id).filter fun u => !decide (u.id = other) :=
    Table.get?_delete
  refine ⟨fun hn => by rw [hget, hn]; rfl, fun h hn => ?_⟩
  by_cases hid : id = other
  · exact hid ▸ noRows_withoutUser id db
  · refine (h ?_).withoutUser other
    cases hu : db.users.get? id with
    | none => rfl
    | some u =>
      rw [hget, hu, Option.filter_some, decide_eq_false ((Table.get?_eq_some.1 hu).2.symm ▸ hid)] at hn
      cases hn

theorem updateUserBatch_kept (now : Nat) (current next : UserRow) (id : String) (db : Database) :
    AccountKept id db (updateUserBatch now current next db).2 := by
  refine .of_rows ?_ fun _ h => (show NoRows _ (updateUserStatement now current next db) from { h with }).revokeAccessIf _ _ _
  rw [updateUserBatch, revokeAccessIf_users]
  exact get?_update_eq_none (updatedUser_id now current next)

/-- The transaction of a membership call. -/
theorem transaction_kept (c : MembershipCall) (now : Nat) (id : String) (db : Database) :
    AccountKept id db (c.transaction now db) := by
  unfold MembershipCall.transaction membershipBatch
  by_cases hvalid : c.valid db = true
  swap
  · rw [if_neg hvalid]
    exact .refl id db
  rw [if_pos hvalid]
  obtain ⟨userGroups, requests, hframe⟩ := c.memberships_frame now db
  refine .of_rows ?_ fun hn h => ?_
  · rw [adminPromotionRevocation, revokeAccessIf_users, hframe]
    exact get?_update_eq_none (bump_id now)
  · refine NoRows.revokeAccessIf ?_ _ _ _
    refine ⟨fun m hm => ?_, fun r hr => h.requests r (c.requests_subset now hr), ?_, ?_, ?_, ?_, ?_, ?_, ?_, ?_, ?_⟩
    · rcases c.joins now db hvalid m hm with hm | ⟨hown, -, -, hu⟩
      · exact h.memberships m hm
      · rintro rfl
        rw [← hown, hn] at hu
        cases hu
    all_goals dsimp only; rw [hframe]
    · exact h.passwords
    · exact h.passkeys
    · exact h.sessions
    · exact h.consents
    · exact h.refreshTokens
    · exact h.grants
    · exact h.devices
    · exact h.emailVerifications
    · exact h.resetTokens

/-- Every statement of the guarded operations. -/
theorem GuardedStep.kept {db db' : Database} (h : GuardedStep db db') (id : String) : AccountKept id db db' := by
  cases h with
  | updateUser now current next => exact updateUserBatch_kept now current next id db
  | deleteUser other => exact deleteUserIf_kept removable other id db
  | replaceGroups now userId groupIds => exact transaction_kept (.setGroupsPreserving userId groupIds) now id db
  | leaveGroup groupId userId =>
    exact .of_rows Iff.rfl fun _ h => { h with memberships := fun m hm => h.memberships m (Table.mem_delete.1 hm).1 }
  | addMember now groupId userId requireRequest =>
    cases requireRequest with
    | false => exact transaction_kept (.add groupId userId) now id db
    | true => exact transaction_kept (.approve groupId userId) now id db
  | dropRequest userId groupId =>
    exact .of_rows Iff.rfl fun _ h => { h with requests := fun r hr => h.requests r (Table.mem_delete.1 hr).1 }
  | deleteGroup other =>
    unfold deleteGroupStatement
    split
    · exact .of_rows Iff.rfl fun _ h =>
        { h with memberships := fun m hm => h.memberships m (Table.mem_delete.1 hm).1,
                 requests := fun r hr => h.requests r (Table.mem_delete.1 hr).1 }
    · exact .refl id db

theorem insertUser_kept {now : Nat} {u : UserRow} {id : String} (hid : u.id ≠ id) (db : Database) :
    AccountKept id db (insertUser now u db).2 := by
  unfold insertUser
  split
  · exact .refl id db
  · refine .of_rows ?_ fun _ h => { h with memberships := fun m hm => ?_, requests := fun r hr => ?_ }
    · show _ ↔ (db.users.insert u).get? id = none
      rw [Table.get?_insert_of_ne hid]
    · rcases mem_joinGroups_iff hm with hm | ⟨hown, -⟩
      · exact h.memberships m hm
      · exact hown ▸ hid
    · exact h.requests r (Table.mem_delete.1 hr).1

/-- The insert refuses and changes nothing, or the user is there. -/
theorem insertUser_cases (now : Nat) (u : UserRow) (db : Database) :
    ((insertUser now u db).1 = false ∧ (insertUser now u db).2 = db) ∨
      ((insertUser now u db).1 = true ∧ (insertUser now u db).2.users.get? u.id ≠ none) := by
  unfold insertUser
  split
  · exact Or.inl ⟨rfl, rfl⟩
  · rename_i hfree
    refine Or.inr ⟨rfl, ?_⟩
    show (db.users.insert u).get? u.id ≠ none
    have hn : db.users.get? u.id = none := by
      refine Table.get?_eq_none.2 fun other hother hid => hfree (Table.has_iff.2 ⟨other, hother, ?_⟩)
      simp [hid]
    rw [Table.get?_insert hn, if_pos rfl]
    exact Option.some_ne_none u

/-- The deletion leaves nothing of a rooted account. -/
theorem deleteUser_absent {id : String} {db : Database} (h : Rooted id db) :
    Absent id (deleteUserIf (fun _ _ => true) id db).2 := by
  unfold deleteUserIf
  cases hu : db.users.get? id with
  | none => exact h.absent hu
  | some u =>
    refine ⟨?_, noRows_withoutUser id db⟩
    show (db.users.delete (·.id = id)).get? id = none
    rw [Table.get?_delete, hu, Option.filter_some, decide_eq_true (Table.get?_eq_some.1 hu).2]
    rfl

/-! ## The programs -/

/-- What a call relies on for the account it creates: others keep it, and what is recorded stays. -/
def AccountRely (id : String) (w w' : World) : Prop :=
  AccountKept id w.db w'.db ∧ ∀ x ∈ w.log, x ∈ w'.log

theorem AccountRely.of_db {id : String} {w w' : World} (h : AccountKept id w.db w'.db) {ext : List Event}
    (hlog : w'.log = ext ++ w.log) : AccountRely id w w' :=
  ⟨h, fun _ hx => hlog ▸ List.mem_append_right _ hx⟩

theorem AccountRely.refl (id : String) (w : World) : AccountRely id w w :=
  ⟨.refl id w.db, fun _ h => h⟩

theorem AccountRely.trans {id : String} {w w' w'' : World} (h₁ : AccountRely id w w') (h₂ : AccountRely id w' w'') :
    AccountRely id w w'' :=
  ⟨h₁.1.trans h₂.1, fun x hx => h₂.2 x (h₁.2 x hx)⟩

/-- A token is minted in three steps: the version is read, the row goes in, the object is stored. -/
theorem keeps_createPasswordResetToken {Γ : Protocol Input World} (hc : Clocked Γ)
    (hminted : ∀ w ext, Γ.inv w → Γ.inv { w with log := ext ++ w.log } ∧ Γ.guar w { w with log := ext ++ w.log })
    (hrow : ∀ w (row : PasswordResetTokenRow), (w.db.users.get? row.userId).isSome = true → Γ.inv w →
      Γ.inv { w with db := { w.db with passwordResetTokens := w.db.passwordResetTokens.insert row } } ∧
        Γ.guar w { w with db := { w.db with passwordResetTokens := w.db.passwordResetTokens.insert row } })
    (htoken : ∀ w tokens, Γ.inv w → Γ.inv { w with oneTimeTokens := tokens } ∧ Γ.guar w { w with oneTimeTokens := tokens })
    {env : Env} {token tokenId userId email : String} {options : PasswordResetTokenOptions} :
    Keeps Γ (createPasswordResetToken env token tokenId userId email options) := by
  have hstore : ∀ tokenHash payload ttl, Keeps Γ (storeToken tokenHash payload ttl) := by
    intro tokenHash payload ttl
    unfold storeToken tokenObject
    exact .io hc fun w _ hi _ => htoken w _ hi
  refine .bind (.clock hc) fun now => .bind (.bind (.d1Logged hc fun w w' _ hi hw' _ => ?_) fun version => ?_) fun version =>
    .bind (.d1 hc fun w w' _ hi hw' _ => ?_) fun stored => .bind (.require _ _) fun _ => .bind (hstore _ _ _) fun _ => .pure _
  · rw [hw']
    exact hminted w _ hi
  · cases version with
    | none => exact .throw _
    | some version => exact .pure _
  · rw [hw']
    split
    · rename_i hu
      exact hrow w _ hu hi
    · exact ⟨hi, hc.guarRefl w⟩

/-- The protocol of programs that keep every account and rely on it for `account`. -/
def accountProtocol (account : Option String) (allow : World → Input → World → Prop) : Protocol Input World :=
  ⟨fun _ => True, fun w w' => ∀ id ∈ account, AccountRely id w w', fun w w' => ∀ id, AccountRely id w w', allow⟩

section

variable {account : Option String} {allow : World → Input → World → Prop} {env : Env}

theorem account_tolerant (hallow : ∀ w e w', allow w e w' → allow (w.tick e.dt) e w') :
    Tolerant (accountProtocol account allow) where
  ok := ⟨fun w id _ => .refl id w, fun h₁ h₂ id hid => (h₁ id hid).trans (h₂ id hid)⟩
  tickInv := fun _ _ => trivial
  tickRely := fun w _ id _ => .refl id w
  tickGuar := fun w _ id => .refl id w
  tickAllow := fun e h => hallow _ e _ h
  guarTick := fun _ h id => h id
  burnInv := fun _ _ => trivial
  burnRely := fun hb id _ => ⟨hb.db ▸ .refl id _, fun _ hx => hb.log ▸ hx⟩
  burnGuar := fun hb id => ⟨hb.db ▸ .refl id _, fun _ hx => hb.log ▸ hx⟩

theorem account_self {w w' : World} (h : (accountProtocol account allow).guar w w') :
    (accountProtocol account allow).rely w w' :=
  fun id _ => h id

theorem adminCall_keepsAccounts (hallow : ∀ w e w', allow w e w' → allow (w.tick e.dt) e w') (c : AdminCall) :
    Keeps (accountProtocol account allow) (c.code env) := by
  have hΓ : Tolerant (accountProtocol account allow) := account_tolerant hallow
  have hc := hΓ.toClocked
  refine adminCall_keeps hΓ (fun ext _ hs hw' _ => ⟨trivial, fun id => .of_db (hs.kept id) (congrArg World.log hw')⟩) ?_ c
  intro id name description isPublic priority
  refine .bind (.select hc _) fun groups => ?_
  split
  · exact .pure _
  · refine .ite (.pure _) (.bind (.d1 hc fun w w' _ _ hw' _ => ⟨trivial, fun id => ?_⟩) fun _ => .pure _)
    rw [hw']
    exact ⟨.of_rows Iff.rfl fun _ h => { h with }, fun _ hx => hx⟩

theorem setUserPassword_keepsAccounts (hallow : ∀ w e w', allow w e w' → allow (w.tick e.dt) e w')
    (credentialId salt userId password name : String) :
    Keeps (accountProtocol account allow) (setUserPassword env credentialId salt userId password name) := by
  have hΓ : Tolerant (accountProtocol account allow) := account_tolerant hallow
  have hc := hΓ.toClocked
  refine .bind (.select hc _) fun administrator => .bind (.require _ _) fun _ => .bind (.clock hc) fun now =>
    .d1 hc fun w w' _ _ hw' _ => ⟨trivial, fun id => ?_⟩
  rw [hw']
  refine ⟨.of_rows (get?_update_eq_none (bump_id now)) fun hn h => { h with passwords := fun c hcred => ?_ }, fun _ hx => hx⟩
  dsimp only at hcred
  split at hcred
  · rename_i hu
    rcases Table.mem_insert.1 hcred with hcred | ⟨rfl, -⟩
    · exact h.passwords c (Table.mem_delete.1 hcred).1
    · rintro rfl
      rw [show (credentialRow env now credentialId salt userId password _).userId = userId from rfl] at hn
      rw [hn] at hu
      cases hu
  · exact h.passwords c (Table.mem_delete.1 hcred).1

theorem createPasswordResetToken_keepsAccounts (hallow : ∀ w e w', allow w e w' → allow (w.tick e.dt) e w')
    (token tokenId userId email : String) (options : PasswordResetTokenOptions) :
    Keeps (accountProtocol account allow) (createPasswordResetToken env token tokenId userId email options) := by
  have hΓ : Tolerant (accountProtocol account allow) := account_tolerant hallow
  refine keeps_createPasswordResetToken hΓ.toClocked (fun w _ _ => ⟨trivial, fun id => .of_db (.refl id w.db) rfl⟩)
    (fun w row hu _ => ⟨trivial, fun id => ⟨?_, fun _ hx => hx⟩⟩)
    fun w _ _ => ⟨trivial, fun id => ⟨.refl id w.db, fun _ hx => hx⟩⟩
  refine .of_rows Iff.rfl fun hn h => { h with resetTokens := fun t ht => ?_ }
  rcases Table.mem_insert.1 ht with ht | ⟨rfl, -⟩
  · exact h.resetTokens t ht
  · rintro rfl
    rw [hn] at hu
    cases hu

theorem provision_keepsAccounts (hallow : ∀ w e w', allow w e w' → allow (w.tick e.dt) e w') (draws : ManagedUserDraws)
    (password : Option String) (user : UserRow) (requestedIds : List String) :
    Keeps (accountProtocol account allow) (provision env draws password user requestedIds) := by
  have hΓ : Tolerant (accountProtocol account allow) := account_tolerant hallow
  have hc := hΓ.toClocked
  refine .bind (keeps_setUserGroupsMarked hΓ fun _ now => .d1Logged hc fun w w' _ _ hw' _ => ⟨trivial, fun id => ?_⟩) fun _ => ?_
  · rw [hw']
    exact .of_db (transaction_kept (.setGroups user.id requestedIds) now id w.db) rfl
  · cases password with
    | some password => exact setUserPassword_keepsAccounts hallow _ _ _ _ _
    | none =>
      exact .bind (createPasswordResetToken_keepsAccounts hallow _ _ _ _ _) fun _ => .of_quiet hc (.query _)

end

/-! ## Failed creations -/

/-- Operations of administrators and creations of accounts. -/
inductive ManagementCall where
  | admin (c : AdminCall)
  | create (draws : ManagedUserDraws) (input : ManagedUserInput)
  deriving DecidableEq

namespace ManagementCall

def code (env : Env) : ManagementCall → App Unit
  | admin c => c.code env
  | create draws input => ignore (createManagedUser env draws input)

/-- The account a call creates. -/
def account : ManagementCall → Option String
  | admin _ => none
  | create draws _ => some draws.userId

end ManagementCall

/-- The id of a new account is drawn at random: nothing has it, and no other creation draws it. -/
def managementSystem (env : Env) (allow : World → Input → World → Prop) :
    System ManagementCall Input World (Except Failure Unit) where
  code := fun c => (c.code env).run
  allow := allow
  arrive := fun P c => ∀ id ∈ c.account, Absent id P.store.db ∧ ∀ t ∈ P.threads, t.1.account ≠ some id

/-- Nothing of the account is left, unless its insert or its deletion failed itself. -/
def LeftNothing (id : String) (w : World) : Prop :=
  Event.accountStranded id ∈ w.log ∨ Absent id w.db

theorem LeftNothing.rely {id : String} {w w' : World} (h : LeftNothing id w) (hr : AccountRely id w w') : LeftNothing id w' := by
  rcases h with h | ⟨hn, hrows⟩
  · exact Or.inl (hr.2 _ h)
  · have hn' := hr.1.1 hn
    exact Or.inr ⟨hn', hr.1.2 (fun _ => hrows) hn'⟩

section

variable {allow : World → Input → World → Prop} {env : Env}

/-- The protocol of a creation: its own steps are free with its own account. -/
def creationProtocol (id : String) (allow : World → Input → World → Prop) : Protocol Input World :=
  (accountProtocol (some id) allow).withGuar fun w w' => ∀ other, other ≠ id → AccountRely other w w'

theorem creation_clocked {id : String} (hallow : ∀ w e w', allow w e w' → allow (w.tick e.dt) e w') :
    Clocked (creationProtocol id allow) where
  ok := ⟨fun w id _ => .refl id w, fun h₁ h₂ id hid => (h₁ id hid).trans (h₂ id hid)⟩
  tickInv := fun _ _ => trivial
  tickRely := fun w _ id _ => .refl id w
  tickGuar := fun w _ id _ => .refl id w
  tickAllow := fun e h => hallow _ e _ h
  guarTick := fun _ h => h

theorem absent_stable (id : String) : (creationProtocol id allow).Stable fun w => Absent id w.db := by
  intro w w' h hr _
  have hk := (hr id rfl).1
  exact ⟨hk.1 h.1, hk.2 (fun _ => h.2) (hk.1 h.1)⟩

theorem rooted_stable (id : String) : (creationProtocol id allow).Stable fun w => Rooted id w.db :=
  fun _ _ h hr _ => (hr id rfl).1.2 h

/-- The insert: the account is there and rooted, or nothing of it is. -/
theorem createUser_wpE (hallow : ∀ w e w', allow w e w' → allow (w.tick e.dt) e w') {id : String} (input : CreateUserInput)
    {w : World} (hw : Absent id w.db) :
    wpE (creationProtocol id allow) (createUser [.accountStranded id] id input)
      (fun u w => u.id = id ∧ Rooted id w.db) (fun _ w => LeftNothing id w) w := by
  have hc : Clocked (creationProtocol id allow) := creation_clocked hallow
  unfold createUser
  rw [wpE_bind, wpE_require]
  refine ⟨fun _ => ?_, fun _ => Or.inr hw⟩
  rw [wpE_bind]
  refine wpE_clock hc (absent_stable id) hw fun w hw _ => ?_
  dsimp only
  rw [wpE_bind]
  refine wpE_ioLogged hc (absent_stable id) hw (fun w e hw _ _ => ⟨trivial, fun other hne => ?_, ?_⟩)
    fun w w' e hw _ hw' _ => ⟨trivial, fun other hne => ?_, Or.inl List.mem_cons_self⟩
  · exact ⟨insertUser_kept (fun he => hne he.symm) w.db, fun _ hx => hx⟩
  · rw [wpE_bind, wpE_require]
    refine ⟨fun _ => ⟨rfl, ?_⟩, fun hfalse => ?_⟩
    · rcases insertUser_cases _ _ w.db with ⟨-, hsame⟩ | ⟨-, hthere⟩
      · dsimp only
        rw [hsame]
        exact fun _ => hw.2
      · exact fun hn => absurd hn hthere
    · rcases insertUser_cases _ _ w.db with ⟨-, hsame⟩ | ⟨htrue, -⟩
      · refine Or.inr ?_
        dsimp only
        rw [hsame]
        exact hw
      · rw [htrue] at hfalse
        cases hfalse
  · rcases hw' with rfl | rfl
    · exact ⟨.refl other _, fun _ hx => List.mem_cons_of_mem _ hx⟩
    · exact ⟨insertUser_kept (fun he => hne he.symm) w.db, fun _ hx => List.mem_cons_of_mem _ hx⟩

/-- The rollback. -/
theorem deleteUser_wpE (hallow : ∀ w e w', allow w e w' → allow (w.tick e.dt) e w') {id : String} {w : World}
    (hw : Rooted id w.db) :
    wpE (creationProtocol id allow) (deleteUser [.rolledBack id] [.accountStranded id] id)
      (fun _ w => LeftNothing id w) (fun _ w => LeftNothing id w) w := by
  have hc : Clocked (creationProtocol id allow) := creation_clocked hallow
  refine wpE_ioLogged hc (rooted_stable id) hw (fun w e hw _ _ => ⟨trivial, fun other _ => ?_, ?_⟩)
    fun w w' e hw _ hw' _ => ⟨trivial, fun other _ => ?_, Or.inl List.mem_cons_self⟩
  · exact ⟨deleteUserIf_kept _ id other w.db, fun _ hx => List.mem_cons_of_mem _ hx⟩
  · exact Or.inr (deleteUser_absent hw)
  · rcases hw' with rfl | rfl
    · exact ⟨.refl other _, fun _ hx => List.mem_cons_of_mem _ hx⟩
    · exact ⟨deleteUserIf_kept _ id other w.db, fun _ hx => List.mem_cons_of_mem _ (List.mem_cons_of_mem _ hx)⟩

attribute [local irreducible] createUser in
/-- A creation that throws leaves nothing. -/
theorem createManagedUser_wpE (hallow : ∀ w e w', allow w e w' → allow (w.tick e.dt) e w') (draws : ManagedUserDraws)
    (input : ManagedUserInput) {w : World} (hw : Absent draws.userId w.db) :
    wpE (creationProtocol draws.userId allow) (createManagedUser env draws input) (fun _ _ => True)
      (fun _ w => LeftNothing draws.userId w) w := by
  have hc : Clocked (creationProtocol draws.userId allow) := creation_clocked hallow
  have hP : (creationProtocol draws.userId allow).Stable fun w => Absent draws.userId w.db := absent_stable draws.userId
  unfold createManagedUser
  rw [wpE_bind]
  refine wpE_select hc hP hw (fun w hw _ => ?_) fun _ hw _ => Or.inr hw
  rw [wpE_ite]
  refine ⟨fun _ => trivial, fun _ => ?_⟩
  rw [wpE_bind]
  refine wpE_select hc hP hw (fun w hw _ => ?_) fun _ hw _ => Or.inr hw
  rw [wpE_ite]
  refine ⟨fun _ => trivial, fun _ => ?_⟩
  rw [wpE_bind]
  refine wpE_imp (Q := fun _ w => Absent draws.userId w.db) (fun groups w hw => ?_) (fun _ _ h => h) _
    (wpE_select hc hP hw (fun _ hw _ => hw) fun _ hw _ => Or.inr hw)
  dsimp only
  rw [wpE_ite]
  refine ⟨fun _ => trivial, fun _ => ?_⟩
  generalize (input.password.any _) = bad
  rw [wpE_ite]
  refine ⟨fun _ => trivial, fun _ => ?_⟩
  rw [wpE_bind]
  refine wpE_imp (fun user w h => ?_) (fun _ _ h => h) _ (createUser_wpE hallow _ hw)
  obtain ⟨hid, hrooted⟩ := h
  rw [wpE_bind, wpE_tryCatch, hid]
  have hprovision : wpE (creationProtocol draws.userId allow) (provision env draws input.password user input.groupIds.eraseDups)
      (fun _ _ => True) (fun _ w => Rooted draws.userId w.db) w := by
    refine wp_withGuar (Γ := creationProtocol draws.userId allow) (G := fun w w' => ∀ id, AccountRely id w w')
      (fun h other _ => h other) _ ?_
    have hkeeps : Keeps (accountProtocol (some draws.userId) allow)
        (provision env draws input.password user input.groupIds.eraseDups) := provision_keepsAccounts hallow _ _ _ _
    exact hkeeps.wpE account_self (fun _ _ h hr _ => (hr draws.userId rfl).1.2 h) hrooted trivial (fun _ _ _ _ => trivial)
      fun _ _ h _ => h
  refine wpE_imp (fun _ _ _ => trivial) (fun failure w h => ?_) _ hprovision
  rw [wpE_bind]
  exact wpE_imp (fun _ _ h => h) (fun _ _ h => h) _ (deleteUser_wpE hallow h)

/-- What the outline of the system says of a call: it is alone with the account it creates, and leaves
nothing of it if it throws. -/
def managementOutline (env : Env) (allow : World → Input → World → Prop) : Outline (managementSystem env allow) where
  inv := fun _ => True
  rely := fun c w w' => ∀ id ∈ c.account, AccountRely id w w'
  guar := fun c w w' => ∀ id, c.account ≠ some id → AccountRely id w w'
  post := fun c r w => match r with
    | .ok _ => True
    | .error _ => ∀ id ∈ c.account, LeftNothing id w
  apart := fun c d => ∀ id, c.account = some id → d.account ≠ some id
  beside := fun _ _ => True
  trace := fun _ _ => True

theorem management_post {c : ManagementCall} {r : Except Failure Unit} {w w' : World}
    (hr : ∀ id ∈ c.account, AccountRely id w w') (h : (managementOutline env allow).post c r w) :
    (managementOutline env allow).post c r w' := by
  cases r with
  | ok => trivial
  | error x => exact fun id hid => (h id hid).rely (hr id hid)

theorem management_valid (hallow : ∀ w e w', allow w e w' → allow (w.tick e.dt) e w') :
    (managementOutline env allow).Valid where
  symm := fun h id hd hc => h id hc hd
  besideSymm := fun _ => trivial
  arrives := fun {P c} hc t ht => ⟨fun id hid hid' => (hc id hid').2 t ht hid, fun _ => trivial⟩
  traceArrives := fun _ => trivial
  traceStep := fun _ _ _ => trivial
  ok := fun c => ⟨fun w id _ => .refl id w, fun h₁ h₂ id hid => (h₁ id hid).trans (h₂ id hid)⟩
  compat := fun ha _ _ hg id hid => hg id fun hc => ha id hc hid
  stable := fun _ _ _ _ h hr _ => management_post hr h
  settled := fun ha _ hg _ h => management_post (fun id hid => hg id fun hc => ha id hc hid) h
  safe := fun {P c} hc _ => by
    cases c with
    | admin c =>
      refine wp_withGuar (Γ := (managementOutline env allow).protocol (.admin c))
        (G := fun w w' => ∀ id, AccountRely id w w') (fun h id _ => h id) _ ?_
      have hkeeps : Keeps (accountProtocol none allow) (c.code env) := adminCall_keepsAccounts hallow c
      exact wp_of_wpE (wpE_imp (fun _ _ _ => trivial) (fun _ _ _ => nofun) _ (hkeeps P.store trivial))
    | create draws input =>
      obtain ⟨habsent, -⟩ := hc draws.userId rfl
      refine wp_withGuar (Γ := (managementOutline env allow).protocol (.create draws input))
        (G := fun w w' => ∀ other, other ≠ draws.userId → AccountRely other w w')
        (fun h id hid => h id fun he => hid (congrArg some he.symm)) _ ?_
      refine wp_of_wpE (p := ignore (createManagedUser env draws input)) ?_
      unfold ignore
      rw [wpE_bind]
      refine wpE_imp (fun _ _ _ => trivial) (fun _ w h => ?_) _ (createManagedUser_wpE hallow draws input habsent)
      rintro id ⟨⟩
      exact h

/-- Whatever runs beside it and whatever storage calls fail, a creation that has thrown leaves nothing
of its account. -/
theorem failed_creation_leaves_nothing (hallow : ∀ w e w', allow w e w' → allow (w.tick e.dt) e w') {w₀ : World}
    {P : Pool ManagementCall Input World (Except Failure Unit)} (hP : (managementSystem env allow).Reach ⟨w₀, []⟩ P)
    {i : Nat} {draws : ManagedUserDraws} {input : ManagedUserInput} {failure : Failure}
    (hfailed : P.finished i = some (.create draws input, .error failure))
    (hstranded : Event.accountStranded draws.userId ∉ P.store.log) : Absent draws.userId P.store.db := by
  have hpost := ((management_valid hallow).reach (Outline.holds_start trivial trivial) hP).post (Pool.mem_of_finished hfailed)
  exact (hpost draws.userId rfl).resolve_left hstranded

end

/-! ## The administrators -/

/-- What the guarded operations ask, asked of a creation's two writes of its account: the groups that it
sets leave the account an administrator, or another one is active; and the account that it deletes may
go. -/
def Watched (w : World) (_ : Input) (w' : World) : Prop :=
  ∀ ext, w'.log = ext ++ w.log →
    (∀ id groupIds, Event.groupsSet id groupIds ∈ ext → replacementIsSafe id groupIds w.db = true) ∧
    ∀ id, Event.rolledBack id ∈ ext → (w.db.users.get? id).all (removable w.db) = true

theorem watched_tick (w : World) (e : Input) (w' : World) (h : Watched w e w') : Watched (w.tick e.dt) e w' := h

theorem insertUser_keeps (now : Nat) (u : UserRow) (db : Database) :
    SameAdmins db (insertUser now u db).2 ∧ (HasActiveAdmin db → HasActiveAdmin (insertUser now u db).2) := by
  unfold insertUser
  split
  · exact ⟨fun _ => rfl, fun h => h⟩
  · rename_i hfree
    refine ⟨fun _ => rfl, fun ⟨a, ha⟩ => ⟨a, joinGroups_administrator ?_⟩⟩
    refine administrator_of ha (fun _ => rfl) (fun _ hm _ _ => hm) fun he => ?_
    obtain ⟨other, hother, hd⟩ := (Option.any_eq_true _ _).1 he
    have hne : u.id ≠ a := by
      rintro rfl
      obtain ⟨hmem, hid⟩ := Table.get?_eq_some.1 hother
      exact hfree (Table.has_iff.2 ⟨other, hmem, by simp [hid]⟩)
    refine (Option.any_eq_true _ _).2 ⟨other, ?_, hd⟩
    show (db.users.insert u).get? a = some other
    rw [Table.get?_insert_of_ne hne, hother]

/-- The account deleted may go. -/
theorem deleteUser_keeps {id : String} {db : Database} (hsafe : (db.users.get? id).all (removable db) = true) :
    SameAdmins db (deleteUserIf (fun _ _ => true) id db).2 ∧
      (HasActiveAdmin db → HasActiveAdmin (deleteUserIf (fun _ _ => true) id db).2) := by
  unfold deleteUserIf
  cases hu : db.users.get? id with
  | none => exact ⟨fun _ => rfl, fun h => h⟩
  | some u =>
    have hspares := withoutUser_spares id db
    refine ⟨hspares.groups, hspares.keeps fun hid => Or.inr (another_of_removable ?_ hid)⟩
    rw [hu, Option.all_some] at hsafe
    rw [hu, Option.any_some, hsafe]

/-- Groups set with no guard, where a guard would have let them. -/
theorem setGroups_keeps {now : Nat} {userId : String} {desired : List String} {db : Database}
    (hsafe : replacementIsSafe userId desired db = true) (h : HasActiveAdmin db) :
    HasActiveAdmin (joinGroups now userId desired (leaveGroups userId desired db)) := by
  have hspares : Spares userId db (joinGroups now userId desired (leaveGroups userId desired db)) :=
    ⟨fun _ => rfl, fun a hne ha => joinGroups_administrator ((leaveGroups_spares userId desired db).others a hne ha)⟩
  refine hspares.keeps (fun hid => ?_) h
  cases hother : anotherActiveAdmin userId db with
  | true => exact Or.inr rfl
  | false =>
    obtain ⟨hadmin, he⟩ := Bool.and_eq_true_iff.1 hid
    have henabled : ((db.users.get? userId).any fun u => !u.disabled) = true := he
    rw [replacementIsSafe, hadmin, henabled, hother] at hsafe
    simp only [Bool.and_self, Bool.not_true, Bool.or_false, Bool.not_false, List.any_eq_true] at hsafe
    obtain ⟨g, hg, hname⟩ := hsafe
    have hjoined : ∃ m ∈ (joinGroups now userId desired (leaveGroups userId desired db)).userGroups,
        m.userId = userId ∧ m.groupId = g := joined_of_mem hg
    obtain ⟨m, hm, hown, rfl⟩ := hjoined
    exact Or.inl (administrator_iff.2 ⟨⟨m, hm, hown, hname⟩, he⟩)

theorem setGroupsBatch_keeps (now : Nat) {userId : String} {desired : List String} {db : Database}
    (hsafe : joinable userId desired db = true → replacementIsSafe userId desired db = true) :
    let r := membershipBatch (joinable userId desired db) (fun db => joinGroups now userId desired (leaveGroups userId desired db))
      now userId db
    SameAdmins db r.2 ∧ (HasActiveAdmin db → HasActiveAdmin r.2) :=
  membershipBatch_keeps (fun _ => rfl) fun hvalid => setGroups_keeps (hsafe hvalid)

section

variable {env : Env}

theorem createUser_keepsAdmin (id : String) (given : CreateUserInput) :
    Keeps (adminProtocol Watched) (createUser [.accountStranded id] id given) := by
  have hc := (admin_tolerant watched_tick).toClocked
  unfold createUser
  dsimp only
  generalize (if trim (given.loginAlias.getD "") = "" then _ else _) = loginAlias
  refine .bind (.require _ _) fun _ => .bind (.clock hc) fun now => .bind (fun w _ => ?_) fun _ =>
    .bind (.require _ _) fun _ => .pure _
  refine wpE_ioLogged hc (stable_true _) trivial (fun w e _ hi _ => ?_) fun w w' e _ hi hw' _ => ?_
  · obtain ⟨hgroups, hadmin⟩ := insertUser_keeps now (createdUser now id _ given) w.db
    exact ⟨hadmin hi, hgroups, trivial⟩
  · rcases hw' with rfl | rfl
    · exact ⟨hi, fun _ => rfl, trivial⟩
    · obtain ⟨hgroups, hadmin⟩ := insertUser_keeps now (createdUser now id _ given) w.db
      exact ⟨hadmin hi, hgroups, trivial⟩

theorem deleteUser_keepsAdmin (id : String) :
    Keeps (adminProtocol Watched) (deleteUser [.rolledBack id] [.accountStranded id] id) := by
  have hc := (admin_tolerant watched_tick).toClocked
  intro w _
  refine wpE_ioLogged hc (stable_true _) trivial (fun w e _ hi ha => ?_) fun w w' e _ hi hw' ha => ?_
  · obtain ⟨hgroups, hadmin⟩ := deleteUser_keeps ((ha [.rolledBack id] rfl).2 id List.mem_cons_self)
    exact ⟨hadmin hi, hgroups, trivial⟩
  · rcases hw' with rfl | rfl
    · exact ⟨hi, fun _ => rfl, trivial⟩
    · obtain ⟨hgroups, hadmin⟩ := deleteUser_keeps
        ((ha [.accountStranded id, .rolledBack id] rfl).2 id (List.mem_cons_of_mem _ List.mem_cons_self))
      exact ⟨hadmin hi, hgroups, trivial⟩

theorem setUserGroups_keepsAdmin (userId : String) (groupIds : List String) :
    Keeps (adminProtocol Watched) (setUserGroupsMarked (groupsSetEvents userId groupIds) userId groupIds) := by
  have hΓ : Tolerant (adminProtocol Watched) := admin_tolerant watched_tick
  refine keeps_setUserGroupsMarked hΓ fun _ now => .d1Logged hΓ.toClocked fun w w' _ hi hw' ha => ?_
  have hsafe : joinable userId groupIds.eraseDups w.db = true → replacementIsSafe userId groupIds.eraseDups w.db = true := by
    intro hvalid
    refine (ha _ (congrArg World.log hw')).1 userId groupIds.eraseDups (List.mem_append_left _ ?_)
    rw [groupsSetEvents, if_pos hvalid]
    exact List.mem_cons_self
  have hkeeps := setGroupsBatch_keeps now hsafe
  rw [hw']
  exact ⟨hkeeps.2 hi, hkeeps.1⟩

theorem provision_keepsAdmin (draws : ManagedUserDraws) (password : Option String) (user : UserRow)
    (requestedIds : List String) : Keeps (adminProtocol Watched) (provision env draws password user requestedIds) := by
  have hc := (admin_tolerant watched_tick).toClocked
  -- the credential and the invitation touch no group, and users only to bump a version
  have hframe : ∀ {w w' : World}, HasActiveAdmin w.db → (∀ g, named "admins" w'.db g = named "admins" w.db g) →
      (∀ m ∈ w.db.userGroups, m ∈ w'.db.userGroups) → (∀ a, enabled w.db a = true → enabled w'.db a = true) →
      (adminProtocol Watched).inv w' ∧ (adminProtocol Watched).guar w w' := by
    rintro w w' ⟨a, ha⟩ hgroups hmembers henabled
    exact ⟨⟨a, administrator_of ha hgroups (fun m hm _ _ => hmembers m hm) (henabled a)⟩, hgroups⟩
  refine .bind (setUserGroups_keepsAdmin _ _) fun _ => ?_
  cases password with
  | some password =>
    refine .bind (.select hc _) fun administrator => .bind (.require _ _) fun _ => .bind (.clock hc) fun now =>
      .d1 hc fun w w' _ hi hw' _ => ?_
    rw [hw']
    exact hframe hi (fun _ => rfl) (fun _ hm => hm) fun a => enabled_update (bump_id now) rfl a fun _ _ _ hd => hd
  | none =>
    exact .bind (keeps_createPasswordResetToken hc (fun w _ hi => ⟨hi, fun _ => rfl⟩)
      (fun w row _ hi => hframe hi (fun _ => rfl) (fun _ hm => hm) fun _ he => he) fun w _ hi => ⟨hi, fun _ => rfl⟩)
      fun _ => .of_quiet hc (.query _)

attribute [local irreducible] createUser in
theorem creation_keepsAdmin (draws : ManagedUserDraws) (input : ManagedUserInput) :
    Keeps (adminProtocol Watched) (createManagedUser env draws input) := by
  have hc := (admin_tolerant watched_tick).toClocked
  refine .bind (.select hc _) fun sameEmail => .ite (.pure _) (.bind (.select hc _) fun sameAlias =>
    .ite (.pure _) (.bind (.select hc _) fun groups => .ite (.pure _) (.ite (.pure _)
      (.bind (createUser_keepsAdmin _ _) fun user => .bind (.tryCatch (provision_keepsAdmin _ _ _ _) fun failure =>
        .bind (deleteUser_keepsAdmin _) fun _ => .throw _) fun _ => .pure _))))

/-- A creation that has thrown is undone, and an active administrator remains: in every run whose
creations write their account only where the guarded operations would let them. -/
theorem failed_creation_is_undone (w₀ : World) (P : Pool ManagementCall Input World (Except Failure Unit))
    (hP : (managementSystem env Watched).Reach ⟨w₀, []⟩ P) :
    (HasActiveAdmin w₀.db → HasActiveAdmin P.store.db) ∧
      ∀ i draws input failure, P.finished i = some (.create draws input, .error failure) →
        Event.accountStranded draws.userId ∉ P.store.log → Absent draws.userId P.store.db := by
  refine ⟨fun h₀ => ?_, fun i draws input failure hfailed hstranded => ?_⟩
  · refine System.reach_inv_among (I := fun w => HasActiveAdmin w.db) (R := fun w w' => SameAdmins w.db w'.db)
      (fun _ _ => rfl) SameAdmins.trans (fun c w hi => ?_) h₀ hP
    cases c with
    | admin c => exact wp_of_wpE (adminCall_keepsAdmin watched_tick env c w hi)
    | create draws input =>
      exact wp_of_wpE (Keeps.bind (creation_keepsAdmin draws input) (fun _ => .pure ()) w hi)
  · exact failed_creation_leaves_nothing watched_tick hP hfailed hstranded

end

/-! ## A creation whose mail fails -/

instance (db : Database) : Decidable (HasActiveAdmin db) :=
  decidable_of_iff (db.userGroups.has fun m => named "admins" db m.groupId && enabled db m.userId) <| by
    simp only [Table.has_iff, Bool.and_eq_true, HasActiveAdmin, administrator_iff]
    exact ⟨fun ⟨m, hm, hgroup, he⟩ => ⟨m.userId, ⟨m, hm, rfl, hgroup⟩, he⟩,
      fun ⟨id, ⟨m, hm, hid, hgroup⟩, he⟩ => ⟨m, hm, hgroup, hid ▸ he⟩⟩

/-- `twoAdmins` with the second user taken out of `admins`. -/
def oneAdmin : World :=
  { twoAdmins with db := { twoAdmins.db with userGroups := twoAdmins.db.userGroups.delete fun m => m.userId = "usr_b" } }

def sampleDraws : ManagedUserDraws :=
  { userId := "usr_new", credentialId := "pwd_new", salt := "salt", token := "token", tokenId := "evr_new" }

/-- A third account, to be an administrator. -/
def newAdmin : ManagedUserInput :=
  { email := "new@example.com", loginAlias := "new", name := none, emailVerified := false, password := none,
    groupIds := ["grp_admins"] }

def failing : Input := { Deployment.ok with fail := true }

theorem newAdmin_arrives (allow : World → Input → World → Prop) :
    (managementSystem (.sample []) allow).arrive ⟨oneAdmin, []⟩ (.create sampleDraws newAdmin) := by
  rintro id ⟨⟩
  refine ⟨⟨by decide +kernel, ?_, ?_, ?_, ?_, ?_, ?_, ?_, ?_, ?_, ?_, ?_⟩, fun t ht => by cases ht⟩ <;> decide +kernel

/-- `Watched`, tested. -/
def watched (w w' : World) : Bool :=
  (w'.log.take (w'.log.length - w.log.length)).all fun x => match x with
    | .groupsSet id groupIds => replacementIsSafe id groupIds w.db
    | .rolledBack id => (w.db.users.get? id).all (removable w.db)
    | _ => true

theorem watched_of_test (w : World) (e : Input) (w' : World) (h : watched w w' = true) : Watched w e w' := by
  intro ext hlog
  have hext : w'.log.take (w'.log.length - w.log.length) = ext := by simp [hlog]
  rw [watched, hext] at h
  exact ⟨fun id groupIds hx => List.all_eq_true.1 h _ hx, fun id hx => List.all_eq_true.1 h _ hx⟩

/-- Every step succeeds up to the mail, which fails, and then the account is deleted. -/
def mailFails : List (System.Move ManagementCall Input) :=
  .arrive (.create sampleDraws newAdmin) ::
    (List.replicate 11 (.run 0 Deployment.ok) ++ [.run 0 failing, .run 0 Deployment.ok])

theorem failed_creation_is_undone_mail :
    let P := (managementSystem (.sample []) Watched).moves ⟨oneAdmin, []⟩ mailFails
    P.finished 0 = some (.create sampleDraws newAdmin, .error .storage) ∧ HasActiveAdmin P.store.db ∧
      Absent "usr_new" P.store.db := by
  intro P
  have hreach : (managementSystem (.sample []) Watched).Reach ⟨oneAdmin, []⟩ P :=
    System.reach_moves mailFails (System.allows_of_arrives watched watched_of_test mailFails
      ⟨newAdmin_arrives Watched, trivial⟩ (by decide +kernel))
  have hfailed : P.finished 0 = some (.create sampleDraws newAdmin, .error .storage) := by decide +kernel
  obtain ⟨hadmin, habsent⟩ := failed_creation_is_undone oneAdmin P hreach
  exact ⟨hfailed, hadmin (by decide +kernel), habsent 0 _ _ _ hfailed (by decide +kernel)⟩

/-- Once the new account is in `admins` the old administrator is disabled, the new one standing in for it;
then the mail fails. -/
def disabledBetween : List (System.Move ManagementCall Input) :=
  .arrive (.create sampleDraws newAdmin) :: (List.replicate 7 (.run 0 Deployment.ok) ++
    .arrive (.admin (.updateUser "usr_a" disable)) :: (List.replicate 5 (.run 1 Deployment.ok) ++
      (List.replicate 4 (.run 0 Deployment.ok) ++ (List.replicate 1 (.run 0 failing) ++
        (List.replicate 1 (.run 0 Deployment.ok) ++ [])))))

/-- Where every step can happen, a failed creation beside a guarded update leaves no active
administrator. -/
theorem failed_creation_takes_last_admin :
    let S := managementSystem (.sample []) fun _ _ _ => True
    let P := S.moves ⟨oneAdmin, []⟩ disabledBetween
    S.Reach ⟨oneAdmin, []⟩ P ∧ HasActiveAdmin oneAdmin.db ∧
      P.finished 0 = some (.create sampleDraws newAdmin, .error .storage) ∧
      P.finished 1 = some (.admin (.updateUser "usr_a" disable), .ok ()) ∧
      Event.accountStranded "usr_new" ∉ P.store.log ∧ ¬ HasActiveAdmin P.store.db := by
  intro S P
  have hall : ∀ s e s', S.allow s e s' := fun _ _ _ => trivial
  refine ⟨?_, by decide +kernel, by decide +kernel, by decide +kernel, by decide +kernel, by decide +kernel⟩
  refine System.reach_moves disabledBetween ⟨newAdmin_arrives _, System.allows_runs hall _ _ _ ⟨nofun,
    System.allows_runs hall _ _ _ (System.allows_runs hall _ _ _ (System.allows_runs hall _ _ _
      (System.allows_runs hall _ _ _ trivial)))⟩⟩

end Keyforge.Account
