/-
The cap on active families. A committed issuance batch leaves at most twenty families of its user and
client active: the one it inserts, and what is left when the oldest of the others are revoked. Nothing is
needed of the state before, so revocations, rotations and other issuances may come between in any order;
the family's id is drawn fresh, so the batch finds no row of it.
-/
import Keyforge.Lib.Least
import Keyforge.Lib.Run
import Keyforge.Deployment
import Keyforge.Tokens.Rules

namespace Keyforge.Refresh

open Lib Db Tokens

/-! ## The batch -/

/-- One family was issued before another; the id decides where the second is the same. -/
def older (a b : RefreshTokenRow) : Prop :=
  a.createdAt < b.createdAt ∨ (a.createdAt = b.createdAt ∧ a.id < b.id)

instance : DecidableRel older :=
  fun a b => inferInstanceAs (Decidable (a.createdAt < b.createdAt ∨ (a.createdAt = b.createdAt ∧ a.id < b.id)))

/-- The order in which the batch takes the families. -/
abbrev issuedNoLater (a b : RefreshTokenRow) : Prop :=
  a.createdAt < b.createdAt ∨ (a.createdAt = b.createdAt ∧ a.id ≤ b.id)

/-- The other families of the user and client that are active at the time of the issuance. -/
def otherFamilies (issued : RefreshTokenRow) (before : Table RefreshTokenRow.id) : List RefreshTokenRow :=
  before.select (activeFamily issued.createdAt issued.userId issued.clientId)

/-- The family is among the oldest of the others, as many as there are families over the cap. -/
def Excess (issued : RefreshTokenRow) (before : Table RefreshTokenRow.id) (r : RefreshTokenRow) : Prop :=
  r ∈ otherFamilies issued before ∧ ((otherFamilies issued before).filter fun o => older o r).length <
    (otherFamilies issued before).length + 1 - REFRESH_TOKEN_POLICY.maximumActiveFamiliesPerUserClient

instance (issued : RefreshTokenRow) (before : Table RefreshTokenRow.id) : DecidablePred (Excess issued before) :=
  fun _ => inferInstanceAs (Decidable (_ ∧ _))

/-- What a committed issuance batch does to the families: it inserts one and revokes the excess. -/
structure CapBatch (issued : RefreshTokenRow) (before after : Table RefreshTokenRow.id) : Prop where
  fresh : before.get? issued.id = none
  rows : ∀ r, r ∈ after ↔ r = issued ∨ ∃ r₀ ∈ before,
    r = if Excess issued before r₀ then { r₀ with revokedAt := some issued.createdAt } else r₀
  others : ∀ r, ¬(r.userId = issued.userId ∧ r.clientId = issued.clientId) → (r ∈ after ↔ r ∈ before)
  active : ∀ time, time < issued.expiresAt →
    issued ∈ after.select (activeFamily time issued.userId issued.clientId)
  cap : ∀ time, issued.createdAt ≤ time → (after.select (activeFamily time issued.userId issued.clientId)).length ≤
    REFRESH_TOKEN_POLICY.maximumActiveFamiliesPerUserClient

section

variable {now : Nat} {userId clientId : String} {issued : RefreshTokenRow} {before : Table RefreshTokenRow.id}

theorem ne_issued (h : before.get? issued.id = none) {r : RefreshTokenRow} (hr : r ∈ before) : r.id ≠ issued.id :=
  Table.get?_eq_none.1 h r hr

theorem not_older_iff {a b : RefreshTokenRow} : ¬older b a ↔ issuedNoLater a b := by
  unfold older issuedNoLater
  rw [not_or, Nat.not_lt, not_and, String.not_lt]
  constructor
  · rintro ⟨hle, hid⟩
    rcases Nat.lt_or_eq_of_le hle with hlt | heq
    · exact Or.inl hlt
    · exact Or.inr ⟨heq, hid heq.symm⟩
  · rintro (hlt | ⟨heq, hid⟩)
    · exact ⟨Nat.le_of_lt hlt, fun he => absurd he.symm (Nat.ne_of_lt hlt)⟩
    · exact ⟨Nat.le_of_eq heq, fun _ => hid⟩

instance : Std.Total issuedNoLater where
  total a b := by
    rcases Nat.lt_trichotomy a.createdAt b.createdAt with hlt | heq | hgt
    · exact Or.inl (Or.inl hlt)
    · exact (String.le_total a.id b.id).imp (fun h => Or.inr ⟨heq, h⟩) fun h => Or.inr ⟨heq.symm, h⟩
    · exact Or.inr (Or.inl hgt)

instance : IsTrans RefreshTokenRow issuedNoLater where
  trans := by
    rintro a b c (hab | ⟨hab, hid⟩) (hbc | ⟨hbc, hid'⟩)
    · exact Or.inl (Nat.lt_trans hab hbc)
    · exact Or.inl (hbc ▸ hab)
    · exact Or.inl (hab ▸ hbc)
    · exact Or.inr ⟨hab.trans hbc, String.le_trans hid hid'⟩

theorem issuedNoLater_antisymm {a b : RefreshTokenRow} (hab : issuedNoLater a b) (hba : issuedNoLater b a) : a.id = b.id := by
  rcases hab with hab | ⟨hab, hid⟩
  · rcases hba with hba | ⟨hba, -⟩
    · exact absurd hba (Nat.lt_asymm hab)
    · exact absurd hba (Nat.ne_of_gt hab)
  · rcases hba with hba | ⟨-, hid'⟩
    · exact absurd hab (Nat.ne_of_gt hba)
    · exact String.le_antisymm hid hid'

/-- The families over the cap, after the insert. -/
theorem excessFamilies_eq {db : Database} (hdb : db.refreshTokens = before.insert issued) (hfresh : before.get? issued.id = none)
    (hlive : activeFamily issued.createdAt issued.userId issued.clientId issued = true) :
    excessFamilies issued.createdAt issued.userId issued.clientId issued.id db =
      ((otherFamilies issued before).insertionSort issuedNoLater).take
        ((otherFamilies issued before).length + 1 - REFRESH_TOKEN_POLICY.maximumActiveFamiliesPerUserClient) := by
  have hactive : db.refreshTokens.select (activeFamily issued.createdAt issued.userId issued.clientId) =
      otherFamilies issued before ++ [issued] := by
    rw [hdb, Table.select, Table.rows_insert hfresh, List.filter_append, List.filter_cons_of_pos hlive]
    rfl
  have hothers : (otherFamilies issued before ++ [issued]).filter (fun r => decide (r.id ≠ issued.id)) =
      otherFamilies issued before := by
    rw [List.filter_append, List.filter_cons_of_neg (by simp), List.filter_nil, List.append_nil, List.filter_eq_self]
    intro r hr
    exact decide_eq_true (ne_issued hfresh (Table.mem_select.1 hr).1)
  unfold excessFamilies
  rw [hactive]
  dsimp only
  rw [hothers, List.length_append, List.length_singleton]

theorem mem_excessFamilies {db : Database} (hdb : db.refreshTokens = before.insert issued)
    (hfresh : before.get? issued.id = none)
    (hlive : activeFamily issued.createdAt issued.userId issued.clientId issued = true) {r : RefreshTokenRow} :
    r ∈ excessFamilies issued.createdAt issued.userId issued.clientId issued.id db ↔ Excess issued before r := by
  have hanti : ∀ a ∈ otherFamilies issued before, ∀ b ∈ otherFamilies issued before, issuedNoLater a b →
      issuedNoLater b a → a = b := fun a ha b hb hab hba =>
    Table.key_inj (Table.mem_select.1 ha).1 (Table.mem_select.1 hb).1 (issuedNoLater_antisymm hab hba)
  have hcount : (otherFamilies issued before).filter (fun o => decide ¬issuedNoLater r o) =
      (otherFamilies issued before).filter fun o => decide (older o r) :=
    List.filter_congr fun o _ => decide_eq_decide.2 (not_iff_comm.1 not_older_iff)
  rw [excessFamilies_eq hdb hfresh hlive, mem_take_insertionSort _ hanti, hcount]
  rfl

/-- Without the families over the cap, no more are left than the cap allows. -/
theorem length_kept (l : List RefreshTokenRow) (ids : List String) (k : Nat) (sorted : List RefreshTokenRow)
    (hperm : sorted.Perm l) (hids : ∀ r ∈ sorted.take k, r.id ∈ ids) :
    (l.filter fun r => r.id ∉ ids).length ≤ l.length - k := by
  have hsplit : (sorted.filter fun r => decide (r.id ∉ ids)).length ≤ (sorted.drop k).length := by
    conv_lhs => rw [← List.take_append_drop k sorted]
    rw [List.filter_append, List.filter_eq_nil_iff.2 fun r hr => by simpa using hids r hr, List.nil_append]
    exact List.length_filter_le _ _
  rw [← (hperm.filter _).length_eq, ← hperm.length_eq, ← List.length_drop]
  exact hsplit

/-- Revoking the families over the cap leaves no more active than the cap, at any later time. -/
theorem length_active_le {db : Database} (hdb : db.refreshTokens = before.insert issued) (hfresh : before.get? issued.id = none)
    (hlive : activeFamily issued.createdAt issued.userId issued.clientId issued = true) {time : Nat}
    (htime : issued.createdAt ≤ time) :
    (((before.insert issued).update (fun r =>
        r.id ∈ (excessFamilies issued.createdAt issued.userId issued.clientId issued.id db).map (·.id))
      (fun r => { r with revokedAt := some issued.createdAt }) fun _ => rfl).select
        (activeFamily time issued.userId issued.clientId)).length ≤
      REFRESH_TOKEN_POLICY.maximumActiveFamiliesPerUserClient := by
  generalize hids : (excessFamilies issued.createdAt issued.userId issued.clientId issued.id db).map (·.id) = ids
  rw [excessFamilies_eq hdb hfresh hlive] at hids
  let cap := REFRESH_TOKEN_POLICY.maximumActiveFamiliesPerUserClient
  let others := otherFamilies issued before
  -- what is active then was active at the batch, and is not revoked by it
  have hactive : (((before.insert issued).rows.map fun r =>
      if decide (r.id ∈ ids) = true then { r with revokedAt := some issued.createdAt } else r).filter
        (activeFamily time issued.userId issued.clientId)).length ≤
          ((others ++ [issued]).filter fun r => r.id ∉ ids).length := by
    have hsplit : others ++ [issued] =
        (before.insert issued).rows.filter (activeFamily issued.createdAt issued.userId issued.clientId) := by
      rw [Table.rows_insert hfresh, List.filter_append, List.filter_cons_of_pos hlive]
      rfl
    rw [hsplit, List.filter_filter, List.filter_map, List.length_map]
    refine (List.monotone_filter_right _ fun r h => ?_).length_le
    rw [Function.comp_apply] at h
    split at h
    · exact absurd (of_decide_eq_true h).2.2.1 (by simp)
    · rename_i hid
      obtain ⟨huser, hclient, hrevoked, hexpires⟩ := of_decide_eq_true h
      rw [Bool.and_eq_true]
      exact ⟨by simpa using hid, decide_eq_true ⟨huser, hclient, hrevoked, Nat.lt_of_le_of_lt htime hexpires⟩⟩
  have hothers : (others.filter fun r => r.id ∉ ids).length ≤ others.length - (others.length + 1 - cap) := by
    refine length_kept others ids _ _ (List.perm_insertionSort issuedNoLater others) fun r hr => ?_
    rw [← hids]
    exact List.mem_map_of_mem hr
  have hone : ([issued].filter fun r => decide (r.id ∉ ids)).length ≤ 1 := List.length_filter_le _ _
  have hcap : cap = 20 := rfl
  calc _ ≤ ((others ++ [issued]).filter fun r => r.id ∉ ids).length := hactive
    _ = (others.filter fun r => r.id ∉ ids).length + ([issued].filter fun r => r.id ∉ ids).length := by
      rw [List.filter_append, List.length_append]
    _ ≤ cap := by omega

/-- The prune after the insert. -/
theorem capBatch_prune {db : Database} (hdb : db.refreshTokens = before.insert issued) (hfresh : before.get? issued.id = none)
    (hrevoked : issued.revokedAt = none) (hexpires : issued.createdAt < issued.expiresAt) :
    CapBatch issued before (pruneStatement issued.createdAt issued.userId issued.clientId issued.id db).2.refreshTokens := by
  have hlive : activeFamily issued.createdAt issued.userId issued.clientId issued = true :=
    decide_eq_true ⟨rfl, rfl, hrevoked, hexpires⟩
  have hstored : db.refreshTokens.get? issued.id = some issued := by
    rw [hdb, Table.get?_insert hfresh, if_pos rfl]
  let excess := excessFamilies issued.createdAt issued.userId issued.clientId issued.id db
  have hmem : ∀ r, r ∈ excess ↔ Excess issued before r := fun r => mem_excessFamilies hdb hfresh hlive
  have hbefore : ∀ {r}, Excess issued before r → r ∈ before := fun h => (Table.mem_select.1 h.1).1
  have hid : ∀ r ∈ before, r.id ∈ excess.map (·.id) ↔ Excess issued before r := by
    intro r hr
    rw [List.mem_map]
    constructor
    · rintro ⟨o, ho, hoid⟩
      have ho := (hmem o).1 ho
      rwa [← Table.key_inj (hbefore ho) hr hoid]
    · exact fun h => ⟨r, (hmem r).2 h, rfl⟩
  have hissued : issued.id ∉ excess.map (·.id) := by
    intro h
    obtain ⟨o, ho, hoid⟩ := List.mem_map.1 h
    exact ne_issued hfresh (hbefore ((hmem o).1 ho)) hoid
  have hafter : (pruneStatement issued.createdAt issued.userId issued.clientId issued.id db).2.refreshTokens =
      (before.insert issued).update (fun r => r.id ∈ excess.map (·.id))
        (fun r => { r with revokedAt := some issued.createdAt }) fun _ => rfl := by
    unfold pruneStatement
    rw [hstored, Option.any_some, hrevoked, if_pos (by rfl), ← hdb]
  have hrows : ∀ r, r ∈ (pruneStatement issued.createdAt issued.userId issued.clientId issued.id db).2.refreshTokens ↔
      r = issued ∨ ∃ r₀ ∈ before,
        r = if Excess issued before r₀ then { r₀ with revokedAt := some issued.createdAt } else r₀ := by
    intro r
    rw [hafter, Table.mem_update]
    constructor
    · rintro ⟨r₀, hr₀, rfl⟩
      rcases Table.mem_insert.1 hr₀ with hr₀ | ⟨rfl, -⟩
      · exact Or.inr ⟨r₀, hr₀, by simp only [decide_eq_true_eq, hid r₀ hr₀]⟩
      · exact Or.inl (if_neg (by simpa using hissued))
    · rintro (rfl | ⟨r₀, hr₀, rfl⟩)
      · exact ⟨r, Table.mem_insert.2 (Or.inr ⟨rfl, hfresh⟩), (if_neg (by simpa using hissued)).symm⟩
      · exact ⟨r₀, Table.mem_insert.2 (Or.inl hr₀), by simp only [decide_eq_true_eq, hid r₀ hr₀]⟩
  refine ⟨hfresh, hrows, ?_, ?_, ?_⟩
  · intro r hpair
    rw [hrows]
    -- the excess is of the pair
    have hkept : ∀ r₀, ¬(r₀.userId = issued.userId ∧ r₀.clientId = issued.clientId) → ¬Excess issued before r₀ := by
      intro r₀ hr₀ h
      have hactive := of_decide_eq_true (Table.mem_select.1 h.1).2
      exact hr₀ ⟨hactive.1, hactive.2.1⟩
    constructor
    · rintro (rfl | ⟨r₀, hr₀, rfl⟩)
      · exact absurd ⟨rfl, rfl⟩ hpair
      · split
        · rename_i hexcess
          rw [if_pos hexcess] at hpair
          exact absurd hexcess (hkept r₀ hpair)
        · exact hr₀
    · exact fun hr => Or.inr ⟨r, hr, (if_neg (hkept r hpair)).symm⟩
  · intro time htime
    exact Table.mem_select.2 ⟨(hrows issued).2 (Or.inl rfl), decide_eq_true ⟨rfl, rfl, hrevoked, htime⟩⟩
  · intro time htime
    rw [hafter]
    exact length_active_le hdb hfresh hlive htime

end

/-- The issuance batch, where its guard lets the insert through. -/
theorem capBatch_issue {now expiresAt : Nat} {input : IssueRefreshInput} {f tokenHash : String} {db : Database}
    (hguard : sessionGuard now input db = true) (hfresh : db.refreshTokens.get? f = none) (hexpires : now < expiresAt) :
    CapBatch (issuedRow now f tokenHash expiresAt input) db.refreshTokens
      (issueBatch now input (issuedRow now f tokenHash expiresAt input) db).2.refreshTokens := by
  unfold issueBatch insertStatement
  rw [if_pos hguard]
  exact @capBatch_prune (issuedRow now f tokenHash expiresAt input) _ _ rfl hfresh rfl hexpires

/-- A refused insert revokes nothing. -/
theorem issueBatch_refused {now : Nat} {input : IssueRefreshInput} {row : RefreshTokenRow} {db : Database}
    (hguard : sessionGuard now input db = false) (hfresh : db.refreshTokens.get? row.id = none) :
    (issueBatch now input row db).2 = db := by
  have hinsert : insertStatement now input row db = (false, db) := if_neg (by simp [hguard])
  rw [issueBatch, hinsert]
  dsimp only
  rw [pruneStatement, hfresh]
  rfl

/-! ## The calls -/

/-- Issuances, each with the family id and secret it draws, and statements that add no family: revocations,
rotations, deletions, and anything on other tables. -/
inductive CapCall where
  | issue (input : IssueRefreshInput) (familyId secret : String)
  | other (stmt : Database → Database)

/-- The family a call draws. -/
def CapCall.family : CapCall → Option String
  | .issue _ familyId _ => some familyId
  | .other _ => none

/-- A statement, without the families it would add. -/
def addingNone (stmt : Database → Database) (db : Database) : Database :=
  { stmt db with refreshTokens := (stmt db).refreshTokens.delete fun r => (db.refreshTokens.get? r.id).isNone }

def CapCall.code (env : Env) : CapCall → App (Option IssuedRefreshToken)
  | .issue input familyId secret => some <$> issueRefreshToken env input familyId secret
  | .other stmt => d1 fun db => (none, addingNone stmt db)

/-- Calls arrive at any time; an issued family's id is drawn fresh. Any storage call may fail. -/
def capSystem (env : Env) : System CapCall Input World (Except Failure (Option IssuedRefreshToken)) where
  code := fun c => (c.code env).run
  allow := fun _ _ _ => True
  arrive := fun P c => ∀ f, c.family = some f →
    (∀ t ∈ P.threads, t.1.family ≠ some f) ∧ P.store.db.refreshTokens.get? f = none

/-- What a step of an issuance of family `f` does: it leaves the families alone, or it is the batch, which the
history records as refused or with the family inserted. -/
inductive IssuanceStep (input : IssueRefreshInput) (f : String) (w w' : World) : Prop
  | leave (hlog : w'.log = w.log) (h : w'.db.refreshTokens = w.db.refreshTokens)
  | refused (hlog : w'.log = .familyRefused f :: w.log) (h : w'.db.refreshTokens = w.db.refreshTokens)
  | inserted (issued : RefreshTokenRow) (hlog : w'.log = .familyInserted f :: w.log) (hid : issued.id = f)
      (huser : issued.userId = input.userId) (hclient : issued.clientId = input.clientId)
      (hpast : issued.createdAt ≤ w'.nowSeconds) (h : CapBatch issued w.db.refreshTokens w'.db.refreshTokens)

/-- The clock goes forward, and the families that others have drawn do not appear. -/
structure CapRely (drawn : String → Prop) (w w' : World) : Prop where
  now : w.nowMs ≤ w'.nowMs
  absent : ∀ f, drawn f → w.db.refreshTokens.get? f = none → w'.db.refreshTokens.get? f = none

def CapStep : CapCall → World → World → Prop
  | .issue input f _ => IssuanceStep input f
  | .other _ => fun _ _ => True

def capOutline (env : Env) : Outline (capSystem env) where
  inv := fun _ => True
  rely := fun c => CapRely fun f => c.family = some f
  guar := fun c w w' => CapRely (fun f => c.family ≠ some f) w w' ∧ CapStep c w w'
  post := fun _ _ _ => True
  apart := fun c d => ∀ f, c.family = some f → d.family ≠ some f
  beside := fun _ _ => True
  trace := fun _ _ => True

section

variable {env : Env}

theorem CapRely.trans {drawn : String → Prop} {a b c : World} (h : CapRely drawn a b) (h' : CapRely drawn b c) :
    CapRely drawn a c :=
  ⟨Nat.le_trans h.now h'.now, fun f hf ha => h'.absent f hf (h.absent f hf ha)⟩

theorem CapRely.of_db {drawn : String → Prop} {w w' : World} (hnow : w.nowMs ≤ w'.nowMs)
    (hdb : w'.db.refreshTokens = w.db.refreshTokens) : CapRely drawn w w' :=
  ⟨hnow, fun _ _ ha => hdb ▸ ha⟩

theorem CapStep.of_db {c : CapCall} {w w' : World} (hlog : w'.log = w.log)
    (hdb : w'.db.refreshTokens = w.db.refreshTokens) : CapStep c w w' := by
  cases c with
  | issue input f secret => exact .leave hlog hdb
  | other stmt => trivial

theorem cap_tolerant (env : Env) (c : CapCall) : Tolerant ((capOutline env).protocol c) := by
  have hburn : ∀ {drawn : String → Prop} {w w' : World}, Burns w w' → CapRely drawn w w' := by
    rintro drawn w w' h
    refine .of_db ?_ (by rw [h.db])
    obtain ⟨dt, b, rfl⟩ := h
    exact Nat.le_add_right _ _
  have hguar : ∀ {w w' : World}, Burns w w' → ((capOutline env).protocol c).guar w w' :=
    fun h => ⟨hburn h, .of_db h.log (by rw [h.db])⟩
  exact
    { ok := ⟨fun w => hburn (Burns.tick w 0), CapRely.trans⟩
      tickInv := fun _ _ => trivial
      tickRely := fun w dt => hburn (Burns.tick w dt)
      tickGuar := fun w dt => hguar (Burns.tick w dt)
      tickAllow := fun _ _ => trivial
      guarTick := by
        rintro w w' dt ⟨h, hstep⟩
        refine ⟨(hburn (Burns.tick w dt)).trans h, ?_⟩
        cases c with
        | issue input f secret =>
          cases hstep with
          | leave hlog h => exact .leave hlog h
          | refused hlog h => exact .refused hlog h
          | inserted issued hlog hid huser hclient hpast h => exact .inserted issued hlog hid huser hclient hpast h
        | other stmt => trivial
      burnInv := fun _ _ => trivial
      burnRely := hburn
      burnGuar := hguar }

/-- The batch of an issuance whose family is not there yet, at a time before. -/
theorem issuedWorld_step {now expiresAt : Nat} {input : IssueRefreshInput} {f secret tokenHash : String} {w : World}
    (hfresh : w.db.refreshTokens.get? f = none) (hnow : now ≤ w.nowSeconds) (hexpires : now < expiresAt) :
    let w' := issuedWorld now input (issuedRow now f tokenHash expiresAt input) w
    CapRely (fun g => (CapCall.issue input f secret).family ≠ some g) w w' ∧ CapStep (.issue input f secret) w w' := by
  intro w'
  cases hguard : sessionGuard now input w.db with
  | false =>
    have hdb : w'.db = w.db := issueBatch_refused hguard hfresh
    refine ⟨.of_db (Nat.le_refl _) (by rw [hdb]), .refused ?_ (by rw [hdb])⟩
    show issueEvents now input _ w.db ++ w.log = _
    rw [issueEvents, hguard]
    rfl
  | true =>
    have hbatch := @capBatch_issue _ _ _ _ tokenHash _ hguard hfresh hexpires
    refine ⟨⟨Nat.le_refl _, fun g hg ha => ?_⟩, .inserted _ ?_ rfl rfl rfl hnow hbatch⟩
    · rw [Table.get?_eq_none] at ha ⊢
      intro r hr hid
      rcases (hbatch.rows r).1 hr with rfl | ⟨r₀, hr₀, rfl⟩
      · exact hg (congrArg some hid)
      · refine ha r₀ hr₀ ?_
        rw [← hid]
        split <;> rfl
    · show issueEvents now input _ w.db ++ w.log = _
      rw [issueEvents, hguard]
      rfl

theorem issue_capped {input : IssueRefreshInput} {f secret : String} {w : World}
    (hfresh : w.db.refreshTokens.get? f = none) :
    wpE ((capOutline env).protocol (.issue input f secret)) (some <$> issueRefreshToken env input f secret)
      (fun _ _ => True) (fun _ _ => True) w := by
  have hΓ := cap_tolerant env (.issue input f secret)
  have hc := hΓ.toClocked
  have ht := stable_true ((capOutline env).protocol (.issue input f secret))
  have hstable : ((capOutline env).protocol (.issue input f secret)).Stable fun w => w.db.refreshTokens.get? f = none :=
    fun _ _ ha hr _ => hr.absent f rfl ha
  rw [map_eq_pure_bind, wpE_bind, issueRefreshToken, wpE_bind]
  refine wpE_clock hc hstable hfresh fun w hfresh _ => ?_
  generalize hnow : w.nowSeconds = now
  have hstable : ((capOutline env).protocol (.issue input f secret)).Stable fun w =>
      w.db.refreshTokens.get? f = none ∧ now ≤ w.nowSeconds :=
    fun _ _ ha hr _ => ⟨hr.absent f rfl ha.1, Nat.le_trans ha.2 (Nat.div_le_div_right hr.now)⟩
  rw [wpE_bind]
  refine wpE_familyObject hc hstable ⟨hfresh, Nat.le_of_eq hnow.symm⟩ ?_ fun _ _ _ => trivial
  rintro w w' - hw - rfl -
  refine ⟨trivial, ⟨.of_db (Nat.le_refl _) rfl, .of_db rfl rfl⟩, ?_, trivial⟩
  dsimp only
  rw [wpE_bind, wpE_tryCatch]
  have hrevoke : ∀ (Q : Unit → World → Prop) w, (∀ w, Q () w) →
      wpE ((capOutline env).protocol (.issue input f secret)) (revokeFamily f) Q (fun _ _ => True) w :=
    fun Q w hQ => revokeFamily_wpE hΓ ht trivial f (fun _ w' _ _ _ _ => hQ w') fun _ _ _ => trivial
  have hexpires : now < now + if input.rememberMe then TOKEN_TTL.refreshTokenRememberMe else TOKEN_TTL.refreshToken := by
    split <;> simp [TOKEN_TTL.refreshToken, TOKEN_TTL.refreshTokenRememberMe]
  generalize now + (if input.rememberMe then TOKEN_TTL.refreshTokenRememberMe else TOKEN_TTL.refreshToken) = expiresAt at hexpires ⊢
  refine wpE_d1Logged hc hstable ?_ ?_ fun w _ _ => ?_
  · exact ⟨hw.1, hw.2⟩
  · rintro w w' - hw - rfl -
    refine ⟨trivial, issuedWorld_step hw.1 hw.2 hexpires, ?_, ?_⟩
    · split
      · rw [wpE_bind]
        exact hrevoke _ _ fun _ => trivial
      · rw [wpE_bind]
        exact revokeRefreshFamilyDurableObjects_wpE hΓ ht trivial trivial fun _ _ _ => trivial
    · rw [wpE_bind]
      exact hrevoke _ _ fun _ => trivial
  · rw [wpE_bind]
    exact hrevoke _ w fun _ => trivial

theorem cap_valid : (capOutline env).Valid where
  symm := fun h f hd hc => h f hc hd
  besideSymm := fun _ => trivial
  arrives := fun hc t ht => ⟨fun f htf hcf => (hc f hcf).1 t ht htf, fun _ => trivial⟩
  traceArrives := fun _ => trivial
  traceStep := fun _ _ _ => trivial
  ok := fun c => (cap_tolerant env c).ok
  compat := fun ha _ _ hg => ⟨hg.1.now, fun f hd => hg.1.absent f fun hc => ha f hc hd⟩
  stable := fun _ _ _ _ _ _ _ => trivial
  settled := fun _ _ _ _ _ => trivial
  safe := by
    intro P c hc _
    apply wp_of_wpE
    cases c with
    | issue input f secret =>
      exact wpE_imp (fun _ _ _ => trivial) (fun _ _ _ => trivial) _ (issue_capped (hc f rfl).2)
    | other stmt =>
      have hΓ := cap_tolerant env (.other stmt)
      show wpE _ (d1 fun db => (none, addingNone stmt db)) (fun _ _ => True) (fun _ _ => True) _
      refine wpE_d1Logged hΓ.toClocked (stable_true _) trivial ?_ fun _ _ _ => trivial
      rintro w w' - - - rfl -
      refine ⟨trivial, ⟨⟨Nat.le_refl _, fun f _ ha => ?_⟩, trivial⟩, trivial, trivial⟩
      show ((stmt w.db).refreshTokens.delete _).get? f = none
      rw [Table.get?_delete, Option.filter_eq_none_iff]
      intro r hr
      rw [(Table.get?_eq_some.1 hr).2, ha]
      simp

end

/-- Active-family cap. In every run of issuances and statements that add no family, each step of an issuance
leaves the families alone, is a refused batch and leaves them alone too, or inserts its family in a batch:
the pair then has at most twenty families that are active at the batch's time or later, the new one among
them until it ends; the families of others are untouched; and the batch revokes exactly the oldest others,
as many as there are over the cap. -/
theorem active_family_cap (env : Env) (w₀ : World) (steps : List (Taken World))
    (P : Pool CapCall Input World (Except Failure (Option IssuedRefreshToken)))
    (hrun : (capSystem env).Run ⟨w₀, []⟩ steps P) :
    ∀ t ∈ steps, ∀ input f secret p, P.threads[t.thread]? = some (.issue input f secret, p) →
      IssuanceStep input f t.before t.after := by
  intro t ht input f secret p hthread
  obtain ⟨-, c, q, hget, -, hstep⟩ := hrun.outline cap_valid (Outline.holds_start trivial trivial) t ht
  cases hthread.symm.trans hget
  exact hstep

/-! ## A run -/

/-- The deployment with twenty families of the user and client, issued one after another. -/
def fullWorld : World :=
  { Deployment.world with
    db := { Deployment.database with
      refreshTokens := (List.range 20).foldl
        (fun families i => families.insert { Deployment.familyRow with id := "rtf_" ++ toString i, createdAt := i }) ∅ } }

def capIssue : IssueRefreshInput :=
  { userId := "usr_a", clientId := "app", sessionId := none, resource := "https://api.example.com",
    scope := "openid offline_access", authTime := 0, rememberMe := false }

def capSchedule : List (System.Move CapCall Input) :=
  .arrive (.issue capIssue "rtf_a" "secret") :: List.replicate 4 (.run 0 Deployment.ok)

theorem active_family_cap_full :
    let steps := (capSystem Deployment.env).taken ⟨fullWorld, []⟩ capSchedule
    ∃ t ∈ steps, (t.before.db.refreshTokens.select (activeFamily 1002 "usr_a" "app")).length = 20 ∧
      (t.after.db.refreshTokens.get? "rtf_a").isSome ∧ (t.after.db.refreshTokens.get? "rtf_0").any (·.revokedAt.isSome) ∧
      IssuanceStep capIssue "rtf_a" t.before t.after := by
  intro steps
  have hallows : (capSystem Deployment.env).Allows ⟨fullWorld, []⟩ capSchedule := by
    refine ⟨fun f hf => ⟨fun t ht => absurd ht List.not_mem_nil, ?_⟩, trivial, trivial, trivial, trivial, trivial⟩
    cases hf
    decide +kernel
  have hrun := System.run_moves capSchedule hallows
  obtain ⟨t, ht, hfull, hissued, holdest⟩ : ∃ t ∈ steps,
      (t.before.db.refreshTokens.select (activeFamily 1002 "usr_a" "app")).length = 20 ∧
      (t.after.db.refreshTokens.get? "rtf_a").isSome ∧ (t.after.db.refreshTokens.get? "rtf_0").any (·.revokedAt.isSome) := by
    decide +kernel
  have hthread : ∀ t ∈ steps, t.thread = 0 := by decide +kernel
  refine ⟨t, ht, hfull, hissued, holdest, ?_⟩
  have hcall := System.map_fst_moves (capSystem Deployment.env) capSchedule ⟨fullWorld, []⟩
  generalize (capSystem Deployment.env).moves ⟨fullWorld, []⟩ capSchedule = P at hrun hcall
  have hcall : P.threads.map Prod.fst = [.issue capIssue "rtf_a" "secret"] := hcall
  obtain ⟨⟨c, p⟩, hthreads, rfl⟩ := List.map_eq_singleton_iff.1 hcall
  refine active_family_cap Deployment.env fullWorld steps P hrun t ht capIssue "rtf_a" "secret" p ?_
  rw [hthread t ht, hthreads]
  rfl

end Keyforge.Refresh
