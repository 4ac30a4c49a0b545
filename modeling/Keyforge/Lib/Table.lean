/-
Tables of rows with a primary key. The key's uniqueness is part of the table, so a lookup by key and
membership say the same thing. Statements are `update`, `delete` and `insert`; each has one lemma for
lookup and one for membership, and nothing else unfolds them.
-/
import Mathlib.Data.List.Nodup
import Mathlib.Tactic

namespace Keyforge.Lib

/-- Rows with distinct keys, in insertion order. -/
structure Table {α κ : Type} (key : α → κ) where
  rows : List α
  nodup : (rows.map key).Nodup

namespace Table

variable {α κ : Type} {key : α → κ}

instance : Membership α (Table key) where
  mem t a := a ∈ t.rows

theorem mem_def {t : Table key} {a : α} : a ∈ t ↔ a ∈ t.rows := Iff.rfl

instance {t : Table key} {p : α → Prop} [DecidablePred p] : Decidable (∀ a ∈ t, p a) :=
  inferInstanceAs (Decidable (∀ a ∈ t.rows, p a))

def empty : Table key := ⟨[], List.nodup_nil⟩

instance : EmptyCollection (Table key) := ⟨empty⟩

@[simp] theorem not_mem_empty {a : α} : a ∉ (∅ : Table key) := List.not_mem_nil

/-- Two rows with one key are the same row. -/
theorem key_inj {t : Table key} {a b : α} (ha : a ∈ t) (hb : b ∈ t) (h : key a = key b) : a = b :=
  List.inj_on_of_nodup_map t.nodup ha hb h

/-- `SELECT … WHERE p`. -/
def select (t : Table key) (p : α → Bool) : List α :=
  t.rows.filter p

@[simp] theorem mem_select {t : Table key} {p : α → Bool} {a : α} : a ∈ t.select p ↔ a ∈ t ∧ p a = true :=
  List.mem_filter

theorem length_select_le_one {t : Table key} {p : α → Bool}
    (h : ∀ a ∈ t, ∀ b ∈ t, p a = true → p b = true → a = b) : (t.select p).length ≤ 1 := by
  have hnodup : (t.select p).Nodup := (List.Nodup.of_map _ t.nodup).filter p
  have hsame : ∀ a ∈ t.select p, ∀ b ∈ t.select p, a = b := fun a ha b hb =>
    h a (mem_select.1 ha).1 b (mem_select.1 hb).1 (mem_select.1 ha).2 (mem_select.1 hb).2
  generalize t.select p = l at hnodup hsame
  match l with
  | [] => exact Nat.zero_le 1
  | [_] => exact Nat.le_refl 1
  | a :: b :: _ =>
    have heq := hsame a (by simp) b (by simp)
    simp [heq] at hnodup

/-- `EXISTS (SELECT 1 … WHERE p)`. -/
def has (t : Table key) (p : α → Bool) : Bool :=
  t.rows.any p

@[simp] theorem has_iff {t : Table key} {p : α → Bool} : t.has p = true ↔ ∃ a ∈ t, p a = true :=
  List.any_eq_true

/-! ## Statements -/

/-- `UPDATE … SET f WHERE p`, for an `f` that keeps the key. -/
def update (t : Table key) (p : α → Bool) (f : α → α) (hf : ∀ a, key (f a) = key a) : Table key where
  rows := t.rows.map fun a => if p a then f a else a
  nodup := by
    have h : (t.rows.map fun a => if p a then f a else a).map key = t.rows.map key := by
      rw [List.map_map]
      refine List.map_congr_left fun a _ => ?_
      simp only [Function.comp]
      split
      · exact hf a
      · rfl
    rw [h]
    exact t.nodup

/-- `DELETE … WHERE p`. -/
def delete (t : Table key) (p : α → Bool) : Table key where
  rows := t.rows.filter fun a => !p a
  nodup := t.nodup.sublist (List.filter_sublist.map key)

variable {t : Table key} {p : α → Bool} {f : α → α}

theorem mem_update (hf : ∀ a, key (f a) = key a) {b : α} : b ∈ t.update p f hf ↔ ∃ a ∈ t, b = if p a then f a else a := by
  show b ∈ t.rows.map _ ↔ _
  rw [List.mem_map]
  constructor
  · rintro ⟨a, ha, rfl⟩
    exact ⟨a, ha, rfl⟩
  · rintro ⟨a, ha, rfl⟩
    exact ⟨a, ha, rfl⟩

/-- An update that leaves the condition of a `SELECT` alone. -/
theorem select_update (hf : ∀ a, key (f a) = key a) {q : α → Bool} (hq : ∀ a, q (f a) = q a) :
    (t.update p f hf).select q = (t.select q).map fun a => if p a then f a else a := by
  have hsame : ∀ a, q (if p a then f a else a) = q a := by
    intro a
    split
    · exact hq a
    · rfl
  show (t.rows.map _).filter q = (t.rows.filter q).map _
  rw [List.filter_map]
  exact congrArg _ (List.filter_congr fun a _ => hsame a)

/-- An update that selects no row. -/
theorem update_eq_self (hf : ∀ a, key (f a) = key a) (h : ∀ a ∈ t, p a = false) : t.update p f hf = t := by
  have hrows : (t.rows.map fun a => if p a then f a else a) = t.rows := by
    refine (List.map_congr_left fun a ha => ?_).trans (List.map_id _)
    rw [h a ha]
    rfl
  cases t
  simp only [update, mk.injEq]
  exact hrows

theorem mem_delete {a : α} : a ∈ t.delete p ↔ a ∈ t ∧ p a = false := by
  show a ∈ t.rows.filter _ ↔ _
  rw [List.mem_filter, Bool.not_eq_true']
  rfl

/-- A deletion that selects no row. -/
theorem delete_eq_self (h : ∀ a ∈ t, p a = false) : t.delete p = t := by
  have hrows : (t.rows.filter fun a => !p a) = t.rows := by
    refine List.filter_eq_self.2 fun a ha => ?_
    rw [h a ha]
    rfl
  cases t
  simp only [delete, mk.injEq]
  exact hrows

theorem delete_eq_self_iff : t.delete p = t ↔ ∀ a ∈ t, p a = false := by
  refine ⟨fun h a ha => ?_, delete_eq_self⟩
  rw [← h] at ha
  exact (mem_delete.1 ha).2

/-! ## Lookup by key -/

variable [DecidableEq κ]

/-- The row with a given key. -/
def get? (t : Table key) (k : κ) : Option α :=
  t.rows.find? (key · = k)

theorem get?_eq_some {k : κ} {a : α} : t.get? k = some a ↔ a ∈ t ∧ key a = k := by
  constructor
  · intro h
    exact ⟨List.mem_of_find?_eq_some h, by simpa using List.find?_some h⟩
  · rintro ⟨ha, rfl⟩
    cases hf : t.get? (key a) with
    | none => simpa using List.find?_eq_none.1 hf a ha
    | some b =>
      have hb : key b = key a := by simpa using List.find?_some hf
      rw [key_inj (List.mem_of_find?_eq_some hf) ha hb]

theorem get?_eq_none {k : κ} : t.get? k = none ↔ ∀ a ∈ t, key a ≠ k := by
  rw [get?, List.find?_eq_none]
  simp only [decide_eq_true_eq]
  rfl

theorem get?_of_mem {a : α} (h : a ∈ t) : t.get? (key a) = some a :=
  get?_eq_some.2 ⟨h, rfl⟩

/-- `INSERT`; a row whose key is taken is not inserted. -/
def insert (t : Table key) (a : α) : Table key :=
  if h : key a ∈ t.rows.map key then t
  else ⟨t.rows ++ [a], by
    rw [List.map_append, List.nodup_append]
    refine ⟨t.nodup, List.nodup_singleton _, ?_⟩
    rintro k hk k' hk' rfl
    simp only [List.map_cons, List.map_nil, List.mem_singleton] at hk'
    exact h (hk' ▸ hk)⟩

theorem get?_update (hf : ∀ a, key (f a) = key a) {k : κ} : (t.update p f hf).get? k = (t.get? k).map fun a => if p a then f a else a := by
  have hkey : ∀ a, key (if p a then f a else a) = key a := by
    intro a
    split
    · exact hf a
    · rfl
  cases h : t.get? k with
  | none =>
    rw [Option.map_none, get?_eq_none]
    intro b hb
    obtain ⟨a, ha, rfl⟩ := (mem_update hf).1 hb
    rw [hkey]
    exact get?_eq_none.1 h a ha
  | some a =>
    obtain ⟨ha, rfl⟩ := get?_eq_some.1 h
    exact get?_eq_some.2 ⟨(mem_update hf).2 ⟨a, ha, rfl⟩, hkey a⟩

theorem isSome_get?_update (hf : ∀ a, key (f a) = key a) {k : κ} :
    ((t.update p f hf).get? k).isSome = (t.get? k).isSome := by
  rw [get?_update, Option.isSome_map]

theorem get?_delete {k : κ} : (t.delete p).get? k = (t.get? k).filter fun a => !p a := by
  cases h : t.get? k with
  | none =>
    rw [Option.filter_none, get?_eq_none]
    intro b hb
    exact get?_eq_none.1 h b (mem_delete.1 hb).1
  | some a =>
    obtain ⟨ha, hk⟩ := get?_eq_some.1 h
    cases hp : p a with
    | false =>
      rw [Option.filter_some, hp]
      exact get?_eq_some.2 ⟨mem_delete.2 ⟨ha, hp⟩, hk⟩
    | true =>
      rw [Option.filter_some, hp]
      refine get?_eq_none.2 fun b hb hkb => ?_
      obtain ⟨hmem, hpb⟩ := mem_delete.1 hb
      rw [key_inj hmem ha (hkb.trans hk.symm), hp] at hpb
      cases hpb

theorem rows_insert {a : α} (hn : t.get? (key a) = none) : (t.insert a).rows = t.rows ++ [a] := by
  have hkey : key a ∉ t.rows.map key := by
    intro hmem
    obtain ⟨b, hb, hk⟩ := List.mem_map.1 hmem
    exact get?_eq_none.1 hn b hb hk
  rw [insert, dif_neg hkey]

theorem mem_insert {a b : α} : b ∈ t.insert a ↔ b ∈ t ∨ (b = a ∧ t.get? (key a) = none) := by
  unfold insert
  split
  · rename_i h
    obtain ⟨c, hc, hk⟩ := List.mem_map.1 h
    constructor
    · exact Or.inl
    · rintro (hb | ⟨rfl, hn⟩)
      · exact hb
      · exact absurd hk (get?_eq_none.1 hn c hc)
  · rename_i h
    have hn : t.get? (key a) = none := get?_eq_none.2 fun c hc hk => h (List.mem_map.2 ⟨c, hc, hk⟩)
    show b ∈ t.rows ++ [a] ↔ _
    simp [mem_def, hn]

theorem get?_insert {a : α} {k : κ} (hn : t.get? (key a) = none) :
    (t.insert a).get? k = if key a = k then some a else t.get? k := by
  split
  · rename_i h
    subst h
    exact get?_eq_some.2 ⟨mem_insert.2 (Or.inr ⟨rfl, hn⟩), rfl⟩
  · rename_i h
    cases hg : t.get? k with
    | none =>
      rw [get?_eq_none]
      intro b hb
      rcases mem_insert.1 hb with hb | ⟨rfl, -⟩
      · exact get?_eq_none.1 hg b hb
      · exact h
    | some b =>
      obtain ⟨hb, hk⟩ := get?_eq_some.1 hg
      exact get?_eq_some.2 ⟨mem_insert.2 (Or.inl hb), hk⟩

theorem get?_insert_of_ne {a : α} {k : κ} (h : key a ≠ k) : (t.insert a).get? k = t.get? k := by
  cases hn : t.get? (key a) with
  | none => rw [get?_insert hn, if_neg h]
  | some b =>
    obtain ⟨hb, hk⟩ := get?_eq_some.1 hn
    rw [insert, dif_pos (List.mem_map.2 ⟨b, hb, hk⟩)]

theorem get?_insert_mono {a b : α} {k : κ} (h : t.get? k = some b) : (t.insert a).get? k = some b := by
  obtain ⟨hb, hk⟩ := get?_eq_some.1 h
  exact get?_eq_some.2 ⟨mem_insert.2 (Or.inl hb), hk⟩

/-! ## Rows of a kind -/

/-- The two tables have the same rows of the kind `q`. -/
def SameRows (q : α → Bool) (t t' : Table key) : Prop :=
  t.select q = t'.select q

section

omit [DecidableEq κ]

variable {q p' : α → Bool} {t' : Table key}

/-- Selections of rows of the kind that agree on them. -/
theorem SameRows.select_congr (h : SameRows q t t') (hp : ∀ a ∈ t, p a = true → q a = true)
    (hp' : ∀ a ∈ t', p' a = true → q a = true) (hpp' : ∀ a, q a = true → p a = p' a) : t.select p = t'.select p' := by
  have hboth : ∀ {u : Table key} {r : α → Bool}, (∀ a ∈ u, r a = true → q a = true) → u.select r = (u.select q).filter r := by
    intro u r hr
    rw [Table.select, Table.select, List.filter_filter]
    refine List.filter_congr fun a ha => ?_
    cases hra : r a with
    | false => rfl
    | true => rw [hr a ha hra, Bool.and_self]
  rw [hboth hp, hboth hp', ← h]
  exact List.filter_congr fun a ha => hpp' a (mem_select.1 ha).2

theorem SameRows.has (h : SameRows q t t') (hp : ∀ a, p a = true → q a = true) : t.has p = t'.has p := by
  have hany : ∀ u : Table key, u.has p = !(u.select p).isEmpty := by
    intro u
    rw [Table.has, Table.select, Bool.eq_iff_iff]
    simp
  rw [hany t, hany t', h.select_congr (fun a _ => hp a) (fun a _ => hp a) fun _ _ => rfl]

end

theorem SameRows.of_insert {q : α → Bool} {a : α} (hq : q a = false) : SameRows q (t.insert a) t := by
  unfold SameRows Table.insert
  split
  · rfl
  · simp [Table.select, hq]

/-- A row of the kind is there or not in both tables alike, where the kind is read off the key. -/
theorem SameRows.insert {q : α → Bool} {t' : Table key} (h : SameRows q t t') (hkind : ∀ a b, key a = key b → q a = q b)
    (a : α) : SameRows q (t.insert a) (t'.insert a) := by
  cases hq : q a with
  | false => exact (of_insert hq).trans (h.trans (of_insert hq).symm)
  | true =>
    have hkey : ∀ u : Table key, key a ∈ u.rows.map key ↔ key a ∈ (u.select q).map key := by
      intro u
      simp only [List.mem_map, mem_select]
      constructor
      · rintro ⟨b, hb, hba⟩
        exact ⟨b, ⟨hb, by rw [hkind b a hba, hq]⟩, hba⟩
      · rintro ⟨b, ⟨hb, -⟩, hba⟩
        exact ⟨b, hb, hba⟩
    have hiff : key a ∈ t.rows.map key ↔ key a ∈ t'.rows.map key := by rw [hkey t, hkey t', h]
    unfold SameRows Table.insert
    by_cases hin : key a ∈ t.rows.map key
    · rw [dif_pos hin, dif_pos (hiff.1 hin)]
      exact h
    · rw [dif_neg hin, dif_neg (mt hiff.2 hin)]
      show (t.rows ++ [a]).filter q = (t'.rows ++ [a]).filter q
      rw [List.filter_append, List.filter_append, show t.rows.filter q = t'.rows.filter q from h]

/-! ## Rows side by side -/

theorem find?_forall₂ {R : α → α → Prop} {q : α → Bool} (hq : ∀ {a b}, R a b → q b = q a) {l l' : List α}
    (h : List.Forall₂ R l l') : Option.Rel R (l.find? q) (l'.find? q) := by
  induction h with
  | nil => exact .none
  | @cons a b l l' hab _ ih =>
    rw [List.find?_cons, List.find?_cons, hq hab]
    cases q a with
    | true => exact .some hab
    | false => exact ih

/-- Rows that stand side by side are found together. -/
theorem get?_forall₂ {R : α → α → Prop} {t' : Table key} (hkey : ∀ {a b}, R a b → key b = key a)
    (h : List.Forall₂ R t.rows t'.rows) (k : κ) : Option.Rel R (t.get? k) (t'.get? k) :=
  find?_forall₂ (fun hab => by rw [hkey hab]) h

omit [DecidableEq κ] in
theorem forall₂_update {R : α → α → Prop} (hf : ∀ a, key (f a) = key a)
    (h : ∀ a ∈ t, R a (if p a then f a else a)) : List.Forall₂ R t.rows (t.update p f hf).rows := by
  show List.Forall₂ R t.rows (t.rows.map _)
  rw [List.forall₂_map_right_iff, List.forall₂_same]
  exact h

end Table

end Keyforge.Lib
