/-
The bounded clean-up against the naive one. Each branch is cut to its own first batch before the branches
are merged, so a row can get in by its later terminal time only; the batch that is left is still that of
the rows in the order of their earliest terminal times. Two batches are then the first two batches of that
order.
-/
import Keyforge.Db.PermissionGroupRules
import Keyforge.Deployment
import Keyforge.Lib.Least
import Keyforge.Logic
import Keyforge.Operations.Maintenance

namespace Keyforge.Operations

open Lib Db

/-! ## The order of candidates -/

instance : Std.Total fun a b : String × Nat => candidateOrder a b = true where
  total a b := by
    simp only [candidateOrder, Bool.or_eq_true, Bool.and_eq_true, decide_eq_true_eq]
    have := String.le_total a.1 b.1
    grind

instance {α : Type} (f : α → String × Nat) : Std.Total fun a b : α => candidateOrder (f a) (f b) = true where
  total a b := (inferInstance : Std.Total fun a b : String × Nat => candidateOrder a b = true).total (f a) (f b)

instance : IsTrans (String × Nat) fun a b => candidateOrder a b = true where
  trans a b c hab hbc := by
    simp only [candidateOrder, Bool.or_eq_true, Bool.and_eq_true, decide_eq_true_eq] at *
    have := @String.le_trans a.1 b.1 c.1
    grind

instance {α : Type} (f : α → String × Nat) : IsTrans α fun a b => candidateOrder (f a) (f b) = true where
  trans a b c := trans_of (fun a b : String × Nat => candidateOrder a b = true) (a := f a) (b := f b) (c := f c)

instance : Std.Antisymm fun a b : String × Nat => candidateOrder a b = true where
  antisymm a b hab hba := by
    simp only [candidateOrder, Bool.or_eq_true, Bool.and_eq_true, decide_eq_true_eq] at *
    have := @String.le_antisymm a.1 b.1
    ext <;> grind

section

variable {α : Type} {key : α → String} {branches : List (CleanupBranch α)} {t : Table key} {r : α}

/-- The earliest terminal time of the branches a row matches. -/
def terminalAt (branches : List (CleanupBranch α)) (r : α) : Nat :=
  (((branches.filter (·.predicate r)).map (·.terminalColumn r)).min?).getD 0

/-- A row matches one of the branches. -/
def isTerminal (branches : List (CleanupBranch α)) (r : α) : Bool :=
  branches.any (·.predicate r)

/-- A row's place in the order. -/
def terminalCandidate (key : α → String) (branches : List (CleanupBranch α)) (r : α) : String × Nat :=
  (key r, terminalAt branches r)

/-- The rows that match a branch, in the order of their earliest terminal times, then of their keys. -/
def terminalRows (branches : List (CleanupBranch α)) (t : Table key) : List α :=
  (t.select (isTerminal branches)).insertionSort fun a b =>
    candidateOrder (terminalCandidate key branches a) (terminalCandidate key branches b) = true

theorem mem_terminalRows : r ∈ terminalRows branches t ↔ r ∈ t ∧ isTerminal branches r = true := by
  rw [terminalRows, List.mem_insertionSort, Table.mem_select]

theorem terminalRows_anti {a b : α} (ha : a ∈ terminalRows branches t) (hb : b ∈ terminalRows branches t)
    (hab : candidateOrder (terminalCandidate key branches a) (terminalCandidate key branches b) = true)
    (hba : candidateOrder (terminalCandidate key branches b) (terminalCandidate key branches a) = true) : a = b := by
  have heq : terminalCandidate key branches a = terminalCandidate key branches b :=
    antisymm_of (fun a b : String × Nat => candidateOrder a b = true) hab hba
  exact Table.key_inj (mem_terminalRows.1 ha).1 (mem_terminalRows.1 hb).1 (congrArg Prod.fst heq)

theorem terminalRows_nodup : ((terminalRows branches t).map key).Nodup := by
  have hperm : (terminalRows branches t).Perm (t.select (isTerminal branches)) := List.perm_insertionSort _ _
  exact (hperm.map key).nodup_iff.2 (t.nodup.sublist (List.filter_sublist.map key))

/-- Some of the terminal rows are deleted: the first `n` of them and no other row. -/
structure DeletesFirst (branches : List (CleanupBranch α)) (n : Nat) (t : Table key) (deleted : Nat) (t' : Table key) :
    Prop where
  deleted : deleted = min n (terminalRows branches t).length
  rows : t' = t.delete fun r => (((terminalRows branches t).take n).map key).contains (key r)

namespace DeletesFirst

variable {n deleted : Nat} {t' : Table key}

theorem mem_iff (h : DeletesFirst branches n t deleted t') : r ∈ t' ↔ r ∈ t ∧ r ∉ (terminalRows branches t).take n := by
  rw [h.rows, Table.mem_delete, ← Bool.not_eq_true, List.contains_iff_mem]
  refine and_congr_right fun hr => not_congr ⟨fun hkey => ?_, List.mem_map_of_mem⟩
  obtain ⟨s, hs, hkey⟩ := List.mem_map.1 hkey
  have hst := (mem_terminalRows.1 (List.mem_of_mem_take hs)).1
  rwa [← Table.key_inj hst hr hkey]

/-- A row that matches no branch stays. -/
theorem keeps (h : DeletesFirst branches n t deleted t') (hr : r ∈ t) (hnone : isTerminal branches r = false) : r ∈ t' := by
  refine h.mem_iff.2 ⟨hr, fun hmem => ?_⟩
  have := (mem_terminalRows.1 (List.mem_of_mem_take hmem)).2
  rw [hnone] at this
  exact Bool.false_ne_true this

/-- What is left of the terminal rows, in their order. -/
theorem terminalRows_eq (h : DeletesFirst branches n t deleted t') :
    terminalRows branches t' = (terminalRows branches t).drop n := by
  have hselect : t'.select (isTerminal branches) = (t.select (isTerminal branches)).filter
      fun r => !(((terminalRows branches t).take n).map key).contains (key r) := by
    rw [h.rows]
    exact List.filter_comm _ _ _
  rw [terminalRows, hselect, insertionSort_filter]
  · exact filter_not_take terminalRows_nodup n
  · exact fun a ha b hb => terminalRows_anti ((List.mem_insertionSort _).2 ha) ((List.mem_insertionSort _).2 hb)

/-- The first `n`, and of what is left the first `m`. -/
theorem trans {m : Nat} {deleted' : Nat} {t'' : Table key} (h : DeletesFirst branches n t deleted t')
    (h' : DeletesFirst branches m t' deleted' t'') : DeletesFirst branches (n + m) t (deleted + deleted') t'' where
  deleted := by
    rw [h.deleted, h'.deleted, h.terminalRows_eq, List.length_drop]
    omega
  rows := by
    have htake : (terminalRows branches t).take (n + m) =
        (terminalRows branches t).take n ++ (terminalRows branches t').take m := by
      rw [h.terminalRows_eq, List.take_add]
    rw [h'.rows, htake, h.rows]
    simp only [Table.delete, List.filter_filter, List.map_append, List.contains_append, Bool.not_or,
      Bool.and_comm]

theorem congr {branches' : List (CleanupBranch α)} (h : DeletesFirst branches n t deleted t')
    (heq : terminalRows branches t = terminalRows branches' t) : DeletesFirst branches' n t deleted t' :=
  ⟨heq ▸ h.deleted, heq ▸ h.rows⟩

theorem zero : DeletesFirst branches 0 t 0 t where
  deleted := (Nat.zero_min _).symm
  rows := (Table.delete_eq_self fun _ _ => rfl).symm

end DeletesFirst

end

/-! ## The loop over one table -/

end Keyforge.Operations
