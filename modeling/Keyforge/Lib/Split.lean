/-
Splitting text: at every separator, at the first one, and at every pair of separators. Cutting a
list before each of its marked elements.
-/
import Mathlib.Data.List.SplitBy
import Mathlib.Data.List.SplitOn
import Mathlib.Tactic

namespace Keyforge.Lib

/-! ## At every separator -/

/-- The pieces hold no separator. -/
theorem splitOnP_pieces {α : Type} {p : α → Bool} : ∀ (l : List α), ∀ piece ∈ l.splitOnP p, ∀ c ∈ piece, p c = false
  | [], piece, h, c, hc => by
    rw [List.splitOnP_nil, List.mem_singleton] at h
    subst h
    cases hc
  | a :: l, piece, h, c, hc => by
    rw [List.splitOnP_cons_eq_if_modifyHead] at h
    split at h
    · rcases List.mem_cons.1 h with rfl | h
      · cases hc
      · exact splitOnP_pieces l piece h c hc
    · rename_i ha
      cases hl : l.splitOnP p with
      | nil => exact absurd hl (List.splitOnP_ne_nil p l)
      | cons first rest =>
        rw [hl, List.modifyHead_cons] at h
        have ih := splitOnP_pieces (p := p) l
        rw [hl] at ih
        rcases List.mem_cons.1 h with rfl | h
        · rcases List.mem_cons.1 hc with rfl | hc
          · simpa using ha
          · exact ih first List.mem_cons_self c hc
        · exact ih piece (List.mem_cons_of_mem _ h) c hc

/-- Pieces written one after another, each behind a separator, split again. -/
theorem splitOnP_flatMap {α : Type} {p : α → Bool} {sep : α} (hsep : p sep = true) : ∀ (piece : List α) (pieces : List (List α)),
    (∀ q ∈ piece :: pieces, ∀ c ∈ q, p c = false) →
      (piece ++ pieces.flatMap (sep :: ·)).splitOnP p = piece :: pieces
  | piece, [], h => by
    rw [List.flatMap_nil, List.append_nil, List.splitOnP_eq_singleton (h piece List.mem_cons_self)]
  | piece, next :: pieces, h => by
    rw [List.flatMap_cons, List.cons_append, List.splitOnP_append_cons_of_forall_mem (h piece List.mem_cons_self) sep hsep,
      splitOnP_flatMap hsep next pieces fun q hq => h q (List.mem_cons_of_mem _ hq)]

theorem mem_intercalate {α : Type} {sep : List α} {c : α} : ∀ {pieces : List (List α)}, c ∈ sep.intercalate pieces →
    c ∈ sep ∨ ∃ piece ∈ pieces, c ∈ piece
  | [], h => absurd h List.not_mem_nil
  | [piece], h => Or.inr ⟨piece, List.mem_cons_self, by rwa [List.intercalate_singleton] at h⟩
  | piece :: next :: pieces, h => by
    rw [List.intercalate_cons_cons, List.append_assoc, List.mem_append, List.mem_append] at h
    rcases h with h | h | h
    · exact Or.inr ⟨piece, List.mem_cons_self, h⟩
    · exact Or.inl h
    · refine (mem_intercalate h).imp id ?_
      rintro ⟨piece', hpiece', hc⟩
      exact ⟨piece', List.mem_cons_of_mem _ hpiece', hc⟩

theorem mem_intercalate_of_mem {α : Type} {sep piece : List α} {c : α} : ∀ {pieces : List (List α)}, piece ∈ pieces →
    c ∈ piece → c ∈ sep.intercalate pieces
  | [_], h, hc => by
    rw [List.intercalate_singleton, ← List.mem_singleton.1 h]
    exact hc
  | _ :: next :: pieces, h, hc => by
    rw [List.intercalate_cons_cons, List.append_assoc, List.mem_append, List.mem_append]
    rcases List.mem_cons.1 h with rfl | h
    · exact Or.inl hc
    · exact Or.inr (Or.inr (mem_intercalate_of_mem h hc))

/-! ## At the first separator -/

section

variable {α : Type} [DecidableEq α] {sep : α}

/-- What stands before the first separator, and after it. -/
def cutAt (sep : α) : List α → List α × Option (List α)
  | [] => ([], none)
  | c :: text => if c = sep then ([], some text) else ((cutAt sep text).map (c :: ·) id)

theorem cutAt_append : ∀ {before : List α} (after : List α), (∀ c ∈ before, c ≠ sep) →
    cutAt sep (before ++ sep :: after) = (before, some after)
  | [], _, _ => if_pos rfl
  | c :: before, after, h => by
    rw [List.cons_append, cutAt, if_neg (h c List.mem_cons_self),
      cutAt_append after fun d hd => h d (List.mem_cons_of_mem _ hd)]
    rfl

theorem cutAt_self : ∀ {text : List α}, (∀ c ∈ text, c ≠ sep) → cutAt sep text = (text, none)
  | [], _ => rfl
  | c :: text, h => by
    rw [cutAt, if_neg (h c List.mem_cons_self), cutAt_self fun d hd => h d (List.mem_cons_of_mem _ hd)]
    rfl

/-- What stands before the first separator holds none. -/
theorem cutAt_fst : ∀ {text : List α}, ∀ c ∈ (cutAt sep text).1, c ∈ text ∧ c ≠ sep
  | [], c, h => absurd h List.not_mem_nil
  | d :: text, c, h => by
    rw [cutAt] at h
    split at h
    · exact absurd h List.not_mem_nil
    · rename_i hd
      rcases List.mem_cons.1 h with rfl | h
      · exact ⟨List.mem_cons_self, hd⟩
      · exact ⟨List.mem_cons_of_mem _ (cutAt_fst c h).1, (cutAt_fst c h).2⟩

theorem cutAt_snd : ∀ {text after : List α}, (cutAt sep text).2 = some after → ∀ c ∈ after, c ∈ text
  | [], _, h, _, _ => by cases h
  | d :: text, after, h, c, hc => by
    rw [cutAt] at h
    split at h
    · cases h
      exact List.mem_cons_of_mem _ hc
    · exact List.mem_cons_of_mem _ (cutAt_snd h c hc)

/-! ## At pairs of separators -/

/-- The text split at two separators in a row, from the left. -/
def splitPairs (sep : α) : List α → List (List α)
  | [] => [[]]
  | [c] => [[c]]
  | c :: d :: text => if c = sep ∧ d = sep then [] :: splitPairs sep text else (splitPairs sep (d :: text)).modifyHead (c :: ·)

theorem splitPairs_ne_nil : ∀ text : List α, splitPairs sep text ≠ []
  | [] => List.cons_ne_nil _ _
  | [_] => List.cons_ne_nil _ _
  | c :: d :: text => by
    rw [splitPairs]
    split
    · exact List.cons_ne_nil _ _
    · intro h
      have hlength := congrArg List.length h
      rw [List.length_modifyHead] at hlength
      exact splitPairs_ne_nil (d :: text) (List.eq_nil_of_length_eq_zero hlength)

theorem modifyHead_modifyHead {β : Type} (f g : β → β) : ∀ l : List β, (l.modifyHead f).modifyHead g = l.modifyHead (g ∘ f)
  | [] => rfl
  | _ :: _ => rfl

/-- A character that is no separator stays with what follows it. -/
theorem splitPairs_cons_of_ne {c : α} (h : c ≠ sep) : ∀ text : List α,
    splitPairs sep (c :: text) = (splitPairs sep text).modifyHead (c :: ·)
  | [] => rfl
  | d :: text => by rw [splitPairs, if_neg fun hc => h hc.1]

theorem splitPairs_append {piece : List α} (h : ∀ c ∈ piece, c ≠ sep) (text : List α) :
    splitPairs sep (piece ++ text) = (splitPairs sep text).modifyHead (piece ++ ·) := by
  induction piece with
  | nil => cases hs : splitPairs sep text <;> simp [hs]
  | cons c piece ih =>
    obtain ⟨hc, hrest⟩ := List.forall_mem_cons.1 h
    rw [List.cons_append, splitPairs_cons_of_ne hc, ih hrest, modifyHead_modifyHead]
    rfl

/-- Pieces with one separator between them hold no pair. -/
theorem splitPairs_intercalate {text : List α} : ∀ {pieces : List (List α)},
    (∀ piece ∈ pieces, piece ≠ [] ∧ ∀ c ∈ piece, c ≠ sep) →
      splitPairs sep ([sep].intercalate pieces ++ text) = (splitPairs sep text).modifyHead ([sep].intercalate pieces ++ ·)
  | [], _ => by cases hs : splitPairs sep text <;> simp [hs]
  | [piece], h => by
    obtain ⟨-, hfree⟩ := h piece List.mem_cons_self
    simpa using splitPairs_append hfree text
  | piece :: next :: pieces, h => by
    obtain ⟨⟨-, hfree⟩, hrest⟩ := List.forall_mem_cons.1 h
    have ih := @splitPairs_intercalate text (next :: pieces) hrest
    obtain ⟨⟨hne, hnext⟩, -⟩ := List.forall_mem_cons.1 hrest
    obtain ⟨d, tail, rfl⟩ := List.exists_cons_of_ne_nil hne
    have hhead : ∃ rest, [sep].intercalate ((d :: tail) :: pieces) ++ text = d :: rest := by
      cases pieces with
      | nil => exact ⟨_, by simp; rfl⟩
      | cons q pieces => exact ⟨_, by rw [List.intercalate_cons_cons]; rfl⟩
    have hone : splitPairs sep (sep :: ([sep].intercalate ((d :: tail) :: pieces) ++ text)) =
        (splitPairs sep ([sep].intercalate ((d :: tail) :: pieces) ++ text)).modifyHead (sep :: ·) := by
      obtain ⟨rest, hrest⟩ := hhead
      rw [hrest, splitPairs, if_neg fun hc => hnext d List.mem_cons_self hc.2]
    rw [List.intercalate_cons_cons, List.append_assoc, List.append_assoc, splitPairs_append hfree, List.singleton_append, hone,
      ih, modifyHead_modifyHead, modifyHead_modifyHead]
    congr 1
    funext rest
    simp

/-- The pieces with the pairs between them again. -/
theorem intercalate_splitPairs : ∀ text : List α, [sep, sep].intercalate (splitPairs sep text) = text
  | [] => rfl
  | [_] => rfl
  | c :: d :: text => by
    rw [splitPairs]
    split
    · rename_i h
      have ih := intercalate_splitPairs text
      cases hs : splitPairs sep text with
      | nil => exact absurd hs (splitPairs_ne_nil text)
      | cons first rest =>
        rw [hs] at ih
        rw [List.intercalate_cons_cons, ih, h.1, h.2]
        rfl
    · have ih := intercalate_splitPairs (d :: text)
      cases hs : splitPairs sep (d :: text) with
      | nil => exact absurd hs (splitPairs_ne_nil _)
      | cons first rest =>
        rw [hs] at ih
        rw [List.modifyHead_cons]
        cases rest with
        | nil =>
          rw [List.intercalate_singleton] at ih ⊢
          rw [ih]
        | cons second rest =>
          rw [List.intercalate_cons_cons] at ih ⊢
          rw [← ih, List.cons_append, List.cons_append]

end

/-! ## Before every marked element -/

section Marked

variable {α : Type} {mark : α → Bool}

/-- Each piece after the first starts with a marked element, and so does the first when the list
does. -/
theorem head_of_isChain : ∀ {pieces : List (List α)},
    pieces.IsChain (fun a b => ∃ ha hb, (fun _ y => !mark y) (a.getLast ha) (b.head hb) = false) →
    (∀ piece ∈ pieces.head?, ∃ h, mark (piece.head h) = true) → ∀ piece ∈ pieces, ∃ h, mark (piece.head h) = true
  | [], _, _ => fun _ h => absurd h List.not_mem_nil
  | [a], _, hfirst => fun piece hpiece => List.mem_singleton.1 hpiece ▸ hfirst a rfl
  | a :: b :: pieces, hchain, hfirst => by
    obtain ⟨⟨_, hb, hab⟩, hrest⟩ := List.isChain_cons_cons.1 hchain
    refine List.forall_mem_cons.2 ⟨hfirst a rfl, head_of_isChain hrest fun piece hpiece => ?_⟩
    obtain rfl : b = piece := by simpa using hpiece
    exact ⟨hb, by simpa using hab⟩

theorem tail_of_isChain {p : α → Prop} : ∀ {a : α} {l : List α}, (a :: l).IsChain (fun _ y => p y) → ∀ b ∈ l, p b
  | _, [], _ => fun _ h => absurd h List.not_mem_nil
  | _, b :: l, h => by
    obtain ⟨hb, hrest⟩ := List.isChain_cons_cons.1 h
    exact List.forall_mem_cons.2 ⟨hb, tail_of_isChain hrest⟩

theorem head_of_mem_splitBy {l piece : List α} (hfirst : ∀ a ∈ l.head?, mark a = true)
    (h : piece ∈ l.splitBy fun _ y => !mark y) : ∃ h, mark (piece.head h) = true := by
  have hl : l ≠ [] := by
    rintro rfl
    simp at h
  refine head_of_isChain (List.isChain_getLast_head_splitBy (fun _ y => !mark y) l) ?_ piece h
  intro first hpiece
  have hne := List.splitBy_ne_nil (r := fun _ y => !mark y).2 hl
  rw [List.head?_eq_some_head hne, Option.mem_def, Option.some.injEq] at hpiece
  subst hpiece
  refine ⟨List.ne_nil_of_mem_splitBy (List.head_mem hne), ?_⟩
  rw [List.head_head_splitBy (fun _ y => !mark y) hl]
  exact hfirst _ (List.head?_eq_some_head hl)

/-- A piece is a marked element and the unmarked ones that follow it. -/
theorem of_mem_splitBy {l piece : List α} (hfirst : ∀ a ∈ l.head?, mark a = true)
    (h : piece ∈ l.splitBy fun _ y => !mark y) :
    ∃ before a rest after, piece = a :: rest ∧ l = before ++ a :: (rest ++ after) ∧ mark a = true ∧
      ∀ b ∈ rest, mark b = false := by
  obtain ⟨hne, hmark⟩ := head_of_mem_splitBy hfirst h
  obtain ⟨before, after, hpieces⟩ := List.append_of_mem h
  cases piece with
  | nil => exact absurd rfl hne
  | cons a rest =>
    refine ⟨before.flatten, a, rest, after.flatten, rfl, ?_, hmark, fun b hb => ?_⟩
    · rw [← List.flatten_splitBy (fun _ y => !mark y) l, hpieces]
      simp
    · have hchain : (a :: rest).IsChain fun _ y => (!mark y) = true := List.isChain_of_mem_splitBy h
      simpa using tail_of_isChain hchain b hb

end Marked

end Keyforge.Lib
