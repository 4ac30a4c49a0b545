/-
The union of two scope strings as the consent statements compute it in SQL (`db/queries/consents.ts`,
`db/queries/devices.ts`): each string is spliced into the text of a JSON array, the arrays' elements are
grouped by value, and the groups, ordered by where their value first stands, are joined again. SQLite
also reads forms of JSON5, which no scope string brings about.
-/
import Keyforge.Lib.JsonText
import Keyforge.OAuth.Scopes

namespace Keyforge.Db

open Lib OAuth

/-! ## The statement -/

/-- `'["' || replace(scope, ' ', '","') || '"]'`. -/
def splicedScopes (scope : String) : String :=
  "[\"" ++ String.ofList (scope.toList.flatMap fun c => if c = ' ' then "\",\"".toList else [c]) ++ "\"]"

/-- One row of the two `json_each`, or of a group of them. -/
structure ScopeRow where
  value : String
  source : Nat
  position : Nat
  deriving DecidableEq, Repr

/-- `SELECT value, source, key FROM json_each(…)`; malformed text has none. -/
def scopeRows (source : Nat) (scope : String) : Option (List ScopeRow) :=
  (Json.parse (splicedScopes scope)).map fun json =>
    json.each.zipIdx.filterMap fun (element, position) => element.castText.map fun value => ⟨value, source, position⟩

/-- `GROUP BY value`, in the order of the values. -/
def groupScopes (rows : List ScopeRow) : List ScopeRow :=
  ((rows.map (·.value)).eraseDups.insertionSort (· ≤ ·)).map fun value =>
    let group := rows.filter (·.value = value)
    ⟨value, (group.map (·.source)).min?.getD 0, (group.map (·.position)).min?.getD 0⟩

/-- `ORDER BY source, position`. -/
def orderScopes (rows : List ScopeRow) : List ScopeRow :=
  rows.insertionSort fun a b => a.source < b.source ∨ a.source = b.source ∧ a.position ≤ b.position

/-- The `scope` column after a conflict; malformed JSON aborts the statement. -/
def mergeScopes (stored added : String) : Option String :=
  (scopeRows 0 stored).bind fun kept => (scopeRows 1 added).map fun given =>
    serializeScopes ((orderScopes (groupScopes (kept ++ given))).map (·.value))

/-! ## What it computes -/

/-- A scope token, or the empty string. -/
def IsPiece (s : String) : Prop :=
  s = "" ∨ SCOPE_TOKEN s = true

section

variable {s : String} {pieces : List String}

theorem IsPiece.chars (h : IsPiece s) {c : Char} (hc : c ∈ s.toList) :
    c.toNat = 0x21 ∨ (0x23 ≤ c.toNat ∧ c.toNat ≤ 0x5B) ∨ (0x5D ≤ c.toNat ∧ c.toNat ≤ 0x7E) := by
  rcases h with rfl | h
  · cases hc
  · simp only [SCOPE_TOKEN, Bool.and_eq_true, decide_eq_true_eq, List.all_eq_true, Bool.or_eq_true] at h
    have := h.2 c hc
    omega

theorem IsPiece.notWhite (h : IsPiece s) {c : Char} (hc : c ∈ s.toList) : isWhiteSpace c = false := by
  rcases h with rfl | h
  · cases hc
  · exact (isWord_of_scopeToken h).2 c hc

/-- The characters of a scope token stand for themselves in JSON. -/
theorem IsPiece.escape (h : IsPiece s) : ∀ c ∈ s.toList, Json.escape c = String.singleton c := by
  intro c hc
  have hrange := h.chars hc
  have hne : ∀ d : Char, d.toNat < 0x21 ∨ d.toNat = 0x22 ∨ d.toNat = 0x5c → c ≠ d := by
    rintro d hd rfl
    omega
  rw [Json.escape, if_neg (hne _ (by decide)), if_neg (hne _ (by decide)), if_neg (hne _ (by decide)),
    if_neg (hne _ (by decide)), if_neg (hne _ (by decide)), if_neg (hne _ (by decide)), if_neg (hne _ (by decide)),
    if_neg (by omega)]

theorem IsPiece.quote (h : IsPiece s) : Json.quote s = "\"" ++ s ++ "\"" := by
  have hmap : s.toList.map Json.escape = s.toList.map String.singleton := List.map_congr_left h.escape
  have hjoin : String.join (s.toList.map String.singleton) = s := by
    apply String.toList_injective
    rw [String.toList_join, List.flatMap_map]
    simp
  rw [Json.quote, hmap, hjoin]

theorem IsPiece.noSpace (h : IsPiece s) : ∀ c ∈ s.toList, c ≠ ' ' := by
  rintro c hc rfl
  have hrange := h.chars hc
  revert hrange
  decide

theorem IsPiece.splice (h : IsPiece s) :
    s.toList.flatMap (fun c => if c = ' ' then "\",\"".toList else [c]) = s.toList := by
  have hsame : ∀ l : List Char, (∀ c ∈ l, c ≠ ' ') → l.flatMap (fun c => if c = ' ' then "\",\"".toList else [c]) = l := by
    intro l hl
    induction l with
    | nil => rfl
    | cons c l ih =>
      rw [List.flatMap_cons, if_neg (hl c List.mem_cons_self), ih fun d hd => hl d (List.mem_cons_of_mem _ hd)]
      rfl
  exact hsame s.toList h.noSpace

theorem toList_serialize_cons (s t : String) (pieces : List String) :
    (serializeScopes (s :: t :: pieces)).toList = s.toList ++ ' ' :: (serializeScopes (t :: pieces)).toList := by
  simp only [serializeScopes, List.map_cons, List.intercalate_cons_cons, String.toList_ofList, List.append_assoc,
    List.singleton_append]

/-- Replacing the spaces of joined pieces separates them anew. -/
theorem splice_serialize : ∀ {pieces : List String}, (∀ s ∈ pieces, IsPiece s) →
    (serializeScopes pieces).toList.flatMap (fun c => if c = ' ' then "\",\"".toList else [c]) =
      ("\",\"".intercalate pieces).toList
  | [], _ => rfl
  | [s], h => by
    rw [String.intercalate_singleton]
    have hself : serializeScopes [s] = s := by simp [serializeScopes]
    rw [hself, (h s List.mem_cons_self).splice]
  | s :: t :: pieces, h => by
    have ih := splice_serialize fun u hu => h u (List.mem_cons_of_mem _ hu)
    rw [toList_serialize_cons, List.flatMap_append, List.flatMap_cons, ih, (h s List.mem_cons_self).splice,
      String.intercalate_cons_cons, String.toList_append, String.toList_append, List.append_assoc]
    rfl

theorem quoted_pieces : ∀ {pieces : List String}, pieces ≠ [] → (∀ s ∈ pieces, IsPiece s) →
    ",".intercalate (Json.renderElements (pieces.map Json.str)) = "\"" ++ "\",\"".intercalate pieces ++ "\""
  | [], h, _ => absurd rfl h
  | [s], _, h => by
    rw [String.intercalate_singleton]
    exact (h s List.mem_cons_self).quote
  | s :: t :: pieces, _, h => by
    have ih := quoted_pieces (List.cons_ne_nil t pieces) fun u hu => h u (List.mem_cons_of_mem _ hu)
    have hne : Json.renderElements ((t :: pieces).map Json.str) ≠ [] := Json.renderElements_ne_nil _ _
    rw [List.map_cons, Json.renderElements, String.intercalate_cons_of_ne_nil hne, ih, Json.render, (h s List.mem_cons_self).quote, String.intercalate_cons_cons]
    apply String.toList_injective
    simp only [String.toList_append, List.append_assoc]
    rfl

/-- The spliced text of joined pieces is the array of the pieces. -/
theorem spliced_serialize (hne : pieces ≠ []) (h : ∀ s ∈ pieces, IsPiece s) :
    splicedScopes (serializeScopes pieces) = (Json.arr (pieces.map Json.str)).render := by
  rw [splicedScopes, splice_serialize h, String.ofList_toList, Json.render, quoted_pieces hne h]
  apply String.toList_injective
  simp only [String.toList_append, List.append_assoc]
  rfl

/-- The rows of joined pieces: every piece with its position. -/
theorem scopeRows_serialize (source : Nat) (hne : pieces ≠ []) (h : ∀ s ∈ pieces, IsPiece s) :
    scopeRows source (serializeScopes pieces) =
      some (pieces.zipIdx.map fun (value, position) => ⟨value, source, position⟩) := by
  rw [scopeRows, spliced_serialize hne h, Json.parse_render, Option.map_some, Json.each]
  congr 1
  rw [List.zipIdx_map, List.filterMap_map]
  exact List.filterMap_eq_map_iff_forall_eq_some.2 fun x _ => rfl

end

/-- Grouping keeps the values. -/
theorem mem_groupScopes {rows : List ScopeRow} {value : String} :
    value ∈ (groupScopes rows).map (·.value) ↔ value ∈ rows.map (·.value) := by
  rw [groupScopes, List.map_map]
  show value ∈ List.map id _ ↔ _
  rw [List.map_id, List.mem_insertionSort, List.mem_eraseDups]

theorem mem_orderScopes {rows : List ScopeRow} {value : String} :
    value ∈ (orderScopes rows).map (·.value) ↔ value ∈ rows.map (·.value) :=
  ((List.perm_insertionSort _ rows).map _).mem_iff

/-- The merge of joined pieces joins pieces, and a piece is in it if it is in one of the two. -/
theorem mergeScopes_serialize {kept given : List String} (hkept : kept ≠ []) (hgiven : given ≠ [])
    (hk : ∀ s ∈ kept, IsPiece s) (hg : ∀ s ∈ given, IsPiece s) :
    ∃ merged, mergeScopes (serializeScopes kept) (serializeScopes given) = some (serializeScopes merged) ∧
      ∀ s, s ∈ merged ↔ s ∈ kept ∨ s ∈ given := by
  refine ⟨_, by rw [mergeScopes, scopeRows_serialize 0 hkept hk, scopeRows_serialize 1 hgiven hg]; rfl, fun s => ?_⟩
  rw [mem_orderScopes, mem_groupScopes, List.map_append, List.map_map, List.map_map, List.mem_append]
  have hvalues : ∀ (source : Nat) (pieces : List String), (pieces.zipIdx.map
      ((fun row : ScopeRow => row.value) ∘ fun x : String × Nat => ⟨x.1, source, x.2⟩)) = pieces := fun _ pieces =>
    List.zipIdx_map_fst 0 pieces
  exact Iff.or (by rw [hvalues 0 kept]) (by rw [hvalues 1 given])

/-- The words of joined pieces are the pieces that are not empty. -/
theorem mem_parse_serialize {pieces : List String} (h : ∀ s ∈ pieces, IsPiece s) {s : String} :
    s ∈ parseScopeString (some (serializeScopes pieces)) ↔ s ∈ pieces ∧ s ≠ "" := by
  cases hpieces : pieces with
  | nil =>
    rw [show parseScopeString (some (serializeScopes [])) = [] by decide]
    simp
  | cons first rest =>
    have hword : ∀ l ∈ pieces.map String.toList, ∀ c ∈ l, isWhiteSpace c = false := by
      intro l hl c hc
      obtain ⟨t, ht, rfl⟩ := List.mem_map.1 hl
      exact (h t ht).notWhite hc
    have hne : pieces.map String.toList ≠ [] := by
      rw [hpieces]
      exact List.cons_ne_nil _ _
    rw [← hpieces]
    simp only [parseScopeString, serializeScopes, String.toList_ofList]
    rw [splitOnP_intercalate (by decide) hword hne]
    simp only [List.mem_map, List.mem_filter, decide_eq_true_eq]
    constructor
    · rintro ⟨_, ⟨⟨t, ht, rfl⟩, hempty⟩, rfl⟩
      rw [String.ofList_toList]
      exact ⟨ht, fun he => hempty (by rw [he]; rfl)⟩
    · rintro ⟨hs, hempty⟩
      exact ⟨s.toList, ⟨⟨s, hs, rfl⟩, fun he => hempty (String.toList_eq_nil_iff.1 he)⟩, String.ofList_toList⟩

end Keyforge.Db
