/-
Scope strings (`oauth/scopes.ts`, `oauth/scope-policy.ts`): a scope string holds scope words
separated by white space. Serializing words and parsing them again gives the words back.
-/
import Keyforge.Lib.Split
import Keyforge.Lib.Text
import Keyforge.World

namespace Keyforge.OAuth

open Lib

/-! ## Parsing -/

/-- `raw.trim().split(/\s+/).filter(…)`. The pieces inside a run of white space and at the trimmed
ends are empty, and the filter drops them. -/
def parseScopeString (raw : Option String) : List String :=
  match raw with
  | none => []
  | some raw => ((raw.toList.splitOnP isWhiteSpace).filter (· ≠ [])).map String.ofList

/-- `scopes.join(" ")`. -/
def serializeScopes (scopes : List String) : String :=
  String.ofList ([' '].intercalate (scopes.map String.toList))

/-- A non-empty text without white space. -/
def IsWord (s : String) : Prop :=
  s ≠ "" ∧ ∀ c ∈ s.toList, isWhiteSpace c = false

/-- What parsing returns are words. -/
theorem isWord_of_mem_parse {raw : Option String} {s : String} (h : s ∈ parseScopeString raw) : IsWord s := by
  cases raw with
  | none => cases h
  | some raw =>
    obtain ⟨piece, hp, rfl⟩ := List.mem_map.1 h
    obtain ⟨hp, hne⟩ := List.mem_filter.1 hp
    refine ⟨fun he => ?_, fun c hc => splitOnP_pieces _ piece hp c (by simpa using hc)⟩
    have : piece = [] := by simpa using congrArg String.toList he
    simp [this] at hne

theorem splitOnP_intercalate {α : Type} {p : α → Bool} {sep : α} (hsep : p sep = true) : ∀ {ls : List (List α)},
    (∀ l ∈ ls, ∀ c ∈ l, p c = false) → ls ≠ [] → ([sep].intercalate ls).splitOnP p = ls
  | [], _, h => absurd rfl h
  | [l], hl, _ => by
    simpa [List.intercalate] using List.splitOnP_eq_singleton (hl l List.mem_cons_self)
  | l :: l' :: ls, hl, _ => by
    have ih := splitOnP_intercalate hsep (fun l hm => hl l (List.mem_cons_of_mem _ hm)) (List.cons_ne_nil l' ls)
    rw [List.intercalate_cons_cons, List.append_assoc, List.singleton_append,
      List.splitOnP_append_cons_of_forall_mem (hl l List.mem_cons_self) sep hsep, ih]

/-- Words survive serialization. -/
theorem parse_serialize {scopes : List String} (h : ∀ s ∈ scopes, IsWord s) :
    parseScopeString (some (serializeScopes scopes)) = scopes := by
  cases scopes with
  | nil => decide
  | cons s scopes =>
    have hw : ∀ l ∈ (s :: scopes).map String.toList, ∀ c ∈ l, isWhiteSpace c = false := by
      intro l hl c hc
      obtain ⟨t, ht, rfl⟩ := List.mem_map.1 hl
      exact (h t ht).2 c hc
    have hne : ∀ l ∈ (s :: scopes).map String.toList, decide (l ≠ []) = true := by
      intro l hl
      obtain ⟨t, ht, rfl⟩ := List.mem_map.1 hl
      simpa using (h t ht).1
    simp only [parseScopeString, serializeScopes, String.toList_ofList]
    rw [splitOnP_intercalate (by decide) hw (by simp), List.filter_eq_self.2 hne, List.map_map]
    simp

/-! ## Policy -/

/-- Scopes that permission groups refine; identity and session scopes are covered by the
application and resource gates. -/
def isPermissionGroupControlledScope (scope : String) : Bool :=
  !USER_ONLY_SCOPES.contains scope

def OAUTH_SCOPE_MAX_COUNT : Nat := 64

def OAUTH_SCOPE_MAX_BYTES : Nat := 128

def SCOPE_TOKEN (scope : String) : Bool :=
  scope ≠ "" && scope.toList.all fun c =>
    c.toNat = 0x21 || (0x23 ≤ c.toNat && c.toNat ≤ 0x5B) || (0x5D ≤ c.toNat && c.toNat ≤ 0x7E)

inductive ScopeCatalogIssue where
  | tooMany
  | duplicate
  | invalid
  deriving DecidableEq, Repr

/-- Validate RFC 6749 scope-token syntax and operational size bounds. -/
def validateScopeCatalog (scopes : List String) : Except ScopeCatalogIssue (List String) :=
  if scopes.length > OAUTH_SCOPE_MAX_COUNT then .error .tooMany
  else if scopes.eraseDups.length ≠ scopes.length then .error .duplicate
  else if scopes.any fun scope =>
      !SCOPE_TOKEN scope || scope.utf8ByteSize = 0 || scope.utf8ByteSize > OAUTH_SCOPE_MAX_BYTES then
    .error .invalid
  else .ok scopes

theorem scopeToken_of_catalog {scopes accepted : List String} (h : validateScopeCatalog scopes = .ok accepted) :
    ∀ scope ∈ scopes, SCOPE_TOKEN scope = true := by
  unfold validateScopeCatalog at h
  split at h
  · cases h
  split at h
  · cases h
  split at h
  · cases h
  rename_i hvalid
  intro scope hscope
  by_contra htoken
  refine hvalid (List.any_eq_true.2 ⟨scope, hscope, ?_⟩)
  simp only [Bool.or_eq_true, Bool.not_eq_true', Bool.not_eq_true] at htoken ⊢
  exact Or.inl (Or.inl htoken)

/-- The requested scopes, if every one is within `allowed`. -/
def validateRequestedScopes (requested allowed : List String) : App (List String) := do
  let disallowed := requested.filter fun scope => !allowed.contains scope
  require disallowed.isEmpty (.oauth .invalidScope "One or more requested scopes are not permitted"
    ("disallowed scopes: " ++ serializeScopes disallowed))
  pure requested

theorem isWord_of_scopeToken {scope : String} (h : SCOPE_TOKEN scope = true) : IsWord scope := by
  simp only [SCOPE_TOKEN, Bool.and_eq_true, decide_eq_true_eq, List.all_eq_true, Bool.or_eq_true] at h
  refine ⟨h.1, fun c hc => ?_⟩
  have := h.2 c hc
  simp only [isWhiteSpace, Bool.or_eq_false_iff, List.contains_eq_mem, decide_eq_false_iff_not, List.mem_cons,
    List.not_mem_nil, or_false, Bool.and_eq_false_iff]
  omega

end Keyforge.OAuth
