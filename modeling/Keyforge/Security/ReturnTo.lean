/-
Where the browser is sent back to (`security/return-to.ts`). The checks are made on the text as it was given,
the result is its path, query and fragment after URL parsing. Parsing takes dot segments out of the path, and
what is left can begin with two slashes, which the checks on the text do not see.
-/
import Keyforge.Lib.Url

namespace Keyforge.Security

open Lib

/-! ## The function -/

/-- The texts that are turned away as they are given. -/
def refusedReturnTo (raw : String) : Bool :=
  !(['/'].isPrefixOf raw.toList) || ['/', '/'].isPrefixOf raw.toList || raw.toList.contains '\\' ||
    raw.toList.any fun character => character.toNat ≤ 31 || character.toNat = 127

/-- `safeLocalPath`. A text that passes the checks begins with one slash, so it parses with the origin of the
base and parsing does not throw. -/
def safeLocalPath (raw : Option String) : String :=
  match raw with
  | none => "/"
  | some raw =>
    if refusedReturnTo raw then "/"
    else match pathAbsolute raw.toList with
      | some parsed => String.ofList (parsed.pathname ++ parsed.search ++ parsed.hash)
      | none => "/"

/-! ## What a local path is -/

/-- A local path: one leading slash, so that it resolves with the base's origin, and nothing that
`safeLocalPath` would still change. -/
structure LocalPath (path : String) : Prop where
  slash : ∃ text, path.toList = '/' :: text
  noAuthority : ∀ text, path.toList ≠ '/' :: '/' :: text
  noBackslash : ∀ text, path.toList ≠ '/' :: '\\' :: text
  sameOrigin : (pathAbsolute path.toList).isSome = true
  fixed : safeLocalPath (some path) = path

/-- The segments of the path as they stand in the text, after its leading slash. -/
def pathSegments (raw : String) : List (List Char) :=
  (cutReference (stripped raw.toList).tail).1

/-- A text that passes the checks although an empty segment, not the last one, comes out first: the segments
before it cancel out, and those after it never go back past it. -/
def HidesAuthority (raw : String) : Prop :=
  refusedReturnTo raw = false ∧ ∃ before after, pathSegments raw = before ++ [] :: after ∧ after ≠ [] ∧ Opens before after

section

variable {raw : String}

theorem refusedReturnTo_eq_false : refusedReturnTo raw = false ↔ (∃ text, raw.toList = '/' :: text ∧ text.head? ≠ some '/') ∧
    (∀ c ∈ raw.toList, c ≠ '\\') ∧ ∀ c ∈ raw.toList, 31 < c.toNat ∧ c.toNat ≠ 127 := by
  simp only [refusedReturnTo, Bool.or_eq_false_iff, Bool.not_eq_false', List.any_eq_false, Bool.or_eq_true,
    decide_eq_true_eq, not_or, Nat.not_le, List.contains_eq_mem, decide_eq_false_iff_not, and_assoc]
  rw [← and_assoc, List.isPrefixOf_iff_prefix, ← Bool.not_eq_true, List.isPrefixOf_iff_prefix]
  refine and_congr ?_ (and_congr ?_ Iff.rfl)
  · constructor
    · rintro ⟨⟨text, htext⟩, hsecond⟩
      refine ⟨text, htext.symm, fun hhead => hsecond ?_⟩
      rw [← htext]
      exact List.cons_prefix_cons.2 ⟨rfl, List.singleton_prefix_iff_head?_eq_some.2 hhead⟩
    · rintro ⟨text, htext, hhead⟩
      rw [htext]
      refine ⟨List.cons_prefix_cons.2 ⟨rfl, List.nil_prefix⟩, fun h => hhead ?_⟩
      exact List.singleton_prefix_iff_head?_eq_some.1 (List.cons_prefix_cons.1 h).2
  · exact ⟨fun h c hc he => h (he ▸ hc), fun h hmem => h _ hmem rfl⟩

/-- A text that passes the checks parses. -/
theorem exists_parsed (h : refusedReturnTo raw = false) : ∃ text, stripped raw.toList = '/' :: text ∧
    text.head?.any isPathSeparator = false ∧ ∀ c ∈ text, c ∈ raw.toList := by
  obtain ⟨⟨text, hraw, hhead⟩, hbackslash, hcontrol⟩ := refusedReturnTo_eq_false.1 h
  rw [hraw] at hbackslash hcontrol ⊢
  -- only the end is cut off, and the slash stays
  obtain ⟨kept, hkept, hinitial⟩ : ∃ kept, ('/' :: text).rdropWhile isC0ControlOrSpace = '/' :: kept ∧ kept <+: text := by
    have hinitial := List.rdropWhile_prefix isC0ControlOrSpace ('/' :: text)
    cases hdrop : ('/' :: text).rdropWhile isC0ControlOrSpace with
    | nil => exact absurd (List.rdropWhile_eq_nil_iff.1 hdrop '/' List.mem_cons_self) (by decide)
    | cons c kept =>
      rw [hdrop] at hinitial
      have hcons := List.cons_prefix_cons.1 hinitial
      exact ⟨kept, congrArg (· :: kept) hcons.1, hcons.2⟩
  have hmem : ∀ c ∈ kept, c ∈ text := fun c hc => hinitial.subset hc
  refine ⟨kept, ?_, ?_, fun c hc => List.mem_cons_of_mem _ (hmem c hc)⟩
  · rw [stripped, List.dropWhile_cons_of_neg (by decide), hkept, List.filter_eq_self]
    intro c hc
    have hc : 31 < c.toNat := (hcontrol c (List.cons_subset_cons '/' hinitial.subset hc)).1
    simp only [isTabOrNewline, Bool.not_eq_true', Bool.or_eq_false_iff, decide_eq_false_iff_not]
    refine ⟨⟨?_, ?_⟩, ?_⟩ <;> rintro rfl <;> revert hc <;> decide
  · cases kept with
    | nil => rfl
    | cons c kept =>
      have hslash : c ≠ '/' := by
        rintro rfl
        obtain ⟨rest, rfl⟩ := hinitial
        exact hhead rfl
      have hc : c ≠ '\\' := hbackslash c (List.mem_cons_of_mem _ (hmem c List.mem_cons_self))
      simp [isPathSeparator, hslash, hc]

/-- What a text that passes the checks parses to. -/
def parsedReturnTo (raw : String) : LocalUrl :=
  let (segments, query, fragment) := cutReference (stripped raw.toList).tail
  ⟨parsePath segments, query.map (percentEncode specialQuerySet), fragment.map (percentEncode fragmentSet)⟩

theorem pathAbsolute_returnTo (h : refusedReturnTo raw = false) : pathAbsolute raw.toList = some (parsedReturnTo raw) := by
  obtain ⟨text, hstripped, hhead, -⟩ := exists_parsed h
  rw [pathAbsolute_eq_some hstripped hhead, parsedReturnTo, hstripped]
  rfl

theorem safeLocalPath_eq (h : refusedReturnTo raw = false) :
    safeLocalPath (some raw) = String.ofList (parsedReturnTo raw).href := by
  rw [safeLocalPath, if_neg (by simp [h]), pathAbsolute_returnTo h]
  rfl

/-- The result looks like an authority exactly when the text hides one. -/
theorem looksAuthority_iff (h : refusedReturnTo raw = false) : (parsedReturnTo raw).LooksAuthority ↔ HidesAuthority raw := by
  rw [HidesAuthority, and_iff_right h]
  exact parsePath_looksAuthority

/-- No backslash is written where there was none. -/
theorem href_noBackslash (h : refusedReturnTo raw = false) : ∀ c ∈ (parsedReturnTo raw).href, c ≠ '\\' := by
  obtain ⟨text, hstripped, hhead, hmem⟩ := exists_parsed h
  have hraw := (refusedReturnTo_eq_false.1 h).2.1
  have hwf := wellFormed_of_pathAbsolute (pathAbsolute_returnTo h)
  -- encoding adds `%` and hexadecimal digits only
  have hencoded : ∀ {set : Char → Bool} {part : List Char}, (∀ c ∈ part, c ∈ text) → ∀ c ∈ percentEncode set part, c ≠ '\\' := by
    intro set part hpart c hc
    rcases mem_percentEncode hc with ⟨hc, -⟩ | rfl | hdigit
    · exact hraw c (hmem c (hpart c hc))
    · decide
    · rintro rfl
      exact absurd hdigit (by decide)
  have htext : (stripped raw.toList).tail = text := by rw [hstripped]; rfl
  intro c hc
  rcases List.mem_append.1 hc with hc | hc
  · rcases List.mem_append.1 hc with hc | hc
    -- a path segment: a backslash would have ended it
    · obtain ⟨segment, hs, hc⟩ := List.mem_flatMap.1 hc
      rcases List.mem_cons.1 hc with rfl | hc
      · decide
      · rintro rfl
        exact absurd ((hwf.segments segment hs).2 _ hc).2 (by decide)
    · rw [LocalUrl.search_eq] at hc
      -- the query
      cases hquery : (parsedReturnTo raw).query.filter (· ≠ []) with
      | none =>
        rw [hquery] at hc
        cases hc
      | some query =>
        rw [hquery] at hc
        obtain ⟨part, hpart, rfl⟩ := Option.map_eq_some_iff.1 (Option.filter_eq_some_iff.1 hquery).1
        rcases List.mem_cons.1 hc with rfl | hc
        · decide
        · refine hencoded (fun d hd => ?_) c hc
          rw [htext] at hpart
          exact (cutAt_fst d (cutAt_snd hpart d hd)).1
  · rw [LocalUrl.hash_eq] at hc
    -- the fragment
    cases hfragment : (parsedReturnTo raw).fragment.filter (· ≠ []) with
    | none =>
      rw [hfragment] at hc
      cases hc
    | some fragment =>
      rw [hfragment] at hc
      obtain ⟨part, hpart, rfl⟩ := Option.map_eq_some_iff.1 (Option.filter_eq_some_iff.1 hfragment).1
      rcases List.mem_cons.1 hc with rfl | hc
      · decide
      · refine hencoded (fun d hd => ?_) c hc
        rw [htext] at hpart
        exact cutAt_snd hpart d hd

/-- What is written out passes the checks, unless it looks like an authority. -/
theorem refusedReturnTo_href (h : refusedReturnTo raw = false) (hauthority : ¬(parsedReturnTo raw).LooksAuthority) :
    refusedReturnTo (String.ofList (parsedReturnTo raw).href) = false := by
  have hwf := wellFormed_of_pathAbsolute (pathAbsolute_returnTo h)
  obtain ⟨first, rest, hpath⟩ := List.exists_cons_of_ne_nil hwf.path
  have hhead := hwf.head hauthority hpath
  rw [refusedReturnTo_eq_false, String.toList_ofList]
  refine ⟨⟨_, LocalUrl.href_eq hpath, fun hslash => ?_⟩, href_noBackslash h, fun c hc => ?_⟩
  · rw [hslash] at hhead
    cases hhead
  · obtain ⟨hlow, hhigh⟩ := hwf.visible c hc
    exact ⟨by omega, by omega⟩

theorem localPath_root : LocalPath "/" where
  slash := ⟨[], rfl⟩
  noAuthority := by
    intro text h
    cases h
  noBackslash := by
    intro text h
    cases h
  sameOrigin := by decide
  fixed := by decide

/-- No open redirect, up to hidden authorities. What `safeLocalPath` returns is a local path exactly when the
text does not hide an authority. -/
theorem safeLocalPath_local (raw : Option String) : LocalPath (safeLocalPath raw) ↔ ¬∃ text, raw = some text ∧ HidesAuthority text := by
  cases raw with
  | none => exact iff_of_true localPath_root (by simp)
  | some raw =>
    cases hrefused : refusedReturnTo raw with
    | true =>
      have hroot : safeLocalPath (some raw) = "/" := by rw [safeLocalPath, if_pos hrefused]
      refine iff_of_true (hroot ▸ localPath_root) ?_
      rintro ⟨text, he, haccepted, -⟩
      cases he
      rw [hrefused] at haccepted
      cases haccepted
    | false =>
      have hwf := wellFormed_of_pathAbsolute (pathAbsolute_returnTo hrefused)
      have hhides : (∃ text, some raw = some text ∧ HidesAuthority text) ↔ (parsedReturnTo raw).LooksAuthority := by
        rw [looksAuthority_iff hrefused]
        exact ⟨fun ⟨_, he, h⟩ => Option.some.inj he ▸ h, fun h => ⟨raw, rfl, h⟩⟩
      rw [hhides, safeLocalPath_eq hrefused]
      constructor
      · intro hlocal hauthority
        have := hlocal.sameOrigin
        rw [String.toList_ofList, pathAbsolute_href_none hwf hauthority] at this
        cases this
      · intro hauthority
        obtain ⟨first, rest, hpath⟩ := List.exists_cons_of_ne_nil hwf.path
        have haccepted := refusedReturnTo_href hrefused hauthority
        have hparsed := pathAbsolute_href hwf hauthority
        have hchecks := refusedReturnTo_eq_false.1 haccepted
        obtain ⟨⟨text, htext, hhead⟩, hbackslash, -⟩ := hchecks
        refine ⟨⟨text, htext⟩, fun rest hrest => hhead ?_, fun rest hrest => ?_, ?_, ?_⟩
        · rw [(List.cons.inj (htext.symm.trans hrest)).2]
          rfl
        · exact hbackslash '\\' (hrest ▸ by simp) rfl
        · rw [String.toList_ofList, hparsed]
          rfl
        · rw [safeLocalPath, if_neg (by simp [haccepted]), String.toList_ofList, hparsed]
          exact congrArg String.ofList (parsedReturnTo raw).href_compact

/-- A text that passes the checks sends the browser to another host. -/
theorem safeLocalPath_redirects_away : refusedReturnTo "/.//evil.test/login" = false ∧
    safeLocalPath (some "/.//evil.test/login") = "//evil.test/login" ∧ ¬LocalPath (safeLocalPath (some "/.//evil.test/login")) := by
  have hresult : safeLocalPath (some "/.//evil.test/login") = "//evil.test/login" := by decide +kernel
  refine ⟨by decide +kernel, hresult, fun h => ?_⟩
  rw [hresult] at h
  exact h.noAuthority "evil.test/login".toList rfl

end

end Keyforge.Security
