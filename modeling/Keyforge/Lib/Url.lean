/-
References with a leading slash, resolved against an https base, as the URL standard has it: the characters
it percent-encodes, the dot segments it takes out of a path, and the query and fragment after it. What was
parsed and written out reads back, unless the path it starts with looks like an authority.
-/
import Keyforge.Lib.Split
import Keyforge.Lib.Utf8
import Mathlib.Data.List.DropRight

namespace Keyforge.Lib

/-! ## Percent-encoding -/

def upperHexDigit (d : Nat) : Char :=
  if d < 10 then Char.ofNat (0x30 + d) else Char.ofNat (0x37 + d)

def percentEncodeByte (b : Nat) : List Char :=
  ['%', upperHexDigit (b / 16), upperHexDigit (b % 16)]

/-- The characters of the set as the bytes they have, the others as they are. -/
def percentEncode (set : Char → Bool) (text : List Char) : List Char :=
  text.flatMap fun c => if set c then (utf8Encode c).flatMap percentEncodeByte else [c]

def c0ControlSet (c : Char) : Bool :=
  c.toNat ≤ 0x1F || c.toNat > 0x7E

def fragmentSet (c : Char) : Bool :=
  c0ControlSet c || [' ', '\x22', '<', '>', '\x60'].contains c

def querySet (c : Char) : Bool :=
  c0ControlSet c || [' ', '\x22', '#', '<', '>'].contains c

def specialQuerySet (c : Char) : Bool :=
  querySet c || c = '\''

def pathSet (c : Char) : Bool :=
  querySet c || ['?', '^', '\x60', '\x7b', '\x7d'].contains c

section

variable {set : Char → Bool}

@[simp] theorem percentEncode_nil : percentEncode set [] = [] := rfl

theorem percentEncode_cons_of_mem {c : Char} {text : List Char} (h : set c = true) :
    percentEncode set (c :: text) = (utf8Encode c).flatMap percentEncodeByte ++ percentEncode set text := by
  rw [percentEncode, List.flatMap_cons, if_pos h]
  rfl

theorem percentEncode_cons_of_not_mem {c : Char} {text : List Char} (h : set c = false) :
    percentEncode set (c :: text) = c :: percentEncode set text := by
  rw [percentEncode, List.flatMap_cons, if_neg (by simp [h])]
  rfl

/-- Text without characters of the set stays as it is. -/
theorem percentEncode_eq_self : ∀ {text : List Char}, (∀ c ∈ text, set c = false) → percentEncode set text = text
  | [], _ => rfl
  | c :: text, h => by
    rw [percentEncode_cons_of_not_mem (h c List.mem_cons_self),
      percentEncode_eq_self fun d hd => h d (List.mem_cons_of_mem _ hd)]

/-- A hexadecimal digit of a percent-encoded byte. -/
def isHexDigit (c : Char) : Bool :=
  "0123456789ABCDEF".toList.contains c

theorem isHexDigit_upperHexDigit : ∀ d < 16, isHexDigit (upperHexDigit d) = true := by decide

theorem utf8Encode_lt (c : Char) : ∀ b ∈ utf8Encode c, b < 256 := by
  have hc := c.valid
  have hvalid : c.toNat < 0xD800 ∨ (0xDFFF < c.toNat ∧ c.toNat < 0x110000) := hc
  intro b hb
  unfold utf8Encode at hb
  split at hb
  · simp at hb
    omega
  · split at hb
    · simp at hb
      omega
    · split at hb <;> simp at hb <;> omega

/-- What percent-encoding writes: characters outside the set, percent signs and digits. -/
theorem mem_percentEncode {text : List Char} {c : Char} (h : c ∈ percentEncode set text) :
    (c ∈ text ∧ set c = false) ∨ c = '%' ∨ isHexDigit c = true := by
  obtain ⟨d, hd, hc⟩ := List.mem_flatMap.1 h
  split at hc
  · obtain ⟨b, hb, hc⟩ := List.mem_flatMap.1 hc
    have hlt := utf8Encode_lt d b hb
    simp only [percentEncodeByte, List.mem_cons, List.not_mem_nil, or_false] at hc
    rcases hc with rfl | rfl | rfl
    · exact Or.inr (Or.inl rfl)
    · exact Or.inr (Or.inr (isHexDigit_upperHexDigit _ (by omega)))
    · exact Or.inr (Or.inr (isHexDigit_upperHexDigit _ (by omega)))
  · rename_i hset
    rw [List.mem_singleton.1 hc]
    exact Or.inl ⟨hd, by simpa using hset⟩

/-- A set without the percent sign and the digits has none of its characters left. -/
theorem percentEncode_free (hset : set '%' = false ∧ ∀ c, isHexDigit c = true → set c = false) {text : List Char} :
    ∀ c ∈ percentEncode set text, set c = false := by
  intro c hc
  rcases mem_percentEncode hc with ⟨-, h⟩ | rfl | h
  · exact h
  · exact hset.1
  · exact hset.2 c h

end

theorem forall_isHexDigit {p : Char → Bool} (h : ("0123456789ABCDEF".toList.all p) = true) :
    ∀ c, isHexDigit c = true → p c = true := by
  intro c hc
  exact List.all_eq_true.1 h c (by simpa [isHexDigit] using hc)

/-! ## Dot segments -/

/-- How many dots a segment is, each as itself or percent-encoded; `none` if it is something else. -/
def dots : List Char → Option Nat
  | [] => some 0
  | '.' :: rest => (dots rest).map (· + 1)
  | '%' :: '2' :: 'e' :: rest => (dots rest).map (· + 1)
  | '%' :: '2' :: 'E' :: rest => (dots rest).map (· + 1)
  | _ :: _ => none

def isSingleDot (segment : List Char) : Bool := dots segment = some 1

def isDoubleDot (segment : List Char) : Bool := dots segment = some 2

/-- A segment that names something. -/
def isName (segment : List Char) : Bool := !isSingleDot segment && !isDoubleDot segment

/-- One segment: a double dot takes the last one off the path, a single dot does nothing. -/
def pathStep (path : List (List Char)) (segment : List Char) : List (List Char) :=
  if isDoubleDot segment then path.dropLast
  else if isSingleDot segment then path
  else path ++ [percentEncode pathSet segment]

/-- The path that segments lead to; where the last is a dot segment, the path ends with an empty one. -/
def parsePath (segments : List (List Char)) : List (List Char) :=
  segments.foldl pathStep [] ++ if segments.getLast?.any isName then [] else [[]]

theorem isName_iff {segment : List Char} : isName segment = true ↔ isSingleDot segment = false ∧ isDoubleDot segment = false := by
  simp [isName]

theorem pathStep_name {path : List (List Char)} {segment : List Char} (h : isName segment = true) :
    pathStep path segment = path ++ [percentEncode pathSet segment] := by
  obtain ⟨hs, hd⟩ := isName_iff.1 h
  rw [pathStep, if_neg (by simp [hd]), if_neg (by simp [hs])]

theorem pathStep_doubleDot {path : List (List Char)} {segment : List Char} (h : isDoubleDot segment = true) :
    pathStep path segment = path.dropLast := if_pos h

theorem pathStep_singleDot {path : List (List Char)} {segment : List Char} (h : isSingleDot segment = true) :
    pathStep path segment = path := by
  have hd : isDoubleDot segment = false := by
    unfold isSingleDot isDoubleDot at *
    rw [decide_eq_true_eq] at h
    simp [h]
  rw [pathStep, if_neg (by simp [hd]), if_pos h]

/-- A segment is a name, a single dot or a double dot. -/
theorem segment_cases (segment : List Char) :
    isName segment = true ∨ isSingleDot segment = true ∨ isDoubleDot segment = true := by
  rw [isName_iff]
  cases isSingleDot segment <;> cases isDoubleDot segment <;> simp

/-! ## What is left of a path -/

/-- The names of the segments. -/
def names (segments : List (List Char)) : Nat := segments.countP isName

/-- The double dots of the segments. -/
def ups (segments : List (List Char)) : Nat := segments.countP isDoubleDot

section

variable {segments : List (List Char)} {segment : List Char}

theorem not_doubleDot_of_name (h : isName segment = true) : isDoubleDot segment = false := (isName_iff.1 h).2

theorem not_name_of_doubleDot (h : isDoubleDot segment = true) : isName segment = false := by
  simp [isName, h]

theorem not_name_of_singleDot (h : isSingleDot segment = true) : isName segment = false := by
  simp [isName, h]

theorem not_doubleDot_of_singleDot (h : isSingleDot segment = true) : isDoubleDot segment = false := by
  unfold isSingleDot isDoubleDot at *
  rw [decide_eq_true_eq] at h
  simp [h]

/-- The segments leave at most `k` on the path if every end of them does. -/
theorem length_walk_le : ∀ (segments : List (List Char)) (k : Nat), (segments.foldl pathStep []).length ≤ k ↔
    ∀ tail, tail <:+ segments → names tail ≤ ups tail + k := by
  intro segments
  induction segments using List.reverseRecOn with
  | nil =>
    intro k
    refine iff_of_true (Nat.zero_le k) fun tail htail => ?_
    rw [List.suffix_nil.1 htail]
    exact Nat.zero_le _
  | append_singleton segments segment ih =>
    intro k
    -- the tails of the longer list are the former ones with the segment at the end
    have htails : (∀ tail, tail <:+ segments ++ [segment] → names tail ≤ ups tail + k) ↔
        ∀ tail, tail <:+ segments → names (tail ++ [segment]) ≤ ups (tail ++ [segment]) + k := by
      constructor
      · exact fun h tail htail => h _ ((List.suffix_append_inj_of_length_eq rfl).2 ⟨htail, rfl⟩)
      · intro h tail htail
        rcases List.suffix_concat_iff.1 htail with rfl | ⟨start, rfl, hstart⟩
        · exact Nat.zero_le _
        · exact h start hstart
    rw [htails, List.foldl_append, List.foldl_cons, List.foldl_nil]
    have hnames : ∀ tail, names (tail ++ [segment]) = names tail + if isName segment then 1 else 0 := by
      intro tail
      rw [names, List.countP_append, List.countP_singleton]
      rfl
    have hups : ∀ tail, ups (tail ++ [segment]) = ups tail + if isDoubleDot segment then 1 else 0 := by
      intro tail
      rw [ups, List.countP_append, List.countP_singleton]
      rfl
    -- a name, a single dot or a double dot
    rcases segment_cases segment with hseg | hseg | hseg
    · rw [pathStep_name hseg, List.length_append, List.length_singleton]
      simp only [hnames, hups, hseg, not_doubleDot_of_name hseg, if_true, Bool.false_eq_true, if_false]
      cases k with
      | zero =>
        refine iff_of_false (by omega) fun h => ?_
        have := h [] (List.nil_suffix)
        simp [names, ups] at this
      | succ k =>
        rw [Nat.succ_le_succ_iff, ih k]
        exact forall₂_congr fun tail _ => by omega
    · rw [pathStep_singleDot hseg, ih k]
      simp only [hnames, hups, not_name_of_singleDot hseg, not_doubleDot_of_singleDot hseg, Bool.false_eq_true, if_false,
        Nat.add_zero]
    · rw [pathStep_doubleDot hseg, List.length_dropLast, Nat.sub_le_iff_le_add, ih (k + 1)]
      simp only [hnames, hups, hseg, not_name_of_doubleDot hseg, if_true, Bool.false_eq_true, if_false]
      exact forall₂_congr fun tail _ => by omega

/-- Segments that never go back past a path leave it in place. -/
theorem walk_above : ∀ (segments : List (List Char)) (base path : List (List Char)),
    (∀ start, start <+: segments → ups start ≤ names start + path.length) →
      segments.foldl pathStep (base ++ path) = base ++ segments.foldl pathStep path
  | [], _, _, _ => rfl
  | segment :: segments, base, path, h => by
    have hstart : ∀ start, start <+: segments → ups (segment :: start) ≤ names (segment :: start) + path.length :=
      fun start hs => h _ (List.cons_prefix_cons.2 ⟨rfl, hs⟩)
    have hups : ∀ start, ups (segment :: start) = ups start + if isDoubleDot segment then 1 else 0 :=
      fun start => List.countP_cons
    have hnames : ∀ start, names (segment :: start) = names start + if isName segment then 1 else 0 :=
      fun start => List.countP_cons
    simp only [hups, hnames] at hstart
    rw [List.foldl_cons, List.foldl_cons]
    rcases segment_cases segment with hseg | hseg | hseg
    · rw [pathStep_name hseg, pathStep_name hseg, List.append_assoc]
      refine walk_above segments base _ fun start hs => ?_
      have := hstart start hs
      rw [if_neg (by simp [not_doubleDot_of_name hseg]), if_pos hseg] at this
      rw [List.length_append, List.length_singleton]
      omega
    · rw [pathStep_singleDot hseg, pathStep_singleDot hseg]
      refine walk_above segments base path fun start hs => ?_
      simpa [not_doubleDot_of_singleDot hseg, not_name_of_singleDot hseg] using hstart start hs
    · have hpath : path ≠ [] := by
        rintro rfl
        have := hstart [] List.nil_prefix
        simp [ups, names, hseg, not_name_of_doubleDot hseg] at this
      rw [pathStep_doubleDot hseg, pathStep_doubleDot hseg, List.dropLast_append_of_ne_nil hpath]
      refine walk_above segments base _ fun start hs => ?_
      have := hstart start hs
      have hlength := List.length_pos_iff.2 hpath
      rw [if_pos hseg, if_neg (by simp [not_name_of_doubleDot hseg])] at this
      rw [List.length_dropLast]
      omega

/-- The segments before one cancel out, and those after it never go back past it. -/
structure Opens (before after : List (List Char)) : Prop where
  cancels : ∀ tail, tail <:+ before → names tail ≤ ups tail
  above : ∀ start, start <+: after → ups start ≤ names start

/-- Such a segment comes first on the path. -/
theorem Opens.walk {before after : List (List Char)} (h : Opens before after) (hname : isName segment = true) :
    (before ++ segment :: after).foldl pathStep [] = percentEncode pathSet segment :: after.foldl pathStep [] := by
  have hbefore : before.foldl pathStep [] = [] :=
    List.length_eq_zero_iff.1 (Nat.le_zero.1 ((length_walk_le before 0).2 h.cancels))
  rw [List.foldl_append, hbefore, List.foldl_cons, pathStep_name hname]
  exact walk_above after [percentEncode pathSet segment] [] h.above

/-- Segments that leave something leave more names than double dots behind some point. -/
theorem names_of_walk_ne_nil (h : segments.foldl pathStep [] ≠ [])
    (habove : ∀ start, start <+: segments → ups start ≤ names start) : ups segments < names segments := by
  by_contra hle
  refine h (List.length_eq_zero_iff.1 (Nat.le_zero.1 ((length_walk_le segments 0).2 ?_)))
  rintro tail ⟨start, rfl⟩
  have hstart := habove start (List.prefix_append _ _)
  rw [ups, names, List.countP_append, List.countP_append] at hle
  unfold ups names at hstart ⊢
  omega

/-- Every path that is not empty starts with such a segment. -/
theorem exists_opens : ∀ (segments : List (List Char)), segments.foldl pathStep [] ≠ [] →
    ∃ before segment after, segments = before ++ segment :: after ∧ isName segment = true ∧ Opens before after := by
  intro segments
  induction segments using List.reverseRecOn with
  | nil => exact fun h => absurd rfl h
  | append_singleton segments segment ih =>
    intro h
    rw [List.foldl_append, List.foldl_cons, List.foldl_nil] at h
    by_cases hempty : segments.foldl pathStep [] = []
    · -- this segment is the first that stays
      rcases segment_cases segment with hseg | hseg | hseg
      · refine ⟨segments, segment, [], rfl, hseg, ?_, fun start hs => by simp [List.prefix_nil.1 hs, ups]⟩
        exact (length_walk_le segments 0).1 (by simp [hempty])
      · exact absurd (by rw [pathStep_singleDot hseg, hempty]) h
      · exact absurd (by rw [pathStep_doubleDot hseg, hempty]; rfl) h
    · obtain ⟨before, first, after, rfl, hname, hopens⟩ := ih hempty
      refine ⟨before, first, after ++ [segment], by simp, hname, hopens.cancels, fun start hs => ?_⟩
      rcases List.prefix_concat_iff.1 hs with rfl | hs
      · have hcount : ups (after ++ [segment]) = ups after + (if isDoubleDot segment then 1 else 0) ∧
            names (after ++ [segment]) = names after + if isName segment then 1 else 0 := by
          rw [ups, ups, names, names, List.countP_append, List.countP_append, List.countP_singleton, List.countP_singleton]
          exact ⟨rfl, rfl⟩
        have hafter := hopens.above after List.prefix_rfl
        rw [hcount.1, hcount.2]
        rcases segment_cases segment with hseg | hseg | hseg
        · rw [if_neg (by simp [not_doubleDot_of_name hseg])]
          omega
        · rw [if_neg (by simp [not_doubleDot_of_singleDot hseg])]
          omega
        · -- what it takes back came after the first
          have hwalk := hopens.walk hname
          rw [hwalk, pathStep_doubleDot hseg] at h
          have hne : after.foldl pathStep [] ≠ [] := by
            intro hnil
            rw [hnil] at h
            exact h rfl
          have := names_of_walk_ne_nil hne hopens.above
          rw [if_pos hseg]
          omega
      · exact hopens.above start hs

end

/-! ## Parsing a reference -/

/-- What a reference with a leading slash says; scheme and authority are the base's. -/
structure LocalUrl where
  path : List (List Char)
  query : Option (List Char)
  fragment : Option (List Char)
  deriving DecidableEq, Repr

namespace LocalUrl

def pathname (url : LocalUrl) : List Char := url.path.flatMap ('/' :: ·)

def search (url : LocalUrl) : List Char :=
  match url.query with
  | none | some [] => []
  | some query => '?' :: query

def hash (url : LocalUrl) : List Char :=
  match url.fragment with
  | none | some [] => []
  | some fragment => '#' :: fragment

def href (url : LocalUrl) : List Char := url.pathname ++ url.search ++ url.hash

end LocalUrl

def isC0ControlOrSpace (c : Char) : Bool := c.toNat ≤ 0x20

def isTabOrNewline (c : Char) : Bool := c = '\t' || c = '\n' || c = '\r'

/-- Without the controls and spaces around it, and the tabs and newlines in it. -/
def stripped (reference : List Char) : List Char :=
  ((reference.dropWhile isC0ControlOrSpace).rdropWhile isC0ControlOrSpace).filter fun c => !isTabOrNewline c

def isPathSeparator (c : Char) : Bool := c = '/' || c = '\\'

/-- The segments, the query and the fragment as they stand in a reference, after its first slash. -/
def cutReference (text : List Char) : List (List Char) × Option (List Char) × Option (List Char) :=
  let (text, fragment) := cutAt '#' text
  let (path, query) := cutAt '?' text
  (path.splitOnP isPathSeparator, query, fragment)

/-- A reference with one leading slash, parsed against an https base. `none` if it has another slash or a
backslash there, which begins an authority of its own, or no leading slash. -/
def pathAbsolute (reference : List Char) : Option LocalUrl :=
  match stripped reference with
  | '/' :: text =>
    if text.head?.any isPathSeparator then none
    else
      let (segments, query, fragment) := cutReference text
      some { path := parsePath segments, query := query.map (percentEncode specialQuerySet),
             fragment := fragment.map (percentEncode fragmentSet) }
  | _ => none

/-- A URL as parsing leaves it. -/
structure LocalUrl.WellFormed (url : LocalUrl) : Prop where
  path : url.path ≠ []
  segments : ∀ segment ∈ url.path, isName segment = true ∧ ∀ c ∈ segment, pathSet c = false ∧ isPathSeparator c = false
  query : ∀ query ∈ url.query, ∀ c ∈ query, specialQuerySet c = false
  fragment : ∀ fragment ∈ url.fragment, ∀ c ∈ fragment, fragmentSet c = false

section

variable {set : Char → Bool}

theorem pathSet_free {text : List Char} : ∀ c ∈ percentEncode pathSet text, pathSet c = false :=
  percentEncode_free ⟨by decide, fun c hc => by
    simpa using forall_isHexDigit (p := fun c => !pathSet c) (by decide) c hc⟩

theorem specialQuerySet_free {text : List Char} : ∀ c ∈ percentEncode specialQuerySet text, specialQuerySet c = false :=
  percentEncode_free ⟨by decide, fun c hc => by
    simpa using forall_isHexDigit (p := fun c => !specialQuerySet c) (by decide) c hc⟩

theorem fragmentSet_free {text : List Char} : ∀ c ∈ percentEncode fragmentSet text, fragmentSet c = false :=
  percentEncode_free ⟨by decide, fun c hc => by
    simpa using forall_isHexDigit (p := fun c => !fragmentSet c) (by decide) c hc⟩

/-- Percent-encoding a segment writes no path separator that it did not have. -/
theorem isPathSeparator_free {segment : List Char} (h : ∀ c ∈ segment, isPathSeparator c = false) :
    ∀ c ∈ percentEncode set segment, isPathSeparator c = false := by
  intro c hc
  rcases mem_percentEncode hc with ⟨hc, -⟩ | rfl | hdigit
  · exact h c hc
  · rfl
  · simpa using forall_isHexDigit (p := fun c => !isPathSeparator c) (by decide) c hdigit

/-- A segment that starts neither with a dot nor with an encoded one. -/
theorem dots_eq_none {c : Char} {rest : List Char} (hdot : c ≠ '.')
    (hencoded : ∀ d text, c = '%' → rest = '2' :: d :: text → d ≠ 'e' ∧ d ≠ 'E') : dots (c :: rest) = none := by
  unfold dots
  split
  · rename_i h
    cases h
  · rename_i h
    cases h
    exact absurd rfl hdot
  · rename_i h
    cases h
    exact absurd rfl (hencoded 'e' _ rfl rfl).1
  · rename_i h
    cases h
    exact absurd rfl (hencoded 'E' _ rfl rfl).2
  · rfl

/-- Only a dot is encoded as the byte of a dot. -/
theorem utf8Encode_ne_dot {c : Char} (h : c ≠ '.') : ∃ b bytes, utf8Encode c = b :: bytes ∧ b < 256 ∧ b ≠ 0x2E := by
  have hlt := utf8Encode_lt c
  have hne : c.toNat ≠ 0x2E := fun he => h (Char.toNat_inj.1 he)
  unfold utf8Encode at hlt ⊢
  split
  · exact ⟨_, _, rfl, by omega, hne⟩
  · split
    · rename_i h1 h2
      rw [if_neg h1, if_pos h2] at hlt
      exact ⟨_, _, rfl, hlt _ List.mem_cons_self, by omega⟩
    · split
      · rename_i h1 h2 h3
        rw [if_neg h1, if_neg h2, if_pos h3] at hlt
        exact ⟨_, _, rfl, hlt _ List.mem_cons_self, by omega⟩
      · rename_i h1 h2 h3
        rw [if_neg h1, if_neg h2, if_neg h3] at hlt
        exact ⟨_, _, rfl, hlt _ List.mem_cons_self, by omega⟩

/-- The two digits of a byte that is not that of a dot. -/
theorem upperHexDigit_ne_dot : ∀ b < 256, b ≠ 0x2E →
    ¬(upperHexDigit (b / 16) = '2' ∧ (upperHexDigit (b % 16) = 'e' ∨ upperHexDigit (b % 16) = 'E')) := by
  decide +kernel

/-- A character that is encoded starts no dot. -/
theorem dots_encoded {c : Char} (h : c ≠ '.') (text : List Char) :
    dots ((utf8Encode c).flatMap percentEncodeByte ++ text) = none := by
  obtain ⟨b, bytes, hbytes, hlt, hne⟩ := utf8Encode_ne_dot h
  rw [hbytes, List.flatMap_cons, percentEncodeByte]
  refine dots_eq_none (by decide) fun d rest _ hrest => ?_
  obtain ⟨hhigh, hrest⟩ := List.cons.inj hrest
  obtain ⟨rfl, -⟩ := List.cons.inj hrest
  have := upperHexDigit_ne_dot b hlt hne
  exact ⟨fun he => this ⟨hhigh, Or.inl he⟩, fun he => this ⟨hhigh, Or.inr he⟩⟩

theorem utf8Encode_cons (c : Char) : ∃ b bytes, utf8Encode c = b :: bytes := by
  unfold utf8Encode
  split
  · exact ⟨_, _, rfl⟩
  · split
    · exact ⟨_, _, rfl⟩
    · split <;> exact ⟨_, _, rfl⟩

/-- Text that is not empty is encoded as such. -/
theorem percentEncode_eq_nil {text : List Char} (h : percentEncode set text = []) : text = [] := by
  cases text with
  | nil => rfl
  | cons c tail =>
    cases hc : set c with
    | true =>
      obtain ⟨b, bytes, hbytes⟩ := utf8Encode_cons c
      rw [percentEncode_cons_of_mem hc, hbytes] at h
      cases h
    | false =>
      rw [percentEncode_cons_of_not_mem hc] at h
      cases h

/-- What percent-encoded text starts with: its first character, or a percent sign. -/
theorem percentEncode_head {text rest : List Char} {d : Char} (h : percentEncode set text = d :: rest) :
    d = '%' ∨ ∃ tail, text = d :: tail ∧ rest = percentEncode set tail := by
  cases text with
  | nil => cases h
  | cons c tail =>
    cases hc : set c with
    | true =>
      left
      rw [percentEncode_cons_of_mem hc] at h
      obtain ⟨b, bytes, hbytes⟩ := utf8Encode_cons c
      rw [hbytes, List.flatMap_cons, percentEncodeByte] at h
      exact (List.cons.inj h).1.symm
    | false =>
      rw [percentEncode_cons_of_not_mem hc] at h
      obtain ⟨rfl, rfl⟩ := List.cons.inj h
      exact Or.inr ⟨tail, rfl, rfl⟩

/-- Percent-encoding neither makes a dot nor hides one. -/
theorem dots_percentEncode (segment : List Char) : dots (percentEncode pathSet segment) = dots segment := by
  fun_induction dots segment with
  | case1 => rfl
  | case2 rest ih =>
    rw [percentEncode_cons_of_not_mem (by decide), dots, ih]
  | case3 rest ih =>
    rw [percentEncode_cons_of_not_mem (by decide), percentEncode_cons_of_not_mem (by decide),
      percentEncode_cons_of_not_mem (by decide), dots, ih]
  | case4 rest ih =>
    rw [percentEncode_cons_of_not_mem (by decide), percentEncode_cons_of_not_mem (by decide),
      percentEncode_cons_of_not_mem (by decide), dots, ih]
  | case5 c rest hdot hlower hupper =>
    have hdot : c ≠ '.' := fun he => hdot he
    cases hc : pathSet c with
    | true =>
      rw [percentEncode_cons_of_mem hc]
      exact dots_encoded hdot _
    | false =>
      rw [percentEncode_cons_of_not_mem hc]
      refine dots_eq_none hdot fun d text hpercent htext => ?_
      rcases percentEncode_head htext with h | ⟨tail, rfl, hrest⟩
      · exact absurd h (by decide)
      · rcases percentEncode_head hrest.symm with rfl | ⟨tail, rfl, -⟩
        · decide
        · exact ⟨fun he => hlower tail hpercent (by rw [he]), fun he => hupper tail hpercent (by rw [he])⟩

theorem isName_percentEncode (segment : List Char) : isName (percentEncode pathSet segment) = isName segment := by
  rw [isName, isSingleDot, isDoubleDot, dots_percentEncode]
  rfl

/-! ## What parsing gives -/

/-- A path grows by encoded names only. -/
theorem mem_walk : ∀ (segments path : List (List Char)), ∀ segment ∈ segments.foldl pathStep path,
    segment ∈ path ∨ ∃ raw ∈ segments, isName raw = true ∧ segment = percentEncode pathSet raw
  | [], _, _, h => Or.inl h
  | raw :: segments, path, segment, h => by
    rw [List.foldl_cons] at h
    rcases mem_walk segments _ segment h with h | ⟨other, hother, hname, heq⟩
    · rcases segment_cases raw with hraw | hraw | hraw
      · rw [pathStep_name hraw] at h
        rcases List.mem_append.1 h with h | h
        · exact Or.inl h
        · exact Or.inr ⟨raw, List.mem_cons_self, hraw, List.mem_singleton.1 h⟩
      · rw [pathStep_singleDot hraw] at h
        exact Or.inl h
      · rw [pathStep_doubleDot hraw] at h
        exact Or.inl (List.mem_of_mem_dropLast h)
    · exact Or.inr ⟨other, List.mem_cons_of_mem _ hother, hname, heq⟩

/-- The path is not empty. -/
theorem parsePath_ne_nil {segments : List (List Char)} (h : segments ≠ []) : parsePath segments ≠ [] := by
  intro hnil
  rw [parsePath, List.append_eq_nil_iff] at hnil
  obtain ⟨hwalk, hlast⟩ := hnil
  rw [List.getLast?_eq_some_getLast h, Option.any_some] at hlast
  cases hname : isName (segments.getLast h) with
  | false => simp [hname] at hlast
  | true =>
    rw [← List.dropLast_append_getLast h, List.foldl_append, List.foldl_cons, List.foldl_nil, pathStep_name hname] at hwalk
    simp at hwalk

/-- What parsing gives is well formed. -/
theorem wellFormed_of_pathAbsolute {reference : List Char} {url : LocalUrl} (h : pathAbsolute reference = some url) :
    url.WellFormed := by
  unfold pathAbsolute at h
  split at h
  · rename_i text _
    split at h
    · cases h
    · cases h
      have hsegments : ∀ segment ∈ (cutReference text).1, ∀ c ∈ segment, isPathSeparator c = false :=
        fun segment hs c hc => splitOnP_pieces _ segment hs c hc
      have hne : (cutReference text).1 ≠ [] := List.splitOnP_ne_nil _ _
      refine ⟨parsePath_ne_nil hne, ?_, ?_, ?_⟩
      · intro segment hs
        have hpath : segment = [] ∨ ∃ raw ∈ (cutReference text).1, isName raw = true ∧ segment = percentEncode pathSet raw := by
          rcases List.mem_append.1 hs with hs | hs
          · rcases mem_walk _ _ segment hs with hs | hs
            · cases hs
            · exact Or.inr hs
          · split at hs
            · cases hs
            · exact Or.inl (List.mem_singleton.1 hs)
        rcases hpath with rfl | ⟨raw, hraw, hname, rfl⟩
        · exact ⟨rfl, nofun⟩
        · refine ⟨(isName_percentEncode raw).trans hname, fun c hc => ⟨pathSet_free c hc, ?_⟩⟩
          exact isPathSeparator_free (hsegments raw hraw) c hc
      · intro query hq
        obtain ⟨raw, -, rfl⟩ := Option.map_eq_some_iff.1 hq
        exact specialQuerySet_free
      · intro fragment hf
        obtain ⟨raw, -, rfl⟩ := Option.map_eq_some_iff.1 hf
        exact fragmentSet_free
  · cases h

/-- Names stay as they are on a path. -/
theorem walk_names : ∀ (segments path : List (List Char)),
    (∀ segment ∈ segments, isName segment = true ∧ ∀ c ∈ segment, pathSet c = false) →
      segments.foldl pathStep path = path ++ segments
  | [], path, _ => (List.append_nil path).symm
  | segment :: segments, path, h => by
    obtain ⟨hname, hfree⟩ := h segment List.mem_cons_self
    rw [List.foldl_cons, pathStep_name hname, percentEncode_eq_self hfree,
      walk_names segments _ fun s hs => h s (List.mem_cons_of_mem _ hs), List.append_assoc, List.singleton_append]

theorem parsePath_names {segments : List (List Char)} (hne : segments ≠ [])
    (h : ∀ segment ∈ segments, isName segment = true ∧ ∀ c ∈ segment, pathSet c = false) : parsePath segments = segments := by
  rw [parsePath, walk_names segments [] h, List.getLast?_eq_some_getLast hne, Option.any_some,
    if_pos (h _ (List.getLast_mem hne)).1, List.nil_append, List.append_nil]

/-! ## What was written out -/

/-- The path starts with an empty segment and has more: written out it looks like an authority. -/
def LocalUrl.LooksAuthority (url : LocalUrl) : Prop :=
  ∃ segment rest, url.path = [] :: segment :: rest

/-- The URL without an empty query and an empty fragment, which are not written out. -/
def LocalUrl.compact (url : LocalUrl) : LocalUrl :=
  { url with query := url.query.filter (· ≠ []), fragment := url.fragment.filter (· ≠ []) }

theorem LocalUrl.search_eq (url : LocalUrl) : url.search = (url.query.filter (· ≠ [])).elim [] ('?' :: ·) := by
  unfold LocalUrl.search
  cases url.query with
  | none => rfl
  | some query => cases query <;> rfl

theorem LocalUrl.hash_eq (url : LocalUrl) : url.hash = (url.fragment.filter (· ≠ [])).elim [] ('#' :: ·) := by
  unfold LocalUrl.hash
  cases url.fragment with
  | none => rfl
  | some fragment => cases fragment <;> rfl

theorem LocalUrl.href_compact (url : LocalUrl) : url.compact.href = url.href := by
  unfold LocalUrl.href
  rw [LocalUrl.search_eq, LocalUrl.search_eq, LocalUrl.hash_eq, LocalUrl.hash_eq]
  simp [LocalUrl.compact, LocalUrl.pathname]

/-- A visible ASCII character. -/
def IsVisible (c : Char) : Prop := 0x20 < c.toNat ∧ c.toNat ≤ 0x7E

/-- Text of visible ASCII characters is not stripped. -/
theorem stripped_eq_self {text : List Char} (h : ∀ c ∈ text, IsVisible c) : stripped text = text := by
  have hno : ∀ c ∈ text, isC0ControlOrSpace c = false := fun c hc => decide_eq_false (Nat.not_le.2 (h c hc).1)
  have hleft : text.dropWhile isC0ControlOrSpace = text := by
    cases text with
    | nil => rfl
    | cons c rest => rw [List.dropWhile_cons_of_neg (by simp [hno c List.mem_cons_self])]
  have hright : text.rdropWhile isC0ControlOrSpace = text := by
    refine List.rdropWhile_eq_self_iff.2 fun hne => ?_
    rw [hno _ (List.getLast_mem hne)]
    exact Bool.false_ne_true
  rw [stripped, hleft, hright, List.filter_eq_self]
  intro c hc
  have hc := (h c hc).1
  simp only [isTabOrNewline, Bool.not_eq_true', Bool.or_eq_false_iff, decide_eq_false_iff_not]
  refine ⟨⟨?_, ?_⟩, ?_⟩ <;> rintro rfl <;> revert hc <;> decide

theorem visible_of_querySet {c : Char} (h : querySet c = false) : IsVisible c ∧ c ≠ '#' := by
  simp only [querySet, c0ControlSet, Bool.or_eq_false_iff, decide_eq_false_iff_not, Nat.not_le] at h
  have hc : c ≠ ' ' ∧ c ≠ '#' := by
    constructor <;> rintro rfl <;> exact absurd h.2 (by decide)
  have hspace : c.toNat ≠ ' '.toNat := fun he => hc.1 (Char.toNat_inj.1 he)
  have hspace : c.toNat ≠ 0x20 := hspace
  exact ⟨⟨by omega, by omega⟩, hc.2⟩

theorem visible_of_pathSet {c : Char} (h : pathSet c = false) : IsVisible c ∧ c ≠ '#' ∧ c ≠ '?' := by
  simp only [pathSet, Bool.or_eq_false_iff] at h
  have hquery := visible_of_querySet h.1
  refine ⟨hquery.1, hquery.2, ?_⟩
  rintro rfl
  exact absurd h.2 (by decide)

theorem visible_of_specialQuerySet {c : Char} (h : specialQuerySet c = false) : IsVisible c ∧ c ≠ '#' := by
  simp only [specialQuerySet, Bool.or_eq_false_iff] at h
  exact visible_of_querySet h.1

theorem visible_of_fragmentSet {c : Char} (h : fragmentSet c = false) : IsVisible c := by
  simp only [fragmentSet, c0ControlSet, Bool.or_eq_false_iff, decide_eq_false_iff_not, Nat.not_le] at h
  have hspace : c.toNat ≠ 0x20 := by
    intro he
    have he : c.toNat = ' '.toNat := he
    cases Char.toNat_inj.1 he
    exact absurd h.2 (by decide)
  exact ⟨by omega, by omega⟩

/-- What is cut again out of what was written. -/
theorem cutReference_written {first : List Char} {rest : List (List Char)} {query fragment : Option (List Char)}
    (hpath : ∀ segment ∈ first :: rest, ∀ c ∈ segment, pathSet c = false ∧ isPathSeparator c = false)
    (hquery : ∀ q ∈ query, ∀ c ∈ q, specialQuerySet c = false) :
    cutReference (first ++ rest.flatMap ('/' :: ·) ++ query.elim [] ('?' :: ·) ++ fragment.elim [] ('#' :: ·)) =
      (first :: rest, query, fragment) := by
  have hchars : ∀ c ∈ first ++ rest.flatMap ('/' :: ·), c ≠ '#' ∧ c ≠ '?' := by
    intro c hc
    rcases List.mem_append.1 hc with hc | hc
    · exact (visible_of_pathSet (hpath first List.mem_cons_self c hc).1).2
    · obtain ⟨segment, hs, hc⟩ := List.mem_flatMap.1 hc
      rcases List.mem_cons.1 hc with rfl | hc
      · decide
      · exact (visible_of_pathSet (hpath segment (List.mem_cons_of_mem _ hs) c hc).1).2
  have hsearch : ∀ c ∈ first ++ rest.flatMap ('/' :: ·) ++ query.elim [] ('?' :: ·), c ≠ '#' := by
    intro c hc
    rcases List.mem_append.1 hc with hc | hc
    · exact (hchars c hc).1
    · cases query with
      | none => cases hc
      | some q =>
        rcases List.mem_cons.1 hc with rfl | hc
        · decide
        · exact (visible_of_specialQuerySet (hquery q rfl c hc)).2
  have hcutHash : cutAt '#' (first ++ rest.flatMap ('/' :: ·) ++ query.elim [] ('?' :: ·) ++ fragment.elim [] ('#' :: ·)) =
      (first ++ rest.flatMap ('/' :: ·) ++ query.elim [] ('?' :: ·), fragment) := by
    cases fragment with
    | none => rw [Option.elim_none, List.append_nil, cutAt_self hsearch]
    | some f => exact cutAt_append f hsearch
  have hcutQuery : cutAt '?' (first ++ rest.flatMap ('/' :: ·) ++ query.elim [] ('?' :: ·)) =
      (first ++ rest.flatMap ('/' :: ·), query) := by
    cases query with
    | none => rw [Option.elim_none, List.append_nil, cutAt_self fun c hc => (hchars c hc).2]
    | some q => exact cutAt_append q fun c hc => (hchars c hc).2
  rw [cutReference, hcutHash]
  dsimp only
  rw [hcutQuery]
  dsimp only
  rw [splitOnP_flatMap rfl first rest fun segment hs c hc => (hpath segment hs c hc).2]

/-- What is written out, with the first segment in front. -/
theorem LocalUrl.href_eq {url : LocalUrl} {first : List Char} {rest : List (List Char)} (hpath : url.path = first :: rest) :
    url.href = '/' :: (first ++ rest.flatMap ('/' :: ·) ++ url.search ++ url.hash) := by
  simp [LocalUrl.href, LocalUrl.pathname, hpath]

/-- A URL is written with visible characters. -/
theorem LocalUrl.WellFormed.visible {url : LocalUrl} (h : url.WellFormed) : ∀ c ∈ url.href, IsVisible c := by
  intro c hc
  rcases List.mem_append.1 hc with hc | hc
  · rcases List.mem_append.1 hc with hc | hc
    · obtain ⟨segment, hs, hc⟩ := List.mem_flatMap.1 hc
      rcases List.mem_cons.1 hc with rfl | hc
      · exact ⟨by decide, by decide⟩
      · exact (visible_of_pathSet ((h.segments segment hs).2 c hc).1).1
    · rw [LocalUrl.search_eq] at hc
      cases hquery : url.query.filter (· ≠ []) with
      | none =>
        rw [hquery] at hc
        cases hc
      | some query =>
        rw [hquery] at hc
        rcases List.mem_cons.1 hc with rfl | hc
        · exact ⟨by decide, by decide⟩
        · exact (visible_of_specialQuerySet (h.query query (Option.filter_eq_some_iff.1 hquery).1 c hc)).1
  · rw [LocalUrl.hash_eq] at hc
    cases hfragment : url.fragment.filter (· ≠ []) with
    | none =>
      rw [hfragment] at hc
      cases hc
    | some fragment =>
      rw [hfragment] at hc
      rcases List.mem_cons.1 hc with rfl | hc
      · exact ⟨by decide, by decide⟩
      · exact visible_of_fragmentSet (h.fragment fragment (Option.filter_eq_some_iff.1 hfragment).1 c hc)

/-- The second character that is written is a separator only in what looks like an authority. -/
theorem LocalUrl.WellFormed.head {url : LocalUrl} (h : url.WellFormed) (hauthority : ¬url.LooksAuthority)
    {first : List Char} {rest : List (List Char)} (hpath : url.path = first :: rest) :
    (first ++ rest.flatMap ('/' :: ·) ++ url.search ++ url.hash).head?.any isPathSeparator = false := by
  cases first with
  | cons c first =>
    exact ((h.segments (c :: first) (by simp [hpath])).2 c List.mem_cons_self).2
  | nil =>
    cases rest with
    | cons segment rest => exact absurd ⟨segment, rest, hpath⟩ hauthority
    | nil =>
      rw [LocalUrl.search_eq, LocalUrl.hash_eq]
      cases url.query.filter (· ≠ []) with
      | some query => rfl
      | none => cases url.fragment.filter (· ≠ []) <;> rfl

theorem pathAbsolute_eq_some {reference text : List Char} (h : stripped reference = '/' :: text)
    (hhead : text.head?.any isPathSeparator = false) : pathAbsolute reference =
      some ⟨parsePath (cutReference text).1, (cutReference text).2.1.map (percentEncode specialQuerySet),
        (cutReference text).2.2.map (percentEncode fragmentSet)⟩ := by
  rw [pathAbsolute, h]
  exact if_neg (by simp [hhead])

/-- What was parsed and written out reads back, if it does not look like an authority. -/
theorem pathAbsolute_href {url : LocalUrl} (h : url.WellFormed) (hauthority : ¬url.LooksAuthority) :
    pathAbsolute url.href = some url.compact := by
  obtain ⟨first, rest, hpath⟩ := List.exists_cons_of_ne_nil h.path
  have hhead := h.head hauthority hpath
  have hcut := @cutReference_written first rest (url.query.filter (· ≠ [])) (url.fragment.filter (· ≠ []))
    (fun segment hs => (h.segments segment (hpath ▸ hs)).2) fun q hq => h.query q (Option.filter_eq_some_iff.1 hq).1
  rw [← LocalUrl.search_eq, ← LocalUrl.hash_eq] at hcut
  have hsegments := parsePath_names h.path fun segment hs =>
    ⟨(h.segments segment hs).1, fun c hc => ((h.segments segment hs).2 c hc).1⟩
  have hstripped := (stripped_eq_self h.visible).trans (LocalUrl.href_eq hpath)
  rw [pathAbsolute_eq_some hstripped hhead, hcut]
  dsimp only
  rw [← hpath, hsegments]
  have hquery : (url.query.filter (· ≠ [])).map (percentEncode specialQuerySet) = url.query.filter (· ≠ []) := by
    cases hquery : url.query.filter (· ≠ []) with
    | none => rfl
    | some query => exact congrArg some (percentEncode_eq_self (h.query query (Option.filter_eq_some_iff.1 hquery).1))
  have hfragment : (url.fragment.filter (· ≠ [])).map (percentEncode fragmentSet) = url.fragment.filter (· ≠ []) := by
    cases hfragment : url.fragment.filter (· ≠ []) with
    | none => rfl
    | some fragment =>
      exact congrArg some (percentEncode_eq_self (h.fragment fragment (Option.filter_eq_some_iff.1 hfragment).1))
  rw [hquery, hfragment]
  rfl

/-- What looks like an authority is none of the base's. -/
theorem pathAbsolute_href_none {url : LocalUrl} (h : url.WellFormed) (hauthority : url.LooksAuthority) :
    pathAbsolute url.href = none := by
  obtain ⟨segment, rest, hpath⟩ := hauthority
  rw [pathAbsolute, stripped_eq_self h.visible, LocalUrl.href_eq hpath]
  exact if_pos rfl

/-! ## Paths that look like an authority -/

/-- What follows a segment leaves something after it. -/
theorem parsePath_opens {before after : List (List Char)} {segment : List Char} (h : Opens before after)
    (hname : isName segment = true) : ∃ rest, parsePath (before ++ segment :: after) = percentEncode pathSet segment :: rest ∧
      (rest = [] ↔ after = []) := by
  refine ⟨after.foldl pathStep [] ++ if after.getLast?.all isName then [] else [[]], ?_, ?_⟩
  · rw [parsePath, h.walk hname, List.cons_append]
    congr 2
    cases after using List.reverseRecOn with
    | nil => simp [hname]
    | append_singleton after last =>
      rw [← List.cons_append, ← List.append_assoc, List.getLast?_concat, List.getLast?_concat]
      rfl
  · cases after using List.reverseRecOn with
    | nil => simp
    | append_singleton after last =>
      refine iff_of_false (fun hnil => ?_) (by simp)
      obtain ⟨hwalk, hlast⟩ := List.append_eq_nil_iff.1 hnil
      have hlast : isName last = true := by
        cases hl : isName last with
        | true => rfl
        | false => simp [hl] at hlast
      rw [List.foldl_append, List.foldl_cons, List.foldl_nil, pathStep_name hlast] at hwalk
      simp at hwalk

/-- A path starts with an empty segment and has more exactly when an empty segment is not the last, those
before it cancel out and those after it never go back past it. -/
theorem parsePath_looksAuthority {segments : List (List Char)} : (∃ segment rest, parsePath segments = [] :: segment :: rest) ↔
    ∃ before after, segments = before ++ [] :: after ∧ after ≠ [] ∧ Opens before after := by
  constructor
  · rintro ⟨segment, rest, hpath⟩
    have hwalk : segments.foldl pathStep [] ≠ [] := by
      intro hnil
      rw [parsePath, hnil, List.nil_append] at hpath
      split at hpath <;> cases hpath
    obtain ⟨before, first, after, rfl, hname, hopens⟩ := exists_opens segments hwalk
    obtain ⟨tail, htail, hempty⟩ := parsePath_opens hopens hname
    rw [htail] at hpath
    obtain ⟨hfirst, rfl⟩ := List.cons.inj hpath
    rw [percentEncode_eq_nil hfirst]
    exact ⟨before, after, rfl, fun hnil => absurd (hempty.2 hnil) (by simp), hopens⟩
  · rintro ⟨before, after, rfl, hafter, hopens⟩
    have hname : isName [] = true := rfl
    obtain ⟨rest, hrest, hempty⟩ := parsePath_opens hopens hname
    cases rest with
    | nil => exact absurd (hempty.1 rfl) hafter
    | cons segment rest => exact ⟨segment, rest, hrest⟩

end

end Keyforge.Lib
