/-
Public internet addresses (`oauth/client-id-metadata.ts`): the two parsers, the range tests and the
special-use ranges.
-/
import Keyforge.Lib.AddressText

namespace Keyforge.OAuth

open Lib

/-! ## IPv4 -/

/-- A part as a number, if it is an octet (`/^\d{1,3}$/`, at most 255). -/
def parseOctet (part : List Char) : Option Nat :=
  if 1 ≤ part.length && part.length ≤ 3 && part.all decimalDigits.contains then
    let octet := part.foldl (fun value c => value * 10 + digitValue c) 0
    if octet > 255 then none else some octet
  else none

def parseIpv4 (raw : List Char) : Option Nat :=
  let parts := raw.splitOn '.'
  if parts.length ≠ 4 then none
  else do
    let octets ← parts.mapM parseOctet
    let value := octets.foldl (fun value octet => value * 256 + octet) 0
    pure (value % 2 ^ 32)

/-- The mask and the comparison are on 32-bit words. -/
def ipv4InCidr (value base length : Nat) : Bool :=
  let mask : BitVec 32 := if length = 0 then 0 else 0xffffffff#32 <<< (32 - length)
  BitVec.ofNat 32 value &&& mask = BitVec.ofNat 32 base &&& mask

def SPECIAL_IPV4_RANGES : List (String × Nat) :=
  [("0.0.0.0", 8), ("10.0.0.0", 8), ("100.64.0.0", 10), ("127.0.0.0", 8), ("169.254.0.0", 16), ("172.16.0.0", 12),
    ("192.0.0.0", 24), ("192.0.2.0", 24), ("192.168.0.0", 16), ("198.18.0.0", 15), ("198.51.100.0", 24),
    ("203.0.113.0", 24), ("224.0.0.0", 4), ("240.0.0.0", 4)]

/-! ## IPv6 -/

def lowerHexDigits : List Char := "0123456789abcdef".toList

/-- The words of a piece: two of an IPv4 address, one of a hexadecimal group (`/^[0-9a-f]{1,4}$/`). -/
def parsePiece (piece : List Char) : Option (List Nat) :=
  match parseIpv4 piece with
  | some ipv4 => some [(ipv4 >>> 16) &&& 0xffff, ipv4 &&& 0xffff]
  | none =>
    if 1 ≤ piece.length && piece.length ≤ 4 && piece.all lowerHexDigits.contains then
      some [piece.foldl (fun value c => value * 16 + digitValue c) 0]
    else none

def parseHalf (half : List Char) : Option (List Nat) :=
  if half = [] then some []
  else do
    let words ← (half.splitOn ':').mapM parsePiece
    pure words.flatten

/-- The value of the halves, with zeros for the words that are missing between them. -/
def joinHalves (halves : List (List Char)) : Option Nat :=
  if halves.length > 2 then none
  else do
    let left ← parseHalf (halves[0]?.getD [])
    let right ← parseHalf (halves[1]?.getD [])
    let missing : Int := 8 - left.length - right.length
    if (halves.length = 1 && missing ≠ 0) || (halves.length = 2 && missing < 1) then none
    else
      let words := left ++ List.replicate missing.toNat 0 ++ right
      if words.length ≠ 8 then none
      else some (words.foldl (fun value word => (value <<< 16) ||| word) 0)

/-- `toLowerCase` of a character beyond ASCII is no character that the parser takes. -/
def parseIpv6 (raw : List Char) : Option Nat :=
  let input := (cutAt '%' (raw.map Char.toLower)).1
  if input = [] then none else joinHalves (splitPairs ':' input)

def ipv6InCidr (value base length : Nat) : Bool :=
  let shift := 128 - length
  value >>> shift = base >>> shift

def SPECIAL_IPV6_RANGES : List (String × Nat) :=
  [("::", 128), ("::1", 128), ("::ffff:0:0", 96), ("64:ff9b::", 96), ("64:ff9b:1::", 48), ("100::", 64), ("2001::", 23),
    ("2001:db8::", 32), ("2002::", 16), ("fc00::", 7), ("fe80::", 10), ("ff00::", 8)]

/-! ## Public addresses -/

/-- `raw.replace(/^\[|\]$/g, "")`. -/
def stripBrackets (raw : List Char) : List Char :=
  let opened := if raw.head? = some '[' then raw.tail else raw
  if opened.getLast? = some ']' then opened.dropLast else opened

/-- Reject every special-use address before making the metadata subrequest. -/
def isPublicInternetAddress (raw : List Char) : Bool :=
  match parseIpv4 raw with
  | some ipv4 =>
    !SPECIAL_IPV4_RANGES.any fun r => (parseIpv4 r.1.toList).any fun base => ipv4InCidr ipv4 base r.2
  | none =>
    match parseIpv6 (stripBrackets raw) with
    | none => false
    | some ipv6 => !SPECIAL_IPV6_RANGES.any fun r => (parseIpv6 r.1.toList).any fun base => ipv6InCidr ipv6 base r.2

/-! ## What the parsers read -/

theorem parseOctet_iff {part : List Char} {octet : Nat} : parseOctet part = some octet ↔ Octet part octet := by
  unfold parseOctet
  rw [← numeral_eq]
  constructor
  · intro h
    split at h
    · rename_i hpart
      simp only [Bool.and_eq_true, decide_eq_true_eq, List.all_eq_true, List.contains_iff_mem] at hpart
      dsimp only at h
      split at h
      · cases h
      · rename_i hsmall
        cases h
        exact ⟨hpart.1, hpart.2, rfl, Nat.not_lt.1 hsmall⟩
    · cases h
  · rintro ⟨hlength, hdigits, rfl, hsmall⟩
    have hall : part.all decimalDigits.contains = true := List.all_eq_true.2 fun c hc => List.contains_iff_mem.2 (hdigits c hc)
    simp [hlength.1, hlength.2, hall, Nat.not_lt.2 hsmall]

/-- Dotted decimal is what the IPv4 parser reads, and nothing else. -/
theorem parseIpv4_iff {raw : List Char} {value : Nat} : parseIpv4 raw = some value ↔ DottedDecimal raw value := by
  have hvalue : ∀ {pieces : List (List Char)} {octets : List Nat}, List.Forall₂ Octet pieces octets → octets.length = 4 →
      octets.foldl (fun value octet => value * 256 + octet) 0 % 2 ^ 32 = bigEndian 256 octets := by
    intro pieces octets hoctets hlength
    rw [← bigEndian_eq]
    exact Nat.mod_eq_of_lt (DottedDecimal.lt ⟨pieces, octets, rfl, hoctets, hlength, rfl⟩)
  unfold parseIpv4
  constructor
  · intro h
    dsimp only at h
    split at h
    · cases h
    · rename_i hlength
      obtain ⟨octets, hparts, heq⟩ := Option.bind_eq_some_iff.1 h
      cases heq
      have hoctets : List.Forall₂ Octet (raw.splitOn '.') octets :=
        (mapM_eq_some.1 hparts).imp fun _ _ hoctet => parseOctet_iff.1 hoctet
      have hfour : octets.length = 4 := hoctets.length_eq ▸ not_not.1 hlength
      exact ⟨raw.splitOn '.', octets, (List.intercalate_splitOn '.').symm, hoctets, hfour, (hvalue hoctets hfour).symm⟩
  · rintro ⟨pieces, octets, rfl, hoctets, hlength, rfl⟩
    have hfour : pieces.length = 4 := hoctets.length_eq.trans hlength
    have hfree : ∀ piece ∈ pieces, '.' ∉ piece := by
      intro piece hpiece hdot
      obtain ⟨octet, -, hoctet⟩ := exists_right_of_forall₂ hoctets piece hpiece
      exact absurd (hoctet.digits '.' hdot) (by decide)
    have hne : pieces ≠ [] := by
      rintro rfl
      cases hfour
    rw [List.splitOn_intercalate '.' hfree hne]
    dsimp only
    rw [if_neg (not_not.2 hfour), mapM_eq_some.2 (hoctets.imp fun _ _ hoctet => parseOctet_iff.2 hoctet)]
    show some _ = _
    rw [hvalue hoctets hlength]

/-- What the IPv4 parser reads has digits and dots only. -/
theorem parseIpv4_chars {raw : List Char} {value : Nat} (h : parseIpv4 raw = some value) :
    ∀ c ∈ raw, c ∈ '.' :: decimalDigits :=
  (parseIpv4_iff.1 h).chars

theorem parseIpv4_none {raw : List Char} {c : Char} (hc : c ∈ raw) (h : c ∉ '.' :: decimalDigits) : parseIpv4 raw = none := by
  rw [Option.eq_none_iff_forall_ne_some]
  exact fun value hvalue => h (parseIpv4_chars hvalue c hc)

/-- Without a dot there are no four parts. -/
theorem parseIpv4_none_of_dotless {raw : List Char} (h : '.' ∉ raw) : parseIpv4 raw = none := by
  have hsplit : raw.splitOn '.' = [raw] := by
    have hone := @List.splitOn_intercalate Char [raw] _ _ '.' (by simpa using h) (by simp)
    rwa [List.intercalate_singleton] at hone
  rw [parseIpv4, hsplit]
  rfl

theorem toLower_hexDigits : ∀ c ∈ hexDigits, c.toLower ∈ lowerHexDigits ∧ digitValue c.toLower = digitValue c :=
  List.all_iff_forall_prop.1 (by decide)

theorem toLower_dotted : ∀ c ∈ '.' :: decimalDigits, c.toLower = c :=
  List.all_iff_forall_prop.1 (by decide)

theorem toLower_dotted_plain : ∀ c ∈ '.' :: decimalDigits, c.toLower ≠ ':' ∧ c.toLower ≠ '%' :=
  List.all_iff_forall_prop.1 (by decide)

theorem lowerHexDigits_plain : ∀ c ∈ lowerHexDigits, c ≠ '.' ∧ c ≠ ':' ∧ c ≠ '%' :=
  List.all_iff_forall_prop.1 (by decide)

theorem lowerHexDigits_subset : ∀ c ∈ lowerHexDigits, c ∈ hexDigits :=
  List.all_iff_forall_prop.1 (by decide)

/-- A group in either case is read as its word. -/
theorem parsePiece_group {piece : List Char} {word : Nat} (h : Group piece word) :
    parsePiece (piece.map Char.toLower) = some [word] := by
  have hlower : ∀ c ∈ piece.map Char.toLower, c ∈ lowerHexDigits := by
    intro c hc
    obtain ⟨d, hd, rfl⟩ := List.mem_map.1 hc
    exact (toLower_hexDigits d (h.digits d hd)).1
  have hvalue : numeral 16 (piece.map Char.toLower) = word := by
    rw [← h.value, numeral, numeral, List.map_reverse, List.map_reverse, List.map_map]
    congr 2
    exact List.map_congr_left fun c hc => (toLower_hexDigits c (h.digits c hc)).2
  have hdotless : '.' ∉ piece.map Char.toLower := fun hdot => (lowerHexDigits_plain _ (hlower _ hdot)).1 rfl
  have hall : (piece.map Char.toLower).all lowerHexDigits.contains = true :=
    List.all_eq_true.2 fun c hc => List.contains_iff_mem.2 (hlower c hc)
  unfold parsePiece
  rw [parseIpv4_none_of_dotless hdotless, ← numeral_eq, hvalue, hall]
  simp [h.length.1, h.length.2]

/-- Dotted decimal is read as its two words. -/
theorem parsePiece_dotted {text : List Char} {value : Nat} (h : DottedDecimal text value) :
    parsePiece (text.map Char.toLower) = some [value / 65536, value % 65536] := by
  have hparse := parseIpv4_iff.2 h
  have hsame : text.map Char.toLower = text :=
    (List.map_congr_left fun c hc => toLower_dotted c (h.chars c hc)).trans (List.map_id text)
  have hlt := h.lt
  unfold parsePiece
  rw [hsame, hparse]
  simp only [Option.some.injEq, List.cons.injEq, and_true]
  constructor
  · rw [Nat.shiftRight_eq_div_pow, show 0xffff = 2 ^ 16 - 1 from rfl, Nat.and_two_pow_sub_one_eq_mod]
    omega
  · rw [show 0xffff = 2 ^ 16 - 1 from rfl, Nat.and_two_pow_sub_one_eq_mod]

/-- A piece that is not empty and leaves the text's separators alone. -/
def PlainPiece (piece : List Char) : Prop :=
  piece ≠ [] ∧ ∀ c ∈ piece, c ≠ ':' ∧ c ≠ '%'

theorem plainPiece_group {piece : List Char} {word : Nat} (h : Group piece word) : PlainPiece (piece.map Char.toLower) := by
  refine ⟨fun hnil => ?_, fun c hc => ?_⟩
  · have hlength := h.length.1
    rw [List.map_eq_nil_iff.1 hnil] at hlength
    cases hlength
  · obtain ⟨d, hd, rfl⟩ := List.mem_map.1 hc
    exact (lowerHexDigits_plain _ (toLower_hexDigits d (h.digits d hd)).1).2

theorem plainPiece_dotted {text : List Char} {value : Nat} (h : DottedDecimal text value) :
    PlainPiece (text.map Char.toLower) := by
  have hparse := parseIpv4_iff.2 h
  refine ⟨fun hnil => ?_, fun c hc => ?_⟩
  · rw [List.map_eq_nil_iff.1 hnil] at hparse
    cases hparse
  · obtain ⟨d, hd, rfl⟩ := List.mem_map.1 hc
    exact toLower_dotted_plain d (h.chars d hd)

/-- The pieces of an address: each plain, and together read as its words. -/
theorem parsePieces_lastGroups {pieces : List (List Char)} {words : List Nat} (h : LastGroups pieces words) :
    (∀ piece ∈ pieces.map (·.map Char.toLower), PlainPiece piece) ∧
      ∃ parsed, (pieces.map (·.map Char.toLower)).mapM parsePiece = some parsed ∧ parsed.flatten = words := by
  have hgroups : ∀ {pieces : List (List Char)} {words : List Nat}, List.Forall₂ Group pieces words →
      (∀ piece ∈ pieces.map (·.map Char.toLower), PlainPiece piece) ∧
        (pieces.map (·.map Char.toLower)).mapM parsePiece = some (words.map ([·])) := by
    intro pieces words h
    induction h with
    | nil => exact ⟨fun _ h => absurd h List.not_mem_nil, rfl⟩
    | cons hgroup _ ih =>
      refine ⟨?_, ?_⟩
      · rw [List.map_cons]
        exact List.forall_mem_cons.2 ⟨plainPiece_group hgroup, ih.1⟩
      · rw [List.map_cons, List.mapM_cons, parsePiece_group hgroup, ih.2]
        rfl
  have hflatten : ∀ words : List Nat, (words.map ([·])).flatten = words := fun words => by
    rw [← List.flatMap_def, List.flatMap_singleton']
  cases h with
  | groups h => exact ⟨(hgroups h).1, _, (hgroups h).2, hflatten _⟩
  | @dotted pieces words text value h ht =>
    obtain ⟨hplain, hparsed⟩ := hgroups h
    refine ⟨?_, words.map ([·]) ++ [[value / 65536, value % 65536]], ?_, ?_⟩
    · rw [List.map_append, List.forall_mem_append]
      exact ⟨hplain, by simpa using plainPiece_dotted ht⟩
    · rw [List.map_append, List.mapM_append, hparsed, List.map_singleton, List.mapM_cons, parsePiece_dotted ht]
      rfl
    · rw [List.flatten_append, hflatten]
      rfl

theorem map_intercalate {α β : Type} (f : α → β) (sep : List α) : ∀ pieces : List (List α),
    (sep.intercalate pieces).map f = (sep.map f).intercalate (pieces.map (·.map f))
  | [] => rfl
  | [piece] => by simp
  | piece :: next :: pieces => by
    have ih := map_intercalate f sep (next :: pieces)
    rw [List.intercalate_cons_cons, List.map_append, List.map_append, ih]
    simp only [List.map_cons, List.intercalate_cons_cons]

theorem intercalate_eq_nil {pieces : List (List Char)} (h : ∀ piece ∈ pieces, PlainPiece piece)
    (hnil : [':'].intercalate pieces = []) : pieces = [] := by
  cases pieces with
  | nil => rfl
  | cons piece pieces =>
    obtain ⟨⟨hne, -⟩, -⟩ := List.forall_mem_cons.1 h
    cases pieces with
    | nil => exact absurd (by simpa using hnil) hne
    | cons next pieces =>
      rw [List.intercalate_cons_cons] at hnil
      simp [hne] at hnil

theorem parseHalf_pieces {pieces : List (List Char)} {parsed : List (List Nat)} (h : ∀ piece ∈ pieces, PlainPiece piece)
    (hparsed : pieces.mapM parsePiece = some parsed) : parseHalf ([':'].intercalate pieces) = some parsed.flatten := by
  unfold parseHalf
  by_cases hnil : [':'].intercalate pieces = []
  · rw [if_pos hnil]
    rw [intercalate_eq_nil h hnil] at hparsed
    cases hparsed
    rfl
  · have hne : pieces ≠ [] := by
      rintro rfl
      exact hnil rfl
    rw [if_neg hnil, List.splitOn_intercalate ':' (fun piece hpiece hc => ((h piece hpiece).2 ':' hc).1 rfl) hne, hparsed]
    rfl

/-- What reads 16-bit words one after another, by shifts. -/
theorem shifted_words {words : List Nat} (h : ∀ word ∈ words, word < 65536) :
    words.foldl (fun value word => (value <<< 16) ||| word) 0 = bigEndian 65536 words := by
  rw [bigEndian_eq]
  generalize 0 = value
  induction words generalizing value with
  | nil => rfl
  | cons word words ih =>
    obtain ⟨hword, hrest⟩ := List.forall_mem_cons.1 h
    rw [List.foldl_cons, List.foldl_cons, ← Nat.shiftLeft_add_eq_or_of_lt (show word < 2 ^ 16 from hword), Nat.shiftLeft_eq]
    exact ih hrest _

/-- The parser on text without a zone. -/
theorem parseIpv6_eq {raw : List Char} (hzone : ∀ c ∈ raw.map Char.toLower, c ≠ '%') (hne : raw ≠ []) :
    parseIpv6 raw = joinHalves (splitPairs ':' (raw.map Char.toLower)) := by
  unfold parseIpv6
  rw [cutAt_self hzone]
  dsimp only
  rw [if_neg (mt List.map_eq_nil_iff.1 hne)]

theorem joinHalves_one {half : List Char} {words : List Nat} (h : parseHalf half = some words) (hlength : words.length = 8)
    (hlt : ∀ word ∈ words, word < 65536) : joinHalves [half] = some (bigEndian 65536 words) := by
  have hnil : parseHalf [] = some [] := rfl
  unfold joinHalves
  simp [h, hnil, hlength, shifted_words hlt]

theorem joinHalves_two {half half' : List Char} {left right : List Nat} {zeros : Nat} (h : parseHalf half = some left)
    (h' : parseHalf half' = some right) (hzeros : 1 ≤ zeros) (hlength : left.length + zeros + right.length = 8)
    (hlt : ∀ word ∈ left ++ List.replicate zeros 0 ++ right, word < 65536) :
    joinHalves [half, half'] = some (bigEndian 65536 (left ++ List.replicate zeros 0 ++ right)) := by
  have hmissing : 8 - left.length - right.length = zeros := by omega
  have hpositive : ¬(8 : Int) - left.length - right.length < 1 := by omega
  have hsum : left.length + (zeros + right.length) = 8 := by omega
  rw [← shifted_words hlt]
  unfold joinHalves
  simp [h, h', hmissing, hpositive, hsum]

/-- Every form of an address is read as its value. -/
theorem parseIpv6_text {text : List Char} {value : Nat} (h : AddressText text value) : parseIpv6 text = some value := by
  have hlower : [':'].map Char.toLower = [':'] := by decide
  -- plain pieces hold neither a separator nor a zone
  have hplain_free : ∀ {pieces : List (List Char)}, (∀ piece ∈ pieces, PlainPiece piece) →
      (∀ piece ∈ pieces, piece ≠ [] ∧ ∀ c ∈ piece, c ≠ ':') ∧ ∀ c ∈ [':'].intercalate pieces, c ≠ '%' := by
    intro pieces hplain
    refine ⟨fun piece hpiece => ⟨(hplain piece hpiece).1, fun c hc => ((hplain piece hpiece).2 c hc).1⟩, fun c hc => ?_⟩
    rcases mem_intercalate hc with hsep | ⟨piece, hpiece, hc⟩
    · rw [List.mem_singleton.1 hsep]
      decide
    · exact ((hplain piece hpiece).2 c hc).2
  cases h with
  | @full pieces words h hlength =>
    obtain ⟨hplain, parsed, hparsed, hwords⟩ := parsePieces_lastGroups h
    obtain ⟨hpieces, hzone⟩ := hplain_free hplain
    have hhalf := parseHalf_pieces hplain hparsed
    -- no gap: all the groups are in one half
    have hsplit := @splitPairs_intercalate Char _ ':' [] _ hpieces
    rw [List.append_nil] at hsplit
    have hne : [':'].intercalate pieces ≠ [] := by
      intro hnil
      have hlowered : [':'].intercalate (pieces.map (·.map Char.toLower)) = [] := by
        rw [← hlower, ← map_intercalate, hnil]
        rfl
      rw [hlowered, hwords] at hhalf
      cases hhalf
      cases hlength
    rw [parseIpv6_eq (by rwa [map_intercalate, hlower]) hne, map_intercalate, hlower, hsplit]
    rw [hwords] at hhalf
    exact joinHalves_one (by simpa [splitPairs] using hhalf) hlength h.lt
  | @compressed left right leftWords rightWords zeros hleft hright hzeros hlength =>
    obtain ⟨hplain, parsed, hparsed, hwords⟩ := parsePieces_lastGroups (.groups hleft)
    obtain ⟨hplain', parsed', hparsed', hwords'⟩ := parsePieces_lastGroups hright
    obtain ⟨hpieces, hzone⟩ := hplain_free hplain
    obtain ⟨hpieces', hzone'⟩ := hplain_free hplain'
    have hhalf := parseHalf_pieces hplain hparsed
    have hhalf' := parseHalf_pieces hplain' hparsed'
    -- lower case does not move the gap
    have hmap : ([':'].intercalate left ++ ':' :: ':' :: [':'].intercalate right).map Char.toLower =
        [':'].intercalate (left.map (·.map Char.toLower)) ++ ':' :: ':' :: [':'].intercalate (right.map (·.map Char.toLower)) := by
      rw [List.map_append, List.map_cons, List.map_cons, map_intercalate, map_intercalate, hlower]
      rfl
    have hsplit := @splitPairs_intercalate Char _ ':' (':' :: ':' :: [':'].intercalate (right.map (·.map Char.toLower))) _ hpieces
    have hsplit' := @splitPairs_intercalate Char _ ':' [] _ hpieces'
    rw [List.append_nil] at hsplit'
    rw [parseIpv6_eq ?_ (by simp), hmap, hsplit, splitPairs, if_pos ⟨rfl, rfl⟩, hsplit']
    · rw [hwords] at hhalf
      rw [hwords'] at hhalf'
      -- the zeros fill the gap
      refine joinHalves_two (by simpa using hhalf) (by simpa [splitPairs] using hhalf') hzeros hlength ?_
      rw [List.forall_mem_append, List.forall_mem_append]
      refine ⟨⟨(LastGroups.groups hleft).lt, fun word hword => ?_⟩, hright.lt⟩
      rw [List.eq_of_mem_replicate hword]
      decide
    · rw [hmap]
      intro c hc
      rcases List.mem_append.1 hc with hc | hc
      · exact hzone c hc
      · rcases List.mem_cons.1 hc with rfl | hc
        · decide
        · rcases List.mem_cons.1 hc with rfl | hc
          · decide
          · exact hzone' c hc

/-! ## What the IPv6 parser reads without a zone and dots -/

theorem parsePiece_some {piece : List Char} {words : List Nat} (hdot : '.' ∉ piece) (h : parsePiece piece = some words) :
    ∃ word, words = [word] ∧ Group piece word := by
  unfold parsePiece at h
  rw [parseIpv4_none_of_dotless hdot, ← numeral_eq] at h
  dsimp only at h
  split at h
  · rename_i hpiece
    simp only [Bool.and_eq_true, decide_eq_true_eq, List.all_eq_true, List.contains_iff_mem] at hpiece
    cases h
    exact ⟨_, rfl, hpiece.1, fun c hc => lowerHexDigits_subset c (hpiece.2 c hc), rfl⟩
  · cases h

theorem parseHalf_some {half : List Char} {words : List Nat} (hdot : '.' ∉ half) (h : parseHalf half = some words) :
    ∃ pieces, half = [':'].intercalate pieces ∧ List.Forall₂ Group pieces words := by
  have hflatten : ∀ {pieces : List (List Char)} {parsed : List (List Nat)},
      List.Forall₂ (fun piece words => ∃ word, words = [word] ∧ Group piece word) pieces parsed →
        List.Forall₂ Group pieces parsed.flatten := by
    intro pieces parsed hparsed
    induction hparsed with
    | nil => exact .nil
    | cons hpiece _ ih =>
      obtain ⟨word, rfl, hgroup⟩ := hpiece
      exact .cons hgroup ih
  unfold parseHalf at h
  split at h
  · rename_i hnil
    cases h
    exact ⟨[], hnil, .nil⟩
  · obtain ⟨parsed, hparsed, heq⟩ := Option.bind_eq_some_iff.1 h
    cases heq
    refine ⟨half.splitOn ':', (List.intercalate_splitOn ':').symm, hflatten ?_⟩
    refine forall₂_imp_of_mem (fun piece hpiece words hwords => parsePiece_some (fun hin => hdot ?_) hwords)
      (mapM_eq_some.1 hparsed)
    rw [← @List.intercalate_splitOn Char half _ _ ':']
    exact mem_intercalate_of_mem hpiece hin

/-- Lower-case text without a zone and without dots is read only if it is a form of an address. -/
theorem addressText_of_parseIpv6 {raw : List Char} {value : Nat} (hlower : raw.map Char.toLower = raw)
    (hplain : ∀ c ∈ raw, c ≠ '%' ∧ c ≠ '.') (h : parseIpv6 raw = some value) : AddressText raw value := by
  unfold parseIpv6 at h
  rw [hlower, cutAt_self fun c hc => (hplain c hc).1] at h
  dsimp only at h
  split at h
  · cases h
  · have hraw := @intercalate_splitPairs Char _ ':' raw
    -- without a dot no half ends in an IPv4 address
    have hdotless : ∀ half ∈ splitPairs ':' raw, '.' ∉ half := by
      intro half hhalf hin
      refine (hplain '.' ?_).2 rfl
      rw [← hraw]
      exact mem_intercalate_of_mem hhalf hin
    have hne := @splitPairs_ne_nil Char _ ':' raw
    generalize splitPairs ':' raw = halves at h hraw hdotless hne
    subst hraw
    unfold joinHalves at h
    split at h
    · cases h
    · rename_i htwo
      obtain ⟨left, hleft, h⟩ := Option.bind_eq_some_iff.1 h
      obtain ⟨right, hright, h⟩ := Option.bind_eq_some_iff.1 h
      dsimp only at h
      split at h
      · cases h
      · rename_i hmissing
        simp only [Bool.or_eq_true, Bool.and_eq_true, decide_eq_true_eq, not_or, not_and] at hmissing
        split at h
        · cases h
        · rename_i hwords
          cases h
          have height := not_not.1 hwords
          simp only [List.length_append, List.length_replicate] at height
          -- one half is the full form, two are the compressed one
          match halves, htwo with
          | [], _ => exact absurd rfl hne
          | [half], _ =>
            obtain ⟨pieces, rfl, hgroups⟩ := parseHalf_some (hdotless half List.mem_cons_self) hleft
            cases hright
            have hzero : (8 : Int) - left.length - 0 = 0 := by simpa using hmissing.1 rfl
            have hcount : left.length = 8 := by omega
            have hwords : left ++ List.replicate ((8 : Int) - left.length - ([] : List Nat).length).toNat 0 ++ [] = left := by
              simp [hcount]
            rw [hwords, shifted_words (LastGroups.groups hgroups).lt, List.intercalate_singleton]
            exact .full (.groups hgroups) hcount
          | [half, half'], _ =>
            obtain ⟨pieces, rfl, hgroups⟩ := parseHalf_some (hdotless _ List.mem_cons_self) hleft
            obtain ⟨pieces', rfl, hgroups'⟩ := parseHalf_some (hdotless _ (List.mem_cons_of_mem _ List.mem_cons_self)) hright
            have hzeros : ¬(8 : Int) - left.length - right.length < 1 := hmissing.2 rfl
            rw [shifted_words, List.intercalate_cons_cons, List.intercalate_singleton, List.append_assoc]
            · exact .compressed hgroups (.groups hgroups') (by omega) (by omega)
            · rw [List.forall_mem_append, List.forall_mem_append]
              refine ⟨⟨(LastGroups.groups hgroups).lt, fun word hword => ?_⟩, (LastGroups.groups hgroups').lt⟩
              rw [List.eq_of_mem_replicate hword]
              decide
          | _ :: _ :: _ :: _, htwo => simp at htwo

/-! ## Ranges -/

/-- The value has the first `length` of `bits` bits of the base. -/
def InCidr (bits value base length : Nat) : Prop :=
  value / 2 ^ (bits - length) = base / 2 ^ (bits - length)

theorem ipv4InCidr_iff {value base length : Nat} (hvalue : value < 2 ^ 32) (hbase : base < 2 ^ 32) (hlength : 1 ≤ length) :
    ipv4InCidr value base length = true ↔ InCidr 32 value base length := by
  have hmask : ∀ x : BitVec 32, x &&& (0xffffffff#32 <<< (32 - length)) = x >>> (32 - length) <<< (32 - length) := by
    intro x
    rw [BitVec.shiftLeft_ushiftRight]
    rfl
  have hnat : ∀ n : Nat, n < 2 ^ 32 →
      ((BitVec.ofNat 32 n) >>> (32 - length) <<< (32 - length)).toNat = n / 2 ^ (32 - length) * 2 ^ (32 - length) := by
    intro n hn
    rw [BitVec.toNat_shiftLeft, BitVec.toNat_ushiftRight, BitVec.toNat_ofNat, Nat.mod_eq_of_lt hn, Nat.shiftLeft_eq,
      Nat.shiftRight_eq_div_pow]
    exact Nat.mod_eq_of_lt (Nat.lt_of_le_of_lt (Nat.div_mul_le_self _ _) hn)
  unfold ipv4InCidr InCidr
  dsimp only
  rw [if_neg (by omega), decide_eq_true_eq, hmask, hmask, ← BitVec.toNat_inj, hnat value hvalue, hnat base hbase]
  exact Nat.mul_left_inj (by positivity)

theorem ipv6InCidr_iff {value base length : Nat} : ipv6InCidr value base length = true ↔ InCidr 128 value base length := by
  unfold ipv6InCidr InCidr
  dsimp only
  rw [decide_eq_true_eq, Nat.shiftRight_eq_div_pow, Nat.shiftRight_eq_div_pow]

/-! ## Public addresses -/

theorem isPublicInternetAddress_ipv4 {text : List Char} {value : Nat} (h : DottedDecimal text value) :
    isPublicInternetAddress text = false ↔
      ∃ r ∈ SPECIAL_IPV4_RANGES, ∃ base, DottedDecimal r.1.toList base ∧ InCidr 32 value base r.2 := by
  have hlengths : ∀ r ∈ SPECIAL_IPV4_RANGES, 1 ≤ r.2 := by decide
  unfold isPublicInternetAddress
  rw [parseIpv4_iff.2 h]
  dsimp only
  rw [Bool.not_eq_false', List.any_eq_true]
  refine exists_congr fun r => and_congr_right fun hr => ?_
  rw [Option.any_eq_true]
  refine exists_congr fun base => ?_
  rw [parseIpv4_iff]
  refine and_congr_right fun hbase => ?_
  exact ipv4InCidr_iff h.lt hbase.lt (hlengths r hr)

theorem stripBrackets_eq_self {text : List Char} (h : ∀ c ∈ text, c ≠ '[' ∧ c ≠ ']') : stripBrackets text = text := by
  have hhead : text.head? ≠ some '[' := fun heq => (h _ (List.mem_of_mem_head? heq)).1 rfl
  have hlast : text.getLast? ≠ some ']' := fun heq => (h _ (List.mem_of_getLast? heq)).2 rfl
  unfold stripBrackets
  rw [if_neg hhead]
  exact if_neg hlast

/-- Brackets around a text go. -/
theorem stripBrackets_bracketed (text : List Char) : stripBrackets ('[' :: text ++ [']']) = text := by
  simp [stripBrackets]

theorem addressChars_plain : ∀ c ∈ ':' :: '.' :: hexDigits, c ≠ '[' ∧ c ≠ ']' :=
  List.all_iff_forall_prop.1 (by decide)

/-- The listed IPv6 ranges are written as addresses are. -/
theorem specialIpv6_text {r : String × Nat} (hr : r ∈ SPECIAL_IPV6_RANGES) {base : Nat} :
    parseIpv6 r.1.toList = some base ↔ AddressText r.1.toList base := by
  have hchars : ∀ r ∈ SPECIAL_IPV6_RANGES, r.1.toList.map Char.toLower = r.1.toList ∧
      (r.1.toList.all fun c => c ≠ '%' ∧ c ≠ '.') = true := by decide
  exact ⟨addressText_of_parseIpv6 (hchars r hr).1 (List.all_iff_forall_prop.1 (hchars r hr).2), parseIpv6_text⟩

theorem isPublicInternetAddress_ipv6 {text : List Char} {value : Nat} (h : AddressText text value) :
    isPublicInternetAddress text = false ↔
      ∃ r ∈ SPECIAL_IPV6_RANGES, ∃ base, AddressText r.1.toList base ∧ InCidr 128 value base r.2 := by
  obtain ⟨hcolon, hchars⟩ := h.chars
  have hstrip : stripBrackets text = text := by
    refine stripBrackets_eq_self fun c hc => ?_
    exact addressChars_plain c (hchars c hc)
  unfold isPublicInternetAddress
  rw [parseIpv4_none hcolon (by decide), hstrip, parseIpv6_text h]
  dsimp only
  rw [Bool.not_eq_false', List.any_eq_true]
  refine exists_congr fun r => and_congr_right fun hr => ?_
  rw [Option.any_eq_true]
  exact exists_congr fun base => and_congr (specialIpv6_text hr) ipv6InCidr_iff

end Keyforge.OAuth
