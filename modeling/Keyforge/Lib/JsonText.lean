/-
The text of a JSON document, read back: `JSON.parse`. A document is read by recursive descent with
fuel, of which the text's length is always enough. Numbers that are not integers are not read. What was
written reads back as the document.
-/
import Keyforge.Lib.Json
import Mathlib.Tactic

namespace Keyforge.Lib.Json

/-! ## String literals -/

def hexDigit (c : Char) : Option Nat :=
  if '0' ≤ c ∧ c ≤ '9' then some (c.toNat - 48)
  else if 'a' ≤ c ∧ c ≤ 'f' then some (c.toNat - 87)
  else if 'A' ≤ c ∧ c ≤ 'F' then some (c.toNat - 55)
  else none

/-- The code unit that four hexadecimal digits write, and what follows it. -/
def codeUnit : List Char → Option (Nat × List Char)
  | a :: b :: c :: d :: cs => do
    let a ← hexDigit a
    let b ← hexDigit b
    let c ← hexDigit c
    let d ← hexDigit d
    some (4096 * a + 256 * b + 16 * c + d, cs)
  | _ => none

/-- The low surrogate that the text begins with. -/
def lowSurrogate : List Char → Option (Nat × List Char)
  | '\x5c' :: 'u' :: cs => (codeUnit cs).filter fun (n, _) => 0xDC00 ≤ n ∧ n < 0xE000
  | _ => none

/-- The character of a code unit; a high surrogate takes the low one that follows, and half a pair is
U+FFFD. -/
def ofCodeUnit (n : Nat) (cs : List Char) : Char × List Char :=
  if n < 0xD800 ∨ 0xE000 ≤ n then (Char.ofNat n, cs)
  else match (lowSurrogate cs).filter fun _ => n < 0xDC00 with
    | some (m, cs) => (Char.ofNat (0x10000 + 0x400 * (n - 0xD800) + (m - 0xDC00)), cs)
    | none => (Char.ofNat 0xFFFD, cs)

def simpleEscape (c : Char) : Option Char :=
  if c = '\x22' ∨ c = '\x5c' ∨ c = '/' then some c
  else if c = 'b' then some '\x08' else if c = 'f' then some '\x0c'
  else if c = 'n' then some '\x0a' else if c = 'r' then some '\x0d' else if c = 't' then some '\x09'
  else none

/-- What follows a backslash. -/
def escaped : List Char → Option (Char × List Char)
  | [] => none
  | c :: cs =>
    if c = 'u' then (codeUnit cs).map fun (n, cs) => ofCodeUnit n cs
    else (simpleEscape c).map fun e => (e, cs)

/-- The rest of a string literal, up to its closing quote. -/
def stringBody : Nat → List Char → Option (List Char × List Char)
  | 0, _ => none
  | _ + 1, [] => none
  | n + 1, c :: cs =>
    if c = '\x22' then some ([], cs)
    else if c = '\x5c' then
      (escaped cs).bind fun (e, cs) => (stringBody n cs).map fun (s, cs) => (e :: s, cs)
    else if c.toNat < 0x20 then none
    else (stringBody n cs).map fun (s, cs) => (c :: s, cs)

/-! ## Numbers -/

def isNumberChar (c : Char) : Bool :=
  c.isDigit || c = '-' || c = '+' || c = '.' || c = 'e' || c = 'E'

/-- Decimal digits without a leading zero. -/
def natural (cs : List Char) : Option Nat :=
  if cs ≠ [] ∧ cs.all Char.isDigit ∧ (cs.head? = some '0' → cs = ['0']) then some (Nat.ofDigitChars 10 cs 0) else none

def integer : List Char → Option Int
  | '-' :: cs => (natural cs).map fun n => -Int.ofNat n
  | cs => (natural cs).map Int.ofNat

def number (cs : List Char) : Option (Json × List Char) :=
  (integer (cs.takeWhile isNumberChar)).map fun n => (.int n, cs.dropWhile isNumberChar)

/-! ## Documents -/

def isSpace (c : Char) : Bool :=
  c = ' ' || c = '\x09' || c = '\x0a' || c = '\x0d'

def skipSpace (cs : List Char) : List Char :=
  cs.dropWhile isSpace

/-- A literal name or a number. -/
def word (cs : List Char) : Option (Json × List Char) :=
  if "null".toList.isPrefixOf cs then some (.null, cs.drop 4)
  else if "true".toList.isPrefixOf cs then some (.bool true, cs.drop 4)
  else if "false".toList.isPrefixOf cs then some (.bool false, cs.drop 5)
  else number cs

/-- The text after white space and `c`. -/
def after (c : Char) (cs : List Char) : Option (List Char) :=
  match skipSpace cs with
  | [] => none
  | d :: cs => if d = c then some cs else none

/-- A member's name and the colon after it. -/
def memberName (n : Nat) (cs : List Char) : Option (String × List Char) :=
  (after '\x22' cs).bind fun cs => (stringBody n cs).bind fun (key, cs) =>
    (after ':' cs).map fun cs => (String.ofList key, cs)

mutual

/-- The value the text begins with, and what follows it. -/
def value : Nat → List Char → Option (Json × List Char)
  | 0, _ => none
  | n + 1, cs =>
    match skipSpace cs with
    | [] => none
    | c :: cs =>
      if c = '\x22' then (stringBody n cs).map fun (s, cs) => (.str (String.ofList s), cs)
      else if c = '[' then
        if (skipSpace cs).head? = some ']' then some (.arr [], (skipSpace cs).tail)
        else (elements n cs).map fun (elements, cs) => (.arr elements, cs)
      else if c = '\x7b' then
        if (skipSpace cs).head? = some '\x7d' then some (.obj [], (skipSpace cs).tail)
        else (members n cs).map fun (members, cs) => (.obj members, cs)
      else word (c :: cs)

/-- The elements of an array, one at least, with its closing bracket. -/
def elements : Nat → List Char → Option (List Json × List Char)
  | 0, _ => none
  | n + 1, cs => (value n cs).bind fun (element, cs) =>
    match skipSpace cs with
    | [] => none
    | c :: cs =>
      if c = ',' then (elements n cs).map fun (elements, cs) => (element :: elements, cs)
      else if c = ']' then some ([element], cs)
      else none

/-- The members of an object, one at least, with its closing brace. -/
def members : Nat → List Char → Option (List (String × Json) × List Char)
  | 0, _ => none
  | n + 1, cs => (memberName n cs).bind fun (key, cs) => (value n cs).bind fun (value, cs) =>
    match skipSpace cs with
    | [] => none
    | c :: cs =>
      if c = ',' then (members n cs).map fun (members, cs) => ((key, value) :: members, cs)
      else if c = '\x7d' then some ([(key, value)], cs)
      else none

end

/-- `JSON.parse`: a value, and nothing but white space around it. -/
def parse (text : String) : Option Json :=
  (value (text.toList.length + 1) text.toList).bind fun (json, rest) =>
    if skipSpace rest = [] then some json else none

/-! ## Reading what was written -/

theorem hexDigit_digitChar : ∀ d < 16, hexDigit (Nat.digitChar d) = some d := by
  decide

/-- A control character reads back from its two hexadecimal digits. -/
theorem codeUnit_control {c : Char} (h : c.toNat < 0x20) (cs : List Char) :
    codeUnit ('0' :: '0' :: Nat.digitChar (c.toNat / 16) :: Nat.digitChar (c.toNat % 16) :: cs) = some (c.toNat, cs) := by
  have h0 : hexDigit '0' = some 0 := rfl
  rw [codeUnit, h0, hexDigit_digitChar _ (by omega), hexDigit_digitChar _ (by omega)]
  show some (4096 * 0 + 256 * 0 + 16 * (c.toNat / 16) + c.toNat % 16, cs) = _
  rw [show 4096 * 0 + 256 * 0 + 16 * (c.toNat / 16) + c.toNat % 16 = c.toNat by omega]

/-- One written character reads back. -/
theorem stringBody_escape (c : Char) (n : Nat) (cs : List Char) :
    stringBody (n + 1) ((escape c).toList ++ cs) = (stringBody n cs).map fun (s, cs) => (c :: s, cs) := by
  unfold escape
  split
  · subst_vars
    rfl
  split
  · subst_vars
    rfl
  split
  · subst_vars
    rfl
  split
  · subst_vars
    rfl
  split
  · subst_vars
    rfl
  split
  · subst_vars
    rfl
  split
  · subst_vars
    rfl
  rename_i hquote hbackslash _ _ _ _ _
  split
  · rename_i hcontrol
    have hchar : ofCodeUnit c.toNat cs = (c, cs) := by
      rw [ofCodeUnit, if_pos (Or.inl (by omega)), Char.ofNat_toNat]
    have hunit : ((codeUnit ('0' :: '0' :: Nat.digitChar (c.toNat / 16) :: Nat.digitChar (c.toNat % 16) :: cs)).map
        fun (n, cs) => ofCodeUnit n cs) = some (c, cs) := by
      rw [codeUnit_control hcontrol]
      exact congrArg some hchar
    have htext : ("\\u00" ++ String.ofList [Nat.digitChar (c.toNat / 16), Nat.digitChar (c.toNat % 16)]).toList ++ cs =
        '\x5c' :: 'u' :: '0' :: '0' :: Nat.digitChar (c.toNat / 16) :: Nat.digitChar (c.toNat % 16) :: cs := by
      simp
    rw [htext, stringBody, if_neg (by decide), if_pos rfl, escaped, if_pos rfl, hunit]
    rfl
  · rename_i hplain
    rw [String.toList_singleton, List.singleton_append, stringBody, if_neg hquote, if_neg hbackslash, if_neg hplain]

theorem toList_quote (s : String) (cs : List Char) :
    (quote s).toList ++ cs = '\x22' :: (s.toList.flatMap (fun c => (escape c).toList) ++ '\x22' :: cs) := by
  simp [quote, List.flatMap_map]

theorem stringBody_escapes : ∀ (s : List Char) (n : Nat) (cs : List Char), s.length < n →
    stringBody n (s.flatMap (fun c => (escape c).toList) ++ '\x22' :: cs) = some (s, cs)
  | [], n + 1, cs, _ => by rw [List.flatMap_nil, List.nil_append, stringBody, if_pos rfl]
  | c :: s, n + 1, cs, h => by
    rw [List.flatMap_cons, List.append_assoc, stringBody_escape, stringBody_escapes s n cs (Nat.lt_of_succ_lt_succ h)]
    rfl

theorem length_le_escapes (s : List Char) : s.length ≤ (s.flatMap fun c => (escape c).toList).length := by
  induction s with
  | nil => exact Nat.le_refl 0
  | cons c s ih =>
    have hpos : 1 ≤ (escape c).toList.length := by
      unfold escape
      repeat' split
      all_goals simp
    rw [List.flatMap_cons, List.length_append, List.length_cons]
    omega

theorem stringBody_quote {s : String} {n : Nat} (h : (quote s).toList.length ≤ n + 1) (cs : List Char) :
    stringBody n (s.toList.flatMap (fun c => (escape c).toList) ++ '\x22' :: cs) = some (s.toList, cs) := by
  refine stringBody_escapes s.toList n cs ?_
  have hle := length_le_escapes s.toList
  have hlen := congrArg List.length (toList_quote s [])
  rw [List.append_nil, List.length_cons, List.length_append, List.length_cons, List.length_nil] at hlen
  omega

/-! ### Numbers -/

/-- Decimal digits begin with a zero for zero alone. -/
theorem head_toDigits (n : Nat) (hn : n ≠ 0) : (Nat.toDigits 10 n).head? ≠ some '0' := by
  induction n using Nat.strongRecOn with
  | ind n ih =>
    rw [Nat.toDigits_eq_if (by decide)]
    split
    · simpa using hn
    · rename_i hge
      have hrest := ih (n / 10) (by omega) (by omega)
      rw [List.head?_append_of_ne_nil _ Nat.toDigits_ne_nil]
      exact hrest

theorem natural_toDigits (n : Nat) : natural (Nat.toDigits 10 n) = some n := by
  have hdigits : (Nat.toDigits 10 n).all Char.isDigit = true :=
    List.all_eq_true.2 fun c hc => Nat.isDigit_of_mem_toDigits (by decide) (by decide) hc
  have hzero : (Nat.toDigits 10 n).head? = some '0' → Nat.toDigits 10 n = ['0'] := by
    intro h
    by_cases hn : n = 0
    · rw [hn]
      rfl
    · exact absurd h (head_toDigits n hn)
  rw [natural, if_pos ⟨Nat.toDigits_ne_nil, hdigits, hzero⟩, Nat.ofDigitChars_ten_toDigits]

theorem toList_int (n : Int) :
    (toString n).toList = if 0 ≤ n then Nat.toDigits 10 n.toNat else '-' :: Nat.toDigits 10 (-n).toNat := by
  rw [Int.toString_eq_repr, Int.repr_eq_if]
  split <;> simp

theorem integer_toString (n : Int) : integer (toString n).toList = some n := by
  rw [toList_int]
  split
  · rename_i hn
    have hnat := natural_toDigits n.toNat
    cases hd : Nat.toDigits 10 n.toNat with
    | nil => exact absurd hd Nat.toDigits_ne_nil
    | cons d ds =>
      have hdigit : d.isDigit = true := Nat.isDigit_of_mem_toDigits (by decide) (by decide) (hd ▸ List.mem_cons_self)
      rw [hd] at hnat
      rw [integer, hnat, Option.map_some, Int.ofNat_eq_natCast, Int.toNat_of_nonneg hn]
      intro ds' hminus
      rw [(List.cons.inj hminus).1] at hdigit
      exact absurd hdigit (by decide)
  · rename_i hn
    rw [integer, natural_toDigits, Option.map_some, Int.ofNat_eq_natCast, Int.toNat_of_nonneg (by omega), neg_neg]

theorem isNumberChar_toString (n : Int) : ∀ c ∈ (toString n).toList, isNumberChar c = true := by
  have hdigit : ∀ m : Nat, ∀ c ∈ Nat.toDigits 10 m, isNumberChar c = true := by
    intro m c hc
    rw [isNumberChar, Nat.isDigit_of_mem_toDigits (by decide) (by decide) hc]
    simp
  rw [toList_int]
  split
  · exact hdigit _
  · intro c hc
    rcases List.mem_cons.1 hc with rfl | hc
    · rfl
    · exact hdigit _ c hc

/-- The text goes on with no character of a number. -/
def NumberEnds (cs : List Char) : Prop :=
  ∀ c ∈ cs.head?, isNumberChar c = false

theorem number_toString (n : Int) {cs : List Char} (h : NumberEnds cs) :
    number ((toString n).toList ++ cs) = some (.int n, cs) := by
  have hall := isNumberChar_toString n
  have htake : cs.takeWhile isNumberChar = [] := by
    cases cs with
    | nil => rfl
    | cons c cs => rw [List.takeWhile_cons, h c rfl, if_neg Bool.false_ne_true]
  have hdrop : cs.dropWhile isNumberChar = cs := by
    cases cs with
    | nil => rfl
    | cons c cs => rw [List.dropWhile_cons, h c rfl, if_neg Bool.false_ne_true]
  rw [number, List.takeWhile_append_of_pos hall, List.dropWhile_append_of_pos hall, htake, hdrop, List.append_nil,
    integer_toString]
  rfl

/-! ### Documents -/

theorem skipSpace_cons {c : Char} (h : isSpace c = false) (cs : List Char) : skipSpace (c :: cs) = c :: cs := by
  rw [skipSpace, List.dropWhile_cons, h, if_neg Bool.false_ne_true]

/-- A document begins with a character that neither is white space nor closes an array. -/
theorem render_head (json : Json) : ∃ c cs, json.render.toList = c :: cs ∧ isSpace c = false ∧ c ≠ ']' := by
  cases json with
  | null => exact ⟨'n', _, rfl, rfl, by decide⟩
  | bool b => cases b <;> exact ⟨_, _, rfl, rfl, by decide⟩
  | int n =>
    have hall := isNumberChar_toString n
    rw [render]
    cases h : (toString n).toList with
    | nil =>
      have hint := integer_toString n
      rw [h] at hint
      cases hint
    | cons c cs =>
      have hc := hall c (h ▸ List.mem_cons_self)
      refine ⟨c, cs, rfl, ?_, ?_⟩
      · by_contra hspace
        simp only [isSpace, Bool.not_eq_false, Bool.or_eq_true, decide_eq_true_eq] at hspace
        rcases hspace with ((rfl | rfl) | rfl) | rfl <;> cases hc
      · rintro rfl
        cases hc
  | str s =>
    have hquote := toList_quote s []
    rw [List.append_nil] at hquote
    exact ⟨_, _, hquote, rfl, by decide⟩
  | arr elements => exact ⟨'[', _, by rw [render, String.toList_append, String.toList_append]; rfl, rfl, by decide⟩
  | obj members => exact ⟨'\x7b', _, by rw [render, String.toList_append, String.toList_append]; rfl, rfl, by decide⟩

theorem renderElements_ne_nil (element : Json) (elements : List Json) : renderElements (element :: elements) ≠ [] := by
  rw [renderElements]
  exact List.cons_ne_nil _ _

theorem renderMembers_ne_nil (key : String) (json : Json) (members : List (String × Json)) :
    renderMembers ((key, json) :: members) ≠ [] := by
  rw [renderMembers]
  exact List.cons_ne_nil _ _

/-- The text of a list of parts with something after it. -/
def joined (parts : List String) (cs : List Char) : List Char :=
  (",".intercalate parts).toList ++ cs

theorem joined_singleton (part : String) (cs : List Char) : joined [part] cs = part.toList ++ cs := by
  rw [joined, String.intercalate_singleton]

theorem joined_cons {part : String} {parts : List String} (h : parts ≠ []) (cs : List Char) :
    joined (part :: parts) cs = part.toList ++ ',' :: joined parts cs := by
  rw [joined, String.intercalate_cons_of_ne_nil h, String.toList_append, String.toList_append, List.append_assoc,
    List.append_assoc]
  rfl

theorem length_joined (parts : List String) (c : Char) (cs : List Char) :
    (joined parts (c :: cs)).length = (joined parts []).length + 1 + cs.length := by
  simp only [joined, List.length_append, List.length_cons, List.length_nil]
  omega

theorem after_cons {c : Char} (h : isSpace c = false) (cs : List Char) : after c (c :: cs) = some cs := by
  rw [after, skipSpace_cons h]
  exact if_pos rfl

theorem memberName_quote {key : String} {n : Nat} (h : (quote key).toList.length ≤ n + 1) (cs : List Char) :
    memberName n ((quote key).toList ++ ':' :: cs) = some (key, cs) := by
  rw [toList_quote, memberName, after_cons rfl, Option.bind_some, stringBody_quote h, Option.bind_some]
  dsimp only
  rw [after_cons rfl, Option.map_some, String.ofList_toList]

theorem word_toString (n : Int) {cs : List Char} (h : NumberEnds cs) :
    word ((toString n).toList ++ cs) = some (.int n, cs) := by
  have hnumber := number_toString n h
  obtain ⟨c, ds, hhead, -⟩ := render_head (.int n)
  rw [render] at hhead
  have hc : isNumberChar c = true := isNumberChar_toString n c (hhead ▸ List.mem_cons_self)
  rw [hhead, List.cons_append] at hnumber ⊢
  have hnot : ∀ (name : String) (d : Char) (l : List Char), name.toList = d :: l → isNumberChar d = false →
      ¬ name.toList.isPrefixOf (c :: (ds ++ cs)) = true := by
    intro name d l hname hd hstarts
    rw [hname, List.isPrefixOf_cons_cons, Bool.and_eq_true, beq_iff_eq] at hstarts
    rw [hstarts.1, hc] at hd
    cases hd
  rw [word, if_neg (hnot "null" 'n' _ rfl rfl), if_neg (hnot "true" 't' _ rfl rfl), if_neg (hnot "false" 'f' _ rfl rfl),
    hnumber]

/-! ### The round trip -/

theorem numberEnds_cons {c : Char} (h : isNumberChar c = false) (cs : List Char) : NumberEnds (c :: cs) := by
  intro d hd
  cases hd
  exact h

section

variable {n : Nat} {cs : List Char}

theorem value_word {c : Char} (hspace : isSpace c = false) (hc : c ≠ '\x22') (ha : c ≠ '[') (ho : c ≠ '\x7b') :
    value (n + 1) (c :: cs) = word (c :: cs) := by
  rw [value, skipSpace_cons hspace]
  dsimp only
  rw [if_neg hc, if_neg ha, if_neg ho]

theorem value_arr_nil : value (n + 1) ('[' :: ']' :: cs) = some (.arr [], cs) := by
  rw [value, skipSpace_cons rfl]
  dsimp only
  rw [if_neg (by decide), if_pos rfl, skipSpace_cons rfl]
  rfl

theorem value_arr (h : (skipSpace cs).head? ≠ some ']') :
    value (n + 1) ('[' :: cs) = (elements n cs).map fun (elements, cs) => (.arr elements, cs) := by
  rw [value, skipSpace_cons rfl]
  dsimp only
  rw [if_neg (by decide), if_pos rfl, if_neg h]

theorem value_obj_nil : value (n + 1) ('\x7b' :: '\x7d' :: cs) = some (.obj [], cs) := by
  rw [value, skipSpace_cons rfl]
  dsimp only
  rw [if_neg (by decide), if_neg (by decide), if_pos rfl, skipSpace_cons rfl]
  rfl

theorem value_obj (h : (skipSpace cs).head? ≠ some '\x7d') :
    value (n + 1) ('\x7b' :: cs) = (members n cs).map fun (members, cs) => (.obj members, cs) := by
  rw [value, skipSpace_cons rfl]
  dsimp only
  rw [if_neg (by decide), if_neg (by decide), if_pos rfl, if_neg h]

theorem toList_arr (es : List Json) :
    (render (.arr es)).toList ++ cs = '[' :: joined (renderElements es) (']' :: cs) := by
  rw [render, String.toList_append, String.toList_append, List.append_assoc, List.append_assoc]
  rfl

theorem toList_obj (ms : List (String × Json)) :
    (render (.obj ms)).toList ++ cs = '\x7b' :: joined (renderMembers ms) ('\x7d' :: cs) := by
  rw [render, String.toList_append, String.toList_append, List.append_assoc, List.append_assoc]
  rfl

/-- Where elements begin, no bracket closes. -/
theorem head_elements (element : Json) (rest : List Json) :
    (skipSpace (joined (renderElements (element :: rest)) cs)).head? ≠ some ']' := by
  obtain ⟨c, ds, hhead, hspace, hc⟩ := render_head element
  have hcons : ∃ es, joined (renderElements (element :: rest)) cs = c :: es := by
    rw [renderElements]
    cases rest with
    | nil => exact ⟨ds ++ cs, by rw [renderElements, joined_singleton, hhead]; rfl⟩
    | cons next rest => exact ⟨_, by rw [joined_cons (renderElements_ne_nil next rest), hhead, List.cons_append]⟩
  obtain ⟨es, hes⟩ := hcons
  rw [hes, skipSpace_cons hspace]
  exact fun h => hc (Option.some.inj h)

theorem toList_member (key : String) (json : Json) :
    (quote key ++ ":" ++ json.render).toList ++ cs = (quote key).toList ++ ':' :: (json.render.toList ++ cs) := by
  rw [String.toList_append, String.toList_append, List.append_assoc, List.append_assoc]
  rfl

/-- Where members begin, no brace closes. -/
theorem head_members (key : String) (json : Json) (rest : List (String × Json)) :
    (skipSpace (joined (renderMembers ((key, json) :: rest)) cs)).head? ≠ some '\x7d' := by
  have hcons : ∃ es, joined (renderMembers ((key, json) :: rest)) cs = '\x22' :: es := by
    rw [renderMembers]
    cases rest with
    | nil => exact ⟨_, by rw [renderMembers, joined_singleton, toList_member, toList_quote]⟩
    | cons next rest =>
      exact ⟨_, by rw [joined_cons (renderMembers_ne_nil next.1 next.2 rest), toList_member, toList_quote]⟩
  obtain ⟨es, hes⟩ := hcons
  rw [hes, skipSpace_cons rfl]
  exact fun h => absurd (Option.some.inj h) (by decide)

end

mutual

/-- A written value reads back, whatever follows it. -/
theorem value_render : ∀ (json : Json) (n : Nat) (cs : List Char), json.render.toList.length < n → NumberEnds cs →
    value n (json.render.toList ++ cs) = some (json, cs)
  | _, 0 => fun _ h _ => absurd h (Nat.not_lt_zero _)
  | .null, n + 1 => fun cs _ _ => by
    rw [render]
    exact (value_word rfl (by decide) (by decide) (by decide)).trans rfl
  | .bool true, n + 1 => fun cs _ _ => by
    rw [render]
    exact (value_word rfl (by decide) (by decide) (by decide)).trans rfl
  | .bool false, n + 1 => fun cs _ _ => by
    rw [render]
    exact (value_word rfl (by decide) (by decide) (by decide)).trans rfl
  | .int i, n + 1 => fun cs _ hcs => by
    have hword := word_toString i hcs
    have hall := isNumberChar_toString i
    obtain ⟨c, ds, hhead, hspace, -⟩ := render_head (.int i)
    rw [render] at hhead ⊢
    rw [hhead] at hall hword ⊢
    have hc := hall c List.mem_cons_self
    refine (value_word hspace ?_ ?_ ?_).trans hword
    all_goals
      rintro rfl
      cases hc
  | .str s, n + 1 => fun cs h _ => by
    rw [render] at h ⊢
    rw [toList_quote, value, skipSpace_cons rfl]
    dsimp only
    rw [if_pos rfl, stringBody_quote (Nat.le_of_lt h), Option.map_some, String.ofList_toList]
  | .arr [], n + 1 => fun cs _ _ => by
    rw [toList_arr, renderElements]
    exact value_arr_nil
  | .arr (element :: rest), n + 1 => fun cs h _ => by
    have hlen := congrArg List.length (show (render (.arr (element :: rest))).toList ++ [] = _ from toList_arr (element :: rest))
    rw [List.append_nil, List.length_cons, length_joined, List.length_nil] at hlen
    rw [toList_arr, value_arr (head_elements element rest), elements_render element rest n cs (by omega)]
    rfl
  | .obj [], n + 1 => fun cs _ _ => by
    rw [toList_obj, renderMembers]
    exact value_obj_nil
  | .obj ((key, json) :: rest), n + 1 => fun cs h _ => by
    have hlen := congrArg List.length (show (render (.obj ((key, json) :: rest))).toList ++ [] = _ from toList_obj ((key, json) :: rest))
    rw [List.append_nil, List.length_cons, length_joined, List.length_nil] at hlen
    rw [toList_obj, value_obj (head_members key json rest), members_render key json rest n cs (by omega)]
    rfl

theorem elements_render : ∀ (element : Json) (rest : List Json) (n : Nat) (cs : List Char),
    (joined (renderElements (element :: rest)) []).length + 1 < n →
    elements n (joined (renderElements (element :: rest)) (']' :: cs)) = some (element :: rest, cs)
  | _, _, 0 => fun _ h => absurd h (Nat.not_lt_zero _)
  | element, [], n + 1 => fun cs h => by
    rw [renderElements, renderElements, joined_singleton] at h ⊢
    rw [List.append_nil] at h
    rw [elements, value_render element n _ (by omega) (numberEnds_cons rfl _), Option.bind_some]
    dsimp only
    rw [skipSpace_cons rfl]
    exact (if_neg (by decide)).trans (if_pos rfl)
  | element, next :: rest, n + 1 => fun cs h => by
    rw [renderElements, joined_cons (renderElements_ne_nil next rest)] at h ⊢
    rw [List.length_append, List.length_cons] at h
    rw [elements, value_render element n _ (by omega) (numberEnds_cons rfl _), Option.bind_some]
    dsimp only
    rw [skipSpace_cons rfl]
    refine (if_pos rfl).trans ?_
    rw [elements_render next rest n cs (by omega)]
    rfl

theorem members_render : ∀ (key : String) (json : Json) (rest : List (String × Json)) (n : Nat) (cs : List Char),
    (joined (renderMembers ((key, json) :: rest)) []).length + 1 < n →
    members n (joined (renderMembers ((key, json) :: rest)) ('\x7d' :: cs)) = some ((key, json) :: rest, cs)
  | _, _, _, 0 => fun _ h => absurd h (Nat.not_lt_zero _)
  | key, json, [], n + 1 => fun cs h => by
    rw [renderMembers, renderMembers, joined_singleton, toList_member] at h ⊢
    rw [List.length_append, List.length_cons, List.append_nil] at h
    rw [members, memberName_quote (by omega), Option.bind_some]
    dsimp only
    rw [value_render json n _ (by omega) (numberEnds_cons rfl _), Option.bind_some]
    dsimp only
    rw [skipSpace_cons rfl]
    exact (if_neg (by decide)).trans (if_pos rfl)
  | key, json, (key', json') :: rest, n + 1 => fun cs h => by
    rw [renderMembers, joined_cons (renderMembers_ne_nil key' json' rest), toList_member] at h ⊢
    rw [List.length_append, List.length_cons, List.length_append, List.length_cons] at h
    rw [members, memberName_quote (by omega), Option.bind_some]
    dsimp only
    rw [value_render json n _ (by omega) (numberEnds_cons rfl _), Option.bind_some]
    dsimp only
    rw [skipSpace_cons rfl]
    refine (if_pos rfl).trans ?_
    rw [members_render key' json' rest n cs (by omega)]
    rfl

end

/-- A written document reads back. -/
theorem parse_render (json : Json) : parse json.render = some json := by
  have h := value_render json (json.render.toList.length + 1) [] (Nat.lt_succ_self _) nofun
  rw [List.append_nil] at h
  rw [parse, h, Option.bind_some]
  exact if_pos rfl

end Keyforge.Lib.Json
