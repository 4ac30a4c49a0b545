/-
ECMAScript values as JSON sees them. Objects live in a heap and are referred to, so values may share
objects and be cyclic. A value without cycles unfolds to a tree; the text that `JSON.stringify` writes for
it is the tree's text, and every tree can be allocated as fresh objects.
-/
import Keyforge.Lib.Pointwise

namespace Keyforge.Lib

/-! ## Strings and numbers -/

/-- A string as iteration gives it: code points, with the surrogates that stand alone. -/
abbrev Text := List Nat

instance : LawfulBEq Text := inferInstance

def textOf (s : String) : Text :=
  s.toList.map Char.toNat

theorem textOf_inj {s s' : String} : textOf s = textOf s' ↔ s = s' := by
  unfold textOf
  rw [List.map_inj_right fun c c' h => Char.toNat_inj.1 h, String.toList_inj]

theorem beq_textOf (s s' : String) : (textOf s == textOf s') = decide (s = s') := by
  by_cases h : s = s'
  · rw [h, beq_self_eq_true, decide_eq_true rfl]
  · rw [decide_eq_false h, beq_eq_false_iff_ne.2 fun heq => h (textOf_inj.1 heq)]

/-- The bytes of a code point in UTF-8; a lone surrogate is encoded as U+FFFD. -/
def utf8Bytes (c : Nat) : Nat :=
  if c < 0x80 then 1 else if c < 0x800 then 2 else if c < 0x10000 then 3 else 4

/-- `new TextEncoder().encode(s).byteLength`. -/
def encodedLength (s : Text) : Nat :=
  (s.map utf8Bytes).sum

@[simp] theorem encodedLength_nil : encodedLength [] = 0 := rfl

@[simp] theorem encodedLength_cons (c : Nat) (s : Text) : encodedLength (c :: s) = utf8Bytes c + encodedLength s := rfl

@[simp] theorem encodedLength_append (s s' : Text) : encodedLength (s ++ s') = encodedLength s + encodedLength s' := by
  rw [encodedLength, List.map_append, List.sum_append]
  rfl

/-- What is asked of numbers: which of them are finite, how they are written, and the natural ones. -/
class JsNumber (ν : Type) where
  isFinite : ν → Bool
  text : ν → Text
  ofNat : Nat → ν
  isFinite_ofNat : ∀ n, isFinite (ofNat n) = true

/-! ## Values and trees -/

/-- A value; objects are referred to. Functions and symbols are one. -/
inductive JsValue (ν : Type) where
  | undefined
  | null
  | bool (b : Bool)
  | number (x : ν)
  | bigint (digits : Text)
  | string (s : Text)
  | function
  | ref (o : Nat)
  deriving DecidableEq, Repr

/-- What may be `undefined` or `null`. -/
inductive Nullish (α : Type) where
  | undefined
  | null
  | value (a : α)

def Nullish.map {α β : Type} (f : α → β) : Nullish α → Nullish β
  | .undefined => .undefined
  | .null => .null
  | .value a => .value (f a)

/-- The value that stands for it. -/
def Nullish.toJs {α ν : Type} (f : α → JsValue ν) : Nullish α → JsValue ν
  | .undefined => .undefined
  | .null => .null
  | .value a => f a

/-- An object: an array, a plain object with its own entries, or one whose entries cannot be read. -/
inductive JsObject (ν : Type) where
  | array (items : List (JsValue ν))
  | record (entries : List (Text × JsValue ν)) (nodup : (entries.map Prod.fst).Nodup)
  | unreadable

abbrev Heap (ν : Type) := List (JsObject ν)

def Heap.object {ν : Type} (h : Heap ν) (o : Nat) : JsObject ν :=
  (h[o]?).getD .unreadable

/-- A value without sharing. -/
inductive JsTree (ν : Type) where
  | null
  | bool (b : Bool)
  | number (x : ν)
  | string (s : Text)
  | array (items : List (JsTree ν))
  | record (entries : List (Text × JsTree ν))

variable {ν : Type}

/-- `entries[key] = value`: in place, or at the end. -/
def assign {α : Type} (entries : List (Text × α)) (key : Text) (value : α) : List (Text × α) :=
  if key ∈ entries.map Prod.fst then entries.map fun e => if e.1 = key then (key, value) else e else entries ++ [(key, value)]

theorem assign_of_notMem {α : Type} {entries : List (Text × α)} {key : Text} {value : α} (h : key ∉ entries.map Prod.fst) :
    assign entries key value = entries ++ [(key, value)] :=
  if_neg h

theorem map_fst_assign {α : Type} (entries : List (Text × α)) (key : Text) (value : α) :
    (assign entries key value).map Prod.fst = if key ∈ entries.map Prod.fst then entries.map Prod.fst else entries.map Prod.fst ++ [key] := by
  unfold assign
  split
  · rw [List.map_map]
    refine List.map_congr_left fun e _ => ?_
    by_cases he : e.1 = key
    · rw [Function.comp, if_pos he, he]
    · rw [Function.comp, if_neg he]
  · rw [List.map_append]
    rfl

theorem mem_of_mem_assign {α : Type} {entries : List (Text × α)} {key : Text} {value : α} {e : Text × α}
    (he : e ∈ assign entries key value) : e = (key, value) ∨ e ∈ entries := by
  unfold assign at he
  split at he
  · obtain ⟨e', he', rfl⟩ := List.mem_map.1 he
    split
    · exact .inl rfl
    · exact .inr he'
  · exact (List.mem_append.1 he).elim .inr fun hlast => .inl (List.mem_singleton.1 hlast)

theorem length_assign_le {α : Type} (entries : List (Text × α)) (key : Text) (value : α) :
    (assign entries key value).length ≤ entries.length + 1 := by
  unfold assign
  split
  · rw [List.length_map]
    exact Nat.le_succ _
  · rw [List.length_append, List.length_singleton]

theorem mem_keys_assign {α : Type} (entries : List (Text × α)) (key : Text) (value : α) :
    key ∈ (assign entries key value).map Prod.fst := by
  rw [map_fst_assign]
  split
  · assumption
  · exact List.mem_append_right _ (List.mem_singleton_self key)

/-- A value that weighs nothing adds nothing. -/
theorem sum_assign_le {α : Type} {weight : Text × α → Nat} {key : Text} {value : α} (hweight : weight (key, value) = 0)
    (entries : List (Text × α)) : ((assign entries key value).map weight).sum ≤ (entries.map weight).sum := by
  unfold assign
  split
  · rw [List.map_map]
    refine List.sum_le_sum fun e _ => ?_
    by_cases he : e.1 = key
    · rw [Function.comp, if_pos he, hweight]
      exact Nat.zero_le _
    · rw [Function.comp, if_neg he]
  · rw [List.map_append, List.sum_append, List.map_singleton, List.sum_singleton, hweight, Nat.add_zero]

theorem nodup_assign {α : Type} {entries : List (Text × α)} (h : (entries.map Prod.fst).Nodup) (key : Text) (value : α) :
    ((assign entries key value).map Prod.fst).Nodup := by
  rw [map_fst_assign]
  split
  · exact h
  · rename_i hkey
    exact List.nodup_append.2 ⟨h, List.nodup_singleton key, fun a ha b hb heq => hkey (List.mem_singleton.1 hb ▸ heq ▸ ha)⟩

/-- Entries defined one after the other. -/
def defineAll {α : Type} (entries : List (Text × α)) : List (Text × α) :=
  entries.foldl (fun defined e => assign defined e.1 e.2) []

theorem nodup_foldl_assign {α : Type} : ∀ (entries defined : List (Text × α)), (defined.map Prod.fst).Nodup →
    ((entries.foldl (fun defined e => assign defined e.1 e.2) defined).map Prod.fst).Nodup
  | [], _, h => h
  | e :: entries, _, h => nodup_foldl_assign entries _ (nodup_assign h e.1 e.2)

theorem nodup_defineAll {α : Type} (entries : List (Text × α)) : ((defineAll entries).map Prod.fst).Nodup :=
  nodup_foldl_assign entries [] List.nodup_nil

theorem foldl_assign {α : Type} : ∀ (entries defined : List (Text × α)), ((defined ++ entries).map Prod.fst).Nodup →
    entries.foldl (fun defined e => assign defined e.1 e.2) defined = defined ++ entries
  | [], defined, _ => (List.append_nil defined).symm
  | e :: entries, defined, h => by
    have hnew : e.1 ∉ defined.map Prod.fst := by
      rw [List.map_append, List.map_cons] at h
      exact fun hmem => (List.disjoint_of_nodup_append h) hmem List.mem_cons_self
    have hsplit : defined ++ e :: entries = (defined ++ [e]) ++ entries := by rw [List.append_assoc]; rfl
    rw [List.foldl_cons, assign_of_notMem hnew, hsplit]
    exact foldl_assign entries _ (hsplit ▸ h)

theorem defineAll_eq {α : Type} {entries : List (Text × α)} (h : (entries.map Prod.fst).Nodup) : defineAll entries = entries :=
  foldl_assign entries [] h

/-! ## Properties -/

/-- The value of a property. -/
def property (entries : List (Text × JsValue ν)) (key : Text) : JsValue ν :=
  (entries.lookup key).getD .undefined

theorem lookup_replace {α : Type} (key : Text) (value : α) (key' : Text) : ∀ entries : List (Text × α),
    (entries.map fun e => if e.1 = key then (key, value) else e).lookup key' =
      if key' = key then (entries.lookup key').map fun _ => value else entries.lookup key'
  | [] => by simp
  | (k, a) :: entries => by
    have ih := lookup_replace key value key' entries
    by_cases hk : k = key
    · subst hk
      by_cases h : key' = k
      · simp [h]
      · simpa [h, List.lookup_cons, beq_eq_false_iff_ne.2 h] using ih
    · by_cases h : key' = k
      · simp [h, hk]
      · simpa [hk, List.lookup_cons, beq_eq_false_iff_ne.2 h] using ih

theorem lookup_assign {α : Type} (entries : List (Text × α)) (key : Text) (value : α) (key' : Text) :
    (assign entries key value).lookup key' = if key' = key then some value else entries.lookup key' := by
  unfold assign
  by_cases hkey : key ∈ entries.map Prod.fst
  · rw [if_pos hkey, lookup_replace]
    by_cases h : key' = key
    · obtain ⟨e, he, rfl⟩ := List.mem_map.1 hkey
      have hsome : (entries.lookup e.1).isSome := List.lookup_isSome_iff.2 ⟨e, he, beq_self_eq_true _⟩
      obtain ⟨a, ha⟩ := Option.isSome_iff_exists.1 hsome
      rw [if_pos h, if_pos h, h, ha, Option.map_some]
    · rw [if_neg h, if_neg h]
  · rw [if_neg hkey, List.lookup_append]
    by_cases h : key' = key
    · have hnone : entries.lookup key = none := List.lookup_eq_none_iff.2 fun e he => by
        simpa using fun heq => hkey (List.mem_map.2 ⟨e, he, heq.symm⟩)
      rw [if_pos h, h, hnone]
      simp
    · simp [h, List.lookup_cons, beq_eq_false_iff_ne.2 h]

/-- Of several definitions of one property the last counts. -/
theorem lookup_foldl_assign {α : Type} (key : Text) : ∀ entries defined : List (Text × α),
    (entries.foldl (fun defined e => assign defined e.1 e.2) defined).lookup key =
      (entries.reverse.lookup key).or (defined.lookup key)
  | [], _ => rfl
  | (k, a) :: entries, defined => by
    rw [List.foldl_cons, lookup_foldl_assign key entries, lookup_assign, List.reverse_cons, List.lookup_append, Option.or_assoc]
    by_cases h : key = k
    · simp [h]
    · simp [h, List.lookup_cons, beq_eq_false_iff_ne.2 h]

theorem lookup_defineAll {α : Type} (entries : List (Text × α)) (key : Text) :
    (defineAll entries).lookup key = entries.reverse.lookup key := by
  rw [defineAll, lookup_foldl_assign]
  exact Option.or_none

/-- Where keys are distinct the order does not matter. -/
theorem lookup_reverse {α : Type} {entries : List (Text × α)} (hnodup : (entries.map Prod.fst).Nodup) (key : Text) :
    entries.reverse.lookup key = entries.lookup key := by
  rw [← lookup_defineAll, defineAll_eq hnodup]

/-! ## JSON text -/

def hexCode (d : Nat) : Nat :=
  if d < 10 then 0x30 + d else 0x57 + d

/-- How a code point stands in a string literal. -/
def escapeCode (c : Nat) : Text :=
  if c = 0x22 || c = 0x5C then [0x5C, c]
  else if c = 0x08 then textOf "\\b" else if c = 0x0C then textOf "\\f"
  else if c = 0x0A then textOf "\\n" else if c = 0x0D then textOf "\\r" else if c = 0x09 then textOf "\\t"
  else if c < 0x20 || (0xD800 ≤ c && c ≤ 0xDFFF) then
    textOf "\\u" ++ [hexCode (c / 4096), hexCode (c / 256 % 16), hexCode (c / 16 % 16), hexCode (c % 16)]
  else [c]

def quote (s : Text) : Text :=
  textOf "\"" ++ s.flatMap escapeCode ++ textOf "\""

/-- Parts with commas between them, in brackets. -/
def bracketed (left right : String) (parts : List Text) : Text :=
  textOf left ++ (textOf ",").intercalate parts ++ textOf right

def jsonArray (items : List Text) : Text :=
  bracketed "[" "]" items

def jsonRecord (entries : List (Text × Text)) : Text :=
  bracketed "\x7b" "\x7d" (entries.map fun e => quote e.1 ++ textOf ":" ++ e.2)

theorem encodedLength_commas : ∀ parts : List Text,
    encodedLength ((textOf ",").intercalate parts) = (parts.map fun part => encodedLength part + 1).sum - 1
  | [] => rfl
  | [part] => by simp
  | part :: next :: parts => by
    have hcomma : encodedLength (textOf ",") = 1 := by decide
    rw [List.intercalate_cons_cons, encodedLength_append, encodedLength_append, encodedLength_commas (next :: parts), hcomma]
    simp only [List.map_cons, List.sum_cons]
    omega

/-- An object with fewer entries has no longer text. -/
theorem encodedLength_jsonRecord_le {entries entries' : List (Text × Text)} (hsub : List.Sublist entries' entries) :
    encodedLength (jsonRecord entries') ≤ encodedLength (jsonRecord entries) := by
  have hsum : ∀ f : Text × Text → Nat, (entries'.map f).sum ≤ (entries.map f).sum := fun f =>
    (hsub.map f).sum_le_sum fun _ _ => Nat.zero_le _
  have hparts := hsum fun e => encodedLength (quote e.1 ++ textOf ":" ++ e.2) + 1
  simp only [jsonRecord, bracketed, encodedLength_append, encodedLength_commas, List.map_map, Function.comp_def] at hparts ⊢
  omega

section

variable [JsNumber ν]

/-- A number's text; one that is not finite is written as `null`. -/
def numberText (x : ν) : Text :=
  if JsNumber.isFinite x then JsNumber.text x else textOf "null"

mutual

/-- The text of a tree. -/
def JsTree.render : JsTree ν → Text
  | .null => textOf "null"
  | .bool b => textOf (if b then "true" else "false")
  | .number x => numberText x
  | .string s => quote s
  | .array items => jsonArray (renderAll items)
  | .record entries => jsonRecord (renderEntries entries)

def JsTree.renderAll : List (JsTree ν) → List Text
  | [] => []
  | item :: items => item.render :: renderAll items

def JsTree.renderEntries : List (Text × JsTree ν) → List (Text × Text)
  | [] => []
  | (key, value) :: entries => (key, value.render) :: renderEntries entries

end

theorem JsTree.renderAll_eq : ∀ items : List (JsTree ν), renderAll items = items.map JsTree.render
  | [] => rfl
  | item :: items => by rw [renderAll, renderAll_eq items, List.map_cons]

theorem JsTree.renderEntries_eq : ∀ entries : List (Text × JsTree ν), renderEntries entries = entries.map fun e => (e.1, e.2.render)
  | [] => rfl
  | (key, value) :: entries => by rw [renderEntries, renderEntries_eq entries, List.map_cons]

/-- `JSON.stringify` below the objects of `stack`: `none` is an exception (a cycle, a bigint, an object that
cannot be read), `some none` is `undefined`. With fuel for every object, fuel never ends before the stack
repeats. -/
def serialize (h : Heap ν) : Nat → List Nat → JsValue ν → Option (Option Text)
  | fuel, stack, v =>
    match v with
    | .null => some (some (textOf "null"))
    | .bool b => some (some (textOf (if b then "true" else "false")))
    | .number x => some (some (numberText x))
    | .string s => some (some (quote s))
    | .undefined | .function => some none
    | .bigint _ => none
    | .ref o =>
      if stack.contains o then none
      else match fuel with
        | 0 => none
        | fuel + 1 =>
          match h.object o with
          | .array items =>
            (items.mapM (serialize h fuel (o :: stack))).map fun texts => some (jsonArray (texts.map (·.getD (textOf "null"))))
          | .record entries _ =>
            (entries.mapM fun e => (serialize h fuel (o :: stack) e.2).map fun text => text.map (Prod.mk e.1)).map fun texts =>
              some (jsonRecord (texts.filterMap id))
          | .unreadable => none

/-- `JSON.stringify`. -/
def stringify (h : Heap ν) (v : JsValue ν) : Option (Option Text) :=
  serialize h h.length [] v

end

/-! ## Unfolding -/

/-- The value unfolds to the tree, at most `levels` objects deep. -/
def Unfolds (h : Heap ν) : Nat → JsTree ν → JsValue ν → Prop
  | levels, t, v =>
    match v with
    | .null => t = .null
    | .bool b => t = .bool b
    | .number x => t = .number x
    | .string s => t = .string s
    | .undefined | .function | .bigint _ => False
    | .ref o =>
      match levels with
      | 0 => False
      | levels + 1 =>
        match h.object o with
        | .array items => ∃ ts, t = .array ts ∧ List.Forall₂ (Unfolds h levels) ts items
        | .record entries _ =>
          ∃ ts, t = .record ts ∧ List.Forall₂ (fun t e => t.1 = e.1 ∧ Unfolds h levels t.2 e.2) ts entries
        | .unreadable => False

/-- What unfolds to an object refers to one, with its entries. -/
theorem Unfolds.object {h : Heap ν} {levels : Nat} {entries : List (Text × JsTree ν)} {v : JsValue ν}
    (hu : Unfolds h levels (.record entries) v) : ∃ o own nodup below, v = .ref o ∧ h.object o = .record own nodup ∧
      levels = below + 1 ∧ List.Forall₂ (fun t e => t.1 = e.1 ∧ Unfolds h below t.2 e.2) entries own := by
  unfold Unfolds at hu
  cases v with
  | ref o =>
    cases levels with
    | zero => exact hu.elim
    | succ levels =>
      dsimp only at hu
      cases hobject : h.object o with
      | array items =>
        rw [hobject] at hu
        obtain ⟨ts, hts, -⟩ := hu
        cases hts
      | record own nodup =>
        rw [hobject] at hu
        obtain ⟨ts, hts, hentries⟩ := hu
        cases hts
        exact ⟨o, own, nodup, levels, rfl, hobject, rfl, hentries⟩
      | unreadable =>
        rw [hobject] at hu
        exact hu.elim
  | undefined | function | bigint => exact hu.elim
  | null | bool | number | string => cases hu

/-- What refers to no array unfolds to an object. -/
theorem Unfolds.record {h : Heap ν} {levels : Nat} {t : JsTree ν} {o : Nat} (hu : Unfolds h levels t (.ref o))
    (harray : ∀ items, h.object o ≠ .array items) : ∃ entries, t = .record entries := by
  cases levels with
  | zero => exact hu.elim
  | succ levels =>
    rw [Unfolds] at hu
    cases hobject : h.object o with
    | array items => exact absurd hobject (harray items)
    | record own nodup =>
      rw [hobject] at hu
      obtain ⟨entries, ht, -⟩ := hu
      exact ⟨entries, ht⟩
    | unreadable =>
      rw [hobject] at hu
      exact hu.elim

/-- Deeply equal values of two heaps. -/
def SameValue (h : Heap ν) (v : JsValue ν) (h' : Heap ν) (v' : JsValue ν) : Prop :=
  (v = .undefined ∧ v' = .undefined) ∨ ∃ levels t, Unfolds h levels t v ∧ Unfolds h' levels t v'

/-- A value stands in an object. -/
def Child (h : Heap ν) (o : Nat) (v : JsValue ν) : Prop :=
  match h.object o with
  | .array items => v ∈ items
  | .record entries _ => v ∈ entries.map Prod.snd
  | .unreadable => False

/-- A value stands somewhere below an object. -/
inductive Below (h : Heap ν) (o : Nat) : JsValue ν → Prop
  | child {v : JsValue ν} (hv : Child h o v) : Below h o v
  | step {p : Nat} {v : JsValue ν} (hp : Below h o (.ref p)) (hv : Child h p v) : Below h o v

variable {h : Heap ν} {o : Nat} {v : JsValue ν} {t : JsTree ν}

theorem Unfolds.child {levels : Nat} (hu : Unfolds h levels t (.ref o)) (hv : Child h o v) :
    ∃ below t', levels = below + 1 ∧ Unfolds h below t' v := by
  cases levels with
  | zero => exact hu.elim
  | succ levels =>
    rw [Unfolds] at hu
    unfold Child at hv
    cases hobject : h.object o with
    | array items =>
      rw [hobject] at hu hv
      obtain ⟨ts, -, hts⟩ := hu
      obtain ⟨t', -, ht'⟩ := exists_left_of_forall₂ hts v hv
      exact ⟨levels, t', rfl, ht'⟩
    | record entries hnodup =>
      rw [hobject] at hu hv
      obtain ⟨ts, -, hts⟩ := hu
      obtain ⟨e, he, rfl⟩ := List.mem_map.1 hv
      obtain ⟨t', -, -, ht'⟩ := exists_left_of_forall₂ hts e he
      exact ⟨levels, t'.2, rfl, ht'⟩
    | unreadable =>
      rw [hobject] at hu
      exact hu.elim

theorem Unfolds.below {levels : Nat} (hu : Unfolds h levels t (.ref o)) (hv : Below h o v) :
    ∃ below t', below < levels ∧ Unfolds h below t' v := by
  induction hv with
  | child hv =>
    obtain ⟨below, t', rfl, ht'⟩ := hu.child hv
    exact ⟨below, t', Nat.lt_succ_self _, ht'⟩
  | step _ hv ih =>
    obtain ⟨below, t', hlt, ht'⟩ := ih
    obtain ⟨lower, t'', rfl, ht''⟩ := ht'.child hv
    exact ⟨lower, t'', Nat.lt_of_succ_lt hlt, ht''⟩

/-- What unfolds is not below itself. -/
theorem Unfolds.not_below_self {levels : Nat} (hu : Unfolds h levels t (.ref o)) : ¬Below h o (.ref o) := by
  induction levels using Nat.strong_induction_on generalizing t with
  | _ levels ih =>
    intro hself
    obtain ⟨below, t', hlt, ht'⟩ := hu.below hself
    exact ih below hlt ht' hself

/-- A value that unfolds is none of the objects it stands below. -/
theorem Unfolds.notMem {levels : Nat} {stack : List Nat} (hu : Unfolds h levels t (.ref o))
    (hstack : ∀ p ∈ stack, Below h p (.ref o)) : o ∉ stack :=
  fun hmem => hu.not_below_self (hstack o hmem)

/-- Going into an object that a stack of objects is above. -/
theorem below_cons {stack : List Nat} (hstack : ∀ p ∈ stack, Below h p (.ref o)) (hv : Child h o v) :
    ∀ p ∈ o :: stack, Below h p v :=
  List.forall_mem_cons.2 ⟨.child hv, fun p hp => .step (hstack p hp) hv⟩

theorem Heap.lt_of_object (hreadable : h.object o ≠ .unreadable) : o < h.length := by
  by_contra hge
  rw [Heap.object, List.getElem?_eq_none (Nat.le_of_not_lt hge)] at hreadable
  exact hreadable rfl

theorem Unfolds.lt {levels : Nat} (hu : Unfolds h levels t (.ref o)) : o < h.length := by
  refine Heap.lt_of_object fun hobject => ?_
  cases levels with
  | zero => exact hu
  | succ levels =>
    rw [Unfolds, hobject] at hu
    exact hu

/-- More objects change nothing. -/
theorem Unfolds.append {new : Heap ν} : ∀ {levels : Nat} {t : JsTree ν} {v : JsValue ν}, Unfolds h levels t v →
    Unfolds (h ++ new) levels t v := by
  intro levels
  induction levels with
  | zero => 
    intro t v hu
    cases v with
    | ref o => exact hu.elim
    | _ => exact hu
  | succ levels ih =>
    intro t v hu
    cases v with
    | ref o =>
      have hsame : Heap.object (h ++ new) o = h.object o := by rw [Heap.object, List.getElem?_append_left hu.lt]; rfl
      rw [Unfolds, hsame]
      rw [Unfolds] at hu
      cases hobject : h.object o with
      | array items =>
        rw [hobject] at hu
        obtain ⟨ts, rfl, hts⟩ := hu
        exact ⟨ts, rfl, hts.imp fun _ _ => ih⟩
      | record entries hnodup =>
        rw [hobject] at hu
        obtain ⟨ts, rfl, hts⟩ := hu
        exact ⟨ts, rfl, hts.imp fun _ _ he => ⟨he.1, ih he.2⟩⟩
      | unreadable =>
        rw [hobject] at hu
        exact hu.elim
    | _ => exact hu

/-! ## The text of what unfolds -/

/-- Distinct objects of a heap are no more than the heap has. -/
theorem length_le_of_nodup {stack : List Nat} {n : Nat} (hnodup : stack.Nodup) (hlt : ∀ p ∈ stack, p < n) : stack.length ≤ n := by
  have hsub : stack ⊆ List.range n := fun p hp => List.mem_range.2 (hlt p hp)
  simpa using (hnodup.subperm hsub).length_le

/-- A value that unfolds is written as its tree. -/
theorem serialize_of_unfolds [JsNumber ν] {levels : Nat} : ∀ {fuel : Nat} {stack : List Nat} {t : JsTree ν} {v : JsValue ν},
    Unfolds h levels t v → stack.Nodup → (∀ p ∈ stack, p < h.length) → (∀ p ∈ stack, Below h p v) →
      stack.length + fuel = h.length → serialize h fuel stack v = some (some t.render) := by
  induction levels with
  | zero =>
    intro fuel stack t v hu _ _ _ _
    cases v with
    | ref o => exact hu.elim
    | null | bool | number | string => rw [Unfolds] at hu; subst hu; cases fuel <;> rfl
    | undefined | function | bigint => exact hu.elim
  | succ levels ih =>
    intro fuel stack t v hu hnodup hlt hstack hfuel
    cases v with
    | null | bool | number | string => rw [Unfolds] at hu; subst hu; cases fuel <;> rfl
    | undefined | function | bigint => exact hu.elim
    | ref o =>
      -- the tree is finite, so the object is no ancestor of itself
      have hnew : o ∉ stack := hu.notMem hstack
      have hnodup' : (o :: stack).Nodup := List.nodup_cons.2 ⟨hnew, hnodup⟩
      have hlt' : ∀ p ∈ o :: stack, p < h.length := List.forall_mem_cons.2 ⟨hu.lt, hlt⟩
      -- ancestors are distinct objects, so fuel is left
      have hroom := length_le_of_nodup hnodup' hlt'
      rw [List.length_cons] at hroom
      obtain ⟨fuel, rfl⟩ : ∃ below, fuel = below + 1 := Nat.exists_eq_succ_of_ne_zero (by omega)
      have hfuel' : (o :: stack).length + fuel = h.length := by rw [List.length_cons]; omega
      -- every child is written below it
      have hchild : ∀ {t' : JsTree ν} {v : JsValue ν}, Child h o v → Unfolds h levels t' v →
          serialize h fuel (o :: stack) v = some (some t'.render) := fun hv ht' =>
        ih ht' hnodup' hlt' (below_cons hstack hv) hfuel'
      rw [Unfolds] at hu
      rw [serialize, if_neg (by simpa using hnew)]
      unfold Child at hchild
      cases hobject : h.object o with
      | array items =>
        rw [hobject] at hu hchild
        obtain ⟨ts, rfl, hts⟩ := hu
        have hitems : items.mapM (serialize h fuel (o :: stack)) = some (ts.map fun t => some t.render) :=
          mapM_eq_some.2 (List.forall₂_map_right_iff.2 (forall₂_imp_of_mem (fun v hv t' ht' => hchild hv ht') hts.flip))
        dsimp only
        rw [hitems, JsTree.render, JsTree.renderAll_eq, Option.map_some, List.map_map]
        rfl
      | record entries hdistinct =>
        rw [hobject] at hu hchild
        obtain ⟨ts, rfl, hts⟩ := hu
        have hentries : (entries.mapM fun e => (serialize h fuel (o :: stack) e.2).map fun text => text.map (Prod.mk e.1)) =
            some (ts.map fun t => some (t.1, t.2.render)) := by
          refine mapM_eq_some.2 (List.forall₂_map_right_iff.2 (forall₂_imp_of_mem (fun e he t' ht' => ?_) hts.flip))
          rw [hchild (List.mem_map_of_mem he) ht'.2, ht'.1]
          rfl
        dsimp only
        rw [hentries, JsTree.render, JsTree.renderEntries_eq]
        simp
      | unreadable =>
        rw [hobject] at hu
        exact hu.elim

theorem stringify_of_unfolds [JsNumber ν] {levels : Nat} (hu : Unfolds h levels t v) : stringify h v = some (some t.render) :=
  serialize_of_unfolds hu List.nodup_nil (List.forall_mem_nil _) (List.forall_mem_nil _) (Nat.zero_add _)

/-! ## Allocation -/

/-- An object's entries; of two with one key the later counts. -/
def JsObject.ofEntries (entries : List (Text × JsValue ν)) : JsObject ν :=
  .record (defineAll entries) (nodup_defineAll entries)

mutual

/-- The tree as fresh objects behind those of a heap, and the value that refers to it. -/
def JsTree.allocate : JsTree ν → Heap ν → JsValue ν × Heap ν
  | .null, h => (.null, h)
  | .bool b, h => (.bool b, h)
  | .number x, h => (.number x, h)
  | .string s, h => (.string s, h)
  | .array items, h =>
    let (values, h) := allocateAll items h
    (.ref h.length, h ++ [.array values])
  | .record entries, h =>
    let (values, h) := allocateEntries entries h
    (.ref h.length, h ++ [.ofEntries values])

def JsTree.allocateAll : List (JsTree ν) → Heap ν → List (JsValue ν) × Heap ν
  | [], h => ([], h)
  | item :: items, h =>
    let (value, h) := item.allocate h
    let (values, h) := allocateAll items h
    (value :: values, h)

def JsTree.allocateEntries : List (Text × JsTree ν) → Heap ν → List (Text × JsValue ν) × Heap ν
  | [], h => ([], h)
  | (key, item) :: entries, h =>
    let (value, h) := item.allocate h
    let (values, h) := allocateEntries entries h
    ((key, value) :: values, h)

end

/-- Objects nest at most so many levels deep, and each has distinct keys. -/
def JsTree.Within : Nat → JsTree ν → Prop
  | levels, t =>
    match t with
    | .null | .bool _ | .number _ | .string _ => True
    | .array items =>
      match levels with
      | 0 => False
      | levels + 1 => ∀ item ∈ items, Within levels item
    | .record entries =>
      match levels with
      | 0 => False
      | levels + 1 => (entries.map Prod.fst).Nodup ∧ ∀ e ∈ entries, Within levels e.2

theorem Heap.object_length (h : Heap ν) (object : JsObject ν) : Heap.object (h ++ [object]) h.length = object := by
  rw [Heap.object, List.getElem?_concat_length]
  rfl

/-- Entries that agree in their keys have the same keys. -/
theorem map_fst_of_forall₂ {κ α β : Type} {l : List (κ × α)} {l' : List (κ × β)} (hl : List.Forall₂ (fun a b => a.1 = b.1) l l') :
    l.map Prod.fst = l'.map Prod.fst := by
  induction hl with
  | nil => rfl
  | cons h _ ih => rw [List.map_cons, List.map_cons, h, ih]

/-- A fresh object unfolds to what its entries unfold to. -/
theorem unfolds_ofEntries {levels : Nat} {entries : List (Text × JsTree ν)} {own : List (Text × JsValue ν)}
    (hentries : List.Forall₂ (fun t e => t.1 = e.1 ∧ Unfolds h levels t.2 e.2) entries own) (hnodup : (own.map Prod.fst).Nodup) :
    Unfolds (h ++ [.ofEntries own]) (levels + 1) (.record entries) (.ref h.length) := by
  rw [Unfolds, Heap.object_length, JsObject.ofEntries]
  refine ⟨entries, rfl, (congrArg (List.Forall₂ _ entries) (defineAll_eq hnodup)).mpr ?_⟩
  exact hentries.imp fun _ _ he => ⟨he.1, he.2.append⟩

/-- What is allocated unfolds to the tree, in a heap that has grown at its end. -/
theorem JsTree.allocate_spec : ∀ {levels : Nat} {t : JsTree ν} {h : Heap ν}, t.Within levels →
    (∃ new, (t.allocate h).2 = h ++ new) ∧ Unfolds (t.allocate h).2 levels t (t.allocate h).1 := by
  intro levels
  induction levels with
  | zero =>
    intro t h ht
    cases t with
    | null | bool | number | string => exact ⟨⟨[], (List.append_nil _).symm⟩, rfl⟩
    | array | record => exact ht.elim
  | succ levels ih =>
    -- the items, each beside what those after it allocate
    have hall : ∀ (items : List (JsTree ν)) (h : Heap ν), (∀ item ∈ items, item.Within levels) →
        (∃ new, (allocateAll items h).2 = h ++ new) ∧
          List.Forall₂ (Unfolds (allocateAll items h).2 levels) items (allocateAll items h).1 := by
      intro items
      induction items with
      | nil => exact fun h _ => ⟨⟨[], (List.append_nil _).symm⟩, .nil⟩
      | cons item items ihitems =>
        intro h hitems
        obtain ⟨hitem, hitems⟩ := List.forall_mem_cons.1 hitems
        obtain ⟨⟨new, hnew⟩, hu⟩ := ih (h := h) hitem
        obtain ⟨⟨new', hnew'⟩, hus⟩ := ihitems (item.allocate h).2 hitems
        refine ⟨⟨new ++ new', ?_⟩, .cons ?_ hus⟩
        · show (allocateAll items (item.allocate h).2).2 = _
          rw [hnew', hnew, List.append_assoc]
        · show Unfolds (allocateAll items (item.allocate h).2).2 levels item (item.allocate h).1
          rw [hnew']
          exact hu.append
    -- the entries likewise, under their keys
    have hentries : ∀ (entries : List (Text × JsTree ν)) (h : Heap ν), (∀ e ∈ entries, e.2.Within levels) →
        (∃ new, (allocateEntries entries h).2 = h ++ new) ∧
          List.Forall₂ (fun t e => t.1 = e.1 ∧ Unfolds (allocateEntries entries h).2 levels t.2 e.2) entries
            (allocateEntries entries h).1 := by
      intro entries
      induction entries with
      | nil => exact fun h _ => ⟨⟨[], (List.append_nil _).symm⟩, .nil⟩
      | cons e entries ihentries =>
        intro h hwithin
        obtain ⟨hitem, hwithin⟩ := List.forall_mem_cons.1 hwithin
        obtain ⟨⟨new, hnew⟩, hu⟩ := ih (h := h) hitem
        obtain ⟨⟨new', hnew'⟩, hus⟩ := ihentries (e.2.allocate h).2 hwithin
        refine ⟨⟨new ++ new', ?_⟩, .cons ⟨rfl, ?_⟩ hus⟩
        · show (allocateEntries entries (e.2.allocate h).2).2 = _
          rw [hnew', hnew, List.append_assoc]
        · show Unfolds (allocateEntries entries (e.2.allocate h).2).2 levels e.2 (e.2.allocate h).1
          rw [hnew']
          exact hu.append
    -- the object itself comes last
    intro t h ht
    cases t with
    | null | bool | number | string => exact ⟨⟨[], (List.append_nil _).symm⟩, rfl⟩
    | array items =>
      obtain ⟨⟨new, hnew⟩, hus⟩ := hall items h ht
      refine ⟨⟨new ++ [.array (allocateAll items h).1], ?_⟩, ?_⟩
      · show (allocateAll items h).2 ++ _ = _
        rw [hnew, List.append_assoc]
      · show Unfolds ((allocateAll items h).2 ++ [.array (allocateAll items h).1]) (levels + 1) (.array items)
          (.ref (allocateAll items h).2.length)
        rw [Unfolds, Heap.object_length]
        exact ⟨items, rfl, hus.imp fun _ _ hu => hu.append⟩
    | record entries =>
      obtain ⟨hdistinct, hwithin⟩ := ht
      obtain ⟨⟨new, hnew⟩, hus⟩ := hentries entries h hwithin
      refine ⟨⟨new ++ [.ofEntries (allocateEntries entries h).1], ?_⟩, ?_⟩
      · show (allocateEntries entries h).2 ++ _ = _
        rw [hnew, List.append_assoc]
      · show Unfolds ((allocateEntries entries h).2 ++ [.ofEntries (allocateEntries entries h).1]) (levels + 1) (.record entries)
          (.ref (allocateEntries entries h).2.length)
        have hkeys : entries.map Prod.fst = (allocateEntries entries h).1.map Prod.fst := map_fst_of_forall₂ (hus.imp fun _ _ he => he.1)
        exact unfolds_ofEntries hus (hkeys ▸ hdistinct)

end Keyforge.Lib
