/-
JSON values and schemas over them. A schema library is a parameter: it builds schemas from a few
combinators and parses values with them, and `Laws` is what its documentation says each combinator
accepts. Recursive schemas are fixed points, and a library of parsing functions has them.
-/
import Keyforge.Lib.Pointwise
import Mathlib.Data.Rat.Defs
import Mathlib.Tactic

namespace Keyforge.Lib

/-- A value as `JSON.parse` reads it. Of members with one key the last counts. -/
inductive JsonValue where
  | null
  | bool (b : Bool)
  | number (n : ℚ)
  | string (s : String)
  | array (elements : List JsonValue)
  | object (members : List (String × JsonValue))

namespace JsonValue

/-- The value of a member. -/
def get (key : String) (members : List (String × JsonValue)) : Option JsonValue :=
  members.reverse.lookup key

/-- The object that has these members and no others, in whatever order they are written. -/
def IsObject (v : JsonValue) (shape : List (String × JsonValue)) : Prop :=
  ∃ members, v = .object members ∧ ∀ key, get key members = shape.lookup key

theorem lookup_isSome {α : Type} {key : String} : ∀ {l : List (String × α)}, (l.lookup key).isSome = true ↔ key ∈ l.map Prod.fst
  | [] => by simp
  | (k, a) :: l => by
    rw [List.lookup_cons, List.map_cons, List.mem_cons, ← lookup_isSome]
    by_cases h : key = k
    · simp [h]
    · simp [h, beq_eq_false_iff_ne.2 h]

theorem mem_of_lookup {α : Type} {key : String} {a : α} : ∀ {l : List (String × α)}, l.lookup key = some a → (key, a) ∈ l
  | [], h => by cases h
  | (k, b) :: l, h => by
    rw [List.lookup_cons] at h
    by_cases hk : key = k
    · subst hk
      rw [beq_self_eq_true] at h
      cases h
      exact List.mem_cons_self
    · rw [beq_eq_false_iff_ne.2 hk] at h
      exact List.mem_cons_of_mem _ (mem_of_lookup h)

theorem get_isSome {key : String} {members : List (String × JsonValue)} :
    (get key members).isSome = true ↔ key ∈ members.map Prod.fst := by
  rw [get, lookup_isSome, List.map_reverse, List.mem_reverse]

/-- The members by their keys: every key is one of the shape's, and each has the shape's value. -/
theorem isObject_iff {v : JsonValue} {shape : List (String × JsonValue)} : v.IsObject shape ↔
    ∃ members, v = .object members ∧ (∀ m ∈ members, m.1 ∈ shape.map Prod.fst) ∧
      ∀ key ∈ shape.map Prod.fst, get key members = shape.lookup key := by
  constructor
  · rintro ⟨members, rfl, hget⟩
    refine ⟨members, rfl, fun m hm => ?_, fun key _ => hget key⟩
    have hsome : (get m.1 members).isSome = true := get_isSome.2 (List.mem_map_of_mem hm)
    rw [hget] at hsome
    exact lookup_isSome.1 hsome
  · rintro ⟨members, rfl, hkeys, hget⟩
    refine ⟨members, rfl, fun key => ?_⟩
    by_cases hkey : key ∈ shape.map Prod.fst
    · exact hget key hkey
    · -- neither has the key
      have hshape : shape.lookup key = none := by
        rw [← Option.not_isSome_iff_eq_none, lookup_isSome]
        exact hkey
      have hmembers : get key members = none := by
        rw [← Option.not_isSome_iff_eq_none, get_isSome]
        intro hin
        obtain ⟨m, hm, rfl⟩ := List.mem_map.1 hin
        exact hkey (hkeys m hm)
      rw [hshape, hmembers]

theorem IsObject.get {v : JsonValue} {shape : List (String × JsonValue)} {members : List (String × JsonValue)}
    (h : v.IsObject shape) (hv : v = .object members) (key : String) : JsonValue.get key members = shape.lookup key := by
  obtain ⟨members', hv', hget⟩ := h
  cases hv.symm.trans hv'
  exact hget key

mutual

/-- The number of values in a value. -/
def size : JsonValue → Nat
  | .array elements => 1 + sizes elements
  | .object members => 1 + memberSizes members
  | _ => 1

def sizes : List JsonValue → Nat
  | [] => 0
  | v :: vs => size v + sizes vs

def memberSizes : List (String × JsonValue) → Nat
  | [] => 0
  | (_, v) :: members => size v + memberSizes members

end

theorem size_le_memberSizes {key : String} {v : JsonValue} : ∀ {members : List (String × JsonValue)}, (key, v) ∈ members →
    size v ≤ memberSizes members
  | m :: members, h => by
    rw [memberSizes]
    rcases List.mem_cons.1 h with rfl | h
    · exact Nat.le_add_right _ _
    · exact Nat.le_add_left_of_le (size_le_memberSizes h)

theorem size_le_sizes {v : JsonValue} : ∀ {elements : List JsonValue}, v ∈ elements → size v ≤ sizes elements
  | u :: elements, h => by
    rw [sizes]
    rcases List.mem_cons.1 h with rfl | h
    · exact Nat.le_add_right _ _
    · exact Nat.le_add_left_of_le (size_le_sizes h)

/-- The value of a member is smaller than the object. -/
theorem IsObject.size_lt {v w : JsonValue} {shape : List (String × JsonValue)} {key : String} (h : v.IsObject shape)
    (hw : shape.lookup key = some w) : w.size < v.size := by
  obtain ⟨members, rfl, hget⟩ := h
  have hle := size_le_memberSizes (List.mem_reverse.1 (mem_of_lookup ((hget key).trans hw)))
  rw [size.eq_2]
  omega

/-- An element is smaller than the array. -/
theorem size_element_lt {elements : List JsonValue} {v : JsonValue} (h : v ∈ elements) : size v < size (.array elements) := by
  have hle := size_le_sizes h
  rw [size.eq_1]
  omega

end JsonValue

/-! ## Shapes -/

/-- The members that an object schema names, and what is made of their values. -/
inductive Shape (Schema : Type → Type) : Type → Type 1 where
  | done {α : Type} (a : α) : Shape Schema α
  | required {α β : Type} (key : String) (schema : Schema β) (rest : Shape Schema (β → α)) : Shape Schema α
  | optional {α β : Type} (key : String) (schema : Schema β) (rest : Shape Schema (Option β → α)) : Shape Schema α

namespace Shape

variable {Schema : Type → Type}

def keys : {α : Type} → Shape Schema α → List String
  | _, done _ => []
  | _, required key _ rest => key :: keys rest
  | _, optional key _ rest => key :: keys rest

def parse (safeParse : ∀ {α : Type}, Schema α → JsonValue → Option α) (members : List (String × JsonValue)) :
    {α : Type} → Shape Schema α → Option α
  | _, done a => some a
  | _, required key schema rest => do
    let b ← safeParse schema (← JsonValue.get key members)
    let f ← parse safeParse members rest
    pure (f b)
  | _, optional key schema rest => do
    let b ← match JsonValue.get key members with
      | none => pure none
      | some v => some <$> safeParse schema v
    let f ← parse safeParse members rest
    pure (f b)

variable {safeParse : ∀ {α : Type}, Schema α → JsonValue → Option α} {members : List (String × JsonValue)} {α β : Type}
  {key : String} {schema : Schema β} {a : α}

@[simp] theorem parse_done {b : α} : parse safeParse members (done b) = some a ↔ b = a := by
  rw [parse, Option.some.injEq]

@[simp] theorem parse_required {rest : Shape Schema (β → α)} : parse safeParse members (required key schema rest) = some a ↔
    ∃ v, JsonValue.get key members = some v ∧ ∃ b, safeParse schema v = some b ∧
      ∃ f, parse safeParse members rest = some f ∧ f b = a := by
  simp [parse, Option.bind_eq_some_iff]

@[simp] theorem parse_optional {rest : Shape Schema (Option β → α)} :
    parse safeParse members (optional key schema rest) = some a ↔
      ∃ b, (match JsonValue.get key members with
          | none => b = none
          | some v => ∃ b', safeParse schema v = some b' ∧ b = some b') ∧
        ∃ f, parse safeParse members rest = some f ∧ f b = a := by
  rw [parse]
  cases JsonValue.get key members with
  | none => simp [Option.bind_eq_some_iff]
  | some v => cases hv : safeParse schema v <;> simp [hv, Option.bind_eq_some_iff]

end Shape

/-! ## Libraries -/

/-- A schema library: `string` and `array` take the least and the largest length, `enumeration` its values
with the words that stand for them. -/
structure SchemaLibrary where
  Schema : Type → Type
  safeParse : ∀ {α : Type}, Schema α → JsonValue → Option α
  string : Nat → Nat → Schema String
  enumeration : ∀ {α : Type}, (α → String) → List α → Schema α
  array : ∀ {α : Type}, Schema α → Nat → Nat → Schema (List α)
  refine : ∀ {α : Type}, Schema α → (α → Bool) → Schema α
  strictObject : ∀ {α : Type}, Shape Schema α → Schema α
  union : ∀ {α : Type}, List (Schema α) → Schema α

/-- What the library documents, for strings whose lengths `length` counts. -/
structure SchemaLibrary.Laws (zod : SchemaLibrary) (length : String → Nat) : Prop where
  string : ∀ least largest v, zod.safeParse (zod.string least largest) v = match v with
    | .string s => if least ≤ length s ∧ length s ≤ largest then some s else none
    | _ => none
  enumeration : ∀ {α : Type} (word : α → String) (values : List α) v,
    zod.safeParse (zod.enumeration word values) v = match v with
      | .string s => values.find? (word · = s)
      | _ => none
  array : ∀ {α : Type} (schema : zod.Schema α) least largest v,
    zod.safeParse (zod.array schema least largest) v = match v with
      | .array elements =>
        if least ≤ elements.length ∧ elements.length ≤ largest then elements.mapM (zod.safeParse schema) else none
      | _ => none
  refine : ∀ {α : Type} (schema : zod.Schema α) (check : α → Bool) v,
    zod.safeParse (zod.refine schema check) v = (zod.safeParse schema v).filter check
  strictObject : ∀ {α : Type} (shape : Shape zod.Schema α) v, zod.safeParse (zod.strictObject shape) v = match v with
    | .object members => if ∀ m ∈ members, m.1 ∈ shape.keys then shape.parse zod.safeParse members else none
    | _ => none
  union : ∀ {α : Type} (options : List (zod.Schema α)) v,
    zod.safeParse (zod.union options) v = options.findSome? (zod.safeParse · v)

section

variable {zod : SchemaLibrary} {length : String → Nat} {α : Type} {v : JsonValue}

theorem SchemaLibrary.Laws.string_iff (laws : zod.Laws length) {least largest : Nat} {s : String} :
    zod.safeParse (zod.string least largest) v = some s ↔ v = .string s ∧ least ≤ length s ∧ length s ≤ largest := by
  rw [laws.string]
  cases v with
  | string t =>
    dsimp only
    by_cases h : least ≤ length t ∧ length t ≤ largest
    · rw [if_pos h, Option.some.injEq, JsonValue.string.injEq]
      exact ⟨fun heq => ⟨heq, heq ▸ h⟩, And.left⟩
    · rw [if_neg h, JsonValue.string.injEq]
      constructor
      · exact fun hnone => by cases hnone
      · rintro ⟨rfl, hlength⟩
        exact absurd hlength h
  | _ => simp

/-- An enumeration of all values of a type accepts the word of each. -/
theorem SchemaLibrary.Laws.enumeration_iff (laws : zod.Laws length) {word : α → String} {values : List α}
    (hinj : Function.Injective word) (hall : ∀ a, a ∈ values) {a : α} :
    zod.safeParse (zod.enumeration word values) v = some a ↔ v = .string (word a) := by
  rw [laws.enumeration]
  cases v with
  | string t =>
    dsimp only
    rw [JsonValue.string.injEq]
    constructor
    · intro h
      have hword : word a = t := by simpa using List.find?_some h
      exact hword.symm
    · rintro rfl
      cases hfind : values.find? (word · = word a) with
      | none => simpa using List.find?_eq_none.1 hfind a (hall a)
      | some b =>
        have hword : word b = word a := by simpa using List.find?_some hfind
        rw [hinj hword]
  | _ => simp

theorem SchemaLibrary.Laws.array_iff (laws : zod.Laws length) {schema : zod.Schema α} {least largest : Nat} {as : List α} :
    zod.safeParse (zod.array schema least largest) v = some as ↔
      ∃ elements, v = .array elements ∧ least ≤ elements.length ∧ elements.length ≤ largest ∧
        elements.mapM (zod.safeParse schema) = some as := by
  rw [laws.array]
  cases v with
  | array elements =>
    dsimp only
    by_cases h : least ≤ elements.length ∧ elements.length ≤ largest
    · rw [if_pos h]
      constructor
      · exact fun hmap => ⟨elements, rfl, h.1, h.2, hmap⟩
      · rintro ⟨_, heq, -, -, hmap⟩
        cases heq
        exact hmap
    · rw [if_neg h]
      constructor
      · exact fun hnone => by cases hnone
      · rintro ⟨_, heq, hleast, hlargest, -⟩
        cases heq
        exact absurd ⟨hleast, hlargest⟩ h
  | _ => simp

theorem SchemaLibrary.Laws.strictObject_iff (laws : zod.Laws length) {shape : Shape zod.Schema α} {a : α} :
    zod.safeParse (zod.strictObject shape) v = some a ↔ ∃ members, v = .object members ∧
      (∀ m ∈ members, m.1 ∈ shape.keys) ∧ shape.parse zod.safeParse members = some a := by
  rw [laws.strictObject]
  cases v with
  | object members =>
    dsimp only
    by_cases h : ∀ m ∈ members, m.1 ∈ shape.keys
    · rw [if_pos h]
      constructor
      · exact fun hparse => ⟨members, rfl, h, hparse⟩
      · rintro ⟨_, heq, -, hparse⟩
        cases heq
        exact hparse
    · rw [if_neg h]
      constructor
      · exact fun hnone => by cases hnone
      · rintro ⟨_, heq, hkeys, -⟩
        cases heq
        exact absurd hkeys h
  | _ => simp

end

/-! ## Schemas as functions -/

/-- A schema may be recursive where it looks only at smaller values. -/
def Guarded {α : Type} (body : (JsonValue → Option α) → JsonValue → Option α) : Prop :=
  ∀ s s' v, (∀ u, u.size < v.size → s u = s' u) → body s v = body s' v

/-- The body unfolded `n` times. -/
def unfoldings {α : Type} (body : (JsonValue → Option α) → JsonValue → Option α) : Nat → JsonValue → Option α
  | 0 => fun _ => none
  | n + 1 => body (unfoldings body n)

/-- The fixed point of a guarded body. -/
def fixed {α : Type} (body : (JsonValue → Option α) → JsonValue → Option α) (v : JsonValue) : Option α :=
  unfoldings body (v.size + 1) v

theorem unfoldings_eq {α : Type} {body : (JsonValue → Option α) → JsonValue → Option α} (h : Guarded body) :
    ∀ (n m : Nat) (v : JsonValue), v.size < n → v.size < m → unfoldings body n v = unfoldings body m v
  | 0, _, _, hn, _ => absurd hn (Nat.not_lt_zero _)
  | _, 0, _, _, hm => absurd hm (Nat.not_lt_zero _)
  | n + 1, m + 1, v, hn, hm =>
    h _ _ v fun u hu => unfoldings_eq h n m u (by omega) (by omega)

theorem fixed_eq {α : Type} {body : (JsonValue → Option α) → JsonValue → Option α} (h : Guarded body) (v : JsonValue) :
    fixed body v = body (fixed body) v :=
  h _ _ v fun u hu => unfoldings_eq h _ _ u hu (Nat.lt_succ_self _)

/-- The library whose schemas are parsing functions. -/
def functions (length : String → Nat) : SchemaLibrary where
  Schema := fun α => JsonValue → Option α
  safeParse := fun schema v => schema v
  string := fun least largest v => match v with
    | .string s => if least ≤ length s ∧ length s ≤ largest then some s else none
    | _ => none
  enumeration := fun word values v => match v with
    | .string s => values.find? (word · = s)
    | _ => none
  array := fun schema least largest v => match v with
    | .array elements => if least ≤ elements.length ∧ elements.length ≤ largest then elements.mapM schema else none
    | _ => none
  refine := fun schema check v => (schema v).filter check
  strictObject := fun shape v => match v with
    | .object members =>
      if ∀ m ∈ members, m.1 ∈ shape.keys then shape.parse (fun schema v => schema v) members else none
    | _ => none
  union := fun options v => options.findSome? fun schema => schema v

theorem functions_laws (length : String → Nat) : (functions length).Laws length where
  string := fun _ _ _ => rfl
  enumeration := fun _ _ _ => rfl
  array := fun _ _ _ _ => rfl
  refine := fun _ _ _ => rfl
  strictObject := fun _ _ => rfl
  union := fun _ _ => rfl

end Keyforge.Lib
