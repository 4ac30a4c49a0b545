/-
Schemas over values of the heap. As for JSON values, a schema library is a parameter and `Laws` is what its
documentation says each combinator accepts.
-/
import Keyforge.Lib.JsValue

namespace Keyforge.Lib

/-! ## Fields -/

/-- The fields that an object schema names, and what is made of their values. -/
inductive Fields (Schema : Type → Type) : Type → Type 1 where
  | done {α : Type} (a : α) : Fields Schema α
  | field {α β : Type} (key : Text) (schema : Schema β) (rest : Fields Schema (β → α)) : Fields Schema α

namespace Fields

variable {Schema : Type → Type}

/-- Every field in order; one that is missing is `undefined`. -/
def parse {ν : Type} (safeParse : ∀ {α : Type}, Schema α → JsValue ν → Option α) (entries : List (Text × JsValue ν)) :
    {α : Type} → Fields Schema α → Option α
  | _, done a => some a
  | _, field key schema rest => do
    let b ← safeParse schema (property entries key)
    let f ← parse safeParse entries rest
    pure (f b)

theorem parse_field {ν : Type} {safeParse : ∀ {α : Type}, Schema α → JsValue ν → Option α}
    {entries : List (Text × JsValue ν)} {α β : Type} {key : Text} {schema : Schema β} {rest : Fields Schema (β → α)} {a : α} :
    (field key schema rest).parse safeParse entries = some a ↔
      ∃ b, safeParse schema (property entries key) = some b ∧ ∃ f, rest.parse safeParse entries = some f ∧ f b = a := by
  simp [parse, Option.bind_eq_some_iff]

/-- Every field's value is accepted. -/
def Accepts {ν : Type} (safeParse : ∀ {α : Type}, Schema α → JsValue ν → Option α) (entries : List (Text × JsValue ν)) :
    {α : Type} → Fields Schema α → Prop
  | _, done _ => True
  | _, field key schema rest => (safeParse schema (property entries key)).isSome = true ∧ Accepts safeParse entries rest

theorem parse_isSome {ν : Type} {safeParse : ∀ {α : Type}, Schema α → JsValue ν → Option α}
    {entries : List (Text × JsValue ν)} {α : Type} (fields : Fields Schema α) :
    (fields.parse safeParse entries).isSome = true ↔ fields.Accepts safeParse entries := by
  induction fields with
  | done a => exact ⟨fun _ => trivial, fun _ => rfl⟩
  | field key schema rest ih =>
    rw [parse, Accepts, ← ih]
    cases safeParse schema (property entries key) with
    | none => simp
    | some b => cases parse safeParse entries rest <;> simp

end Fields

/-! ## Libraries -/

/-- A schema library; a refinement sees the value in its heap. -/
structure JsSchemaLibrary (ν : Type) where
  Schema : Type → Type
  safeParse : ∀ {α : Type}, Schema α → Heap ν → JsValue ν → Option α
  string : Schema Text
  boolean : Schema Bool
  number : Schema ν
  enumeration : List Text → Schema Text
  record : Schema (List (Text × JsValue ν))
  refine : ∀ {α : Type}, Schema α → (Heap ν → α → Bool) → Schema α
  nullish : ∀ {α : Type}, Schema α → Schema (Nullish α)
  object : ∀ {α : Type}, Fields Schema α → Schema α

/-- What the library documents; a record's values are not looked at. -/
structure JsSchemaLibrary.Laws {ν : Type} [JsNumber ν] (zod : JsSchemaLibrary ν) : Prop where
  string : ∀ h v, zod.safeParse zod.string h v = match v with
    | .string s => some s
    | _ => none
  boolean : ∀ h v, zod.safeParse zod.boolean h v = match v with
    | .bool b => some b
    | _ => none
  number : ∀ h v, zod.safeParse zod.number h v = match v with
    | .number x => if JsNumber.isFinite x then some x else none
    | _ => none
  enumeration : ∀ values h v, zod.safeParse (zod.enumeration values) h v = match v with
    | .string s => if s ∈ values then some s else none
    | _ => none
  record : ∀ (h : Heap ν) o entries nodup, h.object o = .record entries nodup → textOf "__proto__" ∉ entries.map Prod.fst →
    zod.safeParse zod.record h (.ref o) = some entries
  refine : ∀ {α : Type} (schema : zod.Schema α) (check : Heap ν → α → Bool) h v,
    zod.safeParse (zod.refine schema check) h v = (zod.safeParse schema h v).filter (check h)
  nullish : ∀ {α : Type} (schema : zod.Schema α) h v, zod.safeParse (zod.nullish schema) h v = match v with
    | .undefined => some .undefined
    | .null => some .null
    | _ => (zod.safeParse schema h v).map .value
  object : ∀ {α : Type} (fields : Fields zod.Schema α) (h : Heap ν) o entries nodup, h.object o = .record entries nodup →
    zod.safeParse (zod.object fields) h (.ref o) = fields.parse (fun schema => zod.safeParse schema h) entries

/-! ## Parsing functions -/

/-- The library whose schemas are their parsing functions. -/
def parsingFunctions (ν : Type) [JsNumber ν] : JsSchemaLibrary ν where
  Schema α := Heap ν → JsValue ν → Option α
  safeParse := fun schema h v => schema h v
  string := fun _ v => match v with
    | .string s => some s
    | _ => none
  boolean := fun _ v => match v with
    | .bool b => some b
    | _ => none
  number := fun _ v => match v with
    | .number x => if JsNumber.isFinite x then some x else none
    | _ => none
  enumeration := fun values _ v => match v with
    | .string s => if s ∈ values then some s else none
    | _ => none
  record := fun h v => match v with
    | .ref o => match h.object o with
      | .record entries _ => some (entries.filter (·.1 ≠ textOf "__proto__"))
      | _ => none
    | _ => none
  refine := fun schema check h v => (schema h v).filter (check h)
  nullish := fun schema h v => match v with
    | .undefined => some .undefined
    | .null => some .null
    | _ => (schema h v).map .value
  object := fun fields h v => match v with
    | .ref o => match h.object o with
      | .record entries _ => fields.parse (fun schema => schema h) entries
      | _ => none
    | _ => none

theorem parsingFunctions_laws (ν : Type) [JsNumber ν] : (parsingFunctions ν).Laws where
  string := fun _ _ => rfl
  boolean := fun _ _ => rfl
  number := fun _ _ => rfl
  enumeration := fun _ _ _ => rfl
  record := fun h o entries _ hobject hproto => by
    have hall : entries.filter (·.1 ≠ textOf "__proto__") = entries :=
      List.filter_eq_self.2 fun e he => decide_eq_true fun heq => hproto (List.mem_map.2 ⟨e, he, heq⟩)
    simp only [parsingFunctions, hobject]
    rw [hall]
  refine := fun _ _ _ _ => rfl
  nullish := fun _ _ _ => rfl
  object := fun _ h o _ _ hobject => by simp only [parsingFunctions, hobject]

end Keyforge.Lib
