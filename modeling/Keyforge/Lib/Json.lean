/-
JSON documents as SQLite reads them: `json_tree` lists every node of a document, `json_each` the
children of one, `json_extract` a member, and a cast to text gives a scalar's text. A missing member
and a JSON null are SQL `NULL`, which is `none` here.
-/
import Mathlib.Data.List.Basic

namespace Keyforge.Lib

inductive Json where
  | null
  | bool (b : Bool)
  | int (n : Int)
  | str (s : String)
  | arr (elements : List Json)
  | obj (members : List (String × Json))
  deriving Repr

namespace Json

/-! ## The document's text -/

/-- How a character stands in a string literal: quote, backslash and the control characters are
escaped, the others stand for themselves. -/
def escape (c : Char) : String :=
  if c = '\x22' then "\\\"" else if c = '\x5c' then "\\\\"
  else if c = '\x08' then "\\b" else if c = '\x0c' then "\\f"
  else if c = '\x0a' then "\\n" else if c = '\x0d' then "\\r" else if c = '\x09' then "\\t"
  else if c.toNat < 0x20 then "\\u00" ++ String.ofList [Nat.digitChar (c.toNat / 16), Nat.digitChar (c.toNat % 16)]
  else String.singleton c

/-- A string literal. -/
def quote (s : String) : String :=
  "\"" ++ String.join (s.toList.map escape) ++ "\""

mutual

def render : Json → String
  | .null => "null"
  | .bool b => if b then "true" else "false"
  | .int n => toString n
  | .str s => quote s
  | .arr elements => "[" ++ ",".intercalate (renderElements elements) ++ "]"
  | .obj members => "\x7b" ++ ",".intercalate (renderMembers members) ++ "\x7d"

def renderElements : List Json → List String
  | [] => []
  | element :: elements => render element :: renderElements elements

def renderMembers : List (String × Json) → List String
  | [] => []
  | (key, value) :: members => (quote key ++ ":" ++ render value) :: renderMembers members

end

/-! ## Reading it -/

/-- `CAST(… AS TEXT)` of what `json_extract` or `json_each` returns. -/
def castText : Json → Option String
  | .null => none
  | .bool b => some (if b then "1" else "0")
  | .int n => some (toString n)
  | .str s => some s
  | json => some json.render

/-- `json_extract(json, '$.key')`. -/
def extract (key : String) : Json → Json
  | .obj members => (members.lookup key).getD .null
  | _ => .null

/-- The `value` column of `json_each`: a scalar is its own only row. -/
def each : Json → List Json
  | .arr elements => elements
  | .obj members => members.map Prod.snd
  | json => [json]

/-- `COALESCE(json, '[]')`. -/
def coalesceArray : Json → Json
  | .null => .arr []
  | json => json

/-- `type = 'object'`. -/
def isObject : Json → Bool
  | .obj _ => true
  | _ => false

mutual

/-- The `value` column of `json_tree`: the node itself and everything below it. -/
def tree : Json → List Json
  | .arr elements => .arr elements :: treeElements elements
  | .obj members => .obj members :: treeMembers members
  | json => [json]

def treeElements : List Json → List Json
  | [] => []
  | element :: elements => tree element ++ treeElements elements

def treeMembers : List (String × Json) → List Json
  | [] => []
  | (_, value) :: members => tree value ++ treeMembers members

end

@[simp] theorem castText_null : castText .null = none := rfl

@[simp] theorem castText_str (s : String) : castText (.str s) = some s := rfl

/-! ## Nodes below -/

@[simp] theorem tree_str (s : String) : tree (.str s) = [.str s] := rfl

/-- Strings have no nodes below them. -/
theorem treeElements_strs (values : List String) : treeElements (values.map .str) = values.map .str := by
  induction values with
  | nil => rfl
  | cons value values ih => rw [List.map_cons, treeElements, tree_str, ih, List.singleton_append]

/-- The casts of a list of strings are the strings. -/
theorem any_castText_strs (p : String → Bool) (values : List String) :
    ((values.map Json.str).any fun json => (castText json).any p) = values.any p := by
  rw [List.any_map]
  rfl

end Json

end Keyforge.Lib
