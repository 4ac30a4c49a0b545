/-
The parameters of a request and their limits (`oauth/request-limits.ts`), and the syntax of client
identifiers (`oauth/client-identifier.ts`). A query is the list of its decoded names and values.
-/
import Mathlib.Data.List.TakeWhile
import Keyforge.Env
import Keyforge.Lib.Text

namespace Keyforge.OAuth

open Lib

/-! ## Parameters -/

/-- `URLSearchParams`: decoded names and values, in order, any of them repeated. -/
abbrev SearchParams := List (String × String)

namespace SearchParams

def getAll (query : SearchParams) (name : String) : List String :=
  (query.filter (·.1 = name)).map (·.2)

/-- `get`: the first value of the name. -/
def get (query : SearchParams) (name : String) : Option String :=
  query.lookup name

def delete (query : SearchParams) (name : String) : SearchParams :=
  query.filter (·.1 ≠ name)

/-- `set`: the first pair of the name gets the value and the others go, or a new pair is appended. -/
def set (query : SearchParams) (name value : String) : SearchParams :=
  if query.any (·.1 = name) then
    query.takeWhile (·.1 ≠ name) ++ (name, value) :: (query.dropWhile (·.1 ≠ name)).tail.filter (·.1 ≠ name)
  else query ++ [(name, value)]

theorem get_eq_head (query : SearchParams) (name : String) : query.get name = (query.getAll name).head? := by
  induction query with
  | nil => rfl
  | cons pair query ih =>
    obtain ⟨n, v⟩ := pair
    unfold get getAll at ih ⊢
    by_cases h : n = name
    · subst h
      simp
    · rw [List.lookup_cons, beq_false_of_ne fun he => h he.symm, ih, List.filter_cons_of_neg (by simpa using h)]

theorem get_delete {name other : String} (h : other ≠ name) : ∀ query : SearchParams, (query.delete name).get other = query.get other
  | [] => rfl
  | (n, v) :: query => by
    have ih := get_delete h query
    unfold get delete at ih ⊢
    by_cases hn : n = name
    · subst hn
      rw [List.filter_cons_of_neg (by simp), List.lookup_cons, beq_false_of_ne h, ih]
    · rw [List.filter_cons_of_pos (by simpa using hn), List.lookup_cons, List.lookup_cons, ih]

theorem get_set (query : SearchParams) (name value : String) : (query.set name value).get name = some value := by
  have hbefore : ∀ (query rest : SearchParams), (query.takeWhile (·.1 ≠ name) ++ (name, value) :: rest).lookup name = some value := by
    intro query rest
    rw [List.lookup_append, List.lookup_eq_none_iff.2 fun p hp => ?_, Option.none_or, List.lookup_cons, beq_self_eq_true]
    have hne : p.1 ≠ name := by simpa using List.mem_takeWhile_imp hp
    exact bne_iff_ne.2 hne.symm
  unfold get set
  split
  · exact hbefore query _
  · rename_i hnone
    have hall : query.takeWhile (·.1 ≠ name) = query := List.takeWhile_eq_self_iff.2 fun p hp => by
      refine decide_eq_true fun he => hnone ?_
      exact List.any_eq_true.2 ⟨p, hp, decide_eq_true he⟩
    have := hbefore query []
    rwa [hall] at this

/-- A value that occurs exactly once is the one read. -/
theorem getAll_of_length {query : SearchParams} {name value : String} (hone : (query.getAll name).length = 1)
    (hget : query.get name = some value) : query.getAll name = [value] := by
  obtain ⟨v, hv⟩ := List.length_eq_one_iff.1 hone
  rw [get_eq_head, hv] at hget
  cases hget
  exact hv

end SearchParams

/-! ## Client identifiers -/

/-- Maximum UTF-8 length of an HTTPS client identifier URL. -/
def CLIENT_IDENTIFIER_URL_MAX_BYTES : Nat := 2048

/-- `STATIC_CLIENT_ID_PATTERN`, also `OAUTH_CLIENT_ID_PATTERN`. -/
def matchesStaticClientId (raw : String) : Bool :=
  match raw.toList with
  | [] => false
  | c :: cs => isAlphanumeric c && cs.length ≤ 127 && cs.all fun c => isAlphanumeric c || ['.', '_', '~', '-'].contains c

/-- `/(?:\*|%2a)/i`: an asterisk, plain or percent-encoded. -/
def hasWildcard : List Char → Bool
  | [] => false
  | '*' :: _ => true
  | '%' :: '2' :: c :: cs => c = 'a' || c = 'A' || hasWildcard ('2' :: c :: cs)
  | _ :: cs => hasWildcard cs

/-- What follows a dot, plain or percent-encoded (`\.|%2e`). -/
def afterDot : List Char → Option (List Char)
  | '.' :: cs => some cs
  | '%' :: '2' :: 'e' :: cs => some cs
  | '%' :: '2' :: 'E' :: cs => some cs
  | _ => none

/-- `(?:\.|%2e){1,2}`: one dot or two. -/
def isDotSegment (segment : List Char) : Bool :=
  (afterDot segment).any fun rest => rest.isEmpty || afterDot rest = some []

/-- The characters from this UTF-16 position on. -/
def dropUnits : Nat → List Char → List Char
  | _, [] => []
  | n, c :: cs => if n = 0 then c :: cs else dropUnits (n - if c.toNat < 0x10000 then 1 else 2) cs

/-- The path as it was written: what starts with the first slash after `https://`. -/
def rawPath (raw : String) : List Char :=
  (dropUnits 8 (raw.toList.takeWhile fun c => c ≠ '?' && c ≠ '#')).dropWhile (· ≠ '/')

/-- Parse the strict URL form of client metadata documents. -/
def parseClientIdentifierUrl (env : Env) (raw : String) : Option Url :=
  if raw.utf8ByteSize > CLIENT_IDENTIFIER_URL_MAX_BYTES then none
  else if raw.toList.contains '?' || raw.toList.contains '#' || hasWildcard raw.toList then none
  else match env.parseUrl raw with
    | none => none
    | some url =>
      if url.protocol ≠ "https:" || url.hostname = "" || url.username ≠ "" || url.password ≠ "" || url.hash ≠ "" ||
          url.pathname = "" || url.pathname = "/" || url.search ≠ "" then none
      else if (url.pathname.toList.splitOn '/').any fun segment => segment = ['.'] || segment = ['.', '.'] then none
      -- parsing can hide an encoded dot segment, so the path as written is looked at too
      else if ((rawPath raw).splitOn '/').any isDotSegment then none
      else some url

def isValidOAuthClientId (env : Env) (raw : String) : Bool :=
  matchesStaticClientId raw || (parseClientIdentifierUrl env raw).isSome

/-! ## Limits -/

def OAUTH_FORM_MAX_PARAMETERS : Nat := 32
def OAUTH_PARAMETER_NAME_MAX_BYTES : Nat := 64
def OAUTH_PARAMETER_DEFAULT_MAX_BYTES : Nat := 2048
def OAUTH_CLIENT_ID_MAX_BYTES : Nat := CLIENT_IDENTIFIER_URL_MAX_BYTES
def OAUTH_CLIENT_SECRET_MAX_BYTES : Nat := 512

def OAUTH_PARAMETER_MAX_BYTES : List (String × Nat) :=
  [("client_id", OAUTH_CLIENT_ID_MAX_BYTES), ("client_secret", OAUTH_CLIENT_SECRET_MAX_BYTES), ("grant_type", 128),
    ("client_assertion_type", 128), ("client_assertion", 16 * 1024), ("code", 512), ("redirect_uri", 2048),
    ("code_verifier", 128), ("refresh_token", 512), ("device_code", 512), ("scope", 4096), ("resource", 2048),
    ("token", 16 * 1024), ("token_type_hint", 64), ("response_type", 64), ("state", 2048), ("nonce", 512),
    ("code_challenge", 128), ("code_challenge_method", 64), ("prompt", 128), ("max_age", 20),
    ("id_token_hint", 16 * 1024), ("post_logout_redirect_uri", 2048), ("_keyforge_reauth", 32)]

/-- What every object inherits: the table is a plain object, so these names find a function or an object
there instead of a number, and no length passes the comparison with it. -/
def OBJECT_PROPERTIES : List String :=
  ["constructor", "__defineGetter__", "__defineSetter__", "hasOwnProperty", "__lookupGetter__", "__lookupSetter__",
    "isPrototypeOf", "propertyIsEnumerable", "toString", "valueOf", "__proto__", "toLocaleString"]

inductive OAuthParameterLimitFailure where
  | invalidName
  | invalidValue
  | valueTooLong
  deriving DecidableEq, Repr

/-- `OAUTH_PARAMETER_NAME`. -/
def matchesParameterName (name : String) : Bool :=
  !name.toList.isEmpty && name.toList.all fun c => isAlphanumeric c || ['.', '_', '-'].contains c

/-- `REAUTH_CONTINUATION_PATTERN`. -/
def matchesReauthContinuation (value : String) : Bool :=
  value.toList.length = 32 && value.toList.all fun c => isAlphanumeric c || ['_', '-'].contains c

/-- Validate one field without ever reflecting its potentially sensitive value. -/
def validateOAuthParameter (env : Env) (name value : String) : Option OAuthParameterLimitFailure :=
  if name = "" || name.utf8ByteSize > OAUTH_PARAMETER_NAME_MAX_BYTES || !matchesParameterName name then some .invalidName
  else if name = "client_id" && !isValidOAuthClientId env value then some .invalidValue
  else if name = "_keyforge_reauth" && !matchesReauthContinuation value then some .invalidValue
  else if OBJECT_PROPERTIES.contains name then some .valueTooLong
  else
    let maximum := (OAUTH_PARAMETER_MAX_BYTES.lookup name).getD OAUTH_PARAMETER_DEFAULT_MAX_BYTES
    if value.utf8ByteSize ≤ maximum then none else some .valueTooLong

inductive OAuthParameterSetFailure where
  | tooManyParameters
  | parameter (failure : OAuthParameterLimitFailure)
  deriving DecidableEq, Repr

/-- The loop over the parameters, `count` of them seen. -/
def validateParameters (env : Env) (count : Nat) : SearchParams → Option OAuthParameterSetFailure
  | [] => none
  | (name, value) :: rest =>
    if count + 1 > OAUTH_FORM_MAX_PARAMETERS then some .tooManyParameters
    else match validateOAuthParameter env name value with
      | some failure => some (.parameter failure)
      | none => validateParameters env (count + 1) rest

/-- Apply the same count, name and value bounds to query or form parameters. -/
def validateOAuthParameterSet (env : Env) (parameters : SearchParams) : Option OAuthParameterSetFailure :=
  validateParameters env 0 parameters

/-- What passes has few parameters, and each is within its limits. -/
theorem validateOAuthParameterSet_eq_none {env : Env} {parameters : SearchParams} :
    validateOAuthParameterSet env parameters = none ↔ parameters.length ≤ OAUTH_FORM_MAX_PARAMETERS ∧
      ∀ p ∈ parameters, validateOAuthParameter env p.1 p.2 = none := by
  have hloop : ∀ (parameters : SearchParams) (count : Nat), count ≤ OAUTH_FORM_MAX_PARAMETERS →
      (validateParameters env count parameters = none ↔ count + parameters.length ≤ OAUTH_FORM_MAX_PARAMETERS ∧
        ∀ p ∈ parameters, validateOAuthParameter env p.1 p.2 = none) := by
    intro parameters
    induction parameters with
    | nil => exact fun count hcount => by simpa [validateParameters] using hcount
    | cons p parameters ih =>
      obtain ⟨name, value⟩ := p
      intro count hcount
      rw [validateParameters, List.forall_mem_cons, List.length_cons]
      split
      · rename_i h
        exact ⟨nofun, fun h' => by omega⟩
      · rename_i h
        cases hp : validateOAuthParameter env name value with
        | some failure => simp
        | none =>
          rw [ih (count + 1) (by omega)]
          simp only [true_and]
          exact and_congr_left' (by omega)
  simpa [validateOAuthParameterSet] using hloop parameters 0 (Nat.zero_le _)

end Keyforge.OAuth
