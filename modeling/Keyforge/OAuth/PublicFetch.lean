/-
Fetching public JSON (`oauth/client-id-metadata.ts`): the checks of every target, the resolution of its
host, the redirects and the bounded reader. The resolver and the servers answer as they like; the events of
a fetch are its DNS queries, what each host resolved to, and the documents it requested.
-/
import Keyforge.Lib.Trace
import Keyforge.Lib.Schema
import Keyforge.OAuth.InternetAddress
import Keyforge.Env
import Keyforge.OAuth.Scopes

namespace Keyforge.OAuth

open Lib

def CLIENT_METADATA_MAX_BYTES : Nat := 5 * 1024
def DNS_RESPONSE_MAX_BYTES : Nat := 16 * 1024
def CLIENT_METADATA_MAX_REDIRECTS : Nat := 3

/-- `ClientIdMetadataError`. -/
def metadataError (message : String) : Failure :=
  .clientIdMetadata message

/-! ## URLs and responses -/

/-- A parsed URL with its `href`. -/
structure TargetUrl extends Url where
  href : String
  deriving DecidableEq, Repr

/-- The body of a response: its chunks, how its stream ends, and what cancelling it comes to. An error is that
of the stream, or of the time limit of the request. -/
structure Body where
  chunks : List (List UInt8)
  ending : Except String Unit
  cancelled : Except String Unit

structure Response where
  status : Nat
  location : Option String
  contentLength : Option String
  contentType : Option String
  body : Option Body

def Response.ok (response : Response) : Bool :=
  200 ≤ response.status && response.status ≤ 299

/-- What the runtime computes: `new URL(text, base)`, `Number(text) > limit`, and
`JSON.parse(new TextDecoder().decode(bytes))`. -/
structure Platform where
  parseUrl : String → TargetUrl → Option TargetUrl
  numberExceeds : String → Nat → Bool
  parseJson : List UInt8 → Option JsonValue

/-! ## The bounded reader -/

/-- `await response.body?.cancel()`. -/
def cancelBody (response : Response) : Except Failure Unit :=
  match response.body with
  | none => .ok ()
  | some body => body.cancelled.mapError .error

/-- The loop of the reader: `length` bytes have come in `chunks`. -/
def readChunks (maximumBytes : Nat) (body : Body) (length : Nat) (chunks : List (List UInt8)) :
    List (List UInt8) → Except Failure (List (List UInt8))
  | [] => do
    body.ending.mapError .error
    pure chunks
  | value :: rest =>
    if length + value.length > maximumBytes then do
      body.cancelled.mapError .error
      throw (metadataError "Client metadata document is too large")
    else readChunks maximumBytes body (length + value.length) (chunks ++ [value]) rest

def readBoundedJson (platform : Platform) (response : Response) (maximumBytes : Nat) : Except Failure JsonValue :=
  if response.contentLength.any fun declaredLength => platform.numberExceeds declaredLength maximumBytes then do
    cancelBody response
    throw (metadataError "Client metadata document is too large")
  else
    match response.body with
    | none => throw (metadataError "Client metadata document is empty")
    | some body => do
      let chunks ← readChunks maximumBytes body 0 [] body.chunks
      match platform.parseJson chunks.flatten with
      | none => throw (metadataError "Client metadata document is not valid JSON")
      | some json => pure json

/-! ## Events -/

/-- What the outside answers to one step: what the given resolver comes to, what a request comes to, and whether
the later of two queries ends first. -/
structure Answer where
  addresses : Except Failure (List String)
  response : Except String Response
  second : Bool

inductive FetchEvent where
  /-- A query for the records of this type was sent. -/
  | dnsQuery (hostname : String) (type : Nat)
  /-- The resolution of a host came to this. -/
  | resolved (hostname : String) (addresses : Except Failure (List String))
  /-- A document was requested, and the request came to this. -/
  | document (url : TargetUrl) (response : Except String Response)

/-- Programs that fetch. -/
abbrev Fetch (α : Type) := ExceptT Failure (Prog Answer (List FetchEvent)) α

/-- `if (!holds) throw`. -/
def check (holds : Bool) (message : String) : Fetch Unit :=
  if holds then pure () else throw (metadataError message)

/-! ## Resolving a host -/

/-- An element of `Answer`. -/
def dnsAnswerSchema : JsonValue → Option (ℚ × String)
  | .object members =>
    match JsonValue.get "type" members, JsonValue.get "data" members with
    | some (.number type), some (.string data) => some (type, data)
    | _, _ => none
  | _ => none

/-- `Status` and `Answer`, which may be left out. -/
def dnsResponseSchema : JsonValue → Option (ℚ × List (ℚ × String))
  | .object members =>
    match JsonValue.get "Status" members, JsonValue.get "Answer" members with
    | some (.number status), none => some (status, [])
    | some (.number status), some (.array answers) => (answers.mapM dnsAnswerSchema).map fun answers => (status, answers)
    | _, _ => none
  | _ => none

/-- The addresses in the answer to a query. -/
def readDnsResponse (platform : Platform) (type : Nat) (response : Response) : Except Failure (List String) :=
  if !response.ok then do
    cancelBody response
    pure []
  else do
    let json ← readBoundedJson platform response DNS_RESPONSE_MAX_BYTES
    match dnsResponseSchema json with
    | some (status, answers) =>
      if status = 0 then pure ((answers.filter fun answer => answer.1 = (type : ℚ)).map Prod.snd) else pure []
    | none => pure []

/-- One query, whose failure is looked at when both are done; the answer says whether it ended before the
other. -/
def queryDns (platform : Platform) (hostname : String) (type : Nat) : Fetch (Except Failure (List String) × Bool) :=
  record fun answer =>
    let addresses := match answer.response with
      | .error message => .error (.error message)
      | .ok response => readDnsResponse platform type response
    (.ok (addresses, answer.second), .dnsQuery hostname type)

/-- `Promise.all` of the two queries; of two failures the first to come is the one that is thrown. -/
def joinQueries (first second : Except Failure (List String)) (secondEndsFirst : Bool) : Except Failure (List String) :=
  match first, second with
  | .ok addresses, .ok addresses' => .ok (addresses ++ addresses')
  | .error x, .ok _ => .error x
  | .ok _, .error y => .error y
  | .error x, .error y => .error (if secondEndsFirst then y else x)

/-- Both queries are sent before either is answered. -/
def resolvePublicHost (platform : Platform) (hostname : String) : Fetch (List String) :=
  let literal := stripBrackets hostname.toList
  if (parseIpv4 literal).isSome || (parseIpv6 literal).isSome then pure [String.ofList literal]
  else do
    let first ← queryDns platform hostname 1
    let second ← queryDns platform hostname 28
    let addresses ← settledAs (joinQueries first.1 second.1 second.2)
    check (!addresses.isEmpty) "Client metadata host did not resolve"
    pure addresses

/-- A fetch is given a resolver, or asks the DNS. -/
inductive Resolver where
  | given
  | dns
  deriving DecidableEq, Repr

def resolveHost (platform : Platform) (resolver : Resolver) (hostname : String) : Fetch (List String) :=
  match resolver with
  | .given => record fun answer => (answer.addresses, .resolved hostname answer.addresses)
  | .dns => recordOutcome (.resolved hostname) (resolvePublicHost platform hostname)

/-! ## Documents -/

/-- `contentType?.split(";", 1)[0]?.trim() ?? ""`. -/
def mediaType (contentType : Option String) : List Char :=
  match contentType with
  | none => []
  | some contentType => trimText (cutAt ';' contentType.toList).1

/-- `[a-z0-9!#$&^_.+-]`. -/
def subtypeChars : List Char := "abcdefghijklmnopqrstuvwxyz0123456789!#$&^_.+-".toList

/-- `/^application\/[a-z0-9!#$&^_.+-]+\+json$/i.test`. -/
def matchesJsonSuffix (text : List Char) : Bool :=
  let lower := text.map Char.toLower
  let subtype := lower.drop 12
  let name := subtype.take (subtype.length - 5)
  lower.take 12 = "application/".toList && subtype.drop (subtype.length - 5) = "+json".toList &&
    !name.isEmpty && name.all subtypeChars.contains

def isSafePublicFetchUrl (url : TargetUrl) : Bool :=
  url.protocol = "https:" && url.hostname ≠ "" && url.username = "" && url.password = "" && url.hash = ""

structure PublicJsonFetchResult where
  json : JsonValue
  response : Response
  finalUrl : TargetUrl

/-- What is done with a response that is no redirect. -/
def readDocument (platform : Platform) (maximumBytes : Nat) (url : TargetUrl) (response : Response) :
    Except Failure PublicJsonFetchResult :=
  if response.status ≠ 200 then do
    cancelBody response
    throw (metadataError "Client metadata endpoint did not return 200")
  else
    let contentType := mediaType response.contentType
    if contentType ≠ "application/json".toList && !matchesJsonSuffix contentType then do
      cancelBody response
      throw (metadataError "Client metadata endpoint did not return JSON")
    else do
      let json ← readBoundedJson platform response maximumBytes
      pure { json, response, finalUrl := url }

def fetchDocument (url : TargetUrl) : Fetch Response :=
  record fun answer =>
    (answer.response.mapError fun _ => metadataError "Client metadata document could not be fetched",
      .document url answer.response)

/-- The loop, with the rounds that are left and the targets visited. -/
def fetchRounds (platform : Platform) (resolver : Resolver) (maximumBytes : Nat) :
    Nat → List String → TargetUrl → Fetch PublicJsonFetchResult
  | 0, _, _ => throw (metadataError "Client metadata redirect limit exceeded")
  | left + 1, visited, url => do
    check (isSafePublicFetchUrl url && !visited.contains url.href) "Client metadata target URL is unsafe"
    let addresses ← tryCatch (resolveHost platform resolver url.hostname) fun error =>
      match error with
      | .clientIdMetadata _ => throw error
      | _ => throw (metadataError "Client metadata host could not be resolved")
    check (!addresses.isEmpty && addresses.all fun address => isPublicInternetAddress address.toList)
      "Client metadata host resolved to a special-use address"
    let response ← fetchDocument url
    if [301, 302, 303, 307, 308].contains response.status then do
      settledAs (cancelBody response)
      match response.location with
      | none => throw (metadataError "Client metadata redirect could not be followed safely")
      | some location =>
        if left = 0 then throw (metadataError "Client metadata redirect could not be followed safely")
        else
          match platform.parseUrl location url with
          | none => throw (metadataError "Client metadata redirect URL is invalid")
          | some next => fetchRounds platform resolver maximumBytes left (url.href :: visited) next
    else settledAs (readDocument platform maximumBytes url response)

/-- Fetch bounded JSON while validating every DNS and redirect target. -/
def fetchPublicJson (platform : Platform) (resolver : Resolver) (initialUrl : TargetUrl) (maximumBytes : Nat) :
    Fetch PublicJsonFetchResult :=
  fetchRounds platform resolver maximumBytes (CLIENT_METADATA_MAX_REDIRECTS + 1) [] initialUrl

end Keyforge.OAuth
