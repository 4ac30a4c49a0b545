/-
Continuations of a forced login (`security/reauth-continuation.ts`). The request is validated, the login adds
its proof as one more parameter, and the request is validated again: what was accepted is accepted again as
long as there is room for one more parameter.
-/
import Keyforge.Lib.FormUrlencoded
import Keyforge.OAuth.RequestLimits
import Keyforge.Security.ReturnTo
import Keyforge.Utils.Random
import Keyforge.Deployment

namespace Keyforge.Security

open Lib OAuth Utils

/-! ## The functions -/

def REAUTH_PROOF_PARAM : String := "_keyforge_reauth"

def REAUTH_PROOF_TTL_SECONDS : Nat := 5 * 60

/-- `pathname` and `searchParams` of `new URL(text, "https://keyforge.invalid")`. A text with an authority of
its own takes the scheme of the base; `none` if the URL parser throws. -/
def resolveLocal (env : Env) (text : String) : Option (String × SearchParams) :=
  match pathAbsolute text.toList with
  | some url => some (String.ofList url.pathname, formParse (url.query.getD []))
  | none => (env.parseUrl ("https:" ++ text)).map fun url => (url.pathname, formParse (url.search.toList.drop 1))

/-- `${url.pathname}${url.search}`, after a change to `url.searchParams`. -/
def writeLocal (pathname : String) (params : SearchParams) : String :=
  match formSerialize params with
  | [] => pathname
  | query => pathname ++ String.ofList ('?' :: query)

def canonicalReturnTo (env : Env) (raw : String) : Option String := do
  let (pathname, params) ← resolveLocal env (safeLocalPath (some raw))
  pure (writeLocal pathname (params.delete REAUTH_PROOF_PARAM))

structure ReauthContinuationRow where
  tokenHash : String
  sessionId : String
  requestHash : String
  expiresAt : Nat
  createdAt : Nat
  deriving DecidableEq, Repr

/-- The row that is inserted, if there is one, and the URL that is returned. -/
def createReauthContinuation (env : Env) (getRandomValues : (length : Nat) → { bytes : List UInt8 // bytes.length = length })
    (now : Nat) (sessionId rawReturnTo : String) : Option (Option ReauthContinuationRow × String) := do
  let returnTo ← canonicalReturnTo env rawReturnTo
  let (pathname, params) ← resolveLocal env returnTo
  if pathname ≠ "/oauth/authorize" then pure (none, returnTo)
  else
    let token ← randomToken getRandomValues 24
    let row :=
      { tokenHash := hashOpaqueToken env token, sessionId, requestHash := sha256Hex env.sha256 returnTo,
        expiresAt := now + REAUTH_PROOF_TTL_SECONDS, createdAt := now }
    pure (some row, writeLocal pathname (params.set REAUTH_PROOF_PARAM token))

section

variable {env : Env} {params : SearchParams}

/-! ## What is written and read -/

/-- An empty query has no parameters, whether it is there or not. -/
theorem formParse_filter (query : Option (List Char)) :
    formParse ((query.filter (· ≠ [])).getD []) = formParse (query.getD []) := by
  cases query with
  | none => rfl
  | some query => cases query <;> rfl

theorem writeLocal_eq (path : List (List Char)) : writeLocal (String.ofList (path.flatMap ('/' :: ·))) params =
    String.ofList (LocalUrl.href ⟨path, some (formSerialize params), none⟩) := by
  unfold writeLocal LocalUrl.href LocalUrl.search LocalUrl.hash LocalUrl.pathname
  cases formSerialize params with
  | nil => simp
  | cons c query => simp

/-- What is written with a parsed path is read again. -/
theorem resolveLocal_write {url : LocalUrl} (h : url.WellFormed) (hauthority : ¬url.LooksAuthority) :
    resolveLocal env (writeLocal (String.ofList url.pathname) params) = some (String.ofList url.pathname, params) := by
  have hwell : LocalUrl.WellFormed ⟨url.path, some (formSerialize params), none⟩ := by
    refine ⟨h.path, h.segments, ?_, nofun⟩
    rintro query ⟨⟩
    exact specialQuerySet_serialize
  have hread := pathAbsolute_href hwell hauthority
  rw [LocalUrl.pathname, writeLocal_eq, resolveLocal, String.toList_ofList, hread]
  dsimp only [LocalUrl.compact]
  rw [formParse_filter, Option.getD_some, formParse_serialize]
  rfl

/-! ## The request -/

/-- The text is a request to the authorization endpoint, with these parameters. -/
def AuthorizeQuery (raw : String) (params : SearchParams) : Prop :=
  ∃ url, pathAbsolute raw.toList = some url ∧ String.ofList url.pathname = "/oauth/authorize" ∧
    params = formParse (url.query.getD [])

theorem not_looksAuthority {url : LocalUrl} (h : String.ofList url.pathname = "/oauth/authorize") : ¬url.LooksAuthority := by
  rintro ⟨segment, rest, hpath⟩
  have hchars := congrArg String.toList h
  rw [String.toList_ofList, LocalUrl.pathname, hpath] at hchars
  simp at hchars

/-- A text that passes the checks keeps its parameters, but for the proof. -/
theorem canonicalReturnTo_eq {raw : String} (hok : refusedReturnTo raw = false) (h : AuthorizeQuery raw params) :
    canonicalReturnTo env raw = some (writeLocal "/oauth/authorize" (params.delete REAUTH_PROOF_PARAM)) := by
  obtain ⟨url, hurl, hpath, rfl⟩ := h
  have hread := pathAbsolute_href (wellFormed_of_pathAbsolute hurl) (not_looksAuthority hpath)
  have hsafe : safeLocalPath (some raw) = String.ofList url.href := by
    unfold safeLocalPath
    simp only [hok, hurl, Bool.false_eq_true, if_false]
    rfl
  have hresolve : resolveLocal env (safeLocalPath (some raw)) = some ("/oauth/authorize", formParse (url.query.getD [])) := by
    rw [hsafe, resolveLocal, String.toList_ofList, hread]
    dsimp only [LocalUrl.compact]
    rw [formParse_filter, ← hpath]
    rfl
  rw [canonicalReturnTo, hresolve]
  rfl

theorem resolveLocal_root : resolveLocal env "/" = some ("/", []) := by
  have hroot : pathAbsolute "/".toList = some ⟨[[]], none, none⟩ := by decide +kernel
  rw [resolveLocal, hroot]
  rfl

/-- A text that is turned away continues at the root. -/
theorem createReauthContinuation_refused {raw : String} (h : refusedReturnTo raw = true)
    (getRandomValues : (length : Nat) → { bytes : List UInt8 // bytes.length = length }) (now : Nat) (sessionId : String) :
    createReauthContinuation env getRandomValues now sessionId raw = some (none, "/") := by
  have hsafe : safeLocalPath (some raw) = "/" := by
    unfold safeLocalPath
    simp only [h, if_true]
  have hcanonical : canonicalReturnTo env raw = some "/" := by
    rw [canonicalReturnTo, hsafe, resolveLocal_root]
    rfl
  rw [createReauthContinuation, hcanonical]
  simp only [Option.bind_eq_bind, Option.bind_some, resolveLocal_root]
  rfl

/-- A request gets the proof as one more parameter. -/
theorem createReauthContinuation_eq {raw : String} (hok : refusedReturnTo raw = false) (h : AuthorizeQuery raw params)
    (hnone : ∀ p ∈ params, p.1 ≠ REAUTH_PROOF_PARAM)
    (getRandomValues : (length : Nat) → { bytes : List UInt8 // bytes.length = length }) (now : Nat) (sessionId : String) :
    ∃ row, createReauthContinuation env getRandomValues now sessionId raw = some (some row,
        writeLocal "/oauth/authorize" (params ++ [(REAUTH_PROOF_PARAM, drawnToken getRandomValues 24)])) ∧
      ∀ pairs, resolveLocal env (writeLocal "/oauth/authorize" pairs) = some ("/oauth/authorize", pairs) := by
  have hdelete : params.delete REAUTH_PROOF_PARAM = params :=
    List.filter_eq_self.2 fun p hp => decide_eq_true (hnone p hp)
  have hset : ∀ value, params.set REAUTH_PROOF_PARAM value = params ++ [(REAUTH_PROOF_PARAM, value)] := by
    intro value
    have habsent : ¬params.any (·.1 = REAUTH_PROOF_PARAM) = true := by
      rw [List.any_eq_true]
      rintro ⟨p, hp, hname⟩
      exact hnone p hp (of_decide_eq_true hname)
    unfold SearchParams.set
    rw [if_neg habsent]
  have hresolve : ∀ pairs, resolveLocal env (writeLocal "/oauth/authorize" pairs) = some ("/oauth/authorize", pairs) := by
    obtain ⟨url, hurl, hpath, -⟩ := h
    intro pairs
    rw [← hpath]
    exact resolveLocal_write (wellFormed_of_pathAbsolute hurl) (not_looksAuthority hpath)
  have hcanonical := @canonicalReturnTo_eq env params raw hok h
  rw [hdelete] at hcanonical
  let row : ReauthContinuationRow :=
    { tokenHash := hashOpaqueToken env (drawnToken getRandomValues 24), sessionId,
      requestHash := sha256Hex env.sha256 (writeLocal "/oauth/authorize" params),
      expiresAt := now + REAUTH_PROOF_TTL_SECONDS, createdAt := now }
  refine ⟨row, ?_, hresolve⟩
  rw [createReauthContinuation, hcanonical]
  simp only [Option.bind_eq_bind, Option.bind_some, hresolve, hset, ne_eq, not_true_eq_false, if_false]
  rfl

/-! ## Validation -/

/-- The proof is within the limits of its parameter. -/
theorem validate_proof (getRandomValues : (length : Nat) → { bytes : List UInt8 // bytes.length = length }) :
    validateOAuthParameter env REAUTH_PROOF_PARAM (drawnToken getRandomValues 24) = none := by
  have hdigit : ∀ d ∈ Base64.alphabet, (isAlphanumeric (toUrl d) || ['_', '-'].contains (toUrl d)) = true ∧
      (toUrl d).toNat < 0x80 := List.all_iff_forall_prop.1 (by decide +kernel)
  have hchars : ∀ c ∈ (drawnToken getRandomValues 24).toList, (isAlphanumeric c || ['_', '-'].contains c) = true ∧
      c.toNat < 0x80 := by
    intro c hc
    rw [drawnToken, toList_base64UrlEncode] at hc
    obtain ⟨d, hd, rfl⟩ := mem_urlDigits hc
    exact hdigit d hd
  have hlength : (drawnToken getRandomValues 24).toList.length = 32 := by
    rw [drawnToken, length_base64UrlEncode, (getRandomValues 24).2]
  have hmatches : matchesReauthContinuation (drawnToken getRandomValues 24) = true := by
    unfold matchesReauthContinuation
    rw [hlength, List.all_eq_true.2 fun c hc => (hchars c hc).1]
    rfl
  have hsize : (drawnToken getRandomValues 24).utf8ByteSize ≤ 32 := by
    rw [utf8ByteSize_ascii fun c hc => (hchars c hc).2, ← String.length_toList, hlength]
  have hname : (REAUTH_PROOF_PARAM = "" || REAUTH_PROOF_PARAM.utf8ByteSize > OAUTH_PARAMETER_NAME_MAX_BYTES ||
      !matchesParameterName REAUTH_PROOF_PARAM) = false := by decide
  have hlookup : (OAUTH_PARAMETER_MAX_BYTES.lookup REAUTH_PROOF_PARAM).getD OAUTH_PARAMETER_DEFAULT_MAX_BYTES = 32 := by
    decide
  have hclient : REAUTH_PROOF_PARAM ≠ "client_id" := by decide
  have hobject : OBJECT_PROPERTIES.contains REAUTH_PROOF_PARAM = false := by decide
  unfold validateOAuthParameter
  rw [if_neg (by rw [hname]; exact Bool.false_ne_true), if_neg (by simp [hclient]), if_neg (by simp [hmatches]),
    if_neg (by rw [hobject]; exact Bool.false_ne_true)]
  dsimp only
  rw [hlookup, if_pos hsize]

/-- One more parameter is accepted if there is room for it. -/
theorem validate_append {p : String × String} (hparams : validateOAuthParameterSet env params = none)
    (hp : validateOAuthParameter env p.1 p.2 = none) :
    validateOAuthParameterSet env (params ++ [p]) = none ↔ params.length + 1 ≤ OAUTH_FORM_MAX_PARAMETERS := by
  rw [validateOAuthParameterSet_eq_none] at hparams ⊢
  rw [List.length_append, List.length_singleton, List.forall_mem_append]
  constructor
  · exact fun h => h.1
  · exact fun h => ⟨h, hparams.2, by simpa using hp⟩

end

/-- Where the forced login continues is a request that is accepted exactly if the accepted request had room
for one more parameter, or was not taken over at all. -/
theorem reauth_accepted_iff (env : Env) (getRandomValues : (length : Nat) → { bytes : List UInt8 // bytes.length = length })
    (now : Nat) (sessionId raw : String) (params : SearchParams) (h : AuthorizeQuery raw params)
    (hnone : ∀ p ∈ params, p.1 ≠ REAUTH_PROOF_PARAM) (haccepted : validateOAuthParameterSet env params = none) :
    ∃ row continuation pathname query,
      createReauthContinuation env getRandomValues now sessionId raw = some (row, continuation) ∧
      resolveLocal env continuation = some (pathname, query) ∧
      (validateOAuthParameterSet env query = none ↔
        refusedReturnTo raw = true ∨ params.length < OAUTH_FORM_MAX_PARAMETERS) := by
  cases hok : refusedReturnTo raw with
  | true =>
    have hempty : validateOAuthParameterSet env [] = none := by rw [validateOAuthParameterSet, validateParameters]
    exact ⟨none, "/", "/", [], createReauthContinuation_refused hok _ _ _, resolveLocal_root, by simp [hempty]⟩
  | false =>
    obtain ⟨row, hcreate, hresolve⟩ := @createReauthContinuation_eq env params raw hok h hnone getRandomValues now sessionId
    have hroom := @validate_append env params (REAUTH_PROOF_PARAM, drawnToken getRandomValues 24) haccepted
      (validate_proof getRandomValues)
    refine ⟨some row, _, _, _, hcreate, hresolve _, hroom.trans ⟨fun hlt => .inr hlt, ?_⟩⟩
    rintro (hrefused | hlt)
    · cases hrefused
    · exact hlt

/-! ## Requests at the limit -/

theorem authorizeQuery_write (params : SearchParams) : AuthorizeQuery (writeLocal "/oauth/authorize" params) params := by
  let url : LocalUrl := ⟨["oauth".toList, "authorize".toList], some (formSerialize params), none⟩
  have hwritten : String.ofList (["oauth".toList, "authorize".toList].flatMap ('/' :: ·)) = "/oauth/authorize" := by decide
  have hsegments : ∀ segment ∈ ["oauth".toList, "authorize".toList], isName segment = true ∧
      ∀ c ∈ segment, pathSet c = false ∧ isPathSeparator c = false := by
    refine List.forall_mem_cons.2 ⟨⟨by decide, ?_⟩, List.forall_mem_singleton.2 ⟨by decide, ?_⟩⟩ <;>
      exact List.all_iff_forall_prop.1 (by decide)
  have hpath : String.ofList url.pathname = "/oauth/authorize" := hwritten
  have hwell : url.WellFormed := by
    refine ⟨List.cons_ne_nil _ _, hsegments, ?_, nofun⟩
    rintro query ⟨⟩
    exact specialQuerySet_serialize
  refine ⟨url.compact, ?_, hpath, ?_⟩
  · rw [← pathAbsolute_href hwell (not_looksAuthority hpath), ← hpath, LocalUrl.pathname, writeLocal_eq, String.toList_ofList]
  · show params = formParse (((some (formSerialize params)).filter (· ≠ [])).getD [])
    rw [formParse_filter, Option.getD_some, formParse_serialize]

/-- A random source for concrete runs. -/
def zeros (length : Nat) : { bytes : List UInt8 // bytes.length = length } :=
  ⟨List.replicate length 0, List.length_replicate⟩

/-- As many parameters as a request may have. -/
def fullQuery : SearchParams := List.replicate 32 ("a", "b")

/-- The full request is accepted, and what it becomes is turned away. -/
theorem full_reauth_rejected :
    AuthorizeQuery (writeLocal "/oauth/authorize" fullQuery) fullQuery ∧ (∀ p ∈ fullQuery, p.1 ≠ REAUTH_PROOF_PARAM) ∧
      validateOAuthParameterSet Deployment.env fullQuery = none ∧
      ∃ row continuation query,
        createReauthContinuation Deployment.env zeros 0 "sess_a" (writeLocal "/oauth/authorize" fullQuery) = some (row, continuation) ∧
        resolveLocal Deployment.env continuation = some ("/oauth/authorize", query) ∧
        validateOAuthParameterSet Deployment.env query = some .tooManyParameters := by
  have hquery := authorizeQuery_write fullQuery
  have hnone : ∀ p ∈ fullQuery, p.1 ≠ REAUTH_PROOF_PARAM := by decide
  have hok : refusedReturnTo (writeLocal "/oauth/authorize" fullQuery) = false := by decide +kernel
  obtain ⟨row, hcreate, hresolve⟩ :=
    @createReauthContinuation_eq Deployment.env fullQuery _ hok hquery hnone zeros 0 "sess_a"
  exact ⟨hquery, hnone, by decide +kernel, some row, _, _, hcreate, hresolve _, by decide +kernel⟩

/-- One parameter fewer. -/
theorem reauth_accepted_iff_room :
    ∃ row continuation pathname query,
      createReauthContinuation Deployment.env zeros 0 "sess_a" (writeLocal "/oauth/authorize" (List.replicate 31 ("a", "b"))) =
        some (row, continuation) ∧
      resolveLocal Deployment.env continuation = some (pathname, query) ∧
      validateOAuthParameterSet Deployment.env query = none := by
  obtain ⟨row, continuation, pathname, query, hcreate, hresolve, hiff⟩ :=
    reauth_accepted_iff Deployment.env zeros 0 "sess_a" (writeLocal "/oauth/authorize" (List.replicate 31 ("a", "b")))
      (List.replicate 31 ("a", "b")) (authorizeQuery_write _) (by decide) (by decide +kernel)
  exact ⟨row, continuation, pathname, query, hcreate, hresolve, hiff.2 (.inr (by decide))⟩

end Keyforge.Security
