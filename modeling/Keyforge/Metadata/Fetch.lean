/-
The guard of the metadata fetch. Whatever the resolver and the servers answer, at every point of a fetch
each document requested so far was requested from a safe target, right after its host resolved to public
addresses only, none was requested twice, and there were four at most. A result is the document of the last
response, which was complete, JSON and within the bound.
-/
import Keyforge.OAuth.PublicFetch

namespace Keyforge.Metadata

open Lib OAuth

/-! ## The bounded reader -/

/-- The bytes of a body that came to its end. -/
def Complete (response : Response) (bytes : List UInt8) : Prop :=
  ∃ body, response.body = some body ∧ body.ending = .ok () ∧ bytes = body.chunks.flatten

theorem readChunks_ok {maximumBytes : Nat} {body : Body} : ∀ {rest chunks all : List (List UInt8)} {length : Nat},
    length ≤ maximumBytes → readChunks maximumBytes body length chunks rest = .ok all →
      body.ending = .ok () ∧ all = chunks ++ rest ∧ length + rest.flatten.length ≤ maximumBytes
  | [], chunks, all, length, hlength, h => by
    unfold readChunks at h
    cases hending : body.ending with
    | error message =>
      rw [hending] at h
      cases h
    | ok ended =>
      rw [hending] at h
      cases h
      exact ⟨rfl, by simp, by simpa using hlength⟩
  | value :: rest, chunks, all, length, _, h => by
    unfold readChunks at h
    split at h
    · cases hcancelled : body.cancelled <;> rw [hcancelled] at h <;> cases h
    · rename_i hle
      obtain ⟨hending, hall, hbytes⟩ := readChunks_ok (by omega) h
      refine ⟨hending, by rw [hall, List.append_assoc, List.singleton_append], ?_⟩
      rw [List.flatten_cons, List.length_append]
      omega

/-- What is read is a complete body within the bound, whatever length was declared. -/
theorem readBoundedJson_ok {platform : Platform} {response : Response} {maximumBytes : Nat} {json : JsonValue}
    (h : readBoundedJson platform response maximumBytes = .ok json) :
    ∃ bytes, Complete response bytes ∧ bytes.length ≤ maximumBytes ∧ platform.parseJson bytes = some json := by
  unfold readBoundedJson at h
  split at h
  · cases hcancel : cancelBody response <;> rw [hcancel] at h <;> cases h
  · cases hbody : response.body with
    | none =>
      rw [hbody] at h
      cases h
    | some body =>
      rw [hbody] at h
      dsimp only at h
      cases hchunks : readChunks maximumBytes body 0 [] body.chunks with
      | error x =>
        rw [hchunks] at h
        cases h
      | ok chunks =>
        obtain ⟨hending, hall, hbytes⟩ := readChunks_ok (Nat.zero_le _) hchunks
        rw [List.nil_append] at hall
        rw [Nat.zero_add] at hbytes
        subst hall
        rw [hchunks] at h
        dsimp only [Bind.bind, Except.bind] at h
        split at h
        · cases h
        · rename_i hparse
          cases h
          exact ⟨_, ⟨body, hbody, hending, rfl⟩, hbytes, hparse⟩

/-! ## JSON content types -/

/-- `application/json`, or `application/<name>+json` in letters of either case. -/
def IsJsonMediaType (text : List Char) : Prop :=
  text = "application/json".toList ∨
    ∃ name, name ≠ [] ∧ (∀ c ∈ name, c ∈ subtypeChars) ∧
      text.map Char.toLower = "application/".toList ++ name ++ "+json".toList

theorem matchesJsonSuffix_iff {text : List Char} : matchesJsonSuffix text = true ↔
    ∃ name, name ≠ [] ∧ (∀ c ∈ name, c ∈ subtypeChars) ∧
      text.map Char.toLower = "application/".toList ++ name ++ "+json".toList := by
  unfold matchesJsonSuffix
  simp only [Bool.and_eq_true, decide_eq_true_eq, List.all_eq_true, List.contains_iff_mem, Bool.not_eq_true',
    List.isEmpty_eq_false_iff]
  generalize text.map Char.toLower = lower
  constructor
  · rintro ⟨⟨⟨hstart, hend⟩, hne⟩, hname⟩
    refine ⟨_, hne, hname, ?_⟩
    rw [← hstart, ← hend, List.append_assoc, List.take_append_drop, List.take_append_drop]
  · rintro ⟨name, hne, hname, rfl⟩
    have hstart : "application/".toList.length = 12 := by decide
    have hsubtype : ("application/".toList ++ name ++ "+json".toList).drop 12 = name ++ "+json".toList := by
      rw [List.append_assoc, ← hstart, List.drop_left]
    have hlength : (name ++ "+json".toList).length - 5 = name.length := by simp
    rw [hsubtype, hlength, List.take_left, List.drop_left, List.append_assoc]
    refine ⟨⟨⟨?_, rfl⟩, hne⟩, hname⟩
    rw [← hstart, List.take_left]

/-! ## Documents -/

/-- The result is what was read of a response: a complete JSON document within the bound. -/
def ReadFrom (platform : Platform) (maximumBytes : Nat) (response : Response) (result : PublicJsonFetchResult) : Prop :=
  result.response = response ∧ response.status = 200 ∧ IsJsonMediaType (mediaType response.contentType) ∧
    ∃ bytes, Complete response bytes ∧ bytes.length ≤ maximumBytes ∧ platform.parseJson bytes = some result.json

theorem readDocument_ok {platform : Platform} {maximumBytes : Nat} {url : TargetUrl} {response : Response}
    {result : PublicJsonFetchResult} (h : readDocument platform maximumBytes url response = .ok result) :
    ReadFrom platform maximumBytes response result ∧ result.finalUrl = url := by
  unfold readDocument at h
  split at h
  · cases hcancel : cancelBody response <;> rw [hcancel] at h <;> cases h
  · rename_i hstatus
    dsimp only at h
    split at h
    · cases hcancel : cancelBody response <;> rw [hcancel] at h <;> cases h
    · rename_i htype
      cases hjson : readBoundedJson platform response maximumBytes with
      | error x =>
        rw [hjson] at h
        cases h
      | ok json =>
        rw [hjson] at h
        cases h
        refine ⟨⟨rfl, not_not.1 hstatus, ?_, readBoundedJson_ok hjson⟩, rfl⟩
        by_cases hplain : mediaType response.contentType = "application/json".toList
        · exact .inl hplain
        · cases hsuffix : matchesJsonSuffix (mediaType response.contentType) with
          | true => exact .inr (matchesJsonSuffix_iff.1 hsuffix)
          | false =>
            refine absurd ?_ htype
            rw [hsuffix, Bool.not_false, Bool.and_true, decide_eq_true_eq]
            exact hplain

/-! ## The guard -/

/-- An https URL without credentials or a non-empty fragment. -/
def IsSafeTarget (url : TargetUrl) : Prop :=
  url.protocol = "https:" ∧ url.username = "" ∧ url.password = "" ∧ url.hash = ""

/-- A document is requested from a safe target, right after its host resolved to public addresses only. -/
def Preceded : FetchEvent → List FetchEvent → Prop
  | .document url _, earlier => IsSafeTarget url ∧ ∃ addresses before, earlier = .resolved url.hostname (.ok addresses) :: before ∧
      addresses ≠ [] ∧ ∀ address ∈ addresses, isPublicInternetAddress address.toList = true
  | _, _ => True

/-- The documents requested, newest first. URLs are told apart by their `href`. -/
def requested : List FetchEvent → List String
  | [] => []
  | .document url _ :: earlier => url.href :: requested earlier
  | _ :: earlier => requested earlier

structure Guarded (trace : List FetchEvent) : Prop where
  preceded : Each Preceded trace
  once : (requested trace).Nodup
  few : (requested trace).length ≤ 4

theorem guarded_nil : Guarded [] :=
  ⟨each_nil, List.nodup_nil, Nat.zero_le _⟩

/-- Before a round: what was requested was visited, and the rounds that are left are not used up. -/
structure Ready (left : Nat) (visited : List String) (trace : List FetchEvent) : Prop where
  guarded : Guarded trace
  visited : ∀ href ∈ requested trace, href ∈ visited
  room : (requested trace).length + left ≤ 4

/-- An event that is no document keeps the round ready. -/
theorem Ready.cons {left : Nat} {visited : List String} {trace : List FetchEvent} (h : Ready left visited trace)
    {event : FetchEvent} (hevent : ∀ url response, event ≠ .document url response) : Ready left visited (event :: trace) := by
  have hrequested : requested (event :: trace) = requested trace := by
    cases event with
    | document url response => exact absurd rfl (hevent url response)
    | dnsQuery hostname type => rfl
    | resolved hostname addresses => rfl
  have hpreceded : Preceded event trace := by
    cases event with
    | document url response => exact absurd rfl (hevent url response)
    | dnsQuery hostname type => trivial
    | resolved hostname addresses => trivial
  refine ⟨⟨each_cons.2 ⟨hpreceded, h.guarded.preceded⟩, ?_, ?_⟩, ?_, ?_⟩ <;> rw [hrequested]
  · exact h.guarded.once
  · exact h.guarded.few
  · exact h.visited
  · exact h.room

/-- A document that is requested as `Preceded` says, and was not visited, uses up one round. -/
theorem Ready.document {left : Nat} {visited : List String} {trace : List FetchEvent} (h : Ready (left + 1) visited trace)
    {url : TargetUrl} {response : Except String Response} (hpreceded : Preceded (.document url response) trace)
    (hnew : url.href ∉ visited) : Ready left (url.href :: visited) (.document url response :: trace) := by
  have hroom := h.room
  refine ⟨⟨each_cons.2 ⟨hpreceded, h.guarded.preceded⟩, ?_, ?_⟩, ?_, ?_⟩ <;> rw [requested]
  · exact List.nodup_cons.2 ⟨fun hin => hnew (h.visited _ hin), h.guarded.once⟩
  · rw [List.length_cons]
    omega
  · intro href hhref
    rcases List.mem_cons.1 hhref with rfl | hhref
    · exact List.mem_cons_self
    · exact List.mem_cons_of_mem _ (h.visited href hhref)
  · rw [List.length_cons]
    omega

/-! ## Rounds -/

section

variable {left : Nat} {visited : List String} {trace : List FetchEvent}

theorem wpE_check {inv : List FetchEvent → Prop} {holds : Bool} {message : String} {Q : Unit → List FetchEvent → Prop}
    {X : Failure → List FetchEvent → Prop} (hQ : holds = true → Q () trace) (hX : X (metadataError message) trace) :
    wpE (tracing inv) (check holds message) Q X trace := by
  unfold check
  split
  · rename_i hholds
    exact hQ hholds
  · exact hX

/-- A query leaves no document. -/
theorem wpE_queryDns (h : Ready left visited trace) (platform : Platform) (hostname : String) (type : Nat) :
    wpE (tracing Guarded) (queryDns platform hostname type) (fun _ trace => Ready left visited trace)
      (fun _ trace => Ready left visited trace) trace := by
  refine wpE_record fun answer => ?_
  have hready : Ready left visited (.dnsQuery hostname type :: trace) := h.cons (by intro _ _ heq; cases heq)
  exact ⟨hready.guarded, fun _ _ => hready, fun _ _ => hready⟩

theorem wpE_resolvePublicHost (h : Ready left visited trace) (platform : Platform) (hostname : String) :
    wpE (tracing Guarded) (resolvePublicHost platform hostname) (fun _ trace => Ready left visited trace)
      (fun _ trace => Ready left visited trace) trace := by
  unfold resolvePublicHost
  dsimp only
  split
  · exact h
  · rw [wpE_bind]
    refine wpE_imp (fun first trace hfirst => ?_) (fun _ _ h => h) _ (wpE_queryDns h platform hostname 1)
    rw [wpE_bind]
    refine wpE_imp (fun second trace hsecond => ?_) (fun _ _ h => h) _ (wpE_queryDns hfirst platform hostname 28)
    rw [wpE_bind]
    refine wpE_settledAs (fun addresses _ => ?_) fun _ _ => hsecond
    rw [wpE_bind]
    exact wpE_check (fun _ => hsecond) hsecond

/-- A resolution leaves no document, and its outcome last. -/
theorem wpE_resolveHost (h : Ready left visited trace) (platform : Platform) (resolver : Resolver) (hostname : String) :
    wpE (tracing Guarded) (resolveHost platform resolver hostname)
      (fun addresses trace => Ready left visited trace ∧ ∃ before, trace = .resolved hostname (.ok addresses) :: before)
      (fun _ _ => True) trace := by
  have hresolved : ∀ {trace} outcome, Ready left visited trace →
      Ready left visited (.resolved hostname outcome :: trace) :=
    fun outcome h => h.cons (by intro _ _ heq; cases heq)
  cases resolver with
  | given =>
    refine wpE_record fun answer => ?_
    have hready := hresolved answer.addresses h
    refine ⟨hready.guarded, fun addresses haddresses => ⟨hready, trace, ?_⟩, fun _ _ => trivial⟩
    rw [← haddresses]
  | dns =>
    refine wpE_recordOutcome (wpE_imp ?_ ?_ _ (wpE_resolvePublicHost h platform hostname))
    · intro addresses trace hready
      have hready' := hresolved (.ok addresses) hready
      exact ⟨hready'.guarded, hready', trace, rfl⟩
    · intro error trace hready
      exact ⟨(hresolved (.error error) hready).guarded, trivial⟩

/-- The last event is the response that the result was read from. -/
def Fetched (platform : Platform) (maximumBytes : Nat) (result : PublicJsonFetchResult) (trace : List FetchEvent) : Prop :=
  ∃ response earlier, trace = .document result.finalUrl (.ok response) :: earlier ∧
    ReadFrom platform maximumBytes response result

/-- The rounds that are left keep the guard. -/
theorem wpE_fetchRounds (platform : Platform) (resolver : Resolver) (maximumBytes : Nat) : ∀ {left : Nat} {visited : List String}
    {trace : List FetchEvent} (url : TargetUrl), Ready left visited trace →
      wpE (tracing Guarded) (fetchRounds platform resolver maximumBytes left visited url) (Fetched platform maximumBytes)
        (fun _ _ => True) trace
  | 0, _, _, _, _ => trivial
  | left + 1, visited, trace, url, h => by
    unfold fetchRounds
    rw [wpE_bind]
    refine wpE_check (fun hchecked => ?_) trivial
    simp only [isSafePublicFetchUrl, Bool.and_eq_true, decide_eq_true_eq, Bool.not_eq_true', List.contains_eq_mem,
      decide_eq_false_iff_not] at hchecked
    obtain ⟨⟨⟨⟨⟨hprotocol, -⟩, husername⟩, hpassword⟩, hhash⟩, hnew⟩ := hchecked
    -- what the check says of the target
    have hsafe : IsSafeTarget url := ⟨hprotocol, husername, hpassword, hhash⟩
    rw [wpE_bind, wpE_tryCatch]
    refine wpE_imp ?_ ?_ _ (wpE_resolveHost h platform resolver url.hostname)
    · rintro addresses trace ⟨hready, before, hlast⟩
      rw [wpE_bind]
      refine wpE_check (fun hpublic => ?_) trivial
      simp only [Bool.and_eq_true, Bool.not_eq_true', List.isEmpty_eq_false_iff, List.all_eq_true] at hpublic
      rw [wpE_bind]
      refine wpE_record fun answer => ?_
      -- the document is asked for at addresses just found public
      have hpreceded : Preceded (.document url answer.response) trace := ⟨hsafe, addresses, before, hlast, hpublic⟩
      have hready' := hready.document hpreceded hnew
      refine ⟨hready'.guarded, fun response hresponse => ?_, fun _ _ => trivial⟩
      -- the round goes on with the response the server gave
      have hanswer : answer.response = .ok response := by
        cases hcame : answer.response with
        | error message =>
          rw [hcame] at hresponse
          cases hresponse
        | ok response' =>
          rw [hcame] at hresponse
          cases hresponse
          rfl
      rw [wpE_ite]
      refine ⟨fun _ => ?_, fun _ => ?_⟩
      · rw [wpE_bind]
        refine wpE_settledAs (fun _ _ => ?_) fun _ _ => trivial
        -- a redirection: the next round, at the target it names
        cases response.location with
        | none => trivial
        | some location =>
          dsimp only
          rw [wpE_ite]
          refine ⟨fun _ => trivial, fun _ => ?_⟩
          cases platform.parseUrl location url with
          | none => trivial
          | some next => exact wpE_fetchRounds platform resolver maximumBytes next hready'
      · refine wpE_settledAs (fun result hresult => ?_) fun _ _ => trivial
        obtain ⟨hread, hurl⟩ := readDocument_ok hresult
        refine ⟨response, trace, ?_, hread⟩
        rw [hurl, ← hanswer]
    · intro error trace _
      cases error <;> trivial

end

/-- The guard, at every point of every fetch. -/
theorem fetchPublicJson_guarded {platform : Platform} {resolver : Resolver} {initialUrl : TargetUrl} {maximumBytes : Nat}
    {rest : Prog Answer (List FetchEvent) (Except Failure PublicJsonFetchResult)} {trace : List FetchEvent}
    (h : Comes (fetchPublicJson platform resolver initialUrl maximumBytes).run [] rest trace) :
    Guarded trace ∧ ∀ result, rest = .done (.ok result) → Fetched platform maximumBytes result trace := by
  have hready : Ready 4 [] ([] : List FetchEvent) := ⟨guarded_nil, fun _ hin => hin, le_refl 4⟩
  exact h.traced guarded_nil (wpE_fetchRounds platform resolver maximumBytes initialUrl hready)

/-! ## A fetch with a redirect -/

def exampleUrl (host : String) : TargetUrl :=
  { protocol := "https:", username := "", password := "", hostname := host, port := "", pathname := "/client", search := "",
    hash := "", href := "https://" ++ host ++ "/client" }

/-- The runtime, on what the answers below need of it. -/
def examplePlatform : Platform where
  parseUrl := fun text _ => if text = "https://b.example/client" then some (exampleUrl "b.example") else none
  numberExceeds := fun text limit => text.toNat?.any fun n => n > limit
  parseJson := fun bytes => if bytes = [0x7b, 0x7d] then some (.object []) else none

def redirectResponse : Response :=
  { status := 302, location := some "https://b.example/client", contentLength := none, contentType := none, body := none }

def jsonResponse : Response :=
  { status := 200, location := none, contentLength := none, contentType := some "Application/Client+JSON; charset=utf-8",
    body := some { chunks := [[0x7b], [0x7d]], ending := .ok (), cancelled := .ok () } }

def resolvesTo (addresses : List String) : Answer :=
  { addresses := .ok addresses, response := .error "", second := false }

def responds (response : Response) : Answer :=
  { addresses := .ok [], response := .ok response, second := false }

def redirectAnswers : List Answer :=
  [resolvesTo ["93.184.216.34"], responds redirectResponse, resolvesTo ["1.1.1.1", "2606:4700::1111"], responds jsonResponse]

def redirectedTrace : List FetchEvent :=
  [.document (exampleUrl "b.example") (.ok jsonResponse), .resolved "b.example" (.ok ["1.1.1.1", "2606:4700::1111"]),
    .document (exampleUrl "a.example") (.ok redirectResponse), .resolved "a.example" (.ok ["93.184.216.34"])]

def redirectedResult : PublicJsonFetchResult :=
  { json := .object [], response := jsonResponse, finalUrl := exampleUrl "b.example" }

theorem fetchPublicJson_redirected :
    Comes (fetchPublicJson examplePlatform .given (exampleUrl "a.example") CLIENT_METADATA_MAX_BYTES).run []
      (.done (.ok redirectedResult)) redirectedTrace :=
  comes_follow redirectAnswers _ []

theorem fetchPublicJson_guarded_redirected :
    Guarded redirectedTrace ∧ Fetched examplePlatform CLIENT_METADATA_MAX_BYTES redirectedResult redirectedTrace := by
  obtain ⟨hguarded, hfetched⟩ := fetchPublicJson_guarded fetchPublicJson_redirected
  exact ⟨hguarded, hfetched redirectedResult rfl⟩

end Keyforge.Metadata
