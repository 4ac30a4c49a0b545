/-
Sanitising of audit fields (`security/audit-sanitize.ts`). The producer copies a value into a tree with
limits on depth, nodes, items, keys and bytes and notes whether it left anything out; then it keeps the
entries that fit and makes room for the marker. The checker counts on its own. They agree: what is produced
is accepted, what is accepted is produced unchanged, and without the marker nothing was left out.
-/
import Keyforge.Lib.JsValue

namespace Keyforge.Security

open Lib

/-! ## Limits -/

def AUDIT_DETAIL_MAX_BYTES : Nat := 1024
def AUDIT_METADATA_MAX_BYTES : Nat := 4096
def AUDIT_METADATA_MAX_KEYS : Nat := 32
def AUDIT_METADATA_KEY_MAX_BYTES : Nat := 64
def AUDIT_METADATA_MAX_DEPTH : Nat := 4
def AUDIT_METADATA_MAX_ARRAY_ITEMS : Nat := 32
def AUDIT_METADATA_STRING_MAX_BYTES : Nat := 512
def AUDIT_METADATA_MAX_NODES : Nat := 256

def FORBIDDEN_METADATA_KEYS : List Text :=
  [textOf "__proto__", textOf "prototype", textOf "constructor"]

def TRUNCATED : Text := textOf "_truncated"

/-! ## Texts -/

def utf8Length (value : Text) : Nat :=
  encodedLength value

/-- The characters that fit after `bytes` others. -/
def takeBytes (maximumBytes : Nat) : Nat → Text → Text
  | _, [] => []
  | bytes, character :: rest =>
    if bytes + utf8Bytes character > maximumBytes then []
    else character :: takeBytes maximumBytes (bytes + utf8Bytes character) rest

def truncateUtf8 (value : Text) (maximumBytes : Nat) : Text :=
  if utf8Length value ≤ maximumBytes then value else takeBytes maximumBytes 0 value

def sanitizeAuditDetail (detail : Nullish Text) : Nullish Text :=
  detail.map (truncateUtf8 · AUDIT_DETAIL_MAX_BYTES)

def isBoundedAuditDetail (value : Text) : Bool :=
  utf8Length value ≤ AUDIT_DETAIL_MAX_BYTES

theorem takeBytes_le {maximumBytes : Nat} : ∀ {bytes : Nat} (value : Text), bytes ≤ maximumBytes →
    bytes + utf8Length (takeBytes maximumBytes bytes value) ≤ maximumBytes
  | bytes, [], h => h
  | bytes, character :: rest, h => by
    rw [takeBytes]
    split
    · exact h
    · rename_i hfits
      have := @takeBytes_le maximumBytes _ rest (Nat.le_of_not_gt hfits)
      simp only [utf8Length, encodedLength_cons] at this ⊢
      omega

theorem takeBytes_start {maximumBytes : Nat} : ∀ (bytes : Nat) (value : Text), takeBytes maximumBytes bytes value <+: value
  | _, [] => List.prefix_rfl
  | bytes, character :: rest => by
    rw [takeBytes]
    split
    · exact List.nil_prefix
    · exact (List.prefix_cons_inj character).2 (takeBytes_start _ rest)

theorem truncateUtf8_le (value : Text) (maximumBytes : Nat) : utf8Length (truncateUtf8 value maximumBytes) ≤ maximumBytes := by
  unfold truncateUtf8
  split
  · assumption
  · simpa using takeBytes_le value (Nat.zero_le maximumBytes)

theorem truncateUtf8_start (value : Text) (maximumBytes : Nat) : truncateUtf8 value maximumBytes <+: value := by
  unfold truncateUtf8
  split
  · exact List.prefix_rfl
  · exact takeBytes_start 0 value

theorem truncateUtf8_eq {value : Text} {maximumBytes : Nat} (h : utf8Length value ≤ maximumBytes) :
    truncateUtf8 value maximumBytes = value :=
  if_pos h

/-! ## The producer -/

structure SanitizeState where
  seen : List Nat
  nodesRemaining : Nat
  truncated : Bool

/-- Note that something is left out, if it is. -/
def SanitizeState.note (leftOut : Bool) (state : SanitizeState) : SanitizeState :=
  if leftOut then { state with truncated := true } else state

/-- A step for each element, in order, on one state (`map`). -/
def threaded {α β σ : Type} (f : α → σ → β × σ) : List α → σ → List β × σ
  | [], state => ([], state)
  | a :: as, state =>
    let (b, state) := f a state
    let (bs, state) := threaded f as state
    (b :: bs, state)

section

variable {ν : Type}

/-- The loop over an object's entries: `result` has those before. -/
def sanitizeEntries (f : JsValue ν → SanitizeState → JsTree ν × SanitizeState) :
    List (Text × JsValue ν) → List (Text × JsTree ν) → SanitizeState → List (Text × JsTree ν) × SanitizeState
  | [], result, state => (result, state)
  | (rawKey, item) :: entries, result, state =>
    let key := truncateUtf8 rawKey AUDIT_METADATA_KEY_MAX_BYTES
    let unusable := key = [] || FORBIDDEN_METADATA_KEYS.contains key || (result.map Prod.fst).contains key
    let state := state.note (key ≠ rawKey || unusable)
    if unusable then sanitizeEntries f entries result state
    else
      let (value, state) := f item state
      sanitizeEntries f entries (assign result key value) state

variable [JsNumber ν]

/-- `sanitizeValue` with `levels` levels left, at depth `AUDIT_METADATA_MAX_DEPTH - levels`. -/
def sanitizeValue (h : Heap ν) : Nat → JsValue ν → SanitizeState → JsTree ν × SanitizeState
  | levels, value, state =>
    match value with
    | .null => (.null, state)
    | .string s =>
      let sanitized := truncateUtf8 s AUDIT_METADATA_STRING_MAX_BYTES
      (.string sanitized, state.note (sanitized ≠ s))
    | .bool b => (.bool b, state)
    | .number x => if JsNumber.isFinite x then (.number x, state) else (.null, state.note true)
    | .bigint digits => (.string (truncateUtf8 digits AUDIT_METADATA_STRING_MAX_BYTES), state.note true)
    | .undefined | .function => (.null, state.note true)
    | .ref o =>
      match levels with
      | 0 => (.string (textOf "[max_depth]"), state.note true)
      | levels + 1 =>
        if state.nodesRemaining = 0 then (.string (textOf "[truncated]"), state.note true)
        else
          let state := { state with nodesRemaining := state.nodesRemaining - 1 }
          if state.seen.contains o then (.string (textOf "[circular]"), state.note true)
          else
            let state := { state with seen := o :: state.seen }
            match h.object o with
            | .array items =>
              let state := state.note (items.length > AUDIT_METADATA_MAX_ARRAY_ITEMS)
              let (result, state) := threaded (sanitizeValue h levels) (items.take AUDIT_METADATA_MAX_ARRAY_ITEMS) state
              (.array result, { state with seen := state.seen.erase o })
            | .record entries _ =>
              let state := state.note (entries.length > AUDIT_METADATA_MAX_KEYS)
              let (result, state) :=
                sanitizeEntries (sanitizeValue h levels) (entries.take AUDIT_METADATA_MAX_KEYS) [] state
              (.record result, { state with seen := state.seen.erase o })
            | .unreadable =>
              let state := state.note true
              (.record [], { state with seen := state.seen.erase o })

def serializedLength (entries : List (Text × JsTree ν)) : Nat :=
  utf8Length (JsTree.record entries).render

/-- Keep an entry if the object still fits, else note that it is left out. -/
def keepFitting (kept : List (Text × JsTree ν) × Bool) (entry : Text × JsTree ν) : List (Text × JsTree ν) × Bool :=
  let candidate := assign kept.1 entry.1 entry.2
  if serializedLength candidate ≤ AUDIT_METADATA_MAX_BYTES then (candidate, kept.2) else (kept.1, true)

/-- The marker does not fit. -/
def isFull (bounded : List (Text × JsTree ν)) : Bool :=
  bounded.length ≥ AUDIT_METADATA_MAX_KEYS ||
    serializedLength (assign bounded TRUNCATED (.bool true)) > AUDIT_METADATA_MAX_BYTES

/-- Remove last entries until the marker fits; the entries are given last first. -/
def makeRoom : List (Text × JsTree ν) → List (Text × JsTree ν)
  | [] => []
  | last :: earlier => if isFull (last :: earlier).reverse then makeRoom earlier else (last :: earlier).reverse

/-- The object that stands for a value that is not `null` or `undefined`. -/
def sanitizedEntries (h : Heap ν) (metadata : JsValue ν) : List (Text × JsTree ν) :=
  let (sanitized, state) := sanitizeValue h AUDIT_METADATA_MAX_DEPTH metadata ⟨[], AUDIT_METADATA_MAX_NODES, false⟩
  match sanitized with
  | .record entries =>
    let (bounded, truncated) := entries.foldl keepFitting ([], state.truncated)
    if truncated then assign (makeRoom bounded.reverse) TRUNCATED (.bool true) else bounded
  | _ => [(TRUNCATED, .bool true)]

/-- Convert application metadata to bounded, JSON-safe data, as fresh objects. -/
def sanitizeAuditMetadata (h : Heap ν) (metadata : JsValue ν) : JsValue ν × Heap ν :=
  match metadata with
  | .null => (.null, h)
  | .undefined => (.undefined, h)
  | _ => (JsTree.record (sanitizedEntries h metadata)).allocate h

/-! ## The checker -/

structure BoundedState where
  seen : List Nat
  nodes : Nat

/-- `every`, on one state; the first failure ends it. -/
def everyState {α σ : Type} (f : α → σ → Bool × σ) : List α → σ → Bool × σ
  | [], state => (true, state)
  | a :: as, state =>
    match f a state with
    | (true, state) => everyState f as state
    | (false, state) => (false, state)

def isMetadataKey (key : Text) : Bool :=
  key ≠ [] && !FORBIDDEN_METADATA_KEYS.contains key && utf8Length key ≤ AUDIT_METADATA_KEY_MAX_BYTES

def isBoundedEntry {σ : Type} (f : JsValue ν → σ → Bool × σ) (entry : Text × JsValue ν) (state : σ) : Bool × σ :=
  if isMetadataKey entry.1 then f entry.2 state else (false, state)

def isBoundedValue (h : Heap ν) : Nat → JsValue ν → BoundedState → Bool × BoundedState
  | levels, value, state =>
    match value with
    | .null | .bool _ => (true, state)
    | .string s => (utf8Length s ≤ AUDIT_METADATA_STRING_MAX_BYTES, state)
    | .number x => (JsNumber.isFinite x, state)
    | .bigint _ | .undefined | .function => (false, state)
    | .ref o =>
      match levels with
      | 0 => (false, state)
      | levels + 1 =>
        let state := { state with nodes := state.nodes + 1 }
        if state.nodes > AUDIT_METADATA_MAX_NODES || state.seen.contains o then (false, state)
        else
          let state := { state with seen := o :: state.seen }
          match h.object o with
          | .array items =>
            if items.length > AUDIT_METADATA_MAX_ARRAY_ITEMS then (false, state)
            else
              let (valid, state) := everyState (isBoundedValue h levels) items state
              (valid, { state with seen := state.seen.erase o })
          | .record entries _ =>
            if entries.length > AUDIT_METADATA_MAX_KEYS then (false, state)
            else
              let (valid, state) := everyState (isBoundedEntry (isBoundedValue h levels)) entries state
              (valid, { state with seen := state.seen.erase o })
          | .unreadable => (false, state)

/-- A plain object whose text and values are within the limits; an exception is `false`. -/
def isBoundedAuditMetadata (h : Heap ν) (value : JsValue ν) : Bool :=
  match value with
  | .ref o =>
    match h.object o with
    | .array _ => false
    | _ =>
      match stringify h value with
      | some (some text) =>
        utf8Length text ≤ AUDIT_METADATA_MAX_BYTES && (isBoundedValue h AUDIT_METADATA_MAX_DEPTH value ⟨[], 0⟩).1
      | _ => false
  | _ => false

/-! ## Trees within the limits -/

/-- A tree within the limits, at most `levels` objects deep. -/
def Fits : Nat → JsTree ν → Prop
  | levels, t =>
    match t with
    | .null | .bool _ => True
    | .number x => JsNumber.isFinite x = true
    | .string s => utf8Length s ≤ AUDIT_METADATA_STRING_MAX_BYTES
    | .array items =>
      match levels with
      | 0 => False
      | levels + 1 => items.length ≤ AUDIT_METADATA_MAX_ARRAY_ITEMS ∧ ∀ item ∈ items, Fits levels item
    | .record entries =>
      match levels with
      | 0 => False
      | levels + 1 => entries.length ≤ AUDIT_METADATA_MAX_KEYS ∧ (entries.map Prod.fst).Nodup ∧
          ∀ entry ∈ entries, isMetadataKey entry.1 = true ∧ Fits levels entry.2

/-- The objects of a tree, down to `levels` levels. -/
def nodes : Nat → JsTree ν → Nat
  | levels, t =>
    match t with
    | .array items =>
      match levels with
      | 0 => 0
      | levels + 1 => 1 + (items.map (nodes levels)).sum
    | .record entries =>
      match levels with
      | 0 => 0
      | levels + 1 => 1 + (entries.map fun entry => nodes levels entry.2).sum
    | _ => 0

theorem Fits.within : ∀ {levels : Nat} {t : JsTree ν}, Fits levels t → t.Within levels := by
  intro levels
  induction levels with
  | zero =>
    intro t h
    cases t with
    | null | bool | number | string => exact trivial
    | array | record => exact h.elim
  | succ levels ih =>
    intro t h
    cases t with
    | null | bool | number | string => exact trivial
    | array items => exact fun item hitem => ih (h.2 item hitem)
    | record entries => exact ⟨h.2.1, fun entry hentry => ih (h.2.2 entry hentry).2⟩

/-! ## What the producer makes -/

/-- One call of the producer: what it returns is within the limits, the budget pays for its objects, and
where nothing is noted it is the value. -/
structure Sanitizes (h : Heap ν) (levels : Nat) (value : JsValue ν) (state : SanitizeState)
    (out : JsTree ν × SanitizeState) : Prop where
  seen : out.2.seen = state.seen
  fits : Fits levels out.1
  budget : nodes levels out.1 + out.2.nodesRemaining ≤ state.nodesRemaining
  same : out.2.truncated = false → state.truncated = false ∧ Unfolds h levels out.1 value

@[simp] theorem note_seen (leftOut : Bool) (state : SanitizeState) : (state.note leftOut).seen = state.seen := by
  cases leftOut <;> rfl

@[simp] theorem note_nodesRemaining (leftOut : Bool) (state : SanitizeState) :
    (state.note leftOut).nodesRemaining = state.nodesRemaining := by
  cases leftOut <;> rfl

theorem note_truncated {leftOut : Bool} {state : SanitizeState} (h : (state.note leftOut).truncated = false) :
    leftOut = false ∧ state.truncated = false := by
  cases leftOut with
  | false => exact ⟨rfl, h⟩
  | true => cases h

variable {h : Heap ν} {levels : Nat}

/-- The items of an array, one after the other. -/
theorem threaded_sanitizes {f : JsValue ν → SanitizeState → JsTree ν × SanitizeState}
    (hf : ∀ value state, Sanitizes h levels value state (f value state)) : ∀ (items : List (JsValue ν)) (state : SanitizeState),
      (threaded f items state).2.seen = state.seen ∧ (threaded f items state).1.length = items.length ∧
        (∀ t ∈ (threaded f items state).1, Fits levels t) ∧
        ((threaded f items state).1.map (nodes levels)).sum + (threaded f items state).2.nodesRemaining ≤ state.nodesRemaining ∧
        ((threaded f items state).2.truncated = false → state.truncated = false ∧
          List.Forall₂ (Unfolds h levels) (threaded f items state).1 items)
  | [], state => ⟨rfl, rfl, List.forall_mem_nil _, Nat.le_of_eq (Nat.zero_add _), fun htruncated => ⟨htruncated, .nil⟩⟩
  | value :: items, state => by
    obtain ⟨hseen, hfits, hbudget, hsame⟩ := hf value state
    obtain ⟨hseen', hlength, hfits', hbudget', hsame'⟩ := threaded_sanitizes hf items (f value state).2
    refine ⟨hseen'.trans hseen, congrArg Nat.succ hlength, List.forall_mem_cons.2 ⟨hfits, hfits'⟩, ?_, fun htruncated => ?_⟩
    · show ((nodes levels (f value state).1) :: _).sum + _ ≤ _
      rw [List.sum_cons]
      simp only [threaded]
      omega
    · obtain ⟨hrest, hitems⟩ := hsame' htruncated
      obtain ⟨hfirst, hitem⟩ := hsame hrest
      exact ⟨hfirst, .cons hitem hitems⟩

/-- Entries with distinct usable keys and values within the limits. -/
structure EntriesFit (levels : Nat) (entries : List (Text × JsTree ν)) : Prop where
  nodup : (entries.map Prod.fst).Nodup
  each : ∀ entry ∈ entries, isMetadataKey entry.1 = true ∧ Fits levels entry.2

theorem EntriesFit.concat {entries : List (Text × JsTree ν)} (hfit : EntriesFit levels entries) {key : Text} {t : JsTree ν}
    (hnew : key ∉ entries.map Prod.fst) (hkey : isMetadataKey key = true) (ht : Fits levels t) :
    EntriesFit levels (entries ++ [(key, t)]) where
  nodup := assign_of_notMem hnew ▸ nodup_assign hfit.nodup key t
  each := fun entry hentry => (List.mem_append.1 hentry).elim (hfit.each entry) fun hlast => by
    rw [List.mem_singleton.1 hlast]
    exact ⟨hkey, ht⟩

/-- What the loop over entries makes of those before and those to come. -/
structure EntriesSanitize (h : Heap ν) (levels : Nat) (entries : List (Text × JsValue ν)) (result : List (Text × JsTree ν))
    (state : SanitizeState) (out : List (Text × JsTree ν) × SanitizeState) : Prop where
  seen : out.2.seen = state.seen
  length : out.1.length ≤ result.length + entries.length
  fit : EntriesFit levels out.1
  budget : (out.1.map fun entry => nodes levels entry.2).sum + out.2.nodesRemaining ≤
    (result.map fun entry => nodes levels entry.2).sum + state.nodesRemaining
  same : out.2.truncated = false → state.truncated = false ∧
    ∃ ts, out.1 = result ++ ts ∧ List.Forall₂ (fun t e => t.1 = e.1 ∧ Unfolds h levels t.2 e.2) ts entries

/-- The entries of an object, one after the other. -/
theorem sanitizeEntries_sanitizes {f : JsValue ν → SanitizeState → JsTree ν × SanitizeState}
    (hf : ∀ value state, Sanitizes h levels value state (f value state)) : ∀ (entries : List (Text × JsValue ν))
      (result : List (Text × JsTree ν)) (state : SanitizeState), EntriesFit levels result →
        EntriesSanitize h levels entries result state (sanitizeEntries f entries result state)
  | [], result, state, hfit =>
    ⟨rfl, Nat.le_refl _, hfit, Nat.le_refl _, fun htruncated => ⟨htruncated, [], (List.append_nil _).symm, .nil⟩⟩
  | (rawKey, item) :: entries, result, state, hfit => by
    rw [sanitizeEntries]
    dsimp only
    generalize hkey : truncateUtf8 rawKey AUDIT_METADATA_KEY_MAX_BYTES = key
    generalize hunusable : (key = [] || FORBIDDEN_METADATA_KEYS.contains key || (result.map Prod.fst).contains key : Bool) = unusable
    cases unusable with
    | true =>
      -- the entry is left out, and that is noted
      obtain ⟨hseen, hlength, hfit', hbudget, hsame⟩ :=
        sanitizeEntries_sanitizes hf entries result (state.note (key ≠ rawKey || true)) hfit
      rw [if_pos rfl]
      refine ⟨hseen.trans (note_seen _ _), Nat.le_trans hlength (Nat.le_succ _), hfit', ?_, fun htruncated => ?_⟩
      · rwa [note_nodesRemaining] at hbudget
      · have := (note_truncated (hsame htruncated).1).1
        rw [Bool.or_true] at this
        cases this
    | false =>
      simp only [Bool.or_eq_false_iff, decide_eq_false_iff_not] at hunusable
      obtain ⟨⟨hnonempty, hallowed⟩, hnew⟩ := hunusable
      have hnew : key ∉ result.map Prod.fst := by
        rwa [← List.contains_iff_mem, Bool.not_eq_true]
      have husable : isMetadataKey key = true := by
        have hshort : utf8Length key ≤ AUDIT_METADATA_KEY_MAX_BYTES := hkey ▸ truncateUtf8_le _ _
        rw [isMetadataKey, hallowed, decide_eq_true hnonempty, decide_eq_true hshort]
        rfl
      rw [if_neg Bool.false_ne_true, assign_of_notMem hnew, Bool.or_false]
      generalize hout : f item (state.note (key ≠ rawKey)) = out
      obtain ⟨hseen, hfits, hbudget, hsame⟩ := hout ▸ hf item (state.note (key ≠ rawKey))
      obtain ⟨hseen', hlength, hfit', hbudget', hsame'⟩ :=
        sanitizeEntries_sanitizes hf entries (result ++ [(key, out.1)]) out.2 (hfit.concat hnew husable hfits)
      refine ⟨hseen'.trans (hseen.trans (note_seen _ _)), ?_, hfit', ?_, fun htruncated => ?_⟩
      · rw [List.length_append, List.length_singleton] at hlength
        rw [List.length_cons]
        omega
      · rw [List.map_append, List.sum_append] at hbudget'
        rw [note_nodesRemaining] at hbudget
        simp only [List.map_cons, List.map_nil, List.sum_singleton] at hbudget'
        omega
      · obtain ⟨hrest, ts, hts, hentries⟩ := hsame' htruncated
        obtain ⟨hfirst, hitem⟩ := hsame hrest
        obtain ⟨hraw, hstate⟩ := note_truncated hfirst
        have hraw : key = rawKey := by simpa using hraw
        refine ⟨hstate, (key, out.1) :: ts, ?_, .cons ⟨hraw, hitem⟩ hentries⟩
        rw [hts, List.append_assoc]
        rfl

/-- A leaf in place of a value, and that is noted. -/
theorem Sanitizes.noted {value : JsValue ν} {state : SanitizeState} {leaf : JsTree ν} (hfits : Fits levels leaf)
    (hnodes : nodes levels leaf = 0) : Sanitizes h levels value state (leaf, state.note true) where
  seen := rfl
  fits := hfits
  budget := by rw [hnodes, Nat.zero_add]; exact Nat.le_refl _
  same := fun htruncated => by cases htruncated

theorem fits_null : Fits levels (.null : JsTree ν) := by
  rw [Fits]
  trivial

theorem fits_string {s : Text} (hs : utf8Length s ≤ AUDIT_METADATA_STRING_MAX_BYTES) : Fits levels (.string s : JsTree ν) := by
  rwa [Fits]

omit [JsNumber ν] in
@[simp] theorem nodes_null : nodes levels (.null : JsTree ν) = 0 := by
  cases levels <;> rfl

omit [JsNumber ν] in
@[simp] theorem nodes_string (s : Text) : nodes levels (.string s : JsTree ν) = 0 := by
  cases levels <;> rfl

/-- What is no object becomes a leaf. -/
theorem sanitizeValue_leaf {value : JsValue ν} (hleaf : ∀ o, value ≠ .ref o) (state : SanitizeState) :
    Sanitizes h levels value state (sanitizeValue h levels value state) := by
  unfold sanitizeValue
  cases value with
  | ref o => exact absurd rfl (hleaf o)
  | null => exact ⟨rfl, fits_null, by simp, fun htruncated => ⟨htruncated, by rw [Unfolds]⟩⟩
  | bool b => exact ⟨rfl, by rw [Fits]; trivial, by simp [nodes], fun htruncated => ⟨htruncated, by rw [Unfolds]⟩⟩
  | number x =>
    dsimp only
    split
    · rename_i hfinite
      exact ⟨rfl, by rwa [Fits], by simp [nodes], fun htruncated => ⟨htruncated, by rw [Unfolds]⟩⟩
    · exact .noted fits_null nodes_null
  | string s =>
    refine ⟨note_seen _ _, fits_string (truncateUtf8_le _ _), by simp, fun htruncated => ?_⟩
    obtain ⟨hsame, hstate⟩ := note_truncated htruncated
    refine ⟨hstate, ?_⟩
    rw [Unfolds]
    simpa using hsame
  | bigint digits => exact .noted (fits_string (truncateUtf8_le _ _)) (nodes_string _)
  | undefined | function => exact .noted fits_null nodes_null

/-- What one call makes of a value. -/
theorem sanitizeValue_sanitizes : ∀ (levels : Nat) (value : JsValue ν) (state : SanitizeState),
    Sanitizes h levels value state (sanitizeValue h levels value state) := by
  intro levels
  induction levels with
  | zero =>
    intro value state
    cases value with
    | ref o => exact .noted (fits_string (by decide)) (nodes_string _)
    | _ => exact sanitizeValue_leaf (fun _ href => by cases href) state
  | succ levels ih =>
    intro value state
    cases value with
    | ref o =>
      rw [sanitizeValue]
      dsimp only
      split
      · exact .noted (fits_string (by decide)) (nodes_string _)
      · rename_i hbudget
        split
        · -- the node is paid for, yet nothing is made of it
          refine ⟨rfl, fits_string (by decide), ?_, fun htruncated => by cases htruncated⟩
          simp
        · -- the object's own limit is noted first, then its parts follow
          have hpaid : 1 + (state.nodesRemaining - 1) ≤ state.nodesRemaining := by omega
          cases hobject : h.object o with
          | array items =>
            dsimp only
            generalize hinner : SanitizeState.note (decide (items.length > AUDIT_METADATA_MAX_ARRAY_ITEMS))
              ⟨o :: state.seen, state.nodesRemaining - 1, state.truncated⟩ = inner
            obtain ⟨hseen, hlength, hfits, hspent, hsame⟩ :=
              threaded_sanitizes ih (items.take AUDIT_METADATA_MAX_ARRAY_ITEMS) inner
            refine ⟨?_, ⟨hlength.trans_le (List.length_take_le _ _), hfits⟩, ?_, fun htruncated => ?_⟩
            · rw [hseen, ← hinner, note_seen, List.erase_cons_head]
            · rw [nodes]
              rw [← hinner, note_nodesRemaining, hinner] at hspent
              dsimp only at hspent ⊢
              omega
            · obtain ⟨hnoted, hitems⟩ := hsame htruncated
              obtain ⟨hall, hstate⟩ := note_truncated (hinner.symm ▸ hnoted)
              rw [List.take_of_length_le (by simpa using hall)] at hitems ⊢
              refine ⟨hstate, ?_⟩
              rw [Unfolds, hobject]
              exact ⟨_, rfl, hitems⟩
          | record entries hnodup =>
            dsimp only
            generalize hinner : SanitizeState.note (decide (entries.length > AUDIT_METADATA_MAX_KEYS))
              ⟨o :: state.seen, state.nodesRemaining - 1, state.truncated⟩ = inner
            obtain ⟨hseen, hlength, hfit, hspent, hsame⟩ := sanitizeEntries_sanitizes ih
              (entries.take AUDIT_METADATA_MAX_KEYS) [] inner ⟨List.nodup_nil, List.forall_mem_nil _⟩
            rw [List.length_nil, Nat.zero_add] at hlength
            refine ⟨?_, ⟨hlength.trans (List.length_take_le _ _), hfit.nodup, hfit.each⟩, ?_, fun htruncated => ?_⟩
            · rw [hseen, ← hinner, note_seen, List.erase_cons_head]
            · rw [nodes]
              rw [← hinner, note_nodesRemaining, hinner, List.map_nil, List.sum_nil] at hspent
              dsimp only at hspent ⊢
              omega
            · obtain ⟨hnoted, ts, hts, hentries⟩ := hsame htruncated
              obtain ⟨hall, hstate⟩ := note_truncated (hinner.symm ▸ hnoted)
              rw [List.take_of_length_le (by simpa using hall)] at hentries hts ⊢
              refine ⟨hstate, ?_⟩
              rw [Unfolds, hobject]
              exact ⟨_, rfl, hts ▸ hentries⟩
          | unreadable =>
            exact ⟨by simp, ⟨Nat.zero_le _, List.nodup_nil, List.forall_mem_nil _⟩, hpaid, fun htruncated => by cases htruncated⟩
    | _ => exact sanitizeValue_leaf (fun _ href => by cases href) state

/-! ## What is within the limits is unchanged -/

/-- Objects are paid for. -/
def SanitizeState.spend (n : Nat) (state : SanitizeState) : SanitizeState :=
  { state with nodesRemaining := state.nodesRemaining - n }

@[simp] theorem spend_seen (n : Nat) (state : SanitizeState) : (state.spend n).seen = state.seen := rfl

@[simp] theorem spend_zero (state : SanitizeState) : state.spend 0 = state := rfl

theorem spend_spend (n m : Nat) (state : SanitizeState) : (state.spend n).spend m = state.spend (n + m) := by
  unfold SanitizeState.spend
  rw [Nat.sub_sub]

/-- Below the objects of `seen` the step returns the tree and spends its objects. -/
def Reproduces (f : JsValue ν → SanitizeState → JsTree ν × SanitizeState) (seen : List Nat) (levels : Nat) (t : JsTree ν)
    (value : JsValue ν) : Prop :=
  ∀ state : SanitizeState, state.seen = seen → nodes levels t ≤ state.nodesRemaining →
    f value state = (t, state.spend (nodes levels t))

omit [JsNumber ν] in
theorem threaded_reproduces {f : JsValue ν → SanitizeState → JsTree ν × SanitizeState} {seen : List Nat}
    {ts : List (JsTree ν)} {items : List (JsValue ν)} (hitems : List.Forall₂ (Reproduces f seen levels) ts items) :
    ∀ state : SanitizeState, state.seen = seen → (ts.map (nodes levels)).sum ≤ state.nodesRemaining →
      threaded f items state = (ts, state.spend (ts.map (nodes levels)).sum) := by
  induction hitems with
  | nil => exact fun state _ _ => rfl
  | @cons t value ts items hfirst _ ih =>
    intro state hseen hbudget
    rw [List.map_cons, List.sum_cons] at hbudget ⊢
    have hrest := ih (state.spend (nodes levels t)) hseen (by dsimp only [SanitizeState.spend]; omega)
    rw [threaded, hfirst state hseen (by omega)]
    dsimp only
    rw [hrest, spend_spend]

omit [JsNumber ν] in
theorem sanitizeEntries_reproduces {f : JsValue ν → SanitizeState → JsTree ν × SanitizeState} {seen : List Nat}
    {ts : List (Text × JsTree ν)} {entries : List (Text × JsValue ν)}
    (hentries : List.Forall₂ (fun t e => t.1 = e.1 ∧ Reproduces f seen levels t.2 e.2) ts entries) :
    ∀ (result : List (Text × JsTree ν)) (state : SanitizeState), ((result ++ ts).map Prod.fst).Nodup →
      (∀ t ∈ ts, isMetadataKey t.1 = true) → state.seen = seen →
      (ts.map fun t => nodes levels t.2).sum ≤ state.nodesRemaining →
        sanitizeEntries f entries result state = (result ++ ts, state.spend (ts.map fun t => nodes levels t.2).sum) := by
  induction hentries with
  | nil => exact fun result state _ _ _ _ => by rw [sanitizeEntries, List.append_nil]; rfl
  | @cons t e ts entries hfirst _ ih =>
    intro result state hnodup husable hseen hbudget
    obtain ⟨hkey, hvalue⟩ := hfirst
    obtain ⟨rawKey, item⟩ := e
    obtain ⟨key, value⟩ := t
    dsimp only at hkey hvalue
    subst hkey
    rw [List.map_cons, List.sum_cons] at hbudget ⊢
    have hsplit : result ++ (key, value) :: ts = (result ++ [(key, value)]) ++ ts := by rw [List.append_assoc]; rfl
    have hnew : key ∉ result.map Prod.fst := by
      rw [List.map_append, List.map_cons] at hnodup
      exact fun hmem => (List.disjoint_of_nodup_append hnodup) hmem List.mem_cons_self
    obtain ⟨hthis, husable⟩ := List.forall_mem_cons.1 husable
    obtain ⟨⟨hnonempty, hallowed⟩, hshort⟩ : (key ≠ [] ∧ FORBIDDEN_METADATA_KEYS.contains key = false) ∧
        utf8Length key ≤ AUDIT_METADATA_KEY_MAX_BYTES := by
      simpa [isMetadataKey, and_assoc] using hthis
    have hkeep : (key = [] || FORBIDDEN_METADATA_KEYS.contains key || (result.map Prod.fst).contains key : Bool) = false := by
      simp only [Bool.or_eq_false_iff, decide_eq_false_iff_not]
      exact ⟨⟨hnonempty, hallowed⟩, by simpa using hnew⟩
    have hsame : (decide (key ≠ key) || false : Bool) = false := by simp
    have hrest := ih (result ++ [(key, value)]) (state.spend (nodes levels value)) (hsplit ▸ hnodup) husable hseen
      (by dsimp only [SanitizeState.spend] at hbudget ⊢; omega)
    rw [sanitizeEntries, truncateUtf8_eq hshort]
    dsimp only at hbudget ⊢
    rw [hkeep, hsame, if_neg Bool.false_ne_true]
    show (let (value, state) := f item state; sanitizeEntries f entries (assign result key value) state) = _
    rw [hvalue state hseen (by omega)]
    dsimp only
    rw [assign_of_notMem hnew, hrest, spend_spend, ← hsplit]

theorem sanitizeValue_reproduces_leaf {t : JsTree ν} {value : JsValue ν} (hleaf : ∀ o, value ≠ .ref o) (seen : List Nat)
    (hu : Unfolds h levels t value) (hfits : Fits levels t) : Reproduces (sanitizeValue h levels) seen levels t value := by
  intro state _ _
  unfold sanitizeValue
  unfold Unfolds at hu
  cases value with
  | ref o => exact absurd rfl (hleaf o)
  | undefined | function | bigint => exact hu.elim
  | null | bool => subst hu; simp [nodes]
  | number x =>
    subst hu
    rw [Fits] at hfits
    simp [nodes, hfits]
  | string s =>
    subst hu
    rw [Fits] at hfits
    simp [truncateUtf8_eq hfits, SanitizeState.note]

/-- A value that unfolds to a tree within the limits is returned as that tree. -/
theorem sanitizeValue_reproduces : ∀ {levels : Nat} {t : JsTree ν} {value : JsValue ν} {seen : List Nat},
    Unfolds h levels t value → Fits levels t → (∀ p ∈ seen, Below h p value) →
      Reproduces (sanitizeValue h levels) seen levels t value := by
  intro levels
  induction levels with
  | zero =>
    intro t value seen hu hfits _
    cases value with
    | ref o => exact hu.elim
    | _ => exact sanitizeValue_reproduces_leaf (fun _ href => by cases href) seen hu hfits
  | succ levels ih =>
    intro t value seen hu hfits hstack
    cases value with
    | ref o =>
      intro state hseen hbudget
      -- the tree is finite, so the object is no ancestor of itself
      have hnew : o ∉ state.seen := hseen ▸ hu.notMem hstack
      -- every child is copied below it
      have hchild : ∀ {t' : JsTree ν} {v : JsValue ν}, Child h o v → Unfolds h levels t' v → Fits levels t' →
          Reproduces (sanitizeValue h levels) (o :: seen) levels t' v := fun hv hu' hfits' => ih hu' hfits' (below_cons hstack hv)
      rw [Unfolds] at hu
      unfold Child at hchild
      rw [sanitizeValue]
      dsimp only
      cases hobject : h.object o with
      | array items =>
        rw [hobject] at hu hchild
        obtain ⟨ts, rfl, hts⟩ := hu
        obtain ⟨hlength, hall⟩ := hfits
        have hitems : List.Forall₂ (Reproduces (sanitizeValue h levels) (o :: seen) levels) ts items :=
          forall₂_imp_of_mem_mem (fun t ht v hv hu => hchild hv hu (hall t ht)) hts
        -- no item is dropped
        have hfew : ¬items.length > AUDIT_METADATA_MAX_ARRAY_ITEMS := by rw [← hts.length_eq]; exact Nat.not_lt.2 hlength
        rw [nodes] at hbudget ⊢
        rw [if_neg (by omega), if_neg (by simpa using hnew)]
        dsimp only
        rw [List.take_of_length_le (Nat.le_of_not_gt hfew), SanitizeState.note, if_neg (by simpa using hfew),
          threaded_reproduces hitems _ (congrArg (o :: ·) hseen) (by dsimp only; omega)]
        simp [SanitizeState.spend, Nat.sub_sub]
      | record entries hnodup =>
        rw [hobject] at hu hchild
        obtain ⟨ts, rfl, hts⟩ := hu
        obtain ⟨hlength, hdistinct, hall⟩ := hfits
        have hentries : List.Forall₂ (fun t e => t.1 = e.1 ∧ Reproduces (sanitizeValue h levels) (o :: seen) levels t.2 e.2) ts entries :=
          forall₂_imp_of_mem_mem (fun t ht e he hu => ⟨hu.1, hchild (List.mem_map_of_mem he) hu.2 (hall t ht).2⟩) hts
        -- nor any key
        have hfew : ¬entries.length > AUDIT_METADATA_MAX_KEYS := by rw [← hts.length_eq]; exact Nat.not_lt.2 hlength
        rw [nodes] at hbudget ⊢
        rw [if_neg (by omega), if_neg (by simpa using hnew)]
        dsimp only
        rw [List.take_of_length_le (Nat.le_of_not_gt hfew), SanitizeState.note, if_neg (by simpa using hfew),
          sanitizeEntries_reproduces hentries [] _ hdistinct (fun t ht => (hall t ht).1) (congrArg (o :: ·) hseen) (by dsimp only; omega)]
        simp [SanitizeState.spend, Nat.sub_sub]
      | unreadable =>
        rw [hobject] at hu
        exact hu.elim
    | _ => exact sanitizeValue_reproduces_leaf (fun _ href => by cases href) seen hu hfits

/-! ## What the checker accepts -/

/-- Objects are counted. -/
def BoundedState.count (n : Nat) (state : BoundedState) : BoundedState :=
  { state with nodes := state.nodes + n }

@[simp] theorem count_zero (state : BoundedState) : state.count 0 = state := rfl

theorem count_count (n m : Nat) (state : BoundedState) : (state.count n).count m = state.count (n + m) := by
  unfold BoundedState.count
  rw [Nat.add_assoc]

/-- Where a step accepts, it counts what the element stands for, within the budget. -/
theorem everyState_sound {α τ : Type} {f : α → BoundedState → Bool × BoundedState} {R : τ → α → Prop} (cost : τ → Nat)
    (hf : ∀ a state, (f a state).1 = true → state.nodes ≤ AUDIT_METADATA_MAX_NODES →
      ∃ t, R t a ∧ (f a state).2 = state.count (cost t) ∧ state.nodes + cost t ≤ AUDIT_METADATA_MAX_NODES) :
    ∀ (l : List α) (state : BoundedState), (everyState f l state).1 = true → state.nodes ≤ AUDIT_METADATA_MAX_NODES →
      ∃ ts, List.Forall₂ R ts l ∧ (everyState f l state).2 = state.count (ts.map cost).sum ∧
        state.nodes + (ts.map cost).sum ≤ AUDIT_METADATA_MAX_NODES
  | [], state, _, hnodes => ⟨[], .nil, rfl, hnodes⟩
  | a :: l, state, hvalid, hnodes => by
    rw [everyState] at hvalid ⊢
    generalize hfirst : f a state = out at hvalid ⊢
    obtain ⟨valid, state'⟩ := out
    cases valid with
    | false => cases hvalid
    | true =>
      obtain ⟨t, ht, hstate, hbudget⟩ := hf a state (by rw [hfirst]) hnodes
      rw [hfirst] at hstate
      dsimp only at hstate hvalid ⊢
      subst hstate
      obtain ⟨ts, hts, hrest, hbudget'⟩ := everyState_sound cost hf l _ hvalid hbudget
      refine ⟨t :: ts, .cons ht hts, ?_, ?_⟩
      · rw [hrest, count_count, List.map_cons, List.sum_cons]
      · rw [List.map_cons, List.sum_cons, ← Nat.add_assoc]
        exact hbudget'

/-- Below the objects of `seen` the step accepts the element and counts so many objects. -/
def Accepts {α : Type} (f : α → BoundedState → Bool × BoundedState) (seen : List Nat) (cost : Nat) (a : α) : Prop :=
  ∀ state : BoundedState, state.seen = seen → state.nodes + cost ≤ AUDIT_METADATA_MAX_NODES → f a state = (true, state.count cost)

theorem everyState_accepts {α τ : Type} {f : α → BoundedState → Bool × BoundedState} {seen : List Nat} {cost : τ → Nat}
    {ts : List τ} {l : List α} (hf : List.Forall₂ (fun t a => Accepts f seen (cost t) a) ts l) :
    Accepts (everyState f) seen (ts.map cost).sum l := by
  induction hf with
  | nil => exact fun state _ _ => rfl
  | @cons t a ts l hfirst _ ih =>
    intro state hseen hbudget
    rw [List.map_cons, List.sum_cons] at hbudget ⊢
    rw [everyState, hfirst state hseen (by omega)]
    dsimp only
    rw [ih (state.count (cost t)) hseen (by dsimp only [BoundedState.count]; omega), count_count]

/-- What is no object is accepted where it unfolds to a leaf within the limits; nothing is counted. -/
theorem isBoundedValue_leaf (levels : Nat) {value : JsValue ν} (hleaf : ∀ o, value ≠ .ref o) (state : BoundedState) :
    (isBoundedValue h levels value state).2 = state ∧
      ((isBoundedValue h levels value state).1 = true ↔ ∃ t, Unfolds h levels t value ∧ Fits levels t) ∧
      ∀ t, Unfolds h levels t value → nodes levels t = 0 := by
  unfold isBoundedValue Unfolds
  cases value with
  | ref o => exact absurd rfl (hleaf o)
  | undefined | function | bigint =>
    exact ⟨rfl, ⟨fun hvalid => absurd hvalid Bool.false_ne_true, fun hex => hex.elim fun _ hu => hu.1.elim⟩, fun _ hu => hu.elim⟩
  | null => exact ⟨rfl, ⟨fun _ => ⟨.null, rfl, fits_null⟩, fun _ => rfl⟩, fun t hu => by rw [hu, nodes_null]⟩
  | bool b => exact ⟨rfl, ⟨fun _ => ⟨.bool b, rfl, by rw [Fits]; trivial⟩, fun _ => rfl⟩, fun t hu => by rw [hu]; cases levels <;> rfl⟩
  | number x =>
    refine ⟨rfl, ⟨fun hvalid => ⟨.number x, rfl, by rwa [Fits]⟩, ?_⟩, fun t hu => by rw [hu]; cases levels <;> rfl⟩
    rintro ⟨t, rfl, hfits⟩
    rwa [Fits] at hfits
  | string s =>
    refine ⟨rfl, ⟨fun hvalid => ⟨.string s, rfl, fits_string (of_decide_eq_true hvalid)⟩, ?_⟩, fun t hu => by rw [hu, nodes_string]⟩
    rintro ⟨t, rfl, hfits⟩
    rw [Fits] at hfits
    exact decide_eq_true hfits

/-- An entry is accepted with its key and its value. -/
theorem isBoundedEntry_sound {f : JsValue ν → BoundedState → Bool × BoundedState}
    (hf : ∀ value state, (f value state).1 = true → state.nodes ≤ AUDIT_METADATA_MAX_NODES →
      ∃ t, (Unfolds h levels t value ∧ Fits levels t) ∧ (f value state).2 = state.count (nodes levels t) ∧
        state.nodes + nodes levels t ≤ AUDIT_METADATA_MAX_NODES) (entry : Text × JsValue ν) (state : BoundedState)
    (hvalid : (isBoundedEntry f entry state).1 = true) (hnodes : state.nodes ≤ AUDIT_METADATA_MAX_NODES) :
    ∃ t : Text × JsTree ν, (t.1 = entry.1 ∧ isMetadataKey t.1 = true ∧ Unfolds h levels t.2 entry.2 ∧ Fits levels t.2) ∧
      (isBoundedEntry f entry state).2 = state.count (nodes levels t.2) ∧ state.nodes + nodes levels t.2 ≤ AUDIT_METADATA_MAX_NODES := by
  unfold isBoundedEntry at hvalid ⊢
  by_cases hkey : isMetadataKey entry.1 = true
  · rw [if_pos hkey] at hvalid ⊢
    obtain ⟨t, ⟨hu, hfits⟩, hstate, hspent⟩ := hf entry.2 state hvalid hnodes
    exact ⟨(entry.1, t), ⟨rfl, hkey, hu, hfits⟩, hstate, hspent⟩
  · rw [if_neg hkey] at hvalid
    cases hvalid

omit [JsNumber ν] in
theorem isBoundedEntry_accepts {f : JsValue ν → BoundedState → Bool × BoundedState} {seen : List Nat} {cost : Nat}
    {entry : Text × JsValue ν} (hkey : isMetadataKey entry.1 = true) (hf : Accepts f seen cost entry.2) :
    Accepts (isBoundedEntry f) seen cost entry := by
  intro state hseen hbudget
  rw [isBoundedEntry, if_pos hkey]
  exact hf state hseen hbudget

/-- What is accepted unfolds to a tree within the limits, whose objects are counted. -/
theorem isBoundedValue_sound : ∀ (levels : Nat) (value : JsValue ν) (state : BoundedState),
    (isBoundedValue h levels value state).1 = true → state.nodes ≤ AUDIT_METADATA_MAX_NODES →
      ∃ t, (Unfolds h levels t value ∧ Fits levels t) ∧ (isBoundedValue h levels value state).2 = state.count (nodes levels t) ∧
        state.nodes + nodes levels t ≤ AUDIT_METADATA_MAX_NODES := by
  -- what is no reference costs nothing and needs no induction
  have leaf : ∀ {levels : Nat} {value : JsValue ν} {state : BoundedState}, (∀ o, value ≠ .ref o) →
      (isBoundedValue h levels value state).1 = true → state.nodes ≤ AUDIT_METADATA_MAX_NODES →
        ∃ t, (Unfolds h levels t value ∧ Fits levels t) ∧ (isBoundedValue h levels value state).2 = state.count (nodes levels t) ∧
          state.nodes + nodes levels t ≤ AUDIT_METADATA_MAX_NODES := by
    intro levels value state hleaf hvalid hnodes
    obtain ⟨hstate, haccepted, hcost⟩ := isBoundedValue_leaf (h := h) levels hleaf state
    obtain ⟨t, hu, hfits⟩ := haccepted.1 hvalid
    exact ⟨t, ⟨hu, hfits⟩, by rw [hstate, hcost t hu, count_zero], by rwa [hcost t hu]⟩
  intro levels
  induction levels with
  | zero =>
    intro value state hvalid hnodes
    cases value with
    | ref o => cases hvalid
    | _ => exact leaf (fun _ href => by cases href) hvalid hnodes
  | succ levels ih =>
    intro value state hvalid hnodes
    cases value with
    | ref o =>
      rw [isBoundedValue] at hvalid ⊢
      dsimp only at hvalid ⊢
      -- the budget is spent, or the object is an ancestor of itself: refused
      by_cases hbudget : state.nodes + 1 > AUDIT_METADATA_MAX_NODES ∨ o ∈ state.seen
      · rw [if_pos (by simpa using hbudget)] at hvalid
        cases hvalid
      · obtain ⟨hmany, hnew⟩ := not_or.1 hbudget
        rw [if_neg (by simpa using hbudget)] at hvalid ⊢
        cases hobject : h.object o with
        | array items =>
          rw [hobject] at hvalid
          dsimp only at hvalid ⊢
          split at hvalid
          · cases hvalid
          · rename_i hfew
            rw [if_neg hfew]
            -- the trees of the items, one after another
            obtain ⟨ts, hts, hstate, hspent⟩ := everyState_sound (nodes levels) ih items _ hvalid (Nat.le_of_not_gt hmany)
            refine ⟨.array ts, ⟨?_, ?_, ?_⟩, ?_, ?_⟩
            · rw [Unfolds, hobject]
              exact ⟨ts, rfl, hts.imp fun _ _ ht => ht.1⟩
            · rw [hts.length_eq]
              exact Nat.le_of_not_gt hfew
            · intro t ht
              obtain ⟨_, _, _, hfits⟩ := exists_right_of_forall₂ hts t ht
              exact hfits
            · rw [hstate, nodes]
              simp [BoundedState.count, Nat.add_assoc]
            · rw [nodes, ← Nat.add_assoc]
              exact hspent
        | record entries hnodup =>
          rw [hobject] at hvalid
          dsimp only at hvalid ⊢
          split at hvalid
          · cases hvalid
          · rename_i hfew
            rw [if_neg hfew]
            obtain ⟨ts, hts, hstate, hspent⟩ := everyState_sound (fun t : Text × JsTree ν => nodes levels t.2)
              (isBoundedEntry_sound ih) entries _ hvalid (Nat.le_of_not_gt hmany)
            refine ⟨.record ts, ⟨?_, ?_, ?_, ?_⟩, ?_, ?_⟩
            · rw [Unfolds, hobject]
              exact ⟨ts, rfl, hts.imp fun _ _ ht => ⟨ht.1, ht.2.2.1⟩⟩
            · rw [hts.length_eq]
              exact Nat.le_of_not_gt hfew
            · rw [map_fst_of_forall₂ (hts.imp fun _ _ ht => ht.1)]
              exact hnodup
            · intro t ht
              obtain ⟨_, _, _, hkey, _, hfits⟩ := exists_right_of_forall₂ hts t ht
              exact ⟨hkey, hfits⟩
            · rw [hstate, nodes]
              simp [BoundedState.count, Nat.add_assoc]
            · rw [nodes, ← Nat.add_assoc]
              exact hspent
        | unreadable =>
          rw [hobject] at hvalid
          cases hvalid
    | _ => exact leaf (fun _ href => by cases href) hvalid hnodes

/-- A value that unfolds to a tree within the limits is accepted. -/
theorem isBoundedValue_accepts : ∀ {levels : Nat} {t : JsTree ν} {value : JsValue ν} {seen : List Nat},
    Unfolds h levels t value → Fits levels t → (∀ p ∈ seen, Below h p value) →
      Accepts (isBoundedValue h levels) seen (nodes levels t) value := by
  -- what is no reference is accepted as it is
  have leaf : ∀ {levels : Nat} {t : JsTree ν} {value : JsValue ν}, (∀ o, value ≠ .ref o) → Unfolds h levels t value →
      Fits levels t → ∀ seen, Accepts (isBoundedValue h levels) seen (nodes levels t) value := by
    intro levels t value hleaf hu hfits seen state _ _
    obtain ⟨hstate, haccepted, hcost⟩ := isBoundedValue_leaf (h := h) levels hleaf state
    rw [hcost t hu, count_zero]
    exact Prod.ext (haccepted.2 ⟨t, hu, hfits⟩) hstate
  intro levels
  induction levels with
  | zero =>
    intro t value seen hu hfits _
    cases value with
    | ref o => exact hu.elim
    | _ => exact leaf (fun _ href => by cases href) hu hfits seen
  | succ levels ih =>
    intro t value seen hu hfits hstack
    cases value with
    | ref o =>
      intro state hseen hbudget
      have hnew : o ∉ state.seen := hseen ▸ hu.notMem hstack
      -- below the object its own kind of stack holds
      have hchild : ∀ {t' : JsTree ν} {v : JsValue ν}, Child h o v → Unfolds h levels t' v → Fits levels t' →
          Accepts (isBoundedValue h levels) (o :: seen) (nodes levels t') v := fun hv hu' hfits' => ih hu' hfits' (below_cons hstack hv)
      rw [Unfolds] at hu
      unfold Child at hchild
      rw [isBoundedValue]
      dsimp only
      cases hobject : h.object o with
      | array items =>
        rw [hobject] at hu hchild
        obtain ⟨ts, rfl, hts⟩ := hu
        obtain ⟨hlength, hall⟩ := hfits
        -- each item is accepted at its own cost
        have hitems : List.Forall₂ (fun t v => Accepts (isBoundedValue h levels) (o :: seen) (nodes levels t) v) ts items :=
          forall₂_imp_of_mem_mem (fun t ht v hv hu => hchild hv hu (hall t ht)) hts
        rw [hts.length_eq] at hlength
        rw [nodes] at hbudget ⊢
        have hmany : ¬state.nodes + 1 > AUDIT_METADATA_MAX_NODES := by omega
        rw [if_neg (by simpa using not_or.2 ⟨hmany, hnew⟩)]
        dsimp only
        rw [if_neg (Nat.not_lt.2 hlength), everyState_accepts hitems _ (congrArg (o :: ·) hseen) (by dsimp only; omega)]
        simp [BoundedState.count, Nat.add_assoc]
      | record entries hnodup =>
        rw [hobject] at hu hchild
        obtain ⟨ts, rfl, hts⟩ := hu
        obtain ⟨hlength, -, hall⟩ := hfits
        -- and so is each entry, under a key of the right form
        have hentries : List.Forall₂ (fun (t : Text × JsTree ν) e =>
            Accepts (isBoundedEntry (isBoundedValue h levels)) (o :: seen) (nodes levels t.2) e) ts entries := by
          refine forall₂_imp_of_mem_mem ?_ hts
          intro t ht e he hu
          exact isBoundedEntry_accepts (hu.1 ▸ (hall t ht).1) (hchild (List.mem_map_of_mem he) hu.2 (hall t ht).2)
        rw [hts.length_eq] at hlength
        rw [nodes] at hbudget ⊢
        have hmany : ¬state.nodes + 1 > AUDIT_METADATA_MAX_NODES := by omega
        rw [if_neg (by simpa using not_or.2 ⟨hmany, hnew⟩)]
        dsimp only
        rw [if_neg (Nat.not_lt.2 hlength)]
        have haccepted := everyState_accepts hentries ⟨o :: state.seen, state.nodes + 1⟩ (congrArg (o :: ·) hseen) (by dsimp only; omega)
        rw [haccepted]
        simp [BoundedState.count, Nat.add_assoc]
      | unreadable =>
        rw [hobject] at hu
        exact hu.elim
    | _ => exact leaf (fun _ href => by cases href) hu hfits seen

/-! ## The object -/

/-- Entries of an object that the checker accepts. -/
structure Bounded (entries : List (Text × JsTree ν)) : Prop where
  fits : Fits AUDIT_METADATA_MAX_DEPTH (.record entries)
  budget : nodes AUDIT_METADATA_MAX_DEPTH (.record entries) ≤ AUDIT_METADATA_MAX_NODES
  short : serializedLength entries ≤ AUDIT_METADATA_MAX_BYTES

/-- The checker accepts what unfolds to an object within the limits. -/
theorem isBoundedAuditMetadata_iff {value : JsValue ν} : isBoundedAuditMetadata h value = true ↔
    ∃ entries, Unfolds h AUDIT_METADATA_MAX_DEPTH (.record entries) value ∧ Bounded entries := by
  constructor
  · intro hbounded
    unfold isBoundedAuditMetadata at hbounded
    cases value with
    | ref o =>
      dsimp only at hbounded
      split at hbounded
      · cases hbounded
      · rename_i harray
        split at hbounded
        · rename_i text hstringify
          obtain ⟨hshort, hvalid⟩ := Bool.and_eq_true_iff.1 hbounded
          obtain ⟨t, ⟨hu, hfits⟩, -, hbudget⟩ := isBoundedValue_sound AUDIT_METADATA_MAX_DEPTH (.ref o) ⟨[], 0⟩ hvalid (Nat.zero_le _)
          obtain ⟨entries, rfl⟩ := hu.record harray
          rw [stringify_of_unfolds hu] at hstringify
          cases hstringify
          exact ⟨entries, hu, hfits, (Nat.zero_add _).symm.trans_le hbudget, of_decide_eq_true hshort⟩
        · cases hbounded
    | _ => cases hbounded
  · rintro ⟨entries, hu, hfits, hbudget, hshort⟩
    obtain ⟨o, own, nodup, -, rfl, hobject, -⟩ := hu.object
    have haccepts := isBoundedValue_accepts hu hfits (List.forall_mem_nil _) ⟨[], 0⟩ rfl ((Nat.zero_add _).symm ▸ hbudget)
    unfold isBoundedAuditMetadata
    dsimp only
    rw [hobject, stringify_of_unfolds hu, haccepts]
    exact Bool.and_eq_true_iff.2 ⟨decide_eq_true hshort, rfl⟩

/-- Fewer entries stay within the limits. -/
theorem Fits.sublist {entries entries' : List (Text × JsTree ν)} (hfits : Fits levels (.record entries))
    (hsub : List.Sublist entries' entries) : Fits levels (.record entries') := by
  cases levels with
  | zero => exact hfits.elim
  | succ levels =>
    obtain ⟨hlength, hnodup, hall⟩ := hfits
    exact ⟨hsub.length_le.trans hlength, (hsub.map _).nodup hnodup, fun e he => hall e (hsub.subset he)⟩

omit [JsNumber ν] in
theorem nodes_sublist {entries entries' : List (Text × JsTree ν)} (hsub : List.Sublist entries' entries) :
    nodes levels (.record entries') ≤ nodes levels (.record entries) := by
  cases levels with
  | zero => exact Nat.le_refl _
  | succ levels => exact Nat.add_le_add_left ((hsub.map _).sum_le_sum fun _ _ => Nat.zero_le _) 1

theorem serializedLength_sublist {entries entries' : List (Text × JsTree ν)} (hsub : List.Sublist entries' entries) :
    serializedLength entries' ≤ serializedLength entries := by
  unfold serializedLength
  rw [JsTree.render, JsTree.render, JsTree.renderEntries_eq, JsTree.renderEntries_eq]
  exact encodedLength_jsonRecord_le (hsub.map _)

/-- What the loop keeps of the entries to come, after those kept before. -/
structure KeptOf (kept rest : List (Text × JsTree ν)) (truncated : Bool) (out : List (Text × JsTree ν) × Bool) : Prop where
  sublist : List.Sublist out.1 (kept ++ rest)
  short : serializedLength out.1 ≤ AUDIT_METADATA_MAX_BYTES
  same : out.2 = false → truncated = false ∧ out.1 = kept ++ rest
  all : serializedLength (kept ++ rest) ≤ AUDIT_METADATA_MAX_BYTES → out = (kept ++ rest, truncated)

theorem foldl_keepFitting : ∀ (rest kept : List (Text × JsTree ν)) (truncated : Bool), ((kept ++ rest).map Prod.fst).Nodup →
    serializedLength kept ≤ AUDIT_METADATA_MAX_BYTES → KeptOf kept rest truncated (rest.foldl keepFitting (kept, truncated))
  | [], kept, truncated, _, hshort => by
    rw [List.foldl_nil]
    exact ⟨by simp, hshort, fun htruncated => ⟨htruncated, by simp⟩, fun _ => by simp⟩
  | entry :: rest, kept, truncated, hnodup, hshort => by
    have hnew : entry.1 ∉ kept.map Prod.fst := by
      rw [List.map_append, List.map_cons] at hnodup
      exact fun hmem => (List.disjoint_of_nodup_append hnodup) hmem List.mem_cons_self
    have hsplit : kept ++ entry :: rest = (kept ++ [entry]) ++ rest := by rw [List.append_assoc]; rfl
    rw [List.foldl_cons, keepFitting]
    dsimp only
    rw [assign_of_notMem hnew]
    split
    · rename_i hfits
      obtain ⟨hsub, hshort', hsame, hall⟩ := foldl_keepFitting rest (kept ++ [entry]) truncated (hsplit ▸ hnodup) hfits
      rw [← hsplit] at hsub hsame hall
      exact ⟨hsub, hshort', hsame, hall⟩
    · -- the entry is left out, and all that follows is too long with it
      rename_i hlong
      have hless : List.Sublist (kept ++ rest) (kept ++ entry :: rest) := (List.sublist_cons_self entry rest).append_left kept
      obtain ⟨hsub, hshort', hsame, -⟩ := foldl_keepFitting rest kept true ((hless.map _).nodup hnodup) hshort
      refine ⟨hsub.trans hless, hshort', fun htruncated => absurd (hsame htruncated).1 (by decide), fun hall => ?_⟩
      refine absurd (Nat.le_trans (serializedLength_sublist ?_) hall) hlong
      rw [hsplit]
      exact List.sublist_append_left _ rest

/-- Room for the marker: a prefix, empty or such that the marker fits. -/
theorem makeRoom_spec : ∀ entries : List (Text × JsTree ν),
    List.Sublist (makeRoom entries) entries.reverse ∧ (makeRoom entries = [] ∨ isFull (makeRoom entries) = false)
  | [] => ⟨List.Sublist.refl _, .inl rfl⟩
  | last :: earlier => by
    rw [makeRoom]
    split
    · obtain ⟨hsub, hroom⟩ := makeRoom_spec earlier
      rw [List.reverse_cons]
      exact ⟨hsub.trans (List.sublist_append_left _ _), hroom⟩
    · rename_i hroom
      exact ⟨List.Sublist.refl _, .inr (by simpa using hroom)⟩

theorem isFull_nil : isFull ([] : List (Text × JsTree ν)) = false := by
  have htext : (JsTree.record (assign [] TRUNCATED (.bool true)) : JsTree ν).render = jsonRecord [(TRUNCATED, textOf "true")] := by
    rw [assign_of_notMem List.not_mem_nil, JsTree.render, JsTree.renderEntries_eq, List.nil_append, List.map_singleton, JsTree.render]
    rfl
  have hshort : utf8Length (jsonRecord [(TRUNCATED, textOf "true")]) ≤ AUDIT_METADATA_MAX_BYTES := by decide +kernel
  rw [isFull, serializedLength, htext, decide_eq_false (Nat.not_lt.2 hshort)]
  rfl

theorem serializedLength_nil : serializedLength ([] : List (Text × JsTree ν)) ≤ AUDIT_METADATA_MAX_BYTES := by
  have hshort : utf8Length (jsonRecord []) ≤ AUDIT_METADATA_MAX_BYTES := by decide +kernel
  rwa [serializedLength, JsTree.render, JsTree.renderEntries_eq]

theorem isMetadataKey_truncated : isMetadataKey TRUNCATED = true := by
  decide +kernel

theorem makeRoom_room (entries : List (Text × JsTree ν)) : isFull (makeRoom entries) = false := by
  obtain ⟨-, hempty | hroom⟩ := makeRoom_spec entries
  · rw [hempty, isFull_nil]
  · exact hroom

/-- The marker, where there is room for it. -/
theorem Bounded.mark {entries : List (Text × JsTree ν)} (hfits : Fits AUDIT_METADATA_MAX_DEPTH (.record entries))
    (hbudget : nodes AUDIT_METADATA_MAX_DEPTH (.record entries) ≤ AUDIT_METADATA_MAX_NODES) (hroom : isFull entries = false) :
    Bounded (assign entries TRUNCATED (.bool true)) := by
  obtain ⟨hlength, hshort⟩ : entries.length < AUDIT_METADATA_MAX_KEYS ∧
      serializedLength (assign entries TRUNCATED (.bool true)) ≤ AUDIT_METADATA_MAX_BYTES := by
    simpa [isFull] using hroom
  obtain ⟨-, hnodup, hall⟩ := hfits
  refine ⟨⟨(length_assign_le _ _ _).trans hlength, nodup_assign hnodup _ _, fun e he => ?_⟩, ?_, hshort⟩
  · obtain rfl | he := mem_of_mem_assign he
    · exact ⟨isMetadataKey_truncated, trivial⟩
    · exact hall e he
  · exact Nat.le_trans (Nat.add_le_add_left (sum_assign_le rfl entries) 1) hbudget

/-- What the producer's first pass and its loop leave of a value. -/
theorem sanitizedEntries_cases (value : JsValue ν) : ∃ entries, Fits AUDIT_METADATA_MAX_DEPTH (.record entries) ∧
    nodes AUDIT_METADATA_MAX_DEPTH (.record entries) ≤ AUDIT_METADATA_MAX_NODES ∧
    (isFull entries = false ∧ sanitizedEntries h value = assign entries TRUNCATED (.bool true) ∨
      serializedLength entries ≤ AUDIT_METADATA_MAX_BYTES ∧ sanitizedEntries h value = entries ∧
        Unfolds h AUDIT_METADATA_MAX_DEPTH (.record entries) value) := by
  unfold sanitizedEntries
  generalize hout : sanitizeValue h AUDIT_METADATA_MAX_DEPTH value ⟨[], AUDIT_METADATA_MAX_NODES, false⟩ = out
  obtain ⟨-, hfits, hbudget, hsame⟩ := hout ▸ sanitizeValue_sanitizes (h := h) AUDIT_METADATA_MAX_DEPTH value ⟨[], AUDIT_METADATA_MAX_NODES, false⟩
  obtain ⟨t, state⟩ := out
  dsimp only at hfits hbudget hsame ⊢
  cases t with
  | record entries =>
    obtain ⟨hsub, hshort, hkept, -⟩ := foldl_keepFitting entries [] state.truncated hfits.2.1 serializedLength_nil
    rw [List.nil_append] at hsub hkept
    dsimp only
    generalize entries.foldl keepFitting ([], state.truncated) = kept at hsub hshort hkept ⊢
    obtain ⟨bounded, truncated⟩ := kept
    dsimp only at hsub hshort hkept ⊢
    cases truncated with
    | true =>
      have hless : List.Sublist (makeRoom bounded.reverse) entries := by
        have hprefix := (makeRoom_spec bounded.reverse).1
        rw [List.reverse_reverse] at hprefix
        exact hprefix.trans hsub
      refine ⟨makeRoom bounded.reverse, hfits.sublist hless, (nodes_sublist hless).trans (by omega), .inl ⟨makeRoom_room _, if_pos rfl⟩⟩
    | false =>
      obtain ⟨htruncated, rfl⟩ := hkept rfl
      exact ⟨bounded, hfits, by omega, .inr ⟨hshort, if_neg Bool.false_ne_true, (hsame htruncated).2⟩⟩
  | null | bool | number | string | array =>
    exact ⟨[], ⟨Nat.zero_le _, List.nodup_nil, List.forall_mem_nil _⟩, by simp [nodes, AUDIT_METADATA_MAX_DEPTH, AUDIT_METADATA_MAX_NODES],
      .inl ⟨isFull_nil, (@assign_of_notMem _ [] _ _ List.not_mem_nil).symm⟩⟩

/-- What is produced is within the limits. -/
theorem sanitizedEntries_bounded (value : JsValue ν) : Bounded (sanitizedEntries h value) := by
  obtain ⟨entries, hfits, hbudget, ⟨hroom, heq⟩ | ⟨hshort, heq, -⟩⟩ := sanitizedEntries_cases (h := h) value
  · rw [heq]
    exact .mark hfits hbudget hroom
  · rw [heq]
    exact ⟨hfits, hbudget, hshort⟩

/-- Without the marker nothing was left out. -/
theorem unfolds_of_unmarked {value : JsValue ν} (hunmarked : TRUNCATED ∉ (sanitizedEntries h value).map Prod.fst) :
    Unfolds h AUDIT_METADATA_MAX_DEPTH (.record (sanitizedEntries h value)) value := by
  obtain ⟨entries, -, -, ⟨-, heq⟩ | ⟨-, heq, hu⟩⟩ := sanitizedEntries_cases (h := h) value
  · rw [heq] at hunmarked
    exact absurd (mem_keys_assign _ _ _) hunmarked
  · rw [heq]
    exact hu

/-- An object within the limits is produced unchanged. -/
theorem sanitizedEntries_of_bounded {value : JsValue ν} {entries : List (Text × JsTree ν)}
    (hu : Unfolds h AUDIT_METADATA_MAX_DEPTH (.record entries) value) (hbounded : Bounded entries) :
    sanitizedEntries h value = entries := by
  have hcopy := sanitizeValue_reproduces hu hbounded.fits (List.forall_mem_nil _) ⟨[], AUDIT_METADATA_MAX_NODES, false⟩ rfl hbounded.budget
  have hloop := (foldl_keepFitting entries [] false hbounded.fits.2.1 serializedLength_nil).all hbounded.short
  unfold sanitizedEntries
  rw [hcopy]
  dsimp only [SanitizeState.spend]
  rw [hloop]
  rfl

/-! ## The result -/

/-- Anything but `null` and `undefined` becomes a fresh object. -/
theorem sanitizeAuditMetadata_allocates {value : JsValue ν} (hnull : value ≠ .null) (hundefined : value ≠ .undefined) :
    (∃ new, (sanitizeAuditMetadata h value).2 = h ++ new) ∧
      Unfolds (sanitizeAuditMetadata h value).2 AUDIT_METADATA_MAX_DEPTH (.record (sanitizedEntries h value))
        (sanitizeAuditMetadata h value).1 := by
  have hallocate := JsTree.allocate_spec (h := h) (sanitizedEntries_bounded (h := h) value).fits.within
  unfold sanitizeAuditMetadata
  cases value with
  | null => exact absurd rfl hnull
  | undefined => exact absurd rfl hundefined
  | _ => exact hallocate

theorem sanitizeAuditMetadata_bounded (h : Heap ν) (value : JsValue ν) :
    (sanitizeAuditMetadata h value).1 = .null ∨ (sanitizeAuditMetadata h value).1 = .undefined ∨
      isBoundedAuditMetadata (sanitizeAuditMetadata h value).2 (sanitizeAuditMetadata h value).1 = true := by
  by_cases hnull : value = .null
  · exact .inl (by rw [hnull]; rfl)
  by_cases hundefined : value = .undefined
  · exact .inr (.inl (by rw [hundefined]; rfl))
  obtain ⟨-, hu⟩ := sanitizeAuditMetadata_allocates (h := h) hnull hundefined
  exact .inr (.inr (isBoundedAuditMetadata_iff.2 ⟨_, hu, sanitizedEntries_bounded value⟩))

/-- What the checker accepts is returned as an equal value. -/
theorem sanitizeAuditMetadata_same {h : Heap ν} {value : JsValue ν} (hbounded : isBoundedAuditMetadata h value = true) :
    SameValue h value (sanitizeAuditMetadata h value).2 (sanitizeAuditMetadata h value).1 := by
  obtain ⟨entries, hu, hentries⟩ := isBoundedAuditMetadata_iff.1 hbounded
  obtain ⟨o, -, -, -, rfl, -⟩ := hu.object
  obtain ⟨-, hu'⟩ := sanitizeAuditMetadata_allocates (h := h) (nofun : JsValue.ref o ≠ .null) nofun
  rw [sanitizedEntries_of_bounded hu hentries] at hu'
  exact .inr ⟨AUDIT_METADATA_MAX_DEPTH, _, hu, hu'⟩

/-- Sanitising again changes nothing. -/
theorem sanitizeAuditMetadata_idempotent (h : Heap ν) (value : JsValue ν) :
    SameValue (sanitizeAuditMetadata h value).2 (sanitizeAuditMetadata h value).1
      (sanitizeAuditMetadata (sanitizeAuditMetadata h value).2 (sanitizeAuditMetadata h value).1).2
      (sanitizeAuditMetadata (sanitizeAuditMetadata h value).2 (sanitizeAuditMetadata h value).1).1 := by
  obtain hnull | hundefined | hbounded := sanitizeAuditMetadata_bounded h value
  · rw [hnull]
    exact .inr ⟨0, .null, rfl, rfl⟩
  · rw [hundefined]
    exact .inl ⟨rfl, rfl⟩
  · exact sanitizeAuditMetadata_same hbounded

/-- The value is an object with the key. -/
def HasKey (h : Heap ν) (value : JsValue ν) (key : Text) : Prop :=
  ∃ o entries nodup, value = .ref o ∧ h.object o = .record entries nodup ∧ key ∈ entries.map Prod.fst

omit [JsNumber ν] in
theorem hasKey_of_unfolds {value : JsValue ν} {entries : List (Text × JsTree ν)} {key : Text}
    (hu : Unfolds h levels (.record entries) value) (hkey : key ∈ entries.map Prod.fst) : HasKey h value key := by
  obtain ⟨o, own, nodup, _, rfl, hobject, rfl, hentries⟩ := hu.object
  refine ⟨o, own, nodup, rfl, hobject, ?_⟩
  rwa [← map_fst_of_forall₂ (hentries.imp fun _ _ he => he.1)]

/-- An object sanitised without the marker is equal to what it was made of. -/
theorem sanitizeAuditMetadata_honest {h : Heap ν} {o : Nat}
    (hunmarked : ¬HasKey (sanitizeAuditMetadata h (.ref o)).2 (sanitizeAuditMetadata h (.ref o)).1 TRUNCATED) :
    SameValue h (.ref o) (sanitizeAuditMetadata h (.ref o)).2 (sanitizeAuditMetadata h (.ref o)).1 := by
  obtain ⟨-, hu⟩ := sanitizeAuditMetadata_allocates (h := h) (nofun : JsValue.ref o ≠ .null) nofun
  exact .inr ⟨AUDIT_METADATA_MAX_DEPTH, _, unfolds_of_unmarked fun hkey => hunmarked (hasKey_of_unfolds hu hkey), hu⟩

/-- A detail stays what it is, but for a string that becomes a prefix within the limit. -/
theorem sanitizeAuditDetail_bounded (detail : Nullish Text) : match detail, sanitizeAuditDetail detail with
    | .value s, .value sanitized => isBoundedAuditDetail sanitized = true ∧ sanitized <+: s
    | .null, .null | .undefined, .undefined => True
    | _, _ => False := by
  cases detail with
  | value s => exact ⟨decide_eq_true (truncateUtf8_le _ _), truncateUtf8_start _ _⟩
  | null | undefined => exact trivial

end

end Keyforge.Security
