/-
The fixed-window limiter `RateLimitDO` (`do/RateLimitDO.ts`). One instance for each key: it counts
the calls of the current window, and its input gate serializes them, so a call is one atomic
function of the clock (milliseconds) and the storage. A run is a sequence of `check` calls with one
limit and one window, with the alarm in between at or after its set time.

In each window the calls up to the limit are allowed and the ones after it are refused; since two
windows start at least a window length apart, an interval of that length meets at most two.
-/
import Keyforge.Lib.Split
import Mathlib.Tactic

namespace Keyforge.Do

open Lib

/-- The storage keys `windowStart` and `count`, and the alarm. -/
structure RateLimitStorage where
  windowStart : Option Nat
  count : Option Nat
  alarm : Option Nat
  deriving DecidableEq, Repr

structure RateLimitResult where
  allowed : Bool
  remaining : Nat
  retryAfterSeconds : Int
  firstDenied : Bool
  deriving DecidableEq, Repr

namespace RateLimit

/-- `deleteAll()`, which also drops the alarm. -/
def empty : RateLimitStorage := ⟨none, none, none⟩

/-- The local `newWindow` of `RateLimitDO.check`. -/
def newWindow (windowSeconds now : Nat) (s : RateLimitStorage) : Bool :=
  decide ((now : Int) - (s.windowStart.getD 0 : Nat) ≥ (windowSeconds * 1000 : Nat))

/-- `Math.ceil(x / 1000)`. -/
def ceilSeconds (milliseconds : Int) : Int :=
  -(-milliseconds / 1000)

/-- `RateLimitDO.check`. -/
def check (limit windowSeconds now : Nat) (s : RateLimitStorage) : RateLimitResult × RateLimitStorage :=
  let windowMs := windowSeconds * 1000
  let storedStart := s.windowStart.getD 0
  let storedCount := s.count.getD 0
  let isNew := newWindow windowSeconds now s
  let windowStart := if isNew then now else storedStart
  let count := if isNew then 1 else min (storedCount + 1) (limit + 1)
  let after :=
    if isNew then ⟨some windowStart, some count, some (windowStart + windowMs + 1000)⟩
    else if count ≠ storedCount then { s with count := some count }
    else s
  let allowed := decide (count ≤ limit)
  let firstDenied := !allowed && (isNew || decide (storedCount ≤ limit))
  let retryAfterSeconds := if allowed then 0 else ceilSeconds ((windowStart + windowMs : Nat) - (now : Int))
  (⟨allowed, limit - count, retryAfterSeconds, firstDenied⟩, after)

/-- `RateLimitDO.alarm`. -/
def alarmed (_ : RateLimitStorage) : RateLimitStorage :=
  empty

/-! ## Runs -/

/-- One call of `check` as it happened. -/
structure Call where
  now : Nat
  before : RateLimitStorage
  result : RateLimitResult
  after : RateLimitStorage
  deriving DecidableEq, Repr

/-- The call of `check` at `now` on the storage `s`. -/
def callAt (limit windowSeconds now : Nat) (s : RateLimitStorage) : Call :=
  ⟨now, s, (check limit windowSeconds now s).1, (check limit windowSeconds now s).2⟩

/-- The calls an instance answers from the storage `s` and the time `t` on, oldest first. -/
inductive Run (limit windowSeconds : Nat) : RateLimitStorage → Nat → List Call → Prop
  | done (s : RateLimitStorage) (t : Nat) : Run limit windowSeconds s t []
  | check {s : RateLimitStorage} {t now : Nat} {calls : List Call} (le : t ≤ now)
      (rest : Run limit windowSeconds (callAt limit windowSeconds now s).after now calls) :
      Run limit windowSeconds s t (callAt limit windowSeconds now s :: calls)
  | alarm {s : RateLimitStorage} {t now at_ : Nat} {calls : List Call} (set : s.alarm = some at_) (due : at_ ≤ now)
      (le : t ≤ now) (rest : Run limit windowSeconds (alarmed s) now calls) : Run limit windowSeconds s t calls

/-- The stored windows: each is a call that starts one and the calls up to the next such call. -/
def windows (windowSeconds : Nat) (calls : List Call) : List (List Call) :=
  calls.splitBy fun _ c => !newWindow windowSeconds c.now c.before

variable {limit windowSeconds : Nat}

/-! ## One call -/

/-- The storage after the `k`-th call of the window that started at `start`. -/
def inWindow (limit windowSeconds start k : Nat) : RateLimitStorage :=
  ⟨some start, some (min k (limit + 1)), some (start + windowSeconds * 1000 + 1000)⟩

/-- The result of a call at `now`, the one after `k` others of the window that started at `start`. -/
def resultAt (limit windowSeconds start k now : Nat) : RateLimitResult where
  allowed := decide (k < limit)
  remaining := limit - (k + 1)
  retryAfterSeconds := if k < limit then 0 else ceilSeconds ((start + windowSeconds * 1000 : Nat) - (now : Int))
  firstDenied := decide (k = limit)

theorem newWindow_inWindow {start k now : Nat} :
    newWindow windowSeconds now (inWindow limit windowSeconds start k) = true ↔ start + windowSeconds * 1000 ≤ now := by
  unfold newWindow inWindow
  rw [decide_eq_true_iff, Option.getD_some]
  omega

theorem newWindow_empty {now : Nat} : newWindow windowSeconds now empty = true ↔ windowSeconds * 1000 ≤ now := by
  unfold newWindow empty
  rw [decide_eq_true_iff, Option.getD_none]
  omega

theorem check_opens (hlimit : 1 ≤ limit) {now : Nat} {s : RateLimitStorage} (h : newWindow windowSeconds now s = true) :
    check limit windowSeconds now s = (resultAt limit windowSeconds now 0 now, inWindow limit windowSeconds now 1) := by
  have hpos : 0 < limit := hlimit
  simp [check, h, resultAt, inWindow, hlimit, hpos, hpos.ne]

theorem check_stays {start k now : Nat} (h : newWindow windowSeconds now (inWindow limit windowSeconds start k) = false) :
    check limit windowSeconds now (inWindow limit windowSeconds start k) =
      (resultAt limit windowSeconds start k now, inWindow limit windowSeconds start (k + 1)) := by
  have hcount : min (min k (limit + 1) + 1) (limit + 1) = min (k + 1) (limit + 1) := by omega
  have hallowed : min (k + 1) (limit + 1) ≤ limit ↔ k < limit := by omega
  have hremaining : limit - min (k + 1) (limit + 1) = limit - (k + 1) := by omega
  have hdenied : (¬ k < limit ∧ min k (limit + 1) ≤ limit) ↔ k = limit := by omega
  have hkept : (if min (k + 1) (limit + 1) ≠ min k (limit + 1)
      then { inWindow limit windowSeconds start k with count := some (min (k + 1) (limit + 1)) }
      else inWindow limit windowSeconds start k) = inWindow limit windowSeconds start (k + 1) := by
    split
    · rfl
    · next heq => rw [inWindow, ← not_not.1 heq]; rfl
  have hstart : (inWindow limit windowSeconds start k).windowStart.getD 0 = start := rfl
  have hstored : (inWindow limit windowSeconds start k).count.getD 0 = min k (limit + 1) := rfl
  simp only [check, h, hstart, hstored, Bool.false_eq_true, if_false, Bool.false_or, hcount, hkept, hremaining, hallowed,
    decide_eq_true_eq, resultAt, ← decide_not]
  have hd : (decide ¬ k < limit && decide (min k (limit + 1) ≤ limit)) = decide (k = limit) := by
    rw [← Bool.decide_and]
    exact decide_eq_decide.2 hdenied
  rw [hd]

/-! ## One step of a run -/

/-- The storage at `t`: `k` calls into the window that started at `start`, or cleared by the alarm
after the end of that window. -/
def Tracks (limit windowSeconds start k : Nat) (s : RateLimitStorage) (t : Nat) : Prop :=
  s = inWindow limit windowSeconds start k ∨ s = empty ∧ start + windowSeconds * 1000 ≤ t

/-- What the next call does: it is one more of the window, or it starts a window. -/
inductive Next (limit windowSeconds start k : Nat) (c : Call) : Prop
  | stays (early : c.now < start + windowSeconds * 1000) (old : newWindow windowSeconds c.now c.before = false)
      (result : c.result = resultAt limit windowSeconds start k c.now)
      (after : c.after = inWindow limit windowSeconds start (k + 1))
  | opens (late : start + windowSeconds * 1000 ≤ c.now) (new : newWindow windowSeconds c.now c.before = true)
      (result : c.result = resultAt limit windowSeconds c.now 0 c.now)
      (after : c.after = inWindow limit windowSeconds c.now 1)

theorem next_callAt (hlimit : 1 ≤ limit) {start k t now : Nat} {s : RateLimitStorage}
    (hs : Tracks limit windowSeconds start k s t) (le : t ≤ now) :
    Next limit windowSeconds start k (callAt limit windowSeconds now s) := by
  by_cases hnew : newWindow windowSeconds now s = true
  · have hlate : start + windowSeconds * 1000 ≤ now := by
      rcases hs with rfl | ⟨rfl, hover⟩
      · exact newWindow_inWindow.1 hnew
      · exact hover.trans le
    have hcheck := check_opens hlimit hnew
    exact .opens hlate hnew (congrArg Prod.fst hcheck) (congrArg Prod.snd hcheck)
  · have hold := Bool.eq_false_iff.2 hnew
    rcases hs with rfl | ⟨rfl, hover⟩
    · have hcheck := check_stays hold
      exact .stays (not_le.1 fun h => hnew (newWindow_inWindow.2 h)) hold (congrArg Prod.fst hcheck)
        (congrArg Prod.snd hcheck)
    · exact absurd (newWindow_empty.2 (by omega)) hnew

/-- The alarm fires after the end of the window it was set in. -/
theorem tracks_alarmed {start k t now at_ : Nat} {s : RateLimitStorage} (hs : Tracks limit windowSeconds start k s t)
    (set : s.alarm = some at_) (due : at_ ≤ now) : Tracks limit windowSeconds start k (alarmed s) now := by
  rcases hs with rfl | ⟨rfl, -⟩
  · obtain rfl : start + windowSeconds * 1000 + 1000 = at_ := by simpa [inWindow] using set
    exact .inr ⟨rfl, by omega⟩
  · simp [empty] at set

/-- The first call of a run, whatever the alarm did before it. -/
theorem Run.next (hlimit : 1 ≤ limit) {s : RateLimitStorage} {t : Nat} {c : Call} {calls : List Call}
    (h : Run limit windowSeconds s t (c :: calls)) {start k : Nat} (hs : Tracks limit windowSeconds start k s t) :
    t ≤ c.now ∧ Next limit windowSeconds start k c ∧ Run limit windowSeconds c.after c.now calls := by
  generalize hl : c :: calls = l at h
  induction h with
  | done => cases hl
  | check le rest =>
    cases hl
    exact ⟨le, next_callAt hlimit hs le, rest⟩
  | alarm set due le _ ih =>
    obtain ⟨hle, hnext⟩ := ih (tracks_alarmed hs set due) hl
    exact ⟨le.trans hle, hnext⟩

theorem Next.tracks {start k t : Nat} {c : Call} (h : Next limit windowSeconds start k c) :
    ∃ start' k', Tracks limit windowSeconds start' k' c.after t := by
  cases h with
  | stays _ _ _ after => exact ⟨start, k + 1, .inl after⟩
  | opens _ _ _ after => exact ⟨c.now, 1, .inl after⟩

/-! ## Whole runs -/

/-- A later part of a run is a run from a tracked state. -/
theorem Run.suffix (hlimit : 1 ≤ limit) {calls : List Call} : ∀ {before : List Call} {s : RateLimitStorage} {t start k : Nat},
    Run limit windowSeconds s t (before ++ calls) → Tracks limit windowSeconds start k s t →
    ∃ s' t' start' k', Run limit windowSeconds s' t' calls ∧ Tracks limit windowSeconds start' k' s' t'
  | [], s, t, start, k, h, hs => ⟨s, t, start, k, h, hs⟩
  | c :: before, s, t, start, k, h, hs => by
    obtain ⟨-, hnext, hrest⟩ := h.next hlimit hs
    obtain ⟨start', k', hs'⟩ := hnext.tracks (t := c.now)
    exact hrest.suffix hlimit hs'

theorem Run.le_now (hlimit : 1 ≤ limit) : ∀ {calls : List Call} {s : RateLimitStorage} {t start k : Nat},
    Run limit windowSeconds s t calls → Tracks limit windowSeconds start k s t → ∀ c ∈ calls, t ≤ c.now
  | [], _, _, _, _, _, _ => fun _ h => absurd h List.not_mem_nil
  | c :: calls, _, _, _, _, h, hs => by
    obtain ⟨hle, hnext, hrest⟩ := h.next hlimit hs
    obtain ⟨_, _, hs'⟩ := hnext.tracks (t := c.now)
    exact List.forall_mem_cons.2 ⟨hle, fun d hd => hle.trans (hrest.le_now hlimit hs' d hd)⟩

/-- The calls that start no window are the next ones of the current window. -/
theorem Run.results (hlimit : 1 ≤ limit) {after : List Call} : ∀ {calls : List Call} {s : RateLimitStorage} {t start k : Nat},
    Run limit windowSeconds s t (calls ++ after) → Tracks limit windowSeconds start k s t →
    (∀ c ∈ calls, newWindow windowSeconds c.now c.before = false) →
    ∀ i (h : i < calls.length), calls[i].result = resultAt limit windowSeconds start (k + i) calls[i].now
  | [], _, _, _, _, _, _, _ => fun _ h => absurd h (Nat.not_lt_zero _)
  | c :: calls, s, t, start, k, h, hs, hold => by
    obtain ⟨hc, hcalls⟩ := List.forall_mem_cons.1 hold
    obtain ⟨-, hnext, hrest⟩ := h.next hlimit hs
    cases hnext with
    | opens _ new _ _ => rw [hc] at new; cases new
    | stays _ _ result hafter =>
      intro i hi
      cases i with
      | zero => exact result
      | succ i =>
        have := hrest.results hlimit (.inl hafter) hcalls i (Nat.lt_of_succ_lt_succ hi)
        rwa [show k + 1 + i = k + (i + 1) by omega] at this

/-- The calls of a stored window, one by one. -/
theorem Run.window (hlimit : 1 ≤ limit) {calls : List Call} {t : Nat} (h : Run limit windowSeconds empty t calls)
    (ht : windowSeconds * 1000 ≤ t) {w : List Call} (hw : w ∈ windows windowSeconds calls) :
    ∃ start, ∀ i (h : i < w.length), w[i].result = resultAt limit windowSeconds start i w[i].now := by
  have hs : Tracks limit windowSeconds 0 0 empty t := .inr ⟨rfl, by omega⟩
  -- The first call of the run finds no window, so every stored window starts with a call that opens it.
  have hfirst : ∀ c ∈ calls.head?, newWindow windowSeconds c.now c.before = true := by
    intro c hc
    obtain ⟨rest, rfl⟩ := List.head?_eq_some_iff.1 hc
    obtain ⟨hle, hnext, -⟩ := h.next hlimit hs
    cases hnext with
    | stays early _ _ _ => omega
    | opens _ new _ _ => exact new
  obtain ⟨before, c, rest, after, rfl, rfl, hnew, hold⟩ := of_mem_splitBy hfirst hw
  obtain ⟨s', t', start, k, hrun, hs'⟩ := h.suffix hlimit hs
  obtain ⟨-, hnext, hrest⟩ := hrun.next hlimit hs'
  cases hnext with
  | stays _ old _ _ => rw [hnew] at old; cases old
  | opens _ _ result hafter =>
    refine ⟨c.now, fun i hi => ?_⟩
    cases i with
    | zero => exact result
    | succ i =>
      have := hrest.results hlimit (.inl hafter) hold i (Nat.lt_of_succ_lt_succ hi)
      rwa [Nat.add_comm 1 i] at this

/-! ## How many calls are allowed -/

/-- The allowed calls before the time `u`. -/
def allowedBefore (u : Nat) (c : Call) : Bool :=
  c.result.allowed && decide (c.now < u)

/-- The allowed calls of the interval of one window length that starts at `t`. -/
def allowedFrom (windowSeconds t : Nat) (c : Call) : Bool :=
  c.result.allowed && decide (t ≤ c.now) && decide (c.now < t + windowSeconds * 1000)

/-- Before the end of a window only its own calls are allowed. -/
theorem Run.countP_window (hlimit : 1 ≤ limit) {u : Nat} : ∀ {calls : List Call} {s : RateLimitStorage} {t start k : Nat},
    Run limit windowSeconds s t calls → Tracks limit windowSeconds start k s t → u ≤ start + windowSeconds * 1000 →
    calls.countP (allowedBefore u) ≤ limit - k
  | [], _, _, _, _, _, _, _ => Nat.zero_le _
  | c :: calls, s, t, start, k, h, hs, hu => by
    obtain ⟨-, hnext, hrest⟩ := h.next hlimit hs
    rw [List.countP_cons]
    cases hnext with
    | stays _ _ result hafter =>
      have hcalls := hrest.countP_window hlimit (.inl hafter) hu
      by_cases hk : k < limit
      · split <;> omega
      · have hdenied : allowedBefore u c = false := by simp [allowedBefore, result, resultAt, hk]
        rw [hdenied]
        simp only [Bool.false_eq_true, if_false]
        omega
    | opens late _ _ hafter =>
      have hnone : ∀ d ∈ c :: calls, allowedBefore u d = false := by
        refine List.forall_mem_cons.2 ⟨?_, fun d hd => ?_⟩
        · simp [allowedBefore, show ¬ c.now < u by omega]
        · have := hrest.le_now hlimit (.inl hafter) d hd
          simp [allowedBefore, show ¬ d.now < u by omega]
      rw [← List.countP_cons, List.countP_eq_zero.2 (fun d hd => by rw [hnone d hd]; exact Bool.false_ne_true)]
      exact Nat.zero_le _

/-- An interval of one window length meets the current window and at most one more. -/
theorem Run.countP_interval (hlimit : 1 ≤ limit) {u : Nat} : ∀ {calls : List Call} {s : RateLimitStorage} {t start k : Nat},
    Run limit windowSeconds s t calls → Tracks limit windowSeconds start k s t → u ≤ t + windowSeconds * 1000 →
    calls.countP (allowedBefore u) ≤ limit - k + limit
  | [], _, _, _, _, _, _, _ => Nat.zero_le _
  | c :: calls, s, t, start, k, h, hs, hu => by
    obtain ⟨hle, hnext, hrest⟩ := h.next hlimit hs
    have hnow : u ≤ c.now + windowSeconds * 1000 := by omega
    rw [List.countP_cons]
    cases hnext with
    | stays _ _ result hafter =>
      have hcalls := hrest.countP_interval hlimit (.inl hafter) hnow
      by_cases hk : k < limit
      · split <;> omega
      · have hdenied : allowedBefore u c = false := by simp [allowedBefore, result, resultAt, hk]
        rw [hdenied]
        simp only [Bool.false_eq_true, if_false]
        omega
    | opens _ _ _ hafter =>
      have hcalls := hrest.countP_window hlimit (.inl hafter) hnow
      split <;> omega

theorem allowedBefore_of_allowedFrom {t : Nat} {c : Call} (h : allowedFrom windowSeconds t c = true) :
    allowedBefore (t + windowSeconds * 1000) c = true := by
  simp only [allowedFrom, Bool.and_eq_true] at h
  exact Bool.and_eq_true_iff.2 ⟨h.1.1, h.2⟩

theorem Run.countP_from (hlimit : 1 ≤ limit) {u : Nat} : ∀ {calls : List Call} {s : RateLimitStorage} {t start k : Nat},
    Run limit windowSeconds s t calls → Tracks limit windowSeconds start k s t →
    calls.countP (allowedFrom windowSeconds u) ≤ 2 * limit
  | [], _, _, _, _, _, _ => Nat.zero_le _
  | c :: calls, s, t, start, k, h, hs => by
    obtain ⟨-, hnext, hrest⟩ := h.next hlimit hs
    rw [List.countP_cons]
    by_cases hu : u ≤ c.now
    · -- The interval has begun: what is left of it is shorter than a window.
      have hnow : u + windowSeconds * 1000 ≤ c.now + windowSeconds * 1000 := by omega
      have hmono : calls.countP (allowedFrom windowSeconds u) ≤ calls.countP (allowedBefore (u + windowSeconds * 1000)) :=
        List.countP_mono_left fun _ _ => allowedBefore_of_allowedFrom
      cases hnext with
      | stays _ _ result hafter =>
        have hcalls := hrest.countP_interval hlimit (.inl hafter) hnow
        by_cases hk : k < limit
        · split <;> omega
        · have hdenied : allowedFrom windowSeconds u c = false := by simp [allowedFrom, result, resultAt, hk]
          rw [hdenied]
          simp only [Bool.false_eq_true, if_false]
          omega
      | opens _ _ _ hafter =>
        have hcalls := hrest.countP_window hlimit (.inl hafter) hnow
        split <;> omega
    · have hout : allowedFrom windowSeconds u c = false := by simp [allowedFrom, hu]
      obtain ⟨_, _, hs'⟩ := hnext.tracks (t := c.now)
      rw [hout]
      exact hrest.countP_from hlimit hs'

/-! ## The limiter's promises -/

/-- What the calls of one instance show of a fixed window. -/
structure FixedWindow (limit windowSeconds : Nat) (calls : List Call) : Prop where
  allowed_window : ∀ w ∈ windows windowSeconds calls, w.countP (·.result.allowed) ≤ limit
  allowed_interval : ∀ t, calls.countP (allowedFrom windowSeconds t) ≤ 2 * limit
  firstDenied : ∀ w ∈ windows windowSeconds calls, (∃ c ∈ w, c.result.allowed = false) →
    ∃ before c after, w = before ++ c :: after ∧
      (∀ d ∈ before, d.result.allowed = true ∧ d.result.firstDenied = false) ∧
      (c.result.allowed = false ∧ c.result.firstDenied = true) ∧ ∀ d ∈ after, d.result.firstDenied = false
  firstDenied_denied : ∀ c ∈ calls, c.result.firstDenied = true → c.result.allowed = false
  count_le : ∀ c ∈ calls, c.after.count.getD 0 ≤ limit + 1
  retry : ∀ before c c' after, calls = before ++ c :: c' :: after → c.result.allowed = false →
    (c.now : Int) + c.result.retryAfterSeconds * 1000 ≤ c'.now → c'.result.allowed = true

/-- The results of a stored window say all that is asked of it. -/
theorem allowed_of_results {w : List Call} {start : Nat}
    (h : ∀ i (h : i < w.length), w[i].result = resultAt limit windowSeconds start i w[i].now) :
    w.countP (·.result.allowed) ≤ limit := by
  have hdenied : (w.drop limit).countP (·.result.allowed) = 0 := by
    refine List.countP_eq_zero.2 fun c hc => ?_
    obtain ⟨i, hi, rfl⟩ := List.mem_iff_getElem.1 hc
    rw [List.getElem_drop, h]
    simp [resultAt]
  calc w.countP (·.result.allowed)
      = (w.take limit).countP (·.result.allowed) + (w.drop limit).countP (·.result.allowed) := by
        rw [← List.countP_append, List.take_append_drop]
    _ ≤ limit := by
        rw [hdenied]
        exact List.countP_le_length.trans (List.length_take_le _ _)

theorem firstDenied_of_results {w : List Call} {start : Nat}
    (h : ∀ i (h : i < w.length), w[i].result = resultAt limit windowSeconds start i w[i].now)
    (hw : ∃ c ∈ w, c.result.allowed = false) :
    ∃ before c after, w = before ++ c :: after ∧
      (∀ d ∈ before, d.result.allowed = true ∧ d.result.firstDenied = false) ∧
      (c.result.allowed = false ∧ c.result.firstDenied = true) ∧ ∀ d ∈ after, d.result.firstDenied = false := by
  have hlen : limit < w.length := by
    obtain ⟨c, hc, hdenied⟩ := hw
    obtain ⟨i, hi, rfl⟩ := List.mem_iff_getElem.1 hc
    rw [h i hi] at hdenied
    have : ¬ i < limit := by simpa [resultAt] using hdenied
    omega
  refine ⟨w.take limit, w[limit], w.drop (limit + 1), ?_, fun d hd => ?_, ?_, fun d hd => ?_⟩
  · rw [← List.drop_eq_getElem_cons hlen, List.take_append_drop]
  · obtain ⟨i, hi, rfl⟩ := List.mem_iff_getElem.1 hd
    rw [List.length_take] at hi
    rw [List.getElem_take, h]
    simp only [resultAt, decide_eq_true_eq, decide_eq_false_iff_not]
    omega
  · rw [h]
    simp [resultAt]
  · obtain ⟨i, hi, rfl⟩ := List.mem_iff_getElem.1 hd
    rw [List.getElem_drop, h]
    simp only [resultAt, decide_eq_false_iff_not]
    omega

theorem Next.result {start k : Nat} {c : Call} (h : Next limit windowSeconds start k c) :
    ∃ start' k', c.result = resultAt limit windowSeconds start' k' c.now := by
  cases h with
  | stays _ _ result _ => exact ⟨start, k, result⟩
  | opens _ _ result _ => exact ⟨c.now, 0, result⟩

/-- A refused call tells when the window ends, rounded up. -/
theorem Next.denied {start k : Nat} {c : Call} (hlimit : 1 ≤ limit) (h : Next limit windowSeconds start k c)
    (hdenied : c.result.allowed = false) :
    c.after = inWindow limit windowSeconds start (k + 1) ∧
      (start + windowSeconds * 1000 : Nat) ≤ (c.now : Int) + c.result.retryAfterSeconds * 1000 := by
  cases h with
  | opens _ _ result _ =>
    rw [result] at hdenied
    simp [resultAt] at hdenied
    omega
  | stays _ _ result after =>
    rw [result] at hdenied
    have hk : ¬ k < limit := by simpa [resultAt] using hdenied
    refine ⟨after, ?_⟩
    rw [result]
    simp only [resultAt, if_neg hk, ceilSeconds]
    omega

theorem Next.allowed {start k : Nat} {c : Call} (hlimit : 1 ≤ limit) (h : Next limit windowSeconds start k c)
    (late : start + windowSeconds * 1000 ≤ c.now) : c.result.allowed = true := by
  cases h with
  | stays early _ _ _ => omega
  | opens _ _ result _ =>
    rw [result]
    exact decide_eq_true hlimit

theorem count_inWindow {start k : Nat} : (inWindow limit windowSeconds start k).count.getD 0 ≤ limit + 1 :=
  Nat.min_le_right _ _

theorem Next.count_le {start k : Nat} {c : Call} (h : Next limit windowSeconds start k c) : c.after.count.getD 0 ≤ limit + 1 := by
  cases h with
  | stays _ _ _ after => rw [after]; exact count_inWindow
  | opens _ _ _ after => rw [after]; exact count_inWindow

/-- **The fixed window.** Every run of an instance with one limit of at least 1 and one window, from
the empty storage and at least a window length after the epoch, keeps the limiter's promises. -/
theorem fixedWindow (limit windowSeconds : Nat) (hlimit : 1 ≤ limit) (t : Nat) (ht : windowSeconds * 1000 ≤ t)
    (calls : List Call) (h : Run limit windowSeconds empty t calls) : FixedWindow limit windowSeconds calls := by
  have hs : Tracks limit windowSeconds 0 0 empty t := .inr ⟨rfl, by omega⟩
  refine ⟨fun w hw => ?_, fun u => h.countP_from hlimit hs, fun w hw hdenied => ?_, fun c hc hfirst => ?_, fun c hc => ?_, ?_⟩
  · obtain ⟨start, hresults⟩ := h.window hlimit ht hw
    exact allowed_of_results hresults
  · obtain ⟨start, hresults⟩ := h.window hlimit ht hw
    exact firstDenied_of_results hresults hdenied
  · obtain ⟨before, after, rfl⟩ := List.append_of_mem hc
    obtain ⟨_, _, _, _, hrun, hs'⟩ := h.suffix hlimit hs
    obtain ⟨start, k, hresult⟩ := (hrun.next hlimit hs').2.1.result
    rw [hresult] at hfirst ⊢
    simp only [resultAt, decide_eq_true_eq, decide_eq_false_iff_not] at hfirst ⊢
    omega
  · obtain ⟨before, after, rfl⟩ := List.append_of_mem hc
    obtain ⟨_, _, _, _, hrun, hs'⟩ := h.suffix hlimit hs
    exact (hrun.next hlimit hs').2.1.count_le
  · rintro before c c' after rfl hdenied hlate
    obtain ⟨_, _, start, k, hrun, hs'⟩ := h.suffix hlimit hs
    obtain ⟨-, hnext, hrest⟩ := hrun.next hlimit hs'
    obtain ⟨hafter, hends⟩ := hnext.denied hlimit hdenied
    obtain ⟨-, hnext', -⟩ := hrest.next hlimit (.inl hafter)
    exact hnext'.allowed hlimit (by omega)

/-- One call a minute: the first is allowed, the second is told to wait for the rest of the minute,
and the third comes after the alarm. -/
def sampleAllowed : Call := callAt 1 60 100000 empty
def sampleRefused : Call := callAt 1 60 130500 sampleAllowed.after
def sampleCleared : Call := callAt 1 60 170000 empty

theorem fixedWindow_sample : ∃ calls : List Call, calls.map (·.result) =
      [⟨true, 0, 0, false⟩, ⟨false, 0, 30, true⟩, ⟨true, 0, 0, false⟩] ∧ FixedWindow 1 60 calls := by
  have hset : sampleRefused.after.alarm = some 161000 := by decide
  have hdue : 161000 ≤ 165000 := by decide
  exact ⟨[sampleAllowed, sampleRefused, sampleCleared], by decide, fixedWindow 1 60 (by decide) 60000 (by decide) _
    (.check (by decide) (.check (by decide) (.alarm hset hdue (by decide) (.check (by decide) (.done _ _)))))⟩

end RateLimit

end Keyforge.Do
