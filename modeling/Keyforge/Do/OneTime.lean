/-
Single-use stores: the base class `OneTimeConsumeDO` (`do/base.ts`) and the authorization code
object `AuthorizationCodeDO`, which adds `consumeIf`. Each instance is addressed by the hash of one
token or code, so it holds one item. The object's input gate serializes its calls, so a call is one
atomic function of the clock (milliseconds) and the storage.
-/
import Keyforge.Lib.Machine
import Keyforge.Security.Crypto

namespace Keyforge.Do

open Security

/-! ## The base class -/

inductive ConsumeResult (T : Type) where
  | found (value : T)
  | notFound
  deriving DecidableEq, Repr

/-- The storage keys `value`, `expiresAt` and `consumed`, and the alarm. -/
structure OneTimeStorage (T : Type) where
  value : Option T
  expiresAt : Option Nat
  consumed : Option Bool
  alarm : Option Nat
  deriving DecidableEq, Repr

namespace OneTimeStorage

variable {T : Type}

/-- `deleteAll()`, which also drops the alarm. -/
def empty : OneTimeStorage T := ⟨none, none, none, none⟩

/-- `OneTimeConsumeDO.store`. -/
def store (nowMs : Nat) (value : T) (ttlSeconds : Nat) (_ : OneTimeStorage T) : OneTimeStorage T :=
  let expiresAt := nowMs + ttlSeconds * 1000
  { value := some value, expiresAt := some expiresAt, consumed := some false, alarm := some (expiresAt + 60000) }

/-- `OneTimeConsumeDO.consume`. An expired item is deleted on the way. -/
def consume (nowMs : Nat) (s : OneTimeStorage T) : ConsumeResult T × OneTimeStorage T :=
  if s.consumed ≠ some false then (.notFound, s)
  else match s.expiresAt with
    | none => (.notFound, .empty)
    | some expiresAt =>
      if nowMs > expiresAt then (.notFound, .empty)
      else match s.value with
        | none => (.notFound, s)
        | some value => (.found value, { s with consumed := some true })

/-- `OneTimeConsumeDO.peek`. -/
def peek (nowMs : Nat) (s : OneTimeStorage T) : ConsumeResult T :=
  match s.consumed, s.expiresAt, s.value with
  | some false, some expiresAt, some value => if nowMs > expiresAt then .notFound else .found value
  | _, _, _ => .notFound

/-- `OneTimeConsumeDO.alarm`. -/
def alarmed (_ : OneTimeStorage T) : OneTimeStorage T :=
  .empty

end OneTimeStorage

/-! ## Authorization codes -/

structure AuthorizationCodePayload where
  issuer : String
  clientId : String
  userId : String
  redirectUri : String
  scope : String
  resource : String
  resourceRequired : Bool
  metadataFingerprint : Option String
  codeChallenge : String
  nonce : Option String
  authTime : Nat
  sessionId : String
  deriving DecidableEq, Repr

structure ConsumeIfInput where
  issuer : String
  clientId : String
  redirectUri : String
  resource : Option String
  metadataFingerprint : Option String
  codeVerifier : String
  deriving DecidableEq, Repr

inductive ConsumeIfReason where
  | notFound
  | binding
  | resource
  | pkce
  deriving DecidableEq, Repr

inductive ConsumeIfResult where
  | found (value : AuthorizationCodePayload)
  | refused (reason : ConsumeIfReason)
  deriving DecidableEq, Repr

/-- The challenge of a presented verifier; a malformed verifier has none. -/
def computedChallenge (sha256 : String → List UInt8) (codeVerifier : String) : Option String :=
  if isValidCodeVerifier codeVerifier then some (computeS256Challenge sha256 codeVerifier) else none

/-- `AuthorizationCodeDO.consumeIf`. With `yolo` on, the binding, resource and PKCE checks are
skipped. -/
def consumeIf (sha256 : String → List UInt8) (yolo : Bool) (nowMs : Nat) (input : ConsumeIfInput)
    (s : OneTimeStorage AuthorizationCodePayload) : ConsumeIfResult × OneTimeStorage AuthorizationCodePayload :=
  match s.consumed, s.expiresAt, s.value with
  | some false, some expiresAt, some value =>
    if nowMs > expiresAt then (.refused .notFound, s)
    else if !yolo && (value.issuer != input.issuer || value.clientId != input.clientId ||
        value.redirectUri != input.redirectUri || value.metadataFingerprint != input.metadataFingerprint) then
      (.refused .binding, s)
    else if !yolo && ((value.resourceRequired && input.resource.isNone) ||
        input.resource.any (fun resource => value.resource != resource)) then
      (.refused .resource, s)
    else if !yolo && !((computedChallenge sha256 input.codeVerifier).any fun challenge =>
        timingSafeEqualString challenge value.codeChallenge) then
      (.refused .pkce, s)
    else (.found value, { s with consumed := some true })
  | _, _, _ => (.refused .notFound, s)

/-! ## The objects -/

/-- The calls a one-time store receives after `store`; `ι` is the input of a subclass's conditional
consumption, empty for the plain subclasses. -/
inductive OneTimeCall (ι : Type) where
  | consume
  | consumeIf (input : ι)
  | peek
  | alarm
  deriving DecidableEq, Repr

inductive OneTimeAnswer (T ρ : Type) where
  | consume (result : ConsumeResult T)
  | consumeIf (result : ρ)
  | peek (result : ConsumeResult T)
  | alarm
  deriving DecidableEq, Repr

/-- A store with conditional consumption `cond`, from the storage `start`. -/
def oneTimeMachine {T ι ρ : Type} (cond : Nat → ι → OneTimeStorage T → ρ × OneTimeStorage T)
    (start : OneTimeStorage T) : Lib.Machine (OneTimeStorage T) (Nat × OneTimeCall ι) (OneTimeAnswer T ρ) where
  start := start
  call := fun (nowMs, c) s => match c with
    | .consume => let r := s.consume nowMs; (.consume r.1, r.2)
    | .consumeIf input => let r := cond nowMs input s; (.consumeIf r.1, r.2)
    | .peek => (.peek (s.peek nowMs), s)
    | .alarm => (.alarm, s.alarmed)

/-- `OneTimeTokenDO`, `WebAuthnChallengeDO`: the base class and nothing else. -/
def plainMachine {T : Type} (start : OneTimeStorage T) :
    Lib.Machine (OneTimeStorage T) (Nat × OneTimeCall Empty) (OneTimeAnswer T Empty) :=
  oneTimeMachine (fun _ input => input.elim) start

/-- `AuthorizationCodeDO`, YOLO mode off. -/
def codeMachine (sha256 : String → List UInt8) (start : OneTimeStorage AuthorizationCodePayload) :
    Lib.Machine (OneTimeStorage AuthorizationCodePayload) (Nat × OneTimeCall ConsumeIfInput)
      (OneTimeAnswer AuthorizationCodePayload ConsumeIfResult) :=
  oneTimeMachine (consumeIf sha256 false) start

end Keyforge.Do
