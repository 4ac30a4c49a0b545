/-
Avatars (`media/avatar.ts`, `media/avatar-service.ts`, and `setUserAvatar`, `clearUserAvatar` and `swapAvatar`
of `db/queries/users.ts`): the bytes lie in a bucket under a generated key, and the user's row names the key.
The state holds the columns of `users` that these statements touch, the bucket, and three history variables
that nothing reads: the keys that a row named before, the keys that deletions were issued for, and whether a
storage call has failed.
-/
import Keyforge.World
import Keyforge.Lib.Table

namespace Keyforge.Media

open Lib

/-! ## Uploads -/

inductive AvatarContentType where
  | png
  | jpeg
  | webp
  | gif
  deriving DecidableEq, Repr

def MAX_AVATAR_BYTES : Nat := 3 * 1024 * 1024

/-- `EXTENSIONS`. -/
def AvatarContentType.extension : AvatarContentType → String
  | .png => "png"
  | .jpeg => "jpg"
  | .webp => "webp"
  | .gif => "gif"

def startsWith (bytes signature : List UInt8) (offset : Nat) : Bool :=
  signature.isPrefixOf (bytes.drop offset)

/-- `sniffAvatarType`: the type that the first bytes tell. -/
def sniffAvatarType (bytes : List UInt8) : Option AvatarContentType :=
  if startsWith bytes [0x89, 0x50, 0x4e, 0x47, 0x0d, 0x0a, 0x1a, 0x0a] 0 then some .png
  else if startsWith bytes [0xff, 0xd8, 0xff] 0 then some .jpeg
  else if startsWith bytes [0x47, 0x49, 0x46, 0x38] 0 then some .gif
  else if startsWith bytes [0x52, 0x49, 0x46, 0x46] 0 && startsWith bytes [0x57, 0x45, 0x42, 0x50] 8 then some .webp
  else none

inductive AvatarRejection where
  | tooLarge
  | unsupported
  | empty
  deriving DecidableEq, Repr

/-- `validateAvatarBytes`: the type of acceptable bytes, or why they are not. -/
def validateAvatarBytes (bytes : List UInt8) : Except AvatarRejection AvatarContentType :=
  if bytes.length = 0 then .error .empty
  else if bytes.length > MAX_AVATAR_BYTES then .error .tooLarge
  else match sniffAvatarType bytes with
    | none => .error .unsupported
    | some contentType => .ok contentType

/-- `generateAvatarKey`, of the random token that it draws. -/
def generateAvatarKey (token : String) (contentType : AvatarContentType) : String :=
  token ++ "." ++ contentType.extension

/-! ## The state -/

/-- The columns of `users` that the avatar statements touch. -/
structure AvatarRow where
  id : String
  avatarKey : Option String
  avatarContentType : Option AvatarContentType
  avatarUpdatedAt : Option Nat
  updatedAt : Nat
  deriving DecidableEq, Repr

structure AvatarObject where
  bytes : List UInt8
  contentType : AvatarContentType
  deriving DecidableEq, Repr

/-- `former`, `deleted` and `failed` are history variables. -/
structure AvatarWorld where
  nowMs : Nat
  users : Table AvatarRow.id
  avatars : String → Option AvatarObject
  former : List String
  deleted : List String
  failed : Bool

def AvatarWorld.tick (dt : Nat) (w : AvatarWorld) : AvatarWorld := { w with nowMs := w.nowMs + dt }

abbrev AvatarApp (α : Type) := ExceptT Failure (Prog Input AvatarWorld) α

/-- One storage call; `issued` is what the history records of the call, whether it fails or not. -/
def storageCall {α : Type} (issued : AvatarWorld → AvatarWorld) (op : AvatarWorld → α × AvatarWorld) : AvatarApp α :=
  ExceptT.mk <| .atomic fun e w =>
    let w := issued (w.tick e.dt)
    if e.fail then (.error .storage, { (if e.applied then (op w).2 else w) with failed := true })
    else (.ok (op w).1, (op w).2)

/-- `nowSeconds()`. -/
def nowSeconds : AvatarApp Nat :=
  ExceptT.mk <| .atomic fun e w => (.ok ((w.tick e.dt).nowMs / 1000), w.tick e.dt)

/-! ## The bucket -/

def putAvatar (key : String) (bytes : List UInt8) (contentType : AvatarContentType) : AvatarApp Unit :=
  storageCall (fun w => w) fun w => ((), { w with avatars := Function.update w.avatars key (some ⟨bytes, contentType⟩) })

/-- A failed deletion is caught. -/
def deleteAvatarObject (key : Option String) : AvatarApp Unit :=
  match key with
  | none => pure ()
  | some key =>
    tryCatch (storageCall (fun w => { w with deleted := key :: w.deleted })
      fun w => ((), { w with avatars := Function.update w.avatars key none })) fun _ => pure ()

/-! ## The row -/

/-- One batch: the key that the row names, and the update. `none` if there is no row. -/
def swapAvatar (id : String) (set : AvatarRow → AvatarRow) (hset : ∀ r, (set r).id = r.id) :
    AvatarApp (Option (Option String)) :=
  storageCall (fun w => w) fun w =>
    let previous := (w.users.get? id).map (·.avatarKey)
    (previous, { w with users := w.users.update (·.id = id) set hset, former := previous.join.toList ++ w.former })

def setUserAvatar (id key : String) (contentType : AvatarContentType) : AvatarApp (Option (Option String)) := do
  let now ← nowSeconds
  swapAvatar id (fun r => { r with
    avatarKey := some key, avatarContentType := some contentType, avatarUpdatedAt := some now, updatedAt := now }) fun _ => rfl

def clearUserAvatar (id : String) : AvatarApp (Option (Option String)) := do
  let now ← nowSeconds
  swapAvatar id (fun r => { r with
    avatarKey := none, avatarContentType := none, avatarUpdatedAt := none, updatedAt := now }) fun _ => rfl

/-! ## The service -/

inductive AvatarStoreResult where
  | stored (key : String) (contentType : AvatarContentType)
  | rejected (reason : AvatarRejection)
  | notFound
  deriving DecidableEq, Repr

/-- `token` is the one that the key is generated from. -/
def storeUserAvatar (userId : String) (bytes : List UInt8) (token : String) : AvatarApp AvatarStoreResult :=
  match validateAvatarBytes bytes with
  | .error reason => pure (.rejected reason)
  | .ok contentType => do
    let key := generateAvatarKey token contentType
    putAvatar key bytes contentType
    match ← setUserAvatar userId key contentType with
    | none =>
      deleteAvatarObject (some key)
      pure .notFound
    | some previousKey =>
      deleteAvatarObject previousKey
      pure (.stored key contentType)

def removeUserAvatar (userId : String) : AvatarApp Bool := do
  match ← clearUserAvatar userId with
  | none => pure false
  | some none => pure false
  | some (some previousKey) =>
    deleteAvatarObject (some previousKey)
    pure true

end Keyforge.Media
