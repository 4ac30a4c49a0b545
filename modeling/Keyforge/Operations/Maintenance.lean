/-
Scheduled maintenance (`operations/maintenance.ts`): the bounded deletion of terminal rows. One
statement deletes at most a batch of the oldest candidates of a table, with the foreign keys and
triggers that go with the rows; each table gets a few statements per run.
-/
import Keyforge.Db.Queries
import Mathlib.Data.List.Sort

namespace Keyforge.Operations

open Lib Db

/-! ## Candidates -/

/-- One terminal state of a table's rows. -/
structure CleanupBranch (α : Type) where
  terminalColumn : α → Nat
  predicate : α → Bool

/-- `ORDER BY terminal_at, row_key`. -/
def candidateOrder (a b : String × Nat) : Bool :=
  a.2 < b.2 || (a.2 = b.2 && a.1 ≤ b.1)

def branchCandidates {α : Type} {key : α → String} (t : Table key) (batchSize : Nat) (branch : CleanupBranch α) :
    List (String × Nat) :=
  (((t.select branch.predicate).map fun r => (key r, branch.terminalColumn r)).insertionSort
    fun a b => candidateOrder a b = true).take batchSize

/-- `GROUP BY row_key` with the smallest time of each. -/
def groupCandidates (candidates : List (String × Nat)) : List (String × Nat) :=
  (candidates.map Prod.fst).eraseDups.map fun k =>
    (k, (((candidates.filter (·.1 = k)).map Prod.snd).min?).getD 0)

/-- The keys of the rows one statement deletes. -/
def boundedKeys {α : Type} {key : α → String} (branches : List (CleanupBranch α)) (batchSize : Nat) (t : Table key) :
    List String :=
  (((groupCandidates (branches.flatMap (branchCandidates t batchSize))).insertionSort
    fun a b => candidateOrder a b = true).take batchSize).map Prod.fst

/-! ## Deletions -/

def deleteRefreshTokens (ids : List String) (db : Database) : Database :=
  { db with refreshTokens := db.refreshTokens.delete fun r => ids.contains r.id }

def deleteGrants (ids : List String) (db : Database) : Database :=
  { db with grants := db.grants.delete fun g => ids.contains g.id }

def deleteDevices (ids : List String) (db : Database) : Database :=
  { db with devices := db.devices.delete fun d => ids.contains d.id }

def deleteEmailVerifications (ids : List String) (db : Database) : Database :=
  { db with emailVerifications := db.emailVerifications.delete fun v => ids.contains v.id }

def deletePasswordResetTokens (ids : List String) (db : Database) : Database :=
  { db with passwordResetTokens := db.passwordResetTokens.delete fun t => ids.contains t.id }

def deleteContinuations (tokenHashes : List String) (db : Database) : Database :=
  { db with reauthContinuations := db.reauthContinuations.delete fun c => tokenHashes.contains c.tokenHash }

def deleteAssertionJtis (jtiHashes : List String) (db : Database) : Database :=
  { db with clientAssertionJtis := db.clientAssertionJtis.delete fun j => jtiHashes.contains j.jtiHash }

/-! ## Terminal rows -/

/-- A column that is set and before the cutoff. -/
def endedBefore (cutoff : Nat) (column : Option Nat) : Bool :=
  column.any (· < cutoff)

/-- An enabled metadata client whose metadata has expired and to which nothing refers. -/
def abandonedClient (cutoff : Nat) (db : Database) (c : ClientRow) : Bool :=
  c.registrationType = .clientIdMetadata && c.enabled && endedBefore cutoff c.metadataExpiresAt &&
    !(db.consents.has fun r => r.clientId = c.clientId) && !(db.refreshTokens.has fun r => r.clientId = c.clientId) &&
    !(db.grants.has fun g => g.clientId = c.clientId)

def abandonedClients (cutoff batchSize : Nat) (db : Database) : List String :=
  boundedKeys [⟨(·.metadataExpiresAt.getD 0), abandonedClient cutoff db⟩] batchSize db.clients

/-! ## The statements -/

/-- The bounded delete of one table: its branches, and what deleting these keys does. -/
structure CleanupStatement where
  name : String
  {Row : Type}
  {key : Row → String}
  table : Database → Table key
  branches : Database → List (CleanupBranch Row)
  remove : List String → Database → Database

def CleanupStatement.keys (statement : CleanupStatement) (batchSize : Nat) (db : Database) : List String :=
  boundedKeys (statement.branches db) batchSize (statement.table db)

def cleanupStatements (cutoff now : Nat) : List CleanupStatement :=
  [{ name := "sessions"
     table := (·.sessions)
     branches := fun _ => [⟨(·.expiresAt), fun s => s.expiresAt < cutoff⟩,
       ⟨(·.revokedAt.getD 0), fun s => endedBefore cutoff s.revokedAt⟩]
     remove := deleteSessions },
   { name := "refresh_tokens"
     table := (·.refreshTokens)
     branches := fun _ => [⟨(·.expiresAt), fun r => r.expiresAt < cutoff⟩,
       ⟨(·.revokedAt.getD 0), fun r => endedBefore cutoff r.revokedAt⟩]
     remove := deleteRefreshTokens },
   { name := "authorization_grants"
     table := (·.grants)
     branches := fun _ => [⟨(·.createdAt), fun g => g.createdAt < cutoff⟩]
     remove := deleteGrants },
   { name := "device_authorization_sessions"
     table := (·.devices)
     branches := fun _ => [⟨(·.expiresAt), fun d => d.expiresAt < cutoff⟩,
       ⟨(·.createdAt), fun d => d.status = .denied && d.createdAt < cutoff⟩,
       ⟨(·.createdAt), fun d => d.status = .expired && d.createdAt < cutoff⟩,
       ⟨(·.createdAt), fun d => d.status = .consumed && d.createdAt < cutoff⟩]
     remove := deleteDevices },
   { name := "email_verifications"
     table := (·.emailVerifications)
     branches := fun _ => [⟨(·.expiresAt), fun v => v.expiresAt < cutoff⟩,
       ⟨(·.consumedAt.getD 0), fun v => endedBefore cutoff v.consumedAt⟩]
     remove := deleteEmailVerifications },
   { name := "password_reset_tokens"
     table := (·.passwordResetTokens)
     branches := fun _ => [⟨(·.expiresAt), fun t => t.expiresAt < cutoff⟩,
       ⟨(·.consumedAt.getD 0), fun t => endedBefore cutoff t.consumedAt⟩]
     remove := deletePasswordResetTokens },
   { name := "reauth_continuations"
     table := (·.reauthContinuations)
     branches := fun _ => [⟨(·.expiresAt), fun c => c.expiresAt < now⟩,
       ⟨(·.consumedAt.getD 0), fun c => c.consumedAt.isSome⟩]
     remove := deleteContinuations },
   { name := "oauth_client_assertion_jtis"
     table := (·.clientAssertionJtis)
     branches := fun _ => [⟨(·.expiresAt), fun j => j.expiresAt < now⟩]
     remove := deleteAssertionJtis },
   { name := "oauth_metadata_clients"
     table := (·.clients)
     branches := fun db => [⟨(·.metadataExpiresAt.getD 0), abandonedClient cutoff db⟩]
     remove := deleteClients }]

/-! ## The run -/

def SECONDS_PER_DAY : Nat := 24 * 60 * 60

def MAX_CLEANUP_BATCHES_PER_TABLE : Nat := 2

/-- The loop over one table: another batch while the last one was full. Returns the number of rows deleted. D1 is
taken to count in `meta.changes` the rows of the table named in the statement, and not those that a cascade deletes. -/
def cleanupTable (batchSize : Nat) (keys : Database → List String) (remove : List String → Database → Database) :
    Nat → App Nat
  | 0 => pure 0
  | batches + 1 => do
    let changes ← d1 fun db => ((keys db).length, remove (keys db) db)
    if changes < batchSize then pure changes
    else return changes + (← cleanupTable batchSize keys remove batches)

def runCleanupStatements (batchSize : Nat) : List CleanupStatement → App (List (String × Nat))
  | [] => pure []
  | statement :: statements => do
    let deleted ← cleanupTable batchSize (statement.keys batchSize) statement.remove MAX_CLEANUP_BATCHES_PER_TABLE
    return (statement.name, deleted) :: (← runCleanupStatements batchSize statements)

def cleanupTerminalRows (cutoff batchSize now : Nat) : App (List (String × Nat)) :=
  runCleanupStatements batchSize (cleanupStatements cutoff now)

/-! ## What is deleted -/

end Keyforge.Operations
