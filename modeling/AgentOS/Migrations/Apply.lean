import AgentOS.Migrations.Discover

/-!
# Applying migrations

`ensure_bootstrap`, `get_applied`, `apply_migration` and `apply_pending` of `database/migrate.py` on a connection to a
server that rolls DDL back with its transaction.  The outcome of every statement and of every commit is given: a call
may fail, a batch that fails may have done part of its work, and a call may raise although it was done.  A process that
dies at a call is one whose call fails and which does not use the connection again.
-/

namespace AgentOS.Migrations

/-- A row of `ops.schema_migrations`.  `id` and `applied_at`, which the database sets, are left out. -/
structure LedgerRow where
  name : String
  checksum : String
deriving DecidableEq

/-- The database: whether schema `ops` and table `ops.schema_migrations` exist, the rows of the table, and the batches
of migrations that have been executed. -/
structure Db where
  schema : Bool
  table : Bool
  ledger : List LedgerRow
  effects : List String
deriving DecidableEq

def Db.empty : Db := ⟨false, false, [], []⟩

/-- The outcome of a call of the driver. -/
inductive Outcome where
  | succeeds
  | fails (left : List String)
  | lost

/-- A connection: what is committed, what its transaction sees, and the outcomes of the calls to come.  Where they end,
calls succeed. -/
structure Session where
  committed : Db
  working : Db
  autocommit : Bool
  outcomes : List Outcome

namespace Session

def outcome (s : Session) : Outcome := s.outcomes.head?.getD .succeeds

def advance (s : Session) : Session := { s with outcomes := s.outcomes.tail }

/-- A statement is done. -/
def write (s : Session) (f : Db → Db) : Session :=
  { s with working := f s.working, committed := if s.autocommit then f s.working else s.committed }

/-- `cursor.execute` of a statement of the runner, and `cursor.fetchone`.  False where it raises, as below. -/
def execute (s : Session) (f : Db → Db) : Bool × Session :=
  match s.outcome with
  | .succeeds => (true, s.advance.write f)
  | .fails _ => (false, s.advance)
  | .lost => (false, s.advance.write f)

/-- `cursor.execute(batch)`. -/
def executeBatch (s : Session) (batch : String) : Bool × Session :=
  match s.outcome with
  | .succeeds => (true, s.advance.write fun db => { db with effects := db.effects ++ [batch] })
  | .fails left => (false, s.advance.write fun db => { db with effects := db.effects ++ left })
  | .lost => (false, s.advance.write fun db => { db with effects := db.effects ++ [batch] })

/-- `conn.commit()`. -/
def commit (s : Session) : Bool × Session :=
  match s.outcome with
  | .succeeds => (true, { s.advance with committed := s.working })
  | .fails _ => (false, s.advance)
  | .lost => (false, { s.advance with committed := s.working })

/-- `conn.rollback()`. -/
def rollback (s : Session) : Session := { s with working := s.committed }

end Session

/-- The next call, unless one has raised. -/
def andThen (r : Bool × Session) (f : Session → Bool × Session) : Bool × Session := if r.1 then f r.2 else r

/-- `ensure_bootstrap`. -/
def ensureBootstrap (s : Session) : Bool × Session :=
  andThen (s.execute id) fun s =>
  andThen (if s.working.schema then (true, s) else s.execute fun db => { db with schema := true }) fun s =>
  andThen (s.execute id) fun s =>
  andThen (if s.working.table then (true, s) else s.execute fun db => { db with table := true }) fun s =>
  s.commit

/-- `get_applied`; `none` where it raises. -/
def getApplied (s : Session) : Option (List LedgerRow) × Session :=
  match s.execute id with
  | (false, s) => (none, s)
  | (true, s) =>
    if s.working.table then
      match s.execute id with
      | (false, s) => (none, s)
      | (true, s) => (some s.working.ledger, s)
    else (some [], s)

/-- The loop over the batches. -/
def executeBatches : List String → Session → Bool × Session
  | [], s => (true, s)
  | batch :: batches, s => andThen (s.executeBatch batch) (executeBatches batches)

/-- `_INSERT_APPLIED_SQL`. -/
def insertApplied (m : Migration) (db : Db) : Db := { db with ledger := db.ledger ++ [⟨m.name, m.checksum⟩] }

/-- `_apply_migration_transactional`. -/
def applyMigrationTransactional (m : Migration) (s : Session) : Bool × Session :=
  let r := andThen (executeBatches (splitBatches m.text) s) fun s => s.execute (insertApplied m)
  if r.1 then r.2.commit else (false, r.2.rollback)

/-- `_apply_migration_autocommit`. -/
def applyMigrationAutocommit (m : Migration) (s : Session) : Bool × Session :=
  andThen s.commit fun s =>
    let r := andThen (executeBatches (splitBatches m.text) { s with autocommit := true }) fun s =>
      s.execute (insertApplied m)
    (r.1, { r.2 with autocommit := false })

/-- `apply_migration`. -/
def applyMigration (m : Migration) (s : Session) : Bool × Session :=
  if m.noTransaction then applyMigrationAutocommit m s else applyMigrationTransactional m s

/-- The loop of `apply_pending`: the names that this call has applied, or `none` where it raises. -/
def applyLoop (applied : List LedgerRow) : List Migration → List String → Session → Option (List String) × Session
  | [], now, s => (some now, s)
  | m :: ms, now, s =>
    if m.name ∈ applied.map LedgerRow.name then applyLoop applied ms now s
    else match applyMigration m s with
      | (true, s) => applyLoop applied ms (now ++ [m.name]) s
      | (false, s) => (none, s)

/-- What `apply_pending` returns or raises. -/
inductive Result where
  | applied (names : List String)
  | checksumMismatch (names : List String)
  | notDiscovered (error : DiscoveryError)
  | failed

/-- `m.name in applied and applied[m.name]["checksum"] != m.checksum`. -/
def isMismatch (applied : List LedgerRow) (m : Migration) : Bool :=
  (applied.reverse.find? fun row => row.name = m.name).any fun row => row.checksum ≠ m.checksum

variable (sha256 : List UInt8 → String) (decimal : Char → Option Nat)

/-- `apply_pending`. -/
def applyPending (files : List MigrationFile) (s : Session) : Result × Session :=
  match ensureBootstrap s with
  | (false, s) => (.failed, s)
  | (true, s) => match discoverMigrations sha256 decimal files with
    | .error error => (.notDiscovered error, s)
    | .ok migrations => match getApplied s with
      | (none, s) => (.failed, s)
      | (some applied, s) =>
        let mismatches := (migrations.filter (isMismatch applied)).map Migration.name
        if mismatches ≠ [] then (.checksumMismatch mismatches, s)
        else match applyLoop applied migrations [] s with
          | (none, s) => (.failed, s)
          | (some names, s) => (.applied names, s)

/-- A run of `apply_pending`: the directory as it is then, the outcomes of its calls, and whether it has a connection of
its own or uses that of the run before. -/
structure Attempt where
  files : List MigrationFile
  outcomes : List Outcome
  reconnects : Bool

/-- The connection that a run starts with.  Closing the one before rolls its transaction back. -/
def Session.begin (s : Session) (a : Attempt) : Session :=
  { committed := s.committed
    working := if a.reconnects then s.committed else s.working
    autocommit := false
    outcomes := a.outcomes }

/-- One run. -/
def attempt (s : Session) (a : Attempt) : Result × Session := applyPending sha256 decimal a.files (s.begin a)

/-- The connection behind a sequence of runs on a database that is new. -/
def afterAttempts (attempts : List Attempt) : Session :=
  attempts.foldl (fun s a => (attempt sha256 decimal s a).2) ⟨Db.empty, Db.empty, false, []⟩

end AgentOS.Migrations
