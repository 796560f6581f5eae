import OpenUnion.Interleave.Machine
import Mathlib.Data.List.Sort

/-!
# Migrations

`runMigrations` applies the files of a directory in order, each in a transaction of its own.
A transaction claims its file first, by a row of `schema_migrations` that only one process
can insert, and then executes the file.  Any number of processes may run it at once.

The database is kept as far as the migrations are concerned: which files have a row, and
whose SQL has been committed.  A file is a list of statements of its transaction, and may
fail anywhere.
-/

namespace OpenUnion

open Interleave

/-- The migrations directory.  Its entries have different names. -/
structure MigrationDir (F : Type) where
  names : List F
  isSql : F → Bool
  distinct : names.Nodup

section Files

variable {F : Type} [LinearOrder F]

/-- `(await readdir(dir)).filter((f) => f.endsWith('.sql')).sort()`. -/
def migrationFiles (isSql : F → Bool) (names : List F) : List F :=
  (names.filter isSql).insertionSort (· ≤ ·)

/-- The files of a directory in the order in which they are applied. -/
def MigrationDir.files (dir : MigrationDir F) : List F := migrationFiles dir.isSql dir.names

theorem MigrationDir.files_nodup (dir : MigrationDir F) : dir.files.Nodup :=
  (List.perm_insertionSort _ _).nodup_iff.mpr (dir.distinct.filter _)

end Files

/-- The rows of `schema_migrations`, and the files whose SQL has been committed, newest
first. -/
structure MigrationDb (F : Type) where
  applied : F → Bool
  ran : List F

/-- The statements, and what is read from the directory. -/
inductive MigrationStmt (F : Type) where
  /-- `CREATE TABLE IF NOT EXISTS schema_migrations`. -/
  | createTable
  | readdir
  | selectApplied
  /-- Read the file and take a connection. -/
  | readFile (file : F)
  /-- `INSERT ... ON CONFLICT DO NOTHING RETURNING filename`: whether a row was inserted. -/
  | claim (file : F)
  | sql (file : F)

/-- What a statement answers. -/
@[reducible] def MigrationStmt.Val {F : Type} : MigrationStmt F → Type
  | .readdir => List F
  | .selectApplied => F → Bool
  | .claim _ => Bool
  | .createTable | .readFile _ | .sql _ => Unit

/-- A migration has failed, or the directory or the database could not be reached. -/
structure MigrationError where
  deriving Inhabited

/-- A part of `runMigrations`; commits are labelled with their file. -/
abbrev Migrate (F : Type) := Prog (MigrationStmt F) MigrationStmt.Val F MigrationError

/-- What `runMigrations` returns. -/
structure MigrationResult (F : Type) where
  applied : List F
  skipped : List F

/-- Claim a file and execute it: whether this process has applied it.  A process that waits
for another one's claim goes on when that transaction has ended. -/
def applyMigration {F : Type} (file : F) : Migrate F Bool :=
  (perform (MigrationStmt.readFile file)).bind fun _ =>
    .begin <| .op (.claim file)
      (fun claimed =>
        if claimed then
          .op (.sql file) (fun _ => .commit file (.ret true) abort) abort
        else .rollback (.ret false))
      abort
where
  /-- `await client.query('ROLLBACK'); throw err`. -/
  abort : Migrate F Bool := .rollback (.fail default)

/-- The loop over the files, `applied` being the rows found at the start. -/
def applyMigrations {F : Type} (applied : F → Bool) :
    List F → MigrationResult F → Migrate F (MigrationResult F)
  | [], res => .ret res
  | file :: rest, res =>
      if applied file then applyMigrations applied rest { res with skipped := res.skipped ++ [file] }
      else (applyMigration file).bind fun didApply =>
        applyMigrations applied rest <|
          if didApply then { res with applied := res.applied ++ [file] }
          else { res with skipped := res.skipped ++ [file] }

/-- `runMigrations`. -/
def runMigrations {F : Type} [LinearOrder F] (isSql : F → Bool) : Migrate F (MigrationResult F) := do
  perform MigrationStmt.createTable
  let names ← perform MigrationStmt.readdir
  let applied ← perform MigrationStmt.selectApplied
  applyMigrations applied (migrationFiles isSql names) ⟨[], []⟩

section Engine

variable {F : Type} [DecidableEq F]

namespace MigrationStmt

/-- What a statement answers in the state it sees. -/
def result (names : List F) : (s : MigrationStmt F) → MigrationDb F → s.Val
  | .readdir, _ => names
  | .selectApplied, seen => seen.applied
  | .claim file, seen => ! seen.applied file
  | .createTable, _ | .readFile _, _ | .sql _, _ => ()

/-- The primary key a claim waits for. -/
def locks : MigrationStmt F → List F
  | .claim file => [file]
  | _ => []

def write : MigrationStmt F → MigrationDb F → MigrationDb F
  | .claim file, db => { db with applied := Function.update db.applied file true }
  | .sql file, db => { db with ran := file :: db.ran }
  | _, db => db

end MigrationStmt

/-- The meaning of the statements, for a directory with these entries. -/
def migrationEngine (names : List F) : Engine (MigrationStmt F) MigrationStmt.Val (MigrationDb F) F where
  result s _ seen := s.result names seen
  locks s _ _ := s.locks
  write s _ _ db := s.write db
  effect _ _ _ db := db
  same file db db' := db.applied file = db'.applied file
  same_refl _ _ := rfl
  same_trans _ _ _ _ := Eq.trans
  write_same s _ _ db file h := by
    cases s with
    | claim file' =>
        have hne : file ≠ file' := by simpa [MigrationStmt.locks] using h
        simp [MigrationStmt.write, hne]
    | _ => rfl
  effect_same _ _ _ _ _ := rfl

end Engine

/-- Processes that call `runMigrations` on one directory and one database. -/
def migrator {F : Type} [LinearOrder F] (dir : MigrationDir F) :
    Machine (MigrationStmt F) MigrationStmt.Val F MigrationError (MigrationResult F) Unit
      (MigrationDb F) F Empty Unit where
  engine := migrationEngine dir.names
  code _ _ := runMigrations dir.isSql
  env e := e.elim
  env_same e := e.elim
  note _ _ _ := []

end OpenUnion
