import OpenUnion.Interleave.Conduct
import OpenUnion.Code.Migrations
import Mathlib.Data.Nat.Basic

/-!
# Migrations are applied once and in order

A process that claims a file knows that all the files before it have been applied: it found
their rows at the start, found them when it tried to claim them, or has committed them
itself.  The claim is a row only one open transaction can hold, so the commit of a file
extends a prefix of the files by the next one.

* `migrations_in_order`: in every run of any number of processes, whatever fails or is killed
  and when, the applied files are a prefix of the sorted files, the SQL of a file commits at
  most once, and a call that returns leaves every file applied.
-/

namespace OpenUnion

open Interleave

variable {F : Type}

/-- The applied files are the files up to some place. -/
def AppliedPrefix (files : List F) (db : MigrationDb F) : Prop :=
  ∃ done, done <+: files ∧ ∀ f, db.applied f = true ↔ f ∈ done

/-- The files whose SQL has been committed since `db₀`: each once, and none that had been
applied before. -/
structure MigratedFrom (db₀ db : MigrationDb F) : Prop where
  once : db.ran.Nodup
  rows : ∀ f, db.applied f = true ↔ db₀.applied f = true ∨ f ∈ db.ran
  fresh : ∀ f ∈ db.ran, db₀.applied f = false

/-- The files of a list are applied. -/
def AllApplied (done : List F) (db : MigrationDb F) : Prop := ∀ f ∈ done, db.applied f = true

theorem AllApplied.snoc {done : List F} {file : F} {db : MigrationDb F}
    (h : AllApplied done db) (hfile : db.applied file = true) : AllApplied (done ++ [file]) db := by
  intro f hf
  obtain hf | hf := List.mem_append.mp hf
  · exact h f hf
  · obtain rfl := List.mem_singleton.mp hf
    exact hfile

/-- No row is ever removed. -/
def MigrationDb.Grows (db db' : MigrationDb F) : Prop :=
  ∀ f, db.applied f = true → db'.applied f = true

variable [LinearOrder F]

/-- The database after a file has been applied. -/
def MigrationDb.migrated (db : MigrationDb F) (file : F) : MigrationDb F where
  applied := Function.update db.applied file true
  ran := file :: db.ran

theorem MigrationDb.grows_migrated (db : MigrationDb F) (file : F) : db.Grows (db.migrated file) := by
  intro f hf
  by_cases hfile : f = file
  · subst hfile
    exact Function.update_self ..
  · exact (Function.update_of_ne hfile ..).trans hf

/-- The statement writes nothing. -/
def MigrationStmt.Reads : MigrationStmt F → Prop
  | .claim _ | .sql _ => False
  | _ => True

theorem MigrationStmt.Reads.write {s : MigrationStmt F} (h : s.Reads) (db : MigrationDb F) :
    s.write db = db := by
  cases s with
  | claim file => exact h.elim
  | sql file => exact h.elim
  | _ => rfl

/-- The commit applies a file that is not applied, after all the files before it. -/
def AppliesNext (files : List F) (file : F) (db db' : MigrationDb F) : Prop :=
  ∃ done rest, files = done ++ file :: rest ∧ AllApplied done db ∧ db.applied file = false ∧
    db' = db.migrated file

/-- Writes are made in transactions only, and a commit applies the next file. -/
def migrationConduct (files : List F) : Conduct (MigrationStmt F) F (MigrationDb F) F Unit where
  out _ s _ := s.Reads
  inside _ _ _ _ := True
  commit g file _ db' := AppliesNext files file g.world db'

section Prefix

variable {files : List F} {file : F} {db₀ db db' : MigrationDb F}

/-- The next file extends the prefix. -/
theorem AppliedPrefix.next (hfiles : files.Nodup) (h : AppliedPrefix files db)
    (hnext : AppliesNext files file db db') : AppliedPrefix files db' := by
  obtain ⟨known, ⟨later, hlater⟩, happlied⟩ := h
  obtain ⟨done, rest, hsplit, hdone, hfree, rfl⟩ := hnext
  have hunknown : file ∉ known := by
    intro hmem
    rw [(happlied file).mpr hmem] at hfree
    exact absurd hfree (by simp)
  -- both `known` and `done` are prefixes; the one applied has everything before `file`
  have hboth : known ++ later = done ++ file :: rest := hlater.trans hsplit
  have hknown : known = done := by
    obtain ⟨mid, rfl, hmid⟩ | ⟨mid, rfl, hmid⟩ := List.append_eq_append_iff.mp hboth
    · cases mid with
      | nil => simp
      | cons f mid =>
          have hf : f ∈ known := (happlied f).mp (hdone f (by simp))
          rw [← hlater, List.nodup_append] at hfiles
          exact absurd rfl (hfiles.2.2 f hf f (by simp [hmid]))
    · cases mid with
      | nil => simp
      | cons f mid =>
          obtain ⟨rfl, -⟩ : file = f ∧ rest = mid ++ later := by simpa using hmid
          exact absurd (by simp) hunknown
  subst hknown
  refine ⟨known ++ [file], ⟨rest, by simp [hsplit]⟩, fun f => ?_⟩
  by_cases hf : f = file
  · subst hf
    simp [MigrationDb.migrated]
  · simp [MigrationDb.migrated, hf, happlied f]

/-- The SQL of the next file commits for the first time. -/
theorem MigratedFrom.next (h : MigratedFrom db₀ db) (hnext : AppliesNext files file db db') :
    MigratedFrom db₀ db' := by
  obtain ⟨done, rest, -, -, hfree, rfl⟩ := hnext
  have hnew : db₀.applied file ≠ true ∧ file ∉ db.ran := by
    rw [← not_or]
    intro hold
    rw [(h.rows file).mpr hold] at hfree
    exact absurd hfree (by simp)
  refine ⟨List.nodup_cons.mpr ⟨hnew.2, h.once⟩, fun f => ?_, fun f hf => ?_⟩
  · by_cases hf : f = file
    · subst hf
      simp [MigrationDb.migrated]
    · simp [MigrationDb.migrated, hf, h.rows f]
  · obtain rfl | hf := List.mem_cons.mp hf
    · exact Bool.eq_false_iff.mpr hnew.1
    · exact h.fresh f hf

end Prefix

section Walk

variable {dir : MigrationDir F} {db₀ : MigrationDb F} {i : Nat} {done rest : List F} {file : F}

/-- The plan: whatever happens, an invariant of the commits. -/
def migrationPlan (dir : MigrationDir F) (db₀ : MigrationDb F) : Plan (migrator dir) where
  inv g := AppliedPrefix dir.files g.world ∧ MigratedFrom db₀ g.world
  grow := MigrationDb.Grows
  hold _ _ _ := True
  drift _ _ _ := True
  ok _ _ := true
  asked _ := True
  conduct _ := migrationConduct dir.files
  answers _ g _ := AllApplied dir.files g.world

/-- A process that has found the rows `found` and has seen to the files `done`. -/
abbrev AtFile (dir : MigrationDir F) (db₀ : MigrationDb F) (found : F → Bool) (done : List F)
    (σ : Stage (MigrationDb F) F Unit) : Prop :=
  σ.Knows (migrationPlan dir db₀).toTerms fun db =>
    (∀ f, found f = true → db.applied f = true) ∧ AllApplied done db

variable {found : F → Bool} {σ : Stage (MigrationDb F) F Unit}

/-- Applying a file, or finding that another process has applied it. -/
theorem applyMigration_does (hfiles : dir.files = done ++ file :: rest)
    (hσ : AtFile dir db₀ found done σ) :
    (applyMigration file).Does (migrator dir) (migrationPlan dir db₀).toTerms ⟨i, ()⟩
      (migrationConduct dir.files) (fun _ σ => AtFile dir db₀ found (done ++ [file]) σ)
      (fun _ _ => True) σ := by
  refine ⟨trivial, fun g busy _ _ _ => ⟨?_, ?_⟩⟩
  · rw [hσ.outside.1]
    trivial
  have hread := hσ.after (m := migrator dir) (a := ⟨i, ()⟩) (MigrationStmt.readFile file) busy g
  refine ⟨hread.outside.1, trivial, fun g₁ busy₁ hinv₁ hg₁ _ => ⟨trivial, ?_⟩⟩
  cases hclaimed : g₁.world.applied file with
  | true =>
      -- the row is there: nothing is written, and the file is applied
      have hresult : (migrator dir).engine.result (.claim file) busy₁ (seenBy (some id) g₁.world) =
          false := by
        simp [migrator, migrationEngine, MigrationStmt.result, seenBy, hclaimed]
      rw [hresult]
      refine ⟨⟨rfl, rfl⟩, fun x hinv hx => ?_⟩
      obtain ⟨⟨hfound, hdone⟩, -⟩ := hread.facts x hinv hx.1
      exact ⟨hfound, hdone.snoc (hx.2.1 file hclaimed)⟩
  | false =>
      have hresult : (migrator dir).engine.result (.claim file) busy₁ (seenBy (some id) g₁.world) =
          true := by
        simp [migrator, migrationEngine, MigrationStmt.result, seenBy, hclaimed]
      rw [hresult]
      refine ⟨trivial, fun g₂ busy₂ _ _ _ => ⟨trivial, trivial, fun g₃ hinv₃ hg₃ => ⟨?_, ?_⟩⟩⟩
      · -- the key has been locked since the claim, so the row is still missing
        have hsame : g₁.world.applied file = g₃.world.applied file :=
          (hg₃.pinned.1.2 file (by simp [migrator, migrationEngine, MigrationStmt.locks])).1
        obtain ⟨⟨-, hdone⟩, -⟩ := hread.facts g₃ hinv₃ hg₃.known.1.1
        exact ⟨_, rfl, done, rest, hfiles, hdone, hsame.symm.trans hclaimed, rfl⟩
      · refine ⟨⟨rfl, rfl⟩, fun x hinv hx => ?_⟩
        obtain ⟨⟨hfound, hdone⟩, -⟩ := hread.facts x hinv hx.1.1.1
        exact ⟨hfound, hdone.snoc (hx.2.2 file (Function.update_self ..))⟩

/-- The loop over the files that are left. -/
theorem applyMigrations_does {res : MigrationResult F} (hfiles : dir.files = done ++ rest)
    (hσ : AtFile dir db₀ found done σ) :
    (applyMigrations found rest res).Does (migrator dir) (migrationPlan dir db₀).toTerms ⟨i, ()⟩
      (migrationConduct dir.files) (fun _ σ => AtFile dir db₀ found dir.files σ)
      (fun _ _ => True) σ := by
  induction rest generalizing done res σ with
  | nil =>
      rw [List.append_nil] at hfiles
      subst hfiles
      exact hσ
  | cons file rest ih =>
      have hrest : dir.files = done ++ [file] ++ rest := by
        rw [hfiles, List.append_assoc, List.singleton_append]
      unfold applyMigrations
      by_cases hfile : found file = true
      · rw [if_pos hfile]
        exact ih hrest (hσ.mono fun db hdb => ⟨hdb.1, hdb.2.snoc (hdb.1 file hfile)⟩)
      · rw [if_neg hfile]
        refine does_bind.mpr ((applyMigration_does hfiles hσ).mono (fun didApply σ' hσ' => ?_)
          (fun _ _ h => h) (fun _ _ _ h => h) (fun _ _ _ _ h => h) fun _ _ _ _ h => h)
        exact ih hrest hσ'

/-- A call keeps to the conduct, and returns when every file is applied. -/
theorem runMigrations_does :
    (runMigrations dir.isSql).Does (migrator dir) (migrationPlan dir db₀).toTerms ⟨i, ()⟩
      (migrationConduct dir.files)
      (fun _ σ => σ.Entails (migrationPlan dir db₀).toTerms i fun g =>
        AllApplied dir.files g.world) (fun _ _ => True) .start := by
  refine ⟨trivial, fun g busy _ _ _ => ⟨trivial, trivial, fun g₁ busy₁ _ _ _ =>
    ⟨trivial, trivial, fun g₂ busy₂ _ _ _ => ⟨trivial, ?_⟩⟩⟩⟩
  have hstart : AtFile dir db₀ g₂.world.applied []
      ((((Stage.start : Stage (MigrationDb F) F Unit).after (migrator dir)
        (migrationPlan dir db₀).toTerms ⟨i, ()⟩ .createTable busy g).after (migrator dir)
        (migrationPlan dir db₀).toTerms ⟨i, ()⟩ .readdir busy₁ g₁).after (migrator dir)
        (migrationPlan dir db₀).toTerms ⟨i, ()⟩ .selectApplied busy₂ g₂) :=
    ⟨⟨rfl, rfl⟩, fun x _ hx => ⟨fun f hf => hx.2.1 f hf, by simp [AllApplied]⟩⟩
  refine (applyMigrations_does (dir.files.nil_append).symm hstart).mono (fun _ σ hσ => ?_)
    (fun _ _ h => h) (fun _ _ _ h => h) (fun _ _ _ _ h => h) fun _ _ _ _ h => h
  intro x hinv hx
  exact (hσ.facts x hinv hx.known).2

/-- A commit is the only step that changes the database. -/
theorem migration_step {l : Label (MigrationStmt F) MigrationStmt.Val F (MigrationResult F) Unit Empty}
    {L : List F} {g g' : Glob (MigrationDb F) Unit} (h : (migrationPlan dir db₀).Move l L g g') :
    g'.world = g.world ∨ ∃ file, AppliesNext dir.files file g.world g'.world := by
  obtain ⟨-, -, hstep⟩ := h
  cases hstep with
  | stmt a s busy _ _ _ hreads => exact Or.inl (MigrationStmt.Reads.write hreads g.world)
  | inner a s busy v _ _ _ => exact Or.inl rfl
  | commit a file L v _ _ hnext => exact Or.inr ⟨file, hnext⟩
  | reply a x _ _ _ => exact Or.inl rfl
  | env e _ => exact e.elim

theorem migrationPlan_valid (dir : MigrationDir F) (db₀ : MigrationDb F) :
    (migrationPlan dir db₀).Valid where
  grow_trans _ _ _ huv hvw f hf := hvw f (huv f hf)
  hold_trans _ _ _ _ _ _ := trivial
  drift_refl _ _ := trivial
  drift_trans _ _ _ _ _ _ := trivial
  grow_refl _ _ hf := hf
  spawn _ _ _ := trivial
  does i _ _ := runMigrations_does
  inv_step l L g g' h := by
    obtain ⟨happlied, hfrom⟩ := h.inv
    obtain hsame | ⟨file, hnext⟩ := migration_step h
    · change AppliedPrefix dir.files g'.world ∧ MigratedFrom db₀ g'.world
      rw [hsame]
      exact ⟨happlied, hfrom⟩
    · exact ⟨happlied.next dir.files_nodup hnext, hfrom.next hnext⟩
  grow_step l L g g' h := by
    obtain hsame | ⟨file, done, rest, -, -, -, hnew⟩ := migration_step h
    · rw [hsame]
      exact fun f hf => hf
    · rw [hnew]
      exact g.world.grows_migrated file
  hold_step _ _ _ _ _ _ _ := trivial
  drift_step _ _ _ _ _ _ _ := trivial

end Walk

section Runs

variable {dir : MigrationDir F} {db : MigrationDb F} {cs : List (Choice Unit Empty)}
  {c : Sys (MigrationStmt F) MigrationStmt.Val F MigrationError (MigrationResult F) Unit
    (MigrationDb F) F Unit}

/-- **Migrations apply exactly once and in order**: from a database whose applied files are a
prefix of the sorted files, in every run of any number of processes, with failures and kills
anywhere, the applied files stay a prefix, the SQL of each file commits at most once and not at
all if the file had been applied before, and a call that returns finds every file applied. -/
theorem migrations_in_order (hdb : AppliedPrefix dir.files db) (hran : db.ran = [])
    (hrun : (migrator dir).exec (fun _ _ => true) cs (Sys.start db) = some c) :
    AppliedPrefix dir.files c.glob.world ∧ MigratedFrom db c.glob.world ∧
      ∀ ch a res c', (migrator dir).move ch c = some (.event a (.reply res), c') →
        AllApplied dir.files c.glob.world := by
  have hstart : (migrationPlan dir db).inv ⟨[], db⟩ :=
    ⟨hdb, ⟨by simp [hran], by simp [hran], by simp [hran]⟩⟩
  obtain ⟨happlied, hfrom⟩ := (migrationPlan_valid dir db).exec_inv hstart hrun
  refine ⟨happlied, hfrom, fun ch a res c' hmove => ?_⟩
  obtain ⟨-, hquiet⟩ | ⟨b, x, L, heq, hstep⟩ | ⟨e, -, -⟩ :=
    (migrationPlan_valid dir db).exec_step hstart hrun hmove rfl
  · exact absurd rfl (hquiet a (.reply res))
  · injection heq with ha hx
    subst ha hx
    obtain ⟨-, -, hconducted⟩ := hstep
    generalize c.glob = g at *
    generalize c'.glob = g' at *
    cases hconducted with
    | reply _ _ _ _ hanswers => exact hanswers
  · exact e.elim

end Runs

/-- The step answers. -/
def answers {F : Type} :
    Label (MigrationStmt F) MigrationStmt.Val F (MigrationResult F) Unit Empty → Bool
  | .event _ (.reply _) => true
  | _ => false

/-- Two files, listed out of order. -/
def twoFiles : MigrationDir Nat where
  names := [2, 1]
  isSql _ := true
  distinct := by decide

/-- Two processes start; the first claims file 1 and its SQL fails, and the second, which has
waited, applies both files. -/
def failAndTakeOver : List (Choice Unit Empty) :=
  ([.spawn (), .spawn ()] : List (Choice Unit Empty)) ++
    @List.replicate (Choice Unit Empty) 3 (.run 0) ++
    @List.replicate (Choice Unit Empty) 3 (.run 1) ++
    @List.replicate (Choice Unit Empty) 3 (.run 0) ++
    @List.replicate (Choice Unit Empty) 2 (.run 1) ++
    ([.fault 0, .run 0] : List (Choice Unit Empty)) ++
    @List.replicate (Choice Unit Empty) 8 (.run 1)

theorem migrations_in_order_failAndTakeOver :
    ∃ c a res c', (migrator twoFiles).exec (fun _ _ => true) failAndTakeOver
        (Sys.start ⟨fun _ => false, []⟩) = some c ∧
      (migrator twoFiles).move (.run 1) c = some (.event a (.reply res), c') ∧
      AppliedPrefix twoFiles.files c.glob.world ∧ AllApplied twoFiles.files c.glob.world := by
  have h : ((migrator twoFiles).exec (fun _ _ => true) failAndTakeOver
      (Sys.start ⟨fun _ => false, []⟩)).any (fun c =>
        ((migrator twoFiles).move (.run 1) c).any fun r => answers r.1) = true := by decide
  obtain ⟨c, hrun, h⟩ := (Option.any_eq_true _ _).mp h
  obtain ⟨⟨l, c'⟩, hmove, h⟩ := (Option.any_eq_true _ _).mp h
  unfold answers at h
  split at h
  · rename_i a res hl
    obtain rfl : l = .event a (.reply res) := hl
    have hstart : AppliedPrefix twoFiles.files ⟨fun _ => false, []⟩ :=
      ⟨[], List.nil_prefix, by simp⟩
    obtain ⟨happlied, -, hreplies⟩ := migrations_in_order hstart rfl hrun
    exact ⟨c, a, res, c', hrun, hmove, happlied, hreplies (.run 1) a res c' hmove⟩
  · exact absurd h (by simp)

end OpenUnion
