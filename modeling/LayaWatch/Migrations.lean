import LayaWatch.JsonText
import LayaWatch.Lib.Resume
import Mathlib.Data.List.Sort

/-!
# Migrations

`migrate` of `store/db.py`: the files of a directory that are not recorded yet are applied in
the order of their names, each in a transaction of its own together with the row that records
it. A statement of a file is what it does to a database, in an open transaction.

Files that keep away from `schema_migrations` are applied as an atomic start of what is pending,
and a later call goes on where an earlier one stopped (`migrations_atomic`). A file that deletes the
rows of others is recorded, and they no longer are (`bookkeeping_deleted`).
-/

namespace LayaWatch

namespace Migrations

universe u

variable {S : Type u}

/-- A row of `schema_migrations`. -/
structure Row where
  /-- `version` -/
  version : ℤ
  /-- `name` -/
  name : PyStr
  /-- `applied_at` -/
  appliedAt : PyStr
  deriving DecidableEq

/-- A database: `schema_migrations`, if it exists, and everything else. -/
structure Database (S : Type u) where
  /-- every other table -/
  schema : S
  /-- the rows of `schema_migrations` -/
  rows : Option (List Row)

/-- What running statements comes to. -/
inductive Ran (S : Type u) where
  /-- they were run -/
  | done (db : Database S)
  /-- one raised; what the transaction has then, if it is still open -/
  | raised (left : Option (Database S))

/-- A statement that is no transaction control. -/
abbrev Statement (S : Type u) : Type u := Database S → Ran S

/-- A file of the directory. -/
structure File (S : Type u) where
  /-- `path.name` -/
  name : PyStr
  /-- the statements of its text, unless `read_text` raises -/
  statements : Option (List (Statement S))

/-- `conn.autocommit`. -/
inductive Autocommit where
  /-- `LEGACY_TRANSACTION_CONTROL` -/
  | legacy
  /-- `True` -/
  | on
  /-- `False` -/
  | off
  deriving DecidableEq

/-- A connection. -/
structure Conn (S : Type u) where
  /-- the database -/
  committed : Database S
  /-- the database as the open transaction has it -/
  transaction : Option (Database S)
  /-- `autocommit` -/
  autocommit : Autocommit

/-- How `migrate` raises. -/
inductive MigrateError where
  /-- `ValueError`: the name does not start with a version number -/
  | noVersion (name : PyStr)
  /-- `SchemaTooNewError` -/
  | schemaTooNew (current : ℤ) (newest : ℕ)
  /-- what reading a file, a statement or `COMMIT` raised -/
  | raised
  deriving DecidableEq

/-! ## Databases -/

namespace Database

/-- The rows of `schema_migrations`; none if there is no such table. -/
def listed (db : Database S) : List Row := db.rows.getD []

/-- `recorded`. -/
def recorded (db : Database S) : List ℤ := db.listed.map (·.version)

/-- `schema_version`. -/
def version (db : Database S) : ℤ := db.recorded.max?.getD 0

end Database

/-- `executescript`: the statements one after the other, in the open transaction. -/
def executescript : List (Statement S) → Statement S
  | [], db => .done db
  | statement :: rest, db =>
    match statement db with
    | .done next => executescript rest next
    | .raised left => .raised left

/-- `_BOOKKEEPING_DDL`. -/
def createBookkeeping : Statement S := fun db => .done { db with rows := some db.listed }

/-- `INSERT INTO schema_migrations`. -/
def insertRow (row : Row) : Statement S := fun db =>
  if row.version ∈ db.recorded then .raised (some db)
  else .done { db with rows := db.rows.map (· ++ [row]) }

/-- What is run in the transaction of a file. -/
def fileScript (statements : List (Statement S)) (row : Row) : List (Statement S) :=
  statements ++ [createBookkeeping, insertRow row]

/-! ## Connections -/

namespace Conn

/-- The database as the connection reads it. -/
def view (conn : Conn S) : Database S := conn.transaction.getD conn.committed

/-- `conn.autocommit = mode`. -/
def setAutocommit (conn : Conn S) (mode : Autocommit) : Conn S :=
  match mode with
  | .legacy => { conn with autocommit := .legacy }
  | .on => { committed := conn.view, transaction := none, autocommit := .on }
  | .off => { conn with transaction := some conn.view, autocommit := .off }

/-- There is no open transaction; a connection in the mode `False` always has one. -/
structure Idle (conn : Conn S) : Prop where
  /-- none is open -/
  transaction : conn.transaction = none
  /-- the mode is not `False` -/
  autocommit : conn.autocommit ≠ .off

end Conn

/-! ## `migrate` -/

section

variable (versionOf : PyStr → Option ℕ) (deferred : Database S → Database S → Bool)

/-- The transaction of a file, on a connection in the mode `True`: from `BEGIN` to `COMMIT`. The
latter raises if a deferred constraint is violated. -/
def migrateFile (now : ℕ → PyStr) (conn : Conn S) (version : ℕ) (file : File S) :
    Except MigrateError Unit × Conn S :=
  match file.statements, conn.transaction with
  | none, _ => (.error .raised, conn)
  | some _, some _ => (.error .raised, conn)
  | some statements, none =>
    let row : Row := ⟨version, file.name, now version⟩
    match executescript (fileScript statements row) conn.committed with
    -- `ROLLBACK`, unless the statement did that
    | .raised _ => (.error .raised, { conn with transaction := none })
    | .done db =>
      if deferred conn.committed db then (.error .raised, { conn with transaction := some db })
      else (.ok (), { conn with committed := db, transaction := none })

/-- The loop over the pending files. -/
def migrateFiles (now : ℕ → PyStr) (applied : List ℕ) (conn : Conn S) :
    List (ℕ × File S) → Except MigrateError (List ℕ) × Conn S
  | [] => (.ok applied, conn)
  | (version, file) :: rest =>
    match migrateFile deferred now conn version file with
    | (.ok (), next) => migrateFiles now (applied ++ [version]) next rest
    | (.error e, next) => (.error e, next)

/-- `sorted(migrations_dir.glob("*.sql"))`. -/
def sortedFiles (dir : List (File S)) : List (File S) :=
  dir.insertionSort fun f g => f.name ≤ g.name

/-- `migrations`, of files that all have a version. -/
def migrations (dir : List (File S)) : List (ℕ × File S) :=
  (sortedFiles dir).filterMap fun file => (versionOf file.name).map fun version => (version, file)

/-- `newest`. -/
def newest (dir : List (File S)) : ℕ := ((migrations versionOf dir).map (·.1)).max?.getD 0

/-- `pending`. -/
def pending (dir : List (File S)) (db : Database S) : List (ℕ × File S) :=
  (migrations versionOf dir).filter fun m => !db.recorded.contains (m.1 : ℤ)

/-- `migrate`; `now version` is the time at which the row of a version is made. -/
def migrate (now : ℕ → PyStr) (dir : List (File S)) (conn : Conn S) :
    Except MigrateError (List ℕ) × Conn S :=
  match (sortedFiles dir).find? fun file => (versionOf file.name).isNone with
  | some file => (.error (.noVersion file.name), conn)
  | none =>
    if (newest versionOf dir : ℤ) < conn.view.version then
      (.error (.schemaTooNew conn.view.version (newest versionOf dir)), conn)
    else
      match pending versionOf dir conn.view with
      | [] => (.ok [], conn)
      | first :: rest =>
        let ran := migrateFiles deferred now [] (conn.setAutocommit .on) (first :: rest)
        (ran.1, ran.2.setAutocommit conn.autocommit)

end

/-! ## Files that keep away from the bookkeeping -/

/-- Running a statement puts another schema and leaves `schema_migrations`, or it raises. -/
def Acts (db : Database S) (ran : Ran S) : Option S → Prop
  | some schema => ran = .done { db with schema := schema }
  | none => ∃ left, ran = .raised left

/-- A statement that neither reads nor changes `schema_migrations`. -/
def Apart (statement : Statement S) : Prop :=
  ∃ effect : S → Option S, ∀ db, Acts db (statement db) (effect db.schema)

namespace File

/-- What the statements of a file make of everything but `schema_migrations`; nothing if one of
them raises. -/
def effect (file : File S) (schema : S) : Option S :=
  match file.statements with
  | none => none
  | some statements =>
    match executescript statements ⟨schema, none⟩ with
    | .done db => some db.schema
    | .raised _ => none

/-- No statement of the file reads or changes `schema_migrations`. -/
def Apart (file : File S) : Prop :=
  ∀ statements, file.statements = some statements → ∀ s ∈ statements, Migrations.Apart s

/-- `COMMIT` does not raise after the file. -/
def Commits (deferred : Database S → Database S → Bool) (file : File S) : Prop :=
  ∀ statements row before after, file.statements = some statements →
    executescript (fileScript statements row) before = .done after →
    deferred before after = false

end File

section

variable {deferred : Database S → Database S → Bool} {statements : List (Statement S)}
  {file : File S} {db : Database S}

theorem executescript_done {next : Database S} (h : executescript statements db = .done next)
    (more : List (Statement S)) :
    executescript (statements ++ more) db = executescript more next := by
  induction statements generalizing db with
  | nil =>
    obtain rfl := Ran.done.inj h
    rfl
  | cons statement statements ih =>
    rw [executescript] at h
    rw [List.cons_append, executescript]
    cases hfirst : statement db with
    | done middle =>
      rw [hfirst] at h
      exact ih h
    | raised left =>
      rw [hfirst] at h
      cases h

theorem executescript_raised {left : Option (Database S)}
    (h : executescript statements db = .raised left) (more : List (Statement S)) :
    executescript (statements ++ more) db = .raised left := by
  induction statements generalizing db with
  | nil => cases h
  | cons statement statements ih =>
    rw [executescript] at h
    rw [List.cons_append, executescript]
    cases hfirst : statement db with
    | done middle =>
      rw [hfirst] at h
      exact ih h
    | raised left' =>
      rw [hfirst] at h
      exact h

/-- A script of statements apart is apart. -/
theorem executescript_apart (h : ∀ s ∈ statements, Apart s) : Apart (executescript statements) := by
  induction statements with
  | nil => exact ⟨some, fun _ => rfl⟩
  | cons statement statements ih =>
    obtain ⟨first, hfirst⟩ := h statement List.mem_cons_self
    obtain ⟨others, hothers⟩ := ih fun s hs => h s (List.mem_cons_of_mem _ hs)
    refine ⟨fun schema => (first schema).bind others, fun db => ?_⟩
    have hstep := hfirst db
    dsimp only
    rw [executescript]
    cases heffect : first db.schema with
    | none =>
      rw [heffect] at hstep
      obtain ⟨left, hraised⟩ := hstep
      rw [hraised]
      exact ⟨left, rfl⟩
    | some schema =>
      rw [heffect] at hstep
      rw [show statement db = .done { db with schema := schema } from hstep, Option.bind_some]
      exact hothers { db with schema := schema }

/-- A file apart does to every database what it does to one without bookkeeping. -/
theorem executescript_effect (hapart : file.Apart) (hstatements : file.statements = some statements)
    (db : Database S) : Acts db (executescript statements db) (file.effect db.schema) := by
  obtain ⟨effect, heffect⟩ := executescript_apart (hapart statements hstatements)
  have hbare := heffect ⟨db.schema, none⟩
  have heq : file.effect db.schema = effect db.schema := by
    unfold File.effect
    rw [hstatements]
    dsimp only at hbare ⊢
    cases hschema : effect db.schema with
    | none =>
      rw [hschema] at hbare
      obtain ⟨left, hraised⟩ := hbare
      rw [hraised]
    | some schema =>
      rw [hschema] at hbare
      rw [show executescript statements ⟨db.schema, none⟩ = .done ⟨schema, none⟩ from hbare]
  rw [heq]
  exact heffect db

/-- The row of a version that is not recorded is put behind the others. -/
theorem executescript_bookkeeping {row : Row} (hnew : row.version ∉ db.recorded) :
    executescript [createBookkeeping, insertRow row] db =
      .done { db with rows := some (db.listed ++ [row]) } := by
  have hnew' : row.version ∉ ({ db with rows := some db.listed } : Database S).recorded := hnew
  simp only [executescript, createBookkeeping, insertRow]
  rw [if_neg hnew']
  rfl

/-- **A file apart that is not recorded is applied together with its row.** -/
theorem migrateFile_applies (hapart : file.Apart) (hcommits : file.Commits deferred)
    {conn : Conn S} {version : ℕ} {schema : S} (hidle : conn.transaction = none)
    (hnew : (version : ℤ) ∉ conn.committed.recorded)
    (heffect : file.effect conn.committed.schema = some schema) (now : ℕ → PyStr) :
    migrateFile deferred now conn version file = (.ok (), { conn with
      committed := ⟨schema, some (conn.committed.listed ++
        [⟨version, file.name, now version⟩])⟩ }) := by
  cases hstatements : file.statements with
  | none =>
    rw [File.effect, hstatements] at heffect
    cases heffect
  | some statements =>
    have hscript := executescript_effect hapart hstatements conn.committed
    rw [heffect] at hscript
    have hfile : executescript (fileScript statements ⟨version, file.name, now version⟩)
        conn.committed = .done ⟨schema, some (conn.committed.listed ++
          [⟨version, file.name, now version⟩])⟩ :=
      (executescript_done hscript _).trans (executescript_bookkeeping hnew)
    have hdeferred := hcommits statements _ _ _ hstatements hfile
    simp [migrateFile, hstatements, hidle, hfile, hdeferred]

/-- Otherwise nothing is left of it. -/
theorem migrateFile_raises (hapart : file.Apart) {conn : Conn S} {version : ℕ}
    (hidle : conn.transaction = none) (heffect : file.effect conn.committed.schema = none)
    (now : ℕ → PyStr) :
    migrateFile deferred now conn version file = (.error .raised, conn) := by
  cases hstatements : file.statements with
  | none => simp [migrateFile, hstatements]
  | some statements =>
    have hscript := executescript_effect hapart hstatements conn.committed
    rw [heffect] at hscript
    obtain ⟨left, hraised⟩ := hscript
    have hfile : executescript (fileScript statements ⟨version, file.name, now version⟩)
        conn.committed = .raised left := executescript_raised hraised _
    obtain ⟨committed, transaction, autocommit⟩ := conn
    obtain rfl := hidle
    simp [migrateFile, hstatements, hfile]

/-! ## The loop -/

/-- The row of a pending file. -/
def rowOf (now : ℕ → PyStr) (m : ℕ × File S) : Row := ⟨m.1, m.2.name, now m.1⟩

/-- A pending file, as a job on everything but `schema_migrations`. -/
def fileEffect (m : ℕ × File S) (schema : S) : Option S := m.2.effect schema

/-- `done` is applied and recorded, and nothing of `rest` is. -/
structure AppliesStart (now : ℕ → PyStr) (before : Database S) (done rest : List (ℕ × File S))
    (after : Database S) : Prop where
  /-- the files are applied one after the other -/
  schema : done.foldlM (fun schema m => fileEffect m schema) before.schema = some after.schema
  /-- each is recorded, and nothing else is -/
  listed : after.listed = before.listed ++ done.map (rowOf now)
  /-- without such files nothing changes -/
  unchanged : done = [] → after = before
  /-- the next file fails -/
  stopped : ∀ failing later, rest = failing :: later → fileEffect failing after.schema = none

/-- What is returned, or raised if files are left. -/
def outcome (applied : List ℕ) (done : List (ℕ × File S)) :
    List (ℕ × File S) → Except MigrateError (List ℕ)
  | [] => .ok (applied ++ done.map (·.1))
  | _ :: _ => .error .raised

/-- Where the files stop is told by their effects. -/
theorem AppliesStart.runUntil {now : ℕ → PyStr} {before after : Database S}
    {done rest : List (ℕ × File S)} (h : AppliesStart now before done rest after) :
    Resume.runUntil fileEffect (done ++ rest) before.schema = (after.schema, rest) := by
  rw [Resume.runUntil_resume h.schema]
  cases rest with
  | nil => rfl
  | cons failing later => rw [Resume.runUntil, h.stopped failing later rfl]

theorem recorded_of_listed {before after : Database S} {rows : List Row}
    (h : after.listed = before.listed ++ rows) :
    after.recorded = before.recorded ++ rows.map (·.version) := by
  rw [Database.recorded, h, List.map_append]
  rfl

/-- What the loop does with files that are not recorded. -/
theorem migrateFiles_start {jobs : List (ℕ × File S)} (hapart : ∀ m ∈ jobs, m.2.Apart)
    (hcommits : ∀ m ∈ jobs, m.2.Commits deferred) (hdistinct : (jobs.map (·.1)).Nodup)
    {conn : Conn S} (hidle : conn.transaction = none)
    (hnew : ∀ m ∈ jobs, (m.1 : ℤ) ∉ conn.committed.recorded) (now : ℕ → PyStr)
    (applied : List ℕ) :
    ∃ done rest after, jobs = done ++ rest ∧ AppliesStart now conn.committed done rest after ∧
      migrateFiles deferred now applied conn jobs =
        (outcome applied done rest, { conn with committed := after }) := by
  induction jobs generalizing conn applied with
  | nil =>
    refine ⟨[], [], conn.committed, rfl,
      ⟨rfl, (List.append_nil _).symm, fun _ => rfl, fun _ _ h => nomatch h⟩, ?_⟩
    simp [migrateFiles, outcome]
  | cons job jobs ih =>
    obtain ⟨version, file⟩ := job
    have hfile := hapart _ List.mem_cons_self
    cases heffect : file.effect conn.committed.schema with
    | none =>
      -- the first file fails, and the loop ends where it began
      refine ⟨[], (version, file) :: jobs, conn.committed, rfl,
        ⟨rfl, (List.append_nil _).symm, fun _ => rfl, ?_⟩, ?_⟩
      · intro failing later heq
        obtain ⟨rfl, rfl⟩ := List.cons.inj heq
        exact heffect
      · rw [migrateFiles, migrateFile_raises hfile hidle heffect]
        rfl
    | some schema =>
      have hstep := migrateFile_applies hfile (hcommits _ List.mem_cons_self) hidle
        (hnew _ List.mem_cons_self) heffect now
      rw [List.map_cons, List.nodup_cons] at hdistinct
      generalize hnext : ({ conn with committed := ⟨schema, some (conn.committed.listed ++
        [⟨version, file.name, now version⟩])⟩ } : Conn S) = next at hstep
      have hlisted : next.committed.listed =
          conn.committed.listed ++ [rowOf now (version, file)] := by
        rw [← hnext]
        rfl
      have hnewRest : ∀ m ∈ jobs, (m.1 : ℤ) ∉ next.committed.recorded := by
        intro m hm hmem
        rw [recorded_of_listed hlisted] at hmem
        rcases List.mem_append.mp hmem with hmem | hmem
        · exact hnew m (List.mem_cons_of_mem _ hm) hmem
        · have hsame : m.1 = version := Int.ofNat_inj.mp (List.mem_singleton.mp hmem)
          exact hdistinct.1 (List.mem_map.mpr ⟨m, hm, hsame⟩)
      have hidleNext : next.transaction = none := by
        rw [← hnext]
        exact hidle
      obtain ⟨done, rest, after, hsplit, hstart, hloop⟩ :=
        ih (fun m hm => hapart m (List.mem_cons_of_mem _ hm))
          (fun m hm => hcommits m (List.mem_cons_of_mem _ hm)) hdistinct.2 hidleNext hnewRest
          (applied ++ [version])
      refine ⟨(version, file) :: done, rest, after, by rw [hsplit, List.cons_append],
        ⟨?_, ?_, fun h => (List.cons_ne_nil _ _ h).elim, hstart.stopped⟩, ?_⟩
      · rw [List.foldlM_cons, show fileEffect (version, file) conn.committed.schema = some schema
          from heffect]
        rw [← hnext] at hstart
        exact hstart.schema
      · rw [hstart.listed, hlisted, List.append_assoc, List.singleton_append, List.map_cons]
      · rw [migrateFiles, hstep]
        dsimp only
        rw [hloop, ← hnext]
        cases rest with
        | nil => simp [outcome]
        | cons failing later => rfl

/-! ## What is pending -/

variable {versionOf : PyStr → Option ℕ} {dir : List (File S)}

theorem mem_sortedFiles : file ∈ sortedFiles dir ↔ file ∈ dir :=
  (List.perm_insertionSort _ _).mem_iff

theorem mem_migrations {m : ℕ × File S} :
    m ∈ migrations versionOf dir ↔ m.2 ∈ dir ∧ versionOf m.2.name = some m.1 := by
  obtain ⟨version, file⟩ := m
  unfold migrations
  rw [List.mem_filterMap]
  constructor
  · rintro ⟨found, hmem, hversion⟩
    obtain ⟨v, hv, heq⟩ := Option.map_eq_some_iff.mp hversion
    obtain ⟨rfl, rfl⟩ := Prod.mk.inj heq
    exact ⟨mem_sortedFiles.mp hmem, hv⟩
  · rintro ⟨hmem, hversion⟩
    exact ⟨file, mem_sortedFiles.mpr hmem, by rw [hversion]; rfl⟩

/-- Files with distinct versions have distinct versions when they are sorted. -/
theorem migrations_nodup (hdistinct : (dir.map fun file => versionOf file.name).Nodup) :
    ((migrations versionOf dir).map (·.1)).Nodup := by
  have hsorted : ((sortedFiles dir).map fun file => versionOf file.name).Nodup :=
    (((List.perm_insertionSort _ dir).map _).nodup_iff).mpr hdistinct
  have hversions : (migrations versionOf dir).map (·.1) =
      ((sortedFiles dir).map fun file => versionOf file.name).filterMap id := by
    unfold migrations
    rw [List.map_filterMap, List.filterMap_map]
    refine List.filterMap_congr fun file _ => ?_
    simp [Function.comp_def]
  rw [hversions]
  exact hsorted.filterMap fun a a' b hb hb' => by
    rw [Option.mem_def] at hb hb'
    exact hb.trans hb'.symm

/-- The pending files are in the order of their names. -/
theorem pending_sorted : (pending versionOf dir db).Pairwise fun a b => a.2.name ≤ b.2.name := by
  have hsorted : (sortedFiles dir).Pairwise fun f g => f.name ≤ g.name :=
    List.pairwise_insertionSort _ _
  unfold pending migrations
  refine List.Pairwise.filter _ ?_
  rw [List.pairwise_filterMap]
  refine hsorted.imp fun {f g} hle a ha b hb => ?_
  obtain ⟨v, -, rfl⟩ := Option.map_eq_some_iff.mp ha
  obtain ⟨w, -, rfl⟩ := Option.map_eq_some_iff.mp hb
  exact hle

theorem mem_pending {m : ℕ × File S} : m ∈ pending versionOf dir db ↔
    (m.2 ∈ dir ∧ versionOf m.2.name = some m.1) ∧ (m.1 : ℤ) ∉ db.recorded := by
  unfold pending
  rw [List.mem_filter, mem_migrations, Bool.not_eq_true', List.contains_eq_mem,
    decide_eq_false_iff_not]

/-! ## A call -/

theorem find_versionless (hversions : ∀ file ∈ dir, versionOf file.name ≠ none) :
    ((sortedFiles dir).find? fun file => (versionOf file.name).isNone) = none := by
  rw [List.find?_eq_none]
  intro file hfile hnone
  exact hversions file (mem_sortedFiles.mp hfile) (Option.isNone_iff_eq_none.mp hnone)

theorem Conn.Idle.view {conn : Conn S} (h : conn.Idle) : conn.view = conn.committed := by
  rw [Conn.view, h.transaction]
  rfl

/-- The mode is put back as it was. -/
theorem Conn.Idle.restore {conn : Conn S} (h : conn.Idle) (after : Database S) :
    ({ conn.setAutocommit .on with committed := after } : Conn S).setAutocommit conn.autocommit =
      { conn with committed := after } := by
  obtain ⟨committed, transaction, autocommit⟩ := conn
  obtain ⟨htransaction, hmode⟩ := h
  obtain rfl := htransaction
  cases autocommit with
  | legacy => rfl
  | on => rfl
  | off => exact absurd rfl hmode

/-- A database that is too new is refused. -/
theorem migrate_tooNew (hversions : ∀ file ∈ dir, versionOf file.name ≠ none) {conn : Conn S}
    (hidle : conn.Idle) (hnewer : (newest versionOf dir : ℤ) < conn.committed.version)
    (now : ℕ → PyStr) :
    migrate versionOf deferred now dir conn =
      (.error (.schemaTooNew conn.committed.version (newest versionOf dir)), conn) := by
  rw [migrate, find_versionless hversions, hidle.view]
  exact if_pos hnewer

/-- With nothing pending, nothing changes. -/
theorem migrate_nothing (hversions : ∀ file ∈ dir, versionOf file.name ≠ none) {conn : Conn S}
    (hidle : conn.Idle) (hguard : conn.committed.version ≤ newest versionOf dir)
    (hnone : pending versionOf dir conn.committed = []) (now : ℕ → PyStr) :
    migrate versionOf deferred now dir conn = (.ok [], conn) := by
  rw [migrate, find_versionless hversions, hidle.view]
  dsimp only
  rw [if_neg (Int.not_lt.mpr hguard), hnone]

/-- **A call applies and records an atomic start of what is pending.** -/
theorem migrate_start (hversions : ∀ file ∈ dir, versionOf file.name ≠ none)
    (hdistinct : (dir.map fun file => versionOf file.name).Nodup)
    (hapart : ∀ file ∈ dir, file.Apart) (hcommits : ∀ file ∈ dir, file.Commits deferred)
    {conn : Conn S} (hidle : conn.Idle)
    (hguard : conn.committed.version ≤ newest versionOf dir) (now : ℕ → PyStr) :
    ∃ done rest after, pending versionOf dir conn.committed = done ++ rest ∧
      AppliesStart now conn.committed done rest after ∧
      migrate versionOf deferred now dir conn =
        (outcome [] done rest, { conn with committed := after }) := by
  have hpending : ((pending versionOf dir conn.committed).map (·.1)).Nodup :=
    (migrations_nodup hdistinct).sublist (List.filter_sublist.map _)
  have hcommitted : (conn.setAutocommit .on).committed = conn.committed := hidle.view
  obtain ⟨done, rest, after, hsplit, hstart, hloop⟩ :=
    migrateFiles_start (fun m hm => hapart m.2 (mem_pending.mp hm).1.1)
      (fun m hm => hcommits m.2 (mem_pending.mp hm).1.1) hpending
      (show (conn.setAutocommit .on).transaction = none from rfl)
      (fun m hm => by
        rw [hcommitted]
        exact (mem_pending.mp hm).2) now []
  rw [hcommitted] at hstart
  refine ⟨done, rest, after, hsplit, hstart, ?_⟩
  rw [migrate, find_versionless hversions, hidle.view]
  dsimp only
  rw [if_neg (Int.not_lt.mpr hguard)]
  cases hjobs : pending versionOf dir conn.committed with
  | nil =>
    obtain ⟨rfl, rfl⟩ := List.append_eq_nil_iff.mp (hsplit.symm.trans hjobs)
    rw [hstart.unchanged rfl]
    rfl
  | cons first jobs =>
    rw [hjobs] at hloop
    dsimp only
    rw [hloop, hidle.restore]

/-! ## A file is repaired -/

/-- The file of a name, with other statements. -/
def repair (name : PyStr) (statements : List (Statement S)) (file : File S) : File S :=
  if file.name = name then { file with statements := some statements } else file

theorem repair_name (name : PyStr) (statements : List (Statement S)) (file : File S) :
    (repair name statements file).name = file.name := by
  unfold repair
  split <;> rfl

/-- The jobs of a directory with a repaired file. -/
theorem migrations_repair (name : PyStr) (statements : List (Statement S)) :
    migrations versionOf (dir.map (repair name statements)) =
      (migrations versionOf dir).map fun m => (m.1, repair name statements m.2) := by
  have hsorted : sortedFiles (dir.map (repair name statements)) =
      (sortedFiles dir).map (repair name statements) := by
    unfold sortedFiles
    refine (List.map_insertionSort _ (fun f g : File S => f.name ≤ g.name) _ _ ?_).symm
    intro f _ g _
    rw [repair_name, repair_name]
  unfold migrations
  rw [hsorted, List.filterMap_map, List.map_filterMap]
  refine List.filterMap_congr fun file _ => ?_
  simp [Function.comp_def, repair_name]

theorem newest_repair (name : PyStr) (statements : List (Statement S)) :
    newest versionOf (dir.map (repair name statements)) = newest versionOf dir := by
  unfold newest
  rw [migrations_repair, List.map_map]
  rfl

/-- What is pending then: the same files, repaired. -/
theorem pending_repair (name : PyStr) (statements : List (Statement S)) (db : Database S) :
    pending versionOf (dir.map (repair name statements)) db =
      (pending versionOf dir db).map fun m => (m.1, repair name statements m.2) := by
  unfold pending
  rw [migrations_repair, List.filter_map]
  rfl

/-- What a call has applied is not pending any more. -/
theorem pending_rest {now : ℕ → PyStr} {before after : Database S} {done rest : List (ℕ × File S)}
    (hdistinct : (dir.map fun file => versionOf file.name).Nodup)
    (hsplit : pending versionOf dir before = done ++ rest)
    (hstart : AppliesStart now before done rest after) :
    pending versionOf dir after = rest := by
  have hversions : (done.map (rowOf now)).map (·.version) = done.map fun m => (m.1 : ℤ) := by
    rw [List.map_map]
    rfl
  have hfilter : pending versionOf dir after =
      (pending versionOf dir before).filter fun m => !(done.map (·.1)).contains m.1 := by
    unfold pending
    rw [List.filter_filter]
    refine List.filter_congr fun m _ => ?_
    have hmem : (m.1 : ℤ) ∈ done.map (fun m => (m.1 : ℤ)) ↔ m.1 ∈ done.map (·.1) := by
      simp only [List.mem_map, Int.ofNat_inj]
    rw [recorded_of_listed hstart.listed, hversions]
    simp only [List.contains_eq_mem, List.mem_append, hmem, Bool.decide_or, Bool.not_or]
    exact Bool.and_comm _ _
  have hnodup : ((done ++ rest).map (·.1)).Nodup := by
    rw [← hsplit]
    exact (migrations_nodup hdistinct).sublist (List.filter_sublist.map _)
  rw [List.map_append, List.nodup_append] at hnodup
  rw [hfilter, hsplit, List.filter_append, List.filter_eq_nil_iff.mpr, List.nil_append,
    List.filter_eq_self]
  · intro m hm
    rw [Bool.not_eq_true', List.contains_eq_mem, decide_eq_false_iff_not]
    exact fun hdone => hnodup.2.2 _ hdone _ (List.mem_map_of_mem hm) rfl
  · intro m hm
    simp [List.mem_map_of_mem hm]

/-- A version is at most a bound if all that are recorded are. -/
theorem version_le {n : ℕ} : db.version ≤ n ↔ ∀ v ∈ db.recorded, v ≤ (n : ℤ) := by
  unfold Database.version
  cases hmax : db.recorded.max? with
  | none =>
    rw [List.max?_eq_none_iff] at hmax
    simp [hmax]
  | some v => exact List.max?_le_iff hmax

/-- What a call applies does not make the database too new. -/
theorem AppliesStart.version_le {now : ℕ → PyStr} {before after : Database S}
    {done rest : List (ℕ × File S)} (h : AppliesStart now before done rest after)
    (hsplit : pending versionOf dir before = done ++ rest)
    (hguard : before.version ≤ newest versionOf dir) :
    after.version ≤ newest versionOf dir := by
  have hmigrations : ∀ m ∈ migrations versionOf dir, m.1 ≤ newest versionOf dir := by
    intro m hm
    have hmem := List.mem_map_of_mem (f := (·.1)) hm
    unfold newest
    cases hmax : ((migrations versionOf dir).map (·.1)).max? with
    | none =>
      rw [List.max?_eq_none_iff] at hmax
      rw [hmax] at hmem
      cases hmem
    | some top => exact (List.max?_le_iff hmax).mp le_rfl _ hmem
  rw [Migrations.version_le] at hguard ⊢
  intro v hv
  rw [recorded_of_listed h.listed] at hv
  rcases List.mem_append.mp hv with hv | hv
  · exact hguard v hv
  · rw [List.map_map] at hv
    obtain ⟨m, hm, rfl⟩ := List.mem_map.mp hv
    have hpending : m ∈ pending versionOf dir before := by
      rw [hsplit]
      exact List.mem_append_left _ hm
    exact Int.ofNat_le.mpr (hmigrations m (List.mem_of_mem_filter hpending))

/-- Other files of distinct versions stay as they are. -/
theorem repair_others {jobs : List (ℕ × File S)} {failing : ℕ × File S}
    (hversions : ∀ m ∈ jobs, versionOf m.2.name = some m.1)
    (hfailing : versionOf failing.2.name = some failing.1) (hne : failing.1 ∉ jobs.map (·.1))
    (statements : List (Statement S)) :
    jobs.map (fun m => (m.1, repair failing.2.name statements m.2)) = jobs := by
  conv_rhs => rw [← List.map_id jobs]
  refine List.map_congr_left fun m hm => ?_
  have hname : m.2.name ≠ failing.2.name := by
    intro heq
    have hsame : some m.1 = some failing.1 := by
      rw [← hversions m hm, heq, hfailing]
    exact hne (Option.some.inj hsame ▸ List.mem_map_of_mem hm)
  rw [repair, if_neg hname]
  rfl

/-- The jobs that are left, with the file that failed repaired. -/
theorem map_repair_rest {done later : List (ℕ × File S)} {failing : ℕ × File S}
    (hdistinct : (dir.map fun file => versionOf file.name).Nodup)
    (hsplit : pending versionOf dir db = done ++ failing :: later)
    (statements : List (Statement S)) :
    done.map (fun m => (m.1, repair failing.2.name statements m.2)) = done ∧
      (failing :: later).map (fun m => (m.1, repair failing.2.name statements m.2)) =
        (failing.1, { failing.2 with statements := some statements }) :: later := by
  have hversions : ∀ m ∈ done ++ failing :: later, versionOf m.2.name = some m.1 := by
    intro m hm
    rw [← hsplit] at hm
    exact (mem_pending.mp hm).1.2
  have hnodup : ((done ++ failing :: later).map (·.1)).Nodup := by
    rw [← hsplit]
    exact (migrations_nodup hdistinct).sublist (List.filter_sublist.map _)
  rw [List.map_append, List.map_cons, List.nodup_append, List.nodup_cons] at hnodup
  obtain ⟨-, ⟨hlater, -⟩, hdone⟩ := hnodup
  have hfailing := hversions failing (List.mem_append_right _ List.mem_cons_self)
  constructor
  · refine repair_others (fun m hm => hversions m (List.mem_append_left _ hm)) hfailing ?_ _
    exact fun hmem => hdone _ hmem _ List.mem_cons_self rfl
  · rw [List.map_cons, repair_others (fun m hm => hversions m
      (List.mem_append_right _ (List.mem_cons_of_mem _ hm))) hfailing hlater, repair, if_pos rfl]

/-- A property of the files, after one is repaired. -/
theorem forall_repair {P : File S → Prop} (name : PyStr) (statements : List (Statement S))
    (h : ∀ file ∈ dir, P file) (hrepaired : ∀ file ∈ dir, file.name = name →
      P { file with statements := some statements }) :
    ∀ file ∈ dir.map (repair name statements), P file := by
  intro file hfile
  obtain ⟨old, hold, rfl⟩ := List.mem_map.mp hfile
  unfold repair
  split
  · next hname => exact hrepaired old hold hname
  · exact h old hold

/-- Two calls come to what one would have come to. -/
theorem same_end {now now' now'' : ℕ → PyStr} {before after last whole : Database S}
    {done more left done' left' : List (ℕ × File S)}
    (hfirst : done.foldlM (fun schema m => fileEffect m schema) before.schema = some after.schema)
    (hlisted : after.listed = before.listed ++ done.map (rowOf now))
    (hsecond : AppliesStart now' after more left last)
    (hwhole : AppliesStart now'' before done' left' whole)
    (hjobs : done' ++ left' = done ++ (more ++ left)) :
    done' = done ++ more ∧ left' = left ∧ whole.schema = last.schema ∧
      whole.listed.map (fun row => (row.version, row.name)) =
        last.listed.map fun row => (row.version, row.name) := by
  have hend : (whole.schema, left') = (last.schema, left) := by
    rw [← hwhole.runUntil, hjobs, Resume.runUntil_resume hfirst, hsecond.runUntil]
  obtain ⟨hschema, rfl⟩ := Prod.mk.inj hend
  have hdone : done' = done ++ more := by
    rw [← List.append_assoc] at hjobs
    exact List.append_cancel_right hjobs
  refine ⟨hdone, rfl, hschema, ?_⟩
  rw [hwhole.listed, hsecond.listed, hlisted, hdone]
  simp [rowOf, Function.comp_def]

end

/-- **Migrations apply as an atomic start of what is pending**, of files that keep away from
`schema_migrations` and whose transactions can be committed: up to the first that fails, and
once it is repaired a later call goes on from there as if there had been one call. -/
theorem migrations_atomic (versionOf : PyStr → Option ℕ)
    (deferred : Database S → Database S → Bool) (dir : List (File S))
    (hversions : ∀ file ∈ dir, versionOf file.name ≠ none)
    (hdistinct : (dir.map fun file => versionOf file.name).Nodup)
    (hapart : ∀ file ∈ dir, file.Apart) (hcommits : ∀ file ∈ dir, file.Commits deferred)
    (conn : Conn S) (hidle : conn.Idle) (now : ℕ → PyStr) :
    ((newest versionOf dir : ℤ) < conn.committed.version →
      migrate versionOf deferred now dir conn =
        (.error (.schemaTooNew conn.committed.version (newest versionOf dir)), conn)) ∧
    (conn.committed.version ≤ newest versionOf dir →
      (pending versionOf dir conn.committed = [] →
        migrate versionOf deferred now dir conn = (.ok [], conn)) ∧
      (pending versionOf dir conn.committed).Pairwise (fun a b => a.2.name ≤ b.2.name) ∧
      ∃ done rest after, pending versionOf dir conn.committed = done ++ rest ∧
        AppliesStart now conn.committed done rest after ∧
        migrate versionOf deferred now dir conn =
          (outcome [] done rest, { conn with committed := after }) ∧
        ∀ failing later statements, rest = failing :: later → (∀ s ∈ statements, Apart s) →
          File.Commits deferred ⟨failing.2.name, some statements⟩ → ∀ now' now'',
          ∃ more left last whole,
            (failing.1, { failing.2 with statements := some statements }) :: later =
              more ++ left ∧
            AppliesStart now' after more left last ∧
            migrate versionOf deferred now' (dir.map (repair failing.2.name statements))
              { conn with committed := after } =
                (outcome [] more left, { conn with committed := last }) ∧
            migrate versionOf deferred now'' (dir.map (repair failing.2.name statements)) conn =
              (outcome [] (done ++ more) left, { conn with committed := whole }) ∧
            whole.schema = last.schema ∧
            whole.listed.map (fun row => (row.version, row.name)) =
              last.listed.map fun row => (row.version, row.name)) := by
  refine ⟨fun hnewer => migrate_tooNew hversions hidle hnewer now, fun hguard => ?_⟩
  refine ⟨fun hnone => migrate_nothing hversions hidle hguard hnone now, pending_sorted, ?_⟩
  obtain ⟨done, rest, after, hsplit, hstart, hcall⟩ :=
    migrate_start hversions hdistinct hapart hcommits hidle hguard now
  refine ⟨done, rest, after, hsplit, hstart, hcall, ?_⟩
  intro failing later statements hrest hstatements hrepaired now' now''
  -- the repaired directory meets what is asked of the files too
  have hversions' := forall_repair failing.2.name statements hversions
    fun file hfile _ => hversions file hfile
  have hapart' := forall_repair failing.2.name statements hapart
    fun file _ _ statements' heq => Option.some.inj heq ▸ hstatements
  have hcommits' := forall_repair failing.2.name statements hcommits
    fun file _ _ => hrepaired
  have hdistinct' : ((dir.map (repair failing.2.name statements)).map
      fun file => versionOf file.name).Nodup := by
    rw [List.map_map]
    simpa only [Function.comp_def, repair_name] using hdistinct
  have hnewest : newest versionOf (dir.map (repair failing.2.name statements)) =
      newest versionOf dir := newest_repair failing.2.name statements
  rw [hrest] at hsplit hstart
  obtain ⟨hdone, hlater⟩ := map_repair_rest hdistinct hsplit statements
  have hidle' : ({ conn with committed := after } : Conn S).Idle := ⟨hidle.1, hidle.2⟩
  -- the call that goes on, and the one call that would have come to the same
  obtain ⟨more, left, last, hsplit', hsecond, hcall'⟩ :=
    migrate_start hversions' hdistinct' hapart' hcommits' hidle'
      (by rw [hnewest]; exact hstart.version_le hsplit hguard) now'
  obtain ⟨done', left', whole, hsplit'', hwhole, hcall''⟩ :=
    migrate_start hversions' hdistinct' hapart' hcommits' hidle
      (by rw [hnewest]; exact hguard) now''
  rw [pending_repair, pending_rest hdistinct hsplit hstart, hlater] at hsplit'
  rw [pending_repair, hsplit, List.map_append, hdone, hlater, hsplit'] at hsplit''
  obtain ⟨rfl, rfl, hschema, hrows⟩ :=
    same_end hstart.schema hstart.listed hsecond hwhole hsplit''.symm
  exact ⟨more, left', last, whole, hsplit', hsecond, hcall', hcall'', hschema, hrows⟩

/-- The version of a name with ASCII digits. -/
def asciiVersion (name : PyStr) : Option ℕ := JsonText.readNat (name.takeWhile CodePoint.isDigit)

/-- A new database, on a connection that was just opened. -/
def freshConn : Conn ℕ := ⟨⟨0, none⟩, none, .legacy⟩

/-- A file that counts, and one that has a statement which raises. -/
def countThenRaise : List (File ℕ) :=
  [⟨py "1.sql", some [fun db => .done { db with schema := db.schema + 1 }]⟩,
    ⟨py "2.sql", some [fun db => .raised (some db)]⟩]

/-- The first of them is applied, and the second is left. -/
theorem migrations_atomic_one :
    ∃ done rest after,
      pending asciiVersion countThenRaise freshConn.committed = done ++ rest ∧
      AppliesStart (fun _ => py "now") freshConn.committed done rest after ∧
      (migrate asciiVersion (fun _ _ => false) (fun _ => py "now") countThenRaise freshConn).2 =
        { freshConn with committed := after } ∧ after.schema = 1 := by
  have hapart : ∀ file ∈ countThenRaise, file.Apart := by
    intro file hfile statements heq s hs
    rcases List.mem_cons.mp hfile with rfl | hfile
    · obtain rfl := Option.some.inj heq
      obtain rfl := List.mem_singleton.mp hs
      exact ⟨fun n => some (n + 1), fun _ => rfl⟩
    · obtain rfl := List.mem_singleton.mp hfile
      obtain rfl := Option.some.inj heq
      obtain rfl := List.mem_singleton.mp hs
      exact ⟨fun _ => none, fun db => ⟨some db, rfl⟩⟩
  have hversions : ∀ file ∈ countThenRaise, asciiVersion file.name ≠ none := by
    intro file hfile
    rcases List.mem_cons.mp hfile with rfl | hfile
    · decide
    · obtain rfl := List.mem_singleton.mp hfile
      decide
  obtain ⟨-, -, done, rest, after, hsplit, hstart, hcall, -⟩ :=
    (migrations_atomic asciiVersion (fun _ _ => false) countThenRaise hversions (by decide) hapart
      (fun _ _ _ _ _ _ _ _ => rfl) freshConn ⟨rfl, by decide⟩ fun _ => py "now").2 (by decide)
  refine ⟨done, rest, after, hsplit, hstart, by rw [hcall], ?_⟩
  have hschema : (migrate asciiVersion (fun _ _ => false) (fun _ => py "now") countThenRaise
      freshConn).2.committed.schema = 1 := by decide
  rw [hcall] at hschema
  exact hschema

/-- A file without statements, and one that deletes the rows of `schema_migrations`. -/
def deleteRows : List (File ℕ) :=
  [⟨py "1.sql", some []⟩,
    ⟨py "2.sql", some [fun db => .done { db with rows := db.rows.map fun _ => [] }]⟩]

/-- Files may change what is recorded of others. -/
theorem bookkeeping_deleted :
    ¬∀ (versionOf : PyStr → Option ℕ) (dir : List (File ℕ)) (conn : Conn ℕ) (now : ℕ → PyStr),
      conn.Idle → (∀ file ∈ dir, versionOf file.name ≠ none) →
      (dir.map fun file => versionOf file.name).Nodup →
      conn.committed.version ≤ newest versionOf dir →
      ∃ done rest, pending versionOf dir conn.committed = done ++ rest ∧
        (∀ m ∈ done, (m.1 : ℤ) ∈
          (migrate versionOf (fun _ _ => false) now dir conn).2.committed.recorded) ∧
        (∀ m ∈ rest, (m.1 : ℤ) ∉
          (migrate versionOf (fun _ _ => false) now dir conn).2.committed.recorded) ∧
        (∀ versions, (migrate versionOf (fun _ _ => false) now dir conn).1 = .ok versions →
          rest = []) := by
  intro h
  have hversions : ∀ file ∈ deleteRows, asciiVersion file.name ≠ none := by
    intro file hfile
    rcases List.mem_cons.mp hfile with rfl | hfile
    · decide
    · obtain rfl := List.mem_singleton.mp hfile
      decide
  obtain ⟨done, rest, hsplit, hdone, -, hcomplete⟩ :=
    h asciiVersion deleteRows freshConn (fun _ => py "now") ⟨rfl, by decide⟩ hversions
      (by decide) (by decide)
  obtain rfl := hcomplete [1, 2] rfl
  rw [List.append_nil] at hsplit
  have hfirst : ∃ m ∈ done, (m.1 : ℤ) = 1 := by
    rw [← hsplit]
    exact ⟨_, List.mem_cons_self, rfl⟩
  obtain ⟨m, hm, hone⟩ := hfirst
  have hrecorded := hdone m hm
  rw [hone] at hrecorded
  revert hrecorded
  decide

end Migrations

end LayaWatch
