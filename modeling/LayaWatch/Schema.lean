import LayaWatch.Rollup
import LayaWatch.Lib.Dict

/-!
# The database

The records the program hands to SQLite and the tables it keeps them in, column
for column after `store/migrations`. A table with a primary key that is
replaced on conflict (`metric_rollup`, `settings`) is a dictionary; the others are
lists of rows in insertion order. `tags` and `meta` are JSON text in the database and
stand here as the value that was serialised (`json.dumps` escapes everything
outside ASCII, so that text can always be bound).
-/

namespace LayaWatch

/-- A value of a column without a fixed type. -/
inductive SqlValue where
  /-- NULL -/
  | null
  /-- INTEGER -/
  | integer (n : ℤ)
  /-- REAL -/
  | real (x : ℚ)
  /-- TEXT -/
  | text (s : PyStr)
  deriving DecidableEq

/-- The columns of `traces`. -/
structure TraceColumns where
  /-- `id` -/
  id : PyStr
  /-- `ts_start` -/
  tsStart : ℚ
  /-- `duration_ms` -/
  durationMs : ℚ
  /-- `route` -/
  route : PyStr
  /-- `method` -/
  method : PyStr
  /-- `status` -/
  status : ℤ
  /-- `model` -/
  model : Option PyStr := none
  /-- `route_reason` -/
  routeReason : Option PyStr := none
  /-- `lang` -/
  lang : Option PyStr := none
  /-- `queue_ms` -/
  queueMs : ℚ := 0
  /-- `forward_ms` -/
  forwardMs : Option ℚ := none
  /-- `state_bytes` -/
  stateBytes : Option ℤ := none
  /-- `question_count` -/
  questionCount : Option ℤ := none
  /-- `client_key_id` -/
  clientKeyId : Option PyStr := none
  /-- `session_id` -/
  sessionId : Option PyStr := none
  /-- `error_code` -/
  errorCode : Option PyStr := none
  /-- `error_message` -/
  errorMessage : Option PyStr := none
  /-- `tags` -/
  tags : List PyStr := []
  /-- `meta` -/
  metadata : Fields := []

/-- The columns of `observations`. -/
structure Observation where
  /-- `id` -/
  id : PyStr
  /-- `trace_id` -/
  traceId : PyStr
  /-- `parent_id` -/
  parentId : Option PyStr
  /-- `name` -/
  name : PyStr
  /-- `type` -/
  type : PyStr
  /-- `start_ms` -/
  startMs : ℚ
  /-- `duration_ms` -/
  durationMs : ℚ
  /-- `status` -/
  status : PyStr
  /-- `model` -/
  model : Option PyStr
  /-- `input` -/
  input : Option PyStr
  /-- `output` -/
  output : Option PyStr
  /-- `meta` -/
  metadata : Option Fields

/-- The columns of `scores`. -/
structure Score where
  /-- `id` -/
  id : PyStr
  /-- `trace_id` -/
  traceId : PyStr
  /-- `name` -/
  name : PyStr
  /-- `value` -/
  value : SqlValue
  /-- `data_type` -/
  dataType : PyStr
  /-- `source` -/
  source : PyStr
  /-- `comment` -/
  comment : Option PyStr
  /-- `ts` -/
  ts : ℚ

/-- A finished request, as the recorder delivers it (`recorder.Trace`). -/
structure Trace extends TraceColumns where
  /-- `observations` -/
  observations : List Observation := []
  /-- `scores` -/
  scores : List Score := []

/-- A row of `traces`. -/
structure TraceRow extends TraceColumns where
  /-- `rowid` -/
  rowid : ℕ

/-- An entry dict of `layawatch.log`. -/
structure LogEntry where
  /-- `ts` -/
  ts : ℚ
  /-- `level` -/
  level : PyStr
  /-- `source` -/
  source : PyStr
  /-- `trace_id` -/
  traceId : Option PyStr
  /-- `message` -/
  message : PyStr

/-- A row of `log_entry`. -/
structure LogRow extends LogEntry where
  /-- `id` -/
  id : ℕ

/-- Roles, weakest first (`ROLES`). -/
inductive Role where
  /-- may read -/
  | viewer
  /-- may change what is not an identity -/
  | admin
  /-- may do everything -/
  | owner
  deriving DecidableEq, Repr

/-- A row of `users`. -/
structure UserRow where
  /-- `id` -/
  id : PyStr
  /-- `email` -/
  email : PyStr
  /-- `name` -/
  name : PyStr
  /-- `role` -/
  role : Role
  /-- `password_hash` -/
  passwordHash : PyStr
  /-- `created_at` -/
  createdAt : ℚ
  /-- `last_login_at` -/
  lastLoginAt : Option ℚ := none
  /-- `disabled` -/
  disabled : Bool := false
  /-- `must_change` -/
  mustChange : Bool := false
  deriving DecidableEq

/-- A row of `sessions`. -/
structure SessionRow where
  /-- `id`, the hashed token -/
  id : PyStr
  /-- `user_id` -/
  userId : PyStr
  /-- `created_at` -/
  createdAt : ℚ
  /-- `expires_at` -/
  expiresAt : ℚ
  /-- `last_seen` -/
  lastSeen : ℚ
  /-- `user_agent` -/
  userAgent : Option PyStr := none
  /-- `ip` -/
  ip : Option PyStr := none
  /-- `revoked` -/
  revoked : Bool := false
  deriving DecidableEq

/-- The `result` column of `audit_log`. -/
inductive AuditResult where
  /-- the action was done -/
  | ok
  /-- the action was refused -/
  | denied
  /-- the action failed -/
  | error
  deriving DecidableEq, Repr

/-- What `audit` inserts. -/
structure AuditEntry where
  /-- `ts` -/
  ts : ℚ
  /-- `actor_id` -/
  actorId : Option PyStr
  /-- `actor` -/
  actor : PyStr
  /-- `action` -/
  action : PyStr
  /-- `target` -/
  target : Option PyStr
  /-- `result` -/
  result : AuditResult := .ok
  /-- `meta` -/
  metadata : Option Fields := none

/-- A row of `audit_log`. -/
structure AuditRow extends AuditEntry where
  /-- `id` -/
  id : ℕ

/-- A row of `api_keys`. -/
structure ApiKeyRow where
  /-- `id` -/
  id : PyStr
  /-- `name` -/
  name : PyStr
  /-- `prefix` -/
  keyPrefix : PyStr
  /-- `hash` -/
  hash : PyStr
  /-- `created_at` -/
  createdAt : ℚ
  /-- `last_used` -/
  lastUsed : Option ℚ := none
  /-- `revoked_at` -/
  revokedAt : Option ℚ := none
  /-- `request_count` -/
  requestCount : ℕ := 0
  /-- `rate_limit_per_min` -/
  rateLimitPerMin : Option ℤ := none
  /-- `burst` -/
  burst : Option ℤ := none
  /-- `prev_hash` -/
  prevHash : Option PyStr := none
  /-- `prev_prefix` -/
  prevPrefix : Option PyStr := none
  /-- `prev_expires_at` -/
  prevExpiresAt : Option ℚ := none
  deriving DecidableEq

/-- A row of `settings`, but for its `key`. -/
structure SettingRow where
  /-- `value` -/
  value : PyStr
  /-- `updated_at` -/
  updatedAt : ℚ
  /-- `updated_by` -/
  updatedBy : Option PyStr := none
  deriving DecidableEq

/-- The primary key of `metric_rollup`. -/
abbrev RollupPk : Type := RollupStep × RollupKey

/-- The database. -/
structure Db where
  /-- `traces` -/
  traces : List TraceRow := []
  /-- `observations` -/
  observations : List Observation := []
  /-- `scores` -/
  scores : List Score := []
  /-- `metric_rollup` -/
  metricRollup : Dict RollupPk Stats := Dict.empty
  /-- `log_entry` -/
  logEntry : List LogRow := []
  /-- the last `id` of `log_entry` that AUTOINCREMENT gave out -/
  logSeq : ℕ := 0
  /-- `users` -/
  users : List UserRow := []
  /-- `sessions` -/
  sessions : List SessionRow := []
  /-- `audit_log` -/
  auditLog : List AuditRow := []
  /-- the last `id` of `audit_log` that AUTOINCREMENT gave out -/
  auditSeq : ℕ := 0
  /-- `api_keys` -/
  apiKeys : List ApiKeyRow := []
  /-- `settings` -/
  settings : Dict PyStr SettingRow := Dict.empty

/-- A migrated database nothing was written to. -/
def Db.fresh : Db := {}

/-! ## Rollup rows -/

/-- `load_rollup_row`. -/
def loadRollupRow (db : Db) (step : RollupStep) (key : RollupKey) : Option Stats :=
  db.metricRollup.get (step, key)

/-- The 10 s rows in the window of `key` at `step`, in some order. -/
def childRows (db : Db) (step : RollupStep) (key : RollupKey) : List Stats :=
  (db.metricRollup.entries.filter fun e =>
    decide (e.1.1 = .ten ∧ key.Covers step e.1.2)).map Prod.snd

/-- `upsert_rollup` of `rollup_row(..)`. -/
def upsertRollup (step : RollupStep) (key : RollupKey) (stats : Stats) (db : Db) : Db :=
  { db with metricRollup := db.metricRollup.set (step, key) stats }

@[simp] theorem loadRollupRow_upsert_self (step : RollupStep) (key : RollupKey) (stats : Stats)
    (db : Db) : loadRollupRow (upsertRollup step key stats db) step key = some stats :=
  Dict.get_set_self _ _ _

theorem loadRollupRow_upsert_ne {step step' : RollupStep} {key key' : RollupKey} {stats : Stats}
    {db : Db} (h : (step', key') ≠ (step, key)) :
    loadRollupRow (upsertRollup step key stats db) step' key' = loadRollupRow db step' key' :=
  Dict.get_set_ne _ _ h

end LayaWatch
