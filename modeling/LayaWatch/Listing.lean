import LayaWatch.Query
import Mathlib.Data.Prod.Lex

/-!
# The paged listings

`list_traces` and `logs_list` of `store/queries.py` and the audit listing of
`api/audit.py` (for a client its gate lets through). Each filters a table, sorts it,
and pages through it with a cursor.
-/

namespace LayaWatch

/-- What the schema promises of the keys of the tables. -/
structure Db.Keyed (db : Db) : Prop where
  /-- `traces.id` is a primary key -/
  traces : (db.traces.map fun row => row.id).Nodup
  /-- of text -/
  text : ∀ row ∈ db.traces, row.id.encodable = true
  /-- `log_entry.id` is a primary key -/
  logs : (db.logEntry.map LogRow.id).Nodup
  /-- of integers -/
  logIds : ∀ row ∈ db.logEntry, row.id < 2 ^ 63
  /-- `audit_log.id` is a primary key -/
  audit : (db.auditLog.map AuditRow.id).Nodup
  /-- of integers -/
  auditIds : ∀ row ∈ db.auditLog, row.id < 2 ^ 63

/-- When a request is served: the time, and what is committed when each of its
statements runs. -/
structure Moment where
  /-- `time.time()` -/
  now : ℚ
  /-- what the page is read from -/
  page : Db
  /-- what the span counts are read from -/
  spans : Db
  /-- what the total is read from -/
  total : Db
  /-- the page is read from tables with keys -/
  keyed : page.Keyed

/-- The pagination envelope. -/
structure ListPage (α : Type) where
  /-- `items` -/
  items : List α
  /-- `next_cursor` -/
  nextCursor : Option PyStr
  /-- `total_estimate` -/
  totalEstimate : ℕ

/-! ## Traces -/

/-- `TRACE_FILTERS`. -/
def traceFilters : List PyStr :=
  [py "route", py "status", py "model", py "q", py "min_duration_ms", py "tag", py "since",
    py "until", py "range", py "limit", py "cursor", py "order"]

/-- `_TRACE_LIST_COLUMNS`. -/
structure TraceSummary where
  /-- `id` -/
  id : PyStr
  /-- `ts_start` -/
  tsStart : ℚ
  /-- `duration_ms` -/
  durationMs : ℚ
  /-- `route` -/
  route : PyStr
  /-- `method` -/
  method : PyStr
  /-- `status` -/
  status : ℤ
  /-- `model` -/
  model : Option PyStr
  /-- `route_reason` -/
  routeReason : Option PyStr
  /-- `queue_ms` -/
  queueMs : ℚ
  /-- `forward_ms` -/
  forwardMs : Option ℚ
  /-- `client_key_id` -/
  clientKeyId : Option PyStr
  /-- `error_code` -/
  errorCode : Option PyStr

/-- The columns of a row that are listed. -/
def TraceRow.summary (row : TraceRow) : TraceSummary :=
  ⟨row.id, row.tsStart, row.durationMs, row.route, row.method, row.status, row.model,
    row.routeReason, row.queueMs, row.forwardMs, row.clientKeyId, row.errorCode⟩

/-- An item of the trace list. -/
structure TraceItem extends TraceSummary where
  /-- `span_count` -/
  spanCount : ℕ

/-- `_ORDER_SQL`. -/
def Order.le : Order → TraceSummary → TraceSummary → Prop
  | newest, a, b => b.tsStart < a.tsStart ∨ b.tsStart = a.tsStart ∧ b.id ≤ a.id
  | slowest, a, b => b.durationMs < a.durationMs ∨ b.durationMs = a.durationMs ∧
      (b.tsStart < a.tsStart ∨ b.tsStart = a.tsStart ∧ a.id ≤ b.id)

instance : ∀ order : Order, DecidableRel order.le
  | .newest, a, b =>
    inferInstanceAs (Decidable (b.tsStart < a.tsStart ∨ b.tsStart = a.tsStart ∧ b.id ≤ a.id))
  | .slowest, a, b =>
    inferInstanceAs (Decidable (b.durationMs < a.durationMs ∨ b.durationMs = a.durationMs ∧
      (b.tsStart < a.tsStart ∨ b.tsStart = a.tsStart ∧ a.id ≤ b.id)))

/-- The cursor of the page after a row. -/
def Order.cursor (T : PyText) : Order → TraceSummary → PyStr
  | newest, last => encodeCursor T
      [(py "o", .str (py "newest")), (py "k", .arr [.float last.tsStart, .str last.id])]
  | slowest, last => encodeCursor T
      [(py "o", .str (py "slowest")),
        (py "k", .arr [.float last.durationMs, .float last.tsStart, .str last.id])]

/-- The payload has `o` equal to the string. -/
def CursorPayload.hasOrder (payload : CursorPayload) (o : PyStr) : Bool :=
  match Fields.get (py "o") payload.fields with
  | some (.str s) => decide (s = o)
  | _ => false

/-- The order of a request. -/
def traceOrder (params : Params) (payload : Option CursorPayload) : Except QueryError Order :=
  match params.opt (py "order"), payload with
  | some raw, payload => do
    let order ← parseOrder raw
    if payload.any fun p => !p.hasOrder order.name then
      .error (.text "cursor was issued for a different order")
    else return order
  | none, some payload =>
    if payload.hasOrder Order.newest.name then .ok .newest
    else if payload.hasOrder Order.slowest.name then .ok .slowest
    else .error (.text "cursor does not carry a valid order")
  | none, none => .ok .newest

/-- The clause of a `status` filter. -/
def StatusFilter.clause : StatusFilter → Clause TraceRow
  | exact value => ⟨[.integer value], fun row => decide (row.status = value)⟩
  | decade raw =>
    -- a half-open range
    let low : ℤ := ((raw.head?.map fun c => c.val).getD 0 - 48 : ℕ) * 100
    ⟨[.integer low, .integer (low + 100)],
      fun row => decide (low ≤ row.status ∧ row.status < low + 100)⟩

/-- The clause of `q`. -/
def traceSearch (query : PyStr) : Clause TraceRow :=
  let pattern := like query
  ⟨[.text pattern, .text pattern], fun row =>
    sqlLike pattern row.id || row.errorMessage.any (sqlLike pattern)⟩

/-- The clause of `min_duration_ms`. -/
def minDurationClause (x : ℚ) : Clause TraceRow :=
  ⟨[.real x], fun row => decide (x ≤ row.durationMs)⟩

/-- The clause of `tag`. -/
def tagClause (tag : PyStr) : Clause TraceRow := ⟨[.text tag], fun row => row.tags.contains tag⟩

/-- The clauses of a request for traces, beside its window. -/
def traceClauses (T : PyText) (params : Params) : Except QueryError (List (Clause TraceRow)) := do
  let route := (params.opt (py "route")).map (Clause.text fun row : TraceRow => some row.route)
  let status ←
    match params.opt (py "status") with
    | some raw => (parseStatus T raw).map (some ∘ StatusFilter.clause)
    | none => .ok none
  let model := (params.opt (py "model")).map (Clause.text fun row : TraceRow => row.model)
  let q := (params.opt (py "q")).map traceSearch
  let minDuration ←
    match params.opt (py "min_duration_ms") with
    | some raw => (parseFloat T raw "min_duration_ms").map (some ∘ minDurationClause)
    | none => .ok none
  let tag := (params.opt (py "tag")).map tagClause
  return route.toList ++ status.toList ++ model.toList ++ q.toList ++ minDuration.toList ++
    tag.toList

/-- The clause of a cursor: the rows after it. -/
def traceCursor (order : Order) (payload : Option CursorPayload) :
    Except QueryError (List (Clause TraceRow)) :=
  let invalid := .error (.text "cursor is not a valid pagination cursor")
  match order, payload.map CursorPayload.keys with
  | _, none => .ok []
  | .newest, some [ts, .str id] =>
    match number ts with
    | some (arg, ts) => .ok [⟨[arg, .text id], fun row =>
        -- the comparison of the pair
        decide (row.tsStart < ts ∨ row.tsStart = ts ∧ row.id < id)⟩]
    | none => invalid
  | .slowest, some [duration, ts, .str id] =>
    match number duration, number ts with
    | some (durationArg, duration), some (tsArg, ts) =>
      .ok [⟨[durationArg, durationArg, tsArg, durationArg, tsArg, .text id], fun row =>
        decide (row.durationMs < duration ∨ (row.durationMs = duration ∧ row.tsStart < ts) ∨
          (row.durationMs = duration ∧ row.tsStart = ts ∧ id < row.id))⟩]
    | _, _ => invalid
  | _, _ => invalid

/-- The item of a row, with the spans counted in `db`. -/
def TraceSummary.item (db : Db) (t : TraceSummary) : TraceItem :=
  ⟨t, (db.observations.filter fun o => decide (o.traceId = t.id)).length⟩

/-- `list_traces`. -/
def listTraces (T : PyText) (params : Params) (default : ℕ) (m : Moment) :
    Except QueryError (ListPage TraceItem) := do
  params.rejectUnknown traceFilters
  let w ← resolveWindow T params m.now
  let limit ← parseLimit T (params.first (py "limit")) default
  let payload ← cursorPayload T params
  let order ← traceOrder params payload
  let clauses ← traceClauses T params
  let filter := Clause.window (fun row : TraceRow => row.tsStart) w ++ clauses
  let cursor ← traceCursor order payload
  let rows ← selectRows TraceRow.summary (filter ++ cursor) order.le (limit + 1) m.page.traces
  let total ← selectCount filter m.total.traces
  return ⟨(rows.take limit).map fun t => t.item m.spans, nextCursor limit rows (order.cursor T),
    total⟩

/-! ## Logs -/

/-- `LOG_FILTERS`. -/
def logFilters : List PyStr :=
  [py "level", py "q", py "trace_id", py "since", py "until", py "range", py "limit",
    py "cursor"]

/-- `ORDER BY ts DESC, id DESC`. -/
def tsIdLe (a b : ℚ × ℕ) : Prop := b.1 < a.1 ∨ b.1 = a.1 ∧ b.2 ≤ a.2

instance : DecidableRel tsIdLe := fun a b =>
  inferInstanceAs (Decidable (b.1 < a.1 ∨ b.1 = a.1 ∧ b.2 ≤ a.2))

/-- The cursor of the page after a row of `log_entry` or `audit_log`. -/
def tsIdCursor (T : PyText) (last : ℚ × ℕ) : PyStr :=
  encodeCursor T [(py "k", .arr [.float last.1, .int last.2])]

/-- The sort columns. -/
def LogRow.tsId (row : LogRow) : ℚ × ℕ := (row.ts, row.id)

/-- The clauses of a request for log lines, beside its window. -/
def logClauses (params : Params) (level : Option PyStr) : List (Clause LogRow) :=
  (level.map (Clause.text fun row : LogRow => some row.level)).toList ++
    ((params.opt (py "q")).map fun q => Clause.like
      (fun row : LogRow => some row.message) (like q)).toList ++
    ((params.opt (py "trace_id")).map (Clause.text fun row : LogRow => row.traceId)).toList

/-- The clause of a cursor: the rows after it. -/
def logCursor (payload : Option CursorPayload) : Except QueryError (List (Clause LogRow)) :=
  let invalid := .error (.text "cursor is not a valid pagination cursor")
  match payload.map CursorPayload.keys with
  | none => .ok []
  | some [ts, logId] =>
    match number ts, number logId with
    | some (tsArg, ts), some (idArg, logId) => .ok [⟨[tsArg, idArg], fun row =>
        decide (row.ts < ts ∨ row.ts = ts ∧ (row.id : ℚ) < logId)⟩]
    | _, _ => invalid
  | some _ => invalid

/-- `logs_list`. -/
def logsList (T : PyText) (params : Params) (m : Moment) :
    Except QueryError (ListPage LogRow) := do
  params.rejectUnknown logFilters
  let w ← resolveWindow T params m.now
  let limit ← parseLimit T (params.first (py "limit")) defaultLimit
  let level ← parseLevel (params.opt (py "level"))
  let filter := Clause.window (fun row : LogRow => row.ts) w ++ logClauses params level
  let payload ← cursorPayload T params
  let cursor ← logCursor payload
  let rows ← selectRows id (filter ++ cursor) (fun a b => tsIdLe a.tsId b.tsId) (limit + 1)
    m.page.logEntry
  let total ← selectCount filter m.total.logEntry
  return ⟨rows.take limit, nextCursor limit rows fun row => tsIdCursor T row.tsId, total⟩

/-! ## The audit log -/

/-- `_PARAMS`. -/
def auditParams : List PyStr :=
  [py "actor", py "action", py "since", py "until", py "range", py "limit", py "cursor"]

/-- The sort columns. -/
def AuditRow.tsId (row : AuditRow) : ℚ × ℕ := (row.ts, row.id)

/-- The clauses of a request for audit entries, beside its window. -/
def auditClauses (T : PyText) (params : Params) : List (Clause AuditRow) :=
  ((params.opt (py "actor")).map fun actor => Clause.like (fun row : AuditRow => some row.actor)
      (py "%" ++ escapeLike (T.lower actor) ++ py "%")).toList ++
    ((params.opt (py "action")).map (Clause.text fun row : AuditRow => some row.action)).toList

/-- `float(ts)`, of what passes `isinstance(ts, (int, float))`. -/
def auditTs (T : PyText) : Json → Option (Except QueryError ℚ)
  | .float x => some (.ok x)
  | .int n =>
    match T.floatOfInt n with
    | some x => some (.ok x)
    | none => some (.error .crashed)
  | .bool b => some (.ok (if b then 1 else 0))
  | _ => none

/-- `int(row_id)`, of what passes `isinstance(row_id, int)`. -/
def auditId : Json → Option ℤ
  | .int n => some n
  | .bool b => some (if b then 1 else 0)
  | _ => none

/-- `_decode_cursor` of the audit listing. -/
def decodeAuditCursor (T : PyText) (raw : PyStr) : Except QueryError (ℚ × ℤ) :=
  let invalid := .error (.text "cursor is not a valid pagination cursor")
  match cursorJson T raw with
  | some (.obj fields) =>
    match Fields.get (py "k") fields with
    | some (.arr (ts :: rowId :: _)) =>
      match auditTs T ts, auditId rowId with
      | some ts, some rowId => ts.map fun ts => (ts, rowId)
      | _, _ => invalid
    -- an `IndexError` is not caught
    | some (.arr _) => .error .crashed
    | some (.str s) => if s.length < 2 then .error .crashed else invalid
    | _ => invalid
  | _ => invalid

/-- The clause of a cursor: the rows after it. -/
def auditCursor (T : PyText) (params : Params) : Except QueryError (List (Clause AuditRow)) :=
  match params.opt (py "cursor") with
  | none => .ok []
  | some raw => (decodeAuditCursor T raw).map fun (ts, rowId) =>
    [⟨[.real ts, .real ts, .integer rowId], fun row =>
      decide (row.ts < ts ∨ (row.ts = ts ∧ (row.id : ℤ) < rowId))⟩]

/-- `list_audit`. -/
def listAudit (T : PyText) (params : Params) (m : Moment) :
    Except QueryError (ListPage AuditRow) := do
  params.rejectUnknown auditParams
  let w ← resolveWindow T params m.now
  let limit ← parseLimit T (params.first (py "limit")) defaultLimit
  let filter := Clause.window (fun row : AuditRow => row.ts) w ++ auditClauses T params
  let cursor ← auditCursor T params
  let rows ← selectRows id (filter ++ cursor) (fun a b => tsIdLe a.tsId b.tsId) (limit + 1)
    m.page.auditLog
  let total ← selectCount filter m.total.auditLog
  return ⟨rows.take limit, nextCursor limit rows fun row => tsIdCursor T row.tsId, total⟩

end LayaWatch
