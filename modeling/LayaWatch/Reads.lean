import LayaWatch.Cursor

/-!
# How read queries fail

`list_traces` and `logs_list` with a cursor that may be anything. Both answer with a
page or with `InvalidFilter`, which the handlers turn into a 400, unless another
exception escapes; `reads_answered_iff` says when one does. A `status` may be a digit
that is no decimal, a text may hold a lone surrogate, and a cursor may hold an integer
beyond 64 bits, or brackets beyond the stack.
-/

namespace LayaWatch

/-- How a read query fails. -/
inductive ReadError where
  /-- `InvalidFilter` -/
  | invalid (message : List Piece)
  /-- another exception -/
  | escape (kind : Escape)

section

variable {α β : Type}

/-- What `QueryError` leaves open: which exception it was. -/
def ofQuery (kind : Escape) : Except QueryError α → Except ReadError α
  | .ok a => .ok a
  | .error (.invalid message) => .error (.invalid message)
  | .error .crashed => .error (.escape kind)

/-- A page, or an `InvalidFilter`. -/
def Answered (x : Except ReadError α) : Prop :=
  (∃ page, x = .ok page) ∨ ∃ message, x = .error (.invalid message)

/-- Another exception. -/
def Escapes (x : Except ReadError α) : Prop := ∃ kind, x = .error (.escape kind)

theorem answered_iff (x : Except ReadError α) : Answered x ↔ ¬Escapes x := by
  rcases x with (message | kind) | page
  · exact iff_of_true (Or.inr ⟨message, rfl⟩) fun ⟨_, h⟩ => by cases h
  · refine iff_of_false ?_ fun h => h ⟨kind, rfl⟩
    rintro (⟨_, h⟩ | ⟨_, h⟩) <;> cases h
  · exact iff_of_true (Or.inl ⟨page, rfl⟩) fun ⟨_, h⟩ => by cases h

/-- An exception escapes from the first part, or from the second. -/
theorem escapes_bind {x : Except ReadError α} {f : α → Except ReadError β} :
    Escapes (x >>= f) ↔ Escapes x ∨ ∃ a, x = .ok a ∧ Escapes (f a) := by
  rcases x with e | a
  · refine ⟨fun ⟨kind, h⟩ => Or.inl ⟨kind, ?_⟩, ?_⟩
    · rw [Except.error.inj (h : (.error e : Except ReadError β) = _)]
    · rintro (⟨kind, h⟩ | ⟨_, h, -⟩)
      · rw [Except.error.inj h]
        exact ⟨kind, rfl⟩
      · cases h
  · constructor
    · exact fun h => Or.inr ⟨a, rfl, h⟩
    · rintro (⟨_, h⟩ | ⟨_, h, hf⟩)
      · cases h
      · rwa [Except.ok.inj h]

theorem escapes_pure {a : α} : ¬Escapes (pure a) := fun ⟨_, h⟩ => by cases h

theorem escapes_ofQuery {kind : Escape} {x : Except QueryError α} :
    Escapes (ofQuery kind x) ↔ x = .error .crashed := by
  rcases x with (message | _) | a
  · exact iff_of_false (fun ⟨_, h⟩ => by cases h) nofun
  · exact iff_of_true ⟨kind, rfl⟩ rfl
  · exact iff_of_false (fun ⟨_, h⟩ => by cases h) nofun

theorem ofQuery_eq_ok {kind : Escape} {x : Except QueryError α} {a : α} :
    ofQuery kind x = .ok a ↔ x = .ok a := by
  rcases x with (message | _) | b
  · exact iff_of_false nofun nofun
  · exact iff_of_false nofun nofun
  · exact ⟨fun h => by rw [Except.ok.inj h], fun h => by rw [Except.ok.inj h]; rfl⟩

end

/-! ## Cursors -/

/-- A number and how it is bound, if `_is_number`. (An infinity can be bound like any
float, and NaN is bound as NULL.) -/
def PyJson.number : PyJson → Option (SqlValue × PyFloat)
  | .int n => some (.integer n, .finite n)
  | .float (.finite x) => some (.real x, .finite x)
  | .float x => some (.null, x)
  | _ => none

/-- SQLite takes the item of a cursor. -/
def PyJson.bindable : PyJson → Bool
  | .int n => bindsInt n
  | .str s => s.encodable
  | _ => true

/-- A decoded cursor. -/
structure ReadCursor where
  /-- the payload -/
  members : List (PyStr × PyJson)
  /-- its `k` -/
  keys : List PyJson

/-- What the order of a request is read from. -/
def ReadCursor.order (cursor : ReadCursor) : CursorPayload where
  fields :=
    match PyJson.member (py "o") cursor.members with
    | some (.str o) => [(py "o", .str o)]
    | _ => []
  keys := []

/-- What an invalid cursor is refused with. -/
def invalidKeys {α : Type} : Except ReadError α :=
  .error (.invalid [.text (py "cursor is not a valid pagination cursor")])

/-- What `_decode_cursor` makes of the value of a cursor. -/
def readKeys : PyJson → Except ReadError ReadCursor
  | .obj members =>
    match PyJson.member (py "k") members with
    | some (.arr keys) => .ok ⟨members, keys⟩
    | _ => invalidKeys
  | _ => invalidKeys

/-- `_decode_cursor` of `store/queries.py`. -/
def decodeRead (T : EnvText) (room : ℕ) (raw : PyStr) : Except ReadError ReadCursor :=
  match cursorValue T room raw with
  | .ok v => readKeys v
  | .error .value => invalidKeys
  | .error .recursion => .error (.escape .recursion)

/-- The cursor of a request, decoded, if there is one. -/
def readCursor (T : EnvText) (room : ℕ) (params : Params) : Except ReadError (Option ReadCursor) :=
  match params.opt (py "cursor") with
  | some raw => (decodeRead T room raw).map some
  | none => .ok none

/-- The clause of a cursor for traces. -/
def tracesAfter (order : Order) (cursor : Option ReadCursor) :
    Except ReadError (List (Clause TraceRow)) :=
  match order, cursor.map ReadCursor.keys with
  | _, none => .ok []
  | .newest, some [ts, .str id] =>
    match ts.number with
    | some (arg, ts) => .ok [⟨[arg, .text id], fun row =>
        ts.above row.tsStart || ts.isRat row.tsStart && decide (row.id < id)⟩]
    | none => invalidKeys
  | .slowest, some [duration, ts, .str id] =>
    match duration.number, ts.number with
    | some (durationArg, duration), some (tsArg, ts) =>
      .ok [⟨[durationArg, durationArg, tsArg, durationArg, tsArg, .text id], fun row =>
        duration.above row.durationMs ||
          duration.isRat row.durationMs && ts.above row.tsStart ||
          duration.isRat row.durationMs && ts.isRat row.tsStart && decide (id < row.id)⟩]
    | _, _ => invalidKeys
  | _, _ => invalidKeys

/-- The clause of a cursor for log lines. -/
def logsAfter (cursor : Option ReadCursor) : Except ReadError (List (Clause LogRow)) :=
  match cursor.map ReadCursor.keys with
  | none => .ok []
  | some [ts, logId] =>
    match ts.number, logId.number with
    | some (tsArg, ts), some (idArg, logId) => .ok [⟨[tsArg, idArg], fun row =>
        ts.above row.ts || ts.isRat row.ts && logId.above row.id⟩]
    | _, _ => invalidKeys
  | some _ => invalidKeys

/-! ## Queries -/

/-- What SQLite fails with when it does not take the values of the clauses. -/
def bindEscape {α : Type} (clauses : List (Clause α)) : Escape :=
  match (clauses.flatMap Clause.args).find? fun arg => !arg.bindable with
  | some (.integer _) => .overflow
  | _ => .unicodeEncode

variable (T : EnvText) (room : ℕ) (params : Params)

/-- `list_traces`. -/
def readTraces (default : ℕ) (m : Moment) : Except ReadError (ListPage TraceItem) := do
  ofQuery .value (params.rejectUnknown traceFilters)
  let w ← ofQuery .value (resolveWindow T.toPyText params m.now)
  let limit ← ofQuery .value (parseLimit T.toPyText (params.first (py "limit")) default)
  let cursor ← readCursor T room params
  let order ← ofQuery .value (traceOrder params (cursor.map ReadCursor.order))
  let clauses ← ofQuery .value (traceClauses T.toPyText params)
  let filter := Clause.window (fun row : TraceRow => row.tsStart) w ++ clauses
  let after ← tracesAfter order cursor
  let rows ← ofQuery (bindEscape (filter ++ after))
    (selectRows TraceRow.summary (filter ++ after) order.le (limit + 1) m.page.traces)
  let total ← ofQuery (bindEscape filter) (selectCount filter m.total.traces)
  return ⟨(rows.take limit).map fun t => t.item m.spans,
    nextCursor limit rows (order.cursor T.toPyText), total⟩

/-- `logs_list`. -/
def readLogs (m : Moment) : Except ReadError (ListPage LogRow) := do
  ofQuery .value (params.rejectUnknown logFilters)
  let w ← ofQuery .value (resolveWindow T.toPyText params m.now)
  let limit ← ofQuery .value (parseLimit T.toPyText (params.first (py "limit")) defaultLimit)
  let level ← ofQuery .value (parseLevel (params.opt (py "level")))
  let filter := Clause.window (fun row : LogRow => row.ts) w ++ logClauses params level
  let cursor ← readCursor T room params
  let after ← logsAfter cursor
  let rows ← ofQuery (bindEscape (filter ++ after))
    (selectRows id (filter ++ after) (fun a b => tsIdLe a.tsId b.tsId) (limit + 1)
      m.page.logEntry)
  let total ← ofQuery (bindEscape filter) (selectCount filter m.total.logEntry)
  return ⟨rows.take limit, nextCursor limit rows fun row => tsIdCursor T.toPyText row.tsId, total⟩

/-! ## What cannot escape -/

section

variable {α β : Type}

/-- Nothing but `InvalidFilter` is raised. -/
def Tame (x : Except QueryError α) : Prop := x ≠ .error .crashed

theorem tame_ok (a : α) : Tame (.ok a) := nofun

theorem tame_invalid (message : List Piece) : Tame (.error (.invalid message) : Except _ α) := nofun

theorem tame_text (message : String) : Tame (.error (.text message) : Except _ α) := nofun

theorem Tame.bind {x : Except QueryError α} {f : α → Except QueryError β} (hx : Tame x)
    (hf : ∀ a, Tame (f a)) : Tame (x >>= f) := by
  rcases x with e | a
  · exact fun h => hx (congrArg Except.error (Except.error.inj h))
  · exact hf a

theorem Tame.map {x : Except QueryError α} (hx : Tame x) (f : α → β) : Tame (x.map f) := by
  rcases x with e | a
  · exact fun h => hx (congrArg Except.error (Except.error.inj h))
  · exact tame_ok (f a)

end

theorem tame_rejectUnknown (allowlist : List PyStr) : Tame (params.rejectUnknown allowlist) := by
  unfold Params.rejectUnknown
  split
  · exact tame_invalid _
  · exact tame_ok _

theorem tame_parseFloat (T : PyText) (value : PyStr) (name : String) :
    Tame (parseFloat T value name) := by
  unfold parseFloat
  split
  · exact tame_text _
  · exact tame_text _
  · exact tame_ok _

theorem tame_parseBound (T : PyText) (name : String) : ∀ raw, Tame (parseBound T raw name)
  | none => tame_ok _
  | some raw => (tame_parseFloat T raw name).map some

theorem tame_parseLimit (T : PyText) (raw : Option PyStr) (default : ℕ) :
    Tame (parseLimit T raw default) := by
  unfold parseLimit
  split
  · exact tame_ok _
  · exact tame_ok _
  · split
    · exact tame_text _
    · split_ifs
      · exact tame_text _
      · exact tame_text _
      · exact tame_ok _

theorem tame_parseLevel : ∀ raw, Tame (parseLevel raw)
  | none => tame_ok _
  | some raw => by
    unfold parseLevel
    dsimp only
    split_ifs
    · exact tame_ok _
    · exact tame_ok _
    · exact tame_invalid _

theorem tame_parseRange (raw : PyStr) : Tame (parseRange raw) := by
  unfold parseRange
  split
  · exact tame_ok _
  · exact tame_invalid _

theorem tame_resolveWindow (T : PyText) (now : ℚ) : Tame (resolveWindow T params now) := by
  unfold resolveWindow
  dsimp only
  split_ifs
  · exact tame_text _
  split
  · exact (tame_parseRange _).bind fun seconds => tame_ok _
  · refine (tame_parseBound T "since" _).bind fun sinceTs => ?_
    refine (tame_parseBound T "until" _).bind fun untilTs => ?_
    split
    · split_ifs
      · exact tame_text _
      · exact tame_ok _
    · exact tame_ok _

theorem tame_traceOrder (payload : Option CursorPayload) : Tame (traceOrder params payload) := by
  unfold traceOrder
  split
  · refine Tame.bind ?_ fun order => ?_
    · unfold parseOrder
      split
      · exact tame_ok _
      · exact tame_text _
    · split_ifs
      · exact tame_text _
      · exact tame_ok _
  · split_ifs
    · exact tame_ok _
    · exact tame_ok _
    · exact tame_text _
  · exact tame_ok _

theorem not_escapes_tame {α : Type} {kind : Escape} {x : Except QueryError α} (h : Tame x) :
    ¬Escapes (ofQuery kind x) := fun hx => h (escapes_ofQuery.mp hx)

/-! ## What can -/

/-- The brackets of the cursor exceed the stack. -/
def TooDeep : Prop :=
  ∃ raw, params.opt (py "cursor") = some raw ∧ cursorValue T room raw = .error .recursion

/-- A status that `isdigit` takes and `int` does not. -/
def BadStatus (T : PyText) (params : Params) : Prop :=
  ∃ raw, params.opt (py "status") = some raw ∧ T.isDigit raw = true ∧ T.int raw = none

/-- A text with a lone surrogate. -/
def BadText (params : Params) (names : List PyStr) : Prop :=
  ∃ name ∈ names, ∃ text, params.opt name = some text ∧ text.encodable = false

/-- An item of a cursor that SQLite does not take. -/
def BadCursor (cursor : Option ReadCursor) : Prop :=
  ∃ c, cursor = some c ∧ ∃ key ∈ c.keys, key.bindable = false

theorem not_escapes_invalidKeys {α : Type} : ¬Escapes (invalidKeys : Except ReadError α) :=
  fun ⟨_, h⟩ => by cases h

theorem not_escapes_readKeys (v : PyJson) : ¬Escapes (readKeys v) := by
  cases v with
  | obj members =>
    unfold readKeys
    dsimp only
    rcases PyJson.member (py "k") members with _ | k
    · exact not_escapes_invalidKeys
    · cases k with
      | arr keys => exact fun ⟨_, h⟩ => by cases h
      | null | bool _ | int _ | float _ | str _ | obj _ => exact not_escapes_invalidKeys
  | null | bool _ | int _ | float _ | str _ | arr _ => exact not_escapes_invalidKeys

theorem escapes_decodeRead {raw : PyStr} :
    Escapes (decodeRead T room raw) ↔ cursorValue T room raw = .error .recursion := by
  unfold decodeRead
  rcases cursorValue T room raw with (_ | _) | v
  · exact iff_of_false not_escapes_invalidKeys nofun
  · exact iff_of_true ⟨_, rfl⟩ rfl
  · exact iff_of_false (not_escapes_readKeys v) nofun

theorem escapes_readCursor : Escapes (readCursor T room params) ↔ TooDeep T room params := by
  unfold readCursor TooDeep
  rcases params.opt (py "cursor") with _ | raw
  · exact iff_of_false (fun ⟨_, h⟩ => by cases h) fun ⟨_, h, _⟩ => by cases h
  · dsimp only
    simp only [Option.some.injEq, exists_eq_left', ← escapes_decodeRead]
    rcases decodeRead T room raw with e | cursor
    · exact exists_congr fun kind => ⟨fun h => by rw [Except.error.inj h],
        fun h => by rw [Except.error.inj h]; rfl⟩
    · exact iff_of_false (fun ⟨_, h⟩ => by cases h) fun ⟨_, h⟩ => by cases h

theorem parseStatus_crashed {T : PyText} {raw : PyStr} :
    parseStatus T raw = .error .crashed ↔ T.isDigit raw = true ∧ T.int raw = none := by
  unfold parseStatus
  by_cases hdigit : T.isDigit raw = true
  · rw [if_pos hdigit]
    rcases hint : T.int raw with _ | n
    · exact iff_of_true rfl ⟨hdigit, rfl⟩
    · refine iff_of_false ?_ fun h => by cases h.2
      change Tame _
      dsimp only
      split_ifs
      · exact tame_ok _
      · exact tame_text _
  · rw [if_neg hdigit]
    refine iff_of_false ?_ fun h => hdigit h.1
    change Tame _
    split_ifs
    · exact tame_ok _
    · exact tame_text _

theorem not_escapes_tracesAfter (order : Order) (cursor : Option ReadCursor) :
    ¬Escapes (tracesAfter order cursor) := by
  rintro ⟨kind, h⟩
  unfold tracesAfter at h
  split at h
  · cases h
  · split at h <;> cases h
  · split at h <;> cases h
  · cases h

theorem not_escapes_logsAfter (cursor : Option ReadCursor) : ¬Escapes (logsAfter cursor) := by
  rintro ⟨kind, h⟩
  unfold logsAfter at h
  split at h
  · cases h
  · split at h <;> cases h
  · cases h

theorem traceClauses_crashed {T : PyText} :
    traceClauses T params = .error .crashed ↔ BadStatus T params := by
  unfold traceClauses BadStatus
  dsimp only
  rcases params.opt (py "status") with _ | raw
  · refine iff_of_false ((tame_ok none).bind fun status => ?_) fun ⟨_, h, _⟩ => by cases h
    split
    · exact ((tame_parseFloat T _ _).map _).bind fun minDuration => tame_ok _
    · exact (tame_ok none).bind fun minDuration => tame_ok _
  · simp only [Option.some.injEq, exists_eq_left', ← parseStatus_crashed]
    rcases hstatus : parseStatus T raw with e | filter
    · exact ⟨fun h => congrArg Except.error (Except.error.inj h),
        fun h => congrArg Except.error (Except.error.inj h)⟩
    · refine iff_of_false ((tame_ok (some filter.clause)).bind fun status => ?_) nofun
      split
      · exact ((tame_parseFloat T _ _).map _).bind fun minDuration => tame_ok _
      · exact (tame_ok none).bind fun minDuration => tame_ok _

/-! ## What SQLite takes -/

section

variable {α : Type}

/-- Escaping adds nothing but backslashes. -/
theorem encodable_escapeLike (s : PyStr) : (escapeLike s).encodable = s.encodable := by
  induction s with
  | nil => rfl
  | cons c s ih =>
    have hescape : PyStr.encodable (if c = CodePoint.ofChar '\\' ∨ c = CodePoint.ofChar '%' ∨
        c = CodePoint.ofChar '_' then [CodePoint.ofChar '\\', c] else [c]) = !c.isSurrogate := by
      split_ifs
      · exact Bool.true_and _ |>.trans (Bool.and_true _)
      · exact Bool.and_true _
    unfold escapeLike at ih ⊢
    rw [List.flatMap_cons, PyStr.encodable_append, ih, hescape]
    rfl

theorem encodable_like (q : PyStr) : (like q).encodable = q.encodable := by
  unfold like
  rw [PyStr.encodable_append, PyStr.encodable_append, encodable_escapeLike]
  exact (Bool.and_true _).trans (Bool.true_and _)

theorem escapes_selectRows {β : Type} {kind : Escape} {columns : α → β}
    {clauses : List (Clause α)} {le : β → β → Prop} [DecidableRel le] {limit : ℕ}
    {rows : List α} : Escapes (ofQuery kind (selectRows columns clauses le limit rows)) ↔
      clausesBindable clauses = false := by
  rw [escapes_ofQuery, selectRows]
  rcases hbind : clausesBindable clauses with _ | _
  · exact iff_of_true rfl rfl
  · exact iff_of_false nofun nofun

theorem escapes_selectCount {kind : Escape} {clauses : List (Clause α)} {rows : List α} :
    Escapes (ofQuery kind (selectCount clauses rows)) ↔ clausesBindable clauses = false := by
  rw [escapes_ofQuery, selectCount]
  rcases hbind : clausesBindable clauses with _ | _
  · exact iff_of_true rfl rfl
  · exact iff_of_false nofun nofun

/-- The clause of a parameter with a text. -/
theorem bindable_param (clause : PyStr → Clause α)
    (hclause : ∀ s, clausesBindable [clause s] = s.encodable) (text : Option PyStr) :
    clausesBindable (text.map clause).toList = false ↔
      ∃ s, text = some s ∧ s.encodable = false := by
  rcases text with _ | s
  · exact iff_of_false nofun fun ⟨_, h, _⟩ => by cases h
  · rw [Option.map_some, Option.toList_some, hclause]
    exact ⟨fun h => ⟨s, rfl, h⟩, fun ⟨_, h, hs⟩ => by rwa [Option.some.inj h]⟩

end

@[simp] theorem SqlValue.bindable_text (s : PyStr) : (SqlValue.text s).bindable = s.encodable :=
  rfl

@[simp] theorem PyJson.bindable_str (s : PyStr) : (PyJson.str s).bindable = s.encodable := rfl

theorem bindable_singleton {α : Type} (c : Clause α) :
    clausesBindable [c] = c.args.all SqlValue.bindable := Bool.and_true _

/-- A number is bound as it is. -/
theorem bindable_number {v : PyJson} {arg : SqlValue} {x : PyFloat}
    (h : v.number = some (arg, x)) : arg.bindable = v.bindable := by
  cases v with
  | int n =>
    obtain ⟨rfl, -⟩ := Prod.mk.injEq .. ▸ Option.some.inj h
    rfl
  | float y =>
    cases y <;> obtain ⟨rfl, -⟩ := Prod.mk.injEq .. ▸ Option.some.inj h <;> rfl
  | null | bool _ | str _ | arr _ | obj _ => cases h

theorem badCursor_some (c : ReadCursor) :
    BadCursor (some c) ↔ (c.keys.all PyJson.bindable) = false := by
  simp only [BadCursor, Option.some.injEq, exists_eq_left', List.all_eq_false,
    Bool.not_eq_true]

theorem bindable_tracesAfter {order : Order} {cursor : Option ReadCursor}
    {after : List (Clause TraceRow)} (h : tracesAfter order cursor = .ok after) :
    clausesBindable after = false ↔ BadCursor cursor := by
  unfold tracesAfter at h
  rcases cursor with _ | c
  · obtain rfl := Except.ok.inj h
    exact iff_of_false nofun fun ⟨_, hc, _⟩ => by cases hc
  rw [badCursor_some]
  split at h
  · rename_i hnone
    cases hnone
  · rename_i ts id hkeys
    rw [Option.some.inj hkeys]
    rcases hts : ts.number with _ | ⟨arg, x⟩
    · rw [hts] at h
      cases h
    · rw [hts] at h
      obtain rfl := Except.ok.inj h
      simp [bindable_singleton, bindable_number hts]
  · rename_i duration ts id hkeys
    rw [Option.some.inj hkeys]
    rcases hduration : duration.number with _ | ⟨arg, x⟩
    · rw [hduration] at h
      cases h
    rcases hts : ts.number with _ | ⟨arg', y⟩
    · rw [hduration, hts] at h
      cases h
    · rw [hduration, hts] at h
      obtain rfl := Except.ok.inj h
      simp only [bindable_singleton, List.all_cons, List.all_nil, Bool.and_true,
        bindable_number hduration, bindable_number hts, SqlValue.bindable_text,
        PyJson.bindable_str]
      cases duration.bindable <;> cases ts.bindable <;> simp
  · cases h

theorem bindable_logsAfter {cursor : Option ReadCursor} {after : List (Clause LogRow)}
    (h : logsAfter cursor = .ok after) : clausesBindable after = false ↔ BadCursor cursor := by
  unfold logsAfter at h
  rcases cursor with _ | c
  · obtain rfl := Except.ok.inj h
    exact iff_of_false nofun fun ⟨_, hc, _⟩ => by cases hc
  rw [badCursor_some]
  split at h
  · rename_i hnone
    cases hnone
  · rename_i ts logId hkeys
    rw [Option.some.inj hkeys]
    rcases hts : ts.number with _ | ⟨arg, x⟩
    · rw [hts] at h
      cases h
    rcases hid : logId.number with _ | ⟨arg', y⟩
    · rw [hts, hid] at h
      cases h
    · rw [hts, hid] at h
      obtain rfl := Except.ok.inj h
      simp [bindable_singleton, bindable_number hts, bindable_number hid]
  · cases h

/-- The numbers of a status fit. -/
theorem bindable_status {T : PyText} {raw : PyStr} {filter : StatusFilter}
    (h : parseStatus T raw = .ok filter) : clausesBindable [filter.clause] = true := by
  unfold parseStatus at h
  split_ifs at h with hdigit hdecade
  · rcases hint : T.int raw with _ | n
    · rw [hint] at h
      cases h
    · rw [hint] at h
      dsimp only at h
      split_ifs at h with hrange
      obtain rfl := Except.ok.inj h
      have hfits : -(2 ^ 63) ≤ n ∧ n < 2 ^ 63 := by omega
      rw [bindable_singleton]
      exact (Bool.and_true _).trans (decide_eq_true hfits)
  · obtain rfl := Except.ok.inj h
    rcases raw with _ | ⟨c, rest⟩
    · rfl
    · have hc := c.isLt
      simp only [clausesBindable, StatusFilter.clause, SqlValue.bindable, List.all_cons,
        List.all_nil, Bool.and_true, List.head?_cons, Option.map_some, Option.getD_some,
        Bool.and_eq_true, decide_eq_true_eq]
      omega

/-- The clauses of a request, those of its numbers apart. -/
theorem traceClauses_ok {T : PyText} {clauses : List (Clause TraceRow)}
    (h : traceClauses T params = .ok clauses) :
    ∃ status minDuration : List (Clause TraceRow), clausesBindable status = true ∧
      clausesBindable minDuration = true ∧
      clauses = ((params.opt (py "route")).map
          (Clause.text fun row : TraceRow => some row.route)).toList ++ status ++
        ((params.opt (py "model")).map (Clause.text fun row : TraceRow => row.model)).toList ++
        ((params.opt (py "q")).map traceSearch).toList ++ minDuration ++
        ((params.opt (py "tag")).map tagClause).toList := by
  -- the number of `min_duration_ms` can always be bound
  have hreal : ∀ x, clausesBindable [minDurationClause x] = true := fun _ => rfl
  unfold traceClauses at h
  dsimp only at h
  rcases hstatus : params.opt (py "status") with _ | raw
  · rw [hstatus] at h
    rcases hmin : params.opt (py "min_duration_ms") with _ | text
    · rw [hmin] at h
      exact ⟨[], [], rfl, rfl, (Except.ok.inj h).symm⟩
    · rw [hmin] at h
      dsimp only at h
      rcases hfloat : parseFloat T text "min_duration_ms" with e | x
      · rw [hfloat] at h
        cases h
      · rw [hfloat] at h
        exact ⟨[], [minDurationClause x], rfl, hreal x, (Except.ok.inj h).symm⟩
  · rw [hstatus] at h
    dsimp only at h
    rcases hparse : parseStatus T raw with e | filter
    · rw [hparse] at h
      cases h
    rw [hparse] at h
    have hfits := bindable_status hparse
    rcases hmin : params.opt (py "min_duration_ms") with _ | text
    · rw [hmin] at h
      exact ⟨[filter.clause], [], hfits, rfl, (Except.ok.inj h).symm⟩
    · rw [hmin] at h
      dsimp only at h
      rcases hfloat : parseFloat T text "min_duration_ms" with e | x
      · rw [hfloat] at h
        cases h
      · rw [hfloat] at h
        exact ⟨[filter.clause], [minDurationClause x], hfits, hreal x, (Except.ok.inj h).symm⟩

theorem bindable_traceClauses {T : PyText} {clauses : List (Clause TraceRow)}
    (h : traceClauses T params = .ok clauses) : clausesBindable clauses = false ↔
      BadText params [py "route", py "model", py "q", py "tag"] := by
  obtain ⟨status, minDuration, hstatus, hmin, rfl⟩ := traceClauses_ok params h
  have hroute := bindable_param (Clause.text fun row : TraceRow => some row.route)
    (fun s => bindable_singleton _ |>.trans (Bool.and_true _)) (params.opt (py "route"))
  have hmodel := bindable_param (Clause.text fun row : TraceRow => row.model)
    (fun s => bindable_singleton _ |>.trans (Bool.and_true _)) (params.opt (py "model"))
  have hq := bindable_param traceSearch (fun s => by
    rw [bindable_singleton, traceSearch]
    simp [encodable_like]) (params.opt (py "q"))
  have htag := bindable_param tagClause
    (fun s => bindable_singleton _ |>.trans (Bool.and_true _)) (params.opt (py "tag"))
  simp only [clauses_bindable_append, hstatus, hmin, Bool.and_true, Bool.and_eq_false_iff, hroute,
    hmodel, hq, htag, BadText, List.mem_cons, List.not_mem_nil, or_false, exists_eq_or_imp,
    exists_eq_left, or_assoc]

theorem bindable_logClauses {level : Option PyStr}
    (h : parseLevel (params.opt (py "level")) = .ok level) :
    clausesBindable (logClauses params level) = false ↔
      BadText params [py "q", py "trace_id"] := by
  have hlevel : ∀ s, level = some s → s.encodable = true := by
    intro s hs
    unfold parseLevel at h
    rcases hraw : params.opt (py "level") with _ | raw
    · rw [hraw] at h
      rw [← Except.ok.inj h] at hs
      cases hs
    · rw [hraw] at h
      dsimp only at h
      split_ifs at h with hwarn hknown
      · obtain rfl := Option.some.inj ((Except.ok.inj h).trans hs)
        decide
      · obtain rfl := Option.some.inj ((Except.ok.inj h).trans hs)
        have hall : ∀ s ∈ logLevels, PyStr.encodable s = true := by decide
        exact hall raw (List.contains_iff_mem.mp hknown)
  have hl := bindable_param (Clause.text fun row : LogRow => some row.level)
    (fun s => bindable_singleton _ |>.trans (Bool.and_true _)) level
  have hq := bindable_param (fun q => Clause.like (fun row : LogRow => some row.message) (like q))
    (fun s => by
      rw [bindable_singleton, Clause.like]
      simp [encodable_like]) (params.opt (py "q"))
  have htrace := bindable_param (Clause.text fun row : LogRow => row.traceId)
    (fun s => bindable_singleton _ |>.trans (Bool.and_true _)) (params.opt (py "trace_id"))
  have hnone : ¬∃ s, level = some s ∧ s.encodable = false := by
    rintro ⟨s, hs, hbad⟩
    rw [hlevel s hs] at hbad
    cases hbad
  simp only [logClauses, clauses_bindable_append, Bool.and_eq_false_iff, hl, hnone, false_or, hq,
    htrace, BadText, List.mem_cons, List.not_mem_nil, or_false, exists_eq_or_imp, exists_eq_left]

/-! ## When an exception escapes -/

/-- The parameters are known, and the window and the limit are as they should be. -/
structure Framed (allowlist : List PyStr) (default : ℕ) (now : ℚ) : Prop where
  /-- no parameter is unknown -/
  known : params.rejectUnknown allowlist = .ok ()
  /-- `since`, `until` and `range` -/
  window : ∃ w, resolveWindow T.toPyText params now = .ok w
  /-- `limit` -/
  limit : ∃ limit, parseLimit T.toPyText (params.first (py "limit")) default = .ok limit

/-- A request for traces that gets past the checks to something they do not expect. -/
def TracesSlip (default : ℕ) (now : ℚ) : Prop :=
  Framed T params traceFilters default now ∧ (TooDeep T room params ∨
    ∃ cursor order, readCursor T room params = .ok cursor ∧
      traceOrder params (cursor.map ReadCursor.order) = .ok order ∧
      (BadStatus T.toPyText params ∨
        (∃ clauses, traceClauses T.toPyText params = .ok clauses) ∧
          (∃ after, tracesAfter order cursor = .ok after) ∧
          (BadText params [py "route", py "model", py "q", py "tag"] ∨ BadCursor cursor)))

/-- A request for log lines that does. -/
def LogsSlip (now : ℚ) : Prop :=
  Framed T params logFilters defaultLimit now ∧
    (∃ level, parseLevel (params.opt (py "level")) = .ok level) ∧ (TooDeep T room params ∨
      ∃ cursor, readCursor T room params = .ok cursor ∧
        (∃ after, logsAfter cursor = .ok after) ∧
        (BadText params [py "q", py "trace_id"] ∨ BadCursor cursor))

variable {T room params}

/-- The checks in front of both queries raise nothing else. -/
theorem escapes_framed {α : Type} {allowlist : List PyStr} {default : ℕ} {now : ℚ}
    {f : Window → ℕ → Except ReadError α} {P : Prop} (hf : ∀ w limit, Escapes (f w limit) ↔ P) :
    Escapes (do
      ofQuery .value (params.rejectUnknown allowlist)
      let w ← ofQuery .value (resolveWindow T.toPyText params now)
      let limit ← ofQuery .value (parseLimit T.toPyText (params.first (py "limit")) default)
      f w limit) ↔ Framed T params allowlist default now ∧ P := by
  simp only [escapes_bind, not_escapes_tame (tame_rejectUnknown params _),
    not_escapes_tame (tame_resolveWindow params _ _), not_escapes_tame (tame_parseLimit _ _ _),
    false_or, ofQuery_eq_ok, hf]
  constructor
  · rintro ⟨_, hknown, w, hw, limit, hlimit, hP⟩
    exact ⟨⟨hknown, ⟨w, hw⟩, ⟨limit, hlimit⟩⟩, hP⟩
  · rintro ⟨⟨hknown, ⟨w, hw⟩, ⟨limit, hlimit⟩⟩, hP⟩
    exact ⟨(), hknown, w, hw, limit, hlimit, hP⟩

/-- The statements of a listing fail only where SQLite does not take the values. -/
theorem escapes_statements {α β γ : Type} {kind kind' : Escape} {columns : α → β}
    {filter after : List (Clause α)} {le : β → β → Prop} [DecidableRel le] {limit : ℕ}
    {rows rows' : List α} {g : List β → ℕ → γ} :
    Escapes (do
      let found ← ofQuery kind (selectRows columns (filter ++ after) le limit rows)
      let total ← ofQuery kind' (selectCount filter rows')
      return g found total) ↔ clausesBindable filter = false ∨ clausesBindable after = false := by
  rw [escapes_bind, escapes_selectRows, clauses_bindable_append, Bool.and_eq_false_iff]
  refine ⟨fun h => h.elim id ?_, Or.inl⟩
  rintro ⟨found, -, hcount⟩
  rw [escapes_bind, escapes_selectCount] at hcount
  rcases hcount with hfilter | ⟨_, -, hpure⟩
  · exact Or.inl hfilter
  · exact absurd hpure escapes_pure

theorem escapes_readTraces {default : ℕ} {m : Moment} :
    Escapes (readTraces T room params default m) ↔ TracesSlip T room params default m.now := by
  refine escapes_framed fun w limit => ?_
  rw [escapes_bind, escapes_readCursor]
  refine or_congr_right (exists_congr fun cursor => ?_)
  rw [exists_and_left]
  refine and_congr_right fun _ => ?_
  rw [escapes_bind, or_iff_right (not_escapes_tame (tame_traceOrder params _))]
  refine exists_congr fun order => and_congr ofQuery_eq_ok ?_
  rw [escapes_bind, escapes_ofQuery, traceClauses_crashed]
  refine or_congr_right ?_
  constructor
  · rintro ⟨clauses, hclauses, h⟩
    have hclauses := ofQuery_eq_ok.mp hclauses
    rcases escapes_bind.mp h with h | ⟨after, hafter, h⟩
    · exact absurd h (not_escapes_tracesAfter order cursor)
    · rw [escapes_statements, clauses_bindable_append, bindable_window, Bool.true_and,
        bindable_traceClauses params hclauses, bindable_tracesAfter hafter] at h
      exact ⟨⟨clauses, hclauses⟩, ⟨after, hafter⟩, h⟩
  · rintro ⟨⟨clauses, hclauses⟩, ⟨after, hafter⟩, h⟩
    refine ⟨clauses, ofQuery_eq_ok.mpr hclauses, escapes_bind.mpr (Or.inr ⟨after, hafter, ?_⟩)⟩
    rwa [escapes_statements, clauses_bindable_append, bindable_window, Bool.true_and,
      bindable_traceClauses params hclauses, bindable_tracesAfter hafter]

theorem escapes_readLogs {m : Moment} :
    Escapes (readLogs T room params m) ↔ LogsSlip T room params m.now := by
  refine escapes_framed fun w limit => ?_
  rw [escapes_bind, or_iff_right (not_escapes_tame (tame_parseLevel _))]
  constructor
  · rintro ⟨level, hlevel, h⟩
    have hlevel := ofQuery_eq_ok.mp hlevel
    refine ⟨⟨level, hlevel⟩, ?_⟩
    rcases escapes_bind.mp h with h | ⟨cursor, hcursor, h⟩
    · exact Or.inl (escapes_readCursor T room params |>.mp h)
    rcases escapes_bind.mp h with h | ⟨after, hafter, h⟩
    · exact absurd h (not_escapes_logsAfter cursor)
    · rw [escapes_statements, clauses_bindable_append, bindable_window, Bool.true_and,
        bindable_logClauses params hlevel, bindable_logsAfter hafter] at h
      exact Or.inr ⟨cursor, hcursor, ⟨after, hafter⟩, h⟩
  · rintro ⟨⟨level, hlevel⟩, h⟩
    refine ⟨level, ofQuery_eq_ok.mpr hlevel, escapes_bind.mpr ?_⟩
    rw [escapes_readCursor]
    refine h.imp_right ?_
    rintro ⟨cursor, hcursor, ⟨after, hafter⟩, h⟩
    refine ⟨cursor, hcursor, escapes_bind.mpr (Or.inr ⟨after, hafter, ?_⟩)⟩
    rwa [escapes_statements, clauses_bindable_append, bindable_window, Bool.true_and,
      bindable_logClauses params hlevel, bindable_logsAfter hafter]

/-- Python on whole numbers and ASCII, and superscript digits. -/
def superscripts : EnvText :=
  { wholeEnv with
    isDigit := fun s =>
      !s.isEmpty && s.all fun c => c.isDigit || [0xB2, 0xB3, 0xB9].contains c.val }

/-- `status=²`. -/
def squareStatus : Params := Dict.set Dict.empty (py "status") [[0xB2]]

/-- An empty database. -/
def emptyMoment : Moment where
  now := 0
  page := {}
  spans := {}
  total := {}
  keyed := by constructor <;> simp

end LayaWatch
