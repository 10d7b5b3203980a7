import LayaWatch.Listing

/-!
# Every page once

The four listings are keyset paginations: each sorts by a key no two rows share, the
clause of its cursor holds of the rows past the cursor's key, and the cursor of a row
reads back as the key of the row. So the rules of `Keyset` apply to them.
-/

namespace LayaWatch

open OrderDual

/-! ## The keys -/

/-- `ts_start DESC, id DESC`. -/
def TraceSummary.newestKey (t : TraceSummary) : ℚᵒᵈ ×ₗ PyStrᵒᵈ :=
  toLex (toDual t.tsStart, toDual t.id)

/-- `duration_ms DESC, ts_start DESC, id ASC`. -/
def TraceSummary.slowestKey (t : TraceSummary) : ℚᵒᵈ ×ₗ ℚᵒᵈ ×ₗ PyStr :=
  toLex (toDual t.durationMs, toLex (toDual t.tsStart, t.id))

/-- `ts DESC, id DESC`. -/
def tsIdKey (p : ℚ × ℕ) : ℚᵒᵈ ×ₗ ℕᵒᵈ := toLex (toDual p.1, toDual p.2)

theorem newest_le (a b : TraceSummary) : Order.newest.le a b ↔ a.newestKey ≤ b.newestKey := by
  unfold TraceSummary.newestKey
  rw [Prod.Lex.toLex_le_toLex]
  exact or_congr Iff.rfl (and_congr eq_comm Iff.rfl)

theorem newest_lt (a b : TraceSummary) : a.newestKey < b.newestKey ↔
    b.tsStart < a.tsStart ∨ b.tsStart = a.tsStart ∧ b.id < a.id := by
  unfold TraceSummary.newestKey
  rw [Prod.Lex.toLex_lt_toLex]
  exact or_congr Iff.rfl (and_congr eq_comm Iff.rfl)

theorem slowest_le (a b : TraceSummary) : Order.slowest.le a b ↔ a.slowestKey ≤ b.slowestKey := by
  unfold TraceSummary.slowestKey
  rw [Prod.Lex.toLex_le_toLex]
  refine or_congr Iff.rfl (and_congr eq_comm ?_)
  rw [Prod.Lex.toLex_le_toLex]
  exact or_congr Iff.rfl (and_congr eq_comm Iff.rfl)

theorem slowest_lt (a b : TraceSummary) : a.slowestKey < b.slowestKey ↔
    b.durationMs < a.durationMs ∨ (b.durationMs = a.durationMs ∧ b.tsStart < a.tsStart) ∨
      (b.durationMs = a.durationMs ∧ b.tsStart = a.tsStart ∧ a.id < b.id) := by
  unfold TraceSummary.slowestKey
  rw [Prod.Lex.toLex_lt_toLex, ← and_or_left]
  refine or_congr Iff.rfl (and_congr eq_comm ?_)
  rw [Prod.Lex.toLex_lt_toLex]
  exact or_congr Iff.rfl (and_congr eq_comm Iff.rfl)

theorem tsId_le (a b : ℚ × ℕ) : tsIdLe a b ↔ tsIdKey a ≤ tsIdKey b := by
  unfold tsIdKey
  rw [Prod.Lex.toLex_le_toLex]
  exact or_congr Iff.rfl (and_congr eq_comm Iff.rfl)

theorem tsId_lt (a b : ℚ × ℕ) : tsIdKey a < tsIdKey b ↔ b.1 < a.1 ∨ b.1 = a.1 ∧ b.2 < a.2 := by
  unfold tsIdKey
  rw [Prod.Lex.toLex_lt_toLex]
  exact or_congr Iff.rfl (and_congr eq_comm Iff.rfl)

theorem newestKey_id {a b : TraceSummary} (h : a.newestKey = b.newestKey) : a.id = b.id :=
  (Prod.mk.inj (toLex.injective h)).2

theorem slowestKey_id {a b : TraceSummary} (h : a.slowestKey = b.slowestKey) : a.id = b.id :=
  congrArg Prod.snd (toLex.injective (congrArg Prod.snd (toLex.injective h)))

theorem tsIdKey_injective : Function.Injective tsIdKey := fun _ _ h =>
  Prod.ext (Prod.mk.inj (toLex.injective h)).1 (Prod.mk.inj (toLex.injective h)).2

/-! ## The cursors -/

theorem sort_ok (o k : Json) :
    List.insertionSort (fun a b : PyStr × Json => a.1 ≤ b.1) [(py "o", o), (py "k", k)] =
      [(py "k", k), (py "o", o)] := by
  have hko : ¬py "o" ≤ py "k" := by decide +kernel
  rw [List.insertionSort_cons, List.insertionSort_cons, List.insertionSort_nil,
    List.orderedInsert_nil, List.orderedInsert_cons, if_neg hko, List.orderedInsert_nil]

theorem keys_encodable : (py "k").encodable = true ∧ (py "o").encodable = true := by
  decide +kernel

/-- A cursor with an order reads back. -/
theorem decodeCursor_ordered (T : PyText) {o : PyStr} (ho : o.encodable = true)
    {keys : List Json} (hne : keys ≠ []) (hkeys : ∀ v ∈ keys, JsonText.Plain v) :
    decodeCursor T (encodeCursor T [(py "o", .str o), (py "k", .arr keys)]) =
      .ok ⟨[(py "k", .arr keys), (py "o", .str o)], keys⟩ := by
  have hdistinct : py "k" ≠ py "o" := by decide +kernel
  have hjson := cursorJson_encode T (sort_ok (.str o) (.arr keys)) (List.cons_ne_nil _ _)
    (by
      rw [List.map_cons, List.map_cons, List.map_nil, List.nodup_cons, List.mem_singleton]
      exact ⟨hdistinct, List.nodup_singleton _⟩)
    (by
      rintro e he
      rcases List.mem_cons.mp he with rfl | he
      · exact ⟨keys_encodable.1, hne, hkeys⟩
      · rw [List.mem_singleton.mp he]
        exact ⟨keys_encodable.2, ho⟩)
  unfold decodeCursor
  rw [hjson]
  dsimp only
  rw [Fields.get, if_pos rfl]

/-- A cursor without an order reads back. -/
theorem cursorJson_plain (T : PyText) {keys : List Json} (hne : keys ≠ [])
    (hkeys : ∀ v ∈ keys, JsonText.Plain v) :
    cursorJson T (encodeCursor T [(py "k", .arr keys)]) = some (.obj [(py "k", .arr keys)]) := by
  refine cursorJson_encode T rfl (List.cons_ne_nil _ _)
    (List.nodup_singleton _) fun e he => ?_
  rw [List.mem_singleton.mp he]
  exact ⟨keys_encodable.1, hne, hkeys⟩

theorem single_bindable {α : Type} (args : List SqlValue) (holds : α → Bool)
    (h : args.all SqlValue.bindable = true) : clausesBindable [⟨args, holds⟩] = true := by
  unfold clausesBindable
  rw [List.all_cons, h]
  rfl

/-- The values of selected rows could be bound, those of the filter among them. -/
theorem bound_of_selected {α β : Type} {columns : α → β} {start filter cursor : List (Clause α)}
    {le : β → β → Prop} [DecidableRel le] {n : ℕ} {rows : List α} {selected : List β}
    (h : selectRows columns (start ++ filter ++ cursor) le n rows = .ok selected) :
    clausesBindable filter = true := by
  unfold selectRows at h
  split at h
  · next hbind =>
    rw [clauses_bindable_append, clauses_bindable_append, Bool.and_eq_true,
      Bool.and_eq_true] at hbind
    exact hbind.1.2
  · cases h

/-! ## Requests with a cursor -/

section

variable {T : PyText} {params : Params}

/-- What a cursor leaves as it is, it leaves as it is where there is one. -/
theorem map_withCursor {β : Type} {f : Params → β}
    (h : ∀ cursor, f (params.withCursor cursor) = f params) (token : Option PyStr) :
    f ((token.map params.withCursor).getD params) = f params := by
  cases token with
  | none => rfl
  | some cursor => exact h cursor

theorem resolveWindow_withCursor (cursor : PyStr) (now : ℚ) :
    resolveWindow T (params.withCursor cursor) now = resolveWindow T params now := by
  unfold resolveWindow
  rw [Params.opt_withCursor (by decide +kernel), Params.opt_withCursor (by decide +kernel),
    Params.opt_withCursor (by decide +kernel)]

/-- A cursor passes what every list checks of its other parameters. -/
theorem checks_withCursor {allowlist : List PyStr} (hcursor : py "cursor" ∈ allowlist)
    (hknown : params.rejectUnknown allowlist = .ok ()) {now : ℚ} {w : Window}
    (hw : resolveWindow T params now = .ok w) {default limit : ℕ}
    (hlimit : parseLimit T (params.first (py "limit")) default = .ok limit)
    (token : Option PyStr) {params' : Params}
    (hparams : (token.map params.withCursor).getD params = params') :
    params'.rejectUnknown allowlist = .ok () ∧ resolveWindow T params' now = .ok w ∧
      parseLimit T (params'.first (py "limit")) default = .ok limit := by
  subst hparams
  refine ⟨?_, ?_, ?_⟩
  · cases token with
    | none => exact hknown
    | some cursor => exact Params.rejectUnknown_withCursor hcursor cursor hknown
  · rw [map_withCursor (f := fun p => resolveWindow T p now) fun cursor =>
      resolveWindow_withCursor cursor now, hw]
  · rw [map_withCursor (f := fun p => p.first (py "limit")) fun cursor =>
      Params.first_withCursor (by decide +kernel) cursor, hlimit]

end

/-! ## Requests for traces -/

section Traces

variable {T : PyText} {params : Params} {default : ℕ}

/-- A request for traces is accepted, with what its parameters ask for. -/
structure TracesAsk (T : PyText) (params : Params) (default limit : ℕ) (order : Order)
    (clauses : List (Clause TraceRow)) : Prop where
  /-- the parameters are known -/
  known : params.rejectUnknown traceFilters = .ok ()
  /-- the window -/
  window : ∀ now, ∃ w, resolveWindow T params now = .ok w
  /-- the limit -/
  limit : parseLimit T (params.first (py "limit")) default = .ok limit
  /-- the order -/
  order : traceOrder params none = .ok order
  /-- the filter -/
  filter : traceClauses T params = .ok clauses
  /-- its values can be bound -/
  bound : clausesBindable clauses = true

/-- A first request that is answered is accepted. -/
theorem tracesAsk_of_ok (hcursor : params.opt (py "cursor") = none) {m : Moment}
    {page : ListPage TraceItem} (h : listTraces T params default m = .ok page) :
    ∃ limit order clauses, TracesAsk T params default limit order clauses := by
  unfold listTraces at h
  obtain ⟨_, hknown, h⟩ := bind_eq_ok.mp h
  obtain ⟨w, hw, h⟩ := bind_eq_ok.mp h
  obtain ⟨limit, hlimit, h⟩ := bind_eq_ok.mp h
  obtain ⟨payload, hpayload, h⟩ := bind_eq_ok.mp h
  obtain ⟨order, horder, h⟩ := bind_eq_ok.mp h
  obtain ⟨clauses, hclauses, h⟩ := bind_eq_ok.mp h
  obtain ⟨cursor, -, h⟩ := bind_eq_ok.mp h
  obtain ⟨rows, hrows, -⟩ := bind_eq_ok.mp h
  have hnone : payload = none := by
    unfold cursorPayload at hpayload
    rw [hcursor] at hpayload
    exact (Except.ok.inj hpayload).symm
  subst hnone
  refine ⟨limit, order, clauses, hknown, fun now => resolveWindow_ok hw now, hlimit, horder,
    hclauses, bound_of_selected hrows⟩

theorem traceClauses_withCursor (cursor : PyStr) :
    traceClauses T (params.withCursor cursor) = traceClauses T params := by
  unfold traceClauses
  rw [Params.opt_withCursor (by decide +kernel), Params.opt_withCursor (by decide +kernel),
    Params.opt_withCursor (by decide +kernel), Params.opt_withCursor (by decide +kernel),
    Params.opt_withCursor (by decide +kernel), Params.opt_withCursor (by decide +kernel)]

/-- The cursor of a page has the order of the request. -/
theorem traceOrder_withCursor {order : Order} (h : traceOrder params none = .ok order)
    {payload : CursorPayload} (hpayload : payload.hasOrder order.name = true) (cursor : PyStr) :
    traceOrder (params.withCursor cursor) (some payload) = .ok order := by
  unfold traceOrder at h ⊢
  rw [Params.opt_withCursor (by decide +kernel)]
  rcases hraw : params.opt (py "order") with _ | raw
  all_goals rw [hraw] at h
  · obtain rfl := Except.ok.inj h
    dsimp only
    rw [if_pos hpayload]
  · obtain ⟨order', hparse, h⟩ := bind_eq_ok.mp h
    obtain rfl := Except.ok.inj h
    refine bind_eq_ok.mpr ⟨order', hparse, ?_⟩
    rw [Option.any_some, hpayload]
    rfl

/-- The rows a request for traces is about, as its filter selects them. -/
def matchingTraces (T : PyText) (params : Params) (m : Moment) : List TraceSummary :=
  match resolveWindow T params m.now, traceClauses T params with
  | .ok w, .ok clauses => matching TraceRow.summary
      (Clause.window (fun row : TraceRow => row.tsStart) w ++ clauses) m.page.traces
  | _, _ => []

/-- What a client reads in a page of traces: the rows, and the cursor. -/
def tracesRequest (T : PyText) (params : Params) (default : ℕ) (cursor : Option PyStr)
    (m : Moment) : Option (Keyset.Page TraceSummary PyStr) :=
  match listTraces T ((cursor.map params.withCursor).getD params) default m with
  | .ok page => some ⟨page.items.map TraceItem.toTraceSummary, page.nextCursor⟩
  | .error _ => none

variable {limit : ℕ} {order : Order} {clauses : List (Clause TraceRow)}

theorem matchingTraces_eq (ask : TracesAsk T params default limit order clauses) {m : Moment}
    {w : Window} (hw : resolveWindow T params m.now = .ok w) :
    matchingTraces T params m = matching TraceRow.summary
      (Clause.window (fun row : TraceRow => row.tsStart) w ++ clauses) m.page.traces := by
  unfold matchingTraces
  rw [hw, ask.filter]

/-- An accepted request, with or without a cursor, is answered with the page after
the key that its cursor stands for. -/
theorem tracesRequest_eq (ask : TracesAsk T params default limit order clauses)
    {κ : Type} [LinearOrder κ] {key : TraceSummary → κ} {encode : κ → PyStr}
    (hle : ∀ a b, order.le a b ↔ key a ≤ key b)
    (hencode : ∀ t, encode (key t) = order.cursor T t) (token : Option PyStr) (c : Option κ)
    {payload : Option CursorPayload} {cursor : List (Clause TraceRow)}
    (hpayload : cursorPayload T ((token.map params.withCursor).getD params) = .ok payload)
    (horder : traceOrder ((token.map params.withCursor).getD params) payload = .ok order)
    (hcursor : traceCursor order payload = .ok cursor) (hbound : clausesBindable cursor = true)
    (hpast : ∀ row : TraceRow,
      (cursor.all fun c => c.holds row) = Keyset.past c (key row.summary)) (m : Moment) :
    tracesRequest T params default token m =
      some ((Keyset.page key limit (matchingTraces T params m) c).encode encode) := by
  obtain ⟨w, hw⟩ := ask.window m.now
  generalize hparams : (token.map params.withCursor).getD params = params' at hpayload horder
  obtain ⟨hknown, hw', hlimit⟩ :=
    checks_withCursor (by decide +kernel) ask.known hw ask.limit token hparams
  have hclauses : traceClauses T params' = .ok clauses := by
    rw [← hparams, map_withCursor traceClauses_withCursor, ask.filter]
  have hfilter : clausesBindable (Clause.window (fun row : TraceRow => row.tsStart) w ++ clauses) =
      true := by
    rw [clauses_bindable_append, bindable_window, ask.bound]
    rfl
  have hrows := selectRows_rest TraceRow.summary hle (by
    rw [clauses_bindable_append, hfilter, hbound]
    rfl) hpast (limit + 1) m.page.traces
  rw [← matchingTraces_eq ask hw] at hrows
  have hanswer : listTraces T params' default m = .ok
      ⟨(((Keyset.rest key c (matchingTraces T params m)).take (limit + 1)).take limit).map
        fun t => t.item m.spans,
        nextCursor limit ((Keyset.rest key c (matchingTraces T params m)).take (limit + 1))
          (order.cursor T),
        (matching id (Clause.window (fun row : TraceRow => row.tsStart) w ++ clauses)
          m.total.traces).length⟩ := by
    unfold listTraces
    refine bind_eq_ok.mpr ⟨(), hknown, bind_eq_ok.mpr ⟨w, hw', bind_eq_ok.mpr ⟨limit, hlimit,
      bind_eq_ok.mpr ⟨payload, hpayload, bind_eq_ok.mpr ⟨order, horder, bind_eq_ok.mpr ⟨clauses,
      hclauses, bind_eq_ok.mpr ⟨cursor, hcursor, bind_eq_ok.mpr ⟨_, hrows, bind_eq_ok.mpr
      ⟨_, if_pos hfilter, rfl⟩⟩⟩⟩⟩⟩⟩⟩⟩
  have hcursors : (encode ∘ key) = order.cursor T := funext hencode
  unfold tracesRequest
  rw [hparams, hanswer, page_of_found, hcursors]
  dsimp only
  rw [List.map_map]
  exact congrArg some (congrArg (Keyset.Page.mk · _) (List.map_id _))

theorem mem_matchingTraces {m : Moment} {t : TraceSummary} (ht : t ∈ matchingTraces T params m) :
    ∃ row ∈ m.page.traces, row.summary = t := by
  unfold matchingTraces at ht
  split at ht
  · obtain ⟨row, hrow, heq⟩ := List.mem_map.mp ht
    exact ⟨row, (List.mem_filter.mp hrow).1, heq⟩
  · cases ht

/-- What a filter selects of rows with their own ids has its own keys. -/
theorem nodup_matching {α β ι κ : Type} {columns : α → β} (id : β → ι) {rows : List α}
    (hrows : (rows.map fun row => id (columns row)).Nodup) (clauses : List (Clause α))
    {key : β → κ} (hid : ∀ {a b : β}, key a = key b → id a = id b) :
    ((matching columns clauses rows).map key).Nodup := by
  have hids : ((matching columns clauses rows).map id).Nodup := by
    unfold matching
    rw [List.map_map]
    exact hrows.sublist (List.filter_sublist.map _)
  exact List.pairwise_map.mpr ((List.pairwise_map.mp hids).imp fun hne heq => hne (hid heq))

theorem matchingTraces_nodup {κ : Type} {key : TraceSummary → κ}
    (hid : ∀ {a b : TraceSummary}, key a = key b → a.id = b.id) (m : Moment) :
    ((matchingTraces T params m).map key).Nodup := by
  unfold matchingTraces
  split
  · exact nodup_matching TraceSummary.id m.keyed.traces _ fun heq => hid heq
  · exact List.nodup_nil

theorem cursorPayload_none (hcursor : params.opt (py "cursor") = none) :
    cursorPayload T params = .ok none := by
  unfold cursorPayload
  rw [hcursor]

theorem cursorPayload_some {fields : Fields} {payload : CursorPayload}
    (h : decodeCursor T (encodeCursor T fields) = .ok payload) :
    cursorPayload T (params.withCursor (encodeCursor T fields)) = .ok (some payload) := by
  unfold cursorPayload
  rw [Params.opt_withCursor_self (encodeCursor_ne_nil T fields)]
  dsimp only
  rw [h]
  rfl

/-- Without a cursor an accepted request has the order it asks for. -/
theorem cursor_none_clauses : traceCursor order none = .ok [] := by
  cases order <;> rfl

/-- The traces by newest are paged by their key. -/
theorem serves_newest (hpos : 1 ≤ default) (hcursor : params.opt (py "cursor") = none)
    (ask : TracesAsk T params default limit .newest clauses) :
    Keyset.Serves TraceSummary.newestKey (tracesRequest T params default)
      (fun k => encodeCursor T [(py "o", .str (py "newest")),
        (py "k", .arr [.float (ofDual (ofLex k).1), .str (ofDual (ofLex k).2)])])
      (matchingTraces T params) limit where
  pos := parseLimit_pos hpos ask.limit
  nodup := matchingTraces_nodup newestKey_id
  first := tracesRequest_eq ask newest_le (fun _ => rfl) none none (cursorPayload_none hcursor)
    ask.order cursor_none_clauses rfl fun _ => rfl
  later := by
    intro m m' t ht
    obtain ⟨row, hrow, rfl⟩ := mem_matchingTraces ht
    have htext : row.id.encodable = true := m'.keyed.text row hrow
    have hdecode : decodeCursor T (Order.newest.cursor T row.summary) =
        .ok ⟨[(py "k", .arr [.float row.tsStart, .str row.id]), (py "o", .str (py "newest"))],
          [.float row.tsStart, .str row.id]⟩ :=
      decodeCursor_ordered T (by decide +kernel) (List.cons_ne_nil _ _) (by
        intro v hv
        rcases List.mem_cons.mp hv with rfl | hv
        · exact trivial
        · rw [List.mem_singleton.mp hv]
          exact htext)
    refine tracesRequest_eq ask newest_le (fun _ => rfl) (some (Order.newest.cursor T row.summary))
      (some row.summary.newestKey) (cursorPayload_some hdecode)
      (traceOrder_withCursor ask.order rfl _) rfl ?_ ?_ m
    · exact single_bindable [.real row.tsStart, .text row.id] _ (by
        simp only [List.all_cons, List.all_nil, SqlValue.bindable, htext, Bool.and_self])
    · intro next
      rw [List.all_cons, List.all_nil, Bool.and_true]
      exact decide_eq_decide.mpr (newest_lt row.summary next.summary).symm

/-- The traces by duration are paged by their key. -/
theorem serves_slowest (hpos : 1 ≤ default) (hcursor : params.opt (py "cursor") = none)
    (ask : TracesAsk T params default limit .slowest clauses) :
    Keyset.Serves TraceSummary.slowestKey (tracesRequest T params default)
      (fun k => encodeCursor T [(py "o", .str (py "slowest")),
        (py "k", .arr [.float (ofDual (ofLex k).1), .float (ofDual (ofLex (ofLex k).2).1),
          .str (ofLex (ofLex k).2).2])])
      (matchingTraces T params) limit where
  pos := parseLimit_pos hpos ask.limit
  nodup := matchingTraces_nodup slowestKey_id
  first := tracesRequest_eq ask slowest_le (fun _ => rfl) none none (cursorPayload_none hcursor)
    ask.order cursor_none_clauses rfl fun _ => rfl
  later := by
    intro m m' t ht
    obtain ⟨row, hrow, rfl⟩ := mem_matchingTraces ht
    have htext : row.id.encodable = true := m'.keyed.text row hrow
    have hdecode : decodeCursor T (Order.slowest.cursor T row.summary) =
        .ok ⟨[(py "k", .arr [.float row.durationMs, .float row.tsStart, .str row.id]),
          (py "o", .str (py "slowest"))],
          [.float row.durationMs, .float row.tsStart, .str row.id]⟩ :=
      decodeCursor_ordered T (by decide +kernel) (List.cons_ne_nil _ _) (by
        intro v hv
        rcases List.mem_cons.mp hv with rfl | hv
        · exact trivial
        · rcases List.mem_cons.mp hv with rfl | hv
          · exact trivial
          · rw [List.mem_singleton.mp hv]
            exact htext)
    refine tracesRequest_eq ask slowest_le (fun _ => rfl)
      (some (Order.slowest.cursor T row.summary)) (some row.summary.slowestKey)
      (cursorPayload_some hdecode) (traceOrder_withCursor ask.order rfl _) rfl ?_ ?_ m
    · exact single_bindable [.real row.durationMs, .real row.durationMs, .real row.tsStart,
        .real row.durationMs, .real row.tsStart, .text row.id] _ (by
        simp only [List.all_cons, List.all_nil, SqlValue.bindable, htext, Bool.and_self])
    · intro next
      rw [List.all_cons, List.all_nil, Bool.and_true]
      exact decide_eq_decide.mpr (slowest_lt row.summary next.summary).symm

end Traces

/-! ## Requests for log lines -/

section Logs

variable {T : PyText} {params : Params} {limit : ℕ} {level : Option PyStr}

/-- A request for log lines is accepted, with what its parameters ask for. -/
structure LogsAsk (T : PyText) (params : Params) (limit : ℕ) (level : Option PyStr) : Prop where
  /-- the parameters are known -/
  known : params.rejectUnknown logFilters = .ok ()
  /-- the window -/
  window : ∀ now, ∃ w, resolveWindow T params now = .ok w
  /-- the limit -/
  limit : parseLimit T (params.first (py "limit")) defaultLimit = .ok limit
  /-- the level -/
  levelOk : parseLevel (params.opt (py "level")) = .ok level
  /-- the values of the filter can be bound -/
  bound : clausesBindable (logClauses params level) = true

/-- A first request that is answered is accepted. -/
theorem logsAsk_of_ok {m : Moment} {page : ListPage LogRow}
    (h : logsList T params m = .ok page) : ∃ limit level, LogsAsk T params limit level := by
  unfold logsList at h
  obtain ⟨_, hknown, h⟩ := bind_eq_ok.mp h
  obtain ⟨w, hw, h⟩ := bind_eq_ok.mp h
  obtain ⟨limit, hlimit, h⟩ := bind_eq_ok.mp h
  obtain ⟨level, hlevel, h⟩ := bind_eq_ok.mp h
  obtain ⟨payload, -, h⟩ := bind_eq_ok.mp h
  obtain ⟨cursor, -, h⟩ := bind_eq_ok.mp h
  obtain ⟨rows, hrows, -⟩ := bind_eq_ok.mp h
  refine ⟨limit, level, hknown, fun now => resolveWindow_ok hw now, hlimit, hlevel,
    bound_of_selected hrows⟩

/-- The lines a request is about, as its filter selects them. -/
def matchingLogs (T : PyText) (params : Params) (m : Moment) : List LogRow :=
  match resolveWindow T params m.now, parseLevel (params.opt (py "level")) with
  | .ok w, .ok level => matching id
      (Clause.window (fun row : LogRow => row.ts) w ++ logClauses params level) m.page.logEntry
  | _, _ => []

/-- What a client reads in a page of log lines: the lines, and the cursor. -/
def logsRequest (T : PyText) (params : Params) (cursor : Option PyStr) (m : Moment) :
    Option (Keyset.Page LogRow PyStr) :=
  match logsList T ((cursor.map params.withCursor).getD params) m with
  | .ok page => some ⟨page.items, page.nextCursor⟩
  | .error _ => none

theorem matchingLogs_eq (ask : LogsAsk T params limit level) {m : Moment} {w : Window}
    (hw : resolveWindow T params m.now = .ok w) :
    matchingLogs T params m = matching id
      (Clause.window (fun row : LogRow => row.ts) w ++ logClauses params level)
      m.page.logEntry := by
  unfold matchingLogs
  rw [hw, ask.levelOk]

theorem logClauses_withCursor (cursor : PyStr) :
    logClauses (params.withCursor cursor) level = logClauses params level := by
  unfold logClauses
  rw [Params.opt_withCursor (by decide +kernel), Params.opt_withCursor (by decide +kernel)]

/-- An accepted request, with or without a cursor, is answered with the page after
the key that its cursor stands for. -/
theorem logsRequest_eq (ask : LogsAsk T params limit level) (token : Option PyStr)
    (c : Option (ℚᵒᵈ ×ₗ ℕᵒᵈ)) {payload : Option CursorPayload} {cursor : List (Clause LogRow)}
    (hpayload : cursorPayload T ((token.map params.withCursor).getD params) = .ok payload)
    (hcursor : logCursor payload = .ok cursor) (hbound : clausesBindable cursor = true)
    (hpast : ∀ row : LogRow,
      (cursor.all fun c => c.holds row) = Keyset.past c (tsIdKey row.tsId)) (m : Moment) :
    logsRequest T params token m =
      some ((Keyset.page (fun row => tsIdKey row.tsId) limit (matchingLogs T params m) c).encode
        fun k => tsIdCursor T (ofDual (ofLex k).1, ofDual (ofLex k).2)) := by
  obtain ⟨w, hw⟩ := ask.window m.now
  generalize hparams : (token.map params.withCursor).getD params = params' at hpayload
  obtain ⟨hknown, hw', hlimit⟩ :=
    checks_withCursor (by decide +kernel) ask.known hw ask.limit token hparams
  have hlevel : parseLevel (params'.opt (py "level")) = .ok level := by
    rw [← hparams, map_withCursor (f := fun p => p.opt (py "level")) fun cursor =>
      Params.opt_withCursor (by decide +kernel) cursor, ask.levelOk]
  have hclauses : logClauses params' level = logClauses params level := by
    rw [← hparams, map_withCursor (f := fun p => logClauses p level) logClauses_withCursor]
  have hfilter : clausesBindable (Clause.window (fun row : LogRow => row.ts) w ++
      logClauses params level) = true := by
    rw [clauses_bindable_append, bindable_window, ask.bound]
    rfl
  have hrows := selectRows_rest id (fun a b : LogRow => tsId_le a.tsId b.tsId) (by
    rw [clauses_bindable_append, hfilter, hbound]
    rfl) hpast (limit + 1) m.page.logEntry
  rw [← matchingLogs_eq ask hw] at hrows
  have hanswer : logsList T params' m = .ok
      ⟨((Keyset.rest (fun row => tsIdKey row.tsId) c (matchingLogs T params m)).take
          (limit + 1)).take limit,
        nextCursor limit ((Keyset.rest (fun row => tsIdKey row.tsId) c
          (matchingLogs T params m)).take (limit + 1)) fun row => tsIdCursor T row.tsId,
        (matching id (Clause.window (fun row : LogRow => row.ts) w ++ logClauses params level)
          m.total.logEntry).length⟩ := by
    unfold logsList
    refine bind_eq_ok.mpr ⟨(), hknown, bind_eq_ok.mpr ⟨w, hw', bind_eq_ok.mpr ⟨limit, hlimit,
      bind_eq_ok.mpr ⟨level, hlevel, ?_⟩⟩⟩⟩
    rw [hclauses]
    exact bind_eq_ok.mpr ⟨payload, hpayload, bind_eq_ok.mpr ⟨cursor, hcursor,
      bind_eq_ok.mpr ⟨_, hrows, bind_eq_ok.mpr ⟨_, if_pos hfilter, rfl⟩⟩⟩⟩
  unfold logsRequest
  rw [hparams, hanswer, page_of_found]
  rfl

theorem mem_matchingLogs {m : Moment} {row : LogRow} (h : row ∈ matchingLogs T params m) :
    row ∈ m.page.logEntry := by
  unfold matchingLogs at h
  split at h
  · obtain ⟨row', hrow, rfl⟩ := List.mem_map.mp h
    exact (List.mem_filter.mp hrow).1
  · cases h

theorem matchingLogs_nodup (m : Moment) :
    ((matchingLogs T params m).map fun row => tsIdKey row.tsId).Nodup := by
  unfold matchingLogs
  split
  · exact nodup_matching LogRow.id m.keyed.logs _ fun heq =>
      congrArg Prod.snd (tsIdKey_injective heq)
  · exact List.nodup_nil

/-- An id that SQLite has stored can be bound. -/
theorem bindable_id {n : ℕ} (h : n < 2 ^ 63) : SqlValue.bindable (.integer n) = true := by
  unfold SqlValue.bindable
  rw [decide_eq_true_eq]
  omega

/-- The log lines are paged by their key. -/
theorem serves_logs (hcursor : params.opt (py "cursor") = none)
    (ask : LogsAsk T params limit level) :
    Keyset.Serves (fun row => tsIdKey row.tsId) (logsRequest T params)
      (fun k => tsIdCursor T (ofDual (ofLex k).1, ofDual (ofLex k).2)) (matchingLogs T params)
      limit where
  pos := parseLimit_pos (by decide) ask.limit
  nodup := matchingLogs_nodup
  first := logsRequest_eq ask none none (cursorPayload_none hcursor) rfl rfl fun _ => rfl
  later := by
    intro m m' row hrow
    have hid := m'.keyed.logIds row (mem_matchingLogs hrow)
    have hdecode : decodeCursor T (tsIdCursor T row.tsId) =
        .ok ⟨[(py "k", .arr [.float row.ts, .int row.id])], [.float row.ts, .int row.id]⟩ := by
      unfold decodeCursor tsIdCursor
      rw [cursorJson_plain T (List.cons_ne_nil _ _) (by
        intro v hv
        rcases List.mem_cons.mp hv with rfl | hv
        · exact trivial
        · rw [List.mem_singleton.mp hv]
          exact trivial)]
      dsimp only
      rw [Fields.get, if_pos rfl]
      rfl
    refine logsRequest_eq ask (some (tsIdCursor T row.tsId)) (some (tsIdKey row.tsId))
      (cursorPayload_some hdecode) rfl ?_ ?_ m
    · exact single_bindable [.real row.ts, .integer row.id] _ (by
        rw [List.all_cons, List.all_cons, bindable_id hid]
        rfl)
    · intro next
      rw [List.all_cons, List.all_nil, Bool.and_true]
      refine decide_eq_decide.mpr (Iff.trans ?_ (tsId_lt row.tsId next.tsId).symm)
      exact or_congr Iff.rfl (and_congr Iff.rfl (by exact_mod_cast Iff.rfl))

end Logs

/-! ## Requests for audit entries -/

section Audit

variable {T : PyText} {params : Params} {limit : ℕ}

/-- A request for audit entries is accepted, with what its parameters ask for. -/
structure AuditAsk (T : PyText) (params : Params) (limit : ℕ) : Prop where
  /-- the parameters are known -/
  known : params.rejectUnknown auditParams = .ok ()
  /-- the window -/
  window : ∀ now, ∃ w, resolveWindow T params now = .ok w
  /-- the limit -/
  limit : parseLimit T (params.first (py "limit")) defaultLimit = .ok limit
  /-- the values of the filter can be bound -/
  bound : clausesBindable (auditClauses T params) = true

/-- A first request that is answered is accepted. -/
theorem auditAsk_of_ok {m : Moment} {page : ListPage AuditRow}
    (h : listAudit T params m = .ok page) : ∃ limit, AuditAsk T params limit := by
  unfold listAudit at h
  obtain ⟨_, hknown, h⟩ := bind_eq_ok.mp h
  obtain ⟨w, hw, h⟩ := bind_eq_ok.mp h
  obtain ⟨limit, hlimit, h⟩ := bind_eq_ok.mp h
  obtain ⟨cursor, -, h⟩ := bind_eq_ok.mp h
  obtain ⟨rows, hrows, -⟩ := bind_eq_ok.mp h
  refine ⟨limit, hknown, fun now => resolveWindow_ok hw now, hlimit, bound_of_selected hrows⟩

/-- The entries a request is about, as its filter selects them. -/
def matchingAudit (T : PyText) (params : Params) (m : Moment) : List AuditRow :=
  match resolveWindow T params m.now with
  | .ok w => matching id
      (Clause.window (fun row : AuditRow => row.ts) w ++ auditClauses T params) m.page.auditLog
  | .error _ => []

/-- What a client reads in a page of audit entries: the entries, and the cursor. -/
def auditRequest (T : PyText) (params : Params) (cursor : Option PyStr) (m : Moment) :
    Option (Keyset.Page AuditRow PyStr) :=
  match listAudit T ((cursor.map params.withCursor).getD params) m with
  | .ok page => some ⟨page.items, page.nextCursor⟩
  | .error _ => none

theorem auditClauses_withCursor (cursor : PyStr) :
    auditClauses T (params.withCursor cursor) = auditClauses T params := by
  unfold auditClauses
  rw [Params.opt_withCursor (by decide +kernel), Params.opt_withCursor (by decide +kernel)]

/-- An accepted request, with or without a cursor, is answered with the page after
the key that its cursor stands for. -/
theorem auditRequest_eq (ask : AuditAsk T params limit) (token : Option PyStr)
    (c : Option (ℚᵒᵈ ×ₗ ℕᵒᵈ)) {cursor : List (Clause AuditRow)}
    (hcursor : auditCursor T ((token.map params.withCursor).getD params) = .ok cursor)
    (hbound : clausesBindable cursor = true)
    (hpast : ∀ row : AuditRow,
      (cursor.all fun c => c.holds row) = Keyset.past c (tsIdKey row.tsId)) (m : Moment) :
    auditRequest T params token m =
      some ((Keyset.page (fun row => tsIdKey row.tsId) limit (matchingAudit T params m) c).encode
        fun k => tsIdCursor T (ofDual (ofLex k).1, ofDual (ofLex k).2)) := by
  obtain ⟨w, hw⟩ := ask.window m.now
  generalize hparams : (token.map params.withCursor).getD params = params' at hcursor
  obtain ⟨hknown, hw', hlimit⟩ :=
    checks_withCursor (by decide +kernel) ask.known hw ask.limit token hparams
  have hclauses : auditClauses T params' = auditClauses T params := by
    rw [← hparams, map_withCursor auditClauses_withCursor]
  have hmatching : matchingAudit T params m = matching id
      (Clause.window (fun row : AuditRow => row.ts) w ++ auditClauses T params)
      m.page.auditLog := by
    unfold matchingAudit
    rw [hw]
  have hfilter : clausesBindable (Clause.window (fun row : AuditRow => row.ts) w ++
      auditClauses T params) = true := by
    rw [clauses_bindable_append, bindable_window, ask.bound]
    rfl
  have hrows := selectRows_rest id (fun a b : AuditRow => tsId_le a.tsId b.tsId) (by
    rw [clauses_bindable_append, hfilter, hbound]
    rfl) hpast (limit + 1) m.page.auditLog
  rw [← hmatching] at hrows
  have hanswer : listAudit T params' m = .ok
      ⟨((Keyset.rest (fun row => tsIdKey row.tsId) c (matchingAudit T params m)).take
          (limit + 1)).take limit,
        nextCursor limit ((Keyset.rest (fun row => tsIdKey row.tsId) c
          (matchingAudit T params m)).take (limit + 1)) fun row => tsIdCursor T row.tsId,
        (matching id (Clause.window (fun row : AuditRow => row.ts) w ++ auditClauses T params)
          m.total.auditLog).length⟩ := by
    unfold listAudit
    refine bind_eq_ok.mpr ⟨(), hknown, bind_eq_ok.mpr ⟨w, hw', bind_eq_ok.mpr ⟨limit, hlimit,
      bind_eq_ok.mpr ⟨cursor, hcursor, ?_⟩⟩⟩⟩
    rw [hclauses]
    exact bind_eq_ok.mpr ⟨_, hrows, bind_eq_ok.mpr ⟨_, if_pos hfilter, rfl⟩⟩
  unfold auditRequest
  rw [hparams, hanswer, page_of_found]
  rfl

theorem mem_matchingAudit {m : Moment} {row : AuditRow} (h : row ∈ matchingAudit T params m) :
    row ∈ m.page.auditLog := by
  unfold matchingAudit at h
  split at h
  · obtain ⟨row', hrow, rfl⟩ := List.mem_map.mp h
    exact (List.mem_filter.mp hrow).1
  · cases h

theorem matchingAudit_nodup (m : Moment) :
    ((matchingAudit T params m).map fun row => tsIdKey row.tsId).Nodup := by
  unfold matchingAudit
  split
  · exact nodup_matching AuditRow.id m.keyed.audit _ fun heq =>
      congrArg Prod.snd (tsIdKey_injective heq)
  · exact List.nodup_nil

/-- The audit entries are paged by their key. -/
theorem serves_audit (hcursor : params.opt (py "cursor") = none) (ask : AuditAsk T params limit) :
    Keyset.Serves (fun row => tsIdKey row.tsId) (auditRequest T params)
      (fun k => tsIdCursor T (ofDual (ofLex k).1, ofDual (ofLex k).2)) (matchingAudit T params)
      limit where
  pos := parseLimit_pos (by decide) ask.limit
  nodup := matchingAudit_nodup
  first := by
    have hclauses : auditCursor T params = .ok [] := by
      unfold auditCursor
      rw [hcursor]
    exact auditRequest_eq ask none none hclauses rfl fun _ => rfl
  later := by
    intro m m' row hrow
    have hid := m'.keyed.auditIds row (mem_matchingAudit hrow)
    have hdecode : decodeAuditCursor T (tsIdCursor T row.tsId) = .ok (row.ts, (row.id : ℤ)) := by
      unfold decodeAuditCursor tsIdCursor
      rw [cursorJson_plain T (List.cons_ne_nil _ _) (by
        intro v hv
        rcases List.mem_cons.mp hv with rfl | hv
        · exact trivial
        · rw [List.mem_singleton.mp hv]
          exact trivial)]
      dsimp only
      rw [Fields.get, if_pos rfl]
      rfl
    have hclauses : auditCursor T (params.withCursor (tsIdCursor T row.tsId)) =
        .ok [⟨[.real row.ts, .real row.ts, .integer row.id], fun next =>
          decide (next.ts < row.ts ∨ (next.ts = row.ts ∧ (next.id : ℤ) < row.id))⟩] := by
      have hopt : (params.withCursor (tsIdCursor T row.tsId)).opt (py "cursor") =
          some (tsIdCursor T row.tsId) := Params.opt_withCursor_self (encodeCursor_ne_nil T _)
      unfold auditCursor
      rw [hopt]
      dsimp only
      rw [hdecode]
      rfl
    refine auditRequest_eq ask (some (tsIdCursor T row.tsId)) (some (tsIdKey row.tsId)) hclauses
      ?_ ?_ m
    · exact single_bindable [.real row.ts, .real row.ts, .integer row.id] _ (by
        rw [List.all_cons, List.all_cons, List.all_cons, bindable_id hid]
        rfl)
    · intro next
      rw [List.all_cons, List.all_nil, Bool.and_true]
      refine decide_eq_decide.mpr (Iff.trans ?_ (tsId_lt row.tsId next.tsId).symm)
      exact or_congr Iff.rfl (and_congr Iff.rfl (by exact_mod_cast Iff.rfl))

end Audit

/-! ## The listings -/

/-- **Pagination is complete and free of duplicates**: each listing is followed from
its first page through its cursors, whatever its filter and its limit. -/
theorem listings_paginate (T : PyText) (params : Params)
    (hcursor : params.opt (py "cursor") = none) (default : ℕ) (hpos : 1 ≤ default)
    (m : Moment) :
    (∀ page, listTraces T params default m = .ok page → traceOrder params none = .ok .newest →
      Keyset.Paginates TraceSummary.newestKey (tracesRequest T params default)
        (matchingTraces T params)) ∧
    (∀ page, listTraces T params default m = .ok page → traceOrder params none = .ok .slowest →
      Keyset.Paginates TraceSummary.slowestKey (tracesRequest T params default)
        (matchingTraces T params)) ∧
    (∀ page, logsList T params m = .ok page →
      Keyset.Paginates (fun row => tsIdKey row.tsId) (logsRequest T params)
        (matchingLogs T params)) ∧
    (∀ page, listAudit T params m = .ok page →
      Keyset.Paginates (fun row => tsIdKey row.tsId) (auditRequest T params)
        (matchingAudit T params)) := by
  refine ⟨fun page h horder => ?_, fun page h horder => ?_, fun page h => ?_, fun page h => ?_⟩
  · obtain ⟨limit, order, clauses, ask⟩ := tracesAsk_of_ok hcursor h
    obtain rfl := Except.ok.inj (ask.order.symm.trans horder)
    exact (serves_newest hpos hcursor ask).paginates
  · obtain ⟨limit, order, clauses, ask⟩ := tracesAsk_of_ok hcursor h
    obtain rfl := Except.ok.inj (ask.order.symm.trans horder)
    exact (serves_slowest hpos hcursor ask).paginates
  · obtain ⟨limit, level, ask⟩ := logsAsk_of_ok h
    exact (serves_logs hcursor ask).paginates
  · obtain ⟨limit, ask⟩ := auditAsk_of_ok h
    exact (serves_audit hcursor ask).paginates

/-! ## A walk of the listings -/

/-- A trace that started at 100 and took 5 ms. -/
def tiedTrace (id : PyStr) : TraceColumns where
  id := id
  tsStart := 100
  durationMs := 5
  route := py "/route"
  method := py "POST"
  status := 200

/-- Two such traces, a log line and an audit entry. -/
def tiedDb : Db where
  traces := [⟨tiedTrace (py "aa000001"), 1⟩, ⟨tiedTrace (py "aa000002"), 2⟩]
  logEntry := [⟨⟨100, py "info", py "app", none, py "started"⟩, 1⟩]
  auditLog := [⟨⟨100, none, py "root", py "user.created", none, .ok, none⟩, 1⟩]

/-- A request while that is stored. -/
def tiedMoment : Moment where
  now := 200
  page := tiedDb
  spans := tiedDb
  total := tiedDb
  keyed := {
    traces := by decide +kernel
    text := by decide +kernel
    logs := by decide +kernel
    logIds := by decide +kernel
    audit := by decide +kernel
    auditIds := by decide +kernel }

/-- One row a page. -/
def oneAtATime : Params := Dict.set Dict.empty (py "limit") [py "1"]

theorem ok_of_isOk {ε α : Type} {x : Except ε α} (h : x.isOk = true) : ∃ a, x = .ok a := by
  cases x with
  | error e => cases h
  | ok a => exact ⟨a, rfl⟩

theorem listings_paginate_tied :
    Keyset.Paginates TraceSummary.newestKey (tracesRequest wholeText oneAtATime defaultLimit)
      (matchingTraces wholeText oneAtATime) ∧
    Keyset.Paginates TraceSummary.slowestKey
      (tracesRequest wholeText (Dict.set oneAtATime (py "order") [py "slowest"]) defaultLimit)
      (matchingTraces wholeText (Dict.set oneAtATime (py "order") [py "slowest"])) ∧
    Keyset.Paginates (fun row => tsIdKey row.tsId) (logsRequest wholeText oneAtATime)
      (matchingLogs wholeText oneAtATime) ∧
    Keyset.Paginates (fun row => tsIdKey row.tsId) (auditRequest wholeText oneAtATime)
      (matchingAudit wholeText oneAtATime) := by
  obtain ⟨newest, hnewest⟩ := ok_of_isOk
    (x := listTraces wholeText oneAtATime defaultLimit tiedMoment) (by decide +kernel)
  obtain ⟨slowest, hslowest⟩ := ok_of_isOk (x := listTraces wholeText
    (Dict.set oneAtATime (py "order") [py "slowest"]) defaultLimit tiedMoment) (by decide +kernel)
  obtain ⟨logs, hlogs⟩ := ok_of_isOk (x := logsList wholeText oneAtATime tiedMoment)
    (by decide +kernel)
  obtain ⟨audit, haudit⟩ := ok_of_isOk (x := listAudit wholeText oneAtATime tiedMoment)
    (by decide +kernel)
  obtain ⟨hfirst, -, hthird, hfourth⟩ := listings_paginate wholeText oneAtATime
    (by decide +kernel) defaultLimit (by decide) tiedMoment
  obtain ⟨-, hsecond, -, -⟩ := listings_paginate wholeText
    (Dict.set oneAtATime (py "order") [py "slowest"]) (by decide +kernel) defaultLimit (by decide)
    tiedMoment
  exact ⟨hfirst newest hnewest rfl, hsecond slowest hslowest rfl, hthird logs hlogs,
    hfourth audit haudit⟩

end LayaWatch
