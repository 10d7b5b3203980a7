import LayaWatch.Engine
import LayaWatch.JsonReadBack
import LayaWatch.Pagination

/-!
# The export of the log

`GET /api/v1/logs/export` of `api/logs.py` reads page after page of `logs_list`, while lines are
written and deleted between them. The window is fixed before the first page, so the cursors
lead through it: what comes out is newest first, and no line twice, and a line that was there
all the while is in it, unless the limit was reached before it (`export_kept`). Who reads the
file line by line has the rows.
-/

namespace LayaWatch

open OrderDual

/-! ## The handler -/

/-- `_EXPORT_PARAMS`. -/
def exportParams : List PyStr := [py "range", py "format"]

/-- `_EXPORT_LIMIT`. -/
def exportLimit : ℕ := 10000

/-- `dict(row)`. -/
def LogRow.item (row : LogRow) : Json :=
  .obj [(py "id", .int row.id), (py "ts", .float row.ts), (py "level", .str row.level),
    (py "source", .str row.source), (py "trace_id", (row.traceId.map Json.str).getD .null),
    (py "message", .str row.message)]

/-- `text_response`. -/
def textResponse (text : PyStr) (status : ℤ) (headers : List (PyStr × PyStr)) : Engine.Reply where
  status := status
  headers := headers.foldl (fun out h => Dict.upsert h.1 h.2 out)
    [(py "Content-Type", py "text/plain; charset=utf-8")]
  body := text

section

variable (T : PyText)

/-- The checks of the query: the range that is asked for, and its seconds. -/
def exportAsk (query : Params) : Except QueryError (PyStr × ℚ) := do
  query.rejectUnknown exportParams
  if query.first (py "format") ≠ some (py "jsonl") then .error (.text "format must be jsonl")
  else
    let token := (query.opt (py "range")).getD (py "1h")
    let range ← parseRange token
    return (token, range)

/-- `window`. -/
def exportWindow (now range : ℚ) : Params :=
  Dict.set (Dict.set (Dict.set Dict.empty (py "since") [T.repr (now - range)])
    (py "until") [T.repr now]) (py "limit") [JsonText.dumpsNat maxLimit]

/-- The `while` loop from its `n`-th page on, which is read at `reads n`. -/
def exportPages (window : Params) (reads : ℕ → Moment) :
    ℕ → ℕ → Option PyStr → List LogRow → Except QueryError (List LogRow)
  | 0, _, _, _ => .error .crashed
  | fuel + 1, n, cursor, items =>
    if items.length < exportLimit then do
      let page ← logsList T ((cursor.map window.withCursor).getD window) (reads n)
      match page.nextCursor with
      | none => return items ++ page.items
      | some next => exportPages window reads fuel (n + 1) (some next) (items ++ page.items)
    else return items

/-- The file. -/
def exportReply (token : PyStr) (items : List LogRow) : Engine.Reply :=
  textResponse (JsonText.dumpsLines T.toFloatText (items.map LogRow.item)) 200
    [(py "Content-Disposition", py "attachment; filename=logs-" ++ token ++ py ".jsonl")]

/-- `export`. A page has a line if another one follows, so there are no more pages than lines. -/
def exportLogs (query : Params) (now : ℚ) (reads : ℕ → Moment) :
    Except QueryError Engine.Reply := do
  let (token, range) ← exportAsk query
  let items ← exportPages T (exportWindow T now range) reads (exportLimit + 1) 0 none []
  return exportReply T token (items.take exportLimit)

end

/-! ## The window -/

/-- What Python promises of the texts of numbers. -/
structure PyText.ReadsBack (T : PyText) : Prop where
  /-- `float(str(x))` -/
  float : ∀ x, T.float (T.repr x) = some (some x)
  /-- `int(str(n))` -/
  int : ∀ n : ℕ, T.int (JsonText.dumpsNat n) = some n

section

variable {T : PyText} {now range : ℚ} {reads : ℕ → Moment} {query : Params} {token : PyStr}

theorem repr_ne_nil (x : ℚ) : T.repr x ≠ [] := fun hnil => by
  have hmark := T.repr_float x
  rw [hnil] at hmark
  cases hmark

/-- A parameter that is not empty. -/
theorem opt_of_first {params : Params} {name value : PyStr} (h : params.first name = some value)
    (hne : value ≠ []) : params.opt name = some value := by
  unfold Params.opt
  rw [h]
  cases value with
  | nil => exact absurd rfl hne
  | cons c value => rfl

theorem parseRange_pos {raw : PyStr} (h : parseRange raw = .ok range) : 0 < range := by
  unfold parseRange at h
  split at h
  · rename_i e he
    rw [← Except.ok.inj h]
    have hall : (rangeSeconds.all fun e => decide (0 < e.2)) = true := by decide +kernel
    exact of_decide_eq_true (List.all_eq_true.mp hall e (List.mem_of_find?_eq_some he))
  · cases h

/-- The window is what it was when the export began. -/
theorem exportWindow_resolve (hreads : T.ReadsBack) (hrange : 0 < range) (at' : ℚ) :
    resolveWindow T (exportWindow T now range) at' = .ok ⟨some (now - range), some now⟩ := by
  have hsince : (exportWindow T now range).opt (py "since") = some (T.repr (now - range)) :=
    opt_of_first rfl (repr_ne_nil _)
  have huntil : (exportWindow T now range).opt (py "until") = some (T.repr now) :=
    opt_of_first rfl (repr_ne_nil _)
  have hnone : (exportWindow T now range).opt (py "range") = none := rfl
  have hle : ¬now ≤ now - range := not_le.mpr (sub_lt_self now hrange)
  unfold resolveWindow
  rw [hsince, huntil, hnone]
  simp only [Option.isSome_none, Bool.false_and, Bool.false_eq_true, if_false, parseBound,
    parseFloat, hreads.float, Except.map]
  exact bind_eq_ok.mpr ⟨_, rfl, bind_eq_ok.mpr ⟨_, rfl, if_neg hle⟩⟩

/-- The pages of the export are asked for as they should be. -/
theorem exportWindow_ask (hreads : T.ReadsBack) (hrange : 0 < range) :
    LogsAsk T (exportWindow T now range) maxLimit none where
  known := by
    have hkeys : (exportWindow T now range).keys = [py "since", py "until", py "limit"] := rfl
    rw [Params.rejectUnknown_eq_ok, hkeys]
    decide +kernel
  window at' := ⟨_, exportWindow_resolve hreads hrange at'⟩
  limit := by
    have hfirst : (exportWindow T now range).first (py "limit") =
        some (JsonText.dumpsNat maxLimit) := rfl
    have hne : JsonText.dumpsNat maxLimit ≠ [] := JsonText.dumpsNat_ne_nil _
    rw [hfirst]
    unfold parseLimit
    split
    · rename_i hnone
      cases hnone
    · rename_i hnil
      exact absurd (Option.some.inj hnil) hne
    · rename_i raw hraw
      obtain rfl := Option.some.inj hraw
      rw [hreads.int]
      rfl
  levelOk := rfl
  bound := rfl

theorem mem_exportLogs (hreads : T.ReadsBack) (hrange : 0 < range) {m : Moment} {row : LogRow} :
    row ∈ matchingLogs T (exportWindow T now range) m ↔
      row ∈ m.page.logEntry ∧ now - range ≤ row.ts ∧ row.ts < now := by
  rw [matchingLogs_eq (exportWindow_ask hreads hrange) (exportWindow_resolve hreads hrange m.now)]
  have hclauses : logClauses (exportWindow T now range) none = [] := rfl
  unfold matching
  rw [hclauses, List.append_nil, List.map_id, List.mem_filter]
  refine and_congr_right fun _ => ?_
  simp only [Clause.window, Option.map_some, Option.toList_some, List.singleton_append,
    List.all_cons, List.all_nil, Bool.and_true, Bool.and_eq_true, decide_eq_true_eq]

/-! ## The pages -/

/-- What the export has read in `pages` pages. -/
structure ExportKept (now range : ℚ) (reads : ℕ → Moment) (pages : ℕ) (items : List LogRow) :
    Prop where
  /-- there are not too many lines -/
  atMost : items.length ≤ exportLimit
  /-- the newest first, and no line twice -/
  newestFirst : items.Pairwise fun a b => b.ts < a.ts ∨ b.ts = a.ts ∧ b.id < a.id
  /-- each was there at some page, and is in the window -/
  sound : ∀ row ∈ items, (now - range ≤ row.ts ∧ row.ts < now) ∧
    ∃ n < pages, row ∈ (reads n).page.logEntry
  /-- what was there at all of them is exported, unless so many newer lines are -/
  complete : ∀ row : LogRow, now - range ≤ row.ts → row.ts < now →
    (∀ n < pages, row ∈ (reads n).page.logEntry) → row ∈ items ∨
      items.length = exportLimit ∧ ∀ r ∈ items, row.ts < r.ts ∨ row.ts = r.ts ∧ row.id < r.id

/-- The loop collects the pages of the listing. -/
theorem exportPages_of_collect {window : Params} {fuel n : ℕ} {cursor : Option PyStr}
    {items found : List LogRow}
    (h : Keyset.collect (logsRequest T window) reads exportLimit fuel n cursor items =
      some found) :
    exportPages T window reads fuel n cursor items = .ok found := by
  induction fuel generalizing n cursor items with
  | zero => cases h
  | succ fuel ih =>
    unfold Keyset.collect at h
    unfold exportPages
    by_cases hlen : items.length < exportLimit
    · rw [if_pos hlen] at h ⊢
      rcases hpage : logsList T ((cursor.map window.withCursor).getD window) (reads n) with
        e | page
      · have hrequest : logsRequest T window cursor (reads n) = none := by
          rw [logsRequest, hpage]
        rw [hrequest] at h
        cases h
      · have hrequest : logsRequest T window cursor (reads n) =
            some ⟨page.items, page.nextCursor⟩ := by
          rw [logsRequest, hpage]
        rw [hrequest] at h
        refine bind_eq_ok.mpr ⟨page, rfl, ?_⟩
        rcases hnext : page.nextCursor with _ | next
        · simp only [hnext] at h ⊢
          exact congrArg Except.ok (Option.some.inj h)
        · simp only [hnext] at h ⊢
          exact ih h
    · rw [if_neg hlen] at h ⊢
      exact congrArg Except.ok (Option.some.inj h)

/-- The columns of text are text. -/
structure LogRow.Text (row : LogRow) : Prop where
  /-- `level` -/
  level : row.level.encodable = true
  /-- `source` -/
  source : row.source.encodable = true
  /-- `trace_id` -/
  traceId : ∀ id, row.traceId = some id → id.encodable = true
  /-- `message` -/
  message : row.message.encodable = true

theorem LogRow.Text.storable {row : LogRow} (h : row.Text) : JsonText.Storable row.item := by
  have hkeys : ([py "id", py "ts", py "level", py "source", py "trace_id", py "message"]).Nodup ∧
      ([py "id", py "ts", py "level", py "source", py "trace_id", py "message"]).all
        PyStr.encodable = true := by decide +kernel
  obtain ⟨hnodup, hkeys⟩ := hkeys
  simp only [List.all_cons, List.all_nil, Bool.and_true, Bool.and_eq_true] at hkeys
  obtain ⟨hid, hts, hlevel, hsource, htrace, hmessage⟩ := hkeys
  have htraceId : JsonText.Storable ((row.traceId.map Json.str).getD .null) := by
    cases htraceId : row.traceId with
    | none => trivial
    | some id => exact h.traceId id htraceId
  exact ⟨hnodup, hid, trivial, hts, trivial, hlevel, h.level, hsource, h.source, htrace, htraceId,
    hmessage, h.message, trivial⟩

theorem mem_reads {pages : ℕ} {m : Moment} :
    m ∈ (List.range' 0 pages).map reads ↔ ∃ n < pages, reads n = m := by
  rw [List.mem_map]
  refine exists_congr fun n => and_congr_left fun _ => ?_
  rw [List.mem_range'_1]
  omega

/-- A row that is read at one page with the key of another that was there all the while is that
one. -/
theorem eq_of_key {m : Moment} {r row : LogRow} (hr : r ∈ m.page.logEntry)
    (hrow : row ∈ m.page.logEntry) (h : tsIdKey r.tsId = tsIdKey row.tsId) : r = row :=
  List.inj_on_of_nodup_map m.keyed.logs hr hrow (congrArg Prod.snd (tsIdKey_injective h))

/-- The first lines of a walk through the window, as many as are exported. -/
theorem kept_of_walk (hreads : T.ReadsBack) (hrange : 0 < range) {pages : ℕ}
    {found : List LogRow} {done : Bool}
    (hwalk : Keyset.Walk (logsRequest T (exportWindow T now range)) none
      ((List.range' 0 pages).map reads) found done)
    (hend : done = false → exportLimit ≤ found.length) :
    ExportKept now range reads pages (found.take exportLimit) := by
  have hask : LogsAsk T (exportWindow T now range) maxLimit none := exportWindow_ask hreads hrange
  have hserves := serves_logs rfl hask
  obtain ⟨hincreasing, hsound⟩ := hserves.increasing hwalk
  have hsource : ∀ row ∈ found, (now - range ≤ row.ts ∧ row.ts < now) ∧
      ∃ n < pages, row ∈ (reads n).page.logEntry := by
    intro row hrow
    obtain ⟨m, hm, hmatching⟩ := hsound row hrow
    obtain ⟨n, hn, rfl⟩ := mem_reads.mp hm
    obtain ⟨hmem, hin⟩ := (mem_exportLogs hreads hrange).mp hmatching
    exact ⟨hin, n, hn, hmem⟩
  refine ⟨List.length_take_le _ _, ?_, fun row hrow => hsource row (List.mem_of_mem_take hrow),
    fun row hafter hbefore hthere => ?_⟩
  · refine (hincreasing.sublist (List.take_sublist _ _)).imp fun {a b} hab => ?_
    exact (tsId_lt a.tsId b.tsId).mp hab
  · have hkeys : ∀ m ∈ (List.range' 0 pages).map reads,
        tsIdKey row.tsId ∈ (matchingLogs T (exportWindow T now range) m).map
          fun row => tsIdKey row.tsId := by
      intro m hm
      obtain ⟨n, hn, rfl⟩ := mem_reads.mp hm
      exact List.mem_map_of_mem ((mem_exportLogs hreads hrange).mpr
        ⟨hthere n hn, hafter, hbefore⟩)
    rcases hserves.covers hwalk hkeys with hin | ⟨hdone, hnewer⟩
    · obtain ⟨r, hr, hkey⟩ := List.mem_map.mp hin
      obtain ⟨-, n, hn, hmem⟩ := hsource r hr
      obtain rfl := eq_of_key hmem (hthere n hn) hkey
      -- it is among the first lines, or they are all newer
      rw [← List.take_append_drop exportLimit found] at hr hincreasing
      rcases List.mem_append.mp hr with hr | hr
      · exact Or.inl hr
      · refine Or.inr ⟨?_, fun r' hr' => ?_⟩
        · have hpos := List.length_pos_of_mem hr
          rw [List.length_drop] at hpos
          rw [List.length_take]
          omega
        · exact (tsId_lt r'.tsId r.tsId).mp
            ((List.pairwise_append.mp hincreasing).2.2 r' hr' r hr)
    · refine Or.inr ⟨List.length_take_of_le (hend hdone), fun r hr => ?_⟩
      exact (tsId_lt r.tsId row.tsId).mp (hnewer r (List.mem_of_mem_take hr))

/-- **An export is a listing.** Whatever is written and deleted while it reads its pages, it
answers with the newest lines of its window, each of which reads back as its row. -/
theorem export_kept (hreads : T.ReadsBack) (hask : exportAsk query = .ok (token, range))
    (htext : ∀ n, ∀ row ∈ (reads n).page.logEntry, row.Text) :
    ∃ items pages, exportLogs T query now reads = .ok (exportReply T token items) ∧
      ExportKept now range reads pages items ∧
      JsonText.loadsLines T.toFloatText (exportReply T token items).body =
        some (items.map LogRow.item) := by
  have hrange : 0 < range := by
    obtain ⟨_, -, h⟩ := bind_eq_ok.mp hask
    split at h
    · cases h
    · obtain ⟨seconds, hseconds, h⟩ := bind_eq_ok.mp h
      obtain ⟨-, rfl⟩ := Prod.mk.inj (Except.ok.inj h)
      exact parseRange_pos hseconds
  have hwindow : LogsAsk T (exportWindow T now range) maxLimit none :=
    exportWindow_ask hreads hrange
  have hserves := serves_logs rfl hwindow
  obtain ⟨pages, found, done, hcollect, hwalk, hend⟩ := hserves.collects reads exportLimit
    exportLimit 0 none [] hserves.given_none (Nat.le_add_left _ _)
  have hkept := kept_of_walk hreads hrange hwalk hend
  refine ⟨found.take exportLimit, pages, ?_, hkept, ?_⟩
  · exact bind_eq_ok.mpr ⟨_, hask, bind_eq_ok.mpr ⟨_, exportPages_of_collect hcollect, rfl⟩⟩
  · refine JsonText.loadsLines_dumpsLines T.toFloatText fun v hv => ?_
    obtain ⟨row, hrow, rfl⟩ := List.mem_map.mp hv
    obtain ⟨-, n, -, hmem⟩ := hkept.sound row hrow
    exact (htext n row hmem).storable

end

/-- Python on whole numbers, with floats read as they are written. -/
def exactText : PyText := { wholeText with float := fun s => (wholeRead s).map some }

theorem exactText_readsBack : exactText.ReadsBack where
  float x := by
    have hread : wholeRead (wholeRepr x) = some x := wholeRead_wholeRepr x
    exact congrArg (Option.map some) hread
  int n := by
    have hread := JsonText.readInt_dumpsInt n
    rw [JsonText.dumpsInt, if_neg (not_lt.mpr (Int.natCast_nonneg n)), Int.natAbs_natCast] at hread
    exact hread

/-- A request for the last hour. -/
def lastHour : Params :=
  Dict.set (Dict.set Dict.empty (py "format") [py "jsonl"]) (py "range") [py "1h"]

theorem export_kept_lastHour :
    ∃ items pages, exportLogs exactText lastHour 3000 (fun _ => tiedMoment) =
        .ok (exportReply exactText (py "1h") items) ∧
      ExportKept 3000 3600 (fun _ => tiedMoment) pages items ∧
      JsonText.loadsLines exactText.toFloatText (exportReply exactText (py "1h") items).body =
        some (items.map LogRow.item) := by
  refine export_kept exactText_readsBack (by rfl) fun _ row hrow => ?_
  obtain rfl := List.mem_singleton.mp hrow
  exact ⟨by decide +kernel, by decide +kernel, nofun, by decide +kernel⟩

end LayaWatch
