import LayaWatch.RetentionSafety
import LayaWatch.Lib.Pruning

/-!
# What does a retention pass leave behind?

`apply` of `store/retention.py` by itself, from any database: it builds the missing
10 s rows of what it is about to delete, completes their parents, and deletes in
chunks until a chunk falls short. `Wal.Leads` follows it from phase to phase: each
phase ends, and does to the tables what its section says.

The pass ends in a database that is `Retained`, and a second pass at the same time
changes nothing there (`retention_pass`). (Counts and buckets are integers of any size
here; SQLite's have 64 bits.)
-/

namespace LayaWatch

/-! ## The call -/

/-- The arguments of `apply` that say what is pruned. -/
structure RetentionArgs where
  /-- `max_traces` -/
  maxTraces : ℕ
  /-- `max_logs` -/
  maxLogs : ℕ
  /-- `max_age_days` -/
  maxAgeDays : ℚ
  /-- `rollup_days` -/
  rollupDays : ℚ := 90
  /-- `payload_ttl_s` -/
  payloadTtlS : ℚ := 86400

/-- `_SESSION_GRACE_DAYS`. -/
def sessionGraceDays : ℚ := 30

/-- The pass that `apply` runs, with the cutoffs it computes from the clock. -/
def RetentionArgs.pass (args : RetentionArgs) (now : ℚ) : Pass where
  maxTraces := args.maxTraces
  maxLogs := args.maxLogs
  ageCutoff := now - args.maxAgeDays * 86400
  rollupCutoff := now - args.rollupDays * 86400
  payloadCutoff := now - args.payloadTtlS
  sessionCutoff := now - sessionGraceDays * 86400

/-- The primary keys that the schema keeps. -/
structure Db.RowKeys (db : Db) : Prop where
  /-- `rowid` of `traces` -/
  traces : (db.traces.map TraceRow.rowid).Nodup
  /-- `id` of `log_entry` -/
  logs : (db.logEntry.map LogRow.id).Nodup
  /-- `id` of `sessions` -/
  sessions : (db.sessions.map SessionRow.id).Nodup

/-! ## What is left -/

/-- The newest `n` traces, by `ts_start` and `rowid`. -/
def newestTraces (n : ℕ) (traces : List TraceRow) : List TraceRow :=
  (traces.insertionSort fun a b => newestFirst a b = true).take n

/-- The newest `n` log entries, by `ts` and `id`. -/
def newestLogs (n : ℕ) (logs : List LogRow) : List LogRow :=
  (logs.insertionSort fun a b => newestLogFirst a b = true).take n

/-- The database `db'` is what a pass over `db` should leave. -/
structure Retained (pass : Pass) (db db' : Db) : Prop where
  /-- no trace is added or moved -/
  traces_sublist : db'.traces.Sublist db.traces
  /-- the traces that stay -/
  traces : ∀ row, row ∈ db'.traces ↔
    row ∈ newestTraces pass.maxTraces db.traces ∧ pass.ageCutoff ≤ row.tsStart
  /-- no log entry is added or moved -/
  logs_sublist : db'.logEntry.Sublist db.logEntry
  /-- the log entries that stay -/
  logs : ∀ row, row ∈ db'.logEntry ↔
    row ∈ newestLogs pass.maxLogs db.logEntry ∧ pass.ageCutoff ≤ row.ts
  /-- no old rollup row stays -/
  rollups : ∀ step key row, loadRollupRow db' step key = some row →
    pass.rollupCutoff ≤ key.bucket
  /-- no observation of an old trace has a payload -/
  payloads : ∀ o ∈ db'.observations, ∀ t ∈ db.traces, t.id = o.traceId →
    t.tsStart < pass.payloadCutoff → o.input = none ∧ o.output = none
  /-- no session that expired long ago stays -/
  sessions : ∀ s ∈ db'.sessions, pass.sessionCutoff ≤ s.expiresAt
  /-- the audit log is as it was -/
  audit : db'.auditLog = db.auditLog ∧ db'.auditSeq = db.auditSeq
  /-- the keys of what was pruned have rows -/
  rolledUp : ∀ row ∈ db.traces, row ∉ db'.traces → ∀ c ∈ contributions row.toTraceColumns,
    pass.rollupCutoff ≤ c.1.bucket → HasRow db' .ten c.1
  /-- and complete parents -/
  parents : ∀ row ∈ db.traces, row ∉ db'.traces → ∀ c ∈ contributions row.toTraceColumns,
    ∀ step ∈ RollupStep.parents, pass.rollupCutoff ≤ (c.1.parent step).bucket →
      ∃ parent, loadRollupRow db' step (c.1.parent step) = some parent ∧
        parent.count = childCount (childRows db' step (c.1.parent step))

/-! ## Building the missing rows -/

section

variable {order : ScanOrder} {pass : Pass} {d v v' : Db}

/-- The database differs in its rollups only. -/
def OnlyRollups (v v' : Db) : Prop := v' = { v with metricRollup := v'.metricRollup }

theorem OnlyRollups.trans {v'' : Db} (h : OnlyRollups v v') (h' : OnlyRollups v' v'') :
    OnlyRollups v v'' := by
  unfold OnlyRollups at *
  rw [h] at h'
  exact h'

/-- What `_build_pending` does for some keys. -/
structure Built (todo : List RollupKey) (v v' : Db) : Prop where
  /-- it writes rollup rows -/
  only : OnlyRollups v v'
  /-- every row stays -/
  keeps : ∀ step key, HasRow v step key → HasRow v' step key
  /-- the keys with raw traces have rows -/
  built : ∀ key ∈ todo, gatherStats v key ≠ none → HasRow v' .ten key

theorem Built.cons {key : RollupKey} {todo : List RollupKey} {w : Db} (h : Built [key] v w)
    (h' : Built todo w v') : Built (key :: todo) v v' where
  only := h.only.trans h'.only
  keeps step k hrow := h'.keeps step k (h.keeps step k hrow)
  built k hk hsome := by
    rcases List.mem_cons.mp hk with rfl | hk
    · exact h'.keeps _ _ (h.built k (List.mem_singleton.mpr rfl) hsome)
    · refine h'.built k hk ?_
      have hsame : gatherStats w k = gatherStats v k := by rw [h.only]; rfl
      rwa [hsame]

variable (order pass) in
theorem building_leads (rows : List TraceRow) (todo : List RollupKey) :
    ∀ (counts : PassCounts) (v : Db), ∃ counts' v',
      Wal.Leads (passCode order pass) (PassPoint.building pass rows todo counts) d v
        (PassPoint.cascading rows (cascadeTargets (pendingKeys pass rows)) counts') d v' ∧
      Built todo v v' := by
  induction todo with
  | nil => exact fun counts v => ⟨counts, v, .refl, rfl, fun _ _ h => h, fun _ h => by cases h⟩
  | cons key todo ih =>
    intro counts v
    rcases hload : loadRollupRow v .ten key with _ | row
    · rcases hgather : gatherStats v key with _ | stats
      · obtain ⟨counts', v', hleads, hbuilt⟩ := ih counts v
        refine ⟨counts', v', .select rfl ?_, Built.cons ?_ hbuilt⟩
        · simp only [hload]
          refine .select rfl ?_
          simpa only [hgather] using hleads
        · refine ⟨rfl, fun _ _ h => h, fun k hk hsome => absurd ?_ hsome⟩
          rw [List.mem_singleton.mp hk, hgather]
      · obtain ⟨counts', v', hleads, hbuilt⟩ :=
          ih { counts with built := counts.built + 1 } (upsertRollup .ten key stats v)
        refine ⟨counts', v', .select rfl ?_, Built.cons ?_ hbuilt⟩
        · simp only [hload]
          refine .select rfl ?_
          simp only [hgather]
          exact .dml rfl hleads
        · refine ⟨rfl, fun _ _ h => hasRow_upsert.mpr (Or.inr h), fun k hk _ => ?_⟩
          exact hasRow_upsert.mpr (Or.inl (by rw [List.mem_singleton.mp hk]))
    · obtain ⟨counts', v', hleads, hbuilt⟩ := ih counts v
      refine ⟨counts', v', .select rfl ?_, Built.cons ?_ hbuilt⟩
      · simpa only [hload] using hleads
      · refine ⟨rfl, fun _ _ h => h, fun k hk _ => ?_⟩
        rw [List.mem_singleton.mp hk, HasRow, hload]
        rfl

/-! ## Completing the parents -/

/-- Merging adds the counts up, whatever the rows are. -/
theorem count_mergeStats (metric : Metric) (row new : Stats) :
    (mergeStats metric (some row) new).count = row.count + new.count := by
  rcases hm : metric.isCounter with - | -
  · simp [mergeStats, hm, mergeRows_eq, Digest.summary, Summary.digest, Summary.toStats, statsOf]
  · simp [mergeStats, hm, counterStats]

theorem count_mergeChildren (metric : Metric) {kids : List Stats} (hne : kids ≠ []) :
    ∃ merged, mergeChildren metric kids = some merged ∧ merged.count = childCount kids := by
  have hfold : ∀ (kids : List Stats) (start : Stats), ∃ merged,
      kids.foldl (fun merged child => some (mergeStats metric merged child)) (some start) =
        some merged ∧ merged.count = start.count + childCount kids := by
    intro kids
    induction kids with
    | nil => exact fun start => ⟨start, rfl, rfl⟩
    | cons kid kids ih =>
      intro start
      obtain ⟨merged, hmerged, hcount⟩ := ih (mergeStats metric (some start) kid)
      refine ⟨merged, hmerged, ?_⟩
      rw [hcount, count_mergeStats, Nat.add_assoc]
      rfl
  obtain ⟨kid, kids, rfl⟩ := List.exists_cons_of_ne_nil hne
  exact hfold kids kid

/-- Parents are no children. -/
theorem childRows_upsert {step step' : RollupStep} (hstep : step' ≠ .ten) (key key' : RollupKey)
    (stats : Stats) (db : Db) :
    childRows (upsertRollup step' key' stats db) step key = childRows db step key := by
  unfold childRows upsertRollup
  refine congrArg (List.map Prod.snd) (Dict.filter_upsert (fun row => ?_) _)
  rw [decide_eq_false]
  exact fun h => hstep h.1

/-- What `_cascade_parents` does for some parents. -/
structure Completed (todo : List RollupPk) (v v' : Db) : Prop where
  /-- it writes rollup rows -/
  only : OnlyRollups v v'
  /-- of these parents -/
  others : ∀ step key, (step, key) ∉ todo → loadRollupRow v' step key = loadRollupRow v step key
  /-- and of no children -/
  children : ∀ step key, childRows v' step key = childRows v step key
  /-- a parent with children counts what they count -/
  complete : ∀ step key, (step, key) ∈ todo → childRows v step key ≠ [] →
    ∃ row, loadRollupRow v' step key = some row ∧ row.count = childCount (childRows v step key)

theorem Completed.cons {pk : RollupPk} {todo : List RollupPk} {w : Db} (h : Completed [pk] v w)
    (h' : Completed todo w v') (hnew : pk ∉ todo) : Completed (pk :: todo) v v' where
  only := h.only.trans h'.only
  others step key hno := by
    rw [List.mem_cons, not_or] at hno
    rw [h'.others step key hno.2, h.others step key (by simpa using hno.1)]
  children step key := (h'.children step key).trans (h.children step key)
  complete step key hin hne := by
    rcases List.mem_cons.mp hin with rfl | hin
    · rw [h'.others step key hnew]
      exact h.complete step key (List.mem_singleton.mpr rfl) hne
    · rw [← h.children] at hne ⊢
      exact h'.complete step key hin hne

/-- A parent that needs nothing. -/
theorem Completed.same {pk : RollupPk} (h : childRows v pk.1 pk.2 ≠ [] →
    ∃ row, loadRollupRow v pk.1 pk.2 = some row ∧ row.count = childCount (childRows v pk.1 pk.2)) :
    Completed [pk] v v where
  only := rfl
  others _ _ _ := rfl
  children _ _ := rfl
  complete step key hin hne := by
    obtain rfl := List.mem_singleton.mp hin
    exact h hne

/-- A parent that is rebuilt. -/
theorem Completed.rebuilt {pk : RollupPk} (hstep : pk.1 ≠ .ten)
    (hne : childRows v pk.1 pk.2 ≠ []) :
    Completed [pk] v (writeParent pk (childRows v pk.1 pk.2) v) := by
  obtain ⟨merged, hmerged, hcount⟩ := count_mergeChildren pk.2.metric hne
  have hwrite : writeParent pk (childRows v pk.1 pk.2) v = upsertRollup pk.1 pk.2 merged v := by
    unfold writeParent
    rw [hmerged]
  rw [hwrite]
  refine ⟨rfl, fun step key hno => ?_, fun step key => childRows_upsert hstep _ _ _ _,
    fun step key hin _ => ?_⟩
  · exact loadRollupRow_upsert_ne fun heq => hno (List.mem_singleton.mpr heq)
  · obtain rfl := List.mem_singleton.mp hin
    exact ⟨merged, loadRollupRow_upsert_self _ _ _ _, hcount⟩

variable (order pass) in
/-- One parent. -/
theorem parent_leads (rows : List TraceRow) {pk : RollupPk} (hstep : pk.1 ≠ .ten)
    (todo : List RollupPk) (counts : PassCounts) (v : Db) : ∃ counts' w,
      Wal.Leads (passCode order pass) (PassPoint.cascading rows (pk :: todo) counts) d v
        (PassPoint.cascading rows todo counts') d w ∧ Completed [pk] v w := by
  rcases hkids : childRows v pk.1 pk.2 with _ | ⟨kid, kids⟩
  · refine ⟨counts, v, .select rfl ?_, Completed.same fun hne => absurd hkids hne⟩
    simp only [hkids]
    exact .refl
  have hne : childRows v pk.1 pk.2 ≠ [] := by rw [hkids]; exact List.cons_ne_nil kid kids
  have hrebuild : Wal.Leads (passCode order pass)
      (.parent rows pk (childRows v pk.1 pk.2) todo counts) d v
      (PassPoint.cascading rows todo { counts with parents := counts.parents + 1 }) d
        (writeParent pk (childRows v pk.1 pk.2) v) := .dml rfl .refl
  rw [hkids] at hrebuild
  rcases hload : loadRollupRow v pk.1 pk.2 with _ | row
  · refine ⟨{ counts with parents := counts.parents + 1 }, _, .select rfl ?_,
      Completed.rebuilt hstep hne⟩
    simp only [hkids]
    refine .select rfl ?_
    simp only [hload]
    exact hrebuild
  · by_cases hcount : row.count = childCount (childRows v pk.1 pk.2)
    · refine ⟨counts, v, .select rfl ?_, Completed.same fun _ => ⟨row, hload, hcount⟩⟩
      rw [hkids] at hcount
      simp only [hkids]
      refine .select rfl ?_
      simp only [hload, if_pos hcount]
      exact .refl
    · refine ⟨{ counts with parents := counts.parents + 1 }, _, .select rfl ?_,
        Completed.rebuilt hstep hne⟩
      rw [hkids] at hcount
      simp only [hkids]
      refine .select rfl ?_
      simp only [hload, if_neg hcount]
      exact hrebuild

variable (order pass) in
theorem cascading_leads (rows : List TraceRow) (todo : List RollupPk) :
    ∀ (counts : PassCounts) (v : Db), todo.Nodup → (∀ pk ∈ todo, pk.1 ≠ .ten) → ∃ counts' v',
      Wal.Leads (passCode order pass) (PassPoint.cascading rows todo counts) d v
        (.commitRollups rows counts') d v' ∧ Completed todo v v' := by
  induction todo with
  | nil =>
    refine fun counts v _ _ => ⟨counts, v, .refl, rfl, fun _ _ _ => rfl, fun _ _ => rfl, ?_⟩
    exact fun _ _ h => by cases h
  | cons pk todo ih =>
    intro counts v hnodup hsteps
    obtain ⟨hnew, hnodup⟩ := List.nodup_cons.mp hnodup
    obtain ⟨counts₁, w, hfirst, hone⟩ := parent_leads order pass (d := d)
      rows (hsteps pk (List.mem_cons_self ..)) todo counts v
    obtain ⟨counts₂, v', hrest, hall⟩ :=
      ih counts₁ w hnodup fun pk' hpk => hsteps pk' (List.mem_cons_of_mem pk hpk)
    exact ⟨counts₂, v', hfirst.trans hrest, hone.cons hall hnew⟩

/-! ## Loops of chunks -/

/-- Where a loop goes when its last chunk falls short. -/
def PassPoint.afterLoop (rows : List TraceRow) (loop : Chunk) (counts : PassCounts) : PassPoint :=
  match loop.next with
  | some loop => .chunk rows loop counts
  | none => .lastCommit counts

variable (order pass) in
/-- **The rule of the loops.** A loop whose full chunks make something smaller comes to a
chunk that falls short; up to there it keeps what its chunks keep. -/
theorem loop_leads (rows : List TraceRow) (loop : Chunk) (I : Db → Prop) (size : Db → ℕ)
    (hkeep : ∀ db, I db → I (loop.run order pass db).1)
    (hless : ∀ db, I db → deleteChunk ≤ (loop.run order pass db).2 →
      size (loop.run order pass db).1 < size db) :
    ∀ (n : ℕ) (db : Db) (counts : PassCounts), size db = n → I db → ∃ counts' last,
      Wal.Leads (passCode order pass) (.chunk rows loop counts) db db
        (PassPoint.afterLoop rows loop counts') (loop.run order pass last).1
        (loop.run order pass last).1 ∧
      I last ∧ (loop.run order pass last).2 < deleteChunk := by
  intro n
  induction n using Nat.strong_induction_on with
  | _ n ih =>
    intro db counts hn hI
    by_cases hshort : (loop.run order pass db).2 < deleteChunk
    · refine ⟨counts.add loop (loop.run order pass db).2, db, .dml rfl (.commit rfl ?_), hI,
        hshort⟩
      rw [PassPoint.afterChunk, if_pos hshort]
      exact .refl
    · obtain ⟨counts', last, hleads, hlast⟩ := ih _ (hn ▸ hless db hI (not_lt.mp hshort)) _
        (counts.add loop (loop.run order pass db).2) rfl (hkeep db hI)
      refine ⟨counts', last, .dml rfl (.commit rfl ?_), hlast⟩
      rw [PassPoint.afterChunk, if_neg hshort]
      exact hleads

/-- What a chunk that deletes from a table does there, when `gone` is to go since `start`. -/
structure DeletesFrom {α : Type} (order : ScanOrder) (pass : Pass) (loop : Chunk)
    (table : Db → List α) (gone : α → Bool) (I : Db → Prop) (start x : Db) : Prop where
  /-- it keeps the invariant of the loop -/
  keeps : I (loop.run order pass x).1
  /-- a short chunk was the last one -/
  short : (loop.run order pass x).2 < deleteChunk →
    table (loop.run order pass x).1 = (table start).filter fun a => !gone a
  /-- a full chunk leaves less -/
  full : deleteChunk ≤ (loop.run order pass x).2 →
    (table (loop.run order pass x).1).length < (table x).length

/-- The rule for loops that delete from a table. -/
theorem table_loop {α : Type} {table : Db → List α} {gone : α → Bool} {loop : Chunk}
    {I : Db → Prop} {start : Db}
    (hchunk : ∀ x, I x → DeletesFrom order pass loop table gone I start x) (hstart : I start)
    (rows : List TraceRow) (counts : PassCounts) : ∃ counts' db',
      Wal.Leads (passCode order pass) (.chunk rows loop counts) start start
        (PassPoint.afterLoop rows loop counts') db' db' ∧
      I db' ∧ table db' = (table start).filter fun a => !gone a := by
  obtain ⟨counts', last, hleads, hlast, hshort⟩ := loop_leads order pass rows loop I
    (fun x => (table x).length) (fun x hx => (hchunk x hx).keeps) (fun x hx => (hchunk x hx).full)
    _ start counts rfl hstart
  exact ⟨counts', _, hleads, (hchunk last hlast).keeps, (hchunk last hlast).short hshort⟩

/-! ## Who is pruned -/

/-- Newest first: the later time, then the greater identifier. -/
def recency (ts : ℚ) (id : ℕ) : ℚᵒᵈ ×ₗ ℕᵒᵈ := toLex (OrderDual.toDual ts, OrderDual.toDual id)

theorem recency_le {ts ts' : ℚ} {id id' : ℕ} :
    recency ts id ≤ recency ts' id' ↔ ts' < ts ∨ ts = ts' ∧ id' ≤ id := by
  unfold recency
  rw [Prod.Lex.toLex_le_toLex]
  exact Iff.rfl

theorem recency_injective {ts ts' : ℚ} {id id' : ℕ} (h : recency ts id = recency ts' id') :
    id = id' :=
  congrArg (fun x : ℚᵒᵈ ×ₗ ℕᵒᵈ => OrderDual.ofDual (ofLex x).2) h

/-- The position of a trace. -/
def TraceRow.recency (row : TraceRow) : ℚᵒᵈ ×ₗ ℕᵒᵈ := LayaWatch.recency row.tsStart row.rowid

/-- The position of a log entry. -/
def LogRow.recency (row : LogRow) : ℚᵒᵈ ×ₗ ℕᵒᵈ := LayaWatch.recency row.ts row.id

theorem newestFirst_iff (a b : TraceRow) : newestFirst a b = true ↔ a.recency ≤ b.recency :=
  decide_eq_true_iff.trans recency_le.symm

theorem newestLogFirst_iff (a b : LogRow) : newestLogFirst a b = true ↔ a.recency ≤ b.recency :=
  decide_eq_true_iff.trans recency_le.symm

/-- Sorting by an order that is that of a key. -/
theorem sorted_by_key {α κ : Type} [LinearOrder κ] {key : α → κ} {le : α → α → Bool}
    (hle : ∀ a b, le a b = true ↔ key a ≤ key b) (items : List α) :
    (items.insertionSort fun a b => le a b = true).Pairwise fun a b => key a ≤ key b := by
  have : Std.Total fun a b => le a b = true :=
    ⟨fun a b => (le_total (key a) (key b)).imp (hle a b).mpr (hle b a).mpr⟩
  have : IsTrans α fun a b => le a b = true :=
    ⟨fun a b c hab hbc => (hle a c).mpr (((hle a b).mp hab).trans ((hle b c).mp hbc))⟩
  exact (List.pairwise_insertionSort _ items).imp fun {a b} hab => (hle a b).mp hab

/-- Identifiers that differ have positions that differ. -/
theorem nodup_key {α κ ι : Type} {key : α → κ} {ident : α → ι}
    (hkey : ∀ a b, key a = key b → ident a = ident b) {items : List α}
    (h : (items.map ident).Nodup) : (items.map key).Nodup := by
  rw [List.Nodup, List.pairwise_map] at h ⊢
  exact h.imp fun hne heq => hne (hkey _ _ heq)

/-- The traces that are doomed, of all there are. -/
def doomedTraces (pass : Pass) (traces : List TraceRow) : TraceRow → Bool :=
  Pruning.doomed TraceRow.recency (fun row => decide (row.tsStart < pass.ageCutoff))
    pass.maxTraces traces

/-- The log entries that are doomed, of all there are. -/
def doomedLogs (pass : Pass) (logs : List LogRow) : LogRow → Bool :=
  Pruning.doomed LogRow.recency (fun row => decide (row.ts < pass.ageCutoff)) pass.maxLogs logs

/-- An identifier is past the cap when the rank of its item is. -/
theorem past_cap_iff {α κ : Type} [LinearOrder κ] {key : α → κ} {ident : α → ℕ}
    {le : α → α → Bool} (hle : ∀ a b, le a b = true ↔ key a ≤ key b)
    (hkey : ∀ a b, key a = key b → ident a = ident b) {items : List α}
    (hnodup : (items.map ident).Nodup) {a : α} (ha : a ∈ items) (cap : ℕ) :
    ident a ∈ ((items.insertionSort fun a b => le a b = true).drop cap).map ident ↔
      cap ≤ Pruning.rank key items a := by
  have hperm := List.perm_insertionSort (fun a b => le a b = true) items
  rw [← Pruning.mem_drop_iff (nodup_key hkey hnodup) hperm (sorted_by_key hle items) ha]
  constructor
  · intro hmem
    obtain ⟨b, hb, heq⟩ := List.mem_map.mp hmem
    have hb' := hperm.mem_iff.mp (List.mem_of_mem_drop hb)
    exact List.inj_on_of_nodup_map hnodup hb' ha heq ▸ hb
  · exact fun hmem => List.mem_map_of_mem hmem

/-- What comes after something old is old. -/
theorem old_of_recency_le {ts ts' cutoff : ℚ} {id id' : ℕ}
    (h : LayaWatch.recency ts id ≤ LayaWatch.recency ts' id')
    (hold : decide (ts < cutoff) = true) : decide (ts' < cutoff) = true := by
  refine decide_eq_true (lt_of_le_of_lt ?_ (of_decide_eq_true hold))
  exact (recency_le.mp h).elim le_of_lt fun h => h.1.ge

theorem doomed_eq_doomedTraces {db : Db} (hnodup : (db.traces.map TraceRow.rowid).Nodup)
    {row : TraceRow} (hrow : row ∈ db.traces) :
    doomed pass db row = doomedTraces pass db.traces row := by
  refine congrArg (_ || ·) (decide_eq_decide.mpr ?_)
  exact past_cap_iff newestFirst_iff (fun _ _ h => recency_injective h) hnodup hrow _

/-- Which traces are doomed does not change while they are pruned. -/
theorem doomed_stable {traces : List TraceRow} (hnodup : (traces.map TraceRow.rowid).Nodup)
    {x : Db} (hx : Pruning.Pruned (doomedTraces pass traces) traces x.traces) {row : TraceRow}
    (hrow : row ∈ x.traces) : doomed pass x row = doomedTraces pass traces row := by
  rw [doomed_eq_doomedTraces (hnodup.sublist (hx.sublist.map _)) hrow]
  exact Pruning.doomed_eq (fun _ _ h => old_of_recency_le h) hnodup.of_map hx row

/-- Which log entries are doomed does not change either. -/
theorem doomedLog_stable {logs left : List LogRow} (hnodup : (logs.map LogRow.id).Nodup)
    (hleft : Pruning.Pruned (doomedLogs pass logs) logs left) {row : LogRow} (hrow : row ∈ left) :
    (decide (row.ts < pass.ageCutoff) || decide (row.id ∈
      ((left.insertionSort fun a b => newestLogFirst a b = true).drop pass.maxLogs).map
        LogRow.id)) = doomedLogs pass logs row := by
  refine (congrArg (_ || ·) (decide_eq_decide.mpr ?_)).trans
    (Pruning.doomed_eq (fun _ _ h => old_of_recency_le h) hnodup.of_map hleft row)
  exact past_cap_iff newestLogFirst_iff (fun _ _ h => recency_injective h)
    (hnodup.sublist (hleft.sublist.map _)) hrow _

theorem deleteChunk_pos : 0 < deleteChunk := by decide

/-! ## The loops -/

/-- What `_prune_traces` has done so far. -/
structure TracesPruned (pass : Pass) (db x : Db) : Prop where
  /-- doomed traces are gone -/
  traces : Pruning.Pruned (doomedTraces pass db.traces) db.traces x.traces
  /-- and what hangs on them -/
  only : x = { db with
    traces := x.traces
    observations := x.observations
    scores := x.scores }
  /-- all of it -/
  cascade : ∀ row ∈ db.traces, row ∉ x.traces → ∀ o ∈ x.observations, o.traceId ≠ row.id

variable (order pass) in
theorem traces_loop {db : Db} (hkeyed : (db.traces.map TraceRow.rowid).Nodup)
    (rows : List TraceRow) (counts : PassCounts) : ∃ counts' db',
      Wal.Leads (passCode order pass) (.chunk rows .traces counts) db db
        (.chunk rows .logs counts') db' db' ∧ TracesPruned pass db db' ∧
      db'.traces = db.traces.filter fun row => !doomedTraces pass db.traces row := by
  refine table_loop (fun x hx => ?_) ⟨.refl, rfl, fun row hrow hno => absurd hrow hno⟩ rows counts
  have hids : (x.traces.map TraceRow.rowid).Nodup := hkeyed.sublist (hx.traces.sublist.map _)
  obtain ⟨hpruned, hdone, hless⟩ := hx.traces.chunk TraceRow.rowid deleteChunk
    (order.perm _) (fun _ hrow => doomed_stable hkeyed hx.traces hrow)
    (Pruning.of_taken (order.perm _) hids)
  refine ⟨⟨hpruned, ?_, fun row hrow hno o ho => ?_⟩, hdone, hless deleteChunk_pos⟩
  · rw [hx.only]
    rfl
  · -- an observation that is kept hangs on none of the victims
    obtain ⟨hin, hkept⟩ := List.mem_filter.mp ho
    by_cases hleft : row ∈ x.traces
    · rintro heq
      have hvictim : row.rowid ∈ traceVictims order pass x := by
        by_contra hv
        exact hno (List.mem_filter.mpr ⟨hleft, by rw [decide_eq_false hv]; rfl⟩)
      rw [Bool.not_eq_true', decide_eq_false_iff_not] at hkept
      refine hkept (heq ▸ List.mem_map_of_mem (List.mem_filter.mpr ⟨hleft, ?_⟩))
      exact decide_eq_true hvictim
    · exact hx.cascade row hrow hleft o hin

variable (order pass) in
theorem logs_loop {db : Db} (hkeyed : (db.logEntry.map LogRow.id).Nodup) (rows : List TraceRow)
    (counts : PassCounts) : ∃ counts' db',
      Wal.Leads (passCode order pass) (.chunk rows .logs counts) db db
        (.chunk rows .rollups counts') db' db' ∧
      db' = { db with
        logEntry := db.logEntry.filter fun row => !doomedLogs pass db.logEntry row } := by
  let I := fun x : Db => Pruning.Pruned (doomedLogs pass db.logEntry) db.logEntry x.logEntry ∧
    x = { db with logEntry := x.logEntry }
  have hchunk : ∀ x, I x →
      DeletesFrom order pass .logs Db.logEntry (doomedLogs pass db.logEntry) I db x := by
    rintro x ⟨hx, honly⟩
    have hids : (x.logEntry.map LogRow.id).Nodup := hkeyed.sublist (hx.sublist.map _)
    obtain ⟨hpruned, hdone, hless⟩ := hx.chunk LogRow.id deleteChunk
      (order.perm _) (fun _ hrow => doomedLog_stable hkeyed hx hrow)
      (Pruning.of_taken (order.perm _) hids)
    refine ⟨⟨hpruned, ?_⟩, hdone, hless deleteChunk_pos⟩
    rw [honly]
    rfl
  obtain ⟨counts', db', hleads, hlast, htable⟩ := table_loop hchunk ⟨.refl, rfl⟩ rows counts
  exact ⟨counts', db', hleads, htable ▸ hlast.2⟩

variable (order pass) in
theorem rollups_loop (db : Db) (rows : List TraceRow) (counts : PassCounts) : ∃ counts' db',
      Wal.Leads (passCode order pass) (.chunk rows .rollups counts) db db
        (.chunk rows .payloads counts') db' db' ∧
      db' = { db with
        metricRollup := db.metricRollup.filter fun e =>
          !decide ((e.1.2.bucket : ℚ) < pass.rollupCutoff) } := by
  let gone := fun e : RollupPk × Stats => decide ((e.1.2.bucket : ℚ) < pass.rollupCutoff)
  let I := fun x : Db => Pruning.Pruned gone db.metricRollup.entries x.metricRollup.entries ∧
    x = { db with metricRollup := x.metricRollup }
  have hchunk : ∀ x, I x →
      DeletesFrom order pass .rollups (fun x => x.metricRollup.entries) gone I db x := by
    rintro x ⟨hx, honly⟩
    have hperm := order.perm (x.metricRollup.entries.filter gone)
    -- rows of one bucket are old together
    obtain ⟨hpruned, hdone, hless⟩ := hx.chunk (fun e => e.1.2.bucket) deleteChunk hperm
      (fun _ _ => rfl) fun e _ he => by
        obtain ⟨e', -, hold, heq⟩ := Pruning.exists_taken hperm he
        dsimp only [gone] at hold ⊢
        rwa [← heq]
    refine ⟨⟨hpruned, ?_⟩, hdone, hless deleteChunk_pos⟩
    rw [honly]
    rfl
  obtain ⟨counts', db', hleads, hlast, htable⟩ := table_loop hchunk ⟨.refl, rfl⟩ rows counts
  have hfinal : db'.metricRollup = db.metricRollup.filter fun e => !gone e := Dict.ext htable
  exact ⟨counts', db', hleads, hfinal ▸ hlast.2⟩

/-- The observations that `_null_payloads` looks for. -/
def oldPayload (pass : Pass) (traces : List TraceRow) (o : Observation) : Bool :=
  (traces.any fun t => t.id == o.traceId && decide (t.tsStart < pass.payloadCutoff)) &&
    (o.input.isSome || o.output.isSome)

/-- What is left of an observation without its payload. -/
def Observation.nulled (o : Observation) : Observation := { o with input := none, output := none }

theorem oldPayload_nulled (pass : Pass) (traces : List TraceRow) (o : Observation) :
    oldPayload pass traces o.nulled = false := Bool.and_false _

/-- What a chunk of `_null_payloads` does to an observation. -/
def nullAmong (victims : List PyStr) (o : Observation) : Observation :=
  if o.id ∈ victims then o.nulled else o

theorem nullAmong_traceId (victims : List PyStr) (o : Observation) :
    (nullAmong victims o).traceId = o.traceId := by
  unfold nullAmong
  split <;> rfl

theorem oldPayload_nullAmong (traces : List TraceRow) (victims : List PyStr) (o : Observation) :
    oldPayload pass traces (nullAmong victims o) =
      (!decide (o.id ∈ victims) && oldPayload pass traces o) := by
  unfold nullAmong
  split
  · rename_i hin
    rw [oldPayload_nulled, decide_eq_true hin]
    rfl
  · rename_i hno
    rw [decide_eq_false hno]
    rfl

/-- What `_null_payloads` has done so far. -/
structure PayloadsNulled (db x : Db) : Prop where
  /-- it changes observations -/
  only : x = { db with observations := x.observations }
  /-- not where they hang -/
  traceIds : x.observations.map Observation.traceId = db.observations.map Observation.traceId

variable (order pass) in
theorem payloads_loop (db : Db) (rows : List TraceRow) (counts : PassCounts) : ∃ counts' db',
      Wal.Leads (passCode order pass) (.chunk rows .payloads counts) db db
        (.chunk rows .sessions counts') db' db' ∧ PayloadsNulled db db' ∧
      ∀ o ∈ db'.observations, oldPayload pass db.traces o = false := by
  have hchunk : ∀ x, PayloadsNulled db x →
      PayloadsNulled db (nullPayloadsChunk order pass x).1 ∧
      ((nullPayloadsChunk order pass x).2 < deleteChunk →
        ∀ o ∈ (nullPayloadsChunk order pass x).1.observations,
          oldPayload pass db.traces o = false) ∧
      (deleteChunk ≤ (nullPayloadsChunk order pass x).2 →
        (nullPayloadsChunk order pass x).1.observations.countP (oldPayload pass db.traces) <
          x.observations.countP (oldPayload pass db.traces)) := by
    intro x hx
    have htraces : x.traces = db.traces := by rw [hx.only]
    have hperm := order.perm (x.observations.filter (oldPayload pass db.traces))
    obtain ⟨victims, hvictims⟩ : ∃ victims, victims = ((order.scan (x.observations.filter
      (oldPayload pass db.traces))).take deleteChunk).map Observation.id := ⟨_, rfl⟩
    have hnulled : (nullPayloadsChunk order pass x).1.observations =
        x.observations.map (nullAmong victims) := by
      rw [hvictims, ← htraces]
      rfl
    have hcount : (nullPayloadsChunk order pass x).2 =
        (x.observations.filter fun o => decide (o.id ∈ victims)).length := by
      rw [hvictims, ← htraces]
      rfl
    have hids : x.observations.map (fun o => (nullAmong victims o).traceId) =
        x.observations.map Observation.traceId :=
      List.map_congr_left fun o _ => nullAmong_traceId victims o
    refine ⟨⟨?_, ?_⟩, fun hshort o ho => ?_, fun hfull => ?_⟩
    · rw [hx.only]
      rfl
    · rw [hnulled, List.map_map]
      exact hids.trans hx.traceIds
    · rw [hnulled] at ho
      obtain ⟨o', ho', rfl⟩ := List.mem_map.mp ho
      rw [oldPayload_nullAmong]
      rw [hcount, hvictims] at hshort
      cases hold : oldPayload pass db.traces o' with
      | false => exact Bool.and_false _
      | true =>
        have htaken := Pruning.taken_of_short hperm hshort o' ho' hold
        rw [← hvictims] at htaken
        rw [decide_eq_true htaken]
        rfl
    · rw [hcount, hvictims] at hfull
      obtain ⟨o, ho, hold, htaken⟩ := Pruning.exists_victim hperm deleteChunk_pos hfull
      rw [← hvictims] at htaken
      -- what is old afterwards was old, and no victim
      have hstill : (oldPayload pass db.traces) ∘ nullAmong victims =
          fun o => !decide (o.id ∈ victims) && oldPayload pass db.traces o :=
        funext fun o => oldPayload_nullAmong db.traces victims o
      rw [hnulled, List.countP_map, hstill, List.countP_eq_length_filter,
        List.countP_eq_length_filter, ← List.filter_filter]
      refine List.length_filter_lt_length_iff_exists.mpr ⟨o, List.mem_filter.mpr ⟨ho, hold⟩, ?_⟩
      rw [decide_eq_true htaken]
      exact Bool.false_ne_true
  obtain ⟨counts', last, hleads, hlast, hshort⟩ := loop_leads order pass
    rows .payloads (PayloadsNulled db)
    (fun x => x.observations.countP (oldPayload pass db.traces))
    (fun x hx => (hchunk x hx).1) (fun x hx => (hchunk x hx).2.2) _ db counts rfl ⟨rfl, rfl⟩
  exact ⟨counts', _, hleads, (hchunk last hlast).1, (hchunk last hlast).2.1 hshort⟩

variable (order pass) in
theorem sessions_loop {db : Db} (hkeyed : (db.sessions.map SessionRow.id).Nodup)
    (rows : List TraceRow) (counts : PassCounts) : ∃ counts' db',
      Wal.Leads (passCode order pass) (.chunk rows .sessions counts) db db
        (.lastCommit counts') db' db' ∧
      db' = { db with
        sessions := db.sessions.filter fun s => !decide (s.expiresAt < pass.sessionCutoff) } := by
  let gone := fun s : SessionRow => decide (s.expiresAt < pass.sessionCutoff)
  let I := fun x : Db => Pruning.Pruned gone db.sessions x.sessions ∧
    x = { db with sessions := x.sessions }
  have hchunk : ∀ x, I x → DeletesFrom order pass .sessions Db.sessions gone I db x := by
    rintro x ⟨hx, honly⟩
    have hids : (x.sessions.map SessionRow.id).Nodup := hkeyed.sublist (hx.sublist.map _)
    obtain ⟨hpruned, hdone, hless⟩ := hx.chunk SessionRow.id deleteChunk
      (order.perm _) (fun _ _ => rfl) (Pruning.of_taken (order.perm _) hids)
    refine ⟨⟨hpruned, ?_⟩, hdone, hless deleteChunk_pos⟩
    rw [honly]
    rfl
  obtain ⟨counts', db', hleads, hlast, htable⟩ := table_loop hchunk ⟨.refl, rfl⟩ rows counts
  exact ⟨counts', db', hleads, htable ▸ hlast.2⟩

/-! ## From the first query to the last commit -/

/-- The rows of both queries. -/
def doomedRows (pass : Pass) (db : Db) : List TraceRow := agedRows pass db ++ cappedRows pass db

theorem mem_doomedRows {db : Db} {row : TraceRow} :
    row ∈ doomedRows pass db ↔ row ∈ db.traces ∧ doomed pass db row = true := by
  unfold doomedRows agedRows cappedRows
  rw [List.mem_append, List.mem_filter, List.mem_filter, ← and_or_left, doomed, Bool.or_eq_true]

/-- What the chunks of a pass have done, to the rollups `v` that it commits first. -/
structure Swept (pass : Pass) (db v db' : Db) : Prop where
  /-- the doomed traces are gone -/
  traces : db'.traces = db.traces.filter fun row => !doomedTraces pass db.traces row
  /-- with their observations -/
  cascade : ∀ row ∈ db.traces, row ∉ db'.traces → ∀ o ∈ db'.observations, o.traceId ≠ row.id
  /-- the doomed log entries are gone -/
  logs : db'.logEntry = db.logEntry.filter fun row => !doomedLogs pass db.logEntry row
  /-- the old rollup rows are gone -/
  rollups : db'.metricRollup = v.metricRollup.filter fun e =>
    !decide ((e.1.2.bucket : ℚ) < pass.rollupCutoff)
  /-- the old payloads are gone -/
  payloads : ∀ o ∈ db'.observations, oldPayload pass db'.traces o = false
  /-- the old sessions are gone -/
  sessions : db'.sessions = db.sessions.filter fun s =>
    !decide (s.expiresAt < pass.sessionCutoff)
  /-- and nothing was done to the audit log -/
  audit : db'.auditLog = db.auditLog ∧ db'.auditSeq = db.auditSeq

variable (order pass) in
/-- The loops, from the commit of the rollups. -/
theorem loops_lead {db v : Db} (hkeyed : db.RowKeys) (honly : OnlyRollups db v)
    (rows : List TraceRow) (counts : PassCounts) : ∃ counts' db',
      Wal.Leads (passCode order pass) (.commitRollups rows counts) db v (.done counts') db' db' ∧
      Swept pass db v db' := by
  have htraces : v.traces = db.traces := by rw [honly]
  have hlogs : v.logEntry = db.logEntry := by rw [honly]
  have hsessions : v.sessions = db.sessions := by rw [honly]
  have haudit : v.auditLog = db.auditLog ∧ v.auditSeq = db.auditSeq := by
    rw [honly]
    exact ⟨rfl, rfl⟩
  obtain ⟨c₁, v₁, hleads₁, hpruned, hkept⟩ := traces_loop order pass (htraces ▸ hkeyed.traces)
    rows counts
  have hlogs₁ : v₁.logEntry = db.logEntry := by
    rw [hpruned.only]
    exact hlogs
  obtain ⟨c₂, v₂, hleads₂, hv₂⟩ := logs_loop order pass (hlogs₁ ▸ hkeyed.logs) rows c₁
  obtain ⟨c₃, v₃, hleads₃, hv₃⟩ := rollups_loop order pass v₂ rows c₂
  obtain ⟨c₄, v₄, hleads₄, hnulled, hgone⟩ := payloads_loop order pass v₃ rows c₃
  have hsessions₄ : v₄.sessions = db.sessions := by
    rw [hnulled.only, hv₃, hv₂, hpruned.only]
    exact hsessions
  obtain ⟨c₅, v₅, hleads₅, hv₅⟩ := sessions_loop order pass (hsessions₄ ▸ hkeyed.sessions) rows c₄
  refine ⟨c₅, v₅, .commit rfl (hleads₁.trans (hleads₂.trans (hleads₃.trans (hleads₄.trans
    (hleads₅.trans (.commit rfl .refl)))))), ?_⟩
  have htraces₃ : v₃.traces = v₁.traces := by rw [hv₃, hv₂]
  have htraces₅ : v₅.traces = v₁.traces := by
    rw [hv₅, hnulled.only]
    exact htraces₃
  have hobservations₃ : v₃.observations = v₁.observations := by rw [hv₃, hv₂]
  have hobservations₅ : v₅.observations = v₄.observations := by rw [hv₅]
  refine ⟨?_, fun row hrow hno o ho heq => ?_, ?_, ?_, fun o ho => ?_, ?_, ?_⟩
  · rw [htraces₅, hkept, htraces]
  · have hid := List.mem_map_of_mem (f := Observation.traceId) (hobservations₅ ▸ ho)
    rw [hnulled.traceIds, hobservations₃] at hid
    obtain ⟨o', ho', hid⟩ := List.mem_map.mp hid
    exact hpruned.cascade row (htraces ▸ hrow) (htraces₅ ▸ hno) o' ho' (hid.trans heq)
  · rw [hv₅, hnulled.only, hv₃, hv₂, ← hlogs₁]
  · rw [hv₅, hnulled.only, hv₃, hv₂, hpruned.only]
  · rw [htraces₅, ← htraces₃]
    exact hgone o (hobservations₅ ▸ ho)
  · rw [hv₅, ← hsessions₄]
  · rw [hv₅, hnulled.only, hv₃, hv₂, hpruned.only]
    exact haudit

/-- What the rollup phase has done. -/
structure RolledUpTo (pass : Pass) (db v : Db) : Prop where
  /-- the keys of the doomed traces have rows -/
  built : ∀ key ∈ pendingKeys pass (doomedRows pass db), gatherStats db key ≠ none →
    HasRow v .ten key
  /-- a parent of a pending key counts what its children count -/
  complete : ∀ step key, (step, key) ∈ cascadeTargets (pendingKeys pass (doomedRows pass db)) →
    childRows v step key ≠ [] →
      ∃ row, loadRollupRow v step key = some row ∧ row.count = childCount (childRows v step key)

/-- **A pass ends**, whatever the database is like. -/
theorem pass_leads (order : ScanOrder) (pass : Pass) {db : Db} (hkeyed : db.RowKeys) :
    ∃ counts v db', Wal.Leads (passCode order pass) .scanAge db db (.done counts) db' db' ∧
      RolledUpTo pass db v ∧ Swept pass db v db' := by
  obtain ⟨c₁, v₁, hleads₁, hbuilt⟩ := building_leads order pass (d := db)
    (doomedRows pass db) (pendingKeys pass (doomedRows pass db)) {} db
  have hsteps : ∀ pk ∈ cascadeTargets (pendingKeys pass (doomedRows pass db)), pk.1 ≠ .ten := by
    intro pk hpk
    obtain ⟨key, -, step, hstep, rfl⟩ := mem_cascadeTargets.mp hpk
    rintro rfl
    exact absurd hstep (by decide)
  obtain ⟨c₂, v₂, hleads₂, hcompleted⟩ := cascading_leads order pass
    (d := db) (doomedRows pass db) (cascadeTargets (pendingKeys pass (doomedRows pass db))) c₁ v₁
    (List.nodup_reverse.mpr (List.nodup_dedup _)) hsteps
  obtain ⟨c₃, db', hleads₃, hswept⟩ := loops_lead order pass hkeyed
    (hbuilt.only.trans hcompleted.only) (doomedRows pass db) c₂
  refine ⟨c₃, v₂, db', .select rfl (.select rfl (hleads₁.trans (hleads₂.trans hleads₃))),
    ⟨fun key hkey hsome => ?_, fun step key hin hne => ?_⟩, hswept⟩
  · have hrow := hbuilt.built key hkey hsome
    rwa [HasRow, ← hcompleted.others .ten key fun hin => hsteps _ hin rfl] at hrow
  · rw [hcompleted.children] at hne ⊢
    exact hcompleted.complete step key hin hne

/-! ## What a pass leaves -/

/-- Rows that are not old are children as before. -/
theorem childRows_of_filter {v db' : Db} (hrollups : db'.metricRollup = v.metricRollup.filter
    fun e => !decide ((e.1.2.bucket : ℚ) < pass.rollupCutoff)) {step : RollupStep}
    {key : RollupKey} (hkey : pass.rollupCutoff ≤ key.bucket) :
    childRows db' step key = childRows v step key := by
  unfold childRows
  rw [hrollups]
  refine congrArg (List.map Prod.snd) (List.filter_filter.trans (List.filter_congr ?_))
  intro e _
  by_cases hchild : e.1.1 = .ten ∧ key.Covers step e.1.2
  · have hle : (key.bucket : ℚ) ≤ e.1.2.bucket := Int.cast_le.mpr hchild.2.1.1
    rw [decide_eq_true hchild, decide_eq_false (not_lt.mpr (hkey.trans hle))]
    rfl
  · rw [decide_eq_false hchild]
    rfl

/-- The key of a trace that is pruned. -/
theorem pending_of_pruned {db : Db} {row : TraceRow} (hrow : row ∈ db.traces)
    (hdoomed : doomed pass db row = true) {c : RollupKey × ℚ}
    (hc : c ∈ contributions row.toTraceColumns) (hcut : pass.rollupCutoff ≤ c.1.bucket) :
    c.1 ∈ pendingKeys pass (doomedRows pass db) := by
  refine mem_pendingKeys.mpr ⟨row, mem_doomedRows.mpr ⟨hrow, hdoomed⟩, ?_⟩
  rw [pendingOf_eq, if_neg]
  · exact List.mem_map_of_mem hc
  · rw [← (mem_contributions hc).2]
    exact not_lt.mpr hcut

theorem Swept.doomed {db v db' : Db} (h : Swept pass db v db') (hkeyed : db.RowKeys)
    {row : TraceRow} (hrow : row ∈ db.traces) (hno : row ∉ db'.traces) :
    doomed pass db row = true := by
  rw [doomed_eq_doomedTraces hkeyed.traces hrow]
  by_contra hdoomed
  rw [h.traces] at hno
  exact hno (List.mem_filter.mpr ⟨hrow, by rw [Bool.eq_false_iff.mpr hdoomed]; rfl⟩)

theorem Swept.retained {db v db' : Db} (hkeyed : db.RowKeys) (hrolled : RolledUpTo pass db v)
    (h : Swept pass db v db') : Retained pass db db' where
  traces_sublist := h.traces ▸ List.filter_sublist
  traces row := by
    rw [h.traces, newestTraces]
    refine (Pruning.mem_kept_iff (nodup_key (fun _ _ h => recency_injective h) hkeyed.traces)
      (List.perm_insertionSort _ _) (sorted_by_key newestFirst_iff _)).trans ?_
    rw [decide_eq_false_iff_not, not_lt]
  logs_sublist := h.logs ▸ List.filter_sublist
  logs row := by
    rw [h.logs, newestLogs]
    refine (Pruning.mem_kept_iff (nodup_key (fun _ _ h => recency_injective h) hkeyed.logs)
      (List.perm_insertionSort _ _) (sorted_by_key newestLogFirst_iff _)).trans ?_
    rw [decide_eq_false_iff_not, not_lt]
  rollups step key row hload := by
    rw [loadRollupRow, h.rollups] at hload
    have hyoung := (Dict.get_of_get_filter hload).2
    rw [Bool.not_eq_true', decide_eq_false_iff_not, not_lt] at hyoung
    exact hyoung
  payloads o ho t ht hid hold := by
    have hkept : t ∈ db'.traces := by
      by_contra hno
      exact h.cascade t ht hno o ho hid.symm
    have hany : (db'.traces.any fun t =>
        t.id == o.traceId && decide (t.tsStart < pass.payloadCutoff)) = true := by
      refine List.any_eq_true.mpr ⟨t, hkept, ?_⟩
      rw [hid, beq_self_eq_true, decide_eq_true hold]
      rfl
    have hnone := h.payloads o ho
    rw [oldPayload, hany, Bool.true_and, Bool.or_eq_false_iff] at hnone
    exact ⟨Option.isSome_eq_false_iff.mp hnone.1 |> Option.isNone_iff_eq_none.mp,
      Option.isSome_eq_false_iff.mp hnone.2 |> Option.isNone_iff_eq_none.mp⟩
  sessions s hs := by
    rw [h.sessions] at hs
    have hyoung := (List.mem_filter.mp hs).2
    rw [Bool.not_eq_true', decide_eq_false_iff_not, not_lt] at hyoung
    exact hyoung
  audit := h.audit
  rolledUp row hrow hno c hc hcut := by
    have hpending := pending_of_pruned hrow (h.doomed hkeyed hrow hno) hc hcut
    have hbuilt := hrolled.built c.1 hpending (gatherStats_ne_none hrow hc)
    obtain ⟨stats, hstats⟩ := Option.isSome_iff_exists.mp hbuilt
    rw [HasRow, loadRollupRow, h.rollups, Dict.get_filter hstats]
    · rfl
    · rw [decide_eq_false (not_lt.mpr hcut)]
      rfl
  parents row hrow hno c hc step hstep hcut := by
    have hcovers : (c.1.parent step).Covers step c.1 :=
      ⟨inWindow_floorBucket c.1.bucket step, rfl, rfl, rfl, rfl⟩
    have hcut' : pass.rollupCutoff ≤ c.1.bucket :=
      hcut.trans (Int.cast_le.mpr hcovers.1.1)
    have hpending := pending_of_pruned hrow (h.doomed hkeyed hrow hno) hc hcut'
    have hbuilt := hrolled.built c.1 hpending (gatherStats_ne_none hrow hc)
    obtain ⟨stats, hstats⟩ := Option.isSome_iff_exists.mp hbuilt
    -- the row of the key itself is a child
    have hne : childRows v step (c.1.parent step) ≠ [] := by
      refine List.ne_nil_of_mem (a := stats) (List.mem_map.mpr ⟨((.ten, c.1), stats), ?_, rfl⟩)
      exact List.mem_filter.mpr ⟨Dict.get_eq_some.mp hstats, decide_eq_true ⟨rfl, hcovers⟩⟩
    obtain ⟨parent, hload, hcount⟩ := hrolled.complete step (c.1.parent step)
      (mem_cascadeTargets.mpr ⟨c.1, hpending, step, hstep, rfl⟩) hne
    refine ⟨parent, ?_, ?_⟩
    · rw [loadRollupRow, h.rollups]
      refine Dict.get_filter hload ?_
      rw [decide_eq_false (not_lt.mpr hcut)]
      rfl
    · rw [hcount, childRows_of_filter h.rollups hcut]

/-! ## A second pass -/

/-- A pass has nothing to do. -/
structure Clean (pass : Pass) (db : Db) : Prop where
  /-- no trace is doomed -/
  traces : ∀ row ∈ db.traces, doomed pass db row = false
  /-- and no log entry -/
  logs : ∀ row ∈ db.logEntry, (decide (row.ts < pass.ageCutoff) || decide (row.id ∈
    ((db.logEntry.insertionSort fun a b => newestLogFirst a b = true).drop pass.maxLogs).map
      LogRow.id)) = false
  /-- no rollup row is old -/
  rollups : ∀ e ∈ db.metricRollup.entries, decide ((e.1.2.bucket : ℚ) < pass.rollupCutoff) = false
  /-- no payload is old -/
  payloads : ∀ o ∈ db.observations, oldPayload pass db.traces o = false
  /-- no session is old -/
  sessions : ∀ s ∈ db.sessions, decide (s.expiresAt < pass.sessionCutoff) = false

/-- No row is taken where none satisfies the test. -/
theorem ScanOrder.take_none {α β : Type} (order : ScanOrder) {p : α → Bool} {items : List α}
    (h : ∀ a ∈ items, p a = false) (n : ℕ) (f : α → β) :
    ((order.scan (items.filter p)).take n).map f = [] := by
  have hnone : items.filter p = [] :=
    List.filter_eq_nil_iff.mpr fun a ha => by rw [h a ha]; exact Bool.false_ne_true
  have hscan : order.scan ([] : List α) = [] := List.perm_nil.mp (order.perm [])
  rw [hnone, hscan, List.take_nil, List.map_nil]

/-- A chunk without victims. -/
theorem keep_all {α β : Type} [BEq β] [LawfulBEq β] (f : α → β) (items : List α) :
    (items.filter fun a => !decide (f a ∈ ([] : List β))) = items ∧
      (items.filter fun a => decide (f a ∈ ([] : List β))) = [] := by
  have hnot : ∀ a ∈ items, f a ∉ ([] : List β) := fun a _ => List.not_mem_nil
  constructor
  · exact List.filter_eq_self.mpr fun a ha => by rw [decide_eq_false (hnot a ha)]; rfl
  · refine List.filter_eq_nil_iff.mpr fun a ha => ?_
    rw [decide_eq_false (hnot a ha)]
    exact Bool.false_ne_true

variable (order) in
/-- Each chunk finds nothing. -/
theorem Clean.run {db : Db} (h : Clean pass db) (loop : Chunk) :
    loop.run order pass db = (db, 0) := by
  cases loop with
  | traces =>
    have hvictims : traceVictims order pass db = [] := order.take_none h.traces _ _
    have hall := keep_all TraceRow.rowid db.traces
    have hobservations := keep_all Observation.traceId db.observations
    have hscores := keep_all Score.traceId db.scores
    simp only [Chunk.run, pruneTracesChunk, hvictims, hall.1, hall.2, List.map_nil,
      hobservations.1, hscores.1, List.length_nil]
  | logs =>
    have hvictims := order.take_none h.logs deleteChunk LogRow.id
    have hall := keep_all LogRow.id db.logEntry
    simp only [Chunk.run, pruneLogsChunk, hvictims, hall.1, hall.2, List.length_nil]
  | rollups =>
    have hvictims := order.take_none h.rollups deleteChunk fun e => e.1.2.bucket
    have hall := keep_all (fun e : RollupPk × Stats => e.1.2.bucket) db.metricRollup.entries
    have hsame : (db.metricRollup.filter fun e => !decide (e.1.2.bucket ∈ ([] : List ℤ))) =
        db.metricRollup := Dict.ext hall.1
    simp only [Chunk.run, pruneRollupsChunk, hvictims, hall.2, hsame, List.length_nil]
  | payloads =>
    have hvictims := order.take_none h.payloads deleteChunk Observation.id
    have hall := keep_all Observation.id db.observations
    have hsame : nullPayloadsChunk order pass db =
        ({ db with observations := db.observations.map (nullAmong []) },
          (db.observations.filter fun o => decide (o.id ∈ ([] : List PyStr))).length) := by
      rw [← hvictims]
      rfl
    have hid : db.observations.map (nullAmong []) = db.observations :=
      (List.map_congr_left fun o _ => if_neg List.not_mem_nil).trans (List.map_id _)
    rw [Chunk.run, hsame, hid, hall.2]
    rfl
  | sessions =>
    have hvictims := order.take_none h.sessions deleteChunk SessionRow.id
    have hall := keep_all SessionRow.id db.sessions
    simp only [Chunk.run, pruneSessionsChunk, hvictims, hall.1, hall.2, List.length_nil]

variable (order) in
/-- A loop of a pass that has nothing to do. -/
theorem Clean.loop {db : Db} (h : Clean pass db) (rows : List TraceRow) (loop : Chunk)
    (counts : PassCounts) : ∃ counts', Wal.Leads (passCode order pass) (.chunk rows loop counts)
      db db (PassPoint.afterLoop rows loop counts') db db := by
  obtain ⟨counts', last, hleads, rfl, -⟩ := loop_leads order pass rows loop (fun x => x = db)
    (fun _ => 0) (fun x hx => by rw [hx, h.run order loop])
    (fun x hx hfull => by
      rw [hx, h.run order loop] at hfull
      exact absurd hfull (not_le.mpr deleteChunk_pos)) 0 db counts rfl rfl
  rw [h.run order loop] at hleads
  exact ⟨counts', hleads⟩

variable (order) in
/-- **A pass over a clean database** changes nothing. -/
theorem Clean.pass_leads {db : Db} (h : Clean pass db) : ∃ counts,
    Wal.Leads (passCode order pass) .scanAge db db (.done counts) db db := by
  have hrows : doomedRows pass db = [] := by
    refine List.eq_nil_iff_forall_not_mem.mpr fun row hrow => ?_
    obtain ⟨hmem, hdoomed⟩ := mem_doomedRows.mp hrow
    rw [h.traces row hmem] at hdoomed
    cases hdoomed
  obtain ⟨c₁, h₁⟩ := h.loop order [] .traces {}
  obtain ⟨c₂, h₂⟩ := h.loop order [] .logs c₁
  obtain ⟨c₃, h₃⟩ := h.loop order [] .rollups c₂
  obtain ⟨c₄, h₄⟩ := h.loop order [] .payloads c₃
  obtain ⟨c₅, h₅⟩ := h.loop order [] .sessions c₄
  refine ⟨c₅, .select rfl (.select rfl ?_)⟩
  have hstart : PassPoint.building pass (doomedRows pass db)
      (pendingKeys pass (doomedRows pass db)) {} = .commitRollups [] {} := by
    rw [hrows]
    rfl
  have hrest : Wal.Leads (passCode order pass) (PassPoint.building pass (doomedRows pass db)
      (pendingKeys pass (doomedRows pass db)) {}) db db (.done c₅) db db := by
    rw [hstart]
    exact .commit rfl (h₁.trans (h₂.trans (h₃.trans (h₄.trans (h₅.trans (.commit rfl .refl))))))
  exact hrest

theorem Swept.clean {db v db' : Db} (hkeyed : db.RowKeys) (h : Swept pass db v db') :
    Clean pass db' where
  traces row hrow := by
    have hpruned : Pruning.Pruned (doomedTraces pass db.traces) db.traces db'.traces :=
      h.traces ▸ Pruning.Pruned.all
    rw [doomed_stable hkeyed.traces hpruned hrow]
    exact Pruning.of_mem_kept (h.traces ▸ hrow)
  logs row hrow := by
    have hpruned : Pruning.Pruned (doomedLogs pass db.logEntry) db.logEntry db'.logEntry :=
      h.logs ▸ Pruning.Pruned.all
    rw [doomedLog_stable hkeyed.logs hpruned hrow]
    exact Pruning.of_mem_kept (h.logs ▸ hrow)
  rollups e he := by
    rw [h.rollups] at he
    have hyoung := Pruning.of_mem_kept he
    exact hyoung
  payloads := h.payloads
  sessions s hs := by
    rw [h.sessions] at hs
    have hyoung := Pruning.of_mem_kept hs
    exact hyoung

end

/-! ## The pass and its second run -/

/-- **What `apply` leaves behind.** From any database, in any visiting order, a pass with
no writer beside it ends, and what it leaves is what its arguments ask for. A second pass
at the same time changes nothing. -/
theorem retention_pass (order : ScanOrder) (args : RetentionArgs) (now : ℚ) (db : Db)
    (hkeyed : db.RowKeys) : ∃ n counts db',
      Wal.alone (passCode order (args.pass now)) n .scanAge db db = some (.done counts, db') ∧
      Retained (args.pass now) db db' ∧
      ∀ order', ∃ n' counts', Wal.alone (passCode order' (args.pass now)) n' .scanAge db' db' =
        some (.done counts', db') := by
  obtain ⟨counts, v, db', hleads, hrolled, hswept⟩ := pass_leads order (args.pass now) hkeyed
  obtain ⟨n, hends⟩ := hleads.ends rfl
  refine ⟨n, counts, db', hends, hswept.retained hkeyed hrolled, fun order' => ?_⟩
  obtain ⟨counts', hagain⟩ := (hswept.clean hkeyed).pass_leads order'
  obtain ⟨n', hends'⟩ := hagain.ends rfl
  exact ⟨n', counts', hends'⟩

/-- Two traces that started together, with the newest to be kept. -/
def tied : Db where
  traces := [⟨(sampleTrace 200).toTraceColumns, 1⟩,
    ⟨{ (sampleTrace 500).toTraceColumns with id := py "later" }, 2⟩]
  logEntry := [⟨⟨0, py "INFO", py "store", none, py "started"⟩, 1⟩]
  sessions := [⟨py "expired", py "owner", 0, 0, 0, none, none, false⟩]

theorem retention_pass_tied : ∃ n counts db',
    Wal.alone (passCode .insertion (RetentionArgs.pass ⟨1, 1, 365, 90, 86400⟩ 5000000)) n .scanAge
      tied tied = some (.done counts, db') ∧
    Retained (RetentionArgs.pass ⟨1, 1, 365, 90, 86400⟩ 5000000) tied db' ∧
    ∀ order', ∃ n' counts', Wal.alone
      (passCode order' (RetentionArgs.pass ⟨1, 1, 365, 90, 86400⟩ 5000000)) n' .scanAge db' db' =
        some (.done counts', db') :=
  retention_pass .insertion ⟨1, 1, 365, 90, 86400⟩ 5000000 tied ⟨by decide, by decide, by decide⟩

end LayaWatch
