import LayaWatch.Retention
import LayaWatch.Closing
import LayaWatch.Drain

/-!
# Does retention double count?

The writer builds rows from its open buckets, a retention pass builds rows from
the raw traces. A pass that finds raw traces of a bucket the running writer has
not closed builds the row, and the writer's close then adds the same traces once
more (`open_bucket_counted_twice`). A parent that is rebuilt from children that
are no longer the stored ones is wrong in the same way.

Where neither happens (`KeepsCount`), rows and open buckets together count what
the writer has committed, through every interleaving (`Counted`), and so do the
rows alone once all buckets are closed (`retention_counts_once`).
-/

namespace LayaWatch

/-! ## The invariant -/

/-- Counting the samples behind a digest. -/
def digestCount : Digest →+ ℕ := (Tally.countHom (R := ℚ)).comp (AddMonoidHom.fst _ _)

theorem digestCount_digest (row : Stats) : digestCount row.digest = row.count := rfl

/-- Rows and open buckets count what was committed, wherever rows are kept. -/
structure Counted (floor : ℚ) (db : Db) (env : WriterEnv) : Prop
    extends StoreOk ⟨db, env.buckets⟩ where
  /-- the balance of every set of keys that are not older than `floor` -/
  balance : ∀ step Q, (∀ k : RollupKey, Q k = true → floor ≤ k.bucket) →
    Balanced Tally.countHom step Q ⟨db, env.buckets⟩ env.committed

variable {floor : ℚ} {db : Db} {env : WriterEnv}

/-- The writer's commits keep the count. -/
theorem Counted.writer (h : Counted floor db env) {c : WriterCommit} {r : Db × WriterEnv}
    (hc : c.run db env = some r) : Counted floor r.1 r.2 := by
  obtain ⟨hstore, hcom⟩ := WriterCommit.run_eq hc
  have hok := h.toStoreOk.commit c.batch c.closeAll c.now
  rw [← hstore] at hok
  refine ⟨hok, fun step Q hQ => ?_⟩
  have hbal := (h.balance step Q hQ).commit h.toStoreOk c.batch c.closeAll c.now
  rw [← hstore, ← hcom] at hbal
  exact hbal

/-- What a chunk does to the rollups: nothing, or it deletes old buckets. -/
theorem chunk_metricRollup (order : ScanOrder) (pass : Pass) (db : Db) (loop : Chunk) :
    (loop.run order pass db).1.metricRollup = db.metricRollup ∨
    ∃ victims : List ℤ, (∀ b ∈ victims, (b : ℚ) < pass.rollupCutoff) ∧
      (loop.run order pass db).1.metricRollup =
        db.metricRollup.filter fun e => !decide (e.1.2.bucket ∈ victims) := by
  cases loop with
  | rollups =>
    refine Or.inr ⟨_, fun b hb => ?_, rfl⟩
    obtain ⟨e, he, rfl⟩ := List.mem_map.mp hb
    have hold := (order.perm _).mem_iff.mp (List.mem_of_mem_take he)
    exact of_decide_eq_true (List.mem_filter.mp hold).2
  | _ => exact Or.inl rfl

/-- Chunks delete no row that is counted. -/
theorem Counted.chunk (h : Counted floor db env) (order : ScanOrder) {pass : Pass}
    (hcut : pass.rollupCutoff ≤ floor) (loop : Chunk) :
    Counted floor (loop.run order pass db).1 env := by
  rcases chunk_metricRollup order pass db loop with hsame | ⟨victims, hold, hfilter⟩
  · refine ⟨⟨fun step key row hrow => ?_, h.buckets⟩, fun step Q hQ => ?_⟩
    · rw [loadRollupRow, hsame] at hrow
      exact h.rows step key row hrow
    · have := h.balance step Q hQ
      unfold Balanced Db.rollupSum at this ⊢
      dsimp only at this ⊢
      rwa [hsame]
  · refine ⟨⟨fun step key row hrow => ?_, h.buckets⟩, fun step Q hQ => ?_⟩
    · rw [loadRollupRow, hfilter] at hrow
      exact h.rows step key row (Dict.get_of_get_filter hrow).1
    · have hbal := h.balance step Q hQ
      unfold Balanced Db.rollupSum at hbal ⊢
      dsimp only at hbal ⊢
      rw [hfilter, Dict.total_of_filter]
      · exact hbal
      · intro pk row hp
        rw [if_neg]
        intro hat
        have hnew : floor ≤ pk.2.bucket := hQ _ (Bool.and_eq_true_iff.mp hat).2
        have hmem : pk.2.bucket ∈ victims := by simpa using hp
        exact absurd (hold _ hmem) (not_lt.mpr (hcut.trans hnew))

/-! ## Rows that passes write -/

/-- Writing a row that counts what the stored one counts keeps the count. -/
theorem Counted.upsert (h : Counted floor db env) {step : RollupStep} {key : RollupKey}
    {stats : Stats} (hok : RowOk key.metric stats) (halign : step.seconds ∣ key.bucket)
    (hsame : floor ≤ key.bucket →
      (loadRollupRow db step key).map StatsOf.count = some stats.count) :
    Counted floor (upsertRollup step key stats db) env := by
  refine ⟨⟨fun step' key' row hrow => ?_, h.buckets⟩, fun step' Q hQ => ?_⟩
  · by_cases heq : (step', key') = (step, key)
    · obtain ⟨rfl, rfl⟩ := Prod.mk.inj heq
      rw [loadRollupRow_upsert_self] at hrow
      obtain rfl := Option.some.inj hrow
      exact ⟨hok, halign⟩
    · rw [loadRollupRow_upsert_ne heq] at hrow
      exact h.rows step' key' row hrow
  · have hbal := h.balance step' Q hQ
    have hkeep : (upsertRollup step key stats db).rollupSum digestCount (atStep step' Q) =
        db.rollupSum digestCount (atStep step' Q) := by
      refine (Dict.total_set _ (i := 0) (fun hnone => ?_) fun row hsome => ?_).trans (add_zero _)
      · refine if_neg fun hat => ?_
        have hcount := hsame (hQ key (Bool.and_eq_true_iff.mp hat).2)
        rw [loadRollupRow, hnone] at hcount
        cases hcount
      · rw [add_zero]
        by_cases hat : atStep step' Q (step, key) = true
        · rw [if_pos hat, if_pos hat, digestCount_digest, digestCount_digest]
          have hcount := hsame (hQ key (Bool.and_eq_true_iff.mp hat).2)
          rw [loadRollupRow, hsome] at hcount
          exact (Option.some.inj hcount).symm
        · rw [if_neg hat, if_neg hat]
    exact (congrArg (· + _) hkeep).trans hbal

/-- What `_gather_stats` returns has the shape of a row. -/
theorem gatherStats_ok {key : RollupKey} {stats : Stats} (h : gatherStats db key = some stats) :
    RowOk key.metric stats := by
  rcases gatherStats_some h with ⟨hm, n, hne, rfl⟩ | ⟨hm, values, hne, rfl⟩
  · exact counterStats_ok hm hne
  · exact summarize_ok hm hne

/-- Merging rows of the right shape gives such a row, and adds up their counts. -/
theorem mergeChildren_spec {metric : Metric} {kids : List Stats} (hne : kids ≠ [])
    (hkids : ∀ kid ∈ kids, RowOk metric kid) : ∃ row, mergeChildren metric kids = some row ∧
      RowOk metric row ∧ row.count = childCount kids := by
  have hfold : ∀ (kids : List Stats) (merged : Stats), (∀ kid ∈ kids, RowOk metric kid) →
      RowOk metric merged → ∃ row, kids.foldl (fun merged child =>
        some (mergeStats metric merged child)) (some merged) = some row ∧ RowOk metric row ∧
        row.count = merged.count + childCount kids := by
    intro kids
    induction kids with
    | nil => exact fun merged _ hmerged => ⟨merged, rfl, hmerged, rfl⟩
    | cons kid kids ih =>
      intro merged hkids hmerged
      have hold : ∀ row, some merged = some row → RowOk metric row :=
        fun row hrow => Option.some.inj hrow ▸ hmerged
      obtain ⟨hok, hdigest⟩ := mergeStats_spec (hkids kid (List.mem_cons_self ..)) hold
      obtain ⟨row, hrow, hrok, hcount⟩ := ih _
        (fun k hk => hkids k (List.mem_cons_of_mem kid hk)) hok
      have hadd : (mergeStats metric (some merged) kid).count = merged.count + kid.count :=
        congrArg digestCount hdigest
      exact ⟨row, hrow, hrok, by rw [hcount, hadd, Nat.add_assoc]; rfl⟩
  obtain ⟨kid, kids, rfl⟩ := List.exists_cons_of_ne_nil hne
  obtain ⟨row, hrow, hok, hcount⟩ := hfold kids kid
    (fun k hk => hkids k (List.mem_cons_of_mem kid hk)) (hkids kid (List.mem_cons_self ..))
  exact ⟨row, hrow, hok, hcount⟩

/-- Children have the shape of rows. -/
theorem Counted.childRows_ok (h : Counted floor db env) (pk : RollupPk) :
    ∀ kid ∈ childRows db pk.1 pk.2, RowOk pk.2.metric kid := by
  intro kid hkid
  obtain ⟨⟨⟨step, key⟩, row⟩, he, rfl⟩ := List.mem_map.mp hkid
  obtain ⟨hmem, hcovers⟩ := List.mem_filter.mp he
  have hmetric : key.metric = pk.2.metric := (of_decide_eq_true hcovers).2.2.1
  exact hmetric ▸ (h.rows step key row (Dict.get_eq_some.mpr hmem)).1

/-- A parent row counts what its children count. -/
theorem Counted.parent_count (h : Counted floor db env) {step : RollupStep} {key : RollupKey}
    (halign : step.seconds ∣ key.bucket) (hfloor : floor ≤ key.bucket) :
    (loadRollupRow db step key).elim 0 (fun row => row.count) =
      childCount (childRows db step key) := by
  have hparent := h.balance step (fun k => decide (k = key)) fun k hk => by
    rw [of_decide_eq_true hk]
    exact hfloor
  have hten := h.balance .ten (fun k => decide (k.parent step = key)) fun k hk => by
    rw [← of_decide_eq_true hk] at hfloor
    exact hfloor.trans (floorBucket_le (k.bucket : ℚ) step)
  have hchildren := hten.ten h.buckets
  have hpk : atStep step (fun k => decide (k = key)) = fun pk => decide (pk = (step, key)) := by
    funext pk
    simp [atStep, Prod.ext_iff]
  have hrow := rollupSum_single digestCount db step key
  have hkids := sum_childRows digestCount db halign
  rw [← hpk] at hrow
  have hboth : db.rollupSum digestCount (atStep step fun k => decide (k = key)) =
      db.rollupSum digestCount (childOf step key) :=
    Nat.add_right_cancel (hparent.trans hchildren.symm)
  exact (hrow.symm.trans hboth).trans hkids

/-- A parent rebuilt from children that still count what the stored ones count. -/
theorem Counted.writeParent (h : Counted floor db env) {pk : RollupPk}
    (halign : pk.1.seconds ∣ pk.2.bucket) {kids : List Stats} (hne : kids ≠ [])
    (hkids : ∀ kid ∈ kids, RowOk pk.2.metric kid)
    (hsame : floor ≤ pk.2.bucket → childCount kids = childCount (childRows db pk.1 pk.2)) :
    Counted floor (writeParent pk kids db) env := by
  obtain ⟨row, hrow, hok, hcount⟩ := mergeChildren_spec hne hkids
  have hwrite : LayaWatch.writeParent pk kids db = upsertRollup pk.1 pk.2 row db := by
    unfold LayaWatch.writeParent
    rw [hrow]
  rw [hwrite]
  refine h.upsert hok halign fun hfloor => ?_
  have hparent := h.parent_count halign hfloor
  rw [← hsame hfloor, ← hcount] at hparent
  rcases hload : loadRollupRow db pk.1 pk.2 with _ | old
  · rw [hload] at hparent
    exact absurd hparent.symm hok.pos
  · rw [hload] at hparent
    exact congrArg some hparent

/-! ## What a pass knows -/

/-- 10 s keys. -/
def AlignedKeys (keys : List RollupKey) : Prop :=
  ∀ key ∈ keys, RollupStep.ten.seconds ∣ key.bucket

/-- Keys of rows at their own step. -/
def AlignedPks (pks : List RollupPk) : Prop := ∀ pk ∈ pks, pk.1.seconds ∣ pk.2.bucket

/-- The shape of the locals of a pass: aligned keys, and rows of the right shape. -/
def PassPoint.Shape : PassPoint → Prop
  | .buildLoad _ key todo _ | .gather _ key todo _ => AlignedKeys (key :: todo)
  | .build _ key stats todo _ => AlignedKeys (key :: todo) ∧ RowOk key.metric stats
  | .children _ pk todo _ => AlignedPks (pk :: todo)
  | .loadParent _ pk kids todo _ | .parent _ pk kids todo _ =>
    AlignedPks (pk :: todo) ∧ kids ≠ [] ∧ ∀ kid ∈ kids, RowOk pk.2.metric kid
  | _ => True

/-- The pending keys of a row are the keys it contributes to. -/
theorem pendingOf_eq (pass : Pass) (row : TraceColumns) :
    pendingOf pass row =
      if (floorBucket row.tsStart .ten : ℚ) < pass.rollupCutoff then []
      else (contributions row).map Prod.fst := by
  unfold pendingOf contributions
  by_cases h : 400 ≤ row.status
  · simp only [if_pos h]
    rfl
  · simp only [if_neg h]
    rfl

theorem mem_pendingKeys {pass : Pass} {rows : List TraceRow} {key : RollupKey} :
    key ∈ pendingKeys pass rows ↔ ∃ row ∈ rows, key ∈ pendingOf pass row.toTraceColumns := by
  unfold pendingKeys
  rw [List.mem_insertionSort, List.mem_dedup, List.mem_flatMap]

theorem pendingKeys_aligned (pass : Pass) (rows : List TraceRow) :
    AlignedKeys (pendingKeys pass rows) := by
  intro key hkey
  obtain ⟨row, -, hkey⟩ := mem_pendingKeys.mp hkey
  rw [pendingOf_eq] at hkey
  split at hkey
  · cases hkey
  · obtain ⟨c, hc, rfl⟩ := List.mem_map.mp hkey
    exact (mem_contributions hc).2 ▸ seconds_dvd_floorBucket row.tsStart .ten

theorem mem_cascadeTargets {pending : List RollupKey} {pk : RollupPk} :
    pk ∈ cascadeTargets pending ↔
      ∃ key ∈ pending, ∃ step ∈ RollupStep.parents, (step, key.parent step) = pk := by
  unfold cascadeTargets
  rw [List.mem_reverse, List.mem_dedup, List.mem_reverse, List.mem_flatMap]
  exact exists_congr fun key => and_congr_right fun _ => List.mem_map

theorem cascadeTargets_aligned (pending : List RollupKey) :
    AlignedPks (cascadeTargets pending) := by
  intro pk hpk
  obtain ⟨key, -, step, -, rfl⟩ := mem_cascadeTargets.mp hpk
  exact seconds_dvd_floorBucket key.bucket step

theorem shape_cascading (rows : List TraceRow) {todo : List RollupPk} (counts : PassCounts)
    (h : AlignedPks todo) : (PassPoint.cascading rows todo counts).Shape := by
  cases todo with
  | nil => trivial
  | cons pk todo => exact h

theorem shape_building (pass : Pass) (rows : List TraceRow) {todo : List RollupKey}
    (counts : PassCounts) (h : AlignedKeys todo) :
    (PassPoint.building pass rows todo counts).Shape := by
  cases todo with
  | nil => exact shape_cascading rows counts (cascadeTargets_aligned _)
  | cons key todo => exact h

theorem shape_afterChunk (rows : List TraceRow) (loop : Chunk) (n : ℕ) (counts : PassCounts) :
    (PassPoint.afterChunk rows loop n counts).Shape := by
  unfold PassPoint.afterChunk
  split
  · cases loop.next with
    | none => trivial
    | some loop => trivial
  · trivial

/-- A query of a pass keeps the shape of its locals. -/
theorem shape_select (h : Counted floor db env) {order : ScanOrder} {pass : Pass}
    {point : PassPoint} {k : Db → PassPoint} (hshape : point.Shape)
    (hcode : passCode order pass point = some (.select k)) : (k db).Shape := by
  cases point with
  | scanAge =>
    obtain rfl := Wal.Stmt.select.inj (Option.some.inj hcode)
    trivial
  | scanCap rows =>
    obtain rfl := Wal.Stmt.select.inj (Option.some.inj hcode)
    exact shape_building pass _ _ (pendingKeys_aligned pass _)
  | buildLoad rows key todo counts =>
    obtain rfl := Wal.Stmt.select.inj (Option.some.inj hcode)
    dsimp only
    split
    · exact shape_building pass rows counts fun k hk => hshape k (List.mem_cons_of_mem key hk)
    · exact hshape
  | gather rows key todo counts =>
    obtain rfl := Wal.Stmt.select.inj (Option.some.inj hcode)
    dsimp only
    split
    · exact shape_building pass rows counts fun k hk => hshape k (List.mem_cons_of_mem key hk)
    · rename_i stats hstats
      exact ⟨hshape, gatherStats_ok hstats⟩
  | children rows pk todo counts =>
    obtain rfl := Wal.Stmt.select.inj (Option.some.inj hcode)
    dsimp only
    split
    · exact shape_cascading rows counts fun pk' hpk => hshape pk' (List.mem_cons_of_mem pk hpk)
    · rename_i hne
      exact ⟨hshape, hne, h.childRows_ok pk⟩
  | loadParent rows pk kids todo counts =>
    obtain rfl := Wal.Stmt.select.inj (Option.some.inj hcode)
    have hrest := shape_cascading rows counts fun pk' hpk =>
      hshape.1 pk' (List.mem_cons_of_mem pk hpk)
    dsimp only
    split
    · split
      · exact hrest
      · exact hshape
    · exact hshape
  | _ => cases hcode

/-- So does a commit. -/
theorem shape_commit {order : ScanOrder} {pass : Pass} {point k : PassPoint}
    (hcode : passCode order pass point = some (.commit k)) : k.Shape := by
  obtain ⟨rows, loop, n, counts, rfl, rfl⟩ | ⟨rows, counts, rfl, rfl⟩ | ⟨counts, rfl, rfl⟩ :=
    passCode_commit hcode
  · exact shape_afterChunk rows loop n counts
  · trivial
  · trivial

/-! ## The count over every interleaving -/

/-- The guard, at the statements that write rollup rows: the row that is written
counts what the stored one counts, and a parent is written from children that
count what the stored ones count. -/
def KeepsCount (floor : ℚ) (db : Db) (_env : WriterEnv) (p : PassPc) : Prop :=
  match p.point with
  | .build _ key stats _ _ => floor ≤ key.bucket →
      (loadRollupRow db .ten key).map StatsOf.count = some stats.count
  | .parent _ pk kids _ _ => floor ≤ pk.2.bucket →
      childCount kids = childCount (childRows db pk.1 pk.2)
  | _ => True

instance (floor : ℚ) (db : Db) (env : WriterEnv) (p : PassPc) :
    Decidable (KeepsCount floor db env p) :=
  match p with
  | ⟨_, .build _ _ _ _ _⟩ | ⟨_, .parent _ _ _ _ _⟩ => inferInstanceAs (Decidable (_ → _))
  | ⟨_, .scanAge⟩ | ⟨_, .scanCap _⟩ | ⟨_, .buildLoad ..⟩ | ⟨_, .gather ..⟩ | ⟨_, .children ..⟩
  | ⟨_, .loadParent ..⟩ | ⟨_, .commitRollups ..⟩ | ⟨_, .chunk ..⟩ | ⟨_, .commitChunk ..⟩
  | ⟨_, .lastCommit _⟩ | ⟨_, .done _⟩ => isTrue trivial

/-- A change of a pass keeps the count. -/
theorem Counted.passChange (h : Counted floor db env) {order : ScanOrder} {pass : Pass}
    (hcut : pass.rollupCutoff ≤ floor) {point : PassPoint} (hshape : point.Shape)
    (hok : KeepsCount floor db env ⟨pass, point⟩) {u : Db → Db} {k : Db → PassPoint}
    (hcode : passCode order pass point = some (.dml u k)) :
    Counted floor (u db) env ∧ (k db).Shape := by
  cases point with
  | build rows key stats todo counts =>
    obtain ⟨rfl, rfl⟩ := Wal.Stmt.dml.inj (Option.some.inj hcode)
    exact ⟨h.upsert hshape.2 (hshape.1 key (List.mem_cons_self ..)) hok,
      shape_building pass rows _ fun k hk => hshape.1 k (List.mem_cons_of_mem key hk)⟩
  | parent rows pk kids todo counts =>
    obtain ⟨rfl, rfl⟩ := Wal.Stmt.dml.inj (Option.some.inj hcode)
    obtain ⟨halign, hne, hkids⟩ := hshape
    exact ⟨h.writeParent (halign pk (List.mem_cons_self ..)) hne hkids hok,
      shape_cascading rows _ fun pk' hpk => halign pk' (List.mem_cons_of_mem pk hpk)⟩
  | chunk rows loop counts =>
    obtain ⟨rfl, rfl⟩ := Wal.Stmt.dml.inj (Option.some.inj hcode)
    exact ⟨h.chunk order hcut loop, trivial⟩
  | _ => cases hcode

/-- The proof outline: the count is kept by every step, and a pass knows the
shape of its locals and that its cutoff is not past `floor`. -/
def countDiscipline (order : ScanOrder) (floor : ℚ) :
    Wal.Discipline (retention order floor) (KeepsCount floor) where
  I := Counted floor
  Knows _ _ p := p.pass.rollupCutoff ≤ floor ∧ p.point.Shape
  Grows _ _ := True
  trans _ _ := trivial
  stable _ h := h
  start _ hstart := by
    obtain ⟨hpoint, hcut⟩ := retention_start hstart
    exact ⟨hcut, hpoint ▸ trivial⟩
  select hI hK hcode _ := by
    obtain ⟨k, hpass, rfl⟩ := Wal.Stmt.map_eq_select hcode
    exact ⟨hK.1, shape_select hI hK.2 hpass⟩
  dml hI hK hcode hok := by
    obtain ⟨k, hpass, rfl⟩ := Wal.Stmt.map_eq_dml hcode
    obtain ⟨hI', hshape⟩ := hI.passChange hK.1 hK.2 hok hpass
    exact ⟨hI', trivial, hK.1, hshape⟩
  commit _ hK hcode := by
    obtain ⟨k, hpass, rfl⟩ := Wal.Stmt.map_eq_commit hcode
    exact ⟨hK.1, shape_commit hpass⟩
  rollback _ hcode := absurd hcode (retention_noRollback _)
  ext hI hc := ⟨hI.writer hc, fun _ h => h⟩

/-! ## Counting traces -/

/-- The `count` of a row, 0 without one. -/
def rowCount (db : Db) (step : RollupStep) (key : RollupKey) : ℕ :=
  (loadRollupRow db step key).elim 0 fun row => row.count

/-- How many traces have a key that satisfies `P`. -/
def tracesWith (P : RollupKey → Bool) (traces : List Trace) : ℕ :=
  traces.countP fun t => (contributions t.toTraceColumns).any fun c => P c.1

/-- A trace has one key for each metric. -/
theorem metrics_nodup (trace : TraceColumns) :
    ((contributions trace).map fun c => c.1.metric).Nodup := by
  unfold contributions
  by_cases h : 400 ≤ trace.status
  · simp only [if_pos h]
    exact (by decide : [Metric.requests, .errors, .latency, .queue].Nodup)
  · simp only [if_neg h]
    exact (by decide : [Metric.requests, .latency, .queue].Nodup)

/-- So it has at most one sample under the keys of one metric. -/
theorem countP_contributions (trace : TraceColumns) {P : RollupKey → Bool} {metric : Metric}
    (hP : ∀ k, P k = true → k.metric = metric) :
    (contributions trace).countP (fun c => P c.1) =
      if (contributions trace).any fun c => P c.1 then 1 else 0 := by
  have hle : (contributions trace).countP (fun c => P c.1) ≤ 1 := by
    refine le_trans ?_ (List.nodup_iff_count_le_one.mp (metrics_nodup trace) metric)
    rw [List.count, List.countP_map]
    exact List.countP_mono_left fun c _ hc => by simpa using hP c.1 hc
  split
  · rename_i hany
    obtain ⟨c, hc, hPc⟩ := List.any_eq_true.mp hany
    have hpos : 0 < (contributions trace).countP (fun c => P c.1) :=
      List.countP_pos_iff.mpr ⟨c, hc, hPc⟩
    exact Nat.le_antisymm hle hpos
  · rename_i hany
    refine List.countP_eq_zero.mpr fun c hc hPc => hany ?_
    exact List.any_eq_true.mpr ⟨c, hc, hPc⟩

theorem length_samplesOf {P : RollupKey → Bool} {metric : Metric}
    (hP : ∀ k, P k = true → k.metric = metric) (traces : List Trace) :
    (samplesOf P traces).length = tracesWith P traces := by
  unfold samplesOf
  rw [List.length_map, ← List.countP_eq_length_filter]
  induction traces with
  | nil => rfl
  | cons t traces ih =>
    rw [List.flatMap_cons, List.countP_append, ih, countP_contributions t.toTraceColumns hP,
      tracesWith, tracesWith, List.countP_cons, Nat.add_comm]

/-- Every row that is not older than `floor` counts the traces with its key. -/
structure CountsOnce (floor : ℚ) (db : Db) (committed : List Trace) : Prop where
  /-- the 10 s rows -/
  ten : ∀ key : RollupKey, floor ≤ key.bucket →
    rowCount db .ten key = tracesWith (fun k => decide (k = key)) committed
  /-- the parent rows -/
  parents : ∀ step ∈ RollupStep.parents, ∀ key : RollupKey, floor ≤ key.bucket →
    rowCount db step key = tracesWith (fun k => decide (k.parent step = key)) committed

/-- With no bucket open, the count of what was committed is the count of the rows. -/
theorem Counted.once (h : Counted floor db env) (hopen : env.buckets = Dict.empty) :
    CountsOnce floor db env.committed := by
  have hrow : ∀ (step : RollupStep) (key : RollupKey), floor ≤ key.bucket → rowCount db step key =
      (samplesOf (fun k => decide (k.parent step = key)) env.committed).length := by
    intro step key hfloor
    have hbal := h.balance step (fun k => decide (k = key)) fun k hk => by
      rw [of_decide_eq_true hk]
      exact hfloor
    have hpk : atStep step (fun k => decide (k = key)) = fun pk => decide (pk = (step, key)) := by
      funext pk
      simp [atStep, Prod.ext_iff]
    unfold Balanced at hbal
    rw [hopen, openSum, Dict.total_empty, add_zero, hpk, rollupSum_single, Tally.countHom_apply,
      Tally.count_of] at hbal
    exact hbal
  constructor
  · intro key hfloor
    rw [hrow .ten key hfloor, samplesOf_parent_ten fun k => decide (k = key)]
    exact length_samplesOf (fun k hk => congrArg RollupKey.metric (of_decide_eq_true hk)) _
  · intro step _ key hfloor
    rw [hrow step key hfloor]
    have hmetric : ∀ k : RollupKey, decide (k.parent step = key) = true →
        k.metric = key.metric := fun k hk => by rw [← of_decide_eq_true hk]; rfl
    exact length_samplesOf hmetric _

/-- A migrated database, no trace committed yet, no pass running. -/
def RetentionWorld.fresh : RetentionWorld := ⟨Db.fresh, {}, none, []⟩

theorem counted_fresh (floor : ℚ) : Counted floor Db.fresh {} :=
  ⟨⟨fun _ _ _ h => (by cases h), fun _ _ h => (by cases h)⟩, fun _ _ _ => rfl⟩

/-- **Retention does not double count where it rebuilds no row.** Through every
interleaving of commits with the statements of passes, as long as each rollup
row a pass writes counts what the stored one counts: once all buckets are closed,
every row counts the committed traces with its key. -/
theorem retention_counts_once {order : ScanOrder} {floor : ℚ} {t : RetentionWorld}
    {es : List (Machine.Event RetentionWorld (Wal.Act PassPc WriterCommit))}
    (hrun : ((retention order floor).machine (· = RetentionWorld.fresh)).Run
      RetentionWorld.fresh es t)
    (hok : ∀ e ∈ es, Wal.Allowed (KeepsCount floor) e.pre e.act)
    (hclosed : t.env.buckets = Dict.empty) : CountsOnce floor t.disk t.env.committed := by
  have hstart : (countDiscipline order floor).outline.Holds RetentionWorld.fresh :=
    ⟨counted_fresh floor, fun i p hp => (by cases hp), fun j w hw => (by cases hw)⟩
  exact ((countDiscipline order floor).outline.sound hrun hstart hok).1.inv.once hclosed

/-- Two traces of one bucket. -/
def twoTraces : List Item :=
  [⟨0, .trace (sampleTrace 200)⟩, ⟨1, .trace { sampleTrace 200 with id := py "00000002" }⟩]

/-- A pass that keeps one trace, after both are committed: with their bucket
closed, or with it left open and closed at the end. -/
def passAfter (closed : Bool) : List (Wal.Act PassPc WriterCommit) :=
  [.ext ⟨twoTraces, closed, 100, []⟩, .connect ⟨⟨1, 1, 0, 0, 0, 0⟩, .scanAge⟩] ++
    if closed then List.replicate 29 (.stmt 0)
    else List.replicate 41 (.stmt 0) ++ [.ext ⟨[], true, 200, []⟩]

/-- The key of the requests of the two traces. -/
def twoRequests : RollupKey := ⟨100, .requests, [], py "/predict", 0⟩

/-- With the bucket open during the pass, its two traces are counted four times. -/
theorem open_bucket_counted_twice : ∃ es t,
    ((retention .insertion 0).machine (· = RetentionWorld.fresh)).Run RetentionWorld.fresh es t ∧
    t.env.buckets = Dict.empty ∧ (0 : ℚ) ≤ twoRequests.bucket ∧
    rowCount t.disk .ten twoRequests = 4 ∧
    tracesWith (fun k => decide (k = twoRequests)) t.env.committed = 2 ∧
    ¬CountsOnce 0 t.disk t.env.committed := by
  have hend : (((retention .insertion 0).machine (· = RetentionWorld.fresh)).exec
      RetentionWorld.fresh (passAfter false)).any (fun t => decide (t.env.buckets.keys = [] ∧
        rowCount t.disk .ten twoRequests = 4 ∧
        tracesWith (fun k => decide (k = twoRequests)) t.env.committed = 2)) = true := by
    decide +kernel
  obtain ⟨t, hexec, ht⟩ := (Option.any_eq_true _ _).mp hend
  obtain ⟨es, hrun, -⟩ := Machine.Run.of_exec hexec
  obtain ⟨hopen, hrow, hcount⟩ := of_decide_eq_true ht
  have hfloor : (0 : ℚ) ≤ twoRequests.bucket := by decide +kernel
  refine ⟨es, t, hrun, Dict.eq_empty hopen, hfloor, hrow, hcount, fun h => ?_⟩
  have := h.ten twoRequests hfloor
  omega

/-- With the bucket closed before the pass, they are counted once each, though the
pass deletes one of them. -/
theorem closed_bucket_counted_once : ∃ t : RetentionWorld, CountsOnce 0 t.disk t.env.committed ∧
    tracesWith (fun k => decide (k = twoRequests)) t.env.committed = 2 ∧
    t.disk.traces.length = 1 := by
  have hend : (((retention .insertion 0).machine (· = RetentionWorld.fresh)).execOk
      (Wal.Allowed (KeepsCount 0)) RetentionWorld.fresh (passAfter true)).any (fun t =>
        decide (t.env.buckets.keys = [] ∧
          tracesWith (fun k => decide (k = twoRequests)) t.env.committed = 2 ∧
          t.disk.traces.length = 1)) = true := by
    decide +kernel
  obtain ⟨t, hexec, ht⟩ := (Option.any_eq_true _ _).mp hend
  obtain ⟨es, hrun, hok⟩ := Machine.Run.of_execOk hexec
  obtain ⟨hopen, hrest⟩ := of_decide_eq_true ht
  exact ⟨t, retention_counts_once hrun hok (Dict.eq_empty hopen), hrest⟩

end LayaWatch
