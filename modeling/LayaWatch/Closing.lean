import LayaWatch.Commit

/-!
# What closing a bucket adds up to

Rows and open buckets are measured by sums: `Db.rollupSum φ P` adds up `φ` of
the digests of the rows whose key satisfies `P`, `openSum ψ P` adds up `ψ` of
the tallies of the open buckets. A new sample adds itself to the open side
(`sum_set`), an increment merged into a row adds its digest to the row side
(`sum_upsert_merge`), and closing a bucket adds the same increment at every step
of the cascade (`closeBucket_sum`).
-/

namespace LayaWatch

variable {M : Type} [AddCommMonoid M]

/-! ## Rows -/

/-- Every stored row has the shape the program gives it, under an aligned key. -/
def RowsOk (db : Db) : Prop :=
  ∀ step key row, loadRollupRow db step key = some row →
    RowOk key.metric row ∧ step.seconds ∣ key.bucket

/-- The sum of `φ` over the digests of the rows whose key satisfies `P`. -/
def Db.rollupSum (φ : Digest →+ M) (P : RollupPk → Bool) (db : Db) : M :=
  db.metricRollup.total fun pk row => if P pk then φ row.digest else 0

/-- Merging an increment into the row of a key adds the digest of the
increment. -/
theorem sum_upsert_merge (φ : Digest →+ M) (P : RollupPk → Bool) {db : Db} (hrows : RowsOk db)
    (step : RollupStep) {key : RollupKey} {stats : Stats} (hstats : RowOk key.metric stats) :
    (upsertRollup step key (mergeStats key.metric (loadRollupRow db step key) stats) db).rollupSum
      φ P = db.rollupSum φ P + if P (step, key) then φ stats.digest else 0 := by
  have hmerge : RowOk key.metric (mergeStats key.metric (loadRollupRow db step key) stats) ∧
      (mergeStats key.metric (loadRollupRow db step key) stats).digest =
        ((loadRollupRow db step key).map Stats.digest).getD 0 + stats.digest :=
    mergeStats_spec hstats fun row h => (hrows step key row h).1
  refine Dict.total_set _ (fun hnone => ?_) fun row hsome => ?_
  · have hd := hmerge.2
    rw [show loadRollupRow db step key = none from hnone] at hd ⊢
    rw [hd, Option.map_none, Option.getD_none, zero_add]
  · have hd := hmerge.2
    rw [show loadRollupRow db step key = some row from hsome] at hd ⊢
    rw [hd, Option.map_some, Option.getD_some, map_add]
    split
    · rfl
    · rw [add_zero]

theorem rowsOk_upsert_merge {db : Db} (hrows : RowsOk db) {step : RollupStep} {key : RollupKey}
    {stats : Stats} (hstats : RowOk key.metric stats) (halign : step.seconds ∣ key.bucket) :
    RowsOk
      (upsertRollup step key (mergeStats key.metric (loadRollupRow db step key) stats) db) := by
  intro step' key' row h
  by_cases heq : (step', key') = (step, key)
  · obtain ⟨rfl, rfl⟩ := Prod.mk.inj heq
    rw [loadRollupRow_upsert_self] at h
    obtain rfl := Option.some.inj h
    exact ⟨(mergeStats_spec hstats fun row h => (hrows _ _ row h).1).1, halign⟩
  · rw [loadRollupRow_upsert_ne heq] at h
    exact hrows step' key' row h

/-- The rows of a cascade, each merged from the database before the cascade. -/
def cascadeRows (db : Db) (key : RollupKey) (stats : Stats) (steps : List RollupStep) :
    List RollupRow :=
  steps.map fun step => (step, key.parent step,
    mergeStats key.metric (loadRollupRow db step (key.parent step)) stats)

/-- Write rows. -/
def upsertRows (rows : List RollupRow) (db : Db) : Db :=
  rows.foldl (fun db row => upsertRollup row.1 row.2.1 row.2.2 db) db

/-- A cascade over distinct steps adds its increment at each of them. -/
theorem cascade_sum (φ : Digest →+ M) (P : RollupPk → Bool) {key : RollupKey} {stats : Stats}
    (hstats : RowOk key.metric stats) {db₀ : Db} : ∀ (steps : List RollupStep) (db : Db),
      steps.Nodup → RowsOk db →
      (∀ step ∈ steps, loadRollupRow db step (key.parent step) =
        loadRollupRow db₀ step (key.parent step)) →
      RowsOk (upsertRows (cascadeRows db₀ key stats steps) db) ∧
      (upsertRows (cascadeRows db₀ key stats steps) db).rollupSum φ P = db.rollupSum φ P +
        (steps.map fun step => if P (step, key.parent step) then φ stats.digest else 0).sum := by
  intro steps
  induction steps with
  | nil =>
    intro db _ hrows _
    exact ⟨hrows, (add_zero _).symm⟩
  | cons step steps ih =>
    intro db hnodup hrows hload
    obtain ⟨hnew, hnodup⟩ := List.nodup_cons.mp hnodup
    have hstep := hload step (List.mem_cons_self ..)
    have hstats' : RowOk (key.parent step).metric stats := hstats
    have hrows' := rowsOk_upsert_merge hrows hstats' (seconds_dvd_floorBucket key.bucket step)
    have hsum := sum_upsert_merge φ P hrows step hstats'
    rw [hstep] at hrows' hsum
    obtain ⟨hok, hrest⟩ := ih (upsertRollup step (key.parent step) (mergeStats key.metric
      (loadRollupRow db₀ step (key.parent step)) stats) db) hnodup hrows' fun step' hs' => by
        rw [loadRollupRow_upsert_ne, hload step' (List.mem_cons_of_mem step hs')]
        intro heq
        exact hnew ((Prod.mk.inj heq).1 ▸ hs')
    refine ⟨hok, hrest.trans ?_⟩
    rw [List.map_cons, List.sum_cons, ← add_assoc]
    exact congrArg (· + _) hsum

/-! ## Open buckets -/

/-- The samples in a bucket: one per counter event, or the values. -/
def Bucket.samples (metric : Metric) (bucket : Bucket) : List ℚ :=
  if metric.isCounter then List.replicate bucket.n 1 else bucket.vals

/-- The samples in the open bucket of a key. -/
def openSamples (buckets : Buckets) (key : RollupKey) : List ℚ :=
  ((buckets.get key).map (Bucket.samples key.metric)).getD []

/-- Every open bucket has a sample in it, under an aligned key. -/
def BucketsOk (buckets : Buckets) : Prop :=
  ∀ key bucket, buckets.get key = some bucket →
    bucket.samples key.metric ≠ [] ∧ RollupStep.ten.seconds ∣ key.bucket

/-- The sum of `ψ` over the tallies of the open buckets whose key satisfies `P`. -/
def openSum (ψ : Tally ℚ →+ M) (P : RollupKey → Bool) (buckets : Buckets) : M :=
  buckets.total fun key bucket => if P key then ψ (Tally.of (bucket.samples key.metric)) else 0

/-- The statistics of a bucket tally its samples. -/
theorem Bucket.stats_spec {metric : Metric} {bucket : Bucket} (h : bucket.samples metric ≠ []) :
    ∃ stats, bucket.stats metric = some stats ∧ RowOk metric stats ∧
      stats.digest.1 = Tally.of (bucket.samples metric) := by
  unfold Bucket.samples at h ⊢
  unfold Bucket.stats
  rcases hm : metric.isCounter with - | -
  · rw [hm, if_neg Bool.false_ne_true] at h
    have he : bucket.vals.isEmpty = false := by simpa using h
    simp only [he, Bool.false_eq_true, if_false]
    exact ⟨_, rfl, summarize_ok hm h, digest_summarize h⟩
  · rw [hm, if_pos rfl] at h
    have hn : bucket.n ≠ 0 := by
      rintro h0
      rw [h0] at h
      exact h rfl
    simp only [if_true, if_neg hn]
    exact ⟨_, rfl, counterStats_ok hm hn, by rw [Stats.digest_counterStats hn]⟩

/-- A bucket with a sample more. -/
theorem sum_set (ψ : Tally ℚ →+ M) (P : RollupKey → Bool) {work : Buckets} (hok : BucketsOk work)
    {key : RollupKey} {bucket : Bucket} {x : ℚ}
    (hnew : bucket.samples key.metric = openSamples work key ++ [x])
    (halign : RollupStep.ten.seconds ∣ key.bucket) :
    BucketsOk (work.set key bucket) ∧ openSum ψ P (work.set key bucket) =
      openSum ψ P work + if P key then ψ (Tally.single x) else 0 := by
  constructor
  · intro key' bucket' h
    by_cases hk : key' = key
    · subst hk
      rw [Dict.get_set_self] at h
      obtain rfl := Option.some.inj h
      exact ⟨by simp [hnew], halign⟩
    · rw [Dict.get_set_ne _ _ hk] at h
      exact hok key' bucket' h
  · unfold openSamples at hnew
    refine Dict.total_set _ (fun hnone => ?_) fun current hsome => ?_
    · rw [hnone] at hnew
      rw [hnew]
      simp
    · rw [hsome, Option.map_some, Option.getD_some] at hnew
      rw [hnew, Tally.of_append, map_add]
      split
      · simp
      · rw [add_zero]

/-! ## Contributions -/

/-- What a trace contributes to the rollups: the keys, each with its sample. -/
def contributions (trace : TraceColumns) : List (RollupKey × ℚ) :=
  let bucket := floorBucket trace.tsStart .ten
  let model := PyStr.orEmpty trace.model
  (⟨bucket, .requests, model, trace.route, 0⟩, 1) ::
    (if 400 ≤ trace.status then [(⟨bucket, .errors, [], [], trace.status⟩, 1)] else []) ++
    [(⟨bucket, .latency, model, trace.route, 0⟩, trace.durationMs),
      (⟨bucket, .queue, model, trace.route, 0⟩, trace.queueMs)]

/-- What a sample of a key may be, and where its bucket starts. -/
theorem mem_contributions {trace : TraceColumns} {c : RollupKey × ℚ} (h : c ∈ contributions trace) :
    (c.1.metric.isCounter = true → c.2 = 1) ∧ c.1.bucket = floorBucket trace.tsStart .ten := by
  unfold contributions at h
  rw [List.cons_append, List.mem_cons, List.mem_append, List.mem_cons, List.mem_singleton] at h
  rcases h with rfl | h | rfl | rfl
  · exact ⟨fun _ => rfl, rfl⟩
  · split at h
    · rw [List.mem_singleton.mp h]
      exact ⟨fun _ => rfl, rfl⟩
    · cases h
  · exact ⟨fun hm => absurd hm Bool.false_ne_true, rfl⟩
  · exact ⟨fun hm => absurd hm Bool.false_ne_true, rfl⟩

/-- The bump of a contribution. -/
def addSample (work : Buckets) (c : RollupKey × ℚ) : Buckets :=
  if c.1.metric.isCounter then bump work c.1 1 none else bump work c.1 0 (some c.2)

theorem accumulate_eq (work : Buckets) (trace : Trace) :
    accumulate work trace = (contributions trace.toTraceColumns).foldl addSample work := by
  unfold accumulate contributions
  by_cases h : 400 ≤ trace.status
  · simp only [if_pos h]
    rfl
  · simp only [if_neg h]
    rfl

/-- A sample goes to the end of the open bucket of its key. -/
theorem addSample_eq (work : Buckets) {c : RollupKey × ℚ}
    (hone : c.1.metric.isCounter = true → c.2 = 1) : ∃ bucket,
      addSample work c = work.set c.1 bucket ∧
      bucket.samples c.1.metric = openSamples work c.1 ++ [c.2] := by
  unfold addSample openSamples
  rcases hm : c.1.metric.isCounter with - | -
  · rw [if_neg Bool.false_ne_true]
    rcases hget : work.get c.1 with _ | current
    · simp only [bump, hget]
      exact ⟨_, rfl, by simp [Bucket.samples, hm]⟩
    · simp only [bump, hget]
      exact ⟨_, rfl, by simp [Bucket.samples, hm]⟩
  · rw [if_pos rfl, hone hm]
    rcases hget : work.get c.1 with _ | current
    · simp only [bump, hget]
      exact ⟨_, rfl, by simp [Bucket.samples, hm]⟩
    · simp only [bump, hget]
      exact ⟨_, rfl, by simp [Bucket.samples, hm, List.replicate_succ']⟩

theorem sum_addSample (ψ : Tally ℚ →+ M) (P : RollupKey → Bool) {work : Buckets}
    (hok : BucketsOk work) {c : RollupKey × ℚ} (hone : c.1.metric.isCounter = true → c.2 = 1)
    (halign : RollupStep.ten.seconds ∣ c.1.bucket) : BucketsOk (addSample work c) ∧
      openSum ψ P (addSample work c) =
        openSum ψ P work + if P c.1 then ψ (Tally.single c.2) else 0 := by
  obtain ⟨bucket, heq, hsamples⟩ := addSample_eq work hone
  rw [heq]
  exact sum_set ψ P hok hsamples halign

theorem openSamples_addSample (work : Buckets) {c : RollupKey × ℚ}
    (hone : c.1.metric.isCounter = true → c.2 = 1) (key : RollupKey) :
    openSamples (addSample work c) key =
      openSamples work key ++ if c.1 = key then [c.2] else [] := by
  obtain ⟨bucket, heq, hsamples⟩ := addSample_eq work hone
  by_cases hkey : c.1 = key
  · subst hkey
    rw [heq, if_pos rfl, ← hsamples, openSamples, Dict.get_set_self]
    rfl
  · rw [heq, if_neg hkey, List.append_nil, openSamples, Dict.get_set_ne _ _ (Ne.symm hkey),
      openSamples]

/-- The samples of some traces under the keys that satisfy `P`. -/
def samplesOf (P : RollupKey → Bool) (traces : List Trace) : List ℚ :=
  ((traces.flatMap fun t => contributions t.toTraceColumns).filter fun c => P c.1).map Prod.snd

theorem samplesOf_append (P : RollupKey → Bool) (traces traces' : List Trace) :
    samplesOf P (traces ++ traces') = samplesOf P traces ++ samplesOf P traces' := by
  simp [samplesOf]

theorem sum_foldl_addSample (ψ : Tally ℚ →+ M) (P : RollupKey → Bool)
    {cs : List (RollupKey × ℚ)} : ∀ {work : Buckets}, BucketsOk work →
      (∀ c ∈ cs, (c.1.metric.isCounter = true → c.2 = 1) ∧
        RollupStep.ten.seconds ∣ c.1.bucket) →
      BucketsOk (cs.foldl addSample work) ∧ openSum ψ P (cs.foldl addSample work) =
        openSum ψ P work + ψ (Tally.of ((cs.filter fun c => P c.1).map Prod.snd)) := by
  induction cs with
  | nil =>
    intro work hok _
    exact ⟨hok, by simp⟩
  | cons c cs ih =>
    intro work hok hcs
    obtain ⟨hone, halign⟩ := hcs c (List.mem_cons_self ..)
    obtain ⟨hok', hsum⟩ := sum_addSample ψ P hok hone halign
    obtain ⟨hok'', hrest⟩ := ih hok' fun d hd => hcs d (List.mem_cons_of_mem c hd)
    refine ⟨hok'', ?_⟩
    rw [List.foldl_cons, hrest, hsum, add_assoc]
    congr 1
    by_cases hp : P c.1 = true
    · rw [if_pos hp, List.filter_cons, if_pos hp, List.map_cons, Tally.of_cons, map_add]
    · rw [if_neg hp, List.filter_cons, if_neg hp, zero_add]

theorem workOf_eq (buckets : Buckets) (batch : List Item) : workOf buckets batch =
    ((Item.traces batch).flatMap fun t => contributions t.toTraceColumns).foldl addSample
      buckets := by
  unfold workOf
  induction Item.traces batch generalizing buckets with
  | nil => rfl
  | cons t ts ih => rw [List.foldl_cons, List.flatMap_cons, List.foldl_append, ← accumulate_eq, ih]

/-- The buckets of a batch hold the samples of its traces on top of what was
open. -/
theorem sum_workOf (ψ : Tally ℚ →+ M) (P : RollupKey → Bool) {buckets : Buckets}
    (hok : BucketsOk buckets) (batch : List Item) : BucketsOk (workOf buckets batch) ∧
      openSum ψ P (workOf buckets batch) =
        openSum ψ P buckets + ψ (Tally.of (samplesOf P (Item.traces batch))) := by
  rw [workOf_eq]
  refine sum_foldl_addSample ψ P hok fun c hc => ?_
  obtain ⟨t, -, hc⟩ := List.mem_flatMap.mp hc
  obtain ⟨hone, hbucket⟩ := mem_contributions hc
  exact ⟨hone, hbucket ▸ seconds_dvd_floorBucket t.tsStart .ten⟩

/-- The same for the samples of one key, in order. -/
theorem openSamples_workOf (buckets : Buckets) (batch : List Item) (key : RollupKey) :
    openSamples (workOf buckets batch) key = openSamples buckets key ++
      samplesOf (fun k => decide (k = key)) (Item.traces batch) := by
  have hfold : ∀ (cs : List (RollupKey × ℚ)) (work : Buckets),
      (∀ c ∈ cs, c.1.metric.isCounter = true → c.2 = 1) →
      openSamples (cs.foldl addSample work) key = openSamples work key ++
        (cs.filter fun c => decide (c.1 = key)).map Prod.snd := by
    intro cs
    induction cs with
    | nil => exact fun work _ => (List.append_nil _).symm
    | cons c cs ih =>
      intro work hone
      rw [List.foldl_cons, ih _ fun d hd => hone d (List.mem_cons_of_mem c hd),
        openSamples_addSample work (hone c (List.mem_cons_self ..)), List.append_assoc]
      by_cases hkey : c.1 = key
      · rw [if_pos hkey, List.filter_cons_of_pos (by simp [hkey])]
        rfl
      · rw [if_neg hkey, List.filter_cons_of_neg (by simp [hkey])]
        rfl
  rw [workOf_eq]
  refine hfold _ _ fun c hc => ?_
  obtain ⟨t, -, hc⟩ := List.mem_flatMap.mp hc
  exact (mem_contributions hc).1

/-! ## Closing -/

/-- All steps of the cascade, the 10 s one first. -/
def RollupStep.all : List RollupStep := .ten :: RollupStep.parents

/-- An aligned key is its own 10 s parent. -/
theorem RollupKey.parent_ten {key : RollupKey} (h : RollupStep.ten.seconds ∣ key.bucket) :
    key.parent .ten = key := by
  have hw : InWindow key.bucket .ten key.bucket :=
    ⟨le_refl _, lt_add_of_pos_right _ RollupStep.ten.seconds_pos⟩
  unfold RollupKey.parent
  rw [floorBucket_eq_of_inWindow h hw]

/-- The same increment goes to every step. -/
theorem closeBucket_sum (φ : Digest →+ M) (P : RollupPk → Bool) {db : Db} (hrows : RowsOk db)
    {key : RollupKey} {bucket : Bucket} (halign : RollupStep.ten.seconds ∣ key.bucket)
    {stats : Stats} (hstats : bucket.stats key.metric = some stats)
    (hok : RowOk key.metric stats) : RowsOk (closeBucket db key bucket) ∧
      (closeBucket db key bucket).rollupSum φ P = db.rollupSum φ P +
        (RollupStep.all.map fun step =>
          if P (step, key.parent step) then φ stats.digest else 0).sum := by
  have hten := RollupKey.parent_ten halign
  have hrowsOf : rowsOf db key stats = cascadeRows db key stats RollupStep.all := by
    unfold rowsOf cascadeRows RollupStep.all
    rw [List.map_cons, hten]
  have hclose : closeBucket db key bucket =
      upsertRows (cascadeRows db key stats RollupStep.all) db := by
    unfold closeBucket
    rw [hstats]
    exact congrArg (upsertRows · db) hrowsOf
  rw [hclose]
  exact cascade_sum φ P hok _ db (by decide) hrows fun _ _ => rfl

/-! ## Balance -/

/-- Rows and open buckets have the shape the program gives them. -/
structure StoreOk (s : Store) : Prop where
  /-- the rows -/
  rows : RowsOk s.db
  /-- the open buckets -/
  buckets : BucketsOk s.buckets

/-- The rows of one step whose key satisfies `Q`. -/
def atStep (step : RollupStep) (Q : RollupKey → Bool) (pk : RollupPk) : Bool :=
  decide (pk.1 = step) && Q pk.2

/-- At `step`, the rows whose key satisfies `Q` and the open buckets whose parent
does add up to the samples of `traces`. -/
def Balanced (ψ : Tally ℚ →+ M) (step : RollupStep) (Q : RollupKey → Bool) (s : Store)
    (traces : List Trace) : Prop :=
  s.db.rollupSum (ψ.comp (AddMonoidHom.fst _ _)) (atStep step Q) +
    openSum ψ (fun k => Q (k.parent step)) s.buckets =
      ψ (Tally.of (samplesOf (fun k => Q (k.parent step)) traces))

/-- The open buckets have aligned keys, so their 10 s parents are themselves. -/
theorem openSum_parent_ten (ψ : Tally ℚ →+ M) (Q : RollupKey → Bool) {buckets : Buckets}
    (hok : BucketsOk buckets) :
    openSum ψ (fun k => Q (k.parent .ten)) buckets = openSum ψ Q buckets := by
  refine Dict.total_congr fun k bucket hm => ?_
  simp only [RollupKey.parent_ten (hok k bucket (Dict.get_eq_some.mpr hm)).2]

/-- So are those of the keys of contributions. -/
theorem samplesOf_parent_ten (Q : RollupKey → Bool) (traces : List Trace) :
    samplesOf (fun k => Q (k.parent .ten)) traces = samplesOf Q traces := by
  refine congrArg (List.map Prod.snd) (List.filter_congr fun c hc => ?_)
  obtain ⟨t, -, hc⟩ := List.mem_flatMap.mp hc
  dsimp only
  rw [RollupKey.parent_ten ((mem_contributions hc).2 ▸ seconds_dvd_floorBucket t.tsStart .ten)]

/-- The balance of the 10 s rows. -/
theorem Balanced.ten {ψ : Tally ℚ →+ M} {Q : RollupKey → Bool} {s : Store} {traces : List Trace}
    (h : Balanced ψ .ten Q s traces) (hok : BucketsOk s.buckets) :
    s.db.rollupSum (ψ.comp (AddMonoidHom.fst _ _)) (atStep .ten Q) + openSum ψ Q s.buckets =
      ψ (Tally.of (samplesOf Q traces)) := by
  unfold Balanced at h
  rwa [openSum_parent_ten ψ Q hok, samplesOf_parent_ten] at h

/-- A sum over the steps of a cascade that looks at one step only. -/
theorem sum_atStep (step : RollupStep) (Q : RollupKey → Bool) (key : RollupKey) (i : M) :
    (RollupStep.all.map fun st => if atStep step Q (st, key.parent st) then i else 0).sum =
      if Q (key.parent step) then i else 0 := by
  cases step <;> simp [RollupStep.all, RollupStep.parents, atStep]

theorem StoreOk.closeDue {s : Store} (h : StoreOk s) (key : RollupKey) :
    StoreOk (closeDue s key) := by
  unfold LayaWatch.closeDue
  rcases hget : s.buckets.get key with _ | bucket
  · exact h
  · obtain ⟨hne, halign⟩ := h.buckets key bucket hget
    obtain ⟨stats, hstats, hok, -⟩ := Bucket.stats_spec hne
    refine ⟨(closeBucket_sum (AddMonoidHom.id _) (fun _ => true) h.rows halign hstats hok).1,
      fun k b hk => ?_⟩
    by_cases hkey : k = key
    · rw [hkey, Dict.get_erase_self] at hk
      cases hk
    · rw [Dict.get_erase_ne _ hkey] at hk
      exact h.buckets k b hk

/-- Closing a due bucket moves it from the open side to the rows. -/
theorem Balanced.closeDue {ψ : Tally ℚ →+ M} {step : RollupStep} {Q : RollupKey → Bool}
    {s : Store} {traces : List Trace} (h : Balanced ψ step Q s traces) (hs : StoreOk s)
    (key : RollupKey) : Balanced ψ step Q (closeDue s key) traces := by
  unfold LayaWatch.closeDue
  rcases hget : s.buckets.get key with _ | bucket
  · exact h
  · obtain ⟨hne, halign⟩ := hs.buckets key bucket hget
    obtain ⟨stats, hstats, hok, htally⟩ := Bucket.stats_spec hne
    have hrow := (closeBucket_sum (ψ.comp (AddMonoidHom.fst _ _)) (atStep step Q) hs.rows halign
      hstats hok).2
    rw [sum_atStep] at hrow
    have herase := Dict.total_erase (fun k (b : Bucket) => if Q (k.parent step) then
      ψ (Tally.of (b.samples k.metric)) else 0) hget
    unfold Balanced at h ⊢
    rw [← h, hrow, add_assoc]
    refine congrArg (_ + ·) ((add_comm _ _).trans ?_)
    rw [← htally] at herase
    exact herase

theorem StoreOk.closeAllDue {due : List RollupKey} {s : Store} (h : StoreOk s) :
    StoreOk (due.foldl LayaWatch.closeDue s) := by
  induction due generalizing s with
  | nil => exact h
  | cons key due ih => exact ih (h.closeDue key)

theorem Balanced.closeAllDue {ψ : Tally ℚ →+ M} {step : RollupStep} {Q : RollupKey → Bool}
    {traces : List Trace} {due : List RollupKey} {s : Store} (h : Balanced ψ step Q s traces)
    (hs : StoreOk s) : Balanced ψ step Q (due.foldl LayaWatch.closeDue s) traces := by
  induction due generalizing s with
  | nil => exact h
  | cons key due ih => exact ih (h.closeDue hs key) (hs.closeDue key)

/-- The rows of a batch are no rollup rows. -/
theorem insertBatch_metricRollup (db : Db) (kept : List Trace) (logs : List LogEntry) :
    (insertBatch db kept logs).metricRollup = db.metricRollup := by
  unfold insertBatch
  rw [foldl_keeps Db.metricRollup Db.addLog fun _ _ => rfl,
    foldl_keeps Db.metricRollup Db.addScore fun _ _ => rfl,
    foldl_keeps Db.metricRollup Db.addObservation fun _ _ => rfl,
    foldl_keeps Db.metricRollup Db.addTrace fun _ _ => rfl]

/-- The store of a batch before its due buckets are closed. -/
def batchOpen (batch : List Item) (s : Store) : Store :=
  ⟨insertBatch s.db (keptTraces batch) (Item.logs batch), workOf s.buckets batch⟩

theorem StoreOk.batchOpen {s : Store} (h : StoreOk s) (batch : List Item) :
    StoreOk (batchOpen batch s) := by
  refine ⟨fun step key row hrow => h.rows step key row ?_,
    (sum_workOf (AddMonoidHom.id _) (fun _ => true) h.buckets batch).1⟩
  rwa [LayaWatch.batchOpen, loadRollupRow, insertBatch_metricRollup] at hrow

/-- A committed batch keeps the shapes. -/
theorem StoreOk.commit {s : Store} (h : StoreOk s) (batch : List Item) (closeAll : Bool)
    (now : ℚ) : StoreOk (batchEffect batch closeAll now s) :=
  StoreOk.closeAllDue (h.batchOpen batch)

/-- A committed batch adds its traces to the balance. -/
theorem Balanced.commit {ψ : Tally ℚ →+ M} {step : RollupStep} {Q : RollupKey → Bool} {s : Store}
    {traces : List Trace} (h : Balanced ψ step Q s traces) (hs : StoreOk s) (batch : List Item)
    (closeAll : Bool) (now : ℚ) :
    Balanced ψ step Q (batchEffect batch closeAll now s) (traces ++ Item.traces batch) := by
  refine Balanced.closeAllDue (s := batchOpen batch s) ?_ (hs.batchOpen batch)
  have hopen := (sum_workOf ψ (fun k => Q (k.parent step)) hs.buckets batch).2
  unfold Balanced batchOpen Db.rollupSum at *
  rw [insertBatch_metricRollup, hopen, ← add_assoc, h, samplesOf_append, Tally.of_append, map_add]

/-! ## Single rows and children -/

/-- The 10 s rows in the window of `key`. -/
def childOf (step : RollupStep) (key : RollupKey) (pk : RollupPk) : Bool :=
  atStep .ten (fun child => decide (child.parent step = key)) pk

/-- The sum over a single key is what is stored under it. -/
theorem rollupSum_single (φ : Digest →+ M) (db : Db)
    (step : RollupStep) (key : RollupKey) :
    db.rollupSum φ (fun pk => decide (pk = (step, key))) =
      (loadRollupRow db step key).elim 0 fun row => φ row.digest := by
  have h := Dict.total_single (fun row : Stats => φ row.digest) db.metricRollup (step, key)
  unfold Db.rollupSum
  simp only [decide_eq_true_eq]
  rw [h, loadRollupRow]
  rcases db.metricRollup.get (step, key) with _ | row <;> rfl

/-- The sum over the children of an aligned key. -/
theorem sum_childRows (φ : Digest →+ M) (db : Db) {step : RollupStep} {key : RollupKey}
    (halign : step.seconds ∣ key.bucket) : db.rollupSum φ (childOf step key) =
      ((childRows db step key).map fun row => φ row.digest).sum := by
  have hfilter := Dict.total_filter (fun e : RollupPk × Stats =>
    decide (e.1.1 = .ten ∧ key.Covers step e.1.2)) (fun e => φ e.2.digest) db.metricRollup
  rw [childRows, List.map_map]
  refine Eq.trans ?_ hfilter
  refine Dict.total_congr fun pk row _ => ?_
  have hcond : childOf step key pk = decide (pk.1 = .ten ∧ key.Covers step pk.2) := by
    unfold childOf atStep
    rw [Bool.decide_and, decide_eq_decide.mpr (RollupKey.covers_iff halign)]
  rw [hcond]

end LayaWatch
