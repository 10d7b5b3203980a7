import LayaWatch.Recorder
import LayaWatch.Retention
import LayaWatch.Settings

/-!
# What is made of a configuration

The components that `main` of `__main__.py` makes of a loaded configuration: the
recorder, the writer, the log, and the retention pass. The constructors check
ranges that `Config.load` does not: a configuration that loads is accepted by all
of them, and lies in the ranges of `POST /api/v1/settings`, exactly when the seven
variables without a check are in range too (`load_accepted_iff`).
-/

namespace LayaWatch

/-! ## Constructors -/

/-- What a constructor raises. -/
inductive Raised where
  /-- `ValueError` -/
  | valueError (message : List Piece)
  /-- `OverflowError` -/
  | overflowError

namespace Raised

/-- `ValueError` with a fixed message. -/
def value (message : String) : Raised := .valueError [.text (py message)]

end Raised

/-- The `maxlen` of a `deque`, which is a C size. -/
def dequeMaxlen (maxlen : ℤ) : Except Raised ℕ :=
  if 2 ^ 63 ≤ maxlen then .error .overflowError
  else if maxlen < 0 then .error (.value "maxlen must be non-negative")
  else .ok maxlen.toNat

/-- `Recorder.__init__`. -/
def Recorder.construct (ringSize : ℤ) (sampleRate : PyFloat) (enabled capture : Bool)
    (payloadMax : ℤ) : Except Raised Recorder :=
  if ringSize < 1 then .error (.value "ring_size must be >= 1")
  else
    let refused : Raised := .value "sample_rate must be within [0.0, 1.0]"
    match sampleRate with
    | .finite rate =>
      if 0 ≤ rate ∧ rate ≤ 1 then
        if payloadMax < 0 then .error (.value "payload_max must be >= 0")
        else (dequeMaxlen ringSize).map fun size =>
          { enabled := enabled, sampleRate := rate, capture := capture, ringSize := size }
      else .error refused
    | _ => .error refused

/-- `Writer.__init__`. -/
def WriterConfig.construct (queueMax : ℤ) (batchRows batchMs : ℤ) : Except Raised WriterConfig :=
  if hrows : batchRows < 1 then .error (.value "batch_rows must be >= 1")
  else if batchMs < 1 then .error (.value "batch_ms must be >= 1")
  else if hqueue : queueMax < 1 then .error (.value "queue_max must be >= 1")
  else .ok ⟨batchRows.toNat, queueMax.toNat, by omega, by omega⟩

/-- `_LEVELS`. -/
def levelValues : List (PyStr × ℕ) :=
  [(py "debug", 10), (py "info", 20), (py "warning", 30), (py "error", 40)]

/-- What `configure` of `log.py` sets. -/
structure LogConfig where
  /-- `_MIN` -/
  minimum : ℕ
  /-- the `maxlen` of `_ring` -/
  ringSize : ℕ

/-- `configure`. -/
def LogConfig.configure (level : PyStr) (ringSize : ℤ) : Except Raised LogConfig :=
  match levelValues.lookup level with
  | none => .error (.valueError [.text (py "unknown log level "), .repr level,
      .text (py "; expected one of ['debug', 'error', 'info', 'warning']")])
  | some minimum =>
    if ringSize < 100 then .error (.value "log ring_size must be at least 100")
    else (dequeMaxlen ringSize).map fun size => ⟨minimum, size⟩

/-! ## `main` -/

namespace Config

variable (cfg : Config)

/-- `Recorder(..)` of `main`. -/
def recorder : Except Raised Recorder :=
  Recorder.construct cfg.ringTraces cfg.traceSample cfg.record cfg.capturePayloads cfg.payloadMax

/-- `Writer(..)` of `main`, with the defaults of the other arguments. -/
def writer : Except Raised WriterConfig := WriterConfig.construct cfg.writeQueueMax 200 250

/-- `configure(..)` of `main`. -/
def log : Except Raised LogConfig :=
  LogConfig.configure cfg.logLevel cfg.logRingSize

/-- A pass of the retention timer that `main` starts. (A negative `OFFSET` is 0.) -/
def pass (now : ℚ) : Pass where
  maxTraces := cfg.retentionTraces.toNat
  maxLogs := cfg.logRingSize.toNat
  ageCutoff := now - cfg.retentionDays * 86400
  rollupCutoff := now - 90 * 86400
  payloadCutoff := now - 86400
  sessionCutoff := now - 30 * 86400

end Config

/-- A constructor does not raise `ValueError`. -/
def Accepts {α : Type} (made : Except Raised α) : Prop :=
  ∀ message, made ≠ .error (.valueError message)

namespace Config

/-- No pass treats every trace as expired: of traces of which one started in the last
day, some are spared. -/
def Spares (cfg : Config) : Prop :=
  ∀ (now : ℚ) (db : Db), (db.traces.map TraceRow.rowid).Nodup →
    (∃ row ∈ db.traces, now - 86400 ≤ row.tsStart) →
      ∃ row ∈ db.traces, doomed (cfg.pass now) db row = false

/-- The components accept the configuration, and `POST /api/v1/settings` would take
its values. -/
structure Accepted (T : PyText) (cfg : Config) : Prop where
  /-- the recorder -/
  recorder : Accepts cfg.recorder
  /-- the writer -/
  writer : Accepts cfg.writer
  /-- the log -/
  log : Accepts cfg.log
  /-- `trace_sample` -/
  traceSample : ∃ x, cfg.traceSample = .finite x ∧ TakesControl T "trace_sample" (.float x)
  /-- `retention_days` -/
  retentionDays : TakesControl T "retention_days" (.int cfg.retentionDays)
  /-- `retention_traces` -/
  retentionTraces : TakesControl T "retention_traces" (.int cfg.retentionTraces)
  /-- `stream_tick` -/
  streamTick : TakesControl T "stream_tick" (.int cfg.streamTick)
  /-- retention -/
  spares : cfg.Spares

end Config

/-! ## When the constructors accept -/

theorem dequeMaxlen_accepts {n : ℤ} (h : 0 ≤ n) : Accepts (dequeMaxlen n) := by
  intro message heq
  unfold dequeMaxlen at heq
  split at heq
  · cases heq
  · rw [if_neg h.not_gt] at heq
    cases heq

theorem Accepts.map {α β : Type} {made : Except Raised α} (h : Accepts made) (f : α → β) :
    Accepts (made.map f) := by
  intro message heq
  cases made with
  | error e => exact h message (by simpa only [Except.map, Except.error.injEq] using heq)
  | ok a => cases heq

/-- A constructor that raises `ValueError` does not accept. -/
theorem not_accepts {α : Type} (message : String) :
    ¬Accepts (.error (.value message) : Except Raised α) := fun h => h _ rfl

theorem Recorder.construct_accepts {ringSize payloadMax : ℤ} {sampleRate : PyFloat}
    {enabled capture : Bool} :
    Accepts (Recorder.construct ringSize sampleRate enabled capture payloadMax) ↔
      1 ≤ ringSize ∧ (∃ x, sampleRate = .finite x ∧ 0 ≤ x ∧ x ≤ 1) ∧ 0 ≤ payloadMax := by
  unfold Recorder.construct
  by_cases hring : ringSize < 1
  · rw [if_pos hring]
    exact iff_of_false (not_accepts _) fun h => hring.not_ge h.1
  rw [if_neg hring]
  have hring : 1 ≤ ringSize := not_lt.mp hring
  rcases sampleRate with rate | _ | _ | _
  case finite =>
    dsimp only
    by_cases hrate : 0 ≤ rate ∧ rate ≤ 1
    · rw [if_pos hrate]
      by_cases hpayload : payloadMax < 0
      · rw [if_pos hpayload]
        exact iff_of_false (not_accepts _) fun h => hpayload.not_ge h.2.2
      · rw [if_neg hpayload]
        exact iff_of_true ((dequeMaxlen_accepts (by omega)).map _)
          ⟨hring, ⟨rate, rfl, hrate⟩, not_lt.mp hpayload⟩
    · rw [if_neg hrate]
      refine iff_of_false (not_accepts _) ?_
      rintro ⟨-, ⟨x, hx, hin⟩, -⟩
      exact hrate (PyFloat.finite.inj hx ▸ hin)
  all_goals
    refine iff_of_false (not_accepts _) ?_
    rintro ⟨-, ⟨x, hx, -⟩, -⟩
    cases hx

theorem WriterConfig.construct_accepts {queueMax : ℤ} :
    Accepts (WriterConfig.construct queueMax 200 250) ↔ 1 ≤ queueMax := by
  unfold WriterConfig.construct
  rw [dif_neg (by decide), if_neg (by decide)]
  by_cases hqueue : queueMax < 1
  · rw [dif_pos hqueue]
    exact iff_of_false (not_accepts _) hqueue.not_ge
  · rw [dif_neg hqueue]
    exact iff_of_true (fun _ h => by cases h) (not_lt.mp hqueue)

theorem LogConfig.configure_accepts {level : PyStr} {ringSize : ℤ}
    (hlevel : level ∈ Config.levels) (hring : 100 ≤ ringSize) :
    Accepts (LogConfig.configure level ringSize) := by
  have hknown : ∃ minimum, levelValues.lookup level = some minimum := by
    have hall : ∀ level ∈ Config.levels, (levelValues.lookup level).isSome = true := by decide
    exact Option.isSome_iff_exists.mp (hall level hlevel)
  obtain ⟨minimum, hlookup⟩ := hknown
  unfold LogConfig.configure
  rw [hlookup]
  dsimp only
  rw [if_neg hring.not_gt]
  exact (dequeMaxlen_accepts (by omega)).map _

/-! ## What a pass spares -/

theorem newestFirst_total (a b : TraceRow) : newestFirst a b = true ∨ newestFirst b a = true := by
  simp only [newestFirst, decide_eq_true_eq]
  rcases lt_trichotomy a.tsStart b.tsStart with h | h | h
  · exact Or.inr (Or.inl h)
  · exact (le_total b.rowid a.rowid).imp (fun hle => Or.inr ⟨h, hle⟩) fun hle =>
      Or.inr ⟨h.symm, hle⟩
  · exact Or.inl (Or.inl h)

theorem newestFirst_trans {a b c : TraceRow} (hab : newestFirst a b = true)
    (hbc : newestFirst b c = true) : newestFirst a c = true := by
  simp only [newestFirst, decide_eq_true_eq] at *
  rcases hab with hab | ⟨hab, hid⟩ <;> rcases hbc with hbc | ⟨hbc, hid'⟩
  · exact Or.inl (hbc.trans hab)
  · exact Or.inl (hbc ▸ hab)
  · exact Or.inl (hab ▸ hbc)
  · exact Or.inr ⟨hab.trans hbc, hid'.trans hid⟩

/-- The newest row is never over the cap. -/
theorem exists_newest {traces : List TraceRow} (hnodup : (traces.map TraceRow.rowid).Nodup)
    {row : TraceRow} (hrow : row ∈ traces) :
    ∃ newest ∈ traces, row.tsStart ≤ newest.tsStart ∧
      ∀ cap, 0 < cap → newest.rowid ∉ overCap cap traces := by
  have : Std.Total fun a b => newestFirst a b = true := ⟨newestFirst_total⟩
  have : IsTrans TraceRow fun a b => newestFirst a b = true := ⟨fun _ _ _ => newestFirst_trans⟩
  have hperm := List.perm_insertionSort (fun a b => newestFirst a b = true) traces
  have hsorted := List.pairwise_insertionSort (fun a b => newestFirst a b = true) traces
  rcases hl : traces.insertionSort fun a b => newestFirst a b = true with _ | ⟨newest, rest⟩
  · rw [hl] at hperm
    rw [hperm.symm.eq_nil] at hrow
    cases hrow
  rw [hl] at hperm hsorted
  refine ⟨newest, hperm.subset (List.mem_cons_self ..), ?_, ?_⟩
  · rcases List.mem_cons.mp (hperm.symm.subset hrow) with rfl | hrest
    · exact le_rfl
    · have hfirst := List.rel_of_pairwise_cons hsorted hrest
      rcases of_decide_eq_true hfirst with hlt | ⟨heq, -⟩
      · exact hlt.le
      · exact heq.ge
  · intro cap hcap hmem
    unfold overCap at hmem
    rw [hl, ← Nat.succ_pred_eq_of_pos hcap, Nat.succ_eq_add_one, List.drop_succ_cons] at hmem
    have hunique : ((newest :: rest).map TraceRow.rowid).Nodup :=
      (hperm.map TraceRow.rowid).nodup_iff.mpr hnodup
    rw [List.map_cons, List.nodup_cons] at hunique
    exact hunique.1 (((List.drop_sublist _ rest).map TraceRow.rowid).subset hmem)

theorem Config.spares {cfg : Config} (hdays : 1 ≤ cfg.retentionDays)
    (htraces : 1 ≤ cfg.retentionTraces) : cfg.Spares := by
  rintro now db hnodup ⟨row, hrow, hrecent⟩
  obtain ⟨newest, hnewest, hnewer, hcap⟩ := exists_newest hnodup hrow
  refine ⟨newest, hnewest, ?_⟩
  have hdays : (1 : ℚ) ≤ cfg.retentionDays := by exact_mod_cast hdays
  have hyoung : ¬newest.tsStart < (cfg.pass now).ageCutoff := by
    change ¬newest.tsStart < now - cfg.retentionDays * 86400
    linarith
  have hkept := hcap (cfg.pass now).maxTraces (by change 0 < cfg.retentionTraces.toNat; omega)
  unfold doomed
  rw [decide_eq_false hyoung, decide_eq_false hkept]
  rfl

/-- With no days of retention, a pass dooms every trace that has started. -/
theorem Config.doomed_of_retentionDays {cfg : Config} (hdays : cfg.retentionDays ≤ 0) {now : ℚ}
    {row : TraceRow} (hstarted : row.tsStart < now) (db : Db) :
    doomed (cfg.pass now) db row = true := by
  have hdays : (cfg.retentionDays : ℚ) ≤ 0 := by exact_mod_cast hdays
  have hold : row.tsStart < (cfg.pass now).ageCutoff := by
    change row.tsStart < now - cfg.retentionDays * 86400
    linarith
  unfold doomed
  rw [decide_eq_true hold]
  rfl

/-! ## What the environment has to hold -/

section

variable {T : EnvText} {env : Environ}

/-- The integer that a variable holds, if it holds one. -/
def heldInt (T : EnvText) (env : Environ) (name : String) : Option ℤ :=
  (env (py name)).bind fun raw => T.int raw.strip

/-- The number that a variable holds, if it holds one. -/
def heldFloat (T : EnvText) (env : Environ) (name : String) : Option PyFloat :=
  (env (py name)).bind fun raw => T.number raw.strip

/-- If the variable holds an integer, it is not below a bound. -/
def AtLeast (T : EnvText) (env : Environ) (name : String) (bound : ℤ) : Prop :=
  ∀ n ∈ heldInt T env name, bound ≤ n

/-- If the variable holds a number, it is between 0 and 1. -/
def InUnit (T : EnvText) (env : Environ) (name : String) : Prop :=
  ∀ x ∈ heldFloat T env name, ∃ q, x = .finite q ∧ 0 ≤ q ∧ q ≤ 1

/-- The variables that `Config.load` does not check are in the ranges of those that use
them. -/
structure InRange (T : EnvText) (env : Environ) : Prop where
  /-- `LAYWATCH_RING_TRACES` -/
  ringTraces : AtLeast T env "LAYWATCH_RING_TRACES" 1
  /-- `LAYWATCH_TRACE_SAMPLE` -/
  traceSample : InUnit T env "LAYWATCH_TRACE_SAMPLE"
  /-- `LAYWATCH_PAYLOAD_MAX` -/
  payloadMax : AtLeast T env "LAYWATCH_PAYLOAD_MAX" 0
  /-- `LAYWATCH_WRITE_QUEUE_MAX` -/
  writeQueueMax : AtLeast T env "LAYWATCH_WRITE_QUEUE_MAX" 1
  /-- `LAYWATCH_RETENTION_TRACES` -/
  retentionTraces : AtLeast T env "LAYWATCH_RETENTION_TRACES" 1
  /-- `LAYWATCH_RETENTION_DAYS` -/
  retentionDays : AtLeast T env "LAYWATCH_RETENTION_DAYS" 1
  /-- `LAYWATCH_STREAM_TICK` -/
  streamTick : AtLeast T env "LAYWATCH_STREAM_TICK" 1

theorem value_parseInt (name attr : String) (default : ℤ) :
    (Config.parseInt T env name attr default).value = (heldInt T env name).getD default := by
  unfold Config.parseInt heldInt
  rcases env (py name) with _ | raw
  · rfl
  · dsimp only [Option.bind_some]
    rcases T.int raw.strip <;> rfl

theorem value_parseFloat (name attr : String) (default : PyFloat) :
    (Config.parseFloat T env name attr default).value = (heldFloat T env name).getD default := by
  unfold Config.parseFloat heldFloat
  rcases env (py name) with _ | raw
  · rfl
  · dsimp only [Option.bind_some]
    rcases T.number raw.strip <;> rfl

/-- What holds of the default holds of the value if it holds of what is held. -/
theorem getD_iff {α : Type} {P : α → Prop} {default : α} (hdefault : P default) (held : Option α) :
    P (held.getD default) ↔ ∀ a ∈ held, P a := by
  cases held with
  | none => exact iff_of_true hdefault fun _ h => by cases h
  | some a =>
    refine ⟨?_, fun h => h a rfl⟩
    rintro ha a' ha'
    exact Option.some.inj ha' ▸ ha

theorem le_parseInt {name attr : String} {default bound : ℤ} (hdefault : bound ≤ default) :
    bound ≤ (Config.parseInt T env name attr default).value ↔ AtLeast T env name bound := by
  rw [value_parseInt]
  exact getD_iff (P := fun n => bound ≤ n) hdefault _

theorem parseFloat_inUnit {name attr : String} :
    (∃ q, (Config.parseFloat T env name attr (.finite 1)).value = .finite q ∧ 0 ≤ q ∧ q ≤ 1) ↔
      InUnit T env name := by
  rw [value_parseFloat]
  exact getD_iff (P := fun x => ∃ q, x = PyFloat.finite q ∧ 0 ≤ q ∧ q ≤ 1)
    ⟨1, rfl, by norm_num, le_rfl⟩ _

/-- What `Config.load` checks of the log. -/
theorem Config.load_log {cfg : Config} (h : Config.load T env = .ok cfg) :
    cfg = (Config.read T env).value ∧ cfg.logLevel ∈ Config.levels ∧ 100 ≤ cfg.logRingSize := by
  unfold Config.load at h
  rcases hread : (Config.read T env).toExcept with errors | read
  · rw [hread] at h
    cases h
  rw [hread] at h
  obtain rfl : read = cfg := Except.ok.inj h
  obtain ⟨herrors, rfl⟩ := Checked.toExcept_eq_ok.mp hread
  refine ⟨rfl, ?_⟩
  unfold Config.read at herrors ⊢
  simp only [Checked.errors_bind, Checked.errors_note, Checked.value_bind, Checked.value_pure]
    at herrors ⊢
  obtain ⟨-, -, -, -, -, -, -, hlevel, -, hring, -⟩ := herrors
  refine ⟨?_, not_lt.mp (of_decide_eq_false hring)⟩
  simpa only [Bool.not_eq_false', List.contains_iff_mem] using hlevel

/-- A configuration that loads is accepted exactly when the variables without a check
are in range. -/
theorem load_accepted_iff {cfg : Config} (h : Config.load T env = .ok cfg) :
    cfg.Accepted T.toPyText ↔ InRange T env := by
  obtain ⟨hvalue, hlevel, hlog⟩ := Config.load_log h
  -- a value is in its range exactly if its variable is
  have hring : 1 ≤ cfg.ringTraces ↔ AtLeast T env "LAYWATCH_RING_TRACES" 1 :=
    hvalue ▸ le_parseInt (by decide)
  have hsample : (∃ q, cfg.traceSample = .finite q ∧ 0 ≤ q ∧ q ≤ 1) ↔
      InUnit T env "LAYWATCH_TRACE_SAMPLE" := hvalue ▸ parseFloat_inUnit
  have hpayload : 0 ≤ cfg.payloadMax ↔ AtLeast T env "LAYWATCH_PAYLOAD_MAX" 0 :=
    hvalue ▸ le_parseInt (by decide)
  have hqueue : 1 ≤ cfg.writeQueueMax ↔ AtLeast T env "LAYWATCH_WRITE_QUEUE_MAX" 1 :=
    hvalue ▸ le_parseInt (by decide)
  have htraces : 1 ≤ cfg.retentionTraces ↔ AtLeast T env "LAYWATCH_RETENTION_TRACES" 1 :=
    hvalue ▸ le_parseInt (by decide)
  have hdays : 1 ≤ cfg.retentionDays ↔ AtLeast T env "LAYWATCH_RETENTION_DAYS" 1 :=
    hvalue ▸ le_parseInt (by decide)
  have htick : 1 ≤ cfg.streamTick ↔ AtLeast T env "LAYWATCH_STREAM_TICK" 1 :=
    hvalue ▸ le_parseInt (by decide)
  constructor
  · intro haccepted
    obtain ⟨hsize, hrate, hbytes⟩ := Recorder.construct_accepts.mp haccepted.recorder
    exact {
      ringTraces := hring.mp hsize
      traceSample := hsample.mp hrate
      payloadMax := hpayload.mp hbytes
      writeQueueMax := hqueue.mp (WriterConfig.construct_accepts.mp haccepted.writer)
      retentionTraces := htraces.mp ((takesControl_int rfl _).mp haccepted.retentionTraces)
      retentionDays := hdays.mp ((takesControl_int rfl _).mp haccepted.retentionDays)
      streamTick := htick.mp ((takesControl_int rfl _).mp haccepted.streamTick) }
  · intro hin
    have hrate := hsample.mpr hin.traceSample
    have hdays := hdays.mpr hin.retentionDays
    have htraces := htraces.mpr hin.retentionTraces
    exact {
      recorder := Recorder.construct_accepts.mpr
        ⟨hring.mpr hin.ringTraces, hrate, hpayload.mpr hin.payloadMax⟩
      writer := WriterConfig.construct_accepts.mpr (hqueue.mpr hin.writeQueueMax)
      log := LogConfig.configure_accepts hlevel hlog
      traceSample := hrate.imp fun q hq => ⟨hq.1, (takesControl_sample q).mpr hq.2⟩
      retentionDays := (takesControl_int rfl _).mpr hdays
      retentionTraces := (takesControl_int rfl _).mpr htraces
      streamTick := (takesControl_int rfl _).mpr (htick.mpr hin.streamTick)
      spares := Config.spares hdays htraces }

end

/-- Python on whole numbers and ASCII, with floats. -/
def wholeEnv : EnvText where
  toPyText := wholeText
  number := fun s => (JsonText.readInt s).map fun n => .finite n
  float_eq := by
    intro s
    rw [Option.map_map]
    rfl

/-- The defaults are accepted. -/
theorem defaults_accepted : Config.defaults.Accepted wholeEnv.toPyText := by
  have hload : Config.load wholeEnv (fun _ => none) = .ok Config.defaults := by decide +kernel
  refine (load_accepted_iff hload).mpr ?_
  constructor <;> exact fun _ h => by cases h

/-- No days of retention. -/
def noRetention : Environ := fun name =>
  if name = py "LAYWATCH_RETENTION_DAYS" then some (py "0") else none

/-- A trace of the last hour. -/
def recentRow : TraceRow where
  id := py "00000001"
  tsStart := 3600
  durationMs := 5
  route := py "/predict"
  method := py "POST"
  status := 200
  rowid := 1

/-- It loads, and the next pass deletes the trace. -/
theorem not_load_accepted : ¬∀ (T : EnvText) (env : Environ) (cfg : Config),
    Config.load T env = .ok cfg → cfg.Accepted T.toPyText := by
  intro h
  have hload : Config.load wholeEnv noRetention =
      .ok { Config.defaults with retentionDays := 0 } := by decide +kernel
  obtain ⟨row, hrow, hspared⟩ := (h _ _ _ hload).spares 7200 { traces := [recentRow] }
    (List.nodup_singleton _) ⟨recentRow, List.mem_singleton_self _, by decide +kernel⟩
  obtain rfl := List.mem_singleton.mp hrow
  rw [Config.doomed_of_retentionDays le_rfl (by decide +kernel)] at hspared
  cases hspared

end LayaWatch
