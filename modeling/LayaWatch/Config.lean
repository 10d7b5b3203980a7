import LayaWatch.Query
import LayaWatch.Lib.Checked

/-!
# Configuration

`Config.load` of `config.py`: the environment as a typed configuration. Every
variable is parsed, some are checked against a range, and all violations are
collected into one message. The environment is any mapping from names to texts.
-/

namespace LayaWatch

/-- A Python `float`. -/
inductive PyFloat where
  /-- a number -/
  | finite (x : ℚ)
  /-- `inf` -/
  | inf
  /-- `-inf` -/
  | negInf
  /-- `nan` -/
  | nan
  deriving DecidableEq

namespace PyFloat

/-- `x <= y`. -/
def le : PyFloat → PyFloat → Bool
  | nan, _ => false
  | _, nan => false
  | negInf, _ => true
  | _, inf => true
  | finite x, finite y => decide (x ≤ y)
  | _, _ => false

/-- `x > 0`. -/
def isPositive : PyFloat → Bool
  | finite x => decide (0 < x)
  | inf => true
  | _ => false

/-- The number, if it is one. -/
def toRat? : PyFloat → Option ℚ
  | finite x => some x
  | _ => none

end PyFloat

/-- Text and numbers in Python, for what is not finite too. -/
structure EnvText extends PyText where
  /-- `float(s)`, unless it raises `ValueError` -/
  number : PyStr → Option PyFloat
  /-- the same float -/
  float_eq : ∀ s, float s = (number s).map PyFloat.toRat?

/-- An environment, as `env.get` sees it. -/
abbrev Environ : Type := PyStr → Option PyStr

/-- A `pathlib.PosixPath`. -/
structure Path where
  /-- `root`: nothing, or one or two slashes -/
  root : PyStr
  /-- the names below it -/
  names : List PyStr
  deriving DecidableEq

namespace Path

/-- `Path(text)`: a name that is empty or a dot is dropped. -/
def of (text : PyStr) : Path where
  root :=
    match (text.takeWhile (· = CodePoint.ofChar '/')).length with
    | 0 => []
    | 2 => py "//"
    | _ => py "/"
  names := (text.splitOn (CodePoint.ofChar '/')).filter fun name =>
    !name.isEmpty && decide (name ≠ py ".")

/-- `parent / text`. -/
def child (parent : Path) (text : PyStr) : Path :=
  let path := of text
  if path.root.isEmpty then { parent with names := parent.names ++ path.names } else path

end Path

/-- `Config`, with its defaults. -/
structure Config where
  /-- `bind` -/
  bind : PyStr := py "127.0.0.1"
  /-- `port` -/
  port : ℤ := 8050
  /-- `socket_timeout` -/
  socketTimeout : PyFloat := .finite 30
  /-- `max_body_bytes` -/
  maxBodyBytes : ℤ := 4194304
  /-- `db_path` -/
  dbPath : Path := .of (py "state.sqlite3")
  /-- `web_root` -/
  webRoot : Path := .of (py "web/out")
  /-- `log_level` -/
  logLevel : PyStr := py "info"
  /-- `log_ring_size` -/
  logRingSize : ℤ := 2000
  /-- `state_dir` -/
  stateDir : Path := .of (py ".")
  /-- `models` -/
  models : List PyStr := [py "english", py "multilingual"]
  /-- `device` -/
  device : PyStr := py "auto"
  /-- `english_only` -/
  englishOnly : Bool := false
  /-- `session_secret` -/
  sessionSecret : Option PyStr := none
  /-- `session_ttl` -/
  sessionTtl : ℤ := 2592000
  /-- `trace_sample` -/
  traceSample : PyFloat := .finite 1
  /-- `capture_payloads` -/
  capturePayloads : Bool := false
  /-- `payload_max` -/
  payloadMax : ℤ := 2048
  /-- `retention_traces` -/
  retentionTraces : ℤ := 10000
  /-- `retention_days` -/
  retentionDays : ℤ := 7
  /-- `ring_traces` -/
  ringTraces : ℤ := 1000
  /-- `write_queue_max` -/
  writeQueueMax : ℤ := 5000
  /-- `stream_tick` -/
  streamTick : ℤ := 3
  /-- `bootstrap_owner` -/
  bootstrapOwner : Option PyStr := none
  /-- `record` -/
  record : Bool := true
  /-- `api` -/
  api : Bool := true
  /-- `trust_proxy` -/
  trustProxy : Bool := false
  /-- `ratelimit_enabled` -/
  ratelimitEnabled : Bool := true
  /-- `ratelimit_engine_per_min` -/
  ratelimitEnginePerMin : ℤ := 0
  /-- `ratelimit_ip_per_min` -/
  ratelimitIpPerMin : ℤ := 600
  /-- `ratelimit_login` -/
  ratelimitLogin : ℤ := 5
  /-- `ratelimit_login_window` -/
  ratelimitLoginWindow : ℤ := 900
  /-- `ratelimit_mutation_per_min` -/
  ratelimitMutationPerMin : ℤ := 60
  /-- `ratelimit_playground_per_min` -/
  ratelimitPlaygroundPerMin : ℤ := 30
  /-- `ratelimit_sse_per_session` -/
  ratelimitSsePerSession : ℤ := 5
  /-- `ratelimit_loopback` -/
  ratelimitLoopback : Bool := false
  /-- `engine_max_inflight` -/
  engineMaxInflight : ℤ := 4
  /-- `engine_queue_max` -/
  engineQueueMax : ℤ := 16
  deriving DecidableEq

namespace Config

/-- `defaults`. -/
def defaults : Config := {}

/-- `_BOOL_VALUES`. -/
def boolValues : List (PyStr × Bool) :=
  [(py "0", false), (py "false", false), (py "no", false), (py "off", false), (py "1", true),
    (py "true", true), (py "yes", true), (py "on", true)]

/-- `_LOG_LEVELS`; the log listing has the same. -/
def levels : List PyStr := logLevels

/-! ## Parsers -/

section

variable (T : EnvText) (env : Environ)

/-- `parse_int`. -/
def parseInt (name attr : String) (default : ℤ) : Checked PyStr ℤ :=
  match env (py name) with
  | none => pure default
  | some raw =>
    .orElse (T.int raw.strip) default (py (attr ++ " must be an integer (" ++ name ++ ")"))

/-- `parse_float`. -/
def parseFloat (name attr : String) (default : PyFloat) : Checked PyStr PyFloat :=
  match env (py name) with
  | none => pure default
  | some raw =>
    .orElse (T.number raw.strip) default (py (attr ++ " must be a number (" ++ name ++ ")"))

/-- `parse_bool`. -/
def parseBool (name attr : String) (default : Bool) : Checked PyStr Bool :=
  match env (py name) with
  | none => pure default
  | some raw =>
    .orElse (boolValues.lookup (T.lower raw.strip)) default
      (py (attr ++ " must be one of 0|1|true|false|yes|no|on|off (" ++ name ++ ")"))

/-- `parse_str`. -/
def parseStr (name : String) (default : PyStr) : PyStr :=
  match env (py name) with
  | none => default
  | some raw => raw.strip

/-- `parse_opt`. -/
def parseOpt (name : String) (default : Option PyStr) : Option PyStr :=
  match env (py name) with
  | none => default
  | some raw => if raw.strip.isEmpty then none else some raw.strip

/-- `parse_path`. -/
def parsePath (name : String) (default : Path) : Path :=
  match env (py name) with
  | none => default
  | some raw => .of raw.strip

/-- `parse_models`. -/
def parseModels (name : String) (default : List PyStr) : List PyStr :=
  match env (py name) with
  | none => default
  | some raw =>
    ((raw.splitOn (CodePoint.ofChar ',')).map PyStr.strip).filter fun model => !model.isEmpty

/-! ## `load` -/

/-- The body of `load`, up to `if errors`. -/
def read : Checked PyStr Config := do
  let bind := parseStr env "LAYWATCH_BIND" defaults.bind
  .note bind.isEmpty (py "bind must be non-empty (LAYWATCH_BIND)")
  let port ← parseInt T env "LAYA_PORT" "port" defaults.port
  .note (!decide (1 ≤ port ∧ port ≤ 65535)) (py "port must be between 1 and 65535 (LAYA_PORT)")
  let socketTimeout ←
    parseFloat T env "LAYWATCH_SOCKET_TIMEOUT" "socket_timeout" defaults.socketTimeout
  .note (!socketTimeout.isPositive)
    (py "socket_timeout must be greater than 0 (LAYWATCH_SOCKET_TIMEOUT)")
  let maxBodyBytes ← parseInt T env "LAYWATCH_MAX_BODY" "max_body_bytes" defaults.maxBodyBytes
  .note (!decide (1 ≤ maxBodyBytes ∧ maxBodyBytes ≤ 16777216))
    (py "max_body_bytes must be between 1 and 16777216 (LAYWATCH_MAX_BODY)")
  let logLevel := parseStr env "LAYWATCH_LOG_LEVEL" defaults.logLevel
  .note (!levels.contains logLevel)
    (py "log_level must be one of debug|info|warning|error (LAYWATCH_LOG_LEVEL)")
  let logRingSize ← parseInt T env "LAYWATCH_RING_LOGS" "log_ring_size" defaults.logRingSize
  .note (decide (logRingSize < 100)) (py "log_ring_size must be at least 100 (LAYWATCH_RING_LOGS)")
  let stateDir := parsePath env "LAYA_STATE_DIR" defaults.stateDir
  let models := parseModels env "LAYA_MODELS" defaults.models
  let device := parseStr env "LAYA_DEVICE" defaults.device
  let englishOnly ← parseBool T env "LAYA_ENGLISH_ONLY" "english_only" defaults.englishOnly
  let sessionSecret := parseOpt env "LAYWATCH_SESSION_SECRET" defaults.sessionSecret
  let sessionTtl ← parseInt T env "LAYWATCH_SESSION_TTL" "session_ttl" defaults.sessionTtl
  let traceSample ←
    parseFloat T env "LAYWATCH_TRACE_SAMPLE" "trace_sample" defaults.traceSample
  let capturePayloads ←
    parseBool T env "LAYWATCH_CAPTURE_PAYLOADS" "capture_payloads" defaults.capturePayloads
  let payloadMax ← parseInt T env "LAYWATCH_PAYLOAD_MAX" "payload_max" defaults.payloadMax
  let retentionTraces ←
    parseInt T env "LAYWATCH_RETENTION_TRACES" "retention_traces" defaults.retentionTraces
  let retentionDays ←
    parseInt T env "LAYWATCH_RETENTION_DAYS" "retention_days" defaults.retentionDays
  let ringTraces ← parseInt T env "LAYWATCH_RING_TRACES" "ring_traces" defaults.ringTraces
  let writeQueueMax ←
    parseInt T env "LAYWATCH_WRITE_QUEUE_MAX" "write_queue_max" defaults.writeQueueMax
  let streamTick ← parseInt T env "LAYWATCH_STREAM_TICK" "stream_tick" defaults.streamTick
  let bootstrapOwner := parseOpt env "LAYWATCH_BOOTSTRAP_OWNER" defaults.bootstrapOwner
  let record ← parseBool T env "LAYWATCH_RECORD" "record" defaults.record
  let api ← parseBool T env "LAYWATCH_API" "api" defaults.api
  let trustProxy ← parseBool T env "LAYWATCH_TRUST_PROXY" "trust_proxy" defaults.trustProxy
  let ratelimitEnabled ←
    parseBool T env "LAYWATCH_RATELIMIT_ENABLED" "ratelimit_enabled" defaults.ratelimitEnabled
  let ratelimitEnginePerMin ← parseInt T env "LAYWATCH_RATELIMIT_ENGINE_PER_MIN"
    "ratelimit_engine_per_min" defaults.ratelimitEnginePerMin
  let ratelimitIpPerMin ← parseInt T env "LAYWATCH_RATELIMIT_IP_PER_MIN"
    "ratelimit_ip_per_min" defaults.ratelimitIpPerMin
  let ratelimitLogin ←
    parseInt T env "LAYWATCH_RATELIMIT_LOGIN" "ratelimit_login" defaults.ratelimitLogin
  let ratelimitLoginWindow ← parseInt T env "LAYWATCH_RATELIMIT_LOGIN_WINDOW"
    "ratelimit_login_window" defaults.ratelimitLoginWindow
  let ratelimitMutationPerMin ← parseInt T env "LAYWATCH_RATELIMIT_MUTATION_PER_MIN"
    "ratelimit_mutation_per_min" defaults.ratelimitMutationPerMin
  let ratelimitPlaygroundPerMin ← parseInt T env "LAYWATCH_RATELIMIT_PLAYGROUND_PER_MIN"
    "ratelimit_playground_per_min" defaults.ratelimitPlaygroundPerMin
  let ratelimitSsePerSession ← parseInt T env "LAYWATCH_RATELIMIT_SSE_PER_SESSION"
    "ratelimit_sse_per_session" defaults.ratelimitSsePerSession
  let ratelimitLoopback ←
    parseBool T env "LAYWATCH_RATELIMIT_LOOPBACK" "ratelimit_loopback" defaults.ratelimitLoopback
  let engineMaxInflight ←
    parseInt T env "LAYWATCH_ENGINE_MAX_INFLIGHT" "engine_max_inflight" defaults.engineMaxInflight
  let engineQueueMax ←
    parseInt T env "LAYWATCH_ENGINE_QUEUE_MAX" "engine_queue_max" defaults.engineQueueMax
  pure {
    bind, port, socketTimeout, maxBodyBytes, logLevel, logRingSize, stateDir, models, device,
    englishOnly, sessionSecret, sessionTtl, traceSample, capturePayloads, payloadMax,
    retentionTraces, retentionDays, ringTraces, writeQueueMax, streamTick, bootstrapOwner, record,
    api, trustProxy, ratelimitEnabled, ratelimitEnginePerMin, ratelimitIpPerMin, ratelimitLogin,
    ratelimitLoginWindow, ratelimitMutationPerMin, ratelimitPlaygroundPerMin,
    ratelimitSsePerSession, ratelimitLoopback, engineMaxInflight, engineQueueMax
    dbPath := .child stateDir (py "state.sqlite3")
    webRoot := defaults.webRoot }

/-- `Config.load`, with the message of `ConfigError`. -/
def load : Except PyStr Config :=
  (read T env).toExcept.mapError fun errors => List.intercalate (py "; ") errors

end

end Config

end LayaWatch
