import LayaWatch.Python
import LayaWatch.Lib.Machine

/-!
# The checkpoints of the engine and their prefetch queue

The part of `engine/adapter.py` that decides which checkpoints are resident:
`_ensure`, the calls `load` and `unload` of an administrator, and the background
thread `_startup_worker`, which loads what `_ensure` has staged and warms what is
resident. A block under one of the adapter's locks is one step; what the worker
does between its locks (reading the head of the queue, asking whether a name is
loaded, `popleft`) are steps of their own, since the other threads run between
them. Laya's `Router` stands behind `Laya`, and loads and drops names as the stub
of the tests does.
-/

namespace LayaWatch

/-! ## The router -/

/-- What the adapter uses of laya. -/
structure Laya where
  /-- the names in `Router.models` -/
  catalog : List PyStr
  /-- `router.normalise_name`; none for a `ValueError` -/
  normalise : PyStr → Option PyStr
  /-- a normalised name is in the catalog -/
  known : ∀ {name key : PyStr}, normalise name = some key → key ∈ catalog
  /-- and is what it normalises to -/
  fixed : ∀ {key : PyStr}, key ∈ catalog → normalise key = some key

namespace Laya

variable (laya : Laya)

/-- The loop of `Router.preload` on the resident names: what is resident then, and
whether all were loaded. `fails` are the names whose load raises. -/
def preload (models : List PyStr) (fails : PyStr → Bool) :
    List PyStr → List PyStr → List PyStr × Bool
  | [], loaded => (loaded, true)
  | name :: names, loaded =>
    match laya.normalise name with
    | none => (loaded, false)
    | some key =>
      if key ∉ models ∨ fails key = true then (loaded, false)
      else preload models fails names (if key ∈ loaded then loaded else loaded ++ [key])

/-- The loop of `Router.unload` over some names: what is resident then, and whether
all names were known. -/
def dropAll : List PyStr → List PyStr → List PyStr × Bool
  | [], loaded => (loaded, true)
  | name :: names, loaded =>
    match laya.normalise name with
    | none => (loaded, false)
    | some key => dropAll names (loaded.erase key)

/-- The names dropped by that loop. -/
def dropped : List PyStr → List PyStr
  | [] => []
  | name :: names =>
    match laya.normalise name with
    | none => []
    | some key => key :: dropped names

/-- Some names, normalised. -/
def keys (names : List PyStr) : List PyStr := names.filterMap laya.normalise

/-- All names are known. -/
def allKnown (names : List PyStr) : Bool := names.all fun name => (laya.normalise name).isSome

end Laya

/-- The arguments of the adapter that matter here. -/
structure PrefetchConfig where
  /-- laya -/
  laya : Laya
  /-- `LAYA_MODELS` -/
  models : List PyStr
  /-- `LAYA_ENGLISH_ONLY` -/
  englishOnly : Bool := false

namespace PrefetchConfig

variable (cfg : PrefetchConfig)

/-- `names` of `_ensure`; none when a name is unknown. -/
def names : Option (List PyStr) :=
  let requested := if cfg.englishOnly then [py "english"] else cfg.models
  if requested = [py "all"] then some cfg.laya.catalog
  else if cfg.laya.allKnown requested then some (cfg.laya.keys requested)
  else none

/-- `router.models` once `_ensure` is done. -/
def served : List PyStr :=
  if cfg.englishOnly then cfg.laya.catalog.erase (py "multilingual") else cfg.laya.catalog

end PrefetchConfig

/-! ## The adapter -/

/-- Where the background thread is. -/
inductive PrefetchWorker where
  /-- there is none -/
  | idle
  /-- before `_ensure` -/
  | started
  /-- `_warm_resident`, before `list(router.loaded)` -/
  | snapshot
  /-- `_warm_resident`, with the names still to come -/
  | warming (todo : List PyStr)
  /-- before `if not self._prefetch_queue` -/
  | checking
  /-- before `self._prefetch_queue[0]` -/
  | peeking
  /-- before `name in router.loaded` -/
  | staged (name : PyStr)
  /-- before the `popleft` of a resident name -/
  | resident (name : PyStr)
  /-- before `_prefetch_gates` -/
  | gating (name : PyStr)
  /-- before the lifecycle lock is asked for -/
  | gated (name : PyStr)
  /-- before the `popleft` of a name it has loaded -/
  | fetched (name : PyStr)
  deriving DecidableEq

namespace PrefetchWorker

/-- The name it has read from the head of the queue and not yet popped. -/
def current : PrefetchWorker → Option PyStr
  | staged name | resident name | gating name | gated name | fetched name => some name
  | _ => none

/-- It is past `_ensure`. -/
def pastEnsure : PrefetchWorker → Bool
  | idle | started => false
  | _ => true

/-- The names it is going to warm. -/
def toWarm (warmed : List PyStr) : PrefetchWorker → List PyStr
  | warming todo => todo.filter fun name => decide (name ∉ warmed)
  | _ => []

end PrefetchWorker

/-- The fields of `RealAdapter` that matter here. -/
structure Adapter where
  /-- `_router`: none before it is built, else `router.loaded` -/
  router : Option (List PyStr) := none
  /-- `_prefetch_queue` -/
  queue : List PyStr := []
  /-- `_configured` -/
  configured : List PyStr := []
  /-- `_warmed` -/
  warmed : List PyStr := []
  /-- the background thread; it holds `_worker_lock` unless it is idle -/
  worker : PrefetchWorker := .idle

/-- What a step of the worker finds outside the adapter. -/
structure PrefetchEnv where
  /-- the names whose load raises -/
  fails : PyStr → Bool := fun _ => false
  /-- a warmup forward raises -/
  forwardRaises : Bool := false
  /-- the load average and the memory let a prefetch through -/
  gates : Bool := true
  /-- an administrator's call holds the lifecycle lock -/
  busy : Bool := false

/-- Whose step it is. -/
inductive PrefetchAct where
  /-- a thread with `_startup_worker` starts and takes `_worker_lock` -/
  | kick
  /-- the next step of the worker -/
  | work (env : PrefetchEnv)
  /-- `unload` of an administrator -/
  | unload (names : List PyStr) (fails : PyStr → Bool)
  /-- `load` of an administrator; `memory` is its check of `MemAvailable` -/
  | load (names : List PyStr) (memory : Bool) (fails : PyStr → Bool)

/-- The step is one of the background thread. -/
def PrefetchAct.isWork : PrefetchAct → Bool
  | work _ => true
  | _ => false

namespace Adapter

/-- `router.loaded`. -/
def loaded (s : Adapter) : List PyStr := s.router.getD []

/-- `_ensure`; none when it raises, which leaves everything as it was. -/
def ensure (cfg : PrefetchConfig) (fails : PyStr → Bool) (s : Adapter) : Option Adapter :=
  match s.router with
  | some _ => some s
  | none => cfg.names.bind fun names =>
    match names with
    | [] => some { s with router := some [], configured := [] }
    | first :: rest =>
      match cfg.laya.preload cfg.laya.catalog fails [first] [] with
      | (loaded, true) =>
        some { s with router := some loaded, configured := names, queue := s.queue ++ rest }
      | (_, false) => none

/-- `unload`; an unknown name raises, after those before it were dropped. -/
def unload (cfg : PrefetchConfig) (names : List PyStr) (fails : PyStr → Bool) (s : Adapter) :
    Adapter :=
  match s.ensure cfg fails with
  | none => s
  | some s =>
    match cfg.laya.dropAll names s.loaded with
    | (loaded, false) => { s with router := some loaded }
    | (loaded, true) =>
      { s with
        router := some loaded
        -- `remove` takes the first occurrence, once for each name of the call
        queue := (cfg.laya.keys names).foldl List.erase s.queue }

/-- `load`; it does not look at the queue. -/
def load (cfg : PrefetchConfig) (names : List PyStr) (memory : Bool) (fails : PyStr → Bool)
    (s : Adapter) : Adapter :=
  match s.ensure cfg fails with
  | none => s
  | some s =>
    if cfg.laya.allKnown names = true ∧ (∀ key ∈ cfg.laya.keys names, key ∈ cfg.served) ∧
        (memory = true ∨ ∀ key ∈ cfg.laya.keys names, key ∈ s.loaded) then
      { s with
        router := some (cfg.laya.preload cfg.served fails (cfg.laya.keys names) s.loaded).1 }
    else s

/-- `self._prefetch_queue.popleft()`, then the next round; an `IndexError` ends the
run. -/
def popleft (s : Adapter) : Adapter :=
  match s.queue with
  | [] => { s with worker := .idle }
  | _ :: rest => { s with queue := rest, worker := .snapshot }

/-- The next step of `_startup_worker`. -/
def work (cfg : PrefetchConfig) (env : PrefetchEnv) (s : Adapter) : Option Adapter :=
  match s.worker with
  | .idle => none
  | .started =>
    match s.ensure cfg env.fails with
    | none => some { s with worker := .idle }
    | some s => some { s with worker := .snapshot }
  | .snapshot => some { s with worker := .warming s.loaded }
  | .warming [] => some { s with worker := .checking }
  | .warming (name :: todo) =>
    if name ∈ s.warmed then some { s with worker := .warming todo }
    else if name ∉ s.loaded ∧ (name ∉ cfg.served ∨ env.fails name = true) then
      some { s with worker := .idle }
    else
      -- `router.load` loads a name that is not resident, else it moves it to the end
      let s := { s with router := some (s.loaded.erase name ++ [name]) }
      if env.forwardRaises then some { s with worker := .idle }
      else some { s with warmed := name :: s.warmed, worker := .warming todo }
  | .checking => some { s with worker := if s.queue.isEmpty then .idle else .peeking }
  | .peeking =>
    match s.queue with
    | [] => some { s with worker := .idle }
    | name :: _ => some { s with worker := .staged name }
  | .staged name =>
    some { s with worker := if name ∈ s.loaded then .resident name else .gating name }
  | .resident _ => some s.popleft
  | .gating name =>
    some { s with
      worker := if name ∈ s.configured ∧ env.gates = true then .gated name else .idle }
  | .gated name =>
    if env.busy then some { s with worker := .idle }
    else
      match cfg.laya.preload cfg.served env.fails [name] s.loaded with
      | (loaded, ok) => some { s with
          router := some loaded
          worker := if ok then .fetched name else .idle }
  | .fetched _ => some s.popleft

/-- One step. -/
def step (cfg : PrefetchConfig) (s : Adapter) : PrefetchAct → Option Adapter
  | .kick => if s.worker = .idle then some { s with worker := .started } else none
  | .work env => s.work cfg env
  | .unload names fails => some (s.unload cfg names fails)
  | .load names memory fails => some (s.load cfg names memory fails)

/-- The adapter as a machine. -/
def machine (cfg : PrefetchConfig) : Machine Adapter PrefetchAct := ⟨fun s => s = {}, step cfg⟩

end Adapter

/-! ## What the calls promise -/

variable {cfg : PrefetchConfig} {s t : Adapter}

/-- The step is an `unload` that succeeds, and `key` is one of its names. -/
def Unloads (cfg : PrefetchConfig) (s : Adapter) (key : PyStr) : PrefetchAct → Prop
  | .unload names fails => (s.ensure cfg fails).isSome = true ∧
      cfg.laya.allKnown names = true ∧ key ∈ cfg.laya.keys names
  | _ => False

/-- What a step owes to the names, after the steps `before`. -/
structure PrefetchKept (cfg : PrefetchConfig) (before : List (Machine.Event Adapter PrefetchAct))
    (e : Machine.Event Adapter PrefetchAct) : Prop where
  /-- the worker loads no name that was unloaded -/
  unloaded : ∀ key, e.act.isWork = true → key ∉ e.pre.loaded → key ∈ e.post.loaded →
    ¬∃ e₀ ∈ before, Unloads cfg e₀.pre key e₀.act
  /-- a staged name leaves the queue unloaded itself, or it is the one that the worker
  has read, and it has been loaded -/
  queued : ∀ key, e.post.queue.count key < e.pre.queue.count key →
    Unloads cfg e.pre key e.act ∨
    e.act.isWork = true ∧ e.pre.worker.current = some key ∧
      ∃ e₀ ∈ before, key ∈ e₀.pre.loaded ∨ key ∈ e₀.post.loaded

/-- An `unload` keeps clear of the worker: it drops no name that the worker is about to
warm; and if it succeeds, none of its names is the one that the worker has read and not
yet popped, and each is named as often as it is staged. -/
def KeepsClear (cfg : PrefetchConfig) (s : Adapter) : PrefetchAct → Prop
  | .unload names fails => (∀ key ∈ cfg.laya.dropped names, key ∉ s.worker.toWarm s.warmed) ∧
      (cfg.laya.allKnown names = true → ∀ key ∈ cfg.laya.keys names,
        s.worker.current ≠ some key ∧
        ((s.ensure cfg fails).getD s).queue.count key ≤ (cfg.laya.keys names).count key)
  | _ => True

instance (cfg : PrefetchConfig) (s : Adapter) (a : PrefetchAct) :
    Decidable (KeepsClear cfg s a) :=
  match a with
  | .unload _ _ => inferInstanceAs (Decidable (_ ∧ _))
  | .kick | .work _ | .load _ _ _ => .isTrue trivial

/-! ## What the operations do -/

theorem Laya.mem_catalog_of_mem_keys {laya : Laya} {names : List PyStr} {key : PyStr}
    (h : key ∈ laya.keys names) : key ∈ laya.catalog := by
  obtain ⟨name, -, hname⟩ := List.mem_filterMap.mp h
  exact laya.known hname

theorem PrefetchConfig.mem_catalog_of_mem_names {names : List PyStr} (h : cfg.names = some names)
    {key : PyStr} (hkey : key ∈ names) : key ∈ cfg.laya.catalog := by
  unfold PrefetchConfig.names at h
  generalize (if cfg.englishOnly = true then [py "english"] else cfg.models) = requested at h
  dsimp only at h
  split at h
  · obtain rfl := Option.some.inj h
    exact hkey
  · split at h
    · obtain rfl := Option.some.inj h
      exact Laya.mem_catalog_of_mem_keys hkey
    · cases h

/-- A load drops nothing. -/
theorem Laya.preload_grows {laya : Laya} {models : List PyStr} {fails : PyStr → Bool}
    {names : List PyStr} : ∀ {loaded : List PyStr} {key : PyStr}, key ∈ loaded →
      key ∈ (laya.preload models fails names loaded).1 := by
  induction names with
  | nil => exact fun h => h
  | cons name names ih =>
    intro loaded key h
    unfold Laya.preload
    split
    · exact h
    · split
      · exact h
      · refine ih ?_
        split
        · exact h
        · exact List.mem_append_left _ h

/-- The load of one name of the catalog brings in that name, or nothing. -/
theorem Laya.preload_single {laya : Laya} (models : List PyStr) (fails : PyStr → Bool)
    {name : PyStr} (hname : name ∈ laya.catalog) (loaded : List PyStr) :
    (∀ key ∈ (laya.preload models fails [name] loaded).1, key ∈ loaded ∨ key = name) ∧
      ((laya.preload models fails [name] loaded).2 = true →
        name ∈ (laya.preload models fails [name] loaded).1) := by
  unfold Laya.preload
  rw [laya.fixed hname]
  dsimp only
  split
  · exact ⟨fun key h => Or.inl h, fun h => absurd h Bool.false_ne_true⟩
  · unfold Laya.preload
    by_cases hmem : name ∈ loaded
    · rw [if_pos hmem]
      exact ⟨fun key h => Or.inl h, fun _ => hmem⟩
    · rw [if_neg hmem]
      refine ⟨fun key h => ?_, fun _ => List.mem_append_right _ (List.mem_singleton_self name)⟩
      exact (List.mem_append.mp h).imp_right List.mem_singleton.mp

/-- Dropping names leaves the others. -/
theorem Laya.dropAll_keeps {laya : Laya} {names : List PyStr} : ∀ {loaded : List PyStr}
    {key : PyStr}, key ∉ laya.dropped names → key ∈ loaded →
      key ∈ (laya.dropAll names loaded).1 := by
  induction names with
  | nil => exact fun _ h => h
  | cons name names ih =>
    intro loaded key hkey h
    unfold Laya.dropped at hkey
    unfold Laya.dropAll
    rcases hname : laya.normalise name with _ | k
    · exact h
    · rw [hname] at hkey
      obtain ⟨hne, hkey⟩ := not_or.mp (mt List.mem_cons.mpr hkey)
      exact ih hkey ((List.mem_erase_of_ne hne).mpr h)

/-- The loop reaches its end if all names are known. -/
theorem Laya.dropAll_ok (laya : Laya) (names : List PyStr) : ∀ loaded : List PyStr,
    (laya.dropAll names loaded).2 = laya.allKnown names := by
  induction names with
  | nil => exact fun _ => rfl
  | cons name names ih =>
    intro loaded
    unfold Laya.dropAll
    rw [Laya.allKnown, List.all_cons]
    rcases laya.normalise name with _ | k
    · rfl
    · exact ih _

/-- What `remove`, once for each name, leaves of a name. -/
theorem count_foldl_erase (keys : List PyStr) (key : PyStr) : ∀ queue : List PyStr,
    (keys.foldl List.erase queue).count key = queue.count key - keys.count key := by
  induction keys with
  | nil => exact fun queue => rfl
  | cons k keys ih =>
    intro queue
    rw [List.foldl_cons, ih, List.count_erase, List.count_cons]
    by_cases hk : k = key
    · subst hk
      simp only [beq_self_eq_true, if_true]
      omega
    · have hbeq : (k == key) = false := beq_eq_false_iff_ne.mpr hk
      simp only [hbeq, Bool.false_eq_true, if_false]
      omega

namespace Adapter

/-- `_ensure` builds the router once, and stages names of the catalog then. -/
theorem ensure_cases {fails : PyStr → Bool} (h : s.ensure cfg fails = some t) :
    (t = s ∧ s.router ≠ none) ∨ (s.router = none ∧ ∃ loaded configured staged,
      (∀ key ∈ staged, key ∈ cfg.laya.catalog) ∧
      t = { s with router := some loaded, configured := configured, queue := s.queue ++ staged })
      := by
  unfold ensure at h
  rcases hrouter : s.router with _ | loaded
  · rw [hrouter] at h
    obtain ⟨names, hnames, h⟩ := Option.bind_eq_some_iff.mp h
    refine Or.inr ⟨rfl, ?_⟩
    rcases names with _ | ⟨first, rest⟩
    · obtain rfl := Option.some.inj h
      exact ⟨[], [], [], fun key hkey => absurd hkey List.not_mem_nil, by rw [List.append_nil]⟩
    · dsimp only at h
      split at h
      · obtain rfl := Option.some.inj h
        refine ⟨_, _, rest, fun key hkey => ?_, rfl⟩
        exact PrefetchConfig.mem_catalog_of_mem_names hnames (List.mem_cons_of_mem first hkey)
      · cases h
  · rw [hrouter] at h
    exact Or.inl ⟨(Option.some.inj h).symm, Option.some_ne_none loaded⟩

end Adapter

/-! ## The invariant -/

/-- What is true of the adapter after the steps `before`. -/
structure PrefetchInv (cfg : PrefetchConfig) (before : List (Machine.Event Adapter PrefetchAct))
    (s : Adapter) : Prop where
  /-- before the router is built, nothing is staged, read or cancelled -/
  unbuilt : s.router = none → s.queue = [] ∧ (s.worker = .idle ∨ s.worker = .started) ∧
    ∀ e₀ ∈ before, ∀ key, ¬Unloads cfg e₀.pre key e₀.act
  /-- what is staged is in the catalog -/
  catalog : ∀ key ∈ s.queue, key ∈ cfg.laya.catalog
  /-- what was unloaded is not staged -/
  cancelled : ∀ e₀ ∈ before, ∀ key, Unloads cfg e₀.pre key e₀.act → key ∉ s.queue
  /-- the name that the worker has read is still at the head -/
  head : ∀ key, s.worker.current = some key → ∃ rest, s.queue = key :: rest
  /-- the name that the worker is going to pop was loaded -/
  loaded : ∀ key, s.worker = .resident key ∨ s.worker = .fetched key →
    ∃ e₀ ∈ before, key ∈ e₀.pre.loaded ∨ key ∈ e₀.post.loaded
  /-- what the worker is going to warm is resident -/
  warming : ∀ key ∈ s.worker.toWarm s.warmed, key ∈ s.loaded

namespace PrefetchInv

variable {before : List (Machine.Event Adapter PrefetchAct)} {a : PrefetchAct}

theorem init : PrefetchInv cfg [] {} where
  unbuilt _ := ⟨rfl, Or.inl rfl, fun _ he => absurd he List.not_mem_nil⟩
  catalog _ hkey := absurd hkey List.not_mem_nil
  cancelled _ he := absurd he List.not_mem_nil
  head _ hkey := by cases hkey
  loaded _ hkey := by rcases hkey with hkey | hkey <;> cases hkey
  warming _ hkey := absurd hkey List.not_mem_nil

/-- A step that unloads nothing, and takes from the queue at most its head. -/
theorem next (h : PrefetchInv cfg before s) (hact : ∀ key, ¬Unloads cfg s key a)
    (hrouter : t.router = none → s.router = none ∧ (t.worker = .idle ∨ t.worker = .started))
    (hqueue : t.queue <:+ s.queue)
    (hhead : ∀ key, t.worker.current = some key → ∃ rest, t.queue = key :: rest)
    (hloaded : ∀ key, t.worker = .resident key ∨ t.worker = .fetched key →
      (s.worker = .resident key ∨ s.worker = .fetched key) ∨ key ∈ s.loaded ∨ key ∈ t.loaded)
    (hwarming : ∀ key ∈ t.worker.toWarm t.warmed, key ∈ t.loaded) :
    PrefetchInv cfg (before ++ [⟨s, a, t⟩]) t where
  unbuilt hnone := by
    obtain ⟨hs, hw⟩ := hrouter hnone
    obtain ⟨hempty, -, hcancelled⟩ := h.unbuilt hs
    refine ⟨List.suffix_nil.mp (hempty ▸ hqueue), hw, fun e₀ he₀ key hkey => ?_⟩
    rcases List.mem_append.mp he₀ with he₀ | he₀
    · exact hcancelled e₀ he₀ key hkey
    · obtain rfl := List.mem_singleton.mp he₀
      exact hact key hkey
  catalog key hkey := h.catalog key (hqueue.subset hkey)
  cancelled e₀ he₀ key hkey := by
    rcases List.mem_append.mp he₀ with he₀ | he₀
    · exact fun hmem => h.cancelled e₀ he₀ key hkey (hqueue.subset hmem)
    · obtain rfl := List.mem_singleton.mp he₀
      exact absurd hkey (hact key)
  head := hhead
  loaded key hkey := by
    rcases hloaded key hkey with hold | hnow
    · obtain ⟨e₀, he₀, hseen⟩ := h.loaded key hold
      exact ⟨e₀, List.mem_append_left _ he₀, hseen⟩
    · exact ⟨_, List.mem_append_right _ (List.mem_singleton_self _), hnow⟩
  warming := hwarming

/-- A step that builds the router. -/
theorem build (h : PrefetchInv cfg before s) (hs : s.router = none) (ht : t.router ≠ none)
    (hworker : t.worker.current = none) (hwarm : t.worker.toWarm t.warmed = [])
    (hcatalog : ∀ key ∈ t.queue, key ∈ cfg.laya.catalog)
    (hcancel : ∀ key, Unloads cfg s key a → key ∉ t.queue) :
    PrefetchInv cfg (before ++ [⟨s, a, t⟩]) t where
  unbuilt hnone := absurd hnone ht
  catalog := hcatalog
  cancelled e₀ he₀ key hkey := by
    rcases List.mem_append.mp he₀ with he₀ | he₀
    · exact absurd hkey ((h.unbuilt hs).2.2 e₀ he₀ key)
    · obtain rfl := List.mem_singleton.mp he₀
      exact hcancel key hkey
  head key hkey := by
    rw [hworker] at hkey
    cases hkey
  loaded key hkey := by
    rcases hkey with hkey | hkey <;>
    · rw [hkey] at hworker
      cases hworker
  warming key hkey := by
    rw [hwarm] at hkey
    cases hkey

/-- Past `_ensure`, the router is built. -/
theorem built (h : PrefetchInv cfg before s) (hw : s.worker.pastEnsure = true) :
    s.router ≠ none := by
  intro hnone
  rcases (h.unbuilt hnone).2.1 with hidle | hidle <;> rw [hidle] at hw <;> cases hw

/-! ## The worker -/

/-- A step that takes nothing from the queue. -/
theorem kept_of_queue {e : Machine.Event Adapter PrefetchAct} (hqueue : e.post.queue = e.pre.queue)
    (hloaded : ∀ key, e.act.isWork = true → key ∉ e.pre.loaded → key ∈ e.post.loaded →
      ¬∃ e₀ ∈ before, Unloads cfg e₀.pre key e₀.act) : PrefetchKept cfg before e where
  unloaded := hloaded
  queued key hlt := by
    rw [hqueue] at hlt
    exact absurd hlt (lt_irrefl _)

/-- A step of the worker that leaves the queue and the router alone. -/
theorem move (h : PrefetchInv cfg before s) {env : PrefetchEnv} {w : PrefetchWorker}
    (hbuilt : s.router ≠ none) (hhead : ∀ key, w.current = some key → ∃ rest, s.queue = key :: rest)
    (hloaded : ∀ key, w = .resident key ∨ w = .fetched key → key ∈ s.loaded)
    (hwarming : ∀ key ∈ w.toWarm s.warmed, key ∈ s.loaded) :
    PrefetchInv cfg (before ++ [⟨s, .work env, { s with worker := w }⟩]) { s with worker := w } ∧
      PrefetchKept cfg before ⟨s, .work env, { s with worker := w }⟩ :=
  ⟨h.next (fun _ hu => hu) (fun hnone => absurd hnone hbuilt) (List.suffix_refl _) hhead
      (fun key hkey => Or.inr (Or.inl (hloaded key hkey))) hwarming,
    kept_of_queue rfl fun _ _ hnew hmem => absurd hmem hnew⟩

/-- The same for a place where the worker holds no name. -/
theorem moveFree (h : PrefetchInv cfg before s) {env : PrefetchEnv} (w : PrefetchWorker)
    (hbuilt : s.router ≠ none) (hcurrent : w.current = none) (hwarm : w.toWarm s.warmed = []) :
    PrefetchInv cfg (before ++ [⟨s, .work env, { s with worker := w }⟩]) { s with worker := w } ∧
      PrefetchKept cfg before ⟨s, .work env, { s with worker := w }⟩ := by
  refine h.move hbuilt (fun key hkey => ?_) (fun key hkey => ?_) fun key hkey => ?_
  · rw [hcurrent] at hkey
    cases hkey
  · rcases hkey with rfl | rfl <;> cases hcurrent
  · rw [hwarm] at hkey
    cases hkey

/-- A `popleft` takes the name that the worker has read. -/
theorem pop (h : PrefetchInv cfg before s) {env : PrefetchEnv} {name : PyStr}
    (hworker : s.worker = .resident name ∨ s.worker = .fetched name) :
    PrefetchInv cfg (before ++ [⟨s, .work env, s.popleft⟩]) s.popleft ∧
      PrefetchKept cfg before ⟨s, .work env, s.popleft⟩ := by
  have hcurrent : s.worker.current = some name := by
    rcases hworker with hw | hw <;> rw [hw] <;> rfl
  have hbuilt : s.router ≠ none := h.built (by rcases hworker with hw | hw <;> rw [hw] <;> rfl)
  obtain ⟨rest, hqueue⟩ := h.head name hcurrent
  have hpop : s.popleft = { s with queue := rest, worker := .snapshot } := by
    unfold Adapter.popleft
    rw [hqueue]
  rw [hpop]
  refine ⟨h.next (fun _ hu => hu) (fun hnone => absurd hnone hbuilt)
    ⟨[name], by rw [hqueue]; rfl⟩ (fun _ hkey => by cases hkey)
    (fun _ hkey => by rcases hkey with hw | hw <;> cases hw)
    fun _ hkey => absurd hkey List.not_mem_nil, fun _ _ hnew hmem => absurd hmem hnew,
    fun key hlt => ?_⟩
  have hkey : key = name := by
    by_contra hne
    dsimp only at hlt
    rw [hqueue, List.count_cons_of_ne (Ne.symm hne)] at hlt
    exact lt_irrefl _ hlt
  subst hkey
  exact Or.inr ⟨rfl, hcurrent, h.loaded key hworker⟩

/-- The step that loads the name at the head of the queue. -/
theorem fetch (h : PrefetchInv cfg before s) {env : PrefetchEnv} {name : PyStr}
    (hw : s.worker = .gated name) {loaded : List PyStr} {ok : Bool}
    (hload : cfg.laya.preload cfg.served env.fails [name] s.loaded = (loaded, ok)) :
    let t := { s with router := some loaded, worker := if ok then .fetched name else .idle }
    PrefetchInv cfg (before ++ [⟨s, .work env, t⟩]) t ∧
      PrefetchKept cfg before ⟨s, .work env, t⟩ := by
  intro t
  obtain ⟨rest, hqueue⟩ := h.head name (by rw [hw]; rfl)
  have hstaged : name ∈ s.queue := by
    rw [hqueue]
    exact List.mem_cons_self ..
  obtain ⟨hnew, hdone⟩ := Laya.preload_single cfg.served env.fails
    (h.catalog name hstaged) s.loaded
  rw [hload] at hnew hdone
  refine ⟨h.next (fun _ hu => hu) (fun hnone => by cases hnone) (List.suffix_refl _)
    (fun key hkey => ?_) (fun key hkey => Or.inr (Or.inr ?_)) fun key hkey => ?_,
    kept_of_queue rfl fun key _ hold hmem => ?_⟩
  · cases ok with
    | true => exact ⟨rest, Option.some.inj hkey ▸ hqueue⟩
    | false => cases hkey
  · cases ok with
    | true =>
      obtain hkey | hkey := hkey
      · cases hkey
      · obtain rfl := PrefetchWorker.fetched.inj hkey
        exact hdone rfl
    | false => rcases hkey with hkey | hkey <;> cases hkey
  · cases ok <;> exact absurd hkey List.not_mem_nil
  · -- what it brings in is staged, so it is not cancelled
    obtain rfl := (hnew key hmem).resolve_left hold
    rintro ⟨e₀, he₀, hcancel⟩
    exact h.cancelled e₀ he₀ key hcancel hstaged

/-- The step that warms a name, which is resident. -/
theorem warm (h : PrefetchInv cfg before s) {env : PrefetchEnv} {name : PyStr} {todo : List PyStr}
    (hw : s.worker = .warming (name :: todo)) (hcold : name ∉ s.warmed) :
    s.work cfg env = some t → PrefetchInv cfg (before ++ [⟨s, .work env, t⟩]) t ∧
      PrefetchKept cfg before ⟨s, .work env, t⟩ := by
  intro hs
  have hresident : ∀ key ∈ name :: todo, key ∉ s.warmed → key ∈ s.loaded := by
    intro key hkey hkw
    refine h.warming key ?_
    rw [hw]
    exact List.mem_filter.mpr ⟨hkey, decide_eq_true hkw⟩
  have hname : name ∈ s.loaded := hresident name (List.mem_cons_self ..) hcold
  have hsame : ∀ key, key ∈ s.loaded.erase name ++ [name] ↔ key ∈ s.loaded := by
    intro key
    rw [List.mem_append, List.mem_singleton]
    by_cases hkey : key = name
    · exact iff_of_true (Or.inr hkey) (hkey ▸ hname)
    · rw [List.mem_erase_of_ne hkey]
      exact or_iff_left hkey
  simp only [Adapter.work, hw, if_neg hcold, hname, not_true_eq_false, false_and, if_false] at hs
  split at hs
  · obtain rfl := Option.some.inj hs
    exact ⟨h.next (fun _ hu => hu) (fun hnone => by cases hnone) (List.suffix_refl _)
      (fun _ hkey => by cases hkey) (fun _ hkey => by rcases hkey with hk | hk <;> cases hk)
      fun _ hkey => absurd hkey List.not_mem_nil,
      kept_of_queue rfl fun key _ hold hmem => absurd ((hsame key).mp hmem) hold⟩
  · obtain rfl := Option.some.inj hs
    refine ⟨h.next (fun _ hu => hu) (fun hnone => by cases hnone) (List.suffix_refl _)
      (fun _ hkey => by cases hkey) (fun _ hkey => by rcases hkey with hk | hk <;> cases hk)
      fun key hkey => (hsame key).mpr ?_,
      kept_of_queue rfl fun key _ hold hmem => absurd ((hsame key).mp hmem) hold⟩
    obtain ⟨hmem, hkw⟩ := List.mem_filter.mp hkey
    refine hresident key (List.mem_cons_of_mem name hmem) fun hwarm => ?_
    exact of_decide_eq_true hkw (List.mem_cons_of_mem name hwarm)

/-- The step in which the worker builds the router, or finds it built. -/
theorem start (h : PrefetchInv cfg before s) {env : PrefetchEnv} (hw : s.worker = .started)
    (hs : s.work cfg env = some t) : PrefetchInv cfg (before ++ [⟨s, .work env, t⟩]) t ∧
      PrefetchKept cfg before ⟨s, .work env, t⟩ := by
  unfold Adapter.work at hs
  rw [hw] at hs
  rcases hensure : s.ensure cfg env.fails with _ | s₁ <;> simp only [hensure] at hs
  · obtain rfl := Option.some.inj hs
    exact ⟨h.next (fun _ hu => hu) (fun hnone => ⟨hnone, Or.inl rfl⟩) (List.suffix_refl _)
      (fun _ hkey => by cases hkey) (fun _ hkey => by rcases hkey with hk | hk <;> cases hk)
      fun _ hkey => absurd hkey List.not_mem_nil,
      kept_of_queue rfl fun _ _ hnew hmem => absurd hmem hnew⟩
  · obtain rfl := Option.some.inj hs
    rcases Adapter.ensure_cases hensure with ⟨rfl, hbuilt⟩ | ⟨hnone, loaded, _, staged, hcat, rfl⟩
    · exact h.moveFree .snapshot hbuilt rfl rfl
    · obtain ⟨hempty, -, hcancelled⟩ := h.unbuilt hnone
      refine ⟨h.build hnone (Option.some_ne_none loaded) rfl rfl (fun key hkey => ?_)
        fun _ hu => absurd hu id, fun key _ _ _ => ?_, fun key hlt => ?_⟩
      · rw [hempty, List.nil_append] at hkey
        exact hcat key hkey
      · rintro ⟨e₀, he₀, hcancel⟩
        exact hcancelled e₀ he₀ key hcancel
      · simp only [hempty, List.count_nil] at hlt
        exact absurd hlt (Nat.not_lt_zero _)

/-- A step of the worker, from each of its places. -/
theorem work (h : PrefetchInv cfg before s) {env : PrefetchEnv} (hs : s.work cfg env = some t) :
    PrefetchInv cfg (before ++ [⟨s, .work env, t⟩]) t ∧
      PrefetchKept cfg before ⟨s, .work env, t⟩ := by
  have hstep := hs
  have hbuilt : s.worker.pastEnsure = true → s.router ≠ none := h.built
  unfold Adapter.work at hs
  cases hw : s.worker with
  | idle =>
    rw [hw] at hs
    cases hs
  | started => exact h.start hw hstep
  | snapshot =>
    rw [hw] at hs hbuilt
    obtain rfl := Option.some.inj hs
    exact h.move (hbuilt rfl) (fun _ hkey => by cases hkey)
      (fun _ hkey => by rcases hkey with hk | hk <;> cases hk)
      fun key hkey => (List.mem_filter.mp hkey).1
  | warming todo =>
    rw [hw] at hs hbuilt
    rcases todo with _ | ⟨name, todo⟩
    · obtain rfl := Option.some.inj hs
      exact h.moveFree .checking (hbuilt rfl) rfl rfl
    · by_cases hwarmed : name ∈ s.warmed
      · simp only [if_pos hwarmed] at hs
        obtain rfl := Option.some.inj hs
        refine h.move (hbuilt rfl) (fun _ hkey => by cases hkey)
          (fun _ hkey => by rcases hkey with hk | hk <;> cases hk) fun key hkey => ?_
        obtain ⟨hmem, hcold⟩ := List.mem_filter.mp hkey
        refine h.warming key ?_
        rw [hw]
        exact List.mem_filter.mpr ⟨List.mem_cons_of_mem name hmem, hcold⟩
      · exact h.warm hw hwarmed hstep
  | checking =>
    rw [hw] at hs hbuilt
    obtain rfl := Option.some.inj hs
    cases s.queue.isEmpty with
    | true => exact h.moveFree .idle (hbuilt rfl) rfl rfl
    | false => exact h.moveFree .peeking (hbuilt rfl) rfl rfl
  | peeking =>
    rw [hw] at hs hbuilt
    rcases hqueue : s.queue with _ | ⟨name, rest⟩
    · simp only [hqueue] at hs
      obtain rfl := Option.some.inj hs
      exact hqueue ▸ h.moveFree .idle (hbuilt rfl) rfl rfl
    · simp only [hqueue] at hs
      obtain rfl := Option.some.inj hs
      refine hqueue ▸ h.move (hbuilt rfl) (fun key hkey => ?_)
        (fun _ hkey => by rcases hkey with hk | hk <;> cases hk)
        fun _ hkey => absurd hkey List.not_mem_nil
      obtain rfl := Option.some.inj hkey
      exact ⟨rest, hqueue⟩
  | staged name =>
    rw [hw] at hs hbuilt
    obtain rfl := Option.some.inj hs
    have hhead := h.head name (by rw [hw]; rfl)
    by_cases hname : name ∈ s.loaded
    · rw [if_pos hname]
      refine h.move (hbuilt rfl) (fun key hkey => Option.some.inj hkey ▸ hhead) (fun key hkey => ?_)
        fun _ hkey => absurd hkey List.not_mem_nil
      rcases hkey with hkey | hkey
      · obtain rfl := PrefetchWorker.resident.inj hkey
        exact hname
      · cases hkey
    · rw [if_neg hname]
      exact h.move (hbuilt rfl) (fun key hkey => Option.some.inj hkey ▸ hhead)
        (fun _ hkey => by rcases hkey with hk | hk <;> cases hk)
        fun _ hkey => absurd hkey List.not_mem_nil
  | resident name =>
    rw [hw] at hs
    obtain rfl := Option.some.inj hs
    exact h.pop (Or.inl hw)
  | gating name =>
    rw [hw] at hs hbuilt
    obtain rfl := Option.some.inj hs
    have hhead := h.head name (by rw [hw]; rfl)
    by_cases hgates : name ∈ s.configured ∧ env.gates = true
    · rw [if_pos hgates]
      exact h.move (hbuilt rfl) (fun key hkey => Option.some.inj hkey ▸ hhead)
        (fun _ hkey => by rcases hkey with hk | hk <;> cases hk)
        fun _ hkey => absurd hkey List.not_mem_nil
    · rw [if_neg hgates]
      exact h.moveFree .idle (hbuilt rfl) rfl rfl
  | gated name =>
    rw [hw] at hs hbuilt
    dsimp only at hs
    split at hs
    · obtain rfl := Option.some.inj hs
      exact h.moveFree .idle (hbuilt rfl) rfl rfl
    · obtain rfl := Option.some.inj hs
      exact h.fetch hw rfl
  | fetched name =>
    rw [hw] at hs
    obtain rfl := Option.some.inj hs
    exact h.pop (Or.inr hw)

/-! ## The administrator's calls -/

/-- A call that finds or builds the router, changes what is resident to `r` and what is
staged to `q`. -/
theorem call (h : PrefetchInv cfg before s) {fails : PyStr → Bool} {s₁ : Adapter}
    {r q : List PyStr} (hensure : s.ensure cfg fails = some s₁) (hq : ∀ key ∈ q, key ∈ s₁.queue)
    (hhead : ∀ key rest, s.worker.current = some key → s₁.queue = key :: rest →
      ∃ rest', q = key :: rest')
    (hwarm : ∀ key ∈ s.worker.toWarm s.warmed, key ∈ s₁.loaded → key ∈ r)
    (hcancel : ∀ key, Unloads cfg s key a → key ∉ q) :
    PrefetchInv cfg (before ++ [⟨s, a, { s₁ with router := some r, queue := q }⟩])
      { s₁ with router := some r, queue := q } := by
  rcases Adapter.ensure_cases hensure with ⟨rfl, hbuilt⟩ | ⟨hnone, _, _, staged, hcat, rfl⟩
  · refine ⟨fun hnone => (Option.some_ne_none r hnone).elim,
      fun key hkey => h.catalog key (hq key hkey), fun e₀ he₀ key hkey => ?_, fun key hkey => ?_,
      fun key hkey => ?_, fun key hkey => hwarm key hkey (h.warming key hkey)⟩
    · rcases List.mem_append.mp he₀ with he₀ | he₀
      · exact fun hmem => h.cancelled e₀ he₀ key hkey (hq key hmem)
      · obtain rfl := List.mem_singleton.mp he₀
        exact hcancel key hkey
    · obtain ⟨rest, hqueue⟩ := h.head key hkey
      exact hhead key rest hkey hqueue
    · obtain ⟨e₀, he₀, hseen⟩ := h.loaded key hkey
      exact ⟨e₀, List.mem_append_left _ he₀, hseen⟩
  · obtain ⟨hempty, hw, -⟩ := h.unbuilt hnone
    refine h.build hnone (Option.some_ne_none r) ?_ ?_ (fun key hkey => ?_) hcancel
    · rcases hw with hw | hw <;> rw [hw] <;> rfl
    · rcases hw with hw | hw <;> rw [hw] <;> rfl
    · have hmem := hq key hkey
      rw [hempty] at hmem
      exact hcat key hmem

/-- A call that raises at once. -/
theorem stay (h : PrefetchInv cfg before s) (hact : ∀ key, ¬Unloads cfg s key a) :
    PrefetchInv cfg (before ++ [⟨s, a, s⟩]) s :=
  h.next hact (fun hnone => ⟨hnone, (h.unbuilt hnone).2.1⟩) (List.suffix_refl _) h.head
    (fun _ hkey => Or.inl hkey) h.warming

end PrefetchInv

namespace Adapter

/-- What `load` does. -/
theorem load_cases (cfg : PrefetchConfig) (s : Adapter) (names : List PyStr) (memory : Bool)
    (fails : PyStr → Bool) :
    s.load cfg names memory fails = s ∨ ∃ s₁ r, s.ensure cfg fails = some s₁ ∧
      s.load cfg names memory fails = { s₁ with router := some r, queue := s₁.queue } ∧
      ∀ key ∈ s₁.loaded, key ∈ r := by
  unfold load
  rcases hensure : s.ensure cfg fails with _ | s₁
  · exact Or.inl rfl
  · refine Or.inr ⟨s₁, ?_⟩
    dsimp only
    split
    · exact ⟨_, rfl, rfl, fun key hkey => Laya.preload_grows hkey⟩
    · obtain ⟨r, hr⟩ : ∃ r, s₁.router = some r := by
        rcases ensure_cases hensure with ⟨rfl, hbuilt⟩ | ⟨-, r, _, _, -, rfl⟩
        · exact Option.ne_none_iff_exists'.mp hbuilt
        · exact ⟨r, rfl⟩
      refine ⟨r, rfl, ?_, fun key hkey => ?_⟩
      · rw [← hr]
      · rw [loaded, hr] at hkey
        exact hkey

/-- What `unload` does. -/
theorem unload_cases (cfg : PrefetchConfig) (s : Adapter) (names : List PyStr)
    (fails : PyStr → Bool) :
    (s.unload cfg names fails = s ∧ s.ensure cfg fails = none) ∨
    ∃ s₁, s.ensure cfg fails = some s₁ ∧ s.unload cfg names fails = { s₁ with
      router := some (cfg.laya.dropAll names s₁.loaded).1
      queue := if cfg.laya.allKnown names then (cfg.laya.keys names).foldl List.erase s₁.queue
        else s₁.queue } := by
  unfold unload
  rcases hensure : s.ensure cfg fails with _ | s₁
  · exact Or.inl ⟨rfl, rfl⟩
  · refine Or.inr ⟨s₁, rfl, ?_⟩
    have hok := Laya.dropAll_ok cfg.laya names s₁.loaded
    rcases hdrop : cfg.laya.dropAll names s₁.loaded with ⟨loaded, ok⟩
    rw [hdrop] at hok
    simp only [hdrop, ← hok]
    cases ok <;> rfl

/-- `_ensure` takes nothing from the queue. -/
theorem ensure_queue {fails : PyStr → Bool} (h : s.ensure cfg fails = some t) :
    s.queue <+: t.queue := by
  rcases ensure_cases h with ⟨rfl, -⟩ | ⟨-, _, _, staged, -, rfl⟩
  · exact List.prefix_refl _
  · exact List.prefix_append _ _

end Adapter

/-- `remove` of other names leaves the head. -/
theorem foldl_erase_cons {key : PyStr} : ∀ {keys rest : List PyStr}, key ∉ keys →
    keys.foldl List.erase (key :: rest) = key :: keys.foldl List.erase rest := by
  intro keys
  induction keys with
  | nil => exact fun _ => rfl
  | cons k keys ih =>
    intro rest hkey
    obtain ⟨hne, hkey⟩ := not_or.mp (mt List.mem_cons.mpr hkey)
    rw [List.foldl_cons, List.erase_cons_tail (by simpa using hne), ih hkey]
    rfl

namespace PrefetchInv

variable {before : List (Machine.Event Adapter PrefetchAct)}

/-- A call of `load`. -/
theorem load (h : PrefetchInv cfg before s) {names : List PyStr} {memory : Bool}
    {fails : PyStr → Bool} (hs : s.load cfg names memory fails = t) :
    PrefetchInv cfg (before ++ [⟨s, .load names memory fails, t⟩]) t ∧
      PrefetchKept cfg before ⟨s, .load names memory fails, t⟩ := by
  have hnot : ∀ key, ¬Unloads cfg s key (.load names memory fails) := fun _ hu => hu
  rcases Adapter.load_cases cfg s names memory fails with
    hsame | ⟨s₁, r, hensure, hload, hgrows⟩
  · obtain rfl := hs.symm.trans hsame
    exact ⟨h.stay hnot, kept_of_queue rfl fun _ hwork => absurd hwork Bool.false_ne_true⟩
  · obtain rfl := hs.symm.trans hload
    refine ⟨h.call hensure (fun _ hkey => hkey) (fun key rest _ hq => ⟨rest, hq⟩)
      (fun key _ hkey => hgrows key hkey) fun key hu => absurd hu (hnot key),
      fun _ hwork => absurd hwork Bool.false_ne_true, fun key hlt => ?_⟩
    exact absurd hlt (Nat.not_lt_of_le ((Adapter.ensure_queue hensure).sublist.count_le key))

/-- A call of `unload` that keeps clear of the worker. -/
theorem unload (h : PrefetchInv cfg before s) {names : List PyStr} {fails : PyStr → Bool}
    (hclear : KeepsClear cfg s (.unload names fails)) (hs : s.unload cfg names fails = t) :
    PrefetchInv cfg (before ++ [⟨s, .unload names fails, t⟩]) t ∧
      PrefetchKept cfg before ⟨s, .unload names fails, t⟩ := by
  obtain ⟨hwarm, hqueue⟩ := hclear
  rcases Adapter.unload_cases cfg s names fails with
    ⟨hsame, hensure⟩ | ⟨s₁, hensure, hunload⟩
  · obtain rfl := hs.symm.trans hsame
    have hnot : ∀ key, ¬Unloads cfg t key (.unload names fails) := by
      rintro key ⟨hsome, -⟩
      rw [hensure] at hsome
      cases hsome
    exact ⟨h.stay hnot, kept_of_queue rfl fun _ hwork => absurd hwork Bool.false_ne_true⟩
  · obtain rfl := hs.symm.trans hunload
    have hold := (Adapter.ensure_queue hensure).sublist
    have hcount := count_foldl_erase (cfg.laya.keys names)
    rw [hensure, Option.getD_some] at hqueue
    by_cases hknown : cfg.laya.allKnown names = true
    · rw [if_pos hknown]
      refine ⟨h.call hensure (fun key hkey => ?_) (fun key rest hcurrent hq => ?_)
        (fun key hkey hmem => ?_) (fun key hu => ?_),
        fun _ hwork => absurd hwork Bool.false_ne_true, fun key hlt => Or.inl ?_⟩
      · have hpos := List.count_pos_iff.mpr hkey
        rw [hcount] at hpos
        exact List.count_pos_iff.mp (Nat.lt_of_lt_of_le hpos (Nat.sub_le _ _))
      · rw [hq]
        exact ⟨_, foldl_erase_cons fun hkey => (hqueue hknown key hkey).1 hcurrent⟩
      · exact Laya.dropAll_keeps (fun hdrop => hwarm key hdrop hkey) hmem
      · refine List.count_eq_zero.mp ?_
        rw [hcount]
        exact Nat.sub_eq_zero_of_le (hqueue hknown key hu.2.2).2
      · -- the name lost an occurrence, so the call names it
        refine ⟨by rw [hensure]; rfl, hknown, List.count_pos_iff.mp ?_⟩
        have hle := hold.count_le key
        dsimp only at hlt
        rw [hcount] at hlt
        omega
    · rw [if_neg hknown]
      refine ⟨h.call hensure (fun _ hkey => hkey) (fun key rest _ hq => ⟨rest, hq⟩)
        (fun key hkey hmem => Laya.dropAll_keeps (fun hdrop => hwarm key hdrop hkey) hmem)
        (fun key hu => absurd hu.2.1 hknown),
        fun _ hwork => absurd hwork Bool.false_ne_true, fun key hlt => ?_⟩
      exact absurd hlt (Nat.not_lt_of_le (hold.count_le key))

/-- **The step lemma.** -/
theorem step (h : PrefetchInv cfg before s) {a : PrefetchAct} (hclear : KeepsClear cfg s a)
    (hs : s.step cfg a = some t) :
    PrefetchInv cfg (before ++ [⟨s, a, t⟩]) t ∧ PrefetchKept cfg before ⟨s, a, t⟩ := by
  cases a with
  | kick =>
    simp only [Adapter.step] at hs
    split at hs
    · obtain rfl := Option.some.inj hs
      refine ⟨h.next (fun _ hu => hu) (fun hnone => ⟨hnone, Or.inr rfl⟩) (List.suffix_refl _)
        (fun _ hkey => by cases hkey) (fun _ hkey => by rcases hkey with hk | hk <;> cases hk)
        fun _ hkey => absurd hkey List.not_mem_nil,
        kept_of_queue rfl fun _ hwork => absurd hwork Bool.false_ne_true⟩
    · cases hs
  | work env => exact h.work hs
  | unload names fails => exact h.unload hclear (Option.some.inj hs)
  | load names memory fails => exact h.load (Option.some.inj hs)

/-- The invariant along a run, and with it what every step owes. -/
theorem run {es : List (Machine.Event Adapter PrefetchAct)}
    (h : (Adapter.machine cfg).Run {} es t) (hclear : ∀ e ∈ es, KeepsClear cfg e.pre e.act) :
    PrefetchInv cfg es t ∧ ∀ before e after, es = before ++ e :: after →
      PrefetchKept cfg before e := by
  induction h with
  | refl =>
    refine ⟨init, fun before e after hnil => ?_⟩
    exact absurd hnil.symm (List.append_ne_nil_of_right_ne_nil _ (List.cons_ne_nil _ _))
  | @snoc u t es a hrun hs ih =>
    obtain ⟨hinv, hkept⟩ := ih fun e he => hclear e (List.mem_append_left _ he)
    have hlast : KeepsClear cfg u a :=
      hclear ⟨u, a, t⟩ (List.mem_append_right _ (List.mem_singleton_self _))
    obtain ⟨hinv', hkept'⟩ := hinv.step hlast hs
    refine ⟨hinv', fun before e after hsplit => ?_⟩
    rcases List.eq_nil_or_concat after with rfl | ⟨after, last, rfl⟩
    · obtain ⟨rfl, he⟩ := List.append_inj' hsplit rfl
      obtain rfl := List.singleton_inj.mp he
      exact hkept'
    · refine hkept before e after ?_
      rw [List.concat_eq_append, ← List.cons_append, ← List.append_assoc] at hsplit
      exact (List.append_inj' hsplit rfl).1

end PrefetchInv

/-- **Prefetch.** In every run in which every `unload` keeps clear of the worker, the
worker loads no name that was unloaded, and a staged name leaves the queue only by
having been loaded or unloaded itself. -/
theorem prefetch_kept {es : List (Machine.Event Adapter PrefetchAct)}
    (hinit : (Adapter.machine cfg).init s) (h : (Adapter.machine cfg).Run s es t)
    (hclear : ∀ e ∈ es, KeepsClear cfg e.pre e.act) :
    ∀ before e after, es = before ++ e :: after → PrefetchKept cfg before e := by
  obtain rfl : s = {} := hinit
  exact (PrefetchInv.run h hclear).2

/-! ## Runs -/

/-- The second checkpoint of the catalog. -/
def multilingual : PyStr := py "multilingual"

/-- The third. -/
def typedDecisions : PyStr := py "typed-decisions"

/-- A router with three checkpoints, which knows them by their names. -/
def stubLaya : Laya where
  catalog := [py "english", multilingual, typedDecisions]
  normalise name :=
    if name ∈ [py "english", multilingual, typedDecisions] then some name else none
  known h := by
    split at h
    · next hmem => exact Option.some.inj h ▸ hmem
    · cases h
  fixed h := if_pos h

/-- `LAYA_MODELS` is `all`. -/
def stubConfig : PrefetchConfig := ⟨stubLaya, [py "all"], false⟩

/-- The worker builds the router, warms the first checkpoint and reads the second from the
queue; the gates are open. -/
def readsSecond : List PrefetchAct := .kick :: List.replicate 8 (.work {})

/-- The second is unloaded before the worker asks for the lifecycle lock. -/
def unloadsRead : List PrefetchAct :=
  readsSecond ++ [.unload [multilingual] fun _ => false, .work {}]

/-- The worker loads the checkpoint that an `unload` has just dropped and cancelled. -/
theorem unloaded_is_loaded : ¬∀ cfg s es t, (Adapter.machine cfg).init s →
    (Adapter.machine cfg).Run s es t →
    ∀ before e after, es = before ++ e :: after → PrefetchKept cfg before e := by
  intro h
  have hkept := Machine.forall_split_iff.mp (h stubConfig {} _ _ rfl
    (Machine.Run.of_final (l := unloadsRead) (by decide +kernel))) 10 (by decide +kernel)
  refine hkept.unloaded multilingual rfl (by decide +kernel) (by decide +kernel)
    ⟨((Adapter.machine stubConfig).events {} unloadsRead)[9], ?_, ?_⟩
  · exact List.mem_take_iff_getElem.mpr ⟨9, by decide +kernel, rfl⟩
  · exact ⟨by decide +kernel, by decide +kernel, by decide +kernel⟩

/-- The worker loads the second and pops it, and then the third is unloaded. -/
def unloadsOther : List PrefetchAct :=
  readsSecond ++ [.work {}, .work {}, .unload [typedDecisions] fun _ => false, .work {}]

/-- Here every name of the queue is loaded or unloaded itself. -/
theorem unloadsOther_kept : ∃ es t, (Adapter.machine stubConfig).Run {} es t ∧
    es.map Machine.Event.act = unloadsOther ∧ multilingual ∈ t.loaded ∧
    ∀ before e after, es = before ++ e :: after → PrefetchKept stubConfig before e := by
  obtain ⟨hrun, hacts⟩ := Machine.Run.of_events (M := Adapter.machine stubConfig) (s := {})
    (l := unloadsOther) rfl
  exact ⟨_, _, hrun, hacts, by decide +kernel, prefetch_kept rfl hrun (by decide +kernel)⟩

end LayaWatch
