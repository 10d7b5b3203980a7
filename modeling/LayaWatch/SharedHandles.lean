import LayaWatch.Python
import LayaWatch.Lib.Dict
import LayaWatch.Lib.Lru
import LayaWatch.Lib.Machine
import Mathlib.Logic.Function.Basic

/-!
# Shared handles

`connect` of `store/db.py` and the `close` of what it returns, on one thread. A thread keeps up
to eight handles, one for a file. Whoever connects to a file is given the handle that is kept
for it, and `close` rolls back what is open on it, whoever executed that.

So owners share a handle exactly if they share a file, an inner `close` undoes the open work of
an outer owner of that file and of no other, and the handle of an owner is really closed exactly
when eight other files were connected since (`shared_handles`).
-/

namespace LayaWatch

namespace SharedHandles

universe u

variable {W : Type u}

/-- A `_CachedConnection`. A statement is kept with the owner that executed it. -/
structure Handle (W : Type u) where
  /-- the absolute path of the file; nothing for `:memory:` -/
  key : Option PyStr := none
  /-- the statements of the open transaction -/
  pending : List (ℕ × W) := []
  /-- the statements that were committed -/
  committed : List (ℕ × W) := []
  /-- `_retired`: it is really closed -/
  retired : Bool := false

/-- What a thread has: the handles that it opened, and who holds them. -/
structure Thread (W : Type u) where
  /-- the handles, in the order in which they were opened -/
  handle : ℕ → Handle W
  /-- how many there are -/
  opened : ℕ
  /-- `by_path` -/
  byPath : Dict PyStr ℕ
  /-- the handle that a call of `connect` returned, until it is closed -/
  owner : ℕ → Option ℕ
  /-- how many calls there were -/
  connects : ℕ

/-- What an owner does, or who becomes one. -/
inductive Action (W : Type u) where
  /-- `connect(path)` -/
  | connect (path : PyStr)
  /-- a statement that changes the database -/
  | execute (o : ℕ) (w : W)
  /-- `conn.commit()` -/
  | commit (o : ℕ)
  /-- `conn.rollback()` -/
  | rollback (o : ℕ)
  /-- `conn.close()`; `raises` if its `rollback` does -/
  | close (o : ℕ) (raises : Bool)

/-- `_MAX_CACHED_PER_THREAD`. -/
def maxCachedPerThread : ℕ := 8

namespace Handle

/-- `commit`. -/
def commit (c : Handle W) : Handle W :=
  { c with pending := [], committed := c.committed ++ c.pending }

/-- `rollback`. -/
def rollback (c : Handle W) : Handle W := { c with pending := [] }

/-- `_retire`. -/
def retire (c : Handle W) : Handle W := { c with pending := [], retired := true }

/-- `close`; `in_transaction` is that there are statements to roll back. -/
def close (raises : Bool) (c : Handle W) : Handle W :=
  if c.retired then c
  else if c.pending.isEmpty then c
  else if raises then c.retire
  else c.rollback

end Handle

namespace Thread

/-- A thread that has not connected yet. -/
def new : Thread W where
  handle _ := {}
  opened := 0
  byPath := .empty
  owner _ := none
  connects := 0

/-- Change a handle. -/
def change (h : ℕ) (f : Handle W → Handle W) (s : Thread W) : Thread W :=
  { s with handle := Function.update s.handle h (f (s.handle h)) }

/-- `sqlite3.connect`: the next handle is open. -/
def openHandle (key : Option PyStr) (s : Thread W) : Thread W :=
  { s with handle := Function.update s.handle s.opened { key := key }, opened := s.opened + 1 }

/-- `return conn`. -/
def give (h : ℕ) (s : Thread W) : Thread W :=
  { s with owner := Function.update s.owner s.connects (some h), connects := s.connects + 1 }

/-- `while len(cache) > _MAX_CACHED_PER_THREAD`: the oldest entries are retired. -/
def evict (s : Thread W) : Thread W :=
  let excess := s.byPath.entries.length - maxCachedPerThread
  { s with
    handle := fun h =>
      if h ∈ (s.byPath.entries.take excess).map Prod.snd then (s.handle h).retire else s.handle h
    byPath := ⟨s.byPath.entries.drop excess, s.byPath.nodup.sublist
      ((List.drop_sublist excess _).map _)⟩ }

/-- `connect`. -/
def connect (abspath : PyStr → PyStr) (path : PyStr) (s : Thread W) : Thread W :=
  if path = py ":memory:" then (s.openHandle none).give s.opened
  else
    let key := abspath path
    match s.byPath.get key with
    | some h => ({ s with byPath := (s.byPath.erase key).set key h }).give h
    | none =>
      (({ s.openHandle (some key) with byPath := s.byPath.set key s.opened }).evict).give s.opened

/-- A call on the handle of an owner; on a retired one it raises. -/
def call (o : ℕ) (f : Handle W → Handle W) (s : Thread W) : Option (Thread W) :=
  (s.owner o).map fun h => if (s.handle h).retired then s else s.change h f

/-- One action. -/
def step (abspath : PyStr → PyStr) (s : Thread W) : Action W → Option (Thread W)
  | .connect path => some (s.connect abspath path)
  | .execute o w => s.call o fun c => { c with pending := c.pending ++ [(o, w)] }
  | .commit o => s.call o Handle.commit
  | .rollback o => s.call o Handle.rollback
  | .close o raises =>
    (s.owner o).map fun h =>
      { s.change h (Handle.close raises) with owner := Function.update s.owner o none }

end Thread

/-- The actions on a thread. -/
def machine (W : Type u) (abspath : PyStr → PyStr) : Machine (Thread W) (Action W) :=
  ⟨fun s => s = Thread.new, Thread.step abspath⟩

/-- The file that an action connects to. -/
def Action.key (abspath : PyStr → PyStr) : Action W → Option PyStr
  | .connect path => if path = py ":memory:" then none else some (abspath path)
  | _ => none

/-- The files that were connected, in order. -/
def connected (abspath : PyStr → PyStr) (es : List (Machine.Event (Thread W) (Action W))) :
    List PyStr := es.filterMap fun e => e.act.key abspath

/-- Whether the rollback of a `close` raises. -/
def Action.fails : Action W → Bool
  | .close _ raises => raises
  | _ => false

/-! ## What a thread keeps -/

variable {abspath : PyStr → PyStr} {path key : PyStr} {h : ℕ} {s t : Thread W}

/-- What holds of a thread throughout. -/
structure Kept (s : Thread W) : Prop where
  /-- there is one open handle for a file, and `by_path` has it -/
  files : ∀ k h, s.byPath.get k = some h ↔
    h < s.opened ∧ (s.handle h).key = some k ∧ (s.handle h).retired = false
  /-- a `:memory:` database is not in the cache -/
  memory : ∀ h, (s.handle h).key = none → (s.handle h).retired = false
  /-- a handle that is really closed has nothing to roll back -/
  clean : ∀ h, (s.handle h).retired = true → (s.handle h).pending = []
  /-- who holds a handle was given it -/
  held : ∀ o h, s.owner o = some h → h < s.opened
  /-- a `:memory:` database has one owner -/
  alone : ∀ o o' h, s.owner o = some h → s.owner o' = some h → (s.handle h).key = none → o = o'

theorem Kept.new : Kept (Thread.new : Thread W) where
  files k h := by
    refine iff_of_false ?_ fun hopen => absurd hopen.1 (Nat.not_lt_zero h)
    exact fun hget => by cases hget
  memory _ _ := rfl
  clean _ _ := rfl
  held _ _ howner := by cases howner
  alone _ _ _ howner := by cases howner

/-- A key that was moved to the end is where it was. -/
theorem get_moved (hget : s.byPath.get key = some h) (k : PyStr) :
    ((s.byPath.erase key).set key h).get k = s.byPath.get k := by
  by_cases hk : k = key
  · rw [hk, Dict.get_set_self, hget]
  · rw [Dict.get_set_ne _ _ hk, Dict.get_erase_ne _ hk]

theorem Kept.moved (hs : Kept s) (hget : s.byPath.get key = some h) :
    Kept { s with byPath := (s.byPath.erase key).set key h } where
  files k h' := by
    rw [get_moved hget]
    exact hs.files k h'
  memory := hs.memory
  clean := hs.clean
  held := hs.held
  alone := hs.alone

/-- A handle that is not in the cache is behind those that are. -/
theorem Kept.get_opened (hs : Kept s) (k : PyStr) : s.byPath.get k ≠ some s.opened :=
  fun hget => Nat.lt_irrefl _ ((hs.files k s.opened).mp hget).1

/-- One more handle is open, and it is in the cache if it has a key. -/
theorem Kept.opened (hs : Kept s) {key : Option PyStr} {byPath : Dict PyStr ℕ}
    (hfiles : ∀ k h, byPath.get k = some h ↔
      if h = s.opened then key = some k else s.byPath.get k = some h) :
    Kept { s.openHandle key with byPath := byPath } where
  files k h := by
    dsimp only [Thread.openHandle]
    rw [hfiles]
    by_cases hh : h = s.opened
    · rw [if_pos hh, hh, Function.update_self]
      exact ⟨fun hkey => ⟨Nat.lt_succ_self _, hkey, rfl⟩, fun hnew => hnew.2.1⟩
    · have hlt : h < s.opened + 1 ↔ h < s.opened := by omega
      rw [if_neg hh, Function.update_of_ne hh, hlt]
      exact hs.files k h
  memory h := by
    dsimp only [Thread.openHandle]
    by_cases hh : h = s.opened
    · rw [hh, Function.update_self]
      exact fun _ => rfl
    · rw [Function.update_of_ne hh]
      exact hs.memory h
  clean h := by
    dsimp only [Thread.openHandle]
    by_cases hh : h = s.opened
    · rw [hh, Function.update_self]
      exact fun _ => rfl
    · rw [Function.update_of_ne hh]
      exact hs.clean h
  held o h howner := Nat.lt_succ_of_lt (hs.held o h howner)
  alone o o' h howner howner' := by
    dsimp only [Thread.openHandle]
    rw [Function.update_of_ne (Nat.ne_of_lt (hs.held o h howner))]
    exact hs.alone o o' h howner howner'

/-- The next handle is for a `:memory:` database. -/
theorem Kept.openMemory (hs : Kept s) : Kept (s.openHandle none) := by
  refine hs.opened fun k h => ?_
  by_cases hh : h = s.opened
  · rw [if_pos hh, hh]
    exact iff_of_false (hs.get_opened k) fun hnone => by cases hnone
  · rw [if_neg hh]

/-- The next handle is for a file that has none. -/
theorem Kept.openFile (hs : Kept s) (hget : s.byPath.get key = none) :
    Kept { s.openHandle (some key) with byPath := s.byPath.set key s.opened } := by
  refine hs.opened fun k h => ?_
  by_cases hk : k = key
  · rw [hk, Dict.get_set_self, hget]
    by_cases hh : h = s.opened
    · rw [if_pos hh, hh]
      exact iff_of_true rfl rfl
    · rw [if_neg hh]
      exact iff_of_false (fun hsame => hh (Option.some.inj hsame).symm) fun hnone => by cases hnone
  · rw [Dict.get_set_ne _ _ hk]
    by_cases hh : h = s.opened
    · rw [if_pos hh, hh]
      exact iff_of_false (hs.get_opened k) fun hkey => hk (Option.some.inj hkey).symm
    · rw [if_neg hh]

/-- An entry stays exactly if its handle is not one of those that are retired. -/
theorem Kept.get_evict (hs : Kept s) (k : PyStr) (h : ℕ) :
    s.evict.byPath.get k = some h ↔ s.byPath.get k = some h ∧
      h ∉ (s.byPath.entries.take (s.byPath.entries.length - maxCachedPerThread)).map Prod.snd := by
  rw [Dict.get_eq_some, Dict.get_eq_some]
  dsimp only [Thread.evict]
  generalize s.byPath.entries.length - maxCachedPerThread = excess
  have hsplit := List.take_append_drop excess s.byPath.entries
  constructor
  · intro hdrop
    refine ⟨List.mem_of_mem_drop hdrop, fun hgone => ?_⟩
    -- an entry that stays and one that goes have different keys, so their handles differ
    obtain ⟨⟨k', h'⟩, htake, rfl⟩ := List.mem_map.mp hgone
    have hstays := (hs.files k h').mp (Dict.get_eq_some.mpr (List.mem_of_mem_drop hdrop))
    have hgoes := (hs.files k' h').mp (Dict.get_eq_some.mpr (List.mem_of_mem_take htake))
    obtain rfl : k = k' := Option.some.inj (hstays.2.1.symm.trans hgoes.2.1)
    have hnodup := s.byPath.nodup
    rw [← hsplit, List.map_append, List.nodup_append] at hnodup
    exact hnodup.2.2 k (List.mem_map_of_mem htake) k (List.mem_map_of_mem hdrop) rfl
  · rintro ⟨hmem, hstays⟩
    rw [← hsplit] at hmem
    rcases List.mem_append.mp hmem with htake | hdrop
    · exact absurd (List.mem_map_of_mem htake) hstays
    · exact hdrop

theorem Kept.evict (hs : Kept s) : Kept s.evict := by
  have hhandle : ∀ h, s.evict.handle h = s.handle h ∨ s.evict.handle h = (s.handle h).retire := by
    intro h
    dsimp only [Thread.evict]
    split
    · exact Or.inr rfl
    · exact Or.inl rfl
  have hkey : ∀ h, (s.evict.handle h).key = (s.handle h).key := by
    intro h
    rcases hhandle h with hh | hh
    · rw [hh]
    · rw [hh]
      rfl
  refine ⟨fun k h => ?_, fun h hnone => ?_, fun h hretired => ?_, hs.held, fun o o' h ho ho' => ?_⟩
  · rw [hs.get_evict, hs.files, hkey, and_assoc, and_assoc]
    refine and_congr_right fun _ => and_congr_right fun _ => ?_
    dsimp only [Thread.evict]
    split
    · next hgone => exact iff_of_false (fun hopen => hopen.2 hgone) fun hopen => by cases hopen
    · next hstays => exact and_iff_left hstays
  · rw [hkey] at hnone
    have hopen := hs.memory h hnone
    dsimp only [Thread.evict]
    split
    · next hgone =>
      obtain ⟨⟨k, h'⟩, htake, rfl⟩ := List.mem_map.mp hgone
      have hkept := (hs.files k h').mp (Dict.get_eq_some.mpr (List.mem_of_mem_take htake))
      rw [hkept.2.1] at hnone
      cases hnone
    · exact hopen
  · rcases hhandle h with hh | hh
    · rw [hh] at hretired ⊢
      exact hs.clean h hretired
    · rw [hh]
      rfl
  · rw [hkey]
    exact hs.alone o o' h ho ho'

/-- A handle is given to one more owner, a `:memory:` database to its only one. -/
theorem Kept.give (hs : Kept s) (hh : h < s.opened)
    (hfirst : (s.handle h).key = none → ∀ o, s.owner o ≠ some h) : Kept (s.give h) where
  files := hs.files
  memory := hs.memory
  clean := hs.clean
  held o h' howner := by
    dsimp only [Thread.give] at howner
    by_cases ho : o = s.connects
    · rw [ho, Function.update_self] at howner
      exact Option.some.inj howner ▸ hh
    · rw [Function.update_of_ne ho] at howner
      exact hs.held o h' howner
  alone o o' h' howner howner' hnone := by
    dsimp only [Thread.give] at howner howner' hnone
    by_cases ho : o = s.connects
    · by_cases ho' : o' = s.connects
      · rw [ho, ho']
      · rw [ho, Function.update_self] at howner
        rw [Function.update_of_ne ho'] at howner'
        obtain rfl := Option.some.inj howner
        exact absurd howner' (hfirst hnone o')
    · rw [Function.update_of_ne ho] at howner
      by_cases ho' : o' = s.connects
      · rw [ho', Function.update_self] at howner'
        obtain rfl := Option.some.inj howner'
        exact absurd howner (hfirst hnone o)
      · rw [Function.update_of_ne ho'] at howner'
        exact hs.alone o o' h' howner howner' hnone

/-! ## What an action does -/

theorem connect_memory (hpath : path = py ":memory:") :
    s.connect abspath path = (s.openHandle none).give s.opened := if_pos hpath

theorem connect_cached (hpath : path ≠ py ":memory:")
    (hget : s.byPath.get (abspath path) = some h) : s.connect abspath path =
      ({ s with byPath := (s.byPath.erase (abspath path)).set (abspath path) h }).give h := by
  unfold Thread.connect
  rw [if_neg hpath]
  simp only [hget]

theorem connect_new (hpath : path ≠ py ":memory:") (hget : s.byPath.get (abspath path) = none) :
    s.connect abspath path = (({ s.openHandle (some (abspath path)) with
      byPath := s.byPath.set (abspath path) s.opened }).evict).give s.opened := by
  unfold Thread.connect
  rw [if_neg hpath]
  simp only [hget]

theorem Kept.connect (hs : Kept s) (path : PyStr) : Kept (s.connect abspath path) := by
  by_cases hpath : path = py ":memory:"
  · rw [connect_memory hpath]
    refine hs.openMemory.give (Nat.lt_succ_self _) fun _ o howner => ?_
    exact Nat.lt_irrefl _ (hs.held o _ howner)
  · rcases hget : s.byPath.get (abspath path) with _ | h
    · rw [connect_new hpath hget]
      refine (hs.openFile hget).evict.give (Nat.lt_succ_self _) fun _ o howner => ?_
      exact Nat.lt_irrefl _ (hs.held o _ howner)
    · rw [connect_cached hpath hget]
      have hopen := (hs.files _ h).mp hget
      refine (hs.moved hget).give hopen.1 fun hnone => ?_
      rw [show s.handle h = _ from rfl, hopen.2.1] at hnone
      cases hnone

/-- The statements of a thread's handles may have changed, and owners may have gone. -/
structure Worked (s t : Thread W) : Prop where
  /-- the same handles are there -/
  opened : t.opened = s.opened
  /-- the cache is the same -/
  byPath : t.byPath = s.byPath
  /-- a handle is of the same file -/
  key : ∀ h, (t.handle h).key = (s.handle h).key
  /-- none was really closed -/
  retired : ∀ h, (t.handle h).retired = (s.handle h).retired
  /-- one that was has not changed -/
  still : ∀ h, (s.handle h).retired = true → t.handle h = s.handle h
  /-- nobody was given one -/
  owner : ∀ o h, t.owner o = some h → s.owner o = some h

theorem Kept.worked (hs : Kept s) (hw : Worked s t) : Kept t where
  files k h := by
    rw [hw.byPath, hw.opened, hw.key, hw.retired]
    exact hs.files k h
  memory h hnone := by
    rw [hw.key] at hnone
    rw [hw.retired]
    exact hs.memory h hnone
  clean h hretired := by
    rw [hw.retired] at hretired
    rw [hw.still h hretired]
    exact hs.clean h hretired
  held o h howner := by
    rw [hw.opened]
    exact hs.held o h (hw.owner o h howner)
  alone o o' h ho ho' hnone := by
    rw [hw.key] at hnone
    exact hs.alone o o' h (hw.owner o h ho) (hw.owner o' h ho') hnone

/-- A change of the statements of one handle that is open. -/
theorem worked_change {f : Handle W → Handle W} (hkey : ∀ c, (f c).key = c.key)
    (hretired : ∀ c, (f c).retired = c.retired)
    (hstill : (s.handle h).retired = true → f (s.handle h) = s.handle h) :
    Worked s (s.change h f) where
  opened := rfl
  byPath := rfl
  key h' := by
    dsimp only [Thread.change]
    by_cases hh : h' = h
    · rw [hh, Function.update_self, hkey]
    · rw [Function.update_of_ne hh]
  retired h' := by
    dsimp only [Thread.change]
    by_cases hh : h' = h
    · rw [hh, Function.update_self, hretired]
    · rw [Function.update_of_ne hh]
  still h' hold := by
    dsimp only [Thread.change]
    by_cases hh : h' = h
    · rw [hh] at hold ⊢
      rw [Function.update_self, hstill hold]
    · rw [Function.update_of_ne hh]
  owner _ _ howner := howner

theorem worked_call {o : ℕ} {f : Handle W → Handle W} (hcall : s.call o f = some t)
    (hkey : ∀ c, (f c).key = c.key) (hretired : ∀ c, (f c).retired = c.retired) :
    Worked s t := by
  obtain ⟨h, howner, rfl⟩ := Option.map_eq_some_iff.mp hcall
  by_cases hold : (s.handle h).retired = true
  · rw [if_pos hold]
    exact ⟨rfl, rfl, fun _ => rfl, fun _ => rfl, fun _ _ => rfl, fun _ _ howner => howner⟩
  · rw [if_neg hold]
    exact worked_change hkey hretired fun hret => absurd hret hold

/-- A `close` whose rollback does not raise is a rollback. -/
theorem close_eq (c : Handle W) (hclean : c.retired = true → c.pending = []) :
    c.close false = c.rollback := by
  unfold Handle.close Handle.rollback
  split
  · next hold => rw [← hclean hold]
  · split
    · next hempty => rw [← List.isEmpty_iff.mp hempty]
    · rfl

/-- It rolls back what is open on its own handle, and nothing else. -/
theorem close_spec {o : ℕ} (hs : Kept s) (howner : s.owner o = some h)
    (hstep : s.step abspath (.close o false) = some t) :
    t.handle = Function.update s.handle h (s.handle h).rollback := by
  obtain ⟨h', howner', rfl⟩ := Option.map_eq_some_iff.mp hstep
  obtain rfl := Option.some.inj (howner.symm.trans howner')
  dsimp only [Thread.change]
  rw [close_eq _ (hs.clean h)]

theorem worked_close {o : ℕ} (hs : Kept s) (hstep : s.step abspath (.close o false) = some t) :
    Worked s t := by
  obtain ⟨h, howner, rfl⟩ := Option.map_eq_some_iff.mp hstep
  have hrollback : s.change h (Handle.close false) = s.change h Handle.rollback := by
    unfold Thread.change
    rw [close_eq _ (hs.clean h)]
  have hw : Worked s (s.change h Handle.rollback) :=
    worked_change (fun _ => rfl) (fun _ => rfl) fun hold => by
      unfold Handle.rollback
      rw [← hs.clean h hold]
  rw [hrollback]
  refine ⟨hw.opened, hw.byPath, hw.key, hw.retired, hw.still, fun o' h' howner' => ?_⟩
  dsimp only at howner'
  by_cases ho : o' = o
  · rw [ho, Function.update_self] at howner'
    cases howner'
  · rwa [Function.update_of_ne ho] at howner'

/-- **What an action does.** It connects, or the handles stay as they are but for statements. -/
theorem step_cases {a : Action W} (hs : Kept s) (hok : a.fails = false)
    (hstep : s.step abspath a = some t) :
    (∃ path, a = .connect path ∧ t = s.connect abspath path) ∨
      a.key abspath = none ∧ (∀ path, a ≠ .connect path) ∧ Worked s t := by
  cases a with
  | connect path => exact Or.inl ⟨path, rfl, (Option.some.inj hstep).symm⟩
  | execute o w =>
    refine Or.inr ⟨rfl, fun path => ?_, worked_call hstep (fun _ => rfl) fun _ => rfl⟩
    intro hconnect
    cases hconnect
  | commit o =>
    refine Or.inr ⟨rfl, fun path => ?_, worked_call hstep (fun _ => rfl) fun _ => rfl⟩
    intro hconnect
    cases hconnect
  | rollback o =>
    refine Or.inr ⟨rfl, fun path => ?_, worked_call hstep (fun _ => rfl) fun _ => rfl⟩
    intro hconnect
    cases hconnect
  | close o raises =>
    obtain rfl : raises = false := hok
    refine Or.inr ⟨rfl, fun path => ?_, worked_close hs hstep⟩
    intro hconnect
    cases hconnect

theorem Kept.step {a : Action W} (hs : Kept s) (hok : a.fails = false)
    (hstep : s.step abspath a = some t) : Kept t := by
  rcases step_cases hs hok hstep with ⟨path, -, rfl⟩ | ⟨-, -, hw⟩
  · exact hs.connect path
  · exact hs.worked hw

/-! ## Which files have a handle -/

/-- A `connect` uses the file. -/
theorem connect_keys (hpath : path ≠ py ":memory:") : (s.connect abspath path).byPath.keys =
    Lru.touch maxCachedPerThread (abspath path) s.byPath.keys := by
  unfold Lru.touch
  rcases hget : s.byPath.get (abspath path) with _ | h
  · have hnew : abspath path ∉ s.byPath.keys := Dict.get_eq_none.mp hget
    have hentries := Dict.entries_set_new s.opened hnew
    rw [connect_new hpath hget, if_neg hnew]
    dsimp only [Thread.give, Thread.evict, Dict.keys]
    rw [hentries, List.map_drop, List.map_append, List.length_append, List.length_map]
    rfl
  · have hold : abspath path ∈ s.byPath.keys := Dict.mem_keys.mpr ⟨h, hget⟩
    rw [connect_cached hpath hget, if_pos hold]
    dsimp only [Thread.give]
    rw [Dict.keys_set, Dict.keys_erase, if_neg]
    intro hmem
    exact of_decide_eq_true (List.mem_filter.mp hmem).2 rfl

theorem connect_memory_files (hpath : path = py ":memory:") :
    (s.connect abspath path).byPath = s.byPath := by
  rw [connect_memory hpath]
  rfl

/-- A handle that is there stays of its file, and more are there. -/
theorem connect_key (hh : h < s.opened) : h < (s.connect abspath path).opened ∧
    ((s.connect abspath path).handle h).key = (s.handle h).key := by
  have hne : h ≠ s.opened := Nat.ne_of_lt hh
  by_cases hpath : path = py ":memory:"
  · rw [connect_memory hpath]
    dsimp only [Thread.give, Thread.openHandle]
    rw [Function.update_of_ne hne]
    exact ⟨Nat.lt_succ_of_lt hh, rfl⟩
  · rcases hget : s.byPath.get (abspath path) with _ | h'
    · rw [connect_new hpath hget]
      dsimp only [Thread.give, Thread.evict, Thread.openHandle]
      rw [Function.update_of_ne hne]
      refine ⟨Nat.lt_succ_of_lt hh, ?_⟩
      split
      · rfl
      · rfl
    · rw [connect_cached hpath hget]
      exact ⟨hh, rfl⟩

/-- A file that has a handle does not get another one. -/
theorem connect_get {k : PyStr} {h' : ℕ} (hs : Kept s) (hget : s.byPath.get k = some h)
    (hget' : (s.connect abspath path).byPath.get k = some h') : h' = h := by
  by_cases hpath : path = py ":memory:"
  · rw [connect_memory_files hpath, hget] at hget'
    exact (Option.some.inj hget').symm
  · rcases hfile : s.byPath.get (abspath path) with _ | h''
    · have hk : k ≠ abspath path := by
        rintro rfl
        rw [hget] at hfile
        cases hfile
      rw [connect_new hpath hfile] at hget'
      have hset := (((hs.openFile hfile).get_evict k h').mp hget').1
      dsimp only at hset
      rw [Dict.get_set_ne _ _ hk, hget] at hset
      exact (Option.some.inj hset).symm
    · rw [connect_cached hpath hfile] at hget'
      dsimp only [Thread.give] at hget'
      rw [get_moved hfile, hget] at hget'
      exact (Option.some.inj hget').symm

/-- What holds of a thread after what was done on it. -/
structure History (abspath : PyStr → PyStr) (es : List (Machine.Event (Thread W) (Action W)))
    (s : Thread W) : Prop where
  /-- its handles and its owners fit -/
  kept : Kept s
  /-- the cache has the files that were connected last -/
  recent : Lru.Recent maxCachedPerThread (connected abspath es) s.byPath.keys

variable {es : List (Machine.Event (Thread W) (Action W))} {a : Action W}

theorem connected_snoc (e : Machine.Event (Thread W) (Action W)) : connected abspath (es ++ [e]) =
    connected abspath es ++ (e.act.key abspath).toList := by
  unfold connected
  rw [List.filterMap_append]
  rfl

theorem key_connect (hpath : path ≠ py ":memory:") :
    (Action.connect path : Action W).key abspath = some (abspath path) := if_neg hpath

theorem History.step (hs : History abspath es s) (hok : a.fails = false)
    (hstep : s.step abspath a = some t) : History abspath (es ++ [⟨s, a, t⟩]) t := by
  refine ⟨hs.kept.step hok hstep, ?_⟩
  rw [connected_snoc]
  rcases step_cases hs.kept hok hstep with ⟨path, rfl, rfl⟩ | ⟨hnone, -, hw⟩
  · by_cases hpath : path = py ":memory:"
    · rw [connect_memory_files hpath, Action.key, if_pos hpath, Option.toList_none, List.append_nil]
      exact hs.recent
    · rw [connect_keys hpath, key_connect hpath]
      exact hs.recent.touch (by decide) (abspath path)
  · dsimp only
    rw [hnone, hw.byPath, Option.toList_none, List.append_nil]
    exact hs.recent

/-- A handle of a file is really closed exactly when as many other files as the cache has room
for were connected since. -/
theorem History.retired_iff {k : PyStr} (hs : History abspath es s) (hok : a.fails = false)
    (hstep : s.step abspath a = some t) (hget : s.byPath.get k = some h) :
    (t.handle h).retired = true ↔ ∃ path, a = .connect path ∧ path ≠ py ":memory:" ∧
      maxCachedPerThread ≤ (Lru.since k (connected abspath es ++ [abspath path])).dedup.length := by
  obtain ⟨hh, hkey, hopen⟩ := (hs.kept.files k h).mp hget
  have hs' := hs.step hok hstep
  rcases step_cases hs.kept hok hstep with ⟨path, rfl, rfl⟩ | ⟨-, hother, hw⟩
  · -- it stays open exactly if its file stays in the cache
    have hstays : ((s.connect abspath path).handle h).retired = false ↔
        k ∈ (s.connect abspath path).byPath.keys := by
      rw [Dict.mem_keys]
      constructor
      · intro hopen'
        refine ⟨h, (hs'.kept.files k h).mpr ⟨(connect_key hh).1, ?_, hopen'⟩⟩
        rw [(connect_key hh).2, hkey]
      · rintro ⟨h', hget'⟩
        obtain rfl := connect_get hs.kept hget hget'
        exact ((hs'.kept.files k h').mp hget').2.2
    have hused := hs.recent.used (Dict.mem_keys.mpr ⟨h, hget⟩)
    by_cases hpath : path = py ":memory:"
    · refine iff_of_false ?_ ?_
      · rw [Bool.not_eq_true, hstays, connect_memory_files hpath]
        exact Dict.mem_keys.mpr ⟨h, hget⟩
      · rintro ⟨path', hsame, hpath', -⟩
        cases hsame
        exact hpath' hpath
    · have hrecent := hs'.recent
      rw [connected_snoc] at hrecent
      dsimp only at hrecent
      rw [key_connect hpath, Option.toList_some] at hrecent
      have hkept := hrecent.mem_iff (List.mem_append_left _ hused)
      rw [← Bool.not_eq_false, hstays, hkept, Nat.not_lt]
      constructor
      · exact fun hlong => ⟨path, rfl, hpath, hlong⟩
      · rintro ⟨path', hsame, -, hlong⟩
        cases hsame
        exact hlong
  · refine iff_of_false ?_ ?_
    · rw [hw.retired, hopen]
      exact Bool.false_ne_true
    · rintro ⟨path, hconnect, -⟩
      exact hother path hconnect

/-- **Shared handles.** Owners of open handles share one exactly if it is of one file, a `close`
rolls back what is open on its own handle and changes no other, and the handle of an owner is
really closed exactly when eight other files were connected since. -/
theorem shared_handles (abspath : PyStr → PyStr)
    (before after : List (Machine.Event (Thread W) (Action W)))
    (e : Machine.Event (Thread W) (Action W))
    (hrun : (machine W abspath).Run Thread.new (before ++ e :: after) t)
    (hok : ∀ e' ∈ before ++ e :: after, e'.act.fails = false) :
    (∀ o o' h h', e.pre.owner o = some h → e.pre.owner o' = some h' →
      (e.pre.handle h).retired = false → (e.pre.handle h').retired = false →
      (h = h' ↔ o = o' ∨ ∃ k, (e.pre.handle h).key = some k ∧ (e.pre.handle h').key = some k)) ∧
    (∀ o raises h, e.act = .close o raises → e.pre.owner o = some h →
      e.post.handle = Function.update e.pre.handle h (e.pre.handle h).rollback) ∧
    ∀ o h, e.pre.owner o = some h → (e.pre.handle h).retired = false →
      ((e.post.handle h).retired = true ↔ ∃ k path, (e.pre.handle h).key = some k ∧
        e.act = .connect path ∧ path ≠ py ":memory:" ∧ maxCachedPerThread ≤
          (Lru.since k (connected abspath before ++ [abspath path])).dedup.length) := by
  obtain ⟨s, hbefore, hrest⟩ := hrun.of_append
  obtain ⟨rfl, hstep, -⟩ := hrest.of_cons
  -- what was done before the action says what the thread keeps
  have hs : History abspath before e.pre := hbefore.history
    (G := fun _ a => a.fails = false) (fun es s a t => History.step)
    ⟨Kept.new, Lru.Recent.init _⟩ fun e' he' => hok e' (List.mem_append_left _ he')
  have hlast : e.act.fails = false := hok e (List.mem_append_right _ List.mem_cons_self)
  refine ⟨fun o o' h h' ho ho' hopen hopen' => ⟨?_, ?_⟩, ?_, fun o h ho hopen => ?_⟩
  · rintro rfl
    rcases hkey : (e.pre.handle h).key with _ | k
    · exact Or.inl (hs.kept.alone o o' h ho ho' hkey)
    · exact Or.inr ⟨k, rfl, rfl⟩
  · rintro (rfl | ⟨k, hkey, hkey'⟩)
    · exact Option.some.inj (ho.symm.trans ho')
    · have hget := (hs.kept.files k h).mpr ⟨hs.kept.held o h ho, hkey, hopen⟩
      have hget' := (hs.kept.files k h').mpr ⟨hs.kept.held o' h' ho', hkey', hopen'⟩
      exact Option.some.inj (hget.symm.trans hget')
  · intro o raises h hclose ho
    rw [hclose] at hlast hstep
    obtain rfl : raises = false := hlast
    exact close_spec hs.kept ho (show e.pre.step abspath (.close o false) = some e.post from hstep)
  · rcases hkey : (e.pre.handle h).key with _ | k
    · -- a `:memory:` database stays open
      refine iff_of_false ?_ ?_
      · rw [Bool.not_eq_true]
        refine (hs.kept.step hlast hstep).memory h ?_
        rcases step_cases hs.kept hlast hstep with ⟨path, -, hpost⟩ | ⟨-, -, hw⟩
        · rw [hpost, (connect_key (hs.kept.held o h ho)).2, hkey]
        · rw [hw.key, hkey]
      · rintro ⟨k, path, hnone, -⟩
        cases hnone
    · have hget := (hs.kept.files k h).mpr ⟨hs.kept.held o h ho, hkey, hopen⟩
      rw [hs.retired_iff hlast hstep hget]
      constructor
      · rintro ⟨path, hwhen⟩
        exact ⟨k, path, rfl, hwhen⟩
      · rintro ⟨k', path, hsame, hwhen⟩
        cases hsame
        exact ⟨path, hwhen⟩

/-- Nine files are connected, and nobody closes the first. -/
def nineFiles : List (Action ℕ) :=
  [py "a", py "b", py "c", py "d", py "e", py "f", py "g", py "h", py "i"].map .connect

theorem shared_handles_nine :
    (((machine ℕ id).final Thread.new nineFiles).handle 0).retired = true := by
  have hrun : (machine ℕ id).Run Thread.new ((machine ℕ id).events Thread.new nineFiles)
      ((machine ℕ id).final Thread.new nineFiles) := Machine.Run.of_final rfl
  have hclosed := (shared_handles id ((machine ℕ id).events Thread.new (nineFiles.take 8)) [] _
    hrun (by decide)).2.2 0 0 rfl rfl
  exact hclosed.mpr ⟨py "a", py "i", rfl, rfl, by decide, by decide⟩

/-- Whether an owner that closes is the last that connected and has not closed. -/
def Thread.innermost (s : Thread W) : Action W → Bool
  | .close o _ => (List.range s.connects).all fun o' => o' ≤ o || (s.owner o').isNone
  | _ => true

/-- An owner connects to the file of another, and closes. -/
def innerClose : List (Action ℕ) :=
  [.connect (py "a"), .execute 0 1, .connect (py "a"), .close 1 false]

/-- An inner `close` rolls back what the outer owner of the file executed, and the ninth file
really closes the handle that the owner of the first still holds. -/
theorem inner_close_undoes :
    (¬ ∀ (es : List (Machine.Event (Thread ℕ) (Action ℕ))) (t : Thread ℕ),
      (machine ℕ id).Run Thread.new es t → (∀ e ∈ es, e.pre.innermost e.act = true) →
      ∀ e ∈ es, ∀ o o' raises h w, e.act = .close o raises → o' ≠ o → e.pre.owner o' = some h →
        (o', w) ∈ (e.pre.handle h).pending → (o', w) ∈ (e.post.handle h).pending) ∧
    ¬ ∀ (es : List (Machine.Event (Thread ℕ) (Action ℕ))) (t : Thread ℕ),
      (machine ℕ id).Run Thread.new es t → (∀ e ∈ es, e.pre.innermost e.act = true) →
      ∀ e ∈ es, ∀ o h, e.post.owner o = some h → (e.pre.handle h).retired = false →
        (e.post.handle h).retired = false := by
  constructor
  · intro hclaim
    have hrun : (machine ℕ id).Run Thread.new ((machine ℕ id).events Thread.new innerClose)
        ((machine ℕ id).final Thread.new innerClose) := Machine.Run.of_final rfl
    have hmem := List.mem_of_getElem? (i := 3)
      (l := (machine ℕ id).events Thread.new innerClose) rfl
    have hkept := hclaim _ _ hrun (by decide) _ hmem 1 0 false 0 1 rfl (by decide) rfl (by decide)
    exact absurd hkept (by decide)
  · intro hclaim
    have hrun : (machine ℕ id).Run Thread.new ((machine ℕ id).events Thread.new nineFiles)
        ((machine ℕ id).final Thread.new nineFiles) := Machine.Run.of_final rfl
    have hmem := List.mem_of_getElem? (i := 8)
      (l := (machine ℕ id).events Thread.new nineFiles) rfl
    have hkept := hclaim _ _ hrun (by decide) _ hmem 0 0 rfl rfl
    exact absurd hkept (by decide)

end SharedHandles

end LayaWatch
