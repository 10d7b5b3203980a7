import LayaWatch.Http
import LayaWatch.Lib.Dict
import Mathlib.Data.List.Dedup
import Mathlib.Data.List.Induction
import Mathlib.Data.List.Sort

/-!
# The router

`Router` of `http/router.py`: a table of exact patterns and one of the patterns that end in
`*`, both in the order of registration. `_match` looks a path up in the first, then goes
through the second for the longest stem that the path starts with.

Which table a path gets is told by the registrations alone (`Chosen`): of two stems of the
same length only one can start the path. So the order of the calls of `add` does not show
(`routing_unordered`).
-/

namespace LayaWatch

universe u

/-- A call of `add`. -/
structure Registration (H : Type u) where
  /-- `method` -/
  method : PyStr
  /-- `pattern` -/
  pattern : PyStr
  /-- `handler` -/
  handler : H

/-- `Router`. -/
structure Router (H : Type u) where
  /-- `_exact` -/
  exact : Dict PyStr (Dict PyStr H) := .empty
  /-- `_prefixes` -/
  prefixes : Dict PyStr (Dict PyStr H) := .empty

/-- What `_route` does with a request. -/
inductive Routed (H : Type u) where
  /-- `handler(request)` -/
  | handled (handler : H)
  /-- `handler(request)`, and the body is dropped -/
  | headed (handler : H)
  /-- `empty_response(204)` with `Allow` -/
  | allowed (allow : PyStr)
  /-- `error_response`, with `Allow` if it is a 405 -/
  | refused (e : HttpError) (allow : Option PyStr)

namespace Router

variable {H : Type u}

/-- `pattern.endswith("*")`. -/
def isWildcard (pattern : PyStr) : Bool := pattern.getLast? = some (CodePoint.ofChar '*')

/-- `pattern[:-1]`. -/
def stem (pattern : PyStr) : PyStr := pattern.dropLast

/-- The table that a pattern is in. -/
def table (r : Router H) (pattern : PyStr) : Dict PyStr (Dict PyStr H) :=
  if isWildcard pattern then r.prefixes else r.exact

section

variable (upper : PyStr → PyStr)

/-- `add`, with `_methods_for`. -/
def add (r : Router H) (reg : Registration H) : Router H :=
  let methods := ((r.table reg.pattern).get reg.pattern).getD .empty
  let methods := methods.set (upper reg.method) reg.handler
  if isWildcard reg.pattern then { r with prefixes := r.prefixes.set reg.pattern methods }
  else { r with exact := r.exact.set reg.pattern methods }

/-- A router after some calls of `add`. -/
def build (regs : List (Registration H)) : Router H := regs.foldl (add upper) {}

end

/-- One turn of the loop of `_match`. -/
def better (path : PyStr) (best : Option (Dict PyStr H) × ℤ) (entry : PyStr × Dict PyStr H) :
    Option (Dict PyStr H) × ℤ :=
  if best.2 < (stem entry.1).length ∧ (stem entry.1).isPrefixOf path then
    (some entry.2, (stem entry.1).length)
  else best

/-- `_match`. -/
def matched (r : Router H) (path : PyStr) : Option (Dict PyStr H) :=
  match r.exact.get path with
  | some methods => some methods
  | none => (r.prefixes.entries.foldl (better path) (none, -1)).1

/-- `sorted(set(names))`. -/
def sortedSet (names : List PyStr) : List PyStr := names.dedup.insertionSort (· ≤ ·)

/-- `_allow`. -/
def allow (methods : Dict PyStr H) : PyStr :=
  let names := methods.keys ++ (if py "GET" ∈ methods.keys then [py "HEAD"] else []) ++
    [py "OPTIONS"]
  (py ", ").intercalate (sortedSet names)

/-- `_not_allowed`. -/
def notAllowed (method : PyStr) (methods : Dict PyStr H) : Routed H :=
  .refused { status := 405
             code := py "method_not_allowed"
             message := [.text (py "method "), .str method, .text (py " not allowed")] }
    (some (allow methods))

/-- `_route`, of a path that has a table. -/
def respond (upper : PyStr → PyStr) (methods : Dict PyStr H) (method : PyStr) : Routed H :=
  if upper method = py "OPTIONS" then
    match methods.get (py "OPTIONS") with
    | some handler => .handled handler
    | none => .allowed (allow methods)
  else if upper method = py "HEAD" then
    match (methods.get (py "HEAD")).or (methods.get (py "GET")) with
    | some handler => .headed handler
    | none => notAllowed method methods
  else
    match methods.get (upper method) with
    | some handler => .handled handler
    | none => notAllowed method methods

/-- The 404 of `_route`. -/
def notFound (method path : PyStr) : Routed H :=
  .refused { status := 404
             code := py "not_found"
             message := [.text (py "no route for "), .str method, .text (py " "), .str path] }
    none

/-- `_route`. -/
def route (upper : PyStr → PyStr) (r : Router H) (method path : PyStr) : Routed H :=
  match r.matched path with
  | none => notFound method path
  | some methods => respond upper methods method

/-! ## What is registered -/

section

variable {upper : PyStr → PyStr} {regs regs' : List (Registration H)} {path pattern : PyStr}

/-- A table has the handlers that were registered for a pattern. -/
def HasTable (upper : PyStr → PyStr) (regs : List (Registration H)) (pattern : PyStr)
    (methods : Dict PyStr H) : Prop :=
  ∀ m h, methods.get m = some h ↔
    ∃ reg ∈ regs, reg.pattern = pattern ∧ upper reg.method = m ∧ reg.handler = h

/-- The tables of a router are those of what was registered. -/
structure Built (upper : PyStr → PyStr) (regs : List (Registration H)) (r : Router H) : Prop where
  /-- a pattern has a table if it was registered -/
  registered : ∀ pattern, (r.table pattern).get pattern = none ↔
    ∀ reg ∈ regs, reg.pattern ≠ pattern
  /-- and the table is its own -/
  tables : ∀ pattern methods, (r.table pattern).get pattern = some methods →
    HasTable upper regs pattern methods
  /-- exact patterns do not end in `*` -/
  exact : ∀ pattern ∈ r.exact.keys, isWildcard pattern = false
  /-- the others do -/
  prefixes : ∀ pattern ∈ r.prefixes.keys, isWildcard pattern = true

/-- What a pattern has after a call of `add`. -/
theorem get_add (r : Router H) (reg : Registration H) (pattern : PyStr) :
    ((r.add upper reg).table pattern).get pattern =
      if pattern = reg.pattern then
        some ((((r.table pattern).get pattern).getD .empty).set (upper reg.method) reg.handler)
      else (r.table pattern).get pattern := by
  by_cases hsame : pattern = reg.pattern
  · subst hsame
    rw [if_pos rfl]
    cases hwild : isWildcard reg.pattern with
    | true => simp [add, table, hwild]
    | false => simp [add, table, hwild]
  · rw [if_neg hsame]
    cases hwild : isWildcard reg.pattern with
    | true =>
      cases hwild' : isWildcard pattern with
      | true => simp [add, table, hwild, hwild', Dict.get_set_ne _ _ hsame]
      | false => simp [add, table, hwild, hwild']
    | false =>
      cases hwild' : isWildcard pattern with
      | true => simp [add, table, hwild, hwild']
      | false => simp [add, table, hwild, hwild', Dict.get_set_ne _ _ hsame]

theorem Built.init : Built upper [] ({} : Router H) := by
  have hget : ∀ pattern, (({} : Router H).table pattern).get pattern = none := by
    intro pattern
    unfold table
    split
    · rfl
    · rfl
  constructor
  case registered =>
    exact fun pattern => iff_of_true (hget pattern) fun _ h => absurd h List.not_mem_nil
  case tables =>
    intro pattern methods h
    rw [hget] at h
    cases h
  case exact => exact fun _ h => absurd h List.not_mem_nil
  case prefixes => exact fun _ h => absurd h List.not_mem_nil

/-- A call of `add` registers one more handler, if its method is new to the pattern. -/
theorem Built.add {r : Router H} {reg : Registration H} (h : Built upper regs r)
    (hnew : ∀ old ∈ regs, old.pattern = reg.pattern → upper old.method ≠ upper reg.method) :
    Built upper (regs ++ [reg]) (r.add upper reg) := by
  constructor
  case registered =>
    intro pattern
    rw [get_add, List.forall_mem_append, List.forall_mem_singleton]
    by_cases hsame : pattern = reg.pattern
    · rw [if_pos hsame]
      exact iff_of_false (Option.some_ne_none _) fun hall => hall.2 hsame.symm
    · rw [if_neg hsame, h.registered]
      exact (and_iff_left (Ne.symm hsame)).symm
  case tables =>
    intro pattern methods hget
    rw [get_add] at hget
    by_cases hsame : pattern = reg.pattern
    · rw [if_pos hsame] at hget
      obtain rfl := Option.some.inj hget
      subst hsame
      -- what the pattern had so far: nothing, or the table of the earlier registrations
      have hold : HasTable upper regs reg.pattern
          (((r.table reg.pattern).get reg.pattern).getD .empty) := by
        cases hget : (r.table reg.pattern).get reg.pattern with
        | some methods => exact h.tables _ _ hget
        | none =>
          refine fun m handler => iff_of_false (fun hm => nomatch hm) ?_
          rintro ⟨old, hmem, hpattern, -⟩
          exact (h.registered _).mp hget old hmem hpattern
      intro m handler
      by_cases hm : m = upper reg.method
      · subst hm
        rw [Dict.get_set_self]
        constructor
        · intro hhandler
          exact ⟨reg, List.mem_append_right _ List.mem_cons_self, rfl, rfl,
            Option.some.inj hhandler⟩
        · rintro ⟨old, hmem, hpattern, hmethod, hhandler⟩
          rcases List.mem_append.mp hmem with hmem | hmem
          · exact absurd hmethod (hnew old hmem hpattern)
          · rw [List.mem_singleton.mp hmem] at hhandler
            rw [hhandler]
      · rw [Dict.get_set_ne _ _ hm, hold m handler]
        constructor
        · rintro ⟨old, hmem, hrest⟩
          exact ⟨old, List.mem_append_left _ hmem, hrest⟩
        · rintro ⟨old, hmem, hpattern, hmethod, hhandler⟩
          rcases List.mem_append.mp hmem with hmem | hmem
          · exact ⟨old, hmem, hpattern, hmethod, hhandler⟩
          · rw [List.mem_singleton.mp hmem] at hmethod
            exact absurd hmethod.symm hm
    · rw [if_neg hsame] at hget
      intro m handler
      rw [h.tables _ _ hget m handler]
      constructor
      · rintro ⟨old, hmem, hrest⟩
        exact ⟨old, List.mem_append_left _ hmem, hrest⟩
      · rintro ⟨old, hmem, hpattern, hrest⟩
        rcases List.mem_append.mp hmem with hmem | hmem
        · exact ⟨old, hmem, hpattern, hrest⟩
        · rw [List.mem_singleton.mp hmem] at hpattern
          exact absurd hpattern.symm hsame
  case exact =>
    intro pattern hmem
    unfold Router.add at hmem
    cases hwild : isWildcard reg.pattern with
    | true =>
      simp only [hwild, if_true] at hmem
      exact h.exact pattern hmem
    | false =>
      simp only [hwild, Bool.false_eq_true, if_false] at hmem
      rcases Dict.mem_keys_set.mp hmem with rfl | hmem
      · exact hwild
      · exact h.exact pattern hmem
  case prefixes =>
    intro pattern hmem
    unfold Router.add at hmem
    cases hwild : isWildcard reg.pattern with
    | true =>
      simp only [hwild, if_true] at hmem
      rcases Dict.mem_keys_set.mp hmem with rfl | hmem
      · exact hwild
      · exact h.prefixes pattern hmem
    | false =>
      simp only [hwild, Bool.false_eq_true, if_false] at hmem
      exact h.prefixes pattern hmem

/-- **A router has the tables of what was registered.** -/
theorem built (hdistinct : (regs.map fun reg => (upper reg.method, reg.pattern)).Nodup) :
    Built upper regs (build upper regs) := by
  induction regs using List.reverseRecOn with
  | nil => exact .init
  | append_singleton regs reg ih =>
    rw [List.map_append, List.nodup_append] at hdistinct
    obtain ⟨hdistinct, -, hnew⟩ := hdistinct
    rw [build, List.foldl_append]
    refine (ih hdistinct).add fun old hold hpattern hmethod => ?_
    refine hnew _ (List.mem_map_of_mem hold) _ (List.mem_singleton_self _) ?_
    rw [hpattern, hmethod]

/-! ## The table of a path -/

/-- A pattern was registered. -/
def Registered (regs : List (Registration H)) (pattern : PyStr) : Prop :=
  ∃ reg ∈ regs, reg.pattern = pattern

/-- A path was registered as it is. -/
def RegisteredExactly (regs : List (Registration H)) (path : PyStr) : Prop :=
  Registered regs path ∧ isWildcard path = false

/-- A pattern that ends in `*` was registered, and its stem starts the path. -/
structure Starts (regs : List (Registration H)) (path pattern : PyStr) : Prop where
  /-- it was registered -/
  registered : Registered regs pattern
  /-- it ends in `*` -/
  wildcard : isWildcard pattern = true
  /-- its stem starts the path -/
  start : stem pattern <+: path

/-- The pattern whose table a path gets. -/
inductive Chosen (regs : List (Registration H)) (path : PyStr) : PyStr → Prop where
  /-- the path itself -/
  | exact (hexact : RegisteredExactly regs path) : Chosen regs path path
  /-- else the longest that starts it -/
  | longest {pattern : PyStr} (hexact : ¬RegisteredExactly regs path)
      (hstarts : Starts regs path pattern)
      (hlongest : ∀ other, Starts regs path other →
        (stem other).length ≤ (stem pattern).length) : Chosen regs path pattern

/-- No pattern matches a path. -/
structure Unmatched (regs : List (Registration H)) (path : PyStr) : Prop where
  /-- it was not registered -/
  exact : ¬RegisteredExactly regs path
  /-- and nothing that ends in `*` starts it -/
  starts : ∀ pattern, ¬Starts regs path pattern

/-- A pattern that ends in `*` is told by its stem. -/
theorem stem_injective {pattern other : PyStr} (h : isWildcard pattern = true)
    (h' : isWildcard other = true) (hstem : stem pattern = stem other) : pattern = other := by
  have hlast : ∀ p : PyStr, isWildcard p = true → stem p ++ [CodePoint.ofChar '*'] = p := by
    intro p hp
    exact List.dropLast_append_getLast? _ (of_decide_eq_true hp)
  rw [← hlast pattern h, ← hlast other h', hstem]

/-- Two stems of the same length that start one path are the same. -/
theorem Starts.unique {pattern other : PyStr} (h : Starts regs path pattern)
    (h' : Starts regs path other) (hlength : (stem pattern).length = (stem other).length) :
    pattern = other := by
  have hprefix : stem pattern <+: stem other :=
    List.prefix_of_prefix_length_le h.start h'.start hlength.le
  exact stem_injective h.wildcard h'.wildcard (List.IsPrefix.eq_of_length hprefix hlength)

/-- A path gets the table of one pattern at most. -/
theorem Chosen.unique {pattern other : PyStr} (h : Chosen regs path pattern)
    (h' : Chosen regs path other) : pattern = other := by
  cases h with
  | exact hexact =>
    cases h' with
    | exact _ => rfl
    | longest hexact' _ _ => exact absurd hexact hexact'
  | longest hexact hstarts hlongest =>
    cases h' with
    | exact hexact' => exact absurd hexact' hexact
    | longest _ hstarts' hlongest' =>
      exact hstarts.unique hstarts'
        (Nat.le_antisymm (hlongest' _ hstarts) (hlongest _ hstarts'))

theorem Unmatched.not_chosen (h : Unmatched regs path) : ¬Chosen regs path pattern := by
  intro hchosen
  cases hchosen with
  | exact hexact => exact h.exact hexact
  | longest _ hstarts _ => exact h.starts _ hstarts

/-! ## The loop of `_match` -/

/-- What the loop has found among the entries that it has seen. -/
inductive Found (path : PyStr) (entries : List (PyStr × Dict PyStr H)) :
    Option (Dict PyStr H) × ℤ → Prop where
  /-- no stem starts the path -/
  | nothing (hnone : ∀ entry ∈ entries, ¬stem entry.1 <+: path) : Found path entries (none, -1)
  /-- the entry with the longest stem that does -/
  | longest {entry : PyStr × Dict PyStr H} (hmem : entry ∈ entries)
      (hstart : stem entry.1 <+: path)
      (hlongest : ∀ other ∈ entries, stem other.1 <+: path →
        (stem other.1).length ≤ (stem entry.1).length) :
      Found path entries (some entry.2, (stem entry.1).length)

/-- One turn of the loop. -/
theorem Found.better {entries : List (PyStr × Dict PyStr H)} {best : Option (Dict PyStr H) × ℤ}
    (h : Found path entries best) (entry : PyStr × Dict PyStr H) :
    Found path (entries ++ [entry]) (better path best entry) := by
  unfold Router.better
  by_cases hstart : stem entry.1 <+: path
  · have hstart' : (stem entry.1).isPrefixOf path = true := List.isPrefixOf_iff_prefix.mpr hstart
    cases h with
    | nothing hnone =>
      rw [if_pos ⟨by simp only [Int.reduceNeg]; omega, hstart'⟩]
      refine .longest (List.mem_append_right _ List.mem_cons_self) hstart ?_
      intro other hmem hother
      rcases List.mem_append.mp hmem with hmem | hmem
      · exact absurd hother (hnone other hmem)
      · rw [List.mem_singleton.mp hmem]
    | @longest longest hmem hlongestStart hlongest =>
      by_cases hlonger : (stem longest.1).length < (stem entry.1).length
      · rw [if_pos ⟨Int.ofNat_lt.mpr hlonger, hstart'⟩]
        refine .longest (List.mem_append_right _ List.mem_cons_self) hstart ?_
        intro other hother hotherStart
        rcases List.mem_append.mp hother with hother | hother
        · exact (hlongest other hother hotherStart).trans hlonger.le
        · rw [List.mem_singleton.mp hother]
      · rw [if_neg fun hand => hlonger (Int.ofNat_lt.mp hand.1)]
        refine .longest (List.mem_append_left _ hmem) hlongestStart ?_
        intro other hother hotherStart
        rcases List.mem_append.mp hother with hother | hother
        · exact hlongest other hother hotherStart
        · rw [List.mem_singleton.mp hother]
          exact Nat.le_of_not_lt hlonger
  · rw [if_neg fun hand => hstart (List.isPrefixOf_iff_prefix.mp hand.2)]
    cases h with
    | nothing hnone =>
      refine .nothing fun other hmem => ?_
      rcases List.mem_append.mp hmem with hmem | hmem
      · exact hnone other hmem
      · rwa [List.mem_singleton.mp hmem]
    | longest hmem hlongestStart hlongest =>
      refine .longest (List.mem_append_left _ hmem) hlongestStart ?_
      intro other hother hotherStart
      rcases List.mem_append.mp hother with hother | hother
      · exact hlongest other hother hotherStart
      · rw [List.mem_singleton.mp hother] at hotherStart
        exact absurd hotherStart hstart

/-- The loop. -/
theorem found (path : PyStr) (entries : List (PyStr × Dict PyStr H)) :
    Found path entries (entries.foldl (Router.better path) (none, -1)) := by
  induction entries using List.reverseRecOn with
  | nil => exact .nothing fun _ h => absurd h List.not_mem_nil
  | append_singleton entries entry ih =>
    rw [List.foldl_append]
    exact ih.better entry

/-! ## `_match` -/

theorem Built.registered_iff {r : Router H} (h : Built upper regs r) :
    Registered regs pattern ↔ ∃ methods, (r.table pattern).get pattern = some methods := by
  rw [← Option.ne_none_iff_exists', ne_eq, h.registered]
  simp only [Registered, not_forall, not_not, exists_prop]

/-- The exact patterns are the keys of `_exact`. -/
theorem Built.exactly_iff {r : Router H} (h : Built upper regs r) :
    RegisteredExactly regs path ↔ ∃ methods, r.exact.get path = some methods := by
  constructor
  · rintro ⟨hregistered, hwild⟩
    obtain ⟨methods, hget⟩ := h.registered_iff.mp hregistered
    rw [table, hwild, if_neg Bool.false_ne_true] at hget
    exact ⟨methods, hget⟩
  · rintro ⟨methods, hget⟩
    have hwild : isWildcard path = false := h.exact path (Dict.mem_keys.mpr ⟨methods, hget⟩)
    refine ⟨h.registered_iff.mpr ⟨methods, ?_⟩, hwild⟩
    rw [table, hwild, if_neg Bool.false_ne_true]
    exact hget

/-- The patterns that end in `*` are the keys of `_prefixes`. -/
theorem Built.starts_iff {r : Router H} (h : Built upper regs r) :
    Starts regs path pattern ↔
      ∃ methods, (pattern, methods) ∈ r.prefixes.entries ∧ stem pattern <+: path := by
  constructor
  · rintro ⟨hregistered, hwild, hstart⟩
    obtain ⟨methods, hget⟩ := h.registered_iff.mp hregistered
    rw [table, hwild, if_pos rfl] at hget
    exact ⟨methods, Dict.get_eq_some.mp hget, hstart⟩
  · rintro ⟨methods, hmem, hstart⟩
    have hget : r.prefixes.get pattern = some methods := Dict.get_eq_some.mpr hmem
    have hwild : isWildcard pattern = true := h.prefixes pattern (Dict.mem_keys.mpr ⟨methods, hget⟩)
    refine ⟨h.registered_iff.mpr ⟨methods, ?_⟩, hwild, hstart⟩
    rw [table, hwild, if_pos rfl]
    exact hget

/-- `_match` gives a path the table of the chosen pattern, or nothing matches. -/
theorem matched_cases {r : Router H} (h : Built upper regs r) (path : PyStr) :
    (∃ pattern methods, Chosen regs path pattern ∧ HasTable upper regs pattern methods ∧
      r.matched path = some methods) ∨
    (Unmatched regs path ∧ r.matched path = none) := by
  cases hget : r.exact.get path with
  | some methods =>
    have hexact : RegisteredExactly regs path := h.exactly_iff.mpr ⟨methods, hget⟩
    refine .inl ⟨path, methods, .exact hexact, h.tables path methods ?_, by simp [matched, hget]⟩
    rw [table, hexact.2, if_neg Bool.false_ne_true]
    exact hget
  | none =>
    have hexact : ¬RegisteredExactly regs path := by
      intro hexact
      obtain ⟨methods, hsome⟩ := h.exactly_iff.mp hexact
      rw [hget] at hsome
      cases hsome
    have hmatched : r.matched path = (r.prefixes.entries.foldl (better path) (none, -1)).1 := by
      simp [matched, hget]
    rw [hmatched]
    have hfound := found path r.prefixes.entries
    revert hfound
    generalize r.prefixes.entries.foldl (better path) (none, -1) = best
    intro hfound
    cases hfound with
    | nothing hnone =>
      refine .inr ⟨⟨hexact, fun pattern hstarts => ?_⟩, rfl⟩
      obtain ⟨methods, hmem, hstart⟩ := h.starts_iff.mp hstarts
      exact hnone _ hmem hstart
    | @longest entry hmem hstart hlongest =>
      have hstarts : Starts regs path entry.1 := h.starts_iff.mpr ⟨entry.2, hmem, hstart⟩
      refine .inl ⟨entry.1, entry.2, .longest hexact hstarts ?_, h.tables entry.1 entry.2 ?_, rfl⟩
      · intro other hother
        obtain ⟨methods, hmem', hstart'⟩ := h.starts_iff.mp hother
        exact hlongest _ hmem' hstart'
      · rw [table, hstarts.wildcard, if_pos rfl]
        exact Dict.get_eq_some.mpr hmem

/-! ## Another order of the registrations -/

theorem starts_perm (hperm : regs.Perm regs') :
    Starts regs path pattern ↔ Starts regs' path pattern := by
  have hregistered : Registered regs pattern ↔ Registered regs' pattern := by
    simp only [Registered, hperm.mem_iff]
  exact ⟨fun h => ⟨hregistered.mp h.1, h.2, h.3⟩, fun h => ⟨hregistered.mpr h.1, h.2, h.3⟩⟩

theorem registeredExactly_perm (hperm : regs.Perm regs') :
    RegisteredExactly regs path ↔ RegisteredExactly regs' path := by
  simp only [RegisteredExactly, Registered, hperm.mem_iff]

theorem Chosen.perm (h : Chosen regs path pattern) (hperm : regs.Perm regs') :
    Chosen regs' path pattern := by
  cases h with
  | exact hexact => exact .exact ((registeredExactly_perm hperm).mp hexact)
  | longest hexact hstarts hlongest =>
    refine .longest (mt (registeredExactly_perm hperm).mpr hexact)
      ((starts_perm hperm).mp hstarts) fun other hother => ?_
    exact hlongest other ((starts_perm hperm).mpr hother)

theorem HasTable.perm {methods : Dict PyStr H} (h : HasTable upper regs pattern methods)
    (hperm : regs.Perm regs') : HasTable upper regs' pattern methods := by
  intro m handler
  rw [h m handler]
  simp only [hperm.mem_iff]

/-- Two tables of one pattern answer alike. -/
theorem HasTable.get_eq {methods methods' : Dict PyStr H}
    (h : HasTable upper regs pattern methods) (h' : HasTable upper regs pattern methods')
    (m : PyStr) : methods.get m = methods'.get m := by
  apply Option.ext
  intro handler
  rw [h m handler, h' m handler]

/-- `sorted(set(names))` does not see the order of the names. -/
theorem sortedSet_congr {names names' : List PyStr} (h : ∀ name, name ∈ names ↔ name ∈ names') :
    sortedSet names = sortedSet names' := by
  unfold sortedSet
  have hperm : names.dedup.Perm names'.dedup := by
    rw [List.perm_ext_iff_of_nodup (List.nodup_dedup _) (List.nodup_dedup _)]
    simpa only [List.mem_dedup] using h
  apply List.Perm.eq_of_pairwise' (r := (· ≤ ·))
  · exact List.pairwise_insertionSort _ _
  · exact List.pairwise_insertionSort _ _
  · exact ((List.perm_insertionSort _ _).trans hperm).trans (List.perm_insertionSort _ _).symm

theorem allow_congr {methods methods' : Dict PyStr H}
    (h : ∀ m, methods.get m = methods'.get m) : allow methods = allow methods' := by
  have hkeys : ∀ m, m ∈ methods.keys ↔ m ∈ methods'.keys := by
    intro m
    rw [Dict.mem_keys, Dict.mem_keys, h m]
  have hhead : (if py "GET" ∈ methods.keys then [py "HEAD"] else []) =
      if py "GET" ∈ methods'.keys then [py "HEAD"] else [] := if_congr (hkeys _) rfl rfl
  unfold allow
  simp only [hhead]
  congr 1
  apply sortedSet_congr
  intro name
  simp only [List.mem_append, hkeys]

/-- What is done with a request depends on the handlers of the table alone. -/
theorem respond_congr {methods methods' : Dict PyStr H}
    (h : ∀ m, methods.get m = methods'.get m) (method : PyStr) :
    respond upper methods method = respond upper methods' method := by
  simp only [respond, notAllowed, h, allow_congr h]

end

/-- **Routing does not depend on the order of the registrations.** A path gets the table of the
pattern that is the path, else of the longest stem that starts it, else a 404. -/
theorem routing_unordered (upper : PyStr → PyStr) (regs regs' : List (Registration H))
    (hdistinct : (regs.map fun reg => (upper reg.method, reg.pattern)).Nodup)
    (hperm : regs.Perm regs') (method path : PyStr) :
    ((∃ pattern methods, Chosen regs path pattern ∧ HasTable upper regs pattern methods ∧
        route upper (build upper regs) method path = respond upper methods method) ∨
      (Unmatched regs path ∧
        route upper (build upper regs) method path = notFound method path)) ∧
    route upper (build upper regs') method path = route upper (build upper regs) method path := by
  have hbuilt : Built upper regs (build upper regs) := built hdistinct
  have hbuilt' : Built upper regs' (build upper regs') :=
    built ((hperm.map _).nodup_iff.mp hdistinct)
  -- what matches is chosen by the registrations, and both routers have the same
  rcases matched_cases hbuilt path with
    ⟨pattern, methods, hchosen, htable, hmatched⟩ | ⟨hunmatched, hmatched⟩
  · have hroute : route upper (build upper regs) method path = respond upper methods method := by
      simp [route, hmatched]
    refine ⟨.inl ⟨pattern, methods, hchosen, htable, hroute⟩, ?_⟩
    rcases matched_cases hbuilt' path with
      ⟨pattern', methods', hchosen', htable', hmatched'⟩ | ⟨hunmatched', -⟩
    · have hpattern : pattern' = pattern := (hchosen'.perm hperm.symm).unique hchosen
      subst hpattern
      rw [hroute, ← respond_congr (htable'.get_eq (htable.perm hperm))]
      simp [route, hmatched']
    · exact absurd (hchosen.perm hperm) hunmatched'.not_chosen
  · have hroute : route upper (build upper regs) method path = notFound method path := by
      simp [route, hmatched]
    refine ⟨.inr ⟨hunmatched, hroute⟩, ?_⟩
    rcases matched_cases hbuilt' path with
      ⟨pattern', methods', hchosen', -, -⟩ | ⟨-, hmatched'⟩
    · exact absurd (hchosen'.perm hperm.symm) hunmatched.not_chosen
    · rw [hroute]
      simp [route, hmatched']

/-- The mount of the shell, added before the API or after it. -/
theorem routing_unordered_shell :
    route id (build id [⟨py "GET", py "/api/*", 1⟩, ⟨py "GET", py "/*", 0⟩])
        (py "GET") (py "/api/x") =
      route id (build id [⟨py "GET", py "/*", 0⟩, ⟨py "GET", py "/api/*", 1⟩])
        (py "GET") (py "/api/x") ∧
    route id (build id [⟨py "GET", py "/*", 0⟩, ⟨py "GET", py "/api/*", 1⟩])
        (py "GET") (py "/api/x") = .handled 1 :=
  ⟨(routing_unordered id [⟨py "GET", py "/*", 0⟩, ⟨py "GET", py "/api/*", 1⟩] _
    (by decide) (List.Perm.swap _ _ []) (py "GET") (py "/api/x")).2, rfl⟩

end Router

end LayaWatch
