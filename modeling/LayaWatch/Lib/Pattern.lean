import Mathlib.Data.List.Infix

/-!
# Patterns

Regular patterns with tests of the neighbouring characters, matched by backtracking:
a pattern has a list of ends for each place in a text, in the order in which they are
tried, and the first of them is the match (`Pattern.find`). `Pattern.sub` replaces the
matches from left to right. (The patterns for it match no empty text.)

Texts are lists of anything that has a character, so that a text may carry marks.
What `sub` leaves of a text is `Clean` of what the pattern matches (`sub_cleans`), and
stays clean of other texts (`sub_keeps`), up to what a replacement makes possible
right after it.
-/

universe u v

/-- A pattern over the characters `σ`. -/
inductive Pattern (σ : Type u) where
  /-- the empty text -/
  | empty
  /-- a test of the characters before and after a place -/
  | look (test : Option σ → Option σ → Bool)
  /-- a character -/
  | one (test : σ → Bool)
  /-- at least `low` characters, as many as possible -/
  | many (low : ℕ) (test : σ → Bool)
  /-- one after the other -/
  | seq (p q : Pattern σ)
  /-- one or the other, the first if possible -/
  | alt (p q : Pattern σ)
  /-- any number of times, as often as possible -/
  | star (p : Pattern σ)

namespace Pattern

variable {σ : Type u} {α : Type v}

/-- A place in a text. -/
structure Place (σ : Type u) where
  /-- the character before it -/
  prev : Option σ
  /-- what follows -/
  rest : List σ

/-! ## Matching -/

/-- The ends of a greedy repetition of a character. -/
def manyEnds (test : σ → Bool) : ℕ → Option σ → List σ → List (Place σ)
  | low, prev, [] => if low = 0 then [⟨prev, []⟩] else []
  | low, prev, c :: rest =>
    (if test c then manyEnds test (low - 1) (some c) rest else []) ++
      if low = 0 then [⟨prev, c :: rest⟩] else []

/-- The ends of a greedy repetition that gets on with each round. -/
def starEnds (round : Place σ → List (Place σ)) : ℕ → Place σ → List (Place σ)
  | 0, start => [start]
  | n + 1, start =>
    ((round start).flatMap fun next =>
      if next.rest.length < start.rest.length then starEnds round n next else []) ++ [start]

/-- The ends of the matches at a place, in the order in which they are tried. -/
def ends : Pattern σ → Place σ → List (Place σ)
  | empty, start => [start]
  | look test, start => if test start.prev start.rest.head? then [start] else []
  | one test, start =>
    match start.rest with
    | [] => []
    | c :: rest => if test c then [⟨some c, rest⟩] else []
  | many low test, start => manyEnds test low start.prev start.rest
  | seq p q, start => (p.ends start).flatMap q.ends
  | alt p q, start => p.ends start ++ q.ends start
  | star p, start => starEnds p.ends start.rest.length start

/-- Where the match at a place ends. -/
def find (p : Pattern σ) (start : Place σ) : Option (Place σ) := (p.ends start).head?

/-- The pattern matches `m` after `prev`. -/
def Matches (p : Pattern σ) (prev : Option σ) (m : List σ) : Prop :=
  ∃ stop ∈ p.ends ⟨prev, m⟩, stop.rest = []

instance [DecidableEq σ] (p : Pattern σ) (prev : Option σ) (m : List σ) :
    Decidable (p.Matches prev m) := inferInstanceAs (Decidable (∃ _ ∈ _, _))

/-- The pattern tests no neighbours. -/
def Free : Pattern σ → Bool
  | look _ => false
  | seq p q | alt p q => p.Free && q.Free
  | star p => p.Free
  | _ => true

/-- The pattern tests no neighbours but those of its first place. -/
def Anchored : Pattern σ → Bool
  | seq (look _) q => q.Free
  | alt p q => p.Anchored && q.Anchored
  | p => p.Free

/-! ## What an end is -/

/-- The last character of a text, or the one before it. -/
def lastOr (prev : Option σ) (m : List σ) : Option σ := m.getLast?.or prev

@[simp] theorem lastOr_nil (prev : Option σ) : lastOr prev [] = prev := rfl

theorem lastOr_cons (prev : Option σ) (c : σ) (m : List σ) :
    lastOr prev (c :: m) = lastOr (some c) m := by
  unfold lastOr
  rw [List.getLast?_cons]
  cases m.getLast? with
  | none => rfl
  | some d => rfl

theorem lastOr_append (prev : Option σ) (m m' : List σ) :
    lastOr prev (m ++ m') = lastOr (lastOr prev m) m' := by
  induction m generalizing prev with
  | nil => rfl
  | cons c m ih => rw [List.cons_append, lastOr_cons, lastOr_cons, ih]

/-- The text from `start` to `stop`. -/
def Reads (start stop : Place σ) (m : List σ) : Prop :=
  start.rest = m ++ stop.rest ∧ stop.prev = lastOr start.prev m

theorem Reads.trans {start mid stop : Place σ} {m m' : List σ} (h : Reads start mid m)
    (h' : Reads mid stop m') : Reads start stop (m ++ m') := by
  refine ⟨?_, ?_⟩
  · rw [h.1, h'.1, List.append_assoc]
  · rw [h'.2, h.2, lastOr_append]

/-- A match consists of the characters `C`. -/
def Within (C : σ → Prop) : Pattern σ → Prop
  | one test | many _ test => ∀ c, test c = true → C c
  | seq p q | alt p q => p.Within C ∧ q.Within C
  | star p => p.Within C
  | _ => True

theorem manyEnds_within {C : σ → Prop} {test : σ → Bool} (h : ∀ c, test c = true → C c)
    (rest : List σ) : ∀ (low : ℕ) (prev : Option σ), ∀ stop ∈ manyEnds test low prev rest,
      ∃ m, Reads ⟨prev, rest⟩ stop m ∧ ∀ c ∈ m, C c := by
  induction rest with
  | nil =>
    intro low prev stop hstop
    unfold manyEnds at hstop
    split at hstop
    · rw [List.mem_singleton.mp hstop]
      exact ⟨[], ⟨rfl, rfl⟩, List.forall_mem_nil C⟩
    · cases hstop
  | cons c rest ih =>
    intro low prev stop hstop
    unfold manyEnds at hstop
    rcases List.mem_append.mp hstop with hmore | hhere
    · split at hmore
      next htest =>
        obtain ⟨m, hm, hC⟩ := ih _ _ stop hmore
        exact ⟨c :: m, ⟨congrArg (c :: ·) hm.1, hm.2.trans (lastOr_cons prev c m).symm⟩,
          List.forall_mem_cons.mpr ⟨h c htest, hC⟩⟩
      next => cases hmore
    · split at hhere
      · rw [List.mem_singleton.mp hhere]
        exact ⟨[], ⟨rfl, rfl⟩, List.forall_mem_nil C⟩
      · cases hhere

theorem starEnds_within {C : σ → Prop} {round : Place σ → List (Place σ)}
    (hround : ∀ start, ∀ stop ∈ round start, ∃ m, Reads start stop m ∧ ∀ c ∈ m, C c) :
    ∀ (n : ℕ) (start : Place σ), ∀ stop ∈ starEnds round n start,
      ∃ m, Reads start stop m ∧ ∀ c ∈ m, C c := by
  intro n
  induction n with
  | zero =>
    intro start stop hstop
    rw [List.mem_singleton.mp hstop]
    exact ⟨[], ⟨rfl, rfl⟩, List.forall_mem_nil C⟩
  | succ n ih =>
    intro start stop hstop
    unfold starEnds at hstop
    rcases List.mem_append.mp hstop with hmore | hhere
    · obtain ⟨next, hnext, hmore⟩ := List.mem_flatMap.mp hmore
      split at hmore
      · obtain ⟨m, hm, hC⟩ := hround start next hnext
        obtain ⟨m', hm', hC'⟩ := ih next stop hmore
        exact ⟨m ++ m', hm.trans hm', List.forall_mem_append.mpr ⟨hC, hC'⟩⟩
      · cases hmore
    · rw [List.mem_singleton.mp hhere]
      exact ⟨[], ⟨rfl, rfl⟩, List.forall_mem_nil C⟩

/-- A match reads a text of its characters. -/
theorem ends_within {C : σ → Prop} {p : Pattern σ} (h : p.Within C) : ∀ start,
    ∀ stop ∈ p.ends start, ∃ m, Reads start stop m ∧ ∀ c ∈ m, C c := by
  induction p with
  | empty =>
    intro start stop hstop
    rw [List.mem_singleton.mp hstop]
    exact ⟨[], ⟨rfl, rfl⟩, List.forall_mem_nil C⟩
  | look test =>
    intro start stop hstop
    unfold ends at hstop
    split at hstop
    · rw [List.mem_singleton.mp hstop]
      exact ⟨[], ⟨rfl, rfl⟩, List.forall_mem_nil C⟩
    · cases hstop
  | one test =>
    rintro ⟨prev, rest⟩ stop hstop
    cases rest with
    | nil => cases hstop
    | cons c rest =>
      simp only [ends] at hstop
      split at hstop
      next htest =>
        rw [List.mem_singleton.mp hstop]
        exact ⟨[c], ⟨rfl, rfl⟩, List.forall_mem_singleton.mpr (h c htest)⟩
      next => cases hstop
  | many low test => exact fun start stop hstop => manyEnds_within h _ low _ stop hstop
  | seq p q ihp ihq =>
    intro start stop hstop
    obtain ⟨mid, hmid, hstop⟩ := List.mem_flatMap.mp hstop
    obtain ⟨m, hm, hC⟩ := ihp h.1 start mid hmid
    obtain ⟨m', hm', hC'⟩ := ihq h.2 mid stop hstop
    exact ⟨m ++ m', hm.trans hm', List.forall_mem_append.mpr ⟨hC, hC'⟩⟩
  | alt p q ihp ihq =>
    intro start stop hstop
    rcases List.mem_append.mp hstop with hstop | hstop
    · exact ihp h.1 start stop hstop
    · exact ihq h.2 start stop hstop
  | star p ih => exact fun start stop hstop => starEnds_within (ih h) _ start stop hstop

theorem within_true (p : Pattern σ) : p.Within fun _ => True := by
  induction p with
  | one test => exact fun _ _ => trivial
  | many low test => exact fun _ _ => trivial
  | seq p q ihp ihq => exact ⟨ihp, ihq⟩
  | alt p q ihp ihq => exact ⟨ihp, ihq⟩
  | star p ih => exact ih
  | _ => trivial

/-- A match reads a text. -/
theorem ends_reads (p : Pattern σ) (start stop : Place σ) (h : stop ∈ p.ends start) :
    ∃ m, Reads start stop m := by
  obtain ⟨m, hm, -⟩ := ends_within p.within_true start stop h
  exact ⟨m, hm⟩

/-! ## Longer texts -/

theorem mem_manyEnds_zero (test : σ → Bool) (prev : Option σ) (rest : List σ) :
    ⟨prev, rest⟩ ∈ manyEnds test 0 prev rest := by
  cases rest with
  | nil => exact List.mem_singleton.mpr rfl
  | cons c rest => exact List.mem_append_right _ (List.mem_singleton.mpr rfl)

theorem mem_starEnds_start (round : Place σ → List (Place σ)) (n : ℕ) (start : Place σ) :
    start ∈ starEnds round n start := by
  cases n with
  | zero => exact List.mem_singleton.mpr rfl
  | succ n => exact List.mem_append_right _ (List.mem_singleton.mpr rfl)

theorem manyEnds_extend (test : σ → Bool) (t : List σ) (rest : List σ) :
    ∀ (low : ℕ) (prev prev' : Option σ), ∀ stop ∈ manyEnds test low prev rest,
      ∃ stop' ∈ manyEnds test low prev' (rest ++ t), stop'.rest = stop.rest ++ t := by
  induction rest with
  | nil =>
    intro low prev prev' stop hstop
    unfold manyEnds at hstop
    split at hstop
    next hlow =>
      rw [List.mem_singleton.mp hstop, hlow]
      exact ⟨⟨prev', t⟩, mem_manyEnds_zero test prev' t, rfl⟩
    next => cases hstop
  | cons c rest ih =>
    intro low prev prev' stop hstop
    unfold manyEnds at hstop
    rcases List.mem_append.mp hstop with hmore | hhere
    · split at hmore
      next htest =>
        obtain ⟨stop', hstop', hrest⟩ := ih _ _ (some c) stop hmore
        refine ⟨stop', List.mem_append_left _ ?_, hrest⟩
        rwa [if_pos htest]
      next => cases hmore
    · split at hhere
      next hlow =>
        rw [List.mem_singleton.mp hhere, hlow]
        exact ⟨⟨prev', c :: rest ++ t⟩, mem_manyEnds_zero test prev' _, rfl⟩
      next => cases hhere

theorem starEnds_extend {round : Place σ → List (Place σ)} {t : List σ}
    (hround : ∀ start start' : Place σ, start'.rest = start.rest ++ t → ∀ stop ∈ round start,
      ∃ stop' ∈ round start', stop'.rest = stop.rest ++ t) :
    ∀ (n n' : ℕ) (start start' : Place σ), n ≤ n' → start'.rest = start.rest ++ t →
      ∀ stop ∈ starEnds round n start,
        ∃ stop' ∈ starEnds round n' start', stop'.rest = stop.rest ++ t := by
  intro n
  induction n with
  | zero =>
    intro n' start start' _ hrest stop hstop
    rw [List.mem_singleton.mp hstop]
    exact ⟨start', mem_starEnds_start round n' start', hrest⟩
  | succ n ih =>
    intro n' start start' hn hrest stop hstop
    obtain ⟨n', rfl⟩ : ∃ k, n' = k + 1 := ⟨n' - 1, by omega⟩
    unfold starEnds at hstop
    rcases List.mem_append.mp hstop with hmore | hhere
    · obtain ⟨next, hnext, hmore⟩ := List.mem_flatMap.mp hmore
      split at hmore
      next hless =>
        obtain ⟨next', hnext', hnrest⟩ := hround start start' hrest next hnext
        obtain ⟨stop', hstop', hsrest⟩ := ih n' next next' (by omega) hnrest stop hmore
        refine ⟨stop', List.mem_append_left _ (List.mem_flatMap.mpr ⟨next', hnext', ?_⟩), hsrest⟩
        rw [if_pos]
        · exact hstop'
        · rw [hnrest, hrest, List.length_append, List.length_append]
          omega
      next => cases hmore
    · rw [List.mem_singleton.mp hhere]
      exact ⟨start', mem_starEnds_start round _ start', hrest⟩

/-- A pattern without tests of neighbours matches in any surroundings. -/
theorem ends_extend {p : Pattern σ} (hfree : p.Free = true) (t : List σ) :
    ∀ start start' : Place σ, start'.rest = start.rest ++ t → ∀ stop ∈ p.ends start,
      ∃ stop' ∈ p.ends start', stop'.rest = stop.rest ++ t := by
  induction p with
  | empty =>
    intro start start' hrest stop hstop
    rw [List.mem_singleton.mp hstop]
    exact ⟨start', List.mem_singleton.mpr rfl, hrest⟩
  | look test => cases hfree
  | one test =>
    rintro ⟨prev, rest⟩ ⟨prev', rest'⟩ hrest stop hstop
    cases rest with
    | nil => cases hstop
    | cons c rest =>
      obtain rfl : rest' = c :: (rest ++ t) := hrest
      simp only [ends] at hstop ⊢
      split at hstop
      next htest =>
        rw [List.mem_singleton.mp hstop, if_pos htest]
        exact ⟨⟨some c, rest ++ t⟩, List.mem_singleton.mpr rfl, rfl⟩
      next => cases hstop
  | many low test =>
    rintro ⟨prev, rest⟩ ⟨prev', rest'⟩ hrest stop hstop
    obtain rfl : rest' = rest ++ t := hrest
    exact manyEnds_extend test t rest low prev prev' stop hstop
  | seq p q ihp ihq =>
    intro start start' hrest stop hstop
    obtain ⟨hp, hq⟩ := Bool.and_eq_true_iff.mp hfree
    obtain ⟨mid, hmid, hstop⟩ := List.mem_flatMap.mp hstop
    obtain ⟨mid', hmid', hmrest⟩ := ihp hp start start' hrest mid hmid
    obtain ⟨stop', hstop', hsrest⟩ := ihq hq mid mid' hmrest stop hstop
    exact ⟨stop', List.mem_flatMap.mpr ⟨mid', hmid', hstop'⟩, hsrest⟩
  | alt p q ihp ihq =>
    intro start start' hrest stop hstop
    obtain ⟨hp, hq⟩ := Bool.and_eq_true_iff.mp hfree
    rcases List.mem_append.mp hstop with hstop | hstop
    · obtain ⟨stop', hstop', hsrest⟩ := ihp hp start start' hrest stop hstop
      exact ⟨stop', List.mem_append_left _ hstop', hsrest⟩
    · obtain ⟨stop', hstop', hsrest⟩ := ihq hq start start' hrest stop hstop
      exact ⟨stop', List.mem_append_right _ hstop', hsrest⟩
  | star p ih =>
    intro start start' hrest stop hstop
    refine starEnds_extend (ih hfree) _ _ start start' ?_ hrest stop hstop
    rw [hrest, List.length_append]
    exact Nat.le_add_right _ _

/-! ## Shorter texts -/

theorem manyEnds_cut (test : σ → Bool) (t : List σ) (s : List σ) :
    ∀ (low : ℕ) (prev prev' : Option σ), ∀ stop ∈ manyEnds test low prev (s ++ t),
      t.length ≤ stop.rest.length →
        ∃ stop' ∈ manyEnds test low prev' s, stop.rest = stop'.rest ++ t := by
  induction s with
  | nil =>
    intro low prev prev' stop hstop hlen
    rw [List.nil_append] at hstop
    -- a longer match would leave less than `t`
    have hall : ∀ rest, rest.length < t.length → stop ∉ manyEnds test (low - 1) prev rest ∧
        ∀ c, stop ∉ manyEnds test (low - 1) (some c) rest := by
      have hshort : ∀ low prev rest, rest.length < t.length →
          stop ∉ manyEnds test low prev rest := by
        intro low prev rest hless hmem
        obtain ⟨m, hm, -⟩ := manyEnds_within (C := fun _ => True) (fun _ _ => trivial) rest low prev
          stop hmem
        have hlength := congrArg List.length hm.1
        rw [List.length_append] at hlength
        dsimp only at hlength
        omega
      exact fun rest hless => ⟨hshort _ _ rest hless, fun c => hshort _ _ rest hless⟩
    have hhere : stop ∈ if low = 0 then [(⟨prev, t⟩ : Place σ)] else [] := by
      cases t with
      | nil => exact hstop
      | cons c t =>
        refine (List.mem_append.mp hstop).resolve_left fun hmore => ?_
        split at hmore
        · exact (hall t (Nat.lt_succ_self _)).2 c hmore
        · cases hmore
    split at hhere
    next hlow =>
      rw [List.mem_singleton.mp hhere, hlow]
      exact ⟨⟨prev', []⟩, mem_manyEnds_zero test prev' [], rfl⟩
    next => cases hhere
  | cons c s ih =>
    intro low prev prev' stop hstop hlen
    rcases List.mem_append.mp hstop with hmore | hhere
    · split at hmore
      next htest =>
        obtain ⟨stop', hstop', hrest⟩ := ih _ _ (some c) stop hmore hlen
        refine ⟨stop', List.mem_append_left _ ?_, hrest⟩
        rwa [if_pos htest]
      next => cases hmore
    · split at hhere
      next hlow =>
        rw [List.mem_singleton.mp hhere, hlow]
        exact ⟨⟨prev', c :: s⟩, mem_manyEnds_zero test prev' _, rfl⟩
      next => cases hhere

theorem starEnds_cut {round : Place σ → List (Place σ)} {t : List σ}
    (hreads : ∀ start, ∀ stop ∈ round start, ∃ m, Reads start stop m ∧ ∀ c ∈ m, True)
    (hround : ∀ (start start' : Place σ), start.rest = start'.rest ++ t → ∀ stop ∈ round start,
      t.length ≤ stop.rest.length → ∃ stop' ∈ round start', stop.rest = stop'.rest ++ t) :
    ∀ (n n' : ℕ) (start start' : Place σ), start'.rest.length ≤ n' →
      start.rest = start'.rest ++ t → ∀ stop ∈ starEnds round n start,
        t.length ≤ stop.rest.length →
          ∃ stop' ∈ starEnds round n' start', stop.rest = stop'.rest ++ t := by
  intro n
  induction n with
  | zero =>
    intro n' start start' _ hrest stop hstop _
    rw [List.mem_singleton.mp hstop]
    exact ⟨start', mem_starEnds_start round n' start', hrest⟩
  | succ n ih =>
    intro n' start start' hn hrest stop hstop hlen
    unfold starEnds at hstop
    rcases List.mem_append.mp hstop with hmore | hhere
    · obtain ⟨next, hnext, hmore⟩ := List.mem_flatMap.mp hmore
      split at hmore
      next hless =>
        obtain ⟨m, hm, -⟩ := starEnds_within hreads n next stop hmore
        have hlength := congrArg List.length hm.1
        rw [List.length_append] at hlength
        obtain ⟨next', hnext', hnrest⟩ := hround start start' hrest next hnext (by omega)
        have hless' : next'.rest.length < start'.rest.length := by
          rw [hnrest, hrest, List.length_append, List.length_append] at hless
          omega
        obtain ⟨n', rfl⟩ : ∃ k, n' = k + 1 := ⟨n' - 1, by omega⟩
        obtain ⟨stop', hstop', hsrest⟩ := ih n' next next' (by omega) hnrest stop hmore hlen
        refine ⟨stop', List.mem_append_left _ (List.mem_flatMap.mpr ⟨next', hnext', ?_⟩), hsrest⟩
        rwa [if_pos hless']
      next => cases hmore
    · rw [List.mem_singleton.mp hhere]
      exact ⟨start', mem_starEnds_start round _ start', hrest⟩

/-- A match of a pattern without tests of neighbours needs nothing of what follows it. -/
theorem ends_cut {p : Pattern σ} (hfree : p.Free = true) (t : List σ) :
    ∀ start start' : Place σ, start.rest = start'.rest ++ t → ∀ stop ∈ p.ends start,
      t.length ≤ stop.rest.length → ∃ stop' ∈ p.ends start', stop.rest = stop'.rest ++ t := by
  induction p with
  | empty =>
    intro start start' hrest stop hstop _
    rw [List.mem_singleton.mp hstop]
    exact ⟨start', List.mem_singleton.mpr rfl, hrest⟩
  | look test => cases hfree
  | one test =>
    rintro ⟨prev, rest⟩ ⟨prev', rest'⟩ hrest stop hstop hlen
    cases rest with
    | nil => cases hstop
    | cons c rest =>
      simp only [ends] at hstop
      split at hstop
      next htest =>
        obtain rfl := List.mem_singleton.mp hstop
        cases rest' with
        | nil =>
          have hlength : (c :: rest).length = t.length := congrArg List.length hrest
          rw [List.length_cons] at hlength
          dsimp only at hlen
          omega
        | cons d rest' =>
          obtain ⟨rfl, htail⟩ := List.cons.inj hrest
          refine ⟨⟨some c, rest'⟩, ?_, htail⟩
          simp only [ends, if_pos htest]
          exact List.mem_singleton.mpr rfl
      next => cases hstop
  | many low test =>
    rintro ⟨prev, rest⟩ ⟨prev', rest'⟩ hrest stop hstop hlen
    obtain rfl : rest = rest' ++ t := hrest
    exact manyEnds_cut test t rest' low prev prev' stop hstop hlen
  | seq p q ihp ihq =>
    intro start start' hrest stop hstop hlen
    obtain ⟨hp, hq⟩ := Bool.and_eq_true_iff.mp hfree
    obtain ⟨mid, hmid, hlast⟩ := List.mem_flatMap.mp hstop
    obtain ⟨m, hm⟩ := ends_reads q mid stop hlast
    have hlength := congrArg List.length hm.1
    rw [List.length_append] at hlength
    obtain ⟨mid', hmid', hmrest⟩ := ihp hp start start' hrest mid hmid (by omega)
    obtain ⟨stop', hstop', hsrest⟩ := ihq hq mid mid' hmrest stop hlast hlen
    exact ⟨stop', List.mem_flatMap.mpr ⟨mid', hmid', hstop'⟩, hsrest⟩
  | alt p q ihp ihq =>
    intro start start' hrest stop hstop hlen
    obtain ⟨hp, hq⟩ := Bool.and_eq_true_iff.mp hfree
    rcases List.mem_append.mp hstop with hstop | hstop
    · obtain ⟨stop', hstop', hsrest⟩ := ihp hp start start' hrest stop hstop hlen
      exact ⟨stop', List.mem_append_left _ hstop', hsrest⟩
    · obtain ⟨stop', hstop', hsrest⟩ := ihq hq start start' hrest stop hstop hlen
      exact ⟨stop', List.mem_append_right _ hstop', hsrest⟩
  | star p ih =>
    intro start start' hrest stop hstop hlen
    refine starEnds_cut (fun start stop hstop => ?_) (ih hfree) _ _ start start' le_rfl hrest stop
      hstop hlen
    exact ends_within p.within_true start stop hstop

/-- What is found is matched. -/
theorem matches_of_find {p : Pattern σ} (hfree : p.Free = true) {prev : Option σ} {s : List σ}
    {stop : Place σ} (hfind : p.find ⟨prev, s⟩ = some stop) :
    ∃ m, s = m ++ stop.rest ∧ ∀ prev', p.Matches prev' m := by
  have hstop := List.mem_of_mem_head? hfind
  obtain ⟨m, hm⟩ := ends_reads p _ stop hstop
  refine ⟨m, hm.1, fun prev' => ?_⟩
  obtain ⟨stop', hstop', hrest⟩ := ends_cut hfree stop.rest _ ⟨prev', m⟩ hm.1 stop hstop le_rfl
  exact ⟨stop', hstop', List.append_left_eq_self.mp hrest.symm⟩

/-- The match of a pattern without tests of neighbours does not depend on what is before. -/
theorem Matches.after {p : Pattern σ} (hfree : p.Free = true) {prev : Option σ} {m : List σ}
    (h : p.Matches prev m) (prev' : Option σ) : p.Matches prev' m := by
  obtain ⟨stop, hstop, hnil⟩ := h
  obtain ⟨stop', hstop', hrest⟩ := ends_extend hfree [] ⟨prev, m⟩ ⟨prev', m⟩
    (List.append_nil m).symm stop hstop
  exact ⟨stop', hstop', by rw [hrest, hnil]; rfl⟩

theorem matches_alt {p q : Pattern σ} {prev : Option σ} {m : List σ} :
    (alt p q).Matches prev m ↔ p.Matches prev m ∨ q.Matches prev m := by
  constructor
  · rintro ⟨stop, hstop, hnil⟩
    exact (List.mem_append.mp hstop).imp (fun h => ⟨stop, h, hnil⟩) fun h => ⟨stop, h, hnil⟩
  · rintro (⟨stop, hstop, hnil⟩ | ⟨stop, hstop, hnil⟩)
    · exact ⟨stop, List.mem_append_left _ hstop, hnil⟩
    · exact ⟨stop, List.mem_append_right _ hstop, hnil⟩

theorem matches_look {test : Option σ → Option σ → Bool} {q : Pattern σ} {prev : Option σ}
    {m : List σ} :
    (seq (look test) q).Matches prev m ↔ test prev m.head? = true ∧ q.Matches prev m := by
  constructor
  · rintro ⟨stop, hstop, hnil⟩
    obtain ⟨mid, hmid, hlast⟩ := List.mem_flatMap.mp hstop
    have hmid' : mid ∈ if test prev m.head? then [(⟨prev, m⟩ : Place σ)] else [] := hmid
    split at hmid'
    next htest =>
      rw [List.mem_singleton.mp hmid'] at hlast
      exact ⟨htest, stop, hlast, hnil⟩
    next => cases hmid'
  · rintro ⟨htest, stop, hstop, hnil⟩
    have hhere : (look test).ends ⟨prev, m⟩ = [⟨prev, m⟩] := if_pos htest
    refine ⟨stop, List.mem_flatMap.mpr ⟨⟨prev, m⟩, ?_, hstop⟩, hnil⟩
    rw [hhere]
    exact List.mem_singleton.mpr rfl

/-- A pattern that tests no later neighbour is found wherever it matches a text. -/
theorem find_of_matches {p : Pattern σ} (hanchored : p.Anchored = true) {prev : Option σ}
    {c : σ} {m : List σ} (h : p.Matches prev (c :: m)) (t : List σ) :
    p.find ⟨prev, c :: m ++ t⟩ ≠ none := by
  suffices hmem : ∃ stop, stop ∈ p.ends ⟨prev, c :: m ++ t⟩ by
    obtain ⟨stop, hstop⟩ := hmem
    intro hnone
    rw [find, List.head?_eq_none_iff] at hnone
    rw [hnone] at hstop
    cases hstop
  have hfree : ∀ {p : Pattern σ}, p.Free = true → p.Matches prev (c :: m) →
      ∃ stop, stop ∈ p.ends ⟨prev, c :: m ++ t⟩ := by
    rintro p hp ⟨stop, hstop, -⟩
    obtain ⟨stop', hstop', -⟩ := ends_extend hp t ⟨prev, c :: m⟩ ⟨prev, c :: m ++ t⟩ rfl stop hstop
    exact ⟨stop', hstop'⟩
  induction p with
  | alt p q ihp ihq =>
    obtain ⟨hp, hq⟩ := Bool.and_eq_true_iff.mp hanchored
    obtain ⟨stop, hstop, hnil⟩ := h
    rcases List.mem_append.mp hstop with hstop | hstop
    · obtain ⟨stop', hstop'⟩ := ihp hp ⟨stop, hstop, hnil⟩
      exact ⟨stop', List.mem_append_left _ hstop'⟩
    · obtain ⟨stop', hstop'⟩ := ihq hq ⟨stop, hstop, hnil⟩
      exact ⟨stop', List.mem_append_right _ hstop'⟩
  | seq p q _ _ =>
    cases p with
    | look test =>
      obtain ⟨stop, hstop, hnil⟩ := h
      obtain ⟨mid, hmid, hstop⟩ := List.mem_flatMap.mp hstop
      -- the test sees the same two characters
      have hmid' : mid ∈ (look test).ends ⟨prev, c :: m⟩ := hmid
      unfold ends at hmid'
      split at hmid'
      next htest =>
        rw [List.mem_singleton.mp hmid'] at hstop
        obtain ⟨stop', hstop'⟩ := hfree hanchored ⟨stop, hstop, hnil⟩
        have hhere : (look test).ends ⟨prev, c :: m ++ t⟩ = [⟨prev, c :: m ++ t⟩] := if_pos htest
        refine ⟨stop', List.mem_flatMap.mpr ⟨⟨prev, c :: m ++ t⟩, ?_, hstop'⟩⟩
        rw [hhere]
        exact List.mem_singleton.mpr rfl
      next => cases hmid'
    | _ => exact hfree hanchored h
  | _ => exact hfree hanchored h

/-! ## Where matches start and stop -/

/-- A match starts with one of the characters `C`. -/
def StartsIn (C : σ → Prop) : Pattern σ → Prop
  | one test => ∀ c, test c = true → C c
  | many low test => 0 < low ∧ ∀ c, test c = true → C c
  | seq (look _) q | seq empty q => q.StartsIn C
  | seq p _ => p.StartsIn C
  | alt p q => p.StartsIn C ∧ q.StartsIn C
  | _ => False

theorem starts {C : σ → Prop} {p : Pattern σ} (h : p.StartsIn C) {start stop : Place σ}
    (hstop : stop ∈ p.ends start) : ∃ c m, C c ∧ Reads start stop (c :: m) := by
  induction p generalizing stop with
  | one test =>
    obtain ⟨prev, rest⟩ := start
    cases rest with
    | nil => cases hstop
    | cons c rest =>
      simp only [ends] at hstop
      split at hstop
      next htest =>
        rw [List.mem_singleton.mp hstop]
        exact ⟨c, [], h c htest, rfl, rfl⟩
      next => cases hstop
  | many low test =>
    obtain ⟨prev, rest⟩ := start
    obtain ⟨low, rfl⟩ : ∃ k, low = k + 1 := ⟨low - 1, by have := h.1; omega⟩
    cases rest with
    | nil => cases hstop
    | cons c rest =>
      have hmore : stop ∈ if test c then manyEnds test (low + 1 - 1) (some c) rest else [] :=
        (List.mem_append.mp hstop).resolve_right List.not_mem_nil
      split at hmore
      next htest =>
        obtain ⟨m, hm, -⟩ := manyEnds_within h.2 rest _ _ stop hmore
        exact ⟨c, m, h.2 c htest, congrArg (c :: ·) hm.1, hm.2.trans (lastOr_cons prev c m).symm⟩
      next => cases hmore
  | seq p q ihp ihq =>
    obtain ⟨mid, hmid, hlast⟩ := List.mem_flatMap.mp hstop
    cases p with
    | look test =>
      have hmid' : mid ∈ if test start.prev start.rest.head? then [start] else [] := hmid
      split at hmid'
      next =>
        rw [List.mem_singleton.mp hmid'] at hlast
        exact ihq h hlast
      next => cases hmid'
    | empty =>
      rw [List.mem_singleton.mp hmid] at hlast
      exact ihq h hlast
    | _ =>
      obtain ⟨c, m, hc, hm⟩ := ihp h hmid
      obtain ⟨m', hm'⟩ := ends_reads q mid stop hlast
      exact ⟨c, m ++ m', hc, hm.trans hm'⟩
  | alt p q ihp ihq =>
    rcases List.mem_append.mp hstop with hstop | hstop
    · exact ihp h.1 hstop
    · exact ihq h.2 hstop
  | _ => exact h.elim

theorem Matches.starts {C : σ → Prop} {p : Pattern σ} (h : p.StartsIn C) {prev : Option σ}
    {m : List σ} (hm : p.Matches prev m) : ∃ c rest, m = c :: rest ∧ C c := by
  obtain ⟨stop, hstop, -⟩ := hm
  obtain ⟨c, rest, hc, hreads⟩ := Pattern.starts h hstop
  exact ⟨c, rest ++ stop.rest, hreads.1, hc⟩

/-- After a match that is found comes none of the characters `C`. -/
def StopsAt (C : σ → Prop) : Pattern σ → Prop
  | look test => ∀ prev c, test prev (some c) = true → ¬C c
  | many _ test => ∀ c, C c → test c = true
  | seq _ q => q.StopsAt C
  | alt p q => p.StopsAt C ∧ q.StopsAt C
  | _ => False

/-- A greedy repetition that is not refused takes all it can. -/
theorem manyEnds_greedy {test : σ → Bool} (rest : List σ) : ∀ {low : ℕ} {prev : Option σ}
    {stop : Place σ}, (manyEnds test low prev rest).head? = some stop →
      ∀ c, stop.rest.head? = some c → test c = false := by
  induction rest with
  | nil =>
    intro low prev stop hstop c hc
    unfold manyEnds at hstop
    split at hstop
    · obtain rfl := Option.some.inj hstop
      cases hc
    · cases hstop
  | cons d rest ih =>
    intro low prev stop hstop c hc
    unfold manyEnds at hstop
    cases htest : test d with
    | true =>
      rw [if_pos htest, List.head?_append] at hstop
      rcases hmore : (manyEnds test (low - 1) (some d) rest).head? with _ | stop'
      · -- no more is possible only when too few are left
        rw [hmore, Option.none_or] at hstop
        split at hstop
        next hlow =>
          rw [hlow, List.head?_eq_none_iff] at hmore
          have hzero := mem_manyEnds_zero test (some d) rest
          rw [hmore] at hzero
          cases hzero
        next => cases hstop
      · rw [hmore, Option.some_or] at hstop
        exact ih (hmore.trans hstop) c hc
    | false =>
      rw [if_neg (by rw [htest]; exact Bool.false_ne_true), List.nil_append] at hstop
      split at hstop
      · obtain rfl := Option.some.inj hstop
        exact Option.some.inj hc ▸ htest
      · cases hstop

theorem exists_of_head?_flatMap {β γ : Type*} {l : List β} {f : β → List γ} {c : γ}
    (h : (l.flatMap f).head? = some c) : ∃ b ∈ l, (f b).head? = some c := by
  induction l with
  | nil => cases h
  | cons b l ih =>
    rw [List.flatMap_cons, List.head?_append] at h
    rcases hb : (f b).head? with _ | d
    · rw [hb, Option.none_or] at h
      obtain ⟨b', hb', hc⟩ := ih h
      exact ⟨b', List.mem_cons_of_mem b hb', hc⟩
    · rw [hb, Option.some_or] at h
      exact ⟨b, List.mem_cons_self .., hb.trans h⟩

theorem stops {C : σ → Prop} {p : Pattern σ} (h : p.StopsAt C) {start stop : Place σ}
    (hfind : p.find start = some stop) : ∀ c, stop.rest.head? = some c → ¬C c := by
  unfold find at hfind
  induction p generalizing start stop with
  | look test =>
    intro c hc
    simp only [ends] at hfind
    split at hfind
    next htest =>
      obtain rfl := Option.some.inj hfind
      exact h start.prev c (hc ▸ htest)
    next => cases hfind
  | many low test =>
    intro c hc hC
    have hgreedy := manyEnds_greedy start.rest hfind c hc
    rw [h c hC] at hgreedy
    cases hgreedy
  | seq p q _ ihq =>
    obtain ⟨mid, -, hstop⟩ := exists_of_head?_flatMap hfind
    exact ihq h hstop
  | alt p q ihp ihq =>
    simp only [ends] at hfind
    rw [List.head?_append] at hfind
    rcases hp : (p.ends start).head? with _ | stop'
    · rw [hp, Option.none_or] at hfind
      exact ihq h.2 hfind
    · rw [hp, Option.some_or] at hfind
      exact ihp h.1 (hp.trans hfind)
  | _ => exact h.elim

/-! ## Replacing matches -/

/-- Replace the matches after a place, with fuel for the length of the text. -/
def subFuel (p : Pattern σ) (code : α → σ) (replace : List α → List α) :
    ℕ → Option σ → List α → List α
  | 0, _, text => text
  | _ + 1, _, [] => []
  | n + 1, prev, a :: rest =>
    match p.find ⟨prev, (a :: rest).map code⟩ with
    | none => a :: subFuel p code replace n (some (code a)) rest
    | some stop =>
      replace ((a :: rest).take ((a :: rest).length - stop.rest.length)) ++
        subFuel p code replace n stop.prev
          ((a :: rest).drop ((a :: rest).length - stop.rest.length))

/-- Replace the matches of a text. -/
def sub (p : Pattern σ) (code : α → σ) (replace : List α → List α) (text : List α) : List α :=
  subFuel p code replace text.length none text

section

variable {p : Pattern σ} {code : α → σ} {replace : List α → List α} {n : ℕ} {prev : Option σ}
variable {a : α} {rest text : List α}

theorem subFuel_none (h : p.find ⟨prev, (a :: rest).map code⟩ = none) :
    subFuel p code replace (n + 1) prev (a :: rest) =
      a :: subFuel p code replace n (some (code a)) rest := by
  rw [subFuel, h]

variable (replace n) in
/-- A match splits the text. -/
theorem subFuel_some {stop : Place σ} (h : p.find ⟨prev, (a :: rest).map code⟩ = some stop) :
    ∃ found left, a :: rest = found ++ left ∧ left.map code = stop.rest ∧
      stop.prev = lastOr prev (found.map code) ∧
      subFuel p code replace (n + 1) prev (a :: rest) =
        replace found ++ subFuel p code replace n stop.prev left := by
  obtain ⟨m, hm⟩ := p.ends_reads _ stop (List.mem_of_mem_head? (by rw [← find, h]; rfl))
  obtain ⟨hrest, hprev⟩ := hm
  have hrest : (a :: rest).map code = m ++ stop.rest := hrest
  have hlen : (a :: rest).length - stop.rest.length = m.length := by
    have hlength := congrArg List.length hrest
    rw [List.length_map, List.length_append] at hlength
    omega
  refine ⟨(a :: rest).take m.length, (a :: rest).drop m.length,
    (List.take_append_drop m.length (a :: rest)).symm, ?_, ?_, ?_⟩
  · rw [List.map_drop, hrest, List.drop_left]
  · rw [List.map_take, hrest, List.take_left]
    exact hprev
  · rw [subFuel, h]
    simp only [hlen]

/-- Where nothing is found, nothing is replaced. -/
theorem sub_of_none (h : ∀ prev s, s <:+ text.map code → p.find ⟨prev, s⟩ = none) :
    p.sub code replace text = text := by
  have hfuel : ∀ (n : ℕ) (prev : Option σ) (text : List α),
      (∀ prev s, s <:+ text.map code → p.find ⟨prev, s⟩ = none) →
        subFuel p code replace n prev text = text := by
    intro n
    induction n with
    | zero => exact fun _ _ _ => rfl
    | succ n ih =>
      intro prev text h
      cases text with
      | nil => rfl
      | cons a rest =>
        rw [subFuel_none (h prev _ List.suffix_rfl), ih _ rest fun prev s hs =>
          h prev s (hs.trans (List.suffix_cons _ _))]
  exact hfuel text.length none text h

/-- Replacing in a text with marks is replacing in the text. -/
theorem code_sub (replace' : List σ → List σ)
    (hreplace : ∀ found, (replace found).map code = replace' (found.map code)) (text : List α) :
    (p.sub code replace text).map code = p.sub id replace' (text.map code) := by
  have hfuel : ∀ (n : ℕ) (prev : Option σ) (text : List α),
      (subFuel p code replace n prev text).map code =
        subFuel p id replace' n prev (text.map code) := by
    intro n
    induction n with
    | zero => exact fun _ _ => rfl
    | succ n ih =>
      intro prev text
      cases text with
      | nil => rfl
      | cons a rest =>
        rw [List.map_cons]
        rcases hfind : p.find ⟨prev, code a :: rest.map code⟩ with _ | stop
        · have hfind' : p.find ⟨prev, (code a :: rest.map code).map id⟩ = none := by
            rw [List.map_id, hfind]
          rw [subFuel_none hfind, subFuel_none hfind', List.map_cons, ih]
          rfl
        · have hfind' : p.find ⟨prev, (code a :: rest.map code).map id⟩ = some stop := by
            rw [List.map_id, hfind]
          have hmap : p.find ⟨prev, (a :: rest).map code⟩ = some stop := hfind
          rw [subFuel, subFuel, hmap, hfind']
          simp only [List.map_append, hreplace, ih, List.map_take, List.map_drop, List.map_cons,
            List.length_cons, List.length_map]
  unfold sub
  rw [hfuel, List.length_map]

end

/-! ## Clean texts -/

section

variable {code : α → σ} {marked : α → Bool} {bad : Option σ → List σ → Prop} {last : σ}
variable {prev prev' : Option σ} {text left : List α}

/-- No bad run of marked characters starts a text. -/
def Spared (code : α → σ) (marked : α → Bool) (bad : Option σ → List σ → Prop)
    (prev : Option σ) (text : List α) : Prop :=
  ∀ m, m ≠ [] → m <+: text → (∀ b ∈ m, marked b = true) → ¬bad prev (m.map code)

/-- No run of marked characters in a text is bad. -/
def Clean (code : α → σ) (marked : α → Bool) (bad : Option σ → List σ → Prop) :
    Option σ → List α → Prop
  | _, [] => True
  | prev, a :: text =>
    Spared code marked bad prev (a :: text) ∧ Clean code marked bad (some (code a)) text

theorem spared_nil : Spared code marked bad prev [] :=
  fun _ hne hm => absurd (List.prefix_nil.mp hm) hne

theorem Spared.imp (h : Spared code marked bad prev text)
    (hbad : ∀ m, bad prev' m → bad prev m)
    (hleft : ∀ m, m <+: left → (∀ b ∈ m, marked b = true) → m <+: text) :
    Spared code marked bad prev' left :=
  fun m hne hm hmarked hb => h m hne (hleft m hm hmarked) hmarked (hbad _ hb)

theorem Clean.spared (h : Clean code marked bad prev text) : Spared code marked bad prev text := by
  cases text with
  | nil => exact spared_nil
  | cons a text => exact h.1

/-- Another character before a clean text. -/
theorem Clean.after (h : Clean code marked bad prev text)
    (hs : Spared code marked bad prev' text) : Clean code marked bad prev' text := by
  cases text with
  | nil => trivial
  | cons a text => exact ⟨hs, h.2⟩

theorem Clean.right (found : List α) : ∀ {prev : Option σ},
    Clean code marked bad prev (found ++ left) →
      Clean code marked bad (lastOr prev (found.map code)) left := by
  induction found with
  | nil => exact fun h => h
  | cons a found ih =>
    intro prev h
    rw [List.map_cons, lastOr_cons]
    exact ih h.2

theorem clean_iff : ∀ {prev : Option σ}, Clean code marked bad prev text ↔
    ∀ pre m post, text = pre ++ (m ++ post) → m ≠ [] → (∀ b ∈ m, marked b = true) →
      ¬bad (lastOr prev (pre.map code)) (m.map code) := by
  induction text with
  | nil =>
    intro prev
    refine iff_of_true trivial fun pre m post hsplit hne => absurd ?_ hne
    exact (List.append_eq_nil_iff.mp (List.append_eq_nil_iff.mp hsplit.symm).2).1
  | cons a text ih =>
    intro prev
    constructor
    · rintro h pre m post hsplit hne hmarked
      cases pre with
      | nil => exact h.1 m hne ⟨post, hsplit.symm⟩ hmarked
      | cons b pre =>
        obtain ⟨rfl, hrest⟩ := List.cons.inj hsplit
        rw [List.map_cons, lastOr_cons]
        exact ih.mp h.2 pre m post hrest hne hmarked
    · intro h
      refine ⟨?_, ih.mpr fun pre m post hsplit hne hmarked => ?_⟩
      · rintro m hne ⟨post, hsplit⟩ hmarked
        exact h [] m post hsplit.symm hne hmarked
      · have hcons := h (a :: pre) m post (congrArg (a :: ·) hsplit) hne hmarked
        rwa [List.map_cons, lastOr_cons] at hcons

/-- No run of marked characters starts with one that is not. -/
theorem run_behind {w m : List α} {b : α} (hw : ∀ a ∈ w ++ [b], marked a = false)
    (hm : m <+: w ++ [b] ++ text) (hmarked : ∀ b ∈ m, marked b = true) : m = [] := by
  cases m with
  | nil => rfl
  | cons c m =>
    obtain ⟨d, w', hcons⟩ := List.exists_cons_of_ne_nil (List.append_ne_nil_of_right_ne_nil w
      (List.cons_ne_nil b []))
    rw [hcons] at hw hm
    obtain ⟨rfl, -⟩ := List.cons_prefix_cons.mp hm
    have hc := hmarked c (List.mem_cons_self ..)
    rw [hw c (List.mem_cons_self ..)] at hc
    cases hc

/-- What is not marked may come before a clean text. -/
theorem Clean.behind (w : List α) {b : α} (hw : ∀ a ∈ w ++ [b], marked a = false)
    (h : Clean code marked bad (some (code b)) text) : ∀ {prev : Option σ},
      Clean code marked bad prev (w ++ [b] ++ text) := by
  induction w with
  | nil =>
    exact fun {_} => ⟨fun m hne hm hmarked => absurd (run_behind hw hm hmarked) hne, h⟩
  | cons a w ih =>
    exact fun {_} => ⟨fun m hne hm hmarked => absurd (run_behind hw hm hmarked) hne,
      ih fun c hc => hw c (List.mem_cons_of_mem a hc)⟩

/-- Runs that start two texts alike start them alike behind a third one. -/
theorem run_append {left' : List α}
    (hleft : ∀ m, m <+: left' → (∀ b ∈ m, marked b = true) → m <+: left) (found : List α) :
    ∀ m, m <+: found ++ left' → (∀ b ∈ m, marked b = true) → m <+: found ++ left := by
  induction found with
  | nil => exact fun m hm hmarked => hleft m hm hmarked
  | cons a found ih =>
    intro m hm hmarked
    cases m with
    | nil => exact List.nil_prefix
    | cons b m =>
      obtain ⟨rfl, hrest⟩ := List.cons_prefix_cons.mp hm
      exact List.cons_prefix_cons.mpr
        ⟨rfl, ih m hrest fun c hc => hmarked c (List.mem_cons_of_mem b hc)⟩

/-- The rest of a clean text may be replaced when that adds no run. -/
theorem Clean.replace (found : List α) {left' : List α}
    (hleft : ∀ m, m <+: left' → (∀ b ∈ m, marked b = true) → m <+: left) :
    ∀ {prev : Option σ}, Clean code marked bad prev (found ++ left) →
      Clean code marked bad (lastOr prev (found.map code)) left' →
        Clean code marked bad prev (found ++ left') := by
  induction found with
  | nil => exact fun _ h => h
  | cons a found ih =>
    intro prev h h'
    rw [List.map_cons, lastOr_cons] at h'
    exact ⟨h.1.imp (fun _ hb => hb) (run_append hleft (a :: found)), ih h.2 h'⟩

theorem Clean.init {more : List α} : ∀ {text : List α} {prev : Option σ},
    Clean code marked bad prev (text ++ more) → Clean code marked bad prev text
  | [], _, _ => trivial
  | _ :: _, _, h =>
    ⟨h.1.imp (fun _ hb => hb) fun _ hm _ => hm.trans (List.prefix_append _ more),
      Clean.init h.2⟩

/-- A text that may stand anywhere: it starts with no run, and it is clean after any
character. -/
def Sealed (code : α → σ) (marked : α → Bool) (bad : Option σ → List σ → Prop)
    (text : List α) : Prop :=
  (∀ m, m <+: text → (∀ b ∈ m, marked b = true) → m <+: []) ∧
    ∀ prev, Clean code marked bad prev text

/-- A sealed text may follow a clean one. -/
theorem Clean.append (h : Clean code marked bad prev text) (hleft : Sealed code marked bad left) :
    Clean code marked bad prev (text ++ left) :=
  Clean.replace text hleft.1 (by rwa [List.append_nil]) (hleft.2 _)

theorem Sealed.append (h : Sealed code marked bad text) (h' : Sealed code marked bad left) :
    Sealed code marked bad (text ++ left) := by
  refine ⟨fun m hm hmarked => ?_, fun prev => (h.2 prev).append h'⟩
  have hrun := run_append h'.1 text m hm hmarked
  rw [List.append_nil] at hrun
  exact h.1 m hrun hmarked

/-- Text without marks is sealed. -/
theorem sealed_of_unmarked (h : ∀ a ∈ text, marked a = false) : Sealed code marked bad text := by
  have hrun : ∀ {text : List α}, (∀ a ∈ text, marked a = false) → ∀ m, m <+: text →
      (∀ b ∈ m, marked b = true) → m <+: [] := by
    intro text h m hm hmarked
    cases m with
    | nil => exact List.nil_prefix
    | cons b m =>
      have hb := hmarked b (List.mem_cons_self ..)
      rw [h b (hm.subset (List.mem_cons_self ..))] at hb
      cases hb
  refine ⟨hrun h, ?_⟩
  induction text with
  | nil => exact fun _ => trivial
  | cons a text ih =>
    refine fun prev => ⟨fun m hne hm hmarked => absurd (hrun h m hm hmarked) ?_,
      ih (fun b hb => h b (List.mem_cons_of_mem a hb)) _⟩
    exact fun hnil => hne (List.prefix_nil.mp hnil)

theorem Clean.imp {bad' : Option σ → List σ → Prop} (hbad : ∀ prev m, bad' prev m → bad prev m) :
    ∀ {text : List α} {prev : Option σ}, Clean code marked bad prev text →
      Clean code marked bad' prev text
  | [], _, _ => trivial
  | _ :: _, prev, h =>
    ⟨fun m hne hm hmarked hb => h.1 m hne hm hmarked (hbad prev _ hb), h.2.imp hbad⟩

theorem Clean.or {bad' : Option σ → List σ → Prop} : ∀ {text : List α} {prev : Option σ},
    Clean code marked bad prev text → Clean code marked bad' prev text →
      Clean code marked (fun prev m => bad prev m ∨ bad' prev m) prev text
  | [], _, _, _ => trivial
  | _ :: _, _, h, h' =>
    ⟨fun m hne hm hmarked hor => hor.elim (h.1 m hne hm hmarked) (h'.1 m hne hm hmarked),
      h.2.or h'.2⟩

/-- What starts a text with characters dropped is left of a part of the text that ends
with one that is kept. -/
theorem run_of_filter {keep : α → Bool} : ∀ (text : List α) {m : List α}, m ≠ [] →
    m <+: text.filter keep →
      ∃ m', m' <+: text ∧ m'.filter keep = m ∧ m'.getLast?.any keep = true
  | [], _, hne, hm => absurd (List.prefix_nil.mp hm) hne
  | a :: text, m, hne, hm => by
    cases hkeep : keep a with
    | false =>
      rw [List.filter_cons_of_neg (by rw [hkeep]; decide)] at hm
      obtain ⟨m', hstart, hfilter, hlast⟩ := run_of_filter text hne hm
      refine ⟨a :: m', List.cons_prefix_cons.mpr ⟨rfl, hstart⟩, ?_, ?_⟩
      · rw [List.filter_cons_of_neg (by rw [hkeep]; decide), hfilter]
      · cases m' with
        | nil => cases hlast
        | cons b m' => rwa [List.getLast?_cons_cons]
    | true =>
      rw [List.filter_cons_of_pos hkeep] at hm
      obtain ⟨b, rest, rfl⟩ := List.exists_cons_of_ne_nil hne
      obtain ⟨rfl, hrest⟩ := List.cons_prefix_cons.mp hm
      by_cases hnil : rest = []
      · refine ⟨[b], List.cons_prefix_cons.mpr ⟨rfl, List.nil_prefix⟩, ?_, hkeep⟩
        rw [List.filter_cons_of_pos hkeep, hnil, List.filter_nil]
      · obtain ⟨m', hstart, hfilter, hlast⟩ := run_of_filter text hnil hrest
        refine ⟨b :: m', List.cons_prefix_cons.mpr ⟨rfl, hstart⟩, ?_, ?_⟩
        · rw [List.filter_cons_of_pos hkeep, hfilter]
        · cases m' with
          | nil => cases hlast
          | cons d m' => rwa [List.getLast?_cons_cons]

/-- **Dropping characters keeps a text clean** when what is left of no run between two
kept ones is bad. -/
theorem Clean.filter {keep : σ → Bool}
    (hopen : ∀ c, keep c = false → ∀ prev m, bad prev m → bad (some c) m) :
    ∀ {text : List α} {prev prev' : Option σ},
      (∀ a ∈ text, keep (code a) = false → marked a = true) →
      Clean code marked (fun prev m => m.head?.any keep = true ∧ m.getLast?.any keep = true ∧
        bad prev (m.filter keep)) prev text → (∀ m, bad prev' m → bad prev m) →
        Clean code marked bad prev' (text.filter fun a => keep (code a))
  | [], _, _, _, _, _ => trivial
  | a :: text, prev, prev', hdrop, h, hprev => by
    have hrest : ∀ b ∈ text, keep (code b) = false → marked b = true :=
      fun b hb => hdrop b (List.mem_cons_of_mem a hb)
    cases hkeep : keep (code a) with
    | false =>
      rw [List.filter_cons_of_neg (by rw [hkeep]; decide)]
      exact Clean.filter hopen hrest h.2 (hopen (code a) hkeep prev')
    | true =>
      rw [List.filter_cons_of_pos (p := fun a => keep (code a)) hkeep]
      refine ⟨fun m hne hm hmarked hbad => ?_, Clean.filter hopen hrest h.2 fun _ hm => hm⟩
      rw [← List.filter_cons_of_pos (p := fun a => keep (code a)) hkeep] at hm
      obtain ⟨m', hstart, hfilter, hlast⟩ := run_of_filter (a :: text) hne hm
      have hne' : m' ≠ [] := by
        rintro rfl
        exact hne hfilter.symm
      refine h.1 m' hne' hstart (fun b hb => ?_) ⟨?_, ?_, hprev _ ?_⟩
      · cases hb' : keep (code b) with
        | false => exact hdrop b (hstart.subset hb) hb'
        | true => exact hmarked b (hfilter ▸ List.mem_filter.mpr ⟨hb, hb'⟩)
      · obtain ⟨b, rest, rfl⟩ := List.exists_cons_of_ne_nil hne'
        obtain ⟨rfl, -⟩ := List.cons_prefix_cons.mp hstart
        exact hkeep
      · rw [List.getLast?_map, Option.any_map]
        exact hlast
      · rw [List.filter_map]
        exact hfilter ▸ hbad

/-! ## What replacing leaves -/

/-- A text without marks that ends with the character `last`. -/
def Blank (code : α → σ) (marked : α → Bool) (last : σ) (text : List α) : Prop :=
  ∃ w b, text = w ++ [b] ∧ code b = last ∧ ∀ a ∈ w ++ [b], marked a = false

/-- What is found is replaced by a blank, or left as it is. -/
def Blanks (code : α → σ) (marked : α → Bool) (last : σ) (replace : List α → List α) : Prop :=
  ∀ found, replace found = found ∨ Blank code marked last (replace found)

variable {p : Pattern σ} {replace : List α → List α}

/-- A run of marked characters that starts what replacing leaves started the text. -/
theorem subFuel_run (hreplace : Blanks code marked last replace) : ∀ (n : ℕ) (prev : Option σ)
    (text m : List α), m <+: subFuel p code replace n prev text → (∀ b ∈ m, marked b = true) →
      m <+: text := by
  intro n
  induction n with
  | zero => exact fun _ _ _ hm _ => hm
  | succ n ih =>
    intro prev text m hm hmarked
    cases text with
    | nil => exact hm
    | cons a rest =>
      rcases hfind : p.find ⟨prev, (a :: rest).map code⟩ with _ | stop
      · rw [subFuel_none hfind] at hm
        exact run_append (ih _ rest) [a] m hm hmarked
      · obtain ⟨found, left, hsplit, -, -, heq⟩ := subFuel_some replace n hfind
        rw [heq] at hm
        rw [hsplit]
        rcases hreplace found with hsame | ⟨w, b, hblank, -, hunmarked⟩
        · rw [hsame] at hm
          exact run_append (ih _ left) found m hm hmarked
        · rw [hblank] at hm
          rw [run_behind hunmarked hm hmarked]
          exact List.nil_prefix

/-- After a match in `text`, the character `last` makes nothing bad that was not. -/
def Harmless (p : Pattern σ) (bad : Option σ → List σ → Prop) (last : σ) (text : List σ) : Prop :=
  ∀ prev s stop, s <:+ text → p.find ⟨prev, s⟩ = some stop →
    ∀ m, m ≠ [] → m <+: stop.rest → bad (some last) m → bad stop.prev m

theorem Harmless.suffix {s t : List σ} (h : Harmless p bad last t) (hs : s <:+ t) :
    Harmless p bad last s :=
  fun prev s' stop hs' => h prev s' stop (hs'.trans hs)

/-- What replacing leaves after a match, behind the replacement. -/
theorem Harmless.after {stop : Place σ} {s : List σ} (h : Harmless p bad last s)
    (hfind : p.find ⟨prev, s⟩ = some stop) {left' : List α}
    (hleft : ∀ m, m <+: left' → (∀ b ∈ m, marked b = true) → m <+: left)
    (hrest : left.map code = stop.rest) (hclean : Clean code marked bad stop.prev left') :
    Clean code marked bad (some last) left' := by
  refine hclean.after fun m hne hm hmarked hbad => hclean.spared m hne hm hmarked ?_
  refine h prev s stop List.suffix_rfl hfind (m.map code) (fun hnil => ?_) ?_ hbad
  · exact hne (List.map_eq_nil_iff.mp hnil)
  · rw [← hrest]
    exact (hleft m hm hmarked).map code

theorem left_suffix {found whole : List α} (h : whole = found ++ left) :
    left.map code <:+ whole.map code := by
  rw [h, List.map_append]
  exact List.suffix_append _ _

/-- **Replacing keeps a text clean.** -/
theorem subFuel_keeps (hreplace : Blanks code marked last replace) : ∀ (n : ℕ) (prev : Option σ)
    (text : List α), Harmless p bad last (text.map code) → Clean code marked bad prev text →
      Clean code marked bad prev (subFuel p code replace n prev text) := by
  intro n
  induction n with
  | zero => exact fun _ _ _ h => h
  | succ n ih =>
    intro prev text hharmless h
    cases text with
    | nil => trivial
    | cons a rest =>
      rcases hfind : p.find ⟨prev, (a :: rest).map code⟩ with _ | stop
      · rw [subFuel_none hfind]
        have hrest := ih _ rest (hharmless.suffix (List.suffix_cons _ _)) h.2
        exact h.replace [a] (subFuel_run hreplace n _ rest) hrest
      · obtain ⟨found, left, hsplit, hcodes, hprev, heq⟩ := subFuel_some replace n hfind
        have hleft : Clean code marked bad (lastOr prev (found.map code)) left :=
          Clean.right found (hsplit ▸ h)
        have hclean := ih stop.prev left (hharmless.suffix (left_suffix hsplit)) (hprev ▸ hleft)
        have hrun := subFuel_run (p := p) hreplace n stop.prev left
        rw [heq]
        rcases hreplace found with hsame | ⟨w, b, hblank, rfl, hunmarked⟩
        · rw [hsame]
          rw [hsplit] at h
          exact h.replace found hrun (hprev ▸ hclean)
        · rw [hblank]
          exact Clean.behind w hunmarked (hharmless.after hfind hrun hcodes hclean)

/-- **Replacing cleans a text** of what is found wherever it is bad. -/
theorem subFuel_cleans {C : σ → Prop} (hstarts : p.StartsIn C)
    (hblanks : ∀ found, Blank code marked last (replace found))
    (hfinds : ∀ prev m s, m ≠ [] → bad prev m → p.find ⟨prev, m ++ s⟩ ≠ none) :
    ∀ (n : ℕ) (prev : Option σ) (text : List α), text.length ≤ n →
      Harmless p bad last (text.map code) →
        Clean code marked bad prev (subFuel p code replace n prev text) := by
  have hreplace : Blanks code marked last replace := fun found => Or.inr (hblanks found)
  intro n
  induction n with
  | zero =>
    intro prev text hlen _
    rw [List.length_eq_zero_iff.mp (Nat.le_zero.mp hlen)]
    trivial
  | succ n ih =>
    intro prev text hlen hharmless
    cases text with
    | nil => trivial
    | cons a rest =>
      rcases hfind : p.find ⟨prev, (a :: rest).map code⟩ with _ | stop
      · rw [subFuel_none hfind]
        refine ⟨fun m hne hm hmarked hbad => ?_,
          ih _ rest (Nat.le_of_succ_le_succ hlen) (hharmless.suffix (List.suffix_cons _ _))⟩
        -- the run would have been found
        obtain ⟨post, hpost⟩ := run_append (subFuel_run hreplace n _ rest) [a] m hm hmarked
        refine hfinds prev (m.map code) (post.map code) (fun hnil => ?_) hbad ?_
        · exact hne (List.map_eq_nil_iff.mp hnil)
        · rw [← List.map_append, hpost]
          exact hfind
      · obtain ⟨found, left, hsplit, hcodes, -, heq⟩ := subFuel_some replace n hfind
        -- the match is not empty
        obtain ⟨c, m, -, hreads⟩ := p.starts hstarts (List.mem_of_mem_head? hfind)
        have hlength := congrArg List.length hreads.1
        rw [List.length_map, List.length_append, ← hcodes, List.length_map] at hlength
        simp only [List.length_cons] at hlength hlen
        have hclean := ih stop.prev left (by omega) (hharmless.suffix (left_suffix hsplit))
        have hrun := subFuel_run (p := p) hreplace n stop.prev left
        obtain ⟨w, b, hblank, rfl, hunmarked⟩ := hblanks found
        rw [heq, hblank]
        exact Clean.behind w hunmarked (hharmless.after hfind hrun hcodes hclean)

theorem sub_keeps (hreplace : Blanks code marked last replace)
    (hharmless : Harmless p bad last (text.map code)) (h : Clean code marked bad none text) :
    Clean code marked bad none (p.sub code replace text) :=
  subFuel_keeps hreplace _ none text hharmless h

theorem sub_cleans {C : σ → Prop} (hstarts : p.StartsIn C)
    (hblanks : ∀ found, Blank code marked last (replace found))
    (hfinds : ∀ prev m s, m ≠ [] → bad prev m → p.find ⟨prev, m ++ s⟩ ≠ none)
    (hharmless : Harmless p bad last (text.map code)) :
    Clean code marked bad none (p.sub code replace text) :=
  subFuel_cleans hstarts hblanks hfinds _ none text le_rfl hharmless

/-- What holds of a text and of the replacements holds of what replacing leaves. -/
theorem sub_forall {P : α → Prop}
    (hreplace : ∀ found, (∀ a ∈ found, P a) → ∀ a ∈ replace found, P a)
    (h : ∀ a ∈ text, P a) : ∀ a ∈ p.sub code replace text, P a := by
  have hfuel : ∀ (n : ℕ) (prev : Option σ) (text : List α), (∀ a ∈ text, P a) →
      ∀ a ∈ subFuel p code replace n prev text, P a := by
    intro n
    induction n with
    | zero => exact fun _ _ h => h
    | succ n ih =>
      intro prev text h
      cases text with
      | nil => exact h
      | cons a rest =>
        rcases hfind : p.find ⟨prev, (a :: rest).map code⟩ with _ | stop
        · rw [subFuel_none hfind]
          obtain ⟨ha, hrest⟩ := List.forall_mem_cons.mp h
          exact List.forall_mem_cons.mpr ⟨ha, ih _ rest hrest⟩
        · obtain ⟨found, left, hsplit, -, -, heq⟩ := subFuel_some replace n hfind
          rw [heq]
          obtain ⟨hfound, hleft⟩ := List.forall_mem_append.mp (hsplit ▸ h)
          exact List.forall_mem_append.mpr ⟨hreplace found hfound, ih _ left hleft⟩
  exact hfuel text.length none text h

end

/-! ## Texts with blanks -/

/-- `t` is `s` with some parts replaced by blanks. -/
inductive Woven (blanks : List (List σ)) : List σ → List σ → Prop
  /-- the empty text -/
  | nil : Woven blanks [] []
  /-- a character that stays -/
  | keep (c : σ) {s t : List σ} : Woven blanks s t → Woven blanks (c :: s) (c :: t)
  /-- a part that is replaced -/
  | replace (m : List σ) {w s t : List σ} : w ∈ blanks → Woven blanks s t →
      Woven blanks (m ++ s) (w ++ t)

section

variable {blanks : List (List σ)}

theorem Woven.append (found : List σ) {s t : List σ} (h : Woven blanks s t) :
    Woven blanks (found ++ s) (found ++ t) := by
  induction found with
  | nil => exact h
  | cons c found ih => exact ih.keep c

theorem Woven.refl (s : List σ) : Woven blanks s s := by
  have h : Woven blanks (s ++ []) (s ++ []) := Woven.append s .nil
  rwa [List.append_nil] at h

/-- Characters that are in no blank may be dropped. -/
theorem Woven.filter {keep : σ → Bool} (hblanks : ∀ w ∈ blanks, w.filter keep = w)
    {s t : List σ} (h : Woven blanks s t) : Woven blanks (s.filter keep) (t.filter keep) := by
  induction h with
  | nil => exact .nil
  | @keep c s t _ ih =>
    cases hkeep : keep c with
    | false =>
      rw [List.filter_cons_of_neg (by rw [hkeep]; decide),
        List.filter_cons_of_neg (by rw [hkeep]; decide)]
      exact ih
    | true =>
      rw [List.filter_cons_of_pos hkeep, List.filter_cons_of_pos hkeep]
      exact ih.keep c
  | replace m hw _ ih =>
    rw [List.filter_append, List.filter_append, hblanks _ hw]
    exact ih.replace _ hw

theorem sub_woven {p : Pattern σ} {replace : List σ → List σ}
    (hreplace : ∀ found, replace found = found ∨ replace found ∈ blanks) (text : List σ) :
    Woven blanks text (p.sub id replace text) := by
  have hfuel : ∀ (n : ℕ) (prev : Option σ) (text : List σ),
      Woven blanks text (subFuel p id replace n prev text) := by
    intro n
    induction n with
    | zero => exact fun _ text => .refl text
    | succ n ih =>
      intro prev text
      cases text with
      | nil => exact .nil
      | cons a rest =>
        rcases hfind : p.find ⟨prev, (a :: rest).map id⟩ with _ | stop
        · rw [subFuel_none hfind]
          exact (ih _ rest).keep a
        · obtain ⟨found, left, hsplit, -, -, heq⟩ := subFuel_some replace n hfind
          rw [heq, hsplit]
          rcases hreplace found with hsame | hblank
          · rw [hsame]
            exact (ih _ left).append found
          · exact (ih _ left).replace found hblank
  exact hfuel text.length none text

variable {τ : Type v} {f : σ → List τ} {m : List τ}

/-- What does not contain `y` lies on one side of it. -/
theorem infix_beside {y : τ} (hy : y ∉ m) {A B : List τ} (h : m <:+: A ++ y :: B) :
    m <:+: A ∨ m <:+: B := by
  rcases List.infix_append_iff.mp h with hA | hB | ⟨l, r, rfl, hl, hr⟩
  · exact Or.inl hA
  · rcases List.infix_cons_iff.mp hB with hstart | hB
    · rcases List.prefix_cons_iff.mp hstart with rfl | ⟨t, rfl, -⟩
      · exact Or.inl List.nil_infix
      · exact absurd (List.mem_cons_self ..) hy
    · exact Or.inr hB
  · rcases List.prefix_cons_iff.mp hr with rfl | ⟨t, rfl, -⟩
    · rw [List.append_nil]
      exact Or.inl hl.isInfix
    · exact absurd (List.mem_append_right l (List.mem_cons_self ..)) hy

/-- A blank is fenced off from `m`: its first and last characters are not in `m`, and
`m` is not between them. -/
def Fenced (f : σ → List τ) (m : List τ) (w : List σ) : Prop :=
  ∃ x body y, w.flatMap f = x :: (body ++ [y]) ∧ x ∉ m ∧ y ∉ m ∧ ¬m <:+: body

/-- What starts a text with blanks and crosses no fence starts the text. -/
theorem Woven.prefix {s t : List σ} (h : Woven blanks s t)
    (hfence : ∀ w ∈ blanks, ∃ x body, w.flatMap f = x :: body ∧ x ∉ m) (hm : m <+: t.flatMap f) :
    m <+: s.flatMap f := by
  induction h generalizing m with
  | nil => exact hm
  | keep c _ ih =>
    rw [List.flatMap_cons] at hm ⊢
    rcases List.prefix_or_prefix_of_prefix hm (List.prefix_append _ _) with hc | ⟨m', rfl⟩
    · exact hc.trans (List.prefix_append _ _)
    · refine (List.prefix_append_right_inj _).mpr
        (ih (fun w hw => ?_) ((List.prefix_append_right_inj _).mp hm))
      obtain ⟨x, body, hw, hx⟩ := hfence w hw
      exact ⟨x, body, hw, fun hin => hx (List.mem_append_right _ hin)⟩
  | replace part hw _ _ =>
    obtain ⟨x, body, heq, hx⟩ := hfence _ hw
    rw [List.flatMap_append, heq, List.cons_append] at hm
    rcases List.prefix_cons_iff.mp hm with rfl | ⟨t, rfl, -⟩
    · exact List.nil_prefix
    · exact absurd (List.mem_cons_self ..) hx

/-- **What is in a text with blanks** and crosses no fence is in the text. -/
theorem Woven.infix {s t : List σ} (h : Woven blanks s t) (hfence : ∀ w ∈ blanks, Fenced f m w)
    (hm : m <:+: t.flatMap f) : m <:+: s.flatMap f := by
  induction h with
  | nil => exact hm
  | keep c hst ih =>
    rw [List.flatMap_cons] at hm ⊢
    rcases List.infix_append_iff.mp hm with hc | ht | ⟨l, r, rfl, hl, hr⟩
    · exact List.infix_append_of_infix_left hc
    · exact List.infix_append_of_infix_right (ih ht)
    · have hr' : r <+: _ := hst.prefix (fun w hw => ?_) hr
      · exact List.infix_append_iff.mpr (Or.inr (Or.inr ⟨l, r, rfl, hl, hr'⟩))
      · obtain ⟨x, body, y, hw, hx, -⟩ := hfence w hw
        exact ⟨x, body ++ [y], hw, fun hin => hx (List.mem_append_right _ hin)⟩
  | replace part hw _ ih =>
    obtain ⟨x, body, y, heq, hx, hy, hbody⟩ := hfence _ hw
    rw [List.flatMap_append, heq, List.cons_append, List.append_assoc, List.singleton_append] at hm
    rw [List.flatMap_append]
    refine List.infix_append_of_infix_right ?_
    rcases infix_beside (A := []) hx hm with hnil | hm
    · rw [List.infix_nil.mp hnil]
      exact List.nil_infix
    · exact ih ((infix_beside hy hm).resolve_left hbody)

end

end Pattern
