import LayaWatch.Lib.Pattern

/-!
# How a substitution goes through a text

`Pattern.sub` on a text of characters as a relation, `Scans`: from left to right, a
character at which nothing is found stays, and a match is replaced. Beside it what the
match of a greedy repetition is (`mem_manyEnds`), and that what follows the repetition
is matched as late as possible (`greedy_latest`).
-/

universe u

namespace Pattern

variable {σ : Type u}

/-! ## The ends of the parts of a pattern -/

section

variable {p q : Pattern σ} {start stop : Place σ}

theorem mem_ends_one {test : σ → Bool} : stop ∈ (one test).ends start ↔
    ∃ c, test c = true ∧ Reads start stop [c] := by
  obtain ⟨prev, rest⟩ := start
  obtain ⟨prev', rest'⟩ := stop
  cases rest with
  | nil =>
    refine iff_of_false (fun h => by cases h) ?_
    rintro ⟨c, -, hrest, -⟩
    cases hrest
  | cons c rest =>
    simp only [ends]
    constructor
    · intro h
      split at h
      next htest =>
        obtain ⟨rfl, rfl⟩ := Place.mk.inj (List.mem_singleton.mp h)
        exact ⟨c, htest, rfl, rfl⟩
      next => cases h
    · rintro ⟨d, htest, hrest, hprev⟩
      have hinj : c = d ∧ rest = rest' := List.cons.inj hrest
      obtain ⟨rfl, rfl⟩ := hinj
      obtain rfl : prev' = some c := hprev
      rw [if_pos htest]
      exact List.mem_singleton_self _

theorem mem_ends_look {test : Option σ → Option σ → Bool} : stop ∈ (look test).ends start ↔
    stop = start ∧ test start.prev start.rest.head? = true := by
  simp only [ends]
  by_cases htest : test start.prev start.rest.head? = true
  · rw [if_pos htest, List.mem_singleton]
    exact (and_iff_left htest).symm
  · rw [if_neg htest]
    exact iff_of_false List.not_mem_nil fun h => htest h.2

theorem mem_ends_seq : stop ∈ (seq p q).ends start ↔ ∃ mid ∈ p.ends start, stop ∈ q.ends mid :=
  List.mem_flatMap

theorem mem_ends_alt : stop ∈ (alt p q).ends start ↔ stop ∈ p.ends start ∨ stop ∈ q.ends start :=
  List.mem_append

theorem mem_ends_empty : stop ∈ (empty : Pattern σ).ends start ↔ stop = start := List.mem_singleton

end

/-! ## Greedy repetitions -/

/-- The ends of a repetition. -/
theorem mem_manyEnds {test : σ → Bool} {stop : Place σ} (rest : List σ) : ∀ {low : ℕ}
    {prev : Option σ}, stop ∈ manyEnds test low prev rest ↔
      ∃ m, Reads ⟨prev, rest⟩ stop m ∧ (∀ c ∈ m, test c = true) ∧ low ≤ m.length := by
  induction rest with
  | nil =>
    intro low prev
    unfold manyEnds
    by_cases hlow : low = 0
    · rw [if_pos hlow, List.mem_singleton]
      constructor
      · rintro rfl
        exact ⟨[], ⟨rfl, rfl⟩, List.forall_mem_nil _, by rw [hlow]; exact Nat.le_refl 0⟩
      · rintro ⟨m, ⟨hrest, hprev⟩, -, -⟩
        obtain ⟨rfl, hnil⟩ := List.append_eq_nil_iff.mp hrest.symm
        obtain ⟨prev', rest'⟩ := stop
        simp only at hnil hprev
        rw [hnil, hprev]
        rfl
    · rw [if_neg hlow]
      refine iff_of_false List.not_mem_nil ?_
      rintro ⟨m, ⟨hrest, -⟩, -, hlen⟩
      obtain ⟨rfl, -⟩ := List.append_eq_nil_iff.mp hrest.symm
      exact hlow (Nat.le_zero.mp hlen)
  | cons c rest ih =>
    intro low prev
    unfold manyEnds
    rw [List.mem_append]
    constructor
    · rintro (hmore | hhere)
      · split at hmore
        next htest =>
          obtain ⟨m, hm, hall, hlen⟩ := ih.mp hmore
          refine ⟨c :: m, ⟨congrArg (c :: ·) hm.1, hm.2.trans (lastOr_cons prev c m).symm⟩,
            List.forall_mem_cons.mpr ⟨htest, hall⟩, ?_⟩
          rw [List.length_cons]
          omega
        next => cases hmore
      · split at hhere
        next hlow =>
          rw [List.mem_singleton.mp hhere]
          exact ⟨[], ⟨rfl, rfl⟩, List.forall_mem_nil _, by rw [hlow]; exact Nat.le_refl 0⟩
        next => cases hhere
    · rintro ⟨m, ⟨hrest, hprev⟩, hall, hlen⟩
      cases m with
      | nil =>
        right
        have hlow : low = 0 := Nat.le_zero.mp hlen
        obtain ⟨prev', rest'⟩ := stop
        simp only [List.nil_append, lastOr_nil] at hrest hprev
        rw [if_pos hlow, hrest, hprev]
        exact List.mem_singleton_self _
      | cons d m =>
        left
        have hinj : c = d ∧ rest = m ++ stop.rest := List.cons.inj hrest
        obtain ⟨rfl, htail⟩ := hinj
        rw [if_pos (hall c List.mem_cons_self)]
        refine ih.mpr ⟨m, ⟨htail, hprev.trans (lastOr_cons prev c m)⟩,
          fun e he => hall e (List.mem_cons_of_mem _ he), ?_⟩
        rw [List.length_cons] at hlen
        omega

/-- Behind a greedy repetition, what reads a text of a fixed length is matched as late as
possible. -/
theorem greedy_latest {test : σ → Bool} {k : Place σ → List (Place σ)} {width : ℕ}
    (hk : ∀ start, ∀ stop ∈ k start, start.rest.length = stop.rest.length + width)
    (rest : List σ) : ∀ {low : ℕ} {prev : Option σ} {stop : Place σ},
      ((manyEnds test low prev rest).flatMap k).head? = some stop →
        ∀ stop' ∈ (manyEnds test low prev rest).flatMap k,
          stop.rest.length ≤ stop'.rest.length := by
  -- a stop behind the repetition leaves at most what the repetition was given
  have hwithin : ∀ {low : ℕ} {prev : Option σ} {rest : List σ} {stop : Place σ},
      stop ∈ (manyEnds test low prev rest).flatMap k → stop.rest.length + width ≤ rest.length := by
    intro low prev rest stop hstop
    obtain ⟨mid, hmid, hstop⟩ := List.mem_flatMap.mp hstop
    obtain ⟨m, ⟨hrest, -⟩, -, -⟩ := (mem_manyEnds rest).mp hmid
    have hlen := congrArg List.length hrest
    have hmidlen := hk mid stop hstop
    rw [List.length_append] at hlen
    simp only at hlen
    omega
  induction rest with
  | nil =>
    intro low prev stop hstop stop' hstop'
    have hmem := List.mem_of_mem_head? (Option.mem_def.mpr hstop)
    obtain ⟨mid, hmid, hlast⟩ := List.mem_flatMap.mp hmem
    obtain ⟨mid', hmid', hlast'⟩ := List.mem_flatMap.mp hstop'
    unfold manyEnds at hmid hmid'
    split at hmid
    next hlow =>
      rw [if_pos hlow] at hmid'
      rw [List.mem_singleton.mp hmid] at hlast
      rw [List.mem_singleton.mp hmid'] at hlast'
      have hlen := hk _ stop hlast
      have hlen' := hk _ stop' hlast'
      omega
    next => cases hmid
  | cons c rest ih =>
    intro low prev stop hstop stop' hstop'
    unfold manyEnds at hstop hstop'
    rw [List.flatMap_append, List.head?_append] at hstop
    rw [List.flatMap_append] at hstop'
    have hhere : ∀ stop'' ∈ (if low = 0 then [(⟨prev, c :: rest⟩ : Place σ)] else []).flatMap k,
        stop''.rest.length + width = rest.length + 1 := by
      intro stop'' h
      obtain ⟨mid, hmid, hlast⟩ := List.mem_flatMap.mp h
      split at hmid
      · rw [List.mem_singleton.mp hmid] at hlast
        exact (hk _ stop'' hlast).symm
      · cases hmid
    rcases hmore : ((if test c = true then manyEnds test (low - 1) (some c) rest else
        []).flatMap k).head? with _ | first
    · -- nothing is behind a longer repetition
      rw [hmore, Option.none_or] at hstop
      have hnil := List.head?_eq_none_iff.mp hmore
      rw [hnil, List.nil_append] at hstop'
      have hlen := hhere stop (List.mem_of_mem_head? (Option.mem_def.mpr hstop))
      have hlen' := hhere stop' hstop'
      omega
    · rw [hmore, Option.some_or] at hstop
      obtain rfl := Option.some.inj hstop
      rcases List.mem_append.mp hstop' with hstop' | hstop'
      · split at hmore
        next htest =>
          rw [if_pos htest] at hstop'
          exact ih hmore stop' hstop'
        next => cases hmore
      · have hlen' := hhere stop' hstop'
        split at hmore
        next =>
          have hlen := hwithin (List.mem_of_mem_head? (Option.mem_def.mpr hmore))
          omega
        next => cases hmore

/-! ## Scanning -/

/-- What `sub` makes of a text after `prev`. -/
inductive Scans (p : Pattern σ) (replace : List σ → List σ) :
    Option σ → List σ → List σ → Prop where
  /-- the text is over -/
  | nil {prev : Option σ} : Scans p replace prev [] []
  /-- nothing is found here -/
  | skip {prev : Option σ} {c : σ} {rest out : List σ} : p.find ⟨prev, c :: rest⟩ = none →
      Scans p replace (some c) rest out → Scans p replace prev (c :: rest) (c :: out)
  /-- a match -/
  | hit {prev : Option σ} {found left out : List σ} : found ≠ [] →
      p.find ⟨prev, found ++ left⟩ = some ⟨lastOr prev found, left⟩ →
        Scans p replace (lastOr prev found) left out →
          Scans p replace prev (found ++ left) (replace found ++ out)

/-- `sub` scans the text, if the pattern matches no empty text. -/
theorem scans_sub {p : Pattern σ}
    (hshorter : ∀ start, ∀ stop ∈ p.ends start, stop.rest.length < start.rest.length)
    (replace : List σ → List σ) (text : List σ) :
    Scans p replace none text (p.sub id replace text) := by
  have hfuel : ∀ (n : ℕ) (prev : Option σ) (text : List σ), text.length ≤ n →
      Scans p replace prev text (subFuel p id replace n prev text) := by
    intro n
    induction n with
    | zero =>
      intro prev text hlen
      rw [List.length_eq_zero_iff.mp (Nat.le_zero.mp hlen)]
      exact .nil
    | succ n ih =>
      intro prev text hlen
      cases text with
      | nil => exact .nil
      | cons c rest =>
        rw [List.length_cons] at hlen
        rcases hfind : p.find ⟨prev, (c :: rest).map id⟩ with _ | stop
        · rw [subFuel_none hfind]
          rw [List.map_id] at hfind
          exact .skip hfind (ih _ rest (by omega))
        · obtain ⟨found, left, hsplit, hleft, hprev, hsub⟩ := subFuel_some (n := n) replace hfind
          rw [List.map_id] at hleft hprev
          have hne : found ≠ [] := by
            rintro rfl
            have hless := hshorter _ stop (List.mem_of_mem_head? (Option.mem_def.mpr hfind))
            simp only [List.map_id] at hless
            rw [hsplit, List.nil_append, hleft] at hless
            exact Nat.lt_irrefl _ hless
          rw [hsub]
          rw [List.map_id, hsplit] at hfind
          rw [hsplit, hprev]
          refine .hit hne (hfind.trans ?_) (ih _ left ?_)
          · obtain ⟨prev', rest'⟩ := stop
            simp only at hleft hprev
            rw [hleft, hprev]
          · have hlong := congrArg List.length hsplit
            rw [List.length_append, List.length_cons] at hlong
            have hpos := List.length_pos_iff.mpr hne
            omega
  exact hfuel text.length none text (Nat.le_refl _)

/-- Where the matches have only characters of a kind, and their replacements too, replacing
them leaves a text of that kind exactly of a text of that kind. -/
theorem sub_forall_iff {P : σ → Prop} {p : Pattern σ} (hp : p.Within P)
    {replace : List σ → List σ}
    (hreplace : ∀ found, (∀ c ∈ found, P c) → ∀ c ∈ replace found, P c) (text : List σ) :
    (∀ c ∈ p.sub id replace text, P c) ↔ ∀ c ∈ text, P c := by
  refine ⟨?_, sub_forall hreplace⟩
  have hfuel : ∀ (n : ℕ) (prev : Option σ) (text : List σ),
      (∀ c ∈ subFuel p id replace n prev text, P c) → ∀ c ∈ text, P c := by
    intro n
    induction n with
    | zero => exact fun _ _ h => h
    | succ n ih =>
      intro prev text h
      cases text with
      | nil => exact h
      | cons c rest =>
        rcases hfind : p.find ⟨prev, (c :: rest).map id⟩ with _ | stop
        · rw [subFuel_none hfind] at h
          obtain ⟨hc, hrest⟩ := List.forall_mem_cons.mp h
          exact List.forall_mem_cons.mpr ⟨hc, ih _ rest hrest⟩
        · obtain ⟨found, left, hsplit, hleft, -, hsub⟩ := subFuel_some (n := n) replace hfind
          obtain ⟨m, ⟨hm, -⟩, hP⟩ :=
            ends_within hp _ stop (List.mem_of_mem_head? (Option.mem_def.mpr hfind))
          -- what is found is what the pattern read
          have hfound : found = m := by
            rw [← hleft, List.map_id, List.map_id, hsplit] at hm
            exact List.append_cancel_right hm
          rw [hsub] at h
          rw [hsplit, hfound]
          exact List.forall_mem_append.mpr ⟨hP, ih _ left (List.forall_mem_append.mp h).2⟩
  exact hfuel text.length none text

end Pattern
