import LayaWatch.SessionLifecycle
import LayaWatch.Lib.Dict
import LayaWatch.Lib.Machine
import Mathlib.Algebra.Order.Floor.Ring
import Mathlib.Data.Rat.Floor

/-!
# The login backoff

`auth/login_limit.py`, and the logins that ask it: `refused` before the password
is verified, `record_failure` after a wrong one, `clear` after a right one. Each of
the three takes the lock of the backoff on its own, so between the steps of a login
those of the others run. Rate limiting is on.
-/

namespace LayaWatch

/-! ## The backoff -/

/-- `LoginBackoff`. -/
structure LoginBackoff where
  /-- `limit` -/
  limit : ℕ
  /-- `window`, in seconds -/
  window : ℚ
  /-- `_failures`: the times of the failures of a subject, an ip and an email -/
  failures : Dict (PyStr × PyStr) (List ℚ) := .empty

namespace LoginBackoff

/-- `LoginBackoff(limit, window)`. -/
def create (limit : ℤ) (window : ℚ) : LoginBackoff := ⟨(max 1 limit).toNat, window, .empty⟩

/-- `_SWEEP_AT`. -/
def sweepAt : ℕ := 1024

/-- The failures of a subject. -/
def entries (b : LoginBackoff) (subject : PyStr × PyStr) : List ℚ :=
  (b.failures.get subject).getD []

/-- The failures that `_prune` returns. -/
def pruned (b : LoginBackoff) (subject : PyStr × PyStr) (now : ℚ) : List ℚ :=
  match b.entries subject with
  | [] => []
  | first :: rest =>
    if first ≤ now - b.window then (first :: rest).filter fun ts => decide (now - b.window < ts)
    else first :: rest

/-- The failures of a subject are replaced. -/
def put (b : LoginBackoff) (subject : PyStr × PyStr) (entries : List ℚ) : LoginBackoff :=
  { b with failures := b.failures.set subject entries }

/-- What `_sweep` drops. -/
def stale (b : LoginBackoff) (now : ℚ) (entries : List ℚ) : Bool :=
  match entries.getLast? with
  | none => true
  | some last => decide (last ≤ now - b.window)

/-- `_sweep`. -/
def sweep (b : LoginBackoff) (now : ℚ) : LoginBackoff :=
  if b.failures.entries.length ≤ sweepAt then b
  else { b with failures := b.failures.filter fun entry => !b.stale now entry.2 }

/-- `refused`. -/
def refused (b : LoginBackoff) (subject : PyStr × PyStr) (now : ℚ) : Option ℕ × LoginBackoff :=
  let failures := b.pruned subject now
  if failures.length < b.limit then (none, b.put subject failures)
  else
    let failures := failures ++ [now]
    let wait := min ((2 : ℚ) ^ (failures.length - b.limit)) b.window
    let windowLeft := failures.headD now + b.window - now
    (some (max 1 ⌈min wait windowLeft⌉.toNat), (b.put subject failures).sweep now)

/-- `record_failure`. -/
def recordFailure (b : LoginBackoff) (subject : PyStr × PyStr) (now : ℚ) : ℕ × LoginBackoff :=
  let failures := b.pruned subject now ++ [now]
  (failures.length, (b.put subject failures).sweep now)

/-- `clear`. -/
def clear (b : LoginBackoff) (subject : PyStr × PyStr) : LoginBackoff :=
  { b with failures := b.failures.erase subject }

/-- `clear_email`. -/
def clearEmail (b : LoginBackoff) (email : PyStr) : LoginBackoff :=
  { b with failures := b.failures.filter fun entry => decide (entry.1.2 ≠ email) }

end LoginBackoff

/-! ## Logins at once -/

/-- Where a login is. -/
inductive GuessStage where
  /-- before `BACKOFF.refused` -/
  | asking
  /-- it has been refused, with the seconds to wait -/
  | blocked (retry : ℕ)
  /-- past the check, before `verify_or_dummy` -/
  | unverified
  /-- its password was wrong; before `record_failure` -/
  | unrecorded
  /-- its password was right; before `clear` -/
  | verified
  /-- it has ended -/
  | over
  deriving DecidableEq

/-- A login. -/
structure Guess where
  /-- `client_ip` and the normalised email -/
  subject : PyStr × PyStr
  /-- the password -/
  password : PyStr
  /-- where it is -/
  stage : GuessStage := .asking

/-- The backoff of the process, and its logins. -/
structure GuessSystem where
  /-- `BACKOFF` -/
  backoff : LoginBackoff
  /-- `time.monotonic()` -/
  now : ℚ
  /-- the logins -/
  guesses : List Guess := []

/-- What happens next. -/
inductive GuessAct where
  /-- a login arrives -/
  | arrive (r : Auth.SessionRequest)
  /-- its `BACKOFF.refused` -/
  | check (i : ℕ)
  /-- its `SELECT` on the database as it is then, and `verify_or_dummy` -/
  | verify (i : ℕ) (db : Db)
  /-- its `SELECT` raises -/
  | abort (i : ℕ)
  /-- its `record_failure` -/
  | record (i : ℕ)
  /-- its `clear` -/
  | clear (i : ℕ)
  /-- an owner edits the account: `clear_email` -/
  | clearEmail (email : PyStr)
  /-- time passes -/
  | wait (seconds : ℚ) (nonneg : 0 ≤ seconds)

namespace GuessSystem

/-- The login goes on from one place to another, and does something to the backoff. -/
def goOn (s : GuessSystem) (i : ℕ) (place : GuessStage) (f : Guess → GuessStage × LoginBackoff) :
    Option GuessSystem :=
  match s.guesses[i]? with
  | none => none
  | some g =>
    if g.stage = place then
      some { s with
        backoff := (f g).2
        guesses := s.guesses.set i { g with stage := (f g).1 } }
    else none

/-- One step. -/
def step (L : AuthLib) (s : GuessSystem) : GuessAct → Option GuessSystem
  | .arrive r =>
    match Auth.loginFields L r with
    | .error _ => some s
    | .ok (email, password) =>
      some { s with guesses := s.guesses ++ [{ subject := (r.clientIp, email), password }] }
  | .check i => s.goOn i .asking fun g =>
    match s.backoff.refused g.subject s.now with
    | (none, b) => (.unverified, b)
    | (some retry, b) => (.blocked retry, b)
  | .verify i db => s.goOn i .unverified fun g =>
    let stored := Auth.storedHash (Auth.userByEmail db g.subject.2)
    (if Auth.verifyOrDummy L g.password stored then .verified else .unrecorded, s.backoff)
  | .abort i => s.goOn i .unverified fun _ => (.over, s.backoff)
  | .record i => s.goOn i .unrecorded fun g =>
    (.over, (s.backoff.recordFailure g.subject s.now).2)
  | .clear i => s.goOn i .verified fun g => (.over, s.backoff.clear g.subject)
  | .clearEmail email => some { s with backoff := s.backoff.clearEmail email }
  | .wait seconds _ => some { s with now := s.now + seconds }

/-- The process has just started. -/
structure Start (limit : ℤ) (window : ℚ) (s : GuessSystem) : Prop where
  /-- the configured limit and window -/
  backoff : s.backoff = .create limit window
  /-- no logins -/
  guesses : s.guesses = []

/-- Logins of all subjects, in every order of their steps. -/
def machine (L : AuthLib) (limit : ℤ) (window : ℚ) : Machine GuessSystem GuessAct :=
  ⟨Start limit window, step L⟩

/-- How many logins of a subject are at a place. -/
def countAt (s : GuessSystem) (subject : PyStr × PyStr) (place : GuessStage) : ℕ :=
  s.guesses.countP fun g => decide (g.subject = subject) && decide (g.stage = place)

/-- A login that the check lets past finds fewer failures of its subject than the limit,
together with the logins of the subject that are past the check already and have neither
ended nor recorded a failure. -/
def WithinBudget (s : GuessSystem) : GuessAct → Prop
  | .check i => ∀ g ∈ s.guesses[i]?, (s.backoff.refused g.subject s.now).1 = none →
      (s.backoff.pruned g.subject s.now).length + s.countAt g.subject .unverified +
        s.countAt g.subject .unrecorded < s.backoff.limit
  | _ => True

instance (s : GuessSystem) (a : GuessAct) : Decidable (s.WithinBudget a) :=
  match a with
  | .check i => inferInstanceAs (Decidable (∀ g ∈ s.guesses[i]?, _ → _))
  | .arrive _ | .verify _ _ | .abort _ | .record _ | .clear _ | .clearEmail _ | .wait _ _ =>
    .isTrue trivial

end GuessSystem

/-! ## The guess limit -/

/-- The step verifies a password of the subject, and it is wrong. -/
def wrongGuess (subject : PyStr × PyStr) (e : Machine.Event GuessSystem GuessAct) : Bool :=
  match e.act with
  | .verify i _ => e.post.guesses[i]?.any fun g =>
      decide (g.subject = subject) && decide (g.stage = .unrecorded)
  | _ => false

/-- The step ends a successful login of the subject, or clears its email. -/
def resets (subject : PyStr × PyStr) (e : Machine.Event GuessSystem GuessAct) : Bool :=
  match e.act with
  | .clear i => e.pre.guesses[i]?.any fun g => decide (g.subject = subject)
  | .clearEmail email => decide (subject.2 = email)
  | _ => false

/-- In every interval shorter than the window in which nothing resets the subject, at most
`limit` passwords of the subject are verified and wrong. -/
def GuessLimit (limit : ℤ) (window : ℚ) (es : List (Machine.Event GuessSystem GuessAct)) : Prop :=
  ∀ (subject : PyStr × PyStr) (before mid after : List (Machine.Event GuessSystem GuessAct))
    (first last : ℚ), es = before ++ mid ++ after → last - first < window →
    (∀ e ∈ mid, first ≤ e.pre.now ∧ e.pre.now ≤ last ∧ resets subject e = false) →
    ((mid.countP (wrongGuess subject) : ℕ) : ℤ) ≤ limit

/-! ## What the backoff remembers -/

namespace LoginBackoff

variable {b : LoginBackoff} {subject other : PyStr × PyStr} {now : ℚ}

/-- The failures of every subject in the order of their times, up to now. -/
structure InOrder (b : LoginBackoff) (now : ℚ) : Prop where
  /-- they are in order -/
  sorted : ∀ subject, (b.entries subject).Pairwise (· ≤ ·)
  /-- and not in the future -/
  past : ∀ subject, ∀ ts ∈ b.entries subject, ts ≤ now

/-- How many failures of a subject are recorded since some time. -/
def since (b : LoginBackoff) (subject : PyStr × PyStr) (first : ℚ) : ℕ :=
  (b.entries subject).countP fun ts => decide (first ≤ ts)

theorem entries_put (entries : List ℚ) : (b.put subject entries).entries subject = entries := by
  unfold LoginBackoff.entries put
  rw [Dict.get_set_self]
  rfl

theorem entries_put_ne (entries : List ℚ) (h : other ≠ subject) :
    (b.put subject entries).entries other = b.entries other := by
  unfold LoginBackoff.entries put
  rw [Dict.get_set_ne _ _ h]

/-- `_prune` drops failures, and no recent one. -/
theorem pruned_spec (b : LoginBackoff) (subject : PyStr × PyStr) (now : ℚ) :
    (b.pruned subject now).Sublist (b.entries subject) ∧
    ∀ first, now - b.window < first →
      (b.pruned subject now).countP (fun ts => decide (first ≤ ts)) = b.since subject first := by
  unfold since pruned
  rcases b.entries subject with _ | ⟨oldest, rest⟩
  · exact ⟨List.Sublist.slnil, fun _ _ => rfl⟩
  · dsimp only
    split
    · refine ⟨List.filter_sublist, fun first hfirst => ?_⟩
      rw [List.countP_filter]
      refine List.countP_congr fun ts _ => ?_
      simp only [Bool.and_eq_true, decide_eq_true_eq, and_iff_left_iff_imp]
      exact hfirst.trans_le
    · exact ⟨List.Sublist.refl _, fun _ _ => rfl⟩

/-- A subject that is stale has failures out of the window only. -/
theorem le_of_stale {l : List ℚ} (hsorted : l.Pairwise (· ≤ ·)) (h : b.stale now l = true) :
    ∀ ts ∈ l, ts ≤ now - b.window := by
  intro ts hts
  unfold stale at h
  rw [List.getLast?_eq_some_getLast (List.ne_nil_of_mem hts)] at h
  exact (hsorted.rel_getLast hts).trans (of_decide_eq_true h)

/-- `_sweep` drops subjects whose failures are out of the window. -/
theorem sweep_entries (hb : b.InOrder now) (subject : PyStr × PyStr) :
    (b.sweep now).entries subject = b.entries subject ∨
      (b.sweep now).entries subject = [] ∧ ∀ ts ∈ b.entries subject, ts ≤ now - b.window := by
  unfold sweep
  split
  · exact Or.inl rfl
  · unfold entries
    dsimp only
    rcases hget : b.failures.get subject with _ | l
    · refine Or.inl ?_
      rcases hfilter : (b.failures.filter fun entry => !b.stale now entry.2).get subject with _ | l
      · rfl
      · have := (Dict.get_of_get_filter hfilter).1
        rw [hget] at this
        cases this
    · by_cases hstale : b.stale now l = true
      · refine Or.inr ⟨?_, ?_⟩
        · rcases hfilter : (b.failures.filter fun entry => !b.stale now entry.2).get subject with
            _ | l'
          · rfl
          · obtain ⟨hsame, hkeep⟩ := Dict.get_of_get_filter hfilter
            obtain rfl : l = l' := Option.some.inj (hget.symm.trans hsame)
            rw [hstale] at hkeep
            cases hkeep
        · have hsorted := hb.sorted subject
          unfold entries at hsorted
          rw [hget] at hsorted
          exact le_of_stale hsorted hstale
      · refine Or.inl ?_
        rw [Dict.get_filter hget (by simpa using hstale)]

/-- What an operation that forgets nothing recent does to the backoff. -/
structure Remembers (b b' : LoginBackoff) (now : ℚ) : Prop where
  /-- the limit is the same -/
  limit : b'.limit = b.limit
  /-- the window is the same -/
  window : b'.window = b.window
  /-- the failures are in order -/
  inOrder : b'.InOrder now
  /-- no recent failure is lost -/
  since : ∀ subject first, now - b.window < first → b.since subject first ≤ b'.since subject first

theorem Remembers.trans {b' b'' : LoginBackoff} (h : b.Remembers b' now)
    (h' : b'.Remembers b'' now) : b.Remembers b'' now where
  limit := h'.limit.trans h.limit
  window := h'.window.trans h.window
  inOrder := h'.inOrder
  since subject first hfirst :=
    (h.since subject first hfirst).trans (h'.since subject first (by rwa [h.window]))

/-- The failures of one subject are replaced by some with the same recent ones. -/
theorem remembers_put (hb : b.InOrder now) {l : List ℚ} (hsorted : l.Pairwise (· ≤ ·))
    (hpast : ∀ ts ∈ l, ts ≤ now)
    (hsince : ∀ first, now - b.window < first →
      b.since subject first ≤ l.countP fun ts => decide (first ≤ ts)) :
    b.Remembers (b.put subject l) now := by
  refine ⟨rfl, rfl, ⟨fun other => ?_, fun other => ?_⟩, fun other first hfirst => ?_⟩
  · by_cases h : other = subject
    · rwa [h, entries_put]
    · rw [entries_put_ne _ h]
      exact hb.sorted other
  · by_cases h : other = subject
    · rwa [h, entries_put]
    · rw [entries_put_ne _ h]
      exact hb.past other
  · by_cases h : other = subject
    · rw [h, since, since, entries_put]
      exact hsince first hfirst
    · rw [since, since, entries_put_ne _ h]

theorem remembers_sweep (hb : b.InOrder now) : b.Remembers (b.sweep now) now := by
  have hsame : (b.sweep now).limit = b.limit ∧ (b.sweep now).window = b.window := by
    unfold sweep
    split <;> exact ⟨rfl, rfl⟩
  refine ⟨hsame.1, hsame.2, ⟨fun subject => ?_, fun subject => ?_⟩, fun subject first hfirst => ?_⟩
  · rcases sweep_entries hb subject with h | ⟨h, -⟩ <;> rw [h]
    · exact hb.sorted subject
    · exact List.Pairwise.nil
  · rcases sweep_entries hb subject with h | ⟨h, -⟩ <;> rw [h]
    · exact hb.past subject
    · exact fun _ hts => absurd hts List.not_mem_nil
  · rcases sweep_entries hb subject with h | ⟨-, hold⟩
    · rw [since, since, h]
    · refine (Nat.le_of_eq (List.countP_eq_zero.mpr fun ts hts => ?_)).trans (Nat.zero_le _)
      rw [decide_eq_true_iff, not_le]
      exact (hold ts hts).trans_lt hfirst

/-- A failure, or a refusal, is put at the end. -/
theorem remembers_put_note (subject : PyStr × PyStr) (hb : b.InOrder now) :
    b.Remembers (b.put subject (b.pruned subject now ++ [now])) now := by
  obtain ⟨hsub, hsince⟩ := pruned_spec b subject now
  have hpast : ∀ ts ∈ b.pruned subject now, ts ≤ now := fun ts hts =>
    hb.past subject ts (hsub.subset hts)
  refine remembers_put hb ?_ (fun ts hts => ?_) fun first hfirst => ?_
  · refine List.pairwise_append.mpr ⟨(hb.sorted subject).sublist hsub,
      List.pairwise_singleton _ _, fun ts hts ts' hts' => ?_⟩
    rw [List.mem_singleton.mp hts']
    exact hpast ts hts
  · rcases List.mem_append.mp hts with hts | hts
    · exact hpast ts hts
    · exact (List.mem_singleton.mp hts).le
  · rw [List.countP_append, hsince first hfirst]
    exact Nat.le_add_right _ _

/-- A failure, or a refusal, is noted. -/
theorem remembers_note (subject : PyStr × PyStr) (hb : b.InOrder now) :
    b.Remembers ((b.put subject (b.pruned subject now ++ [now])).sweep now) now ∧
      ∀ first, now - b.window < first → first ≤ now → b.since subject first + 1 ≤
        ((b.put subject (b.pruned subject now ++ [now])).sweep now).since subject first := by
  obtain ⟨-, hsince⟩ := pruned_spec b subject now
  have hput := remembers_put_note subject hb
  have hsweep := remembers_sweep hput.inOrder
  refine ⟨hput.trans hsweep, fun first hfirst hnow => ?_⟩
  refine le_trans ?_ (hsweep.since subject first hfirst)
  show _ ≤ ((b.put subject (b.pruned subject now ++ [now])).entries subject).countP
    fun ts => decide (first ≤ ts)
  rw [entries_put, List.countP_append, hsince first hfirst, List.countP_singleton,
    if_pos (decide_eq_true hnow)]

/-- What `refused` looks at holds all recent failures. -/
theorem since_le_pruned (subject : PyStr × PyStr) {first : ℚ} (hfirst : now - b.window < first) :
    b.since subject first ≤ (b.pruned subject now).length := by
  rw [← (pruned_spec b subject now).2 first hfirst]
  exact List.countP_le_length

theorem remembers_refused (subject : PyStr × PyStr) (hb : b.InOrder now) :
    b.Remembers (b.refused subject now).2 now := by
  obtain ⟨hsub, hsince⟩ := pruned_spec b subject now
  unfold refused
  dsimp only
  split
  · refine remembers_put hb ((hb.sorted subject).sublist hsub) (fun ts hts => ?_)
      fun first hfirst => (hsince first hfirst).ge
    exact hb.past subject ts (hsub.subset hts)
  · exact (remembers_note subject hb).1

/-- A filter by subject keeps the failures of a subject or drops them all. -/
theorem entries_clearEmail (email : PyStr) (subject : PyStr × PyStr) :
    (b.clearEmail email).entries subject = if subject.2 = email then [] else b.entries subject := by
  unfold entries clearEmail
  dsimp only
  rcases hget : (b.failures.filter fun entry => decide (entry.1.2 ≠ email)).get subject with _ | l
  · rcases hall : b.failures.get subject with _ | l
    · split <;> rfl
    · by_cases h : subject.2 = email
      · rw [if_pos h]
        rfl
      · rw [Dict.get_filter hall (decide_eq_true h)] at hget
        cases hget
  · obtain ⟨hall, hkeep⟩ := Dict.get_of_get_filter hget
    rw [if_neg (of_decide_eq_true hkeep), hall]

theorem entries_clear (subject other : PyStr × PyStr) :
    (b.clear subject).entries other = if other = subject then [] else b.entries other := by
  by_cases h : other = subject
  · rw [if_pos h, h]
    unfold entries clear
    rw [Dict.get_erase_self]
    rfl
  · rw [if_neg h]
    unfold entries clear
    rw [Dict.get_erase_ne _ h]

/-- Dropping subjects leaves the others in order. -/
theorem InOrder.forget (hb : b.InOrder now) {b' : LoginBackoff}
    (h : ∀ subject, b'.entries subject = [] ∨ b'.entries subject = b.entries subject) :
    b'.InOrder now := by
  refine ⟨fun subject => ?_, fun subject => ?_⟩ <;> rcases h subject with h | h <;> rw [h]
  · exact List.Pairwise.nil
  · exact hb.sorted subject
  · exact fun _ hts => absurd hts List.not_mem_nil
  · exact hb.past subject

end LoginBackoff

namespace GuessSystem

variable {L : AuthLib} {s t : GuessSystem}

/-- What a step of a login does. -/
theorem goOn_cases {i : ℕ} {place : GuessStage} {f : Guess → GuessStage × LoginBackoff}
    (h : s.goOn i place f = some t) : ∃ g, s.guesses[i]? = some g ∧ g.stage = place ∧
      t = { s with
        backoff := (f g).2
        guesses := s.guesses.set i { g with stage := (f g).1 } } := by
  unfold goOn at h
  rcases hg : s.guesses[i]? with _ | g
  · rw [hg] at h
    cases h
  · rw [hg] at h
    dsimp only at h
    split at h
    · next hplace => exact ⟨g, rfl, hplace, (Option.some.inj h).symm⟩
    · cases h

/-- The logins of a subject at a place, when a login goes on. -/
theorem countAt_set {i : ℕ} {g : Guess} (hg : s.guesses[i]? = some g) (stage : GuessStage)
    (b : LoginBackoff) (subject : PyStr × PyStr) (place : GuessStage) :
    GuessSystem.countAt { s with
        backoff := b
        guesses := s.guesses.set i { g with stage := stage } } subject place +
      (if g.subject = subject ∧ g.stage = place then 1 else 0) =
    s.countAt subject place + if g.subject = subject ∧ stage = place then 1 else 0 := by
  obtain ⟨hi, hget⟩ := List.getElem?_eq_some_iff.mp hg
  unfold countAt
  rw [List.countP_set hi, hget]
  have hpos : (if g.subject = subject ∧ g.stage = place then 1 else 0) ≤
      s.guesses.countP fun g => decide (g.subject = subject) && decide (g.stage = place) := by
    split
    · next h =>
      refine List.countP_pos_iff.mpr ⟨g, List.mem_of_getElem? hg, ?_⟩
      simpa using h
    · exact Nat.zero_le _
  simp only [Bool.and_eq_true, decide_eq_true_eq]
  omega

/-- The step that a login takes: its place then, and the backoff. -/
inductive Moves (s : GuessSystem) (i : ℕ) (g : Guess) :
    GuessAct → GuessStage → LoginBackoff → Prop where
  /-- it gets past the check -/
  | pass : g.stage = .asking → (s.backoff.refused g.subject s.now).1 = none →
      Moves s i g (.check i) .unverified (s.backoff.refused g.subject s.now).2
  /-- it is refused -/
  | block (retry : ℕ) : g.stage = .asking →
      Moves s i g (.check i) (.blocked retry) (s.backoff.refused g.subject s.now).2
  /-- its password is right -/
  | right (db : Db) : g.stage = .unverified → Moves s i g (.verify i db) .verified s.backoff
  /-- its password is wrong -/
  | wrong (db : Db) : g.stage = .unverified → Moves s i g (.verify i db) .unrecorded s.backoff
  /-- its `SELECT` raises -/
  | abort : g.stage = .unverified → Moves s i g (.abort i) .over s.backoff
  /-- its failure is recorded -/
  | record : g.stage = .unrecorded →
      Moves s i g (.record i) .over (s.backoff.recordFailure g.subject s.now).2
  /-- its subject is cleared -/
  | clear : g.stage = .verified → Moves s i g (.clear i) .over (s.backoff.clear g.subject)

/-- What a step does. -/
theorem step_cases {a : GuessAct} (h : s.step L a = some t) :
    (∃ r, a = .arrive r ∧ (t = s ∨
      ∃ g : Guess, g.stage = .asking ∧ t = { s with guesses := s.guesses ++ [g] })) ∨
    (∃ i g stage b, s.guesses[i]? = some g ∧ s.Moves i g a stage b ∧
      t = { s with backoff := b, guesses := s.guesses.set i { g with stage := stage } }) ∨
    (∃ email, a = .clearEmail email ∧ t = { s with backoff := s.backoff.clearEmail email }) ∨
    ∃ seconds nonneg, a = .wait seconds nonneg ∧ t = { s with now := s.now + seconds } := by
  cases a with
  | arrive r =>
    refine Or.inl ⟨r, rfl, ?_⟩
    simp only [step] at h
    split at h
    · exact Or.inl (Option.some.inj h).symm
    · exact Or.inr ⟨_, rfl, (Option.some.inj h).symm⟩
  | check i =>
    obtain ⟨g, hg, hplace, rfl⟩ := goOn_cases h
    refine Or.inr (Or.inl ⟨i, g, _, _, hg, ?_, rfl⟩)
    rcases hrefused : s.backoff.refused g.subject s.now with ⟨_ | retry, b⟩
    · have hmove := Moves.pass (i := i) hplace (by rw [hrefused])
      rwa [hrefused] at hmove
    · have hmove := Moves.block (s := s) (i := i) retry hplace
      rwa [hrefused] at hmove
  | verify i db =>
    obtain ⟨g, hg, hplace, rfl⟩ := goOn_cases h
    refine Or.inr (Or.inl ⟨i, g, _, _, hg, ?_, rfl⟩)
    dsimp only
    split
    · exact Moves.right db hplace
    · exact Moves.wrong db hplace
  | abort i =>
    obtain ⟨g, hg, hplace, rfl⟩ := goOn_cases h
    exact Or.inr (Or.inl ⟨i, g, _, _, hg, Moves.abort hplace, rfl⟩)
  | record i =>
    obtain ⟨g, hg, hplace, rfl⟩ := goOn_cases h
    exact Or.inr (Or.inl ⟨i, g, _, _, hg, Moves.record hplace, rfl⟩)
  | clear i =>
    obtain ⟨g, hg, hplace, rfl⟩ := goOn_cases h
    exact Or.inr (Or.inl ⟨i, g, _, _, hg, Moves.clear hplace, rfl⟩)
  | clearEmail email =>
    exact Or.inr (Or.inr (Or.inl ⟨email, rfl, (Option.some.inj h).symm⟩))
  | wait seconds nonneg =>
    exact Or.inr (Or.inr (Or.inr ⟨seconds, nonneg, rfl, (Option.some.inj h).symm⟩))

/-- A login that arrives is before its check. -/
theorem countAt_arrive {g : Guess} (hg : g.stage = .asking) {subject : PyStr × PyStr}
    {place : GuessStage} (hplace : place ≠ .asking) :
    countAt { s with guesses := s.guesses ++ [g] } subject place = s.countAt subject place := by
  unfold countAt
  rw [List.countP_append, List.countP_singleton, hg, decide_eq_false hplace.symm]
  simp only [Bool.and_false, Bool.false_eq_true, if_false, Nat.add_zero]

/-- The step of a login is a wrong guess if it verifies a wrong password. -/
theorem wrongGuess_moves {i : ℕ} {g : Guess} {a : GuessAct} {stage : GuessStage}
    {b : LoginBackoff} (hg : s.guesses[i]? = some g) (hm : s.Moves i g a stage b)
    (subject : PyStr × PyStr) :
    [(⟨s, a, { s with backoff := b, guesses := s.guesses.set i { g with stage := stage } }⟩ :
      Machine.Event GuessSystem GuessAct)].countP (wrongGuess subject) =
    if g.subject = subject ∧ stage = .unrecorded then 1 else 0 := by
  have hself : (s.guesses.set i { g with stage := stage })[i]? = some { g with stage := stage } :=
    List.getElem?_set_self (List.getElem?_eq_some_iff.mp hg).1
  rw [List.countP_singleton]
  cases hm <;> simp [wrongGuess, hself]

/-- A step verifies passwords that were past the check, or lets a login past it. -/
theorem unverified_step {a : GuessAct} (h : s.step L a = some t) (hbudget : s.WithinBudget a)
    (subject : PyStr × PyStr) :
    t.countAt subject .unverified + [⟨s, a, t⟩].countP (wrongGuess subject) ≤
        s.countAt subject .unverified ∨
      [⟨s, a, t⟩].countP (wrongGuess subject) = 0 ∧
        (s.backoff.pruned subject s.now).length + s.countAt subject .unrecorded +
          t.countAt subject .unverified ≤ s.backoff.limit := by
  rcases step_cases h with ⟨r, rfl, rfl | ⟨g, hg, rfl⟩⟩ | ⟨i, g, stage, b, hg, hm, rfl⟩ |
    ⟨email, rfl, rfl⟩ | ⟨seconds, nonneg, rfl, rfl⟩
  · exact Or.inl le_rfl
  · exact Or.inl (countAt_arrive hg GuessStage.noConfusion).le
  · rw [wrongGuess_moves hg hm]
    have hset := countAt_set hg stage b subject .unverified
    cases hm with
    | pass hplace hpast =>
      by_cases hsubject : g.subject = subject
      · have hroom := hbudget g hg hpast
        subst hsubject
        refine Or.inr ⟨if_neg fun h => GuessStage.noConfusion h.2, ?_⟩
        simp only [hplace, reduceCtorEq, and_false, if_false, and_self, if_true] at hset
        omega
      · simp only [hsubject, false_and, if_false] at hset ⊢
        exact Or.inl hset.le
    | block retry hplace =>
      simp only [hplace, reduceCtorEq, and_false, if_false] at hset ⊢
      exact Or.inl hset.le
    | record hplace =>
      simp only [hplace, reduceCtorEq, and_false, if_false] at hset ⊢
      exact Or.inl hset.le
    | clear hplace =>
      simp only [hplace, reduceCtorEq, and_false, if_false] at hset ⊢
      exact Or.inl hset.le
    | right db hplace =>
      simp only [hplace, reduceCtorEq, and_false, and_true, if_false] at hset ⊢
      left
      omega
    | wrong db hplace =>
      simp only [hplace, reduceCtorEq, and_false, and_true, if_false] at hset ⊢
      exact Or.inl hset.le
    | abort hplace =>
      simp only [hplace, reduceCtorEq, and_false, and_true, if_false] at hset ⊢
      left
      omega
  · exact Or.inl le_rfl
  · exact Or.inl le_rfl

/-- A wrong guess is recorded, or is to be recorded; a recent failure stays, unless the
subject is reset. -/
theorem recorded_step {a : GuessAct} (h : s.step L a = some t) (hb : s.backoff.InOrder s.now)
    {subject : PyStr × PyStr} {first : ℚ} (hfirst : s.now - s.backoff.window < first)
    (hnow : first ≤ s.now) (hquiet : resets subject ⟨s, a, t⟩ = false) :
    s.backoff.since subject first + s.countAt subject .unrecorded +
        [⟨s, a, t⟩].countP (wrongGuess subject) ≤
      t.backoff.since subject first + t.countAt subject .unrecorded := by
  rcases step_cases h with ⟨r, rfl, rfl | ⟨g, hg, rfl⟩⟩ | ⟨i, g, stage, b, hg, hm, rfl⟩ |
    ⟨email, rfl, rfl⟩ | ⟨seconds, nonneg, rfl, rfl⟩
  · exact le_rfl
  · rw [countAt_arrive hg GuessStage.noConfusion]
    exact le_rfl
  · rw [wrongGuess_moves hg hm]
    have hset := countAt_set hg stage b subject .unrecorded
    cases hm with
    | pass hplace _ =>
      simp only [hplace, reduceCtorEq, and_false, if_false] at hset ⊢
      have hsince := (LoginBackoff.remembers_refused g.subject hb).since
        subject first hfirst
      omega
    | block retry hplace =>
      simp only [hplace, reduceCtorEq, and_false, if_false] at hset ⊢
      have hsince := (LoginBackoff.remembers_refused g.subject hb).since
        subject first hfirst
      omega
    | record hplace =>
      obtain ⟨hkeeps, hnoted⟩ := LoginBackoff.remembers_note g.subject hb
      by_cases hsubject : g.subject = subject
      · subst hsubject
        have hmore := hnoted first hfirst hnow
        simp only [hplace, reduceCtorEq, and_false, and_true, if_false, if_true,
          LoginBackoff.recordFailure] at hset ⊢
        omega
      · have hsince := hkeeps.since subject first hfirst
        simp only [hsubject, false_and, if_false, LoginBackoff.recordFailure] at hset ⊢
        omega
    | clear hplace =>
      have hne : subject ≠ g.subject := by
        rintro rfl
        simp [resets, hg] at hquiet
      simp only [hplace, reduceCtorEq, and_false, if_false] at hset ⊢
      simp only [LoginBackoff.since, LoginBackoff.entries_clear, if_neg hne]
      omega
    | right db hplace =>
      simp only [hplace, reduceCtorEq, and_false, if_false] at hset ⊢
      omega
    | wrong db hplace =>
      simp only [hplace, reduceCtorEq, and_false, and_true, if_false] at hset ⊢
      omega
    | abort hplace =>
      simp only [hplace, reduceCtorEq, and_false, if_false] at hset ⊢
      omega
  · have hne : ¬subject.2 = email := by simpa [resets] using hquiet
    simp only [LoginBackoff.since, LoginBackoff.entries_clearEmail, if_neg hne]
    exact le_rfl
  · exact le_rfl

/-- The failures stay in order, and the limit and the window what they are. -/
theorem inOrder_step {a : GuessAct} (h : s.step L a = some t) (hb : s.backoff.InOrder s.now) :
    t.backoff.InOrder t.now ∧ t.backoff.limit = s.backoff.limit ∧
      t.backoff.window = s.backoff.window := by
  rcases step_cases h with ⟨r, rfl, rfl | ⟨g, hg, rfl⟩⟩ | ⟨i, g, stage, b, hg, hm, rfl⟩ |
    ⟨email, rfl, rfl⟩ | ⟨seconds, nonneg, rfl, rfl⟩
  · exact ⟨hb, rfl, rfl⟩
  · exact ⟨hb, rfl, rfl⟩
  · cases hm with
    | pass _ _ | block _ _ =>
      have hkeeps := LoginBackoff.remembers_refused g.subject hb
      exact ⟨hkeeps.inOrder, hkeeps.limit, hkeeps.window⟩
    | record _ =>
      have hkeeps := (LoginBackoff.remembers_note g.subject hb).1
      exact ⟨hkeeps.inOrder, hkeeps.limit, hkeeps.window⟩
    | clear _ =>
      refine ⟨hb.forget fun other => ?_, rfl, rfl⟩
      rw [LoginBackoff.entries_clear]
      split
      · exact Or.inl rfl
      · exact Or.inr rfl
    | right _ _ | wrong _ _ | abort _ => exact ⟨hb, rfl, rfl⟩
  · refine ⟨hb.forget fun other => ?_, rfl, rfl⟩
    rw [LoginBackoff.entries_clearEmail]
    split
    · exact Or.inl rfl
    · exact Or.inr rfl
  · refine ⟨⟨hb.sorted, fun subject ts hts => ?_⟩, rfl, rfl⟩
    exact (hb.past subject ts hts).trans (le_add_of_nonneg_right nonneg)

end GuessSystem

/-! ## The limit along a run -/

/-- Steps within a window from `first` on, none of which resets the subject. -/
def Quiet (window : ℚ) (subject : PyStr × PyStr) (first : ℚ)
    (es : List (Machine.Event GuessSystem GuessAct)) : Prop :=
  ∀ e ∈ es, first ≤ e.pre.now ∧ e.pre.now - window < first ∧ resets subject e = false

/-- What holds after the steps `es` as long as logins are within the budget. -/
structure Guarded (limit : ℕ) (window : ℚ) (es : List (Machine.Event GuessSystem GuessAct))
    (s : GuessSystem) : Prop where
  /-- the limit is the configured one -/
  sameLimit : s.backoff.limit = limit
  /-- so is the window -/
  sameWindow : s.backoff.window = window
  /-- the failures are in order -/
  inOrder : s.backoff.InOrder s.now
  /-- a recent wrong guess is recorded, or is to be recorded -/
  recorded : ∀ subject before mid first, es = before ++ mid → Quiet window subject first mid →
    mid.countP (wrongGuess subject) ≤
      s.backoff.since subject first + s.countAt subject .unrecorded
  /-- the logins past the check stay within the limit, with the recent wrong guesses -/
  bounded : ∀ subject before mid first, es = before ++ mid → Quiet window subject first mid →
    mid.countP (wrongGuess subject) + s.countAt subject .unverified ≤ limit

namespace Guarded

variable {L : AuthLib} {limit : ℕ} {window : ℚ} {s t : GuessSystem}
  {es : List (Machine.Event GuessSystem GuessAct)}

/-- The step lemma. -/
theorem step (h : Guarded limit window es s) {a : GuessAct} (hstep : s.step L a = some t)
    (hbudget : s.WithinBudget a) : Guarded limit window (es ++ [⟨s, a, t⟩]) t := by
  obtain ⟨horder, hlimit, hwindow⟩ := GuessSystem.inOrder_step hstep h.inOrder
  have hroom := GuessSystem.unverified_step hstep hbudget
  refine ⟨hlimit.trans h.sameLimit, hwindow.trans h.sameWindow, horder,
    fun subject before mid first hsplit hquiet => ?_,
    fun subject before mid first hsplit hquiet => ?_⟩
  · rcases List.eq_nil_or_concat mid with rfl | ⟨mid, e, rfl⟩
    · exact Nat.zero_le _
    · rw [List.concat_eq_append, ← List.append_assoc] at hsplit
      rw [List.concat_eq_append] at hquiet ⊢
      obtain ⟨rfl, he⟩ := List.append_inj' hsplit rfl
      obtain rfl := List.singleton_inj.mp he
      obtain ⟨hnow, hfirst, hkept⟩ :=
        hquiet _ (List.mem_append_right _ (List.mem_singleton_self _))
      have hbefore := h.recorded subject before mid first rfl fun e he =>
        hquiet e (List.mem_append_left _ he)
      have hrecorded := GuessSystem.recorded_step hstep h.inOrder (by rwa [h.sameWindow]) hnow hkept
      rw [List.countP_append]
      omega
  · rcases List.eq_nil_or_concat mid with rfl | ⟨mid, e, rfl⟩
    · -- nothing is counted, but a login may have got past the check
      have hnil := h.bounded subject es [] 0 (List.append_nil es).symm fun e he => by cases he
      rw [List.countP_nil] at hnil ⊢
      have hlimit := h.sameLimit
      rcases hroom subject with hroom | ⟨-, hroom⟩ <;> omega
    · rw [List.concat_eq_append, ← List.append_assoc] at hsplit
      rw [List.concat_eq_append] at hquiet ⊢
      obtain ⟨rfl, he⟩ := List.append_inj' hsplit rfl
      obtain rfl := List.singleton_inj.mp he
      have hfirst : s.now - s.backoff.window < first := by
        rw [h.sameWindow]
        exact (hquiet _ (List.mem_append_right _ (List.mem_singleton_self _))).2.1
      have hquiet' : Quiet window subject first mid := fun e he =>
        hquiet e (List.mem_append_left _ he)
      have hbefore := h.bounded subject before mid first rfl hquiet'
      have hrecorded := h.recorded subject before mid first rfl hquiet'
      have hpruned := LoginBackoff.since_le_pruned subject hfirst
      have hlimit := h.sameLimit
      rw [List.countP_append]
      rcases hroom subject with hroom | ⟨hnone, hroom⟩ <;> omega

/-- A process that has just started. -/
theorem start {limit : ℤ} (hlimit : 1 ≤ limit) (hs : s.Start limit window) :
    Guarded limit.toNat window [] s := by
  obtain ⟨hbackoff, hguesses⟩ := hs
  have hentries : ∀ subject, s.backoff.entries subject = [] := fun _ => by
    rw [hbackoff]
    rfl
  refine ⟨?_, ?_, ⟨fun subject => ?_, fun subject => ?_⟩, fun _ before mid _ hnil _ => ?_,
    fun _ before mid _ hnil _ => ?_⟩
  · rw [hbackoff, LoginBackoff.create, max_eq_right hlimit]
  · rw [hbackoff, LoginBackoff.create]
  · rw [hentries]
    exact List.Pairwise.nil
  · rw [hentries]
    exact fun _ hts => absurd hts List.not_mem_nil
  · obtain ⟨-, rfl⟩ := List.append_eq_nil_iff.mp hnil.symm
    exact Nat.zero_le _
  · obtain ⟨-, rfl⟩ := List.append_eq_nil_iff.mp hnil.symm
    rw [GuessSystem.countAt, hguesses]
    exact Nat.zero_le _

/-- The invariant along a run. -/
theorem run {limit : ℤ} (hlimit : 1 ≤ limit) (hs : s.Start limit window)
    (hrun : (GuessSystem.machine L limit window).Run s es t)
    (hbudget : ∀ e ∈ es, e.pre.WithinBudget e.act) : Guarded limit.toNat window es t :=
  hrun.history (fun _ _ _ _ h hbudget hstep => h.step hstep hbudget) (start hlimit hs) hbudget

end Guarded

/-- **The guess limit.** In every run in which a login gets past the check only within the
budget of its subject, an interval shorter than the window has at most `limit` wrong
guesses. -/
theorem guess_limit {L : AuthLib} {limit : ℤ} {window : ℚ} (hlimit : 1 ≤ limit)
    {s t : GuessSystem} {es : List (Machine.Event GuessSystem GuessAct)}
    (hinit : (GuessSystem.machine L limit window).init s)
    (hrun : (GuessSystem.machine L limit window).Run s es t)
    (hbudget : ∀ e ∈ es, e.pre.WithinBudget e.act) : GuessLimit limit window es := by
  intro subject before mid after first last hsplit hshort hmid
  subst hsplit
  obtain ⟨u, hupto, -⟩ := hrun.of_append
  have hu := Guarded.run hlimit hinit hupto fun e he => hbudget e (List.mem_append_left _ he)
  have hbound := hu.bounded subject before mid first rfl fun e he => by
    obtain ⟨hfirst, hlast, hkept⟩ := hmid e he
    exact ⟨hfirst, by linarith, hkept⟩
  omega

/-- The steps of a login, one right after the other, are `login`: it is blocked, its
password is right, or wrong. -/
theorem alone_guess {L : AuthLib} {limit : ℤ} {window : ℚ} (s : GuessSystem) (db : Db)
    (r : Auth.LoginRequest) (ttl now : ℚ) {email password : PyStr}
    (hf : Auth.loginFields L r.toSessionRequest = .ok (email, password))
    (hlimited : r.limited = true)
    (hrefused : r.refused = (s.backoff.refused (r.clientIp, email) s.now).1) :
    ∃ acts t stage, (GuessSystem.machine L limit window).exec s acts = some t ∧
      t.guesses = s.guesses ++ [⟨(r.clientIp, email), password, stage⟩] ∧
      ((∃ retry, stage = .blocked retry ∧
          (Auth.login L ttl r now db).1 = .ok (.rateLimited retry)) ∨
        (∃ payload, stage = .verified ∧
          (Auth.login L ttl r now db).1 = .ok (.signedIn r.token payload)) ∨
        ∃ e, stage = .unrecorded ∧ (Auth.login L ttl r now db).1 = .error e) := by
  have hlast : ∀ g : Guess, (s.guesses ++ [g])[s.guesses.length]? = some g :=
    fun g => List.getElem?_concat_length ..
  have hset : ∀ g g' : Guess, (s.guesses ++ [g]).set s.guesses.length g' = s.guesses ++ [g'] :=
    fun g g' => by rw [List.set_append_right _ _ le_rfl, Nat.sub_self, List.set_cons_zero]
  rw [Auth.login_eq, hf]
  simp only [hlimited, if_true]
  rcases hcheck : s.backoff.refused (r.clientIp, email) s.now with ⟨_ | retry, b⟩
  · have hpast : (GuessSystem.machine L limit window).exec s
        [.arrive r.toSessionRequest, .check s.guesses.length] =
          some { s with
            backoff := b
            guesses := s.guesses ++ [⟨(r.clientIp, email), password, .unverified⟩] } := by
      simp only [Machine.exec, GuessSystem.machine, GuessSystem.step, hf, Option.bind_some,
        GuessSystem.goOn, hlast, if_true, hset, hcheck]
    have hverify : ∀ stage : GuessStage, (if Auth.verifyOrDummy L password
        (Auth.storedHash (Auth.userByEmail db email)) then .verified else .unrecorded) = stage →
        (GuessSystem.machine L limit window).exec s
          ([.arrive r.toSessionRequest, .check s.guesses.length] ++ [.verify s.guesses.length db]) =
            some { s with
              backoff := b
              guesses := s.guesses ++ [⟨(r.clientIp, email), password, stage⟩] } := by
      rintro stage rfl
      rw [Machine.exec_append, hpast]
      simp only [Machine.exec, GuessSystem.machine, GuessSystem.step, Option.bind_some,
        GuessSystem.goOn, hlast, if_true, hset]
    rw [hrefused, hcheck]
    dsimp only
    rcases huser : Auth.userByEmail db email with _ | user
    · rw [huser] at hverify
      exact ⟨_, _, _, hverify .unrecorded rfl, rfl, Or.inr (Or.inr ⟨_, rfl, rfl⟩)⟩
    · rw [huser] at hverify
      dsimp only
      by_cases hv : Auth.verifyOrDummy L password (Auth.storedHash (some user)) = true
      · rw [if_pos hv]
        exact ⟨_, _, _, hverify .verified (if_pos hv), rfl, Or.inr (Or.inl ⟨_, rfl, rfl⟩)⟩
      · rw [if_neg hv]
        exact ⟨_, _, _, hverify .unrecorded (if_neg hv), rfl, Or.inr (Or.inr ⟨_, rfl, rfl⟩)⟩
  · have hblocked : (GuessSystem.machine L limit window).exec s
        [.arrive r.toSessionRequest, .check s.guesses.length] =
          some { s with
            backoff := b
            guesses := s.guesses ++ [⟨(r.clientIp, email), password, .blocked retry⟩] } := by
      simp only [Machine.exec, GuessSystem.machine, GuessSystem.step, hf, Option.bind_some,
        GuessSystem.goOn, hlast, if_true, hset, hcheck]
    rw [hrefused, hcheck]
    exact ⟨_, _, _, hblocked, rfl, Or.inl ⟨retry, rfl, rfl⟩⟩

/-! ## Logins at once -/

/-- A login of the viewer with a wrong password. -/
def wrongLogin : GuessAct := .arrive {
  body := .ok (.obj [(py "email", .str (py "v@x.y")), (py "password", .str (py "guess"))])
  clientIp := py "10.0.0.1" }

/-- Before any login; five wrong guesses are allowed in a quarter of an hour. -/
def noGuesses : GuessSystem := { backoff := .create 5 900, now := 0 }

/-- Six logins are checked before the first of them has verified its password. -/
def sixAtOnce : List GuessAct :=
  List.replicate 6 wrongLogin ++ (List.range 6).map .check ++
    (List.range 6).map fun i => .verify i ownerAndViewer.db

/-- All six passwords are verified. -/
theorem six_guesses_at_once : ¬∀ (L : AuthLib) (limit : ℤ) (window : ℚ), 1 ≤ limit → 0 < window →
    ∀ s es t, (GuessSystem.machine L limit window).init s →
      (GuessSystem.machine L limit window).Run s es t → GuessLimit limit window es := by
  intro h
  have hlimit := h plainLib 5 900 (by decide) (by decide) noGuesses _ _ ⟨rfl, rfl⟩
    (Machine.Run.of_final (l := sixAtOnce) (by decide +kernel)) (py "10.0.0.1", py "v@x.y") [] _ []
    0 0 (List.append_nil _).symm (by norm_num) (by decide +kernel)
  exact absurd hlimit (by decide +kernel)

/-- Five logins, one after the other, and a sixth that is refused. -/
def sixInTurn : List GuessAct :=
  ((List.range 5).flatMap fun i =>
    [wrongLogin, .check i, .verify i ownerAndViewer.db, .record i, .wait 60 (by decide)]) ++
    [wrongLogin, .check 5]

theorem sixInTurn_guesses : ∃ es t, (GuessSystem.machine plainLib 5 900).Run noGuesses es t ∧
    es.map Machine.Event.act = sixInTurn ∧
    es.countP (wrongGuess (py "10.0.0.1", py "v@x.y")) = 5 ∧ GuessLimit 5 900 es := by
  obtain ⟨hrun, hacts⟩ := Machine.Run.of_events (Machine.exec_final
    (M := GuessSystem.machine plainLib 5 900) (s := noGuesses) (l := sixInTurn) (by decide +kernel))
  exact ⟨_, _, hrun, hacts, by decide +kernel,
    guess_limit (by decide) ⟨rfl, rfl⟩ hrun (by decide +kernel)⟩

end LayaWatch
