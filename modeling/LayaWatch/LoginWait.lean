import LayaWatch.LoginLimit

/-!
# How long a login waits

`refused` notes its own refusals in the list that it counts, next to the failures. So
the wait that it names need not be enough: it is exactly where the failures that keep
the subject refused leave the window by then (`retry_after_honest`). And a subject that
goes on trying can stay refused after its failures have left the window: it does not
exactly where it was refused fewer times than the limit (`lockout_ends`).
-/

namespace LayaWatch

/-- The backoff, and the clock. -/
structure BackoffState where
  /-- `BACKOFF` -/
  backoff : LoginBackoff
  /-- `time.monotonic()` -/
  now : ℚ

/-- What is done next. -/
inductive BackoffAct where
  /-- `refused` -/
  | refused (subject : PyStr × PyStr)
  /-- `record_failure` -/
  | recordFailure (subject : PyStr × PyStr)
  /-- `clear` -/
  | clear (subject : PyStr × PyStr)
  /-- `clear_email` -/
  | clearEmail (email : PyStr)
  /-- time passes -/
  | wait (seconds : ℚ) (nonneg : 0 ≤ seconds)

/-- The act is about the subject. -/
def BackoffAct.concerns (subject : PyStr × PyStr) : BackoffAct → Bool
  | refused other | recordFailure other | clear other => decide (other = subject)
  | clearEmail email => decide (subject.2 = email)
  | wait _ _ => false

namespace BackoffState

/-- One step. -/
def step (s : BackoffState) : BackoffAct → BackoffState
  | .refused subject => { s with backoff := (s.backoff.refused subject s.now).2 }
  | .recordFailure subject => { s with backoff := (s.backoff.recordFailure subject s.now).2 }
  | .clear subject => { s with backoff := s.backoff.clear subject }
  | .clearEmail email => { s with backoff := s.backoff.clearEmail email }
  | .wait seconds _ => { s with now := s.now + seconds }

/-- The process has just started. -/
def Start (limit : ℤ) (window : ℚ) (s : BackoffState) : Prop := s.backoff = .create limit window

/-- All histories of the backoff. -/
def machine (limit : ℤ) (window : ℚ) : Machine BackoffState BackoffAct :=
  ⟨Start limit window, fun s a => some (s.step a)⟩

end BackoffState

/-- A step of the backoff. -/
abbrev BackoffEvent : Type := Machine.Event BackoffState BackoffAct

/-! ## What is noted of a subject -/

/-- A time in the list of a subject. -/
structure Stamp where
  /-- when -/
  time : ℚ
  /-- it was a refusal, not a wrong password -/
  refusal : Bool

/-- What a step notes of a subject, or forgets. -/
def noteStamp (subject : PyStr × PyStr) (stamps : List Stamp) (e : BackoffEvent) : List Stamp :=
  match e.act with
  | .refused other =>
    if other = subject ∧ (e.pre.backoff.refused other e.pre.now).1.isSome = true then
      stamps ++ [⟨e.pre.now, true⟩]
    else stamps
  | .recordFailure other => if other = subject then stamps ++ [⟨e.pre.now, false⟩] else stamps
  | .clear other => if other = subject then [] else stamps
  | .clearEmail email => if subject.2 = email then [] else stamps
  | .wait _ _ => stamps

/-- What was noted of a subject since it was cleared. -/
def stampsOf (subject : PyStr × PyStr) (es : List BackoffEvent) : List Stamp :=
  es.foldl (noteStamp subject) []

namespace LoginBackoff

variable {b : LoginBackoff} {subject other : PyStr × PyStr} {now : ℚ} {l : List ℚ}

/-- The times after some time. -/
def recent (cutoff : ℚ) (l : List ℚ) : List ℚ := l.filter fun ts => decide (cutoff < ts)

theorem mem_recent {cutoff ts : ℚ} : ts ∈ recent cutoff l ↔ ts ∈ l ∧ cutoff < ts := by
  unfold recent
  rw [List.mem_filter, decide_eq_true_eq]

theorem recent_recent {cutoff cutoff' : ℚ} (h : cutoff ≤ cutoff') (l : List ℚ) :
    recent cutoff' (recent cutoff l) = recent cutoff' l := by
  unfold recent
  rw [List.filter_filter]
  refine List.filter_congr fun ts _ => ?_
  rw [Bool.and_eq_left_iff_imp]
  exact fun hts => decide_eq_true (h.trans_lt (of_decide_eq_true hts))

theorem recent_eq_nil {cutoff : ℚ} (h : ∀ ts ∈ l, ts ≤ cutoff) : recent cutoff l = [] :=
  List.filter_eq_nil_iff.mpr fun ts hts => by
    rw [decide_eq_true_eq, not_lt]
    exact h ts hts

/-- `_prune`, of times in order. -/
theorem pruned_eq_recent (hsorted : (b.entries subject).Pairwise (· ≤ ·)) :
    b.pruned subject now = recent (now - b.window) (b.entries subject) := by
  unfold pruned
  rcases hentries : b.entries subject with _ | ⟨oldest, rest⟩
  · rfl
  · rw [hentries] at hsorted
    dsimp only
    split
    · rfl
    · next hnew =>
      refine (List.filter_eq_self.mpr fun ts hts => decide_eq_true ?_).symm
      rcases List.mem_cons.mp hts with rfl | hts
      · exact not_le.mp hnew
      · exact (not_le.mp hnew).trans_le (List.rel_of_pairwise_cons hsorted hts)

theorem recent_pruned {later : ℚ} (hlater : now ≤ later) :
    recent (later - b.window) (b.pruned subject now) =
      recent (later - b.window) (b.entries subject) := by
  unfold pruned
  rcases b.entries subject with _ | ⟨oldest, rest⟩
  · rfl
  · dsimp only
    split
    · exact recent_recent (sub_le_sub_right hlater _) _
    · rfl

theorem recent_sweep {later : ℚ} (hb : b.InOrder now) (hlater : now ≤ later)
    (subject : PyStr × PyStr) : recent (later - b.window) ((b.sweep now).entries subject) =
      recent (later - b.window) (b.entries subject) := by
  rcases sweep_entries hb subject with h | ⟨h, hold⟩
  · rw [h]
  · rw [h]
    exact (recent_eq_nil fun ts hts =>
      (hold ts hts).trans (sub_le_sub_right hlater _)).symm

/-- The list of a subject against all that was noted of it: they agree on what is recent. -/
structure Recalls (b : LoginBackoff) (subject : PyStr × PyStr) (now : ℚ) (l : List ℚ) : Prop where
  /-- what was noted is in order -/
  sorted : l.Pairwise (· ≤ ·)
  /-- and not in the future -/
  past : ∀ ts ∈ l, ts ≤ now
  /-- the same is recent -/
  recent : ∀ later, now ≤ later →
    recent (later - b.window) (b.entries subject) = recent (later - b.window) l

theorem Recalls.nil (h : b.entries subject = []) : Recalls b subject now [] :=
  ⟨List.Pairwise.nil, fun _ h => (by cases h), fun later _ => by rw [h]⟩

/-- Nothing is done to the subject that matters. -/
theorem Recalls.same {b' : LoginBackoff} (h : Recalls b subject now l)
    (hwindow : b'.window = b.window) (hentries : ∀ later, now ≤ later →
      LoginBackoff.recent (later - b.window) (b'.entries subject) =
        LoginBackoff.recent (later - b.window) (b.entries subject)) : Recalls b' subject now l :=
  ⟨h.sorted, h.past, fun later hlater => by
    rw [hwindow, hentries later hlater, h.recent later hlater]⟩

theorem Recalls.later {later : ℚ} (h : Recalls b subject now l) (hlater : now ≤ later) :
    Recalls b subject later l :=
  ⟨h.sorted, fun ts hts => (h.past ts hts).trans hlater, fun _ h' =>
    h.recent _ (hlater.trans h')⟩

/-- What `_prune` returns is what is recent of all that was noted. -/
theorem Recalls.pruned (h : Recalls b subject now l) (hb : b.InOrder now) :
    b.pruned subject now = LoginBackoff.recent (now - b.window) l := by
  rw [pruned_eq_recent (hb.sorted subject), h.recent now le_rfl]

/-- A time is noted. -/
theorem Recalls.note (h : Recalls b subject now l) (hb : b.InOrder now) :
    Recalls ((b.put subject (b.pruned subject now ++ [now])).sweep now) subject now
      (l ++ [now]) := by
  refine ⟨List.pairwise_append.mpr ⟨h.sorted, List.pairwise_singleton _ _, ?_⟩, ?_, ?_⟩
  · intro ts hts ts' hts'
    rw [List.mem_singleton.mp hts']
    exact h.past ts hts
  · intro ts hts
    rcases List.mem_append.mp hts with hts | hts
    · exact h.past ts hts
    · exact (List.mem_singleton.mp hts).le
  · intro later hlater
    have hput := (remembers_put_note subject hb).inOrder
    rw [(remembers_sweep hput).window, recent_sweep hput hlater, entries_put]
    change LoginBackoff.recent (later - b.window) _ = _
    unfold LoginBackoff.recent
    rw [List.filter_append, List.filter_append]
    refine congrArg (· ++ _) ?_
    exact (recent_pruned hlater).trans (h.recent later hlater)

/-- Another subject is noted. -/
theorem Recalls.note_ne (h : Recalls b subject now l) (hb : b.InOrder now)
    (hother : subject ≠ other) :
    Recalls ((b.put other (b.pruned other now ++ [now])).sweep now) subject now l := by
  have hput := (remembers_put_note other hb).inOrder
  refine h.same (remembers_sweep hput).window fun later hlater => ?_
  have hsweep := recent_sweep hput hlater subject
  rw [entries_put_ne _ hother] at hsweep
  exact hsweep

/-- `refused`. -/
theorem Recalls.refused (h : Recalls b subject now l) (hb : b.InOrder now) :
    Recalls (b.refused other now).2 subject now
      (if other = subject ∧ (b.refused other now).1.isSome = true then l ++ [now] else l) := by
  unfold LoginBackoff.refused
  dsimp only
  by_cases hlow : (b.pruned other now).length < b.limit
  · -- it is let past: the list is pruned
    rw [if_pos hlow]
    rw [if_neg (fun hand => Bool.false_ne_true hand.2)]
    refine h.same rfl fun later hlater => ?_
    by_cases hother : subject = other
    · subst hother
      dsimp only
      rw [entries_put, recent_pruned hlater]
    · dsimp only
      rw [entries_put_ne _ hother]
  · rw [if_neg hlow]
    by_cases hother : other = subject
    · subst hother
      rw [if_pos ⟨rfl, rfl⟩]
      exact h.note hb
    · rw [if_neg fun hand => hother hand.1]
      exact h.note_ne hb (Ne.symm hother)

/-- `record_failure`. -/
theorem Recalls.recordFailure (h : Recalls b subject now l) (hb : b.InOrder now) :
    Recalls (b.recordFailure other now).2 subject now
      (if other = subject then l ++ [now] else l) := by
  by_cases hother : other = subject
  · subst hother
    rw [if_pos rfl]
    exact h.note hb
  · rw [if_neg hother]
    exact h.note_ne hb (Ne.symm hother)

/-- `clear` and `clear_email`. -/
theorem Recalls.forget {b' : LoginBackoff} {p : Prop} [Decidable p]
    (h : Recalls b subject now l) (hwindow : b'.window = b.window)
    (hentries : b'.entries subject = if p then [] else b.entries subject) :
    Recalls b' subject now (if p then [] else l) := by
  by_cases hp : p
  · rw [if_pos hp] at hentries ⊢
    exact .nil hentries
  · rw [if_neg hp] at hentries ⊢
    exact h.same hwindow fun later _ => by rw [hentries]

end LoginBackoff

/-! ## Histories -/

section

variable {limit : ℤ} {window : ℚ} {s t : BackoffState} {subject : PyStr × PyStr}
  {es : List BackoffEvent}

open LoginBackoff

/-- What holds in every history of the backoff. -/
structure Recorded (limit : ℤ) (window : ℚ) (subject : PyStr × PyStr) (s : BackoffState)
    (stamps : List Stamp) : Prop where
  /-- the limit -/
  limit : s.backoff.limit = (max 1 limit).toNat
  /-- the window -/
  window : s.backoff.window = window
  /-- the lists are in order -/
  inOrder : s.backoff.InOrder s.now
  /-- what was noted of the subject -/
  recalls : s.backoff.Recalls subject s.now (stamps.map Stamp.time)

theorem noteStamp_of_not_concerns {e : BackoffEvent} (h : e.act.concerns subject = false)
    (stamps : List Stamp) : noteStamp subject stamps e = stamps := by
  obtain ⟨r, a, t⟩ := e
  cases a with
  | refused other => exact if_neg fun hand => of_decide_eq_false h hand.1
  | recordFailure other => exact if_neg (of_decide_eq_false h)
  | clear other => exact if_neg (of_decide_eq_false h)
  | clearEmail email => exact if_neg (of_decide_eq_false h)
  | wait seconds nonneg => rfl

theorem stamps_quiet (fs : List BackoffEvent)
    (hquiet : ∀ e ∈ fs, e.act.concerns subject = false) (stamps : List Stamp) :
    fs.foldl (noteStamp subject) stamps = stamps := by
  induction fs with
  | nil => rfl
  | cons e fs ih =>
    rw [List.foldl_cons, noteStamp_of_not_concerns (hquiet e List.mem_cons_self)]
    exact ih fun e he => hquiet e (List.mem_cons_of_mem _ he)

theorem Recorded.initial (h : BackoffState.Start limit window s) :
    Recorded limit window subject s [] := by
  obtain ⟨b, now⟩ := s
  obtain rfl : b = .create limit window := h
  refine ⟨rfl, rfl, ⟨fun _ => List.Pairwise.nil, fun _ _ h => by cases h⟩, .nil rfl⟩

/-- Every step keeps the record. -/
theorem Recorded.step {e : BackoffEvent} {stamps : List Stamp}
    (h : Recorded limit window subject e.pre stamps)
    (hstep : (BackoffState.machine limit window).step e.pre e.act = some e.post) :
    Recorded limit window subject e.post (noteStamp subject stamps e) := by
  obtain ⟨s, a, t⟩ := e
  obtain rfl : s.step a = t := Option.some.inj hstep
  obtain ⟨hlimit, hwindow, hb, hrecalls⟩ := h
  dsimp only at hlimit hwindow hb hrecalls ⊢
  cases a with
  | refused other =>
    have hremembers := remembers_refused other hb
    refine ⟨hremembers.limit.trans hlimit, hremembers.window.trans hwindow, hremembers.inOrder, ?_⟩
    change (s.backoff.refused other s.now).2.Recalls subject s.now (List.map Stamp.time
      (if other = subject ∧ (s.backoff.refused other s.now).1.isSome = true then
        stamps ++ [⟨s.now, true⟩] else stamps))
    rw [apply_ite (List.map Stamp.time), List.map_append]
    exact hrecalls.refused hb
  | recordFailure other =>
    have hremembers := (remembers_note other hb).1
    refine ⟨hremembers.limit.trans hlimit, hremembers.window.trans hwindow, hremembers.inOrder, ?_⟩
    change (s.backoff.recordFailure other s.now).2.Recalls subject s.now (List.map Stamp.time
      (if other = subject then stamps ++ [⟨s.now, false⟩] else stamps))
    rw [apply_ite (List.map Stamp.time), List.map_append]
    exact hrecalls.recordFailure hb
  | clear other =>
    have hentries : ∀ subject, (s.backoff.clear other).entries subject =
        if other = subject then [] else s.backoff.entries subject := fun subject => by
      rw [entries_clear]
      simp only [eq_comm]
    refine ⟨hlimit, hwindow, hb.forget fun subject => ?_, ?_⟩
    · exact (ite_eq_or_eq _ _ _).imp (hentries subject).trans (hentries subject).trans
    · change (s.backoff.clear other).Recalls subject s.now (List.map Stamp.time
        (if other = subject then [] else stamps))
      rw [apply_ite (List.map Stamp.time)]
      exact hrecalls.forget rfl (hentries subject)
  | clearEmail email =>
    have hentries := fun subject => entries_clearEmail (b := s.backoff) email subject
    refine ⟨hlimit, hwindow, hb.forget fun subject => ?_, ?_⟩
    · exact (ite_eq_or_eq _ _ _).imp (hentries subject).trans (hentries subject).trans
    · change (s.backoff.clearEmail email).Recalls subject s.now (List.map Stamp.time
        (if subject.2 = email then [] else stamps))
      rw [apply_ite (List.map Stamp.time)]
      exact hrecalls.forget rfl (hentries subject)
  | wait seconds nonneg =>
    have hlater : s.now ≤ s.now + seconds := le_add_of_nonneg_right nonneg
    refine ⟨hlimit, hwindow, ⟨hb.sorted, fun other ts hts => ?_⟩, hrecalls.later hlater⟩
    exact (hb.past other ts hts).trans hlater

/-- Every history keeps the record. -/
theorem Recorded.run (es : List BackoffEvent) : ∀ {s : BackoffState} {stamps : List Stamp},
    Recorded limit window subject s stamps → (BackoffState.machine limit window).Run s es t →
      Recorded limit window subject t (es.foldl (noteStamp subject) stamps) := by
  induction es with
  | nil =>
    intro s stamps h hrun
    rw [hrun.eq_of_nil]
    exact h
  | cons e es ih =>
    intro s stamps h hrun
    obtain ⟨rfl, hstep, hrest⟩ := Machine.Run.of_cons hrun
    exact ih (h.step hstep) hrest

/-- `refused` lets a subject past with fewer recent times than the limit. -/
theorem refused_eq_none_iff {b : LoginBackoff} {now : ℚ} : (b.refused subject now).1 = none ↔
    (b.pruned subject now).length < b.limit := by
  unfold LoginBackoff.refused
  dsimp only
  split
  · next hlow => exact iff_of_true rfl hlow
  · next hhigh => exact iff_of_false (fun h => by cases h) hhigh

/-! ## The end of a lockout -/

/-- The failures that are noted were recorded. -/
theorem mem_stampsOf (es : List BackoffEvent) : ∀ stamp ∈ stampsOf subject es,
    stamp.refusal = false →
      ∃ e ∈ es, e.act = .recordFailure subject ∧ e.pre.now = stamp.time := by
  induction es using List.reverseRecOn with
  | nil => exact fun _ h => by cases h
  | append_singleton es e ih =>
    intro stamp hstamp hfailure
    unfold stampsOf at hstamp
    rw [List.foldl_append] at hstamp
    have hold : stamp ∈ stampsOf subject es → ∃ e' ∈ es ++ [e],
        e'.act = .recordFailure subject ∧ e'.pre.now = stamp.time := fun h => by
      obtain ⟨e', he', hact⟩ := ih stamp h hfailure
      exact ⟨e', List.mem_append_left _ he', hact⟩
    obtain ⟨s, a, t⟩ := e
    change stamp ∈ noteStamp subject (stampsOf subject es) _ at hstamp
    unfold noteStamp at hstamp
    cases a with
    | refused other =>
      dsimp only at hstamp
      split at hstamp
      · rcases List.mem_append.mp hstamp with h | h
        · exact hold h
        · rw [List.mem_singleton.mp h] at hfailure
          cases hfailure
      · exact hold hstamp
    | recordFailure other =>
      dsimp only at hstamp
      split at hstamp
      · next hother =>
        subst hother
        rcases List.mem_append.mp hstamp with h | h
        · exact hold h
        · rw [List.mem_singleton.mp h]
          exact ⟨_, List.mem_append_right _ (List.mem_singleton_self _), rfl, rfl⟩
      · exact hold hstamp
    | clear other =>
      dsimp only at hstamp
      split at hstamp
      · cases hstamp
      · exact hold hstamp
    | clearEmail email =>
      dsimp only at hstamp
      split at hstamp
      · cases hstamp
      · exact hold hstamp
    | wait seconds nonneg => exact hold hstamp

end

open LoginBackoff in
/-- **The end of a lockout**: when all failures of a subject have left the window, it is let past
exactly if it was refused fewer times in the window than the limit. -/
theorem lockout_ends {limit : ℤ} {window : ℚ} {s t : BackoffState} {es : List BackoffEvent}
    (hs : (BackoffState.machine limit window).init s)
    (hrun : (BackoffState.machine limit window).Run s es t) {subject : PyStr × PyStr}
    (hold : ∀ e ∈ es, e.act = .recordFailure subject → e.pre.now + window < t.now) :
    (t.backoff.refused subject t.now).1 = none ↔
      (((stampsOf subject es).countP fun stamp =>
        stamp.refusal && decide (t.now - window < stamp.time) : ℕ) : ℤ) < max 1 limit := by
  have hstart : Recorded limit window subject s [] := .initial hs
  obtain ⟨hlimit, hwindow, hb, hrecalls⟩ := hstart.run es hrun
  have hcount : (t.backoff.pruned subject t.now).length = (stampsOf subject es).countP fun stamp =>
      stamp.refusal && decide (t.now - window < stamp.time) := by
    rw [hrecalls.pruned hb, hwindow]
    unfold recent
    rw [← List.countP_eq_length_filter, List.countP_map]
    refine List.countP_congr fun stamp hstamp => ?_
    rw [Function.comp_apply, Bool.and_eq_true, decide_eq_true_eq]
    refine ⟨fun hrecent => ⟨?_, hrecent⟩, And.right⟩
    -- a failure would have left the window
    by_contra hfailure
    obtain ⟨e, he, hact, htime⟩ := mem_stampsOf es stamp hstamp (Bool.eq_false_iff.mpr hfailure)
    have hleft := hold e he hact
    rw [htime] at hleft
    linarith
  rw [refused_eq_none_iff, hcount, hlimit]
  omega

/-- A login from this address, with this email. -/
def guesser : PyStr × PyStr := (py "10.0.0.1", py "v@x.y")

/-- Before any login. -/
def calmBackoff : BackoffState := ⟨.create 5 900, 0⟩

/-- Five wrong passwords, and then attempts that go on. -/
def patientGuesser : List BackoffAct :=
  List.replicate 5 (.recordFailure guesser) ++
    (List.replicate 5 [.wait 150 (by decide), .refused guesser]).flatten ++
      [.wait 200 (by decide)]

/-- That every failure has left the window at the end of a computed run is computed. -/
theorem failures_left {acts : List BackoffAct}
    (hearly : ∀ e ∈ (BackoffState.machine 5 900).events calmBackoff acts,
      (match e.act with
        | .recordFailure _ => decide (e.pre.now + 900 <
            ((BackoffState.machine 5 900).final calmBackoff acts).now)
        | _ => true) = true) :
    ∀ e ∈ (BackoffState.machine 5 900).events calmBackoff acts, e.act = .recordFailure guesser →
      e.pre.now + 900 < ((BackoffState.machine 5 900).final calmBackoff acts).now := by
  intro e he hact
  have hfailure := hearly e he
  rw [hact] at hfailure
  exact of_decide_eq_true hfailure

/-- Refused attempts keep a subject locked out after its failures have left the window. -/
theorem lockout_outlives_window : ∃ es t, (BackoffState.machine 5 900).Run calmBackoff es t ∧
    es.map Machine.Event.act = patientGuesser ∧
    (∀ e ∈ es, e.act = .recordFailure guesser → e.pre.now + 900 < t.now) ∧
    (t.backoff.refused guesser t.now).1 ≠ none := by
  obtain ⟨hrun, hacts⟩ := Machine.Run.of_events (Machine.exec_final
    (M := BackoffState.machine 5 900) (s := calmBackoff) (l := patientGuesser) (by decide +kernel))
  exact ⟨_, _, hrun, hacts, failures_left (by decide +kernel), by decide +kernel⟩

/-- The same, but with four attempts only. -/
def tiredGuesser : List BackoffAct :=
  List.replicate 5 (.recordFailure guesser) ++
    (List.replicate 4 [.wait 150 (by decide), .refused guesser]).flatten ++
      [.wait 350 (by decide)]

theorem lockout_ends_tired : ∃ es t, (BackoffState.machine 5 900).Run calmBackoff es t ∧
    es.map Machine.Event.act = tiredGuesser ∧ (t.backoff.refused guesser t.now).1 = none := by
  obtain ⟨hrun, hacts⟩ := Machine.Run.of_events (Machine.exec_final
    (M := BackoffState.machine 5 900) (s := calmBackoff) (l := tiredGuesser) (by decide +kernel))
  exact ⟨_, _, hrun, hacts, (lockout_ends (s := calmBackoff) rfl hrun
    (failures_left (by decide +kernel))).mpr (by decide +kernel)⟩

/-! ## The wait -/

section

variable {limit : ℤ} {window : ℚ} {s t : BackoffState} {subject : PyStr × PyStr}

open LoginBackoff

/-- In times in order, no more are recent than come after one of them exactly if that one is
not. -/
theorem length_recent_le_iff {cutoff pivot : ℚ} {front back : List ℚ}
    (hsorted : (front ++ pivot :: back).Pairwise (· ≤ ·)) :
    (recent cutoff (front ++ pivot :: back)).length ≤ back.length ↔ pivot ≤ cutoff := by
  obtain ⟨-, htail, hcross⟩ := List.pairwise_append.mp hsorted
  have hlater : ∀ ts ∈ pivot :: back, pivot ≤ ts := fun ts hts => by
    rcases List.mem_cons.mp hts with rfl | hts
    · exact le_rfl
    · exact List.rel_of_pairwise_cons htail hts
  unfold recent
  rw [List.filter_append, List.length_append]
  constructor
  · intro hfew
    by_contra hrecent
    rw [not_le] at hrecent
    have hall : (pivot :: back).filter (fun ts => decide (cutoff < ts)) = pivot :: back :=
      List.filter_eq_self.mpr fun ts hts => decide_eq_true (hrecent.trans_le (hlater ts hts))
    rw [hall, List.length_cons] at hfew
    omega
  · intro hold
    have hnone : front.filter (fun ts => decide (cutoff < ts)) = [] :=
      recent_eq_nil fun ts hts => (hcross ts hts pivot List.mem_cons_self).trans hold
    rw [hnone, List.filter_cons_of_neg (by simpa using hold), List.length_nil, Nat.zero_add]
    exact List.length_filter_le _ _

/-- The wait that `refused` names, where the subject is refused. -/
theorem refused_wait {b : LoginBackoff} {now : ℚ} {retry : ℕ}
    (h : (b.refused subject now).1 = some retry) :
    b.limit ≤ (b.pruned subject now).length ∧
      retry = max 1 ⌈min (min ((2 : ℚ) ^ ((b.pruned subject now ++ [now]).length - b.limit))
        b.window) ((b.pruned subject now ++ [now]).headD now + b.window - now)⌉.toNat := by
  unfold LoginBackoff.refused at h
  dsimp only at h
  split at h
  · cases h
  · next hhigh => exact ⟨not_lt.mp hhigh, (Option.some.inj h).symm⟩

/-- Waiting for the smallest of three spans, in whole seconds. -/
theorem le_ceil_min_iff (span left : ℚ) (doublings : ℕ) (hwindow : 0 < window)
    (hleft : 0 < left) (hspan : span ≤ window) :
    span ≤ ((max 1 ⌈min (min ((2 : ℚ) ^ doublings) window) left⌉.toNat : ℕ) : ℚ) ↔
      span ≤ 2 ^ doublings ∧ span ≤ (⌈left⌉ : ℤ) := by
  generalize hpower : (2 : ℚ) ^ doublings = power
  have hpos : 0 < min (min power window) left :=
    lt_min (lt_min (hpower ▸ pow_pos two_pos _) hwindow) hleft
  have hone : 1 ≤ ⌈min (min power window) left⌉ := Int.one_le_ceil_iff.mpr hpos
  have hcast : ((max 1 ⌈min (min power window) left⌉.toNat : ℕ) : ℚ) =
      (⌈min (min power window) left⌉ : ℤ) := by
    have hnat : ((max 1 ⌈min (min power window) left⌉.toNat : ℕ) : ℤ) =
        ⌈min (min power window) left⌉ := by omega
    exact (Int.cast_natCast _).symm.trans (congrArg (Int.cast (R := ℚ)) hnat)
  rw [hcast]
  constructor
  · intro hle
    have hwhole : (⌈power⌉ : ℤ) = power := by
      have hint : power = ((2 ^ doublings : ℤ) : ℚ) := by
        rw [← hpower, Int.cast_pow, Int.cast_ofNat]
      rw [hint, Int.ceil_intCast]
    refine ⟨hle.trans ?_, hle.trans ?_⟩
    · refine le_trans (Int.cast_le.mpr (Int.ceil_mono ?_)) hwhole.le
      exact (min_le_left _ _).trans (min_le_left _ _)
    · exact Int.cast_le.mpr (Int.ceil_mono (min_le_right _ _))
  · rintro ⟨hdoubled, holdest⟩
    rcases min_choice (min power window) left with h | h
    · rw [h]
      exact (le_min hdoubled hspan).trans (Int.le_ceil _)
    · rw [h]
      exact holdest

end

/-- The time that keeps the subject refused: so many as the limit are noted from it on, this
refusal among them. -/
def blockingTime (b : LoginBackoff) (subject : PyStr × PyStr) (now : ℚ) : ℚ :=
  (b.pruned subject now ++ [now]).getD ((b.pruned subject now).length + 1 - b.limit) now

/-- That time leaves the window in the seconds that doubling gives, and no later than in the
second in which the oldest time leaves it. -/
def UnblocksInTime (b : LoginBackoff) (subject : PyStr × PyStr) (now : ℚ) : Prop :=
  blockingTime b subject now + b.window ≤
      now + 2 ^ ((b.pruned subject now).length + 1 - b.limit) ∧
    blockingTime b subject now + b.window ≤
      now + ⌈(b.pruned subject now).headD now + b.window - now⌉

section

variable {limit : ℤ} {window : ℚ} {s t : BackoffState} {subject : PyStr × PyStr} {retry : ℕ}

open LoginBackoff

/-- The list that a refusal leaves is in order, and in the window. -/
theorem Recorded.refusal {stamps : List Stamp} (h : Recorded limit window subject s stamps)
    (hwindow : 0 < window) :
    (s.backoff.pruned subject s.now ++ [s.now]).Pairwise (· ≤ ·) ∧
      ∀ ts ∈ s.backoff.pruned subject s.now ++ [s.now], s.now - window < ts ∧ ts ≤ s.now := by
  have hrecent := h.recalls.pruned h.inOrder
  rw [h.window] at hrecent
  have hpast : ∀ ts ∈ s.backoff.pruned subject s.now, ts ≤ s.now := fun ts hts =>
    h.recalls.past ts (mem_recent.mp (hrecent ▸ hts)).1
  refine ⟨List.pairwise_append.mpr ⟨?_, List.pairwise_singleton _ _, ?_⟩, fun ts hts => ?_⟩
  · rw [hrecent]
    exact h.recalls.sorted.filter _
  · intro ts hts ts' hts'
    rw [List.mem_singleton.mp hts']
    exact hpast ts hts
  · rcases List.mem_append.mp hts with hts | hts
    · refine ⟨?_, hpast ts hts⟩
      rw [hrecent] at hts
      exact (mem_recent.mp hts).2
    · rw [List.mem_singleton.mp hts]
      exact ⟨sub_lt_self _ hwindow, le_rfl⟩

/-- The steps after a refusal that are not about the subject: it is let past again once the
blocking time has left the window. -/
theorem Recorded.unblocks {stamps : List Stamp} (h : Recorded limit window subject s stamps)
    (hwindow : 0 < window) (hretry : (s.backoff.refused subject s.now).1 = some retry)
    {fs : List BackoffEvent}
    (hrun : (BackoffState.machine limit window).Run (s.step (.refused subject)) fs t)
    (hquiet : ∀ e ∈ fs, e.act.concerns subject = false) (hlater : s.now ≤ t.now) :
    (t.backoff.refused subject t.now).1 = none ↔
      blockingTime s.backoff subject s.now + window ≤ t.now := by
  obtain ⟨hhigh, -⟩ := refused_wait hretry
  have hafter := h.step (e := ⟨s, .refused subject, s.step (.refused subject)⟩) rfl
  have hnote : noteStamp subject stamps ⟨s, .refused subject, s.step (.refused subject)⟩ =
      stamps ++ [⟨s.now, true⟩] := if_pos ⟨rfl, by rw [hretry]; rfl⟩
  rw [hnote] at hafter
  have ht := hafter.run fs hrun
  rw [stamps_quiet fs hquiet] at ht
  -- what is recent then is what is recent then of the list after the refusal
  have hpruned : t.backoff.pruned subject t.now =
      recent (t.now - window) (s.backoff.pruned subject s.now ++ [s.now]) := by
    rw [ht.recalls.pruned ht.inOrder, ht.window, h.recalls.pruned h.inOrder, h.window,
      List.map_append]
    unfold recent
    rw [List.filter_append, List.filter_append]
    exact congrArg (· ++ _) (recent_recent (sub_le_sub_right hlater _) _).symm
  obtain ⟨hsorted, -⟩ := h.refusal hwindow
  generalize hlist : s.backoff.pruned subject s.now ++ [s.now] = l at hpruned hsorted
  have hlength : l.length = (s.backoff.pruned subject s.now).length + 1 := by
    rw [← hlist, List.length_append, List.length_singleton]
  have hlimit : 0 < s.backoff.limit := by
    rw [h.limit]
    omega
  have hindex : l.length - s.backoff.limit < l.length := by omega
  have hsplit : l = l.take (l.length - s.backoff.limit) ++
      blockingTime s.backoff subject s.now :: l.drop (l.length - s.backoff.limit + 1) := by
    have hpivot : blockingTime s.backoff subject s.now =
        l.get ⟨l.length - s.backoff.limit, hindex⟩ := by
      unfold blockingTime
      rw [hlist, ← hlength]
      exact (List.getElem_eq_getD _).symm
    rw [hpivot]
    exact ((List.drop_eq_getElem_cons hindex) ▸ List.take_append_drop _ l).symm
  have hback : (l.drop (l.length - s.backoff.limit + 1)).length + 1 = t.backoff.limit := by
    rw [List.length_drop, ht.limit, ← h.limit]
    omega
  rw [hsplit] at hpruned hsorted
  rw [refused_eq_none_iff, hpruned, ← hback, Nat.lt_succ_iff, length_recent_le_iff hsorted,
    le_sub_iff_add_le]

end

/-- **The wait of a refusal**: in every history, the wait that `refused` names is enough, if
nothing more happens to the subject, exactly if the time that keeps it refused leaves the
window soon enough. -/
theorem retry_after_honest {limit : ℤ} {window : ℚ} (hwindow : 0 < window)
    {s₀ s : BackoffState} {es : List BackoffEvent}
    (hs : (BackoffState.machine limit window).init s₀)
    (hrun : (BackoffState.machine limit window).Run s₀ es s) {subject : PyStr × PyStr} {retry : ℕ}
    (hretry : (s.backoff.refused subject s.now).1 = some retry) :
    (∀ fs t, (BackoffState.machine limit window).Run (s.step (.refused subject)) fs t →
      (∀ e ∈ fs, e.act.concerns subject = false) → s.now + retry ≤ t.now →
        (t.backoff.refused subject t.now).1 = none) ↔
      UnblocksInTime s.backoff subject s.now := by
  have hstart : Recorded limit window subject s₀ [] := .initial hs
  have h := hstart.run es hrun
  generalize es.foldl (noteStamp subject) [] = stamps at h
  obtain ⟨hhigh, hwait⟩ := refused_wait hretry
  obtain ⟨-, hin⟩ := h.refusal hwindow
  have hnonneg : (0 : ℚ) ≤ retry := Nat.cast_nonneg retry
  -- nothing is refused after the wait exactly if the stamp that blocks has left by then
  have hfirst : (∀ fs t, (BackoffState.machine limit window).Run (s.step (.refused subject)) fs t →
      (∀ e ∈ fs, e.act.concerns subject = false) → s.now + retry ≤ t.now →
        (t.backoff.refused subject t.now).1 = none) ↔
      blockingTime s.backoff subject s.now + window ≤ s.now + retry := by
    constructor
    · intro hall
      have hrest := Machine.Run.snoc (M := BackoffState.machine limit window)
        (s := s.step (.refused subject)) (a := .wait retry hnonneg) Machine.Run.refl rfl
      have hquiet : ∀ e ∈ ([] ++ [⟨s.step (.refused subject), .wait retry hnonneg,
          (s.step (.refused subject)).step (.wait retry hnonneg)⟩] : List BackoffEvent),
          e.act.concerns subject = false := fun e he => by
        rw [List.mem_singleton.mp he]
        rfl
      have hnone := hall _ _ hrest hquiet le_rfl
      exact (h.unblocks hwindow hretry hrest hquiet (le_add_of_nonneg_right hnonneg)).mp hnone
    · intro hsoon fs t hfs hquiet hlater
      have hnow : s.now ≤ t.now := (le_add_of_nonneg_right hnonneg).trans hlater
      exact (h.unblocks hwindow hretry hfs hquiet hnow).mpr (hsoon.trans hlater)
  have hblocking : blockingTime s.backoff subject s.now ≤ s.now := by
    unfold blockingTime
    rw [List.getD_eq_getElem?_getD]
    rcases hget : (s.backoff.pruned subject s.now ++ [s.now])[
      (s.backoff.pruned subject s.now).length + 1 - s.backoff.limit]? with _ | ts
    · exact le_rfl
    · exact (hin ts (List.mem_of_getElem? hget)).2
  -- the wait is counted from the oldest stamp of the window
  have holdest : s.now - window < (s.backoff.pruned subject s.now).headD s.now := by
    refine (hin _ ?_).1
    rcases s.backoff.pruned subject s.now with _ | ⟨ts, rest⟩
    · exact List.mem_singleton_self _
    · exact List.mem_cons_self
  have hhead : (s.backoff.pruned subject s.now ++ [s.now]).headD s.now =
      (s.backoff.pruned subject s.now).headD s.now := by
    rcases s.backoff.pruned subject s.now with _ | ⟨ts, rest⟩ <;> rfl
  rw [hhead, List.length_append, List.length_singleton, h.window] at hwait
  have hceil := le_ceil_min_iff (blockingTime s.backoff subject s.now + window - s.now)
    ((s.backoff.pruned subject s.now).headD s.now + window - s.now)
    ((s.backoff.pruned subject s.now).length + 1 - s.backoff.limit) hwindow
    (by linarith) (by linarith)
  rw [← hwait] at hceil
  rw [hfirst, UnblocksInTime, h.window, ← sub_le_iff_le_add', ← sub_le_iff_le_add',
    ← sub_le_iff_le_add']
  exact hceil

instance (b : LoginBackoff) (subject : PyStr × PyStr) (now : ℚ) :
    Decidable (UnblocksInTime b subject now) :=
  inferInstanceAs (Decidable (_ ∧ _))

/-- Five wrong passwords, and one more attempt a second before they leave the window. -/
def lateGuesser : List BackoffAct :=
  List.replicate 5 (.recordFailure guesser) ++ [.wait 899 (by decide)]

theorem retry_after_honest_late : ∃ es s, (BackoffState.machine 5 900).Run calmBackoff es s ∧
    es.map Machine.Event.act = lateGuesser ∧ (s.backoff.refused guesser s.now).1 = some 1 ∧
    ∀ fs t, (BackoffState.machine 5 900).Run (s.step (.refused guesser)) fs t →
      (∀ e ∈ fs, e.act.concerns guesser = false) → s.now + (1 : ℕ) ≤ t.now →
        (t.backoff.refused guesser t.now).1 = none := by
  obtain ⟨hrun, hacts⟩ := Machine.Run.of_events (Machine.exec_final
    (M := BackoffState.machine 5 900) (s := calmBackoff) (l := lateGuesser) (by decide +kernel))
  have hstart : (BackoffState.machine 5 900).init calmBackoff := rfl
  refine ⟨_, _, hrun, hacts, by decide +kernel, ?_⟩
  exact (retry_after_honest (by norm_num) hstart hrun (by decide +kernel)).mpr (by decide +kernel)

/-- Five wrong passwords, and one more attempt ten seconds after. -/
def hastyGuesser : List BackoffAct :=
  List.replicate 5 (.recordFailure guesser) ++ [.wait 10 (by decide)]

/-- The attempt is told to wait for two seconds, and is refused again after these. -/
theorem retry_after_too_short : ∃ es s fs t, (BackoffState.machine 5 900).Run calmBackoff es s ∧
    es.map Machine.Event.act = hastyGuesser ∧ (s.backoff.refused guesser s.now).1 = some 2 ∧
    (BackoffState.machine 5 900).Run (s.step (.refused guesser)) fs t ∧
    fs.map Machine.Event.act = [.wait 2 (by decide)] ∧ s.now + (2 : ℕ) ≤ t.now ∧
    (t.backoff.refused guesser t.now).1 ≠ none := by
  obtain ⟨hrun, hacts⟩ := Machine.Run.of_events (Machine.exec_final
    (M := BackoffState.machine 5 900) (s := calmBackoff) (l := hastyGuesser) (by decide +kernel))
  obtain ⟨hrest, hwait⟩ := Machine.Run.of_events (Machine.exec_final
    (M := BackoffState.machine 5 900) (l := [.wait 2 (by decide)])
    (s := ((BackoffState.machine 5 900).final calmBackoff hastyGuesser).step (.refused guesser))
    (by decide +kernel))
  exact ⟨_, _, _, _, hrun, hacts, by decide +kernel, hrest, hwait, by decide +kernel,
    by decide +kernel⟩

end LayaWatch
