import LayaWatch.LastSeen
import LayaWatch.Startup

/-!
# Score values

The three kinds of a score share the column `value`, which has REAL affinity: SQLite makes
a REAL of a text that is a well-formed number, and stores any other text as it is. The
column is applied here where it is read; nothing else reads it. What a POST answers is what
is read later exactly if the value is not a text that SQLite takes for a number
(`scores_round_trip`).
-/

namespace LayaWatch

open Auth

/-! ## The column -/

/-- What a column with REAL affinity holds. -/
inductive ScoreCell where
  /-- REAL -/
  | real (x : PyFloat)
  /-- TEXT -/
  | text (s : PyStr)
  /-- NULL -/
  | null
  deriving DecidableEq

/-- What the column makes of a value; `number` reads the texts that are well-formed numbers. -/
def realColumn (number : PyStr → Option PyFloat) : SqlValue → ScoreCell
  | .null => .null
  | .integer n => .real (.finite n)
  | .real x => .real (.finite x)
  | .text s =>
    match number s with
    | some x => .real x
    | none => .text s

/-- The value that is read equals the one of the response. -/
def ScoreCell.equals : ScoreCell → Json → Prop
  | real x, .float y => x = .finite y
  | text s, .str t => s = t
  | null, .null => True
  | _, _ => False

/-- A score of `trace_detail`. -/
structure ScoreItem where
  /-- `id` -/
  id : PyStr
  /-- `trace_id` -/
  traceId : PyStr
  /-- `name` -/
  name : PyStr
  /-- `value` -/
  value : ScoreCell
  /-- `data_type` -/
  dataType : PyStr
  /-- `source` -/
  source : PyStr
  /-- `comment` -/
  comment : Option PyStr
  /-- `ts` -/
  ts : ℚ

/-- A row of `scores`, as it is read. -/
def Score.item (number : PyStr → Option PyFloat) (row : Score) : ScoreItem where
  id := row.id
  traceId := row.traceId
  name := row.name
  value := realColumn number row.value
  dataType := row.dataType
  source := row.source
  comment := row.comment
  ts := row.ts

/-- The order of `ORDER BY ts, id`. -/
def Score.before (a b : Score) : Prop := a.ts < b.ts ∨ a.ts = b.ts ∧ a.id ≤ b.id

instance : DecidableRel Score.before := fun a b =>
  inferInstanceAs (Decidable (a.ts < b.ts ∨ a.ts = b.ts ∧ a.id ≤ b.id))

/-- The scores of `trace_detail`, of a trace that there is. -/
def detailScores (number : PyStr → Option PyFloat) (traceId : PyStr) (db : Db) :
    Option (List ScoreItem) :=
  (storedTrace db traceId).map fun _ =>
    ((db.scores.filter fun row => decide (row.traceId = traceId)).insertionSort Score.before).map
      (Score.item number)

/-! ## Round trips -/

/-- The value that a body sends. -/
def sentValue (r : SessionRequest) : Option Json :=
  match r.body with
  | .ok (.obj payload) => Fields.get (py "value") payload
  | _ => none

/-- What the database has become since: rows of `scores` go, and rows with other ids come. -/
def ScoresLater (scoreId : PyStr) (db later : Db) : Prop :=
  ∀ row ∈ later.scores, row.id = scoreId → row ∈ db.scores

/-- The value of the response is the one that is later returned for the score, and a text comes
back as it was sent. -/
def RoundTrips (number : PyStr → Option PyFloat) (r : SessionRequest) (traceId scoreId : PyStr)
    (response : Fields) (db : Db) : Prop :=
  ∀ later items, ScoresLater scoreId db later → detailScores number traceId later = some items →
    ∀ item ∈ items, item.id = scoreId →
      (∃ value, Fields.get (py "value") response = some value ∧ item.value.equals value) ∧
        ∀ s, sentValue r = some (.str s) → item.value = .text s

/-- The body sends a text that SQLite takes for a number. -/
def SendsNumberText (number : PyStr → Option PyFloat) (r : SessionRequest) : Prop :=
  ∃ s x, sentValue r = some (.str s) ∧ number s = some x

theorem ScoresLater.refl {scoreId : PyStr} {db : Db} : ScoresLater scoreId db db := fun _ h _ => h

/-! ## The POST -/

section

variable {T : PyText} {r : SessionRequest} {traceId scoreId : PyStr} {now : ℚ} {db t : Db}
  {form : ScoreForm} {fields : Fields} {number : PyStr → Option PyFloat}

/-- The value of a form is that of its body. -/
theorem validatedScore_value (h : validatedScore T r = .ok form) :
    ∃ v kind, sentValue r = some v ∧ scoreValue T v = .ok (form.value, kind) := by
  obtain ⟨payload, hpayload, h⟩ := bind_eq_ok.mp h
  unfold sentValue
  rw [objectBody_eq_ok.mp hpayload]
  dsimp only at h ⊢
  split at h
  · split at h
    · obtain ⟨_, herror, -⟩ := bind_eq_ok.mp h
      cases herror
    · obtain ⟨name, -, h⟩ := bind_eq_ok.mp h
      split at h
      · obtain ⟨_, herror, -⟩ := bind_eq_ok.mp h
        cases herror
      · next v hget =>
        obtain ⟨⟨value, kind⟩, hvalue, h⟩ := bind_eq_ok.mp h
        refine ⟨v, kind, hget, ?_⟩
        rwa [show form.value = value from ?_]
        -- what is checked after the value leaves it as it is
        dsimp only at h
        repeat' split at h
        all_goals first
          | exact (congrArg ScoreForm.value (Except.ok.inj h)).symm
          | exact nomatch h
  · obtain ⟨_, herror, -⟩ := bind_eq_ok.mp h
    cases herror

/-- A form holds a number, or the text that was sent. -/
theorem scoreValue_cases {v : Json} {value : SqlValue} {kind : PyStr}
    (h : scoreValue T v = .ok (value, kind)) :
    (∃ x, value = .real x ∧ ∀ s, v ≠ .str s) ∨ ∃ s, value = .text s ∧ v = .str s := by
  cases v with
  | bool b => exact Or.inl ⟨_, (Prod.mk.inj (Except.ok.inj h)).1.symm, fun _ h => by cases h⟩
  | int n =>
    unfold scoreValue at h
    dsimp only at h
    split at h
    · exact Or.inl ⟨_, (Prod.mk.inj (Except.ok.inj h)).1.symm, fun _ h => by cases h⟩
    · cases h
  | float x => exact Or.inl ⟨_, (Prod.mk.inj (Except.ok.inj h)).1.symm, fun _ h => by cases h⟩
  | str s => exact Or.inr ⟨s, (Prod.mk.inj (Except.ok.inj h)).1.symm, rfl⟩
  | null | arr _ | obj _ => cases h

/-- An accepted score is one more row, of a trace that there is. -/
theorem scores_ends (r : SessionRequest) (traceId scoreId : PyStr) (now : ℚ) (db : Db) :
    (scores T r traceId scoreId now).Ends db
      (fun fields t => ∃ form row, validatedScore T r = .ok form ∧
        storedTrace db traceId = some row ∧ (∀ score ∈ db.scores, score.id ≠ scoreId) ∧
        t.traces = db.traces ∧ t.scores = db.scores ++ [form.row scoreId traceId now] ∧
        Fields.get (py "value") fields = some form.value.json)
      fun _ _ => True := by
  refine Prog.Ends.bind (P := fun form u => u = db ∧ validatedScore T r = .ok form)
    (Prog.Ends.lift (fun _ h => ⟨rfl, h⟩) fun _ _ => trivial) ?_
  rintro form u ⟨rfl, hform⟩
  have hload : (loadTrace traceId).Ends u (fun row v => v = u ∧ storedTrace u traceId = some row)
      fun _ _ => True := by
    unfold Prog.Ends
    rw [loadTrace_reads]
    rcases hrow : (loadTrace traceId u).1 with e | row
    · trivial
    · exact ⟨rfl, (loadTrace_eq_ok.mp hrow).2⟩
  refine hload.bind ?_
  rintro row v ⟨rfl, hrow⟩
  refine Prog.Ends.bind
    (P := fun taken w => w = v ∧ taken = v.scores.any fun row => decide (row.id = scoreId))
    ⟨rfl, rfl⟩ ?_
  rintro taken w ⟨rfl, rfl⟩
  split
  · exact trivial
  · next hfree =>
    obtain ⟨hfree, -⟩ := Bool.or_eq_false_iff.mp (Bool.eq_false_iff.mpr hfree)
    refine ⟨form, row, hform, hrow, fun score hscore hid => ?_, rfl, rfl, rfl⟩
    have hno := List.any_eq_false.mp hfree score hscore
    exact hno (decide_eq_true hid)

/-- A cell equals what was stored in it, unless it is a text that is a number. -/
theorem realColumn_text {s : PyStr} :
    (realColumn number (.text s)).equals (.str s) ↔ number s = none := by
  unfold realColumn
  dsimp only
  rcases number s with _ | x
  · exact iff_of_true rfl rfl
  · exact iff_of_false id (Option.some_ne_none x)

/-- The scores that are returned are those of the trace. -/
theorem mem_detailScores {items : List ScoreItem} (h : detailScores number traceId db = some items)
    {item : ScoreItem} : item ∈ items ↔
      ∃ row ∈ db.scores, row.traceId = traceId ∧ row.item number = item := by
  obtain ⟨_, -, rfl⟩ := Option.map_eq_some_iff.mp h
  rw [List.mem_map]
  refine exists_congr fun row => ?_
  rw [List.mem_insertionSort, List.mem_filter, decide_eq_true_eq, and_assoc]

/-- **Scores round trip** exactly if the value is not a text that SQLite takes for a number. -/
theorem scores_round_trip (number : PyStr → Option PyFloat)
    (h : scores T r traceId scoreId now db = (.ok fields, t)) :
    RoundTrips number r traceId scoreId fields t ↔ ¬SendsNumberText number r := by
  obtain ⟨form, trace, hform, htrace, hfree, htraces, hscores, hvalue⟩ :=
    (scores_ends r traceId scoreId now db).ok h
  obtain ⟨v, kind, hsent, hscore⟩ := validatedScore_value hform
  -- the rows with the id of the score are the one that was inserted
  have hone : ∀ row ∈ t.scores, row.id = scoreId → row = form.row scoreId traceId now := by
    intro row hrow hid
    rw [hscores] at hrow
    rcases List.mem_append.mp hrow with hold | hnew
    · exact absurd hid (hfree row hold)
    · exact List.mem_singleton.mp hnew
  constructor
  · rintro htrip ⟨s, x, hstr, hnumber⟩
    have hthere : ∃ items, detailScores number traceId t = some items := by
      unfold detailScores storedTrace
      rw [htraces]
      unfold storedTrace at htrace
      rw [htrace]
      exact ⟨_, rfl⟩
    obtain ⟨items, hitems⟩ := hthere
    have hmem : (form.row scoreId traceId now).item number ∈ items :=
      (mem_detailScores hitems).mpr
        ⟨_, hscores ▸ List.mem_append_right _ (List.mem_singleton_self _), rfl, rfl⟩
    -- read back at once, the cell would have to be the text
    obtain ⟨-, htext⟩ := htrip t items ScoresLater.refl hitems _ hmem rfl
    have hcell : realColumn number form.value = .text s := htext s hstr
    rcases scoreValue_cases hscore with ⟨y, -, hno⟩ | ⟨s', hs', rfl⟩
    · exact hno s (Option.some.inj (hsent.symm.trans hstr))
    · obtain rfl := Json.str.inj (Option.some.inj (hsent.symm.trans hstr))
      rw [hs'] at hcell
      unfold realColumn at hcell
      dsimp only at hcell
      rw [hnumber] at hcell
      cases hcell
  · intro hno later items hlater hitems item hitem hid
    obtain ⟨row, hrow, -, rfl⟩ := (mem_detailScores hitems).mp hitem
    obtain rfl := hone row (hlater row hrow hid) hid
    rcases scoreValue_cases hscore with ⟨x, hx, hnot⟩ | ⟨s, hs, rfl⟩
    · refine ⟨⟨_, hvalue, ?_⟩, fun s hstr =>
        absurd (Option.some.inj (hsent.symm.trans hstr)) (hnot s)⟩
      change (realColumn number form.value).equals form.value.json
      rw [hx]
      rfl
    · have hplain : number s = none := by
        by_contra hnumber
        obtain ⟨x, hx⟩ := Option.ne_none_iff_exists'.mp hnumber
        exact hno ⟨s, x, hsent, hx⟩
      refine ⟨⟨_, hvalue, ?_⟩, fun s' hstr => ?_⟩
      · change (realColumn number form.value).equals form.value.json
        rw [hs]
        exact realColumn_text.mpr hplain
      · obtain rfl := Json.str.inj (Option.some.inj (hsent.symm.trans hstr))
        change realColumn number form.value = .text s
        rw [hs]
        unfold realColumn
        dsimp only
        rw [hplain]

end

/-- A number text, as far as it is a whole number. -/
def wholeNumber (s : PyStr) : Option PyFloat := (JsonText.readInt s).map fun n => .finite n

/-- A score with a text. -/
def textScore (value : String) : SessionRequest where
  body := .ok (.obj [(py "name", .str (py "bucket")), (py "value", .str (py value))])

/-- The answer to it. -/
def textAnswer (value : String) : Fields :=
  [(py "id", .str (py "s1")), (py "name", .str (py "bucket")), (py "value", .str (py value)),
    (py "data_type", .str (py "categorical")), (py "source", .str (py "api")),
    (py "comment", .null), (py "ts", .float 0)]

/-- A table with a trace. -/
def oneTrace : Db := { traces := [recentRow] }

/-- What it leaves. -/
def textScored (value : String) : Db :=
  (scores wholeText (textScore value) recentRow.id (py "s1") 0 oneTrace).2

theorem scores_round_trip_refund : scores wholeText (textScore "refund") recentRow.id (py "s1") 0
    oneTrace = (.ok (textAnswer "refund"), textScored "refund") ∧
      RoundTrips wholeNumber (textScore "refund") recentRow.id (py "s1") (textAnswer "refund")
        (textScored "refund") := by
  have haccepted : scores wholeText (textScore "refund") recentRow.id (py "s1") 0 oneTrace =
      (.ok (textAnswer "refund"), textScored "refund") := rfl
  refine ⟨haccepted, (scores_round_trip wholeNumber haccepted).mpr ?_⟩
  rintro ⟨s, x, hsent, hnumber⟩
  obtain rfl := Json.str.inj (Option.some.inj hsent)
  have hnone : wholeNumber (py "refund") = none := by decide +kernel
  cases hnone.symm.trans hnumber

/-- **A text that is a number** comes back as the number. -/
theorem number_text_lost : ¬∀ (number : PyStr → Option PyFloat) (T : PyText) (r : SessionRequest)
    (traceId scoreId : PyStr) (now : ℚ) (db t : Db) (fields : Fields),
    scores T r traceId scoreId now db = (.ok fields, t) →
      RoundTrips number r traceId scoreId fields t := by
  intro h
  have haccepted : scores wholeText (textScore "123") recentRow.id (py "s1") 0 oneTrace =
      (.ok (textAnswer "123"), textScored "123") := rfl
  refine (scores_round_trip wholeNumber haccepted).mp (h wholeNumber _ _ _ _ _ _ _ _ haccepted) ?_
  exact ⟨py "123", .finite 123, rfl, by decide +kernel⟩

end LayaWatch
