import LayaWatch.Mutations

/-!
# Tag edits at once

`tags` of `Mutations` runs by itself. Here it is the statements that it sends on a
connection of its own: `trace_detail` reads the row outside any transaction, the
`UPDATE` starts one, and any number of requests take their statements in any
order.

An edit stores what it made of the tags that it read. Where those are still the
stored ones when the `UPDATE` takes the lock, the edits are one serial history
(`tags_serializable`); where another edit was committed in between, that edit is
lost (`tags_edited_at_once`).
-/

namespace LayaWatch

open Auth

/-! ## The program of a request -/

/-- A `POST /api/v1/traces/{id}/tags` that passed `_validated_tags`. -/
structure TagRequest where
  /-- the request -/
  form : SessionRequest
  /-- the trace of the path -/
  traceId : PyStr
  /-- `time.time()`, of the audit row -/
  now : ℚ
  /-- `add` -/
  add : List PyStr
  /-- `remove` -/
  remove : List PyStr
  /-- what `_validated_tags` makes of the body -/
  valid : validatedTags form = .ok (add, remove)

/-- The refusal of an edit that leaves too many tags. -/
def tooManyTags : HttpError :=
  .bad (py "tags") [.text (py "a trace may carry at most 10 tags")]

/-- The places between two statements of a request. -/
inductive TagPoint where
  /-- before `trace_detail` -/
  | read
  /-- before the `UPDATE`, with the tags that were read and those to store -/
  | update (stored merged : List PyStr)
  /-- before the audit row -/
  | audit (merged : List PyStr)
  /-- before the commit -/
  | commit (merged : List PyStr)
  /-- `finally: conn.close()`, which rolls back what is open -/
  | closing (result : Except HttpError Fields)
  /-- the response is on its way -/
  | done (result : Except HttpError Fields)

namespace TagRequest

variable (r : TagRequest)

/-- The tags of a trace after the request. -/
def merged (stored : List PyStr) : List PyStr := mergedTags stored r.add r.remove

/-- The request is answered with the tags that it stored. -/
def answer (merged : List PyStr) : Fields := [(py "tags", .arr (merged.map Json.str))]

/-- What a request does after it has read the row of the trace. -/
def edit (row : TraceRow) : TagPoint :=
  if maxTags < (r.merged row.tags).length then .closing (.error tooManyTags)
  else .update row.tags (r.merged row.tags)

/-- The audit row. -/
def entry : AuditEntry := apiEntry "trace.tagged" r.traceId r.now

/-- The statements of a request, on its own connection. Of what `trace_detail` reads
only the row of the trace is used. -/
def code : TagPoint → Option (Wal.Stmt Db TagPoint)
  | .read => some (.select fun db =>
      match (loadTrace r.traceId db).1 with
      | .error e => .closing (.error e)
      | .ok row => r.edit row)
  | .update _ merged => some (.dml (setTraceTags r.traceId merged) fun _ => .audit merged)
  | .audit merged => some (.dml (Db.audit r.entry) fun _ => .commit merged)
  | .commit merged => some (.commit (.closing (.ok (answer merged))))
  | .closing result => some (.rollback (.done result))
  | .done _ => none

end TagRequest

/-- A request and where it is. -/
structure TagPc where
  /-- the request -/
  request : TagRequest
  /-- where it is -/
  point : TagPoint

/-- Any number of tag edits at once. -/
def tagRequests : Wal.Client Db Unit TagPc Empty where
  code p := (p.request.code p.point).map (Wal.Stmt.map (TagPc.mk p.request))
  start p := match p.point with
    | .read => true
    | _ => false
  ext x := x.elim

/-- A world of tag edits. -/
abbrev TagWorld : Type := Wal.World Db Unit TagPc

/-- No request yet. -/
def TagWorld.idle (db : Db) : TagWorld := ⟨db, (), none, []⟩

/-- A run of tag edits. -/
abbrev TagRun (db : Db) : List (Machine.Event TagWorld (Wal.Act TagPc Empty)) → TagWorld → Prop :=
  (tagRequests.machine (· = TagWorld.idle db)).Run (TagWorld.idle db)

/-- The requests that a run accepted, in the order of their commits. -/
def acceptedTags (es : List (Machine.Event TagWorld (Wal.Act TagPc Empty))) : List TagRequest :=
  (Machine.outputs tagRequests.committed es).map TagPc.request

/-! ## One after another -/

/-- `tags` by itself, where it accepts the request. -/
def TagRequest.alone (db : Db) (r : TagRequest) : Option Db :=
  match tags r.form r.traceId r.now db with
  | (.ok _, after) => some after
  | (.error _, _) => none

/-- The requests one after another, none of them refused. -/
def tagsInTurn (db : Db) (requests : List TagRequest) : Option Db :=
  requests.foldlM TagRequest.alone db

/-- The tags of a trace. -/
def tagsOf (db : Db) (id : PyStr) : Option (List PyStr) := (storedTrace db id).map (·.tags)

/-- What an accepted request makes of the database. -/
def TagRequest.store (r : TagRequest) (merged : List PyStr) (db : Db) : Db :=
  (setTraceTags r.traceId merged db).audit r.entry

section Alone

variable {r : TagRequest} {db : Db}

/-- The handler of a body that passed `_validated_tags`. -/
theorem tags_validated : tags r.form r.traceId r.now db =
    match (loadTrace r.traceId db).1 with
    | .error e => (.error e, db)
    | .ok row =>
      if maxTags < (r.merged row.tags).length then (.error tooManyTags, db)
      else (.ok (TagRequest.answer (r.merged row.tags)), r.store (r.merged row.tags) db) := by
  have hload := loadTrace_reads r.traceId db
  unfold tags
  rw [r.valid, Prog.run_bind_ok (x := Prog.lift (.ok (r.add, r.remove))) rfl]
  rcases hread : (loadTrace r.traceId db).1 with e | row
  · rw [hread] at hload
    exact Prog.run_bind_error hload
  · rw [hread] at hload
    refine (Prog.run_bind_ok hload).trans ?_
    by_cases hmany : maxTags < (r.merged row.tags).length
    · refine Eq.trans ?_ (if_pos hmany).symm
      rw [if_pos (show maxTags < (mergedTags row.tags r.add r.remove).length from hmany)]
      exact Prog.run_bind_error (x := Prog.raiseIf (some tooManyTags)) rfl
    · refine Eq.trans ?_ (if_neg hmany).symm
      rw [if_neg (show ¬maxTags < (mergedTags row.tags r.add r.remove).length from hmany)]
      rfl

/-- **The statements of a request are the handler**: with no other connection about, a
request ends with the answer of `tags`, and leaves the database that `tags` leaves. -/
theorem tags_alone : ∃ n, Wal.alone r.code n .read db db =
    some (.done (tags r.form r.traceId r.now db).1, (tags r.form r.traceId r.now db).2) := by
  refine Wal.Leads.ends (show Wal.Leads r.code .read db db _ _
    (tags r.form r.traceId r.now db).2 from ?_) rfl
  refine .select rfl ?_
  rw [tags_validated]
  rcases (loadTrace r.traceId db).1 with e | row
  · exact .rollback rfl .refl
  · dsimp only
    unfold TagRequest.edit
    by_cases hmany : maxTags < (r.merged row.tags).length
    · rw [if_pos hmany, if_pos hmany]
      exact .rollback rfl .refl
    · rw [if_neg hmany, if_neg hmany]
      exact .dml rfl (.dml rfl (.commit rfl (.rollback rfl .refl)))

/-- A request is accepted by itself if its trace is there and the tags are not too many. -/
theorem TagRequest.alone_eq_some {after : Db} : r.alone db = some after ↔
    ∃ row, (loadTrace r.traceId db).1 = .ok row ∧ (r.merged row.tags).length ≤ maxTags ∧
      after = r.store (r.merged row.tags) db := by
  unfold TagRequest.alone
  rw [tags_validated]
  rcases (loadTrace r.traceId db).1 with e | row
  · exact iff_of_false (fun h => by cases h) fun ⟨_, h, _⟩ => by cases h
  · dsimp only
    by_cases hmany : maxTags < (r.merged row.tags).length
    · rw [if_pos hmany]
      refine iff_of_false (fun h => by cases h) fun ⟨row', hrow, hfew, _⟩ => ?_
      obtain rfl := Except.ok.inj hrow
      exact Nat.not_lt.mpr hfew hmany
    · rw [if_neg hmany]
      constructor
      · intro h
        exact ⟨row, rfl, Nat.not_lt.mp hmany, (Option.some.inj h).symm⟩
      · rintro ⟨row', hrow, -, rfl⟩
        obtain rfl := Except.ok.inj hrow
        rfl

/-- The rows of the traces after an edit. -/
theorem storedTrace_store (merged : List PyStr) (id : PyStr) :
    storedTrace (r.store merged db) id = (storedTrace db id).map fun row =>
      if row.id = r.traceId then { row with tags := merged } else row := by
  unfold storedTrace TagRequest.store setTraceTags
  simp only [Db.audit, List.find?_map]
  congr 2
  funext row
  simp only [Function.comp_apply]
  by_cases hid : row.id = r.traceId
  · rw [if_pos hid]
  · rw [if_neg hid]

/-- The tags of the traces after an edit. -/
theorem tagsOf_store (merged : List PyStr) (id : PyStr) :
    tagsOf (r.store merged db) id =
      if id = r.traceId then (tagsOf db id).map fun _ => merged else tagsOf db id := by
  rw [tagsOf, storedTrace_store, tagsOf]
  rcases hrow : storedTrace db id with _ | row
  · by_cases hid : id = r.traceId
    · rw [if_pos hid]
      rfl
    · rw [if_neg hid]
      rfl
  · have hsame : row.id = id := by
      have hfound := List.find?_some hrow
      exact of_decide_eq_true hfound
    simp only [Option.map_some, hsame]
    by_cases hid : id = r.traceId
    · rw [if_pos hid, if_pos hid]
    · rw [if_neg hid, if_neg hid]

end Alone

/-! ## What serial edits leave -/

section Serial

variable {db after : Db} {requests : List TagRequest}

/-- What an accepted edit makes of the tags of each trace. -/
theorem TagRequest.tagsOf_alone {r : TagRequest} (h : r.alone db = some after) (id : PyStr) :
    if id = r.traceId then
      ∃ stored, tagsOf db id = some stored ∧ tagsOf after id = some (r.merged stored) ∧
        (r.merged stored).length ≤ maxTags
    else tagsOf after id = tagsOf db id := by
  obtain ⟨row, hrow, hfew, rfl⟩ := r.alone_eq_some.mp h
  by_cases hid : id = r.traceId
  · rw [if_pos hid]
    have hstored : tagsOf db id = some row.tags := by
      rw [tagsOf, hid, (loadTrace_eq_ok.mp hrow).2]
      rfl
    refine ⟨row.tags, hstored, ?_, hfew⟩
    rw [tagsOf_store, if_pos hid, hstored]
    rfl
  · rw [if_neg hid, tagsOf_store, if_neg hid]

/-- What every accepted edit keeps, edits one after another keep. -/
theorem tagsInTurn_keeps {P : Db → Prop}
    (hstep : ∀ r ∈ requests, ∀ d d', P d → r.alone d = some d' → P d') (hdb : P db)
    (h : tagsInTurn db requests = some after) : P after := by
  induction requests generalizing db with
  | nil => exact Option.some.inj h ▸ hdb
  | cons r rest ih =>
    obtain ⟨d, hd, hrest⟩ := Option.bind_eq_some_iff.mp h
    exact ih (fun r' hr' => hstep r' (List.mem_cons_of_mem _ hr'))
      (hstep r List.mem_cons_self db d hdb hd) hrest

/-- No edit leaves more than ten tags. -/
theorem tagsInTurn_few (h : tagsInTurn db requests = some after) {id : PyStr} {found : List PyStr}
    (hfound : tagsOf after id = some found) :
    found.length ≤ maxTags ∨ tagsOf db id = some found := by
  have hall : ∀ found, tagsOf after id = some found →
      found.length ≤ maxTags ∨ tagsOf db id = some found := by
    refine tagsInTurn_keeps (P := fun d => ∀ found, tagsOf d id = some found →
      found.length ≤ maxTags ∨ tagsOf db id = some found) ?_ (fun _ h => Or.inr h) h
    intro r _ d d' hd halone found hfound
    have hone := TagRequest.tagsOf_alone halone id
    by_cases hid : id = r.traceId
    · rw [if_pos hid] at hone
      obtain ⟨stored, -, hafter, hfew⟩ := hone
      obtain rfl := Option.some.inj (hafter.symm.trans hfound)
      exact Or.inl hfew
    · rw [if_neg hid] at hone
      exact hd found (hone ▸ hfound)
  exact hall found hfound

/-- What is stored and not removed stays, what is added is there. -/
theorem mem_mergedTags {stored add remove : List PyStr} {tag : PyStr} :
    tag ∈ mergedTags stored add remove ↔ tag ∈ add ∨ tag ∈ stored ∧ tag ∉ remove := by
  unfold mergedTags
  have hfold : ∀ (add kept : List PyStr), tag ∈ add.foldl
      (fun tags tag => if tags.contains tag then tags else tags ++ [tag]) kept ↔
        tag ∈ add ∨ tag ∈ kept := by
    intro add
    induction add with
    | nil => simp
    | cons first rest ih =>
      intro kept
      rw [List.foldl_cons, ih]
      by_cases hin : kept.contains first = true
      · rw [if_pos hin]
        have hmem : first ∈ kept := List.contains_iff_mem.mp hin
        constructor
        · rintro (h | h)
          · exact Or.inl (List.mem_cons_of_mem _ h)
          · exact Or.inr h
        · rintro (h | h)
          · rcases List.mem_cons.mp h with rfl | h
            · exact Or.inr hmem
            · exact Or.inl h
          · exact Or.inr h
      · rw [if_neg hin]
        simp only [List.mem_cons, List.mem_append, List.not_mem_nil, or_false]
        tauto
  rw [hfold]
  simp

/-- A tag that one edit adds and none removes is there at the end. -/
theorem tagsInTurn_added {id tag : PyStr} (h : tagsInTurn db requests = some after)
    {r : TagRequest} (hr : r ∈ requests) (hid : r.traceId = id) (hadd : tag ∈ r.add)
    (hkept : ∀ r' ∈ requests, r'.traceId = id → tag ∉ r'.remove) :
    ∃ found, tagsOf after id = some found ∧ tag ∈ found := by
  obtain ⟨first, rest, rfl⟩ := List.append_of_mem hr
  rw [tagsInTurn, List.foldlM_append] at h
  obtain ⟨d, -, h⟩ := Option.bind_eq_some_iff.mp h
  obtain ⟨d', halone, h⟩ := Option.bind_eq_some_iff.mp h
  refine tagsInTurn_keeps (P := fun d => ∃ found, tagsOf d id = some found ∧ tag ∈ found)
    ?_ ?_ h
  · -- a later edit of the trace keeps the tag, and one of another trace all of its tags
    rintro r' hr' d d' ⟨found, hfound, htag⟩ halone
    have hone := TagRequest.tagsOf_alone halone id
    by_cases hid' : id = r'.traceId
    · rw [if_pos hid'] at hone
      obtain ⟨stored, hstored, hafter, -⟩ := hone
      obtain rfl := Option.some.inj (hstored.symm.trans hfound)
      have hnot := hkept r' (List.mem_append_right _ (List.mem_cons_of_mem _ hr')) hid'.symm
      exact ⟨_, hafter, mem_mergedTags.mpr (Or.inr ⟨htag, hnot⟩)⟩
    · rw [if_neg hid'] at hone
      exact ⟨found, hone ▸ hfound, htag⟩
  · have hone := TagRequest.tagsOf_alone halone id
    rw [if_pos hid.symm] at hone
    obtain ⟨stored, -, hafter, -⟩ := hone
    exact ⟨_, hafter, mem_mergedTags.mpr (Or.inl hadd)⟩

end Serial

/-! ## Over every interleaving -/

/-- At an `UPDATE`, the tags that the request read are still the stored ones. -/
def ReadIsCurrent (db : Db) (_ : Unit) (p : TagPc) : Prop :=
  match p.point with
  | .update stored _ => tagsOf db p.request.traceId = some stored
  | _ => True

instance (db : Db) (e : Unit) : (p : TagPc) → Decidable (ReadIsCurrent db e p)
  | ⟨r, .update stored _⟩ => inferInstanceAs (Decidable (tagsOf db r.traceId = some stored))
  | ⟨_, .read⟩ | ⟨_, .audit _⟩ | ⟨_, .commit _⟩ | ⟨_, .closing _⟩ | ⟨_, .done _⟩ => isTrue trivial

/-- What a request knows outside a transaction. -/
def TagRequest.Reads (r : TagRequest) : TagPoint → Prop
  | .update stored merged => r.traceId.encodable = true ∧ merged = r.merged stored ∧
      merged.length ≤ maxTags
  | .audit _ | .commit _ => False
  | _ => True

/-- What a request knows inside its transaction, of the committed database and its copy. -/
def TagRequest.Writes (r : TagRequest) (db copy : Db) : TagPoint → Prop
  | .audit merged => copy = setTraceTags r.traceId merged db ∧
      r.alone db = some (r.store merged db)
  | .commit _ => r.alone db = some copy
  | _ => False

section Outline

variable {r : TagRequest} {db copy : Db} {point : TagPoint}

/-- What a request knows after `trace_detail`. -/
theorem TagRequest.reads_select {k : Db → TagPoint} (hcode : r.code point = some (.select k)) :
    r.Reads (k db) := by
  cases point with
  | read =>
    obtain rfl := Wal.Stmt.select.inj (Option.some.inj hcode)
    dsimp only
    rcases hload : (loadTrace r.traceId db).1 with e | row
    · trivial
    · dsimp only
      unfold TagRequest.edit
      by_cases hmany : maxTags < (r.merged row.tags).length
      · rw [if_pos hmany]
        trivial
      · rw [if_neg hmany]
        exact ⟨(loadTrace_eq_ok.mp hload).1, rfl, Nat.not_lt.mp hmany⟩
  | _ => cases hcode

/-- An `UPDATE`, of tags that are still the stored ones. -/
theorem TagRequest.writes_update {change : Db → Db} {k : Db → TagPoint}
    (h : r.Reads point) (hcode : r.code point = some (.dml change k))
    (hcurrent : ReadIsCurrent db () ⟨r, point⟩) : r.Writes db (change db) (k db) := by
  cases point with
  | update stored merged =>
    obtain ⟨rfl, rfl⟩ := Wal.Stmt.dml.inj (Option.some.inj hcode)
    obtain ⟨hid, rfl, hfew⟩ := h
    obtain ⟨row, hrow, rfl⟩ := Option.map_eq_some_iff.mp hcurrent
    exact ⟨rfl, r.alone_eq_some.mpr ⟨row, loadTrace_eq_ok.mpr ⟨hid, hrow⟩, hfew, rfl⟩⟩
  | audit _ => exact h.elim
  | _ => cases hcode

/-- The audit row, after the `UPDATE`. -/
theorem TagRequest.writes_audit {change : Db → Db} {k : Db → TagPoint}
    (h : r.Writes db copy point) (hcode : r.code point = some (.dml change k)) :
    r.Writes db (change copy) (k copy) := by
  cases point with
  | audit merged =>
    obtain ⟨rfl, rfl⟩ := Wal.Stmt.dml.inj (Option.some.inj hcode)
    obtain ⟨rfl, halone⟩ := h
    exact halone
  | update _ _ => exact h.elim
  | _ => cases hcode

/-- Inside a transaction a request does not query. -/
theorem TagRequest.not_writes_select {k : Db → TagPoint} (h : r.Writes db copy point)
    (hcode : r.code point = some (.select k)) : False := by
  cases point with
  | read => exact h
  | _ => cases hcode

/-- Only a transaction is committed. -/
theorem TagRequest.not_reads_commit {k : TagPoint} (h : r.Reads point)
    (hcode : r.code point = some (.commit k)) : False := by
  cases point with
  | commit _ => exact h
  | _ => cases hcode

/-- What is committed, and what the request knows then. -/
theorem TagRequest.writes_commit {k : TagPoint} (h : r.Writes db copy point)
    (hcode : r.code point = some (.commit k)) : r.alone db = some copy ∧ r.Reads k := by
  cases point with
  | commit _ =>
    obtain rfl := Wal.Stmt.commit.inj (Option.some.inj hcode)
    exact ⟨h, trivial⟩
  | _ => cases hcode

/-- Closing the connection. -/
theorem TagRequest.reads_rollback {k : TagPoint} (hcode : r.code point = some (.rollback k)) :
    r.Reads k := by
  cases point with
  | closing _ =>
    obtain rfl := Wal.Stmt.rollback.inj (Option.some.inj hcode)
    trivial
  | _ => cases hcode

end Outline

/-- The proof outline of the edits. -/
def tagOutline : Wal.Outline tagRequests ReadIsCurrent where
  I _ _ := True
  J _ _ p := p.request.Reads p.point
  T db _ copy p := p.request.Writes db copy p.point
  start {_ _ p} _ hstart := by
    obtain ⟨r, point⟩ := p
    cases point with
    | read => trivial
    | _ => cases hstart
  select _ _ hcode _ := by
    obtain ⟨k, hpoint, rfl⟩ := Wal.Stmt.map_eq_select hcode
    exact TagRequest.reads_select hpoint
  selectTxn _ hT hcode _ := by
    obtain ⟨k, hpoint, -⟩ := Wal.Stmt.map_eq_select hcode
    exact (TagRequest.not_writes_select hT hpoint).elim
  dml _ hJ hcode hok := by
    obtain ⟨k, hpoint, rfl⟩ := Wal.Stmt.map_eq_dml hcode
    exact TagRequest.writes_update hJ hpoint hok
  dmlTxn _ hT hcode _ := by
    obtain ⟨k, hpoint, rfl⟩ := Wal.Stmt.map_eq_dml hcode
    exact TagRequest.writes_audit hT hpoint
  commit _ hJ hcode := by
    obtain ⟨k, hpoint, -⟩ := Wal.Stmt.map_eq_commit hcode
    exact (TagRequest.not_reads_commit hJ hpoint).elim
  commitTxn _ hT hcode := by
    obtain ⟨k, hpoint, rfl⟩ := Wal.Stmt.map_eq_commit hcode
    exact ⟨trivial, (TagRequest.writes_commit hT hpoint).2, fun _ hq => hq⟩
  rollback _ _ hcode := by
    obtain ⟨k, hpoint, rfl⟩ := Wal.Stmt.map_eq_rollback hcode
    exact TagRequest.reads_rollback hpoint
  rollbackTxn _ _ hcode := by
    obtain ⟨k, hpoint, rfl⟩ := Wal.Stmt.map_eq_rollback hcode
    exact TagRequest.reads_rollback hpoint
  ext {x} _ _ := x.elim

/-- The accepted edits are a serial history of the whole database, in the order of their
commits. -/
theorem tags_serial {db : Db} {t : TagWorld}
    {es : List (Machine.Event TagWorld (Wal.Act TagPc Empty))} (hrun : TagRun db es t)
    (hok : ∀ e ∈ es, Wal.Allowed ReadIsCurrent e.pre e.act) :
    tagsInTurn db (acceptedTags es) = some t.disk := by
  have hcommit : ∀ {d : Db} {e : Unit} {w : Db} {p k : TagPc}, tagOutline.T d e w p →
      tagRequests.code p = some (.commit k) → p.request.alone d = some w := by
    intro d e w p k hT hcode
    obtain ⟨k, hpoint, -⟩ := Wal.Stmt.map_eq_commit hcode
    exact (TagRequest.writes_commit hT hpoint).1
  have hserial := tagOutline.serial hcommit (fun x => x.elim) hrun
    ⟨trivial, fun i p hp => (by cases hp), fun j w hw => (by cases hw)⟩ hok
  rw [tagsInTurn, acceptedTags, List.foldlM_map]
  exact hserial

/-- **Tag edits are serializable where no read is stale.** Through every interleaving in
which the tags that a request read are still the stored ones when its `UPDATE` takes the
lock, the accepted requests one after another, in some order, leave the same tags on
every trace; a tag that one of them adds and none removes is there, and no edit leaves
more than ten. -/
theorem tags_serializable {db : Db} {t : TagWorld}
    {es : List (Machine.Event TagWorld (Wal.Act TagPc Empty))} (hrun : TagRun db es t)
    (hok : ∀ e ∈ es, Wal.Allowed ReadIsCurrent e.pre e.act) :
    (∃ order after, order.Perm (acceptedTags es) ∧ tagsInTurn db order = some after ∧
      ∀ id, tagsOf t.disk id = tagsOf after id) ∧
    (∀ r ∈ acceptedTags es, ∀ tag ∈ r.add,
      (∀ r' ∈ acceptedTags es, r'.traceId = r.traceId → tag ∉ r'.remove) →
        ∃ found, tagsOf t.disk r.traceId = some found ∧ tag ∈ found) ∧
    ∀ id found, tagsOf t.disk id = some found →
      found.length ≤ maxTags ∨ tagsOf db id = some found := by
  have hserial := tags_serial hrun hok
  refine ⟨⟨acceptedTags es, t.disk, List.Perm.refl _, hserial, fun _ => rfl⟩, ?_, ?_⟩
  · intro r hr tag htag hkept
    exact tagsInTurn_added hserial hr rfl htag hkept
  · intro id found hfound
    exact tagsInTurn_few hserial hfound

/-! ## Two edits -/

/-- A trace without tags. -/
def untaggedRow : TraceRow where
  id := py "0a1b2c3d"
  tsStart := 0
  durationMs := 5
  route := py "/predict"
  method := py "POST"
  status := 200
  rowid := 1

/-- The table of that trace. -/
def untagged : Db := { traces := [untaggedRow] }

/-- A body that adds a tag. -/
def addBody (tag : String) : SessionRequest where
  body := .ok (.obj [(py "add", .arr [.str (py tag)])])

theorem addBody_a : validatedTags (addBody "a") = .ok ([py "a"], []) := rfl

theorem addBody_b : validatedTags (addBody "b") = .ok ([py "b"], []) := rfl

/-- An edit that adds a tag to the trace. -/
def addA : TagRequest := ⟨addBody "a", untaggedRow.id, 0, [py "a"], [], addBody_a⟩

/-- An edit that adds another tag to it. -/
def addB : TagRequest := ⟨addBody "b", untaggedRow.id, 0, [py "b"], [], addBody_b⟩

/-- The machine of the table. -/
abbrev untaggedEdits : Machine TagWorld (Wal.Act TagPc Empty) :=
  tagRequests.machine (· = TagWorld.idle untagged)

/-- Both requests read the tags before either stores its own. -/
def editAtOnce : List (Wal.Act TagPc Empty) :=
  [.connect ⟨addA, .read⟩, .connect ⟨addB, .read⟩, .stmt 0, .stmt 1] ++
    List.replicate 4 (.stmt 0) ++ List.replicate 4 (.stmt 1)

/-- The tag of the first is lost: no order of the two leaves what they left. -/
theorem tags_edited_at_once : ∃ es t, TagRun untagged es t ∧ acceptedTags es = [addA, addB] ∧
    ¬∃ order after, order.Perm (acceptedTags es) ∧ tagsInTurn untagged order = some after ∧
      ∀ id, tagsOf t.disk id = tagsOf after id := by
  have hran : (untaggedEdits.exec (TagWorld.idle untagged) editAtOnce).isSome = true := by
    decide +kernel
  have haccepted : acceptedTags (untaggedEdits.events (TagWorld.idle untagged) editAtOnce) =
      [addA, addB] := rfl
  have hleft : tagsOf (untaggedEdits.final (TagWorld.idle untagged) editAtOnce).disk
      untaggedRow.id = some [py "b"] := by
    decide +kernel
  refine ⟨_, _, Machine.Run.of_final hran, haccepted, ?_⟩
  rintro ⟨order, after, horder, hturn, hsame⟩
  -- in any order, the tag of the first is there
  have hfirst : addA ∈ order := horder.mem_iff.mpr (haccepted ▸ List.mem_cons_self)
  have hnone : ∀ r ∈ order, r.traceId = addA.traceId → py "a" ∉ r.remove := by
    intro r hr _
    rw [haccepted] at horder
    rcases List.mem_pair.mp (horder.mem_iff.mp hr) with rfl | rfl
    · exact List.not_mem_nil
    · exact List.not_mem_nil
  obtain ⟨found, hfound, htag⟩ :=
    tagsInTurn_added hturn hfirst rfl List.mem_cons_self hnone
  obtain rfl : found = [py "b"] :=
    Option.some.inj (hfound.symm.trans ((hsame addA.traceId).symm.trans hleft))
  exact absurd htag (by decide)

/-- The second request reads the tags after the first has committed. -/
def editInTurn : List (Wal.Act TagPc Empty) :=
  .connect ⟨addA, .read⟩ :: List.replicate 5 (.stmt 0) ++
    .connect ⟨addB, .read⟩ :: List.replicate 5 (.stmt 1)

/-- Then both tags are there. -/
theorem tags_edited_in_turn :
    ∃ found, tagsOf (untaggedEdits.final (TagWorld.idle untagged) editInTurn).disk
      untaggedRow.id = some found ∧ py "a" ∈ found := by
  have hran : (untaggedEdits.exec (TagWorld.idle untagged) editInTurn).isSome = true := by
    decide +kernel
  have hok : ∀ e ∈ untaggedEdits.events (TagWorld.idle untagged) editInTurn,
      Wal.Allowed ReadIsCurrent e.pre e.act := by
    decide +kernel
  have haccepted : acceptedTags (untaggedEdits.events (TagWorld.idle untagged) editInTurn) =
      [addA, addB] := rfl
  refine (tags_serializable (Machine.Run.of_final hran) hok).2.1 addA ?_ (py "a")
    List.mem_cons_self ?_
  · rw [haccepted]
    exact List.mem_cons_self
  · intro r hr _
    rw [haccepted] at hr
    rcases List.mem_pair.mp hr with rfl | rfl
    · exact List.not_mem_nil
    · exact List.not_mem_nil

end LayaWatch
