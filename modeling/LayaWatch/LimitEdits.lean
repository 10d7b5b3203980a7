import LayaWatch.KeyEdits

/-!
# Edits of the limits of a key

A PATCH of a key writes both limits. `_limits` makes null of a field that its body
does not name, as it does for a new key, and the row gets that null. The edits of a
key compose (a limit is what the last body that names it gives) exactly in the runs
in which a limit that an accepted body leaves out is null already (`limit_edits`).
-/

namespace LayaWatch

/-- `_LIMIT_FIELDS`. -/
inductive LimitName where
  /-- `"rate_limit_per_min"` -/
  | rateLimitPerMin
  /-- `"burst"` -/
  | burst

namespace LimitName

/-- The name in a body. -/
def text : LimitName → PyStr
  | rateLimitPerMin => py "rate_limit_per_min"
  | burst => py "burst"

/-- The limit of this name. -/
def value (limits : KeyLimits) : LimitName → Option ℤ
  | rateLimitPerMin => limits.rateLimitPerMin
  | burst => limits.burst

/-- What a body says of a limit: nothing, null, or a number. -/
def named (f : LimitName) (payload : Fields) : Option (Option ℤ) :=
  match payload.get f.text with
  | none => none
  | some (.int n) => some (some n)
  | some _ => some none

/-- What the last of these bodies that names the limit says of it. -/
def last (f : LimitName) (bodies : List Fields) : Option (Option ℤ) :=
  bodies.reverse.findSome? f.named

@[simp] theorem last_nil (f : LimitName) : f.last [] = none := rfl

theorem last_snoc (f : LimitName) (bodies : List Fields) (payload : Fields) :
    f.last (bodies ++ [payload]) = (f.named payload).or (f.last bodies) := by
  unfold last
  rw [List.reverse_append, List.reverse_singleton, List.singleton_append, List.findSome?_cons]
  rcases f.named payload with _ | value
  · rfl
  · rfl

end LimitName

/-- `_limits` takes what a body does not name as null. -/
theorem limitField_named {payload : Fields} {f : LimitName} {value : Option ℤ}
    (h : limitField payload f.text = .ok value) : value = (f.named payload).getD none := by
  unfold limitField at h
  unfold LimitName.named
  split at h
  · next hget =>
    rw [hget]
    exact (Except.ok.inj h).symm
  · next hget =>
    rw [hget]
    exact (Except.ok.inj h).symm
  · next n hget =>
    rw [hget]
    split at h
    · cases h
    · exact (Except.ok.inj h).symm
  · cases h

theorem ofPayload_value {payload : Fields} {limits : KeyLimits}
    (h : KeyLimits.ofPayload payload = .ok limits) (f : LimitName) :
    f.value limits = (f.named payload).getD none := by
  obtain ⟨rate, hrate, hrest⟩ := bind_eq_ok.mp h
  obtain ⟨burst, hburst, hlimits⟩ := bind_eq_ok.mp hrest
  obtain rfl := Except.ok.inj hlimits
  cases f with
  | rateLimitPerMin => exact limitField_named (f := .rateLimitPerMin) hrate
  | burst => exact limitField_named (f := .burst) hburst

/-! ## One operation -/

/-- A limit of a key, as it is stored. -/
def KeySystem.limit (s : KeySystem) (id : PyStr) (f : LimitName) : Option ℤ :=
  (s.db.keyRow id).bind fun row => f.value row.limits

/-- The body of an accepted PATCH of this key. -/
def acceptedBody (A : AuthLib) (id : PyStr) (s : KeySystem) : KeyEdit → Option Fields
  | .patch r =>
    match (patchKey A r s.now s.db).1, r.body with
    | .ok _, .ok (.obj payload) => if keyPathParts r.path = [id] then some payload else none
    | _, _ => none
  | _ => none

section

variable {A : AuthLib} {L : KeyLib} {plain : PyStr → PyStr} {s : KeySystem} {id : PyStr}

theorem Db.KeepsKeys.limit {t : KeySystem} (h : s.db.KeepsKeys SameLimits t.db)
    (hthere : (s.db.keyRow id).isSome = true) (f : LimitName) : t.limit id f = s.limit id f := by
  obtain ⟨row, hrow⟩ := Option.isSome_iff_exists.mp hthere
  obtain ⟨row', hrow', hsame⟩ := h id row hrow
  unfold SameLimits at hsame
  unfold KeySystem.limit
  rw [hrow, hrow', Option.bind_some, Option.bind_some, hsame]

/-- After an accepted PATCH a limit is what its body says, or null; every other
operation leaves it as it is. -/
theorem KeySystem.limit_edit (hthere : (s.db.keyRow id).isSome = true) (e : KeyEdit)
    (f : LimitName) : (s.edit A L plain e).limit id f =
      match acceptedBody A id s e with
      | some payload => (f.named payload).getD none
      | none => s.limit id f := by
  cases e with
  | key op => exact (step_keepsKeys op).limit hthere f
  | arm r =>
    have hkeeps : s.db.KeepsKeys SameLimits (s.edit A L plain (.arm r)).db :=
      after_keepsKeys ((setAuthState_ends r s.now s.db).mono (fun _ _ h => h) fun _ _ h => h.1)
        (fun _ => rfl) fun _ _ h => .same (fun _ => rfl) h.1
    exact hkeeps.limit hthere f
  | patch r =>
    have hends := patchKey_ends (A := A) r s.now s.db
    have hdb : (s.edit A L plain (.patch r)).db = (patchKey A r s.now s.db).2 := db_after _ _
    have hlimit : (s.edit A L plain (.patch r)).limit id f =
        ((patchKey A r s.now s.db).2.keyRow id).bind fun row => f.value row.limits := by
      unfold limit
      rw [hdb]
    rw [hlimit]
    unfold acceptedBody
    dsimp only
    rcases hrun : patchKey A r s.now s.db with ⟨error | fields, t⟩
    · -- refused: no key changes
      dsimp only
      rw [Db.keyRow_congr (hends.error hrun)]
      rfl
    · obtain ⟨keyId, payload, limits, hpath, hbody, hof, -, hkeys⟩ := hends.ok hrun
      obtain ⟨row, hrow⟩ := Option.isSome_iff_exists.mp hthere
      have hid := Db.keyRow_id hrow
      dsimp only
      rw [Db.keyRow_congr hkeys, Db.keyRow_mapKey (f := limits.write) (fun _ => rfl), hrow, hbody,
        hpath, Option.map_some, Option.bind_some, hid]
      dsimp only
      by_cases hkey : keyId = id
      · have hpaths : [keyId] = [id] := by rw [hkey]
        rw [if_pos hkey.symm, if_pos hpaths]
        exact ofPayload_value hof f
      · have hpaths : ¬[keyId] = [id] := fun h => hkey (List.singleton_inj.mp h)
        rw [if_neg (Ne.symm hkey), if_neg hpaths]
        unfold limit
        rw [hrow]
        rfl

end

/-! ## Runs -/

/-- The bodies of the accepted PATCHes of this key, in order. -/
def acceptedBodies (A : AuthLib) (id : PyStr) (es : List (Machine.Event KeySystem KeyEdit)) :
    List Fields :=
  Machine.outputs (fun s e => (acceptedBody A id s e).toList) es

/-- The edits of a key that was stored as `row` compose. -/
structure EditsCompose (A : AuthLib) (id : PyStr) (row : ApiKeyRow)
    (es : List (Machine.Event KeySystem KeyEdit)) : Prop where
  /-- a limit is what the last body that names it says, or what it was -/
  stored : ∀ before e after, es = before ++ e :: after → ∀ f : LimitName,
    e.post.limit id f =
      (f.last (acceptedBodies A id (before ++ [e]))).getD (f.value row.limits)
  /-- a limit that a body does not name stays -/
  unnamed : ∀ e ∈ es, ∀ payload, acceptedBody A id e.pre e.act = some payload →
    ∀ f : LimitName, f.named payload = none → e.post.limit id f = e.pre.limit id f

/-- A limit that an accepted body leaves out is null already. -/
def LeavesOutNull (A : AuthLib) (id : PyStr) (es : List (Machine.Event KeySystem KeyEdit)) : Prop :=
  ∀ e ∈ es, ∀ payload, acceptedBody A id e.pre e.act = some payload →
    ∀ f : LimitName, f.named payload = none → e.pre.limit id f = none

section

variable {A : AuthLib} {L : KeyLib} {plain : PyStr → PyStr} {s t : KeySystem}
  {es : List (Machine.Event KeySystem KeyEdit)} {id : PyStr} {row : ApiKeyRow}

/-- A limit at the end of a run in which what is left out is null. -/
theorem LeavesOutNull.stored (hrun : (keyEdits A L plain).Run s es t)
    (hrow : s.db.keyRow id = some row) (hnull : LeavesOutNull A id es) (f : LimitName) :
    t.limit id f = (f.last (acceptedBodies A id es)).getD (f.value row.limits) := by
  induction hrun with
  | refl =>
    unfold KeySystem.limit
    rw [hrow]
    rfl
  | @snoc t u es a hbefore hstep ih =>
    obtain rfl := Option.some.inj hstep
    have hthere : (t.db.keyRow id).isSome = true :=
      keyRow_run hbefore (Option.isSome_iff_exists.mpr ⟨row, hrow⟩)
    have hold := ih fun e he => hnull e (List.mem_append_left _ he)
    have hlast := hnull _ (List.mem_append_right _ (List.mem_singleton_self _))
    unfold acceptedBodies at hold ⊢
    rw [KeySystem.limit_edit hthere, Machine.outputs_snoc]
    dsimp only at hlast ⊢
    rcases hbody : acceptedBody A id t a with _ | payload
    · rw [Option.toList_none, List.append_nil]
      exact hold
    · dsimp only
      rw [Option.toList_some, LimitName.last_snoc]
      rcases hnamed : f.named payload with _ | value
      · -- the body leaves the limit out, and it is null
        rw [Option.none_or, ← hold, hlast payload hbody f hnamed]
        rfl
      · rw [Option.some_or]
        rfl

/-- **The edits of the limits of a key compose exactly in the runs in which a limit
that an accepted body leaves out is null already.** -/
theorem limit_edits (hrun : (keyEdits A L plain).Run s es t) (hrow : s.db.keyRow id = some row) :
    EditsCompose A id row es ↔ LeavesOutNull A id es := by
  -- the key is there before every step
  have hthere : ∀ e ∈ es, (e.pre.db.keyRow id).isSome = true ∧
      e.post = e.pre.edit A L plain e.act := by
    intro e he
    obtain ⟨before, after, rfl⟩ := List.append_of_mem he
    obtain ⟨u, hfirst, hsecond⟩ := hrun.of_append
    obtain ⟨rfl, hstep, -⟩ := hsecond.of_cons
    exact ⟨keyRow_run hfirst (Option.isSome_iff_exists.mpr ⟨row, hrow⟩),
      (Option.some.inj hstep).symm⟩
  -- a body clears the limits that it does not name
  have hcleared : ∀ e ∈ es, ∀ payload, acceptedBody A id e.pre e.act = some payload →
      ∀ f : LimitName, f.named payload = none → e.post.limit id f = none := by
    intro e he payload hbody f hnamed
    obtain ⟨hpre, hpost⟩ := hthere e he
    rw [hpost, KeySystem.limit_edit hpre, hbody]
    dsimp only
    rw [hnamed]
    rfl
  constructor
  · intro h e he payload hbody f hnamed
    rw [← h.unnamed e he payload hbody f hnamed]
    exact hcleared e he payload hbody f hnamed
  · intro h
    refine ⟨?_, fun e he payload hbody f hnamed => ?_⟩
    · rintro before e after rfl f
      obtain ⟨u, hfirst, hsecond⟩ := hrun.of_append
      obtain ⟨rfl, hstep, -⟩ := hsecond.of_cons
      refine LeavesOutNull.stored (Machine.Run.snoc hfirst hstep) hrow (fun e' he' => ?_) f
      refine h e' ?_
      rcases List.mem_append.mp he' with hin | hin
      · exact List.mem_append_left _ hin
      · rw [List.mem_singleton.mp hin]
        exact List.mem_append_right _ (List.mem_cons_self ..)
    · rw [hcleared e he payload hbody f hnamed, h e he payload hbody f hnamed]

end

/-- A key with both limits. -/
def limitedKey : ApiKeyRow where
  id := py "k"
  name := py "client"
  keyPrefix := py "lay_0000"
  hash := py "h"
  createdAt := 0
  rateLimitPerMin := some 600
  burst := some 10

/-- An admin with a session, and the key. -/
def limitedSession : KeySystem :=
  { adminSession with db := { adminSession.db with apiKeys := [limitedKey] } }

/-- A PATCH of the key. -/
def limitPatch (body : Fields) : KeyEdit :=
  .patch { toSessionRequest := adminRequest body, path := py "/api/v1/keys/k" }

/-- The run of one PATCH of the key. -/
def limitRun (body : Fields) : List (Machine.Event KeySystem KeyEdit) :=
  (keyEdits textAuth markedKeys List.tail).events limitedSession [limitPatch body]

theorem run_limitRun (body : Fields) : ∃ t,
    (keyEdits textAuth markedKeys List.tail).Run limitedSession (limitRun body) t :=
  ⟨_, (Machine.Run.of_events (M := keyEdits textAuth markedKeys List.tail)
    (l := [limitPatch body]) rfl).1⟩

/-- A body that names both limits: one is cleared, and the other is set. -/
theorem limit_edits_both : EditsCompose textAuth (py "k") limitedKey
    (limitRun [(py "rate_limit_per_min", .null), (py "burst", .int 20)]) := by
  obtain ⟨t, hrun⟩ := run_limitRun [(py "rate_limit_per_min", .null), (py "burst", .int 20)]
  refine (limit_edits hrun rfl).mpr fun e he payload hbody f hnamed => ?_
  obtain rfl := List.mem_singleton.mp he
  have hnames : ∀ f : LimitName, Option.all (fun payload => (f.named payload).isSome)
      (acceptedBody textAuth (py "k") limitedSession (limitPatch
        [(py "rate_limit_per_min", .null), (py "burst", .int 20)])) = true := by
    intro f
    cases f <;> decide +kernel
  have hsome := hnames f
  rw [show acceptedBody textAuth (py "k") limitedSession (limitPatch
    [(py "rate_limit_per_min", .null), (py "burst", .int 20)]) = some payload from hbody,
    Option.all_some, hnamed] at hsome
  cases hsome

/-- A body that names only the burst clears the rate, which was 600. -/
theorem burst_edit_clears_rate : (∃ t, (keyEdits textAuth markedKeys List.tail).Run limitedSession
      (limitRun [(py "burst", .int 20)]) t) ∧
    limitedSession.db.keyRow (py "k") = some limitedKey ∧
    ¬EditsCompose textAuth (py "k") limitedKey (limitRun [(py "burst", .int 20)]) := by
  refine ⟨run_limitRun _, rfl, fun h => ?_⟩
  exact absurd (h.stored [] _ [] rfl .rateLimitPerMin) (by decide +kernel)

end LayaWatch
