import LayaWatch.KeySoundness
import LayaWatch.Mutations
import LayaWatch.Lib.Machine

/-!
# Edits of keys

The operations of `KeySoundness` and the two other handlers of `api/keys.py`: the
limits of a key are edited, and key auth is armed or disarmed. A key that has a row
keeps one (`edit_keeps`).
-/

namespace LayaWatch

open Auth

/-- The row of a key, as `_load` finds it. -/
def Db.keyRow (db : Db) (id : PyStr) : Option ApiKeyRow :=
  db.apiKeys.find? fun row => decide (row.id = id)

theorem Db.keyRow_congr {db t : Db} (h : t.apiKeys = db.apiKeys) (id : PyStr) :
    t.keyRow id = db.keyRow id := by
  unfold Db.keyRow
  rw [h]

theorem Db.keyRow_id {db : Db} {id : PyStr} {row : ApiKeyRow} (h : db.keyRow id = some row) :
    row.id = id := by
  unfold Db.keyRow at h
  simpa using List.find?_some h

/-- An update of the row of one key. -/
theorem Db.keyRow_mapKey {db : Db} {f : ApiKeyRow → ApiKeyRow} (hf : ∀ row, (f row).id = row.id)
    (keyId id : PyStr) : (db.mapKey keyId f).keyRow id =
      (db.keyRow id).map fun row => if row.id = keyId then f row else row := by
  unfold Db.keyRow Db.mapKey
  rw [List.find?_map]
  congr 2
  funext row
  simp only [Function.comp_apply]
  split
  · rw [hf]
  · rfl

/-- A row more does not hide one that is there. -/
theorem Db.keyRow_append {db t : Db} {rows : List ApiKeyRow} (h : t.apiKeys = db.apiKeys ++ rows)
    {id : PyStr} {row : ApiKeyRow} (hrow : db.keyRow id = some row) : t.keyRow id = some row := by
  unfold Db.keyRow at hrow ⊢
  rw [h, List.find?_append, hrow]
  rfl

/-- The keys of one database have rows in another, which are related to theirs. -/
def Db.KeepsKeys (R : ApiKeyRow → ApiKeyRow → Prop) (db t : Db) : Prop :=
  ∀ id row, db.keyRow id = some row → ∃ row', t.keyRow id = some row' ∧ R row row'

namespace Db.KeepsKeys

variable {R : ApiKeyRow → ApiKeyRow → Prop} {db t : Db}

theorem same (hR : ∀ row, R row row) (h : t.apiKeys = db.apiKeys) : db.KeepsKeys R t :=
  fun id row hrow => ⟨row, (keyRow_congr h id).trans hrow, hR row⟩

theorem mapped {keyId : PyStr} {f : ApiKeyRow → ApiKeyRow}
    (h : t.apiKeys = (db.mapKey keyId f).apiKeys) (hf : ∀ row, (f row).id = row.id)
    (hR : ∀ row, R row row) (hRf : ∀ row, R row (f row)) : db.KeepsKeys R t := by
  intro id row hrow
  refine ⟨if row.id = keyId then f row else row, ?_, ?_⟩
  · rw [keyRow_congr h, keyRow_mapKey hf, hrow]
    rfl
  · split
    · exact hRf row
    · exact hR row

theorem appended (hR : ∀ row, R row row) {rows : List ApiKeyRow}
    (h : t.apiKeys = db.apiKeys ++ rows) : db.KeepsKeys R t :=
  fun _ row hrow => ⟨row, keyRow_append h hrow, hR row⟩

theorem mono {R' : ApiKeyRow → ApiKeyRow → Prop} (h : db.KeepsKeys R t)
    (hR : ∀ row row', R row row' → R' row row') : db.KeepsKeys R' t := by
  intro id row hrow
  obtain ⟨row', hrow', hrel⟩ := h id row hrow
  exact ⟨row', hrow', hR row row' hrel⟩

end Db.KeepsKeys

/-- `INSERT OR IGNORE` adds rows at the end. -/
theorem insertOrIgnore_appends (rows : List ApiKeyRow) (db : Db) :
    ∃ more, (rows.foldl insertOrIgnore db).apiKeys = db.apiKeys ++ more := by
  induction rows generalizing db with
  | nil => exact ⟨[], (List.append_nil _).symm⟩
  | cons row rows ih =>
    obtain ⟨more, hmore⟩ := ih (insertOrIgnore db row)
    have hone : ∃ one, (insertOrIgnore db row).apiKeys = db.apiKeys ++ one := by
      unfold insertOrIgnore
      split
      · exact ⟨[], (List.append_nil _).symm⟩
      · exact ⟨[row], rfl⟩
    obtain ⟨one, hone⟩ := hone
    exact ⟨one ++ more, by rw [List.foldl_cons, hmore, hone, List.append_assoc]⟩

/-! ## How the handlers end -/

section

variable {A : AuthLib} {L : KeyLib}

/-- The import adds the rows of the file and sets the flag, or does nothing. -/
theorem importOnce_ends (file : Option Json) (now : ℚ) (db : Db) : (importOnce L file now).Ends db
    (fun _ t => legacyContents file = none ∧ t = db ∨
      ∃ keys enabled, legacyContents file = some (keys, enabled) ∧
        t = armLegacy enabled now ((legacyRows L now keys).foldl insertOrIgnore db))
    fun _ t => t = db := by
  unfold importOnce
  rcases hcontents : legacyContents file with _ | ⟨keys, enabled⟩
  · exact Prog.Ends.pure (Or.inl ⟨rfl, rfl⟩)
  · refine Prog.Ends.bind (P := fun _ t => t = db) ?_ ?_
    · split
      · exact Prog.Ends.pure rfl
      · exact Prog.Ends.raise rfl
    · rintro - t rfl
      exact Or.inr ⟨keys, enabled, rfl, rfl⟩

/-- A caller that may is let through, or refused; keys and settings stay as they are. -/
theorem gated_ends (r : SessionRequest) (cached : Option Caller) (permission action : String)
    (target : Option PyStr) (now : ℚ) (db : Db) :
    (gated r cached permission action target now).Ends db (fun _ t => t = db)
      fun _ t => t.apiKeys = db.apiKeys ∧ t.settings = db.settings :=
  permitted_ends r cached _ _ target now db

/-- The `UPDATE` of an edit of the limits. -/
def KeyLimits.write (limits : KeyLimits) (row : ApiKeyRow) : ApiKeyRow :=
  { row with rateLimitPerMin := limits.rateLimitPerMin, burst := limits.burst }

/-- What a PATCH has done: both limits of the key of its path are what `_limits` makes
of its body. -/
def Limits (r : ApiRequest) (db t : Db) : Prop :=
  ∃ keyId payload limits, keyPathParts r.path = [keyId] ∧ r.body = .ok (.obj payload) ∧
    KeyLimits.ofPayload payload = .ok limits ∧ (db.keyRow keyId).isSome = true ∧
      t.apiKeys = (db.mapKey keyId limits.write).apiKeys

theorem limitUpdate_eq_ok {r : SessionRequest} {limits : KeyLimits}
    (h : limitUpdate r = .ok limits) :
    ∃ payload, r.body = .ok (.obj payload) ∧ KeyLimits.ofPayload payload = .ok limits := by
  obtain ⟨payload, hbody, hrest⟩ := bind_eq_ok.mp h
  refine ⟨payload, ?_, ?_⟩
  · unfold bodyObject at hbody
    split at hbody
    · cases hbody
    · next heq => rw [heq, Except.ok.inj hbody]
    · cases hbody
  · split at hrest
    · cases hrest
    · split at hrest
      · cases hrest
      · exact hrest

theorem patchKey_ends (r : ApiRequest) (now : ℚ) (db : Db) : (patchKey A r now).Ends db
    (fun _ t => Limits r db t) fun _ t => t.apiKeys = db.apiKeys := by
  refine ((enforce_ends r.toSessionRequest false now db).mono (fun _ _ h => h)
    fun _ t h => by rw [h]).bind ?_
  rintro cached t rfl
  split
  · next keyId hpath =>
    split
    · exact Prog.Ends.raise rfl
    · refine Prog.Ends.bind
        (P := fun limits u => u = t ∧ limitUpdate r.toSessionRequest = .ok limits)
        (Prog.Ends.lift (fun _ h => ⟨rfl, h⟩) fun _ _ => rfl) ?_
      rintro limits u ⟨rfl, hlimits⟩
      refine ((gated_ends r.toSessionRequest cached _ _ _ now u).mono (fun _ _ h => h)
        fun _ _ h => h.1).bind ?_
      rintro who u rfl
      have hload : (loadKey keyId).Ends u (fun _ v => v = u ∧ (u.keyRow keyId).isSome = true)
          fun _ v => v.apiKeys = u.apiKeys := by
        refine (loadKey_ends keyId u).mono ?_ fun _ v h => by rw [h]
        rintro row v ⟨rfl, hrow, hid⟩
        exact ⟨rfl, List.find?_isSome.mpr ⟨row, hrow, decide_eq_true hid⟩⟩
      refine hload.bind ?_
      rintro row v ⟨rfl, hthere⟩
      obtain ⟨payload, hbody, hof⟩ := limitUpdate_eq_ok hlimits
      refine Prog.Ends.bind (P := fun _ w => w = v) ?_ ?_
      · split
        · exact Prog.Ends.pure rfl
        · exact Prog.Ends.raise rfl
      · rintro - w rfl
        exact ⟨keyId, payload, limits, hpath, hbody, hof, hthere, rfl⟩
  · exact Prog.Ends.raise rfl

/-- Arming sets the flag of the body; keys stay as they are. -/
theorem setAuthState_ends (r : SessionRequest) (now : ℚ) (db : Db) :
    (setAuthState A r now).Ends db
      (fun _ t => t.apiKeys = db.apiKeys ∧ ∃ enabled who, armedFlag r = .ok enabled ∧
        t.settings = (upsertSetting authSettingsKey (py (if enabled then "true" else "false")) who
          now db).settings)
      fun _ t => t.apiKeys = db.apiKeys ∧ t.settings = db.settings := by
  refine ((enforce_ends r false now db).mono (fun _ _ h => h) fun _ t h => ?_).bind ?_
  · rw [h]
    exact ⟨rfl, rfl⟩
  rintro cached t rfl
  refine Prog.Ends.bind (P := fun enabled u => u = t ∧ armedFlag r = .ok enabled)
    (Prog.Ends.lift (fun _ h => ⟨rfl, h⟩) fun _ _ => ⟨rfl, rfl⟩) ?_
  rintro enabled u ⟨rfl, henabled⟩
  refine (gated_ends r cached _ _ _ now u).bind ?_
  rintro who u rfl
  refine Prog.Ends.bind (P := fun _ v => v = u) rfl ?_
  rintro active v rfl
  refine Prog.Ends.bind (P := fun _ w => w = v) ?_ ?_
  · split
    · exact Prog.Ends.raise ⟨rfl, rfl⟩
    · exact Prog.Ends.pure rfl
  · rintro - w rfl
    exact ⟨rfl, enabled, who.actor, henabled, rfl⟩

/-! ## What they leave alone -/

theorem enforce_keeps {τ : Type} (f : Db → τ) (r : SessionRequest) (forced : Bool) (now : ℚ) :
    (enforceBrowserSession A r forced now).Keeps f :=
  Prog.Keeps.of_ends fun db => (enforce_ends r forced now db).mono (fun _ _ h => by rw [h])
    fun _ _ h => by rw [h]

theorem keyWriter_keeps (r : SessionRequest) (cached : Option Caller) (action : String)
    (target : Option PyStr) (now : ℚ) : (keyWriter r cached action target now).Keeps Db.settings :=
  Prog.Keeps.of_ends fun db => (gated_ends r cached "keys.write" action target now db).mono
    (fun _ _ h => by rw [h]) fun _ _ h => h.2

theorem loadKey_keeps {τ : Type} (f : Db → τ) (keyId : PyStr) : (loadKey keyId).Keeps f :=
  Prog.Keeps.of_ends fun db => (loadKey_ends keyId db).mono (fun _ _ h => by rw [h.1])
    fun _ _ h => by rw [h]

theorem createKey_keeps (r : SessionRequest) (keyId : PyStr) (drawn : List (Fin 62)) (now : ℚ) :
    (createKey A L r keyId drawn now).Keeps Db.settings :=
  .bind (enforce_keeps _ r false now) fun _ => .bind (.lift _) fun _ => .bind (.lift _) fun _ =>
    .bind (.lift _) fun _ => .bind (keyWriter_keeps r _ _ _ now) fun _ => .bind (.get _) fun _ =>
      .bind (.raiseIf _) fun _ => .bind (.modify fun _ => rfl) fun _ => .pure _

theorem revokeKey_keeps (r : SessionRequest) (cached : Option Caller) (keyId : PyStr) (now : ℚ) :
    (revokeKey r cached keyId now).Keeps Db.settings := by
  refine .bind (keyWriter_keeps r cached _ _ now) fun _ => .bind (loadKey_keeps _ keyId)
    fun row => ?_
  split
  · exact .bind (.modify fun _ => rfl) fun _ => .pure _
  · exact .pure _

theorem deleteByPath_keeps (r : SessionRequest) (path : PyStr) (now : ℚ) :
    (deleteByPath A r path now).Keeps Db.settings := by
  refine .bind (enforce_keeps _ r false now) fun cached => ?_
  split
  · split
    · exact .raise _
    · exact revokeKey_keeps r cached _ now
  · exact .raise _

theorem deleteByBody_keeps (r : SessionRequest) (now : ℚ) :
    (deleteByBody A r now).Keeps Db.settings :=
  .bind (enforce_keeps _ r false now) fun cached => .bind (.lift _) fun _ =>
    .bind (.lift _) fun keyId => revokeKey_keeps r cached keyId now

theorem rotateKey_keeps (r : SessionRequest) (cached : Option Caller) (keyId : PyStr)
    (drawn : List (Fin 62)) (now : ℚ) : (rotateKey L r cached keyId drawn now).Keeps Db.settings :=
  .bind (keyWriter_keeps r cached _ _ now) fun _ => .bind (loadKey_keeps _ keyId) fun _ =>
    .bind (.raiseIf _) fun _ => .bind (.modify fun _ => rfl) fun _ => .pure _

theorem postWildcard_keeps (r : SessionRequest) (path : PyStr) (drawn : List (Fin 62)) (now : ℚ) :
    (postWildcard A L r path drawn now).Keeps Db.settings := by
  refine .bind (enforce_keeps _ r false now) fun cached => ?_
  split
  · split
    · exact rotateKey_keeps r cached _ drawn now
    · exact .raise _
  · exact .raise _

theorem verifyKey_keeps (presented : PyStr) (now : ℚ) :
    (verifyKey L presented now).Keeps Db.settings := by
  unfold verifyKey
  split
  · exact .pure _
  · split
    · exact .raise _
    · refine .bind (.get _) fun rows => ?_
      split
      · exact .pure _
      · exact .bind (.modify fun _ => rfl) fun _ => .pure _

theorem setLimits_keeps (r : SessionRequest) (cached : Option Caller) (keyId : PyStr) (now : ℚ) :
    (setLimits r cached keyId now).Keeps Db.settings :=
  .bind (.lift _) fun _ => .bind (keyWriter_keeps r cached _ _ now) fun _ =>
    .bind (loadKey_keeps _ keyId) fun _ => .bind (.raiseIf _) fun _ =>
      .bind (.modify fun _ => rfl) fun _ => .pure _

theorem patchKey_keeps (r : ApiRequest) (now : ℚ) : (patchKey A r now).Keeps Db.settings := by
  refine .bind (enforce_keeps _ r.toSessionRequest false now) fun cached => ?_
  split
  · split
    · exact .raise _
    · exact setLimits_keeps r.toSessionRequest cached _ now
  · exact .raise _

end

/-! ## Runs -/

/-- What is done next. -/
inductive KeyEdit where
  /-- an operation of `KeyOp` -/
  | key (op : KeyOp)
  /-- `PATCH /api/v1/keys/*` -/
  | patch (r : ApiRequest)
  /-- `POST /api/v1/keys/auth` -/
  | arm (r : SessionRequest)

section

variable (A : AuthLib) (L : KeyLib) (plain : PyStr → PyStr)

/-- One operation. -/
def KeySystem.edit (s : KeySystem) : KeyEdit → KeySystem
  | .key op => s.step A L plain op
  | .patch r => s.after (patchKey A r s.now s.db) fun _ => []
  | .arm r => s.after (setAuthState A r s.now s.db) fun _ => []

/-- The operations, one after the other, from any database. -/
def keyEdits : Machine KeySystem KeyEdit where
  init _ := True
  step s e := some (s.edit A L plain e)

end

section

variable {A : AuthLib} {L : KeyLib} {plain : PyStr → PyStr} {s : KeySystem}

/-- How an operation ended, in the system after it. -/
theorem KeySystem.db_after {α : Type} (outcome : Except HttpError α × Db)
    (events : α → List KeyEvent) : (s.after outcome events).db = outcome.2 := by
  rcases outcome with ⟨e | a, t⟩
  · rfl
  · rfl

/-- What relates the rows before and after a handler, by how it ends. -/
theorem KeySystem.after_keepsKeys {α : Type} {R : ApiKeyRow → ApiKeyRow → Prop}
    {x : Auth.Handler α} {Q : α → Db → Prop} {events : α → List KeyEvent}
    (hx : x.Ends s.db Q fun _ t => t.apiKeys = s.db.apiKeys) (hR : ∀ row, R row row)
    (hok : ∀ a t, Q a t → s.db.KeepsKeys R t) :
    s.db.KeepsKeys R (s.after (x s.db) events).db := by
  rw [db_after]
  rcases hrun : x s.db with ⟨e | a, t⟩
  · exact Db.KeepsKeys.same hR (hx.error hrun)
  · exact hok a t (hx.ok hrun)

/-- The limits of a row. -/
def ApiKeyRow.limits (row : ApiKeyRow) : KeyLimits := ⟨row.rateLimitPerMin, row.burst⟩

/-- The rows have the same limits. -/
def SameLimits (row row' : ApiKeyRow) : Prop := row'.limits = row.limits

/-- No operation on a key deletes it or touches its limits. -/
theorem KeySystem.step_keepsKeys (op : KeyOp) :
    s.db.KeepsKeys SameLimits (s.step A L plain op).db := by
  have hrefl : ∀ row, SameLimits row row := fun _ => rfl
  have hrevokes : ∀ {t : Db} {keyId : PyStr}, Revokes s.db t keyId s.now →
      s.db.KeepsKeys SameLimits t := by
    rintro t keyId ⟨row, -, -, ⟨-, hsame⟩ | hdb⟩
    · exact .same hrefl hsame
    · exact .mapped hdb (fun _ => rfl) hrefl fun _ => rfl
  cases op with
  | create r keyId drawn =>
    refine after_keepsKeys (createKey_ends r keyId drawn s.now s.db) hrefl ?_
    rintro fields t ⟨-, -, name, limits, hdb⟩
    exact .appended hrefl hdb
  | deletePath r path =>
    exact after_keepsKeys (deleteByPath_ends r path s.now s.db) hrefl fun _ _ h => hrevokes h
  | deleteBody r =>
    exact after_keepsKeys (deleteByBody_ends r s.now s.db) hrefl fun _ _ h => hrevokes h
  | rotate r path drawn =>
    refine after_keepsKeys (postWildcard_ends r path drawn s.now s.db) hrefl ?_
    rintro fields t ⟨row, -, -, -, -, hdb⟩
    exact .mapped hdb (fun _ => rfl) hrefl fun _ => rfl
  | legacyImport file =>
    refine after_keepsKeys ((importOnce_ends file s.now s.db).mono (fun _ _ h => h)
      fun _ _ h => by rw [h]) hrefl ?_
    rintro n t (⟨-, rfl⟩ | ⟨keys, enabled, -, rfl⟩)
    · exact .same hrefl rfl
    · obtain ⟨more, hmore⟩ := insertOrIgnore_appends (legacyRows L s.now keys) s.db
      exact .appended hrefl hmore
  | verify presented =>
    refine after_keepsKeys (verifyKey_ends presented s.now s.db) hrefl ?_
    rintro id t (hsame | ⟨id, hdb⟩)
    · exact .same hrefl hsame
    · exact .mapped hdb (fun _ => rfl) hrefl fun _ => rfl
  | wait seconds => exact .same hrefl rfl

/-- **No operation deletes a key.** -/
theorem KeySystem.edit_keepsKeys (e : KeyEdit) :
    s.db.KeepsKeys (fun _ _ => True) (s.edit A L plain e).db := by
  cases e with
  | key op => exact (step_keepsKeys op).mono fun _ _ _ => trivial
  | patch r =>
    refine after_keepsKeys (patchKey_ends r s.now s.db) (fun _ => trivial) ?_
    rintro fields t ⟨keyId, payload, limits, -, -, -, -, hdb⟩
    exact .mapped hdb (fun _ => rfl) (fun _ => trivial) fun _ => trivial
  | arm r =>
    exact after_keepsKeys ((setAuthState_ends r s.now s.db).mono (fun _ _ h => h)
      fun _ _ h => h.1) (fun _ => trivial) fun _ _ h => .same (fun _ => trivial) h.1

/-- A key that is there stays there. -/
theorem keyRow_run {t : KeySystem} {es : List (Machine.Event KeySystem KeyEdit)} {id : PyStr}
    (hrun : (keyEdits A L plain).Run s es t) (hthere : (s.db.keyRow id).isSome = true) :
    (t.db.keyRow id).isSome = true := by
  refine (hrun.invariant (I := fun u => (u.db.keyRow id).isSome = true) (G := fun _ _ => True)
    ?_ hthere fun _ _ => trivial).1
  rintro u a v hu - hstep
  obtain rfl := Option.some.inj hstep
  obtain ⟨old, hold⟩ := Option.isSome_iff_exists.mp hu
  obtain ⟨new, hnew, -⟩ := KeySystem.edit_keepsKeys a id old hold
  rw [hnew]
  rfl

end

end LayaWatch
