import LayaWatch.KeyEdits

/-!
# The legacy import across a crash

`import_once` of `engine/legacy_state.py` with the files of the state directory: it
commits, and then renames the file. When the rename does not happen, the next call
imports the file again. The keys of the file have rows then, whatever was done to
keys since, so that no row changes; but the flag of the file is written a second time,
over what operators have set. Key auth stays armed as they set it exactly when what
they set last is the flag of the file (`legacy_import_again`).
-/

namespace LayaWatch

open Auth

/-! ## Key auth -/

/-- `_BOOL_TRUE`. -/
def boolTrue : List PyStr := [py "1", py "true", py "yes", py "on"]

/-- `auth_armed`, with `str.lower`. -/
def authArmed (lower : PyStr → PyStr) (db : Db) : Bool :=
  match db.settings.get authSettingsKey with
  | none => false
  | some row => boolTrue.contains (lower row.value.strip)

/-- Lowercasing folds the letters of a text that is ASCII. -/
def LowersAscii (lower : PyStr → PyStr) : Prop :=
  ∀ s : PyStr, (∀ c ∈ s, c.isAscii = true) → lower s = s.map foldCase

section

variable {lower : PyStr → PyStr} {db t : Db}

theorem authArmed_congr (h : t.settings = db.settings) :
    authArmed lower t = authArmed lower db := by
  unfold authArmed
  rw [h]

/-- A flag, as it is stored, is read as itself. -/
theorem authArmed_set (hlower : LowersAscii lower) {row : SettingRow} {enabled : Bool}
    (hvalue : row.value = py (if enabled then "true" else "false"))
    (h : t.settings = db.settings.set authSettingsKey row) : authArmed lower t = enabled := by
  have hread : ∀ text : PyStr, text.strip = text → text.all CodePoint.isAscii = true →
      text.map foldCase = text → lower text.strip = text := by
    intro text hstrip hascii hfold
    rw [hstrip, hlower text (List.all_eq_true.mp hascii), hfold]
  unfold authArmed
  rw [h, Dict.get_set_self]
  dsimp only
  rw [hvalue]
  cases enabled with
  | false =>
    rw [if_neg Bool.false_ne_true,
      hread (py "false") (by decide +kernel) (by decide +kernel) (by decide +kernel)]
    decide
  | true =>
    rw [if_pos rfl, hread (py "true") (by decide +kernel) (by decide +kernel) (by decide +kernel)]
    decide

end

/-! ## The state directory -/

/-- The two files of the state directory, with what `json.loads` makes of them;
`none` inside is a file that it cannot read. -/
structure StateDir where
  /-- `api_keys.json` -/
  state : Option (Option Json)
  /-- `api_keys.json.imported` -/
  imported : Option (Option Json)

namespace StateDir

/-- `_rename`. -/
def renamed (dir : StateDir) : StateDir := ⟨none, dir.state⟩

/-- What `import_once` reads. -/
def contents (dir : StateDir) : Option Json := dir.state.join

end StateDir

/-- The keys, and the state directory. -/
structure LegacySystem where
  /-- the database and the clock -/
  keys : KeySystem
  /-- the state directory -/
  dir : StateDir

section

variable (A : AuthLib) (L : KeyLib) (plain : PyStr → PyStr)

/-- `import_once` imports the file of this directory, and commits. -/
def LegacySystem.Commits (s : LegacySystem) : Prop :=
  (legacyContents s.dir.contents).isSome = true ∧
    (importOnce L s.dir.contents s.keys.now s.keys.db).1.toOption.isSome = true

instance (s : LegacySystem) : Decidable (s.Commits L) :=
  inferInstanceAs (Decidable (_ ∧ _))

/-- `import_once`; `renamed` tells whether the rename happens after a commit. -/
def LegacySystem.importOnce (s : LegacySystem) (renamed : Bool) : LegacySystem where
  keys := s.keys.step A L plain (.legacyImport s.dir.contents)
  dir := if s.Commits L ∧ renamed = true then s.dir.renamed else s.dir

end

/-- What the second import may do: it changes no key and leaves key auth as it is, and
the file is renamed. -/
structure Healed (lower : PyStr → PyStr) (before after : LegacySystem) : Prop where
  /-- the rows of `api_keys` -/
  keys : after.keys.db.apiKeys = before.keys.db.apiKeys
  /-- whether key auth is armed -/
  armed : authArmed lower after.keys.db = authArmed lower before.keys.db
  /-- the rename -/
  renamed : after.dir = before.dir.renamed

/-! ## What operators do in between -/

/-- An operation of an operator, not an import. -/
def KeyEdit.Ordinary : KeyEdit → Prop
  | .key (.legacyImport _) => False
  | _ => True

/-- The flag of an accepted `POST /api/v1/keys/auth`. -/
def acceptedFlag (A : AuthLib) (s : KeySystem) : KeyEdit → Option Bool
  | .arm r =>
    match (setAuthState A r s.now s.db).1, armedFlag r with
    | .ok _, .ok enabled => some enabled
    | _, _ => none
  | _ => none

/-- What operators set last in these steps, if they did. -/
def lastFlag (A : AuthLib) (es : List (Machine.Event KeySystem KeyEdit)) : Option Bool :=
  (Machine.outputs (fun s e => (acceptedFlag A s e).toList) es).getLast?

section

variable {A : AuthLib} {L : KeyLib} {plain : PyStr → PyStr} {lower : PyStr → PyStr}
  {s t : KeySystem} {es : List (Machine.Event KeySystem KeyEdit)}

/-- Only an accepted arming or disarming changes whether key auth is armed. -/
theorem KeySystem.edit_armed (hlower : LowersAscii lower) {e : KeyEdit} (he : e.Ordinary) :
    authArmed lower (s.edit A L plain e).db =
      (acceptedFlag A s e).getD (authArmed lower s.db) := by
  cases e with
  | key op =>
    refine authArmed_congr ?_
    cases op with
    | create r keyId drawn =>
      exact (congrArg Db.settings (db_after _ _)).trans (createKey_keeps r keyId drawn s.now s.db)
    | deletePath r path =>
      exact (congrArg Db.settings (db_after _ _)).trans (deleteByPath_keeps r path s.now s.db)
    | deleteBody r =>
      exact (congrArg Db.settings (db_after _ _)).trans (deleteByBody_keeps r s.now s.db)
    | rotate r path drawn =>
      exact (congrArg Db.settings (db_after _ _)).trans (postWildcard_keeps r path drawn s.now s.db)
    | legacyImport file => exact he.elim
    | verify presented =>
      exact (congrArg Db.settings (db_after _ _)).trans (verifyKey_keeps presented s.now s.db)
    | wait seconds => rfl
  | patch r =>
    exact authArmed_congr ((congrArg Db.settings (db_after _ _)).trans
      (patchKey_keeps r s.now s.db))
  | arm r =>
    have hends := setAuthState_ends (A := A) r s.now s.db
    have hdb : (s.edit A L plain (.arm r)).db = (setAuthState A r s.now s.db).2 := db_after _ _
    rw [hdb]
    unfold acceptedFlag
    dsimp only
    rcases hrun : setAuthState A r s.now s.db with ⟨error | fields, u⟩
    · exact authArmed_congr (hends.error hrun).2
    · obtain ⟨-, enabled, who, henabled, hset⟩ := hends.ok hrun
      dsimp only
      rw [henabled]
      exact authArmed_set hlower rfl hset

/-- Key auth is armed as operators set it last. -/
theorem authArmed_run (hlower : LowersAscii lower) (hrun : (keyEdits A L plain).Run s es t)
    (hord : ∀ e ∈ es, e.act.Ordinary) :
    authArmed lower t.db = (lastFlag A es).getD (authArmed lower s.db) := by
  induction hrun with
  | refl => rfl
  | @snoc t u es a _ hstep ih =>
    obtain rfl := Option.some.inj hstep
    have hbefore := ih fun e he => hord e (List.mem_append_left _ he)
    have hlast := hord _ (List.mem_append_right _ (List.mem_singleton_self _))
    rw [KeySystem.edit_armed hlower hlast, hbefore]
    unfold lastFlag
    rw [Machine.outputs_snoc]
    dsimp only
    rcases acceptedFlag A t a with _ | enabled
    · rw [Option.toList_none, List.append_nil]
      rfl
    · rw [Option.toList_some, List.getLast?_append, List.getLast?_singleton]
      rfl

end

/-! ## The import, twice -/

/-- The texts of a row that an import stores. -/
def ApiKeyRow.texts (row : ApiKeyRow) : List PyStr := [row.id, row.name, row.keyPrefix, row.hash]

section

variable {A : AuthLib} {L : KeyLib} {plain : PyStr → PyStr} {lower : PyStr → PyStr}
  {db : Db} {file : Option Json} {keys : List Json} {enabled : Bool}

/-- The clock is only in the timestamps of a legacy row. -/
theorem legacyRow_texts (now now' : ℚ) (entry : Json) :
    (legacyRow L now entry).map ApiKeyRow.texts = (legacyRow L now' entry).map ApiKeyRow.texts := by
  unfold legacyRow
  cases entry with
  | obj fields =>
    dsimp only
    split
    · split
      · rfl
      · rfl
    · rfl
  | _ => rfl

theorem legacyRows_texts (now now' : ℚ) (keys : List Json) :
    (legacyRows L now keys).map ApiKeyRow.texts = (legacyRows L now' keys).map ApiKeyRow.texts := by
  unfold legacyRows
  rw [List.map_filterMap, List.map_filterMap]
  exact List.filterMap_congr fun entry _ => legacyRow_texts now now' entry

theorem legacyRows_bindable (now now' : ℚ) (keys : List Json) :
    (legacyRows L now keys).all ApiKeyRow.bindable =
      (legacyRows L now' keys).all ApiKeyRow.bindable := by
  have htexts : ∀ rows : List ApiKeyRow, rows.all ApiKeyRow.bindable =
      (rows.map ApiKeyRow.texts).all fun texts => texts.all PyStr.encodable := by
    intro rows
    rw [List.all_map]
    rfl
  rw [htexts, htexts, legacyRows_texts now now']

/-- An import of a file with these contents. -/
theorem importOnce_db (hcontents : legacyContents file = some (keys, enabled)) (now : ℚ)
    (db : Db) :
    (importOnce L file now db).1.toOption.isSome = (legacyRows L now keys).all ApiKeyRow.bindable ∧
      ((legacyRows L now keys).all ApiKeyRow.bindable = true → (importOnce L file now db).2 =
        armLegacy enabled now ((legacyRows L now keys).foldl insertOrIgnore db)) := by
  unfold importOnce
  rw [hcontents]
  dsimp only
  rcases hall : (legacyRows L now keys).all ApiKeyRow.bindable with _ | _
  · exact ⟨rfl, fun h => absurd h Bool.false_ne_true⟩
  · exact ⟨rfl, fun _ => rfl⟩

/-- The rows of an import are there after it. -/
theorem insertOrIgnore_there (rows : List ApiKeyRow) : ∀ db : Db, ∀ row ∈ rows,
    ((rows.foldl insertOrIgnore db).keyRow row.id).isSome = true := by
  induction rows with
  | nil => exact fun db row hrow => absurd hrow List.not_mem_nil
  | cons first rows ih =>
    intro db row hrow
    rw [List.foldl_cons]
    rcases List.mem_cons.mp hrow with rfl | hrow
    · have hone : ((insertOrIgnore db row).keyRow row.id).isSome = true := by
        unfold insertOrIgnore Db.keyRow
        split
        · next hany => rwa [List.isSome_find?]
        · rw [List.isSome_find?, List.any_append, Bool.or_eq_true]
          exact Or.inr (by simp)
      obtain ⟨old, hold⟩ := Option.isSome_iff_exists.mp hone
      obtain ⟨more, hmore⟩ := insertOrIgnore_appends rows (insertOrIgnore db row)
      rw [Db.keyRow_append hmore hold]
      rfl
    · exact ih (insertOrIgnore db first) row hrow

/-- Rows that are there are ignored. -/
theorem insertOrIgnore_again (rows : List ApiKeyRow)
    (h : ∀ row ∈ rows, (db.keyRow row.id).isSome = true) : rows.foldl insertOrIgnore db = db := by
  induction rows with
  | nil => rfl
  | cons row rows ih =>
    have hrow := h row (List.mem_cons_self ..)
    unfold Db.keyRow at hrow
    rw [List.isSome_find?] at hrow
    have hone : insertOrIgnore db row = db := by
      unfold insertOrIgnore
      rw [if_pos hrow]
    rw [List.foldl_cons, hone]
    exact ih fun row' hrow' => h row' (List.mem_cons_of_mem _ hrow')

variable {s : LegacySystem} {t : KeySystem} {es : List (Machine.Event KeySystem KeyEdit)}

/-- The database after an import that commits. -/
theorem LegacySystem.importOnce_db
    (hcontents : legacyContents s.dir.contents = some (keys, enabled)) (hcommits : s.Commits L)
    (renamed : Bool) :
    (s.importOnce A L plain renamed).keys.db = armLegacy enabled s.keys.now
      ((legacyRows L s.keys.now keys).foldl insertOrIgnore s.keys.db) := by
  obtain ⟨hsome, hdb⟩ := LayaWatch.importOnce_db (L := L) hcontents s.keys.now s.keys.db
  exact (KeySystem.db_after _ _).trans (hdb (hsome.symm.trans hcommits.2))

/-- **An import whose rename did not happen, and the next one.** The next import
commits, changes no key and renames the file; and it leaves key auth as operators set
it last exactly when that is the flag of the file, or they have not set it since. -/
theorem legacy_import_again (hlower : LowersAscii lower) (hfirst : s.Commits L)
    (hcontents : legacyContents s.dir.contents = some (keys, enabled))
    (hrun : (keyEdits A L plain).Run (s.importOnce A L plain false).keys es t)
    (hord : ∀ e ∈ es, e.act.Ordinary) :
    Healed lower ⟨t, s.dir⟩ (LegacySystem.importOnce A L plain ⟨t, s.dir⟩ true) ↔
      (lastFlag A es).getD enabled = enabled := by
  obtain ⟨hsome, -⟩ := importOnce_db (L := L) hcontents s.keys.now s.keys.db
  have hagain : LegacySystem.Commits L ⟨t, s.dir⟩ := by
    refine ⟨hfirst.1, ?_⟩
    rw [(importOnce_db (L := L) hcontents t.now t.db).1, legacyRows_bindable t.now s.keys.now,
      ← hsome]
    exact hfirst.2
  have hdb : (s.importOnce A L plain false).keys.db = armLegacy enabled s.keys.now
      ((legacyRows L s.keys.now keys).foldl insertOrIgnore s.keys.db) :=
    LegacySystem.importOnce_db hcontents hfirst false
  -- every key of the file has a row, up to the second import
  have hthere : ∀ row ∈ legacyRows L t.now keys, (t.db.keyRow row.id).isSome = true := by
    intro row hrow
    have hmem : row.texts ∈ (legacyRows L s.keys.now keys).map ApiKeyRow.texts := by
      rw [legacyRows_texts s.keys.now t.now]
      exact List.mem_map_of_mem hrow
    obtain ⟨old, hold, htexts⟩ := List.mem_map.mp hmem
    have hid : old.id = row.id := (List.cons.inj htexts).1
    refine keyRow_run hrun ?_
    rw [hdb, ← hid]
    exact insertOrIgnore_there (legacyRows L s.keys.now keys) s.keys.db old hold
  -- so the second import inserts no row, and sets the flag as the first did
  have hdbAgain : (LegacySystem.importOnce A L plain ⟨t, s.dir⟩ true).keys.db =
      armLegacy enabled t.now t.db := by
    rw [LegacySystem.importOnce_db (s := ⟨t, s.dir⟩) hcontents hagain true,
      insertOrIgnore_again _ hthere]
  have harmed : ∀ (now : ℚ) (db : Db), authArmed lower (armLegacy enabled now db) = enabled := by
    intro now db
    have hvalue : SettingRow.value {
        value := if enabled then py "true" else py "false"
        updatedAt := now
        updatedBy := (db.settings.get authSettingsKey).bind SettingRow.updatedBy } =
          py (if enabled then "true" else "false") := by
      cases enabled <;> rfl
    exact authArmed_set hlower hvalue rfl
  -- between the imports the flag is what was set last
  have hbefore : authArmed lower t.db = (lastFlag A es).getD enabled := by
    rw [authArmed_run hlower hrun hord, hdb, harmed]
  constructor
  · intro h
    have hkept := h.armed
    rw [hdbAgain, harmed] at hkept
    rw [← hbefore]
    exact hkept.symm
  · intro hflag
    refine ⟨?_, ?_, if_pos ⟨hagain, rfl⟩⟩
    · rw [hdbAgain]
      rfl
    · rw [hdbAgain, harmed]
      exact (hbefore.trans hflag).symm

end

/-- A legacy file with one key, which does not arm key auth. -/
def unarmedFile : Json := .obj [(py "enabled", .bool false), (py "keys", .arr [.obj [
  (py "id", .str (py "old")), (py "prefix", .str (py "legacysecret")),
  (py "sha256", .str (py "slegacysecret"))]])]

/-- An admin with a session, and the file. -/
def legacyStart : LegacySystem where
  keys := adminSession
  dir := ⟨some (some unarmedFile), none⟩

/-- The system after an import without the rename. -/
def importedKeys : KeySystem := (legacyStart.importOnce textAuth markedKeys List.tail false).keys

/-- These operations, after it. -/
def importedRun (ops : List KeyEdit) : List (Machine.Event KeySystem KeyEdit) :=
  (keyEdits textAuth markedKeys List.tail).events importedKeys ops

/-- What these operations lead to. -/
def importedEnd (ops : List KeyEdit) : LegacySystem where
  keys := (keyEdits textAuth markedKeys List.tail).final importedKeys ops
  dir := legacyStart.dir

/-- A key is created and the imported one is revoked. -/
def keyWork : List KeyEdit :=
  [.key (.create (adminRequest [(py "name", .str (py "client"))]) (py "new") sameDraws),
    .key (.deleteBody (adminRequest [(py "id", .str (py "old"))]))]

/-- Key auth was not touched, and the second import leaves all as it is. -/
theorem legacy_import_again_keyWork : Healed wholeText.lower (importedEnd keyWork)
    ((importedEnd keyWork).importOnce textAuth markedKeys List.tail true) := by
  have hrun : (keyEdits textAuth markedKeys List.tail).Run
      (legacyStart.importOnce textAuth markedKeys List.tail false).keys (importedRun keyWork)
      (importedEnd keyWork).keys := Machine.Run.of_final (l := keyWork) rfl
  refine (legacy_import_again (fun _ _ => rfl) (by decide +kernel) rfl hrun ?_).mpr
    (by decide +kernel)
  intro e he
  simp only [importedRun, keyWork, Machine.events, keyEdits, List.mem_cons, List.not_mem_nil,
    or_false] at he
  rcases he with rfl | rfl
  · exact trivial
  · exact trivial

/-- An operator arms key auth; the second import disarms it. -/
theorem import_again_disarms :
    legacyStart.Commits markedKeys ∧
      (keyEdits textAuth markedKeys List.tail).Run importedKeys
        (importedRun [.arm (adminRequest [(py "enabled", .bool true)])])
        (importedEnd [.arm (adminRequest [(py "enabled", .bool true)])]).keys ∧
      authArmed wholeText.lower
        (importedEnd [.arm (adminRequest [(py "enabled", .bool true)])]).keys.db = true ∧
      ¬Healed wholeText.lower (importedEnd [.arm (adminRequest [(py "enabled", .bool true)])])
        ((importedEnd [.arm (adminRequest [(py "enabled", .bool true)])]).importOnce textAuth
          markedKeys List.tail true) := by
  refine ⟨by decide +kernel, Machine.Run.of_final (M := keyEdits textAuth markedKeys List.tail)
    rfl, by decide +kernel, fun h => ?_⟩
  exact absurd h.armed (by decide +kernel)

end LayaWatch
