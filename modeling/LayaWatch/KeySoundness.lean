import LayaWatch.Keys

/-!
# API key soundness

What has happened to a key is told by the answers of the handlers, which show each
secret once, and by the legacy files: `lifeOf` is what this history says of a key.
A row shows the life of its key (`Shows`), whatever is created, rotated, revoked and
imported, so that a presented secret verifies as a key exactly as its life has it
(`key_soundness`).
-/

namespace LayaWatch

open Auth

/-! ## How the handlers end -/

/-- A text field of an answer. -/
def answered (name : String) (fields : Fields) : PyStr :=
  match Fields.get (py name) fields with
  | some (.str s) => s
  | _ => []

/-- A secret that can be presented: not empty, and without surrogates. -/
def Usable (secret : PyStr) : Prop := secret ≠ [] ∧ secret.encodable = true

theorem usable_generateSecret (drawn : List (Fin 62)) : Usable (generateSecret drawn) := by
  refine ⟨List.append_ne_nil_of_left_ne_nil (by decide) _, ?_⟩
  have hletter : ∀ i : Fin 62, (base62.getD i 0).isSurrogate = false := by decide +kernel
  unfold PyStr.encodable generateSecret
  rw [List.all_append, Bool.and_eq_true, List.all_map]
  refine ⟨by decide, List.all_eq_true.mpr fun i _ => ?_⟩
  rw [Function.comp_apply, hletter]
  rfl

section

variable {A : AuthLib} {L : KeyLib} {db : Db}

/-- A caller is let through, or refused; keys and settings stay as they are. -/
theorem permitted_ends (r : SessionRequest) (cached : Option Caller) (permission action : PyStr)
    (target : Option PyStr) (now : ℚ) (db : Db) :
    (do
      let who ← gate r cached
      requirePermission who permission action target now
      pure who : Handler Caller).Ends db (fun _ t => t = db)
        fun _ t => t.apiKeys = db.apiKeys ∧ t.settings = db.settings := by
  refine ((gate_ends r cached db).mono (fun _ _ h => h) fun _ t h => by rw [h]; exact ⟨rfl, rfl⟩)
    |>.bind ?_
  rintro who t rfl
  refine Prog.Ends.bind (P := fun _ u => u = t) ?_ fun _ u hu => Prog.Ends.pure hu
  refine (requirePermission_ends who _ _ target now t).mono (fun _ _ h => h) ?_
  rintro _ u ⟨entry, rfl⟩
  exact ⟨rfl, rfl⟩

theorem keyWriter_ends (r : SessionRequest) (cached : Option Caller) (action : String)
    (target : Option PyStr) (now : ℚ) (db : Db) : (keyWriter r cached action target now).Ends db
      (fun _ t => t = db) fun _ t => t.apiKeys = db.apiKeys :=
  (permitted_ends r cached _ _ target now db).mono (fun _ _ h => h) fun _ _ h => h.1

theorem loadKey_ends (keyId : PyStr) (db : Db) : (loadKey keyId).Ends db
    (fun row t => t = db ∧ row ∈ db.apiKeys ∧ row.id = keyId) fun _ t => t = db := by
  unfold loadKey Prog.Ends
  by_cases henc : keyId.encodable = true
  · simp only [henc, Bool.not_true, Bool.false_eq_true, if_false]
    split
    · next heq =>
      split at heq
      · next row hfind =>
        obtain ⟨hrow, rfl⟩ := Prod.mk.inj heq
        obtain rfl := Except.ok.inj hrow
        exact ⟨rfl, List.mem_of_find?_eq_some hfind, by simpa using List.find?_some hfind⟩
      · cases (Prod.mk.inj heq).1
    · next heq =>
      split at heq
      · cases (Prod.mk.inj heq).1
      · exact (Prod.mk.inj heq).2.symm
  · simp only [henc, Bool.not_false, if_true]

/-- What a revocation has done: the key has a row, and it is revoked now, or was before. -/
def Revokes (db t : Db) (keyId : PyStr) (now : ℚ) : Prop :=
  ∃ row ∈ db.apiKeys, row.id = keyId ∧
    (row.revokedAt.isSome = true ∧ t.apiKeys = db.apiKeys ∨
      t.apiKeys = (db.mapKey keyId (revokedKey now)).apiKeys)

theorem revokeKey_ends (r : SessionRequest) (cached : Option Caller) (keyId : PyStr) (now : ℚ)
    (db : Db) : (revokeKey r cached keyId now).Ends db
      (fun fields t => answered "id" fields = keyId ∧ Revokes db t keyId now)
      fun _ t => t.apiKeys = db.apiKeys := by
  refine (keyWriter_ends r cached _ (some keyId) now db).bind ?_
  rintro who t rfl
  refine ((loadKey_ends keyId t).mono (fun _ _ h => h) fun _ u h => by rw [h]).bind ?_
  rintro row u ⟨rfl, hrow, hid⟩
  have hanswer : answered "id" [(py "id", Json.str keyId), (py "revoked", Json.bool true)] =
      keyId := rfl
  by_cases hlive : row.revokedAt.isNone = true
  · rw [if_pos hlive]
    exact ⟨hanswer, row, hrow, hid, Or.inr rfl⟩
  · rw [if_neg hlive]
    refine ⟨hanswer, row, hrow, hid, Or.inl ⟨?_, rfl⟩⟩
    simpa [Option.isSome_iff_ne_none] using hlive

theorem deleteByPath_ends (r : SessionRequest) (path : PyStr) (now : ℚ) (db : Db) :
    (deleteByPath A r path now).Ends db
      (fun fields t => Revokes db t (answered "id" fields) now)
      fun _ t => t.apiKeys = db.apiKeys := by
  refine ((enforce_ends r false now db).mono (fun _ _ h => h) fun _ t h => by rw [h]).bind ?_
  rintro cached t rfl
  split
  · next keyId _ =>
    split
    · exact Prog.Ends.raise rfl
    · exact (revokeKey_ends r cached keyId now t).mono (fun _ _ ⟨hid, h⟩ => by rwa [hid])
        fun _ _ h => h
  · exact Prog.Ends.raise rfl

theorem deleteByBody_ends (r : SessionRequest) (now : ℚ) (db : Db) :
    (deleteByBody A r now).Ends db
      (fun fields t => Revokes db t (answered "id" fields) now)
      fun _ t => t.apiKeys = db.apiKeys := by
  refine ((enforce_ends r false now db).mono (fun _ _ h => h) fun _ t h => by rw [h]).bind ?_
  rintro cached t rfl
  refine Prog.Ends.bind (P := fun _ u => u = t) (.lift (fun _ _ => rfl) fun _ _ => rfl) ?_
  rintro payload t rfl
  refine Prog.Ends.bind (P := fun _ u => u = t) (.lift (fun _ _ => rfl) fun _ _ => rfl) ?_
  rintro keyId t rfl
  exact (revokeKey_ends r cached keyId now t).mono (fun _ _ ⟨hid, h⟩ => by rwa [hid])
    fun _ _ h => h

/-- What a rotation has done. -/
def Rotates (L : KeyLib) (db t : Db) (keyId secret : PyStr) (now : ℚ) : Prop :=
  ∃ row ∈ db.apiKeys, row.id = keyId ∧ row.revokedAt = none ∧ Usable secret ∧
    t.apiKeys = (db.mapKey keyId (rotatedKey L secret now)).apiKeys

theorem rotateKey_ends (r : SessionRequest) (cached : Option Caller) (keyId : PyStr)
    (drawn : List (Fin 62)) (now : ℚ) (db : Db) : (rotateKey L r cached keyId drawn now).Ends db
      (fun fields t => Rotates L db t (answered "id" fields) (answered "key" fields) now)
      fun _ t => t.apiKeys = db.apiKeys := by
  refine (keyWriter_ends r cached _ (some keyId) now db).bind ?_
  rintro who t rfl
  refine ((loadKey_ends keyId t).mono (fun _ _ h => h) fun _ u h => by rw [h]).bind ?_
  rintro row u ⟨rfl, hrow, hid⟩
  rcases hrev : row.revokedAt with _ | at₀
  · exact ⟨row, hrow, hid, hrev, usable_generateSecret drawn, rfl⟩
  · exact rfl

theorem postWildcard_ends (r : SessionRequest) (path : PyStr) (drawn : List (Fin 62)) (now : ℚ)
    (db : Db) : (postWildcard A L r path drawn now).Ends db
      (fun fields t => Rotates L db t (answered "id" fields) (answered "key" fields) now)
      fun _ t => t.apiKeys = db.apiKeys := by
  refine ((enforce_ends r false now db).mono (fun _ _ h => h) fun _ t h => by rw [h]).bind ?_
  rintro cached t rfl
  split
  · split
    · exact rotateKey_ends r cached _ drawn now t
    · exact Prog.Ends.raise rfl
  · exact Prog.Ends.raise rfl

/-- What a creation has done. -/
def Creates (L : KeyLib) (db t : Db) (keyId secret : PyStr) (now : ℚ) : Prop :=
  (∀ row ∈ db.apiKeys, row.id ≠ keyId) ∧ Usable secret ∧
    ∃ name limits, t.apiKeys = db.apiKeys ++ [newKey L keyId name secret limits now]

theorem createKey_ends (r : SessionRequest) (keyId : PyStr) (drawn : List (Fin 62)) (now : ℚ)
    (db : Db) : (createKey A L r keyId drawn now).Ends db
      (fun fields t => Creates L db t (answered "id" fields) (answered "key" fields) now)
      fun _ t => t.apiKeys = db.apiKeys := by
  refine ((enforce_ends r false now db).mono (fun _ _ h => h) fun _ t h => by rw [h]).bind ?_
  rintro cached t rfl
  refine Prog.Ends.bind (P := fun _ u => u = t) (.lift (fun _ _ => rfl) fun _ _ => rfl) ?_
  rintro payload t rfl
  refine Prog.Ends.bind (P := fun _ u => u = t) (.lift (fun _ _ => rfl) fun _ _ => rfl) ?_
  rintro name t rfl
  refine Prog.Ends.bind (P := fun _ u => u = t) (.lift (fun _ _ => rfl) fun _ _ => rfl) ?_
  rintro limits t rfl
  refine (keyWriter_ends r cached _ none now t).bind ?_
  rintro who t rfl
  refine Prog.Ends.bind (P := fun taken t' => t' = t ∧
    taken = t.apiKeys.any fun row => decide (row.id = keyId)) ⟨rfl, rfl⟩ ?_
  rintro taken t' ⟨rfl, rfl⟩
  by_cases hbad : ((t'.apiKeys.any fun row => decide (row.id = keyId)) || !limits.bindable ||
      !PyStr.encodable (name.take 120)) = true
  · rw [if_pos hbad]
    exact rfl
  · rw [if_neg hbad]
    simp only [Bool.or_eq_true, not_or, List.any_eq_true, decide_eq_true_eq, not_exists,
      not_and] at hbad
    exact ⟨hbad.1.1, usable_generateSecret drawn, name, limits, rfl⟩

end

/-! ## The history of keys -/

/-- What happened to keys. -/
inductive KeyEvent where
  /-- a key was created, or was found in a legacy file -/
  | issued (id secret : PyStr)
  /-- a key was given another secret -/
  | rotated (id secret : PyStr) (time : ℚ)
  /-- a key was revoked -/
  | revoked (id : PyStr)
  deriving DecidableEq

/-- What a history says of a key. -/
structure KeyLife where
  /-- its secret -/
  current : PyStr
  /-- the secret that its latest rotation replaced, and when -/
  previous : Option (PyStr × ℚ)
  /-- it was revoked -/
  revoked : Bool

namespace KeyEvent

/-- What an event says of a key. One that is there is not issued again. -/
def apply (id : PyStr) (life : Option KeyLife) : KeyEvent → Option KeyLife
  | issued id' secret => if id' = id then some (life.getD ⟨secret, none, false⟩) else life
  | rotated id' secret time =>
    if id' = id then life.map fun k => ⟨secret, some (k.current, time), k.revoked⟩ else life
  | revoked id' => if id' = id then life.map fun k => { k with revoked := true } else life

/-- The key an event is about. -/
def key : KeyEvent → PyStr
  | issued id _ | rotated id _ _ | revoked id => id

/-- The secret an event gives to its key. -/
def secret : KeyEvent → Option PyStr
  | issued _ secret | rotated _ secret _ => some secret
  | revoked _ => none

theorem apply_of_ne {id : PyStr} {e : KeyEvent} (h : e.key ≠ id) (life : Option KeyLife) :
    e.apply id life = life := by
  cases e with
  | issued id' secret => exact if_neg h
  | rotated id' secret time => exact if_neg h
  | revoked id' => exact if_neg h

end KeyEvent

/-- The life of a key. -/
def lifeOf (history : List KeyEvent) (id : PyStr) : Option KeyLife :=
  history.foldl (fun life e => e.apply id life) none

theorem lifeOf_append (history more : List KeyEvent) (id : PyStr) :
    lifeOf (history ++ more) id =
      more.foldl (fun life e => e.apply id life) (lifeOf history id) := List.foldl_append

theorem lifeOf_snoc (history : List KeyEvent) (e : KeyEvent) (id : PyStr) :
    lifeOf (history ++ [e]) id = e.apply id (lifeOf history id) := lifeOf_append _ _ _

/-- The secrets of a history, with their keys. -/
def secretsOf (history : List KeyEvent) : List (PyStr × PyStr) :=
  history.filterMap fun e => e.secret.map fun secret => (e.key, secret)

/-- The secrets of a key are in its history. -/
theorem mem_secretsOf {id : PyStr} (history : List KeyEvent) :
    ∀ {k : KeyLife}, lifeOf history id = some k → (id, k.current) ∈ secretsOf history ∧
      ∀ secret time, k.previous = some (secret, time) → (id, secret) ∈ secretsOf history := by
  induction history using List.reverseRecOn with
  | nil => exact fun h => by cases h
  | append_singleton history e ih =>
    intro k hk
    have hsecrets : secretsOf (history ++ [e]) = secretsOf history ++ secretsOf [e] :=
      List.filterMap_append
    rw [hsecrets]
    rw [lifeOf_snoc] at hk
    by_cases hkey : e.key = id
    · subst hkey
      cases e with
      | issued id secret =>
        obtain rfl := Option.some.inj ((if_pos rfl).symm.trans hk)
        change _ ∧ _
        rcases hold : lifeOf history (KeyEvent.issued id secret).key with _ | k
        · exact ⟨List.mem_append_right _ (List.mem_singleton_self _), fun _ _ h => by cases h⟩
        · obtain ⟨hcur, hprev⟩ := ih hold
          exact ⟨List.mem_append_left _ hcur, fun secret time h =>
            List.mem_append_left _ (hprev secret time h)⟩
      | rotated id secret time =>
        obtain ⟨k, hold, rfl⟩ := Option.map_eq_some_iff.mp ((if_pos rfl).symm.trans hk)
        refine ⟨List.mem_append_right _ (List.mem_singleton_self _), fun secret' time' h => ?_⟩
        obtain ⟨rfl, rfl⟩ := Prod.mk.inj (Option.some.inj h)
        exact List.mem_append_left _ (ih hold).1
      | revoked id =>
        obtain ⟨k, hold, rfl⟩ := Option.map_eq_some_iff.mp ((if_pos rfl).symm.trans hk)
        obtain ⟨hcur, hprev⟩ := ih hold
        exact ⟨List.mem_append_left _ hcur, fun secret time h =>
          List.mem_append_left _ (hprev secret time h)⟩
    · rw [KeyEvent.apply_of_ne hkey] at hk
      obtain ⟨hcur, hprev⟩ := ih hk
      exact ⟨List.mem_append_left _ hcur, fun secret time h =>
        List.mem_append_left _ (hprev secret time h)⟩

/-- A revoked key stays revoked. -/
theorem revoked_append {id : PyStr} (more : List KeyEvent) :
    ∀ {history : List KeyEvent} {k : KeyLife}, lifeOf history id = some k → k.revoked = true →
      ∃ k', lifeOf (history ++ more) id = some k' ∧ k'.revoked = true := by
  induction more with
  | nil =>
    intro history k hk hrev
    exact ⟨k, by rw [List.append_nil, hk], hrev⟩
  | cons e more ih =>
    intro history k hk hrev
    have hnext : ∃ k', lifeOf (history ++ [e]) id = some k' ∧ k'.revoked = true := by
      rw [lifeOf_snoc, hk]
      by_cases hkey : e.key = id
      · subst hkey
        cases e with
        | issued id secret => exact ⟨k, if_pos rfl, hrev⟩
        | rotated id secret time => exact ⟨_, if_pos rfl, hrev⟩
        | revoked id => exact ⟨_, if_pos rfl, rfl⟩
      · exact ⟨k, KeyEvent.apply_of_ne hkey _, hrev⟩
    obtain ⟨k', hk', hrev'⟩ := hnext
    obtain ⟨k'', hk'', hrev''⟩ := ih hk' hrev'
    exact ⟨k'', by rw [← hk'', List.append_assoc, List.singleton_append], hrev''⟩

/-! ## Runs -/

/-- What is done next. -/
inductive KeyOp where
  /-- `POST /api/v1/keys`, with what it draws -/
  | create (r : SessionRequest) (keyId : PyStr) (drawn : List (Fin 62))
  /-- `DELETE /api/v1/keys/*` -/
  | deletePath (r : SessionRequest) (path : PyStr)
  /-- `DELETE /api/v1/keys` -/
  | deleteBody (r : SessionRequest)
  /-- `POST /api/v1/keys/*`, with what it draws -/
  | rotate (r : SessionRequest) (path : PyStr) (drawn : List (Fin 62))
  /-- `import_once`, with what the file holds -/
  | legacyImport (file : Option Json)
  /-- a key is presented -/
  | verify (presented : PyStr)
  /-- the clock moves -/
  | wait (seconds : ℚ)

/-- The database, the clock, and what happened to keys. -/
structure KeySystem where
  /-- the committed database -/
  db : Db
  /-- `time.time()` -/
  now : ℚ
  /-- what happened to keys -/
  history : List KeyEvent := []

section

variable (A : AuthLib) (L : KeyLib) (plain : PyStr → PyStr)

/-- The keys of a legacy file; `plain` is the secret that a digest of the file is of. -/
def legacyEvents (now : ℚ) (file : Option Json) : List KeyEvent :=
  ((legacyContents file).elim [] fun contents => legacyRows L now contents.1).map fun row =>
    .issued row.id (plain row.hash)

/-- The system after an operation that ended so. -/
def KeySystem.after {α : Type} (s : KeySystem) (outcome : Except HttpError α × Db)
    (events : α → List KeyEvent) : KeySystem :=
  match outcome with
  | (.ok a, db) => { s with db := db, history := s.history ++ events a }
  | (.error _, db) => { s with db := db }

/-- One operation. -/
def KeySystem.step (s : KeySystem) : KeyOp → KeySystem
  | .create r keyId drawn => s.after (createKey A L r keyId drawn s.now s.db) fun fields =>
      [.issued (answered "id" fields) (answered "key" fields)]
  | .deletePath r path => s.after (deleteByPath A r path s.now s.db) fun fields =>
      [.revoked (answered "id" fields)]
  | .deleteBody r => s.after (deleteByBody A r s.now s.db) fun fields =>
      [.revoked (answered "id" fields)]
  | .rotate r path drawn => s.after (postWildcard A L r path drawn s.now s.db) fun fields =>
      [.rotated (answered "id" fields) (answered "key" fields) s.now]
  | .legacyImport file => s.after (importOnce L file s.now s.db) fun _ =>
      legacyEvents L plain s.now file
  | .verify presented => s.after (verifyKey L presented s.now s.db) fun _ => []
  | .wait seconds => { s with now := s.now + seconds }

/-- A run. -/
def KeySystem.run (s : KeySystem) (ops : List KeyOp) : KeySystem :=
  ops.foldl (KeySystem.step A L plain) s

/-- The presented key verifies as this one. -/
def Db.VerifiesAs (db : Db) (presented : PyStr) (now : ℚ) (id : PyStr) : Prop :=
  (verifyKey L presented now db).1 = .ok (some id)

/-- The prefix and the digest of each key in the legacy files belong to its secret. -/
def WellFormed (ops : List KeyOp) : Prop :=
  ∀ file, .legacyImport file ∈ ops → ∀ contents, legacyContents file = some contents →
    ∀ now, ∀ row ∈ legacyRows L now contents.1, Usable (plain row.hash) ∧
      row.hash = L.sha256 (plain row.hash) ∧ row.keyPrefix = prefixOf (plain row.hash)

/-- Digests of these secrets collide neither within one kind nor across the two, and
secrets of distinct keys are distinct. -/
structure Unambiguous (secrets : List (PyStr × PyStr)) (presented : PyStr) : Prop where
  /-- `HMAC` -/
  hmac : ∀ x ∈ presented :: secrets.map Prod.snd, ∀ y ∈ presented :: secrets.map Prod.snd,
    L.hmac x = L.hmac y → x = y
  /-- `SHA-256` -/
  sha256 : ∀ x ∈ presented :: secrets.map Prod.snd, ∀ y ∈ presented :: secrets.map Prod.snd,
    L.sha256 x = L.sha256 y → x = y
  /-- one and the other -/
  across : ∀ x ∈ presented :: secrets.map Prod.snd, ∀ y ∈ presented :: secrets.map Prod.snd,
    L.hmac x ≠ L.sha256 y
  /-- distinct keys -/
  distinct : ∀ p ∈ secrets, ∀ q ∈ secrets, p.2 = q.2 → p.1 = q.1

end

/-! ## Rows show the lives of keys -/

/-- A row shows the life of its key. -/
structure Shows (L : KeyLib) (row : ApiKeyRow) (k : KeyLife) : Prop where
  /-- its digest is of the current secret -/
  hash : isDigest L row.hash k.current = true
  /-- and so is its prefix -/
  keyPrefix : row.keyPrefix = prefixOf k.current
  /-- the secret can be presented -/
  usable : Usable k.current
  /-- `revoked_at` is set when it was revoked -/
  revoked : row.revokedAt.isSome = k.revoked
  /-- a digest in grace is of the secret that the latest rotation replaced -/
  grace : ∀ now hash, graceDigest now row = some hash → ∃ secret time,
    k.previous = some (secret, time) ∧ isDigest L hash secret = true ∧ now - time < graceSeconds

/-- The rows of the table are those of the keys of the history. -/
structure Kept (L : KeyLib) (db : Db) (history : List KeyEvent) : Prop where
  /-- a key has one row -/
  keys : (db.apiKeys.map ApiKeyRow.id).Nodup
  /-- which shows its life -/
  rows : ∀ row ∈ db.apiKeys, ∃ k, lifeOf history row.id = some k ∧ Shows L row k
  /-- every key has a row -/
  there : ∀ id k, lifeOf history id = some k → ∃ row ∈ db.apiKeys, row.id = id

theorem graceDigest_eq_some {now : ℚ} {row : ApiKeyRow} {hash : PyStr}
    (h : graceDigest now row = some hash) :
    row.prevHash = some hash ∧ ∃ expires, row.prevExpiresAt = some expires ∧ now < expires := by
  unfold graceDigest at h
  split at h
  · next hash' expires hprev hexp =>
    obtain ⟨hcond, hsome⟩ := Option.ite_none_right_eq_some.mp h
    obtain rfl := Option.some.inj hsome
    rw [Bool.and_eq_true, decide_eq_true_eq] at hcond
    exact ⟨hprev, expires, hexp, hcond.2⟩
  · cases h

namespace Shows

variable {L : KeyLib} {row : ApiKeyRow} {k : KeyLife}

/-- A new row, of either kind of digest. -/
theorem issued {secret : PyStr} (hhash : isDigest L row.hash secret = true)
    (hpre : row.keyPrefix = prefixOf secret) (husable : Usable secret)
    (hrevoked : row.revokedAt = none) (hprev : row.prevHash = none) :
    Shows L row ⟨secret, none, false⟩ := by
  refine ⟨hhash, hpre, husable, by rw [hrevoked]; rfl, fun now hash h => ?_⟩
  obtain ⟨hsome, -⟩ := graceDigest_eq_some h
  rw [hprev] at hsome
  cases hsome

theorem rotated (h : Shows L row k) {secret : PyStr} (husable : Usable secret) (time : ℚ) :
    Shows L (rotatedKey L secret time row) ⟨secret, some (k.current, time), k.revoked⟩ := by
  refine ⟨?_, rfl, husable, h.revoked, fun now hash hg => ?_⟩
  · unfold isDigest
    rw [Bool.or_eq_true, decide_eq_true_eq]
    exact Or.inl rfl
  · obtain ⟨hhash, expires, hexp, hnow⟩ := graceDigest_eq_some hg
    obtain rfl := Option.some.inj hhash
    obtain rfl := Option.some.inj hexp
    exact ⟨k.current, time, rfl, h.hash, sub_lt_iff_lt_add'.mpr hnow⟩

theorem revokedKey (h : Shows L row k) (time : ℚ) :
    Shows L (revokedKey time row) { k with revoked := true } := by
  refine ⟨h.hash, h.keyPrefix, h.usable, rfl, fun now hash hg => ?_⟩
  obtain ⟨hhash, -⟩ := graceDigest_eq_some hg
  cases hhash

/-- The columns that verification writes are not part of it. -/
theorem used (h : Shows L row k) (time : Option ℚ) (count : ℕ) :
    Shows L { row with lastUsed := time, requestCount := count } k :=
  ⟨h.hash, h.keyPrefix, h.usable, h.revoked, h.grace⟩

end Shows

/-- What a row tells of the life of its key, if every change of the row keeps it so. -/
structure Tracks (L : KeyLib) (R : ApiKeyRow → KeyLife → Prop) : Prop where
  /-- a new row, of either kind of digest -/
  issued : ∀ {row : ApiKeyRow} {secret : PyStr}, isDigest L row.hash secret = true →
    row.keyPrefix = prefixOf secret → Usable secret → row.revokedAt = none →
    row.prevHash = none → R row ⟨secret, none, false⟩
  /-- a rotation -/
  rotated : ∀ {row : ApiKeyRow} {k : KeyLife}, R row k → ∀ {secret : PyStr}, Usable secret →
    ∀ time, R (rotatedKey L secret time row) ⟨secret, some (k.current, time), k.revoked⟩
  /-- a revocation -/
  revoked : ∀ {row : ApiKeyRow} {k : KeyLife}, R row k →
    ∀ time, R (revokedKey time row) { k with revoked := true }
  /-- a revocation of a key that was revoked before -/
  again : ∀ {row : ApiKeyRow} {k : KeyLife}, R row k → row.revokedAt.isSome = true →
    R row { k with revoked := true }
  /-- a verification -/
  used : ∀ {row : ApiKeyRow} {k : KeyLife}, R row k → ∀ time count,
    R { row with lastUsed := time, requestCount := count } k

/-- The rows of the table are those of the keys of the history, and tell of them. -/
structure KeptBy (R : ApiKeyRow → KeyLife → Prop) (db : Db) (history : List KeyEvent) : Prop where
  /-- a key has one row -/
  keys : (db.apiKeys.map ApiKeyRow.id).Nodup
  /-- which tells of its life -/
  rows : ∀ row ∈ db.apiKeys, ∃ k, lifeOf history row.id = some k ∧ R row k
  /-- every key has a row -/
  there : ∀ id k, lifeOf history id = some k → ∃ row ∈ db.apiKeys, row.id = id

/-- A row goes on showing the life of its key. -/
theorem tracks_shows (L : KeyLib) : Tracks L (Shows L) where
  issued := Shows.issued
  rotated h _ husable time := h.rotated husable time
  revoked h time := h.revokedKey time
  again h hset := ⟨h.hash, h.keyPrefix, h.usable, hset, h.grace⟩
  used h time count := h.used time count

namespace KeptBy

variable {R : ApiKeyRow → KeyLife → Prop} {db db' : Db} {history : List KeyEvent}

theorem same (h : KeptBy R db history) (hdb : db'.apiKeys = db.apiKeys) : KeptBy R db' history := by
  refine ⟨?_, ?_, ?_⟩
  · rw [hdb]
    exact h.keys
  · rw [hdb]
    exact h.rows
  · rw [hdb]
    exact h.there

/-- A key without a row has no life. -/
theorem lifeOf_none (h : KeptBy R db history) {id : PyStr} (hid : ∀ row ∈ db.apiKeys, row.id ≠ id) :
    lifeOf history id = none := by
  rcases hlife : lifeOf history id with _ | k
  · rfl
  · obtain ⟨row, hrow, heq⟩ := h.there id k hlife
    exact absurd heq (hid row hrow)

/-- An event that changes the row of one key. -/
theorem update (h : KeptBy R db history) {e : KeyEvent} {f : ApiKeyRow → ApiKeyRow}
    (hdb : db'.apiKeys = (db.mapKey e.key f).apiKeys) (hf : ∀ row, (f row).id = row.id)
    (hthere : ∃ row ∈ db.apiKeys, row.id = e.key)
    (hshows : ∀ row ∈ db.apiKeys, row.id = e.key → ∀ k, R row k →
      ∃ k', e.apply e.key (some k) = some k' ∧ R (f row) k') :
    KeptBy R db' (history ++ [e]) := by
  have hids : (db.mapKey e.key f).apiKeys.map ApiKeyRow.id = db.apiKeys.map ApiKeyRow.id := by
    unfold Db.mapKey
    rw [List.map_map]
    refine List.map_congr_left fun row _ => ?_
    by_cases hrow : row.id = e.key
    · simp only [Function.comp_apply, if_pos hrow, hf]
    · simp only [Function.comp_apply, if_neg hrow]
  refine ⟨?_, fun row hrow => ?_, fun id k hk => ?_⟩
  · rw [hdb, hids]
    exact h.keys
  · rw [hdb] at hrow
    obtain ⟨old, hold, rfl⟩ := List.mem_map.mp hrow
    obtain ⟨k, hk, hs⟩ := h.rows old hold
    rw [lifeOf_snoc]
    by_cases hid : old.id = e.key
    · rw [if_pos hid, hf, hk, hid]
      exact hshows old hold hid k hs
    · rw [if_neg hid, KeyEvent.apply_of_ne (Ne.symm hid)]
      exact ⟨k, hk, hs⟩
  · have hmem : id ∈ db.apiKeys.map ApiKeyRow.id := by
      by_cases hid : e.key = id
      · obtain ⟨row, hrow, heq⟩ := hthere
        rw [← hid, ← heq]
        exact List.mem_map_of_mem hrow
      · rw [lifeOf_snoc, KeyEvent.apply_of_ne hid] at hk
        obtain ⟨row, hrow, rfl⟩ := h.there id k hk
        exact List.mem_map_of_mem hrow
    rw [← hids, ← hdb] at hmem
    exact List.mem_map.mp hmem

/-- A row for a key that has none. -/
theorem issue (h : KeptBy R db history) {row : ApiKeyRow} {secret : PyStr}
    (hdb : db'.apiKeys = db.apiKeys ++ [row]) (hid : ∀ old ∈ db.apiKeys, old.id ≠ row.id)
    (hshows : R row ⟨secret, none, false⟩) :
    KeptBy R db' (history ++ [.issued row.id secret]) := by
  refine ⟨?_, fun r hr => ?_, fun id k hk => ?_⟩
  · rw [hdb, List.map_append]
    refine List.nodup_append.mpr ⟨h.keys, List.nodup_singleton _, ?_⟩
    rintro id hold id' hnew rfl
    obtain ⟨old, hmem, rfl⟩ := List.mem_map.mp hold
    exact hid old hmem (List.mem_singleton.mp hnew)
  · rw [hdb] at hr
    rw [lifeOf_snoc]
    rcases List.mem_append.mp hr with hold | hnew
    · rw [KeyEvent.apply_of_ne (Ne.symm (hid r hold))]
      exact h.rows r hold
    · rw [List.mem_singleton.mp hnew, h.lifeOf_none hid]
      exact ⟨_, if_pos rfl, hshows⟩
  · rw [hdb]
    by_cases hkey : row.id = id
    · exact ⟨row, List.mem_append_right _ (List.mem_singleton_self _), hkey⟩
    · have hne : (KeyEvent.issued row.id secret).key ≠ id := hkey
      rw [lifeOf_snoc, KeyEvent.apply_of_ne hne] at hk
      obtain ⟨old, hold, heq⟩ := h.there id k hk
      exact ⟨old, List.mem_append_left _ hold, heq⟩

/-- A key that is there is not issued again. -/
theorem reissue (h : KeptBy R db history) {id : PyStr} (secret : PyStr)
    (hid : ∃ old ∈ db.apiKeys, old.id = id) : KeptBy R db (history ++ [.issued id secret]) := by
  obtain ⟨old, hold, rfl⟩ := hid
  obtain ⟨k, hk, -⟩ := h.rows old hold
  have hsame : ∀ id, lifeOf (history ++ [.issued old.id secret]) id = lifeOf history id := by
    intro id
    rw [lifeOf_snoc]
    by_cases hid : old.id = id
    · subst hid
      rw [hk]
      exact if_pos rfl
    · have hne : (KeyEvent.issued old.id secret).key ≠ id := hid
      exact KeyEvent.apply_of_ne hne _
  refine ⟨h.keys, fun row hrow => ?_, fun id k hk => ?_⟩
  · rw [hsame]
    exact h.rows row hrow
  · rw [hsame] at hk
    exact h.there id k hk

/-- The rows of a well-formed legacy file. -/
theorem imported (h : KeptBy R db history) {plain : PyStr → PyStr} {rows : List ApiKeyRow}
    (hrows : ∀ row ∈ rows, R row ⟨plain row.hash, none, false⟩) :
    KeptBy R (rows.foldl insertOrIgnore db)
      (history ++ rows.map fun row => .issued row.id (plain row.hash)) := by
  induction rows generalizing db history with
  | nil =>
    rw [List.map_nil, List.append_nil]
    exact h
  | cons row rows ih =>
    have hnext : KeptBy R (insertOrIgnore db row)
        (history ++ [.issued row.id (plain row.hash)]) := by
      unfold insertOrIgnore
      split
      · next hany =>
        obtain ⟨old, hold, heq⟩ := List.any_eq_true.mp hany
        exact h.reissue _ ⟨old, hold, of_decide_eq_true heq⟩
      · next hany =>
        refine h.issue rfl (fun old hold heq => hany ?_) (hrows row (List.mem_cons_self ..))
        exact List.any_eq_true.mpr ⟨old, hold, decide_eq_true heq⟩
    have hlist : history ++ (row :: rows).map (fun row => KeyEvent.issued row.id (plain row.hash)) =
        (history ++ [.issued row.id (plain row.hash)]) ++
          rows.map fun row => KeyEvent.issued row.id (plain row.hash) := by
      rw [List.map_cons, List.append_assoc, List.singleton_append]
    rw [hlist]
    exact ih hnext fun r hr => hrows r (List.mem_cons_of_mem _ hr)

end KeptBy

/-! ## Every run -/

section

variable {A : AuthLib} {L : KeyLib} {plain : PyStr → PyStr} {s : KeySystem}
  {R : ApiKeyRow → KeyLife → Prop}

/-- No keys, and nothing has happened to any. -/
structure KeySystem.Start (s : KeySystem) : Prop where
  /-- no keys -/
  keys : s.db.apiKeys = []
  /-- no history -/
  history : s.history = []

theorem KeptBy.initial (h : s.Start) : KeptBy R s.db s.history := by
  refine ⟨?_, fun row hrow => ?_, fun id k hk => ?_⟩
  · rw [h.keys]
    exact List.nodup_nil
  · rw [h.keys] at hrow
    cases hrow
  · rw [h.history] at hk
    cases hk

/-- An operation keeps the rows, by how it ends. -/
theorem KeptBy.after {α : Type} (h : KeptBy R s.db s.history) {x : Auth.Handler α}
    {Q : α → Db → Prop} {events : α → List KeyEvent}
    (hx : x.Ends s.db Q fun _ t => t.apiKeys = s.db.apiKeys)
    (hok : ∀ a t, Q a t → KeptBy R t (s.history ++ events a)) :
    KeptBy R (s.after (x s.db) events).db (s.after (x s.db) events).history := by
  rcases hrun : x s.db with ⟨e | a, t⟩
  · exact h.same (hx.error hrun)
  · exact hok a t (hx.ok hrun)

theorem KeptBy.revokes (hR : Tracks L R) {db t : Db} {history : List KeyEvent}
    (h : KeptBy R db history) {keyId : PyStr} {now : ℚ} (hrev : Revokes db t keyId now) :
    KeptBy R t (history ++ [.revoked keyId]) := by
  obtain ⟨row, hrow, rfl, hcases⟩ := hrev
  rcases hcases with ⟨hset, hdb⟩ | hdb
  · -- the key was revoked before
    refine h.update (f := id) ?_ (fun _ => rfl) ⟨row, hrow, rfl⟩ fun old hold hid k hs =>
      ⟨_, if_pos rfl, ?_⟩
    · rw [hdb]
      unfold Db.mapKey
      simp
    · have heq : old = row := List.inj_on_of_nodup_map h.keys hold hrow hid
      exact hR.again hs (heq ▸ hset)
  · exact h.update (e := .revoked row.id) hdb (fun _ => rfl) ⟨row, hrow, rfl⟩
      fun old _ _ k hs => ⟨_, if_pos rfl, hR.revoked hs now⟩

theorem KeptBy.rotates (hR : Tracks L R) {db t : Db} {history : List KeyEvent}
    (h : KeptBy R db history) {keyId secret : PyStr} {now : ℚ}
    (hrot : Rotates L db t keyId secret now) :
    KeptBy R t (history ++ [.rotated keyId secret now]) := by
  obtain ⟨row, hrow, rfl, -, husable, hdb⟩ := hrot
  exact h.update (e := .rotated row.id secret now) hdb (fun _ => rfl) ⟨row, hrow, rfl⟩
    fun old _ _ k hs => ⟨_, if_pos rfl, hR.rotated hs husable now⟩

theorem KeptBy.creates (hR : Tracks L R) {db t : Db} {history : List KeyEvent}
    (h : KeptBy R db history) {keyId secret : PyStr} {now : ℚ}
    (hnew : Creates L db t keyId secret now) : KeptBy R t (history ++ [.issued keyId secret]) := by
  obtain ⟨hid, husable, name, limits, hdb⟩ := hnew
  refine KeptBy.issue h hdb hid (hR.issued ?_ rfl husable rfl rfl)
  unfold isDigest
  rw [Bool.or_eq_true, decide_eq_true_eq]
  exact Or.inl rfl

/-- A legacy row tells of the key that it was written for. -/
theorem Tracks.legacy (hR : Tracks L R) {now : ℚ} {entry : Json} {row : ApiKeyRow}
    (hrow : legacyRow L now entry = some row) (husable : Usable (plain row.hash))
    (hhash : row.hash = L.sha256 (plain row.hash))
    (hpre : row.keyPrefix = prefixOf (plain row.hash)) :
    R row ⟨plain row.hash, none, false⟩ := by
  have hfresh : row.revokedAt = none ∧ row.prevHash = none := by
    unfold legacyRow at hrow
    split at hrow
    · split at hrow
      · obtain ⟨-, hrow⟩ := Option.ite_none_right_eq_some.mp hrow
        rw [← Option.some.inj hrow]
        exact ⟨rfl, rfl⟩
      · cases hrow
    · cases hrow
  refine hR.issued ?_ hpre husable hfresh.1 hfresh.2
  unfold isDigest
  rw [Bool.or_eq_true, decide_eq_true_eq, decide_eq_true_eq]
  exact Or.inr hhash

/-- Verification writes no column that matters to it. -/
theorem verifyKey_ends (presented : PyStr) (now : ℚ) (db : Db) :
    (verifyKey L presented now).Ends db
      (fun _ t => t.apiKeys = db.apiKeys ∨ ∃ id, t.apiKeys = (db.mapKey id fun row =>
        { row with lastUsed := some now, requestCount := row.requestCount + 1 }).apiKeys)
      fun _ t => t.apiKeys = db.apiKeys := by
  unfold verifyKey
  split
  · exact Prog.Ends.pure (Or.inl rfl)
  · split
    · exact Prog.Ends.raise rfl
    · refine Prog.Ends.bind (P := fun rows t => t = db) rfl ?_
      rintro rows t rfl
      split
      · exact Prog.Ends.pure (Or.inl rfl)
      · exact Or.inr ⟨_, rfl⟩

theorem KeptBy.used (hR : Tracks L R) {db t : Db} {history : List KeyEvent}
    (h : KeptBy R db history) {id : PyStr}
    {time : ℚ} (hdb : t.apiKeys = (db.mapKey id fun row =>
      { row with lastUsed := some time, requestCount := row.requestCount + 1 }).apiKeys) :
    KeptBy R t history := by
  have hids : t.apiKeys.map ApiKeyRow.id = db.apiKeys.map ApiKeyRow.id := by
    rw [hdb]
    unfold Db.mapKey
    rw [List.map_map]
    refine List.map_congr_left fun row _ => ?_
    dsimp only [Function.comp_apply]
    split <;> rfl
  refine ⟨by rw [hids]; exact h.keys, fun row hrow => ?_, fun id k hk => ?_⟩
  · rw [hdb] at hrow
    obtain ⟨old, hold, rfl⟩ := List.mem_map.mp hrow
    obtain ⟨k, hk, hs⟩ := h.rows old hold
    split
    · exact ⟨k, hk, hR.used hs _ _⟩
    · exact ⟨k, hk, hs⟩
  · obtain ⟨row, hrow, heq⟩ := h.there id k hk
    have hmem : id ∈ db.apiKeys.map ApiKeyRow.id := List.mem_map.mpr ⟨row, hrow, heq⟩
    rw [← hids] at hmem
    exact List.mem_map.mp hmem

theorem KeptBy.importOnce (hR : Tracks L R) (h : KeptBy R s.db s.history) {file : Option Json}
    (hfile : ∀ contents, legacyContents file = some contents →
      ∀ row ∈ legacyRows L s.now contents.1, Usable (plain row.hash) ∧
        row.hash = L.sha256 (plain row.hash) ∧ row.keyPrefix = prefixOf (plain row.hash)) :
    KeptBy R (s.step A L plain (.legacyImport file)).db
      (s.step A L plain (.legacyImport file)).history := by
  refine h.after (Q := fun _ t => KeptBy R t (s.history ++ legacyEvents L plain s.now file)) ?_
    fun _ _ ht => ht
  unfold LayaWatch.importOnce legacyEvents
  rcases hcontents : legacyContents file with _ | ⟨keys, enabled⟩
  · refine Prog.Ends.pure ?_
    rw [Option.elim_none, List.map_nil, List.append_nil]
    exact h
  · refine Prog.Ends.bind (P := fun _ t => t = s.db) ?_ ?_
    · split
      · exact Prog.Ends.pure rfl
      · exact Prog.Ends.raise rfl
    · rintro - t rfl
      refine KeptBy.same (imported h fun row hrow => ?_) rfl
      obtain ⟨husable, hhash, hpre⟩ := hfile _ hcontents row hrow
      obtain ⟨entry, -, hentry⟩ := List.mem_filterMap.mp hrow
      exact hR.legacy hentry husable hhash hpre

/-- Every operation keeps the rows. -/
theorem KeptBy.step (hR : Tracks L R) (h : KeptBy R s.db s.history) {op : KeyOp}
    (hwf : WellFormed L plain [op]) :
    KeptBy R (s.step A L plain op).db (s.step A L plain op).history := by
  cases op with
  | create r keyId drawn =>
    exact h.after (createKey_ends r keyId drawn s.now s.db) fun _ _ hq => h.creates hR hq
  | deletePath r path =>
    exact h.after (deleteByPath_ends r path s.now s.db) fun _ _ hq => h.revokes hR hq
  | deleteBody r => exact h.after (deleteByBody_ends r s.now s.db) fun _ _ hq => h.revokes hR hq
  | rotate r path drawn =>
    exact h.after (postWildcard_ends r path drawn s.now s.db) fun _ _ hq => h.rotates hR hq
  | legacyImport file =>
    exact h.importOnce hR fun contents hc => hwf file (List.mem_singleton_self _) contents hc s.now
  | verify presented =>
    refine h.after (verifyKey_ends presented s.now s.db) fun _ t hq => ?_
    rw [List.append_nil]
    rcases hq with hsame | ⟨id, hdb⟩
    · exact h.same hsame
    · exact h.used hR hdb
  | wait seconds => exact h

theorem WellFormed.mono {ops more : List KeyOp} (h : WellFormed L plain ops)
    (hsub : ∀ op ∈ more, op ∈ ops) : WellFormed L plain more :=
  fun file hfile => h file (hsub _ hfile)

theorem KeptBy.run (hR : Tracks L R) (ops : List KeyOp) : ∀ {s : KeySystem},
    KeptBy R s.db s.history → WellFormed L plain ops →
      KeptBy R (s.run A L plain ops).db (s.run A L plain ops).history := by
  induction ops with
  | nil => exact fun h _ => h
  | cons op ops ih =>
    intro s h hwf
    refine ih (h.step hR (hwf.mono fun op' hop => ?_)) (hwf.mono fun op' hop => ?_)
    · rw [List.mem_singleton.mp hop]
      exact List.mem_cons_self ..
    · exact List.mem_cons_of_mem _ hop

theorem Kept.run (hs : s.Start) (ops : List KeyOp) (hwf : WellFormed L plain ops) :
    Kept L (s.run A L plain ops).db (s.run A L plain ops).history := by
  have hkept := KeptBy.run (A := A) (tracks_shows L) ops (KeptBy.initial hs) hwf
  exact ⟨hkept.keys, hkept.rows, hkept.there⟩

theorem KeySystem.run_append (s : KeySystem) (ops more : List KeyOp) :
    s.run A L plain (ops ++ more) = (s.run A L plain ops).run A L plain more := List.foldl_append

/-- The history of keys only grows. -/
theorem KeySystem.history_run (more : List KeyOp) : ∀ s : KeySystem,
    ∃ es, (s.run A L plain more).history = s.history ++ es := by
  induction more with
  | nil => exact fun s => ⟨[], (List.append_nil _).symm⟩
  | cons op more ih =>
    intro s
    have hafter : ∀ {α : Type} (outcome : Except HttpError α × Db) (events : α → List KeyEvent),
        ∃ es, (s.after outcome events).history = s.history ++ es := by
      rintro α ⟨e | a, t⟩ events
      · exact ⟨[], (List.append_nil _).symm⟩
      · exact ⟨events a, rfl⟩
    have hstep : ∃ es, (s.step A L plain op).history = s.history ++ es := by
      cases op with
      | wait seconds => exact ⟨[], (List.append_nil _).symm⟩
      | _ => exact hafter _ _
    obtain ⟨es, hes⟩ := hstep
    obtain ⟨es', hes'⟩ := ih (s.step A L plain op)
    refine ⟨es ++ es', ?_⟩
    rw [← List.append_assoc, ← hes]
    exact hes'

/-- What a key verifies as: the first row that matches. -/
theorem Db.verifiesAs_iff {db : Db} {presented id : PyStr} {now : ℚ} :
    db.VerifiesAs L presented now id ↔ Usable presented ∧
      ∃ row, (db.apiKeys.filter (isCandidate presented)).find? (isMatch L presented now) =
        some row ∧ row.id = id := by
  unfold Db.VerifiesAs verifyKey Usable
  by_cases hempty : presented.isEmpty = true
  · rw [if_pos hempty]
    exact iff_of_false (fun h => by cases h) fun h => h.1.1 (List.isEmpty_iff.mp hempty)
  rw [if_neg hempty]
  by_cases henc : presented.encodable = true
  · have hget : (Prog.get fun db => db.apiKeys.filter (isCandidate presented) :
        Auth.Handler (List ApiKeyRow)) db =
          (.ok (db.apiKeys.filter (isCandidate presented)), db) := rfl
    rw [henc, Bool.not_true, if_neg Bool.false_ne_true, Prog.run_bind_ok hget]
    rcases (db.apiKeys.filter (isCandidate presented)).find? (isMatch L presented now) with _ | row
    · exact iff_of_false (fun h => by cases h) fun ⟨_, _, h, _⟩ => by cases h
    · constructor
      · intro h
        exact ⟨⟨fun hnil => hempty (List.isEmpty_iff.mpr hnil), rfl⟩, row, rfl,
          Option.some.inj (Except.ok.inj h)⟩
      · rintro ⟨-, row', hrow, rfl⟩
        rw [Option.some.inj hrow]
        rfl
  · rw [Bool.not_eq_true] at henc
    rw [henc]
    exact iff_of_false (fun h => by cases h) fun h => by cases h.1.2

variable {db : Db} {history : List KeyEvent} {presented : PyStr}

/-- A digest tells these secrets apart. -/
theorem Unambiguous.eq_of_isDigest {secrets : List (PyStr × PyStr)}
    (h : Unambiguous L secrets presented) {x y hash : PyStr}
    (hx : x ∈ presented :: secrets.map Prod.snd) (hy : y ∈ presented :: secrets.map Prod.snd)
    (hdx : isDigest L hash x = true) (hdy : isDigest L hash y = true) : x = y := by
  unfold isDigest at hdx hdy
  rw [Bool.or_eq_true, decide_eq_true_eq, decide_eq_true_eq] at hdx hdy
  rcases hdx with hdx | hdx
  · rcases hdy with hdy | hdy
    · exact h.hmac x hx y hy (hdx.symm.trans hdy)
    · exact absurd (hdx.symm.trans hdy) (h.across x hx y hy)
  · rcases hdy with hdy | hdy
    · exact absurd (hdy.symm.trans hdx) (h.across y hy x hx)
    · exact h.sha256 x hx y hy (hdx.symm.trans hdy)

/-- The presented key is the secret of this life, or the one before in its grace. -/
def KeyLife.Accepts (k : KeyLife) (presented : PyStr) (now : ℚ) : Prop :=
  k.revoked = false ∧ (presented = k.current ∨
    ∃ time, k.previous = some (presented, time) ∧ now - time < graceSeconds)

/-- A row that matches is of a key that accepts. -/
theorem Kept.accepts (h : Kept L db history) (hfree : Unambiguous L (secretsOf history) presented)
    {row : ApiKeyRow} {now : ℚ} (hrow : row ∈ db.apiKeys)
    (hcand : isCandidate presented row = true) (hmatch : isMatch L presented now row = true) :
    ∃ k, lifeOf history row.id = some k ∧ k.Accepts presented now := by
  obtain ⟨k, hk, hs⟩ := h.rows row hrow
  obtain ⟨hcurrent, hprevious⟩ := mem_secretsOf history hk
  have hmem : ∀ {secret : PyStr}, (row.id, secret) ∈ secretsOf history →
      secret ∈ presented :: (secretsOf history).map Prod.snd :=
    fun hin => List.mem_cons_of_mem _ (List.mem_map_of_mem (f := Prod.snd) hin)
  have hself : presented ∈ presented :: (secretsOf history).map Prod.snd := List.mem_cons_self ..
  refine ⟨k, hk, ?_, ?_⟩
  · unfold isCandidate at hcand
    rw [Bool.and_eq_true, Option.isNone_iff_eq_none] at hcand
    rw [← hs.revoked, hcand.2]
    rfl
  · unfold isMatch at hmatch
    rw [Bool.or_eq_true] at hmatch
    rcases hmatch with hhash | hgrace
    · exact Or.inl (hfree.eq_of_isDigest hself (hmem hcurrent) hhash hs.hash)
    · obtain ⟨hash, hsome, hdigest⟩ := (Option.any_eq_true _ _).mp hgrace
      obtain ⟨secret, time, hprev, hof, hnow⟩ := hs.grace now hash hsome
      have heq := hfree.eq_of_isDigest hself (hmem (hprevious secret time hprev)) hdigest hof
      exact Or.inr ⟨time, by rw [hprev, heq], hnow⟩

/-- What verifies as a key is accepted by it. -/
theorem Kept.sound (h : Kept L db history) (hfree : Unambiguous L (secretsOf history) presented)
    {id : PyStr} {now : ℚ} (hv : db.VerifiesAs L presented now id) :
    ∃ k, lifeOf history id = some k ∧ k.Accepts presented now := by
  obtain ⟨-, row, hfind, rfl⟩ := Db.verifiesAs_iff.mp hv
  obtain ⟨hrow, hcand⟩ := List.mem_filter.mp (List.mem_of_find?_eq_some hfind)
  exact h.accepts hfree hrow hcand (List.find?_some hfind)

/-- A secret of a key that its row matches verifies as this key. -/
theorem Kept.verifies (h : Kept L db history) (hfree : Unambiguous L (secretsOf history) presented)
    {row : ApiKeyRow} {now : ℚ} (hrow : row ∈ db.apiKeys) (husable : Usable presented)
    (hown : (row.id, presented) ∈ secretsOf history) (hcand : isCandidate presented row = true)
    (hmatch : isMatch L presented now row = true) : db.VerifiesAs L presented now row.id := by
  have hfound : ((db.apiKeys.filter (isCandidate presented)).find?
      (isMatch L presented now)).isSome = true :=
    List.find?_isSome.mpr ⟨row, List.mem_filter.mpr ⟨hrow, hcand⟩, hmatch⟩
  obtain ⟨first, hfirst⟩ := Option.isSome_iff_exists.mp hfound
  refine Db.verifiesAs_iff.mpr ⟨husable, first, hfirst, ?_⟩
  -- the first row that matches is of a key with the same secret
  obtain ⟨hmem, hcand'⟩ := List.mem_filter.mp (List.mem_of_find?_eq_some hfirst)
  obtain ⟨k', hk', -, haccept⟩ := h.accepts hfree hmem hcand' (List.find?_some hfirst)
  obtain ⟨hcurrent, hprevious⟩ := mem_secretsOf history hk'
  have hin : (first.id, presented) ∈ secretsOf history := by
    rcases haccept with rfl | ⟨time, hprev, -⟩
    · exact hcurrent
    · exact hprevious presented time hprev
  exact hfree.distinct _ hin _ hown rfl

/-- The current secret of a key that is not revoked verifies as it. -/
theorem Kept.complete (h : Kept L db history) (hfree : Unambiguous L (secretsOf history) presented)
    {id : PyStr} {k : KeyLife} (hk : lifeOf history id = some k) (hrev : k.revoked = false)
    (hcur : k.current = presented) (now : ℚ) : db.VerifiesAs L presented now id := by
  obtain ⟨row, hrow, rfl⟩ := h.there id k hk
  obtain ⟨k', hk', hs⟩ := h.rows row hrow
  obtain rfl := Option.some.inj (hk.symm.trans hk')
  have hcand : isCandidate presented row = true := by
    unfold isCandidate
    rw [Bool.and_eq_true, Bool.or_eq_true, decide_eq_true_eq, hs.keyPrefix, hcur]
    refine ⟨Or.inl rfl, ?_⟩
    rw [← Option.not_isSome, hs.revoked, hrev]
    rfl
  have hmatch : isMatch L presented now row = true := by
    unfold isMatch
    rw [Bool.or_eq_true, ← hcur]
    exact Or.inl hs.hash
  have hown := (mem_secretsOf history hk).1
  rw [hcur] at hown
  exact h.verifies hfree hrow (hcur ▸ hs.usable) hown hcand hmatch

theorem Unambiguous.mono {secrets secrets' : List (PyStr × PyStr)}
    (h : Unambiguous L secrets' presented) (hsub : ∀ p ∈ secrets, p ∈ secrets') :
    Unambiguous L secrets presented := by
  have hmem : ∀ x ∈ presented :: secrets.map Prod.snd, x ∈ presented :: secrets'.map Prod.snd := by
    intro x hx
    rcases List.mem_cons.mp hx with rfl | hx
    · exact List.mem_cons_self ..
    · obtain ⟨p, hp, rfl⟩ := List.mem_map.mp hx
      exact List.mem_cons_of_mem _ (List.mem_map_of_mem (hsub p hp))
  exact ⟨fun x hx y hy => h.hmac x (hmem x hx) y (hmem y hy),
    fun x hx y hy => h.sha256 x (hmem x hx) y (hmem y hy),
    fun x hx y hy => h.across x (hmem x hx) y (hmem y hy),
    fun p hp q hq => h.distinct p (hsub p hp) q (hsub q hq)⟩

/-- **API key soundness**, over every run: a presented key verifies only as a key that
is not revoked and whose secret it is, or was up to the latest rotation less than
300 s ago; the current secret of a key that is not revoked verifies at every time;
and what is presented never verifies as a key that was revoked. -/
theorem key_soundness (hs : s.Start) {ops more : List KeyOp}
    (hwf : WellFormed L plain (ops ++ more))
    (hfree : Unambiguous L (secretsOf (s.run A L plain (ops ++ more)).history) presented) :
    (∀ now id, (s.run A L plain ops).db.VerifiesAs L presented now id →
        ∃ k, lifeOf (s.run A L plain ops).history id = some k ∧ k.Accepts presented now) ∧
      (∀ now id k, lifeOf (s.run A L plain ops).history id = some k → k.revoked = false →
        k.current = presented → (s.run A L plain ops).db.VerifiesAs L presented now id) ∧
      ∀ id k, lifeOf (s.run A L plain ops).history id = some k → k.revoked = true →
        ∀ now, ¬(s.run A L plain (ops ++ more)).db.VerifiesAs L presented now id := by
  have hwfOps : WellFormed L plain ops := hwf.mono fun op hop => List.mem_append_left _ hop
  have hkept := Kept.run (A := A) hs ops hwfOps
  have hkeptAll := Kept.run (A := A) hs (ops ++ more) hwf
  obtain ⟨es, hes⟩ : ∃ es, ((s.run A L plain ops).run A L plain more).history =
      (s.run A L plain ops).history ++ es := KeySystem.history_run more _
  rw [← KeySystem.run_append] at hes
  have hfreeOps : Unambiguous L (secretsOf (s.run A L plain ops).history) presented := by
    refine hfree.mono fun p hp => ?_
    rw [hes]
    unfold secretsOf
    rw [List.filterMap_append]
    exact List.mem_append_left _ hp
  refine ⟨fun now id hv => hkept.sound hfreeOps hv, fun now id k hk hrev hcur =>
    hkept.complete hfreeOps hk hrev hcur now, fun id k hk hrev now hv => ?_⟩
  -- the longer history has the key revoked, and only a live key verifies
  obtain ⟨k', hk', hlive, -⟩ := hkeptAll.sound hfree hv
  obtain ⟨k'', hk'', hrev''⟩ := revoked_append es hk hrev
  rw [hes] at hk'
  obtain rfl := Option.some.inj (hk'.symm.trans hk'')
  rw [hlive] at hrev''
  cases hrev''

end

/-- Digests that are the text itself, marked with their kind. -/
def markedKeys : KeyLib where
  hmac := fun secret => py "h" ++ secret
  sha256 := fun secret => py "s" ++ secret
  str := fun _ => []
  mktime := fun _ => none

/-- Tokens and passwords that are their own digest. -/
def textAuth : AuthLib where
  digest := id
  hashMatches := fun password hash => decide (password = hash)
  hashPassword := fun password _ => password
  lower := id
  denyList := fun _ => false

/-- An admin with a session, and no keys. -/
def adminSession : KeySystem where
  db := {
    users := [⟨py "a", py "a@x.y", [], .admin, py "password", 0, none, false, false⟩]
    sessions := [⟨py "T", py "a", 0, 1000, 0, none, none, false⟩] }
  now := 0

/-- A request of the admin. -/
def adminRequest (body : Fields) : SessionRequest where
  cookie := some (py "T")
  body := .ok (.obj body)

/-- A legacy file with one key. -/
def legacyFile : Json := .obj [(py "enabled", .bool true), (py "keys", .arr [.obj [
  (py "id", .str (py "old")), (py "prefix", .str (py "legacysecret")),
  (py "sha256", .str (py "slegacysecret"))]])]

/-- The draws of a secret of zeros. -/
def sameDraws : List (Fin 62) := List.replicate 32 0

/-- A key is imported, another is created and rotated; the first is revoked. -/
def keyStory : List KeyOp :=
  [.legacyImport (some legacyFile), .create (adminRequest [(py "name", .str (py "client"))])
      (py "new") (List.replicate 32 0),
    .wait 10, .rotate (adminRequest []) (py "/api/v1/keys/new/rotate") (List.replicate 32 1),
    .deleteBody (adminRequest [(py "id", .str (py "old"))])]

theorem wellFormed_keyStory : WellFormed markedKeys List.tail
    (keyStory ++ [.legacyImport (some legacyFile)]) := by
  intro file hfile contents hcontents now row hrow
  obtain rfl : file = some legacyFile := by
    simpa [keyStory, or_self] using hfile
  obtain rfl := Option.some.inj hcontents
  obtain rfl := List.mem_singleton.mp hrow
  have hplain : (List.tail (py "slegacysecret") ≠ [] ∧
      PyStr.encodable (List.tail (py "slegacysecret")) = true) ∧
      py "slegacysecret" = markedKeys.sha256 (List.tail (py "slegacysecret")) ∧
      (py "legacysecret").take 8 = prefixOf (List.tail (py "slegacysecret")) := by decide
  exact hplain

/-- The imported key does not verify once it was revoked, even when the file is
imported again. -/
theorem key_soundness_revoked :
    ¬(adminSession.run textAuth markedKeys List.tail
      (keyStory ++ [.legacyImport (some legacyFile)])).db.VerifiesAs markedKeys
        (py "legacysecret") 20 (py "old") := by
  obtain ⟨k, hk, hrev⟩ := (Option.any_eq_true _ _).mp (show
    Option.any KeyLife.revoked (lifeOf (adminSession.run textAuth markedKeys List.tail
      keyStory).history (py "old")) = true by decide +kernel)
  refine (key_soundness (A := textAuth) ⟨rfl, rfl⟩ wellFormed_keyStory ?_).2.2 _ k hk hrev 20
  refine ⟨?_, ?_, ?_, ?_⟩ <;> decide +kernel

end LayaWatch
