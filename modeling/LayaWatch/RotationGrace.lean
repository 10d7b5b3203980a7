import LayaWatch.KeySoundness

/-!
# The grace of a rotation

A rotation keeps the digest that it replaces, to be accepted for 300 s, in the one
slot that a row has for it; the next rotation of the key takes the slot. A replaced
secret verifies to the end of its grace if its key is not rotated again before then,
and, where no secret is drawn twice, only if (`rotation_grace`).
-/

namespace LayaWatch

/-! ## Rotations in a history -/

/-- The event is a rotation of this key. -/
def KeyEvent.isRotation (id : PyStr) : KeyEvent → Bool
  | .rotated id' _ _ => decide (id' = id)
  | _ => false

@[simp] theorem KeyEvent.isRotation_issued (id id' secret : PyStr) :
    (KeyEvent.issued id' secret).isRotation id = false := rfl

@[simp] theorem KeyEvent.isRotation_rotated (id id' secret : PyStr) (time : ℚ) :
    (KeyEvent.rotated id' secret time).isRotation id = decide (id' = id) := rfl

/-- A rotation of the key at this time replaced the secret, and `after` came after it. -/
def Replaces (history : List KeyEvent) (id secret : PyStr) (time : ℚ) (after : List KeyEvent) :
    Prop :=
  ∃ before new k, history = before ++ .rotated id new time :: after ∧
    lifeOf before id = some k ∧ k.current = secret

/-- No rotation draws a secret that was there before. -/
def DrawsFresh (history : List KeyEvent) : Prop :=
  ∀ before id new time after, history = before ++ .rotated id new time :: after →
    ∀ p ∈ secretsOf before, p.2 ≠ new

/-- An event that is no rotation of a key leaves its secrets. -/
theorem KeyEvent.apply_secrets {id : PyStr} {e : KeyEvent} (he : e.isRotation id = false)
    {k : KeyLife} : ∃ k', e.apply id (some k) = some k' ∧ k'.current = k.current ∧
      k'.previous = k.previous := by
  by_cases hkey : e.key = id
  · subst hkey
    cases e with
    | issued id secret => exact ⟨k, if_pos rfl, rfl, rfl⟩
    | rotated id secret time => exact absurd (decide_eq_true rfl) (Bool.eq_false_iff.mp he)
    | revoked id => exact ⟨_, if_pos rfl, rfl, rfl⟩
  · exact ⟨k, KeyEvent.apply_of_ne hkey _, rfl, rfl⟩

/-- The secret that the latest rotation replaced. -/
theorem previous_of_latest {history after : List KeyEvent} {id secret : PyStr} {time : ℚ}
    (h : Replaces history id secret time after)
    (hlatest : ∀ e ∈ after, KeyEvent.isRotation id e = false) :
    ∃ k, lifeOf history id = some k ∧ k.previous = some (secret, time) := by
  obtain ⟨before, new, k₀, rfl, hbefore, rfl⟩ := h
  induction after using List.reverseRecOn with
  | nil =>
    rw [lifeOf_snoc, hbefore]
    exact ⟨_, if_pos rfl, rfl⟩
  | append_singleton after e ih =>
    obtain ⟨k, hk, hprev⟩ := ih fun e' he' => hlatest e' (List.mem_append_left _ he')
    obtain ⟨k', hk', -, hsame⟩ := KeyEvent.apply_secrets (k := k)
      (hlatest e (List.mem_append_right _ (List.mem_singleton_self _)))
    refine ⟨k', ?_, hsame.trans hprev⟩
    rw [← List.cons_append, ← List.append_assoc, lifeOf_snoc, hk]
    exact hk'

/-- A replaced secret is not the current one, and once its key was rotated again it is
not the previous one either. -/
theorem forgotten_of_later {history after : List KeyEvent} {id secret : PyStr} {time : ℚ}
    (h : Replaces history id secret time after) (hfresh : DrawsFresh history) :
    ∃ k, lifeOf history id = some k ∧ k.current ≠ secret ∧
      ((∃ e ∈ after, KeyEvent.isRotation id e = true) →
        ∀ other time', k.previous = some (other, time') → other ≠ secret) := by
  obtain ⟨before, new, k₀, rfl, hbefore, rfl⟩ := h
  have hold : (id, k₀.current) ∈ secretsOf before := (mem_secretsOf before hbefore).1
  induction after using List.reverseRecOn with
  | nil =>
    rw [lifeOf_snoc, hbefore]
    refine ⟨_, if_pos rfl, ?_, fun hlater => ?_⟩
    · exact (hfresh before id new time [] rfl _ hold).symm
    · obtain ⟨e, he, -⟩ := hlater
      exact absurd he List.not_mem_nil
  | append_singleton after e ih =>
    have hsplit : before ++ KeyEvent.rotated id new time :: (after ++ [e]) =
        (before ++ KeyEvent.rotated id new time :: after) ++ [e] := by
      rw [← List.cons_append, List.append_assoc]
    rw [hsplit] at hfresh ⊢
    obtain ⟨k, hk, hcur, hprev⟩ := ih fun before' id' new' time' after' heq =>
      hfresh before' id' new' time' (after' ++ [e]) (by rw [heq]; simp)
    rw [lifeOf_snoc, hk]
    rcases hrot : e.isRotation id with _ | _
    · obtain ⟨k', hk', hsame, hsame'⟩ := KeyEvent.apply_secrets (k := k) hrot
      refine ⟨k', hk', hsame ▸ hcur, fun hlater other time' h' => ?_⟩
      obtain ⟨e', he', hrot'⟩ := hlater
      refine hprev ⟨e', ?_, hrot'⟩ other time' (hsame' ▸ h')
      rcases List.mem_append.mp he' with hin | hin
      · exact hin
      · rw [List.mem_singleton.mp hin, hrot] at hrot'
        cases hrot'
    · cases e with
      | rotated id' new' time' =>
        obtain rfl : id' = id := of_decide_eq_true hrot
        refine ⟨_, if_pos rfl, ?_, fun _ other time'' h' => ?_⟩
        · refine (hfresh _ id' new' time' [] rfl (id', k₀.current) ?_).symm
          unfold secretsOf at hold ⊢
          rw [List.filterMap_append]
          exact List.mem_append_left _ hold
        · obtain ⟨rfl, rfl⟩ := Prod.mk.inj (Option.some.inj h')
          exact hcur
      | issued id' secret => cases hrot
      | revoked id' => cases hrot

/-! ## The slot of a row -/

/-- A digest is a text with something in it. -/
def KeyLib.Digests (L : KeyLib) : Prop := ∀ secret, L.hmac secret ≠ [] ∧ L.sha256 secret ≠ []

/-- A row shows the life of its key, and its slot has the secret that the latest rotation
replaced, unless the key was revoked. -/
structure ShowsGrace (L : KeyLib) (row : ApiKeyRow) (k : KeyLife) : Prop where
  /-- what `verify_key` goes by -/
  shows : Shows L row k
  /-- the slot -/
  slot : k.revoked = false → ∀ secret time, k.previous = some (secret, time) → Usable secret ∧
    ∃ hash, row.prevHash = some hash ∧ isDigest L hash secret = true ∧
      row.prevPrefix = some (prefixOf secret) ∧ row.prevExpiresAt = some (time + graceSeconds)

theorem tracks_showsGrace (L : KeyLib) : Tracks L (ShowsGrace L) where
  issued hhash hpre husable hrevoked hprev :=
    ⟨Shows.issued hhash hpre husable hrevoked hprev, fun _ _ _ h => (by cases h)⟩
  rotated h _ husable time := by
    refine ⟨h.shows.rotated husable time, fun _ secret time' hprev => ?_⟩
    obtain ⟨rfl, rfl⟩ := Prod.mk.inj (Option.some.inj hprev)
    exact ⟨h.shows.usable, _, rfl, h.shows.hash, congrArg some h.shows.keyPrefix, rfl⟩
  revoked h time := ⟨h.shows.revokedKey time, fun hlive => (by cases hlive)⟩
  again h hset := ⟨(tracks_shows L).again h.shows hset, fun hlive => (by cases hlive)⟩
  used h time count := ⟨h.shows.used time count, h.slot⟩

/-- What is in the slot matches until its grace ends. -/
theorem ShowsGrace.matches {L : KeyLib} (hdigests : L.Digests) {row : ApiKeyRow} {k : KeyLife}
    (h : ShowsGrace L row k) (hlive : k.revoked = false) {secret : PyStr} {time now : ℚ}
    (hprev : k.previous = some (secret, time)) (hnow : now < time + graceSeconds) :
    isCandidate secret row = true ∧ isMatch L secret now row = true := by
  obtain ⟨-, hash, hhash, hdigest, hprefix, hexpires⟩ := h.slot hlive secret time hprev
  have hfull : hash ≠ [] := by
    unfold isDigest at hdigest
    rw [Bool.or_eq_true, decide_eq_true_eq, decide_eq_true_eq] at hdigest
    rcases hdigest with rfl | rfl
    · exact (hdigests secret).1
    · exact (hdigests secret).2
  constructor
  · unfold isCandidate
    rw [Bool.and_eq_true, Bool.or_eq_true, decide_eq_true_eq, decide_eq_true_eq, hprefix]
    refine ⟨Or.inr rfl, ?_⟩
    rw [← Option.not_isSome, h.shows.revoked, hlive]
    rfl
  · have hgrace : graceDigest now row = some hash := by
      unfold graceDigest
      rw [hhash, hexpires]
      dsimp only
      rw [if_pos]
      rw [Bool.and_eq_true, Bool.not_eq_true', List.isEmpty_eq_false_iff, decide_eq_true_eq]
      exact ⟨hfull, hnow⟩
    unfold isMatch
    rw [hgrace, Bool.or_eq_true]
    exact Or.inr hdigest

/-! ## Runs -/

/-- Every secret that a rotation replaced verifies up to the end of its grace, unless
the key was revoked. -/
def GraceComplete (L : KeyLib) (s : KeySystem) : Prop :=
  ∀ id secret time after k, Replaces s.history id secret time after →
    lifeOf s.history id = some k → k.revoked = false → time ≤ s.now → s.now < time + graceSeconds →
      s.db.VerifiesAs L secret s.now id

/-- No key in force was rotated again after a rotation whose grace is still open. -/
def RotatedOnce (s : KeySystem) : Prop :=
  ∀ id secret time after k, Replaces s.history id secret time after →
    lifeOf s.history id = some k → k.revoked = false → time ≤ s.now → s.now < time + graceSeconds →
      ∀ e ∈ after, KeyEvent.isRotation id e = false

section

variable {A : AuthLib} {L : KeyLib} {plain : PyStr → PyStr} {s : KeySystem}

/-- A replaced secret is one of the history. -/
theorem Replaces.mem_secretsOf {history after : List KeyEvent} {id secret : PyStr} {time : ℚ}
    (h : Replaces history id secret time after) : (id, secret) ∈ secretsOf history := by
  obtain ⟨before, new, k, rfl, hbefore, rfl⟩ := h
  unfold secretsOf
  rw [List.filterMap_append]
  exact List.mem_append_left _ (LayaWatch.mem_secretsOf before hbefore).1

/-- **The grace of rotations**, in every state that a run reaches: if no key in force was
rotated again after a rotation whose grace is open, every secret that is in its grace
verifies. Where rotations draw new secrets, that is the only way. -/
theorem rotation_grace (hs : s.Start) {ops : List KeyOp} (hwf : WellFormed L plain ops)
    (hdigests : L.Digests)
    (hfree : ∀ p ∈ secretsOf (s.run A L plain ops).history,
      Unambiguous L (secretsOf (s.run A L plain ops).history) p.2) :
    (RotatedOnce (s.run A L plain ops) → GraceComplete L (s.run A L plain ops)) ∧
      (DrawsFresh (s.run A L plain ops).history → GraceComplete L (s.run A L plain ops) →
        RotatedOnce (s.run A L plain ops)) := by
  have hkept := Kept.run (A := A) hs ops hwf
  have hslots := KeptBy.run (A := A) (tracks_showsGrace L) ops (KeptBy.initial hs) hwf
  constructor
  · intro honce id secret time after k hreplaces hk hlive hfrom hto
    obtain ⟨k', hk', hprev⟩ :=
      previous_of_latest hreplaces (honce id secret time after k hreplaces hk hlive hfrom hto)
    obtain rfl := Option.some.inj (hk.symm.trans hk')
    obtain ⟨row, hrow, rfl⟩ := hslots.there id k hk
    obtain ⟨k', hk', hgrace⟩ := hslots.rows row hrow
    obtain rfl := Option.some.inj (hk.symm.trans hk')
    -- the row has the secret in its second slot, and its grace has not ended
    obtain ⟨hcand, hmatch⟩ := hgrace.matches hdigests hlive hprev hto
    have hown := hreplaces.mem_secretsOf
    exact hkept.verifies (hfree _ hown) hrow (hgrace.slot hlive secret time hprev).1 hown hcand
      hmatch
  · intro hfresh hcomplete id secret time after k hreplaces hk hlive hfrom hto e he
    by_contra hne
    have hrot : KeyEvent.isRotation id e = true := Bool.eq_true_of_not_eq_false hne
    obtain ⟨k', hk', hcur, hprev⟩ := forgotten_of_later hreplaces hfresh
    obtain rfl := Option.some.inj (hk.symm.trans hk')
    -- the secret verifies, though the key has forgotten it
    have hverifies := hcomplete id secret time after k hreplaces hk hlive hfrom hto
    obtain ⟨k', hk', -, haccepts⟩ := hkept.sound (hfree _ hreplaces.mem_secretsOf) hverifies
    obtain rfl := Option.some.inj (hk.symm.trans hk')
    rcases haccepts with hcurrent | ⟨time', hprevious, -⟩
    · exact hcur hcurrent.symm
    · exact hprev ⟨e, he, hrot⟩ secret time' hprevious rfl

end

/-- A key that was rotated at most once was not rotated again. -/
theorem RotatedOnce.of_countP {s : KeySystem}
    (h : ∀ id, s.history.countP (KeyEvent.isRotation id) ≤ 1) : RotatedOnce s := by
  rintro id secret time after k ⟨before, new, k₀, hsplit, -, -⟩ - - - - e he
  have hcount := h id
  rw [hsplit, List.countP_append, List.countP_cons, KeyEvent.isRotation_rotated,
    if_pos (decide_eq_true rfl)] at hcount
  have hnone : after.countP (KeyEvent.isRotation id) = 0 := by omega
  exact Bool.eq_false_iff.mpr (List.countP_eq_zero.mp hnone e he)

/-- A key is created, and rotated 10 s later; then 100 s go by. -/
def oneRotation : List KeyOp :=
  [.create (adminRequest [(py "name", .str (py "client"))]) (py "new")
      (List.replicate 32 ⟨0, by decide⟩),
    .wait 10,
    .rotate (adminRequest []) (py "/api/v1/keys/new/rotate") (List.replicate 32 ⟨1, by decide⟩),
    .wait 100]

/-- And it is rotated again. -/
def twoRotations : List KeyOp :=
  oneRotation ++
    [.rotate (adminRequest []) (py "/api/v1/keys/new/rotate") (List.replicate 32 ⟨2, by decide⟩)]

/-- The secrets of the key. -/
def drawnSecret (i : Fin 62) : PyStr := generateSecret (List.replicate 32 i)

/-- After one rotation the old secret verifies. -/
theorem rotation_grace_oneRotation :
    GraceComplete markedKeys (adminSession.run textAuth markedKeys List.tail oneRotation) := by
  have hhistory : (adminSession.run textAuth markedKeys List.tail oneRotation).history =
      [.issued (py "new") (drawnSecret 0), .rotated (py "new") (drawnSecret 1) 10] := by
    decide +kernel
  have hsecrets : secretsOf (adminSession.run textAuth markedKeys List.tail oneRotation).history =
      [(py "new", drawnSecret 0), (py "new", drawnSecret 1)] := by
    rw [hhistory]
    rfl
  have hwf : WellFormed markedKeys List.tail oneRotation := by
    intro file hfile
    simp [oneRotation] at hfile
  refine (rotation_grace (A := textAuth) ⟨rfl, rfl⟩ hwf ?_ ?_).1
    (RotatedOnce.of_countP fun id => ?_)
  · exact fun secret => ⟨List.cons_ne_nil _ _, List.cons_ne_nil _ _⟩
  · rw [hsecrets]
    intro p hp
    simp only [List.mem_cons, List.not_mem_nil, or_false] at hp
    rcases hp with rfl | rfl
    · refine ⟨?_, ?_, ?_, ?_⟩ <;> decide +kernel
    · refine ⟨?_, ?_, ?_, ?_⟩ <;> decide +kernel
  · rw [hhistory, List.countP_cons, List.countP_singleton, KeyEvent.isRotation_issued,
      if_neg Bool.false_ne_true]
    split
    · exact Nat.le_refl _
    · exact Nat.zero_le _

/-- After two rotations within its grace, the first secret does not verify. -/
theorem second_rotation_ends_grace :
    ¬GraceComplete markedKeys (adminSession.run textAuth markedKeys List.tail twoRotations) := by
  have hhistory : (adminSession.run textAuth markedKeys List.tail twoRotations).history =
      [.issued (py "new") (drawnSecret 0), .rotated (py "new") (drawnSecret 1) 10,
        .rotated (py "new") (drawnSecret 2) 110] := by
    decide +kernel
  have hnow : (adminSession.run textAuth markedKeys List.tail twoRotations).now = 110 := by
    decide +kernel
  intro h
  have hverifies := h (py "new") (drawnSecret 0) 10 [.rotated (py "new") (drawnSecret 2) 110]
    ⟨drawnSecret 2, some (drawnSecret 1, 110), false⟩
    ⟨[.issued (py "new") (drawnSecret 0)], drawnSecret 1, ⟨drawnSecret 0, none, false⟩, hhistory,
      rfl, rfl⟩ (by rw [hhistory]; rfl) rfl (by rw [hnow]; decide)
    (by rw [hnow]; decide +kernel)
  rw [hnow] at hverifies
  exact absurd (congrArg Except.toOption hverifies) (by decide +kernel)

end LayaWatch
