import LayaWatch.Lib.Machine
import LayaWatch.Lib.Mutex

/-!
# The pepper of the keys

`load_pepper` of `engine/keys.py`, in any number of threads and processes at once: the file
`secret.key` is created by whoever comes first, and read by the others. Once its creator has
returned, it is what everybody reads who comes from then on (`one_pepper`). Whoever comes
while it is written reads a part of it, and does not notice. No part of a pepper is left
behind, unless its creator dies, or cannot remove it.
-/

namespace LayaWatch

/-! ## Loading -/

/-- Where a call of `load_pepper` is. -/
inductive LoaderPc where
  /-- before `os.open` -/
  | opening
  /-- it has created this file, and has this much still to write -/
  | writing (file : ℕ) (rest : List UInt8)
  /-- it has written all, and is before the end of the `with` -/
  | closing (file : ℕ)
  /-- it has failed, and is before `os.unlink` -/
  | unlinking (file : ℕ)
  /-- there is a file: before `open(path, "rb")` -/
  | finding
  /-- it has opened this file -/
  | reading (file : ℕ)
  /-- it has returned what it wrote -/
  | created (pepper : List UInt8)
  /-- it has returned what it read -/
  | found (pepper : List UInt8)
  /-- it has raised -/
  | raised
  /-- its process is gone -/
  | died
  /-- it has raised, or its process is gone, and it has left its file behind -/
  | left
  deriving DecidableEq

namespace LoaderPc

/-- It has created the file and is not done with it. -/
def works : LoaderPc → Bool
  | writing _ _ | closing _ | unlinking _ => true
  | _ => false

/-- It has not opened a file. -/
def isEarly : LoaderPc → Bool
  | opening | finding => true
  | _ => false

/-- It has ended. -/
def hasEnded : LoaderPc → Bool
  | created _ | found _ | raised | died | left => true
  | _ => false

end LoaderPc

/-- A call of `load_pepper`. -/
structure Loader where
  /-- `payload` -/
  payload : List UInt8
  /-- where it is -/
  pc : LoaderPc := .opening

/-- A file that has had the name `secret.key`. -/
structure PepperFile where
  /-- what is in it -/
  bytes : List UInt8
  /-- what is in it when it is written -/
  payload : List UInt8

/-- The state directory and the calls. -/
structure PepperDir where
  /-- the files that have had the name -/
  files : List PepperFile := []
  /-- the one that has it -/
  path : Option ℕ := none
  /-- the calls -/
  loaders : List Loader := []

/-- What a system call does. -/
structure LoaderEnv where
  /-- it raises -/
  fails : Bool := false
  /-- it writes at most this many bytes -/
  bytes : ℕ := 64

/-- What happens. -/
inductive PepperAct where
  /-- a call begins, with what `token_hex` gives it -/
  | load (payload : List UInt8)
  /-- the next step of a call -/
  | step (i : ℕ) (env : LoaderEnv)
  /-- its process dies -/
  | die (i : ℕ)

namespace PepperDir

/-- `os.open(path, O_WRONLY | O_CREAT | O_EXCL)`, of a name that is free. -/
def create (payload : List UInt8) (s : PepperDir) : PepperDir :=
  { s with files := s.files ++ [⟨[], payload⟩], path := some s.files.length }

/-- `write`. -/
def write (file : ℕ) (bytes : List UInt8) (s : PepperDir) : PepperDir :=
  { s with files := s.files.modify file fun f => { f with bytes := f.bytes ++ bytes } }

/-- Call `i` goes on. -/
def put (i : ℕ) (l : Loader) (s : PepperDir) : PepperDir :=
  { s with loaders := s.loaders.set i l }

/-- The next step of `load_pepper`. -/
def advance (s : PepperDir) (env : LoaderEnv) (l : Loader) : Option (PepperDir × Loader) :=
  match l.pc with
  | .opening =>
    if env.fails then some (s, { l with pc := .raised })
    else match s.path with
      | some _ => some (s, { l with pc := .finding })
      | none => some (s.create l.payload, { l with pc := .writing s.files.length l.payload })
  | .writing file rest =>
    if env.fails then some (s, { l with pc := .unlinking file })
    else
      let pc := if rest.drop env.bytes = [] then .closing file
        else .writing file (rest.drop env.bytes)
      some (s.write file (rest.take env.bytes), { l with pc := pc })
  | .closing file =>
    some (s, { l with pc := if env.fails then .unlinking file else .created l.payload })
  | .unlinking _ =>
    if env.fails then some (s, { l with pc := .left })
    else some ({ s with path := none }, { l with pc := .raised })
  | .finding =>
    match s.path, env.fails with
    | some file, false => some (s, { l with pc := .reading file })
    | _, _ => some (s, { l with pc := .raised })
  | .reading file =>
    match s.files[file]?, env.fails with
    | some f, false => some (s, { l with pc := .found f.bytes })
    | _, _ => some (s, { l with pc := .raised })
  | .created _ | .found _ | .raised | .died | .left => none

/-- One step. -/
def step (s : PepperDir) : PepperAct → Option PepperDir
  | .load payload => some { s with loaders := s.loaders ++ [{ payload := payload }] }
  | .step i env => do
    let l ← s.loaders[i]?
    let (s, l) ← s.advance env l
    return s.put i l
  | .die i => do
    let l ← s.loaders[i]?
    if l.pc.hasEnded then none
    else return s.put i { l with pc := if l.pc.works then .left else .died }

/-- A directory from the start of the program on: there is no file, or one that was put there. -/
def machine : Machine PepperDir PepperAct where
  init s := s = {} ∨ ∃ managed, s = { files := [⟨managed, managed⟩], path := some 0 }
  step := step

/-- Call `i` has created a file and is not done with it. -/
def Works (s : PepperDir) : ℕ → Prop := Threads.At (fun l => l.pc.works) s.loaders

/-- All of a pepper is in the file that has the name, and nobody is still at it. -/
def Settled (s : PepperDir) (pepper : List UInt8) : Prop :=
  (∃ file, s.path = some file ∧ s.files[file]? = some ⟨pepper, pepper⟩) ∧ ∀ i, ¬s.Works i

end PepperDir

/-! ## What holds in every run -/

/-- What a call knows of the files. -/
def Loader.Knows (s : PepperDir) (l : Loader) : Prop :=
  match l.pc with
  | .writing file rest => s.path = some file ∧
    ∃ bytes, s.files[file]? = some ⟨bytes, l.payload⟩ ∧ bytes ++ rest = l.payload
  | .closing file => s.path = some file ∧ s.files[file]? = some ⟨l.payload, l.payload⟩
  | .unlinking file => s.path = some file
  | .created pepper => s.Settled pepper
  | .found pepper => ∃ f ∈ s.files, pepper <+: f.payload
  | _ => True

/-- Why there is a file: somebody works on it, it is as it should be, or it was left behind. -/
def PepperDir.HasReason (s : PepperDir) : Prop :=
  (∃ i, s.Works i) ∨ (∃ pepper, s.Settled pepper) ∨ ∃ l ∈ s.loaders, l.pc = .left

/-- What holds of the directory. -/
structure PepperInv (s : PepperDir) : Prop where
  /-- a file has the beginning of what is written to it -/
  part : ∀ f ∈ s.files, f.bytes <+: f.payload
  /-- at most one call works on a file -/
  mutex : ∃ worker, Mutex worker s.Works
  /-- what the calls know -/
  knows : ∀ l ∈ s.loaders, l.Knows s
  /-- there is no file without a reason -/
  reason : s.path ≠ none → s.HasReason

section

variable {s t : PepperDir} {l l' e : Loader} {i : ℕ} {env : LoaderEnv} {p : List UInt8}

theorem settled_unique {q : List UInt8} (hp : s.Settled p) (hq : s.Settled q) : p = q := by
  obtain ⟨⟨file, hpath, hfile⟩, -⟩ := hp
  obtain ⟨⟨file', hpath', hfile'⟩, -⟩ := hq
  obtain rfl := Option.some.inj (hpath.symm.trans hpath')
  exact congrArg PepperFile.bytes (Option.some.inj (hfile.symm.trans hfile'))

/-- Whoever works on a file has made it the one with the name. -/
theorem path_of_works (hl : l.Knows s) (hworks : l.pc.works = true) : s.path ≠ none := by
  obtain ⟨payload, pc⟩ := l
  cases pc with
  | writing file rest =>
    rw [hl.1]
    exact Option.some_ne_none file
  | closing file =>
    rw [hl.1]
    exact Option.some_ne_none file
  | unlinking file =>
    rw [show s.path = some file from hl]
    exact Option.some_ne_none file
  | _ => cases hworks

/-! ## One step -/

/-- What a call may learn from a look at the directory. -/
structure Looks (s : PepperDir) (l : Loader) (pc : LoaderPc) : Prop where
  /-- it goes on -/
  goes : l.pc.hasEnded = false
  /-- it works on no file -/
  before : l.pc.works = false
  /-- nor does it after -/
  after : pc.works = false
  /-- it opens the file that has the name -/
  reading : ∀ file, pc = .reading file → s.path = some file
  /-- it reads what is in the file that it has opened -/
  found : ∀ p, pc = .found p → ∃ file f, l.pc = .reading file ∧ s.files[file]? = some f ∧
    f.bytes = p
  /-- it has created nothing -/
  created : ∀ p, pc ≠ .created p

/-- What a step of a call does, or its death. -/
inductive LoaderMoves (s : PepperDir) (l : Loader) : PepperDir → Loader → Prop
  /-- it looks at the directory -/
  | looks {pc : LoaderPc} : Looks s l pc → LoaderMoves s l s { l with pc := pc }
  /-- it creates the file -/
  | creates : l.pc = .opening → s.path = none → LoaderMoves s l (s.create l.payload)
      { l with pc := .writing s.files.length l.payload }
  /-- it writes some bytes -/
  | writes {file n : ℕ} {rest : List UInt8} : l.pc = .writing file rest →
      LoaderMoves s l (s.write file (rest.take n)) { l with
        pc := if rest.drop n = [] then .closing file else .writing file (rest.drop n) }
  /-- it is done -/
  | closes {file : ℕ} : l.pc = .closing file →
      LoaderMoves s l s { l with pc := .created l.payload }
  /-- it fails -/
  | fails {file : ℕ} : (∃ rest, l.pc = .writing file rest) ∨ l.pc = .closing file →
      LoaderMoves s l s { l with pc := .unlinking file }
  /-- it removes the file -/
  | unlinks {file : ℕ} : l.pc = .unlinking file →
      LoaderMoves s l { s with path := none } { l with pc := .raised }
  /-- it leaves the file behind -/
  | leaves : l.pc.works = true → LoaderMoves s l s { l with pc := .left }

theorem loaderMoves (h : s.advance env l = some (t, l')) : LoaderMoves s l t l' := by
  obtain ⟨payload, pc⟩ := l
  unfold PepperDir.advance at h
  cases pc with
  | opening =>
    dsimp only at h
    split at h
    · obtain ⟨rfl, rfl⟩ := Prod.mk.inj (Option.some.inj h)
      exact .looks ⟨rfl, rfl, rfl, nofun, nofun, nofun⟩
    · split at h
      · obtain ⟨rfl, rfl⟩ := Prod.mk.inj (Option.some.inj h)
        exact .looks ⟨rfl, rfl, rfl, nofun, nofun, nofun⟩
      · rename_i hpath
        obtain ⟨rfl, rfl⟩ := Prod.mk.inj (Option.some.inj h)
        exact .creates rfl hpath
  | writing file rest =>
    dsimp only at h
    split at h
    · obtain ⟨rfl, rfl⟩ := Prod.mk.inj (Option.some.inj h)
      exact .fails (Or.inl ⟨rest, rfl⟩)
    · obtain ⟨rfl, rfl⟩ := Prod.mk.inj (Option.some.inj h)
      exact .writes rfl
  | closing file =>
    obtain ⟨rfl, rfl⟩ := Prod.mk.inj (Option.some.inj h)
    split
    · exact .fails (Or.inr rfl)
    · exact .closes rfl
  | unlinking file =>
    dsimp only at h
    split at h
    · obtain ⟨rfl, rfl⟩ := Prod.mk.inj (Option.some.inj h)
      exact .leaves rfl
    · obtain ⟨rfl, rfl⟩ := Prod.mk.inj (Option.some.inj h)
      exact .unlinks rfl
  | finding =>
    dsimp only at h
    split at h
    · rename_i file hpath _
      obtain ⟨rfl, rfl⟩ := Prod.mk.inj (Option.some.inj h)
      exact .looks ⟨rfl, rfl, rfl, fun _ hfile => LoaderPc.reading.inj hfile ▸ hpath, nofun, nofun⟩
    · obtain ⟨rfl, rfl⟩ := Prod.mk.inj (Option.some.inj h)
      exact .looks ⟨rfl, rfl, rfl, nofun, nofun, nofun⟩
  | reading file =>
    dsimp only at h
    split at h
    · rename_i f hfile _
      obtain ⟨rfl, rfl⟩ := Prod.mk.inj (Option.some.inj h)
      exact .looks ⟨rfl, rfl, rfl, nofun,
        fun p hp => ⟨file, f, rfl, hfile, LoaderPc.found.inj hp⟩, nofun⟩
    · obtain ⟨rfl, rfl⟩ := Prod.mk.inj (Option.some.inj h)
      exact .looks ⟨rfl, rfl, rfl, nofun, nofun, nofun⟩
  | _ => cases h

theorem loaders_moves (h : LoaderMoves s l t l') : t.loaders = s.loaders := by
  cases h <;> rfl

theorem getElem?_put (hl : s.loaders[i]? = some l) (h : LoaderMoves s l t l') (j : ℕ) :
    (t.put i l').loaders[j]? = if j = i then some l' else s.loaders[j]? := by
  rw [PepperDir.put, loaders_moves h]
  exact Threads.getElem?_set_of_mem hl

/-- What happens to a file that is written to. -/
theorem getElem?_write (file j : ℕ) (bytes : List UInt8) : (s.write file bytes).files[j]? =
    (s.files[j]?).map fun f => if file = j then { f with bytes := f.bytes ++ bytes } else f := by
  rw [PepperDir.write, List.getElem?_modify]
  split
  · rfl
  · simp

/-- The payloads stay what they are. -/
theorem payload_moves {f : PepperFile} (h : LoaderMoves s l t l') (hf : f ∈ s.files) :
    ∃ f' ∈ t.files, f'.payload = f.payload := by
  cases h with
  | creates _ _ => exact ⟨f, List.mem_append_left _ hf, rfl⟩
  | @writes file n rest _ =>
    obtain ⟨j, hj⟩ := List.getElem?_of_mem hf
    have hwrite := getElem?_write (s := s) file j (rest.take n)
    rw [hj, Option.map_some] at hwrite
    refine ⟨_, List.mem_of_getElem? hwrite, ?_⟩
    split <;> rfl
  | _ => exact ⟨f, hf, rfl⟩

/-- What a call knows stays true if the files it works on do, and the pepper. -/
theorem Loader.Knows.keeps (h : e.Knows s)
    (hsame : e.pc.works = true → t.path = s.path ∧ t.files = s.files)
    (hsettled : ∀ p, s.Settled p → t.Settled p)
    (hfiles : ∀ f ∈ s.files, ∃ f' ∈ t.files, f'.payload = f.payload) : e.Knows t := by
  obtain ⟨payload, pc⟩ := e
  cases pc with
  | writing file rest =>
    obtain ⟨hpath, hfile⟩ := hsame rfl
    obtain ⟨hname, bytes, hat, hall⟩ := h
    exact ⟨hpath.trans hname, bytes, hfile ▸ hat, hall⟩
  | closing file =>
    obtain ⟨hpath, hfile⟩ := hsame rfl
    exact ⟨hpath.trans h.1, hfile ▸ h.2⟩
  | unlinking file => exact (hsame rfl).1.trans h
  | created p => exact hsettled p h
  | found p =>
    obtain ⟨f, hf, hpart⟩ := h
    obtain ⟨f', hf', hpayload⟩ := hfiles f hf
    exact ⟨f', hf', hpayload ▸ hpart⟩
  | _ => trivial

/-! ## Every step -/

/-- A file that has the pepper in it is not removed, nor written to. -/
theorem PepperDir.Settled.moves (h : s.Settled p) (hl : s.loaders[i]? = some l)
    (hmoves : LoaderMoves s l t l') : (t.put i l').Settled p ∧ ∃ pc, t = s ∧
      l' = { l with pc := pc } ∧ Looks s l pc := by
  obtain ⟨⟨file, hpath, hfile⟩, hnobody⟩ := h
  have hidle : l.pc.works = false :=
    Bool.eq_false_iff.mpr fun hworks => hnobody i ((Threads.at_iff hl).mpr hworks)
  cases hmoves with
  | looks hlooks =>
    refine ⟨⟨⟨file, hpath, hfile⟩, fun j hj => hnobody j ?_⟩, _, rfl, rfl, hlooks⟩
    exact (Threads.at_set_same hl (hlooks.after.trans hlooks.before.symm)).mp hj
  | creates _ hnone => cases hpath.symm.trans hnone
  | writes hpc | closes hpc | unlinks hpc => cases (congrArg LoaderPc.works hpc).symm.trans hidle
  | fails hpc =>
    rcases hpc with ⟨rest, hpc⟩ | hpc <;> cases (congrArg LoaderPc.works hpc).symm.trans hidle
  | leaves hworks => cases hworks.symm.trans hidle

/-- A call that creates the file is the only one to work on one. -/
theorem mutex_moves (h : PepperInv s) (hl : s.loaders[i]? = some l)
    (hmoves : LoaderMoves s l t l') : ∃ worker, Mutex worker (t.put i l').Works := by
  obtain ⟨worker, hmutex⟩ := h.mutex
  rw [PepperDir.Works, PepperDir.put, loaders_moves hmoves]
  refine Threads.mutex_set hmutex hl fun hbefore hafter j hj => ?_
  obtain ⟨e, he, hworks⟩ := hj
  have hpath := path_of_works (h.knows e (List.mem_of_getElem? he)) hworks
  cases hmoves with
  | looks hlooks => cases hlooks.after.symm.trans hafter
  | creates _ hnone => exact hpath hnone
  | writes hpc | closes hpc | unlinks hpc => cases (congrArg LoaderPc.works hpc).symm.trans hbefore
  | fails hpc =>
    rcases hpc with ⟨rest, hpc⟩ | hpc <;> cases (congrArg LoaderPc.works hpc).symm.trans hbefore
  | leaves hworks => cases hworks.symm.trans hbefore

/-- The beginning of a payload is in its file. -/
theorem part_moves (h : PepperInv s) (hl : s.loaders[i]? = some l)
    (hmoves : LoaderMoves s l t l') : ∀ f ∈ t.files, f.bytes <+: f.payload := by
  have hknows := h.knows l (List.mem_of_getElem? hl)
  cases hmoves with
  | creates _ _ =>
    intro f hf
    rcases List.mem_append.mp hf with hf | hf
    · exact h.part f hf
    · rw [List.mem_singleton.mp hf]
      exact List.nil_prefix
  | @writes file n rest hpc =>
    obtain ⟨payload, pc⟩ := l
    obtain rfl : pc = .writing file rest := hpc
    obtain ⟨-, bytes, hfile, hall⟩ := hknows
    intro f hf
    obtain ⟨j, hj⟩ := List.getElem?_of_mem hf
    rw [getElem?_write] at hj
    obtain ⟨f', hf', rfl⟩ := Option.map_eq_some_iff.mp hj
    split
    · rename_i hj
      subst hj
      obtain rfl := Option.some.inj (hfile.symm.trans hf')
      refine ⟨rest.drop n, ?_⟩
      rw [List.append_assoc, List.take_append_drop]
      exact hall
    · exact h.part f' (List.mem_of_getElem? hf')
  | _ => exact h.part

/-- What the call that moves knows then. -/
theorem knows_moves (h : PepperInv s) (hl : s.loaders[i]? = some l)
    (hmoves : LoaderMoves s l t l') : l'.Knows (t.put i l') := by
  have hknows := h.knows l (List.mem_of_getElem? hl)
  obtain ⟨payload, pc⟩ := l
  cases hmoves with
  | @looks pc' hlooks =>
    cases pc' with
    | writing _ _ => cases hlooks.after
    | closing _ => cases hlooks.after
    | unlinking _ => cases hlooks.after
    | created p => exact absurd rfl (hlooks.created p)
    | found p =>
      obtain ⟨file, f, -, hf, rfl⟩ := hlooks.found p rfl
      exact ⟨f, List.mem_of_getElem? hf, h.part f (List.mem_of_getElem? hf)⟩
    | _ => trivial
  | creates _ _ => exact ⟨rfl, [], List.getElem?_concat_length, rfl⟩
  | @writes file n rest hpc =>
    obtain rfl : pc = .writing file rest := hpc
    obtain ⟨hpath, bytes, hfile, hall⟩ := hknows
    have hwritten : (s.write file (rest.take n)).files[file]? =
        some ⟨bytes ++ rest.take n, payload⟩ := by
      rw [getElem?_write, hfile, Option.map_some, if_pos rfl]
    have hrest : (bytes ++ rest.take n) ++ rest.drop n = payload := by
      rw [List.append_assoc, List.take_append_drop]
      exact hall
    by_cases hend : rest.drop n = []
    · rw [if_pos hend]
      rw [hend, List.append_nil] at hrest
      rw [hrest] at hwritten
      exact ⟨hpath, hwritten⟩
    · rw [if_neg hend]
      exact ⟨hpath, _, hwritten, hrest⟩
  | @closes file hpc =>
    obtain rfl : pc = .closing file := hpc
    obtain ⟨worker, hmutex⟩ := h.mutex
    refine ⟨⟨file, hknows⟩, fun j hj => ?_⟩
    obtain ⟨hj, hne⟩ := (Threads.at_set_goes hl rfl).mp hj
    exact hne (hmutex.unique hj ((Threads.at_iff hl).mpr rfl))
  | fails hpc =>
    rcases hpc with ⟨rest, hpc⟩ | hpc
    · obtain rfl : pc = .writing _ rest := hpc
      exact hknows.1
    · obtain rfl : pc = .closing _ := hpc
      exact hknows.1
  | unlinks _ => trivial
  | leaves _ => trivial

/-- What the others know then. -/
theorem others_moves (h : PepperInv s) (hl : s.loaders[i]? = some l)
    (hmoves : LoaderMoves s l t l') {j : ℕ} (he : s.loaders[j]? = some e) (hj : j ≠ i) :
    e.Knows (t.put i l') := by
  have hknows := h.knows e (List.mem_of_getElem? he)
  refine hknows.keeps (fun hworks => ?_) (fun p hp => (hp.moves hl hmoves).1)
    fun f hf => payload_moves (t := t) hmoves hf
  obtain ⟨worker, hmutex⟩ := h.mutex
  have hidle : l.pc.works ≠ true := fun hother =>
    hj (hmutex.unique ((Threads.at_iff he).mpr hworks) ((Threads.at_iff hl).mpr hother))
  cases hmoves with
  | creates _ hnone => exact absurd hnone (path_of_works hknows hworks)
  | writes hpc | unlinks hpc => exact absurd (congrArg LoaderPc.works hpc) hidle
  | _ => exact ⟨rfl, rfl⟩

/-- There is a reason for the file then. -/
theorem reason_moves (h : PepperInv s) (hl : s.loaders[i]? = some l)
    (hmoves : LoaderMoves s l t l') (hpath : (t.put i l').path ≠ none) :
    (t.put i l').HasReason := by
  have hat : (t.put i l').loaders[i]? = some l' :=
    (getElem?_put hl hmoves i).trans (if_pos rfl)
  have hknows := knows_moves h hl hmoves
  by_cases hworks : l'.pc.works = true
  · exact Or.inl ⟨i, l', hat, hworks⟩
  cases hmoves with
  | looks hlooks =>
    rcases h.reason hpath with ⟨j, hj⟩ | ⟨p, hp⟩ | ⟨e, he, hleft⟩
    · refine Or.inl ⟨j, ?_⟩
      exact (Threads.at_set_same hl (hlooks.after.trans hlooks.before.symm)).mpr hj
    · exact Or.inr (Or.inl ⟨p, (hp.moves hl (.looks hlooks)).1⟩)
    · refine Or.inr (Or.inr ⟨e, ?_, hleft⟩)
      obtain ⟨j, hj⟩ := List.getElem?_of_mem he
      have hne : j ≠ i := by
        rintro rfl
        obtain rfl := Option.some.inj (hl.symm.trans hj)
        cases (congrArg LoaderPc.hasEnded hleft).symm.trans hlooks.goes
      exact List.mem_of_getElem? ((getElem?_put hl (.looks hlooks) j).trans
        ((if_neg hne).trans hj))
  | closes _ => exact Or.inr (Or.inl ⟨_, hknows⟩)
  | unlinks _ => exact absurd rfl hpath
  | leaves _ => exact Or.inr (Or.inr ⟨_, List.mem_of_getElem? hat, rfl⟩)
  | creates _ _ | fails _ => exact absurd rfl hworks
  | writes _ =>
    dsimp only at hworks
    split at hworks <;> exact absurd rfl hworks

/-- **What a call does keeps the directory in order.** -/
theorem PepperInv.moves (h : PepperInv s) (hl : s.loaders[i]? = some l)
    (hmoves : LoaderMoves s l t l') : PepperInv (t.put i l') where
  part := part_moves (t := t) h hl hmoves
  mutex := mutex_moves h hl hmoves
  knows := by
    intro e he
    obtain ⟨j, hj⟩ := List.getElem?_of_mem he
    rw [getElem?_put hl hmoves] at hj
    split at hj
    · rw [← Option.some.inj hj]
      exact knows_moves h hl hmoves
    · rename_i hne
      exact others_moves h hl hmoves hj hne
  reason := reason_moves h hl hmoves

end

/-! ## Every run -/

section

variable {s t m : PepperDir} {a : PepperAct} {l : Loader} {p : List UInt8}

/-- What an event does: a call begins, or one moves. -/
theorem loader_cases (h : PepperDir.step s a = some t) :
    (∃ payload, t = { s with loaders := s.loaders ++ [⟨payload, .opening⟩] }) ∨
    ∃ i l u l', s.loaders[i]? = some l ∧ LoaderMoves s l u l' ∧ t = u.put i l' := by
  cases a with
  | load payload => exact Or.inl ⟨payload, (Option.some.inj h).symm⟩
  | step i env =>
    obtain ⟨l, hl, h⟩ := Option.bind_eq_some_iff.mp h
    obtain ⟨⟨u, l'⟩, hadvance, h⟩ := Option.bind_eq_some_iff.mp h
    exact Or.inr ⟨i, l, u, l', hl, loaderMoves hadvance, (Option.some.inj h).symm⟩
  | die i =>
    obtain ⟨l, hl, h⟩ := Option.bind_eq_some_iff.mp h
    split at h
    · cases h
    rename_i hgoes
    refine Or.inr ⟨i, l, s, _, hl, ?_, (Option.some.inj h).symm⟩
    by_cases hworks : l.pc.works = true
    · rw [if_pos hworks]
      exact .leaves hworks
    · rw [if_neg hworks]
      exact .looks ⟨Bool.eq_false_iff.mpr hgoes, Bool.eq_false_iff.mpr hworks, rfl, nofun, nofun,
        nofun⟩

/-- A call that begins changes nothing of the pepper. -/
theorem PepperDir.Settled.load (h : s.Settled p) (payload : List UInt8) :
    PepperDir.Settled { s with loaders := s.loaders ++ [⟨payload, .opening⟩] } p :=
  ⟨h.1, fun i hi => h.2 i ((Threads.at_append rfl).mp hi)⟩

theorem PepperInv.load (h : PepperInv s) (payload : List UInt8) :
    PepperInv { s with loaders := s.loaders ++ [⟨payload, .opening⟩] } where
  part := h.part
  mutex := by
    obtain ⟨worker, hmutex⟩ := h.mutex
    exact ⟨worker, hmutex.congr fun i => Threads.at_append rfl⟩
  knows := by
    intro e he
    rcases List.mem_append.mp he with he | he
    · exact (h.knows e he).keeps (fun _ => ⟨rfl, rfl⟩) (fun p hp => hp.load payload)
        fun f hf => ⟨f, hf, rfl⟩
    · rw [List.mem_singleton.mp he]
      trivial
  reason := by
    intro hpath
    rcases h.reason hpath with ⟨i, hi⟩ | ⟨p, hp⟩ | ⟨e, he, hleft⟩
    · exact Or.inl ⟨i, (Threads.at_append rfl).mpr hi⟩
    · exact Or.inr (Or.inl ⟨p, hp.load payload⟩)
    · exact Or.inr (Or.inr ⟨e, List.mem_append_left _ he, hleft⟩)

theorem PepperInv.init (h : PepperDir.machine.init s) : PepperInv s := by
  have hnobody : ∀ {files path}, ∀ i, ¬PepperDir.Works { files := files, path := path } i :=
    fun i ⟨_, hi, _⟩ => nomatch hi
  rcases h with rfl | ⟨managed, rfl⟩
  · exact ⟨nofun, ⟨none, fun i => iff_of_false (hnobody i) nofun⟩, nofun, fun h => absurd rfl h⟩
  · refine ⟨fun f hf => ?_, ⟨none, fun i => iff_of_false (hnobody i) nofun⟩, nofun, fun _ => ?_⟩
    · obtain rfl := List.mem_singleton.mp hf
      exact List.prefix_rfl
    · exact Or.inr (Or.inl ⟨managed, ⟨0, rfl, rfl⟩, hnobody⟩)

theorem PepperInv.step (h : PepperInv s) (hs : PepperDir.step s a = some t) : PepperInv t := by
  rcases loader_cases hs with ⟨payload, rfl⟩ | ⟨i, l, u, l', hl, hmoves, rfl⟩
  · exact h.load payload
  · exact h.moves hl hmoves

theorem PepperInv.of_run {es : List (Machine.Event PepperDir PepperAct)}
    (hrun : PepperDir.machine.Run s es t) (h : PepperInv s) : PepperInv t :=
  (hrun.invariant (G := fun _ _ => True) (fun _ _ _ hI _ => hI.step) h fun _ _ => trivial).1

/-! ## Who comes later -/

/-- It has the pepper if it has anything. -/
def Loader.Late (s : PepperDir) (l : Loader) : Prop :=
  match l.pc with
  | .reading file => s.path = some file
  | .found pepper => s.Settled pepper
  | _ => True

/-- Since `m`, in which there was a pepper: it is there, and who came since has it. -/
structure PepperSince (m : PepperDir) (p : List UInt8) (s : PepperDir) : Prop where
  /-- it is there -/
  settled : s.Settled p
  /-- who has come since has it -/
  late : ∀ (i : ℕ) (l : Loader), s.loaders[i]? = some l →
    (∀ before, m.loaders[i]? = some before → before.pc.isEarly = true) → l.Late s

theorem Loader.Late.of_early (h : l.pc.isEarly = true) : l.Late s := by
  obtain ⟨payload, pc⟩ := l
  cases pc with
  | opening | finding => trivial
  | _ => cases h

theorem Loader.Late.keeps (h : l.Late s) (hpath : t.path = s.path)
    (hsettled : ∀ p, s.Settled p → t.Settled p) : l.Late t := by
  obtain ⟨payload, pc⟩ := l
  cases pc with
  | reading file => exact hpath.trans h
  | found p => exact hsettled p h
  | _ => trivial

theorem PepperSince.step (h : PepperSince m p s) (hs : PepperDir.step s a = some t) :
    PepperSince m p t := by
  rcases loader_cases hs with ⟨payload, rfl⟩ | ⟨i, l, u, l', hl, hmoves, rfl⟩
  · refine ⟨h.settled.load payload, fun j e he hearly => ?_⟩
    rcases Nat.lt_or_ge j s.loaders.length with hj | hj
    · rw [List.getElem?_append_left hj] at he
      exact (h.late j e he hearly).keeps rfl fun q hq => hq.load payload
    · rw [List.getElem?_append_right hj] at he
      rw [List.mem_singleton.mp (List.mem_of_getElem? he)]
      trivial
  · obtain ⟨hsettled, pc, rfl, rfl, hlooks⟩ := h.settled.moves hl hmoves
    refine ⟨hsettled, fun j e he hearly => ?_⟩
    rw [getElem?_put hl hmoves] at he
    split at he
    · rename_i hj
      subst hj
      obtain rfl := Option.some.inj he
      have hlate := h.late j l hl hearly
      cases pc with
      | reading file => exact hlooks.reading file rfl
      | found q =>
        obtain ⟨file, f, hpc, hf, rfl⟩ := hlooks.found q rfl
        obtain ⟨payload, pc⟩ := l
        obtain rfl : pc = .reading file := hpc
        -- it has opened the file with the pepper
        obtain ⟨⟨file', hpath, hfile⟩, -⟩ := h.settled
        obtain rfl := Option.some.inj (hpath.symm.trans hlate)
        obtain rfl := Option.some.inj (hfile.symm.trans hf)
        exact hsettled
      | _ => trivial
    · exact (h.late j e he hearly).keeps rfl fun q hq => (hq.moves hl hmoves).1

/-! ## One pepper -/

/-- What holds from `m` to `s`, later in the same run. -/
structure PepperKept (m s : PepperDir) : Prop where
  /-- the pepper stays -/
  stays : ∀ p, m.Settled p → s.Settled p
  /-- who comes after it is there reads it, if anything -/
  late : ∀ p, m.Settled p → ∀ (i : ℕ) (l : Loader) (q : List UInt8), s.loaders[i]? = some l →
    l.pc = .found q →
    (∀ before, m.loaders[i]? = some before → before.pc.isEarly = true) → q = p
  /-- what a creator has returned is there -/
  created : ∀ l ∈ s.loaders, ∀ p, l.pc = .created p → s.Settled p
  /-- what the others have returned is the beginning of what somebody was to write -/
  part : ∀ l ∈ s.loaders, ∀ p, l.pc = .found p → ∃ f ∈ s.files, p <+: f.payload
  /-- no file is left behind without somebody who has left it -/
  reason : s.path ≠ none → s.HasReason

/-- **One pepper.** However many calls of `load_pepper` there are, in whatever order they take
their steps, fail and die. -/
theorem one_pepper {o : PepperDir} {es fs : List (Machine.Event PepperDir PepperAct)}
    (hinit : PepperDir.machine.init o) (hrun : PepperDir.machine.Run o es m)
    (hmore : PepperDir.machine.Run m fs s) : PepperKept m s := by
  have hinv : PepperInv s := ((PepperInv.init hinit).of_run hrun).of_run hmore
  have hsince : ∀ p, m.Settled p → PepperSince m p s := fun p hp =>
    (hmore.invariant (G := fun _ _ => True) (fun _ _ _ hI _ => hI.step)
      ⟨hp, fun i l hl hearly => .of_early (hearly l hl)⟩ fun _ _ => trivial).1
  exact {
    stays := fun p hp => (hsince p hp).settled
    late := fun p hp i l q hl hpc hearly => by
      have hlate := (hsince p hp).late i l hl hearly
      obtain ⟨payload, pc⟩ := l
      obtain rfl : pc = .found q := hpc
      exact settled_unique hlate (hsince p hp).settled
    created := fun l hl p hpc => by
      have hknows := hinv.knows l hl
      obtain ⟨payload, pc⟩ := l
      obtain rfl : pc = .created p := hpc
      exact hknows
    part := fun l hl p hpc => by
      have hknows := hinv.knows l hl
      obtain ⟨payload, pc⟩ := l
      obtain rfl : pc = .found p := hpc
      exact hknows
    reason := hinv.reason }

end

/-- A call that creates the file, and one that comes later. -/
def twoLoads : List PepperAct × List PepperAct :=
  ([.load (List.replicate 64 97), .step 0 {}, .step 0 { bytes := 40 }, .step 0 {}, .step 0 {}],
    [.load (List.replicate 64 98), .step 1 {}, .step 1 {}, .step 1 {}])

theorem one_pepper_twoLoads :
    (PepperDir.machine.final {} (twoLoads.1 ++ twoLoads.2)).loaders.map Loader.pc =
        [.created (List.replicate 64 97), .found (List.replicate 64 97)] ∧
      PepperKept (PepperDir.machine.final {} twoLoads.1)
        (PepperDir.machine.final (PepperDir.machine.final {} twoLoads.1) twoLoads.2) :=
  ⟨by decide, one_pepper (Or.inl rfl) (Machine.Run.of_final (by decide))
    (Machine.Run.of_final (by decide))⟩

/-- One that comes while the file is written has a part of it. -/
example : (PepperDir.machine.final {} [.load (List.replicate 64 97), .load (List.replicate 64 98),
    .step 0 {}, .step 1 {}, .step 1 {}, .step 1 {}, .step 0 {}, .step 0 {}]).loaders.map
      Loader.pc = [.created (List.replicate 64 97), .found []] := by
  decide

end LayaWatch
