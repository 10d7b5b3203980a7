import LayaWatch.Lib.Utf8

/-!
# Event streams

The text format of server-sent events. A line ends at LF, CR or CRLF; it is a field name, a
colon, a space that may be missing, and a value. The fields `id`, `event` and `data` of the
lines up to a blank one make an event; without data there is none, and what no blank line ends
is not dispatched.

A block of lines that have no break in them is read as the event of its fields, whatever comes
after it (`parse_block`).
-/

namespace EventStream

open Utf8 (Point)

theorem char_lt (c : Char) : c.toNat < 0x110000 := by
  have h := c.valid
  unfold UInt32.isValidChar Nat.isValidChar at h
  unfold Char.toNat
  omega

/-- An ASCII text. -/
def ascii (s : String) : List Point := s.toList.map fun c => ⟨c.toNat, char_lt c⟩

/-- LF or CR. -/
def isBreak (c : Point) : Bool := decide (c.val = 10 ∨ c.val = 13)

/-- An event as its block has it. -/
structure Event where
  /-- the last `id` of the block -/
  id : Option (List Point) := none
  /-- the last `event` of the block -/
  event : Option (List Point) := none
  /-- every `data` of the block -/
  data : List (List Point) := []
  deriving DecidableEq

/-! ## Reading -/

/-- The lines of a text, after the start of a line; `afterCr` if the last character was a CR. -/
def linesFrom (afterCr : Bool) (line : List Point) : List Point → List (List Point)
  | [] => []
  | c :: rest =>
    if c.val = 13 then line :: linesFrom true [] rest
    else if c.val = 10 then
      -- the LF of a CRLF ends no line of its own
      if afterCr then linesFrom false [] rest else line :: linesFrom false [] rest
    else linesFrom false (line ++ [c]) rest

/-- A value, without the space in front. -/
def unspaced : List Point → List Point
  | [] => []
  | c :: rest => if c.val = 32 then rest else c :: rest

/-- The field of a line: its name and its value. -/
def field (line : List Point) : List Point × List Point :=
  (line.takeWhile (·.val ≠ 58), unspaced ((line.dropWhile (·.val ≠ 58)).drop 1))

namespace Event

/-- One more line of the block. -/
def read (e : Event) (line : List Point) : Event :=
  let (name, value) := field line
  if name = ascii "id" then { e with id := some value }
  else if name = ascii "event" then { e with event := some value }
  else if name = ascii "data" then { e with data := e.data ++ [value] }
  else e

end Event

/-- The events of lines, the first of which may go on with a block. -/
def dispatch (e : Event) : List (List Point) → List Event
  | [] => []
  | line :: rest =>
    if line.isEmpty then
      if e.data.isEmpty then dispatch {} rest else e :: dispatch {} rest
    else dispatch (e.read line) rest

/-- The events of a stream. -/
def parse (text : List Point) : List Event := dispatch {} (linesFrom false [] text)

/-! ## Lines -/

/-- A line without breaks ends at the LF behind it. -/
theorem linesFrom_line {line : List Point} (hline : ∀ c ∈ line, isBreak c = false)
    (start rest : List Point) :
    linesFrom false start (line ++ 10 :: rest) = (start ++ line) :: linesFrom false [] rest := by
  induction line generalizing start with
  | nil =>
    rw [List.append_nil, List.nil_append, linesFrom, if_neg (by decide), if_pos (by decide)]
    rfl
  | cons c line ih =>
    have hbreak := of_decide_eq_false (hline c List.mem_cons_self)
    have hrest : ∀ c ∈ line, isBreak c = false :=
      fun c hc => hline c (List.mem_cons_of_mem _ hc)
    rw [List.cons_append, linesFrom, if_neg (fun h => hbreak (.inr h)),
      if_neg (fun h => hbreak (.inl h)), ih hrest, List.append_assoc, List.singleton_append]

/-- Lines without breaks, each with an LF behind it. -/
theorem linesFrom_lines {lines : List (List Point)}
    (hlines : ∀ line ∈ lines, ∀ c ∈ line, isBreak c = false) (rest : List Point) :
    linesFrom false [] (lines.flatMap (· ++ [10]) ++ rest) = lines ++ linesFrom false [] rest := by
  induction lines with
  | nil => rfl
  | cons line lines ih =>
    have hrest : ∀ line ∈ lines, ∀ c ∈ line, isBreak c = false :=
      fun line hmem => hlines line (List.mem_cons_of_mem _ hmem)
    rw [List.flatMap_cons, List.append_assoc, List.append_assoc, List.singleton_append,
      linesFrom_line (hlines line List.mem_cons_self), List.nil_append, ih hrest, List.cons_append]

/-! ## Fields -/

/-- A name, a colon, a space and a value. -/
theorem field_spaced {name : List Point} (hname : ∀ c ∈ name, c.val ≠ 58) (value : List Point) :
    field (name ++ 58 :: 32 :: value) = (name, value) := by
  have htake : (name ++ 58 :: 32 :: value).takeWhile (·.val ≠ 58) = name := by
    rw [List.takeWhile_append_of_pos fun c hc => decide_eq_true (hname c hc),
      List.takeWhile_cons_of_neg (by decide), List.append_nil]
  have hdrop : (name ++ 58 :: 32 :: value).dropWhile (·.val ≠ 58) = 58 :: 32 :: value := by
    rw [List.dropWhile_append_of_pos fun c hc => decide_eq_true (hname c hc),
      List.dropWhile_cons_of_neg (by decide)]
  rw [field, htake, hdrop, List.drop_one, List.tail_cons, unspaced, if_pos (by decide)]

/-- The names of the fields have no colon. -/
theorem names_colonless {name : List Point}
    (h : name = ascii "id" ∨ name = ascii "event" ∨ name = ascii "data") :
    ∀ c ∈ name, c.val ≠ 58 := by
  have hall : (ascii "id" ++ ascii "event" ++ ascii "data").all (·.val ≠ 58) = true := by
    decide +kernel
  intro c hc
  refine of_decide_eq_true (List.all_eq_true.mp hall c ?_)
  rcases h with rfl | rfl | rfl
  · exact List.mem_append_left _ (List.mem_append_left _ hc)
  · exact List.mem_append_left _ (List.mem_append_right _ hc)
  · exact List.mem_append_right _ hc

namespace Event

/-- An `id` line. -/
theorem read_id (e : Event) (value : List Point) :
    e.read (ascii "id" ++ 58 :: 32 :: value) = { e with id := some value } := by
  rw [read, field_spaced (names_colonless (.inl rfl))]
  exact if_pos rfl

/-- An `event` line. -/
theorem read_event (e : Event) (value : List Point) :
    e.read (ascii "event" ++ 58 :: 32 :: value) = { e with event := some value } := by
  rw [read, field_spaced (names_colonless (.inr (.inl rfl)))]
  exact (if_neg (by decide)).trans (if_pos rfl)

/-- A `data` line. -/
theorem read_data (e : Event) (value : List Point) :
    e.read (ascii "data" ++ 58 :: 32 :: value) = { e with data := e.data ++ [value] } := by
  rw [read, field_spaced (names_colonless (.inr (.inr rfl)))]
  exact (if_neg (by decide)).trans ((if_neg (by decide)).trans (if_pos rfl))

end Event

/-! ## Blocks -/

/-- The lines of a block are read one after the other. -/
theorem dispatch_lines {lines : List (List Point)} (hlines : ∀ line ∈ lines, line ≠ [])
    (e : Event) (rest : List (List Point)) :
    dispatch e (lines ++ rest) = dispatch (lines.foldl Event.read e) rest := by
  induction lines generalizing e with
  | nil => rfl
  | cons line lines ih =>
    have hne : line.isEmpty = false :=
      List.isEmpty_eq_false_iff.mpr (hlines line List.mem_cons_self)
    rw [List.cons_append, dispatch, hne, if_neg Bool.false_ne_true, List.foldl_cons]
    exact ih (fun line hmem => hlines line (List.mem_cons_of_mem _ hmem)) _

/-- **A block of lines without breaks is its event, whatever comes after it.** -/
theorem parse_block {lines : List (List Point)} (hbreaks : ∀ line ∈ lines, ∀ c ∈ line,
    isBreak c = false) (hlines : ∀ line ∈ lines, line ≠ [])
    (hdata : (lines.foldl Event.read {}).data ≠ []) (rest : List Point) :
    parse (lines.flatMap (· ++ [10]) ++ 10 :: rest) =
      lines.foldl Event.read {} :: parse rest := by
  have hblank : linesFrom false [] (10 :: rest) = [] :: linesFrom false [] rest :=
    @linesFrom_line [] (fun _ h => absurd h List.not_mem_nil) [] rest
  have hsome : (lines.foldl Event.read {}).data.isEmpty = false :=
    List.isEmpty_eq_false_iff.mpr hdata
  rw [parse, linesFrom_lines hbreaks, hblank, dispatch_lines hlines, dispatch, List.isEmpty_nil,
    if_pos rfl, hsome, if_neg Bool.false_ne_true, parse]

end EventStream
