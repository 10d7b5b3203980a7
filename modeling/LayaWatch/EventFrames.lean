import LayaWatch.JsonText
import LayaWatch.Stream
import LayaWatch.Lib.EventStream

/-!
# The bytes of frames

`_encode` of `api/stream.py`: an event as the bytes that are written to a client. Frames follow
each other without a length, so a client has to find where each one ends. It does, for any
payload and any name without a line break (`frames_read_back`): JSON text has no control
characters, so a blank line is the end of a frame and nothing else.

What a connection has written is read back too (`written_read_back`).
-/

namespace LayaWatch

/-- What `_encode` is called with. -/
structure SseEvent where
  /-- `name` -/
  name : PyStr
  /-- `payload` -/
  payload : Fields
  /-- `event_id` -/
  eventId : Option ℤ := none

/-- What a client makes of an event. -/
structure ReceivedEvent where
  /-- `id` -/
  id : Option ℤ
  /-- `event` -/
  event : PyStr
  /-- `data` -/
  data : Option Json

namespace SseEvent

variable (T : FloatText)

/-- The lines of a frame. -/
def lines (e : SseEvent) : List PyStr :=
  (match e.eventId with
    | some eventId => [py "id: " ++ JsonText.dumpsInt eventId]
    | none => []) ++
  [py "event: " ++ e.name, py "data: " ++ JsonText.dumps T (.obj e.payload)]

/-- The text of a frame: its lines and a blank one. -/
def text (e : SseEvent) : PyStr := (e.lines T).flatMap (· ++ py "\n") ++ py "\n"

/-- `_encode`; no bytes if `encode` raises. -/
def encode (e : SseEvent) : Option (List ℕ) :=
  if (e.text T).encodable then some (Utf8.encode (e.text T)) else none

end SseEvent

/-- `int` of a number and `json.loads` of a text, of what the event has. -/
def ReceivedEvent.of (T : FloatText) (e : EventStream.Event) : ReceivedEvent where
  id := e.id.bind JsonText.readInt
  event := e.event.getD (py "message")
  data := JsonText.loads T ((py "\n").intercalate e.data)

/-- What a client makes of a stream of bytes. -/
def receivedEvents (T : FloatText) (bytes : List ℕ) : List ReceivedEvent :=
  (EventStream.parse (Utf8.decode [0xFFFD] bytes)).map (.of T)

/-- What a client is to make of an event. -/
def SseEvent.received (e : SseEvent) : ReceivedEvent where
  id := e.eventId
  event := e.name
  data := some (.obj e.payload)

/-! ## One frame -/

section

variable {T : FloatText} {e : SseEvent}

theorem fieldNames : py "id: " = EventStream.ascii "id" ++ [58, 32] ∧
    py "event: " = EventStream.ascii "event" ++ [58, 32] ∧
    py "data: " = EventStream.ascii "data" ++ [58, 32] ∧ py "\n" = [10] := by
  decide +kernel

/-- Printable ASCII has no line breaks. -/
theorem not_isBreak {c : CodePoint} (h : c.isPrintable = true) :
    EventStream.isBreak c = false := by
  have hrange := of_decide_eq_true h
  exact decide_eq_false (by omega)

theorem dumpsInt_printable (n : ℤ) : ∀ c ∈ JsonText.dumpsInt n, c.isPrintable = true :=
  fun c hc => JsonText.isNumeric_printable (JsonText.dumpsInt_numeric n c hc)

theorem fieldNames_printable {name : PyStr}
    (h : name = py "id: " ∨ name = py "event: " ∨ name = py "data: ") :
    ∀ c ∈ name, c.isPrintable = true := by
  have hall : (py "id: " ++ py "event: " ++ py "data: ").all CodePoint.isPrintable = true := by
    decide +kernel
  intro c hc
  refine List.all_eq_true.mp hall c ?_
  rcases h with rfl | rfl | rfl
  · exact List.mem_append_left _ (List.mem_append_left _ hc)
  · exact List.mem_append_left _ (List.mem_append_right _ hc)
  · exact List.mem_append_right _ hc

/-- What a line of a frame is: a field name, and a number, the name of the event or JSON. -/
theorem mem_lines {line : PyStr} (h : line ∈ e.lines T) :
    (∃ n, line = py "id: " ++ JsonText.dumpsInt n) ∨ line = py "event: " ++ e.name ∨
      line = py "data: " ++ JsonText.dumps T (.obj e.payload) := by
  rcases List.mem_append.mp h with h | h
  · cases hid : e.eventId with
    | none =>
      rw [hid] at h
      cases h
    | some n =>
      rw [hid] at h
      exact .inl ⟨n, List.mem_singleton.mp h⟩
  · rcases List.mem_cons.mp h with h | h
    · exact .inr (.inl h)
    · exact .inr (.inr (List.mem_singleton.mp h))

/-- The lines of a frame have what the name of the event has, and printable ASCII. -/
theorem mem_line {line : PyStr} (h : line ∈ e.lines T) {c : CodePoint} (hc : c ∈ line) :
    c.isPrintable = true ∨ c ∈ e.name := by
  rcases mem_lines h with ⟨n, rfl⟩ | rfl | rfl
  · rcases List.mem_append.mp hc with hc | hc
    · exact .inl (fieldNames_printable (.inl rfl) c hc)
    · exact .inl (dumpsInt_printable n c hc)
  · rcases List.mem_append.mp hc with hc | hc
    · exact .inl (fieldNames_printable (.inr (.inl rfl)) c hc)
    · exact .inr hc
  · rcases List.mem_append.mp hc with hc | hc
    · exact .inl (fieldNames_printable (.inr (.inr rfl)) c hc)
    · exact .inl (JsonText.dumps_printable T _ c hc)

theorem line_ne_nil {line : PyStr} (h : line ∈ e.lines T) : line ≠ [] := by
  rcases mem_lines h with ⟨n, rfl⟩ | rfl | rfl
  · exact List.append_ne_nil_of_left_ne_nil (by decide) _
  · exact List.append_ne_nil_of_left_ne_nil (by decide) _
  · exact List.append_ne_nil_of_left_ne_nil (by decide) _

/-- The event of a frame, as its block has it. -/
theorem foldl_lines (e : SseEvent) :
    (e.lines T).foldl EventStream.Event.read {} =
      { id := e.eventId.map JsonText.dumpsInt
        event := some e.name
        data := [JsonText.dumps T (.obj e.payload)] } := by
  obtain ⟨hid, hevent, hdata, -⟩ := fieldNames
  have hread : ∀ name value : PyStr, name ++ [58, 32] ++ value = name ++ 58 :: 32 :: value :=
    fun name value => List.append_assoc ..
  unfold SseEvent.lines
  rw [hid, hevent, hdata, hread, hread]
  cases e.eventId with
  | none =>
    rw [List.nil_append, List.foldl_cons, List.foldl_cons, List.foldl_nil,
      EventStream.Event.read_event, EventStream.Event.read_data]
    rfl
  | some n =>
    dsimp only
    rw [hread, List.singleton_append, List.foldl_cons, List.foldl_cons, List.foldl_cons,
      List.foldl_nil, EventStream.Event.read_id, EventStream.Event.read_event,
      EventStream.Event.read_data]
    rfl

/-- A frame is read as its event, whatever comes after it. -/
theorem parse_text (hname : ∀ c ∈ e.name, EventStream.isBreak c = false) (rest : PyStr) :
    EventStream.parse (e.text T ++ rest) =
      (e.lines T).foldl EventStream.Event.read {} :: EventStream.parse rest := by
  obtain ⟨-, -, -, hbreak⟩ := fieldNames
  have hbreaks : ∀ line ∈ e.lines T, ∀ c ∈ line, EventStream.isBreak c = false := by
    intro line hline c hc
    rcases mem_line hline hc with hprint | hc
    · exact not_isBreak hprint
    · exact hname c hc
  rw [SseEvent.text, hbreak, List.append_assoc, List.singleton_append,
    EventStream.parse_block hbreaks (fun line hline => line_ne_nil hline)]
  rw [foldl_lines]
  exact List.cons_ne_nil _ _

/-- What a client makes of the event of a frame. -/
theorem of_lines (hloads : JsonText.loads T (JsonText.dumps T (.obj e.payload)) =
      some (.obj e.payload)) :
    ReceivedEvent.of T ((e.lines T).foldl EventStream.Event.read {}) = e.received := by
  have hid : (e.eventId.map JsonText.dumpsInt).bind JsonText.readInt = e.eventId := by
    cases e.eventId with
    | none => rfl
    | some n => exact JsonText.readInt_dumpsInt n
  have hdata : (py "\n").intercalate [JsonText.dumps T (.obj e.payload)] =
      JsonText.dumps T (.obj e.payload) := by
    simp [List.intercalate]
  rw [foldl_lines, ReceivedEvent.of, SseEvent.received]
  simp only [hid, hdata, hloads, Option.getD_some]

/-! ## A stream of frames -/

/-- The text of a stream is read as its events. -/
theorem parse_texts {events : List SseEvent}
    (hnames : ∀ e ∈ events, ∀ c ∈ e.name, EventStream.isBreak c = false) :
    EventStream.parse (events.flatMap fun e => e.text T) =
      events.map fun e => (e.lines T).foldl EventStream.Event.read {} := by
  induction events with
  | nil => rfl
  | cons e events ih =>
    rw [List.flatMap_cons, parse_text (hnames e List.mem_cons_self),
      ih fun e hmem => hnames e (List.mem_cons_of_mem _ hmem), List.map_cons]

/-- The bytes of frames are those of their texts. -/
theorem frames_decode {events : List SseEvent} {frames : List (List ℕ)}
    (hframes : List.Forall₂ (fun e frame => e.encode T = some frame) events frames) :
    Utf8.decode [0xFFFD] frames.flatten = events.flatMap fun e => e.text T := by
  have hbytes : frames.flatten = Utf8.encode (events.flatMap fun e => e.text T) ∧
      ∀ c ∈ events.flatMap fun e => e.text T, Utf8.IsScalar c := by
    induction hframes with
    | nil => exact ⟨rfl, fun _ h => nomatch h⟩
    | @cons e frame events frames hframe _ ih =>
      unfold SseEvent.encode at hframe
      split at hframe
      · next hencodable =>
        rw [List.flatten_cons, List.flatMap_cons, Utf8.encode_append, ← ih.1]
        refine ⟨by rw [Option.some.inj hframe], fun c hc => ?_⟩
        rcases List.mem_append.mp hc with hc | hc
        · exact PyStr.encodable_iff_scalar.mp hencodable c hc
        · exact ih.2 c hc
      · cases hframe
  rw [hbytes.1, Utf8.decode_encode hbytes.2]

/-- The frames of events are read as the events. -/
theorem receivedEvents_frames {events : List SseEvent} {frames : List (List ℕ)}
    (hframes : List.Forall₂ (fun e frame => e.encode T = some frame) events frames)
    (hnames : ∀ e ∈ events, ∀ c ∈ e.name, EventStream.isBreak c = false)
    (hloads : ∀ e ∈ events, JsonText.loads T (JsonText.dumps T (.obj e.payload)) =
      some (.obj e.payload)) :
    receivedEvents T frames.flatten = events.map SseEvent.received := by
  rw [receivedEvents, frames_decode hframes, parse_texts hnames, List.map_map]
  apply List.map_congr_left
  intro e he
  exact of_lines (hloads e he)

end

/-- **What a client makes of the frames of events, cut into writes in any way, is the events.** -/
theorem frames_read_back (T : FloatText) (events : List SseEvent)
    (frames writes : List (List ℕ))
    (hframes : List.Forall₂ (fun e frame => e.encode T = some frame) events frames)
    (hwrites : writes.flatten = frames.flatten)
    (hnames : ∀ e ∈ events, ∀ c ∈ e.name, EventStream.isBreak c = false)
    (hloads : ∀ e ∈ events, JsonText.loads T (JsonText.dumps T (.obj e.payload)) =
      some (.obj e.payload)) :
    receivedEvents T writes.flatten = events.map SseEvent.received := by
  rw [hwrites]
  exact receivedEvents_frames hframes hnames hloads

/-- A trace event and a ping. -/
def traceAndPing : List SseEvent :=
  [{ name := py "trace", payload := [(py "n", .int 1)], eventId := some 7 },
    { name := py "ping", payload := [] }]

/-- Their frames, cut in the middle of the first. -/
theorem frames_read_back_cut :
    receivedEvents wholeText.toFloatText
      [((traceAndPing.map fun e => Utf8.encode (e.text wholeText.toFloatText)).flatten).take 9,
        ((traceAndPing.map fun e => Utf8.encode (e.text wholeText.toFloatText)).flatten).drop 9
        ].flatten = traceAndPing.map SseEvent.received := by
  apply frames_read_back wholeText.toFloatText traceAndPing
    (traceAndPing.map fun e => Utf8.encode (e.text wholeText.toFloatText))
  · exact .cons (if_pos (by decide +kernel)) (.cons (if_pos (by decide +kernel)) .nil)
  · simp
  · have hall : traceAndPing.all (·.name.all fun c => !EventStream.isBreak c) = true := by
      decide +kernel
    intro e he c hc
    have hevent := List.all_eq_true.mp (List.all_eq_true.mp hall e he) c hc
    simpa using hevent
  · intro e he
    rcases List.mem_cons.mp he with rfl | he
    · rfl
    · rw [List.mem_singleton.mp he]
      rfl

/-! ## What a connection has written -/

namespace Frame

/-- What `_encode` is called with for a frame. -/
def sse : Frame → SseEvent
  | hello serverTime tick ringSize =>
    { name := py "hello"
      payload := [(py "server_time", .float serverTime), (py "tick", .float tick),
        (py "ring_size", .int ringSize)] }
  | event (.trace summary eventId) =>
    { name := py "trace", payload := summary, eventId := some eventId }
  | event (.log entry) => { name := py "log", payload := entry }
  | event (.model payload) => { name := py "model", payload := payload }
  | pulse payload => { name := py "pulse", payload := payload }
  | ping => { name := py "ping", payload := [] }

theorem sse_name_printable (f : Frame) : ∀ c ∈ f.sse.name, c.isPrintable = true := by
  have hall : [py "hello", py "trace", py "log", py "model", py "pulse", py "ping"].all
      (·.all CodePoint.isPrintable) = true := by decide +kernel
  have hmem : f.sse.name ∈
      [py "hello", py "trace", py "log", py "model", py "pulse", py "ping"] := by
    cases f with
    | event e => cases e <;> simp [sse]
    | _ => simp [sse]
  exact List.all_eq_true.mp (List.all_eq_true.mp hall _ hmem)

/-- The bytes of a frame. -/
def bytes (T : FloatText) (f : Frame) : List ℕ := Utf8.encode (f.sse.text T)

/-- `_encode` does not fail for a frame. -/
theorem encode_sse (T : FloatText) (f : Frame) : f.sse.encode T = some (f.bytes T) := by
  have hscalar : ∀ c ∈ f.sse.text T, Utf8.IsScalar c := by
    intro c hc
    have hsmall : c.val ≤ 126 := by
      have hbreak : ∀ c ∈ py "\n", c.val ≤ 126 := by
        intro c hc
        rw [fieldNames.2.2.2] at hc
        rw [List.mem_singleton.mp hc]
        decide
      rcases List.mem_append.mp hc with hc | hc
      · obtain ⟨line, hline, hc⟩ := List.mem_flatMap.mp hc
        rcases List.mem_append.mp hc with hc | hc
        · rcases mem_line hline hc with hprint | hname
          · exact (of_decide_eq_true hprint).2
          · exact (of_decide_eq_true (f.sse_name_printable c hname)).2
        · exact hbreak c hc
      · exact hbreak c hc
    unfold Utf8.IsScalar
    omega
  exact if_pos (PyStr.encodable_iff_scalar.mpr hscalar)

end Frame

/-- **What a connection has written is read as the events of its frames**, if their payloads
read back. -/
theorem written_read_back (T : FloatText) (client : StreamClient) (writes : List (List ℕ))
    (hwrites : writes.flatten = (client.written.map (Frame.bytes T)).flatten)
    (hloads : ∀ f ∈ client.written,
      JsonText.loads T (JsonText.dumps T (.obj f.sse.payload)) = some (.obj f.sse.payload)) :
    receivedEvents T writes.flatten = client.written.map fun f => f.sse.received := by
  have hframes : List.Forall₂ (fun e frame => e.encode T = some frame)
      (client.written.map Frame.sse) (client.written.map (Frame.bytes T)) := by
    rw [List.forall₂_map_left_iff, List.forall₂_map_right_iff, List.forall₂_same]
    exact fun f _ => f.encode_sse T
  rw [hwrites, receivedEvents_frames hframes, List.map_map]
  · rfl
  · intro e he c hc
    obtain ⟨f, -, rfl⟩ := List.mem_map.mp he
    exact not_isBreak (f.sse_name_printable c hc)
  · intro e he
    obtain ⟨f, hf, rfl⟩ := List.mem_map.mp he
    exact hloads f hf

end LayaWatch
