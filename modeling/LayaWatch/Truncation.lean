import LayaWatch.Redact

/-!
# Truncation

`scrub_text` cuts bytes and repairs what it cut by decoding leniently
(`scrubTextBytes`). What comes out is the longest start of the stripped text that fits
(`scrub_text_longest`), so that `scrubText`, which takes whole characters, is the same
function (`scrubTextBytes_eq`).
-/

namespace LayaWatch

namespace Redact

open CodePoint

/-- `scrub_text`, on the bytes of the text. -/
def scrubTextBytes (s : PyStr) (maxBytes : ℤ) : Except CaptureError PyStr :=
  if maxBytes < 0 then .error .value
  else
    let cleaned := s.filter isKept
    if PyStr.encodable cleaned then
      let encoded := Utf8.encode cleaned
      -- `errors="ignore"` makes nothing of a character that was cut
      if maxBytes < encoded.length then .ok (Utf8.decode [] (encoded.take maxBytes.toNat))
      else .ok cleaned
    else .error .unicodeEncode

/-! ## Whole characters -/

theorem utf8Length_eq (c : CodePoint) : c.utf8Length = (Utf8.encodeChar c).length := by
  unfold utf8Length Utf8.encodeChar
  split_ifs <;> rfl

/-- The characters that `scrubText` takes are those that are whole in the bytes. -/
theorem wholeChars_eq (s : PyStr) : ∀ room, wholeChars id room s = Utf8.whole room s := by
  induction s with
  | nil => exact fun _ => rfl
  | cons c s ih =>
    intro room
    rw [wholeChars, Utf8.whole, id, utf8Length_eq, ih]

/-- **Cutting bytes and decoding them leniently takes the whole characters.** -/
theorem scrubTextBytes_eq (s : PyStr) (maxBytes : ℤ) :
    scrubTextBytes s maxBytes = scrubText s maxBytes := by
  unfold scrubTextBytes scrubText
  split
  · rfl
  · next hneg =>
    dsimp only
    split
    · next hencodable =>
      rw [wholeChars_eq]
      split
      · rw [Utf8.decode_take_encode (PyStr.encodable_iff_scalar.mp hencodable)]
      · next hfits =>
        rw [Utf8.whole_of_size_le]
        unfold Utf8.size
        omega
    · rfl

/-! ## The longest start that fits -/

/-- `t` is the longest start of `s` whose bytes are at most `n`. -/
structure LongestFitting (n : ℤ) (s t : PyStr) : Prop where
  /-- it is a start -/
  start : t <+: s
  /-- it fits -/
  fits : (Utf8.encode t).length ≤ n
  /-- every other start that fits is a start of it -/
  longest : ∀ u, u <+: s → ((Utf8.encode u).length : ℤ) ≤ n → u <+: t

/-- There is only one. -/
theorem LongestFitting.unique {n : ℤ} {s t u : PyStr} (ht : LongestFitting n s t)
    (hu : LongestFitting n s u) : t = u :=
  (hu.longest t ht.start ht.fits).eq_of_length_le (ht.longest u hu.start hu.fits).length_le

/-- More room, more of the text. -/
theorem LongestFitting.mono {m n : ℤ} {s t u : PyStr} (ht : LongestFitting m s t)
    (hu : LongestFitting n s u) (hmn : m ≤ n) : t <+: u :=
  hu.longest t ht.start (ht.fits.trans hmn)

theorem longestFitting_whole (s : PyStr) (n : ℕ) : LongestFitting n s (Utf8.whole n s) where
  start := Utf8.whole_isPrefix s n
  fits := by exact_mod_cast Utf8.size_whole s n
  longest := fun u hu hn => Utf8.isPrefix_whole hu (by exact_mod_cast hn)

/-- What comes out fits, so that it comes out again. -/
theorem LongestFitting.self {n : ℤ} {s t : PyStr} (h : LongestFitting n s t) :
    LongestFitting n t t :=
  ⟨List.prefix_rfl, h.fits, fun _ hu _ => hu⟩

variable {s t : PyStr} {m : ℤ}

/-- What `scrub_text` makes of a text that can be encoded. -/
theorem scrubTextBytes_ok (hs : s.encodable = true) (hm : 0 ≤ m) :
    ∃ t, scrubTextBytes s m = .ok t ∧ LongestFitting m (s.filter isKept) t := by
  obtain ⟨n, rfl⟩ := Int.eq_ofNat_of_zero_le hm
  have hkept : PyStr.encodable (s.filter isKept) = true :=
    PyStr.encodable_iff_scalar.mpr fun c hc =>
      PyStr.encodable_iff_scalar.mp hs c (List.mem_of_mem_filter hc)
  refine ⟨Utf8.whole n (s.filter isKept), ?_, longestFitting_whole _ n⟩
  rw [scrubTextBytes_eq, ← wholeChars_eq]
  unfold scrubText
  rw [if_neg (by omega)]
  simp only [hkept, if_true, Int.toNat_natCast]

/-- A text that is stripped and that fits comes out as it is. -/
theorem scrubTextBytes_self (ht : t.encodable = true) (hkept : t.filter isKept = t)
    (hfits : LongestFitting m t t) (hm : 0 ≤ m) : scrubTextBytes t m = .ok t := by
  obtain ⟨u, hu, hlongest⟩ := scrubTextBytes_ok ht hm
  rw [hkept] at hlongest
  rw [hu, hlongest.unique hfits]

end Redact

open Redact in
/-- **`scrub_text` is the longest fitting start** of the stripped text; it changes nothing
the second time, and with more room it keeps at least as much. -/
theorem scrub_text_longest (s : PyStr) (hs : s.encodable = true) (m : ℤ) (hm : 0 ≤ m) :
    ∃ t, scrubTextBytes s m = .ok t ∧ LongestFitting m (s.filter isKept) t ∧
      scrubTextBytes t m = .ok t ∧
      ∀ n, m ≤ n → ∃ u, scrubTextBytes s n = .ok u ∧ t <+: u := by
  obtain ⟨t, ht, hlongest⟩ := scrubTextBytes_ok hs hm
  have hmem : ∀ c ∈ t, c ∈ s.filter isKept := fun c hc => hlongest.start.subset hc
  refine ⟨t, ht, hlongest, ?_, fun n hmn => ?_⟩
  · refine scrubTextBytes_self ?_ ?_ hlongest.self hm
    · exact PyStr.encodable_iff_scalar.mpr fun c hc =>
        PyStr.encodable_iff_scalar.mp hs c (List.mem_of_mem_filter (hmem c hc))
    · exact List.filter_eq_self.mpr fun c hc => (List.mem_filter.mp (hmem c hc)).2
  · obtain ⟨u, hu, hlonger⟩ := scrubTextBytes_ok hs (hm.trans hmn)
    exact ⟨u, hu, hlongest.mono hlonger hmn⟩

/-- Byte 3 is inside of the second `é`. -/
theorem scrub_text_longest_cut : ∃ t, Redact.scrubTextBytes [0xE9, 7, 0xE9] 3 = .ok t ∧
    Redact.LongestFitting 3 ([0xE9, 7, 0xE9].filter Redact.isKept) t ∧
      Redact.scrubTextBytes t 3 = .ok t ∧
      ∀ n, 3 ≤ n → ∃ u, Redact.scrubTextBytes [0xE9, 7, 0xE9] n = .ok u ∧ t <+: u :=
  scrub_text_longest [0xE9, 7, 0xE9] (by decide) 3 (by decide)

example : Redact.scrubTextBytes [0xE9, 7, 0xE9] 3 = .ok [0xE9] := by rfl

end LayaWatch
