import Mathlib.Data.List.Sort
import Mathlib.Order.Basic

/-!
# Numbered feeds and readers that resume

A feed is a list of numbered entries, in the order of their numbers. A reader that is cut
off comes back with the number of its last entry and is given what a window on the feed has
after it (`after`). What it has read then is in order and has nothing twice, whatever the
window is (`append_after_sublist`); and as long as the window reaches back far enough, nothing
is missing either (`after_window`).
-/

namespace Feed

universe u v

variable {ι : Type u} {β : Type v} [LinearOrder ι] {feed read rest window older : List (ι × β)}
  {e : ι × β}

/-- The entries are in the order of their numbers. -/
def Ordered (feed : List (ι × β)) : Prop := feed.Pairwise fun a b => a.1 < b.1

/-- The entries after the number `n`. -/
def after (n : ι) (feed : List (ι × β)) : List (ι × β) := feed.filter fun e => decide (n < e.1)

theorem Ordered.sublist (h : Ordered feed) (hread : read.Sublist feed) : Ordered read :=
  List.Pairwise.sublist hread h

/-- The last entry of a feed has the highest number. -/
theorem Ordered.le_last (h : Ordered read) (hlast : read.getLast? = some e) :
    ∀ d ∈ read, d.1 ≤ e.1 := by
  obtain ⟨front, rfl⟩ := List.getLast?_eq_some_iff.mp hlast
  intro d hd
  rcases List.mem_append.mp hd with hd | hd
  · exact ((List.pairwise_append.mp h).2.2 d hd e (List.mem_singleton_self e)).le
  · exact (congrArg Prod.fst (List.mem_singleton.mp hd)).le

theorem after_eq_nil (h : ∀ d ∈ feed, d.1 ≤ e.1) : after e.1 feed = [] :=
  List.filter_eq_nil_iff.mpr fun d hd hlt => absurd (of_decide_eq_true hlt) (not_lt.mpr (h d hd))

theorem after_eq_self (h : ∀ d ∈ feed, e.1 < d.1) : after e.1 feed = feed :=
  List.filter_eq_self.mpr fun d hd => decide_eq_true (h d hd)

theorem after_append (n : ι) (feed rest : List (ι × β)) :
    after n (feed ++ rest) = after n feed ++ after n rest := List.filter_append ..

/-- Behind what was read come the entries after it. -/
theorem Ordered.after_read (h : Ordered (read ++ rest)) (hlast : read.getLast? = some e) :
    after e.1 (read ++ rest) = rest := by
  obtain ⟨hread, -, hcross⟩ := List.pairwise_append.mp h
  have hmem : e ∈ read := List.mem_of_getLast? hlast
  rw [after_append, after_eq_nil (Ordered.le_last hread hlast),
    after_eq_self fun d hd => hcross e hmem d hd, List.nil_append]

/-- **A reader that resumes reads in order, and nothing twice.** -/
theorem append_after_sublist (hfeed : Ordered feed) (hread : read.Sublist feed)
    (hlast : read.getLast? = some e) (hwindow : window.Sublist feed) :
    (read ++ after e.1 window).Sublist feed := by
  obtain ⟨front, back, rfl⟩ := List.append_of_mem (hread.subset (List.mem_of_getLast? hlast))
  have hsplit : Ordered ((front ++ [e]) ++ back) := by
    rwa [List.append_assoc, List.singleton_append]
  rw [← List.singleton_append, ← List.append_assoc] at hread hwindow ⊢
  -- what was read lies up to its last entry, what the window has after it lies behind
  have hupto : (read.filter fun d => decide (d.1 ≤ e.1)).Sublist
      (((front ++ [e]) ++ back).filter fun d => decide (d.1 ≤ e.1)) := hread.filter _
  have hall : read.filter (fun d => decide (d.1 ≤ e.1)) = read :=
    List.filter_eq_self.mpr fun d hd =>
      decide_eq_true (Ordered.le_last (hsplit.sublist hread) hlast d hd)
  have hfront : ((front ++ [e]) ++ back).filter (fun d => decide (d.1 ≤ e.1)) = front ++ [e] := by
    obtain ⟨hfront, -, hcross⟩ := List.pairwise_append.mp hsplit
    have hle : ∀ d ∈ front ++ [e], d.1 ≤ e.1 :=
      Ordered.le_last hfront (List.getLast?_concat)
    rw [List.filter_append, List.filter_eq_self.mpr fun d hd => decide_eq_true (hle d hd),
      List.filter_eq_nil_iff.mpr fun d hd hle => absurd (of_decide_eq_true hle)
        (not_le.mpr (hcross e (List.mem_append_right _ (List.mem_singleton_self e)) d hd)),
      List.append_nil]
  have hback : (after e.1 window).Sublist back := by
    have hafter := Ordered.after_read hsplit (List.getLast?_concat)
    rw [← hafter]
    exact hwindow.filter _
  rw [hall, hfront] at hupto
  exact hupto.append hback

/-- **Nor does it miss anything**, as long as the window reaches back to where it was. -/
theorem after_window (hfeed : Ordered (older ++ read ++ rest)) (hlast : read.getLast? = some e)
    (hwindow : window <:+ older ++ read ++ rest) (hlength : rest.length ≤ window.length) :
    after e.1 window = rest := by
  obtain ⟨front, rfl⟩ := List.suffix_of_suffix_length_le (List.suffix_append (older ++ read) rest)
    hwindow hlength
  have hfront : front <:+ older ++ read := by
    obtain ⟨before, hbefore⟩ := hwindow
    rw [← List.append_assoc] at hbefore
    exact ⟨before, List.append_cancel_right hbefore⟩
  obtain ⟨hread, -, hcross⟩ := List.pairwise_append.mp hfeed
  have hend : (older ++ read).getLast? = some e := by
    rw [List.getLast?_append, hlast]
    rfl
  have hle := Ordered.le_last hread hend
  rw [after_append, after_eq_nil fun d hd => hle d (hfront.subset hd), List.nil_append]
  exact after_eq_self fun d hd => hcross e (List.mem_of_getLast? hend) d hd

end Feed
