import Mathlib.Data.List.Sort
import Mathlib.Order.Basic

/-!
# Keyset pagination

A listing shows the rows of a table in the order of a key no two rows share. A
page is the first `limit` rows after a cursor, which is the key of the last row
of the page before; one row more is fetched, to see whether there is a next page.

`Walk` is a client that follows the cursors while the table changes between its
requests. Whatever the changes, the rows it is shown have increasing keys
(`Serves.increasing`), and if it reaches the last page, it has been shown every
row that was there at each of its requests (`Serves.complete`). Over a table that
does not change it reaches the last page (`Serves.ends`) and has been shown the
table in order (`Serves.exact`). `Paginates` says all of that. A client that stops as
soon as it has enough rows (`collect`) has been shown the first ones (`Serves.covers`).

The service is any function that answers with the page, under an encoding of the
cursors (`Serves`).
-/

universe u v w x

namespace Keyset

variable {α : Type u} {κ : Type v} [LinearOrder κ]

/-- A page: its rows, and the cursor of the next one. -/
structure Page (α : Type u) (χ : Type w) where
  /-- the rows -/
  items : List α
  /-- where the next page starts, if there is one -/
  next : Option χ

/-- The same page with its cursor encoded. -/
def Page.encode {χ : Type w} {χ' : Type x} (f : χ → χ') (page : Page α χ) : Page α χ' :=
  ⟨page.items, page.next.map f⟩

variable (key : α → κ)

/-- Rows in the order of their keys. -/
def sorted (rows : List α) : List α := rows.insertionSort fun a b => key a ≤ key b

/-- The key is after the cursor; without a cursor, every key is. -/
def past (c : Option κ) (k : κ) : Bool :=
  match c with
  | none => true
  | some c => decide (c < k)

/-- The rows after a cursor, in order. -/
def rest (c : Option κ) (rows : List α) : List α :=
  sorted key (rows.filter fun row => past c (key row))

/-- The page after a cursor, found by looking for one row more. -/
def page (limit : ℕ) (rows : List α) (c : Option κ) : Page α κ :=
  let found := (rest key c rows).take (limit + 1)
  let items := found.take limit
  ⟨items, if limit < found.length then items.getLast?.map key else none⟩

variable {key}

/-! ## Sorting -/

theorem mem_sorted {rows : List α} {row : α} : row ∈ sorted key rows ↔ row ∈ rows :=
  List.mem_insertionSort _

theorem sorted_perm (rows : List α) : (sorted key rows).Perm rows := List.perm_insertionSort _ _

theorem sorted_increasing {rows : List α} (h : (rows.map key).Nodup) :
    (sorted key rows).Pairwise fun a b => key a < key b := by
  have hle : (sorted key rows).Pairwise fun a b => key a ≤ key b := by
    have : Std.Total (fun a b : α => key a ≤ key b) := ⟨fun a b => le_total _ _⟩
    have : IsTrans α (fun a b : α => key a ≤ key b) := ⟨fun _ _ _ => le_trans⟩
    exact List.pairwise_insertionSort _ rows
  have hne : (sorted key rows).Pairwise fun a b => key a ≠ key b :=
    List.pairwise_map.mp (((sorted_perm rows).map key).nodup_iff.mpr h)
  exact (hle.and hne).imp fun h => lt_of_le_of_ne h.1 h.2

/-- Two lists of the same rows with increasing keys are equal. -/
theorem eq_of_increasing {l l' : List α} (hl : l.Pairwise fun a b => key a < key b)
    (hl' : l'.Pairwise fun a b => key a < key b) (h : l.Perm l') : l = l' :=
  h.eq_of_pairwise (fun _ _ _ _ hab hba => absurd hab (lt_asymm hba)) hl hl'

omit [LinearOrder κ] in
theorem nodup_filter {rows : List α} (h : (rows.map key).Nodup) (p : α → Bool) :
    ((rows.filter p).map key).Nodup :=
  h.sublist (List.filter_sublist.map key)

/-- Filtering keeps the order. -/
theorem sorted_filter {rows : List α} (h : (rows.map key).Nodup) (p : α → Bool) :
    sorted key (rows.filter p) = (sorted key rows).filter p :=
  eq_of_increasing (sorted_increasing (nodup_filter h p)) ((sorted_increasing h).filter p)
    ((sorted_perm _).trans ((sorted_perm rows).filter p).symm)

/-! ## One page -/

theorem past_trans {c : Option κ} {k k' : κ} (h : past c k = true) (hlt : k < k') :
    past c k' = true := by
  rcases c with _ | c
  · rfl
  · exact decide_eq_true (lt_trans (of_decide_eq_true h) hlt)

theorem rest_increasing {rows : List α} (h : (rows.map key).Nodup) (c : Option κ) :
    (rest key c rows).Pairwise fun a b => key a < key b :=
  sorted_increasing (nodup_filter h _)

theorem mem_rest {rows : List α} {c : Option κ} {row : α} :
    row ∈ rest key c rows ↔ row ∈ rows ∧ past c (key row) = true := by
  unfold rest
  rw [mem_sorted, List.mem_filter]

/-- The row more that is fetched only says whether there is a next page. -/
theorem page_eq (limit : ℕ) (rows : List α) (c : Option κ) :
    page key limit rows c = ⟨(rest key c rows).take limit,
      if limit < (rest key c rows).length then ((rest key c rows).take limit).getLast?.map key
      else none⟩ := by
  have hlen : limit < ((rest key c rows).take (limit + 1)).length ↔
      limit < (rest key c rows).length := by
    rw [List.length_take]
    omega
  unfold page
  simp only [List.take_take, Nat.min_eq_left (Nat.le_succ limit), hlen]

/-- Without a next page, the page has all the rows that are left. -/
theorem page_last {limit : ℕ} {rows : List α} {c : Option κ} (hpos : 1 ≤ limit)
    (h : (page key limit rows c).next = none) :
    (page key limit rows c).items = rest key c rows := by
  rw [page_eq] at h ⊢
  dsimp only at h ⊢
  refine List.take_of_length_le ?_
  by_contra hlen
  rw [if_pos (not_le.mp hlen), Option.map_eq_none_iff, List.getLast?_eq_none_iff,
    List.take_eq_nil_iff] at h
  rcases h with h | h
  · omega
  · rw [h] at hlen
    exact hlen (Nat.zero_le _)

/-- With a next page, the cursor is the key of the last row of a full page, and
what is left is what is past it. -/
theorem page_more {limit : ℕ} {rows : List α} {c : Option κ} {k : κ}
    (hnodup : (rows.map key).Nodup) (h : (page key limit rows c).next = some k) :
    ∃ row ∈ (page key limit rows c).items, key row = k ∧
      (∀ r ∈ (page key limit rows c).items, key r ≤ k) ∧ past c k = true ∧
      rest key c rows = (page key limit rows c).items ++ rest key (some k) rows := by
  have hitems : (page key limit rows c).items = (rest key c rows).take limit := by
    rw [page_eq]
  have hnext : (page key limit rows c).items.getLast?.map key = some k := by
    rw [hitems]
    rw [page_eq] at h
    dsimp only at h
    split at h
    · exact h
    · cases h
  obtain ⟨row, hlast, rfl⟩ := Option.map_eq_some_iff.mp hnext
  obtain ⟨before, hbefore⟩ := List.getLast?_eq_some_iff.mp hlast
  have hmem : row ∈ (page key limit rows c).items := by
    rw [hbefore]
    exact List.mem_append_right _ (List.mem_singleton_self row)
  -- the rows after the cursor split into the page and what is left
  have hsplit : rest key c rows =
      (page key limit rows c).items ++ (rest key c rows).drop limit := by
    rw [hitems]
    exact (List.take_append_drop limit _).symm
  have hincr := rest_increasing hnodup c
  rw [hsplit] at hincr
  obtain ⟨hpage, -, hcross⟩ := List.pairwise_append.mp hincr
  have hle : ∀ r ∈ (page key limit rows c).items, key r ≤ key row := by
    intro r hr
    rw [hbefore] at hr hpage
    rcases List.mem_append.mp hr with hr | hr
    · exact le_of_lt ((List.pairwise_append.mp hpage).2.2 r hr row (List.mem_singleton_self row))
    · rw [List.mem_singleton.mp hr]
  have hpast : past c (key row) = true :=
    (mem_rest.mp (hsplit ▸ List.mem_append_left _ hmem)).2
  refine ⟨row, hmem, rfl, hle, hpast, ?_⟩
  have hrest : rest key (some (key row)) rows =
      (rest key c rows).filter fun r => decide (key row < key r) := by
    unfold rest
    rw [← sorted_filter (nodup_filter hnodup _), List.filter_filter]
    refine congrArg (sorted key) (List.filter_congr fun r _ => ?_)
    -- what is past the last row of the page is past the cursor
    by_cases hlt : key row < key r
    · rw [past_trans hpast hlt, Bool.and_true]
      rfl
    · rw [past, decide_eq_false hlt, Bool.false_and]
  rw [hrest, hsplit, List.filter_append, List.filter_eq_nil_iff.mpr, List.nil_append,
    List.filter_eq_self.mpr]
  · intro r hr
    exact decide_eq_true (hcross row hmem r hr)
  · intro r hr
    rw [decide_eq_true_eq]
    exact not_lt.mpr (hle r hr)

/-! ## Walks -/

variable {σ : Type w} {χ : Type x}

/-- A client that follows the cursors from `c` on, one request for each of the
states, is shown these rows in the end. With `true`, its last page was the last
one. -/
inductive Walk (request : Option χ → σ → Option (Page α χ)) :
    Option χ → List σ → List α → Bool → Prop
  /-- it asks no more -/
  | stop (c : Option χ) : Walk request c [] [] false
  /-- the last page -/
  | last {c : Option χ} {s : σ} {page : Page α χ} :
      request c s = some page → page.next = none → Walk request c [s] page.items true
  /-- a page, and what follows it -/
  | more {c : Option χ} {s : σ} {page : Page α χ} {t : χ} {later : List σ} {items : List α}
      {done : Bool} :
      request c s = some page → page.next = some t → Walk request (some t) later items done →
      Walk request c (s :: later) (page.items ++ items) done

/-- A client that follows the cursors, its `n`-th request first, until it has `enough` rows or
the last page. `none` says that there was no fuel left, or no page. -/
def collect (request : Option χ → σ → Option (Page α χ)) (states : ℕ → σ) (enough : ℕ) :
    ℕ → ℕ → Option χ → List α → Option (List α)
  | 0, _, _, _ => none
  | fuel + 1, n, c, items =>
    if items.length < enough then
      match request c (states n) with
      | none => none
      | some page =>
        match page.next with
        | none => some (items ++ page.items)
        | some t => collect request states enough fuel (n + 1) (some t) (items ++ page.items)
    else some items

variable (key)

/-- What a listing owes a client that follows its cursors, where `rows` are the rows
it lists. -/
structure Paginates (request : Option χ → σ → Option (Page α χ)) (rows : σ → List α) : Prop where
  /-- while the table does not change, the client reaches the last page -/
  ends : ∀ s, ∃ n items, Walk request none (List.replicate n s) items true
  /-- and has been shown the table in order -/
  exact : ∀ s n items, Walk request none (List.replicate n s) items true →
    items = sorted key (rows s)
  /-- whatever happens to the table between the requests, no row is shown twice -/
  increasing : ∀ states items done, Walk request none states items done →
    items.Pairwise fun a b => key a < key b
  /-- and each that is shown was there -/
  sound : ∀ states items done, Walk request none states items done →
    ∀ r ∈ items, ∃ s ∈ states, r ∈ rows s
  /-- and on the last page, a row that was there at each request has been shown once -/
  once : ∀ states items, Walk request none states items true →
    ∀ k, (∀ s ∈ states, k ∈ (rows s).map key) → (items.map key).count k = 1

/-- `request` serves the pages of `rows`, with cursors encoded by `encode`: the
first page, and the page after the key of any row that some state has or had. -/
structure Serves (request : Option χ → σ → Option (Page α χ)) (encode : κ → χ)
    (rows : σ → List α) (limit : ℕ) : Prop where
  /-- a page may have a row -/
  pos : 1 ≤ limit
  /-- no two rows have one key -/
  nodup : ∀ s, ((rows s).map key).Nodup
  /-- the first page -/
  first : ∀ s, request none s = some ((page key limit (rows s) none).encode encode)
  /-- a later page -/
  later : ∀ s s' row, row ∈ rows s' → request (some (encode (key row))) s =
    some ((page key limit (rows s) (some (key row))).encode encode)

variable {key} {request : Option χ → σ → Option (Page α χ)} {encode : κ → χ} {rows : σ → List α}
  {limit : ℕ}

namespace Serves

/-- A cursor the service may have given out. -/
def Given (_h : Serves key request encode rows limit) (c : Option κ) : Prop :=
  ∀ k, c = some k → ∃ s, ∃ row ∈ rows s, key row = k

variable (h : Serves key request encode rows limit)

theorem given_none : h.Given none := fun k hk => by cases hk

theorem request_eq {c : Option κ} (hc : h.Given c) (s : σ) :
    request (c.map encode) s = some ((page key limit (rows s) c).encode encode) := by
  rcases c with _ | k
  · exact h.first s
  · obtain ⟨s', row, hrow, rfl⟩ := hc k rfl
    exact h.later s s' row hrow

/-- What a page that is not the last one says. -/
theorem next_spec {s : σ} {c : Option κ} {k : κ}
    (hnext : (page key limit (rows s) c).next = some k) :
    h.Given (some k) ∧ past c k = true ∧
      (∀ r ∈ (page key limit (rows s) c).items, key r ≤ k) ∧
      rest key c (rows s) = (page key limit (rows s) c).items ++ rest key (some k) (rows s) := by
  obtain ⟨row, hrow, rfl, hle, hpast, hsplit⟩ := page_more (h.nodup s) hnext
  have hmem : row ∈ rest key c (rows s) := hsplit ▸ List.mem_append_left _ hrow
  exact ⟨fun k hk => ⟨s, row, (mem_rest.mp hmem).1, Option.some.inj hk⟩, hpast, hle, hsplit⟩

include h in
/-- The rows of a page are increasing, past the cursor, and rows of the table. -/
theorem items_spec (s : σ) (c : Option κ) :
    ((page key limit (rows s) c).items.Pairwise fun a b => key a < key b) ∧
      ∀ r ∈ (page key limit (rows s) c).items, past c (key r) = true ∧ r ∈ rows s := by
  have hitems : (page key limit (rows s) c).items = (rest key c (rows s)).take limit := by
    rw [page_eq]
  rw [hitems]
  refine ⟨(rest_increasing (h.nodup s) c).sublist (List.take_sublist _ _), fun r hr => ?_⟩
  exact (mem_rest.mp (List.mem_of_mem_take hr)).symm

include h in
/-- The induction over a walk: it is that of the pages, with the cursors decoded. -/
theorem walk_induction {P : Option κ → List σ → List α → Bool → Prop}
    (hstop : ∀ c, P c [] [] false)
    (hlast : ∀ c s, (page key limit (rows s) c).next = none →
      P c [s] (page key limit (rows s) c).items true)
    (hmore : ∀ c s k later items done, (page key limit (rows s) c).next = some k →
      P (some k) later items done →
      P c (s :: later) ((page key limit (rows s) c).items ++ items) done)
    {states : List σ} {items : List α} {done : Bool}
    (hwalk : Walk request none states items done) : P none states items done := by
  have hall : ∀ {t : Option χ} {states : List σ} {items : List α} {done : Bool},
      Walk request t states items done → ∀ c : Option κ, t = c.map encode → h.Given c →
      P c states items done := by
    intro t states items done hwalk
    induction hwalk with
    | stop t => exact fun c _ _ => hstop c
    | @last t s pg hreq hnext =>
      rintro c rfl hc
      obtain rfl := Option.some.inj ((h.request_eq hc s).symm.trans hreq)
      exact hlast c s (Option.map_eq_none_iff.mp hnext)
    | @more t s pg t' later items done hreq hnext _ ih =>
      rintro c rfl hc
      obtain rfl := Option.some.inj ((h.request_eq hc s).symm.trans hreq)
      obtain ⟨k, hk, rfl⟩ := Option.map_eq_some_iff.mp hnext
      exact hmore c s k later items done hk (ih (some k) rfl (h.next_spec hk).1)
  exact hall hwalk none rfl h.given_none

include h in
/-- **No row twice.** Whatever happens to the table between the requests, the
client is shown rows with increasing keys, each of them a row of the table it was
shown it from. -/
theorem increasing {states : List σ} {items : List α} {done : Bool}
    (hwalk : Walk request none states items done) :
    (items.Pairwise fun a b => key a < key b) ∧ ∀ r ∈ items, ∃ s ∈ states, r ∈ rows s := by
  have hall := h.walk_induction (P := fun c states items _ =>
    (items.Pairwise fun a b => key a < key b) ∧
      ∀ r ∈ items, past c (key r) = true ∧ ∃ s ∈ states, r ∈ rows s)
    (fun c => ⟨List.Pairwise.nil, fun r hr => by cases hr⟩)
    (fun c s _ => ?_) (fun c s k later items done hnext ih => ?_) hwalk
  · exact ⟨hall.1, fun r hr => (hall.2 r hr).2⟩
  · obtain ⟨hincr, hrows⟩ := h.items_spec s c
    exact ⟨hincr, fun r hr => ⟨(hrows r hr).1, s, List.mem_singleton_self s, (hrows r hr).2⟩⟩
  · obtain ⟨hincr, hrows⟩ := h.items_spec s c
    obtain ⟨-, hpast, hle, -⟩ := h.next_spec hnext
    refine ⟨List.pairwise_append.mpr ⟨hincr, ih.1, fun a ha b hb => ?_⟩, fun r hr => ?_⟩
    · exact lt_of_le_of_lt (hle a ha) (of_decide_eq_true (ih.2 b hb).1)
    · rcases List.mem_append.mp hr with hr | hr
      · exact ⟨(hrows r hr).1, s, List.mem_cons_self .., (hrows r hr).2⟩
      · obtain ⟨hk, s', hs', hrow⟩ := ih.2 r hr
        exact ⟨past_trans hpast (of_decide_eq_true hk), s', List.mem_cons_of_mem s hs', hrow⟩

include h in
/-- **No row missed.** A client that has reached the last page has been shown
every key that was there at each of its requests. -/
theorem complete {states : List σ} {items : List α}
    (hwalk : Walk request none states items true) {k : κ}
    (hk : ∀ s ∈ states, k ∈ (rows s).map key) : k ∈ items.map key := by
  have hall := h.walk_induction (P := fun c states items done => done = true →
    ∀ k, (∀ s ∈ states, k ∈ (rows s).map key) → past c k = true → k ∈ items.map key)
    (fun c hdone => by cases hdone) (fun c s hnext _ k hk hpast => ?_)
    (fun c s k' later items done hnext ih hdone k hk hpast => ?_) hwalk
  · exact hall rfl k hk rfl
  · obtain ⟨r, hr, rfl⟩ := List.mem_map.mp (hk s (List.mem_singleton_self s))
    rw [page_last h.pos hnext]
    exact List.mem_map_of_mem (mem_rest.mpr ⟨hr, hpast⟩)
  · obtain ⟨-, -, -, hsplit⟩ := h.next_spec hnext
    obtain ⟨r, hr, hkey⟩ := List.mem_map.mp (hk s (List.mem_cons_self ..))
    have hrow : r ∈ rest key c (rows s) := mem_rest.mpr ⟨hr, hkey ▸ hpast⟩
    rw [List.map_append]
    rw [hsplit] at hrow
    rcases List.mem_append.mp hrow with hpage | hleft
    · exact List.mem_append_left _ (hkey ▸ List.mem_map_of_mem hpage)
    · exact List.mem_append_right _ (ih hdone k
        (fun s' hs' => hk s' (List.mem_cons_of_mem s hs')) (hkey ▸ (mem_rest.mp hleft).2))

include h in
/-- **A table at rest.** Following the cursors ends. -/
theorem ends (s : σ) : ∃ n items, Walk request none (List.replicate n s) items true := by
  have hall : ∀ m (c : Option κ), h.Given c → (rest key c (rows s)).length ≤ m →
      ∃ n items, Walk request (c.map encode) (List.replicate n s) items true := by
    intro m
    -- on the rows that are left: a page with a next one is not empty
    induction m with
    | zero =>
      intro c hc hlen
      have hnil : rest key c (rows s) = [] := List.length_eq_zero_iff.mp (Nat.le_zero.mp hlen)
      have hpage : page key limit (rows s) c = ⟨[], none⟩ := by
        rw [page_eq, hnil]
        simp
      have hreq := h.request_eq hc s
      rw [hpage] at hreq
      exact ⟨1, [], Walk.last hreq rfl⟩
    | succ m ih =>
      intro c hc hlen
      have hreq := h.request_eq hc s
      rcases hnext : (page key limit (rows s) c).next with _ | k
      · exact ⟨1, _, Walk.last hreq (by rw [Page.encode, hnext]; rfl)⟩
      · obtain ⟨hgiven, -, -, hsplit⟩ := h.next_spec hnext
        obtain ⟨row, hrow, -⟩ := page_more (h.nodup s) hnext
        have hpos := List.length_pos_of_mem hrow
        have hless : (rest key (some k) (rows s)).length ≤ m := by
          rw [hsplit, List.length_append] at hlen
          omega
        obtain ⟨n, items, hwalk⟩ := ih (some k) hgiven hless
        exact ⟨n + 1, _, Walk.more hreq (by rw [Page.encode, hnext]; rfl) hwalk⟩
  exact hall _ none h.given_none le_rfl

omit h in
theorem nodup_of_increasing {l : List α} (hl : l.Pairwise fun a b => key a < key b) :
    (l.map key).Nodup :=
  List.pairwise_map.mpr (hl.imp fun hlt => ne_of_lt hlt)

include h in
/-- **A table at rest.** What the client is shown is the whole table in order. -/
theorem exact {s : σ} {n : ℕ} {items : List α}
    (hwalk : Walk request none (List.replicate n s) items true) : items = sorted key (rows s) := by
  obtain ⟨hincr, hsound⟩ := h.increasing hwalk
  have hsorted := sorted_increasing (h.nodup s)
  refine eq_of_increasing hincr hsorted ?_
  refine (List.perm_ext_iff_of_nodup (nodup_of_increasing hincr).of_map
    (nodup_of_increasing hsorted).of_map).mpr fun r => ?_
  rw [mem_sorted]
  constructor
  · intro hr
    obtain ⟨s', hs', hrow⟩ := hsound r hr
    rwa [List.eq_of_mem_replicate hs'] at hrow
  · intro hr
    have hkey : key r ∈ items.map key := h.complete hwalk fun s' hs' => by
      rw [List.eq_of_mem_replicate hs']
      exact List.mem_map_of_mem hr
    obtain ⟨r', hr', heq⟩ := List.mem_map.mp hkey
    obtain ⟨s', hs', hrow⟩ := hsound r' hr'
    rw [List.eq_of_mem_replicate hs'] at hrow
    rwa [← List.inj_on_of_nodup_map (h.nodup s) hrow hr heq]

include h in
/-- **No row missed so far.** A client that has not reached the last page has been shown every
key that was there at each of its requests, or none that is as far as that. -/
theorem covers {states : List σ} {items : List α} {done : Bool}
    (hwalk : Walk request none states items done) {k : κ}
    (hk : ∀ s ∈ states, k ∈ (rows s).map key) :
    k ∈ items.map key ∨ done = false ∧ ∀ r ∈ items, key r < k := by
  have hall := h.walk_induction (P := fun c states items done =>
    ∀ k, (∀ s ∈ states, k ∈ (rows s).map key) → past c k = true →
      k ∈ items.map key ∨ done = false ∧ ∀ r ∈ items, key r < k)
    (fun c k _ _ => Or.inr ⟨rfl, nofun⟩) (fun c s hnext k hk hpast => ?_)
    (fun c s k' later items done hnext ih k hk hpast => ?_) hwalk
  · exact hall k hk rfl
  · obtain ⟨r, hr, rfl⟩ := List.mem_map.mp (hk s (List.mem_singleton_self s))
    rw [page_last h.pos hnext]
    exact Or.inl (List.mem_map_of_mem (mem_rest.mpr ⟨hr, hpast⟩))
  · obtain ⟨-, -, hle, hsplit⟩ := h.next_spec hnext
    obtain ⟨r, hr, hkey⟩ := List.mem_map.mp (hk s (List.mem_cons_self ..))
    have hrow : r ∈ rest key c (rows s) := mem_rest.mpr ⟨hr, hkey ▸ hpast⟩
    rw [hsplit] at hrow
    rw [List.map_append]
    rcases List.mem_append.mp hrow with hpage | hleft
    · exact Or.inl (List.mem_append_left _ (hkey ▸ List.mem_map_of_mem hpage))
    · have hpast' := (mem_rest.mp hleft).2
      rw [hkey] at hpast'
      rcases ih k (fun s' hs' => hk s' (List.mem_cons_of_mem s hs')) hpast' with hin | ⟨hdone, hlt⟩
      · exact Or.inl (List.mem_append_right _ hin)
      · refine Or.inr ⟨hdone, fun r' hr' => ?_⟩
        rcases List.mem_append.mp hr' with hr' | hr'
        · exact lt_of_le_of_lt (hle r' hr') (of_decide_eq_true hpast')
        · exact hlt r' hr'

include h in
/-- A client that wants so many rows gets them, or reaches the last page. -/
theorem collects (states : ℕ → σ) (enough : ℕ) : ∀ (fuel n : ℕ) (c : Option κ) (items : List α),
    h.Given c → enough ≤ items.length + fuel → ∃ pages found done,
      collect request states enough (fuel + 1) n (c.map encode) items = some (items ++ found) ∧
      Walk request (c.map encode) ((List.range' n pages).map states) found done ∧
      (done = false → enough ≤ (items ++ found).length) := by
  intro fuel
  induction fuel with
  | zero =>
    intro n c items _ henough
    rw [Nat.add_zero] at henough
    refine ⟨0, [], false, ?_, Walk.stop _, fun _ => ?_⟩
    · rw [collect, if_neg (Nat.not_lt.mpr henough), List.append_nil]
    · rwa [List.append_nil]
  | succ fuel ih =>
    intro n c items hc henough
    rw [collect]
    by_cases hlen : items.length < enough
    · have hreq := h.request_eq hc (states n)
      rw [if_pos hlen, hreq]
      dsimp only
      rcases hnext : (page key limit (rows (states n)) c).next with _ | k
      · have hlast : ((page key limit (rows (states n)) c).encode encode).next = none := by
          rw [Page.encode, hnext]
          rfl
        rw [hlast]
        exact ⟨1, _, true, rfl, Walk.last hreq hlast, nofun⟩
      · have hmore : ((page key limit (rows (states n)) c).encode encode).next =
            some (encode k) := by
          rw [Page.encode, hnext]
          rfl
        obtain ⟨row, hrow, -⟩ := page_more (h.nodup (states n)) hnext
        have hpos := List.length_pos_of_mem hrow
        obtain ⟨pages, found, done, hcollect, hwalk, hend⟩ := ih (n + 1) (some k)
          (items ++ (page key limit (rows (states n)) c).items) (h.next_spec hnext).1 (by
            rw [List.length_append]
            omega)
        rw [hmore]
        rw [List.append_assoc] at hcollect hend
        exact ⟨pages + 1, _, done, hcollect, Walk.more hreq hmore hwalk, hend⟩
    · rw [if_neg hlen]
      refine ⟨0, [], false, by rw [List.append_nil], Walk.stop _, fun _ => ?_⟩
      rw [List.append_nil]
      exact Nat.not_lt.mp hlen

include h in
/-- A service of pages is one a client can follow. -/
theorem paginates : Paginates key request rows where
  ends := h.ends
  exact := fun _ _ _ hwalk => h.exact hwalk
  increasing := fun _ _ _ hwalk => (h.increasing hwalk).1
  sound := fun _ _ _ hwalk => (h.increasing hwalk).2
  once := fun _ _ hwalk _ hk => List.count_eq_one_of_mem
    (nodup_of_increasing (h.increasing hwalk).1) (h.complete hwalk hk)

end Serves

end Keyset
