import Mathlib.Logic.Basic
import Mathlib.Data.List.Forall2
import Mathlib.Order.Defs.Unbundled

/-!
# Programs that raise

A `Prog σ ε α` computes on a state and returns a value or raises an exception;
what it did to the state before the exception stays done. `Prog.Ends` says how a
program ends, with one postcondition for a return and one for an exception;
`Prog.Decides` says exactly when it returns, and `Prog.Yields` that its outcome
is known. The rules follow the syntax: one for a sequence, for `try`, for
`finally`, for a part of the state, and one for each kind of loop over a list.
`Prog.Respects` relates the state after a program to the one before, however it ends;
`Prog.Keeps` says that a program leaves what a function reads of the state alone.
-/

universe u v w

/-- A sequence of two computations that may fail returns when both do. -/
theorem bind_eq_ok {ε α β : Type} {x : Except ε α} {f : α → Except ε β} {b : β} :
    x >>= f = .ok b ↔ ∃ a, x = .ok a ∧ f a = .ok b := by
  cases x with
  | error e => exact iff_of_false (fun h => by cases h) fun ⟨_, h, _⟩ => by cases h
  | ok a => exact ⟨fun h => ⟨a, rfl, h⟩, fun ⟨_, h, hf⟩ => Except.ok.inj h ▸ hf⟩

/-- A computation for each element of a list returns when each of them does. -/
theorem mapM_eq_ok {ε α β : Type} {f : α → Except ε β} {l : List α} {out : List β} :
    l.mapM f = .ok out ↔ List.Forall₂ (fun a b => f a = .ok b) l out := by
  induction l generalizing out with
  | nil =>
    rw [List.mapM_nil, List.forall₂_nil_left_iff]
    exact ⟨fun h => (Except.ok.inj h).symm, fun h => h ▸ rfl⟩
  | cons a l ih =>
    rw [List.mapM_cons, bind_eq_ok]
    constructor
    · rintro ⟨b, hb, hrest⟩
      obtain ⟨bs, hbs, hout⟩ := bind_eq_ok.mp hrest
      obtain rfl := Except.ok.inj hout
      exact .cons hb (ih.mp hbs)
    · intro h
      obtain ⟨b, bs, hb, hbs, rfl⟩ := List.forall₂_cons_left_iff.mp h
      exact ⟨b, hb, bind_eq_ok.mpr ⟨bs, ih.mpr hbs, rfl⟩⟩

/-- What every step of a loop leaves alone, the loop leaves alone. -/
theorem foldl_keeps {α : Type u} {β : Type v} {γ : Type w} (g : β → γ) (f : β → α → β)
    (hf : ∀ b a, g (f b a) = g b) (l : List α) (b : β) : g (l.foldl f b) = g b := by
  induction l generalizing b with
  | nil => rfl
  | cons a l ih => rw [List.foldl_cons, ih, hf]

/-- A program on states `σ` that may raise an `ε`. -/
def Prog (σ : Type u) (ε : Type v) (α : Type w) : Type (max u v w) := σ → Except ε α × σ

namespace Prog

variable {σ : Type u} {ε : Type v} {α β : Type w}

instance : Monad (Prog σ ε) where
  pure a := fun s => (.ok a, s)
  bind x k := fun s =>
    match x s with
    | (.ok a, t) => k a t
    | (.error e, t) => (.error e, t)

/-- Raise an exception. -/
def raise (e : ε) : Prog σ ε α := fun s => (.error e, s)

/-- `try: x` with one `except` clause, which may raise again. -/
def rescue (x : Prog σ ε α) (h : ε → Prog σ ε α) : Prog σ ε α := fun s =>
  match x s with
  | (.ok a, t) => (.ok a, t)
  | (.error e, t) => h e t

/-- `try: x` with a `finally` clause, which is told whether `x` raised. What the
clause raises replaces the outcome. -/
def ensure (x : Prog σ ε α) (fin : Bool → Prog σ ε PUnit) : Prog σ ε α := fun s =>
  match x s with
  | (.ok a, t) => (fin false >>= fun _ => pure a) t
  | (.error e, t) => (fin true >>= fun _ => raise e) t

/-- `try: x` with a `finally` clause that reads what `x` returned, if it did. -/
def ensureWith (x : Prog σ ε α) (fin : Option α → Prog σ ε PUnit) : Prog σ ε α := fun s =>
  match x s with
  | (.ok a, t) => (fin (some a) >>= fun _ => pure a) t
  | (.error e, t) => (fin none >>= fun _ => raise e) t

/-- A program on a part of a larger state. -/
def zoom {τ : Type u} (get : τ → σ) (put : σ → τ → τ) (x : Prog σ ε α) : Prog τ ε α := fun t =>
  ((x (get t)).1, put (x (get t)).2 t)

/-- Raise an exception if there is one. -/
def raiseIf : Option ε → Prog σ ε PUnit
  | none => pure ⟨⟩
  | some e => raise e

/-- Change the state. -/
def modify (f : σ → σ) : Prog σ ε PUnit := fun s => (.ok ⟨⟩, f s)

/-- A computation that may fail and leaves the state alone. -/
def lift (x : Except ε α) : Prog σ ε α := fun s => (x, s)

/-- Read the state. -/
def get (f : σ → α) : Prog σ ε α := fun s => (.ok (f s), s)

/-- Run a program for each element of a list, in order. -/
def each {γ : Type w} (f : γ → Prog σ ε PUnit) : List γ → Prog σ ε PUnit
  | [] => pure ⟨⟩
  | b :: bs => f b >>= fun _ => each f bs

/-- Run a program for each element of a list, in order, and keep the values. -/
def collect {γ : Type w} (f : γ → Prog σ ε α) : List γ → Prog σ ε (List α)
  | [] => pure []
  | b :: bs => f b >>= fun a => collect f bs >>= fun as => pure (a :: as)

/-! ## Running a program -/

theorem run_pure (a : α) (s : σ) : (pure a : Prog σ ε α) s = (.ok a, s) := rfl

theorem run_bind_ok {x : Prog σ ε α} {k : α → Prog σ ε β} {s t : σ} {a : α}
    (h : x s = (.ok a, t)) : (x >>= k) s = k a t := by
  change (match x s with
    | (.ok a, t) => k a t
    | (.error e, t) => (.error e, t)) = _
  rw [h]

theorem run_lift_bind (a : α) (k : α → Prog σ ε β) (s : σ) :
    ((lift (.ok a) : Prog σ ε α) >>= k) s = k a s := rfl

theorem run_get_bind (f : σ → α) (k : α → Prog σ ε β) (s : σ) :
    ((get f : Prog σ ε α) >>= k) s = k (f s) s := rfl

theorem run_bind_error {x : Prog σ ε α} {k : α → Prog σ ε β} {s t : σ} {e : ε}
    (h : x s = (.error e, t)) : (x >>= k) s = (.error e, t) := by
  change (match x s with
    | (.ok a, t) => k a t
    | (.error e, t) => (.error e, t)) = _
  rw [h]

/-- Sequences are associative. -/
theorem bind_bind {γ : Type w} (x : Prog σ ε α) (f : α → Prog σ ε β) (k : β → Prog σ ε γ) :
    (x >>= f) >>= k = x >>= fun a => f a >>= k := by
  funext s
  rcases hx : x s with ⟨e | a, t⟩
  · rw [run_bind_error hx, run_bind_error (run_bind_error hx)]
  · rw [run_bind_ok hx]
    rcases hf : f a t with ⟨e | b, u⟩
    · rw [run_bind_error hf, run_bind_error ((run_bind_ok hx).trans hf)]
    · rw [run_bind_ok hf, run_bind_ok ((run_bind_ok hx).trans hf)]

/-- From `s`, the program returns with `Q` or raises with `E`. -/
def Ends (x : Prog σ ε α) (s : σ) (Q : α → σ → Prop) (E : ε → σ → Prop) : Prop :=
  match x s with
  | (.ok a, t) => Q a t
  | (.error e, t) => E e t

variable {x : Prog σ ε α} {s : σ} {Q : α → σ → Prop} {E : ε → σ → Prop}

/-- How a program ends, read off a run of it. -/
theorem Ends.ok {a : α} {t : σ} (h : x.Ends s Q E) (hx : x s = (.ok a, t)) : Q a t := by
  unfold Ends at h
  rwa [hx] at h

theorem Ends.error {e : ε} {t : σ} (h : x.Ends s Q E) (hx : x s = (.error e, t)) : E e t := by
  unfold Ends at h
  rwa [hx] at h

theorem Ends.pure {a : α} (h : Q a s) : (pure a : Prog σ ε α).Ends s Q E := h

theorem Ends.raise {e : ε} (h : E e s) : (raise e : Prog σ ε α).Ends s Q E := h

theorem Ends.lift {r : Except ε α} (hQ : ∀ a, r = .ok a → Q a s)
    (hE : ∀ e, r = .error e → E e s) : (lift r : Prog σ ε α).Ends s Q E := by
  cases r with
  | error e => exact hE e rfl
  | ok a => exact hQ a rfl

/-- The rule of consequence. -/
theorem Ends.mono {Q' : α → σ → Prop} {E' : ε → σ → Prop} (h : x.Ends s Q E)
    (hQ : ∀ a t, Q a t → Q' a t) (hE : ∀ e t, E e t → E' e t) : x.Ends s Q' E' := by
  unfold Ends at h ⊢
  rcases hx : x s with ⟨e | a, t⟩ <;> rw [hx] at h
  · exact hE e t h
  · exact hQ a t h

/-- The rule of sequence. -/
theorem Ends.bind {P : α → σ → Prop} {k : α → Prog σ ε β} {R : β → σ → Prop}
    (h : x.Ends s P E) (hk : ∀ a t, P a t → (k a).Ends t R E) : (x >>= k).Ends s R E := by
  change match (match x s with
    | (.ok a, t) => k a t
    | (.error e, t) => (.error e, t)) with
    | (.ok b, t) => R b t
    | (.error e, t) => E e t
  unfold Ends at h
  rcases hx : x s with ⟨e | a, t⟩
  · rw [hx] at h
    exact h
  · rw [hx] at h
    exact hk a t h

/-- The rule for a part of the state. -/
theorem Ends.zoom {τ : Type u} {get : τ → σ} {put : σ → τ → τ} {t : τ} {P : α → τ → Prop}
    {R : ε → τ → Prop} (h : x.Ends (get t) (fun a s => P a (put s t)) fun e s => R e (put s t)) :
    (zoom get put x).Ends t P R := by
  unfold Ends at h ⊢
  unfold Prog.zoom
  rcases hx : x (get t) with ⟨e | a, s⟩ <;> rw [hx] at h <;> exact h

/-- The rule of `except`. -/
theorem Ends.rescue {h : ε → Prog σ ε α} {F : ε → σ → Prop} (hx : x.Ends s Q F)
    (hh : ∀ e t, F e t → (h e).Ends t Q E) : (rescue x h).Ends s Q E := by
  unfold Ends at hx
  unfold Ends Prog.rescue
  rcases hxs : x s with ⟨e | a, t⟩
  · rw [hxs] at hx
    exact hh e t hx
  · rw [hxs] at hx
    exact hx

/-- The rule of `finally`, for a clause that is told the result. -/
theorem Ends.ensureWith {fin : Option α → Prog σ ε PUnit} {P : α → σ → Prop} {F : ε → σ → Prop}
    (hx : x.Ends s P F) (hok : ∀ a t, P a t → (fin (some a)).Ends t (fun _ => Q a) E)
    (herror : ∀ e t, F e t → (fin none).Ends t (fun _ => E e) E) :
    (ensureWith x fin).Ends s Q E := by
  unfold Ends at hx ⊢
  rcases hxs : x s with ⟨e | a, t⟩
  · rw [hxs] at hx
    have hrun : Prog.ensureWith x fin s =
        (fin none >>= fun _ => (Prog.raise e : Prog σ ε α)) t := by
      unfold Prog.ensureWith
      rw [hxs]
    rw [hrun]
    exact (herror e t hx).bind fun _ _ hu => hu
  · rw [hxs] at hx
    have hrun : Prog.ensureWith x fin s =
        (fin (some a) >>= fun _ => (Pure.pure a : Prog σ ε α)) t := by
      unfold Prog.ensureWith
      rw [hxs]
    rw [hrun]
    exact (hok a t hx).bind fun _ _ hu => hu

/-- The loop rule: `R b` relates the states to a value that the loop advances by
`g`. -/
theorem Ends.each {γ : Type w} {τ : Type*} {f : γ → Prog σ ε PUnit} {R : τ → σ → Prop}
    (g : τ → γ → τ) {l : List γ}
    (hf : ∀ b ∈ l, ∀ r t, R r t → (f b).Ends t (fun _ u => R (g r b) u) E) :
    ∀ {r : τ} {s : σ}, R r s → (each f l).Ends s (fun _ t => R (l.foldl g r) t) E := by
  induction l with
  | nil =>
    intro r s hr
    exact hr
  | cons b bs ih =>
    intro r s hr
    refine (hf b (List.mem_cons_self ..) r s hr).bind fun _ t ht => ?_
    exact ih (fun c hc => hf c (List.mem_cons_of_mem b hc)) ht

/-- The loop rule for queries: each returns `g b` and keeps `R`. -/
theorem Ends.collect {γ : Type w} {f : γ → Prog σ ε α} {R : σ → Prop} (g : γ → α) {l : List γ}
    (hf : ∀ b ∈ l, ∀ t, R t → (f b).Ends t (fun a u => a = g b ∧ R u) E) :
    ∀ {s : σ}, R s → (collect f l).Ends s (fun as t => as = l.map g ∧ R t) E := by
  induction l with
  | nil =>
    intro s hs
    exact ⟨rfl, hs⟩
  | cons b bs ih =>
    intro s hs
    refine (hf b (List.mem_cons_self ..) s hs).bind fun a t hat => ?_
    obtain ⟨rfl, ht⟩ := hat
    refine (ih (fun c hc => hf c (List.mem_cons_of_mem b hc)) ht).bind fun as u hu => ?_
    obtain ⟨rfl, hu⟩ := hu
    exact ⟨rfl, hu⟩

/-! ## When a program returns -/

/-- From `s`, the program returns, with `Q`, if `P`, and raises, with `E`, if not. -/
def Decides (x : Prog σ ε α) (s : σ) (P : Prop) (Q : α → σ → Prop) (E : ε → σ → Prop) : Prop :=
  x.Ends s (fun a t => P ∧ Q a t) fun e t => ¬P ∧ E e t

namespace Decides

variable {P T : Prop}

theorem pure {a : α} (h : Q a s) : (pure a : Prog σ ε α).Decides s True Q E := ⟨trivial, h⟩

/-- The rule of consequence. -/
theorem mono {Q' : α → σ → Prop} (h : x.Decides s P Q E) (hP : P ↔ T)
    (hQ : ∀ a t, Q a t → Q' a t) : x.Decides s T Q' E :=
  Ends.mono h (fun a t ht => ⟨hP.mp ht.1, hQ a t ht.2⟩) fun _ _ he => ⟨hP.not.mp he.1, he.2⟩

/-- The rule of sequence. -/
theorem bind {k : α → Prog σ ε β} {R : β → σ → Prop} (h : x.Decides s P Q E)
    (hk : ∀ a t, Q a t → (k a).Decides t T R E) : (x >>= k).Decides s (P ∧ T) R E := by
  refine Ends.bind (P := fun a t => P ∧ Q a t) (Ends.mono h (fun _ _ ht => ht) ?_) ?_
  · rintro e t ⟨hno, he⟩
    exact ⟨fun hp => hno hp.1, he⟩
  · rintro a t ⟨hp, hq⟩
    refine Ends.mono (hk a t hq) (fun b u hu => ⟨⟨hp, hu.1⟩, hu.2⟩) ?_
    rintro e u ⟨hno, he⟩
    exact ⟨fun hp' => hno hp'.2, he⟩

/-- `p` at each element, with the value that the loop has advanced by `g`. -/
def All {γ : Type w} {τ : Type*} (p : τ → γ → Prop) (g : τ → γ → τ) : τ → List γ → Prop
  | _, [] => True
  | r, b :: bs => p r b ∧ All p g (g r b) bs

/-- The loop rule. -/
theorem each {γ : Type w} {τ : Type*} {f : γ → Prog σ ε PUnit} {R : τ → σ → Prop}
    {p : τ → γ → Prop} (g : τ → γ → τ) {l : List γ}
    (hf : ∀ b ∈ l, ∀ r t, R r t → (f b).Decides t (p r b) (fun _ u => R (g r b) u) E) :
    ∀ {r : τ} {s : σ}, R r s →
      (Prog.each f l).Decides s (All p g r l) (fun _ t => R (l.foldl g r) t) E := by
  induction l with
  | nil => exact fun hr => ⟨trivial, hr⟩
  | cons b bs ih =>
    intro r s hr
    exact (hf b (List.mem_cons_self ..) r s hr).bind fun _ _ ht =>
      ih (fun c hc => hf c (List.mem_cons_of_mem b hc)) ht

/-- The loop rule for queries: each returns `g b` if it can and keeps `R`. -/
theorem collect {γ : Type w} {f : γ → Prog σ ε α} {R : σ → Prop} {p : γ → Prop} (g : γ → α)
    {l : List γ} (hf : ∀ b ∈ l, ∀ t, R t → (f b).Decides t (p b) (fun a u => a = g b ∧ R u) E) :
    ∀ {s : σ}, R s →
      (Prog.collect f l).Decides s (∀ b ∈ l, p b) (fun as t => as = l.map g ∧ R t) E := by
  induction l with
  | nil => exact fun hs => ⟨fun b hb => absurd hb List.not_mem_nil, rfl, hs⟩
  | cons b bs ih =>
    intro s hs
    refine ((hf b (List.mem_cons_self ..) s hs).bind (T := ∀ c ∈ bs, p c)
      (R := fun as t => as = (b :: bs).map g ∧ R t) ?_).mono List.forall_mem_cons.symm
        fun _ _ h => h
    rintro a t ⟨rfl, ht⟩
    refine ((ih (fun c hc => hf c (List.mem_cons_of_mem b hc)) ht).bind (T := True) ?_).mono
      (and_iff_left trivial) fun _ _ h => h
    rintro as u ⟨rfl, hu⟩
    exact Decides.pure ⟨rfl, hu⟩

/-- A loop whose condition does not change. -/
theorem All.of_forall {γ : Type w} {τ : Type*} {p : γ → Prop} {g : τ → γ → τ} {l : List γ} :
    ∀ {r : τ}, All (fun _ => p) g r l ↔ ∀ b ∈ l, p b := by
  induction l with
  | nil => exact iff_of_true trivial fun b hb => absurd hb List.not_mem_nil
  | cons b bs ih => exact (and_congr_right' ih).trans List.forall_mem_cons.symm

/-- A loop that claims the key of each element goes through exactly when the keys
are free and distinct. -/
theorem All.keyed {γ : Type w} {τ κ : Type*} {p : γ → Prop} {g : τ → γ → τ} (key : γ → κ)
    (taken : τ → κ → Prop) (hg : ∀ r b k, taken (g r b) k ↔ taken r k ∨ k = key b)
    {l : List γ} : ∀ {r : τ}, All (fun r b => p b ∧ ¬taken r (key b)) g r l ↔
      (∀ b ∈ l, p b) ∧ (l.map key).Nodup ∧ ∀ b ∈ l, ¬taken r (key b) := by
  induction l with
  | nil => simp [All]
  | cons b bs ih =>
    intro r
    have hrest : All (fun r b => p b ∧ ¬taken r (key b)) g (g r b) bs ↔
        (∀ c ∈ bs, p c) ∧ (bs.map key).Nodup ∧ ∀ c ∈ bs, ¬taken r (key c) ∧ key c ≠ key b := by
      simp only [ih, hg, not_or, ne_eq]
    have hnew : key b ∉ bs.map key ↔ ∀ c ∈ bs, key c ≠ key b := by
      simp only [List.mem_map, not_exists, not_and, ne_eq]
    simp only [All, hrest, List.forall_mem_cons, List.map_cons, List.nodup_cons, hnew,
      forall_and]
    constructor
    · rintro ⟨⟨hb, hfree⟩, hbs, hnodup, hfrees, hne⟩
      exact ⟨⟨hb, hbs⟩, ⟨hne, hnodup⟩, hfree, hfrees⟩
    · rintro ⟨⟨hb, hbs⟩, ⟨hne, hnodup⟩, hfree, hfrees⟩
      exact ⟨⟨hb, hfree⟩, hbs, hnodup, hfrees, hne⟩

end Decides

/-! ## Known outcomes -/

/-- From every state with `I`, the program ends with the outcome `r` in a state
with `J`. -/
def Yields (I : σ → Prop) (x : Prog σ ε α) (r : Except ε α) (J : σ → Prop) : Prop :=
  ∀ s, I s → (x s).1 = r ∧ J (x s).2

namespace Yields

variable {I J K : σ → Prop} {r : Except ε α}

theorem pure (a : α) : Yields I (pure a : Prog σ ε α) (.ok a) I := fun _ hs => ⟨rfl, hs⟩

theorem raise (e : ε) : Yields I (Prog.raise e : Prog σ ε α) (.error e) I := fun _ hs => ⟨rfl, hs⟩

theorem modify {f : σ → σ} (h : ∀ s, I s → J (f s)) :
    Yields I (Prog.modify f : Prog σ ε PUnit) (.ok ⟨⟩) J := fun s hs => ⟨rfl, h s hs⟩

/-- The rule of sequence, when the first part returns. -/
theorem bind {a : α} {k : α → Prog σ ε β} {q : Except ε β} (h : Yields I x (.ok a) J)
    (hk : Yields J (k a) q K) : Yields I (x >>= k) q K := by
  intro s hs
  obtain ⟨hx, hJ⟩ := h s hs
  change (match x s with
    | (.ok a, t) => k a t
    | (.error e, t) => (.error e, t)).1 = q ∧ K (match x s with
    | (.ok a, t) => k a t
    | (.error e, t) => (.error e, t)).2
  rcases hxs : x s with ⟨r, t⟩
  rw [hxs] at hx hJ
  subst hx
  exact hk t hJ

/-- The rule of sequence, when the first part returns something. -/
theorem bind_any {k : α → Prog σ ε β} {q : Except ε β}
    (h : ∀ s, I s → x.Ends s (fun _ => J) fun _ _ => False) (hk : ∀ a, Yields J (k a) q K) :
    Yields I (x >>= k) q K := by
  intro s hs
  have hx := h s hs
  unfold Ends at hx
  change (match x s with
    | (.ok a, t) => k a t
    | (.error e, t) => (.error e, t)).1 = q ∧ K (match x s with
    | (.ok a, t) => k a t
    | (.error e, t) => (.error e, t)).2
  rcases hxs : x s with ⟨e | a, t⟩
  · rw [hxs] at hx
    exact hx.elim
  · rw [hxs] at hx
    exact hk a t hx

/-- The rule of sequence, when the first part raises. -/
theorem bind_raise {e : ε} {k : α → Prog σ ε β} (h : Yields I x (.error e) J) :
    Yields I (x >>= k) (.error e) J := by
  intro s hs
  obtain ⟨hx, hJ⟩ := h s hs
  change (match x s with
    | (.ok a, t) => k a t
    | (.error e, t) => (.error e, t)).1 = _ ∧ J (match x s with
    | (.ok a, t) => k a t
    | (.error e, t) => (.error e, t)).2
  rcases hxs : x s with ⟨r, t⟩
  rw [hxs] at hx hJ
  subst hx
  exact ⟨rfl, hJ⟩

/-- The outcome of a program that returns `a` unless it raises. -/
def raising (o : Option ε) (a : α) : Except ε α :=
  match o with
  | none => .ok a
  | some e => .error e

theorem raiseIf (o : Option ε) :
    Yields I (Prog.raiseIf o : Prog σ ε PUnit) (raising o ⟨⟩) I := by
  cases o with
  | none => exact Yields.pure _
  | some e => exact Yields.raise e

/-- The rule of sequence, by what each part may raise. -/
theorem seq {o o' : Option ε} {a : α} {b : β} {k : α → Prog σ ε β}
    (h : Yields I x (raising o a) J) (hk : Yields J (k a) (raising o' b) J) :
    Yields I (x >>= k) (raising (o.or o') b) J := by
  cases o with
  | none => exact h.bind hk
  | some e => exact h.bind_raise

/-- The rule of `except`, when nothing is raised. -/
theorem rescue_ok {a : α} {h : ε → Prog σ ε α} (hx : Yields I x (.ok a) J) :
    Yields I (rescue x h) (.ok a) J := by
  intro s hs
  obtain ⟨hr, hJ⟩ := hx s hs
  unfold rescue
  rcases hxs : x s with ⟨r, t⟩
  rw [hxs] at hr hJ
  subst hr
  exact ⟨rfl, hJ⟩

/-- The rule of `except`, when something is raised. -/
theorem rescue_raise {e : ε} {h : ε → Prog σ ε α} (hx : Yields I x (.error e) J)
    (hh : Yields J (h e) r K) : Yields I (rescue x h) r K := by
  intro s hs
  obtain ⟨hr, hJ⟩ := hx s hs
  unfold rescue
  rcases hxs : x s with ⟨q, t⟩
  rw [hxs] at hr hJ
  subst hr
  exact hh t hJ

/-- The rule of `finally`: the clause runs either way, and the outcome stays. -/
theorem ensure {fin : Bool → Prog σ ε PUnit} (hx : Yields I x r J)
    (hfin : ∀ raised, Yields J (fin raised) (.ok ⟨⟩) K) : Yields I (ensure x fin) r K := by
  intro s hs
  obtain ⟨hr, hJ⟩ := hx s hs
  unfold Prog.ensure
  rcases hxs : x s with ⟨q, t⟩
  rw [hxs] at hr hJ
  subst hr
  rcases q with e | a
  · exact ((hfin true).bind (Yields.raise e)) t hJ
  · exact ((hfin false).bind (Yields.pure a)) t hJ

/-- The rule for a part of the state. -/
theorem zoom {τ : Type u} {get : τ → σ} {put : σ → τ → τ} {P Q : τ → Prop} (h : Yields I x r J)
    (hI : ∀ t, P t → I (get t)) (hJ : ∀ t s, P t → J s → Q (put s t)) :
    Yields P (zoom get put x) r Q := fun t ht =>
  ⟨(h _ (hI t ht)).1, hJ t _ ht (h _ (hI t ht)).2⟩

end Yields

/-! ## What a program does to the state -/

/-- However the program ends, the state after it is related to the one before. -/
def Respects (R : σ → σ → Prop) (x : Prog σ ε α) : Prop := ∀ s, R s (x s).2

namespace Respects

variable {R : σ → σ → Prop}

section

variable [Std.Refl R]

theorem pure (a : α) : (pure a : Prog σ ε α).Respects R := fun s => Std.Refl.refl s

theorem raise (e : ε) : (Prog.raise e : Prog σ ε α).Respects R := fun s => Std.Refl.refl s

theorem lift (r : Except ε α) : (Prog.lift r : Prog σ ε α).Respects R := fun s => Std.Refl.refl s

theorem get (g : σ → α) : (Prog.get g : Prog σ ε α).Respects R := fun s => Std.Refl.refl s

theorem raiseIf (o : Option ε) : (Prog.raiseIf o : Prog σ ε PUnit).Respects R := by
  cases o with
  | none => exact Respects.pure _
  | some e => exact Respects.raise e

/-- A program that changes nothing. -/
theorem of_same (h : ∀ s, (x s).2 = s) : x.Respects R := by
  intro s
  rw [h s]
  exact Std.Refl.refl s

end

theorem modify {g : σ → σ} (h : ∀ s, R s (g s)) : (Prog.modify g : Prog σ ε PUnit).Respects R := h

/-- The rule of sequence. -/
theorem bind [IsTrans σ R] {k : α → Prog σ ε β} (h : x.Respects R)
    (hk : ∀ a, (k a).Respects R) : (x >>= k).Respects R := by
  intro s
  have hx := h s
  rcases hxs : x s with ⟨e | a, t⟩
  · rw [run_bind_error hxs]
    rwa [hxs] at hx
  · rw [hxs] at hx
    rw [run_bind_ok hxs]
    exact IsTrans.trans s t _ hx (hk a t)

theorem of_ends (h : ∀ s, x.Ends s (fun _ t => R s t) fun _ t => R s t) : x.Respects R := by
  intro s
  rcases hxs : x s with ⟨e | a, t⟩
  · exact (h s).error hxs
  · exact (h s).ok hxs

end Respects

/-! ## What a program leaves alone -/

/-- What `f` reads of the state is the same after the program, however it ends. -/
def Keeps {τ : Type*} (f : σ → τ) (x : Prog σ ε α) : Prop := ∀ s, f (x s).2 = f s

namespace Keeps

variable {τ : Type*} {f : σ → τ}

/-- Two states that look the same. -/
abbrev Same (f : σ → τ) (s t : σ) : Prop := f t = f s

instance : Std.Refl (Same f) := ⟨fun _ => rfl⟩

instance : IsTrans σ (Same f) := ⟨fun _ _ _ h h' => h'.trans h⟩

theorem iff_respects : x.Keeps f ↔ x.Respects (Same f) := Iff.rfl

theorem pure (a : α) : (pure a : Prog σ ε α).Keeps f := fun _ => rfl

theorem raise (e : ε) : (Prog.raise e : Prog σ ε α).Keeps f := fun _ => rfl

theorem lift (r : Except ε α) : (Prog.lift r : Prog σ ε α).Keeps f := fun _ => rfl

theorem get (g : σ → α) : (Prog.get g : Prog σ ε α).Keeps f := fun _ => rfl

theorem raiseIf (o : Option ε) : (Prog.raiseIf o : Prog σ ε PUnit).Keeps f :=
  iff_respects.mpr (.raiseIf o)

theorem modify {g : σ → σ} (h : ∀ s, f (g s) = f s) : (Prog.modify g : Prog σ ε PUnit).Keeps f := h

/-- The rule of sequence. -/
theorem bind {k : α → Prog σ ε β} (h : x.Keeps f) (hk : ∀ a, (k a).Keeps f) :
    (x >>= k).Keeps f :=
  iff_respects.mpr (.bind (iff_respects.mp h) fun a => iff_respects.mp (hk a))

theorem of_ends (h : ∀ s, x.Ends s (fun _ t => f t = f s) fun _ t => f t = f s) : x.Keeps f :=
  iff_respects.mpr (.of_ends h)

/-- The rule of `finally`. -/
theorem ensure {fin : Bool → Prog σ ε PUnit} (h : x.Keeps f)
    (hfin : ∀ raised, (fin raised).Keeps f) : (Prog.ensure x fin).Keeps f := by
  intro s
  have hx := h s
  unfold Prog.ensure
  rcases hxs : x s with ⟨e | a, t⟩
  · rw [hxs] at hx
    exact (((hfin true).bind fun _ => raise e) t).trans hx
  · rw [hxs] at hx
    exact (((hfin false).bind fun _ => pure a) t).trans hx

/-- The rule for a part of the state. -/
theorem zoom {τ : Type u} {ι κ : Type*} {g : σ → ι} {f : τ → κ} {part : τ → σ} {put : σ → τ → τ}
    (h : x.Keeps g) (hput : ∀ s r, g r = g (part s) → f (put r s) = f s) :
    (Prog.zoom part put x).Keeps f := fun s => hput s _ (h (part s))

end Keeps

end Prog
