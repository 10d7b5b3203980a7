import LayaWatch.Lib.Prog

/-!
# Refinement of programs

A program `x` on states `σ` refines a program `y` on states `τ` along a function
`abs : σ → τ` if it has the outcome of `y` and does to `abs` of the state what `y` does to
the state (`Prog.Refines`). The states of `x` keep an invariant, with one postcondition for
a return and one for an exception. A program that returns and leaves `abs` alone is
`Prog.Silent`: it may stand anywhere in a program that refines another.
-/

universe u v w

namespace Prog

variable {σ τ : Type u} {ε : Type v} {α β : Type w}

/-- Along `abs`, `x` does from every state with `I` what `y` does, and it returns with `J`
or raises with `E`. -/
def Refines (abs : σ → τ) (I : σ → Prop) (x : Prog σ ε α) (y : Prog τ ε α) (J E : σ → Prop) :
    Prop :=
  ∀ s, I s → y (abs s) = ((x s).1, abs (x s).2) ∧ x.Ends s (fun _ => J) fun _ => E

/-- From every state with `I`, the program returns with `J` and leaves `abs` alone. -/
def Silent (abs : σ → τ) (I : σ → Prop) (x : Prog σ ε α) (J : σ → Prop) : Prop :=
  ∀ s, I s → ∃ a t, x s = (.ok a, t) ∧ abs t = abs s ∧ J t

variable {abs : σ → τ} {I J K E F : σ → Prop} {x : Prog σ ε α} {y : Prog τ ε α}

/-! ## Silent programs -/

namespace Silent

theorem pure (a : α) : Silent abs I (pure a : Prog σ ε α) I := fun s hs => ⟨a, s, rfl, rfl, hs⟩

theorem get (g : σ → α) : Silent abs I (Prog.get g : Prog σ ε α) I :=
  fun s hs => ⟨g s, s, rfl, rfl, hs⟩

theorem modify {g : σ → σ} (h : ∀ s, I s → abs (g s) = abs s ∧ J (g s)) :
    Silent abs I (Prog.modify g : Prog σ ε PUnit) J :=
  fun s hs => ⟨⟨⟩, g s, rfl, h s hs⟩

/-- The rule of sequence. -/
theorem bind {k : α → Prog σ ε β} (h : Silent abs I x J) (hk : ∀ a, Silent abs J (k a) K) :
    Silent abs I (x >>= k) K := by
  intro s hs
  obtain ⟨a, t, hx, habs, hJ⟩ := h s hs
  obtain ⟨b, u, hku, habs', hK⟩ := hk a t hJ
  exact ⟨b, u, (run_bind_ok hx).trans hku, habs'.trans habs, hK⟩

/-- What is read of the state may come first. -/
theorem get_bind {ι : Type w} {g : σ → ι} {k : ι → Prog σ ε α}
    (h : ∀ a, Silent abs (fun s => I s ∧ g s = a) (k a) J) : Silent abs I (Prog.get g >>= k) J :=
  fun s hs => h (g s) s ⟨hs, rfl⟩

/-- The rule of consequence. -/
theorem mono {I' J' : σ → Prop} (h : Silent abs I x J) (hI : ∀ s, I' s → I s)
    (hJ : ∀ s, J s → J' s) : Silent abs I' x J' := by
  intro s hs
  obtain ⟨a, t, hx, habs, ht⟩ := h s (hI s hs)
  exact ⟨a, t, hx, habs, hJ t ht⟩

/-- The abstract state stays what it was. -/
theorem keeping (h : Silent abs I x J) (u : τ) :
    Silent abs (fun s => I s ∧ abs s = u) x fun s => J s ∧ abs s = u := by
  rintro s ⟨hs, rfl⟩
  obtain ⟨a, t, hx, habs, ht⟩ := h s hs
  exact ⟨a, t, hx, habs, ht, habs⟩

/-- The rule for a part of the state that `abs` does not see. -/
theorem zoom {ρ τ' : Type u} {abs' : ρ → τ'} {part : σ → ρ} {put : ρ → σ → σ} {x : Prog ρ ε α}
    {P Q : ρ → Prop} (habs : ∀ r s, abs (put r s) = abs s) (h : Silent abs' P x Q)
    (hI : ∀ s, I s → P (part s)) (hJ : ∀ s r, I s → Q r → J (put r s)) :
    Silent abs I (Prog.zoom part put x) J := by
  intro s hs
  obtain ⟨a, r, hx, -, hQ⟩ := h (part s) (hI s hs)
  refine ⟨a, put r s, ?_, habs r s, hJ s r hs hQ⟩
  unfold Prog.zoom
  rw [hx]

/-- How a silent program ends. -/
theorem ends {Q : ε → σ → Prop} {s : σ} {u : τ} (h : Silent abs I x J) (hs : I s ∧ abs s = u) :
    x.Ends s (fun _ t => J t ∧ abs t = u) Q := by
  obtain ⟨a, t, hx, habs, ht⟩ := h s hs.1
  unfold Ends
  rw [hx]
  exact ⟨ht, habs.trans hs.2⟩

/-- A silent program is known to return. -/
theorem yields {z : Prog σ ε PUnit} (h : Silent abs I z J) : Yields I z (.ok ⟨⟩) J := by
  intro s hs
  obtain ⟨a, t, hz, -, hJ⟩ := h s hs
  rw [hz]
  exact ⟨rfl, hJ⟩

/-- The rule of sequence, before a program of known outcome. -/
theorem bind_yields {k : α → Prog σ ε β} {r : Except ε β} (h : Silent abs I x J)
    (hk : ∀ a, Yields J (k a) r K) : Yields I (x >>= k) r K := by
  intro s hs
  obtain ⟨a, t, hx, -, hJ⟩ := h s hs
  rw [run_bind_ok hx]
  exact hk a t hJ

/-- What the program does not change may be known all the while. -/
theorem frame {ι : Type*} {f : σ → ι} (h : Silent abs I x J) (hk : x.Keeps f) (v : ι) :
    Silent abs (fun s => I s ∧ f s = v) x fun s => J s ∧ f s = v := by
  rintro s ⟨hs, rfl⟩
  obtain ⟨a, t, hx, habs, ht⟩ := h s hs
  have hsame := hk s
  rw [hx] at hsame
  exact ⟨a, t, hx, habs, ht, hsame⟩

end Silent

/-! ## Refinement -/

namespace Refines

theorem pure (a : α) : Refines abs I (pure a : Prog σ ε α) (pure a) I E :=
  fun _ hs => ⟨rfl, hs⟩

theorem raise (e : ε) : Refines abs I (Prog.raise e : Prog σ ε α) (Prog.raise e) J I :=
  fun _ hs => ⟨rfl, hs⟩

theorem lift (r : Except ε α) : Refines abs I (Prog.lift r : Prog σ ε α) (Prog.lift r) I I := by
  cases r with
  | error e => exact raise e
  | ok a => exact pure a

/-- The rule of consequence. -/
theorem mono {I' J' E' : σ → Prop} (h : Refines abs I x y J E) (hI : ∀ s, I' s → I s)
    (hJ : ∀ s, J s → J' s) (hE : ∀ s, E s → E' s) : Refines abs I' x y J' E' := by
  intro s hs
  obtain ⟨hsame, hends⟩ := h s (hI s hs)
  exact ⟨hsame, hends.mono (fun _ => hJ) fun _ => hE⟩

/-- Where the abstract program returns, the program does. -/
theorem ends {F : ε → σ → Prop} {s : σ} {u : τ} {a : α} (h : Refines abs I x y J E) (hs : I s)
    (hy : y (abs s) = (.ok a, u)) : x.Ends s (fun b t => b = a ∧ J t ∧ abs t = u) F := by
  obtain ⟨hsame, hends⟩ := h s hs
  have hboth : ((x s).1, abs (x s).2) = (.ok a, u) := hsame.symm.trans hy
  rcases hxs : x s with ⟨e | b, t⟩
  · rw [hxs] at hboth
    cases congrArg Prod.fst hboth
  · rw [hxs] at hboth
    unfold Ends
    rw [hxs]
    exact ⟨Except.ok.inj (congrArg Prod.fst hboth), hends.ok hxs, congrArg Prod.snd hboth⟩

/-- Other postconditions that the program has. -/
theorem with_ends {I' J' E' : σ → Prop} (h : Refines abs I x y J E) (hI : ∀ s, I' s → I s)
    (hends : ∀ s, I' s → x.Ends s (fun _ => J') fun _ => E') : Refines abs I' x y J' E' :=
  fun s hs => ⟨(h s (hI s hs)).1, hends s hs⟩

/-- What the program does not change may be known all the while. -/
theorem frame {ι : Type*} {f : σ → ι} (h : Refines abs I x y J E) (hk : x.Keeps f) (v : ι) :
    Refines abs (fun s => I s ∧ f s = v) x y (fun s => J s ∧ f s = v) fun s => E s ∧ f s = v := by
  rintro s ⟨hs, rfl⟩
  obtain ⟨hsame, hends⟩ := h s hs
  have hkept := hk s
  refine ⟨hsame, ?_⟩
  unfold Ends at hends ⊢
  rcases hxs : x s with ⟨e | a, t⟩ <;> rw [hxs] at hends hkept <;> exact ⟨hends, hkept⟩

/-- The rule of sequence. -/
theorem bind {k : α → Prog σ ε β} {k' : α → Prog τ ε β} (h : Refines abs I x y J E)
    (hk : ∀ a, Refines abs J (k a) (k' a) K E) : Refines abs I (x >>= k) (y >>= k') K E := by
  intro s hs
  obtain ⟨hsame, hends⟩ := h s hs
  rcases hxs : x s with ⟨e | a, t⟩
  · rw [hxs] at hsame
    rw [run_bind_error hxs, run_bind_error hsame]
    refine ⟨rfl, ?_⟩
    unfold Ends
    rw [run_bind_error hxs]
    exact hends.error hxs
  · rw [hxs] at hsame
    obtain ⟨hrest, hends'⟩ := hk a t (hends.ok hxs)
    rw [run_bind_ok hxs, run_bind_ok hsame]
    refine ⟨hrest, ?_⟩
    unfold Ends at hends' ⊢
    rwa [run_bind_ok hxs]

/-- A silent program may come first. -/
theorem silent_bind {ι : Type w} {z : Prog σ ε ι} {k : ι → Prog σ ε α} (h : Silent abs I z J)
    (hk : ∀ a, Refines abs J (k a) y K E) : Refines abs I (z >>= k) y K E := by
  intro s hs
  obtain ⟨a, t, hz, habs, hJ⟩ := h s hs
  obtain ⟨hsame, hends⟩ := hk a t hJ
  rw [run_bind_ok hz, ← habs]
  refine ⟨hsame, ?_⟩
  unfold Ends at hends ⊢
  rwa [run_bind_ok hz]

/-- A silent program may come last. -/
theorem bind_silent {ι : Type w} {z : α → Prog σ ε ι} (h : Refines abs I x y J E)
    (hz : ∀ a, Silent abs J (z a) K) :
    Refines abs I (x >>= fun a => z a >>= fun _ => Pure.pure a) y K E := by
  intro s hs
  obtain ⟨hsame, hends⟩ := h s hs
  rcases hxs : x s with ⟨e | a, t⟩
  · rw [hxs] at hsame
    rw [run_bind_error hxs]
    refine ⟨hsame, ?_⟩
    unfold Ends
    rw [run_bind_error hxs]
    exact hends.error hxs
  · rw [hxs] at hsame
    obtain ⟨b, u, hzu, habs, hK⟩ := hz a t (hends.ok hxs)
    have hrun : (x >>= fun a => z a >>= fun _ => Pure.pure a) s = (.ok a, u) := by
      rw [run_bind_ok hxs, run_bind_ok hzu]
      rfl
    rw [hrun, hsame, ← habs]
    refine ⟨rfl, ?_⟩
    unfold Ends
    rwa [hrun]

/-- What is read of the state may come first. -/
theorem get_bind {ι : Type w} {g : σ → ι} {k : ι → Prog σ ε α}
    (h : ∀ a, Refines abs (fun s => I s ∧ g s = a) (k a) y J E) :
    Refines abs I (Prog.get g >>= k) y J E := by
  intro s hs
  have hrun : (Prog.get g >>= k) s = k (g s) s := rfl
  obtain ⟨hsame, hends⟩ := h (g s) s ⟨hs, rfl⟩
  unfold Ends at hends ⊢
  rw [hrun]
  exact ⟨hsame, hends⟩

/-- The rule of `except`. -/
theorem rescue {h : ε → Prog σ ε α} {h' : ε → Prog τ ε α} (hx : Refines abs I x y J F)
    (hh : ∀ e, Refines abs F (h e) (h' e) J E) :
    Refines abs I (Prog.rescue x h) (Prog.rescue y h') J E := by
  intro s hs
  obtain ⟨hsame, hends⟩ := hx s hs
  unfold Ends Prog.rescue
  rcases hxs : x s with ⟨e | a, t⟩
  · rw [hxs] at hsame
    rw [hsame]
    exact hh e t (hends.error hxs)
  · rw [hxs] at hsame
    rw [hsame]
    exact ⟨rfl, hends.ok hxs⟩

/-- The rule of `finally`: a clause that is silent does not show. -/
theorem ensureWith {fin : Option α → Prog σ ε PUnit} (hx : Refines abs I x y J F)
    (hok : ∀ a, Silent abs J (fin (some a)) K) (herror : Silent abs F (fin none) E) :
    Refines abs I (Prog.ensureWith x fin) y K E := by
  intro s hs
  obtain ⟨hsame, hends⟩ := hx s hs
  unfold Ends Prog.ensureWith
  rcases hxs : x s with ⟨e | a, t⟩
  · rw [hxs] at hsame
    obtain ⟨b, u, hfin, habs, hE⟩ := herror t (hends.error hxs)
    have hrun : (fin none >>= fun _ => (Prog.raise e : Prog σ ε α)) t = (.error e, u) := by
      rw [run_bind_ok hfin]
      rfl
    simp only [hrun, hsame, habs]
    exact ⟨trivial, hE⟩
  · rw [hxs] at hsame
    obtain ⟨b, u, hfin, habs, hK⟩ := hok a t (hends.ok hxs)
    have hrun : (fin (some a) >>= fun _ => (Pure.pure a : Prog σ ε α)) t = (.ok a, u) := by
      rw [run_bind_ok hfin]
      rfl
    simp only [hrun, hsame, habs]
    exact ⟨trivial, hK⟩

theorem ensure_eq (x : Prog σ ε α) (fin : Bool → Prog σ ε PUnit) :
    Prog.ensure x fin = Prog.ensureWith x fun a => fin a.isNone := rfl

/-- The rule of `finally`, for a clause that is told whether something was raised. -/
theorem ensure {fin : Bool → Prog σ ε PUnit} (hx : Refines abs I x y J F)
    (hok : Silent abs J (fin false) K) (herror : Silent abs F (fin true) E) :
    Refines abs I (Prog.ensure x fin) y K E := by
  rw [ensure_eq]
  exact hx.ensureWith (fun _ => hok) herror

/-- The rule for a part of the state that `abs` sees. -/
theorem zoom {ρ : Type u} {part : σ → ρ} {put : ρ → σ → σ} {part' : τ → ρ} {put' : ρ → τ → τ}
    {x : Prog ρ ε α} (hpart : ∀ s, part' (abs s) = part s)
    (hput : ∀ r s, abs (put r s) = put' r (abs s)) (hI : ∀ r s, I s → I (put r s)) :
    Refines abs I (Prog.zoom part put x) (Prog.zoom part' put' x) I I := by
  intro s hs
  unfold Ends Prog.zoom
  rw [hpart, hput]
  refine ⟨rfl, ?_⟩
  rcases x (part s) with ⟨e | a, r⟩
  · exact hI r s hs
  · exact hI r s hs

/-- The rule for a part of the state that `abs` does not see, where the outcome is known. -/
theorem zoom_yields {ρ : Type u} {part : σ → ρ} {put : ρ → σ → σ} {x : Prog ρ ε α}
    {r : Except ε α} {P Q : ρ → Prop} (habs : ∀ r s, abs (put r s) = abs s)
    (h : Yields P x r Q) (hI : ∀ s, I s → P (part s)) (hJ : ∀ s r, I s → Q r → J (put r s)) :
    Refines abs I (Prog.zoom part put x) (Prog.lift r) J J := by
  intro s hs
  obtain ⟨hr, hQ⟩ := h (part s) (hI s hs)
  unfold Ends Prog.zoom Prog.lift
  rw [habs, hr]
  refine ⟨rfl, ?_⟩
  cases r with
  | error e => exact hJ s _ hs hQ
  | ok a => exact hJ s _ hs hQ

end Refines

end Prog
