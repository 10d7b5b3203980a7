import Mathlib.Data.List.Basic
import Mathlib.Logic.Basic

/-!
# Threads that share a lock

The threads of a program stand in a list, and a step of one of them replaces its entry. Which
of them are at some place (`Threads.At`), and how many, changes by the one that moves
(`Threads.at_set`, `Threads.countP_set_add`). A lock says who holds it (`Mutex`): whoever is
where the lock is held, and no other. Taking it from nobody and giving it back keep that, so
at most one thread is in there (`Mutex.unique`).
-/

universe u v

/-- The lock is held by whoever is where it is held. -/
def Mutex {κ : Type u} (lock : Option κ) (holds : κ → Prop) : Prop := ∀ k, holds k ↔ lock = some k

namespace Mutex

variable {κ : Type u} {lock : Option κ} {holds holds' : κ → Prop} {j k : κ}

/-- At most one thread is there. -/
theorem unique (h : Mutex lock holds) (hj : holds j) (hk : holds k) : j = k :=
  Option.some.inj (((h j).mp hj).symm.trans ((h k).mp hk))

/-- Nobody comes, and nobody goes. -/
theorem congr (h : Mutex lock holds) (hsame : ∀ k, holds' k ↔ holds k) : Mutex lock holds' :=
  fun k => (hsame k).trans (h k)

/-- A thread takes the lock that nobody holds. -/
theorem acquire (h : Mutex none holds) (hk : ∀ j, holds' j ↔ holds j ∨ j = k) :
    Mutex (some k) holds' := by
  intro j
  rw [hk, h j]
  exact ⟨fun hor => hor.elim nofun fun hj => congrArg some hj.symm,
    fun hj => Or.inr (Option.some.inj hj).symm⟩

/-- The thread that holds the lock gives it back. -/
theorem release (h : Mutex lock holds) (hmem : holds k) (hk : ∀ j, holds' j ↔ holds j ∧ j ≠ k) :
    Mutex none holds' := by
  intro j
  rw [hk]
  exact ⟨fun ⟨hj, hne⟩ => absurd (h.unique hj hmem) hne, nofun⟩

end Mutex

namespace Threads

variable {θ : Type v} {threads : List θ} {p : θ → Bool} {i j : ℕ} {c c' : θ}

/-- Thread `i` is at a place. -/
def At (p : θ → Bool) (threads : List θ) (i : ℕ) : Prop :=
  ∃ c, threads[i]? = some c ∧ p c = true

theorem at_iff (hc : threads[i]? = some c) : At p threads i ↔ p c = true :=
  ⟨fun ⟨_, hd, hp⟩ => Option.some.inj (hc.symm.trans hd) ▸ hp, fun hp => ⟨c, hc, hp⟩⟩

/-- Whoever moves is where it went, and the others are where they were. -/
theorem getElem?_set_of_mem (hc : threads[i]? = some c) :
    (threads.set i c')[j]? = if j = i then some c' else threads[j]? := by
  rw [List.getElem?_set]
  by_cases hij : i = j
  · subst hij
    rw [if_pos rfl, if_pos rfl, if_pos (List.getElem?_eq_some_iff.mp hc).1]
  · rw [if_neg hij, if_neg (Ne.symm hij)]

theorem at_set (hc : threads[i]? = some c) :
    At p (threads.set i c') j ↔ if j = i then p c' = true else At p threads j := by
  unfold At
  rw [getElem?_set_of_mem hc]
  by_cases hj : j = i
  · rw [if_pos hj, if_pos hj]
    exact ⟨fun ⟨d, hd, hp⟩ => Option.some.inj hd ▸ hp, fun hp => ⟨c', rfl, hp⟩⟩
  · rw [if_neg hj, if_neg hj]

/-- A new thread does not start there. -/
theorem at_append (hc : p c = false) : At p (threads ++ [c]) j ↔ At p threads j := by
  unfold At
  rcases Nat.lt_or_ge j threads.length with hj | hj
  · rw [List.getElem?_append_left hj]
  · rw [List.getElem?_append_right hj, List.getElem?_eq_none hj]
    refine iff_of_false ?_ nofun
    rintro ⟨d, hd, hp⟩
    rw [List.mem_singleton.mp (List.mem_of_getElem? hd), hc] at hp
    cases hp

/-- Nobody comes to the place, and nobody goes. -/
theorem at_set_same (hc : threads[i]? = some c) (hsame : p c' = p c) :
    At p (threads.set i c') j ↔ At p threads j := by
  rw [at_set hc]
  split
  · rename_i hj
    rw [hj, at_iff hc, hsame]
  · exact Iff.rfl

/-- The thread comes to the place. -/
theorem at_set_comes (hc : threads[i]? = some c) (hafter : p c' = true) :
    At p (threads.set i c') j ↔ At p threads j ∨ j = i := by
  rw [at_set hc]
  split
  · rename_i hj
    exact iff_of_true hafter (Or.inr hj)
  · rename_i hj
    rw [or_iff_left hj]

/-- The thread goes from there. -/
theorem at_set_goes (hc : threads[i]? = some c) (hafter : p c' = false) :
    At p (threads.set i c') j ↔ At p threads j ∧ j ≠ i := by
  rw [at_set hc]
  split
  · rename_i hj
    rw [hafter]
    exact iff_of_false nofun fun hand => hand.2 hj
  · rename_i hj
    rw [and_iff_left hj]

/-- As long as threads come only when nobody is there, at most one is. -/
theorem mutex_set {lock : Option ℕ} (h : Mutex lock (At p threads)) (hc : threads[i]? = some c)
    (hcomes : p c = false → p c' = true → ∀ j, ¬At p threads j) :
    ∃ lock, Mutex lock (At p (threads.set i c')) := by
  cases hbefore : p c <;> cases hafter : p c'
  case false.true =>
    have hnone : Mutex none (At p threads) := fun j => iff_of_false (hcomes hbefore hafter j) nofun
    exact ⟨some i, hnone.acquire fun j => at_set_comes hc hafter⟩
  case true.false =>
    exact ⟨none, h.release ((at_iff hc).mpr hbefore) fun j => at_set_goes hc hafter⟩
  all_goals exact ⟨lock, h.congr fun j => at_set_same hc (hafter.trans hbefore.symm)⟩

/-- How many are at a place after one has moved. -/
theorem countP_set_add (p : θ → Bool) (c' : θ) (hc : threads[i]? = some c) :
    (threads.set i c').countP p + (p c).toNat = threads.countP p + (p c').toNat := by
  obtain ⟨hi, rfl⟩ := List.getElem?_eq_some_iff.mp hc
  have htoNat : ∀ b : Bool, (if b = true then 1 else 0) = b.toNat := by decide
  rw [List.countP_set hi, htoNat, htoNat]
  have hle : (p threads[i]).toNat ≤ threads.countP p := by
    cases hp : p threads[i] with
    | false => exact Nat.zero_le _
    | true => exact List.countP_pos_iff.mpr ⟨_, List.getElem_mem hi, hp⟩
  omega

end Threads
