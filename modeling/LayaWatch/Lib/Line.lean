import Mathlib.Data.List.Nodup
import Mathlib.Data.List.Perm.Basic
import Mathlib.Logic.Relation

/-!
# Lines: items in order of arrival

A `Line` is a queue with its history: items come in at the back; they leave from
the front, delivered or discarded, or from anywhere, evicted. Where a batch is
between the queue and its delivery, it counts as the front of the line, so
taking a batch and putting it back are no steps at all.

What was delivered, followed by the line, keeps the order of arrival, and every
item that came in is in one place (`Ordered`). So with no two items alike, the
items missing from that sequence are just the evicted and the discarded ones
(`Ordered.missing`). A relation between what is in front and what is behind it
is kept as long as new items respect it (`Steps.pairwise`).
-/

universe u v

/-- A line with its history. -/
structure Line (α : Type u) where
  /-- what came in, oldest first -/
  appended : List α
  /-- what was delivered, in that order -/
  delivered : List α
  /-- what was taken from the front and lost -/
  discarded : List α
  /-- what was taken out of the middle and lost -/
  evicted : List α
  /-- what is in the line, oldest first -/
  line : List α

namespace Line

variable {α : Type u}

/-- One change of a line. -/
inductive Step : Line α → Line α → Prop
  /-- an item comes in -/
  | append (l : Line α) (item : α) :
      Step l { l with appended := l.appended ++ [item], line := l.line ++ [item] }
  /-- an item is evicted -/
  | evict {l : Line α} {older newer : List α} {gone : α} (h : l.line = older ++ gone :: newer) :
      Step l { l with evicted := l.evicted ++ [gone], line := older ++ newer }
  /-- a batch is delivered -/
  | deliver {l : Line α} {batch rest : List α} (h : l.line = batch ++ rest) :
      Step l { l with delivered := l.delivered ++ batch, line := rest }
  /-- a batch is lost -/
  | discard {l : Line α} {batch rest : List α} (h : l.line = batch ++ rest) :
      Step l { l with discarded := l.discarded ++ batch, line := rest }

/-- Any number of changes. -/
def Steps : Line α → Line α → Prop := Relation.ReflTransGen Step

theorem Steps.refl (l : Line α) : Steps l l := Relation.ReflTransGen.refl

theorem Step.steps {l l' : Line α} (h : Step l l') : Steps l l' := Relation.ReflTransGen.single h

theorem Steps.snoc {l l' l'' : Line α} (h : Steps l l') (h' : Step l' l'') : Steps l l'' :=
  Relation.ReflTransGen.tail h h'

/-- The order is kept, and nothing is lost or doubled unseen. -/
structure Ordered (l : Line α) : Prop where
  /-- what was delivered and what is in line is in order of arrival -/
  sublist : (l.delivered ++ l.line).Sublist l.appended
  /-- every item that came in is in one place -/
  perm : l.appended.Perm (l.delivered ++ l.discarded ++ l.evicted ++ l.line)

theorem Ordered.step {l l' : Line α} (h : Ordered l) (hs : Step l l') : Ordered l' := by
  cases hs with
  | append item =>
    constructor
    · dsimp only
      rw [← List.append_assoc]
      exact h.sublist.append (List.Sublist.refl _)
    · dsimp only
      rw [← List.append_assoc]
      exact h.perm.append_right [item]
  | @evict older newer gone hline =>
    obtain ⟨hsub, hperm⟩ := h
    rw [hline] at hsub hperm
    constructor
    · refine List.Sublist.trans ?_ hsub
      exact ((List.sublist_cons_self gone newer).append_left older).append_left l.delivered
    · -- the evicted item moves in front of those that stay
      refine hperm.trans ?_
      have hmove : (older ++ gone :: newer).Perm ([gone] ++ (older ++ newer)) :=
        List.perm_middle
      dsimp only
      rw [← List.append_assoc _ l.evicted [gone], List.append_assoc _ [gone]]
      exact hmove.append_left _
  | @deliver batch rest hline =>
    obtain ⟨hsub, hperm⟩ := h
    rw [hline] at hsub hperm
    constructor
    · dsimp only
      rw [List.append_assoc]
      exact hsub
    · refine hperm.trans ?_
      -- the batch moves to the delivered ones, past those that were lost
      dsimp only
      simp only [List.append_assoc]
      refine List.Perm.append_left l.delivered ?_
      rw [← List.append_assoc, ← List.append_assoc, ← List.append_assoc batch,
        ← List.append_assoc _ l.evicted]
      refine List.Perm.append_right rest ?_
      rw [List.append_assoc batch]
      exact List.perm_append_comm
  | @discard batch rest hline =>
    obtain ⟨hsub, hperm⟩ := h
    rw [hline] at hsub hperm
    constructor
    · refine List.Sublist.trans ?_ hsub
      exact (List.sublist_append_right batch rest).append_left l.delivered
    · refine hperm.trans ?_
      dsimp only
      simp only [List.append_assoc]
      refine (List.Perm.append_left l.discarded ?_).append_left l.delivered
      rw [← List.append_assoc, ← List.append_assoc]
      exact List.perm_append_comm.append_right rest

/-- **The run rule.** The order is kept over any number of changes. -/
theorem Ordered.steps {l l' : Line α} (h : Ordered l) (hs : Steps l l') : Ordered l' := by
  induction hs with
  | refl => exact h
  | tail _ hstep ih => exact ih.step hstep

/-- The items that are neither delivered nor in line are the lost ones. -/
theorem Ordered.missing {l : Line α} (h : Ordered l) (hnodup : l.appended.Nodup) (item : α) :
    (item ∈ l.appended ∧ item ∉ l.delivered ++ l.line) ↔
      item ∈ l.evicted ∨ item ∈ l.discarded := by
  have hmem := h.perm.mem_iff (a := item)
  have hall : (l.delivered ++ l.discarded ++ l.evicted ++ l.line).Nodup :=
    h.perm.nodup_iff.mp hnodup
  simp only [List.mem_append] at hmem ⊢
  rw [List.nodup_append, List.nodup_append, List.nodup_append] at hall
  obtain ⟨⟨⟨-, -, hdd⟩, -, hde⟩, -, hdl⟩ := hall
  simp only [List.mem_append] at hde hdl
  constructor
  · rintro ⟨hin, hout⟩
    rcases hmem.mp hin with ((hx | hx) | hx) | hx
    · exact absurd (Or.inl hx) hout
    · exact Or.inr hx
    · exact Or.inl hx
    · exact absurd (Or.inr hx) hout
  · rintro (hx | hx)
    · refine ⟨hmem.mpr (Or.inl (Or.inr hx)), ?_⟩
      rintro (hy | hy)
      · exact hde _ (Or.inl hy) _ hx rfl
      · exact hdl _ (Or.inr hx) _ hy rfl
    · refine ⟨hmem.mpr (Or.inl (Or.inl (Or.inr hx))), ?_⟩
      rintro (hy | hy)
      · exact hdd _ hy _ hx rfl
      · exact hdl _ (Or.inl (Or.inr hx)) _ hy rfl

/-- The order alone is kept, also where items have left the line unseen. -/
theorem Steps.sublist {l l' : Line α} (h : Steps l l')
    (hsub : (l.delivered ++ l.line).Sublist l.appended) :
    (l'.delivered ++ l'.line).Sublist l'.appended := by
  induction h with
  | refl => exact hsub
  | tail _ hstep ih =>
    cases hstep with
    | append item =>
      rw [← List.append_assoc]
      exact ih.append (List.Sublist.refl _)
    | evict hline =>
      rw [hline] at ih
      exact (((List.sublist_cons_self _ _).append_left _).append_left _).trans ih
    | deliver hline =>
      rw [hline, ← List.append_assoc] at ih
      exact ih
    | discard hline =>
      rw [hline] at ih
      exact ((List.sublist_append_right _ _).append_left _).trans ih

/-! ## Relations along the line -/

theorem Step.appended_grows {l l' : Line α} (h : Step l l') : l.appended <+: l'.appended := by
  cases h with
  | append item => exact List.prefix_append _ _
  | evict _ | deliver _ | discard _ => exact List.prefix_refl _

theorem Steps.appended_grows {l l' : Line α} (h : Steps l l') : l.appended <+: l'.appended := by
  induction h with
  | refl => exact List.prefix_refl _
  | tail _ hstep ih => exact ih.trans hstep.appended_grows

/-- What has left the line stays where it went. -/
theorem Steps.gone {l l' : Line α} (h : Steps l l') {item : α}
    (hi : item ∈ l.delivered ∨ item ∈ l.discarded ∨ item ∈ l.evicted) :
    item ∈ l'.delivered ∨ item ∈ l'.discarded ∨ item ∈ l'.evicted := by
  induction h with
  | refl => exact hi
  | tail _ hstep ih =>
    cases hstep with
    | append _ => exact ih
    | evict _ => exact ih.imp_right (Or.imp_right (List.mem_append_left _))
    | deliver _ => exact ih.imp_left (List.mem_append_left _)
    | discard _ => exact ih.imp_right (Or.imp_left (List.mem_append_left _))

/-- A relation between what is further in front and what is behind is kept, where
every new item (one with a new key) is behind whatever is there. -/
theorem Steps.pairwise {β : Type v} {R : α → α → Prop} (key : α → β) {l l' : Line α}
    (h : Steps l l') (hnodup : (l'.appended.map key).Nodup)
    (hnew : ∀ a item, key item ∉ l.appended.map key → R a item) (hline : l.line.Pairwise R) :
    l'.line.Pairwise R := by
  induction h with
  | refl => exact hline
  | @tail m m' hsteps hstep ih =>
    have hm := ih (hnodup.sublist (hstep.appended_grows.sublist.map key))
    cases hstep with
    | append item =>
      refine List.pairwise_append.mpr ⟨hm, List.pairwise_singleton _ _, fun a _ x hx => ?_⟩
      rw [List.mem_singleton.mp hx]
      refine hnew a item fun hmem => ?_
      have hold : key item ∈ m.appended.map key :=
        (Steps.appended_grows hsteps).sublist.map key |>.subset hmem
      dsimp only at hnodup
      rw [List.map_append] at hnodup
      exact List.disjoint_of_nodup_append hnodup hold (List.mem_singleton_self _)
    | @evict older newer gone heq =>
      rw [heq] at hm
      exact hm.sublist ((List.sublist_cons_self gone newer).append_left older)
    | deliver heq | discard heq =>
      rw [heq] at hm
      exact (List.pairwise_append.mp hm).2.1

/-- Where those with `p` are in front of the others, a front part has it
throughout just if it is no longer than there are items with `p`. -/
theorem forall_front_iff {p : α → Bool} {batch rest : List α}
    (h : (batch ++ rest).Pairwise fun a b => p b = true → p a = true) :
    (∀ a ∈ batch, p a = true) ↔ batch.length ≤ (batch ++ rest).countP p := by
  constructor
  · intro hall
    rw [List.countP_append, List.countP_eq_length.mpr hall]
    exact Nat.le_add_right _ _
  · intro hle a ha
    by_contra hp
    -- then `p` fails from `a` on, and only what is in front of it counts
    obtain ⟨front, back, rfl⟩ := List.append_of_mem ha
    rw [List.append_assoc, List.cons_append] at h hle
    have hback := (List.pairwise_cons.mp (List.pairwise_append.mp h).2.1).1
    have hzero : (a :: (back ++ rest)).countP p = 0 := by
      refine List.countP_eq_zero.mpr fun b hb hpb => hp ?_
      rcases List.mem_cons.mp hb with rfl | hb
      · exact hpb
      · exact hback b hb hpb
    rw [List.countP_append, hzero, List.length_append, List.length_cons] at hle
    have := List.countP_le_length (p := p) (l := front)
    omega

end Line
