/-
  How far chains of a relation go.

  `HeightLe R n a` says that no chain of `R` from `a` has more than `n` members. A relation with
  such a bound has no cycle through `a`.
-/
import Mathlib.Logic.Relation
import Mathlib.Data.List.Chain

namespace Watershed

variable {α : Type} {R : α → α → Prop} {a : α} {n : Nat}

/-- No chain from `a` has more than `n` members. -/
def HeightLe (R : α → α → Prop) : Nat → α → Prop
  | 0, _ => False
  | n + 1, a => ∀ b, R a b → HeightLe R n b

/-- The longest chain from `a` has `n` members. -/
def IsHeight (R : α → α → Prop) (n : Nat) (a : α) : Prop := ∀ m, HeightLe R m a ↔ n ≤ m

namespace HeightLe

variable {n : Nat} {a : α}

theorem pos (h : HeightLe R n a) : 0 < n := by
  cases n with
  | zero => exact h.elim
  | succ n => exact Nat.succ_pos n

theorem mono {m : Nat} (h : HeightLe R m a) (hle : m ≤ n) : HeightLe R n a := by
  induction m generalizing n a with
  | zero => exact h.elim
  | succ m ih =>
    obtain ⟨k, rfl⟩ : ∃ k, n = k + 1 := ⟨n - 1, by omega⟩
    exact fun b hb => ih (h b hb) (by omega)

/-- A step leaves one level less. -/
theorem step {b : α} (h : HeightLe R (n + 1) a) (hab : R a b) : HeightLe R n b := h b hab

theorem not_cyclic (h : HeightLe R n a) : ¬ Relation.TransGen R a a := by
  induction n generalizing a with
  | zero => exact h.elim
  | succ n ih =>
    intro hcycle
    -- The first step of the cycle leads to a point on it that has one level less.
    obtain ⟨b, hab, hba⟩ := Relation.TransGen.head'_iff.mp hcycle
    exact ih (h.step hab) (Relation.TransGen.tail' hba hab)

/-- Fewer steps make no longer chains. -/
theorem anti {S : α → α → Prop} (hsub : ∀ a b, S a b → R a b)
    (h : HeightLe R n a) : HeightLe S n a := by
  induction n generalizing a with
  | zero => exact h
  | succ n ih => exact fun b hab => ih (h b (hsub a b hab))

theorem chain_length_le {l : List α} (h : HeightLe R n a)
    (hchain : List.IsChain R (a :: l)) : l.length + 1 ≤ n := by
  induction l generalizing n a with
  | nil => exact h.pos
  | cons b l ih =>
    rw [List.isChain_cons_cons] at hchain
    obtain ⟨k, rfl⟩ : ∃ k, n = k + 1 := ⟨n - 1, by have := h.pos; omega⟩
    have := ih (h.step hchain.1) hchain.2
    simp only [List.length_cons]
    omega

theorem of_chains (h : ∀ l, List.IsChain R (a :: l) → l.length + 1 ≤ n) : HeightLe R n a := by
  induction n generalizing a with
  | zero => exact absurd (h [] (List.isChain_singleton a)) (by simp)
  | succ n ih =>
    intro b hab
    refine ih fun l hchain => ?_
    have := h (b :: l) (List.isChain_cons_cons.mpr ⟨hab, hchain⟩)
    simp only [List.length_cons] at this
    omega

end HeightLe

theorem IsHeight.heightLe (h : IsHeight R n a) : HeightLe R n a := (h n).mpr (Nat.le_refl n)

/-- The height of a point from those of the points after it. -/
theorem isHeight_of_next (hpos : 0 < n)
    (h : ∀ m, n ≤ m + 1 ↔ ∀ b, R a b → HeightLe R m b) : IsHeight R n a := by
  intro m
  cases m with
  | zero => exact ⟨fun hzero => hzero.elim, fun hle => by omega⟩
  | succ m => exact (h m).symm

end Watershed
