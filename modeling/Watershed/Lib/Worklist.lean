/-
  Following a relation with a stack of pending items.

  An item is taken once; what it leads to is pushed. The items taken at the end are those that can
  be reached, when there are finitely many of them.
-/
import Mathlib.Logic.Relation
import Mathlib.Data.List.Perm.Subperm

open List Relation

namespace Watershed.Worklist

variable {α ε σ : Type}

/-- Pops items until none is pending. An item that was taken before is passed over; any other one
    changes the state and gives the items to push. Without enough fuel there is no result. -/
def run [DecidableEq α] (step : α → σ → Except ε (σ × List α)) :
    Nat → List α → List α → σ → Except ε (Option σ)
  | 0, _, _, _ => .ok none
  | _ + 1, [], _, state => .ok (some state)
  | fuel + 1, item :: pending, taken, state =>
    if item ∈ taken then run step fuel pending taken state
    else do
      let (state, pushed) ← step item state
      run step fuel (pushed.reverse ++ pending) (item :: taken) state

variable {R : α → α → Prop} {start : α} {pending taken : List α} {item : α}

/-- What holds of the pending and the taken items all along. -/
structure Frontier (R : α → α → Prop) (start : α) (pending taken : List α) : Prop where
  nodup : taken.Nodup
  taken_reached : ∀ a ∈ taken, ReflTransGen R start a
  pending_reached : ∀ a ∈ pending, ReflTransGen R start a
  start : start ∈ taken ∨ start ∈ pending
  closed : ∀ a ∈ taken, ∀ b, R a b → b ∈ taken ∨ b ∈ pending

namespace Frontier

theorem init : Frontier R start [start] [] where
  nodup := nodup_nil
  taken_reached := by simp
  pending_reached := by simp [ReflTransGen.refl]
  start := by simp
  closed := by simp

/-- Once nothing is pending, the taken items are the reachable ones. -/
theorem mem_iff (h : Frontier R start [] taken) {a : α} : a ∈ taken ↔ ReflTransGen R start a := by
  refine ⟨h.taken_reached a, fun hreach => ?_⟩
  induction hreach with
  | refl => exact h.start.resolve_right not_mem_nil
  | tail _ hab ih => exact (h.closed _ ih _ hab).resolve_right not_mem_nil

theorem skip (h : Frontier R start (item :: pending) taken) (hitem : item ∈ taken) :
    Frontier R start pending taken := by
  have hmove : ∀ a, a ∈ taken ∨ a ∈ item :: pending → a ∈ taken ∨ a ∈ pending := by
    intro a ha
    rw [mem_cons] at ha
    rcases ha with ha | rfl | ha
    · exact .inl ha
    · exact .inl hitem
    · exact .inr ha
  exact ⟨h.nodup, h.taken_reached, (forall_mem_cons.mp h.pending_reached).2,
    hmove start h.start, fun a ha b hab => hmove b (h.closed a ha b hab)⟩

theorem take {pushed : List α} (h : Frontier R start (item :: pending) taken)
    (hitem : item ∉ taken) (hpushed : ∀ b, b ∈ pushed ↔ R item b) :
    Frontier R start (pushed.reverse ++ pending) (item :: taken) := by
  have hreached := h.pending_reached item mem_cons_self
  have hmove : ∀ a, a ∈ taken ∨ a ∈ item :: pending →
      a ∈ item :: taken ∨ a ∈ pushed.reverse ++ pending := by
    intro a ha
    simp only [mem_cons, mem_append] at ha ⊢
    rcases ha with ha | ha | ha
    · exact .inl (.inr ha)
    · exact .inl (.inl ha)
    · exact .inr (.inr ha)
  refine ⟨nodup_cons.mpr ⟨hitem, h.nodup⟩, ?_, ?_, hmove start h.start, ?_⟩
  · exact forall_mem_cons.mpr ⟨hreached, h.taken_reached⟩
  · intro a ha
    rw [mem_append, mem_reverse, hpushed] at ha
    rcases ha with ha | ha
    · exact hreached.tail ha
    · exact h.pending_reached a (mem_cons_of_mem _ ha)
  · refine forall_mem_cons.mpr ⟨fun b hb => ?_, fun a ha b hab => hmove b (h.closed a ha b hab)⟩
    exact .inr (mem_append_left _ (mem_reverse.mpr ((hpushed b).mpr hb)))

end Frontier

variable [DecidableEq α]
variable {step : α → σ → Except ε (σ × List α)} {stateOf : List α → σ} {all : List α}
  (hfinite : ∀ a, ReflTransGen R start a → a ∈ all)
  (hstep : ∀ a taken, (a :: taken).Nodup → (∀ b ∈ a :: taken, ReflTransGen R start b) →
    ∃ pushed, step a (stateOf taken) = .ok (stateOf (a :: taken), pushed) ∧
      ∀ b, b ∈ pushed ↔ R a b)
include hfinite hstep

/-- When the state is determined by the items taken, and every item that can be reached is handled,
    the run ends with the state of exactly the reachable items. -/
theorem run_of_frontier (h : Frontier R start pending taken) :
    ∃ steps final, Frontier R start [] final ∧
      ∀ fuel, steps ≤ fuel → run step fuel pending taken (stateOf taken) =
        .ok (some (stateOf final)) := by
  -- Every new item leaves fewer that are not taken; every other one leaves fewer pending.
  induction hfree : all.length - taken.length using Nat.strongRecOn generalizing pending taken with
  | ind free ih =>
    induction pending with
    | nil =>
      refine ⟨1, taken, h, fun fuel hfuel => ?_⟩
      obtain ⟨n, rfl⟩ : ∃ n, fuel = n + 1 := ⟨fuel - 1, by omega⟩
      rfl
    | cons item pending ihPending =>
      by_cases hitem : item ∈ taken
      · obtain ⟨steps, final, hfinal, hrun⟩ := ihPending (h.skip hitem)
        refine ⟨steps + 1, final, hfinal, fun fuel hfuel => ?_⟩
        obtain ⟨n, rfl⟩ : ∃ n, fuel = n + 1 := ⟨fuel - 1, by omega⟩
        rw [run, if_pos hitem]
        exact hrun n (by omega)
      · have hnodup := nodup_cons.mpr ⟨hitem, h.nodup⟩
        have hreached : ∀ b ∈ item :: taken, ReflTransGen R start b := forall_mem_cons.mpr
            ⟨h.pending_reached item mem_cons_self, h.taken_reached⟩
        obtain ⟨pushed, hok, hpushed⟩ := hstep item taken hnodup hreached
        have hlength : taken.length + 1 ≤ all.length :=
          (List.Nodup.subperm hnodup fun b hb => hfinite b (hreached b hb)).length_le
        obtain ⟨steps, final, hfinal, hrun⟩ := ih (all.length - (taken.length + 1)) (by omega)
          (h.take hitem hpushed) rfl
        refine ⟨steps + 1, final, hfinal, fun fuel hfuel => ?_⟩
        obtain ⟨n, rfl⟩ : ∃ n, fuel = n + 1 := ⟨fuel - 1, by omega⟩
        rw [run, if_neg hitem, hok]
        exact hrun n (by omega)

theorem run_reaches :
    ∃ steps final, final.Nodup ∧ (∀ a, a ∈ final ↔ ReflTransGen R start a) ∧
      ∀ fuel, steps ≤ fuel → run step fuel [start] [] (stateOf []) =
        .ok (some (stateOf final)) := by
  obtain ⟨steps, final, hfinal, hrun⟩ := run_of_frontier hfinite hstep Frontier.init
  exact ⟨steps, final, hfinal.nodup, fun _ => hfinal.mem_iff, hrun⟩

end Watershed.Worklist
