/-
  Collecting along a relation depth first, with a mark on what was visited.

  Entering an item that is marked does nothing; entering any other one marks it, changes the state
  and gives references to the items to go on with. What is marked in the end, besides what was
  marked before, is what can be reached.
-/
import Watershed.Lib.Chains
import Watershed.Lib.Fallible

open List

namespace Watershed.DepthFirst

variable {α ρ ε σ κ : Type}

/-- Goes on with each reference in turn. -/
def collectEach (resolve : ρ → Except ε α) (collect : α → σ → Except ε σ) :
    List ρ → σ → Except ε σ
  | [], state => .ok state
  | reference :: references, state => do
    let item ← resolve reference
    let state ← collect item state
    collectEach resolve collect references state

/-- Collects from an item. Deeper than `fuel` levels it fails with `cutOff`. -/
def collect (resolve : ρ → Except ε α) (enter : α → σ → Except ε (Option (σ × List ρ)))
    (cutOff : ε) : Nat → α → σ → Except ε σ
  | 0, _, _ => .error cutOff
  | fuel + 1, item, state => do
    match ← enter item state with
    | none => .ok state
    | some (state, references) =>
      collectEach resolve (collect resolve enter cutOff fuel) references state

/-! ## What gets marked -/

variable {R : κ → κ → Prop} {Marked : σ → κ → Prop}

/-- The marks grow by what can be reached from some roots, as far as it was not marked. -/
structure Grows (R : κ → κ → Prop) (Marked : σ → κ → Prop) (roots : List κ) (before after : σ) :
    Prop where
  keeps : ∀ k, Marked before k → Marked after k
  marks : ∀ k ∈ roots, Marked after k
  reaches : ∀ k, Marked after k → Marked before k ∨ ∃ root ∈ roots, Relation.ReflTransGen R root k
  closed : ∀ k, Marked after k → ¬ Marked before k → ∀ next, R k next → Marked after next

namespace Grows

variable {roots roots' : List κ} {state before after final : σ} {k : κ}

theorem refl : Grows R Marked [] state state where
  keeps := fun _ hk => hk
  marks := by simp
  reaches := fun _ hk => .inl hk
  closed := fun _ hk hnot => absurd hk hnot

theorem of_marked (h : Marked state k) : Grows R Marked [k] state state where
  keeps := fun _ hk => hk
  marks := by simpa using h
  reaches := fun _ hk => .inl hk
  closed := fun _ hk hnot => absurd hk hnot

theorem append (h : Grows R Marked roots before after) (h' : Grows R Marked roots' after final) :
    Grows R Marked (roots ++ roots') before final where
  keeps := fun k hk => h'.keeps k (h.keeps k hk)
  marks := by
    intro k hk
    rcases mem_append.mp hk with hk | hk
    · exact h'.keeps k (h.marks k hk)
    · exact h'.marks k hk
  reaches := by
    intro k hk
    rcases h'.reaches k hk with hk | ⟨root, hroot, hreach⟩
    · exact (h.reaches k hk).imp_right fun hreach => hreach.imp fun root hroot =>
        ⟨mem_append_left _ hroot.1, hroot.2⟩
    · exact .inr ⟨root, mem_append_right _ hroot, hreach⟩
  closed := by
    intro k hk hnot next hnext
    by_cases hafter : Marked after k
    · exact h'.keeps next (h.closed k hafter hnot next hnext)
    · exact h'.closed k hk hafter next hnext

/-- After an item was marked, going on with all it leads to completes the growth from it. -/
theorem of_enter (hmarks : ∀ k', Marked after k' ↔ Marked before k' ∨ k' = k)
    (hroots : ∀ k', k' ∈ roots ↔ R k k') (h : Grows R Marked roots after final) :
    Grows R Marked [k] before final where
  keeps := fun k' hk' => h.keeps k' ((hmarks k').mpr (.inl hk'))
  marks := by
    intro k' hk'
    exact h.keeps k' ((hmarks k').mpr (.inr (mem_singleton.mp hk')))
  reaches := by
    intro k' hk'
    rcases h.reaches k' hk' with hk' | ⟨root, hroot, hreach⟩
    · rcases (hmarks k').mp hk' with hk' | rfl
      · exact .inl hk'
      · exact .inr ⟨k', mem_singleton_self k', .refl⟩
    · exact .inr ⟨k, mem_singleton_self k, .head ((hroots root).mp hroot) hreach⟩
  closed := by
    intro k' hk' hnot next hnext
    by_cases heq : k' = k
    · exact h.marks next ((hroots next).mpr (heq ▸ hnext))
    · exact h.closed k' hk' (fun hafter => ((hmarks k').mp hafter).elim hnot heq) next hnext

/-- When the marks were closed under the relation, they are afterwards, and what was added is
    exactly what can be reached. -/
theorem marked_iff (h : Grows R Marked roots before after)
    (hbefore : ∀ k, Marked before k → ∀ next, R k next → Marked before next) (k : κ) :
    Marked after k ↔ Marked before k ∨ ∃ root ∈ roots, Relation.ReflTransGen R root k := by
  refine ⟨h.reaches k, ?_⟩
  rintro (hk | ⟨root, hroot, hreach⟩)
  · exact h.keeps k hk
  · induction hreach with
    | refl => exact h.marks root hroot
    | tail _ hstep ih =>
      rename_i b c _
      by_cases hb : Marked before b
      · exact h.keeps c (hbefore b hb c hstep)
      · exact h.closed b ih hb c hstep

end Grows

/-! ## Collecting -/

variable {resolve : ρ → Except ε α} {key : α → κ} {Good : α → Prop} {Inv : σ → Prop} {state : σ}

/-- Items collected one after another, each with what it leads to. -/
theorem collectEach_grows (step : α → σ → Except ε σ) {references : List ρ} {items : List α}
    (hresolve : List.Forall₂ (fun reference item => resolve reference = .ok item) references items)
    (hstep : ∀ item ∈ items, ∀ state, Inv state → ∃ after, step item state = .ok after ∧
      Inv after ∧ Grows R Marked [key item] state after)
    (hinv : Inv state) :
    ∃ after, collectEach resolve step references state = .ok after ∧ Inv after ∧
      Grows R Marked (items.map key) state after := by
  induction hresolve generalizing state with
  | nil => exact ⟨state, rfl, hinv, .refl⟩
  | cons hitem _ ih =>
    rw [forall_mem_cons] at hstep
    obtain ⟨between, hbetween, hinv, hgrows⟩ := hstep.1 state hinv
    obtain ⟨after, hafter, hinv, hgrows'⟩ := ih hstep.2 hinv
    refine ⟨after, ?_, hinv, hgrows.append hgrows'⟩
    rw [collectEach, hitem]
    change (step _ state >>= _) = _
    rw [hbetween]
    exact hafter

/-- What entering an item does: nothing if it is marked; otherwise it is marked, and the references
    lead to exactly the items after it. -/
def Enters (R : κ → κ → Prop) (Marked : σ → κ → Prop) (resolve : ρ → Except ε α) (key : α → κ)
    (Good : α → Prop) (Inv : σ → Prop) (enter : α → σ → Except ε (Option (σ × List ρ)))
    (item : α) (state : σ) : Prop :=
  (Marked state (key item) ∧ enter item state = .ok none) ∨
  ∃ after references items, enter item state = .ok (some (after, references)) ∧ Inv after ∧
    (∀ k, Marked after k ↔ Marked state k ∨ k = key item) ∧
    List.Forall₂ (fun reference item => resolve reference = .ok item) references items ∧
    (∀ next ∈ items, Good next) ∧ ∀ k, k ∈ items.map key ↔ R (key item) k

theorem collect_grows {enter : α → σ → Except ε (Option (σ × List ρ))} (cutOff : ε)
    (henter : ∀ item state, Good item → Inv state →
      Enters R Marked resolve key Good Inv enter item state)
    {fuel : Nat} {item : α} (hheight : HeightLe R fuel (key item)) (hgood : Good item)
    (hinv : Inv state) :
    ∃ after, collect resolve enter cutOff fuel item state = .ok after ∧ Inv after ∧
      Grows R Marked [key item] state after := by
  induction fuel generalizing item state with
  | zero => exact hheight.elim
  | succ fuel ih =>
    rw [collect]
    rcases henter item state hgood hinv with ⟨hmarked, hnone⟩ | ⟨between, references, items, hsome,
      hinv, hmarks, hresolve, hitems, hnext⟩
    · rw [hnone]
      exact ⟨state, rfl, hinv, .of_marked hmarked⟩
    · rw [hsome]
      obtain ⟨after, hafter, hinv, hgrows⟩ := collectEach_grows
        (collect resolve enter cutOff fuel) hresolve
        (fun next hmem state hinv => ih (hheight.step ((hnext _).mp (mem_map_of_mem hmem)))
          (hitems next hmem) hinv) hinv
      exact ⟨after, hafter, hinv, hgrows.of_enter hmarks hnext⟩

end Watershed.DepthFirst
