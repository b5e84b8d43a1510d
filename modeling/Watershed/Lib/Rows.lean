/-
  Tables whose rows get increasing numbers, and lists read page by page.

  A table is a list of rows in no particular order of interest; a query sorts by row number. As
  long as every new row gets a number above all others, sorting gives the order of insertion back.
-/
import Mathlib.Data.List.Forall2
import Mathlib.Data.List.Sort
import Mathlib.Data.List.Infix

open List

namespace Watershed.Rows

/-! ## Row numbers -/

section
variable {α : Type} (seq : α → Nat)

/-- The number of a new row: one above the largest. -/
def next (rows : List α) : Nat := (rows.map seq).foldr max 0 + 1

/-- The rows stand in the order of their numbers. -/
def Increasing (rows : List α) : Prop := rows.Pairwise fun a b => seq a < seq b

/-- `ORDER BY seq`. -/
def ascending (rows : List α) : List α := rows.insertionSort fun a b => seq a ≤ seq b

/-- `ORDER BY seq DESC`. -/
def descending (rows : List α) : List α := rows.insertionSort fun a b => seq b ≤ seq a

variable {seq} {rows : List α} {row : α}

theorem lt_next (h : row ∈ rows) : seq row < next seq rows := by
  induction rows with
  | nil => cases h
  | cons first rows ih =>
    rw [next, map_cons, foldr_cons]
    rcases mem_cons.mp h with rfl | h
    · omega
    · have := ih h
      rw [next] at this
      omega

theorem next_le {n : Nat} (h : ∀ row ∈ rows, seq row ≤ n) : next seq rows ≤ n + 1 := by
  induction rows with
  | nil => exact Nat.succ_le_succ (Nat.zero_le n)
  | cons first rows ih =>
    rw [forall_mem_cons] at h
    have hrows := ih h.2
    rw [next] at hrows
    rw [next, map_cons, foldr_cons]
    omega

theorem Increasing.append_next (h : Increasing seq rows)
    (hrow : seq row = next seq rows) : Increasing seq (rows ++ [row]) := by
  refine pairwise_append.mpr ⟨h, pairwise_singleton _ _, fun a ha b hb => ?_⟩
  rw [mem_singleton.mp hb, hrow]
  exact lt_next ha

theorem Increasing.filter (h : Increasing seq rows) (p : α → Bool) :
    Increasing seq (rows.filter p) := h.sublist filter_sublist

theorem Increasing.ascending_eq (h : Increasing seq rows) : ascending seq rows = rows :=
  List.Pairwise.insertionSort_eq (h.imp fun h => le_of_lt h)

theorem Increasing.descending_eq (h : Increasing seq rows) : descending seq rows = rows.reverse := by
  have hperm : (descending seq rows).Perm rows.reverse :=
    (perm_insertionSort _ _).trans (reverse_perm rows).symm
  have hle : (descending seq rows).Pairwise fun a b => seq b ≤ seq a := pairwise_insertionSort _ _
  have hreverse : rows.reverse.Pairwise fun a b => seq b < seq a := pairwise_reverse.mpr h
  -- Different rows have different numbers, so the sorted list is strictly ordered too.
  have hne : (descending seq rows).Pairwise fun a b => seq a ≠ seq b :=
    hperm.symm.pairwise (hreverse.imp fun h => ne_of_gt h) fun h => h.symm
  have hlt := (hle.and hne).imp fun h => lt_of_le_of_ne h.1 h.2.symm
  exact hperm.eq_of_pairwise (fun _ _ _ _ hab hba => absurd hab (lt_asymm hba)) hlt hreverse

/-- The rows with smaller numbers are the rows before. -/
theorem Increasing.filter_lt {before after : List α}
    (h : Increasing seq (before ++ row :: after)) :
    (before ++ row :: after).filter (fun r => seq r < seq row) = before := by
  obtain ⟨-, hafter, hbefore⟩ := pairwise_append.mp h
  rw [filter_append, filter_eq_self.mpr, filter_eq_nil_iff.mpr, append_nil]
  · intro r hr hlt
    have hlt : seq r < seq row := of_decide_eq_true hlt
    rcases mem_cons.mp hr with rfl | hr
    · exact lt_irrefl _ hlt
    · exact lt_asymm hlt ((pairwise_cons.mp hafter).1 r hr)
  · exact fun r hr => decide_eq_true (hbefore r hr row mem_cons_self)

end

/-! ## Rows for items -/

section
variable {α β : Type} {R : α → β → Prop} {rows : List α} {items : List β}

theorem exists_item_of_mem (h : List.Forall₂ R rows items) {row : α} (hrow : row ∈ rows) :
    ∃ item ∈ items, R row item := by
  induction h with
  | nil => cases hrow
  | cons hfirst _ ih =>
    rcases mem_cons.mp hrow with rfl | hrow
    · exact ⟨_, mem_cons_self, hfirst⟩
    · obtain ⟨item, hitem, hrel⟩ := ih hrow
      exact ⟨item, mem_cons_of_mem _ hitem, hrel⟩

/-- A search in the rows finds the row of the item that a search in the items finds. -/
theorem find?_rows (h : List.Forall₂ R rows items) {p : α → Bool} {q : β → Bool}
    (hpq : ∀ row item, R row item → p row = q item) :
    (rows.find? p = none ∧ items.findIdx? q = none) ∨
      ∃ before row after itemsBefore item itemsAfter, rows = before ++ row :: after ∧
        items = itemsBefore ++ item :: itemsAfter ∧ List.Forall₂ R before itemsBefore ∧
        rows.find? p = some row ∧ items.findIdx? q = some itemsBefore.length := by
  induction h with
  | nil => exact .inl ⟨rfl, rfl⟩
  | @cons row item rows items hfirst hrest ih =>
    cases hrow : p row with
    | true =>
      have hitem : q item = true := by rw [← hpq _ _ hfirst, hrow]
      refine .inr ⟨[], row, rows, [], item, items, rfl, rfl, .nil, ?_, ?_⟩
      · rw [List.find?_cons_of_pos hrow]
      · simp [List.findIdx?_cons, hitem]
    | false =>
      have hitem : q item = false := by rw [← hpq _ _ hfirst, hrow]
      rw [List.find?_cons_of_neg (by simp [hrow]), List.findIdx?_cons, hitem]
      rcases ih with ⟨hnone, hnone'⟩ | ⟨before, found, after, itemsBefore, foundItem,
        itemsAfter, rfl, rfl, hbefore, hfind, hfindIdx⟩
      · exact .inl ⟨hnone, by simp [hnone']⟩
      · exact .inr ⟨row :: before, found, after, item :: itemsBefore, foundItem, itemsAfter, rfl,
          rfl, .cons hfirst hbefore, hfind, by simp [hfindIdx]⟩

end

/-! ## Pages -/

section
variable {ε α κ : Type}

/-- Reads page after page, each from the key of the last item of the one before, until a page is
    empty. -/
def pages (page : Option κ → Except ε (List α)) (key : α → κ) :
    Nat → Option κ → Except ε (List α)
  | 0, _ => .ok []
  | fuel + 1, before => do
    let items ← page before
    match items.getLast? with
    | none => return []
    | some last => return items ++ (← pages page key fuel (some (key last)))

/-- `page` cuts `items` into pages of up to `limit` items. -/
structure Cuts (page : Option κ → Except ε (List α)) (key : α → κ) (limit : Nat) (items : List α) :
    Prop where
  first : page none = .ok (items.take limit)
  after : ∀ before item rest, items = before ++ item :: rest →
    page (some (key item)) = .ok (rest.take limit)

variable {page : Option κ → Except ε (List α)} {key : α → κ} {limit : Nat} {items : List α}
  {fuel : Nat}

theorem Cuts.pages_rest (h : Cuts page key limit items) (hlimit : 0 < limit)
    (done rest : List α) {before : Option κ} (hitems : items = done ++ rest)
    (hpage : page before = .ok (rest.take limit)) (hfuel : rest.length < fuel) :
    pages page key fuel before = .ok rest := by
  induction fuel generalizing done rest before with
  | zero => omega
  | succ fuel ih =>
    rw [pages, hpage]
    obtain rfl | hne := eq_or_ne rest []
    · simp [bind, Except.bind, pure, Except.pure]
    have htake : rest.take limit ≠ [] := by
      simp only [ne_eq, take_eq_nil_iff, not_or]
      exact ⟨by omega, hne⟩
    have hlast : (rest.take limit).dropLast ++ (rest.take limit).getLast htake ::
        rest.drop limit = rest := by
      rw [← concat_append, concat_eq_append, dropLast_append_getLast, take_append_drop]
    have hrest : pages page key fuel (some (key ((rest.take limit).getLast htake))) =
        .ok (rest.drop limit) := by
      refine ih (done ++ rest.take limit) (rest.drop limit) ?_ ?_ ?_
      · rw [hitems, append_assoc, take_append_drop]
      · refine h.after (done ++ (rest.take limit).dropLast) _ _ ?_
        rw [hitems, append_assoc, hlast]
      · have hpos := length_pos_of_ne_nil hne
        rw [length_drop]
        omega
    simp only [bind, Except.bind, List.getLast?_eq_some_getLast htake, hrest, pure, Except.pure,
      take_append_drop]

/-- Reading page by page gives every item once, in order. -/
theorem Cuts.pages_eq (h : Cuts page key limit items) (hlimit : 0 < limit)
    (hfuel : items.length < fuel) : pages page key fuel none = .ok items :=
  h.pages_rest hlimit [] items rfl h.first hfuel

end

end Watershed.Rows
