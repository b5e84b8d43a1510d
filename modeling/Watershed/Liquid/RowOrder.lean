/-
  Where new rows go.

  The sort keys of the rows that this code writes are valid and strictly increasing, in every
  Database of a Page (`RowsOk`), so a row that is added lands exactly in its place.
-/
import Watershed.Liquid.PageRun

namespace Watershed.Liquid

open List
open SortKey (Spaced)

variable {s t : State} {b : BlockId}

/-! ## The gap for a new row -/

namespace Index

variable {ix : Index} {place : Place RowId} {i : Nat}

theorem position_lt {r : RowId} (h : ix.position r = some i) :
    i < ix.rows.length ∧ ∀ x, ix.rows[i]? = some x → x.id = r := by
  obtain ⟨hlt, hr, -⟩ := findIdx?_eq_some_iff_getElem.mp h
  refine ⟨hlt, fun x hx => ?_⟩
  rw [getElem?_eq_getElem hlt] at hx
  cases hx
  simpa using hr

theorem slot_le (h : ix.slot place = some i) : i ≤ ix.rows.length := by
  cases place with
  | first | last => simp [slot] at h; omega
  | after r =>
    obtain ⟨j, hj, rfl⟩ := Option.map_eq_some_iff.mp h
    have := (position_lt hj).1
    omega

/-- A new row lands exactly in its place. -/
theorem insert_slot (h : Spaced Indexed.sort ix.rows) {sort : String}
    (r : RowId) (hk : ix.keyAt place = .ok sort) : ∃ i, ix.slot place = some i ∧
      (ix.insert sort r).rows = ix.rows.take i ++ ⟨sort, r, fun _ => none⟩ :: ix.rows.drop i ∧
      Spaced Indexed.sort (ix.insert sort r).rows := by
  obtain ⟨i, hi, hsort⟩ := keyAt_eq_ok.mp hk
  obtain ⟨hbelow, habove⟩ := h.between_gap (slot_le hi) hsort
  have hrows : (ix.insert sort r).rows =
      ix.rows.take i ++ ⟨sort, r, fun _ => none⟩ :: ix.rows.drop i := by
    obtain ⟨htake, hdrop⟩ := takeWhile_lex (fun row => row.id.asStr) r.asStr hbelow habove
    rw [insert_eq, htake, hdrop]
  refine ⟨i, hi, hrows, ?_⟩
  rw [hrows]
  exact h.insert hbelow habove (keyAt_valid hk)

end Index

/-! ## Every Database of a Page -/

/-- The rows of `b` have valid, strictly increasing sort keys. -/
def RowsOk (s : State) (b : BlockId) : Prop :=
  Spaced (fun row : Entry => (row.get "sort").getD "") (sortedIn s (rowsPath b))

theorem rowsOk_iff : RowsOk s b ↔ Spaced Indexed.sort (rowsOf s b).rows := by
  constructor
  · intro h
    exact h.map fun _ _ => rfl
  · intro h
    refine ⟨?_, fun row hrow => h.valid (indexed s b (Database.kinds s (fieldsPath b)) row)
      (mem_map_of_mem hrow)⟩
    have hsorted := h.sorted
    unfold Ordered rowsOf at hsorted
    rw [pairwise_map] at hsorted
    exact hsorted

theorem RowsOk.of_sameUnder (h : RowsOk s b) (hs : SameUnder (rowsPath b) t s) : RowsOk t b := by
  unfold RowsOk
  rw [hs.sortedIn]
  exact h

/-- Without rows there is nothing to order. -/
theorem RowsOk.of_none (h : ∀ k, s.node (k :: rowsPath b) = none) : RowsOk s b := by
  have hnil : sortedIn s (rowsPath b) = [] := by
    refine eq_nil_iff_forall_not_mem.mpr fun e he => ?_
    have hmap := (entryAt_eq_some.mp (mem_sortedIn.mp he).2).1
    rw [h] at hmap
    cases hmap
  unfold RowsOk
  rw [hnil]
  exact Spaced.nil

/-- One step of a Page keeps the rows of every Database in order. -/
theorem RowsOk.apply {μ : PageStep} (h : RowsOk s b) (hg : μ.Guard s) : RowsOk (μ.apply s) b := by
  by_cases hf : μ.footprint = blockPath b
  swap
  · exact h.of_sameUnder ((μ.sameUnder_of_ne s rfl (Ne.symm hf)).below "rows")
  have hout := μ.sameOutside s
  cases μ
  case newView | boundary | removeView => simp [PageStep.footprint] at hf
  all_goals obtain rfl := blockPath_inj hf
  case newText b name cs =>
    refine RowsOk.of_none fun k => ?_
    rw [PageStep.apply]
    simp [State.insertEntry, State.setFields, State.set, suffix_cons_iff]
  case newDatabase b name f sort =>
    refine RowsOk.of_none fun k => ?_
    rw [PageStep.apply, State.node_insertField_frame (by simp [suffix_cons_iff]),
      State.node_set_below _ _ _ _ (by simp) (by simp)]
  case newRow place b r sort =>
    have hg' := hg
    obtain ⟨-, -, -, ix, hix, hkey⟩ := hg
    obtain ⟨-, -, -, rfl⟩ := Index.read_eq_ok.mp hix
    rw [rowsOk_iff, rowsOf_newRow hg']
    obtain ⟨-, -, -, hspaced⟩ := Index.insert_slot (rowsOk_iff.mp h) r hkey
    exact hspaced
  case removeRow b r =>
    rw [rowsOk_iff, rowsOf_removeRow, (uniqueRows_rowsOf s b).remove_eq]
    exact (rowsOk_iff.mp h).filter _
  case putCell | clearCell =>
    unfold RowsOk
    rw [hout.sortedIn_of_cell]
    exact h
  -- the other steps are in the Block, beside its rows
  all_goals
    refine h.of_sameUnder (hout.sameUnder ?_ ?_) <;> simp [PageStep.part, suffix_cons_iff]

theorem RowsOk.run : ∀ {μs : List PageStep} {s : State}, RowsOk s b → PageRun s μs t → RowsOk t b
  | [], _, h, hrun => by cases hrun; exact h
  | _ :: _, _, h, hrun => (h.apply hrun.1).run hrun.2

end Watershed.Liquid
