/-
  The row index follows the Page: whatever a step does to the fields and rows of a Database, an
  index that was right and moves along with the step is right again (`IndexOk.apply`).
-/
import Watershed.Liquid.RowIndex

open List

namespace Watershed.Liquid

open Database PageStep State

variable {s t : State} {b : BlockId} {k : String}

/-! ## Steps in the rows -/

section
variable {r : RowId} (h : SameOutside (rowPath b r) t s)
include h

theorem SameOutside.node_rows : t.node (rowsPath b) = s.node (rowsPath b) :=
  h.node_of_length (by simp)

theorem SameOutside.row (hk : k ≠ r.asStr) : SameUnder (k :: rowsPath b) t s :=
  h.sibling (by simp) (by simpa using hk)

theorem SameOutside.kinds_of_row : kinds t (fieldsPath b) = kinds s (fieldsPath b) :=
  (h.sameUnder (by simp [suffix_cons_iff]) (by simp [suffix_cons_iff])).kinds

/-- The other rows keep their cells. -/
theorem SameOutside.indexed (κ : String → Option FieldKind) {e : Entry} (he : e.id ≠ r.asStr) :
    indexed t b κ e = Liquid.indexed s b κ e := by
  have hrow := h.row he
  refine Indexed.ext rfl rfl fun f => ?_
  change cells _ _ _ _ _ = cells _ _ _ _ _
  ext c
  rw [cells_eq_some, cells_eq_some, isMap_congr h.node_rows,
    isMap_congr hrow.node, isMap_congr (hrow.below "cells").node,
    ((hrow.below "cells").below f).node]

end

variable {r : RowId}

theorem rowsOf_newRow {place : Place RowId} {sort : String}
    (h : (newRow place b r sort).Guard s) :
    rowsOf ((newRow place b r sort).apply s) b = (rowsOf s b).insert sort r := by
  obtain ⟨hd, hm, hr, ix, hix, hsort⟩ := h
  have hne := (Index.keyAt_valid hsort).ne_empty
  have hout : SameOutside (rowPath b r) _ s := PageStep.sameOutside (.newRow place b r sort) s
  have hnone : entryAt s (rowsPath b) r.asStr = none := entryAt_eq_none hr
  obtain ⟨e, he⟩ : ∃ e, entryAt ((newRow place b r sort).apply s) (rowsPath b) r.asStr =
      some e := ⟨_, entryAt_eq_some.mpr ⟨by
        simp [PageStep.apply, State.insertEntry, State.setFields, State.set, suffix_cons_iff],
        by simp [PageStep.apply, State.insertEntry, State.set, suffix_cons_iff],
        rfl⟩⟩
  have hid := entryAt_id he
  have hget : e.get "sort" = some sort := by
    rw [entryAt_get he]
    simp [fieldOfNode, PageStep.apply, State.insertEntry, State.setFields, State.set,
      suffix_cons_iff, fieldText]
  have hnew : indexed ((newRow place b r sort).apply s) b
      (kinds s (fieldsPath b)) e = ⟨sort, r, fun _ => none⟩ := by
    refine Indexed.ext ?_ ?_ fun f => ?_
    · simp [indexed, hget]
    · simp [indexed, hid, Id.stored]
    · refine cells_eq_none (.inr ?_)
      rw [hid]
      simp [PageStep.apply, State.set]
  rw [← hid] at hnone he
  have hm' : ((newRow place b r sort).apply s).isMap (rowsPath b) = true := by
    rw [isMap_congr hout.node_rows]
    exact hm
  apply Index.ext
  rw [Index.insert_eq, rowsOf, rowsOf, hout.kinds_of_row, sortedIn_insert hm hm' hnone he fun k hk =>
    (hout.row (by rwa [← hid])).entryAt]
  rw [(ordered_sortedIn s (rowsPath b)).map_insertBy _ e
    (fun row => decide (toLex (row.sort, row.id.asStr) < toLex (sort, r.asStr))),
    map_congr_left fun x hx => hout.indexed _ fun hxr => ?_, hnew]
  · have := (mem_sortedIn.mp hx).2
    rw [hxr, ← hid, hnone] at this
    cases this
  · intro x _
    rw [decide_eq_decide, Entry.order_lt_iff hget hne, hid]
    rfl

theorem rowsOf_removeRow : rowsOf ((PageStep.removeRow b r).apply s) b = (rowsOf s b).remove r := by
  have hout : SameOutside (rowPath b r) _ s :=
    (PageStep.sameOutside (.removeRow b r) s).mono (suffix_cons _ _)
  apply Index.ext
  rw [(uniqueRows_rowsOf s b).remove_eq, rowsOf, rowsOf, hout.kinds_of_row,
    sortedIn_remove (isMap_congr hout.node_rows).symm (by simp [PageStep.apply])
      fun k hk => (hout.row hk).entryAt, filter_map]
  have hfilter : ((fun row : Indexed => !decide (row.id = r)) ∘
      indexed s b (kinds s (fieldsPath b))) = fun e => !decide (e.id = r.asStr) := by
    funext e
    cases r
    simp [indexed, Id.stored]
  rw [hfilter]
  refine map_congr_left fun e he => hout.indexed _ ?_
  simpa using (mem_filter.mp he).2

variable {f : FieldId} {cell : Cell}

/-- A cell is no part of the entries of the rows. -/
theorem SameOutside.sortedIn_of_cell
    (hout : SameOutside (f.asStr :: cellsPath b r) t s) :
    sortedIn t (rowsPath b) = sortedIn s (rowsPath b) := by
  have hnode : ∀ q, q.length ≤ 5 → t.node q = s.node q :=
    fun q hq => hout.node_of_length (Nat.lt_succ_of_le hq)
  refine sortedIn_congr (isMap_congr (hnode _ (by simp))) fun k => ?_
  refine entryAt_congr (hnode _ (by simp)) (hnode _ (by simp)) fun g => ?_
  rw [fieldOfNode, fieldOfNode, hnode _ (by simp)]

/-- Writing a cell: the rows stay where they are, and the row of the cell has the new value of
    the field, as far as the field's kind admits it. -/
theorem rowsOf_cell
    (hout : SameOutside (f.asStr :: cellsPath b r) t s)
    (hrows : s.isMap (rowsPath b) = true) (hrow : s.isMap (rowPath b r) = true)
    (hcells : s.isMap (cellsPath b r) = true)
    (hn : ∀ kind, kinds s (fieldsPath b) f.asStr = some kind →
      (t.node (f.asStr :: cellsPath b r)).bind (typed kind) =
        if cell = .empty then none else some cell) :
    rowsOf t b = if known s b f.asStr then (rowsOf s b).set r f cell else rowsOf s b := by
  have hr : SameOutside (rowPath b r) t s := hout.mono (by simp [suffix_cons_iff])
  have hnode : ∀ q, q.length ≤ 5 → t.node q = s.node q :=
    fun q hq => hout.node_of_length (Nat.lt_succ_of_le hq)
  have hsorted := hout.sortedIn_of_cell
  -- the row's cells, field by field
  have hcell : ∀ g, cells t (rowsPath b) r.asStr
      (kinds s (fieldsPath b)) g =
      if g = f.asStr ∧ known s b f.asStr = true then (if cell = .empty then none else some cell)
      else cells s (rowsPath b) r.asStr (kinds s (fieldsPath b)) g := by
    intro g
    rw [cells_of_isMap hrows hrow hcells, cells_of_isMap
      (by rwa [isMap_congr (hnode _ (by simp))])
      (by rwa [isMap_congr (hnode _ (by simp))])
      (by rwa [isMap_congr (hnode _ (by simp))])]
    by_cases hg : g = f.asStr
    · subst hg
      cases hk : kinds s (fieldsPath b) f.asStr with
      | none => simp [known, hk]
      | some kind =>
        simp only [known, hk]
        exact hn kind hk
    · have hframe : t.node (g :: cellsPath b r) = s.node (g :: cellsPath b r) :=
        (hout.sibling (by simp) (by simpa using hg)).node
      rw [if_neg fun h => hg h.1, hframe]
  have hset : ∀ e, indexed t b (kinds s (fieldsPath b)) e =
      if known s b f.asStr = true ∧ e.id = r.asStr then
        Index.Indexed.set (indexed s b (kinds s (fieldsPath b)) e) f cell
      else indexed s b (kinds s (fieldsPath b)) e := by
    intro e
    by_cases he : e.id = r.asStr
    · by_cases hk : known s b f.asStr = true
      · rw [if_pos ⟨hk, he⟩]
        refine Indexed.ext rfl rfl fun g => ?_
        change cells _ _ e.id _ _ = if g = f.asStr then _ else cells _ _ e.id _ _
        rw [he, hcell g]
        simp [hk]
      · rw [if_neg fun h => hk h.1]
        refine Indexed.ext rfl rfl fun g => ?_
        change cells _ _ e.id _ _ = cells _ _ e.id _ _
        rw [he, hcell g, if_neg fun h => hk h.2]
    · rw [if_neg fun h => he h.2, hr.indexed _ he]
  apply Index.ext
  rw [rowsOf, hr.kinds_of_row, hsorted]
  split
  · rename_i hk
    rw [(uniqueRows_rowsOf s b).set_eq, rowsOf, map_map]
    refine map_congr_left fun e _ => ?_
    rw [hset]
    cases r
    simp [hk, indexed, Id.stored]
  · rename_i hk
    refine map_congr_left fun e _ => ?_
    rw [hset, if_neg fun h => hk h.1]

/-! ## Steps in the fields -/

/-- The kinds of the other fields stay. -/
theorem SameOutside.kinds_of_field (h : SameOutside (fieldPath b f) t s) {g : String}
    (hg : g ≠ f.asStr) :
    kinds t (fieldsPath b) g = kinds s (fieldsPath b) g := by
  have hfield : SameUnder (g :: fieldsPath b) t s := h.sibling (by simp) (by simpa using hg)
  exact kinds_congr (h.node_of_length (by simp)) hfield.node (hfield.below _).node
    (hfield.below _).node

namespace IndexOk

variable {ix : Index}

variable (h : IndexOk s b ix) {μ : PageStep}
include h

theorem fresh_ne : b.asStr ∈ Names s := .inl ⟨blockPath b, h.block, by simp⟩

/-- A step in another Block or View. -/
theorem apply_of_ne (hf : μ.footprint ≠ blockPath b) : IndexOk (μ.apply s) b (μ.onIndex b ix) := by
  have hsame := μ.sameUnder_of_ne s rfl hf.symm
  have hix : μ.onIndex b ix = ix := by
    cases μ <;> first | rfl | exact if_neg fun hb => hf (by rw [hb]; rfl)
  rw [hix]
  exact h.congr hsame.node (hsame.below _) (hsame.below _)

/-- A step in the Block beside its fields and rows. -/
theorem apply_beside (hp : μ.part = k :: blockPath b)
    (hf : k ≠ "fields") (hr : k ≠ "rows") : IndexOk (μ.apply s) b ix := by
  have hout := μ.sameOutside s
  rw [hp] at hout
  exact h.congr (hout.node_of_length (by simp)) (hout.sibling (by simp) (by simpa using hf.symm))
    (hout.sibling (by simp) (by simpa using hr.symm))

/-- A change in the entry of one field. -/
theorem of_field (hout : SameOutside (fieldPath b f) t s)
    (hn : (s.node (fieldPath b f)).isSome = true → (t.node (fieldPath b f)).isSome = true)
    (hk : kinds t (fieldsPath b) f.asStr = kinds s (fieldsPath b) f.asStr ∨
      kinds t (fieldsPath b) f.asStr = none ∨ s.node (fieldPath b f) = none ∧
        ∀ r, s.node (f.asStr :: "cells" :: r :: rowsPath b) = none) : IndexOk t b ix := by
  have hrows : SameUnder (rowsPath b) t s :=
    hout.sameUnder (by simp [suffix_cons_iff]) (by simp [suffix_cons_iff])
  refine h.of_rows hrows (by rw [hout.node_of_length (by simp)]; exact h.block)
    (h.fields.congr (hout.node_of_length (by simp))) (fun g hs => ?_) fun g => ?_
  · by_cases hg : g = f.asStr
    · subst hg
      exact hn hs
    · rw [(hout.sibling (by simp) (by simpa using hg)).node]
      exact hs
  · by_cases hg : g = f.asStr
    · subst hg
      exact hk
    · exact .inl (hout.kinds_of_field hg)

/-- A change in the entry of the row `r`. -/
theorem of_row {ix' : Index}
    (hout : SameOutside (rowPath b r) t s) (ha : ix'.restrict (known s b) = rowsOf t b)
    (hc : ∀ row ∈ ix'.rows, ∀ f, row.cells f ≠ none →
      (s.node (f :: fieldsPath b)).isSome = true) : IndexOk t b ix' :=
  h.of_fields (hout.node_of_length (by simp))
    (hout.sameUnder (by simp [suffix_cons_iff]) (by simp [suffix_cons_iff]))
    hout.node_rows ha hc

/-- A cell is written in the document, or found as it should be, and set in the index. -/
theorem of_cell
    (hout : SameOutside (f.asStr :: cellsPath b r) t s)
    (hrow : LiveRow s b r) (hcells : s.isMap (cellsPath b r) = true)
    {kind : FieldKind} (hfield : LiveField s b f kind)
    (hn : (t.node (f.asStr :: cellsPath b r)).bind (typed kind) =
      if cell = .empty then none else some cell) : IndexOk t b (ix.set r f cell) := by
  -- a field that readers see has the kind that the mutation found
  have hkind : ∀ kind', kinds s (fieldsPath b) f.asStr = some kind' → kind' = kind := by
    intro kind' hk
    obtain ⟨-, -, -, hk⟩ := kinds_eq_some.mp hk
    obtain ⟨name, hname, hkind⟩ := hfield.kind
    rw [fieldOfNode, hname] at hk
    exact Option.some.inj (hk.symm.trans hkind)
  refine h.of_row (r := r) (hout.mono (by simp [suffix_cons_iff])) ?_ fun row hrow' g hne => ?_
  · rw [h.uniqueRows.restrict_set, h.agrees, rowsOf_cell hout hrow.rows hrow.entry hcells]
    intro kind' hk
    rw [hkind kind' hk]
    exact hn
  · rw [h.uniqueRows.set_eq] at hrow'
    obtain ⟨row', hmem, rfl⟩ := mem_map.mp hrow'
    by_cases hg : g = f.asStr
    · subst hg
      exact isSome_of_isMap hfield.entry
    · refine h.cells row' hmem g fun hnone => hne ?_
      split
      · simp [Index.Indexed.set, hg, hnone]
      · exact hnone

/-- Every step keeps the index right. -/
theorem apply (hg : μ.Guard s) : IndexOk (μ.apply s) b (μ.onIndex b ix) := by
  by_cases hf : μ.footprint = blockPath b
  swap
  · exact h.apply_of_ne hf
  cases μ
  case newView | boundary | removeView => simp [footprint] at hf
  all_goals obtain rfl := blockPath_inj hf
  case text | style | databaseName | removeBlock =>
    exact h.apply_beside rfl (by decide) (by decide)
  -- a Block with an index is not new
  case newText | newDatabase => exact absurd h.fresh_ne hg.1
  case newField f name kind sort =>
    have hfresh : ∀ q, f.asStr ∈ q → s.node q = none := by
      intro q hq
      by_contra hn
      exact hg.2.2 (.inl ⟨q, Option.ne_none_iff_isSome.mp hn, hq⟩)
    refine h.of_field (PageStep.sameOutside (.newField _ f name kind sort) s) (fun hs => ?_)
      (.inr (.inr ⟨hfresh _ (by simp), fun r => hfresh _ (by simp)⟩))
    rw [hfresh _ (by simp)] at hs
    cases hs
  case fieldName b f name =>
    have hout := PageStep.sameOutside (.fieldName b f name) s
    refine h.of_field (hout.mono (suffix_cons _ _)) (fun hs => ?_) (.inl (kinds_congr ?_ ?_ ?_ ?_))
    · rw [hout _ (by simp [part, suffix_cons_iff])]
      exact hs
    all_goals exact hout _ (by simp [part, suffix_cons_iff])
  case removeField b f =>
    have hout := PageStep.sameOutside (.removeField b f) s
    refine h.of_field (hout.mono (suffix_cons _ _)) (fun hs => ?_)
      (.inr (.inl (Option.eq_none_iff_forall_ne_some.mpr fun kind hk => ?_)))
    · rw [hout _ (by simp [part, suffix_cons_iff])]
      exact hs
    · have := (kinds_eq_some.mp hk).2.2.1
      simp [PageStep.apply] at this
  case newOption b f o name color sort =>
    have hout := PageStep.sameOutside (.newOption b f o name color sort) s
    refine h.of_field (f := f) (hout.mono (by simp [part, suffix_cons_iff]))
      (fun hs => ?_) (.inl (kinds_congr ?_ ?_ ?_ ?_))
    · rw [hout _ (by simp [part, suffix_cons_iff])]
      exact hs
    all_goals exact hout _ (by simp [part, suffix_cons_iff])
  case newRow place b r sort =>
    rw [onIndex, if_pos rfl]
    refine h.of_row (PageStep.sameOutside (.newRow place b r sort) s) ?_ fun row hrow f hne => ?_
    · rw [Index.restrict_insert, h.agrees, rowsOf_newRow hg]
    · rw [Index.insert_eq, mem_append, mem_cons] at hrow
      rcases hrow with hrow | rfl | hrow
      · exact h.cells row ((takeWhile_sublist _).subset hrow) f hne
      · exact absurd rfl hne
      · exact h.cells row ((dropWhile_sublist _).subset hrow) f hne
  case removeRow r =>
    rw [onIndex, if_pos rfl]
    refine h.of_row ((PageStep.sameOutside _ s).mono (suffix_cons _ _)) ?_ fun row hrow f hne => ?_
    · rw [h.uniqueRows.restrict_remove, h.agrees, rowsOf_removeRow]
    · rw [h.uniqueRows.remove_eq] at hrow
      exact h.cells row (mem_filter.mp hrow).1 f hne
  case putCell r f v cell =>
    obtain ⟨hrow, hcells, kind, hfield, htyped, hne⟩ := hg
    rw [onIndex, if_pos rfl]
    refine h.of_cell (PageStep.sameOutside (.putCell _ r f v cell) s) hrow hcells hfield ?_
    rw [if_neg hne, PageStep.apply, node_set_self]
    exact htyped
  case clearCell r f =>
    obtain ⟨hrow, hcells, kind, hfield⟩ := hg
    rw [onIndex, if_pos rfl]
    refine h.of_cell (PageStep.sameOutside (.clearCell _ r f) s) hrow hcells hfield ?_
    rw [PageStep.apply, node_set_self]
    rfl


omit h
end IndexOk

end Watershed.Liquid
