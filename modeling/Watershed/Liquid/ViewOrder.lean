/-
  Where new Views go, and that every live Block has exactly one.

  The sort keys of the Views that this code writes are valid and strictly increasing, so the
  key for a new View lies in the gap it is meant for and the View lands exactly there
  (`Order.insert_slot`). Within a mutation a Block may for a moment be without a View;
  `PageOk` keeps account of these Blocks.
-/
import Mathlib.Data.Set.Insert
import Watershed.Liquid.Writes

open List

namespace Watershed.Liquid

open PageStep Placed

/-! ## The gap for a new View -/

namespace Placed

/-- A placed View with the boundary that was set at the View `v`. -/
def mark (v : ViewId) (x : Bool) (placed : Placed) : Placed :=
  if placed.view.id = v then { placed with view := { placed.view with boundary := x } } else placed

variable {v : ViewId} {x : Bool} {placed : Placed}

theorem mark_of_ne (h : placed.view.id ≠ v) : placed.mark v x = placed := if_neg h

theorem view_mark (h : placed.view.id = v) :
    (placed.mark v x).view = { placed.view with boundary := x } := by
  rw [mark, if_pos h]

@[simp] theorem sort_mark : (placed.mark v x).sort = placed.sort := by
  unfold mark
  split <;> rfl

@[simp] theorem id_mark : (placed.mark v x).view.id = placed.view.id := by
  unfold mark
  split <;> rfl

@[simp] theorem block_mark : (placed.mark v x).view.block = placed.view.block := by
  unfold mark
  split <;> rfl

end Placed

namespace Order

/-- Valid sort keys in strictly increasing order. -/
abbrev Strict (o : Order) : Prop := SortKey.Spaced Placed.sort o.placed

variable {o : Order}

theorem position_lt {v : ViewId} {i : Nat} (h : o.position v = some i) :
    i < o.placed.length ∧ ∀ x, o.placed[i]? = some x → x.view.id = v := by
  obtain ⟨hlt, hv, -⟩ := List.findIdx?_eq_some_iff_getElem.mp h
  refine ⟨hlt, fun x hx => ?_⟩
  rw [List.getElem?_eq_getElem hlt] at hx
  cases hx
  simpa using hv

variable {after : Option ViewId}

theorem slot_le {i : Nat} (h : o.slot after = some i) : i ≤ o.placed.length := by
  cases after with
  | none => simp [slot] at h; omega
  | some v =>
    obtain ⟨j, hj, rfl⟩ := Option.map_eq_some_iff.mp h
    have := (position_lt hj).1
    omega

/-- A new View lands exactly in its place. -/
theorem Strict.insert_slot (h : o.Strict) {sort : String} (view : View)
    (hk : o.keyAfter after = .ok sort) : ∃ i, o.slot after = some i ∧
      (o.insert sort view).placed = o.placed.take i ++ ⟨sort, view⟩ :: o.placed.drop i ∧
      (o.insert sort view).Strict := by
  obtain ⟨i, hi, hsort⟩ := keyAfter_eq_ok.mp hk
  obtain ⟨hbelow, habove⟩ := h.between_gap (slot_le hi) hsort
  have hplaced : (o.insert sort view).placed =
      o.placed.take i ++ ⟨sort, view⟩ :: o.placed.drop i := by
    obtain ⟨htake, hdrop⟩ := takeWhile_lex (fun x => x.view.id.asStr) view.id.asStr hbelow habove
    rw [insert_eq, htake, hdrop]
  refine ⟨i, hi, hplaced, ?_⟩
  unfold Strict
  rw [hplaced]
  exact SortKey.Spaced.insert h hbelow habove (keyAfter_valid hk)

/-- The order after a boundary was set: only that View differs. -/
theorem read_setBoundary (s : State) (v : ViewId) (x : Bool) :
    (read s).setBoundary v x = ⟨(read s).placed.map (Placed.mark v x)⟩ := by
  apply ext
  rw [setBoundary_eq_elim, (unique_view s v).modify_findIdx?]
  simp only [decide_eq_true_eq]
  rfl

/-- The order after a View was removed. -/
theorem read_remove (s : State) (v : ViewId) : (read s).remove v =
    ⟨(read s).placed.filter fun placed => placed.view.id ≠ v⟩ := by
  apply ext
  rw [remove_eq_elim, (unique_view s v).erase_findIdx?]
  simp

/-- A View of the order shows the Block that its entry names. -/
theorem block_of_placed {s : State} {x : Placed} (h : x ∈ (read s).placed) :
    fieldOfNode s (viewPath x.view.id) "block" = some x.view.block.asStr := by
  rw [read_eq] at h
  obtain ⟨e, he, hplace⟩ := mem_filterMap.mp h
  obtain ⟨b, kind, hb, -, rfl⟩ := place_eq_some.mp hplace
  obtain ⟨-, he⟩ := mem_sortedIn.mp he
  rw [entryAt_get he] at hb
  exact hb

end Order

/-! ## Every live Block has one View -/

/-- The Views of a Page are in strict order, no two show one Block, and every live Block has
    one, those in `X` apart. -/
structure PageOk (X : Set BlockId) (s : State) : Prop where
  strict : (Order.read s).Strict
  nodup : ((Order.read s).placed.map fun x => x.view.block).Nodup
  shown : ∀ b : BlockId, (live s "blocks" b.asStr).isSome = true →
    b ∈ X ∨ ∃ x ∈ (Order.read s).placed, x.view.block = b

/-- The live Blocks without a View after a step. -/
def PageStep.unshown (o : Order) (X : Set BlockId) : PageStep → Set BlockId
  | .newText b _ _ | .newDatabase b _ _ _ => X ∪ {b}
  | .newView _ _ b _ _ | .removeBlock b => X \ {b}
  | .removeView v => X ∪ { b | ∃ x ∈ o.placed, x.view.id = v ∧ x.view.block = b }
  | _ => X

namespace PageOk

variable {s : State} {X Y : Set BlockId}

variable (h : PageOk X s)
include h

theorem mono (hX : ∀ b ∈ X, (live s "blocks" b.asStr).isSome = true →
    b ∈ Y ∨ ∃ x ∈ (Order.read s).placed, x.view.block = b) : PageOk Y s :=
  ⟨h.strict, h.nodup, fun b hb => (h.shown b hb).elim (fun hx => hX b hx hb) .inr⟩

/-- A step that leaves the order and the live Blocks. -/
theorem of_same {t : State} (ho : Order.read t = Order.read s)
    (hl : ∀ b : BlockId, (live t "blocks" b.asStr).isSome = true →
      (live s "blocks" b.asStr).isSome = true ∨ b ∈ Y) (hX : X ⊆ Y) : PageOk Y t := by
  refine ⟨by rw [ho]; exact h.strict, by rw [ho]; exact h.nodup, fun b hb => ?_⟩
  rw [ho]
  rcases hl b hb with hb | hb
  · exact (h.shown b hb).imp_left fun hx => hX hx
  · exact .inl hb

variable {b : BlockId} {μ : PageStep} {v : ViewId}

theorem apply_newView {after : Option ViewId}
    {sort : String} {kind : BlockKind} (hg : (newView after v b sort kind).Guard s) :
    PageOk (X \ {b}) ((newView after v b sort kind).apply s) := by
  have hread := Order.read_apply hg
  obtain ⟨-, -, -, hk, hunref⟩ := hg
  obtain ⟨i, -, hplaced, hstrict⟩ := h.strict.insert_slot ⟨v, b, false, kind⟩ hk
  have hnew : ∀ x ∈ (Order.read s).placed, x.view.block ≠ b := by
    rintro x hx rfl
    exact hunref _ (Order.block_of_placed hx)
  have hperm : ((Order.read s).insert sort ⟨v, b, false, kind⟩).placed.Perm
      (⟨sort, v, b, false, kind⟩ :: (Order.read s).placed) := by
    rw [hplaced]
    exact perm_middle.trans (by rw [take_append_drop])
  refine ⟨by rwa [hread], ?_, fun b' hb' => ?_⟩
  · rw [hread]
    refine (hperm.map _).nodup_iff.mpr (nodup_cons.mpr ⟨?_, h.nodup⟩)
    rintro hm
    obtain ⟨x, hx, hb⟩ := mem_map.mp hm
    exact hnew x hx hb
  · rw [live_blocks_apply (by simp [PageStep.part, suffix_cons_iff])] at hb'
    rw [hread]
    by_cases hbb : b' = b
    · exact .inr ⟨_, hperm.mem_iff.mpr mem_cons_self, hbb.symm⟩
    · rcases h.shown b' hb' with hx | ⟨x, hx, hxb⟩
      · exact .inl ⟨hx, hbb⟩
      · exact .inr ⟨x, hperm.mem_iff.mpr (mem_cons_of_mem _ hx), hxb⟩

theorem apply_boundary {x : Bool}
    (hg : (boundary v x).Guard s) : PageOk X ((boundary v x).apply s) := by
  have hread := Order.read_apply hg
  rw [PageStep.onOrder, Order.read_setBoundary] at hread
  refine ⟨?_, ?_, fun b hb => ?_⟩
  · rw [hread]
    exact SortKey.Spaced.map h.strict fun y _ => sort_mark
  · rw [hread]
    simpa [Function.comp_def] using h.nodup
  · rw [live_blocks_apply (by simp [PageStep.part, suffix_cons_iff])] at hb
    rw [hread]
    refine (h.shown b hb).imp_right ?_
    rintro ⟨y, hy, rfl⟩
    exact ⟨_, mem_map_of_mem hy, block_mark⟩

theorem apply_removeView (hg : (PageStep.removeView v).Guard s) :
    PageOk (X ∪ { b | ∃ x ∈ (Order.read s).placed, x.view.id = v ∧ x.view.block = b })
      ((PageStep.removeView v).apply s) := by
  have hread := Order.read_apply hg
  rw [PageStep.onOrder, Order.read_remove] at hread
  refine ⟨?_, ?_, fun b hb => ?_⟩
  · rw [hread]
    exact SortKey.Spaced.filter h.strict _
  · rw [hread]
    exact h.nodup.sublist (filter_sublist.map _)
  · rw [live_blocks_apply (by simp [PageStep.part, suffix_cons_iff])] at hb
    rw [hread]
    rcases h.shown b hb with hx | ⟨x, hx, hxb⟩
    · exact .inl (.inl hx)
    · by_cases hv : x.view.id = v
      · exact .inl (.inr ⟨x, hx, hv, hxb⟩)
      · exact .inr ⟨x, mem_filter.mpr ⟨hx, by simpa using hv⟩, hxb⟩

/-- A new Block has no View yet. -/
theorem apply_new (hg : μ.Guard s)
    (hpart : μ.part = blockPath b) (hv : μ.isView = false) : PageOk (X ∪ {b}) (μ.apply s) := by
  refine h.of_same ?_ (fun b' hb' => ?_) Set.subset_union_left
  · rw [Order.read_apply hg, onOrder_of_not_isView hv]
  · by_cases hbb : b' = b
    · exact .inr (.inr hbb)
    · rw [live_blocks_apply] at hb'
      · exact .inl hb'
      · rw [hpart]
        intro hs
        rcases suffix_cons_iff.mp hs with hs | hs
        · simp at hs
        · exact hbb (blockPath_inj (hs.eq_of_length rfl)).symm

theorem apply_removeBlock (hg : (removeBlock b).Guard s) :
    PageOk (X \ {b}) ((removeBlock b).apply s) := by
  have hread : Order.read ((removeBlock b).apply s) = Order.read s := Order.read_apply hg
  refine ⟨by rw [hread]; exact h.strict, by rw [hread]; exact h.nodup, fun b' hb' => ?_⟩
  by_cases hbb : b' = b
  · -- it is marked as deleted
    subst hbb
    obtain ⟨p, hp⟩ := Option.isSome_iff_exists.mp hb'
    obtain ⟨-, -, -, hdel⟩ := live_eq_some.mp hp
    simp [PageStep.apply] at hdel
  · rw [live_blocks_apply] at hb'
    · rw [hread]
      exact (h.shown b' hb').imp_left fun hx => ⟨hx, hbb⟩
    · intro hs
      have := hs.eq_of_length rfl
      simp only [PageStep.part] at this
      exact hbb (by cases b; cases b'; simp_all)

/-- One step of a Page. -/
theorem apply (hg : μ.Guard s) : PageOk (μ.unshown (Order.read s) X) (μ.apply s) := by
  cases μ
  case newText b name cs => exact h.apply_new hg rfl rfl
  case newDatabase b name f sort => exact h.apply_new hg rfl rfl
  case newView after v b sort kind => exact h.apply_newView hg
  case boundary v x => exact h.apply_boundary hg
  case removeView v => exact h.apply_removeView hg
  case removeBlock b => exact h.apply_removeBlock hg
  all_goals
    -- the steps inside a Block leave the order and which Blocks are live
    refine h.of_same ?_ (fun b hb => ?_) (Set.Subset.refl X)
    · rw [Order.read_apply hg, onOrder_of_not_isView rfl]
    · rw [live_blocks_apply (by simp [PageStep.part, suffix_cons_iff])] at hb
      exact .inl hb


omit h
end PageOk

/-- The live Blocks without a View after some steps. -/
def unshownAfter : Order → Set BlockId → List PageStep → Set BlockId
  | _, X, [] => X
  | o, X, μ :: μs => unshownAfter (μ.onOrder o) (μ.unshown o X) μs

variable {t : State} {view : ViewId} {shown : View} {p : PageId} {m : Mutation} {μs : List PageStep}
    {created : Option Created} {changed : List Changed} {b : BlockId} {sort : String}
  {after : Option ViewId} {v : ViewId} {i : Nat} {x : Placed} {o : Order}

theorem PageOk.run : ∀ {μs : List PageStep} {s : State} {X : Set BlockId},
    PageOk X s → PageRun s μs t → PageOk (unshownAfter (Order.read s) X μs) t
  | [], _, _, h, hrun => by cases hrun; exact h
  | _ :: _, _, _, h, hrun => by
    rw [unshownAfter, ← Order.read_apply hrun.1]
    exact (h.apply hrun.1).run hrun.2

/-! ## Whole mutations -/

/-- A View that goes takes its Block with it, unless another View shows the Block. -/
theorem PageOk.removal {s : State} {block : BlockId} (h : PageOk ∅ s)
    (hb : ∀ x ∈ (Order.read s).placed, x.view.id = view → x.view.block = block)
    (hrun : PageRun s (removalSteps s (Order.read s) view block) t) : PageOk ∅ t := by
  unfold removalSteps at hrun
  split at hrun
  · refine (h.run hrun).mono fun b hbX _ => ?_
    obtain ⟨hbX, hne⟩ := hbX
    rcases hbX with hbX | ⟨x, hx, hid, rfl⟩
    · exact hbX.elim
    · exact absurd (hb x hx hid) hne
  · rename_i hcond
    have hok := h.run hrun
    obtain ⟨hg, rfl⟩ := hrun
    refine hok.mono fun b hbX hlive => .inr ?_
    rcases hbX with hbX | ⟨x, hx, hid, rfl⟩
    · exact hbX.elim
    · rw [hb x hx hid] at hlive ⊢
      rw [live_blocks_apply (by simp [PageStep.part, suffix_cons_iff])] at hlive
      have hshows : (Order.read s).shows block view = true := by
        rw [hlive, Bool.and_true, Bool.not_eq_true', Bool.not_eq_false] at hcond
        exact hcond
      obtain ⟨y, hy, hyb⟩ := any_eq_true.mp hshows
      obtain ⟨hyb, hyv⟩ : y.view.block = block ∧ y.view.id ≠ view := by simpa using hyb
      rw [Order.read_apply hg, PageStep.onOrder, Order.read_remove]
      exact ⟨y, mem_filter.mpr ⟨hy, by simpa using hyv⟩, hyb⟩

/-- The View `view` of the order is the one that `Order.view` finds. -/
theorem Order.block_of_view {s : State}
    (h : (Order.read s).view view = some shown) (hx : x ∈ (Order.read s).placed)
    (hid : x.view.id = view) : x.view = shown := by
  obtain ⟨-, hid', y, hy, rfl⟩ := Order.liveView_of_view h
  rw [(Order.unique_view s view).eq hx hy (by simpa using hid) (by simpa using hid')]

/-- Every mutation of a Page leaves each live Block with one View. -/
theorem Takes.pageOk {s : State}
    (h : Takes p s m μs created changed) (hok : PageOk ∅ s) (hrun : PageRun s μs t) :
    PageOk ∅ t := by
  have hafter := hok.run hrun
  cases h
  case addTextBlock => exact hafter.mono (by simp [unshownAfter, unshown])
  case splitTextBlock hview hblock hsteps =>
    rcases hsteps with ⟨-, name, sort, rfl⟩ | ⟨-, cs, name, tail, sort, rfl⟩
    · split at hafter <;> exact hafter.mono (by simp [unshownAfter, unshown])
    · exact hafter.mono (by simp [unshownAfter, unshown])
  case joinTextBlock view joining above cs hview habove =>
    obtain ⟨hg, hrest⟩ := hrun
    have hread : Order.read ((PageStep.text above.block cs).apply s) = Order.read s :=
      Order.read_apply hg
    have hremoval : PageRun ((PageStep.text above.block cs).apply s)
        (removalSteps ((PageStep.text above.block cs).apply s)
          (Order.read ((PageStep.text above.block cs).apply s)) view joining.block) t := by
      unfold removalSteps
      rw [hread, live_blocks_apply (by simp [PageStep.part, suffix_cons_iff])]
      exact hrest
    refine (hok.apply hg).removal (fun x hx hid => ?_) hremoval
    rw [hread] at hx
    rw [Order.block_of_view hview hx hid]
  case addDatabaseBlock => exact hafter.mono (by simp [unshownAfter, unshown])
  case removeView view block hblock =>
    refine hok.removal (fun x hx hid => ?_) hrun
    have hx := Order.block_of_placed hx
    rw [hid] at hx
    have hblock : fieldOfNode s (viewPath view) "block" = some block.asStr := by
      rw [fieldOfNode, (string_eq_some.mp hblock).2]
      rfl
    rw [hblock] at hx
    exact Liquid.Id.ext (Option.some.inj hx).symm
  case setCell hsteps =>
    rcases hsteps with rfl | rfl | ⟨v, cell, rfl⟩ <;> exact hafter
  all_goals exact hafter

/-! ## Where the new View is -/

/-- The Views as readers see them. -/
def Order.views (o : Order) : List View := o.placed.map Placed.view

/-- `after` is `before` with `view` directly after the View `anchor`, or first. -/
def InsertedAfter (anchor : Option ViewId) (view : View) (before after : List View) : Prop :=
  match anchor with
  | none => after = view :: before
  | some anchor => ∃ pre x post, x.id = anchor ∧ before = pre ++ x :: post ∧
    after = pre ++ x :: view :: post

/-- `after` is `before` with the new View of `b` directly above `view`, from which it takes over
    the Section boundary. -/
def InsertedAbove (view : ViewId) (b : BlockId) (v : ViewId) (before after : List View) : Prop :=
  ∃ pre x post, x.id = view ∧ before = pre ++ x :: post ∧
    after = pre ++ ⟨v, b, x.boundary, .text⟩ :: { x with boundary := false } :: post

namespace Order

/-- The order around a View. -/
theorem split_at_position (h : o.position v = some i) :
    ∃ x, o.placed[i]? = some x ∧ x.view.id = v ∧ o.placed.drop i = x :: o.placed.drop (i + 1) ∧
      o.placed.take (i + 1) = o.placed.take i ++ [x] := by
  obtain ⟨hlt, hid⟩ := position_lt h
  refine ⟨o.placed[i], List.getElem?_eq_getElem hlt, hid _ (List.getElem?_eq_getElem hlt),
    drop_eq_getElem_cons hlt, ?_⟩
  rw [take_add_one, List.getElem?_eq_getElem hlt]
  rfl

/-- A View put into the slot after `after` is directly after it. -/
theorem insertedAfter_slot
    (h : o.slot after = some i) :
    InsertedAfter after x.view o.views ((o.placed.take i ++ x :: o.placed.drop i).map Placed.view) := by
  cases after with
  | none =>
    obtain rfl : 0 = i := by simpa [slot] using h
    simp [InsertedAfter, views]
  | some v =>
    obtain ⟨j, hj, rfl⟩ := Option.map_eq_some_iff.mp h
    obtain ⟨y, -, hid, hdrop, htake⟩ := split_at_position hj
    refine ⟨(o.placed.take j).map Placed.view, y.view, (o.placed.drop (j + 1)).map Placed.view,
      hid, ?_, ?_⟩
    · rw [views, ← map_cons, ← hdrop, ← map_append, take_append_drop]
    · rw [htake]
      simp

/-- The place above a View is the slot after the View above it. -/
theorem slot_above {s : State} (h : (read s).position view = some i) :
    (read s).slot (((read s).above view).map View.id) = some i := by
  unfold above
  rw [h, Option.bind_some]
  by_cases hi : i = 0
  · subst hi
    rfl
  · rw [if_neg hi]
    obtain ⟨hlt, -⟩ := position_lt h
    have hlt' : i - 1 < (read s).placed.length := by omega
    rw [List.getElem?_eq_getElem hlt']
    have hpos : (read s).position ((read s).placed[i - 1]).view.id = some (i - 1) := by
      refine List.findIdx?_eq_some_iff_getElem.mpr ⟨hlt', by simp, fun j hj => ?_⟩
      have hne := pairwise_iff_getElem.mp (pairwise_map.mp (ids_nodup s)) j (i - 1)
        (by omega) hlt' hj
      simpa using hne
    change ((read s).position _).map (· + 1) = _
    rw [hpos]
    simp
    omega

end Order

/-- A new View is directly after the View it names. -/
theorem PageOk.newView_views {X : Set BlockId} {s : State} (h : PageOk X s)
    {kind : BlockKind} (hg : (newView after v b sort kind).Guard s) :
    InsertedAfter after ⟨v, b, false, kind⟩ (Order.read s).views
      (Order.read ((newView after v b sort kind).apply s)).views := by
  rw [Order.read_apply hg]
  obtain ⟨i, hi, hplaced, -⟩ := h.strict.insert_slot ⟨v, b, false, kind⟩ hg.2.2.2.1
  have hins := Order.insertedAfter_slot (x := ⟨sort, v, b, false, kind⟩) hi
  rw [← hplaced] at hins
  exact hins

/-- Moving the boundary of `x` to the View `n` above it changes these two only. -/
theorem Order.views_moveBoundary {s : State} {v w : ViewId} {pre post : List Placed} {n x : Placed}
    (hs : (Order.read s).placed = pre ++ n :: x :: post) (hn : n.view.id = v) (hx : x.view.id = w)
    (h₁ : (boundary w false).Guard s)
    (h₂ : (boundary v true).Guard ((boundary w false).apply s)) :
    (Order.read ((boundary v true).apply ((boundary w false).apply s))).views =
      pre.map Placed.view ++ { n.view with boundary := true } ::
        { x.view with boundary := false } :: post.map Placed.view := by
  have hids := Order.ids_nodup s
  rw [hs] at hids
  simp only [map_append, map_cons, nodup_append, nodup_cons, mem_map,
    mem_cons, not_or, not_exists, not_and, hn, hx, forall_exists_index, and_imp,
    forall_apply_eq_imp_iff₂] at hids
  obtain ⟨-, ⟨⟨hvw, hvpost⟩, hwpost, -⟩, hpre⟩ := hids
  rw [Order.read_apply h₂, PageStep.onOrder, Order.read_setBoundary, Order.read_apply h₁,
    PageStep.onOrder, Order.read_setBoundary, Order.views, hs]
  have hother : ∀ l : List Placed, (∀ y ∈ l, y.view.id ≠ v ∧ y.view.id ≠ w) →
      (l.map (Placed.mark w false)).map (Placed.mark v true) = l := by
    intro l hl
    induction l with
    | nil => rfl
    | cons y l ih =>
      obtain ⟨h1, h2⟩ := hl y mem_cons_self
      rw [map_cons, map_cons, mark_of_ne h2, mark_of_ne h1, ih (forall_mem_cons.mp hl).2]
  have hn' : n.mark w false = n := mark_of_ne (by rwa [hn])
  have hx' : (x.mark w false).mark v true = x.mark w false :=
    mark_of_ne (by rw [id_mark, hx]; exact Ne.symm hvw)
  simp only [map_append, map_cons]
  rw [hother pre fun y hy => ⟨hpre y hy v (.inl rfl), hpre y hy w (.inr (.inl rfl))⟩,
    hother post fun y hy => ⟨hvpost y hy, hwpost y hy⟩, hn', hx', view_mark hn, view_mark hx]

/-- The Page on which a mutation adds a Block with its View. -/
def Mutation.addsView : Mutation → Option PageId
  | .addTextBlock page _ _ | .addDatabaseBlock page _ _ | .splitTextBlock page _ _ _ _ => some page
  | _ => none

theorem Takes.page_eq {q : PageId} {s : State} (h : Takes p s m μs created changed)
    (hm : m.addsView = some q) : p = q := by
  cases h <;> simp_all [Mutation.addsView]

/-- Where a mutation is to put the View `v` of the Block `b` that it adds. -/
def Mutation.Puts (b : BlockId) (v : ViewId) (before after : List View) : Mutation → Prop
  | .addTextBlock _ anchor _ => InsertedAfter anchor ⟨v, b, false, .text⟩ before after
  | .addDatabaseBlock _ anchor _ => InsertedAfter anchor ⟨v, b, false, .database⟩ before after
  | .splitTextBlock _ _ view at_ _ =>
    if at_ = 0 then InsertedAbove view b v before after
    else InsertedAfter (some view) ⟨v, b, false, .text⟩ before after
  | _ => True

/-- A split at the start puts the new Block above and moves the boundary. -/
theorem PageOk.split_above {s : State} {name : String} (hok : PageOk ∅ s)
    (hview : (Order.read s).view view = some shown) (hrun : PageRun s ([.newText b name [],
      .newView (((Order.read s).above view).map View.id) v b sort .text] ++
      if ((Order.read s).view view).any View.boundary then [.boundary view false, .boundary v true]
      else []) t) :
    InsertedAbove view b v (Order.read s).views (Order.read t).views := by
  obtain ⟨hg₁, hg₂, hrest⟩ := hrun
  have hread : Order.read ((newText b name []).apply s) = Order.read s := Order.read_apply hg₁
  obtain ⟨i, hi, -⟩ := Option.bind_eq_some_iff.mp hview
  obtain ⟨x, -, hid, hdrop, -⟩ := Order.split_at_position hi
  have hx : x ∈ (Order.read s).placed := mem_of_mem_drop (by rw [hdrop]; exact mem_cons_self)
  have hshown := Order.block_of_view hview hx hid
  -- the new View goes to the place of the split one
  obtain ⟨j, hj, hplaced, -⟩ := (hok.apply hg₁).strict.insert_slot ⟨v, b, false, .text⟩ hg₂.2.2.2.1
  rw [hread, Order.slot_above hi] at hj
  obtain rfl : i = j := Option.some.inj hj
  rw [hread, hdrop] at hplaced
  have hplaced' := congrArg Order.placed (Order.read_apply hg₂)
  rw [PageStep.onOrder, hread, hplaced] at hplaced'
  refine ⟨((Order.read s).placed.take i).map Placed.view, x.view,
    ((Order.read s).placed.drop (i + 1)).map Placed.view, hid, ?_, ?_⟩
  · rw [Order.views, ← map_cons, ← hdrop, ← map_append, take_append_drop]
  · rw [hview, Option.any_some, ← hshown] at hrest
    cases hb : x.view.boundary with
    | false =>
      rw [hb] at hrest
      obtain rfl := hrest
      have hsame : ({ x.view with boundary := false } : View) = x.view := by rw [← hb]
      rw [Order.views, hplaced', hsame, map_append, map_cons, map_cons]
    | true =>
      rw [hb] at hrest
      obtain ⟨hg₃, hg₄, rfl⟩ := hrest
      rw [Order.views_moveBoundary hplaced' rfl hid hg₃ hg₄]

/-- A mutation that adds a Block puts its View where it is to be. -/
theorem Takes.puts {s : State}
    (h : Takes p s m μs created changed) (hok : PageOk ∅ s) (hrun : PageRun s μs t)
    (hm : m.addsView.isSome = true) : ∃ b v, created = some (.block b v) ∧
      m.Puts b v (Order.read s).views (Order.read t).views := by
  cases h
  case addTextBlock | addDatabaseBlock =>
    obtain ⟨hg₁, hg₂, rfl⟩ := hrun
    have hins := (hok.apply hg₁).newView_views hg₂
    rw [Order.read_apply hg₁] at hins
    exact ⟨_, _, rfl, hins⟩
  case splitTextBlock block view at_ style added shown hview hblock hsteps =>
    refine ⟨added.1, added.2, rfl, ?_⟩
    simp only [Mutation.Puts]
    rcases hsteps with ⟨hat, name, sort, rfl⟩ | ⟨hat, cs, name, tail, sort, rfl⟩
    · rw [if_pos hat]
      exact hok.split_above hview hrun
    · rw [if_neg hat]
      obtain ⟨hg₁, hg₂, hg₃, rfl⟩ := hrun
      have hins := ((hok.apply hg₁).apply hg₂).newView_views hg₃
      rw [Order.read_apply hg₂, Order.read_apply hg₁] at hins
      exact hins
  all_goals simp [Mutation.addsView] at hm

end Watershed.Liquid
