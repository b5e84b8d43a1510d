/-
  The View order follows the Page: reading the order after a step gives what the step makes
  of the order that was read before it (`Order.read_apply`).
-/
import Watershed.Liquid.PageStep

open List

namespace Watershed.Liquid

open PageStep

variable {s t : State} {kind : BlockKind}

namespace Order

theorem read_eq (s : State) :
    read s = ⟨(sortedIn s ["views"]).filterMap (place (blockKinds s))⟩ := by
  rw [read, sorted_eq]

theorem blockKinds_eq_some {b : String} : blockKinds s b = some kind ↔
    s.isMap ["blocks"] = true ∧ s.node [b, "blocks"] = some .map ∧
      s.node ["deleted", b, "blocks"] = some (.scalar (.bool false)) ∧
      kind = BlockKind.of (fieldOfNode s [b, "blocks"] "kind") := by
  simp only [blockKinds, sorted_eq, Option.map_eq_some_iff, find?_sortedIn]
  constructor
  · rintro ⟨e, ⟨hm, he⟩, rfl⟩
    obtain ⟨h1, h2, -⟩ := entryAt_eq_some.mp he
    exact ⟨hm, h1, h2, by rw [entryAt_get he]⟩
  · rintro ⟨hm, h1, h2, rfl⟩
    have he := entryAt_eq_some.mpr ⟨h1, h2, rfl⟩
    exact ⟨_, ⟨hm, he⟩, by rw [entryAt_get he]⟩

theorem blockKinds_congr {b : String} (h1 : s.node ["blocks"] = t.node ["blocks"])
    (h2 : s.node [b, "blocks"] = t.node [b, "blocks"])
    (h3 : s.node ["deleted", b, "blocks"] = t.node ["deleted", b, "blocks"])
    (h4 : s.node ["kind", b, "blocks"] = t.node ["kind", b, "blocks"]) :
    blockKinds s b = blockKinds t b := by
  ext kind
  rw [blockKinds_eq_some, blockKinds_eq_some, State.isMap_congr h1, h2, h3]
  unfold fieldOfNode
  rw [h4]

/-- A Block's kind is untouched by a step in another entry. -/
theorem blockKinds_apply (μ : PageStep) (s : State) {b : String} (h : [b, "blocks"] ≠ μ.footprint) :
    blockKinds (μ.apply s) b = blockKinds s b := by
  have hb := μ.sameUnder_of_ne s rfl h
  exact blockKinds_congr (μ.node_apply_top s _) hb.node (hb.below _).node (hb.below _).node

/-- The order is determined by the Views' entries and the kinds of the Blocks they name. -/
theorem read_congr (hv : s.isMap ["views"] = t.isMap ["views"])
    (he : ∀ v, entryAt s ["views"] v = entryAt t ["views"] v)
    (hb : ∀ e ∈ sortedIn s ["views"], place (blockKinds s) e = place (blockKinds t) e) :
    read s = read t := by
  rw [read_eq, read_eq, ← sortedIn_congr hv he, filterMap_congr hb]

variable {μ : PageStep} {after : Option ViewId} {b : BlockId} {v : ViewId} {sort : String}
    {e : Entry} {o : Order}

theorem place_congr {f g : String → Option BlockKind}
    (h : ∀ b, e.get "block" = some b → f b = g b) : place f e = place g e := by
  unfold place
  cases hb : e.get "block" with
  | none => rfl
  | some b =>
    change (f b >>= _) = (g b >>= _)
    rw [h b hb]

theorem place_eq_some {f : String → Option BlockKind} {p : Placed} :
    place f e = some p ↔ ∃ b kind, e.get "block" = some b ∧ f b = some kind ∧
      p = ⟨(e.get "sort").getD "",
        ⟨.stored e.id, .stored b, e.get "boundary" = some "true", kind⟩⟩ := by
  unfold place
  cases hb : e.get "block" with
  | none => simp
  | some b => cases hk : f b <;> simp [hk, eq_comm]

theorem ids_nodup (s : State) : ((read s).placed.map fun x => x.view.id).Nodup := by
  refine pairwise_map.mpr ?_
  rw [read_eq]
  refine List.Pairwise.filterMap _ ?_ (ids_sortedIn s ["views"])
  intro a b hab x hx y hy hxy
  obtain ⟨_, _, -, -, rfl⟩ := place_eq_some.mp hx
  obtain ⟨_, _, -, -, rfl⟩ := place_eq_some.mp hy
  exact hab (congrArg Id.asStr hxy)

/-- No View stands in the order twice. -/
theorem unique_view (s : State) (v : ViewId) :
    Unique (fun placed => decide (placed.view.id = v)) (read s).placed := by
  refine (pairwise_map.mp (ids_nodup s)).imp fun {a b} hne h => hne ?_
  simp only [decide_eq_true_eq] at h
  exact h.1.trans h.2.symm

theorem remove_eq_elim (o : Order) (v : ViewId) : (o.remove v).placed =
    (o.placed.findIdx? fun placed => decide (placed.view.id = v)).elim o.placed
      fun i => o.placed.eraseIdx i := by
  unfold remove position
  cases o.placed.findIdx? fun placed => decide (placed.view.id = v) <;> rfl

theorem setBoundary_eq_elim (o : Order) (v : ViewId) (x : Bool) : (o.setBoundary v x).placed =
    (o.placed.findIdx? fun placed => decide (placed.view.id = v)).elim o.placed
      fun i => o.placed.modify i fun placed =>
        { placed with view := { placed.view with boundary := x } } := by
  unfold setBoundary position
  cases o.placed.findIdx? fun placed => decide (placed.view.id = v) <;> rfl

theorem ext {o o' : Order} (h : o.placed = o'.placed) : o = o' := by
  cases o; cases o'; exact congrArg Order.mk h

/-! ## Steps in a Block -/

/-- A step in a Block leaves the order alone if the Views that name the Block stay shown, or
    stay hidden, as they were. -/
theorem read_apply_block (hf : μ.footprint = blockPath b)
    (hb : ∀ e ∈ sortedIn s ["views"], e.get "block" = some b.asStr →
      place (blockKinds (μ.apply s)) e = place (blockKinds s) e) :
    read (μ.apply s) = read s := by
  have hv : SameUnder ["views"] (μ.apply s) s := by
    have hout := (μ.sameOutside s).mono μ.footprint_part
    rw [hf] at hout
    apply hout.sameUnder <;> simp [suffix_cons_iff]
  refine (read_congr (State.isMap_congr hv.node).symm (fun v => (hv.below v).entryAt.symm) ?_).symm
  intro e he
  by_cases heb : e.get "block" = some b.asStr
  · exact (hb e he heb).symm
  · refine place_congr fun b' hb' => (blockKinds_apply μ s ?_).symm
    rw [hf]
    rintro h
    simp only [List.cons.injEq, and_true] at h
    rw [hb', h] at heb
    exact heb rfl

/-- So it is when the Block's own entry keeps its kind. -/
theorem read_apply_of_kind (hf : μ.footprint = blockPath b)
    (h2 : (μ.apply s).node (blockPath b) = s.node (blockPath b))
    (h3 : (μ.apply s).node ("deleted" :: blockPath b) = s.node ("deleted" :: blockPath b))
    (h4 : (μ.apply s).node ("kind" :: blockPath b) = s.node ("kind" :: blockPath b)) :
    read (μ.apply s) = read s := by
  refine read_apply_block hf fun e he heb => place_congr fun b' hb' => ?_
  rw [heb] at hb'
  cases hb'
  exact blockKinds_congr (μ.node_apply_top s _) h2 h3 h4

theorem block_mem_names {b : String} (he : e ∈ sortedIn s ["views"])
    (hb : e.get "block" = some b) : b ∈ Names s := by
  refine .inr ⟨e.id, ?_⟩
  rw [← entryAt_get (mem_sortedIn.mp he).2, hb]

/-- No View names a new Block yet. -/
theorem read_apply_new (hf : μ.footprint = blockPath b)
    (hb : b.asStr ∉ Names s) : read (μ.apply s) = read s :=
  read_apply_block hf fun _ he heb => absurd (block_mem_names he heb) hb

theorem read_apply_removeBlock (h : (removeBlock b).Guard s) :
    read ((removeBlock b).apply s) = read s := by
  refine read_apply_block rfl fun e he heb => ?_
  have hgone : blockKinds ((removeBlock b).apply s) b.asStr = none := by
    rw [Option.eq_none_iff_forall_ne_some]
    intro kind hk
    have := (blockKinds_eq_some.mp hk).2.2.1
    simp [PageStep.apply] at this
  have hnone : ∀ {f : String → Option BlockKind}, f b.asStr = none → place f e = none := by
    intro f hf
    rw [Option.eq_none_iff_forall_ne_some]
    intro p hp
    obtain ⟨b', kind, hb', hk, -⟩ := place_eq_some.mp hp
    rw [heb] at hb'
    cases hb'
    rw [hf] at hk
    cases hk
  rw [hnone hgone, hnone]
  rw [Option.eq_none_iff_forall_ne_some]
  intro kind hk
  -- a View of `b` in the order, which the step does not allow
  obtain ⟨p, hp⟩ : ∃ p, place (blockKinds s) e = some p :=
    ⟨_, place_eq_some.mpr ⟨_, kind, heb, hk, rfl⟩⟩
  have hmem : p ∈ (read s).placed := by
    rw [read_eq]
    exact mem_filterMap.mpr ⟨e, he, hp⟩
  obtain ⟨b', _, hb', -, rfl⟩ := place_eq_some.mp hp
  rw [heb] at hb'
  cases hb'
  exact h.2 _ hmem rfl

/-! ## Steps in a View -/

theorem blockKinds_apply_view (hf : μ.footprint = viewPath v) :
    blockKinds (μ.apply s) = blockKinds s := by
  funext b
  refine blockKinds_apply μ s ?_
  rw [hf]
  simp

theorem entryAt_apply_view (hf : μ.footprint = viewPath v)
    {k : String} (hk : k ≠ v.asStr) : entryAt (μ.apply s) ["views"] k = entryAt s ["views"] k := by
  refine (μ.sameUnder_of_ne s rfl ?_).entryAt
  rw [hf]
  simpa using hk

/-- Where a View placed after `after` goes. -/
def slot (o : Order) (after : Option ViewId) : Option Nat :=
  match after with
  | none => some 0
  | some after => (o.position after).map (· + 1)

theorem keyAfter_eq_ok :
    o.keyAfter after = .ok sort ↔ ∃ i, o.slot after = some i ∧
      sort = SortKey.between (if i = 0 then none else o.placed[i - 1]?.map Placed.sort)
        (o.placed[i]?.map Placed.sort) := by
  cases after with
  | none => simp [keyAfter, slot, bind, Except.bind, pure, Except.pure, eq_comm]
  | some after =>
    cases hp : o.position after with
    | none => simp [keyAfter, slot, hp]
    | some i => simp [keyAfter, slot, hp, bind, Except.bind, pure, Except.pure, eq_comm]

theorem keyAfter_valid (h : o.keyAfter after = .ok sort) : SortKey.Valid sort.toList := by
  obtain ⟨i, -, rfl⟩ := keyAfter_eq_ok.mp h
  exact (SortKey.between_spec _ _).1

theorem insert_eq (o : Order) (sort : String) (view : View) : (o.insert sort view).placed =
    o.placed.takeWhile (fun p => decide (toLex (p.sort, p.view.id.asStr) < toLex (sort, view.id.asStr))) ++
      ⟨sort, view⟩ ::
    o.placed.dropWhile (fun p => decide (toLex (p.sort, p.view.id.asStr) < toLex (sort, view.id.asStr))) :=
  insertIdx_takeWhile _ _ _

theorem read_apply_newView (h : (PageStep.newView after v b sort kind).Guard s) :
    read ((PageStep.newView after v b sort kind).apply s) =
      (read s).insert sort ⟨v, b, false, kind⟩ := by
  obtain ⟨hv, hm, hk, hs, -⟩ := h
  have hsort := (keyAfter_valid hs).ne_empty
  -- the new View's entry
  have hnone : entryAt s ["views"] v.asStr = none := entryAt_eq_none hv
  obtain ⟨e, he⟩ : ∃ e, entryAt ((PageStep.newView after v b sort kind).apply s) ["views"] v.asStr =
      some e := ⟨_, entryAt_eq_some.mpr ⟨by
        simp [PageStep.apply, State.insertEntry, State.setFields, State.set, suffix_cons_iff],
        by simp [PageStep.apply, State.insertEntry, State.set, suffix_cons_iff],
        rfl⟩⟩
  have hid := entryAt_id he
  have hget : e.get "block" = some b.asStr ∧ e.get "sort" = some sort ∧
      e.get "boundary" = some "false" := by
    refine ⟨?_, ?_, ?_⟩ <;> rw [entryAt_get he] <;>
      simp [fieldOfNode, PageStep.apply, State.insertEntry, State.setFields, State.set,
        suffix_cons_iff, fieldText]
  have hplace : place (blockKinds s) e = some ⟨sort, ⟨v, b, false, kind⟩⟩ := by
    rw [place_eq_some]
    refine ⟨_, kind, hget.1, hk, ?_⟩
    rw [hget.2.1, hget.2.2, hid]
    rfl
  rw [← hid] at hnone he
  apply Order.ext
  rw [read_eq, blockKinds_apply_view rfl, insert_eq, read_eq,
    sortedIn_insert hm (by rwa [isMap_apply_top]) hnone he fun k hk' =>
      entryAt_apply_view rfl (by rwa [← hid])]
  refine (ordered_sortedIn s ["views"]).filterMap_insertBy _ hplace fun e' _ p hp => ?_
  obtain ⟨_, _, -, -, rfl⟩ := place_eq_some.mp hp
  rw [decide_eq_decide, Entry.order_lt_iff hget.2.1 hsort, hid]
  rfl

theorem read_apply_removeView : read ((PageStep.removeView v).apply s) = (read s).remove v := by
  apply Order.ext
  rw [remove_eq_elim, (unique_view s v).erase_findIdx?, read_eq, read_eq,
    blockKinds_apply_view rfl, sortedIn_remove (isMap_apply_top _ _ _).symm
      (by simp [PageStep.apply]) fun k hk => entryAt_apply_view rfl hk,
    filterMap_filter, filter_filterMap]
  refine filterMap_congr fun e _ => ?_
  cases hp : place (blockKinds s) e with
  | none => simp
  | some p =>
    obtain ⟨_, _, -, -, rfl⟩ := place_eq_some.mp hp
    cases v
    simp [Id.stored, Option.filter]

theorem read_apply_boundary {x : Bool} :
    read ((boundary v x).apply s) = (read s).setBoundary v x := by
  let t := (boundary v x).apply s
  let f : Entry → Entry := fun e => if e.id = v.asStr then ⟨v.asStr, fieldsOf t (viewPath v)⟩ else e
  have hnode : ∀ q, q ≠ "boundary" :: viewPath v → q.length ≤ 3 → t.node q = s.node q := by
    intro q hq hl
    refine State.node_set_frame _ _ _ _ fun h => hq ?_
    exact (h.eq_of_length_le (by simpa using hl)).symm
  have hf : ∀ k, entryAt t ["views"] k = (entryAt s ["views"] k).map f := by
    intro k
    by_cases hk : k = v.asStr
    · subst hk
      unfold entryAt
      rw [hnode _ (by simp) (by simp), hnode ["deleted", v.asStr, "views"] (by simp) (by simp)]
      split
      · simp [f, fieldsOf]
      · rfl
    · rw [entryAt_apply_view rfl hk]
      cases he : entryAt s ["views"] k with
      | none => rfl
      | some e => simp [f, entryAt_id he, hk]
  -- of the entry's fields only the boundary changes
  have hget : ∀ e ∈ sortedIn s ["views"], e.id = v.asStr →
      (∀ key, key ≠ "boundary" → (f e).get key = e.get key) ∧
      (f e).get "boundary" = some (if x then "true" else "false") := by
    intro e he hid
    have h1 := (mem_sortedIn.mp he).2
    have h2 : entryAt t ["views"] e.id = some (f e) := by rw [hf, h1]; rfl
    constructor
    · intro key hkey
      rw [entryAt_get h2, entryAt_get h1, fieldOfNode, fieldOfNode,
        hnode _ (by simp [hkey]) (by simp)]
    · rw [entryAt_get h2, hid, fieldOfNode]
      simp [t, PageStep.apply, fieldText]
  have hfid : ∀ e, (f e).id = e.id := by
    intro e
    by_cases hid : e.id = v.asStr <;> simp [f, hid]
  have hother : ∀ e, e.id ≠ v.asStr → f e = e := fun e he => if_neg he
  have hsort : ∀ e ∈ sortedIn s ["views"], (f e).get "sort" = e.get "sort" := by
    intro e he
    by_cases hid : e.id = v.asStr
    · exact (hget e he hid).1 _ (by decide)
    · rw [hother e hid]
  apply Order.ext
  rw [setBoundary_eq_elim, (unique_view s v).modify_findIdx?, read_eq, read_eq,
    blockKinds_apply_view rfl,
    sortedIn_map hfid hsort (isMap_apply_top _ _ _).symm hf, filterMap_map,
    map_filterMap]
  refine filterMap_congr fun e he => ?_
  simp only [Function.comp_apply]
  by_cases hid : e.id = v.asStr
  · obtain ⟨h1, h2⟩ := hget e he hid
    unfold place
    rw [h1 "block" (by decide), h1 "sort" (by decide), h2, hfid]
    cases e.get "block" with
    | none => rfl
    | some b =>
      cases hk : blockKinds s b with
      | none => simp [hk]
      | some kind =>
        cases x <;> simp [Id.stored, hid]
  · rw [hother e hid]
    cases hp : place (blockKinds s) e with
    | none => rfl
    | some p =>
      obtain ⟨_, _, -, -, rfl⟩ := place_eq_some.mp hp
      obtain ⟨v⟩ := v
      simp [Id.stored, hid]

/-- Reading the order after a step gives what the step makes of the order. -/
theorem read_apply (h : μ.Guard s) : read (μ.apply s) = μ.onOrder (read s) := by
  cases μ
  case newView after v b sort kind => exact read_apply_newView h
  case removeView v => exact read_apply_removeView
  case boundary v x => exact read_apply_boundary
  case newText b name cs => exact read_apply_new rfl h.1
  case newDatabase b name f sort => exact read_apply_new rfl h.1
  case removeBlock b => exact read_apply_removeBlock h
  all_goals
    refine read_apply_of_kind rfl ?_ ?_ ?_ <;>
      exact node_apply _ _ (by simp [part, suffix_cons_iff])

end Order

end Watershed.Liquid
