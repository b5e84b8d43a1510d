/-
  What each mutation of a Page does, as a run of Page steps.

  A mutation that returns has taken a run of steps, and the View order or row index it was
  given has moved along with them. A mutation that fails has left that cache as it was: no
  error follows a cache update.
-/
import Watershed.Liquid.PageRun

open List

namespace Watershed.Liquid

open PageStep

open Fallible (wp change wp_bind wp_change wp_lift wp_okOr wp_pure wp_read)

/-! ## Writing primitives -/

section
variable {A : Automerge} {κ : Type} {c : Ctx A κ} {E : Error → Ctx A κ → Prop}

@[simp] theorem wp_state {Q : State → Ctx A κ → Prop} :
    wp (state : DocM A κ State) Q E c ↔ Q (A.state c.doc) c := Iff.rfl

variable {Q : Unit → Ctx A κ → Prop} {e : Edit} {p : Path} {k id : String}
    {fields : List (String × String)}

theorem wp_edit (hok : ∀ s d, (A.state c.doc).edit e = some s → A.state d = s →
      A.version d = A.version c.doc → Q () { c with doc := d })
    (herr : (A.state c.doc).edit e = none → ∀ error, E error c) : wp (edit e) Q E c := by
  unfold wp edit
  cases he : (A.state c.doc).edit e with
  | none => exact herr he _
  | some s =>
    obtain ⟨h1, h2⟩ := A.edited_spec _ _ _ he
    exact hok s _ he h1 h2

/-- A write of a key that the model's `set` describes. -/
theorem wp_edit_set
    {n : Option Node} (he : ∀ s : State, s.edit e = if s.isMap p then some (s.set k p n) else none)
    (hok : (A.state c.doc).isMap p = true → ∀ d, A.state d = (A.state c.doc).set k p n →
      A.version d = A.version c.doc → Q () { c with doc := d })
    (herr : (A.state c.doc).isMap p = false → ∀ error, E error c) : wp (edit e) Q E c := by
  refine wp_edit (fun s d hs hd hv => ?_) fun hs => herr ?_
  · rw [he] at hs
    split at hs
    · rename_i hp
      cases hs
      exact hok hp d hd hv
    · cases hs
  · rw [he] at hs
    by_contra hp
    rw [if_pos (by simpa using hp)] at hs
    cases hs

theorem wp_put {v : Scalar} (hok : (A.state c.doc).isMap p = true → ∀ d,
      A.state d = (A.state c.doc).set k p (some (.scalar v)) →
      A.version d = A.version c.doc → Q () { c with doc := d })
    (herr : (A.state c.doc).isMap p = false → ∀ error, E error c) : wp (put p k v) Q E c :=
  wp_edit_set (fun _ => rfl) hok herr

theorem wp_delete
    (hok : (A.state c.doc).isMap p = true → ∀ d, A.state d = (A.state c.doc).set k p none →
      A.version d = A.version c.doc → Q () { c with doc := d })
    (herr : (A.state c.doc).isMap p = false → ∀ error, E error c) : wp (delete p k) Q E c :=
  wp_edit_set (fun _ => rfl) hok herr

theorem wp_putObject {Q : Path → Ctx A κ → Prop} {t : NewObject}
    (hok : (A.state c.doc).isMap p = true → ∀ d, A.state d = (A.state c.doc).set k p (some t.node) →
      A.version d = A.version c.doc → Q (k :: p) { c with doc := d })
    (herr : (A.state c.doc).isMap p = false → ∀ error, E error c) : wp (putObject p k t) Q E c := by
  unfold putObject
  simp only [wp_bind]
  exact wp_edit_set (fun _ => rfl) hok herr

theorem wp_spliceText {at_ del : Nat} {ins : String}
    (hok : ∀ cs d, (A.state c.doc).node (k :: p) = some (.text cs) → at_ + del ≤ units cs →
      A.state d = (A.state c.doc).set k p (some (.text (spliced cs at_ del ins.toList))) →
      A.version d = A.version c.doc → Q () { c with doc := d })
    (herr : ∀ error, E error c) : wp (spliceText (k :: p) at_ del ins) Q E c := by
  refine wp_edit (fun s d hs hd hv => ?_) fun _ => herr
  simp only [State.edit] at hs
  split at hs
  · rename_i cs hcs
    split at hs
    · rename_i hle
      cases hs
      exact hok cs d hcs hle hd hv
    · cases hs
  · cases hs

theorem wp_newId {ι : IdKind} {random : Random} {Q : Id ι → Ctx A κ → Prop}
    (hok : ∀ bytes, random c.drawn = some bytes → Q ⟨hex bytes⟩ { c with drawn := c.drawn + 1 })
    (herr : ∀ error, E error { c with drawn := c.drawn + 1 }) : wp (newId random) Q E c := by
  unfold wp newId
  cases h : random c.drawn with
  | none => exact herr _
  | some bytes => exact hok bytes h

theorem State.isMap_set_self (s : State) (k : String) (p : Path) (n : Option Node) :
    (s.set k p n).isMap p = s.isMap p :=
  State.isMap_congr (s.node_set_frame k p n fun h => by simpa using h.length_le)

theorem wp_putFields {obj : Path} :
    ∀ {fields : List (String × String)} {c : Ctx A κ}, (A.state c.doc).isMap obj = true →
      (∀ d, A.state d = (A.state c.doc).setFields obj fields → A.version d = A.version c.doc →
        Q () { c with doc := d }) → wp (putFields obj fields) Q E c
  | [], c, _, hok => hok c.doc rfl rfl
  | (k, v) :: fields, c, hm, hok => by
    unfold putFields
    rw [wp_bind]
    refine wp_put (fun _ d hd hv => ?_) fun h => ?_
    · refine wp_putFields (by rwa [hd, State.isMap_set_self]) fun d' hd' hv' => ?_
      refine hok d' ?_ (hv'.trans hv)
      rw [hd', hd]
      rfl
    · rw [hm] at h
      cases h

/-- A new entry is written as a whole, or refused before anything is written. -/
theorem wp_insertIn {Q : Path → Ctx A κ → Prop} {m : Path}
    (hok : (A.state c.doc).isMap m = true → ∀ d,
      A.state d = (A.state c.doc).insertEntry m id fields →
      A.version d = A.version c.doc → Q (id :: m) { c with doc := d })
    (herr : (A.state c.doc).isMap m = false → ∀ error, E error c) :
    wp (insertIn m id fields) Q E c := by
  unfold insertIn
  simp only [wp_bind]
  refine wp_putObject (fun hm d hd hv => ?_) herr
  have hobj : (A.state d).isMap (id :: m) = true := by
    rw [hd]
    exact State.isMap_of_map (State.node_set_self _ _ _ _)
  refine wp_putFields hobj fun d' hd' hv' => ?_
  refine wp_put (fun _ d'' hd'' hv'' => ?_) fun h => ?_
  · refine hok hm d'' ?_ (hv''.trans (hv'.trans hv))
    rw [hd'', hd', hd]
    rfl
  · rw [hd', State.isMap_setFields, hobj] at h
    cases h

theorem wp_insert {Q : Path → Ctx A κ → Prop} {map : String}
    (hok : (A.state c.doc).isMap [map] = true → ∀ d,
      A.state d = (A.state c.doc).insertEntry [map] id fields →
      A.version d = A.version c.doc → Q [id, map] { c with doc := d })
    (herr : ∀ error, E error c) : wp (insert map id fields) Q E c := by
  unfold insert top
  simp only [wp_bind, wp_okOr]
  refine ⟨fun p hp => ?_, fun _ => herr _⟩
  obtain ⟨-, rfl, -⟩ := child_eq_some.mp hp
  exact wp_insertIn hok fun _ => herr

end

/-! ## What a mutation leaves behind -/

section
variable {A : Automerge} {κ : Type}

/-- From `c` to `c'` the steps `μs` were taken, with identities drawn on the way. -/
structure Did (random : Random) (c c' : Ctx A κ) (μs : List PageStep) : Prop where
  run : PageRun c.state μs c'.state
  version : A.version c'.doc = A.version c.doc
  drawn : c.drawn ≤ c'.drawn
  ids : ∀ μ ∈ μs, ∀ x ∈ μ.ids, Drawn random c'.drawn x

/-- From `c` to `c'` nothing was committed and the cache was left alone. -/
structure Kept (c c' : Ctx A κ) : Prop where
  cache : c'.cache = c.cache
  version : A.version c'.doc = A.version c.doc
  drawn : c.drawn ≤ c'.drawn

abbrev Ctx.Fresh (random : Random) (c : Ctx A κ) : Prop := Liquid.Fresh random c.drawn c.state

/-- The cached order is that of the document. -/
abbrev Ctx.Coherent (c : Ctx A Order) : Prop := c.cache = Order.read c.state

variable {random : Random} {c c' c'' : Ctx A κ} {μs νs : List PageStep}

theorem Kept.refl (c : Ctx A κ) : Kept c c := ⟨rfl, rfl, le_rfl⟩

/-- A mutation that meets `Q`, or fails and keeps what `Kept` says. -/
abbrev Meets {α : Type} (m : DocM A κ α) (Q : α → Ctx A κ → Prop) (c : Ctx A κ) : Prop :=
  wp m Q (fun _ c' => Kept c c') c

theorem Kept.trans (h : Kept c c') (h' : Kept c' c'') : Kept c c'' :=
  ⟨h'.cache.trans h.cache, h'.version.trans h.version, h.drawn.trans h'.drawn⟩

theorem Did.kept (h : Did random c c' μs) (hc : c'.cache = c.cache) : Kept c c' :=
  ⟨hc, h.version, h.drawn⟩

theorem Did.append (h : Did random c c' μs) (h' : Did random c' c'' νs) :
    Did random c c'' (μs ++ νs) := by
  refine ⟨h.run.append h'.run, h'.version.trans h.version, h.drawn.trans h'.drawn, fun μ hμ x hx => ?_⟩
  rcases mem_append.mp hμ with hμ | hμ
  · exact (h.ids μ hμ x hx).mono h'.drawn
  · exact h'.ids μ hμ x hx

theorem Did.fresh (h : Did random c c' μs) (hd : Distinct random)
    (hf : c.Fresh random) : c'.Fresh random :=
  (hf.mono h.drawn).run hd h.run h.ids

/-- The steps `μs` were taken and the View order followed them. -/
structure DidOrder (random : Random) (c c' : Ctx A Order) (μs : List PageStep) : Prop
    extends Did random c c' μs where
  cache : c'.cache = μs.foldl (fun o μ => μ.onOrder o) c.cache

/-- The steps `μs` were taken and the row index of `b` followed them. -/
structure DidIndex (random : Random) (b : BlockId) (c c' : Ctx A Index) (μs : List PageStep) : Prop
    extends Did random c c' μs where
  cache : c'.cache = μs.foldl (fun ix μ => μ.onIndex b ix) c.cache

theorem DidOrder.append {c c' c'' : Ctx A Order} (h : DidOrder random c c' μs)
    (h' : DidOrder random c' c'' νs) : DidOrder random c c'' (μs ++ νs) :=
  ⟨h.toDid.append h'.toDid, by rw [h'.cache, h.cache, foldl_append]⟩

/-- An order that was right is right after the steps. -/
theorem DidOrder.coherent {c c' : Ctx A Order} (h : DidOrder random c c' μs) (hc : c.Coherent) :
    c'.Coherent := by
  rw [Ctx.Coherent, h.cache, hc, h.run.read_order]

theorem DidIndex.indexOk {b : BlockId} {c c' : Ctx A Index} (h : DidIndex random b c c' μs)
    (hix : IndexOk c.state b c.cache) : IndexOk c'.state b c'.cache := by
  rw [h.cache]
  exact PageRun.indexOk hix h.run

end

/-! ## Views -/

section
variable {A : Automerge} {random : Random} {c : Ctx A Order}
variable {bytes : RandomBytes} {after : Option ViewId} {b block : BlockId} {kind : BlockKind}
    {μ : PageStep} {s : State} {style : TextStyle} {v view : ViewId} {p : Path} {sort name : String}
    {cs : List Char} {x : Bool} {at_ : Nat}

variable {κ : Type}

theorem fresh_id {c : Ctx A κ} (hf : c.Fresh random) (hr : random c.drawn = some bytes) :
    hex bytes ∉ Names c.state :=
  hf c.drawn bytes le_rfl hr

/-- A single step whose identities are drawn. -/
theorem Did.single {c c' : Ctx A κ} (hg : μ.Guard c.state)
    (hs : c'.state = μ.apply c.state) (hv : A.version c'.doc = A.version c.doc)
    (hd : c.drawn ≤ c'.drawn) (hids : ∀ x ∈ μ.ids, Drawn random c'.drawn x) :
    Did random c c' [μ] :=
  ⟨PageRun.single hg hs, hv, hd, fun ν hν x hx => hids x (by rwa [mem_singleton.mp hν] at hx)⟩

theorem drawn_now {c : Ctx A κ} (hr : random c.drawn = some bytes) :
    ∀ x ∈ [hex bytes], Drawn random (c.drawn + 1) x :=
  forall_mem_singleton.mpr ⟨c.drawn, bytes, Nat.lt_succ_self _, hr, rfl⟩

theorem addView_spec (hc : c.Coherent) (hf : c.Fresh random)
    (hb : Order.blockKinds c.state b.asStr = some kind)
    (hu : ∀ v, fieldOfNode c.state [v, "views"] "block" ≠ some b.asStr) :
    Meets (addView random after b kind)
      (fun v c' => ∃ sort, DidOrder random c c' [.newView after v b sort kind]) c := by
  unfold Meets addView
  simp only [wp_bind, wp_lift]
  refine ⟨fun sort hsort => ?_, fun _ _ => Kept.refl c⟩
  refine wp_newId (fun bytes hr => ?_) fun _ => ⟨rfl, rfl, Nat.le_succ _⟩
  have hv := fresh_id hf hr
  refine wp_insert (fun hm d hd hver => ?_) fun _ => ⟨rfl, rfl, Nat.le_succ _⟩
  simp only [wp_okOr]
  have hlive : live (A.state d) "views" (hex bytes) = some [hex bytes, "views"] := by
    rw [live_eq_some, hd]
    refine ⟨rfl, ?_, ?_, ?_⟩
    · rw [State.isMap_congr (State.node_insertEntry_frame (by simp [suffix_cons_iff]) _ _)]
      exact hm
    · simp [State.isMap, State.insertEntry, State.setFields, State.set, suffix_cons_iff]
    · simp [State.insertEntry]
  refine ⟨fun p hp => ?_, fun hn => ?_⟩
  · rw [hlive] at hp
    cases hp
    refine wp_put (fun _ d' hd' hver' => ?_) fun _ _ => ⟨rfl, hver, Nat.le_succ _⟩
    refine ⟨sort, ⟨Did.single ⟨hv, hm, hb, by rwa [← hc], hu⟩ ?_ (hver'.trans hver)
      (Nat.le_succ _) (drawn_now hr), rfl⟩⟩
    simp only [Ctx.state, hd', hd]
    rfl
  · rw [hlive] at hn
    cases hn

/-- No View names a Block that is new. -/
theorem unreferenced_of_fresh {b : String} (h : b ∉ Names s) (v : String) :
    fieldOfNode s [v, "views"] "block" ≠ some b :=
  fun hv => h (.inr ⟨v, hv⟩)

theorem unreferenced_apply {b' : BlockId}
    (hf : μ.footprint = blockPath b') (h : b.asStr ∉ Names s) (v : String) :
    fieldOfNode (μ.apply s) [v, "views"] "block" ≠ some b.asStr := by
  have hsame : SameUnder [v, "views"] (μ.apply s) s := μ.sameUnder_of_ne s rfl (by rw [hf]; simp)
  rw [fieldOfNode, (hsame.below "block").node]
  exact unreferenced_of_fresh h v

theorem addTextBlock_spec {text : String}
    (hd : Distinct random) (hc : c.Coherent) (hf : c.Fresh random) :
    Meets (addTextBlock random after text style) (fun added c' => ∃ name sort, DidOrder random c c'
        [.newText added.1 name text.toList, .newView after added.2 added.1 sort .text]) c := by
  unfold Meets addTextBlock
  simp only [wp_bind, wp_lift]
  refine ⟨fun name _ => ?_, fun _ _ => Kept.refl c⟩
  refine wp_newId (fun bytes hr => ?_) fun _ => ⟨rfl, rfl, Nat.le_succ _⟩
  have hb := fresh_id hf hr
  refine wp_insert (fun hm d hs hv => ?_) fun _ => ⟨rfl, rfl, Nat.le_succ _⟩
  refine wp_putObject (fun _ d' hs' hv' => ?_) fun _ _ => ⟨rfl, hv, Nat.le_succ _⟩
  refine wp_spliceText (fun cs d'' hcs _ hs'' hv'' => ?_) fun _ => ⟨rfl, hv'.trans hv, Nat.le_succ _⟩
  have hcs : cs = [] := by
    rw [hs', State.node_set_self] at hcs
    cases hcs
    rfl
  subst hcs
  have htext : DidOrder random c { c with doc := d'', drawn := c.drawn + 1 }
      [.newText ⟨hex bytes⟩ name text.toList] := by
    refine ⟨Did.single ⟨hb, hm⟩ ?_ (hv''.trans (hv'.trans hv)) (Nat.le_succ _) (drawn_now hr), rfl⟩
    simp only [Ctx.state, hs'', hs', State.set_set, hs]
    simp [apply, spliced]
  have hstate : A.state d'' = (newText ⟨hex bytes⟩ name text.toList).apply c.state := htext.run.2
  have hkind : Order.blockKinds (A.state d'') (hex bytes) = some .text := by
    rw [Order.blockKinds_eq_some, hstate, isMap_apply_top]
    refine ⟨hm, ?_, ?_, ?_⟩ <;>
      simp [fieldOfNode, apply, State.insertEntry, State.setFields, State.set,
        suffix_cons_iff, fieldText, BlockKind.of]
  refine (addView_spec (htext.coherent hc) (htext.fresh hd hf) hkind ?_).mono ?_ ?_
  · simp only [Ctx.state, hstate]
    exact unreferenced_apply rfl hb
  · rintro v c' ⟨sort, hview⟩
    exact ⟨name, sort, htext.append hview⟩
  · intro _ c' hk
    exact (htext.kept rfl).trans hk

/-! ## Boundaries -/

theorem live_views : live s "views" v.asStr = some p ↔ LiveView s v ∧ p = viewPath v := by
  rw [live_eq_some]
  constructor
  · rintro ⟨rfl, h1, h2, h3⟩
    exact ⟨⟨h1, h2, h3⟩, rfl⟩
  · rintro ⟨⟨h1, h2, h3⟩, rfl⟩
    exact ⟨rfl, h1, h2, h3⟩

/-- A View of the order is live in the document. -/
theorem Order.liveView_of_view {shown : View}
    (h : (Order.read s).view v = some shown) : LiveView s v ∧ shown.id = v ∧
      ∃ placed ∈ (Order.read s).placed, placed.view = shown := by
  obtain ⟨i, hi, h⟩ := Option.bind_eq_some_iff.mp h
  obtain ⟨placed, hp, rfl⟩ := Option.map_eq_some_iff.mp h
  obtain ⟨hlt, hv, -⟩ := List.findIdx?_eq_some_iff_getElem.mp hi
  have hget : (Order.read s).placed[i] = placed := by
    rw [List.getElem?_eq_getElem hlt] at hp
    exact Option.some.inj hp
  rw [hget] at hv
  have hid : placed.view.id = v := by simpa using hv
  have hmem : placed ∈ (Order.read s).placed := mem_of_getElem? hp
  refine ⟨?_, hid, placed, hmem, rfl⟩
  rw [Order.read_eq] at hmem
  obtain ⟨e, he, hplace⟩ := mem_filterMap.mp hmem
  obtain ⟨_, _, -, -, rfl⟩ := Order.place_eq_some.mp hplace
  obtain ⟨hm, he⟩ := mem_sortedIn.mp he
  obtain ⟨h1, h2, -⟩ := entryAt_eq_some.mp he
  subst hid
  exact ⟨hm, State.isMap_of_map h1, h2⟩

/-- A step elsewhere leaves a live View live. -/
theorem LiveView.apply (h : LiveView s v)
    (hf : μ.part ≠ "deleted" :: viewPath v) (hp : ¬ μ.part <:+ viewPath v) :
    LiveView (μ.apply s) v := by
  refine ⟨by rw [isMap_apply_top]; exact h.views, ?_, ?_⟩
  · rw [State.isMap_congr (μ.node_apply s hp)]
    exact h.entry
  · rw [μ.node_apply s fun hs => ?_]
    · exact h.live
    · rcases suffix_cons_iff.mp hs with hs | hs
      · exact hf hs
      · exact hp hs

/-- A new View is live. -/
theorem liveView_newView (hm : s.isMap ["views"] = true) :
    LiveView ((newView after v b sort kind).apply s) v := by
  refine ⟨by rwa [isMap_apply_top], State.isMap_of_map ?_, ?_⟩ <;>
    simp [apply, State.insertEntry, State.setFields, State.set, suffix_cons_iff]

/-- Adding a Text Block leaves the live Views live and adds one. -/
theorem liveView_addText {t : State}
    (h : PageRun s [.newText b name cs, .newView after v b sort .text] t) :
    LiveView t v ∧ ∀ v', LiveView s v' → LiveView t v' := by
  obtain ⟨-, ⟨hv, hm, -⟩, rfl⟩ := h
  refine ⟨liveView_newView hm, fun v' hl => ?_⟩
  have h1 : LiveView ((newText b name cs).apply s) v' :=
    hl.apply (by simp [PageStep.part]) (by simp [PageStep.part, suffix_cons_iff])
  refine h1.apply (by simp [PageStep.part]) fun hs => hv ?_
  have hp : viewPath v = viewPath v' := hs.eq_of_length rfl
  exact mem_names_of_isMap h1.entry (by rw [← hp]; simp)

variable {E : Error → Ctx A Order → Prop}

theorem putBoundary_wp {Q : Unit → Ctx A Order → Prop}
    (hok : ∀ c', DidOrder random c c' [.boundary v x] → Q () c')
    (herr : ¬ LiveView c.state v → ∀ error, E error c) :
    wp (putBoundary v x) Q E c := by
  unfold putBoundary
  simp only [wp_bind, wp_okOr]
  refine ⟨fun p hp => ?_, fun hn => herr ?_ _⟩
  · obtain ⟨hl, rfl⟩ := live_views.mp hp
    refine wp_put (fun _ d hs hv => ?_) fun hm => ?_
    · exact hok _ ⟨Did.single hl hs hv le_rfl (by simp [ids]), rfl⟩
    · rw [hl.entry] at hm
      cases hm
  · intro hl
    rw [live_views.mpr ⟨hl, rfl⟩] at hn
    cases hn

theorem putBoundary_spec (random : Random) :
    Meets (putBoundary v x) (fun _ c' => DidOrder random c c' [.boundary v x]) c :=
  putBoundary_wp (fun _ h => h) fun _ _ => Kept.refl c

/-- Moving a boundary between two live Views cannot fail. -/
theorem moveBoundary_spec (random : Random) {from_ to_ : ViewId} (hfrom : LiveView c.state from_)
    (hto : LiveView c.state to_) :
    wp (moveBoundary from_ to_)
      (fun _ c' => DidOrder random c c' [.boundary from_ false, .boundary to_ true])
      (fun _ _ => False) c := by
  unfold moveBoundary
  rw [wp_bind]
  refine putBoundary_wp (fun c' (h : DidOrder random c c' _) => ?_) fun hn => absurd hfrom hn
  refine putBoundary_wp (fun c'' h' => h.append h') fun hn => absurd ?_ hn
  rw [h.run.2]
  exact hto.apply (by simp [PageStep.part]) (by simp [PageStep.part, suffix_cons_iff])

/-! ## Text Blocks -/

theorem textBlock_eq_some : textBlock s b = some p ↔ LiveText s b ∧ p = blockPath b := by
  unfold textBlock
  rw [Option.filter_eq_some_iff, live_eq_some]
  constructor
  · rintro ⟨⟨rfl, h1, h2, h3⟩, hk⟩
    exact ⟨⟨h1, h2, h3, (string_eq_some.mp (by simpa using hk)).2⟩, rfl⟩
  · rintro ⟨h, rfl⟩
    exact ⟨⟨rfl, h.blocks, h.entry, h.live⟩, by simpa using string_eq_some.mpr ⟨h.entry, h.kind⟩⟩

theorem textOf_eq_ok (h : textOf s b = .ok p) : LiveText s b ∧ p = "text" :: blockPath b := by
  unfold textOf at h
  split at h
  · cases h
  · rename_i hb
    obtain ⟨hl, rfl⟩ := textBlock_eq_some.mp hb
    split at h
    · cases h
    · rename_i hc
      cases h
      exact ⟨hl, (child_eq_some.mp hc).2.1⟩

/-- Replacing a part of a text is one step. -/
theorem didText {c : Ctx A κ} {cs' : List Char} {d : A.AutoCommit}
    (hb : LiveText c.state b)
    (hcs : c.state.node ("text" :: blockPath b) = some (.text cs))
    (hs : A.state d = c.state.set "text" (blockPath b) (some (.text cs')))
    (hv : A.version d = A.version c.doc) : Did random c { c with doc := d } [.text b cs'] :=
  Did.single ⟨hb, cs, hcs⟩ hs hv le_rfl (by simp [ids])

theorem setTextStyle_spec (random : Random) {c : Ctx A κ} :
    Meets (setTextStyle b name)
      (fun _ c' => Did random c c' [.style b name] ∧ c'.cache = c.cache) c := by
  unfold Meets setTextStyle
  simp only [wp_bind, wp_okOr]
  refine ⟨fun p hp => ?_, fun _ => Kept.refl c⟩
  obtain ⟨hl, rfl⟩ := textBlock_eq_some.mp hp
  refine wp_put (fun _ d hs hv => ?_) fun _ _ => Kept.refl c
  exact ⟨Did.single hl hs hv le_rfl (by simp [ids]), rfl⟩

theorem editText_spec (random : Random) {c : Ctx A κ} {delete : Nat} {insert : String} :
    Meets (editText b at_ delete insert)
      (fun _ c' => ∃ cs, Did random c c' [.text b cs] ∧ c'.cache = c.cache) c := by
  unfold Meets editText
  simp only [wp_bind, wp_lift]
  refine ⟨fun p hp => ?_, fun _ _ => Kept.refl c⟩
  obtain ⟨hl, rfl⟩ := textOf_eq_ok hp
  split
  · exact Kept.refl c
  split
  · exact Kept.refl c
  split
  · exact Kept.refl c
  refine wp_spliceText (fun cs d hcs _ hs hv => ?_) fun _ => Kept.refl c
  exact ⟨_, didText hl hcs hs hv, rfl⟩

/-- The steps of a split: before the first character the new Block goes above and takes over
    the Section boundary; elsewhere the text is cut and the new Block goes below. -/
def SplitSteps (order : Order) (block : BlockId) (view : ViewId) (at_ : Nat)
    (added : BlockId × ViewId) (μs : List PageStep) : Prop :=
  (at_ = 0 ∧ ∃ name sort, μs = [.newText added.1 name [],
      .newView ((order.above view).map View.id) added.2 added.1 sort .text] ++
      if (order.view view).any View.boundary then [.boundary view false, .boundary added.2 true]
      else []) ∨
  (at_ ≠ 0 ∧ ∃ cs name tail sort, μs =
    [.text block cs, .newText added.1 name tail, .newView (some view) added.2 added.1 sort .text])

theorem splitTextBlock_spec (hd : Distinct random) (hc : c.Coherent) (hf : c.Fresh random) :
    Meets (splitTextBlock random block view at_ style)
      (fun added c' => ∃ μs, DidOrder random c c' μs ∧ SplitSteps c.cache block view at_ added μs ∧
        ∃ shown, c.cache.view view = some shown ∧ shown.block = block) c := by
  unfold Meets splitTextBlock
  simp only [wp_bind, wp_read]
  split
  · exact Kept.refl c
  rename_i hshown
  obtain ⟨shown, hview, hblock⟩ : ∃ shown, c.cache.view view = some shown ∧ shown.block = block := by
    cases hview : c.cache.view view with
    | none => simp [hview] at hshown
    | some shown => exact ⟨shown, rfl, by simpa [hview] using hshown⟩
  simp only [wp_bind, wp_lift]
  refine ⟨fun p hp => ?_, fun _ _ => Kept.refl c⟩
  obtain ⟨hl, rfl⟩ := textOf_eq_ok hp
  split
  · exact Kept.refl c
  simp only [wp_bind, wp_okOr]
  refine ⟨fun text _ => ?_, fun _ => Kept.refl c⟩
  split
  · rename_i hat
    rw [wp_bind]
    refine (addTextBlock_spec hd hc hf).mono_ok ?_
    rintro added c' ⟨name, sort, hdid⟩
    split
    · -- both Views are live, so the boundary moves
      rename_i hsec
      have hlive := (Order.liveView_of_view (by rwa [← hc])).1
      obtain ⟨hto, hfrom⟩ := liveView_addText hdid.run
      rw [wp_bind]
      refine (moveBoundary_spec random (hfrom view hlive) hto).mono ?_ fun _ _ h => h.elim
      intro _ c'' hmove
      refine ⟨_, hdid.append hmove, .inl ⟨hat, name, sort, ?_⟩, shown, hview, hblock⟩
      rw [if_pos hsec]
      rfl
    · rename_i hsec
      refine ⟨_, hdid, .inl ⟨hat, name, sort, ?_⟩, shown, hview, hblock⟩
      rw [if_neg hsec]
      rfl
  · rename_i hat
    split
    · exact Kept.refl c
    rw [wp_bind]
    refine wp_spliceText (fun cs d hcs _ hs hv => ?_) fun _ => Kept.refl c
    have htext : DidOrder random c { c with doc := d } [.text block _] :=
      ⟨didText hl hcs hs hv, rfl⟩
    refine (addTextBlock_spec hd (htext.coherent hc) (htext.fresh hd hf)).mono ?_ fun _ c' h =>
      (htext.kept rfl).trans h
    rintro added c' ⟨name, sort, hdid⟩
    exact ⟨_, htext.append hdid, .inr ⟨hat, _, name, _, sort, rfl⟩, shown, hview, hblock⟩

/-! ## Removing Views -/

/-- A View goes, and its Block with it if no other View shows the Block. -/
def removalSteps (s : State) (order : Order) (view : ViewId) (block : BlockId) : List PageStep :=
  .removeView view ::
    if !order.shows block view && (live s "blocks" block.asStr).isSome then [.removeBlock block]
    else []

theorem live_blocks_apply (h : ¬ μ.part <:+ "deleted" :: blockPath b) :
    live (μ.apply s) "blocks" b.asStr = live s "blocks" b.asStr := by
  ext p
  rw [live_eq_some, live_eq_some, isMap_apply_top, μ.node_apply s h,
    State.isMap_congr (μ.node_apply s fun hs => h (hs.trans (suffix_cons _ _)))]

/-- Without the View `view`, no View shows a Block that only `view` showed. -/
theorem Order.not_shown_remove (h : (Order.read s).shows block view = false) :
    ∀ placed ∈ ((Order.read s).remove view).placed, placed.view.block ≠ block := by
  intro placed hp hb
  rw [Order.remove_eq_elim, (Order.unique_view s view).erase_findIdx?] at hp
  obtain ⟨hp, hid⟩ := mem_filter.mp hp
  unfold Order.shows at h
  rw [any_eq_false] at h
  exact h placed hp (by simpa [hb] using hid)

/-- The end of a removal: the View's entry is marked; the Block follows if it must, and the
    order forgets the View. -/
theorem removal_wp {c c₁ : Ctx A Order} {α : Type} {r : α}
    {Q : α → Ctx A Order → Prop}
    (hc : c.Coherent) (h₁ : Did random c c₁ [.removeView view])
    (hcache : c₁.cache = c.cache)
    (hok : ∀ c', DidOrder random c c' (removalSteps c.state c.cache view block) → Q r c') :
    wp (do
      if !c.cache.shows block view then
        match live (← state) "blocks" block.asStr with
        | some entry => markDeleted entry
        | none => pure ()
      change fun c => { c with cache := c.cache.remove view }
      return r : DocM A Order α) Q E c₁ := by
  have hs₁ : c₁.state = (PageStep.removeView view).apply c.state := h₁.run.2
  have hlive : live c₁.state "blocks" block.asStr = live c.state "blocks" block.asStr := by
    rw [hs₁]
    exact live_blocks_apply (by simp [PageStep.part, suffix_cons_iff])
  unfold removalSteps at hok
  split
  · rename_i hgone
    rw [wp_bind, wp_state]
    rw [hgone, ← hlive] at hok
    cases hl : live c₁.state "blocks" block.asStr with
    | none =>
      rw [hl] at hok
      refine hok _ ⟨⟨h₁.run, h₁.version, h₁.drawn, h₁.ids⟩, ?_⟩
      change c₁.cache.remove view = _
      rw [hcache]
      rfl
    | some entry =>
      obtain ⟨rfl, hmap⟩ := live_eq_some.mp hl
      simp only [wp_bind]
      rw [hl] at hok
      refine wp_put (fun _ d hs hv => ?_) fun hm => ?_
      · have hshown : ∀ placed ∈ (Order.read c₁.state).placed, placed.view.block ≠ block := by
          rw [h₁.run.read_order]
          exact Order.not_shown_remove (by rw [← hc]; simpa using hgone)
        have hblock : Did random c₁ { c₁ with doc := d, cache := c₁.cache.remove view }
            [.removeBlock block] :=
          Did.single ⟨by rw [hl]; rfl, hshown⟩ hs hv le_rfl (by simp [ids])
        refine hok _ ⟨h₁.append hblock, ?_⟩
        rw [hcache]
        rfl
      · rw [hmap.2.1] at hm
        cases hm
  · rename_i hgone
    rw [Bool.not_eq_true] at hgone
    rw [hgone] at hok
    refine hok _ ⟨⟨h₁.run, h₁.version, h₁.drawn, h₁.ids⟩, ?_⟩
    change c₁.cache.remove view = _
    rw [hcache]
    rfl

theorem removeView_spec (random : Random) (hc : c.Coherent) :
    Meets (removeView view)
      (fun gone c' => ∃ block : BlockId, string c.state (viewPath view) "block" = some block.asStr ∧
        gone = (if c.cache.shows block view then none else some block) ∧
        DidOrder random c c' (removalSteps c.state c.cache view block)) c := by
  unfold Meets removeView
  simp only [wp_bind, wp_okOr]
  refine ⟨fun p hp => ?_, fun _ => Kept.refl c⟩
  obtain ⟨hl, rfl⟩ := live_views.mp hp
  refine ⟨fun b hb => ?_, fun _ => Kept.refl c⟩
  refine wp_put (fun _ d hs hv => ?_) fun _ _ => Kept.refl c
  have h₁ : Did random c { c with doc := d } [.removeView view] :=
    Did.single hl hs hv le_rfl (by simp [ids])
  simp only [wp_read]
  refine removal_wp hc h₁ rfl fun c' hdid => ?_
  refine ⟨.stored b, hb, ?_, hdid⟩
  cases c.cache.shows (.stored b) view <;> rfl

theorem joinTextBlock_spec (random : Random) (hc : c.Coherent) :
    Meets (joinTextBlock view) (fun joined c' => ∃ joining above cs,
        c.cache.view view = some joining ∧ c.cache.above view = some above ∧
        joined.1 = above.block ∧
        joined.2 = (if c.cache.shows joining.block view then none else some joining.block) ∧
        DidOrder random c c' (.text above.block cs ::
          removalSteps c.state c.cache view joining.block)) c := by
  unfold Meets joinTextBlock
  simp only [wp_bind, wp_okOr]
  refine ⟨fun joining hjoining => ?_, fun _ => Kept.refl c⟩
  split
  · exact Kept.refl c
  simp only [wp_bind, wp_okOr, wp_lift]
  refine ⟨fun above habove => ?_, fun _ => Kept.refl c⟩
  refine ⟨fun text _ => ?_, fun _ => Kept.refl c⟩
  refine ⟨fun p hp => ?_, fun _ _ => Kept.refl c⟩
  obtain ⟨hl, rfl⟩ := textOf_eq_ok hp
  refine wp_spliceText (fun cs d hcs _ hs hv => ?_) fun _ => Kept.refl c
  have htext : DidOrder random c { c with doc := d } [.text above.block _] :=
    ⟨didText hl hcs hs hv, rfl⟩
  refine ⟨fun p hp => ?_, fun _ => htext.kept rfl⟩
  obtain ⟨hlv, rfl⟩ := live_views.mp hp
  refine wp_put (fun _ d' hs' hv' => ?_) fun _ _ => htext.kept rfl
  have h₁ : Did random { c with doc := d } { c with doc := d' } [.removeView view] :=
    Did.single hlv hs' hv' le_rfl (by simp [ids])
  refine removal_wp (c := { c with doc := d }) (htext.coherent hc) h₁ rfl fun c' hdid => ?_
  have hlive : live (A.state d) "blocks" joining.block.asStr =
      live c.state "blocks" joining.block.asStr := by
    rw [show A.state d = _ from htext.run.2]
    exact live_blocks_apply (by simp [PageStep.part, suffix_cons_iff])
  have hdid := htext.append hdid
  unfold removalSteps at hdid
  rw [hlive] at hdid
  exact ⟨joining, above, _, hjoining, habove, rfl,
    by cases c.cache.shows joining.block view <;> rfl, hdid⟩

end

end Watershed.Liquid
