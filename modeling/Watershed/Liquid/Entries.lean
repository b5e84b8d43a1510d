/-
  What the readers of `model.rs` see of a state.

  An entry is determined by the nodes right below its object, and a sorted listing by the
  entries of its map (`sortedIn_congr`). The lemmas `sortedIn_insert`, `sortedIn_remove` and
  `sortedIn_map` say how a listing moves when one entry appears, goes or changes.
-/
import Watershed.Liquid.Model

open List

namespace Watershed.Liquid

open State

/-- Two states show the same at and below `p`. -/
def SameUnder (p : Path) (s t : State) : Prop := ∀ q, p <:+ q → s.node q = t.node q

namespace SameUnder

variable {s t u : State} {p q : Path}

theorem refl (p : Path) (s : State) : SameUnder p s s := fun _ _ => rfl

theorem trans (h : SameUnder p s t) (h' : SameUnder p t u) : SameUnder p s u :=
  fun q hq => (h q hq).trans (h' q hq)

theorem mono (h : SameUnder p s t) (hq : p <:+ q) : SameUnder q s t := fun r hr => h r (hq.trans hr)

theorem node (h : SameUnder p s t) : s.node p = t.node p := h p (suffix_refl p)

theorem below (h : SameUnder p s t) (k : String) : SameUnder (k :: p) s t :=
  h.mono (suffix_cons k p)

end SameUnder

/-- Two states show the same outside `p`. -/
def SameOutside (p : Path) (s t : State) : Prop := ∀ q, ¬ p <:+ q → s.node q = t.node q

namespace SameOutside

variable {s t : State} {p q : Path}

theorem mono (h : SameOutside q s t) (hp : p <:+ q) : SameOutside p s t :=
  fun r hr => h r fun hq => hr (hp.trans hq)

theorem node_of_length (h : SameOutside p s t) (hq : q.length < p.length) : s.node q = t.node q :=
  h q fun hs => absurd hs.length_le (by omega)

/-- Paths that lie neither in `p` nor around it see no difference. -/
theorem sameUnder (h : SameOutside p s t) (h1 : ¬ q <:+ p) (h2 : ¬ p <:+ q) : SameUnder q s t := by
  intro r hr
  refine h r fun hp => ?_
  rcases suffix_or_suffix_of_suffix hr hp with hs | hs
  · exact h1 hs
  · exact h2 hs

theorem sibling (h : SameOutside p s t) (hl : q.length = p.length) (hne : q ≠ p) :
    SameUnder q s t :=
  h.sameUnder (fun hs => hne (hs.eq_of_length hl)) fun hs => hne (hs.eq_of_length hl.symm).symm

end SameOutside

namespace State

variable {s t : State} {p : Path} {k : String}

theorem isMap_congr (h : s.node p = t.node p) : s.isMap p = t.isMap p := by
  simp only [isMap, h]

theorem isMap_of_map (h : s.node p = some .map) : s.isMap p = true := by
  simp [isMap, h]

theorem isMap_root (s : State) : s.isMap [] = true := isMap_of_map s.root

theorem get_congr (hp : s.node p = t.node p) (hk : s.node (k :: p) = t.node (k :: p)) :
    s.get p k = t.get p k := by
  simp only [get, isMap_congr hp, hk]

theorem get_of_isMap (h : s.isMap p = true) : s.get p k = some (s.node (k :: p)) := by
  simp [get, h]

theorem mem_mapRange {x : String × Node} :
    x ∈ s.mapRange p ↔ s.isMap p = true ∧ s.node (x.1 :: p) = some x.2 := by
  obtain ⟨k, n⟩ := x
  unfold mapRange
  split
  · rename_i h
    rw [mem_filterMap]
    constructor
    · rintro ⟨k', hk', he⟩
      obtain ⟨n', hn, he⟩ := Option.map_eq_some_iff.mp he
      cases he
      exact ⟨h, hn⟩
    · rintro ⟨-, hn⟩
      exact ⟨k, (s.mem_keys p k).mpr (by rw [hn]; rfl), by rw [hn]; rfl⟩
  · rename_i h
    simp [h]

theorem ordered_mapRange (s : State) (p : Path) : Ordered Prod.fst (s.mapRange p) := by
  unfold mapRange
  split
  · refine List.Pairwise.filterMap _ ?_ (s.sorted p)
    intro a b hab x hx y hy
    obtain ⟨_, -, rfl⟩ := Option.map_eq_some_iff.mp hx
    obtain ⟨_, -, rfl⟩ := Option.map_eq_some_iff.mp hy
    exact hab
  · exact List.Pairwise.nil

end State

variable {s t : State} {m : Path} {k : String}

/-! ## Lookups -/

/-- Whether a node is an object. -/
def Node.isObject : Node → Bool
  | .scalar _ => false
  | _ => true

theorem State.isMap_isObject (h : s.isMap m = true) :
    ∃ n, s.node m = some n ∧ n.isObject = true := by
  unfold isMap at h
  split at h
  · exact ⟨_, ‹_›, rfl⟩
  · exact ⟨_, ‹_›, rfl⟩
  · cases h

theorem child_eq_some {p q : Path} : child s p k = some q ↔
    s.isMap p = true ∧ q = k :: p ∧ ∃ n, s.node (k :: p) = some n ∧ n.isObject = true := by
  unfold child State.get
  by_cases h : s.isMap p = true
  · cases hn : s.node (k :: p) with
    | none => simp
    | some n => cases n <;> simp [h, Node.isObject] <;> exact eq_comm
  · simp [h]

variable {p : Path}

theorem child_congr (hp : s.node p = t.node p)
    (hk : s.node (k :: p) = t.node (k :: p)) : child s p k = child t p k := by
  unfold child
  rw [get_congr hp hk]

theorem string_congr (hp : s.node p = t.node p)
    (hk : s.node (k :: p) = t.node (k :: p)) : string s p k = string t p k := by
  unfold string
  rw [get_congr hp hk]

theorem string_eq_some {x : String} :
    string s p k = some x ↔ s.isMap p = true ∧ s.node (k :: p) = some (.scalar (.str x)) := by
  unfold string State.get
  by_cases h : s.isMap p = true
  · cases hn : s.node (k :: p) with
    | none => simp
    | some n =>
      cases n with
      | scalar v => cases v <;> simp [h]
      | _ => simp
  · simp [h]

theorem deleted_eq_false : deleted s p = false ↔
    s.isMap p = true ∧ s.node ("deleted" :: p) = some (.scalar (.bool false)) := by
  unfold deleted State.get
  by_cases h : s.isMap p = true
  · simp
  · simp

variable {id : String} {e : Entry} {q : Path}

theorem liveIn_eq_some : liveIn s m id = some q ↔
    q = id :: m ∧ s.isMap m = true ∧ s.isMap (id :: m) = true ∧
      s.node ("deleted" :: id :: m) = some (.scalar (.bool false)) := by
  unfold liveIn
  rw [Option.filter_eq_some_iff, child_eq_some]
  constructor
  · rintro ⟨⟨hm, rfl, n, hn, -⟩, hd⟩
    obtain ⟨h1, h2⟩ := deleted_eq_false.mp (by simpa using hd)
    exact ⟨rfl, hm, h1, h2⟩
  · rintro ⟨rfl, hm, h1, h2⟩
    exact ⟨⟨hm, rfl, isMap_isObject h1⟩, by simp [deleted_eq_false.mpr ⟨h1, h2⟩]⟩

theorem live_eq_some {top : String} : live s top id = some q ↔
    q = [id, top] ∧ s.isMap [top] = true ∧ s.isMap [id, top] = true ∧
      s.node ["deleted", id, top] = some (.scalar (.bool false)) := by
  unfold live
  rw [Option.bind_eq_some_iff]
  constructor
  · rintro ⟨p, hp, hq⟩
    obtain ⟨-, rfl, -⟩ := child_eq_some.mp hp
    exact liveIn_eq_some.mp hq
  · rintro ⟨rfl, h1, h2, h3⟩
    exact ⟨[top], child_eq_some.mpr ⟨s.isMap_root, rfl, isMap_isObject h1⟩,
      liveIn_eq_some.mpr ⟨rfl, h1, h2, h3⟩⟩

/-! ## Entries -/

/-- The text of the field `key` of the object `p`. -/
def fieldOfNode (s : State) (p : Path) (key : String) : Option String :=
  (s.node (key :: p)).bind (fieldText key)

/-- The fields of the object `p` as its entry lists them. -/
def fieldsOf (s : State) (p : Path) : List (String × String) :=
  (s.mapRange p).filterMap fun (field, node) => (fieldText field node).map (field, ·)

theorem mem_fieldsOf {x : String × String} :
    x ∈ fieldsOf s p ↔ s.isMap p = true ∧ fieldOfNode s p x.1 = some x.2 := by
  obtain ⟨f, v⟩ := x
  simp only [fieldsOf, fieldOfNode, mem_filterMap, Option.bind_eq_some_iff]
  constructor
  · rintro ⟨⟨f', n⟩, hm, he⟩
    obtain ⟨v', hv, he⟩ := Option.map_eq_some_iff.mp he
    cases he
    obtain ⟨h1, h2⟩ := mem_mapRange.mp hm
    exact ⟨h1, n, h2, hv⟩
  · rintro ⟨h1, n, h2, hv⟩
    exact ⟨(f, n), mem_mapRange.mpr ⟨h1, h2⟩, by rw [hv]; rfl⟩

theorem ordered_fieldsOf (s : State) (p : Path) : Ordered Prod.fst (fieldsOf s p) := by
  refine List.Pairwise.filterMap _ ?_ (s.ordered_mapRange p)
  intro a b hab x hx y hy
  obtain ⟨_, -, rfl⟩ := Option.map_eq_some_iff.mp hx
  obtain ⟨_, -, rfl⟩ := Option.map_eq_some_iff.mp hy
  exact hab

theorem fieldsOf_congr (hp : s.isMap p = t.isMap p)
    (h : ∀ f, fieldOfNode s p f = fieldOfNode t p f) : fieldsOf s p = fieldsOf t p := by
  refine (ordered_fieldsOf s p).ext (ordered_fieldsOf t p) fun x => ?_
  rw [mem_fieldsOf, mem_fieldsOf, hp, h]

/-- Against an entry with a sort key, a missing sort key counts as the empty text. -/
theorem Entry.order_lt_iff {e' : Entry} {sort : String} (h : e'.get "sort" = some sort)
    (hne : sort ≠ "") :
    e.order < e'.order ↔ toLex ((e.get "sort").getD "", e.id) < toLex (sort, e'.id) := by
  have hempty : "" < sort := by
    rw [String.lt_iff_toList_lt]
    cases hl : sort.toList with
    | nil => exact absurd (String.toList_eq_nil_iff.mp hl) hne
    | cons c cs => exact List.Lex.nil
  unfold Entry.order
  rw [h, Prod.Lex.toLex_lt_toLex, Prod.Lex.toLex_lt_toLex]
  cases e.get "sort" with
  | none => exact ⟨fun _ => .inl hempty, fun _ => .inl (WithBot.bot_lt_coe sort)⟩
  | some x =>
    refine or_congr WithBot.coe_lt_coe (and_congr_left fun _ => ?_)
    exact Option.some_inj

theorem entryAt_eq_some : entryAt s m k = some e ↔
    s.node (k :: m) = some .map ∧ s.node ("deleted" :: k :: m) = some (.scalar (.bool false)) ∧
      e = ⟨k, fieldsOf s (k :: m)⟩ := by
  rw [entryAt, Option.ite_none_right_eq_some, Option.some.injEq, and_assoc, eq_comm (b := e)]
  rfl

theorem entryAt_id (h : entryAt s m k = some e) : e.id = k := by
  rw [(entryAt_eq_some.mp h).2.2]

/-- A field of an entry is the text of the node under its key. -/
theorem entryAt_get (h : entryAt s m k = some e) (f : String) :
    e.get f = fieldOfNode s (k :: m) f := by
  obtain ⟨hn, -, rfl⟩ := entryAt_eq_some.mp h
  unfold Entry.get
  cases hf : fieldOfNode s (k :: m) f with
  | none =>
    rw [Option.map_eq_none_iff, List.find?_eq_none]
    rintro ⟨f', v⟩ hx hff
    obtain rfl : f' = f := by simpa using hff
    cases hf.symm.trans (mem_fieldsOf.mp hx).2
  | some v =>
    have hx : (f, v) ∈ fieldsOf s (k :: m) := mem_fieldsOf.mpr ⟨isMap_of_map hn, hf⟩
    rw [find?_key (ordered_fieldsOf s _).nodup_keys hx]
    rfl

theorem entryAt_congr (hn : s.node (k :: m) = t.node (k :: m))
    (hd : s.node ("deleted" :: k :: m) = t.node ("deleted" :: k :: m))
    (hf : ∀ f, fieldOfNode s (k :: m) f = fieldOfNode t (k :: m) f) :
    entryAt s m k = entryAt t m k := by
  have : fieldsOf s (k :: m) = fieldsOf t (k :: m) := fieldsOf_congr (isMap_congr hn) hf
  unfold entryAt
  rw [hn, hd]
  split
  · exact congrArg (fun l => some (Entry.mk k l)) this
  · rfl

theorem SameUnder.entryAt (h : SameUnder (k :: m) s t) : entryAt s m k = entryAt t m k :=
  entryAt_congr h.node (h.below _).node fun f => by
    unfold fieldOfNode
    rw [(h.below f).node]

/-! ## Listings -/

theorem mem_sortedIn : e ∈ sortedIn s m ↔ s.isMap m = true ∧ entryAt s m e.id = some e := by
  unfold sortedIn
  rw [(perm_insertionSort _ _).mem_iff, mem_filterMap]
  constructor
  · rintro ⟨⟨k, n⟩, hk, he⟩
    have hid := entryAt_id he
    subst hid
    exact ⟨(mem_mapRange.mp hk).1, he⟩
  · rintro ⟨hm, he⟩
    exact ⟨(e.id, .map), mem_mapRange.mpr ⟨hm, (entryAt_eq_some.mp he).1⟩, he⟩

theorem ordered_sortedIn (s : State) (m : Path) : Ordered Entry.order (sortedIn s m) := by
  have hle : (sortedIn s m).Pairwise fun a b => a.order ≤ b.order := by
    exact pairwise_insertionSort _ _
  have hnd : (sortedIn s m).Nodup := by
    refine (perm_insertionSort _ _).nodup_iff.mpr ?_
    refine List.Pairwise.filterMap _ ?_ (s.ordered_mapRange m)
    intro a b hab x hx y hy hxy
    have h1 := entryAt_id hx
    have h2 := entryAt_id hy
    rw [hxy, h2] at h1
    exact absurd h1 (ne_of_gt hab)
  refine List.Pairwise.imp_of_mem ?_ (hle.and hnd)
  intro a b ha hb hab
  refine lt_of_le_of_ne hab.1 fun heq => hab.2 ?_
  have hid : a.id = b.id := congrArg (fun x => (ofLex x).2) heq
  have h1 := (mem_sortedIn.mp ha).2
  have h2 := (mem_sortedIn.mp hb).2
  rw [hid, h2] at h1
  exact (Option.some.inj h1).symm

/-- A listing names no identity twice. -/
theorem ids_sortedIn (s : State) (m : Path) : (sortedIn s m).Pairwise fun a b => a.id ≠ b.id := by
  refine List.Pairwise.imp_of_mem ?_ (ordered_sortedIn s m)
  intro a b ha hb hab hid
  have h1 := (mem_sortedIn.mp ha).2
  rw [hid, (mem_sortedIn.mp hb).2] at h1
  rw [Option.some.inj h1] at hab
  exact lt_irrefl _ hab

theorem sortedIn_congr (hm : s.isMap m = t.isMap m) (h : ∀ k, entryAt s m k = entryAt t m k) :
    sortedIn s m = sortedIn t m := by
  refine (ordered_sortedIn s m).ext (ordered_sortedIn t m) fun e => ?_
  rw [mem_sortedIn, mem_sortedIn, hm, h]

theorem SameUnder.sortedIn (h : SameUnder m s t) : sortedIn s m = sortedIn t m :=
  sortedIn_congr (isMap_congr h.node) fun k => (h.below k).entryAt

/-- One more entry: the listing gains it at its place. -/
theorem sortedIn_insert (hm : s.isMap m = true) (hm' : t.isMap m = true)
    (hnew : entryAt s m e.id = none) (he : entryAt t m e.id = some e)
    (h : ∀ k, k ≠ e.id → entryAt t m k = entryAt s m k) :
    sortedIn t m = insertBy Entry.order e (sortedIn s m) := by
  have hid : ∀ b ∈ sortedIn s m, b.id ≠ e.id := by
    intro b hb hbe
    have := (mem_sortedIn.mp hb).2
    rw [hbe, hnew] at this
    cases this
  refine (ordered_sortedIn t m).ext ((ordered_sortedIn s m).insertBy ?_) fun b => ?_
  · intro b hb hbe
    exact hid b hb (congrArg (fun x => (ofLex x).2) hbe)
  · rw [mem_insertBy, mem_sortedIn]
    constructor
    · rintro ⟨-, hb⟩
      by_cases hbe : b.id = e.id
      · rw [hbe, he] at hb
        exact .inl (Option.some.inj hb).symm
      · rw [h _ hbe] at hb
        exact .inr (mem_sortedIn.mpr ⟨hm, hb⟩)
    · rintro (rfl | hb)
      · exact ⟨hm', he⟩
      · exact ⟨hm', by rw [h _ (hid b hb)]; exact (mem_sortedIn.mp hb).2⟩

/-- An entry deleted: the listing loses it. -/
theorem sortedIn_remove (hm : s.isMap m = t.isMap m)
    (hgone : t.node ("deleted" :: k :: m) = some (.scalar (.bool true)))
    (h : ∀ k', k' ≠ k → entryAt t m k' = entryAt s m k') :
    sortedIn t m = (sortedIn s m).filter fun e => !decide (e.id = k) := by
  refine (ordered_sortedIn t m).ext ((ordered_sortedIn s m).filter _) fun e => ?_
  rw [mem_filter, mem_sortedIn, mem_sortedIn, hm]
  by_cases he : e.id = k
  · simp [he, entryAt, hgone]
  · simp [he, h _ he]

/-- Entries changed without moving: the listing maps them. -/
theorem sortedIn_map {f : Entry → Entry} (hf : ∀ e, (f e).id = e.id)
    (hsort : ∀ e ∈ sortedIn s m, (f e).get "sort" = e.get "sort")
    (hm : s.isMap m = t.isMap m) (h : ∀ k, entryAt t m k = (entryAt s m k).map f) :
    sortedIn t m = (sortedIn s m).map f := by
  refine (ordered_sortedIn t m).ext ((ordered_sortedIn s m).map fun e he => ?_) fun e => ?_
  · unfold Entry.order
    rw [hf, hsort e he]
  · rw [mem_map, mem_sortedIn, h, ← hm, Option.map_eq_some_iff]
    constructor
    · rintro ⟨hmap, e', he', rfl⟩
      have hid := entryAt_id he'
      exact ⟨e', mem_sortedIn.mpr ⟨hmap, by rwa [hid]⟩, rfl⟩
    · rintro ⟨e', he', rfl⟩
      obtain ⟨h1, h2⟩ := mem_sortedIn.mp he'
      exact ⟨h1, e', by rwa [hf], rfl⟩

/-- A top-level listing, as one of the map's path. -/
theorem sorted_eq (top : String) : sorted s top = sortedIn s [top] := by
  unfold sorted
  cases hc : child s [] top with
  | some p =>
    obtain ⟨-, rfl, -⟩ := child_eq_some.mp hc
    rfl
  | none =>
    refine (eq_nil_iff_forall_not_mem.mpr fun e he => ?_).symm
    have hm := isMap_isObject (mem_sortedIn.mp he).1
    cases hc.symm.trans (child_eq_some.mpr ⟨s.isMap_root, rfl, hm⟩)

/-- The entry of an identity in a listing. -/
theorem find?_sortedIn : (sortedIn s m).find? (fun e => e.id = id) = some e ↔
    s.isMap m = true ∧ entryAt s m id = some e := by
  constructor
  · intro h
    obtain rfl : e.id = id := by simpa using List.find?_some h
    exact mem_sortedIn.mp (mem_of_find?_eq_some h)
  · rintro ⟨hm, he⟩
    obtain rfl := entryAt_id he
    exact find?_key (pairwise_map.mpr (ids_sortedIn s m)) (mem_sortedIn.mpr ⟨hm, he⟩)

end Watershed.Liquid
