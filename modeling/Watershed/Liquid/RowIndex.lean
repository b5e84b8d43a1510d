/-
  The row index of a Database and what it must agree on with the document.

  The core never rebuilds an index, and an index keeps cells of fields that were removed since.
  So an index is right when it agrees with the document on the fields that the document still
  knows (`IndexOk`), and `Database.rows` sees no more than that (`IndexOk.rows_eq`).
-/
import Watershed.Liquid.PageStep

open List

namespace Watershed.Liquid

open Database Index

variable {s t : State} {b : BlockId}

/-! ## What the document holds -/

variable {p m : Path} {f sort : String} {place : Place RowId} {database : Database} {e : Entry}

theorem State.isSome_of_isMap (h : s.isMap p = true) : (s.node p).isSome = true := by
  obtain ⟨n, hn, -⟩ := s.isMap_isObject h
  rw [hn]
  rfl

/-- The object `p` exists. -/
def HasObject (s : State) (p : Path) : Prop := ∃ n, s.node p = some n ∧ n.isObject = true

theorem HasObject.congr (h : HasObject s p) (he : t.node p = s.node p) : HasObject t p := by
  rwa [HasObject, he]

namespace Database

variable {r : String}

theorem entry_eq_ok : entry s b = .ok p ↔ LiveDatabase s b ∧ p = blockPath b := by
  unfold entry
  constructor
  · intro h
    split at h
    · cases h
    rename_i q hl
    obtain ⟨rfl, h1, h2, h3⟩ := live_eq_some.mp hl
    split at h
    · cases h
    rename_i hk
    cases h
    exact ⟨⟨h1, h2, h3, (string_eq_some.mp (not_not.mp hk)).2⟩, rfl⟩
  · rintro ⟨h, rfl⟩
    rw [live_eq_some.mpr ⟨rfl, h.blocks, h.entry, h.live⟩]
    exact if_neg (not_not.mpr (string_eq_some.mpr ⟨h.entry, h.kind⟩))

theorem entry_eq_error {e : Error} (h : entry s b = .error e) : e = .notFound := by
  unfold entry at h
  split at h
  · cases h; rfl
  · split at h
    · cases h; rfl
    · cases h

theorem map_eq_ok {q : Path} {k : String} :
    map s p k = .ok q ↔ s.isMap p = true ∧ HasObject s (k :: p) ∧ q = k :: p := by
  unfold map
  constructor
  · intro h
    split at h
    · cases h
      rename_i hc
      obtain ⟨h1, rfl, h2⟩ := child_eq_some.mp hc
      exact ⟨h1, h2, rfl⟩
    · cases h
  · rintro ⟨h1, h2, rfl⟩
    rw [child_eq_some.mpr ⟨h1, rfl, h2⟩]

theorem kinds_eq_some {kind : FieldKind} : kinds s m f = some kind ↔
    s.isMap m = true ∧ s.node (f :: m) = some .map ∧
      s.node ("deleted" :: f :: m) = some (.scalar (.bool false)) ∧
      fieldKind (fieldOfNode s (f :: m) "kind") = some kind := by
  simp only [kinds, Option.bind_eq_some_iff, find?_sortedIn]
  constructor
  · rintro ⟨e, ⟨hm, he⟩, hk⟩
    obtain ⟨h1, h2, -⟩ := entryAt_eq_some.mp he
    exact ⟨hm, h1, h2, by rwa [← entryAt_get he]⟩
  · rintro ⟨hm, h1, h2, h3⟩
    have he := entryAt_eq_some.mpr ⟨h1, h2, rfl⟩
    exact ⟨_, ⟨hm, he⟩, by rwa [entryAt_get he]⟩

theorem kinds_congr (h1 : s.node m = t.node m) (h2 : s.node (f :: m) = t.node (f :: m))
    (h3 : s.node ("deleted" :: f :: m) = t.node ("deleted" :: f :: m))
    (h4 : s.node ("kind" :: f :: m) = t.node ("kind" :: f :: m)) : kinds s m f = kinds t m f := by
  ext kind
  rw [kinds_eq_some, kinds_eq_some, State.isMap_congr h1, h2, h3]
  unfold fieldOfNode
  rw [h4]

variable {kinds : String → Option FieldKind}

/-- A cell, by the nodes it is read from. -/
theorem cells_eq_some {c : Cell} :
    cells s m r kinds f = some c ↔ s.isMap m = true ∧ s.isMap (r :: m) = true ∧
      s.isMap ("cells" :: r :: m) = true ∧ ∃ kind n, kinds f = some kind ∧
        s.node (f :: "cells" :: r :: m) = some n ∧ typed kind n = some c := by
  unfold cells
  simp only [Option.bind_eq_bind, Option.bind_eq_some_iff, child_eq_some]
  constructor
  · rintro ⟨p, ⟨q, ⟨h1, rfl, -⟩, h2, rfl, -⟩, kind, hk, hc⟩
    unfold State.get at hc
    by_cases hm : s.isMap ("cells" :: r :: m) = true
    · rw [if_pos hm] at hc
      cases hn : s.node (f :: "cells" :: r :: m) with
      | none => simp [hn] at hc
      | some n => exact ⟨h1, h2, hm, kind, n, hk, rfl, by simpa [hn] using hc⟩
    · simp [hm] at hc
  · rintro ⟨h1, h2, h3, kind, n, hk, hn, hc⟩
    refine ⟨_, ⟨_, ⟨h1, rfl, State.isMap_isObject h2⟩, h2, rfl, State.isMap_isObject h3⟩,
      kind, hk, ?_⟩
    rw [State.get_of_isMap h3, hn]
    exact hc

theorem cells_eq_none (h : kinds f = none ∨ s.node (f :: "cells" :: r :: m) = none) :
    cells s m r kinds f = none := by
  rw [Option.eq_none_iff_forall_ne_some]
  intro c hc
  obtain ⟨-, -, -, kind, n, hkind, hn, -⟩ := cells_eq_some.mp hc
  rcases h with h | h
  · cases h.symm.trans hkind
  · cases h.symm.trans hn

theorem cells_of_isMap
    (h1 : s.isMap m = true) (h2 : s.isMap (r :: m) = true)
    (h3 : s.isMap ("cells" :: r :: m) = true) : cells s m r kinds f =
      (kinds f).bind fun kind => (s.node (f :: "cells" :: r :: m)).bind (typed kind) := by
  ext c
  simp only [cells_eq_some, h1, h2, h3, true_and, Option.bind_eq_some_iff]
  constructor
  · rintro ⟨kind, n, hk, hn, hc⟩
    exact ⟨kind, hk, n, hn, hc⟩
  · rintro ⟨kind, hk, n, hn, hc⟩
    exact ⟨kind, n, hk, hn, hc⟩

end Database

theorem SameUnder.kinds (h : SameUnder m s t) : Database.kinds s m = Database.kinds t m :=
  funext fun f => kinds_congr h.node (h.below f).node ((h.below f).below _).node
    ((h.below f).below _).node

theorem SameUnder.cells (h : SameUnder m s t) (r : String) (kinds : String → Option FieldKind) :
    Database.cells s m r kinds = Database.cells t m r kinds := by
  funext f
  ext c
  rw [cells_eq_some, cells_eq_some, State.isMap_congr h.node,
    State.isMap_congr (h.below r).node, State.isMap_congr ((h.below r).below "cells").node,
    (((h.below r).below "cells").below f).node]

/-! ## The index that the document gives -/

/-- A row of the document as the index holds it, for fields of the given kinds. -/
def indexed (s : State) (b : BlockId) (kinds : String → Option FieldKind) (row : Entry) :
    Indexed where
  sort := (row.get "sort").getD ""
  id := .stored row.id
  cells := Database.cells s (rowsPath b) row.id kinds

/-- The rows of the Database `b`, whether it is live or not. -/
def rowsOf (s : State) (b : BlockId) : Index :=
  ⟨(sortedIn s (rowsPath b)).map (indexed s b (Database.kinds s (fieldsPath b)))⟩

variable {ix ix' : Index}

theorem Index.read_eq_ok : Index.read s b = .ok ix ↔ LiveDatabase s b ∧
    HasObject s (fieldsPath b) ∧ HasObject s (rowsPath b) ∧ ix = rowsOf s b := by
  unfold Index.read
  simp only [bind_eq_ok, Database.entry_eq_ok, Database.map_eq_ok]
  constructor
  · rintro ⟨_, ⟨hl, rfl⟩, _, ⟨-, h1, rfl⟩, _, ⟨-, h2, rfl⟩, h⟩
    cases h
    exact ⟨hl, h1, h2, rfl⟩
  · rintro ⟨hl, h1, h2, rfl⟩
    exact ⟨_, ⟨hl, rfl⟩, _, ⟨hl.entry, h1, rfl⟩, _, ⟨hl.entry, h2, rfl⟩, rfl⟩

/-- A row with its cells of the fields that `known` names. -/
def Indexed.restrict (known : String → Bool) (row : Indexed) : Indexed :=
  { row with cells := fun f => if known f then row.cells f else none }

def Index.restrict (known : String → Bool) (ix : Index) : Index :=
  ⟨ix.rows.map (Indexed.restrict known)⟩

/-- The fields of the Database `b` that readers see. -/
def known (s : State) (b : BlockId) (f : String) : Bool :=
  (Database.kinds s (fieldsPath b) f).isSome

/-- The index `ix` agrees with the document on the fields that the document knows. -/
structure IndexOk (s : State) (b : BlockId) (ix : Index) : Prop where
  block : (s.node (blockPath b)).isSome = true
  fields : HasObject s (fieldsPath b)
  rows : HasObject s (rowsPath b)
  agrees : ix.restrict (known s b) = rowsOf s b
  cells : ∀ row ∈ ix.rows, ∀ f, row.cells f ≠ none → (s.node (f :: fieldsPath b)).isSome = true

/-- A freshly read index is right. -/
theorem Index.indexOk_read (h : Index.read s b = .ok ix) : IndexOk s b ix := by
  obtain ⟨hl, hf, hr, rfl⟩ := Index.read_eq_ok.mp h
  refine ⟨State.isSome_of_isMap hl.entry, hf, hr, ?_, fun row hrow f hne => ?_⟩
  · unfold restrict
    congr 1
    refine (map_congr_left fun row hrow => ?_).trans (map_id _)
    obtain ⟨e, -, rfl⟩ := mem_map.mp hrow
    unfold Indexed.restrict
    congr 1
    funext f
    split
    · rfl
    · rename_i hk
      exact (cells_eq_none (.inl (by simpa [known] using hk))).symm
  · obtain ⟨e, -, rfl⟩ := mem_map.mp hrow
    obtain ⟨c, hc⟩ := Option.ne_none_iff_exists'.mp hne
    obtain ⟨-, -, -, kind, -, hkind, -⟩ := cells_eq_some.mp hc
    rw [(kinds_eq_some.mp hkind).2.1]
    rfl

/-! ## Operations on an index -/

theorem Indexed.ext {x y : Indexed} (h1 : x.sort = y.sort) (h2 : x.id = y.id)
    (h3 : ∀ f, x.cells f = y.cells f) : x = y := by
  obtain ⟨_, _, _⟩ := x
  cases h1; cases h2
  exact congrArg _ (funext h3)

namespace Index

theorem ext {ix : Index} (h : ix.rows = ix'.rows) : ix = ix' := by
  cases ix; cases ix'; exact congrArg mk h

theorem insert_eq (ix : Index) (sort : String) (r : RowId) : (ix.insert sort r).rows =
    ix.rows.takeWhile (fun row => decide (toLex (row.sort, row.id.asStr) < toLex (sort, r.asStr))) ++
      ⟨sort, r, fun _ => none⟩ ::
    ix.rows.dropWhile (fun row => decide (toLex (row.sort, row.id.asStr) < toLex (sort, r.asStr))) :=
  insertIdx_takeWhile _ _ _

theorem remove_eq_elim (ix : Index) (r : RowId) : (ix.remove r).rows =
    (ix.rows.findIdx? fun row => decide (row.id = r)).elim ix.rows fun i => ix.rows.eraseIdx i := by
  unfold remove position
  cases ix.rows.findIdx? fun row => decide (row.id = r) <;> rfl

theorem set_eq_elim (ix : Index) (r : RowId) (f : FieldId) (cell : Cell) : (ix.set r f cell).rows =
    (ix.rows.findIdx? fun row => decide (row.id = r)).elim ix.rows
      fun i => ix.rows.modify i fun row => Indexed.set row f cell := by
  unfold set position
  cases ix.rows.findIdx? fun row => decide (row.id = r) <;> rfl

variable (known : String → Bool) (ix : Index)

theorem restrict_insert (sort : String) (r : RowId) :
    (ix.insert sort r).restrict known = (ix.restrict known).insert sort r := by
  have hnew : Indexed.restrict known ⟨sort, r, fun _ => none⟩ = ⟨sort, r, fun _ => none⟩ := by
    simp [Indexed.restrict]
  apply ext
  rw [insert_eq, restrict, insert_eq, restrict, takeWhile_map, dropWhile_map,
    map_append, map_cons, hnew]
  rfl

/-- No row stands in the index twice. -/
def UniqueRows (ix : Index) : Prop := ix.rows.Pairwise fun a b => a.id ≠ b.id

variable {known ix}

theorem uniqueRows_restrict : (ix.restrict known).UniqueRows ↔ ix.UniqueRows := pairwise_map

variable (h : ix.UniqueRows) (r : RowId)
include h

theorem UniqueRows.unique : Unique (fun row => decide (row.id = r)) ix.rows := by
  refine h.imp fun {a b} hab hr => hab ?_
  simp only [decide_eq_true_eq] at hr
  exact hr.1.trans hr.2.symm

theorem UniqueRows.remove_eq :
    (ix.remove r).rows = ix.rows.filter fun row => !decide (row.id = r) := by
  rw [remove_eq_elim, (h.unique r).erase_findIdx?]

theorem UniqueRows.set_eq (f : FieldId) (cell : Cell) :
    (ix.set r f cell).rows =
      ix.rows.map fun row => if row.id = r then Indexed.set row f cell else row := by
  rw [set_eq_elim, (h.unique r).modify_findIdx?]
  simp only [decide_eq_true_eq]

theorem UniqueRows.restrict_remove :
    (ix.remove r).restrict known = (ix.restrict known).remove r := by
  apply ext
  rw [(uniqueRows_restrict.mpr h).remove_eq, restrict, h.remove_eq, restrict, filter_map]
  rfl

theorem UniqueRows.restrict_set (f : FieldId) (cell : Cell) :
    (ix.set r f cell).restrict known =
      if known f.asStr then (ix.restrict known).set r f cell else ix.restrict known := by
  have hset : ∀ row, Indexed.restrict known (Indexed.set row f cell) =
      if known f.asStr then Indexed.set (Indexed.restrict known row) f cell
      else Indexed.restrict known row := by
    intro row
    split
    all_goals
      rename_i hk
      refine Indexed.ext rfl rfl fun g => ?_
      by_cases hg : g = f.asStr <;> simp [Indexed.restrict, Indexed.set, hg, hk]
  apply ext
  have hrows : ((ix.set r f cell).restrict known).rows = ix.rows.map fun row =>
      if row.id = r then Indexed.restrict known (Indexed.set row f cell)
      else Indexed.restrict known row := by
    rw [restrict, h.set_eq, map_map]
    refine map_congr_left fun row _ => ?_
    simp only [Function.comp_apply]
    split <;> rfl
  rw [hrows]
  split
  · rename_i hk
    rw [(uniqueRows_restrict.mpr h).set_eq, restrict, map_map]
    refine map_congr_left fun row _ => ?_
    rw [hset, if_pos hk]
    rfl
  · rename_i hk
    refine map_congr_left fun row _ => ?_
    rw [hset, if_neg hk, ite_self]

end Index

theorem uniqueRows_rowsOf (s : State) (b : BlockId) : (rowsOf s b).UniqueRows := by
  refine pairwise_map.mpr ((ids_sortedIn s (rowsPath b)).imp fun {a c} hac h => hac ?_)
  simpa [indexed, Id.stored] using h

theorem IndexOk.uniqueRows (h : IndexOk s b ix) : ix.UniqueRows := by
  have := uniqueRows_rowsOf s b
  rw [← h.agrees] at this
  exact uniqueRows_restrict.mp this

/-! ## Steps -/

theorem Database.cells_congr_kinds {r : String} {κ κ' : String → Option FieldKind}
    (h : κ f = κ' f) : Database.cells s m r κ f = Database.cells s m r κ' f := by
  ext c
  rw [cells_eq_some, cells_eq_some, h]

theorem SameUnder.indexed (h : SameUnder (rowsPath b) s t) (κ : String → Option FieldKind) :
    indexed s b κ = indexed t b κ := by
  funext row
  exact Indexed.ext rfl rfl fun f => congrFun (h.cells row.id κ) f

namespace IndexOk

variable {ix : Index}

/-- Fields come, go and change while the rows stay: the index needs no change. A field whose
    kind is new has no node in the state before, neither among the fields nor in a row. -/
theorem of_rows (h : IndexOk s b ix) (hr : SameUnder (rowsPath b) t s)
    (hb : (t.node (blockPath b)).isSome = true) (hf : HasObject t (fieldsPath b))
    (hn : ∀ f, (s.node (f :: fieldsPath b)).isSome = true →
      (t.node (f :: fieldsPath b)).isSome = true)
    (hk : ∀ f, Database.kinds t (fieldsPath b) f = Database.kinds s (fieldsPath b) f ∨
      Database.kinds t (fieldsPath b) f = none ∨
      s.node (f :: fieldsPath b) = none ∧ ∀ r, s.node (f :: "cells" :: r :: rowsPath b) = none) :
    IndexOk t b ix := by
  refine ⟨hb, hf, h.rows.congr hr.node, ?_, fun row hrow f hc => hn f (h.cells row hrow f hc)⟩
  apply Index.ext
  rw [rowsOf, hr.sortedIn, hr.indexed]
  refine map_eq_map_imp (congrArg Index.rows h.agrees) fun x hx e he hxe => ?_
  refine Indexed.ext (congrArg Indexed.sort hxe :) (congrArg Indexed.id hxe :) fun f => ?_
  have hcell : (if known s b f = true then x.cells f else none) =
      Database.cells s (rowsPath b) e.id (Database.kinds s (fieldsPath b)) f :=
    congrFun (congrArg Indexed.cells hxe) f
  change (if known t b f = true then x.cells f else none) = Database.cells s _ _ _ f
  rcases hk f with hk | hk | ⟨hk, hk'⟩
  · rw [Database.cells_congr_kinds hk, ← hcell, known, hk]
    rfl
  · rw [cells_eq_none (.inl hk), known, hk]
    rfl
  · have hx : x.cells f = none := by
      by_contra hne
      have := h.cells x hx f hne
      rw [hk] at this
      cases this
    rw [cells_eq_none (.inr (hk' _)), hx, ite_self]

theorem congr (h : IndexOk s b ix) (hb : t.node (blockPath b) = s.node (blockPath b))
    (hf : SameUnder (fieldsPath b) t s) (hr : SameUnder (rowsPath b) t s) : IndexOk t b ix := by
  refine h.of_rows hr (hb ▸ h.block) (h.fields.congr hf.node) (fun f hs => ?_) fun f => .inl ?_
  · rwa [(hf.below f).node]
  · rw [hf.kinds]

/-- Rows change while the fields stay: the changed index must give the changed rows. -/
theorem of_fields (h : IndexOk s b ix)
    (hb : t.node (blockPath b) = s.node (blockPath b))
    (hf : SameUnder (fieldsPath b) t s) (hr : t.node (rowsPath b) = s.node (rowsPath b))
    (ha : ix'.restrict (known s b) = rowsOf t b) (hc : ∀ row ∈ ix'.rows, ∀ f, row.cells f ≠ none →
      (s.node (f :: fieldsPath b)).isSome = true) : IndexOk t b ix' := by
  have hknown : known t b = known s b := by
    funext f
    rw [known, known, hf.kinds]
  refine ⟨hb ▸ h.block, h.fields.congr hf.node, h.rows.congr hr, by rwa [hknown],
    fun row hrow f hne => ?_⟩
  rw [(hf.below f).node]
  exact hc row hrow f hne

end IndexOk

/-! ## Placing -/

/-- Where a row placed at `place` goes. -/
def Index.slot (ix : Index) : Place RowId → Option Nat
  | .first => some 0
  | .after r => (ix.position r).map (· + 1)
  | .last => some ix.rows.length

theorem Index.keyAt_eq_ok :
    ix.keyAt place = .ok sort ↔ ∃ i, ix.slot place = some i ∧
      sort = SortKey.between (if i = 0 then none else ix.rows[i - 1]?.map Indexed.sort)
        (ix.rows[i]?.map Indexed.sort) := by
  cases place with
  | first | last => simp [keyAt, slot, bind, Except.bind, pure, Except.pure, eq_comm]
  | after r =>
    cases hp : ix.position r with
    | none => simp [keyAt, slot, hp]
    | some i => simp [keyAt, slot, hp, bind, Except.bind, pure, Except.pure, eq_comm]

/-- Where a row goes depends on no cell. -/
theorem Index.keyAt_restrict (known : String → Bool) (ix : Index) (place : Place RowId) :
    (ix.restrict known).keyAt place = ix.keyAt place := by
  have hpos : ∀ r, (ix.restrict known).position r = ix.position r := by
    intro r
    rw [position, restrict, List.findIdx?_map]
    rfl
  have hkey : ∀ i : Nat, (ix.restrict known).rows[i]?.map Indexed.sort = ix.rows[i]?.map Indexed.sort := by
    intro i
    rw [restrict, List.getElem?_map, Option.map_map]
    rfl
  have hlen : (ix.restrict known).rows.length = ix.rows.length := length_map _
  unfold keyAt
  simp only [hpos, hkey, hlen]

theorem Index.keyAt_valid (h : ix.keyAt place = .ok sort) : SortKey.Valid sort.toList := by
  obtain ⟨i, -, rfl⟩ := keyAt_eq_ok.mp h
  exact (SortKey.between_spec _ _).1


theorem Database.read_eq_some :
    Database.read s b = .ok (some database) ↔ LiveDatabase s b ∧ HasObject s (fieldsPath b) ∧
      database = ⟨(string s (blockPath b) "name").getD "",
        (sortedIn s (fieldsPath b)).filterMap (fieldOf s (fieldsPath b))⟩ := by
  unfold Database.read
  constructor
  · intro h
    split at h
    · cases h
    · rename_i p hp
      obtain ⟨hl, rfl⟩ := Database.entry_eq_ok.mp hp
      obtain ⟨_, hm, h⟩ := bind_eq_ok.mp h
      obtain ⟨-, h1, rfl⟩ := Database.map_eq_ok.mp hm
      cases h
      exact ⟨hl, h1, rfl⟩
  · rintro ⟨hl, h1, rfl⟩
    rw [Database.entry_eq_ok.mpr ⟨hl, rfl⟩]
    exact bind_eq_ok.mpr ⟨_, Database.map_eq_ok.mpr ⟨hl.entry, h1, rfl⟩, rfl⟩

theorem Database.fieldOf_id {field : Field} (h : fieldOf s m e = some field) :
    field.id = .stored e.id ∧ (fieldKind (e.get "kind")).isSome = true := by
  obtain ⟨kind, hk, h⟩ := Option.bind_eq_some_iff.mp h
  cases h
  exact ⟨rfl, by rw [hk]; rfl⟩

theorem Database.exists_fieldOf
    (h : (fieldKind (e.get "kind")).isSome = true) : ∃ field, fieldOf s m e = some field := by
  obtain ⟨kind, hk⟩ := Option.isSome_iff_exists.mp h
  unfold fieldOf
  rw [hk]
  exact ⟨_, rfl⟩

theorem known_eq_true : known s b f = true ↔ ∃ e ∈ sortedIn s (fieldsPath b),
    e.id = f ∧ (fieldKind (e.get "kind")).isSome = true := by
  unfold known Database.kinds
  constructor
  · intro h
    obtain ⟨kind, hk⟩ := Option.isSome_iff_exists.mp h
    obtain ⟨e, he, hk⟩ := Option.bind_eq_some_iff.mp hk
    exact ⟨e, mem_of_find?_eq_some he, by simpa using List.find?_some he, by rw [hk]; rfl⟩
  · rintro ⟨e, he, rfl, hk⟩
    rw [find?_sortedIn.mpr (mem_sortedIn.mp he)]
    exact hk

/-- The Database that readers see shows exactly the known fields. -/
theorem Database.mem_fields (h : Database.read s b = .ok (some database))
    {f : FieldId} : f ∈ database.fields.map Field.id ↔ known s b f.asStr = true := by
  obtain ⟨-, -, rfl⟩ := read_eq_some.mp h
  rw [known_eq_true, mem_map]
  constructor
  · rintro ⟨field, hfield, rfl⟩
    obtain ⟨e, he, hf⟩ := mem_filterMap.mp hfield
    obtain ⟨hid, hk⟩ := fieldOf_id hf
    exact ⟨e, he, by rw [hid]; rfl, hk⟩
  · rintro ⟨e, he, hid, hk⟩
    obtain ⟨field, hf⟩ := exists_fieldOf hk
    refine ⟨field, mem_filterMap.mpr ⟨e, he, hf⟩, ?_⟩
    rw [(fieldOf_id hf).1, hid]
    rfl

/-- So the cells of other fields make no difference to an answer. -/
theorem Database.rows_restrict (toLowercase : String → String) (s : State) (b : BlockId) (ix : Index)
    (query : RowQuery) : Database.rows toLowercase s (ix.restrict (known s b)) b query =
      Database.rows toLowercase s ix b query := by
  unfold Database.rows
  rcases hread : Database.read s b with e | _ | database
  · rfl
  · rfl
  have hknown : ∀ f ∈ database.fields.map Field.id, known s b f.asStr = true :=
    fun f => (mem_fields hread).mp
  obtain ⟨sort, filter, start, limit⟩ := query
  refine congrArg Except.ok ?_
  dsimp only
  generalize database.fields.map Field.id = live at hknown ⊢
  -- a row and what the restriction keeps of it show the same cells
  have hcell : ∀ row f, cell live (Indexed.restrict (known s b) row) f = cell live row f := by
    intro row f
    unfold cell
    split
    · rename_i hf
      simp [Indexed.restrict, hknown f hf]
    · rfl
  have hshown : ∀ row, shown live (Indexed.restrict (known s b) row) = shown live row := by
    intro row
    unfold shown
    congr 1
    refine congrArg (insertionSort _) (filterMap_congr fun f hf => ?_)
    simp [Indexed.restrict, hknown f hf]
  have hkept (p : Indexed → Bool) (hp : ∀ row, p (Indexed.restrict (known s b) row) = p row) :
      (ix.restrict (known s b)).rows.filter p =
        (ix.rows.filter p).map (Indexed.restrict (known s b)) := by
    rw [restrict, filter_map]
    exact congrArg _ (filter_congr fun row _ => hp row)
  have hsorted (r : Indexed → Indexed → Prop) [DecidableRel r] (l : List Indexed)
      (hr : ∀ x y, r x y ↔ r (Indexed.restrict (known s b) x) (Indexed.restrict (known s b) y)) :
      (l.map (Indexed.restrict (known s b))).insertionSort r =
        (l.insertionSort r).map (Indexed.restrict (known s b)) :=
    (map_insertionSort _ _ _ _ fun x _ y _ => hr x y).symm
  have hwindow : ∀ kept ordered : List Indexed, (⟨(kept.map (Indexed.restrict (known s b))).length,
        (((ordered.map (Indexed.restrict (known s b))).drop start).take limit).map
          (shown live)⟩ : Rows) = ⟨kept.length, ((ordered.drop start).take limit).map (shown live)⟩ := by
    intro kept ordered
    rw [length_map, ← map_drop, ← map_take, map_map]
    exact congrArg _ (map_congr_left fun row _ => hshown row)
  cases filter with
  | none =>
    cases sort with
    | none => exact hwindow ix.rows ix.rows
    | some sort =>
      dsimp only
      rw [restrict, hsorted _ _ fun x y => by rw [hcell, hcell]]
      exact hwindow ix.rows _
  | some filter =>
    dsimp only
    rw [hkept _ fun row => by rw [hcell]]
    cases sort with
    | none => exact hwindow _ _
    | some sort =>
      dsimp only
      rw [hsorted _ _ fun x y => by rw [hcell, hcell]]
      exact hwindow _ _

/-- An index that is right answers as a freshly read one. -/
theorem IndexOk.rows_eq (h : IndexOk s b ix) (toLowercase : String → String)
    (query : RowQuery) : Database.rows toLowercase s ix b query =
      (Index.read s b).bind fun ix => Database.rows toLowercase s ix b query := by
  by_cases hl : LiveDatabase s b
  · rw [Index.read_eq_ok.mpr ⟨hl, h.fields, h.rows, rfl⟩, ← h.agrees]
    exact (rows_restrict toLowercase s b ix query).symm
  · have he : entry s b = .error .notFound := by
      cases he : entry s b with
      | ok p => exact absurd (Database.entry_eq_ok.mp he).1 hl
      | error e => rw [entry_eq_error he]
    have hr : Index.read s b = .error .notFound := by
      unfold Index.read
      rw [he]
      rfl
    have hd : Database.read s b = .ok none := by
      unfold Database.read
      rw [he]
    rw [hr]
    unfold Database.rows
    rw [hd]
    rfl

end Watershed.Liquid
