/-
  Database row queries (`database.rs`): every window is a slice of one sorted list of the rows that
  pass the filter.
-/
import Watershed.Liquid.Database

open List

namespace Watershed.Liquid

def Cell.kind : Cell → Option FieldKind
  | .empty => none
  | .text _ => some .text
  | .number _ => some .number
  | .select _ => some .select
  | .date _ => some .date
  | .checkbox _ => some .checkbox

namespace Database

/-- Whether one cell may stand before another: rows without a value come last, also when the order
    of the values is reversed. -/
def inOrder (order : Cell → Cell → Ordering) (descending : Bool) : Option Cell → Option Cell → Bool
  | _, none => true
  | none, some _ => false
  | some a, some b => if descending then (order b a).isLE else (order a b).isLE

section
variable {order : Cell → Cell → Ordering} [Std.TransCmp order] {descending : Bool}
variable {a b c : Option Cell}

theorem inOrder_total (a b : Option Cell) :
    inOrder order descending a b = true ∨ inOrder order descending b a = true := by
  match a, b with
  | _, none => exact .inl rfl
  | none, some _ => exact .inr rfl
  | some a, some b =>
    have hswap : order b a = (order a b).swap := Std.OrientedCmp.eq_swap
    simp only [inOrder, hswap]
    cases descending <;> cases order a b <;> decide

theorem inOrder_trans (hab : inOrder order descending a b = true)
    (hbc : inOrder order descending b c = true) : inOrder order descending a c = true := by
  match a, b, c with
  | _, _, none => rfl
  | _, none, some _ => cases hbc
  | none, some _, some _ => cases hab
  | some a, some b, some c =>
    cases descending with
    | false => exact Std.TransCmp.isLE_trans hab hbc
    | true => exact Std.TransCmp.isLE_trans hbc hab

end

variable (toLowercase : String → String) (places : String → Option Nat) {kind : FieldKind}

/-- The order of the values of one kind, for all cells. -/
def compareKind : FieldKind → Cell → Cell → Ordering
  | .text => compareOn fun | .text a => toLowercase a | _ => ""
  | .number => compareOn fun | .number a => a.totalKey | _ => 0
  | .date => compareOn fun | .date a => a | _ => ""
  | .checkbox => compareOn fun | .checkbox a => a | _ => false
  | .select => compareOn fun | .select a => places a.asStr | _ => none

instance : Std.TransCmp (compareKind toLowercase places kind) := by
  cases kind <;> exact inferInstanceAs (Std.TransCmp (compareOn _))

variable {toLowercase places}

theorem compareCells_eq {a b : Cell} (ha : a.kind = some kind) (hb : b.kind = some kind) :
    compareCells toLowercase places a b = compareKind toLowercase places kind a b := by
  cases a <;> cases ha <;> cases b <;> cases hb <;> rfl

variable {descending : Bool} {a b : Option Cell}

theorem inOrder_eq (ha : ∀ x, a = some x → x.kind = some kind)
    (hb : ∀ x, b = some x → x.kind = some kind) :
    inOrder (compareCells toLowercase places) descending a b =
      inOrder (compareKind toLowercase places kind) descending a b := by
  match a, b with
  | none, none | none, some _ | some _, none => rfl
  | some a, some b =>
    simp only [inOrder, compareCells_eq (ha a rfl) (hb b rfl), compareCells_eq (hb b rfl) (ha a rfl)]

/-- The source's comparison says the same for two values of one kind. -/
theorem compareBy_ne_gt (ha : ∀ x, a = some x → x.kind = some kind)
    (hb : ∀ x, b = some x → x.kind = some kind) :
    compareBy toLowercase places descending a b ≠ .gt ↔
      inOrder (compareKind toLowercase places kind) descending a b = true := by
  match a, b with
  | none, none | none, some _ | some _, none => simp [compareBy, inOrder]
  | some a, some b =>
    have hswap : compareKind toLowercase places kind b a =
      (compareKind toLowercase places kind a b).swap := Std.OrientedCmp.eq_swap
    simp only [compareBy, inOrder, compareCells_eq (ha a rfl) (hb b rfl), hswap]
    cases descending <;> cases compareKind toLowercase places kind a b <;> decide

variable (toLowercase places descending) in
/-- Sorting rows by cells of one kind is stable and puts them in order. -/
theorem sort_spec {l : List Indexed} {f : Indexed → Option Cell}
    (hkind : ∀ row ∈ l, ∀ x, f row = some x → x.kind = some kind) :
    (l.insertionSort fun a b => compareBy toLowercase places descending (f a) (f b) ≠ .gt).Pairwise
      (fun a b => inOrder (compareCells toLowercase places) descending (f a) (f b)) ∧
    ∀ a b, [a, b].Sublist l → inOrder (compareCells toLowercase places) descending (f a) (f b) →
      [a, b].Sublist (l.insertionSort fun a b =>
        compareBy toLowercase places descending (f a) (f b) ≠ .gt) := by
  let r := fun a b => inOrder (compareKind toLowercase places kind) descending (f a) (f b) = true
  have heq : (l.insertionSort fun a b =>
      compareBy toLowercase places descending (f a) (f b) ≠ .gt) = l.insertionSort r := by
    have := map_insertionSort _ r id l fun a ha b hb =>
      compareBy_ne_gt (hkind a ha) (hkind b hb)
    rwa [map_id, map_id] at this
  have : Std.Total r := ⟨fun a b => inOrder_total _ _⟩
  have : IsTrans Indexed r := ⟨fun a b c => inOrder_trans⟩
  rw [heq]
  refine ⟨(pairwise_insertionSort r l).imp_of_mem fun ha hb hr => ?_, fun a b hab hr => ?_⟩
  · rw [mem_insertionSort] at ha hb
    rwa [inOrder_eq (hkind _ ha) (hkind _ hb)]
  · refine pair_sublist_insertionSort ?_ hab
    have hmem := hab.subset
    rwa [inOrder_eq (hkind a (hmem (by simp))) (hkind b (hmem (by simp)))] at hr

/-- The windows of one page size, side by side. -/
theorem windows_eq {α : Type} (l : List α) (size n : Nat) :
    (List.range n).flatMap (fun i => (l.drop (i * size)).take size) = l.take (n * size) := by
  induction n with
  | zero => simp
  | succ n ih =>
    rw [range_succ, flatMap_append, ih, flatMap_singleton, Nat.succ_mul, take_add]

/-- What row queries return. -/
theorem rows_spec {s : State} {ix : Index} {block : BlockId} {database : Database}
    (hread : read s block = .ok (some database))
    (htyped : ∀ row ∈ ix.rows, ∀ field ∈ database.fields, ∀ cell,
      row.cells field.id.asStr = some cell → cell.kind = some field.kind)
    (toLowercase : String → String) (filter : Option Filter) (sort : Option RowSort) :
    let live := database.fields.map Field.id
    let kept := ix.rows.filter fun row => filter.all fun filter =>
      matchesCell toLowercase (cell live row filter.field) filter.matching
    let mayPrecede := fun a b : Indexed => sort.all fun sort =>
      inOrder (compareCells toLowercase (positions database.fields)) sort.descending
        (cell live a sort.field) (cell live b sort.field)
    ∃ ordered : List Indexed, ordered.Perm kept ∧
      (sort.isSome → ordered.Pairwise fun a b => mayPrecede a b) ∧
      (∀ a b, [a, b].Sublist kept → mayPrecede a b → [a, b].Sublist ordered) ∧
      (∀ start limit, rows toLowercase s ix block ⟨sort, filter, start, limit⟩ =
        .ok ⟨kept.length, ((ordered.drop start).take limit).map (shown live)⟩) ∧
      ∀ size n, ordered.length ≤ n * size → (List.range n).flatMap
        (fun i => ((ordered.drop (i * size)).take size).map (shown live)) =
          ordered.map (shown live) := by
  intro live kept mayPrecede
  have hkept : filter = none → ix.rows = kept := by
    rintro rfl
    exact (filter_eq_self.mpr fun _ _ => rfl).symm
  have hwindows {ordered : List Indexed} (size n : Nat) (h : ordered.length ≤ n * size) :
      (List.range n).flatMap (fun i => ((ordered.drop (i * size)).take size).map (shown live)) =
        ordered.map (shown live) := by
    rw [← map_flatMap, windows_eq, take_of_length_le h]
  cases sort with
  | none =>
    refine ⟨kept, .refl _, by simp, fun a b hab _ => hab, fun start limit => ?_, hwindows⟩
    rw [rows, hread]
    cases filter with
    | none => rw [← hkept rfl]; rfl
    | some filter => rfl
  | some sort =>
    have hkind : ∃ kind, ∀ row ∈ kept, ∀ x, cell live row sort.field = some x →
        x.kind = some kind := by
      by_cases hlive : sort.field ∈ live
      · obtain ⟨field, hfield, hid⟩ := mem_map.mp hlive
        refine ⟨field.kind, fun row hrow x hx => ?_⟩
        rw [cell, if_pos hlive, ← hid] at hx
        exact htyped row (mem_of_mem_filter hrow) field hfield x hx
      · refine ⟨.text, fun row _ x hx => ?_⟩
        rw [cell, if_neg hlive] at hx
        cases hx
    obtain ⟨kind, hkind⟩ := hkind
    obtain ⟨hpairwise, hstable⟩ :=
      sort_spec toLowercase (positions database.fields) sort.descending hkind
    refine ⟨_, perm_insertionSort _ kept, fun _ => hpairwise, hstable, fun start limit => ?_,
      hwindows⟩
    rw [rows, hread]
    cases filter with
    | none => rw [← hkept rfl]; rfl
    | some filter => rfl

/-- A Database with one number field. -/
def sampleDatabase : State :=
  let s := (State.empty.set "blocks" [] (some .map)).set "b" ["blocks"] (some .map)
  let s := (s.set "deleted" ["b", "blocks"] (some (.scalar (.bool false)))).set "kind" ["b", "blocks"]
    (some (.scalar (.str "database")))
  let s := (s.set "fields" ["b", "blocks"] (some .map)).set "f" ["fields", "b", "blocks"] (some .map)
  (s.set "deleted" ["f", "fields", "b", "blocks"] (some (.scalar (.bool false)))).set "kind"
    ["f", "fields", "b", "blocks"] (some (.scalar (.str "number")))

def sampleIndex : Index where
  rows := [⟨"a", ⟨"x"⟩, fun _ => none⟩, ⟨"b", ⟨"y"⟩, fun _ => some (.number ⟨0⟩)⟩,
    ⟨"c", ⟨"z"⟩, fun _ => some (.number ⟨1⟩)⟩]

/-- Three rows by descending numbers, the one without a number last. -/
theorem rows_spec_sample : ∃ ordered : List Indexed, ordered.Perm sampleIndex.rows ∧
    (∀ start limit,
      rows id sampleDatabase sampleIndex ⟨"b"⟩ ⟨some ⟨⟨"f"⟩, true⟩, none, start, limit⟩ =
      .ok ⟨3, ((ordered.drop start).take limit).map (shown [⟨"f"⟩])⟩) ∧
    rows id sampleDatabase sampleIndex ⟨"b"⟩ ⟨some ⟨⟨"f"⟩, true⟩, none, 0, 3⟩ =
      .ok ⟨3, [⟨⟨"z"⟩, [(⟨"f"⟩, .number ⟨1⟩)]⟩, ⟨⟨"y"⟩, [(⟨"f"⟩, .number ⟨0⟩)]⟩, ⟨⟨"x"⟩, []⟩]⟩ := by
  have hread : read sampleDatabase ⟨"b"⟩ = .ok (some ⟨"", [⟨⟨"f"⟩, "", .number, []⟩]⟩) := by
    decide +kernel
  obtain ⟨ordered, hperm, -, -, hrows, -⟩ := rows_spec hread
    (show ∀ row ∈ sampleIndex.rows, _ by simp [sampleIndex, Cell.kind]) id none (some ⟨⟨"f"⟩, true⟩)
  exact ⟨ordered, hperm, hrows, by decide +kernel⟩

end Database

end Watershed.Liquid
