/-
  Canonical JSON as a whole (`canonical.rs`): when there is a canonical text, that it is read
  back by the reader that rejects duplicate keys, and when two values have the same text.

  `serde_json` turns a text into a tree and hands it to a visitor. The tree is a parameter,
  `SerdeJson`; the visitor of `parse_unique_json` and the walk that measures the nesting are the
  source's own.
-/
import Watershed.Proto.Ascii

open List

namespace Watershed.Proto

/-! ## The nesting walk -/

theorem sum_sizeOf_children (value : Value) : (value.children.map sizeOf).sum < sizeOf value := by
  cases value with
  | array values =>
    rw [Json.array.sizeOf_spec, Nat.add_comm, Nat.lt_succ_iff, Json.children]
    induction values with
    | nil => simp
    | cons value values ih =>
      simp only [map_cons, sum_cons, List.cons.sizeOf_spec]
      omega
  | object values =>
    rw [Json.object.sizeOf_spec, Nat.add_comm, Nat.lt_succ_iff, Json.children]
    induction values with
    | nil => simp
    | cons x values ih =>
      obtain ⟨key, value⟩ := x
      simp only [map_cons, sum_cons, List.cons.sizeOf_spec, Prod.mk.sizeOf_spec]
      omega
  | _ => simp [Json.children]

/-- The loop of `json_nesting_reaches_limit` over its stack of values and enclosing depths; the top
    of the stack is the head of the list. -/
def nestingWalk : List (Value × Nat) → Bool
  | [] => false
  | (value, enclosingDepth) :: pending =>
    if value.isContainer && decide (jsonNestingLimitV0 ≤ enclosingDepth + 1) then true
    else nestingWalk ((value.children.map (·, enclosingDepth + 1)).reverse ++ pending)
termination_by pending => (pending.map fun entry => sizeOf entry.1).sum
decreasing_by simpa [sum_reverse, Function.comp_def] using sum_sizeOf_children value

/-- The walk finds what the recursion over the value finds. -/
theorem nestingWalk_eq (pending : List (Value × Nat)) :
    nestingWalk pending = pending.any fun entry => jsonNestingReachesLimit entry.1 entry.2 := by
  fun_induction nestingWalk pending with
  | case1 => rfl
  | case2 value depth pending hlimit =>
    simp [jsonNestingReachesLimit, Json.reaches_eq value, hlimit]
  | case3 value depth pending hlimit ih =>
    simp only [ih, jsonNestingReachesLimit, Json.reaches_eq value, hlimit, any_append, any_reverse,
      any_map, any_cons, Bool.false_or, Function.comp_def]

/-- `json_nesting_reaches_limit` as the source walks it. -/
theorem nestingWalk_single (value : Value) (depth : Nat) :
    nestingWalk [(value, depth)] = jsonNestingReachesLimit value depth := by
  rw [nestingWalk_eq, any_cons, any_nil, Bool.or_false]

/-! ## Reading without duplicate keys -/

/-- The parser of `serde_json`: the tree of a text, with the members of an object in the order of
    the text. -/
structure SerdeJson where
  parse : String → Except String Value
  /-- Compact text with integer numbers is parsed, as long as it stays below the parser's
      recursion limit. Newlines may follow it. -/
  parse_compact : ∀ (value : Value) (num : Number → List Char) (newlines : Nat),
    Integral value → value.reaches jsonNestingLimitV0 0 = false →
    (∀ i h, num (.integer i h) = (toString i).toList) →
    parse (String.ofList (value.compact num ++ List.replicate newlines '\n')) = .ok value

/-- `Number::from_f64`: a float whose exponent bits are all set is no number. -/
def fromF64 (bits : UInt64) : Option Number :=
  if (bits >>> 52) &&& 0x7ff = 0x7ff then none else some (.float bits)

/-- `values.insert(name, value)` for a name that the map does not have. -/
def insertMember (name : String) (value : Value) (values : List (String × Value)) :
    List (String × Value) :=
  values.orderedInsert (fun left right => left.1 ≤ right.1) (name, value)

namespace UniqueJsonVisitor

def visitNumber : Number → Except String Value
  | .integer i range => .ok (.number (.integer i range))
  | .float bits =>
    match fromF64 bits with
    | some number => .ok (.number number)
    | none => .error "JSON number must be finite"

mutual

def visit : Value → Except String Value
  | .null => .ok .null
  | .bool value => .ok (.bool value)
  | .number value => visitNumber value
  | .string value => .ok (.string value)
  | .array sequence => (visitSeq sequence).map .array
  | .object map => (visitMap [] map).map .object

def visitSeq : List Value → Except String (List Value)
  | [] => .ok []
  | value :: sequence => do
    let value ← visit value
    let values ← visitSeq sequence
    return value :: values

/-- The members read so far are in `values`. -/
def visitMap (values : List (String × Value)) :
    List (String × Value) → Except String (List (String × Value))
  | [] => .ok values
  | (name, value) :: map =>
    if values.any fun x => x.1 = name then .error "duplicate JSON object key"
    else do
      let value ← visit value
      visitMap (insertMember name value values) map

end

/-! ### What the visitor builds -/

theorem visitSeq_eq (sequence : List Value) : visitSeq sequence = sequence.mapM visit := by
  induction sequence with
  | nil => rfl
  | cons value sequence ih => rw [visitSeq, ih, mapM_cons]

/-- Members with strictly increasing keys whose values are sorted. -/
def SortedMembers (values : List (String × Value)) : Prop := (Json.object values).sorted = true

variable {values : List (String × Value)} {value : Value} {name : String}
  {map : List (String × Value)}

theorem insertMember_eq (hkeys : (values.map Prod.fst).Pairwise (· < ·)) :
    insertMember name value values = Json.byKey ((name, value) :: values) := by
  show _ = (Json.byKey values).orderedInsert _ _
  rw [Json.byKey_eq_self hkeys]
  rfl

theorem sortedMembers_insertMember (hname : ∀ x ∈ values, x.1 ≠ name) (hvalue : value.sorted = true)
    (h : SortedMembers values) : SortedMembers (insertMember name value values) := by
  obtain ⟨hkeys, hvalues⟩ := Json.sorted_object.mp h
  have hnodup : (((name, value) :: values).map Prod.fst).Nodup := by
    refine nodup_cons.mpr ⟨fun hmem => ?_, hkeys.imp fun h => ne_of_lt h⟩
    obtain ⟨x, hx, heq⟩ := mem_map.mp hmem
    exact hname x hx heq
  rw [insertMember_eq hkeys]
  refine Json.sorted_object.mpr ⟨Json.byKey_sorted hnodup, fun x hx => ?_⟩
  rcases mem_cons.mp (Json.mem_byKey.mp hx) with rfl | hx
  · exact hvalue
  · exact hvalues x hx

theorem visitMap_sorted
    (hvisit : ∀ x ∈ map, ∀ value, visit x.2 = .ok value → value.sorted = true)
    {values members : List (String × Value)} (hvalues : SortedMembers values)
    (h : visitMap values map = .ok members) : SortedMembers members := by
  induction map generalizing values with
  | nil =>
    cases h
    exact hvalues
  | cons x map ih =>
    rw [visitMap] at h
    obtain ⟨hname, h⟩ := ite_error_eq_ok.mp h
    obtain ⟨value, hvalue, h⟩ := bind_eq_ok.mp h
    refine ih (forall_mem_cons.mp hvisit).2 ?_ h
    rw [any_eq_true, not_exists] at hname
    exact sortedMembers_insertMember (fun y hy heq => hname y ⟨hy, decide_eq_true heq⟩)
      (hvisit x mem_cons_self value hvalue) hvalues

/-- Every object that the visitor builds keeps its members in order, each key once. -/
theorem visit_sorted (tree : Value) (h : visit tree = .ok value) : value.sorted = true := by
  induction tree using Json.induction_on generalizing value with
  | null | bool =>
    cases h
    rfl
  | number n =>
    rw [visit] at h
    unfold visitNumber at h
    repeat' split at h
    all_goals
      cases h
      try rfl
  | string s =>
    cases h
    rfl
  | array sequence ih =>
    rw [visit, visitSeq_eq] at h
    obtain ⟨items, hitems, rfl⟩ := map_eq_ok.mp h
    refine Json.sortedItems_iff.mpr fun item hitem => ?_
    obtain ⟨tree, htree, hvisit⟩ := (mem_of_mapM_eq_ok hitems).mp hitem
    exact ih tree htree hvisit
  | object map ih =>
    rw [visit] at h
    obtain ⟨members, hmembers, rfl⟩ := map_eq_ok.mp h
    exact visitMap_sorted (fun x hx value hvalue => ih x hx hvalue)
      (show SortedMembers [] from rfl) hmembers

theorem insertMember_last (h : ((values ++ [(name, value)]).map Prod.fst).Pairwise (· < ·)) :
    insertMember name value values = values ++ [(name, value)] := by
  have hkeys : (values.map Prod.fst).Pairwise (· < ·) := h.sublist ((sublist_append_left _ _).map _)
  have hperm : ((name, value) :: values).Perm (values ++ [(name, value)]) :=
    (perm_append_singleton _ _).symm
  calc insertMember name value values
      = Json.byKey ((name, value) :: values) := insertMember_eq hkeys
    _ = Json.byKey (values ++ [(name, value)]) :=
        Json.byKey_eq_of_perm hperm ((hperm.map _).symm.nodup (h.imp fun h => ne_of_lt h))
    _ = values ++ [(name, value)] := Json.byKey_eq_self h

theorem visitMap_of_sorted (hvisit : ∀ x ∈ map, visit x.2 = .ok x.2)
    (h : ((values ++ map).map Prod.fst).Pairwise (· < ·)) :
    visitMap values map = .ok (values ++ map) := by
  induction map generalizing values with
  | nil => rw [visitMap, append_nil]
  | cons x map ih =>
    have hsplit : values ++ x :: map = (values ++ [x]) ++ map := by simp
    have hfresh : (values.any fun y => y.1 = x.1) = false := by
      rw [any_eq_false]
      intro y hy heq
      rw [map_append, pairwise_append] at h
      have hlt := h.2.2 y.1 (mem_map_of_mem hy) x.1 (by simp)
      exact ne_of_lt hlt (by simpa using heq)
    rw [hsplit] at h ⊢
    have hlast := insertMember_last (h.sublist ((sublist_append_left _ _).map _))
    rw [visitMap, hfresh, hvisit x mem_cons_self]
    simp only [Bool.false_eq_true, if_false]
    exact (congrArg (visitMap · map) hlast).trans (ih (forall_mem_cons.mp hvisit).2 h)

/-- A sorted value with integer numbers is visited to itself. -/
theorem visit_of_sorted (value : Value) (hsorted : value.sorted = true)
    (hintegral : Integral value) : visit value = .ok value := by
  induction value using Json.induction_on with
  | null | bool => rfl
  | number n =>
    cases n with
    | integer i range => rfl
    | float bits => cases hintegral
  | string s => rfl
  | array sequence ih =>
    have hitems : sequence.mapM visit = .ok (sequence.map id) := mapM_ok fun item hitem =>
      ih item hitem (Json.sortedItems_iff.mp hsorted item hitem)
        (Json.allItems_iff.mp hintegral item hitem)
    rw [visit, visitSeq_eq, hitems, map_id]
    rfl
  | object map ih =>
    obtain ⟨hkeys, hvalues⟩ := Json.sorted_object.mp hsorted
    have hmembers : visitMap [] map = .ok ([] ++ map) := visitMap_of_sorted (fun x hx =>
      ih x hx (hvalues x hx) (Json.allFields_iff.mp hintegral x hx).2) hkeys
    rw [visit, hmembers]
    rfl

end UniqueJsonVisitor

/-- The value that the visitor builds, with its members in order. -/
def uniqueJsonValue (tree : Value) : Except String SortedValue :=
  match h : UniqueJsonVisitor.visit tree with
  | .ok value => .ok ⟨value, UniqueJsonVisitor.visit_sorted tree h⟩
  | .error error => .error error

theorem uniqueJsonValue_of_sorted (value : SortedValue) (hintegral : Integral value.1) :
    uniqueJsonValue value.1 = .ok value := by
  have hvisit := UniqueJsonVisitor.visit_of_sorted value.1 value.2 hintegral
  unfold uniqueJsonValue
  split
  · rename_i other hother
    rw [hvisit] at hother
    cases hother
    rfl
  · rename_i error herror
    rw [hvisit] at herror
    cases herror

/-- Parses one JSON value while rejecting duplicate object keys at every depth. A duplicate is
    reported after an error of the syntax, also one that stands behind it. -/
def parseUniqueJson (serde : SerdeJson) (source : String) : Except String SortedValue := do
  let tree ← serde.parse source
  uniqueJsonValue tree

/-! ## Canonical text as a whole -/

section
variable {L : Libraries} {value other : Value} {text : String} {value : Value}

theorem integral_canonicalForm (h : Integral value) : Integral (canonicalForm L value) :=
  Json.all_sortMembers _ (Json.all_mapTexts (fun _ => rfl) value h)

/-- Normalising twice changes nothing more. -/
abbrev Libraries.Idempotent (L : Libraries) : Prop := ∀ text, L.nfc (L.nfc text) = L.nfc text

theorem normal_canonicalForm (hidempotent : L.Idempotent)
    (value : Value) : Normal L (canonicalForm L value) := by
  refine Json.all_sortMembers _ (Json.all_mapTexts (fun text => ?_) value (all_true value))
  exact decide_eq_true (hidempotent text)

theorem canonicalForm_nesting (value : Value) (depth : Nat) :
    jsonNestingReachesLimit (canonicalForm L value) depth = jsonNestingReachesLimit value depth := by
  rw [jsonNestingReachesLimit, canonicalForm, Json.reaches_sortMembers, Json.reaches_mapTexts]
  rfl

/-- The canonical text of a value, also with newlines behind it, is read as the canonical form of
    the value. -/
theorem parseUniqueJson_canonicalForm (serde : SerdeJson) (value : Value) (hintegral : Integral value)
    (hnesting : jsonNestingReachesLimit value 0 = false)
    (hsorted : (canonicalForm L value).sorted = true) (newlines : Nat) :
    parseUniqueJson serde (String.ofList ((canonicalForm L value).compact (numberText L) ++
      List.replicate newlines '\n')) = .ok ⟨canonicalForm L value, hsorted⟩ := by
  have hform := integral_canonicalForm (L := L) hintegral
  rw [← canonicalForm_nesting] at hnesting
  rw [parseUniqueJson, serde.parse_compact _ (numberText L) newlines hform hnesting fun i h => rfl]
  exact uniqueJsonValue_of_sorted ⟨canonicalForm L value, hsorted⟩ hform

/-- The canonical form has the same canonical text. -/
theorem canonicalJson_canonicalForm (hidempotent : L.Idempotent)
    (h : canonicalJson L value = .ok text) :
    canonicalJson L (canonicalForm L value) = .ok text := by
  obtain ⟨hnesting, hkeys, htext⟩ := canonicalJson_eq_ok.mp h
  have hsorted : (canonicalForm L value).sorted = true := Json.sortMembers_sorted _ hkeys
  rw [canonicalJson_eq _ hsorted (normal_canonicalForm hidempotent value), htext]
  rw [canonicalForm_nesting, hnesting]

theorem canonicalForm_eq_iff (hkeys : (value.mapTexts L.nfc).DistinctKeys) :
    canonicalForm L value = canonicalForm L other ↔
      Json.SameMembers (value.mapTexts L.nfc) (other.mapTexts L.nfc) :=
  (Json.sameMembers_iff_sortMembers hkeys).symm

/-- Values have the same canonical text iff they have the same canonical form. -/
theorem canonicalJson_eq_ok_iff (hvalue : Integral value)
    (hother : Integral other) (h : canonicalJson L value = .ok text) :
    canonicalJson L other = .ok text ↔
      Json.SameMembers (value.mapTexts L.nfc) (other.mapTexts L.nfc) := by
  obtain ⟨hnesting, hkeys, rfl⟩ := canonicalJson_eq_ok.mp h
  rw [canonicalJson_eq_ok]
  constructor
  · rintro ⟨-, -, htext⟩
    have hcompact := String.ofList_injective htext
    have hread := readsNumbers (numberText L) fun i h => rfl
    have hforms := Json.compact_injective hread (integral_canonicalForm hother)
      (integral_canonicalForm hvalue) hcompact
    exact (canonicalForm_eq_iff hkeys).mp hforms.symm
  · intro hsame
    have hforms := (canonicalForm_eq_iff hkeys).mpr hsame
    refine ⟨?_, (hsame.sortMembers_eq hkeys).1, by rw [hforms]⟩
    rw [← canonicalForm_nesting, ← hforms, canonicalForm_nesting, hnesting]

/-- Canonical JSON of values with integer numbers. It fails exactly when an array or object is
    nested to the limit or two keys of one object have the same normal form; what it returns is
    read back without duplicate keys, to a value with the same canonical text; and values have the
    same text exactly when they are the same up to normal forms and the order of members. -/
theorem canonicalJson_faithful (L : Libraries) (serde : SerdeJson)
    (hidempotent : ∀ text, L.nfc (L.nfc text) = L.nfc text) (value other : Value)
    (hvalue : Integral value) (hother : Integral other) :
    ((∃ error, canonicalJson L value = .error error) ↔
      (∃ d inner, Json.Inside value d inner ∧ inner.isContainer = true ∧ 128 ≤ d + 1) ∨
      (∃ d fields, Json.Inside value d (.object fields) ∧
        ¬ (fields.map fun x => L.nfc x.1).Nodup)) ∧
    (∀ text, canonicalJson L value = .ok text →
      ∃ value', parseUniqueJson serde text = .ok value' ∧ canonicalJson L value'.1 = .ok text) ∧
    (∀ text, canonicalJson L value = .ok text → (canonicalJson L other = .ok text ↔
      Json.SameMembers (value.mapTexts L.nfc) (other.mapTexts L.nfc))) := by
  refine ⟨?_, ?_, fun text h => canonicalJson_eq_ok_iff hvalue hother h⟩
  · have hreaches : jsonNestingReachesLimit value 0 = true ↔
        ∃ d inner, Json.Inside value d inner ∧ inner.isContainer = true ∧ 128 ≤ d + 1 := by
      rw [jsonNestingReachesLimit, Json.reaches_iff]
      simp only [Nat.zero_add]
      rfl
    have hclash : ¬ (value.mapTexts L.nfc).DistinctKeys ↔ ∃ d fields,
        Json.Inside value d (.object fields) ∧ ¬ (fields.map fun x => L.nfc x.1).Nodup := by
      rw [Json.distinctKeys_mapTexts]
      push Not
      rfl
    have hok : (∃ text, canonicalJson L value = .ok text) ↔
        jsonNestingReachesLimit value 0 = false ∧ (value.mapTexts L.nfc).DistinctKeys := by
      simp only [canonicalJson_eq_ok, exists_and_left, exists_eq', and_true]
    rw [← hreaches, ← hclash, ← Bool.not_eq_false, ← not_and_or, ← hok]
    cases canonicalJson L value <;> simp
  · intro text h
    obtain ⟨hnesting, hkeys, htext⟩ := canonicalJson_eq_ok.mp h
    have hsorted := Json.sortMembers_sorted _ hkeys
    refine ⟨⟨canonicalForm L value, hsorted⟩, ?_, canonicalJson_canonicalForm hidempotent h⟩
    have hparse := parseUniqueJson_canonicalForm serde value hvalue hnesting hsorted 0
    rwa [replicate_zero, append_nil, htext] at hparse

end

/-! ## One text with an accent -/

/-- The libraries on ASCII texts, integer numbers and a path that may be spelled with a combining
    accent. -/
def acuteLibraries : Libraries := { asciiLibraries with
    nfc := fun text => if text = "/cafe\u0301" then "/café" else text
    nfc_ascii := fun text h => if_neg (by rintro rfl; exact absurd h (by decide +kernel)) }

theorem acuteLibraries_idempotent (text : String) :
    acuteLibraries.nfc (acuteLibraries.nfc text) = acuteLibraries.nfc text := by
  by_cases h : text = "/cafe\u0301" <;> simp [acuteLibraries, h]

/-- The compact text of a value with integer numbers has no control characters. -/
theorem plain_of_integral (num : Number → List Char)
    (hnum : ∀ i h, num (.integer i h) = (toString i).toList) {value : Value}
    (hintegral : Integral value) : Json.Plain (value.compact num) := by
  refine Json.plain_compact (fun number hnumber => ?_) value hintegral
  cases number with
  | integer i hi =>
    rw [hnum]
    exact Json.plain_int i
  | float bits => cases hnumber

/-- A parser of the first line, compact text with integer numbers. -/
def compactParse (text : String) : Except String Value :=
  let line := text.toList.takeWhile (· ≠ '\n')
  match Json.read readNumber (line.length + 1) line with
  | some (value, []) => .ok value
  | _ => .error "expected value"

theorem compactParse_compact (value : Value) (num : Number → List Char) (newlines : Nat)
    (hintegral : Integral value) (hnum : ∀ i h, num (.integer i h) = (toString i).toList) :
    compactParse (String.ofList (value.compact num ++ List.replicate newlines '\n')) =
      .ok value := by
  have hline : (value.compact num ++ List.replicate newlines '\n').takeWhile (· ≠ '\n') =
      value.compact num := by
    have hplain : ∀ c ∈ value.compact num, decide (c ≠ '\n') = true := by
      intro c hc
      refine decide_eq_true fun heq => ?_
      exact absurd (heq ▸ plain_of_integral num hnum hintegral c hc) (by decide)
    rw [takeWhile_append_of_pos hplain]
    cases newlines <;> simp [replicate_succ]
  have hread := Json.read_compact (readsNumbers num hnum) value hintegral
    ((value.compact num).length + 1) [] (Nat.lt_succ_self _) (by simp [Json.Stops])
  rw [append_nil] at hread
  simp only [compactParse, String.toList_ofList, hline, hread]

def compactSerde : SerdeJson where
  parse := compactParse
  parse_compact value num newlines hintegral _ hnum :=
    compactParse_compact value num newlines hintegral hnum

/-- Two spellings of one object: the accent apart or composed, the members in either order. -/
def spelledApart : Value :=
  .object [("a", .array [.number (.integer (-1) (by decide))]),
    ("/cafe\u0301", .string "/cafe\u0301")]

def spelledTogether : Value :=
  .object [("/café", .string "/café"), ("a", .array [.number (.integer (-1) (by decide))])]

theorem canonicalJson_faithful_spellings :
    canonicalJson acuteLibraries spelledApart = .ok "\x7b\"/café\":\"/café\",\"a\":[-1]\x7d" ∧
      canonicalJson acuteLibraries spelledTogether =
        .ok "\x7b\"/café\":\"/café\",\"a\":[-1]\x7d" := by
  have hapart : canonicalJson acuteLibraries spelledApart =
      .ok "\x7b\"/café\":\"/café\",\"a\":[-1]\x7d" := by decide +kernel
  have hsame : Json.SameMembers (spelledApart.mapTexts acuteLibraries.nfc)
      (spelledTogether.mapTexts acuteLibraries.nfc) := by
    have hnfc : acuteLibraries.nfc "/cafe\u0301" = "/café" ∧ acuteLibraries.nfc "a" = "a" ∧
        acuteLibraries.nfc "/café" = "/café" := by decide +kernel
    simp only [spelledApart, spelledTogether, Json.mapTexts_object, map_cons, map_nil,
      Json.mapWith, Json.mapWithItems, hnfc]
    exact .order (.swap _ _ _)
  have hfaithful := canonicalJson_faithful acuteLibraries compactSerde acuteLibraries_idempotent
    spelledApart spelledTogether rfl rfl
  exact ⟨hapart, (hfaithful.2.2 _ hapart).mpr hsame⟩

end Watershed.Proto
