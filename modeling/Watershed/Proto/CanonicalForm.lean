/-
  The canonical form of a JSON value: its texts in normal form, its members sorted.

  The canonical text of a value is the compact text of its canonical form
  (`appendCanonicalJson_eq_ok`), so a value in canonical form is read back from its canonical
  text.
-/
import Watershed.Lib.Fallible
import Watershed.Lib.JsonMembers
import Watershed.Proto.Canonical

open List

namespace Watershed.Proto

open Json

section
variable (L : Libraries)

/-- Every string and every key is in normal form. -/
def Normal (value : Value) : Prop := value.all (isNfc L) (isNfc L) (fun _ => true) = true

/-- Every number is an integer. -/
def Integral (value : Value) : Prop := value.numbersAll Number.isInteger = true

/-- The text of each number in canonical JSON. -/
def numberText (number : Number) : List Char := (canonicalNumber L number).toList

/-- The value with its texts in normal form and its members in the order of their keys. -/
def canonicalForm (value : Value) : Value := (value.mapTexts L.nfc).sortMembers

variable {L}
variable {text : String} {fields : List (String × Value)} {value : Value}

theorem nfc_of_isNfc (h : isNfc L text = true) : L.nfc text = text := by
  simpa [isNfc] using h

/-! ## Texts of containers -/

theorem repeatedKey_eq_none {seen keys : List String} :
    repeatedKey seen keys = none ↔ keys.Nodup ∧ ∀ key ∈ keys, key ∉ seen := by
  induction keys generalizing seen with
  | nil => simp [repeatedKey]
  | cons key keys ih =>
    rw [repeatedKey, nodup_cons, forall_mem_cons]
    split
    · rename_i hseen
      simp [hseen]
    · rename_i hseen
      simp only [ih, mem_cons, not_or, hseen, not_false_eq_true, true_and]
      constructor
      · rintro ⟨hnodup, hkeys⟩
        exact ⟨⟨fun hmem => (hkeys key hmem).1 rfl, hnodup⟩, fun other hmem => (hkeys other hmem).2⟩
      · rintro ⟨⟨hkey, hnodup⟩, hkeys⟩
        exact ⟨hnodup, fun other hmem => ⟨fun heq => hkey (heq ▸ hmem), hkeys other hmem⟩⟩

variable (values : List Value)

theorem canonicalItems_eq : canonicalItems L values = values.map (appendCanonicalJson L) := by
  induction values with
  | nil => rfl
  | cons value values ih => rw [canonicalItems, ih, map_cons]

theorem canonicalEntries_eq (fields : List (String × Value)) :
    canonicalEntries L fields = fields.map fun x => (L.nfc x.1, appendCanonicalJson L x.2) := by
  induction fields with
  | nil => rfl
  | cons field fields ih =>
    obtain ⟨key, value⟩ := field
    rw [canonicalEntries, ih, map_cons]

variable (num : Number → List Char)

theorem compactItems_eq :
    compactItems num values = values.flatMap fun value => ',' :: value.compact num := by
  induction values with
  | nil => rfl
  | cons value values ih => simp [compactItems, ih]

theorem compactFields_eq (fields : List (String × Value)) :
    compactFields num fields =
      fields.flatMap fun x => ',' :: (quote x.1.toList ++ ':' :: x.2.compact num) := by
  induction fields with
  | nil => rfl
  | cons field fields ih => simp [compactFields, ih]

theorem compact_array :
    (array values).compact num =
      '[' :: separated (values.map fun value => value.compact num) ++ [']'] := by
  cases values with
  | nil => rfl
  | cons value values => simp [compact, separated, compactItems_eq, flatMap_map]

theorem compact_object (fields : List (String × Value)) :
    (object fields).compact num =
      '\x7b' :: separated (fields.map fun x => quote x.1.toList ++ ':' :: x.2.compact num) ++
        ['\x7d'] := by
  cases fields with
  | nil => rfl
  | cons field fields => simp [compact, separated, compactFields_eq, flatMap_map]

theorem appendCanonicalJson_array :
    appendCanonicalJson L (.array values) = (do
      let items ← values.mapM (appendCanonicalJson L)
      return '[' :: separated items ++ [']']) := by
  rw [appendCanonicalJson, canonicalItems_eq, mapM_map]
  rfl

/-- The entries of an object in the order in which they are written. -/
def sortedEntries (L : Libraries) (fields : List (String × Value)) :
    List (String × Except CanonicalJsonError (List Char)) :=
  (fields.map fun x => (L.nfc x.1, appendCanonicalJson L x.2)).insertionSort
    fun left right => left.1 ≤ right.1

theorem appendCanonicalJson_object (h : (fields.map fun x => L.nfc x.1).Nodup) :
    appendCanonicalJson L (.object fields) = (do
      let items ← (sortedEntries L fields).mapM fun entry => entry.2.map fun text =>
        quote entry.1.toList ++ ':' :: text
      return '\x7b' :: separated items ++ ['\x7d']) := by
  rw [appendCanonicalJson, repeatedKey_eq_none.mpr ⟨h, by simp⟩]
  simp only [canonicalEntries_eq, sortedEntries]

/-! ## The canonical text -/

/-- The keys of an object in normal form. -/
theorem keys_mapTexts (f : String → String) (fields : List (String × Value)) :
    (fields.map fun x => (f x.1, x.2.mapTexts f)).map Prod.fst = fields.map fun x => f x.1 := by
  rw [map_map]
  rfl

/-- Sorting the entries is sorting the members. -/
theorem sortedEntries_eq (h : ∀ x ∈ fields,
      appendCanonicalJson L x.2 = .ok ((canonicalForm L x.2).compact (numberText L))) :
    sortedEntries L fields = (byKey (fields.map fun x => (L.nfc x.1, canonicalForm L x.2))).map
      fun x => (x.1, .ok (x.2.compact (numberText L))) := by
  refine (congrArg (insertionSort _) ?_).trans
    (map_insertionSort (fun left right : String × Value => left.1 ≤ right.1)
      (fun left right : String × Except CanonicalJsonError (List Char) => left.1 ≤ right.1) _ _
      fun _ _ _ _ => Iff.rfl).symm
  rw [map_map]
  exact map_congr_left fun x hx => Prod.ext rfl (h x hx)

/-- A value whose keys stay distinct has the compact text of its canonical form. -/
theorem appendCanonicalJson_of_distinctKeys (value : Value)
    (h : (value.mapTexts L.nfc).DistinctKeys) :
    appendCanonicalJson L value = .ok ((canonicalForm L value).compact (numberText L)) := by
  induction value using induction_on with
  | null => rfl
  | bool b => cases b <;> rfl
  | number | string => rfl
  | array values ih =>
    rw [mapTexts_array, distinctKeys_array, forall_mem_map] at h
    have hitems := mapM_ok fun value hvalue => ih value hvalue (h value hvalue)
    rw [appendCanonicalJson_array, hitems, canonicalForm, mapTexts_array,
      sortMembers_array, compact_array, map_map, map_map]
    rfl
  | object fields ih =>
    rw [mapTexts_object, distinctKeys_object, keys_mapTexts, forall_mem_map] at h
    obtain ⟨hkeys, hvalues⟩ := h
    rw [appendCanonicalJson_object hkeys, sortedEntries_eq fun x hx => ih x hx (hvalues x hx),
      mapM_map]
    simp only [Function.comp_def, Except.map]
    rw [mapM_ok fun x _ => rfl, canonicalForm, mapTexts_object, sortMembers_object,
      compact_object, map_map]
    rfl

/-- Two keys with one normal form are always found. -/
theorem distinctKeys_of_appendCanonicalJson (value : Value) {text : List Char}
    (h : appendCanonicalJson L value = .ok text) : (value.mapTexts L.nfc).DistinctKeys := by
  induction value using induction_on generalizing text with
  | null | bool | number | string => exact distinctKeys_leaf rfl
  | array values ih =>
    rw [appendCanonicalJson_array, bind_eq_ok] at h
    obtain ⟨items, hitems, -⟩ := h
    rw [mapTexts_array, distinctKeys_array, forall_mem_map]
    intro value hvalue
    obtain ⟨item, hitem⟩ := ok_of_mapM_eq_ok hitems value hvalue
    exact ih value hvalue hitem
  | object fields ih =>
    have hkeys : (fields.map fun x => L.nfc x.1).Nodup := by
      rw [appendCanonicalJson] at h
      split at h
      · cases h
      · rename_i hrepeated
        exact (repeatedKey_eq_none.mp hrepeated).1
    rw [appendCanonicalJson_object hkeys, bind_eq_ok] at h
    obtain ⟨items, hitems, -⟩ := h
    rw [mapTexts_object, distinctKeys_object, keys_mapTexts, forall_mem_map]
    refine ⟨hkeys, fun x hx => ?_⟩
    have hmem : (L.nfc x.1, appendCanonicalJson L x.2) ∈ sortedEntries L fields :=
      (mem_insertionSort _).mpr (mem_map_of_mem hx)
    obtain ⟨item, hitem⟩ := ok_of_mapM_eq_ok hitems _ hmem
    cases htext : appendCanonicalJson L x.2 with
    | ok text => exact ih x hx htext
    | error error =>
      rw [htext] at hitem
      cases hitem

/-- What a canonical text is: the nesting stays below the limit, keys stay distinct, and the text
    is the compact text of the canonical form. -/
theorem canonicalJson_eq_ok :
    canonicalJson L value = .ok text ↔
      jsonNestingReachesLimit value 0 = false ∧ (value.mapTexts L.nfc).DistinctKeys ∧
        String.ofList ((canonicalForm L value).compact (numberText L)) = text := by
  rw [canonicalJson]
  cases hnesting : jsonNestingReachesLimit value 0 with
  | true => simp
  | false =>
    simp only [Bool.false_eq_true, if_false, true_and]
    constructor
    · intro h
      cases happend : appendCanonicalJson L value with
      | error error =>
        rw [happend] at h
        cases h
      | ok chars =>
        have hkeys := distinctKeys_of_appendCanonicalJson value happend
        rw [appendCanonicalJson_of_distinctKeys value hkeys] at h
        exact ⟨hkeys, Except.ok.inj h⟩
    · rintro ⟨hkeys, rfl⟩
      rw [appendCanonicalJson_of_distinctKeys value hkeys]
      rfl

/-! ## Values in normal form -/

theorem mapTexts_eq_self_of_normal (hnormal : Normal L value) : value.mapTexts L.nfc = value :=
  mapWith_eq_self (fun _ => nfc_of_isNfc) (fun _ => nfc_of_isNfc) value hnormal

/-- A sorted value in normal form is its own canonical form. -/
theorem canonicalForm_eq_self (hsorted : value.sorted = true)
    (hnormal : Normal L value) : canonicalForm L value = value := by
  rw [canonicalForm, mapTexts_eq_self_of_normal hnormal, sortMembers_eq_self value hsorted]

/-- The canonical text of a normal value below the nesting limit. -/
theorem canonicalJson_eq (value : Value) (hsorted : value.sorted = true) (hnormal : Normal L value)
    (hnesting : jsonNestingReachesLimit value 0 = false) :
    canonicalJson L value = .ok (String.ofList (value.compact (numberText L))) := by
  rw [canonicalJson_eq_ok, canonicalForm_eq_self hsorted hnormal, mapTexts_eq_self_of_normal hnormal]
  exact ⟨hnesting, distinctKeys_of_sorted value hsorted, rfl⟩

/-- A value in normal form with integer numbers is read back from its canonical text. -/
theorem fromStr_canonicalJson (value : SortedValue) (hnormal : Normal L value.1)
    (hintegral : Integral value.1) (h : canonicalJson L value.1 = .ok text) :
    L.fromStr text = .ok value := by
  obtain ⟨hnesting, -, rfl⟩ := canonicalJson_eq_ok.mp h
  rw [canonicalForm_eq_self value.2 hnormal]
  exact L.fromStr_compact value (numberText L) hintegral hnesting fun i hi => rfl

end

end Watershed.Proto
