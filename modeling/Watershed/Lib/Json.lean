/-
  JSON values: induction along their nesting, and the checks and maps that follow it.
-/
import Mathlib.Data.List.Sort

open List

namespace Watershed

/-- A JSON value with numbers of type `N`. The members of an object are a list in the order
    in which the object keeps them. -/
inductive Json (N : Type) where
  | null
  | bool (b : Bool)
  | number (n : N)
  | string (s : String)
  | array (vs : List (Json N))
  | object (fields : List (String × Json N))

namespace Json

variable {N : Type} {motive : Json N → Prop}

/-- The induction principle that follows the nesting. -/
@[induction_eliminator]
theorem induction_on (null : motive .null) (bool : ∀ b, motive (.bool b))
    (number : ∀ n, motive (.number n)) (string : ∀ s, motive (.string s))
    (array : ∀ vs, (∀ v ∈ vs, motive v) → motive (.array vs))
    (object : ∀ fields, (∀ x ∈ fields, motive x.2) → motive (.object fields)) :
    ∀ v, motive v
  | .null => null
  | .bool b => bool b
  | .number n => number n
  | .string s => string s
  | .array vs => array vs fun v _ => induction_on null bool number string array object v
  | .object fields => object fields fun x _ => induction_on null bool number string array object x.2
termination_by v => sizeOf v
decreasing_by
  · rename_i hv
    have := sizeOf_lt_of_mem hv
    simp only [Json.array.sizeOf_spec]
    omega
  · rename_i hx
    have := sizeOf_lt_of_mem hx
    have : sizeOf x = 1 + sizeOf x.1 + sizeOf x.2 := by cases x; rfl
    simp only [Json.object.sizeOf_spec]
    omega

/-- Induction for values that are wrapped in objects: the items and members two levels inside. -/
theorem induct_inner (step : ∀ v, (∀ fields, v = .object fields →
      ∀ x ∈ fields, (∀ vs, x.2 = .array vs → ∀ w ∈ vs, motive w) ∧
        ∀ inner, x.2 = .object inner → ∀ y ∈ inner, motive y.2) → motive v) (v : Json N) :
    motive v := by
  suffices h : motive v ∧ (∀ vs, v = .array vs → ∀ w ∈ vs, motive w) ∧
      ∀ inner, v = .object inner → ∀ y ∈ inner, motive y.2 from h.1
  induction v with
  | null | bool | number | string => exact ⟨step _ (by simp), by simp, by simp⟩
  | array vs ih =>
    refine ⟨step _ (by simp), ?_, by simp⟩
    rintro _ ⟨⟩ w hw
    exact (ih w hw).1
  | object fields ih =>
    refine ⟨step _ ?_, by simp, ?_⟩
    · rintro _ ⟨⟩ x hx
      exact (ih x hx).2
    · rintro _ ⟨⟩ x hx
      exact (ih x hx).1


/-! ## Looking at a value -/

/-- `value.get(field)`: the member of an object. -/
def get (v : Json N) (field : String) : Option (Json N) :=
  match v with
  | .object fields => (fields.find? fun x => x.1 = field).map Prod.snd
  | _ => none

def asStr : Json N → Option String
  | .string s => some s
  | _ => none

def isObject : Json N → Bool
  | .object _ => true
  | _ => false

mutual

/-- Every string passes `string`, every key `key` and every number `number`. -/
def all (string key : String → Bool) (number : N → Bool) : Json N → Bool
  | .null | .bool _ => true
  | .number n => number n
  | .string s => string s
  | .array vs => allItems string key number vs
  | .object fields => allFields string key number fields

def allItems (string key : String → Bool) (number : N → Bool) : List (Json N) → Bool
  | [] => true
  | v :: vs => v.all string key number && allItems string key number vs

def allFields (string key : String → Bool) (number : N → Bool) : List (String × Json N) → Bool
  | [] => true
  | (k, v) :: fields => key k && v.all string key number && allFields string key number fields

/-- Every number passes `number`. -/
abbrev numbersAll (number : N → Bool) (v : Json N) : Bool :=
  v.all (fun _ => true) (fun _ => true) number

/-- The keys of every object are in strictly increasing order, as a sorted map keeps them. -/
def sorted : Json N → Bool
  | .null | .bool _ | .number _ | .string _ => true
  | .array vs => sortedItems vs
  | .object fields => decide ((fields.map Prod.fst).Pairwise (· < ·)) && sortedFields fields

def sortedItems : List (Json N) → Bool
  | [] => true
  | v :: vs => v.sorted && sortedItems vs

def sortedFields : List (String × Json N) → Bool
  | [] => true
  | (_, v) :: fields => v.sorted && sortedFields fields

/-- Some array or object is the `limit`th container or a deeper one, counted from outside,
    when the value itself stands inside `depth` containers. -/
def reaches (limit depth : Nat) : Json N → Bool
  | .null | .bool _ | .number _ | .string _ => false
  | .array vs => limit ≤ depth + 1 || reachesItems limit (depth + 1) vs
  | .object fields => limit ≤ depth + 1 || reachesFields limit (depth + 1) fields

def reachesItems (limit depth : Nat) : List (Json N) → Bool
  | [] => false
  | v :: vs => v.reaches limit depth || reachesItems limit depth vs

def reachesFields (limit depth : Nat) : List (String × Json N) → Bool
  | [] => false
  | (_, v) :: fields => v.reaches limit depth || reachesFields limit depth fields

/-- Every string mapped by `f` and every key by `g`. -/
def mapWith (f g : String → String) : Json N → Json N
  | .null => .null
  | .bool b => .bool b
  | .number n => .number n
  | .string s => .string (f s)
  | .array vs => .array (mapWithItems f g vs)
  | .object fields => .object (mapWithFields f g fields)

def mapWithItems (f g : String → String) : List (Json N) → List (Json N)
  | [] => []
  | v :: vs => v.mapWith f g :: mapWithItems f g vs

def mapWithFields (f g : String → String) : List (String × Json N) → List (String × Json N)
  | [] => []
  | (k, v) :: fields => (g k, v.mapWith f g) :: mapWithFields f g fields

end

variable {fields : List (String × Json N)} {string key : String → Bool} {vs : List (Json N)}
    {f g : String → String} {number : N → Bool} {limit depth : Nat}

theorem allItems_iff :
    allItems string key number vs = true ↔ ∀ v ∈ vs, v.all string key number = true := by
  induction vs with
  | nil => simp [allItems]
  | cons v vs ih => simp [allItems, ih]

theorem allFields_iff : allFields string key number fields = true ↔
      ∀ x ∈ fields, key x.1 = true ∧ x.2.all string key number = true := by
  induction fields with
  | nil => simp [allFields]
  | cons x fields ih => simp [allFields, ih]

theorem sortedItems_iff : sortedItems vs = true ↔ ∀ v ∈ vs, v.sorted = true := by
  induction vs with
  | nil => simp [sortedItems]
  | cons v vs ih => simp [sortedItems, ih]

theorem sortedFields_iff : sortedFields fields = true ↔ ∀ x ∈ fields, x.2.sorted = true := by
  induction fields with
  | nil => simp [sortedFields]
  | cons x fields ih => simp [sortedFields, ih]

theorem sorted_object : (object fields).sorted = true ↔
    (fields.map Prod.fst).Pairwise (· < ·) ∧ ∀ x ∈ fields, x.2.sorted = true := by
  simp [sorted, sortedFields_iff]

theorem reachesItems_eq : reachesItems limit depth vs = vs.any (reaches limit depth) := by
  induction vs with
  | nil => rfl
  | cons v vs ih => simp [reachesItems, ih]

theorem reachesFields_eq :
    reachesFields limit depth fields = fields.any fun x => x.2.reaches limit depth := by
  induction fields with
  | nil => rfl
  | cons x fields ih => simp [reachesFields, ih]

/-- Every string value mapped, keys as they are. -/
abbrev mapStrings (f : String → String) (v : Json N) : Json N := v.mapWith f id

/-- Every string and every key mapped. -/
abbrev mapTexts (f : String → String) (v : Json N) : Json N := v.mapWith f f

theorem mapWith_array (vs : List (Json N)) :
    (array vs).mapWith f g = .array (vs.map (mapWith f g)) := by
  have hitems : mapWithItems f g vs = vs.map (mapWith f g) := by
    induction vs with
    | nil => rfl
    | cons v vs ih => simp [mapWithItems, ih]
  rw [mapWith, hitems]

theorem mapWith_object (fields : List (String × Json N)) :
    (object fields).mapWith f g = .object (fields.map fun x => (g x.1, x.2.mapWith f g)) := by
  have hfields : mapWithFields f g fields = fields.map fun x => (g x.1, x.2.mapWith f g) := by
    induction fields with
    | nil => rfl
    | cons x fields ih => simp [mapWithFields, ih]
  rw [mapWith, hfields]

/-- Mapping texts that all stay as they are changes nothing. -/
theorem mapWith_eq_self (hf : ∀ s, string s = true → f s = s) (hg : ∀ k, key k = true → g k = k)
    (v : Json N) (h : v.all string key number = true) : v.mapWith f g = v := by
  induction v with
  | null | bool | number => rfl
  | string s => exact congrArg Json.string (hf s h)
  | array vs ih =>
    rw [mapWith_array]
    refine congrArg Json.array ((map_congr_left fun v hv => ?_).trans (map_id vs))
    exact ih v hv (allItems_iff.mp h v hv)
  | object fields ih =>
    rw [mapWith_object]
    refine congrArg Json.object ((map_congr_left fun x hx => ?_).trans (map_id fields))
    obtain ⟨hkey, hvalue⟩ := allFields_iff.mp h x hx
    exact Prod.ext (hg x.1 hkey) (ih x hx hvalue)

/-- Mapping strings leaves the order of the keys. -/
theorem sorted_mapStrings (f : String → String) (v : Json N) (h : v.sorted = true) :
    (v.mapStrings f).sorted = true := by
  induction v with
  | null | bool | number | string => rfl
  | array vs ih =>
    rw [mapStrings, mapWith_array, sorted, sortedItems_iff]
    exact forall_mem_map.mpr fun v hv => ih v hv (sortedItems_iff.mp h v hv)
  | object fields ih =>
    obtain ⟨hkeys, hvalues⟩ := sorted_object.mp h
    rw [mapStrings, mapWith_object, sorted_object, map_map]
    exact ⟨hkeys, forall_mem_map.mpr fun x hx => ih x hx (hvalues x hx)⟩

end Json

end Watershed
