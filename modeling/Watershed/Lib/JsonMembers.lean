/-
  JSON values up to the order of members.

  A value with its members sorted by key stands for all the values that differ from it in the
  order of members only, as long as the keys of every object are distinct
  (`sameMembers_iff_sortMembers`).
-/
import Mathlib.Data.String.Basic
import Watershed.Lib.Json

open List

namespace Watershed.Json

variable {N : Type}

/-! ## What stands inside a value -/

/-- `w` stands in `v` within `d` arrays and objects. -/
inductive Inside : Json N → Nat → Json N → Prop where
  | self (v : Json N) : Inside v 0 v
  | item {vs : List (Json N)} {v w : Json N} {d : Nat} :
      v ∈ vs → Inside v d w → Inside (.array vs) (d + 1) w
  | member {fields : List (String × Json N)} {x : String × Json N} {w : Json N} {d : Nat} :
      x ∈ fields → Inside x.2 d w → Inside (.object fields) (d + 1) w

def isContainer : Json N → Bool
  | .array _ | .object _ => true
  | .null | .bool _ | .number _ | .string _ => false

variable {fields : List (String × Json N)} {vs : List (Json N)} {d : Nat} {limit depth : Nat}
  {w v : Json N}

/-- The items of an array, the values of an object. -/
def children : Json N → List (Json N)
  | .array vs => vs
  | .object fields => fields.map Prod.snd
  | .null | .bool _ | .number _ | .string _ => []

theorem induct_children {motive : Json N → Prop}
    (step : ∀ v, (∀ u ∈ v.children, motive u) → motive v) (v : Json N) : motive v := by
  induction v with
  | null | bool | number | string => exact step _ (by simp [children])
  | array vs ih => exact step _ ih
  | object fields ih => exact step _ (forall_mem_map.mpr ih)

theorem inside_iff : Inside v d w ↔
    (d = 0 ∧ w = v) ∨ ∃ e u, d = e + 1 ∧ u ∈ v.children ∧ Inside u e w := by
  constructor
  · intro h
    cases h with
    | self => exact .inl ⟨rfl, rfl⟩
    | item hv hw => exact .inr ⟨_, _, rfl, hv, hw⟩
    | member hx hw => exact .inr ⟨_, _, rfl, mem_map_of_mem hx, hw⟩
  · rintro (⟨rfl, rfl⟩ | ⟨e, u, rfl, hu, hw⟩)
    · exact .self _
    · cases v with
      | array vs => exact .item hu hw
      | object fields =>
        obtain ⟨x, hx, rfl⟩ := mem_map.mp hu
        exact .member hx hw
      | null | bool | number | string => cases hu

theorem not_inside_iff : (∀ d, ¬ Inside v d w) ↔ w ≠ v ∧ ∀ u ∈ v.children, ∀ d, ¬ Inside u d w := by
  constructor
  · exact fun h => ⟨fun heq => h 0 (heq ▸ .self _), fun u hu d hin =>
      h _ (inside_iff.mpr (.inr ⟨d, u, rfl, hu, hin⟩))⟩
  · rintro ⟨hne, h⟩ d hin
    obtain ⟨-, heq⟩ | ⟨e, u, -, hu, hin⟩ := inside_iff.mp hin
    · exact hne heq
    · exact h u hu e hin

theorem reaches_eq (v : Json N) : v.reaches limit depth =
    (v.isContainer && decide (limit ≤ depth + 1) || v.children.any (reaches limit (depth + 1))) := by
  cases v <;> simp [reaches, isContainer, children, reachesItems_eq, reachesFields_eq,
    Function.comp_def]

/-- The recursion finds the arrays and objects that stand too deep. -/
theorem reaches_iff {limit : Nat} (v : Json N) : ∀ depth, v.reaches limit depth = true ↔
    ∃ d w, Inside v d w ∧ w.isContainer = true ∧ limit ≤ depth + d + 1 := by
  induction v using induct_children with
  | step v ih =>
    intro depth
    rw [reaches_eq, Bool.or_eq_true, Bool.and_eq_true, decide_eq_true_eq, any_eq_true]
    constructor
    · rintro (⟨hcontainer, hlimit⟩ | ⟨u, hu, hreaches⟩)
      · exact ⟨0, v, .self v, hcontainer, hlimit⟩
      · obtain ⟨d, w, hw, hcontainer, hlimit⟩ := (ih u hu _).mp hreaches
        exact ⟨d + 1, w, inside_iff.mpr (.inr ⟨d, u, rfl, hu, hw⟩), hcontainer, by omega⟩
    · rintro ⟨d, w, hw, hcontainer, hlimit⟩
      obtain ⟨rfl, rfl⟩ | ⟨e, u, rfl, hu, hw⟩ := inside_iff.mp hw
      · exact .inl ⟨hcontainer, hlimit⟩
      · exact .inr ⟨u, hu, (ih u hu _).mpr ⟨e, w, hw, hcontainer, by omega⟩⟩

section
variable {g : Json N → Json N} (hg : ∀ v, (g v).children.Perm (v.children.map g))
include hg

/-- A map of the children changes what stands inside, not where it stands. -/
theorem inside_map (v : Json N) : ∀ d, Inside (g v) d w ↔ ∃ u, Inside v d u ∧ w = g u := by
  induction v using induct_children with
  | step v ih =>
    intro d
    rw [inside_iff]
    constructor
    · rintro (⟨rfl, rfl⟩ | ⟨e, _, rfl, hmem, hin⟩)
      · exact ⟨v, .self v, rfl⟩
      · obtain ⟨x, hx, rfl⟩ := mem_map.mp ((hg v).mem_iff.mp hmem)
        obtain ⟨u, hu, rfl⟩ := (ih x hx e).mp hin
        exact ⟨u, inside_iff.mpr (.inr ⟨e, x, rfl, hx, hu⟩), rfl⟩
    · rintro ⟨u, hu, rfl⟩
      obtain ⟨rfl, rfl⟩ | ⟨e, x, rfl, hx, hin⟩ := inside_iff.mp hu
      · exact .inl ⟨rfl, rfl⟩
      · exact .inr ⟨e, _, rfl, (hg v).mem_iff.mpr (mem_map_of_mem hx),
          (ih x hx e).mpr ⟨u, hin, rfl⟩⟩

theorem reaches_map (hcontainer : ∀ v, (g v).isContainer = v.isContainer) (v : Json N)
    (depth : Nat) : (g v).reaches limit depth = v.reaches limit depth := by
  rw [Bool.eq_iff_iff, reaches_iff, reaches_iff]
  constructor
  · rintro ⟨d, _, hw, h⟩
    obtain ⟨u, hu, rfl⟩ := (inside_map hg v d).mp hw
    exact ⟨d, u, hu, hcontainer u ▸ h⟩
  · rintro ⟨d, u, hu, h⟩
    exact ⟨d, g u, (inside_map hg v d).mpr ⟨u, hu, rfl⟩, (hcontainer u).symm ▸ h⟩

end

/-- No object inside the value has one key twice. -/
def DistinctKeys (v : Json N) : Prop :=
  ∀ d fields, Inside v d (.object fields) → (fields.map Prod.fst).Nodup

theorem distinctKeys_leaf (hv : v.isContainer = false) : DistinctKeys v := by
  intro d fields h
  cases h <;> cases hv

theorem distinctKeys_array : DistinctKeys (.array vs) ↔ ∀ v ∈ vs, DistinctKeys v := by
  constructor
  · exact fun h v hv d fields hin => h _ fields (.item hv hin)
  · intro h d fields hin
    obtain ⟨-, heq⟩ | ⟨e, v, -, hv, hin⟩ := inside_iff.mp hin
    · cases heq
    · exact h v hv e fields hin

theorem distinctKeys_object : DistinctKeys (.object fields) ↔
    (fields.map Prod.fst).Nodup ∧ ∀ x ∈ fields, DistinctKeys x.2 := by
  constructor
  · exact fun h => ⟨h 0 fields (.self _), fun x hx d others hin => h _ others (.member hx hin)⟩
  · rintro ⟨hkeys, hvalues⟩ d others hin
    obtain ⟨-, heq⟩ | ⟨e, u, -, hu, hin⟩ := inside_iff.mp hin
    · cases heq
      exact hkeys
    · exact forall_mem_map.mpr hvalues u hu e others hin

theorem distinctKeys_of_sorted (v : Json N) (h : v.sorted = true) : DistinctKeys v := by
  induction v with
  | null | bool | number | string => exact distinctKeys_leaf rfl
  | array vs ih =>
    exact distinctKeys_array.mpr fun v hv => ih v hv (sortedItems_iff.mp h v hv)
  | object fields ih =>
    obtain ⟨hkeys, hvalues⟩ := sorted_object.mp h
    exact distinctKeys_object.mpr
      ⟨hkeys.imp fun h => ne_of_lt h, fun x hx => ih x hx (hvalues x hx)⟩

/-! ## Texts and members -/

mutual

/-- The members of every object sorted by their keys. -/
def sortMembers : Json N → Json N
  | .null => .null
  | .bool b => .bool b
  | .number n => .number n
  | .string s => .string s
  | .array vs => .array (sortMembersItems vs)
  | .object fields =>
    .object ((sortMembersFields fields).insertionSort fun left right => left.1 ≤ right.1)

def sortMembersItems : List (Json N) → List (Json N)
  | [] => []
  | v :: vs => v.sortMembers :: sortMembersItems vs

def sortMembersFields : List (String × Json N) → List (String × Json N)
  | [] => []
  | (k, v) :: fields => (k, v.sortMembers) :: sortMembersFields fields

end

variable {fields : List (String × Json N)} {f : String → String} {number : N → Bool}
    {vs : List (Json N)} {limit depth : Nat} {v w : Json N} {p string : String → Bool}

theorem sortMembersItems_eq : sortMembersItems vs = vs.map sortMembers := by
  induction vs with
  | nil => rfl
  | cons v vs ih => simp [sortMembersItems, ih]

theorem sortMembersFields_eq :
    sortMembersFields fields = fields.map fun x => (x.1, x.2.sortMembers) := by
  induction fields with
  | nil => rfl
  | cons x fields ih => simp [sortMembersFields, ih]

section
variable {α : Type} {fields : List (String × α)}

/-- Members in the order of their keys. -/
abbrev byKey (fields : List (String × α)) : List (String × α) :=
  fields.insertionSort fun left right => left.1 ≤ right.1

theorem perm_byKey (fields : List (String × α)) : (byKey fields).Perm fields :=
  perm_insertionSort _ _

/-- Distinct keys are sorted strictly. -/
theorem byKey_sorted (h : (fields.map Prod.fst).Nodup) :
    ((byKey fields).map Prod.fst).Pairwise (· < ·) := by
  have hle : (byKey fields).Pairwise fun left right => left.1 ≤ right.1 :=
    pairwise_insertionSort _ _
  have hnodup := ((perm_byKey fields).map Prod.fst).symm.nodup h
  rw [nodup_iff_pairwise_ne, pairwise_map] at hnodup
  rw [pairwise_map]
  exact (hle.and hnodup).imp fun h => lt_of_le_of_ne h.1 h.2

/-- Members with strictly increasing keys are where they belong. -/
theorem byKey_eq_self (h : (fields.map Prod.fst).Pairwise (· < ·)) : byKey fields = fields :=
  List.Pairwise.insertionSort_eq ((pairwise_map.mp h).imp fun h => le_of_lt h)

/-- Distinct keys have one order. -/
theorem byKey_eq_of_perm {others : List (String × α)} (hperm : fields.Perm others)
    (h : (fields.map Prod.fst).Nodup) : byKey fields = byKey others := by
  have hothers := (hperm.map Prod.fst).nodup h
  have hsort := ((perm_byKey fields).trans hperm).trans (perm_byKey others).symm
  exact hsort.eq_of_pairwise (fun _ _ _ _ hlt hgt => absurd hlt (lt_asymm hgt))
    (pairwise_map.mp (byKey_sorted h)) (pairwise_map.mp (byKey_sorted hothers))

theorem mem_byKey {x : String × α} : x ∈ byKey fields ↔ x ∈ fields := (perm_byKey fields).mem_iff

end

theorem sortMembers_array (vs : List (Json N)) :
    (array vs).sortMembers = .array (vs.map sortMembers) := by
  rw [sortMembers, sortMembersItems_eq]

theorem sortMembers_object (fields : List (String × Json N)) :
    (object fields).sortMembers = .object (byKey (fields.map fun x => (x.1, x.2.sortMembers))) := by
  rw [sortMembers, sortMembersFields_eq]

theorem mapTexts_array (f : String → String) (vs : List (Json N)) :
    (array vs).mapTexts f = .array (vs.map (mapTexts f)) := mapWith_array vs

theorem mapTexts_object (f : String → String) (fields : List (String × Json N)) :
    (object fields).mapTexts f = .object (fields.map fun x => (f x.1, x.2.mapTexts f)) :=
  mapWith_object fields

theorem sortMembers_sorted (v : Json N) (h : DistinctKeys v) : v.sortMembers.sorted = true := by
  induction v with
  | null | bool | number | string => rfl
  | array vs ih =>
    rw [sortMembers_array]
    refine sortedItems_iff.mpr fun w hw => ?_
    obtain ⟨v, hv, rfl⟩ := mem_map.mp hw
    exact ih v hv (distinctKeys_array.mp h v hv)
  | object fields ih =>
    obtain ⟨hkeys, hvalues⟩ := distinctKeys_object.mp h
    rw [sortMembers_object, sorted_object]
    refine ⟨byKey_sorted (by rwa [map_map]), fun x hx => ?_⟩
    obtain ⟨y, hy, rfl⟩ := mem_map.mp (mem_byKey.mp hx)
    exact ih y hy (hvalues y hy)

theorem sortMembers_eq_self (v : Json N) (h : v.sorted = true) : v.sortMembers = v := by
  induction v with
  | null | bool | number | string => rfl
  | array vs ih =>
    rw [sortMembers_array]
    refine congrArg Json.array ((map_congr_left fun v hv => ?_).trans (map_id vs))
    exact ih v hv (sortedItems_iff.mp h v hv)
  | object fields ih =>
    obtain ⟨hkeys, hvalues⟩ := sorted_object.mp h
    have hfields : fields.map (fun x => (x.1, x.2.sortMembers)) = fields.map id :=
      map_congr_left fun x hx => Prod.ext rfl (ih x hx (hvalues x hx))
    rw [sortMembers_object, hfields, map_id, byKey_eq_self hkeys]

theorem all_mapTexts (hf : ∀ s, p (f s) = true) (v : Json N)
    (h : v.numbersAll number = true) :
    (v.mapTexts f).all p p number = true := by
  induction v with
  | null | bool => rfl
  | number n => exact h
  | string s => exact hf s
  | array vs ih =>
    rw [mapTexts_array]
    refine allItems_iff.mpr fun w hw => ?_
    obtain ⟨v, hv, rfl⟩ := mem_map.mp hw
    exact ih v hv (allItems_iff.mp h v hv)
  | object fields ih =>
    rw [mapTexts_object]
    refine allFields_iff.mpr fun y hy => ?_
    obtain ⟨x, hx, rfl⟩ := mem_map.mp hy
    exact ⟨hf x.1, ih x hx (allFields_iff.mp h x hx).2⟩

theorem all_sortMembers {key : String → Bool} (v : Json N)
    (h : v.all string key number = true) : v.sortMembers.all string key number = true := by
  induction v with
  | null | bool => rfl
  | number | string => exact h
  | array vs ih =>
    rw [sortMembers_array]
    refine allItems_iff.mpr fun w hw => ?_
    obtain ⟨v, hv, rfl⟩ := mem_map.mp hw
    exact ih v hv (allItems_iff.mp h v hv)
  | object fields ih =>
    rw [sortMembers_object]
    refine allFields_iff.mpr fun y hy => ?_
    obtain ⟨x, hx, rfl⟩ := mem_map.mp (mem_byKey.mp hy)
    obtain ⟨hkey, hvalue⟩ := allFields_iff.mp h x hx
    exact ⟨hkey, ih x hx hvalue⟩

theorem reachesFields_byKey :
    reachesFields limit depth (byKey fields) = reachesFields limit depth fields := by
  rw [reachesFields_eq, reachesFields_eq, (perm_byKey fields).any_eq]

theorem children_mapTexts (v : Json N) :
    (v.mapTexts f).children.Perm (v.children.map (mapTexts f)) := by
  cases v <;> simp [mapTexts_array, mapTexts_object, children, Function.comp_def, mapWith]

theorem children_sortMembers (v : Json N) :
    v.sortMembers.children.Perm (v.children.map sortMembers) := by
  cases v with
  | object fields =>
    rw [sortMembers_object]
    exact ((perm_byKey _).map _).trans (by simp [children, Function.comp_def])
  | array vs => rw [sortMembers_array]; rfl
  | null | bool | number | string => rfl

theorem reaches_mapTexts (v : Json N) :
    ∀ depth, (v.mapTexts f).reaches limit depth = v.reaches limit depth :=
  reaches_map children_mapTexts (fun v => by cases v <;> rfl) v

theorem reaches_sortMembers (v : Json N) :
    ∀ depth, v.sortMembers.reaches limit depth = v.reaches limit depth :=
  reaches_map children_sortMembers (fun v => by cases v <;> rfl) v

theorem mapTexts_eq_object :
    .object fields = v.mapTexts f ↔ ∃ others, v = .object others ∧
      fields = others.map fun x => (f x.1, x.2.mapTexts f) := by
  cases v <;> simp [mapTexts_object, mapTexts_array, mapWith]

/-- Where the keys stay as they are only the strings are mapped. -/
theorem mapTexts_eq_mapStrings
    (v : Json N) (h : v.all string (fun key => f key = key) number = true) :
    v.mapTexts f = v.mapStrings f := by
  induction v with
  | null | bool | number | string => rfl
  | array vs ih =>
    rw [mapTexts_array, mapStrings, mapWith_array]
    exact congrArg Json.array (map_congr_left fun v hv => ih v hv (allItems_iff.mp h v hv))
  | object fields ih =>
    rw [mapTexts_object, mapStrings, mapWith_object]
    refine congrArg Json.object (map_congr_left fun x hx => ?_)
    obtain ⟨hkey, hvalue⟩ := allFields_iff.mp h x hx
    exact Prod.ext (of_decide_eq_true hkey) (ih x hx hvalue)

/-- When mapping texts keeps the keys of every object distinct. -/
theorem distinctKeys_mapTexts :
    (v.mapTexts f).DistinctKeys ↔
      ∀ d fields, Inside v d (.object fields) → (fields.map fun x => f x.1).Nodup := by
  constructor
  · intro h d fields hin
    have hnodup := h d _ ((inside_map children_mapTexts v d).mpr ⟨_, hin, (mapTexts_object f fields).symm⟩)
    rwa [map_map] at hnodup
  · intro h d fields hin
    obtain ⟨u, hu, heq⟩ := (inside_map children_mapTexts v d).mp hin
    obtain ⟨others, rfl, rfl⟩ := mapTexts_eq_object.mp heq
    rw [map_map]
    exact h d others hu

/-! ## The order of members -/

/-- Values that differ in the order of members only. -/
inductive SameMembers : Json N → Json N → Prop where
  | refl (v : Json N) : SameMembers v v
  | trans {u v w : Json N} : SameMembers u v → SameMembers v w → SameMembers u w
  | item {v w : Json N} (before after : List (Json N)) : SameMembers v w →
      SameMembers (.array (before ++ v :: after)) (.array (before ++ w :: after))
  | member {v w : Json N} (k : String) (before after : List (String × Json N)) : SameMembers v w →
      SameMembers (.object (before ++ (k, v) :: after)) (.object (before ++ (k, w) :: after))
  | order {fields others : List (String × Json N)} : fields.Perm others →
      SameMembers (.object fields) (.object others)

theorem SameMembers.symm (h : SameMembers v w) : SameMembers w v := by
  induction h with
  | refl v => exact .refl v
  | trans _ _ ih₁ ih₂ => exact .trans ih₂ ih₁
  | item before after _ ih => exact .item before after ih
  | member k before after _ ih => exact .member k before after ih
  | order hperm => exact .order hperm.symm

theorem SameMembers.items {f : Json N → Json N} (before vs : List (Json N))
    (h : ∀ v ∈ vs, SameMembers v (f v)) :
    SameMembers (.array (before ++ vs)) (.array (before ++ vs.map f)) := by
  induction vs generalizing before with
  | nil => exact .refl _
  | cons v vs ih =>
    have hrest := ih (before ++ [f v]) (forall_mem_cons.mp h).2
    rw [append_assoc, append_assoc] at hrest
    exact .trans (.item before vs (h v mem_cons_self)) hrest

theorem SameMembers.members {f : Json N → Json N} (before fields : List (String × Json N))
    (h : ∀ x ∈ fields, SameMembers x.2 (f x.2)) :
    SameMembers (.object (before ++ fields))
      (.object (before ++ fields.map fun x => (x.1, f x.2))) := by
  induction fields generalizing before with
  | nil => exact .refl _
  | cons x fields ih =>
    have hrest := ih (before ++ [(x.1, f x.2)]) (forall_mem_cons.mp h).2
    rw [append_assoc, append_assoc] at hrest
    exact .trans (.member x.1 before fields (h x mem_cons_self)) hrest

theorem sameMembers_sortMembers (v : Json N) : SameMembers v v.sortMembers := by
  induction v with
  | null | bool | number | string => exact .refl _
  | array vs ih =>
    rw [sortMembers_array]
    exact SameMembers.items [] vs ih
  | object fields ih =>
    rw [sortMembers_object]
    exact .trans (SameMembers.members [] fields ih) (.order (perm_byKey _).symm)

/-- The order of members matters neither for distinct keys nor for the sorted value. -/
theorem SameMembers.sortMembers_eq (h : SameMembers v w) (hkeys : DistinctKeys v) :
    DistinctKeys w ∧ v.sortMembers = w.sortMembers := by
  induction h with
  | refl v => exact ⟨hkeys, rfl⟩
  | trans _ _ ih₁ ih₂ =>
    obtain ⟨hmiddle, hleft⟩ := ih₁ hkeys
    obtain ⟨hlast, hright⟩ := ih₂ hmiddle
    exact ⟨hlast, hleft.trans hright⟩
  | item before after _ ih =>
    simp only [distinctKeys_array, mem_append, mem_cons, or_imp, forall_and, forall_eq] at hkeys ⊢
    obtain ⟨hw, heq⟩ := ih hkeys.2.1
    refine ⟨⟨hkeys.1, hw, hkeys.2.2⟩, ?_⟩
    simp only [sortMembers_array, map_append, map_cons, heq]
  | member k before after _ ih =>
    simp only [distinctKeys_object, map_append, mem_append, mem_cons, or_imp,
      forall_and, forall_eq] at hkeys ⊢
    obtain ⟨hw, heq⟩ := ih hkeys.2.2.1
    refine ⟨⟨hkeys.1, hkeys.2.1, hw, hkeys.2.2.2⟩, ?_⟩
    simp only [sortMembers_object, map_append, map_cons, heq]
  | order hperm =>
    obtain ⟨hnodup, hvalues⟩ := distinctKeys_object.mp hkeys
    refine ⟨distinctKeys_object.mpr ⟨(hperm.map Prod.fst).nodup hnodup,
      fun x hx => hvalues x (hperm.mem_iff.mpr hx)⟩, ?_⟩
    rw [sortMembers_object, sortMembers_object, byKey_eq_of_perm (hperm.map _)]
    rwa [map_map]

/-- Two values differ in the order of members only iff they are the same once sorted. -/
theorem sameMembers_iff_sortMembers (h : DistinctKeys v) :
    SameMembers v w ↔ v.sortMembers = w.sortMembers := by
  refine ⟨fun hsame => (hsame.sortMembers_eq h).2, fun heq => ?_⟩
  have hsorted := sameMembers_sortMembers v
  rw [heq] at hsorted
  exact hsorted.trans (sameMembers_sortMembers w).symm

end Watershed.Json
