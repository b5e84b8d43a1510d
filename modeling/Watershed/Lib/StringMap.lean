/-
  Maps with text keys, in the order of their keys.

  Two such maps are equal when they give every key the same value; the order in which entries
  were put in does not matter.
-/
import Mathlib.Data.List.Basic

namespace Watershed

/-- The order of texts. -/
def compareText : String → String → Ordering := @compare String String.instOrd

namespace StringMap

instance : Std.TransCmp compareText :=
  inferInstanceAs (Std.TransCmp (@compare String String.instOrd))

instance : Std.LawfulEqCmp compareText :=
  inferInstanceAs (Std.LawfulEqCmp (@compare String String.instOrd))

end StringMap

abbrev StringMap (α : Type) := Std.ExtTreeMap String α compareText

/-- Sets of texts, in their order. -/
abbrev StringSet := Std.ExtTreeSet String compareText

namespace StringMap

variable {α : Type}

theorem get_insert (m : StringMap α) (k a : String) (v : α) :
    (m.insert k v)[a]? = if k = a then some v else m[a]? := by
  simp only [Std.ExtTreeMap.getElem?_insert, Std.LawfulEqCmp.compare_eq_iff_eq]

variable {m : StringMap α} {k : String}

theorem mem_iff : k ∈ m ↔ ∃ v, m[k]? = some v := by
  rw [← Std.ExtTreeMap.isSome_getElem?_iff_mem, Option.isSome_iff_exists]

theorem contains_eq_true : m.contains k = true ↔ ∃ v, m[k]? = some v := by
  rw [Std.ExtTreeMap.contains_eq_isSome_getElem?, Option.isSome_iff_exists]

theorem contains_eq_false : m.contains k = false ↔ m[k]? = none := by
  rw [Std.ExtTreeMap.contains_eq_isSome_getElem?, Option.isSome_eq_false_iff,
    Option.isNone_iff_eq_none]

theorem mem_toList {entry : String × α} : entry ∈ m.toList ↔ m[entry.1]? = some entry.2 :=
  Std.ExtTreeMap.mem_toList_iff_getElem?_eq_some

/-- The values, in the order of their keys. -/
def inOrder (m : StringMap α) : List α := m.toList.map Prod.snd

theorem mem_inOrder {a : α} : a ∈ inOrder m ↔ ∃ k : String, m[k]? = some a := by
  rw [inOrder, List.mem_map]
  constructor
  · rintro ⟨⟨k, _⟩, hmem, rfl⟩
    exact ⟨k, mem_toList.mp hmem⟩
  · rintro ⟨k, hk⟩
    exact ⟨(k, a), mem_toList.mpr hk, rfl⟩

theorem nodup_fst_toList (m : StringMap α) : (m.toList.map Prod.fst).Nodup := by
  refine List.pairwise_map.mpr (Std.ExtTreeMap.distinct_keys_toList.imp fun h heq => h ?_)
  rw [heq, Std.LawfulEqCmp.compare_eq_iff_eq]

end StringMap

namespace StringSet

variable {s : StringSet} {k a : String} {l : List String}

theorem mem_insert : a ∈ s.insert k ↔ k = a ∨ a ∈ s := by
  rw [Std.ExtTreeSet.mem_insert, Std.LawfulEqCmp.compare_eq_iff_eq]

/-- The set with the texts of a list added. -/
def addAll (s : StringSet) (l : List String) : StringSet := l.foldl (·.insert ·) s

theorem mem_addAll : a ∈ s.addAll l ↔ a ∈ s ∨ a ∈ l := by
  induction l generalizing s with
  | nil => simp [addAll]
  | cons b l ih =>
    have hstep : s.addAll (b :: l) = StringSet.addAll (s.insert b) l := rfl
    rw [hstep, ih, mem_insert, List.mem_cons]
    tauto

theorem addAll_append (s : StringSet) (l l' : List String) :
    s.addAll (l ++ l') = StringSet.addAll (s.addAll l) l' :=
  List.foldl_append

/-- Texts that are not in the set and differ from each other. -/
def Fresh (s : StringSet) (l : List String) : Prop := l.Nodup ∧ ∀ a ∈ l, a ∉ s

theorem fresh_cons : s.Fresh (a :: l) ↔ a ∉ s ∧ StringSet.Fresh (s.insert a) l := by
  simp only [Fresh, List.nodup_cons, List.forall_mem_cons, mem_insert, not_or]
  constructor
  · rintro ⟨⟨hnot, hnodup⟩, ha, hnew⟩
    exact ⟨ha, hnodup, fun b hb => ⟨fun heq => hnot (heq ▸ hb), hnew b hb⟩⟩
  · rintro ⟨ha, hnodup, hnew⟩
    exact ⟨⟨fun hmem => (hnew a hmem).1 rfl, hnodup⟩, ha, fun b hb => (hnew b hb).2⟩

theorem fresh_empty : StringSet.Fresh ∅ l ↔ l.Nodup :=
  and_iff_left fun _ _ => Std.ExtTreeSet.not_mem_empty

theorem nodup_toList (s : StringSet) : s.toList.Nodup := by
  refine Std.ExtTreeSet.distinct_toList.imp fun h heq => h ?_
  rw [heq, Std.LawfulEqCmp.compare_eq_iff_eq]

end StringSet

end Watershed
