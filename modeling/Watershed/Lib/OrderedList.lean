/-
  Lists kept in strictly increasing order of a key.

  Two such lists with the same members are equal, so an operation on a kept list is right as
  soon as it keeps the order and has the right members. The partition point of a key in the
  list is where an insertion belongs, also in a list that was filtered and mapped from it.
-/
import Mathlib.Data.List.Sort
import Mathlib.Data.List.Infix
import Mathlib.Data.List.Pairwise
import Mathlib.Data.List.TakeWhile
import Mathlib.Data.Prod.Lex

open List

namespace Watershed

/-- A lookup by a key that no two elements share. -/
theorem find?_key {α κ : Type} [DecidableEq κ] {key : α → κ} {l : List α} {a : α}
    (h : (l.map key).Nodup) (ha : a ∈ l) : (l.find? fun b => key b = key a) = some a := by
  have hsome : (l.find? fun b => key b = key a).isSome :=
    List.find?_isSome.mpr ⟨a, ha, decide_eq_true rfl⟩
  obtain ⟨b, hb⟩ := Option.isSome_iff_exists.mp hsome
  rw [hb, inj_on_of_nodup_map h (mem_of_find?_eq_some hb) ha (by simpa using List.find?_some hb)]

variable {α β κ : Type} [LinearOrder κ] {key : α → κ} {a b : α}

section
variable {p : α → Bool} {l l' : List α}

/-- A predicate that an element has only if those before it have it. -/
theorem takeWhile_eq_filter (h : l.Pairwise fun a b => p b = true → p a = true) :
    l.takeWhile p = l.filter p ∧ l.dropWhile p = l.filter fun a => !p a := by
  induction l with
  | nil => exact ⟨rfl, rfl⟩
  | cons a l ih =>
    obtain ⟨ha, hl⟩ := pairwise_cons.mp h
    by_cases hp : p a = true
    · simp [hp, ih hl]
    · have hrest : ∀ b ∈ l, p b = false := fun b hb =>
        Bool.eq_false_iff.mpr fun hpb => hp (ha b hb hpb)
      have hnil : l.filter p = [] := filter_eq_nil_iff.mpr (by simpa using hrest)
      have hself : l.filter (fun a => !p a) = l := filter_eq_self.mpr (by simpa using hrest)
      simp [hp, hnil, hself]

/-- A predicate that holds up to a place and not from there on. -/
theorem takeWhile_append_eq (h : ∀ a ∈ l, p a = true) (h' : ∀ a ∈ l', p a = false) :
    (l ++ l').takeWhile p = l ∧ (l ++ l').dropWhile p = l' := by
  rw [takeWhile_append_of_pos h, dropWhile_append_of_pos h]
  cases l' with
  | nil => simp
  | cons a l' => simp [h' a mem_cons_self]

end

/-- In strictly increasing order of `key`. -/
def Ordered (key : α → κ) (l : List α) : Prop := l.Pairwise fun a b => key a < key b

/-- `a` put in front of the first element that is not before it. -/
def insertBy (key : α → κ) (a : α) (l : List α) : List α :=
  l.takeWhile (fun b => key b < key a) ++ a :: l.dropWhile (fun b => key b < key a)

namespace Ordered

theorem ext {l l' : List α} (h : Ordered key l) (h' : Ordered key l')
    (hm : ∀ a, a ∈ l ↔ a ∈ l') : l = l' := by
  exact List.Pairwise.eq_of_mem_iff h h' hm

variable {l : List α}
variable {a b : α} {before : β → Bool}

variable (h : Ordered key l)
include h

theorem nodup_keys : (l.map key).Nodup := pairwise_map.mpr (h.imp ne_of_lt)

/-- Before the partition point of `k` lie exactly the elements with a smaller key. -/
theorem mem_takeWhile (k : κ) : b ∈ l.takeWhile (fun b => key b < k) ↔ b ∈ l ∧ key b < k := by
  rw [(takeWhile_eq_filter (h.imp fun hab hb => ?_)).1, mem_filter, decide_eq_true_eq]
  exact decide_eq_true (hab.trans (of_decide_eq_true hb))

/-- From the partition point of `k` on lie exactly the other elements. -/
theorem mem_dropWhile (k : κ) : b ∈ l.dropWhile (fun b => key b < k) ↔ b ∈ l ∧ ¬ key b < k := by
  rw [(takeWhile_eq_filter (h.imp fun hab hb => ?_)).2, mem_filter, Bool.not_eq_true',
    decide_eq_false_iff_not]
  exact decide_eq_true (hab.trans (of_decide_eq_true hb))

theorem insertBy (ha : ∀ b ∈ l, key b ≠ key a) : Ordered key (insertBy key a l) := by
  have hd : ∀ b ∈ l.dropWhile (fun b => key b < key a), key a < key b := by
    intro b hb
    obtain ⟨hb, hk⟩ := (h.mem_dropWhile _).mp hb
    exact lt_of_le_of_ne (not_lt.mp hk) (ha b hb).symm
  refine pairwise_append.mpr ⟨h.sublist (takeWhile_sublist _),
    pairwise_cons.mpr ⟨hd, h.sublist (dropWhile_sublist _)⟩, ?_⟩
  intro b hb c hc
  have hba := ((h.mem_takeWhile _).mp hb).2
  rcases mem_cons.mp hc with rfl | hc
  · exact hba
  · exact hba.trans (hd c hc)

theorem filter (p : α → Bool) : Ordered key (l.filter p) := List.Pairwise.filter _ h

/-- Mapping elements without changing their keys keeps the order. -/
theorem map {f : α → β} {key' : β → κ}
    (hf : ∀ a ∈ l, key' (f a) = key a) : Ordered key' (l.map f) := by
  refine pairwise_map.mpr (List.Pairwise.imp_of_mem ?_ h)
  intro a b ha hb hab
  rw [hf a ha, hf b hb]
  exact hab

/-- The partition point of a filtered and mapped list, when `before` says of an image what
    `< k` says of the element it comes from. -/
theorem takeWhile_filterMap (f : α → Option β) (k : κ)
    (hb : ∀ a ∈ l, ∀ b, f a = some b → before b = decide (key a < k)) :
    (l.filterMap f).takeWhile before = (l.takeWhile (fun a => key a < k)).filterMap f ∧
      (l.filterMap f).dropWhile before = (l.dropWhile (fun a => key a < k)).filterMap f := by
  have hall : ∀ b ∈ (l.takeWhile (fun a => key a < k)).filterMap f, before b = true := by
    intro b hbm
    obtain ⟨a, ha, hfa⟩ := mem_filterMap.mp hbm
    obtain ⟨ha, hk⟩ := (h.mem_takeWhile k).mp ha
    simpa [hk] using hb a ha b hfa
  have hnone : ∀ b ∈ (l.dropWhile (fun a => key a < k)).filterMap f, before b = false := by
    intro b hbm
    obtain ⟨a, ha, hfa⟩ := mem_filterMap.mp hbm
    obtain ⟨ha, hk⟩ := (h.mem_dropWhile k).mp ha
    simpa [hk] using hb a ha b hfa
  have hsplit : l.filterMap f = (l.takeWhile (fun a => key a < k)).filterMap f ++
      (l.dropWhile (fun a => key a < k)).filterMap f := by
    rw [← filterMap_append, takeWhile_append_dropWhile]
  rw [hsplit]
  exact takeWhile_append_eq hall hnone

/-- Inserting before filtering and mapping is inserting the image at its partition point. -/
theorem filterMap_insertBy (f : α → Option β) {b : β} (hab : f a = some b)
    (hb : ∀ a' ∈ l, ∀ b, f a' = some b → before b = decide (key a' < key a)) :
    (Watershed.insertBy key a l).filterMap f =
      (l.filterMap f).takeWhile before ++ b :: (l.filterMap f).dropWhile before := by
  obtain ⟨ht, hd⟩ := h.takeWhile_filterMap f (key a) hb
  rw [ht, hd, Watershed.insertBy, filterMap_append, filterMap_cons_some hab]

/-- Inserting before mapping is inserting the image at its partition point. -/
theorem map_insertBy (f : α → β) (a : α) (before : β → Bool)
    (hb : ∀ a' ∈ l, before (f a') = decide (key a' < key a)) :
    (Watershed.insertBy key a l).map f =
      (l.map f).takeWhile before ++ f a :: (l.map f).dropWhile before := by
  have hb' : ∀ a' ∈ l, ∀ b, some (f a') = some b → before b = decide (key a' < key a) := by
    rintro a' ha' b ⟨⟩
    exact hb a' ha'
  have := h.filterMap_insertBy (fun a => some (f a)) rfl hb'
  simpa only [filterMap_eq_map'] using this


omit h
end Ordered

theorem mem_insertBy {l : List α} : b ∈ insertBy key a l ↔ b = a ∨ b ∈ l := by
  have : b ∈ l ↔ b ∈ l.takeWhile (fun b => key b < key a) ∨
      b ∈ l.dropWhile (fun b => key b < key a) := by
    rw [← mem_append, takeWhile_append_dropWhile]
  rw [insertBy, mem_append, mem_cons]
  tauto

/-! ## Positions in a list -/

theorem insertIdx_takeWhile (p : α → Bool) (x : α) (l : List α) :
    l.insertIdx (l.takeWhile p).length x = l.takeWhile p ++ x :: l.dropWhile p := by
  induction l with
  | nil => rfl
  | cons a l ih =>
    by_cases ha : p a
    · rw [takeWhile_cons_of_pos ha, dropWhile_cons_of_pos ha, length_cons,
        insertIdx_succ_cons, ih, cons_append]
    · rw [takeWhile_cons_of_neg ha, dropWhile_cons_of_neg ha]
      rfl

/-- At most one element satisfies `p`. -/
def Unique (p : α → Bool) (l : List α) : Prop := l.Pairwise fun a b => ¬ (p a = true ∧ p b = true)

variable {p : α → Bool} {i : Nat} {k : κ}

theorem Unique.eq {l : List α} (h : Unique p l) (ha : a ∈ l) (hb : b ∈ l)
    (hpa : p a = true) (hpb : p b = true) : a = b := by
  have : Std.Symm fun a b => ¬ (p a = true ∧ p b = true) := ⟨fun _ _ h hba => h hba.symm⟩
  by_contra hne
  exact Pairwise.forall h ha hb hne ⟨hpa, hpb⟩

/-- Erasing the first element that satisfies `p`, if it is the only one. -/
theorem Unique.erase_findIdx? {l : List α} (h : Unique p l) :
    ((l.findIdx? p).elim l fun i => l.eraseIdx i) = l.filter fun a => !p a := by
  induction l with
  | nil => rfl
  | cons a l ih =>
    have hl := pairwise_cons.mp h
    by_cases ha : p a
    · have hrest : l.filter (fun a => !p a) = l := by
        refine filter_eq_self.mpr fun b hb => ?_
        have := hl.1 b hb
        simp_all
      simp [List.findIdx?_cons, ha, hrest]
    · have ih := ih hl.2
      rw [filter_cons_of_pos (by simpa using ha), ← ih, List.findIdx?_cons]
      simp only [ha]
      cases l.findIdx? p <;> rfl

/-- Modifying the first element that satisfies `p`, if it is the only one. -/
theorem Unique.modify_findIdx? {l : List α} (h : Unique p l) (f : α → α) :
    ((l.findIdx? p).elim l fun i => l.modify i f) = l.map fun a => if p a then f a else a := by
  induction l with
  | nil => rfl
  | cons a l ih =>
    have hl := pairwise_cons.mp h
    by_cases ha : p a
    · have hrest : l.map (fun a => if p a then f a else a) = l := by
        refine (map_congr_left fun b hb => ?_).trans (map_id l)
        simp_all
      simp [List.findIdx?_cons, ha, hrest]
    · have ih := ih hl.2
      rw [map_cons, ← ih, List.findIdx?_cons]
      simp only [ha]
      cases l.findIdx? p <;> rfl

/-- Two lists with equal images have equal images under maps that follow the first ones. -/
theorem map_eq_map_imp {γ δ : Type} {f : α → γ} {g : β → γ} {f' : α → δ} {g' : β → δ} :
    ∀ {l : List α} {l' : List β}, l.map f = l'.map g →
      (∀ a ∈ l, ∀ b ∈ l', f a = g b → f' a = g' b) → l.map f' = l'.map g'
  | [], [], _, _ => rfl
  | a :: l, b :: l', h, himp => by
    rw [map_cons, map_cons, List.cons.injEq] at h
    rw [map_cons, map_cons, himp a (by simp) b (by simp) h.1,
      map_eq_map_imp h.2 fun a ha b hb => himp a (by simp [ha]) b (by simp [hb])]
  | [], _ :: _, h, _ => by simp at h
  | _ :: _, [], h, _ => by simp at h

/-- Around a gap at `i` everything before is smaller and everything after is larger. -/
theorem Ordered.gap {l : List α} (h : Ordered key l)
    (hb : ∀ a, i ≠ 0 → l[i - 1]? = some a → key a < k) (ha : ∀ a, l[i]? = some a → k < key a)
    (hi : i ≤ l.length) : (∀ a ∈ l.take i, key a < k) ∧ ∀ a ∈ l.drop i, k < key a := by
  have hp := pairwise_iff_getElem.mp h
  constructor
  · intro a hm
    obtain ⟨j, hj, rfl⟩ := mem_iff_getElem.mp hm
    rw [length_take] at hj
    rw [getElem_take]
    have hlast := hb l[i - 1] (by omega) (List.getElem?_eq_getElem (by omega))
    rcases Nat.lt_or_ge j (i - 1) with hlt | hge
    · exact (hp j (i - 1) (by omega) (by omega) hlt).trans hlast
    · obtain rfl : j = i - 1 := by omega
      exact hlast
  · intro a hm
    obtain ⟨j, hj, rfl⟩ := mem_iff_getElem.mp hm
    rw [length_drop] at hj
    rw [getElem_drop]
    have hfirst := ha l[i] (List.getElem?_eq_getElem (by omega))
    rcases Nat.eq_zero_or_pos j with rfl | hpos
    · exact hfirst
    · exact hfirst.trans (hp i (i + j) (by omega) (by omega) (by omega))

/-- Putting an element into its gap keeps the order. -/
theorem Ordered.insert_gap {l : List α} (h : Ordered key l) {a : α}
    (hb : ∀ b ∈ l.take i, key b < key a) (ha : ∀ b ∈ l.drop i, key a < key b) :
    Ordered key (l.take i ++ a :: l.drop i) := by
  refine pairwise_append.mpr ⟨List.Pairwise.take h, pairwise_cons.mpr
    ⟨ha, List.Pairwise.drop h⟩, fun b hb' c hc => ?_⟩
  rcases mem_cons.mp hc with rfl | hc
  · exact hb b hb'
  · exact (hb b hb').trans (ha c hc)

/-- The partition point of a key with a second component is the gap of the key. -/
theorem takeWhile_lex {ι : Type} [LinearOrder ι] (id : α → ι) (n : ι) {l : List α}
    (hb : ∀ a ∈ l.take i, key a < k) (ha : ∀ a ∈ l.drop i, k < key a) :
    l.takeWhile (fun a => decide (toLex (key a, id a) < toLex (k, n))) = l.take i ∧
      l.dropWhile (fun a => decide (toLex (key a, id a) < toLex (k, n))) = l.drop i := by
  have h := takeWhile_append_eq (p := fun a => decide (toLex (key a, id a) < toLex (k, n)))
    (fun a hm => decide_eq_true (Prod.Lex.toLex_lt_toLex.mpr (.inl (hb a hm))))
    fun a hm => decide_eq_false (Prod.Lex.toLex_lt_toLex.mpr (.inl (ha a hm))).not_gt
  rwa [take_append_drop] at h

/-- In a list of lists without repetition, every element is in exactly one of them. -/
theorem exists_unique_of_nodup_flatMap {l : List α} {f : α → List β}
    (hnd : (l.flatMap f).Nodup) {b : β} (hb : b ∈ l.flatMap f) :
    ∃! i : Nat, ∃ a, l[i]? = some a ∧ b ∈ f a := by
  obtain ⟨a, ha, hab⟩ := mem_flatMap.mp hb
  obtain ⟨i, hi⟩ := mem_iff_getElem?.mp ha
  refine ⟨i, ⟨a, hi, hab⟩, ?_⟩
  intro j ⟨a', hj, hab'⟩
  have hdisjoint := pairwise_iff_getElem.mp (nodup_flatMap.mp hnd).2
  obtain ⟨hil, rfl⟩ := List.getElem?_eq_some_iff.mp hi
  obtain ⟨hjl, rfl⟩ := List.getElem?_eq_some_iff.mp hj
  rcases Nat.lt_trichotomy j i with hlt | heq | hgt
  · exact absurd hab (hdisjoint j i hjl hil hlt hab')
  · exact heq
  · exact absurd hab' (hdisjoint i j hil hjl hgt hab)

end Watershed
