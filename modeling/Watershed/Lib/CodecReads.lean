/-
  What reading tells about the value that is read.

  A reader also takes values that are not spelled as the writer spells them. Still, all numbers of
  a value that is read are those of the type, and a change of texts that leaves the value alone
  leaves alone what is read from it.
-/
import Watershed.Lib.CodecLaws

open List Option

namespace Watershed

open Json

variable {N α β : Type}

/-- Whether a change of texts leaves all strings and keys of a value alone. -/
def Json.Keeps (f : String → String) (v : Json N) : Prop :=
  v.all (fun text => f text = text) (fun key => f key = key) (fun _ => true) = true

def Json.Numbers (number : N → Bool) (v : Json N) : Prop :=
  v.numbersAll number = true

structure Codec.Reads (number : N → Bool) (c : Codec N α) : Prop where
  numbers : ∀ v a, v.sorted = true → c.decode v = some a → v.Numbers number
  texts : ∀ f v a, c.decode v = some a → v.Keeps f → c.map f f a = a

structure Fields.Reads (number : N → Bool) (f : Fields N α) : Prop where
  numbers : ∀ get a, Sorted get → f.decode get = some a →
    ∀ k ∈ f.keys, ∀ v, get k = some v → v.Numbers number
  texts : ∀ t get a, f.decode get = some a → (∀ k v, get k = some v → v.Keeps t) → f.map t t a = a

variable {number : N → Bool} {f : Fields N α} {c : Codec N α} {x : String × α} {l : List (String × α)}

/-! ## Lists and maps -/

/-- What is read item by item. -/
theorem mem_of_mapM {f : α → Option β} {l : List α} {bs : List β} (h : l.mapM f = some bs) :
    (∀ a ∈ l, ∃ b, f a = some b) ∧ ∀ b ∈ bs, ∃ a ∈ l, f a = some b := by
  induction mapM_eq_some.mp h with
  | nil => simp
  | @cons a b l bs hhead htail ih =>
    obtain ⟨hleft, hright⟩ := ih (mapM_eq_some.mpr htail)
    refine ⟨forall_mem_cons.mpr ⟨⟨b, hhead⟩, hleft⟩, forall_mem_cons.mpr ⟨?_, ?_⟩⟩
    · exact ⟨a, mem_cons_self, hhead⟩
    · intro b hb
      obtain ⟨a, ha, hread⟩ := hright b hb
      exact ⟨a, mem_cons_of_mem _ ha, hread⟩

theorem TextMap.mem_lastOfEach : x ∈ lastOfEach l → x ∈ l := by
  fun_induction lastOfEach l with
  | case1 => exact id
  | case2 y l hany ih => exact fun h => mem_cons_of_mem _ (ih h)
  | case3 y l hany ih =>
    rw [mem_cons, mem_cons]
    exact fun h => h.imp_right ih

theorem TextMap.mem_of_mem_collect (h : x ∈ (collect l).entries) : x ∈ l :=
  mem_lastOfEach ((perm_insertionSort _ _).mem_iff.mp h)

/-- A change that leaves all entries of a map alone. -/
theorem TextMap.map_eq_self {g : String → String} {f : α → α} {m : TextMap α}
    (h : ∀ x ∈ m.entries, g x.1 = x.1 ∧ f x.2 = x.2) : m.map g f = m := by
  have hentries : (m.entries.map fun x => (g x.1, f x.2)) = m.entries := by
    refine (map_congr_left fun x hx => ?_).trans (map_id m.entries)
    exact Prod.ext (h x hx).1 (h x hx).2
  rw [TextMap.map, hentries, TextMap.collect_entries]

namespace Codec

theorem string_reads : (string : Codec N String).Reads number where
  numbers v a _ h := by
    cases v with
    | string s => rfl
    | _ => cases h
  texts f v a h hkeeps := by
    cases v with
    | string s =>
      cases h
      exact of_decide_eq_true hkeeps
    | _ => cases h

theorem number_reads {toNumber : α → N} {ofNumber : N → Option α}
    (hof : ∀ n a, ofNumber n = some a → number n = true) :
    (Codec.number toNumber ofNumber).Reads number where
  numbers v a _ h := by
    cases v with
    | number n => exact hof n a h
    | _ => cases h
  texts _ _ _ _ _ := rfl

theorem unit_reads {variants : List α} {name : α → String} {isEmpty : Json N → Bool}
    (hempty : ∀ v, isEmpty v = true → v.Numbers number) :
    (unit variants name isEmpty).Reads number where
  numbers v a _ h := by
    match v with
    | .string s => rfl
    | .object [(s, v)] =>
      have hv := hempty v (ite_none_right_eq_some.mp h).1
      exact allFields_iff.mpr (forall_mem_singleton.mpr ⟨rfl, hv⟩)
    | .object [] | .object (_ :: _ :: _) | .null | .bool _ | .number _ | .array _ => cases h
  texts _ _ _ _ _ := rfl

theorem list_reads (hc : c.Reads number) : (list c).Reads number where
  numbers v as hsorted h := by
    cases v with
    | array items =>
      refine allItems_iff.mpr fun v hv => ?_
      obtain ⟨a, ha⟩ := (mem_of_mapM h).1 v hv
      exact hc.numbers v a (sortedItems_iff.mp hsorted v hv) ha
    | _ => cases h
  texts f v as h hkeeps := by
    cases v with
    | array items =>
      refine (map_congr_left fun a ha => ?_).trans (map_id as)
      obtain ⟨v, hv, hread⟩ := (mem_of_mapM h).2 a ha
      exact hc.texts f v a hread (allItems_iff.mp hkeeps v hv)
    | _ => cases h

theorem textMap_reads (hc : c.Reads number) : (textMap c).Reads number where
  numbers v m hsorted h := by
    cases v with
    | object fields =>
      obtain ⟨entries, hread, -⟩ := map_eq_some_iff.mp h
      refine allFields_iff.mpr fun x hx => ⟨rfl, ?_⟩
      obtain ⟨entry, hentry⟩ := (mem_of_mapM hread).1 x hx
      obtain ⟨a, ha, -⟩ := map_eq_some_iff.mp hentry
      exact hc.numbers x.2 a ((sorted_object.mp hsorted).2 x hx) ha
    | _ => cases h
  texts f v m h hkeeps := by
    cases v with
    | object fields =>
      obtain ⟨entries, hread, rfl⟩ := map_eq_some_iff.mp h
      refine TextMap.map_eq_self fun entry hentry => ?_
      obtain ⟨x, hx, hfound⟩ := (mem_of_mapM hread).2 entry (TextMap.mem_of_mem_collect hentry)
      obtain ⟨a, ha, rfl⟩ := map_eq_some_iff.mp hfound
      obtain ⟨hkey, hvalue⟩ := allFields_iff.mp hkeeps x hx
      exact ⟨of_decide_eq_true hkey, hc.texts f x.2 a ha hvalue⟩
    | _ => cases h

/-- A record: its members, or its items under the keys in their order. -/
theorem record_reads (hf : f.Reads number) (hkeys : f.keys.Nodup) :
    (record f).Reads number where
  numbers v a hsorted h := by
    cases v with
    | object fields =>
      obtain ⟨hordered, hvalues⟩ := sorted_object.mp hsorted
      obtain ⟨hall, hread⟩ := ite_none_right_eq_some.mp h
      have hnodup : (fields.map Prod.fst).Nodup := hordered.imp fun h => ne_of_lt h
      refine allFields_iff.mpr fun x hx => ⟨rfl, ?_⟩
      exact hf.numbers _ a (sorted_get hvalues) hread x.1
        (of_decide_eq_true (all_eq_true.mp hall x hx)) x.2 (get_of_mem hnodup hx)
    | array items =>
      obtain ⟨hlength, hread⟩ := ite_none_right_eq_some.mp h
      have hvalues := sortedItems_iff.mp hsorted
      have hnodup : ((f.keys.zip items).map Prod.fst).Nodup := by
        rwa [map_fst_zip (by omega)]
      refine allItems_iff.mpr fun v hv => ?_
      have hitem : v ∈ (f.keys.zip items).map Prod.snd := by
        rwa [map_snd_zip (by omega)]
      obtain ⟨x, hx, rfl⟩ := mem_map.mp hitem
      refine hf.numbers _ a (sorted_get fun y hy => ?_) hread x.1 ?_ x.2 (get_of_mem hnodup hx)
      · exact hvalues y.2 (of_mem_zip hy).2
      · exact (of_mem_zip hx).1
    | _ => cases h
  texts t v a h hkeeps := by
    cases v with
    | object fields =>
      obtain ⟨-, hread⟩ := ite_none_right_eq_some.mp h
      refine hf.texts t _ a hread fun k v hget => ?_
      exact (allFields_iff.mp hkeeps _ (mem_of_get hget)).2
    | array items =>
      obtain ⟨-, hread⟩ := ite_none_right_eq_some.mp h
      refine hf.texts t _ a hread fun k v hget => ?_
      exact allItems_iff.mp hkeeps v (of_mem_zip (mem_of_get hget)).2
    | _ => cases h

end Codec

namespace Fields

theorem field_reads {key : String} (hc : c.Reads number) :
    (field key c).Reads number where
  numbers get a hsorted h k hk v hget := by
    obtain ⟨w, hw, hread⟩ := bind_eq_some_iff.mp h
    rw [mem_singleton.mp hk, hw] at hget
    cases hget
    exact hc.numbers v a (hsorted key v hw) hread
  texts t get a h hkeeps := by
    obtain ⟨w, hw, hread⟩ := bind_eq_some_iff.mp h
    exact hc.texts t w a hread (hkeeps key w hw)

theorem and_reads {g : Fields N β} (hf : f.Reads number) (hg : g.Reads number) :
    (f.and g).Reads number where
  numbers get a hsorted h k hk v hget := by
    obtain ⟨x, hx, h⟩ := bind_eq_some_iff.mp h
    obtain ⟨y, hy, -⟩ := bind_eq_some_iff.mp h
    rcases mem_append.mp hk with hk | hk
    · exact hf.numbers get x hsorted hx k hk v hget
    · exact hg.numbers get y hsorted hy k hk v hget
  texts t get a h hkeeps := by
    obtain ⟨x, hx, h⟩ := bind_eq_some_iff.mp h
    obtain ⟨y, hy, h⟩ := bind_eq_some_iff.mp h
    cases h
    exact Prod.ext (hf.texts t get x hx hkeeps) (hg.texts t get y hy hkeeps)

theorem iso_reads (hf : f.Reads number) (e : α ≃ β) : (f.iso e).Reads number where
  numbers get b hsorted h := by
    obtain ⟨a, ha, -⟩ := map_eq_some_iff.mp h
    exact hf.numbers get a hsorted ha
  texts t get b h hkeeps := by
    obtain ⟨a, ha, rfl⟩ := map_eq_some_iff.mp h
    show e (f.map t t (e.symm (e a))) = e a
    rw [e.symm_apply_apply, hf.texts t get a ha hkeeps]

end Fields

end Watershed
