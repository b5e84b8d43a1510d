/-
  Runs of Page steps.

  What one step does to the View order, to a row index and to the names in use extends to any
  sequence of steps. New identities come from the random source; as long as its draws are
  distinct and unused, every later draw stays unused (`Fresh.run`).
-/
import Watershed.Liquid.PageOrder
import Watershed.Liquid.PageIndex

open List

namespace Watershed.Liquid

open State

variable {s t : State} {μs νs : List PageStep} {μ : PageStep}

/-- The steps `μs`, each taken when its guard holds, lead from `s` to `t`. -/
def PageRun : State → List PageStep → State → Prop
  | s, [], t => t = s
  | s, μ :: μs, t => μ.Guard s ∧ PageRun (μ.apply s) μs t

namespace PageRun

theorem single (h : μ.Guard s) (ht : t = μ.apply s) : PageRun s [μ] t := ⟨h, ht⟩

theorem append {u : State} : ∀ {s : State} {μs : List PageStep}, PageRun s μs t →
    PageRun t νs u → PageRun s (μs ++ νs) u
  | _, [], h, h' => by cases h; exact h'
  | _, _ :: _, h, h' => ⟨h.1, append h.2 h'⟩

/-- The order read after a run is what the steps make of the order before it. -/
theorem read_order : ∀ {s : State} {μs : List PageStep}, PageRun s μs t →
    Order.read t = μs.foldl (fun o μ => μ.onOrder o) (Order.read s)
  | _, [], h => by cases h; rfl
  | _, μ :: _, h => by
    rw [foldl_cons, ← Order.read_apply h.1]
    exact read_order h.2

/-- An index that is right stays right when it follows the run. -/
theorem indexOk {b : BlockId} : ∀ {s : State} {μs : List PageStep} {ix : Index},
    IndexOk s b ix → PageRun s μs t → IndexOk t b (μs.foldl (fun ix μ => μ.onIndex b ix) ix)
  | _, [], _, hix, h => by cases h; exact hix
  | _, _ :: _, _, hix, h => by
    rw [foldl_cons]
    exact indexOk (hix.apply h.1) h.2

/-- A run changes nothing outside the Blocks and Views of its steps. -/
theorem sameUnder {p : Path} (hp : p.length = 2) : ∀ {s : State} {μs : List PageStep},
    PageRun s μs t → (∀ μ ∈ μs, μ.footprint ≠ p) → SameUnder p t s
  | _, [], h, _ => by cases h; exact SameUnder.refl _ _
  | s, μ :: _, h, hne =>
    (sameUnder hp h.2 (forall_mem_cons.mp hne).2).trans
      (μ.sameUnder_of_ne s hp (hne μ mem_cons_self).symm)

theorem node_top (k : String) : ∀ {s : State} {μs : List PageStep}, PageRun s μs t →
    t.node [k] = s.node [k]
  | _, [], h => by cases h; rfl
  | s, μ :: _, h => (node_top k h.2).trans (μ.node_apply_top s k)

end PageRun

/-! ## Names -/

/-- The keys of the Page schema. -/
def schema : List String :=
  ["blocks", "views", "kind", "style", "text", "name", "fields", "rows", "cells", "options",
    "color", "sort", "deleted", "block", "boundary"]

/-- Identities are longer than any key of the schema. -/
theorem hex_not_mem_schema (bytes : RandomBytes) : hex bytes ∉ schema := by
  intro h
  have hlen : ∀ x ∈ schema, x.length ≠ 32 := by decide
  exact hlen _ h (length_hex bytes)

variable {p q : Path} {x k id : String} {fields : List (String × String)} {n : Option Node}
  {m : Path}

theorem mem_names_of_isMap (h : s.isMap p = true) (hx : x ∈ p) : x ∈ Names s :=
  .inl ⟨p, isSome_of_isMap h, hx⟩

/-- The paths of the objects of `s` have only names of `T`. -/
def State.Within (T : Set String) (s : State) : Prop :=
  ∀ q, (s.node q).isSome = true → ∀ x ∈ q, x ∈ T

section
variable {T : Set String} (h : s.Within T)
include h

theorem State.Within.set (hk : k ∈ T) (hp : ∀ x ∈ p, x ∈ T) : (s.set k p n).Within T := by
  intro q hq
  by_cases he : q = k :: p
  · exact he ▸ forall_mem_cons.mpr ⟨hk, hp⟩
  by_cases hs : k :: p <:+ q
  · rw [node_set_below _ _ _ _ hs he] at hq
    cases hq
  · rw [node_set_frame _ _ _ _ hs] at hq
    exact h q hq

theorem State.Within.setFields (hp : ∀ x ∈ p, x ∈ T) (hf : ∀ k ∈ fields.map Prod.fst, k ∈ T) :
    (s.setFields p fields).Within T := by
  induction fields generalizing s with
  | nil => exact h
  | cons x fields ih =>
    obtain ⟨hx, hf⟩ := forall_mem_cons.mp hf
    exact ih (h.set hx hp) hf

/-- A new entry uses the path to its map, its identity and its field names. -/
theorem State.Within.insertEntry (hp : ∀ x ∈ id :: m, x ∈ T)
    (hf : ∀ k ∈ "deleted" :: fields.map Prod.fst, k ∈ T) : (s.insertEntry m id fields).Within T := by
  obtain ⟨hid, hm⟩ := forall_mem_cons.mp hp
  obtain ⟨hdeleted, hf⟩ := forall_mem_cons.mp hf
  exact ((h.set hid hm).setFields hp hf).set hdeleted hp

end

namespace PageStep

variable {μ : PageStep}

/-- The paths of the objects after a step. -/
theorem within_apply (h : μ.Guard s) :
    (μ.apply s).Within {x | x ∈ Names s ∨ x ∈ μ.ids ∨ x ∈ schema} := by
  have hs : s.Within {x | x ∈ Names s ∨ x ∈ μ.ids ∨ x ∈ schema} := fun q hq x hx =>
    .inl (.inl ⟨q, hq, hx⟩)
  have hmap : ∀ {p : Path}, s.isMap p = true → ∀ x ∈ p, x ∈ Names s ∨ x ∈ μ.ids ∨ x ∈ schema :=
    fun hp x hx => .inl (mem_names_of_isMap hp hx)
  have hkey : ∀ {k : String}, k ∈ schema → k ∈ Names s ∨ k ∈ μ.ids ∨ k ∈ schema :=
    fun hk => .inr (.inr hk)
  -- the path to a new entry
  have hnew : ∀ {m : Path} {id : String}, id ∈ μ.ids → s.isMap m = true →
      ∀ x ∈ id :: m, x ∈ Names s ∨ x ∈ μ.ids ∨ x ∈ schema :=
    fun hid hm => forall_mem_cons.mpr ⟨.inr (.inl hid), hmap hm⟩
  cases μ
  case text b cs => exact hs.set (hkey (by simp [schema])) (hmap h.1.entry)
  case style | boundary | removeView | databaseName | removeRow =>
    exact hs.set (hkey (by simp [schema])) (hmap h.entry)
  case removeBlock b =>
    obtain ⟨p, hp⟩ := Option.isSome_iff_exists.mp h.1
    exact hs.set (hkey (by simp [schema])) (hmap (live_eq_some.mp hp).2.2.1)
  case fieldName | removeField =>
    obtain ⟨kind, h⟩ := h
    exact hs.set (hkey (by simp [schema])) (hmap h.entry)
  case putCell b r f v cell =>
    obtain ⟨-, hc, kind, hf, -⟩ := h
    exact hs.set (hmap hf.entry _ (by simp)) (hmap hc)
  case clearCell b r f =>
    obtain ⟨-, hc, kind, hf⟩ := h
    exact hs.set (hmap hf.entry _ (by simp)) (hmap hc)
  case newText b name cs =>
    have hb := hnew mem_cons_self h.2
    exact (hs.insertEntry hb (by simp [schema])).set (hkey (by simp [schema])) hb
  case newView after v b sort kind =>
    have hv := hnew mem_cons_self h.2.1
    exact (hs.insertEntry hv (by simp [schema])).set (hkey (by simp [schema])) hv
  case newField | newRow =>
    have hid := hnew mem_cons_self h.2.1
    exact (hs.insertEntry hid (by simp [schema])).set (hkey (by simp [schema])) hid
  case newOption b f o name color sort =>
    exact hs.insertEntry (hnew mem_cons_self h.2.1) (by simp [schema])
  case newDatabase b name f sort =>
    -- the Block's entry, then its two maps, then its first field
    have hb := hnew mem_cons_self h.2.2
    have hf : ∀ x ∈ fieldPath b f, x ∈ Names s ∨ x ∈ [b.asStr, f.asStr] ∨ x ∈ schema :=
      forall_mem_cons.mpr ⟨by simp, forall_mem_cons.mpr ⟨by simp [schema], hb⟩⟩
    refine ((((hs.insertEntry hb ?_).set ?_ hb).set ?_ hb).insertEntry hf ?_).set ?_ hf <;>
      simp [schema]

theorem names_apply (h : μ.Guard s) (hx : x ∈ Names (μ.apply s)) :
    x ∈ Names s ∨ x ∈ μ.ids ∨ x ∈ schema := by
  rcases hx with ⟨q, hq, hx⟩ | ⟨v, hx⟩
  · exact within_apply h q hq x hx
  · -- only a new View writes a reference to a Block
    have hsame : ¬ μ.part <:+ ["block", v, "views"] → x ∈ Names s := by
      intro hp
      rw [fieldOfNode, μ.node_apply s hp] at hx
      exact .inr ⟨v, hx⟩
    cases μ
    case newView after v' b sort kind =>
      by_cases hv : v' = ⟨v⟩
      · subst hv
        have hb : b.asStr = x := by
          simpa [fieldOfNode, apply, State.insertEntry, State.setFields, State.set,
            suffix_cons_iff, fieldText] using hx
        subst hb
        have := (Order.blockKinds_eq_some.mp h.2.2.1).2.1
        exact .inl (.inl ⟨blockPath b, by rw [this]; rfl, by simp⟩)
      · refine .inl (hsame fun hp => hv ?_)
        cases v'
        simpa [part, suffix_cons_iff] using hp
    all_goals exact .inl (hsame (by simp [part, suffix_cons_iff]))

end PageStep

/-! ## Fresh identities -/

/-- No draw from `n` on gives a name that `s` uses. -/
def Fresh (random : Random) (n : Nat) (s : State) : Prop :=
  ∀ i bytes, n ≤ i → random i = some bytes → hex bytes ∉ Names s

/-- No two draws give the same bytes. -/
def Distinct (random : Random) : Prop :=
  ∀ i j bytes, random i = some bytes → random j = some bytes → i = j

/-- `x` is an identity drawn before `m`. -/
def Drawn (random : Random) (m : Nat) (x : String) : Prop :=
  ∃ i bytes, i < m ∧ random i = some bytes ∧ x = hex bytes

theorem Drawn.mono {random : Random} {m m' : Nat} (h : Drawn random m x)
    (hm : m ≤ m') : Drawn random m' x := by
  obtain ⟨i, bytes, h1, h2⟩ := h
  exact ⟨i, bytes, h1.trans_le hm, h2⟩

namespace Fresh

variable {random : Random} {n m : Nat}

theorem mono (h : Fresh random n s) (hm : n ≤ m) : Fresh random m s :=
  fun i bytes hi hr => h i bytes (hm.trans hi) hr

theorem apply (hd : Distinct random) (h : Fresh random m s) (hg : μ.Guard s)
    (hids : ∀ x ∈ μ.ids, Drawn random m x) : Fresh random m (μ.apply s) := by
  intro i bytes hi hr hx
  rcases PageStep.names_apply hg hx with hx | hx | hx
  · exact h i bytes hi hr hx
  · obtain ⟨j, bytes', hj, hr', he⟩ := hids _ hx
    have := hd i j bytes hr (by rwa [hex_inj he])
    omega
  · exact hex_not_mem_schema bytes hx

/-- The draws still to come stay unused through a run. -/
theorem run (hd : Distinct random) : ∀ {s : State} {μs : List PageStep}, Fresh random m s →
    PageRun s μs t → (∀ μ ∈ μs, ∀ x ∈ μ.ids, Drawn random m x) → Fresh random m t
  | _, [], h, hrun, _ => by cases hrun; exact h
  | _, μ :: _, h, hrun, hids =>
    run hd (h.apply hd hrun.1 (hids μ mem_cons_self)) hrun.2 (forall_mem_cons.mp hids).2

end Fresh

end Watershed.Liquid
