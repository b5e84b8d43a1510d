/-
  The tree of an area's Pages (`model.rs`): what `pages` lists, for all parent pointers, also those
  that are dangling or cyclic.
-/
import Mathlib.Data.List.Nodup
import Mathlib.Logic.Relation
import Watershed.Liquid.Entries

open List

namespace Watershed.Liquid

open Children

/-- The forest below a list of nodes in pre-order: each one directly before its descendants. -/
inductive PreOrder {α : Type} (kids : α → List α) : List α → List α → Prop where
  | nil : PreOrder kids [] []
  | cons {a : α} {rest below after : List α} : PreOrder kids (kids a) below →
      PreOrder kids rest after → PreOrder kids (a :: rest) (a :: (below ++ after))

section
variable {α : Type} {kids : α → List α} {xs ys l : List α}

theorem PreOrder.split (h : PreOrder kids (xs ++ ys) l) :
    ∃ below after, l = below ++ after ∧ PreOrder kids xs below ∧ PreOrder kids ys after := by
  induction xs generalizing l with
  | nil => exact ⟨[], l, rfl, .nil, h⟩
  | cons x xs ih =>
    cases h with
    | cons hbelow hrest =>
      obtain ⟨below, after, rfl, hxs, hys⟩ := ih hrest
      exact ⟨_, after, by simp, .cons hbelow hxs, hys⟩

/-- A forest in pre-order holds all descendants of its roots. -/
theorem PreOrder.mem_iff (h : PreOrder kids xs l) {x : α} :
    x ∈ l ↔ ∃ root ∈ xs, Relation.ReflTransGen (fun a b => b ∈ kids a) root x := by
  induction h with
  | nil => simp
  | @cons a rest below after _ _ ihbelow ihafter =>
    rw [mem_cons, mem_append, ihbelow, ihafter]
    simp only [mem_cons, exists_eq_or_imp, Relation.ReflTransGen.cases_head_iff (a := a), or_assoc]
    rw [eq_comm]

end

/-! ## Filed Pages -/

/-- The Pages filed under a parent. -/
def Children.under (children : Children) (parent : Option String) : List PageEntry :=
  (children.remove parent).1.getD []

variable {children : Children} {p q : Option String} {entry : PageEntry}

theorem Children.under_cons (c : Option String × List PageEntry) :
    under (c :: children) q = if c.1 = q then c.2 else children.under q := by
  unfold under
  rw [remove]
  split <;> rfl

theorem Children.under_push :
    (children.push p entry).under q = children.under q ++ if p = q then [entry] else [] := by
  induction children with
  | nil =>
    rw [Children.push, under_cons]
    rfl
  | cons c rest ih =>
    rw [Children.push]
    by_cases hp : c.1 = p
    · rw [if_pos hp, under_cons, under_cons, ← hp]
      by_cases hq : c.1 = q <;> simp [hq]
    · rw [if_neg hp, under_cons, under_cons, ih]
      by_cases hq : c.1 = q
      · rw [if_pos hq, if_pos hq, if_neg (hq ▸ Ne.symm hp), append_nil]
      · rw [if_neg hq, if_neg hq]

/-- No parent is filed twice. -/
def Children.Distinct (children : Children) : Prop := children.Pairwise fun a b => a.1 ≠ b.1

theorem Children.mem_push {c : Option String × List PageEntry} (h : c ∈ children.push p entry) :
    c.1 = p ∨ ∃ d ∈ children, d.1 = c.1 := by
  fun_induction Children.push children p entry <;> grind

theorem Children.Distinct.push (h : children.Distinct) : (children.push p entry).Distinct := by
  unfold Children.Distinct at *
  fun_induction Children.push children p entry <;> grind [pairwise_cons, → Children.mem_push]

theorem Children.Distinct.remove (h : children.Distinct) (p : Option String) :
    (children.remove p).2.Distinct ∧
      ∀ q, (children.remove p).2.under q = if p = q then [] else children.under q := by
  unfold Children.Distinct at *
  have hnone (rest : Children) (h : ∀ c ∈ rest, c.1 ≠ p) : rest.under p = [] := by
    induction rest <;> grind [under, remove]
  have hmem (rest : Children) (c) (h : c ∈ (rest.remove p).2) : c ∈ rest := by
    induction rest <;> grind [remove]
  induction children with
  | nil => grind [remove]
  | cons c rest ih => grind [pairwise_cons, remove, under_cons]

/-! ## The traversal -/

def pageEntry (entry : Entry) : PageEntry :=
  ⟨.stored entry.id, (entry.get "parent").map .stored, (entry.get "title").getD ""⟩

/-- The live Pages with a parent pointer, or without one, by sort key and identity. -/
def childPages (s : State) (parent : Option String) : List PageEntry :=
  ((sorted s "pages").filter fun entry => entry.get "parent" = parent).map pageEntry

/-- What the Pages below a Page point to. -/
def PageEntry.key (e : PageEntry) : Option String := some e.id.asStr

theorem mem_childPages {s : State} : entry ∈ childPages s p ↔
    ∃ e ∈ sorted s "pages", e.get "parent" = p ∧ pageEntry e = entry := by
  simp [childPages, and_assoc]

variable {s : State} {done : List (Option String)} {e : PageEntry} {pending : List PageEntry}

theorem ids_sorted (s : State) : ((sorted s "pages").map Entry.id).Nodup := by
  unfold sorted
  split
  · exact pairwise_map.mpr (ids_sortedIn s _)
  · exact .nil

/-- A Page has one parent pointer. -/
theorem parent_unique {a b : PageEntry} (ha : a ∈ childPages s p) (hb : b ∈ childPages s q)
    (h : a.key = b.key) : p = q := by
  obtain ⟨e, he, rfl, rfl⟩ := mem_childPages.mp ha
  obtain ⟨e', he', rfl, rfl⟩ := mem_childPages.mp hb
  rw [inj_on_of_nodup_map (ids_sorted s) he he' (Option.some.inj h)]

theorem childPages_nodup (s : State) (p : Option String) :
    ((childPages s p).map PageEntry.key).Nodup := by
  rw [childPages, map_map]
  refine pairwise_map.mpr (((pairwise_map.mp (ids_sorted s)).filter _).imp ?_)
  exact fun hne heq => hne (Option.some.inj heq)

/-- What the loop keeps: nothing is filed any more under the parents it is done with, and the
    pending Pages and all it is done with have such a parent. -/
structure Traversal (s : State) (done : List (Option String)) (children : Children)
    (pending : List PageEntry) : Prop where
  distinct : children.Distinct
  under : ∀ p, children.under p = if p ∈ done then [] else childPages s p
  nodup : (pending.map PageEntry.key).Nodup
  parent : ∀ e ∈ pending, e.key ∉ done ∧ ∃ p ∈ done, e ∈ childPages s p
  closed : ∀ e p, e.key ∈ done → e ∈ childPages s p → p ∈ done

theorem Traversal.next (h : Traversal s done children (e :: pending)) :
    Traversal s (e.key :: done) (children.remove e.key).2 (childPages s e.key ++ pending) := by
  obtain ⟨⟨he, p, hp, hparent⟩, hpending⟩ := forall_mem_cons.mp h.parent
  obtain ⟨hfresh, hnodup⟩ := nodup_cons.mp h.nodup
  obtain ⟨hdistinct, hunder⟩ := h.distinct.remove e.key
  refine ⟨hdistinct, fun q => ?_, ?_, ?_, ?_⟩
  · rw [hunder, h.under]
    grind
  · rw [map_append]
    refine nodup_append'.mpr ⟨childPages_nodup s _, hnodup, ?_⟩
    intro k hchild hk
    obtain ⟨c, hc, rfl⟩ := mem_map.mp hchild
    obtain ⟨d, hd, hkey⟩ := mem_map.mp hk
    obtain ⟨-, q, hq, hdq⟩ := hpending d hd
    exact he (parent_unique hdq hc hkey ▸ hq)
  · intro c hc
    rw [mem_cons, not_or]
    rcases mem_append.mp hc with hc | hc
    · refine ⟨⟨fun heq => ?_, fun hdone => he (h.closed c _ hdone hc)⟩, _, mem_cons_self, hc⟩
      exact he (parent_unique hparent hc heq.symm ▸ hp)
    · obtain ⟨hdone, q, hq, hcq⟩ := hpending c hc
      exact ⟨⟨fun heq => hfresh (heq ▸ mem_map_of_mem hc), hdone⟩, q, mem_cons_of_mem _ hq, hcq⟩
  · intro c q hc hq
    rcases mem_cons.mp hc with heq | hdone
    · exact mem_cons_of_mem _ (parent_unique hparent hq heq.symm ▸ hp)
    · exact mem_cons_of_mem _ (h.closed c q hdone hq)

theorem Traversal.preOrder (h : Traversal s done children pending) :
    PreOrder (fun e => childPages s e.key) pending (pagesLoop children pending) ∧
      ((pagesLoop children pending).map PageEntry.key).Nodup ∧
      ∀ e ∈ pagesLoop children pending, e.key ∉ done := by
  induction children, pending using pagesLoop.induct generalizing done with
  | case1 =>
    rw [pagesLoop]
    exact ⟨.nil, .nil, by simp⟩
  | case2 children e pending nested =>
    rename_i ih
    obtain ⟨he, -⟩ := h.parent e mem_cons_self
    have hnested : nested.1.getD [] = childPages s e.key := (h.under e.key).trans (if_neg he)
    rw [hnested] at ih
    rw [pagesLoop, hnested]
    obtain ⟨horder, hnodup, hfresh⟩ := ih h.next
    obtain ⟨below, after, heq, hbelow, hafter⟩ := horder.split
    rw [heq] at hnodup hfresh ⊢
    refine ⟨.cons hbelow hafter, nodup_cons.mpr ⟨fun hmem => ?_, hnodup⟩,
      forall_mem_cons.mpr ⟨he, fun x hx hdone => hfresh x hx (mem_cons_of_mem _ hdone)⟩⟩
    obtain ⟨x, hx, hkey⟩ := mem_map.mp hmem
    exact hfresh x hx (hkey ▸ mem_cons_self)

theorem traversal_pages (s : State) : ∃ children, Traversal s [none] children (childPages s none) ∧
    pages s = pagesLoop children (childPages s none) := by
  have hfiled (entries : List Entry) (children : Children) (h : children.Distinct) :
      let filed := entries.foldl (fun (children : Children) entry =>
        children.push (entry.get "parent") (pageEntry entry)) children
      filed.Distinct ∧ ∀ p, filed.under p =
        children.under p ++ (entries.filter fun entry => entry.get "parent" = p).map pageEntry := by
    induction entries generalizing children with
    | nil => simpa using h
    | cons entry entries ih =>
      refine ⟨(ih _ h.push).1, fun p => ?_⟩
      rw [foldl_cons, (ih _ h.push).2, under_push]
      by_cases hp : entry.get "parent" = p <;> simp [hp]
  obtain ⟨hdistinct, hunder⟩ := hfiled (sorted s "pages") [] .nil
  obtain ⟨hdistinct', hremoved⟩ := hdistinct.remove none
  refine ⟨_, ⟨hdistinct', fun p => ?_, childPages_nodup s none, fun e he => ?_, fun e p he => ?_⟩, ?_⟩
  · rw [hremoved, hunder]
    grind [childPages, under, remove]
  · exact ⟨by simp [PageEntry.key], none, mem_singleton_self _, he⟩
  · simp [PageEntry.key] at he
  · exact congrArg (pagesLoop _) (hunder none)

/-- The sorted Pages are the live ones of the document. -/
theorem mem_ids_sorted {id : String} : (∃ e ∈ sorted s "pages", e.id = id) ↔
    live s "pages" id = some [id, "pages"] ∧ s.node [id, "pages"] = some .map := by
  rw [sorted_eq, live_eq_some]
  constructor
  · rintro ⟨e, he, rfl⟩
    obtain ⟨hpages, hentry⟩ := mem_sortedIn.mp he
    obtain ⟨hnode, hlive, -⟩ := entryAt_eq_some.mp hentry
    exact ⟨⟨rfl, hpages, State.isMap_of_map hnode, hlive⟩, hnode⟩
  · rintro ⟨⟨-, hpages, -, hlive⟩, hnode⟩
    exact ⟨⟨id, fieldsOf s [id, "pages"]⟩,
      mem_sortedIn.mpr ⟨hpages, entryAt_eq_some.mpr ⟨hnode, hlive, rfl⟩⟩, rfl⟩

/-- The listing of an area's Pages, for all parent pointers: the live Pages with their stored
    fields, by sort key and identity, as a pre-order of the trees below the Pages without a parent,
    each Page once. -/
theorem pages_preOrder (s : State) :
    (∀ id, (∃ e ∈ sorted s "pages", e.id = id) ↔
      live s "pages" id = some [id, "pages"] ∧ s.node [id, "pages"] = some .map) ∧
    (∀ e ∈ sorted s "pages", ∀ field, e.get field = fieldOfNode s [e.id, "pages"] field) ∧
    (sorted s "pages").Pairwise (fun a b => a.order < b.order) ∧
    PreOrder (fun e => childPages s e.key) (childPages s none) (pages s) ∧
    ((pages s).map PageEntry.key).Nodup ∧
    ∀ e, e ∈ pages s ↔ ∃ top ∈ childPages s none, Relation.ReflTransGen
      (fun parent child : PageEntry => child ∈ childPages s parent.key) top e := by
  obtain ⟨children, h, heq⟩ := traversal_pages s
  obtain ⟨horder, hnodup, -⟩ := h.preOrder
  rw [heq]
  refine ⟨fun id => mem_ids_sorted, fun e he => ?_, ?_, horder, hnodup, fun e => horder.mem_iff⟩
  · rw [sorted_eq] at he
    exact entryAt_get (mem_sortedIn.mp he).2
  · rw [sorted_eq]
    exact ordered_sortedIn s _

end Watershed.Liquid
