/-
  A Page as a state machine.

  Every mutation of a Page is a short sequence of steps: a text changes, a View appears, a
  row goes. `PageStep.apply` says what each step writes and `PageStep.Guard` under which
  condition the core takes it. What is kept beside the document moves along: the View order
  by `PageStep.onOrder` and a row index by `PageStep.onIndex`.
-/
import Watershed.Liquid.Entries
import Watershed.Liquid.Workspace

open List

namespace Watershed.Liquid

open State

/-! ## Names and new entries -/

variable (s : State)

/-- The names a state uses: keys of its objects and the Blocks that its Views name. -/
def Names : Set String :=
  { x | (∃ q, (s.node q).isSome ∧ x ∈ q) ∨ ∃ v, fieldOfNode s [v, "views"] "block" = some x }

theorem entryAt_eq_none {s : State} {m : Path} {k : String} (h : k ∉ Names s) :
    entryAt s m k = none := by
  rw [Option.eq_none_iff_forall_ne_some]
  intro e he
  refine h (.inl ⟨k :: m, ?_, by simp⟩)
  rw [(entryAt_eq_some.mp he).1]
  rfl

/-- Writes text fields of the object `obj`, one after the other. -/
def State.setFields (obj : Path) (fields : List (String × String)) : State :=
  fields.foldl (fun s x => s.set x.1 obj (some (.scalar (.str x.2)))) s

/-- What `insertIn` makes of a state. -/
def State.insertEntry (m : Path) (id : String) (fields : List (String × String)) :
    State :=
  ((s.set id m (some .map)).setFields (id :: m) fields).set "deleted" (id :: m)
    (some (.scalar (.bool false)))

/-! ## Steps -/

/-- One step of a Page. -/
inductive PageStep where
  | text (b : BlockId) (cs : List Char)
  | style (b : BlockId) (name : String)
  | newText (b : BlockId) (name : String) (cs : List Char)
  | newDatabase (b : BlockId) (name : String) (f : FieldId) (sort : String)
  | newView (after : Option ViewId) (v : ViewId) (b : BlockId) (sort : String) (kind : BlockKind)
  | boundary (v : ViewId) (x : Bool)
  | removeView (v : ViewId)
  | removeBlock (b : BlockId)
  | databaseName (b : BlockId) (name : String)
  | newField (b : BlockId) (f : FieldId) (name : String) (kind : FieldKind) (sort : String)
  | fieldName (b : BlockId) (f : FieldId) (name : String)
  | removeField (b : BlockId) (f : FieldId)
  | newOption (b : BlockId) (f : FieldId) (o : OptionId) (name : String) (color : Fin 256)
      (sort : String)
  | newRow (place : Place RowId) (b : BlockId) (r : RowId) (sort : String)
  | removeRow (b : BlockId) (r : RowId)
  | putCell (b : BlockId) (r : RowId) (f : FieldId) (v : Scalar) (cell : Cell)
  | clearCell (b : BlockId) (r : RowId) (f : FieldId)

abbrev blockPath (b : BlockId) : Path := [b.asStr, "blocks"]
abbrev viewPath (v : ViewId) : Path := [v.asStr, "views"]
abbrev fieldsPath (b : BlockId) : Path := ["fields", b.asStr, "blocks"]
abbrev rowsPath (b : BlockId) : Path := ["rows", b.asStr, "blocks"]
abbrev fieldPath (b : BlockId) (f : FieldId) : Path := [f.asStr, "fields", b.asStr, "blocks"]
abbrev rowPath (b : BlockId) (r : RowId) : Path := [r.asStr, "rows", b.asStr, "blocks"]
abbrev cellsPath (b : BlockId) (r : RowId) : Path := ["cells", r.asStr, "rows", b.asStr, "blocks"]
abbrev optionsPath (b : BlockId) (f : FieldId) : Path :=
  ["options", f.asStr, "fields", b.asStr, "blocks"]

variable {b : BlockId} {p q obj : Path}

theorem blockPath_inj {b' : BlockId} (h : blockPath b = blockPath b') : b = b' := by
  cases b; cases b'
  simpa using h

/-- What a new field of a Database writes. -/
def State.insertField (b : BlockId) (f : FieldId) (name : String) (kind : FieldKind)
    (sort : String) : State :=
  (s.insertEntry (fieldsPath b) f.asStr
    [("name", name), ("kind", kindName kind), ("sort", sort)]).set "options" (fieldPath b f)
    (some .map)

namespace PageStep

/-- What a step writes. -/
def apply : PageStep → State → State
  | .text b cs, s => s.set "text" (blockPath b) (some (.text cs))
  | .style b name, s => s.set "style" (blockPath b) (some (.scalar (.str name)))
  | .newText b name cs, s =>
    (s.insertEntry ["blocks"] b.asStr [("kind", "text"), ("style", name)]).set "text"
      (blockPath b) (some (.text cs))
  | .newDatabase b name f sort, s =>
    (((s.insertEntry ["blocks"] b.asStr [("kind", "database"), ("name", name)]).set "fields"
      (blockPath b) (some .map)).set "rows" (blockPath b) (some .map)).insertField b f "Name"
      .text sort
  | .newView _ v b sort _, s =>
    (s.insertEntry ["views"] v.asStr [("block", b.asStr), ("sort", sort)]).set "boundary"
      (viewPath v) (some (.scalar (.bool false)))
  | .boundary v x, s => s.set "boundary" (viewPath v) (some (.scalar (.bool x)))
  | .removeView v, s => s.set "deleted" (viewPath v) (some (.scalar (.bool true)))
  | .removeBlock b, s => s.set "deleted" (blockPath b) (some (.scalar (.bool true)))
  | .databaseName b name, s => s.set "name" (blockPath b) (some (.scalar (.str name)))
  | .newField b f name kind sort, s => s.insertField b f name kind sort
  | .fieldName b f name, s => s.set "name" (fieldPath b f) (some (.scalar (.str name)))
  | .removeField b f, s => s.set "deleted" (fieldPath b f) (some (.scalar (.bool true)))
  | .newOption b f o name color sort, s =>
    s.insertEntry (optionsPath b f) o.asStr
      [("name", name), ("color", toString color.val), ("sort", sort)]
  | .newRow _ b r sort, s =>
    (s.insertEntry (rowsPath b) r.asStr [("sort", sort)]).set "cells" (rowPath b r) (some .map)
  | .removeRow b r, s => s.set "deleted" (rowPath b r) (some (.scalar (.bool true)))
  | .putCell b r f v _, s => s.set f.asStr (cellsPath b r) (some (.scalar v))
  | .clearCell b r f, s => s.set f.asStr (cellsPath b r) none

/-- The object or value that a step writes. -/
def part : PageStep → Path
  | .text b _ => "text" :: blockPath b
  | .style b _ => "style" :: blockPath b
  | .newText b _ _ | .newDatabase b _ _ _ => blockPath b
  | .newView _ v _ _ _ => viewPath v
  | .boundary v _ => "boundary" :: viewPath v
  | .removeView v => "deleted" :: viewPath v
  | .removeBlock b => "deleted" :: blockPath b
  | .databaseName b _ => "name" :: blockPath b
  | .newField b f _ _ _ => fieldPath b f
  | .fieldName b f _ => "name" :: fieldPath b f
  | .removeField b f => "deleted" :: fieldPath b f
  | .newOption b f o _ _ _ => o.asStr :: optionsPath b f
  | .newRow _ b r _ => rowPath b r
  | .removeRow b r => "deleted" :: rowPath b r
  | .putCell b r f _ _ | .clearCell b r f => f.asStr :: cellsPath b r

/-- The Block or View that a step belongs to. -/
def footprint : PageStep → Path
  | .text b _ | .style b _ | .newText b _ _ | .newDatabase b _ _ _ | .removeBlock b
  | .databaseName b _ | .newField b _ _ _ _ | .fieldName b _ _ | .removeField b _
  | .newOption b _ _ _ _ _ | .newRow _ b _ _ | .removeRow b _ | .putCell b _ _ _ _
  | .clearCell b _ _ => blockPath b
  | .newView _ v _ _ _ | .boundary v _ | .removeView v => viewPath v

/-- The identities a step introduces. -/
def ids : PageStep → List String
  | .newText b _ _ => [b.asStr]
  | .newDatabase b _ f _ => [b.asStr, f.asStr]
  | .newView _ v _ _ _ => [v.asStr]
  | .newField _ f _ _ _ => [f.asStr]
  | .newOption _ _ o _ _ _ => [o.asStr]
  | .newRow _ _ r _ => [r.asStr]
  | _ => []

end PageStep

/-- `b` is a live Text Block. -/
structure LiveText (s : State) (b : BlockId) : Prop where
  blocks : s.isMap ["blocks"] = true
  entry : s.isMap (blockPath b) = true
  live : s.node ["deleted", b.asStr, "blocks"] = some (.scalar (.bool false))
  kind : s.node ["kind", b.asStr, "blocks"] = some (.scalar (.str "text"))

/-- `b` is a live Database Block. -/
structure LiveDatabase (s : State) (b : BlockId) : Prop where
  blocks : s.isMap ["blocks"] = true
  entry : s.isMap (blockPath b) = true
  live : s.node ["deleted", b.asStr, "blocks"] = some (.scalar (.bool false))
  kind : s.node ["kind", b.asStr, "blocks"] = some (.scalar (.str "database"))

/-- `f` is a live field of the Database `b`, of kind `kind`. -/
structure LiveField (s : State) (b : BlockId) (f : FieldId) (kind : FieldKind) : Prop where
  database : LiveDatabase s b
  fields : s.isMap (fieldsPath b) = true
  entry : s.isMap (fieldPath b f) = true
  live : s.node ["deleted", f.asStr, "fields", b.asStr, "blocks"] = some (.scalar (.bool false))
  kind : ∃ name, s.node ["kind", f.asStr, "fields", b.asStr, "blocks"] = some (.scalar (.str name)) ∧
    fieldKind (some name) = some kind

/-- `r` is a live row of the Database `b`. -/
structure LiveRow (s : State) (b : BlockId) (r : RowId) : Prop where
  database : LiveDatabase s b
  rows : s.isMap (rowsPath b) = true
  entry : s.isMap (rowPath b r) = true
  live : s.node ["deleted", r.asStr, "rows", b.asStr, "blocks"] = some (.scalar (.bool false))

/-- `v` is a live View. -/
structure LiveView (s : State) (v : ViewId) : Prop where
  views : s.isMap ["views"] = true
  entry : s.isMap (viewPath v) = true
  live : s.node ["deleted", v.asStr, "views"] = some (.scalar (.bool false))

namespace PageStep

/-- When the core takes a step. -/
def Guard : PageStep → State → Prop
  | .text b _, s => LiveText s b ∧ ∃ cs, s.node ["text", b.asStr, "blocks"] = some (.text cs)
  | .style b _, s => LiveText s b
  | .newText b _ _, s => b.asStr ∉ Names s ∧ s.isMap ["blocks"] = true
  | .newDatabase b _ f _, s =>
    b.asStr ∉ Names s ∧ f.asStr ∉ Names s ∧ s.isMap ["blocks"] = true
  | .newView after v b sort kind, s =>
    v.asStr ∉ Names s ∧ s.isMap ["views"] = true ∧
    Order.blockKinds s b.asStr = some kind ∧ (Order.read s).keyAfter after = .ok sort ∧
    ∀ v', fieldOfNode s [v', "views"] "block" ≠ some b.asStr
  | .boundary v _, s => LiveView s v
  | .removeView v, s => LiveView s v
  | .removeBlock b, s => (live s "blocks" b.asStr).isSome ∧
    ∀ placed ∈ (Order.read s).placed, placed.view.block ≠ b
  | .databaseName b _, s => LiveDatabase s b
  | .newField b f _ _ _, s =>
    LiveDatabase s b ∧ s.isMap (fieldsPath b) = true ∧ f.asStr ∉ Names s
  | .fieldName b f _, s => ∃ kind, LiveField s b f kind
  | .removeField b f, s => ∃ kind, LiveField s b f kind
  | .newOption b f o _ _ _, s =>
    (∃ kind, LiveField s b f kind) ∧ s.isMap (optionsPath b f) = true ∧ o.asStr ∉ Names s
  | .newRow place b r sort, s =>
    LiveDatabase s b ∧ s.isMap (rowsPath b) = true ∧ r.asStr ∉ Names s ∧
    ∃ ix, Index.read s b = .ok ix ∧ ix.keyAt place = .ok sort
  | .removeRow b r, s => LiveRow s b r
  | .putCell b r f v cell, s => LiveRow s b r ∧ s.isMap (cellsPath b r) = true ∧
    ∃ kind, LiveField s b f kind ∧ Database.typed kind (.scalar v) = some cell ∧ cell ≠ .empty
  | .clearCell b r f, s =>
    LiveRow s b r ∧ s.isMap (cellsPath b r) = true ∧ ∃ kind, LiveField s b f kind

/-- What a step does to the View order. -/
def onOrder : PageStep → Order → Order
  | .newView _ v b sort kind, o => o.insert sort ⟨v, b, false, kind⟩
  | .boundary v x, o => o.setBoundary v x
  | .removeView v, o => o.remove v
  | _, o => o

/-- What a step does to the row index of the Database `b`. -/
def onIndex (b : BlockId) : PageStep → Index → Index
  | .newRow _ b' r sort, ix => if b' = b then ix.insert sort r else ix
  | .removeRow b' r, ix => if b' = b then ix.remove r else ix
  | .putCell b' r f _ cell, ix => if b' = b then ix.set r f cell else ix
  | .clearCell b' r f, ix => if b' = b then ix.set r f .empty else ix
  | _, ix => ix

end PageStep

/-! ## Where a step writes -/

/-- A write below `p` changes nothing outside `p`. -/
theorem State.node_set_under {k : String} (n : Option Node)
    {r : Path} (hp : p <:+ k :: q) (hr : ¬ p <:+ r) : (s.set k q n).node r = s.node r :=
  s.node_set_frame k q n fun h => hr (hp.trans h)

theorem State.node_setFields_frame (h : ¬ obj <:+ q)
    (fields : List (String × String)) (s : State) : (s.setFields obj fields).node q = s.node q := by
  induction fields generalizing s with
  | nil => rfl
  | cons x fields ih =>
    exact (ih _).trans (s.node_set_under _ (suffix_cons x.1 obj) h)

theorem State.isMap_setFields : ∀ (fields : List (String × String)) (s : State),
    (s.setFields obj fields).isMap obj = s.isMap obj
  | [], _ => rfl
  | x :: fields, s => by
    refine (isMap_setFields fields _).trans (isMap_congr ?_)
    exact s.node_set_frame _ _ _ fun h => by simpa using h.length_le

theorem State.node_insertEntry_frame {m : Path} {id : String} (h : ¬ id :: m <:+ q)
    (s : State) (fields : List (String × String)) :
    (s.insertEntry m id fields).node q = s.node q := by
  unfold insertEntry
  rw [node_set_under _ _ (suffix_cons _ _) h, node_setFields_frame h, node_set_frame _ _ _ _ h]

theorem State.node_insertField_frame {f : FieldId}
    (h : ¬ fieldPath b f <:+ q) (s : State) (name : String) (kind : FieldKind) (sort : String) :
    (s.insertField b f name kind sort).node q = s.node q := by
  unfold insertField
  rw [node_set_under _ _ (suffix_cons _ _) h, node_insertEntry_frame h]

variable (μ : PageStep) (s : State)

/-- A step writes only its part of the Page. -/
theorem PageStep.node_apply (h : ¬ μ.part <:+ q) : (μ.apply s).node q = s.node q := by
  cases μ <;> simp only [PageStep.apply, PageStep.part] at h ⊢
  case newDatabase b name f sort =>
    have hf : ¬ fieldPath b f <:+ q :=
      fun h' => h (List.IsSuffix.trans (by simp [suffix_cons_iff]) h')
    rw [node_insertField_frame hf, node_set_under _ _ (suffix_cons _ _) h,
      node_set_under _ _ (suffix_cons _ _) h, node_insertEntry_frame h]
  case newField b f name kind sort => exact node_insertField_frame h _ _ _ _
  case newOption b f o name color sort => exact node_insertEntry_frame h _ _
  all_goals
    first
    | exact node_set_frame _ _ _ _ h
    | rw [node_set_under _ _ (suffix_cons _ _) h, node_insertEntry_frame h]

theorem PageStep.sameOutside : SameOutside μ.part (μ.apply s) s := fun _ h => μ.node_apply s h

theorem PageStep.footprint_part : μ.footprint <:+ μ.part := by
  cases μ <;> simp [PageStep.footprint, PageStep.part, suffix_cons_iff]

theorem PageStep.length_footprint : μ.footprint.length = 2 := by
  cases μ <;> rfl

/-- Two entries of top-level maps: a step in one leaves the other alone. -/
theorem PageStep.sameUnder_of_ne (hp : p.length = 2)
    (h : p ≠ μ.footprint) : SameUnder p (μ.apply s) s :=
  ((μ.sameOutside s).mono μ.footprint_part).sibling (by rw [hp, μ.length_footprint]) h

/-- The top-level maps themselves stay. -/
theorem PageStep.node_apply_top (k : String) : (μ.apply s).node [k] = s.node [k] :=
  ((μ.sameOutside s).mono μ.footprint_part).node_of_length (by simp [μ.length_footprint])

theorem PageStep.isMap_apply_top (k : String) : (μ.apply s).isMap [k] = s.isMap [k] :=
  isMap_congr (μ.node_apply_top s k)

end Watershed.Liquid
