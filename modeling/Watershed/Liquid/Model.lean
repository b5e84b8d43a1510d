/-
  The document schema: where each object lives and how it is read (`model.rs`).

    Workspace document  { owner, areas: { <area>: { name, sort, deleted } } }
    area document       { pages: { <page>: { title, parent?, sort, deleted } } }
    Page document       { blocks: { <block>: { kind, text, style, deleted } },
                          views: { <view>: { block, sort, boundary, deleted } } }
-/
import Mathlib.Order.WithBot
import Watershed.Liquid.Document
import Watershed.Liquid.SortKey

namespace Watershed.Liquid

/-! ## Objects as readers see them -/

/-- An area as the Explorer lists it. -/
structure Area where
  id : AreaId
  name : String
  deriving DecidableEq

/-- A Page in an area's tree. -/
structure PageEntry where
  id : PageId
  parent : Option PageId
  title : String
  deriving DecidableEq

/-- The kind of a Block. -/
inductive BlockKind where
  | text | database | unknown
  deriving DecidableEq

/-- The kind a Block's entry names. -/
def BlockKind.of : Option String → BlockKind
  | some "text" => .text
  | some "database" => .database
  | _ => .unknown

/-- A View on a Page. -/
structure View where
  id : ViewId
  block : BlockId
  boundary : Bool
  kind : BlockKind
  deriving DecidableEq

/-! ## Looking up -/

section
variable (s : State)

/-- The object under a key. -/
def child (parent : Path) (key : String) : Option Path :=
  match s.get parent key with
  | some (some (.scalar _)) => none
  | some (some _) => some (key :: parent)
  | _ => none

def string (obj : Path) (key : String) : Option String :=
  match s.get obj key with
  | some (some (.scalar (.str text))) => some text
  | _ => none

def deleted (obj : Path) : Bool := s.get obj "deleted" ≠ some (some (.scalar (.bool false)))

/-- The live object `id` in the map `map`. -/
def liveIn (map : Path) (id : String) : Option Path :=
  (child s map id).filter fun obj => !deleted s obj

/-- The live object `id` in the top-level map `map`. -/
def live (map id : String) : Option Path := (child s [] map).bind fun map => liveIn s map id

/-- A live object of a map with its text fields. -/
structure Entry where
  id : String
  fields : List (String × String)
  deriving DecidableEq

def Entry.get (e : Entry) (key : String) : Option String :=
  (e.fields.find? fun field => field.1 = key).map Prod.snd

/-- The text of one field as an entry keeps it: strings and booleans, except the mark of a
    live object. -/
def fieldText (key : String) : Node → Option String
  | .scalar (.str value) => some value
  | .scalar (.bool value) =>
    if value = false ∧ key = "deleted" then none else some (if value then "true" else "false")
  | _ => none

/-- The entry of the object at `key :: map`, if it is a live map. -/
def entryAt (map : Path) (key : String) : Option Entry :=
  if s.node (key :: map) = some .map ∧
      s.node ("deleted" :: key :: map) = some (.scalar (.bool false)) then
    some ⟨key, (s.mapRange (key :: map)).filterMap fun (field, node) =>
      (fieldText field node).map (field, ·)⟩
  else none

/-- What entries are ordered by: sort key, none first, then identity. -/
def Entry.order (e : Entry) : WithBot String ×ₗ String := toLex (e.get "sort", e.id)

/-- The live objects in the map `map`, ordered by sort key, then identity. -/
def sortedIn (map : Path) : List Entry :=
  ((s.mapRange map).filterMap fun (key, _) => entryAt s map key).insertionSort
    fun a b => a.order ≤ b.order

/-- The live objects in the top-level map `map`. -/
def sorted (map : String) : List Entry :=
  match child s [] map with
  | some top => sortedIn s top
  | none => []

end

/-! ## Placing among siblings -/

/-- The sort key for an entry placed at `place` among `siblings`. -/
def sortAt (siblings : List Entry) (place : Place String) : Except Error String := do
  let index ← match place with
    | .first => pure 0
    | .after after =>
      match siblings.findIdx? fun entry => entry.id = after with
      | some i => pure (i + 1)
      | none => .error .notFound
    | .last => pure siblings.length
  let key := fun i => siblings[i]?.bind fun entry => entry.get "sort"
  return SortKey.between (if index = 0 then none else key (index - 1)) (key index)

/-- The sort key for an object placed after `after` among `siblings`, or first. -/
def sortAfter (siblings : List Entry) (after : Option String) : Except Error String :=
  sortAt siblings (after.elim .first .after)

/-! ## Listing -/

def areas (s : State) : List Area :=
  (sorted s "areas").map fun entry => ⟨.stored entry.id, (entry.get "name").getD ""⟩

/-- The entries of an area's Pages by their parent, each list in order. -/
abbrev Children := List (Option String × List PageEntry)

/-- `children.entry(parent).or_default().push(entry)`. -/
def Children.push (children : Children) (parent : Option String) (entry : PageEntry) : Children :=
  match children with
  | [] => [(parent, [entry])]
  | (p, es) :: rest =>
    if p = parent then (p, es ++ [entry]) :: rest else (p, es) :: Children.push rest parent entry

/-- `children.remove(parent)`: the list and what is left. -/
def Children.remove (children : Children) (parent : Option String) :
    Option (List PageEntry) × Children :=
  match children with
  | [] => (none, [])
  | (p, es) :: rest =>
    if p = parent then (some es, rest)
    else ((Children.remove rest parent).1, (p, es) :: (Children.remove rest parent).2)

/-- How many entries are still filed. -/
def Children.count (children : Children) : Nat := (children.map fun c => c.2.length).sum

theorem Children.count_remove (children : Children) (parent : Option String) :
    (children.remove parent).2.count + ((children.remove parent).1.getD []).length =
      children.count := by
  induction children with
  | nil => rfl
  | cons c rest ih =>
    unfold Children.remove
    split
    · simp [Children.count, Nat.add_comm]
    · simp only [Children.count, List.map_cons, List.sum_cons] at ih ⊢
      omega

/-- The loop of `pages`: takes the next pending entry and puts its children before the rest.
    The source keeps the stack with its top at the end. -/
def pagesLoop (children : Children) (pending : List PageEntry) : List PageEntry :=
  match pending with
  | [] => []
  | entry :: pending =>
    let nested := children.remove (some entry.id.asStr)
    entry :: pagesLoop nested.2 (nested.1.getD [] ++ pending)
termination_by children.count + pending.length
decreasing_by
  have := Children.count_remove children (some entry.id.asStr)
  simp only [List.length_append, List.length_cons]
  omega

/-- An area's live Pages, each followed by its descendants. -/
def pages (s : State) : List PageEntry :=
  let children := (sorted s "pages").foldl (fun (children : Children) entry =>
    children.push (entry.get "parent")
      ⟨.stored entry.id, (entry.get "parent").map .stored, (entry.get "title").getD ""⟩) []
  let top := children.remove none
  pagesLoop top.2 (top.1.getD [])

/-! ## Text Blocks -/

section
variable (s : State)

/-- A text object's characters. -/
def chars (obj : Path) : Option (List Char) :=
  match s.node obj with
  | some (.text cs) => some cs
  | _ => none

/-- `doc.length`: a text's code units, a map's keys, a list's elements. -/
def length (obj : Path) : Nat :=
  match s.node obj with
  | some (.text cs) => units cs
  | some (.list n) => n
  | some .map | some .table => (s.keys obj).length
  | _ => 0

/-- A live Text Block's text; none for a Block of another kind. -/
def text (block : String) : Option String := do
  let entry ← live s "blocks" block
  if string s entry "kind" ≠ some "text" then none
  else
    let text ← child s entry "text"
    (chars s text).map String.ofList

/-- Whether `at_` lies at an end of the text or between two of its characters: inside a
    character both neighbouring units belong to the same element. -/
def onBoundary (obj : Path) (at_ : Nat) : Bool :=
  let element := fun unit => (chars s obj).map fun cs => charsBefore cs unit
  at_ = 0 || at_ = length s obj || (at_ < length s obj && element (at_ - 1) ≠ element at_)

end

/-- A style as a Text Block stores it. -/
def styleName : TextStyle → Except Error String
  | .paragraph => .ok "paragraph"
  | .heading level =>
    if level = 1 then .ok "heading1"
    else if level = 2 then .ok "heading2"
    else if level = 3 then .ok "heading3"
    else .error .outOfRange
  | .bullet => .ok "bullet"
  | .numbered => .ok "numbered"
  | .todo false => .ok "todo"
  | .todo true => .ok "done"
  | .quote => .ok "quote"

/-- A stored style; one this version does not know reads as a paragraph. -/
def style : Option String → TextStyle
  | some "heading1" => .heading 1
  | some "heading2" => .heading 2
  | some "heading3" => .heading 3
  | some "bullet" => .bullet
  | some "numbered" => .numbered
  | some "todo" => .todo false
  | some "done" => .todo true
  | some "quote" => .quote
  | _ => .paragraph

/-! ## Writing -/

section
variable {A : Automerge} {κ : Type}

/-- Creates the empty top-level maps of a new document. -/
def createMaps : List String → DocM A κ Unit
  | [] => pure ()
  | key :: keys => do
    let _ ← putObject [] key .map
    createMaps keys

/-- Writes the text fields of an entry. -/
def putFields (entry : Path) : List (String × String) → DocM A κ Unit
  | [] => pure ()
  | (key, value) :: fields => do
    put entry key (.str value)
    putFields entry fields

/-- Adds `id` to the map `map` as a live object. -/
def insertIn (map : Path) (id : String) (fields : List (String × String)) : DocM A κ Path := do
  let entry ← putObject map id .map
  putFields entry fields
  put entry "deleted" (.bool false)
  return entry

def top (map : String) : DocM A κ Path := do
  Fallible.okOr (child (← state) [] map) (.document ("no top-level map " ++ map))

/-- Adds `id` to the top-level map `map` as a live object. -/
def insert (map id : String) (fields : List (String × String)) : DocM A κ Path := do
  insertIn (← top map) id fields

def markDeleted (obj : Path) : DocM A κ Unit := put obj "deleted" (.bool true)

end

end Watershed.Liquid
