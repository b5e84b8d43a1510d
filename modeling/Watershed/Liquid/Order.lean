/-
  A Page's View order, kept beside its loaded document (`order.rs`).

  `Order.read` computes the order from the document. The other operations keep it up to date
  without reading the document again.
-/
import Watershed.Liquid.Model

namespace Watershed.Liquid

/-- One live View with its sort key. -/
structure Placed where
  sort : String
  view : View
  deriving DecidableEq

/-- A Page's live Views, ordered by sort key, then identity, as the document orders them. -/
structure Order where
  placed : List Placed
  deriving DecidableEq

namespace Order

/-- The live Blocks' kinds by identity. -/
def blockKinds (s : State) (block : String) : Option BlockKind :=
  ((sorted s "blocks").find? fun entry => entry.id = block).map fun entry =>
    BlockKind.of (entry.get "kind")

/-- A View's entry as the order holds it; none if its Block is not live. -/
def place (blocks : String → Option BlockKind) (entry : Entry) : Option Placed := do
  let block ← entry.get "block"
  let kind ← blocks block
  return {
    sort := (entry.get "sort").getD ""
    view := ⟨.stored entry.id, .stored block, entry.get "boundary" = some "true", kind⟩ }

/-- The order as the Page document holds it: Views of removed Blocks are left out. -/
def read (s : State) : Order :=
  ⟨(sorted s "views").filterMap (place (blockKinds s))⟩

variable (o : Order)

def position (view : ViewId) : Option Nat :=
  o.placed.findIdx? fun placed => placed.view.id = view

/-- The sort key for a View placed after `after`, or first. -/
def keyAfter (after : Option ViewId) : Except Error String := do
  let index ← match after with
    | none => pure 0
    | some after =>
      match o.position after with
      | some i => pure (i + 1)
      | none => .error .notFound
  let key := fun i => o.placed[i]?.map Placed.sort
  return SortKey.between (if index = 0 then none else key (index - 1)) (key index)

/-- Inserts at the partition point of what is ordered before the View. -/
def insert (sort : String) (view : View) : Order :=
  let before := fun placed : Placed =>
    decide (toLex (placed.sort, placed.view.id.asStr) < toLex (sort, view.id.asStr))
  ⟨o.placed.insertIdx (o.placed.takeWhile before).length ⟨sort, view⟩⟩

def remove (view : ViewId) : Order :=
  match o.position view with
  | some i => ⟨o.placed.eraseIdx i⟩
  | none => o

/-- Whether a View other than `besides` shows `block`. -/
def shows (block : BlockId) (besides : ViewId) : Bool :=
  o.placed.any fun placed => placed.view.block = block ∧ placed.view.id ≠ besides

def view (view : ViewId) : Option View :=
  (o.position view).bind fun i => o.placed[i]?.map Placed.view

/-- The View just above `view`, if any. -/
def above (view : ViewId) : Option View :=
  (o.position view).bind fun i => if i = 0 then none else o.placed[i - 1]?.map Placed.view

def setBoundary (view : ViewId) (boundary : Bool) : Order :=
  match o.position view with
  | some i => ⟨o.placed.modify i fun placed =>
    { placed with view := { placed.view with boundary := boundary } }⟩
  | none => o

/-- Up to `limit` Views from position `start`. -/
def window (start limit : Nat) : List View :=
  ((o.placed.drop start).take limit).map Placed.view

end Order

end Watershed.Liquid
