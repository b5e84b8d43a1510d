/-
  Database Blocks: typed fields and rows, kept in the Block's entry of its home Page's
  document (`database.rs`).

    blocks: { <block>: { kind: "database", name, deleted,
                         fields: { <field>: { name, kind, sort, deleted,
                                              options: { <option>: { name, color, sort, deleted } } } },
                         rows:   { <row>: { sort, deleted, cells: { <field>: value } } } } }

  Rust's Unicode lowercase mapping is the parameter `toLowercase` of the functions that
  compare text.
-/
import Watershed.Liquid.Model

namespace Watershed.Liquid

open Fallible

namespace Database

/-- The most live fields a Database holds. -/
def maxFields : Nat := 500

/-- The most live options a select field holds. -/
def maxOptions : Nat := 500

end Database

/-! ## What readers see -/

/-- One option of a select field. -/
structure SelectOption where
  id : OptionId
  name : String
  color : Fin 256
  deriving DecidableEq

/-- A Database field; only a select field has options. -/
structure Field where
  id : FieldId
  name : String
  kind : FieldKind
  options : List SelectOption
  deriving DecidableEq

/-- A Database Block's name and live fields, in order. -/
structure Database where
  name : String
  fields : List Field
  deriving DecidableEq

/-- One row with its non-empty cells of live fields. -/
structure Row where
  id : RowId
  cells : List (FieldId × Cell)
  deriving DecidableEq

/-- Sorting by one field; empty cells come last either way, and ties keep the rows' order. -/
structure RowSort where
  field : FieldId
  descending : Bool
  deriving DecidableEq

/-- What a cell must be to pass a filter. -/
inductive Match where
  | empty
  | notEmpty
  | is (value : Cell)
  | contains (part : String)
  deriving DecidableEq

/-- Keeping the rows whose cell of `field` matches. -/
structure Filter where
  field : FieldId
  matching : Match
  deriving DecidableEq

/-- A window of a Database's rows. -/
structure RowQuery where
  sort : Option RowSort
  filter : Option Filter
  start : Nat
  limit : Nat
  deriving DecidableEq

/-- A window of rows and how many rows match in all. -/
structure Rows where
  count : Nat
  rows : List Row
  deriving DecidableEq

/-! ## The row index -/

/-- A row of the index: its place and its values by field, typed by their field's kind. -/
structure Indexed where
  sort : String
  id : RowId
  cells : String → Option Cell

/-- A Database Block's rows in their order with their cells, kept beside its loaded Page
    document. -/
structure Index where
  rows : List Indexed

def kindName : FieldKind → String
  | .text => "text"
  | .number => "number"
  | .select => "select"
  | .date => "date"
  | .checkbox => "checkbox"

def fieldKind : Option String → Option FieldKind
  | some "text" => some .text
  | some "number" => some .number
  | some "select" => some .select
  | some "date" => some .date
  | some "checkbox" => some .checkbox
  | _ => none

namespace Database

section
variable (s : State)

/-- A live Database Block's entry. -/
def entry (block : BlockId) : Except Error Path :=
  match live s "blocks" block.asStr with
  | none => .error .notFound
  | some entry => if string s entry "kind" ≠ some "database" then .error .notFound else .ok entry

def map (entry : Path) (key : String) : Except Error Path :=
  match child s entry key with
  | some obj => .ok obj
  | none => .error (.document ("no " ++ key ++ " map"))

/-- A live field's entry and kind. -/
def field (block : BlockId) (field : FieldId) : Except Error (Path × FieldKind) := do
  let fields ← map s (← entry s block) "fields"
  match liveIn s fields field.asStr with
  | none => .error .notFound
  | some entry =>
    match fieldKind (string s entry "kind") with
    | none => .error .notFound
    | some kind => .ok (entry, kind)

/-- A live row's entry. -/
def row (block : BlockId) (row : RowId) : Except Error Path := do
  let rows ← map s (← entry s block) "rows"
  match liveIn s rows row.asStr with
  | none => .error .notFound
  | some entry => .ok entry

/-- A stored value as a cell of a field of `kind`. -/
def typed : FieldKind → Node → Option Cell
  | .text, .scalar (.str text) => some (.text text)
  | .number, .scalar (.f64 number) => some (.number number)
  | .date, .scalar (.str date) => some (.date date)
  | .checkbox, .scalar (.bool ticked) => some (.checkbox ticked)
  | .select, .scalar (.str option) => some (.select (.stored option))
  | _, _ => none

/-- The kinds of the live fields that this version knows, by identity. -/
def kinds (fields : Path) (field : String) : Option FieldKind :=
  ((sortedIn s fields).find? fun entry => entry.id = field).bind fun entry =>
    fieldKind (entry.get "kind")

/-- A row's cells that hold a value of their field's kind. -/
def cells (rows : Path) (row : String) (kinds : String → Option FieldKind) (field : String) :
    Option Cell := do
  let cells ← (child s rows row).bind fun row => child s row "cells"
  let kind ← kinds field
  match s.get cells field with
  | some (some node) => typed kind node
  | _ => none

end

end Database

namespace Index

/-- The rows as the Database's document holds them. -/
def read (s : State) (block : BlockId) : Except Error Index := do
  let entry ← Database.entry s block
  let fields ← Database.map s entry "fields"
  let rows ← Database.map s entry "rows"
  return ⟨(sortedIn s rows).map fun row =>
    { sort := (row.get "sort").getD ""
      id := .stored row.id
      cells := Database.cells s rows row.id (Database.kinds s fields) }⟩

def position (ix : Index) (row : RowId) : Option Nat :=
  ix.rows.findIdx? fun indexed => indexed.id = row

/-- The sort key for a row placed at `place`. -/
def keyAt (ix : Index) (place : Place RowId) : Except Error String := do
  let index ← match place with
    | .first => pure 0
    | .after after =>
      match ix.position after with
      | some i => pure (i + 1)
      | none => .error .notFound
    | .last => pure ix.rows.length
  let key := fun i => ix.rows[i]?.map Indexed.sort
  return SortKey.between (if index = 0 then none else key (index - 1)) (key index)

def insert (ix : Index) (sort : String) (id : RowId) : Index :=
  let before := fun row : Indexed => decide (toLex (row.sort, row.id.asStr) < toLex (sort, id.asStr))
  ⟨ix.rows.insertIdx (ix.rows.takeWhile before).length ⟨sort, id, fun _ => none⟩⟩

def remove (ix : Index) (row : RowId) : Index :=
  match ix.position row with
  | some i => ⟨ix.rows.eraseIdx i⟩
  | none => ix

/-- A row with one cell set; `empty` clears it. -/
def Indexed.set (row : Indexed) (field : FieldId) (cell : Cell) : Indexed :=
  { row with cells := fun f =>
      if f = field.asStr then (if cell = .empty then none else some cell) else row.cells f }

def set (ix : Index) (row : RowId) (field : FieldId) (cell : Cell) : Index :=
  match ix.position row with
  | some i => ⟨ix.rows.modify i fun row => Indexed.set row field cell⟩
  | none => ix

end Index

/-! ## Reading -/

namespace Database

/-- A decimal `u8` as Rust parses it: an optional `+`, then digits, at most 255. -/
def parseU8 (text : String) : Option (Fin 256) :=
  let digits := match text.toList with
    | '+' :: rest => rest
    | cs => cs
  if digits ≠ [] ∧ digits.all Char.isDigit then
    let n := digits.foldl (fun n c => 10 * n + (c.toNat - '0'.toNat)) 0
    if h : n < 256 then some ⟨n, h⟩ else none
  else none

/-- A select field's live options, in order. -/
def options (s : State) (options : Path) : List SelectOption :=
  (sortedIn s options).map fun option =>
    { id := .stored option.id
      name := (option.get "name").getD ""
      color := ((option.get "color").bind parseU8).getD 0 }

/-- A field's entry as readers see it; none for a kind this version does not know. -/
def fieldOf (s : State) (fields : Path) (field : Entry) : Option Field := do
  let kind ← fieldKind (field.get "kind")
  return {
    id := .stored field.id
    name := (field.get "name").getD ""
    kind := kind
    options :=
      if kind = .select then
        (((child s fields field.id).bind fun entry => child s entry "options").map
          (options s)).getD []
      else [] }

/-- A live Database Block's name and fields, or none if `block` is no live Database. -/
def read (s : State) (block : BlockId) : Except Error (Option Database) :=
  match entry s block with
  | .error _ => .ok none
  | .ok entry => do
    let fields ← map s entry "fields"
    return some ⟨(string s entry "name").getD "", (sortedIn s fields).filterMap (fieldOf s fields)⟩

/-- A row's value of `field`, if the field is live and the cell holds one. -/
def cell (live : List FieldId) (row : Indexed) (field : FieldId) : Option Cell :=
  if field ∈ live then row.cells field.asStr else none

/-- A row as a window shows it: its cells of live fields that hold a value. -/
def shown (live : List FieldId) (row : Indexed) : Row where
  id := row.id
  cells := (live.filterMap fun field => (row.cells field.asStr).map (field, ·)).insertionSort
    fun a b => a.1.asStr ≤ b.1.asStr

variable (toLowercase : String → String)

def matchesCell (cell : Option Cell) : Match → Bool
  | .empty => cell.isNone
  | .notEmpty => cell.isSome
  | .is value =>
    match value, cell with
    -- Numbers by value, so either zero finds a stored zero.
    | .number value, some (.number stored) => value.valueEq stored
    | value, cell => cell = some value
  | .contains part =>
    match cell with
    | some (.text text) => (toLowercase part).toList <:+: (toLowercase text).toList
    | _ => false

/-- The place of an option among all options; the last one of an identity counts. -/
def positions (fields : List Field) (option : String) : Option Nat :=
  ((fields.flatMap Field.options).zipIdx.reverse.find? fun o => o.1.id.asStr = option).map Prod.snd

/-- Two values of one field: text ignoring case, numbers by value, days in time, unticked
    before ticked, options in their field's order. -/
def compareCells (positions : String → Option Nat) (a b : Cell) : Ordering :=
  match a, b with
  | .text a, .text b => compare (toLowercase a) (toLowercase b)
  | .number a, .number b => compare a.totalKey b.totalKey
  | .date a, .date b => compare a b
  | .checkbox a, .checkbox b => compare a b
  | .select a, .select b => compare (positions a.asStr) (positions b.asStr)
  | _, _ => .eq

/-- The order of two rows under `sort`, by their cells of its field. -/
def compareBy (positions : String → Option Nat) (descending : Bool) (a b : Option Cell) :
    Ordering :=
  match a, b with
  | none, none => .eq
  | none, some _ => .gt
  | some _, none => .lt
  | some a, some b =>
    let order := compareCells toLowercase positions a b
    if descending then order.swap else order

/-- The window `query` asks for, filtered and sorted here from the index. -/
def rows (s : State) (ix : Index) (block : BlockId) (query : RowQuery) : Except Error Rows := do
  match ← read s block with
  | none => .error .notFound
  | some database =>
    let live := database.fields.map Field.id
    -- Without a filter or a sort the source slices the index; so does this, with `kept` and
    -- `ordered` the rows themselves.
    let kept := match query.filter with
      | some filter => ix.rows.filter fun row =>
        matchesCell toLowercase (cell live row filter.field) filter.matching
      | none => ix.rows
    -- A stable sort keeps the rows' own order among equal cells.
    let ordered := match query.sort with
      | some sort => kept.insertionSort fun a b =>
        compareBy toLowercase (positions database.fields) sort.descending
          (cell live a sort.field) (cell live b sort.field) ≠ Ordering.gt
      | none => kept
    return ⟨kept.length, ((ordered.drop query.start).take query.limit).map (shown live)⟩

end Database

/-! ## Writing -/

namespace Database

variable {A : Automerge} {κ : Type} (random : Random)

/-- `name` and `kind` of a new field, placed among its siblings. -/
def addFieldTo (fields : Path) (field : FieldId) (place : Place FieldId) (name : String)
    (kind : FieldKind) : DocM A κ Unit := do
  let siblings := sortedIn (← state) fields
  if maxFields ≤ siblings.length then fail .tooMany
  else
    let place := match place with
      | .first => .first
      | .after after => .after after.asStr
      | .last => .last
    let sort ← Fallible.lift (sortAt siblings place)
    let entry ← insertIn fields field.asStr
      [("name", name), ("kind", kindName kind), ("sort", sort)]
    let _ ← putObject entry "options" .map
    return ()

variable (block : BlockId)

/-- Writes a new Database Block named `name`, with one text field "Name", into the Page's
    blocks map. -/
def create (name : String) : DocM A κ Unit := do
  let entry ← insert "blocks" block.asStr [("kind", "database"), ("name", name)]
  let fields ← putObject entry "fields" .map
  let _ ← putObject entry "rows" .map
  addFieldTo fields (← newId random) .first "Name" .text

def rename (name : String) : DocM A κ Unit := do
  let entry ← Fallible.lift (entry (← state) block)
  put entry "name" (.str name)

def addField (place : Place FieldId) (name : String) (kind : FieldKind) :
    DocM A κ FieldId := do
  let s ← state
  let fields ← Fallible.lift ((entry s block).bind fun entry => map s entry "fields")
  let field ← newId random
  addFieldTo fields field place name kind
  return field

def renameField (fieldId : FieldId) (name : String) : DocM A κ Unit := do
  let (entry, _) ← Fallible.lift (field (← state) block fieldId)
  put entry "name" (.str name)

def removeField (fieldId : FieldId) : DocM A κ Unit := do
  let (entry, _) ← Fallible.lift (field (← state) block fieldId)
  markDeleted entry

def addOption (fieldId : FieldId) (name : String) (color : Fin 256) :
    DocM A κ OptionId := do
  let s ← state
  let (entry, kind) ← Fallible.lift (field s block fieldId)
  if kind ≠ .select then fail .wrongKind
  else
    let options ← Fallible.lift (map s entry "options")
    let siblings := sortedIn s options
    if maxOptions ≤ siblings.length then fail .tooMany
    else
      let sort ← Fallible.lift (sortAfter siblings (siblings.getLast?.map Entry.id))
      let option ← newId random
      let _ ← insertIn options option.asStr
        [("name", name), ("color", toString color.val), ("sort", sort)]
      return option

def addRow (place : Place RowId) : DocM A Index RowId := do
  let s ← state
  let rows ← Fallible.lift ((entry s block).bind fun entry => map s entry "rows")
  let sort ← Fallible.lift ((← Fallible.read Ctx.cache).keyAt place)
  let row ← newId random
  let entry ← insertIn rows row.asStr [("sort", sort)]
  let _ ← putObject entry "cells" .map
  change fun c => { c with cache := c.cache.insert sort row }
  return row

def removeRow (rowId : RowId) : DocM A Index Unit := do
  let entry ← Fallible.lift (row (← state) block rowId)
  markDeleted entry
  change fun c => { c with cache := c.cache.remove rowId }

/-- Whether `date` is a real day, `YYYY-MM-DD`. -/
def validDate (date : String) : Bool :=
  let number := fun (text : List Char) (digits : Nat) =>
    if text.length = digits ∧ text.all Char.isDigit then
      some (text.foldl (fun n c => 10 * n + (c.toNat - '0'.toNat)) 0)
    else none
  match date.toList.splitOn '-' with
  | [y, m, d] =>
    match number y 4, number m 2, number d 2 with
    | some year, some month, some ofMonth =>
      let leap := year % 4 = 0 ∧ (year % 100 ≠ 0 ∨ year % 400 = 0)
      let days :=
        if month ∈ [1, 3, 5, 7, 8, 10, 12] then 31
        else if month ∈ [4, 6, 9, 11] then 30
        else if month = 2 then (if leap then 29 else 28)
        else 0
      1 ≤ ofMonth ∧ ofMonth ≤ days
    | _, _, _ => false
  | _ => false

/-- The scalar that stores `value` in a cell of a field of `kind`. -/
def scalarOf (s : State) (fieldEntry : Path) (kind : FieldKind) (value : Cell) :
    Except Error Scalar :=
  match kind, value with
  | .text, .text text => .ok (.str text)
  -- Zero is one value: `-0` is stored as `0`.
  | .number, .number number => if number.isFinite then .ok (.f64 number.addZero) else .error .wrongKind
  | .date, .date date => if validDate date then .ok (.str date) else .error .wrongKind
  | .checkbox, .checkbox ticked => .ok (.bool ticked)
  | .select, .select option => do
    let options ← map s fieldEntry "options"
    match liveIn s options option.asStr with
    | some _ => .ok (.str option.asStr)
    | none => .error .notFound
  | _, _ => .error .wrongKind

/-- What the index keeps of a value that was stored as `scalar`. -/
def storedCell (scalar : Scalar) (value : Cell) : Cell :=
  match scalar, value with
  | .f64 number, .number _ => .number number
  | _, _ => value

def setCell (rowId : RowId) (fieldId : FieldId) (value : Cell) :
    DocM A Index Unit := do
  let s ← state
  let (fieldEntry, kind) ← Fallible.lift (field s block fieldId)
  let cells ← Fallible.lift ((row s block rowId).bind fun row => map s row "cells")
  if value = .empty then
    match s.get cells fieldId.asStr with
    | none => fail (.document (A.misread cells))
    | some held =>
      if held.isSome then delete cells fieldId.asStr
      change fun c => { c with cache := c.cache.set rowId fieldId value }
  else
    let scalar ← Fallible.lift (scalarOf s fieldEntry kind value)
    put cells fieldId.asStr scalar
    change fun c => { c with cache := c.cache.set rowId fieldId (storedCell scalar value) }

end Database

end Watershed.Liquid
