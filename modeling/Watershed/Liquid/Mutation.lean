/-
  Liquid's identities and the schema of its requests: `id.rs`, `mutation.rs`, `history.rs`.

  An identity is 128 random bits written as 32 lowercase hex digits. The system's random
  source is outside this repository. It is a parameter of the model, a stream of draws of
  which any may fail (`Random`); a computation carries its position in the stream.
-/
import Mathlib.Algebra.Group.Int.Defs
import Mathlib.Algebra.GroupWithZero.Nat
import Mathlib.Data.String.Basic
import Mathlib.Data.List.OfFn

namespace Watershed.Liquid

open List

/-! ## Identities -/

/-- A byte has a smallest value. -/
instance neZeroByte : NeZero 256 := ⟨by decide⟩

/-- What `getrandom::fill` writes into the sixteen bytes. -/
abbrev RandomBytes := Fin 16 → Fin 256

/-- The system's random source: the result of each draw, `none` for a failed one. -/
abbrev Random := Nat → Option RandomBytes

def hexDigit (n : Nat) : Char := ("0123456789abcdef".toList).getD n '0'

/-- One byte as `{byte:02x}` formats it. -/
def hexByte (byte : Fin 256) : List Char := [hexDigit (byte.val / 16), hexDigit (byte.val % 16)]

/-- Sixteen bytes as an identity's text. -/
def hex (bytes : RandomBytes) : String := String.ofList ((ofFn bytes).flatMap hexByte)

/-- The identity types that the macro `ids!` makes. -/
inductive IdKind where
  | area | page | block | view | action | field | row | option
  deriving DecidableEq

/-- An identity: its text, under a type of its own for each kind of object. -/
@[ext]
structure Id (κ : IdKind) where
  asStr : String
  deriving DecidableEq

/-- An identity read back from a document key. -/
def Id.stored {κ : IdKind} (key : String) : Id κ := ⟨key⟩

abbrev AreaId := Id .area
abbrev PageId := Id .page
abbrev BlockId := Id .block
abbrev ViewId := Id .view
abbrev ActionId := Id .action
abbrev FieldId := Id .field
abbrev RowId := Id .row
abbrev OptionId := Id .option

/-- A person, as the account that signs in names them. -/
structure PersonId where
  asStr : String
  deriving DecidableEq

theorem hexDigit_inj : ∀ a b : Fin 16, hexDigit a = hexDigit b → a = b := by decide

theorem hexByte_inj {a b : Fin 256} (h : hexByte a = hexByte b) : a = b := by
  simp only [hexByte, cons.injEq, and_true] at h
  have hq := hexDigit_inj ⟨a.val / 16, by omega⟩ ⟨b.val / 16, by omega⟩ h.1
  have hr := hexDigit_inj ⟨a.val % 16, by omega⟩ ⟨b.val % 16, by omega⟩ h.2
  simp only [Fin.mk.injEq] at hq hr
  exact Fin.ext (by omega)

theorem flatMap_hexByte_inj : ∀ {xs ys : List (Fin 256)},
    xs.flatMap hexByte = ys.flatMap hexByte → xs = ys
  | [], [], _ => rfl
  | [], _ :: _, h => by simp [hexByte] at h
  | _ :: _, [], h => by simp [hexByte] at h
  | x :: xs, y :: ys, h => by
    obtain ⟨hb, ht⟩ := append_inj h rfl
    rw [hexByte_inj hb, flatMap_hexByte_inj ht]

/-- Different bytes give different identities. -/
theorem hex_inj {a b : RandomBytes} (h : hex a = hex b) : a = b := by
  have h := String.ofList_injective h
  exact ofFn_injective (flatMap_hexByte_inj h)

theorem length_hex (b : RandomBytes) : (hex b).length = 32 := by
  have h : ∀ l : List (Fin 256), (l.flatMap hexByte).length = 2 * l.length := by
    intro l
    induction l with
    | nil => rfl
    | cons x xs ih =>
      rw [flatMap_cons, length_append, hexByte]
      simp only [length_cons, length_nil]
      omega
  rw [hex, String.length_ofList, h, length_ofFn]

/-! ## Numbers -/

/-- A 64-bit float by its bits. -/
structure F64 where
  bits : Fin (2 ^ 64)
  deriving DecidableEq

namespace F64

def exponent (x : F64) : Nat := x.bits.val / 2 ^ 52 % 2 ^ 11

def mantissa (x : F64) : Nat := x.bits.val % 2 ^ 52

def isFinite (x : F64) : Bool := x.exponent ≠ 2047

def isNaN (x : F64) : Bool := x.exponent = 2047 ∧ x.mantissa ≠ 0

def zero : F64 := ⟨⟨0, by decide⟩⟩

def negZero : F64 := ⟨⟨2 ^ 63, by decide⟩⟩

/-- `x + 0.0` of a number that is not NaN: only `-0` changes. -/
def addZero (x : F64) : F64 := if x = negZero then zero else x

/-- Rust's `==` on floats. -/
def valueEq (x y : F64) : Bool :=
  !x.isNaN && !y.isNaN && (x = y || (x.addZero = zero && y.addZero = zero))

/-- The integer that `total_cmp` compares: negative floats count down from -1. -/
def totalKey (x : F64) : Int :=
  if x.bits.val < 2 ^ 63 then x.bits.val else -1 - ((x.bits.val : Int) - 2 ^ 63)

end F64

/-! ## Requests -/

/-- Who makes a request. -/
inductive Actor where
  | person (id : PersonId)
  deriving DecidableEq

/-- The surface a request comes through. -/
inductive Origin where
  | ui | api
  deriving DecidableEq

/-- How a Text Block reads. -/
inductive TextStyle where
  | paragraph
  | heading (level : Fin 256)
  | bullet
  | numbered
  | todo (done : Bool)
  | quote
  deriving DecidableEq

/-- The kind of a Database field, which decides the values its cells take. -/
inductive FieldKind where
  | text | number | select | date | checkbox
  deriving DecidableEq

/-- One cell's value. Numbers compare by their bits. -/
inductive Cell where
  | empty
  | text (value : String)
  | number (value : F64)
  | select (option : OptionId)
  | date (value : String)
  | checkbox (ticked : Bool)
  deriving DecidableEq

/-- Where a new row or field goes among the others. -/
inductive Place (α : Type) where
  | first
  | after (a : α)
  | last
  deriving DecidableEq

/-- One write to the Workspace. Text positions count UTF-16 code units. -/
inductive Mutation where
  | createArea (name : String)
  | createPage (area : AreaId) (parent : Option PageId) (title : String)
  | renamePage (page : PageId) (title : String)
  | addTextBlock (page : PageId) (after : Option ViewId) (text : String)
  | editText (page : PageId) (block : BlockId) (at_ delete : Nat) (insert : String)
  | removeView (page : PageId) (view : ViewId)
  | splitTextBlock (page : PageId) (block : BlockId) (view : ViewId) (at_ : Nat) (style : TextStyle)
  | joinTextBlock (page : PageId) (view : ViewId)
  | setTextStyle (page : PageId) (block : BlockId) (style : TextStyle)
  | setSectionBoundary (page : PageId) (view : ViewId) (boundary : Bool)
  | addDatabaseBlock (page : PageId) (after : Option ViewId) (name : String)
  | renameDatabase (page : PageId) (block : BlockId) (name : String)
  | addField (page : PageId) (block : BlockId) (place : Place FieldId) (name : String)
      (kind : FieldKind)
  | renameField (page : PageId) (block : BlockId) (field : FieldId) (name : String)
  | removeField (page : PageId) (block : BlockId) (field : FieldId)
  | addOption (page : PageId) (block : BlockId) (field : FieldId) (name : String) (color : Fin 256)
  | addRow (page : PageId) (block : BlockId) (place : Place RowId)
  | removeRow (page : PageId) (block : BlockId) (row : RowId)
  | setCell (page : PageId) (block : BlockId) (row : RowId) (field : FieldId) (value : Cell)
  deriving DecidableEq

/-- A write request: the mutation and who asks for it through which surface. -/
structure Request where
  actor : Actor
  origin : Origin
  mutation : Mutation
  deriving DecidableEq

/-- What an applied mutation created. -/
inductive Created where
  | area (id : AreaId)
  | page (id : PageId)
  | block (block : BlockId) (view : ViewId)
  | field (id : FieldId)
  | row (id : RowId)
  | option (id : OptionId)
  deriving DecidableEq

/-- A resource whose readers must refresh. -/
inductive Changed where
  | areas
  | pages (area : AreaId)
  | views (page : PageId)
  | block (page : PageId) (block : BlockId)
  deriving DecidableEq

/-- The answer to an applied request. -/
structure Applied where
  action : ActionId
  created : Option Created
  changed : List Changed
  deriving DecidableEq

/-- Why the pipeline refused a request. -/
inductive Error where
  | notAllowed
  | notFound
  | outOfRange
  | noChange
  | sectionBoundary
  | wrongKind
  | tooMany
  | random
  | document (message : String)
  | storage (message : String)
  deriving DecidableEq

/-! ## History -/

/-- Why the pipeline allowed an Action. -/
inductive Permission where
  | owner
  deriving DecidableEq

/-- What an Action did. -/
inductive Operation where
  | createWorkspace
  | mutation (m : Mutation)
  deriving DecidableEq

/-- A Workspace document. -/
inductive Document where
  | workspace
  | area (id : AreaId)
  | page (id : PageId)
  deriving DecidableEq

/-- One recorded Workspace mutation, with the change it made in each document it touched. -/
structure Action (Hash : Type) where
  id : ActionId
  actor : Actor
  origin : Origin
  permission : Permission
  operation : Operation
  changes : List (Document × Hash)

/-- The part of an Action that every one of its changes carries as its message. -/
structure Header where
  action : ActionId
  actor : Actor
  origin : Origin
  permission : Permission
  deriving DecidableEq

def Header.of {Hash : Type} (action : Action Hash) : Header where
  action := action.id
  actor := action.actor
  origin := action.origin
  permission := action.permission

end Watershed.Liquid
