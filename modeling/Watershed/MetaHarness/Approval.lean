/-
  Approval requests (`approval.rs`, `visible.rs`, and `approval` of `pi.rs`): what a tool call
  that waits for approval shows.

  A call shows its tool and its text with the characters that hide or reorder text written out.
-/
import Mathlib.Data.Nat.Digits.Defs
import Watershed.Proto.Canonical

namespace Watershed.MetaHarness

open Proto

abbrev RequestId := String
abbrev ItemId := UInt64

/-! ## Text as it is shown -/

/-- `char::is_control`: the general category Cc. -/
def isControl (c : Char) : Bool := c.toNat < 0x20 || (0x7f ≤ c.toNat && c.toNat < 0xa0)

/-- Format characters, line separators and characters that renderers may ignore. -/
def hidden : List (Nat × Nat) :=
  [(0xad, 0xad), (0x34f, 0x34f), (0x600, 0x605), (0x61c, 0x61c), (0x6dd, 0x6dd), (0x70f, 0x70f),
   (0x890, 0x891), (0x8e2, 0x8e2), (0x115f, 0x1160), (0x17b4, 0x17b5), (0x180b, 0x180f),
   (0x200b, 0x200f), (0x2028, 0x202e), (0x2060, 0x206f), (0x3164, 0x3164), (0xfe00, 0xfe0f),
   (0xfeff, 0xfeff), (0xffa0, 0xffa0), (0xfff0, 0xfffb), (0x110bd, 0x110bd), (0x110cd, 0x110cd),
   (0x13430, 0x1343f), (0x1bca0, 0x1bca3), (0x1d173, 0x1d17a), (0xe0000, 0xe0fff)]

/-- Whether a character hides or reorders text. -/
def hides (c : Char) : Bool :=
  (isControl c && c ≠ '\n' && c ≠ '\t') || hidden.any fun r => r.1 ≤ c.toNat && c.toNat ≤ r.2

def hexDigit (n : Nat) : Char := Char.ofNat (if n < 10 then 0x30 + n else 0x37 + n)

/-- `format!("{:04X}", n)`. -/
def hex (n : Nat) : List Char := let digits := (Nat.digits 16 n).reverse.map hexDigit
  List.replicate (4 - digits.length) '0' ++ digits

def codePoint (c : Char) : List Char := '<' :: 'U' :: '+' :: (hex c.toNat ++ ['>'])

/-- Each character that `marked` picks is written out, and so is the `<` of a literal `<U+`. -/
def writtenOut (marked : Char → Bool) : List Char → List Char
  | [] => []
  | c :: rest =>
    if marked c ∨ (c = '<' ∧ ['U', '+'] <+: rest) then codePoint c ++ writtenOut marked rest
    else c :: writtenOut marked rest

def visible (text : String) : String := .ofList (writtenOut hides text.toList)

def visibleName (name : String) : String :=
  .ofList (writtenOut (fun c => c = '\n' || c = '\t' || hides c) name.toList)

/-! ## The request of a call -/

inductive RequestKind where
  | commandExecutionApproval
  | fileChangeApproval
  | toolApproval
  deriving DecidableEq

inductive ItemKind where
  | userMessage
  | assistantMessage
  | reasoning
  | commandExecution
  | fileChange
  | dynamicToolCall
  deriving DecidableEq

def itemKind (tool : String) : ItemKind :=
  if tool = "bash" then .commandExecution
  else if tool = "edit" ∨ tool = "write" then .fileChange
  else .dynamicToolCall

def requestKind (tool : String) : RequestKind :=
  match itemKind tool with
  | .commandExecution => .commandExecutionApproval
  | .fileChange => .fileChangeApproval
  | _ => .toolApproval

/-- `record.get(field).and_then(Value::as_str)`. -/
def str? (record : Value) (field : String) : Option String := (record.get field).bind Json.asStr

def strField (record : Value) (field : String) : String := (str? record field).getD ""

/-- `record.get(field).and_then(Value::as_bool) == Some(true)`. -/
def isTrue (record : Value) (field : String) : Bool :=
  match record.get field with
  | some (.bool b) => b
  | _ => false

/-- What the session uses of `serde_json`. -/
structure JsonLibrary where
  /-- `serde_json::from_str`. -/
  fromStr : String → Option Value
  /-- `Value::to_string`. -/
  toText : Value → String

/-- An approval request. What it shows of an edit is left out. -/
structure Approval where
  request : RequestId
  kind : RequestKind
  tool : String
  text : String
  arguments : String
  readOnly : Bool
  session : Option String
  item : Option ItemId
  deriving DecidableEq

variable (L : JsonLibrary)

/-- The whole call a request shows: a shell command itself, other calls their arguments. -/
def callText (kind : RequestKind) (arguments : String) : String :=
  let call := if kind = .commandExecutionApproval then L.fromStr arguments else none
  visible ((call.bind (str? · "command")).getD arguments)

/-- The payload of a request; an unreadable one is empty. -/
def payload (text : String) : Value := ((L.fromStr text).filter Json.isObject).getD (.object [])

def builtin (payload : Value) : Bool := isTrue payload "builtin"

/-- Only pi's own tools are what their names say. `item` finds a running call. -/
def approval (request : RequestId) (text : String) (item : String → Option ItemId) : Approval :=
  let payload := payload L text
  let tool := strField payload "tool"
  let arguments := ((payload.get "arguments").map L.toText).getD ""
  let kind := if builtin payload then requestKind tool else .toolApproval
  { request, kind, tool := visibleName tool, text := callText L kind arguments, arguments,
    readOnly := isTrue payload "readOnly", session := str? payload "session",
    item := item (strField payload "toolCallId") }

end Watershed.MetaHarness
