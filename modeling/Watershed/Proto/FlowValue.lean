/-
  Closed, bounded `flow-value-v0` values (`flow_value.rs`, `session_object.rs`).

  A value is a wrapper `{ "type": tag, "value": payload }`; lists and maps hold further
  wrappers. The check counts every wrapper it enters, so it carries the count along.
-/
import Watershed.Proto.Canonical
import Watershed.Proto.Metadata

namespace Watershed.Proto

/-- Maximum recursive depth of one `flow-value-v0`, including its root. -/
def flowValueMaxDepthV0 : Nat := 16
/-- Maximum direct members in one `flow-value-v0` list or map. -/
def flowValueMaxMembersV0 : Nat := 1024
/-- Maximum tagged nodes in one `flow-value-v0`. -/
def flowValueMaxNodesV0 : Nat := 4096
/-- Maximum canonical JSON bytes in one inline `flow-value-v0`. -/
def flowValueMaxBytesV0 : Nat := 64 * 1024
/-- Maximum Unicode scalar values in one `flow-value-v0` map key. -/
def flowValueMaxKeyCharsV0 : Nat := 256

/-- Failure to validate one closed, bounded `flow-value-v0` value. -/
structure FlowValueValidationError where
  message : String
  deriving DecidableEq

/-! ## Integers -/

inductive CanonicalIntegerError where
  | invalid
  | nonCanonical
  deriving DecidableEq

/-- `value.parse::<i64>()`: an optional sign and at least one digit. -/
def parseI64 (value : String) : Option Int := let (negative, digits) := match value.toList with
    | '-' :: digits => (true, digits)
    | '+' :: digits => (false, digits)
    | digits => (false, digits)
  if digits ≠ [] ∧ digits.all isAsciiDigit then
    let magnitude : Int := Nat.ofDigitChars 10 digits 0
    let parsed := if negative then -magnitude else magnitude
    if -2 ^ 63 ≤ parsed ∧ parsed < 2 ^ 63 then some parsed else none
  else none

/-- Parses a canonically spelled signed 64-bit decimal integer. -/
def parseCanonicalI64 (value : String) : Except CanonicalIntegerError Int :=
  match parseI64 value with
  | none => .error .invalid
  | some parsed => if toString parsed ≠ value then .error .nonCanonical else .ok parsed

/-! ## Session objects -/

def sessionObjectUriPrefix : String := "session-object:sha256:"

inductive SessionObjectUriError where
  | nonCanonicalUri
  | invalidDigest
  deriving DecidableEq

/-- Whether a digest is exactly 64 lowercase hexadecimal characters. -/
def isLowercaseSha256Hex (value : List Char) : Bool :=
  value.length = 64 && value.all fun c => isAsciiDigit c || ('a' ≤ c && c ≤ 'f')

/-- Parses one canonical session-object URI and returns its lowercase SHA-256 digest. -/
def parseSessionObjectUri (uri : String) : Except SessionObjectUriError String :=
  if sessionObjectUriPrefix.toList.isPrefixOf uri.toList then
    let digest := uri.toList.drop sessionObjectUriPrefix.toList.length
    if isLowercaseSha256Hex digest then .ok (String.ofList digest) else .error .invalidDigest
  else .error .nonCanonicalUri

/-! ## Values -/

def flowValueError {α : Type} (message : String) : Except FlowValueValidationError α :=
  .error ⟨message⟩

def typeError {α : Type} (path expected : String) : Except FlowValueValidationError α :=
  flowValueError (path ++ " value must be a " ++ expected)

def wrapperError {α : Type} (path : String) : Except FlowValueValidationError α :=
  flowValueError (path ++ " must be a closed tagged flow-value-v0 wrapper")

def validateInteger (value : Value) (path : String) : Except FlowValueValidationError Unit :=
  match value.asStr with
  | none => typeError path "canonical signed 64-bit decimal string"
  | some value =>
    match parseCanonicalI64 value with
    | .ok _ => .ok ()
    | .error .invalid =>
      flowValueError (path ++ " integer value must be a signed 64-bit decimal string")
    | .error .nonCanonical =>
      flowValueError (path ++ " integer value must use canonical decimal form")

variable (L : Libraries)

def validateNfc (value path : String) : Except FlowValueValidationError Unit :=
  if !isNfc L value then flowValueError (path ++ " must use NFC text") else .ok ()

def validateText (value : Value) (path : String) : Except FlowValueValidationError Unit :=
  match value.asStr with
  | none => typeError path "string"
  | some value => validateNfc L value path

def validateSessionObject (value : Value) (path : String) : Except FlowValueValidationError Unit :=
  match value.asStr with
  | none => typeError path "session-object URI string"
  | some uri => do
    validateNfc L uri path
    match parseSessionObjectUri uri with
    | .ok _ => .ok ()
    | .error .nonCanonicalUri =>
      flowValueError (path ++ " session-object value must use its canonical URI")
    | .error .invalidDigest =>
      flowValueError (path ++ " session-object value must use a lowercase SHA-256 digest")

mutual

/-- Checks one wrapper and returns how many were entered so far. An object keeps its members in
    the order of their keys, so a wrapper has `type` before `value`. -/
def validateAt (value : Value) (depth nodes : Nat) (path : String) :
    Except FlowValueValidationError Nat :=
  if flowValueMaxDepthV0 < depth then
    flowValueError (path ++ " depth " ++ toString depth ++ " exceeds max " ++
      toString flowValueMaxDepthV0)
  else if flowValueMaxNodesV0 < nodes + 1 then
    flowValueError ("$ node count exceeds max " ++ toString flowValueMaxNodesV0)
  else
    match value with
    | .object [(typeKey, tag), (valueKey, payload)] =>
      if typeKey ≠ "type" ∨ valueKey ≠ "value" then wrapperError path
      else
        match tag.asStr with
        | none => flowValueError (path ++ ".type must be a string")
        | some tag =>
          if tag = "boolean" then
            match payload with
            | .bool _ => .ok (nodes + 1)
            | _ => typeError path "boolean"
          else if tag = "integer" then
            (validateInteger payload path).map fun _ => nodes + 1
          else if tag = "string" then
            (validateText L payload path).map fun _ => nodes + 1
          else if tag = "session-object" then
            (validateSessionObject L payload path).map fun _ => nodes + 1
          else if tag = "list" then
            match payload with
            | .array values =>
              if flowValueMaxMembersV0 < values.length then
                flowValueError (path ++ " member count exceeds max " ++
                  toString flowValueMaxMembersV0)
              else validateItems values 0 (depth + 1) (nodes + 1) path
            | _ => typeError path "list"
          else if tag = "map" then
            match payload with
            | .object values =>
              if flowValueMaxMembersV0 < values.length then
                flowValueError (path ++ " member count exceeds max " ++
                  toString flowValueMaxMembersV0)
              else validateMembers values (depth + 1) (nodes + 1) path
            | _ => typeError path "map"
          else flowValueError (path ++ ".type is not a recognized flow-value-v0 type")
    | _ => wrapperError path

def validateItems (values : List Value) (index depth nodes : Nat) (path : String) :
    Except FlowValueValidationError Nat :=
  match values with
  | [] => .ok nodes
  | value :: values => do
    let nodes ← validateAt value depth nodes (path ++ "[" ++ toString index ++ "]")
    validateItems values (index + 1) depth nodes path

def validateMembers (values : List (String × Value)) (depth nodes : Nat) (path : String) :
    Except FlowValueValidationError Nat :=
  match values with
  | [] => .ok nodes
  | (key, value) :: values => do
    let keyPath := path ++ " key"
    if key = "" ∨ flowValueMaxKeyCharsV0 < key.toList.length then
      flowValueError (keyPath ++ " must contain 1 to " ++ toString flowValueMaxKeyCharsV0 ++
        " characters")
    else
      validateNfc L key keyPath
      let nodes ← validateAt value depth nodes (path ++ "." ++ key)
      validateMembers values depth nodes path

end

/-- Whether the compact JSON of a checked value is within its byte limit. -/
def canonicalFlowValueFitsByteLimit (value : Value) : Bool :=
  (String.ofList (value.compact fun n => (canonicalNumber L n).toList)).utf8ByteSize ≤
    flowValueMaxBytesV0

/-- Validates one closed `flow-value-v0` JSON wrapper and all protocol bounds. -/
def validateFlowValueV0 (value : Value) : Except FlowValueValidationError Unit := do
  let _ ← validateAt L value 1 0 "$"
  if !canonicalFlowValueFitsByteLimit L value then
    flowValueError ("$ canonical JSON exceeds max " ++ toString flowValueMaxBytesV0 ++ " bytes")
  else .ok ()

end Watershed.Proto
