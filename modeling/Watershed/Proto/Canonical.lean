/-
  Canonical JSON (`canonical.rs`): keys in order, strings in Unicode normalization form C, one
  spelling for each number.

  What the protocol takes from other crates is a parameter, `Libraries`: Unicode normalization,
  the JSON reader of `serde_json`, and the texts that Rust gives to floating-point numbers and
  to quoted strings in messages.
-/
import Mathlib.Algebra.Group.Int.Defs
import Mathlib.Algebra.GroupWithZero.Nat
import Watershed.Lib.JsonText

namespace Watershed.Proto

/-! ## JSON values -/

/-- A number of `serde_json`: an integer of type `u64` or, if it is negative, `i64`; or a
    floating-point number, by its bits. -/
inductive Number where
  | integer (i : Int) (range : -2 ^ 63 ≤ i ∧ i < 2 ^ 64)
  | float (bits : UInt64)
  deriving DecidableEq

namespace Number

def isInteger : Number → Bool
  | .integer _ _ => true
  | .float _ => false

def asU64 : Number → Option Nat
  | .integer i _ => if 0 ≤ i then some i.toNat else none
  | .float _ => none

def asI64 : Number → Option Int
  | .integer i _ => if i < 2 ^ 63 then some i else none
  | .float _ => none

/-- A number of type `u64`. -/
def ofU64 (n : UInt64) : Number :=
  .integer n.toNat ⟨by have := n.toNat.zero_le; omega, by exact_mod_cast n.toNat_lt⟩

end Number

abbrev Value := Json Number

/-- A value as `serde_json` keeps it: the members of every object are in the order of their
    keys. -/
abbrev SortedValue := { v : Value // v.sorted = true }

/-- Exclusive v0 recursion limit for nested JSON arrays and objects. -/
def jsonNestingLimitV0 : Nat := 128

/-! ## Other crates -/

/-- What the protocol uses of other crates and of Rust's standard library. -/
structure Libraries where
  /-- Unicode normalization form C. -/
  nfc : String → String
  /-- `serde_json::from_str`. -/
  fromStr : String → Except String SortedValue
  /-- `value == 0.0`. -/
  floatIsZero : UInt64 → Bool
  /-- `value.fract() == 0.0`. -/
  floatIsIntegral : UInt64 → Bool
  /-- `value.to_string()`. -/
  floatDecimal : UInt64 → String
  /-- `format!("{value:e}")`. -/
  floatScientific : UInt64 → String
  /-- `format!("{text:?}")`. -/
  debug : String → String
  /-- ASCII text is its own normal form. -/
  nfc_ascii : ∀ s, (s.toList.all fun c => c.toNat < 128) = true → nfc s = s
  /-- The compact text of a value with integer numbers is read back, as long as it stays below
      the reader's recursion limit. -/
  fromStr_compact : ∀ (v : SortedValue) (num : Number → List Char),
    v.1.numbersAll Number.isInteger = true →
    v.1.reaches jsonNestingLimitV0 0 = false →
    (∀ i h, num (.integer i h) = (toString i).toList) →
    fromStr (String.ofList (v.1.compact num)) = .ok v

/-! ## Unicode -/

variable (L : Libraries)

def isNfc (value : String) : Bool := L.nfc value = value

def nfcString (value : String) : String := if isNfc L value then value else L.nfc value

/-- Every string value in normal form; keys as they are. -/
def nfcJsonStringValues (value : SortedValue) : SortedValue :=
  ⟨value.1.mapStrings (nfcString L), Json.sorted_mapStrings _ _ value.2⟩

/-- Whether some array or object is nested at the limit or below it. The source walks the value
    with a stack of its own. -/
def jsonNestingReachesLimit (value : Value) (enclosingDepth : Nat) : Bool :=
  value.reaches jsonNestingLimitV0 enclosingDepth

/-! ## Canonical text -/

/-- Invalid field in one complete v0 event envelope. -/
structure EventValidationError where
  field : String
  requirement : String
  deriving DecidableEq

inductive CanonicalJsonError where
  | invalidEvent (error : EventValidationError)
  | nonObjectPayload
  | unsupportedProtocolVersion (protocolVersion : String)
  | jsonNestingLimitExceeded
  | duplicateNormalizedObjectKey (key : String)
  deriving DecidableEq

def canonicalNumber : Number → String
  | .integer i _ => toString i
  | .float bits =>
    if L.floatIsZero bits then "0"
    else if L.floatIsIntegral bits then L.floatDecimal bits
    else
      let decimal := L.floatDecimal bits
      let scientific := L.floatScientific bits
      if scientific.utf8ByteSize < decimal.utf8ByteSize then scientific else decimal

/-- Texts with a comma between any two. -/
def separated : List (List Char) → List Char
  | [] => []
  | item :: items => item ++ items.flatMap fun item => ',' :: item

/-- The first key that was seen before. -/
def repeatedKey (seen : List String) : List String → Option String
  | [] => none
  | key :: keys => if key ∈ seen then some key else repeatedKey (key :: seen) keys

mutual

def appendCanonicalJson : Value → Except CanonicalJsonError (List Char)
  | .null => .ok "null".toList
  | .bool value => .ok (if value then "true" else "false").toList
  | .number value => .ok (canonicalNumber L value).toList
  | .string value => .ok (Json.quote (L.nfc value).toList)
  | .array values => do
    let items ← (canonicalItems values).mapM id
    return '[' :: separated items ++ [']']
  | .object map =>
    match repeatedKey [] (map.map fun entry => L.nfc entry.1) with
    | some key => .error (.duplicateNormalizedObjectKey key)
    | none => do
      let entries := (canonicalEntries map).insertionSort fun left right => left.1 ≤ right.1
      let items ← entries.mapM fun entry => entry.2.map fun text =>
        Json.quote entry.1.toList ++ ':' :: text
      return '\x7b' :: separated items ++ ['\x7d']

/-- The texts of an array's items, each with its own error. -/
def canonicalItems : List Value → List (Except CanonicalJsonError (List Char))
  | [] => []
  | value :: values => appendCanonicalJson value :: canonicalItems values

/-- The normalized keys of an object with the texts of their values. -/
def canonicalEntries :
    List (String × Value) → List (String × Except CanonicalJsonError (List Char))
  | [] => []
  | (key, value) :: map => (L.nfc key, appendCanonicalJson value) :: canonicalEntries map

end

/-- Serializes a JSON value with deterministic key ordering and NFC normalization. -/
def canonicalJson (value : Value) : Except CanonicalJsonError String :=
  if jsonNestingReachesLimit value 0 then .error .jsonNestingLimitExceeded
  else (appendCanonicalJson L value).map String.ofList

end Watershed.Proto
