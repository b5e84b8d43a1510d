/-
  Reading `flow-value-v0` values (`values.rs`) and writing session-object URIs
  (`session_object.rs`).

  A value is checked before it is read, so the reader only meets wrappers that the check takes.
-/
import Watershed.Proto.Forms
import Watershed.Script.Semantics

namespace Watershed.Script

open Watershed.Proto
open Fallible

/-- Builds one canonical session-object URI from a lowercase SHA-256 digest. -/
def buildSessionObjectUri (digest : String) : Except String String :=
  if isLowercaseSha256Hex digest.toList then .ok (sessionObjectUriPrefix ++ digest)
  else .error "session-object digest must be lowercase SHA-256 hex"

mutual

/-- The value in a closed wrapper. -/
def FlowValue.fromValue? : Value → Option FlowValue
  | .object [(_, .string tag), (_, payload)] =>
    if tag = "boolean" then
      match payload with
      | .bool value => some (.boolean value)
      | _ => none
    else if tag = "integer" then
      match payload with
      | .string value => some (.integer value)
      | _ => none
    else if tag = "string" then
      match payload with
      | .string value => some (.string value)
      | _ => none
    else if tag = "session-object" then
      match payload with
      | .string value => some (.sessionObject value)
      | _ => none
    else if tag = "list" then
      match payload with
      | .array values => (fromValues? values).map .list
      | _ => none
    else if tag = "map" then
      match payload with
      | .object values => (fromEntries? values).map .map
      | _ => none
    else none
  | _ => none

def fromValues? : List Value → Option (List FlowValue)
  | [] => some []
  | value :: values => do
    let first ← FlowValue.fromValue? value
    let rest ← fromValues? values
    some (first :: rest)

def fromEntries? : List (String × Value) → Option (List (String × FlowValue))
  | [] => some []
  | (key, value) :: values => do
    let first ← FlowValue.fromValue? value
    let rest ← fromEntries? values
    some ((key, first) :: rest)

end

/-- Parses one validated closed `flow-value-v0` JSON wrapper. -/
def parseFlowValueV0 (L : Libraries) (value : Value) : Except String FlowValue :=
  match validateFlowValueV0 L value with
  | .error error => .error error.message
  | .ok _ =>
    match FlowValue.fromValue? value with
    | some value => .ok value
    | none => .error "invalid flow-value-v0"

mutual

theorem fromValue?_toValue : ∀ value : FlowValue, FlowValue.fromValue? value.toValue = some value
  | .boolean _ | .integer _ | .string _ | .sessionObject _ => rfl
  | .list values => by
    change (fromValues? (itemValues values)).map FlowValue.list = _
    rw [fromValues?_itemValues values, Option.map_some]
  | .map values => by
    change (fromEntries? (entryValues values)).map FlowValue.map = _
    rw [fromEntries?_entryValues values, Option.map_some]

theorem fromValues?_itemValues :
    ∀ values : List FlowValue, fromValues? (itemValues values) = some values
  | [] => rfl
  | value :: values => by
    rw [itemValues, fromValues?, fromValue?_toValue value, fromValues?_itemValues values]
    rfl

theorem fromEntries?_entryValues :
    ∀ values : List (String × FlowValue), fromEntries? (entryValues values) = some values
  | [] => rfl
  | (key, value) :: values => by
    rw [entryValues, fromEntries?, fromValue?_toValue value, fromEntries?_entryValues values]
    rfl

end

theorem validateFlowValueV0_of_validateFlowValue {L : Libraries} {value : FlowValue}
    (h : validateFlowValue L value = .ok ()) : validateFlowValueV0 L value.toValue = .ok () := by
  obtain ⟨-, h⟩ := check_bind_eq_ok.mp h
  split at h
  · assumption
  · cases h

/-- The check takes exactly the wrappers of the closed grammar within its bounds, and a value that
    passes it is read back from its JSON. -/
theorem flowValue_spec (L : Libraries) :
    (∀ v : SortedValue, validateFlowValueV0 L v.1 = .ok () ↔
      (∃ nodes ≤ flowValueMaxNodesV0, Wrapped L flowValueMaxDepthV0 nodes v.1) ∧
      ∃ text, canonicalJson L v.1 = .ok text ∧ text.utf8ByteSize ≤ flowValueMaxBytesV0) ∧
    ∀ value : FlowValue, validateFlowValue L value = .ok () →
      parseFlowValueV0 L value.toValue = .ok value := by
  constructor
  · intro v
    have hwalk := exact (L := L) v.1 flowValueMaxDepthV0 1 0 "$"
    have hfits : canonicalFlowValueFitsByteLimit L v.1 = true ↔
        (String.ofList (v.1.compact (numberText L))).utf8ByteSize ≤ flowValueMaxBytesV0 :=
      decide_eq_true_iff
    rw [validateFlowValueV0, bind_eq_ok]
    constructor
    · rintro ⟨count, h, hsize⟩
      obtain ⟨nodes, ⟨hwrapped, hnodes⟩, -⟩ := (hwalk count rfl).mp h
      refine ⟨⟨nodes, by omega, hwrapped⟩, _, hwrapped.canonicalJson v.2, ?_⟩
      exact hfits.mp (by simpa using (ite_error_eq_ok.mp hsize).1)
    · rintro ⟨⟨nodes, hnodes, hwrapped⟩, text, htext, hsize⟩
      refine ⟨_, (hwalk _ rfl).mpr ⟨nodes, ⟨hwrapped, by omega⟩, rfl⟩, ?_⟩
      rw [hwrapped.canonicalJson v.2] at htext
      cases htext
      exact if_neg (by simp [hfits.mpr hsize])
  · intro value h
    rw [parseFlowValueV0, validateFlowValueV0_of_validateFlowValue h, fromValue?_toValue]

theorem flowValue_spec_map : parseFlowValueV0 asciiLibraries
    (FlowValue.map [("a", .list [.boolean true]), ("b", .integer "7")]).toValue =
      .ok (.map [("a", .list [.boolean true]), ("b", .integer "7")]) :=
  (flowValue_spec asciiLibraries).2 _ (by decide +kernel)

end Watershed.Script
