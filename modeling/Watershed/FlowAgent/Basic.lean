/-
  What the modules of the agent runtime share: its errors and the arithmetic of its counters.
-/
import Watershed.Proto.Event
import Watershed.Proto.ExecutorTypes

namespace Watershed.FlowAgent

open Watershed.Proto

/-! ## Errors -/

inductive RuntimeError where
  | protocol (message : String)
  /-- A protocol error whose text ends with what the deserializer says about an event. -/
  | invalidEvent (text : String) (error : DecodeError)
  /-- What the operating system says about a file. -/
  | io (path : String) (source : String)
  | usage (message : String)
  /-- What `serde_json` says about a value. -/
  | json (error : String)
  /-- Executor selection, framing or Sandbox preparation failed. -/
  | executor (code : Executor.ExecutorErrorCodeV0) (message : String)
  /-- The active productive CLI operation was cancelled by the user. -/
  | cancelled
  deriving DecidableEq

/-- Fails with a protocol error when `refused` holds. -/
def refuseIf (refused : Prop) [Decidable refused] (message : String) : Except RuntimeError Unit :=
  if refused then .error (.protocol message) else .ok ()

/-- Fails with a protocol error about what was found. -/
def refuseSome {α : Type} (found : Option α) (message : α → String) : Except RuntimeError Unit :=
  match found with
  | some a => .error (.protocol (message a))
  | none => .ok ()

/-- `ok_or_else` with a protocol error. -/
def require {α : Type} (found : Option α) (message : String) : Except RuntimeError α :=
  match found with
  | some a => .ok a
  | none => .error (.protocol message)

variable {message : String} {u : Unit} {α : Type} {found : Option α}

@[simp] theorem refuseIf_eq_ok {refused : Prop} [Decidable refused] :
    refuseIf refused message = .ok u ↔ ¬ refused := by
  unfold refuseIf
  split <;> simp [*]

@[simp] theorem refuseSome_eq_ok {message : α → String} :
    refuseSome found message = .ok u ↔ found = none := by
  cases found <;> simp [refuseSome]

@[simp] theorem require_eq_ok {a : α} : require found message = .ok a ↔ found = some a := by
  cases found <;> simp [require]

/-! ## Counters -/

/-- `saturating_add` of `u64` and `usize`. -/
def saturatingAdd (a b : Nat) : Nat := min (a + b) (2 ^ 64 - 1)

/-! ## Limits -/

def maxSessionEventBytes : Nat := 352 * 1024 * 1024

def maxFlowEvents : Nat := 155750

end Watershed.FlowAgent
