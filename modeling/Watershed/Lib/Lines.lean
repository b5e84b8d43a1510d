/-
  Text in lines: each line ends with a separator, the last one too.

  `splitTerminator` is Rust's `str::split_terminator`; a text made of lines that do not hold the
  separator is cut back into exactly these lines.
-/
import Mathlib.Data.List.Basic

open List

namespace Watershed

variable {α : Type} [DecidableEq α]

/-- The pieces between the separators. What follows the last separator is a piece only if it is
    not empty. -/
def splitTerminator (separator : α) : List α → List (List α)
  | [] => []
  | c :: cs =>
    if c = separator then [] :: splitTerminator separator cs
    else
      match splitTerminator separator cs with
      | [] => [[c]]
      | piece :: pieces => (c :: piece) :: pieces

/-- Every piece followed by the separator. -/
def terminated (separator : α) (pieces : List (List α)) : List α :=
  pieces.flatMap (· ++ [separator])

variable {separator : α} {pieces : List (List α)}

theorem splitTerminator_append {piece : List α} (h : separator ∉ piece) (rest : List α) :
    splitTerminator separator (piece ++ separator :: rest) =
      piece :: splitTerminator separator rest := by
  induction piece with
  | nil => simp [splitTerminator]
  | cons c cs ih =>
    have hc : separator ≠ c := fun e => h (e ▸ mem_cons_self)
    have hcs : separator ∉ cs := fun hm => h (mem_cons_of_mem _ hm)
    simp [splitTerminator, ih hcs, Ne.symm hc]

theorem splitTerminator_terminated
    (h : ∀ piece ∈ pieces, separator ∉ piece) :
    splitTerminator separator (terminated separator pieces) = pieces := by
  induction pieces with
  | nil => rfl
  | cons piece pieces ih =>
    have hrest := ih (forall_mem_cons.mp h).2
    simp only [terminated, flatMap_cons, append_assoc, singleton_append] at hrest ⊢
    rw [splitTerminator_append (h piece mem_cons_self), hrest]

omit [DecidableEq α] in
theorem getLast?_terminated (h : pieces ≠ []) :
    (terminated separator pieces).getLast? = some separator := by
  obtain ⟨first, last, rfl⟩ := eq_nil_or_concat pieces |>.resolve_left h
  rw [terminated, concat_eq_append, flatMap_append, flatMap_singleton, ← append_assoc,
    List.getLast?_concat]

end Watershed
