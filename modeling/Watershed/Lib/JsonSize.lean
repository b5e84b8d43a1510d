/-
  How many bytes the compact text of a JSON value takes in UTF-8.

  `textSize` bounds them, and does not depend on the order of the members of an object.
-/
import Watershed.Lib.JsonMembers
import Watershed.Lib.JsonText
import Watershed.Lib.Utf8

open List

namespace Watershed

/-! ## Texts -/

/-- The bytes that characters take in UTF-8. -/
def byteSize : List Char → Nat
  | [] => 0
  | c :: cs => c.utf8Size + byteSize cs

theorem byteSize_nil : byteSize [] = 0 := rfl

theorem byteSize_cons (c : Char) (cs : List Char) : byteSize (c :: cs) = c.utf8Size + byteSize cs :=
  rfl

theorem byteSize_append (cs ds : List Char) : byteSize (cs ++ ds) = byteSize cs + byteSize ds := by
  induction cs with
  | nil => rw [nil_append, byteSize_nil, Nat.zero_add]
  | cons c cs ih => rw [cons_append, byteSize_cons, ih, byteSize_cons, Nat.add_assoc]

theorem length_utf8 (text : String) : (utf8 text).length = byteSize text.toList := by
  rw [utf8]
  induction text.toList with
  | nil => rfl
  | cons c cs ih =>
    rw [flatMap_cons, length_append, String.length_utf8EncodeChar, ih, byteSize_cons]

theorem length_le_byteSize (cs : List Char) : cs.length ≤ byteSize cs := by
  induction cs with
  | nil => simp
  | cons c cs ih =>
    have := c.utf8Size_pos
    rw [length_cons, byteSize_cons]
    omega

/-- ASCII characters take one byte each. -/
theorem byteSize_ascii {cs : List Char} (h : ∀ c ∈ cs, c.toNat < 128) : byteSize cs = cs.length := by
  induction cs with
  | nil => rfl
  | cons c cs ih =>
    have hc : c.utf8Size = 1 := Char.utf8Size_eq_one_iff.mpr
      (UInt32.le_iff_toNat_le.mpr (Nat.le_of_lt_succ (h c mem_cons_self)))
    rw [byteSize_cons, hc, ih (forall_mem_cons.mp h).2, length_cons]
    omega

namespace Json

/-- The bytes of a quoted text. -/
def quoteSize (text : String) : Nat := byteSize (quote text.toList)

theorem quoteSize_eq (text : String) :
    quoteSize text = 2 + byteSize (text.toList.flatMap escape) := by
  have hquote : ('"' : Char).utf8Size = 1 := by decide
  rw [quoteSize, quote, cons_append, byteSize_cons, byteSize_append, byteSize_cons,
    byteSize_nil, hquote]
  omega

variable {text : String}

/-- A bound of the bytes of each character bounds those of the text. -/
theorem quoteSize_le_of {bound : Char → Nat}
    (h : ∀ c ∈ text.toList, byteSize (escape c) ≤ bound c) {total : Nat}
    (htotal : text.toList.foldr (fun c n => bound c + n) 0 ≤ total) :
    quoteSize text ≤ 2 + total := by
  rw [quoteSize_eq]
  refine Nat.add_le_add_left (le_trans ?_ htotal) 2
  generalize text.toList = cs at h
  induction cs with
  | nil => exact le_rfl
  | cons c cs ih =>
    rw [flatMap_cons, byteSize_append, foldr_cons]
    exact Nat.add_le_add (h c mem_cons_self) (ih (forall_mem_cons.mp h).2)

/-- A character that is no control character at most doubles. -/
theorem byteSize_escape {c : Char} (h : 32 ≤ c.toNat) : byteSize (escape c) ≤ 2 * c.utf8Size := by
  have hpos := c.utf8Size_pos
  unfold escape
  cases hfind : shortEscapes.find? fun x => x.1 = c with
  | some x =>
    have hshort : ∀ x ∈ shortEscapes, byteSize ['\\', x.2] = 2 := by decide
    have := hshort x (mem_of_find?_eq_some hfind)
    dsimp only
    omega
  | none =>
    dsimp only
    rw [if_neg (by omega), byteSize_cons, byteSize_nil]
    omega

theorem quoteSize_le (h : ∀ c ∈ text.toList, 32 ≤ c.toNat) :
    quoteSize text ≤ 2 + 2 * byteSize text.toList := by
  refine quoteSize_le_of (fun c hc => byteSize_escape (h c hc)) ?_
  induction text.toList with
  | nil => exact le_rfl
  | cons c cs ih =>
    rw [foldr_cons, byteSize_cons]
    omega

/-- No character takes more than four bytes. -/
theorem quoteSize_le_length (h : ∀ c ∈ text.toList, 32 ≤ c.toNat) :
    quoteSize text ≤ 2 + 4 * text.toList.length := by
  have hescape (c : Char) (hc : 32 ≤ c.toNat) : byteSize (escape c) ≤ 4 := by
    unfold escape
    cases hfind : shortEscapes.find? fun x => x.1 = c with
    | some x =>
      have hshort : ∀ x ∈ shortEscapes, byteSize ['\\', x.2] ≤ 4 := by decide
      exact hshort x (mem_of_find?_eq_some hfind)
    | none =>
      dsimp only
      rw [if_neg (by omega), byteSize_cons, byteSize_nil]
      exact c.utf8Size_le_four
  refine quoteSize_le_of (fun c hc => hescape c (h c hc)) ?_
  induction text.toList with
  | nil => exact le_rfl
  | cons c cs ih =>
    rw [foldr_cons, length_cons]
    omega

/-! ## Values -/

variable {N : Type}

mutual

/-- A bound of the bytes of a value's compact text, for the bytes of its numbers. -/
def textSize (number : N → Nat) : Json N → Nat
  | .null => 4
  | .bool _ => 5
  | .number n => number n
  | .string text => quoteSize text
  | .array values => 2 + textSizeItems number values
  | .object fields => 2 + textSizeFields number fields

def textSizeItems (number : N → Nat) : List (Json N) → Nat
  | [] => 0
  | value :: values => value.textSize number + 1 + textSizeItems number values

def textSizeFields (number : N → Nat) : List (String × Json N) → Nat
  | [] => 0
  | (key, value) :: fields =>
    quoteSize key + 1 + value.textSize number + 1 + textSizeFields number fields

end

variable {num : N → List Char}

/-- The order of members does not matter. -/
theorem textSizeFields_perm (number : N → Nat) {fields others : List (String × Json N)}
    (h : fields.Perm others) : textSizeFields number fields = textSizeFields number others := by
  induction h with
  | nil => rfl
  | cons x _ ih => rw [textSizeFields, ih, textSizeFields]
  | swap x y fields =>
    simp only [textSizeFields]
    omega
  | trans _ _ ih ih' => rw [ih, ih']

theorem textSizeFields_byKey (number : N → Nat) (fields : List (String × Json N)) :
    textSizeFields number (byKey fields) = textSizeFields number fields :=
  textSizeFields_perm number (perm_byKey fields)

theorem byteSize_compactItems {values : List (Json N)}
    (h : ∀ v ∈ values, byteSize (v.compact num) ≤ v.textSize fun n => byteSize (num n)) :
    byteSize (compactItems num values) ≤ textSizeItems (fun n => byteSize (num n)) values := by
  have hcomma : (',' : Char).utf8Size = 1 := by decide
  induction values with
  | nil => simp [compactItems, byteSize]
  | cons value values ih =>
    have hhead := h value mem_cons_self
    have htail := ih (forall_mem_cons.mp h).2
    simp only [compactItems, textSizeItems, byteSize_cons, byteSize_append, hcomma]
    omega

theorem byteSize_compactFields {fields : List (String × Json N)}
    (h : ∀ x ∈ fields, byteSize (x.2.compact num) ≤ x.2.textSize fun n => byteSize (num n)) :
    byteSize (compactFields num fields) ≤ textSizeFields (fun n => byteSize (num n)) fields := by
  have hcomma : (',' : Char).utf8Size = 1 := by decide
  have hcolon : (':' : Char).utf8Size = 1 := by decide
  induction fields with
  | nil => simp [compactFields, byteSize]
  | cons x fields ih =>
    obtain ⟨key, value⟩ := x
    have hhead := h (key, value) mem_cons_self
    have htail := ih (forall_mem_cons.mp h).2
    simp only [compactFields, textSizeFields, byteSize_cons, byteSize_append, hcomma, hcolon,
      quoteSize] at hhead htail ⊢
    omega

theorem byteSize_compact (v : Json N) :
    byteSize (v.compact num) ≤ v.textSize fun n => byteSize (num n) := by
  have hopen : ('\x7b' : Char).utf8Size = 1 := by decide
  have hclose : ('\x7d' : Char).utf8Size = 1 := by decide
  have hleft : ('[' : Char).utf8Size = 1 := by decide
  have hright : (']' : Char).utf8Size = 1 := by decide
  have hcolon : (':' : Char).utf8Size = 1 := by decide
  induction v with
  | null => simp only [compact, textSize]; decide
  | bool b => cases b <;> simp only [compact, textSize] <;> decide
  | number | string => exact le_rfl
  | array values ih =>
    cases values with
    | nil =>
      simp only [compact, textSize, byteSize_cons, byteSize_nil, hleft, hright]
      omega
    | cons value values =>
      have hhead := ih value mem_cons_self
      have htail := byteSize_compactItems (forall_mem_cons.mp ih).2
      simp only [compact, textSize, textSizeItems, byteSize_cons, byteSize_append, byteSize_nil,
        hleft, hright]
      omega
  | object fields ih =>
    cases fields with
    | nil =>
      simp only [compact, textSize, byteSize_cons, byteSize_nil, hopen, hclose]
      omega
    | cons x fields =>
      obtain ⟨key, value⟩ := x
      have hhead := ih (key, value) mem_cons_self
      have htail := byteSize_compactFields (forall_mem_cons.mp ih).2
      simp only [compact, textSize, textSizeFields, byteSize_cons, byteSize_append, byteSize_nil,
        hopen, hclose, hcolon, quoteSize] at hhead htail ⊢
      omega

end Json

end Watershed
