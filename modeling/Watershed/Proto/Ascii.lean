/-
  The libraries on ASCII texts with integer numbers.

  On such texts normalization changes nothing and the JSON reader is the one of the library; this
  is an instance of `Libraries` that can be evaluated.
-/
import Watershed.Proto.RoundTrip

open List String

namespace Watershed.Proto

/-! ## Reading integers -/

/-- A natural number at the front of `cs` and what follows it. -/
def readNat (cs : List Char) : Nat × List Char :=
  (Nat.ofDigitChars 10 (cs.takeWhile Char.isDigit) 0, cs.dropWhile Char.isDigit)

/-- An integer that `serde_json` can hold. -/
def ofInt? (i : Int) : Option Number :=
  if h : -2 ^ 63 ≤ i ∧ i < 2 ^ 64 then some (.integer i h) else none

/-- An integer at the front of `cs` and what follows it. -/
def readNumber (cs : List Char) : Option (Number × List Char) :=
  if cs.head? = some '-' then
    (ofInt? (-((readNat cs.tail).1 : Int))).map fun n => (n, (readNat cs.tail).2)
  else (ofInt? (readNat cs).1).map fun n => (n, (readNat cs).2)

theorem readNat_toString (n : Nat) {rest : List Char} (h : Json.Stops rest) :
    readNat ((toString n).toList ++ rest) = (n, rest) := by
  have hdigits : ∀ c ∈ (toString n).toList, c.isDigit = true := by
    intro c hc
    have hmem : c ∈ Nat.toDigits 10 n := by simpa using hc
    exact Nat.isDigit_of_mem_toDigits (by decide) (by decide) hmem
  have hrest : rest.takeWhile Char.isDigit = [] ∧ rest.dropWhile Char.isDigit = rest := by
    cases rest with
    | nil => exact ⟨rfl, rfl⟩
    | cons c rest =>
      have hc : c.isDigit = false := by
        have hstop := h c rfl
        simp only [mem_cons, not_mem_nil, or_false] at hstop
        rcases hstop with rfl | rfl | rfl <;> decide
      simp [hc]
  rw [readNat, takeWhile_append_of_pos hdigits, dropWhile_append_of_pos hdigits, hrest.1,
    hrest.2, append_nil]
  have htext : (toString n).toList = Nat.toDigits 10 n := by simp
  rw [htext, Nat.ofDigitChars_toDigits (by decide) (by decide)]

theorem toString_ne_nil (n : Nat) : ∃ c cs, (toString n).toList = c :: cs ∧ c.isDigit = true := by
  cases htext : (toString n).toList with
  | nil =>
    simp at htext
  | cons c cs =>
    have hmem : c ∈ Nat.toDigits 10 n := by
      rw [← Nat.toList_repr]
      exact htext ▸ mem_cons_self
    exact ⟨c, cs, rfl, Nat.isDigit_of_mem_toDigits (by decide) (by decide) hmem⟩

theorem readsNumbers (num : Number → List Char)
    (hnum : ∀ i h, num (.integer i h) = (toString i).toList) :
    Json.ReadsNumbers num readNumber Number.isInteger where
  read number rest hinteger hrest := by
    cases number with
    | float bits => cases hinteger
    | integer i hi =>
      rw [hnum]
      cases i with
      | ofNat n =>
        obtain ⟨c, cs, htext, hc⟩ := toString_ne_nil n
        have hcs : (toString (Int.ofNat n)).toList ++ rest = c :: (cs ++ rest) := by
          change (toString n).toList ++ rest = _
          rw [htext, cons_append]
        have hread := readNat_toString n hrest
        rw [htext, cons_append] at hread
        have hne : c ≠ '-' := by
          rintro rfl
          cases hc
        have hof : ofInt? (n : Int) = some (.integer (Int.ofNat n) hi) := dif_pos hi
        rw [hcs, readNumber, if_neg (by simpa using hne), hread, hof]
        rfl
      | negSucc n =>
        have hcs : (toString (Int.negSucc n)).toList ++ rest =
            '-' :: ((toString (n + 1)).toList ++ rest) := by
          simp [Int.repr]
        have hof : ofInt? (-((n + 1 : Nat) : Int)) = some (.integer (Int.negSucc n) hi) :=
          dif_pos hi
        rw [hcs, readNumber, tail_cons, readNat_toString (n + 1) hrest, hof]
        rfl
  head number hinteger := by
    cases number with
    | float bits => cases hinteger
    | integer i hi =>
      rw [hnum]
      cases i with
      | ofNat n =>
        obtain ⟨c, cs, htext, hc⟩ := toString_ne_nil n
        refine ⟨c, cs, htext, fun hmem => ?_⟩
        simp only [mem_cons, not_mem_nil, or_false] at hmem
        rcases hmem with rfl | rfl | rfl | rfl | rfl | rfl | rfl <;> cases hc
      | negSucc n =>
        refine ⟨'-', (toString (n + 1)).toList, ?_, by decide⟩
        simp [Int.repr]

/-! ## The libraries -/

/-- Reads one value with integer numbers and nothing after it. -/
def readText (text : String) : Except String SortedValue :=
  match Json.read readNumber (text.toList.length + 1) text.toList with
  | some (value, []) =>
    if h : value.sorted = true then .ok ⟨value, h⟩ else .error "keys out of order"
  | _ => .error "expected value"

theorem readText_compact (value : SortedValue) (num : Number → List Char)
    (hintegral : value.1.numbersAll Number.isInteger = true)
    (hnum : ∀ i h, num (.integer i h) = (toString i).toList) :
    readText (ofList (value.1.compact num)) = .ok value := by
  have hread := Json.read_compact (readsNumbers num hnum) value.1 hintegral
    ((value.1.compact num).length + 1) [] (Nat.lt_succ_self _) (by simp [Json.Stops])
  rw [append_nil] at hread
  rw [readText, toList_ofList, hread]
  simp only [value.2, dif_pos]

/-- The libraries on ASCII texts with integer numbers. -/
def asciiLibraries : Libraries where
  nfc := id
  fromStr := readText
  floatIsZero _ := false
  floatIsIntegral _ := false
  floatDecimal _ := "0.5"
  floatScientific _ := "5e-1"
  debug text := "\"" ++ text ++ "\""
  nfc_ascii _ _ := rfl
  fromStr_compact value num hintegral _ hnum := readText_compact value num hintegral hnum

/-! ## Lines of events -/

theorem all_true (value : Value) : value.numbersAll (fun _ => true) = true := by
  induction value using Json.induction_on with
  | null | bool | number | string => rfl
  | array values ih => exact Json.allItems_iff.mpr ih
  | object fields ih => exact Json.allFields_iff.mpr fun x hx => ⟨rfl, ih x hx⟩

theorem normal_ascii (value : Value) : Normal asciiLibraries value := by
  have hnfc : isNfc asciiLibraries = fun _ => true := funext fun _ => decide_eq_true rfl
  rw [Normal, hnfc]
  exact all_true value

namespace EventEnvelope

/-- The canonical text of an event, in characters. -/
def asciiText (event : EventEnvelope) : List Char :=
  event.serializeFields.compact (numberText asciiLibraries)

/-- The canonical line of an event. -/
def asciiLine (event : EventEnvelope) : String := ofList event.asciiText ++ "\n"

variable {event : EventEnvelope}

theorem isNormal_ascii (hpayload : Integral event.payload.1)
    (hadditional : Integral (.object event.additionalFields.1)) : event.IsNormal asciiLibraries where
  texts _ _ := decide_eq_true rfl
  payload := normal_ascii _
  payloadIntegral := hpayload
  additional := normal_ascii _
  additionalIntegral := hadditional

theorem canonicalJsonl_ascii (hvalid : event.validateV0 asciiLibraries = .ok ())
    (hobject : event.payload.1.isObject = true) (hversion : event.protocolVersion = protocolVersionV0)
    (hnesting : jsonNestingReachesLimit event.serializeFields 0 = false) :
    event.canonicalJsonl asciiLibraries = .ok event.asciiLine :=
  canonicalJsonl_eq_ok.mpr ⟨hobject, hversion, hvalid, _,
    canonicalJson_eq _ (serializeFields_sorted hvalid) (normal_ascii _) hnesting, rfl⟩

theorem utf8ByteSize_asciiLine (event : EventEnvelope) :
    event.asciiLine.utf8ByteSize = utf8Len event.asciiText + 1 := by
  rw [asciiLine, utf8ByteSize_append, utf8ByteSize_ofList]
  rfl

end EventEnvelope

end Watershed.Proto
