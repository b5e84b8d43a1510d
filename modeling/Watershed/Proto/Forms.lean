/-
  Unicode normalization keeps a valid event valid.

  An event is checked as it stands before it is written, and in normal form after it was decoded.
  The names, kinds and roles of the protocol are ASCII texts, and flow values are in normal form
  already, so normalization leaves alone all that the checks compare.
-/
import Watershed.Proto.UniqueJson

open List

namespace Watershed.Proto

open Json

/-! ## Texts -/

/-- A character of a field name. -/
def isNameChar (c : Char) : Bool := ('a' ≤ c && c ≤ 'z') || c = '_'

def isFieldName (name : String) : Bool := name.toList.all isNameChar

def isAscii (text : String) : Bool := text.toList.all fun c => c.toNat < 128

/-- What the checks rely on in Unicode normalization form C. -/
structure Libraries.Normalizes (L : Libraries) : Prop where
  idempotent : ∀ text, L.nfc (L.nfc text) = L.nfc text
  /-- No other text has a normal form of lowercase letters and underscores. -/
  ofFieldName : ∀ text, isFieldName (L.nfc text) = true → L.nfc text = text

theorem isAscii_of_isFieldName {name : String} (h : isFieldName name = true) :
    isAscii name = true := by
  refine all_eq_true.mpr fun c hc => decide_eq_true ?_
  have hname := all_eq_true.mp h c hc
  simp only [isNameChar, Bool.or_eq_true, Bool.and_eq_true, decide_eq_true_eq] at hname
  rcases hname with ⟨-, hle⟩ | rfl
  · exact lt_of_le_of_lt (Char.le_def.mp hle) (by decide)
  · decide

section
variable {L : Libraries} {text : String}

theorem isNfc_of_isAscii (h : isAscii text = true) : isNfc L text = true :=
  decide_eq_true (L.nfc_ascii text h)

theorem nfc_eq_name (hnfc : L.Normalizes) {text name : String} (h : isFieldName name = true) :
    L.nfc text = name ↔ text = name := by
  constructor
  · intro heq
    rw [← hnfc.ofFieldName text (by rwa [heq]), heq]
  · rintro rfl
    exact L.nfc_ascii _ (isAscii_of_isFieldName h)

theorem nfc_eq_empty (hnfc : L.Normalizes) : L.nfc text = "" ↔ text = "" :=
  nfc_eq_name hnfc (by decide)

end

/-! ### Session identifiers and timestamps -/

theorem isAscii_of_isValidSessionId {value : String} (h : isValidSessionId value = true) :
    isAscii value = true := by
  simp only [isValidSessionId, Bool.and_eq_true] at h
  refine all_eq_true.mpr fun c hc => decide_eq_true ?_
  have hchar := all_eq_true.mp h.1.2 c hc
  simp only [Bool.or_eq_true, Bool.and_eq_true, decide_eq_true_eq] at hchar
  rcases hchar with ((⟨-, hle⟩ | ⟨-, hle⟩) | rfl) | rfl
  · exact lt_of_le_of_lt (Char.le_def.mp hle) (by decide)
  · exact lt_of_le_of_lt (Char.le_def.mp hle) (by decide)
  · decide
  · decide

/-- Every character is ASCII. -/
def AsciiChars (cs : List Char) : Prop := ∀ c ∈ cs, c.toNat < 128

variable {cs value : List Char} {c : Char} {result : Nat × Nat × Nat} {text digest : String} {n : Int}

theorem isAscii_iff : isAscii text = true ↔ AsciiChars text.toList := by
  simp [isAscii, AsciiChars]

theorem asciiChars_append {ds : List Char} :
    AsciiChars (cs ++ ds) ↔ AsciiChars cs ∧ AsciiChars ds := by
  simp only [AsciiChars, mem_append, or_imp, forall_and]

theorem asciiChars_cons : AsciiChars (c :: cs) ↔ c.toNat < 128 ∧ AsciiChars cs := by
  simp [AsciiChars]

theorem asciiChars_of_digits (h : cs.all isAsciiDigit = true) : AsciiChars cs := by
  intro c hc
  have hdigit := all_eq_true.mp h c hc
  simp only [isAsciiDigit, Bool.and_eq_true, decide_eq_true_eq] at hdigit
  exact lt_of_le_of_lt (Char.le_def.mp hdigit.2) (by decide)

theorem splitOnce_eq_some {before after : List Char}
    (h : splitOnce c value = some (before, after)) : value = before ++ c :: after := by
  unfold splitOnce at h
  split at h
  · cases h
  · rename_i d rest hdrop
    cases h
    have hd := List.head?_dropWhile_not (fun d => decide (d ≠ c)) value
    rw [hdrop] at hd
    obtain rfl : d = c := by simpa using hd
    rw [← hdrop, takeWhile_append_dropWhile]

/-- What holds of the separator and in the parts between separators holds of all characters. -/
theorem forall_of_splitAt {P : Char → Prop} (hc : P c)
    (h : ∀ part ∈ splitAt c cs, ∀ d ∈ part, P d) : ∀ d ∈ cs, P d := by
  fun_induction splitAt c cs with
  | case1 => simp
  | case2 rest ih => exact forall_mem_cons.mpr ⟨hc, ih (forall_mem_cons.mp h).2⟩
  | case3 e rest _ hnil ih =>
    rw [hnil] at ih
    exact forall_mem_cons.mpr ⟨(forall_mem_cons.mp (h _ mem_cons_self)).1, ih (by simp)⟩
  | case4 e rest _ part parts hparts ih =>
    obtain ⟨hfirst, hothers⟩ := forall_mem_cons.mp h
    obtain ⟨he, hpart⟩ := forall_mem_cons.mp hfirst
    rw [hparts] at ih
    exact forall_mem_cons.mpr ⟨he, ih (forall_mem_cons.mpr ⟨hpart, hothers⟩)⟩

theorem asciiChars_of_parseDigits {len n : Nat}
    (h : parseDigits value len = some n) : AsciiChars value := by
  unfold parseDigits at h
  split at h
  · rename_i hdigits
    exact asciiChars_of_digits hdigits.2
  · cases h

theorem asciiChars_of_parseDate {date : List Char}
    (h : parseDate date = some result) : AsciiChars date := by
  unfold parseDate at h
  split at h
  · rename_i year month day hsplit
    simp only [Option.bind_eq_bind, Option.bind_eq_some_iff] at h
    obtain ⟨_, hyear, _, hmonth, _, hday, -⟩ := h
    refine forall_of_splitAt (c := '-') (by decide) ?_
    rw [hsplit]
    simp only [forall_mem_cons]
    exact ⟨asciiChars_of_parseDigits hyear, asciiChars_of_parseDigits hmonth,
      asciiChars_of_parseDigits hday, by simp⟩
  · cases h

theorem asciiChars_of_parseTime {time : List Char}
    (h : parseTime time = some result) : AsciiChars time := by
  unfold parseTime at h
  split at h
  · rename_i hour minute secondPart hsplit
    simp only [Option.bind_eq_bind, Option.bind_eq_some_iff] at h
    obtain ⟨_, hhour, _, hminute, _, hsecond, hrest⟩ := h
    have hlast : AsciiChars secondPart := by
      cases honce : splitOnce '.' secondPart with
      | none =>
        rw [honce] at hsecond
        exact asciiChars_of_parseDigits hsecond
      | some parts =>
        rw [honce] at hsecond hrest
        rw [splitOnce_eq_some honce, asciiChars_append, asciiChars_cons]
        refine ⟨asciiChars_of_parseDigits hsecond, by decide, ?_⟩
        obtain ⟨hfraction, hrest⟩ := Option.ite_none_left_eq_some.mp hrest
        simp only [Option.any_some, Bool.or_eq_true, not_or, Bool.not_eq_true,
          Bool.not_eq_false'] at hfraction
        exact asciiChars_of_digits hfraction.2
    refine forall_of_splitAt (c := ':') (by decide) ?_
    rw [hsplit]
    simp only [forall_mem_cons]
    exact ⟨asciiChars_of_parseDigits hhour, asciiChars_of_parseDigits hminute, hlast, by simp⟩
  · cases h

/-- A timestamp is an ASCII text. -/
theorem isAscii_of_parseRfc3339UtcTimestamp {value : String}
    (h : (parseRfc3339UtcTimestamp value).isSome = true) : isAscii value = true := by
  obtain ⟨seconds, h⟩ := Option.isSome_iff_exists.mp h
  unfold parseRfc3339UtcTimestamp at h
  obtain ⟨hlast, h⟩ := Option.ite_none_left_eq_some.mp h
  simp only [Option.bind_eq_bind, Option.bind_eq_some_iff] at h
  obtain ⟨⟨date, time⟩, hsplit, _, hdate, _, htime, -⟩ := h
  have hvalue : value.toList = value.toList.dropLast ++ ['Z'] :=
    (dropLast_append_getLast? _ (not_not.mp hlast)).symm
  rw [isAscii_iff, hvalue, splitOnce_eq_some hsplit]
  simp only [asciiChars_append, asciiChars_cons]
  exact ⟨⟨asciiChars_of_parseDate hdate, by decide, asciiChars_of_parseTime htime⟩, by decide,
    by simp [AsciiChars]⟩

/-! ## Flow values -/

theorem toString_digits (n : Nat) : (Nat.toDigits 10 n).all isAsciiDigit = true := by
  refine all_eq_true.mpr fun c hc => ?_
  have hdigit := Nat.isDigit_of_mem_toDigits (by decide) (by decide) hc
  simpa [isAsciiDigit, Char.isDigit, Char.le_def] using hdigit

/-- The text of an integer: its digits after the sign. -/
theorem toString_int (n : Int) : (toString n).toList =
    (if n < 0 then ['-'] else []) ++ Nat.toDigits 10 n.natAbs := by
  cases n with
  | ofNat n => exact Nat.toList_repr
  | negSucc n => simp [toString, Int.repr]

theorem isAscii_toString (n : Int) : isAscii (toString n) = true := by
  rw [isAscii_iff, toString_int, asciiChars_append]
  exact ⟨by split <;> simp [AsciiChars], asciiChars_of_digits (toString_digits _)⟩

theorem parseI64_toString (h : -2 ^ 63 ≤ n ∧ n < 2 ^ 63) : parseI64 (toString n) = some n := by
  have hdigits := toString_digits n.natAbs
  have hvalue := Nat.ofDigitChars_toDigits (b := 10) (n := n.natAbs) (by decide) (by decide)
  have hne : Nat.toDigits 10 n.natAbs ≠ [] := Nat.toDigits_ne_nil
  unfold parseI64
  rw [toString_int]
  generalize hm : n.natAbs = m at hdigits hvalue hne ⊢
  generalize Nat.toDigits 10 m = digits at hdigits hvalue hne ⊢
  by_cases hneg : n < 0
  · have hparsed : -(m : Int) = n := by omega
    simpa [hneg, hdigits, hne, hvalue, hparsed] using h
  · have hparsed : (m : Int) = n := by omega
    rw [if_neg hneg, nil_append]
    split
    rename_i negative rest hsplit
    split at hsplit
    · cases hdigits
    · cases hdigits
    · cases hsplit
      simpa [hdigits, hne, hvalue, hparsed] using h

theorem range_of_parseI64 (h : parseI64 text = some n) : -2 ^ 63 ≤ n ∧ n < 2 ^ 63 := by
  unfold parseI64 at h
  split at h
  split at h
  · obtain ⟨hrange, hn⟩ := Option.ite_none_right_eq_some.mp h
    cases hn
    exact hrange
  · cases h

/-- The canonically spelled integers are the texts of the signed 64-bit integers. -/
theorem parseCanonicalI64_eq_ok : parseCanonicalI64 text = .ok n ↔
    (-2 ^ 63 ≤ n ∧ n < 2 ^ 63) ∧ toString n = text := by
  unfold parseCanonicalI64
  constructor
  · intro h
    split at h
    · cases h
    · rename_i parsed hparsed
      obtain ⟨htext, hok⟩ := ite_error_eq_ok.mp h
      cases hok
      exact ⟨range_of_parseI64 hparsed, not_not.mp htext⟩
  · rintro ⟨hrange, rfl⟩
    rw [parseI64_toString hrange]
    exact if_neg (not_not.mpr rfl)

theorem parseSessionObjectUri_eq_ok {uri : String} :
    parseSessionObjectUri uri = .ok digest ↔
      uri = sessionObjectUriPrefix ++ digest ∧ isLowercaseSha256Hex digest.toList = true := by
  unfold parseSessionObjectUri
  constructor
  · intro h
    split at h
    · rename_i hstart
      obtain ⟨digest, huri⟩ := isPrefixOf_iff_prefix.mp hstart
      rw [← huri, drop_left] at h
      dsimp only at h
      split at h
      · rename_i hdigest
        cases h
        exact ⟨by rw [← String.toList_inj]; simp [huri], by simpa using hdigest⟩
      · cases h
    · cases h
  · rintro ⟨rfl, hdigest⟩
    rw [String.toList_append, drop_left, if_pos hdigest, String.ofList_toList]
    exact if_pos (List.isPrefixOf_iff_prefix.mpr (prefix_append _ _))

section
variable {L : Libraries} {path : String} {payload value : Value} {text : String}
variable {depth nodes count : Nat} {u : Unit}

theorem asStr_eq_some : value.asStr = some text ↔ value = .string text := by
  cases value <;> simp [asStr]

theorem validateInteger_eq_ok : validateInteger payload path = .ok u ↔
    ∃ n, payload = .string (toString n) ∧ -2 ^ 63 ≤ n ∧ n < 2 ^ 63 := by
  unfold validateInteger
  cases payload with
  | string text =>
    dsimp only [asStr]
    constructor
    · intro h
      cases hparse : parseCanonicalI64 text with
      | ok n =>
        obtain ⟨hrange, rfl⟩ := parseCanonicalI64_eq_ok.mp hparse
        exact ⟨n, rfl, hrange⟩
      | error e =>
        rw [hparse] at h
        cases e <;> cases h
    · rintro ⟨n, htext, hrange⟩
      cases htext
      rw [parseCanonicalI64_eq_ok.mpr ⟨hrange, rfl⟩]
  | null | bool | number | array | object => simp [asStr, typeError, flowValueError]

theorem validateNfc_eq_ok : validateNfc L text path = .ok u ↔ isNfc L text = true := by
  unfold validateNfc
  cases isNfc L text <;> simp [flowValueError]

theorem validateText_eq_ok : validateText L payload path = .ok u ↔
    ∃ text, payload = .string text ∧ isNfc L text = true := by
  unfold validateText
  cases payload with
  | string text => simp [asStr, validateNfc_eq_ok]
  | null | bool | number | array | object => simp [asStr, typeError, flowValueError]

theorem isAscii_sessionObjectUri
    (h : isLowercaseSha256Hex digest.toList = true) :
    isAscii (sessionObjectUriPrefix ++ digest) = true := by
  rw [isAscii, String.toList_append, all_append, Bool.and_eq_true]
  refine ⟨by decide, all_eq_true.mpr fun c hc => ?_⟩
  have hhex := all_eq_true.mp (Bool.and_eq_true_iff.mp h).2 c hc
  simp only [isAsciiDigit, Bool.or_eq_true, Bool.and_eq_true, decide_eq_true_eq] at hhex
  rcases hhex with ⟨-, hle⟩ | ⟨-, hle⟩ <;>
    exact decide_eq_true (lt_of_le_of_lt (Char.le_def.mp hle) (by decide))

theorem validateSessionObject_eq_ok : validateSessionObject L payload path = .ok u ↔
    ∃ digest, payload = .string (sessionObjectUriPrefix ++ digest) ∧
      isLowercaseSha256Hex digest.toList = true := by
  unfold validateSessionObject
  cases payload with
  | string uri =>
    simp only [asStr, check_bind_eq_ok, validateNfc_eq_ok]
    constructor
    · rintro ⟨-, h⟩
      cases hparse : parseSessionObjectUri uri with
      | ok digest =>
        obtain ⟨rfl, hdigest⟩ := parseSessionObjectUri_eq_ok.mp hparse
        exact ⟨digest, rfl, hdigest⟩
      | error e =>
        rw [hparse] at h
        cases e <;> cases h
    · rintro ⟨digest, huri, hdigest⟩
      cases huri
      rw [parseSessionObjectUri_eq_ok.mpr ⟨rfl, hdigest⟩]
      exact ⟨isNfc_of_isAscii (isAscii_sessionObjectUri hdigest), rfl⟩
  | null | bool | number | array | object => simp [asStr, typeError, flowValueError]

abbrev wrapper (tag : String) (payload : Value) : Value :=
  .object [("type", .string tag), ("value", payload)]

/-- A map key of 1 to 256 characters in normal form. -/
def IsKey (L : Libraries) (key : String) : Prop :=
  (key ≠ "" ∧ key.toList.length ≤ flowValueMaxKeyCharsV0) ∧ isNfc L key = true

/-- The closed grammar: `Wrapped L depth nodes value` says that `value` is a wrapper, nested at
    most `depth` deep, with `nodes` wrappers in it. -/
inductive Wrapped (L : Libraries) : Nat → Nat → Value → Prop where
  | boolean (depth : Nat) (b : Bool) : Wrapped L (depth + 1) 1 (wrapper "boolean" (.bool b))
  | integer (depth : Nat) (n : Int) : -2 ^ 63 ≤ n ∧ n < 2 ^ 63 →
      Wrapped L (depth + 1) 1 (wrapper "integer" (.string (toString n)))
  | text (depth : Nat) (text : String) : isNfc L text = true →
      Wrapped L (depth + 1) 1 (wrapper "string" (.string text))
  | sessionObject (depth : Nat) (digest : String) : isLowercaseSha256Hex digest.toList = true →
      Wrapped L (depth + 1) 1
        (wrapper "session-object" (.string (sessionObjectUriPrefix ++ digest)))
  | list (depth : Nat) (items : List (Nat × Value)) : items.length ≤ flowValueMaxMembersV0 →
      (∀ x ∈ items, Wrapped L depth x.1 x.2) →
      Wrapped L (depth + 1) (tally items + 1) (wrapper "list" (.array (items.map Prod.snd)))
  | map (depth : Nat) (items : List (Nat × String × Value)) :
      items.length ≤ flowValueMaxMembersV0 → (∀ x ∈ items, IsKey L x.2.1) →
      (∀ x ∈ items, Wrapped L depth x.1 x.2.2) →
      Wrapped L (depth + 1) (tally items + 1) (wrapper "map" (.object (items.map Prod.snd)))

/-- The check takes exactly the wrappers of the grammar. -/
def Exact (L : Libraries) (value : Value) : Prop :=
  ∀ room depth nodes path count, depth + room = flowValueMaxDepthV0 + 1 →
    (validateAt L value depth nodes path = .ok count ↔ ∃ k, (Wrapped L room k value ∧
      nodes + k ≤ flowValueMaxNodesV0) ∧ count = nodes + k)

theorem validateItems_eq_ok (room : Nat) {index : Nat} {values : List Value}
    (h : ∀ value ∈ values, Exact L value)
    (hdepth : depth + room = flowValueMaxDepthV0 + 1) (hnodes : nodes ≤ flowValueMaxNodesV0) :
    validateItems L values index depth nodes path = .ok count ↔
      ∃ items : List (Nat × Value), items.map Prod.snd = values ∧
        (∀ x ∈ items, Wrapped L room x.1 x.2) ∧ nodes + tally items ≤ flowValueMaxNodesV0 ∧
        count = nodes + tally items := by
  refine walk_eq_ok (fun index values nodes => validateItems L values index depth nodes path)
    (fun _ _ => rfl) (fun value hvalue index values nodes count => ?_) hnodes
  simp only [validateItems, bind_eq_ok, h value hvalue _ _ _ _ _ hdepth]
  constructor
  · rintro ⟨_, ⟨k, hk, rfl⟩, hrest⟩
    exact ⟨k, hk, hrest⟩
  · rintro ⟨k, hk, hrest⟩
    exact ⟨_, ⟨k, hk, rfl⟩, hrest⟩

theorem validateMembers_eq_ok (room : Nat) {values : List (String × Value)}
    (h : ∀ x ∈ values, Exact L x.2)
    (hdepth : depth + room = flowValueMaxDepthV0 + 1) (hnodes : nodes ≤ flowValueMaxNodesV0) :
    validateMembers L values depth nodes path = .ok count ↔
      ∃ items : List (Nat × String × Value), items.map Prod.snd = values ∧
        (∀ x ∈ items, IsKey L x.2.1 ∧ Wrapped L room x.1 x.2.2) ∧
        nodes + tally items ≤ flowValueMaxNodesV0 ∧ count = nodes + tally items := by
  refine walk_eq_ok (fun _ values nodes => validateMembers L values depth nodes path)
    (P := fun k x => IsKey L x.1 ∧ Wrapped L room k x.2) (i := 0)
    (fun _ _ => rfl) (fun x hx index values nodes count => ?_) hnodes
  rw [validateMembers, flowValueError, ite_error_eq_ok, check_bind_eq_ok, validateNfc_eq_ok,
    bind_eq_ok, not_or, not_lt]
  simp only [h x hx _ _ _ _ _ hdepth]
  constructor
  · rintro ⟨hkey, hnfc, _, ⟨k, hk, rfl⟩, hrest⟩
    exact ⟨k, ⟨⟨⟨hkey, hnfc⟩, hk.1⟩, hk.2⟩, hrest⟩
  · rintro ⟨k, ⟨⟨⟨hkey, hnfc⟩, hk⟩, hle⟩, hrest⟩
    exact ⟨hkey, hnfc, _, ⟨k, ⟨hk, hle⟩, rfl⟩, hrest⟩

theorem exact (value : Value) : Exact L value := by
  induction value using induct_inner with
  | step value ih =>
    intro room depth nodes path count hdepth
    constructor
    · intro h
      unfold validateAt at h
      replace h := ite_error_eq_ok.mp h
      obtain ⟨hbound, h⟩ := h
      replace h := ite_error_eq_ok.mp h
      obtain ⟨hnodes, h⟩ := h
      obtain ⟨room, rfl⟩ : ∃ below, room = below + 1 := ⟨room - 1, by omega⟩
      split at h
      · rename_i typeKey tagValue valueKey payload
        replace h := ite_error_eq_ok.mp h
        rw [not_or, not_not, not_not] at h
        obtain ⟨⟨rfl, rfl⟩, h⟩ := h
        obtain ⟨hitems, hmembers⟩ := ih _ rfl ("value", payload) (by simp)
        cases htag : tagValue.asStr with
        | none =>
          rw [htag] at h
          cases h
        | some tag =>
          rw [htag] at h
          dsimp only at h
          obtain rfl := asStr_eq_some.mp htag
          split at h
          · obtain rfl := ‹tag = _›
            cases payload with
            | bool b =>
              cases h
              exact ⟨1, ⟨.boolean room b, by omega⟩, rfl⟩
            | null | number | string | array | object => cases h
          split at h
          · obtain rfl := ‹tag = _›
            obtain ⟨_, hpayload, rfl⟩ := map_eq_ok.mp h
            obtain ⟨n, rfl, hn⟩ := validateInteger_eq_ok.mp hpayload
            exact ⟨1, ⟨.integer room n hn, by omega⟩, rfl⟩
          split at h
          · obtain rfl := ‹tag = _›
            obtain ⟨_, hpayload, rfl⟩ := map_eq_ok.mp h
            obtain ⟨text, rfl, htext⟩ := validateText_eq_ok.mp hpayload
            exact ⟨1, ⟨.text room text htext, by omega⟩, rfl⟩
          split at h
          · obtain rfl := ‹tag = _›
            obtain ⟨_, hpayload, rfl⟩ := map_eq_ok.mp h
            obtain ⟨digest, rfl, hdigest⟩ := validateSessionObject_eq_ok.mp hpayload
            exact ⟨1, ⟨.sessionObject room digest hdigest, by omega⟩, rfl⟩
          split at h
          · obtain rfl := ‹tag = _›
            cases payload with
            | array values =>
              obtain ⟨hlength, h⟩ := ite_error_eq_ok.mp h
              obtain ⟨items, rfl, hwrapped, hlimit, rfl⟩ :=
                (validateItems_eq_ok room (hitems _ rfl) (by omega) (by omega)).mp h
              exact ⟨_, ⟨.list room items (by simpa using hlength) hwrapped, by omega⟩, by omega⟩
            | null | bool | number | string | object => cases h
          split at h
          · obtain rfl := ‹tag = _›
            cases payload with
            | object values =>
              obtain ⟨hlength, h⟩ := ite_error_eq_ok.mp h
              obtain ⟨items, rfl, hwrapped, hlimit, rfl⟩ :=
                (validateMembers_eq_ok room (hmembers _ rfl) (by omega) (by omega)).mp h
              have hmap := Wrapped.map room items (by simpa using hlength)
                (fun x hx => (hwrapped x hx).1) fun x hx => (hwrapped x hx).2
              exact ⟨_, ⟨hmap, by omega⟩, by omega⟩
            | null | bool | number | string | array => cases h
          · cases h
      · cases h
    · rintro ⟨k, ⟨hwrapped, hle⟩, rfl⟩
      have hbound : ¬ flowValueMaxDepthV0 < depth := by
        cases hwrapped <;> omega
      have hnodes : ¬ flowValueMaxNodesV0 < nodes + 1 := by
        cases hwrapped <;> omega
      unfold validateAt
      rw [if_neg hbound, if_neg hnodes]
      cases hwrapped with
      | boolean room b => rfl
      | integer room n hn =>
        exact map_eq_ok.mpr ⟨(), validateInteger_eq_ok.mpr ⟨n, rfl, hn⟩, rfl⟩
      | text room text htext =>
        exact map_eq_ok.mpr ⟨(), validateText_eq_ok.mpr ⟨text, rfl, htext⟩, rfl⟩
      | sessionObject room digest hdigest =>
        exact map_eq_ok.mpr ⟨(), validateSessionObject_eq_ok.mpr ⟨digest, rfl, hdigest⟩, rfl⟩
      | list room items hlength hwrapped =>
        obtain ⟨hitems, -⟩ := ih _ rfl ("value", .array (items.map Prod.snd)) (by simp)
        have h : validateItems L (items.map Prod.snd) 0 (depth + 1) (nodes + 1) path =
            .ok (nodes + (tally items + 1)) :=
          (validateItems_eq_ok room (hitems _ rfl) (by omega) (by omega)).mpr
            ⟨items, rfl, hwrapped, by omega, by omega⟩
        simp [asStr, not_lt.mpr hlength, h]
      | map room items hlength hkeys hwrapped =>
        obtain ⟨-, hmembers⟩ := ih _ rfl ("value", .object (items.map Prod.snd)) (by simp)
        have h : validateMembers L (items.map Prod.snd) (depth + 1) (nodes + 1) path =
            .ok (nodes + (tally items + 1)) :=
          (validateMembers_eq_ok room (hmembers _ rfl) (by omega) (by omega)).mpr
            ⟨items, rfl, fun x hx => ⟨hkeys x hx, hwrapped x hx⟩, by omega, by omega⟩
        simp [asStr, not_lt.mpr hlength, h]

theorem normal_wrapper {tag : String} (htag : isAscii tag = true) (h : Normal L payload) :
    Normal L (wrapper tag payload) := by
  refine allFields_iff.mpr ?_
  simp only [forall_mem_cons, not_mem_nil, false_implies, implies_true, and_true]
  exact ⟨⟨isNfc_of_isAscii (by decide), isNfc_of_isAscii htag⟩, isNfc_of_isAscii (by decide), h⟩

theorem Wrapped.normal (h : Wrapped L depth nodes value) : Normal L value := by
  induction h with
  | boolean depth b => exact normal_wrapper (by decide) rfl
  | integer depth n => exact normal_wrapper (by decide) (isNfc_of_isAscii (isAscii_toString n))
  | text depth text htext => exact normal_wrapper (by decide) htext
  | sessionObject depth digest hdigest =>
    exact normal_wrapper (by decide) (isNfc_of_isAscii (isAscii_sessionObjectUri hdigest))
  | list depth items _ _ ih =>
    refine normal_wrapper (by decide) (allItems_iff.mpr ?_)
    rw [forall_mem_map]
    exact ih
  | map depth items _ hkeys _ ih =>
    refine normal_wrapper (by decide) (allFields_iff.mpr ?_)
    rw [forall_mem_map]
    exact fun x hx => ⟨(hkeys x hx).2, ih x hx⟩

/-- A wrapper nests in JSON at most twice as deep as in the grammar. -/
theorem Wrapped.reaches {limit : Nat} (h : Wrapped L depth nodes value) :
    ∀ start, start + 2 * depth < limit → value.reaches limit start = false := by
  induction h with
  | boolean | integer | text | sessionObject =>
    simp only [Json.reaches, Json.reachesFields, Bool.or_false, decide_eq_false_iff_not]
    omega
  | list depth items _ _ ih =>
    intro start hstart
    have hitems : reachesItems limit (start + 1 + 1) (items.map Prod.snd) = false := by
      rw [Json.reachesItems_eq, any_map, any_eq_false]
      exact fun x hx => Bool.eq_false_iff.mp (ih x hx _ (by omega))
    simp [Json.reaches, Json.reachesFields, hitems]
    omega
  | map depth items _ _ _ ih =>
    intro start hstart
    have hitems : Json.reachesFields limit (start + 1 + 1) (items.map Prod.snd) = false := by
      rw [Json.reachesFields_eq, any_map, any_eq_false]
      exact fun x hx => Bool.eq_false_iff.mp (ih x hx _ (by omega))
    simp [Json.reaches, Json.reachesFields, hitems]
    omega

/-- A value that passes the walk of the check stands for itself in canonical JSON. -/
theorem Wrapped.canonicalJson (hsorted : value.sorted = true)
    (h : Wrapped L flowValueMaxDepthV0 nodes value) :
    Proto.canonicalJson L value = .ok (String.ofList (value.compact (numberText L))) :=
  canonicalJson_eq value hsorted h.normal (h.reaches 0 (by decide))

theorem wrapped_of_validateFlowValueV0 (h : validateFlowValueV0 L value = .ok ()) :
    ∃ nodes, Wrapped L flowValueMaxDepthV0 nodes value := by
  obtain ⟨count, hcount, -⟩ := bind_eq_ok.mp h
  obtain ⟨nodes, hwrapped, -⟩ := (exact value flowValueMaxDepthV0 _ _ _ _ rfl).mp hcount
  exact ⟨nodes, hwrapped.1⟩

end

/-! ## Payloads -/

section
variable {L : Libraries}

theorem canonicalForm_array (values : List Value) :
    canonicalForm L (.array values) = .array (values.map (canonicalForm L)) := by
  rw [canonicalForm, mapTexts_array, sortMembers_array, map_map]
  rfl

theorem canonicalForm_object (fields : List (String × Value)) :
    canonicalForm L (.object fields) =
      .object (byKey (fields.map fun x => (L.nfc x.1, canonicalForm L x.2))) := by
  rw [canonicalForm, mapTexts_object, sortMembers_object, map_map]
  rfl

theorem asStr_canonicalForm (value : Value) :
    (canonicalForm L value).asStr = value.asStr.map L.nfc := by
  cases value <;> rfl

theorem isObject_canonicalForm (value : Value) :
    (canonicalForm L value).isObject = value.isObject := by
  cases value <;> rfl

/-- A member with a name of the protocol is found under this name before and after. -/
theorem get_canonicalForm (hnfc : L.Normalizes) {value : Value}
    (hkeys : (value.mapTexts L.nfc).DistinctKeys) {name : String} (hname : isFieldName name = true) :
    (canonicalForm L value).get name = (value.get name).map (canonicalForm L) := by
  cases value with
  | object fields =>
    rw [mapTexts_object, distinctKeys_object, keys_mapTexts] at hkeys
    have hnodup : ((byKey (fields.map fun x => (L.nfc x.1, canonicalForm L x.2))).map
        Prod.fst).Nodup := by
      refine ((perm_byKey _).map Prod.fst).symm.nodup ?_
      rw [map_map]
      exact hkeys.1
    rw [canonicalForm_object, Json.get, Json.get]
    cases hfind : fields.find? fun x => x.1 = name with
    | none =>
      rw [find?_of_not_mem]
      · rfl
      intro y hy heq
      obtain ⟨x, hx, rfl⟩ := mem_map.mp (mem_byKey.mp hy)
      have hne := List.find?_eq_none.mp hfind x hx
      exact hne (decide_eq_true ((nfc_eq_name hnfc hname).mp heq))
    | some x =>
      have hx := mem_of_find?_eq_some hfind
      have heq := List.find?_some hfind
      obtain rfl : x.1 = name := by simpa using heq
      have hmem := mem_byKey.mpr
        (mem_map_of_mem (f := fun x => (L.nfc x.1, canonicalForm L x.2)) hx)
      rw [(nfc_eq_name hnfc hname).mpr rfl] at hmem
      rw [find?_key hnodup hmem]
      rfl
  | null | bool | number | string | array => rfl

end

namespace Payload

/-- What the checks see of a payload before and after normalization. -/
structure Normalized (L : Libraries) (payload payload' : Value) : Prop where
  get : ∀ name, isFieldName name = true →
    payload'.get name = (payload.get name).map (canonicalForm L)
  sorted : ∀ name value, payload.get name = some value → value.sorted = true

variable {L : Libraries} {payload : Value}

theorem normalized_canonicalForm (hnfc : L.Normalizes)
    (hsorted : payload.sorted = true) (hkeys : (payload.mapTexts L.nfc).DistinctKeys) :
    Normalized L payload (canonicalForm L payload) where
  get name hname := get_canonicalForm hnfc hkeys hname
  sorted name value hvalue := by
    cases payload with
    | object fields =>
      rw [Json.get, Option.map_eq_some_iff] at hvalue
      obtain ⟨x, hx, rfl⟩ := hvalue
      exact (Json.sorted_object.mp hsorted).2 x (mem_of_find?_eq_some hx)
    | null | bool | number | string | array => cases hvalue

/-- The check passes. -/
def Passes {α : Type} (check : Except EventValidationError α) : Prop := ∃ a, check = .ok a

theorem passes_bind {α β : Type} {first : Except EventValidationError α}
    {rest : Except EventValidationError β} :
    Passes (first >>= fun _ => rest) ↔ Passes first ∧ Passes rest := by
  simp only [Passes, bind_eq_ok]
  cases first <;> simp

theorem passes_unit {check : Except EventValidationError Unit} :
    Passes check ↔ check = .ok () := ⟨fun h => h.choose_spec, fun h => ⟨(), h⟩⟩

theorem isAscii_of_phaseKind (h : (PhaseKind.tryFrom text).isSome = true) :
    isAscii text = true := by
  obtain ⟨kind, hkind⟩ := Option.isSome_iff_exists.mp h
  have heq := List.find?_some hkind
  obtain rfl : kind.asStr = text := by simpa using heq
  cases kind <;> decide

theorem isAscii_of_toolKind (h : (ToolKind.tryFrom text).isSome = true) : isAscii text = true := by
  obtain ⟨kind, hkind⟩ := Option.isSome_iff_exists.mp h
  have heq := List.find?_some hkind
  obtain rfl : kind.asStr = text := by simpa using heq
  cases kind <;> decide

section
variable {L : Libraries} {payload payload' : Value} {field text : String}
variable (hnfc : L.Normalizes) (hp : Normalized L payload payload') (hfield : isFieldName field = true)

include hp hfield

theorem str_normalized :
    (payload'.get field).bind asStr = ((payload.get field).bind asStr).map L.nfc := by
  rw [hp.get field hfield]
  cases payload.get field with
  | none => rfl
  | some value => exact asStr_canonicalForm value

theorem isSome_normalized : (payload'.get field).isSome = (payload.get field).isSome := by
  rw [hp.get field hfield, Option.isSome_map]

theorem passes_requireStringArray :
    Passes (requireStringArray payload field) → Passes (requireStringArray payload' field) := by
  rintro ⟨u, hu⟩
  unfold requireStringArray at hu ⊢
  rw [hp.get field hfield]
  split at hu
  · rename_i values hvalues
    split at hu
    · rename_i hall
      have hall' : ((values.map (canonicalForm L)).all fun value => value.asStr.isSome) = true := by
        rw [all_map, ← hall]
        simp only [Function.comp_def, asStr_canonicalForm, Option.isSome_map]
      rw [hvalues, Option.map_some, canonicalForm_array]
      exact ⟨(), if_pos hall'⟩
    · cases hu
  · cases hu

theorem passes_requireFlowValue :
    Passes (requireFlowValue payload L field) → Passes (requireFlowValue payload' L field) := by
  rintro ⟨u, hu⟩
  unfold requireFlowValue at hu ⊢
  rw [hp.get field hfield]
  split at hu
  · rename_i value hvalue
    split at hu
    · rename_i hvalid
      obtain ⟨_, hwrapped⟩ := wrapped_of_validateFlowValueV0 hvalid
      have hform := canonicalForm_eq_self (hp.sorted field value hvalue) hwrapped.normal
      rw [hvalue, Option.map_some, hform]
      simp only [hvalid]
      exact ⟨(), rfl⟩
    · cases hu
  · cases hu

/-- Checks that look at the kind of a member only. -/
theorem passes_optionalInteger :
    Passes (optionalInteger payload field) → Passes (optionalInteger payload' field) := by
  unfold optionalInteger
  rw [hp.get field hfield]
  cases payload.get field with
  | none => exact id
  | some value => cases value <;> exact id

theorem passes_requirePositiveInteger :
    Passes (requirePositiveInteger payload field) →
      Passes (requirePositiveInteger payload' field) := by
  unfold requirePositiveInteger
  rw [hp.get field hfield]
  cases payload.get field with
  | none => exact id
  | some value => cases value <;> exact id

theorem passes_requireNumber :
    Passes (requireNumber payload field) → Passes (requireNumber payload' field) := by
  unfold requireNumber
  rw [hp.get field hfield]
  cases payload.get field with
  | none => exact id
  | some value => cases value <;> exact id

theorem passes_optionalObject :
    Passes (optionalObject payload field) → Passes (optionalObject payload' field) := by
  unfold optionalObject
  rw [hp.get field hfield]
  cases payload.get field with
  | none => exact id
  | some value =>
    rw [Option.map_some, Option.any_some, Option.any_some, isObject_canonicalForm]
    exact id

include hnfc

/-- A nonempty string stays one. -/
theorem requireString_normalized (h : requireString payload field = .ok text) :
    requireString payload' field = .ok (L.nfc text) := by
  obtain ⟨htext, hne⟩ := requireString_eq_ok.mp h
  refine requireString_eq_ok.mpr ⟨?_, fun heq => hne ((nfc_eq_empty hnfc).mp heq)⟩
  rw [str_normalized hp hfield, htext, Option.map_some]

theorem passes_requireString :
    Passes (requireString payload field) → Passes (requireString payload' field) := by
  rintro ⟨text, htext⟩
  exact ⟨_, requireString_normalized hnfc hp hfield htext⟩

theorem passes_optionalString :
    Passes (optionalString payload field) → Passes (optionalString payload' field) := by
  unfold optionalString
  rw [isSome_normalized hp hfield]
  split
  · rintro ⟨u, hu⟩
    obtain ⟨text, htext, -⟩ := map_eq_ok.mp hu
    exact ⟨(), by rw [requireString_normalized hnfc hp hfield htext]; rfl⟩
  · exact id

/-- A string that is one of some ASCII texts is not changed. -/
theorem requireString_ascii (htext : isAscii text = true)
    (h : requireString payload field = .ok text) : requireString payload' field = .ok text := by
  have hstring := requireString_normalized hnfc hp hfield h
  rwa [L.nfc_ascii text htext] at hstring

omit hfield

theorem passes_requirePhaseKind :
    Passes (requirePhaseKind payload) → Passes (requirePhaseKind payload') := by
  rintro ⟨u, hu⟩
  obtain ⟨kind, hkind, hknown⟩ := bind_eq_ok.mp hu
  split at hknown
  · rename_i hsome
    refine ⟨(), bind_eq_ok.mpr ⟨kind, ?_, if_pos hsome⟩⟩
    exact requireString_ascii hnfc hp rfl (isAscii_of_phaseKind hsome) hkind
  · cases hknown

theorem passes_optionalPhaseKind :
    Passes (optionalPhaseKind payload) → Passes (optionalPhaseKind payload') := by
  unfold optionalPhaseKind
  rw [isSome_normalized hp rfl]
  split
  · exact passes_requirePhaseKind hnfc hp
  · exact id

theorem passes_requireRole : Passes (requireRole payload) → Passes (requireRole payload') := by
  rintro ⟨u, hu⟩
  obtain ⟨role, hrole, hknown⟩ := bind_eq_ok.mp hu
  split at hknown
  · rename_i hmem
    have hascii : ∀ role ∈ ["system", "user", "assistant", "tool"], isAscii role = true := by
      decide
    refine ⟨(), bind_eq_ok.mpr ⟨role, ?_, if_pos hmem⟩⟩
    exact requireString_ascii hnfc hp rfl (hascii role hmem) hrole
  · cases hknown

end

/-- The fields of `tool.started` are known before and after. -/
theorem unknownToolField_canonicalForm
    (h : unknownToolField payload = none) : unknownToolField (canonicalForm L payload) = none := by
  cases payload with
  | object fields =>
    rw [unknownToolField, List.find?_eq_none] at h
    rw [canonicalForm_object, unknownToolField, List.find?_eq_none]
    intro key hkey
    obtain ⟨y, hy, rfl⟩ := mem_map.mp hkey
    obtain ⟨x, hx, rfl⟩ := mem_map.mp (mem_byKey.mp hy)
    have hknown : x.1 ∈ ["tool_id", "tool_kind", "tool_name", "allowed_parameters", "attempt_id"] :=
      by_contra fun hunknown => h x.1 (mem_map_of_mem hx) (decide_eq_true hunknown)
    have hascii : ∀ name ∈ ["tool_id", "tool_kind", "tool_name", "allowed_parameters",
        "attempt_id"], isAscii name = true := by decide
    rw [L.nfc_ascii x.1 (hascii x.1 hknown)]
    exact fun hunknown => of_decide_eq_true hunknown hknown
  | null | bool | number | string | array => rfl

/-- The contract of `tool.started`. -/
theorem passes_toolStarted (hnfc : L.Normalizes) {payload payload' : Value}
    (hp : Normalized L payload payload')
    (hknown : unknownToolField payload = none → unknownToolField payload' = none)
    (h : validate L .toolStarted payload = .ok ()) : validate L .toolStarted payload' = .ok () := by
  unfold validate at h ⊢
  cases hfield : unknownToolField payload with
  | some field =>
    rw [hfield] at h
    cases h
  | none =>
    rw [hfield] at h
    rw [hknown hfield]
    simp only [bind_eq_ok] at h ⊢
    obtain ⟨_, hattempt, tool, htool, name, hname, kind, hkind, hrest⟩ := h
    obtain ⟨hsome, hrest⟩ := ite_error_eq_ok.mp hrest
    have hascii : isAscii kind = true :=
      isAscii_of_toolKind (Option.isSome_iff_ne_none.mpr (by simpa using hsome))
    obtain ⟨_, hattempt'⟩ := passes_optionalString hnfc hp rfl ⟨_, hattempt⟩
    refine ⟨_, hattempt', _, requireString_normalized hnfc hp rfl htool, _,
      requireString_normalized hnfc hp rfl hname, kind,
      requireString_ascii hnfc hp rfl hascii hkind, ?_⟩
    rw [if_neg hsome]
    exact passes_unit.mp (passes_requireStringArray hp rfl (passes_unit.mpr hrest))

/-- A payload that passes its contract passes it in normal form. -/
theorem validate_canonicalForm (hnfc : L.Normalizes) {eventType : EventType}
    (hsorted : payload.sorted = true)
    (hkeys : (payload.mapTexts L.nfc).DistinctKeys) (h : validate L eventType payload = .ok ()) :
    validate L eventType (canonicalForm L payload) = .ok () := by
  have hp := normalized_canonicalForm hnfc hsorted hkeys
  cases eventType with
  | toolStarted => exact passes_toolStarted hnfc hp unknownToolField_canonicalForm h
  | _ =>
    revert h
    rw [← passes_unit, ← passes_unit]
    unfold validate
    simp only [passes_bind]
    repeat' apply And.imp
    all_goals with_reducible first
      | refine passes_requireString hnfc hp ?_
      | refine passes_optionalString hnfc hp ?_
      | exact passes_requirePhaseKind hnfc hp
      | exact passes_optionalPhaseKind hnfc hp
      | exact passes_requireRole hnfc hp
      | refine passes_requireStringArray hp ?_
      | refine passes_requireFlowValue hp ?_
      | refine passes_optionalInteger hp ?_
      | refine passes_requirePositiveInteger hp ?_
      | refine passes_requireNumber hp ?_
      | refine passes_optionalObject hp ?_
      | exact id
    all_goals rfl

end Payload

end Watershed.Proto
