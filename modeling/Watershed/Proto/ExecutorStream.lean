/-
  Tool streams as text (`executor/stream.rs`): what is encoded is decoded again.
-/
import Watershed.Lib.JsonSize
import Watershed.Proto.ExecutorWire

open List Option

namespace Watershed.Proto.Executor

open Json

def base64Alphabet : List Char :=
  "ABCDEFGHIJKLMNOPQRSTUVWXYZabcdefghijklmnopqrstuvwxyz0123456789+/".toList

/-- `ALPHABET[usize::from(value)]`; all values are below 64. -/
def base64Char (value : UInt8) : Char := base64Alphabet.getD value.toNat '='

/-- The four characters of one to three bytes. -/
def encodeChunk (first : UInt8) (second third : Option UInt8) : List Char :=
  [base64Char (first >>> 2), base64Char ((first &&& 0x03) <<< 4 ||| second.getD 0 >>> 4),
    if second.isSome then base64Char ((second.getD 0 &&& 0x0f) <<< 2 ||| third.getD 0 >>> 6) else '=',
    if third.isSome then base64Char (third.getD 0 &&& 0x3f) else '=']

/-- The loop over `bytes.chunks(3)`. -/
def encodeChunks : List UInt8 → List Char
  | [] => []
  | [first] => encodeChunk first none none
  | [first, second] => encodeChunk first (some second) none
  | first :: second :: third :: rest =>
    encodeChunk first (some second) (some third) ++ encodeChunks rest

variable (bytes : List UInt8)

/-- Encodes arbitrary Tool stream bytes as canonical padded standard base64. -/
def encodeExecutorStreamV0 : String := String.ofList (encodeChunks bytes)

/-! ## Bits -/

/-- A property of bytes that holds of all numbers below 256. -/
theorem uint8_forall {p : UInt8 → Prop} (h : ∀ n < 256, p (UInt8.ofNat n)) (b : UInt8) : p b := by
  have := h b.toNat b.toNat_lt
  rwa [UInt8.ofNat_toNat] at this

/-- A value of the alphabet. -/
def SixBits (value : UInt8) : Prop := value &&& 0x3f = value
  deriving Decidable

theorem or_and_distrib (a b mask : UInt8) : (a ||| b) &&& mask = (a &&& mask) ||| (b &&& mask) := by
  apply UInt8.toBitVec_inj.mp
  exact BitVec.and_or_distrib_right

variable {a b value c : UInt8} {byte : UInt8}

theorem SixBits.or (ha : SixBits a) (hb : SixBits b) : SixBits (a ||| b) := by
  unfold SixBits at *
  rw [or_and_distrib, ha, hb]

/-- What the parts of a byte say about it; one evaluation for all of them. -/
theorem byte_parts (x : UInt8) :
    ((x >>> 2) <<< 2 ||| ((x &&& 0x03) <<< 4) >>> 4 = x ∧
      (x >>> 4) <<< 4 ||| ((x &&& 0x0f) <<< 2) >>> 2 = x ∧ (x >>> 6) <<< 6 ||| (x &&& 0x3f) = x) ∧
    ((x >>> 4) >>> 4 = 0 ∧ ((x &&& 0x03) <<< 4) <<< 4 = 0 ∧ (x >>> 6) >>> 2 = 0 ∧
      ((x &&& 0x0f) <<< 2) <<< 6 = 0) ∧
    ((x &&& 0x03) <<< 4 &&& 0x0f = 0 ∧ (x &&& 0x0f) <<< 2 &&& 0x03 = 0) ∧
    (SixBits (x >>> 2) ∧ SixBits ((x &&& 0x03) <<< 4) ∧ SixBits (x >>> 4) ∧
      SixBits ((x &&& 0x0f) <<< 2) ∧ SixBits (x >>> 6) ∧ SixBits (x &&& 0x3f)) := by
  revert x
  refine uint8_forall ?_
  decide +kernel

/-- The byte of a value's character. -/
def base64Byte (value : UInt8) : UInt8 := UInt8.ofNat (base64Char value).toNat

/-- The character of a value is one byte, not the padding, and stands for the value; it is written
    as it is in a JSON text. -/
theorem base64_char (value : UInt8) : SixBits value →
    String.utf8EncodeChar (base64Char value) = [base64Byte value] ∧
      base64Value (base64Byte value) = .ok value ∧ base64Byte value ≠ 61 ∧
      (base64Char value).toNat < 128 ∧ escape (base64Char value) = [base64Char value] := by
  revert value
  refine uint8_forall ?_
  decide +kernel

/-! ## Decoding what was encoded -/

theorem utf8_ofList_cons (c : Char) (cs : List Char) :
    utf8 (String.ofList (c :: cs)) = String.utf8EncodeChar c ++ utf8 (String.ofList cs) := by
  simp [utf8]

/-- The bytes of a chunk's text. -/
theorem utf8_value (h : SixBits value) (cs : List Char) :
    utf8 (String.ofList (base64Char value :: cs)) = base64Byte value :: utf8 (String.ofList cs) := by
  rw [utf8_ofList_cons, (base64_char value h).1]
  rfl

theorem base64Padded_value (h : SixBits value) (mayPad : Bool) :
    base64Padded (base64Byte value) mayPad = .ok (some value) := by
  obtain ⟨-, hvalue, hpadding, -⟩ := base64_char value h
  rw [base64Padded, if_neg hpadding, hvalue]
  rfl

theorem decodeChunks_three {d : UInt8} (ha : SixBits a) (hb : SixBits b) (hc : SixBits c)
    (hd : SixBits d) {rest decoded : List UInt8} (hrest : decodeChunks rest = .ok decoded) :
    decodeChunks (base64Byte a :: base64Byte b :: base64Byte c :: base64Byte d :: rest) =
      .ok ((a <<< 2 ||| b >>> 4) :: (b <<< 4 ||| c >>> 2) :: (c <<< 6 ||| d) :: decoded) := by
  rw [decodeChunks, (base64_char a ha).2.1, (base64_char b hb).2.1]
  simp only [base64Padded_value hc, base64Padded_value hd, hrest]
  rfl

theorem decodeChunks_two (ha : SixBits a) (hb : SixBits b) (hc : SixBits c)
    (hpad : c &&& 0x03 = 0) :
    decodeChunks [base64Byte a, base64Byte b, base64Byte c, 61] =
      .ok [a <<< 2 ||| b >>> 4, b <<< 4 ||| c >>> 2] := by
  have hlast : base64Padded 61 (Option.all (fun value => decide (value &&& 0x03 = 0)) (some c)) =
      .ok none := by
    rw [Option.all_some, decide_eq_true hpad]
    rfl
  rw [decodeChunks, (base64_char a ha).2.1, (base64_char b hb).2.1]
  simp only [base64Padded_value hc, hlast, isEmpty_nil, Bool.true_and, bind, Except.bind]
  rfl

theorem decodeChunks_one (ha : SixBits a) (hb : SixBits b) (hpad : b &&& 0x0f = 0) :
    decodeChunks [base64Byte a, base64Byte b, 61, 61] = .ok [a <<< 2 ||| b >>> 4] := by
  have hthird : base64Padded 61 (decide (b &&& 0x0f = 0)) = .ok none := by
    rw [decide_eq_true hpad]
    rfl
  rw [decodeChunks, (base64_char a ha).2.1, (base64_char b hb).2.1]
  simp only [hthird, isEmpty_nil, Bool.true_and, decide_true, bind, Except.bind]
  rfl

theorem decodeChunks_encodeChunks :
    decodeChunks (utf8 (String.ofList (encodeChunks bytes))) = .ok bytes := by
  fun_induction encodeChunks bytes with
  | case1 => rfl
  | case2 first =>
    obtain ⟨⟨hfirst, -⟩, -, ⟨hpad, -⟩, hhigh, hlow, -⟩ := byte_parts first
    have hlow' : (first &&& 0x03) <<< 4 ||| (0 : UInt8) >>> 4 = (first &&& 0x03) <<< 4 := by
      rw [UInt8.zero_shiftRight, UInt8.or_zero]
    simp only [encodeChunk, getD_none, hlow', utf8_value hhigh, utf8_value hlow]
    refine (decodeChunks_one hhigh hlow hpad).trans ?_
    rw [hfirst]
  | case3 first second =>
    obtain ⟨⟨hfirst, -⟩, ⟨-, hfirst0, -⟩, -, hhigh, hlow, -⟩ := byte_parts first
    obtain ⟨⟨-, hsecond, -⟩, ⟨hsecond0, -⟩, ⟨-, hpad⟩, -, -, hhigh', hlow', -⟩ := byte_parts second
    have hlast : (second &&& 0x0f) <<< 2 ||| (0 : UInt8) >>> 6 = (second &&& 0x0f) <<< 2 := by
      rw [UInt8.zero_shiftRight, UInt8.or_zero]
    simp only [encodeChunk, getD_none, getD_some, isSome_some, if_true, hlast,
      utf8_value hhigh, utf8_value (hlow.or hhigh'), utf8_value hlow']
    refine (decodeChunks_two hhigh (hlow.or hhigh') hlow' hpad).trans ?_
    rw [UInt8.shiftRight_or, hsecond0, UInt8.or_zero, hfirst, UInt8.shiftLeft_or, hfirst0, UInt8.zero_or, hsecond]
  | case4 first second third rest ih =>
    obtain ⟨⟨hfirst, -⟩, ⟨-, hfirst0, -⟩, -, hhigh, hlow, -⟩ := byte_parts first
    obtain ⟨⟨-, hsecond, -⟩, ⟨hsecond0, -, -, hsecond0'⟩, -, -, -, hhigh', hlow', -⟩ :=
      byte_parts second
    obtain ⟨⟨-, -, hthird⟩, ⟨-, -, hthird0, -⟩, -, -, -, -, -, hhigh'', hlow''⟩ := byte_parts third
    simp only [encodeChunk, getD_some, isSome_some, if_true, cons_append,
      nil_append, utf8_value hhigh, utf8_value (hlow.or hhigh'),
      utf8_value (hlow'.or hhigh''), utf8_value hlow'']
    rw [decodeChunks_three hhigh (hlow.or hhigh') (hlow'.or hhigh'') hlow'' ih,
      UInt8.shiftRight_or, hsecond0, UInt8.or_zero, hfirst, UInt8.shiftLeft_or, hfirst0,
      UInt8.zero_or, UInt8.shiftRight_or, hthird0, UInt8.or_zero, hsecond, UInt8.shiftLeft_or,
      hsecond0', UInt8.zero_or, hthird]

/-- ASCII characters that a JSON text shows as they are. -/
def PlainAscii (cs : List Char) : Prop := ∀ c ∈ cs, c.toNat < 128 ∧ escape c = [c]

theorem plainAscii_encodeChunk (first : UInt8) (second third : Option UInt8) :
    PlainAscii (encodeChunk first second third) := by
  obtain ⟨-, -, -, hhigh, hlow, -⟩ := byte_parts first
  obtain ⟨-, -, -, -, -, hhigh', hlow', -⟩ := byte_parts (second.getD 0)
  obtain ⟨-, -, -, -, -, -, -, hhigh'', hlow''⟩ := byte_parts (third.getD 0)
  have hchar {value : UInt8} (h : SixBits value) : (base64Char value).toNat < 128 ∧
      escape (base64Char value) = [base64Char value] := (base64_char value h).2.2.2
  have hpadding : ('=' : Char).toNat < 128 ∧ escape '=' = ['='] := by decide
  intro c hc
  simp only [encodeChunk, mem_cons, not_mem_nil, or_false] at hc
  rcases hc with rfl | rfl | rfl | rfl
  · exact hchar hhigh
  · exact hchar (hlow.or hhigh')
  · split
    · exact hchar (hlow'.or hhigh'')
    · exact hpadding
  · split
    · exact hchar hlow''
    · exact hpadding

theorem plainAscii_encodeChunks : PlainAscii (encodeChunks bytes) := by
  fun_induction encodeChunks bytes with
  | case1 => simp [PlainAscii]
  | case2 | case3 => exact plainAscii_encodeChunk _ _ _
  | case4 first second third rest ih =>
    intro c hc
    rcases mem_append.mp hc with hc | hc
    · exact plainAscii_encodeChunk _ _ _ c hc
    · exact ih c hc

theorem length_encodeChunks : (encodeChunks bytes).length = (bytes.length + 2) / 3 * 4 := by
  fun_induction encodeChunks bytes with
  | case1 => rfl
  | case2 | case3 => simp [encodeChunk]
  | case4 first second third rest ih =>
    rw [length_append]
    simp only [encodeChunk, length_cons, length_nil]
    omega

/-- The bytes of a stream come back. -/
theorem decodeExecutorStreamV0_encodeExecutorStreamV0 :
    decodeExecutorStreamV0 (encodeExecutorStreamV0 bytes) = .ok bytes := by
  have hplain := plainAscii_encodeChunks bytes
  have hlength : (utf8 (encodeExecutorStreamV0 bytes)).length = (bytes.length + 2) / 3 * 4 := by
    rw [length_utf8, encodeExecutorStreamV0, String.toList_ofList,
      byteSize_ascii fun c hc => (hplain c hc).1, length_encodeChunks]
  have hascii : ((encodeExecutorStreamV0 bytes).toList.all fun c => c.toNat < 128) = true := by
    rw [encodeExecutorStreamV0, String.toList_ofList]
    exact all_eq_true.mpr fun c hc => decide_eq_true (hplain c hc).1
  have haligned : (utf8 (encodeExecutorStreamV0 bytes)).length % 4 = 0 := by omega
  rw [decodeExecutorStreamV0, hascii, if_neg (by simp [haligned]), encodeExecutorStreamV0,
    decodeChunks_encodeChunks]

/-! ## Encoding what was decoded -/

/-- What a value says about the parts of the bytes that it stands in. -/
theorem sixBits_parts (x : UInt8) : SixBits x →
    ((x <<< 2) >>> 2 = x ∧ (x <<< 2) &&& 0x03 = 0 ∧ (x >>> 4) >>> 2 = 0) ∧
    (((x >>> 4) &&& 0x03) <<< 4 ||| (x <<< 4) >>> 4 = x ∧ (x <<< 4) &&& 0x0f = 0 ∧
      (x >>> 2) >>> 4 = 0 ∧ (x &&& 0x0f = 0 → ((x >>> 4) &&& 0x03) <<< 4 = x)) ∧
    ((((x >>> 2) &&& 0x0f) <<< 2 ||| (x <<< 6) >>> 6 = x) ∧ (x <<< 6) &&& 0x3f = 0 ∧
      x >>> 6 = 0 ∧ (x &&& 0x03 = 0 → ((x >>> 2) &&& 0x0f) <<< 2 = x)) := by
  revert x
  refine uint8_forall ?_
  decide +kernel

/-- What the reader takes for a value is the byte of its character. -/
theorem base64Value_eq_ok (h : base64Value byte = .ok value) :
    SixBits value ∧ base64Byte value = byte := by
  have hall : ∀ byte, (base64Value byte).toOption.all fun value =>
      decide (SixBits value ∧ base64Byte value = byte) := by
    refine uint8_forall ?_
    decide +kernel
  have := hall byte
  rw [h] at this
  exact of_decide_eq_true this

theorem base64Padded_eq_ok {mayPad : Bool} {found : Option UInt8}
    (h : base64Padded byte mayPad = .ok found) : byte = 61 ∧ mayPad = true ∧ found = none ∨
      ∃ value, found = some value ∧ SixBits value ∧ base64Byte value = byte := by
  unfold base64Padded at h
  split at h
  · split at h
    · cases h
      exact .inl ⟨‹_›, ‹_›, rfl⟩
    · cases h
  · cases hvalue : base64Value byte with
    | error e =>
      rw [hvalue] at h
      cases h
    | ok value =>
      rw [hvalue] at h
      cases h
      exact .inr ⟨value, rfl, base64Value_eq_ok hvalue⟩

/-- The text of the bytes that were read from the characters of two to four values. -/
theorem encodeChunk_decoded (ha : SixBits a) (hb : SixBits b) :
    (b &&& 0x0f = 0 → encodeChunk (a <<< 2 ||| b >>> 4) none none =
      [base64Char a, base64Char b, '=', '=']) ∧ ∀ c, SixBits c →
    (c &&& 0x03 = 0 → encodeChunk (a <<< 2 ||| b >>> 4) (some (b <<< 4 ||| c >>> 2)) none =
      [base64Char a, base64Char b, base64Char c, '=']) ∧ ∀ d, SixBits d →
    encodeChunk (a <<< 2 ||| b >>> 4) (some (b <<< 4 ||| c >>> 2)) (some (c <<< 6 ||| d)) =
      [base64Char a, base64Char b, base64Char c, base64Char d] := by
  obtain ⟨⟨ha1, ha2, -⟩, -⟩ := sixBits_parts a ha
  obtain ⟨⟨-, -, hb1⟩, ⟨hb2, hb3, -, hb4⟩, -⟩ := sixBits_parts b hb
  refine ⟨fun hpad => ?_, fun c hc => ?_⟩
  · simp [encodeChunk, UInt8.shiftRight_or, or_and_distrib, ha1, ha2, hb1, hb4 hpad]
  obtain ⟨-, ⟨-, -, hc1, -⟩, hc2, hc3, -, hc4⟩ := sixBits_parts c hc
  refine ⟨fun hpad => ?_, fun d hd => ?_⟩
  · simp [encodeChunk, UInt8.shiftRight_or, or_and_distrib, ha1, ha2, hb1, hb2, hb3, hc1, hc4 hpad]
  obtain ⟨-, -, -, -, hd1, -⟩ := sixBits_parts d hd
  have hd2 : d &&& 0x3f = d := hd
  simp [encodeChunk, UInt8.shiftRight_or, or_and_distrib, ha1, ha2, hb1, hb2, hb3, hc1, hc2, hc3,
    hd1, hd2]

/-- The text of the bytes that were read is what they were read from. -/
theorem utf8_encodeChunks_of_decodeChunks {xs decoded : List UInt8}
    (h : decodeChunks xs = .ok decoded) (hlength : xs.length % 4 = 0) :
    utf8 (String.ofList (encodeChunks decoded)) = xs := by
  induction xs using decodeChunks.induct generalizing decoded with
  | case1 x y z w rest ih =>
    simp only [decodeChunks, bind_eq_ok] at h
    obtain ⟨a, ha, b, hb, c, hc, d, hd, after, hafter, h⟩ := h
    cases h
    obtain ⟨ha', rfl⟩ := base64Value_eq_ok ha
    obtain ⟨hb', rfl⟩ := base64Value_eq_ok hb
    obtain ⟨hone, hmore⟩ := encodeChunk_decoded ha' hb'
    -- A padded chunk is the last one.
    have hlast (hrest : rest.isEmpty) : rest = [] ∧ after = [] := by
      cases isEmpty_iff.mp hrest
      cases hafter
      exact ⟨rfl, rfl⟩
    rcases base64Padded_eq_ok hc with ⟨rfl, hpad, rfl⟩ | ⟨c, rfl, hc', rfl⟩
    · simp only [Bool.and_eq_true, decide_eq_true_eq] at hpad
      obtain ⟨⟨hrest, rfl⟩, hpad⟩ := hpad
      obtain ⟨rfl, rfl⟩ := hlast hrest
      simp only [append_nil, encodeChunks, hone hpad, utf8_value ha', utf8_value hb']
      rfl
    · rcases base64Padded_eq_ok hd with ⟨rfl, hpad, rfl⟩ | ⟨d, rfl, hd', rfl⟩
      · simp only [Bool.and_eq_true, Option.all_some, decide_eq_true_eq] at hpad
        obtain ⟨rfl, rfl⟩ := hlast hpad.1
        simp only [append_nil, encodeChunks, (hmore c hc').1 hpad.2, utf8_value ha',
          utf8_value hb', utf8_value hc']
        rfl
      · simp only [cons_append, nil_append, encodeChunks, (hmore c hc').2 d hd',
          utf8_value ha', utf8_value hb', utf8_value hc', utf8_value hd']
        rw [ih hafter (by simp only [length_cons] at hlength; omega)]
  | case2 xs hshort =>
    match xs with
    | [] =>
      cases h
      rfl
    | [_] | [_, _] | [_, _, _] => simp at hlength
    | x :: y :: z :: w :: rest => exact absurd rfl (hshort x y z w rest)

/-- Tool stream text and bytes correspond one to one: all bytes come back from their text, and no
    other text is read. -/
theorem executor_stream_oneEncoding :
    (∀ bytes, decodeExecutorStreamV0 (encodeExecutorStreamV0 bytes) = .ok bytes) ∧
    ∀ encoded bytes, decodeExecutorStreamV0 encoded = .ok bytes →
      encodeExecutorStreamV0 bytes = encoded := by
  refine ⟨decodeExecutorStreamV0_encodeExecutorStreamV0, fun encoded bytes h => ?_⟩
  unfold decodeExecutorStreamV0 at h
  obtain ⟨hshape, h⟩ := ite_error_eq_ok.mp h
  have hlength : (utf8 encoded).length % 4 = 0 := by simp_all
  exact utf8_injective (utf8_encodeChunks_of_decodeChunks h hlength)

end Watershed.Proto.Executor
