/-
  Texts as bytes.

  A byte below 128 in the UTF-8 form of a text is an ASCII character of the text, so a text has a
  byte 10 just where it has a newline.
-/
import Mathlib.Data.List.Basic

open List String

namespace Watershed

/-- `text.as_bytes()`. -/
def utf8 (text : String) : List UInt8 := text.toList.flatMap utf8EncodeChar

/-- `std::str::from_utf8`. -/
def fromUtf8 (bytes : List UInt8) : Option String := fromUTF8? bytes.toByteArray

theorem toByteArray_utf8 (text : String) : (utf8 text).toByteArray = text.toByteArray := by
  have h : (ofList text.toList).toByteArray = text.toList.utf8Encode := toByteArray_ofList
  rw [ofList_toList] at h
  rw [h]
  rfl

theorem fromUtf8_utf8 (text : String) : fromUtf8 (utf8 text) = some text := by
  rw [fromUtf8, toByteArray_utf8, fromUTF8?, dif_pos text.isValidUTF8]
  rfl

theorem utf8_of_fromUtf8 {bytes : List UInt8} {text : String} (h : fromUtf8 bytes = some text) :
    utf8 text = bytes := by
  rw [fromUtf8, fromUTF8?] at h
  split at h
  · refine List.toByteArray_inj.mp ?_
    rw [toByteArray_utf8, ← Option.some.inj h]
    rfl
  · cases h

theorem utf8_injective {text other : String} (h : utf8 text = utf8 other) : text = other := by
  have := fromUtf8_utf8 text
  rw [h, fromUtf8_utf8] at this
  exact (Option.some.inj this).symm

theorem le_toNat_ofNat {n limit : Nat} (hn : n < 256) (h : limit ≤ n) :
    limit ≤ (UInt8.ofNat n).toNat := by
  rwa [UInt8.toNat_ofNat_of_lt' hn]

/-- A byte below 128 is an ASCII character; the bytes of other characters have their high bit
    set. -/
theorem toNat_of_mem_utf8EncodeChar {c : Char} {b : UInt8} (h : b ∈ utf8EncodeChar c)
    (hb : b.toNat < 128) : c.toNat = b.toNat := by
  by_cases hascii : c.val.toNat ≤ 0x7f
  · rw [utf8EncodeChar, if_pos hascii, mem_singleton] at h
    rw [h, UInt8.toNat_ofNat_of_lt' (show _ < 256 by omega)]
    rfl
  · have hhigh : 128 ≤ b.toNat := by
      rw [utf8EncodeChar, if_neg hascii] at h
      split at h
      · simp only [mem_cons, not_mem_nil, or_false] at h
        rcases h with rfl | rfl
        all_goals exact le_toNat_ofNat (by omega) (by omega)
      · split at h
        · simp only [mem_cons, not_mem_nil, or_false] at h
          rcases h with rfl | rfl | rfl
          all_goals exact le_toNat_ofNat (by omega) (by omega)
        · simp only [mem_cons, not_mem_nil, or_false] at h
          rcases h with rfl | rfl | rfl | rfl
          all_goals exact le_toNat_ofNat (by omega) (by omega)
    omega

theorem newline_mem_utf8 {text : String} : (10 : UInt8) ∈ utf8 text ↔ '\n' ∈ text.toList := by
  rw [utf8, mem_flatMap]
  constructor
  · rintro ⟨c, hc, hbyte⟩
    have hnewline : c = '\n' := Char.toNat_inj.mp (toNat_of_mem_utf8EncodeChar hbyte (by decide))
    rwa [← hnewline]
  · exact fun h => ⟨_, h, by decide⟩

end Watershed
