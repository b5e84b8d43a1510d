/-
  The one edit between two texts (`difference` of `page_editor.dart`), in UTF-16 code units.

  The common parts are found unit by unit and then moved off a surrogate pair. A leading surrogate
  comes right before every trailing one, so it is enough to look at one of the two texts.
-/
import Watershed.Liquid.Model

namespace Watershed.Liquid.TextEdit

open List

def utf16Encode (c : Char) : List Nat :=
  if c.val < 0x10000 then [c.toNat]
  else [0xD800 + (c.toNat - 0x10000) / 0x400, 0xDC00 + (c.toNat - 0x10000) % 0x400]

/-- The code units of a text: well-formed UTF-16. -/
def utf16 (cs : List Char) : List Nat := cs.flatMap utf16Encode

/-- How far two texts agree, at most `limit` units. -/
def common : Nat → List Nat → List Nat → Nat
  | limit + 1, x :: xs, y :: ys => if x = y then common limit xs ys + 1 else 0
  | _, _, _ => 0

def trail (from_ : List Nat) (at_ : Nat) : Bool := from_[at_]?.any (· &&& 0xFC00 = 0xDC00)

/-- Where two texts differ: the start, how much of `from_` goes and what `to_` puts there. -/
def difference (from_ to_ : List Nat) : Nat × Nat × List Nat :=
  let shorter := if to_.length < from_.length then to_.length else from_.length
  let start := common shorter to_ from_
  let end_ := common (shorter - start) to_.reverse from_.reverse
  let start := if 0 < start ∧ trail from_ start then start - 1 else start
  let end_ := if 0 < end_ ∧ trail from_ (from_.length - end_) then end_ - 1 else end_
  (start, from_.length - start - end_, (to_.take (to_.length - end_)).drop start)

/-! ## Surrogates -/

theorem and_mask (n : Nat) : n &&& 0xFC00 = n / 1024 % 64 * 1024 := by
  have hdiv : (n &&& 0xFC00) / 1024 = n / 1024 % 64 :=
    (@Nat.and_div_two_pow n 0xFC00 10).trans (Nat.and_two_pow_sub_one_eq_mod _ 6)
  have hmod : (n &&& 0xFC00) % 1024 = 0 := (@Nat.and_mod_two_pow n 0xFC00 10).trans (Nat.and_zero _)
  omega

/-- The highest six bits of a unit: 54 for a leading surrogate, 55 for a trailing one. -/
def high (unit : Nat) : Nat := unit / 1024 % 64

theorem trail_iff {us : List Nat} {i : Nat} : trail us i = true ↔ us[i]?.map high = some 55 := by
  unfold trail high
  cases us[i]? with
  | none => simp
  | some n =>
    simp only [Option.any_some, and_mask, decide_eq_true_eq, Option.map_some, Option.some.injEq]
    omega

theorem high_utf16Encode (c : Char) :
    (∃ n, utf16Encode c = [n] ∧ high n ≠ 54 ∧ high n ≠ 55 ∧ lenUtf16 c = 1) ∨
      ∃ n m, utf16Encode c = [n, m] ∧ high n = 54 ∧ high m = 55 ∧ lenUtf16 c = 2 := by
  have hvalid : c.toNat < 0xD800 ∨ 0xDFFF < c.toNat ∧ c.toNat < 0x110000 := c.valid
  unfold high
  by_cases h : c.val < 0x10000
  · have hlt : c.toNat < 0x10000 := by simpa [UInt32.lt_iff_toNat_lt] using h
    exact .inl ⟨c.toNat, if_pos h, by omega, by omega, if_pos h⟩
  · have hle : 0x10000 ≤ c.toNat := by simpa [UInt32.lt_iff_toNat_lt] using h
    have hdiv : (c.toNat - 0x10000) / 0x400 < 0x400 := by omega
    exact .inr ⟨_, _, if_neg h, by omega, by omega, if_neg h⟩

variable {cs : List Char} {us vs : List Nat} {i k : Nat}

/-- A trailing surrogate comes right after a leading one, and only there. -/
structure Paired (us : List Nat) : Prop where
  zero : trail us 0 = false
  succ : ∀ i, trail us (i + 1) = true ↔ us[i]?.map high = some 54

theorem paired_utf16 (cs : List Char) : Paired (utf16 cs) := by
  induction cs with
  | nil => exact ⟨rfl, by simp [utf16, trail]⟩
  | cons c cs ih =>
    have hzero := mt trail_iff.mpr (Bool.eq_false_iff.mp ih.zero)
    rw [utf16, flatMap_cons, ← utf16]
    rcases high_utf16Encode c with ⟨n, hc, hlead, htrail, -⟩ | ⟨n, m, hc, hlead, htrail, -⟩ <;>
      rw [hc]
    · refine ⟨?_, fun i => ?_⟩
      · simp [Bool.eq_false_iff, trail_iff, htrail]
      · cases i with
        | zero => simpa [trail_iff, hlead] using hzero
        | succ i => simpa [trail_iff] using ih.succ i
    · refine ⟨?_, fun i => ?_⟩
      · simp [Bool.eq_false_iff, trail_iff, hlead]
      · rcases i with _ | _ | i
        · simp [trail_iff, hlead, htrail]
        · simpa [trail_iff, htrail] using hzero
        · simpa [trail_iff] using ih.succ i

/-- Where no trailing surrogate follows, the text is cut between two characters. -/
theorem exists_cut (hi : i ≤ (utf16 cs).length) (htrail : trail (utf16 cs) i = false) :
    ∃ before after, cs = before ++ after ∧ (utf16 before).length = i := by
  induction cs generalizing i with
  | nil => exact ⟨[], [], rfl, (Nat.le_zero.mp hi).symm⟩
  | cons c cs ih =>
    rcases Nat.eq_zero_or_pos i with rfl | hpos
    · exact ⟨[], c :: cs, rfl, rfl⟩
    rw [utf16, flatMap_cons, ← utf16] at hi htrail
    obtain ⟨k, rfl⟩ : ∃ k, i = (utf16Encode c).length + k := by
      refine Nat.exists_eq_add_of_le ?_
      rcases high_utf16Encode c with ⟨n, hc, -, -, -⟩ | ⟨n, m, hc, -, hm, -⟩ <;> rw [hc]
      · exact hpos
      · refine Nat.lt_of_le_of_ne hpos fun hone => Bool.eq_false_iff.mp htrail ?_
        rw [← hone, hc, trail_iff]
        simp [hm]
    rw [trail, getElem?_append_right (Nat.le_add_right _ k), Nat.add_sub_cancel_left] at htrail
    rw [length_append, Nat.add_le_add_iff_left] at hi
    obtain ⟨before, after, rfl, hlength⟩ := ih hi htrail
    exact ⟨c :: before, after, rfl, by rw [utf16, flatMap_cons, ← utf16, length_append, hlength]⟩

theorem exists_between {start end_ : Nat} (hle : start ≤ end_) (hend : end_ ≤ (utf16 cs).length)
    (hstart : trail (utf16 cs) start = false) (htrail : trail (utf16 cs) end_ = false) :
    ∃ inner, ((utf16 cs).take end_).drop start = utf16 inner := by
  obtain ⟨before, rest, rfl, rfl⟩ := exists_cut (hle.trans hend) hstart
  obtain ⟨k, rfl⟩ := Nat.exists_eq_add_of_le hle
  have happend : ∀ xs ys, utf16 (xs ++ ys) = utf16 xs ++ utf16 ys := fun _ _ => flatMap_append
  rw [happend, trail, getElem?_append_right hle, Nat.add_sub_cancel_left] at htrail
  rw [happend, length_append, Nat.add_le_add_iff_left] at hend
  obtain ⟨inner, after, rfl, rfl⟩ := exists_cut hend htrail
  refine ⟨inner, ?_⟩
  rw [happend, take_length_add_append, drop_left, happend, take_left]

/-! ## The common parts -/

theorem take_common (limit : Nat) (xs ys : List Nat) :
    common limit xs ys ≤ limit ∧ xs.take (common limit xs ys) = ys.take (common limit xs ys) := by
  fun_induction common limit xs ys with
  | case1 limit xs y ys ih => exact ⟨Nat.succ_le_succ ih.1, congrArg (y :: ·) ih.2⟩
  | case2 => simp
  | case3 => simp

theorem take_of_le {xs ys : List Nat} (hi : i ≤ k) (h : xs.take k = ys.take k) :
    xs.take i = ys.take i := by
  simpa [take_take, Nat.min_eq_left hi] using congrArg (take i) h

/-- The common start, moved off a pair, is between characters of both texts. -/
theorem Paired.not_trail_start (hu : Paired us) (hv : Paired vs) (h : vs.take k = us.take k) :
    ∃ start ≤ k, (if 0 < k ∧ trail us k then k - 1 else k) = start ∧
      trail us start = false ∧ trail vs start = false := by
  refine ⟨_, ?_, rfl, ?_⟩
  · split <;> omega
  cases k with
  | zero => simp [hu.zero, hv.zero]
  | succ j =>
    have hlast : vs[j]? = us[j]? := by simpa [getElem?_take] using congrArg (·[j]?) h
    simp only [Bool.eq_false_iff]
    by_cases htrail : trail us (j + 1)
    · simp [htrail, trail_iff, hlast, (hu.succ j).mp htrail]
    · simp [htrail, hv.succ, hlast, ← hu.succ]

/-- The common end, moved off a pair, is between characters of both texts. -/
theorem Paired.not_trail_end (hu : Paired us) (hv : Paired vs)
    (h : vs.drop (vs.length - k) = us.drop (us.length - k)) (hvs : k ≤ vs.length)
    (hus : k ≤ us.length) :
    ∃ end_ ≤ k, (if 0 < k ∧ trail us (us.length - k) then k - 1 else k) = end_ ∧
      trail us (us.length - end_) = false ∧ trail vs (vs.length - end_) = false := by
  refine ⟨_, ?_, rfl, ?_⟩
  · split <;> omega
  cases k with
  | zero => simp [trail]
  | succ j =>
    have hfirst : vs[vs.length - (j + 1)]? = us[us.length - (j + 1)]? := by
      rw [← head?_drop, h, head?_drop]
    simp only [Bool.eq_false_iff]
    by_cases htrail : trail us (us.length - (j + 1))
    · have hsucc : ∀ n, j + 1 ≤ n → n - j = n - (j + 1) + 1 := fun n hn => by omega
      simp [htrail, hsucc _ hvs, hsucc _ hus, hu.succ, hv.succ, hfirst, trail_iff.mp htrail]
    · have hnot := mt trail_iff.mpr htrail
      simp [htrail, trail_iff, hfirst, hnot]

/-! ## Boundaries -/

theorem length_utf16 (cs : List Char) : (utf16 cs).length = units cs := by
  rw [utf16, length_flatMap, units]
  refine congrArg sum (map_congr_left fun c _ => ?_)
  rcases high_utf16Encode c with ⟨n, hc, -, -, hlen⟩ | ⟨n, m, hc, -, -, hlen⟩ <;> rw [hc, hlen] <;>
    rfl

theorem charsBefore_append (before after : List Char) :
    charsBefore (before ++ after) (units before) = before.length + charsBefore after 0 := by
  induction before with
  | nil => simp [units]
  | cons c before ih =>
    rw [cons_append, charsBefore, units, map_cons, sum_cons, ← units,
      if_pos (Nat.le_add_right _ _), Nat.add_sub_cancel_left, ih, length_cons]
    omega

theorem charsBefore_lt {before : List Char} (after : List Char) (h : i < units before) :
    charsBefore (before ++ after) i < before.length := by
  induction before generalizing i with
  | nil => simp [units] at h
  | cons c before ih =>
    rw [units, map_cons, sum_cons, ← units] at h
    rw [cons_append, charsBefore]
    split
    · exact Nat.succ_lt_succ (ih (by omega))
    · exact Nat.succ_pos _

theorem onBoundary_of_not_trail {s : State} {obj : Path} (hnode : s.node obj = some (.text cs))
    (hi : i ≤ (utf16 cs).length) (htrail : trail (utf16 cs) i = false) :
    onBoundary s obj i = true := by
  obtain ⟨before, after, rfl, rfl⟩ := exists_cut hi htrail
  rw [length_utf16, length_utf16] at hi
  rw [length_utf16]
  simp only [onBoundary, length, chars, hnode, Bool.or_eq_true, Bool.and_eq_true, decide_eq_true_eq]
  rcases Nat.eq_zero_or_pos (units before) with hzero | hpos
  · exact .inl (.inl hzero)
  rcases Nat.eq_or_lt_of_le hi with heq | hlt
  · exact .inl (.inr heq)
  refine .inr ⟨hlt, fun heq => ?_⟩
  have hless := charsBefore_lt after (Nat.sub_lt hpos Nat.one_pos)
  have hat := charsBefore_append before after
  have hsame : charsBefore _ _ = charsBefore _ _ := Option.some.inj heq
  omega

/-- The edit gives `to_`, starts and ends between characters of `from_`, and inserts whole
    characters. -/
theorem difference_exact (from_ to_ : List Char) : ∃ start delete insert,
    difference (utf16 from_) (utf16 to_) = (start, delete, utf16 insert) ∧
      start + delete ≤ (utf16 from_).length ∧
      (utf16 from_).take start ++ utf16 insert ++ (utf16 from_).drop (start + delete) = utf16 to_ ∧
      ∀ (s : State) (obj : Path), s.node obj = some (.text from_) →
        onBoundary s obj start = true ∧ onBoundary s obj (start + delete) = true := by
  unfold difference
  have hu := paired_utf16 from_
  have hv := paired_utf16 to_
  have hinner := @exists_between to_
  have hboundary := @onBoundary_of_not_trail from_
  generalize utf16 from_ = us at *
  generalize utf16 to_ = vs at *
  generalize hshorter : (if vs.length < us.length then vs.length else us.length) = shorter
  have hshort : shorter ≤ vs.length ∧ shorter ≤ us.length := by
    subst hshorter
    split <;> omega
  obtain ⟨hk, htake⟩ := take_common shorter vs us
  obtain ⟨start, hstart, heq, husStart, hvsStart⟩ := hu.not_trail_start hv htake
  obtain ⟨hj, htake'⟩ := take_common (shorter - common shorter vs us) vs.reverse us.reverse
  have hdrop := htake'
  rw [take_reverse, take_reverse, reverse_inj] at hdrop
  obtain ⟨end_, hend, heq', husEnd, hvsEnd⟩ := hu.not_trail_end hv hdrop (by omega) (by omega)
  have hle : start ≤ vs.length - end_ := by omega
  obtain ⟨insert, hinsert⟩ := hinner hle (by omega) hvsStart hvsEnd
  have hdelete : start + (us.length - start - end_) = us.length - end_ := by omega
  refine ⟨start, us.length - start - end_, insert, ?_, by omega, ?_, fun s obj hnode => ?_⟩
  · simp only [heq, heq', hinsert]
  · have hafter := take_of_le hend htake'
    rw [take_reverse, take_reverse, reverse_inj] at hafter
    rw [hdelete, ← take_of_le hstart htake, ← hafter, ← hinsert]
    have hparts := take_append_drop start (vs.take (vs.length - end_))
    rw [take_take, Nat.min_eq_left hle] at hparts
    rw [hparts, take_append_drop]
  · rw [hdelete]
    exact ⟨hboundary hnode (by omega) husStart, hboundary hnode (by omega) husEnd⟩

end Watershed.Liquid.TextEdit
