/-
  Fractional sort keys (`sort_key.rs`): a new key fits strictly between two neighbours.

  A key is an integer part, whose first character gives its length, then a fraction in base
  62 that does not end in `0`. The source works on bytes. A valid key is ASCII, and text that
  is not ASCII is no valid key whether it is read as bytes or as characters, so the model
  works on characters.

  A slice, an index or a subtraction that would panic in the source makes the model return
  `none`. `betweenChecked_spec` shows that this never happens and that the key is valid and
  lies strictly between its neighbours; `between` is the total function that follows.
-/
import Mathlib.Data.Bool.AllAny
import Mathlib.Data.String.Basic
import Mathlib.Data.List.Basic
import Watershed.Lib.OrderedList

open List Option

namespace Watershed.Liquid.SortKey

open List Char

/-! ## The source's functions -/

def digits : List Char :=
  ['0', '1', '2', '3', '4', '5', '6', '7', '8', '9', 'A', 'B', 'C', 'D', 'E', 'F', 'G',
   'H', 'I', 'J', 'K', 'L', 'M', 'N', 'O', 'P', 'Q', 'R', 'S', 'T', 'U', 'V', 'W', 'X',
   'Y', 'Z', 'a', 'b', 'c', 'd', 'e', 'f', 'g', 'h', 'i', 'j', 'k', 'l', 'm', 'n', 'o',
   'p', 'q', 'r', 's', 't', 'u', 'v', 'w', 'x', 'y', 'z']

def smallest : List Char := 'A' :: replicate 26 '0'

def value (digit : Char) : Nat := (digits.idxOf? digit).getD 0

/-- The length of the integer part that starts with `head`. -/
def integerLength (head : Char) : Option Nat :=
  if 'a' ≤ head ∧ head ≤ 'z' then some (head.toNat - 'a'.toNat + 2)
  else if 'A' ≤ head ∧ head ≤ 'Z' then some ('Z'.toNat - head.toNat + 2)
  else none

/-- The integer part of `key`, or `none` if it is no valid key. -/
def integer (key : List Char) : Option (List Char) := do
  let length ← integerLength (← key.head?)
  if key.length < length then none
  -- The smallest integer without a fraction leaves no room before it.
  else if key ≠ smallest ∧ key.tail.all (· ∈ digits) ∧ (key.drop length).getLast? ≠ some '0' then
    some (key.take length)
  else none

/-- The carry loop of `increment` and `decrement` over the digits, last digit first: digits
    equal to `wrap` become `wrapped`, and the first other digit moves by `next`. The flag says
    whether there was one. -/
def carry (wrap wrapped : Char) (next : Nat → Option Nat) :
    List Char → Option (List Char × Bool)
  | [] => some ([], false)
  | d :: ds =>
    if d = wrap then (carry wrap wrapped next ds).map fun r => (wrapped :: r.1, r.2)
    else (next (value d)).bind fun v => digits[v]?.map fun d' => (d' :: ds, true)

/-- The next integer part; `some none` after the last one. -/
def increment (int : List Char) : Option (Option (List Char)) := do
  let head ← int.head?
  let (ds, done) ← carry 'z' '0' (fun v => some (v + 1)) int.tail.reverse
  if done then some (some (head :: ds.reverse))
  else if head = 'Z' then some (some ['a', '0'])
  else if head = 'z' then some none
  else
    let head := ofNat (head.toNat + 1)
    if 'a' < head then some (some (head :: (ds.reverse ++ ['0'])))
    else some (some (head :: ds.reverse.dropLast))

/-- The previous integer part; `some none` before the first one. -/
def decrement (int : List Char) : Option (Option (List Char)) := do
  let head ← int.head?
  let (ds, done) ← carry '0' 'z' (fun v => if v = 0 then none else some (v - 1)) int.tail.reverse
  if done then some (some (head :: ds.reverse))
  else if head = 'a' then some (some ['Z', 'z'])
  else if head = 'A' then some none
  else
    let head := ofNat (head.toNat - 1)
    if head < 'Z' then some (some (head :: (ds.reverse ++ ['z'])))
    else some (some (head :: ds.reverse.dropLast))

/-- `key`'s digit at `i`, `0` past its end. -/
def digitAt (key : List Char) (i : Nat) : Char := (key[i]?).getD '0'

/-- How many leading digits of `after` are those of `before`. -/
def sharedDigits (before : List Char) : List Char → Nat
  | [] => 0
  | digit :: after =>
    if digitAt before 0 = digit then sharedDigits before.tail after + 1 else 0

/-- A fraction strictly between `before` and `after`. The recursion drops digits that `after`
    shares with `before`, or passes to the digits of `before` alone, so `fuel` of one more
    than the digits of both is enough (`midpoint_spec`). -/
def midpoint (fuel : Nat) (before : List Char) (after : Option (List Char)) : Option (List Char) :=
  match fuel with
  | 0 => none
  | fuel + 1 =>
    let shared := after.elim 0 (sharedDigits before)
    if 0 < shared then do
      let after ← after
      let key ← midpoint fuel (before.drop shared) (some (after.drop shared))
      some (after.take shared ++ key)
    else do
      let low := value (digitAt before 0)
      let high ← after.elim (some digits.length) fun after => after.head?.map value
      if high < low then none
      else if 1 < high - low then
        let digit ← digits[(low + high + 1) / 2]?
        some [digit]
      else if 1 < (after.getD []).length then
        some ((after.getD []).take 1)
      else
        let digit ← digits[low]?
        let key ← midpoint fuel before.tail none
        some (digit :: key)

/-- `midpoint` with enough fuel. -/
def mid (before : List Char) (after : Option (List Char)) : Option (List Char) :=
  midpoint (before.length + (after.getD []).length + 2) before after

def keyBetween (before after : Option (List Char)) : Option (List Char) :=
  match before, after with
  | none, none => some ['a', '0']
  | none, some after => do
    let int ← integer after
    if int = smallest then return int ++ (← mid [] (some (after.drop int.length)))
    if int.length < after.length then return int
    match ← decrement int with
    | some smaller =>
      -- The smallest integer is no key on its own, so it takes a fraction.
      if smaller = smallest then return smallest ++ (← mid [] none) else return smaller
    | none => return int ++ (← mid [] (some (after.drop int.length)))
  | some before, none => do
    let int ← integer before
    match ← increment int with
    | some next => return next
    | none => return int ++ (← mid (before.drop int.length) none)
  | some before, some after => do
    let low ← integer before
    let high ← integer after
    if low = high then
      return low ++ (← mid (before.drop low.length) (some (after.drop high.length)))
    match ← increment low with
    | some next =>
      if next < after then return next
      else return low ++ (← mid (before.drop low.length) none)
    | none => return low ++ (← mid (before.drop low.length) none)

/-- `between` with its panics: neighbours that are no valid keys count as the start or the
    end, and so does an `after` that is not after `before`. -/
def betweenChecked (before after : Option String) : Option String :=
  let before := (before.map String.toList).filter fun key => (integer key).isSome
  let after := ((after.map String.toList).filter fun key => (integer key).isSome).filter
    fun after => before.all fun before => before < after
  (keyBetween before after).map String.ofList

/-! ## Digits -/

theorem digits_sorted : digits.Pairwise (· < ·) := by decide

theorem value_lt : ∀ c ∈ digits, value c < 62 := all_iff_forall_prop.mp (by decide)

theorem digits_value : ∀ c ∈ digits, digits[value c]? = some c := all_iff_forall_prop.mp (by decide)

theorem digits_length : digits.length = 62 := by decide

variable {i k : Nat} {c d a head wrap : Char} {before r u v x y int ds rest frac : List Char}
    {after : Option (List Char)} {n : Nat}

theorem digits_lt {j : Nat} (hc : digits[i]? = some c) (hd : digits[j]? = some d)
    (h : i < j) : c < d := by
  obtain ⟨hi, rfl⟩ := List.getElem?_eq_some_iff.mp hc
  obtain ⟨hj, rfl⟩ := List.getElem?_eq_some_iff.mp hd
  exact pairwise_iff_getElem.mp digits_sorted i j hi hj h

theorem value_lt_value (hc : c ∈ digits) (hd : d ∈ digits) (h : c < d) : value c < value d := by
  rcases lt_trichotomy (value c) (value d) with h' | h' | h'
  · exact h'
  · have := digits_value _ hc
    rw [h', digits_value _ hd] at this
    exact absurd h (by rw [some.inj this]; exact lt_irrefl _)
  · exact absurd h (not_lt_of_gt (digits_lt (digits_value _ hd) (digits_value _ hc) h'))

theorem exists_digit (h : i < 62) : ∃ c ∈ digits, digits[i]? = some c := by
  exact ⟨digits[i], getElem_mem _, List.getElem?_eq_getElem _⟩

theorem zero_lt_digit : ∀ c ∈ digits, c ≠ '0' → '0' < c := all_iff_forall_prop.mp (by decide)

theorem digit_ne_zero (h : digits[i]? = some c) (hi : 0 < i) : c ≠ '0' := by
  have h0 : digits[0]? = some '0' := by decide
  exact ne_of_gt (digits_lt h0 h hi)

/-! ## Fractions -/

/-- Digits that do not end in `0`. -/
def Fraction (f : List Char) : Prop := (∀ c ∈ f, c ∈ digits) ∧ f.getLast? ≠ some '0'

theorem nil_lt (h : r ≠ []) : [] < r := by
  obtain ⟨c, cs, rfl⟩ := exists_cons_of_ne_nil h
  exact nil_lt_cons c cs

/-- What `sharedDigits` cuts off: the rest of `after` is still above the rest of `before`,
    and what is above the rest of `before` is above `before` with the shared digits. -/
theorem sharedDigits_spec (after : List Char) : ∀ before : List Char,
    before < after → after.getLast? ≠ some '0' →
    before.drop (sharedDigits before after) < after.drop (sharedDigits before after) ∧
    (after.drop (sharedDigits before after)).getLast? ≠ some '0' ∧
    ∀ r, before.drop (sharedDigits before after) < r →
      before < after.take (sharedDigits before after) ++ r := by
  induction after with
  | nil => intro before h; exact absurd h (not_lt_nil _)
  | cons a as ih =>
    intro before hlt hlast
    unfold sharedDigits
    split
    · rename_i ha
      cases before with
      | nil =>
        -- `after` goes on, for its last digit is not the `0` that it starts with.
        have has : as ≠ [] := by
          rintro rfl
          simp [digitAt] at ha
          simp [← ha] at hlast
        rw [← singleton_append, getLast?_append_of_ne_nil _ has] at hlast
        obtain ⟨h1, h2, -⟩ := ih [] (nil_lt has) hlast
        refine ⟨by simpa using h1, by simpa using h2, fun r _ => ?_⟩
        simp
      | cons b bs =>
        have hab : b = a := by simpa [digitAt] using ha
        subst hab
        have hlt' : bs < as := by
          rcases cons_lt_cons_iff.mp hlt with h | ⟨-, h⟩
          · exact absurd h (lt_irrefl _)
          · exact h
        have has : as ≠ [] := by
          rintro rfl
          exact not_lt_nil _ hlt'
        rw [← singleton_append, getLast?_append_of_ne_nil _ has] at hlast
        obtain ⟨h1, h2, h3⟩ := ih bs hlt' hlast
        refine ⟨by simpa using h1, by simpa using h2, fun r hr => ?_⟩
        rw [take_succ_cons, cons_append, cons_lt_cons_iff]
        exact .inr ⟨rfl, h3 r (by simpa using hr)⟩
    · exact ⟨by simpa using hlt, by simpa using hlast, fun r hr => by simpa using hr⟩

/-- With no shared digit, the first digit of `after` is the larger one. -/
theorem digitAt_lt_of_sharedDigits {as : List Char} (hlt : before < a :: as)
    (ha : a ∈ digits) (hs : sharedDigits before (a :: as) = 0) : digitAt before 0 < a := by
  have hne : digitAt before 0 ≠ a := by
    intro h
    simp [sharedDigits, h] at hs
  cases before with
  | nil => exact zero_lt_digit _ ha (by simpa [digitAt] using hne.symm)
  | cons b bs =>
    rcases cons_lt_cons_iff.mp hlt with h | ⟨h, -⟩
    · simpa [digitAt] using h
    · exact absurd h (by simpa [digitAt] using hne)

theorem digitAt_mem (h : ∀ c ∈ before, c ∈ digits) : digitAt before 0 ∈ digits := by
  cases before with
  | nil => decide
  | cons b bs => simpa [digitAt] using h b (by simp)

/-- A digit above the first digit of `before` is above `before`. -/
theorem lt_cons_of_digitAt_lt (h : digitAt before 0 < d) : before < d :: r := by
  cases before with
  | nil => exact nil_lt_cons _ _
  | cons b bs => exact cons_lt_cons_iff.mpr (.inl (by simpa [digitAt] using h))

/-- What `midpoint` promises of its result `r`. -/
structure IsMidpoint (before : List Char) (after : Option (List Char)) (r : List Char) : Prop where
  above : before < r
  below : ∀ a, after = some a → r < a
  fraction : Fraction r

theorem IsMidpoint.ne_nil (h : IsMidpoint before after r) : r ≠ [] := by
  rintro rfl
  exact not_lt_nil _ h.above

theorem Fraction.append (hx : ∀ c ∈ x, c ∈ digits) (hr : Fraction r) (hne : r ≠ []) :
    Fraction (x ++ r) :=
  ⟨forall_mem_append.mpr ⟨hx, hr.1⟩, by rw [getLast?_append_of_ne_nil _ hne]; exact hr.2⟩

theorem fraction_singleton (hd : d ∈ digits) (h0 : d ≠ '0') : Fraction [d] :=
  ⟨by simpa using hd, by simpa using h0⟩

/-- Passing to the digits of `before` alone: a fraction above the rest of `before`, behind
    the first digit of `before`. -/
theorem isMidpoint_cons
    (hb : ∀ c ∈ before, c ∈ digits) (hd : digits[value (digitAt before 0)]? = some d)
    (hr : IsMidpoint before.tail none r) (ha : ∀ a, after = some a → d :: r < a) :
    IsMidpoint before after (d :: r) := by
  have hd' : d = digitAt before 0 := by
    rw [digits_value _ (digitAt_mem hb)] at hd
    exact (some.inj hd).symm
  refine ⟨?_, ha, hr.fraction.append (x := [d]) (by simpa [hd'] using digitAt_mem hb) hr.ne_nil⟩
  cases before with
  | nil => exact nil_lt_cons _ _
  | cons b bs =>
    refine cons_lt_cons_iff.mpr (.inr ⟨by simpa [digitAt] using hd'.symm, ?_⟩)
    simpa using hr.above

/-- `midpoint` with more fuel than the digits of both finds a fraction strictly between
    them. The induction is on the fuel; each recursive call drops at least one digit. -/
theorem midpoint_spec (fuel : Nat) : ∀ (before : List Char) (after : Option (List Char)),
    before.length + (after.getD []).length < fuel → (∀ c ∈ before, c ∈ digits) →
    (∀ a, after = some a → Fraction a ∧ before < a) →
    ∃ r, midpoint fuel before after = some r ∧ IsMidpoint before after r := by
  induction fuel with
  | zero => intro before after h; omega
  | succ fuel ih =>
    intro before after hfuel hb ha
    have hlow := value_lt _ (digitAt_mem hb)
    obtain ⟨d, -, hd⟩ := exists_digit hlow
    have htail : before.tail.length < fuel →
        ∃ r, midpoint fuel before.tail none = some r ∧ IsMidpoint before.tail none r := fun h =>
      ih before.tail none (by simpa using h) (fun c hc => hb c (mem_of_mem_tail hc)) (by simp)
    cases after with
    | none =>
      by_cases hgap : 1 < 62 - value (digitAt before 0)
      · obtain ⟨c, hcm, hc⟩ := exists_digit (i := (value (digitAt before 0) + 62 + 1) / 2)
          (by omega)
        refine ⟨[c], ?_, ?_, by simp, fraction_singleton hcm (digit_ne_zero hc (by omega))⟩
        · simp [midpoint, digits_length, hc, hgap, show ¬ 62 < value (digitAt before 0) by omega]
        · exact lt_cons_of_digitAt_lt (digits_lt (digits_value _ (digitAt_mem hb)) hc (by omega))
      · -- Only the digit `z` leaves no gap below 62, so `before` is not empty.
        have hne : before ≠ [] := by
          rintro rfl
          exact hgap (by decide)
        have hpos := length_pos_iff.mpr hne
        obtain ⟨r, hr, hmid⟩ := htail (by
          simp only [length_tail] at hfuel ⊢
          omega)
        refine ⟨d :: r, ?_, isMidpoint_cons hb hd hmid (by simp)⟩
        simp [midpoint, digits_length, hd, hgap, hr, show ¬ 62 < value (digitAt before 0) by omega]
    | some after =>
      obtain ⟨hfrac, hlt⟩ := ha after rfl
      have hne : after ≠ [] := by
        rintro rfl
        exact not_lt_nil _ hlt
      by_cases hs : 0 < sharedDigits before after
      · obtain ⟨h1, h2, h3⟩ := sharedDigits_spec after before hlt hfrac.2
        have hpos := length_pos_iff.mpr hne
        obtain ⟨r, hr, hmid⟩ := ih (before.drop (sharedDigits before after))
          (some (after.drop (sharedDigits before after)))
          (by simp only [length_drop, getD_some] at hfuel ⊢; omega)
          (fun c hc => hb c (mem_of_mem_drop hc))
          (by
            rintro a ⟨⟩
            exact ⟨⟨fun c hc => hfrac.1 c (mem_of_mem_drop hc), h2⟩, h1⟩)
        refine ⟨after.take (sharedDigits before after) ++ r, ?_, h3 r hmid.above, ?_,
          hmid.fraction.append (fun c hc => hfrac.1 c (mem_of_mem_take hc)) hmid.ne_nil⟩
        · simp [midpoint, hs, hr]
        · rintro a ⟨⟩
          have : after.take (sharedDigits before after) ++ r < _ :=
            append_left_lt (hmid.below _ rfl)
          rwa [take_append_drop] at this
      · obtain ⟨a, as, rfl⟩ := exists_cons_of_ne_nil hne
        have hs0 : sharedDigits before (a :: as) = 0 := by omega
        have ham : a ∈ digits := hfrac.1 a (by simp)
        have hda := digitAt_lt_of_sharedDigits hlt ham hs0
        have hval := value_lt_value (digitAt_mem hb) ham hda
        have hhigh := value_lt _ ham
        have hnlt : ¬ value a < value (digitAt before 0) := by omega
        by_cases hgap : 1 < value a - value (digitAt before 0)
        · obtain ⟨c, hcm, hc⟩ := exists_digit
            (i := (value (digitAt before 0) + value a + 1) / 2) (by omega)
          refine ⟨[c], ?_, ?_, ?_, fraction_singleton hcm (digit_ne_zero hc (by omega))⟩
          · simp [midpoint, hs0, hc, hgap, hnlt]
          · exact lt_cons_of_digitAt_lt (digits_lt (digits_value _ (digitAt_mem hb)) hc (by omega))
          · rintro _ ⟨⟩
            exact cons_lt_cons_iff.mpr (.inl (digits_lt hc (digits_value _ ham) (by omega)))
        · by_cases has : as = []
          · subst has
            obtain ⟨r, hr, hmid⟩ := htail (by
              simp only [length_tail, getD_some, length_singleton] at hfuel ⊢
              omega)
            refine ⟨d :: r, ?_, isMidpoint_cons hb hd hmid ?_⟩
            · simp [midpoint, hs0, hd, hgap, hr, hnlt]
            · rintro _ ⟨⟩
              exact cons_lt_cons_iff.mpr (.inl (digits_lt hd (digits_value _ ham) hval))
          · have hlen := length_pos_iff.mpr has
            refine ⟨[a], ?_, lt_cons_of_digitAt_lt hda, ?_, fraction_singleton ham ?_⟩
            · simp [midpoint, hs0, hgap, hnlt, hlen]
            · rintro _ ⟨⟩
              exact cons_lt_cons_iff.mpr (.inr ⟨rfl, nil_lt has⟩)
            · exact digit_ne_zero (digits_value _ ham) (by omega)

theorem mid_spec (before : List Char) (after : Option (List Char))
    (hb : ∀ c ∈ before, c ∈ digits) (ha : ∀ a, after = some a → Fraction a ∧ before < a) :
    ∃ r, mid before after = some r ∧ IsMidpoint before after r :=
  midpoint_spec _ before after (by omega) hb ha

/-! ## Integer parts -/

/-- A head with as many digits as it announces. -/
def IntPart (int : List Char) : Prop :=
  ∃ head ds, int = head :: ds ∧ integerLength head = some (ds.length + 1) ∧
    ∀ c ∈ ds, c ∈ digits

/-- `u` is smaller than `v` at a position that both have, whatever follows them. -/
def Below (u v : List Char) : Prop :=
  ∃ (p : List Char) (a b : Char) (x y : List Char), u = p ++ a :: x ∧ v = p ++ b :: y ∧ a < b

theorem Below.append_lt (h : Below u v) (x y : List Char) : u ++ x < v ++ y := by
  obtain ⟨p, a, b, x', y', rfl, rfl, hab⟩ := h
  rw [append_assoc, append_assoc]
  exact append_left_lt (cons_lt_cons_iff.mpr (.inl hab))

theorem Below.lt (h : Below u v) (x : List Char) : u ++ x < v := by
  simpa using h.append_lt x []

theorem below_of_head {b : Char} (h : a < b) : Below (a :: x) (b :: y) :=
  ⟨[], a, b, x, y, rfl, rfl, h⟩

/-- The characters that start an integer part: the letters. -/
def heads : List Char := digits.drop 10

theorem mem_heads (h : integerLength c = some n) : c ∈ heads := by
  have hrange : ∀ i : Fin 128, (97 ≤ i.val ∧ i.val ≤ 122 ∨ 65 ≤ i.val ∧ i.val ≤ 90) →
      ofNat i.val ∈ heads := by decide
  unfold integerLength at h
  have hc : 97 ≤ c.toNat ∧ c.toNat ≤ 122 ∨ 65 ≤ c.toNat ∧ c.toNat ≤ 90 := by
    split at h
    · rename_i h'; exact .inl h'
    · split at h
      · rename_i h'; exact .inr h'
      · cases h
  have := hrange ⟨c.toNat, by omega⟩ hc
  rwa [ofNat_toNat] at this

theorem integer_eq_some {key : List Char} : integer key = some int ↔
    IntPart int ∧ key ≠ smallest ∧ ∃ frac, key = int ++ frac ∧ Fraction frac := by
  constructor
  · intro h
    simp only [integer, bind_eq_bind, bind_eq_some_iff, ite_none_left_eq_some,
      ite_none_right_eq_some, some.injEq] at h
    obtain ⟨head, hhead, n, hn, hlen, ⟨hs, hd, hl⟩, rfl⟩ := h
    obtain ⟨rest, rfl⟩ := head?_eq_some_iff.mp hhead
    have hpos : ∀ c ∈ heads, 0 < (integerLength c).getD 1 := all_iff_forall_prop.mp (by decide)
    obtain ⟨m, rfl⟩ : ∃ m, n = m + 1 :=
      Nat.exists_eq_add_one.mpr (by simpa [hn] using hpos head (mem_heads hn))
    have hd := all_iff_forall_prop.mp hd
    refine ⟨⟨head, rest.take m, by simp, ?_, fun c hc => hd c (mem_of_mem_take hc)⟩, hs,
      (head :: rest).drop (m + 1), by simp, fun c hc => hd c (mem_of_mem_drop (by simpa using hc)), hl⟩
    rw [hn, length_take, Nat.min_eq_left (by simpa using hlen)]
  · rintro ⟨⟨head, ds, rfl, hn, hds⟩, hs, frac, rfl, hf⟩
    have hdrop : (head :: ds ++ frac).drop (ds.length + 1) = frac := by simp
    have hdig : (head :: ds ++ frac).tail.all (· ∈ digits) = true := by
      simpa using ⟨hds, hf.1⟩
    rw [integer, show (head :: ds ++ frac).head? = some head from rfl]
    simp only [bind_eq_bind, bind_some, hn]
    rw [if_neg (by simp), if_pos ⟨hs, hdig, by rw [hdrop]; exact hf.2⟩]
    simp

/-- Two different integer parts differ at a position that both have, since equal heads have
    equally many digits. -/
theorem IntPart.below_of_lt (hu : IntPart u) (hv : IntPart v) (hne : u ≠ v)
    (h : u ++ x < v ++ y) : Below u v := by
  obtain ⟨a, ds, rfl, ha, -⟩ := hu
  obtain ⟨b, es, rfl, hb, -⟩ := hv
  have key : ∀ ds es : List Char, ds.length = es.length → ds ≠ es → ds ++ x < es ++ y →
      Below ds es := by
    intro ds
    induction ds with
    | nil => intro es hl hne; exact absurd (eq_nil_of_length_eq_zero hl.symm).symm hne
    | cons d ds ih =>
      intro es hl hne hlt
      cases es with
      | nil => simp at hl
      | cons e es =>
        rcases cons_lt_cons_iff.mp hlt with h | ⟨rfl, h⟩
        · exact below_of_head h
        · obtain ⟨p, a, b, x', y', e1, e2, hab⟩ :=
            ih es (by simpa using hl) (fun h => hne (by rw [h])) h
          exact ⟨d :: p, a, b, x', y', by rw [e1]; rfl, by rw [e2]; rfl, hab⟩
  rcases cons_lt_cons_iff.mp h with h' | ⟨rfl, h'⟩
  · exact below_of_head h'
  · rw [ha] at hb
    exact key (a :: ds) (a :: es) (by simpa using some.inj hb) hne h

/-- The carry loop: after some digits equal to `wrap`, either another digit moves or there is
    none. -/
theorem carry_spec (wrap wrapped : Char) (next : Nat → Option Nat)
    (hnext : ∀ d ∈ digits, d ≠ wrap → ∃ v d', next (value d) = some v ∧ digits[v]? = some d')
    (ds : List Char) (hds : ∀ c ∈ ds, c ∈ digits) : ∃ k,
    (∃ d v d' rest, ds = rest ++ d :: replicate k wrap ∧ next (value d) = some v ∧
      digits[v]? = some d' ∧ carry wrap wrapped next ds.reverse =
        some (replicate k wrapped ++ d' :: rest.reverse, true)) ∨
    (ds = replicate k wrap ∧
      carry wrap wrapped next ds.reverse = some (replicate k wrapped, false)) := by
  induction ds using reverseRecOn with
  | nil => exact ⟨0, .inr ⟨rfl, rfl⟩⟩
  | append_singleton ds d ih =>
    rw [reverse_concat]
    by_cases hd : d = wrap
    · subst hd
      obtain ⟨k, ⟨d', v, d'', rest, e, hv, hd'', hc⟩ | ⟨e, hc⟩⟩ := ih (forall_mem_append.mp hds).1
      · refine ⟨k + 1, .inl ⟨d', v, d'', rest, ?_, hv, hd'', ?_⟩⟩
        · rw [e, replicate_succ']; simp
        · simp [carry, hc, replicate_succ]
      · refine ⟨k + 1, .inr ⟨?_, ?_⟩⟩
        · rw [e, replicate_succ']
        · simp [carry, hc, replicate_succ]
    · obtain ⟨v, d', hv, hd'⟩ := hnext d (hds d (by simp)) hd
      exact ⟨0, .inl ⟨d, v, d', ds, rfl, hv, hd', by simp [carry, hd, hv, hd']⟩⟩

/-- A head and its successor: the successor is larger and announces one digit more from `b`
    on and one digit less before `a`. -/
theorem head_up : ∀ h ∈ heads, h ≠ 'Z' → h ≠ 'z' →
    h < ofNat (h.toNat + 1) ∧ ofNat (h.toNat + 1) ≠ 'A' ∧
    ('a' < ofNat (h.toNat + 1) →
      integerLength (ofNat (h.toNat + 1)) = (integerLength h).map (· + 1)) ∧
    (¬ 'a' < ofNat (h.toNat + 1) → 3 ≤ (integerLength h).getD 0 ∧
      integerLength (ofNat (h.toNat + 1)) = (integerLength h).map (· - 1)) :=
  all_iff_forall_prop.mp (by decide)

theorem head_down : ∀ h ∈ heads, h ≠ 'a' → h ≠ 'A' → ofNat (h.toNat - 1) < h ∧
    (ofNat (h.toNat - 1) < 'Z' →
      integerLength (ofNat (h.toNat - 1)) = (integerLength h).map (· + 1)) ∧
    (¬ ofNat (h.toNat - 1) < 'Z' → 3 ≤ (integerLength h).getD 0 ∧
      integerLength (ofNat (h.toNat - 1)) = (integerLength h).map (· - 1)) :=
  all_iff_forall_prop.mp (by decide)

theorem ne_smallest_of_mem (hc : c ∈ ds) (h0 : c ≠ '0') : head :: ds ≠ smallest := by
  intro h
  have hds : ds = replicate 26 '0' := (cons.inj h).2
  rw [hds] at hc
  exact h0 (eq_of_mem_replicate hc)

/-- The digits with the one behind `rest` moved from `d` to `d'` and those after it wrapped
    still make an integer part. -/
theorem intPart_moved {d' wrapped : Char} {v : Nat}
    (hw : wrapped ∈ digits) (hd' : digits[v]? = some d')
    (hn : integerLength head = some ((rest ++ d :: replicate k wrap).length + 1))
    (hds : ∀ c ∈ rest ++ d :: replicate k wrap, c ∈ digits) :
    IntPart (head :: (rest ++ d' :: replicate k wrapped)) := by
  refine ⟨head, _, rfl, by simpa using hn, ?_⟩
  rw [forall_mem_append, forall_mem_cons] at hds ⊢
  exact ⟨hds.1, mem_of_getElem? hd', fun c hc => by rwa [eq_of_mem_replicate hc]⟩

theorem intPart_replicate (wrap : Char) (hn : integerLength head = some (n + 1))
    (hw : wrap ∈ digits) : IntPart (head :: replicate n wrap) := by
  refine ⟨head, _, rfl, by rw [hn, length_replicate], fun c hc => ?_⟩
  rwa [eq_of_mem_replicate hc]

theorem increment_spec (h : IntPart int) : increment int = some none ∨
    ∃ next, increment int = some (some next) ∧ IntPart next ∧ next ≠ smallest ∧ Below int next := by
  obtain ⟨head, ds, rfl, hn, hds⟩ := h
  obtain ⟨k, ⟨d, v, d', rest, e, hv, hd', hc⟩ | ⟨e, hc⟩⟩ := carry_spec 'z' '0'
    (fun v => some (v + 1))
    (by
      intro d hd hz
      have : ∀ d ∈ digits, d ≠ 'z' → value d + 1 < 62 := all_iff_forall_prop.mp (by decide)
      obtain ⟨c, -, hc⟩ := exists_digit (this d hd hz)
      exact ⟨_, c, rfl, hc⟩)
    ds hds
  · -- Some digit is not `z`: it goes up by one and the digits after it become `0`.
    right
    cases hv
    refine ⟨head :: (rest ++ d' :: replicate k '0'), by simp [increment, hc], ?_⟩
    subst e
    have hd : d ∈ digits := hds d (mem_append_right _ mem_cons_self)
    exact ⟨intPart_moved (by decide) hd' hn hds,
      ne_smallest_of_mem (mem_append_right _ mem_cons_self) (digit_ne_zero hd' (Nat.succ_pos _)),
      head :: rest, d, d', _, _, rfl, rfl,
      digits_lt (digits_value _ hd) hd' (Nat.lt_succ_self _)⟩
  · -- Every digit is `z`: the head moves.
    rw [e, length_replicate] at hn
    by_cases hZ : head = 'Z'
    · subst hZ
      exact .inr ⟨['a', '0'], by simp [increment, hc], ⟨'a', ['0'], rfl, by decide,
        forall_mem_singleton.mpr (by decide)⟩, by decide, below_of_head (by decide)⟩
    · by_cases hz : head = 'z'
      · subst hz
        exact .inl (by simp [increment, hc])
      · obtain ⟨hlt, hA, hmore, hless⟩ := head_up head (mem_heads hn) hZ hz
        right
        have hne : ∀ ds, ofNat (head.toNat + 1) :: ds ≠ smallest := fun ds hs =>
          hA (cons.inj hs).1
        rw [hn] at hmore hless
        by_cases ha : 'a' < ofNat (head.toNat + 1)
        · refine ⟨_, ?_, intPart_replicate '0' (hmore ha) (by decide), hne _, below_of_head hlt⟩
          simp [increment, hc, hZ, hz, ha, replicate_succ']
        · obtain ⟨h3, hl⟩ := hless ha
          obtain ⟨k, rfl⟩ : ∃ j, k = j + 1 := Nat.exists_eq_add_one.mpr (by simp at h3; omega)
          refine ⟨_, ?_, intPart_replicate '0' hl (by decide), hne _, below_of_head hlt⟩
          simp [increment, hc, hZ, hz, ha]

theorem decrement_spec (h : IntPart int) (hs : int ≠ smallest) :
    ∃ prev, decrement int = some (some prev) ∧ IntPart prev ∧ Below prev int := by
  obtain ⟨head, ds, rfl, hn, hds⟩ := h
  obtain ⟨k, ⟨d, v, d', rest, e, hv, hd', hc⟩ | ⟨e, hc⟩⟩ := carry_spec '0' 'z'
    (fun v => if v = 0 then none else some (v - 1))
    (by
      intro d hd h0
      have hpos : ∀ d ∈ digits, d ≠ '0' → value d ≠ 0 := all_iff_forall_prop.mp (by decide)
      obtain ⟨c, -, hc⟩ := exists_digit (i := value d - 1) (by have := value_lt _ hd; omega)
      exact ⟨_, c, if_neg (hpos d hd h0), hc⟩)
    ds hds
  · refine ⟨head :: (rest ++ d' :: replicate k 'z'), by simp [decrement, hc], ?_⟩
    subst e
    have hd : d ∈ digits := hds d (mem_append_right _ mem_cons_self)
    have hval : v < value d := by
      split at hv
      · cases hv
      · cases hv; omega
    exact ⟨intPart_moved (by decide) hd' hn hds, head :: rest, d', d, _, _, rfl, rfl,
      digits_lt hd' (digits_value _ hd) hval⟩
  · rw [e, length_replicate] at hn
    by_cases ha : head = 'a'
    · subst ha
      exact ⟨['Z', 'z'], by simp [decrement, hc], ⟨'Z', ['z'], rfl, by decide,
        forall_mem_singleton.mpr (by decide)⟩, below_of_head (by decide)⟩
    · by_cases hA : head = 'A'
      · -- All digits are `0` behind the smallest head: the smallest integer.
        subst hA
        have h27 : integerLength 'A' = some 27 := by decide
        obtain rfl : k = 26 := by simpa [h27] using hn.symm
        exact absurd (congrArg _ e) hs
      · obtain ⟨hlt, hmore, hless⟩ := head_down head (mem_heads hn) ha hA
        rw [hn] at hmore hless
        by_cases hZ : ofNat (head.toNat - 1) < 'Z'
        · refine ⟨_, ?_, intPart_replicate 'z' (hmore hZ) (by decide), below_of_head hlt⟩
          simp [decrement, hc, ha, hA, hZ, replicate_succ']
        · obtain ⟨h3, hl⟩ := hless hZ
          obtain ⟨k, rfl⟩ : ∃ j, k = j + 1 := Nat.exists_eq_add_one.mpr (by simp at h3; omega)
          refine ⟨_, ?_, intPart_replicate 'z' hl (by decide), below_of_head hlt⟩
          simp [decrement, hc, ha, hA, hZ]

/-! ## Keys -/

/-- A key that `integer` accepts. -/
def Valid (key : List Char) : Prop := (integer key).isSome
  deriving Decidable

theorem valid_append (hi : IntPart int) (hf : Fraction frac)
    (hs : int ++ frac ≠ smallest) : Valid (int ++ frac) :=
  isSome_iff_exists.mpr ⟨int, integer_eq_some.mpr ⟨hi, hs, frac, rfl, hf⟩⟩

theorem fraction_nil : Fraction [] := ⟨by simp, by simp⟩

theorem valid_intPart (hi : IntPart int) (hs : int ≠ smallest) : Valid int := by
  have := valid_append hi fraction_nil (by rwa [append_nil])
  rwa [append_nil] at this

/-- An integer part with a fraction is not the bare smallest integer: that one has 27
    characters, all of which are its integer part. -/
theorem append_ne_smallest (hi : IntPart int) (hf : frac ≠ []) : int ++ frac ≠ smallest := by
  obtain ⟨head, ds, rfl, hn, -⟩ := hi
  intro h
  have hhead : head = 'A' := (cons.inj h).1
  have h27 : integerLength 'A' = some 27 := by decide
  rw [hhead, h27] at hn
  have hlen := congrArg length h
  have h27' : smallest.length = 27 := by decide
  rw [length_append, length_cons] at hlen
  have := length_pos_iff.mpr hf
  have := some.inj hn
  omega

theorem IsMidpoint.valid (h : IsMidpoint before after r) (hi : IntPart int) : Valid (int ++ r) :=
  valid_append hi h.fraction (append_ne_smallest hi h.ne_nil)

/-- What `keyBetween` promises of its result. -/
structure IsBetween (before after : Option (List Char)) (key : List Char) : Prop where
  valid : Valid key
  above : ∀ b, before = some b → b < key
  below : ∀ a, after = some a → key < a

theorem isBetween_none_some (hi : IntPart int) (hs : int ++ frac ≠ smallest) (hf : Fraction frac)
    (h : integer (int ++ frac) = some int) : ∃ key,
      keyBetween none (some (int ++ frac)) = some key ∧ IsBetween none (some (int ++ frac)) key := by
  by_cases hsm : int = smallest
  · have hne : frac ≠ [] := by
      rintro rfl
      exact hs (by rw [hsm, append_nil])
    obtain ⟨r, hr, hmid⟩ := mid_spec [] (some frac) (by simp)
      (by rintro a ⟨⟩; exact ⟨hf, nil_lt hne⟩)
    refine ⟨int ++ r, ?_, hmid.valid hi, by simp, ?_⟩
    · simp [keyBetween, h, ← hsm, hr]
    · rintro a ⟨⟩
      exact append_left_lt (hmid.below frac rfl)
  · by_cases hne : frac = []
    · subst hne
      rw [append_nil] at h ⊢
      obtain ⟨prev, hp, hpi, hbelow⟩ := decrement_spec hi hsm
      by_cases hps : prev = smallest
      · obtain ⟨r, hr, hmid⟩ := mid_spec [] none (by simp) (by simp)
        refine ⟨smallest ++ r, ?_, ?_, by simp, ?_⟩
        · simp [keyBetween, h, hsm, hp, hps, hr]
        · rw [← hps]
          exact hmid.valid hpi
        · rintro a ⟨⟩
          exact hps ▸ hbelow.lt r
      · refine ⟨prev, ?_, valid_intPart hpi hps, by simp, ?_⟩
        · simp [keyBetween, h, hsm, hp, hps]
        · rintro a ⟨⟩
          simpa using hbelow.lt []
    · refine ⟨int, ?_, valid_intPart hi hsm, by simp, ?_⟩
      · simp [keyBetween, h, hsm, length_pos_iff.mpr hne]
      · rintro a ⟨⟩
        simpa using (append_left_lt (nil_lt hne) : int ++ [] < _)

/-- A fraction above the one of `before`, behind the same integer part. -/
theorem exists_above (hi : IntPart int) (hf : Fraction frac) : ∃ r, mid frac none = some r ∧
    Valid (int ++ r) ∧ int ++ frac < int ++ r := by
  obtain ⟨r, hr, hmid⟩ := mid_spec frac none hf.1 (by simp)
  exact ⟨r, hr, hmid.valid hi, append_left_lt hmid.above⟩

theorem keyBetween_spec {before : Option (List Char)} (hb : ∀ b, before = some b → Valid b)
    (ha : ∀ a, after = some a → Valid a ∧ ∀ b, before = some b → b < a) :
    ∃ key, keyBetween before after = some key ∧ IsBetween before after key := by
  cases before with
  | none =>
    cases after with
    | none => exact ⟨['a', '0'], rfl, by decide, by simp, by simp⟩
    | some after =>
      obtain ⟨int, h⟩ := isSome_iff_exists.mp (ha after rfl).1
      obtain ⟨hi, hs, frac, rfl, hf⟩ := integer_eq_some.mp h
      exact isBetween_none_some hi hs hf h
  | some before =>
    obtain ⟨low, hl⟩ := isSome_iff_exists.mp (hb before rfl)
    obtain ⟨hli, -, fb, rfl, hfb⟩ := integer_eq_some.mp hl
    obtain ⟨r, hr, hvr, hbr⟩ := exists_above hli hfb
    cases after with
    | none =>
      rcases increment_spec hli with hn | ⟨next, hn, hni, hns, hbelow⟩
      · refine ⟨low ++ r, ?_, hvr, by rintro b ⟨⟩; exact hbr, by simp⟩
        simp [keyBetween, hl, hn, hr]
      · refine ⟨next, by simp [keyBetween, hl, hn], valid_intPart hni hns, ?_, by simp⟩
        rintro b ⟨⟩
        exact hbelow.lt fb
    | some after =>
      obtain ⟨hva, hlt⟩ := ha after rfl
      have hlt := hlt _ rfl
      obtain ⟨high, hh⟩ := isSome_iff_exists.mp hva
      obtain ⟨hhi, -, fa, rfl, hfa⟩ := integer_eq_some.mp hh
      by_cases heq : low = high
      · subst heq
        have hff : fb < fa := by
          rcases lt_trichotomy fb fa with h | h | h
          · exact h
          · exact absurd hlt (by rw [h]; exact lt_irrefl _)
          · exact absurd hlt (not_lt_of_gt (append_left_lt h))
        obtain ⟨m, hm, hmid⟩ := mid_spec fb (some fa) hfb.1 (by rintro a ⟨⟩; exact ⟨hfa, hff⟩)
        refine ⟨low ++ m, ?_, hmid.valid hli, ?_, ?_⟩
        · simp [keyBetween, hl, hh, hm]
        · rintro b ⟨⟩
          exact append_left_lt hmid.above
        · rintro a ⟨⟩
          exact append_left_lt (hmid.below fa rfl)
      · -- The integer parts differ where both have a digit, so any fraction fits.
        have hra := (hli.below_of_lt hhi heq hlt).append_lt r fa
        rcases increment_spec hli with hn | ⟨next, hn, hni, hns, hnb⟩
        · refine ⟨low ++ r, ?_, hvr, by rintro b ⟨⟩; exact hbr, by rintro a ⟨⟩; exact hra⟩
          simp [keyBetween, hl, hh, heq, hn, hr]
        · by_cases hna : next < high ++ fa
          · refine ⟨next, by simp [keyBetween, hl, hh, heq, hn, hna],
              valid_intPart hni hns, ?_, by rintro a ⟨⟩; exact hna⟩
            rintro b ⟨⟩
            exact hnb.lt fb
          · refine ⟨low ++ r, ?_, hvr, by rintro b ⟨⟩; exact hbr, by rintro a ⟨⟩; exact hra⟩
            simp [keyBetween, hl, hh, heq, hn, hna, hr]

/-- The empty text is no key. -/
theorem Valid.ne_empty {key : String} (h : Valid key.toList) : key ≠ "" := by
  rintro rfl
  simp [Valid, integer] at h

/-- A neighbour as `between` counts it: a valid key, or nothing. -/
def neighbour (key : Option String) : Option (List Char) :=
  (key.map String.toList).filter fun key => (integer key).isSome

theorem neighbour_eq_some {key : Option String} {k : List Char} :
    neighbour key = some k ↔ ∃ s, key = some s ∧ s.toList = k ∧ Valid k := by
  cases key with
  | none => simp [neighbour]
  | some s =>
    simp only [neighbour, map_some, filter_eq_some_iff, some.injEq]
    constructor
    · rintro ⟨rfl, h⟩
      exact ⟨s, rfl, rfl, h⟩
    · rintro ⟨s, rfl, rfl, h⟩
      exact ⟨rfl, h⟩

/-- A valid key after `before` and before `after`, as far as these are valid keys in this order. -/
abbrev Between (before after : Option String) (key : String) : Prop :=
  Valid key.toList ∧ (∀ b, before = some b → Valid b.toList → b < key) ∧
    ∀ a, after = some a → Valid a.toList → (∀ b, before = some b → Valid b.toList → b < a) → key < a

/-- `between` never panics. -/
theorem betweenChecked_spec (before after : Option String) :
    ∃ key, betweenChecked before after = some key ∧ Between before after key := by
  have hb : ∀ b, neighbour before = some b → Valid b := by
    intro b h
    obtain ⟨s, -, -, hv⟩ := neighbour_eq_some.mp h
    exact hv
  have ha : ∀ a, (neighbour after).filter
      (fun after => (neighbour before).all fun before => before < after) = some a →
      Valid a ∧ ∀ b, neighbour before = some b → b < a := by
    intro a h
    obtain ⟨h1, h2⟩ := filter_eq_some_iff.mp h
    obtain ⟨s, -, -, hv⟩ := neighbour_eq_some.mp h1
    refine ⟨hv, fun b hb => ?_⟩
    rw [hb] at h2
    simpa using h2
  obtain ⟨key, hk, hkey⟩ := keyBetween_spec hb ha
  refine ⟨String.ofList key, ?_, by rw [String.toList_ofList]; exact hkey.valid, ?_, ?_⟩
  · exact congrArg (Option.map String.ofList) hk
  · intro b hb hv
    rw [String.lt_iff_toList_lt, String.toList_ofList]
    exact hkey.above _ (neighbour_eq_some.mpr ⟨b, hb, rfl, hv⟩)
  · intro a ha hv hba
    rw [String.lt_iff_toList_lt, String.toList_ofList]
    refine hkey.below _ (filter_eq_some_iff.mpr ⟨neighbour_eq_some.mpr ⟨a, ha, rfl, hv⟩, ?_⟩)
    cases hn : neighbour before with
    | none => rfl
    | some b =>
      obtain ⟨s, hs, rfl, hvs⟩ := neighbour_eq_some.mp hn
      exact decide_eq_true (String.lt_iff_toList_lt.mp (hba s hs hvs))

/-- For any two texts the source returns, and its key is an integer part and a fraction, above
    `before` if that is a valid key, and below `after` if that is one and `before` is not at or
    above it. Valid keys are ASCII, so their order is that of their bytes. -/
theorem betweenChecked_fits (before after : Option String) : ∃ key int frac,
    betweenChecked before after = some key ∧ integer key.toList = some int ∧
      key.toList = int ++ frac ∧ Fraction frac ∧ (∀ b, before = some b → Valid b.toList → b < key) ∧
      ∀ a, after = some a → Valid a.toList → (∀ b, before = some b → Valid b.toList → b < a) →
        key < a := by
  obtain ⟨key, hkey, hvalid, habove, hbelow⟩ := betweenChecked_spec before after
  obtain ⟨int, hint⟩ := isSome_iff_exists.mp hvalid
  obtain ⟨-, -, frac, happend, hfraction⟩ := integer_eq_some.mp hint
  exact ⟨key, int, frac, hkey, hint, happend, hfraction, habove, hbelow⟩

/-- A key after `before` and before `after`; `none` is the start or the end. -/
def between (before after : Option String) : String := (betweenChecked before after).get
    (isSome_iff_exists.mpr ((betweenChecked_spec before after).imp fun _ h => h.1))

theorem between_spec (before after : Option String) :
    Between before after (between before after) := by
  obtain ⟨key, hk, h⟩ := betweenChecked_spec before after
  rwa [between, get_of_eq_some _ hk]

/-! ## Lists ordered by their keys -/

section
variable {α β : Type} {key : α → String} {l : List α}

/-- Valid keys in strictly increasing order. -/
structure Spaced (key : α → String) (l : List α) : Prop where
  sorted : Ordered key l
  valid : ∀ x ∈ l, Valid (key x).toList

theorem Spaced.nil : Spaced key [] := ⟨List.Pairwise.nil, by simp⟩

theorem Spaced.map (h : Spaced key l) {f : α → β} {key' : β → String}
    (hf : ∀ x ∈ l, key' (f x) = key x) : Spaced key' (l.map f) := by
  refine ⟨h.sorted.map hf, fun y hy => ?_⟩
  obtain ⟨x, hx, rfl⟩ := mem_map.mp hy
  rw [hf x hx]
  exact h.valid x hx

theorem Spaced.filter (h : Spaced key l) (p : α → Bool) : Spaced key (l.filter p) :=
  ⟨h.sorted.filter p, fun x hx => h.valid x (mem_of_mem_filter hx)⟩

/-- The key made for a place lies strictly between the keys around it. -/
theorem Spaced.between_gap (h : Spaced key l) (hi : i ≤ l.length) {sort : String}
    (hs : sort = between (if i = 0 then none else l[i - 1]?.map key) (l[i]?.map key)) :
    (∀ x ∈ l.take i, key x < sort) ∧ ∀ x ∈ l.drop i, sort < key x := by
  obtain ⟨-, hbelow, habove⟩ :=
    between_spec (if i = 0 then none else l[i - 1]?.map key) (l[i]?.map key)
  rw [← hs] at hbelow habove
  have hvalid : ∀ (j : Nat) (x : α), l[j]? = some x → Valid (key x).toList :=
    fun j x hx => h.valid x (mem_of_getElem? hx)
  refine h.sorted.gap (fun x hi0 hx => ?_) (fun x hx => ?_) hi
  · exact hbelow (key x) (by rw [if_neg hi0, hx]; rfl) (hvalid _ x hx)
  · refine habove (key x) (by rw [hx]; rfl) (hvalid _ x hx) fun b hb _ => ?_
    split at hb
    · cases hb
    · obtain ⟨y, hy, rfl⟩ := map_eq_some_iff.mp hb
      obtain ⟨hlt, rfl⟩ := List.getElem?_eq_some_iff.mp hx
      obtain ⟨hlt', rfl⟩ := List.getElem?_eq_some_iff.mp hy
      exact pairwise_iff_getElem.mp h.sorted (i - 1) i hlt' hlt (by omega)

/-- An element with a valid key goes into the gap for its key. -/
theorem Spaced.insert (h : Spaced key l) {a : α} (hb : ∀ x ∈ l.take i, key x < key a)
    (ha : ∀ x ∈ l.drop i, key a < key x) (hv : Valid (key a).toList) :
    Spaced key (l.take i ++ a :: l.drop i) := by
  refine ⟨h.sorted.insert_gap hb ha, forall_mem_append.mpr ⟨?_, forall_mem_cons.mpr ⟨hv, ?_⟩⟩⟩
  · exact fun x hx => h.valid x (mem_of_mem_take hx)
  · exact fun x hx => h.valid x (mem_of_mem_drop hx)

end

end Watershed.Liquid.SortKey
