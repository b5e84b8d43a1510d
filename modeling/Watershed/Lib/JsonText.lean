/-
  The compact text of a JSON value and a reader for it.

  The compact text has no blanks; a string is quoted with the short escapes, and with
  `\u00xx` for the other control characters. `read` takes the compact text of a value off the
  front of its input and gives the value back (`read_compact`), so the compact text determines
  the value.
-/
import Watershed.Lib.Json

open List Option

namespace Watershed

namespace Json

/-! ## Strings -/

/-- One hexadecimal digit, in lower case. -/
def hexDigit (n : Nat) : Char :=
  if n < 10 then Char.ofNat (48 + n) else Char.ofNat (87 + n)

def hexValue (c : Char) : Option Nat :=
  if '0' ≤ c ∧ c ≤ '9' then some (c.toNat - 48)
  else if 'a' ≤ c ∧ c ≤ 'f' then some (c.toNat - 87)
  else none

/-- The short escapes: the character that stands for a character after a backslash. -/
def shortEscapes : List (Char × Char) :=
  [('"', '"'), ('\\', '\\'), (Char.ofNat 8, 'b'), (Char.ofNat 9, 't'), (Char.ofNat 10, 'n'),
    (Char.ofNat 12, 'f'), (Char.ofNat 13, 'r')]

/-- A character as it stands in a quoted string. -/
def escape (c : Char) : List Char :=
  match shortEscapes.find? fun x => x.1 = c with
  | some x => ['\\', x.2]
  | none =>
    if c.toNat < 32 then ['\\', 'u', '0', '0', hexDigit (c.toNat / 16), hexDigit (c.toNat % 16)]
    else [c]

/-- The text of a string. -/
def quote (s : List Char) : List Char := '"' :: s.flatMap escape ++ ['"']

/-- The first character of a quoted string and what follows it. -/
def unescape (cs : List Char) : Option (Char × List Char) :=
  match cs with
  | [] => none
  | c :: rest =>
    if c = '\\' then
      match rest with
      | [] => none
      | e :: rest =>
        if e = 'u' then
          match rest with
          | '0' :: '0' :: a :: b :: rest =>
            (hexValue a).bind fun high => (hexValue b).map fun low =>
              (Char.ofNat (16 * high + low), rest)
          | _ => none
        else (shortEscapes.find? fun x => x.2 = e).map fun x => (x.1, rest)
    else if c.toNat < 32 then none
    else some (c, rest)

/-- A quoted string after its opening quote, and what follows its closing quote. -/
def unquote : Nat → List Char → Option (List Char × List Char)
  | 0, _ => none
  | fuel + 1, cs =>
    if cs.head? = some '"' then some ([], cs.tail)
    else
      (unescape cs).bind fun (c, rest) =>
        (unquote fuel rest).map fun (s, rest) => (c :: s, rest)

theorem hexValue_hexDigit : ∀ n < 16, hexValue (hexDigit n) = some n := by decide

/-- An escaped character is read back. -/
theorem unescape_escape (c : Char) (rest : List Char) :
    unescape (escape c ++ rest) = some (c, rest) := by
  unfold escape
  cases hx : shortEscapes.find? fun x => x.1 = c with
  | some x =>
    have hc : x.1 = c := by simpa using List.find?_some hx
    have hmem : ∀ x ∈ shortEscapes, ∀ rest, unescape (['\\', x.2] ++ rest) = some (x.1, rest) := by
      simp [shortEscapes, unescape]
    rw [← hc]
    exact hmem x (List.mem_of_find?_eq_some hx) rest
  | none =>
    have hne : c ≠ '\\' := by
      intro hc
      have := List.find?_eq_none.mp hx ('\\', '\\') (by simp [shortEscapes])
      simp [hc] at this
    dsimp only
    split
    · have hback : 16 * (c.toNat / 16) + c.toNat % 16 = c.toNat := Nat.div_add_mod _ _
      simp only [List.cons_append, List.nil_append, unescape, if_true,
        hexValue_hexDigit _ (show c.toNat / 16 < 16 by omega),
        hexValue_hexDigit _ (Nat.mod_lt c.toNat (by omega)), Option.bind_some, Option.map_some,
        hback, Char.ofNat_toNat]
    · rename_i hge
      simp only [List.cons_append, List.nil_append, unescape, if_neg hne, if_neg hge]

theorem head?_escape (c : Char) : ∃ d rest, escape c = d :: rest ∧ d ≠ '"' := by
  unfold escape
  cases hx : shortEscapes.find? fun x => x.1 = c with
  | some x => exact ⟨_, _, rfl, by decide⟩
  | none =>
    dsimp only
    split
    · exact ⟨_, _, rfl, by decide⟩
    · refine ⟨c, [], rfl, ?_⟩
      intro hc
      have := List.find?_eq_none.mp hx ('"', '"') (by simp [shortEscapes])
      simp [hc] at this

theorem exists_fuel {m fuel : Nat} (h : m < fuel) : ∃ n, fuel = n + 1 :=
  Nat.exists_eq_add_one.mpr (Nat.zero_lt_of_lt h)

/-- A quoted string is read back, with enough fuel for its characters. -/
theorem unquote_quote (s rest : List Char) {fuel : Nat} (h : s.length < fuel) :
    unquote fuel (s.flatMap escape ++ '"' :: rest) = some (s, rest) := by
  induction s generalizing fuel with
  | nil =>
    obtain ⟨n, rfl⟩ := exists_fuel h
    rfl
  | cons c s ih =>
    obtain ⟨n, rfl⟩ := exists_fuel h
    obtain ⟨d, tail, hd, hne⟩ := head?_escape c
    have hlen : s.length < n := by simpa using h
    rw [List.flatMap_cons, List.append_assoc, unquote, unescape_escape, hd,
      if_neg (by simpa using hne)]
    simp [ih hlen]

theorem escape_control {c d : Char} (h : d ∈ escape c) : 32 ≤ d.toNat := by
  unfold escape at h
  cases hx : shortEscapes.find? fun x => x.1 = c with
  | some x =>
    have hshort : (shortEscapes.all fun x => 32 ≤ x.2.toNat) = true := by decide
    rw [hx] at h
    simp only [List.mem_cons, List.not_mem_nil, or_false] at h
    rcases h with rfl | rfl
    · decide
    · exact of_decide_eq_true (List.all_eq_true.mp hshort x (List.mem_of_find?_eq_some hx))
  | none =>
    rw [hx] at h
    dsimp only at h
    split at h
    · have hhex : ∀ n < 16, 32 ≤ (hexDigit n).toNat := by decide
      simp only [List.mem_cons, List.not_mem_nil, or_false] at h
      rcases h with rfl | rfl | rfl | rfl | rfl | rfl
      · decide
      · decide
      · decide
      · decide
      · exact hhex _ (by omega)
      · exact hhex _ (by omega)
    · rw [List.mem_singleton.mp h]
      omega

/-- No control character stands in a quoted string. -/
theorem quote_control {s : List Char} {c : Char} (h : c ∈ quote s) : 32 ≤ c.toNat := by
  unfold quote at h
  simp only [List.cons_append, List.mem_cons, List.mem_append, List.mem_flatMap,
    List.not_mem_nil, or_false] at h
  rcases h with rfl | ⟨d, -, hd⟩ | rfl
  · decide
  · exact escape_control hd
  · decide

/-! ## Values -/

variable {N : Type} {cs : List Char} {fields : List (String × Json N)} {vs : List (Json N)}

mutual

/-- The compact text of a value. -/
def compact (num : N → List Char) : Json N → List Char
  | .null => ['n', 'u', 'l', 'l']
  | .bool true => ['t', 'r', 'u', 'e']
  | .bool false => ['f', 'a', 'l', 's', 'e']
  | .number n => num n
  | .string s => quote s.toList
  | .array [] => ['[', ']']
  | .array (v :: vs) => '[' :: (v.compact num ++ (compactItems num vs ++ [']']))
  | .object [] => ['\x7b', '\x7d']
  | .object ((k, v) :: fields) =>
    '\x7b' :: (quote k.toList ++ ':' :: (v.compact num ++ (compactFields num fields ++ ['\x7d'])))

/-- The items of an array after its first one. -/
def compactItems (num : N → List Char) : List (Json N) → List Char
  | [] => []
  | v :: vs => ',' :: (v.compact num ++ compactItems num vs)

/-- The members of an object after its first one. -/
def compactFields (num : N → List Char) : List (String × Json N) → List Char
  | [] => []
  | (k, v) :: fields =>
    ',' :: (quote k.toList ++ ':' :: (v.compact num ++ compactFields num fields))

end

/-- A key with its colon, and what follows. -/
def readKey (cs : List Char) : Option (String × List Char) :=
  match cs with
  | '"' :: rest =>
    match unquote (rest.length + 1) rest with
    | some (k, ':' :: rest) => some (String.ofList k, rest)
    | _ => none
  | _ => none

/-- What follows `word` in `cs`. -/
def readWord (word cs : List Char) : Option (List Char) :=
  if cs.take word.length = word then some (cs.drop word.length) else none

mutual

/-- The value at the front of `cs` and what follows it. -/
def read (num : List Char → Option (N × List Char)) :
    Nat → List Char → Option (Json N × List Char)
  | 0, _ => none
  | _ + 1, [] => none
  | fuel + 1, c :: rest =>
    if c = '"' then
      (unquote (rest.length + 1) rest).map fun (s, rest) => (.string (String.ofList s), rest)
    else if c = '[' then
      if rest.head? = some ']' then some (.array [], rest.tail)
      else
        (read num fuel rest).bind fun (v, rest) =>
          (readItems num fuel rest).map fun (vs, rest) => (.array (v :: vs), rest)
    else if c = '\x7b' then
      if rest.head? = some '\x7d' then some (.object [], rest.tail)
      else
        (readKey rest).bind fun (k, rest) => (read num fuel rest).bind fun (v, rest) =>
          (readFields num fuel rest).map fun (fields, rest) => (.object ((k, v) :: fields), rest)
    else if c = 'n' then (readWord ['u', 'l', 'l'] rest).map fun rest => (.null, rest)
    else if c = 't' then (readWord ['r', 'u', 'e'] rest).map fun rest => (.bool true, rest)
    else if c = 'f' then
      (readWord ['a', 'l', 's', 'e'] rest).map fun rest => (.bool false, rest)
    else (num (c :: rest)).map fun (n, rest) => (.number n, rest)

/-- The further items of an array, up to its bracket. -/
def readItems (num : List Char → Option (N × List Char)) :
    Nat → List Char → Option (List (Json N) × List Char)
  | 0, _ => none
  | _ + 1, [] => none
  | fuel + 1, c :: rest =>
    if c = ']' then some ([], rest)
    else if c = ',' then
      (read num fuel rest).bind fun (v, rest) =>
        (readItems num fuel rest).map fun (vs, rest) => (v :: vs, rest)
    else none

/-- The further members of an object, up to its brace. -/
def readFields (num : List Char → Option (N × List Char)) :
    Nat → List Char → Option (List (String × Json N) × List Char)
  | 0, _ => none
  | _ + 1, [] => none
  | fuel + 1, c :: rest =>
    if c = '\x7d' then some ([], rest)
    else if c = ',' then
      (readKey rest).bind fun (k, rest) => (read num fuel rest).bind fun (v, rest) =>
        (readFields num fuel rest).map fun (fields, rest) => ((k, v) :: fields, rest)
    else none

end

/-- What may follow a value: nothing, a comma or a closing bracket. -/
def Stops (rest : List Char) : Prop := ∀ c ∈ rest.head?, c ∈ [',', ']', '\x7d']

/-- `readNum` reads the text `num` gives to the numbers that pass `p`. -/
structure ReadsNumbers (num : N → List Char) (readNum : List Char → Option (N × List Char))
    (p : N → Bool) : Prop where
  read : ∀ n rest, p n = true → Stops rest → readNum (num n ++ rest) = some (n, rest)
  head : ∀ n, p n = true → ∃ c cs, num n = c :: cs ∧ c ∉ ['"', '[', ']', '\x7b', 'n', 't', 'f']

theorem length_le_flatMap_escape (s : List Char) : s.length ≤ (s.flatMap escape).length := by
  induction s with
  | nil => exact Nat.le_refl 0
  | cons c s ih =>
    obtain ⟨d, rest, hd, -⟩ := head?_escape c
    rw [flatMap_cons, hd]
    simp only [length_cons, length_append]
    omega

theorem unquote_length (s rest : List Char) :
    unquote ((s.flatMap escape ++ '"' :: rest).length + 1) (s.flatMap escape ++ '"' :: rest) =
      some (s, rest) := by
  apply unquote_quote
  have := length_le_flatMap_escape s
  simp only [length_append]
  omega

theorem readKey_quote (k : String) (rest : List Char) :
    readKey (quote k.toList ++ ':' :: rest) = some (k, rest) := by
  unfold quote readKey
  simp only [cons_append, append_assoc, nil_append, unquote_length, String.ofList_toList]

section
variable {num : N → List Char} {readNum : List Char → Option (N × List Char)} {p : N → Bool}
  {fuel : Nat}

/-- The value is read back from its compact text, whatever may follow. -/
def ReadsBack (num : N → List Char) (readNum : List Char → Option (N × List Char)) (v : Json N) :
    Prop :=
  ∀ fuel rest, (v.compact num).length < fuel → Stops rest →
    read readNum fuel (v.compact num ++ rest) = some (v, rest)

theorem stops_compactItems (vs : List (Json N)) (rest : List Char) :
    Stops (compactItems num vs ++ ']' :: rest) := by
  cases vs <;> simp [compactItems, Stops]

theorem stops_compactFields (fields : List (String × Json N)) (rest : List Char) :
    Stops (compactFields num fields ++ '\x7d' :: rest) := by
  rcases fields with _ | ⟨⟨k, v⟩, fields⟩ <;> simp [compactFields, Stops]

theorem readItems_compactItems (h : ∀ v ∈ vs, ReadsBack num readNum v)
    (rest : List Char) (hf : (compactItems num vs).length < fuel) :
    readItems readNum fuel (compactItems num vs ++ ']' :: rest) = some (vs, rest) := by
  induction vs generalizing fuel with
  | nil =>
    obtain ⟨n, rfl⟩ := exists_fuel hf
    simp [compactItems, readItems]
  | cons v vs ih =>
    obtain ⟨n, rfl⟩ := exists_fuel hf
    simp only [compactItems, length_cons, length_append] at hf
    have hv := h v mem_cons_self n (compactItems num vs ++ ']' :: rest) (by omega)
      (stops_compactItems vs rest)
    have hvs : readItems readNum n (compactItems num vs ++ ']' :: rest) = some (vs, rest) :=
      ih (forall_mem_cons.mp h).2 (by omega)
    simp only [compactItems, cons_append, append_assoc, readItems]
    rw [if_neg (by decide), if_pos trivial, hv, bind_some, hvs, map_some]

theorem readFields_compactFields
    (h : ∀ x ∈ fields, ReadsBack num readNum x.2) (rest : List Char)
    (hf : (compactFields num fields).length < fuel) :
    readFields readNum fuel (compactFields num fields ++ '\x7d' :: rest) = some (fields, rest) := by
  induction fields generalizing fuel with
  | nil =>
    obtain ⟨n, rfl⟩ := exists_fuel hf
    simp [compactFields, readFields]
  | cons x fields ih =>
    obtain ⟨k, v⟩ := x
    obtain ⟨n, rfl⟩ := exists_fuel hf
    simp only [compactFields, length_cons, length_append] at hf
    have hv := h (k, v) mem_cons_self n (compactFields num fields ++ '\x7d' :: rest)
      (by dsimp only; omega) (stops_compactFields fields rest)
    have hvs : readFields readNum n (compactFields num fields ++ '\x7d' :: rest) =
        some (fields, rest) := ih (forall_mem_cons.mp h).2 (by omega)
    simp only [compactFields, cons_append, append_assoc, readFields]
    rw [if_neg (by decide), if_pos trivial, readKey_quote, bind_some, hv, bind_some, hvs, map_some]

theorem compact_head (hnum : ReadsNumbers num readNum p) (v : Json N)
    (h : v.numbersAll p = true) :
    ∃ c cs, v.compact num = c :: cs ∧ c ≠ ']' := by
  cases v with
  | null => exact ⟨_, _, rfl, by decide⟩
  | bool b => cases b <;> exact ⟨_, _, rfl, by decide⟩
  | number n =>
    obtain ⟨c, cs, hc, hne⟩ := hnum.head n h
    refine ⟨c, cs, hc, ?_⟩
    intro he
    exact hne (by simp [he])
  | string s => exact ⟨_, _, rfl, by decide⟩
  | array vs => cases vs <;> exact ⟨_, _, rfl, by decide⟩
  | object fields => rcases fields with _ | ⟨⟨k, v⟩, fields⟩ <;> exact ⟨_, _, rfl, by decide⟩

/-- Every value is read back from its compact text. -/
theorem read_compact (hnum : ReadsNumbers num readNum p) (v : Json N)
    (h : v.numbersAll p = true) : ReadsBack num readNum v := by
  induction v with
  | null =>
    intro fuel rest hf _
    obtain ⟨n, rfl⟩ := exists_fuel hf
    simp [compact, read, readWord]
  | bool b =>
    intro fuel rest hf _
    obtain ⟨n, rfl⟩ := exists_fuel hf
    cases b <;> simp [compact, read, readWord]
  | number n =>
    intro fuel rest hf hs
    obtain ⟨fuel, rfl⟩ := exists_fuel hf
    obtain ⟨c, cs, hc, hne⟩ := hnum.head n h
    have hread := hnum.read n rest h hs
    simp only [mem_cons, not_mem_nil, or_false, not_or] at hne
    obtain ⟨h1, h2, -, h3, h4, h5, h6⟩ := hne
    rw [compact, hc, cons_append, read, if_neg h1, if_neg h2, if_neg h3, if_neg h4,
      if_neg h5, if_neg h6, ← cons_append, ← hc, hread, map_some]
  | string s =>
    intro fuel rest hf _
    obtain ⟨n, rfl⟩ := exists_fuel hf
    simp only [compact, quote, cons_append, append_assoc, nil_append, read,
      if_true, unquote_length, map_some, String.ofList_toList]
  | array vs ih =>
    intro fuel rest hf _
    obtain ⟨n, rfl⟩ := exists_fuel hf
    rw [numbersAll, all, allItems_iff] at h
    cases vs with
    | nil => simp [compact, read]
    | cons v vs =>
      obtain ⟨c, cs, hc, hne⟩ := compact_head hnum v (h v mem_cons_self)
      simp only [compact, length_cons, length_append] at hf
      have hv := ih v mem_cons_self (h v mem_cons_self) n
        (compactItems num vs ++ ']' :: rest) (by omega) (stops_compactItems vs rest)
      have hvs : readItems readNum n (compactItems num vs ++ ']' :: rest) = some (vs, rest) :=
        readItems_compactItems (fun w hw => ih w (mem_cons_of_mem _ hw)
          (h w (mem_cons_of_mem _ hw))) rest (by omega)
      simp only [compact, cons_append, append_assoc, nil_append, read]
      rw [if_neg (by decide), if_pos trivial, if_neg (by rw [hc]; simpa using hne), hv,
        bind_some, hvs, map_some]
  | object fields ih =>
    intro fuel rest hf _
    obtain ⟨n, rfl⟩ := exists_fuel hf
    rw [numbersAll, all, allFields_iff] at h
    cases fields with
    | nil => simp [compact, read]
    | cons x fields =>
      obtain ⟨k, v⟩ := x
      simp only [compact, length_cons, length_append] at hf
      have hv := ih (k, v) mem_cons_self (h (k, v) mem_cons_self).2 n
        (compactFields num fields ++ '\x7d' :: rest) (by dsimp only; omega)
        (stops_compactFields fields rest)
      have hvs : readFields readNum n (compactFields num fields ++ '\x7d' :: rest) =
          some (fields, rest) :=
        readFields_compactFields (fun w hw => ih w (mem_cons_of_mem _ hw)
          (h w (mem_cons_of_mem _ hw)).2) rest (by omega)
      simp only [compact, cons_append, append_assoc, nil_append, read]
      rw [if_neg (by decide), if_neg (by decide), if_pos trivial, if_neg (by simp [quote]), readKey_quote,
        bind_some, hv, bind_some, hvs, map_some]

/-- Different values have different texts. -/
theorem compact_injective (hnum : ReadsNumbers num readNum p) {v w : Json N}
    (hv : v.numbersAll p = true)
    (hw : w.numbersAll p = true) (h : v.compact num = w.compact num) :
    v = w := by
  have hfirst := read_compact hnum v hv _ [] (Nat.lt_succ_self _) (by simp [Stops])
  have hsecond := read_compact hnum w hw _ [] (Nat.lt_succ_self _) (by simp [Stops])
  rw [h] at hfirst
  exact (Prod.mk.inj (some.inj (hfirst.symm.trans hsecond))).1

end

/-- A text without control characters. -/
def Plain (cs : List Char) : Prop := ∀ c ∈ cs, 32 ≤ c.toNat

theorem plain_append {cs ds : List Char} : Plain (cs ++ ds) ↔ Plain cs ∧ Plain ds := by
  simp only [Plain, mem_append]
  constructor
  · intro h
    exact ⟨fun c hc => h c (.inl hc), fun c hc => h c (.inr hc)⟩
  · rintro ⟨h, h'⟩ c (hc | hc)
    · exact h c hc
    · exact h' c hc

theorem plain_cons {c : Char} : Plain (c :: cs) ↔ 32 ≤ c.toNat ∧ Plain cs := by
  simp [Plain]

theorem plain_of_all (h : (cs.all fun c => 32 ≤ c.toNat) = true) : Plain cs :=
  fun c hc => of_decide_eq_true (all_eq_true.mp h c hc)

theorem plain_quote (s : List Char) : Plain (quote s) := fun _ hc => quote_control hc

variable {num : N → List Char}

theorem plain_compactItems (h : ∀ v ∈ vs, Plain (v.compact num)) : Plain (compactItems num vs) := by
  induction vs with
  | nil => simp [compactItems, Plain]
  | cons v vs ih =>
    rw [compactItems, plain_cons, plain_append]
    exact ⟨by decide, h v mem_cons_self, ih (forall_mem_cons.mp h).2⟩

theorem plain_compactFields
    (h : ∀ x ∈ fields, Plain (x.2.compact num)) : Plain (compactFields num fields) := by
  induction fields with
  | nil => simp [compactFields, Plain]
  | cons x fields ih =>
    obtain ⟨k, v⟩ := x
    rw [compactFields, plain_cons, plain_append, plain_cons, plain_append]
    exact ⟨by decide, plain_quote _, by decide, h (k, v) mem_cons_self, ih (forall_mem_cons.mp h).2⟩

/-- The compact text of a value has no control characters, so it is one line. -/
theorem plain_compact {p : N → Bool} (hnum : ∀ n, p n = true → Plain (num n))
    (v : Json N) (h : v.numbersAll p = true) : Plain (v.compact num) := by
  induction v with
  | null => exact plain_of_all rfl
  | bool b => cases b <;> exact plain_of_all rfl
  | number n => exact hnum n h
  | string s => exact plain_quote _
  | array vs ih =>
    have hitems : ∀ v ∈ vs, Plain (v.compact num) := fun v hv => ih v hv (allItems_iff.mp h v hv)
    cases vs with
    | nil => exact plain_of_all rfl
    | cons v vs =>
      rw [compact, plain_cons, plain_append, plain_append]
      exact ⟨by decide, hitems v mem_cons_self, plain_compactItems (forall_mem_cons.mp hitems).2,
        plain_of_all (by decide)⟩
  | object fields ih =>
    have hvalues : ∀ x ∈ fields, Plain (x.2.compact num) :=
      fun x hx => ih x hx (allFields_iff.mp h x hx).2
    cases fields with
    | nil => exact plain_of_all rfl
    | cons x fields =>
      obtain ⟨k, v⟩ := x
      rw [compact, plain_cons, plain_append, plain_cons, plain_append, plain_append]
      exact ⟨by decide, plain_quote _, by decide, hvalues (k, v) mem_cons_self,
        plain_compactFields (forall_mem_cons.mp hvalues).2,
        plain_of_all (by decide)⟩

/-- The decimal text of an integer has no control characters. -/
theorem plain_int (i : Int) : Plain (toString i).toList := by
  have hdigits (n : Nat) : Plain (toString n).toList := by
    intro c hc
    have hdigit : c ∈ Nat.toDigits 10 n := by simpa using hc
    have := Nat.isDigit_of_mem_toDigits (by decide) (by decide) hdigit
    simp only [Char.isDigit, Bool.and_eq_true, decide_eq_true_eq] at this
    have hzero : 48 ≤ c.toNat := this.1
    omega
  cases i with
  | ofNat n => exact hdigits n
  | negSucc n =>
    have htext : (toString (Int.negSucc n)).toList = '-' :: (toString (n + 1)).toList := by
      simp [Int.repr]
    rw [htext, plain_cons]
    exact ⟨by decide, hdigits _⟩

end Json

end Watershed
