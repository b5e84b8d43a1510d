/-
  No two texts show alike (`visible.rs`), and nothing that is shown hides or reorders text.

  A code point is written between `<U+` and `>`, and a literal `<U+` loses its `<` to a code
  point, so what is shown is read back from the left.
-/
import Mathlib.Data.Bool.AllAny
import Watershed.MetaHarness.Approval

open List

namespace Watershed.MetaHarness

/-- A line as the Diff tab shows it: a carriage return that ends it stays. -/
def visibleLine (line : List Char) : List Char :=
  if line.getLast? = some '\r' then writtenOut hides line.dropLast ++ ['\r']
  else writtenOut hides line

def visibleLines (text : String) : String :=
  .ofList (['\n'].intercalate ((text.toList.splitOn '\n').map visibleLine))

/-! ## Code points -/

variable {marked : Char → Bool} {c d : Char} {m n : Nat} {s t rest : List Char}

theorem mem_hex (h : c ∈ hex n) : c ∈ "0123456789ABCDEF".toList := by
  have hdigit : ∀ d < 16, hexDigit d ∈ "0123456789ABCDEF".toList := by decide
  rcases mem_append.mp h with h | h
  · rw [eq_of_mem_replicate h]
    decide
  · obtain ⟨d, hd, rfl⟩ := mem_map.mp h
    exact hdigit d (Nat.digits_lt_base (by omega) (mem_reverse.mp hd))

theorem hex_injective (h : hex m = hex n) : m = n := by
  -- The value of a digit reads the number back.
  let value (c : Char) : Nat := c.toNat - if c.toNat < 0x40 then 0x30 else 0x37
  have hvalue : ∀ d < 16, value (hexDigit d) = d := by decide
  have hread (n : Nat) : Nat.ofDigits 16 ((hex n).map value).reverse = n := by
    have hdigits : (Nat.digits 16 n).map (value ∘ hexDigit) = Nat.digits 16 n :=
      (map_congr_left fun d hd => hvalue d (Nat.digits_lt_base (by omega) hd)).trans (map_id _)
    have hzero : value '0' = 0 := by decide
    simp [hex, hdigits, hzero, Nat.ofDigits_append, Nat.ofDigits_digits,
      Nat.ofDigits_replicate_zero]
  rw [← hread m, h, hread]

/-- A code point ends with its `>`. -/
theorem codePoint_append_inj (h : codePoint c ++ s = codePoint d ++ t) : c = d ∧ s = t := by
  have htake (n : Nat) (rest : List Char) : (hex n ++ '>' :: rest).takeWhile (· ≠ '>') = hex n := by
    rw [takeWhile_append_of_pos fun c hc => ?_]
    · simp
    · exact decide_eq_true fun heq => absurd (mem_hex hc) (heq ▸ by decide)
  simp only [codePoint, cons_append, append_assoc, List.cons.injEq, true_and, nil_append] at h
  have hhex := congrArg (takeWhile (· ≠ '>')) h
  rw [htake, htake] at hhex
  rw [hhex, append_cancel_left_eq, List.cons.injEq] at h
  exact ⟨Char.toNat_inj.mp (hex_injective hhex), h.2⟩

theorem mem_writtenOut (h : c ∈ writtenOut marked s) :
    c ∈ s ∧ marked c = false ∨ hides c = false ∧ c ≠ '\n' ∧ c ≠ '\t' := by
  have hchars : ∀ c ∈ "<U+>0123456789ABCDEF".toList, hides c = false ∧ c ≠ '\n' ∧ c ≠ '\t' :=
    all_iff_forall_prop.mp (by decide)
  induction s with
  | nil => cases h
  | cons d s ih =>
    rw [writtenOut] at h
    split_ifs at h with hd
    · rcases mem_append.mp h with h | h
      · simp only [codePoint, mem_cons, mem_append, not_mem_nil, or_false] at h
        refine .inr (hchars c ?_)
        rcases h with rfl | rfl | rfl | h | rfl
        · decide
        · decide
        · decide
        · exact mem_append_right "<U+>".toList (mem_hex h)
        · decide
      · exact (ih h).imp_left fun hc => ⟨mem_cons_of_mem _ hc.1, hc.2⟩
    · rcases mem_cons.mp h with rfl | h
      · exact .inl ⟨mem_cons_self, by simp_all⟩
      · exact (ih h).imp_left fun hc => ⟨mem_cons_of_mem _ hc.1, hc.2⟩

/-! ## Reading back -/

theorem writtenOut_head (hd : d ≠ '<') (h : d :: t <+: writtenOut marked s) :
    ∃ rest, s = d :: rest ∧ t <+: writtenOut marked rest := by
  cases s with
  | nil => simp [writtenOut] at h
  | cons c s =>
    rw [writtenOut] at h
    split_ifs at h
    · exact absurd (cons_prefix_cons.mp h).1 hd
    · obtain ⟨rfl, hrest⟩ := cons_prefix_cons.mp h
      exact ⟨s, rfl, hrest⟩

/-- What is not written out is not taken for a code point. -/
theorem plain_ne_codePoint (h : ¬ (marked c ∨ c = '<' ∧ ['U', '+'] <+: s)) :
    c :: writtenOut marked s ≠ codePoint d ++ t := by
  intro heq
  obtain ⟨rfl, hs⟩ := cons_eq_cons.mp heq
  obtain ⟨rest, rfl, hrest⟩ := writtenOut_head (by decide) ⟨_, hs.symm⟩
  obtain ⟨rest, rfl, -⟩ := writtenOut_head (by decide) hrest
  exact h (.inr ⟨rfl, rest, rfl⟩)

theorem writtenOut_injective (marked : Char → Bool) : Function.Injective (writtenOut marked) := by
  have hne (c : Char) (s : List Char) : writtenOut marked (c :: s) ≠ [] := by
    rw [writtenOut]
    split_ifs <;> simp [codePoint]
  intro s
  induction s with
  | nil =>
    intro t h
    cases t with
    | nil => rfl
    | cons d t => exact absurd h.symm (hne d t)
  | cons c s ih =>
    intro t h
    cases t with
    | nil => exact absurd h (hne c s)
    | cons d t =>
      rw [writtenOut, writtenOut] at h
      split_ifs at h with hc hd hd
      · obtain ⟨rfl, hrest⟩ := codePoint_append_inj h
        rw [ih hrest]
      · exact absurd h.symm (plain_ne_codePoint hd)
      · exact absurd h (plain_ne_codePoint hc)
      · obtain ⟨rfl, hrest⟩ := cons_eq_cons.mp h
        rw [ih hrest]

/-! ## Characters that are shown -/

theorem hides_writtenOut (hmarked : ∀ c, marked c = false → hides c = false)
    (h : c ∈ writtenOut marked s) : hides c = false := by
  rcases mem_writtenOut h with h | h
  · exact hmarked c h.2
  · exact h.1

/-- Only a carriage return before a line feed or the end hides. -/
def OnlyLineEnds (text : List Char) : Prop :=
  ∀ c rest, c :: rest <:+ text → hides c = true → c = '\r' ∧ (rest = [] ∨ rest.head? = some '\n')

theorem OnlyLineEnds.append (hs : ∀ c ∈ s, hides c = false) (ht : OnlyLineEnds t) :
    OnlyLineEnds (s ++ t) := by
  intro c rest h hc
  induction s with
  | nil => exact ht c rest h hc
  | cons d s ih =>
    rcases suffix_cons_iff.mp h with h | h
    · cases h
      exact absurd (hs c mem_cons_self) (by simp [hc])
    · exact ih (forall_mem_cons.mp hs).2 h

theorem OnlyLineEnds.line (line : List Char) (ht : OnlyLineEnds t)
    (hend : t = [] ∨ t.head? = some '\n') : OnlyLineEnds (visibleLine line ++ t) := by
  have hshown (line : List Char) : ∀ c ∈ writtenOut hides line, hides c = false :=
    fun c => hides_writtenOut fun _ => id
  unfold visibleLine
  split_ifs
  · rw [append_assoc]
    refine .append (hshown _) fun c rest h hc => ?_
    rcases suffix_cons_iff.mp h with h | h
    · cases h
      exact ⟨rfl, hend⟩
    · exact ht c rest h hc
  · exact .append (hshown line) ht

theorem onlyLineEnds_lines (lines : List (List Char)) :
    OnlyLineEnds (['\n'].intercalate (lines.map visibleLine)) := by
  have hnil : OnlyLineEnds [] := fun c rest h => absurd (suffix_nil.mp h) (cons_ne_nil c rest)
  induction lines with
  | nil => exact hnil
  | cons line lines ih =>
    cases lines with
    | nil => simpa using OnlyLineEnds.line line hnil (.inl rfl)
    | cons next lines =>
      exact .line line (.append (forall_mem_singleton.mpr rfl) ih) (.inr rfl)

/-! ## Lines -/

theorem not_mem_splitOn (text : List Char) : ∀ line ∈ text.splitOn '\n', '\n' ∉ line := by
  induction text with
  | nil => simp
  | cons c text ih =>
    rw [splitOn_cons_eq_if_modifyHead]
    obtain ⟨line, lines, h⟩ := exists_cons_of_ne_nil (splitOn_ne_nil '\n' text)
    rw [h] at ih ⊢
    obtain ⟨hline, hlines⟩ := forall_mem_cons.mp ih
    split_ifs with hc
    · exact forall_mem_cons.mpr ⟨not_mem_nil, ih⟩
    · have hne : c ≠ '\n' := by simpa using hc
      exact forall_mem_cons.mpr ⟨not_mem_cons_of_ne_of_not_mem hne.symm hline, hlines⟩

theorem visibleLine_injective : Function.Injective visibleLine := by
  -- A carriage return is written out, so one at the end is the line's own.
  have hreturn (line : List Char) : (writtenOut hides line).getLast? ≠ some '\r' := fun h =>
    absurd (hides_writtenOut (fun _ => id) (mem_of_getLast? h)) (by decide)
  intro s t h
  unfold visibleLine at h
  split_ifs at h with hs ht ht
  · rw [← dropLast_append_getLast? _ hs, ← dropLast_append_getLast? _ ht,
      writtenOut_injective _ (append_cancel_right h)]
  · exact absurd (h ▸ getLast?_concat) (hreturn t)
  · exact absurd (h ▸ getLast?_concat) (hreturn s)
  · exact writtenOut_injective _ h

theorem visibleLines_injective : Function.Injective visibleLines := by
  have hfeed (text : List Char) : ∀ line ∈ (text.splitOn '\n').map visibleLine, '\n' ∉ line := by
    refine forall_mem_map.mpr fun line hline h => not_mem_splitOn text line hline ?_
    have hmem {line : List Char} (h : '\n' ∈ writtenOut hides line) : '\n' ∈ line := by
      rcases mem_writtenOut h with h | h
      · exact h.1
      · exact absurd rfl h.2.1
    unfold visibleLine at h
    split_ifs at h
    · exact (dropLast_sublist line).subset (hmem (by simpa using h))
    · exact hmem h
  intro s t h
  have hlines := congrArg (splitOn '\n') (String.ofList_injective h)
  rw [splitOn_intercalate _ (hfeed _) (by simp), splitOn_intercalate _ (hfeed _) (by simp)] at hlines
  have hsplit := visibleLine_injective.list_map hlines
  have hback : ['\n'].intercalate (s.toList.splitOn '\n') = s.toList := intercalate_splitOn _
  rw [← String.toList_inj, ← hback, hsplit, intercalate_splitOn]

/-- No two texts show alike, and what is shown hides nothing but the carriage return of a line
    end. -/
theorem visible_unambiguous :
    (Function.Injective visible ∧ Function.Injective visibleName ∧
        Function.Injective visibleLines) ∧
      (∀ text, ∀ c ∈ (visible text).toList, hides c = false) ∧
      (∀ name, ∀ c ∈ (visibleName name).toList, hides c = false ∧ c ≠ '\n' ∧ c ≠ '\t') ∧
      ∀ text c rest, c :: rest <:+ (visibleLines text).toList → hides c = true →
        c = '\r' ∧ (rest = [] ∨ rest.head? = some '\n') := by
  have hwritten (marked : Char → Bool) :
      Function.Injective fun text : String => String.ofList (writtenOut marked text.toList) :=
    fun _ _ h => String.toList_injective (writtenOut_injective _ (String.ofList_injective h))
  refine ⟨⟨hwritten _, hwritten _, visibleLines_injective⟩, fun text c hc => ?_,
    fun name c hc => ?_, fun text c rest h => ?_⟩
  · rw [visible, String.toList_ofList] at hc
    exact hides_writtenOut (fun _ => id) hc
  · rw [visibleName, String.toList_ofList] at hc
    rcases mem_writtenOut hc with h | h
    · have hmarked := h.2
      simp only [Bool.or_eq_false_iff, decide_eq_false_iff_not] at hmarked
      exact ⟨hmarked.2, hmarked.1⟩
    · exact h
  · rw [visibleLines, String.toList_ofList] at h
    exact onlyLineEnds_lines _ c rest h

end Watershed.MetaHarness
