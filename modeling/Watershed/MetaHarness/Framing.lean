/-
  Record framing of agent streams (`framing.rs`).

  The state between two calls is a function of the unfinished record alone (`holding`), so what
  a stream is framed into does not depend on how it arrives.
-/
import Watershed.Lib.Lines

open List

namespace Watershed.MetaHarness

/-- Bytes kept from the start and the end of a record that exceeds the limit. -/
def keptBytes : Nat := 256

def lineFeed : UInt8 := 10

structure LineFramer where
  pending : List UInt8
  limit : Nat
  /-- The start and the latest end of the oversized record being dropped up to its line feed. -/
  skipping : Option (List UInt8 × List UInt8)

inductive Frame where
  /-- A complete record without its line feed. -/
  | record (line : List UInt8)
  /-- A record longer than the limit. -/
  | oversized (start last : List UInt8)
  deriving DecidableEq

/-- Appends `bytes` and keeps only the last `limit` bytes. -/
def keepEnd (last bytes : List UInt8) (limit : Nat) : List UInt8 :=
  let last := last ++ bytes.drop (bytes.length - limit)
  last.drop (last.length - limit)

/-- `split_inclusive` at line feeds: each part's body, and whether its line feed follows. -/
def splitInclusive : List UInt8 → List (List UInt8 × Bool)
  | [] => []
  | byte :: bytes =>
    if byte = lineFeed then ([], true) :: splitInclusive bytes
    else
      match splitInclusive bytes with
      | [] => [([byte], false)]
      | (body, complete) :: parts => (byte :: body, complete) :: parts

namespace LineFramer

def new (limit : Nat) : LineFramer := ⟨[], limit, none⟩

/-- One turn of the loop over the parts. -/
def pushPart (framer : LineFramer) (part : List UInt8 × Bool) : LineFramer × List Frame :=
  let (body, complete) := part
  match framer.skipping with
  | some (start, last) =>
    let last := keepEnd last body keptBytes
    if complete then (⟨framer.pending, framer.limit, none⟩, [.oversized start last])
    else (⟨framer.pending, framer.limit, some (start, last)⟩, [])
  | none =>
    if framer.limit < framer.pending.length + body.length then
      let start := (framer.pending ++ body).take keptBytes
      let last := keepEnd (keepEnd [] framer.pending keptBytes) body keptBytes
      if complete then (⟨[], framer.limit, none⟩, [.oversized start last])
      else (⟨[], framer.limit, some (start, last)⟩, [])
    else if complete then (⟨[], framer.limit, none⟩, [.record (framer.pending ++ body)])
    else (⟨framer.pending ++ body, framer.limit, none⟩, [])

/-- What several calls leave, and the frames they return. -/
def feed {α : Type} (call : LineFramer → α → LineFramer × List Frame) (framer : LineFramer) :
    List α → LineFramer × List Frame
  | [] => (framer, [])
  | a :: rest =>
    let (framer, frames) := call framer a
    let (framer, more) := feed call framer rest
    (framer, frames ++ more)

def push (framer : LineFramer) (bytes : List UInt8) : LineFramer × List Frame :=
  feed pushPart framer (splitInclusive bytes)

end LineFramer

/-! ## What a record becomes -/

def lastBytes (bytes : List UInt8) : List UInt8 := bytes.drop (bytes.length - keptBytes)

def frame (limit : Nat) (line : List UInt8) : Frame :=
  if line.length ≤ limit then .record line
  else .oversized (line.take keptBytes) (lastBytes line)

/-- The framer that has read `bytes` of an unfinished record. -/
def holding (limit : Nat) (bytes : List UInt8) : LineFramer :=
  if bytes.length ≤ limit then ⟨bytes, limit, none⟩
  else ⟨[], limit, some (bytes.take keptBytes, lastBytes bytes)⟩

variable {limit : Nat} {held body bytes : List UInt8} {complete : Bool}

theorem length_lastBytes : (lastBytes bytes).length ≤ keptBytes := by
  rw [lastBytes, length_drop]
  omega

theorem reverse_lastBytes : (lastBytes bytes).reverse = bytes.reverse.take keptBytes := by
  rw [lastBytes, reverse_drop]
  rcases Nat.le_total bytes.length keptBytes with h | h
  · rw [Nat.sub_eq_zero_of_le h, Nat.sub_zero, take_of_length_le (by simp),
      take_of_length_le (by simpa using h)]
  · rw [Nat.sub_sub_self h]

theorem keepEnd_lastBytes : keepEnd (lastBytes held) body keptBytes = lastBytes (held ++ body) := by
  have h : keepEnd (lastBytes held) body keptBytes =
      lastBytes (lastBytes held ++ lastBytes body) := rfl
  rw [h, ← reverse_inj, reverse_lastBytes, reverse_lastBytes, reverse_append, reverse_append,
    reverse_lastBytes, reverse_lastBytes, take_append, take_append, take_take, take_take, Nat.min_self,
    length_take, length_reverse]
  have hkept : min (keptBytes - min keptBytes body.length) keptBytes = keptBytes - body.length := by
    omega
  rw [hkept]

/-- A part takes the framer from the bytes before it to the bytes with it. -/
theorem pushPart_holding (hlimit : keptBytes ≤ limit) :
    (holding limit held).pushPart (body, complete) =
      if complete then (holding limit [], [frame limit (held ++ body)])
      else (holding limit (held ++ body), []) := by
  have hfresh : holding limit [] = ⟨[], limit, none⟩ := if_pos (Nat.zero_le _)
  by_cases hheld : held.length ≤ limit
  · have hends : keepEnd [] held keptBytes = lastBytes held := @keepEnd_lastBytes [] held
    rw [holding, if_pos hheld, LineFramer.pushPart]
    dsimp only
    rw [hends, keepEnd_lastBytes, hfresh, ← length_append]
    by_cases hlong : (held ++ body).length ≤ limit
    · rw [if_neg (Nat.not_lt.mpr hlong), frame, holding, if_pos hlong, if_pos hlong]
    · rw [if_pos (Nat.not_le.mp hlong), frame, holding, if_neg hlong, if_neg hlong]
  · have hlong : ¬ (held ++ body).length ≤ limit := by
      rw [length_append]
      omega
    have htake : (held ++ body).take keptBytes = held.take keptBytes :=
      take_append_of_le_length (by omega)
    rw [holding, if_neg hheld, LineFramer.pushPart]
    dsimp only
    rw [keepEnd_lastBytes, hfresh, frame, holding, if_neg hlong, if_neg hlong, htake]

/-! ## Streams -/

/-- What `bytes` after `held` are framed into: the whole lines, and what is held of the next. -/
def Framed (limit : Nat) (held bytes : List UInt8) (result : LineFramer × List Frame) : Prop :=
  ∃ lines rest, (∀ line ∈ lines, lineFeed ∉ line) ∧ lineFeed ∉ rest ∧
    held ++ bytes = terminated lineFeed lines ++ rest ∧
    result = (holding limit rest, lines.map (frame limit))

/-- Calls one after the other. -/
theorem framed_feed {α : Type} {call : LineFramer → α → LineFramer × List Frame}
    {bytesOf : α → List UInt8} {calls : List α}
    (h : ∀ a ∈ calls, ∀ held, lineFeed ∉ held →
      Framed limit held (bytesOf a) (call (holding limit held) a)) (hheld : lineFeed ∉ held) :
    Framed limit held (calls.flatMap bytesOf) (LineFramer.feed call (holding limit held) calls) := by
  induction calls generalizing held with
  | nil => exact ⟨[], held, by simp, hheld, by simp [terminated], rfl⟩
  | cons a calls ih =>
    obtain ⟨ha, hcalls⟩ := forall_mem_cons.mp h
    obtain ⟨lines, rest, hlines, hrest, hbytes, hcall⟩ := ha held hheld
    obtain ⟨lines', rest', hlines', hrest', hbytes', hfeed⟩ := ih hcalls hrest
    refine ⟨lines ++ lines', rest', forall_mem_append.mpr ⟨hlines, hlines'⟩, hrest', ?_, ?_⟩
    · rw [flatMap_cons, ← append_assoc, hbytes, append_assoc, hbytes', terminated, terminated,
        terminated, flatMap_append, append_assoc]
    · simp only [LineFramer.feed, hcall, hfeed, map_append]

/-- The bytes of a part. -/
def partBytes (part : List UInt8 × Bool) : List UInt8 := part.1 ++ if part.2 then [lineFeed] else []

theorem framed_pushPart (hlimit : keptBytes ≤ limit) (hheld : lineFeed ∉ held)
    (hbody : lineFeed ∉ body) :
    Framed limit held (partBytes (body, complete))
      ((holding limit held).pushPart (body, complete)) := by
  have hline : lineFeed ∉ held ++ body := by simp [hheld, hbody]
  rw [pushPart_holding hlimit]
  cases complete with
  | true =>
    exact ⟨[held ++ body], [], by simpa using hline, by simp, by simp [terminated, partBytes], rfl⟩
  | false => exact ⟨[], held ++ body, by simp, hline, by simp [terminated, partBytes], rfl⟩

theorem splitInclusive_spec (bytes : List UInt8) :
    (splitInclusive bytes).flatMap partBytes = bytes ∧
      ∀ part ∈ splitInclusive bytes, lineFeed ∉ part.1 := by
  fun_induction splitInclusive bytes with
  | case1 => simp
  | case2 bytes ih => exact ⟨congrArg (lineFeed :: ·) ih.1, forall_mem_cons.mpr ⟨by simp, ih.2⟩⟩
  | case3 byte bytes hbyte hnil ih =>
    rw [hnil] at ih
    simp [← ih.1, Ne.symm hbyte, partBytes]
  | case4 byte bytes hbyte body complete parts hcons ih =>
    rw [hcons] at ih
    simp_all [Ne.symm hbyte, partBytes]

theorem framed_push (hlimit : keptBytes ≤ limit) (hheld : lineFeed ∉ held) (bytes : List UInt8) :
    Framed limit held bytes ((holding limit held).push bytes) := by
  obtain ⟨hbytes, hparts⟩ := splitInclusive_spec bytes
  have h := framed_feed
    (fun part hpart held hheld => framed_pushPart hlimit hheld (hparts part hpart)) hheld
  rwa [hbytes] at h

/-- However a stream is cut into calls, its frames are those of its lines in order, and what is
    held of the unfinished record stays within the limits. -/
theorem LineFramer.frames_of_lines (limit : Nat) (hlimit : 256 ≤ limit)
    (chunks : List (List UInt8)) :
    ∃ lines rest, (∀ line ∈ lines, lineFeed ∉ line) ∧ lineFeed ∉ rest ∧
      chunks.flatten = terminated lineFeed lines ++ rest ∧
      (feed push (new limit) chunks).2 = lines.map (fun line =>
        if line.length ≤ limit then .record line
        else .oversized (line.take 256) (line.drop (line.length - 256))) ∧
      let framer := (feed push (new limit) chunks).1
      framer.pending.length ≤ limit ∧ ∀ kept ∈ framer.skipping,
        framer.pending = [] ∧ kept.1.length + kept.2.length ≤ 512 := by
  have hfresh : holding limit [] = .new limit := if_pos (Nat.zero_le _)
  obtain ⟨lines, rest, hlines, hrest, hbytes, heq⟩ := framed_feed
    (fun bytes _ held hheld => framed_push hlimit hheld bytes) not_mem_nil
  rw [hfresh] at heq
  rw [heq]
  refine ⟨lines, rest, hlines, hrest, by simpa [flatMap_id'] using hbytes, rfl, ?_⟩
  dsimp only
  rw [holding]
  split_ifs with h
  · exact ⟨h, fun _ hkept => nomatch hkept⟩
  · refine ⟨Nat.zero_le _, fun kept hkept => ⟨rfl, ?_⟩⟩
    cases hkept
    have hstart := length_take_le keptBytes rest
    have hlast := @length_lastBytes rest
    simp only [keptBytes] at hstart hlast ⊢
    omega

/-- A short line, one of 300 bytes and an unfinished one. -/
theorem LineFramer.frames_of_lines_two :
    let fed := feed push (new 256) [[104], [105, 10] ++ replicate 300 120, [10, 104]]
    fed.2 = [.record [104, 105], .oversized (replicate 256 120) (replicate 256 120)] ∧
      fed.1.pending = [104] ∧ fed.1.pending.length ≤ 256 := by
  obtain ⟨-, -, -, -, -, -, h, -⟩ :=
    frames_of_lines 256 (Nat.le_refl _) [[104], [105, 10] ++ replicate 300 120, [10, 104]]
  exact ⟨by decide +kernel, by decide +kernel, h⟩

end Watershed.MetaHarness
