/-
  An appender and its files: what verification establishes and what a rotation keeps.

  `Stored` ties an appender to its segment files: `layout` is the committed log, cut into
  segments, and `torn` is what a failed write left behind when its cleanup failed too.
-/
import Mathlib.Data.List.Basic
import Watershed.FlowAgent.SegmentedLog

namespace Watershed.FlowAgent

open Fallible List

/-! ## Calls that leave the files alone -/

/-- A computation that changes no file. -/
def Keeps {ε α : Type} (m : Fallible ε Disk α) : Prop :=
  ∀ disk, (m disk).2.segments = disk.segments

namespace Keeps

variable {ε δ α β : Type} {m : Fallible ε Disk α}

theorem pure (a : α) : Keeps (pure a : Fallible ε Disk α) := fun _ => rfl

theorem fail (e : ε) : Keeps (Fallible.fail e : Fallible ε Disk α) := fun _ => rfl

theorem lift (r : Except ε α) : Keeps (Fallible.lift r : Fallible ε Disk α) := fun _ => rfl

theorem read (f : Disk → α) : Keeps (Fallible.read f : Fallible ε Disk α) := fun _ => rfl

theorem call (answer : Nat → Option ε) : Keeps (Disk.call answer) := fun _ => rfl

theorem bind (h : Keeps m) {f : α → Fallible ε Disk β} (hf : ∀ a, Keeps (f a)) :
    Keeps (m >>= f) := by
  intro disk
  have hm := h disk
  simp only [Bind.bind]
  rcases hresult : m disk with ⟨_ | a, after⟩ <;> rw [hresult] at hm
  · exact hm
  · exact (hf a after).trans hm

theorem mapError (h : Keeps m) (f : ε → δ) : Keeps (m.mapError f) := fun disk => h disk

theorem of_ok (h : Keeps m) {disk after : Disk} {a : α} (hm : m disk = (.ok a, after)) :
    after.segments = disk.segments := by
  simpa only [hm] using h disk

theorem wp (h : Keeps m) {disk : Disk} {Q : α → Disk → Prop} {E : ε → Disk → Prop}
    (hQ : ∀ a after, m disk = (.ok a, after) → after.segments = disk.segments → Q a after)
    (hE : ∀ e after, after.segments = disk.segments → E e after) : m.wp Q E disk := by
  have hm := h disk
  unfold Fallible.wp
  rcases hresult : m disk with ⟨e | a, after⟩
  · exact hE e after (by simpa only [hresult] using hm)
  · exact hQ a after hresult (by simpa only [hresult] using hm)

end Keeps

section
variable {sys : System}

theorem keeps_fileLen (ordinal : Nat) : Keeps (fileLen sys ordinal) :=
  (Keeps.call _).bind fun _ => .read _

theorem fileLen_eq_ok {ordinal len : Nat} {disk after : Disk}
    (h : fileLen sys ordinal disk = (.ok len, after)) :
    (disk.content ordinal).length = len := by
  obtain ⟨_, mid, hcall, hread⟩ := bind_apply_eq_ok.mp h
  have hmid := (Keeps.call sys.metadata).of_ok hcall
  have hlen : (mid.content ordinal).length = len := by
    simpa only [Except.ok.injEq] using (Prod.mk.inj hread).1
  rwa [Disk.content, hmid] at hlen

namespace SessionLogAppender

/-! ## Verification -/

theorem keeps_verifySegment (path : AnchoredFile) (ordinal bytes : Nat) :
    Keeps (verifySegment sys path ordinal bytes) :=
  (Keeps.call _).bind fun _ => ((keeps_fileLen _).mapError _).bind fun _ => .lift _

theorem keeps_verifySealed (base : AnchoredFile) (ordinal : Nat) (sizes : List Nat) :
    Keeps (verifySealed sys base ordinal sizes) := by
  induction sizes generalizing ordinal with
  | nil => exact .pure _
  | cons bytes rest ih =>
    exact (Keeps.lift _).bind fun path => (keeps_verifySegment _ _ _).bind fun _ => ih _

variable (appender : SessionLogAppender)
include appender

theorem keeps_inventoryChanged : Keeps (appender.inventoryChanged sys) := by
  unfold inventoryChanged
  cases appender.inventoryWatch
  · exact .pure _
  · exact fun _ => rfl

theorem keeps_verifyInventory (scan : Bool) : Keeps (appender.verifyInventory scan) := by
  cases scan
  · exact .pure _
  · exact (Keeps.read _).bind fun _ => (Keeps.lift _).bind fun _ => .lift _

theorem keeps_verifyPass (scan : Bool) : Keeps (appender.verifyPass sys scan) :=
  (keeps_verifyInventory _ _).bind fun _ => (keeps_verifySealed _ _ _).bind fun _ =>
    (Keeps.lift _).bind fun _ => (keeps_verifySegment _ _ _).bind fun _ => .pure _

theorem keeps_verifyCurrentSegment : Keeps (appender.verifyCurrentSegment sys) := by
  refine (keeps_inventoryChanged _).bind fun changed => (keeps_verifyPass _ _).bind fun _ =>
    (keeps_inventoryChanged _).bind fun _ => ?_
  split
  · exact .pure _
  split
  · exact .fail _
  refine (keeps_verifyPass _ _).bind fun _ => (keeps_inventoryChanged _).bind fun _ => ?_
  split
  · exact .fail _
  · exact .pure _


omit appender
variable {path : AnchoredFile} {disk after : Disk} {appender : SessionLogAppender}

theorem verifySegment_eq_ok {ordinal bytes : Nat}
    (h : verifySegment sys path ordinal bytes disk = (.ok (), after)) :
    (disk.content ordinal).length = bytes := by
  obtain ⟨_, mid, hcall, h⟩ := bind_apply_eq_ok.mp h
  obtain ⟨len, last, hlen, h⟩ := bind_apply_eq_ok.mp h
  have hmid := (Keeps.call sys.verifyOwned).of_ok hcall
  have hrefuse : ¬ len ≠ bytes := refuseIf_eq_ok.mp (Prod.mk.inj h).1
  have hcontent := fileLen_eq_ok (Prod.ext (mapError_eq_ok.mp (congrArg Prod.fst hlen)) rfl)
  rw [Disk.content, hmid] at hcontent
  exact hcontent.trans (not_not.mp hrefuse)

theorem verifyPass_eq_ok {scan : Bool}
    (h : appender.verifyPass sys scan disk = (.ok path, after)) :
    (disk.content appender.currentOrdinal).length = appender.currentBytes := by
  obtain ⟨_, scanned, hscan, h⟩ := bind_apply_eq_ok.mp h
  obtain ⟨_, mid, hsealed, h⟩ := bind_apply_eq_ok.mp h
  obtain ⟨current, _, hpath, h⟩ := bind_apply_eq_ok.mp h
  obtain ⟨_, last, hverify, -⟩ := bind_apply_eq_ok.mp h
  have hscanned := (keeps_verifyInventory appender scan).of_ok hscan
  have hmid := (keeps_verifySealed _ _ _).of_ok hsealed
  have hlast := (Keeps.lift _).of_ok hpath
  have hlen := verifySegment_eq_ok hverify
  rwa [Disk.content, hlast, hmid, hscanned] at hlen

/-- A verified appender knows the size of its current segment. -/
theorem verifyCurrentSegment_eq_ok
    (h : appender.verifyCurrentSegment sys disk = (.ok path, after)) :
    (disk.content appender.currentOrdinal).length = appender.currentBytes := by
  obtain ⟨_, mid, hchanged, h⟩ := bind_apply_eq_ok.mp h
  obtain ⟨_, _, hpass, -⟩ := bind_apply_eq_ok.mp h
  have hmid := (keeps_inventoryChanged appender).of_ok hchanged
  have hlen := verifyPass_eq_ok hpass
  rwa [Disk.content, hmid] at hlen

theorem wp_verifySession {session : Session} {Q : AnchoredFile → Session → Prop}
    {E : RuntimeError → Session → Prop} (hQ : ∀ path after, after.appender = session.appender →
      after.disk.segments = session.disk.segments →
      (session.disk.content session.appender.currentOrdinal).length =
        session.appender.currentBytes → Q path after)
    (hE : ∀ error after, after.appender = session.appender →
      after.disk.segments = session.disk.segments → E error after) :
    (verifySession sys).wp Q E session := by
  change (onDisk (session.appender.verifyCurrentSegment sys)).wp Q E session
  rw [onDisk, wp_zoom]
  refine (keeps_verifyCurrentSegment session.appender).wp ?_ ?_
  · intro path after hok hsegments
    exact hQ path _ rfl hsegments (verifyCurrentSegment_eq_ok hok)
  · intro error after hsegments
    exact hE error _ rfl hsegments

end SessionLogAppender

end

/-! ## An appender and its files -/

/-- A log cut into segments: the full ones and the one that is written. -/
structure Layout where
  full : List (List UInt8)
  current : List UInt8

variable (layout : Layout)

def Layout.bytes : List UInt8 := layout.full.flatten ++ layout.current

/-- The files hold the log `layout`, followed by `torn`. -/
structure Filed (limits : SessionStreamLimits) (segments : List (List UInt8)) (layout : Layout)
    (torn : List UInt8) : Prop where
  segments : segments = layout.full ++ [layout.current ++ torn]
  fullLines : ∀ segment ∈ layout.full, segment.getLast? = some 10
  fullSizes : ∀ segment ∈ layout.full, segment.length ≤ maxSessionSegmentBytes
  currentLines : layout.current = [] ∨ layout.current.getLast? = some 10
  currentSize : (layout.current ++ torn).length ≤ maxSessionSegmentBytes
  total : (layout.bytes ++ torn).length ≤ limits.maxTotalBytes
  count : layout.full.length + 1 ≤ max 1 limits.maxSegments
  ordinals : layout.full.length + 1 ≤ maxSegmentOrdinal

/-- The files hold a log, and the appender's counters describe it. -/
structure Stored (limits : SessionStreamLimits) (appender : SessionLogAppender)
    (segments : List (List UInt8)) (layout : Layout) (torn : List UInt8) : Prop
    extends Filed limits segments layout torn where
  sameLimits : appender.limits = limits
  currentOrdinal : appender.currentOrdinal = layout.full.length + 1
  currentBytes : appender.currentBytes = layout.current.length
  totalBytes : appender.totalBytes = layout.bytes.length

abbrev Session.Holds (limits : SessionStreamLimits) (session : Session) :=
  Stored limits session.appender session.disk.segments

/-- The session stores `log`, up to a torn suffix. -/
def StoresLog (limits : SessionStreamLimits) (session : Session) (log torn : List UInt8) : Prop :=
  ∃ layout, session.Holds limits layout torn ∧ layout.bytes = log

/-- The layout in which a record of the given size is written: with a new segment if the current
    one has no room for it. -/
def Layout.next (bytes : Nat) : Layout :=
  if layout.current = [] ∨ layout.current.length + bytes ≤ maxSessionSegmentBytes then layout
  else ⟨layout.full ++ [layout.current], []⟩

/-- The steps of a rotation that follow the creation of its file. -/
structure Rotates (sys : System) : Prop where
  syncParent : ∀ n, sys.syncParent n = none
  openAppend : ∀ n, sys.openAppend n = none

variable {disk : Disk} {full : List (List UInt8)} {bytes : List UInt8} {a b : Nat}
    {path : AnchoredFile}

theorem content_last
    (h : disk.segments = full ++ [bytes]) : disk.content (full.length + 1) = bytes := by
  simp [Disk.content, h]

theorem setContent_last (h : disk.segments = full ++ [bytes]) (bytes' : List UInt8) :
    (disk.setContent (full.length + 1) bytes').segments = full ++ [bytes'] := by
  simp [Disk.setContent, h]

theorem saturatingAdd_of_lt (h : a + b < 2 ^ 64) : saturatingAdd a b = a + b := by
  unfold saturatingAdd
  omega

theorem le_of_saturatingAdd_le {c : Nat} (h : saturatingAdd a b ≤ c) (hc : c < 2 ^ 64 - 1) :
    a + b ≤ c := by
  unfold saturatingAdd at h
  omega

theorem length_flatten_le {segments : List (List UInt8)} {bound : Nat}
    (h : ∀ segment ∈ segments, segment.length ≤ bound) :
    segments.flatten.length ≤ segments.length * bound := by
  induction segments with
  | nil => simp
  | cons segment rest ih =>
    have hrest := ih (forall_mem_cons.mp h).2
    have hsegment := h segment mem_cons_self
    rw [flatten_cons, length_append, length_cons, Nat.succ_mul]
    omega

@[simp] theorem Layout.bytes_next (bytes : Nat) : (layout.next bytes).bytes = layout.bytes := by
  unfold Layout.next
  split <;> simp [Layout.bytes]

theorem Layout.bytes_append (part : List UInt8) :
    Layout.bytes { layout with current := layout.current ++ part } = layout.bytes ++ part := by
  simp [Layout.bytes]

section
variable {limits : SessionStreamLimits} {appender : SessionLogAppender}
  {segments : List (List UInt8)} {layout : Layout} {torn : List UInt8}

/-- The files of a log are few and small, so no counter reaches its maximum. -/
theorem Filed.bytes_lt (h : Filed limits segments layout torn) :
    layout.bytes.length + maxSessionSegmentBytes < 2 ^ 64 := by
  have hfull := length_flatten_le h.fullSizes
  have hcurrent := h.currentSize
  have hcount : layout.full.length * maxSessionSegmentBytes ≤
      maxSegmentOrdinal * maxSessionSegmentBytes :=
    Nat.mul_le_mul_right _ ((Nat.le_succ _).trans h.ordinals)
  simp only [Layout.bytes, length_append, maxSessionSegmentBytes, maxSegmentOrdinal] at *
  omega

/-- An appender whose current segment has the expected size has no torn suffix. -/
theorem Stored.torn_eq_nil (h : Stored limits appender disk.segments layout torn)
    (hlen : (disk.content appender.currentOrdinal).length = appender.currentBytes) : torn = [] := by
  rw [h.currentOrdinal, content_last h.segments, h.currentBytes, length_append] at hlen
  exact length_eq_zero_iff.mp (by omega)

section Grow

variable (hlines : bytes = [] ∨ bytes.getLast? = some 10)
  (hsize : layout.current.length + bytes.length ≤ maxSessionSegmentBytes)
  (htotal : layout.bytes.length + bytes.length ≤ limits.maxTotalBytes)
include hlines hsize htotal

/-- The log grows by complete records that fit. -/
theorem Filed.grow (h : Filed limits segments layout []) :
    Filed limits (layout.full ++ [layout.current ++ bytes])
      { layout with current := layout.current ++ bytes } [] where
  segments := by simp
  fullLines := h.fullLines
  fullSizes := h.fullSizes
  currentLines := by
    rcases hlines with rfl | hlines
    · simpa using h.currentLines
    · exact .inr (by simp [hlines])
  currentSize := by simpa using hsize
  total := by simpa [Layout.bytes, Nat.add_assoc] using htotal
  count := h.count
  ordinals := h.ordinals

theorem Stored.grow (h : Stored limits appender segments layout []) :
    Stored limits { appender with
        currentBytes := saturatingAdd appender.currentBytes bytes.length
        totalBytes := saturatingAdd appender.totalBytes bytes.length }
      (layout.full ++ [layout.current ++ bytes])
      { layout with current := layout.current ++ bytes } [] := by
  have hlt := h.bytes_lt
  refine ⟨h.toFiled.grow hlines hsize htotal, h.sameLimits, h.currentOrdinal, ?_, ?_⟩
  · rw [h.currentBytes, saturatingAdd_of_lt (by omega), length_append]
  · change saturatingAdd appender.totalBytes bytes.length = _
    rw [h.totalBytes, saturatingAdd_of_lt (by omega)]
    simp [Layout.bytes, Nat.add_assoc]

end Grow

/-- A failed write leaves a torn suffix that fits. -/
theorem Stored.tear (h : Stored limits appender segments layout []) {part : List UInt8}
    (hsize : layout.current.length + part.length ≤ maxSessionSegmentBytes)
    (htotal : layout.bytes.length + part.length ≤ limits.maxTotalBytes) :
    Stored limits appender (layout.full ++ [layout.current ++ part]) layout part :=
  { h with
    segments := rfl
    currentSize := by simpa using hsize
    total := by simpa using htotal }

/-- The current segment ends with a record, so it can be sealed. -/
theorem Filed.rotate (h : Filed limits segments layout []) (hne : layout.current ≠ [])
    (hcount : layout.full.length + 1 < limits.maxSegments)
    (hordinal : layout.full.length + 2 ≤ maxSegmentOrdinal) :
    Filed limits (segments ++ [[]]) ⟨layout.full ++ [layout.current], []⟩ [] := by
  have hsegments := h.segments
  have htotal := h.total
  have hsize := h.currentSize
  simp only [append_nil] at hsegments htotal hsize
  constructor
  case segments => simp [hsegments]
  case fullLines =>
    intro segment hmem
    rcases mem_append.mp hmem with hmem | hmem
    · exact h.fullLines segment hmem
    · rw [mem_singleton.mp hmem]
      exact h.currentLines.resolve_left hne
  case fullSizes =>
    intro segment hmem
    rcases mem_append.mp hmem with hmem | hmem
    · exact h.fullSizes segment hmem
    · rwa [mem_singleton.mp hmem]
  case currentLines => exact .inl rfl
  case currentSize => simp
  case total => simpa [Layout.bytes] using htotal
  case count =>
    rw [length_append, length_singleton]
    omega
  case ordinals =>
    rw [length_append]
    omega

end

/-! ## Rotation -/

theorem requiresRotation_eq_ok {limits : SessionStreamLimits}
    {currentBytes currentOrdinal totalBytes appendedBytes : Nat} {rotation : Bool}
    (h : sessionStreamRecordRequiresRotation path limits currentBytes currentOrdinal totalBytes
      appendedBytes = .ok rotation) :
    appendedBytes ≤ maxSessionSegmentBytes ∧
      saturatingAdd totalBytes appendedBytes ≤ limits.maxTotalBytes ∧
      (rotation = false → currentBytes = 0 ∨
        saturatingAdd currentBytes appendedBytes ≤ maxSessionSegmentBytes) ∧
      (rotation = true → currentBytes ≠ 0 ∧
        maxSessionSegmentBytes < saturatingAdd currentBytes appendedBytes ∧
        currentOrdinal < limits.maxSegments) := by
  rw [sessionStreamRecordRequiresRotation, check_bind_eq_ok, refuseIf_eq_ok] at h
  obtain ⟨hrecord, h⟩ := h
  rw [check_bind_eq_ok, refuseIf_eq_ok] at h
  obtain ⟨htotal, h⟩ := h
  refine ⟨not_lt.mp hrecord, not_lt.mp htotal, ?_⟩
  split at h
  case isTrue hfits =>
    cases h
    exact ⟨fun _ => hfits, fun hfalse => absurd hfalse (by decide)⟩
  case isFalse hfits =>
    rw [check_bind_eq_ok, refuseIf_eq_ok] at h
    obtain ⟨hcount, h⟩ := h
    cases h
    exact ⟨fun hfalse => absurd hfalse (by decide),
      fun _ => ⟨fun hzero => hfits (.inl hzero), not_le.mp fun hle => hfits (.inr hle),
        not_le.mp hcount⟩⟩

theorem segmentedJsonlPath_eq_ok {base : AnchoredFile} {ordinal : Nat}
    (h : segmentedJsonlPath base ordinal = .ok path) : ordinal ≤ maxSegmentOrdinal := by
  unfold segmentedJsonlPath at h
  split at h
  case isTrue hone => simp [hone, maxSegmentOrdinal]
  case isFalse hone =>
    simp only [bind_eq_ok, segmentedJsonlLeaf, if_neg hone] at h
    obtain ⟨_, -, _, hleaf, -⟩ := h
    split at hleaf
    case isTrue hrange => exact hrange.2
    case isFalse => cases hleaf

section
variable {sys : System} {limits : SessionStreamLimits} {session : Session} {layout : Layout}
  {torn : List UInt8}

theorem wp_call {ε : Type} {answer : Nat → Option ε} {Q : Unit → Disk → Prop}
    {E : ε → Disk → Prop} :
    (Disk.call answer).wp Q E disk ↔
      (answer disk.calls = none → Q () { disk with calls := disk.calls + 1 }) ∧
        ∀ e, answer disk.calls = some e → E e { disk with calls := disk.calls + 1 } := by
  unfold Fallible.wp Disk.call
  cases answer disk.calls <;> simp

namespace SessionLogAppender

theorem stored_moveTo (h : session.Holds limits layout [])
    (hne : layout.current ≠ []) (hcount : layout.full.length + 1 < limits.maxSegments)
    (hordinal : layout.full.length + 2 ≤ maxSegmentOrdinal) :
    Stored limits (moveTo (session.appender.currentOrdinal + 1) session).appender
      (session.disk.segments ++ [[]]) ⟨layout.full ++ [layout.current], []⟩ [] := by
  refine ⟨h.toFiled.rotate hne hcount hordinal, h.sameLimits, ?_, rfl, ?_⟩
  · simp [moveTo, h.currentOrdinal]
  · simpa [moveTo, Layout.bytes] using h.totalBytes

/-- What a failed operation leaves: the files hold a log, and unless a rotation failed after it
    had created its file, the appender still describes them. -/
def Leaves (sys : System) (limits : SessionStreamLimits) (layout : Layout) (torn : List UInt8)
    (session : Session) : Prop :=
  Filed limits session.disk.segments layout torn ∧ (Rotates sys → session.Holds limits layout torn)

theorem Leaves.of_stored (h : session.Holds limits layout torn) :
    Leaves sys limits layout torn session := ⟨h.toFiled, fun _ => h⟩

/-- A rotation seals the current segment and starts an empty one. -/
theorem wp_rotate (h : session.Holds limits layout [])
    (hne : layout.current ≠ []) (hcount : layout.full.length + 1 < limits.maxSegments)
    (path : AnchoredFile) :
    (rotate sys path).wp (fun _ after => after.Holds limits
        ⟨layout.full ++ [layout.current], []⟩ [])
      (fun _ after => Leaves sys limits layout [] after ∨
        Leaves sys limits ⟨layout.full ++ [layout.current], []⟩ [] after) session := by
  have hnext : saturatingAdd session.appender.currentOrdinal 1 = layout.full.length + 2 := by
    have hordinals := h.ordinals
    rw [h.currentOrdinal, saturatingAdd_of_lt]
    simp only [maxSegmentOrdinal] at hordinals
    omega
  unfold rotate
  simp only [wp_bind, onDisk, wp_zoom, wp_mapError, wp_call, wp_read, wp_lift]
  refine ⟨fun _ => wp_verifySession ?_ ?_, fun _ _ => .inl (.of_stored h)⟩
  swap
  · intro _ after happender hsegments
    refine .inl (.of_stored ?_)
    rwa [Session.Holds, happender, hsegments]
  rintro _ ⟨appender, disk⟩ happender hsegments _
  obtain rfl : appender = session.appender := happender
  have hverified : Stored limits session.appender disk.segments layout [] := by
    rw [show disk.segments = session.disk.segments from hsegments]
    exact h
  rw [hnext]
  refine ⟨?_, fun _ _ => .inl (.of_stored hverified)⟩
  intro next hpath
  have hordinal := segmentedJsonlPath_eq_ok hpath
  have hlength : disk.segments.length + 1 = layout.full.length + 2 := by
    rw [hverified.segments]
    simp
  have hfiled := hverified.toFiled.rotate hne hcount hordinal
  simp only [reserveNewAnchoredFile, wp_bind, wp_call, wp_read, hlength]
  refine ⟨fun _ => ⟨fun _ => ⟨fun _ => ?_, fun e he => ?_⟩, fun e he => ?_⟩,
    fun _ _ => .inl (.of_stored hverified)⟩
  · have hmoved := @stored_moveTo limits ⟨session.appender, disk⟩ layout hverified hne hcount hordinal
    rw [h.currentOrdinal] at hmoved
    refine wp_verifySession ?_ ?_
    · intro _ after happender hsegments _
      rw [Session.Holds, happender, hsegments]
      exact hmoved
    · intro _ after happender hsegments
      refine .inr (.of_stored ?_)
      rw [Session.Holds, happender, hsegments]
      exact hmoved
  · refine .inr ⟨hfiled, fun hrotates => ?_⟩
    rw [hrotates.openAppend] at he
    cases he
  · refine .inr ⟨hfiled, fun hrotates => ?_⟩
    rw [hrotates.syncParent] at he
    cases he

/-- The segment for a record has room for it. -/
theorem wp_rotateBefore (h : session.Holds limits layout torn)
    (appendedBytes : Nat) :
    (rotateBefore sys appendedBytes).wp (fun _ after => torn = [] ∧
        after.Holds limits (layout.next appendedBytes) [] ∧
        (layout.next appendedBytes).current.length + appendedBytes ≤ maxSessionSegmentBytes ∧
        layout.bytes.length + appendedBytes ≤ limits.maxTotalBytes)
      (fun _ after => Leaves sys limits layout torn after ∨
        torn = [] ∧ Leaves sys limits (layout.next appendedBytes) [] after) session := by
  unfold rotateBefore
  simp only [wp_bind, wp_lift]
  refine wp_verifySession ?_ ?_
  swap
  · intro _ after happender hsegments
    refine .inl (.of_stored ?_)
    rwa [Session.Holds, happender, hsegments]
  intro path verified happender hsegments hlen
  obtain rfl : torn = [] := h.torn_eq_nil hlen
  have hverified : verified.Holds limits layout [] := by
    rwa [Session.Holds, happender, hsegments]
  refine ⟨?_, fun _ _ => .inl (.of_stored hverified)⟩
  intro rotation hrotation
  obtain ⟨hrecord, htotal, hstay, hmove⟩ := requiresRotation_eq_ok hrotation
  have hlt := hverified.bytes_lt
  have hle : layout.current.length ≤ layout.bytes.length := by simp [Layout.bytes]
  rw [hverified.totalBytes, saturatingAdd_of_lt (by omega), hverified.sameLimits] at htotal
  rw [hverified.currentBytes, saturatingAdd_of_lt (by omega)] at hstay hmove
  cases rotation with
  | false =>
    have hnext : layout.next appendedBytes = layout :=
      if_pos ((hstay rfl).imp_left length_eq_zero_iff.mp)
    rw [hnext]
    refine ⟨rfl, hverified, ?_, htotal⟩
    rcases hstay rfl with hzero | hfits
    · omega
    · exact hfits
  | true =>
    obtain ⟨hbytes, hfull, hcount⟩ := hmove rfl
    have hne : layout.current ≠ [] := fun hnil => hbytes (length_eq_zero_iff.mpr hnil)
    have hnext : layout.next appendedBytes = ⟨layout.full ++ [layout.current], []⟩ :=
      if_neg (not_or.mpr ⟨hne, not_le.mpr hfull⟩)
    rw [hverified.sameLimits, hverified.currentOrdinal] at hcount
    rw [hnext]
    refine (wp_rotate hverified hne hcount path).mono ?_ ?_
    · intro _ after hafter
      exact ⟨rfl, hafter, by simpa using hrecord, htotal⟩
    · rintro _ after (hafter | hafter)
      · exact .inl hafter
      · exact .inr ⟨rfl, hafter⟩

end SessionLogAppender

end

end Watershed.FlowAgent
