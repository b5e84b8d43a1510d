/-
  Runs of the appender: whatever the operating system answers, the segment files hold the
  committed records, and the appender's counters describe the files.

  A batch is written, or cut back to its last complete record, or leaves a torn suffix; an
  appender with a torn suffix refuses to write.
-/
import Watershed.FlowAgent.SegmentedStore

namespace Watershed.FlowAgent

open Fallible List Nat

section
variable {sys : System} {limits : SessionStreamLimits} {session : Session} {layout : Layout}
  {torn : List UInt8}

/-! ## Writing a batch -/

/-- The complete records among the first `written` bytes of a batch. -/
theorem takeWhile_completePrefixes (written : Nat) (events : List (List UInt8)) (start : Nat)
    (hstart : start ≤ written) :
    ∃ count ≤ events.length,
      ((completePrefixes start events).takeWhile (· ≤ written)).length = count ∧
      ((completePrefixes start events).takeWhile (· ≤ written)).getLastD start =
        start + (events.take count).flatten.length ∧
      start + (events.take count).flatten.length ≤ written := by
  induction events generalizing start with
  | nil => exact ⟨0, le_rfl, rfl, rfl, hstart⟩
  | cons event events ih =>
    by_cases hfits : start + event.length ≤ written
    · obtain ⟨count, hcount, hlength, hlast, hle⟩ := ih _ hfits
      refine ⟨count + 1, succ_le_succ hcount, ?_, ?_, ?_⟩
      · simp only [completePrefixes, takeWhile_cons, hfits, decide_true, if_true,
          length_cons, hlength]
      · simp only [completePrefixes, takeWhile_cons, hfits, decide_true, if_true,
          getLastD_cons, hlast, take_succ_cons, flatten_cons, length_append,
          add_assoc]
      · simpa only [take_succ_cons, flatten_cons, length_append, add_assoc] using hle
    · exact ⟨0, zero_le _, by simp [completePrefixes, hfits],
        by simp [completePrefixes, hfits], hstart⟩

theorem take_flatten_take (events : List (List UInt8)) (count : Nat) :
    events.flatten.take (events.take count).flatten.length = (events.take count).flatten := by
  conv_lhs => rw [← take_append_drop count events, flatten_append]
  rw [take_append_drop, take_left]

/-- After a batch: a part of it follows what the segment held, and a reported number of records
    is exactly this part. -/
def Wrote (full : List (List UInt8)) (current : List UInt8) (events : List (List UInt8))
    (failure : BatchAppendFailure) (segments : List (List UInt8)) : Prop :=
  ∃ part, part <+: events.flatten ∧ segments = full ++ [current ++ part] ∧
    ∀ count, failure.committedEvents = some count →
      count ≤ events.length ∧ part = (events.take count).flatten

section
variable {disk : Disk} {full : List (List UInt8)} {current part : List UInt8}
  {events : List (List UInt8)}

theorem wp_attempt_fileLen {ε : Type} {E : ε → Disk → Prop} {ordinal : Nat} :
    (attempt (fileLen sys ordinal)).wp (fun len after => after.segments = disk.segments ∧
        ∀ n, len.toOption = some n → n = (disk.content ordinal).length) E disk := by
  rw [wp_attempt]
  refine (keeps_fileLen ordinal).wp (fun _ _ hok hsegments => ⟨hsegments, ?_⟩)
    fun _ _ hsegments => ⟨hsegments, ?_⟩
  · rintro n ⟨⟩
    exact (fileLen_eq_ok hok).symm
  · rintro n ⟨⟩

theorem wp_cleanup (hsegments : disk.segments = full ++ [current ++ part]) {retained : Nat}
    (hretained : retained ≤ part.length) :
    (cleanupIncompleteSuffix sys (full.length + 1) (current.length + retained)).wp
      (fun _ after => after.segments = full ++ [current ++ part.take retained])
      (fun _ after => after.segments = full ++ [current ++ part] ∨
        after.segments = full ++ [current ++ part.take retained]) disk := by
  have hcut : ∀ calls, (({ disk with calls := calls } : Disk).setContent (full.length + 1)
      ((current ++ part).take (current.length + retained) ++
        List.replicate (current.length + retained - (current ++ part).length) 0)).segments =
      full ++ [current ++ part.take retained] := by
    intro calls
    have hcalls : ({ disk with calls := calls } : Disk).segments = full ++ [current ++ part] :=
      hsegments
    rw [setContent_last hcalls, take_length_add_append, length_append,
      Nat.sub_eq_zero_of_le (by omega), replicate_zero, append_nil]
  have hcontent : ∀ calls, ({ disk with calls := calls } : Disk).content (full.length + 1) =
      current ++ part := fun calls => content_last hsegments
  simp only [cleanupIncompleteSuffix, setLen, wp_bind, wp_call, wp_change, hcontent]
  refine ⟨fun _ => ⟨fun _ => ?_, fun _ _ => .inr ?_⟩, fun _ _ => .inl hsegments⟩
  · exact hcut _
  · exact hcut _

/-- What is left of a failed write that is to be cut back to its first `count` records. -/
theorem wp_failedWrite {count : Nat} (hcount : count ≤ events.length) (path source : String)
    {rollback : Except String Unit} (hpart : part <+: events.flatten)
    (hsegments : disk.segments = full ++ [current ++ part])
    (hrollback : rollback = .ok () → part = (events.take count).flatten) :
    (failedWrite sys path source (full.length + 1)
      (current.length + (events.take count).flatten.length) count rollback).wp (fun _ _ => False)
      (fun failure after => Wrote full current events failure after.segments) disk := by
  cases rollback with
  | ok =>
    refine ⟨part, hpart, hsegments, fun reported hreported => ?_⟩
    cases hreported
    exact ⟨hcount, hrollback rfl⟩
  | error rollback =>
    simp only [failedWrite, wp_bind]
    refine wp_attempt_fileLen.mono_ok ?_
    rintro len after ⟨hafter, hlen⟩
    refine ⟨part, hpart, hafter.trans hsegments, fun reported hreported => ?_⟩
    split at hreported
    case isTrue hretained =>
      cases hreported
      have hlength := hlen _ hretained
      rw [content_last hsegments, length_append, add_left_cancel_iff] at hlength
      refine ⟨hcount, ?_⟩
      rw [← take_flatten_take, hlength]
      exact prefix_iff_eq_take.mp hpart
    case isFalse => cases hreported

theorem wp_cleanupFailedWrite (hsegments : disk.segments = full ++ [current ++ part])
    (hpart : part <+: events.flatten) (hlt : current.length + events.flatten.length < 2 ^ 64)
    (path source : String) :
    (cleanupFailedWrite sys path (full.length + 1) current.length events
      (cleanupIncompleteSuffix sys (full.length + 1)) source).wp
      (fun _ _ => False) (fun failure after => Wrote full current events failure after.segments)
      disk := by
  rw [cleanupFailedWrite, wp_bind]
  refine wp_attempt_fileLen.mono_ok ?_
  rintro len mid ⟨hmid, hlen⟩
  have hwritten : len.toOption.getD current.length - current.length ≤ part.length := by
    cases hknown : len.toOption with
    | none => simp
    | some n => simp [hlen n hknown, content_last hsegments]
  -- The cleanup keeps the complete records among the bytes that are known to be written.
  obtain ⟨count, hcount, hlength, hlast, hle⟩ :=
    takeWhile_completePrefixes _ events 0 (zero_le (len.toOption.getD current.length - current.length))
  rw [zero_add] at hlast hle
  have hpartLength := hpart.length_le
  dsimp only
  rw [hlast, hlength, saturatingAdd_of_lt (by omega), wp_bind, wp_attempt]
  have hcut : part.take (events.take count).flatten.length = (events.take count).flatten := by
    obtain ⟨rest, hrest⟩ := hpart
    rw [← take_flatten_take, ← hrest, take_append_of_le_length (by omega)]
    simp
  have hprefix := ( take_prefix (events.take count).flatten.length part).trans hpart
  refine (wp_cleanup (hmid.trans hsegments) (hle.trans hwritten)).mono ?_ ?_
  · exact fun _ after hafter => wp_failedWrite hcount path source hprefix hafter fun _ => hcut
  · rintro rollback after (hafter | hafter)
    · exact wp_failedWrite hcount path source hpart hafter (by simp)
    · exact wp_failedWrite hcount path source hprefix hafter (by simp)

theorem wp_writeAll (hsegments : disk.segments = full ++ [current]) (bytes : List UInt8) :
    (writeAll sys (full.length + 1) bytes).wp
      (fun _ after => after.segments = full ++ [current ++ bytes])
      (fun _ after => ∃ part, part <+: bytes ∧ after.segments = full ++ [current ++ part]) disk := by
  unfold Fallible.wp writeAll
  simp only [content_last hsegments]
  rcases sys.write disk.calls with _ | ⟨written, source⟩
  · exact setContent_last hsegments _
  · exact ⟨_, take_prefix _ _, setContent_last hsegments _⟩

/-- A batch is written whole, or the failure tells what is left of it. -/
theorem wp_appendNativeEventBatchWith (hsegments : disk.segments = full ++ [current])
    (hlt : current.length + events.flatten.length < 2 ^ 64) (path : String) :
    (appendNativeEventBatchWith sys path (full.length + 1) current.length events
      (writeAll sys (full.length + 1)) (cleanupIncompleteSuffix sys (full.length + 1))).wp
      (fun _ after => after.segments = full ++ [current ++ events.flatten])
      (fun failure after => Wrote full current events failure after.segments) disk := by
  unfold appendNativeEventBatchWith
  simp only [wp_bind, wp_mapError, wp_call, wp_attempt]
  refine ⟨fun _ => ?_, fun source _ => ?_⟩
  · refine (wp_writeAll (by exact hsegments) events.flatten).mono ?_ ?_
    · intro _ after hafter
      exact hafter
    · rintro source after ⟨part, hpart, hafter⟩
      exact (wp_cleanupFailedWrite hafter hpart hlt path source).mono (fun _ _ hfalse => hfalse.elim)
        fun _ _ hwrote => hwrote
  · refine ⟨[], nil_prefix, by simpa using hsegments, ?_⟩
    intro count hcount
    cases hcount
    exact ⟨zero_le _, rfl⟩

end

namespace SessionLogAppender

/-! ## One batch -/

variable {available total maxTotal : Nat} {event : List UInt8}

/-- A batch that is filled from the front fits the segment and the limits. -/
theorem fillBatch_spec (havailable : available < 2 ^ 64 - 1)
    (hlt : total + available < 2 ^ 64) (events : List (List UInt8)) (start : Nat)
    (hstart : start ≤ available) (htotal : total + start ≤ maxTotal) :
    (fillBatch available total maxTotal start events).1 ≤ events.length ∧
    (fillBatch available total maxTotal start events).2 = start +
      (events.take (fillBatch available total maxTotal start events).1).flatten.length ∧
    (fillBatch available total maxTotal start events).2 ≤ available ∧
    total + (fillBatch available total maxTotal start events).2 ≤ maxTotal := by
  induction events generalizing start with
  | nil => exact ⟨le_rfl, rfl, hstart, htotal⟩
  | cons event events ih =>
    unfold fillBatch
    simp only
    split
    case isTrue => exact ⟨zero_le _, rfl, hstart, htotal⟩
    case isFalse hfits =>
      simp only [not_or, not_lt] at hfits
      have hcandidate := le_of_saturatingAdd_le hfits.1 havailable
      rw [saturatingAdd_of_lt (by omega)] at hfits ⊢
      rw [saturatingAdd_of_lt (by omega)] at hfits
      obtain ⟨hcount, hbytes, hle, hall⟩ := ih _ hfits.1 hfits.2
      refine ⟨succ_le_succ hcount, ?_, hle, hall⟩
      rw [take_succ_cons, flatten_cons, length_append]
      omega

theorem fillBatch_pos (events : List (List UInt8)) (hevent : event.length ≤ available)
    (htotal : total + event.length ≤ maxTotal) (hlt : total + event.length < 2 ^ 64) :
    0 < (fillBatch available total maxTotal 0 (event :: events)).1 := by
  unfold fillBatch
  simp only
  rw [saturatingAdd_of_lt (by omega), zero_add, saturatingAdd_of_lt hlt, if_neg (by omega)]
  exact succ_pos _

/-- Each record ends with a line feed. -/
def LfTerminated (events : List (List UInt8)) : Prop := ∀ event ∈ events, event.getLast? = some 10
  deriving Decidable

variable {events : List (List UInt8)} {log : List UInt8} {appender : SessionLogAppender}
    {base : AnchoredFile} {watch : Bool}

theorem LfTerminated.flatten (h : LfTerminated events) :
    events.flatten = [] ∨ events.flatten.getLast? = some 10 := by
  rcases eq_nil_or_concat events with rfl | ⟨first, last, rfl⟩
  · exact .inl rfl
  · have hlast := h last (by simp)
    exact .inr (by simp [hlast])

theorem LfTerminated.take (h : LfTerminated events) (count : Nat) :
    LfTerminated (events.take count) := fun event hmem => h event (mem_of_mem_take hmem)

theorem LfTerminated.drop (h : LfTerminated events) (count : Nat) :
    LfTerminated (events.drop count) := fun event hmem => h event (mem_of_mem_drop hmem)

theorem foldl_saturatingAdd (sizes : List Nat) (start : Nat) (h : start + sizes.sum < 2 ^ 64) :
    sizes.foldl saturatingAdd start = start + sizes.sum := by
  induction sizes generalizing start with
  | nil => rfl
  | cons size sizes ih =>
    rw [sum_cons] at h ⊢
    rw [foldl_cons, saturatingAdd_of_lt (by omega), ih _ (by omega), add_assoc]

/-- The batch reached the files up to `part`: the failure tells how many records that is, and the
    appender counts them; or it does not tell and the appender does not count. -/
theorem wp_writeBatch (h : session.Holds limits layout [])
    {batch : List (List UInt8)} (hlines : LfTerminated batch)
    (hsize : layout.current.length + batch.flatten.length ≤ maxSessionSegmentBytes)
    (htotal : layout.bytes.length + batch.flatten.length ≤ limits.maxTotalBytes)
    (path : AnchoredFile) (committed : Nat) :
    (writeBatch sys path committed batch.flatten.length batch).wp (fun _ after => after.Holds limits
        { layout with current := layout.current ++ batch.flatten } [])
      (fun failure after =>
        (∃ count ≤ batch.length, failure.committedEvents = some (committed + count) ∧
          after.Holds limits
            { layout with current := layout.current ++ (batch.take count).flatten } []) ∨
        ∃ part, part <+: batch.flatten ∧ failure.committedEvents = none ∧
          after.Holds limits layout part) session := by
  have hlt := h.bytes_lt
  have hsegments := h.segments
  rw [append_nil] at hsegments
  unfold writeBatch
  simp only [wp_bind, wp_read, wp_attempt, onDisk, wp_zoom, h.currentOrdinal, h.currentBytes]
  refine (wp_appendNativeEventBatchWith hsegments (by omega) path.diagnosticPath).mono ?_ ?_
  · intro _ after hafter
    have hgrown := h.grow hlines.flatten hsize htotal
    rw [← hafter] at hgrown
    exact hgrown
  · rintro ⟨reported, error⟩ after ⟨part, hpart, hafter, hreported⟩
    have hpartLength := hpart.length_le
    cases reported with
    | none =>
      have htorn : Stored limits session.appender (layout.full ++ [layout.current ++ part]) layout
          part := h.tear (by omega) (by omega)
      rw [← hafter] at htorn
      exact .inr ⟨part, hpart, rfl, htorn⟩
    | some count =>
      obtain ⟨hcount, rfl⟩ := hreported count rfl
      have hsum : ((batch.take count).map List.length).foldl saturatingAdd 0 =
          (batch.take count).flatten.length := by
        rw [foldl_saturatingAdd, zero_add, length_flatten]
        rw [← length_flatten]
        omega
      have hgrown := h.grow (hlines.take count).flatten (by omega) (by omega)
      rw [← hafter, ← hsum] at hgrown
      exact .inl ⟨count, hcount, rfl, hgrown⟩

/-- What a failed batch leaves behind, when `committed` records came before it: some of its
    records, and a torn suffix that was not there before only if the failure does not tell how
    many records. -/
def Appended (sys : System) (limits : SessionStreamLimits) (log torn : List UInt8)
    (committed : Nat) (events : List (List UInt8)) (failure : BatchAppendFailure)
    (after : Session) : Prop :=
  ∃ count ≤ events.length, ∃ layout torn', layout.bytes = log ++ (events.take count).flatten ∧
    Leaves sys limits layout torn' after ∧
    ∀ reported, failure.committedEvents = some reported → reported = committed + count ∧ torn' = torn

variable (sys) in
/-- A round commits at least one record, or fails. -/
theorem wp_appendRound (h : StoresLog limits session log torn)
    (hlines : LfTerminated (event :: events)) (committed : Nat) :
    (appendRound sys committed event events).wp
      (fun count after => torn = [] ∧ 0 < count ∧ count ≤ (event :: events).length ∧
        StoresLog limits after (log ++ ((event :: events).take count).flatten) [])
      (fun failure after => Appended sys limits log torn committed (event :: events) failure after)
      session := by
  obtain ⟨layout, hstored, rfl⟩ := h
  unfold appendRound
  simp only [wp_bind, wp_read, wp_mapError]
  refine (wp_rotateBefore hstored event.length).mono ?_ ?_
  swap
  · rintro error after (hafter | ⟨rfl, hafter⟩)
    all_goals
      refine ⟨0, zero_le _, _, _, by simp, hafter, fun reported hreported => ?_⟩
      cases hreported
      exact ⟨rfl, rfl⟩
  rintro path mid ⟨rfl, hmid, hevent, hlimit⟩
  have hbytes := layout.bytes_next event.length
  generalize layout.next event.length = layout' at hmid hevent hbytes
  have hlt := hmid.bytes_lt
  have htotal := hmid.total
  rw [append_nil] at htotal
  simp only [hmid.currentBytes, hmid.totalBytes, hmid.sameLimits]
  have hfill := fillBatch_spec (show maxSessionSegmentBytes - layout'.current.length < 2 ^ 64 - 1 by
      unfold maxSessionSegmentBytes; omega)
    (show layout'.bytes.length + (maxSessionSegmentBytes - layout'.current.length) < 2 ^ 64 by omega)
    (event :: events) 0 (zero_le _) htotal
  have hpos := fillBatch_pos events
    (show event.length ≤ maxSessionSegmentBytes - layout'.current.length by omega)
    (hbytes ▸ hlimit) (show layout'.bytes.length + event.length < 2 ^ 64 by omega)
  rw [zero_add] at hfill
  obtain ⟨hcount, hbatch, havailable, hall⟩ := hfill
  rw [hbatch] at havailable hall ⊢
  refine (wp_writeBatch hmid (hlines.take _) (by omega) hall path committed).mono ?_ ?_
  · intro _ after hafter
    exact ⟨trivial, hpos, hcount, _, hafter, by rw [Layout.bytes_append, hbytes]⟩
  · rintro failure after (⟨count, hle, hreported, hafter⟩ | ⟨part, hpart, hreported, hafter⟩)
    · rw [length_take] at hle
      rw [take_take, min_eq_left (hle.trans (min_le_left _ _))] at hafter
      refine ⟨count, hle.trans (min_le_right _ _), _, [], ?_, .of_stored hafter, ?_⟩
      · rw [Layout.bytes_append, hbytes]
      · intro reported heq
        rw [hreported] at heq
        cases heq
        exact ⟨rfl, rfl⟩
    · refine ⟨0, zero_le _, layout', part, by simp [hbytes], .of_stored hafter, ?_⟩
      intro reported heq
      rw [hreported] at heq
      cases heq

/-! ## Runs -/

variable (sys) in
/-- The loop ends, since every round commits a record. -/
theorem appendLoop_spec (rounds committed : Nat)
    (hrounds : events.length ≤ rounds) (hlines : LfTerminated events)
    (h : StoresLog limits session log torn) :
    ∃ result after, appendLoop sys rounds committed events session = some (result, after) ∧
      (result = .ok () → StoresLog limits after (log ++ events.flatten) torn) ∧
      ∀ failure, result = .error failure →
        Appended sys limits log torn committed events failure after := by
  induction rounds generalizing committed events session log with
  | zero =>
    obtain rfl := length_eq_zero_iff.mp (le_zero.mp hrounds)
    exact ⟨.ok (), session, rfl, fun _ => by simpa using h, fun _ hfail => by cases hfail⟩
  | succ rounds ih =>
    cases events with
    | nil => exact ⟨.ok (), session, rfl, fun _ => by simpa using h, fun _ hfail => by cases hfail⟩
    | cons event events =>
      have hround := wp_appendRound sys h hlines committed
      unfold appendLoop
      unfold Fallible.wp at hround
      rcases hresult : appendRound sys committed event events session with ⟨failure | count, mid⟩
      · rw [hresult] at hround
        refine ⟨.error failure, mid, rfl, fun hok => (by cases hok), ?_⟩
        intro _ heq
        cases heq
        exact hround
      · rw [hresult] at hround
        obtain ⟨rfl, hpos, hcount, hmid⟩ := hround
        rw [length_cons] at hrounds
        obtain ⟨result, after, hloop, hok, herror⟩ := ih (committed + count)
          (show ((event :: events).drop count).length ≤ rounds by
            rw [length_drop, length_cons]; omega)
          (hlines.drop count) hmid
        refine ⟨result, after, ?_, ?_, ?_⟩
        · simp only [if_neg hpos.ne', hloop]
        · intro hresult
          have hafter := hok hresult
          rwa [append_assoc, ← flatten_append, take_append_drop] at hafter
        · intro failure hfailure
          obtain ⟨more, hmore, layout, torn', hbytes, hafter, hreported⟩ := herror failure hfailure
          rw [append_assoc, ← flatten_append, ← take_add] at hbytes
          rw [length_drop] at hmore
          refine ⟨count + more, by omega, layout, torn', hbytes, hafter, ?_⟩
          intro reported heq
          obtain ⟨rfl, htorn⟩ := hreported reported heq
          exact ⟨by omega, htorn⟩

/-- The records of a batch that its report calls committed. -/
def committedRecords (report : Except BatchAppendFailure Unit) (events : List (List UInt8)) :
    List (List UInt8) :=
  match report with
  | .ok () => events
  | .error failure => events.take (failure.committedEvents.getD 0)

/-- The report tells how many records were committed. -/
def Known (report : Except BatchAppendFailure Unit) : Prop :=
  ∀ failure, report = .error failure → failure.committedEvents ≠ none

variable {batches : List (List (List UInt8))} {current : List UInt8}

/-- All batches return. As long as every report tells what was committed, the files hold exactly
    that; afterwards they hold a torn suffix at most. -/
theorem appendBatches_spec (hrotates : Rotates sys)
    (hlines : ∀ events ∈ batches, LfTerminated events) (h : StoresLog limits session log torn) :
    ∃ reports after, appendBatches sys batches session = some (reports, after) ∧
      reports.length = batches.length ∧
      (∃ log' torn', StoresLog limits after log' torn') ∧
      ((∀ report ∈ reports, Known report) → StoresLog limits after
        (log ++ (List.zipWith committedRecords reports batches).flatten.flatten) torn) := by
  induction batches generalizing session log torn with
  | nil => exact ⟨[], session, rfl, rfl, ⟨log, torn, h⟩, fun _ => by simpa using h⟩
  | cons events batches ih =>
    obtain ⟨report, mid, hbatch, hok, herror⟩ := appendLoop_spec sys events.length 0 le_rfl
      (hlines events mem_cons_self) h
    have hrest : ∀ batch ∈ batches, LfTerminated batch := (forall_mem_cons.mp hlines).2
    -- What the report says about its batch is what the files hold.
    have hmid : ∃ log' torn', StoresLog limits mid log' torn' ∧ (Known report →
        log' = log ++ (committedRecords report events).flatten ∧ torn' = torn) := by
      cases report with
      | ok => exact ⟨_, torn, hok rfl, fun _ => ⟨rfl, rfl⟩⟩
      | error failure =>
        obtain ⟨count, -, layout, torn', hbytes, hafter, hreported⟩ := herror failure rfl
        refine ⟨_, torn', ⟨layout, hafter.2 hrotates, hbytes⟩, fun hknown => ?_⟩
        obtain ⟨reported, heq⟩ := Option.ne_none_iff_exists'.mp (hknown failure rfl)
        obtain ⟨rfl, htorn⟩ := hreported reported heq
        rw [committedRecords, heq, zero_add]
        exact ⟨rfl, htorn⟩
    obtain ⟨log', torn', hholds, hknown⟩ := hmid
    obtain ⟨reports, after, hbatches, hlength, hafter, hall⟩ := ih hrest hholds
    refine ⟨report :: reports, after, ?_, by simp [hlength], hafter, ?_⟩
    · simp [appendBatches, appendBatch, hbatch, hbatches]
    · intro hreports
      obtain ⟨rfl, rfl⟩ := hknown (hreports report mem_cons_self)
      have hlast := hall (forall_mem_cons.mp hreports).2
      simpa using hlast

/-! ## Opening -/

theorem inspectSegment_eq_ok {segment : AnchoredFile} {final : Bool} {bytes : List UInt8}
    (h : inspectSegment segment final bytes = .ok ()) :
    bytes.length ≤ maxSessionSegmentBytes ∧
      (bytes = [] ∧ final = true ∨ bytes.getLast? = some 10) := by
  rw [inspectSegment, check_bind_eq_ok, refuseIf_eq_ok, not_lt] at h
  refine ⟨h.1, ?_⟩
  obtain ⟨-, h⟩ := h
  split at h
  case isTrue hnil => exact .inl ⟨hnil, by simpa using h⟩
  case isFalse hne => exact .inr (by simpa using h)

theorem saturatingAdd_segment {start ordinal bytes : Nat}
    (hstart : start ≤ ordinal * maxSessionSegmentBytes) (hordinal : ordinal ≤ maxSegmentOrdinal)
    (hbytes : bytes ≤ maxSessionSegmentBytes) : saturatingAdd start bytes = start + bytes := by
  refine saturatingAdd_of_lt ?_
  simp only [maxSessionSegmentBytes, maxSegmentOrdinal] at *
  omega

theorem inspectSegments_eq_ok
    (full : List (List UInt8)) (ordinal start : Nat)
    (h : inspectSegments base ordinal start (full ++ [current]) = .ok total)
    (hstart : start ≤ ordinal * maxSessionSegmentBytes) :
    (∀ segment ∈ full, segment.getLast? = some 10) ∧
      (∀ segment ∈ full, segment.length ≤ maxSessionSegmentBytes) ∧
      (current = [] ∨ current.getLast? = some 10) ∧ current.length ≤ maxSessionSegmentBytes ∧
      ordinal + full.length ≤ maxSegmentOrdinal ∧
      total = start + full.flatten.length + current.length := by
  induction full generalizing ordinal start with
  | nil =>
    simp only [nil_append, inspectSegments, bind_eq_ok] at h
    obtain ⟨segment, hpath, _, hinspect, htotal⟩ := h
    obtain ⟨hsize, hlast⟩ := inspectSegment_eq_ok hinspect
    have hle := segmentedJsonlPath_eq_ok hpath
    rw [saturatingAdd_segment hstart hle hsize, Except.ok.injEq] at htotal
    exact ⟨by simp, by simp, hlast.imp And.left id, hsize, hle, by simp [← htotal]⟩
  | cons bytes rest ih =>
    simp only [cons_append, inspectSegments, bind_eq_ok] at h
    obtain ⟨segment, hpath, _, hinspect, hrest⟩ := h
    obtain ⟨hsize, hlast⟩ := inspectSegment_eq_ok hinspect
    have hlines : bytes.getLast? = some 10 := by
      refine hlast.resolve_left ?_
      rintro ⟨-, hfinal⟩
      simp at hfinal
    rw [saturatingAdd_segment hstart (segmentedJsonlPath_eq_ok hpath) hsize] at hrest
    have hnext : start + bytes.length ≤ (ordinal + 1) * maxSessionSegmentBytes := by
      rw [succ_mul]
      omega
    obtain ⟨hfull, hsizes, hcurrent, hcurrentSize, hordinals, htotal⟩ := ih _ _ hrest hnext
    refine ⟨?_, ?_, hcurrent, hcurrentSize, ?_, ?_⟩
    · exact forall_mem_cons.mpr ⟨hlines, hfull⟩
    · exact forall_mem_cons.mpr ⟨hsize, hsizes⟩
    · rw [length_cons]
      omega
    · rw [flatten_cons, length_append]
      omega

/-- The inventory of the files of a log, and what it says about them. -/
theorem sessionStreamInventory_eq_ok {full : List (List UInt8)}
    (h : sessionStreamInventory base limits watch (full ++ [current]) = .ok appender) :
    Stored limits appender (full ++ [current]) ⟨full, current⟩ [] ∧
      appender.sealedSegments = full.map List.length ∧ appender.basePath = base := by
  rw [sessionStreamInventory, check_bind_eq_ok, refuseIf_eq_ok, bind_eq_ok] at h
  obtain ⟨hcount, total, hinspect, h⟩ := h
  rw [check_bind_eq_ok] at h
  obtain ⟨htotal, h⟩ := h
  cases h
  obtain ⟨hfull, hsizes, hcurrent, hcurrentSize, hordinals, rfl⟩ :=
    inspectSegments_eq_ok full 1 0 hinspect (zero_le _)
  refine ⟨⟨?_, rfl, by simp, by simp, by simp [Layout.bytes]⟩, by simp, rfl⟩
  constructor
  case segments => simp
  case fullLines => exact hfull
  case fullSizes => exact hsizes
  case currentLines => exact hcurrent
  case currentSize => simpa using hcurrentSize
  case total => simpa [Layout.bytes] using htotal
  case count =>
    rw [length_append, length_singleton] at hcount
    change full.length + 1 ≤ max 1 limits.maxSegments
    omega
  case ordinals =>
    change full.length + 1 ≤ maxSegmentOrdinal
    omega

variable {disk opened : Disk}

/-- A log is opened with the inventory of its files. -/
theorem openWithLimits_eq_ok
    (h : openWithLimits sys base limits watch disk = (.ok appender, opened)) :
    disk.segments ≠ [] ∧ sessionStreamInventory base limits watch disk.segments = .ok appender ∧
      opened.segments = disk.segments := by
  obtain ⟨_, _, hread, h⟩ := bind_apply_eq_ok.mp h
  cases hread
  split at h
  case isTrue => cases h
  case isFalse hne =>
    obtain ⟨inventory, _, hlift, h⟩ := bind_apply_eq_ok.mp h
    obtain ⟨_, mid, hcall, h⟩ := bind_apply_eq_ok.mp h
    obtain ⟨_, last, hverify, h⟩ := bind_apply_eq_ok.mp h
    cases h
    refine ⟨hne, (Prod.mk.inj hlift).1, ?_⟩
    rw [(keeps_verifyCurrentSegment appender).of_ok hverify, (Keeps.call _).of_ok hcall,
      (Prod.mk.inj hlift).2]

/-- An opened log is stored, without a torn suffix. -/
theorem storesLog_openWithLimits
    (h : openWithLimits sys base limits watch disk = (.ok appender, opened)) :
    StoresLog limits ⟨appender, opened⟩ disk.segments.flatten [] := by
  obtain ⟨hne, hinventory, hopened⟩ := openWithLimits_eq_ok h
  obtain ⟨full, current, hsegments⟩ := eq_nil_or_concat disk.segments |>.resolve_left hne
  rw [concat_eq_append] at hsegments
  rw [hsegments] at hinventory hopened ⊢
  refine ⟨⟨full, current⟩, ?_, by simp [Layout.bytes]⟩
  rw [Session.Holds, hopened]
  exact (sessionStreamInventory_eq_ok hinventory).1

/-! ## Results -/

/-- The appender's counters are those of the files. -/
structure Describes (appender : SessionLogAppender) (segments : List (List UInt8)) : Prop where
  currentBytes : appender.currentBytes = (segments.getLastD []).length
  totalBytes : appender.totalBytes = segments.flatten.length
  currentOrdinal : appender.currentOrdinal = segments.length

/-- What readers of a segmented log rely on. -/
structure WithinLimits (limits : SessionStreamLimits) (segments : List (List UInt8)) : Prop where
  sizes : ∀ segment ∈ segments, segment.length ≤ maxSessionSegmentBytes
  lines : ∀ segment ∈ segments.dropLast, segment ≠ [] ∧ segment.getLast? = some 10
  total : segments.flatten.length ≤ limits.maxTotalBytes
  count : segments.length ≤ max 1 limits.maxSegments

theorem storesLog_withinLimits (h : StoresLog limits session log torn) :
    WithinLimits limits session.disk.segments := by
  obtain ⟨layout, hstored, rfl⟩ := h
  rw [hstored.segments]
  constructor
  case sizes =>
    intro segment hmem
    rcases mem_append.mp hmem with hmem | hmem
    · exact hstored.fullSizes segment hmem
    · rw [mem_singleton.mp hmem]
      exact hstored.currentSize
  case lines =>
    intro segment hmem
    rw [dropLast_concat] at hmem
    have hlast := hstored.fullLines segment hmem
    refine ⟨?_, hlast⟩
    rintro rfl
    cases hlast
  case total => simpa [Layout.bytes] using hstored.total
  case count => simpa using hstored.count

theorem storesLog_describes (h : StoresLog limits session log []) :
    session.disk.segments.flatten = log ∧ Describes session.appender session.disk.segments := by
  obtain ⟨layout, hstored, rfl⟩ := h
  have hsegments := hstored.segments
  rw [hsegments]
  refine ⟨by simp [Layout.bytes], ?_, ?_, ?_⟩
  · simp [hstored.currentBytes]
  · simp [hstored.totalBytes, Layout.bytes]
  · simp [hstored.currentOrdinal]

/-- A log with a torn suffix is not written to. -/
theorem appendBatch_torn (h : StoresLog limits session log torn) (htorn : torn ≠ [])
    (hevents : events ≠ []) :
    ∃ failure after, appendBatch sys events session = some (.error failure, after) ∧
      failure.committedEvents = some 0 ∧ after.disk.segments = session.disk.segments := by
  obtain ⟨layout, hstored, rfl⟩ := h
  obtain ⟨event, rest, rfl⟩ := exists_cons_of_ne_nil hevents
  have hround : (appendRound sys 0 event rest).wp (fun _ _ => False)
      (fun failure after => failure.committedEvents = some 0 ∧
        after.disk.segments = session.disk.segments) session := by
    unfold appendRound rotateBefore
    simp only [wp_bind, wp_mapError]
    refine wp_verifySession ?_ ?_
    · intro _ _ _ _ hlen
      exact absurd (hstored.torn_eq_nil hlen) htorn
    · intro _ after _ hsegments
      exact ⟨trivial, hsegments⟩
  unfold Fallible.wp at hround
  rcases hresult : appendRound sys 0 event rest session with ⟨failure | count, after⟩ <;>
    rw [hresult] at hround
  · exact ⟨failure, after, by simp only [appendBatch, length_cons, appendLoop, hresult], hround⟩
  · exact hround.elim

/-- Any number of batches, whatever the system answers to writes and cleanups: every batch
    returns and the files stay within the limits. As long as every report tells what was
    committed, the files hold exactly the committed records and the appender describes them.
    An appender that no longer describes its files writes nothing. -/
theorem appendBatches_exact (hsync : ∀ n, sys.syncParent n = none)
    (hopenAppend : ∀ n, sys.openAppend n = none) {base : AnchoredFile} {watch : Bool}
    {appender : SessionLogAppender}
    (hopen : openWithLimits sys base limits watch disk = (.ok appender, opened))
    (hlines : ∀ events ∈ batches, LfTerminated events) :
    ∃ reports after, appendBatches sys batches ⟨appender, opened⟩ = some (reports, after) ∧
      reports.length = batches.length ∧ WithinLimits limits after.disk.segments ∧
      ((∀ report ∈ reports, Known report) → after.disk.segments.flatten = disk.segments.flatten ++
          (List.zipWith committedRecords reports batches).flatten.flatten ∧
        Describes after.appender after.disk.segments) ∧
      (¬ Describes after.appender after.disk.segments → ∀ events, events ≠ [] →
        ∃ failure last, appendBatch sys events after = some (.error failure, last) ∧
          failure.committedEvents = some 0 ∧ last.disk.segments = after.disk.segments) := by
  obtain ⟨reports, after, hrun, hlength, ⟨log, torn, hafter⟩, hknown⟩ :=
    appendBatches_spec ⟨hsync, hopenAppend⟩ hlines (storesLog_openWithLimits hopen)
  refine ⟨reports, after, hrun, hlength, storesLog_withinLimits hafter,
    fun hall => storesLog_describes (hknown hall), ?_⟩
  intro hstale events hevents
  refine appendBatch_torn hafter ?_ hevents
  rintro rfl
  exact hstale (storesLog_describes hafter).2

end SessionLogAppender

end

/-! ### Two runs with a failing write -/

/-- The first write fails after one byte; the calls numbered in `cleanups` fail as well. -/
def shortWrite (cleanups : List Nat) : System where
  write n := if n = 6 then some (1, "No space left on device") else none
  seek _ := none
  setLen n := if n ∈ cleanups then some "Input/output error" else none
  syncAll _ := none
  metadata _ := none
  verifyOwned _ := none
  changed _ := .ok false
  reserve _ := none
  syncParent _ := none
  openAppend _ := none

def sampleLog : AnchoredFile := ⟨"session", "events.jsonl"⟩

def sampleLimits : SessionStreamLimits := ⟨2, 100⟩

/-- The appender of the empty sample log. -/
def sampleAppender : SessionLogAppender :=
  { basePath := sampleLog, currentBytes := 0, currentOrdinal := 1, inventoryWatch := false
    limits := sampleLimits, sealedSegments := [], totalBytes := 0 }

namespace SessionLogAppender

theorem openWithLimits_sample (cleanups : List Nat) :
    openWithLimits (shortWrite cleanups) sampleLog sampleLimits false ⟨[[]], 0⟩ =
      (.ok sampleAppender, ⟨[[]], 3⟩) := by
  rfl

/-- The incomplete record is cut off and the log goes on. -/
theorem appendBatches_exact_short_write :
    ∃ reports after, appendBatches (shortWrite []) [[[65, 10]], [[66, 10]]]
        ⟨sampleAppender, ⟨[[]], 3⟩⟩ = some (reports, after) ∧
      reports.length = 2 ∧ WithinLimits sampleLimits after.disk.segments ∧
      ((∀ report ∈ reports, Known report) → after.disk.segments.flatten = [] ++
          (List.zipWith committedRecords reports [[[65, 10]], [[66, 10]]]).flatten.flatten ∧
        Describes after.appender after.disk.segments) ∧
      (¬ Describes after.appender after.disk.segments → ∀ events, events ≠ [] →
        ∃ failure last, appendBatch (shortWrite []) events after = some (.error failure, last) ∧
          failure.committedEvents = some 0 ∧ last.disk.segments = after.disk.segments) :=
  appendBatches_exact (fun _ => rfl) (fun _ => rfl) (openWithLimits_sample []) (by decide)

/-- When the cleanup fails too, the first report tells nothing and the appender's counters are
    behind the file. The second report tells that no record was committed, and it is right, but
    the file does not hold the committed records: it holds a torn one. -/
theorem torn_record_after_failed_cleanup :
    ∃ first second error error' after,
      openWithLimits (shortWrite [8]) sampleLog sampleLimits false ⟨[[]], 0⟩ =
        (.ok sampleAppender, ⟨[[]], 3⟩) ∧
      appendBatches (shortWrite [8]) [[[65, 10]], [[66, 10]]] ⟨sampleAppender, ⟨[[]], 3⟩⟩ =
        some ([first, second], after) ∧
      first = .error ⟨none, error⟩ ∧ second = .error ⟨some 0, error'⟩ ∧
      after.disk.segments = [[65]] ∧ after.appender.currentBytes = 0 ∧
      after.appender.totalBytes = 0 := by
  refine ⟨_, _, _, _, _, openWithLimits_sample [8], rfl, rfl, rfl, rfl, rfl, rfl⟩

end SessionLogAppender

end Watershed.FlowAgent
