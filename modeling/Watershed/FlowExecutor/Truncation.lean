/-
  Output that is cut, and how such a run is classified.

  The trigger of a run is a function of what was observed: there is none while nothing disturbed the
  command, and it is the exit if the command ended by itself and nothing failed afterwards. Output
  that passes its cap after that does not change the trigger.
-/
import Mathlib.Data.Fintype.Basic
import Watershed.FlowExecutor.Supervision

namespace Watershed.FlowExecutor

open Watershed.Proto.Executor List Supervision OutputCollector

/-! ## Collected output -/

namespace OutputCollector

/-- A collector after some polls. -/
def collect (limit : Nat) (ready : Bool) (results : List ReadResult) : OutputCollector :=
  results.foldl (poll limit) (new ready)

/-- The bytes that a stream gives until it ends or fails. -/
def seen : Bool → List ReadResult → List UInt8
  | true, .bytes [] :: _ => []
  | true, .bytes bytes :: results => bytes ++ seen true results
  | true, .pending :: results => seen true results
  | true, .failed :: _ => []
  | true, [] => []
  | false, _ => []

variable {limit : Nat} {ready : Bool}

variable (results : List ReadResult)
include results

theorem seen_false : seen false results = [] := by
  cases results <;> rfl

theorem collect_concat (result : ReadResult) :
    collect limit ready (results ++ [result]) = (collect limit ready results).poll limit result :=
  foldl_concat _ _ _ _

/-- The bytes that fit are kept; afterwards there is room only if all of them fitted. -/
theorem poll_seen (c : OutputCollector) (result : ReadResult) (hlimit : c.output.length ≤ limit) :
    (c.poll limit result).output.length ≤ limit ∧
    ((c.poll limit result).output ++ seen (c.poll limit result).reading results).take limit =
      (c.output ++ seen c.reading (result :: results)).take limit ∧
    ((c.poll limit result).overflow || decide (limit <
      ((c.poll limit result).output ++ seen (c.poll limit result).reading results).length)) =
      (c.overflow || decide (limit < (c.output ++ seen c.reading (result :: results)).length)) := by
  cases hreading : c.reading with
  | false => simp [poll, hreading, seen_false, hlimit]
  | true =>
    rcases result with (_ | ⟨byte, bytes⟩) | _ | _
    case bytes.cons =>
      have hseen : seen true (.bytes (byte :: bytes) :: results) =
          (byte :: bytes) ++ seen true results := rfl
      simp only [poll, hreading, if_true, hseen]
      generalize byte :: bytes = chunk
      by_cases hfit : chunk.length ≤ limit - c.output.length
      · rw [take_of_length_le hfit, append_assoc, decide_eq_false (not_lt.mpr hfit),
          Bool.or_false, length_append]
        exact ⟨by omega, rfl, rfl⟩
      · have hlength : limit ≤ (c.output ++ chunk).length := by
          rw [length_append]
          omega
        refine ⟨by simp; omega, ?_, ?_⟩
        · rw [take_append_of_le_length (by simp; omega), ← append_assoc,
            take_append_of_le_length hlength, take_append, take_append, take_take, Nat.min_self]
        · rw [decide_eq_true (not_le.mp hfit), decide_eq_true (show limit <
            (c.output ++ (chunk ++ seen true results)).length by simp; omega)]
          simp
    all_goals simp [poll, hreading, seen, seen_false, hlimit]

/-- What is kept is the part of the bytes within the limit, and an overflow says that there were
    more. -/
theorem foldl_poll (c : OutputCollector)
    (hlimit : c.output.length ≤ limit) :
    (results.foldl (poll limit) c).output = (c.output ++ seen c.reading results).take limit ∧
    (results.foldl (poll limit) c).overflow =
      (c.overflow || decide (limit < (c.output ++ seen c.reading results).length)) := by
  induction results generalizing c with
  | nil =>
    have hseen : seen c.reading [] = [] := by cases c.reading <;> rfl
    simp [hseen, hlimit]
  | cons result results ih =>
    obtain ⟨hwithin, houtput, hoverflow⟩ := poll_seen results c result hlimit
    rw [foldl_cons, ← houtput, ← hoverflow]
    exact ih _ hwithin

theorem output_collect :
    (collect limit ready results).output = (seen ready results).take limit :=
  (foldl_poll results (new ready) (Nat.zero_le _)).1

theorem overflow_collect :
    (collect limit ready results).overflow = decide (limit < (seen ready results).length) :=
  ((foldl_poll results (new ready) (Nat.zero_le _)).2).trans (Bool.false_or _)

theorem output_ne_seen :
    (collect limit ready results).output ≠ seen ready results ↔
      (collect limit ready results).overflow = true := by
  rw [output_collect, overflow_collect, decide_eq_true_iff, ne_eq, take_eq_self_iff]
  omega


omit results
end OutputCollector

/-! ## The trigger -/

/-- The limits of a run and whether its streams can be polled. -/
structure Setting where
  limits : Limits
  stdoutReady : Bool
  stderrReady : Bool

section
variable (setting : Setting) (observed : List Observation)

/-- The collector of a stream after some observations. -/
def Setting.stdout : OutputCollector :=
  .collect setting.limits.stdout setting.stdoutReady (observed.map (·.stdout))

def Setting.stderr : OutputCollector :=
  .collect setting.limits.stderr setting.stderrReady (observed.map (·.stderr))

def Failed : Bool :=
  (setting.stdout observed).failed || (setting.stderr observed).failed

/-- Nothing to end the run is seen in a turn before the child is asked. -/
structure QuietTurn (observed : List Observation) (o : Observation) : Prop where
  stdout : (setting.stdout (observed ++ [o])).overflow = false
  stderr : (setting.stderr (observed ++ [o])).overflow = false
  failed : Failed setting (observed ++ [o]) = false
  cancelled : o.cancelled = false
  deadline : o.now < setting.limits.deadline

/-- The command runs, and nothing has disturbed it. -/
inductive Undisturbed : List Observation → Prop where
  | nil : Undisturbed []
  | snoc {observed : List Observation} {o : Observation} (h : Undisturbed observed)
      (hquiet : QuietTurn setting observed o) (hwait : o.wait = .running) :
      Undisturbed (observed ++ [o])

/-- The command ended by itself with a status, before anything else could end the run, and no
    collector failed up to now. -/
inductive ExitedFirst (status : ExitStatus) : List Observation → Prop where
  | exit {observed : List Observation} {o : Observation} (h : Undisturbed setting observed)
      (hquiet : QuietTurn setting observed o) (hwait : o.wait = .exited status) :
      ExitedFirst status (observed ++ [o])
  | drain {observed : List Observation} {o : Observation} (h : ExitedFirst status observed)
      (hfailed : Failed setting (observed ++ [o]) = false) : ExitedFirst status (observed ++ [o])

variable {setting} {observed : List Observation} {o : Observation} {s : Supervision}

theorem undisturbed_concat : Undisturbed setting (observed ++ [o]) ↔
    Undisturbed setting observed ∧ QuietTurn setting observed o ∧ o.wait = .running := by
  constructor
  · generalize hall : observed ++ [o] = all
    rintro (_ | ⟨h, hquiet, hwait⟩)
    · simp at hall
    · obtain ⟨rfl, rfl⟩ := concat_inj.mp (by simpa using hall)
      exact ⟨h, hquiet, hwait⟩
  · exact fun ⟨h, hquiet, hwait⟩ => .snoc h hquiet hwait

theorem exitedFirst_concat {status : ExitStatus} : ExitedFirst setting status (observed ++ [o]) ↔
    (Undisturbed setting observed ∧ QuietTurn setting observed o ∧ o.wait = .exited status) ∨
      (ExitedFirst setting status observed ∧ Failed setting (observed ++ [o]) = false) := by
  constructor
  · generalize hall : observed ++ [o] = all
    rintro (⟨h, hquiet, hwait⟩ | ⟨h, hfailed⟩)
    all_goals obtain ⟨rfl, rfl⟩ := concat_inj.mp (by simpa using hall)
    · exact .inl ⟨h, hquiet, hwait⟩
    · exact .inr ⟨h, hfailed⟩
  · rintro (⟨h, hquiet, hwait⟩ | ⟨h, hfailed⟩)
    · exact .exit h hquiet hwait
    · exact .drain h hfailed

theorem Setting.stdout_concat : setting.stdout (observed ++ [o]) =
    (setting.stdout observed).poll setting.limits.stdout o.stdout := by
  rw [Setting.stdout, map_append, map_singleton, collect_concat]
  rfl

theorem Setting.stderr_concat : setting.stderr (observed ++ [o]) =
    (setting.stderr observed).poll setting.limits.stderr o.stderr := by
  rw [Setting.stderr, map_append, map_singleton, collect_concat]
  rfl

variable (stdoutCap stderrCap failed cancelled timedOut : Bool)

theorem selectReasons_none_eq_none :
    selectReasons stdoutCap stderrCap failed cancelled timedOut none = none ↔
      stdoutCap = false ∧ stderrCap = false ∧ failed = false ∧ cancelled = false ∧
        timedOut = false := by
  revert stdoutCap stderrCap failed cancelled timedOut
  decide

theorem selectReasons_none_ne_exit :
    selectReasons stdoutCap stderrCap failed cancelled timedOut none ≠ some .exit := by
  revert stdoutCap stderrCap failed cancelled timedOut
  decide

/-- Once there is a trigger only a collector that failed takes its place. -/
theorem selectReasons_some
    (trigger : PrimaryTrigger) :
    selectReasons stdoutCap stderrCap failed cancelled timedOut (some trigger) =
      some (if failed then .collectorFailed else trigger) := by
  revert stdoutCap stderrCap failed cancelled timedOut
  cases trigger <;> decide

/-- What a run knows after some observations. -/
structure Tracks (setting : Setting) (observed : List Observation) (s : Supervision) : Prop where
  stdout : s.stdout = setting.stdout observed
  stderr : s.stderr = setting.stderr observed
  none_iff : s.primary = none ↔ Undisturbed setting observed
  exit_iff : s.primary = some .exit ↔ ∃ status, ExitedFirst setting status observed
  status : ∀ status, ExitedFirst setting status observed →
    s.statusBeforeCleanup = some status ∧ s.status = some status
  fresh : s.primary = none → s.status = none ∧ s.cleanup = none

theorem tracks_start :
    Tracks setting [] (start setting.stdoutReady setting.stderrReady) where
  stdout := rfl
  stderr := rfl
  none_iff := iff_of_true rfl .nil
  exit_iff := by
    refine iff_of_false (by simp [start]) ?_
    rintro ⟨status, h⟩
    generalize hnil : ([] : List Observation) = all at h
    cases h <;> simp at hnil
  status := by
    intro status h
    generalize hnil : ([] : List Observation) = all at h
    cases h <;> simp at hnil
  fresh _ := ⟨rfl, rfl⟩

/-- The trigger before the child is asked, by what was observed. -/
theorem Tracks.observe_primary (h : Tracks setting observed s) :
    (s.observe setting.limits o).primary =
      selectReasons (setting.stdout (observed ++ [o])).overflow
        (setting.stderr (observed ++ [o])).overflow (Failed setting (observed ++ [o])) o.cancelled
        (setting.limits.deadline ≤ o.now) s.primary := by
  simp only [observe, h.stdout, h.stderr, ← Setting.stdout_concat,
    ← Setting.stderr_concat, Failed]

theorem Tracks.observe_none (h : Tracks setting observed s) (hnone : s.primary = none) :
    (s.observe setting.limits o).primary = none ↔ QuietTurn setting observed o := by
  rw [h.observe_primary, hnone, selectReasons_none_eq_none, decide_eq_false_iff_not, not_le]
  constructor
  · rintro ⟨hstdout, hstderr, hfailed, hcancelled, hdeadline⟩
    exact ⟨hstdout, hstderr, hfailed, hcancelled, hdeadline⟩
  · intro hquiet
    exact ⟨hquiet.stdout, hquiet.stderr, hquiet.failed, hquiet.cancelled, hquiet.deadline⟩

end

namespace Supervision
variable {s : Supervision} {limits : Limits} {o : Observation}

theorem beginCleanup_eq (started : Nat) :
    s.beginCleanup started = { s with cleanup := (s.beginCleanup started).cleanup } := by
  unfold beginCleanup
  split <;> rfl

/-- Asking the child and starting the cleanup leave the collectors alone. -/
theorem learn_streams : (s.learn limits o).stdout = s.stdout.poll limits.stdout o.stdout ∧
    (s.learn limits o).stderr = s.stderr.poll limits.stderr o.stderr := by
  rw [learn, beginCleanup_eq]
  unfold tryWait
  split
  · exact ⟨rfl, rfl⟩
  · cases o.wait <;> exact ⟨rfl, rfl⟩

/-- A trigger stays when the child is asked, unless asking fails. -/
theorem tryWait_primary_some {trigger : PrimaryTrigger} (h : s.primary = some trigger)
    (result : WaitResult) : (s.tryWait result).primary = some trigger ∨
      (s.tryWait result).primary = some .collectorFailed := by
  unfold tryWait
  split
  · exact .inl h
  · cases result with
    | running => exact .inl h
    | exited status =>
      simp [h, selectPrimary]
    | failed =>
      simp [h, selectPrimary]

end Supervision

section
variable {setting : Setting} {observed : List Observation} {o : Observation} {s : Supervision}
variable {trigger : PrimaryTrigger} {observations rest : List Observation}
    {outcome : ProcessOutcome}

/-- A run with a trigger that is not the exit. -/
theorem Tracks.of_disturbed (hstdout : s.stdout = setting.stdout observed)
    (hstderr : s.stderr = setting.stderr observed) (htrigger : s.primary = some trigger)
    (hexit : trigger ≠ .exit) (hdisturbed : ¬ Undisturbed setting observed)
    (hexited : ∀ status, ¬ ExitedFirst setting status observed) : Tracks setting observed s where
  stdout := hstdout
  stderr := hstderr
  none_iff := iff_of_false (by simp [htrigger]) hdisturbed
  exit_iff := iff_of_false (by simpa [htrigger] using hexit) (by simpa using hexited)
  status status h := absurd h (hexited status)
  fresh h := by
    rw [htrigger] at h
    cases h

variable (h : Tracks setting observed s)
include h

theorem Tracks.learn_streams :
    (s.learn setting.limits o).stdout = setting.stdout (observed ++ [o]) ∧
      (s.learn setting.limits o).stderr = setting.stderr (observed ++ [o]) := by
  rw [Setting.stdout_concat, Setting.stderr_concat, ← h.stdout, ← h.stderr]
  exact Supervision.learn_streams

theorem Tracks.not_exited (hexit : s.primary ≠ some .exit) (status : ExitStatus) :
    ¬ ExitedFirst setting status observed :=
  fun hexited => hexit (h.exit_iff.mpr ⟨status, hexited⟩)

/-- A turn of a run that is over, for another reason than the exit, or that is now disturbed. -/
theorem Tracks.learn_disturbed
    (htrigger : ((s.observe setting.limits o).tryWait o.wait).primary = some trigger)
    (hexit : trigger ≠ .exit) (hundisturbed : ¬ Undisturbed setting (observed ++ [o]))
    (hexited : ∀ status, ¬ ExitedFirst setting status (observed ++ [o])) :
    Tracks setting (observed ++ [o]) (s.learn setting.limits o) := by
  refine Tracks.of_disturbed h.learn_streams.1 h.learn_streams.2 ?_ hexit hundisturbed hexited
  rw [learn, beginCleanup_eq, htrigger]

/-- A turn of a run that nothing has ended yet. -/
theorem Tracks.learn_none (hnone : s.primary = none) :
    Tracks setting (observed ++ [o]) (s.learn setting.limits o) := by
  obtain ⟨hstatus, hcleanup⟩ := h.fresh hnone
  have hundisturbed := h.none_iff.mp hnone
  have hexited := h.not_exited (by simp [hnone])
  obtain ⟨hstdout, hstderr⟩ := h.learn_streams (o := o)
  by_cases hquiet : QuietTurn setting observed o
  · have hprimary := (h.observe_none hnone).mpr hquiet
    have hobserved : (s.observe setting.limits o).status = none := hstatus
    have huncleaned : (s.observe setting.limits o).cleanup = none := hcleanup
    cases hwait : o.wait with
    | running =>
      have hlearn : s.learn setting.limits o = s.observe setting.limits o := by
        simp [learn, tryWait, beginCleanup, hwait, hprimary]
      refine ⟨hstdout, hstderr, ?_, ?_, ?_, ?_⟩
      · exact iff_of_true (by rw [hlearn, hprimary])
          (undisturbed_concat.mpr ⟨hundisturbed, hquiet, hwait⟩)
      · refine iff_of_false (by simp [hlearn, hprimary]) ?_
        simp [exitedFirst_concat, hwait, hexited]
      · intro status hstatus
        simp [exitedFirst_concat, hwait, hexited] at hstatus
      · intro
        rw [hlearn]
        exact ⟨hobserved, huncleaned⟩
    | exited status =>
      have hlearn : (s.learn setting.limits o).primary = some .exit ∧
          (s.learn setting.limits o).status = some status ∧
          (s.learn setting.limits o).statusBeforeCleanup = some status := by
        simp [learn, tryWait, beginCleanup, hwait, hobserved,
          hprimary, huncleaned, selectPrimary]
      refine ⟨hstdout, hstderr, ?_, ?_, ?_, ?_⟩
      · refine iff_of_false (by simp [hlearn.1]) ?_
        simp [undisturbed_concat, hwait]
      · exact iff_of_true hlearn.1
          ⟨status, exitedFirst_concat.mpr (.inl ⟨hundisturbed, hquiet, hwait⟩)⟩
      · intro status' hstatus'
        obtain ⟨-, -, hwait'⟩ | ⟨hbefore, -⟩ := exitedFirst_concat.mp hstatus'
        · rw [hwait] at hwait'
          cases hwait'
          exact ⟨hlearn.2.2, hlearn.2.1⟩
        · exact absurd hbefore (hexited status')
      · simp [hlearn.1]
    | failed =>
      have hfailed : ((s.observe setting.limits o).tryWait o.wait).primary =
          some .collectorFailed := by
        simp [tryWait, hwait, hobserved, hprimary, selectPrimary]
      refine h.learn_disturbed hfailed (by decide) ?_ ?_
      · simp [undisturbed_concat, hwait]
      · simp [exitedFirst_concat, hwait, hexited]
  · have hprimary := mt (h.observe_none hnone).mp hquiet
    obtain ⟨trigger, htrigger⟩ := Option.ne_none_iff_exists'.mp hprimary
    have hexit : trigger ≠ .exit := by
      rintro rfl
      rw [h.observe_primary, hnone] at htrigger
      exact selectReasons_none_ne_exit _ _ _ _ _ htrigger
    have hundisturbed' : ¬ Undisturbed setting (observed ++ [o]) := by
      simp [undisturbed_concat, hquiet]
    have hexited' (status : ExitStatus) : ¬ ExitedFirst setting status (observed ++ [o]) := by
      simp [exitedFirst_concat, hquiet, hexited]
    rcases tryWait_primary_some htrigger o.wait with hwait | hwait
    · exact h.learn_disturbed hwait hexit hundisturbed' hexited'
    · exact h.learn_disturbed hwait (by decide) hundisturbed' hexited'

/-- A turn of a run that has a trigger. -/
theorem Tracks.learn_some (htrigger : s.primary = some trigger) :
    Tracks setting (observed ++ [o]) (s.learn setting.limits o) := by
  have hdisturbed : ¬ Undisturbed setting observed := by
    rw [← h.none_iff, htrigger]
    simp
  have hdisturbed' : ¬ Undisturbed setting (observed ++ [o]) := by
    simp [undisturbed_concat, hdisturbed]
  have hprimary : (s.observe setting.limits o).primary =
      some (if Failed setting (observed ++ [o]) then .collectorFailed else trigger) := by
    rw [h.observe_primary, htrigger, selectReasons_some]
  by_cases hexit : trigger = .exit
  · subst hexit
    obtain ⟨status, hexited⟩ := h.exit_iff.mp htrigger
    have hstatus := h.status status hexited
    have hwait : (s.observe setting.limits o).tryWait o.wait = s.observe setting.limits o := by
      have hsome : (s.observe setting.limits o).status = some status := hstatus.2
      simp [tryWait, hsome]
    by_cases hfailed : Failed setting (observed ++ [o]) = true
    · refine h.learn_disturbed ?_ (show PrimaryTrigger.collectorFailed ≠ .exit by decide)
        hdisturbed' ?_
      · rw [hwait, hprimary, if_pos hfailed]
      · simp [exitedFirst_concat, hdisturbed, hfailed]
    · have hlearn : (s.learn setting.limits o).primary = some .exit := by
        rw [learn, hwait, beginCleanup_eq, hprimary, if_neg hfailed]
      refine ⟨h.learn_streams.1, h.learn_streams.2, ?_, ?_, ?_, ?_⟩
      · exact iff_of_false (by simp [hlearn]) hdisturbed'
      · exact iff_of_true hlearn
          ⟨status, exitedFirst_concat.mpr (.inr ⟨hexited, by simpa using hfailed⟩)⟩
      · intro status' hstatus'
        obtain ⟨hundisturbed, -, -⟩ | ⟨hbefore, -⟩ := exitedFirst_concat.mp hstatus'
        · exact absurd hundisturbed hdisturbed
        · rw [learn, hwait, beginCleanup_eq]
          exact h.status status' hbefore
      · simp [hlearn]
  · have hbefore := h.not_exited (by simpa [htrigger] using hexit)
    have hexited (status : ExitStatus) : ¬ ExitedFirst setting status (observed ++ [o]) := by
      simp [exitedFirst_concat, hdisturbed, hbefore]
    have hexit' : (if Failed setting (observed ++ [o]) then .collectorFailed else trigger) ≠
        PrimaryTrigger.exit := by
      split
      · decide
      · exact hexit
    rcases tryWait_primary_some hprimary o.wait with hwait | hwait
    · exact h.learn_disturbed hwait hexit' hdisturbed' hexited
    · exact h.learn_disturbed hwait (by decide) hdisturbed' hexited

theorem Tracks.learn :
    Tracks setting (observed ++ [o]) (s.learn setting.limits o) := by
  cases hprimary : s.primary with
  | none => exact h.learn_none hprimary
  | some trigger => exact h.learn_some hprimary

/-- The cleanup goes on only in a run that has a trigger. -/
theorem Tracks.cleanup (hcleanup : s.cleanup.isSome)
    (controller : CleanupController) :
    Tracks setting observed { s with cleanup := some controller } where
  stdout := h.stdout
  stderr := h.stderr
  none_iff := h.none_iff
  exit_iff := h.exit_iff
  status := h.status
  fresh hnone := by
    rw [(h.fresh hnone).2] at hcleanup
    simp at hcleanup

/-! ## Runs -/

omit h in
/-- The two ways to end tell whether the output is drained. -/
theorem CleanupController.advance_ends (controller : CleanupController) (now : Nat)
    (cleanupComplete outputDrained : Bool) :
    ((controller.advance now cleanupComplete outputDrained).1 = .complete → outputDrained = true) ∧
    ((controller.advance now cleanupComplete outputDrained).1 = .outputDrainTimeout →
      outputDrained = false) := by
  cases outputDrained <;> unfold advance beginOutputDrain <;> (repeat' split) <;> simp_all

/-- How a run returns: with its streams drained, or after the time for that. -/
def Returned (s : Supervision) (outcome : ProcessOutcome) : Prop :=
  (s.outputDrained = true ∧ s.primary.isSome ∧ outcome = s.outcome s.classification) ∨
    (s.outputDrained = false ∧ outcome = s.outcome (some .outputDrainTimeout))

theorem superviseFrom_returned
    (hrun : superviseFrom setting.limits s observations = some (outcome, rest)) :
    ∃ made s', observations = made ++ rest ∧ Tracks setting (observed ++ made) s' ∧
      Returned s' outcome := by
  -- The observations so far grow by one in every turn.
  induction observations generalizing observed s with
  | nil => cases hrun
  | cons o observations ih =>
    have hlearn := h.learn (o := o)
    rw [superviseFrom, turn] at hrun
    generalize s.learn setting.limits o = s' at hlearn hrun
    have hagain {s : Supervision} (hs : Tracks setting (observed ++ [o]) s)
        (hrest : superviseFrom setting.limits s observations = some (outcome, rest)) :
        ∃ made s', o :: observations = made ++ rest ∧ Tracks setting (observed ++ made) s' ∧
          Returned s' outcome := by
      obtain ⟨made, s', rfl, htracks, hreturned⟩ := ih hs hrest
      exact ⟨o :: made, s', rfl, by simpa using htracks, hreturned⟩
    cases hcleanup : s'.cleanup with
    | none =>
      simp only [hcleanup] at hrun
      exact hagain hlearn hrun
    | some controller =>
      simp only [hcleanup] at hrun
      have hsome : s'.cleanup.isSome := by simp [hcleanup]
      have hprimary : s'.primary.isSome := by
        rw [Option.isSome_iff_ne_none]
        intro hnone
        simp [(hlearn.fresh hnone).2] at hsome
      have hcleaned := hlearn.cleanup hsome
        (controller.advance o.cleanupNow s'.status.isSome s'.outputDrained).2
      have hends := controller.advance_ends o.cleanupNow s'.status.isSome s'.outputDrained
      cases haction : (controller.advance o.cleanupNow s'.status.isSome s'.outputDrained).1 with
      | wait | forceKill =>
        simp only [haction] at hrun
        exact hagain hcleaned hrun
      | failClosed =>
        simp only [haction] at hrun
        cases hrun
      | complete =>
        simp only [haction] at hrun
        obtain ⟨rfl, rfl⟩ := hrun
        exact ⟨[o], _, rfl, hcleaned, .inl ⟨hends.1 haction, hprimary, rfl⟩⟩
      | outputDrainTimeout =>
        simp only [haction] at hrun
        obtain ⟨rfl, rfl⟩ := hrun
        exact ⟨[o], _, rfl, hcleaned, .inr ⟨hends.2 haction, rfl⟩⟩

/-- What a run saw of a stream. -/
def Setting.stdoutSeen (setting : Setting) (observed : List Observation) : List UInt8 :=
  seen setting.stdoutReady (observed.map (·.stdout))

def Setting.stderrSeen (setting : Setting) (observed : List Observation) : List UInt8 :=
  seen setting.stderrReady (observed.map (·.stderr))

/-- A finished result: the command completed, or left with a code of its own. -/
def Finished (outcome : ProcessOutcome) : Prop :=
  outcome.classification = none ∨ outcome.classification = some .nonzeroExit

/-- The command exits before its output passes a cap, and the rest of its output does so. -/
structure LateOverflow (setting : Setting) (observed : List Observation) : Prop where
  exited : ∃ status, ExitedFirst setting status observed ∧ status.code.isSome
  drained : (setting.stdout observed).reading = false ∧ (setting.stderr observed).reading = false
  overflow : (setting.stdout observed).overflow = true ∨ (setting.stderr observed).overflow = true

omit h in
/-- A status that is a success has a code. -/
theorem finished_classifyExit (status : ExitStatus) :
    (classifyExit (some status) = none ∨ classifyExit (some status) = some .nonzeroExit) ↔
      status.code.isSome := by
  unfold classifyExit
  by_cases hsuccess : status.success = true
  · have hraw : status.raw = 0 := by simpa [ExitStatus.success] using hsuccess
    simp [ExitStatus.code, hraw]
  · cases hcode : status.code <;> simp [hsuccess, hcode]

omit h in
theorem finished_classification (hprimary : s.primary.isSome) :
    Finished (s.outcome s.classification) ↔
      s.primary = some .exit ∧ Finished (s.outcome (classifyExit s.statusBeforeCleanup)) := by
  obtain ⟨trigger, htrigger⟩ := Option.isSome_iff_exists.mp hprimary
  have hclassification : (s.outcome s.classification).classification = s.classification := rfl
  rw [Finished, hclassification, classification, htrigger]
  cases trigger with
  | exit => exact (and_iff_right rfl).symm
  | stdoutCap | stderrCap => cases s.stdout.overflow <;> cases s.stderr.overflow <;> simp
  | cancelled | timedOut | collectorFailed => simp

/-- A drained run is finished when the command exited first, with a code. -/
theorem Tracks.finished_iff (hprimary : s.primary.isSome) :
    Finished (s.outcome s.classification) ↔
      ∃ status, ExitedFirst setting status observed ∧ status.code.isSome := by
  rw [finished_classification hprimary, h.exit_iff]
  constructor
  · rintro ⟨⟨status, hexited⟩, hfinished⟩
    rw [(h.status status hexited).1] at hfinished
    exact ⟨status, hexited, (finished_classifyExit status).mp hfinished⟩
  · rintro ⟨status, hexited, hcode⟩
    rw [(h.status status hexited).1]
    exact ⟨⟨status, hexited⟩, (finished_classifyExit status).mpr hcode⟩

/-- What a run returns was cut when a collector is past its cap. -/
theorem Tracks.cut_iff (classification : Option ExecutorToolClassificationV0) :
    ((s.outcome classification).stdout ≠ setting.stdoutSeen observed ∨
      (s.outcome classification).stderr ≠ setting.stderrSeen observed) ↔
      ((setting.stdout observed).overflow = true ∨ (setting.stderr observed).overflow = true) := by
  have hstdout : (s.outcome classification).stdout = (setting.stdout observed).output := by
    rw [← h.stdout]
    rfl
  have hstderr : (s.outcome classification).stderr = (setting.stderr observed).output := by
    rw [← h.stderr]
    rfl
  rw [hstdout, hstderr]
  exact or_congr (output_ne_seen _) (output_ne_seen _)

theorem Tracks.outputDrained_iff : s.outputDrained = true ↔
    (setting.stdout observed).reading = false ∧ (setting.stderr observed).reading = false := by
  simp [outputDrained, h.stdout, h.stderr]


omit h
/-- Output that was cut is not given as a finished result, unless the command exits first and the
    rest of its output then passes a cap. -/
theorem cut_output_not_finished_iff {observations : List Observation} {outcome : ProcessOutcome}
    (hrun : supervise setting.limits setting.stdoutReady setting.stderrReady observations =
      some (outcome, [])) :
    ((outcome.stdout ≠ setting.stdoutSeen observations ∨
        outcome.stderr ≠ setting.stderrSeen observations) → ¬ Finished outcome) ↔
      ¬ LateOverflow setting observations := by
  obtain ⟨made, s, hmade, h, hreturned⟩ := superviseFrom_returned tracks_start hrun
  rw [append_nil] at hmade
  rw [nil_append, ← hmade] at h
  rcases hreturned with ⟨hdrained, hprimary, rfl⟩ | ⟨hdrained, rfl⟩
  · rw [h.cut_iff, h.finished_iff hprimary]
    constructor
    · intro hproperty hlate
      exact hproperty hlate.overflow hlate.exited
    · intro hlate hoverflow hexited
      exact hlate ⟨hexited, h.outputDrained_iff.mp hdrained, hoverflow⟩
  · -- The time to drain is over: the result is not a finished one, and a stream is still read.
    refine iff_of_true ?_ ?_
    · intro _ hfinished
      simp [Finished, outcome] at hfinished
    · intro hlate
      rw [h.outputDrained_iff.mpr hlate.drained] at hdrained
      cases hdrained

/-- Two bytes are kept of each stream. -/
def twoByteSetting : Setting :=
  { limits := { stdout := 2, stderr := 2, deadline := 1000 }
    stdoutReady := true
    stderrReady := true }

/-- A turn at some time. -/
def observation (stdout stderr : ReadResult) (wait : WaitResult) (now : Nat) : Observation :=
  { stdout
    stderr
    cancelled := false
    now
    wait
    cleanupStarted := now
    cleanupNow := now }

/-- The command writes its last byte and exits between a poll and the question whether it runs. -/
def exitBeforeLastByte : List Observation :=
  [observation (.bytes [97, 98]) .pending (.exited ⟨0⟩) 0,
    observation (.bytes [99]) (.bytes []) .running 1,
    observation (.bytes []) .pending .running 2]

/-- The last byte is read while the command runs. -/
def lastByteBeforeExit : List Observation :=
  [observation (.bytes [97, 98]) .pending .running 0,
    observation (.bytes [99]) (.bytes []) (.exited ⟨0⟩) 1,
    observation (.bytes []) .pending .running 2]

theorem cut_output_completed :
    supervise twoByteSetting.limits true true exitBeforeLastByte =
      some ({ status := some ⟨0⟩, classification := none, stdout := [97, 98], stderr := [] }, []) ∧
    twoByteSetting.stdoutSeen exitBeforeLastByte = [97, 98, 99] := by
  decide

theorem cut_output_cap_exceeded :
    supervise twoByteSetting.limits true true lastByteBeforeExit =
      some ({ status := some ⟨0⟩, classification := some .stdoutCapExceeded, stdout := [97, 98],
              stderr := [] }, []) ∧
    twoByteSetting.stdoutSeen lastByteBeforeExit = [97, 98, 99] ∧
    ¬ LateOverflow twoByteSetting lastByteBeforeExit := by
  suffices hrun : _ from
    ⟨hrun, by decide, (cut_output_not_finished_iff hrun).mp (by simp [Finished])⟩
  decide

end

end Watershed.FlowExecutor
