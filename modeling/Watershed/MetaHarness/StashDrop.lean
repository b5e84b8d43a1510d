/-
  Dropping a stash by its commit (`drop_stash` of `diff/stash.rs`) while other Git processes push
  and drop entries.

  Git drops an entry by its place. One dropped in the place of another is stored again under the
  subject of its commit, which need not be the message it had, and not at all if its commit is on
  top of the list by then.
-/
import Mathlib.Data.List.Perm.Basic

namespace Watershed.MetaHarness

open List

structure Stash where
  commit : String
  message : String
deriving DecidableEq

inductive StashError
  | noStash
  | keptChanging
deriving DecidableEq

/-- What another process does to the list. -/
inductive StashChange
  | push (entry : Stash)
  | drop (place : Nat)

/-- Git's list, newest first, with the entries that others pushed and dropped and those that
    `drop_stash` took out. -/
structure Stashes where
  entries : List Stash
  pushed : List Stash := []
  dropped : List Stash := []
  taken : List Stash := []

namespace Stashes

def change (s : Stashes) : StashChange → Stashes
  | .push entry => { s with entries := entry :: s.entries, pushed := entry :: s.pushed }
  | .drop place =>
    match s.entries[place]? with
    | none => s
    | some entry =>
      { s with entries := s.entries.eraseIdx place, dropped := entry :: s.dropped }

def DROP_TRIES : Nat := 5

variable (subject : String → String) (id : String) (others : Nat → Nat → List StashChange)

/-- The entry that `git stash store` makes of a dropped one. -/
def stored (entry : Stash) : Stash := ⟨entry.commit, subject entry.commit⟩

/-- `git stash store` leaves the list as it is if the commit is on top: the reference does not
    change. -/
def onTop (s : Stashes) (entry : Stash) : Bool := s.entries.head?.any (·.commit = entry.commit)

def store (s : Stashes) (entry : Stash) : Stashes :=
  if s.onTop entry then s else { s with entries := stored subject entry :: s.entries }

def takeOut (s : Stashes) (place : Nat) (entry : Stash) : Stashes :=
  { s with entries := s.entries.eraseIdx place, taken := entry :: s.taken }

/-- The tries left, each with what others do before its list, its drop and its store. There is no
    result if Git cannot drop the place, as the list is too short by then. -/
def tries : Nat → Stashes → Option (Except StashError Unit × Stashes)
  | 0, s => some (.error .keptChanging, s)
  | n + 1, s =>
    let s := (others n 0).foldl change s
    match s.entries.findIdx? (·.commit = id) with
    | none => some (.error .noStash, s)
    | some place =>
      let s := (others n 1).foldl change s
      match s.entries[place]? with
      | none => none
      | some entry =>
        let s := s.takeOut place entry
        if entry.commit = id then some (.ok (), s)
        else tries n (((others n 2).foldl change s).store subject entry)

def dropStash (entries : List Stash) : Option (Except StashError Unit × Stashes) :=
  tries subject id others DROP_TRIES ⟨entries, [], [], []⟩

/-- Each entry that stands at the dropped place before a drop, unless it is the one of commit `id`,
    has its commit's subject as its message, and its commit is not on top when it is stored. -/
def restorable : Nat → Stashes → Bool
  | 0, _ => true
  | n + 1, s =>
    let s := (others n 0).foldl change s
    match s.entries.findIdx? (·.commit = id) with
    | none => true
    | some place =>
      let s := (others n 1).foldl change s
      match s.entries[place]? with
      | none => true
      | some entry =>
        let s := (others n 2).foldl change (s.takeOut place entry)
        entry.commit = id || (entry.message = subject entry.commit && !s.onTop entry &&
          restorable n (s.store subject entry))

/-- Of what was there or pushed only the stash of commit `id` is gone, exactly if it was dropped,
    and what others dropped. -/
def OthersKept (entries : List Stash) (result : Except StashError Unit) (s : Stashes) : Prop :=
  (s.taken.countP (·.commit = id) = if result = .ok () then 1 else 0) ∧
    (s.entries ++ s.dropped ++ s.taken.filter (·.commit = id)) ~ (entries ++ s.pushed)

variable {entries taken kept put : List Stash} {entry : Stash} {s s' : Stashes}
  {result : Except StashError Unit}

/-- What is there, was dropped or taken out is what was there at first, was pushed or put back. -/
def Balanced (s : Stashes) (entries taken put : List Stash) : Prop :=
  s.taken = taken ∧ ∀ x, s.entries.count x + s.dropped.count x + taken.count x =
    entries.count x + s.pushed.count x + put.count x

theorem count_eraseIdx {place : Nat} (h : entries[place]? = some entry) (x : Stash) :
    entries.count x = (entries.eraseIdx place).count x + if entry == x then 1 else 0 := by
  obtain ⟨hplace, rfl⟩ := List.getElem?_eq_some_iff.mp h
  rw [← (getElem_cons_eraseIdx_perm hplace).count_eq x, count_cons]

theorem Balanced.change (h : s.Balanced entries taken put) (c : StashChange) :
    (s.change c).Balanced entries taken put := by
  cases c with
  | push entry =>
    refine ⟨h.1, fun x => ?_⟩
    have := h.2 x
    simp only [Stashes.change, count_cons]
    omega
  | drop place =>
    unfold Stashes.change
    dsimp only
    split
    · exact h
    · rename_i entry hentry
      refine ⟨h.1, fun x => ?_⟩
      have := h.2 x
      have := count_eraseIdx hentry x
      simp only [count_cons]
      omega

theorem Balanced.foldl (h : s.Balanced entries taken put) (cs : List StashChange) :
    (cs.foldl Stashes.change s).Balanced entries taken put := by
  induction cs generalizing s with
  | nil => exact h
  | cons c cs ih => exact ih (h.change c)

theorem Balanced.take {place : Nat} (h : s.Balanced entries taken put)
    (hentry : s.entries[place]? = some entry) :
    (s.takeOut place entry).Balanced entries (entry :: taken) put := by
  refine ⟨congrArg _ h.1, fun x => ?_⟩
  have := h.2 x
  have := count_eraseIdx hentry x
  simp only [takeOut, count_cons]
  omega

/-- The entries `kept` of those taken out are put back under their commits' subjects. -/
structure Restored (s : Stashes) (entries taken kept : List Stash) : Prop where
  balanced : s.Balanced entries taken (kept.map (stored subject))
  sublist : kept <+ taken

/-- All of them are, with the messages they had. -/
def Whole (taken kept : List Stash) : Prop :=
  kept = taken ∧ ∀ entry ∈ taken, entry.message = subject entry.commit

variable {subject id others}

theorem Restored.store (h : s.Balanced entries (entry :: taken) (kept.map (stored subject)))
    (hsublist : kept <+ taken) : ∃ kept', Restored subject (s.store subject entry) entries
      (entry :: taken) kept' ∧ (Whole subject (entry :: taken) kept' ↔
        (entry.message = subject entry.commit ∧ s.onTop entry = false) ∧
          Whole subject taken kept) := by
  unfold Stashes.store
  split
  · rename_i htop
    refine ⟨kept, ⟨h, hsublist.cons _⟩, iff_of_false (fun hwhole => ?_) (by simp [htop])⟩
    have hlength := hsublist.length_le
    rw [hwhole.1, length_cons] at hlength
    exact absurd hlength (Nat.not_succ_le_self _)
  · rename_i htop
    refine ⟨entry :: kept, ⟨⟨h.1, fun x => ?_⟩, hsublist.cons_cons _⟩, ?_⟩
    · have := h.2 x
      simp only [map_cons, count_cons] at this ⊢
      omega
    · simp only [Whole, cons.injEq, true_and, forall_mem_cons, htop]
      tauto

/-- What is taken out in the place of another is put back as it was exactly if it is restorable. -/
theorem tries_restored {n : Nat} (h : Restored subject s entries taken kept)
    (hother : ∀ entry ∈ taken, entry.commit ≠ id)
    (hrun : tries subject id others n s = some (result, s')) :
    ∃ gone wrong kept', s'.Balanced entries (gone ++ wrong) (kept'.map (stored subject)) ∧
      kept' <+ wrong ∧
      (Whole subject wrong kept' ↔ Whole subject taken kept ∧ restorable subject id others n s) ∧
      (∀ entry ∈ wrong, entry.commit ≠ id) ∧ (∀ entry ∈ gone, entry.commit = id) ∧
      gone.length = if result = .ok () then 1 else 0 := by
  induction n generalizing s taken kept with
  | zero =>
    cases hrun
    exact ⟨[], taken, kept, h.balanced, h.sublist, by simp [restorable], hother, by simp⟩
  | succ n ih =>
    unfold tries at hrun
    dsimp only at hrun
    have hlisted := h.balanced.foldl (others n 0)
    split at hrun
    · rename_i hplace
      cases hrun
      exact ⟨[], taken, kept, hlisted, h.sublist, by simp [restorable, hplace], hother, by simp⟩
    · rename_i hplace
      have hfound := hlisted.foldl (others n 1)
      split at hrun
      · cases hrun
      · rename_i entry hentry
        have htook := hfound.take hentry
        split at hrun
        · rename_i hid
          cases hrun
          exact ⟨[entry], taken, kept, htook, h.sublist, by simp [restorable, hplace, hentry, hid],
            hother, by simpa using hid⟩
        · rename_i hid
          obtain ⟨kept', hstored, hwhole⟩ := Restored.store (htook.foldl (others n 2)) h.sublist
          obtain ⟨gone, wrong, kept'', hbalanced, hsublist, hiff, hrest⟩ :=
            ih hstored (forall_mem_cons.mpr ⟨hid, hother⟩) hrun
          refine ⟨gone, wrong, kept'', hbalanced, hsublist, ?_, hrest⟩
          rw [hiff, hwhole, restorable]
          simp only [hplace, hentry, hid, decide_false, Bool.false_or, Bool.and_eq_true,
            decide_eq_true_eq, Bool.not_eq_true']
          tauto

/-- Nothing but the stash dropped is lost exactly if before each drop the entry at its place is
    that stash, or one that the store after it gives back. -/
theorem dropStash_keeps_iff (h : dropStash subject id others entries = some (result, s)) :
    OthersKept id entries result s ↔
      restorable subject id others DROP_TRIES ⟨entries, [], [], []⟩ := by
  obtain ⟨gone, wrong, kept, ⟨htaken, hcount⟩, hsublist, hwhole, hwrong, hgone, hlength⟩ :=
    tries_restored (show Restored _ _ entries [] [] from ⟨⟨rfl, fun _ => rfl⟩, .slnil⟩) (by simp) h
  have hfilter : s.taken.filter (·.commit = id) = gone := by
    rw [htaken, filter_append, filter_eq_self.mpr (by simpa using hgone),
      filter_eq_nil_iff.mpr (by simpa using hwrong), append_nil]
  have hperm : OthersKept id entries result s ↔ wrong ~ kept.map (stored subject) := by
    rw [OthersKept, countP_eq_length_filter, hfilter, hlength, perm_iff_count, perm_iff_count]
    simp only [true_and, count_append]
    refine forall_congr' fun x => ?_
    have := hcount x
    rw [count_append] at this
    omega
  have hstart : Whole subject [] [] := ⟨rfl, by simp⟩
  rw [hperm, ← and_iff_right hstart (b := _ = true), ← hwhole]
  constructor
  · intro h
    -- As many entries are put back as were taken out, so all of them are.
    refine ⟨hsublist.eq_of_length ?_, fun entry hentry => ?_⟩
    · rw [h.length_eq, length_map]
    · obtain ⟨other, -, rfl⟩ := mem_map.mp (h.subset hentry)
      rfl
  · rintro ⟨rfl, hmessages⟩
    have hsame : ∀ entry ∈ kept, stored subject entry = entry := by
      intro entry hentry
      rw [stored, ← hmessages entry hentry]
    rw [map_congr_left hsame, map_id']

/-- Another stash is pushed between the lookup and the drop, which takes that one out. -/
theorem dropStash_keeps_iff_pushed :
    OthersKept "a" [⟨"a", "m"⟩] (.ok ()) ⟨[⟨"b", "w"⟩], [⟨"b", "w"⟩], [], [⟨"a", "m"⟩, ⟨"b", "w"⟩]⟩ :=
  have hrun : dropStash (fun _ => "w") "a"
      (fun n k => if n = 4 ∧ k = 1 then [.push ⟨"b", "w"⟩] else []) [⟨"a", "m"⟩] = _ := rfl
  (dropStash_keeps_iff hrun).mpr (by decide)

/-- The stash pushed meanwhile has a message of its own, which is lost; of two entries of one
    commit the one taken out is not stored again, as the other is on top. -/
theorem dropStash_loses_message :
    (∃ s, dropStash (fun _ => "w") "a"
      (fun n k => if n = 4 ∧ k = 1 then [.push ⟨"b", "mine"⟩] else []) [⟨"a", "m"⟩] =
        some (.ok (), s) ∧ s.entries = [⟨"b", "w"⟩] ∧ ¬OthersKept "a" [⟨"a", "m"⟩] (.ok ()) s) ∧
    ∃ s, dropStash (fun _ => "w") "a" (fun n k => if n = 4 ∧ k = 1 then [.push ⟨"c", "w"⟩]
        else if n = 4 ∧ k = 2 then [.drop 0] else []) [⟨"b", "w"⟩, ⟨"b", "w"⟩, ⟨"a", "m"⟩] =
      some (.ok (), s) ∧ s.entries = [⟨"b", "w"⟩] ∧
        ¬OthersKept "a" [⟨"b", "w"⟩, ⟨"b", "w"⟩, ⟨"a", "m"⟩] (.ok ()) s :=
  ⟨⟨_, rfl, rfl, by unfold OthersKept; decide⟩, _, rfl, rfl, by unfold OthersKept; decide⟩

end Stashes

end Watershed.MetaHarness
