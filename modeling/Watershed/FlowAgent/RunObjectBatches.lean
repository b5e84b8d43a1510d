/-
  What one batch does to the object directory: files of the inventory are only read, new files
  are created one after another in the order of their digests, and every state in between has
  all earlier files, some of the new ones, and at most one new file with part of its bytes.
-/
import Watershed.FlowAgent.RunObjects

namespace Watershed.FlowAgent.RunObjects

open Fallible List Option StringMap ObjectDisk AList

/-! ## Weights of a directory -/

/-- The sum of `f` over the files. -/
def weight (f : ObjectFile → Nat) (directory : ObjectDirectory) : Nat :=
  (directory.entries.map fun entry => f entry.2).sum

variable {f : ObjectFile → Nat} {name : FileName} {file : ObjectFile}
  {directory : ObjectDirectory} {a b c : ObjectDisk} {part : List UInt8}

theorem weight_insert (hnew : directory.lookup name = none) :
    weight f (directory.insert name file) = f file + weight f directory := by
  rw [weight, entries_insert_of_notMem (lookup_eq_none.mp hnew)]
  simp [weight]

theorem weight_perm {a b : ObjectDirectory}
    (h : a.entries.Perm b.entries) : weight f a = weight f b :=
  (h.map _).sum_nat

theorem weight_one (directory : ObjectDirectory) :
    weight (fun _ => 1) directory = directory.entries.length := by
  simp [weight]

/-- The bytes of all files. -/
def totalBytes (directory : ObjectDirectory) : Nat := weight (fun file => file.bytes.length) directory

theorem erase_insert
    (hnew : directory.lookup name = none) : (directory.insert name file).erase name = directory := by
  refine ext ?_
  show List.kerase name (directory.insert name file).entries = directory.entries
  rw [entries_insert_of_notMem (lookup_eq_none.mp hnew)]
  exact kerase_cons_eq rfl

/-! ## Calls -/

/-- A system that answers every call. -/
structure ObjectSystem.Works (sys : ObjectSystem) : Prop where
  openDirectory : ∀ n, sys.openDirectory n = none
  entries : ∀ n, sys.entries n = none
  metadata : ∀ n, sys.metadata n = none
  openFile : ∀ n, sys.openFile n = none
  readToEnd : ∀ n, sys.readToEnd n = none
  create : ∀ n, sys.create n = none
  write : ∀ n, sys.write n = none
  syncCheckpoint : ∀ n, sys.syncCheckpoint n = none
  syncAll : ∀ n, sys.syncAll n = none
  syncDirectory : ∀ n, sys.syncDirectory n = none
  remove : ∀ n, sys.remove n = none

/-- Nothing but the number of calls differs. -/
def SameFiles (a b : ObjectDisk) : Prop := b.directory = a.directory ∧ b.passed = a.passed

theorem SameFiles.refl (a : ObjectDisk) : SameFiles a a := ⟨rfl, rfl⟩

theorem SameFiles.trans (h : SameFiles a b) (h' : SameFiles b c) :
    SameFiles a c := ⟨h'.1.trans h.1, h'.2.trans h.2⟩

section
variable {sys : ObjectSystem} {disk : ObjectDisk} {ε : Type}

variable {E : RuntimeError → ObjectDisk → Prop} {Q : Unit → ObjectDisk → Prop} {path leaf : String}
    {states : ObjectDirectory → Prop} {a b : ObjectDisk}

theorem wp_call {answer : Nat → Option ε}
    {E : ε → ObjectDisk → Prop} (hQ : ∀ next, SameFiles disk next → Q () next)
    (hE : ∀ e next, SameFiles disk next → ¬ (∀ n, answer n = none) → E e next) :
    wp (call answer) Q E disk := by
  cases hanswer : answer disk.calls with
  | none =>
    simp only [wp, call, hanswer]
    exact hQ _ ⟨rfl, rfl⟩
  | some e =>
    simp only [wp, call, hanswer]
    refine hE e _ ⟨rfl, rfl⟩ fun hnone => ?_
    rw [hnone] at hanswer
    cases hanswer

theorem wp_fileNamed {Q : ObjectFile → ObjectDisk → Prop}
    (hQ : ∀ file, disk.directory.lookup (.utf8 leaf) = some file → Q file disk)
    (hE : ∀ e, disk.directory.lookup (.utf8 leaf) = none → E e disk) :
    wp (fileNamed sys path leaf) Q E disk := by
  simp only [fileNamed, wp_bind, wp_okOr]
  exact ⟨hQ, hE _⟩

theorem wp_metadata {Q : ObjectFile → ObjectDisk → Prop}
    (hQ : ∀ file next, SameFiles disk next → disk.directory.lookup (.utf8 leaf) = some file →
      Q file next)
    (hE : ∀ e next, SameFiles disk next →
      (sys.Works → disk.directory.lookup (.utf8 leaf) = none) → E e next) :
    wp (metadata sys path leaf) Q E disk := by
  rw [metadata, wp_bind]
  refine wp_call (fun next hnext => wp_fileNamed ?_ ?_) fun e next hnext hfails => ?_
  · rw [hnext.1]
    exact fun file hfile => hQ file next hnext hfile
  · rw [hnext.1]
    exact fun e hnone => hE e next hnext fun _ => hnone
  · exact hE e next hnext fun hworks => absurd hworks.metadata hfails

theorem wp_openAnchoredFile {Q : ObjectFile → ObjectDisk → Prop}
    (hQ : ∀ file next, SameFiles disk next → disk.directory.lookup (.utf8 leaf) = some file →
      file.kind = .file → Q file next)
    (hE : ∀ e next, SameFiles disk next →
      (sys.Works → ∀ file, disk.directory.lookup (.utf8 leaf) = some file → file.kind ≠ .file) →
      E e next) :
    wp (openAnchoredFile sys path leaf) Q E disk := by
  simp only [openAnchoredFile, wp_bind]
  refine wp_metadata (fun file next hnext hfile => ?_) fun e next hnext hnone => ?_
  · have hkind (hne : file.kind ≠ .file) (e : RuntimeError) : E e next := by
      refine hE e next hnext fun _ other hother => ?_
      rw [hfile, some.injEq] at hother
      rwa [← hother]
    simp only [wp_lift, refuseIf_eq_ok, not_not]
    refine ⟨fun _ _ => ⟨fun _ hfileKind => ?_, fun e he => ?_⟩, fun e he => ?_⟩
    · refine wp_call (fun last hlast => hQ file last (hnext.trans hlast) hfile hfileKind)
        fun e last hlast hfails => ?_
      exact hE e last (hnext.trans hlast) fun hworks => absurd hworks.openFile hfails
    · refine hkind (fun h => ?_) e
      simp [refuseIf, h] at he
    · refine hkind (fun h => ?_) e
      simp [refuseIf, h] at he
  · refine hE e next hnext fun hworks file hfile => ?_
    rw [hnone hworks] at hfile
    cases hfile

theorem wp_readToEnd {limit : Nat} {Q : List UInt8 → ObjectDisk → Prop}
    {E : String → ObjectDisk → Prop}
    (hQ : ∀ next, SameFiles disk next → Q (file.bytes.take limit) next)
    (hE : ∀ e next, SameFiles disk next → ¬ sys.Works → E e next) :
    wp (readToEnd sys file limit) Q E disk := by
  rw [readToEnd, wp_bind]
  exact wp_call hQ fun e next hnext hfails => hE e next hnext fun hworks =>
    hfails hworks.readToEnd

/-! ## Creating and removing a file -/

/-- The directory with the file of an object, or with part of it. -/
def withFile (directory : ObjectDirectory) (digest : String) (bytes : List UInt8) :
    ObjectDirectory := directory.insert (.utf8 digest) ⟨.file, bytes⟩

/-- The disk went on from `a` to `b`, all the time with a directory of `states`. -/
def Passes (states : ObjectDirectory → Prop) (a b : ObjectDisk) : Prop :=
  states b.directory ∧ ∀ state ∈ b.passed, state ∈ a.passed ∨ states state

theorem Passes.trans (h : Passes states a b) (h' : Passes states b c) : Passes states a c := by
  refine ⟨h'.1, fun state hstate => ?_⟩
  rcases h'.2 state hstate with hb | hs
  · exact h.2 state hb
  · exact .inr hs

theorem Passes.mono {states states' : ObjectDirectory → Prop}
    (h : Passes states a b) (himp : ∀ state, states state → states' state) :
    Passes states' a b :=
  ⟨himp _ h.1, fun state hstate => (h.2 state hstate).imp_right (himp state)⟩

theorem SameFiles.passes (h : SameFiles a b) (hstart : states a.directory) : Passes states a b :=
  ⟨h.1 ▸ hstart, fun _ hstate => .inl (h.2 ▸ hstate)⟩

/-- The states while the file of an object is created and written. -/
def Writing (directory : ObjectDirectory) (digest : String) (bytes : List UInt8)
    (state : ObjectDirectory) : Prop :=
  state = directory ∨ ∃ part, part <+: bytes ∧ state = withFile directory digest part

theorem Writing.mono {digest : String} {part bytes : List UInt8} {state : ObjectDirectory}
    (hpart : part <+: bytes) (h : Writing directory digest part state) :
    Writing directory digest bytes state :=
  h.imp_right (.imp fun _ => .imp_left fun hother => hother.trans hpart)

theorem passes_passThrough {through : List ObjectDirectory}
    (hstart : states disk.directory) (h : ∀ state ∈ through, states state) :
    Passes states disk (disk.passThrough through) := by
  refine ⟨?_, fun state hstate => ?_⟩
  · rcases eq_nil_or_concat through with rfl | ⟨init, last, rfl⟩
    · exact hstart
    · rw [passThrough, concat_eq_append, getLastD_concat]
      exact h last (by simp)
  · rw [passThrough, mem_append] at hstate
    exact hstate.imp_right (h state)

theorem wp_createAnchoredFile (hQ : ∀ next, disk.directory.lookup (.utf8 leaf) = none →
      Passes (Writing disk.directory leaf []) disk next →
      next.directory = withFile disk.directory leaf [] → Q () next)
    (hE : ∀ e next, SameFiles disk next →
      (sys.Works → disk.directory.lookup (.utf8 leaf) ≠ none) → E e next) :
    wp (createAnchoredFile sys path leaf) Q E disk := by
  simp only [createAnchoredFile, wp_bind, wp_read]
  cases hfound : disk.directory.lookup (.utf8 leaf) with
  | some file =>
    simp only [hfound] at hE
    by_cases hkind : file.kind = .symlink
    · simp only [hkind]
      exact hE _ disk (SameFiles.refl disk) (by simp)
    · simp only [hkind]
      exact hE _ disk (SameFiles.refl disk) (by simp)
  | none =>
    simp only [wp_bind]
    refine wp_call (fun next hnext => ?_) fun e next hnext hfails => ?_
    · refine hQ _ hfound ?_ (by rw [← hnext.1]; rfl)
      refine (hnext.passes (.inl rfl)).trans (passes_passThrough (.inl hnext.1) ?_)
      simp only [mem_singleton, forall_eq]
      exact .inr ⟨[], nil_prefix, by rw [← hnext.1]; rfl⟩
    · exact hE e next hnext fun hworks => absurd hworks.create hfails

theorem wp_writeAll {bytes : List UInt8}
    {E : String → ObjectDisk → Prop} (hdisk : disk.directory = withFile directory leaf [])
    (hQ : ∀ next, Passes (Writing directory leaf bytes) disk next →
      next.directory = withFile directory leaf bytes → Q () next)
    (hE : ∀ e next part, Passes (Writing directory leaf bytes) disk next → part <+: bytes →
      next.directory = withFile directory leaf part → ¬ sys.Works → E e next) :
    wp (writeAll sys leaf bytes) Q E disk := by
  have hstates (n : Nat) : disk.directory.insert (.utf8 leaf) ⟨.file, bytes.take n⟩ =
      withFile directory leaf (bytes.take n) := by
    rw [hdisk, withFile, insert_insert, withFile]
  have hpasses (written : Nat) :
      Passes (Writing directory leaf bytes) disk (disk.passThrough ((List.range (written + 1)).map
        fun n => disk.directory.insert (.utf8 leaf) ⟨.file, bytes.take n⟩)) := by
    refine passes_passThrough (.inr ⟨[], nil_prefix, hdisk⟩) fun state hstate => ?_
    obtain ⟨n, -, rfl⟩ := mem_map.mp hstate
    exact .inr ⟨_, take_prefix _ _, hstates n⟩
  have hlast (written : Nat) : (disk.passThrough ((List.range (written + 1)).map
      fun n => disk.directory.insert (.utf8 leaf) ⟨.file, bytes.take n⟩)).directory =
      withFile directory leaf (bytes.take written) := by
    rw [passThrough, range_succ, map_append, map_singleton, getLastD_concat]
    exact hstates written
  simp only [writeAll, wp_bind, wp_read]
  cases hanswer : sys.write disk.calls with
  | none =>
    refine hQ _ (hpasses bytes.length) ?_
    rw [hlast, take_length]
  | some failure =>
    refine hE failure.2 _ _ (hpasses failure.1) ( List.take_prefix failure.1 bytes)
      (hlast failure.1) fun hworks => ?_
    rw [hworks.write] at hanswer
    cases hanswer

theorem wp_removeFile
    (hnew : directory.lookup (.utf8 leaf) = none)
    (hdisk : disk.directory = withFile directory leaf part)
    (hQ : ∀ next, Passes (Writing directory leaf part) disk next → next.directory = directory →
      Q () next)
    (hE : ∀ e next, SameFiles disk next → E e next) :
    wp (removeFile sys path leaf) Q E disk := by
  have hpart : Writing directory leaf part disk.directory := .inr ⟨part, prefix_rfl, hdisk⟩
  have herase : disk.directory.erase (.utf8 leaf) = directory := by
    rw [hdisk, withFile, erase_insert hnew]
  simp only [removeFile, wp_bind]
  refine wp_fileNamed (fun _ _ => ?_) fun e _ => hE e disk (SameFiles.refl disk)
  refine wp_call (fun next hnext => ?_) fun e next hnext _ => hE e next hnext
  have hrest : next.directory.erase (.utf8 leaf) = directory := by rw [hnext.1, herase]
  refine hQ _ ?_ hrest
  refine (hnext.passes hpart).trans (passes_passThrough (hnext.1 ▸ hpart) ?_)
  simp only [mem_singleton, forall_eq]
  exact .inl hrest

end

/-! ## Objects of the inventory -/

section
variable {sys : ObjectSystem} {store : Store}

/-- Only the disk was used, or the store was closed. -/
def KeepsOrCloses (a b : RunObjectWriter) : Prop := b = a ∨ b.failed = true

variable {α : Type} {bytes : List UInt8} {candidate : String × ContextObject}
  {E : RuntimeError → Store → Prop} {Q : α → Store → Prop}

theorem wp_orClose {m : Fallible RuntimeError ObjectDisk α}
    (h : wp m (fun a disk => Q a { store with disk := disk })
      (fun e disk => E e { writer := { store.writer with failed := true }, disk := disk })
      store.disk) :
    wp (orClose m) Q E store := by
  simp only [orClose, wp_bind, wp_attempt, onDisk, wp_zoom]
  exact h

theorem wp_closeIf {refused : Prop} [Decidable refused] {message : String}
    {Q : Unit → Store → Prop} (hQ : ¬ refused → Q () store)
    (hE : ∀ e, refused → E e { store with writer := { store.writer with failed := true } }) :
    wp (closeIf refused message) Q E store := by
  unfold closeIf
  by_cases h : refused
  · rw [if_pos h]
    exact hE _ h
  · rw [if_neg h]
    exact hQ h

/-- The file of an object, complete. -/
def Holds (directory : ObjectDirectory) (object : ContextObject) : Prop :=
  directory.lookup (.utf8 object.digest) = some ⟨.file, object.bytes⟩

theorem wp_verifyObject (entry : RunObjectEntry) (object : ContextObject) :
    wp (verifyObject sys entry object)
      (fun _ next => next.writer = store.writer ∧ SameFiles store.disk next.disk ∧
        Holds store.disk.directory object)
      (fun _ next => KeepsOrCloses store.writer next.writer ∧ SameFiles store.disk next.disk ∧
        (sys.Works → Holds store.disk.directory object → entry.length ≠ object.bytes.length))
      store := by
  simp only [verifyObject, wp_bind]
  refine wp_orClose (wp_metadata (fun file next hnext hfile => ?_) fun e next hnext hnone => ?_)
  · refine wp_closeIf (fun hmatches => ?_) fun e hrefused => ?_
    · simp only [not_or, not_not] at hmatches
      obtain ⟨hkind, -, hlength⟩ := hmatches
      refine wp_orClose (wp_openAnchoredFile (fun again next' hnext' hagain _ => ?_) ?_)
      · rw [hnext.1, hfile, some.injEq] at hagain
        subst hagain
        refine wp_orClose ?_
        rw [wp_mapError]
        refine wp_readToEnd (fun next'' hnext'' => ?_) fun e next'' hnext'' hfails => ?_
        · refine wp_closeIf (fun hbytes => ?_) fun e hbytes => ?_
          · rw [not_not, take_of_length_le (by omega)] at hbytes
            have hholds : Holds store.disk.directory object := by
              rw [Holds, hfile, ← hkind, ← hbytes]
            have hsame := (hnext.trans hnext').trans hnext''
            simp only [onDisk, wp_zoom, wp_mapError]
            refine wp_call (fun d hd => wp_call (fun d' hd' => ?_) fun e d' hd' hfails => ?_)
              fun e d hd hfails => ?_
            · exact ⟨trivial, (hsame.trans hd).trans hd', hholds⟩
            · exact ⟨.inl rfl, (hsame.trans hd).trans hd', fun hworks => absurd hworks.syncAll hfails⟩
            · exact ⟨.inl rfl, hsame.trans hd, fun hworks => absurd hworks.syncCheckpoint hfails⟩
          · refine ⟨.inr rfl, (hnext.trans hnext').trans hnext'', fun _ hholds => ?_⟩
            rw [Holds, hfile, some.injEq] at hholds
            rw [hholds, take_of_length_le (by simp)] at hbytes
            exact absurd rfl hbytes
        · exact ⟨.inr rfl, (hnext.trans hnext').trans hnext'', fun hworks => absurd hworks hfails⟩
      · intro e next' hnext' hnotFile
        refine ⟨.inr rfl, hnext.trans hnext', fun hworks _ => ?_⟩
        exact absurd hkind (hnotFile hworks file (by rw [hnext.1, hfile]))
    · refine ⟨.inr rfl, hnext, fun _ hholds hlength => ?_⟩
      rw [Holds, hfile, some.injEq] at hholds
      simp [hholds, hlength] at hrefused
  · refine ⟨.inr rfl, hnext, fun hworks hholds => ?_⟩
    rw [Holds, hnone hworks] at hholds
    cases hholds

/-- Every candidate of the inventory is on disk as it should be. -/
def Verified (store : Store) (candidates : List (String × ContextObject)) : Prop :=
  ∀ candidate ∈ candidates, ∀ entry, store.writer.objects[candidate.1]? = some entry →
    Holds store.disk.directory candidate.2

/-- What the inventory says about the candidates' lengths is what their files have. -/
def LengthsAgree (store : Store) (candidates : List (String × ContextObject)) : Prop :=
  ∀ candidate ∈ candidates, ∀ entry, store.writer.objects[candidate.1]? = some entry →
    Holds store.disk.directory candidate.2 → entry.length = candidate.2.bytes.length

theorem wp_verifyExisting (candidates : List (String × ContextObject)) :
    wp (verifyExisting sys candidates)
      (fun _ next => next.writer = store.writer ∧ SameFiles store.disk next.disk ∧
        Verified store candidates)
      (fun _ next => KeepsOrCloses store.writer next.writer ∧ SameFiles store.disk next.disk ∧
        (sys.Works → LengthsAgree store candidates → ¬ Verified store candidates))
      store := by
  induction candidates generalizing store with
  | nil => exact ⟨rfl, SameFiles.refl _, by simp [Verified]⟩
  | cons candidate candidates ih =>
    obtain ⟨digest, object⟩ := candidate
    simp only [verifyExisting, wp_bind, wp_read]
    cases hentry : store.writer.objects[digest]? with
    | none =>
      refine ih.mono (fun _ next h => ⟨h.1, h.2.1, ?_⟩) fun _ next h => ⟨h.1, h.2.1, ?_⟩
      · simpa [Verified, hentry] using h.2.2
      · simpa [Verified, LengthsAgree, hentry] using h.2.2
    | some entry =>
      simp only [wp_bind]
      refine (wp_verifyObject entry object).mono (fun _ next h => ?_) fun _ next h => ?_
      · obtain ⟨hwriter, hsame, hholds⟩ := h
        have hcongr : Verified next candidates ↔ Verified store candidates := by
          simp only [Verified, hwriter, hsame.1]
        have hlengths : LengthsAgree next candidates ↔ LengthsAgree store candidates := by
          simp only [LengthsAgree, hwriter, hsame.1]
        refine ih.mono (fun _ last hlast => ?_) fun _ last hlast => ?_
        · refine ⟨hlast.1.trans hwriter, hsame.trans hlast.2.1, ?_⟩
          refine forall_mem_cons.mpr ⟨fun _ _ => hholds, hcongr.mp hlast.2.2⟩
        · rw [hcongr, hlengths, hwriter] at hlast
          refine ⟨hlast.1, hsame.trans hlast.2.1, fun hworks hagree hverified => ?_⟩
          exact hlast.2.2 hworks (forall_mem_cons.mp hagree).2 (forall_mem_cons.mp hverified).2
      · refine ⟨h.1, h.2.1, fun hworks hagree hverified => ?_⟩
        have hholds := (forall_mem_cons.mp hverified).1 entry hentry
        exact h.2.2 hworks hholds ((forall_mem_cons.mp hagree).1 entry hentry hholds)

/-! ## New objects -/

/-- A writer that is still open is the one before. -/
theorem wp_failCreated {error : RuntimeError}
    {path leaf : String}
    (hnew : directory.lookup (.utf8 leaf) = none) (hpart : part <+: bytes)
    (hdisk : store.disk.directory = withFile directory leaf part) :
    wp (failCreated sys error path leaf) Q
      (fun _ next => Passes (Writing directory leaf bytes) store.disk next.disk ∧
        (next.writer = store.writer ∧ next.disk.directory = directory ∨ next.writer.failed = true))
      store := by
  have hstart : Writing directory leaf bytes store.disk.directory := .inr ⟨part, hpart, hdisk⟩
  simp only [failCreated, wp_bind, wp_attempt, onDisk, wp_zoom]
  refine wp_removeFile hnew hdisk (fun next hnext hdirectory => ?_) fun e next hnext => ?_
  · have hpasses := hnext.mono fun _ => Writing.mono hpart
    refine wp_call (fun last hlast => ?_) fun e last hlast _ => ?_
    · exact ⟨hpasses.trans (hlast.passes hpasses.1), .inl ⟨rfl, hlast.1.trans hdirectory⟩⟩
    · exact ⟨hpasses.trans (hlast.passes hpasses.1), .inr rfl⟩
  · exact ⟨hnext.passes hstart, .inr rfl⟩

theorem wp_createObject (digest : String) (object : ContextObject)
    (hdigest : digest = object.digest)
    (hnew : store.disk.directory.lookup (.utf8 object.digest) = none) :
    wp (createObject sys digest object)
      (fun _ next => next.writer = (account digest object store).writer ∧
        next.disk.directory = withFile store.disk.directory digest object.bytes ∧
        Passes (Writing store.disk.directory digest object.bytes) store.disk next.disk)
      (fun _ next => ¬ sys.Works ∧
        Passes (Writing store.disk.directory digest object.bytes) store.disk next.disk ∧
        (next.writer = store.writer ∧ next.disk.directory = store.disk.directory ∨
          next.writer.failed = true))
      store := by
  subst hdigest
  simp only [createObject, wp_bind]
  refine wp_orClose (wp_createAnchoredFile (fun next _ hcreated hdirectory => ?_) ?_)
  · have hcreating : Passes (Writing store.disk.directory object.digest object.bytes)
        store.disk next := hcreated.mono fun _ => .mono nil_prefix
    simp only [wp_attempt, onDisk, wp_zoom, wp_bind]
    refine wp_writeAll hdirectory (fun next' hwritten hcomplete => ?_)
      fun e next' part hwritten hpart hcut hfails => ?_
    · have hwriting := hcreating.trans hwritten
      refine wp_call (fun last hlast => ?_) fun e last hlast hfails => ?_
      · have hsynced := hwriting.trans (hlast.passes hwriting.1)
        refine wp_call (fun last' hlast' => ?_) fun e last' hlast' hfails => ?_
        · exact ⟨rfl, by rw [account, hlast'.1, hlast.1, hcomplete],
            hsynced.trans (hlast'.passes hsynced.1)⟩
        · have hsynced' := hsynced.trans (hlast'.passes hsynced.1)
          refine (wp_failCreated hnew prefix_rfl
            (by rw [hlast'.1, hlast.1, hcomplete])).mono (fun _ _ h => h) fun _ _ h => ?_
          exact ⟨fun hworks => hfails hworks.syncDirectory, hsynced'.trans h.1, h.2⟩
      · have hsynced := hwriting.trans (hlast.passes hwriting.1)
        refine (wp_failCreated hnew prefix_rfl (by rw [hlast.1, hcomplete])).mono
          (fun _ _ h => h) fun _ _ h => ?_
        exact ⟨fun hworks => hfails hworks.syncAll, hsynced.trans h.1, h.2⟩
    · refine (wp_failCreated hnew hpart hcut).mono (fun _ _ h => h) fun _ _ h => ?_
      exact ⟨hfails, (hcreating.trans hwritten).trans h.1, h.2⟩
  · intro e next hnext hfails
    exact ⟨fun hworks => hfails hworks hnew, hnext.passes (.inl rfl), .inr rfl⟩

/-! ### The states of a directory during a batch -/

/-- The states on the way from `directory` to the directory with all `candidates`: the next one
    is written in part, or it is complete, or it is not due. -/
inductive Grown : ObjectDirectory → List (String × ContextObject) → ObjectDirectory → Prop where
  | here (directory candidates) : Grown directory candidates directory
  | part {directory digest object candidates bytes}
      (hnew : directory.lookup (.utf8 digest) = none) (hpart : bytes <+: object.bytes) :
      Grown directory ((digest, object) :: candidates) (withFile directory digest bytes)
  | next {directory digest object candidates state}
      (hnew : directory.lookup (.utf8 digest) = none)
      (h : Grown (withFile directory digest object.bytes) candidates state) :
      Grown directory ((digest, object) :: candidates) state
  | skip {directory candidate candidates state} (h : Grown directory candidates state) :
      Grown directory (candidate :: candidates) state

namespace Grown

variable {directory state : ObjectDirectory} {candidates : List (String × ContextObject)}
  {name : FileName} {file : ObjectFile}

theorem keeps (h : Grown directory candidates state) (hfile : directory.lookup name = some file) :
    state.lookup name = some file := by
  have hne {directory : ObjectDirectory} {digest : String} {bytes : List UInt8}
      (hnew : directory.lookup (.utf8 digest) = none) (hfile : directory.lookup name = some file) :
      (withFile directory digest bytes).lookup name = some file := by
    rw [withFile, lookup_insert_ne, hfile]
    rintro rfl
    rw [hnew] at hfile
    cases hfile
  induction h with
  | here => exact hfile
  | part hnew _ => exact hne hnew hfile
  | next hnew _ ih => exact ih (hne hnew hfile)
  | skip _ ih => exact ih hfile

/-- A file is an earlier one, or holds part of a candidate. -/
theorem lookup (h : Grown directory candidates state) (hfile : state.lookup name = some file) :
    directory.lookup name = some file ∨
      ∃ candidate ∈ candidates, name = .utf8 candidate.1 ∧ file.kind = .file ∧
        file.bytes <+: candidate.2.bytes := by
  have hinsert {directory : ObjectDirectory} {digest : String} {bytes : List UInt8}
      (hfile : (withFile directory digest bytes).lookup name = some file) :
      directory.lookup name = some file ∨ name = .utf8 digest ∧ file = ⟨.file, bytes⟩ := by
    by_cases hname : name = .utf8 digest
    · subst hname
      rw [withFile, lookup_insert, some.injEq] at hfile
      exact .inr ⟨rfl, hfile.symm⟩
    · rw [withFile, lookup_insert_ne hname] at hfile
      exact .inl hfile
  induction h with
  | here => exact .inl hfile
  | part _ hpart =>
    rcases hinsert hfile with h | ⟨rfl, rfl⟩
    · exact .inl h
    · exact .inr ⟨_, mem_cons_self, rfl, rfl, hpart⟩
  | next _ _ ih =>
    rcases ih hfile with h | ⟨candidate, hmem, h⟩
    · rcases hinsert h with h | ⟨rfl, rfl⟩
      · exact .inl h
      · exact .inr ⟨_, mem_cons_self, rfl, rfl, prefix_rfl⟩
    · exact .inr ⟨candidate, mem_cons_of_mem _ hmem, h⟩
  | skip _ ih =>
    rcases ih hfile with h | ⟨candidate, hmem, h⟩
    · exact .inl h
    · exact .inr ⟨candidate, mem_cons_of_mem _ hmem, h⟩

end Grown

/-- The candidates without a file. -/
def missing (directory : ObjectDirectory) (candidates : List (String × ContextObject)) :
    List (String × ContextObject) :=
  candidates.filter fun candidate => (directory.lookup (.utf8 candidate.1)).isNone

variable {candidates : List (String × ContextObject)} {directory : ObjectDirectory}
  {digest : String}

theorem missing_cons_none (h : directory.lookup (.utf8 candidate.1) = none) :
    missing directory (candidate :: candidates) = candidate :: missing directory candidates := by
  rw [missing, filter_cons_of_pos (by rw [h]; rfl), missing]

theorem missing_cons_some
    (h : directory.lookup (.utf8 candidate.1) = some file) :
    missing directory (candidate :: candidates) = missing directory candidates := by
  rw [missing, filter_cons_of_neg (by rw [h]; simp), missing]

theorem missing_withFile (h : digest ∉ candidates.map Prod.fst) :
    missing (withFile directory digest bytes) candidates = missing directory candidates := by
  refine filter_congr fun candidate hmem => ?_
  rw [withFile, lookup_insert_ne]
  intro heq
  rw [FileName.utf8.injEq] at heq
  exact h (heq ▸ mem_map_of_mem hmem)

/-- What a directory weighs together with the candidates it lacks does not grow. -/
theorem Grown.weight_le {g : ContextObject → Nat}
    (hfg : ∀ object bytes, bytes <+: object.bytes → f ⟨.file, bytes⟩ ≤ g object)
    {directory state : ObjectDirectory}
    (hnodup : (candidates.map Prod.fst).Nodup) (h : Grown directory candidates state) :
    weight f state + ((missing state candidates).map fun candidate => g candidate.2).sum ≤
      weight f directory + ((missing directory candidates).map fun candidate => g candidate.2).sum := by
  induction h with
  | here => exact le_rfl
  | @part directory digest object candidates bytes hnew hpart =>
    rw [map_cons, nodup_cons] at hnodup
    have hfound : (withFile directory digest bytes).lookup (.utf8 digest) =
      some ⟨.file, bytes⟩ := lookup_insert _
    rw [missing_cons_some hfound, missing_cons_none hnew, missing_withFile hnodup.1, withFile,
      weight_insert hnew, map_cons, sum_cons]
    have hle := hfg object bytes hpart
    show _ + _ + _ ≤ _ + (g object + _)
    omega
  | @next directory digest object candidates state hnew h ih =>
    rw [map_cons, nodup_cons] at hnodup
    have hfound : (withFile directory digest object.bytes).lookup (.utf8 digest) =
      some ⟨.file, object.bytes⟩ := lookup_insert _
    have hle := ih hnodup.2
    rw [missing_cons_some (h.keeps hfound), missing_cons_none hnew]
    rw [missing_withFile hnodup.1, withFile, weight_insert hnew] at hle
    rw [map_cons, sum_cons]
    have hfull := hfg object object.bytes prefix_rfl
    show _ + _ ≤ _ + (g object + _)
    omega
  | @skip directory candidate candidates state h ih =>
    rw [map_cons, nodup_cons] at hnodup
    have hle := ih hnodup.2
    cases hfile : directory.lookup (.utf8 candidate.1) with
    | some file => rwa [missing_cons_some hfile, missing_cons_some (h.keeps hfile)]
    | none =>
      have hstate : state.lookup (.utf8 candidate.1) = none := by
        by_contra hsome
        obtain ⟨file, hsome⟩ := ne_none_iff_exists'.mp hsome
        rcases h.lookup hsome with hold | ⟨other, hmem, hname, -⟩
        · rw [hfile] at hold
          cases hold
        · rw [FileName.utf8.injEq] at hname
          exact hnodup.1 (hname ▸ mem_map_of_mem hmem)
      rw [missing_cons_none hfile, missing_cons_none hstate]
      simp only [map_cons, sum_cons]
      omega

/-! ### The inventory -/

/-- An inventory describes the files: how many, their lengths and all their bytes. -/
structure Describes (accountedBytes : Nat) (objects : StringMap RunObjectEntry)
    (directory : ObjectDirectory) : Prop where
  count : objects.size = directory.entries.length
  bytes : accountedBytes = totalBytes directory
  lengths : ∀ digest : String, objects[digest]?.map RunObjectEntry.length =
    (directory.lookup (.utf8 digest)).map fun file => file.bytes.length

def Accounts (writer : RunObjectWriter) (directory : ObjectDirectory) : Prop :=
  Describes writer.accountedBytes writer.objects directory

abbrev Store.Accounted (store : Store) : Prop := Accounts store.writer store.disk.directory

namespace Describes

variable {accountedBytes : Nat} {objects : StringMap RunObjectEntry} {directory : ObjectDirectory}

variable (h : Describes accountedBytes objects directory)
include h

theorem get_eq_none : objects[digest]? = none ↔ directory.lookup (.utf8 digest) = none := by
  rw [← map_eq_none_iff, h.lengths, map_eq_none_iff]

theorem insert
    {entry : RunObjectEntry} (hlength : entry.length = file.bytes.length)
    (hnew : directory.lookup (.utf8 digest) = none) :
    Describes (accountedBytes + file.bytes.length) (objects.insert digest entry)
      (directory.insert (.utf8 digest) file) := by
  constructor
  · have hnot : objects.contains digest = false := contains_eq_false.mpr (h.get_eq_none.mpr hnew)
    rw [Std.ExtTreeMap.size_insert, hnot, if_neg (by simp), h.count,
      entries_insert_of_notMem (lookup_eq_none.mp hnew), length_cons]
  · rw [totalBytes, weight_insert hnew, h.bytes, totalBytes, Nat.add_comm]
  · intro other
    rw [get_insert]
    by_cases heq : digest = other
    · subst heq
      rw [if_pos rfl, lookup_insert, map_some, map_some, hlength]
    · rw [if_neg heq, lookup_insert_ne, h.lengths]
      exact fun h => heq (FileName.utf8.inj h).symm

theorem modify (digest : String)
    {f : RunObjectEntry → RunObjectEntry} (hf : ∀ entry, (f entry).length = entry.length) :
    Describes accountedBytes (objects.modify digest f) directory := by
  constructor
  · rw [Std.ExtTreeMap.size_modify, h.count]
  · exact h.bytes
  · intro other
    rw [← h.lengths, Std.ExtTreeMap.getElem?_modify]
    split
    · next heq =>
        rw [Std.LawfulEqCmp.compare_eq_iff_eq] at heq
        subst heq
        cases objects[digest]? with
        | none => rfl
        | some entry => exact congrArg some (hf entry)
    · rfl

theorem perm {other : ObjectDirectory}
    (hperm : directory.entries.Perm other.entries) : Describes accountedBytes objects other := by
  constructor
  · rw [h.count, hperm.length_eq]
  · rw [h.bytes, totalBytes, totalBytes, weight_perm hperm]
  · intro digest
    rw [h.lengths, perm_lookup hperm]

omit h
end Describes

theorem accounts_markSynced (digests : List String)
    (h : Accounts store.writer directory) : Accounts (markSynced digests store).writer directory := by
  change Describes _ store.writer.objects _ at h
  change Describes _ (digests.foldl _ store.writer.objects) _
  generalize store.writer.objects = objects at h ⊢
  induction digests generalizing objects with
  | nil => exact h
  | cons digest digests ih => exact ih _ (h.modify digest fun _ => rfl)

/-! ### All new objects -/

theorem wp_createMissing (candidates : List (String × ContextObject))
    (hnodup : (candidates.map Prod.fst).Nodup)
    (hdigest : ∀ candidate ∈ candidates, candidate.1 = candidate.2.digest)
    (haccounts : store.Accounted) :
    wp (createMissing sys candidates) (fun _ next => next.Accounted ∧
        next.writer.failed = store.writer.failed ∧
        next.writer.maximumObjects = store.writer.maximumObjects ∧
        Passes (Grown store.disk.directory candidates) store.disk next.disk ∧
        ∀ candidate ∈ candidates, store.disk.directory.lookup (.utf8 candidate.1) = none →
          Holds next.disk.directory candidate.2)
      (fun _ next => ¬ sys.Works ∧
        Passes (Grown store.disk.directory candidates) store.disk next.disk ∧
        (next.writer.failed = false → next.Accounted ∧
          next.writer.maximumObjects = store.writer.maximumObjects))
      store := by
  induction candidates generalizing store with
  | nil =>
    exact ⟨haccounts, rfl, rfl, (SameFiles.refl _).passes (.here _ _), by simp⟩
  | cons candidate candidates ih =>
    obtain ⟨digest, object⟩ := candidate
    obtain ⟨hhead, hdigest⟩ := forall_mem_cons.mp hdigest
    replace hhead : digest = object.digest := hhead
    rw [map_cons, nodup_cons] at hnodup
    have hskip : ∀ state, Grown store.disk.directory candidates state →
        Grown store.disk.directory ((digest, object) :: candidates) state := fun _ => .skip
    simp only [createMissing, wp_bind, wp_read]
    cases hpresent : store.writer.objects.contains digest with
    | true =>
      have hfile : store.disk.directory.lookup (.utf8 digest) ≠ none := by
        obtain ⟨entry, hentry⟩ := contains_eq_true.mp hpresent
        rw [Ne, ← haccounts.get_eq_none, hentry]
        simp
      refine (ih hnodup.2 hdigest haccounts).mono (fun _ next h => ?_) fun _ next h => ?_
      · obtain ⟨haccounts, hfailed, hmax, hpasses, hholds⟩ := h
        refine ⟨haccounts, hfailed, hmax, hpasses.mono hskip, ?_⟩
        exact forall_mem_cons.mpr ⟨fun h => absurd h hfile, hholds⟩
      · exact ⟨h.1, h.2.1.mono hskip, h.2.2⟩
    | false =>
      have hnew : store.disk.directory.lookup (.utf8 digest) = none :=
        haccounts.get_eq_none.mp (contains_eq_false.mp hpresent)
      have hwriting : ∀ state, Writing store.disk.directory digest object.bytes state →
          Grown store.disk.directory ((digest, object) :: candidates) state := by
        rintro state (rfl | ⟨part, hpart, rfl⟩)
        · exact .here _ _
        · exact .part hnew hpart
      rw [if_neg (by simp), wp_bind]
      refine (wp_createObject digest object hhead (hhead ▸ hnew)).mono
        (fun _ next h => ?_) fun _ next h => ?_
      · obtain ⟨hwriter, hdirectory, hpasses⟩ := h
        have haccounts' : next.Accounted := by
          rw [Store.Accounted, hwriter, hdirectory]
          exact Describes.insert haccounts (show RunObjectEntry.length ⟨true, object.bytes.length⟩ =
              (ObjectFile.bytes ⟨.file, object.bytes⟩).length from rfl) hnew
        have hnext : ∀ state, Grown next.disk.directory candidates state →
            Grown store.disk.directory ((digest, object) :: candidates) state := by
          rw [hdirectory]
          exact fun _ => .next hnew
        refine (ih hnodup.2 hdigest haccounts').mono (fun _ last hlast => ?_) fun _ last hlast => ?_
        · obtain ⟨haccounts', hfailed, hmax, hpasses', hholds⟩ := hlast
          refine ⟨haccounts', by rw [hfailed, hwriter]; rfl, by rw [hmax, hwriter]; rfl,
            (hpasses.mono hwriting).trans (hpasses'.mono hnext), ?_⟩
          have hobject : Holds next.disk.directory object := by
            rw [Holds, hdirectory, withFile, hhead, lookup_insert]
          refine forall_mem_cons.mpr ⟨fun _ => hpasses'.1.keeps hobject, ?_⟩
          intro candidate hmem hnone
          refine hholds candidate hmem ?_
          rw [hdirectory, withFile, lookup_insert_ne, hnone]
          intro heq
          rw [FileName.utf8.injEq] at heq
          exact hnodup.1 (mem_map.mpr ⟨candidate, hmem, heq⟩)
        · refine ⟨hlast.1, (hpasses.mono hwriting).trans (hlast.2.1.mono hnext), fun hopen => ?_⟩
          obtain ⟨haccounts', hmax⟩ := hlast.2.2 hopen
          exact ⟨haccounts', by rw [hmax, hwriter]; rfl⟩
      · refine ⟨h.1, h.2.1.mono hwriting, fun hopen => ?_⟩
        rcases h.2.2 with ⟨hwriter, hdirectory⟩ | hclosed
        · rw [Store.Accounted, hwriter, hdirectory]
          exact ⟨haccounts, rfl⟩
        · rw [hclosed] at hopen
          cases hopen

end

/-! ## Admission -/

section
variable {sha256Hex : List UInt8 → String}

/-- An object that may be stored. -/
structure Proper (sha256Hex : List UInt8 → String) (object : ContextObject) : Prop where
  digest : Proto.isLowercaseSha256Hex object.digest.toList = true
  hash : sha256Hex object.bytes = object.digest
  size : object.bytes.length ≤ maxSessionObjectBytes

theorem parseRunObjectDigest_eq_ok {value digest : String} :
    parseRunObjectDigest value = .ok digest ↔
      Proto.isLowercaseSha256Hex value.toList = true ∧ digest = value := by
  unfold parseRunObjectDigest
  split <;> simp [*, eq_comm]

variable {candidates next : StringMap ContextObject} {object : ContextObject}

theorem addCandidate_eq_ok :
    addCandidate sha256Hex candidates object = .ok next ↔ Proper sha256Hex object ∧
        (∀ prior, candidates[object.digest]? = some prior → prior.bytes = object.bytes) ∧
        next = candidates.insert object.digest object := by
  simp only [addCandidate, bind_eq_ok, parseRunObjectDigest_eq_ok, refuseIf_eq_ok, exists_const,
    not_not, Nat.not_lt, pure, Except.pure, Except.ok.injEq]
  constructor
  · rintro ⟨_, ⟨hdigest, rfl⟩, hhash, hsize, hprior, rfl⟩
    refine ⟨⟨hdigest, hhash, hsize⟩, fun prior hfound => ?_, rfl⟩
    simpa [hfound] using hprior
  · rintro ⟨⟨hdigest, hhash, hsize⟩, hprior, rfl⟩
    refine ⟨_, ⟨hdigest, rfl⟩, hhash, hsize, ?_, rfl⟩
    cases hfound : candidates[object.digest]? with
    | none => simp
    | some prior => simp [hprior prior hfound]

/-- The candidates are the objects, by their digests. -/
structure Collected (sha256Hex : List UInt8 → String) (objects : List ContextObject)
    (candidates : StringMap ContextObject) : Prop where
  proper : ∀ object ∈ objects, Proper sha256Hex object
  get : ∀ object ∈ objects, candidates[object.digest]? = some object
  mem : ∀ (digest : String) object, candidates[digest]? = some object →
    digest = object.digest ∧ object ∈ objects

theorem Collected.add {done : List ContextObject}
    (h : Collected sha256Hex done candidates)
    (hadd : addCandidate sha256Hex candidates object = .ok next) :
    Collected sha256Hex (done ++ [object]) next := by
  obtain ⟨hproper, hprior, rfl⟩ := addCandidate_eq_ok.mp hadd
  constructor
  · simpa [or_imp, forall_and] using ⟨h.proper, hproper⟩
  · intro other hother
    rw [get_insert]
    by_cases heq : object.digest = other.digest
    · rw [if_pos heq]
      rcases mem_append.mp hother with hmem | hmem
      · have hbytes := hprior other (heq ▸ h.get other hmem)
        cases object
        cases other
        simp_all
      · rw [mem_singleton.mp hmem]
    · rw [if_neg heq]
      refine h.get other ((mem_append.mp hother).resolve_right fun hmem => heq ?_)
      rw [mem_singleton.mp hmem]
  · intro digest other hfound
    rw [get_insert] at hfound
    by_cases heq : object.digest = digest
    · rw [if_pos heq, some.injEq] at hfound
      subst hfound
      exact ⟨heq.symm, by simp⟩
    · rw [if_neg heq] at hfound
      exact (h.mem digest other hfound).imp_right fun hmem => mem_append_left _ hmem

theorem Collected.of_foldlM {objects done : List ContextObject}
    {candidates result : StringMap ContextObject} (h : Collected sha256Hex done candidates)
    (hfold : objects.foldlM (addCandidate sha256Hex) candidates = .ok result) :
    Collected sha256Hex (done ++ objects) result := by
  induction objects generalizing done candidates with
  | nil =>
    cases hfold
    simpa using h
  | cons object objects ih =>
    rw [foldlM_cons, bind_eq_ok] at hfold
    obtain ⟨next, hadd, hfold⟩ := hfold
    have := ih (h.add hadd) hfold
    rwa [append_assoc] at this

theorem foldlM_addObjectBytes {candidates : List (String × ContextObject)} {start total : Nat}
    (hstart : start < 2 ^ 64) :
    candidates.foldlM addObjectBytes start = .ok total ↔
      total = start + (candidates.map fun candidate => candidate.2.bytes.length).sum ∧
        total < 2 ^ 64 := by
  induction candidates generalizing start with
  | nil =>
    simp only [foldlM_nil, pure, Except.pure, Except.ok.injEq, map_nil, sum_nil]
    omega
  | cons candidate candidates ih =>
    rw [foldlM_cons, bind_eq_ok, map_cons, sum_cons]
    simp only [addObjectBytes, require_eq_ok, checkedAdd]
    by_cases hfits : start + candidate.2.bytes.length < 2 ^ 64
    · simp only [if_pos hfits, some.injEq, exists_eq_left', ih hfits, Nat.add_assoc]
    · simp only [if_neg hfits]
      constructor
      · rintro ⟨_, h, _⟩
        cases h
      · omega

/-- When a batch is admitted: the store is open, the objects are proper, and there is room. -/
theorem admitBatch_eq_ok {writer : RunObjectWriter} {objects : List ContextObject}
    (hbytes : writer.accountedBytes < 2 ^ 64) :
    admitBatch sha256Hex writer objects = .ok candidates ↔ writer.failed = false ∧
      objects.foldlM (addCandidate sha256Hex) ∅ = .ok candidates ∧
      writer.objects.size + (newCandidates writer candidates).length < 2 ^ 64 ∧
      writer.objects.size + (newCandidates writer candidates).length ≤ writer.maximumObjects ∧
      writer.accountedBytes + ((newCandidates writer candidates).map fun candidate =>
        candidate.2.bytes.length).sum ≤ maxSessionObjectTotalBytes := by
  have hlimit : maxSessionObjectTotalBytes < 2 ^ 64 := by decide
  simp only [admitBatch, bind_eq_ok, refuseIf_eq_ok, exists_const, require_eq_ok, checkedAdd,
    ensureSessionObjectTotal, foldlM_addObjectBytes hbytes, pure, Except.pure, Except.ok.injEq,
    Bool.not_eq_true, Nat.not_lt]
  constructor
  · rintro ⟨hopen, _, hfold, count, hcount, hmax, _, ⟨rfl, -⟩, htotal, rfl⟩
    split at hcount
    · cases hcount
      exact ⟨hopen, hfold, ‹_›, hmax, htotal⟩
    · cases hcount
  · rintro ⟨hopen, hfold, hcount, hmax, htotal⟩
    exact ⟨hopen, candidates, hfold, _, if_pos hcount, hmax, _, ⟨rfl, by omega⟩, htotal, rfl⟩

end

/-! ## A batch -/

section
variable {sys : ObjectSystem} {sha256Hex : List UInt8 → String} {store : Store}

variable {candidates : StringMap ContextObject} {objects : List ContextObject}
  {writer : RunObjectWriter}

theorem open_of_admitBatch
    (h : admitBatch sha256Hex writer objects = .ok candidates) :
    writer.failed = false := by
  obtain ⟨hopen, -⟩ := check_bind_eq_ok.mp h
  simpa using hopen

theorem Collected.of_admitBatch
    (h : admitBatch sha256Hex writer objects = .ok candidates) :
    Collected sha256Hex objects candidates := by
  obtain ⟨-, h⟩ := check_bind_eq_ok.mp h
  obtain ⟨_, hfold, h⟩ := bind_eq_ok.mp h
  obtain ⟨_, -, h⟩ := bind_eq_ok.mp h
  obtain ⟨-, h⟩ := check_bind_eq_ok.mp h
  obtain ⟨_, -, h⟩ := bind_eq_ok.mp h
  obtain ⟨-, h⟩ := check_bind_eq_ok.mp h
  cases h
  have hempty : Collected sha256Hex [] ∅ := ⟨by simp, by simp, by simp⟩
  simpa using Collected.of_foldlM hempty hfold

/-- Every object of a batch that has a file has its own. -/
def Intact (directory : ObjectDirectory) (objects : List ContextObject) : Prop :=
  ∀ object ∈ objects, directory.lookup (.utf8 object.digest) ≠ none → Holds directory object

theorem verified_iff_intact (haccounts : store.Accounted)
    (hcollected : Collected sha256Hex objects candidates) :
    Verified store candidates.toList ↔ Intact store.disk.directory objects := by
  constructor
  · intro h object hmem hfile
    rw [Ne, ← haccounts.get_eq_none] at hfile
    obtain ⟨entry, hentry⟩ := ne_none_iff_exists'.mp hfile
    exact h (object.digest, object) (mem_toList.mpr (hcollected.get object hmem)) entry hentry
  · intro h candidate hmem entry hentry
    obtain ⟨hdigest, hobject⟩ := hcollected.mem _ _ (mem_toList.mp hmem)
    refine h candidate.2 hobject ?_
    rw [Ne, ← haccounts.get_eq_none, ← hdigest, hentry]
    simp

theorem lengthsAgree (haccounts : store.Accounted)
    (hcollected : Collected sha256Hex objects candidates) :
    LengthsAgree store candidates.toList := by
  intro candidate hmem entry hentry hholds
  obtain ⟨hdigest, -⟩ := hcollected.mem _ _ (mem_toList.mp hmem)
  have hlengths := haccounts.lengths candidate.1
  rw [hentry, hdigest, hholds] at hlengths
  simpa using hlengths

/-- After a batch that returned. -/
structure Persisted (store : Store) (objects : List ContextObject)
    (candidates : StringMap ContextObject) (next : Store) : Prop where
  accounts : next.Accounted
  remainsOpen : next.writer.failed = false
  maximum : next.writer.maximumObjects = store.writer.maximumObjects
  passes : Passes (Grown store.disk.directory candidates.toList) store.disk next.disk
  holds : ∀ object ∈ objects, Holds next.disk.directory object

/-- After a batch that was admitted and failed. -/
structure Failed (sys : ObjectSystem) (store : Store) (objects : List ContextObject)
    (candidates : StringMap ContextObject) (next : Store) : Prop where
  passes : Passes (Grown store.disk.directory candidates.toList) store.disk next.disk
  accounts : next.writer.failed = false → next.Accounted ∧
    next.writer.maximumObjects = store.writer.maximumObjects
  notIntact : sys.Works → ¬ Intact store.disk.directory objects

theorem wp_createVerified {last : Store} (newly : List String) (hopen : store.writer.failed = false)
    (haccounts : store.Accounted)
    (hcollected : Collected sha256Hex objects candidates)
    (hintact : Intact store.disk.directory objects) (hwriter : last.writer = store.writer)
    (hsame : SameFiles store.disk last.disk) :
    wp (createMissing sys candidates.toList)
      (fun _ next => Persisted store objects candidates (markSynced newly next))
      (fun _ next => Failed sys store objects candidates next) last := by
  have hstart : Passes (Grown store.disk.directory candidates.toList) store.disk last.disk :=
    hsame.passes (.here _ _)
  have hdigest : ∀ candidate ∈ candidates.toList, candidate.1 = candidate.2.digest :=
    fun candidate hmem => (hcollected.mem _ _ (mem_toList.mp hmem)).1
  have hlast : last.Accounted := by rwa [Store.Accounted, hwriter, hsame.1]
  refine (wp_createMissing candidates.toList (nodup_fst_toList candidates) hdigest
    hlast).mono (fun _ next h => ?_) fun _ next h => ?_
  · rw [hwriter, hsame.1] at h
    obtain ⟨haccounts', hfailed, hmax, hpasses, hholds⟩ := h
    refine ⟨accounts_markSynced newly haccounts', hfailed.trans hopen, hmax,
      hstart.trans hpasses, fun object hmem => ?_⟩
    by_cases hfile : store.disk.directory.lookup (.utf8 object.digest) = none
    · exact hholds (object.digest, object) (mem_toList.mpr (hcollected.get object hmem)) hfile
    · exact hpasses.1.keeps (hintact object hmem hfile)
  · rw [hwriter, hsame.1] at h
    exact ⟨hstart.trans h.2.1, h.2.2, fun hworks => absurd hworks h.1⟩

/-- What a batch leaves: all its objects when it returns; when it fails, a state on the way. A
    store that is still open accounts for its files. -/
theorem wp_persist (objects : List ContextObject)
    (haccounts : store.writer.failed = false → store.Accounted) :
    wp (RunObjectWriter.persist sys sha256Hex objects)
      (fun _ next => ∃ candidates, admitBatch sha256Hex store.writer objects = .ok candidates ∧
        Persisted store objects candidates next)
      (fun e next => admitBatch sha256Hex store.writer objects = .error e ∧ next = store ∨
        ∃ candidates, admitBatch sha256Hex store.writer objects = .ok candidates ∧
          Failed sys store objects candidates next)
      store := by
  simp only [RunObjectWriter.persist, wp_bind, wp_read, wp_lift]
  refine ⟨fun candidates hadmitted => ?_, fun e hadmitted => .inl ⟨hadmitted, trivial⟩⟩
  have hcollected := Collected.of_admitBatch hadmitted
  have hopen := open_of_admitBatch hadmitted
  replace haccounts := haccounts hopen
  refine (wp_verifyExisting candidates.toList).mono (fun newly next h => ?_) fun e next h => ?_
  · obtain ⟨hwriter, hsame, hverified⟩ := h
    rw [verified_iff_intact haccounts hcollected] at hverified
    by_cases hnewly : newly.isEmpty
    · rw [if_pos hnewly, wp_bind]
      exact (wp_createVerified newly hopen haccounts hcollected hverified hwriter hsame).mono
        (fun _ _ h => ⟨candidates, hadmitted, h⟩) fun _ _ h => .inr ⟨candidates, hadmitted, h⟩
    · rw [if_neg hnewly]
      simp only [onDisk, wp_bind, wp_zoom]
      refine wp_call (fun last hlast => ?_) fun e last hlast hfails => ?_
      · refine (wp_createVerified newly hopen haccounts hcollected hverified ?_ ?_).mono
          (fun _ _ h => ⟨candidates, hadmitted, h⟩) fun _ _ h => .inr ⟨candidates, hadmitted, h⟩
        · exact hwriter
        · exact hsame.trans hlast
      refine .inr ⟨candidates, hadmitted, (hsame.trans hlast).passes (.here _ _), fun _ => ?_,
        fun hworks => absurd hworks.syncDirectory hfails⟩
      rw [Store.Accounted, hwriter, (hsame.trans hlast).1]
      exact ⟨haccounts, rfl⟩
  · refine .inr ⟨candidates, hadmitted, h.2.1.passes (.here _ _), fun hopen' => ?_, fun hworks => ?_⟩
    · rcases h.1 with hwriter | hclosed
      · rw [Store.Accounted, hwriter, h.2.1.1]
        exact ⟨haccounts, rfl⟩
      · rw [hclosed] at hopen'
        cases hopen'
    · rw [← verified_iff_intact haccounts hcollected]
      exact h.2.2 hworks (lengthsAgree haccounts hcollected)

end

end Watershed.FlowAgent.RunObjects
