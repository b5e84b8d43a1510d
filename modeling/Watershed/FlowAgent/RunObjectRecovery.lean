/-
  Runs of the object store with crashes: the inventory describes the files and stays within its
  limits, objects that were persisted keep their bytes, and a store can always be opened again.

  A batch that a crash interrupted can be persisted again exactly when no file of its objects was
  cut short. An object is written under its final name, and a file with part of its bytes is
  refused forever: `interrupted_batch_refused`.
-/
import Mathlib.Logic.Relation
import Watershed.FlowAgent.RunObjectBatches

namespace Watershed.FlowAgent.RunObjects

open Fallible List
open Watershed.Proto

/-! ## Opening -/

/-- A directory that can be inventoried. -/
structure Inventoried (directory : ObjectDirectory) : Prop where
  files : ∀ name file, directory.lookup name = some file → ∃ digest, name = .utf8 digest ∧
    isLowercaseSha256Hex digest.toList = true ∧ file.kind = .file ∧
    file.bytes.length ≤ maxSessionObjectBytes
  count : directory.entries.length ≤ maxSessionObjects
  bytes : totalBytes directory ≤ maxSessionObjectTotalBytes

section
variable {sys : ObjectSystem} {disk : ObjectDisk}
variable {maximumObjects accountedBytes : Nat} {objectDir : String} {object : ContextObject}
  {objects : StringMap RunObjectEntry}

theorem inventoryEntry_eq_ok {digest : String} {file : ObjectFile}
    (hdigest : isLowercaseSha256Hex digest.toList = true) (hkind : file.kind = .file)
    (hlength : file.bytes.length ≤ maxSessionObjectBytes) (hcount : objects.size < maximumObjects)
    (hbytes : accountedBytes + file.bytes.length < 2 ^ 64) :
    inventoryEntry maximumObjects accountedBytes objects (.utf8 digest) file =
      .ok (accountedBytes + file.bytes.length,
        objects.insert digest { directorySynced := false, length := file.bytes.length }) := by
  have hu32 : file.bytes.length < 2 ^ 32 := lt_of_le_of_lt hlength (by decide)
  simp only [inventoryEntry, bind_eq_ok, require_eq_ok, refuseIf_eq_ok, exists_const,
    parseRunObjectDigest_eq_ok]
  refine ⟨digest, rfl, ?_, hcount.ne, digest, ⟨hdigest, rfl⟩, by omega, _, if_pos hbytes, rfl⟩
  simp [hkind, hlength]

/-- The listing is counted on top of the files in `counted`. -/
theorem wp_inventory {counted : ObjectDirectory} (listing : Listing)
    (hdescribes : Describes accountedBytes objects counted) (hnodup : listing.NodupKeys)
    (hfiles : ∀ entry ∈ listing, counted.lookup entry.1 = none ∧
      ∃ digest, entry.1 = .utf8 digest ∧ isLowercaseSha256Hex digest.toList = true ∧
        entry.2.kind = .file ∧ entry.2.bytes.length ≤ maxSessionObjectBytes)
    (hcount : counted.entries.length + listing.length ≤ maximumObjects)
    (hbytes : totalBytes counted + (listing.map fun entry => entry.2.bytes.length).sum < 2 ^ 64) :
    wp (inventory sys objectDir maximumObjects listing accountedBytes objects)
      (fun result next => SameFiles disk next ∧ ∃ all : ObjectDirectory,
        all.entries.Perm (listing ++ counted.entries) ∧ Describes result.1 result.2 all)
      (fun _ next => SameFiles disk next ∧ ¬ sys.Works) disk := by
  induction listing generalizing disk accountedBytes objects counted with
  | nil => exact ⟨SameFiles.refl _, counted, List.Perm.refl _, hdescribes⟩
  | cons entry listing ih =>
    obtain ⟨name, file⟩ := entry
    rw [forall_mem_cons] at hfiles
    obtain ⟨⟨hnew, digest, rfl, hdigest, hkind, hlength⟩, hfiles⟩ := hfiles
    simp only [length_cons, map_cons, sum_cons] at hcount hbytes
    have hentry : inventoryEntry maximumObjects accountedBytes objects (.utf8 digest) file = _ :=
      inventoryEntry_eq_ok hdigest hkind hlength (by rw [hdescribes.count]; omega)
        (by rw [hdescribes.bytes]; omega)
    have hentries : (counted.insert (.utf8 digest) file).entries =
        ⟨.utf8 digest, file⟩ :: counted.entries :=
      AList.entries_insert_of_notMem (AList.lookup_eq_none.mp hnew)
    simp only [inventory, wp_bind, wp_mapError]
    refine wp_call (fun next hnext' => ?_) fun _ _ h hfails => ⟨h, fun hworks => hfails hworks.entries⟩
    refine wp_call (fun last hlast => ?_) fun _ _ h hfails =>
      ⟨hnext'.trans h, fun hworks => hfails hworks.metadata⟩
    rw [hentry]
    rw [nodupKeys_cons] at hnodup
    refine (ih (hdescribes.insert rfl hnew) hnodup.2 ?_ ?_ ?_).mono (fun result next h => ?_) fun _ next h => ?_
    · intro entry hmem
      refine ⟨?_, (hfiles entry hmem).2⟩
      rw [AList.lookup_insert_ne, (hfiles entry hmem).1]
      exact fun heq => hnodup.1 (mem_map.mpr ⟨entry, hmem, heq⟩)
    · rw [hentries, length_cons]
      omega
    · rw [totalBytes, weight_insert hnew]
      rw [totalBytes] at hbytes
      omega
    · obtain ⟨hsame, all, hperm, hall⟩ := h
      refine ⟨(hnext'.trans hlast).trans hsame, all, hperm.trans ?_, hall⟩
      rw [hentries]
      exact perm_middle
    · exact ⟨(hnext'.trans hlast).trans h.1, h.2⟩

/-- Opening counts all files; it only fails when a call fails. -/
theorem wp_open {listing : Listing} (hinventoried : Inventoried disk.directory)
    (hlisting : listing.Perm disk.directory.entries) :
    wp (RunObjectStore.open sys objectDir listing)
      (fun writer next => SameFiles disk next ∧ Accounts writer disk.directory ∧
        writer.failed = false ∧ writer.maximumObjects = maxSessionObjects)
      (fun _ next => SameFiles disk next ∧ ¬ sys.Works) disk := by
  have hempty : Describes 0 ∅ (∅ : ObjectDirectory) := ⟨rfl, rfl, by simp⟩
  have hnodup : listing.NodupKeys :=
    (perm_nodupKeys hlisting).mpr disk.directory.nodupKeys
  have hsum : (listing.map fun entry => entry.2.bytes.length).sum = totalBytes disk.directory :=
    (hlisting.map _).sum_nat
  have hbytes := hinventoried.bytes
  have hlimit : maxSessionObjectTotalBytes < 2 ^ 64 := by decide
  simp only [RunObjectStore.open, openWithLimit, wp_bind, wp_mapError]
  refine wp_call (fun next hnext => ?_) fun _ _ h hfails =>
    ⟨h, fun hworks => hfails hworks.openDirectory⟩
  refine wp_call (fun next' hnext' => ?_) fun _ _ h hfails =>
    ⟨hnext.trans h, fun hworks => hfails hworks.entries⟩
  have hsame := hnext.trans hnext'
  refine (wp_inventory listing hempty hnodup (fun entry hmem => ⟨AList.lookup_empty _, ?_⟩) ?_
    ?_).mono (fun result last h => ?_) fun _ last h => ⟨hsame.trans h.1, h.2⟩
  · refine hinventoried.files entry.1 entry.2 ?_
    exact AList.mem_lookup_iff.mpr (hlisting.mem_iff.mp hmem)
  · rw [hlisting.length_eq]
    simpa using hinventoried.count
  · simp only [totalBytes, weight, AList.empty_entries, map_nil, sum_nil] at *
    omega
  · obtain ⟨hlast, all, hperm, hall⟩ := h
    rw [AList.empty_entries, append_nil] at hperm
    have hdescribes := hall.perm (hperm.trans hlisting)
    have htotal : ensureSessionObjectTotal result.1 = .ok () := by
      rw [ensureSessionObjectTotal, refuseIf_eq_ok, hdescribes.bytes, Nat.not_lt]
      exact hbytes
    rw [htotal]
    exact ⟨hsame.trans hlast, hdescribes, rfl, rfl⟩

/-! ## Reading -/

/-- `build_session_object_uri`. -/
def objectUri (object : ContextObject) : String := sessionObjectUriPrefix ++ object.digest

theorem validateRecoveryObjectUri_objectUri (h : isLowercaseSha256Hex object.digest.toList = true) :
    validateRecoveryObjectUri (objectUri object) = .ok object.digest := by
  simp [validateRecoveryObjectUri, parseSessionObjectUri, objectUri, h]

theorem read_holds {sha256Hex : List UInt8 → String} {store : Store}
    (hworks : sys.Works) (hopen : store.writer.failed = false) (hproper : Proper sha256Hex object)
    (hholds : Holds store.disk.directory object) :
    (RunObjectStore.read sys sha256Hex (objectUri object) store).1 = .ok object.bytes := by
  have hsize := hproper.size
  have hwp : wp (RunObjectStore.read sys sha256Hex (objectUri object))
      (fun bytes _ => bytes = object.bytes) (fun _ _ => False) store := by
    have hrefuse {message : String} {refused : Prop} [Decidable refused] (h : ¬ refused) :
        refuseIf refused message = .ok () := refuseIf_eq_ok.mpr h
    simp only [RunObjectStore.read, readRunObjectUri, onDisk, wp_bind, wp_read, wp_zoom,
      hrefuse (show ¬ store.writer.failed = true by simp [hopen]),
      validateRecoveryObjectUri_objectUri hproper.digest]
    refine wp_openAnchoredFile (fun file next _ hfile _ => ?_) fun _ _ _ h => ?_
    · rw [hholds, Option.some.injEq] at hfile
      subst hfile
      rw [hrefuse (by simpa using hsize), wp_lift_ok, wp_mapError]
      refine wp_readToEnd (fun last _ => ?_) fun _ _ _ h => h hworks
      rw [take_of_length_le (Nat.le_succ_of_le hsize), hrefuse (by simpa using hsize),
        hrefuse (by simp [hproper.hash])]
      rfl
    · exact h hworks _ hholds rfl
  obtain ⟨bytes, next, heq, rfl⟩ := hwp.returns
  rw [heq]

end

/-! ## Batches and limits -/

section
variable {sha256Hex : List UInt8 → String} {writer : RunObjectWriter}
  {directory state : ObjectDirectory} {objects : List ContextObject}
  {candidates : StringMap ContextObject}

theorem newCandidates_eq (h : Accounts writer directory) :
    newCandidates writer candidates = missing directory candidates.toList := by
  refine filter_congr fun candidate _ => ?_
  cases hcontains : writer.objects.contains candidate.1 with
  | true =>
    obtain ⟨entry, hentry⟩ := StringMap.contains_eq_true.mp hcontains
    have hfile : directory.lookup (.utf8 candidate.1) ≠ none := by
      rw [Ne, ← h.get_eq_none, hentry]
      simp
    simpa [Option.isSome_iff_ne_none] using hfile
  | false =>
    rw [h.get_eq_none.mp (StringMap.contains_eq_false.mp hcontains)]
    rfl

/-- A batch has room: all its objects fit beside the files. -/
structure Fits (directory : ObjectDirectory) (candidates : StringMap ContextObject) : Prop where
  count : directory.entries.length + (missing directory candidates.toList).length ≤ maxSessionObjects
  bytes : totalBytes directory + ((missing directory candidates.toList).map fun candidate =>
    candidate.2.bytes.length).sum ≤ maxSessionObjectTotalBytes

theorem Fits.grown (h : Fits directory candidates)
    (hgrown : Grown directory candidates.toList state) : Fits state candidates := by
  have hnodup := StringMap.nodup_fst_toList candidates
  have hcount := hgrown.weight_le (f := fun _ => 1) (fun _ _ _ => le_rfl) hnodup
  have hbytes := hgrown.weight_le (f := fun file => file.bytes.length)
    (fun _ _ hpart => hpart.length_le) hnodup
  simp only [weight_one, map_const', sum_replicate_nat, mul_one] at hcount
  exact ⟨hcount.trans h.count, hbytes.trans h.bytes⟩

theorem admitBatch_iff_fits (haccounts : Accounts writer directory) (hopen : writer.failed = false)
    (hmax : writer.maximumObjects = maxSessionObjects)
    (hbytes : totalBytes directory ≤ maxSessionObjectTotalBytes) :
    admitBatch sha256Hex writer objects = .ok candidates ↔
      objects.foldlM (addCandidate sha256Hex) ∅ = .ok candidates ∧ Fits directory candidates := by
  have hlimit : maxSessionObjectTotalBytes < 2 ^ 64 := by decide
  have hcountLimit : maxSessionObjects < 2 ^ 64 := by decide
  have haccounted : writer.accountedBytes = totalBytes directory := haccounts.bytes
  rw [admitBatch_eq_ok (by omega), newCandidates_eq haccounts, haccounts.count, hmax, haccounted]
  constructor
  · rintro ⟨-, hfold, -, hcount, htotal⟩
    exact ⟨hfold, hcount, htotal⟩
  · rintro ⟨hfold, hfits⟩
    exact ⟨hopen, hfold, lt_of_le_of_lt hfits.count hcountLimit, hfits.count, hfits.bytes⟩

/-- Every state on the way of an admitted batch can be inventoried. -/
theorem Inventoried.grown (h : Inventoried directory) (hfits : Fits directory candidates)
    (hcollected : Collected sha256Hex objects candidates)
    (hgrown : Grown directory candidates.toList state) : Inventoried state := by
  have hfits' := hfits.grown hgrown
  refine ⟨fun name file hfile => ?_, by have := hfits'.count; omega, by have := hfits'.bytes; omega⟩
  rcases hgrown.lookup hfile with hold | ⟨candidate, hmem, rfl, hkind, hpart⟩
  · exact h.files name file hold
  · obtain ⟨hdigest, hobject⟩ := hcollected.mem _ _ (StringMap.mem_toList.mp hmem)
    have hproper := hcollected.proper _ hobject
    exact ⟨candidate.1, rfl, hdigest ▸ hproper.digest, hkind,
      hpart.length_le.trans hproper.size⟩

end

/-! ## Runs -/

/-- The directory, the store of the process that is alive, and the objects of all batches that
    returned. -/
structure Session where
  directory : ObjectDirectory
  writer : Option RunObjectWriter
  persisted : List ContextObject

def Session.fresh : Session := { directory := ∅, writer := none, persisted := [] }

/-- One step of a run, with any answers of the system: a process opens the store, a batch returns,
    fails, or is cut off at any point, or the process ends. -/
inductive Step (sha256Hex : List UInt8 → String) : Session → Session → Prop where
  | opens {session writer disk} (sys : ObjectSystem) (objectDir : String) (listing : Listing)
      (hlisting : listing.Perm session.directory.entries)
      (h : RunObjectStore.open sys objectDir listing (.start session.directory) =
        (.ok writer, disk)) :
      Step sha256Hex session
        { session with directory := disk.directory, writer := some writer }
  | persists {session writer next} (sys : ObjectSystem) (objects : List ContextObject)
      (hwriter : session.writer = some writer)
      (h : RunObjectStore.persist sys sha256Hex objects ⟨writer, .start session.directory⟩ =
        (.ok (), next)) :
      Step sha256Hex session
        { directory := next.disk.directory, writer := some next.writer,
          persisted := session.persisted ++ objects }
  | fails {session writer error next} (sys : ObjectSystem) (objects : List ContextObject)
      (hwriter : session.writer = some writer)
      (h : RunObjectStore.persist sys sha256Hex objects ⟨writer, .start session.directory⟩ =
        (.error error, next)) :
      Step sha256Hex session
        { session with directory := next.disk.directory, writer := some next.writer }
  | crashes {session writer crashed} (sys : ObjectSystem) (objects : List ContextObject)
      (hwriter : session.writer = some writer)
      (h : crashed ∈ (RunObjectStore.persist sys sha256Hex objects
        ⟨writer, .start session.directory⟩).2.disk.passed) :
      Step sha256Hex session { session with directory := crashed, writer := none }
  | stops {session} : Step sha256Hex session { session with writer := none }

def Run (sha256Hex : List UInt8 → String) : Session → Prop :=
  Relation.ReflTransGen (Step sha256Hex) Session.fresh

structure Session.Invariant (sha256Hex : List UInt8 → String) (session : Session) : Prop where
  inventoried : Inventoried session.directory
  accounts : ∀ writer, session.writer = some writer → writer.failed = false →
    Accounts writer session.directory ∧ writer.maximumObjects = maxSessionObjects
  holds : ∀ object ∈ session.persisted,
    Proper sha256Hex object ∧ Holds session.directory object

section
variable {sha256Hex : List UInt8 → String} {sys : ObjectSystem} {session : Session}
  {writer : RunObjectWriter} {objects : List ContextObject}

variable (h : session.Invariant sha256Hex)
include h

/-- What a batch does to a session: nothing when it is refused, else it moves on the way to the
    directory with all its objects. -/
theorem Session.Invariant.wp_persist
    (hwriter : session.writer = some writer) (hobjects : objects ≠ []) :
    wp (RunObjectStore.persist sys sha256Hex objects)
      (fun _ next => ∃ candidates, admitBatch sha256Hex writer objects = .ok candidates ∧
        Fits session.directory candidates ∧
        Persisted ⟨writer, .start session.directory⟩ objects candidates next)
      (fun _ next => next = ⟨writer, .start session.directory⟩ ∨
        ∃ candidates, admitBatch sha256Hex writer objects = .ok candidates ∧
          Fits session.directory candidates ∧
          Failed sys ⟨writer, .start session.directory⟩ objects candidates next)
      ⟨writer, .start session.directory⟩ := by
  have hfits {candidates} (hadmitted : admitBatch sha256Hex writer objects = .ok candidates) :
      Fits session.directory candidates := by
    have hopen := open_of_admitBatch hadmitted
    obtain ⟨haccounts, hmax⟩ := h.accounts writer hwriter hopen
    exact ((admitBatch_iff_fits haccounts hopen hmax h.inventoried.bytes).mp hadmitted).2
  rw [RunObjectStore.persist, if_neg (by simpa using hobjects)]
  refine (RunObjects.wp_persist objects fun hopen => (h.accounts writer hwriter hopen).1).mono
    ?_ ?_
  · rintro _ next ⟨candidates, hadmitted, hpersisted⟩
    exact ⟨candidates, hadmitted, hfits hadmitted, hpersisted⟩
  · rintro _ next (⟨-, rfl⟩ | ⟨candidates, hadmitted, hfailed⟩)
    · exact .inl rfl
    · exact .inr ⟨candidates, hadmitted, hfits hadmitted, hfailed⟩

/-- A session whose directory is on the way of an admitted batch. -/
theorem Session.Invariant.grown {candidates : StringMap ContextObject} {state : ObjectDirectory}
    (hadmitted : admitBatch sha256Hex writer objects = .ok candidates)
    (hfits : Fits session.directory candidates)
    (hgrown : Grown session.directory candidates.toList state) {current : Option RunObjectWriter}
    (hcurrent : ∀ writer, current = some writer → writer.failed = false →
      Accounts writer state ∧ writer.maximumObjects = maxSessionObjects) :
    Session.Invariant sha256Hex { session with directory := state, writer := current } where
  inventoried := h.inventoried.grown hfits (Collected.of_admitBatch hadmitted) hgrown
  accounts := hcurrent
  holds object hmem := (h.holds object hmem).imp_right hgrown.keeps

/-- Every state that a batch passes through is on its way. -/
theorem Session.Invariant.of_passed
    (hwriter : session.writer = some writer) {crashed : ObjectDirectory}
    (hcrashed : crashed ∈ (RunObjectStore.persist sys sha256Hex objects
      ⟨writer, .start session.directory⟩).2.disk.passed) :
    crashed = session.directory ∨
      ∃ candidates, admitBatch sha256Hex writer objects = .ok candidates ∧
        Fits session.directory candidates ∧
        Grown session.directory candidates.toList crashed := by
  by_cases hobjects : objects = []
  · subst hobjects
    exact .inl (mem_singleton.mp hcrashed)
  rcases hresult : RunObjectStore.persist sys sha256Hex objects
    ⟨writer, .start session.directory⟩ with ⟨error | _, next⟩
  · rw [hresult] at hcrashed
    rcases (h.wp_persist hwriter hobjects).of_error hresult with
      rfl | ⟨candidates, hadmitted, hfits, hfailed⟩
    · exact .inl (mem_singleton.mp hcrashed)
    · exact (hfailed.passes.2 crashed hcrashed).imp mem_singleton.mp fun hgrown =>
        ⟨candidates, hadmitted, hfits, hgrown⟩
  · rw [hresult] at hcrashed
    obtain ⟨candidates, hadmitted, hfits, hpersisted⟩ :=
      (h.wp_persist hwriter hobjects).of_ok hresult
    exact (hpersisted.passes.2 crashed hcrashed).imp mem_singleton.mp fun hgrown =>
      ⟨candidates, hadmitted, hfits, hgrown⟩

theorem Session.Invariant.step {next : Session}
    (hstep : Step sha256Hex session next) : next.Invariant sha256Hex := by
  cases hstep with
  | @opens writer disk sys objectDir listing hlisting hopen =>
    have hwp : wp (RunObjectStore.open sys objectDir listing) _ _ (.start session.directory) :=
      wp_open h.inventoried hlisting
    obtain ⟨hsame, haccounts, -, hmax⟩ := hwp.of_ok hopen
    have hdirectory : disk.directory = session.directory := hsame.1
    rw [hdirectory]
    refine ⟨h.inventoried, ?_, h.holds⟩
    rintro _ ⟨⟩ -
    exact ⟨haccounts, hmax⟩
  | @persists writer next sys objects hwriter hpersist =>
    by_cases hobjects : objects = []
    · subst hobjects
      cases hpersist
      rw [append_nil]
      exact ⟨h.inventoried, hwriter ▸ h.accounts, h.holds⟩
    obtain ⟨candidates, hadmitted, hfits, hpersisted⟩ :=
      (h.wp_persist hwriter hobjects).of_ok hpersist
    have hmax := (h.accounts writer hwriter (open_of_admitBatch hadmitted)).2
    have hgrown : Session.Invariant sha256Hex
        { session with directory := next.disk.directory, writer := some next.writer } := by
      refine h.grown hadmitted hfits hpersisted.passes.1 ?_
      rintro _ ⟨⟩ -
      exact ⟨hpersisted.accounts, hpersisted.maximum.trans hmax⟩
    refine ⟨hgrown.inventoried, hgrown.accounts, fun object hmem => ?_⟩
    rcases mem_append.mp hmem with hmem | hmem
    · exact hgrown.holds object hmem
    · exact ⟨(Collected.of_admitBatch hadmitted).proper object hmem, hpersisted.holds object hmem⟩
  | @fails writer error next sys objects hwriter hpersist =>
    by_cases hobjects : objects = []
    · subst hobjects
      cases hpersist
    rcases (h.wp_persist hwriter hobjects).of_error hpersist with
      rfl | ⟨candidates, hadmitted, hfits, hfailed⟩
    · exact ⟨h.inventoried, hwriter ▸ h.accounts, h.holds⟩
    · have hmax := (h.accounts writer hwriter (open_of_admitBatch hadmitted)).2
      refine h.grown hadmitted hfits hfailed.passes.1 ?_
      rintro _ ⟨⟩ hstillOpen
      exact (hfailed.accounts hstillOpen).imp_right fun hm => hm.trans hmax
  | @crashes writer crashed sys objects hwriter hcrashed =>
    rcases h.of_passed hwriter hcrashed with rfl | ⟨candidates, hadmitted, hfits, hgrown⟩
    · exact ⟨h.inventoried, by rintro _ ⟨⟩, h.holds⟩
    · exact h.grown hadmitted hfits hgrown (by rintro _ ⟨⟩)
  | stops => exact ⟨h.inventoried, by rintro _ ⟨⟩, h.holds⟩


omit h
theorem Run.invariant (h : Run sha256Hex session) : session.Invariant sha256Hex := by
  induction h with
  | refl =>
    refine ⟨⟨by simp [Session.fresh], by decide, by decide⟩, by simp [Session.fresh],
      by simp [Session.fresh]⟩
  | tail _ hstep ih => exact ih.step hstep

end

/-! ## Crashes -/

/-- A batch is persisted, and its objects and the earlier ones can be read. -/
def PersistsAndReads (sys : ObjectSystem) (sha256Hex : List UInt8 → String)
    (objects earlier : List ContextObject) (store : Store) : Prop :=
  ∃ next, RunObjectStore.persist sys sha256Hex objects store = (.ok (), next) ∧
    ∀ object ∈ objects ++ earlier,
      (RunObjectStore.read sys sha256Hex (objectUri object) next).1 = .ok object.bytes

section
variable {sha256Hex : List UInt8 → String} {objects earlier : List ContextObject}
variable {candidates : StringMap ContextObject}

/-- An open store takes a batch exactly when the batch's files are intact. -/
theorem persistsAndReads_iff {sys : ObjectSystem} {store : Store} (hworks : sys.Works)
    (haccounts : Accounts store.writer store.disk.directory) (hopen : store.writer.failed = false)
    (hadmitted : admitBatch sha256Hex store.writer objects = .ok candidates)
    (hearlier : ∀ object ∈ earlier, Proper sha256Hex object ∧ Holds store.disk.directory object) :
    PersistsAndReads sys sha256Hex objects earlier store ↔
      Intact store.disk.directory objects := by
  by_cases hobjects : objects = []
  · subst hobjects
    refine ⟨fun _ => by simp [Intact], fun _ => ⟨store, rfl, fun object hmem => ?_⟩⟩
    obtain ⟨hproper, hholds⟩ := hearlier object hmem
    exact read_holds hworks hopen hproper hholds
  have hpersist : RunObjectStore.persist sys sha256Hex objects =
      RunObjectWriter.persist sys sha256Hex objects := if_neg (by simpa using hobjects)
  have hwp : wp (RunObjectWriter.persist sys sha256Hex objects) _ _ store :=
    wp_persist objects fun _ => haccounts
  rw [PersistsAndReads, hpersist]
  constructor
  · rintro ⟨next, hnext, -⟩ object hmem hfile
    obtain ⟨_, -, hpersisted⟩ := hwp.of_ok hnext
    -- The file was there before the batch and is complete after it, and files are kept.
    obtain ⟨file, hfile⟩ := Option.ne_none_iff_exists'.mp hfile
    have hafter := hpersisted.holds object hmem
    rw [Holds, hpersisted.passes.1.keeps hfile] at hafter
    rw [Holds, hfile, hafter]
  · intro hintact
    have hreturns := hwp.mono (fun _ _ h => h) fun e next h => by
      rcases h with ⟨herror, -⟩ | ⟨_, -, hfailed⟩
      · rw [hadmitted] at herror
        cases herror
      · exact hfailed.notIntact hworks hintact
    obtain ⟨_, next, hnext, _, hadmitted', hpersisted⟩ := hreturns.returns
    refine ⟨next, hnext, fun object hmem => ?_⟩
    rcases mem_append.mp hmem with hmem | hmem
    · exact read_holds hworks hpersisted.remainsOpen
        ((Collected.of_admitBatch hadmitted').proper object hmem) (hpersisted.holds object hmem)
    · obtain ⟨hproper, hholds⟩ := hearlier object hmem
      exact read_holds hworks hpersisted.remainsOpen hproper (hpersisted.passes.1.keeps hholds)

/-- After a crash: the store can be opened, and the batch is taken again exactly when its files are
    intact. -/
theorem Session.Invariant.recovers {session : Session} {writer : RunObjectWriter}
    {sys recovering : ObjectSystem}
    {crashed : ObjectDirectory} {objectDir : String} {listing : Listing}
    (h : session.Invariant sha256Hex) (hwriter : session.writer = some writer)
    (hadmitted : admitBatch sha256Hex writer objects = .ok candidates)
    (hcrashed : crashed ∈ (RunObjectStore.persist sys sha256Hex objects
      ⟨writer, .start session.directory⟩).2.disk.passed)
    (hworks : recovering.Works) (hlisting : listing.Perm crashed.entries) :
    ∃ reopened disk,
      RunObjectStore.open recovering objectDir listing (.start crashed) = (.ok reopened, disk) ∧
        (PersistsAndReads recovering sha256Hex objects session.persisted ⟨reopened, disk⟩ ↔
          Intact crashed objects) := by
  have hopen := open_of_admitBatch hadmitted
  obtain ⟨haccounts, hmax⟩ := h.accounts writer hwriter hopen
  obtain ⟨hfold, hfits⟩ := (admitBatch_iff_fits haccounts hopen hmax h.inventoried.bytes).mp hadmitted
  have hgrown : Grown session.directory candidates.toList crashed := by
    rcases h.of_passed hwriter hcrashed with rfl | ⟨candidates', hadmitted', -, hgrown⟩
    · exact .here _ _
    · rw [hadmitted, Except.ok.injEq] at hadmitted'
      rwa [hadmitted']
  have hinventoried : Inventoried crashed :=
    h.inventoried.grown hfits (Collected.of_admitBatch hadmitted) hgrown
  have hreopen : wp (RunObjectStore.open recovering objectDir listing) _ _ (.start crashed) :=
    wp_open hinventoried hlisting
  obtain ⟨reopened, disk, heq, hsame, haccounts', hopen', hmax'⟩ :=
    (hreopen.mono (fun _ _ h => h) fun _ _ h => h.2 hworks).returns
  have hdirectory : disk.directory = crashed := hsame.1
  have hadmitted' : admitBatch sha256Hex reopened objects = .ok candidates :=
    (admitBatch_iff_fits haccounts' hopen' hmax' hinventoried.bytes).mpr ⟨hfold, hfits.grown hgrown⟩
  refine ⟨reopened, disk, heq, ?_⟩
  rw [← hdirectory]
  refine persistsAndReads_iff hworks (hdirectory ▸ haccounts') hopen' hadmitted' fun object hmem => ?_
  rw [hdirectory]
  exact (h.holds object hmem).imp_right hgrown.keeps

/-- In every run, with any batches, failures and crashes: the store accounts for the files and
    stays within its limits, persisted objects keep their bytes, and after a crash the store can
    be opened and takes the interrupted batch again exactly when every file of the batch's objects
    is complete. -/
theorem run_objects_crash_consistent {session : Session} (hrun : Run sha256Hex session) :
    (session.directory.entries.length ≤ maxSessionObjects ∧
      totalBytes session.directory ≤ maxSessionObjectTotalBytes) ∧
    (∀ writer usage, session.writer = some writer →
      RunObjectStore.usageSnapshot writer = .ok usage →
      usage.objectCount = session.directory.entries.length ∧
        usage.objectBytes = totalBytes session.directory) ∧
    (∀ object ∈ session.persisted,
      session.directory.lookup (.utf8 object.digest) = some ⟨.file, object.bytes⟩) ∧
    ∀ writer objects candidates sys crashed, session.writer = some writer →
      admitBatch sha256Hex writer objects = .ok candidates →
      crashed ∈ (RunObjectStore.persist sys sha256Hex objects
        ⟨writer, .start session.directory⟩).2.disk.passed →
      ∀ recovering objectDir listing, recovering.Works → listing.Perm crashed.entries →
        ∃ reopened disk,
          RunObjectStore.open recovering objectDir listing (.start crashed) = (.ok reopened, disk) ∧
          (PersistsAndReads recovering sha256Hex objects session.persisted ⟨reopened, disk⟩ ↔
            ∀ object ∈ objects, ∀ file, crashed.lookup (.utf8 object.digest) = some file →
              file = ⟨.file, object.bytes⟩) := by
  have h := hrun.invariant
  refine ⟨⟨h.inventoried.count, h.inventoried.bytes⟩, fun writer usage hwriter husage => ?_,
    fun object hmem => (h.holds object hmem).2, ?_⟩
  · obtain ⟨hopen, husage⟩ := check_bind_eq_ok.mp husage
    cases husage
    obtain ⟨haccounts, -⟩ := h.accounts writer hwriter (by simpa using hopen)
    exact ⟨haccounts.count, haccounts.bytes⟩
  · intro writer objects candidates sys crashed hwriter hadmitted hcrashed recovering objectDir
      listing hworks hlisting
    obtain ⟨reopened, disk, hopen, hiff⟩ :=
      h.recovers hwriter hadmitted hcrashed hworks hlisting
    refine ⟨reopened, disk, hopen, hiff.trans ?_⟩
    refine forall₂_congr fun object _ => ?_
    unfold Holds
    cases crashed.lookup (.utf8 object.digest) <;> simp

end

/-! ## A batch that is cut off -/

/-- Every call succeeds. -/
def ObjectSystem.working : ObjectSystem where
  openDirectory _ := none
  entries _ := none
  metadata _ := none
  openFile _ := none
  readToEnd _ := none
  create _ := none
  write _ := none
  syncCheckpoint _ := none
  syncAll _ := none
  syncDirectory _ := none
  remove _ := none
  notFound := "No such file or directory"

theorem ObjectSystem.working_works : ObjectSystem.working.Works := by
  constructor <;> exact fun _ => rfl

/-- The digests of `a` and of the empty text. -/
def sampleSha256Hex (bytes : List UInt8) : String :=
  if bytes = [97] then "ca978112ca1bbdcafac231b39a23dc4da786eff8147c4e72b9807785afee48bb"
  else "e3b0c44298fc1c149afbf4c8996fb92427ae41e4649b934ca495991b7852b855"

def sampleObject : ContextObject where
  bytes := [97]
  digest := "ca978112ca1bbdcafac231b39a23dc4da786eff8147c4e72b9807785afee48bb"

/-- The store of an empty directory. -/
def sampleWriter : RunObjectWriter where
  accountedBytes := 0
  failed := false
  maximumObjects := maxSessionObjects
  objectDir := "objects"
  objects := ∅

def sampleSession : Session := { directory := ∅, writer := some sampleWriter, persisted := [] }

theorem sampleSession_run : Run sampleSha256Hex sampleSession := by
  refine Relation.ReflTransGen.single ?_
  exact @Step.opens sampleSha256Hex Session.fresh _ _ .working "objects" [] (List.Perm.refl _) rfl

theorem sampleObject_admitted :
    admitBatch sampleSha256Hex sampleWriter [sampleObject] =
      .ok ((∅ : StringMap ContextObject).insert sampleObject.digest sampleObject) := by
  rfl

/-- The file was created and nothing was written to it. -/
def sampleCrash : ObjectDirectory := withFile ∅ sampleObject.digest []

/-- A crash after the whole file was written. -/
def sampleComplete : ObjectDirectory := withFile ∅ sampleObject.digest sampleObject.bytes

theorem sampleObject_passed :
    (RunObjectStore.persist .working sampleSha256Hex [sampleObject]
      ⟨sampleWriter, .start sampleSession.directory⟩).2.disk.passed =
      [∅, sampleCrash, sampleCrash, sampleComplete] := by
  rfl

/-- A crash right after the file of an object was created: the store opens again, refuses the
    batch, and is closed. -/
theorem interrupted_batch_refused :
    Run sampleSha256Hex sampleSession ∧ sampleSession.writer = some sampleWriter ∧
    (∃ candidates, admitBatch sampleSha256Hex sampleWriter [sampleObject] = .ok candidates) ∧
    sampleCrash ∈ (RunObjectStore.persist .working sampleSha256Hex [sampleObject]
      ⟨sampleWriter, .start sampleSession.directory⟩).2.disk.passed ∧
    ∃ reopened disk next,
      RunObjectStore.open .working "objects" sampleCrash.entries (.start sampleCrash) =
        (.ok reopened, disk) ∧
      RunObjectStore.persist .working sampleSha256Hex [sampleObject] ⟨reopened, disk⟩ =
        (.error (.protocol "existing run object does not match its digest"), next) ∧
      next.writer.failed = true := by
  refine ⟨sampleSession_run, rfl, ⟨_, sampleObject_admitted⟩, ?_, _, _, _, rfl, rfl, rfl⟩
  rw [sampleObject_passed]
  simp

theorem run_objects_crash_consistent_complete :
    Run sampleSha256Hex sampleSession ∧
    sampleComplete ∈ (RunObjectStore.persist .working sampleSha256Hex [sampleObject]
      ⟨sampleWriter, .start sampleSession.directory⟩).2.disk.passed ∧
    ∃ reopened disk,
      RunObjectStore.open .working "objects" sampleComplete.entries (.start sampleComplete) =
        (.ok reopened, disk) ∧
      PersistsAndReads .working sampleSha256Hex [sampleObject] [] ⟨reopened, disk⟩ := by
  have hpassed : sampleComplete ∈ [∅, sampleCrash, sampleCrash, sampleComplete] := by simp
  rw [← sampleObject_passed] at hpassed
  obtain ⟨reopened, disk, hopen, hiff⟩ :=
    (run_objects_crash_consistent sampleSession_run).2.2.2 sampleWriter _ _ .working _ rfl
      sampleObject_admitted hpassed .working "objects" _ ObjectSystem.working_works
      (List.Perm.refl _)
  refine ⟨sampleSession_run, hpassed, reopened, disk, hopen, hiff.mpr ?_⟩
  intro object hmem file hfile
  rw [mem_singleton.mp hmem] at hfile ⊢
  rw [sampleComplete, withFile, AList.lookup_insert, Option.some.injEq] at hfile
  exact hfile.symm

end Watershed.FlowAgent.RunObjects
