/-
  Committing, rolling back, and the whole of `Workspace.apply`.

  `Effect` says what a mutation does to the documents that the store shows, and `Stored` that
  a store came to hold exactly that. `apply_spec` reduces `apply` to the two: it ends in a
  Workspace that agrees with its store, and either the store holds the effect with its Action
  or it holds what it held before.
-/
import Watershed.Liquid.WriteSpec

open List

namespace Watershed.Liquid

open Fallible (wp wp_bind wp_read)

variable {P : Platform} {S : Store P.automerge} {ws ws' : Workspace P S}

/-! ## Committing documents -/

/-- The changes of one document among those of an Action. -/
def hashesOf {H : Type} (d : Document) (changes : List (Document × H)) : List H :=
  (changes.filter fun change => change.1 = d).map Prod.snd

variable {H : Type} {A : Automerge} {n : Nat} {l : Loaded P.automerge} {m : Mutation}

@[simp] theorem hashesOf_append (d : Document) (cs cs' : List (Document × H)) :
    hashesOf d (cs ++ cs') = hashesOf d cs ++ hashesOf d cs' := by
  simp [hashesOf]

theorem hashesOf_map_self (d : Document) (hs : List H) :
    hashesOf d (hs.map fun h => (d, h)) = hs := by
  simp [hashesOf, filter_map]

theorem hashesOf_map_ne {d d' : Document} (h : d' ≠ d) (hs : List H) :
    hashesOf d (hs.map fun h => (d', h)) = [] := by
  simp [hashesOf, h]

theorem chunksAfter_append (ws ws' : List (Write A)) (d : Document) (chunks : List (Bytes A)) :
    chunksAfter (ws ++ ws') d chunks = chunksAfter ws' d (chunksAfter ws d chunks) := by
  simp [chunksAfter]

/-- A document in memory whose committed part is in `chunks`. -/
structure HeldIn {A : Automerge} (l : Loaded A) (chunks : List (Bytes A)) : Prop where
  count : l.chunks = chunks.length
  parse : A.parse chunks.flatten = .ok (A.version l.doc)

/-- `l'` is the document `l` after a commit that made the changes `hashes`, to be stored by
    `writes`. -/
structure Committed {A : Automerge} (d : Document) (l l' : Loaded A) (hashes : List A.ChangeHash)
    (writes : List (Write A)) : Prop where
  state : l'.state = l.state
  pending : A.pendingOps l'.doc = 0
  order : l'.order = l.order
  databases : l'.databases = l.databases
  changes : (A.version l'.doc).changes = (A.version l.doc).changes ++ hashes
  new : ∀ h ∈ hashes, h ∉ (A.version l.doc).changes
  nodup : hashes.Nodup
  held : ∀ chunks, HeldIn l chunks → HeldIn l' (chunksAfter writes d chunks)
  nonempty : ∀ chunks, chunks ≠ [] ∨ A.pendingOps l.doc ≠ 0 → HeldIn l chunks →
    chunksAfter writes d chunks ≠ []
  few : ∀ chunks, HeldIn l chunks → chunks.length ≤ compactAfter →
    (chunksAfter writes d chunks).length ≤ compactAfter

theorem Committed.congr {d : Document} {l l' : Loaded A}
    {hashes hashes' : List A.ChangeHash} {writes writes' : List (Write A)}
    (h : Committed d l l' hashes writes) (hh : hashes' = hashes)
    (hw : ∀ chunks, chunksAfter writes' d chunks = chunksAfter writes d chunks) :
    Committed d l l' hashes' writes' := by
  subst hh
  exact { h with
    held := by simpa only [hw] using h.held
    nonempty := by simpa only [hw] using h.nonempty
    few := by simpa only [hw] using h.few }

namespace Workspace

/-- One round of the loop of `record`. -/
theorem commitTouched_cons (header : Header) (d : Document) (l : Loaded P.automerge) :
    ∃ hashes writes l', Committed d l l' hashes writes ∧
      (∀ d', d' ≠ d → ∀ chunks, chunksAfter writes d' chunks = chunks) ∧
      ∀ (ws : Workspace P S) touched, ws.docs d = some l → commitTouched header (d :: touched) ws =
          (hashes.map (fun h => (d, h)) ++ (commitTouched header touched (ws.setDoc d (some l'))).1,
            writes ++ (commitTouched header touched (ws.setDoc d (some l'))).2.1,
            (commitTouched header touched (ws.setDoc d (some l'))).2.2) := by
  by_cases hp : P.automerge.pendingOps l.doc = 0
  · refine ⟨[], [], l, ⟨rfl, hp, rfl, rfl, by simp, by simp, by simp, fun _ h => h,
      fun chunks h _ => h.resolve_right (· hp), fun _ _ h => h⟩, fun _ _ _ => rfl, ?_⟩
    intro ws touched hd
    simp [commitTouched, hd, P.automerge.commit_nothing _ header hp]
  · obtain ⟨h, doc, bytes, hcommit, hnew, hversion, hpending, hbytes, hextend⟩ :=
      P.automerge.commit_change l.doc header hp
    have hstate : P.automerge.state doc = l.state := by
      rw [P.automerge.clean _ hpending, hversion]
    by_cases hcompact : compactAfter ≤ l.chunks
    · have hafter : ∀ chunks,
          chunksAfter [.replace d (P.automerge.save doc)] d chunks = [P.automerge.save doc] := by
        simp [chunksAfter, Write.chunks]
      refine ⟨[h], [.replace d (P.automerge.save doc)], { l with doc := doc, chunks := 1 },
        ⟨hstate, hpending, rfl, rfl, by rw [hversion], by simpa using hnew, by simp,
          fun chunks _ => ?_, fun chunks _ _ => ?_, fun chunks _ _ => ?_⟩, fun d' hd' chunks => ?_,
        fun ws touched hd => ?_⟩
      · rw [hafter]
        exact ⟨rfl, by simpa using P.automerge.parse_save _ hpending⟩
      · simp [hafter]
      · simp [hafter, compactAfter]
      · simp [chunksAfter, Write.chunks, hd'.symm]
      · simp [commitTouched, hd, hcommit, hcompact]
    · have hafter : ∀ chunks, chunksAfter [.append d bytes] d chunks = chunks ++ [bytes] := by
        simp [chunksAfter, Write.chunks]
      refine ⟨[h], [.append d bytes], { l with doc := doc, chunks := l.chunks + 1 },
        ⟨hstate, hpending, rfl, rfl, by rw [hversion], by simpa using hnew, by simp,
          fun chunks hh => ?_, fun chunks _ _ => ?_, fun chunks hh _ => ?_⟩, fun d' hd' chunks => ?_,
        fun ws touched hd => ?_⟩
      · rw [hafter]
        exact ⟨by simp [hh.count], by simpa using hextend _ hh.parse⟩
      · simp [hafter]
      · rw [hafter, length_append, ← hh.count, length_singleton]
        omega
      · simp [chunksAfter, Write.chunks, hd'.symm]
      · simp [commitTouched, hd, hcommit, hcompact, hbytes]

/-- The loop of `record`: every touched document is committed, the others are left. -/
structure Committing (ws : Workspace P S) (touched : List Document)
    (r : List (Document × P.automerge.ChangeHash) × List (Write P.automerge) × Workspace P S) :
    Prop where
  base : r.2.2 = { ws with docs := r.2.2.docs }
  others : ∀ d, d ∉ touched → r.2.2.docs d = ws.docs d ∧ hashesOf d r.1 = [] ∧
    ∀ chunks, chunksAfter r.2.1 d chunks = chunks
  committed : ∀ d ∈ touched, ∀ l, ws.docs d = some l → ∃ l', r.2.2.docs d = some l' ∧
    Committed d l l' (hashesOf d r.1) r.2.1

theorem commitTouched_spec (header : Header) : ∀ {touched : List Document} (ws : Workspace P S),
    touched.Nodup → Committing ws touched (commitTouched header touched ws)
  | [], ws, _ => ⟨rfl, fun _ _ => ⟨rfl, rfl, fun _ => rfl⟩, by simp⟩
  | d :: touched, ws, hnd => by
    obtain ⟨hd, hnd⟩ := nodup_cons.mp hnd
    cases hdoc : ws.docs d with
    | none =>
      have hcons : commitTouched header (d :: touched) ws = commitTouched header touched ws := by
        simp [commitTouched, hdoc]
      rw [hcons]
      obtain ⟨hbase, hothers, hcommitted⟩ := commitTouched_spec header ws hnd
      refine ⟨hbase, fun d' h => hothers d' fun hm => h (mem_cons_of_mem _ hm), fun d' h l hl => ?_⟩
      rcases mem_cons.mp h with rfl | h
      · rw [hdoc] at hl
        cases hl
      · exact hcommitted d' h l hl
    | some l =>
      obtain ⟨hashes, writes, l', hone, hframe, hcons⟩ := commitTouched_cons header d l
      rw [hcons ws touched hdoc]
      obtain ⟨hbase, hothers, hcommitted⟩ := commitTouched_spec header (ws.setDoc d (some l')) hnd
      refine ⟨hbase.trans rfl, fun d' h => ?_, fun d' h l₁ hl₁ => ?_⟩
      · obtain ⟨hne, h⟩ := not_or.mp (mt mem_cons.mpr h)
        obtain ⟨h1, h2, h3⟩ := hothers d' h
        refine ⟨h1.trans (docs_setDoc_ne _ _ hne), ?_, fun chunks => ?_⟩
        · rw [hashesOf_append, hashesOf_map_ne (Ne.symm hne), h2]
          rfl
        · rw [chunksAfter_append, hframe d' hne, h3]
      · by_cases hdd : d' = d
        · subst hdd
          obtain ⟨h1, h2, h3⟩ := hothers d' hd
          rw [hdoc] at hl₁
          cases hl₁
          refine ⟨l', h1.trans (docs_setDoc_self _ _ _), hone.congr ?_ fun chunks => ?_⟩
          · rw [hashesOf_append, hashesOf_map_self, h2, append_nil]
          · rw [chunksAfter_append, h3]
        · have hl₁ := (docs_setDoc_ne ws (some l') hdd).trans hl₁
          obtain ⟨l₂, h1, h2⟩ := hcommitted d' ((mem_cons.mp h).resolve_left hdd) l₁ hl₁
          refine ⟨l₂, h1, h2.congr ?_ fun chunks => ?_⟩
          · rw [hashesOf_append, hashesOf_map_ne (Ne.symm hdd), nil_append]
          · rw [chunksAfter_append, hframe d' hdd]

end Workspace

/-! ## Recording -/

/-- What a mutation wrote can be recorded: each document in `states` is in memory with that
    state, its committed part in the store, and everything else agrees with the store. -/
structure Ready (ws : Workspace P S) (w : Written P.automerge) (states : List (Document × State)) :
    Prop where
  touched : w.touched = states.map Prod.fst
  nodup : w.touched.Nodup
  docs : ∀ x ∈ states, ∃ l chunks, (ws.addNew w.new).docs x.1 = some l ∧
    l.state = x.2 ∧ S.chunks ws.store x.1 = .ok chunks ∧ HeldIn l chunks ∧
    (chunks ≠ [] ∨ P.automerge.pendingOps l.doc ≠ 0) ∧ Coherent x.1 l x.2
  others : ∀ d l, d ∉ w.touched → (ws.addNew w.new).docs d = some l → Backed S ws.store d l ∧
    P.automerge.pendingOps l.doc = 0 ∧ Coherent d l l.state
  named : ∀ x ∈ states, ∀ i bytes, ws.drawn ≤ i → P.random i = some bytes →
    x.1 ≠ .area ⟨hex bytes⟩ ∧ x.1 ≠ .page ⟨hex bytes⟩
  fresh : ∀ x ∈ states, ∀ p, x.1 = .page p → Fresh P.random ws.drawn x.2
  store : FreshStore P.random S ws.store ws.drawn

/-- A store came to hold `states` and the Action, and nothing else. -/
structure Stored (S : Store P.automerge) (store store' : S.State)
    (states : List (Document × State)) (action : Action P.automerge.ChangeHash) : Prop where
  actions : S.actions store' = S.actions store ++ [action]
  others : ∀ d, d ∉ states.map Prod.fst →
    S.chunks store' d = S.chunks store d ∧ hashesOf d action.changes = []
  docs : ∀ x ∈ states, ∃ chunks v chunks' v', S.chunks store x.1 = .ok chunks ∧
    P.automerge.parse chunks.flatten = .ok v ∧ S.chunks store' x.1 = .ok chunks' ∧ chunks' ≠ [] ∧
    P.automerge.parse chunks'.flatten = .ok v' ∧ v'.state = x.2 ∧
    (chunks.length ≤ compactAfter → chunks'.length ≤ compactAfter) ∧
    v'.changes = v.changes ++ hashesOf x.1 action.changes ∧
    (v.changes.Nodup → v'.changes.Nodup)

variable {store store' : S.State} {d : Document} {states : List (Document × State)}
  {action : Action P.automerge.ChangeHash}

theorem Stored.shown
    (h : Stored S store store' states action)
    {s : State} (hx : (d, s) ∈ states) : shown S store' d = .ok s := by
  obtain ⟨-, -, chunks, v, -, -, hc, hne, hparse, hs, -⟩ := h.docs _ hx
  obtain ⟨c, cs, rfl⟩ := exists_cons_of_ne_nil hne
  unfold Liquid.shown
  simp only [hc, hparse]
  rw [hs]

/-- A document that was not written shows what it showed. -/
theorem shown_congr
    (h : S.chunks store' d = S.chunks store d) : shown S store' d = shown S store d := by
  unfold Liquid.shown
  rw [h]

theorem FreshStore.congr (h : FreshStore P.random S store n)
    (hc : S.chunks store' = S.chunks store) : FreshStore P.random S store' n := by
  intro i bytes hi hr
  obtain ⟨h1, h2, h3⟩ := h i bytes hi hr
  rw [hc]
  exact ⟨h1, h2, fun p s hs => h3 p s ((shown_congr (congrFun hc _)).symm.trans hs)⟩

theorem Backed.congr
    (h : Backed S store d l) (hc : S.chunks store' d = S.chunks store d) : Backed S store' d l := by
  unfold Backed
  rw [hc]
  exact h

variable {w : Written P.automerge}

/-- The new contents name nothing that is still to be drawn. -/
theorem Ready.freshStore
    (h : Ready ws w states)
    (hs : Stored S ws.store store' states action) :
    FreshStore P.random S store' ws.drawn := by
  intro i bytes hi hr
  obtain ⟨h1, h2, h3⟩ := h.store i bytes hi hr
  have hnot : ∀ d, (d = .area ⟨hex bytes⟩ ∨ d = .page ⟨hex bytes⟩) → d ∉ states.map Prod.fst := by
    intro d hd hmem
    obtain ⟨x, hx, rfl⟩ := mem_map.mp hmem
    obtain ⟨hn1, hn2⟩ := h.named x hx i bytes hi hr
    exact hd.elim hn1 hn2
  refine ⟨(hs.others _ (hnot _ (.inl rfl))).1.trans h1,
    (hs.others _ (hnot _ (.inr rfl))).1.trans h2, fun p s hshown => ?_⟩
  by_cases hp : Document.page p ∈ states.map Prod.fst
  · obtain ⟨⟨d, t⟩, hx, rfl⟩ := mem_map.mp hp
    rw [hs.shown hx] at hshown
    cases hshown
    exact h.fresh _ hx p rfl i bytes hi hr
  · rw [shown_congr (hs.others _ hp).1] at hshown
    exact h3 p s hshown

namespace Workspace

theorem addNew_base (ws : Workspace P S) (new : List (Document × P.automerge.AutoCommit)) :
    ws.addNew new = { ws with docs := (ws.addNew new).docs } := by
  induction new generalizing ws with
  | nil => rfl
  | cons n new ih => exact ih (ws.setDoc n.1 _)

theorem docs_forget (ws : Workspace P S) (touched : List Document) (d : Document) :
    (ws.forget touched).docs d = if d ∈ touched then none else ws.docs d := by
  induction touched generalizing ws with
  | nil => simp [forget]
  | cons d' touched ih =>
    rw [show ws.forget (d' :: touched) = (ws.setDoc d' none).forget touched from rfl, ih]
    by_cases hd : d = d'
    · subst hd
      simp
    · rw [docs_setDoc_ne _ _ hd]
      simp [hd]

theorem forget_base (ws : Workspace P S) (touched : List Document) :
    ws.forget touched = { ws with docs := (ws.forget touched).docs } := by
  induction touched generalizing ws with
  | nil => rfl
  | cons d touched ih => exact ih (ws.setDoc d none)

variable {action : Action P.automerge.ChangeHash} {states : List (Document × State)}
    {w : Written P.automerge}
variable {r : List (Document × P.automerge.ChangeHash) × List (Write P.automerge) × Workspace P S}

section Committed

variable (h : Ready ws w states) (hr : Committing (ws.addNew w.new) w.touched r)
  (hchunks : ∀ d, S.chunks store' d = (S.chunks ws.store d).map (chunksAfter r.2.1 d))
include h hr hchunks

/-- The store after a successful commit of what the loop collected. -/
theorem stored_of_committing (hchanges : action.changes = r.1)
    (hactions : S.actions store' = S.actions ws.store ++ [action]) :
    Stored S ws.store store' states action := by
  refine ⟨hactions, fun d hd => ?_, fun x hx => ?_⟩
  · rw [← h.touched] at hd
    obtain ⟨-, h2, h3⟩ := hr.others d hd
    refine ⟨?_, by rwa [hchanges]⟩
    rw [hchunks, funext h3]
    cases S.chunks ws.store d <;> rfl
  · obtain ⟨l, chunks, hl, hs, hc, hheld, hne, -⟩ := h.docs x hx
    have hmem : x.1 ∈ w.touched := by
      rw [h.touched]
      exact mem_map_of_mem hx
    obtain ⟨l', -, hcom⟩ := hr.committed x.1 hmem l hl
    refine ⟨chunks, _, chunksAfter r.2.1 x.1 chunks, _, hc, hheld.parse, by rw [hchunks, hc]; rfl,
      hcom.nonempty chunks hne hheld, (hcom.held chunks hheld).parse, ?_, hcom.few chunks hheld,
      by rw [hchanges]; exact hcom.changes, fun hnd => ?_⟩
    · rw [← P.automerge.clean _ hcom.pending]
      exact hcom.state.trans hs
    · rw [hcom.changes]
      exact List.Nodup.append hnd hcom.nodup fun a ha hb => hcom.new a hb ha

/-- The documents in memory after a successful commit. -/
theorem loaded_of_committing (hs : Stored S ws.store store' states action) {l' : Loaded P.automerge}
    (hl' : r.2.2.docs d = some l') :
    Backed S store' d l' ∧ P.automerge.pendingOps l'.doc = 0 ∧ Coherent d l' l'.state := by
  by_cases hd : d ∈ w.touched
  · have hmem := hd
    rw [h.touched] at hmem
    obtain ⟨x, hx, rfl⟩ := mem_map.mp hmem
    obtain ⟨l, chunks, hl, hstate, hc, hheld, hne, hcoh⟩ := h.docs x hx
    obtain ⟨l₁, hl₁, hcom⟩ := hr.committed x.1 hd l hl
    rw [hl'] at hl₁
    cases hl₁
    refine ⟨⟨chunksAfter r.2.1 x.1 chunks, by rw [hchunks, hc]; rfl,
      hcom.nonempty chunks hne hheld, (hcom.held chunks hheld).count,
      (hcom.held chunks hheld).parse⟩, hcom.pending, ?_⟩
    rw [hcom.state, hstate]
    obtain ⟨h1, h2, h3⟩ := hcoh
    exact ⟨by rwa [hcom.order], by rwa [hcom.databases], by rwa [hcom.order, hcom.databases]⟩
  · rw [(hr.others d hd).1] at hl'
    obtain ⟨hb, hp, hc⟩ := h.others d l' hd hl'
    rw [h.touched] at hd
    exact ⟨hb.congr (hs.others d hd).1, hp, hc⟩

end Committed

/-- What two Workspaces on the same device have in common. -/
structure SameOwner (ws ws' : Workspace P S) : Prop where
  device : ws'.device = ws.device
  owner : ws'.owner = ws.owner
  drawn : ws.drawn ≤ ws'.drawn

theorem record_spec (h : Ready ws w states) (ha : action.changes = []) :
    wp (record action w.touched w.new) (fun _ ws' => Inv ws' ∧ SameOwner ws ws' ∧
        ∃ changes, Stored S ws.store ws'.store states { action with changes := changes })
      (fun _ ws' => Inv ws' ∧ SameOwner ws ws' ∧ S.chunks ws'.store = S.chunks ws.store ∧
        S.actions ws'.store = S.actions ws.store) ws := by
  unfold wp record
  have hr := commitTouched_spec (Header.of action) (ws.addNew w.new) h.nodup
  generalize commitTouched (Header.of action) w.touched (ws.addNew w.new) = r at hr
  obtain ⟨changes, writes, ws₁⟩ := r
  obtain ⟨docs, rfl⟩ : ∃ docs, ws₁ = { ws with docs := docs } := by
    have hbase := hr.base
    rw [addNew_base] at hbase
    exact ⟨_, hbase⟩
  dsimp only
  rw [ha, nil_append]
  cases hcommit : S.commit ws.store ⟨{ action with changes := changes }, writes⟩ with
  | mk result store' =>
    cases result with
    | ok u =>
      obtain ⟨hchunks, hactions⟩ := S.commit_ok _ _ _ hcommit
      have hs := stored_of_committing h hr hchunks rfl hactions
      exact ⟨⟨fun d l hl => loaded_of_committing h hr hchunks hs hl, h.freshStore hs⟩,
        ⟨rfl, rfl, le_rfl⟩, changes, hs⟩
    | error e =>
      obtain ⟨hchunks, hactions⟩ := S.commit_error _ _ _ _ hcommit
      dsimp only
      rw [forget_base]
      refine ⟨⟨fun d l hl => ?_, h.store.congr hchunks⟩, ⟨rfl, rfl, le_rfl⟩, hchunks, hactions⟩
      rw [docs_forget] at hl
      obtain ⟨hd, hl⟩ := Option.ite_none_left_eq_some.mp hl
      rw [(hr.others d hd).1] at hl
      obtain ⟨hb, hp, hc⟩ := h.others d l hd hl
      exact ⟨hb.congr (congrFun hchunks d), hp, hc⟩

end Workspace

/-! ## The effect of a mutation -/

/-- What a mutation does to the documents that a store shows: what it creates and reports, and
    the new contents of each document it touches. -/
inductive Effect (S : Store P.automerge) (store : S.State) :
    Mutation → Option Created → List Changed → List (Document × State) → Prop
  | createArea {name : String} {id : AreaId} {s t : State}
      (shown : shown S store .workspace = .ok s) (added : addedArea id name s t)
      (unstored : S.chunks store (.area id) = .ok []) :
      Effect S store (.createArea name) (some (.area id)) [.areas]
        [(.workspace, t), (.area id, State.empty.withMaps ["pages"])]
  | createPage {area : AreaId} {parent : Option PageId} {title : String} {id : PageId}
      {s t : State} (shown : shown S store (.area area) = .ok s)
      (added : addedPage id parent title s t) (unstored : S.chunks store (.page id) = .ok []) :
      Effect S store (.createPage area parent title) (some (.page id)) [.pages area]
        [(.area area, t), (.page id, State.empty.withMaps ["blocks", "views"])]
  | renamePage {page : PageId} {title : String} {area : AreaId} {s t : State}
      (shown : shown S store (.area area) = .ok s) (titled : titledPage page title s t) :
      Effect S store (.renamePage page title) none [.pages area] [(.area area, t)]
  | page {m : Mutation} {p : PageId} {s t : State} {μs : List PageStep}
      {created : Option Created} {changed : List Changed}
      (shown : shown S store (.page p) = .ok s) (run : PageRun s μs t)
      (takes : Takes p s m μs created changed) :
      Effect S store m created changed [(.page p, t)]

theorem Backed.ne {d' : Document} (hb : Backed S store d l) (h : S.chunks store d' = .ok []) :
    d ≠ d' := by
  rintro rfl
  obtain ⟨chunks, hc, hne, -⟩ := hb
  rw [h] at hc
  cases hc
  exact hne rfl

/-- A stored document does not have a name that is still to be drawn. -/
theorem FreshStore.named (h : FreshStore P.random S store n)
    (hb : Backed S store d l) {i : Nat}
    {bytes : RandomBytes} (hi : n ≤ i) (hr : P.random i = some bytes) :
    d ≠ .area ⟨hex bytes⟩ ∧ d ≠ .page ⟨hex bytes⟩ := by
  obtain ⟨h1, h2, -⟩ := h i bytes hi hr
  exact ⟨hb.ne h1, hb.ne h2⟩

section
variable {d : Document} {s t : State} {created : Option Created} {changed : List Changed}

theorem DocWrote.ready (h : DocWrote ws ws' d s t) (hi : Inv ws)
    (hf : ∀ p, d = .page p → Fresh P.random ws'.drawn t) :
    Ready ws' ⟨created, changed, [d], []⟩ [(d, t)] := by
  have hstore : FreshStore P.random S ws'.store ws'.drawn := by
    rw [h.store]
    exact hi.fresh.mono h.drawn
  obtain ⟨l, hl, hs, hb, hc⟩ := h.doc
  have hb' : Backed S ws'.store d l := by rwa [h.store]
  refine ⟨rfl, by simp, forall_mem_singleton.mpr ?_, fun d' l' hd' hl' => ?_,
    forall_mem_singleton.mpr fun i bytes => hstore.named hb', forall_mem_singleton.mpr hf, hstore⟩
  · obtain ⟨chunks, h1, h2, h3, h4⟩ := hb'
    exact ⟨l, chunks, hl, hs, h1, ⟨h3, h4⟩, .inl h2, hc⟩
  · rw [h.store]
    exact h.others d' l' (by simpa using hd') hl'

variable {i : Nat} {bytes : RandomBytes} {maps : List String} {doc : P.automerge.AutoCommit}

/-- A drawn identity is not drawn again. -/
theorem Drawn.ne {random : Random} (hd : Distinct random) {x : String}
    (h : Drawn random n x) (hi : n ≤ i) (hr : random i = some bytes) :
    x ≠ hex bytes := by
  obtain ⟨j, bytes', hj, hr', rfl⟩ := h
  intro he
  have := hd i j bytes hr (by rwa [← hex_inj he])
  omega

theorem NewDoc.named (hd : Distinct P.random) (h : NewDoc ws ws' maps d doc) (hi : ws'.drawn ≤ i)
    (hr : P.random i = some bytes) : d ≠ .area ⟨hex bytes⟩ ∧ d ≠ .page ⟨hex bytes⟩ := by
  obtain ⟨x, hx, hdoc⟩ := h.drawn
  have hne := hx.ne hd hi hr
  rcases hdoc with rfl | rfl <;> simp [hne]

theorem DocWrote.ready_new (h : DocWrote ws ws' d s t) (hi : Inv ws) (hd : Distinct P.random)
    (hp : ∀ p, d ≠ .page p) {d' : Document}
    (hn : NewDoc ws ws' maps d' doc) (hmaps : ∀ p, d' = .page p → ∀ key ∈ maps, key ∈ schema) :
    Ready ws' ⟨created, changed, [d, d'], [(d', doc)]⟩
      [(d, t), (d', State.empty.withMaps maps)] := by
  have hone : Ready ws' ⟨created, changed, [d], []⟩ [(d, t)] :=
    h.ready hi fun p hdp => absurd hdp (hp p)
  have hchunks : S.chunks ws'.store d' = .ok [] := by
    rw [h.store]
    exact hn.unstored
  obtain ⟨l, chunks, hl, hs, hc, hheld, hne, hcoh⟩ := hone.docs (d, t) (by simp)
  have hdd : d ≠ d' := by
    obtain ⟨l, -, -, hb, -⟩ := h.doc
    exact hb.ne hn.unstored
  have hself : (ws'.addNew [(d', doc)]).docs d' = some ⟨doc, 0, none, fun _ => none⟩ :=
    Workspace.docs_setDoc_self _ _ _
  have hother : ∀ e, e ≠ d' → (ws'.addNew [(d', doc)]).docs e = ws'.docs e :=
    fun e he => Workspace.docs_setDoc_ne _ _ he
  have hcons : ∀ {p : Document × State → Prop}, p (d, t) → p (d', State.empty.withMaps maps) →
      ∀ x ∈ [(d, t), (d', State.empty.withMaps maps)], p x :=
    fun h h' => forall_mem_cons.mpr ⟨h, forall_mem_singleton.mpr h'⟩
  refine ⟨rfl, by simp [hdd], hcons ?_ ?_, fun e l' he hl' => ?_,
    hcons (hone.named (d, t) mem_cons_self) fun i bytes => hn.named hd,
    hcons (hone.fresh (d, t) mem_cons_self) fun p hdp i bytes _ _ hmem => ?_, hone.store⟩
  · exact ⟨l, chunks, (hother d hdd).trans hl, hs, hc, hheld, hne, hcoh⟩
  · refine ⟨_, [], hself, hn.state, hchunks, ⟨rfl, ?_⟩, .inr hn.pending, ?_, ?_, ?_⟩
    · rw [hn.version]
      exact P.automerge.parse_nil
    · rintro o ⟨⟩
    · rintro b ix ⟨⟩
    · exact fun _ => ⟨rfl, fun _ => rfl⟩
  · obtain ⟨he1, he2⟩ : e ≠ d ∧ e ≠ d' := by simpa using he
    exact hone.others e l' (by simpa using he1) ((hother e he2).symm.trans hl')
  · exact hex_not_mem_schema bytes (hmaps p hdp _ (names_withMaps_empty hmem))

end

theorem Wrote.base (h : Wrote ws ws' m w) : Base ws ws' := by
  cases h
  case createArea hw _ _ => exact hw.toBase
  case createPage hw _ _ => exact hw.toBase
  case renamePage hw _ => exact hw.toBase
  case page hw _ => exact hw.toBase

/-- A mutation that succeeded has an effect, ready to be recorded. -/
theorem Wrote.ready (hd : Distinct P.random) (hi : Inv ws)
    (h : Wrote ws ws' m w) :
    ∃ states, Effect S ws.store m w.created w.changed states ∧ Ready ws' w states := by
  cases h
  case createArea hw hadded hn =>
    exact ⟨_, .createArea hw.shown hadded hn.unstored, hw.ready_new hi hd (by simp) hn (by simp)⟩
  case createPage hw hadded hn =>
    exact ⟨_, .createPage hw.shown hadded hn.unstored,
      hw.ready_new hi hd (by simp) hn (by simp [schema])⟩
  case renamePage hw ht => exact ⟨_, .renamePage hw.shown ht, hw.ready hi (by simp)⟩
  case page hw ht =>
    exact ⟨_, .page hw.shown hw.run ht, hw.toDocWrote.ready hi fun _ _ => hw.fresh⟩

/-! ## Applying -/

/-- Nothing is pending, so nothing has to be recorded. -/
theorem Ready.inv (h : Ready ws w states) (hu : ws.unchanged w = true) : Inv ws := by
  unfold Workspace.unchanged at hu
  rw [Bool.and_eq_true, List.isEmpty_iff, List.all_eq_true] at hu
  obtain ⟨hnew, hall⟩ := hu
  refine ⟨fun d l hl => ?_, h.store⟩
  by_cases hd : d ∈ w.touched
  · have hp : P.automerge.pendingOps l.doc = 0 := by simpa [hl] using hall d hd
    rw [h.touched] at hd
    obtain ⟨x, hx, rfl⟩ := mem_map.mp hd
    obtain ⟨l', chunks, hl', hs, hc, hheld, hne, hcoh⟩ := h.docs x hx
    rw [hnew] at hl'
    have hll := hl.symm.trans hl'
    cases hll
    exact ⟨⟨chunks, hc, hne.resolve_right (· hp), hheld.count, hheld.parse⟩, hp, by rwa [hs]⟩
  · exact h.others d l hd (by rwa [hnew])

/-- After a failed mutation a rollback is enough. -/
theorem Failed.inv_rollback (hi : Inv ws) (h : Failed ws ws') : Inv ws'.rollback := by
  refine ⟨fun d l hl => ?_, ?_⟩
  · obtain ⟨l₁, hl₁, rfl⟩ := Option.map_eq_some_iff.mp hl
    obtain ⟨hb, hc⟩ := h.loaded d l₁ hl₁
    obtain ⟨hv, hp⟩ := P.automerge.rollback_spec l₁.doc
    refine ⟨?_, hp, ?_⟩
    · obtain ⟨chunks, h1, h2, h3, h4⟩ := hb
      rw [← h.store] at h1
      exact ⟨chunks, h1, h2, h3, by rwa [hv]⟩
    · rw [Loaded.state, P.automerge.clean _ hp, hv]
      exact ⟨hc.order, hc.databases, hc.page⟩
  · change FreshStore P.random S ws'.store ws'.drawn
    rw [h.store]
    exact hi.fresh.mono h.drawn

namespace Workspace

theorem sameOwner_of_base (h : Base ws ws') : SameOwner ws ws' := ⟨h.device, h.owner, h.drawn⟩

theorem SameOwner.refl (ws : Workspace P S) : SameOwner ws ws := ⟨rfl, rfl, le_rfl⟩

theorem SameOwner.trans {ws₁ : Workspace P S} (h : SameOwner ws ws₁) (h' : SameOwner ws₁ ws') :
    SameOwner ws ws' :=
  ⟨h'.device.trans h.device, h'.owner.trans h.owner, h.drawn.trans h'.drawn⟩

/-- A refused request leaves the store as it was. -/
structure Refused (ws ws' : Workspace P S) : Prop where
  inv : Inv ws'
  same : SameOwner ws ws'
  chunks : S.chunks ws'.store = S.chunks ws.store
  actions : S.actions ws'.store = S.actions ws.store

/-- An accepted request is recorded with its effect. -/
structure Accepted (ws ws' : Workspace P S) (request : Request) (applied : Applied)
    (states : List (Document × State)) (action : Action P.automerge.ChangeHash) : Prop where
  inv : Inv ws'
  same : SameOwner ws ws'
  effect : Effect S ws.store request.mutation applied.created applied.changed states
  stored : Stored S ws.store ws'.store states action
  id : action.id = applied.action
  actor : action.actor = request.actor
  origin : action.origin = request.origin
  operation : action.operation = .mutation request.mutation

theorem permit_spec {actor : Actor} :
    wp (permit actor) (fun _ ws' => ws' = ws) (fun _ ws' => ws' = ws) ws := by
  unfold wp permit
  split <;> rename_i h <;> exact (congrArg Prod.snd h).symm

theorem writeOrRollback_spec (hd : Distinct P.random) (h : Inv ws) (mutation : Mutation) :
    wp (writeOrRollback mutation) (fun w ws' => Base ws ws' ∧
        ∃ states, Effect S ws.store mutation w.created w.changed states ∧ Ready ws' w states)
      (fun _ ws' => Base ws ws' ∧ Inv ws') ws := by
  have hw := write_spec hd h mutation
  unfold wp writeOrRollback
  unfold wp at hw
  rcases hrun : write mutation ws with ⟨e | w, ws₁⟩
  · rw [hrun] at hw
    exact ⟨⟨hw.store, hw.device, hw.owner, hw.drawn⟩, hw.inv_rollback h⟩
  · rw [hrun] at hw
    exact ⟨hw.base, hw.ready hd h⟩

theorem apply_spec (hd : Distinct P.random) (h : Inv ws) (request : Request) :
    wp (apply request)
      (fun applied ws' => ∃ states action, Accepted ws ws' request applied states action)
      (fun _ ws' => Refused ws ws') ws := by
  have hle : ws.drawn ≤ ws.drawn + 1 := Nat.le_succ _
  have hdraw : SameOwner ws { ws with drawn := ws.drawn + 1 } := ⟨rfl, rfl, hle⟩
  unfold apply
  simp only [wp_bind]
  refine permit_spec.mono ?_ ?_
  swap
  · rintro _ _ rfl
    exact ⟨h, .refl _, rfl, rfl⟩
  rintro permission _ rfl
  refine newId_spec.mono ?_ ?_
  swap
  · rintro _ _ rfl
    exact ⟨inv_draw h hle, hdraw, rfl, rfl⟩
  rintro id _ ⟨rfl, -⟩
  refine (writeOrRollback_spec hd (inv_draw h hle) request.mutation).mono ?_ ?_
  swap
  · rintro _ ws' ⟨hbase, hi⟩
    exact ⟨hi, hdraw.trans (sameOwner_of_base hbase), by rw [hbase.store], by rw [hbase.store]⟩
  rintro w ws₂ ⟨hbase, states, heffect, hready⟩
  have hown := hdraw.trans (sameOwner_of_base hbase)
  rw [wp_read]
  split
  · rename_i hu
    exact ⟨hready.inv hu, hown, by rw [hbase.store], by rw [hbase.store]⟩
  · rw [wp_bind]
    refine (record_spec hready rfl).mono ?_ ?_
    · rintro - ws' ⟨hi, hsame, changes, hstored⟩
      rw [hbase.store] at hstored
      exact ⟨states, _, hi, hown.trans hsame, heffect, hstored, rfl, rfl, rfl, rfl⟩
    · rintro _ ws' ⟨hi, hsame, hchunks, hactions⟩
      rw [hbase.store] at hchunks hactions
      exact ⟨hi, hown.trans hsame, hchunks, hactions⟩

end Workspace

end Watershed.Liquid
