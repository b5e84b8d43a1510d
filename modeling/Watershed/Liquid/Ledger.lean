/-
  The recorded Actions as a ledger of the documents' changes.

  A document is stored as a list of chunks, whole or as changes that follow it, and every
  write adds one Action that names the changes it made. In every run the two agree: reading
  the chunks back gives the document in memory, and every change in it is named by exactly
  one Action.
-/
import Watershed.Liquid.Runs

namespace Watershed.Liquid

variable {P : Platform} {S : Store P.automerge} {ws : Workspace P S}
variable {d : Document} {store store' : S.State}

theorem mem_hashesOf {H : Type} {changes : List (Document × H)} {h : H} :
    h ∈ hashesOf d changes ↔ (d, h) ∈ changes := by
  simp [hashesOf]

/-- What the store holds for a document is in at most `compactAfter` chunks, and its changes
    are those that the Actions name, in their order and each once. -/
def Accounted (S : Store P.automerge) (store : S.State) (d : Document) : Prop :=
  ∃ chunks v, S.chunks store d = .ok chunks ∧ chunks.length ≤ compactAfter ∧
    P.automerge.parse chunks.flatten = .ok v ∧
    v.changes = (S.actions store).flatMap (fun action => hashesOf d action.changes) ∧
    v.changes.Nodup

theorem EmptyStore.accounted (h : EmptyStore S store) (d : Document) : Accounted S store d := by
  refine ⟨[], ⟨[], .empty⟩, h.chunks d, Nat.zero_le _, P.automerge.parse_nil, ?_, List.nodup_nil⟩
  rw [h.actions]
  rfl

theorem Accounted.congr (h : Accounted S store d)
    (hc : S.chunks store' = S.chunks store) (ha : S.actions store' = S.actions store) :
    Accounted S store' d := by
  unfold Accounted
  rw [hc, ha]
  exact h

/-- One commit adds to a document's changes what its Action names. -/
theorem Stored.accounted {states : List (Document × State)}
    {action : Action P.automerge.ChangeHash} (hs : Stored S store store' states action)
    (h : Accounted S store d) : Accounted S store' d := by
  obtain ⟨chunks, v, hc, hlen, hparse, hchanges, hnd⟩ := h
  have hactions : (S.actions store').flatMap (fun action => hashesOf d action.changes) =
      v.changes ++ hashesOf d action.changes := by
    rw [hs.actions, List.flatMap_append, List.flatMap_singleton, hchanges]
  by_cases hd : d ∈ states.map Prod.fst
  · obtain ⟨x, hx, rfl⟩ := List.mem_map.mp hd
    obtain ⟨chunks₁, v₁, chunks', v', hc₁, hparse₁, hc', -, hparse', -, hlen', hchanges', hnd'⟩ :=
      hs.docs x hx
    -- the chunks before the commit are read in one way only
    obtain rfl : chunks₁ = chunks := Except.ok.inj (hc₁.symm.trans hc)
    obtain rfl : v₁ = v := Except.ok.inj (hparse₁.symm.trans hparse)
    exact ⟨chunks', v', hc', hlen' hlen, hparse', hchanges'.trans hactions.symm, hnd' hnd⟩
  · obtain ⟨hsame, hnone⟩ := hs.others d hd
    refine ⟨chunks, v, hsame.trans hc, hlen, hparse, ?_, hnd⟩
    rw [hactions, hnone, List.append_nil]

/-- In every run the Actions account for every document. -/
theorem Started.accounted (hd : Distinct P.random) (h : Started ws) :
    ∀ d, Accounted S ws.store d :=
  h.store_rule hd
    (fun _ _ hc ha hacc d => (hacc d).congr hc ha)
    (fun _ _ _ _ hempty hs d => hs.accounted (hempty.accounted d))
    fun _ _ _ _ _ _ _ hacc hok d => hok.stored.accounted (hacc d)

/-- The store agrees with the documents in memory: a loaded document has as many chunks as
    the Workspace counts, at most `compactAfter`, and loading them gives the document again;
    and the changes of any document are those the Actions name, each named by exactly one. -/
theorem store_agrees (hd : Distinct P.random) (h : Started ws) :
    (∀ d l, ws.docs d = some l → ∃ chunks, S.chunks ws.store d = .ok chunks ∧
      l.chunks = chunks.length ∧ l.chunks ≤ compactAfter ∧
      ∀ device, ∃ doc, P.automerge.load chunks.flatten device = .ok doc ∧
        P.automerge.version doc = P.automerge.version l.doc ∧
        P.automerge.state doc = P.automerge.state l.doc) ∧
    ∀ d, ∃ chunks, S.chunks ws.store d = .ok chunks ∧
      ∀ device, ∃ doc, P.automerge.load chunks.flatten device = .ok doc ∧
        (∀ hash ∈ (P.automerge.version doc).changes,
          ∃! i : Nat, ∃ action, (S.actions ws.store)[i]? = some action ∧ (d, hash) ∈ action.changes) ∧
        ∀ action ∈ S.actions ws.store, ∀ hash, (d, hash) ∈ action.changes →
          hash ∈ (P.automerge.version doc).changes := by
  refine ⟨fun d l hl => ?_, fun d => ?_⟩
  · obtain ⟨⟨chunks, hc, -, hcount, hparse⟩, hpending, -⟩ := (h.inv hd).loaded d l hl
    obtain ⟨chunks', v, hc', hlen, -⟩ := h.accounted hd d
    obtain rfl : chunks' = chunks := Except.ok.inj (hc'.symm.trans hc)
    refine ⟨chunks', hc, hcount, hcount ▸ hlen, fun device => ?_⟩
    obtain ⟨doc, hload, hversion, hclean⟩ := P.automerge.load_ok _ device _ hparse
    refine ⟨doc, hload, hversion, ?_⟩
    rw [P.automerge.clean doc hclean, P.automerge.clean l.doc hpending, hversion]
  · obtain ⟨chunks, v, hc, -, hparse, hchanges, hnd⟩ := h.accounted hd d
    refine ⟨chunks, hc, fun device => ?_⟩
    obtain ⟨doc, hload, rfl, -⟩ := P.automerge.load_ok _ device _ hparse
    rw [hchanges] at hnd
    refine ⟨doc, hload, fun hash hmem => ?_, fun action haction hash hmem => ?_⟩
    · rw [hchanges] at hmem
      simpa only [mem_hashesOf] using exists_unique_of_nodup_flatMap hnd hmem
    · rw [hchanges]
      exact List.mem_flatMap.mpr ⟨action, haction, mem_hashesOf.mpr hmem⟩

/-- A Page that was written three times. -/
theorem store_agrees_page :
    ∃ ws : JournalWorkspace, Started ws ∧
      ∃ l chunks, ws.docs (.page (journalId 5)) = some l ∧
        journalStore.chunks ws.store (.page (journalId 5)) = .ok chunks ∧
        l.chunks = 3 ∧ chunks.length = 3 := by
  obtain ⟨ws, hstarted, hcount⟩ := exists_started [.createArea "Work",
      .createPage (journalId 3) none "Notes", .addTextBlock (journalId 5) none "One",
      .addTextBlock (journalId 5) none "Two"]
    (Q := fun ws => (ws.docs (.page (journalId 5))).map Loaded.chunks = some 3) (by decide +kernel)
  obtain ⟨l, hl, hthree⟩ := Option.map_eq_some_iff.mp hcount
  obtain ⟨chunks, hc, hlen, -⟩ :=
    (store_agrees distinct_journalPlatform hstarted).1 (.page (journalId 5)) l hl
  exact ⟨ws, hstarted, l, chunks, hl, hc, hthree, hlen.symm.trans hthree⟩

end Watershed.Liquid
