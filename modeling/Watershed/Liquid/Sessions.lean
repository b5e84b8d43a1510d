/-
  A client of a Workspace over a whole session. If it reads again what accepted requests report,
  it never shows anything old, and History holds exactly the accepted requests, in their order.
-/
import Watershed.Liquid.Notify

namespace Watershed.Liquid

open Workspace Relation

/-- A Workspace, the requests it accepted since the session began, and what the client knows of
    every read. -/
structure Session (P : Platform) (S : Store P.automerge) where
  ws : Workspace P S
  log : List (Request × Applied)
  known : Read → Except Error (Answer P.automerge.ChangeHash)

namespace Session

variable {P : Platform} {S : Store P.automerge} {start ws' : Workspace P S} {c c' : Session P S}

def started (ws : Workspace P S) : Session P S := ⟨ws, [], fun r => (read r ws).1⟩

/-- After an accepted request the client reads again at least what is reported; nothing else makes
    it read again, not even that the Workspace is opened anew. -/
inductive Step (c : Session P S) : Session P S → Prop
  | accepted {request : Request} {applied : Applied} {ws' : Workspace P S} {known : Read → _}
      (h : apply request c.ws = (.ok applied, ws'))
      (again : ∀ r, known r = (read r ws').1 ∨ ¬ applied.Reports r ∧ known r = c.known r) :
      Step c ⟨ws', c.log ++ [(request, applied)], known⟩
  | refused {request : Request} {e : Error} {ws' : Workspace P S}
      (h : apply request c.ws = (.error e, ws')) : Step c { c with ws := ws' }
  | read (r : Read) : Step c { c with ws := (read r c.ws).2 }
  | closePage (page : PageId) : Step c { c with ws := c.ws.closePage page }
  | reopen {n : Nat} {ws' : Workspace P S} (drawn : c.ws.drawn ≤ n)
      (h : Workspace.open c.ws.store n = .ok ws') : Step c { c with ws := ws' }

/-- The Actions are those of the accepted requests, in their order. -/
def Records {H : Type} (log : List (Request × Applied)) (actions : List (Action H)) : Prop :=
  actions.map (fun a => (a.id, a.actor, a.origin, a.operation)) =
    log.map fun x => (x.2.action, x.1.actor, x.1.origin, .mutation x.1.mutation)

structure Holds (start : Workspace P S) (c : Session P S) : Prop where
  inv : Inv c.ws
  known : ∀ r, c.known r = answer S c.ws.store r
  recorded : ∃ actions, S.actions c.ws.store = S.actions start.store ++ actions ∧
    Records c.log actions

/-- The rule for steps after which the store answers as before. -/
theorem Holds.of_same (h : Holds start c) (hi : Inv ws')
    (hc : S.chunks ws'.store = S.chunks c.ws.store)
    (ha : S.actions ws'.store = S.actions c.ws.store) : Holds start { c with ws := ws' } :=
  ⟨hi, fun r => (h.known r).trans (congrFun (answer_congr S hc ha) r).symm, ha ▸ h.recorded⟩

variable (hd : Distinct P.random)
include hd

theorem Holds.step (h : Holds start c) (hs : Step c c') : Holds start c' := by
  cases hs with
  | @accepted request applied ws' known ha again =>
    obtain ⟨states, action, hacc⟩ := (apply_spec hd h.inv request).of_ok ha
    obtain ⟨actions, hactions, hmap⟩ := h.recorded
    refine ⟨hacc.inv, fun r => ?_, actions ++ [action], ?_, ?_⟩
    · rcases again r with hread | ⟨hnot, hkept⟩
      · exact hread.trans (hacc.inv.read_eq r)
      · exact (hkept.trans (h.known r)).trans (hacc.effect.answer_eq hacc.stored hnot).symm
    · rw [hacc.stored.actions, hactions, List.append_assoc]
    · unfold Records at hmap ⊢
      simp [hmap, hacc.id, hacc.actor, hacc.origin, hacc.operation]
  | @refused request e ws' ha =>
    obtain ⟨hi, -, hc, hactions⟩ := (apply_spec hd h.inv request).of_error ha
    exact h.of_same hi hc hactions
  | read r =>
    obtain ⟨hi, hbase, -⟩ := h.inv.read r
    exact h.of_same hi (by rw [hbase.store]) (by rw [hbase.store])
  | closePage page => exact h.of_same (h.inv.closePage page) rfl rfl
  | reopen hn ho =>
    obtain ⟨hi, hstore, -⟩ := open_spec (h.inv.fresh.mono hn) ho
    exact h.of_same hi (by rw [hstore]) (by rw [hstore])

variable (h : Reached start) (hs : ReflTransGen Step (started start) c)
include h hs

theorem holds : Holds start c := by
  induction hs with
  | refl => exact ⟨h.inv hd, (h.inv hd).read_eq, [], (List.append_nil _).symm, rfl⟩
  | tail _ hstep ih => exact ih.step hd hstep

/-- Over any session the client knows the answer that every read would get now. -/
theorem known_current (r : Read) : c.known r = (read r c.ws).1 := by
  have hholds := holds hd h hs
  rw [hholds.known, hholds.inv.read_eq]

/-- History is what it was before the session and then the accepted requests, newest first. -/
theorem history_records : ∃ actions, (∀ limit, (read (.history none limit) c.ws).1 =
      .ok (.history ((S.actions start.store ++ actions).reverse.take limit))) ∧
    Records c.log actions := by
  have hholds := holds hd h hs
  obtain ⟨actions, hactions, hmap⟩ := hholds.recorded
  refine ⟨actions, fun limit => ?_, hmap⟩
  rw [hholds.inv.read_eq, answer, S.history_eq, hactions]
  rfl

omit hd h hs

/-- A request to create a Page in an area. -/
def newPage (area : Fin 256) (title : String) : Request :=
  ⟨.person ⟨"me"⟩, .ui, .createPage (journalId area) none title⟩

/-- A Page is created, one in an area that does not exist is refused, and another one is created;
    none of this is reported as a change of the areas. -/
theorem exists_session : ∃ (start ws₁ ws₂ ws₃ : JournalWorkspace) (a₁ a₂ : Applied)
    (e : Error), Reached start ∧ apply (newPage 3 "Notes") start = (.ok a₁, ws₁) ∧
      apply (newPage 4 "Lost") ws₁ = (.error e, ws₂) ∧
      apply (newPage 3 "More") ws₂ = (.ok a₂, ws₃) ∧
      ¬ a₁.Reports .areas ∧ ¬ a₂.Reports .areas := by
  obtain ⟨start, hstarted, hrun⟩ := exists_started [.createArea "Work"] (Q := fun ws =>
      let first := apply (newPage 3 "Notes") ws
      let refused := apply (newPage 4 "Lost") first.2
      let second := apply (newPage 3 "More") refused.2
      first.1.toOption.any (fun applied => .areas ∉ applied.changed) = true ∧
        refused.1.isOk = false ∧
        second.1.toOption.any (fun applied => .areas ∉ applied.changed) = true)
    (by decide +kernel)
  rcases hfirst : apply (newPage 3 "Notes") start with ⟨e | a₁, ws₁⟩
  · simp [hfirst, Except.toOption] at hrun
  rcases hrefused : apply (newPage 4 "Lost") ws₁ with ⟨e | a, ws₂⟩
  rotate_left
  · simp [hfirst, hrefused, Except.isOk, Except.toBool] at hrun
  rcases hsecond : apply (newPage 3 "More") ws₂ with ⟨e | a₂, ws₃⟩
  · simp [hfirst, hrefused, hsecond, Except.toOption] at hrun
  simp only [hfirst, hrefused, hsecond] at hrun
  exact ⟨start, ws₁, ws₂, ws₃, a₁, a₂, e, hstarted.reached distinct_journalPlatform, hfirst,
    hrefused, hsecond, by simpa [Applied.Reports, Except.toOption] using hrun.1,
    by simpa [Applied.Reports, Except.toOption] using hrun.2.2⟩

/-- A client that reads again only what is reported keeps what it knows of the areas. -/
theorem known_current_created : ∃ (start : JournalWorkspace)
    (c : Session journalPlatform journalStore), c.log.length = 2 ∧
      c.known .areas = (read .areas start).1 ∧ ∀ r, c.known r = (read r c.ws).1 := by
  classical
  obtain ⟨start, ws₁, ws₂, ws₃, a₁, a₂, e, hr, h₁, hrefused, h₂, hnot₁, hnot₂⟩ := exists_session
  let keeps (known : Read → Except Error (Answer _)) (ws : JournalWorkspace)
      (applied : Applied) (r : Read) := if applied.Reports r then (read r ws).1 else known r
  have hkeeps known ws applied r : keeps known ws applied r = (read r ws).1 ∨
      ¬ applied.Reports r ∧ keeps known ws applied r = known r := by
    by_cases hreports : applied.Reports r <;> simp [keeps, hreports]
  have hs : ReflTransGen Step (started start) _ :=
    ((ReflTransGen.single (.accepted h₁ (hkeeps _ _ _))).tail (.refused hrefused)).tail
      (.accepted h₂ (hkeeps _ _ _))
  refine ⟨start, _, rfl, ?_, known_current distinct_journalPlatform hr hs⟩
  simp only [keeps, if_neg hnot₁, if_neg hnot₂, started]

/-- The two accepted requests are in History, newest first, and the refused one is not. -/
theorem history_records_created : ∃ (start ws₁ ws₂ ws₃ : JournalWorkspace)
    (a₁ a₂ : Applied) (e : Error) (actions : List (Action _)),
    apply (newPage 3 "Notes") start = (.ok a₁, ws₁) ∧
    apply (newPage 4 "Lost") ws₁ = (.error e, ws₂) ∧
    apply (newPage 3 "More") ws₂ = (.ok a₂, ws₃) ∧
    Records [(newPage 3 "Notes", a₁), (newPage 3 "More", a₂)] actions ∧
    (read (.history none 2) ws₃).1 = .ok (.history actions.reverse) := by
  obtain ⟨start, ws₁, ws₂, ws₃, a₁, a₂, e, hr, h₁, hrefused, h₂, -, -⟩ := exists_session
  have hs : ReflTransGen Step (started start) _ :=
    ((ReflTransGen.single (.accepted h₁ fun _ => .inl rfl)).tail (.refused hrefused)).tail
      (.accepted h₂ fun _ => .inl rfl)
  obtain ⟨actions, hread, hrecords⟩ := history_records distinct_journalPlatform hr hs
  have hlength : actions.reverse.length = 2 := by
    simpa [started] using congrArg List.length hrecords
  refine ⟨start, ws₁, ws₂, ws₃, a₁, a₂, e, actions, h₁, hrefused, h₂, hrecords, ?_⟩
  rw [hread, List.reverse_append, List.take_left' hlength]

end Session

end Watershed.Liquid
