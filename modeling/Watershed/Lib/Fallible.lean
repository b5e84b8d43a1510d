/-
  Computations that may fail and keep the state they had reached when they failed, with
  their weakest preconditions.

  A failing step of a Rust method with `&mut self` leaves behind whatever it had written.
  `Fallible` makes that visible: the state comes back beside the result in both cases, so a
  postcondition has a part for the result and a part for the error.
-/
import Mathlib.Data.List.Forall2
import Mathlib.Logic.Basic

open List

namespace Watershed

/-! ## Results without a state -/

section
variable {ε α β : Type}
  {f : α → Except ε β} {l : List α} {x : Except ε α} {bs : List β} {b : β} {a : α} {δ : Type}

theorem bind_eq_ok : (x >>= f) = .ok b ↔ ∃ a, x = .ok a ∧ f a = .ok b := by
  cases x <;> simp [bind, Except.bind]

/-- A check followed by a computation. -/
theorem check_bind_eq_ok {x : Except ε Unit} {f : Unit → Except ε β} :
    (x >>= f) = .ok b ↔ x = .ok () ∧ f () = .ok b := by
  rw [bind_eq_ok]
  exact ⟨fun h => ⟨h.choose_spec.1, h.choose_spec.2⟩, fun h => ⟨(), h.1, h.2⟩⟩

@[simp] theorem mapError_eq_ok {f : ε → δ} : x.mapError f = .ok a ↔ x = .ok a := by
  cases x <;> simp [Except.mapError]

theorem map_eq_ok {f : α → β} : x.map f = .ok b ↔ ∃ a, x = .ok a ∧ f a = b := by
  cases x <;> simp [Except.map]

theorem ite_error_eq_ok {p : Prop} [Decidable p] {e : ε} :
    (if p then .error e else x) = .ok a ↔ ¬ p ∧ x = .ok a := by
  by_cases hp : p <;> simp [hp]

theorem toOption_eq_some : x.toOption = some a ↔ x = .ok a := by
  cases x <;> simp [Except.toOption]

theorem forM_eq_ok {f : α → Except ε Unit} {u : Unit} :
    l.forM f = .ok u ↔ ∀ a ∈ l, f a = .ok () := by
  induction l with
  | nil => simp [pure, Except.pure]
  | cons a l ih =>
    rw [forall_mem_cons, ← ih]
    exact check_bind_eq_ok

theorem forM_congr {f g : α → Except ε Unit} (h : ∀ a ∈ l, f a = g a) : l.forM f = l.forM g := by
  induction l with
  | nil => rfl
  | cons a l ih =>
    rw [forall_mem_cons] at h
    simp only [List.forM, h.1, ih h.2]

theorem mapM_eq_ok : l.mapM f = .ok bs ↔ List.Forall₂ (fun a b => f a = .ok b) l bs := by
  induction l generalizing bs with
  | nil => simp [pure, Except.pure]
  | cons a l ih =>
    rw [mapM_cons, bind_eq_ok, forall₂_cons_left_iff]
    refine exists_congr fun b => ?_
    rw [bind_eq_ok]
    constructor
    · rintro ⟨hb, rest, hrest, hbs⟩
      cases hbs
      exact ⟨rest, hb, ih.mp hrest, rfl⟩
    · rintro ⟨rest, hb, hrest, rfl⟩
      exact ⟨hb, rest, ih.mpr hrest, rfl⟩

theorem mapM_ok {g : α → β} (h : ∀ a ∈ l, f a = .ok (g a)) : l.mapM f = .ok (l.map g) := by
  rw [mapM_eq_ok, forall₂_map_right_iff, forall₂_same]
  exact h

/-- When every item succeeds, so does the list. -/
theorem exists_mapM_eq_ok (h : ∀ a ∈ l, ∃ b, f a = .ok b) :
    ∃ bs, l.mapM f = .ok bs := by
  induction l with
  | nil => exact ⟨[], rfl⟩
  | cons a l ih =>
    rw [forall_mem_cons] at h
    obtain ⟨⟨b, hb⟩, h⟩ := h
    obtain ⟨bs, hbs⟩ := ih h
    refine ⟨b :: bs, ?_⟩
    rw [mapM_cons, hb, hbs]
    rfl

theorem ok_of_mapM_eq_ok (h : l.mapM f = .ok bs) :
    ∀ a ∈ l, ∃ b, f a = .ok b := by
  have hforall := mapM_eq_ok.mp h
  clear h
  induction hforall with
  | nil => simp
  | cons hb _ ih => exact forall_mem_cons.mpr ⟨⟨_, hb⟩, ih⟩

theorem mem_of_mapM_eq_ok (h : l.mapM f = .ok bs) : b ∈ bs ↔ ∃ a ∈ l, f a = .ok b := by
  have hforall := mapM_eq_ok.mp h
  clear h
  induction hforall with
  | nil => simp
  | cons hb _ ih =>
    rw [mem_cons, exists_mem_cons_iff, hb, Except.ok.injEq, eq_comm]
    exact or_congr_right ih

/-- Every error of a computation has a property. -/
def FailsWith (P : ε → Prop) (x : Except ε α) : Prop := ∀ e, x = .error e → P e

namespace FailsWith

variable {P : ε → Prop}

theorem ok (a : α) : FailsWith P (.ok a) := by
  intro e h
  cases h

theorem error {e : ε} (h : P e) : FailsWith P (.error e : Except ε α) := by
  intro e' h'
  cases h'
  exact h

theorem bind (hx : FailsWith P x) (hf : ∀ a, FailsWith P (f a)) : FailsWith P (x >>= f) := by
  cases x with
  | error e => exact error (hx e rfl)
  | ok a => exact hf a

theorem mapError {f : δ → ε} {x : Except δ α} (h : ∀ d, P (f d)) : FailsWith P (x.mapError f) := by
  cases x with
  | error d => exact error (h d)
  | ok a => exact ok a

theorem forM {f : α → Except ε Unit} (hf : ∀ a, FailsWith P (f a)) (l : List α) :
    FailsWith P (l.forM f) := by
  induction l with
  | nil => exact ok ()
  | cons a l ih => exact bind (hf a) fun _ => ih

end FailsWith

/-- The sum of the counts of the items. -/
def tally (items : List (Nat × α)) : Nat := items.foldr (fun x sum => x.1 + sum) 0

theorem tally_cons (x : Nat × α) (items : List (Nat × α)) :
    tally (x :: items) = x.1 + tally items := rfl

/-- A walk over a list with a running count: each item adds its own count and stays within the
    limit. -/
theorem walk_eq_ok (walk : Nat → List α → Nat → Except ε Nat) {P : Nat → α → Prop}
    {limit : Nat} (hnil : ∀ i nodes, walk i [] nodes = .ok nodes) {items : List α}
    (hcons : ∀ a ∈ items, ∀ i items nodes count, walk i (a :: items) nodes = .ok count ↔
      ∃ k, (P k a ∧ nodes + k ≤ limit) ∧ walk (i + 1) items (nodes + k) = .ok count)
    {i nodes count : Nat} (hnodes : nodes ≤ limit) :
    walk i items nodes = .ok count ↔ ∃ counted : List (Nat × α), counted.map Prod.snd = items ∧
      (∀ x ∈ counted, P x.1 x.2) ∧ nodes + tally counted ≤ limit ∧
      count = nodes + tally counted := by
  induction items generalizing i nodes with
  | nil =>
    rw [hnil]
    constructor
    · intro h
      cases h
      exact ⟨[], rfl, by simp, hnodes, rfl⟩
    · rintro ⟨counted, hcounted, -, -, rfl⟩
      rw [map_eq_nil_iff.mp hcounted]
      rfl
  | cons a items ih =>
    rw [forall_mem_cons] at hcons
    rw [hcons.1]
    constructor
    · rintro ⟨k, ⟨hk, hle⟩, h⟩
      obtain ⟨counted, rfl, hcounted, hlimit, rfl⟩ := (ih hcons.2 hle).mp h
      refine ⟨(k, a) :: counted, rfl, forall_mem_cons.mpr ⟨hk, hcounted⟩, ?_⟩
      rw [tally_cons]
      omega
    · rintro ⟨counted, hmap, hcounted, hlimit, rfl⟩
      obtain ⟨x, counted, rfl, rfl, rfl⟩ := map_eq_cons_iff.mp hmap
      rw [forall_mem_cons] at hcounted
      have htally := tally_cons x counted
      refine ⟨x.1, ⟨hcounted.1, by omega⟩, (ih hcons.2 (by omega)).mpr ?_⟩
      exact ⟨counted, rfl, hcounted.2, by omega, by omega⟩

end

/-! ## Results with a state -/

/-- A computation over the state `σ` that returns an `α` or fails with an `ε`; a failure
    keeps the state as it stood. -/
def Fallible (ε σ α : Type) := σ → Except ε α × σ

namespace Fallible

variable {ε δ σ τ α β : Type} {f : α → Fallible ε σ β} {a : α}

instance : Monad (Fallible ε σ) where
  pure a := fun s => (.ok a, s)
  bind m f := fun s =>
    match m s with
    | (.ok a, s') => f a s'
    | (.error e, s') => (.error e, s')

/-- Fails with `e`. -/
def fail (e : ε) : Fallible ε σ α := fun s => (.error e, s)

/-- A value read from the state. -/
def read (f : σ → α) : Fallible ε σ α := fun s => (.ok (f s), s)

/-- Changes the state. -/
def change (f : σ → σ) : Fallible ε σ Unit := fun s => (.ok (), f s)

/-- Returns `r`'s value or fails with its error. -/
def lift (r : Except ε α) : Fallible ε σ α := fun s => (r, s)

/-- The value of `o`, or the failure `e` (Rust's `ok_or`). -/
def okOr (o : Option α) (e : ε) : Fallible ε σ α :=
  match o with
  | some a => pure a
  | none => fail e

/-- Runs a computation on a part of the state; the part is put back also when it fails. -/
def zoom (view : σ → τ) (put : τ → σ → σ) (m : Fallible ε τ α) : Fallible ε σ α := fun s =>
  ((m (view s)).1, put (m (view s)).2 s)

/-- Changes what a failure says. -/
def mapError (m : Fallible ε σ α) (f : ε → δ) : Fallible δ σ α := fun s =>
  ((m s).1.mapError f, (m s).2)

/-- The result of a computation, also when it failed (Rust's `if let Err(e) = …`). -/
def attempt (m : Fallible ε σ α) : Fallible δ σ (Except ε α) := fun s => (.ok (m s).1, (m s).2)

/-- The weakest precondition: from `s`, the computation returns with `Q` or fails with `E`. -/
def wp (m : Fallible ε σ α) (Q : α → σ → Prop) (E : ε → σ → Prop) (s : σ) : Prop :=
  match m s with
  | (.ok a, s') => Q a s'
  | (.error e, s') => E e s'

/-- A sequence returns exactly when both parts do. -/
theorem bind_apply_eq_ok {m : Fallible ε σ α} {b : β} {s t : σ} :
    (m >>= f) s = (.ok b, t) ↔ ∃ a s', m s = (.ok a, s') ∧ f a s' = (.ok b, t) := by
  simp only [bind]
  rcases m s with ⟨_ | a, s'⟩
  · simp
  · refine ⟨fun h => ⟨a, s', rfl, h⟩, ?_⟩
    rintro ⟨_, _, heq, h⟩
    cases heq
    exact h

theorem exists_of_ok {result : Except ε α × σ} (h : result.1 = .ok a) :
    ∃ s, result = (.ok a, s) := ⟨result.2, Prod.ext h rfl⟩

variable {m : Fallible ε σ α} {Q Q' : α → σ → Prop} {E E' : ε → σ → Prop} {s : σ} {s' : σ} {e : ε}

@[simp] theorem wp_pure (a : α) : wp (pure a : Fallible ε σ α) Q E s ↔ Q a s := Iff.rfl

@[simp] theorem wp_fail (e : ε) : wp (fail e : Fallible ε σ α) Q E s ↔ E e s := Iff.rfl

@[simp] theorem wp_read (f : σ → α) : wp (read f : Fallible ε σ α) Q E s ↔ Q (f s) s := Iff.rfl

@[simp] theorem wp_change (f : σ → σ) {Q : Unit → σ → Prop} :
    wp (change f : Fallible ε σ Unit) Q E s ↔ Q () (f s) := Iff.rfl

@[simp] theorem wp_bind (f : α → Fallible ε σ β) {Q : β → σ → Prop} :
    wp (m >>= f) Q E s ↔ wp m (fun a s' => wp (f a) Q E s') E s := by
  simp only [wp, bind]
  rcases m s with ⟨_ | _, s'⟩ <;> rfl

theorem wp_lift_ok (a : α) : wp (lift (.ok a) : Fallible ε σ α) Q E s ↔ Q a s := Iff.rfl

theorem wp_lift (r : Except ε α) :
    wp (lift r : Fallible ε σ α) Q E s ↔
      (∀ a, r = .ok a → Q a s) ∧ (∀ e, r = .error e → E e s) := by
  cases r <;> simp [wp, lift]

theorem wp_okOr (o : Option α) (e : ε) :
    wp (okOr o e : Fallible ε σ α) Q E s ↔ (∀ a, o = some a → Q a s) ∧ (o = none → E e s) := by
  cases o <;> simp [okOr]

theorem wp_zoom {view : σ → τ} {put : τ → σ → σ} {m : Fallible ε τ α} :
    wp (zoom view put m) Q E s ↔
      wp m (fun a t => Q a (put t s)) (fun e t => E e (put t s)) (view s) := by
  simp only [wp, zoom]
  rcases m (view s) with ⟨_ | _, t⟩ <;> rfl

theorem wp_mapError {f : ε → δ} {E : δ → σ → Prop} :
    wp (mapError m f) Q E s ↔ wp m Q (fun e s' => E (f e) s') s := by
  simp only [wp, mapError]
  rcases m s with ⟨_ | _, s'⟩ <;> rfl

theorem wp_attempt {Q : Except ε α → σ → Prop} {E : δ → σ → Prop} :
    wp (attempt m) Q E s ↔ wp m (fun a s' => Q (.ok a) s') (fun e s' => Q (.error e) s') s := by
  simp only [wp, attempt]
  rcases m s with ⟨_ | _, s'⟩ <;> rfl

theorem wp_of_ok (h : m s = (.ok a, s')) : wp m Q E s ↔ Q a s' := by
  simp only [wp, h]

theorem wp_of_error (h : m s = (.error e, s')) : wp m Q E s ↔ E e s' := by
  simp only [wp, h]

/-- The rule of consequence. -/
theorem wp.mono (h : wp m Q E s) (hQ : ∀ a s', Q a s' → Q' a s') (hE : ∀ e s', E e s' → E' e s') :
    wp m Q' E' s := by
  revert h
  unfold wp
  rcases m s with ⟨_ | _, s'⟩
  · exact hE _ _
  · exact hQ _ _

theorem wp.mono_ok (h : wp m Q E s) (hQ : ∀ a s', Q a s' → Q' a s') : wp m Q' E s :=
  h.mono hQ fun _ _ => id

/-- Two postconditions proved separately hold together. -/
theorem wp.and (h : wp m Q E s) (h' : wp m Q' E' s) :
    wp m (fun a s' => Q a s' ∧ Q' a s') (fun e s' => E e s' ∧ E' e s') s := by
  revert h h'
  unfold wp
  rcases m s with ⟨_ | _, s'⟩ <;> exact And.intro

theorem wp.of_ok (h : wp m Q E s) (hm : m s = (.ok a, s')) : Q a s' := (wp_of_ok hm).mp h

/-- A computation that does not fail returns. -/
theorem wp.returns (h : wp m Q (fun _ _ => False) s) : ∃ a s', m s = (.ok a, s') ∧ Q a s' := by
  revert h
  unfold wp
  rcases m s with ⟨_ | a, s'⟩
  · exact False.elim
  · exact fun h => ⟨a, s', rfl, h⟩

theorem wp.of_error (h : wp m Q E s) (hm : m s = (.error e, s')) : E e s' := (wp_of_error hm).mp h

/-! ### Related states -/

/-- Every run, also a failing one, leads to a state related to the one it starts from. -/
def Moves (R : σ → σ → Prop) (m : Fallible ε σ α) : Prop := ∀ s, R s (m s).2

namespace Moves

variable {R : σ → σ → Prop}

theorem wp (h : Moves R m) (s : σ) : m.wp (fun _ s' => R s s') (fun _ s' => R s s') s := by
  have hm := h s
  revert hm
  unfold Fallible.wp
  rcases m s with ⟨_ | _, s'⟩ <;> exact id

theorem change {f : σ → σ} (h : ∀ s, R s (f s)) :
    Moves R (Fallible.change f : Fallible ε σ Unit) := h

section
variable [Std.Refl R]

theorem pure (a : α) : Moves R (pure a : Fallible ε σ α) := fun s => Std.Refl.refl s

theorem fail (e : ε) : Moves R (fail e : Fallible ε σ α) := fun s => Std.Refl.refl s

theorem read (f : σ → α) : Moves R (read f : Fallible ε σ α) := fun s => Std.Refl.refl s

theorem lift (r : Except ε α) : Moves R (lift r : Fallible ε σ α) := fun s => Std.Refl.refl s

end

theorem bind [IsTrans σ R] (h : Moves R m) (hf : ∀ a, Moves R (f a)) : Moves R (m >>= f) := by
  intro s
  have hm := h s
  simp only [Bind.bind]
  rcases hresult : m s with ⟨_ | a, s'⟩ <;> rw [hresult] at hm
  · exact hm
  · exact IsTrans.trans _ _ _ hm (hf a s')

end Moves

end Fallible

end Watershed
