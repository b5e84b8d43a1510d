/-
  Predicates over the values of a contract (`values.rs`).

  A predicate is checked once against the contract of a Phase result and evaluated on every
  result. The check walks its path through the contract, the evaluation through the value.
-/
import Watershed.Script.Values

namespace Watershed.Script

open Watershed.Proto List
open Fallible

/-- The value that a path selects. -/
def selectValue : FlowValue → List ValuePathSegment → Option FlowValue
  | value, [] => some value
  | .map values, .field name :: path =>
    (values.find? fun entry => entry.1 = name).bind fun entry => selectValue entry.2 path
  | .list values, .index position :: path =>
    values[position.toNat]?.bind fun value => selectValue value path
  | _, _ => none

/-- Evaluates one exact typed path-equality predicate. -/
def predicateMatches [DecidableEq FlowValue] (L : Libraries) (value : FlowValue)
    (predicate : ValuePredicate) : Except String Bool := do
  validateFlowValue L value
  validatePredicateDefinition L predicate
  .ok (selectValue value predicate.path = some predicate.equals)

section
variable {L : Libraries} {p q name : String} {contract : ValueContract} {value selected : FlowValue}
  {values : List FlowValue} {entries : List (String × FlowValue)} {fields : ValueFieldContracts}
  {check : String → FlowValue → Except String Unit} {i d depth nodes : Nat}

/-! ## The value under a contract -/

theorem exists_of_forItems (h : forItems check p i values = .ok ()) :
    ∀ value ∈ values, ∃ q, check q value = .ok () := by
  induction values generalizing i with
  | nil => simp
  | cons value values ih =>
    obtain ⟨hvalue, h⟩ := check_bind_eq_ok.mp h
    exact forall_mem_cons.mpr ⟨⟨_, hvalue⟩, ih h⟩

theorem forItems_eq_ok (h : ∀ value ∈ values, ∀ q, check q value = .ok ()) :
    forItems check p i values = .ok () := by
  induction values generalizing i with
  | nil => rfl
  | cons value values ih =>
    rw [forall_mem_cons] at h
    exact check_bind_eq_ok.mpr ⟨h.1 _, ih h.2⟩

theorem validateIntegerAgainst_path {text : String} {min max : Option Int64}
    (h : validateIntegerAgainst text p min max = .ok ()) :
    validateIntegerAgainst text q min max = .ok () := by
  unfold validateIntegerAgainst at h ⊢
  split at h
  · cases h
  · cases h
  · exact if_neg (ite_error_eq_ok.mp h).1

theorem validateAgainstFields_cons {required : Bool} :
    validateAgainstFields p entries (.cons name required contract fields) = .ok () ↔
      (∀ entry, entries.find? (fun entry => entry.1 = name) = some entry →
        validateAgainstContractAt (p ++ "." ++ name) contract entry.2 = .ok ()) ∧
      (entries.find? (fun entry => entry.1 = name) = none → required = false) ∧
      validateAgainstFields p entries fields = .ok () := by
  rw [validateAgainstFields]
  cases entries.find? (fun entry => entry.1 = name) <;> cases required <;> simp [check_bind_eq_ok]

mutual

/-- Whether a value conforms does not depend on the path that the errors name. -/
theorem validateAgainstContractAt_path (q : String) : ∀ (contract : ValueContract)
    (value : FlowValue) (p : String), validateAgainstContractAt p contract value = .ok () →
      validateAgainstContractAt q contract value = .ok ()
  | .boolean, value, p | .sessionObject, value, p => by
    cases value <;> simp [validateAgainstContractAt]
  | .integer min max, value, p => by
    cases value <;> simp [validateAgainstContractAt]
    exact validateIntegerAgainst_path
  | .string maxLength, value, p => by
    cases value <;> cases maxLength <;> simp [validateAgainstContractAt]
  | .list items maxItems, value, p => by
    cases value <;> simp only [validateAgainstContractAt, reduceCtorEq, false_implies]
    intro h
    split at h
    · cases h
    · exact forItems_eq_ok fun value hvalue q =>
        have ⟨p, hp⟩ := exists_of_forItems h value hvalue
        validateAgainstContractAt_path q items value p hp
  | .map fields, value, p => by
    cases value <;> simp only [validateAgainstContractAt, reduceCtorEq, false_implies]
    simp only [check_bind_eq_ok]
    refine And.imp (validateAgainstFields_path q _ fields p) fun h => ?_
    split at h
    · cases h
    · rfl

theorem validateAgainstFields_path (q : String) (values : List (String × FlowValue)) :
    ∀ (fields : ValueFieldContracts) (p : String),
      validateAgainstFields p values fields = .ok () → validateAgainstFields q values fields = .ok ()
  | .nil, _ => by simp [validateAgainstFields]
  | .cons name required valueContract rest, p => by
    rw [validateAgainstFields_cons, validateAgainstFields_cons]
    rintro ⟨hvalue, hrequired, hrest⟩
    exact ⟨fun entry hentry => validateAgainstContractAt_path _ _ _ _ (hvalue entry hentry),
      hrequired, validateAgainstFields_path q values rest p hrest⟩

end

/-- The value that a conforming map has under the name of a field. -/
theorem exists_of_validateAgainstFields (h : validateAgainstFields p entries fields = .ok ())
    (hfind : fields.find? name = some contract) {entry : String × FlowValue}
    (hentry : entries.find? (fun entry => entry.1 = name) = some entry) :
    ∃ q, validateAgainstContractAt q contract entry.2 = .ok () := by
  fun_induction ValueFieldContracts.find? name fields with
  | case1 => cases hfind
  | case2 required valueContract rest =>
    cases hfind
    exact ⟨_, (validateAgainstFields_cons.mp h).1 entry hentry⟩
  | case3 field required valueContract rest hne ih =>
    exact ih (validateAgainstFields_cons.mp h).2.2 hfind

/-! ## The contract -/

theorem guardContractDepth_eq_ok : guardContractDepth d p = .ok () ↔ d ≤ flowValueMaxDepthV0 := by
  simp [guardContractDepth]

mutual

/-- A contract stays well-formed nearer to the root. -/
theorem validateValueContractAt_mono {d e : Nat} (q : String) (hd : d ≤ e) :
    ∀ (contract : ValueContract) (p : String), validateValueContractAt L e p contract = .ok () →
      validateValueContractAt L d q contract = .ok ()
  | .boolean, p | .string _, p | .sessionObject, p => by
    simp only [validateValueContractAt, guardContractDepth_eq_ok]
    omega
  | .integer min max, p => by
    cases min <;> cases max <;>
      simp only [validateValueContractAt, guardContractDepth_eq_ok, check_bind_eq_ok, ite_error_eq_ok]
    all_goals first | exact hd.trans | exact And.imp_left hd.trans
  | .list items maxItems, p => by
    simp only [validateValueContractAt, guardContractDepth_eq_ok, check_bind_eq_ok, ite_error_eq_ok]
    rintro ⟨he, hcount, h⟩
    exact ⟨by omega, hcount, validateValueContractAt_mono _ (by omega) items _ h⟩
  | .map fields, p => by
    simp only [validateValueContractAt, guardContractDepth_eq_ok, check_bind_eq_ok, ite_error_eq_ok]
    rintro ⟨he, hcount, h⟩
    exact ⟨by omega, hcount, validateFieldContracts_mono hd q _ fields p h⟩

theorem validateFieldContracts_mono {d e : Nat} (hd : d ≤ e) (q : String) (names : List String) :
    ∀ (fields : ValueFieldContracts) (p : String),
      validateFieldContracts L e p names fields = .ok () →
      validateFieldContracts L d q names fields = .ok ()
  | .nil, p => by simp [validateFieldContracts]
  | .cons name required valueContract rest, p => by
    simp only [validateFieldContracts, check_bind_eq_ok, ite_error_eq_ok, validateKey]
    rintro ⟨hkey, hname, hvalue, hrest⟩
    exact ⟨hkey, hname, validateValueContractAt_mono _ (by omega) valueContract _ hvalue,
      validateFieldContracts_mono hd q _ rest p hrest⟩

end

theorem exists_of_validateFieldContracts {names : List String}
    (h : validateFieldContracts L d p names fields = .ok ())
    (hfind : fields.find? name = some contract) :
    ∃ q, validateValueContractAt L (d + 1) q contract = .ok () := by
  fun_induction ValueFieldContracts.find? name fields generalizing names with
  | case1 => cases hfind
  | case2 required valueContract rest =>
    simp only [validateFieldContracts, check_bind_eq_ok, ite_error_eq_ok] at h
    cases hfind
    exact ⟨_, h.2.2.1⟩
  | case3 field required valueContract rest hne ih =>
    simp only [validateFieldContracts, check_bind_eq_ok, ite_error_eq_ok] at h
    exact ih h.2.2.2 hfind

/-! ## Selection -/

/-- The members of a list or map wrapper. -/
theorem members_of_wrapped {tag : String} {payload : Value}
    (h : Wrapped L depth nodes (wrapper tag payload)) :
    (∀ values, payload = .array values → values.length ≤ flowValueMaxMembersV0 ∧
      ∀ value ∈ values, ∃ depth nodes, Wrapped L depth nodes value) ∧
    ∀ fields, payload = .object fields → ∀ x ∈ fields, ∃ depth nodes, Wrapped L depth nodes x.2 := by
  cases h with
  | boolean | integer | text | sessionObject => simp
  | list depth items hlength hitems =>
    refine ⟨?_, by simp⟩
    rintro _ ⟨⟩
    rw [length_map, forall_mem_map]
    exact ⟨hlength, fun x hx => ⟨_, _, hitems x hx⟩⟩
  | map depth items _ _ hitems =>
    refine ⟨by simp, ?_⟩
    rintro _ ⟨⟩
    rw [forall_mem_map]
    exact fun x hx => ⟨_, _, hitems x hx⟩

theorem itemValues_eq (values : List FlowValue) :
    itemValues values = values.map FlowValue.toValue := by
  induction values with
  | nil => rfl
  | cons value values ih => rw [itemValues, ih, map_cons]

theorem entryValues_eq (values : List (String × FlowValue)) :
    entryValues values = values.map fun entry => (entry.1, entry.2.toValue) := by
  induction values with
  | nil => rfl
  | cons entry values ih => rw [entryValues, ih, map_cons]

/-- A path that selects a value from a conforming one selects the contract of that value. -/
theorem selectContract_of_selectValue {path : List ValuePathSegment} {index : Nat}
    (hselect : selectValue value path = some selected)
    (hvalue : validateAgainstContractAt p contract value = .ok ())
    (hcontract : validateValueContractAt L (d + 1) q contract = .ok ())
    (hwrapped : Wrapped L depth nodes value.toValue) :
    ∃ found, selectContract index contract path = .ok found ∧
      validateAgainstContractAt "$" found selected = .ok () ∧
      validateValueContractDefinition L found = .ok () := by
  fun_induction selectValue value path generalizing contract index d p q depth nodes with
  | case1 value =>
    cases hselect
    exact ⟨contract, by cases contract <;> rfl, validateAgainstContractAt_path _ _ _ _ hvalue,
      validateValueContractAt_mono _ (by omega) _ _ hcontract⟩
  | case2 values name path ih =>
    obtain ⟨entry, hentry, hselect⟩ := Option.bind_eq_some_iff.mp hselect
    cases contract <;> simp only [validateAgainstContractAt, reduceCtorEq] at hvalue
    rename_i fields
    obtain ⟨hfields, hdeclared⟩ := check_bind_eq_ok.mp hvalue
    have hname : entry.1 = name := by simpa using List.find?_some hentry
    have hmem := mem_of_find?_eq_some hentry
    split at hdeclared
    · cases hdeclared
    · rename_i hnone
      obtain ⟨found, hfound⟩ : ∃ found, fields.find? name = some found := by
        have := List.find?_eq_none.mp hnone entry hmem
        rwa [hname, Bool.not_eq_true, Option.isNone_eq_false_iff, Option.isSome_iff_exists] at this
      simp only [validateValueContractAt, check_bind_eq_ok, ite_error_eq_ok] at hcontract
      obtain ⟨q, hq⟩ := exists_of_validateFieldContracts hcontract.2.2 hfound
      obtain ⟨p, hp⟩ := exists_of_validateAgainstFields hfields hfound hentry
      obtain ⟨_, _, hw⟩ := (members_of_wrapped hwrapped).2 _ rfl (entry.1, entry.2.toValue)
        (by rw [entryValues_eq]; exact mem_map_of_mem hmem)
      rw [selectContract, hfound]
      exact ih entry hselect hp hq hw
  | case3 values position path ih =>
    obtain ⟨item, hitem, hselect⟩ := Option.bind_eq_some_iff.mp hselect
    cases contract <;> simp only [validateAgainstContractAt, reduceCtorEq] at hvalue
    rename_i items maxItems
    split at hvalue
    · cases hvalue
    · rename_i hmax
      obtain ⟨hposition, rfl⟩ := List.getElem?_eq_some_iff.mp hitem
      obtain ⟨hlength, hitems⟩ := (members_of_wrapped hwrapped).1 _ rfl
      simp only [validateValueContractAt, check_bind_eq_ok, ite_error_eq_ok] at hcontract
      obtain ⟨p, hp⟩ := exists_of_forItems hvalue _ (getElem_mem hposition)
      obtain ⟨_, _, hw⟩ := hitems _ (by
        rw [itemValues_eq]
        exact mem_map_of_mem (getElem_mem hposition))
      rw [itemValues_eq, length_map] at hlength
      rw [selectContract, if_neg]
      · exact ih _ hselect hp hcontract.2.2 hw
      · cases maxItems with
        | none => simp; omega
        | some max => simp at hmax ⊢; omega
  | case4 => cases hselect

/-- A predicate that the check rejects matches no conforming value, and one that it accepts can be
    evaluated on every conforming value that is a valid one. -/
theorem validatePredicateAgainstContract_spec [DecidableEq FlowValue] (predicate : ValuePredicate)
    (hcontract : validateValueContractDefinition L contract = .ok ()) :
    (∀ error, validatePredicateAgainstContract L predicate contract = .error error →
      ∀ value, validateAgainstContractAt "$" contract value = .ok () →
        predicateMatches L value predicate ≠ .ok true) ∧
    (validatePredicateAgainstContract L predicate contract = .ok () →
      ∀ value, validateAgainstContractAt "$" contract value = .ok () →
        validateFlowValue L value = .ok () →
          ∃ answer, predicateMatches L value predicate = .ok answer) := by
  constructor
  · intro error herror value hvalue hmatches
    simp only [predicateMatches, check_bind_eq_ok, Except.ok.injEq, decide_eq_true_eq] at hmatches
    obtain ⟨hvalid, hdefinition, hselect⟩ := hmatches
    obtain ⟨_, hwrapped⟩ :=
      wrapped_of_validateFlowValueV0 (validateFlowValueV0_of_validateFlowValue hvalid)
    obtain ⟨found, hfound, hconforms, hformed⟩ :=
      selectContract_of_selectValue hselect hvalue hcontract hwrapped
    have hequals : validateFlowValueAgainstContract L predicate.equals found = .ok () :=
      check_bind_eq_ok.mpr ⟨(check_bind_eq_ok.mp hdefinition).2,
        check_bind_eq_ok.mpr ⟨hformed, hconforms⟩⟩
    rw [validatePredicateAgainstContract, hdefinition, hcontract, hfound] at herror
    simp only [bind, Except.bind, hequals, reduceCtorEq] at herror
  · intro h value _ hvalid
    obtain ⟨hdefinition, -⟩ := check_bind_eq_ok.mp h
    exact ⟨_, check_bind_eq_ok.mpr ⟨hvalid, check_bind_eq_ok.mpr ⟨hdefinition, rfl⟩⟩⟩

end

/-- A list that holds an invalid URI conforms, but no predicate can be evaluated on it. -/
theorem predicateMatches_undefined :
    validateValueContractDefinition asciiLibraries (.list .sessionObject none) = .ok () ∧
    validatePredicateAgainstContract asciiLibraries ⟨[], .list []⟩ (.list .sessionObject none) =
      .ok () ∧
    validateAgainstContractAt "$" (.list .sessionObject none) (.list [.sessionObject ""]) = .ok () ∧
    ¬ ∃ answer, @predicateMatches (Classical.decEq _) asciiLibraries (.list [.sessionObject ""])
      ⟨[], .list []⟩ = .ok answer := by
  refine ⟨rfl, rfl, rfl, ?_⟩
  rintro ⟨answer, h⟩
  cases (check_bind_eq_ok.mp h).1

/-- A predicate on the first of a list of booleans is accepted, one that expects a text there is
    rejected. -/
theorem validatePredicateAgainstContract_spec_list :
    (∃ answer, @predicateMatches (Classical.decEq _) asciiLibraries (.list [.boolean true])
      ⟨[.index 0], .boolean true⟩ = .ok answer) ∧
    (validatePredicateAgainstContract asciiLibraries ⟨[.index 0], .string "true"⟩
      (.list .boolean none)).isOk = false ∧
    @predicateMatches (Classical.decEq _) asciiLibraries (.list [.boolean true])
      ⟨[.index 0], .string "true"⟩ ≠ .ok true :=
  ⟨(@validatePredicateAgainstContract_spec asciiLibraries (.list .boolean none) (Classical.decEq _)
    ⟨[.index 0], .boolean true⟩ rfl).2 rfl (.list [.boolean true]) rfl rfl, rfl,
  (@validatePredicateAgainstContract_spec asciiLibraries (.list .boolean none) (Classical.decEq _)
    ⟨[.index 0], .string "true"⟩ rfl).1 _ rfl (.list [.boolean true]) rfl⟩

end Watershed.Script
