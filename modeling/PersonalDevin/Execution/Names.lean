import PersonalDevin.Execution.Policy
import PersonalDevin.Lib.Effects
import Mathlib.Data.Fintype.EquivFin

/-!
# The names of a policy

The validator compares the names of a request without the white space around them, and the names of a
policy as they are written: the constructor only asks that they are not blank. A policy does what it says
exactly if its names are also listed without white space, where that matters. A blocked operation with a
blank at its end blocks nothing, not even the operation that is written the same way.
-/

namespace PersonalDevin.Execution

open Lib

namespace PolicyValidator

/-- The name is listed, up to the white space around it. -/
def Meant (names : List PolicyName) (name : String) : Prop := ∃ listed ∈ names, strip listed.val = name

def Listed (names : List PolicyName) (name : String) : Prop := ∃ listed ∈ names, listed.val = name

/-- What the policy says of a request. -/
structure Admits (policy : ExecutionPolicy) (field : String → Option Value) : Prop where
  operation : ∃ text, field "operation" = some (.str text) ∧ strip text ≠ ""
    ∧ (policy.allowedOperations = [] ∨ Meant policy.allowedOperations (strip text))
    ∧ ¬ Meant policy.blockedOperations (strip text)
  environment : (provided (field "environment") = none ∧ policy.allowedEnvironments = [])
    ∨ ∃ text, field "environment" = some (.str text) ∧ strip text ≠ ""
      ∧ (policy.allowedEnvironments = [] ∨ Meant policy.allowedEnvironments (strip text))
  runtime : ∀ value, provided (field "runtime_seconds") = some value →
    ∃ seconds, intValue value = some seconds ∧ 0 ≤ seconds
      ∧ ∀ limit, policy.maxRuntimeSeconds = some limit → seconds ≤ limit

/-! ### What the validator accepts -/

variable {policy : ExecutionPolicy} {field : String → Option Value}

theorem nonBlank_eq_some_iff {value : Value} {name : String} :
    nonBlank value = some name ↔ ∃ text, value = .str text ∧ strip text ≠ "" ∧ strip text = name := by
  cases value with
  | str text =>
      by_cases hblank : strip text = ""
      · simp [nonBlank, hblank]
      · simp [nonBlank, hblank]
  | _ => simp [nonBlank]

theorem readOperation_eq_ok_iff {value : Option Value} {name : String} :
    readOperation value = .ok name ↔ value.bind nonBlank = some name := by
  unfold readOperation
  cases value.bind nonBlank <;> simp

theorem readEnvironment_eq_ok_iff {value : Option Value} {name : Option String} :
    readEnvironment value = .ok name ↔ (provided value = none ∧ name = none)
      ∨ ∃ v text, provided value = some v ∧ nonBlank v = some text ∧ name = some text := by
  unfold readEnvironment
  rcases provided value with _ | v
  · simp [eq_comm]
  · rcases hv : nonBlank v with _ | text
    · simp [hv]
    · simp [hv, eq_comm]

theorem isNamed_iff {names : List PolicyName} {name : String} :
    isNamed names name = true ↔ Listed names name := by
  simp [isNamed, Listed]

/-- The runtime is missing, or an integer within the limit. -/
def RuntimeAllowed (policy : ExecutionPolicy) (field : String → Option Value) : Prop :=
  ∀ value, provided (field "runtime_seconds") = some value →
    ∃ seconds, intValue value = some seconds ∧ 0 ≤ seconds
      ∧ ∀ limit, policy.maxRuntimeSeconds = some limit → seconds ≤ limit

theorem runtime_ok_iff (shown : String) :
    (∃ seconds, readRuntime (field "runtime_seconds") = .ok seconds
        ∧ checkRuntime policy shown seconds = .ok ()) ↔ RuntimeAllowed policy field := by
  unfold readRuntime RuntimeAllowed
  rcases provided (field "runtime_seconds") with _ | value
  · refine iff_of_true ⟨none, rfl, ?_⟩ fun _ h => by cases h
    unfold checkRuntime
    cases policy.maxRuntimeSeconds <;> rfl
  · rcases hvalue : intValue value with _ | seconds
    · simp [hvalue]
    · by_cases hneg : seconds < 0
      · simp only [hvalue, hneg, if_true]
        refine iff_of_false (fun ⟨_, h, _⟩ => by cases h) fun h => ?_
        obtain ⟨other, hother, hpos, -⟩ := h value rfl
        obtain rfl := Option.some.inj (hvalue.symm.trans hother)
        omega
      · have hpos : 0 ≤ seconds := by omega
        rcases hlimit : policy.maxRuntimeSeconds with _ | limit
        · simp [hvalue, hneg, hpos, checkRuntime, hlimit]
        · by_cases hlt : (limit : ℤ) < seconds
          · simp [hvalue, hneg, checkRuntime, hlimit, hlt]
          · have hle : seconds ≤ limit := by omega
            simp [hvalue, hneg, hpos, checkRuntime, hlimit, hlt, hle]

theorem checkOperation_ok_iff {name : String} :
    checkOperation policy name = .ok ()
      ↔ (policy.allowedOperations = [] ∨ Listed policy.allowedOperations name)
        ∧ ¬ Listed policy.blockedOperations name := by
  unfold checkOperation
  by_cases hallowed : policy.allowedOperations ≠ [] ∧ ¬ isNamed policy.allowedOperations name
  · rw [if_pos hallowed]
    rw [isNamed_iff] at hallowed
    simp [hallowed.1, hallowed.2]
  · rw [if_neg hallowed]
    rw [isNamed_iff, not_and_or, not_not, not_not] at hallowed
    by_cases hblocked : isNamed policy.blockedOperations name
    · rw [if_pos hblocked]
      simp [isNamed_iff.1 hblocked]
    · rw [if_neg hblocked]
      rw [isNamed_iff] at hblocked
      simp [hallowed, hblocked]

def EnvironmentIn (among : List PolicyName → String → Prop) (policy : ExecutionPolicy)
    (name : Option String) : Prop :=
  policy.allowedEnvironments = [] ∨ ∃ text, name = some text ∧ among policy.allowedEnvironments text

theorem checkEnvironment_ok_iff {name : Option String} :
    checkEnvironment policy name = .ok () ↔ EnvironmentIn Listed policy name := by
  unfold checkEnvironment EnvironmentIn
  by_cases hnil : policy.allowedEnvironments = []
  · simp [hnil]
  · cases name with
    | none => simp [hnil]
    | some text =>
        by_cases hlisted : isNamed policy.allowedEnvironments text = true
        · simp [hnil, hlisted, isNamed_iff.1 hlisted]
        · simp only [isNamed_iff] at hlisted
          simp [hnil, hlisted, isNamed_iff]

def OperationIn (among : List PolicyName → String → Prop) (policy : ExecutionPolicy) (name : String) :
    Prop :=
  (policy.allowedOperations = [] ∨ among policy.allowedOperations name)
    ∧ ¬ among policy.blockedOperations name

/-- The request is in order but for its names, which are those given. -/
structure Reads (policy : ExecutionPolicy) (field : String → Option Value) (operation : String)
    (environment : Option String) : Prop where
  operation : (field "operation").bind nonBlank = some operation
  environment : readEnvironment (field "environment") = .ok environment
  runtime : RuntimeAllowed policy field

theorem validate_ok_iff :
    (∃ result, validate field policy = .ok result)
      ↔ ∃ operation environment, Reads policy field operation environment
        ∧ OperationIn Listed policy operation ∧ EnvironmentIn Listed policy environment := by
  simp only [validate, except_bind_eq_ok_iff, pure, Except.pure]
  constructor
  · rintro ⟨result, operation, hoperation, environment, henvironment, seconds, hseconds, ⟨⟩, hnamed,
      ⟨⟩, hlisted, ⟨⟩, hlimit, -⟩
    exact ⟨operation, environment, ⟨readOperation_eq_ok_iff.1 hoperation, henvironment,
      (runtime_ok_iff _).1 ⟨seconds, hseconds, hlimit⟩⟩, checkOperation_ok_iff.1 hnamed,
      checkEnvironment_ok_iff.1 hlisted⟩
  · rintro ⟨operation, environment, hreads, hnamed, hlisted⟩
    obtain ⟨seconds, hseconds, hlimit⟩ := (runtime_ok_iff _).2 hreads.runtime
    exact ⟨_, operation, readOperation_eq_ok_iff.2 hreads.operation, environment, hreads.environment,
      seconds, hseconds, (), checkOperation_ok_iff.2 hnamed, (), checkEnvironment_ok_iff.2 hlisted,
      (), hlimit, rfl⟩

theorem provided_eq_some_str {value : Option Value} {text : String} :
    provided value = some (.str text) ↔ value = some (.str text) := by
  unfold provided
  split
  · simp
  · rfl

theorem admits_iff :
    Admits policy field
      ↔ ∃ operation environment, Reads policy field operation environment
        ∧ OperationIn Meant policy operation ∧ EnvironmentIn Meant policy environment := by
  constructor
  · rintro ⟨⟨text, htext, hblank, hoperation⟩, henvironment, hruntime⟩
    have hreadOperation : (field "operation").bind nonBlank = some (strip text) := by
      rw [htext]
      exact nonBlank_eq_some_iff.2 ⟨text, rfl, hblank, rfl⟩
    rcases henvironment with ⟨hnone, hnil⟩ | ⟨name, hname, hblank', hlisted⟩
    · exact ⟨strip text, none,
        ⟨hreadOperation, readEnvironment_eq_ok_iff.2 (.inl ⟨hnone, rfl⟩), hruntime⟩, hoperation,
        .inl hnil⟩
    · refine ⟨strip text, some (strip name), ⟨hreadOperation, ?_, hruntime⟩, hoperation,
        hlisted.imp_right fun h => ⟨_, rfl, h⟩⟩
      exact readEnvironment_eq_ok_iff.2 (.inr ⟨.str name, strip name, provided_eq_some_str.2 hname,
        nonBlank_eq_some_iff.2 ⟨name, rfl, hblank', rfl⟩, rfl⟩)
  · rintro ⟨operation, environment, ⟨hoperation, henvironment, hruntime⟩, hnamed, hlisted⟩
    refine ⟨?_, ?_, hruntime⟩
    · obtain ⟨value, hvalue, hname⟩ := Option.bind_eq_some_iff.1 hoperation
      obtain ⟨text, rfl, hblank, rfl⟩ := nonBlank_eq_some_iff.1 hname
      exact ⟨text, hvalue, hblank, hnamed⟩
    · rcases readEnvironment_eq_ok_iff.1 henvironment with ⟨hnone, rfl⟩ | ⟨value, name, hvalue, hname, rfl⟩
      · exact .inl ⟨hnone, hlisted.resolve_right fun ⟨_, h, _⟩ => by cases h⟩
      · obtain ⟨text, rfl, hblank, rfl⟩ := nonBlank_eq_some_iff.1 hname
        refine .inr ⟨text, provided_eq_some_str.1 hvalue, hblank, hlisted.imp_right ?_⟩
        rintro ⟨name, hsome, hmeant⟩
        exact Option.some.inj hsome ▸ hmeant

/-! ### The condition on the names -/

/-- A text as `strip` leaves it, not empty. -/
def Stripped (name : String) : Prop := strip name = name ∧ name ≠ ""

theorem stripped_strip (name : PolicyName) : Stripped (strip name.val) :=
  ⟨strip_strip name.val, name.property⟩

theorem Reads.stripped {operation : String} {environment : Option String}
    (h : Reads policy field operation environment) :
    Stripped operation ∧ ∀ name, environment = some name → Stripped name := by
  have hstripped : ∀ {value name}, nonBlank value = some name → Stripped name := by
    intro value name hname
    obtain ⟨text, -, hblank, rfl⟩ := nonBlank_eq_some_iff.1 hname
    exact ⟨strip_strip text, hblank⟩
  obtain ⟨value, -, hname⟩ := Option.bind_eq_some_iff.1 h.operation
  refine ⟨hstripped hname, fun name hsome => ?_⟩
  rcases readEnvironment_eq_ok_iff.1 h.environment with ⟨-, hnone⟩ | ⟨v, text, -, htext, heq⟩
  · rw [hsome] at hnone
    cases hnone
  · obtain rfl := Option.some.inj (hsome.symm.trans heq)
    exact hstripped htext

/-- A request with these names and without a runtime. -/
def request (operation : String) (environment : Option String) : String → Option Value
  | "operation" => some (.str operation)
  | "environment" => environment.map .str
  | _ => none

theorem reads_request_iff {name operation : String} {place environment : Option String}
    (hname : Stripped name) (hplace : ∀ text, place = some text → Stripped text) :
    Reads policy (request name place) operation environment
      ↔ operation = name ∧ environment = place := by
  have hblank : ∀ {text}, Stripped text → nonBlank (.str text) = some text := fun h =>
    nonBlank_eq_some_iff.2 ⟨_, rfl, h.1.symm ▸ h.2, h.1⟩
  have hoperation : (request name place "operation").bind nonBlank = some name := hblank hname
  have henvironment : readEnvironment (request name place "environment") = .ok place := by
    rw [readEnvironment_eq_ok_iff]
    cases place with
    | none => exact .inl ⟨rfl, rfl⟩
    | some text => exact .inr ⟨.str text, text, rfl, hblank (hplace text rfl), rfl⟩
  constructor
  · rintro ⟨hop, henv, -⟩
    exact ⟨Option.some.inj (hop.symm.trans hoperation), Except.ok.inj (henv.symm.trans henvironment)⟩
  · rintro ⟨rfl, rfl⟩
    exact ⟨hoperation, henvironment, fun _ h => by cases h⟩

/-- On stripped names, listed and meant come to the same. -/
def SameNames (policy : ExecutionPolicy) : Prop :=
  ∀ name place, Stripped name → (∀ text, place = some text → Stripped text) →
    (OperationIn Listed policy name ∧ EnvironmentIn Listed policy place
      ↔ OperationIn Meant policy name ∧ EnvironmentIn Meant policy place)

theorem validates_iff_sameNames :
    (∀ field, (∃ result, validate field policy = .ok result) ↔ Admits policy field)
      ↔ SameNames policy := by
  simp only [validate_ok_iff, admits_iff]
  constructor
  · intro h name place hname hplace
    have hrequest := h (request name place)
    simp only [reads_request_iff hname hplace, and_assoc, exists_and_left, exists_eq_left]
      at hrequest
    exact hrequest
  · intro h field
    refine exists_congr fun operation => exists_congr fun environment => and_congr_right fun hreads => ?_
    exact h operation environment hreads.stripped.1 hreads.stripped.2

/-- The operations are listed as they are meant, where that matters: a blocked one that would get
through otherwise, and an allowed one that is not blocked. -/
structure OperationsKept (policy : ExecutionPolicy) : Prop where
  blocked : ∀ name ∈ policy.blockedOperations,
    (policy.allowedOperations = [] ∨ Listed policy.allowedOperations (strip name.val)) →
      Listed policy.blockedOperations (strip name.val)
  allowed : ∀ name ∈ policy.allowedOperations, ¬ Meant policy.blockedOperations (strip name.val) →
    Listed policy.allowedOperations (strip name.val)

def EnvironmentsKept (policy : ExecutionPolicy) : Prop :=
  ∀ name ∈ policy.allowedEnvironments, Listed policy.allowedEnvironments (strip name.val)

/-- Every allowed operation is blocked, up to white space. -/
def NothingAllowed (policy : ExecutionPolicy) : Prop :=
  policy.allowedOperations ≠ []
    ∧ ∀ name ∈ policy.allowedOperations, Meant policy.blockedOperations (strip name.val)

/-- No environment is listed as a request can have it. -/
def NoEnvironment (policy : ExecutionPolicy) : Prop :=
  policy.allowedEnvironments ≠ []
    ∧ ∀ name ∈ policy.allowedEnvironments, ¬ Listed policy.allowedEnvironments (strip name.val)

/-- The names of the policy are listed without the white space around them, where that matters. Where
nothing is to be accepted, it is enough that nothing is. -/
def NamesKept (policy : ExecutionPolicy) : Prop :=
  (OperationsKept policy ∧ EnvironmentsKept policy)
    ∨ (NothingAllowed policy ∧ (OperationsKept policy ∨ NoEnvironment policy))

theorem Listed.meant {names : List PolicyName} {name : String} (hname : Stripped name)
    (h : Listed names name) : Meant names name := by
  obtain ⟨listed, hmem, rfl⟩ := h
  exact ⟨listed, hmem, hname.1⟩

theorem operationsKept_iff :
    OperationsKept policy
      ↔ ∀ name, Stripped name → (OperationIn Listed policy name ↔ OperationIn Meant policy name) := by
  constructor
  · rintro ⟨hblocked, hallowed⟩ name hname
    constructor
    · rintro ⟨hlisted, hnot⟩
      refine ⟨hlisted.imp_right (Listed.meant hname), ?_⟩
      rintro ⟨blocked, hmem, rfl⟩
      exact hnot (hblocked blocked hmem hlisted)
    · rintro ⟨hmeant, hnot⟩
      refine ⟨hmeant.imp_right ?_, fun hlisted => hnot (hlisted.meant hname)⟩
      rintro ⟨allowed, hmem, rfl⟩
      exact hallowed allowed hmem hnot
  · intro h
    constructor
    · intro name hmem hlisted
      by_contra hnot
      exact ((h _ (stripped_strip name)).1 ⟨hlisted, hnot⟩).2 ⟨name, hmem, rfl⟩
    · intro name hmem hnot
      have hlisted := ((h _ (stripped_strip name)).2 ⟨.inr ⟨name, hmem, rfl⟩, hnot⟩).1
      exact hlisted.resolve_left (List.ne_nil_of_mem hmem)

theorem environmentsKept_iff :
    EnvironmentsKept policy ↔ ∀ place : Option String, (∀ text, place = some text → Stripped text) →
      (EnvironmentIn Listed policy place ↔ EnvironmentIn Meant policy place) := by
  constructor
  · intro h place hplace
    refine or_congr_right (exists_congr fun text => and_congr_right fun hsome => ⟨?_, ?_⟩)
    · exact Listed.meant (hplace text hsome)
    · rintro ⟨name, hmem, rfl⟩
      exact h name hmem
  · intro h name hmem
    have hmeant : EnvironmentIn Meant policy (some (strip name.val)) :=
      .inr ⟨_, rfl, name, hmem, rfl⟩
    have hplace : ∀ text, some (strip name.val) = some text → Stripped text := fun text heq =>
      Option.some.inj heq ▸ stripped_strip name
    rcases (h _ hplace).2 hmeant with hnil | ⟨text, heq, hlisted⟩
    · exact absurd hnil (List.ne_nil_of_mem hmem)
    · exact Option.some.inj heq ▸ hlisted

theorem exists_environment (policy : ExecutionPolicy) :
    ∃ place : Option String, (∀ text, place = some text → Stripped text)
      ∧ EnvironmentIn Meant policy place := by
  rcases hnames : policy.allowedEnvironments with _ | ⟨name, rest⟩
  · exact ⟨none, (fun _ h => by cases h), .inl hnames⟩
  · refine ⟨some (strip name.val), fun text heq => Option.some.inj heq ▸ stripped_strip name, ?_⟩
    refine .inr ⟨_, rfl, name, ?_, rfl⟩
    rw [hnames]
    exact List.mem_cons_self

/-- There are more names than any list has. -/
theorem exists_unnamed (names : List PolicyName) : ∃ name, Stripped name ∧ ¬ Meant names name := by
  let lengths : List ℕ := 0 :: names.map fun name => (strip name.val).length
  obtain ⟨n, hn⟩ := Infinite.exists_notMem_finset lengths.toFinset
  rw [List.mem_toFinset, List.mem_cons, not_or] at hn
  have hlength : (String.ofList (List.replicate n 'a')).length = n := by simp
  refine ⟨String.ofList (List.replicate n 'a'), ⟨?_, fun hempty => hn.1 ?_⟩, ?_⟩
  · have hdrop : (List.replicate n 'a').dropWhile isSpace = List.replicate n 'a' := by
      have ha : isSpace 'a' = false := by decide
      cases n with
      | zero => rfl
      | succ n => simp [List.replicate_succ, ha]
    rw [strip, String.toList_ofList, hdrop, List.reverse_replicate, hdrop, List.reverse_replicate]
  · rw [hempty] at hlength
    exact hlength.symm
  · rintro ⟨name, hmem, heq⟩
    refine hn.2 (List.mem_map.2 ⟨name, hmem, ?_⟩)
    rw [heq, hlength]

theorem nothingAllowed_iff :
    NothingAllowed policy ↔ ∀ name, Stripped name → ¬ OperationIn Meant policy name := by
  constructor
  · rintro ⟨hne, hblocked⟩ name _ ⟨hmeant, hnot⟩
    obtain ⟨allowed, hmem, rfl⟩ := hmeant.resolve_left hne
    exact hnot (hblocked allowed hmem)
  · intro hnone
    constructor
    · intro hnil
      obtain ⟨name, hname, hfree⟩ := exists_unnamed policy.blockedOperations
      exact hnone name hname ⟨.inl hnil, hfree⟩
    · intro name hmem
      by_contra hnot
      exact hnone _ (stripped_strip name) ⟨.inr ⟨name, hmem, rfl⟩, hnot⟩

theorem noEnvironment_iff :
    NoEnvironment policy ↔ ∀ place : Option String, (∀ text, place = some text → Stripped text) →
      ¬ EnvironmentIn Listed policy place := by
  constructor
  · rintro ⟨hne, hunlisted⟩ place hplace hin
    obtain ⟨text, hsome, listed, hmem, rfl⟩ := hin.resolve_left hne
    exact hunlisted listed hmem ⟨listed, hmem, (hplace _ hsome).1.symm⟩
  · intro hnone
    refine ⟨fun hnil => hnone none (fun _ heq => by cases heq) (.inl hnil), ?_⟩
    intro name _ hlisted
    have hplace : ∀ text, some (strip name.val) = some text → Stripped text := fun text heq =>
      Option.some.inj heq ▸ stripped_strip name
    exact hnone (some (strip name.val)) hplace (.inr ⟨_, rfl, hlisted⟩)

/-- **The validator accepts what the policy admits, for every request, exactly if the names of the
policy are listed without white space where that matters.** -/
theorem validates_iff (policy : ExecutionPolicy) :
    (∀ field, (∃ result, validate field policy = .ok result) ↔ Admits policy field)
      ↔ NamesKept policy := by
  rw [validates_iff_sameNames]
  constructor
  · intro h
    by_cases hsome : ∃ name, Stripped name ∧ OperationIn Meant policy name
    · -- an operation and an environment that are meant: each list is compared along the other's
      obtain ⟨name, hname, hmeant⟩ := hsome
      obtain ⟨place, hplace, hin⟩ := exists_environment policy
      obtain ⟨hlisted, hlistedPlace⟩ := (h name place hname hplace).2 ⟨hmeant, hin⟩
      refine .inl ⟨operationsKept_iff.2 fun other hother => ?_,
        environmentsKept_iff.2 fun other hother => ?_⟩
      · have hboth := h other place hother hplace
        rwa [and_iff_left hlistedPlace, and_iff_left hin] at hboth
      · have hboth := h name other hname hother
        rwa [and_iff_right hlisted, and_iff_right hmeant] at hboth
    · have hnone : ∀ name, Stripped name → ¬ OperationIn Meant policy name := fun name hname hin =>
        hsome ⟨name, hname, hin⟩
      refine .inr ⟨nothingAllowed_iff.2 hnone, ?_⟩
      by_cases hplace : NoEnvironment policy
      · exact .inr hplace
      · -- along a listed environment no operation may be let through
        simp only [noEnvironment_iff, not_forall, not_not] at hplace
        obtain ⟨place, hplace, hin⟩ := hplace
        refine .inl (operationsKept_iff.2 fun name hname => iff_of_false (fun hlisted => ?_)
          (hnone name hname))
        exact hnone name hname ((h name place hname hplace).1 ⟨hlisted, hin⟩).1
  · rintro (⟨hoperations, henvironments⟩ | ⟨hnothing, hrest⟩) name place hname hplace
    · exact and_congr (operationsKept_iff.1 hoperations name hname)
        (environmentsKept_iff.1 henvironments place hplace)
    · have hnone := nothingAllowed_iff.1 hnothing name hname
      refine iff_of_false (fun ⟨hlisted, hin⟩ => ?_) fun hmeant => hnone hmeant.1
      rcases hrest with hoperations | hnowhere
      · exact hnone ((operationsKept_iff.1 hoperations name hname).1 hlisted)
      · exact noEnvironment_iff.1 hnowhere place hplace hin

/-- A policy that blocks one operation, written with a blank on both sides. -/
def paddedPolicy : ExecutionPolicy where
  allowedOperations := []
  blockedOperations := [⟨" deploy ", by decide⟩]
  maxRuntimeSeconds := none
  allowedEnvironments := []

/-- The operation is accepted, even written as in the list that blocks it. -/
theorem paddedPolicy_accepts :
    (∃ result, validate (request " deploy " none) paddedPolicy = .ok result)
      ∧ ¬ Admits paddedPolicy (request " deploy " none) := by
  refine ⟨⟨⟨"deploy", none, none⟩, by rfl⟩, fun h => ?_⟩
  obtain ⟨text, htext, -, -, hblocked⟩ := h.operation
  obtain rfl : " deploy " = text := Value.str.inj (Option.some.inj htext)
  exact hblocked ⟨⟨" deploy ", by decide⟩, List.mem_cons_self, rfl⟩

end PolicyValidator

end PersonalDevin.Execution
