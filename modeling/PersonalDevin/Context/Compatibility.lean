import PersonalDevin.Context.Service
import PersonalDevin.Planning.Planner

/-!
# The compatibility of a plan

What the tasks of a plan require of an environment, and the check of `validate_plan_compatibility`. It
raises at the first requirement that is not met, and it always raises the same kind of error.
-/

namespace PersonalDevin.Context

open Lib
open Planning (ExecutionPlan TaskNode)

/-! ### Requirements -/

/-- A requirement that names one capability is absent, or the environment supports it. -/
def valueMet (context : EnvironmentContext) (capability field : String) (metadata : Fields) : Bool :=
  match metadata.get? field with
  | none => true
  | some .none => true
  | some required => context.supports capability required

/-- An entry of a list of requirements: a text that is not empty. -/
def requiredItem : Value → Option String
  | .str text => if text = "" then none else some text
  | _ => none

/-- A requirement that lists capabilities is absent, or it is a list of texts that are all supported. -/
def listMet (context : EnvironmentContext) (capability field : String) (metadata : Fields) : Bool :=
  match metadata.get? field with
  | none => true
  | some .none => true
  | some (.list items) =>
      match items.mapM requiredItem with
      | none => false
      | some required => required.all fun item => context.supports capability (.str item)
  | some _ => false

/-- The requirements that planning with an environment writes over. -/
def declaredMet (context : EnvironmentContext) (metadata : Fields) : Bool :=
  valueMet context "compute" "required_compute_orchestrator" metadata
    && valueMet context "identity" "required_identity_type" metadata
    && listMet context "compliance" "required_compliance" metadata

/-- The requirements that it leaves as they are. -/
def keptMet (context : EnvironmentContext) (metadata : Fields) : Bool :=
  valueMet context "network_topology" "required_network_topology" metadata
    && listMet context "data_type" "required_data_types" metadata

/-! ### The check of a plan -/

/-- The beginning of the text of an error about the task. -/
def aboutTask (task : TaskNode) : String := "task '" ++ task.id ++ "' "

def checkValue (context : EnvironmentContext) (task : TaskNode)
    (capability field noun got : String) : Except EnvironmentError Unit :=
  match task.metadata.get? field with
  | none => .ok ()
  | some .none => .ok ()
  | some required =>
      if context.supports capability required then .ok ()
      else .error (.invalid (aboutTask task ++ "requires " ++ noun ++ " '" ++ required.pyStr
        ++ "', got '" ++ got ++ "'"))

def checkList (context : EnvironmentContext) (task : TaskNode) (capability field noun : String) :
    Except EnvironmentError Unit :=
  let malformed := .error (.invalid (aboutTask task ++ "has invalid " ++ field))
  match task.metadata.get? field with
  | none => .ok ()
  | some .none => .ok ()
  | some (.list items) =>
      match items.mapM requiredItem with
      | none => malformed
      | some required =>
          let missing := required.filter fun item => !context.supports capability (.str item)
          if missing = [] then .ok ()
          else .error (.invalid (aboutTask task ++ "requires unavailable " ++ noun ++ ": "
            ++ ", ".intercalate (missing.dedup.insertionSort (· ≤ ·))))
  | some _ => malformed

/-- The body of the loop of `validate_plan_compatibility`. -/
def checkTask (context : EnvironmentContext) (task : TaskNode) : Except EnvironmentError Unit := do
  checkValue context task "compute" "required_compute_orchestrator" "orchestrator"
    context.getComputeType
  checkValue context task "identity" "required_identity_type" "identity" context.getIdentityType
  checkValue context task "network_topology" "required_network_topology" "network topology"
    context.network.topology.text
  checkList context task "data_type" "required_data_types" "data types"
  checkList context task "compliance" "required_compliance" "compliance controls"

def checkTasks (context : EnvironmentContext) : List TaskNode → Except EnvironmentError Unit
  | [] => .ok ()
  | task :: rest => do
      checkTask context task
      checkTasks context rest

def validatePlanCompatibility (plan : ExecutionPlan) (context : EnvironmentContext) :
    Except EnvironmentError Unit :=
  checkTasks context plan.orderedTasks

/-- The check returns if the condition holds, and raises `InvalidEnvironmentConfigurationError` if not. -/
def Decides (met : Bool) (check : Except EnvironmentError Unit) : Prop :=
  if met then check = .ok () else ∃ text, check = .error (.invalid text)

theorem decides_ok : Decides true (.ok ()) := rfl

theorem decides_invalid (text : String) : Decides false (.error (.invalid text)) := ⟨text, rfl⟩

theorem Decides.bind {met met' : Bool} {check check' : Except EnvironmentError Unit}
    (h : Decides met check) (h' : Decides met' check') :
    Decides (met && met') (check >>= fun _ => check') := by
  cases met with
  | true =>
      obtain rfl : check = .ok () := h
      rw [Bool.true_and]
      exact h'
  | false =>
      obtain ⟨text, rfl⟩ : ∃ text, check = .error (.invalid text) := h
      exact decides_invalid text

/-- The check raises `InvalidEnvironmentConfigurationError`. -/
def raisesInvalid : Except EnvironmentError Unit → Bool
  | .error error => error.isInvalid
  | .ok () => false

theorem Decides.raisesInvalid_eq {met : Bool} {check : Except EnvironmentError Unit}
    (h : Decides met check) : raisesInvalid check = !met := by
  cases met with
  | true =>
      obtain rfl : check = .ok () := h
      rfl
  | false =>
      obtain ⟨text, rfl⟩ : ∃ text, check = .error (.invalid text) := h
      rfl

theorem decides_checkValue (context : EnvironmentContext) (task : TaskNode)
    (capability field noun got : String) :
    Decides (valueMet context capability field task.metadata)
      (checkValue context task capability field noun got) := by
  unfold valueMet checkValue
  split
  · exact decides_ok
  · exact decides_ok
  · cases hsupports : context.supports capability _
    · rw [if_neg Bool.false_ne_true]
      exact decides_invalid _
    · rw [if_pos rfl]
      exact decides_ok

theorem decides_checkList (context : EnvironmentContext) (task : TaskNode)
    (capability field noun : String) :
    Decides (listMet context capability field task.metadata)
      (checkList context task capability field noun) := by
  unfold listMet checkList
  split
  · exact decides_ok
  · exact decides_ok
  · split
    · exact decides_invalid _
    · rename_i required _
      have hmissing : (required.filter fun item => !context.supports capability (.str item)) = []
          ↔ (required.all fun item => context.supports capability (.str item)) = true := by
        simp [List.filter_eq_nil_iff]
      cases hall : required.all fun item => context.supports capability (.str item)
      · rw [if_neg (by rw [hmissing, hall]; exact Bool.false_ne_true)]
        exact decides_invalid _
      · rw [if_pos (hmissing.2 hall)]
        exact decides_ok
  · exact decides_invalid _

/-- The condition that the check of a task decides. -/
def taskMet (context : EnvironmentContext) (task : TaskNode) : Bool :=
  declaredMet context task.metadata && keptMet context task.metadata

theorem decides_checkTask (context : EnvironmentContext) (task : TaskNode) :
    Decides (taskMet context task) (checkTask context task) := by
  have hchecks : Decides _ (checkTask context task) :=
    (decides_checkValue context task _ _ _ _).bind ((decides_checkValue context task _ _ _ _).bind
      ((decides_checkValue context task _ _ _ _).bind ((decides_checkList context task _ _ _).bind
        (decides_checkList context task _ _ _))))
  convert hchecks using 1
  simp only [taskMet, declaredMet, keptMet, Bool.and_assoc, Bool.and_comm, Bool.and_left_comm]

theorem decides_checkTasks (context : EnvironmentContext) (tasks : List TaskNode) :
    Decides (tasks.all (taskMet context)) (checkTasks context tasks) := by
  induction tasks with
  | nil => exact decides_ok
  | cons task rest ih =>
      rw [List.all_cons]
      exact (decides_checkTask context task).bind ih

/-- **What the check of a plan decides.** -/
theorem decides_validatePlanCompatibility (plan : ExecutionPlan) (context : EnvironmentContext) :
    Decides (plan.orderedTasks.all (taskMet context)) (validatePlanCompatibility plan context) :=
  decides_checkTasks context plan.orderedTasks

end PersonalDevin.Context
