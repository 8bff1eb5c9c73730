import PersonalDevin.Planning.Model
import PersonalDevin.Text

/-!
# Execution tasks and the executor

The tracked task, the sandbox and `Executor.execute_task`. A handler is a function of the task that
returns an object or raises an `Exception`. The executor asks the object for its truth and its text and
the exception for its text, and each of these may raise an exception in its turn; the text of that one
can be had. The timestamps of a task and the context the sandbox hands back unread are left out.
-/

namespace PersonalDevin.Execution

inductive ExecutionStatus where
  | pending
  | running
  | completed
  | failed
  | skipped
  deriving DecidableEq

def ExecutionStatus.text : ExecutionStatus → String
  | pending => "pending"
  | running => "running"
  | completed => "completed"
  | failed => "failed"
  | skipped => "skipped"

structure ExecutionTask where
  id : String
  description : String
  dependencies : List String
  status : ExecutionStatus
  output : Option String
  error : Option String
  skipReason : Option String
  deriving DecidableEq

def taskNodeToExecutionTask (node : Planning.TaskNode) : ExecutionTask where
  id := node.id
  description := node.description
  dependencies := node.dependencies
  status := .pending
  output := none
  error := none
  skipReason := none

/-- What a handler returns, as the executor reads it: a tuple of two, with the truth of its first and
the text of its second member (`none` for `None`), a string, or any other object. -/
inductive Returned where
  | pair (success : Except String Bool) (message : Option Printed)
  | str (text : String)
  | other (text : Printed)

inductive HandlerOutcome where
  | returned (result : Returned)
  | raised (text : Printed)

abbrev TaskHandler := ExecutionTask → HandlerOutcome

/-! ### The sandbox -/

/-- The dictionary `ExecutionSandbox.execute` returns, with `result` for its output. -/
structure SandboxResult where
  success : Bool
  result : Returned
  error : Option String

/-- `ExecutionSandbox.execute`, with the text of the exception it raises: `str` of what the handler has
raised is asked for in the handler of that exception. -/
def sandboxExecute (handler : TaskHandler) (task : ExecutionTask) : Except String SandboxResult :=
  match handler task with
  | .returned result => .ok { success := true, result, error := none }
  | .raised printed => do
      let text ← printed
      return { success := false, result := .other (.ok "None"), error := some text }

/-! ### The executor -/

/-- `TaskHandlerResult | str`. -/
inductive HandlerResult where
  | pair (success : Bool) (message : Option String)
  | text (output : String)

/-- `None if message is None else str(message)`. -/
def messageText : Option Printed → Except String (Option String)
  | none => .ok none
  | some printed => some <$> printed

/-- `text or default`. -/
def textOr (text : Option String) (default : String) : String :=
  match text with
  | none => default
  | some s => if s = "" then default else s

/-- `_normalize_result`, with the text of the exception it raises. -/
def normalizeResult : Returned → Except String HandlerResult
  | .pair success message => do
      let success ← success
      let message ← messageText message
      return .pair success message
  | .str text => return .text text
  | .other printed => do
      let text ← printed
      return .text text

/-- `_execute_handler`, with the text of the exception it raises. -/
def executeHandler (task : ExecutionTask) : Option TaskHandler → Except String HandlerResult
  | none => .ok (.pair true (some ""))
  | some handler => do
      let sandboxResult ← sandboxExecute handler task
      if sandboxResult.success then normalizeResult sandboxResult.result
      else .error (textOr sandboxResult.error "sandboxed task failed")

/-- The task as its handler receives it. -/
def ExecutionTask.start (task : ExecutionTask) : ExecutionTask :=
  { task with status := .running, error := none, skipReason := none }

def executeTask (task : ExecutionTask) (handler : Option TaskHandler) : ExecutionTask :=
  let task := task.start
  match executeHandler task handler with
  | .ok (.pair true message) =>
      { task with output := some (textOr message ""), status := .completed }
  | .ok (.pair false message) =>
      { task with error := some (textOr message "task failed"), status := .failed }
  | .ok (.text output) => { task with output := some output, status := .completed }
  | .error text => { task with error := some text, status := .failed }

/-! ### What a handler's outcome comes to -/

/-- The text of the exception that reading the outcome raises, if it raises one. -/
def HandlerOutcome.unread : HandlerOutcome → Option String
  | .returned (.pair (.error text) _) => some text
  | .returned (.pair (.ok _) (some (.error text))) => some text
  | .returned (.other (.error text)) => some text
  | .raised (.error text) => some text
  | _ => none

/-- The status a handler's outcome calls for: a missing handler succeeds, and so does every returned
object that can be read, but a pair whose first component is false. -/
def verdict (task : ExecutionTask) : Option TaskHandler → ExecutionStatus
  | none => .completed
  | some handler =>
      match handler task with
      | .returned (.pair (.ok false) _) => .failed
      | .raised _ => .failed
      | outcome => if outcome.unread = none then .completed else .failed

/-- Reading what the handler gives for the task raises an exception whose text is empty. -/
def Silent (task : ExecutionTask) : Option TaskHandler → Prop
  | none => False
  | some handler => (handler task).unread = some ""

instance (task : ExecutionTask) : (handler : Option TaskHandler) → Decidable (Silent task handler)
  | none => .isFalse id
  | some handler => inferInstanceAs (Decidable ((handler task).unread = some ""))

theorem executeTask_status (task : ExecutionTask) (handler : Option TaskHandler) :
    (executeTask task handler).status = verdict task.start handler := by
  cases handler with
  | none => rfl
  | some handler =>
      simp only [executeTask, executeHandler, sandboxExecute, verdict]
      rcases handler task.start with (⟨_ | (_ | _), _ | (_ | _)⟩ | _ | (_ | _)) | (_ | _) <;> rfl

theorem verdict_eq (task : ExecutionTask) (handler : Option TaskHandler) :
    verdict task handler = .completed ∨ verdict task handler = .failed := by
  unfold verdict
  split
  · exact .inl rfl
  · split
    · exact .inr rfl
    · exact .inr rfl
    · split
      · exact .inl rfl
      · exact .inr rfl

/-- The executor changes neither what a task is nor what it depends on. -/
theorem executeTask_frame (task : ExecutionTask) (handler : Option TaskHandler) :
    (executeTask task handler).id = task.id
      ∧ (executeTask task handler).dependencies = task.dependencies := by
  unfold executeTask
  dsimp only
  split <;> exact ⟨rfl, rfl⟩

theorem executeTask_status_ne_skipped (task : ExecutionTask) (handler : Option TaskHandler) :
    (executeTask task handler).status ≠ .skipped := by
  rw [executeTask_status]
  rcases verdict_eq task.start handler with h | h <;> rw [h] <;> decide

end PersonalDevin.Execution
