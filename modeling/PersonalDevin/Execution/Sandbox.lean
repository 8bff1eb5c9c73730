import PersonalDevin.Execution.Runner

/-!
# The sandbox and the process it runs in

`ExecutionSandbox.execute` as it acts on the interpreter: it exchanges the builtins for a safe subset
while a handler runs, and puts builtins and environment back afterwards. A handler here is stateful:
it may change builtins, environment and everything else. `Model` has the handlers as functions of the
task; the runs of the two agree. The lock, the context handed back unread and the handler's writes to
the task object are left out, and so is the `__import__` of the safe subset when a handler calls it.
-/

namespace PersonalDevin.Execution

open Lib
open Planning (ExecutionPlan)

variable {β ω : Type}

/-- What a name of the builtins module is bound to. -/
inductive Builtin (β : Type) where
  | object (value : β)
  | safeImport (originalImport : Builtin β)

/-- The process of a run, with what the sandbox puts back and the rest. -/
structure Process (β ω : Type) where
  builtins : Dict String (Builtin β)
  environ : Dict String String
  rest : ω

/-- An exception; `KeyboardInterrupt` and its like are no `Exception`. -/
structure Thrown where
  text : Printed
  isException : Bool

inductive Ending (α : Type) where
  | returned (value : α)
  | raised (error : Thrown)

abbrev StatefulHandler (β ω : Type) := Process β ω → ExecutionTask → Ending Returned × Process β ω

/-- What the sandbox module has from the interpreter it was loaded in: the objects of its table, and
which exceptions a handled class stands for. -/
structure Runtime (β : Type) where
  loaded : String → Builtin β
  catches : Builtin β → Thrown → Bool

def safeNames : List String :=
  ["len", "range", "min", "max", "sum", "abs", "sorted", "str", "Exception", "RuntimeError",
    "AssertionError", "ImportError", "NameError"]

def Runtime.safeBuiltins (runtime : Runtime β) : Dict String (Builtin β) :=
  Dict.setAll id runtime.loaded .empty safeNames

def Runtime.buildSafeBuiltins (runtime : Runtime β) (originalImport : Builtin β) :
    Dict String (Builtin β) :=
  runtime.safeBuiltins.set "__import__" (.safeImport originalImport)

/-- An `Exception` with a text. -/
def Thrown.exception (text : String) : Thrown := ⟨.ok text, true⟩

def keyError (name : String) : Thrown := .exception ("'" ++ name ++ "'")

def nameError (name : String) : Thrown := .exception ("name '" ++ name ++ "' is not defined")

/-- The `finally` of `execute`: both dictionaries are emptied and filled from their copies. -/
def Process.restore (after before : Process β ω) : Process β ω :=
  { after with
    builtins := Dict.update .empty before.builtins
    environ := Dict.update .empty before.environ }

/-- `except Exception` looks its class up among the builtins the handler has left. -/
def Runtime.except (runtime : Runtime β) (builtins : Dict String (Builtin β)) (error : Thrown) :
    Ending SandboxResult :=
  match builtins.get? "Exception" with
  | none => .raised (nameError "Exception")
  | some handled =>
      if runtime.catches handled error then
        match error.text with
        | .ok text =>
            .returned { success := false, result := .other (.ok "None"), error := some text }
        | .error text => .raised (.exception text)
      else .raised error

def Runtime.execute (runtime : Runtime β) (handler : StatefulHandler β ω) (task : ExecutionTask)
    (process : Process β ω) : Ending SandboxResult × Process β ω :=
  match process.builtins.get? "str", process.builtins.get? "__import__" with
  | none, _ => (.raised (keyError "str"), process)
  | some _, none => (.raised (keyError "__import__"), process)
  | some _, some originalImport =>
      let safe := runtime.buildSafeBuiltins originalImport
      match handler { process with builtins := Dict.update .empty safe } task with
      | (.returned result, after) =>
          (.returned { success := true, result, error := none }, after.restore process)
      | (.raised error, after) => (runtime.except after.builtins error, after.restore process)

/-- `_execute_handler` in the process. -/
def Runtime.executeHandler (runtime : Runtime β) (task : ExecutionTask)
    (handler : Option (StatefulHandler β ω)) (process : Process β ω) :
    Except Thrown HandlerResult × Process β ω :=
  match handler with
  | none => (.ok (.pair true (some "")), process)
  | some handler =>
      match runtime.execute handler task process with
      | (.returned sandboxResult, process) =>
          if sandboxResult.success then
            ((normalizeResult sandboxResult.result).mapError .exception, process)
          else (.error (.exception (textOr sandboxResult.error "sandboxed task failed")), process)
      | (.raised error, process) => (.error error, process)

/-- `Executor.execute_task` in the process: what is no `Exception` goes through it, and so does what
asking an exception for its text raises. -/
def Runtime.executeTask (runtime : Runtime β) (task : ExecutionTask)
    (handler : Option (StatefulHandler β ω)) (process : Process β ω) :
    Except Thrown ExecutionTask × Process β ω :=
  let task := task.start
  match runtime.executeHandler task handler process with
  | (.ok (.pair true message), process) =>
      (.ok { task with output := some (textOr message ""), status := .completed }, process)
  | (.ok (.pair false message), process) =>
      (.ok { task with error := some (textOr message "task failed"), status := .failed }, process)
  | (.ok (.text output), process) =>
      (.ok { task with output := some output, status := .completed }, process)
  | (.error error, process) =>
      if error.isException then
        match error.text with
        | .ok text => (.ok { task with error := some text, status := .failed }, process)
        | .error text => (.error (.exception text), process)
      else (.error error, process)

/-- The body of the runner's loop in the process. -/
def Runtime.runStep (runtime : Runtime β) (stopOnFailure : Bool)
    (handlers : Dict String (StatefulHandler β ω)) (state : RunState) (task : ExecutionTask)
    (waiting : List ExecutionTask) (process : Process β ω) :
    Except Thrown RunState × Process β ω :=
  let blockingDep := findBlockingDependency (state.finished ++ task :: waiting) task
  if state.halted then
    let reason := match blockingDep with
      | some dep => dependencyFailed dep
      | none => runHalted
    (.ok { state with finished := state.finished ++ [task.skip reason] }, process)
  else
    match blockingDep with
    | some dep =>
        (.ok { state with
          finished := state.finished ++ [task.skip (dependencyFailed dep)]
          halted := stopOnFailure }, process)
    | none =>
        let handler := handlers.get? task.id
        match runtime.executeTask task handler process with
        | (.error error, process) => (.error error, process)
        | (.ok executed, process) =>
            (.ok {
              finished := state.finished ++ [executed]
              halted := executed.status ≠ .completed && stopOnFailure
              invoked := if handler.isSome then state.invoked ++ [task.id] else state.invoked },
              process)

def Runtime.runTasks (runtime : Runtime β) (stopOnFailure : Bool)
    (handlers : Dict String (StatefulHandler β ω)) (state : RunState) (process : Process β ω) :
    List ExecutionTask → Except Thrown RunState × Process β ω
  | [] => (.ok state, process)
  | task :: waiting =>
      match runtime.runStep stopOnFailure handlers state task waiting process with
      | (.error error, process) => (.error error, process)
      | (.ok state, process) => runtime.runTasks stopOnFailure handlers state process waiting

/-- `Runner.run` in the process. -/
def Runtime.run (runtime : Runtime β) (stopOnFailure : Bool)
    (handlers : Dict String (StatefulHandler β ω)) (plan : ExecutionPlan) (process : Process β ω) :
    Except Thrown Run × Process β ω :=
  match runtime.runTasks stopOnFailure handlers ⟨[], false, []⟩ process
    (plan.orderedTasks.map taskNodeToExecutionTask) with
  | (.error error, process) => (.error error, process)
  | (.ok state, process) =>
      (.ok { report := buildReport state.finished, invoked := state.invoked }, process)

/-! ### What a run leaves behind -/

/-- The sandbox's part of two processes is the same. -/
def Process.SameInterpreter (process process' : Process β ω) : Prop :=
  process.builtins = process'.builtins ∧ process.environ = process'.environ

theorem Process.SameInterpreter.refl (process : Process β ω) : process.SameInterpreter process :=
  ⟨rfl, rfl⟩

theorem Process.SameInterpreter.trans {process process' process'' : Process β ω}
    (h : process.SameInterpreter process') (h' : process'.SameInterpreter process'') :
    process.SameInterpreter process'' :=
  ⟨h.1.trans h'.1, h.2.trans h'.2⟩

theorem Process.restore_same (after before : Process β ω) :
    (after.restore before).SameInterpreter before :=
  ⟨Dict.update_empty before.builtins, Dict.update_empty before.environ⟩

theorem Runtime.execute_same (runtime : Runtime β) (handler : StatefulHandler β ω)
    (task : ExecutionTask) (process : Process β ω) :
    (runtime.execute handler task process).2.SameInterpreter process := by
  unfold Runtime.execute
  split
  · exact .refl process
  · exact .refl process
  · dsimp only
    split
    · exact Process.restore_same _ process
    · exact Process.restore_same _ process

theorem Runtime.executeHandler_same (runtime : Runtime β) (task : ExecutionTask)
    (handler : Option (StatefulHandler β ω)) (process : Process β ω) :
    (runtime.executeHandler task handler process).2.SameInterpreter process := by
  unfold Runtime.executeHandler
  cases handler with
  | none => exact .refl process
  | some handler =>
      have hsame := runtime.execute_same handler task process
      dsimp only
      generalize runtime.execute handler task process = called at hsame
      obtain ⟨ending, after⟩ := called
      cases ending with
      | returned sandboxResult =>
          dsimp only
          split <;> exact hsame
      | raised error => exact hsame

theorem Runtime.executeTask_same (runtime : Runtime β) (task : ExecutionTask)
    (handler : Option (StatefulHandler β ω)) (process : Process β ω) :
    (runtime.executeTask task handler process).2.SameInterpreter process := by
  have hsame := runtime.executeHandler_same task.start handler process
  unfold Runtime.executeTask
  dsimp only
  generalize runtime.executeHandler task.start handler process = called at hsame
  obtain ⟨(error | ⟨_ | _, _⟩ | _), after⟩ := called
  · dsimp only
    split
    · split <;> exact hsame
    · exact hsame
  · exact hsame
  · exact hsame
  · exact hsame

theorem Runtime.runStep_same (runtime : Runtime β) (stopOnFailure : Bool)
    (handlers : Dict String (StatefulHandler β ω)) (state : RunState) (task : ExecutionTask)
    (waiting : List ExecutionTask) (process : Process β ω) :
    (runtime.runStep stopOnFailure handlers state task waiting process).2.SameInterpreter
      process := by
  have hsame := runtime.executeTask_same task (handlers.get? task.id) process
  unfold Runtime.runStep
  dsimp only
  split
  · exact .refl process
  · split
    · exact .refl process
    · split <;> rename_i hexecuted <;> rw [hexecuted] at hsame <;> exact hsame

theorem Runtime.runTasks_same (runtime : Runtime β) (stopOnFailure : Bool)
    (handlers : Dict String (StatefulHandler β ω)) (waiting : List ExecutionTask) (state : RunState)
    (process : Process β ω) :
    (runtime.runTasks stopOnFailure handlers state process waiting).2.SameInterpreter process := by
  induction waiting generalizing state process with
  | nil => exact .refl process
  | cons task waiting ih =>
      have hstep := runtime.runStep_same stopOnFailure handlers state task waiting process
      rw [Runtime.runTasks]
      split <;> rename_i hrun <;> rw [hrun] at hstep
      · exact hstep
      · exact (ih _ _).trans hstep

/-- However its handlers end, and also when an exception ends the run, a run leaves the builtins and
the environment as it found them. -/
theorem Runtime.run_same (runtime : Runtime β) (stopOnFailure : Bool)
    (handlers : Dict String (StatefulHandler β ω)) (plan : ExecutionPlan) (process : Process β ω) :
    (runtime.run stopOnFailure handlers plan process).2.SameInterpreter process := by
  have hsame := runtime.runTasks_same stopOnFailure handlers
    (plan.orderedTasks.map taskNodeToExecutionTask) ⟨[], false, []⟩ process
  unfold Runtime.run
  split <;> rename_i hrun <;> rw [hrun] at hsame <;> exact hsame

/-! ### The run without a process -/

/-- A handler may change what it likes, but an exception it raises is an `Exception`, and the name of
that class is still bound to what it was bound to. -/
def Orderly (handler : StatefulHandler β ω) : Prop :=
  ∀ process task error after, handler process task = (.raised error, after) →
    error.isException = true ∧ after.builtins.get? "Exception" = process.builtins.get? "Exception"

/-- The process as the sandbox shows it to a handler. -/
def Runtime.sandboxed (runtime : Runtime β) (originalImport : Builtin β) (process : Process β ω) :
    Process β ω :=
  { process with builtins := runtime.buildSafeBuiltins originalImport }

/-- How the handler ends depends on the task and on the sandbox's part of the process only. -/
def Runtime.Function (runtime : Runtime β) (originalImport : Builtin β) (process : Process β ω)
    (handler : StatefulHandler β ω) : Prop :=
  ∀ task rest, (handler { runtime.sandboxed originalImport process with rest } task).1
    = (handler (runtime.sandboxed originalImport process) task).1

/-- The ending of what raises nothing but an `Exception` with a text. -/
def Ending.ofExcept {α : Type} : Except String α → Ending α
  | .ok value => .returned value
  | .error text => .raised (.exception text)

def Ending.outcome : Ending Returned → HandlerOutcome
  | .returned result => .returned result
  | .raised error => .raised error.text

/-- The stateful handler as a function of the task: what it does in the process a run starts in. -/
def Runtime.pure (runtime : Runtime β) (originalImport : Builtin β) (process : Process β ω)
    (handler : StatefulHandler β ω) : TaskHandler :=
  fun task => (handler (runtime.sandboxed originalImport process) task).1.outcome

theorem Runtime.get?_buildSafeBuiltins (runtime : Runtime β) (originalImport : Builtin β) :
    (runtime.buildSafeBuiltins originalImport).get? "Exception"
      = some (runtime.loaded "Exception") := by
  rw [Runtime.buildSafeBuiltins, Dict.get?_set_of_ne _ (by decide)]
  have hlisted : "Exception" ∈ safeNames := by decide
  exact @Dict.get?_setAll _ _ _ _ id runtime.loaded .empty safeNames (by decide) _ hlisted

/-- The hypotheses on the interpreter and on the handlers under which a run is the one of `Runner`. -/
structure Runtime.Faithful (runtime : Runtime β) (originalImport : Builtin β)
    (process : Process β ω) (handlers : Dict String (StatefulHandler β ω)) : Prop where
  catches : ∀ error, runtime.catches (runtime.loaded "Exception") error = error.isException
  str : (process.builtins.get? "str").isSome
  importer : process.builtins.get? "__import__" = some originalImport
  orderly : ∀ id handler, handlers.get? id = some handler → Orderly handler
  function : ∀ id handler, handlers.get? id = some handler →
    runtime.Function originalImport process handler

section

variable {runtime : Runtime β} {originalImport : Builtin β} {process : Process β ω}
  {handlers : Dict String (StatefulHandler β ω)}

/-- In any process with the sandbox's part of the first one, the sandbox gives what the handler gives
as a function. -/
theorem Runtime.Faithful.execute_eq (h : runtime.Faithful originalImport process handlers)
    {id : String} {handler : StatefulHandler β ω} (hhandler : handlers.get? id = some handler)
    (task : ExecutionTask) {current : Process β ω} (hsame : current.SameInterpreter process) :
    (runtime.execute handler task current).1
      = .ofExcept (sandboxExecute (runtime.pure originalImport process handler) task) := by
  obtain ⟨value, hstr⟩ := Option.isSome_iff_exists.1 h.str
  have hfunction := h.function id handler hhandler task current.rest
  have hentered : { current with
      builtins := Dict.update .empty (runtime.buildSafeBuiltins originalImport) }
      = { runtime.sandboxed originalImport process with rest := current.rest } := by
    rw [Dict.update_empty, Runtime.sandboxed, hsame.2]
  simp only [Runtime.execute, hsame.1, hstr, h.importer, hentered, sandboxExecute, Runtime.pure]
  rcases hcall : handler { runtime.sandboxed originalImport process with rest := current.rest } task
    with ⟨result | error, after⟩
  · rw [hcall] at hfunction
    rw [← hfunction]
    rfl
  · obtain ⟨hexception, hbound⟩ := h.orderly id handler hhandler _ task error after hcall
    rw [hcall] at hfunction
    rw [← hfunction]
    have hclass : after.builtins.get? "Exception" = some (runtime.loaded "Exception") :=
      hbound.trans (runtime.get?_buildSafeBuiltins originalImport)
    simp only [Runtime.except, hclass, h.catches, hexception, if_true, Ending.outcome]
    cases error.text <;> rfl

theorem Runtime.Faithful.executeHandler_eq (h : runtime.Faithful originalImport process handlers)
    (task : ExecutionTask) (id : String) {current : Process β ω}
    (hsame : current.SameInterpreter process) :
    (runtime.executeHandler task (handlers.get? id) current).1
      = (Execution.executeHandler task
          ((handlers.mapValues (runtime.pure originalImport process)).get? id)).mapError
            Thrown.exception := by
  rw [Dict.get?_mapValues]
  rcases hhandler : handlers.get? id with _ | handler
  · rfl
  · have hexecute := h.execute_eq hhandler task hsame
    simp only [Runtime.executeHandler, Execution.executeHandler, Option.map_some]
    generalize runtime.execute handler task current = called at hexecute
    obtain ⟨ending, after⟩ := called
    obtain rfl := hexecute
    rcases sandboxExecute (runtime.pure originalImport process handler) task with text | result
    · rfl
    · show (if result.success then _ else _ : Except Thrown HandlerResult × Process β ω).1
        = Except.mapError _ (if result.success then _ else _)
      split <;> rfl

theorem Runtime.Faithful.executeTask_eq (h : runtime.Faithful originalImport process handlers)
    (task : ExecutionTask) (id : String) {current : Process β ω}
    (hsame : current.SameInterpreter process) :
    (runtime.executeTask task (handlers.get? id) current).1
      = .ok (Execution.executeTask task
          ((handlers.mapValues (runtime.pure originalImport process)).get? id)) := by
  have hhandler := h.executeHandler_eq task.start id hsame
  simp only [Runtime.executeTask, Execution.executeTask]
  generalize runtime.executeHandler task.start (handlers.get? id) current = called at hhandler
  obtain ⟨result, after⟩ := called
  obtain rfl := hhandler
  rcases Execution.executeHandler task.start _ with text | ⟨_ | _, _⟩ | output <;> rfl

theorem Runtime.Faithful.runStep_eq (h : runtime.Faithful originalImport process handlers)
    (stopOnFailure : Bool) (state : RunState) (task : ExecutionTask) (waiting : List ExecutionTask)
    {current : Process β ω} (hsame : current.SameInterpreter process) :
    (runtime.runStep stopOnFailure handlers state task waiting current).1
      = .ok (Execution.runStep stopOnFailure
          (handlers.mapValues (runtime.pure originalImport process)) state task waiting) := by
  have hexecute := h.executeTask_eq task task.id hsame
  have hsome : ((handlers.mapValues (runtime.pure originalImport process)).get? task.id).isSome
      = (handlers.get? task.id).isSome := by
    rw [Dict.get?_mapValues, Option.isSome_map]
  simp only [Runtime.runStep, Execution.runStep, hsome]
  split
  · rfl
  · rcases findBlockingDependency (state.finished ++ task :: waiting) task with _ | dep
    · generalize runtime.executeTask task (handlers.get? task.id) current = called at hexecute
      obtain ⟨result, after⟩ := called
      obtain rfl := hexecute
      rfl
    · rfl

theorem Runtime.Faithful.runTasks_eq (h : runtime.Faithful originalImport process handlers)
    (stopOnFailure : Bool) (waiting : List ExecutionTask) (state : RunState)
    {current : Process β ω} (hsame : current.SameInterpreter process) :
    (runtime.runTasks stopOnFailure handlers state current waiting).1
      = .ok (Execution.runTasks stopOnFailure
          (handlers.mapValues (runtime.pure originalImport process)) state waiting) := by
  induction waiting generalizing state current with
  | nil => rfl
  | cons task waiting ih =>
      have hstep := h.runStep_eq stopOnFailure state task waiting hsame
      have hkept := runtime.runStep_same stopOnFailure handlers state task waiting current
      rw [Runtime.runTasks]
      generalize runtime.runStep stopOnFailure handlers state task waiting current = stepped
        at hstep hkept
      obtain ⟨result, after⟩ := stepped
      obtain rfl := hstep
      exact ih _ (hkept.trans hsame)

end

/-- A run of stateful handlers is the run of the functions they are in the process the run starts in:
whatever a handler did to builtins and environment, no later handler sees. -/
theorem Runtime.run_eq_pure {runtime : Runtime β} {originalImport : Builtin β} {process : Process β ω}
    {handlers : Dict String (StatefulHandler β ω)}
    (h : runtime.Faithful originalImport process handlers) (stopOnFailure : Bool)
    (plan : ExecutionPlan) :
    (runtime.run stopOnFailure handlers plan process).1
      = .ok (Execution.run stopOnFailure
          (handlers.mapValues (runtime.pure originalImport process)) plan) := by
  have hrun := h.runTasks_eq stopOnFailure (plan.orderedTasks.map taskNodeToExecutionTask)
    ⟨[], false, []⟩ (.refl process)
  rw [Runtime.run]
  generalize runtime.runTasks stopOnFailure handlers ⟨[], false, []⟩ process
    (plan.orderedTasks.map taskNodeToExecutionTask) = ran at hrun
  obtain ⟨result, after⟩ := ran
  obtain rfl := hrun
  rfl

/-- Two tasks in a run: the first sets a variable and empties the builtins, the second tells what it
finds in the environment. -/
def leakingHandlers : Dict String (StatefulHandler Unit Unit) :=
  Dict.setAll Prod.fst Prod.snd .empty
    [("task-1", fun process task => (.returned (.str "done"),
      { process with builtins := .empty, environ := process.environ.set "LEAK" task.id })),
     ("task-2", fun process _ =>
      (.returned (.str ("sees " ++ (process.environ.getD "LEAK" "nothing"))), process))]

def plainProcess : Process Unit Unit where
  builtins := Dict.setAll id (fun _ => .object ()) .empty ["str", "__import__", "Exception"]
  environ := .empty
  rest := ()

def plainRuntime : Runtime Unit where
  loaded _ := .object ()
  catches _ error := error.isException

theorem leakingHandlers_cases {id : String} {handler : StatefulHandler Unit Unit}
    (h : leakingHandlers.get? id = some handler) (process : Process Unit Unit) (task : ExecutionTask) :
    ∃ text after, handler process task = (.returned (.str text), after) := by
  rcases Dict.exists_of_get?_setAll h with hnone | ⟨entry, hentry, -, rfl⟩
  · cases hnone
  · rcases List.mem_cons.1 hentry with rfl | hrest
    · exact ⟨_, _, rfl⟩
    · obtain rfl := List.mem_singleton.1 hrest
      exact ⟨_, _, rfl⟩

theorem leakingHandlers_faithful :
    plainRuntime.Faithful (.object ()) plainProcess leakingHandlers where
  catches _ := rfl
  str := by decide
  importer := rfl
  orderly id handler h process task error after hraised := by
    obtain ⟨text, after', hreturned⟩ := leakingHandlers_cases h process task
    rw [hreturned] at hraised
    cases hraised
  function id handler h task rest := rfl

def leakingPlan : ExecutionPlan where
  orderedTasks := [⟨"task-1", "set", [], []⟩, ⟨"task-2", "look", ["task-1"], []⟩]
  executionGroups := []
  metadata := ⟨2, false⟩

theorem Runtime.run_eq_pure_leaking :
    (plainRuntime.run true leakingHandlers leakingPlan plainProcess).1
        = .ok (Execution.run true
            (leakingHandlers.mapValues (plainRuntime.pure (.object ()) plainProcess)) leakingPlan)
      ∧ (Execution.run true (leakingHandlers.mapValues
          (plainRuntime.pure (.object ()) plainProcess)) leakingPlan).report.tasks.map (·.output)
        = [some "done", some "sees nothing"] :=
  ⟨Runtime.run_eq_pure leakingHandlers_faithful true leakingPlan, by decide⟩

end PersonalDevin.Execution
