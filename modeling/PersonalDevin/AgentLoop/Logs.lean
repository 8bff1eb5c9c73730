import PersonalDevin.AgentLoop.Retry

/-!
# The log and the history of states over several runs

`AgentLoop.run` starts its history of states anew, and the entries of its logger it leaves as they are.
The operations of the four steps and the injected adaptations may do anything to the world.
-/

namespace PersonalDevin.Loop.Retry

open Lib

/-! ### Entries for states -/

/-- Step, status, attempt and iteration id of a state, as an entry has them. -/
def LoopState.key (state : LoopState) : List (Option Value) :=
  [some (.str state.step.text), some (.str state.status.text), some (.int state.attempt),
    some (.str state.iterationId)]

def entryKey (entry : Fields) : List (Option Value) :=
  [entry.get? "step", entry.get? "status", entry.get? "attempt", entry.get? "iteration_id"]

def reported (states : List LoopState) : List LoopState := states.filter (·.status ≠ .started)

theorem reported_append (states more : List LoopState) :
    reported (states ++ more) = reported states ++ reported more := List.filter_append _ _

/-- The entries are about the states, one to one and in order. -/
def Corresponds (states : List LoopState) (entries : List Fields) : Prop :=
  entries.map entryKey = (reported states).map LoopState.key

theorem Corresponds.append {states more : List LoopState} {entries later : List Fields}
    (h : Corresponds states entries) (h' : Corresponds more later) :
    Corresponds (states ++ more) (entries ++ later) := by
  rw [Corresponds, List.map_append, reported_append, List.map_append, h, h']

theorem Corresponds.length_eq {states : List LoopState} {entries : List Fields}
    (h : Corresponds states entries) : entries.length = (reported states).length := by
  have hlength := congrArg List.length h
  rwa [List.length_map, List.length_map] at hlength

/-! ### One step -/

section Step

variable {W α : Type} {env : StepEnv W α} {n : ℕ} {s s' s₁ s₂ : StepRun W α}

structure Logs (recorded : List LoopState) (logged : List Fields) (s s' : StepRun W α) : Prop where
  states : s'.states = s.states ++ recorded
  entries : s'.entries = s.entries ++ logged
  corresponds : Corresponds recorded logged

theorem Logs.trans {recorded recorded' : List LoopState} {logged logged' : List Fields}
    (h : Logs recorded logged s s₁) (h' : Logs recorded' logged' s₁ s₂) :
    Logs (recorded ++ recorded') (logged ++ logged') s s₂ where
  states := by rw [h'.states, h.states, List.append_assoc]
  entries := by rw [h'.entries, h.entries, List.append_assoc]
  corresponds := h.corresponds.append h'.corresponds

def LogsSome (s s' : StepRun W α) : Prop :=
  ∃ recorded logged, Logs recorded logged s s' ∧ logged ≠ []

theorem Logs.trans_some {recorded : List LoopState} {logged : List Fields}
    (h : Logs recorded logged s s₁) (h' : LogsSome s₁ s₂) : LogsSome s s₂ := by
  obtain ⟨_, _, hlogs, hne⟩ := h'
  exact ⟨_, _, h.trans hlogs, List.append_ne_nil_of_right_ne_nil _ hne⟩

theorem LogsSome.trans (h : LogsSome s s₁) (h' : LogsSome s₁ s₂) : LogsSome s s₂ := by
  obtain ⟨_, _, hlogs, -⟩ := h
  exact hlogs.trans_some h'

/-- An entry is logged with every state that is reported, also where the sink raises on it. -/
theorem logs_of_report {status : LoopStatus} {errorType : Option FailureType}
    {r : EStateM.Result Raised (StepRun W α) PUnit} (h : report env status n errorType s = r)
    (hstatus : status ≠ .started) : LogsSome s (finalState r) := by
  let entry := logEntry env (env.now (env.now s.world).2).1 status n errorType
  let state : LoopState := ⟨env.iterationId, env.step, status, n, (env.now s.world).1⟩
  let logged : StepRun W α := { s with
    world := (env.now (env.now s.world).2).2
    states := s.states ++ [state]
    entries := s.entries ++ [entry] }
  have hreport : report env status n errorType s = inWorld (send env entry) logged := rfl
  have hcorresponds : Corresponds [state] [entry] := by
    have hreported : reported [state] = [state] := by
      simp [reported, state, hstatus]
    rw [Corresponds, hreported]
    rfl
  rw [← h, hreport, inWorld]
  split
  · exact ⟨[state], [entry], ⟨rfl, rfl, hcorresponds⟩, List.cons_ne_nil _ _⟩
  · exact ⟨[state], [entry], ⟨rfl, rfl, hcorresponds⟩, List.cons_ne_nil _ _⟩

/-- An invocation logs nothing, and the start of its attempt is not reported. -/
theorem logs_of_invoke {r : EStateM.Result Raised (StepRun W α) α}
    (h : invoke env (s.started env n) = r) : ∃ recorded, Logs recorded [] s (finalState r) := by
  rw [← h, invoke]
  split
  · exact ⟨_, rfl, (List.append_nil _).symm, rfl⟩
  · exact ⟨_, rfl, (List.append_nil _).symm, rfl⟩

/-- **What the handler of an attempt logs**, where the next attempt logs something. -/
theorem logsSome_of_handles {e : Raised} {r : EStateM.Result Raised (StepRun W α) α}
    (h : Handles env n e s r)
    (ih : env.policy.shouldRetry (classifyFailure e) n = true →
      ∀ s', LogsSome s' (finalState (runFrom env (n + 1) s'))) : LogsSome s (finalState r) := by
  cases h with
  | unlogged hfailed => exact logs_of_report hfailed (by decide)
  | final hfailed _ => exact logs_of_report hfailed (by decide)
  | cut hfailed _ hreport =>
      exact (logs_of_report hfailed (by decide)).trans (logs_of_report hreport (by decide))
  | again hfailed hretry hreport =>
      have hfirst := (logs_of_report hfailed (by decide)).trans (logs_of_report hreport (by decide))
      exact hfirst.trans (ih hretry _)

/-- An attempt that fails has logged only what corresponds to its states. -/
theorem logs_of_fails {e : Raised} (h : Fails env n s e s') :
    ∃ recorded logged, Logs recorded logged s s' := by
  cases h with
  | operation hinvoke =>
      obtain ⟨recorded, hlogs⟩ := logs_of_invoke hinvoke
      exact ⟨recorded, [], hlogs⟩
  | sink hinvoke hreport =>
      obtain ⟨recorded, hlogs⟩ := logs_of_invoke hinvoke
      obtain ⟨_, _, hboth, -⟩ := hlogs.trans_some (logs_of_report hreport (by decide))
      exact ⟨_, _, hboth⟩

/-- **A step logs something, and it corresponds to the states that the step records**, by induction on
the attempts that are left. -/
theorem logsSome_runFrom (env : StepEnv W α) (n : ℕ) (s : StepRun W α) :
    LogsSome s (finalState (runFrom env n s)) := by
  induction hleft : (env.policy.maxAttempts - n).toNat using Nat.strong_induction_on
    generalizing n s with
  | _ left ih =>
      have hnext : ∀ e, env.policy.shouldRetry (classifyFailure e) n = true →
          ∀ s', LogsSome s' (finalState (runFrom env (n + 1) s')) := by
        intro e hretry s'
        have hless := (RetryPolicy.shouldRetry_iff.1 hretry).1
        exact ih _ (by push_cast; omega) (n + 1) s' rfl
      generalize hr : runFrom env n s = r
      have hends := hr ▸ runFrom_cases env n s
      cases hends with
      | returned hinvoke hreport =>
          obtain ⟨_, hlogs⟩ := logs_of_invoke hinvoke
          exact hlogs.trans_some (logs_of_report hreport (by decide))
      | handled hfails hhandles =>
          obtain ⟨_, _, hlogs⟩ := logs_of_fails hfails
          exact hlogs.trans_some (logsSome_of_handles hhandles (hnext _))

end Step

/-! ### One run -/

/-- The parts of an agent loop. The operations of the four steps are given what the earlier ones
return, and the iteration id that the loop holds. -/
structure AgentLoop (W A M P R V O : Type) where
  deterministicIterationId : String → String
  retryPolicy : RetryPolicy
  now : W → String × W
  sink : Option (Fields → EStateM Raised W PUnit)
  applyInjectedAdaptations : String → A → EStateM Raised W M
  plan : String → String → EStateM Raised W P
  execute : P → EStateM Raised W R
  validate : String → R → M → EStateM Raised W V
  reflectStep : String → String → P → V → M → EStateM Raised W O

structure RunCall (A : Type) where
  goal : String
  injectedAdaptation : A

structure LoopMemory (W : Type) where
  world : W
  stateHistory : List LoopState
  loopLogs : List Fields

section Run

variable {W A M P R V O : Type} (loop : AgentLoop W A M P R V O)

def runStep {α : Type} (iterationId : String) (step : LoopStep) (operation : EStateM Raised W α) :
    EStateM Raised (LoopMemory W) α := fun s =>
  let env : StepEnv W α :=
    { iterationId, step, operation, policy := loop.retryPolicy, now := loop.now, sink := loop.sink }
  match runStepWithRetry env ⟨s.world, s.stateHistory, s.loopLogs, []⟩ with
  | .ok a s' => .ok a ⟨s'.world, s'.states, s'.entries⟩
  | .error e s' => .error e ⟨s'.world, s'.states, s'.entries⟩

/-- A computation that neither records a state nor logs an entry. -/
def unlogged {α : Type} (x : EStateM Raised W α) : EStateM Raised (LoopMemory W) α := fun s =>
  match x s.world with
  | .ok a w => .ok a { s with world := w }
  | .error e w => .error e { s with world := w }

def runSteps (iterationId goal : String) (modifiers : M) : EStateM Raised (LoopMemory W) O := do
  let plan ← runStep loop iterationId .plan (loop.plan iterationId goal)
  let report ← runStep loop iterationId .execute (loop.execute plan)
  let validated ← runStep loop iterationId .validate (loop.validate iterationId report modifiers)
  runStep loop iterationId .reflect (loop.reflectStep iterationId goal plan validated modifiers)

def run (call : RunCall A) : EStateM Raised (LoopMemory W) O :=
  let goal := strip call.goal
  if goal = "" then throw .valueError
  else do
    modify fun s => { s with stateHistory := [] }
    let iterationId := loop.deterministicIterationId goal
    let modifiers ← unlogged (loop.applyInjectedAdaptations iterationId call.injectedAdaptation)
    runSteps loop iterationId goal modifiers

/-- The call comes as far as the PLAN step: its goal is not blank, and the injected adaptations are
applied. -/
def Plans (call : RunCall A) (w : W) : Prop :=
  strip call.goal ≠ "" ∧ ∃ modifiers w', loop.applyInjectedAdaptations
    (loop.deterministicIterationId (strip call.goal)) call.injectedAdaptation w = .ok modifiers w'

variable {loop} {s s₁ s₂ : LoopMemory W}

/-- Something has been logged, and it is about what has been recorded. -/
def Extends (s s' : LoopMemory W) : Prop :=
  ∃ recorded logged, s'.stateHistory = s.stateHistory ++ recorded
    ∧ s'.loopLogs = s.loopLogs ++ logged ∧ Corresponds recorded logged ∧ logged ≠ []

theorem Extends.trans (h : Extends s s₁) (h' : Extends s₁ s₂) : Extends s s₂ := by
  obtain ⟨recorded, logged, hstates, hlogs, hcorresponds, hne⟩ := h
  obtain ⟨recorded', logged', hstates', hlogs', hcorresponds', -⟩ := h'
  refine ⟨recorded ++ recorded', logged ++ logged', ?_, ?_, hcorresponds.append hcorresponds',
    List.append_ne_nil_of_left_ne_nil hne _⟩
  · rw [hstates', hstates, List.append_assoc]
  · rw [hlogs', hlogs, List.append_assoc]

/-- A computation that ends with something logged, whether it returns or raises. -/
def Reports {α : Type} (x : EStateM Raised (LoopMemory W) α) : Prop :=
  ∀ s, Ends (fun _ s' => Extends s s') (fun _ s' => Extends s s') x s

theorem extends_of_logsSome {α : Type} {s' : StepRun W α}
    (h : LogsSome ⟨s.world, s.stateHistory, s.loopLogs, []⟩ s') :
    Extends s ⟨s'.world, s'.states, s'.entries⟩ := by
  obtain ⟨recorded, logged, hlogs, hne⟩ := h
  exact ⟨recorded, logged, hlogs.states, hlogs.entries, hlogs.corresponds, hne⟩

theorem reports_runStep {α : Type} (iterationId : String) (step : LoopStep)
    (operation : EStateM Raised W α) : Reports (runStep loop iterationId step operation) := by
  intro s
  let env : StepEnv W α :=
    { iterationId, step, operation, policy := loop.retryPolicy, now := loop.now, sink := loop.sink }
  have hsome := logsSome_runFrom env 1 ⟨s.world, s.stateHistory, s.loopLogs, []⟩
  rcases hrun : runFrom env 1 ⟨s.world, s.stateHistory, s.loopLogs, []⟩ with ⟨a, s'⟩ | ⟨e, s'⟩
  · have hstep : runStep loop iterationId step operation s
        = .ok a ⟨s'.world, s'.states, s'.entries⟩ := by
      rw [runStep, runStepWithRetry, hrun]
    rw [hrun] at hsome
    exact (ends_of_ok hstep).2 (extends_of_logsSome hsome)
  · have hstep : runStep loop iterationId step operation s
        = .error e ⟨s'.world, s'.states, s'.entries⟩ := by
      rw [runStep, runStepWithRetry, hrun]
    rw [hrun] at hsome
    exact (ends_of_error hstep).2 (extends_of_logsSome hsome)

theorem Reports.bind {α β : Type} {x : EStateM Raised (LoopMemory W) α}
    {f : α → EStateM Raised (LoopMemory W) β} (hx : Reports x) (hf : ∀ a, Reports (f a)) :
    Reports (x >>= f) := by
  intro s
  refine ends_bind.2 ((hx s).mono (fun a s₁ hfirst => ?_) fun _ _ h => h)
  exact (hf a s₁).mono (fun _ _ => hfirst.trans) fun _ _ => hfirst.trans

theorem reports_runSteps (iterationId goal : String) (modifiers : M) :
    Reports (runSteps loop iterationId goal modifiers) := by
  refine (reports_runStep _ _ _).bind fun plan => ?_
  refine (reports_runStep _ _ _).bind fun report => ?_
  refine (reports_runStep _ _ _).bind fun validated => ?_
  exact reports_runStep _ _ _

/-- **What a call does to the history of states and to the log.** -/
inductive Called (loop : AgentLoop W A M P R V O) (call : RunCall A) (s : LoopMemory W) :
    LoopMemory W → Prop
  | refused (hblank : strip call.goal = "") : Called loop call s s
  | rejected {w : W} (hgoal : strip call.goal ≠ "") (hplans : ¬ Plans loop call s.world) :
      Called loop call s ⟨w, [], s.loopLogs⟩
  | planned {w : W} {recorded : List LoopState} {logged : List Fields}
      (hplans : Plans loop call s.world) (hcorresponds : Corresponds recorded logged)
      (hne : logged ≠ []) : Called loop call s ⟨w, recorded, s.loopLogs ++ logged⟩

theorem called_of_extends {call : RunCall A} {w : W} {s' : LoopMemory W}
    (hplans : Plans loop call s.world) (h : Extends ⟨w, [], s.loopLogs⟩ s') :
    Called loop call s s' := by
  obtain ⟨w', states, entries⟩ := s'
  obtain ⟨recorded, logged, rfl, rfl, hcorresponds, hne⟩ := h
  exact .planned hplans hcorresponds hne

theorem called_run (loop : AgentLoop W A M P R V O) (call : RunCall A) (s : LoopMemory W) :
    Called loop call s (finalState (run loop call s)) := by
  rw [run]
  by_cases hblank : strip call.goal = ""
  · rw [if_pos hblank]
    exact .refused hblank
  · rw [if_neg hblank]
    let iterationId := loop.deterministicIterationId (strip call.goal)
    let restarted : LoopMemory W := { s with stateHistory := [] }
    show Called loop call s (finalState ((unlogged
      (loop.applyInjectedAdaptations iterationId call.injectedAdaptation) >>= fun modifiers =>
        runSteps loop iterationId (strip call.goal) modifiers) restarted))
    rcases happlied : loop.applyInjectedAdaptations iterationId call.injectedAdaptation s.world
      with ⟨modifiers, w⟩ | ⟨e, w⟩
    · have hunlogged : unlogged (loop.applyInjectedAdaptations iterationId call.injectedAdaptation)
          restarted = .ok modifiers { restarted with world := w } := by
        rw [unlogged, happlied]
      rw [bind_of_ok hunlogged]
      have hreports : Reports (runSteps loop iterationId (strip call.goal) modifiers) :=
        reports_runSteps iterationId (strip call.goal) modifiers
      have hends := hreports { restarted with world := w }
      have hplans : Plans loop call s.world := ⟨hblank, modifiers, w, happlied⟩
      rcases hsteps : runSteps loop iterationId (strip call.goal) modifiers
        { restarted with world := w } with ⟨a, s'⟩ | ⟨e, s'⟩
      · exact called_of_extends hplans ((ends_of_ok hsteps).1 hends)
      · exact called_of_extends hplans ((ends_of_error hsteps).1 hends)
    · have hunlogged : unlogged (loop.applyInjectedAdaptations iterationId call.injectedAdaptation)
          restarted = .error e { restarted with world := w } := by
        rw [unlogged, happlied]
      rw [bind_of_error hunlogged]
      refine .rejected hblank ?_
      rintro ⟨-, _, _, hok⟩
      cases happlied.symm.trans hok

end Run

/-! ### Several runs -/

section Runs

variable {W A M P R V O : Type} (loop : AgentLoop W A M P R V O)

/-- A property of what a call finds and leaves, after each of the calls. -/
def AfterEach (holds : LoopMemory W → LoopMemory W → Prop) : List (RunCall A) → LoopMemory W → Prop
  | [], _ => True
  | call :: rest, s =>
      holds s (finalState (run loop call s))
        ∧ AfterEach holds rest (finalState (run loop call s))

def LogCorresponds (s : LoopMemory W) : Prop := Corresponds s.stateHistory s.loopLogs

def LogsOwn (s s' : LoopMemory W) : Prop := s'.loopLogs = s'.loopLogs.drop s.loopLogs.length

/-- After a call that comes as far as the PLAN step, there are only calls with a blank goal. -/
def PlansOnce : List (RunCall A) → LoopMemory W → Prop
  | [], _ => True
  | call :: rest, s =>
      (Plans loop call s.world → ∀ later ∈ rest, strip later.goal = "")
        ∧ PlansOnce rest (finalState (run loop call s))

/-- A call that comes as far as the PLAN step is the last one. -/
def PlansLast : List (RunCall A) → LoopMemory W → Prop
  | [], _ => True
  | call :: rest, s =>
      (Plans loop call s.world → rest = []) ∧ PlansLast rest (finalState (run loop call s))

variable {loop} {s : LoopMemory W} {calls : List (RunCall A)}

theorem finalState_of_blank {call : RunCall A} (h : strip call.goal = "") :
    finalState (run loop call s) = s := by
  rw [run, if_pos h]
  rfl

theorem plansOnce_of_blank (h : ∀ call ∈ calls, strip call.goal = "") : PlansOnce loop calls s := by
  induction calls generalizing s with
  | nil => trivial
  | cons call rest ih =>
      obtain ⟨hcall, hrest⟩ := List.forall_mem_cons.1 h
      exact ⟨fun hplans => absurd hcall hplans.1, ih hrest⟩

/-- What a call that is not refused leaves of a log with entries does not correspond to its states. -/
theorem not_corresponds_of_logged {call : RunCall A} {s' : LoopMemory W}
    (hcalled : Called loop call s s') (hlogged : s.loopLogs ≠ []) (hgoal : strip call.goal ≠ "") :
    ¬ LogCorresponds s' := by
  have hpos : 0 < s.loopLogs.length := List.length_pos_iff.2 hlogged
  intro hcorresponds
  cases hcalled with
  | refused hblank => exact hgoal hblank
  | rejected =>
      have hlength : s.loopLogs.length = 0 := hcorresponds.length_eq
      omega
  | @planned _ recorded logged _ hnew _ =>
      have hlength : (s.loopLogs ++ logged).length = (reported recorded).length :=
        hcorresponds.length_eq
      rw [← hnew.length_eq, List.length_append] at hlength
      omega

/-- On a log with entries only calls with a blank goal keep the correspondence. -/
theorem afterEach_corresponds_of_logged (hlogged : s.loopLogs ≠ []) (h : LogCorresponds s) :
    AfterEach loop (fun _ s' => LogCorresponds s') calls s
      ↔ ∀ call ∈ calls, strip call.goal = "" := by
  induction calls with
  | nil => exact iff_of_true trivial fun _ hmem => absurd hmem List.not_mem_nil
  | cons call rest ih =>
      rw [List.forall_mem_cons, AfterEach]
      by_cases hblank : strip call.goal = ""
      · rw [finalState_of_blank hblank, ih]
        exact ⟨fun ⟨_, hrest⟩ => ⟨hblank, hrest⟩, fun ⟨_, hrest⟩ => ⟨h, hrest⟩⟩
      · refine iff_of_false (fun hall => ?_) fun hall => hblank hall.1
        exact not_corresponds_of_logged (called_run loop call s) hlogged hblank hall.1

/-- **When the log corresponds to the history of states after each call.** -/
theorem afterEach_corresponds_iff (hempty : s.loopLogs = []) (h : LogCorresponds s) :
    AfterEach loop (fun _ s' => LogCorresponds s') calls s ↔ PlansOnce loop calls s := by
  induction calls generalizing s with
  | nil => exact iff_of_true trivial trivial
  | cons call rest ih =>
      rw [AfterEach, PlansOnce]
      have hcalled := called_run loop call s
      generalize finalState (run loop call s) = s' at hcalled
      cases hcalled with
      | refused hblank =>
          rw [ih hempty h]
          exact and_congr_left fun _ => iff_of_true h fun hplans => absurd hblank hplans.1
      | @rejected w hgoal hplans =>
          have hcorresponds : LogCorresponds (⟨w, [], s.loopLogs⟩ : LoopMemory W) := by
            rw [LogCorresponds, hempty]
            rfl
          rw [ih (s := ⟨w, [], s.loopLogs⟩) hempty hcorresponds]
          exact and_congr_left fun _ => iff_of_true hcorresponds fun h => absurd h hplans
      | @planned w recorded logged hplans hnew hne =>
          have hcorresponds : LogCorresponds (⟨w, recorded, s.loopLogs ++ logged⟩ : LoopMemory W) := by
            rw [LogCorresponds, hempty]
            exact hnew
          rw [afterEach_corresponds_of_logged (List.append_ne_nil_of_right_ne_nil _ hne) hcorresponds]
          constructor
          · exact fun ⟨_, hblank⟩ => ⟨fun _ => hblank, plansOnce_of_blank hblank⟩
          · exact fun ⟨hblank, _⟩ => ⟨hcorresponds, hblank hplans⟩

/-- What a call adds is in its log only, if the log was empty. -/
theorem logsOwn_iff {call : RunCall A} {s' : LoopMemory W} (hcalled : Called loop call s s') :
    LogsOwn s s' ↔ s.loopLogs = [] := by
  have hiff : ∀ logged : List Fields,
      s.loopLogs ++ logged = (s.loopLogs ++ logged).drop s.loopLogs.length ↔ s.loopLogs = [] := by
    intro logged
    rw [List.drop_left]
    exact List.append_left_eq_self
  cases hcalled with
  | refused =>
      have hnone := hiff []
      rwa [List.append_nil] at hnone
  | rejected =>
      have hnone := hiff []
      rwa [List.append_nil] at hnone
  | @planned _ _ logged _ _ _ => exact hiff logged

/-- On a log with entries no call finds its own entries only. -/
theorem afterEach_logsOwn_of_logged (hlogged : s.loopLogs ≠ []) :
    AfterEach loop LogsOwn calls s ↔ calls = [] := by
  cases calls with
  | nil => exact iff_of_true trivial rfl
  | cons call rest =>
      refine iff_of_false (fun h => ?_) (List.cons_ne_nil _ _)
      exact hlogged ((logsOwn_iff (called_run loop call s)).1 h.1)

/-- **When the log is about the call only, after each call.** -/
theorem afterEach_logsOwn_iff (hempty : s.loopLogs = []) :
    AfterEach loop LogsOwn calls s ↔ PlansLast loop calls s := by
  induction calls generalizing s with
  | nil => exact iff_of_true trivial trivial
  | cons call rest ih =>
      rw [AfterEach, PlansLast]
      have hcalled := called_run loop call s
      generalize finalState (run loop call s) = s' at hcalled
      have hown : LogsOwn s s' := (logsOwn_iff hcalled).2 hempty
      cases hcalled with
      | refused hblank =>
          rw [ih hempty]
          exact and_congr_left fun _ => iff_of_true hown fun hplans => absurd hblank hplans.1
      | @rejected w hgoal hplans =>
          rw [ih (s := ⟨w, [], s.loopLogs⟩) hempty]
          exact and_congr_left fun _ => iff_of_true hown fun h => absurd h hplans
      | @planned w recorded logged hplans hnew hne =>
          rw [afterEach_logsOwn_of_logged (List.append_ne_nil_of_right_ne_nil _ hne)]
          constructor
          · rintro ⟨-, rfl⟩
            exact ⟨fun _ => rfl, trivial⟩
          · exact fun ⟨hlast, _⟩ => ⟨hown, hlast hplans⟩

theorem plansOnce_of_plansLast (h : PlansLast loop calls s) : PlansOnce loop calls s := by
  induction calls generalizing s with
  | nil => trivial
  | cons call rest ih =>
      refine ⟨fun hplans later hmem => ?_, ih h.2⟩
      rw [h.1 hplans] at hmem
      exact absurd hmem List.not_mem_nil

theorem afterEach_and_iff {holds holds' : LoopMemory W → LoopMemory W → Prop} :
    AfterEach loop (fun s s' => holds s s' ∧ holds' s s') calls s
      ↔ AfterEach loop holds calls s ∧ AfterEach loop holds' calls s := by
  induction calls generalizing s with
  | nil => exact iff_of_true trivial ⟨trivial, trivial⟩
  | cons call rest ih =>
      rw [AfterEach, AfterEach, AfterEach, ih]
      exact and_and_and_comm

/-- An agent loop on which nothing has been called. -/
def fresh (w : W) : LoopMemory W := ⟨w, [], []⟩

theorem fresh_corresponds (w : W) : LogCorresponds (fresh w) := rfl

/-- **When the log of an agent loop describes its calls**: it corresponds to the history of states if
only calls with a blank goal follow one that comes as far as the PLAN step, and it has the entries of
the call alone besides if no call does. -/
theorem runs_logs_iff (loop : AgentLoop W A M P R V O) (calls : List (RunCall A)) (w : W) :
    (AfterEach loop (fun _ s' => LogCorresponds s') calls (fresh w) ↔ PlansOnce loop calls (fresh w))
      ∧ (AfterEach loop (fun s s' => LogsOwn s s' ∧ LogCorresponds s') calls (fresh w)
        ↔ PlansLast loop calls (fresh w)) := by
  have hcorresponds : AfterEach loop (fun _ s' => LogCorresponds s') calls (fresh w)
      ↔ PlansOnce loop calls (fresh w) :=
    afterEach_corresponds_iff rfl (fresh_corresponds w)
  refine ⟨hcorresponds, ?_⟩
  rw [afterEach_and_iff, afterEach_logsOwn_iff rfl, hcorresponds]
  exact and_iff_left_of_imp plansOnce_of_plansLast

/-- A loop in which every operation returns. -/
def quietLoop : AgentLoop Unit Unit Unit Unit Unit Unit Unit where
  deterministicIterationId goal := "iter-" ++ goal
  retryPolicy := { maxAttempts := 3 }
  now w := ("2024-01-01T00:00:00Z", w)
  sink := none
  applyInjectedAdaptations _ _ := pure ()
  plan _ _ := pure ()
  execute _ := pure ()
  validate _ _ _ := pure ()
  reflectStep _ _ _ _ _ := pure ()

/-- After the second of two calls the log has the entries of both. -/
theorem secondCall_not_logged : ¬ AfterEach quietLoop (fun _ s' => LogCorresponds s')
    [⟨"build", ()⟩, ⟨"build", ()⟩] (fresh ()) := by
  rw [afterEach_corresponds_iff rfl (fresh_corresponds ())]
  intro h
  have hplans : Plans quietLoop ⟨"build", ()⟩ () := ⟨by decide, (), (), rfl⟩
  exact absurd (h.1 hplans _ List.mem_cons_self) (by decide)

end Runs

end PersonalDevin.Loop.Retry
