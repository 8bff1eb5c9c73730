import PersonalDevin.Agent.Runs
import PersonalDevin.Memory.History
import PersonalDevin.Memory.Writers

/-!
# Sessions of the loop controller

Runs of one controller, one after the other, with a `FileMemoryStore` for its memory. The file holds
JSON: for a record that cannot be written `save` raises, and the run ends there, when the statistics
have been updated. Between two runs the planner, the executor and the clock may come to any state.
-/

namespace PersonalDevin.Agent

open Lib
open Memory (StoredPayload Streams Timestamp)

variable {F : Type}

/-! ### Records in the file -/

def floatValue (decimal : F → ℤ × ℤ) (x : F) : Value := .float (decimal x).1 (decimal x).2

/-- `_strategy_snapshot`. -/
def Strategies.snapshot (decimal : F → ℤ × ℤ) (strategies : Strategies F) : List Fields :=
  (strategies.entries.insertionSort fun a b => a.1 ≤ b.1).flatMap fun byPattern =>
    (byPattern.2.entries.insertionSort fun a b => a.1.text ≤ b.1.text).map fun byDecision =>
      [("pattern", .str byPattern.1), ("decision", .str byDecision.1.text),
        ("attempts", .int byDecision.2.attempts), ("successes", .int byDecision.2.successes),
        ("success_rate", floatValue decimal byDecision.2.successRate),
        ("confidence", floatValue decimal byDecision.2.confidence)]

/-- A record that is saved with these statistics, as the file holds it, or nothing where `save`
raises. -/
def storedRecord (decimal : F → ℤ × ℤ) (record : LoopRecord) (strategies : Strategies F) :
    Option StoredPayload :=
  StoredPayload.ofFields (record.toFields (strategies.snapshot decimal))

/-- What stays between the runs: `strategy_stats`, and the streams of the store. -/
structure Session (F : Type) where
  strategies : Strategies F
  streams : Streams

namespace Session

def start : Session F where
  strategies := .empty
  streams := fun _ => []

/-- The session when the statistics are updated and `save` has been called. -/
def save (decimal : F → ℤ × ℤ) (session : Session F) (record : LoopRecord)
    (strategies : Strategies F) : Session F where
  strategies := strategies
  streams := (session.streams.append .execution
    (record.toFields (strategies.snapshot decimal))).getD session.streams

def apply (decimal : F → ℤ × ℤ) (session : Session F) : Event F → Session F
  | .saved record strategies => session.save decimal record strategies
  | _ => session

def replay (decimal : F → ℤ × ℤ) (session : Session F) (trace : List (Event F)) : Session F :=
  trace.foldl (apply decimal) session

end Session

def FileMemoryStore.retrieve (T : Type) [Timestamp T] [LE T] [DecidableLE T] (streams : Streams)
    (goal : String) : Fields :=
  let recent := Memory.MemoryStore.getRecent T streams 50
  let matching := recent.filter fun item => textField item "goal" "" = goal
  let failures := matching.filter fun item => !((item.get? "success").getD (.bool false)).truthy
  [("goal", .str goal), ("recent", .list (matching.map .dict)),
    ("recent_failures", .list (failures.map .dict)), ("attempt_count", .int matching.length)]

/-! ### Runs -/

structure Controller (W F : Type) where
  config : Config
  createPlan : W → LoopState → Fields → RawPlan × W
  repairStep : Option (W → Step → LoopState → Fields → Value × W)
  execute : W → Step → Fields × W
  clock : W → String
  /-- The shortest decimal of a float. -/
  decimal : F → ℤ × ℤ

section Runs

variable [ScoreArith F] (T : Type) [Timestamp T] [LE T] [DecidableLE T] {W : Type}

/-- `_update_strategy_stats`, for a record. -/
def Strategies.learn (strategies : Strategies F) (record : LoopRecord) : Strategies F :=
  strategies.update record.strategyPattern record.decision record.success

/-- The environment of a run: the world of planner, executor and clock, and the session. -/
def Controller.env (controller : Controller W F) : Env (W × Session F) where
  createPlan world state context :=
    let (plan, outside) := controller.createPlan world.1 state context
    (plan, outside, world.2)
  repairStep := controller.repairStep.map fun repairStep world step state context =>
    let (candidate, outside) := repairStep world.1 step state context
    (candidate, outside, world.2)
  execute world step :=
    let (result, outside) := controller.execute world.1 step
    (result, outside, world.2)
  save world record :=
    (world.1, world.2.save controller.decimal record (world.2.strategies.learn record))
  retrieve world goal := (.returned (.dict (FileMemoryStore.retrieve T world.2.streams goal)), world)
  store world := some (Memory.MemoryStore.getRecent T world.2.streams 20)
  clock world := controller.clock world.1

def Event.raises (decimal : F → ℤ × ℤ) : Event F → Bool
  | .saved record strategies => (storedRecord decimal record strategies).isNone
  | _ => false

/-- One round of the loop, which ends the run where `save` raises. -/
def iterateSaving (controller : Controller W F) (head : LoopHead (W × Session F) F) :
    List (Event F) × Round (LoopHead (W × Session F) F) Finish :=
  let (events, round) := iterate (controller.env T) controller.config head
  if events.any (Event.raises controller.decimal) then (events, .stop .raised) else (events, round)

namespace Session

/-- The session at the head of the loop: the statistics from memory are merged. -/
def merged (session : Session F) (goal : String) : Session F where
  strategies := session.strategies.merge
    (buildStrategyStats (Value.safeEntries (FileMemoryStore.retrieve T session.streams goal)))
  streams := session.streams

def trace (controller : Controller W F) (goal : String) (session : Session F) (outside : W) :
    List (Event F) :=
  (runLoop (iterateSaving T controller) (controller.config.maxIterations.toNat + 1)
    (LoopHead.initial (controller.env T) session.strategies (outside, session.merged T goal) goal)).1

def run (controller : Controller W F) (goal : String) (session : Session F) (outside : W) :
    List (Event F) × Session F :=
  let trace := session.trace T controller goal outside
  (trace, (session.merged T goal).replay controller.decimal trace)

/-- Runs for one goal, each from the world that it finds. -/
def runs (controller : Controller W F) (goal : String) (session : Session F) :
    List W → List (Event F) × Session F
  | [] => ([], session)
  | outside :: rest =>
      let (trace, session) := session.run T controller goal outside
      let (later, session) := session.runs controller goal rest
      (trace ++ later, session)

/-- The statistics rebuilt from memory are the live ones. -/
def Rebuilt (goal : String) (session : Session F) : Prop :=
  ∀ pattern decision,
    Strategies.entry? (buildStrategyStats (FileMemoryStore.retrieve T session.streams goal)) pattern
        decision
      = session.strategies.entry? pattern decision

/-- The session of a new controller over the same store, at the head of its loop. -/
def restarted (goal : String) (session : Session F) : Session F :=
  { session with strategies := .empty }.merged T goal

def Resumed (goal : String) (session : Session F) : Prop :=
  ∀ pattern decision, Strategies.entry? (session.restarted T goal).strategies pattern decision
    = session.strategies.entry? pattern decision

end Session

end Runs

end PersonalDevin.Agent
