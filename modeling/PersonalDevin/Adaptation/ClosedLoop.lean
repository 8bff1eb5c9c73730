import PersonalDevin.Adaptation.Feedback
import PersonalDevin.AgentLoop.Copies

/-!
# The closed loop

The agent loop with its own evaluator, feedback engine and adaptation engine. What a run proposes depends
on the outcome of its report only, whatever modifiers it ran with, and injected into the next run it is
accepted as a whole. So over any series of runs, under any failures of the memory, the modifiers of a run
are those for the outcome of the run before.
-/

namespace PersonalDevin.Adaptation

open Lib
open Execution (ExecutionReport)
open Loop (AgentLoop AgentResult EvaluationResult Fault Feedback FeedbackSignal Raised RunInput
  RuntimeAdaptation World)
open Memory (Instant Timestamp)

variable {T : Type} [Timestamp T]

/-- The loop with the collaborators that it makes for itself. On what its feedback engine gives it, the
adaptation engine does not raise. -/
def wired (loop : AgentLoop T) : AgentLoop T where
  maxAttempts := loop.maxAttempts
  wallClock := loop.wallClock
  now := loop.now
  digest := loop.digest
  quotient := loop.quotient
  evaluate := Evaluator.evaluate
  generateFeedback := FeedbackEngine.generateFeedback
  processFeedback feedbackSignal := (processFeedback createDefaultRegistry feedbackSignal).getD []
  applyInjected := applyInjected createDefaultRegistry
  approve := loop.approve

/-! ### What an outcome calls for -/

namespace Outcome

def suggestions (o : Outcome) : List String := FeedbackEngine.suggestionsFor o.failureType

def feedback (o : Outcome) (executionId : String) (modifiers : Fields) : Feedback where
  executionId
  score := o.score
  success := decide (o = .clean)
  failureType := o.failureType
  improvementSuggestions := o.suggestions
    ++ if o = .clean ∨ modifiers = [] then [] else ["review_injected_adaptation_effectiveness"]
  confidence := o.confidence

/-- The adaptation that sets something, with its number. -/
def adaptation (o : Outcome) (executionId : String) (place : (String × String × Value) × ℕ) :
    RuntimeAdaptation where
  id := "adaptation-" ++ zeroPad 3 place.2
  type := place.1.1
  source := "feedback:" ++ executionId
  confidence := o.confidence
  payload := [place.1.2]

def adaptations (o : Outcome) (executionId : String) : List RuntimeAdaptation :=
  (o.remedies.zipIdx 1).map (o.adaptation executionId)

end Outcome

/-! ### The numbers of an outcome -/

/-- A number of ten-thousandths is written as its float. -/
theorem ofDecimal_tenThousandths (n : ℤ) {q : ℚ} (h : q = n / 10 ^ 4) :
    Value.ofDecimal 4 (roundDecimals 4 q) = Value.ofUnits 4 n := by
  rw [Value.ofDecimal, units_roundDecimals, h, units_div]

theorem confidenceFor_eq (o : Outcome) :
    FeedbackEngine.confidenceFor o.failureType = ((o.certainty : ℤ) : ℚ) / 10 ^ 4 := by
  cases o with
  | clean =>
      show (1 : ℚ) = ((10000 : ℕ) : ℤ) / 10 ^ 4
      norm_num
  | partialMatch =>
      show (90 / 100 : ℚ) = ((9000 : ℕ) : ℤ) / 10 ^ 4
      norm_num
  | executionFailure =>
      show (75 / 100 : ℚ) = ((7500 : ℕ) : ℤ) / 10 ^ 4
      norm_num
  | dependencySkip =>
      show (80 / 100 : ℚ) = ((8000 : ℕ) : ℤ) / 10 ^ 4
      norm_num

theorem confidence_eq (o : Outcome) :
    Value.ofDecimal 4 (roundDecimals 4 (FeedbackEngine.confidenceFor o.failureType)) = o.confidence :=
  ofDecimal_tenThousandths _ (confidenceFor_eq o)

theorem number?_confidence (o : Outcome) :
    o.confidence.number? = some (FeedbackEngine.confidenceFor o.failureType) := by
  rw [Outcome.confidence, Value.number?_ofUnits, confidenceFor_eq]

theorem normalizeScore_eq (o : Outcome) :
    FeedbackEngine.normalizeScore (o.score.number?.getD 0) = o.score := by
  have hscore : ∀ n : ℕ, n ≤ 10000 → ∀ q : ℚ, q = n / 10 ^ 4 →
      FeedbackEngine.normalizeScore q = Value.ofUnits 4 n := by
    intro n hn q hq
    have hlow : 0 ≤ q := hq ▸ div_nonneg (Nat.cast_nonneg n) (by norm_num)
    have hhigh : q ≤ 1 := by
      rw [hq, div_le_one (by norm_num)]
      exact_mod_cast hn
    rw [FeedbackEngine.normalizeScore, max_eq_left hlow, min_eq_left hhigh]
    exact ofDecimal_tenThousandths n (by simpa using hq)
  cases o with
  | clean => exact hscore 10000 (by norm_num) _ (by norm_num [Outcome.score, Value.number?])
  | partialMatch => exact hscore 5000 (by norm_num) _ (by norm_num [Outcome.score, Value.number?])
  | executionFailure => exact hscore 0 (by norm_num) _ (by norm_num [Outcome.score, Value.number?])
  | dependencySkip => exact hscore 0 (by norm_num) _ (by norm_num [Outcome.score, Value.number?])

/-! ### What a run proposes -/

variable (loop : AgentLoop T)

omit [Timestamp T] in
/-- The evaluation of a run, up to its text. -/
theorem evaluation_wired (goal : String) (modifiers : Fields) (report : ExecutionReport) :
    ∃ text, Loop.evaluation (wired loop) goal modifiers report
      = { taskId := Loop.iterationId loop goal
          success := decide (outcome report = .clean)
          score := (outcome report).score
          feedback := text
          metrics := [("match_type", .str (outcome report).matchType),
            ("score", (outcome report).score)]
              ++ if modifiers = [] then [] else [("applied_modifiers", .dict modifiers)] } := by
  obtain ⟨text, hevaluate⟩ := evaluate_outcome (Loop.iterationId loop goal)
    (("status", .str (Loop.classify report).text) :: Loop.countFields report) (outcome report)
  refine ⟨text, ?_⟩
  have hresult : (wired loop).evaluate ⟨Loop.iterationId (wired loop) goal, "completed",
      Loop.evaluationActualOutput report,
      ("status", .str (Loop.classify report).text) :: Loop.countFields report⟩ = _ :=
    (actualOutput_eq report).symm ▸ hevaluate
  unfold Loop.evaluation
  rw [hresult]
  by_cases hmodifiers : modifiers = []
  · simp only [hmodifiers, if_true]
    rfl
  · simp only [hmodifiers, if_false]
    rfl

/-- Injected adaptations are reviewed where the run is not clean. -/
theorem suggestionsForEvaluation_eq (o : Outcome) (modifiers : Fields) {evaluation : EvaluationResult}
    (h : evaluation.metrics.get? "applied_modifiers"
      = if modifiers = [] then none else some (.dict modifiers)) :
    FeedbackEngine.suggestionsForEvaluation o.failureType evaluation
      = (o.feedback evaluation.taskId modifiers).improvementSuggestions := by
  unfold FeedbackEngine.suggestionsForEvaluation
  rw [h]
  cases modifiers with
  | nil => cases o <;> rfl
  | cons entry rest => cases o <;> rfl

omit [Timestamp T] in
/-- **The feedback about a run** is that of its outcome. -/
theorem runFeedback_wired (goal : String) (modifiers : Fields) (report : ExecutionReport) :
    Loop.runFeedback (wired loop) goal modifiers report
      = (outcome report).feedback (Loop.iterationId loop goal) modifiers := by
  obtain ⟨text, hevaluation⟩ := evaluation_wired loop goal modifiers report
  show FeedbackEngine.generateFeedback report _ = _
  have hfailure : FeedbackEngine.classifyFailure report
      (Loop.evaluation (wired loop) goal modifiers report) = (outcome report).failureType := by
    apply Evaluates.classifyFailure
    rw [hevaluation]
    exact ⟨rfl, rfl, rfl⟩
  have hsuggestions : FeedbackEngine.suggestionsForEvaluation (outcome report).failureType
      (Loop.evaluation (wired loop) goal modifiers report)
        = ((outcome report).feedback (Loop.iterationId loop goal) modifiers).improvementSuggestions := by
    rw [suggestionsForEvaluation_eq _ modifiers, hevaluation]
    rw [hevaluation]
    by_cases hmodifiers : modifiers = []
    · rw [if_pos hmodifiers, if_pos hmodifiers]
      rfl
    · rw [if_neg hmodifiers, if_neg hmodifiers]
      rfl
  have hscore : FeedbackEngine.scoreOf (Loop.evaluation (wired loop) goal modifiers report)
      = (outcome report).score.number?.getD 0 := by
    rw [hevaluation]
    rfl
  have hsuccess : ((Loop.evaluation (wired loop) goal modifiers report).success
      && (outcome report).failureType.isNone) = decide (outcome report = .clean) := by
    rw [hevaluation]
    cases outcome report <;> rfl
  have hid : (Loop.evaluation (wired loop) goal modifiers report).taskId
      = Loop.iterationId loop goal := by
    rw [hevaluation]
  simp only [FeedbackEngine.generateFeedback, hfailure, hsuggestions, hscore, hsuccess, hid,
    normalizeScore_eq, confidence_eq]
  rfl

/-! ### What the adaptation engine makes of it -/

theorem orderedActions_feedback (o : Outcome) (executionId : String) (modifiers : Fields) :
    orderedActions (o.feedback executionId modifiers).improvementSuggestions = o.actions := by
  show orderedActions (o.suggestions ++ if o = .clean ∨ modifiers = [] then [] else _) = o.actions
  by_cases hunreviewed : o = .clean ∨ modifiers = []
  · rw [if_pos hunreviewed]
    cases o <;> decide
  · rw [if_neg hunreviewed]
    cases o <;> decide

theorem generateOne_item (o : Outcome) (executionId action : String) (index : ℕ) :
    generateOne ([("action_type", .str action), ("source", .str ("feedback:" ++ executionId)),
        ("confidence", o.confidence)], index)
      = (mapActionToAdaptation (strip action)).map fun (type, payload) => {
          id := "adaptation-" ++ zeroPad 3 index
          source := "feedback:" ++ executionId
          type
          payload
          confidence := o.confidence } := by
  have hconfidence : Value.ofDecimal 4 (roundDecimals 4 ((o.confidence.number?).getD 0))
      = o.confidence := by
    rw [number?_confidence]
    exact confidence_eq o
  have hmade : ∀ made : String × Fields,
      (⟨"adaptation-" ++ zeroPad 3 index, made.1, "feedback:" ++ executionId,
        Value.ofDecimal 4 (roundDecimals 4 ((o.confidence.number?).getD 0)), made.2⟩ : RuntimeAdaptation)
        = ⟨"adaptation-" ++ zeroPad 3 index, made.1, "feedback:" ++ executionId, o.confidence, made.2⟩ :=
    fun made => by rw [hconfidence]
  exact congrArg (fun f => (mapActionToAdaptation (strip action)).map f) (funext hmade)

theorem generate_actions (o : Outcome) (executionId : String) :
    generate (o.actions.map fun action => [("action_type", .str action),
        ("source", .str ("feedback:" ++ executionId)), ("confidence", o.confidence)])
      = o.adaptations executionId := by
  have hretry : mapActionToAdaptation (strip "retry_strategy")
      = some ("retry_limit", [("retry_limit", .int 3)]) := by rfl
  have hoptimize : mapActionToAdaptation (strip "optimize_execution")
      = some ("timeout_seconds", [("timeout", .int 10)]) := by rfl
  have hlogging : mapActionToAdaptation (strip "increase_logging")
      = some ("preferred_tool", [("preferred_tool", .str "api")]) := by rfl
  cases o <;> simp only [generate, Outcome.actions, List.map_cons, List.map_nil, List.zipIdx_cons,
    List.zipIdx_nil, List.filterMap_cons, List.filterMap_nil, generateOne_item, hretry, hoptimize,
    hlogging, Option.map_some] <;> rfl

theorem confidenceAllowed_of_outcome {o : Outcome} {adaptation : RuntimeAdaptation}
    (h : adaptation.confidence = o.confidence) : confidenceAllowed adaptation = some true := by
  have hcertainty : o.certainty ≤ 10000 := by cases o <;> decide
  have hlow : (0 : ℚ) ≤ ((o.certainty : ℤ) : ℚ) / 10 ^ 4 :=
    div_nonneg (by exact_mod_cast Nat.zero_le _) (by norm_num)
  have hhigh : ((o.certainty : ℤ) : ℚ) / 10 ^ 4 ≤ 1 := by
    rw [div_le_one (by norm_num)]
    exact_mod_cast hcertainty
  rw [confidenceAllowed, h, number?_confidence, confidenceFor_eq]
  exact congrArg some (Bool.and_eq_true_iff.2 ⟨decide_eq_true hlow, decide_eq_true hhigh⟩)

theorem grants_of_mem {o : Outcome} {remedy : String × String × Value} (h : remedy ∈ o.remedies)
    (executionId : String) (index : ℕ) :
    Grants (o.adaptation executionId (remedy, index)) remedy.2.1 remedy.2.2 := by
  have hretry : Grants (o.adaptation executionId (("retry_limit", "retry_limit", .int 3), index))
      "retry_limit" (.int 3) :=
    ⟨.retryLimit rfl rfl rfl (by decide) (by decide), confidenceAllowed_of_outcome rfl⟩
  have htimeout : Grants (o.adaptation executionId (("timeout_seconds", "timeout", .int 10), index))
      "timeout" (.int 10) :=
    ⟨.timeout rfl rfl rfl (by decide) (by decide), confidenceAllowed_of_outcome rfl⟩
  have htool : Grants
      (o.adaptation executionId (("preferred_tool", "preferred_tool", .str "api"), index))
      "preferred_tool" (.str "api") :=
    ⟨.preferredTool rfl rfl (by decide), confidenceAllowed_of_outcome rfl⟩
  cases o with
  | clean => cases h
  | partialMatch =>
      obtain rfl := List.mem_singleton.1 h
      exact htimeout
  | executionFailure =>
      rcases List.mem_pair.1 h with rfl | rfl
      · exact hretry
      · exact htool
  | dependencySkip =>
      rcases List.mem_pair.1 h with rfl | rfl
      · exact htool
      · exact hretry

theorem filterValid_adaptations (o : Outcome) (executionId : String) :
    filterValid createDefaultRegistry (o.adaptations executionId)
      = some (o.adaptations executionId) := by
  have hvalid : ∀ adaptation ∈ o.adaptations executionId,
      isValid createDefaultRegistry adaptation = some true := by
    intro adaptation hmem
    obtain ⟨⟨remedy, index⟩, hplace, rfl⟩ := List.mem_map.1 hmem
    exact isValid_iff.2 ⟨_, _, grants_of_mem (List.fst_mem_of_mem_zipIdx hplace) executionId index⟩
  rcases filterValid_cases createDefaultRegistry (o.adaptations executionId) with
    ⟨-, adaptation, hmem, hnone⟩ | ⟨hkeeps, -⟩
  · cases (hvalid adaptation hmem).symm.trans hnone
  · rw [hkeeps, List.filter_eq_self.2 fun adaptation hmem => beq_iff_eq.2 (hvalid adaptation hmem)]

theorem apply_adaptations (o : Outcome) (executionId : String) :
    apply createDefaultRegistry (o.adaptations executionId) = some o.modifiers := by
  have happly : ∀ (remedies : List (String × String × Value)) (index : ℕ) (modifiers : Fields),
      (∀ remedy ∈ remedies, remedy ∈ o.remedies) →
      ((remedies.zipIdx index).map (o.adaptation executionId)).foldlM
          (applyOne createDefaultRegistry) modifiers
        = some (updateFields modifiers (remedies.map Prod.snd)) := by
    intro remedies
    induction remedies with
    | nil => exact fun _ _ _ => rfl
    | cons remedy rest ih =>
        intro index modifiers hremedies
        rw [List.zipIdx_cons, List.map_cons, List.foldlM_cons,
          (grants_of_mem (hremedies _ List.mem_cons_self) executionId index).offers.applyOne]
        exact ih _ _ fun other hother => hremedies other (List.mem_cons_of_mem _ hother)
  rw [apply, Outcome.adaptations, happly _ 1 [] fun _ h => h]
  cases o <;> rfl

/-- **The adaptations for an outcome** are proposed whatever the modifiers of the run were. -/
theorem processFeedback_feedback (o : Outcome) (executionId : String) (modifiers : Fields) :
    processFeedback createDefaultRegistry (o.feedback executionId modifiers)
      = some (o.adaptations executionId) := by
  by_cases hclean : o = .clean
  · subst hclean
    rfl
  · have hfailed : ¬ (o.feedback executionId modifiers).success = true :=
      fun hsuccess => hclean (of_decide_eq_true hsuccess)
    rw [processFeedback, if_neg hfailed, orderedActions_feedback, ← filterValid_adaptations,
      ← generate_actions]
    rfl

/-- Injected into the next run, they are accepted as a whole. -/
theorem applyInjected_adaptations (o : Outcome) (executionId : String) :
    applyInjected createDefaultRegistry (o.adaptations executionId)
      = some ((o.adaptations executionId).length, o.modifiers) := by
  rw [applyInjected, filterValid_adaptations]
  show (apply createDefaultRegistry _).bind _ = _
  rw [apply_adaptations]
  rfl

omit [Timestamp T] in
theorem appliedModifiers_adaptations (o : Outcome) (executionId : String) :
    Loop.appliedModifiers (wired loop) (o.adaptations executionId) = o.modifiers := by
  rw [Loop.appliedModifiers]
  show (if (o.adaptations executionId).isEmpty then []
    else ((applyInjected createDefaultRegistry (o.adaptations executionId)).getD (0, [])).2)
      = o.modifiers
  rw [applyInjected_adaptations]
  cases o <;> rfl

/-! ### Series of runs -/

variable {loop}

/-- The signal of a validation that returns, after as many attempts as it takes. -/
theorem validate_feedback {fails : ℕ → Option Fault} {goal : String} {modifiers : Fields}
    {report : ExecutionReport} {s s' : World} {signal : FeedbackSignal T}
    (h : Loop.runStepWithRetry loop (Loop.validate loop fails goal modifiers report) s
      = .ok signal s') :
    signal.toFeedback = Loop.runFeedback loop goal modifiers report := by
  have hends : Ends (fun (signal : FeedbackSignal T) _ => signal.toFeedback
      = Loop.runFeedback loop goal modifiers report) (fun _ _ => True)
      (retry Loop.isTransient (Loop.validate loop fails goal modifiers report)
        (loop.maxAttempts - 1)) s := by
    refine ends_retry (fun _ => True) (fun s _ => ?_) trivial _
    rcases hx : Loop.validate loop fails goal modifiers report s with ⟨signal, s₁⟩ | ⟨error, s₁⟩
    · obtain ⟨content, _, hget, hwritten⟩ := bind_eq_ok hx
      cases hget
      obtain ⟨_, _, _, hsignal⟩ := bind_eq_ok hwritten
      cases hsignal
      exact (ends_of_ok hx).2 rfl
    · exact (ends_of_error hx).2 ⟨trivial, fun _ => trivial⟩
  exact (ends_of_ok h).1 hends

/-- What a run of the closed loop hands on. -/
structure Proposes (result : AgentResult T) : Prop where
  feedback : result.feedback.toFeedback
    = (outcome result.execution).feedback result.feedback.executionId result.appliedModifiers
  adaptation : result.adaptation
    = (outcome result.execution).adaptations result.feedback.executionId

theorem run_proposes {fails : ℕ → Option Fault} {input : RunInput} {s w : World}
    {result : AgentResult T} (h : Loop.run (wired loop) fails input s = .ok result w) :
    result.execution = input.report
      ∧ result.appliedModifiers = Loop.appliedModifiers (wired loop) input.injected
      ∧ Proposes result := by
  rw [Loop.run] at h
  split at h
  · cases h
  split at h
  · cases h
  · obtain ⟨_, s₁, _, h⟩ := bind_eq_ok h
    obtain ⟨signal, s₂, hvalidate, h⟩ := bind_eq_ok h
    obtain ⟨reflection, s₃, _, h⟩ := bind_eq_ok h
    cases h
    have hsignal := validate_feedback hvalidate
    rw [runFeedback_wired] at hsignal
    have hid : signal.executionId = Loop.iterationId loop (strip input.goal) :=
      congrArg Feedback.executionId hsignal
    refine ⟨rfl, rfl, ?_, ?_⟩
    · show signal.toFeedback = (outcome input.report).feedback signal.executionId _
      rw [hid, hsignal]
    · show (processFeedback createDefaultRegistry signal.toFeedback).getD []
        = (outcome input.report).adaptations signal.executionId
      rw [hid, hsignal, processFeedback_feedback]
      rfl

/-- Runs one after the other, each with the adaptations of the run before. -/
inductive Series (loop : AgentLoop T) : List RuntimeAdaptation → List (AgentResult T) → Prop
  | nil (injected : List RuntimeAdaptation) : Series loop injected []
  | cons {injected : List RuntimeAdaptation} {fails : ℕ → Option Fault} {input : RunInput}
      {s w : World} {result : AgentResult T} {results : List (AgentResult T)}
      (hinjected : input.injected = injected)
      (hrun : Loop.run loop fails input s = .ok result w)
      (hrest : Series loop result.adaptation results) : Series loop injected (result :: results)

/-- **The closed loop has no memory of its own**: in a series of runs, whatever is injected into the
first, each run proposes what its outcome calls for, and the next one runs with exactly that. -/
theorem series_spec {injected : List RuntimeAdaptation} {results : List (AgentResult T)}
    (h : Series (wired loop) injected results) :
    (∀ result ∈ results, Proposes result)
      ∧ results.IsChain fun result next =>
        next.appliedModifiers = (outcome result.execution).modifiers := by
  induction h with
  | nil => exact ⟨nofun, .nil⟩
  | cons _ hrun hrest ih =>
      obtain ⟨-, -, hproposes⟩ := run_proposes hrun
      refine ⟨fun other hother => ?_, ?_⟩
      · rcases List.mem_cons.1 hother with rfl | hother
        · exact hproposes
        · exact ih.1 other hother
      · cases hrest with
        | nil => exact .singleton _
        | cons hinjected hnext _ =>
            refine .cons_cons ?_ ih.2
            rw [(run_proposes hnext).2.1, hinjected, hproposes.adaptation,
              appliedModifiers_adaptations]

/-! ### A failed run, and the run after it -/

def failedInput : RunInput where
  goal := "goal"
  injected := []
  plan := Loop.sampleInput.plan
  report :=
    { tasks := [⟨"task-1", "goal", [], .failed, none, some "boom", none⟩]
      status := .failed
      totalTasks := 1
      completedTasks := 0
      failedTasks := 1
      skippedTasks := 0 }

theorem failedInput_returns :
    ∃ result w, Loop.run (wired Loop.sampleLoop) (fun _ => none) failedInput ⟨fun _ => [], 0⟩
        = .ok result w
      ∧ Ends (fun _ _ => True) (fun _ _ => False)
        (Loop.run (wired Loop.sampleLoop) (fun _ => none)
          { Loop.sampleInput with injected := result.adaptation }) w :=
  ends_never_raises.1 (by decide +kernel)

/-- The run after it has the modifiers of a failed execution. -/
theorem series_spec_failed : ∃ result next : AgentResult Instant,
    Series (wired Loop.sampleLoop) [] [result, next]
      ∧ Proposes result ∧ result.adaptation ≠ []
      ∧ next.appliedModifiers = [("retry_limit", .int 3), ("preferred_tool", .str "api")] := by
  obtain ⟨result, w, hrun, hends⟩ := failedInput_returns
  obtain ⟨next, w', hnext, -⟩ := ends_never_raises.1 hends
  have hseries : Series (wired Loop.sampleLoop) [] [result, next] :=
    .cons rfl hrun (.cons rfl hnext (.nil _))
  have hspec := series_spec hseries
  have houtcome : outcome result.execution = .executionFailure := by
    rw [(run_proposes hrun).1]
    decide
  have hproposes : Proposes result := hspec.1 result List.mem_cons_self
  refine ⟨result, next, hseries, hproposes, ?_, ?_⟩
  · rw [hproposes.adaptation, houtcome]
    exact List.cons_ne_nil _ _
  · rw [(List.isChain_cons_cons.1 hspec.2).1, houtcome]
    rfl

end PersonalDevin.Adaptation
