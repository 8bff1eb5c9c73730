import PersonalDevin.Orchestration.Recovery
import Mathlib.Order.Bounds.Basic

/-!
# The attempts of a recovered operation

For any sequence of outcomes, how often `RecoveryManager.execute` invokes the operation, what it records
of the invocations and what it returns. It invokes until the first outcome that is no transient failure,
and never more than one time over the retries it is allowed. An exception that is also a policy
violation is none that is tried again, whatever else it is: `categorize_failure` asks for that first. Each
exception has to have a text, since `execute` asks for it where it handles the exception.
-/

namespace PersonalDevin.Orchestration

variable {α : Type}

/-- What one invocation comes to: a value, or an exception. -/
abbrev Outcome (α : Type) := Except Raised (Option α)

/-- An operation with the given outcomes; its state is the number of invocations so far. -/
def scripted (outcomes : ℕ → Outcome α) : EStateM Raised ℕ (Option α) := fun i =>
  match outcomes i with
  | .ok value => .ok value (i + 1)
  | .error error => .error error (i + 1)

def Retried (retryable : Raised → Bool) : Outcome α → Prop
  | .ok _ => False
  | .error error => retryable error = true

def Raised.message (error : Raised) : String :=
  match error.text with
  | .ok text => text
  | .error _ => ""

/-- The record of invocation `i` of `k`, if it raised. -/
def failedInvocation (phase : String) (outcomes : ℕ → Outcome α) (k i : ℕ) : Option RecoveryAttempt :=
  match outcomes i with
  | .ok _ => none
  | .error error => some (recoveryAttempt phase (i + 1) error error.message (decide (i + 1 < k)))

def failedInvocations (phase : String) (outcomes : ℕ → Outcome α) (k : ℕ) : List RecoveryAttempt :=
  (List.range k).filterMap (failedInvocation phase outcomes k)

def resultOf (attempts : List RecoveryAttempt) : Outcome α → RecoveryResult α
  | .ok value => .succeeded value attempts
  | .error error => .raised error error.message attempts

/-- The operation is invoked `k` times, with `k` the least of `max_retries + 1` and the position of the
first outcome that is not retried; the attempts are the failed ones of these invocations, numbered from
1, and all but the last of the `k` will be retried; the result is that of the last. -/
def Recovers (retryable : Raised → Bool) (phase : String) (maxRetries : ℕ)
    (outcomes : ℕ → Outcome α) : Prop :=
  ∃ k, IsLeast {k | k = maxRetries + 1 ∨ ∃ i, k = i + 1 ∧ ¬ Retried retryable (outcomes i)} k
    ∧ RecoveryManager.execute phase (scripted outcomes) maxRetries 0
      = .ok (resultOf (failedInvocations phase outcomes k) (outcomes (k - 1))) k
    ∧ (failedInvocations phase outcomes k).map RecoveryAttempt.attemptNumber
      = List.range' 1 (failedInvocations phase outcomes k).length

def transientOnly (error : Raised) : Bool :=
  error.isTransientFailureError && !error.isPolicyViolationError

/-- The retries allow an invocation `i`, and every outcome before it is one that is retried. -/
def Invoked (retryable : Raised → Bool) (maxRetries : ℕ) (outcomes : ℕ → Outcome α) (i : ℕ) : Prop :=
  i ≤ maxRetries ∧ ∀ j < i, Retried retryable (outcomes j)

def EachHasText (maxRetries : ℕ) (outcomes : ℕ → Outcome α) : Prop :=
  ∀ i error, Invoked transientOnly maxRetries outcomes i → outcomes i = .error error → error.HasText

/-! ### One invocation after the other -/

theorem Raised.HasText.message_eq {error : Raised} (h : error.HasText) :
    error.text = .ok error.message := by
  obtain ⟨text, htext⟩ := h
  rw [message, htext]

theorem isTransient_eq (error : Raised) : isTransient error = transientOnly error := by
  obtain ⟨policy, transient, deterministic, text⟩ := error
  cases policy <;> cases transient <;> cases deterministic <;> rfl

variable {phase : String} {outcomes : ℕ → Outcome α}

theorem failedInvocations_succ {k i : ℕ} :
    (List.range (i + 1)).filterMap (failedInvocation phase outcomes k)
      = (List.range i).filterMap (failedInvocation phase outcomes k)
        ++ (failedInvocation phase outcomes k i).toList := by
  rw [List.range_succ, List.filterMap_append]
  congr 1

/-- The records of the invocations so far, all of which were retried. -/
def recordedBefore (phase : String) (outcomes : ℕ → Outcome α) (i : ℕ) : List RecoveryAttempt :=
  (List.range i).filterMap (failedInvocation phase outcomes (i + 1))

theorem recordedBefore_eq {k i : ℕ} (h : i < k) :
    (List.range i).filterMap (failedInvocation phase outcomes k) = recordedBefore phase outcomes i := by
  refine List.filterMap_congr fun j hj => ?_
  have hlt : j < i := List.mem_range.1 hj
  unfold failedInvocation
  cases outcomes j with
  | ok value => rfl
  | error error =>
      have hk : j + 1 < k := by omega
      have hi : j + 1 < i + 1 := by omega
      simp only [hk, hi]

theorem map_attemptNumber_recordedBefore {retryable : Raised → Bool} {i : ℕ}
    (h : ∀ j < i, Retried retryable (outcomes j)) :
    (recordedBefore phase outcomes i).map RecoveryAttempt.attemptNumber = List.range' 1 i := by
  induction i with
  | zero => rfl
  | succ i ih =>
      rw [recordedBefore, failedInvocations_succ, recordedBefore_eq (by omega), List.map_append,
        ih fun j hj => h j (by omega), List.range'_1_concat]
      have hlast := h i (by omega)
      unfold failedInvocation
      cases hi : outcomes i with
      | ok value =>
          rw [hi] at hlast
          exact hlast.elim
      | error error => simp [recoveryAttempt, Nat.add_comm]

theorem length_recordedBefore {retryable : Raised → Bool} {i : ℕ}
    (h : ∀ j < i, Retried retryable (outcomes j)) : (recordedBefore phase outcomes i).length = i := by
  have hlength := congrArg List.length (@map_attemptNumber_recordedBefore _ phase _ _ _ h)
  rwa [List.length_map, List.length_range'] at hlength

theorem failedInvocations_succ_eq (i : ℕ) :
    failedInvocations phase outcomes (i + 1)
      = recordedBefore phase outcomes i ++ (failedInvocation phase outcomes (i + 1) i).toList :=
  failedInvocations_succ

theorem recordedBefore_succ {i : ℕ} {error : Raised} (hi : outcomes i = .error error) :
    recordedBefore phase outcomes (i + 1)
      = recordedBefore phase outcomes i
        ++ [recoveryAttempt phase (i + 1) error error.message true] := by
  have hlt : i < i + 1 + 1 := by omega
  rw [recordedBefore, failedInvocations_succ, recordedBefore_eq hlt]
  simp [failedInvocation, hi]

/-- A transient failure with retries left goes on to the next invocation. -/
theorem executeFrom_retried {retries i : ℕ} (hpast : ∀ j < i, Retried transientOnly (outcomes j))
    (htext : ∀ error, outcomes i = .error error → error.HasText)
    (hi : Retried transientOnly (outcomes i)) :
    RecoveryManager.executeFrom phase (scripted outcomes) (retries + 1)
        (recordedBefore phase outcomes i) i
      = RecoveryManager.executeFrom phase (scripted outcomes) retries
        (recordedBefore phase outcomes (i + 1)) (i + 1) := by
  have hlength : (recordedBefore phase outcomes i).length = i := length_recordedBefore hpast
  cases herror : outcomes i with
  | ok value =>
      rw [herror] at hi
      exact hi.elim
  | error error =>
      rw [herror] at hi
      have hretry : transientOnly error = true := hi
      have hraised : scripted outcomes i = .error error (i + 1) := by rw [scripted, herror]
      rw [recordedBefore_succ herror]
      simp only [RecoveryManager.executeFrom, hraised, (htext error herror).message_eq,
        isTransient_eq, hretry, if_true, hlength]

/-- Any other outcome, and every outcome without retries left, is the result. -/
theorem executeFrom_last {retries i : ℕ} (hpast : ∀ j < i, Retried transientOnly (outcomes j))
    (htext : ∀ error, outcomes i = .error error → error.HasText)
    (hlast : retries = 0 ∨ ¬ Retried transientOnly (outcomes i)) :
    RecoveryManager.executeFrom phase (scripted outcomes) retries (recordedBefore phase outcomes i) i
      = .ok (resultOf (failedInvocations phase outcomes (i + 1)) (outcomes i)) (i + 1) := by
  have hlength : (recordedBefore phase outcomes i).length = i := length_recordedBefore hpast
  rw [failedInvocations_succ_eq]
  cases hi : outcomes i with
  | ok value =>
      have hreturned : scripted outcomes i = .ok value (i + 1) := by rw [scripted, hi]
      have hown : (failedInvocation phase outcomes (i + 1) i).toList = [] := by
        simp [failedInvocation, hi]
      rw [hown, List.append_nil]
      cases retries with
      | zero =>
          rw [RecoveryManager.executeFrom, hreturned]
          rfl
      | succ retries =>
          rw [RecoveryManager.executeFrom, hreturned]
          rfl
  | error error =>
      have hraised : scripted outcomes i = .error error (i + 1) := by rw [scripted, hi]
      have hown : (failedInvocation phase outcomes (i + 1) i).toList
          = [recoveryAttempt phase (i + 1) error error.message false] := by
        simp [failedInvocation, hi]
      have hmessage := (htext error hi).message_eq
      rw [hown]
      cases retries with
      | zero => simp only [RecoveryManager.executeFrom, hraised, hmessage, hlength, resultOf]
      | succ retries =>
          have hretry : ¬ transientOnly error = true := by
            rw [hi] at hlast
            exact hlast.resolve_left (Nat.succ_ne_zero retries)
          simp only [RecoveryManager.executeFrom, hraised, hmessage, isTransient_eq, hretry, hlength,
            Bool.false_eq_true, if_false, resultOf]

/-- The loop after `i` invocations that were all retried. -/
theorem executeFrom_spec {maxRetries : ℕ} (htexts : EachHasText maxRetries outcomes)
    (retries i : ℕ) (hbudget : i + retries = maxRetries)
    (hpast : ∀ j < i, Retried transientOnly (outcomes j)) :
    ∃ k, (k = maxRetries + 1 ∨ ∃ j, k = j + 1 ∧ ¬ Retried transientOnly (outcomes j)) ∧ i < k
      ∧ (∀ j, j + 1 < k → Retried transientOnly (outcomes j)) ∧ k ≤ maxRetries + 1
      ∧ RecoveryManager.executeFrom phase (scripted outcomes) retries
          (recordedBefore phase outcomes i) i
        = .ok (resultOf (failedInvocations phase outcomes k) (outcomes (k - 1))) k := by
  have htext : ∀ error, outcomes i = .error error → error.HasText := fun error =>
    htexts i error ⟨by omega, hpast⟩
  have hbefore : ∀ j, j + 1 < i + 1 → Retried transientOnly (outcomes j) := fun j hj =>
    hpast j (by omega)
  induction retries generalizing i with
  | zero =>
      refine ⟨i + 1, .inl (by omega), by omega, hbefore, by omega, ?_⟩
      rw [Nat.add_sub_cancel]
      exact executeFrom_last hpast htext (.inl rfl)
  | succ retries ih =>
      by_cases hretried : Retried transientOnly (outcomes i)
      · have hpast' : ∀ j < i + 1, Retried transientOnly (outcomes j) := by
          intro j hj
          rcases Nat.lt_succ_iff_lt_or_eq.1 hj with hlt | rfl
          · exact hpast j hlt
          · exact hretried
        have hbudget' : i + 1 + retries = maxRetries := by omega
        obtain ⟨k, hk, hlt, hbefore', hle, heq⟩ :=
          ih (i + 1) hbudget' hpast' (fun error => htexts (i + 1) error ⟨by omega, hpast'⟩)
            fun j hj => hpast' j (by omega)
        refine ⟨k, hk, by omega, hbefore', hle, ?_⟩
        rw [executeFrom_retried hpast htext hretried]
        exact heq
      · refine ⟨i + 1, .inr ⟨i, rfl, hretried⟩, by omega, hbefore, by omega, ?_⟩
        rw [Nat.add_sub_cancel]
        exact executeFrom_last hpast htext (.inr hretried)

theorem map_attemptNumber_failedInvocations {retryable : Raised → Bool} {k : ℕ} (hpos : 0 < k)
    (h : ∀ j, j + 1 < k → Retried retryable (outcomes j)) :
    (failedInvocations phase outcomes k).map RecoveryAttempt.attemptNumber
      = List.range' 1 (failedInvocations phase outcomes k).length := by
  obtain ⟨i, rfl⟩ := Nat.exists_eq_add_one.2 hpos
  have hpast : ∀ j < i, Retried retryable (outcomes j) := fun j hj => h j (by omega)
  rw [failedInvocations_succ_eq, List.map_append, map_attemptNumber_recordedBefore hpast,
    List.length_append, length_recordedBefore hpast]
  unfold failedInvocation
  cases outcomes i with
  | ok value => simp
  | error error => simp [recoveryAttempt, List.range'_1_concat, Nat.add_comm]

/-- A loop that returns has asked every exception for its text. -/
theorem hasText_of_executeFrom {retries i : ℕ} {attempts : List RecoveryAttempt}
    {result : RecoveryResult α} {i' : ℕ}
    (h : RecoveryManager.executeFrom phase (scripted outcomes) retries attempts i = .ok result i')
    {j : ℕ} (hij : i ≤ j) (hj : j ≤ i + retries)
    (hretried : ∀ l, i ≤ l → l < j → Retried transientOnly (outcomes l)) {error : Raised}
    (herror : outcomes j = .error error) : error.HasText := by
  induction retries generalizing i attempts with
  | zero =>
      obtain rfl : i = j := by omega
      have hraised : scripted outcomes i = .error error (i + 1) := by rw [scripted, herror]
      rcases htext : error.text with text | text
      · simp only [RecoveryManager.executeFrom, hraised, htext] at h
        cases h
      · exact ⟨text, htext⟩
  | succ retries ih =>
      rcases hij.eq_or_lt with rfl | hlt
      · have hraised : scripted outcomes i = .error error (i + 1) := by rw [scripted, herror]
        rcases htext : error.text with text | text
        · simp only [RecoveryManager.executeFrom, hraised, htext] at h
          cases h
        · exact ⟨text, htext⟩
      · have hfirst := hretried i le_rfl hlt
        rcases hi : outcomes i with earlier | value
        · rw [hi] at hfirst
          have hraised : scripted outcomes i = .error earlier (i + 1) := by rw [scripted, hi]
          have htransient : isTransient earlier = true := (isTransient_eq earlier).trans hfirst
          rcases htext : earlier.text with text | text <;>
            simp only [RecoveryManager.executeFrom, hraised, htext, htransient, if_true] at h
          · cases h
          · exact ih h hlt (by omega) fun l hl => hretried l (by omega)
        · rw [hi] at hfirst
          exact hfirst.elim

/-- **The operation is invoked up to the first outcome that is no transient failure, or until the
retries are used up**, and attempts and result say so, exactly if every exception has a text. -/
theorem execute_recovers_iff (phase : String) (maxRetries : ℕ) (outcomes : ℕ → Outcome α) :
    Recovers transientOnly phase maxRetries outcomes ↔ EachHasText maxRetries outcomes := by
  constructor
  · rintro ⟨k, -, hexecute, -⟩ i error ⟨hi, hretried⟩ herror
    exact hasText_of_executeFrom hexecute (Nat.zero_le i) (by omega) (fun l _ => hretried l) herror
  · intro htexts
    obtain ⟨k, hk, hpos, hbefore, hle, heq⟩ :=
      @executeFrom_spec _ phase outcomes maxRetries htexts maxRetries 0 (Nat.zero_add _)
        fun _ h => by cases h
    refine ⟨k, ⟨hk, ?_⟩, heq, map_attemptNumber_failedInvocations hpos hbefore⟩
    rintro k' (rfl | ⟨j, rfl, hstop⟩)
    · exact hle
    · by_contra hlt
      exact hstop (hbefore j (by omega))

/-- An exception of a class that inherits from both. -/
def forbiddenTransient : Raised where
  isPolicyViolationError := true
  isTransientFailureError := true
  isDeterministicFailureError := false
  text := .ok "blocked"

/-- Such an exception is a `TransientFailureError`, and it is not tried again. -/
theorem not_recovers_forbiddenTransient :
    ¬ Recovers Raised.isTransientFailureError "planning" 1
      (fun _ => (.error forbiddenTransient : Outcome Unit)) := by
  rintro ⟨k, ⟨hk, -⟩, heq, -⟩
  have hone : k = 1 := (EStateM.Result.ok.inj heq).2.symm
  rcases hk with htwo | ⟨_, -, hstop⟩
  · omega
  · exact hstop rfl

end PersonalDevin.Orchestration
