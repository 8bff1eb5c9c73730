import PersonalDevin.Lib.Effects

/-!
# Writes that fail now and then

A store whose writes fail by a pattern over the writes that were attempted: a faulty write has no effect,
and every other one does what it does to the content or refuses. A batch of writes stops at the first that
fails, and what it has written before stays. A batch that is tried again until it returns has written each
of its parts exactly once if and only if each failed attempt has failed at its first write. Nothing here is
about a program.
-/

namespace Lib

/-- The content of a store, and how many writes were attempted. -/
structure Attempted (S : Type) where
  content : S
  attempts : ℕ

variable {S W E α : Type} (fails : ℕ → Option E) (perform : W → S → Except E S)

def faultyWrite (w : W) : EStateM E (Attempted S) PUnit := fun s =>
  match fails s.attempts with
  | some e => .error e { s with attempts := s.attempts + 1 }
  | none =>
      match perform w s.content with
      | .ok content => .ok ⟨⟩ { content, attempts := s.attempts + 1 }
      | .error e => .error e { s with attempts := s.attempts + 1 }

/-- The writes of a batch, one after the other. -/
def writeAll : List W → EStateM E (Attempted S) PUnit
  | [] => pure ⟨⟩
  | w :: rest => do
      faultyWrite fails perform w
      writeAll rest

/-- What the writes of a batch do to the content without a fault. -/
def performAll : List W → S → Except E S
  | [], content => .ok content
  | w :: rest, content =>
      match perform w content with
      | .ok content' => performAll rest content'
      | .error e => .error e

/-- The batch for the present content, and the value that goes with it. -/
def batchStep (batch : S → List W) (value : S → α) : EStateM E (Attempted S) α := do
  let s ← get
  writeAll fails perform (batch s.content)
  return value s.content

variable {fails perform}

/-- No fault among so many writes. -/
def NoFault (fails : ℕ → Option E) (attempts count : ℕ) : Prop :=
  ∀ i < count, fails (attempts + i) = none

theorem noFault_succ {attempts count : ℕ} :
    NoFault fails attempts (count + 1) ↔ fails attempts = none ∧ NoFault fails (attempts + 1) count := by
  constructor
  · intro h
    refine ⟨h 0 (Nat.succ_pos _), fun i hi => ?_⟩
    rw [Nat.add_assoc, Nat.add_comm 1 i]
    exact h (i + 1) (Nat.succ_lt_succ hi)
  · rintro ⟨hfirst, hrest⟩ i hi
    cases i with
    | zero => exact hfirst
    | succ i =>
        have hi' := hrest i (Nat.lt_of_succ_lt_succ hi)
        rwa [Nat.add_assoc, Nat.add_comm 1 i] at hi'

/-! ### One write -/

section Write

variable {w : W} {s : Attempted S}

theorem faultyWrite_of_fault {e : E} (h : fails s.attempts = some e) :
    faultyWrite fails perform w s = .error e { s with attempts := s.attempts + 1 } := by
  simp only [faultyWrite, h]

theorem faultyWrite_of_ok {content : S} (hfault : fails s.attempts = none)
    (h : perform w s.content = .ok content) :
    faultyWrite fails perform w s = .ok ⟨⟩ { content, attempts := s.attempts + 1 } := by
  simp only [faultyWrite, hfault, h]

theorem faultyWrite_of_error {e : E} (hfault : fails s.attempts = none)
    (h : perform w s.content = .error e) :
    faultyWrite fails perform w s = .error e { s with attempts := s.attempts + 1 } := by
  simp only [faultyWrite, hfault, h]

end Write

/-! ### A batch -/

theorem writeAll_of_ok {ws : List W} {s : Attempted S} (hfault : NoFault fails s.attempts ws.length)
    {content : S} (h : performAll perform ws s.content = .ok content) :
    writeAll fails perform ws s = .ok ⟨⟩ { content, attempts := s.attempts + ws.length } := by
  induction ws generalizing s with
  | nil =>
      cases h
      rfl
  | cons w rest ih =>
      obtain ⟨hfirst, hrest⟩ := noFault_succ.1 hfault
      rcases hw : perform w s.content with e | content'
      · rw [performAll, hw] at h
        cases h
      · rw [performAll, hw] at h
        rw [writeAll, bind_of_ok (faultyWrite_of_ok hfirst hw), ih hrest h, List.length_cons,
          Nat.add_assoc, Nat.add_comm 1]

/-- What a batch has done when it ends: it returns without a fault, or it raises after some writes, at
a fault or at a write that is refused. -/
theorem writeAll_ends (fails : ℕ → Option E) (size : S → ℕ) {ws : List W}
    (hsize : ∀ w ∈ ws, ∀ c c', perform w c = .ok c' → size c' = size c + 1) (s : Attempted S) :
    Ends
      (fun _ s' => NoFault fails s.attempts ws.length
        ∧ performAll perform ws s.content = .ok s'.content ∧ s'.attempts = s.attempts + ws.length
        ∧ size s'.content = size s.content + ws.length)
      (fun e s' => ∃ j < ws.length, NoFault fails s.attempts j
        ∧ size s'.content = size s.content + j ∧ s'.attempts = s.attempts + j + 1
        ∧ (j = 0 → s'.content = s.content)
        ∧ (fails (s.attempts + j) = some e ∨ ∃ w ∈ ws, ∃ c, perform w c = .error e))
      (writeAll fails perform ws) s := by
  induction ws generalizing s with
  | nil => exact ⟨nofun, rfl, rfl, rfl⟩
  | cons w rest ih =>
      rcases hfirst : fails s.attempts with _ | e
      · rcases hw : perform w s.content with e | content
        · rw [writeAll, ends_of_error (bind_of_error (faultyWrite_of_error hfirst hw))]
          exact ⟨0, Nat.succ_pos _, nofun, rfl, rfl, fun _ => rfl, .inr ⟨w, List.mem_cons_self, _, hw⟩⟩
        · have hone := hsize w List.mem_cons_self _ _ hw
          rw [writeAll, ends_congr (bind_of_ok (faultyWrite_of_ok hfirst hw))]
          apply (ih (fun w' hmem => hsize w' (List.mem_cons_of_mem _ hmem)) _).mono
          · rintro _ s' ⟨hrest, hperform, hattempts, hcount⟩
            dsimp only at hattempts hcount
            refine ⟨noFault_succ.2 ⟨hfirst, hrest⟩, ?_, ?_, ?_⟩
            · rw [performAll, hw]
              exact hperform
            · rw [List.length_cons]
              omega
            · rw [List.length_cons]
              omega
          · rintro e s' ⟨j, hj, hrest, hcount, hattempts, _, hcause⟩
            dsimp only at hcount hattempts hcause
            refine ⟨j + 1, Nat.succ_lt_succ hj, noFault_succ.2 ⟨hfirst, hrest⟩, by omega, by omega,
              nofun, ?_⟩
            · rcases hcause with hfault | ⟨w', hmem, hrefused⟩
              · left
                rwa [Nat.add_assoc, Nat.add_comm 1 j] at hfault
              · exact .inr ⟨w', List.mem_cons_of_mem _ hmem, hrefused⟩
      · rw [writeAll, ends_of_error (bind_of_error (faultyWrite_of_fault hfirst))]
        exact ⟨0, Nat.succ_pos _, nofun, rfl, rfl, fun _ => rfl, .inl hfirst⟩

theorem keeps_writeAll (Inv : S → Prop) {ws : List W}
    (hwrite : ∀ w ∈ ws, ∀ c c', Inv c → perform w c = .ok c' → Inv c') :
    Keeps (fun s => Inv s.content) (writeAll fails perform ws) := by
  induction ws with
  | nil => exact keeps_pure _
  | cons w rest ih =>
      have hone : Keeps (fun s => Inv s.content) (faultyWrite fails perform w) := by
        intro s h
        rcases hfirst : fails s.attempts with _ | e
        · rcases hw : perform w s.content with e | content
          · exact (ends_of_error (faultyWrite_of_error hfirst hw)).2 h
          · exact (ends_of_ok (faultyWrite_of_ok hfirst hw)).2 (hwrite w List.mem_cons_self _ _ h hw)
        · exact (ends_of_error (faultyWrite_of_fault hfirst)).2 h
      exact hone.bind fun _ => ih fun w' hmem => hwrite w' (List.mem_cons_of_mem _ hmem)

/-! ### A batch that is tried again -/

/-- Some faulty writes, and then so many writes without a fault. -/
def FailsFirst (fails : ℕ → Option E) (attempts count attempts' : ℕ) : Prop :=
  ∃ k, (∀ i < k, (fails (attempts + i)).isSome) ∧ NoFault fails (attempts + k) count
    ∧ attempts' = attempts + k + count

theorem failsFirst_of_noFault {attempts count : ℕ} (h : NoFault fails attempts count) :
    FailsFirst fails attempts count (attempts + count) := ⟨0, nofun, h, rfl⟩

/-- A faulty write before does not change it. -/
theorem failsFirst_succ {attempts count attempts' : ℕ} {e : E} (h : fails attempts = some e)
    (hpos : 0 < count) :
    FailsFirst fails (attempts + 1) count attempts' ↔ FailsFirst fails attempts count attempts' := by
  constructor
  · rintro ⟨k, hfaults, hrest, hend⟩
    refine ⟨k + 1, fun i hi => ?_, ?_, by omega⟩
    · cases i with
      | zero => rw [Nat.add_zero, h]; rfl
      | succ i =>
          have hi' := hfaults i (Nat.lt_of_succ_lt_succ hi)
          rwa [Nat.add_assoc, Nat.add_comm 1 i] at hi'
    · rwa [Nat.add_assoc, Nat.add_comm 1 k] at hrest
  · rintro ⟨k, hfaults, hrest, hend⟩
    cases k with
    | zero =>
        have hfirst : fails attempts = none := hrest 0 hpos
        rw [h] at hfirst
        cases hfirst
    | succ k =>
        refine ⟨k, fun i hi => ?_, ?_, by omega⟩
        · have hi' := hfaults (i + 1) (Nat.succ_lt_succ hi)
          rwa [Nat.add_comm i 1, ← Nat.add_assoc] at hi'
        · rwa [Nat.add_comm k 1, ← Nat.add_assoc] at hrest

/-- The writes without a fault begin at the first write that is not faulty. -/
theorem not_failsFirst {attempts count attempts' j : ℕ} (hj : j < count) (hpos : 0 < j)
    (hbefore : NoFault fails attempts j) (hfault : (fails (attempts + j)).isSome) :
    ¬ FailsFirst fails attempts count attempts' := by
  rintro ⟨k, hfaults, hrest, _⟩
  cases k with
  | zero =>
      have hnone : fails (attempts + j) = none := hrest j hj
      rw [hnone] at hfault
      cases hfault
  | succ k =>
      have hsome := hfaults 0 (Nat.succ_pos _)
      rw [hbefore 0 hpos] at hsome
      cases hsome

theorem failsFirst_unique {attempts count n n' : ℕ} (hpos : 0 < count)
    (h : FailsFirst fails attempts count n) (h' : FailsFirst fails attempts count n') : n = n' := by
  obtain ⟨k, hfaults, hrest, rfl⟩ := h
  obtain ⟨k', hfaults', hrest', rfl⟩ := h'
  have hle : ∀ k k', NoFault fails (attempts + k) count →
      (∀ i < k', (fails (attempts + i)).isSome) → k' ≤ k := by
    intro k k' hrest hfaults
    by_contra hlt
    have hsome := hfaults k (Nat.lt_of_not_le hlt)
    have hnone : fails (attempts + k) = none := hrest 0 hpos
    rw [hnone] at hsome
    cases hsome
  rw [Nat.le_antisymm (hle k' k hrest' hfaults) (hle k k' hrest hfaults')]

theorem batchStep_of_ok {batch : S → List W} (value : S → α) {s s' : Attempted S}
    (h : writeAll fails perform (batch s.content) s = .ok ⟨⟩ s') :
    batchStep fails perform batch value s = .ok (value s.content) s' := by
  rw [batchStep, bind_get, bind_of_ok h]
  rfl

theorem batchStep_of_error {batch : S → List W} (value : S → α) {s s' : Attempted S} {e : E}
    (h : writeAll fails perform (batch s.content) s = .error e s') :
    batchStep fails perform batch value s = .error e s' := by
  rw [batchStep, bind_get, bind_of_error h]

section Retry

variable {batch : S → List W} {value : S → α} {n : ℕ} (hlength : ∀ c, (batch c).length = n)
  (size : S → ℕ)
  (hsize : ∀ c, ∀ w ∈ batch c, ∀ c₁ c₂, perform w c₁ = .ok c₂ → size c₂ = size c₁ + 1)

include hlength hsize

theorem batch_returns {s s' : Attempted S}
    (h : writeAll fails perform (batch s.content) s = .ok ⟨⟩ s') :
    size s'.content = size s.content + n ∧ FailsFirst fails s.attempts n s'.attempts
      ∧ performAll perform (batch s.content) s.content = .ok s'.content := by
  have hbatch := writeAll_ends fails size (hsize s.content) s
  rw [ends_of_ok h, hlength] at hbatch
  obtain ⟨hfault, hperform, hattempts, hcount⟩ := hbatch
  refine ⟨hcount, ?_, hperform⟩
  rw [hattempts]
  exact failsFirst_of_noFault hfault

variable {retryable : E → Bool} (hrefused : ∀ w c e, perform w c = .error e → ¬ retryable e = true)

include hrefused

/-- **What is left by a batch that is tried again until it returns**: at least one copy of each of its
parts, and exactly one if and only if each failed attempt has failed at its first write. -/
theorem retry_batch_returns {retries : ℕ} {s s' : Attempted S} {a : α}
    (h : retry retryable (batchStep fails perform batch value) retries s = .ok a s') :
    size s.content + n ≤ size s'.content
      ∧ (size s'.content = size s.content + n → FailsFirst fails s.attempts n s'.attempts
        ∧ performAll perform (batch s.content) s.content = .ok s'.content ∧ a = value s.content)
      ∧ ((∃ attempts', FailsFirst fails s.attempts n attempts') →
        size s'.content = size s.content + n) := by
  have hdone : ∀ {s : Attempted S}, writeAll fails perform (batch s.content) s = .ok ⟨⟩ s' →
      a = value s.content → size s.content + n ≤ size s'.content
        ∧ (size s'.content = size s.content + n → FailsFirst fails s.attempts n s'.attempts
          ∧ performAll perform (batch s.content) s.content = .ok s'.content ∧ a = value s.content)
        ∧ ((∃ attempts', FailsFirst fails s.attempts n attempts') →
          size s'.content = size s.content + n) := by
    intro s hreturned hvalue
    obtain ⟨hcount, hfirst, hperform⟩ := batch_returns hlength size hsize hreturned
    exact ⟨Nat.le_of_eq hcount.symm, fun _ => ⟨hfirst, hperform, hvalue⟩, fun _ => hcount⟩
  induction retries generalizing s with
  | zero =>
      rcases hx : writeAll fails perform (batch s.content) s with ⟨_, s₁⟩ | ⟨e, s₁⟩
      · cases (batchStep_of_ok value hx).symm.trans h
        exact hdone hx rfl
      · cases (batchStep_of_error value hx).symm.trans h
  | succ retries ih =>
      have hbatch := writeAll_ends fails size (hsize s.content) s
      rcases hx : writeAll fails perform (batch s.content) s with ⟨_, s₁⟩ | ⟨e, s₁⟩
      · cases (retry_of_ok _ (batchStep_of_ok value hx)).symm.trans h
        exact hdone hx rfl
      · rw [ends_of_error hx, hlength] at hbatch
        obtain ⟨j, hj, hbefore, hcount, hattempts, hsame, hcause⟩ := hbatch
        by_cases hretry : retryable e = true
        · have hfault : fails (s.attempts + j) = some e := by
            rcases hcause with hfault | ⟨w, _, c, hw⟩
            · exact hfault
            · exact absurd hretry (hrefused w c e hw)
          obtain ⟨hle, hexact, hfirst⟩ :=
            ih ((retry_again _ (batchStep_of_error value hx) hretry).symm.trans h)
          rcases Nat.eq_zero_or_pos j with rfl | hpos
          · rw [hsame rfl] at hle hexact hfirst
            rw [Nat.add_zero] at hattempts hfault
            rw [hattempts] at hexact hfirst
            simp only [failsFirst_succ hfault hj] at hexact hfirst
            exact ⟨hle, hexact, hfirst⟩
          · refine ⟨by omega, fun hsize' => ?_, ?_⟩
            · omega
            · rintro ⟨attempts', hclean⟩
              exact absurd hclean (not_failsFirst hj hpos hbefore (hfault ▸ rfl))
        · cases (retry_of_final _ (batchStep_of_error value hx) hretry).symm.trans h

end Retry

/-- Without faults a batch is not tried again. -/
theorem retry_batch_faultFree {batch : S → List W} (value : S → α) {retryable : E → Bool}
    (hfaults : ∀ i, fails i = none)
    (hrefused : ∀ w c e, perform w c = .error e → ¬ retryable e = true) (size : S → ℕ)
    (hsize : ∀ c, ∀ w ∈ batch c, ∀ c₁ c₂, perform w c₁ = .ok c₂ → size c₂ = size c₁ + 1)
    (retries : ℕ) (s : Attempted S) :
    Ends (fun a s' => a = value s.content
        ∧ performAll perform (batch s.content) s.content = .ok s'.content
        ∧ size s'.content = size s.content + (batch s.content).length)
      (fun _ s' => (∀ c, performAll perform (batch s.content) s.content ≠ .ok c)
        ∧ size s'.content ≤ size s.content + (batch s.content).length)
      (retry retryable (batchStep fails perform batch value) retries) s := by
  have hbatch := writeAll_ends fails size (hsize s.content) s
  rcases hx : writeAll fails perform (batch s.content) s with ⟨_, s₁⟩ | ⟨e, s₁⟩
  · rw [ends_of_ok hx] at hbatch
    rw [ends_of_ok (retry_of_ok _ (batchStep_of_ok value hx))]
    exact ⟨rfl, hbatch.2.1, hbatch.2.2.2⟩
  · rw [ends_of_error hx] at hbatch
    obtain ⟨j, hj, _, hcount, _, _, hcause⟩ := hbatch
    have hfinal : ¬ retryable e = true := by
      rcases hcause with hfault | ⟨w, _, c, hw⟩
      · rw [hfaults] at hfault
        cases hfault
      · exact hrefused w c e hw
    rw [ends_of_error (retry_of_final _ (batchStep_of_error value hx) hfinal)]
    refine ⟨fun content hperform => ?_, by omega⟩
    have hreturned := writeAll_of_ok (fun i _ => hfaults (s.attempts + i)) hperform
    rw [hx] at hreturned
    cases hreturned

/-! ### A batch that may break off -/

/-- How many writes of a batch are made before one is refused. -/
def written (perform : W → S → Except E S) : List W → S → ℕ
  | [], _ => 0
  | w :: rest, content =>
      match perform w content with
      | .ok content' => written perform rest content' + 1
      | .error _ => 0

/-- The content after them. -/
def performWhile (perform : W → S → Except E S) : List W → S → S
  | [], content => content
  | w :: rest, content =>
      match perform w content with
      | .ok content' => performWhile perform rest content'
      | .error _ => content

theorem size_performWhile (size : S → ℕ) {ws : List W}
    (hsize : ∀ w ∈ ws, ∀ c c', perform w c = .ok c' → size c' = size c + 1) (content : S) :
    size (performWhile perform ws content) = size content + written perform ws content := by
  induction ws generalizing content with
  | nil => rfl
  | cons w rest ih =>
      rcases hw : perform w content with e | content'
      · simp only [performWhile, written, hw, Nat.add_zero]
      · have hone := hsize w List.mem_cons_self _ _ hw
        have hrest := ih (fun w' hmem => hsize w' (List.mem_cons_of_mem _ hmem)) content'
        simp only [performWhile, written, hw]
        omega

/-- **What is left by a batch that may break off**: all that can be written if there was no fault among
those writes, and less if there was. -/
theorem writeAll_while (fails : ℕ → Option E) (size : S → ℕ) {ws : List W}
    (hsize : ∀ w ∈ ws, ∀ c c', perform w c = .ok c' → size c' = size c + 1) (s : Attempted S) :
    Ends
      (fun _ s' => (NoFault fails s.attempts (written perform ws s.content)
          ∧ s'.content = performWhile perform ws s.content)
        ∨ (¬ NoFault fails s.attempts (written perform ws s.content)
          ∧ size s'.content < size (performWhile perform ws s.content)))
      (fun _ s' => (NoFault fails s.attempts (written perform ws s.content)
          ∧ s'.content = performWhile perform ws s.content)
        ∨ (¬ NoFault fails s.attempts (written perform ws s.content)
          ∧ size s'.content < size (performWhile perform ws s.content)))
      (writeAll fails perform ws) s := by
  induction ws generalizing s with
  | nil => exact .inl ⟨nofun, rfl⟩
  | cons w rest ih =>
      rcases hfirst : fails s.attempts with _ | e
      · rcases hw : perform w s.content with e | content
        · rw [writeAll, ends_of_error (bind_of_error (faultyWrite_of_error hfirst hw))]
          simp only [written, performWhile, hw]
          exact .inl ⟨nofun, trivial⟩
        · have hrest := ih (fun w' hmem => hsize w' (List.mem_cons_of_mem _ hmem))
            { content, attempts := s.attempts + 1 }
          rw [writeAll, ends_congr (bind_of_ok (faultyWrite_of_ok hfirst hw))]
          simp only [written, performWhile, hw, noFault_succ, hfirst, true_and]
          exact hrest
      · rw [writeAll, ends_of_error (bind_of_error (faultyWrite_of_fault hfirst))]
        rw [size_performWhile size hsize]
        rcases hw : perform w s.content with e' | content
        · simp only [written, performWhile, hw]
          exact .inl ⟨nofun, trivial⟩
        · simp only [written, hw, noFault_succ, hfirst]
          refine .inr ⟨nofun, ?_⟩
          omega

end Lib
