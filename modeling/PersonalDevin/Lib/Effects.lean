import Mathlib.Data.List.Basic

/-!
# Computations that change a state and may raise

What a computation comes to from a state: it returns in a state, or it raises in a state, and the state
is not taken back. The rules below take a computation apart, and a computation that is tried again has
the rule of a loop. Nothing here is about a program.
-/

namespace Lib

variable {ε σ α β : Type}

theorem except_bind_eq_ok_iff {x : Except ε α} {f : α → Except ε β} {b : β} :
    (x >>= f) = .ok b ↔ ∃ a, x = .ok a ∧ f a = .ok b := by
  constructor
  · intro h
    cases x with
    | error e => cases h
    | ok a => exact ⟨a, rfl, h⟩
  · rintro ⟨a, rfl, h⟩
    exact h

theorem except_map_eq_ok_iff {x : Except ε α} {f : α → β} {b : β} :
    f <$> x = .ok b ↔ ∃ a, x = .ok a ∧ f a = b := by
  cases x <;> simp [Functor.map, Except.map]

/-- The state in which a computation ends. -/
def finalState : EStateM.Result ε σ α → σ
  | .ok _ s => s
  | .error _ s => s

/-- Started in the state, the computation returns with `ret` or raises with `exc`. -/
def Ends (ret : α → σ → Prop) (exc : ε → σ → Prop) (x : EStateM ε σ α) (s : σ) : Prop :=
  match x s with
  | .ok a s' => ret a s'
  | .error e s' => exc e s'

variable {ret : α → σ → Prop} {exc : ε → σ → Prop} {x : EStateM ε σ α} {s : σ}

theorem ends_of_ok {a : α} {s' : σ} (hx : x s = .ok a s') : Ends ret exc x s ↔ ret a s' := by
  rw [Ends, hx]

theorem ends_of_error {e : ε} {s' : σ} (hx : x s = .error e s') : Ends ret exc x s ↔ exc e s' := by
  rw [Ends, hx]

theorem ends_congr {y : EStateM ε σ α} {s' : σ} (h : x s = y s') :
    Ends ret exc x s ↔ Ends ret exc y s' := by
  unfold Ends
  rw [h]

theorem Ends.mono {ret' : α → σ → Prop} {exc' : ε → σ → Prop} (h : Ends ret exc x s)
    (hret : ∀ a s', ret a s' → ret' a s') (hexc : ∀ e s', exc e s' → exc' e s') :
    Ends ret' exc' x s := by
  rcases hx : x s with ⟨a, s'⟩ | ⟨e, s'⟩
  · exact (ends_of_ok hx).2 (hret a s' ((ends_of_ok hx).1 h))
  · exact (ends_of_error hx).2 (hexc e s' ((ends_of_error hx).1 h))

theorem ends_never_raises {ret : α → σ → Prop} :
    Ends ret (fun _ _ => False) x s ↔ ∃ a s', x s = .ok a s' ∧ ret a s' := by
  constructor
  · intro h
    rcases hx : x s with ⟨a, s'⟩ | ⟨e, s'⟩
    · exact ⟨a, s', rfl, (ends_of_ok hx).1 h⟩
    · exact ((ends_of_error hx).1 h).elim
  · rintro ⟨a, s', hx, h⟩
    exact (ends_of_ok hx).2 h

instance [∀ a s', Decidable (ret a s')] [∀ e s', Decidable (exc e s')] :
    Decidable (Ends ret exc x s) :=
  match hx : x s with
  | .ok a s' => decidable_of_iff (ret a s') (ends_of_ok hx).symm
  | .error e s' => decidable_of_iff (exc e s') (ends_of_error hx).symm

theorem bind_of_ok {f : α → EStateM ε σ β} {a : α} {s' : σ} (hx : x s = .ok a s') :
    (x >>= f) s = f a s' := by
  show EStateM.bind x f s = f a s'
  rw [EStateM.bind, hx]

theorem bind_of_error {f : α → EStateM ε σ β} {e : ε} {s' : σ} (hx : x s = .error e s') :
    (x >>= f) s = .error e s' := by
  show EStateM.bind x f s = .error e s'
  rw [EStateM.bind, hx]

theorem bind_eq_ok {f : α → EStateM ε σ β} {b : β} {s'' : σ} (h : (x >>= f) s = .ok b s'') :
    ∃ a s', x s = .ok a s' ∧ f a s' = .ok b s'' := by
  rcases hx : x s with ⟨a, s'⟩ | ⟨e, s'⟩
  · exact ⟨a, s', rfl, (bind_of_ok hx).symm.trans h⟩
  · cases (bind_of_error hx).symm.trans h

theorem map_of_ok (f : α → β) {a : α} {s' : σ} (hx : x s = .ok a s') :
    (f <$> x) s = .ok (f a) s' := by
  show EStateM.map f x s = .ok (f a) s'
  rw [EStateM.map, hx]

theorem map_of_error (f : α → β) {e : ε} {s' : σ} (hx : x s = .error e s') :
    (f <$> x) s = .error e s' := by
  show EStateM.map f x s = .error e s'
  rw [EStateM.map, hx]

theorem bind_get (f : σ → EStateM ε σ β) (s : σ) : (get >>= f) s = f s s := rfl

/-- **The rule of sequencing.** -/
theorem ends_bind {ret : β → σ → Prop} {f : α → EStateM ε σ β} :
    Ends ret exc (x >>= f) s ↔ Ends (fun a s' => Ends ret exc (f a) s') exc x s := by
  rcases hx : x s with ⟨a, s'⟩ | ⟨e, s'⟩
  · rw [ends_of_ok hx, Ends, Ends, bind_of_ok hx]
  · rw [ends_of_error hx, Ends, bind_of_error hx]

theorem tryCatch_of_ok {handle : ε → EStateM ε σ α} {a : α} {s' : σ} (hx : x s = .ok a s') :
    (tryCatch x handle) s = .ok a s' := by
  show EStateM.tryCatch x handle s = .ok a s'
  rw [EStateM.tryCatch, hx]

/-- The handler starts in the state in which the computation has raised. -/
theorem tryCatch_of_error {handle : ε → EStateM ε σ α} {e : ε} {s' : σ} (hx : x s = .error e s') :
    (tryCatch x handle) s = handle e s' := by
  show EStateM.tryCatch x handle s = handle e s'
  rw [EStateM.tryCatch, hx]
  rfl

/-- The first of two computations never raises. -/
theorem ends_bind_of {ret' : β → σ → Prop} {f : α → EStateM ε σ β}
    (hx : Ends ret (fun _ _ => False) x s) (hf : ∀ a s', ret a s' → Ends ret' exc (f a) s') :
    Ends ret' exc (x >>= f) s :=
  ends_bind.2 (hx.mono hf fun _ _ => False.elim)

/-- **The rule of repetition**: one computation for each element of a list, with an invariant on what
is behind. -/
theorem ends_forM {xs : List β} {f : β → EStateM ε σ PUnit} (Inv : List β → σ → Prop)
    (hstep : ∀ past b s', past ++ [b] <+: xs → Inv past s' →
      Ends (fun _ s'' => Inv (past ++ [b]) s'') exc (f b) s')
    (h : Inv [] s) : Ends (fun _ s' => Inv xs s') exc (xs.forM f) s := by
  suffices hfrom : ∀ (rest past : List β) (s' : σ), past ++ rest = xs → Inv past s' →
      Ends (fun _ s'' => Inv xs s'') exc (rest.forM f) s' from hfrom xs [] s rfl h
  intro rest
  induction rest with
  | nil =>
      intro past s' heq hpast
      rw [List.append_nil] at heq
      exact heq ▸ hpast
  | cons b rest ih =>
      intro past s' heq hpast
      have hsplit : past ++ [b] ++ rest = xs := by rw [List.append_assoc]; exact heq
      exact ends_bind.2 ((hstep past b s' ⟨rest, hsplit⟩ hpast).mono
        (fun _ s'' hnext => ih (past ++ [b]) s'' hsplit hnext) fun _ _ herror => herror)

/-! ### Trying again -/

/-- The computation, and where it raises something that allows it the computation again, at most so
many more times. -/
def retry (retryable : ε → Bool) (x : EStateM ε σ α) : ℕ → σ → EStateM.Result ε σ α
  | 0, s => x s
  | retries + 1, s =>
      match x s with
      | .ok a s' => .ok a s'
      | .error e s' => if retryable e then retry retryable x retries s' else .error e s'

variable {retryable : ε → Bool}

theorem retry_of_ok (retries : ℕ) {a : α} {s' : σ} (hx : x s = .ok a s') :
    retry retryable x retries s = .ok a s' := by
  cases retries with
  | zero => exact hx
  | succ retries => rw [retry, hx]

theorem retry_again (retries : ℕ) {e : ε} {s' : σ} (hx : x s = .error e s')
    (hretry : retryable e = true) :
    retry retryable x (retries + 1) s = retry retryable x retries s' := by
  rw [retry, hx]
  exact if_pos hretry

theorem retry_of_final (retries : ℕ) {e : ε} {s' : σ} (hx : x s = .error e s')
    (hretry : ¬ retryable e = true) : retry retryable x retries s = .error e s' := by
  cases retries with
  | zero => exact hx
  | succ retries =>
      rw [retry, hx]
      exact if_neg hretry

/-- **The rule of trying again**: the invariant holds before every attempt. -/
theorem ends_retry (Inv : σ → Prop)
    (hattempt : ∀ s, Inv s → Ends ret (fun e s' => exc e s' ∧ (retryable e = true → Inv s')) x s)
    (h : Inv s) (retries : ℕ) : Ends ret exc (retry retryable x retries) s := by
  induction retries generalizing s with
  | zero => exact (hattempt s h).mono (fun _ _ hret => hret) fun _ _ herror => herror.1
  | succ retries ih =>
      have hfirst := hattempt s h
      rcases hx : x s with ⟨a, s'⟩ | ⟨e, s'⟩
      · exact (ends_of_ok (retry_of_ok _ hx)).2 ((ends_of_ok hx).1 hfirst)
      · rw [ends_of_error hx] at hfirst
        by_cases hretry : retryable e = true
        · exact (ends_congr (retry_again _ hx hretry)).2 (ih (hfirst.2 hretry))
        · exact (ends_of_error (retry_of_final _ hx hretry)).2 hfirst.1

/-- What follows a computation and raises nothing that allows another attempt is not part of what is
tried again. -/
theorem retry_bind {f : α → EStateM ε σ β}
    (hfinal : ∀ a s e s', f a s = .error e s' → ¬ retryable e = true) (retries : ℕ) (s : σ) :
    retry retryable (x >>= f) retries s
      = ((retry retryable x retries : EStateM ε σ α) >>= f) s := by
  induction retries generalizing s with
  | zero => rfl
  | succ retries ih =>
      rcases hx : x s with ⟨a, s'⟩ | ⟨e, s'⟩
      · rw [bind_of_ok (retry_of_ok _ hx)]
        rcases hf : f a s' with ⟨b, s''⟩ | ⟨e, s''⟩
        · exact retry_of_ok _ ((bind_of_ok hx).trans hf)
        · exact retry_of_final _ ((bind_of_ok hx).trans hf) (hfinal a s' e s'' hf)
      · by_cases hretry : retryable e = true
        · rw [retry_again _ (bind_of_error hx) hretry, ih]
          rcases hrest : retry retryable x retries s' with ⟨a, s''⟩ | ⟨e', s''⟩
          · rw [bind_of_ok hrest, bind_of_ok ((retry_again _ hx hretry).trans hrest)]
          · rw [bind_of_error hrest, bind_of_error ((retry_again _ hx hretry).trans hrest)]
        · rw [bind_of_error (retry_of_final _ hx hretry),
            retry_of_final _ (bind_of_error hx) hretry]

/-! ### Invariants

What holds before a computation and after it, whether it returns or raises. -/

/-- The computation keeps the invariant. -/
def Keeps (Inv : σ → Prop) (x : EStateM ε σ α) : Prop :=
  ∀ s, Inv s → Ends (fun _ s' => Inv s') (fun _ s' => Inv s') x s

variable {Inv : σ → Prop}

theorem keeps_pure (a : α) : Keeps Inv (pure a : EStateM ε σ α) := fun _ h => h

theorem keeps_throw (e : ε) : Keeps Inv (throw e : EStateM ε σ α) := fun _ h => h

theorem Keeps.bind {f : α → EStateM ε σ β} (hx : Keeps Inv x) (hf : ∀ a, Keeps Inv (f a)) :
    Keeps Inv (x >>= f) := by
  intro s h
  exact ends_bind.2 ((hx s h).mono (fun a s' => hf a s') fun _ _ herror => herror)

theorem Keeps.forM {xs : List β} {f : β → EStateM ε σ PUnit} (hf : ∀ b, Keeps Inv (f b)) :
    Keeps Inv (xs.forM f) := by
  intro s h
  exact ends_forM (fun _ => Inv) (fun _ b s' _ hs' => hf b s' hs') h

theorem Keeps.retry (hx : Keeps Inv x) (retries : ℕ) : Keeps Inv (retry retryable x retries) := by
  intro s h
  apply ends_retry Inv _ h
  exact fun s' hs' => (hx s' hs').mono (fun _ _ hret => hret) fun _ _ herror =>
    ⟨herror, fun _ => herror⟩

end Lib
