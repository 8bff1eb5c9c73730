import Mathlib.Data.List.Basic

/-!
# Loops that leave a trace

A loop body that emits events and either goes round again or stops with a result, run with a bound on
its rounds. An invariant speaks of the events so far and of the state at the head; what every way of
leaving the loop establishes then holds of the whole trace. Nothing here is about a program.
-/

namespace Lib

/-- How one round of a loop ends. -/
inductive Round (S R : Type*) where
  | next (s : S)
  | stop (r : R)

variable {S E R : Type*}

theorem Round.stop_ne_next {r : R} {s : S} : Round.stop r ≠ .next s := nofun

/-- At most `fuel` rounds from a state: the events, and the result if the loop stopped. -/
def runLoop (body : S → List E × Round S R) : ℕ → S → List E × Option R
  | 0, _ => ([], none)
  | fuel + 1, s =>
      match body s with
      | (events, .stop r) => (events, some r)
      | (events, .next s') => (events ++ (runLoop body fuel s').1, (runLoop body fuel s').2)

/-- The loop comes from the one state to the other. -/
inductive Reaches (body : S → List E × Round S R) (s : S) : S → Prop
  | refl : Reaches body s s
  | next {s' s'' : S} (hreaches : Reaches body s s') (hnext : (body s').2 = .next s'') :
      Reaches body s s''

/-- From every state it comes to, a loop stops with the result it stops with. -/
theorem runLoop_of_reaches {body : S → List E × Round S R} {s s' : S} (h : Reaches body s s')
    {fuel : ℕ} {r : R} (hr : (runLoop body fuel s).2 = some r) :
    ∃ rest, (runLoop body rest s').2 = some r := by
  induction h with
  | refl => exact ⟨fuel, hr⟩
  | @next s' s'' _ hnext ih =>
      obtain ⟨rest, hrest⟩ := ih
      cases rest with
      | zero => cases hrest
      | succ rest =>
          refine ⟨rest, ?_⟩
          rcases hbody : body s' with ⟨events, round⟩
          obtain rfl : round = .next s'' := by rw [← hnext, hbody]
          simpa only [runLoop, hbody] using hrest

/-- **The invariant rule.** Every round keeps the invariant or leaves the loop with what is asked
for. -/
theorem runLoop_induction (body : S → List E × Round S R) (Inv : List E → S → Prop)
    (Post : List E → R → Prop)
    (hnext : ∀ past s events s', Inv past s → body s = (events, .next s') →
      Inv (past ++ events) s')
    (hstop : ∀ past s events r, Inv past s → body s = (events, .stop r) →
      Post (past ++ events) r)
    {fuel : ℕ} {past : List E} {s : S} (h : Inv past s) {r : R}
    (hr : (runLoop body fuel s).2 = some r) : Post (past ++ (runLoop body fuel s).1) r := by
  induction fuel generalizing past s with
  | zero => cases hr
  | succ fuel ih =>
      rcases hbody : body s with ⟨events, s' | r'⟩
      · simp only [runLoop, hbody] at hr ⊢
        rw [← List.append_assoc]
        exact ih (hnext past s events s' h hbody) hr
      · simp only [runLoop, hbody, Option.some.injEq] at hr ⊢
        exact hr ▸ hstop past s events r' h hbody

/-- A loop whose rounds lower a measure stops before the measure does. -/
theorem runLoop_isSome (body : S → List E × Round S R) (measure : S → ℕ)
    (hdecrease : ∀ s events s', body s = (events, .next s') → measure s' < measure s)
    {s : S} (fuel : ℕ) (hfuel : measure s < fuel) : ∃ r, (runLoop body fuel s).2 = some r := by
  induction fuel generalizing s with
  | zero => exact absurd hfuel (Nat.not_lt_zero _)
  | succ fuel ih =>
      rcases hbody : body s with ⟨events, s' | r⟩
      · have hless := hdecrease s events s' hbody
        simp only [runLoop, hbody]
        exact ih (by omega)
      · exact ⟨r, by simp only [runLoop, hbody]⟩

/-- **The rule for loops that end**: the two rules together, from the first round on. -/
theorem runLoop_ends (body : S → List E × Round S R) (measure : S → ℕ)
    (hdecrease : ∀ s events s', body s = (events, .next s') → measure s' < measure s)
    (Inv : List E → S → Prop) (Post : List E → R → Prop)
    (hnext : ∀ past s events s', Inv past s → body s = (events, .next s') →
      Inv (past ++ events) s')
    (hstop : ∀ past s events r, Inv past s → body s = (events, .stop r) →
      Post (past ++ events) r)
    {s : S} (h : Inv [] s) (fuel : ℕ) (hfuel : measure s < fuel) :
    ∃ r, (runLoop body fuel s).2 = some r ∧ Post (runLoop body fuel s).1 r := by
  obtain ⟨r, hr⟩ := runLoop_isSome body measure hdecrease fuel hfuel
  have hpost := runLoop_induction body Inv Post hnext hstop h hr
  rw [List.nil_append] at hpost
  exact ⟨r, hr, hpost⟩

end Lib
