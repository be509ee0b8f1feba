-- SUMMARY: Runs of a deterministic machine that answers each input with outputs, and their induction rule.
import Mathlib.Data.List.Basic

/-!
# Machines

A machine answers an input with its next state and some outputs. `Machine.run` and
`Machine.outputs` are what a list of inputs leads to; `Machine.Along` says that a
condition on state and input holds at every step of that run.
-/

variable {σ ι ο : Type*}

/-- A state and an input give the next state and the outputs. -/
abbrev Machine (σ ι ο : Type*) := σ → ι → σ × List ο

namespace Machine

def run (step : Machine σ ι ο) (s : σ) : List ι → σ
  | [] => s
  | i :: is => run step (step s i).1 is

def outputs (step : Machine σ ι ο) (s : σ) : List ι → List ο
  | [] => []
  | i :: is => (step s i).2 ++ outputs step (step s i).1 is

def Along (step : Machine σ ι ο) (Q : σ → ι → Prop) (s : σ) : List ι → Prop
  | [] => True
  | i :: is => Q s i ∧ Along step Q (step s i).1 is

instance Along.decidable (step : Machine σ ι ο) (Q : σ → ι → Prop) [∀ s i, Decidable (Q s i)] :
    ∀ s is, Decidable (Along step Q s is)
  | _, [] => .isTrue trivial
  | s, i :: is => @instDecidableAnd _ _ _ (decidable step Q (step s i).1 is)

variable {step : Machine σ ι ο} {Q Q' : σ → ι → Prop} {s : σ} {is : List ι}

theorem run_append (step : Machine σ ι ο) (s : σ) (is is' : List ι) :
    run step s (is ++ is') = run step (run step s is) is' := by
  induction is generalizing s with
  | nil => rfl
  | cons i is ih => exact ih (step s i).1

theorem outputs_append (step : Machine σ ι ο) (s : σ) (is is' : List ι) :
    outputs step s (is ++ is') = outputs step s is ++ outputs step (run step s is) is' := by
  induction is generalizing s with
  | nil => rfl
  | cons i is ih =>
      rw [List.cons_append, outputs, outputs, ih, List.append_assoc]
      rfl

/-- What every step of a run preserves, along with the outputs so far, holds at its end. -/
theorem preserves {P : List ο → σ → Prop}
    (hstep : ∀ os s i, P os s → Q s i → P (os ++ (step s i).2) (step s i).1)
    (halong : Along step Q s is) (hstart : P [] s) :
    P (outputs step s is) (run step s is) := by
  -- Generalise the empty list of outputs, so that the induction can move along the run.
  have key : ∀ os, P os s → P (os ++ outputs step s is) (run step s is) := by
    clear hstart
    induction is generalizing s with
    | nil =>
        intro os hos
        rwa [outputs, List.append_nil]
    | cons i is ih =>
        intro os hos
        have hrest := ih halong.2 (os ++ (step s i).2) (hstep os s i hos halong.1)
        rwa [List.append_assoc] at hrest
  exact key [] hstart

/-- The condition holds at a step, wherever it stands in the run. -/
theorem Along.at_step {i : ι} {is' : List ι} (h : Along step Q s (is ++ i :: is')) :
    Q (run step s is) i := by
  induction is generalizing s with
  | nil => exact h.1
  | cons j is ih => exact ih h.2

theorem Along.of_append {is' : List ι} (h : Along step Q s (is ++ is')) : Along step Q s is := by
  induction is generalizing s with
  | nil => trivial
  | cons i is ih => exact ⟨h.1, ih h.2⟩

/-- A condition holds along a run if it does at each of its steps. -/
theorem along_of_at_step (h : ∀ is₁ i is₂, is = is₁ ++ i :: is₂ → Q (run step s is₁) i) :
    Along step Q s is := by
  induction is generalizing s with
  | nil => trivial
  | cons i is ih =>
      refine ⟨h [] i is rfl, ih fun is₁ j is₂ heq => ?_⟩
      exact h (i :: is₁) j is₂ (congrArg (i :: ·) heq)

theorem along_true : Along step (fun _ _ => True) s is := by
  induction is generalizing s with
  | nil => trivial
  | cons i is ih => exact ⟨trivial, ih⟩

theorem Along.mono (hQ : ∀ s i, Q s i → Q' s i) (h : Along step Q s is) : Along step Q' s is := by
  induction is generalizing s with
  | nil => trivial
  | cons i is ih => exact ⟨hQ s i h.1, ih h.2⟩

theorem Along.and (h : Along step Q s is) (h' : Along step Q' s is) :
    Along step (fun s i => Q s i ∧ Q' s i) s is := by
  induction is generalizing s with
  | nil => trivial
  | cons i is ih => exact ⟨⟨h.1, h'.1⟩, ih h.2 h'.2⟩

/-- Machines whose related states answer every input alike, and go to related states, answer
    every run alike. -/
theorem simulate {τ : Type*} {step' : Machine τ ι ο} {R : σ → τ → Prop}
    (hstep : ∀ s t i, R s t → (step s i).2 = (step' t i).2 ∧ R (step s i).1 (step' t i).1)
    {t : τ} (h : R s t) (is : List ι) :
    outputs step s is = outputs step' t is ∧ R (run step s is) (run step' t is) := by
  induction is generalizing s t with
  | nil => exact ⟨rfl, h⟩
  | cons i is ih =>
      obtain ⟨hout, hnext⟩ := hstep s t i h
      obtain ⟨houts, hend⟩ := ih hnext
      refine ⟨?_, hend⟩
      rw [outputs, outputs, hout, houts]

theorem along_congr (hQ : ∀ s i, Q s i ↔ Q' s i) : Along step Q s is ↔ Along step Q' s is :=
  ⟨.mono fun s i => (hQ s i).mp, .mono fun s i => (hQ s i).mpr⟩

end Machine
