-- SUMMARY: Finite runs of a labelled transition system, with the rules for invariants and simulations over them.
import Mathlib.Algebra.GroupWithZero.Nat
import Mathlib.Data.List.Basic
import DeadMansVault.Library.Guard

/-!
# Traces

A `Trace R s es s'` is a finite run of the step relation `R` from `s` to `s'`
whose steps carry the labels `es`, in order. Every statement about whole runs is
proved through one of the two induction rules below: `Trace.preserves` for an
invariant of states, and `Trace.preserves_history` for a property that relates
the current state to the labels seen so far.
-/

variable {σ τ ε δ : Type*}

inductive Trace (R : σ → ε → σ → Prop) : σ → List ε → σ → Prop
  | nil (s : σ) : Trace R s [] s
  | cons {s s' s'' : σ} {e : ε} {es : List ε} :
      R s e s' → Trace R s' es s'' → Trace R s (e :: es) s''

namespace Trace

variable {R R' : σ → ε → σ → Prop} {s s' s'' : σ} {e : ε} {es es' : List ε}

theorem single (h : R s e s') : Trace R s [e] s' :=
  .cons h (.nil s')

theorem append (h : Trace R s es s') (h' : Trace R s' es' s'') :
    Trace R s (es ++ es') s'' := by
  induction h with
  | nil s => exact h'
  | cons hstep _ ih => exact .cons hstep (ih h')

theorem snoc (h : Trace R s es s') (h' : R s' e s'') : Trace R s (es ++ [e]) s'' :=
  h.append (single h')

@[simp] theorem nil_iff : Trace R s [] s' ↔ s = s' := by
  constructor
  · intro h
    cases h
    rfl
  · rintro rfl
    exact .nil s

@[simp] theorem cons_iff :
    Trace R s (e :: es) s'' ↔ ∃ s', R s e s' ∧ Trace R s' es s'' := by
  constructor
  · intro h
    cases h with
    | cons hstep hrest => exact ⟨_, hstep, hrest⟩
  · rintro ⟨s', hstep, hrest⟩
    exact .cons hstep hrest

theorem mono (hR : ∀ s e s', R s e s' → R' s e s') (h : Trace R s es s') :
    Trace R' s es s' := by
  induction h with
  | nil s => exact .nil s
  | cons hstep _ ih => exact .cons (hR _ _ _ hstep) ih

/-- A property of states that every step preserves holds at the end of every run
    that starts in it. -/
theorem preserves {P : σ → Prop} (hP : ∀ s e s', P s → R s e s' → P s')
    (h : Trace R s es s') (hs : P s) : P s' := by
  induction h with
  | nil s => exact hs
  | cons hstep _ ih => exact ih (hP _ _ _ hs hstep)

/-- As `preserves`, for a property that also looks at the labels seen so far. -/
theorem preserves_history {P : List ε → σ → Prop}
    (hP : ∀ es s e s', P es s → R s e s' → P (es ++ [e]) s')
    (h : Trace R s es s') (hs : P [] s) : P es s' := by
  -- Generalise the empty history, so that the induction can move along the run.
  have key : ∀ pre, P pre s → P (pre ++ es) s' := by
    clear hs
    induction h with
    | nil s => intro pre hpre; simpa using hpre
    | @cons s s₁ s₂ e es hstep _ ih =>
        intro pre hpre
        simpa using ih (pre ++ [e]) (hP pre s e s₁ hpre hstep)
  simpa using key [] hs

/-- An invariant of the states may be assumed at every step of a run. -/
theorem strengthen {P : σ → Prop} (hP : ∀ s e s', P s → R s e s' → P s')
    (h : Trace R s es s') (hs : P s) :
    Trace (fun s e s' => R s e s' ∧ P s ∧ P s') s es s' := by
  induction h with
  | nil s => exact .nil s
  | cons hstep _ ih =>
      have hnext := hP _ _ _ hs hstep
      exact .cons ⟨hstep, hs, hnext⟩ (ih hnext)

/-- A side condition on the labels of a run may be assumed at every step. -/
theorem restrict {Q : ε → Prop} (h : Trace R s es s') (hQ : ∀ e ∈ es, Q e) :
    Trace (fun s e s' => R s e s' ∧ Q e) s es s' := by
  induction h with
  | nil s => exact .nil s
  | @cons s s₁ s₂ e es hstep _ ih =>
      refine .cons ⟨hstep, hQ e (by simp)⟩ (ih fun e' he' => hQ e' ?_)
      exact List.mem_cons_of_mem e he'

/-- When every step of one system is matched by a run of another, so is every
    run; `match_` relates a label to the labels that answer it. -/
theorem simulate {T : τ → δ → τ → Prop} {f : σ → τ} {match_ : ε → List δ → Prop}
    (hstep : ∀ s e s', R s e s' → ∃ ds, Trace T (f s) ds (f s') ∧ match_ e ds)
    (h : Trace R s es s') :
    ∃ dss : List (List δ), List.Forall₂ match_ es dss ∧
      Trace T (f s) dss.flatten (f s') := by
  induction h with
  | nil s => exact ⟨[], .nil, .nil _⟩
  | cons hs _ ih =>
      obtain ⟨ds, hds, hm⟩ := hstep _ _ _ hs
      obtain ⟨dss, hmatch, hrun⟩ := ih
      exact ⟨ds :: dss, .cons hm hmatch, by simpa using hds.append hrun⟩

/-- As `simulate`, for two systems whose labels produce the same output. -/
theorem simulate_output {γ : Type*} {T : τ → δ → τ → Prop} {f : σ → τ} {out : ε → List γ}
    {out' : δ → List γ} {Q : δ → Prop}
    (hstep : ∀ s e s', R s e s' →
      ∃ ds, Trace T (f s) ds (f s') ∧ out e = ds.flatMap out' ∧ ∀ d ∈ ds, Q d)
    (h : Trace R s es s') :
    ∃ ds, Trace T (f s) ds (f s') ∧ es.flatMap out = ds.flatMap out' ∧ ∀ d ∈ ds, Q d := by
  induction h with
  | nil s => exact ⟨[], .nil _, rfl, by simp⟩
  | cons hs _ ih =>
      obtain ⟨ds, hds, hout, hq⟩ := hstep _ _ _ hs
      obtain ⟨ds', hrun, hout', hq'⟩ := ih
      refine ⟨ds ++ ds', hds.append hrun, by simp [hout, hout'], fun d hd => ?_⟩
      exact (List.mem_append.mp hd).elim (hq d) (hq' d)

/-- Each label of a run is one of its steps, with a run before and a run after it. -/
theorem mem_split (h : Trace R s es s') (he : e ∈ es) :
    ∃ t t' pre post, es = pre ++ e :: post ∧ Trace R s pre t ∧ R t e t' ∧ Trace R t' post s' := by
  induction h with
  | nil s => cases he
  | @cons s s₁ s₂ e₁ es hstep hrest ih =>
      rcases List.mem_cons.mp he with rfl | he
      · exact ⟨s, s₁, [], es, rfl, .nil s, hstep, hrest⟩
      · obtain ⟨t, t', pre, post, rfl, hpre, hone, hpost⟩ := ih he
        exact ⟨t, t', e₁ :: pre, post, rfl, .cons hstep hpre, hone, hpost⟩

/-- What holds at the end of a run but not at its start came to hold at one of its steps,
    and has held ever since. -/
theorem since {P : σ → Prop} (h : Trace R s es s') (hs : ¬ P s) (hs' : P s') :
    ∃ t t' pre post e, es = pre ++ e :: post ∧ Trace R s pre t ∧ R t e t' ∧ ¬ P t ∧ P t' ∧
      Trace (fun s e s' => R s e s' ∧ P s ∧ P s') t' post s' := by
  -- Either it has held all along, or there is such a step.
  have key : Trace (fun s e s' => R s e s' ∧ P s ∧ P s') s es s' ∧ P s ∨
      ∃ t t' pre post e, es = pre ++ e :: post ∧ Trace R s pre t ∧ R t e t' ∧ ¬ P t ∧ P t' ∧
        Trace (fun s e s' => R s e s' ∧ P s ∧ P s') t' post s' := by
    clear hs
    induction h with
    | nil s => exact .inl ⟨.nil s, hs'⟩
    | @cons s s₁ s₂ e es hstep _ ih =>
        rcases ih hs' with ⟨hrest, h₁⟩ | ⟨t, t', pre, post, e', rfl, hpre, hone, ht, ht', hpost⟩
        · by_cases hs : P s
          · exact .inl ⟨.cons ⟨hstep, hs, h₁⟩ hrest, hs⟩
          · exact .inr ⟨s, s₁, [], es, e, rfl, .nil s, hstep, hs, h₁, hrest⟩
        · exact .inr ⟨t, t', e :: pre, post, e', rfl, .cons hstep hpre, hone, ht, ht', hpost⟩
  exact key.resolve_left fun hall => hs hall.2

end Trace

/-- A loop in `Except` succeeds exactly when its turns do, one after the other. -/
theorem foldlM_eq_ok {ε' : Type*} {f : σ → ε → Except ε' σ} {s s' : σ} {es : List ε} :
    es.foldlM f s = .ok s' ↔ Trace (fun s e s' => f s e = .ok s') s es s' := by
  induction es generalizing s with
  | nil => simp
  | cons e es ih => simp [ih]

/-- A loop whose turns never fail with `e` while an invariant holds does not
    either. -/
theorem foldlM_ne_error {ε' : Type*} {f : σ → ε → Except ε' σ} {P : σ → Prop} {e : ε'} {s : σ}
    {es : List ε} (hP : ∀ s x s', P s → f s x = .ok s' → P s')
    (hne : ∀ s x, P s → f s x ≠ .error e) (hs : P s) : es.foldlM f s ≠ .error e := by
  induction es generalizing s with
  | nil => exact nofun
  | cons x es ih =>
      rw [List.foldlM_cons]
      intro h
      rcases Except.bind_eq_error.mp h with h | ⟨s', h, h'⟩
      · exact hne s x hs h
      · exact ih (hP s x s' hs h) h'
