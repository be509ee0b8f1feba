-- SUMMARY: Journals of what has happened, the rules that each entry is judged by, and the latest entry of a kind.
import Mathlib.Data.List.Basic

/-!
# Journals

A journal lists what has happened, and is only ever written at its end. A rule says which
entries are in order, given those before them.
-/

namespace Journal

variable {ε : Type*} {rule rule' : List ε → ε → Prop} {kind : ε → Prop} {es before since : List ε}
  {e x : ε}

/-! ## Rules -/

/-- Every entry is in order by the rule. -/
def Clean (rule : List ε → ε → Prop) (es : List ε) : Prop :=
  ∀ pre e post, es = pre ++ e :: post → rule pre e

theorem Clean.nil : Clean rule [] := by
  intro pre e post h
  cases pre <;> cases h

theorem Clean.snoc (h : Clean rule es) (hx : rule es x) : Clean rule (es ++ [x]) := by
  intro pre e post heq
  rcases List.append_eq_append_iff.mp heq with ⟨mid, hpre, hrest⟩ | ⟨mid, hes, hrest⟩
  · cases mid with
    | nil =>
        obtain ⟨rfl, -⟩ := List.cons.inj hrest
        rwa [hpre, List.append_nil]
    | cons y mid => simp at hrest
  · cases mid with
    | nil =>
        obtain ⟨rfl, -⟩ := List.cons.inj hrest
        rw [List.append_nil] at hes
        exact hes ▸ hx
    | cons y mid =>
        obtain ⟨rfl, -⟩ := List.cons.inj hrest
        exact h pre e mid hes

/-! ## The latest entry of a kind -/

/-- `e` is the latest entry of the kind, between these. -/
structure Latest (kind : ε → Prop) (es before : List ε) (e : ε) (since : List ε) : Prop where
  split : es = before ++ e :: since
  is_kind : kind e
  rest : ∀ x ∈ since, ¬ kind x

theorem Latest.self (h : kind e) : Latest kind (es ++ [e]) es e [] where
  split := rfl
  is_kind := h
  rest _ hx := absurd hx List.not_mem_nil

theorem Latest.snoc (h : Latest kind es before e since) (hx : ¬ kind x) :
    Latest kind (es ++ [x]) before e (since ++ [x]) where
  split := by rw [h.split, List.append_assoc, List.cons_append]
  is_kind := h.is_kind
  rest y hy := by
    rcases List.mem_append.mp hy with hy | hy
    · exact h.rest y hy
    · rwa [List.mem_singleton.mp hy]

end Journal
