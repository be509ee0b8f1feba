-- SUMMARY: Which deeds mark which bits of the masks.
import DeadMansVault.Estate.Obstruction

/-!
# Marks

A bit of a mask is set by the payment that it stands for, and by nothing else.
-/

namespace DeadMansVault

namespace Estate

variable {c : Cluster} {o : Pubkey} {E E' : Estate}

/-! ## The bits of a step -/

/-- A bit of the plan was set before, or its bequest is paid just now. -/
theorem Step.planBits_marked {a : Act} (h : Step c o E a E') (hliving : a.deed.living = false)
    {j : Nat} (hbit : Bitmask.test E'.planBits j = true) :
    Bitmask.test E.planBits j = true ∨ ∃ x, E.assignments[j]? = some x ∧
      (a.deed = .specificAsset x.mint j ∨ a.deed = .specificSol j ∧ x.mint = .default) := by
  cases h with
  | create | amend | withdraw | revoke | closeRevoked => cases hliving
  | @specificAsset v l p d m _ k y b _ _ hp _ hy hmint =>
      simp only [planBits, assignments, hp, Option.elim_some] at hbit ⊢
      by_cases hj : j = k
      · subst hj
        exact .inr ⟨y, hy, .inl (by rw [hmint])⟩
      · rw [Bitmask.test_mark_of_ne hj] at hbit
        exact .inl hbit
  | @specificSol v l p k y b _ _ hp hy hmint =>
      simp only [planBits, assignments, hp, Option.elim_some] at hbit ⊢
      by_cases hj : j = k
      · subst hj
        exact .inr ⟨y, hy, .inr ⟨rfl, hmint⟩⟩
      · rw [Bitmask.test_mark_of_ne hj] at hbit
        exact .inl hbit
  | @close v l _ _ _ _ _ _ _ _ =>
      simp only [planBits] at hbit ⊢
      split at hbit
      · simp at hbit
      · exact .inl hbit
  | _ => exact .inl hbit

/-- So it is with the bits of the shares. -/
theorem Step.shareBits_marked {a : Act} (h : Step c o E a E') (hliving : a.deed.living = false)
    {i : Nat} (hbit : Bitmask.test E'.shareBits i = true) :
    Bitmask.test E.shareBits i = true ∨ a.deed = .solShare i := by
  cases h with
  | create | amend | withdraw | revoke | closeRevoked => cases hliving
  | begin => simp [shareBits] at hbit
  | @solShare v l k _ _ b _ _ hl =>
      simp only [shareBits, hl, Option.elim_some] at hbit ⊢
      by_cases hi : i = k
      · exact .inr (by rw [hi])
      · rw [Bitmask.test_mark_of_ne hi] at hbit
        exact .inl hbit
  | finalize _ hl =>
      simp only [shareBits, hl, Option.elim_some] at hbit ⊢
      exact .inl hbit
  | close => simp [shareBits] at hbit
  | _ => exact .inl hbit

/-! ## The bits of a run -/

theorem distributes_not_living {d : Deed} (hd : d.distributes = true) : d.living = false := by
  cases d <;> first | rfl | cases hd

/-- Over a run of a distribution the bits that get set are those of its payments. -/
theorem marked_run (hE : Lawful c o E) (hdue : E.Due) {acts : List Act}
    (h : Trace (Step c o) E acts E') (hdist : ∀ a ∈ acts, a.deed.distributes = true) :
    (∀ j, Bitmask.test E'.planBits j = true → Bitmask.test E.planBits j = true ∨
      ∃ x, E.assignments[j]? = some x ∧ ∃ a ∈ acts,
        (a.deed = .specificAsset x.mint j ∨ a.deed = .specificSol j ∧ x.mint = .default)) ∧
    ∀ i, Bitmask.test E'.shareBits i = true →
      Bitmask.test E.shareBits i = true ∨ ∃ a ∈ acts, a.deed = .solShare i := by
  have hrun := (h.restrict hdist).preserves_history
    (P := fun past F => (Lawful c o F ∧ Proceeds E F) ∧
      (∀ j, Bitmask.test F.planBits j = true → Bitmask.test E.planBits j = true ∨
        ∃ x, E.assignments[j]? = some x ∧ ∃ a ∈ past,
          (a.deed = .specificAsset x.mint j ∨ a.deed = .specificSol j ∧ x.mint = .default)) ∧
      ∀ i, Bitmask.test F.shareBits i = true →
        Bitmask.test E.shareBits i = true ∨ ∃ a ∈ past, a.deed = .solShare i)
    (fun past F a F' hpast hstep => ?_) ⟨⟨hE, .refl E⟩, fun _ h => .inl h, fun _ h => .inl h⟩
  · exact hrun.2
  · obtain ⟨⟨hF, hproceeds⟩, hplan, hshare⟩ := hpast
    have hclose := Step.distributes_ne_close hstep.2
    have hliving := distributes_not_living hstep.2
    refine ⟨⟨hF.step hstep.1, hproceeds.trans ((hproceeds.due hdue).proceeds hF hstep.1 hclose)⟩,
      fun j hbit => ?_, fun i hbit => ?_⟩
    · rcases hstep.1.planBits_marked hliving hbit with hbefore | ⟨x, hx, hdeed⟩
      · refine (hplan j hbefore).imp_right ?_
        rintro ⟨x, hx, b, hb, hdeed⟩
        exact ⟨x, hx, b, List.mem_append_left _ hb, hdeed⟩
      · rw [hproceeds.assignments_eq] at hx
        exact .inr ⟨x, hx, a, List.mem_append_right _ (List.mem_singleton_self a), hdeed⟩
    · rcases hstep.1.shareBits_marked hliving hbit with hbefore | hdeed
      · refine (hshare i hbefore).imp_right ?_
        rintro ⟨b, hb, hdeed⟩
        exact ⟨b, List.mem_append_left _ hb, hdeed⟩
      · exact .inr ⟨a, List.mem_append_right _ (List.mem_singleton_self a), hdeed⟩

end Estate

end DeadMansVault
