-- SUMMARY: Every account of the program stands at its own address, belongs to a vault, and holds its rent.
import DeadMansVault.Guarantees.Gates
import DeadMansVault.Program.Rent
import DeadMansVault.Program.Scenario

/-!
# Accounts in order

Every account is found where its contents say, and none of those that serve a vault outlives it.
Each holds the rent of its size, so the runtime has no reason to refuse an instruction that the
program accepts for what it leaves there.
-/

namespace DeadMansVault

open World

variable {c : Cluster} {s s' : World}

/-- The accounts around the vaults stand at addresses that derive from vaults. -/
structure World.Placed (s : World) : Prop where
  heartbeat : ∀ k h, s.heartbeatRecords k = some h → ∃ o, k = .heartbeat (.vault o)
  plan : ∀ k p, s.assetPlans k = some p → ∃ o, k = .assetPlan (.vault o)
  log : ∀ k l, s.executionLogs k = some l → ∃ o, k = .execution (.vault o)
  dist : ∀ k d, s.tokenDists k = some d → ∃ o mint, k = .tokenDist (.vault o) mint

/-- Where only the addresses of `P` are written, accounts appear nowhere else. -/
theorem found_of_same {α : Type} {P : Pubkey → Prop} {f g : Pubkey → Option α}
    (hsame : ∀ k, ¬ P k → g k = f k) (hf : ∀ k x, f k = some x → P k) :
    ∀ k x, g k = some x → P k := by
  intro k x hx
  by_contra hk
  rw [hsame k hk] at hx
  exact hk (hf k x hx)

theorem World.Placed.step {e : Event} (h : s.Placed) (hs : s.Sound c) (hstep : Step c s e s') :
    s'.Placed := by
  cases hstep with
  | rejected => exact h
  | environment henv =>
      obtain ⟨hheart, hplan, hlog, hdist⟩ := h
      rw [← henv.heartbeatRecords] at hheart
      rw [← henv.assetPlans] at hplan
      rw [← henv.executionLogs] at hlog
      rw [← henv.tokenDists] at hdist
      exact ⟨hheart, hplan, hlog, hdist⟩
  | @executed i _ _ hexec =>
      have hfoot := exec_confined hs.regular hexec
      obtain ⟨o, ho⟩ := exec_homed hs hexec
      rw [ho] at hfoot
      refine ⟨found_of_same (fun k hk => ?_) h.heartbeat, found_of_same (fun k hk => ?_) h.plan,
        found_of_same (fun k hk => ?_) h.log, found_of_same (fun k hk => ?_) h.dist⟩
      · exact hfoot.heartbeatRecords k fun heq => hk ⟨o, heq⟩
      · exact hfoot.assetPlans k fun heq => hk ⟨o, heq⟩
      · exact hfoot.executionLogs k fun heq => hk ⟨o, heq⟩
      · exact hfoot.tokenDists k fun mint heq => hk ⟨o, mint, heq⟩

theorem Initial.accountSpace (h : Initial c s) (k : Pubkey) : s.accountSpace k = none := by
  cases k <;> simp [World.accountSpace, h.vaultConfigs, h.heartbeatRecords, h.assetPlans,
    h.executionLogs, h.tokenDists]

theorem Environment.accountSpace (h : Environment c s s') (k : Pubkey) :
    s'.accountSpace k = s.accountSpace k := by
  cases k <;> simp [World.accountSpace, h.vaultConfigs, h.heartbeatRecords, h.assetPlans,
    h.executionLogs, h.tokenDists]

/-- What the upkeep leaves out is the vaults, and the estate of each is solvent. -/
theorem World.RentExempt.upkept (h : s.RentExempt c) (hs : Reachable c s')
    (hupkept : Upkept c s s') : s'.RentExempt c := by
  intro k space hspace
  by_cases hvault : ∃ o, k = .vault o
  · obtain ⟨o, rfl⟩ := hvault
    simp only [accountSpace, Option.map_eq_some_iff] at hspace
    obtain ⟨v, hv, rfl⟩ := hspace
    exact (hs.solvent o).rent v hv
  · rcases hupkept k space (fun o ho => hvault ⟨o, ho⟩) hspace with ⟨hold, hle⟩ | hrent
    · exact (h k space hold).trans hle
    · exact hrent

theorem World.RentExempt.step {e : Event} (h : s.RentExempt c) (hs : Reachable c s)
    (hstep : Step c s e s') : s'.RentExempt c := by
  cases hstep with
  | rejected => exact h
  | environment henv =>
      intro k space hspace
      rw [henv.accountSpace] at hspace
      exact (h k space hspace).trans (henv.lamports k (accountSpace_programControlled hspace))
  | executed hexec =>
      exact h.upkept (hs.step (.executed hexec)) (exec_upkept hs.sound.regular hexec)

/-- The accounts of the program belong together, and are not in debt to the runtime. -/
structure World.InOrder (c : Cluster) (s : World) : Prop where
  config : ∀ k v, s.vaultConfigs k = some v → k = .vault v.owner ∧
    (∃ h, s.heartbeatRecords (.heartbeat k) = some h ∧ h.vault = k) ∧
    (v.hasAssetPlan = true ↔ ∃ p, s.assetPlans (.assetPlan k) = some p)
  heartbeat : ∀ k h, s.heartbeatRecords k = some h → k = .heartbeat h.vault ∧
    ∃ v, s.vaultConfigs h.vault = some v
  plan : ∀ k p, s.assetPlans k = some p → k = .assetPlan p.vault ∧
    ∃ v, s.vaultConfigs p.vault = some v ∧ v.hasAssetPlan = true
  log : ∀ k l, s.executionLogs k = some l → k = .execution l.vault ∧
    ∃ v, s.vaultConfigs l.vault = some v ∧ v.executed = l.completed
  dist : ∀ k d, s.tokenDists k = some d → k = .tokenDist d.vault d.mint
  rent : s.RentExempt c

end DeadMansVault
