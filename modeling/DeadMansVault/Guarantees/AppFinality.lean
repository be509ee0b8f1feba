-- SUMMARY: The app finalizes over a mint that it has failed to begin, when its masks are full.
import DeadMansVault.Device.Execution
import DeadMansVault.Guarantees.Finality

/-!
# Finality in the app

The server and the keeper do not finalize while a mint is stuck. The app has the same marks,
and its gate does not look at them.
-/

namespace DeadMansVault.Device

open Crank Script

variable {σ α : Type}

/-- The environment that answers as this one does, and takes notes. -/
def ExecutionEnv.noted (env : ExecutionEnv σ) : ExecutionEnv (σ × Notes) where
  client := env.client.noted
  getOnChainDeadline owner := noting (env.getOnChainDeadline owner)
  blockTime := noting env.blockTime
  now := noting env.now
  getLastCompletedStep owner := noting (env.getLastCompletedStep owner)
  clearMirror owner := noting (env.clearMirror owner)
  getKeypair := noting env.getKeypair
  sendWithPayer tx := fun s =>
    let (confirmed, net) := env.sendWithPayer tx s.1
    (confirmed, (net, s.2.sent tx (confirmed.toOption.getD false)))

/-! ## The reads -/

section Reads

variable (client : Client σ)

end Reads

/-! ## What neither asks nor finalizes -/

/-- A property of what has been asked for, and of the finalizes. -/
def Pending (P : Run (σ × Notes) → Prop) : Prop :=
  ∃ Q : List Pubkey → List (List Pubkey × List Pubkey) → Prop,
    P = fun r => Q r.net.2.asked r.net.2.finalizes

/-- The routine asks for no TokenDist, and submits no finalize; it may begin TokenDists. -/
abbrev Silent (x : Routine (σ × Notes) α) : Prop := Preserves Pending x

theorem Pending.watched {P : Run (σ × Notes) → Prop} (h : Pending P) : Watched P := by
  obtain ⟨Q, rfl⟩ := h
  exact ⟨fun notes _ => Q notes.asked notes.finalizes, fun _ _ _ h => h, rfl⟩

theorem Concluded.pending {P : Run (σ × Notes) → Prop} (h : Concluded P) : Pending P := by
  obtain ⟨Q, rfl⟩ := h
  exact ⟨fun _ finalizes => Q finalizes, rfl⟩

/-- A transaction without a finalize. -/
def Plain (tx : Transaction) : Prop := tx.any Submission.finalizes = false

theorem Plain.append {tx tx' : Transaction} (h : Plain tx) (h' : Plain tx') : Plain (tx ++ tx') := by
  rw [Plain, List.any_append, h, h', Bool.or_false]

theorem Plain.flatMap {accounts : List (Pubkey × Transaction)}
    (h : ∀ account ∈ accounts, Plain account.2) : Plain (accounts.flatMap (·.2)) := by
  rw [Plain, List.any_flatMap, List.any_eq_false]
  exact fun account hmem => Bool.eq_false_iff.mp (h account hmem)

namespace ExecutionEnv

variable (env : ExecutionEnv σ) (agent owner : Pubkey)

/-- A transaction is noted, whether or not it goes through. -/
theorem send_meets (tx : Transaction) (P : Notes → Prop) :
    Meets (fun r => P r.net.2) (env.noted.send tx)
      (fun _ r => ∃ notes confirmed, P notes ∧ r.net.2 = notes.sent tx confirmed)
      (fun _ r => ∃ notes confirmed, P notes ∧ r.net.2 = notes.sent tx confirmed) := by
  have hrecords : Meets (fun r : Run (σ × Notes) => P r.net.2)
      (tx.forM fun submission => record (.submitted submission)) (fun _ r => P r.net.2)
      (fun _ r => ∃ notes confirmed, P notes ∧ r.net.2 = notes.sent tx confirmed) :=
    Meets.forM fun submission _ _ hr => hr
  have hsent : ∀ (r₀ r : Run (σ × Notes)) (confirmed : Except JsError Bool), P r₀.net.2 →
      env.noted.sendWithPayer tx r₀.net = (confirmed, r.net) →
      ∃ notes confirmed, P notes ∧ r.net.2 = notes.sent tx confirmed := by
    intro r₀ r confirmed hP hans
    obtain ⟨-, hnet⟩ := Prod.mk.inj hans
    exact ⟨r₀.net.2, _, hP, by rw [← hnet]⟩
  have hcall : Meets (fun r : Run (σ × Notes) => P r.net.2) (call (env.noted.sendWithPayer tx))
      (fun _ r => ∃ notes confirmed, P notes ∧ r.net.2 = notes.sent tx confirmed)
      (fun _ r => ∃ notes confirmed, P notes ∧ r.net.2 = notes.sent tx confirmed) := by
    refine (call_meets _ _).mono (fun _ h => h) ?_ ?_
    · rintro landed r ⟨r₀, hr₀, hans, -⟩
      exact hsent r₀ r _ hr₀ hans
    · rintro e r ⟨r₀, hr₀, hans, -⟩
      exact hsent r₀ r _ hr₀ hans
  exact hrecords.bind fun _ => hcall.bind fun _ _ h => h

/-- The run has asked for these TokenDists, and has not finalized. -/
def Unfinished (asked : List Pubkey) (r : Run (σ × Notes)) : Prop :=
  r.net.2.asked = asked ∧ r.net.2.finalizes = []

theorem Unfinished.pending (asked : List Pubkey) :
    Pending (Unfinished (σ := σ) asked) :=
  ⟨fun asked' finalizes => asked' = asked ∧ finalizes = [], rfl⟩

/-- The pass up to its selection. Where there is no vault, it has selected nothing. -/
def selection (env : ExecutionEnv σ) (owner : Pubkey) : Routine σ (List Pubkey) := do
  match ← env.distribute owner with
  | none => pure []
  | some pass => pure pass.mints

end ExecutionEnv

/-! ## The three passes -/

end DeadMansVault.Device
