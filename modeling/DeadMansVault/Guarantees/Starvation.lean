-- SUMMARY: A vault with a token bequest to a wallet off the curve keeps the keeper from all vaults that are listed behind it.
import DeadMansVault.Automation.Visits
import DeadMansVault.Guarantees.Passes

/-!
# Starvation

One unknown fault ends the keeper's tick and its process, and the process is started again. So a
vault whose pass always throws one is where every tick ends.
-/

namespace DeadMansVault

open Crank Script World

variable {c : Cluster} {node : Node} {o o' payer : Pubkey} {v : VaultConfig}
  {as : List AssetAssignment} {j : Nat} {a : AssetAssignment} {s s' : World}
  {listing : World → List Pubkey} {closeExecuted : Bool}

/-- The keeper ticks, or the chain goes on, where nobody else acts on either vault. -/
inductive Shift (c : Cluster) (node : Node) (listing : World → List Pubkey) (payer : Pubkey)
    (closeExecuted : Bool) (o o' : Pubkey) : World → World → Prop
  | tick {s : World} : Shift c node listing payer closeExecuted o o' s
      (final (tick (node.surroundings c listing payer) payer closeExecuted ⟨s, []⟩)).net
  | other {s s' : World} {e : Event} : Step c s e s' →
      (∀ i moved, e = .executed i moved → i.vaultKey ≠ .vault o ∧ i.vaultKey ≠ .vault o') →
      Shift c node listing payer closeExecuted o o' s s'

namespace Crank.Starving

variable {s₀ : World}

/-- What happens elsewhere changes nothing. -/
theorem other (h : Starving c node o o' v as j a s₀ s) {e : Event} (hstep : Step c s e s')
    (hother : ∀ i moved, e = .executed i moved → i.vaultKey ≠ .vault o ∧ i.vaultKey ≠ .vault o') :
    Starving c node o o' v as j a s₀ s' := by
  have hreach := h.poisoned.pending.reachable
  have hreach' := hreach.step hstep
  cases hstep with
  | executed hexec =>
      obtain ⟨hne, hne'⟩ := hother _ _ rfl
      exact ⟨h.poisoned.of_untouched hreach' (untouched_bystander hreach.sound hne hexec),
        h.untouched.trans (untouched_bystander hreach.sound hne' hexec)⟩
  | rejected => exact h
  | environment henv =>
      exact ⟨h.poisoned.of_untouched hreach' (.of_environment henv),
        h.untouched.trans (.of_environment henv)⟩

theorem shift (h : Starving c node o o' v as j a s₀ s) (hclock : ∀ s, s.now ≤ node.now s)
    (hne : o ≠ o') (hlisted : ∀ s, ListedBefore (.vault o) (.vault o') (listing s))
    (hshift : Shift c node listing payer closeExecuted o o' s s') :
    Starving c node o o' v as j a s₀ s' := by
  cases hshift with
  | tick =>
      exact ((tick_starves hclock hne hlisted).mono (fun _ h => h) (fun _ _ h => h.2)
        fun _ _ h => h).at_end h
  | other hstep hother => exact h.other hstep hother

end Crank.Starving

/-- **A poisoned vault starves the others.** Where the execution of a vault has begun, the
    distribution of a mint is open and its first unpaid bequest goes to a wallet off the curve, no
    number of ticks and restarts of the keeper pays that bequest, completes a tick, or touches a
    vault that the node lists behind. -/
theorem poison_starves (hclock : ∀ s, s.now ≤ node.now s) (hne : o ≠ o')
    (hlisted : ∀ s, ListedBefore (.vault o) (.vault o') (listing s))
    (hpoisoned : Poisoned c node o v as j a s)
    (hrun : Relation.ReflTransGen (Shift c node listing payer closeExecuted o o') s s') :
    Poisoned c node o v as j a s' ∧ Untouched o' s s' ∧
      ∀ t r, tick (node.surroundings c listing payer) payer closeExecuted ⟨s', []⟩ = .ok t r →
        t.ok = false := by
  have hstarving : Starving c node o o' v as j a s s' := by
    induction hrun with
    | refl => exact ⟨hpoisoned, .refl o' s⟩
    | tail _ hshift ih => exact ih.shift hclock hne hlisted hshift
  exact ⟨hstarving.poisoned, hstarving.untouched, fun t r htick =>
    ((tick_starves hclock hne hlisted).ok hstarving htick).1⟩

namespace Sample

/-- One of the beneficiaries is no point of the curve. -/
def strictNode : Node := { quietNode with onCurve := fun key => decide (key ≠ alice) }

/-- Two vaults are due, and the execution of one has begun. -/
def contended : World := genesis.world.play cluster
  (.run strangerVault :: setup ++
    [.run (.beginExecution beginExecution), .run (.beginTokenDist beginTokenDist)])

theorem contended_evaluates :
    genesis.world.plays cluster noCheck (.run strangerVault :: setup ++
      [.run (.beginExecution beginExecution), .run (.beginTokenDist beginTokenDist)]) = true ∧
    contended.vaultConfigs vault = some { config with openTokenDists := 1 } ∧
    (contended.executionLogs (.execution vault)).isSome = true ∧
    (contended.estate cluster owner).assignments = assignments ∧
    (contended.estate cluster owner).planBits = 0 ∧
    (contended.tokenDists (.tokenDist vault gold)).isSome = true ∧
    (contended.vaultConfigs (.vault keeper)).isSome = true ∧
    contended.executionLogs (.execution (.vault keeper)) = none := by
  decide +kernel

theorem contended_reachable : Reachable cluster contended :=
  (Reachable.initial (Genesis.initial (c := cluster) genesis_consistent)).trace
    (((Reachable.initial (Genesis.initial (c := cluster) genesis_consistent)).sound.play
      contended_evaluates.1).mono fun _ _ _ hstep => hstep.1)

theorem contended_poisoned :
    Poisoned cluster strictNode owner config assignments 1 ⟨gold, 30, 0, false⟩ contended := by
  obtain ⟨-, hconfig, hlog, hassign, hbits, hopened, -, -⟩ := contended_evaluates
  refine ⟨⟨contended_reachable, ⟨_, hconfig, rfl, rfl, rfl⟩, hlog, hassign⟩,
    ⟨rfl, by decide, fun b hb => ?_⟩, hopened, ?_, fun i hi x hx hm => ?_⟩
  · obtain rfl := Option.some.inj hb
    decide
  · rw [hbits]
    exact Bitmask.test_zero 1
  · obtain rfl : i = 0 := by omega
    obtain rfl := Option.some.inj hx
    cases hm

theorem poison_starves_sample :
    (final (tick (strictNode.surroundings cluster (fun _ => [vault, .vault keeper]) keeper) keeper
      false ⟨contended, []⟩)).net.executionLogs (.execution (.vault keeper)) = none := by
  have hlisted : ∀ _ : World, ListedBefore vault (.vault keeper) [vault, .vault keeper] :=
    fun _ => ⟨[], [.vault keeper], rfl, List.not_mem_nil, List.not_mem_nil⟩
  obtain ⟨-, hsame, -⟩ := poison_starves (o := owner) (fun _ => le_rfl) (by decide) hlisted
    contended_poisoned (.single .tick)
  exact hsame.log.trans contended_evaluates.2.2.2.2.2.2.2

end Sample

end DeadMansVault
