-- SUMMARY: One owner's estate: everything the chain holds for one vault, and the steps it can take.
import DeadMansVault.Estate.Bequests
import DeadMansVault.Program.Instructions.Finish
import DeadMansVault.Program.Instructions.Plan
import DeadMansVault.Program.Instructions.Setup
import DeadMansVault.Program.Step

/-!
# Estates

An estate is what the chain holds for one owner: the accounts derived from the
vault, its lamports, and the balance of its canonical token account for each
mint. `Estate.Step` says everything that can happen to it, one payment at a
time; the addresses, the account lists and the other vaults are gone. That the
program does nothing else is the refinement theorem.
-/

namespace DeadMansVault

structure Estate where
  now : Int
  config : Option VaultConfig
  heartbeat : Option HeartbeatRecord
  plan : Option AssetPlan
  log : Option ExecutionLog
  /-- The open distribution of a mint. -/
  dists : Pubkey → Option TokenDist
  lamports : Nat
  /-- The balance of the canonical token account for a mint. -/
  holding : Pubkey → Nat

/-- The estate of `owner` in a world. -/
def World.estate (c : Cluster) (s : World) (owner : Pubkey) : Estate where
  now := s.now
  config := s.vaultConfigs (.vault owner)
  heartbeat := s.heartbeatRecords (.heartbeat (.vault owner))
  plan := s.assetPlans (.assetPlan (.vault owner))
  log := s.executionLogs (.execution (.vault owner))
  dists mint := s.tokenDists (.tokenDist (.vault owner) mint)
  lamports := s.lamports (.vault owner)
  holding mint := s.tokenAmounts (World.canonicalAta c (.vault owner) mint)

/-- The movement takes lamports of the vault or tokens of a canonical account of it. -/
def Movement.leaves (c : Cluster) (owner : Pubkey) (mv : Movement) : Bool :=
  match mv.asset with
  | .sol => decide (mv.source = .vault owner)
  | .token mint => decide (mv.source = World.canonicalAta c (.vault owner) mint)

/-- What a step of an estate is. -/
inductive Deed
  /-- Anything that others do: time passes, deposits arrive. -/
  | interfere
  | create
  | amend
  | withdraw
  | revoke
  | closeRevoked
  | begin
  | beginDist (mint : Pubkey)
  | specificAsset (mint : Pubkey) (assignment : Nat)
  | specificSol (assignment : Nat)
  | solShare (index : Nat)
  | tokenShare (mint : Pubkey) (index : Nat)
  | finalize (payer : Pubkey)
  | closeDist (mint : Pubkey)
  | close
  deriving DecidableEq, Repr

/-- A deed of a batch instruction, which may unfold to several. -/
def Deed.batched : Deed → Bool
  | solShare _ | tokenShare _ _ => true
  | _ => false

/-- A step of an estate and the movements out of it, in order. -/
structure Act where
  deed : Deed
  moves : List Movement
  deriving DecidableEq, Repr

namespace Estate

/-- The assignments of the plan, when the vault has one. -/
def registered (E : Estate) (v : VaultConfig) : List AssetAssignment :=
  if v.hasAssetPlan then E.plan.elim [] (·.assignments) else []

/-- The config that `initialize_vault` writes. -/
structure Fresh (c : Cluster) (owner : Pubkey) (v : VaultConfig) : Prop where
  accepted : v.Accepted c
  owner : v.owner = owner
  executed : v.executed = false
  active : v.active = true
  hasAssetPlan : v.hasAssetPlan = false
  openTokenDists : v.openTokenDists = 0
  keeperBounty : v.keeperBounty ≤ maxKeeperBountyLamports

/-- What an edit of the config from `v` to `v'` may do to the plan. -/
inductive PlanEdit (owner : Pubkey) (plan : Option AssetPlan) (v v' : VaultConfig) :
    Option AssetPlan → Prop
  | keep : v'.hasAssetPlan = v.hasAssetPlan →
      (v.hasAssetPlan = true → v'.beneficiaries = v.beneficiaries) →
      PlanEdit owner plan v v' plan
  | write {assignments : List AssetAssignment} : v'.hasAssetPlan = true →
      v'.beneficiaries = v.beneficiaries →
      AssignmentsAccepted v.beneficiaries.length assignments →
      PlanEdit owner plan v v' (some ⟨.vault owner, assignments, 0⟩)
  | clear : v'.hasAssetPlan = false → PlanEdit owner plan v v' none

/-- Everything that can happen to the estate of `o`. -/
inductive Step (c : Cluster) (o : Pubkey) : Estate → Act → Estate → Prop
  | interfere {E : Estate} {t : Int} {L : Nat} {H : Pubkey → Nat} :
      E.now ≤ t → E.lamports ≤ L → (∀ m, E.holding m ≤ H m) →
      Step c o E ⟨.interfere, []⟩ { E with now := t, lamports := L, holding := H }
  | create {E : Estate} {v : VaultConfig} {h : HeartbeatRecord} {L : Nat} :
      E.config = none → E.heartbeat = none → Fresh c o v →
      h.vault = .vault o → h.lastHeartbeat = E.now → i64Min ≤ E.now →
      c.minimumBalance VaultConfig.space ≤ L →
      Step c o E ⟨.create, []⟩ { E with config := some v, heartbeat := some h, lamports := L }
  | amend {E : Estate} {v v' : VaultConfig} {h h' : HeartbeatRecord} {p : Option AssetPlan} :
      E.config = some v → E.heartbeat = some h → E.now < v.deadlineAt h →
      v.Edited c v' → h'.vault = .vault o →
      (h'.lastHeartbeat = h.lastHeartbeat ∨ h'.lastHeartbeat = E.now ∧ i64Min ≤ E.now) →
      PlanEdit o E.plan v v' p →
      Step c o E ⟨.amend, []⟩
        { E with config := some v', heartbeat := some h', plan := p }
  | withdraw {E : Estate} {v : VaultConfig} {h : HeartbeatRecord} {L : Nat}
      {H : Pubkey → Nat} {moves : List Movement} :
      E.config = some v → E.heartbeat = some h → E.now < v.deadlineAt h →
      (c.minimumBalance VaultConfig.space ≤ E.lamports →
        c.minimumBalance VaultConfig.space ≤ L) →
      Step c o E ⟨.withdraw, moves⟩ { E with lamports := L, holding := H }
  | revoke {E : Estate} {v : VaultConfig} {h : HeartbeatRecord} {moves : List Movement} :
      E.config = some v → E.heartbeat = some h → E.now < v.deadlineAt h →
      Step c o E ⟨.revoke, moves⟩
        { E with config := none, heartbeat := none, lamports := 0,
                 plan := if v.hasAssetPlan then none else E.plan }
  | closeRevoked {E : Estate} {v : VaultConfig} {moves : List Movement} :
      E.config = some v → v.active = false → v.executed = false →
      Step c o E ⟨.closeRevoked, moves⟩
        { E with config := none, heartbeat := none, lamports := 0 }
  | begin {E : Estate} {v : VaultConfig} {h : HeartbeatRecord} :
      E.config = some v → E.heartbeat = some h → E.log = none → v.executed = false →
      v.deadlineAt h ≤ E.now → E.lamports ≤ u64Max →
      Step c o E ⟨.begin, []⟩ { E with log := some {
        vault := .vault o
        solSnapshot := E.lamports - c.minimumBalance VaultConfig.space -
          bequeathed (E.registered v) .default - v.keeperBounty
        solPaidMask := 0
        startedAt := E.now
        completed := false
        transferCount := 0
        totalSolDistributed := 0 } }
  | beginDist {E : Estate} {v : VaultConfig} {l : ExecutionLog} {m : Pubkey} :
      E.config = some v → E.log = some l → E.dists m = none → m ≠ .default →
      E.holding m ≤ u64Max → (0 < E.holding m ∨ ∃ a ∈ E.registered v, a.mint = m) →
      Step c o E ⟨.beginDist m, []⟩
        { E with
          config := some { v with openTokenDists := saturatingAdd u16Max v.openTokenDists 1 }
          dists := Function.update E.dists m (some {
            vault := .vault o
            mint := m
            snapshot := E.holding m - bequeathed (E.registered v) m
            paidMask := 0 }) }
  | specificAsset {E : Estate} {v : VaultConfig} {l : ExecutionLog} {p : AssetPlan}
      {d : TokenDist} {m dest : Pubkey} {j : Nat} {a : AssetAssignment} {b : Beneficiary} :
      E.config = some v → E.log = some l → E.plan = some p → E.dists m = some d →
      p.assignments[j]? = some a → a.mint = m → m ≠ .default →
      v.beneficiaries[a.beneficiaryIndex]? = some b → b.wallet ≠ .vault o →
      p.paidMask &&& lowerIndexSameMintMask p m j = lowerIndexSameMintMask p m j →
      Bitmask.test p.paidMask j = false →
      Step c o E ⟨.specificAsset m j, Movement.made ⟨.token m, World.canonicalAta c (.vault o) m,
          dest, b.wallet, min a.amount (E.holding m), .specificAsset j⟩⟩
        { E with
          plan := some { p with paidMask := Bitmask.mark p.paidMask j }
          holding := Function.update E.holding m
            (E.holding m - min a.amount (E.holding m)) }
  | specificSol {E : Estate} {v : VaultConfig} {l : ExecutionLog} {p : AssetPlan} {j : Nat}
      {a : AssetAssignment} {b : Beneficiary} :
      E.config = some v → E.log = some l → E.plan = some p →
      p.assignments[j]? = some a → a.mint = .default →
      v.beneficiaries[a.beneficiaryIndex]? = some b → b.wallet ≠ .vault o →
      p.paidMask &&& lowerIndexSameMintMask p .default j = lowerIndexSameMintMask p .default j →
      Bitmask.test p.paidMask j = false →
      Step c o E ⟨.specificSol j, Movement.made ⟨.sol, .vault o, b.wallet, b.wallet,
          min a.amount (E.lamports - c.minimumBalance VaultConfig.space), .specificSol j⟩⟩
        { E with
          plan := some { p with paidMask := Bitmask.mark p.paidMask j }
          lamports := E.lamports -
            min a.amount (E.lamports - c.minimumBalance VaultConfig.space) }
  | solShare {E : Estate} {v : VaultConfig} {l : ExecutionLog} {i total count : Nat}
      {b : Beneficiary} :
      E.config = some v → v.executed = false → E.log = some l →
      v.beneficiaries[i]? = some b → Bitmask.test l.solPaidMask i = false →
      (0 < shareAmount l.solSnapshot b.shareBps → b.wallet ≠ .vault o) →
      shareAmount l.solSnapshot b.shareBps ≤ E.lamports →
      Step c o E ⟨.solShare i, Movement.made ⟨.sol, .vault o, b.wallet, b.wallet,
          shareAmount l.solSnapshot b.shareBps, .solShare i⟩⟩
        { E with
          log := some { l with
            totalSolDistributed := total
            transferCount := count
            solPaidMask := Bitmask.mark l.solPaidMask i }
          lamports := E.lamports - shareAmount l.solSnapshot b.shareBps }
  | tokenShare {E : Estate} {v : VaultConfig} {d : TokenDist} {m dest : Pubkey} {i : Nat}
      {b : Beneficiary} :
      E.config = some v → E.dists m = some d → v.beneficiaries[i]? = some b →
      Bitmask.test d.paidMask i = false →
      shareAmount d.snapshot b.shareBps ≤ E.holding m →
      (b.wallet ≠ .vault o → dest ≠ World.canonicalAta c (.vault o) m) →
      Step c o E ⟨.tokenShare m i, Movement.made ⟨.token m, World.canonicalAta c (.vault o) m,
          dest, b.wallet, shareAmount d.snapshot b.shareBps, .tokenShare i⟩⟩
        { E with
          dists := Function.update E.dists m
            (some { d with paidMask := Bitmask.mark d.paidMask i })
          -- The vault itself may be a beneficiary, and its own account the destination.
          holding := Function.update E.holding m
            (if dest = World.canonicalAta c (.vault o) m then E.holding m
             else E.holding m - shareAmount d.snapshot b.shareBps) }
  | finalize {E : Estate} {v : VaultConfig} {l : ExecutionLog} {payer : Pubkey} :
      E.config = some v → E.log = some l → v.executed = false →
      l.solPaidMask = fullMaskU32 v.beneficiaries.length →
      (v.hasAssetPlan = true → ∃ p, E.plan = some p ∧
        p.paidMask = fullMaskU64 p.assignments.length) →
      payer ≠ .vault o →
      Step c o E ⟨.finalize payer, Movement.made ⟨.sol, .vault o, payer, payer,
          min v.keeperBounty (E.lamports - c.minimumBalance VaultConfig.space), .bounty⟩⟩
        { E with
          config := some { v with executed := true, active := false }
          log := some { l with completed := true }
          lamports := E.lamports -
            min v.keeperBounty (E.lamports - c.minimumBalance VaultConfig.space) }
  | closeDist {E : Estate} {v : VaultConfig} {d : TokenDist} {m dest recipient : Pubkey} :
      E.config = some v → v.executed = true → E.dists m = some d →
      d.paidMask = fullMaskU32 v.beneficiaries.length →
      (0 < E.holding m → ∃ b,
        v.beneficiaries[largestShareIndex v.beneficiaries]? = some b ∧ recipient = b.wallet) →
      Step c o E ⟨.closeDist m, Movement.made ⟨.token m, World.canonicalAta c (.vault o) m,
          dest, recipient, E.holding m, .tokenDust⟩⟩
        { E with
          config := some { v with openTokenDists := v.openTokenDists - 1 }
          dists := Function.update E.dists m none
          holding := Function.update E.holding m 0 }
  | close {E : Estate} {v : VaultConfig} {l : ExecutionLog} {dest recipient : Pubkey} :
      E.config = some v → E.log = some l → E.heartbeat.isSome = true → v.executed = true →
      v.openTokenDists = 0 →
      (0 < E.lamports - c.minimumBalance VaultConfig.space → ∃ b,
        v.beneficiaries[largestShareIndex v.beneficiaries]? = some b ∧ recipient = b.wallet) →
      Step c o E ⟨.close, Movement.made ⟨.sol, .vault o, recipient, recipient,
          E.lamports - c.minimumBalance VaultConfig.space, .solDust⟩ ++
          -- Dust sent to the vault itself stays for the refund.
          [⟨.sol, .vault o, dest, dest,
            if recipient = .vault o then E.lamports
            else E.lamports - (E.lamports - c.minimumBalance VaultConfig.space), .refund⟩]⟩
        { E with
          config := none
          heartbeat := none
          log := none
          plan := if v.hasAssetPlan then none else E.plan
          lamports := 0 }

/-- What `begin` has found and written. -/
theorem Step.begin_eq {c : Cluster} {o : Pubkey} {E E' : Estate} {a : Act} (h : Step c o E a E')
    (hdeed : a.deed = .begin) :
    ∃ v hb, E.config = some v ∧ E.heartbeat = some hb ∧ E.log = none ∧ v.executed = false ∧
      v.deadlineAt hb ≤ E.now ∧ E' = { E with log := some {
        vault := .vault o
        solSnapshot := E.lamports - c.minimumBalance VaultConfig.space -
          bequeathed (E.registered v) .default - v.keeperBounty
        solPaidMask := 0
        startedAt := E.now
        completed := false
        transferCount := 0
        totalSolDistributed := 0 } } := by
  cases h with
  | begin hv hh hl hexec hdl _ => exact ⟨_, _, hv, hh, hl, hexec, hdl, rfl⟩
  | _ => cases hdeed

/-- Only `finalize` marks a vault as executed. -/
theorem Step.unexecuted {c : Cluster} {o : Pubkey} {E E' : Estate} {a : Act}
    (h : Step c o E a E') (hE : ∀ v, E.config = some v → v.executed = false)
    (hfin : ∀ payer, a.deed ≠ .finalize payer) : ∀ v, E'.config = some v → v.executed = false := by
  intro v' hv'
  cases h with
  | create _ _ hfresh _ _ _ _ =>
      cases hv'
      exact hfresh.executed
  | amend hv _ _ hedit _ _ _ =>
      cases hv'
      exact hedit.executed.trans (hE _ hv)
  | beginDist hv _ _ _ _ _ =>
      have hexec := hE _ hv
      cases hv'
      exact hexec
  | finalize _ _ _ _ _ _ => exact absurd rfl (hfin _)
  | closeDist hv _ _ _ _ =>
      have hexec := hE _ hv
      cases hv'
      exact hexec
  | revoke | closeRevoked | close => cases hv'
  | _ => exact hE v' hv'

theorem Step.close_executed {c : Cluster} {o : Pubkey} {E E' : Estate} {a : Act}
    (h : Step c o E a E') (hdeed : a.deed = .close) :
    ∃ v, E.config = some v ∧ v.executed = true := by
  cases h with
  | close hv _ _ hexec _ _ => exact ⟨_, hv, hexec⟩
  | _ => cases hdeed

theorem Step.beginDist_mint {c : Cluster} {o : Pubkey} {E E' : Estate} {a : Act} {m : Pubkey}
    (h : Step c o E a E') (hdeed : a.deed = .beginDist m) : m ≠ .default := by
  cases h with
  | beginDist _ _ _ hdefault _ _ =>
      cases hdeed
      exact hdefault
  | _ => cases hdeed

theorem Step.specificAsset_dist {c : Cluster} {o : Pubkey} {E E' : Estate} {a : Act} {m : Pubkey}
    {j : Nat} (h : Step c o E a E') (hdeed : a.deed = .specificAsset m j) :
    ∃ d, E.dists m = some d := by
  cases h with
  | specificAsset _ _ _ hd _ _ _ _ _ _ _ =>
      cases hdeed
      exact ⟨_, hd⟩
  | _ => cases hdeed

theorem Step.closeDist_holding {c : Cluster} {o : Pubkey} {E E' : Estate} {a : Act} {m : Pubkey}
    (h : Step c o E a E') (hdeed : a.deed = .closeDist m) : E'.holding m = 0 := by
  cases h with
  | closeDist _ _ _ _ _ =>
      cases hdeed
      exact Function.update_self ..
  | _ => cases hdeed

/-- Interference touches the clock and the balances only. -/
theorem Step.interfere_eq {c : Cluster} {o : Pubkey} {E E' : Estate} {a : Act}
    (h : Step c o E a E') (hdeed : a.deed = .interfere) :
    E' = { E with now := E'.now, lamports := E'.lamports, holding := E'.holding } ∧
      E.now ≤ E'.now ∧ E.lamports ≤ E'.lamports ∧ ∀ m, E.holding m ≤ E'.holding m := by
  cases h with
  | interfere ht hL hH => exact ⟨rfl, ht, hL, hH⟩
  | _ => cases hdeed

end Estate

end DeadMansVault
