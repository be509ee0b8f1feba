-- SUMMARY: What an execution may pay, to whom, and that it pays each debt at most once.
import DeadMansVault.Estate.Payouts

/-!
# Sanctioned movements

`Sanctioned E E' mv` lists every movement that a step from `E` to `E'` may take
out of an estate whose execution is under way: a payment of a debt that is marked
by it, or the dust and the rent at a close. Nothing else leaves, and what is
marked stays marked, so no debt is paid twice.
-/

namespace DeadMansVault

/-- The purposes of the payments that a mark stands for. -/
def Purpose.marked : Purpose → Bool
  | solShare _ | specificSol _ | specificAsset _ | tokenShare _ | bounty => true
  | _ => false

namespace Estate

variable {c : Cluster} {o : Pubkey} {E E' F F' : Estate}

/-- The movements out of the estate of `o` that an execution may make from `E` to `E'`. -/
inductive Sanctioned (c : Cluster) (o : Pubkey) (E E' : Estate) : Movement → Prop
  | solShare {v : VaultConfig} {l l' : ExecutionLog} {i : Nat} {b : Beneficiary} :
      E.config = some v → E.log = some l → E'.log = some l' → v.beneficiaries[i]? = some b →
      Bitmask.test l.solPaidMask i = false → Bitmask.test l'.solPaidMask i = true →
      Sanctioned c o E E' ⟨.sol, .vault o, b.wallet, b.wallet,
        l.solSnapshot * b.shareBps / 10000, .solShare i⟩
  | specificSol {v : VaultConfig} {p p' : AssetPlan} {j n : Nat} {a : AssetAssignment}
      {b : Beneficiary} :
      E.config = some v → E.plan = some p → E'.plan = some p' → p.assignments[j]? = some a →
      a.mint = .default → v.beneficiaries[a.beneficiaryIndex]? = some b → n ≤ a.amount →
      Bitmask.test p.paidMask j = false → Bitmask.test p'.paidMask j = true →
      Sanctioned c o E E' ⟨.sol, .vault o, b.wallet, b.wallet, n, .specificSol j⟩
  | specificAsset {v : VaultConfig} {p p' : AssetPlan} {j n : Nat} {a : AssetAssignment}
      {b : Beneficiary} {dest : Pubkey} :
      E.config = some v → E.plan = some p → E'.plan = some p' → p.assignments[j]? = some a →
      a.mint ≠ .default → v.beneficiaries[a.beneficiaryIndex]? = some b → n ≤ a.amount →
      Bitmask.test p.paidMask j = false → Bitmask.test p'.paidMask j = true →
      Sanctioned c o E E' ⟨.token a.mint, World.canonicalAta c (.vault o) a.mint, dest, b.wallet,
        n, .specificAsset j⟩
  | tokenShare {v : VaultConfig} {d d' : TokenDist} {m dest : Pubkey} {i : Nat}
      {b : Beneficiary} :
      E.config = some v → E.dists m = some d → E'.dists m = some d' →
      v.beneficiaries[i]? = some b →
      Bitmask.test d.paidMask i = false → Bitmask.test d'.paidMask i = true →
      Sanctioned c o E E' ⟨.token m, World.canonicalAta c (.vault o) m, dest, b.wallet,
        d.snapshot * b.shareBps / 10000, .tokenShare i⟩
  | bounty {v v' : VaultConfig} {payer : Pubkey} {n : Nat} :
      E.config = some v → v.executed = false → E'.config = some v' → v'.executed = true →
      n ≤ v.keeperBounty → Sanctioned c o E E' ⟨.sol, .vault o, payer, payer, n, .bounty⟩
  | tokenDust {v : VaultConfig} {m dest : Pubkey} {b : Beneficiary} {n : Nat} :
      E.config = some v → v.executed = true → (E.dists m).isSome = true → E'.dists m = none →
      v.beneficiaries[largestShareIndex v.beneficiaries]? = some b →
      Sanctioned c o E E' ⟨.token m, World.canonicalAta c (.vault o) m, dest, b.wallet, n,
        .tokenDust⟩
  | solDust {v : VaultConfig} {b : Beneficiary} {n : Nat} :
      E.config = some v → v.executed = true → E'.config = none →
      v.beneficiaries[largestShareIndex v.beneficiaries]? = some b →
      Sanctioned c o E E' ⟨.sol, .vault o, b.wallet, b.wallet, n, .solDust⟩
  /-- The closer gets the rent, and the dust with it only where the vault itself is
      the beneficiary with the largest share. -/
  | refund {v : VaultConfig} {b : Beneficiary} {dest : Pubkey} {n : Nat} :
      E.config = some v → v.executed = true → E'.config = none →
      v.beneficiaries[largestShareIndex v.beneficiaries]? = some b →
      (b.wallet ≠ .vault o → n ≤ c.minimumBalance VaultConfig.space) →
      Sanctioned c o E E' ⟨.sol, .vault o, dest, dest, n, .refund⟩

/-! ## The steps of a batch -/

/-- What the steps of a batch leave: the config and the plan, and masks that grow. -/
structure Grows (E E' : Estate) : Prop where
  config : E'.config = E.config
  plan : E'.plan = E.plan
  log : Option.Rel (fun l l' : ExecutionLog => l'.solSnapshot = l.solSnapshot ∧
    ∀ i, Bitmask.test l.solPaidMask i = true → Bitmask.test l'.solPaidMask i = true) E.log E'.log
  dists : ∀ m, Option.Rel (fun d d' : TokenDist => d'.snapshot = d.snapshot ∧
    ∀ i, Bitmask.test d.paidMask i = true → Bitmask.test d'.paidMask i = true)
    (E.dists m) (E'.dists m)

theorem Grows.refl (E : Estate) : Grows E E where
  config := rfl
  plan := rfl
  log := by cases E.log <;> simp
  dists m := by cases E.dists m <;> simp

theorem Grows.trans {E'' : Estate} (h : Grows E E') (h' : Grows E' E'') : Grows E E'' where
  config := h'.config.trans h.config
  plan := h'.plan.trans h.plan
  log := by
    have hlog := h.log
    have hlog' := h'.log
    cases hl : E.log <;> cases hl' : E'.log <;> cases hl'' : E''.log <;> simp_all
  dists m := by
    have hdist := h.dists m
    have hdist' := h'.dists m
    cases hd : E.dists m <;> cases hd' : E'.dists m <;> cases hd'' : E''.dists m <;> simp_all

theorem Step.grows {a : Act} (h : Step c o E a E') (hbatch : a.deed.batched = true) :
    Grows E E' := by
  cases h with
  | solShare _ _ hl _ _ _ _ =>
      exact { Grows.refl E with
        log := by
          rw [hl]
          exact .some ⟨rfl, fun _ => Bitmask.test_mark_of_test⟩ }
  | @tokenShare _ d m _ _ _ _ hd _ _ _ _ =>
      exact { Grows.refl E with
        dists := fun m' => by
          by_cases hm : m' = m
          · subst hm
            simp only [hd, Function.update_self]
            exact .some ⟨rfl, fun _ => Bitmask.test_mark_of_test⟩
          · simp only [Function.update_of_ne hm]
            exact (Grows.refl E).dists m' }
  | _ => cases hbatch

theorem Grows.run {acts : List Act} (h : Trace (Step c o) E acts E')
    (hbatch : ∀ a ∈ acts, a.deed.batched = true) : Grows E E' :=
  (h.restrict hbatch).preserves (P := Grows E)
    (fun _ _ _ hgrows hstep => hgrows.trans (hstep.1.grows hstep.2)) (.refl E)

namespace Grows

variable {m : Pubkey}

end Grows

/-- The bounty goes to the finalizer, and only a close refunds. -/
theorem Step.claimed {a : Act} (h : Step c o E a E') (hliving : a.deed.living = false) :
    ∀ mv ∈ a.moves, (mv.purpose = .bounty → a.deed = .finalize mv.dest) ∧
      (mv.purpose = .refund → a.deed = .close) := by
  intro mv hmv
  cases h with
  | create | amend | withdraw | revoke | closeRevoked => cases hliving
  | interfere | begin | beginDist => cases hmv
  | close =>
      refine ⟨fun hbounty => ?_, fun _ => rfl⟩
      rcases List.mem_append.mp hmv with hmv | hmv
      · obtain ⟨rfl, -⟩ := Movement.mem_made hmv
        cases hbounty
      · rw [List.mem_singleton.mp hmv] at hbounty
        cases hbounty
  | finalize =>
      obtain ⟨rfl, -⟩ := Movement.mem_made hmv
      simp
  | _ =>
      obtain ⟨rfl, -⟩ := Movement.mem_made hmv
      simp

/-! ## What leaves is accounted for -/

/-- The debt of a marked purpose is paid. -/
def Paid (E : Estate) (asset : Asset) : Purpose → Prop
  | .solShare i => ∃ l, E.log = some l ∧ Bitmask.test l.solPaidMask i = true
  | .specificSol j | .specificAsset j => Bitmask.test E.planBits j = true
  | .tokenShare i => ∃ m d, asset = .token m ∧ E.dists m = some d ∧
      Bitmask.test d.paidMask i = true
  | .bounty => ∃ v, E.config = some v ∧ v.executed = true
  | _ => False

/-- Only an unpaid debt may be paid, and then it is paid. -/
theorem Sanctioned.paid {mv : Movement} (h : Sanctioned c o E E' mv)
    (hmark : mv.purpose.marked = true) :
    ¬ Paid E mv.asset mv.purpose ∧ Paid E' mv.asset mv.purpose := by
  cases h with
  | solShare _ hl hl' _ hclear hset => exact ⟨by simp [Paid, hl, hclear], _, hl', hset⟩
  | specificSol _ hp hp' _ _ _ _ hclear hset =>
      exact ⟨by simp [Paid, planBits, hp, hclear], by simp [Paid, planBits, hp', hset]⟩
  | specificAsset _ hp hp' _ _ _ _ hclear hset =>
      exact ⟨by simp [Paid, planBits, hp, hclear], by simp [Paid, planBits, hp', hset]⟩
  | @tokenShare _ d _ m _ _ _ _ hd hd' _ hclear hset =>
      refine ⟨?_, m, _, rfl, hd', hset⟩
      rintro ⟨m', d', heq, hdist, hbit⟩
      obtain rfl : m = m' := by simpa using heq
      obtain rfl : d = d' := by simpa [hd] using hdist
      simp [hclear] at hbit
  | bounty hv hexec hv' hexec' _ => exact ⟨by simp [Paid, hv, hexec], _, hv', hexec'⟩
  | tokenDust | solDust | refund => cases hmark

end Estate

end DeadMansVault
