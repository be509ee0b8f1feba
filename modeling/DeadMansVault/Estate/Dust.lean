-- SUMMARY: What a closed distribution leaves over: rounding, and what was set aside twice.
import DeadMansVault.Estate.Distributions
import DeadMansVault.Estate.Payouts

/-!
# Dust

A snapshot sets all bequests of the mint aside, whether or not they were paid in an
earlier distribution. What it sets aside beyond the unpaid ones is nobody's share and
nobody's bequest: it is swept at the close, together with the rounding.
-/

namespace DeadMansVault

namespace Estate

variable {c : Cluster} {o m : Pubkey} {E E' : Estate}

/-- What the unpaid bequests of `m` come to. -/
def unpaidOf (E : Estate) (m : Pubkey) : Nat :=
  Pot.unpaid E.assignments.length (Bitmask.test E.planBits) (bequest E.assignments m)

/-- What a snapshot of `m` sets aside, as far as the balance reaches, beyond the unpaid
    bequests. -/
def overReserved (E : Estate) (m : Pubkey) : Nat :=
  min (bequeathed E.assignments m) (E.holding m) - E.unpaidOf m

theorem unpaidOf_le (E : Estate) (m : Pubkey) : E.unpaidOf m ≤ bequeathed E.assignments m := by
  rw [bequeathed_eq_sum]
  exact Pot.unpaid_le

/-- A vault with an open distribution is not closed, as long as the count is exact. -/
theorem Tallied.not_close (hT : Tallied E) {d : TokenDist} (hd : E.dists m = some d) {a : Act}
    (h : Step c o E a E') : a.deed ≠ .close := by
  intro hdeed
  cases h with
  | close hv _ _ _ hzero _ =>
      have hcount := hT.count _ hv
      rw [hzero] at hcount
      have hnone : E.openDists = ∅ := by simpa using hcount
      have hopen : m ∈ E.openDists := by simp [openDists, hd]
      rw [hnone] at hopen
      exact hopen
  | _ => cases hdeed

/-- A step that neither closes the distribution of `m`, nor opens one too many, nor
    brings tokens of `m`. -/
def DustStep (c : Cluster) (o m : Pubkey) (E : Estate) (a : Act) (E' : Estate) : Prop :=
  (Step c o E a E' ∧ ¬ Overflows E a ∧ (a.deed = .interfere → E'.holding m ≤ E.holding m)) ∧
    a.deed ≠ .closeDist m

/-- While a distribution is open the pot stays accounted for. -/
theorem Distributing.account_run {beneficiaries : List Beneficiary} {bounty snapshot total : Nat}
    {assignments : List AssetAssignment} {bal owed : Nat}
    (hE : Distributing c o beneficiaries bounty snapshot assignments m total E) (hT : Tallied E)
    (hm : m ≠ .default)
    (hacc : Pot.Accounted (potTerms beneficiaries total assignments m) bal owed 0 (E.tokenPool m))
    {acts : List Act} (h : Trace (DustStep c o m) E acts E') :
    Distributing c o beneficiaries bounty snapshot assignments m total E' ∧
      Pot.Accounted (potTerms beneficiaries total assignments m) bal owed
        (returned c o m (acts.flatMap (·.moves))) (E'.tokenPool m) ∧
      ∀ p ∈ payoutsOf (.token m) (acts.flatMap (·.moves)),
        (∃ i, p.purpose = .tokenShare i) ∨ ∃ j, p.purpose = .specificAsset j := by
  have hend := h.preserves_history
    (P := fun acts F => Distributing c o beneficiaries bounty snapshot assignments m total F ∧
      Tallied F ∧ Pot.Accounted (potTerms beneficiaries total assignments m) bal owed
        (returned c o m (acts.flatMap (·.moves))) (F.tokenPool m) ∧
      ∀ p ∈ payoutsOf (.token m) (acts.flatMap (·.moves)),
        (∃ i, p.purpose = .tokenShare i) ∨ ∃ j, p.purpose = .specificAsset j) ?_
    ⟨hE, hT, hacc, by simp [payoutsOf]⟩
  · exact ⟨hend.1, hend.2.2⟩
  rintro acts F a F' ⟨hF, hT, hacc, hkinds⟩ ⟨⟨hstep, hfit, hquiet⟩, hdist⟩
  obtain ⟨d, hd, -⟩ := hF.dist
  have hclose := hT.not_close hd hstep
  obtain ⟨es, hpot, hout, hdep⟩ := hF.token_step hm hstep hclose hdist
  refine ⟨hF.step hstep hclose hdist, hT.step hF.lawful hstep hfit, ?_, ?_⟩
  swap
  · intro p hp
    rw [List.flatMap_append, List.flatMap_singleton, payoutsOf_append, List.mem_append, hout] at hp
    rcases hp with hp | hp
    · exact hkinds p hp
    · obtain ⟨e, -, he⟩ := List.mem_flatMap.mp hp
      exact entryPayout_purpose he
  have hsum : Pot.deposits es = returned c o m a.moves := by
    rcases hdep with ⟨hint, rfl⟩ | hdep
    · obtain ⟨-, -, -, hle⟩ := hstep.interfere_eq hint
      have hsame := Nat.le_antisymm (hquiet hint) (hle m)
      have hmoves : a.moves = [] := by
        cases hstep with
        | interfere => rfl
        | _ => cases hint
      simp [hsame, hmoves, Pot.deposits, Pot.Entry.deposited, returned]
    · exact hdep
  rw [List.flatMap_append, List.flatMap_singleton, returned_append, ← hsum]
  exact hacc.run hpot

/-- What is left at the close of a distribution that was funded at its begin: what was
    set aside too much, what came back, and the rounding. -/
theorem Lawful.dust {E₁ E₂ E₃ : Estate} {v : VaultConfig} {acts : List Act} {a : Act}
    (hE : Lawful c o E) (hP : PaidUp E) (hT : Tallied E) (hv : E.config = some v)
    (hfund : E.unpaidOf m ≤ E.holding m) (hbegin : Step c o E ⟨.beginDist m, []⟩ E₁)
    (hfit : ¬ Overflows E ⟨.beginDist m, []⟩) (hrun : Trace (DustStep c o m) E₁ acts E₂)
    (hclose : Step c o E₂ a E₃) (hdeed : a.deed = .closeDist m) :
    E₂.holding m = E.overReserved m + returned c o m (acts.flatMap (·.moves)) +
        roundingLoss v.beneficiaries (E.holding m - bequeathed E.assignments m) ∧
      E.holding m + returned c o m (acts.flatMap (·.moves)) = E₂.holding m + E.unpaidOf m +
        ∑ i ∈ Finset.range v.beneficiaries.length,
          share v.beneficiaries (E.holding m - bequeathed E.assignments m) i ∧
      (∃ w, E₂.config = some w ∧ w.beneficiaries = v.beneficiaries) ∧
      ∀ p ∈ payoutsOf (.token m) (acts.flatMap (·.moves)),
        (∃ i, p.purpose = .tokenShare i) ∨ ∃ j, p.purpose = .specificAsset j := by
  have hlog : ∃ l, E.log = some l := by
    cases hbegin with
    | beginDist _ hl => exact ⟨_, hl⟩
  obtain ⟨l, hl⟩ := hlog
  have hway : UnderWay c o v.beneficiaries v.keeperBounty l.solSnapshot E.assignments E :=
    ⟨hE, ⟨v, hv, rfl, rfl⟩, ⟨l, hl, rfl⟩, rfl⟩
  obtain ⟨hm, hdist, hpool⟩ := hway.beginDist hP hbegin
  have hsum := sum_share_le (E.holding m - bequeathed E.assignments m) (hE.accepted v hv).1.shares
  have hle := E.unpaidOf_le m
  have hstart : Pot.Accounted (potTerms v.beneficiaries
      (E.holding m - bequeathed E.assignments m) E.assignments m) (E.holding m) (E.unpaidOf m) 0
      (E₁.tokenPool m) := by
    have hcov : ∑ i ∈ Finset.range v.beneficiaries.length,
        share v.beneficiaries (E.holding m - bequeathed E.assignments m) i + E.unpaidOf m ≤
        E.holding m := by omega
    rw [hpool]
    exact Pot.Accounted.start (T := potTerms _ _ _ m)
      (p := ⟨fun _ => false, Bitmask.test E.planBits, E.holding m⟩) (fun _ _ => rfl) hcov
  obtain ⟨hdist₂, hacc₂, hkinds⟩ := hdist.account_run (hT.step hE hbegin hfit) hm hstart hrun
  obtain ⟨hshares, hbequests⟩ := hdist₂.all_paid hclose hdeed
  have hend := hacc₂.finish hshares hbequests
  change E₂.holding m + ∑ i ∈ Finset.range v.beneficiaries.length, share v.beneficiaries _ i +
    E.unpaidOf m = _ at hend
  obtain ⟨w, hw, hbenef, -⟩ := hdist₂.config
  refine ⟨?_, by omega, ⟨w, hw, hbenef⟩, hkinds⟩
  unfold overReserved roundingLoss
  omega

end Estate

end DeadMansVault
