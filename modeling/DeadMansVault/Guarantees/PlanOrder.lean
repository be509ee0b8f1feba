-- SUMMARY: The bequests of each mint are paid in index order, and the order never blocks the plan.
import DeadMansVault.Estate.Lifecycle
import DeadMansVault.Program.Scenario

/-!
# The order of the bequests

A bequest is paid only after those of the same mint with a lower index. So the paid ones
of a mint are the first ones of it, the next one can always be paid as far as the order goes,
and each call takes the plan one step closer to its full mask.
-/

namespace DeadMansVault

namespace AssetPlan

/-- Assignment `j` passes the two checks that both handlers make on the mask of the plan: all
    lower assignments of its mint are paid, and itself is not. -/
def Payable (p : AssetPlan) (j : Nat) : Prop :=
  ∃ a, p.assignments[j]? = some a ∧
    p.paidMask &&& lowerIndexSameMintMask p a.mint j = lowerIndexSameMintMask p a.mint j ∧
    Bitmask.test p.paidMask j = false

/-- Assignment `j` is of the mint. -/
def IsOf (p : AssetPlan) (mint : Pubkey) (j : Nat) : Prop :=
  (p.assignments[j]?).map (·.mint) = some mint

/-- The plan with assignment `j` paid. -/
def pay (p : AssetPlan) (j : Nat) : AssetPlan :=
  { p with paidMask := Bitmask.mark p.paidMask j }

/-- One of the two handlers accepts a call for assignment `j` in a world that holds the plan
    `p` for its vault, and leaves `p'` there. -/
def Called (c : Cluster) (p : AssetPlan) (j : Nat) (p' : AssetPlan) : Prop :=
  ∃ (s s' : World) (vaultKey : Pubkey), s.assetPlans (.assetPlan vaultKey) = some p ∧
    s'.assetPlans (.assetPlan vaultKey) = some p' ∧
    ((∃ ctx : ExecuteSpecificAsset, ctx.vaultConfig = vaultKey ∧
        exec c (.executeSpecificAsset ctx j) s = .ok s') ∨
      ∃ ctx : ExecuteSpecificSol, ctx.vaultConfig = vaultKey ∧
        exec c (.executeSpecificSol ctx j) s = .ok s')

variable {c : Cluster} {p p' : AssetPlan} {j : Nat}

/-- What a call does to the plan, whichever handler it goes to. -/
theorem Called.payable (h : Called c p j p') : p.Payable j ∧ p' = p.pay j := by
  obtain ⟨s, s', vaultKey, hp, hp', ⟨ctx, rfl, hexec⟩ | ⟨ctx, rfl, hexec⟩⟩ := h
  · have hcall : executeSpecificAsset c ctx j s.fresh = .ok s' := hexec
    obtain ⟨vault, log, plan, dist, a, benef, program, -, -, hplan, -, -, ha, -, -, -, -, -, horder,
      hclear, -, rfl⟩ := executeSpecificAsset_ok hcall
    obtain rfl : p = plan := Option.some.inj (hp.symm.trans hplan)
    refine ⟨⟨a, ha, horder, hclear⟩, ?_⟩
    simpa [pay] using hp'.symm
  · have hcall : executeSpecificSol c ctx j s.fresh = .ok s' := hexec
    obtain ⟨vault, log, plan, a, benef, -, -, hplan, ha, hm, -, -, horder, hclear, rfl⟩ :=
      executeSpecificSol_ok hcall
    obtain rfl : p = plan := Option.some.inj (hp.symm.trans hplan)
    refine ⟨⟨a, ha, hm ▸ horder, hclear⟩, ?_⟩
    simpa [pay] using hp'.symm

/-- The checks, in terms of the assignments. -/
theorem payable_iff (hlen : p.assignments.length ≤ 64) :
    p.Payable j ↔ ∃ mint, p.IsOf mint j ∧ Bitmask.test p.paidMask j = false ∧
      ∀ k, k < j → p.IsOf mint k → Bitmask.test p.paidMask k = true := by
  have hmask : ∀ a, p.assignments[j]? = some a →
      (p.paidMask &&& lowerIndexSameMintMask p a.mint j = lowerIndexSameMintMask p a.mint j ↔
        ∀ k, k < j → p.IsOf a.mint k → Bitmask.test p.paidMask k = true) := fun a ha => by
    have hj : j < p.assignments.length := (List.getElem?_eq_some_iff.mp ha).1
    rw [Bitmask.and_eq_right_iff]
    simp only [test_lowerIndexSameMintMask p a.mint (hj.le.trans hlen), decide_eq_true_eq, and_imp]
    rfl
  constructor
  · rintro ⟨a, ha, horder, hclear⟩
    exact ⟨a.mint, by rw [IsOf, ha]; rfl, hclear, (hmask a ha).mp horder⟩
  · rintro ⟨mint, hmint, hclear, hlower⟩
    obtain ⟨a, ha, rfl⟩ := Option.map_eq_some_iff.mp hmint
    exact ⟨a, ha, (hmask a ha).mpr hlower, hclear⟩

/-- Of the assignments of a mint that are unpaid, exactly the lowest one can be paid. -/
theorem exists_lowest_payable (hlen : p.assignments.length ≤ 64) {mint : Pubkey}
    (hmint : p.IsOf mint j) (hclear : Bitmask.test p.paidMask j = false) :
    ∃ k, p.IsOf mint k ∧ Bitmask.test p.paidMask k = false ∧
      (∀ k', p.IsOf mint k' → Bitmask.test p.paidMask k' = false → k ≤ k') ∧
      ∀ k', p.IsOf mint k' ∧ p.Payable k' ↔ k' = k := by
  classical
  have hex : ∃ k, p.IsOf mint k ∧ Bitmask.test p.paidMask k = false := ⟨j, hmint, hclear⟩
  obtain ⟨hk, hkclear⟩ := Nat.find_spec hex
  have hlowest : ∀ k', p.IsOf mint k' → Bitmask.test p.paidMask k' = false →
      Nat.find hex ≤ k' := fun k' hk' hclear' => Nat.find_min' hex ⟨hk', hclear'⟩
  have hbelow : ∀ k', k' < Nat.find hex → p.IsOf mint k' → Bitmask.test p.paidMask k' = true :=
    fun k' hlt hk' => by
      by_contra hnot
      exact absurd (hlowest k' hk' (Bool.not_eq_true _ ▸ hnot)) (not_le.mpr hlt)
  refine ⟨Nat.find hex, hk, hkclear, hlowest, fun k' => ⟨?_, ?_⟩⟩
  · rintro ⟨hk', hpayable⟩
    obtain ⟨mint', hmint', hclear', hlower⟩ := (payable_iff hlen).mp hpayable
    obtain rfl : mint = mint' := Option.some.inj (hk'.symm.trans hmint')
    -- A payable assignment above the lowest unpaid one would have it paid.
    rcases Nat.lt_or_ge (Nat.find hex) k' with hlt | hge
    · rw [hlower _ hlt hk] at hkclear
      cases hkclear
    · exact Nat.le_antisymm hge (hlowest k' hk' hclear')
  · rintro rfl
    exact ⟨hk, (payable_iff hlen).mpr ⟨mint, hk, hkclear, hbelow⟩⟩

/-! ## Runs of calls -/

/-- What a run of calls has made of the plan that lists `assignments`, with nothing paid. -/
structure Progressed (assignments : List AssetAssignment) (js : List Nat) (p : AssetPlan) :
    Prop where
  assignments_eq : p.assignments = assignments
  sub : Bitmask.Sub p.paidMask (fullMaskU64 assignments.length)
  inOrder : Estate.InOrder p
  count : (Bitmask.marked p.paidMask assignments.length).card = js.length

variable {assignments : List AssetAssignment} {js : List Nat}

theorem Progressed.start (vault : Pubkey) : Progressed assignments [] ⟨vault, assignments, 0⟩ where
  assignments_eq := rfl
  sub := Bitmask.sub_full_zero
  inOrder := fun j a _ hbit => by
    rw [show (0 : BitVec 64) = 0#64 from rfl, Bitmask.test_zero] at hbit
    cases hbit
  count := by
    rw [show (0 : BitVec 64) = 0#64 from rfl, Bitmask.marked_zero]
    rfl

theorem Progressed.pay (hlen : assignments.length ≤ 64) (h : Progressed assignments js p)
    (hpay : p.Payable j) : Progressed assignments (js ++ [j]) (p.pay j) := by
  obtain ⟨a, ha, horder, hclear⟩ := hpay
  have hlen' : p.assignments.length ≤ 64 := h.assignments_eq ▸ hlen
  have hj : j < assignments.length := by
    rw [← h.assignments_eq]
    exact (List.getElem?_eq_some_iff.mp ha).1
  refine ⟨h.assignments_eq, Bitmask.sub_full_mark hlen h.sub hj,
    Estate.InOrder.mark h.inOrder hlen' ha horder, ?_⟩
  rw [AssetPlan.pay, Bitmask.card_marked_mark hlen hj hclear, h.count, List.length_append]
  rfl

theorem Progressed.full_iff (hlen : assignments.length ≤ 64) (h : Progressed assignments js p) :
    p.paidMask = fullMaskU64 assignments.length ↔ js.length = assignments.length := by
  rw [← h.count]
  exact Bitmask.eq_full_iff_card hlen h.sub

/-- While the mask is not full, some assignment can be paid. -/
theorem Progressed.exists_payable (hlen : assignments.length ≤ 64)
    (h : Progressed assignments js p) (hnot : p.paidMask ≠ fullMaskU64 assignments.length) :
    ∃ j, p.Payable j := by
  rw [ne_eq, fullMaskU64, Bitmask.eq_full_iff hlen h.sub, not_forall] at hnot
  obtain ⟨j, hnot⟩ := hnot
  rw [Classical.not_imp, Bool.not_eq_true] at hnot
  obtain ⟨hj, hclear⟩ := hnot
  have hlen' : p.assignments.length ≤ 64 := h.assignments_eq ▸ hlen
  rw [← h.assignments_eq] at hj
  have hmint : p.IsOf p.assignments[j].mint j := by
    rw [IsOf, List.getElem?_eq_getElem hj]
    rfl
  obtain ⟨k, -, -, -, hpayable⟩ := exists_lowest_payable hlen' hmint hclear
  exact ⟨k, ((hpayable k).mpr rfl).2⟩

/-- As far as the order goes, a plan can be paid to its end from wherever it stands. -/
theorem Progressed.completable (hlen : assignments.length ≤ 64) (h : Progressed assignments js p) :
    ∃ rest p', Trace (fun p j p' => p.Payable j ∧ p' = p.pay j) p rest p' ∧
      p'.paidMask = fullMaskU64 assignments.length ∧
      js.length + rest.length = assignments.length := by
  -- Every payment brings the number of paid assignments closer to the length of the plan.
  have hle : js.length ≤ assignments.length := by
    rw [← h.count]
    exact Bitmask.card_marked_le _ _
  obtain ⟨n, hn⟩ := Nat.exists_eq_add_of_le hle
  induction n generalizing js p with
  | zero =>
      have hdone : js.length = assignments.length := hn.symm
      exact ⟨[], p, .nil p, (h.full_iff hlen).mpr hdone, hdone⟩
  | succ n ih =>
      have hnot : p.paidMask ≠ fullMaskU64 assignments.length := fun hfull => by
        have hdone := (h.full_iff hlen).mp hfull
        omega
      obtain ⟨j, hpayable⟩ := h.exists_payable hlen hnot
      have hcount : (js ++ [j]).length = js.length + 1 := List.length_append
      obtain ⟨rest, p', hrun, hfull, hlength⟩ := ih (h.pay hlen hpayable) (by omega) (by omega)
      refine ⟨j :: rest, p', .cons ⟨hpayable, rfl⟩ hrun, hfull, ?_⟩
      rw [List.length_cons]
      omega

theorem Progressed.of_calls (hlen : assignments.length ≤ 64) {vault : Pubkey}
    (h : Trace (Called c) ⟨vault, assignments, 0⟩ js p) : Progressed assignments js p :=
  h.preserves_history (P := Progressed assignments)
    (fun _ _ _ _ hp hcall => by
      obtain ⟨hpayable, rfl⟩ := hcall.payable
      exact hp.pay hlen hpayable)
    (.start vault)

/-- **Bequests in order.** Whatever calls have paid of a plan: the paid assignments of a mint
    are the first ones of it; if one is unpaid, then exactly the lowest unpaid one passes the
    checks; while the mask is not full, some assignment does; the mask is full after exactly
    as many calls as there are assignments, and the order lets every run go on to that end. -/
theorem bequests_in_order {vault : Pubkey} (hlen : assignments.length ≤ maxAssignments)
    (h : Trace (Called c) ⟨vault, assignments, 0⟩ js p) :
    p.assignments = assignments ∧
      (∀ mint j k, p.IsOf mint j → p.IsOf mint k → k < j → Bitmask.test p.paidMask j = true →
        Bitmask.test p.paidMask k = true) ∧
      (∀ mint j, p.IsOf mint j → Bitmask.test p.paidMask j = false →
        ∃ k, p.IsOf mint k ∧ Bitmask.test p.paidMask k = false ∧
          (∀ k', p.IsOf mint k' → Bitmask.test p.paidMask k' = false → k ≤ k') ∧
          ∀ k', p.IsOf mint k' ∧ p.Payable k' ↔ k' = k) ∧
      (p.paidMask ≠ fullMaskU64 assignments.length → ∃ j, p.Payable j) ∧
      (p.paidMask = fullMaskU64 assignments.length ↔ js.length = assignments.length) ∧
      ∃ rest p', Trace (fun p j p' => p.Payable j ∧ p' = p.pay j) p rest p' ∧
        p'.paidMask = fullMaskU64 assignments.length ∧
        js.length + rest.length = assignments.length := by
  have hp := Progressed.of_calls hlen h
  have hlen' : p.assignments.length ≤ 64 := hp.assignments_eq ▸ hlen
  refine ⟨hp.assignments_eq, fun mint j k hj hk hlt hbit => ?_,
    fun mint j hmint hclear => exists_lowest_payable hlen' hmint hclear, hp.exists_payable hlen,
    hp.full_iff hlen, hp.completable hlen⟩
  obtain ⟨a, ha, rfl⟩ := Option.map_eq_some_iff.mp hj
  obtain ⟨b, hb, hmint⟩ := Option.map_eq_some_iff.mp hk
  exact hp.inOrder j a ha hbit k b hlt hb hmint

end AssetPlan

namespace Sample

/-- The distribution of the gold has begun, and no bequest is paid. -/
def unpaid : World := begun.play cluster (payouts.take 2)

/-- The bequest of SOL is paid. -/
def solPaid : World := unpaid.cue cluster (executeSpecificSol bob 0)

/-- And that of gold. -/
def allPaid : World := solPaid.cue cluster (executeSpecificAsset alice 1)

theorem paid_evaluates :
    (unpaid.assetPlans (.assetPlan vault) = some ⟨vault, assignments, 0⟩ ∧
      solPaid.assetPlans (.assetPlan vault) = some ⟨vault, assignments, 1⟩ ∧
      allPaid.assetPlans (.assetPlan vault) = some ⟨vault, assignments, 3⟩) ∧
    unpaid.accepts cluster (executeSpecificSol bob 0) = true ∧
    solPaid.accepts cluster (executeSpecificAsset alice 1) = true := by
  decide +kernel

/-- Both bequests of the sample are paid, by one call of each handler. -/
theorem paid_called : Trace (AssetPlan.Called cluster) ⟨vault, assignments, 0⟩ [0, 1]
    ⟨vault, assignments, 3⟩ := by
  obtain ⟨⟨hunpaid, hsol, hall⟩, haccepts, haccepts'⟩ := paid_evaluates
  have hfirst : AssetPlan.Called cluster ⟨vault, assignments, 0⟩ 0 ⟨vault, assignments, 1⟩ :=
    ⟨unpaid, solPaid, vault, hunpaid, hsol,
      .inr ⟨⟨keeper, vault, .execution vault, .assetPlan vault, bob⟩, rfl, exec_cue haccepts⟩⟩
  have hsecond : AssetPlan.Called cluster ⟨vault, assignments, 1⟩ 1 ⟨vault, assignments, 3⟩ :=
    ⟨solPaid, allPaid, vault, hsol, hall,
      .inl ⟨⟨keeper, vault, .execution vault, .assetPlan vault, gold, .tokenDist vault gold,
        ata vault, ata alice, .token⟩, rfl, exec_cue haccepts'⟩⟩
  exact .cons hfirst (.single hsecond)

end Sample

/-- The two calls of the sample make the mask full. -/
theorem AssetPlan.bequests_in_order_sample :
    (3 : BitVec 64) = fullMaskU64 Sample.assignments.length ↔
      [0, 1].length = Sample.assignments.length :=
  (bequests_in_order (by decide) Sample.paid_called).2.2.2.2.1

end DeadMansVault
