-- SUMMARY: An execution as a run of two pots: the lamports above rent, and the tokens of a mint.
import DeadMansVault.Estate.Solvency
import DeadMansVault.Library.Payout

/-!
# Payouts

The four payouts serve two kinds of pots. For SOL and for each mint, the steps
of an estate under way are the steps of a pot whose bequests are the assignments
of that mint and whose shares are those of the snapshot; what leaves the estate
is what the pot pays.
-/

namespace DeadMansVault

/-- Who has been paid how much, and why. -/
structure Payout where
  recipient : Pubkey
  amount : Nat
  purpose : Purpose
  deriving DecidableEq, Repr

/-- The payout, if it pays anything. -/
def Payout.made (p : Payout) : List Payout :=
  if 0 < p.amount then [p] else []

def Movement.payout (mv : Movement) : Payout :=
  ⟨mv.recipient, mv.amount, mv.purpose⟩

theorem Movement.map_payout_made (mv : Movement) :
    mv.made.map Movement.payout = mv.payout.made := by
  unfold Movement.made Payout.made Movement.payout
  split
  · rfl
  · rfl

theorem Payout.made_zero {recipient : Pubkey} {purpose : Purpose} :
    Payout.made ⟨recipient, 0, purpose⟩ = [] := rfl

theorem Payout.sum_made (p : Payout) : (p.made.map (·.amount)).sum = p.amount := by
  unfold Payout.made
  split
  · simp
  · simp only [List.map_nil, List.sum_nil]
    omega

/-- The payout of `amount` to beneficiary `i`. -/
def sharePayout (beneficiaries : List Beneficiary) (purpose : Nat → Purpose) (i amount : Nat) :
    List Payout :=
  beneficiaries[i]?.elim [] fun b => Payout.made ⟨b.wallet, amount, purpose i⟩

/-- The payout of `amount` to the beneficiary of assignment `j`. -/
def bequestPayout (beneficiaries : List Beneficiary) (assignments : List AssetAssignment)
    (purpose : Nat → Purpose) (j amount : Nat) : List Payout :=
  (assignments[j]?.bind fun a => beneficiaries[a.beneficiaryIndex]?).elim [] fun b =>
    Payout.made ⟨b.wallet, amount, purpose j⟩

/-- The payouts of the shares in `snapshot`. -/
def sharePayouts (beneficiaries : List Beneficiary) (purpose : Nat → Purpose) (snapshot : Nat) :
    List Payout :=
  (List.range beneficiaries.length).flatMap fun i =>
    sharePayout beneficiaries purpose i (share beneficiaries snapshot i)

/-- The payouts of the assignments, each with the amount it gets. -/
def bequestPayouts (beneficiaries : List Beneficiary) (assignments : List AssetAssignment)
    (purpose : Nat → Purpose) (amount : Nat → Nat) : List Payout :=
  (List.range assignments.length).flatMap fun j =>
    bequestPayout beneficiaries assignments purpose j (amount j)

/-- What assignment `j` gets of `total`: its amount, as far as the earlier
    assignments of the mint leave that much. -/
def granted (assignments : List AssetAssignment) (mint : Pubkey) (total j : Nat) : Nat :=
  min (bequest assignments mint j) (total - bequeathed (assignments.take j) mint)

/-- What a pot of `mint` owes. -/
def potTerms (beneficiaries : List Beneficiary) (snapshot : Nat)
    (assignments : List AssetAssignment) (mint : Pubkey) : Pot.Terms where
  n := beneficiaries.length
  share := share beneficiaries snapshot
  m := assignments.length
  bequest := bequest assignments mint

/-- The payout that an entry of a pot stands for. -/
def entryPayout (beneficiaries : List Beneficiary) (assignments : List AssetAssignment)
    (ofShare ofBequest : Nat → Purpose) : Pot.Entry → List Payout
  | .share i amount => sharePayout beneficiaries ofShare i amount
  | .bequest j amount => bequestPayout beneficiaries assignments ofBequest j amount
  | .deposit _ => []

section Entries

variable {beneficiaries : List Beneficiary} {assignments : List AssetAssignment}
  {ofShare ofBequest : Nat → Purpose} {mint : Pubkey} {snapshot total : Nat}

theorem sharePayout_zero {i : Nat} : sharePayout beneficiaries ofShare i 0 = [] := by
  cases h : beneficiaries[i]? <;> simp [sharePayout, h, Payout.made_zero]

theorem entryPayout_zero (e : Pot.Entry) (he : e.paid = 0) :
    entryPayout beneficiaries assignments ofShare ofBequest e = [] := by
  cases e with
  | share i amount =>
      obtain rfl : amount = 0 := he
      exact sharePayout_zero
  | bequest j amount =>
      obtain rfl : amount = 0 := he
      cases h : assignments[j]?.bind fun a => beneficiaries[a.beneficiaryIndex]? <;>
        simp [entryPayout, bequestPayout, h, Payout.made_zero]
  | deposit _ => rfl

/-- Every payout of a pot is one of the two kinds. -/
theorem entryPayout_purpose {e : Pot.Entry} {p : Payout}
    (hp : p ∈ entryPayout beneficiaries assignments ofShare ofBequest e) :
    (∃ i, p.purpose = ofShare i) ∨ ∃ j, p.purpose = ofBequest j := by
  have hmade : ∀ {q : Payout}, p ∈ q.made → p = q := by
    intro q hq
    unfold Payout.made at hq
    split at hq
    · exact List.mem_singleton.mp hq
    · cases hq
  cases e with
  | share i amount =>
      refine .inl ⟨i, ?_⟩
      cases hb : beneficiaries[i]? with
      | none => simp [entryPayout, sharePayout, hb] at hp
      | some b => rw [hmade (by simpa [entryPayout, sharePayout, hb] using hp)]
  | bequest j amount =>
      refine .inr ⟨j, ?_⟩
      cases hb : assignments[j]?.bind fun a => beneficiaries[a.beneficiaryIndex]? with
      | none => simp [entryPayout, bequestPayout, hb] at hp
      | some b => rw [hmade (by simpa [entryPayout, bequestPayout, hb] using hp)]
  | deposit _ => cases hp

theorem taken_eq_granted (beneficiaries : List Beneficiary) (snapshot j : Nat) :
    Pot.taken (potTerms beneficiaries snapshot assignments mint) total j =
      granted assignments mint total j := by
  unfold Pot.taken granted
  rw [bequeathed_take]
  rfl

/-- When every debt is paid, the payments are the shares and the bequests. -/
theorem payments_eq_payouts {p : Pot.Pool}
    (hs : ∀ i < beneficiaries.length, p.paidShare i = true)
    (hb : ∀ j < assignments.length, p.paidBequest j = true) :
    Pot.payments (potTerms beneficiaries snapshot assignments mint) total
      (entryPayout beneficiaries assignments ofShare ofBequest) p =
      sharePayouts beneficiaries ofShare snapshot ++
        bequestPayouts beneficiaries assignments ofBequest (granted assignments mint total) := by
  rw [Pot.Settles.payments_eq hs hb]
  simp only [taken_eq_granted]
  rfl

theorem bequest_lt {j : Nat} (h : bequest assignments mint j ≠ 0) : j < assignments.length := by
  by_contra hnot
  exact h (by simp [bequest, List.getElem?_eq_none (Nat.le_of_not_lt hnot)])

theorem sharePayouts_zero : sharePayouts beneficiaries ofShare 0 = [] := by
  rw [sharePayouts, List.flatMap_eq_nil_iff]
  intro i _
  rw [share_zero]
  exact sharePayout_zero

theorem granted_of_funded (hfund : bequeathed assignments mint ≤ total) {j : Nat}
    (hj : j < assignments.length) : granted assignments mint total j = bequest assignments mint j := by
  rw [← taken_eq_granted [] 0]
  exact Pot.taken_of_funded (by rwa [bequeathed_eq_sum] at hfund) hj

/-- Where the total reaches for all of them, the bequests are paid in full. -/
theorem bequestPayouts_of_funded (hfund : bequeathed assignments mint ≤ total) :
    bequestPayouts beneficiaries assignments ofBequest (granted assignments mint total) =
      bequestPayouts beneficiaries assignments ofBequest (bequest assignments mint) := by
  unfold bequestPayouts
  refine List.flatMap_congr fun j hj => ?_
  rw [granted_of_funded hfund (List.mem_range.mp hj)]

/-- The order mask has every earlier assignment of the mint paid. -/
theorem bequest_ready {p : AssetPlan} {j : Nat} (hj : j ≤ 64)
    (horder : p.paidMask &&& lowerIndexSameMintMask p mint j = lowerIndexSameMintMask p mint j) :
    ∀ k < j, bequest p.assignments mint k = 0 ∨ Bitmask.test p.paidMask k = true := by
  intro k hk
  cases ha : p.assignments[k]? with
  | none => exact .inl (by simp [bequest, ha])
  | some a =>
      by_cases hm : a.mint = mint
      · refine .inr (Bitmask.and_eq_right_iff.mp horder k ?_)
        rw [test_lowerIndexSameMintMask p mint hj]
        simp [hk, ha, hm]
      · exact .inl (bequest_of_ne ha hm)

end Entries

/-- The payouts in `asset` among some movements. -/
def payoutsOf (asset : Asset) (moves : List Movement) : List Payout :=
  (moves.filter fun mv => decide (mv.asset = asset)).map Movement.payout

section

variable {asset : Asset}

theorem payoutsOf_made (mv : Movement) :
    payoutsOf asset mv.made = if mv.asset = asset then mv.payout.made else [] := by
  unfold payoutsOf
  rw [← Movement.map_payout_made]
  unfold Movement.made
  by_cases ha : mv.asset = asset <;> by_cases hpos : 0 < mv.amount <;> simp [ha, hpos]

theorem payoutsOf_append (moves moves' : List Movement) :
    payoutsOf asset (moves ++ moves') = payoutsOf asset moves ++ payoutsOf asset moves' := by
  simp [payoutsOf]

theorem payoutsOf_flatMap (acts : List Act) :
    payoutsOf asset (acts.flatMap (·.moves)) = acts.flatMap fun a => payoutsOf asset a.moves := by
  simp [payoutsOf, List.filter_flatMap, List.map_flatMap]

end

/-- The movement pays a share of `m` into the very account of the vault it comes from. -/
def Movement.returns (c : Cluster) (o m : Pubkey) (mv : Movement) : Bool :=
  match mv.purpose with
  | .tokenShare _ => decide (mv.asset = .token m ∧
      mv.source = World.canonicalAta c (.vault o) m ∧ mv.dest = World.canonicalAta c (.vault o) m)
  | _ => false

/-- What such movements amount to. -/
def returned (c : Cluster) (o m : Pubkey) (moves : List Movement) : Nat :=
  ((moves.filter (Movement.returns c o m)).map (·.amount)).sum

section

variable {c : Cluster} {o m : Pubkey}

theorem returned_made (mv : Movement) :
    returned c o m mv.made = if mv.returns c o m then mv.amount else 0 := by
  unfold returned Movement.made
  by_cases hpos : 0 < mv.amount
  · by_cases hret : mv.returns c o m = true <;> simp [hpos, hret]
  · have hzero : mv.amount = 0 := by omega
    simp [hzero]

theorem returned_append (moves moves' : List Movement) :
    returned c o m (moves ++ moves') = returned c o m moves + returned c o m moves' := by
  simp [returned]

end

namespace Estate

variable {c : Cluster} {o : Pubkey} {E E' : Estate} {beneficiaries : List Beneficiary}
  {snapshot bounty : Nat} {assignments : List AssetAssignment}

/-- An execution under these terms is under way. -/
structure UnderWay (c : Cluster) (o : Pubkey) (beneficiaries : List Beneficiary)
    (bounty snapshot : Nat) (assignments : List AssetAssignment) (E : Estate) : Prop where
  lawful : Lawful c o E
  config : ∃ v, E.config = some v ∧ v.beneficiaries = beneficiaries ∧ v.keeperBounty = bounty
  log : ∃ l, E.log = some l ∧ l.solSnapshot = snapshot
  plan : E.assignments = assignments

theorem UnderWay.step (hE : UnderWay c o beneficiaries bounty snapshot assignments E) {a : Act}
    (h : Step c o E a E') (hclose : a.deed ≠ .close) :
    UnderWay c o beneficiaries bounty snapshot assignments E' := by
  obtain ⟨v, hv, hb⟩ := hE.config
  obtain ⟨l, hl, hs⟩ := hE.log
  have hproceeds := (hE.lawful.due hl).proceeds hE.lawful h hclose
  obtain ⟨v', hv', heq, -⟩ := hproceeds.config v hv
  obtain ⟨l', hl', hs', -⟩ := hproceeds.log l hl
  refine ⟨hE.lawful.step h, ⟨v', hv', ?_⟩, ⟨l', hl', hs'.trans hs⟩,
    hproceeds.assignments_eq.trans hE.plan⟩
  rw [heq]
  exact hb

/-- The lamports above rent, as a pot. -/
def solPool (c : Cluster) (E : Estate) : Pot.Pool where
  paidShare i := E.log.elim false fun l => Bitmask.test l.solPaidMask i
  paidBequest := Bitmask.test E.planBits
  balance := E.lamports - c.minimumBalance VaultConfig.space

/-- The terms under which an execution begins, with nothing paid. -/
theorem Lawful.begin_underWay (hE : Lawful c o E) {v : VaultConfig} (hv : E.config = some v)
    (h : Step c o E ⟨.begin, []⟩ E') :
    UnderWay c o v.beneficiaries v.keeperBounty
      (E.lamports - c.minimumBalance VaultConfig.space - bequeathed E.assignments .default -
        v.keeperBounty) E.assignments E' ∧
    E'.solPool c = ⟨fun _ => false, fun _ => false,
      E.lamports - c.minimumBalance VaultConfig.space⟩ := by
  obtain ⟨w, hb, hw, -, hnone, -, -, rfl⟩ := h.begin_eq rfl
  obtain rfl : v = w := by simpa [hv] using hw
  have hreg : E.registered v = E.assignments := hE.registered_eq hv
  refine ⟨⟨hE.step h, ⟨v, hv, rfl, rfl⟩, ⟨_, rfl, by rw [hreg]⟩, rfl⟩, ?_⟩
  have hbits : E.planBits = 0 := by
    cases hp : E.plan with
    | none => simp [planBits, hp]
    | some p =>
        by_contra hne
        have hlog := hE.paid p hp (by simpa [planBits, hp] using hne)
        simp [hnone] at hlog
  unfold planBits at hbits
  simp only [solPool, planBits, hbits, Option.elim_some, Pot.Pool.mk.injEq, and_true]
  exact ⟨funext fun i => Bitmask.test_zero i, funext fun j => Bitmask.test_zero j⟩

/-- A finalize has found every assignment paid. -/
theorem Lawful.plan_paid (hE : Lawful c o E) {v : VaultConfig} (hv : E.config = some v)
    (hfull : v.hasAssetPlan = true → ∃ p, E.plan = some p ∧
      p.paidMask = fullMaskU64 p.assignments.length) :
    ∀ j < E.assignments.length, Bitmask.test E.planBits j = true := by
  intro j hj
  cases hp : E.plan with
  | none => simp [Estate.assignments, hp] at hj
  | some p =>
      obtain ⟨w, hw, hhas⟩ := hE.planned.mp (by simp [hp])
      obtain rfl : v = w := by simpa [hv] using hw
      obtain ⟨q, hq, hmask⟩ := hfull hhas
      obtain rfl : p = q := by simpa [hp] using hq
      simp only [Estate.assignments, hp, Option.elim_some] at hj
      simp only [planBits, hp, Option.elim_some]
      exact Bitmask.test_of_eq_full (hE.plan p hp).2 hmask hj

/-- Marking an assignment pays it, in the pot of its own mint and, with nothing, in
    every other. -/
theorem Lawful.bequest_step (hE : Lawful c o E) {p : AssetPlan} {j : Nat} {a : AssetAssignment}
    {mint : Pubkey} {pool : Pot.Pool} (hp : E.plan = some p) (ha : p.assignments[j]? = some a)
    (horder : p.paidMask &&& lowerIndexSameMintMask p a.mint j =
      lowerIndexSameMintMask p a.mint j)
    (hclear : Bitmask.test p.paidMask j = false)
    (hpool : pool.paidBequest = Bitmask.test p.paidMask) :
    Pot.Step (potTerms beneficiaries snapshot E.assignments mint) pool
      (.bequest j (min (bequest p.assignments mint j) pool.balance))
      { pool with
        paidBequest := Bitmask.test (Bitmask.mark p.paidMask j)
        balance := pool.balance - min (bequest p.assignments mint j) pool.balance } := by
  have hj := (List.getElem?_eq_some_iff.mp ha).1
  have hlen := (hE.plan p hp).2
  have heq : E.assignments = p.assignments := by simp [Estate.assignments, hp]
  rw [heq, test_mark_eq (show j < 64 from hj.trans_le hlen), ← hpool]
  refine .bequest hj (by rw [hpool, hclear]) ?_
  by_cases hm : a.mint = mint
  · subst hm
    rw [hpool]
    exact .inr (bequest_ready (hj.le.trans hlen) horder)
  · exact .inl (bequest_of_ne ha hm)

/-- The payout of an entry of the SOL pot. -/
def solEntry (beneficiaries : List Beneficiary) (assignments : List AssetAssignment) :
    Pot.Entry → List Payout :=
  entryPayout beneficiaries assignments .solShare .specificSol

/-- Until it is finalized, an execution runs the SOL pot. -/
theorem UnderWay.sol_step (hE : UnderWay c o beneficiaries bounty snapshot assignments E) {a : Act}
    (h : Step c o E a E') (hclose : a.deed ≠ .close) (hfin : ∀ payer, a.deed ≠ .finalize payer)
    (hquiet : a.deed = .interfere → E'.lamports ≤ E.lamports) :
    ∃ es, Trace (Pot.Step (potTerms beneficiaries snapshot assignments .default))
        (E.solPool c) es (E'.solPool c) ∧
      payoutsOf .sol a.moves = es.flatMap (solEntry beneficiaries assignments) ∧
      ∀ e ∈ es, e.deposited = 0 := by
  obtain ⟨v, hv, rfl, -⟩ := hE.config
  obtain ⟨l, hl, rfl⟩ := hE.log
  obtain rfl := hE.plan
  obtain ⟨hacc, -⟩ := hE.lawful.accepted v hv
  have hliving := (hE.lawful.due hl).not_living hE.lawful h
  cases h with
  | create | amend | withdraw | revoke | closeRevoked => cases hliving
  | interfere _ hL _ =>
      obtain rfl := le_antisymm hL (hquiet rfl)
      exact ⟨[], .nil _, rfl, by simp⟩
  | begin _ _ hnone _ _ _ => simp [hl] at hnone
  | beginDist => exact ⟨[], .nil _, rfl, by simp⟩
  | @specificAsset _ _ p _ m _ j a _ _ _ hp _ ha hm hdefault _ _ horder hclear =>
      -- An assignment of a mint is no debt of the SOL pot.
      obtain rfl := hm
      have hzero : bequest p.assignments .default j = 0 := bequest_of_ne ha hdefault
      have hpool : (E.solPool c).paidBequest = Bitmask.test p.paidMask := by
        simp [solPool, planBits, hp]
      refine ⟨[.bequest j (min (bequest p.assignments .default j) (E.solPool c).balance)],
        .single ?_, ?_, by simp [Pot.Entry.deposited]⟩
      · convert hE.lawful.bequest_step hp ha horder hclear hpool using 1
        simp [solPool, planBits, hzero]
      · rw [payoutsOf_made, hzero, Nat.zero_min, List.flatMap_singleton, solEntry,
          entryPayout_zero _ rfl]
        rfl
  | @specificSol _ _ p j a b hw _ hp ha hm hb _ horder hclear =>
      obtain rfl : v = _ := by simpa [hv] using hw
      rw [← hm] at horder
      have hamount : bequest p.assignments .default j = a.amount := bequest_of_mem ha hm
      have hpool : (E.solPool c).paidBequest = Bitmask.test p.paidMask := by
        simp [solPool, planBits, hp]
      refine ⟨[.bequest j (min (bequest p.assignments .default j) (E.solPool c).balance)],
        .single ?_, ?_, by simp [Pot.Entry.deposited]⟩
      · convert hE.lawful.bequest_step hp ha horder hclear hpool using 1
        simp [solPool, planBits, hamount, Nat.sub_right_comm]
      · rw [payoutsOf_made, hamount]
        simp [solEntry, entryPayout, bequestPayout, Estate.assignments, hp, ha, hb,
          Movement.payout, solPool]
  | @solShare _ k i _ _ b hw _ hk hb hclear _ _ =>
      obtain rfl : v = _ := by simpa [hv] using hw
      obtain rfl : l = k := by simpa [hl] using hk
      have hi := (List.getElem?_eq_some_iff.mp hb).1
      have hcount : v.beneficiaries.length ≤ 32 := hacc.count.2.trans (by decide)
      rw [shareAmount_eq_share hacc.shares (hE.lawful.logged l hl).2 hb]
      refine ⟨[.share i (share v.beneficiaries l.solSnapshot i)], .single ?_, ?_,
        by simp [Pot.Entry.deposited]⟩
      · convert Pot.Step.share
          (T := potTerms v.beneficiaries l.solSnapshot E.assignments .default)
          (p := E.solPool c) hi (by simpa [solPool, hl] using hclear) using 1
        · rfl
        · simp [solPool, hl, potTerms, test_mark_eq (hi.trans_le hcount), planBits,
            Nat.sub_right_comm]
      · rw [payoutsOf_made]
        simp [solEntry, entryPayout, sharePayout, hb, Movement.payout]
  | tokenShare => exact ⟨[], .nil _, by simp [payoutsOf_made], by simp⟩
  | finalize => exact absurd rfl (hfin _)
  | closeDist => exact ⟨[], .nil _, by simp [payoutsOf_made], by simp⟩
  | close => exact absurd rfl hclose

/-- A step of the execution other than its end, which brings the vault no lamports. -/
def SolStep (c : Cluster) (o : Pubkey) (E : Estate) (a : Act) (E' : Estate) : Prop :=
  Step c o E a E' ∧ a.deed ≠ .close ∧ (∀ payer, a.deed ≠ .finalize payer) ∧
    (a.deed = .interfere → E'.lamports ≤ E.lamports)

theorem UnderWay.sol_run (hE : UnderWay c o beneficiaries bounty snapshot assignments E) {acts : List Act}
    (h : Trace (SolStep c o) E acts E') :
    UnderWay c o beneficiaries bounty snapshot assignments E' ∧
    ∃ es, Trace (Pot.Step (potTerms beneficiaries snapshot assignments .default))
        (E.solPool c) es (E'.solPool c) ∧
      payoutsOf .sol (acts.flatMap (·.moves)) = es.flatMap (solEntry beneficiaries assignments) ∧
      ∀ e ∈ es, e.deposited = 0 := by
  have hkeep := h.strengthen (P := UnderWay c o beneficiaries bounty snapshot assignments)
    (fun _ _ _ hE hstep => hE.step hstep.1 hstep.2.1) hE
  refine ⟨h.preserves (fun _ _ _ hE hstep => hE.step hstep.1 hstep.2.1) hE, ?_⟩
  rw [payoutsOf_flatMap]
  exact hkeep.simulate_output fun F a F' ⟨⟨hstep, hclose, hfin, hquiet⟩, hF, _⟩ =>
    hF.sol_step hstep hclose hfin hquiet

/-- What leaves the vault's lamports is what the step pays. -/
theorem Step.sol_account {a : Act} (h : Step c o E a E') (hliving : a.deed.living = false)
    (hclose : a.deed ≠ .close) (hquiet : a.deed = .interfere → E'.lamports ≤ E.lamports) :
    E'.lamports + ((payoutsOf .sol a.moves).map (·.amount)).sum = E.lamports := by
  cases h with
  | create | amend | withdraw | revoke | closeRevoked => cases hliving
  | interfere _ hL _ => exact le_antisymm (hquiet rfl) hL
  | begin | beginDist => rfl
  | specificAsset | tokenShare | closeDist => simp [payoutsOf_made]
  | specificSol | finalize =>
      simp only [payoutsOf_made, if_true, Payout.sum_made, Movement.payout]
      omega
  | solShare _ _ _ _ _ _ hn =>
      simp only [payoutsOf_made, if_true, Payout.sum_made, Movement.payout]
      omega
  | close => exact absurd rfl hclose

theorem UnderWay.sol_account (hE : UnderWay c o beneficiaries bounty snapshot assignments E)
    {acts : List Act} (h : Trace (SolStep c o) E acts E') :
    E'.lamports + ((payoutsOf .sol (acts.flatMap (·.moves))).map (·.amount)).sum = E.lamports := by
  have hrun := h.preserves_history
    (P := fun as F => UnderWay c o beneficiaries bounty snapshot assignments F ∧
      F.lamports + ((payoutsOf .sol (as.flatMap (·.moves))).map (·.amount)).sum = E.lamports)
    (fun as F a F' ⟨hF, hsum⟩ ⟨hstep, hclose, _, hquiet⟩ => by
      obtain ⟨l, hl, -⟩ := hF.log
      have hone := hstep.sol_account ((hF.lawful.due hl).not_living hF.lawful hstep) hclose hquiet
      refine ⟨hF.step hstep hclose, ?_⟩
      rw [payoutsOf_flatMap] at hsum ⊢
      rw [List.flatMap_append, List.flatMap_singleton, List.map_append, List.sum_append]
      omega)
    ⟨hE, rfl⟩
  exact hrun.2

/-- Whatever the order of an execution, its SOL payouts are the shares in what the
    bequests and the bounty leave, the bequests as far as they are funded, and the
    bounty out of the rest. -/
theorem Lawful.sol_payout {E₀ E₁ E₂ E₃ : Estate} {v : VaultConfig} {acts : List Act} {a : Act}
    {payer : Pubkey} {D S : Nat} (hE : Lawful c o E₀) (hv : E₀.config = some v)
    (hD : D = E₀.lamports - c.minimumBalance VaultConfig.space)
    (hS : S = bequeathed E₀.assignments .default) (hbegin : Step c o E₀ ⟨.begin, []⟩ E₁)
    (hrun : Trace (SolStep c o) E₁ acts E₂) (hfin : Step c o E₂ a E₃)
    (hdeed : a.deed = .finalize payer) :
    (payoutsOf .sol ((acts ++ [a]).flatMap (·.moves))).Perm
      (sharePayouts v.beneficiaries .solShare (D - S - v.keeperBounty) ++
        bequestPayouts v.beneficiaries E₀.assignments .specificSol
          (granted E₀.assignments .default D) ++
        Payout.made ⟨payer, min v.keeperBounty (D - S), .bounty⟩) := by
  obtain ⟨hway, hpool⟩ := hE.begin_underWay hv hbegin
  rw [← hD, ← hS] at hway
  rw [← hD] at hpool
  obtain ⟨hway₂, es, hpot, hout, hdep⟩ := hway.sol_run hrun
  -- The pot starts with `D` and nothing paid, and runs to the finalize.
  have hstart : Pot.Settles (potTerms v.beneficiaries (D - S - v.keeperBounty) E₀.assignments
      .default) D v.keeperBounty (solEntry v.beneficiaries E₀.assignments) []
      (E₁.solPool c) := by
    refine .start entryPayout_zero ?_ (sum_share_le _ (hE.accepted v hv).1.shares) ?_ ?_ ?_ ?_
    · rw [hS, bequeathed_eq_sum]
      rfl
    · simp [hpool]
    · simp [hpool]
    · exact fun j => bequest_lt
    · simp [hpool]
  have hend := hstart.run entryPayout_zero hpot (.inr hdep)
  obtain ⟨w, hw, hbenef, hbounty⟩ := hway₂.config
  obtain ⟨l, hl, -⟩ := hway₂.log
  cases hfin with
  | @finalize w' l' payer' hw' hl' hexec hfull hplan hpayer =>
      obtain rfl : w = w' := by simpa [hw] using hw'
      obtain rfl : l = l' := by simpa [hl] using hl'
      obtain rfl : payer' = payer := by simpa using hdeed
      have hcount := (hway₂.lawful.accepted w hw).1.count.2
      have hshares : ∀ i < v.beneficiaries.length, (E₂.solPool c).paidShare i = true := by
        intro i hi
        rw [← hbenef] at hi
        simp only [solPool, hl, Option.elim_some]
        exact Bitmask.test_of_eq_full (hcount.trans (by decide)) hfull hi
      have hbequests : ∀ j < E₀.assignments.length, (E₂.solPool c).paidBequest j = true := by
        intro j hj
        rw [← hway₂.plan] at hj
        exact hway₂.lawful.plan_paid hw hplan j hj
      have hmin : min w.keeperBounty (E₂.lamports - c.minimumBalance VaultConfig.space) =
          min v.keeperBounty (D - S) := by
        rw [hbounty, hS, bequeathed_eq_sum]
        exact hend.balanced.min_reserve fun j hj => .inr (hbequests j hj)
      rw [payoutsOf_flatMap, List.flatMap_append, List.flatMap_singleton, ← payoutsOf_flatMap, hout,
        payoutsOf_made, if_pos rfl, ← payments_eq_payouts hshares hbequests]
      refine List.Perm.append hend.out ?_
      rw [Movement.payout, hmin]
  | _ => cases hdeed

/-! ## The tokens of one mint -/

/-- An executed vault has paid every assignment. -/
def PaidUp (E : Estate) : Prop :=
  ∀ v, E.config = some v → v.executed = true →
    ∀ j < E.assignments.length, Bitmask.test E.planBits j = true

theorem PaidUp.markPlan {p : AssetPlan} {k L : Nat} {H : Pubkey → Nat} (hP : PaidUp E)
    (hp : E.plan = some p) : PaidUp { E with
      plan := some { p with paidMask := Bitmask.mark p.paidMask k }
      lamports := L, holding := H } := by
  intro v hv hexec j hj
  have hbit := hP v hv hexec j (by simpa [Estate.assignments, hp] using hj)
  simp only [planBits, hp, Option.elim_some] at hbit ⊢
  exact Bitmask.test_mark_of_test hbit

theorem PaidUp.step (hE : Lawful c o E) (hP : PaidUp E) {a : Act} (h : Step c o E a E') :
    PaidUp E' := by
  intro v hv hexec
  cases h with
  | create _ _ hfresh _ _ _ _ =>
      cases hv
      rw [hfresh.executed] at hexec
      cases hexec
  | amend hw hh hnow hedit _ _ _ =>
      cases hv
      rw [hedit.executed, hE.not_executed hw (hE.log_none hw hh hnow)] at hexec
      cases hexec
  | revoke | closeRevoked | close => cases hv
  | beginDist hw _ _ _ _ _ =>
      have hall := hP _ hw
      cases hv
      exact hall hexec
  | closeDist hw _ _ _ _ =>
      have hall := hP _ hw
      cases hv
      exact hall hexec
  | specificAsset _ _ hp _ _ _ _ _ _ _ _ => exact hP.markPlan hp v hv hexec
  | specificSol _ _ hp _ _ _ _ _ _ => exact hP.markPlan hp v hv hexec
  | finalize hw _ _ _ hplan _ => exact hE.plan_paid hw hplan
  | _ => exact hP v hv hexec

/-- An executed vault has paid every SOL share. -/
def SharesPaid (E : Estate) : Prop :=
  ∀ v l, E.config = some v → E.log = some l → v.executed = true →
    l.solPaidMask = fullMaskU32 v.beneficiaries.length

theorem SharesPaid.step (hE : Lawful c o E) (hP : SharesPaid E) {a : Act} (h : Step c o E a E') :
    SharesPaid E' := by
  intro v l hv hl hexec
  cases h with
  | create _ _ hfresh _ _ _ _ =>
      cases hv
      rw [hfresh.executed] at hexec
      cases hexec
  | amend hw hh hnow hedit _ _ _ =>
      cases hv
      rw [hedit.executed, hE.not_executed hw (hE.log_none hw hh hnow)] at hexec
      cases hexec
  | revoke | closeRevoked | close => cases hv
  | begin hw _ _ hnot _ _ =>
      rw [Option.some.inj (hv.symm.trans hw), hnot] at hexec
      cases hexec
  | solShare hw hnot _ _ _ _ _ =>
      rw [Option.some.inj (hv.symm.trans hw), hnot] at hexec
      cases hexec
  | beginDist hw _ _ _ _ _ =>
      have hall := hP _ l hw hl
      cases hv
      exact hall hexec
  | closeDist hw _ _ _ _ =>
      have hall := hP _ l hw hl
      cases hv
      exact hall hexec
  | finalize _ _ _ hfull _ _ =>
      cases hv
      cases hl
      exact hfull
  | _ => exact hP v l hv hl hexec

/-- The canonical token account for `m`, as a pot. -/
def tokenPool (m : Pubkey) (E : Estate) : Pot.Pool where
  paidShare i := (E.dists m).elim false fun d => Bitmask.test d.paidMask i
  paidBequest := Bitmask.test E.planBits
  balance := E.holding m

/-- The payout of an entry of a token pot. -/
def tokenEntry (beneficiaries : List Beneficiary) (assignments : List AssetAssignment) :
    Pot.Entry → List Payout :=
  entryPayout beneficiaries assignments .tokenShare .specificAsset

/-- An execution under these terms is under way, and so is the distribution of `m`. -/
structure Distributing (c : Cluster) (o : Pubkey) (beneficiaries : List Beneficiary)
    (bounty snapshot : Nat) (assignments : List AssetAssignment) (m : Pubkey) (total : Nat)
    (E : Estate) : Prop extends UnderWay c o beneficiaries bounty snapshot assignments E where
  paidUp : PaidUp E
  dist : ∃ d, E.dists m = some d ∧ d.snapshot = total

variable {m : Pubkey} {total : Nat}

theorem Distributing.step
    (hE : Distributing c o beneficiaries bounty snapshot assignments m total E) {a : Act}
    (h : Step c o E a E') (hclose : a.deed ≠ .close) (hdist : a.deed ≠ .closeDist m) :
    Distributing c o beneficiaries bounty snapshot assignments m total E' := by
  refine ⟨hE.toUnderWay.step h hclose, hE.paidUp.step hE.lawful h, ?_⟩
  obtain ⟨d, hd, htotal⟩ := hE.dist
  cases h with
  | @beginDist _ _ m' _ _ hnone _ _ _ =>
      have hm : m ≠ m' := by
        rintro rfl
        simp [hd] at hnone
      exact ⟨d, by simpa [hm] using hd, htotal⟩
  | @tokenShare _ d' m' _ i _ _ hd' _ _ _ _ =>
      by_cases hm : m = m'
      · subst hm
        obtain rfl : d = d' := by simpa [hd] using hd'
        exact ⟨{ d with paidMask := Bitmask.mark d.paidMask i }, by simp, htotal⟩
      · exact ⟨d, by simpa [hm] using hd, htotal⟩
  | @closeDist _ _ m' _ _ _ _ _ _ _ =>
      have hm : m ≠ m' := by
        rintro rfl
        exact hdist rfl
      exact ⟨d, by simpa [hm] using hd, htotal⟩
  | _ => exact ⟨d, hd, htotal⟩

/-- While a distribution is open, the estate runs the pot of its mint. A share that is
    paid into the account it comes from is paid and deposited again. -/
theorem Distributing.token_step
    (hE : Distributing c o beneficiaries bounty snapshot assignments m total E)
    (hm : m ≠ .default) {a : Act} (h : Step c o E a E') (hclose : a.deed ≠ .close)
    (hdist : a.deed ≠ .closeDist m) :
    ∃ es, Trace (Pot.Step (potTerms beneficiaries total assignments m))
        (E.tokenPool m) es (E'.tokenPool m) ∧
      payoutsOf (.token m) a.moves = es.flatMap (tokenEntry beneficiaries assignments) ∧
      (a.deed = .interfere ∧ es = [.deposit (E'.holding m - E.holding m)] ∨
        Pot.deposits es = returned c o m a.moves) := by
  obtain ⟨v, hv, rfl, -⟩ := hE.config
  obtain ⟨l, hl, rfl⟩ := hE.log
  obtain ⟨d, hd, rfl⟩ := hE.dist
  obtain rfl := hE.plan
  obtain ⟨hacc, -⟩ := hE.lawful.accepted v hv
  have hliving := (hE.lawful.due hl).not_living hE.lawful h
  cases h with
  | create | amend | withdraw | revoke | closeRevoked => cases hliving
  | @interfere _ _ H _ _ hH =>
      refine ⟨[.deposit (H m - E.holding m)], .single ?_, rfl, .inl ⟨rfl, rfl⟩⟩
      convert Pot.Step.deposit (p := E.tokenPool m) (H m - E.holding m) using 1
      simp [tokenPool, planBits, Nat.add_sub_cancel' (hH m)]
  | begin _ _ hnone _ _ _ => simp [hl] at hnone
  | @beginDist _ _ m' _ _ hnone _ _ _ =>
      have hne : m ≠ m' := by
        rintro rfl
        simp [hd] at hnone
      refine ⟨[], ?_, rfl, .inr rfl⟩
      simp [tokenPool, hne, planBits]
  | @specificAsset _ _ p _ m' _ j a b hw _ hp _ ha hmint _ hb _ horder hclear =>
      obtain rfl : v = _ := by simpa [hv] using hw
      rw [← hmint] at horder
      have hpool : (E.tokenPool m).paidBequest = Bitmask.test p.paidMask := by
        simp [tokenPool, planBits, hp]
      refine ⟨[.bequest j (min (bequest p.assignments m j) (E.tokenPool m).balance)],
        .single ?_, ?_, .inr ?_⟩
      · convert hE.lawful.bequest_step hp ha horder hclear hpool using 1
        by_cases hne : m = m'
        · subst hne
          simp [tokenPool, planBits, bequest_of_mem ha hmint]
        · simp [tokenPool, planBits, bequest_of_ne ha (hmint ▸ Ne.symm hne), hne]
      · rw [payoutsOf_made, List.flatMap_singleton]
        by_cases hne : m = m'
        · subst hne
          simp [tokenEntry, entryPayout, bequestPayout, Estate.assignments, hp, ha, hb,
            Movement.payout, bequest_of_mem ha hmint, tokenPool]
        · rw [bequest_of_ne ha (hmint ▸ Ne.symm hne), Nat.zero_min, tokenEntry,
            entryPayout_zero _ rfl, if_neg (by simpa using Ne.symm hne)]
      · rw [returned_made]
        rfl
  | @specificSol _ _ p j a b hw _ hp ha hmint hb _ horder hclear =>
      -- A SOL assignment is no debt of this pot.
      rw [← hmint] at horder
      have hzero : bequest p.assignments m j = 0 := bequest_of_ne ha (hmint ▸ Ne.symm hm)
      have hpool : (E.tokenPool m).paidBequest = Bitmask.test p.paidMask := by
        simp [tokenPool, planBits, hp]
      refine ⟨[.bequest j (min (bequest p.assignments m j) (E.tokenPool m).balance)],
        .single ?_, ?_, .inr ?_⟩
      · convert hE.lawful.bequest_step hp ha horder hclear hpool using 1
        simp [tokenPool, planBits, hzero]
      · rw [payoutsOf_made, hzero, Nat.zero_min, List.flatMap_singleton, tokenEntry,
          entryPayout_zero _ rfl]
        rfl
      · rw [returned_made]
        rfl
  | solShare =>
      refine ⟨[], .nil _, by simp [payoutsOf_made], .inr ?_⟩
      rw [returned_made]
      rfl
  | @tokenShare _ d' m' dest i b hw hd' hb hclear hn hdest =>
      obtain rfl : v = _ := by simpa [hv] using hw
      by_cases hne : m = m'
      · subst hne
        obtain rfl : d = d' := by simpa [hd] using hd'
        have hi := (List.getElem?_eq_some_iff.mp hb).1
        have hcount : v.beneficiaries.length ≤ 32 := hacc.count.2.trans (by decide)
        rw [shareAmount_eq_share hacc.shares (hE.lawful.dist m d hd).2.2 hb] at hn ⊢
        have hshare := Pot.Step.share (T := potTerms v.beneficiaries d.snapshot E.assignments m)
          (p := E.tokenPool m) hi (by simpa [tokenPool, hd] using hclear)
        by_cases hback : dest = World.canonicalAta c (.vault o) m
        · refine ⟨[.share i (share v.beneficiaries d.snapshot i),
            .deposit (share v.beneficiaries d.snapshot i)], .cons hshare (.single ?_), ?_, .inr ?_⟩
          · convert Pot.Step.deposit (share v.beneficiaries d.snapshot i) using 1
            simp [tokenPool, hd, potTerms, test_mark_eq (hi.trans_le hcount), planBits, hback,
              Nat.sub_add_cancel hn]
          · rw [payoutsOf_made]
            simp [tokenEntry, entryPayout, sharePayout, hb, Movement.payout]
          · rw [returned_made]
            simp [Movement.returns, hback, Pot.deposits, Pot.Entry.deposited]
        · refine ⟨[.share i (share v.beneficiaries d.snapshot i)], .single ?_, ?_, .inr ?_⟩
          · convert hshare using 1
            · rfl
            · simp [tokenPool, hd, potTerms, test_mark_eq (hi.trans_le hcount), planBits, hback]
          · rw [payoutsOf_made]
            simp [tokenEntry, entryPayout, sharePayout, hb, Movement.payout]
          · rw [returned_made]
            simp [Movement.returns, hback, Pot.deposits, Pot.Entry.deposited]
      · refine ⟨[], ?_, ?_, .inr ?_⟩
        · simp [tokenPool, hne, planBits]
        · rw [payoutsOf_made, if_neg (by simpa using Ne.symm hne)]
          rfl
        · rw [returned_made]
          simp [Movement.returns, Ne.symm hne, Pot.deposits]
  | finalize =>
      refine ⟨[], .nil _, by simp [payoutsOf_made], .inr ?_⟩
      rw [returned_made]
      rfl
  | @closeDist _ _ m' _ _ _ _ _ _ _ =>
      have hne : m ≠ m' := by
        rintro rfl
        exact hdist rfl
      refine ⟨[], ?_, ?_, .inr ?_⟩
      · simp [tokenPool, hne, planBits]
      · rw [payoutsOf_made, if_neg (by simpa using Ne.symm hne)]
        rfl
      · rw [returned_made]
        rfl
  | close => exact absurd rfl hclose

/-- No share of another beneficiary returns. -/
theorem Step.returned_eq_zero {a : Act} {v : VaultConfig} (h : Step c o E a E')
    (hliving : a.deed.living = false) (hclose : a.deed ≠ .close) (hv : E.config = some v)
    (hwallets : ∀ b ∈ v.beneficiaries, b.wallet ≠ .vault o) : returned c o m a.moves = 0 := by
  cases h with
  | create | amend | withdraw | revoke | closeRevoked => cases hliving
  | close => exact absurd rfl hclose
  | @tokenShare _ _ m' dest i b hw _ hb _ _ hdest =>
      obtain rfl := Option.some.inj (hv.symm.trans hw)
      have haway := hdest (hwallets b (List.mem_of_getElem? hb))
      rw [returned_made, if_neg]
      simp only [Movement.returns, decide_eq_true_eq, not_and]
      rintro hasset -
      obtain rfl := Asset.token.inj hasset
      exact haway
  | specificAsset | specificSol | solShare | finalize | closeDist =>
      rw [returned_made]
      rfl
  | _ => rfl

/-- No assignment of `m` is paid. -/
def Untaken (m : Pubkey) (E : Estate) : Prop :=
  ∀ j, bequest E.assignments m j ≠ 0 → Bitmask.test E.planBits j = false

theorem Untaken.markPlan {p : AssetPlan} {j L : Nat} {a : AssetAssignment} {H : Pubkey → Nat}
    (hU : Untaken m E) (hp : E.plan = some p) (ha : p.assignments[j]? = some a) (hm : a.mint ≠ m) :
    Untaken m { E with
      plan := some { p with paidMask := Bitmask.mark p.paidMask j }
      lamports := L, holding := H } := by
  intro k hk
  have hne : k ≠ j := by
    rintro rfl
    exact hk (bequest_of_ne ha hm)
  have hclear := hU k (by simpa [Estate.assignments, hp] using hk)
  simp only [planBits, hp, Option.elim_some] at hclear ⊢
  rw [Bitmask.test_mark_of_ne hne, hclear]

/-- The assignments of a mint are paid by `execute_specific_asset` alone. -/
theorem Untaken.step (hE : UnderWay c o beneficiaries bounty snapshot assignments E)
    (hU : Untaken m E) (hm : m ≠ .default) {a : Act} (h : Step c o E a E')
    (hclose : a.deed ≠ .close) (hother : ∀ j, a.deed ≠ .specificAsset m j) : Untaken m E' := by
  obtain ⟨l, hl, -⟩ := hE.log
  have hliving := (hE.lawful.due hl).not_living hE.lawful h
  cases h with
  | create | amend | withdraw | revoke | closeRevoked => cases hliving
  | @specificAsset _ _ p _ m' _ j a _ _ _ hp _ ha hmint _ _ _ _ _ =>
      refine hU.markPlan hp ha ?_
      rintro rfl
      exact hother j (by rw [← hmint])
  | specificSol _ _ hp ha hmint _ _ _ _ => exact hU.markPlan hp ha (hmint ▸ Ne.symm hm)
  | close => exact absurd rfl hclose
  | _ => exact hU

/-- The distribution of `m` begins with no share paid. -/
theorem UnderWay.beginDist (hE : UnderWay c o beneficiaries bounty snapshot assignments E)
    (hP : PaidUp E) (h : Step c o E ⟨.beginDist m, []⟩ E') :
    m ≠ .default ∧
    Distributing c o beneficiaries bounty snapshot assignments m
      (E.holding m - bequeathed assignments m) E' ∧
    E'.tokenPool m = ⟨fun _ => false, Bitmask.test E.planBits, E.holding m⟩ := by
  have hway := hE.step h (by simp)
  have hpaid := hP.step hE.lawful h
  obtain rfl := hE.plan
  cases h with
  | @beginDist v _ _ hv _ _ hdefault _ _ =>
      refine ⟨hdefault, ⟨hway, hpaid, _, Function.update_self .., ?_⟩, ?_⟩
      · rw [hE.lawful.registered_eq hv]
        rfl
      · simp only [tokenPool, Function.update_self, Option.elim_some, Pot.Pool.mk.injEq, and_true]
        exact ⟨funext fun i => Bitmask.test_zero i, rfl⟩

/-- A step of a distribution other than its end; deposits come to a funded one only. -/
def TokenStep (c : Cluster) (o m : Pubkey) (funded : Prop) (E : Estate) (a : Act) (E' : Estate) :
    Prop :=
  Step c o E a E' ∧ a.deed ≠ .close ∧ a.deed ≠ .closeDist m ∧
    (funded ∨ (a.deed = .interfere → E'.holding m ≤ E.holding m))

theorem Distributing.token_run {funded : Prop}
    (hE : Distributing c o beneficiaries bounty snapshot assignments m total E)
    (hwallets : ∀ b ∈ beneficiaries, b.wallet ≠ .vault o) (hm : m ≠ .default) {acts : List Act}
    (h : Trace (TokenStep c o m funded) E acts E') :
    Distributing c o beneficiaries bounty snapshot assignments m total E' ∧
    ∃ es, Trace (Pot.Step (potTerms beneficiaries total assignments m))
        (E.tokenPool m) es (E'.tokenPool m) ∧
      payoutsOf (.token m) (acts.flatMap (·.moves)) =
        es.flatMap (tokenEntry beneficiaries assignments) ∧
      ∀ e ∈ es, funded ∨ e.deposited = 0 := by
  have hkeep := h.strengthen
    (P := Distributing c o beneficiaries bounty snapshot assignments m total)
    (fun _ _ _ hE hstep => hE.step hstep.1 hstep.2.1 hstep.2.2.1) hE
  refine ⟨h.preserves (fun _ _ _ hE hstep => hE.step hstep.1 hstep.2.1 hstep.2.2.1) hE, ?_⟩
  rw [payoutsOf_flatMap]
  refine hkeep.simulate_output fun F a F' ⟨⟨hstep, hclose, hdist, hquiet⟩, hF, _⟩ => ?_
  obtain ⟨es, hpot, hout, hdep⟩ := hF.token_step hm hstep hclose hdist
  refine ⟨es, hpot, hout, fun e he => ?_⟩
  rcases hquiet with hfund | hquiet
  · exact .inl hfund
  · refine .inr ?_
    rcases hdep with ⟨hint, rfl⟩ | hdep
    · obtain rfl := List.mem_singleton.mp he
      exact Nat.sub_eq_zero_of_le (hquiet hint)
    · obtain ⟨l, hl, -⟩ := hF.log
      obtain ⟨v, hv, hb, -⟩ := hF.config
      rw [hstep.returned_eq_zero ((hF.lawful.due hl).not_living hF.lawful hstep) hclose hv
        (hb ▸ hwallets)] at hdep
      exact List.sum_eq_zero_iff.mp hdep _ (List.mem_map_of_mem he)

/-- When its distribution can be closed, the pot has paid every share and every bequest. -/
theorem Distributing.all_paid
    (hE : Distributing c o beneficiaries bounty snapshot assignments m total E) {a : Act}
    (h : Step c o E a E') (hdeed : a.deed = .closeDist m) :
    (∀ i < beneficiaries.length, (E.tokenPool m).paidShare i = true) ∧
      ∀ j < assignments.length, (E.tokenPool m).paidBequest j = true := by
  obtain ⟨v, hv, rfl, -⟩ := hE.config
  cases h with
  | @closeDist w d m' dest recipient hw hexec hd hfull _ =>
      obtain rfl : m' = m := by simpa using hdeed
      obtain rfl : v = w := by simpa [hv] using hw
      constructor
      · intro i hi
        have hcount := (hE.lawful.accepted v hv).1.count.2
        simp only [tokenPool, hd, Option.elim_some]
        exact Bitmask.test_of_eq_full (hcount.trans (by decide)) hfull hi
      · intro j hj
        rw [← hE.plan] at hj
        exact hE.paidUp v hv hexec j hj
  | _ => cases hdeed

/-- Whatever the order of a distribution, its payouts are the shares in what the
    bequests of the mint leave, the bequests as far as they are funded, and what is
    left at the end. -/
theorem UnderWay.token_payout {E₂ E₃ E₄ E₅ : Estate} {acts : List Act} {a : Act} {bal S : Nat}
    (hE : UnderWay c o beneficiaries bounty snapshot assignments E₂) (hP : PaidUp E₂)
    (hU : Untaken m E₂) (hwallets : ∀ b ∈ beneficiaries, b.wallet ≠ .vault o)
    (hbal : bal = E₂.holding m) (hS : S = bequeathed assignments m)
    (hbegin : Step c o E₂ ⟨.beginDist m, []⟩ E₃)
    (hrun : Trace (TokenStep c o m (S ≤ bal)) E₃ acts E₄) (hclose : Step c o E₄ a E₅)
    (hdeed : a.deed = .closeDist m) :
    ∃ b, beneficiaries[largestShareIndex beneficiaries]? = some b ∧
      (payoutsOf (.token m) ((acts ++ [a]).flatMap (·.moves))).Perm
        (sharePayouts beneficiaries .tokenShare (bal - S) ++
          bequestPayouts beneficiaries assignments .specificAsset (granted assignments m bal) ++
          Payout.made ⟨b.wallet, E₄.holding m, .tokenDust⟩) := by
  obtain ⟨hm, hdist, hpool⟩ := hE.beginDist hP hbegin
  rw [← hbal, ← hS] at hdist
  rw [← hbal] at hpool
  obtain ⟨hdist₄, es, hpot, hout, hdep⟩ := hdist.token_run hwallets hm hrun
  obtain ⟨v, hv, hbenef, -⟩ := hdist₄.config
  obtain ⟨d, hd, -⟩ := hdist₄.dist
  obtain ⟨hacc, -⟩ := hdist₄.lawful.accepted v hv
  have hstart : Pot.Settles (potTerms beneficiaries (bal - S) assignments m) bal 0
      (tokenEntry beneficiaries assignments) [] (E₃.tokenPool m) := by
    refine .start entryPayout_zero ?_ (sum_share_le _ (hbenef ▸ hacc.shares)) ?_ ?_ ?_ ?_
    · rw [hS, bequeathed_eq_sum, Nat.sub_zero]
      rfl
    · simp [hpool]
    · intro j _
      by_cases hzero : bequest assignments m j = 0
      · exact .inl hzero
      · rw [hpool]
        exact .inr (hU j (hE.plan ▸ hzero))
    · exact fun j => bequest_lt
    · simp [hpool]
  have hend := hstart.run entryPayout_zero hpot (by
    by_cases hfund : S ≤ bal
    · rw [hS, bequeathed_eq_sum] at hfund
      exact .inl hfund
    · exact .inr fun e he => (hdep e he).resolve_left hfund)
  obtain ⟨hshares, hbequests⟩ := hdist₄.all_paid hclose hdeed
  cases hclose with
  | @closeDist v' d' m' dest recipient hv' hexec hd' hfull hdust =>
      obtain rfl : m' = m := by simpa using hdeed
      obtain rfl : v = v' := by simpa [hv] using hv'
      subst hbenef
      obtain ⟨b, hb, -⟩ := largestShareIndex_spec hacc.count.1
      refine ⟨b, hb, ?_⟩
      rw [payoutsOf_flatMap, List.flatMap_append, List.flatMap_singleton, ← payoutsOf_flatMap, hout,
        payoutsOf_made, if_pos rfl, ← payments_eq_payouts hshares hbequests]
      refine List.Perm.append hend.out ?_
      unfold Movement.payout Payout.made
      split
      · rename_i hpos
        obtain ⟨b', hb', rfl⟩ := hdust hpos
        obtain rfl : b = b' := by simpa [hb] using hb'
        exact .refl _
      · exact .nil
  | _ => cases hdeed

end Estate

end DeadMansVault
