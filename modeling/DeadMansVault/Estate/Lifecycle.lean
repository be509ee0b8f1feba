-- SUMMARY: What the accounts of an estate say about each other, in every state it can reach.
import DeadMansVault.Estate.Basic

/-!
# Lifecycle

`Lawful` ties the accounts of an estate together: which exist with which, what a
log proves about the deadline, which bits a paid-mask can have. Every step keeps
it, so it survives any number of closes and re-initialisations.
-/

namespace DeadMansVault

namespace Estate

/-- A set bit of the plan comes after those of all earlier assignments of its mint. -/
def InOrder (p : AssetPlan) : Prop :=
  ∀ j a, p.assignments[j]? = some a → Bitmask.test p.paidMask j = true →
    ∀ k b, k < j → p.assignments[k]? = some b → b.mint = a.mint →
      Bitmask.test p.paidMask k = true

/-- Paying the next assignment of a mint keeps the plan in order. -/
theorem InOrder.mark {p : AssetPlan} {j : Nat} {a : AssetAssignment} (hin : InOrder p)
    (hlen : p.assignments.length ≤ 64) (ha : p.assignments[j]? = some a)
    (horder : p.paidMask &&& lowerIndexSameMintMask p a.mint j =
      lowerIndexSameMintMask p a.mint j) :
    InOrder { p with paidMask := Bitmask.mark p.paidMask j } := by
  have hj : j < p.assignments.length := (List.getElem?_eq_some_iff.mp ha).1
  intro i b hb hbit k b' hk hb' hmint
  apply Bitmask.test_mark_of_test
  by_cases hi : i = j
  · -- Everything below `j` was paid when `j` was.
    subst hi
    obtain rfl : a = b := by simpa [ha] using hb
    apply Bitmask.and_eq_right_iff.mp horder k
    rw [test_lowerIndexSameMintMask p a.mint (hj.le.trans hlen) k]
    simp [hk, show p.assignments[k]? = some b' from hb', hmint]
  · rw [Bitmask.test_mark_of_ne hi] at hbit
    exact hin i b hb hbit k b' hk hb' hmint

structure Lawful (c : Cluster) (o : Pubkey) (E : Estate) : Prop where
  pair : E.config.isSome = E.heartbeat.isSome
  record : ∀ h, E.heartbeat = some h →
    h.vault = .vault o ∧ i64Min ≤ h.lastHeartbeat ∧ h.lastHeartbeat ≤ E.now
  planned : E.plan.isSome = true ↔ ∃ v, E.config = some v ∧ v.hasAssetPlan = true
  accepted : ∀ v, E.config = some v → v.Accepted c ∧ v.owner = o
  status : ∀ v, E.config = some v → v.active = !v.executed
  /-- The log proves that the deadline has passed. -/
  started : ∀ l, E.log = some l → ∃ v h, E.config = some v ∧ E.heartbeat = some h ∧
    v.deadlineAt h ≤ l.startedAt ∧ l.startedAt ≤ E.now
  logged : ∀ l, E.log = some l → l.vault = .vault o ∧ l.solSnapshot ≤ u64Max
  solMask : ∀ v l, E.config = some v → E.log = some l →
    Bitmask.Sub l.solPaidMask (fullMaskU32 v.beneficiaries.length)
  executed : ∀ v, E.config = some v →
    (v.executed = true ↔ ∃ l, E.log = some l ∧ l.completed = true)
  plan : ∀ p, E.plan = some p → p.vault = .vault o ∧ p.assignments.length ≤ maxAssignments
  indices : ∀ v p, E.config = some v → E.plan = some p →
    ∀ a ∈ p.assignments, a.beneficiaryIndex < v.beneficiaries.length
  planMask : ∀ p, E.plan = some p →
    Bitmask.Sub p.paidMask (fullMaskU64 p.assignments.length) ∧ InOrder p
  paid : ∀ p, E.plan = some p → p.paidMask ≠ 0 → E.log.isSome = true
  dist : ∀ m d, E.dists m = some d → d.vault = .vault o ∧ d.mint = m ∧ d.snapshot ≤ u64Max

variable {c : Cluster} {o : Pubkey} {E E' : Estate}

namespace Lawful

/-- The estate of an owner who never had a vault. -/
theorem empty (hc : E.config = none) (hh : E.heartbeat = none) (hp : E.plan = none)
    (hl : E.log = none) (hd : ∀ m, E.dists m = none) : Lawful c o E where
  pair := by simp [hc, hh]
  record := by simp [hh]
  planned := by simp [hp, hc]
  accepted := by simp [hc]
  status := by simp [hc]
  started := by simp [hl]
  logged := by simp [hl]
  solMask := by simp [hc]
  executed := by simp [hc]
  plan := by simp [hp]
  indices := by simp [hc]
  planMask := by simp [hp]
  paid := by simp [hp]
  dist := by simp [hd]

/-- Before the deadline there is no log. -/
theorem log_none (hE : Lawful c o E) {v : VaultConfig} {h : HeartbeatRecord}
    (hv : E.config = some v) (hh : E.heartbeat = some h) (hnow : E.now < v.deadlineAt h) :
    E.log = none := by
  cases hl : E.log with
  | none => rfl
  | some l =>
      obtain ⟨v', h', hv', hh', hdl, hle⟩ := hE.started l hl
      obtain rfl : v = v' := by simpa [hv] using hv'
      obtain rfl : h = h' := by simpa [hh] using hh'
      omega

/-- Without a log the vault is not executed. -/
theorem not_executed (hE : Lawful c o E) {v : VaultConfig} (hv : E.config = some v)
    (hl : E.log = none) : v.executed = false := by
  have hiff := hE.executed v hv
  cases hx : v.executed with
  | false => rfl
  | true =>
      obtain ⟨l, hlog, -⟩ := hiff.mp hx
      rw [hl] at hlog
      cases hlog

/-- The state that `close_revoked_vault` asks for does not occur. -/
theorem active_or_executed (hE : Lawful c o E) {v : VaultConfig} (hv : E.config = some v) :
    ¬ (v.active = false ∧ v.executed = false) := by
  rintro ⟨hactive, hexec⟩
  have hs := hE.status v hv
  rw [hactive, hexec] at hs
  cases hs

/-- Without a plan nothing is registered, and with one its assignments are. -/
theorem registered_eq (hE : Lawful c o E) {v : VaultConfig} (hv : E.config = some v) :
    E.registered v = E.plan.elim [] (·.assignments) := by
  unfold registered
  split
  · rfl
  · rename_i hhas
    cases hp : E.plan with
    | none => rfl
    | some p =>
        obtain ⟨v', hv', hhas'⟩ := hE.planned.mp (by simp [hp])
        obtain rfl : v = v' := by simpa [hv] using hv'
        exact absurd hhas' hhas

theorem interfere (hE : Lawful c o E) {t : Int} {L : Nat} {H : Pubkey → Nat} (ht : E.now ≤ t) :
    Lawful c o { E with now := t, lamports := L, holding := H } :=
  { hE with
    record := fun h hh => by
      obtain ⟨hpin, hmin, hle⟩ := hE.record h hh
      exact ⟨hpin, hmin, hle.trans ht⟩
    started := fun l hl => by
      obtain ⟨v, h, hv, hh, hdl, hle⟩ := hE.started l hl
      exact ⟨v, h, hv, hh, hdl, hle.trans ht⟩ }

theorem create (hE : Lawful c o E) {v : VaultConfig} {h : HeartbeatRecord} {L : Nat}
    (hc : E.config = none) (hfresh : Fresh c o v) (hpin : h.vault = .vault o)
    (hlast : h.lastHeartbeat = E.now) (hmin : i64Min ≤ E.now) :
    Lawful c o { E with config := some v, heartbeat := some h, lamports := L } := by
  have hlog : E.log = none := by
    cases hl : E.log with
    | none => rfl
    | some l =>
        obtain ⟨v', _, hv', -⟩ := hE.started l hl
        simp [hc] at hv'
  have hplan : E.plan = none := by
    cases hp : E.plan with
    | none => rfl
    | some p =>
        obtain ⟨v', hv', -⟩ := hE.planned.mp (by simp [hp])
        simp [hc] at hv'
  exact {
    pair := by simp
    record := by simp [hpin, hlast, hmin]
    planned := by simp [hplan, hfresh.hasAssetPlan]
    accepted := by simp [hfresh.accepted, hfresh.owner]
    status := by simp [hfresh.active, hfresh.executed]
    started := by simp [hlog]
    logged := by simp [hlog]
    solMask := by simp [hlog]
    executed := by simp [hlog, hfresh.executed]
    plan := by simp [hplan]
    indices := by simp [hplan]
    planMask := by simp [hplan]
    paid := by simp [hplan]
    dist := hE.dist }

/-- Closing takes the plan along, if there is one. -/
theorem closed_plan (hE : Lawful c o E) {v : VaultConfig} (hv : E.config = some v) :
    (if v.hasAssetPlan then none else E.plan) = none := by
  split
  · rfl
  · rename_i hhas
    cases hp : E.plan with
    | none => rfl
    | some p =>
        obtain ⟨v', hv', hhas'⟩ := hE.planned.mp (by simp [hp])
        obtain rfl : v = v' := by simpa [hv] using hv'
        exact absurd hhas' hhas

theorem amend (hE : Lawful c o E) {v v' : VaultConfig} {h h' : HeartbeatRecord}
    {p : Option AssetPlan} (hv : E.config = some v) (hh : E.heartbeat = some h)
    (hnow : E.now < v.deadlineAt h) (hedit : v.Edited c v') (hpin : h'.vault = .vault o)
    (hlast : h'.lastHeartbeat = h.lastHeartbeat ∨ h'.lastHeartbeat = E.now ∧ i64Min ≤ E.now)
    (hplan : PlanEdit o E.plan v v' p) :
    Lawful c o { E with config := some v', heartbeat := some h', plan := p } := by
  have hlog := hE.log_none hv hh hnow
  have hexec := hE.not_executed hv hlog
  obtain ⟨hacc, howner⟩ := hE.accepted v hv
  obtain ⟨-, hmin, hle⟩ := hE.record h hh
  -- The new plan, whichever edit made it, is well formed for the new config.
  have hnew : (p.isSome = true ↔ v'.hasAssetPlan = true) ∧ ∀ q, p = some q →
      q.vault = .vault o ∧ q.assignments.length ≤ maxAssignments ∧
      (∀ a ∈ q.assignments, a.beneficiaryIndex < v'.beneficiaries.length) ∧
      (Bitmask.Sub q.paidMask (fullMaskU64 q.assignments.length) ∧ InOrder q) ∧
      q.paidMask = 0 := by
    cases hplan with
    | keep hhas hbenef =>
        have hiff : E.plan.isSome = true ↔ v.hasAssetPlan = true := by
          rw [hE.planned]
          simp [hv]
        refine ⟨by rw [hiff, hhas], fun q hq => ?_⟩
        obtain ⟨hvault, hlen⟩ := hE.plan q hq
        have hb := hbenef (hiff.mp (by simp [hq]))
        refine ⟨hvault, hlen, fun a ha => ?_, hE.planMask q hq, ?_⟩
        · rw [hb]
          exact hE.indices v q hv hq a ha
        · by_contra hne
          have hsome := hE.paid q hq hne
          simp [hlog] at hsome
    | write hhas hbenef hvalid =>
        refine ⟨by simp [hhas], fun q hq => ?_⟩
        obtain rfl := Option.some.inj hq
        refine ⟨rfl, hvalid.1, ?_, ⟨Bitmask.sub_full_zero, ?_⟩, rfl⟩
        · rw [hbenef]
          exact hvalid.2
        · intro j a _ hbit
          simp at hbit
    | clear hhas => simp [hhas]
  exact {
    pair := by simp
    record := by
      rintro _ ⟨⟩
      refine ⟨hpin, ?_⟩
      rcases hlast with hlast | ⟨hlast, hnowMin⟩
      · exact ⟨hlast ▸ hmin, hlast ▸ hle⟩
      · exact ⟨hlast ▸ hnowMin, hlast.le⟩
    planned := by simpa using hnew.1
    accepted := by
      rintro _ ⟨⟩
      exact ⟨hedit.accepted hacc, hedit.owner.trans howner⟩
    status := by
      rintro _ ⟨⟩
      rw [hedit.active, hedit.executed]
      exact hE.status v hv
    started := by simp [hlog]
    logged := by simp [hlog]
    solMask := by simp [hlog]
    executed := by
      rintro _ ⟨⟩
      simp [hlog, hedit.executed, hexec]
    plan := fun q hq => ⟨(hnew.2 q hq).1, (hnew.2 q hq).2.1⟩
    indices := by
      rintro _ q ⟨⟩ hq
      exact (hnew.2 q hq).2.2.1
    planMask := fun q hq => (hnew.2 q hq).2.2.2.1
    paid := fun q hq hne => absurd (hnew.2 q hq).2.2.2.2 hne
    dist := hE.dist }

/-- No account says anything about the balances. -/
theorem setBalances (hE : Lawful c o E) (L : Nat) (H : Pubkey → Nat) :
    Lawful c o { E with lamports := L, holding := H } :=
  { hE with }

/-- All accounts but the distributions are closed together. -/
theorem gone (hE : Lawful c o E) {L : Nat} : Lawful c o { E with
    config := none, heartbeat := none, log := none, plan := none, lamports := L } where
  pair := rfl
  record := by simp
  planned := by simp
  accepted := by simp
  status := by simp
  started := by simp
  logged := by simp
  solMask := by simp
  executed := by simp
  plan := by simp
  indices := by simp
  planMask := by simp
  paid := by simp
  dist := hE.dist

theorem begin (hE : Lawful c o E) {v : VaultConfig} {h : HeartbeatRecord} {l : ExecutionLog}
    (hv : E.config = some v) (hh : E.heartbeat = some h) (hexec : v.executed = false)
    (hdl : v.deadlineAt h ≤ E.now) (hvault : l.vault = .vault o) (hsnap : l.solSnapshot ≤ u64Max)
    (hmask : l.solPaidMask = 0) (hstart : l.startedAt = E.now) (hdone : l.completed = false) :
    Lawful c o { E with log := some l } :=
  { hE with
    started := by
      rintro _ ⟨⟩
      exact ⟨v, h, hv, hh, hstart ▸ hdl, hstart.le⟩
    logged := by
      rintro _ ⟨⟩
      exact ⟨hvault, hsnap⟩
    solMask := by
      rintro _ _ - ⟨⟩
      rw [hmask]
      exact Bitmask.sub_full_zero
    executed := by
      intro v' hv'
      obtain rfl : v = v' := by simpa [hv] using hv'
      simp [hexec, hdone]
    paid := by simp }

/-- The counter of open distributions is tied to nothing here. -/
theorem setCounter (hE : Lawful c o E) {v : VaultConfig} (hv : E.config = some v) (n : Nat) :
    Lawful c o { E with config := some { v with openTokenDists := n } } :=
  { hE with
    pair := by simpa [hv] using hE.pair
    planned := by simpa [hv] using hE.planned
    accepted := by
      rintro _ ⟨⟩
      obtain ⟨hacc, howner⟩ := hE.accepted v hv
      exact ⟨⟨hacc.1, hacc.2, hacc.3, hacc.4, hacc.5⟩, howner⟩
    status := by
      rintro _ ⟨⟩
      exact hE.status v hv
    started := by
      intro l hl
      obtain ⟨v', h, hv', hh, hdl, hle⟩ := hE.started l hl
      obtain rfl : v = v' := by simpa [hv] using hv'
      exact ⟨_, h, rfl, hh, hdl, hle⟩
    solMask := by
      rintro _ l ⟨⟩ hl
      exact hE.solMask v l hv hl
    executed := by
      rintro _ ⟨⟩
      exact hE.executed v hv
    indices := by
      rintro _ q ⟨⟩ hq
      exact hE.indices v q hv hq }

theorem setDist (hE : Lawful c o E) {m : Pubkey} {d : Option TokenDist}
    (hd : ∀ d', d = some d' → d'.vault = .vault o ∧ d'.mint = m ∧ d'.snapshot ≤ u64Max) :
    Lawful c o { E with dists := Function.update E.dists m d } :=
  { hE with
    dist := by
      intro m' d' hd'
      by_cases hm : m' = m
      · subst hm
        exact hd d' (by simpa using hd')
      · exact hE.dist m' d' (by simpa [hm] using hd') }

/-- Paying the next assignment of a mint keeps the plan's mask a mask, in order. -/
theorem markPlan (hE : Lawful c o E) {p : AssetPlan} {j : Nat} {a : AssetAssignment}
    (hp : E.plan = some p) (hl : E.log.isSome = true) (ha : p.assignments[j]? = some a)
    (horder : p.paidMask &&& lowerIndexSameMintMask p a.mint j =
      lowerIndexSameMintMask p a.mint j) :
    Lawful c o { E with plan := some { p with paidMask := Bitmask.mark p.paidMask j } } := by
  obtain ⟨hvault, hlen⟩ := hE.plan p hp
  obtain ⟨hsub, hin⟩ := hE.planMask p hp
  have hj : j < p.assignments.length := (List.getElem?_eq_some_iff.mp ha).1
  exact { hE with
    planned := by simpa [hp] using hE.planned
    plan := by
      rintro _ ⟨⟩
      exact ⟨hvault, hlen⟩
    indices := by
      rintro v _ hv ⟨⟩
      exact hE.indices v p hv hp
    planMask := by
      rintro _ ⟨⟩
      exact ⟨Bitmask.sub_full_mark hlen hsub hj, InOrder.mark hin hlen ha horder⟩
    paid := fun _ _ _ => hl }

/-- Paying a SOL share marks a bit of a beneficiary. -/
theorem markSol (hE : Lawful c o E) {v : VaultConfig} {l l' : ExecutionLog} {i : Nat}
    (hv : E.config = some v) (hl : E.log = some l) (hi : i < v.beneficiaries.length)
    (hmask : l'.solPaidMask = Bitmask.mark l.solPaidMask i) (hvault : l'.vault = l.vault)
    (hsnap : l'.solSnapshot = l.solSnapshot) (hstart : l'.startedAt = l.startedAt)
    (hdone : l'.completed = l.completed) : Lawful c o { E with log := some l' } := by
  have hcount := (hE.accepted v hv).1.count.2
  exact { hE with
    started := by
      rintro _ ⟨⟩
      rw [hstart]
      exact hE.started l hl
    logged := by
      rintro _ ⟨⟩
      rw [hvault, hsnap]
      exact hE.logged l hl
    solMask := by
      rintro v' _ hv' ⟨⟩
      obtain rfl : v = v' := by simpa [hv] using hv'
      rw [hmask]
      exact Bitmask.sub_full_mark (hcount.trans (by decide)) (hE.solMask v l hv hl) hi
    executed := by
      intro v' hv'
      rw [hE.executed v' hv']
      simp [hl, hdone]
    paid := by simp }

theorem finalize (hE : Lawful c o E) {v : VaultConfig} {l : ExecutionLog}
    (hv : E.config = some v) (hl : E.log = some l) :
    Lawful c o { E with
      config := some { v with executed := true, active := false }
      log := some { l with completed := true } } := by
  obtain ⟨hacc, howner⟩ := hE.accepted v hv
  exact { hE with
    pair := by simpa [hv] using hE.pair
    planned := by simpa [hv] using hE.planned
    accepted := by
      rintro _ ⟨⟩
      exact ⟨⟨hacc.1, hacc.2, hacc.3, hacc.4, hacc.5⟩, howner⟩
    status := by
      rintro _ ⟨⟩
      rfl
    started := by
      rintro _ ⟨⟩
      obtain ⟨v', h, hv', hh, hdl, hle⟩ := hE.started l hl
      obtain rfl : v = v' := by simpa [hv] using hv'
      exact ⟨_, h, rfl, hh, hdl, hle⟩
    logged := by
      rintro _ ⟨⟩
      exact hE.logged l hl
    solMask := by
      rintro _ _ ⟨⟩ ⟨⟩
      exact hE.solMask v l hv hl
    executed := by
      rintro _ ⟨⟩
      simp
    indices := by
      rintro _ q ⟨⟩ hq
      exact hE.indices v q hv hq
    paid := by simp }

/-- Every step keeps the accounts of an estate lawful. -/
theorem step (hE : Lawful c o E) {a : Act} (h : Step c o E a E') : Lawful c o E' := by
  cases h with
  | interfere ht _ _ => exact hE.interfere ht
  | create hc _ hfresh hpin hlast hmin _ => exact hE.create hc hfresh hpin hlast hmin
  | amend hv hh hnow hedit hpin hlast hplan => exact hE.amend hv hh hnow hedit hpin hlast hplan
  | withdraw _ _ _ _ => exact hE.setBalances _ _
  | revoke hv hh hnow =>
      have hgone := hE.gone (L := 0)
      rw [← hE.log_none hv hh hnow] at hgone
      rw [hE.closed_plan hv]
      exact hgone
  | closeRevoked hv hactive hexec => exact absurd ⟨hactive, hexec⟩ (hE.active_or_executed hv)
  | begin hv hh _ hexec hdl hbal =>
      refine hE.begin hv hh hexec hdl rfl ?_ rfl rfl rfl
      exact ((Nat.sub_le _ _).trans ((Nat.sub_le _ _).trans (Nat.sub_le _ _))).trans hbal
  | beginDist hv _ _ _ hbal _ =>
      refine (hE.setCounter hv _).setDist ?_
      rintro _ ⟨⟩
      exact ⟨rfl, rfl, (Nat.sub_le _ _).trans hbal⟩
  | specificAsset _ hl hp _ ha hm _ _ _ horder _ =>
      subst hm
      exact (hE.markPlan hp (by simp [hl]) ha horder).setBalances _ _
  | specificSol _ hl hp ha hm _ _ horder _ =>
      rw [← hm] at horder
      exact (hE.markPlan hp (by simp [hl]) ha horder).setBalances _ _
  | solShare hv _ hl hb _ _ _ =>
      have hi := (List.getElem?_eq_some_iff.mp hb).1
      refine (hE.markSol hv hl hi ?_ ?_ ?_ ?_ ?_).setBalances _ _ <;> rfl
  | tokenShare _ hd _ _ _ _ =>
      obtain ⟨hvault, hmint, hsnap⟩ := hE.dist _ _ hd
      refine (hE.setDist ?_).setBalances _ _
      rintro _ ⟨⟩
      exact ⟨hvault, hmint, hsnap⟩
  | finalize hv hl _ _ _ _ => exact (hE.finalize hv hl).setBalances _ _
  | closeDist hv _ _ _ _ => exact ((hE.setCounter hv _).setDist (by simp)).setBalances _ _
  | close hv _ _ _ _ _ =>
      rw [hE.closed_plan hv]
      exact hE.gone

/-- So does every run. -/
theorem run (hE : Lawful c o E) {acts : List Act} (h : Trace (Step c o) E acts E') :
    Lawful c o E' :=
  h.preserves (fun _ _ _ hE hstep => hE.step hstep) hE

end Lawful

end Estate

end DeadMansVault
