-- SUMMARY: What suffices for the withdrawals of a living owner and for the revoke to be accepted.
import DeadMansVault.Program.Progress

/-!
# Exits

Before the deadline the owner can take tokens and lamports out of the vault, and revoke it. The
checked sum of the deadline is part of every gate here.
-/

namespace DeadMansVault

open World

variable {c : Cluster} {s s' : World} {owner : Pubkey} {v : VaultConfig} {h : HeartbeatRecord}

/-- The gate of the owner's instructions, with the sum of the deadline in range. -/
structure Leavable (s : World) (owner : Pubkey) (v : VaultConfig) (h : HeartbeatRecord) :
    Prop where
  unfrozen : Unfrozen s (.vault owner) v h
  owner : v.owner = owner
  deadline : deadline h.lastHeartbeat v.heartbeatInterval v.gracePeriod = .ok (v.deadlineAt h)

/-- A checked deadline is a timestamp. -/
theorem deadline_le {l i g dl : Int} (h : deadline l i g = .ok dl) : dl ≤ i64Max := by
  simp only [deadline, okOr_eq_ok, Option.bind_eq_some_iff, checkedAddI64,
    Option.ite_none_right_eq_some, Option.some.injEq] at h
  obtain ⟨_, -, ⟨-, hle⟩, rfl⟩ := h
  exact hle

theorem withdrawFromVault_progress (hs : s.Regular c) (hleave : Leavable s owner v h)
    (hsign : owner.canSign = true) {m dest recipient : Pubkey} {n : Nat}
    (hmint : (s.mints m).isSome = true)
    (hsource : s.tokenAccounts (canonicalAta c (.vault owner) m) =
      some ⟨some (c.tokenProgram m), m, .vault owner⟩)
    (hdest : s.tokenAccounts dest = some ⟨some (c.tokenProgram m), m, recipient⟩)
    (hn : n ≤ s.tokenAmounts (canonicalAta c (.vault owner) m)) :
    ∃ s', withdrawFromVault c ⟨owner, .vault owner, .heartbeat (.vault owner), m,
      canonicalAta c (.vault owner) m, dest, c.tokenProgram m⟩ n s = .ok s' := by
  obtain ⟨m', hm'⟩ := Option.isSome_iff_exists.mp hmint
  have hfit := hs.tokens_fit hsource hdest hn
  have hpay : s.transferChecked c (c.tokenProgram m) (canonicalAta c (.vault owner) m) m dest
      (.vault owner) n m'.decimals .withdrawal =
      .ok (s.sendTokens (canonicalAta c (.vault owner) m) m dest recipient n .withdrawal) := by
    simp [transferChecked, okOr, require, hm', hsource, hdest, hn, hfit, bind, Except.bind, pure,
      Except.pure]
  simp only [withdrawFromVault, Except.bind_eq_ok, require_eq_ok, requireSigner_eq_ok,
    requireSeeds_eq_ok, loadVaultConfig_eq_ok, loadHeartbeatRecord_eq_ok, loadMint_eq_ok,
    loadTokenAccount_eq_ok, exists_const]
  exact ⟨_, hsign, v, hleave.unfrozen.config, h, hleave.unfrozen.record, m', hm', _, ⟨hsource, rfl⟩,
    _, ⟨hdest, rfl⟩, trivial, hleave.owner, trivial, hleave.unfrozen.pinned, rfl, rfl, rfl, _,
    hleave.deadline, hleave.unfrozen.before, trivial, hpay⟩

theorem withdrawSolFromVault_progress (hs : s.Regular c) (hleave : Leavable s owner v h)
    (hsign : owner.canSign = true) {n : Nat} (hpos : 0 < n)
    (hn : c.minimumBalance VaultConfig.space + n ≤ s.lamports (.vault owner)) :
    ∃ s', withdrawSolFromVault c ⟨owner, .vault owner, .heartbeat (.vault owner)⟩ n s = .ok s' := by
  have hle : n ≤ s.lamports (.vault owner) := by omega
  simp only [withdrawSolFromVault, Except.bind_eq_ok, require_eq_ok, requireSigner_eq_ok,
    requireSeeds_eq_ok, loadVaultConfig_eq_ok, loadHeartbeatRecord_eq_ok, exists_const]
  exact ⟨_, hsign, v, hleave.unfrozen.config, h, hleave.unfrozen.record, trivial, hleave.owner,
    trivial, hleave.unfrozen.pinned, hpos, _, hleave.deadline, hleave.unfrozen.before, by omega,
    by omega, payLamports_eq_ok.mpr ⟨hle, hs.lamports_fit hle, rfl⟩⟩

theorem revokeVault_progress (hs : s.Regular c) (hleave : Leavable s owner v h)
    (hsign : owner.canSign = true) (hactive : v.active = true) (hexec : v.executed = false)
    (hmutable : v.isMutable = true) (hplan : PlanLoads s (.vault owner) v) :
    ∃ s', revokeVault ⟨owner, .vault owner, .heartbeat (.vault owner), v.planKey (.vault owner)⟩ s =
      .ok s' := by
  obtain ⟨hload, hpinned⟩ := hplan.load
  obtain ⟨s₁, hclose, hsupply⟩ : ∃ s₁,
      closeRegisteredPlan s v (s.registeredPlan (.vault owner) v) (.vault owner) owner = .ok s₁ ∧
      Ledger.Bounded s₁.lamports u64Max := by
    unfold closeRegisteredPlan
    split
    · rename_i hhas
      obtain ⟨p, hp, hpin⟩ := hplan hhas
      have hreg : s.registeredPlan (.vault owner) v = some p := by
        simp [World.registeredPlan, hhas, hp]
      have hfit := hs.lamportSupply.credit_le (a := .assetPlan (.vault owner)) (b := owner) le_rfl
      rw [Nat.sub_self] at hfit
      simp only [hreg, Except.bind_eq_ok, okOr_eq_ok, require_eq_ok, exists_const]
      exact ⟨_, ⟨p, rfl, hpin, closeAssetPlan_eq_ok.mpr ⟨hfit, rfl⟩⟩,
        hs.lamportSupply.move le_rfl⟩
    · exact ⟨s, rfl, hs.lamportSupply⟩
  simp only [revokeVault, Except.bind_eq_ok, require_eq_ok, requireSigner_eq_ok,
    requireSeeds_eq_ok, loadVaultConfig_eq_ok, loadHeartbeatRecord_eq_ok, Except.pure_eq_ok,
    exists_const]
  exact ⟨_, hsign, v, hleave.unfrozen.config, h, hleave.unfrozen.record, _, hload, trivial,
    hleave.owner, hactive, hexec, hmutable, trivial, hleave.unfrozen.pinned, _, hleave.deadline,
    hleave.unfrozen.before, s₁, hclose, _, refundLamports_progress hsupply, _,
    refundLamports_progress (hsupply.move le_rfl), rfl⟩

/-- What an accepted revoke has found. -/
theorem revokeVault_leavable {ctx : RevokeVault} (hexec : revokeVault ctx s = .ok s') :
    ∃ v h, Leavable s ctx.owner v h ∧ v.isMutable = true := by
  obtain ⟨v, h, -, hseeds, hunf, howner, -, -, hmutable, -⟩ := revokeVault_ok hexec
  simp only [revokeVault, Except.bind_eq_ok, require_eq_ok, requireSigner_eq_ok,
    requireSeeds_eq_ok, loadVaultConfig_eq_ok, loadHeartbeatRecord_eq_ok, Except.pure_eq_ok,
    exists_const] at hexec
  obtain ⟨-, v', hv', h', hh', -, -, -, -, -, -, -, hheart, -, dl, hdl, -⟩ := hexec
  rw [hseeds] at hunf hheart hv'
  rw [hheart] at hh'
  obtain rfl := Option.some.inj (hunf.config.symm.trans hv')
  obtain rfl := Option.some.inj (hunf.record.symm.trans hh')
  rw [deadline_eq_ok hdl] at hdl
  exact ⟨v, h, ⟨hunf, howner, hdl⟩, hmutable⟩

end DeadMansVault
