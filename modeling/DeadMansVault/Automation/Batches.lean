-- SUMMARY: The batches of SOL shares that a pass submits go through, where nothing is owed to the vault itself.
import DeadMansVault.Automation.Pending

/-!
# Batches

An instruction for several shares at once goes through if each of its turns does. The turns
keep the vault solvent and clear of obstructions, so that one after the other goes through.
-/

namespace DeadMansVault.Crank

open Script World

variable {c : Cluster} {o : Pubkey} {v : VaultConfig} {l : ExecutionLog} {t t' : World}

/-- One turn of the loop of `execute_sol_shares`. -/
abbrev SolTurn (o : Pubkey) (v : VaultConfig) (l : ExecutionLog) (t : World)
    (entry : Nat × AccountMeta) (t' : World) : Prop :=
  paySolShare (.vault o) (.execution (.vault o)) v.beneficiaries l.solSnapshot t entry = .ok t'

/-- The wallet that a share goes to. -/
def Addressed (v : VaultConfig) (entry : Nat × AccountMeta) : Prop :=
  ∃ b, v.beneficiaries[entry.1]? = some b ∧ entry.2 = ⟨b.wallet, true⟩

/-- A turn sets its bit, and clears none. -/
theorem SolTurn.bits {entry : Nat × AccountMeta} (hcount : v.beneficiaries.length ≤ 32)
    (h : SolTurn o v l t entry t') :
    Bitmask.test (t'.estate c o).shareBits entry.1 = true ∧
      ∀ i, Bitmask.test (t.estate c o).shareBits i = true →
        Bitmask.test (t'.estate c o).shareBits i = true := by
  obtain ⟨b, l', hb, hl', ⟨hset, rfl⟩ | ⟨-, -, -, total, count, rfl⟩⟩ := paySolShare_ok h
  · refine ⟨?_, fun _ h => h⟩
    simp only [Estate.shareBits, World.estate, hl', Option.elim_some]
    exact hset
  · have hi : entry.1 < 32 := ((List.getElem?_eq_some_iff.mp hb).1).trans_le hcount
    simp only [Estate.shareBits, World.estate, hl', putExecutionLog_executionLogs,
      Function.update_self, Option.elim_some]
    exact ⟨Bitmask.test_mark_self hi _, fun _ => Bitmask.test_mark_of_test⟩

/-- What the next turn needs. -/
structure Sharable (c : Cluster) (o : Pubkey) (v : VaultConfig) (l : ExecutionLog) (t : World) :
    Prop where
  regular : t.Regular c
  unobstructed : (t.estate c o).Unobstructed c o
  solvent : (t.estate c o).Solvent c
  config : t.vaultConfigs (.vault o) = some v
  log : ∃ l', t.executionLogs (.execution (.vault o)) = some l' ∧ l'.solSnapshot = l.solSnapshot

namespace Sharable

theorem turn (h : Sharable c o v l t) {entry : Nat × AccountMeta} (hentry : Addressed v entry) :
    ∃ t', SolTurn o v l t entry t' := by
  obtain ⟨l', hl', hsnap⟩ := h.log
  obtain ⟨i, dest⟩ := entry
  obtain ⟨b, hb, hdest⟩ := hentry
  dsimp only at hb hdest
  unfold SolTurn
  rw [hdest, ← hsnap]
  have hlaw := h.unobstructed.lawful
  cases hclear : Bitmask.test l'.solPaidMask i with
  | true =>
      have hlog : t.loadExecutionLog (.execution (.vault o)) = .ok l' := by simp [hl']
      exact ⟨t, by simp [paySolShare, okOr, hb, hlog, hclear, bind, Except.bind, pure, Except.pure]⟩
  | false =>
      obtain ⟨-, hle⟩ := hlaw.logged l' hl'
      have hbps : b.shareBps ≤ 10000 :=
        shareBps_le (hlaw.accepted v h.config).1.shares (List.mem_of_getElem? hb)
      have hbit : Bitmask.test (t.estate c o).shareBits i = false := by
        simpa [Estate.shareBits, World.estate, hl'] using hclear
      refine paySolShare_progress h.regular hl' hb hclear (fun hpos hself => ?_) ?_
      · refine h.unobstructed.clear (.share h.config hb hself hbit ?_)
        have hshareable : (t.estate c o).shareable c v = l'.solSnapshot := by
          simp [Estate.shareable, World.estate, hl']
        rwa [hshareable, ← shareAmount_eq hle hbps]
      · have hcovered := h.solvent.share_le hlaw h.config hl' hb hclear
        exact (Nat.le_add_left _ _).trans hcovered

theorem next (h : Sharable c o v l t) {entry : Nat × AccountMeta}
    (hturn : SolTurn o v l t entry t') : Sharable c o v l t' := by
  obtain ⟨l', hl', hsnap⟩ := h.log
  have hopen := h.unobstructed.unexecuted v h.config
  have hfoot : Confined c (.vault o) (.vault o) t t' := paySolShare_confined hturn
  unfold SolTurn at hturn
  rw [← hsnap] at hturn
  obtain ⟨acts, l'', hacts, hdeeds, hv', hl'', hsnap'⟩ :=
    paySolShare_performs (c := c) h.config hopen hl' hturn
  have hrun : Trace (Estate.Step c o) (t.estate c o) acts (t'.estate c o) := hacts.run
  have hdist : ∀ a ∈ acts, a.deed.distributes = true := by
    intro a ha
    obtain ⟨i, hdeed⟩ := hdeeds a ha
    rw [hdeed]
    rfl
  refine ⟨hfoot.regular h.regular, (h.unobstructed.run hrun hdist).1, ?_, hv', l'', hl'',
    hsnap'.trans hsnap⟩
  have hkept := hrun.preserves
    (P := fun F : Estate => F.Lawful c o ∧ F.Solvent c)
    (fun F a F' hF hstep => ⟨hF.1.step hstep, hF.2.step hF.1 hstep⟩)
    ⟨h.unobstructed.lawful, h.solvent⟩
  exact hkept.2

/-- The turns of a batch go through, and set its bits. -/
theorem turns (h : Sharable c o v l t) {entries : List (Nat × AccountMeta)}
    (hentries : ∀ entry ∈ entries, Addressed v entry) :
    ∃ t', Trace (SolTurn o v l) t entries t' ∧ Sharable c o v l t' ∧
      (∀ i, Bitmask.test (t.estate c o).shareBits i = true →
        Bitmask.test (t'.estate c o).shareBits i = true) ∧
      ∀ entry ∈ entries, Bitmask.test (t'.estate c o).shareBits entry.1 = true := by
  have hcount : v.beneficiaries.length ≤ 32 :=
    (h.unobstructed.lawful.accepted v h.config).1.count.2.trans (by decide)
  induction entries generalizing t with
  | nil => exact ⟨t, .nil t, h, fun _ h => h, nofun⟩
  | cons entry rest ih =>
      obtain ⟨t₁, hturn⟩ := h.turn (hentries entry List.mem_cons_self)
      obtain ⟨hself, hkept⟩ := hturn.bits (c := c) hcount
      obtain ⟨t', hrest, h', hmono, hbits⟩ := ih (h.next hturn) fun e he =>
        hentries e (List.mem_cons_of_mem entry he)
      refine ⟨t', .cons hturn hrest, h', fun i hi => hmono i (hkept i hi), fun e he => ?_⟩
      rcases List.mem_cons.mp he with rfl | he
      · exact hmono _ hself
      · exact hbits e he

end Sharable

end DeadMansVault.Crank
