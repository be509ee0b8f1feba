-- SUMMARY: The settlement of an executed vault by anyone: its distributions are paid and closed, and its accounts with them.
import DeadMansVault.Guarantees.Completion
import DeadMansVault.Guarantees.TokenSolvency

/-!
# Winding up

An execution ends with the finalize, but the shares of the tokens may still be unpaid then. From
there on anyone can pay them, close the distributions one after the other and, after the delay,
the vault itself: the shares are covered, and no step needs rent.
-/

namespace DeadMansVault

open World

variable {c : Cluster} {o payer : Pubkey} {bs : List Beneficiary} {l : ExecutionLog}
  {s s' s'' : World}

/-! ## Runs of one payer -/

/-- Anyone may submit it after the finalize. -/
def Instruction.unwinds : Instruction → Bool
  | .executeTokenShares _ _ | .closeTokenDist _ | .closeExecutedVault _ => true
  | _ => false

/-- The payer submits such an instruction on the vault of `o`. -/
def Event.UnwoundBy (o payer : Pubkey) (e : Event) : Prop :=
  ∃ i moved, e = .executed i moved ∧ i.unwinds = true ∧ i.signer = payer ∧ i.vaultKey = .vault o

/-- A run of such instructions. -/
def Unwinds (c : Cluster) (o payer : Pubkey) (s s' : World) : Prop :=
  ∃ es, Trace (Step c) s es s' ∧ ∀ e ∈ es, e.UnwoundBy o payer

namespace Unwinds

theorem refl (s : World) : Unwinds c o payer s s := ⟨[], .nil s, nofun⟩

theorem trans (h : Unwinds c o payer s s') (h' : Unwinds c o payer s' s'') :
    Unwinds c o payer s s'' := by
  obtain ⟨es, hrun, hes⟩ := h
  obtain ⟨es', hrun', hes'⟩ := h'
  exact ⟨es ++ es', hrun.append hrun', List.forall_mem_append.mpr ⟨hes, hes'⟩⟩

theorem single {i : Instruction} (hi : i.unwinds = true) (hsigner : i.signer = payer)
    (ho : i.vaultKey = .vault o) (hexec : exec c i s = .ok s') : Unwinds c o payer s s' :=
  ⟨[_], .single (.executed hexec), fun _ he => ⟨i, _, List.mem_singleton.mp he, hi, hsigner, ho⟩⟩

end Unwinds

/-! ## Settlements that can go on -/

/-- An executed vault whose open distributions can be paid and closed: the mint loads, the vault
    and the beneficiaries, none of which is the vault, have token accounts for it, and no fees are
    withheld in that of the vault. -/
structure Settling (c : Cluster) (o : Pubkey) (bs : List Beneficiary) (l : ExecutionLog)
    (s : World) : Prop where
  reachable : Reachable c s
  tallied : (s.estate c o).Tallied
  solvent : (s.estate c o).TokenSolvent
  config : ∃ v, s.vaultConfigs (.vault o) = some v ∧ v.executed = true ∧ v.beneficiaries = bs
  log : s.executionLogs (.execution (.vault o)) = some l
  apart : ∀ b ∈ bs, b.wallet ≠ .vault o
  mint : ∀ m ∈ s.openDists o, (s.mints m).isSome = true
  vaultAta : ∀ m ∈ s.openDists o, s.tokenAccounts (canonicalAta c (.vault o) m) =
    some ⟨some (c.tokenProgram m), m, .vault o⟩
  fees : ∀ m ∈ s.openDists o, s.withheldFees (canonicalAta c (.vault o) m) = 0
  account : ∀ m ∈ s.openDists o, ∀ b ∈ bs,
    ∃ dest, s.tokenAccounts dest = some ⟨some (c.tokenProgram m), m, b.wallet⟩

/-- A run that leads on. -/
structure Toward (c : Cluster) (o payer : Pubkey) (bs : List Beneficiary) (l : ExecutionLog)
    (s s' : World) : Prop where
  unwinds : Unwinds c o payer s s'
  settling : Settling c o bs l s'
  now : s'.now = s.now

namespace Toward

theorem refl (h : Settling c o bs l s) : Toward c o payer bs l s s := ⟨.refl s, h, rfl⟩

theorem trans (h : Toward c o payer bs l s s') (h' : Toward c o payer bs l s' s'') :
    Toward c o payer bs l s s'' :=
  ⟨h.unwinds.trans h'.unwinds, h'.settling, h'.now.trans h.now⟩

end Toward

namespace Settling

theorem lawful (h : Settling c o bs l s) : (s.estate c o).Lawful c o := h.reachable.lawful o

/-- What an instruction of the settlement has to keep. -/
theorem next (h : Settling c o bs l s) {i : Instruction} (hi : i.unwinds = true)
    (hsigner : i.signer = payer) (ho : i.vaultKey = .vault o) (hexec : exec c i s = .ok s')
    (hconfig : ∃ v, s'.vaultConfigs (.vault o) = some v ∧ v.executed = true ∧
      v.beneficiaries = bs)
    (hlog : s'.executionLogs = s.executionLogs) (hopen : s'.openDists o ⊆ s.openDists o)
    (hata : ∀ m ∈ s'.openDists o, s'.tokenAccounts (canonicalAta c (.vault o) m) =
      s.tokenAccounts (canonicalAta c (.vault o) m)) : Toward c o payer bs l s s' := by
  have hsound := h.reachable.sound
  have hfoot := exec_confined hsound.regular hexec
  have hfit : ¬ (Event.executed i s'.moved).Overflows o s := by
    rintro ⟨ctx, moved, v, heq, -⟩
    obtain ⟨rfl, -⟩ := Event.executed.inj heq
    cases hi
  refine ⟨.single hi hsigner ho hexec, ?_, hfoot.now⟩
  exact {
    reachable := h.reachable.step (.executed hexec)
    tallied := tallied_step hsound h.lawful h.tallied (.executed hexec) hfit
    solvent := tokenSolvent_step hsound h.lawful h.tallied h.solvent (.executed hexec) hfit
    config := hconfig
    log := (congrFun hlog _).trans h.log
    apart := h.apart
    mint := fun m hm => hfoot.mints ▸ h.mint m (hopen hm)
    vaultAta := fun m hm => (hata m hm).trans (h.vaultAta m (hopen hm))
    fees := fun m hm => hfoot.withheldFees ▸ h.fees m (hopen hm)
    account := fun m hm b hb => by
      obtain ⟨dest, hdest⟩ := h.account m (hopen hm) b hb
      exact ⟨dest, (hfoot.tokens dest _ hdest (ho ▸ h.apart b hb)).1⟩ }

/-! ## The steps of a settlement -/

/-- One share of an open distribution is paid. -/
theorem tokenShare (h : Settling c o bs l s) (hsign : payer.canSign = true) {m : Pubkey}
    {d : TokenDist} (hd : s.tokenDists (.tokenDist (.vault o) m) = some d) {i : Nat}
    {b : Beneficiary} (hb : bs[i]? = some b) :
    ∃ s' d', Toward c o payer bs l s s' ∧ s'.tokenDists (.tokenDist (.vault o) m) = some d' ∧
      Bitmask.test d'.paidMask i = true ∧
      (∀ k, Bitmask.test d.paidMask k = true → Bitmask.test d'.paidMask k = true) ∧
      s'.openDists o = s.openDists o := by
  cases hclear : Bitmask.test d.paidMask i with
  | true => exact ⟨s, d, .refl h, hd, hclear, fun _ hk => hk, rfl⟩
  | false =>
      obtain ⟨v, hv, hexecuted, rfl⟩ := h.config
      obtain ⟨haccepted, rfl⟩ := h.lawful.accepted v hv
      have hm : m ∈ s.openDists v.owner := by rw [openDists, Set.mem_ofPred_eq, hd]; rfl
      have hmem := List.mem_of_getElem? hb
      obtain ⟨dest, hdest⟩ := h.account m hm b hmem
      have hcovered := h.solvent.share_le h.lawful hv hd hb hclear
      obtain ⟨s', hexec⟩ := executeTokenShares_progress h.reachable.sound.regular.fresh hsign hv rfl
        (h.mint m hm) hd (h.lawful.dist m d hd).1 hb hclear (h.vaultAta m hm) hdest hcovered
      have hi : i < 32 := ((List.getElem?_eq_some_iff.mp hb).1).trans_le
        (haccepted.count.2.trans (by decide))
      -- The handler takes one turn, and that turn pays the share.
      obtain ⟨_, d₀, _, -, -, -, -, -, hd₀, hturns⟩ := executeTokenShares_ok hexec
      obtain ⟨t, hturn, hend⟩ := Trace.cons_iff.mp hturns
      obtain rfl : s' = t := (Trace.nil_iff.mp hend).symm
      obtain ⟨_, d₁, -, hd₁, ⟨hset, -⟩ | ⟨-, _, -, -, -, heq⟩⟩ := payTokenShare_ok hturn
      · obtain rfl := Option.some.inj (hd.symm.trans hd₁)
        cases hclear.symm.trans hset
      · obtain rfl := Option.some.inj (hd.symm.trans hd₁)
        have hdist : ∀ m', s'.tokenDists (.tokenDist (.vault v.owner) m') =
            if m' = m then some { d with paidMask := Bitmask.mark d.paidMask i }
            else s.tokenDists (.tokenDist (.vault v.owner) m') := by
          intro m'
          rw [heq]
          by_cases hm' : m' = m
          · subst hm'
            rw [if_pos rfl]
            exact Function.update_self ..
          · rw [if_neg hm']
            exact Function.update_of_ne (by simpa using hm') ..
        have hopen : s'.openDists v.owner = s.openDists v.owner := by
          ext m'
          rw [openDists, openDists, Set.mem_ofPred_eq, Set.mem_ofPred_eq, hdist m']
          by_cases hm' : m' = m
          · rw [if_pos hm', hm', hd]
            rfl
          · rw [if_neg hm']
        refine ⟨s', _, h.next (i := .executeTokenShares _ _) rfl rfl rfl hexec
          ⟨v, by rw [heq]; exact hv, hexecuted, rfl⟩ (by rw [heq]; rfl) hopen.subset
          (fun m' _ => by rw [heq]; rfl), (hdist m).trans (if_pos rfl),
          Bitmask.test_mark_self hi _, fun _ hk => Bitmask.test_mark_of_test hk, hopen⟩

/-- The shares below `n` are paid. -/
theorem tokenShares (h : Settling c o bs l s) (hsign : payer.canSign = true) {m : Pubkey}
    (hm : m ∈ s.openDists o) (n : Nat) (hn : n ≤ bs.length) :
    ∃ s' d', Toward c o payer bs l s s' ∧ s'.tokenDists (.tokenDist (.vault o) m) = some d' ∧
      (∀ i < n, Bitmask.test d'.paidMask i = true) ∧ s'.openDists o = s.openDists o := by
  induction n with
  | zero =>
      obtain ⟨d, hd⟩ := Option.isSome_iff_exists.mp hm
      exact ⟨s, d, .refl h, hd, nofun, rfl⟩
  | succ n ih =>
      obtain ⟨s₁, d₁, hto, hd₁, hpaid, hopen⟩ := ih (Nat.le_of_succ_le hn)
      obtain ⟨s₂, d₂, hto', hd₂, hbit, hmono, hopen'⟩ :=
        hto.settling.tokenShare hsign hd₁ (List.getElem?_eq_getElem hn)
      refine ⟨s₂, d₂, hto.trans hto', hd₂, fun i hi => ?_, hopen'.trans hopen⟩
      rcases Nat.lt_succ_iff_lt_or_eq.mp hi with hi | rfl
      · exact hmono i (hpaid i hi)
      · exact hbit

/-- A paid distribution is closed, and only that one. -/
theorem closeDist (h : Settling c o bs l s) (hsign : payer.canSign = true) {m : Pubkey}
    {d : TokenDist} (hd : s.tokenDists (.tokenDist (.vault o) m) = some d)
    (hpaid : ∀ i < bs.length, Bitmask.test d.paidMask i = true) :
    ∃ s', Toward c o payer bs l s s' ∧ s'.openDists o = s.openDists o \ {m} := by
  obtain ⟨v, hv, hexecuted, rfl⟩ := h.config
  obtain ⟨haccepted, rfl⟩ := h.lawful.accepted v hv
  have hm : m ∈ s.openDists v.owner := by rw [openDists, Set.mem_ofPred_eq, hd]; rfl
  obtain ⟨b, hb, -⟩ := largestShareIndex_spec haccepted.count.1
  have hmem := List.mem_of_getElem? hb
  obtain ⟨dest, hdest⟩ := h.account m hm b hmem
  have hfull : d.paidMask = fullMaskU32 v.beneficiaries.length :=
    (Bitmask.eq_full_iff (haccepted.count.2.trans (by decide)) (h.tallied.mask v m d hv hd)).mpr
      hpaid
  obtain ⟨s', hexec⟩ := closeTokenDist_progress h.reachable.sound.regular.fresh hsign hv rfl
    hexecuted (h.mint m hm) hd (h.lawful.dist m d hd).1 hfull (h.vaultAta m hm)
    (h.fees m hm) hb (h.apart b hmem) hdest
  obtain ⟨w, _, _, _, _, _, -, hw, -, -, -, -, -, rfl, -, -, rfl, heq⟩ := closeTokenDist_ok hexec
  obtain rfl := Option.some.inj (hv.symm.trans hw)
  have hopen : s'.openDists v.owner = s.openDists v.owner \ {m} := by
    ext m'
    rw [openDists, openDists, Set.mem_sdiff, Set.mem_ofPred_eq, Set.mem_ofPred_eq,
      Set.mem_singleton_iff, heq]
    by_cases hm' : m' = m
    · subst hm'
      simp
    · simp [hm']
  refine ⟨s', h.next (i := .closeTokenDist _) rfl rfl rfl hexec
    ⟨{ v with openTokenDists := v.openTokenDists - 1 }, ?_, hexecuted, rfl⟩ (by rw [heq]; rfl)
    (hopen ▸ Set.sdiff_subset) (fun m' hm' => ?_), hopen⟩
  · rw [heq]
    exact Function.update_self ..
  · have hne : m' ≠ m := by
      rw [hopen] at hm'
      exact hm'.2
    rw [heq]
    refine Function.update_of_ne ?_ ..
    simpa [canonicalAta] using fun hmint : m' = m => absurd hmint hne

/-- With the last distribution closed and the delay over, so are the accounts of the vault. -/
theorem closeCore (h : Settling c o bs l s) (hsign : payer.canSign = true)
    (hopen : s.openDists o = ∅) (hdelay : l.startedAt + executedCloseDelay c.devnet ≤ s.now) :
    ∃ s', Unwinds c o payer s s' ∧ Reachable c s' ∧ s'.vaultConfigs (.vault o) = none ∧
      s'.openDists o = ∅ := by
  obtain ⟨v, hv, hexecuted, rfl⟩ := h.config
  obtain ⟨haccepted, rfl⟩ := h.lawful.accepted v hv
  obtain ⟨b, hb, -⟩ := largestShareIndex_spec haccepted.count.1
  obtain ⟨l', hl', hdone⟩ := (h.lawful.executed v hv).mp hexecuted
  obtain rfl := Option.some.inj (h.log.symm.trans hl')
  obtain ⟨v', hb', hv', hh, hdue, hstarted⟩ := h.lawful.started l h.log
  obtain rfl := Option.some.inj (hv.symm.trans hv')
  obtain ⟨hpin, hmin, -⟩ := h.lawful.record hb' hh
  have hstart : i64Min ≤ l.startedAt := by
    have hinterval := haccepted.intervalRange.1
    have hgrace := haccepted.graceRange.1
    have hpos : 0 ≤ minHeartbeatInterval c.devnet ∧ 0 ≤ minGracePeriod c.devnet := by
      unfold minHeartbeatInterval minGracePeriod
      split <;> decide
    simp only [VaultConfig.deadlineAt] at hdue
    omega
  have hzero : v.openTokenDists = 0 := by
    have hcount : (s.openDists v.owner).encard = v.openTokenDists := h.tallied.count v hv
    rw [hopen, Set.encard_empty] at hcount
    exact_mod_cast hcount.symm
  have hplan : PlanLoads s.fresh (.vault v.owner) v := by
    intro hhas
    obtain ⟨p, hp⟩ := Option.isSome_iff_exists.mp (h.lawful.planned.mpr ⟨v, hv, hhas⟩)
    exact ⟨p, hp, (h.lawful.plan p hp).1⟩
  obtain ⟨s', hexec⟩ := closeExecutedVault_progress h.reachable.sound.regular.fresh hsign
    ⟨hv, h.log, rfl⟩ (h.lawful.logged l h.log).1 hh hpin hexecuted hdone hzero hplan hstart hdelay hb
  have hstep : exec c (.closeExecutedVault ⟨payer, .vault v.owner, .heartbeat (.vault v.owner),
      .execution (.vault v.owner), v.planKey (.vault v.owner), some b.wallet⟩) s = .ok s' := hexec
  obtain ⟨_, _, _, -, -, -, -, hsettle⟩ := closeExecutedVault_ok hexec
  obtain ⟨_, _, -, rfl, heq⟩ := settleAndClose_ok hsettle
  refine ⟨s', .single rfl rfl rfl hstep, h.reachable.step (.executed hstep), ?_, ?_⟩
  · rw [heq]
    simp [World.closePair]
  · rw [← hopen, heq]
    unfold openDists World.closePair World.closePlan
    split <;> rfl

end Settling

/-! ## From an executed vault on -/

/-- The mints of the open distributions load, and a beneficiary without a token account for one of
    them can be given the associated one. -/
structure Settleable (c : Cluster) (o : Pubkey) (v : VaultConfig) (s : World) : Prop where
  apart : ∀ b ∈ v.beneficiaries, b.wallet ≠ .vault o
  mint : ∀ m ∈ s.openDists o, (s.mints m).isSome = true
  account : ∀ m ∈ s.openDists o, ∀ b ∈ v.beneficiaries,
    s.tokenAccounts (canonicalAta c b.wallet m) = none ∨
      ∃ dest, s.tokenAccounts dest = some ⟨some (c.tokenProgram m), m, b.wallet⟩

/-- The associated token accounts of the vault and of the beneficiaries for the mints. -/
def settlementAccounts (o : Pubkey) (v : VaultConfig) (mints : List Pubkey) :
    List (Pubkey × Pubkey) :=
  mints.flatMap fun m => (.vault o, m) :: v.beneficiaries.map fun b => (b.wallet, m)

/-- The settlement is prepared: these accounts are created where they are missing, and the fees
    withheld in those of the vault are harvested. -/
def World.prepared (c : Cluster) (s : World) (o : Pubkey) (v : VaultConfig)
    (mints : List Pubkey) : World :=
  (s.createAtas c (settlementAccounts o v mints)).harvest (mints.map (canonicalAta c (.vault o)))

theorem prepared_reachable {v : VaultConfig} (h : Reachable c s) (mints : List Pubkey) :
    Reachable c (s.prepared c o v mints) :=
  harvest_reachable (createAtas_reachable h _) _

theorem estate_prepared (v : VaultConfig) (mints : List Pubkey) :
    (s.prepared c o v mints).estate c o = s.estate c o :=
  estate_createAtas (settlementAccounts o v mints)

/-- Then it can go on. -/
theorem Settleable.settling {v : VaultConfig} (h : Settleable c o v s) (hreach : Reachable c s)
    (hT : (s.estate c o).Tallied) (hS : (s.estate c o).TokenSolvent)
    (hv : s.vaultConfigs (.vault o) = some v) (hexecuted : v.executed = true)
    (hl : s.executionLogs (.execution (.vault o)) = some l) {mints : List Pubkey}
    (hmints : ∀ m ∈ s.openDists o, m ∈ mints) :
    Settling c o v.beneficiaries l (s.prepared c o v mints) := by
  have hmem : ∀ m ∈ s.openDists o, ∀ account,
      (account = (.vault o, m) ∨ ∃ b ∈ v.beneficiaries, account = (b.wallet, m)) →
      account ∈ settlementAccounts o v mints := by
    intro m hm account haccount
    refine List.mem_flatMap.mpr ⟨m, hmints m hm, ?_⟩
    rcases haccount with rfl | ⟨b, hb, rfl⟩
    · exact List.mem_cons_self
    · exact List.mem_cons_of_mem _ (List.mem_map_of_mem hb)
  obtain ⟨t, ht⟩ := createAtas_eq (c := c) s (settlementAccounts o v mints)
  have hestate := estate_prepared (c := c) (o := o) (s := s) v mints
  have hopen : (s.prepared c o v mints).openDists o = s.openDists o := by
    unfold World.prepared
    rw [ht]
    rfl
  refine ⟨prepared_reachable hreach mints, hestate ▸ hT, hestate ▸ hS,
    ⟨v, (congrArg Estate.config hestate).trans hv, hexecuted, rfl⟩,
    (congrArg Estate.log hestate).trans hl, h.apart, fun m hm => ?_, fun m hm => ?_,
    fun m hm => ?_, fun m hm b hb => ?_⟩
  · rw [hopen] at hm
    unfold World.prepared
    rw [ht]
    exact h.mint m hm
  · rw [hopen] at hm
    cases hk : s.tokenAccounts (canonicalAta c (.vault o) m) with
    | none => exact createAtas_created (hmem m hm _ (.inl rfl)) hk
    | some account =>
        have heq := hreach.sound.regular.vaultAtas o m _ account hk
        exact createAtas_kept (hk.trans (congrArg some heq))
  · rw [hopen] at hm
    exact if_pos (List.mem_map_of_mem (hmints m hm))
  · rw [hopen] at hm
    rcases h.account m hm b hb with hk | ⟨dest, hdest⟩
    · exact ⟨_, createAtas_created (hmem m hm _ (.inr ⟨b, hb, rfl⟩)) hk⟩
    · exact ⟨dest, createAtas_kept hdest⟩

namespace Sample

/-- Up to a day after the finalize, with the shares of the tokens unpaid. -/
def finalized : List Cue :=
  opening ++ [.run (.finalizeExecution finalizeExecution), .wait 86_400]

end Sample

end DeadMansVault
