-- SUMMARY: What the current program reads from a vault that the program without keeper bounties wrote.
import DeadMansVault.Guarantees.Events
import DeadMansVault.Program.Layout
import DeadMansVault.Program.Scenario

/-!
# Legacy vaults

The keeper bounty was appended to the config. In the account of a vault that was
written without it, its bytes are whatever the last write has left behind the
other fields: zero in a new account, but part of a beneficiary when a longer list
stood there before.
-/

namespace DeadMansVault

open World

variable {c : Cluster} {o : Pubkey} {L : Layout} {s s' : World}

/-! ## What a step does to a config -/

/-- The beneficiaries that the event gives to the vault of `o`. -/
def Event.newBeneficiaries (o : Pubkey) : Event → Option (List Beneficiary)
  | executed (.updateVault ctx params) _ =>
    if ctx.vaultConfig = .vault o then params.beneficiaries else none
  | _ => none

/-- Edits and creations apart, a config keeps its beneficiaries for as long as it exists. -/
theorem Estate.Step.beneficiaries {E E' : Estate} {a : Act} {list : List Beneficiary}
    (h : Estate.Step c o E a E') (hcreate : a.deed ≠ .create) (hamend : a.deed ≠ .amend)
    (hE : ∀ v, E.config = some v → v.beneficiaries = list) :
    ∀ v, E'.config = some v → v.beneficiaries = list := by
  intro v hv
  cases h with
  | create => exact absurd rfl hcreate
  | amend => exact absurd rfl hamend
  | revoke | closeRevoked | close => cases hv
  | beginDist hconfig | finalize hconfig | closeDist hconfig =>
      have hlist := hE _ hconfig
      obtain rfl := Option.some.inj hv
      exact hlist
  | _ => exact hE v hv

/-- Only `update_vault` changes the beneficiaries of a vault. -/
theorem Step.beneficiaries {e : Event} {v v' : VaultConfig} (hs : s.Sound c) (h : Step c s e s')
    (hv : s.vaultConfigs (.vault o) = some v) (hv' : s'.vaultConfigs (.vault o) = some v') :
    v'.beneficiaries = (e.newBeneficiaries o).getD v.beneficiaries := by
  obtain ⟨acts, hacts, hans⟩ := step_refines hs h o
  by_cases hplain : ∀ a ∈ acts, a.deed ≠ .create ∧ a.deed ≠ .amend
  · have hnone : e.newBeneficiaries o = none := by
      cases e with
      | rejected | environment => rfl
      | executed i moved =>
          cases i with
          | updateVault ctx params =>
              simp only [Event.newBeneficiaries, ite_eq_right_iff]
              intro ho
              have hshape := hans.2
              simp only [Instruction.vaultKey, ho, if_true] at hshape
              obtain ⟨a, rfl, hdeed⟩ := List.map_eq_singleton_iff.mp hshape
              exact absurd hdeed (hplain a (by simp)).2
          | _ => rfl
    rw [hnone]
    have hkept := (hacts.restrict hplain).preserves
      (P := fun E : Estate => ∀ w, E.config = some w → w.beneficiaries = v.beneficiaries)
      (fun E a E' hE hone => hone.1.beneficiaries hone.2.1 hone.2.2 hE)
      fun w hw => by rw [Option.some.inj (hw.symm.trans hv)]
    exact hkept v' hv'
  · push Not at hplain
    obtain ⟨a, ha, hdeed⟩ := hplain
    have hown : a.deed ≠ .interfere := fun hint => by simp [hint] at hdeed
    obtain ⟨i, moved, rfl, ho, hunf⟩ := hans.own ha hown
    cases h with
    | executed hexec =>
        have hbatch : a.deed.batched = false := by
          by_cases hcreate : a.deed = .create
          · simp [hcreate, Deed.batched]
          · simp [hdeed hcreate, Deed.batched]
        rw [hans.single ha hbatch, List.map_singleton] at hunf
        -- An edit that leaves the list alone.
        have edited : ∀ {k w w'}, k = Pubkey.vault o → s'.vaultConfigs k = some w' →
            s.vaultConfigs k = some w → w'.beneficiaries = w.beneficiaries →
            v'.beneficiaries = v.beneficiaries := by
          rintro _ w w' rfl hw' hw hlist
          obtain rfl := Option.some.inj (hw.symm.trans hv)
          obtain rfl := Option.some.inj (hw'.symm.trans hv')
          exact hlist
        cases i with
        | initializeVault ctx params =>
            obtain ⟨_, _, _, _, _, -, -, hnone, -⟩ := initializeVault_ok hexec
            have hkey : ctx.vaultConfig = .vault o := ho
            rw [hkey, World.fresh_vaultConfigs, hv] at hnone
            cases hnone
        | updateVault ctx params =>
            obtain ⟨w, w', hw, hw', hlist⟩ := updateVault_beneficiaries hexec
            have hkey : ctx.vaultConfig = .vault o := ho
            rw [hkey, World.fresh_vaultConfigs, hv] at hw
            rw [hkey, hv'] at hw'
            obtain rfl := Option.some.inj hw
            obtain rfl := Option.some.inj hw'
            simpa [Event.newBeneficiaries, hkey] using hlist
        | recordHeartbeat ctx method =>
            obtain ⟨_, _, _, -, -, -, -, -, -, -, -, heq⟩ := recordHeartbeat_ok hexec
            rw [heq] at hv'
            rw [Option.some.inj (hv'.symm.trans hv)]
            rfl
        | rotateAgent ctx newAgentPubkey =>
            obtain ⟨w, w', _, _, -, hunfrozen, -, -, -, -, -, hlist, -, -, heq⟩ :=
              rotateAgent_ok (c := c) hexec
            have hw' : s'.vaultConfigs ctx.vaultConfig = some w' := by simp [heq]
            exact edited ho hw' hunfrozen.config hlist
        | setAssetPlan ctx assignments =>
            obtain ⟨w, _, _, -, -, hunfrozen, -, -, -, -, -, -, heq⟩ := setAssetPlan_ok hexec
            have hw' : s'.vaultConfigs ctx.vaultConfig = some { w with hasAssetPlan := true } := by
              simp [heq]
            exact edited ho hw' hunfrozen.config rfl
        | updateAssetPlan ctx assignments =>
            obtain ⟨_, _, -, -, -, -, -, -, -, -, heq⟩ := updateAssetPlan_ok hexec
            rw [heq] at hv'
            rw [Option.some.inj (hv'.symm.trans hv)]
            rfl
        | clearAssetPlan ctx =>
            obtain ⟨w, _, -, -, hunfrozen, -, -, -, -, heq⟩ := clearAssetPlan_ok hexec
            have hw' : s'.vaultConfigs ctx.vaultConfig = some { w with hasAssetPlan := false } := by
              simp [heq]
            exact edited ho hw' hunfrozen.config rfl
        | executeSolShares =>
            obtain ⟨_, heq⟩ := hunf _ (List.mem_singleton_self _)
            simp [heq, Deed.batched] at hbatch
        | executeTokenShares =>
            obtain ⟨_, heq⟩ := hunf _ (List.mem_singleton_self _)
            simp [heq, Deed.batched] at hbatch
        | _ =>
            simp only [Instruction.Unfolds, List.cons.injEq, and_true] at hunf
            simp [hunf] at hdeed

theorem Step.exists_of_newBeneficiaries {e : Event} {list : List Beneficiary} (h : Step c s e s')
    (hnew : e.newBeneficiaries o = some list) : ∃ v, s'.vaultConfigs (.vault o) = some v := by
  cases h with
  | rejected | environment => cases hnew
  | @executed i _ _ hexec =>
      cases i with
      | updateVault ctx params =>
          obtain ⟨_, v, -, hv, -⟩ := updateVault_beneficiaries hexec
          simp only [Event.newBeneficiaries] at hnew
          split at hnew
          · rename_i ho
            exact ⟨v, ho ▸ hv⟩
          · cases hnew
      | _ => cases hnew

/-- If the event creates the vault of `o`, then without a bounty. -/
def Event.Unfunded (o : Pubkey) (e : Event) : Prop :=
  ∀ ctx params moved, e = .executed (.initializeVault ctx params) moved →
    ctx.vaultConfig = .vault o → params.keeperBounty = 0

/-- No bounty is promised on the vault of `o`. -/
def World.NoBounty (o : Pubkey) (s : World) : Prop :=
  ∀ v, s.vaultConfigs (.vault o) = some v → v.keeperBounty = 0

theorem Estate.Step.keeperBounty {E E' : Estate} {a : Act} (h : Estate.Step c o E a E')
    (hcreate : a.deed ≠ .create) (hE : ∀ v, E.config = some v → v.keeperBounty = 0) :
    ∀ v, E'.config = some v → v.keeperBounty = 0 := by
  intro v hv
  cases h with
  | create => exact absurd rfl hcreate
  | revoke | closeRevoked | close => cases hv
  | amend hconfig _ _ hedit =>
      obtain rfl := Option.some.inj hv
      exact hedit.keeperBounty.trans (hE _ hconfig)
  | beginDist hconfig | finalize hconfig | closeDist hconfig =>
      have hnone := hE _ hconfig
      obtain rfl := Option.some.inj hv
      exact hnone
  | _ => exact hE v hv

/-- Only `initialize_vault` promises a bounty. -/
theorem Step.noBounty {e : Event} (hs : s.Sound c) (h : Step c s e s') (he : e.Unfunded o)
    (hnone : s.NoBounty o) : s'.NoBounty o := by
  obtain ⟨acts, hacts, hans⟩ := step_refines hs h o
  by_cases hplain : ∀ a ∈ acts, a.deed ≠ .create
  · exact (hacts.restrict hplain).preserves
      (P := fun E : Estate => ∀ v, E.config = some v → v.keeperBounty = 0)
      (fun E a E' hE hone => hone.1.keeperBounty hone.2 hE) hnone
  · push Not at hplain
    obtain ⟨a, ha, hdeed⟩ := hplain
    obtain ⟨i, moved, rfl, ho, hunf⟩ := hans.own ha (by simp [hdeed])
    have hkind := hunf.kind _ (List.mem_map_of_mem ha)
    rw [hdeed] at hkind
    cases h with
    | executed hexec =>
        cases i with
        | initializeVault ctx params =>
            have hkey : ctx.vaultConfig = .vault o := ho
            obtain ⟨w, hw, hbounty⟩ := initializeVault_keeperBounty hexec
            intro v hv
            rw [hkey, hv] at hw
            obtain rfl := Option.some.inj hw
            rw [hbounty]
            exact he ctx params _ rfl hkey
        | _ => simp [Deed.kinds, Instruction.kind] at hkind

/-! ## The legacy program -/

/-- The world, and the data of the account of one vault, if there is one. -/
abbrev LegacyState := World × Option (List UInt8)

/-- A step of the program that had no keeper bounties: the vault of `o` is created
    without one, and whatever the step makes of the config is written over the front of
    its account, which is zero when it is new. -/
structure LegacyStep (c : Cluster) (o : Pubkey) (L : Layout) (x : LegacyState) (e : Event)
    (y : LegacyState) : Prop where
  step : Step c x.1 e y.1
  unfunded : e.Unfunded o
  written : y.2 = (y.1.vaultConfigs (.vault o)).map fun v =>
    writeConfig L v (x.2.getD (zeroed VaultConfig.space))

/-- The current program reads every field of the vault as it is, and no bounty. -/
def LegacyState.Readable (L : Layout) (o : Pubkey) (x : LegacyState) : Prop :=
  ∀ v, x.1.vaultConfigs (.vault o) = some v →
    ∃ data, x.2 = some data ∧ readConfig L data = some (L.stored v, 0)

/-- New beneficiaries leave zeros where the bounty stands behind them. -/
def LegacyState.Spares (o : Pubkey) (x : LegacyState) (e : Event) : Prop :=
  ∀ list, e.newBeneficiaries o = some list →
    ∀ data, x.2 = some data → ∀ b ∈ bountyBytes data list.length, b = 0

/-- The world as the current program finds it: the bounty is read from the account. -/
def LegacyState.upgraded (L : Layout) (o : Pubkey) (x : LegacyState) : World :=
  x.1.putVaultConfig (.vault o) ((x.1.vaultConfigs (.vault o)).map fun v =>
    { v with keeperBounty := (x.2.bind (readConfig L)).elim 0 (·.2.toNat) })

/-- The account of a vault is there when the vault is, and where the bounty stands now
    it holds zeros. -/
structure LegacyState.Clean (c : Cluster) (o : Pubkey) (x : LegacyState) : Prop where
  sound : x.1.Sound c
  lawful : (x.1.estate c o).Lawful c o
  noBounty : x.1.NoBounty o
  absent : x.1.vaultConfigs (.vault o) = none → x.2 = none
  data : ∀ v, x.1.vaultConfigs (.vault o) = some v →
    ∃ data, x.2 = some data ∧ data.length = VaultConfig.space ∧
      ∀ b ∈ bountyBytes data v.beneficiaries.length, b = 0

namespace LegacyState

variable {x y : LegacyState} {e : Event}

theorem bountyBytes_zeroed (space n : Nat) : ∀ b ∈ bountyBytes (zeroed space) n, b = 0 := by
  intro b hb
  exact List.eq_of_mem_replicate (List.mem_of_mem_drop (List.mem_of_mem_take hb))

/-- What a step leaves in the account, and what the current program makes of it. -/
theorem Clean.written (hx : x.Clean c o) (h : LegacyStep c o L x e y) {v : VaultConfig}
    (hv : y.1.vaultConfigs (.vault o) = some v) :
    ∃ data bounty, y.2 = some data ∧ data.length = VaultConfig.space ∧
      readConfig L data = some (L.stored v, bounty) ∧
      (bounty = 0 ↔ ∀ b ∈ bountyBytes data v.beneficiaries.length, b = 0) ∧
      ((∀ b ∈ bountyBytes data v.beneficiaries.length, b = 0) ↔ x.Spares o e) := by
  have hlaw : (y.1.estate c o).Lawful c o := by
    obtain ⟨acts, hacts, -⟩ := step_refines hx.sound h.step o
    exact hx.lawful.run hacts
  have hcount : v.beneficiaries.length ≤ maxBeneficiaries := (hlaw.accepted v hv).1.count.2
  have hy := h.written
  rw [hv, Option.map_some] at hy
  cases hv₀ : x.1.vaultConfigs (.vault o) with
  | none =>
      -- The account is new.
      have hnone := hx.absent hv₀
      have hlen : (zeroed VaultConfig.space).length = VaultConfig.space := List.length_replicate
      rw [hnone, Option.getD_none] at hy
      have hclean : ∀ b ∈ bountyBytes (writeConfig L v (zeroed VaultConfig.space))
          v.beneficiaries.length, b = 0 := by
        rw [bountyBytes_writeConfig le_rfl]
        exact bountyBytes_zeroed _ _
      obtain ⟨bounty, hread, hzero⟩ := readConfig_writeConfig (L := L) hcount hlen
      refine ⟨_, bounty, hy, length_writeConfig hcount hlen, hread, ?_, ?_⟩
      · rw [bountyBytes_writeConfig le_rfl]
        exact hzero
      · refine iff_of_true hclean fun list _ data hdata => ?_
        rw [hnone] at hdata
        cases hdata
  | some v₀ =>
      obtain ⟨data, hdata, hlen, hclean⟩ := hx.data v₀ hv₀
      have hlist := h.step.beneficiaries hx.sound hv₀ hv
      rw [hdata, Option.getD_some] at hy
      obtain ⟨bounty, hread, hzero⟩ := readConfig_writeConfig (L := L) hcount hlen
      refine ⟨_, bounty, hy, length_writeConfig hcount hlen, hread, ?_, ?_⟩
      · rw [bountyBytes_writeConfig le_rfl]
        exact hzero
      · rw [bountyBytes_writeConfig le_rfl]
        cases hnew : e.newBeneficiaries o with
        | none =>
            rw [hnew, Option.getD_none] at hlist
            rw [hlist]
            refine iff_of_true hclean fun list hsome => ?_
            rw [hnew] at hsome
            cases hsome
        | some list =>
            rw [hnew, Option.getD_some] at hlist
            simp [Spares, hnew, hdata, hlist]

/-- The current program reads a vault right exactly when the step that wrote it has
    spared the bounty. -/
theorem Clean.readable_iff (hx : x.Clean c o) (h : LegacyStep c o L x e y) :
    y.Readable L o ↔ x.Spares o e := by
  cases hv : y.1.vaultConfigs (.vault o) with
  | none =>
      refine iff_of_true (fun v hv' => ?_) fun list hlist => ?_
      · rw [hv] at hv'
        cases hv'
      · obtain ⟨v, hv'⟩ := h.step.exists_of_newBeneficiaries hlist
        rw [hv] at hv'
        cases hv'
  | some v =>
      obtain ⟨data, bounty, hdata, -, hread, hzero, hclean⟩ := hx.written h hv
      rw [← hclean, ← hzero]
      constructor
      · intro hreadable
        obtain ⟨data', hdata', hread'⟩ := hreadable v hv
        obtain rfl := Option.some.inj (hdata.symm.trans hdata')
        exact (Prod.mk.inj (Option.some.inj (hread.symm.trans hread'))).2
      · rintro rfl v' hv'
        obtain rfl := Option.some.inj (hv.symm.trans hv')
        exact ⟨data, hdata, hread⟩

theorem Clean.step (hx : x.Clean c o) (h : LegacyStep c o L x e y) (hspares : x.Spares o e) :
    y.Clean c o := by
  obtain ⟨acts, hacts, -⟩ := step_refines hx.sound h.step o
  refine ⟨hx.sound.step h.step, hx.lawful.run hacts, h.step.noBounty hx.sound h.unfunded hx.noBounty,
    fun hnone => ?_, fun v hv => ?_⟩
  · rw [h.written, hnone, Option.map_none]
  · obtain ⟨data, _, hdata, hlen, -, -, hclean⟩ := hx.written h hv
    exact ⟨data, hdata, hlen, hclean.mpr hspares⟩

theorem Clean.initial (hinit : Initial c s) : Clean c o (s, none) := by
  have hreach : Reachable c s := .initial hinit
  refine ⟨hreach.sound, hreach.lawful o, fun v hv => ?_, fun _ => rfl, fun v hv => ?_⟩
  all_goals
    rw [hinit.vaultConfigs] at hv
    cases hv

/-- The current program finds the world as the legacy program left it. -/
theorem Clean.upgraded_eq (hx : x.Clean c o) (hread : x.Readable L o) : x.upgraded L o = x.1 := by
  cases hv : x.1.vaultConfigs (.vault o) with
  | none =>
      have hsame := Function.update_eq_self (.vault o) x.1.vaultConfigs
      rw [hv] at hsame
      simp only [upgraded, hv, Option.map_none, putVaultConfig, hsame]
  | some v =>
      obtain ⟨data, hdata, hbounty⟩ := hread v hv
      have hsame := Function.update_eq_self (.vault o) x.1.vaultConfigs
      rw [hv] at hsame
      have hnone := hx.noBounty v hv
      have hzero : { v with keeperBounty := ((x.2.bind (readConfig L)).elim 0 (·.2.toNat)) } = v := by
        rw [hdata, Option.bind_some, hbounty, Option.elim_some]
        cases v
        cases hnone
        rfl
      simp only [upgraded, hv, Option.map_some, hzero, putVaultConfig, hsame]

end LegacyState

/-! ## The upgrade -/

/-- Without a bounty on the vault the begin of its execution carves out nothing. -/
theorem begin_carves_nothing {ctx : BeginExecution} (hs : s.Sound c) (hnone : s.NoBounty o)
    (ho : ctx.vaultConfig = .vault o) (h : exec c (.beginExecution ctx) s = .ok s') :
    ∃ v l, s.vaultConfigs (.vault o) = some v ∧ s'.executionLogs (.execution (.vault o)) = some l ∧
      l.solSnapshot = s.lamports (.vault o) - c.minimumBalance VaultConfig.space -
        bequeathed ((s.estate c o).registered v) .default := by
  obtain ⟨acts, hacts, hdeeds⟩ := exec_performs (i := .beginExecution ctx) hs.regular ho h
  obtain ⟨a, rfl, hdeed⟩ := List.map_eq_singleton_iff.mp hdeeds
  obtain ⟨_, hone, hnil⟩ := Trace.cons_iff.mp hacts.run
  obtain rfl := Trace.nil_iff.mp hnil
  obtain ⟨v, _, hv, -, -, -, -, heq⟩ := hone.begin_eq hdeed
  have hzero := hnone v hv
  have hlog := congrArg Estate.log heq
  refine ⟨v, _, hv, hlog, ?_⟩
  rw [hzero]
  rfl

/-- … and its finalize pays nothing. -/
theorem finalize_pays_nothing {ctx : FinalizeExecution} (hnone : s.NoBounty o)
    (ho : ctx.vaultConfig = .vault o) (h : exec c (.finalizeExecution ctx) s = .ok s') :
    s'.moved = [] := by
  obtain ⟨v, l, -, hgate, -, -, -, rfl⟩ := finalizeExecution_ok h
  have hzero : v.keeperBounty = 0 := hnone v (by rw [← ho]; exact hgate.config)
  simp [hzero, Movement.made]

/-- **Legacy vaults.** Along every run of the legacy program in which new beneficiaries
    leave zeros where the bounty will stand, the current program reads each config as it
    is, and no bounty; a step with other beneficiaries is one after which it does not.
    From the upgrade on, no begin of an execution of the vault carves anything out, and
    no finalize pays anything. -/
theorem legacy_vaults_readable {s₀ : World} {es : List Event} {x : LegacyState}
    (hinit : Initial c s₀)
    (hrun : Trace (fun x e y => LegacyStep c o L x e y ∧ x.Spares o e) (s₀, none) es x) :
    x.Readable L o ∧ (∀ e y, LegacyStep c o L x e y → (y.Readable L o ↔ x.Spares o e)) ∧
    ∀ post t, Trace (fun s e s' => Step c s e s' ∧ e.Unfunded o) (x.upgraded L o) post t →
      (∀ ctx t', ctx.vaultConfig = .vault o → exec c (.beginExecution ctx) t = .ok t' →
        ∃ v l, t.vaultConfigs (.vault o) = some v ∧
          t'.executionLogs (.execution (.vault o)) = some l ∧
          l.solSnapshot = t.lamports (.vault o) - c.minimumBalance VaultConfig.space -
            bequeathed ((t.estate c o).registered v) .default) ∧
      ∀ ctx t', ctx.vaultConfig = .vault o → exec c (.finalizeExecution ctx) t = .ok t' →
        t'.moved = [] := by
  have hstart : LegacyState.Readable L o (s₀, none) := by
    intro v hv
    rw [hinit.vaultConfigs] at hv
    cases hv
  obtain ⟨hclean, hread⟩ := hrun.preserves (P := fun x => x.Clean c o ∧ x.Readable L o)
    (fun x e y hx hstep => ⟨hx.1.step hstep.1 hstep.2, (hx.1.readable_iff hstep.1).mpr hstep.2⟩)
    ⟨.initial hinit, hstart⟩
  refine ⟨hread, fun e y hstep => hclean.readable_iff hstep, fun post t hpost => ?_⟩
  rw [hclean.upgraded_eq hread] at hpost
  obtain ⟨hsound, hnone⟩ := hpost.preserves (P := fun t => t.Sound c ∧ t.NoBounty o)
    (fun t e t' ht hstep => ⟨ht.1.step hstep.1, hstep.1.noBounty ht.1 hstep.2 ht.2⟩)
    ⟨hclean.sound, hclean.noBounty⟩
  exact ⟨fun ctx t' ho hexec => begin_carves_nothing hsound hnone ho hexec,
    fun ctx t' ho hexec => finalize_pays_nothing hnone ho hexec⟩

namespace Sample

/-- Plain keys are their own bytes. No derived address is stored in the vault below. -/
def layout : Layout where
  address
    | .key n => BitVec.ofNat 256 n
    | _ => 0
  discriminator := 0x4d7766b8d82b5663
  bump := 255

/-- A wallet whose address is not zero throughout its higher bytes. -/
def heir : Pubkey := .key (2 ^ 240)

/-- The legacy program knows no bounty. -/
def initializeLegacy (beneficiaries : List Beneficiary) : Instruction :=
  .initializeVault ⟨owner, vault, .heartbeat vault, feeWallet⟩
    ⟨agent, 86_400, 604_800, beneficiaries, true, 0⟩

def replaceBeneficiaries (beneficiaries : List Beneficiary) : Instruction :=
  .updateVault ⟨owner, vault, .heartbeat vault⟩ ⟨none, none, some beneficiaries⟩

/-- The legacy program processes an instruction. -/
def legacyCue (x : LegacyState) (i : Instruction) : LegacyState :=
  let s := x.1.cue cluster (.run i)
  (s, (s.vaultConfigs vault).map fun v => writeConfig layout v (x.2.getD (zeroed VaultConfig.space)))

/-- A vault for two, created by the legacy program. -/
def legacy : LegacyState :=
  legacyCue (genesis.world, none) (initializeLegacy [⟨alice, 6_000⟩, ⟨heir, 4_000⟩])

theorem legacy_step : LegacyStep cluster owner layout (genesis.world, none)
    (genesis.world.event cluster (.run (initializeLegacy [⟨alice, 6_000⟩, ⟨heir, 4_000⟩]))) legacy where
  step := (Genesis.initial genesis_consistent).regular.cue (by decide +kernel)
  unfunded := by
    rintro _ _ _ ⟨⟩ -
    rfl
  written := rfl

theorem legacy_replace {beneficiaries : List Beneficiary}
    (h : legacy.1.accepts cluster (.run (replaceBeneficiaries beneficiaries)) = true) :
    LegacyStep cluster owner layout legacy
      (legacy.1.event cluster (.run (replaceBeneficiaries beneficiaries)))
      (legacyCue legacy (replaceBeneficiaries beneficiaries)) where
  step := by
    have hreach := (Reachable.initial (Genesis.initial genesis_consistent)).step legacy_step.step
    exact hreach.sound.regular.cue h
  unfunded := by
    rintro _ _ _ ⟨⟩
  written := rfl

def grown : List Beneficiary := [⟨alice, 5_000⟩, ⟨heir, 4_000⟩, ⟨bob, 1_000⟩]
def shrunk : List Beneficiary := [⟨alice, 10_000⟩]

theorem legacy_evaluates :
    (legacy.1.accepts cluster (.run (replaceBeneficiaries grown)) = true ∧
      ∀ data ∈ legacy.2, ∀ b ∈ bountyBytes data grown.length, b = 0) ∧
    legacy.1.accepts cluster (.run (replaceBeneficiaries shrunk)) = true ∧
    ∃ v ∈ (legacyCue legacy (replaceBeneficiaries shrunk)).1.vaultConfigs vault,
      ∃ data ∈ (legacyCue legacy (replaceBeneficiaries shrunk)).2,
        ∃ read ∈ readConfig layout data, read.1 = layout.stored v ∧
          maxKeeperBountyLamports < read.2.toNat := by
  decide +kernel

end Sample

/-- On the sample vault, with a third beneficiary added later. -/
theorem legacy_vaults_readable_sample :
    (Sample.legacyCue Sample.legacy (Sample.replaceBeneficiaries Sample.grown)).Readable
      Sample.layout Sample.owner := by
  have hstep := Sample.legacy_replace Sample.legacy_evaluates.1.1
  have hspares : Sample.legacy.Spares Sample.owner (Sample.legacy.1.event Sample.cluster
      (.run (Sample.replaceBeneficiaries Sample.grown))) := by
    rintro list ⟨⟩ data hdata
    exact Sample.legacy_evaluates.1.2 data hdata
  have hrun := (Trace.single (R := fun x e y =>
    LegacyStep Sample.cluster Sample.owner Sample.layout x e y ∧ x.Spares Sample.owner e)
    ⟨Sample.legacy_step, fun _ hlist => nomatch hlist⟩).snoc ⟨hstep, hspares⟩
  exact (legacy_vaults_readable (Genesis.initial Sample.genesis_consistent) hrun).1

/-- The heir leaves the list, and eight bytes of their address become a bounty far above
    what the program lets an owner promise. -/
theorem legacy_vaults_shrunk :
    ∃ (s₀ : World) (es : List Event) (x : LegacyState) (v : VaultConfig) (data : List UInt8)
      (bounty : BitVec 64), Initial Sample.cluster s₀ ∧
      Trace (LegacyStep Sample.cluster Sample.owner Sample.layout) (s₀, none) es x ∧
      x.1.vaultConfigs Sample.vault = some v ∧ x.2 = some data ∧
      readConfig Sample.layout data = some (Sample.layout.stored v, bounty) ∧
      maxKeeperBountyLamports < bounty.toNat := by
  obtain ⟨haccepts, v, hv, data, hdata, ⟨fields, bounty⟩, hread, rfl, hlarge⟩ :=
    Sample.legacy_evaluates.2
  exact ⟨_, _, _, v, data, bounty, Genesis.initial Sample.genesis_consistent,
    (Trace.single Sample.legacy_step).snoc (Sample.legacy_replace haccepts), hv, hdata, hread, hlarge⟩

end DeadMansVault
