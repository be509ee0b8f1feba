-- SUMMARY: Which vaults a pass executes where nothing fails, told from the state that the pass finds.
import DeadMansVault.Automation.Passes
import DeadMansVault.Automation.Fulfilment

/-!
# Completeness

Where nothing fails and the beneficiaries can be served, a pass over a vault whose execution
has begun executes it, unless a selected mint cannot be opened, or something is owed to the
vault itself.
-/

namespace DeadMansVault.Crank

open Script World

variable {c : Cluster} {node : Node} {job : Job World} {o payer : Pubkey} {v : VaultConfig}
  {as : List AssetAssignment} {s : World}

/-- The mints of the plan are selected. -/
theorem Node.planned_selected (node : Node) (h : Pending c o v as s) {a : AssetAssignment}
    (ha : a ∈ as) (hm : a.mint ≠ .default) (hmint : (s.mints a.mint).isSome = true) :
    ∃ entry ∈ node.selected c o s, entry.1 = a.mint := by
  have hselected := node.selection_selected (c := c) s (.vault o)
    (s.assetPlans (.assetPlan (.vault o)))
  have hplanned : Planned (s.assetPlans (.assetPlan (.vault o))) a.mint := by
    refine ⟨hm, a, ?_, rfl⟩
    have hassign := h.assignments
    simp only [Estate.assignments, World.estate] at hassign
    rw [hassign]
    exact ha
  have howner : (node.ownerOf c s a.mint).isSome = true := by
    obtain ⟨m, hm'⟩ := Option.isSome_iff_exists.mp hmint
    unfold Node.ownerOf
    rw [hm']
    rfl
  exact List.mem_map.mp ((hselected.bequeathed a.mint hplanned).mpr (.inr howner))

/-- They are selected with their programs. -/
theorem Node.selected_programmed (node : Node) (hgenuine : Genuine c s) (h : Pending c o v as s)
    (hmint : ∀ a ∈ as, a.mint ≠ .default → (s.mints a.mint).isSome = true) :
    Programmed c as (node.selected c o s) := by
  intro a ha hm
  obtain ⟨found, hfound, hkey⟩ := node.planned_selected h ha hm (hmint a ha hm)
  cases hfind : (node.selected c o s).find? fun m => m.1 = a.mint with
  | none => exact absurd (decide_eq_true hkey) (List.find?_eq_none.mp hfind found hfound)
  | some entry =>
      have heq : entry.1 = a.mint := by simpa using List.find?_some hfind
      have hprogram := node.selection_program hgenuine (List.mem_of_find?_eq_some hfind)
        (heq.symm ▸ hmint a ha hm)
      rw [Option.map_some, Option.getD_some, hprogram, heq]

/-- From a clear state with nothing in the way of the openings, the masks become full. -/
theorem Job.OnNode.distribute_full (hjob : job.OnNode c node) (hvault : job.vault = .vault o)
    (hsign : job.payer.canSign = true) {expire : Routine World PUnit}
    (hexpire : ∀ r, expire r = .ok ⟨⟩ r) {r₀ : Run World} (hgenuine : Genuine c r₀.net)
    (h : Clear c node o v as r₀.net) (hstart : r₀.stuckMints = [])
    (hbegin : job.beginExecution v.hasAssetPlan ⟨s, []⟩ = .ok ⟨⟩ r₀)
    (hfree : Unhindered c node job.payer o r₀.net) :
    Meets (fun r => r = ⟨s, []⟩) (job.distribute expire v) (fun _ r => MasksFull o v r.net)
      (fun _ r => MasksFull o v r.net) := by
  obtain ⟨r, hpending, hplans, hstuck, hloop, hopened, hrun⟩ :=
    hjob.run_openings hvault hsign hexpire h.pending hstart hbegin
  have hnone := hstuck.mpr hfree
  have hclear : Clear c node o v as r.net := by
    have hkept : Meets (fun r : Run World => Clear c node o v as r.net)
        ((node.selected c o r₀.net).forM (job.beginTokenDist v.hasAssetPlan))
        (fun _ r => Clear c node o v as r.net) (fun _ r => Clear c node o v as r.net) :=
      Meets.forM fun entry _ => hjob.beginTokenDist_serves hvault v.hasAssetPlan entry
    exact hkept.ok h hloop
  have hprogram := Node.selected_programmed node hgenuine h.pending h.serves.mint
  have hpayable : Payable c node o v as r.net := by
    refine ⟨hclear, fun a ha hm => ?_⟩
    obtain ⟨entry, hentry, heq⟩ := node.planned_selected h.pending ha hm (h.serves.mint a ha hm)
    exact heq ▸ hopened hnone entry hentry
  rintro _ rfl
  rw [hrun]
  exact hjob.settle_executes hvault hsign hprogram hpayable (congrFun hplans _) hnone r rfl

/-- The begin of the execution is no matter of the token accounts. -/
theorem Serves.sameButLog {w w' : World} (h : Serves c node o v as w) (hsame : SameButLog w w') :
    Serves c node o v as w' := by
  refine ⟨hsame.mints ▸ h.mint, hsame.mints ▸ h.apart, ?_, h.onCurve,
    hsame.tokenAccounts ▸ h.account⟩
  unfold DistOpen
  rw [hsame.tokenAccounts, hsame.tokenDists]
  exact h.vaultAta

theorem Genuine.sameButLog {w w' : World} (h : Genuine c w) (hsame : SameButLog w w') :
    Genuine c w' := by
  unfold Genuine
  rw [hsame.tokenAccounts]
  exact h

/-! ## What a pass leads to -/

/-- The world is reached in a run from `s`. -/
def Reaches (c : Cluster) (s : World) (r : Run World) : Prop :=
  Reachable c r.net ∧ ∃ es, Trace (Step c) s es r.net

theorem stable_reaches : Stable c (fun _ => True) (Reaches c s) where
  entry _ _ _ hr := hr
  lands r submission s' _ hlands hr := by
    obtain ⟨hreach, es, hes⟩ := hr
    refine ⟨Submission.lands_reachable hreach hlands, ?_⟩
    rcases Submission.lands_cases hlands with ⟨i, -, hexec⟩ | ⟨account, rfl⟩
    · exact ⟨_, (hes.snoc (.environment (harvest_environment hreach.sound.regular _))).snoc
        (.executed hexec)⟩
    · exact ⟨_, hes.snoc (.environment (createAta_environment hreach.sound.regular account))⟩

/-- **A pass is complete.** -/
theorem Job.OnNode.pass_completes_iff (hjob : job.OnNode c node) (hvault : job.vault = .vault o)
    (hsign : job.payer.canSign = true) {expire : Routine World PUnit}
    (hexpire : ∀ r, expire r = .ok ⟨⟩ r) (hs : Reachable c s)
    (hv : s.vaultConfigs (.vault o) = some v) (hopen : v.executed = false)
    (hgenuine : Genuine c s) (hserves : Serves c node o v (s.estate c o).assignments s)
    {α : Type} {rest : List (Pubkey × ProgramId) → Routine World α}
    (hrest : ∀ mints, Trails c o (rest mints)) {r : Run World}
    (hr : final ((job.distribute expire v >>= rest) ⟨s, []⟩) = r) :
    Executed o r.net ↔ Crankable c node job.payer o v s ∧
      ¬ ((afterBegin c job.payer o v s).estate c o).Obstructed c o := by
  have hiff := hjob.pass_executes_iff hvault hsign hexpire hs hv hopen hrest hr
  refine ⟨fun hexecuted => ⟨(hiff.mp hexecuted).1, fun hobstructed => ?_⟩, ?_⟩
  · rcases hjob.beginExecution (v := v) hvault s with ⟨hlog, r₀, hbegin, -, hnet⟩ | ⟨hlog, -⟩
    · have h := pending_afterBegin hs hv hopen hlog
      rw [← hnet] at h hobstructed
      have hsteps : Preserves (Stable c fun _ => True) (job.distribution expire v) :=
        hjob.closed.distribution (fun key => hjob.preserves_tokenDist key)
          (fun _ _ => trivial) ⟨fun P _ r' hr' => by rw [hexpire r']; exact hr'⟩
      have hreaches := (hsteps.meets _ (stable_reaches (s := r₀.net))).bind fun mints =>
        ((hrest mints).mono fun P (hP : Stable c (fun _ => True) P) =>
          hP.mono fun _ _ => trivial).meets _ stable_reaches
      have hrun : (job.distribute expire v >>= rest) ⟨s, []⟩ =
          (job.distribution expire v >>= rest) r₀ :=
        run_bind_congr (run_bind_ok hbegin) rest
      obtain ⟨-, es, hes⟩ : Reaches c r₀.net r :=
        hr ▸ hrun ▸ hreaches.at_end ⟨h.reachable, [], .nil _⟩
      obtain ⟨v', hv', hexecuted'⟩ := hexecuted
      obtain ⟨v₀, hv₀, hopen₀, -⟩ := h.config
      have hnever := obstructed_locked h.reachable hv₀ hopen₀ h.due hobstructed hes v' hv'
      exact Bool.false_ne_true (hnever.symm.trans hexecuted')
    · have hbegun := (hiff.mp hexecuted).1.begun
      rw [hlog] at hbegun
      cases hbegun
  · rintro ⟨hcrankable, hclear⟩
    rcases hjob.beginExecution (v := v) hvault s with ⟨hlog, r₀, hbegin, hstart, hnet⟩ | ⟨hlog, -⟩
    · have hsame := sameButLog_afterBegin c job.payer o v s
      have h : Clear c node o v (s.estate c o).assignments r₀.net := by
        rw [hnet]
        exact ⟨pending_afterBegin hs hv hopen hlog, hclear, hserves.sameButLog hsame⟩
      have hgenuine' : Genuine c r₀.net := by
        rw [hnet]
        exact hgenuine.sameButLog hsame
      have hfull := (hjob.distribute_full hvault hsign hexpire hgenuine' h hstart hbegin
        (hnet ▸ hcrankable.unhindered)).bind fun mints => (hrest mints).meets _ stable_masksFull
      exact hiff.mpr ⟨hcrankable, hr ▸ hfull.at_end rfl⟩
    · have hbegun := hcrankable.begun
      rw [hlog] at hbegun
      cases hbegun

/-! ## The two cranks -/

theorem crankVault_completes_iff (hs : Reachable c s) (hv : s.vaultConfigs (.vault o) = some v)
    (hopen : v.executed = false) (hsign : payer.canSign = true) (hgenuine : Genuine c s)
    (hserves : Serves c node o v (s.estate c o).assignments s) {r : Run World}
    (hr : final (crankVault (node.client c) payer (.vault o) v permitted ⟨s, []⟩) = r) :
    Executed o r.net ↔ Crankable c node payer o v s ∧
      ¬ ((afterBegin c payer o v s).estate c o).Obstructed c o := by
  have hjob := keeperJob_onNode c node payer (.vault o)
  rw [crankVault_run] at hr
  exact hjob.pass_completes_iff rfl hsign (fun _ => rfl) hs hv hopen hgenuine hserves
    (keeperRest_trails hjob v) hr

theorem runExecutorInner_completes_iff (hs : Reachable c s)
    (hv : s.vaultConfigs (.vault o) = some v) (hopen : v.executed = false)
    {hb : HeartbeatRecord} (hh : s.heartbeatRecords (.heartbeat (.vault o)) = some hb)
    (hsign : payer.canSign = true) (hgenuine : Genuine c s)
    (hserves : Serves c node o v (s.estate c o).assignments s) {r : Run World}
    (hr : final (runExecutorInner (node.client c) payer (.vault o) permitted ⟨s, []⟩) = r) :
    Executed o r.net ↔ Timely node v hb s ∧ Crankable c node payer o v s ∧
      ¬ ((afterBegin c payer o v s).estate c o).Obstructed c o := by
  have hjob := executorJob_onNode c node payer (.vault o)
  obtain ⟨hrun, hstay⟩ := runExecutorInner_run node payer hs hv hopen hh
  by_cases htimely : Timely node v hb s
  · rw [hrun htimely, executeDue_run] at hr
    rw [hjob.pass_completes_iff rfl hsign (fun _ => rfl) hs hv hopen hgenuine hserves
      (executorRest_trails hjob v) hr]
    exact (and_iff_right htimely).symm
  · rw [hstay htimely] at hr
    rw [← hr]
    exact iff_of_false (not_executed hv hopen) fun h => htimely h.1

end DeadMansVault.Crank
