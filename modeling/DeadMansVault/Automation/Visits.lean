-- SUMMARY: The keeper's ticks on a node, what they leave alone, and how they end at a poisoned vault.
import DeadMansVault.Automation.Poison
import DeadMansVault.Guarantees.Freeze

/-!
# Ticks on a node

A tick visits the vaults in the order in which the node lists them. At a poisoned vault it throws,
so that it never gets to the vaults behind.
-/

namespace DeadMansVault

open World

/-! ## Accounts that are left alone -/

namespace Untouched

variable {c : Cluster} {o : Pubkey} {s s' s'' : World}

theorem refl (o : Pubkey) (s : World) : Untouched o s s := ⟨rfl, rfl, rfl, rfl, fun _ => rfl⟩

theorem trans (h : Untouched o s s') (h' : Untouched o s' s'') : Untouched o s s'' where
  config := h'.config.trans h.config
  heartbeat := h'.heartbeat.trans h.heartbeat
  plan := h'.plan.trans h.plan
  log := h'.log.trans h.log
  dists m := (h'.dists m).trans (h.dists m)

theorem of_environment (h : Environment c s s') : Untouched o s s' :=
  ⟨congrFun h.vaultConfigs _, congrFun h.heartbeatRecords _, congrFun h.assetPlans _,
    congrFun h.executionLogs _, fun _ => congrFun h.tokenDists _⟩

end Untouched

end DeadMansVault

namespace DeadMansVault.Crank

open Script World

variable {c : Cluster} {node : Node} {o o' : Pubkey} {v : VaultConfig} {as : List AssetAssignment}
  {j : Nat} {a : AssetAssignment} {s s' s'' w w' : World} {vault : Pubkey}

/-- A crank of one vault, or its cleanup, leaves the others alone. -/
theorem untouched_lands (hs : Reachable c s) {submission : Submission}
    {beneficiaries : List Beneficiary} (hS : submission.CleansUp vault beneficiaries)
    (hother : vault ≠ .vault o)
    (hlands : submission.lands c s = some s') : Untouched o s s' := by
  rcases Submission.lands_cases hlands with ⟨i, hi, hexec⟩ | ⟨account, rfl⟩
  · have hkey : i.vaultKey = vault := by
      rcases hS with hS | ⟨ctx, rfl, hctx⟩
      · cases submission with
        | createAta => cases hi
        | invoke i' =>
            obtain rfl := Option.some.inj hi
            exact hS.1
        | invokeWith programId harvest instruction =>
            cases programId with
            | token program =>
                obtain rfl := Option.some.inj hi
                exact (hS program).1
            | other => cases hi
      · obtain rfl := Option.some.inj hi
        exact hctx
    have hharvest := harvest_environment hs.sound.regular submission.harvest
    exact (Untouched.of_environment hharvest).trans
      (untouched_bystander (hs.step (.environment hharvest)).sound (hkey.symm ▸ hother) hexec)
  · exact .of_environment (createAta_environment hs.sound.regular account)

/-- So it stays poisoned. -/
theorem Poisoned.of_untouched (h : Poisoned c node o v as j a w) (hw' : Reachable c w')
    (hsame : Untouched o w w') : Poisoned c node o v as j a w' := by
  obtain ⟨u, hu, hrest⟩ := h.pending.config
  have hbits : (w'.estate c o).planBits = (w.estate c o).planBits := by
    simp only [Estate.planBits, World.estate, hsame.plan]
  refine ⟨⟨hw', ⟨u, hsame.config.trans hu, hrest⟩, hsame.log ▸ h.pending.log, ?_⟩, h.offCurve,
    ?_, hbits ▸ h.clear, hbits ▸ h.paid⟩
  · rw [← h.pending.assignments]
    simp only [Estate.assignments, World.estate, hsame.plan]
  · rw [DistOpen, hsame.dists]
    exact h.opened

/-- What the config says beside the beneficiaries and the flag of the plan is no matter. -/
theorem Poisoned.of_config (h : Poisoned c node o v as j a w) {u : VaultConfig}
    (hbenefs : u.beneficiaries = v.beneficiaries) (hhas : u.hasAssetPlan = v.hasAssetPlan) :
    Poisoned c node o u as j a w := by
  obtain ⟨v', hv', hopen, hbenefs', hhas'⟩ := h.pending.config
  exact ⟨⟨h.pending.reachable, ⟨v', hv', hopen, hbenefs'.trans hbenefs.symm, hhas'.trans hhas.symm⟩,
    h.pending.log, h.pending.assignments⟩,
    ⟨h.offCurve.listed, h.offCurve.token, hbenefs ▸ h.offCurve.offCurve⟩, h.opened, h.clear, h.paid⟩

/-! ## The surroundings of a tick -/

/-- The node lists the accounts of the program, and the readiness check always permits. -/
def Node.surroundings (c : Cluster) (node : Node) (listing : World → List Pubkey)
    (keeper : Pubkey) : Surroundings World where
  client := node.client c
  getProgramAccounts s := (.ok ((listing s).map fun key => (key, s.vaultConfigs key)), s)
  getBalance s := (.ok (some (s.lamports keeper)), s)
  revalidate s := (true, s)

variable {listing : World → List Pubkey} {keeper : Pubkey} {closeExecuted : Bool}

theorem surroundings_onNode (c : Cluster) (node : Node) (listing : World → List Pubkey)
    (keeper vault : Pubkey) :
    (keeperJob (node.client c) keeper vault (node.surroundings c listing keeper).canSubmit).OnNode
      c node := by
  refine ⟨rfl, ⟨some (.promise (some true)), fun r => ?_⟩,
    fun submission => (node.unrevoked submission).2⟩
  have hpermit : (node.surroundings c listing keeper).revalidate r.net = (true, r.net) := rfl
  exact makeKeeperGuard_run hpermit

/-- What every transaction of `S` keeps is kept. -/
theorem Job.OnNode.maintains {job : Job World} (hjob : job.OnNode c node) {S : Submission → Prop}
    {I : World → Prop} (hlands : ∀ submission s s', S submission → I s →
      submission.lands c s = some s' → I s') : job.Maintains S I I where
  priorityFee _ hs := by rw [hjob.client]; exact hs
  deadline _ hs := by rw [hjob.client]; exact hs
  vaultConfig _ _ hs := by rw [hjob.client]; exact hs
  executionLog _ _ hs := by rw [hjob.client]; exact hs
  assetPlan _ _ hs := by rw [hjob.client]; exact hs
  tokenDist _ _ hs := by rw [hjob.client]; exact hs
  tokenAccountsByOwner _ _ _ hs := by rw [hjob.client]; exact hs
  accountInfo _ _ hs := by rw [hjob.client]; exact hs
  tokenAccount _ _ _ hs := by rw [hjob.client]; exact hs
  guard := hjob.guard_meets (P := fun s _ => I s)
  armed _ hs := hs
  sendAndConfirm submission s hS hs := by
    rw [hjob.client]
    unfold Node.client
    dsimp only
    cases hland : submission.lands c s with
    | none => exact hs
    | some s' => exact hlands submission s s' hS hs hland

/-! ## Visits -/

/-- A visit of one vault keeps what the transactions on it keep. -/
theorem visit_upholds {I : World → Prop} {cfg : VaultConfig}
    (hlands : ∀ (submission : Submission) s s', submission.CleansUp vault cfg.beneficiaries →
      I s → submission.lands c s = some s' → I s') :
    Upholds I (visit (node.surroundings c listing keeper) keeper closeExecuted vault cfg) := by
  have hkeeps : (keeperJob (node.client c) keeper vault
      (node.surroundings c listing keeper).canSubmit).Maintains
        (Submission.CleansUp vault cfg.beneficiaries) I I :=
    (surroundings_onNode c node listing keeper vault).maintains hlands
  have hnumber : ∀ n, Upholds I (toNumber n) := fun n => (Silent.toNumber n).meets _ trivial
  refine Meets.tryCatch (E := fun _ r => I r.net) ?_ fun e => ?_
  · unfold attend
    split
    · split
      · exact fun _ hr => hr
      · refine Meets.bind (Q := fun _ (r : Run World) => I r.net) (fun _ hr => hr) fun ok => ?_
        split
        · exact fun _ hr => hr
        · refine Meets.bind (apart_kept (hkeeps.cleanupExecutedVault fun _ hS => hS)) fun _ => ?_
          exact fun _ hr => hr
    · split
      · exact fun _ hr => hr
      · refine Meets.bind (fetch_kept fun _ hs => hs) fun hb => ?_
        refine Meets.bind (hnumber _) fun _ => Meets.bind (hnumber _) fun _ =>
          Meets.bind (hnumber _) fun _ => ?_
        refine Meets.bind (Q := fun _ (r : Run World) => I r.net) (fun _ hr => hr) fun now => ?_
        split
        · exact fun _ hr => hr
        · refine Meets.bind (Q := fun _ (r : Run World) => I r.net) (fun _ hr => hr) fun ok => ?_
          split
          · exact fun _ hr => hr
          · refine Meets.bind (apart_kept (hkeeps.crankVault fun _ hS => .inl hS)) fun _ => ?_
            exact fun _ hr => hr
  · split
    · exact fun _ hr => hr
    · split <;> exact fun _ hr => hr

/-- Each vault of the list is visited, unless one ends the tick. -/
theorem visits_upholds {I : World → Prop} {env : Surroundings World}
    {vaults behind : List (Pubkey × VaultConfig)} {J : World → Prop}
    (hJ : ∀ w, I w → J w)
    (hvisit : ∀ entry ∈ vaults, Upholds I (visit env keeper closeExecuted entry.1 entry.2))
    (hbehind : Meets (fun r => I r.net) (visits env keeper closeExecuted behind)
      (fun ending r => ending ≠ .next ∧ J r.net) (fun _ r => J r.net)) :
    Meets (fun r => I r.net) (visits env keeper closeExecuted (vaults ++ behind))
      (fun ending r => ending ≠ .next ∧ J r.net) (fun _ r => J r.net) := by
  induction vaults with
  | nil => exact hbehind
  | cons entry vaults ih =>
      obtain ⟨vault, cfg⟩ := entry
      refine Meets.bind ((hvisit _ List.mem_cons_self).mono (fun _ h => h) (fun _ _ h => h)
        fun _ r h => hJ r.net h) fun ending => ?_
      cases ending with
      | next => exact ih fun entry hentry => hvisit entry (List.mem_cons_of_mem _ hentry)
      | halted => exact fun r hr => ⟨Visit.noConfusion, hJ r.net hr⟩
      | deadlineHit => exact fun r hr => ⟨Visit.noConfusion, hJ r.net hr⟩

/-! ## The poisoned vault -/

/-- The vault of `o` is poisoned, and that of `o'` is as it was. -/
structure Starving (c : Cluster) (node : Node) (o o' : Pubkey) (v : VaultConfig)
    (as : List AssetAssignment) (j : Nat) (a : AssetAssignment) (s w : World) : Prop where
  poisoned : Poisoned c node o v as j a w
  untouched : Untouched o' s w

/-- The other vault is not cranked with this one. -/
theorem untouched_crank (hs : Reachable c w) (hsame : Untouched o' s w) (hother : o ≠ o')
    {submission : Submission} {beneficiaries : List Beneficiary}
    (hS : submission.CleansUp (.vault o) beneficiaries)
    (hlands : submission.lands c w = some w') : Untouched o' s w' :=
  hsame.trans (untouched_lands hs hS (fun heq => hother (Pubkey.vault.inj heq)) hlands)

/-- A pass that throws, throws with a log of its own. -/
theorem apart_throws {P : Run World → Prop} {F : JsError → World → Prop} {α : Type}
    {x : Routine World α} (h : Meets P x (fun _ _ => False) fun e r => F e r.net) :
    Meets (fun r => P ⟨r.net, []⟩) (apart x) (fun _ _ => False) fun e r => F e r.net := by
  intro r hr
  have hend := h ⟨r.net, []⟩ hr
  unfold apart
  cases hrun : x ⟨r.net, []⟩ with
  | ok a r' =>
      rw [hrun] at hend
      exact hend
  | error e r' =>
      rw [hrun] at hend
      exact hend

theorem fatal_tooLarge : Fatal (error "Number can only safely store up to 53 bits") := by
  unfold Fatal
  decide +kernel

theorem toNumber_fatal (P : Run World → Prop) (n : Int) :
    Meets P (toNumber n) (fun m r => P r ∧ m = n) fun e r => Fatal e ∧ P r := by
  unfold toNumber
  split
  · exact fun _ hr => ⟨hr, rfl⟩
  · exact fun _ hr => ⟨fatal_tooLarge, hr⟩

/-- The vault is found due, and its pass leaves the tick. -/
theorem attend_poisoned (hclock : ∀ s, s.now ≤ node.now s) {u : VaultConfig}
    (hopen : u.executed = false) (hactive : u.active = true) :
    Meets (fun r => Poisoned c node o u as j a r.net ∧ r.net.vaultConfigs (.vault o) = some u)
      (attend (node.surroundings c listing keeper) keeper closeExecuted (.vault o) u)
      (fun _ _ => False) (fun e r => Fatal e ∧ Poisoned c node o u as j a r.net) := by
  let P : Run World → Prop := fun r =>
    Poisoned c node o u as j a r.net ∧ r.net.vaultConfigs (.vault o) = some u
  have hfault : ∀ (e : JsError) (r : Run World), Fatal e ∧ P r →
      Fatal e ∧ Poisoned c node o u as j a r.net := fun _ _ h => ⟨h.1, h.2.1⟩
  unfold attend
  rw [if_neg (by simp [hopen]), if_neg (by simp [hactive])]
  refine Meets.bind (Q := fun hb (r : Run World) => P r ∧
    r.net.heartbeatRecords (.heartbeat (.vault o)) = some hb) (fun r hr => ?_) fun hb => ?_
  · obtain ⟨u', h, hu', hh, -⟩ := hr.1.pending.due
    have hread : fetch ((node.surroundings c listing keeper).client.heartbeatRecord
        (.heartbeat (.vault o))) r = .ok h r := fetch_read (by rw [← hh]; rfl)
    rw [hread]
    exact ⟨hr, hh⟩
  let P' : Run World → Prop := fun r => P r ∧
    r.net.heartbeatRecords (.heartbeat (.vault o)) = some hb
  have hnumber : ∀ n, Meets P' (toNumber n) (fun m r => P' r ∧ m = n)
      fun e r => Fatal e ∧ Poisoned c node o u as j a r.net := fun n =>
    (toNumber_fatal P' n).mono (fun _ h => h) (fun _ _ h => h) fun e r h => hfault e r ⟨h.1, h.2.1⟩
  refine (hnumber _).bind fun last => Meets.of_fact fun hlast => ?_
  refine (hnumber _).bind fun interval => Meets.of_fact fun hinterval => ?_
  refine (hnumber _).bind fun grace => Meets.of_fact fun hgrace => ?_
  subst hlast hinterval hgrace
  refine Meets.bind (Q := fun now r => P' r ∧ now = node.now r.net) (fun r hr => ⟨hr, rfl⟩)
    fun now => ?_
  split
  next hearly =>
    -- The vault is due on the chain, whose clock is not ahead of the keeper's.
    rintro r ⟨⟨hr, hhb⟩, rfl⟩
    obtain ⟨u', h, hu', hh, hdue⟩ := hr.1.pending.due
    obtain rfl := Option.some.inj (hr.2.symm.trans hu')
    obtain rfl := Option.some.inj (hhb.symm.trans hh)
    exact absurd (hdue.trans (hclock r.net)) (not_le.mpr hearly)
  · refine Meets.bind (Q := fun ok (r : Run World) => P r ∧ ok = true) (fun r hr => ⟨hr.1.1, rfl⟩)
      fun ok => Meets.of_fact fun hok => ?_
    subst hok
    rw [if_neg (by decide)]
    refine Meets.bind (Q := fun _ _ => False) ?_ fun _ _ h => h.elim
    refine (apart_throws (F := fun e w => Fatal e ∧ Poisoned c node o u as j a w)
      (crankVault_poisoned (surroundings_onNode c node listing keeper (.vault o)))).mono
      (fun r hr => ⟨hr.1, rfl⟩) (fun _ _ h => h) fun _ _ h => h

/-- The visit throws, and both vaults are as the theorem says. -/
theorem visit_poisoned (hclock : ∀ s, s.now ≤ node.now s) (hother : o ≠ o') {u : VaultConfig}
    (hopen : u.executed = false) (hactive : u.active = true) :
    Meets (fun r => Starving c node o o' u as j a s r.net ∧
        r.net.vaultConfigs (.vault o) = some u)
      (visit (node.surroundings c listing keeper) keeper closeExecuted (.vault o) u)
      (fun _ _ => False) (fun _ r => Starving c node o o' u as j a s r.net) := by
  have hkept : Upholds (fun w => Reachable c w ∧ Untouched o' s w)
      (visit (node.surroundings c listing keeper) keeper closeExecuted (.vault o) u) :=
    visit_upholds fun submission w w' hS hw hlands =>
      ⟨Submission.lands_reachable hw.1 hlands, untouched_crank hw.1 hw.2 hother hS hlands⟩
  have hthrows : Meets (fun r => Poisoned c node o u as j a r.net ∧
        r.net.vaultConfigs (.vault o) = some u)
      (visit (node.surroundings c listing keeper) keeper closeExecuted (.vault o) u)
      (fun _ _ => False) (fun _ r => Poisoned c node o u as j a r.net) := by
    refine Meets.tryCatch (attend_poisoned hclock hopen hactive) fun e => ?_
    rintro r ⟨hfatal, hr⟩
    rw [if_neg hfatal.name_ne, hfatal]
    exact hr
  exact (hthrows.and hkept).mono (fun r hr => ⟨⟨hr.1.1, hr.2⟩, hr.1.1.pending.reachable, hr.1.2⟩)
    (fun _ _ h => h.1) fun _ _ h => ⟨h.1, h.2.2⟩

/-! ## The tick -/

/-- The first of the two keys is listed, and the second not before it. -/
def ListedBefore (k k' : Pubkey) (keys : List Pubkey) : Prop :=
  ∃ front behind, keys = front ++ k :: behind ∧ k ∉ front ∧ k' ∉ front

/-- The vaults that a scan finds. -/
def World.scanned (s : World) (keys : List Pubkey) : List (Pubkey × VaultConfig) :=
  keys.filterMap fun key => (s.vaultConfigs key).map fun cfg => (key, cfg)

theorem scan_onNode (r : Run World) :
    scan (node.surroundings c listing keeper) r =
      .ok (.ok (World.scanned r.net (listing r.net))) r := by
  have hvaults : (Except.ok <$> scanVaults (node.surroundings c listing keeper) :
      Routine World (Except String (List (Pubkey × VaultConfig)))) r =
      .ok (.ok (World.scanned r.net (listing r.net))) r := by
    have hraw : ((listing r.net).map fun key => (key, r.net.vaultConfigs key)).filterMap
        (fun account => account.2.map fun cfg => (account.1, cfg)) =
        World.scanned r.net (listing r.net) := by
      rw [List.filterMap_map]
      rfl
    rw [← hraw]
    rfl
  exact run_tryCatch_ok hvaults

/-- A tick never gets past the poisoned vault: it throws, or has ended before. -/
theorem tick_starves (hclock : ∀ s, s.now ≤ node.now s) (hother : o ≠ o')
    (hlisted : ∀ s, ListedBefore (.vault o) (.vault o') (listing s)) :
    Meets (fun r => Starving c node o o' v as j a s r.net)
      (tick (node.surroundings c listing keeper) keeper closeExecuted)
      (fun t r => t.ok = false ∧ Starving c node o o' v as j a s r.net)
      (fun _ r => Starving c node o o' v as j a s r.net) := by
  intro r hr
  obtain ⟨u, hu, hopen, hbenefs, hhas⟩ := hr.poisoned.pending.config
  have hactive : u.active = true := by
    rw [hr.poisoned.pending.lawful.status u hu, hopen]
    rfl
  obtain ⟨front, behind, hkeys, hfront, hfront'⟩ := hlisted r.net
  have hscanned : World.scanned r.net (listing r.net) =
      World.scanned r.net front ++ (.vault o, u) :: World.scanned r.net behind := by
    rw [hkeys, World.scanned, List.filterMap_append, List.filterMap_cons, hu]
    rfl
  -- What the visits before the poisoned vault leave alone.
  let I : World → Prop := fun w => Starving c node o o' u as j a s w ∧ Untouched o r.net w
  have hbefore : ∀ entry ∈ World.scanned r.net front, Upholds I
      (visit (node.surroundings c listing keeper) keeper closeExecuted entry.1 entry.2) := by
    intro entry hentry
    obtain ⟨key, hkey, hcfg⟩ := List.mem_filterMap.mp hentry
    obtain ⟨cfg, -, rfl⟩ := Option.map_eq_some_iff.mp hcfg
    have hne : key ≠ .vault o := fun heq => hfront (heq ▸ hkey)
    have hne' : key ≠ .vault o' := fun heq => hfront' (heq ▸ hkey)
    refine visit_upholds fun submission w w' hS hw hlands => ?_
    have hreach := hw.1.poisoned.pending.reachable
    have hsame : Untouched o w w' := untouched_lands hreach hS hne hlands
    refine ⟨⟨hw.1.poisoned.of_untouched (Submission.lands_reachable hreach hlands) hsame,
      hw.1.untouched.trans (untouched_lands hreach hS hne' hlands)⟩, hw.2.trans hsame⟩
  have hat : Meets (fun r => I r.net)
      (visits (node.surroundings c listing keeper) keeper closeExecuted
        ((.vault o, u) :: World.scanned r.net behind))
      (fun ending r => ending ≠ .next ∧ Starving c node o o' u as j a s r.net)
      (fun _ r => Starving c node o o' u as j a s r.net) := by
    refine Meets.bind (Q := fun _ _ => False) ?_ fun _ _ h => h.elim
    exact (visit_poisoned hclock hother hopen hactive).mono
      (fun r' hr' => ⟨hr'.1, hr'.2.config.trans hu⟩) (fun _ _ h => h) fun _ _ h => h
  have hback : ∀ w, Starving c node o o' u as j a s w → Starving c node o o' v as j a s w :=
    fun w hw => ⟨hw.poisoned.of_config hbenefs.symm hhas.symm, hw.untouched⟩
  have hstart : I r.net :=
    ⟨⟨hr.poisoned.of_config hbenefs hhas, hr.untouched⟩, .refl o r.net⟩
  have hvisits := visits_upholds (fun _ hw => hw.1) hbefore hat
  rw [← hscanned] at hvisits
  unfold tick
  rw [run_bind_ok (scan_onNode r)]
  have hticked : Meets (fun r => I r.net)
      (visits (node.surroundings c listing keeper) keeper closeExecuted
        (World.scanned r.net (listing r.net)) >>= ticked (node.surroundings c listing keeper))
      (fun t r => t.ok = false ∧ Starving c node o o' v as j a s r.net)
      (fun _ r => Starving c node o o' v as j a s r.net) := by
    refine (hvisits.mono (fun _ h => h) (fun _ _ h => h) fun _ r' h => hback _ h).bind
      fun ending => ?_
    rintro r' ⟨hending, hr'⟩
    cases ending with
    | next => exact absurd rfl hending
    | halted => exact ⟨rfl, hback _ hr'⟩
    | deadlineHit => exact ⟨rfl, hback _ hr'⟩
  exact hticked r hstart

end DeadMansVault.Crank
