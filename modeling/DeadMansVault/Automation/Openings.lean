-- SUMMARY: The opening of the distributions against a node: which mints a pass gives up on, and when it gives up on none.
import DeadMansVault.Automation.Beginning

/-!
# Openings

A pass tries to open a distribution for each mint that it has selected, and gives up on those
that the program does not accept. The program accepts a mint if the vault's associated account
holds some of it or if the plan names it, and if the payer has the rent.
-/

namespace DeadMansVault.Crank

open Script World

variable {c : Cluster} {node : Node} {o payer vault : Pubkey} {v : VaultConfig}
  {as : List AssetAssignment} {s s' : World} {entry : Pubkey × ProgramId}
  {entries : List (Pubkey × ProgramId)}

/-! ## What can be opened -/

/-- The mint loads under the program that it has been selected with, and there is something to
    distribute: in the associated account of the vault, or by the plan. -/
def Distributable (c : Cluster) (vault : Pubkey) (as : List AssetAssignment) (s : World)
    (entry : Pubkey × ProgramId) : Prop :=
  entry.2 = .token (c.tokenProgram entry.1) ∧ (s.mints entry.1).isSome = true ∧
    (0 < s.tokenAmounts (canonicalAta c vault entry.1) ∨ ∃ a ∈ as, a.mint = entry.1)

/-- The mints that have no distribution yet. -/
def unopened (vault : Pubkey) (s : World) (entries : List (Pubkey × ProgramId)) :
    List (Pubkey × ProgramId) :=
  entries.filter fun entry => (s.tokenDists (.tokenDist vault entry.1)).isNone

/-- The rent of their distributions. -/
def openingRent (c : Cluster) (vault : Pubkey) (s : World) (entries : List (Pubkey × ProgramId)) :
    Nat :=
  ((unopened vault s entries).map fun entry =>
    s.rentDue c (.tokenDist vault entry.1) TokenDist.space).sum

structure Openable (c : Cluster) (payer vault : Pubkey) (as : List AssetAssignment) (s : World)
    (entries : List (Pubkey × ProgramId)) : Prop where
  distributable : ∀ entry ∈ unopened vault s entries, Distributable c vault as s entry
  funds : openingRent c vault s entries ≤ s.lamports payer

/-- Of the first mint. -/
def Admits (c : Cluster) (payer vault : Pubkey) (as : List AssetAssignment) (s : World)
    (entry : Pubkey × ProgramId) : Prop :=
  Distributable c vault as s entry ∧
    s.rentDue c (.tokenDist vault entry.1) TokenDist.space ≤ s.lamports payer

theorem openable_nil : Openable c payer vault as s [] := ⟨nofun, Nat.zero_le _⟩

/-- A mint with a distribution is passed over. -/
theorem openable_cons_of_open (h : (s.tokenDists (.tokenDist vault entry.1)).isSome = true) :
    Openable c payer vault as s (entry :: entries) ↔ Openable c payer vault as s entries := by
  have hsame : unopened vault s (entry :: entries) = unopened vault s entries :=
    List.filter_cons_of_neg (by simp [Option.isSome_iff_ne_none.mp h])
  constructor
  · rintro ⟨hd, hf⟩
    exact ⟨hsame ▸ hd, by simpa only [openingRent, hsame] using hf⟩
  · rintro ⟨hd, hf⟩
    exact ⟨hsame.symm ▸ hd, by simpa only [openingRent, hsame] using hf⟩

/-- What the openings of these mints depend on is the same. -/
structure SameOpenings (vault : Pubkey) (entries : List (Pubkey × ProgramId)) (s s' : World) :
    Prop where
  mints : s'.mints = s.mints
  plans : s'.assetPlans = s.assetPlans
  tokenAmounts : s'.tokenAmounts = s.tokenAmounts
  dists : ∀ entry ∈ entries,
    s'.tokenDists (.tokenDist vault entry.1) = s.tokenDists (.tokenDist vault entry.1)
  lamports : ∀ entry ∈ entries,
    s'.lamports (.tokenDist vault entry.1) = s.lamports (.tokenDist vault entry.1)

namespace SameOpenings

variable (h : SameOpenings vault entries s s')
include h

theorem distributable : Distributable c vault as s' entry ↔ Distributable c vault as s entry := by
  unfold Distributable
  rw [h.mints, h.tokenAmounts]

theorem unopened_eq : unopened vault s' entries = unopened vault s entries :=
  List.filter_congr fun entry hentry => by rw [h.dists entry hentry]

theorem openingRent_eq : openingRent c vault s' entries = openingRent c vault s entries := by
  unfold openingRent
  rw [h.unopened_eq]
  congr 1
  refine List.map_congr_left fun entry hentry => ?_
  unfold World.rentDue
  rw [h.lamports entry (List.mem_of_mem_filter hentry)]

end SameOpenings

/-- The first mint is opened at its rent, and the others can be opened with what is left. -/
theorem openable_cons_of_admits (hnone : s.tokenDists (.tokenDist vault entry.1) = none)
    (hadmits : Admits c payer vault as s entry) (hsame : SameOpenings vault entries s s')
    (hpaid : s.lamports payer =
      s'.lamports payer + s.rentDue c (.tokenDist vault entry.1) TokenDist.space) :
    Openable c payer vault as s (entry :: entries) ↔ Openable c payer vault as s' entries := by
  have hcons : unopened vault s (entry :: entries) = entry :: unopened vault s entries :=
    List.filter_cons_of_pos (by simp [hnone])
  have hrent : openingRent c vault s (entry :: entries) =
      s.rentDue c (.tokenDist vault entry.1) TokenDist.space + openingRent c vault s entries := by
    unfold openingRent
    rw [hcons, List.map_cons, List.sum_cons]
  constructor
  · rintro ⟨hd, hf⟩
    refine ⟨fun e he => hsame.distributable.mpr (hd e ?_), ?_⟩
    · rw [hcons]
      rw [hsame.unopened_eq] at he
      exact List.mem_cons_of_mem _ he
    · rw [hsame.openingRent_eq]
      omega
  · rintro ⟨hd, hf⟩
    refine ⟨fun e he => ?_, ?_⟩
    · rw [hcons] at he
      rcases List.mem_cons.mp he with rfl | he
      · exact hadmits.1
      · exact hsame.distributable.mp (hd e (hsame.unopened_eq ▸ he))
    · rw [hsame.openingRent_eq] at hf
      omega

/-- Otherwise the first mint is already one too many. -/
theorem admits_of_openable (hnone : s.tokenDists (.tokenDist vault entry.1) = none)
    (h : Openable c payer vault as s (entry :: entries)) : Admits c payer vault as s entry := by
  have hcons : unopened vault s (entry :: entries) = entry :: unopened vault s entries :=
    List.filter_cons_of_pos (by simp [hnone])
  obtain ⟨hd, hf⟩ := h
  unfold openingRent at hf
  rw [hcons] at hd hf
  rw [List.map_cons, List.sum_cons] at hf
  exact ⟨hd entry List.mem_cons_self, (Nat.le_add_right _ _).trans hf⟩

/-! ## The opening of one distribution -/

/-- The call that a pass submits for a mint. -/
def Job.distCall (job : Job World) (hasPlan : Bool) (entry : Pubkey × ProgramId) :
    BeginTokenDist where
  payer := job.payer
  vaultConfig := job.vault
  executionLog := .execution job.vault
  mint := entry.1
  vaultAta := job.client.ata entry.1 job.vault entry.2
  assetPlan := job.optionalPlan hasPlan
  tokenDist := .tokenDist job.vault entry.1

variable {job : Job World}

/-- With the canonical account the program accepts it, if it admits the mint. -/
theorem Pending.beginTokenDist (h : Pending c o v as s) (hvault : job.vault = .vault o)
    (hsign : job.payer.canSign = true)
    (hata : job.client.ata entry.1 job.vault entry.2 = canonicalAta c job.vault entry.1)
    (hnone : s.tokenDists (.tokenDist (.vault o) entry.1) = none)
    (hadmits : Admits c job.payer (.vault o) as s entry) :
    ∃ s', exec c (.beginTokenDist (job.distCall v.hasAssetPlan entry)) s = .ok s' ∧
      s.lamports job.payer = s'.lamports job.payer +
        s.rentDue c (.tokenDist (.vault o) entry.1) TokenDist.space := by
  obtain ⟨v', l, hgate, hpin, hhas, hload, hreg⟩ := h.executing
  obtain ⟨⟨-, hmint, hwhy⟩, hfunds⟩ := hadmits
  have hcall : job.distCall v.hasAssetPlan entry =
      DeadMansVault.distCall c job.payer (.vault o) entry.1 v' := by
    rw [Job.distCall, DeadMansVault.distCall, hata, Job.optionalPlan, VaultConfig.planKey, hhas,
      hvault]
  rw [hcall]
  refine beginTokenDist_exact h.reachable.sound.regular.fresh hsign
    ⟨hgate.config, hgate.log, hgate.seeds⟩ hpin hload hmint hnone (hwhy.imp_right ?_) hfunds
  intro hplanned
  have hany := (h.planned_iff entry.1).mpr hplanned
  cases hp : s.assetPlans (.assetPlan (.vault o)) with
  | none =>
      rw [hp] at hany
      cases hany
  | some p =>
      rw [hp] at hany
      obtain ⟨a, ha, hm⟩ := List.any_eq_true.mp hany
      exact ⟨p, hreg.trans hp, a, ha, of_decide_eq_true hm⟩

/-- What it accepts it has admitted, with the canonical account. -/
theorem Pending.admits_of_exec (h : Pending c o v as s) (hvault : job.vault = .vault o)
    (hexec : exec c (.beginTokenDist (job.distCall v.hasAssetPlan entry)) s = .ok s') :
    job.client.ata entry.1 job.vault entry.2 = canonicalAta c job.vault entry.1 ∧
      (s.mints entry.1).isSome = true ∧
      (0 < s.tokenAmounts (canonicalAta c (.vault o) entry.1) ∨ ∃ a ∈ as, a.mint = entry.1) ∧
      s.rentDue c (.tokenDist (.vault o) entry.1) TokenDist.space ≤ s.lamports job.payer := by
  obtain ⟨hata, hfunds⟩ := beginTokenDist_needs hexec
  obtain ⟨v', l, hgate, -, -, -, hreg⟩ := h.executing
  obtain ⟨v'', _, _, -, hgate', hmint, -, -, hwhy, -⟩ :=
    beginTokenDist_ok h.reachable.sound.regular.fresh.vacant hexec
  simp only [Job.distCall, hvault] at hgate' hmint hwhy hfunds
  obtain rfl := Option.some.inj (hgate.config.symm.trans hgate'.config)
  refine ⟨hata, hmint, hwhy.imp_right fun hany => ?_, hfunds⟩
  rw [← h.planned_iff entry.1, ← hreg]
  exact hany

/-- It changes nothing that the openings of other mints depend on. -/
theorem sameOpenings_of_exec (hs : s.Regular c) {ctx : BeginTokenDist}
    (hother : ctx.mint ∉ entries.map (·.1))
    (hexec : exec c (.beginTokenDist ctx) s = .ok s') : SameOpenings vault entries s s' := by
  obtain ⟨_, _, n, hsign, -, -, -, -, -, rfl⟩ := beginTokenDist_ok hs.fresh.vacant hexec
  have hne : ∀ entry ∈ entries,
      Pubkey.tokenDist vault entry.1 ≠ .tokenDist ctx.vaultConfig ctx.mint := by
    rintro entry hentry heq
    obtain ⟨-, hm⟩ := Pubkey.tokenDist.inj heq
    exact hother (hm ▸ List.mem_map_of_mem hentry)
  refine ⟨rfl, rfl, rfl, fun entry hentry => ?_, fun entry hentry => ?_⟩
  · rw [putVaultConfig_tokenDists, putTokenDist_tokenDists, Function.update_of_ne (hne entry hentry)]
    rfl
  · have hpayer : Pubkey.tokenDist vault entry.1 ≠ ctx.payer := by
      intro heq
      rw [← heq] at hsign
      cases hsign
    exact Ledger.move_of_ne hpayer (hne entry hentry)

/-- What the openings depend on is no matter of the token accounts. -/
theorem sameOpenings_createAtas (accounts : List (Pubkey × Pubkey)) :
    SameOpenings vault entries s (s.createAtas c accounts) := by
  obtain ⟨t, ht⟩ := createAtas_eq (c := c) s accounts
  rw [ht]
  exact ⟨rfl, rfl, rfl, fun _ _ => rfl, fun _ _ => rfl⟩

theorem SameOpenings.trans {s'' : World} (h : SameOpenings vault entries s s')
    (h' : SameOpenings vault entries s' s'') : SameOpenings vault entries s s'' where
  mints := h'.mints.trans h.mints
  plans := h'.plans.trans h.plans
  tokenAmounts := h'.tokenAmounts.trans h.tokenAmounts
  dists entry hentry := (h'.dists entry hentry).trans (h.dists entry hentry)
  lamports entry hentry := (h'.lamports entry hentry).trans (h.lamports entry hentry)

theorem admits_createAtas (accounts : List (Pubkey × Pubkey)) :
    Admits c payer vault as (s.createAtas c accounts) entry ↔ Admits c payer vault as s entry := by
  obtain ⟨t, ht⟩ := createAtas_eq (c := c) s accounts
  rw [ht]
  rfl

/-- The accounts of a node under the program of a mint are the canonical ones, and no others. -/
theorem Node.ata_eq_canonical (node : Node) {vault : Pubkey} :
    (node.client c).ata entry.1 vault entry.2 = canonicalAta c vault entry.1 ↔
      entry.2 = .token (c.tokenProgram entry.1) := by
  obtain ⟨mint, program | n⟩ := entry
  · simp [Client.ata, canonicalAta]
  · refine iff_of_false (node.foreign vault mint n (c.tokenProgram mint)) fun h => ?_
    cases h

/-- The account of an admitted mint can be created, if it is missing. -/
theorem createAta_lands (hs : s.Regular c) {m : Pubkey} (hmint : (s.mints m).isSome = true) :
    (Submission.createAta (canonicalAta c (.vault o) m) (.vault o) m
      (.token (c.tokenProgram m))).lands c s ≠ none := by
  have hfree : ∀ a ∈ s.tokenAccounts (canonicalAta c (.vault o) m),
      a = ⟨some (c.tokenProgram m), m, .vault o⟩ :=
    fun a ha => hs.vaultAtas o m _ a ha
  rw [Submission.lands, if_pos ⟨rfl, rfl, hmint, hfree⟩]
  exact Option.some_ne_none _

/-- The distribution is open afterwards. -/
theorem beginTokenDist_opens (hs : s.Regular c) {ctx : BeginTokenDist}
    (hexec : exec c (.beginTokenDist ctx) s = .ok s') :
    (s'.tokenDists (.tokenDist ctx.vaultConfig ctx.mint)).isSome = true := by
  obtain ⟨_, _, _, -, -, -, -, -, -, rfl⟩ := beginTokenDist_ok hs.fresh.vacant hexec
  simp

/-- The mint has a distribution. -/
abbrev DistOpen (o : Pubkey) (s : World) (m : Pubkey) : Prop :=
  (s.tokenDists (.tokenDist (.vault o) m)).isSome = true

theorem opened_createAtas (accounts : List (Pubkey × Pubkey)) {m : Pubkey} :
    DistOpen o (s.createAtas c accounts) m ↔ DistOpen o s m := by
  obtain ⟨t, ht⟩ := createAtas_eq (c := c) s accounts
  rw [ht]
  rfl

/-- The pass opens the distribution of a mint that is admitted, and gives up on another. -/
theorem Job.OnNode.beginTokenDist (hjob : job.OnNode c node) (hvault : job.vault = .vault o)
    (hsign : job.payer.canSign = true) {r : Run World} (h : Pending c o v as r.net)
    (hnone : r.net.tokenDists (.tokenDist (.vault o) entry.1) = none)
    (hother : entry.1 ∉ entries.map (·.1)) :
    ∃ r', job.beginTokenDist v.hasAssetPlan entry r = .ok ⟨⟩ r' ∧ Pending c o v as r'.net ∧
      SameOpenings (.vault o) entries r.net r'.net ∧
      (∀ m, DistOpen o r.net m → DistOpen o r'.net m) ∧
      (Admits c job.payer (.vault o) as r.net entry ∧ r'.stuckMints = r.stuckMints ∧
          DistOpen o r'.net entry.1 ∧ r.net.lamports job.payer = r'.net.lamports job.payer +
            r.net.rentDue c (.tokenDist (.vault o) entry.1) TokenDist.space ∨
        ¬ Admits c job.payer (.vault o) as r.net entry ∧
          r'.stuckMints = r.stuckMints ++ [entry.1]) := by
  have hread : call (job.client.tokenDist (.tokenDist job.vault entry.1)) r = .ok none r := by
    rw [hjob.client, hvault, ← hnone]
    exact call_read rfl
  have hata : job.client.ata entry.1 job.vault entry.2 = canonicalAta c job.vault entry.1 ↔
      entry.2 = .token (c.tokenProgram entry.1) := by
    rw [hjob.client]
    exact node.ata_eq_canonical
  obtain ⟨r₁, accounts, hstuck₁, hnet₁, hensure⟩ :=
    hjob.ensureAta (job.client.ata entry.1 job.vault entry.2) entry.1 job.vault entry.2 r
  obtain ⟨r₂, -, hstuck₂, hsend⟩ :=
    hjob.send (.invoke (.beginTokenDist (job.distCall v.hasAssetPlan entry))) r₁
  have h₁ : Pending c o v as r₁.net := hnet₁ ▸ h.createAtas accounts
  have hopen₁ : ∀ m, DistOpen o r.net m → DistOpen o r₁.net m := fun m hm => by
    rw [hnet₁]
    exact (opened_createAtas accounts).mpr hm
  have hsame₁ : SameOpenings (.vault o) entries r.net r₁.net := by
    rw [hnet₁]
    exact sameOpenings_createAtas accounts
  have hadmits₁ : Admits c job.payer (.vault o) as r₁.net entry ↔
      Admits c job.payer (.vault o) as r.net entry := by
    rw [hnet₁]
    exact admits_createAtas accounts
  unfold Job.beginTokenDist
  dsimp only
  rw [run_bind_ok hread]
  by_cases hadmits : Admits c job.payer (.vault o) as r.net entry
  · have hcanon := hata.mpr hadmits.1.1
    have hok : job.ensureAta (job.client.ata entry.1 job.vault entry.2) entry.1 job.vault entry.2 r =
        .ok ⟨⟩ r₁ := by
      rcases hensure with hok | ⟨hlands, howner, -⟩
      · exact hok
      · rw [hcanon, hvault, hadmits.1.1] at hlands
        exact absurd hlands (createAta_lands h.reachable.sound.regular hadmits.1.2.1)
    have hnone₁ : r₁.net.tokenDists (.tokenDist (.vault o) entry.1) = none := by
      obtain ⟨t, ht⟩ := createAtas_eq (c := c) r.net accounts
      rw [hnet₁, ht]
      exact hnone
    obtain ⟨s', hexec, hpaid⟩ := h₁.beginTokenDist hvault hsign hcanon hnone₁ (hadmits₁.mpr hadmits)
    have hreg₁ := h₁.reachable.sound.regular
    obtain ⟨hlands, hrun⟩ | ⟨hlands, -⟩ := hsend
    · obtain rfl : s' = r₂.net := by
        rw [Submission.lands, hexec] at hlands
        exact Option.some.inj hlands
      have hopened := beginTokenDist_opens hreg₁ hexec
      refine ⟨r₂, Job.attempt_ok ((run_bind_ok hok).trans hrun),
        (h₁.executed hexec rfl hvault).1,
        hsame₁.trans (sameOpenings_of_exec hreg₁ hother hexec),
        fun m hm => h₁.keeps_open hexec rfl hvault (hopen₁ m hm),
        .inl ⟨hadmits, hstuck₂.trans hstuck₁, ?_, ?_⟩⟩
      · simp only [Job.distCall, hvault] at hopened
        exact hopened
      · obtain ⟨t, ht⟩ := createAtas_eq (c := c) r.net accounts
        rw [hnet₁, ht] at hpaid
        exact hpaid
    · rw [Submission.lands, hexec] at hlands
      cases hlands
  · -- Either the account is refused or the begin.
    have hrefused : ∃ r₃ submission, r₃.stuckMints = r.stuckMints ∧ r₃.net = r₁.net ∧
        (job.ensureAta (job.client.ata entry.1 job.vault entry.2) entry.1 job.vault entry.2 >>=
          fun _ => job.guard >>= fun _ => submit job.client
            (.invoke (.beginTokenDist (job.distCall v.hasAssetPlan entry)))) r =
          .error (node.refusal submission) r₃ := by
      rcases hensure with hok | ⟨-, -, submission, herror⟩
      · obtain ⟨hlands, -⟩ | ⟨-, hnet₂, hrun⟩ := hsend
        · rw [Submission.lands] at hlands
          cases hexec : exec c (.beginTokenDist (job.distCall v.hasAssetPlan entry)) r₁.net with
          | error e =>
              rw [hexec] at hlands
              cases hlands
          | ok s' =>
              obtain ⟨hcanon, hmint, hwhy, hfunds⟩ := h₁.admits_of_exec hvault hexec
              exact absurd (hadmits₁.mp ⟨⟨hata.mp hcanon, hmint, hwhy⟩, hfunds⟩) hadmits
        · exact ⟨r₂, _, hstuck₂.trans hstuck₁, hnet₂, (run_bind_ok hok).trans hrun⟩
      · exact ⟨r₁, submission, hstuck₁, rfl, run_bind_error herror⟩
    obtain ⟨r₃, submission, hstuck₃, hnet₃, herror⟩ := hrefused
    rw [← hnet₃] at h₁ hsame₁ hopen₁
    refine ⟨⟨r₃.net, r₃.log ++ [.stuck entry.1 .beginTokenDist]⟩, ?_, h₁, hsame₁, hopen₁,
      .inr ⟨hadmits, ?_⟩⟩
    · exact (hjob.attempt_refused herror).trans rfl
    · rw [stuckMints_markStuck, hstuck₃]

/-! ## The loop -/

/-- A pass gives up on no mint exactly when all of them can be opened, and they are open then. -/
theorem Job.OnNode.beginTokenDists (hjob : job.OnNode c node)
    (entries : List (Pubkey × ProgramId)) (hvault : job.vault = .vault o)
    (hsign : job.payer.canSign = true) (hnodup : (entries.map (·.1)).Nodup) {r : Run World}
    (h : Pending c o v as r.net) :
    ∃ r', entries.forM (job.beginTokenDist v.hasAssetPlan) r = .ok ⟨⟩ r' ∧
      Pending c o v as r'.net ∧ r'.net.assetPlans = r.net.assetPlans ∧
      (∀ m, DistOpen o r.net m → DistOpen o r'.net m) ∧
      (r'.stuckMints = [] ↔
        r.stuckMints = [] ∧ Openable c job.payer (.vault o) as r.net entries) ∧
      (r'.stuckMints = [] → ∀ entry ∈ entries, DistOpen o r'.net entry.1) := by
  induction entries generalizing r with
  | nil => exact ⟨r, rfl, h, rfl, fun _ h => h, by simp [openable_nil], fun _ => nofun⟩
  | cons entry rest ih =>
      obtain ⟨hother, hrest⟩ := List.nodup_cons.mp hnodup
      cases hdist : r.net.tokenDists (.tokenDist (.vault o) entry.1) with
      | some d =>
          have hfound : job.beginTokenDist v.hasAssetPlan entry r = .ok ⟨⟩ r := by
            have hread : call (job.client.tokenDist (.tokenDist job.vault entry.1)) r =
                .ok (some d) r := by
              rw [hjob.client, hvault, ← hdist]
              exact call_read rfl
            exact run_bind_ok hread
          obtain ⟨r', hrun, h', hplans, hkept, hstuck, hopen⟩ := ih hrest h
          refine ⟨r', (run_bind_ok hfound).trans hrun, h', hplans, hkept, hstuck.trans ?_,
            fun hnone e he => ?_⟩
          · rw [openable_cons_of_open (by rw [hdist]; rfl)]
          · rcases List.mem_cons.mp he with rfl | he
            · exact hkept _ (Option.isSome_iff_exists.mpr ⟨d, hdist⟩)
            · exact hopen hnone e he
      | none =>
          obtain ⟨r₁, hone, h₁, hsame, hkept₁, houtcome⟩ :=
            hjob.beginTokenDist hvault hsign h hdist hother
          obtain ⟨r', hrun, h', hplans, hkept, hstuck, hopen⟩ := ih hrest h₁
          refine ⟨r', (run_bind_ok hone).trans hrun, h', hplans.trans hsame.plans,
            fun m hm => hkept m (hkept₁ m hm), ?_, fun hnone e he => ?_⟩
          · refine hstuck.trans ?_
            rcases houtcome with ⟨hadmits, hsameStuck, -, hpaid⟩ | ⟨hadmits, hmore⟩
            · rw [hsameStuck, openable_cons_of_admits hdist hadmits hsame hpaid]
            · refine iff_of_false ?_ fun hopen => hadmits (admits_of_openable hdist hopen.2)
              simp [hmore]
          · rcases List.mem_cons.mp he with rfl | he
            · rcases houtcome with ⟨-, -, hopened, -⟩ | ⟨-, hmore⟩
              · exact hkept _ hopened
              · obtain ⟨hstuck₁, -⟩ := hstuck.mp hnone
                simp [hmore] at hstuck₁
            · exact hopen hnone e he

end DeadMansVault.Crank
