-- SUMMARY: Which mints a pass takes and which of them it can open, told from the token accounts of the vault.
import DeadMansVault.Automation.Passes

/-!
# Deposits

Anyone may make token accounts over to a vault, any number of them for a mint. A pass goes by
what they hold altogether, and the program by what the vault's associated account holds.
-/

namespace DeadMansVault.Crank

open Script World

variable {c : Cluster} {node : Node} {o payer vault : Pubkey} {s : World} {plan : Option AssetPlan}

/-! ## The mints that a pass takes -/

/-- The mints of the accounts that hold something, as they are first listed. -/
def listedMints (accounts : List (Pubkey × Nat)) : List Pubkey :=
  ((accounts.filter fun account => account.2 ≠ 0).map (·.1)).eraseDups

/-- The mints of the plan that are held, or at least there. -/
def Node.bequeathed (c : Cluster) (node : Node) (s : World) (vault : Pubkey)
    (plan : Option AssetPlan) : List Pubkey :=
  ((plan.elim [] (·.assignments)).map (·.mint)).dedup.filter fun m =>
    m ≠ .default ∧ (0 < node.holding s vault m ∨ (node.ownerOf c s m).isSome = true)

/-- The mints outside the plan that are held. -/
def Node.unplanned (node : Node) (s : World) (vault : Pubkey) (plan : Option AssetPlan) :
    List Pubkey :=
  (listedMints (node.held s vault .token ++ node.held s vault .token2022)).filter fun m =>
    ¬ Planned plan m

/-- The mints of the plan, and beside them the largest of the others up to the cap. -/
def Node.taken (c : Cluster) (node : Node) (s : World) (vault : Pubkey)
    (plan : Option AssetPlan) : List Pubkey :=
  node.bequeathed c s vault plan ++ Ranking.best (node.holding s vault)
    (maxAutoMints - (node.bequeathed c s vault plan).length) (node.unplanned s vault plan)

/-! ## The order of the listing -/

theorem eraseDups_concat (mints : List Pubkey) (m : Pubkey) :
    (mints ++ [m]).eraseDups = if m ∈ mints then mints.eraseDups else mints.eraseDups ++ [m] := by
  rw [List.eraseDups_append]
  by_cases h : m ∈ mints <;> simp [List.removeAll, List.eraseDups_cons, h]

namespace MintMap

theorem keys_set (info : MintMap) (mint : Pubkey) (v : MintInfo) :
    (info.set mint v).keys = if mint ∈ info.keys then info.keys else info.keys ++ [mint] := by
  have hany : (info.any fun entry => entry.1 = mint) = true ↔ mint ∈ info.keys := by
    simp [keys]
  unfold MintMap.set
  by_cases h : mint ∈ info.keys
  · rw [if_pos (hany.mpr h), if_pos h]
    unfold keys
    rw [List.map_map]
    refine List.map_congr_left fun entry _ => ?_
    dsimp only [Function.comp_apply]
    split
    next hkey => exact hkey.symm
    next => rfl
  · rw [if_neg fun hyes => h (hany.mp hyes), if_neg h]
    unfold keys
    rw [List.map_append]
    rfl

/-- The keys are the mints in the order of the listing. -/
theorem keys_held (programId : ProgramId) (accounts : List (Pubkey × Nat)) {info : MintMap}
    {listed : List (Pubkey × Nat)} (h : info.keys = listedMints listed) :
    (accounts.foldl (addHeld programId) info).keys = listedMints (listed ++ accounts) := by
  induction accounts generalizing info listed with
  | nil => rw [List.append_nil, List.foldl_nil, h]
  | cons account rest ih =>
      rw [List.foldl_cons, List.append_cons]
      refine ih ?_
      unfold addHeld listedMints
      rw [List.filter_append, List.map_append]
      by_cases hzero : account.2 = 0
      · simpa [hzero, listedMints] using h
      · have hone : ([account].filter fun a => decide (a.2 ≠ 0)).map (·.1) = [account.1] := by
          simp [hzero]
        have hmem : account.1 ∈ info.keys ↔
            account.1 ∈ (listed.filter fun a => decide (a.2 ≠ 0)).map (·.1) := by
          rw [h, listedMints, List.mem_eraseDups]
        rw [if_neg hzero, keys_set, hone, eraseDups_concat]
        exact if_congr hmem h (by rw [h]; rfl)

end MintMap

/-- What the plan adds is planned. -/
theorem Node.keys_addPlanned (s : World) (as : List AssetAssignment) (info : MintMap)
    {p : Pubkey → Bool} (h : ∀ a ∈ as, a.mint ≠ .default → p a.mint = false) :
    (as.foldl (node.addPlanned c s) info).keys.filter p = info.keys.filter p := by
  induction as generalizing info with
  | nil => rfl
  | cons a rest ih =>
      rw [List.foldl_cons, ih _ fun a' ha' => h a' (List.mem_cons_of_mem _ ha')]
      have hset : ∀ v, a.mint ≠ .default → (info.set a.mint v).keys.filter p =
          info.keys.filter p := by
        intro v hm
        rw [MintMap.keys_set]
        split
        · rfl
        · rw [List.filter_append, List.filter_cons_of_neg (by simp [h a List.mem_cons_self hm])]
          exact List.append_nil _
      unfold Node.addPlanned
      split
      next => rfl
      next hm =>
        split
        · exact hset _ hm
        · exact hset _ hm
        · rfl

theorem Node.keys_gathered (s : World) (vault : Pubkey) (plan : Option AssetPlan) :
    (node.gathered c s vault plan).keys.filter (fun m => ¬ Planned plan m) =
      node.unplanned s vault plan := by
  have hnil : MintMap.keys [] = listedMints [] := rfl
  have hheld := MintMap.keys_held (.token .token2022) (node.held s vault .token2022)
    (MintMap.keys_held (.token .token) (node.held s vault .token) hnil)
  unfold Node.gathered Node.unplanned
  rw [List.nil_append] at hheld
  rw [node.keys_addPlanned, hheld]
  intro a ha hm
  exact decide_eq_false fun hnot => hnot ⟨hm, a, ha, rfl⟩

/-! ## The selection -/

theorem Node.planned_gathered (s : World) (vault : Pubkey) (plan : Option AssetPlan) :
    (((node.gathered c s vault plan).filter fun e => e.2.inPlan).map (·.1)).Perm
      (node.bequeathed c s vault plan) := by
  refine (List.perm_ext_iff_of_nodup ?_ ((List.nodup_dedup _).filter _)).mpr fun m => ?_
  · exact (node.nodup_gathered s vault plan).sublist (List.filter_sublist.map _)
  · have hplanned : Planned plan m ↔
        m ∈ (plan.elim [] (·.assignments)).map (·.mint) ∧ m ≠ .default := by
      rw [Planned, List.mem_map]
      exact and_comm
    rw [List.mem_filter, List.mem_dedup, decide_eq_true_iff, ← and_assoc, ← hplanned]
    constructor
    · intro hm
      obtain ⟨entry, hentry, rfl⟩ := List.mem_map.mp hm
      obtain ⟨hin, hflag⟩ := List.mem_filter.mp hentry
      have hplan := (gathered_inPlan hin).mp hflag
      exact ⟨hplan, (gathered_planned hplan).mp ⟨_, hin⟩⟩
    · rintro ⟨hplan, hthere⟩
      obtain ⟨v, hin⟩ := (gathered_planned hplan).mpr hthere
      have hflag := (gathered_inPlan hin).mpr hplan
      exact List.mem_map.mpr ⟨(m, v), List.mem_filter.mpr ⟨hin, hflag⟩, rfl⟩

/-- The selection is of the mints that a pass takes. -/
theorem Node.selection_taken (s : World) (vault : Pubkey) (plan : Option AssetPlan) :
    ((node.selection c s vault plan).map (·.1)).Perm (node.taken c s vault plan) := by
  have hplanned := node.planned_gathered (c := c) s vault plan
  have hlength : ((node.gathered c s vault plan).filter fun e => e.2.inPlan).length =
      (node.bequeathed c s vault plan).length := by
    rw [← hplanned.length_eq, List.length_map]
  have hothers : ((node.gathered c s vault plan).filter fun e => !e.2.inPlan).map (·.1) =
      node.unplanned s vault plan := by
    rw [← node.keys_gathered (c := c), MintMap.keys, List.filter_map]
    congr 1
    refine List.filter_congr fun entry hentry => ?_
    rw [Function.comp_apply, Bool.eq_iff_iff, Bool.not_eq_true', decide_eq_true_iff,
      ← Bool.not_eq_true]
    exact not_congr (gathered_inPlan hentry)
  unfold Node.selection chooseMints Node.taken
  dsimp only
  rw [List.map_map, List.map_append]
  refine hplanned.append (List.Perm.of_eq ?_)
  rw [← hlength, ← hothers]
  refine Ranking.map_best Prod.fst fun entry hentry => ?_
  obtain ⟨hin, hflag⟩ := List.mem_filter.mp hentry
  refine (gathered_amount hin fun hplan => ?_).1.symm
  rw [(gathered_inPlan hin).mpr hplan] at hflag
  cases hflag

/-- Each is selected with the program under which it is listed. -/
theorem Node.selection_programOf {entry : Pubkey × ProgramId}
    (hentry : entry ∈ node.selection c s vault plan) :
    node.programOf c s vault entry.1 = some entry.2 := by
  obtain ⟨v, heq, hkept⟩ := MintMap.mem_chooseMints.mp hentry
  have hin : (entry.1, v) ∈ node.gathered c s vault plan := by
    rcases hkept with hin | hbest
    · exact hin.1
    · exact (List.mem_filter.mp (Ranking.mem_of_mem_best hbest)).1
  rw [node.gathered_program hin, heq]

/-! ## What can be opened -/

/-- The mints that a pass has to open. -/
def Node.toOpen (c : Cluster) (node : Node) (o : Pubkey) (s : World) : List Pubkey :=
  (node.taken c s (.vault o) (s.assetPlans (.assetPlan (.vault o)))).filter fun m =>
    (s.tokenDists (.tokenDist (.vault o) m)).isNone

/-- The token accounts of the vault are not in the way: of the mints that a pass takes, those
    without a distribution are there under the program that they are listed with, and the ones
    outside the plan are in the associated account. The payer has the rents. -/
structure Undisturbed (c : Cluster) (node : Node) (payer o : Pubkey) (s : World) : Prop where
  loads : ∀ m ∈ node.toOpen c o s, (s.mints m).isSome = true ∧
    node.programOf c s (.vault o) m = some (.token (c.tokenProgram m))
  associated : ∀ m ∈ node.toOpen c o s, ¬ Planned (s.assetPlans (.assetPlan (.vault o))) m →
    0 < s.tokenAmounts (canonicalAta c (.vault o) m)
  funds : ((node.toOpen c o s).map fun m =>
    s.rentDue c (.tokenDist (.vault o) m) TokenDist.space).sum ≤ s.lamports payer

/-- Then the pass can open every mint that it selects, and only then. -/
theorem unhindered_iff (hs : s.Regular c) :
    Unhindered c node payer o s ↔ Undisturbed c node payer o s := by
  let plan := s.assetPlans (.assetPlan (.vault o))
  have hkeys : ((unopened (.vault o) s (node.selected c o s)).map (·.1)).Perm
      (node.toOpen c o s) := by
    have hfilter : (unopened (.vault o) s (node.selected c o s)).map (·.1) =
        ((node.selected c o s).map (·.1)).filter fun m =>
          (s.tokenDists (.tokenDist (.vault o) m)).isNone := by
      rw [List.filter_map]
      rfl
    rw [hfilter]
    exact (node.selection_taken s (.vault o) plan).filter _
  have hmem : ∀ m, m ∈ node.toOpen c o s ↔
      ∃ program, (m, program) ∈ unopened (.vault o) s (node.selected c o s) := by
    intro m
    rw [← hkeys.mem_iff, List.mem_map]
    exact ⟨fun ⟨entry, hentry, heq⟩ => ⟨entry.2, heq ▸ hentry⟩,
      fun ⟨program, hentry⟩ => ⟨(m, program), hentry, rfl⟩⟩
  have hprogram : ∀ entry ∈ unopened (.vault o) s (node.selected c o s),
      node.programOf c s (.vault o) entry.1 = some entry.2 := fun entry hentry =>
    Node.selection_programOf (List.mem_of_mem_filter hentry)
  have hrent : openingRent c (.vault o) s (node.selected c o s) =
      ((node.toOpen c o s).map fun m =>
        s.rentDue c (.tokenDist (.vault o) m) TokenDist.space).sum := by
    rw [← (hkeys.map _).sum_eq, List.map_map]
    rfl
  -- A mint of the assignments is planned, unless it stands for SOL and is no mint at all.
  have hplanned : ∀ m, (s.mints m).isSome = true →
      ((∃ a ∈ (s.estate c o).assignments, a.mint = m) ↔ Planned plan m) := by
    intro m hmint
    refine (and_iff_right ?_).symm
    rintro rfl
    rw [hs.defaultMint] at hmint
    cases hmint
  constructor
  · rintro ⟨hd, hf⟩
    refine ⟨fun m hm => ?_, fun m hm hplan => ?_, hrent ▸ hf⟩
    · obtain ⟨program, hentry⟩ := (hmem m).mp hm
      obtain ⟨heq, hmint, -⟩ := hd _ hentry
      exact ⟨hmint, heq ▸ hprogram _ hentry⟩
    · obtain ⟨program, hentry⟩ := (hmem m).mp hm
      obtain ⟨-, hmint, hwhy⟩ := hd _ hentry
      exact hwhy.resolve_right fun hassigned => hplan ((hplanned m hmint).mp hassigned)
  · rintro ⟨hloads, hassociated, hf⟩
    refine ⟨fun entry hentry => ?_, hrent ▸ hf⟩
    have hm := (hmem entry.1).mpr ⟨entry.2, hentry⟩
    obtain ⟨hmint, hlisted⟩ := hloads _ hm
    refine ⟨Option.some.inj ((hprogram entry hentry).symm.trans hlisted), hmint, ?_⟩
    by_cases hplan : Planned plan entry.1
    · exact .inr ((hplanned _ hmint).mpr hplan)
    · exact .inl (hassociated _ hm hplan)

end DeadMansVault.Crank
