-- SUMMARY: The mints that a crank selects against a node: those of the plan, and the largest of the others up to the cap.
import DeadMansVault.Library.Ranking
import DeadMansVault.Automation.Node

/-!
# The selection of the mints

Against a node the selection is a function of the world: the balances of the listed token
accounts summed up by mint, with the mints of the plan, and cut off at the cap.
-/

namespace DeadMansVault.Crank

open Script

variable {c : Cluster} {node : Node}

/-! ## Maps of mints -/

/-- What the accounts hold of a mint. -/
def balance (accounts : List (Pubkey × Nat)) (mint : Pubkey) : Nat :=
  ((accounts.filter fun account => account.1 = mint).map (·.2)).sum

theorem balance_cons (account : Pubkey × Nat) (rest : List (Pubkey × Nat)) (mint : Pubkey) :
    balance (account :: rest) mint =
      (if account.1 = mint then account.2 else 0) + balance rest mint := by
  unfold balance
  by_cases h : account.1 = mint <;> simp [h]

namespace MintMap

def keys (info : MintMap) : List Pubkey := info.map (·.1)

theorem get_cons (entry : Pubkey × MintInfo) (rest : MintMap) (mint : Pubkey) :
    MintMap.get (entry :: rest) mint = if entry.1 = mint then some entry.2 else rest.get mint := by
  unfold MintMap.get
  rw [List.find?_cons]
  by_cases h : entry.1 = mint <;> simp [h]

theorem get_append_none {info : MintMap} {mint : Pubkey} (h : info.get mint = none)
    (rest : MintMap) : MintMap.get (info ++ rest) mint = rest.get mint := by
  unfold MintMap.get at h ⊢
  rw [List.find?_append, Option.map_eq_none_iff.mp h, Option.none_or]

/-- The keys are those that a lookup finds. -/
theorem any_eq_isSome (info : MintMap) (mint : Pubkey) :
    (info.any fun entry => entry.1 = mint) = (info.get mint).isSome := by
  unfold MintMap.get
  rw [Option.isSome_map, Bool.eq_iff_iff, List.find?_isSome, List.any_eq_true]

theorem get_set_self (info : MintMap) (mint : Pubkey) (v : MintInfo) :
    (info.set mint v).get mint = some v := by
  unfold MintMap.set
  split
  next hany =>
    induction info with
    | nil => simp at hany
    | cons entry rest ih =>
        rw [List.map_cons, get_cons]
        by_cases hkey : entry.1 = mint
        · simp [hkey]
        · have hrest : (rest.any fun entry => entry.1 = mint) = true := by simpa [hkey] using hany
          rw [if_neg hkey, if_neg hkey]
          exact ih hrest
  next hnew =>
    rw [any_eq_isSome, Option.not_isSome_iff_eq_none] at hnew
    rw [get_append_none hnew, get_cons, if_pos rfl]

theorem get_set_of_ne (info : MintMap) {mint other : Pubkey} (h : other ≠ mint) (v : MintInfo) :
    (info.set mint v).get other = info.get other := by
  unfold MintMap.set
  split
  next hany =>
    clear hany
    induction info with
    | nil => rfl
    | cons entry rest ih =>
        rw [List.map_cons, get_cons, get_cons, ih]
        by_cases hkey : entry.1 = mint
        · rw [if_pos hkey, hkey, if_neg h.symm, if_neg h.symm]
        · rw [if_neg hkey]
  next hnew =>
    induction info with
    | nil => rw [List.nil_append, get_cons, if_neg h.symm]
    | cons entry rest ih =>
        rw [List.cons_append, get_cons, get_cons, ih]
        exact fun hany => hnew (by rw [List.any_cons, hany, Bool.or_true])

theorem mem_of_get {info : MintMap} {mint : Pubkey} {v : MintInfo} (h : info.get mint = some v) :
    (mint, v) ∈ info := by
  obtain ⟨entry, hfind, rfl⟩ := Option.map_eq_some_iff.mp h
  obtain rfl : entry.1 = mint := by simpa using List.find?_some hfind
  exact List.mem_of_find?_eq_some hfind

theorem get_of_mem {info : MintMap} (hnodup : info.keys.Nodup) {mint : Pubkey} {v : MintInfo}
    (h : (mint, v) ∈ info) : info.get mint = some v := by
  induction info with
  | nil => cases h
  | cons entry rest ih =>
      obtain ⟨hnew, hrest⟩ := List.nodup_cons.mp hnodup
      rw [get_cons]
      rcases List.mem_cons.mp h with rfl | h
      · rw [if_pos rfl]
      · have hne : entry.1 ≠ mint := by
          rintro rfl
          exact hnew (List.mem_map.mpr ⟨_, h, rfl⟩)
        rw [if_neg hne]
        exact ih hrest h

theorem nodup_set {info : MintMap} (h : info.keys.Nodup) (mint : Pubkey) (v : MintInfo) :
    (info.set mint v).keys.Nodup := by
  unfold MintMap.set
  split
  · have hkeys : keys (info.map fun entry => if entry.1 = mint then (mint, v) else entry) =
        info.keys := by
      unfold keys
      rw [List.map_map]
      refine List.map_congr_left fun entry _ => ?_
      dsimp only [Function.comp_apply]
      split
      next hkey => exact hkey.symm
      next => rfl
    rw [hkeys]
    exact h
  next hnew =>
    have hnot : mint ∉ info.keys := by
      intro hmem
      obtain ⟨entry, hentry, hkey⟩ := List.mem_map.mp hmem
      exact hnew (List.any_eq_true.mpr ⟨entry, hentry, decide_eq_true hkey⟩)
    unfold keys at h hnot ⊢
    rw [List.map_append]
    refine List.nodup_append.mpr ⟨h, List.nodup_singleton _, fun a ha b hb heq => hnot ?_⟩
    rw [heq, List.mem_singleton.mp hb] at ha
    exact ha

theorem nodup_addHeld {info : MintMap} (h : info.keys.Nodup) (programId : ProgramId)
    (account : Pubkey × Nat) : (addHeld programId info account).keys.Nodup := by
  unfold addHeld
  split
  · exact h
  · exact nodup_set h _ _

theorem nodup_held {info : MintMap} (h : info.keys.Nodup) (programId : ProgramId)
    (accounts : List (Pubkey × Nat)) : (accounts.foldl (addHeld programId) info).keys.Nodup := by
  induction accounts generalizing info with
  | nil => exact h
  | cons account rest ih => exact ih (nodup_addHeld h programId account)

/-- The cap takes mints away, and none is taken twice. -/
theorem nodup_chooseMints {info : MintMap} (h : info.keys.Nodup) :
    ((chooseMints info).map (·.1)).Nodup := by
  have hall : (info.filter (fun entry => entry.2.inPlan) ++
      (info.filter fun entry => !entry.2.inPlan).insertionSort
        fun a b => b.2.amount ≤ a.2.amount).Perm info :=
    ((List.Perm.refl _).append (List.perm_insertionSort _ _)).trans (List.filter_append_perm _ _)
  unfold chooseMints
  dsimp only
  rw [List.map_map]
  refine List.Nodup.sublist (List.Sublist.map _ (List.Sublist.append (List.Sublist.refl _)
    (List.take_sublist _ _))) ?_
  have hkeys := hall.map fun entry : Pubkey × MintInfo => entry.1
  exact hkeys.nodup_iff.mpr h

/-! ### What a map says of a mint -/

theorem get_addHeld (programId : ProgramId) (info : MintMap) (account : Pubkey × Nat)
    (mint : Pubkey) : (addHeld programId info account).get mint =
      if account.1 = mint ∧ account.2 ≠ 0 then some {
        programId := programId
        amount := ((info.get mint).map (·.amount)).getD 0 + account.2
        inPlan := ((info.get mint).map (·.inPlan)).getD false }
      else info.get mint := by
  unfold addHeld
  by_cases hzero : account.2 = 0
  · rw [if_pos hzero, if_neg fun h => h.2 hzero]
  · rw [if_neg hzero]
    by_cases hmint : account.1 = mint
    · rw [if_pos ⟨hmint, hzero⟩, ← hmint]
      exact get_set_self ..
    · rw [if_neg fun h => hmint h.1]
      exact get_set_of_ne _ (Ne.symm hmint) _

/-- The sum of the balances, with the last of the programs. -/
theorem get_held (programId : ProgramId) (accounts : List (Pubkey × Nat)) (info : MintMap)
    (mint : Pubkey) : (accounts.foldl (addHeld programId) info).get mint =
      if balance accounts mint = 0 then info.get mint
      else some {
        programId := programId
        amount := ((info.get mint).map (·.amount)).getD 0 + balance accounts mint
        inPlan := ((info.get mint).map (·.inPlan)).getD false } := by
  induction accounts generalizing info with
  | nil => rfl
  | cons account rest ih =>
      have hget := get_addHeld programId info account mint
      rw [List.foldl_cons, ih, balance_cons]
      by_cases hcounts : account.1 = mint ∧ account.2 ≠ 0
      · rw [if_pos hcounts] at hget
        have hsum : account.2 + balance rest mint ≠ 0 := by omega
        rw [hget, if_pos hcounts.1, if_neg hsum]
        split
        next hrest => rw [hrest, Nat.add_zero]
        next => simp [Nat.add_assoc]
      · rw [if_neg hcounts] at hget
        have hnothing : (if account.1 = mint then account.2 else 0) = 0 := by
          split
          next hmint => exact not_not.mp fun hne => hcounts ⟨hmint, hne⟩
          next => rfl
        rw [hget, hnothing, Nat.zero_add]

/-- Which mints are kept: those of the plan, and the best of the others. -/
theorem mem_chooseMints {info : MintMap} {entry : Pubkey × ProgramId} :
    entry ∈ chooseMints info ↔ ∃ v, entry = (entry.1, v.programId) ∧
      ((entry.1, v) ∈ info ∧ v.inPlan = true ∨
        (entry.1, v) ∈ Ranking.best (fun e => e.2.amount)
          (maxAutoMints - (info.filter fun e => e.2.inPlan).length)
          (info.filter fun e => !e.2.inPlan)) := by
  unfold chooseMints
  dsimp only
  rw [List.mem_map]
  constructor
  · rintro ⟨⟨m, v⟩, hmem, rfl⟩
    refine ⟨v, rfl, ?_⟩
    rcases List.mem_append.mp hmem with h | h
    · exact .inl (List.mem_filter.mp h)
    · exact .inr h
  · rintro ⟨v, hentry, hmem⟩
    refine ⟨(entry.1, v), ?_, hentry.symm⟩
    rcases hmem with h | h
    · exact List.mem_append_left _ (List.mem_filter.mpr h)
    · exact List.mem_append_right _ h

theorem length_chooseMints (info : MintMap) :
    (chooseMints info).length = (info.filter fun e => e.2.inPlan).length +
      (Ranking.best (fun e : Pubkey × MintInfo => e.2.amount)
        (maxAutoMints - (info.filter fun e => e.2.inPlan).length)
        (info.filter fun e => !e.2.inPlan)).length := by
  unfold chooseMints
  dsimp only
  rw [List.length_map, List.length_append]
  rfl

end MintMap

/-! ## The selection -/

/-- A mint of the plan is added, if its account is there. -/
def Node.addPlanned (c : Cluster) (node : Node) (s : World) (info : MintMap) (a : AssetAssignment) :
    MintMap :=
  if a.mint = .default then info
  else match info.get a.mint, node.ownerOf c s a.mint with
  | some prev, _ => info.set a.mint { prev with inPlan := true }
  | none, some owner => info.set a.mint { programId := owner, amount := 0, inPlan := true }
  | none, none => info

/-- What a pass over the vault has gathered before it chooses. -/
def Node.gathered (c : Cluster) (node : Node) (s : World) (vault : Pubkey)
    (plan : Option AssetPlan) : MintMap :=
  let held := (node.held s vault .token2022).foldl (addHeld (.token .token2022))
    ((node.held s vault .token).foldl (addHeld (.token .token)) [])
  (plan.elim [] (·.assignments)).foldl (node.addPlanned c s) held

/-- The mints with the programs that a pass over the vault selects, plan or none. -/
def Node.selection (c : Cluster) (node : Node) (s : World) (vault : Pubkey)
    (plan : Option AssetPlan) : List (Pubkey × ProgramId) :=
  chooseMints (node.gathered c s vault plan)

theorem Node.nodup_addPlanned {info : MintMap} (s : World) (h : info.keys.Nodup)
    (as : List AssetAssignment) : (as.foldl (node.addPlanned c s) info).keys.Nodup := by
  induction as generalizing info with
  | nil => exact h
  | cons a rest ih =>
      refine ih ?_
      unfold Node.addPlanned
      split
      · exact h
      · split
        · exact MintMap.nodup_set h _ _
        · exact MintMap.nodup_set h _ _
        · exact h

theorem Node.nodup_gathered (s : World) (vault : Pubkey) (plan : Option AssetPlan) :
    (node.gathered c s vault plan).keys.Nodup := by
  refine node.nodup_addPlanned s ?_ _
  have hempty : MintMap.keys [] = [] := rfl
  exact MintMap.nodup_held (MintMap.nodup_held (hempty ▸ List.nodup_nil) _ _) _ _

theorem Node.nodup_selection (s : World) (vault : Pubkey) (plan : Option AssetPlan) :
    ((node.selection c s vault plan).map (·.1)).Nodup :=
  MintMap.nodup_chooseMints (node.nodup_gathered s vault plan)

/-! ### What is gathered of a mint -/

/-- What the listed token accounts of the vault hold of a mint, under both programs. -/
def Node.holding (node : Node) (s : World) (vault mint : Pubkey) : Nat :=
  balance (node.held s vault .token) mint + balance (node.held s vault .token2022) mint

/-- A bequest of tokens names the mint. -/
def Planned (plan : Option AssetPlan) (mint : Pubkey) : Prop :=
  mint ≠ .default ∧ ∃ a ∈ plan.elim [] (·.assignments), a.mint = mint

instance (plan : Option AssetPlan) (mint : Pubkey) : Decidable (Planned plan mint) :=
  inferInstanceAs (Decidable (_ ∧ _))

/-- Of a mint that is held. -/
def Node.heldInfo (node : Node) (s : World) (vault mint : Pubkey) : Option MintInfo :=
  if node.holding s vault mint = 0 then none
  else some {
    programId :=
      if balance (node.held s vault .token2022) mint = 0 then .token .token else .token .token2022
    amount := node.holding s vault mint
    inPlan := false }

/-- The program under which a mint is listed, or its owner where none of it is. -/
def Node.programOf (c : Cluster) (node : Node) (s : World) (vault mint : Pubkey) :
    Option ProgramId :=
  if node.holding s vault mint = 0 then node.ownerOf c s mint
  else some (if balance (node.held s vault .token2022) mint = 0 then .token .token
    else .token .token2022)

/-- Of a mint of the plan, where this is what is held. -/
def Node.plannedInfo (c : Cluster) (node : Node) (s : World) (mint : Pubkey) :
    Option MintInfo → Option MintInfo
  | some prev => some { prev with inPlan := true }
  | none => (node.ownerOf c s mint).map fun owner =>
      { programId := owner, amount := 0, inPlan := true }

theorem Node.plannedInfo_plannedInfo (s : World) (mint : Pubkey) (prev : Option MintInfo) :
    node.plannedInfo c s mint (node.plannedInfo c s mint prev) = node.plannedInfo c s mint prev := by
  cases prev with
  | some prev => rfl
  | none =>
      unfold Node.plannedInfo
      cases node.ownerOf c s mint <;> rfl

theorem Node.get_addPlanned (s : World) (info : MintMap) (a : AssetAssignment) (mint : Pubkey) :
    (node.addPlanned c s info a).get mint =
      if a.mint ≠ .default ∧ a.mint = mint then node.plannedInfo c s mint (info.get mint)
      else info.get mint := by
  unfold Node.addPlanned
  by_cases hdefault : a.mint = .default
  · rw [if_pos hdefault, if_neg fun h => h.1 hdefault]
  · rw [if_neg hdefault]
    by_cases hmint : a.mint = mint
    · rw [if_pos ⟨hdefault, hmint⟩, hmint]
      cases hget : info.get mint with
      | some prev => exact MintMap.get_set_self ..
      | none =>
          unfold Node.plannedInfo
          cases node.ownerOf c s mint with
          | some owner => exact MintMap.get_set_self ..
          | none => exact hget
    · rw [if_neg fun h => hmint h.2]
      split
      · exact MintMap.get_set_of_ne _ (Ne.symm hmint) _
      · exact MintMap.get_set_of_ne _ (Ne.symm hmint) _
      · rfl

theorem Node.get_gathered (s : World) (vault : Pubkey) (plan : Option AssetPlan) (mint : Pubkey) :
    (node.gathered c s vault plan).get mint =
      if Planned plan mint then node.plannedInfo c s mint (node.heldInfo s vault mint)
      else node.heldInfo s vault mint := by
  have hheld : MintMap.get ((node.held s vault .token2022).foldl (addHeld (.token .token2022))
      ((node.held s vault .token).foldl (addHeld (.token .token)) [])) mint =
      node.heldInfo s vault mint := by
    rw [MintMap.get_held, MintMap.get_held]
    unfold Node.heldInfo Node.holding
    have hnil : MintMap.get [] mint = none := rfl
    rw [hnil]
    by_cases hfirst : balance (node.held s vault .token) mint = 0
    · by_cases hsecond : balance (node.held s vault .token2022) mint = 0
      · simp [hfirst, hsecond]
      · simp [hfirst, hsecond]
    · by_cases hsecond : balance (node.held s vault .token2022) mint = 0
      · simp [hfirst, hsecond]
      · simp [hfirst, hsecond]
  have hfold : ∀ (as : List AssetAssignment) (info : MintMap)
      [Decidable (mint ≠ .default ∧ ∃ a ∈ as, a.mint = mint)],
      (as.foldl (node.addPlanned c s) info).get mint =
        if mint ≠ .default ∧ ∃ a ∈ as, a.mint = mint then
          node.plannedInfo c s mint (info.get mint)
        else info.get mint := by
    intro as
    induction as with
    | nil => intro info _; simp
    | cons a rest ih =>
        intro info _
        classical
        rw [List.foldl_cons, ih, node.get_addPlanned]
        by_cases hone : a.mint ≠ .default ∧ a.mint = mint
        · rw [if_pos hone, node.plannedInfo_plannedInfo, ite_self, if_pos]
          exact ⟨hone.2 ▸ hone.1, a, List.mem_cons_self, hone.2⟩
        · rw [if_neg hone]
          refine if_congr (and_congr_right fun hdefault => ?_) rfl rfl
          rw [List.exists_mem_cons_iff, or_iff_right]
          exact fun hmint => hone ⟨hmint ▸ hdefault, hmint⟩
  unfold Node.gathered
  dsimp only
  rw [hfold, hheld]
  exact if_congr Iff.rfl rfl rfl

theorem Node.mem_gathered {s : World} {vault mint : Pubkey} {plan : Option AssetPlan}
    {v : MintInfo} : (mint, v) ∈ node.gathered c s vault plan ↔
      (node.gathered c s vault plan).get mint = some v :=
  ⟨MintMap.get_of_mem (node.nodup_gathered s vault plan), MintMap.mem_of_get⟩

section

variable {s : World} {vault mint : Pubkey} {plan : Option AssetPlan} {v : MintInfo}
  (h : (mint, v) ∈ node.gathered c s vault plan)
include h

theorem Node.gathered_inPlan : v.inPlan = true ↔ Planned plan mint := by
  rw [mem_gathered, node.get_gathered] at h
  split at h
  next hplan =>
    refine iff_of_true ?_ hplan
    cases hheld : node.heldInfo s vault mint with
    | some prev =>
        rw [hheld] at h
        obtain rfl := Option.some.inj h
        rfl
    | none =>
        rw [hheld] at h
        obtain ⟨owner, -, rfl⟩ := Option.map_eq_some_iff.mp h
        rfl
  next hplan =>
    refine iff_of_false (fun hyes => ?_) hplan
    unfold Node.heldInfo at h
    split at h
    · cases h
    · obtain rfl := Option.some.inj h
      cases hyes

/-- Of a mint outside the plan the balance is gathered, and it is held. -/
theorem Node.gathered_amount (hplan : ¬ Planned plan mint) :
    v.amount = node.holding s vault mint ∧ 0 < node.holding s vault mint := by
  rw [mem_gathered, node.get_gathered, if_neg hplan, Node.heldInfo] at h
  split at h
  next => cases h
  next hpos =>
    obtain rfl := Option.some.inj h
    exact ⟨rfl, Nat.pos_of_ne_zero hpos⟩

/-- It is gathered with the program under which it is listed. -/
theorem Node.gathered_program : node.programOf c s vault mint = some v.programId := by
  rw [mem_gathered, node.get_gathered] at h
  unfold Node.programOf
  unfold Node.heldInfo at h
  split
  next hzero =>
    rw [if_pos hzero] at h
    split at h
    · obtain ⟨owner, howner, rfl⟩ := Option.map_eq_some_iff.mp h
      exact howner
    · cases h
  next hpos =>
    rw [if_neg hpos] at h
    split at h
    · obtain rfl := Option.some.inj h
      rfl
    · obtain rfl := Option.some.inj h
      rfl

end

/-- A mint of the plan is gathered where it is held, or at least there. -/
theorem Node.gathered_planned {s : World} {vault mint : Pubkey} {plan : Option AssetPlan}
    (hplan : Planned plan mint) : (∃ v, (mint, v) ∈ node.gathered c s vault plan) ↔
      0 < node.holding s vault mint ∨ (node.ownerOf c s mint).isSome = true := by
  have hsome : (∃ v, (mint, v) ∈ node.gathered c s vault plan) ↔
      ((node.gathered c s vault plan).get mint).isSome = true := by
    rw [Option.isSome_iff_exists]
    exact exists_congr fun v => mem_gathered
  rw [hsome, node.get_gathered, if_pos hplan, Node.heldInfo]
  split
  next hzero =>
    rw [Node.plannedInfo, Option.isSome_map, hzero]
    exact (or_iff_right (lt_irrefl 0)).symm
  next hpos => exact iff_of_true rfl (.inl (Nat.pos_of_ne_zero hpos))

/-! ## What is selected -/

/-- The mints of the plan that are held or at least there, and beside them the largest
    of the others that are held, up to the cap. -/
structure Selected (holding : Pubkey → Nat) (planned : Pubkey → Prop) (found : Pubkey → Bool)
    (mints : List (Pubkey × ProgramId)) : Prop where
  nodup : (mints.map (·.1)).Nodup
  bequeathed : ∀ m, planned m → (m ∈ mints.map (·.1) ↔ 0 < holding m ∨ found m = true)
  held : ∀ m ∈ mints.map (·.1), ¬ planned m → 0 < holding m
  /-- The mints of the plan count towards the cap, and may exceed it alone. -/
  capped : (∃ m ∈ mints.map (·.1), ¬ planned m) → mints.length ≤ maxAutoMints
  largest : ∀ m, ¬ planned m → 0 < holding m → m ∉ mints.map (·.1) →
    maxAutoMints ≤ mints.length ∧
      ∀ m' ∈ mints.map (·.1), ¬ planned m' → holding m ≤ holding m'

theorem Node.selection_selected (s : World) (vault : Pubkey) (plan : Option AssetPlan) :
    Selected (node.holding s vault) (Planned plan) (fun m => (node.ownerOf c s m).isSome)
      (node.selection c s vault plan) := by
  let info := node.gathered c s vault plan
  have hentry : ∀ m, m ∈ (node.selection c s vault plan).map (·.1) ↔ ∃ v, (m, v) ∈ info ∧
      (v.inPlan = true ∨ (m, v) ∈ Ranking.best (fun e => e.2.amount)
        (maxAutoMints - (info.filter fun e => e.2.inPlan).length)
        (info.filter fun e => !e.2.inPlan)) := by
    intro m
    constructor
    · intro hm
      obtain ⟨entry, hsel, rfl⟩ := List.mem_map.mp hm
      obtain ⟨v, -, hin | hbest⟩ := MintMap.mem_chooseMints.mp hsel
      · exact ⟨v, hin.1, .inl hin.2⟩
      · exact ⟨v, (List.mem_filter.mp (Ranking.mem_of_mem_best hbest)).1, .inr hbest⟩
    · rintro ⟨v, hin, hkept⟩
      refine List.mem_map.mpr ⟨(m, v.programId), MintMap.mem_chooseMints.mpr ⟨v, rfl, ?_⟩, rfl⟩
      exact hkept.imp_left fun hflagged => ⟨hin, hflagged⟩
  have hlength := MintMap.length_chooseMints info
  refine ⟨node.nodup_selection s vault plan, fun m hplan => ?_, fun m hm hplan => ?_, ?_,
    fun m hplan hpos hout => ?_⟩
  · -- A mint of the plan is kept wherever it is gathered.
    rw [hentry m, ← gathered_planned hplan]
    refine exists_congr fun v => and_iff_left_of_imp fun hin => ?_
    exact .inl ((gathered_inPlan hin).mpr hplan)
  · obtain ⟨v, hin, -⟩ := (hentry m).mp hm
    exact (gathered_amount hin hplan).2
  · rintro ⟨m, hm, hplan⟩
    obtain ⟨v, hin, hflagged | hbest⟩ := (hentry m).mp hm
    · exact absurd ((gathered_inPlan hin).mp hflagged) hplan
    · have hle := Ranking.length_best_le (fun e : Pubkey × MintInfo => e.2.amount)
        (maxAutoMints - (info.filter fun e => e.2.inPlan).length)
        (info.filter fun e => !e.2.inPlan)
      have hpos := List.length_pos_of_mem hbest
      show (chooseMints info).length ≤ _
      omega
  · obtain ⟨v, hin⟩ : ∃ v, (m, v) ∈ info := by
      simp only [info, mem_gathered, node.get_gathered, if_neg hplan, Node.heldInfo,
        if_neg (Nat.pos_iff_ne_zero.mp hpos)]
      exact ⟨_, rfl⟩
    have hunflagged : v.inPlan = false := Bool.eq_false_iff.mpr fun hyes =>
      hplan ((gathered_inPlan hin).mp hyes)
    have hcandidate : (m, v) ∈ info.filter fun e => !e.2.inPlan :=
      List.mem_filter.mpr ⟨hin, by rw [hunflagged]; rfl⟩
    obtain ⟨hfull, hle⟩ := Ranking.left_out hcandidate fun hbest =>
      hout ((hentry m).mpr ⟨v, hin, .inr hbest⟩)
    refine ⟨?_, fun m' hm' hplan' => ?_⟩
    · show _ ≤ (chooseMints info).length
      omega
    · obtain ⟨v', hin', hflagged | hbest'⟩ := (hentry m').mp hm'
      · exact absurd ((gathered_inPlan hin').mp hflagged) hplan'
      · have hscore := hle _ hbest'
        dsimp only at hscore
        rwa [(gathered_amount hin hplan).1, (gathered_amount hin' hplan').1] at hscore

/-- A token account belongs to the program of its mint. -/
def Genuine (c : Cluster) (s : World) : Prop :=
  ∀ k x program, s.tokenAccounts k = some x → x.program = some program →
    program = c.tokenProgram x.mint

theorem Node.held_genuine {s : World} (h : Genuine c s) {vault mint : Pubkey}
    {program : TokenProgram} (hheld : balance (node.held s vault program) mint ≠ 0) :
    program = c.tokenProgram mint := by
  obtain ⟨account, hmem, hmint⟩ : ∃ account ∈ node.held s vault program, account.1 = mint := by
    by_contra hnone
    refine hheld ?_
    unfold balance
    rw [List.filter_eq_nil_iff.mpr]
    · rfl
    · intro account hmem hmint
      exact hnone ⟨account, hmem, of_decide_eq_true hmint⟩
  obtain ⟨k, -, hk⟩ := List.mem_filterMap.mp hmem
  obtain ⟨x, hx, hx'⟩ := Option.bind_eq_some_iff.mp hk
  split at hx'
  next hown =>
    rw [← hmint, ← Option.some.inj hx']
    exact h k x program hx hown.2
  next => cases hx'

/-- A mint is selected under its own program. -/
theorem Node.selection_program {s : World} (h : Genuine c s) {vault : Pubkey}
    {plan : Option AssetPlan} {entry : Pubkey × ProgramId}
    (hmem : entry ∈ node.selection c s vault plan) (hmint : (s.mints entry.1).isSome = true) :
    entry.2 = .token (c.tokenProgram entry.1) := by
  obtain ⟨v, hentry, hkept⟩ := MintMap.mem_chooseMints.mp hmem
  have hin : (entry.1, v) ∈ node.gathered c s vault plan := by
    rcases hkept with hin | hbest
    · exact hin.1
    · exact (List.mem_filter.mp (Ranking.mem_of_mem_best hbest)).1
  have hlisted := node.gathered_program hin
  have hprogram : v.programId = .token (c.tokenProgram entry.1) := by
    unfold Node.programOf at hlisted
    split at hlisted
    next =>
      obtain ⟨m, hm⟩ := Option.isSome_iff_exists.mp hmint
      rw [Node.ownerOf, hm] at hlisted
      exact (Option.some.inj hlisted).symm
    next hpos =>
      obtain hlisted := Option.some.inj hlisted
      split at hlisted
      next hsecond =>
        have hfirst : balance (node.held s vault .token) entry.1 ≠ 0 := by
          unfold Node.holding at hpos
          omega
        rw [← hlisted, ← held_genuine h hfirst]
      next hsecond => rw [← hlisted, ← held_genuine h hsecond]
  rw [hentry]
  exact hprogram

/-! ## The run -/

theorem getAccountInfoRetry_onNode (key : Pubkey) (tries : Nat) (r : Run World) :
    getAccountInfoRetry (node.client c) key (tries + 1) r = .ok (node.ownerOf c r.net key) r := by
  have hread : call ((node.client c).accountInfo key) r = .ok (node.ownerOf c r.net key) r :=
    call_read rfl
  cases howner : node.ownerOf c r.net key with
  | some owner =>
      rw [howner] at hread
      exact run_bind_ok (run_tryCatch_ok hread)
  | none =>
      rw [howner] at hread
      induction tries with
      | zero => exact run_bind_ok (run_tryCatch_ok hread)
      | succ tries ih => exact (run_bind_ok (run_tryCatch_ok hread)).trans ih

theorem addPlanned_onNode {expire : Routine World PUnit} {r : Run World}
    (hexpire : expire r = .ok ⟨⟩ r) (info : MintMap) (a : AssetAssignment) :
    Crank.addPlanned (node.client c) expire info a r = .ok (node.addPlanned c r.net info a) r := by
  unfold Crank.addPlanned Node.addPlanned
  split
  · rfl
  · cases info.get a.mint with
    | some prev => rfl
    | none =>
        refine (run_bind_ok (getAccountInfoRetry_onNode a.mint 3 r)).trans ?_
        refine (run_bind_ok hexpire).trans ?_
        cases node.ownerOf c r.net a.mint with
        | some owner => rfl
        | none => rfl

/-- The pass goes on with the selection, and the collecting has changed nothing. -/
theorem collectMints_onNode {expire : Routine World PUnit} {r : Run World}
    (hexpire : expire r = .ok ⟨⟩ r) (vault : Pubkey) (plan : Option AssetPlan) :
    collectMints (node.client c) expire vault plan r =
      .ok (node.selection c r.net vault plan) r := by
  have hfold : ∀ (as : List AssetAssignment) (info : MintMap),
      as.foldlM (Crank.addPlanned (node.client c) expire) info r =
        .ok (as.foldl (node.addPlanned c r.net) info) r := by
    intro as
    induction as with
    | nil => exact fun _ => rfl
    | cons a rest ih =>
        intro info
        rw [List.foldlM_cons]
        exact (run_bind_ok (addPlanned_onNode hexpire info a)).trans (ih _)
  refine (run_bind_ok (call_read rfl)).trans ((run_bind_ok (call_read rfl)).trans ?_)
  cases plan with
  | none => rfl
  | some plan => exact (run_bind_ok (hfold _ _)).trans rfl

end DeadMansVault.Crank
