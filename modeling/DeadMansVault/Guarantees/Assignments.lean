-- SUMMARY: What the program accepts as a list of bequests, and which NFT can still be bequeathed twice.
import DeadMansVault.Program.Instructions.Plan

/-!
# Assignments

The check for duplicates compares a flagged assignment with the flagged ones before
it. An assignment of the same mint that is not flagged passes unseen, wherever it
stands; without one, each flagged mint occurs once.
-/

namespace DeadMansVault

/-- What the plan should come to: one assignment for each NFT mint, everyone in range, SOL bequests
    well formed, and no more than fit. -/
structure AssignmentsSound (beneficiaryCount : Nat) (assignments : List AssetAssignment) :
    Prop where
  once : ∀ a ∈ assignments, a.isNft = true → assignments.countP (fun b => b.mint = a.mint) = 1
  range : ∀ a ∈ assignments, a.beneficiaryIndex < beneficiaryCount
  sol : ∀ a ∈ assignments, a.mint = .default → a.isNft = false ∧ 0 < a.amount
  length : assignments.length ≤ maxAssignments

/-- Each check of the list, as one fact. -/
theorem validateAssignments_eq_ok {n : Nat} {assignments : List AssetAssignment} :
    validateAssignments assignments n = .ok () ↔
      assignments.length ≤ maxAssignments ∧
      (∀ a ∈ assignments, a.beneficiaryIndex < n ∧
        (a.mint = .default → a.isNft = false ∧ 0 < a.amount)) ∧
      assignments.Pairwise fun prev a => a.isNft = true →
        ¬ (prev.isNft = true ∧ prev.mint = a.mint) := by
  have hforM : ∀ list : List AssetAssignment, forM list (validateAssignment n) = .ok () ↔
      ∀ a ∈ list, a.beneficiaryIndex < n ∧
        (a.mint = .default → a.isNft = false ∧ 0 < a.amount) := by
    intro list
    induction list with
    | nil => exact ⟨nofun, fun _ => rfl⟩
    | cons a rest ih =>
        rw [List.forM_cons, List.forall_mem_cons, ← ih]
        simp only [validateAssignment, Except.bind_eq_ok, require_eq_ok, exists_const]
  rw [← hforM]
  simp only [validateAssignments, List.forM_eq_forM, Except.bind_eq_ok, require_eq_ok,
    exists_const]
  constructor
  · rintro ⟨hlength, ⟨⟩, heach, hpairs⟩
    exact ⟨hlength, heach, hpairs⟩
  · rintro ⟨hlength, heach, hpairs⟩
    exact ⟨hlength, (), heach, hpairs⟩

/-- Of a flagged mint that no assignment without the flag shares, at most one assignment is left. -/
theorem length_flagged_le {assignments : List AssetAssignment} {mint : Pubkey}
    (hpairs : assignments.Pairwise fun prev a => a.isNft = true →
      ¬ (prev.isNft = true ∧ prev.mint = a.mint))
    (hflagged : ∀ b ∈ assignments, b.mint = mint → b.isNft = true) :
    (assignments.filter fun b => b.mint = mint).length ≤ 1 := by
  have hsub := hpairs.filter fun b => decide (b.mint = mint)
  have hmem : ∀ b ∈ assignments.filter (fun b => decide (b.mint = mint)),
      b.mint = mint ∧ b.isNft = true := by
    intro b hb
    obtain ⟨hin, hmint⟩ := List.mem_filter.mp hb
    exact ⟨of_decide_eq_true hmint, hflagged b hin (of_decide_eq_true hmint)⟩
  match hfilter : assignments.filter (fun b => decide (b.mint = mint)) with
  | [] | [_] => simp [hfilter]
  | first :: second :: rest =>
      rw [hfilter] at hsub hmem
      obtain ⟨hfirst, hflag⟩ := hmem first List.mem_cons_self
      obtain ⟨hsecond, hflag'⟩ := hmem second (List.mem_cons_of_mem _ List.mem_cons_self)
      have hpair := (List.pairwise_cons.mp hsub).1 second List.mem_cons_self
      exact absurd ⟨hflag, hfirst.trans hsecond.symm⟩ (hpair hflag')

/-- An accepted list is sound exactly if no assignment without the flag has the mint of one with
    it. -/
theorem accepted_assignments_sound {n : Nat} {assignments : List AssetAssignment}
    (h : validateAssignments assignments n = .ok ()) :
    AssignmentsSound n assignments ↔
      ∀ a ∈ assignments, ∀ b ∈ assignments, a.isNft = true → b.mint = a.mint → b.isNft = true := by
  obtain ⟨hlength, heach, hpairs⟩ := validateAssignments_eq_ok.mp h
  constructor
  · intro hsound a ha b hb hflag hmint
    have honce := hsound.once a ha hflag
    rw [List.countP_eq_length_filter] at honce
    obtain ⟨only, honly⟩ := List.length_eq_one_iff.mp honce
    have ha' : a ∈ assignments.filter (fun b => decide (b.mint = a.mint)) :=
      List.mem_filter.mpr ⟨ha, decide_eq_true rfl⟩
    have hb' : b ∈ assignments.filter (fun b => decide (b.mint = a.mint)) :=
      List.mem_filter.mpr ⟨hb, decide_eq_true hmint⟩
    rw [honly] at ha' hb'
    rw [List.mem_singleton.mp hb', ← List.mem_singleton.mp ha']
    exact hflag
  · intro hshared
    refine ⟨fun a ha hflag => ?_, fun a ha => (heach a ha).1, fun a ha => (heach a ha).2, hlength⟩
    have hle := length_flagged_le hpairs fun b hb hmint => hshared a ha b hb hflag hmint
    have hpos : 0 < (assignments.filter fun b => decide (b.mint = a.mint)).length :=
      List.length_pos_of_mem (List.mem_filter.mpr ⟨ha, decide_eq_true rfl⟩)
    rw [List.countP_eq_length_filter]
    omega

/-- A mint that is bequeathed once, to the first of two heirs. -/
theorem accepted_assignments_sound_sample :
    AssignmentsSound 2 [⟨.key 7, 1, 0, true⟩, ⟨.default, 5, 1, false⟩] :=
  (accepted_assignments_sound rfl).mpr (by decide)

/-- One heir gets an NFT, and another an assignment of the same mint that is not flagged. -/
theorem unflagged_duplicate_accepted :
    validateAssignments [⟨.key 7, 1, 0, true⟩, ⟨.key 7, 1, 1, false⟩] 2 = .ok () ∧
      ¬ AssignmentsSound 2 [⟨.key 7, 1, 0, true⟩, ⟨.key 7, 1, 1, false⟩] := by
  refine ⟨rfl, fun hsound => ?_⟩
  have honce := hsound.once ⟨.key 7, 1, 0, true⟩ List.mem_cons_self rfl
  revert honce
  decide

end DeadMansVault
