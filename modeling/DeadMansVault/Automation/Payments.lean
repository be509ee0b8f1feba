-- SUMMARY: The payments of bequests and SOL shares against a node: what is given up on stays unpaid.
import DeadMansVault.Automation.Pending

/-!
# Payments

A pass goes through the bequests and then through the SOL shares. A mint that it gives up on
has a bequest that is not paid, and stays so; and where the pass throws, the payment that it
was at is not made.
-/

namespace DeadMansVault.Crank

open Script World

variable {c : Cluster} {node : Node} {job : Job World} {o : Pubkey} {v : VaultConfig}
  {as : List AssetAssignment} {w w' : World} {stuck : List Pubkey}

/-! ## Abandoned mints -/

/-- What has been given up on is a bequeathed mint, with a bequest of it that is not paid. -/
def Abandoned (c : Cluster) (o : Pubkey) (as : List AssetAssignment) (w : World)
    (stuck : List Pubkey) : Prop :=
  ∀ m ∈ stuck, m ≠ .default ∧ ∃ j a, as[j]? = some a ∧ a.mint = m ∧
    Bitmask.test (w.estate c o).planBits j = false

theorem Abandoned.unpaid (h : Abandoned c o as w stuck) (hstuck : stuck ≠ []) :
    Unpaid c o v as w := by
  obtain ⟨m, hm⟩ := List.exists_mem_of_ne_nil stuck hstuck
  obtain ⟨-, j, a, ha, -, hclear⟩ := h m hm
  exact .inr ⟨j, (List.getElem?_eq_some_iff.mp ha).1, hclear⟩

/-- The payments of other mints leave it abandoned. -/
theorem Abandoned.keep (h : Abandoned c o as w stuck)
    (hpays : ∀ j a, as[j]? = some a → Bitmask.test (w'.estate c o).planBits j = true →
      Bitmask.test (w.estate c o).planBits j = true ∨ a.mint = .default ∨ a.mint ∉ stuck) :
    Abandoned c o as w' stuck := by
  intro m hm
  obtain ⟨hdefault, j, a, ha, rfl, hclear⟩ := h m hm
  refine ⟨hdefault, j, a, ha, rfl, Bool.eq_false_iff.mpr fun hbit => ?_⟩
  rcases hpays j a ha hbit with hbefore | hdef | hother
  · exact Bool.false_ne_true (hclear.symm.trans hbefore)
  · exact hdefault hdef
  · exact hother hm

/-! ## Bequests -/

/-- The pass is done with the first `n` bequests, and `mask` is what it has read before. -/
structure Midway (c : Cluster) (o : Pubkey) (v : VaultConfig) (as : List AssetAssignment)
    (mask : BitVec 64) (n : Nat) (w : World) (stuck : List Pubkey) : Prop where
  pending : Pending c o v as w
  /-- The bequests ahead are as they have been read. -/
  ahead : ∀ j, n ≤ j → Bitmask.test (w.estate c o).planBits j = true → bitSet mask j = true
  abandoned : Abandoned c o as w stuck

namespace Midway

variable {mask : BitVec 64} {n : Nat}

theorem next (h : Midway c o v as mask n w stuck) : Midway c o v as mask (n + 1) w stuck :=
  ⟨h.pending, fun j hj => h.ahead j (Nat.le_of_succ_le hj), h.abandoned⟩

/-- The bequest that the pass is at is not paid. -/
theorem clear (h : Midway c o v as mask n w stuck) (hclear : bitSet mask n = false) :
    Bitmask.test (w.estate c o).planBits n = false :=
  Bool.eq_false_iff.mpr fun hbit =>
    Bool.false_ne_true (hclear.symm.trans (h.ahead n le_rfl hbit))

theorem createAtas (h : Midway c o v as mask n w stuck) (accounts : List (Pubkey × Pubkey)) :
    Midway c o v as mask n (w.createAtas c accounts) stuck := by
  have hpending := h.pending.createAtas accounts
  obtain ⟨t, ht⟩ := createAtas_eq (c := c) w accounts
  rw [ht] at hpending ⊢
  exact ⟨hpending, h.ahead, h.abandoned⟩

/-- The payment of the bequest that the pass is at. -/
theorem pays (h : Midway c o v as mask n w stuck) {a : AssetAssignment} (ha : as[n]? = some a)
    (hfree : a.mint = .default ∨ a.mint ∉ stuck) {i : Instruction} (hexec : exec c i w = .ok w')
    (hi : i.distributes = true) (ho : i.vaultKey = .vault o)
    (hpays : ∀ x j, Pays i x j → j = n) : Midway c o v as mask (n + 1) w' stuck := by
  have hbits : ∀ j, Bitmask.test (w'.estate c o).planBits j = true →
      Bitmask.test (w.estate c o).planBits j = true ∨ j = n := by
    intro j hbit
    refine (h.pending.planBits hexec hi ho hbit).imp_right ?_
    rintro ⟨x, -, hx⟩
    exact hpays x j hx
  refine ⟨(h.pending.executed hexec hi ho).1, fun j hj hbit => ?_,
    h.abandoned.keep fun j x hx hbit => ?_⟩
  · rcases hbits j hbit with hbefore | rfl
    · exact h.ahead j (Nat.le_of_succ_le hj) hbefore
    · omega
  · refine (hbits j hbit).imp_right ?_
    rintro rfl
    obtain rfl := Option.some.inj (ha.symm.trans hx)
    exact hfree

theorem giveUp (h : Midway c o v as mask n w stuck) {a : AssetAssignment} (ha : as[n]? = some a)
    (hdefault : a.mint ≠ .default) (hclear : bitSet mask n = false) :
    Midway c o v as mask (n + 1) w (stuck ++ [a.mint]) := by
  refine ⟨h.pending, h.next.ahead, fun m hm => ?_⟩
  rcases List.mem_append.mp hm with hm | hm
  · exact h.abandoned m hm
  · obtain rfl := List.mem_singleton.mp hm
    exact ⟨hdefault, n, a, ha, rfl, h.clear hclear⟩

end Midway

/-- The turn of one bequest. -/
theorem Job.OnNode.specificBequest (hjob : job.OnNode c node) (hvault : job.vault = .vault o)
    {n : Nat} {a : AssetAssignment} (ha : as[n]? = some a) (mask : BitVec 64)
    (beneficiaries : List Beneficiary) (mints : List (Pubkey × ProgramId)) :
    Meets (fun r => Midway c o v as mask n r.net r.stuckMints)
      (job.specificBequest beneficiaries mints mask (a, n))
      (fun _ r => Midway c o v as mask (n + 1) r.net r.stuckMints)
      (fun _ r => Unfinished o v r.net) := by
  unfold Job.specificBequest
  dsimp only
  split
  · exact fun r hr => hr.next
  next hset =>
  have hclear : bitSet mask n = false := Bool.eq_false_iff.mpr hset
  have hunpaid : ∀ w stuck, Midway c o v as mask n w stuck → Unfinished o v w :=
    fun w stuck h => Unpaid.unfinished
      (.inr ⟨n, (List.getElem?_eq_some_iff.mp ha).1, h.clear hclear⟩) h.pending
  refine Meets.bind (Q := fun stuck r => Midway c o v as mask n r.net r.stuckMints ∧
    stuck = decide (a.mint ∈ r.stuckMints)) (fun r hr => ⟨hr, rfl⟩) fun given => ?_
  split
  · exact fun r hr => hr.1.next
  next hgo =>
  -- From here on the mint is none that was given up on.
  let P : World → List Pubkey → Prop := fun w stuck =>
    Midway c o v as mask n w stuck ∧ (a.mint = .default ∨ a.mint ∉ stuck)
  refine Meets.mono (P := fun r => P r.net r.stuckMints) ?_ (fun r hr => ⟨hr.1, ?_⟩)
    (fun _ _ h => h) fun _ _ h => h
  swap
  · by_cases hdefault : a.mint = .default
    · exact .inl hdefault
    · refine .inr fun hmem => hgo ?_
      rw [hr.2, decide_eq_true hmem]
      simp [hdefault]
  refine Meets.bind (Q := fun _ r => P r.net r.stuckMints) ?_ fun wallet => ?_
  · exact ((Silent.walletAt beneficiaries _).meets _ trivial).mono (fun _ h => h) (fun _ _ h => h)
      fun _ r h => hunpaid _ _ h.1
  refine Meets.tryCatch (E := fun _ r => P r.net r.stuckMints) ?_ fun e => ?_
  · have hsilent : ∀ {α : Type} {x : Routine World α}, Silent x →
        Meets (fun r => P r.net r.stuckMints) x (fun _ r => P r.net r.stuckMints)
          (fun _ r => P r.net r.stuckMints) := fun hx => hx.meets _ trivial
    split
    next hsol =>
      refine hjob.send_meets fun w w' stuck h hlands => ?_
      have hexec := Submission.exec_of_lands (i := .executeSpecificSol _ _) rfl rfl hlands
      exact h.1.pays ha h.2 hexec rfl hvault fun x j hx => hx.1
    next hasset =>
      refine (hsilent (Silent.getAssociatedTokenAddress ..)).bind fun vaultAta => ?_
      refine (hsilent (Silent.getAssociatedTokenAddress ..)).bind fun benAta => ?_
      refine Meets.bind (hjob.ensureAta_meets (P := P)
        (fun w stuck accounts h => ⟨h.1.createAtas accounts, h.2⟩) _ _ _ _) fun _ => ?_
      refine hjob.send_meets fun w w' stuck h hlands => ?_
      generalize ((mints.find? _).map _).getD _ = programId at hlands
      cases programId with
      | token program =>
          have hexec := Submission.exec_of_lands (i := .executeSpecificAsset _ _) rfl rfl hlands
          exact h.1.pays ha h.2 hexec rfl hvault fun x j hx => hx.1
      | other => cases hlands
  · split
    · exact fun r hr => hunpaid _ _ hr.1
    · split
      · exact fun r hr => hunpaid _ _ hr.1
      · split
        next hsol =>
          intro r hr
          show Midway c o v as mask (n + 1) r.net (Run.stuckMints ⟨r.net, r.log ++ [.skippedSol]⟩)
          have hsame : Run.stuckMints (σ := World) ⟨r.net, r.log ++ [.skippedSol]⟩ =
              r.stuckMints := by
            simp [Run.stuckMints]
          rw [hsame]
          exact hr.1.next
        next hasset =>
          intro r hr
          have hmore := stuckMints_markStuck r a.mint .executeSpecificAsset
          show Midway c o v as mask (n + 1) r.net (Run.stuckMints ⟨r.net, _⟩)
          rw [hmore]
          exact hr.1.giveUp ha (by simpa using hasset) hclear

/-- All of the bequests. -/
theorem Job.OnNode.specificBequests (hjob : job.OnNode c node) (hvault : job.vault = .vault o)
    {mask : BitVec 64} (beneficiaries : List Beneficiary) (mints : List (Pubkey × ProgramId)) :
    Meets (fun r => Midway c o v as mask 0 r.net r.stuckMints)
      (as.zipIdx.forM (job.specificBequest beneficiaries mints mask))
      (fun _ r => Midway c o v as mask as.length r.net r.stuckMints)
      (fun _ r => Unfinished o v r.net) := by
  have hloop := Meets.forM_prefix as.zipIdx (E := fun _ r => Unfinished o v r.net)
    (f := job.specificBequest beneficiaries mints mask)
    (I := fun done r => Midway c o v as mask done.length r.net r.stuckMints)
    fun done entry rest hdone => ?_
  · rwa [List.length_nil, List.length_zipIdx] at hloop
  · obtain ⟨a, n⟩ := entry
    have hentry : as.zipIdx[done.length]? = some (a, n) := by
      rw [hdone, List.getElem?_append_right le_rfl, Nat.sub_self, List.getElem?_cons_zero]
    rw [List.getElem?_zipIdx, Option.map_eq_some_iff] at hentry
    obtain ⟨x, hx, heq⟩ := hentry
    obtain ⟨rfl, rfl⟩ := Prod.mk.inj heq
    rw [List.length_append, List.length_singleton, Nat.zero_add]
    exact hjob.specificBequest hvault hx mask beneficiaries mints

/-! ## SOL shares -/

theorem flatten_chunk {α : Type} (xs : List α) {n : Nat} (hn : 0 < n) :
    (chunk xs n).flatten = xs := by
  have htake : ∀ m, ((List.range m).map fun k => (xs.drop (k * n)).take n).flatten =
      xs.take (m * n) := by
    intro m
    induction m with
    | zero => simp
    | succ m ih =>
        rw [List.range_succ, List.map_append, List.flatten_append, ih, Nat.succ_mul, List.take_add]
        simp
  unfold chunk
  rw [htake]
  refine List.take_of_length_le ?_
  have hdiv := Nat.lt_div_mul_add (a := xs.length + n - 1) hn
  omega

theorem ne_nil_of_mem_chunk {α : Type} {xs : List α} {n : Nat} (hn : 0 < n) {part : List α}
    (h : part ∈ chunk xs n) : part ≠ [] := by
  obtain ⟨k, hk, rfl⟩ := List.mem_map.mp h
  have hlt : k * n + n ≤ xs.length + n - 1 :=
    (Nat.succ_mul k n).symm.le.trans ((Nat.le_div_iff_mul_le hn).mp (List.mem_range.mp hk))
  rw [ne_eq, List.take_eq_nil_iff, List.drop_eq_nil_iff]
  omega

/-- The pass is done with these batches of shares, and `mask` is what it has read before. -/
structure Sharing (c : Cluster) (o : Pubkey) (v : VaultConfig) (as : List AssetAssignment)
    (mask : BitVec 32) (done : List (List Nat)) (w : World) (stuck : List Pubkey) : Prop where
  pending : Pending c o v as w
  ahead : ∀ i, (∀ part ∈ done, i ∉ part) → Bitmask.test (w.estate c o).shareBits i = true →
    bitSet mask i = true
  abandoned : Abandoned c o as w stuck

/-- The turn of one batch. -/
theorem Job.OnNode.solShares (hjob : job.OnNode c node) (hvault : job.vault = .vault o)
    {mask : BitVec 32} {done rest : List (List Nat)} {part : List Nat}
    (hparts : chunk (Job.unpaid v.beneficiaries mask) batch = done ++ part :: rest) :
    Meets (fun r => Sharing c o v as mask done r.net r.stuckMints)
      (job.solShares v.beneficiaries part)
      (fun _ r => Sharing c o v as mask (done ++ [part]) r.net r.stuckMints)
      (fun _ r => Unfinished o v r.net) := by
  have hflat := flatten_chunk (Job.unpaid v.beneficiaries mask) (n := batch) (by decide)
  have hmem : part ∈ chunk (Job.unpaid v.beneficiaries mask) batch := by
    rw [hparts]
    exact List.mem_append_right _ List.mem_cons_self
  -- An index of the batch that no batch before has had.
  obtain ⟨i, hi⟩ := List.exists_mem_of_ne_nil part (ne_nil_of_mem_chunk (by decide) hmem)
  obtain ⟨hrange, hclear⟩ : i < v.beneficiaries.length ∧ bitSet mask i = false := by
    have hall := List.mem_flatten_of_mem hmem hi
    rw [hflat] at hall
    simpa [Job.unpaid] using List.mem_filter.mp hall
  have hnew : ∀ part ∈ done, i ∉ part := by
    have hnodup : (done ++ part :: rest).flatten.Nodup := by
      rw [← hparts, hflat]
      exact List.nodup_range.filter _
    rw [List.flatten_append, List.flatten_cons] at hnodup
    intro p hp hip
    exact (List.nodup_append.mp hnodup).2.2 i (List.mem_flatten_of_mem hp hip) i
      (List.mem_append_left _ hi) rfl
  have hunpaid : ∀ w stuck, Sharing c o v as mask done w stuck → Unfinished o v w :=
    fun w stuck h => Unpaid.unfinished (.inl ⟨i, hrange, Bool.eq_false_iff.mpr fun hbit =>
      Bool.false_ne_true (hclear.symm.trans (h.ahead i hnew hbit))⟩) h.pending
  let P := Sharing c o v as mask done
  have hend : ∀ (e : JsError) (r : Run World), P r.net r.stuckMints → Unfinished o v r.net :=
    fun _ r h => hunpaid _ _ h
  unfold Job.solShares
  refine Meets.bind (hjob.guard_meets (P := P)) fun _ => ?_
  have hsilent : Silent (σ := World) (part.mapM fun i => do
      return (⟨← walletAt v.beneficiaries i, true⟩ : AccountMeta)) :=
    .mapM fun i => (Silent.walletAt ..).bind fun wallet => .pure _
  refine Meets.bind (Q := fun _ r => P r.net r.stuckMints)
    ((hsilent.meets _ trivial).mono (fun _ h => h) (fun _ _ h => h) hend) fun accounts => ?_
  refine (hjob.submit_meets (P := P) (Q := Sharing c o v as mask (done ++ [part]))
    fun w w' stuck h hlands => ?_).mono (fun _ h => h) (fun _ _ h => h) hend
  have hexec := Submission.exec_of_lands (i := .executeSolShares _ _) rfl rfl hlands
  refine ⟨(h.pending.executed hexec rfl hvault).1,
    fun i hi hbit => ?_, h.abandoned.keep fun j a _ hbit => ?_⟩
  · rcases solShares_marked hvault hexec hbit with hbefore | hpart
    · exact h.ahead i (fun p hp => hi p (List.mem_append_left _ hp)) hbefore
    · exact absurd hpart (hi part (List.mem_append_right _ (List.mem_singleton_self part)))
  · rcases h.pending.planBits hexec rfl hvault hbit with hbefore | ⟨_, _, hpays⟩
    · exact .inl hbefore
    · cases hpays

/-- All of the shares. -/
theorem Job.OnNode.solSharesAll (hjob : job.OnNode c node) (hvault : job.vault = .vault o)
    (mask : BitVec 32) :
    Meets (fun r => Sharing c o v as mask [] r.net r.stuckMints)
      ((chunk (Job.unpaid v.beneficiaries mask) batch).forM (job.solShares v.beneficiaries))
      (fun _ r => Pending c o v as r.net ∧ Abandoned c o as r.net r.stuckMints)
      (fun _ r => Unfinished o v r.net) := by
  have hloop := Meets.forM_prefix (chunk (Job.unpaid v.beneficiaries mask) batch)
    (E := fun _ (r : Run World) => Unfinished o v r.net)
    (I := fun done (r : Run World) => Sharing c o v as mask done r.net r.stuckMints)
    fun done part rest hdone => hjob.solShares hvault hdone
  exact hloop.mono (fun _ h => h) (fun _ _ h => ⟨h.pending, h.abandoned⟩) fun _ _ h => h

end DeadMansVault.Crank
