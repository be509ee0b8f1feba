-- SUMMARY: Reading the events of a run back from the estate steps that answer them.
import DeadMansVault.Guarantees.Gates

/-!
# Events and deeds

A claim about a run speaks of its events; the invariants speak of the steps of
an estate. The lemmas here say which events the deeds of a run can come from.
-/

namespace DeadMansVault

variable {c : Cluster} {o : Pubkey} {s s' : World}

/-- An answer with a deed of its own answers an instruction on the vault of `o`. -/
theorem Answers.own {e : Event} {acts : List Act} (h : Answers c o e acts) {a : Act}
    (ha : a ∈ acts) (hdeed : a.deed ≠ .interfere) :
    ∃ i moved, e = .executed i moved ∧ i.vaultKey = .vault o ∧
      i.Unfolds (acts.map (·.deed)) := by
  obtain ⟨-, hshape⟩ := h
  cases e with
  | rejected =>
      simp only at hshape
      simp [hshape] at ha
  | environment =>
      simp only at hshape
      rw [hshape, List.mem_singleton] at ha
      rw [ha] at hdeed
      exact absurd rfl hdeed
  | executed i moved =>
      simp only at hshape
      split at hshape
      · rename_i ho
        exact ⟨i, moved, rfl, ho, hshape⟩
      · rw [hshape, List.mem_singleton] at ha
        rw [ha] at hdeed
        exact absurd rfl hdeed

/-- The kinds of instructions that a deed can come from. -/
def Deed.kinds : Deed → List Kind
  | interfere => []
  | create => [.setup]
  | amend => [.owner, .agent]
  | withdraw | revoke => [.owner]
  | closeRevoked => [.closeRevoked]
  | begin => [.begin]
  | beginDist _ => [.openDist]
  | specificAsset _ _ | specificSol _ | solShare _ | tokenShare _ _ => [.payout]
  | finalize _ => [.finalize]
  | closeDist _ => [.closeDist]
  | close => [.close]

theorem Instruction.Unfolds.kind {i : Instruction} {deeds : List Deed} (h : i.Unfolds deeds) :
    ∀ d ∈ deeds, i.kind ∈ d.kinds := by
  intro d hd
  cases i with
  | executeSolShares =>
      obtain ⟨_, rfl⟩ := h d hd
      simp [Instruction.kind, Deed.kinds]
  | executeTokenShares =>
      obtain ⟨_, rfl⟩ := h d hd
      simp [Instruction.kind, Deed.kinds]
  | _ => simp_all [Instruction.Unfolds, Instruction.kind, Deed.kinds]

/-- An interference is all of its answer. -/
theorem Answers.interfere {e : Event} {acts : List Act} (h : Answers c o e acts) {a : Act}
    (ha : a ∈ acts) (hdeed : a.deed = .interfere) : acts = [⟨.interfere, []⟩] := by
  obtain ⟨-, hshape⟩ := h
  cases e with
  | rejected =>
      simp only at hshape
      simp [hshape] at ha
  | environment => exact hshape
  | executed i moved =>
      simp only at hshape
      split at hshape
      · have hkind := hshape.kind _ (List.mem_map_of_mem ha)
        rw [hdeed] at hkind
        cases hkind
      · exact hshape

/-- A property that every answer to an event of the run has, all its steps have. -/
theorem forall_acts {es : List Event} {actss : List (List Act)} {Q : Act → Prop}
    (h : List.Forall₂ (Answers c o) es actss)
    (hQ : ∀ e ∈ es, ∀ acts, Answers c o e acts → ∀ a ∈ acts, Q a) :
    ∀ a ∈ actss.flatten, Q a := by
  induction h with
  | nil => simp
  | cons hans _ ih =>
      intro a ha
      rw [List.flatten_cons, List.mem_append] at ha
      rcases ha with ha | ha
      · exact hQ _ (by simp) _ hans a ha
      · exact ih (fun e he => hQ e (List.mem_cons_of_mem _ he)) a ha

/-- The movements out of an estate over a run are those of its steps. -/
theorem moves_flatten {es : List Event} {actss : List (List Act)}
    (h : List.Forall₂ (Answers c o) es actss) :
    actss.flatten.flatMap (·.moves) =
      (es.flatMap Event.moved).filter (Movement.leaves c o) := by
  induction h with
  | nil => rfl
  | cons hans _ ih =>
      rw [List.flatten_cons, List.flatMap_append, List.flatMap_cons, List.filter_append, ih, hans.1]

/-! ## Closes -/

/-- The event is a close of the executed vault of `o`. -/
def Event.closes (o : Pubkey) : Event → Bool
  | executed i _ => decide (i.vaultKey = .vault o) && decide (i.kind = .close)
  | _ => false

theorem Answers.not_close {e : Event} {acts : List Act} (h : Answers c o e acts)
    (hopen : e.closes o = false) : ∀ a ∈ acts, a.deed ≠ .close := by
  intro a ha hdeed
  obtain ⟨i, moved, rfl, ho, hunf⟩ := h.own ha (by simp [hdeed])
  have hkind := hunf.kind _ (List.mem_map_of_mem ha)
  rw [hdeed] at hkind
  simp [Event.closes, ho, show i.kind = .close by simpa [Deed.kinds] using hkind] at hopen

/-! ## Finalizes -/

/-- The event finalizes the execution of the vault of `o`. -/
def Event.finalizes (o : Pubkey) : Event → Bool
  | executed i _ => decide (i.vaultKey = .vault o) && decide (i.kind = .finalize)
  | _ => false

theorem Answers.not_finalize {e : Event} {acts : List Act} (h : Answers c o e acts)
    (hopen : e.finalizes o = false) : ∀ a ∈ acts, ∀ payer, a.deed ≠ .finalize payer := by
  intro a ha payer hdeed
  obtain ⟨i, moved, rfl, ho, hunf⟩ := h.own ha (by simp [hdeed])
  have hkind := hunf.kind _ (List.mem_map_of_mem ha)
  rw [hdeed] at hkind
  simp [Event.finalizes, ho, show i.kind = .finalize by simpa [Deed.kinds] using hkind] at hopen

/-! ## Single deeds -/

theorem Instruction.Unfolds.single {i : Instruction} {deeds : List Deed} {d : Deed}
    (h : i.Unfolds deeds) (hmem : d ∈ deeds) (hd : d.batched = false) : deeds = [d] := by
  cases i with
  | executeSolShares =>
      obtain ⟨_, rfl⟩ := h _ hmem
      cases hd
  | executeTokenShares =>
      obtain ⟨_, rfl⟩ := h _ hmem
      cases hd
  | _ => simp_all [Instruction.Unfolds]

/-- A deed that no batch makes is the only one of its event. -/
theorem Answers.single {e : Event} {acts : List Act} (h : Answers c o e acts) {a : Act}
    (ha : a ∈ acts) (hd : a.deed.batched = false) : acts = [a] := by
  by_cases hint : a.deed = .interfere
  · have hall := h.interfere ha hint
    rw [hall, List.mem_singleton] at ha
    rw [hall, ha]
  · obtain ⟨_, _, -, -, hunf⟩ := h.own ha hint
    have hlen : acts.length = 1 := by
      simpa using congrArg List.length (hunf.single (List.mem_map_of_mem ha) hd)
    obtain ⟨b, rfl⟩ := List.length_eq_one_iff.mp hlen
    rw [List.mem_singleton.mp ha]

/-- An answer is one step, or the steps of a batch. -/
theorem Answers.batched {e : Event} {acts : List Act} (h : Answers c o e acts) :
    (∃ a, acts = [a]) ∨ ∀ a ∈ acts, a.deed.batched = true := by
  by_cases hall : ∀ a ∈ acts, a.deed.batched = true
  · exact .inr hall
  · push Not at hall
    obtain ⟨a, ha, hbatch⟩ := hall
    exact .inl ⟨a, h.single ha (by simpa using hbatch)⟩

/-- Only `begin_token_dist` opens a distribution. -/
theorem Answers.beginDist {e : Event} {acts : List Act} (h : Answers c o e acts) {a : Act}
    {m : Pubkey} (ha : a ∈ acts) (hdeed : a.deed = .beginDist m) :
    ∃ ctx moved, e = .executed (.beginTokenDist ctx) moved ∧ ctx.vaultConfig = .vault o ∧
      ctx.mint = m := by
  obtain ⟨i, moved, rfl, ho, hunf⟩ := h.own ha (by simp [hdeed])
  rw [h.single ha (by simp [hdeed, Deed.batched]), List.map_singleton, hdeed] at hunf
  cases i with
  | executeSolShares => simp [Instruction.Unfolds] at hunf
  | executeTokenShares => simp [Instruction.Unfolds] at hunf
  | beginTokenDist ctx => exact ⟨ctx, moved, rfl, ho, by simpa using hunf.symm⟩
  | _ => simp [Instruction.Unfolds] at hunf

/-- The event closes the distribution of `m` of the vault of `o`. -/
def Event.closesDist (o m : Pubkey) : Event → Bool
  | executed (.closeTokenDist ctx) _ =>
    decide (ctx.vaultConfig = .vault o) && decide (ctx.mint = m)
  | _ => false

theorem Answers.not_closeDist {e : Event} {acts : List Act} {m : Pubkey} (h : Answers c o e acts)
    (hopen : e.closesDist o m = false) : ∀ a ∈ acts, a.deed ≠ .closeDist m := by
  intro a ha hdeed
  obtain ⟨i, moved, rfl, ho, hunf⟩ := h.own ha (by simp [hdeed])
  rw [h.single ha (by simp [hdeed, Deed.batched]), List.map_singleton, hdeed] at hunf
  cases i with
  | executeSolShares => simp [Instruction.Unfolds] at hunf
  | executeTokenShares => simp [Instruction.Unfolds] at hunf
  | closeTokenDist ctx =>
      obtain rfl : m = ctx.mint := by simpa [Instruction.Unfolds] using hunf
      simp [Event.closesDist, show ctx.vaultConfig = .vault o from ho] at hopen
  | _ => simp [Instruction.Unfolds] at hunf

/-! ## Runs with side conditions -/

/-- A side condition on the steps of a run that each answer turns into one on the
    steps of the estate. -/
theorem run_refines_side {R : World → Event → World → Prop} {T : Estate → Act → Estate → Prop}
    {es : List Event} (hR : ∀ t e t', R t e t' → Step c t e t')
    (hT : ∀ t e t' acts, R t e t' → Answers c o e acts →
      Trace (Estate.Step c o) (t.estate c o) acts (t'.estate c o) →
      Trace T (t.estate c o) acts (t'.estate c o))
    (hs : s.Sound c) (h : Trace R s es s') :
    ∃ actss, List.Forall₂ (Answers c o) es actss ∧
      Trace T (s.estate c o) actss.flatten (s'.estate c o) := by
  have hsound := h.strengthen (P := World.Sound c) (fun _ _ _ hs hstep => hs.step (hR _ _ _ hstep)) hs
  refine hsound.simulate (f := fun t : World => t.estate c o) fun t e t' ⟨hstep, ht, _⟩ => ?_
  obtain ⟨acts, hacts, hans⟩ := step_refines ht (hR _ _ _ hstep) o
  exact ⟨acts, hT t e t' acts hstep hans hacts, hans⟩

/-- A condition that a single answer meets, and that no step of a batch can break, may
    be assumed at every step of the answer. -/
theorem Answers.sides {e : Event} {acts : List Act} {E E' : Estate}
    {Q : Estate → Act → Estate → Prop} (h : Answers c o e acts)
    (hacts : Trace (Estate.Step c o) E acts E') (hone : ∀ a, acts = [a] → Q E a E')
    (hbatch : ∀ F a F', a.deed.batched = true → Q F a F') :
    Trace (fun F a F' => Estate.Step c o F a F' ∧ Q F a F') E acts E' := by
  rcases h.batched with ⟨a, rfl⟩ | hall
  · obtain ⟨_, hstep, hnil⟩ := Trace.cons_iff.mp hacts
    obtain rfl := Trace.nil_iff.mp hnil
    exact .single ⟨hstep, hone a rfl⟩
  · exact (hacts.restrict hall).mono fun F a F' hstep => ⟨hstep.1, hbatch F a F' hstep.2⟩

/-- When a step brings an estate no more of some quantity, no interference in it does. -/
theorem Answers.quiet {e : Event} {acts : List Act} {E E' : Estate} {x : Estate → Nat}
    (h : Answers c o e acts) (hacts : Trace (Estate.Step c o) E acts E') (hle : x E' ≤ x E) :
    Trace (fun E a E' => Estate.Step c o E a E' ∧ (a.deed = .interfere → x E' ≤ x E)) E acts E' :=
  h.sides hacts (fun _ _ _ => hle) fun _ a _ hb hdeed => by simp [hdeed, Deed.batched] at hb

end DeadMansVault
