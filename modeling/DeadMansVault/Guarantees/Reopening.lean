-- SUMMARY: When the counter of open distributions stays at zero after the last one is closed.
import DeadMansVault.Guarantees.Events
import DeadMansVault.Estate.Distributions
import DeadMansVault.Program.Scenario

/-!
# After the last close

`begin_token_dist` asks for a balance or for a bequest of the mint, and does not
ask whether the vault is executed. Without deposits and without bequests of the
mint nothing reopens an executed vault; a bequest, though paid long ago, lets
anyone do so.
-/

namespace DeadMansVault

open World

variable {c : Cluster} {o : Pubkey} {s s' : World}

/-- The event is an accepted instruction signed by `k`. -/
def Event.SignedBy (k : Pubkey) (e : Event) : Prop :=
  ∃ i moved, e = .executed i moved ∧ i.signer = k

/-- The event opens a distribution of a mint that the plan of the vault of `o` bequeaths. -/
def Event.OpensPlanned (c : Cluster) (o : Pubkey) (s : World) (e : Event) : Prop :=
  ∃ ctx moved, e = .executed (.beginTokenDist ctx) moved ∧ ctx.vaultConfig = .vault o ∧
    ∃ a ∈ (s.estate c o).assignments, a.mint = ctx.mint

/-- Only the owner creates a vault. -/
theorem Answers.not_create {e : Event} {acts : List Act} (h : Answers c o e acts)
    (hstep : Step c s e s') (hsign : ¬ e.SignedBy o) : ∀ a ∈ acts, a.deed ≠ .create := by
  intro a ha hdeed
  obtain ⟨i, moved, rfl, ho, hunf⟩ := h.own ha (by simp [hdeed])
  have hkind := hunf.kind _ (List.mem_map_of_mem ha)
  rw [hdeed] at hkind
  cases hstep with
  | executed hexec =>
      cases i with
      | initializeVault ctx =>
          obtain ⟨_, _, _, _, _, -, hseeds, -⟩ := initializeVault_ok hexec
          exact hsign ⟨_, _, rfl, Pubkey.vault.inj (hseeds.symm.trans ho)⟩
      | _ => simp [Deed.kinds, Instruction.kind] at hkind

/-- **The close gate stays open.** From an executed vault without open distributions
    and without tokens, a run without the owner and without deposits of tokens never
    reaches a state with an open distribution, as long as no distribution is opened
    for a mint that the plan bequeaths. -/
theorem close_gate_stays_open {v : VaultConfig} {es : List Event} (hreach : Reachable c s)
    (hv : s.vaultConfigs (.vault o) = some v) (hexec : v.executed = true)
    (hopen : v.openTokenDists = 0)
    (hempty : ∀ m, s.tokenAmounts (canonicalAta c (.vault o) m) = 0)
    (hrun : Trace (fun t e t' => Step c t e t' ∧ ¬ e.SignedBy o ∧
      (∀ m, t'.tokenAmounts (canonicalAta c (.vault o) m) ≤
        t.tokenAmounts (canonicalAta c (.vault o) m)) ∧ ¬ e.OpensPlanned c o t) s es s') :
    ∀ v', s'.vaultConfigs (.vault o) = some v' → v'.openTokenDists = 0 := by
  have hstart : (s.estate c o).Emptied := by
    intro w hw
    obtain rfl := Option.some.inj (hv.symm.trans hw)
    exact ⟨hexec, hopen, hempty⟩
  have hend := hrun.preserves
    (P := fun t => t.Sound c ∧ (t.estate c o).Lawful c o ∧ (t.estate c o).Emptied) ?_
    ⟨hreach.sound, hreach.lawful o, hstart⟩
  · exact fun v' hv' => (hend.2.2 v' hv').2.1
  rintro t e t' ⟨ht, hlaw, hE⟩ ⟨hstep, hsign, hquiet, hplan⟩
  obtain ⟨acts, hacts, hans⟩ := step_refines ht hstep o
  refine ⟨ht.step hstep, hlaw.run hacts, ?_⟩
  have hcreate := hans.not_create hstep hsign
  rcases hans.batched with ⟨a, rfl⟩ | hbatch
  · -- One step, which the side conditions of the event speak about.
    obtain ⟨_, hone, hnil⟩ := Trace.cons_iff.mp hacts
    obtain rfl := Trace.nil_iff.mp hnil
    refine hE.step hlaw hone (hcreate a (by simp)) (fun m hdeed b hb hm => ?_) fun _ => hquiet
    obtain ⟨ctx, moved, rfl, ho, rfl⟩ := hans.beginDist (List.mem_singleton_self a) hdeed
    exact hplan ⟨ctx, moved, rfl, ho, b, hb, hm⟩
  · have hrun := (hacts.restrict hbatch).preserves
      (P := fun E => E.Lawful c o ∧ E.Emptied)
      (fun E a E' ⟨hE, hS⟩ ⟨hone, hb⟩ => ⟨hE.step hone,
        hS.step hE hone (fun heq => by simp [heq, Deed.batched] at hb)
          (fun m heq => by simp [heq, Deed.batched] at hb)
          fun heq => by simp [heq, Deed.batched] at hb⟩)
      ⟨hlaw, hE⟩
    exact hrun.2

/-- Once the sample vault is settled, a distribution of a mint that it does not hold is refused,
    someone else creates a vault, and a minute passes. -/
theorem close_gate_stays_open_sample :
    let created := Sample.settled.cue Sample.cluster (.run Sample.strangerVault)
    ∃ v, (created.cue Sample.cluster (.wait 60)).vaultConfigs Sample.vault = some v ∧
      v.openTokenDists = 0 := by
  intro created
  have hreach := Sample.settled_reachable
  have hother : exec Sample.cluster Sample.strangerVault Sample.settled = .ok created :=
    exec_cue (by decide +kernel)
  have hwait : Environment Sample.cluster created (created.cue Sample.cluster (.wait 60)) :=
    (hreach.step (.executed hother)).sound.regular.wait (by decide +kernel)
  have hconfig : (created.cue Sample.cluster (.wait 60)).vaultConfigs Sample.vault =
      some { Sample.config with executed := true, active := false } := by
    decide +kernel
  obtain ⟨e, hrefused⟩ := exec_refused (c := Sample.cluster) (s := Sample.settled)
    (i := .beginTokenDist {
      Sample.beginTokenDist with
      mint := Sample.silver
      vaultAta := canonicalAta Sample.cluster Sample.vault Sample.silver
      tokenDist := .tokenDist Sample.vault Sample.silver }) (by decide +kernel)
  have hamounts : created.tokenAmounts = Sample.settled.tokenAmounts := by
    obtain ⟨_, _, _, _, _, -, -, -, -, -, -, -, -, -, -, -, -, -, -, -, -, -, heq⟩ :=
      initializeVault_ok hother
    rw [heq]
    rfl
  refine ⟨_, hconfig, close_gate_stays_open hreach Sample.settled_config rfl rfl
    Sample.settled_empty (.cons ⟨.rejected hrefused, ?_, fun m => le_rfl, ?_⟩
      (.cons ⟨.executed hother, ?_, fun m => by rw [hamounts], ?_⟩
        (.single ⟨.environment hwait, ?_, fun m => le_rfl, ?_⟩))) _ hconfig⟩
  all_goals
    rintro ⟨_, _, heq, _⟩
    cases heq
  cases ‹_›

/-- After the last close anyone reopens the distribution of a bequeathed mint. -/
theorem close_gate_reopens :
    ∃ s s' v v' es, Reachable Sample.cluster s ∧ s.vaultConfigs Sample.vault = some v ∧
      v.executed = true ∧ v.openTokenDists = 0 ∧
      (∀ m, s.tokenAmounts (canonicalAta Sample.cluster Sample.vault m) = 0) ∧
      Trace (fun t e t' => Step Sample.cluster t e t' ∧ ¬ e.SignedBy Sample.owner ∧
        ∀ m, t'.tokenAmounts (canonicalAta Sample.cluster Sample.vault m) ≤
          t.tokenAmounts (canonicalAta Sample.cluster Sample.vault m)) s es s' ∧
      s'.vaultConfigs Sample.vault = some v' ∧ 0 < v'.openTokenDists := by
  have hreach := Sample.settled_reachable
  have hbegin := Sample.settled_reopened
  refine ⟨Sample.settled, _, _, { Sample.config with
    executed := true, active := false, openTokenDists := 1 }, _, hreach, Sample.settled_config, rfl,
    rfl, Sample.settled_empty, .single ⟨.executed hbegin, ?_, fun m => ?_⟩, by decide +kernel,
    by decide⟩
  · rintro ⟨_, _, heq, hsigner⟩
    cases heq
    cases hsigner
  · obtain ⟨_, _, _, -, -, -, -, -, -, heq⟩ :=
      beginTokenDist_ok hreach.sound.regular.fresh.vacant hbegin
    rw [heq]
    rfl

end DeadMansVault
