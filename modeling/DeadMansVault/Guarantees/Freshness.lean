-- SUMMARY: How old a verification of the network may be that the keeper's cache answers from.
import DeadMansVault.Crank.Readiness

/-!
# Freshness

The gate of a tick stamps the cache with the moment at which the genesis hash was
verified; a check that `revalidate` makes itself stamps it with the moment at which
its last RPC was over. The two agree only where no time goes by in between.
-/

namespace DeadMansVault

open Crank

/-- Whenever a run has got to some point, an answer from the cache rests on a genesis hash that
was verified less than the time to live ago, and not in the future. -/
def Fresh (cfg : KeeperConfig) (hs : List KeeperHappening) : Prop :=
  ∀ is t, is <+: hs →
    (Keeper.step cfg (Machine.run (Keeper.step cfg) {} is) (.revalidate t)).2 = [.reused t] →
    ∃ g, verifiedAt (Machine.outputs (Keeper.step cfg) {} is) = some g ∧
      t - revalidateTtlMs < g ∧ g ≤ t

/-- No check of `revalidate` ends well at another moment than its genesis hash was verified. -/
def Prompt (s : Keeper) (h : KeeperHappening) : Prop :=
  ∀ i now low genesisVerifiedAt, s.exited = false → h = .resume i (.returned now) →
    s.gateAt i = some (.revalidate, .returned (.ok low genesisVerifiedAt)) → now = genesisVerifiedAt

namespace Crank

@[simp] theorem verifiedAt_nil : verifiedAt [] = none := rfl

theorem verifiedAt_append_quiet {os os' : List KeeperOutput} (h : verifiedAt os' = none) :
    verifiedAt (os ++ os') = verifiedAt os := by
  unfold verifiedAt at *
  rw [List.getLast?_eq_none_iff] at h
  rw [List.filterMap_append, h, List.append_nil]

theorem verifiedAt_append_stamped {os os' : List KeeperOutput} {g : Int}
    (h : verifiedAt os' = some g) : verifiedAt (os ++ os') = some g := by
  unfold verifiedAt at *
  rw [List.filterMap_append, List.getLast?_append, h]
  rfl

/-- What a step may do to the stamp. -/
inductive Stamps (s : Keeper) (h : KeeperHappening) (s' : Keeper) (os : List KeeperOutput) : Prop
  | kept (hlast : s'.lastOkAt = s.lastOkAt) (hos : verifiedAt os = none)
  | tick {genesisVerifiedAt : Int} (hlast : s'.lastOkAt = some genesisVerifiedAt)
      (hos : verifiedAt os = some genesisVerifiedAt)
  | recheck {i : Nat} {now genesisVerifiedAt : Int} {low : Bool} (hexited : s.exited = false)
      (hh : h = .resume i (.returned now))
      (hgate : s.gateAt i = some (.revalidate, .returned (.ok low genesisVerifiedAt)))
      (hlast : s'.lastOkAt = some now) (hos : verifiedAt os = some genesisVerifiedAt)

theorem step_stamps (cfg : KeeperConfig) (s : Keeper) (h : KeeperHappening) :
    Stamps s h (Keeper.step cfg s h).1 (Keeper.step cfg s h).2 := by
  unfold Keeper.step
  split
  · exact .kept rfl rfl
  next hexited =>
    have hexited := eq_false_of_ne_true hexited
    cases h with
    | runOnce => exact .kept rfl rfl
    | revalidate now =>
        dsimp only
        split
        · exact .kept rfl rfl
        · exact .kept rfl rfl
    | resume i awaited =>
        dsimp only
        unfold Keeper.resume
        split
        · exact .kept rfl rfl
        next caller phase hgate =>
          split
          next result now =>
            cases result with
            | fatal reason => exact .kept rfl rfl
            | degraded reason => exact .kept rfl rfl
            | ok low g => exact .tick rfl rfl
          next result now =>
            cases result with
            | fatal reason => exact .kept rfl rfl
            | degraded reason => exact .kept rfl rfl
            | ok low g => exact .recheck hexited rfl hgate rfl rfl
          · exact .kept rfl rfl

theorem recheck_stamps (cfg : KeeperConfig) {s : Keeper} {h : KeeperHappening} {i : Nat}
    {now g : Int} {low : Bool} (hexited : s.exited = false) (hh : h = .resume i (.returned now))
    (hgate : s.gateAt i = some (.revalidate, .returned (.ok low g))) :
    (Keeper.step cfg s h).1.lastOkAt = some now ∧ (Keeper.step cfg s h).1.live = true ∧
      (Keeper.step cfg s h).1.exited = false ∧
      verifiedAt (Keeper.step cfg s h).2 = some g := by
  subst hh
  have hstep : Keeper.step cfg s (.resume i (.returned now)) =
      (s.setGate i none).rechecked now (.ok low g) := by
    simp only [Keeper.step, hexited, Keeper.resume, hgate]
    rfl
  rw [hstep]
  exact ⟨rfl, rfl, hexited, rfl⟩

/-- While every check is prompt, the stamp is the moment of the verification. -/
theorem stamp_of_prompt {cfg : KeeperConfig} {hs : List KeeperHappening}
    (h : Machine.Along (Keeper.step cfg) Prompt {} hs) :
    (Machine.run (Keeper.step cfg) {} hs).lastOkAt =
      verifiedAt (Machine.outputs (Keeper.step cfg) {} hs) := by
  refine Machine.preserves (P := fun os s => s.lastOkAt = verifiedAt os)
    (fun os s h hos hprompt => ?_) h rfl
  cases step_stamps cfg s h with
  | kept hlast hquiet => rw [hlast, hos, verifiedAt_append_quiet hquiet]
  | tick hlast hstamped => rw [hlast, verifiedAt_append_stamped hstamped]
  | recheck hexited hh hgate hlast hstamped =>
      rw [hlast, verifiedAt_append_stamped hstamped, hprompt _ _ _ _ hexited hh hgate]

theorem revalidate_reused (cfg : KeeperConfig) {s : Keeper} {t : Int} :
    (Keeper.step cfg s (.revalidate t)).2 = [.reused t] ↔
      s.exited = false ∧ s.live = true ∧
        ∃ ok, s.lastOkAt = some ok ∧ ok ≤ t ∧ t < ok + revalidateTtlMs := by
  have hreusable : s.reusable t = true ↔ s.live = true ∧
      ∃ ok, s.lastOkAt = some ok ∧ ok ≤ t ∧ t < ok + revalidateTtlMs := by
    simp only [Keeper.reusable, Bool.and_eq_true, Option.any_eq_true, decide_eq_true_eq]
    refine and_congr_right fun _ => exists_congr fun ok => and_congr_right fun _ => ?_
    omega
  rw [← hreusable]
  unfold Keeper.step
  cases s.exited with
  | true => simp
  | false => cases hr : s.reusable t <;> simp [hr]

end Crank

/-- In every run of the keeper: each answer from the cache is fresh, at every point and for
every reading of the clock, exactly when every check of `revalidate` was prompt. -/
theorem fresh_iff_prompt (cfg : KeeperConfig) (hs : List KeeperHappening) :
    Fresh cfg hs ↔ Machine.Along (Keeper.step cfg) Prompt {} hs := by
  constructor
  · intro hfresh
    -- Were a check late, one of the clock's next readings would find its stamp too young.
    refine Machine.along_of_at_step fun is h rest hhs => ?_
    intro i now low g hexited hh hgate
    have hrun : Machine.run (Keeper.step cfg) {} (is ++ [h]) =
        (Keeper.step cfg (Machine.run (Keeper.step cfg) {} is) h).1 := by
      rw [Machine.run_append]
      rfl
    have hout : Machine.outputs (Keeper.step cfg) {} (is ++ [h]) =
        Machine.outputs (Keeper.step cfg) {} is ++
          (Keeper.step cfg (Machine.run (Keeper.step cfg) {} is) h).2 := by
      rw [Machine.outputs_append]
      exact congrArg _ (List.append_nil _)
    obtain ⟨hlast, hlive, hstay, hstamped⟩ := recheck_stamps cfg hexited hh hgate
    have hanswer : ∀ t, now ≤ t → t < now + revalidateTtlMs →
        t - revalidateTtlMs < g ∧ g ≤ t := by
      intro t hle hlt
      have hreused := (revalidate_reused cfg).mpr ⟨hstay, hlive, now, hlast, hle, hlt⟩
      obtain ⟨g', hg', hfresh'⟩ := hfresh (is ++ [h]) t
        ⟨rest, by rw [hhs, List.append_assoc, List.singleton_append]⟩ (hrun ▸ hreused)
      rw [hout, verifiedAt_append_stamped hstamped] at hg'
      cases hg'
      exact hfresh'
    have hfuture := hanswer now le_rfl (by unfold revalidateTtlMs; omega)
    have hpast := hanswer (now + revalidateTtlMs - 1)
      (by unfold revalidateTtlMs; omega) (by omega)
    omega
  · intro hprompt is t hprefix hreused
    obtain ⟨rest, rfl⟩ := hprefix
    obtain ⟨_, _, ok, hlast, hle, hlt⟩ := (revalidate_reused cfg).mp hreused
    refine ⟨ok, ?_, by omega, hle⟩
    rw [← stamp_of_prompt hprompt.of_append, hlast]

/-- The genesis hash is verified at once, and the program's account takes ten seconds to come. -/
def slowCheck : List KeeperHappening :=
  [.revalidate 0, .resume 0 (.genesis (.ok "genesis") 0),
    .resume 0 (.program (.ok (.account true))), .resume 0 (.balance (.ok (some 10))),
    .resume 0 (.returned 10000)]

def slowConfig : KeeperConfig := ⟨fun _ => true, "genesis", 1, 1⟩

/-- A second after a slow check, the cache answers for a genesis hash of eleven seconds ago. -/
theorem slow_check_reused : ¬ Fresh slowConfig slowCheck := by
  intro hfresh
  obtain ⟨g, hg, hyoung, _⟩ := hfresh slowCheck 11000 List.prefix_rfl (by decide)
  have hverified : verifiedAt (Machine.outputs (Keeper.step slowConfig) {} slowCheck) = some 0 := by
    decide
  cases hverified.symm.trans hg
  exact absurd hyoung (by decide)

end DeadMansVault
