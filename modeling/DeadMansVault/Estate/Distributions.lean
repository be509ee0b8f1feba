-- SUMMARY: The counter of open distributions, exact for as long as it does not saturate.
import Mathlib.Data.Set.Card
import DeadMansVault.Estate.Freeze

/-!
# Open distributions

`begin_token_dist` counts up with a saturating `u16` and `close_token_dist`
counts down. As long as no distribution is opened at the largest counter, the
counter is the number of open distributions, and then none outlives its vault.
-/

namespace DeadMansVault

namespace Estate

/-- The mints with an open distribution. -/
def openDists (E : Estate) : Set Pubkey := {m | (E.dists m).isSome = true}

structure Tallied (E : Estate) : Prop where
  closed : E.config = none → E.openDists = ∅
  count : ∀ v, E.config = some v → E.openDists.encard = v.openTokenDists
  logged : ∀ m d, E.dists m = some d → E.log.isSome = true
  mask : ∀ v m d, E.config = some v → E.dists m = some d →
    Bitmask.Sub d.paidMask (fullMaskU32 v.beneficiaries.length)

variable {c : Cluster} {o : Pubkey} {E E' : Estate}

/-- The step opens a distribution although the counter cannot count it. -/
def Overflows (E : Estate) (a : Act) : Prop :=
  ∃ m v, a.deed = .beginDist m ∧ E.config = some v ∧ u16Max ≤ v.openTokenDists

theorem openDists_open {dists : Pubkey → Option TokenDist} {m : Pubkey} {d : TokenDist}
    (hm : dists m = none) :
    {m' | (Function.update dists m (some d) m').isSome = true}.encard =
      {m' | (dists m').isSome = true}.encard + 1 := by
  have hset : {m' | (Function.update dists m (some d) m').isSome = true} =
      insert m {m' | (dists m').isSome = true} := by
    ext m'
    by_cases h : m' = m
    · simp [h]
    · simp [h]
  rw [hset, Set.encard_insert_of_notMem (by simp [hm])]

theorem openDists_close {dists : Pubkey → Option TokenDist} {m : Pubkey} {d : TokenDist}
    (hm : dists m = some d) :
    {m' | (Function.update dists m none m').isSome = true}.encard =
      {m' | (dists m').isSome = true}.encard - 1 := by
  have hset : {m' | (Function.update dists m none m').isSome = true} =
      {m' | (dists m').isSome = true} \ {m} := by
    ext m'
    by_cases h : m' = m
    · simp [h]
    · simp [h]
  rw [hset, Set.encard_sdiff_singleton_of_mem (by simp [hm])]

theorem openDists_mark {dists : Pubkey → Option TokenDist} {m : Pubkey} {d d' : TokenDist}
    (hm : dists m = some d) :
    {m' | (Function.update dists m (some d') m').isSome = true} =
      {m' | (dists m').isSome = true} := by
  ext m'
  by_cases h : m' = m
  · simp [h, hm]
  · simp [h]

theorem Step.openDists_beginDist {a : Act} {m : Pubkey} (h : Step c o E a E')
    (hdeed : a.deed = .beginDist m) : E'.openDists.encard = E.openDists.encard + 1 := by
  cases h with
  | beginDist _ _ hnone _ _ _ => exact openDists_open hnone
  | _ => cases hdeed

namespace Tallied

/-- An estate without a vault and without distributions. -/
theorem empty (hc : E.config = none) (hd : ∀ m, E.dists m = none) : Tallied E where
  closed _ := by simp [openDists, hd]
  count := by simp [hc]
  logged := by simp [hd]
  mask := by simp [hc]

theorem no_dist (hT : Tallied E) (hl : E.log = none) (m : Pubkey) : E.dists m = none := by
  cases hd : E.dists m with
  | none => rfl
  | some d =>
      have hsome := hT.logged m d hd
      simp [hl] at hsome

/-- Steps that leave the distributions, the counter and the log alone. -/
theorem keep (hT : Tallied E) {v v' : VaultConfig} (hv : E.config = some v)
    (hv' : E'.config = some v') (hd : E'.dists = E.dists)
    (hcount : v'.openTokenDists = v.openTokenDists)
    (hbenef : v'.beneficiaries = v.beneficiaries)
    (hl : E.log.isSome = true → E'.log.isSome = true) : Tallied E' where
  closed hc := by simp [hv'] at hc
  count w hw := by
    obtain rfl : v' = w := by simpa [hv'] using hw
    rw [hcount, ← hT.count v hv, openDists, openDists, hd]
  logged m d hm := hl (hT.logged m d (by rw [← hd, hm]))
  mask w m d hw hm := by
    obtain rfl : v' = w := by simpa [hv'] using hw
    rw [hbenef]
    exact hT.mask v m d hv (by rw [← hd, hm])

/-- Without any distribution only the counter is left to check. -/
theorem none_open (hd : ∀ m, E.dists m = none)
    (hcount : ∀ v, E.config = some v → v.openTokenDists = 0) : Tallied E where
  closed _ := by simp [openDists, hd]
  count v hv := by simp [openDists, hd, hcount v hv]
  logged := by simp [hd]
  mask := by simp [hd]

theorem count_zero (hT : Tallied E) {v : VaultConfig} (hv : E.config = some v)
    (hd : ∀ m, E.dists m = none) : v.openTokenDists = 0 := by
  have hcount := hT.count v hv
  simpa [openDists, hd] using hcount.symm

/-- Every step keeps the count exact, unless it opens one distribution too many. -/
theorem step (hE : Lawful c o E) (hT : Tallied E) {a : Act} (h : Step c o E a E')
    (hfit : ¬ Overflows E a) : Tallied E' := by
  cases h with
  | interfere _ _ _ => exact ⟨hT.closed, hT.count, hT.logged, hT.mask⟩
  | create hc _ hfresh _ _ _ _ =>
      have hd : ∀ m, E.dists m = none := by
        simpa [openDists, Set.eq_empty_iff_forall_notMem] using hT.closed hc
      refine none_open hd ?_
      rintro _ ⟨⟩
      exact hfresh.openTokenDists
  | amend hv hh hnow hedit _ _ _ =>
      have hd := hT.no_dist (hE.log_none hv hh hnow)
      refine none_open hd ?_
      rintro _ ⟨⟩
      rw [hedit.openTokenDists]
      exact hT.count_zero hv hd
  | withdraw _ _ _ _ => exact ⟨hT.closed, hT.count, hT.logged, hT.mask⟩
  | revoke hv hh hnow => exact none_open (hT.no_dist (hE.log_none hv hh hnow)) (by simp)
  | closeRevoked hv hactive hexec => exact absurd ⟨hactive, hexec⟩ (hE.active_or_executed hv)
  | begin hv _ hl _ _ _ =>
      exact hT.keep hv hv rfl rfl rfl (by simp)
  | @beginDist v l m hv hl hnone _ _ _ =>
      have hroom : v.openTokenDists < u16Max := by
        by_contra hfull
        exact hfit ⟨m, v, rfl, hv, by omega⟩
      have hcount := hT.count v hv
      refine ⟨by simp, ?_, fun _ _ _ => by simp [hl], ?_⟩
      · rintro _ ⟨⟩
        change Set.encard {m' | _} = _
        rw [openDists_open hnone]
        change E.openDists.encard + 1 = _
        rw [hcount, saturatingAdd, min_eq_left (by omega)]
        rfl
      · rintro _ m' d ⟨⟩ hd
        by_cases hm : m' = m
        · subst hm
          obtain rfl : _ = d := by simpa using hd
          exact Bitmask.sub_full_zero
        · exact hT.mask v m' d hv (by simpa [hm] using hd)
  | specificAsset hv _ _ _ _ _ _ _ _ _ _ => exact hT.keep hv hv rfl rfl rfl fun hl => hl
  | specificSol hv _ _ _ _ _ _ _ _ => exact hT.keep hv hv rfl rfl rfl fun hl => hl
  | solShare hv _ _ _ _ _ _ => exact hT.keep hv hv rfl rfl rfl (by simp)
  | @tokenShare v d m dest i b hv hd hb _ _ _ =>
      refine ⟨by simp [hv], ?_, ?_, ?_⟩
      · intro v' hv'
        change Set.encard {m' | _} = _
        rw [openDists_mark hd]
        exact hT.count v' hv'
      · intro m' d' hd'
        by_cases hm : m' = m
        · exact hT.logged m d hd
        · exact hT.logged m' d' (by simpa [hm] using hd')
      · intro v' m' d' hv' hd'
        obtain rfl : v = v' := by simpa [hv] using hv'
        by_cases hm : m' = m
        · subst hm
          obtain rfl : _ = d' := by simpa using hd'
          have hi := (List.getElem?_eq_some_iff.mp hb).1
          have hcount := (hE.accepted v hv).1.count.2
          exact Bitmask.sub_full_mark (hcount.trans (by decide)) (hT.mask v m' d hv hd) hi
        · exact hT.mask v m' d' hv (by simpa [hm] using hd')
  | finalize hv _ _ _ _ _ => exact hT.keep hv rfl rfl rfl rfl (by simp)
  | @closeDist v d m dest recipient hv _ hd _ _ =>
      have hcount := hT.count v hv
      refine ⟨by simp, ?_, ?_, ?_⟩
      · rintro _ ⟨⟩
        change Set.encard {m' | _} = _
        rw [openDists_close hd]
        change E.openDists.encard - 1 = _
        rw [hcount]
        rfl
      · intro m' d' hd'
        by_cases hm : m' = m
        · simp [hm] at hd'
        · exact hT.logged m' d' (by simpa [hm] using hd')
      · rintro _ m' d' ⟨⟩ hd'
        by_cases hm : m' = m
        · simp [hm] at hd'
        · exact hT.mask v m' d' hv (by simpa [hm] using hd')
  | @close v l dest recipient hv _ _ _ hzero _ =>
      have hcount := hT.count v hv
      rw [hzero] at hcount
      have hd : ∀ m, E.dists m = none := by
        simpa [openDists, Set.eq_empty_iff_forall_notMem] using hcount
      exact none_open hd (by simp)

end Tallied

/-! ## After the last distribution -/

/-- A vault, if there is one, is executed, counts no distribution and holds no tokens. -/
def Emptied (E : Estate) : Prop :=
  ∀ v, E.config = some v → v.executed = true ∧ v.openTokenDists = 0 ∧ ∀ m, E.holding m = 0

/-- Without deposits, an emptied estate opens distributions for planned mints only. -/
theorem Emptied.step (hE : Lawful c o E) (hempty : Emptied E) {a : Act} (h : Step c o E a E')
    (hcreate : a.deed ≠ .create)
    (hplanned : ∀ m, a.deed = .beginDist m → ∀ b ∈ E.assignments, b.mint ≠ m)
    (hquiet : a.deed = .interfere → ∀ m, E'.holding m ≤ E.holding m) : Emptied E' := by
  -- An executed vault has a log, so its owner's steps are over.
  have hliving : ∀ v, E.config = some v → a.deed.living = false := by
    intro v hv
    obtain ⟨l, hl, -⟩ := (hE.executed v hv).mp (hempty v hv).1
    exact (hE.due hl).not_living hE h
  intro v' hv'
  cases h with
  | create => exact absurd rfl hcreate
  | amend hv | withdraw hv => cases hliving _ hv
  | revoke | closeRevoked | close => cases hv'
  | interfere =>
      obtain ⟨hexec, hopen, hzero⟩ := hempty v' hv'
      exact ⟨hexec, hopen, fun m => Nat.le_zero.mp ((hquiet rfl m).trans (hzero m).le)⟩
  | begin => exact hempty v' hv'
  | @beginDist v _ m hv _ _ _ _ hwhy =>
      obtain ⟨-, -, hzero⟩ := hempty v hv
      rcases hwhy with hpos | ⟨b, hb, hm⟩
      · exact absurd (hzero m) (by omega)
      · rw [hE.registered_eq hv] at hb
        exact absurd hm (hplanned m rfl b hb)
  | specificAsset hv =>
      obtain rfl := Option.some.inj (hv.symm.trans hv')
      obtain ⟨hexec, hopen, hzero⟩ := hempty _ hv
      exact ⟨hexec, hopen, fun m => by simp [Function.update_apply, hzero]⟩
  | specificSol hv =>
      obtain rfl := Option.some.inj (hv.symm.trans hv')
      exact hempty _ hv
  | solShare hv hunexec =>
      rw [(hempty _ hv).1] at hunexec
      cases hunexec
  | tokenShare hv =>
      obtain rfl := Option.some.inj (hv.symm.trans hv')
      obtain ⟨hexec, hopen, hzero⟩ := hempty _ hv
      exact ⟨hexec, hopen, fun m => by simp [Function.update_apply, hzero]⟩
  | finalize hv _ hunexec =>
      rw [(hempty _ hv).1] at hunexec
      cases hunexec
  | closeDist hv =>
      obtain ⟨hexec, hopen, hzero⟩ := hempty _ hv
      cases hv'
      exact ⟨hexec, by simp [hopen], fun m => by simp [Function.update_apply, hzero]⟩

end Estate

end DeadMansVault
