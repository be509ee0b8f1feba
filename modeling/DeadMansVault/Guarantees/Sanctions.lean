-- SUMMARY: No misdirection: after the begin of an execution only sanctioned payments leave the vault, each at most once.
import DeadMansVault.Estate.Sanctions
import DeadMansVault.Guarantees.Payouts

/-!
# No misdirection

Callers choose the arguments, the accounts and the order of the instructions.
Whatever they choose, what leaves a vault under execution is sanctioned, goes to
the wallet that it is for, and is never paid twice.
-/

namespace DeadMansVault

open World

variable {c : Cluster} {o : Pubkey} {s s' : World}

/-- Every refund of the instruction in progress has gone to `dest`. -/
def World.RefundsTo (dest : Pubkey) (s : World) : Prop :=
  ∀ mv ∈ s.moved, mv.purpose = .refund → mv.dest = dest

theorem World.RefundsTo.sendLamports {dest k : Pubkey} {n : Nat} {purpose : Purpose}
    (h : s.RefundsTo dest) : (s.sendLamports k dest n purpose).RefundsTo dest := by
  intro mv hmv hpurpose
  rw [sendLamports_moved] at hmv
  rcases List.mem_append.mp hmv with hmv | hmv
  · exact h mv hmv hpurpose
  · rw [List.mem_singleton.mp hmv]

theorem World.RefundsTo.closePlan {dest k : Pubkey} {v : VaultConfig} (h : s.RefundsTo dest) :
    (s.closePlan v k dest).RefundsTo dest := by
  unfold World.closePlan
  split
  · exact h.sendLamports
  · exact h

/-- Each step of an answer stands between two runs that only mark payments. -/
theorem Answers.split {e : Event} {acts : List Act} {E E' : Estate} (h : Answers c o e acts)
    (hacts : Trace (Estate.Step c o) E acts E') {a : Act} (ha : a ∈ acts) :
    ∃ F F' pre, E.Grows F ∧ Trace (Estate.Step c o) E pre F ∧ Estate.Step c o F a F' ∧
      F'.Grows E' := by
  rcases h.batched with ⟨b, rfl⟩ | hbatch
  · obtain rfl := List.mem_singleton.mp ha
    obtain ⟨_, hone, hnil⟩ := Trace.cons_iff.mp hacts
    obtain rfl := Trace.nil_iff.mp hnil
    exact ⟨E, _, [], .refl E, .nil E, hone, .refl _⟩
  · obtain ⟨F, F', pre, post, rfl, hpre, hone, hpost⟩ := hacts.mem_split ha
    refine ⟨F, F', pre, .run hpre fun b hb => ?_, hpre, hone, .run hpost fun b hb => ?_⟩
    · exact hbatch b (by simp [hb])
    · exact hbatch b (by simp [hb])

end DeadMansVault
