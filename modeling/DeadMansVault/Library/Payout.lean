-- SUMMARY: Runs of a pot: in whatever order it pays, what it has paid depends on the paid debts alone.
import Mathlib.Data.List.Perm.Basic
import Mathlib.Data.List.Range
import DeadMansVault.Library.Pot
import DeadMansVault.Library.Trace

/-!
# Runs of a pot

`Pot.Step` pays one debt at a time, and lets deposits in. Shares come in any
order; a bequest waits for the earlier ones. `Pot.Settles` is the invariant of
the runs: it names the payments made so far by the debts that are marked, so two
runs that mark the same debts have paid the same, up to the order.
-/

namespace Pot

/-- What a pot owes: shares below `n`, and bequests below `m`. -/
structure Terms where
  n : ℕ
  share : ℕ → ℕ
  m : ℕ
  bequest : ℕ → ℕ

/-- The state of a pot: its paid debts and its balance. -/
structure Pool where
  paidShare : ℕ → Bool
  paidBequest : ℕ → Bool
  balance : ℕ

inductive Entry
  | share (i amount : ℕ)
  | bequest (j amount : ℕ)
  | deposit (amount : ℕ)
  deriving DecidableEq

/-- What an entry takes out of the pot. -/
def Entry.paid : Entry → ℕ
  | share _ amount => amount
  | bequest _ amount => amount
  | deposit _ => 0

/-- What an entry puts into the pot. -/
def Entry.deposited : Entry → ℕ
  | deposit amount => amount
  | _ => 0

inductive Step (T : Terms) : Pool → Entry → Pool → Prop
  | share {p : Pool} {i : ℕ} : i < T.n → p.paidShare i = false →
      Step T p (.share i (T.share i))
        { p with paidShare := marked p.paidShare i, balance := p.balance - T.share i }
  | bequest {p : Pool} {j : ℕ} : j < T.m → p.paidBequest j = false →
      (T.bequest j = 0 ∨ ∀ k < j, T.bequest k = 0 ∨ p.paidBequest k = true) →
      Step T p (.bequest j (min (T.bequest j) p.balance))
        { p with
          paidBequest := marked p.paidBequest j
          balance := p.balance - min (T.bequest j) p.balance }
  | deposit {p : Pool} (x : ℕ) : Step T p (.deposit x) { p with balance := p.balance + x }

/-- What bequest `j` gets of a pot of `total`: its amount, as far as the earlier
    bequests leave that much. -/
def taken (T : Terms) (total j : ℕ) : ℕ :=
  min (T.bequest j) (total - ∑ k ∈ Finset.range j, T.bequest k)

/-- The payments of the marked debts, each as the list `f` makes of it. -/
def payments {β : Type*} (T : Terms) (total : ℕ) (f : Entry → List β) (p : Pool) : List β :=
  ((List.range T.n).filter p.paidShare).flatMap (fun i => f (.share i (T.share i))) ++
    ((List.range T.m).filter p.paidBequest).flatMap (fun j => f (.bequest j (taken T total j)))

/-- A pot of `total` whose payments so far are those of its marked debts. -/
structure Settles {β : Type*} (T : Terms) (total reserve : ℕ) (f : Entry → List β)
    (es : List Entry) (p : Pool) : Prop where
  balanced : Balanced T.n T.share T.m T.bequest total p.paidShare p.paidBequest reserve p.balance
  ordered : ∀ j k, j < k → T.bequest j ≠ 0 → T.bequest k ≠ 0 → p.paidBequest k = true →
    p.paidBequest j = true
  out : (es.flatMap f).Perm (payments T total f p)

variable {β : Type*} {T : Terms} {total reserve : ℕ} {f : Entry → List β} {p p' : Pool}
  {es : List Entry}

/-! ## Marking one more debt -/

/-- Marking a debt adds it to the marked ones. -/
theorem filter_marked {n i : ℕ} {paid : ℕ → Bool} (hi : i < n) (hp : paid i = false) :
    ((List.range n).filter (marked paid i)).Perm (i :: (List.range n).filter paid) := by
  have hnot : i ∉ (List.range n).filter paid := by simp [hp]
  apply (List.perm_ext_iff_of_nodup (List.nodup_range.filter _)
    (List.nodup_cons.mpr ⟨hnot, List.nodup_range.filter _⟩)).mpr
  intro k
  by_cases hk : k = i
  · subst hk
    simp [marked, hi]
  · simp [marked, hk]

theorem payments_share {i : ℕ} (hi : i < T.n) (hp : p.paidShare i = false) (b : ℕ) :
    (payments T total f p ++ f (.share i (T.share i))).Perm
      (payments T total f { p with paidShare := marked p.paidShare i, balance := b }) := by
  have hmark := (filter_marked hi hp).flatMap_right (fun i => f (.share i (T.share i)))
  rw [List.flatMap_cons] at hmark
  refine List.perm_append_comm.trans ?_
  rw [payments, ← List.append_assoc]
  exact (hmark.symm.append_right _)

theorem payments_bequest {j : ℕ} (hj : j < T.m) (hp : p.paidBequest j = false) (b : ℕ) :
    (payments T total f p ++ f (.bequest j (taken T total j))).Perm
      (payments T total f { p with paidBequest := marked p.paidBequest j, balance := b }) := by
  have hmark := (filter_marked hj hp).flatMap_right (fun j => f (.bequest j (taken T total j)))
  rw [List.flatMap_cons] at hmark
  rw [payments, List.append_assoc]
  exact (List.perm_append_comm.trans hmark.symm).append_left _

/-! ## The invariant -/

namespace Settles

/-- A pot none of whose debts is paid yet. Debts of nothing may be marked. -/
theorem start {snapshot : ℕ} (hf : ∀ e, e.paid = 0 → f e = [])
    (hsnap : snapshot = total - ∑ j ∈ Finset.range T.m, T.bequest j - reserve)
    (hshare : ∑ i ∈ Finset.range T.n, T.share i ≤ snapshot) (hs : ∀ i < T.n, p.paidShare i = false)
    (hb : ∀ j < T.m, T.bequest j = 0 ∨ p.paidBequest j = false)
    (hm : ∀ j, T.bequest j ≠ 0 → j < T.m) (hbal : p.balance = total) :
    Settles T total reserve f [] p where
  balanced := by
    rw [hbal]
    exact .start hsnap hshare hs hb
  ordered j k _ _ hk hpaid := by
    rcases hb k (hm k hk) with hzero | hclear
    · exact absurd hzero hk
    · rw [hclear] at hpaid
      cases hpaid
  out := by
    have hnone : payments T total f p = [] := by
      unfold payments
      rw [List.append_eq_nil_iff, List.flatMap_eq_nil_iff, List.flatMap_eq_nil_iff]
      constructor
      · intro i hi
        obtain ⟨hlt, hpaid⟩ := List.mem_filter.mp hi
        rw [hs i (List.mem_range.mp hlt)] at hpaid
        cases hpaid
      · intro j hj
        obtain ⟨hlt, hpaid⟩ := List.mem_filter.mp hj
        rcases hb j (List.mem_range.mp hlt) with hzero | hclear
        · exact hf _ (by simp [Entry.paid, taken, hzero])
        · rw [hclear] at hpaid
          cases hpaid
    rw [hnone]
    exact .nil

/-- A step keeps the invariant, when deposits come to a funded pot only. -/
theorem step {e : Entry} (hf : ∀ e, e.paid = 0 → f e = []) (h : Settles T total reserve f es p)
    (hstep : Step T p e p')
    (hdep : ∑ j ∈ Finset.range T.m, T.bequest j + reserve ≤ total ∨ e.deposited = 0) :
    Settles T total reserve f (es ++ [e]) p' := by
  have hout := h.out
  cases hstep with
  | @share i hi hclear =>
      refine ⟨h.balanced.pay_share hi hclear, h.ordered, ?_⟩
      rw [List.flatMap_append, List.flatMap_singleton]
      exact (hout.append_right _).trans (payments_share hi hclear _)
  | @bequest j hj hclear hlow =>
      have htaken : min (T.bequest j) p.balance = taken T total j := by
        rcases hlow with hzero | hlow
        · simp [taken, hzero]
        · -- No later bequest is paid before `j` is.
          by_cases hzero : T.bequest j = 0
          · simp [taken, hzero]
          · refine h.balanced.min_bequest hj hclear hlow fun k hk _ => ?_
            by_cases hkz : T.bequest k = 0
            · exact .inl hkz
            · refine .inr ?_
              by_contra hpaid
              have hjk : j ≠ k := by
                rintro rfl
                exact hpaid hclear
              have := h.ordered j k (by omega) hzero hkz (by simpa using hpaid)
              rw [hclear] at this
              cases this
      refine ⟨h.balanced.pay_bequest hj hclear, ?_, ?_⟩
      · intro a b hab ha hb hpaid
        simp only [marked, Bool.or_eq_true, decide_eq_true_eq] at hpaid ⊢
        rcases hpaid with hpaid | rfl
        · exact .inl (h.ordered a b hab ha hb hpaid)
        · rcases hlow with hzero | hlow
          · exact absurd hzero hb
          · exact (hlow a hab).elim (fun hz => absurd hz ha) .inl
      · rw [List.flatMap_append, List.flatMap_singleton, htaken]
        exact (hout.append_right _).trans (payments_bequest hj hclear _)
  | deposit x =>
      refine ⟨h.balanced.deposit (Nat.le_add_right _ _) (hdep.imp_right ?_), h.ordered, ?_⟩
      · intro hzero
        rw [show x = 0 from hzero, Nat.add_zero]
      · rw [List.flatMap_append, List.flatMap_singleton, hf (.deposit x) rfl, List.append_nil]
        exact hout

/-- So does a run. -/
theorem run (hf : ∀ e, e.paid = 0 → f e = []) (h : Settles T total reserve f [] p)
    (hrun : Trace (Step T) p es p')
    (hdep : ∑ j ∈ Finset.range T.m, T.bequest j + reserve ≤ total ∨ ∀ e ∈ es, e.deposited = 0) :
    Settles T total reserve f es p' := by
  have hrun := hrun.restrict (Q := fun e => ∑ j ∈ Finset.range T.m, T.bequest j + reserve ≤ total ∨
    e.deposited = 0) fun e he => hdep.imp_right fun hall => hall e he
  exact hrun.preserves_history (P := Settles T total reserve f)
    (fun _ _ _ _ hs hstep => hs.step hf hstep.1 hstep.2) h

/-- Once every debt is marked, all payments of the pot are known. -/
theorem payments_eq (hs : ∀ i < T.n, p.paidShare i = true) (hb : ∀ j < T.m, p.paidBequest j = true) :
    payments T total f p = (List.range T.n).flatMap (fun i => f (.share i (T.share i))) ++
      (List.range T.m).flatMap (fun j => f (.bequest j (taken T total j))) := by
  have hshares : (List.range T.n).filter p.paidShare = List.range T.n := by
    rw [List.filter_eq_self]
    intro i hi
    exact hs i (List.mem_range.mp hi)
  have hbequests : (List.range T.m).filter p.paidBequest = List.range T.m := by
    rw [List.filter_eq_self]
    intro j hj
    exact hb j (List.mem_range.mp hj)
  rw [payments, hshares, hbequests]

end Settles

/-! ## Accounting -/

/-- What the entries of a run put into the pot. -/
def deposits (es : List Entry) : ℕ := (es.map Entry.deposited).sum

/-- A pot that covers its debts, since it held `total` with `owed` in bequests unpaid and
    no share paid; `back` has come in. -/
structure Accounted (T : Terms) (total owed back : ℕ) (p : Pool) : Prop where
  covered : Covered T.n T.share T.m T.bequest p.paidShare p.paidBequest 0 p.balance
  balance : p.balance + settled T.n p.paidShare T.share + owed =
    total + back + unpaid T.m p.paidBequest T.bequest

namespace Accounted

variable {owed back : ℕ}

theorem start (hs : ∀ i < T.n, p.paidShare i = false)
    (hcov : ∑ i ∈ Finset.range T.n, T.share i + unpaid T.m p.paidBequest T.bequest ≤ p.balance) :
    Accounted T p.balance (unpaid T.m p.paidBequest T.bequest) 0 p where
  covered := by
    unfold Covered
    rw [unpaid_all_clear hs]
    omega
  balance := by rw [settled_all_clear hs]

theorem step {e : Entry} (h : Accounted T total owed back p) (hstep : Step T p e p') :
    Accounted T total owed (back + e.deposited) p' := by
  obtain ⟨hcov, hbal⟩ := h
  cases hstep with
  | @share i hi hclear =>
      refine ⟨hcov.pay_share hi hclear, ?_⟩
      have hle := hcov.share_le hi hclear
      rw [settled_mark hi hclear]
      simp only [Entry.deposited]
      omega
  | @bequest j hj hclear _ =>
      refine ⟨hcov.pay_bequest hj hclear, ?_⟩
      have hfull := hcov.min_bequest hj hclear
      rw [unpaid_mark hj hclear] at hbal
      simp only [Entry.deposited]
      omega
  | deposit x =>
      refine ⟨hcov.mono (Nat.le_add_right _ _), ?_⟩
      simp only [Entry.deposited]
      omega

theorem run (h : Accounted T total owed back p) (hrun : Trace (Step T) p es p') :
    Accounted T total owed (back + deposits es) p' := by
  induction hrun generalizing back with
  | nil => exact h
  | @cons p₁ p₂ p₃ e es hstep _ ih =>
      have hrest := ih (h.step hstep)
      rwa [Nat.add_assoc] at hrest

/-- Once every debt is marked, the pot has paid its shares and what was owed. -/
theorem finish (h : Accounted T total owed back p) (hs : ∀ i < T.n, p.paidShare i = true)
    (hb : ∀ j < T.m, p.paidBequest j = true) :
    p.balance + ∑ i ∈ Finset.range T.n, T.share i + owed = total + back := by
  have hbal := h.balance
  rw [unpaid_all_paid hb] at hbal
  rw [settled_all_paid hs] at hbal
  exact hbal

end Accounted

/-- A funded pot pays its bequests in full. -/
theorem taken_of_funded (hfund : ∑ j ∈ Finset.range T.m, T.bequest j ≤ total) {j : ℕ}
    (hj : j < T.m) : taken T total j = T.bequest j := by
  have hprefix : ∑ k ∈ Finset.range j, T.bequest k + T.bequest j ≤
      ∑ k ∈ Finset.range T.m, T.bequest k := by
    rw [← Finset.sum_range_succ]
    exact Finset.sum_le_sum_of_subset (Finset.range_mono hj)
  unfold taken
  omega

end Pot
