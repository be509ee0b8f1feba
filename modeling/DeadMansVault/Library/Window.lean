-- SUMMARY: Fixed-window counting of hits on one key, and what the log of such a counter says.
import Mathlib.Algebra.Order.Monoid.Defs
import Mathlib.Algebra.Order.Monoid.Unbundled.Basic
import Mathlib.Data.List.Basic

/-!
# Fixed windows

A fixed-window counter opens a window at the first hit it knows nothing about, counts the
hits until the window ends, and opens the next window at the first hit after that. Of each
window it grants the first `max` hits. Times are elements of any ordered additive monoid.
-/

variable {T : Type*}

/-- A window that has counted `count` hits, and ends at `resetAt`. -/
structure Window (T : Type*) where
  count : Nat
  resetAt : T
  deriving DecidableEq, Repr

namespace Window

variable [LinearOrder T]

/-- What is known of a key at time `t`: a window that has ended is as good as none. -/
def live (t : T) (known : Option (Window T)) : Option (Window T) :=
  known.filter fun b => t < b.resetAt

theorem live_none (t : T) : live t none = none := rfl

theorem live_some (t : T) (b : Window T) :
    live t (some b) = if t < b.resetAt then some b else none := by
  simp [live, Option.filter]

/-- Looking at a window later shows no more than looking at once. -/
theorem live_live {t t' : T} (h : t ≤ t') (known : Option (Window T)) :
    live t' (live t known) = live t' known := by
  cases known with
  | none => rfl
  | some b =>
      rw [live_some t b]
      split
      · rfl
      · rename_i hend
        rw [live_none, live_some, if_neg fun hlt => hend (lt_of_le_of_lt h hlt)]

theorem live_congr {t t' : T} {known known' : Option (Window T)} (hlater : t ≤ t')
    (h : live t known = live t known') : live t' known = live t' known' := by
  rw [← live_live hlater known, h, live_live hlater]

variable [Add T]

/-- Count one hit at time `t`, in a window of length `w`. -/
def charge (w t : T) (known : Option (Window T)) : Window T :=
  match live t known with
  | some b => { b with count := b.count + 1 }
  | none => ⟨1, t + w⟩

theorem charge_congr {w t : T} {known known' : Option (Window T)}
    (h : live t known = live t known') : charge w t known = charge w t known' := by
  rw [charge, charge, h]

theorem charge_of_lt {w t : T} {b : Window T} (h : t < b.resetAt) :
    charge w t (some b) = { b with count := b.count + 1 } := by
  rw [charge, live_some, if_pos h]

theorem charge_of_le {w t : T} {b : Window T} (h : b.resetAt ≤ t) :
    charge w t (some b) = ⟨1, t + w⟩ := by
  rw [charge, live_some, if_neg (not_lt.mpr h)]

/-- A window is not over when a hit has just been counted in it. -/
theorem lt_charge_resetAt {w t : T} (hw : t < t + w) (known : Option (Window T)) :
    t < (charge w t known).resetAt := by
  cases known with
  | none => exact hw
  | some b =>
      rcases lt_or_ge t b.resetAt with hlt | hge
      · rw [charge_of_lt hlt]
        exact hlt
      · rw [charge_of_le hge]
        exact hw

/-! ## Logs -/

/-- The hits of a log follow one another: each carries its time and the window that it left. -/
def Charged (w : T) : Option (Window T) → List (T × Window T) → Prop
  | _, [] => True
  | known, (t, b) :: log => b = charge w t known ∧ Charged w (some b) log

/-- What a log leaves known. -/
def after (known : Option (Window T)) (log : List (T × Window T)) : Option (Window T) :=
  log.foldl (fun _ h => some h.2) known

omit [LinearOrder T] [Add T] in
theorem after_append (known : Option (Window T)) (log log' : List (T × Window T)) :
    after known (log ++ log') = after (after known log) log' :=
  List.foldl_append

theorem charged_append {w : T} {known : Option (Window T)} {log log' : List (T × Window T)} :
    Charged w known (log ++ log') ↔ Charged w known log ∧ Charged w (after known log) log' := by
  induction log generalizing known with
  | nil => simp [Charged, after]
  | cons h log ih =>
      rw [List.cons_append, Charged, Charged, ih, and_assoc]
      rfl

/-- One more hit keeps the log in order. -/
theorem Charged.snoc {w : T} {known : Option (Window T)} {log : List (T × Window T)}
    (h : Charged w known log) (t : T) :
    Charged w known (log ++ [(t, charge w t (after known log))]) :=
  charged_append.mpr ⟨h, rfl, trivial⟩

/-! ## What a log grants -/

/-- The log, of times and verdicts, falls into windows of length `w`. Each is opened by its
    first hit and grants its first `max` hits; the next window starts after its end. -/
inductive Windowed (max : Nat) (w : T) : List (T × Bool) → Prop
  | nil : Windowed max w []
  | window {t : T} {hits rest : List (T × Bool)} :
      (∃ granted more, hits = (t, granted) :: more) →
      (∀ h ∈ hits, t ≤ h.1 ∧ h.1 < t + w) →
      (∀ i h, hits[i]? = some h → (h.2 = true ↔ i < max)) →
      (∀ h ∈ rest.head?, t + w ≤ h.1) →
      Windowed max w rest →
      Windowed max w (hits ++ rest)

/-- The verdicts of a counter that grants `max` hits a window. -/
def verdicts (max : Nat) (log : List (T × Window T)) : List (T × Bool) :=
  log.map fun h => (h.1, decide (h.2.count ≤ max))

/-- The hits that follow in an open window fall into the rest of that window and into later
    ones. -/
theorem Charged.split {w : T} (hw : ∀ t : T, t < t + w) (max : Nat) {log : List (T × Window T)}
    {b : Window T} (hcharged : Charged w (some b) log)
    (hsorted : log.Pairwise fun h h' => h.1 ≤ h'.1) :
    ∃ hits rest, verdicts max log = hits ++ rest ∧
      (∀ h ∈ hits, (∃ h' ∈ log, h.1 = h'.1) ∧ h.1 < b.resetAt) ∧
      (∀ i h, hits[i]? = some h → (h.2 = true ↔ b.count + i < max)) ∧
      (∀ h ∈ rest.head?, b.resetAt ≤ h.1) ∧ Windowed max w rest := by
  induction log generalizing b with
  | nil => exact ⟨[], [], rfl, by simp, by simp, by simp, .nil⟩
  | cons h log ih =>
      obtain ⟨t, b'⟩ := h
      obtain ⟨hb', hrest⟩ := hcharged
      rw [List.pairwise_cons] at hsorted
      obtain ⟨hits, rest, heq, htimes, hgrants, hhead, hwindowed⟩ := ih hrest hsorted.2
      have hcons :
          verdicts max ((t, b') :: log) = (t, decide (b'.count ≤ max)) :: (hits ++ rest) := by
        rw [verdicts, List.map_cons, ← heq, verdicts]
      rcases lt_or_ge t b.resetAt with hlt | hge
      · -- The hit counts in the open window.
        rw [charge_of_lt hlt] at hb'
        subst hb'
        refine ⟨(t, decide (b.count + 1 ≤ max)) :: hits, rest, hcons, ?_, ?_, hhead, hwindowed⟩
        · intro h hh
          rcases List.mem_cons.mp hh with rfl | hh
          · exact ⟨⟨_, List.mem_cons_self, rfl⟩, hlt⟩
          · obtain ⟨⟨h', hmem, ht⟩, hend⟩ := htimes h hh
            exact ⟨⟨h', List.mem_cons_of_mem _ hmem, ht⟩, hend⟩
        · intro i h hi
          cases i with
          | zero =>
              cases hi
              simp only [decide_eq_true_eq]
              omega
          | succ i =>
              have hgrant := hgrants i h (by simpa using hi)
              simp only at hgrant
              rw [hgrant]
              omega
      · -- The hit opens a window of its own.
        rw [charge_of_le hge] at hb'
        subst hb'
        refine ⟨[], (t, decide (1 ≤ max)) :: (hits ++ rest), hcons, by simp, by simp, ?_, ?_⟩
        · intro h hh
          cases hh
          exact hge
        · have hwithin : ∀ h ∈ (t, decide (1 ≤ max)) :: hits, t ≤ h.1 ∧ h.1 < t + w := by
            intro h hh
            rcases List.mem_cons.mp hh with rfl | hh
            · exact ⟨le_refl t, hw t⟩
            · obtain ⟨⟨h', hmem, ht⟩, hend⟩ := htimes h hh
              exact ⟨ht ▸ hsorted.1 h' hmem, hend⟩
          have hfirst : ∀ i h, ((t, decide (1 ≤ max)) :: hits)[i]? = some h →
              (h.2 = true ↔ i < max) := by
            intro i h hi
            cases i with
            | zero =>
                cases hi
                simp only [decide_eq_true_eq]
                omega
            | succ i =>
                have hgrant := hgrants i h (by simpa using hi)
                simp only at hgrant
                rw [hgrant]
                omega
          exact .window ⟨_, _, rfl⟩ hwithin hfirst hhead hwindowed

/-- A log from scratch falls into windows. -/
theorem Charged.windowed {w : T} (hw : ∀ t : T, t < t + w) (max : Nat) {log : List (T × Window T)}
    (hcharged : Charged w none log) (hsorted : log.Pairwise fun h h' => h.1 ≤ h'.1) :
    Windowed max w (verdicts max log) := by
  cases log with
  | nil => exact .nil
  | cons h log =>
      -- Before the first hit, nothing is known: as if a window had ended just then.
      obtain ⟨t, b⟩ := h
      have hstart : Charged w (some ⟨0, t⟩) ((t, b) :: log) := by
        refine ⟨?_, hcharged.2⟩
        rw [charge_of_le (le_refl t)]
        exact hcharged.1
      obtain ⟨hits, rest, heq, htimes, -, -, hwindowed⟩ := hstart.split hw max hsorted
      cases hits with
      | nil =>
          rw [heq]
          exact hwindowed
      | cons h hits =>
          -- No hit falls before the first one.
          obtain ⟨⟨h', hmem, ht⟩, hlt⟩ := htimes h List.mem_cons_self
          rw [List.pairwise_cons] at hsorted
          rcases List.mem_cons.mp hmem with rfl | hmem
          · rw [ht] at hlt
            exact absurd hlt (lt_irrefl t)
          · rw [ht] at hlt
            exact absurd hlt (not_lt.mpr (hsorted.1 h' hmem))

/-- Denied hits leave the window as it was, but for the count. -/
theorem Charged.resetAt_of_denied {w : T} {max : Nat} (hmax : 1 ≤ max)
    {log : List (T × Window T)} {b : Window T} (hcharged : Charged w (some b) log)
    (hdenied : ∀ h ∈ log, max < h.2.count) :
    ∃ count, after (some b) log = some ⟨count, b.resetAt⟩ := by
  induction log generalizing b with
  | nil => exact ⟨b.count, rfl⟩
  | cons h log ih =>
      obtain ⟨t, b'⟩ := h
      obtain ⟨hb', hrest⟩ := hcharged
      obtain ⟨count, hafter⟩ := ih hrest fun h hh => hdenied h (List.mem_cons_of_mem _ hh)
      have hcount : max < b'.count := hdenied (t, b') List.mem_cons_self
      -- A hit that opened a window would have been granted.
      rcases lt_or_ge t b.resetAt with hlt | hge
      · rw [charge_of_lt hlt] at hb'
        subst hb'
        exact ⟨count, hafter⟩
      · rw [charge_of_le hge] at hb'
        subst hb'
        exact absurd hcount (not_lt.mpr hmax)

/-- After a hit, and denied hits only since then, the first hit past the end of its window is
    granted. -/
theorem Charged.granted_again {w : T} {max : Nat} (hmax : 1 ≤ max) {known : Option (Window T)}
    {before between later : List (T × Window T)} {h again : T × Window T}
    (hcharged : Charged w known (before ++ h :: between ++ again :: later))
    (hdenied : ∀ h' ∈ between, max < h'.2.count) (hend : h.2.resetAt ≤ again.1) :
    again.2.count ≤ max := by
  rw [charged_append, charged_append] at hcharged
  obtain ⟨⟨-, -, hbetween⟩, hagain, -⟩ := hcharged
  obtain ⟨count, hafter⟩ := hbetween.resetAt_of_denied hmax hdenied
  have hknown : after known (before ++ h :: between) = some ⟨count, h.2.resetAt⟩ := by
    rw [after_append]
    exact hafter
  have hopens : charge w again.1 (some ⟨count, h.2.resetAt⟩) = ⟨1, again.1 + w⟩ := charge_of_le hend
  rw [hagain, hknown, hopens]
  exact hmax

end Window
