-- SUMMARY: Texts of keyed lines: the first line tells them apart, and the lines give the fields back.
import Mathlib.Data.List.Basic
import Mathlib.Data.String.Basic

/-!
# Lines

A text of lines joined by newlines. Its first line can be read off whatever the
others hold, and where no line holds a newline of its own the text has its lines.
-/

/-- A text without a newline. -/
def Plain (s : String) : Prop := '\n' ∉ s.toList

theorem plain_append {s t : String} (hs : Plain s) (ht : Plain t) : Plain (s ++ t) := by
  unfold Plain at *
  rw [String.toList_append, List.mem_append]
  exact not_or.mpr ⟨hs, ht⟩

theorem plain_of_forall {s : String} {p : Char → Bool} (h : s.toList.all p = true)
    (hp : p '\n' = false) : Plain s := by
  intro hmem
  exact Bool.noConfusion (hp.symm.trans (List.all_eq_true.mp h _ hmem))

theorem plain_repr (n : Nat) : Plain (toString n) := by
  intro hmem
  rw [Nat.toString_eq_repr, Nat.toList_repr] at hmem
  have hdigit := Nat.isDigit_of_mem_toDigits (by decide) (by decide) hmem
  exact absurd hdigit (by decide)

theorem toString_nat_inj {n m : Nat} (h : toString n = toString m) : n = m := by
  have hdigits : Nat.toDigits 10 n = Nat.toDigits 10 m := by
    rw [← Nat.toList_repr, ← Nat.toList_repr, ← Nat.toString_eq_repr, ← Nat.toString_eq_repr, h]
  rw [← Nat.ofDigitChars_ten_toDigits (n := n), hdigits, Nat.ofDigitChars_ten_toDigits]

/-! ## The first line -/

def firstLine (s : String) : List Char := s.toList.takeWhile (· ≠ '\n')

theorem firstLine_lines {d : String} {rest : List String} (hd : Plain d) :
    firstLine ("\n".intercalate (d :: rest)) = d.toList := by
  -- A plain text is taken whole, and what follows it begins with a newline.
  have htake : ∀ cs, (d.toList ++ cs).takeWhile (· ≠ '\n') = d.toList ++ cs.takeWhile (· ≠ '\n') :=
    fun cs => List.takeWhile_append_of_pos fun c hc => decide_eq_true (ne_of_mem_of_not_mem hc hd)
  unfold firstLine
  rw [String.toList_intercalate]
  cases rest with
  | nil =>
      rw [List.map_cons, List.map_nil, List.intercalate_singleton, ← List.append_nil d.toList]
      exact htake []
  | cons l rest =>
      rw [List.map_cons, List.map_cons, List.intercalate_cons_cons, List.append_assoc, htake]
      exact List.append_nil _

/-! ## Keyed lines -/

/-- The texts, each behind its key. -/
def keyed (keys texts : List String) : String :=
  "\n".intercalate (List.zipWith (· ++ ·) keys texts)

theorem lines_inj {ls ls' : List String} (h : ∀ l ∈ ls, Plain l) (h' : ∀ l ∈ ls', Plain l)
    (hne : ls ≠ []) (hne' : ls' ≠ []) (heq : "\n".intercalate ls = "\n".intercalate ls') :
    ls = ls' := by
  have hsplit : ∀ {ls : List String}, (∀ l ∈ ls, Plain l) → ls ≠ [] →
      List.splitOn '\n' ("\n".intercalate ls).toList = ls.map String.toList := by
    intro ls hls hne
    rw [String.toList_intercalate]
    refine List.splitOn_intercalate '\n' (fun l hl => ?_) (by simpa using hne)
    obtain ⟨s, hs, rfl⟩ := List.mem_map.mp hl
    exact hls s hs
  have hmap : ls.map String.toList = ls'.map String.toList := by
    rw [← hsplit h hne, ← hsplit h' hne', heq]
  exact List.map_injective_iff.mpr (fun _ _ => String.toList_inj.mp) hmap

theorem zipWith_append_inj {keys texts texts' : List String}
    (hlen : texts.length = keys.length) (hlen' : texts'.length = keys.length)
    (h : List.zipWith (· ++ ·) keys texts = List.zipWith (· ++ ·) keys texts') :
    texts = texts' := by
  induction keys generalizing texts texts' with
  | nil => rw [List.length_eq_zero_iff.mp hlen, List.length_eq_zero_iff.mp hlen']
  | cons key keys ih =>
      obtain ⟨t, ts, rfl⟩ := List.exists_cons_of_length_eq_add_one hlen
      obtain ⟨t', ts', rfl⟩ := List.exists_cons_of_length_eq_add_one hlen'
      rw [List.zipWith_cons_cons, List.zipWith_cons_cons, List.cons.injEq] at h
      rw [(String.append_right_inj key).mp h.1,
        ih (Nat.succ.inj hlen) (Nat.succ.inj hlen') h.2]

theorem plain_zipWith {keys texts : List String} (hkeys : ∀ k ∈ keys, Plain k)
    (htexts : ∀ t ∈ texts, Plain t) : ∀ l ∈ List.zipWith (· ++ ·) keys texts, Plain l := by
  intro l hl
  rw [← List.map_uncurry_zip_eq_zipWith] at hl
  obtain ⟨⟨k, t⟩, hmem, rfl⟩ := List.mem_map.mp hl
  obtain ⟨hk, ht⟩ := List.of_mem_zip hmem
  exact plain_append (hkeys k hk) (htexts t ht)

/-- Plain texts can be read back from behind their keys. -/
theorem keyed_inj {keys texts texts' : List String} (hne : keys ≠ [])
    (hkeys : ∀ k ∈ keys, Plain k) (hlen : texts.length = keys.length)
    (hlen' : texts'.length = keys.length) (htexts : ∀ t ∈ texts, Plain t)
    (htexts' : ∀ t ∈ texts', Plain t) (h : keyed keys texts = keyed keys texts') :
    texts = texts' := by
  have hlines : ∀ {ts : List String}, ts.length = keys.length →
      List.zipWith (· ++ ·) keys ts ≠ [] := by
    intro ts hts hnil
    have hzero := congrArg List.length hnil
    rw [List.length_zipWith, hts, Nat.min_self] at hzero
    exact hne (List.length_eq_zero_iff.mp hzero)
  exact zipWith_append_inj hlen hlen' (lines_inj (plain_zipWith hkeys htexts)
    (plain_zipWith hkeys htexts') (hlines hlen) (hlines hlen') h)
