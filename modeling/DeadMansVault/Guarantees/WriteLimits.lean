-- SUMMARY: The write limiter enforces its windows whether or not its maps are pruned, and what bounds the maps.
import Mathlib.Data.Int.ConditionallyCompleteOrder
import DeadMansVault.Notify.WriteRateLimiter

/-!
# What the write limiter guarantees

Pruning cannot be seen from outside: it deletes windows that have ended, and a window that
has ended is as good as none. So the log of hits on a key is that of a fixed-window counter.
-/

namespace DeadMansVault.Notify

open WriteLimiter

namespace WriteLimiter

variable {now : Nat → Int} {s r : WriteLimiter}

theorem getElem?_pruneMap (map : Buckets) (t : Int) (key : String) :
    (pruneMap map t)[key]? = Window.live t map[key]? := by
  rw [pruneMap, Std.HashMap.getElem?_filter']
  rfl

/-- What a hit finds under a key, whatever the size of the map. -/
theorem live_capped (map : Buckets) (t : Int) (key : String) :
    Window.live t (if mapCap < map.size then pruneMap map t else map)[key]? =
      Window.live t map[key]? := by
  split
  · rw [getElem?_pruneMap, Window.live_live (le_refl t)]
  · rfl

/-! ## The two limiters -/

/-- A limiter and another one agree on their logs and on all windows that have not ended. -/
structure Agree (now : Nat → Int) (s r : WriteLimiter) : Prop where
  reads : s.reads = r.reads
  log : s.log = r.log
  maps : ∀ (facet : Facet) (key : String),
    Window.live (now s.reads) (s.maps facet)[key]? = Window.live (now s.reads) (r.maps facet)[key]?

theorem Agree.hit (hclock : Monotone now) (h : Agree now s r) (facet : Facet) (key : String) :
    (hit pruneMap now s facet key).2 = (hit keepAll now r facet key).2 ∧
      Agree now (hit pruneMap now s facet key).1 (hit keepAll now r facet key).1 := by
  have hlater : now s.reads ≤ now (s.reads + 1) := hclock (Nat.le_succ _)
  -- Both limiters find the same window, as far as it has not ended.
  have hfound : ∀ key', Window.live (now s.reads)
      (if mapCap < (s.maps facet).size then pruneMap (s.maps facet) (now s.reads)
        else s.maps facet)[key']? = Window.live (now s.reads) (r.maps facet)[key']? := fun key' =>
    (live_capped _ _ key').trans (h.maps facet key')
  have hbucket : Window.charge facet.windowMs (now s.reads)
      (if mapCap < (s.maps facet).size then pruneMap (s.maps facet) (now s.reads)
        else s.maps facet)[key]? =
      Window.charge facet.windowMs (now s.reads) (r.maps facet)[key]? :=
    Window.charge_congr (hfound key)
  have hsame : (WriteLimiter.hit pruneMap now s facet key).2 =
      (WriteLimiter.hit keepAll now r facet key).2 := by
    simp only [WriteLimiter.hit, keepAll, ite_self, ← h.reads]
    rw [hbucket]
  refine ⟨hsame, ?_, ?_, ?_⟩
  · exact congrArg (· + 1) h.reads
  · exact congrArg₂ (fun log hit => log ++ [hit]) h.log hsame
  · intro facet' key'
    by_cases hf : facet' = facet
    · subst hf
      simp only [WriteLimiter.hit, keepAll, ite_self, Function.update_self, ← h.reads]
      rw [hbucket, Std.HashMap.getElem?_insert, Std.HashMap.getElem?_insert]
      split
      · rfl
      · exact Window.live_congr hlater (hfound key')
    · simp only [WriteLimiter.hit, Function.update_of_ne hf]
      exact Window.live_congr hlater (h.maps facet' key')

theorem Agree.checkAll (hclock : Monotone now) (h : Agree now s r) (checks : List (Facet × String)) :
    (checkAll pruneMap now s checks).2 = (checkAll keepAll now r checks).2 ∧
      Agree now (checkAll pruneMap now s checks).1 (checkAll keepAll now r checks).1 := by
  induction checks generalizing s r with
  | nil => exact ⟨rfl, h⟩
  | cons check rest ih =>
      obtain ⟨facet, key⟩ := check
      obtain ⟨hsame, hnext⟩ := h.hit hclock facet key
      rw [WriteLimiter.checkAll, WriteLimiter.checkAll]
      simp only [← hsame]
      split
      · exact ih hnext
      · exact ⟨rfl, hnext⟩

theorem Agree.sweep (hclock : Monotone now) (h : Agree now s r) :
    Agree now (sweep pruneMap now s) (sweep keepAll now r) := by
  refine ⟨congrArg (· + 1) h.reads, h.log, fun facet key => ?_⟩
  have hlater : now s.reads ≤ now (s.reads + 1) := hclock (Nat.le_succ _)
  simp only [WriteLimiter.sweep, keepAll, getElem?_pruneMap]
  rw [Window.live_live hlater]
  exact Window.live_congr hlater (h.maps facet key)

/-- The limiter that prunes and the one that never does answer every call alike. -/
theorem Agree.serve (hclock : Monotone now) (h : Agree now s r) (call : Call) :
    (serve pruneMap now s call).2 = (serve keepAll now r call).2 ∧
      Agree now (serve pruneMap now s call).1 (serve keepAll now r call).1 := by
  cases call with
  | sweep => exact ⟨rfl, h.sweep hclock⟩
  | checkIp k | checkOwner k | checkVault k | checkTokenHash k | checkAdminIp k
  | checkFacets owner vault tokenHash =>
      obtain ⟨hsame, hnext⟩ := h.checkAll hclock (Call.facets _)
      exact ⟨congrArg ([·]) hsame, hnext⟩

/-! ## The log of the limiter that never prunes -/

/-- The hits on a key, as the log of a fixed-window counter. -/
def counted (hits : List Hit) : List (Int × Window Int) :=
  hits.map fun h => (h.time, h.bucket)

/-- The maps hold what the log leaves known of each key. -/
structure Logged (now : Nat → Int) (s : WriteLimiter) : Prop where
  charged : ∀ facet key, Window.Charged facet.windowMs none (counted (s.hitsOn facet key))
  known : ∀ (facet : Facet) (key : String),
    (s.maps facet)[key]? = Window.after none (counted (s.hitsOn facet key))
  sorted : s.log.Pairwise fun h h' => h.time ≤ h'.time
  past : ∀ h ∈ s.log, h.time ≤ now s.reads

theorem Logged.make : Logged now make where
  charged := fun _ _ => trivial
  known := fun _ _ => Std.HashMap.getElem?_empty
  sorted := .nil
  past := by simp [WriteLimiter.make]

theorem hitsOn_hit (prune : Buckets → Int → Buckets) (facet facet' : Facet) (key key' : String) :
    (hit prune now s facet key).1.hitsOn facet' key' =
      s.hitsOn facet' key' ++
        if facet = facet' ∧ key = key' then [(hit prune now s facet key).2] else [] := by
  simp only [hitsOn, WriteLimiter.hit, List.filter_append, List.filter_cons, List.filter_nil,
    decide_eq_true_eq]

theorem Logged.hit (hclock : Monotone now) (h : Logged now s) (facet : Facet) (key : String) :
    Logged now (hit keepAll now s facet key).1 := by
  have hlater : now s.reads ≤ now (s.reads + 1) := hclock (Nat.le_succ _)
  have hbucket : (WriteLimiter.hit keepAll now s facet key).2.bucket =
      Window.charge facet.windowMs (now s.reads) (s.maps facet)[key]? := by
    simp only [WriteLimiter.hit, keepAll, ite_self]
  refine ⟨fun facet' key' => ?_, fun facet' key' => ?_, ?_, ?_⟩
  · rw [hitsOn_hit]
    split
    · rename_i heq
      obtain ⟨rfl, rfl⟩ := heq
      rw [counted, List.map_append, List.map_singleton, hbucket, h.known facet key]
      exact (h.charged facet key).snoc (now s.reads)
    · rw [List.append_nil]
      exact h.charged facet' key'
  · rw [hitsOn_hit]
    by_cases hf : facet' = facet
    · subst hf
      simp only [WriteLimiter.hit, keepAll, ite_self, Function.update_self,
        Std.HashMap.getElem?_insert, beq_iff_eq, true_and]
      split
      · rw [counted, List.map_append, Window.after_append]
        rfl
      · rw [List.append_nil]
        exact h.known facet' key'
    · rw [if_neg fun heq => hf heq.1.symm, List.append_nil]
      simp only [WriteLimiter.hit, Function.update_of_ne hf]
      exact h.known facet' key'
  · refine List.pairwise_append.mpr ⟨h.sorted, List.pairwise_singleton _ _, ?_⟩
    intro h₁ hmem h₂ hnew
    rw [List.mem_singleton.mp hnew]
    exact h.past h₁ hmem
  · intro h₁ hmem
    rcases List.mem_append.mp hmem with hmem | hmem
    · exact (h.past h₁ hmem).trans hlater
    · rw [List.mem_singleton.mp hmem]
      exact hlater

theorem Logged.checkAll (hclock : Monotone now) (h : Logged now s)
    (checks : List (Facet × String)) : Logged now (checkAll keepAll now s checks).1 := by
  induction checks generalizing s with
  | nil => exact h
  | cons check rest ih =>
      obtain ⟨facet, key⟩ := check
      rw [WriteLimiter.checkAll]
      simp only
      split
      · exact ih (h.hit hclock facet key)
      · exact h.hit hclock facet key

theorem Logged.serve (hclock : Monotone now) (h : Logged now s) (call : Call) :
    Logged now (serve keepAll now s call).1 := by
  cases call with
  | sweep =>
      refine ⟨h.charged, h.known, h.sorted, fun hit hmem => ?_⟩
      exact (h.past hit hmem).trans (hclock (Nat.le_succ _))
  | checkIp k | checkOwner k | checkVault k | checkTokenHash k | checkAdminIp k
  | checkFacets owner vault tokenHash => exact h.checkAll hclock (Call.facets _)

theorem logged_run (hclock : Monotone now) (calls : List Call) :
    Logged now (Machine.run (WriteLimiter.serve keepAll now) .make calls) :=
  Machine.preserves (P := fun _ s => Logged now s)
    (fun _ _ call h _ => h.serve hclock call) Machine.along_true Logged.make

/-! ## Verdicts -/

theorem Hit.ok_iff (h : Hit) : h.reply.ok = true ↔ h.bucket.count ≤ h.facet.max := by
  unfold Hit.reply
  split
  · simp only [Bool.false_eq_true, false_iff]
    omega
  · simp only [true_iff]
    omega

theorem Hit.retryAfter_pos {h : Hit} (hdenied : h.reply.ok = false) : 0 < h.reply.retryAfter := by
  have hcount : h.facet.max < h.bucket.count := by
    by_contra hle
    rw [(h.ok_iff).mpr (not_lt.mp hle)] at hdenied
    cases hdenied
  rw [Hit.reply, if_pos hcount]
  exact lt_of_lt_of_le Int.one_pos (le_max_left _ _)

/-- The wait that a denied hit is told lasts until its window ends. -/
theorem Hit.resetAt_le {h : Hit} (hdenied : h.reply.ok = false) :
    h.bucket.resetAt ≤ h.time + 1000 * h.reply.retryAfter := by
  have hcount : h.facet.max < h.bucket.count := by
    by_contra hle
    rw [(h.ok_iff).mpr (not_lt.mp hle)] at hdenied
    cases hdenied
  have hceil : (((h.bucket.resetAt - h.time : Int) : Rat) / 1000) ≤
      (Rat.ceil (((h.bucket.resetAt - h.time : Int) : Rat) / 1000) : Int) := Rat.le_ceil
  have hmul : ((h.bucket.resetAt - h.time : Int) : Rat) ≤
      ((1000 * Rat.ceil (((h.bucket.resetAt - h.time : Int) : Rat) / 1000) : Int) : Rat) := by
    rw [div_le_iff₀ (by norm_num)] at hceil
    push_cast at hceil ⊢
    linarith
  have hint := Int.cast_le.mp hmul
  rw [Hit.reply, if_pos hcount]
  have hmax := le_max_right (1 : Int) (Rat.ceil (((h.bucket.resetAt - h.time : Int) : Rat) / 1000))
  simp only
  omega

theorem facet_of_mem_hitsOn {facet : Facet} {key : String} {h : Hit}
    (hmem : h ∈ s.hitsOn facet key) : h.facet = facet := by
  have hkey := (List.mem_filter.mp hmem).2
  rw [decide_eq_true_eq] at hkey
  exact hkey.1

/-- The verdicts of the log, as the counter of the key gives them. -/
theorem verdicts_counted (facet : Facet) (key : String) :
    Window.verdicts facet.max (counted (s.hitsOn facet key)) =
      (s.hitsOn facet key).map fun h => (h.time, h.reply.ok) := by
  rw [Window.verdicts, counted, List.map_map]
  refine List.map_congr_left fun h hmem => Prod.ext rfl ?_
  rw [Bool.eq_iff_iff, h.ok_iff, facet_of_mem_hitsOn hmem]
  exact decide_eq_true_iff

/-! ## The windows -/

theorem Logged.windowed (h : Logged now s) (facet : Facet) (key : String) :
    Window.Windowed facet.max facet.windowMs
      ((s.hitsOn facet key).map fun h => (h.time, h.reply.ok)) := by
  have hsorted : (counted (s.hitsOn facet key)).Pairwise fun h h' => h.1 ≤ h'.1 :=
    List.pairwise_map.mpr (h.sorted.filter _)
  rw [← verdicts_counted]
  exact (h.charged facet key).windowed (fun t => Int.lt_add_of_pos_right t facet.windowMs_pos)
    facet.max hsorted

theorem Logged.granted_again (h : Logged now s) {facet : Facet} {key : String}
    {before between later : List Hit} {denied again : Hit}
    (hlog : s.hitsOn facet key = before ++ denied :: between ++ again :: later)
    (hdenied : denied.reply.ok = false) (hbetween : ∀ h' ∈ between, h'.reply.ok = false)
    (hwait : denied.time + 1000 * denied.reply.retryAfter ≤ again.time) :
    again.reply.ok = true := by
  have hcharged := h.charged facet key
  have hfacet : ∀ h' ∈ before ++ denied :: between ++ again :: later, h'.facet = facet :=
    fun h' hmem => facet_of_mem_hitsOn (hlog ▸ hmem)
  rw [hlog, counted, List.map_append, List.map_append] at hcharged
  have hcount := Window.Charged.granted_again facet.max_pos hcharged
    (by
      intro h' hmem
      obtain ⟨hit, hhit, rfl⟩ := List.mem_map.mp hmem
      have hno : ¬ hit.reply.ok = true := by
        rw [hbetween hit hhit]
        exact Bool.false_ne_true
      rw [hit.ok_iff, hfacet hit (by simp [hhit])] at hno
      exact not_le.mp hno)
    ((Hit.resetAt_le hdenied).trans hwait)
  rw [again.ok_iff, hfacet again (by simp)]
  exact hcount

/-- **Write windows.** However the clock advances and whatever the calls, the replies are
    those of a limiter that never prunes; the hits on each key fall into windows that grant
    their first `max` hits; and a denied hit is told to wait a positive number of seconds,
    after which the key is granted again unless a hit in between was. A hit after a denied
    one is granted only in a new window, so that none was means that none was opened. -/
theorem write_windows_hold (hclock : Monotone now) (calls : List Call) :
    Machine.outputs (WriteLimiter.serve pruneMap now) .make calls =
        Machine.outputs (WriteLimiter.serve keepAll now) .make calls ∧
      ∀ facet key,
        let log := (Machine.run (WriteLimiter.serve pruneMap now) .make calls).hitsOn facet key
        Window.Windowed facet.max facet.windowMs (log.map fun h => (h.time, h.reply.ok)) ∧
          (∀ h ∈ log, h.reply.ok = false → 0 < h.reply.retryAfter) ∧
          ∀ before denied between again later,
            log = before ++ denied :: between ++ again :: later →
            denied.reply.ok = false → (∀ h ∈ between, h.reply.ok = false) →
            denied.time + 1000 * denied.reply.retryAfter ≤ again.time → again.reply.ok = true := by
  have hstart : Agree now make make := ⟨rfl, rfl, fun _ _ => rfl⟩
  have hsteps : ∀ s r call, Agree now s r →
      (WriteLimiter.serve pruneMap now s call).2 = (WriteLimiter.serve keepAll now r call).2 ∧
        Agree now (WriteLimiter.serve pruneMap now s call).1
          (WriteLimiter.serve keepAll now r call).1 := fun _ _ call h => h.serve hclock call
  obtain ⟨houtputs, hagree⟩ := Machine.simulate hsteps hstart calls
  have hlogged := logged_run hclock calls
  refine ⟨houtputs, fun facet key => ?_⟩
  have hlog : (Machine.run (WriteLimiter.serve pruneMap now) make calls).hitsOn facet key =
      (Machine.run (WriteLimiter.serve keepAll now) make calls).hitsOn facet key := by
    rw [hitsOn, hagree.log]
    rfl
  simp only [hlog]
  refine ⟨hlogged.windowed facet key, fun h _ => Hit.retryAfter_pos, ?_⟩
  intro before denied between again later heq hdenied hbetween hwait
  exact hlogged.granted_again heq hdenied hbetween hwait

/-- A second lies between two readings, and a minute and a half before the sweep. -/
def sampleClock (i : Nat) : Int := if i < 31 then 1000 * i else 1000 * i + 90000

/-- Of the hits of one address in half a minute, the last is one too many. The sweep then prunes
    their window, and the address is back, with a registration. -/
theorem write_windows_hold_sample :
    let calls : List Call := List.replicate 31 (.checkIp "203.0.113.7") ++
      [.sweep, .checkIp "203.0.113.7", .checkFacets (some "owner") (some "vault") none]
    Machine.outputs (WriteLimiter.serve pruneMap sampleClock) .make calls =
        Machine.outputs (WriteLimiter.serve keepAll sampleClock) .make calls ∧
      ∀ facet key,
        let log := (Machine.run (WriteLimiter.serve pruneMap sampleClock) .make calls).hitsOn
          facet key
        Window.Windowed facet.max facet.windowMs (log.map fun h => (h.time, h.reply.ok)) ∧
          (∀ h ∈ log, h.reply.ok = false → 0 < h.reply.retryAfter) ∧
          ∀ before denied between again later,
            log = before ++ denied :: between ++ again :: later →
            denied.reply.ok = false → (∀ h ∈ between, h.reply.ok = false) →
            denied.time + 1000 * denied.reply.retryAfter ≤ again.time → again.reply.ok = true := by
  refine write_windows_hold (fun i j h => ?_) _
  unfold sampleClock
  split <;> split <;> omega

/-! ## The size of the maps -/

/-- Every map is within its cap, and one more. -/
def Bounded (s : WriteLimiter) : Prop :=
  ∀ facet, (s.maps facet).size ≤ mapCap + 1

/-- At each hit of a call, at most `mapCap` other keys of its map have a window that has not
    ended. -/
def Roomy (now : Nat → Int) (s : WriteLimiter) : List (Facet × String) → Prop
  | [] => True
  | (facet, key) :: rest =>
      ((pruneMap (s.maps facet) (now s.reads)).erase key).size ≤ mapCap ∧
        ((WriteLimiter.hit pruneMap now s facet key).2.reply.ok = true →
          Roomy now (WriteLimiter.hit pruneMap now s facet key).1 rest)

theorem size_pruneMap_le (map : Buckets) (t : Int) : (pruneMap map t).size ≤ map.size :=
  Std.HashMap.size_filter_le_size

theorem size_insert_le_iff (map : Buckets) (key : String) (b : Window Int) (n : Nat) :
    (map.insert key b).size ≤ n + 1 ↔ (map.erase key).size ≤ n := by
  rw [Std.HashMap.size_insert, Std.HashMap.size_erase]
  split <;> omega

/-- A hit keeps its map within the bound exactly when it finds room. -/
theorem size_hit_le_iff (s : WriteLimiter) (facet : Facet) (key : String) :
    (((WriteLimiter.hit pruneMap now s facet key).1.maps facet).size ≤ mapCap + 1) ↔
      ((pruneMap (s.maps facet) (now s.reads)).erase key).size ≤ mapCap := by
  simp only [WriteLimiter.hit, Function.update_self]
  rw [size_insert_le_iff]
  split
  · exact Iff.rfl
  · -- Within the cap the map is not pruned, and there is room in it either way.
    rename_i hcap
    have hall : ((s.maps facet).erase key).size ≤ (s.maps facet).size := Std.HashMap.size_erase_le
    have hlive : ((pruneMap (s.maps facet) (now s.reads)).erase key).size ≤
        (pruneMap (s.maps facet) (now s.reads)).size := Std.HashMap.size_erase_le
    have hpruned := size_pruneMap_le (s.maps facet) (now s.reads)
    constructor <;> intro <;> omega

theorem maps_hit_of_ne {facet facet' : Facet} (h : facet' ≠ facet) (s : WriteLimiter) (key : String) :
    (WriteLimiter.hit pruneMap now s facet key).1.maps facet' = s.maps facet' := by
  simp only [WriteLimiter.hit, Function.update_of_ne h]

/-- The maps of facets that are not checked stay as they are. -/
theorem maps_checkAll_of_notMem {facet : Facet} (s : WriteLimiter)
    {checks : List (Facet × String)} (h : facet ∉ checks.map (·.1)) :
    (WriteLimiter.checkAll pruneMap now s checks).1.maps facet = s.maps facet := by
  induction checks generalizing s with
  | nil => rfl
  | cons check rest ih =>
      obtain ⟨facet', key⟩ := check
      rw [List.map_cons, List.mem_cons, not_or] at h
      have hhit : (WriteLimiter.hit pruneMap now s facet' key).1.maps facet = s.maps facet :=
        maps_hit_of_ne h.1 s key
      rw [WriteLimiter.checkAll]
      simp only
      split
      · rw [ih _ h.2, hhit]
      · exact hhit

theorem bounded_hit_iff (h : Bounded s) (facet : Facet) (key : String) :
    Bounded (WriteLimiter.hit pruneMap now s facet key).1 ↔
      ((pruneMap (s.maps facet) (now s.reads)).erase key).size ≤ mapCap := by
  rw [← size_hit_le_iff]
  refine ⟨fun hnext => hnext facet, fun hsize facet' => ?_⟩
  by_cases hf : facet' = facet
  · rw [hf]
    exact hsize
  · rw [maps_hit_of_ne hf]
    exact h facet'

/-- A call checks no facet twice, so a map that a hit has made too large stays so. -/
theorem bounded_checkAll_iff (h : Bounded s) {checks : List (Facet × String)}
    (hfacets : (checks.map (·.1)).Nodup) :
    Bounded (WriteLimiter.checkAll pruneMap now s checks).1 ↔ Roomy now s checks := by
  induction checks generalizing s with
  | nil => exact ⟨fun _ => trivial, fun _ => h⟩
  | cons check rest ih =>
      obtain ⟨facet, key⟩ := check
      rw [List.map_cons, List.nodup_cons] at hfacets
      rw [WriteLimiter.checkAll, Roomy, ← bounded_hit_iff h]
      simp only
      split
      · rename_i hok
        constructor
        · intro hend
          have hhit : Bounded (WriteLimiter.hit pruneMap now s facet key).1 := by
            rw [bounded_hit_iff h, ← size_hit_le_iff, ← maps_checkAll_of_notMem _ hfacets.1]
            exact hend facet
          exact ⟨hhit, fun _ => (ih hhit hfacets.2).mp hend⟩
        · rintro ⟨hhit, hroomy⟩
          exact (ih hhit hfacets.2).mpr (hroomy hok)
      · rename_i hdenied
        exact ⟨fun hhit => ⟨hhit, fun hok => absurd hok hdenied⟩, fun hroomy => hroomy.1⟩

theorem Call.facets_nodup (call : Call) : (call.facets.map (·.1)).Nodup := by
  cases call with
  | checkFacets owner vault tokenHash =>
      cases owner <;> cases vault <;> cases tokenHash <;> simp [Call.facets]
  | _ => simp [Call.facets]

theorem bounded_serve_iff (h : Bounded s) (call : Call) :
    Bounded (WriteLimiter.serve pruneMap now s call).1 ↔ Roomy now s call.facets := by
  cases call with
  | sweep =>
      refine ⟨fun _ => trivial, fun _ facet => ?_⟩
      exact (size_pruneMap_le (s.maps facet) (now s.reads)).trans (h facet)
  | checkIp k | checkOwner k | checkVault k | checkTokenHash k | checkAdminIp k
  | checkFacets owner vault tokenHash => exact bounded_checkAll_iff h (Call.facets_nodup _)

theorem bounded_make : Bounded make := fun _ => Nat.zero_le _

/-- **Bounded write maps.** The maps stay within their cap and one more, all along a run,
    exactly when every hit of it finds room. -/
theorem write_maps_bounded_iff (now : Nat → Int) (calls : List Call) :
    (∀ done, done <+: calls → ∀ facet,
        ((Machine.run (WriteLimiter.serve pruneMap now) .make done).maps facet).size ≤ mapCap + 1) ↔
      Machine.Along (WriteLimiter.serve pruneMap now) (fun s call => Roomy now s call.facets) .make
        calls := by
  constructor
  · intro hbounded
    refine Machine.along_of_at_step fun before call after heq => ?_
    have hbefore : Bounded (Machine.run (WriteLimiter.serve pruneMap now) .make before) :=
      hbounded before ⟨_, heq.symm⟩
    have hnext : Bounded (Machine.run (WriteLimiter.serve pruneMap now) .make (before ++ [call])) :=
      hbounded (before ++ [call]) ⟨after, by rw [heq, List.append_assoc]; rfl⟩
    rw [Machine.run_append] at hnext
    exact (bounded_serve_iff hbefore call).mp hnext
  · rintro halong done ⟨after, rfl⟩
    exact Machine.preserves (P := fun _ s => Bounded s)
      (fun _ _ call h hroomy => (bounded_serve_iff h call).mpr hroomy)
      halong.of_append bounded_make

/-- Requests from `n` addresses within one minute. -/
def crowd (n : Nat) : List Call :=
  (List.range n).map fun i => .checkIp (toString i)

/-- They leave one entry each, and nothing for a prune to delete. -/
structure Crowded (n : Nat) (map : Buckets) : Prop where
  size : map.size = n
  live : ∀ key : String, Window.live 0 map[key]? = map[key]?
  fresh : ∀ i, n ≤ i → map[toString i]? = none

theorem Crowded.pruneMap {n : Nat} {map : Buckets} (h : Crowded n map) :
    Crowded n (pruneMap map 0) where
  size := by
    rw [← h.size]
    refine Std.HashMap.size_filter_eq_size_iff.mpr fun key hmem => ?_
    have hlive := h.live key
    rw [Std.HashMap.getElem?_eq_some_getElem hmem, Window.live_some] at hlive
    split at hlive
    · rename_i hlt
      exact decide_eq_true hlt
    · cases hlive
  live := fun key => by rw [getElem?_pruneMap, Window.live_live (le_refl 0)]
  fresh := fun i hi => by
    rw [getElem?_pruneMap, h.fresh i hi]
    rfl

theorem Crowded.hit {n : Nat} (h : Crowded n (s.maps .ip)) :
    Crowded (n + 1) ((WriteLimiter.hit WriteLimiter.pruneMap (fun _ => 0) s .ip (toString n)).1.maps
      .ip) := by
  -- Pruned or not, the map is as crowded.
  have hcapped : Crowded n (if mapCap < (s.maps .ip).size then WriteLimiter.pruneMap (s.maps .ip) 0
      else s.maps .ip) := by
    split
    · exact h.pruneMap
    · exact h
  simp only [WriteLimiter.hit, Function.update_self]
  generalize (if mapCap < (s.maps .ip).size then WriteLimiter.pruneMap (s.maps .ip) 0
    else s.maps .ip) = map at hcapped
  have hnew : toString n ∉ map := by
    rw [Std.HashMap.mem_iff_isSome_getElem?, hcapped.fresh n (Nat.le_refl n)]
    exact Bool.false_ne_true
  refine ⟨?_, fun key => ?_, fun i hi => ?_⟩
  · rw [Std.HashMap.size_insert, if_neg hnew, hcapped.size]
  · rw [Std.HashMap.getElem?_insert]
    split
    · rw [Window.live_some, if_pos]
      exact Window.lt_charge_resetAt (Int.lt_add_of_pos_right 0 Facet.ip.windowMs_pos) _
    · exact hcapped.live key
  · have hne : toString n ≠ toString i := fun heq => by
      have hdigits : Nat.toDigits 10 n = Nat.toDigits 10 i := by
        rw [← Nat.toList_repr, ← Nat.toList_repr]
        exact congrArg String.toList heq
      have hsame : n = i := by
        rw [← @Nat.ofDigitChars_ten_toDigits n, hdigits, Nat.ofDigitChars_ten_toDigits]
      omega
    rw [Std.HashMap.getElem?_insert, if_neg (by rwa [beq_iff_eq])]
    exact hcapped.fresh i (by omega)

theorem maps_serve_checkIp (prune : Buckets → Int → Buckets) (now : Nat → Int) (s : WriteLimiter)
    (k : String) : (WriteLimiter.serve prune now s (.checkIp k)).1.maps =
      (WriteLimiter.hit prune now s .ip k).1.maps := by
  simp only [WriteLimiter.serve, Call.facets, WriteLimiter.checkAll]
  split <;> rfl

theorem crowded_run (n : Nat) :
    Crowded n ((Machine.run (WriteLimiter.serve pruneMap fun _ => 0) .make (crowd n)).maps .ip) := by
  induction n with
  | zero =>
      exact ⟨Std.HashMap.size_empty, fun key => by
        simp [crowd, Machine.run, make, Window.live], fun i _ => Std.HashMap.getElem?_empty⟩
  | succ n ih =>
      rw [crowd, List.range_succ, List.map_append, Machine.run_append]
      have hnext := ih.hit
      rw [← maps_serve_checkIp] at hnext
      exact hnext

/-- Addresses enough overfill a map: nothing is there to prune while their windows last. -/
theorem write_maps_overfilled :
    ¬ ((Machine.run (WriteLimiter.serve pruneMap fun _ => 0) .make (crowd (mapCap + 2))).maps
      .ip).size ≤ mapCap + 1 := by
  rw [(crowded_run (mapCap + 2)).size]
  omega

end WriteLimiter

end DeadMansVault.Notify
