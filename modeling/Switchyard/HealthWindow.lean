import Switchyard.HealthHistory
set_option autoImplicit false

/-!
The ring buffers of internal/health: the window of a provider's samples
(passive.go) and its transition log (status.go), against the lists of all that
was written to them.
-/

namespace Switchyard.Health

abbrev SampleRing := RingLog Sample windowCapacity

def SampleRing.new : SampleRing := .empty ⟨0,0,false,false⟩ (by decide)

structure Tally where
  latencies : List Int
  errCount : Nat
  timeoutCount : Nat
  deriving DecidableEq, Repr

def Tally.add (now : Int) (t : Tally) (s : Sample) : Tally :=
  if windowDuration < now-s.time then t
  else ⟨t.latencies ++ [s.latency],if s.failed then t.errCount+1 else t.errCount,
    if s.timeout then t.timeoutCount+1 else t.timeoutCount⟩

/-- `stats` goes through the array from its start. -/
def SampleRing.stats (w : SampleRing) (now : Int) : Stats :=
  let t := (w.entries.toList.take w.count).foldl (Tally.add now) ⟨[],0,0⟩
  let n := t.latencies.length
  if n = 0 then ⟨0,0,0,0⟩
  else ⟨n,rate t.errCount n,rate t.timeoutCount n,
    ((t.latencies.insertionSort (· ≤ ·))[p99Index n]?).getD 0⟩

def exactStats (live : List Sample) : Stats :=
  if live = [] then ⟨0,0,0,0⟩
  else
    let n := live.length
    ⟨n,(live.countP (·.failed) : ℚ)/n,(live.countP (·.timeout) : ℚ)/n,
      (((live.map (·.latency)).insertionSort (· ≤ ·))[min (99*n/100) (n-1)]?).getD 0⟩

def Stats.rounded (s : Stats) : Stats :=
  { s with errorRate := Binary64.round s.errorRate, timeoutRate := Binary64.round s.timeoutRate }

def latestSamples (xs : List Sample) : List Sample := xs.drop (xs.length-windowCapacity)

section Window

variable {now : Int}

theorem foldl_tally (l : List Sample) (t : Tally) :
    l.foldl (Tally.add now) t = ⟨t.latencies ++ (Window.live l now).map (·.latency),
      t.errCount+(Window.live l now).countP (·.failed),
      t.timeoutCount+(Window.live l now).countP (·.timeout)⟩ := by
  induction l generalizing t with
  | nil => simp [Window.live]
  | cons s l ih =>
    rw [List.foldl_cons,ih]
    by_cases hold : windowDuration < now-s.time
    · have hdead : Window.live (s :: l) now = Window.live l now :=
        List.filter_cons_of_neg (by rw [decide_eq_true_eq,not_le]; exact hold)
      rw [hdead,Tally.add,if_pos hold]
    · have hkept : Window.live (s :: l) now = s :: Window.live l now :=
        List.filter_cons_of_pos (by rw [decide_eq_true_eq]; exact not_lt.1 hold)
      rw [hkept,Tally.add,if_neg hold]
      cases hfailed : s.failed <;> cases htimeout : s.timeout <;>
        simp [hfailed,htimeout,Nat.add_assoc,Nat.add_comm 1]

theorem insertionSort_congr {l l' : List Int} (h : l.Perm l') :
    l.insertionSort (· ≤ ·) = l'.insertionSort (· ≤ ·) :=
  ((List.perm_insertionSort _ l).trans
    (h.trans (List.perm_insertionSort _ l').symm)).eq_of_pairwise'
    (List.pairwise_insertionSort _ l) (List.pairwise_insertionSort _ l')

theorem Window.stats_congr {v w : Window} (h : v.Perm w) :
    Window.stats v now = Window.stats w now := by
  have hlive : (Window.live v now).Perm (Window.live w now) := h.filter _
  have hlatencies := insertionSort_congr (hlive.map (·.latency))
  have hempty : Window.live v now = [] ↔ Window.live w now = [] := by
    rw [← List.length_eq_zero_iff,← List.length_eq_zero_iff,hlive.length_eq]
  simp only [Window.stats,hempty,hlatencies,hlive.length_eq,hlive.countP_eq]

theorem SampleRing.stats_eq {w : SampleRing} (h : w.Packed) :
    w.stats now = Window.stats w.recent now := by
  rw [Window.stats_congr h.recent_perm,SampleRing.stats,foldl_tally]
  simp [Window.stats]

theorem rate_eq {k n : Nat} (hk : k ≤ 100) (hn : n ≤ 100) :
    rate k n = Binary64.round ((k : ℚ)/n) := by
  have hround : ∀ m : Nat,m ≤ 100 → Binary64.round (m : ℚ) = m := fun m hm => by
    have hsmall : |(m : Int)| < 2^53 := by
      rw [abs_of_nonneg (Int.natCast_nonneg m)]
      omega
    simpa using Binary64.round_intCast hsmall
  rw [rate,hround k hk,hround n hn]

theorem p99Index_eq : ∀ n ≤ 100,p99Index n = min (99*n/100) (n-1) := by
  decide +kernel

/-- For a window's hundred samples the float64 steps lose nothing but the last
rounding of the rates. -/
theorem Window.stats_exact {w : Window} (h : w.length ≤ windowCapacity) :
    Window.stats w now = (exactStats (Window.live w now)).rounded := by
  have hlength : (Window.live w now).length ≤ 100 := (List.length_filter_le _ _).trans h
  by_cases hempty : Window.live w now = []
  · have hzero : Binary64.round 0 = 0 := by
      simpa using Binary64.round_intCast (n := 0) (by decide)
    simp only [Window.stats,exactStats,if_pos hempty,Stats.rounded,hzero]
  · simp only [Window.stats,exactStats,if_neg hempty,Stats.rounded,p99Index_eq _ hlength,
      rate_eq (List.countP_le_length.trans hlength) hlength]

theorem exactStats_congr {l l' : List Sample} (h : l.Perm l') : exactStats l = exactStats l' := by
  have hlatencies := insertionSort_congr (h.map (·.latency))
  have hempty : l = [] ↔ l' = [] := by
    rw [← List.length_eq_zero_iff,← List.length_eq_zero_iff,h.length_eq]
  simp only [exactStats,hempty,hlatencies,h.length_eq,h.countP_eq]

theorem live_split (now : Int) {xs : List Sample} (h : xs.Pairwise fun a b => a.time ≤ b.time) :
    ∃ dead live,xs = dead ++ live ∧ Window.live dead now = [] ∧
      ∀ s ∈ live,now-s.time ≤ windowDuration := by
  induction xs with
  | nil => exact ⟨[],[],rfl,rfl,by simp⟩
  | cons s xs ih =>
    obtain ⟨hs,hxs⟩ := List.pairwise_cons.1 h
    by_cases hlive : now-s.time ≤ windowDuration
    · refine ⟨[],s :: xs,rfl,rfl,List.forall_mem_cons.2 ⟨hlive,fun r hr => ?_⟩⟩
      have hlater := hs r hr
      omega
    · obtain ⟨dead,live,rfl,hdead,hrest⟩ := ih hxs
      refine ⟨s :: dead,live,rfl,?_,hrest⟩
      exact (List.filter_cons_of_neg (by rwa [decide_eq_true_eq])).trans hdead

theorem live_latest {xs : List Sample} (h : xs.Pairwise fun a b => a.time ≤ b.time) :
    Window.live (latestSamples xs) now = latestSamples (Window.live xs now) := by
  obtain ⟨dead,live,rfl,hdead,hlive⟩ := live_split now h
  have hkept : ∀ n,Window.live (live.drop n) now = live.drop n := fun n =>
    List.filter_eq_self.2 fun s hs => decide_eq_true (hlive s (List.mem_of_mem_drop hs))
  have hdropped : ∀ n,Window.live (dead.drop n) now = [] := fun n => by
    rw [Window.live,List.filter_eq_nil_iff] at hdead ⊢
    exact fun s hs => hdead s (List.mem_of_mem_drop hs)
  have hall : Window.live (dead ++ live) now = live := by
    rw [Window.live,List.filter_append,← Window.live,hdead,List.nil_append]
    exact hkept 0
  have hcut : (dead ++ live).length-windowCapacity-dead.length = live.length-windowCapacity := by
    rw [List.length_append]
    omega
  rw [hall,latestSamples,List.drop_append,Window.live,List.filter_append,hcut]
  exact (congrArg₂ _ (hdropped _) (hkept _)).trans (List.nil_append _)

end Window

/-- The window's statistics are those of the last hundred samples not older than
sixty seconds, with the rates rounded to float64; which samples these are does not
depend on the order of the two limits. The log holds the last hundred
transitions. -/
theorem rings_keep_latest :
    (∀ (xs : List Sample) (now : Int),SampleRing.stats (SampleRing.new.appendAll xs) now =
      (exactStats (Window.live (latestSamples xs) now)).rounded) ∧
    (∀ (xs : List Sample) (now : Int),xs.Pairwise (fun a b => a.time ≤ b.time) →
      Window.live (latestSamples xs) now = latestSamples (Window.live xs now)) ∧
    ∀ ts : List Transition,(Tracked.new.history.appendAll ts).recent =
        ts.reverse.take transitionHistoryCapacity ∧
      (Tracked.new.history.appendAll ts).last = ts.getLast? := by
  refine ⟨fun xs now => ?_,fun xs now h => live_latest h,fun ts => ?_⟩
  · have hpacked : (SampleRing.new.appendAll xs).Packed := RingLog.Packed.appendAll (.inr rfl) xs
    have hrecent : (SampleRing.new.appendAll xs).recent = (latestSamples xs).reverse := by
      rw [RingLog.recent_appendAll _ _ rfl]
      exact List.take_reverse
    have hlength : (latestSamples xs).reverse.length ≤ windowCapacity := by
      rw [List.length_reverse,latestSamples,List.length_drop]
      omega
    rw [SampleRing.stats_eq hpacked,hrecent,Window.stats_exact hlength]
    exact congrArg Stats.rounded (exactStats_congr ((List.reverse_perm _).filter _))
  · have hrecent := RingLog.recent_appendAll Tracked.new.history ts rfl
    refine ⟨hrecent,?_⟩
    rw [RingLog.last_eq,hrecent,List.head?_take,List.head?_reverse]
    rfl

def everySecond : List Sample :=
  (List.range 102).map fun i => ⟨i*1000000000,5,i % 2 = 0,false⟩

/-- The ring drops two of them, and the age another 39. -/
theorem rings_keep_latest_minute :
    let now : Int := 101*1000000000
    (latestSamples everySecond).length = 100 ∧
      (Window.live (latestSamples everySecond) now).length = 61 ∧
      Window.live (latestSamples everySecond) now = latestSamples (Window.live everySecond now) ∧
      SampleRing.stats (SampleRing.new.appendAll everySecond) now =
        (exactStats (Window.live (latestSamples everySecond) now)).rounded := by
  obtain ⟨hstats,hlimits,-⟩ := rings_keep_latest
  exact ⟨by decide +kernel,by decide +kernel,hlimits everySecond _ (by decide +kernel),
    hstats everySecond _⟩

def oneOfThree : List Sample := [⟨0,5,true,false⟩,⟨1,7,false,false⟩,⟨2,6,false,true⟩]

/-- A third is not a float64. -/
theorem error_rate_inexact : (SampleRing.stats (SampleRing.new.appendAll oneOfThree) 2).errorRate ≠
    (exactStats (Window.live (latestSamples oneOfThree) 2)).errorRate := by
  decide +kernel

end Switchyard.Health
