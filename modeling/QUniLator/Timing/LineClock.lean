import Mathlib.Data.List.Chain

namespace QUniLator.Timing

open List

def billion : Nat := 1000000000

/-- `intr_period_ns` -/
def intrPeriodNs (frequency : Nat) : Int := (billion/frequency : Nat)

/-- `ltc_c::worker` before a turn of its loop, with the world time and the ticks that were issued, the last one
first -/
structure LineClock where
  now : Int
  worldNextIntr : Int
  ticks : List Int
  deriving DecidableEq,Repr

/-- What one turn meets: whether the clock is enabled, how long it takes from the tick to the look at the world
time, and by how much `wait_ns` returns late -/
structure LtcDelay where
  enabled : Bool
  running : Nat
  waking : Nat
  deriving DecidableEq,Repr

def LtcDelay.sum (d : LtcDelay) : Int := d.running+d.waking

namespace LineClock
variable (period : Int)

def waitTime (nowNs worldNextIntr : Int) : Int :=
  let missing := nowNs-worldNextIntr
  let wait := period-missing
  if wait<period/2 then period/2 else wait

def turn (s : LineClock) (d : LtcDelay) : LineClock :=
  let nowNs := s.now+d.running
  { now := nowNs+waitTime period nowNs s.worldNextIntr+d.waking
    worldNextIntr := s.worldNextIntr+period
    ticks := if d.enabled then s.now::s.ticks else s.ticks }

/-- The worker has begun at `t0` and comes to its first turn `late` after. -/
def start (t0 : Int) (late : Nat) : LineClock := ⟨t0+late,t0,[]⟩

def run (t0 : Int) (late : Nat) (ds : List LtcDelay) : LineClock := ds.foldl (turn period) (start t0 late)

def lag (s : LineClock) : Int := s.now-s.worldNextIntr

/-- The ticks up to the world time `t` -/
def ticksUpTo (s : LineClock) (t : Int) : Int := s.ticks.countP (·≤t)

variable {period : Int} {s : LineClock} {d : LtcDelay}

theorem waitTime_ge (now next : Int) : period/2≤waitTime period now next := by
  unfold waitTime
  dsimp only
  split_ifs <;> omega

theorem due_le (now next : Int) : next+period≤now+waitTime period now next := by
  unfold waitTime
  dsimp only
  split_ifs <;> omega

/-- What holds before every turn, the ticks being spaced and never ahead of the periods since `t0` -/
structure Inv (period t0 : Int) (s : LineClock) : Prop where
  due : s.worldNextIntr ≤ s.now
  spaced : s.ticks.IsChain fun later earlier => earlier+period/2≤later
  last : ∀ t∈s.ticks.head?,t+period/2 ≤ s.now
  length : (s.ticks.length : Int)*period ≤ s.worldNextIntr-t0
  upTo : ∀ t,t0≤t → s.ticksUpTo t*period≤t-t0+period

theorem start_inv (hp : 0≤period) (t0 : Int) (late : Nat) : Inv period t0 (start t0 late) := by
  refine ⟨Int.le_add_of_nonneg_right (Int.natCast_nonneg late),.nil,by rintro t ⟨⟩,by simp [start],fun t ht => ?_⟩
  simp only [ticksUpTo,start,countP_nil]
  omega

theorem Inv.turn {t0 : Int} (hp : 0≤period) (h : Inv period t0 s) (d : LtcDelay) :
    Inv period t0 (s.turn period d) := by
  have hdue := h.due
  have hwait : period/2≤waitTime period (s.now+d.running) s.worldNextIntr := waitTime_ge _ _
  have hnext : s.worldNextIntr+period ≤ s.now+d.running+waitTime period (s.now+d.running) s.worldNextIntr :=
    due_le _ _
  have hnow : (s.turn period d).now =
      s.now+d.running+waitTime period (s.now+d.running) s.worldNextIntr+d.waking := rfl
  have hworld : (s.turn period d).worldNextIntr=s.worldNextIntr+period := rfl
  have hdue' : (s.turn period d).worldNextIntr≤(s.turn period d).now := by omega
  have hlater : s.now+period/2≤(s.turn period d).now := by omega
  have hlength := h.length
  cases he : d.enabled with
  | false =>
    have hticks : (s.turn period d).ticks=s.ticks := if_neg (by simp [he])
    refine ⟨hdue',hticks ▸ h.spaced,fun t ht => ?_,?_,fun t ht => ?_⟩
    · rw [hticks] at ht
      have := h.last t ht
      omega
    · rw [hticks,hworld]
      omega
    · rw [ticksUpTo,hticks]
      exact h.upTo t ht
  | true =>
    have hticks : (s.turn period d).ticks=s.now::s.ticks := if_pos he
    have hsucc : ((s.ticks.length+1 : Nat) : Int)*period=s.ticks.length*period+period := by
      rw [Int.natCast_add,Int.add_mul,Int.natCast_one,Int.one_mul]
    refine ⟨hdue',?_,fun t ht => ?_,?_,fun t ht => ?_⟩
    · rw [hticks]
      exact h.spaced.cons h.last
    · rw [hticks] at ht
      cases ht
      exact hlater
    · rw [hticks,hworld,length_cons,hsucc]
      omega
    · have hup := h.upTo t ht
      rw [ticksUpTo] at hup ⊢
      rw [hticks,countP_cons]
      by_cases hle : s.now≤t
      · have hcount : s.ticks.countP (·≤t)+1 ≤ s.ticks.length+1 := Nat.succ_le_succ countP_le_length
        have hmul := Int.mul_le_mul_of_nonneg_right (Int.ofNat_le.mpr hcount) hp
        rw [hsucc] at hmul
        rw [if_pos (decide_eq_true hle)]
        omega
      · rw [if_neg (by simpa using hle)]
        exact hup

theorem run_inv (hp : 0≤period) (t0 : Int) (late : Nat) (ds : List LtcDelay) :
    Inv period t0 (run period t0 late ds) :=
  List.foldlRecOn ds _ (start_inv hp t0 late) fun _ h d _ => h.turn hp d

theorem lag_turn (hd : 2*d.sum<period) : (s.turn period d).lag < max period s.lag := by
  have hlag : (s.turn period d).lag =
      s.now+d.running+waitTime period (s.now+d.running) s.worldNextIntr+d.waking-(s.worldNextIntr+period) := rfl
  rw [hlag,lag]
  unfold LtcDelay.sum at hd
  unfold waitTime
  dsimp only
  split_ifs <;> omega

theorem lag_turns {es : List LtcDelay} (he : ∀ d∈es,2*d.sum<period) :
    (es.foldl (turn period) s).lag<period ∨ (es.foldl (turn period) s).lag+es.length ≤ s.lag := by
  induction es generalizing s with
  | nil => exact .inr (Int.le_of_eq (Int.add_zero _))
  | cons d es ih =>
    have hturn := lag_turn (s := s) (he d mem_cons_self)
    rw [foldl_cons,length_cons]
    obtain h | h := ih (s := s.turn period d) fun x hx => he x (mem_cons_of_mem d hx)
    · exact .inl h
    · omega

theorem foldl_due (s : LineClock) (ds : List LtcDelay) :
    (ds.foldl (turn period) s).worldNextIntr=s.worldNextIntr+ds.length*period := by
  induction ds generalizing s with
  | nil => simp
  | cons d ds ih =>
    have hworld : (s.turn period d).worldNextIntr=s.worldNextIntr+period := rfl
    rw [foldl_cons,ih,hworld,length_cons,Int.natCast_add,Int.add_mul]
    omega

theorem foldl_ticks (s : LineClock) {ds : List LtcDelay} (hd : ∀ d∈ds,d.enabled) :
    (ds.foldl (turn period) s).ticks.length=s.ticks.length+ds.length := by
  induction ds generalizing s with
  | nil => rfl
  | cons d ds ih =>
    have hticks : (s.turn period d).ticks=s.now::s.ticks := if_pos (hd d mem_cons_self)
    rw [foldl_cons,ih _ fun x hx => hd x (mem_cons_of_mem d hx),hticks,length_cons,length_cons]
    omega

end LineClock

/-- Two ticks of the line clock are at least half a period apart, and none comes ahead of its period. Turns whose
delays stay below half a period make up for lag until the clock is within a period of its due time, and keep it there.
-/
theorem line_clock_follows (frequency : Nat) (t0 : Int) (late : Nat) (ds : List LtcDelay) :
    let period := intrPeriodNs frequency
    let s := LineClock.run period t0 late ds
    s.ticks.IsChain (fun later earlier => earlier+period/2≤later) ∧
    (∀ t,t0≤t → s.ticksUpTo t*period≤t-t0+period) ∧
    s.worldNextIntr=t0+ds.length*period ∧
    ((∀ d∈ds,d.enabled=true) → s.ticks.length=ds.length) ∧
    ∀ es : List LtcDelay,(∀ d∈es,2*d.sum<period) → (es.foldl (LineClock.turn period) s).lag<period ∨
      (es.foldl (LineClock.turn period) s).lag+es.length ≤ s.lag := by
  have h := LineClock.run_inv (Int.natCast_nonneg (billion/frequency)) t0 late ds
  refine ⟨h.spaced,h.upTo,LineClock.foldl_due _ ds,fun hd => ?_,fun _ => LineClock.lag_turns⟩
  exact (LineClock.foldl_ticks _ hd).trans (Nat.zero_add _)

end QUniLator.Timing
