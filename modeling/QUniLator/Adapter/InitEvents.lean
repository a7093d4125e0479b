import QUniLator.Framework.Run
import Mathlib.Data.List.Chain

/-! UNIBUS INIT, from the edges that the PRU counts to what the devices are told. -/

namespace QUniLator.Adapter.InitEvents

open List Function

def maxDeviceHandle : Nat := 255

/-- An edge of INIT, or a call of `on_init_changed` with what `init_asserted` is then. -/
inductive Note
  | edge (level : Bool)
  | changed (handle : Nat) (asserted : Bool)
  deriving DecidableEq,Repr

/-- Where the worker is in a pass. `init_signaled` is the count it has read, a handle the next one
of the loop in `worker_init_event`. -/
inductive Phase
  | test
  | count
  | level (signaled : Nat)
  | falling (handle : Nat)
  | pulse (signaled handle : Nat)
  | replayed (signaled handle : Nat)
  | raising (handle : Nat)
  deriving DecidableEq,Repr

/-- The counts are whole here; the mailbox holds their lower eight bits. The log has the latest
note first. -/
structure State where
  initSignalCur : Bool
  /-- The level is changed and `init.signaled` not yet. -/
  unsignaled : Bool
  signaled : Nat
  acked : Nat
  lineInit : Bool
  initAsserted : Nat → Bool
  phase : Phase
  log : List Note

namespace State

def initial : State := ⟨false,false,0,0,false,fun _ => false,.test,[]⟩

/-- `EVENT_IS_ACKED` -/
def isAcked (s : State) : Bool := s.signaled%256=s.acked%256

/-- `do_event_initializationsignals`, where INIT has changed: the level, then the count. -/
def pru (s : State) : State :=
  if s.unsignaled then { s with signaled := s.signaled+1,unsignaled := false }
  else { s with
    initSignalCur := !s.initSignalCur,unsignaled := true,log := .edge (!s.initSignalCur)::s.log }

/-- One turn of the loop in `worker_init_event`. -/
def initEvent (installed : Nat → Bool) (s : State) (handle : Nat) : State :=
  if installed handle then
    { s with
      initAsserted := update s.initAsserted handle s.lineInit
      log := .changed handle s.lineInit::s.log }
  else s

/-- The worker, as far as INIT goes: one access to the mailbox or one device at a time. -/
def worker (installed : Nat → Bool) (s : State) : State :=
  match s.phase with
  | .test => if s.isAcked then s else { s with phase := .count }
  | .count => { s with phase := .level s.signaled }
  | .level signaled =>
    if s.initSignalCur && !s.lineInit then { s with lineInit := true,phase := .raising 0 }
    else if !s.initSignalCur && s.lineInit then { s with lineInit := false,phase := .falling 0 }
    else { s with lineInit := !s.lineInit,phase := .pulse signaled 0 }
  | .falling h =>
    if h ≤ maxDeviceHandle then { initEvent installed s h with phase := .falling (h+1) }
    else { s with acked := s.acked+1,phase := .test }
  | .pulse signaled h =>
    if h ≤ maxDeviceHandle then { initEvent installed s h with phase := .pulse signaled (h+1) }
    else { s with lineInit := !s.lineInit,phase := .replayed signaled 0 }
  | .replayed signaled h =>
    if h ≤ maxDeviceHandle then { initEvent installed s h with phase := .replayed signaled (h+1) }
    else { s with acked := signaled,phase := .test }
  -- the other events of the pass come before this one's sweep
  | .raising h =>
    if h ≤ maxDeviceHandle then { initEvent installed s h with phase := .raising (h+1) }
    else { s with acked := s.acked+1,phase := .test }

end State

inductive Action
  | pru
  | worker
  deriving DecidableEq,Repr

def step (installed : Nat → Bool) (s : State) : Action → State
  | .pru => s.pru
  | .worker => s.worker installed

/-- A step after which the counters have not rolled around: the edges come so slow that never 256
of them are waiting. -/
def Slow (installed : Nat → Bool) (s : State) (a : Action) (t : State) : Prop :=
  t=step installed s a ∧ t.signaled<t.acked+256

def edges : List Note → Nat
  | [] => 0
  | .edge _::l => edges l+1
  | .changed ..::l => edges l

/-- What device `d` was told, the latest first. -/
def told (d : Nat) : List Note → List Bool
  | [] => []
  | .edge _::l => told d l
  | .changed h b::l => if h=d then b::told d l else told d l

/-- How many edges there were before `d` was last told of an assertion. -/
def reach (d : Nat) : List Note → Nat
  | [] => 0
  | .edge _::l => reach d l
  | .changed h b::l => if h=d ∧ b then edges l else reach d l

def Alternating : List Note → Prop
  | [] => True
  | .edge b::l => b=decide (edges l%2=0) ∧ Alternating l
  | .changed ..::l => Alternating l

theorem reach_le (d : Nat) (l : List Note) : reach d l≤edges l := by
  induction l with
  | nil => exact Nat.le_refl 0
  | cons n l ih =>
    cases n with
    | edge b => exact ih.trans (Nat.le_succ _)
    | changed h b =>
      unfold reach
      split_ifs
      · exact Nat.le_refl _
      · exact ih

variable {post pre : List Note}

theorem Alternating.edge_true (h : Alternating (post ++ .edge true::pre)) : edges pre%2=0 := by
  induction post with
  | nil => exact of_decide_eq_true h.1.symm
  | cons n post ih =>
    cases n with
    | edge b => exact ih h.2
    | changed i b => exact ih h

theorem told_of_reach {d : Nat} (h : edges pre < reach d (post ++ .edge true::pre)) : .changed d true∈post := by
  induction post with
  | nil => exact absurd h (Nat.not_lt.mpr (reach_le d pre))
  | cons n post ih =>
    cases n with
    | edge b => exact .tail _ (ih h)
    | changed i b =>
      simp only [cons_append,reach] at h
      split_ifs at h with hi
      · obtain ⟨rfl,rfl⟩ := hi
        exact .head _
      · exact .tail _ (ih h)

theorem told_both {d : Nat} (hlast : (told d (post++pre)).headD false=false) (h : .changed d true∈post) :
    ∃ late early,post=late ++ .changed d false::early ∧ .changed d true∈early := by
  induction post with
  | nil => cases h
  | cons n post ih =>
    have hpost : n≠.changed d true → .changed d true∈post := fun hn =>
      (mem_cons.mp h).resolve_left (Ne.symm hn)
    cases n with
    | edge b =>
      obtain ⟨late,early,rfl,he⟩ := ih hlast (hpost (by simp))
      exact ⟨.edge b::late,early,rfl,he⟩
    | changed i b =>
      by_cases hi : i=d
      · subst hi
        simp only [cons_append,told,if_true] at hlast
        obtain rfl : b=false := hlast
        exact ⟨[],post,rfl,hpost (by simp)⟩
      · simp only [cons_append,told,if_neg hi] at hlast
        obtain ⟨late,early,rfl,he⟩ := ih hlast (hpost (by simp [hi]))
        exact ⟨.changed i b::late,early,rfl,he⟩

/-- The least number of an edge to level `b` that is not below `n`. -/
def next (b : Bool) (n : Nat) : Nat := if b then n+(n+1)%2 else n+n%2

/-- Where device `d` is in a pass: `acked` and `signaled` events of `edges`, an assertion told of
behind `reach` edges, the level of the adapter and the one that the device was told last. -/
def Phase.Keeps (d acked signaled edges reach : Nat) (line last : Bool) : Phase → Prop
  | .test => last=line ∧ if line then next true acked ≤ reach else next false acked≤edges
  | .count => (last=line ∧ if line then next true acked ≤ reach else next false acked≤edges) ∧ acked<signaled
  | .level c => (last=line ∧ if line then next true acked ≤ reach else next false acked≤edges) ∧
    acked<c ∧ c ≤ signaled
  | .falling h => line=false ∧ last = !decide (d<h) ∧ next true acked ≤ reach ∧
    next false (acked+1)≤edges ∧ acked<signaled
  | .pulse c h => last=(decide (d<h) == line) ∧ next (!line) c≤edges ∧
    (line → d<h → c ≤ reach) ∧ acked<c ∧ c ≤ signaled
  | .replayed c h => last=(decide (d<h) == line) ∧ next line c≤edges ∧
    (if line then d<h → next true c ≤ reach else c ≤ reach) ∧ acked<c ∧ c ≤ signaled
  | .raising h => line=true ∧ last=decide (d<h) ∧ next true (acked+1)≤(if d<h then reach else edges) ∧ acked<signaled

/-- What holds of device `d` at every time. -/
structure Inv (s : State) (d : Nat) : Prop where
  level : s.initSignalCur=decide (edges s.log%2=1)
  counted : edges s.log=s.signaled+s.unsignaled.toNat
  acked : s.acked ≤ s.signaled
  room : s.signaled<s.acked+256
  alternating : Alternating s.log
  last : (told d s.log).headD false=s.initAsserted d
  turns : (told d s.log++[false]).IsChain (· ≠ ·)
  heard : s.acked ≤ reach d s.log+(s.acked+1)%2
  phase : s.phase.Keeps d s.acked s.signaled (edges s.log) (reach d s.log) s.lineInit
    (s.initAsserted d)

theorem Inv.initial (d : Nat) : Inv .initial d := by
  constructor <;> simp [State.initial,edges,Alternating,told,Phase.Keeps,next]

theorem Phase.Keeps.mono {p : Phase} {d acked signaled signaled' edges edges' reach : Nat}
    {line last : Bool} (h : p.Keeps d acked signaled edges reach line last)
    (hs : signaled ≤ signaled') (he : edges≤edges') : p.Keeps d acked signaled' edges' reach line last := by
  have hline : (last=line ∧ if line then next true acked ≤ reach else next false acked≤edges) →
      last=line ∧ if line then next true acked ≤ reach else next false acked≤edges' := by
    rintro ⟨hl,h⟩
    refine ⟨hl,?_⟩
    cases line with
    | true => exact h
    | false => exact h.trans he
  cases p with
  | test => exact hline h
  | count => exact ⟨hline h.1,h.2.trans_le hs⟩
  | level c => exact ⟨hline h.1,h.2.1,h.2.2.trans hs⟩
  | falling i => exact ⟨h.1,h.2.1,h.2.2.1,h.2.2.2.1.trans he,h.2.2.2.2.trans_le hs⟩
  | pulse c i | replayed c i => exact ⟨h.1,h.2.1.trans he,h.2.2.1,h.2.2.2.1,h.2.2.2.2.trans hs⟩
  | raising i =>
    refine ⟨h.1,h.2.1,h.2.2.1.trans ?_,h.2.2.2.trans_le hs⟩
    split_ifs
    · exact Nat.le_refl _
    · exact he

theorem Inv.pru {s : State} {d : Nat} (h : Inv s d) (hroom : s.pru.signaled<s.pru.acked+256) : Inv s.pru d := by
  have hc := h.counted
  cases hu : s.unsignaled with
  | true =>
    simp only [State.pru,hu,reduceIte] at hroom ⊢
    simp only [hu,Bool.toNat_true] at hc
    exact { h with
      counted := hc
      acked := h.acked.trans (Nat.le_succ _)
      room := hroom
      phase := h.phase.mono (Nat.le_succ _) (Nat.le_refl _) }
  | false =>
    simp only [State.pru,hu,Bool.false_eq_true,reduceIte]
    simp only [hu,Bool.toNat_false,Nat.add_zero] at hc
    have hl := h.level
    refine { h with level := ?_,counted := ?_,alternating := ⟨?_,h.alternating⟩,
                    phase := h.phase.mono (Nat.le_refl _) (Nat.le_succ _) }
    · simp only [hl,edges,← decide_not]
      exact decide_eq_decide.mpr (by omega)
    · simp only [edges,hc,Bool.toNat_true]
    · simp only [hl,← decide_not]
      exact decide_eq_decide.mpr (by omega)

section
variable {installed : Nat → Bool} {s : State} {d : Nat}

theorem initEvent_other (installed : Nat → Bool) (s : State) {h : Nat} (hne : h≠d) :
    (s.initEvent installed h).initAsserted d=s.initAsserted d ∧ told d (s.initEvent installed h).log=told d s.log ∧
    reach d (s.initEvent installed h).log=reach d s.log := by
  unfold State.initEvent
  split_ifs
  · exact ⟨update_of_ne (Ne.symm hne) _ _,if_neg hne,if_neg (fun hh => hne hh.1)⟩
  · exact ⟨rfl,rfl,rfl⟩

theorem initEvent_self (hi : installed d) : s.initEvent installed d = { s with
      initAsserted := update s.initAsserted d s.lineInit
      log := .changed d s.lineInit::s.log } :=
  if_pos hi

theorem initEvent_frame (installed : Nat → Bool) (s : State) (h : Nat) : ∃ f l,s.initEvent installed h =
    { s with initAsserted := f,log := l } ∧ edges l=edges s.log ∧ (Alternating s.log → Alternating l) := by
  unfold State.initEvent
  split_ifs
  all_goals exact ⟨_,_,rfl,rfl,id⟩

theorem Inv.turn (h : Inv s d) (hi : installed d) {handle : Nat} {p : Phase}
    (hnew : handle=d → s.initAsserted d = !s.lineInit) (hp : p.Keeps d s.acked s.signaled (edges s.log)
      (if handle=d ∧ s.lineInit then edges s.log else reach d s.log) s.lineInit
      (if handle=d then s.lineInit else s.initAsserted d)) :
    Inv { s.initEvent installed handle with phase := p } d := by
  by_cases hd : handle=d
  · subst hd
    have hheard := h.heard
    rw [initEvent_self hi]
    simp only [true_and,if_true] at hp
    refine { h with last := ?_,turns := ?_,heard := ?_,phase := ?_ }
    · simp [told]
    · have hturns := h.turns
      simp only [told,if_true,cons_append]
      refine isChain_cons.mpr ⟨?_,hturns⟩
      intro b hb
      have hlast := h.last
      rw [hnew rfl] at hlast
      cases ht : told handle s.log with
      | nil =>
        simp only [ht,headD_nil,nil_append,List.head?_cons,Option.mem_some_iff] at hlast hb
        subst hb
        simp [hlast]
      | cons c l =>
        simp only [ht,headD_cons,cons_append,List.head?_cons,Option.mem_some_iff] at hlast hb
        subst hb
        simp [hlast]
    · have hle := reach_le handle s.log
      simp only [reach,true_and]
      split_ifs <;> omega
    · simpa [reach,edges] using hp
  · obtain ⟨ha,ht,hr⟩ := initEvent_other installed s hd
    obtain ⟨f,l,heq,he,halt⟩ := initEvent_frame installed s handle
    rw [heq] at ha ht hr ⊢
    simp only [hd,false_and,if_false] at hp
    simp only at ha ht hr
    refine ⟨?_,?_,h.acked,h.room,halt h.alternating,?_,?_,?_,?_⟩
    · simpa only [he] using h.level
    · simpa only [he] using h.counted
    · simpa only [ht,ha] using h.last
    · simpa only [ht] using h.turns
    · simpa only [hr] using h.heard
    · simpa only [he,hr,ha] using hp

theorem decide_lt_succ (d h : Nat) : decide (d<h+1)=(decide (h=d) || decide (d<h)) := by
  rw [← Bool.decide_or,decide_eq_decide]
  omega

theorem sweep_last {handle : Nat} {line last : Bool} (h : last=(decide (d<handle) == line)) :
    (if handle=d then line else last)=(decide (d<handle+1) == line) := by
  rw [decide_lt_succ]
  by_cases hd : handle=d
  · rw [if_pos hd,decide_eq_true hd]
    cases line <;> rfl
  · rw [if_neg hd,decide_eq_false hd,h]
    rfl

theorem sweep_new {line last : Bool} (h : last=(decide (d<d) == line)) : last = !line := by
  rw [decide_eq_false (Nat.lt_irrefl d)] at h
  rw [h]
  cases line <;> rfl

theorem Inv.worker (h : Inv s d) (hi : installed d) (hd : d ≤ maxDeviceHandle) : Inv (s.worker installed) d := by
  have hk := h.phase
  have hle := h.acked
  have hc := h.counted
  have hr := reach_le d s.log
  cases hp : s.phase with
  | test =>
    simp only [hp,State.worker,Phase.Keeps] at hk ⊢
    split_ifs with ha
    · exact h
    · have hne : s.signaled%256≠s.acked%256 := by simpa [State.isAcked] using ha
      have hlt : s.acked<s.signaled := by omega
      exact { h with phase := ⟨hk,hlt⟩ }
  | count =>
    simp only [hp,State.worker,Phase.Keeps] at hk ⊢
    exact { h with phase := ⟨hk.1,hk.2,Nat.le_refl _⟩ }
  | level c =>
    simp only [hp,State.worker,Phase.Keeps] at hk ⊢
    obtain ⟨⟨hlast,hset⟩,hac,hcs⟩ := hk
    have hl := h.level
    cases hcur : s.initSignalCur <;> cases hline : s.lineInit <;>
      simp only [hcur,hline,Bool.not_true,Bool.not_false,Bool.true_and,Bool.false_and,
        Bool.false_eq_true,if_true,if_false] at hl hset hlast ⊢
    · have hpar := of_decide_eq_false hl.symm
      refine { h with phase := ⟨by simp [hlast],?_,by simp,hac,hcs⟩,level := by simpa [hcur] using hl }
      simp only [next,Bool.not_true,Bool.false_eq_true,if_false]
      omega
    · have hpar := of_decide_eq_false hl.symm
      refine { h with
        phase := ⟨rfl,by simp [hlast],hset,?_,hac.trans_le hcs⟩,level := by simpa [hcur] using hl }
      simp only [next,Bool.false_eq_true,if_false]
      omega
    · have hpar := of_decide_eq_true hl.symm
      refine { h with phase := ⟨rfl,by simp [hlast],?_,hac.trans_le hcs⟩,level := by simpa [hcur] using hl }
      simp only [next,if_true,Nat.not_lt_zero,if_false]
      omega
    · have hpar := of_decide_eq_true hl.symm
      refine { h with phase := ⟨by simp [hlast],?_,by simp,hac,hcs⟩,level := by simpa [hcur] using hl }
      simp only [next,Bool.not_false,if_true]
      omega
  | falling i =>
    simp only [hp,State.worker,Phase.Keeps] at hk ⊢
    obtain ⟨hline,hlast,hodd,heven,hlt⟩ := hk
    have hlast' : s.initAsserted d=(decide (d < i) == s.lineInit) := by
      rw [hlast,hline]
      cases decide (d < i) <;> rfl
    split_ifs with him
    · refine h.turn hi (fun hid => sweep_new (hid ▸ hlast')) ⟨hline,?_,?_,heven,hlt⟩
      · rw [sweep_last hlast',hline]
        cases decide (d < i+1) <;> rfl
      · rw [if_neg (by simp [hline])]
        exact hodd
    · have hdi : d < i := by omega
      rw [decide_eq_true hdi] at hlast
      simp only [next,if_true,Bool.false_eq_true,if_false] at hodd heven
      have hroom := h.room
      refine { h with acked := hlt,room := by simp only; omega,heard := by simp only; omega,
                      phase := ⟨by rw [hlast,hline]; rfl,?_⟩ }
      rw [if_neg (by simp [hline])]
      exact heven
  | pulse c i =>
    simp only [hp,State.worker,Phase.Keeps] at hk ⊢
    obtain ⟨hlast,hnext,hhigh,hac,hcs⟩ := hk
    have hce : c≤edges s.log := by omega
    split_ifs with him
    · refine h.turn hi (fun hid => sweep_new (hid ▸ hlast)) ⟨sweep_last hlast,hnext,?_,hac,hcs⟩
      intro hline hdi
      by_cases hid : i=d
      · rw [if_pos ⟨hid,hline⟩]
        exact hce
      · rw [if_neg (fun hh => hid hh.1)]
        exact hhigh hline (by omega)
    · have hdi : d < i := by omega
      refine { h with phase := ⟨?_,hnext,?_,hac,hcs⟩ }
      · rw [hlast,decide_eq_true hdi,decide_eq_false (Nat.not_lt_zero d)]
        cases s.lineInit <;> rfl
      · cases hline : s.lineInit with
        | true => exact hhigh hline hdi
        | false => exact fun h0 => absurd h0 (Nat.not_lt_zero d)
  | replayed c i =>
    simp only [hp,State.worker,Phase.Keeps] at hk ⊢
    obtain ⟨hlast,hnext,hhigh,hac,hcs⟩ := hk
    split_ifs with him
    · refine h.turn hi (fun hid => sweep_new (hid ▸ hlast)) ⟨sweep_last hlast,hnext,?_,hac,hcs⟩
      cases hline : s.lineInit with
      | true =>
        simp only [hline,if_true] at hhigh hnext ⊢
        intro hdi
        by_cases hid : i=d
        · rw [if_pos ⟨hid,trivial⟩]
          exact hnext
        · rw [if_neg (fun hh => hid hh.1)]
          exact hhigh (by omega)
      | false => simpa [hline] using hhigh
    · have hdi : d < i := by omega
      have hroom := h.room
      rw [decide_eq_true hdi] at hlast
      cases hline : s.lineInit with
      | true =>
        simp only [hline,if_true] at hhigh hnext hlast
        have hreach := hhigh hdi
        simp only [next,if_true] at hreach
        exact { h with acked := hcs,room := by simp only; omega,heard := by simp only; omega,
                       phase := ⟨hlast,hhigh hdi⟩ }
      | false =>
        simp only [hline,Bool.false_eq_true,if_false] at hhigh hnext hlast
        exact { h with acked := hcs,room := by simp only; omega,heard := by simp only; omega,
                       phase := ⟨hlast,hnext⟩ }
  | raising i =>
    simp only [hp,State.worker,Phase.Keeps] at hk ⊢
    obtain ⟨hline,hlast,hodd,hlt⟩ := hk
    have hlast' : s.initAsserted d=(decide (d < i) == s.lineInit) := by
      rw [hlast,hline]
      cases decide (d < i) <;> rfl
    split_ifs with him
    · refine h.turn hi (fun hid => sweep_new (hid ▸ hlast')) ⟨hline,?_,?_,hlt⟩
      · rw [sweep_last hlast',hline]
        cases decide (d < i+1) <;> rfl
      · by_cases hid : i=d
        · rw [if_neg (by omega : ¬d < i)] at hodd
          rwa [if_pos (by omega : d < i+1),if_pos ⟨hid,hline⟩]
        · have hdis : ¬(i=d ∧ s.lineInit=true) := fun hh => hid hh.1
          rw [if_neg hdis,if_congr (by omega : d < i+1 ↔ d < i) rfl rfl]
          exact hodd
    · have hdi : d < i := by omega
      rw [decide_eq_true hdi] at hlast
      rw [if_pos hdi] at hodd
      have hreach := hodd
      simp only [next,if_true] at hreach
      have hroom := h.room
      refine { h with acked := hlt,room := by simp only; omega,heard := by simp only; omega,
                      phase := ⟨by rw [hlast,hline],?_⟩ }
      rw [if_pos hline]
      exact hodd

theorem Inv.step {a : Action} {t : State} (h : Inv s d) (hi : installed d)
    (hd : d ≤ maxDeviceHandle) (ht : Slow installed s a t) : Inv t d := by
  obtain ⟨rfl,hroom⟩ := ht
  cases a with
  | pru => exact h.pru hroom
  | worker => exact h.worker hi hd

theorem Inv.told_asserted (h : Inv s d) {post pre : List Note}
    (hlog : s.log=post ++ .edge true::pre) (hack : edges pre<s.acked) :
    .changed d true∈post ∧ (s.initAsserted d=false →
      ∃ late early,post=late ++ .changed d false::early ∧ .changed d true∈early) := by
  have heven : edges pre%2=0 := Alternating.edge_true (hlog ▸ h.alternating)
  have hheard := h.heard
  have hreach : edges pre < reach d (post ++ .edge true::pre) := by
    rw [← hlog]
    omega
  have hin := told_of_reach hreach
  refine ⟨hin,fun hneg => ?_⟩
  have hlast : (told d (post ++ .edge true::pre)).headD false=false := by
    rw [← hlog,h.last,hneg]
  exact told_both hlast hin

theorem Inv.acked_level (h : Inv s d) (ha : s.isAcked) (hu : s.unsignaled=false) :
    edges s.log=s.acked ∧ s.initAsserted d=s.initSignalCur := by
  have hmod : s.signaled%256=s.acked%256 := by simpa [State.isAcked] using ha
  have hle := h.acked
  have hroom := h.room
  have hc := h.counted
  rw [hu,Bool.toNat_false,Nat.add_zero] at hc
  have heq : s.signaled=s.acked := by omega
  refine ⟨hc.trans heq,?_⟩
  have hk := h.phase
  have hr := reach_le d s.log
  rw [h.level]
  cases hp : s.phase with
  | test =>
    simp only [hp,Phase.Keeps] at hk
    obtain ⟨hlast,hset⟩ := hk
    rw [hlast]
    cases hline : s.lineInit with
    | true =>
      simp only [hline,next,if_true] at hset
      exact (decide_eq_true (by omega)).symm
    | false =>
      simp only [hline,next,Bool.false_eq_true,if_false] at hset
      exact (decide_eq_false (by omega)).symm
  | count | level c | falling i | pulse c i | raising i => simp only [hp,Phase.Keeps] at hk; omega
  | replayed c i => simp only [hp,Phase.Keeps] at hk; omega

def Phase.rank : Phase → Nat
  | .test => 2*maxDeviceHandle+7
  | .count => 2*maxDeviceHandle+6
  | .level _ => 2*maxDeviceHandle+5
  | .pulse _ h => maxDeviceHandle+3+(maxDeviceHandle+1-h)
  | .falling h | .replayed _ h | .raising h => maxDeviceHandle+1-h

def State.rank (s : State) : Nat := (s.signaled-s.acked)*(2*maxDeviceHandle+8)+s.phase.rank

theorem rank_ack {n m : Nat} (h : n < m) (r : Nat) :
    n*(2*maxDeviceHandle+8)+Phase.rank .test < m*(2*maxDeviceHandle+8)+r := by
  have hmul := Nat.mul_le_mul_right (2*maxDeviceHandle+8) h
  rw [Nat.succ_mul] at hmul
  simp only [Phase.rank]
  omega

theorem initEvent_counts (installed : Nat → Bool) (s : State) (h : Nat) : (s.initEvent installed h).signaled=s.signaled ∧
    (s.initEvent installed h).acked=s.acked := by
  obtain ⟨f,l,heq,-⟩ := initEvent_frame installed s h
  rw [heq]
  exact ⟨rfl,rfl⟩

theorem worker_rank (h : Inv s d) (hn : ¬s.isAcked) : (s.worker installed).rank<s.rank := by
  have hk := h.phase
  have hle := h.acked
  have hturn (i : Nat) := initEvent_counts installed s i
  cases hp : s.phase with
  | test =>
    simp only [State.worker,hp,if_neg hn,State.rank,Phase.rank]
    omega
  | count =>
    simp only [State.worker,hp,State.rank,Phase.rank]
    omega
  | level c =>
    simp only [State.worker,hp]
    split_ifs <;> simp only [State.rank,hp,Phase.rank] <;> omega
  | falling i | replayed c i | raising i =>
    simp only [hp,Phase.Keeps] at hk
    simp only [State.worker,hp]
    split_ifs with him
    · simp only [State.rank,hp,Phase.rank,hturn]
      omega
    · exact rank_ack (by simp only; omega) _
  | pulse c i =>
    simp only [State.worker,hp]
    split_ifs with him
    · simp only [State.rank,hp,Phase.rank,hturn]
      omega
    · simp only [State.rank,hp,Phase.rank]
      omega

theorem Inv.iterate (h : Inv s d) (hi : installed d) (hd : d ≤ maxDeviceHandle) (n : Nat) :
    Run (Slow installed) s (replicate n .worker) ((State.worker installed)^[n] s) ∧
      Inv ((State.worker installed)^[n] s) d := by
  induction n generalizing s with
  | zero => exact ⟨.nil s,h⟩
  | succ n ih =>
    have hw := h.worker hi hd
    obtain ⟨hrun,hinv⟩ := ih hw
    exact ⟨.cons ⟨rfl,hw.room⟩ hrun,hinv⟩

theorem Inv.settles (h : Inv s d) (hi : installed d) (hd : d ≤ maxDeviceHandle) :
    ∃ n u,Run (Slow installed) s (replicate n .worker) u ∧ u.isAcked := by
  obtain ⟨n,-,hdone⟩ := @iterate_done _ (State.worker installed) (fun a => a.isAcked=true)
    (fun a => ¬Inv a d) State.rank (fun a hn hb => worker_rank (not_not.mp hb) hn) s (fun k => not_not.mpr (h.iterate hi hd k).2)
  exact ⟨n,_,(h.iterate hi hd n).1,hdone⟩

end

/-- INIT as the devices hear of it. Assertions and negations take turns, every acknowledged assertion was told of,
with its negation unless the device is in INIT still, with all events acknowledged the device is where the bus is, and
the worker gets there. -/
theorem init_never_missed {installed : Nat → Bool} {as : List Action} {t : State}
    (h : Run (Slow installed) .initial as t) {d : Nat} (hd : d ≤ maxDeviceHandle) (hi : installed d) :
    (told d t.log++[false]).IsChain (· ≠ ·) ∧ (told d t.log).headD false=t.initAsserted d ∧
    (∀ post pre,t.log=post ++ .edge true::pre → edges pre<t.acked → .changed d true∈post ∧ (t.initAsserted d=false →
        ∃ late early,post=late ++ .changed d false::early ∧ .changed d true∈early)) ∧
    (t.isAcked → t.unsignaled=false → edges t.log=t.acked ∧ t.initAsserted d=t.initSignalCur) ∧
    ∃ n u,Run (Slow installed) t (replicate n .worker) u ∧ u.isAcked := by
  have hinv : Inv t d := h.invariant (fun s a u hs hu => Inv.step hs hi hd hu) (Inv.initial d)
  exact ⟨hinv.turns,hinv.last,fun post pre => hinv.told_asserted,hinv.acked_level,
    hinv.settles hi hd⟩

/-- An assertion that the worker has begun to look at. -/
theorem init_never_missed_asserted : ∃ t, Run (Slow (fun _ => true)) .initial [.pru,.pru,.worker,.worker,.worker] t ∧
    t.lineInit=true ∧ ∃ n u,Run (Slow (fun _ => true)) t (replicate n .worker) u ∧ u.isAcked := by
  have hrun : ∃ t,Run (Slow (fun _ => true)) .initial [.pru,.pru,.worker,.worker,.worker] t ∧
      t.lineInit=true := by
    refine ⟨_,.cons ⟨rfl,?_⟩ (.cons ⟨rfl,?_⟩ (.cons ⟨rfl,?_⟩ (.cons ⟨rfl,?_⟩ (.cons ⟨rfl,?_⟩
      (.nil _))))),rfl⟩ <;> decide
  obtain ⟨t,hrun,hline⟩ := hrun
  exact ⟨t,hrun,hline,(init_never_missed hrun (d := 0) (by decide) rfl).2.2.2.2⟩

theorem pulses_alone (installed : Nat → Bool) (n : Nat) (s : State) (hc : s.initSignalCur=false)
    (hu : s.unsignaled=false) : ∃ as l,Run (fun s a t => t=step installed s a) s as
        { s with signaled := s.signaled+2*n,log := l++s.log } ∧ (∀ d b,.changed d b∉l) ∧ (0<n → .edge true∈l) := by
  induction n generalizing s with
  | zero => exact ⟨[],[],.nil s,by simp,by simp⟩
  | succ n ih =>
    obtain ⟨as,l,hrun,hl,-⟩ := ih
      { s with signaled := s.signaled+2,log := .edge false :: .edge true::s.log } hc hu
    refine ⟨.pru :: .pru :: .pru :: .pru::as,l++[.edge false,.edge true],?_,?_,by simp⟩
    · refine .cons rfl (.cons rfl (.cons rfl (.cons rfl ?_)))
      obtain ⟨cur,unsignaled,signaled,acked,line,asserted,phase,log⟩ := s
      obtain rfl : cur=false := hc
      obtain rfl : unsignaled=false := hu
      have hsum : signaled+2*(n+1)=signaled+2+2*n := by omega
      simpa [step,State.pru,hsum] using hrun
    · intro d b hm
      have hnot := hl d b
      simp_all

/-- 128 pulses of INIT before the worker looks: the counters are equal again, and no device hears of
any of them. -/
theorem init_missed : ¬∀ (installed : Nat → Bool) (as : List Action) (t : State) (d : Nat),
    Run (fun s a t => t=step installed s a) .initial as t → d ≤ maxDeviceHandle →
    installed d=true → t.isAcked → t.unsignaled=false →
    ∀ post pre,t.log=post ++ .edge true::pre → .changed d true∈post := by
  intro h
  obtain ⟨as,l,hrun,hl,he⟩ := pulses_alone (fun _ => true) 128 .initial rfl rfl
  obtain ⟨post,pre,rfl⟩ := append_of_mem (he (by decide))
  have hin := h _ as _ 0 hrun (by decide) rfl (by simp [State.isAcked,State.initial]) rfl post pre
    (by simp [State.initial])
  exact hl 0 true (mem_append_left _ hin)

end QUniLator.Adapter.InitEvents
