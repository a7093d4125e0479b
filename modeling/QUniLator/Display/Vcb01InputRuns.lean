import QUniLator.Display.Vcb01Input

namespace QUniLator.Display

open List Option

/-- The keys whose press was reported and that are down, before and after an event -/
def keysAfter (held : List Nat) : InputEvent → List Nat
  | .key k keysym true => if lkCode keysym=0 ∨ k∈held then held else k::held
  | .key k _ false => held.erase k
  | .pointer _ _ _ _ => held

/-- What the keyboard is to report: the code of a key that is pressed, all-up for the last that is released -/
def keyBytes (held : List Nat) : InputEvent → List UInt8
  | .key _ keysym true => if lkCode keysym=0 then [] else [lkCode keysym]
  | .key k _ false => if k∈held ∧ held.erase k=[] then [lkAllUp] else []
  | .pointer _ _ _ _ => []

/-- A key that is held is not pressed again, and the release of a key is reported if its press was. -/
def CarefulKey (held : List Nat) : InputEvent → Prop
  | .key k keysym true => lkCode keysym≠0 → k∉held
  | .key k keysym false => lkCode keysym≠0 ↔ k∈held
  | .pointer _ _ _ _ => True

def keysBytes : List Nat → List InputEvent → List UInt8
  | _,[] => []
  | held,e::es => keyBytes held e++keysBytes (keysAfter held e) es

def CarefulKeys : List Nat → List InputEvent → Prop
  | _,[] => True
  | held,e::es => CarefulKey held e ∧ CarefulKeys (keysAfter held e) es

structure Report where
  header : UInt8
  dx : UInt8
  dy : UInt8

namespace Report

def bytes (r : Report) : List UInt8 := [r.header,r.dx,r.dy]

def WellFormed (r : Report) : Prop := 0x80 ≤ r.header.toNat ∧ r.dx.toNat<0x80 ∧ r.dy.toNat<0x80

end Report

def Reports (l : List UInt8) : Prop :=
  ∃ rs : List Report,l=rs.flatMap Report.bytes ∧ ∀ r∈rs,r.WellFormed

theorem Reports.nil : Reports [] := ⟨[],rfl,fun _ hr => absurd hr not_mem_nil⟩

theorem Reports.one {r : Report} (hr : r.WellFormed) : Reports r.bytes :=
  ⟨[r],(append_nil _).symm,fun _ hx => mem_singleton.mp hx ▸ hr⟩

theorem Reports.append {l l' : List UInt8} (h : Reports l) (h' : Reports l') : Reports (l++l') := by
  obtain ⟨rs,rfl,hrs⟩ := h
  obtain ⟨rs',rfl,hrs'⟩ := h'
  refine ⟨rs++rs',flatMap_append.symm,fun x hx => ?_⟩
  exact (mem_append.mp hx).elim (hrs x) (hrs' x)

namespace Input

variable {s t u : Input}

/-- The status registers agree with the FIFOs. -/
structure Coherent (s : Input) : Prop where
  a : s.a.sts=s.a.status
  b : s.b.sts=s.b.status
  ists : s.ists=s.interruptStatus

theorem coherent_recompute (s : Input) : s.recomputeStatus.Coherent := ⟨rfl,rfl,rfl⟩

/-- The bytes `da` came for the keyboard channel and `db` for the pointer's. -/
structure Grows (s t : Input) (da db : List UInt8) : Prop where
  a : t.a.rxfifo=s.a.rxfifo++da
  b : t.b.rxfifo=s.b.rxfifo++db
  aQueued : t.a.queued=s.a.queued++da
  bQueued : t.b.queued=s.b.queued++db

theorem Grows.rfl_of {s t : Input} (ha : t.a.rxfifo=s.a.rxfifo) (hb : t.b.rxfifo=s.b.rxfifo)
    (ha' : t.a.queued=s.a.queued) (hb' : t.b.queued=s.b.queued) : Grows s t [] [] := by
  refine ⟨?_,?_,?_,?_⟩
  · rw [append_nil,ha]
  · rw [append_nil,hb]
  · rw [append_nil,ha']
  · rw [append_nil,hb']

theorem Grows.trans {da db da' db' : List UInt8} (h : Grows s t da db) (h' : Grows t u da' db') :
    Grows s u (da++da') (db++db') := by
  refine ⟨?_,?_,?_,?_⟩
  · rw [h'.a,h.a,append_assoc]
  · rw [h'.b,h.b,append_assoc]
  · rw [h'.aQueued,h.aQueued,append_assoc]
  · rw [h'.bQueued,h.bQueued,append_assoc]

theorem grows_queueA (s : Input) (c : UInt8) : Grows s (s.queueA c) [c] [] :=
  ⟨rfl,(append_nil _).symm,rfl,(append_nil _).symm⟩

theorem grows_queueB (s : Input) (c : UInt8) : Grows s (s.queueB c) [] [c] :=
  ⟨(append_nil _).symm,rfl,(append_nil _).symm,rfl⟩

theorem foldl_queueA (s : Input) (cs : List UInt8) :
    Grows s (cs.foldl queueA s) cs [] ∧ (cs.foldl queueA s).keysDown=s.keysDown ∧
      (s.Coherent → (cs.foldl queueA s).Coherent) := by
  induction cs generalizing s with
  | nil => exact ⟨.rfl_of rfl rfl rfl rfl,rfl,id⟩
  | cons c cs ih =>
    obtain ⟨h1,h2,h3⟩ := ih (s.queueA c)
    exact ⟨(s.grows_queueA c).trans h1,h2,fun _ => h3 (coherent_recompute _)⟩

theorem keyboardCommand_spec (s : Input) (hs : s.Coherent) (c : Nat) :
    Grows s (s.keyboardCommand c) (keyboardAnswer c) [] ∧ (s.keyboardCommand c).Coherent ∧
      (s.keyboardCommand c).keysDown=if c=0xd3 then 0 else s.keysDown := by
  obtain ⟨h1,h2,h3⟩ := foldl_queueA (if c=0xd3 then { s with keysDown := 0 } else s) (keyboardAnswer c)
  have hg : Grows s (if c=0xd3 then { s with keysDown := 0 } else s) [] [] := by
    split_ifs <;> exact .rfl_of rfl rfl rfl rfl
  refine ⟨hg.trans h1,h3 ?_,h2.trans ?_⟩
  · split_ifs
    · exact ⟨hs.a,hs.b,hs.ists⟩
    · exact hs
  · split_ifs <;> rfl

theorem clamp_natAbs (d : Int) : (clamp d).natAbs<0x80 := by
  unfold clamp
  omega

theorem reportHeader_range (s : Input) (dx dy : Int) : 0x80 ≤ s.reportHeader dx dy ∧ s.reportHeader dx dy<0x100 := by
  unfold reportHeader
  split_ifs <;> omega

theorem sendPointerReport_spec (s : Input) (dx dy : Int) :
    ∃ r : Report,r.WellFormed ∧ Grows s (s.sendPointerReport dx dy) [] r.bytes ∧
      (s.sendPointerReport dx dy).Coherent ∧ (s.sendPointerReport dx dy).keysDown=s.keysDown := by
  have hh := s.reportHeader_range (clamp dx) (clamp dy)
  have hx := clamp_natAbs dx
  have hy := clamp_natAbs dy
  refine ⟨⟨.ofNat (s.reportHeader (clamp dx) (clamp dy)),.ofNat (clamp dx).natAbs,.ofNat (clamp dy).natAbs⟩,
    ⟨?_,?_,?_⟩,((s.grows_queueB _).trans (grows_queueB _ _)).trans (grows_queueB _ _),coherent_recompute _,rfl⟩
  · show 0x80≤(UInt8.ofNat _).toNat
    rw [UInt8.toNat_ofNat',Nat.mod_eq_of_lt hh.2]
    exact hh.1
  · show (UInt8.ofNat _).toNat<0x80
    rw [UInt8.toNat_ofNat',Nat.mod_eq_of_lt (by omega)]
    exact hx
  · show (UInt8.ofNat _).toNat<0x80
    rw [UInt8.toNat_ofNat',Nat.mod_eq_of_lt (by omega)]
    exact hy

theorem pointerEvent_spec (s : Input) (hs : s.Coherent) (dx dy : Int) (left middle right : Bool) :
    ∃ db,Reports db ∧ Grows s (s.pointerEvent dx dy left middle right) [] db ∧
      (s.pointerEvent dx dy left middle right).Coherent ∧
      (s.pointerEvent dx dy left middle right).keysDown=s.keysDown := by
  unfold pointerEvent
  dsimp only
  split_ifs
  · exact ⟨[],.nil,.rfl_of rfl rfl rfl rfl,⟨hs.a,hs.b,hs.ists⟩,rfl⟩
  · obtain ⟨r,hr,hg,hc,hk⟩ := sendPointerReport_spec
      { s with btnLeft := left,btnMiddle := middle,btnRight := right } dx dy
    exact ⟨r.bytes,.one hr,⟨hg.a,hg.b,hg.aQueued,hg.bQueued⟩,hc,hk⟩

theorem duartWrite_spec (s : Input) (hs : s.Coherent) (reg d : Nat) :
    ∃ da db,Reports db ∧ Grows s (s.duartWrite reg d) da db ∧ (s.duartWrite reg d).Coherent ∧
      (s.duartWrite reg d).keysDown=if reg=3 ∧ d=0xd3 then 0 else s.keysDown := by
  have hmode (p : Port) (d : Nat) : (p.setMode d).rxfifo=p.rxfifo ∧ (p.setMode d).queued=p.queued ∧
      (p.setMode d).sts=p.sts ∧ (p.setMode d).status=p.status ∧ (p.setMode d).etx=p.etx := by
    unfold Port.setMode
    split_ifs <;> exact ⟨rfl,rfl,rfl,rfl,rfl⟩
  unfold duartWrite
  split
  · obtain ⟨h1,h2,h3,h4,h5⟩ := hmode s.a d
    refine ⟨[],[],.nil,.rfl_of h1 rfl h2 rfl,⟨h3.trans (hs.a.trans h4.symm),hs.b,?_⟩,rfl⟩
    show s.ists=interruptStatus _
    rw [hs.ists]
    unfold interruptStatus
    rw [h1,h5]
  · exact ⟨[],[],.nil,.rfl_of rfl rfl rfl rfl,coherent_recompute _,rfl⟩
  · obtain ⟨hg,hc,hk⟩ := s.keyboardCommand_spec hs d
    exact ⟨_,[],.nil,hg,hc,by rw [hk]; simp⟩
  · exact ⟨[],[],.nil,.rfl_of rfl rfl rfl rfl,⟨hs.a,hs.b,hs.ists⟩,rfl⟩
  · obtain ⟨h1,h2,h3,h4,h5⟩ := hmode s.b d
    refine ⟨[],[],.nil,.rfl_of rfl h1 rfl h2,⟨hs.a,h3.trans (hs.b.trans h4.symm),?_⟩,rfl⟩
    show s.ists=interruptStatus _
    rw [hs.ists]
    unfold interruptStatus
    rw [h1,h5]
  · exact ⟨[],[],.nil,.rfl_of rfl rfl rfl rfl,coherent_recompute _,rfl⟩
  · rw [if_neg (show ¬(11=3 ∧ d=0xd3) by simp)]
    split_ifs
    · obtain ⟨r,hr,hg,hc,hk⟩ := s.sendPointerReport_spec 0 0
      exact ⟨[],r.bytes,.one hr,hg,hc,hk⟩
    · exact ⟨[],[],.nil,.rfl_of rfl rfl rfl rfl,⟨hs.a,hs.b,hs.ists⟩,rfl⟩
    · exact ⟨[],[],.nil,.rfl_of rfl rfl rfl rfl,hs,rfl⟩
  · rename_i h0 h2 h3 h5 h8 h10 h11
    exact ⟨[],[],.nil,.rfl_of rfl rfl rfl rfl,hs,(if_neg fun hx => h3 hx.1).symm⟩

theorem keyEvent_spec (s : Input) (hs : s.Coherent) {held : List Nat} (hk : s.keysDown=held.length)
    {k keysym : Nat} {down : Bool} (hc : CarefulKey held (.key k keysym down)) :
    Grows s (s.keyEvent keysym down) (keyBytes held (.key k keysym down)) [] ∧ (s.keyEvent keysym down).Coherent ∧
      (s.keyEvent keysym down).keysDown=(keysAfter held (.key k keysym down)).length := by
  unfold keyEvent
  by_cases h0 : lkCode keysym=0
  · rw [if_pos h0]
    cases down with
    | true =>
      rw [keyBytes,keysAfter,if_pos h0,if_pos (.inl h0)]
      exact ⟨.rfl_of rfl rfl rfl rfl,hs,hk⟩
    | false =>
      have hn : k∉held := fun hm => hc.mpr hm h0
      rw [keyBytes,keysAfter,if_neg fun hx => hn hx.1,erase_of_not_mem hn]
      exact ⟨.rfl_of rfl rfl rfl rfl,hs,hk⟩
  · rw [if_neg h0]
    cases down with
    | true =>
      rw [if_pos rfl,keyBytes,keysAfter,if_neg h0,if_neg fun hx => hx.elim h0 (hc h0)]
      refine ⟨?_,coherent_recompute _,?_⟩
      · exact ⟨rfl,(append_nil _).symm,rfl,(append_nil _).symm⟩
      · show s.keysDown+1=_
        rw [hk]
        rfl
    | false =>
      have hm : k∈held := hc.mp h0
      have hlen : (held.erase k).length=s.keysDown-1 := by rw [length_erase_of_mem hm,hk]
      rw [keyBytes,keysAfter,if_neg (by simp)]
      dsimp only
      by_cases hlast : s.keysDown-1=0
      · have hnil : held.erase k=[] := eq_nil_of_length_eq_zero (hlen.trans hlast)
        rw [if_pos hlast,if_pos ⟨hm,hnil⟩]
        refine ⟨?_,coherent_recompute _,hlen.symm⟩
        exact ⟨rfl,(append_nil _).symm,rfl,(append_nil _).symm⟩
      · have hnil : ¬(k∈held ∧ held.erase k=[]) := fun hx => hlast (by rw [← hlen,hx.2]; rfl)
        rw [if_neg hlast,if_neg hnil]
        exact ⟨.rfl_of rfl rfl rfl rfl,⟨hs.a,hs.b,hs.ists⟩,hlen.symm⟩

end Input

namespace Vcb01

open Input

variable {s t : Vcb01} {held : List Nat}

/-- A channel's bytes are those that were read and those in its FIFO, the pointer's are whole reports, and the bus
reads what the FIFOs are, unless a pump of window events is under way. -/
structure Kept (s : Vcb01) : Prop where
  keyboard : s.input.a.queued=s.gotA++s.input.a.rxfifo
  pointer : s.input.b.queued=s.gotB++s.input.b.rxfifo
  reports : Reports s.input.b.queued
  statusA : s.changed=false → s.mirror 1=s.input.a.status
  statusB : s.changed=false → s.mirror 9=s.input.b.status
  interruptStatus : s.changed=false → s.mirror 5=s.input.interruptStatus
  bufferA : s.changed=false → s.mirror 3=(s.input.a.rxfifo.headD 0).toNat+0x100*s.input.a.status
  bufferB : s.changed=false → s.mirror 11=(s.input.b.rxfifo.headD 0).toNat+0x100*s.input.b.status

/-- What a step does to the keyboard's bytes and to what was read -/
structure Delivers (s : Vcb01) (held : List Nat) (e : Vcb01Step) (t : Vcb01) : Prop where
  window : ∀ ev,e=.window ev → t.input.a.queued=s.input.a.queued++keyBytes held ev
  web : ∀ es,e=.web es → t.input.a.queued=s.input.a.queued++keysBytes held es
  readA : ∀ v,e=.callback → s.reading=some (3,v) →
    t.gotA=s.gotA++returned v ∧ s.input.a.rxfifo=returned v++t.input.a.rxfifo
  readB : ∀ v,e=.callback → s.reading=some (11,v) →
    t.gotB=s.gotB++returned v ∧ s.input.b.rxfifo=returned v++t.input.b.rxfifo

/-- No byte came since a read without receiver ready, keys are pressed and released as the keyboard counts them, and
defaults are reinstated with no key held. -/
def Careful (s : Vcb01) (held : List Nat) : Vcb01Step → Prop
  | .callback => (∀ r∈s.reading,r.1=3 → receiverReady r.2=false → s.input.a.rxfifo=[]) ∧
      ∀ r∈s.reading,r.1=11 → receiverReady r.2=false → s.input.b.rxfifo=[]
  | .write reg value => reg=3 → value%0x100=0xd3 → held=[]
  | .window e => CarefulKey held e
  | .web es => CarefulKeys held es
  | .cycle _ | .windowDone => True

def heldAfter (held : List Nat) : Vcb01Step → List Nat
  | .window e => keysAfter held e
  | .web es => es.foldl keysAfter held
  | .cycle _ | .callback | .write _ _ | .windowDone => held

def Shows (fifo : List UInt8) (v : Nat) : Prop :=
  receiverReady v=true → ∃ c l,fifo=c::l ∧ v%0x100=c.toNat

theorem Shows.append {fifo d : List UInt8} {v : Nat} (h : Shows fifo v) : Shows (fifo++d) v := by
  intro hv
  obtain ⟨c,l,rfl,hc⟩ := h hv
  exact ⟨c,l++d,rfl,hc⟩

theorem Shows.taken {fifo : List UInt8} {v : Nat} (h : Shows fifo v)
    (hc : receiverReady v=false → fifo=[]) : fifo=returned v++fifo.tail := by
  unfold returned
  cases hv : receiverReady v with
  | true =>
    obtain ⟨c,l,rfl,he⟩ := h hv
    rw [he,if_pos rfl,UInt8.ofNat_toNat]
    rfl
  | false =>
    rw [hc hv]
    rfl

theorem shows_rxBuffer {p : Port} (h : p.sts=p.status) : Shows p.rxfifo p.rxBuffer := by
  intro hv
  unfold receiverReady Port.rxBuffer at hv
  unfold Port.rxBuffer
  rw [h] at hv ⊢
  unfold Port.status at hv ⊢
  cases hf : p.rxfifo with
  | nil =>
    rw [hf] at hv
    exfalso
    revert hv
    cases p.etx <;> decide
  | cons c l =>
    have hc := c.toNat_lt
    refine ⟨c,l,rfl,?_⟩
    show (c.toNat+_)%0x100=_
    omega

structure Inv (s : Vcb01) (held : List Nat) : Prop where
  coherent : s.input.Coherent
  keyboard : s.input.a.queued=s.gotA++s.input.a.rxfifo
  pointer : s.input.b.queued=s.gotB++s.input.b.rxfifo
  reports : Reports s.input.b.queued
  keys : s.input.keysDown=held.length
  mirrored : s.changed=false → s.mirror=s.input.duartPeek
  showsA : Shows s.input.a.rxfifo (s.mirror 3)
  showsB : Shows s.input.b.rxfifo (s.mirror 11)
  readingA : ∀ v,s.reading=some (3,v) → Shows s.input.a.rxfifo v
  readingB : ∀ v,s.reading=some (11,v) → Shows s.input.b.rxfifo v

theorem Inv.kept (h : Inv s held) : Kept s := by
  have hm {r : Nat} (hc : s.changed=false) : s.mirror r=s.input.duartPeek r := by rw [h.mirrored hc]
  refine ⟨h.keyboard,h.pointer,h.reports,fun hc => ?_,fun hc => ?_,fun hc => ?_,fun hc => ?_,fun hc => ?_⟩
  · exact (hm hc).trans h.coherent.a
  · exact (hm hc).trans h.coherent.b
  · exact (hm hc).trans h.coherent.ists
  · rw [hm hc,← h.coherent.a]
    rfl
  · rw [hm hc,← h.coherent.b]
    rfl

theorem Inv.start : Inv start [] := by
  have hempty : Shows [] (Vcb01.start.mirror 3) := shows_rxBuffer (p := Input.reset.a) rfl
  have hempty' : Shows [] (Vcb01.start.mirror 11) := shows_rxBuffer (p := Input.reset.b) rfl
  exact ⟨coherent_recompute _,rfl,rfl,Reports.nil,rfl,fun _ => rfl,hempty,hempty',
    fun _ hr => (by cases hr),fun _ hr => (by cases hr)⟩

theorem Inv.grow (h : Inv s held) {held' : List Nat} {da db : List UInt8} (hg : Grows s.input t.input da db)
    (hc : t.input.Coherent) (hw : Reports db) (hk : t.input.keysDown=held'.length) (ha : t.gotA=s.gotA)
    (hb : t.gotB=s.gotB) (hr : t.reading=s.reading)
    (hm : t.mirror=t.input.duartPeek ∨ t.changed ∧ t.mirror=s.mirror) : Inv t held' := by
  refine ⟨hc,?_,?_,?_,hk,?_,?_,?_,?_,?_⟩
  · rw [hg.aQueued,hg.a,ha,h.keyboard,append_assoc]
  · rw [hg.bQueued,hg.b,hb,h.pointer,append_assoc]
  · rw [hg.bQueued]
    exact h.reports.append hw
  · intro hx
    rcases hm with hm | ⟨hm,-⟩
    · exact hm
    · rw [hm] at hx
      cases hx
  · rcases hm with hm | ⟨-,hm⟩
    · rw [hm]
      exact shows_rxBuffer hc.a
    · rw [hm,hg.a]
      exact h.showsA.append
  · rcases hm with hm | ⟨-,hm⟩
    · rw [hm]
      exact shows_rxBuffer hc.b
    · rw [hm,hg.b]
      exact h.showsB.append
  · intro v hv
    rw [hg.a]
    exact (h.readingA v (hr ▸ hv)).append
  · intro v hv
    rw [hg.b]
    exact (h.readingB v (hr ▸ hv)).append

theorem event_spec (s : Vcb01) (hs : s.input.Coherent) (hk : s.input.keysDown=held.length) {e : InputEvent}
    (hc : CarefulKey held e) :
    ∃ db,Reports db ∧ Grows s.input (s.event e).input (keyBytes held e) db ∧ (s.event e).input.Coherent ∧
      (s.event e).input.keysDown=(keysAfter held e).length := by
  cases e with
  | key k keysym down =>
    obtain ⟨hg,hco,hkd⟩ := s.input.keyEvent_spec hs hk hc
    exact ⟨[],.nil,hg,hco,hkd⟩
  | pointer button press dx dy =>
    obtain ⟨db,hw,hg,hco,hkd⟩ := s.input.pointerEvent_spec hs dx dy (if button=1 then press else s.btnL)
      (if button=2 then press else s.btnM) (if button=3 then press else s.btnR)
    exact ⟨db,hw,hg,hco,hkd.trans hk⟩

theorem event_rest (s : Vcb01) (e : InputEvent) : (s.event e).gotA=s.gotA ∧ (s.event e).gotB=s.gotB ∧
    (s.event e).reading=s.reading ∧ (s.event e).mirror=s.mirror ∧ (s.event e).changed=s.changed := by
  cases e <;> exact ⟨rfl,rfl,rfl,rfl,rfl⟩

theorem events_spec (s : Vcb01) (hs : s.input.Coherent) (hk : s.input.keysDown=held.length)
    {es : List InputEvent} (hc : CarefulKeys held es) :
    ∃ db,Reports db ∧ Grows s.input (es.foldl event s).input (keysBytes held es) db ∧
      (es.foldl event s).input.Coherent ∧ (es.foldl event s).input.keysDown=(es.foldl keysAfter held).length ∧
      (es.foldl event s).gotA=s.gotA ∧ (es.foldl event s).gotB=s.gotB ∧ (es.foldl event s).reading=s.reading := by
  induction es generalizing s held with
  | nil => exact ⟨[],.nil,.rfl_of rfl rfl rfl rfl,hs,hk,rfl,rfl,rfl⟩
  | cons e es ih =>
    obtain ⟨db,hw,hg,hco,hkd⟩ := s.event_spec hs hk hc.1
    obtain ⟨h1,h2,h3,-,-⟩ := s.event_rest e
    obtain ⟨db',hw',hg',hco',hkd',h1',h2',h3'⟩ := ih (s.event e) hco hkd hc.2
    exact ⟨db++db',hw.append hw',hg.trans hg',hco',hkd',h1'.trans h1,h2'.trans h2,h3'.trans h3⟩

theorem Inv.consume (h : Inv s held) {reg v : Nat} (hr : s.reading=some (reg,v))
    (hc : s.Careful held .callback) : Inv (s.consume reg v) held ∧
      (reg=3 → s.input.a.rxfifo=returned v++(s.consume reg v).input.a.rxfifo) ∧
      (reg=11 → s.input.b.rxfifo=returned v++(s.consume reg v).input.b.rxfifo) := by
  have hA (h3 : reg=3) : s.input.a.rxfifo=returned v++s.input.a.rxfifo.tail :=
    (h.readingA v (h3 ▸ hr)).taken (hc.1 _ hr h3)
  have hB (h11 : reg=11) : s.input.b.rxfifo=returned v++s.input.b.rxfifo.tail :=
    (h.readingB v (h11 ▸ hr)).taken (hc.2 _ hr h11)
  have hdone (t : Vcb01) (hco : t.input.Coherent) (ha : t.input.a.queued=t.gotA++t.input.a.rxfifo)
      (hb : t.input.b.queued=t.gotB++t.input.b.rxfifo) (hq : t.input.b.queued=s.input.b.queued)
      (hk : t.input.keysDown=s.input.keysDown) (hm : t.mirror=t.input.duartPeek) (hn : t.reading=none) :
      Inv t held := by
    refine ⟨hco,ha,hb,hq ▸ h.reports,hk.trans h.keys,fun _ => hm,?_,?_,?_,?_⟩
    · rw [hm]
      exact shows_rxBuffer hco.a
    · rw [hm]
      exact shows_rxBuffer hco.b
    all_goals
      intro v hv
      rw [hn] at hv
      cases hv
  have hmode (hco : (s.input.duartConsume reg).Coherent)
      (hf : Grows s.input (s.input.duartConsume reg) [] [])
      (hk : (s.input.duartConsume reg).keysDown=s.input.keysDown) (h3 : reg≠3) (h11 : reg≠11) :
      Inv (s.consume reg v) held := by
    refine hdone _ hco ?_ ?_ ?_ hk rfl rfl
    · show (s.input.duartConsume reg).a.queued=(if reg=3 then _ else _)++(s.input.duartConsume reg).a.rxfifo
      rw [if_neg h3,hf.aQueued,hf.a,append_nil,append_nil]
      exact h.keyboard
    · show (s.input.duartConsume reg).b.queued=(if reg=11 then _ else _)++(s.input.duartConsume reg).b.rxfifo
      rw [if_neg h11,hf.bQueued,hf.b,append_nil,append_nil]
      exact h.pointer
    · show (s.input.duartConsume reg).b.queued=_
      rw [hf.bQueued,append_nil]
  by_cases h3 : reg=3
  · subst h3
    refine ⟨hdone _ (coherent_recompute _) ?_ h.pointer rfl rfl rfl rfl,fun _ => hA rfl,fun hx => (by cases hx)⟩
    show s.input.a.queued=(s.gotA++returned v)++s.input.a.rxfifo.tail
    rw [h.keyboard,append_assoc,← hA rfl]
  · by_cases h11 : reg=11
    · subst h11
      refine ⟨hdone _ (coherent_recompute _) h.keyboard ?_ rfl rfl rfl rfl,fun hx => (by cases hx),fun _ => hB rfl⟩
      show s.input.b.queued=(s.gotB++returned v)++s.input.b.rxfifo.tail
      rw [h.pointer,append_assoc,← hB rfl]
    · refine ⟨?_,fun hx => absurd hx h3,fun hx => absurd hx h11⟩
      have hs := h.coherent
      by_cases h0 : reg=0
      · subst h0
        exact hmode ⟨hs.a,hs.b,hs.ists⟩ (.rfl_of rfl rfl rfl rfl) rfl h3 h11
      · by_cases h8 : reg=8
        · subst h8
          exact hmode ⟨hs.a,hs.b,hs.ists⟩ (.rfl_of rfl rfl rfl rfl) rfl h3 h11
        · have he : s.input.duartConsume reg=s.input := by
            unfold duartConsume
            split <;> first | rfl | contradiction
          refine hmode ?_ ?_ (by rw [he]) h3 h11
          · rw [he]
            exact hs
          · rw [he]
            exact .rfl_of rfl rfl rfl rfl

theorem Inv.cycle (h : Inv s held) (reg : Nat) : Inv (s.cycle reg) held := by
  unfold Vcb01.cycle
  split_ifs
  · refine ⟨h.coherent,h.keyboard,h.pointer,h.reports,h.keys,h.mirrored,h.showsA,h.showsB,fun v hv => ?_,
      fun v hv => ?_⟩
    · obtain ⟨rfl,rfl⟩ := Prod.mk.inj (some.inj hv)
      exact h.showsA
    · obtain ⟨rfl,rfl⟩ := Prod.mk.inj (some.inj hv)
      exact h.showsB
  · exact h

theorem Inv.step (h : Inv s held) {e : Vcb01Step} (hc : s.Careful held e) (hs : s.step e=some t) :
    Inv t (heldAfter held e) ∧ s.Delivers held e t := by
  cases e with
  | cycle reg =>
    simp only [Vcb01.step] at hs
    split at hs
    · obtain rfl := some.inj hs
      exact ⟨h.cycle reg,fun _ he => (by cases he),fun _ he => (by cases he),fun _ he => (by cases he),
        fun _ he => (by cases he)⟩
    · cases hs
  | callback =>
    obtain ⟨⟨reg,v⟩,hr,rfl⟩ := Option.map_eq_some_iff.mp hs
    obtain ⟨hi,hA,hB⟩ := h.consume hr hc
    refine ⟨hi,fun _ he => (by cases he),fun _ he => (by cases he),fun w _ hw => ?_,fun w _ hw => ?_⟩
    · obtain ⟨rfl,rfl⟩ := Prod.mk.inj (some.inj (hr.symm.trans hw))
      exact ⟨rfl,hA rfl⟩
    · obtain ⟨rfl,rfl⟩ := Prod.mk.inj (some.inj (hr.symm.trans hw))
      exact ⟨rfl,hB rfl⟩
  | write reg value =>
    simp only [Vcb01.step] at hs
    split at hs
    · obtain rfl := some.inj hs
      obtain ⟨da,db,hw,hg,hco,hkd⟩ := s.input.duartWrite_spec h.coherent reg (value%0x100)
      refine ⟨h.grow hg hco hw (hkd.trans ?_) rfl rfl rfl (.inl rfl),fun _ he => (by cases he),
        fun _ he => (by cases he),fun _ he => (by cases he),fun _ he => (by cases he)⟩
      split_ifs with hd
      · rw [hc hd.1 hd.2]
        rfl
      · exact h.keys
    · cases hs
  | window e =>
    obtain rfl := some.inj hs
    obtain ⟨db,hw,hg,hco,hkd⟩ := s.event_spec h.coherent h.keys hc
    obtain ⟨h1,h2,h3,h4,-⟩ := s.event_rest e
    refine ⟨h.grow hg hco hw hkd h1 h2 h3 (.inr ⟨rfl,h4⟩),fun ev he => ?_,fun _ he => (by cases he),
      fun _ he => (by cases he),fun _ he => (by cases he)⟩
    cases he
    exact hg.aQueued
  | windowDone =>
    refine ⟨?_,fun _ he => (by cases he),fun _ he => (by cases he),fun _ he => (by cases he),
      fun _ he => (by cases he)⟩
    simp only [Vcb01.step] at hs
    obtain rfl := some.inj hs
    split_ifs
    · exact h.grow (.rfl_of rfl rfl rfl rfl) h.coherent .nil h.keys rfl rfl rfl (.inl rfl)
    · exact h
  | web es =>
    simp only [Vcb01.step] at hs
    split at hs
    · cases hs
    · obtain rfl := some.inj hs
      obtain ⟨db,hw,hg,hco,hkd,h1,h2,h3⟩ := s.events_spec h.coherent h.keys hc
      refine ⟨h.grow hg hco hw hkd h1 h2 h3 (.inl rfl),fun _ he => (by cases he),fun es' he => ?_,
        fun _ he => (by cases he),fun _ he => (by cases he)⟩
      cases he
      exact hg.aQueued

def stepHeld (x : Vcb01 × List Nat) (e : Vcb01Step) : Option (Vcb01 × List Nat) :=
  (x.1.step e).map fun t => (t,heldAfter x.2 e)

/-- In every run of careful steps every byte is read once and in order, the bus reads what the FIFOs are, and
the next step delivers too. -/
theorem input_right {es : List Vcb01Step}
    (h : Run (Guarded (fun x e => x.1.Careful x.2 e) stepHeld) (Vcb01.start,[]) es (s,held)) :
    s.Kept ∧ ∀ e t,s.Careful held e → s.step e=some t → s.Delivers held e t := by
  have hinv : Inv s held := h.invariant (P := fun x => Inv x.1 x.2)
    (fun x e y hi hs => by
      obtain ⟨t,ht,rfl⟩ := Option.map_eq_some_iff.mp hs.2
      exact (hi.step hs.1 ht).1)
    Inv.start
  exact ⟨hinv.kept,fun e t hc hs => (hinv.step hc hs).2⟩

instance (held : List Nat) : (e : InputEvent) → Decidable (CarefulKey held e)
  | .key k keysym true => inferInstanceAs (Decidable (lkCode keysym≠0 → k∉held))
  | .key k keysym false => inferInstanceAs (Decidable (lkCode keysym≠0 ↔ k∈held))
  | .pointer _ _ _ _ => isTrue trivial

instance carefulKeysDecidable : (held : List Nat) → (es : List InputEvent) → Decidable (CarefulKeys held es)
  | _,[] => isTrue trivial
  | held,e::es =>
    have := carefulKeysDecidable (keysAfter held e) es
    inferInstanceAs (Decidable (CarefulKey held e ∧ CarefulKeys (keysAfter held e) es))

instance (s : Vcb01) (held : List Nat) : (e : Vcb01Step) → Decidable (s.Careful held e)
  | .callback => inferInstanceAs (Decidable
      ((∀ r∈s.reading,r.1=3 → receiverReady r.2=false → s.input.a.rxfifo=[]) ∧
        ∀ r∈s.reading,r.1=11 → receiverReady r.2=false → s.input.b.rxfifo=[]))
  | .write reg value => inferInstanceAs (Decidable (reg=3 → value%0x100=0xd3 → held=[]))
  | .window e => inferInstanceAs (Decidable (CarefulKey held e))
  | .web es => inferInstanceAs (Decidable (CarefulKeys held es))
  | .cycle _ | .windowDone => isTrue trivial

/-- A key is pressed in the window and released in a browser, with a read before, between and after. -/
def oneKey : List Vcb01Step :=
  [.cycle 3,.callback,.window (.key 30 0x61 true),.windowDone,.cycle 3,.web [.key 30 0x61 false],.callback,.cycle 3]

theorem input_right_key : ∃ s : Vcb01,s.gotA=[0xc2] ∧ s.input.a.queued=[0xc2,lkAllUp] ∧
    ∀ t,s.step .callback=some t → t.gotA=[0xc2,lkAllUp] := by
  obtain ⟨x,hx,hp⟩ := run_of_foldlM (fun x e => x.1.Careful x.2 e) stepHeld
    (fun x : Vcb01 × List Nat => decide (x.1.gotA=[0xc2] ∧ x.1.input.a.queued=[0xc2,lkAllUp] ∧
      x.1.reading=some (3,0x1b3) ∧ x.1.Careful x.2 .callback)) oneKey (Vcb01.start,[]) (by decide +kernel)
  obtain ⟨s,held⟩ := x
  obtain ⟨h1,h2,h3,h4⟩ := of_decide_eq_true hp
  obtain ⟨-,hd⟩ := input_right hx
  refine ⟨s,h1,h2,fun t ht => ?_⟩
  rw [((hd .callback t h4 ht).readA _ rfl h3).1,h1]
  decide

/-- A key that is pressed between the bus cycle of a read and its callback is lost. -/
theorem byte_lost : ∃ s : Vcb01,Run (fun s e t => s.step e=some t) Vcb01.start
    [.cycle 3,.web [.key 30 0x61 true],.callback] s ∧
    s.input.a.queued=[0xc2] ∧ s.gotA=[] ∧ s.input.a.rxfifo=[] ∧ ¬s.Kept := by
  refine ⟨_,run_of_foldlM_eq rfl,by decide +kernel,by decide +kernel,by decide +kernel,fun hk => ?_⟩
  have h := hk.keyboard
  revert h
  decide +kernel

end Vcb01

end QUniLator.Display
