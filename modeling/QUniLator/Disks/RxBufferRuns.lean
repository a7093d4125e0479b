import Mathlib.Data.List.Basic
import QUniLator.Disks.RxBuffers

namespace QUniLator.Disks.Rx

open List List

def sectorWords (doubleDensity : Bool) : Nat := if doubleDensity then 128 else 64

def bytesOf (words : List Nat) : List Nat := words.flatMap fun w => [w%256,w/256%256]

/-- The first `n` words of a buffer -/
def wordsOf (buffer : List Nat) (n : Nat) : List Nat :=
  (range n).map fun i => buffer.getD (2*i) 0+0x100*buffer.getD (2*i+1) 0

/-- Left out are an RX2CS that changes function or density under a command, an RX2DB with a transfer before the
interface or, behind an INIT, without such a track, a word count between the words and the bytes of a sector, and a
worker ahead of the first byte. -/
def Rx211.Careful (s : Rx211) (e : Access) : Prop :=
  match e with
  | .writeCs w _ =>
    (s.stage≠.base → Function.ofCode (w/2%8)=s.functionSelect) ∧
      (w/0x4000%2≠1 → .formatTrack∈s.programSteps →
        s.driveDensity (decide (w/0x10%2=1))=s.programDensity)
  | .writeDb w =>
    s.stage≠.dmaBusy ∧
      (s.stage=.base → s.functionCode.addresses=true → s.byteIdx=1 → s.waiting=false →
        s.programSteps.head? = some .seek → w%0x80<cylinderCount)
  | .take _ _ =>
    s.functionSelect≠.readErrorCode →
      s.rx2wc ≤ sectorWords s.functionDensity ∨ transferByteCount true s.functionSelect s.functionDensity<s.rx2wc
  | .pump _ _ _ => s.transferRequest=true ∨ s.dmaWords=0
  | .work _ => True

instance (s : Rx211) : (e : Access) → Decidable (s.Careful e)
  | .writeCs w _ => inferInstanceAs (Decidable
      ((s.stage≠.base → Function.ofCode (w/2%8)=s.functionSelect) ∧
        (w/0x4000%2≠1 → .formatTrack∈s.programSteps →
          s.driveDensity (decide (w/0x10%2=1))=s.programDensity)))
  | .writeDb w => inferInstanceAs (Decidable (s.stage≠.dmaBusy ∧
      (s.stage=.base → s.functionCode.addresses=true → s.byteIdx=1 → s.waiting=false →
        s.programSteps.head? = some .seek → w%0x80<cylinderCount)))
  | .take _ _ => inferInstanceAs (Decidable (s.functionSelect≠.readErrorCode →
      s.rx2wc ≤ sectorWords s.functionDensity ∨ transferByteCount true s.functionSelect s.functionDensity<s.rx2wc))
  | .pump _ _ _ => inferInstanceAs (Decidable (s.transferRequest=true ∨ s.dmaWords=0))
  | .work _ => inferInstanceAs (Decidable True)

structure Rx211.Does (s : Rx211) (e : Access) (t : Rx211) : Prop where
  memory : (∀ reached rest stale,e≠.pump reached rest stale) → t.memory=s.memory
  refused : ∀ reached rxes,e=.take reached rxes → s.functionSelect≠.readErrorCode →
    sectorWords s.functionDensity<s.rx2wc →
      t.sectorBuffer=s.sectorBuffer ∧ t.wordCountOverflow=true ∧ t.signalError=true ∧
        t.extendedStatus[0]? = some 0o230 ∧ t.stage=.base
  accepted : ∀ reached rxes,e=.take reached rxes → s.functionSelect≠.readErrorCode →
    s.rx2wc ≤ sectorWords s.functionDensity →
      if s.functionSelect=.fillBuffer then
        t.worker=.pumping (s.dmaRead reached) ∧ (s.dmaRead reached).length=s.rx2wc
      else t.worker=.pumping [] ∧ t.sectorBuffer=s.sectorBuffer
  filled : ∀ reached rest stale words,e=.pump reached rest stale → s.worker=.pumping words →
    s.functionSelect=.fillBuffer →
      t.sectorBuffer=bytesOf words++replicate (256-2*words.length) 0 ∧ t.memory=s.memory
  emptied : ∀ reached rest stale,e=.pump reached rest stale → s.functionSelect=.emptyBuffer →
    t.sectorBuffer=s.sectorBuffer ∧
      t.memory=Rx211.store s.memory s.busAddr ((wordsOf s.sectorBuffer s.rx2wc).take reached)

section
variable {s : Rx211}

theorem bytesOf_length (ws : List Nat) : (bytesOf ws).length=2*ws.length := by
  induction ws with
  | nil => rfl
  | cons w ws ih =>
    rw [bytesOf,flatMap_cons,length_append]
    show 2+(bytesOf ws).length=_
    rw [ih,length_cons]
    omega

theorem take_set_set {l : List Nat} {i : Nat} (h : i+2≤l.length) (a b : Nat) :
    ((l.set i a).set (i+1) b).take (i+2)=l.take i++[a,b] := by
  apply ext_getElem?
  intro j
  grind

theorem drop_set_set {l : List Nat} {i n : Nat} (h : i+2≤n) (a b : Nat) :
    ((l.set i a).set (i+1) b).drop n=l.drop n := by
  rw [drop_set_of_lt (by omega),drop_set_of_lt (by omega)]

def Rx211.pumped (s : Rx211) (buffer : List Nat) (idx : Nat) (request woken : Bool) (rxdb : Nat) : Rx211 :=
  { s with sectorBuffer := buffer,byteIdx := idx,transferRequest := request,woken := woken,rxdb := rxdb }

theorem rxdbAfterWrite_fill (hp : s.programSteps≠[]) (hf : s.functionCode=.fillBuffer)
    (hl : s.byteIdx<s.sectorBuffer.length) (hi : s.byteIdx<s.byteCount) (w : Nat) :
    s.rxdbAfterWrite w=s.pumped (s.sectorBuffer.set s.byteIdx (w%256)) (s.byteIdx+1)
      (if s.byteCount ≤ s.byteIdx+1 then false else s.transferRequest)
      (if s.byteCount ≤ s.byteIdx+1 then s.waiting else s.woken) s.rxdb := by
  have he : s.programSteps.isEmpty=false := isEmpty_eq_false_iff.2 hp
  have hm : s.rxdbAfterWrite w=s.fillByte w := by
    unfold Rx211.rxdbAfterWrite
    rw [he,if_neg (by decide),if_neg (Nat.not_le_of_lt hi),hf]
  rw [hm,Rx211.fillByte,Rx211.putSector,if_pos hl]
  by_cases hlast : s.byteCount ≤ s.byteIdx+1
  · rw [if_pos hlast,if_pos hlast,if_pos hlast]
    rfl
  · rw [if_neg hlast,if_neg hlast,if_neg hlast]
    rfl

theorem pumpIn_eq (ws : List Nat) (s : Rx211) (hp : s.programSteps≠[]) (hf : s.functionCode=.fillBuffer)
    (hc : s.byteCount=s.byteIdx+2*ws.length) (hl : s.byteCount ≤ s.sectorBuffer.length)
    (ht : ws≠[] → s.transferRequest) : ∃ request woken,s.pumpIn ws =
      s.pumped (s.sectorBuffer.take s.byteIdx++bytesOf ws++s.sectorBuffer.drop s.byteCount) s.byteCount request
        woken s.rxdb := by
  induction ws generalizing s with
  | nil =>
    have hi : s.byteCount=s.byteIdx := hc
    refine ⟨s.transferRequest,s.woken,?_⟩
    rw [hi,show bytesOf []=[] from rfl,append_nil,take_append_drop]
    rfl
  | cons w ws ih =>
    rw [length_cons] at hc
    have hr := ht (cons_ne_nil w ws)
    -- the low byte, with which the request stands
    obtain ⟨u,hu⟩ : ∃ u,s.pumped (s.sectorBuffer.set s.byteIdx (w%256)) (s.byteIdx+1) true s.woken s.rxdb=u :=
      ⟨_,rfl⟩
    have h1 : s.rxdbAfterWrite (w%256)=u := by
      rw [rxdbAfterWrite_fill hp hf (by omega) (by omega),if_neg (by omega),if_neg (by omega),hr,Nat.mod_mod]
      exact hu
    -- the high byte
    obtain ⟨v,hv⟩ : ∃ v,u.rxdbAfterWrite (w/256)=v := ⟨_,rfl⟩
    have h2 := hv.symm.trans (rxdbAfterWrite_fill (by rw [← hu]; exact hp) (by rw [← hu]; exact hf)
      (by rw [← hu]; show s.byteIdx+1<(s.sectorBuffer.set _ _).length; rw [length_set]; omega)
      (by rw [← hu]; show s.byteIdx+1<s.byteCount; omega) (w/256))
    have hpump : s.pumpIn (w::ws)=v.pumpIn ws := by
      rw [Rx211.pumpIn,if_pos hr,h1]
      show ((u.assert u.transferRequest).rxdbAfterWrite (w/256)).pumpIn ws=_
      rw [show u.transferRequest=true by rw [← hu]; rfl,show u.assert true=u from rfl,hv]
    subst hu
    have hlen : v.sectorBuffer.length=s.sectorBuffer.length := by
      rw [h2]
      show ((s.sectorBuffer.set _ _).set _ _).length=_
      rw [length_set,length_set]
    obtain ⟨request,woken,hv'⟩ := ih v (by rw [h2]; exact hp) (by rw [h2]; exact hf)
      (by rw [h2]; show s.byteCount=s.byteIdx+1+1+2*ws.length; omega)
      (by rw [hlen,h2]; exact hl)
      (fun hne => by
        have := length_pos_iff.2 hne
        rw [h2]
        exact if_neg (show ¬s.byteCount ≤ s.byteIdx+1+1 by omega))
    refine ⟨request,woken,?_⟩
    have htake := take_set_set (l := s.sectorBuffer) (i := s.byteIdx) (by omega) (w%256) (w/256%256)
    have hdrop := drop_set_set (l := s.sectorBuffer) (i := s.byteIdx) (n := s.byteCount) (by omega) (w%256)
      (w/256%256)
    have hbytes : bytesOf (w::ws)=[w%256,w/256%256]++bytesOf ws := rfl
    rw [hpump,hv',hbytes,← append_assoc,← htake,← hdrop,h2]
    rfl

theorem rxdbAfterRead_empty (hp : s.programSteps≠[]) (hf : s.functionCode=.emptyBuffer ∨
    s.functionCode=.readErrorCode) (hl : s.byteCount ≤ s.transferBuffer.length) (hi : s.byteIdx<s.byteCount) :
    s.rxdbAfterRead=s.pumped s.sectorBuffer (s.byteIdx+1)
      (if s.byteIdx+1<s.byteCount then s.transferRequest else false)
      (if s.byteIdx+1<s.byteCount then s.woken else s.waiting)
      (if s.byteIdx+1<s.byteCount then s.transferBuffer.getD (s.byteIdx+1) 0 else s.rxdb) := by
  have he : s.programSteps.isEmpty=false := isEmpty_eq_false_iff.2 hp
  have hm : s.rxdbAfterRead =
      if s.byteIdx+1<s.byteCount then { s with byteIdx := s.byteIdx+1 }.loadRxdb (s.byteIdx+1)
      else { s with byteIdx := s.byteIdx+1 }.transferComplete := by
    unfold Rx211.rxdbAfterRead
    rw [he,decide_eq_false (Nat.not_le_of_lt hi),if_neg (by decide)]
    obtain hf | hf := hf
    all_goals rw [hf]
  rw [hm]
  by_cases hlast : s.byteIdx+1<s.byteCount
  · rw [if_pos hlast,if_pos hlast,if_pos hlast,if_pos hlast]
    have hget : s.transferBuffer[s.byteIdx+1]? = some (s.transferBuffer.getD (s.byteIdx+1) 0) := by
      rw [getD_eq_getElem?_getD,getElem?_eq_getElem (by omega)]
      rfl
    unfold Rx211.loadRxdb
    rw [show ({ s with byteIdx := s.byteIdx+1 } : Rx211).transferBuffer=s.transferBuffer from rfl,hget]
    rfl
  · rw [if_neg hlast,if_neg hlast,if_neg hlast,if_neg hlast]
    rfl

theorem getD_drop (l : List Nat) (i j : Nat) : (l.drop i).getD j 0=l.getD (i+j) 0 := by
  rw [getD_eq_getElem?_getD,getD_eq_getElem?_getD,getElem?_drop]

theorem wordsOf_succ (l : List Nat) (n : Nat) :
    wordsOf l (n+1)=(l.getD 0 0+0x100*l.getD 1 0)::wordsOf (l.drop 2) n := by
  unfold wordsOf
  rw [range_succ_eq_map,map_cons,map_map]
  refine congrArg₂ cons rfl (map_congr_left fun i _ => ?_)
  rw [getD_drop,getD_drop,show 2+2*i=2*(i+1) by omega,show 2+(2*i+1)=2*(i+1)+1 by omega]
  rfl

theorem pumpOut_eq (n : Nat) (s : Rx211) (hp : s.programSteps≠[]) (hf : s.functionCode=.emptyBuffer ∨
    s.functionCode=.readErrorCode) (hl : s.byteCount ≤ s.transferBuffer.length) (hc : s.byteCount=s.byteIdx+2*n)
    (ht : 0<n → s.transferRequest ∧ s.rxdb=s.transferBuffer.getD s.byteIdx 0) :
    ∃ request woken rxdb,s.pumpOut n =
      (s.pumped s.sectorBuffer s.byteCount request woken rxdb,wordsOf (s.transferBuffer.drop s.byteIdx) n) := by
  induction n generalizing s with
  | zero =>
    have hi : s.byteCount=s.byteIdx := hc
    refine ⟨s.transferRequest,s.woken,s.rxdb,?_⟩
    rw [hi]
    rfl
  | succ n ih =>
    obtain ⟨hr,hx⟩ := ht (Nat.succ_pos n)
    have hnext : s.byteIdx+1<s.byteCount := by omega
    obtain ⟨u,hu⟩ : ∃ u,s.pumped s.sectorBuffer (s.byteIdx+1) true s.woken
        (s.transferBuffer.getD (s.byteIdx+1) 0)=u := ⟨_,rfl⟩
    have h1 : s.rxdbAfterRead=u := by
      rw [rxdbAfterRead_empty hp hf hl (by omega),if_pos hnext,if_pos hnext,if_pos hnext,hr]
      exact hu
    obtain ⟨v,hv⟩ : ∃ v,u.rxdbAfterRead=v := ⟨_,rfl⟩
    have h2 := hv.symm.trans (rxdbAfterRead_empty (by rw [← hu]; exact hp) (by rw [← hu]; exact hf)
      (by rw [← hu]; exact hl) (by rw [← hu]; exact hnext))
    have hpump : s.pumpOut (n+1)=((v.pumpOut n).1,(s.rxdb+0x100*u.rxdb)::(v.pumpOut n).2) := by
      rw [Rx211.pumpOut,if_pos hr,h1]
      show (((u.assert u.transferRequest).rxdbAfterRead.pumpOut n).1,_ ::
        ((u.assert u.transferRequest).rxdbAfterRead.pumpOut n).2)=_
      rw [show u.transferRequest=true by rw [← hu]; rfl,show u.assert true=u from rfl,hv]
    subst hu
    have htb : v.transferBuffer=s.transferBuffer := by
      rw [h2]
      rfl
    obtain ⟨request,woken,rxdb,hv'⟩ := ih v (by rw [h2]; exact hp) (by rw [h2]; exact hf)
      (by rw [htb,h2]; exact hl) (by rw [h2]; show s.byteCount=s.byteIdx+1+1+2*n; omega)
      (fun hn => by
        have hlast : s.byteIdx+1+1<s.byteCount := by omega
        rw [htb,h2]
        exact ⟨if_pos hlast,if_pos hlast⟩)
    refine ⟨request,woken,rxdb,?_⟩
    have hdrop : v.byteIdx=s.byteIdx+2 := by
      rw [h2]
      rfl
    rw [hpump,hv',htb,hdrop,wordsOf_succ,drop_drop,getD_drop,getD_drop,hx,h2]
    rfl

/-- No transfer step is to come, and none waits. -/
structure Quiet (s : Rx211) : Prop where
  waiting : s.waiting=false
  steps : ∀ st∈s.programSteps,st.transfers=false

/-- The micro-CPU: a program has its transfer first, a track that does not exist is not sought, and the drive that is
formatted has the density of the program. -/
structure Sound (s : Rx211) : Prop where
  failed : s.failed=false
  buffer : s.sectorBuffer.length=256
  status : s.extendedStatus.length=8
  tail : ∀ st∈s.programSteps.tail,st.transfers=false
  first : .seek∈s.programSteps.tail → ∃ st,s.programSteps.head? = some st ∧ st.transfers=true
  once : .seek∉s.programSteps.tail.tail
  read : .transferBufferRead∈s.programSteps → s.functionCode=.emptyBuffer ∨ s.functionCode=.readErrorCode
  track : .seek∈s.programSteps → s.rxta<cylinderCount ∨ (s.functionCode.addresses=true ∧
    ((s.waiting=true ∧ (s.woken=false ∨ s.signalError=true)) ∨
      (s.waiting=false ∧ ∃ st,s.programSteps.head? = some st ∧ st.transfers=true)))
  format : .formatTrack∈s.programSteps → s.driveDensity s.unit=s.programDensity

/-- The interface between its commands -/
structure Idle (s : Rx211) : Prop where
  quiet : s.signalDone=true ∨ s.stage≠.base → Quiet s
  filled : s.functionCode=.fillBuffer → s.byteCount ≤ s.byteIdx
  unentered : s.functionCode=.fillBuffer → s.waiting=false → (∃ st∈s.programSteps,st.transfers=true) →
    s.byteCount=0

/-- The interface at a transfer: the micro-CPU is before its transfer step, or waits in it. -/
structure Pumping (s : Rx211) (words : List Nat) : Prop where
  stage : s.stage=.dmaBusy
  code : s.functionCode=s.functionSelect
  count : s.byteCount=2*s.dmaWords
  fits : s.byteCount ≤ s.transferBuffer.length
  steps : ∃ fin,s.programSteps =
    [if s.functionSelect=.fillBuffer then .transferBufferWrite else .transferBufferRead,fin] ∧ fin.transfers=false
  done : s.signalDone=false
  phase : (s.waiting=false ∧ s.transferRequest=false) ∨
    (s.waiting=true ∧ s.woken=false ∧ s.transferRequest=true ∧ s.byteIdx=0 ∧
      (s.functionSelect≠.fillBuffer → s.rxdb=s.transferBuffer.getD 0 0))
  fill : s.functionSelect=.fillBuffer → s.sectorBuffer=replicate 256 0 ∧ words.length=s.dmaWords

structure Inv (s : Rx211) : Prop where
  sound : Sound s
  select : s.stage≠.base → s.functionSelect.buffers=true
  wc : s.stage=.waitRx2wc → s.functionSelect≠.readErrorCode
  words : s.stage≠.base → s.stage≠.waitRx2wc →
    s.dmaWords=if s.functionSelect=.readErrorCode then 4 else s.rx2wc
  idle : s.worker=.idle → Idle s
  pumping : ∀ words,s.worker=.pumping words → Pumping s words

theorem putStatus_eq (h : s.extendedStatus.length=8) {i : Nat} (hi : i<8) (b : Nat) :
    s.putStatus i b={ s with extendedStatus := s.extendedStatus.set i b } := by
  unfold Rx211.putStatus
  rw [if_pos (h ▸ hi)]

theorem fault_eq (h : s.extendedStatus.length=8) (code : Nat) :
    s.fault code={ s with signalError := true,extendedStatus := s.extendedStatus.set 0 code } :=
  putStatus_eq (s := { s with signalError := true }) h (by decide) code

theorem putStatus_keeps (h : s.extendedStatus.length=8) {i : Nat} (hi : i<8) (h0 : 0 < i) (b : Nat) :
    ∃ x,x.length=8 ∧ x[0]? = s.extendedStatus[0]? ∧ s.putStatus i b={ s with extendedStatus := x } :=
  ⟨s.extendedStatus.set i b,(length_set ..).trans h,getElem?_set_ne (Nat.ne_of_gt h0),putStatus_eq h hi b⟩

theorem completeErrorCodes_eq (h : s.extendedStatus.length=8) :
    ∃ x,x.length=8 ∧ x[0]? = s.extendedStatus[0]? ∧ s.completeErrorCodes={ s with extendedStatus := x } := by
  unfold Rx211.completeErrorCodes
  dsimp only
  generalize Nat.lor _ _=word6
  generalize (if s.unit then s.cylinder1 else s.cylinder0)=word7
  obtain ⟨a,ha,ha0,hea⟩ := putStatus_keeps h (show 2<8 by decide) (by decide) s.cylinder0
  obtain ⟨b,hb,hb0,heb⟩ := putStatus_keeps (s := { s with extendedStatus := a }) ha (show 3<8 by decide) (by decide)
    s.cylinder1
  obtain ⟨c,hc,hc0,hec⟩ := putStatus_keeps (s := { s with extendedStatus := b }) hb (show 6<8 by decide) (by decide)
    word6
  obtain ⟨d,hd,hd0,hed⟩ := putStatus_keeps (s := { s with extendedStatus := c }) hc (show 7<8 by decide) (by decide)
    word7
  rw [hea,heb,hec,hed]
  exact ⟨d,hd,hd0.trans (hc0.trans (hb0.trans ha0)),rfl⟩

theorem stepDone_eq (h : s.extendedStatus.length=8) (rxes : Nat) :
    ∃ x,x.length=8 ∧ x[0]? = s.extendedStatus[0]? ∧ s.stepDone rxes={ s with
        extendedStatus := x,signalDone := true,transferRequest := false,rxdb := rxes } := by
  obtain ⟨x,hx,h0,he⟩ := completeErrorCodes_eq h
  refine ⟨x,hx,h0,?_⟩
  unfold Rx211.stepDone
  rw [he]

theorem diskAddress_eq (h : s.extendedStatus.length=8) (w : Nat) :
    ∃ x idx err sector track request woken,x.length=8 ∧ s.diskAddress w={ s with
        extendedStatus := x,byteIdx := idx,signalError := err,rxsa := sector,rxta := track
        transferRequest := request,woken := woken } ∧
      (s.signalError → err) ∧
      ((track=s.rxta ∧ woken=s.woken) ∨
        (s.byteIdx=1 ∧ track=w%0x80 ∧ woken=s.waiting ∧ (track<cylinderCount ∨ err))) := by
  unfold Rx211.diskAddress
  split
  · rename_i h0
    have hput := putStatus_eq h (show 5<8 by decide) (w%0x20)
    rw [hput]
    dsimp only
    split
    · rw [fault_eq (s := { s with extendedStatus := s.extendedStatus.set 5 (w%0x20),rxsa := w%0x20,byteIdx := 1 })
        ((length_set ..).trans h)]
      exact ⟨_,_,_,_,_,_,_,(length_set ..).trans ((length_set ..).trans h),rfl,fun _ => rfl,.inl ⟨rfl,rfl⟩⟩
    · exact ⟨_,_,_,_,_,_,_,(length_set ..).trans h,rfl,id,.inl ⟨rfl,rfl⟩⟩
  · split
    · rename_i h1
      have hput := putStatus_eq h (show 4<8 by decide) (w%0x80)
      rw [hput]
      dsimp only
      split
      · rw [fault_eq (s := { s with extendedStatus := s.extendedStatus.set 4 (w%0x80),rxta := w%0x80,byteIdx := 2 })
          ((length_set ..).trans h)]
        exact ⟨_,_,_,_,_,_,_,(length_set ..).trans ((length_set ..).trans h),rfl,fun _ => rfl,
          .inr ⟨h1,rfl,rfl,.inr rfl⟩⟩
      · rename_i htrack
        exact ⟨_,_,_,_,_,_,_,(length_set ..).trans h,rfl,id,.inr ⟨h1,rfl,rfl,.inl (Nat.lt_of_not_le htrack)⟩⟩
    · exact ⟨s.extendedStatus,_,s.signalError,s.rxsa,s.rxta,s.transferRequest,s.woken,h,rfl,id,.inl ⟨rfl,rfl⟩⟩

theorem keyWord_eq (h : s.extendedStatus.length=8) (w : Nat) : ∃ x err request woken,x.length=8 ∧ s.keyWord w={ s with
        extendedStatus := x,signalError := err,transferRequest := request,woken := woken } := by
  unfold Rx211.keyWord
  split
  · split
    · rw [fault_eq h]
      exact ⟨_,_,_,_,(length_set ..).trans h,rfl⟩
    · exact ⟨_,_,_,_,h,rfl⟩
  · exact ⟨s.extendedStatus,s.signalError,s.transferRequest,s.woken,h,rfl⟩

theorem Inv.rxdbAfterWrite (h : Inv s) (hw : s.worker=.idle) {w : Nat}
    (hc : s.functionCode.addresses → s.byteIdx=1 → s.waiting=false →
      s.programSteps.head? = some .seek → w%0x80<cylinderCount) :
    Inv (s.rxdbAfterWrite w) ∧ (s.rxdbAfterWrite w).memory=s.memory := by
  have hs := h.sound
  have hi := h.idle hw
  have hpump : ∀ ws,s.worker≠.pumping ws := fun ws hx => by rw [hw] at hx; cases hx
  unfold Rx211.rxdbAfterWrite
  split
  · exact ⟨⟨⟨hs.failed,hs.buffer,hs.status,hs.tail,hs.first,hs.once,hs.read,hs.track,hs.format⟩,h.select,h.wc,h.words,
      fun _ => ⟨fun hd => ⟨(hi.quiet hd).waiting,(hi.quiet hd).steps⟩,hi.filled,hi.unentered⟩,
      fun ws hx => absurd hx (hpump ws)⟩,rfl⟩
  · split
    · exact ⟨h,rfl⟩
    · rename_i hmore
      have haddress (hf : s.functionCode≠.fillBuffer) (ha : s.functionCode.addresses=true) :
          Inv (s.diskAddress w) ∧ (s.diskAddress w).memory=s.memory := by
        obtain ⟨x,idx,err,sector,track,request,woken,hx,he,herr,htrack⟩ := diskAddress_eq hs.status w
        rw [he]
        refine ⟨⟨⟨hs.failed,hs.buffer,hx,hs.tail,hs.first,hs.once,hs.read,?_,hs.format⟩,h.select,h.wc,h.words,
          fun _ => ⟨fun hd => ⟨(hi.quiet hd).waiting,(hi.quiet hd).steps⟩,fun hx => absurd hx hf,fun hx => absurd hx hf⟩,
          fun ws hx => absurd hx (hpump ws)⟩,rfl⟩
        intro hseek
        obtain ⟨rfl,rfl⟩ | ⟨hidx,rfl,rfl,hok⟩ := htrack
        · obtain hlt | ⟨_,⟨hwait,hwoken⟩ | hhead⟩ := hs.track hseek
          · exact .inl hlt
          · exact .inr ⟨ha,.inl ⟨hwait,hwoken.imp_right herr⟩⟩
          · exact .inr ⟨ha,.inr hhead⟩
        · obtain hlt | herror := hok
          · exact .inl hlt
          · cases hwait : s.waiting with
            | true => exact .inr ⟨ha,.inl ⟨rfl,.inr herror⟩⟩
            | false =>
              -- behind the wait the seek is the next step, and its track is good
              cases hp : s.programSteps with
              | nil => rw [hp] at hseek; cases hseek
              | cons st rest =>
                cases hst : st.transfers with
                | true => exact .inr ⟨ha,.inr ⟨rfl,st,rfl,hst⟩⟩
                | false =>
                  rw [hp] at hseek
                  obtain rfl | hrest := mem_cons.1 hseek
                  · exact .inl (hc ha hidx hwait (by rw [hp]; rfl))
                  · obtain ⟨st',hhead,htr⟩ := hs.first (by rw [hp]; exact hrest)
                    rw [hp] at hhead
                    cases hhead
                    exact absurd (hst.symm.trans htr) (by decide)
      split
      · rename_i hf
        exact absurd (hi.filled hf) hmore
      · rename_i hf
        exact haddress (fun hx => by rw [hf] at hx; cases hx) (by rw [hf]; rfl)
      · rename_i hf
        exact haddress (fun hx => by rw [hf] at hx; cases hx) (by rw [hf]; rfl)
      · rename_i hf
        exact haddress (fun hx => by rw [hf] at hx; cases hx) (by rw [hf]; rfl)
      · rename_i hf
        obtain ⟨x,err,request,woken,hx,he⟩ := keyWord_eq hs.status w
        rw [he]
        refine ⟨⟨⟨hs.failed,hs.buffer,hx,hs.tail,hs.first,hs.once,hs.read,?_,hs.format⟩,h.select,h.wc,h.words,
          fun _ => ⟨fun hd => ⟨(hi.quiet hd).waiting,(hi.quiet hd).steps⟩,hi.filled,hi.unentered⟩,
          fun ws hx => absurd hx (hpump ws)⟩,rfl⟩
        intro hseek
        obtain hlt | ⟨ha,_⟩ := hs.track hseek
        · exact .inl hlt
        · rw [hf] at ha
          cases ha
      · exact ⟨h,rfl⟩

theorem Inv.writeDb (h : Inv s) {w : Nat} (hc : s.Careful (.writeDb w)) :
    Inv (s.writeDb w) ∧ (s.writeDb w).memory=s.memory := by
  have hs := h.sound
  have hpump (hne : s.stage≠.dmaBusy) : ∀ ws,s.worker≠.pumping ws :=
    fun ws hx => hne (h.pumping ws hx).stage
  have hidle (hne : s.stage≠.dmaBusy) : s.worker=.idle := by
    cases hw : s.worker with
    | idle => rfl
    | pumping ws => exact absurd hw (hpump hne ws)
  have hw := hidle hc.1
  have hi := h.idle hw
  unfold Rx211.writeDb
  split
  · rename_i hb
    exact h.rxdbAfterWrite hw (hc.2 hb)
  · rename_i hst
    rw [putStatus_eq hs.status (by decide)]
    have hq := hi.quiet (.inr (by rw [hst]; decide))
    refine ⟨⟨⟨hs.failed,hs.buffer,(length_set ..).trans hs.status,hs.tail,hs.first,hs.once,hs.read,hs.track,
      hs.format⟩,fun _ => h.select (by rw [hst]; decide),fun hx => (by cases hx),fun _ _ => ?_,
      fun _ => ⟨fun _ => ⟨hq.waiting,hq.steps⟩,hi.filled,hi.unentered⟩,fun ws hx => absurd hx (hpump hc.1 ws)⟩,rfl⟩
    exact (if_neg (h.wc hst)).symm
  · rename_i hst
    have hq := hi.quiet (.inr (by rw [hst]; decide))
    have hne : (if s.q22Mode then Stage.waitRx2baExt else .dmaBusy)≠.waitRx2wc := by split <;> decide
    refine ⟨⟨⟨hs.failed,hs.buffer,hs.status,hs.tail,hs.first,hs.once,hs.read,hs.track,
      hs.format⟩,fun _ => h.select (by rw [hst]; decide),fun hx => absurd hx hne,fun _ _ => ?_,
      fun _ => ⟨fun _ => ⟨hq.waiting,hq.steps⟩,hi.filled,hi.unentered⟩,fun ws hx => absurd hx (hpump hc.1 ws)⟩,rfl⟩
    exact h.words (by rw [hst]; decide) (by rw [hst]; decide)
  · rename_i hst
    have hq := hi.quiet (.inr (by rw [hst]; decide))
    refine ⟨⟨⟨hs.failed,hs.buffer,hs.status,hs.tail,hs.first,hs.once,hs.read,hs.track,
      hs.format⟩,fun _ => h.select (by rw [hst]; decide),fun hx => (by cases hx),fun _ _ => ?_,
      fun _ => ⟨fun _ => ⟨hq.waiting,hq.steps⟩,hi.filled,hi.unentered⟩,fun ws hx => absurd hx (hpump hc.1 ws)⟩,rfl⟩
    exact h.words (by rw [hst]; decide) (by rw [hst]; decide)
  · rename_i hst
    exact absurd hst hc.1

structure Behind (s : Rx211) : Prop where
  failed : s.failed=false
  buffer : s.sectorBuffer.length=256
  status : s.extendedStatus.length=8
  tail : ∀ st∈s.programSteps.tail,st.transfers=false
  once : .seek∉s.programSteps.tail.tail
  track : .seek∈s.programSteps.tail → s.signalError=true ∨ s.rxta<cylinderCount
  format : .formatTrack∈s.programSteps.tail → s.driveDensity s.unit=s.programDensity
  waiting : s.waiting=false
  worker : s.worker=.idle
  select : s.stage≠.base → s.functionSelect.buffers=true
  wc : s.stage=.waitRx2wc → s.functionSelect≠.readErrorCode
  words : s.stage≠.base → s.stage≠.waitRx2wc →
    s.dmaWords=if s.functionSelect=.readErrorCode then 4 else s.rx2wc
  filled : s.functionCode=.fillBuffer → s.byteCount ≤ s.byteIdx

theorem Behind.stepNext (h : Behind s) (rxes : Nat) : Inv (s.stepNext rxes) ∧ (s.stepNext rxes).memory=s.memory := by
  have hpump : ∀ ws,s.worker≠.pumping ws := fun ws hx => by rw [h.worker] at hx; cases hx
  unfold Rx211.stepNext
  dsimp only
  split
  · obtain ⟨x,hx,_,he⟩ := stepDone_eq (s := { s with programSteps := [] }) h.status rxes
    rw [he]
    exact ⟨⟨⟨h.failed,h.buffer,hx,fun _ hx => (by cases hx),fun hx => (by cases hx),fun hx => (by cases hx),
      fun hx => (by cases hx),fun hx => (by cases hx),fun hx => by cases hx⟩,h.select,h.wc,h.words,
      fun _ => ⟨fun _ => ⟨h.waiting,fun _ hx => by cases hx⟩,h.filled,fun _ _ ⟨_,hx,_⟩ => by cases hx⟩,
      fun ws hx => absurd hx (hpump ws)⟩,rfl⟩
  · rename_i herr
    refine ⟨⟨⟨h.failed,h.buffer,h.status,fun st hx => h.tail st (mem_of_mem_tail hx),
      fun hx => absurd hx h.once,fun hx => h.once (mem_of_mem_tail hx),?_,?_,h.format⟩,h.select,h.wc,h.words,
      fun _ => ⟨fun _ => ⟨h.waiting,h.tail⟩,h.filled,?_⟩,fun ws hx => absurd hx (hpump ws)⟩,rfl⟩
    · exact fun hx => absurd (h.tail _ hx) (by decide)
    · exact fun hx => .inl ((h.track hx).resolve_left herr)
    · rintro _ _ ⟨st,hx,hst⟩
      exact absurd ((h.tail st hx).symm.trans hst) (by decide)

theorem Inv.leaveTransfer (h : Inv s) (hw : s.worker=.idle) (hwaits : s.waiting)
    (hwoken : s.woken) (rxes : Nat) : Inv (({ s with waiting := false,woken := false } : Rx211).stepNext rxes) ∧
      (({ s with waiting := false,woken := false } : Rx211).stepNext rxes).memory=s.memory := by
  have hs := h.sound
  have hb : Behind { s with waiting := false,woken := false } :=
    ⟨hs.failed,hs.buffer,hs.status,hs.tail,hs.once,fun hx => ?_,fun hx => hs.format (mem_of_mem_tail hx),rfl,hw,
      h.select,h.wc,h.words,(h.idle hw).filled⟩
  · exact hb.stepNext rxes
  · obtain hlt | ⟨_,⟨_,hno | herr⟩ | ⟨hwait,st,hhead,htr⟩⟩ := hs.track (mem_of_mem_tail hx)
    · exact .inr hlt
    · rw [hwoken] at hno
      cases hno
    · exact .inl herr
    · exact absurd (hwaits.symm.trans hwait) (by decide)

def Rx211.executed (s : Rx211) (status buffer : List Nat) (err done request : Bool) (rxdb cylinder0 cylinder1 : Nat) :
    Rx211 :=
  { s with
    extendedStatus := status,sectorBuffer := buffer,signalError := err,signalDone := done
    transferRequest := request,rxdb := rxdb,cylinder0 := cylinder0,cylinder1 := cylinder1 }

theorem executed_self (s : Rx211) :
    s=s.executed s.extendedStatus s.sectorBuffer s.signalError s.signalDone s.transferRequest s.rxdb s.cylinder0
      s.cylinder1 := rfl

theorem sector_length (size : Nat) (data buffer : List Nat) (h : size≤buffer.length) :
    ((range size).map (fun i => data.getD i 0%256)++buffer.drop size).length=buffer.length := by
  rw [length_append,length_map,length_range,length_drop]
  omega

theorem stepExecute_eq (hb : s.sectorBuffer.length=256) (hx : s.extendedStatus.length=8) (st : Step)
    (htrack : st=.seek → s.rxta<cylinderCount)
    (hformat : st=.formatTrack → s.driveDensity s.unit=s.programDensity) (a : Answer) :
    ∃ status buffer err done request rxdb cylinder0 cylinder1,
      s.stepExecute st a=s.executed status buffer err done request rxdb cylinder0 cylinder1 ∧
        status.length=8 ∧ buffer.length=256 := by
  have hfault (code : Nat) : ∃ status buffer err done request rxdb cylinder0 cylinder1,
      s.fault code=s.executed status buffer err done request rxdb cylinder0 cylinder1 ∧
        status.length=8 ∧ buffer.length=256 :=
    ⟨s.extendedStatus.set 0 code,s.sectorBuffer,true,s.signalDone,s.transferRequest,s.rxdb,s.cylinder0,s.cylinder1,
      fault_eq hx code,(length_set ..).trans hx,hb⟩
  have hdone : ∃ status buffer err done request rxdb cylinder0 cylinder1,
      s.stepDone a.rxes=s.executed status buffer err done request rxdb cylinder0 cylinder1 ∧
        status.length=8 ∧ buffer.length=256 := by
    obtain ⟨x,hx',_,he⟩ := stepDone_eq hx a.rxes
    exact ⟨x,s.sectorBuffer,s.signalError,true,false,a.rxes,s.cylinder0,s.cylinder1,he,hx',hb⟩
  unfold Rx211.stepExecute
  cases st with
  | seek =>
    dsimp only
    rw [decide_eq_true (htrack rfl),show s.assert true=s from rfl]
    split
    all_goals exact ⟨_,_,_,_,_,_,_,_,rfl,hx,hb⟩
  | headSettle =>
    dsimp only
    rw [putStatus_eq hx (by decide)]
    exact ⟨_,_,_,_,_,_,_,_,rfl,(length_set ..).trans hx,hb⟩
  | sectorWrite =>
    dsimp only
    split
    · exact hfault _
    · split
      · exact ⟨_,_,_,_,_,_,_,_,rfl,hx,hb⟩
      · exact hfault _
  | sectorRead =>
    dsimp only
    split
    · exact hfault _
    · split
      · have hsize : (if s.driveDensity s.unit=true then 256 else 128) ≤ s.sectorBuffer.length := by
          rw [hb]
          split <;> decide
        rw [decide_eq_true hsize]
        exact ⟨_,_,_,_,_,_,_,_,rfl,hx,(sector_length _ _ _ hsize).trans hb⟩
      · exact hfault _
  | seekNext =>
    dsimp only
    split
    all_goals exact ⟨_,_,_,_,_,_,_,_,rfl,hx,hb⟩
  | formatTrack =>
    dsimp only
    rw [hformat rfl,show (s.programDensity == s.programDensity)=true from beq_self_eq_true _,
      show s.assert true=s from rfl]
    split
    · exact ⟨_,_,_,_,_,_,_,_,executed_self s,hx,hb⟩
    · exact hfault _
  | initDone | doneReadErrorCode | done => exact hdone
  | transferBufferWrite | transferBufferRead => exact ⟨_,_,_,_,_,_,_,_,executed_self s,hx,hb⟩

theorem Inv.execute (h : Inv s) (hw : s.worker=.idle) (hwait : s.waiting=false) {st : Step} {rest : List Step}
    (hp : s.programSteps=st::rest) (hst : st.transfers=false) (a : Answer) :
    Inv ((s.stepExecute st a).stepNext a.rxes) ∧ ((s.stepExecute st a).stepNext a.rxes).memory=s.memory := by
  have hs := h.sound
  have hmem : st∈s.programSteps := hp ▸ mem_cons_self
  have hhead : ¬∃ st',s.programSteps.head? = some st' ∧ st'.transfers=true := by
    rintro ⟨st',hx,htr⟩
    rw [hp] at hx
    cases hx
    exact absurd (hst.symm.trans htr) (by decide)
  have htrack (hx : st=.seek) : s.rxta<cylinderCount := by
    obtain hlt | ⟨_,⟨hx,_⟩ | ⟨_,hx⟩⟩ := hs.track (hx ▸ hmem)
    · exact hlt
    · exact absurd (hwait.symm.trans hx) (by decide)
    · exact absurd hx hhead
  obtain ⟨status,buffer,err,done,request,rxdb,c0,c1,he,hstatus,hbuffer⟩ :=
    stepExecute_eq hs.buffer hs.status st htrack (fun hx => hs.format (hx ▸ hmem)) a
  rw [he]
  have hb : Behind (s.executed status buffer err done request rxdb c0 c1) :=
    ⟨hs.failed,hbuffer,hstatus,hs.tail,hs.once,fun hx => absurd (hs.first hx) hhead,
      fun hx => hs.format (mem_of_mem_tail hx),hwait,hw,h.select,h.wc,h.words,(h.idle hw).filled⟩
  exact hb.stepNext a.rxes

theorem loadRxdb_of_some {i b : Nat} (h : s.transferBuffer[i]? = some b) : s.loadRxdb i={ s with rxdb := b } := by
  unfold Rx211.loadRxdb
  rw [h]

theorem enterTransfer_eq (hs : Sound s) {st : Step} (hmem : st∈s.programSteps) : ∃ rxdb,s.enterTransfer st =
        { s with byteIdx := 0,transferRequest := true,waiting := true,woken := false,rxdb := rxdb } ∧
      (st=.transferBufferRead → rxdb=s.transferBuffer.getD 0 0) := by
  unfold Rx211.enterTransfer
  dsimp only
  split
  · rename_i hst
    subst hst
    have hcode := hs.read hmem
    have hok : (s.functionCode == .emptyBuffer || s.functionCode == .readErrorCode)=true := by
      obtain hf | hf := hcode
      all_goals
        rw [hf]
        rfl
    have hlen : 0<s.transferBuffer.length := by
      unfold Rx211.transferBuffer
      obtain hf | hf := hcode
      all_goals rw [hf]
      · exact hs.buffer ▸ (by decide)
      · exact hs.status ▸ (by decide)
    refine ⟨s.transferBuffer.getD 0 0,?_,fun _ => rfl⟩
    rw [hok]
    have hget : s.transferBuffer[0]? = some (s.transferBuffer.getD 0 0) := by
      rw [getD_eq_getElem?_getD,getElem?_eq_getElem hlen]
      rfl
    exact loadRxdb_of_some hget
  · rename_i hst
    exact ⟨s.rxdb,rfl,fun hx => absurd hx hst⟩

theorem Inv.enterTransfer (h : Inv s) (hwait : s.waiting=false) {st : Step} {rest : List Step}
    (hp : s.programSteps=st::rest) (hst : st.transfers) :
    Inv (s.enterTransfer st) ∧ (s.enterTransfer st).memory=s.memory := by
  have hs := h.sound
  have hmem : st∈s.programSteps := hp ▸ mem_cons_self
  obtain ⟨rxdb,he,hfirst⟩ := enterTransfer_eq hs hmem
  rw [he]
  refine ⟨⟨⟨hs.failed,hs.buffer,hs.status,hs.tail,hs.first,hs.once,hs.read,?_,hs.format⟩,h.select,h.wc,h.words,?_,?_⟩,
    rfl⟩
  · intro hx
    obtain hlt | ⟨ha,_⟩ := hs.track hx
    · exact .inl hlt
    · exact .inr ⟨ha,.inl ⟨rfl,.inl rfl⟩⟩
  · intro hw
    have hi := h.idle hw
    refine ⟨fun hd => ?_,fun hf => ?_,fun _ hx => by cases hx⟩
    · exact absurd ((hi.quiet hd).steps st hmem) (by rw [hst]; decide)
    · exact Nat.le_of_eq (hi.unentered hf hwait ⟨st,hmem,hst⟩)
  · intro ws hw
    have hpm := h.pumping ws hw
    refine ⟨hpm.stage,hpm.code,hpm.count,hpm.fits,hpm.steps,hpm.done,.inr ⟨rfl,rfl,rfl,rfl,fun hf => ?_⟩,hpm.fill⟩
    obtain ⟨fin,hsteps,_⟩ := hpm.steps
    rw [hp,if_neg hf] at hsteps
    exact hfirst (cons.inj hsteps).1

theorem Inv.work (h : Inv s) {a : Answer} {t : Rx211} (hs : s.step (.work a)=some t) : Inv t ∧ t.memory=s.memory := by
  have hidle (hp : ∀ ws,s.worker≠.pumping ws) : s.worker=.idle := by
    cases hw : s.worker with
    | idle => rfl
    | pumping ws => exact absurd hw (hp ws)
  simp only [Rx211.step] at hs
  cases hwait : s.waiting with
  | true =>
    rw [if_pos hwait] at hs
    split at hs
    · rename_i hwoken
      cases hs
      refine h.leaveTransfer (hidle fun ws hw => ?_) hwait hwoken a.rxes
      -- at a transfer the wait is not over
      obtain ⟨hx,_⟩ | ⟨_,hx,_⟩ := (h.pumping ws hw).phase
      · exact absurd (hwait.symm.trans hx) (by decide)
      · exact absurd (hwoken.symm.trans hx) (by decide)
    · cases hs
  | false =>
    rw [if_neg (by rw [hwait]; decide)] at hs
    split at hs
    · cases hs
    · rename_i st rest hp
      cases hs
      cases hst : st.transfers with
      | true => exact h.enterTransfer hwait hp hst
      | false =>
        refine h.execute (hidle fun ws hw => ?_) hwait hp hst a
        obtain ⟨fin,hsteps,_⟩ := (h.pumping ws hw).steps
        rw [hp] at hsteps
        rw [(cons.inj hsteps).1] at hst
        split at hst
        all_goals cases hst

/-- The shape of the programs: a transfer comes first, and what it is followed by -/
def Shape (f : Function) (imageIsOpen : Bool) (steps : List Step) : Prop :=
  (∀ st∈steps.tail,st.transfers=false) ∧ (.seek∈steps.tail → steps.head?.any Step.transfers=true) ∧
    .seek∉steps.tail.tail ∧ (.transferBufferRead∈steps → f=.emptyBuffer ∨ f=.readErrorCode) ∧
    (.seek∈steps → (f.addresses=true ∧ steps.head?.any Step.transfers=true) ∨
      (f=.setMediaDensity ∧ imageIsOpen=true)) ∧
    (.formatTrack∈steps → f=.setMediaDensity ∧ imageIsOpen=true)

instance (f : Function) (imageIsOpen : Bool) (steps : List Step) : Decidable (Shape f imageIsOpen steps) :=
  inferInstanceAs (Decidable (_ ∧ _))

theorem program_shape (f : Function) (doubleDensity : Bool) (rx2wc : Nat) (imageIsOpen : Bool) :
    Shape f imageIsOpen ((⟨f,doubleDensity,rx2wc,imageIsOpen⟩ : Command).program true) := by
  have hformat : Shape .setMediaDensity true ([.transferBufferWrite,.seek,.formatTrack] ++
      (replicate (cylinderCount-1) [Step.seekNext,.formatTrack]).flatten++[.done]) := by decide +kernel
  have hclosed : Shape .setMediaDensity false [.done] := by decide
  cases f with
  | fillBuffer =>
    show Shape _ _ [.transferBufferWrite,.done]
    cases imageIsOpen <;> decide
  | emptyBuffer =>
    show Shape _ _ [.transferBufferRead,.done]
    cases imageIsOpen <;> decide
  | readSector =>
    show Shape _ _ [.transferBufferWrite,.seek,.headSettle,.sectorRead,.done]
    cases imageIsOpen <;> decide
  | writeSector | writeSectorWithDeletedData =>
    show Shape _ _ [.transferBufferWrite,.seek,.headSettle,.sectorWrite,.done]
    cases imageIsOpen <;> decide
  | setMediaDensity =>
    cases imageIsOpen with
    | true => exact hformat
    | false => exact hclosed
  | readStatus =>
    show Shape _ _ [.done]
    cases imageIsOpen <;> decide
  | readErrorCode =>
    show Shape _ _ [.transferBufferRead,.doneReadErrorCode]
    cases imageIsOpen <;> decide

/-- What `go` changes -/
def Rx211.gone (s : Rx211) (f : Function) (doubleDensity imageIsOpen err : Bool) (buffer status : List Nat)
    (track : Nat) (density0 density1 : Bool) : Rx211 :=
  let c : Command := ⟨f,doubleDensity,s.rx2wc,imageIsOpen⟩
  { s with
    functionCode := f,programDensity := doubleDensity,signalDone := false,signalError := err
    wordCountOverflow := false,transferRequest := false,byteCount := c.byteCount true
    programSteps := c.program true,woken := s.waiting,sectorBuffer := buffer,extendedStatus := status
    rxta := track,density0 := density0,density1 := density1 }

theorem go_eq (hx : s.extendedStatus.length=8) (f : Function) (doubleDensity imageIsOpen : Bool) :
    ∃ err status track density0 density1,status.length=8 ∧
      s.go f doubleDensity imageIsOpen=s.gone f doubleDensity imageIsOpen err
        (if f=.fillBuffer then replicate 256 0 else s.sectorBuffer) status track density0 density1 ∧
      (f=.setMediaDensity → imageIsOpen → track=0 ∧ (if s.unit then density1 else density0)=doubleDensity) := by
  have hlen : (replicate 8 0).length=8 := length_replicate
  cases f with
  | fillBuffer | emptyBuffer =>
    exact ⟨_,_,_,_,_,(length_set ..).trans hlen,rfl,fun hx => by cases hx⟩
  | readSector | writeSector | writeSectorWithDeletedData =>
    exact ⟨_,_,_,_,_,hlen,rfl,fun hx => by cases hx⟩
  | readStatus | readErrorCode => exact ⟨_,_,_,_,_,hx,rfl,fun hx => by cases hx⟩
  | setMediaDensity =>
    cases imageIsOpen with
    | false => exact ⟨_,_,_,_,_,hlen,rfl,fun _ hx => by cases hx⟩
    | true =>
      refine ⟨_,_,0,if s.unit then s.density0 else doubleDensity,if s.unit then doubleDensity else s.density1,hlen,
        rfl,fun _ _ => ⟨rfl,?_⟩⟩
      cases s.unit <;> rfl

theorem Sound.gone (hs : Sound s) (hwait : s.waiting=false) (f : Function) (doubleDensity imageIsOpen : Bool) :
    Sound (s.go f doubleDensity imageIsOpen) := by
  obtain ⟨err,status,track,d0,d1,hstatus,he,hformat⟩ := go_eq hs.status f doubleDensity imageIsOpen
  obtain ⟨htail,hfirst,honce,hread,hseek,hfmt⟩ := program_shape f doubleDensity s.rx2wc imageIsOpen
  have hhead {l : List Step} (h : l.head?.any Step.transfers=true) :
      ∃ st,l.head? = some st ∧ st.transfers=true := (Option.any_eq_true _ _).1 h
  rw [he]
  refine ⟨hs.failed,?_,hstatus,htail,fun hx => hhead (hfirst hx),honce,hread,?_,?_⟩
  · show (if f=.fillBuffer then replicate 256 0 else s.sectorBuffer).length=256
    split
    · exact length_replicate
    · exact hs.buffer
  · intro hx
    obtain ⟨ha,hany⟩ | ⟨hf,hopen⟩ := hseek hx
    · exact .inr ⟨ha,.inr ⟨hwait,hhead hany⟩⟩
    · have h0 := (hformat hf hopen).1
      refine .inl ?_
      show track<cylinderCount
      rw [h0]
      decide
  · intro hx
    obtain ⟨hf,hopen⟩ := hfmt hx
    exact (hformat hf hopen).2

variable {f : Function} {words : List Nat}

theorem Inv.latch (h : Inv s) (hw : s.worker=.idle) {unit : Bool} (density q22 : Bool)
    (address rxdb : Nat) (hf : s.stage≠.base → f=s.functionSelect)
    (hd : .formatTrack∈s.programSteps → s.driveDensity unit=s.programDensity) : Inv { s with
      unit := unit,functionSelect := f,functionDensity := density,extendedAddress := address,q22Mode := q22
      rxdb := rxdb } := by
  have hs := h.sound
  have hi := h.idle hw
  refine ⟨⟨hs.failed,hs.buffer,hs.status,hs.tail,hs.first,hs.once,hs.read,hs.track,hd⟩,fun hne => ?_,fun hst => ?_,
    fun hne hne' => ?_,fun _ => ⟨fun hx => ⟨(hi.quiet hx).waiting,(hi.quiet hx).steps⟩,hi.filled,hi.unentered⟩,
    fun ws hx => ?_⟩
  · exact (hf hne).symm ▸ h.select hne
  · exact (hf (by rw [show s.stage=.waitRx2wc from hst]; decide)).symm ▸ h.wc hst
  · have hwords := h.words hne hne'
    rw [← hf hne] at hwords
    exact hwords
  · rw [show s.worker=.pumping ws from hx] at hw
    cases hw

theorem Inv.init (h : Inv s) (hw : s.worker=.idle) {unit : Bool} (density q22 : Bool)
    (address rxdb : Nat) (hf : s.stage≠.base → f=s.functionSelect) : Inv ({ s with
      unit := unit,functionSelect := f,functionDensity := density,extendedAddress := address,q22Mode := q22
      rxdb := rxdb } : Rx211).init := by
  have hs := h.sound
  have hi := h.idle hw
  refine ⟨⟨hs.failed,hs.buffer,length_replicate,?_,?_,?_,?_,fun _ => .inl (show 1<77 by decide),?_⟩,
    fun hne => ?_,fun hst => ?_,fun hne hne' => ?_,fun _ => ⟨fun hx => ⟨?_,?_⟩,hi.filled,?_⟩,fun ws hx => ?_⟩
  · exact (by decide : ∀ st∈[Step.sectorRead,.initDone],st.transfers=false)
  · exact fun hx => absurd hx (by decide : Step.seek∉[Step.sectorRead,.initDone])
  · exact (by decide : Step.seek∉[Step.initDone])
  · exact fun hx => absurd hx (by decide : Step.transferBufferRead∉[Step.seek,.sectorRead,.initDone])
  · exact fun hx => absurd hx (by decide : Step.formatTrack∉[Step.seek,.sectorRead,.initDone])
  · exact (hf hne).symm ▸ h.select hne
  · exact (hf (by rw [show s.stage=.waitRx2wc from hst]; decide)).symm ▸ h.wc hst
  · have hwords := h.words hne hne'
    rw [← hf hne] at hwords
    exact hwords
  · exact (hi.quiet (.inr (hx.resolve_left fun hx => by cases hx))).waiting
  · exact (by decide : ∀ st∈[Step.seek,.sectorRead,.initDone],st.transfers=false)
  · rintro _ _ ⟨st,hx,hst⟩
    exact absurd hst (by
      rw [(by decide : ∀ st∈[Step.seek,.sectorRead,.initDone],st.transfers=false) st hx]
      decide)
  · rw [show s.worker=.pumping ws from hx] at hw
    cases hw

theorem Inv.goes (h : Inv s) (hw : s.worker=.idle) (hd : s.signalDone) (hb : s.stage=.base) (hf : f.buffers=false) (density imageIsOpen : Bool) :
    Inv (s.go f density imageIsOpen) ∧ (s.go f density imageIsOpen).memory=s.memory := by
  have hs := h.sound
  have hi := h.idle hw
  have hsound := hs.gone (hi.quiet (.inl hd)).waiting f density imageIsOpen
  obtain ⟨err,status,track,d0,d1,hstatus,he,_⟩ := go_eq hs.status f density imageIsOpen
  have hfill : f≠.fillBuffer := fun hx => by rw [hx] at hf; cases hf
  rw [he] at hsound ⊢
  refine ⟨⟨hsound,h.select,h.wc,h.words,fun _ => ⟨?_,fun hx => absurd hx hfill,fun hx => absurd hx hfill⟩,
    fun ws hx => ?_⟩,rfl⟩
  · rintro (hx | hx)
    · cases hx
    · exact absurd hb hx
  · rw [show s.worker=.pumping ws from hx] at hw
    cases hw

theorem Inv.begin (h : Inv s) (hw : s.worker=.idle) (hd : s.signalDone) (imageIsOpen : Bool) :
    Inv (s.begin imageIsOpen) ∧ (s.begin imageIsOpen).memory=s.memory := by
  have hs := h.sound
  have hi := h.idle hw
  have hq := hi.quiet (.inl hd)
  have hpump : ∀ ws,s.worker≠.pumping ws := fun ws hx => by rw [hw] at hx; cases hx
  have hsound (stage : Stage) (nxm : Bool) (words : Nat) :
      Sound { s with nxm := nxm,dmaWords := words,stage := stage } :=
    ⟨hs.failed,hs.buffer,hs.status,hs.tail,hs.first,hs.once,hs.read,hs.track,hs.format⟩
  have hidle (stage : Stage) (nxm : Bool) (words : Nat) :
      Idle { s with nxm := nxm,dmaWords := words,stage := stage } :=
    ⟨fun _ => ⟨hq.waiting,hq.steps⟩,hi.filled,hi.unentered⟩
  have hwait (hf : s.functionSelect=.fillBuffer ∨ s.functionSelect=.emptyBuffer) :
      Inv { s with nxm := false,stage := .waitRx2wc } := by
    refine ⟨hsound .waitRx2wc false s.dmaWords,fun _ => ?_,fun _ => ?_,fun _ hx => absurd rfl hx,
      fun _ => hidle .waitRx2wc false s.dmaWords,fun ws hx => absurd hx (hpump ws)⟩
    · show s.functionSelect.buffers=true
      obtain hf | hf := hf
      all_goals
        rw [hf]
        rfl
    · show s.functionSelect≠.readErrorCode
      obtain hf | hf := hf
      all_goals
        rw [hf]
        decide
  have hgo {f : Function} (hf : s.functionSelect=f) (hb : f.buffers=false) :
      Inv (s.go f s.functionDensity imageIsOpen) ∧
        (s.go f s.functionDensity imageIsOpen).memory=s.memory := by
    refine h.goes hw hd ?_ hb _ _
    by_contra hne
    have hx := h.select hne
    rw [hf,hb] at hx
    cases hx
  cases hf : s.functionSelect with
  | fillBuffer =>
    have he : s.begin imageIsOpen={ s with nxm := false,stage := .waitRx2wc } := by
      unfold Rx211.begin
      simp only [hf]
    exact he ▸ ⟨hwait (.inl hf),rfl⟩
  | emptyBuffer =>
    have he : s.begin imageIsOpen={ s with nxm := false,stage := .waitRx2wc } := by
      unfold Rx211.begin
      simp only [hf]
    exact he ▸ ⟨hwait (.inr hf),rfl⟩
  | readErrorCode =>
    have he : s.begin imageIsOpen={ s with nxm := false,dmaWords := 4,stage := .waitRx2ba } := by
      unfold Rx211.begin
      simp only [hf]
    refine he ▸ ⟨⟨hsound .waitRx2ba false 4,fun _ => ?_,fun hx => (by cases hx),fun _ _ => ?_,
      fun _ => hidle .waitRx2ba false 4,fun ws hx => absurd hx (hpump ws)⟩,rfl⟩
    · exact hf ▸ rfl
    · exact (if_pos hf).symm
  | readSector | writeSector | writeSectorWithDeletedData | setMediaDensity | readStatus =>
    have he := hgo hf rfl
    unfold Rx211.begin
    simp only [hf]
    exact he

theorem Inv.writeCs (h : Inv s) (hw : s.worker=.idle) {w : Nat} {imageIsOpen : Bool}
    (hc : s.Careful (.writeCs w imageIsOpen)) :
    Inv (s.writeCs w imageIsOpen) ∧ (s.writeCs w imageIsOpen).memory=s.memory := by
  unfold Rx211.writeCs
  dsimp only
  split
  · exact ⟨h.init hw _ _ _ _ hc.1,rfl⟩
  · rename_i hinit
    have hl := h.latch hw (decide (w/0x100%2=1)) (s.mxv22 && decide (w/0x400%2=1)) (w/0x1000%4)
      (Nat.land w 0o366) hc.1 (hc.2 hinit)
    split
    · rename_i hgo
      rw [Bool.and_eq_true] at hgo
      exact hl.begin hw hgo.1 imageIsOpen
    · exact ⟨hl,rfl⟩

theorem sectorWords_le (doubleDensity : Bool) : sectorWords doubleDensity≤128 := by
  cases doubleDensity <;> decide

theorem buffers_cases (h : f.buffers) : f=.fillBuffer ∨ f=.emptyBuffer ∨ f=.readErrorCode := by
  cases f with
  | fillBuffer => exact .inl rfl
  | emptyBuffer => exact .inr (.inl rfl)
  | readErrorCode => exact .inr (.inr rfl)
  | _ => cases h

theorem buffers_program (h : f.buffers) (doubleDensity : Bool) (rx2wc : Nat) :
    ∃ fin,(⟨f,doubleDensity,rx2wc,true⟩ : Command).program true =
      [if f=.fillBuffer then .transferBufferWrite else .transferBufferRead,fin] ∧ fin.transfers=false := by
  obtain rfl | rfl | rfl := buffers_cases h
  all_goals exact ⟨_,rfl,rfl⟩

theorem buffers_count (h : f.buffers) (doubleDensity : Bool) (rx2wc : Nat) :
    (⟨f,doubleDensity,rx2wc,true⟩ : Command).byteCount true=2*if f=.readErrorCode then 4 else rx2wc := by
  obtain rfl | rfl | rfl := buffers_cases h
  · rfl
  · rfl
  · rfl

theorem transferBuffer_length (hb : s.sectorBuffer.length=256) (hx : s.extendedStatus.length=8)
    (hf : s.functionCode.buffers) : s.transferBuffer.length=if s.functionCode=.readErrorCode then 8 else 256 := by
  unfold Rx211.transferBuffer
  obtain hc | hc | hc := buffers_cases hf
  · rw [hc]
    exact hb
  · rw [hc]
    exact hb
  · rw [hc]
    exact hx

theorem Inv.start (h : Inv s) (hw : s.worker=.idle) (hst : s.stage=.dmaBusy)
    (hfit : s.functionSelect≠.readErrorCode → s.rx2wc≤128) (reached : Nat) :
    Inv (s.start reached) ∧ (s.start reached).memory=s.memory ∧
      (if s.functionSelect=.fillBuffer then (s.start reached).worker=.pumping (s.dmaRead reached)
        else (s.start reached).worker=.pumping [] ∧ (s.start reached).sectorBuffer=s.sectorBuffer) := by
  have hs := h.sound
  have hq := (h.idle hw).quiet (.inr (by rw [hst]; decide))
  have hf := h.select (by rw [hst]; decide)
  have hwords := h.words (by rw [hst]; decide) (by rw [hst]; decide)
  have hsmall : s.dmaWords≤128 := by
    rw [hwords]
    split
    · decide
    · exact hfit ‹_›
  have hsound := hs.gone hq.waiting s.functionSelect s.functionDensity true
  obtain ⟨err,status,track,d0,d1,hstatus,he,_⟩ := go_eq hs.status s.functionSelect s.functionDensity true
  have hassert : s.assert (decide (s.dmaWords≤256))=s := by
    rw [decide_eq_true (by omega)]
    rfl
  rw [he] at hsound
  obtain ⟨buffer,hbuffer⟩ : ∃ b,(if s.functionSelect=.fillBuffer then replicate 256 0
      else s.sectorBuffer)=b := ⟨_,rfl⟩
  rw [hbuffer] at he hsound
  obtain ⟨u,hu⟩ : ∃ u,s.gone s.functionSelect s.functionDensity true err buffer status track d0 d1=u := ⟨_,rfl⟩
  have hpump (ws : List Nat) (nxm : Bool) (hlen : s.functionSelect=.fillBuffer → ws.length=s.dmaWords) :
      Inv { u with worker := .pumping ws,nxm := nxm } := by
    subst hu
    refine ⟨⟨hsound.failed,hsound.buffer,hsound.status,hsound.tail,hsound.first,hsound.once,hsound.read,
      hsound.track,hsound.format⟩,h.select,h.wc,h.words,fun hx => (by cases hx),?_⟩
    rintro ws' hx
    obtain rfl := Worker.pumping.inj hx
    refine ⟨hst,rfl,?_,?_,buffers_program hf s.functionDensity s.rx2wc,rfl,.inl ⟨hq.waiting,rfl⟩,fun hfill => ?_⟩
    · exact (buffers_count hf s.functionDensity s.rx2wc).trans (congrArg (2*·) hwords.symm)
    · refine Nat.le_trans ?_ (Nat.le_of_eq (transferBuffer_length hsound.buffer hsound.status hf).symm)
      show (⟨s.functionSelect,s.functionDensity,s.rx2wc,true⟩ : Command).byteCount true ≤
        if s.functionSelect=.readErrorCode then 8 else 256
      rw [buffers_count hf]
      split
      · decide
      · have := hfit ‹_›
        omega
    · exact ⟨hbuffer.symm.trans (if_pos hfill),hlen hfill⟩
  have hstart : s.start reached=if s.functionSelect=.fillBuffer then
      { u with worker := .pumping (s.dmaRead reached),nxm := decide (reached<s.dmaWords) }
      else { u with worker := .pumping [] } := by
    unfold Rx211.start
    rw [hassert,he,hu]
  rw [hstart]
  by_cases hfill : s.functionSelect=.fillBuffer
  · rw [if_pos hfill,if_pos hfill]
    refine ⟨hpump _ _ fun _ => ?_,hu ▸ rfl,rfl⟩
    rw [Rx211.dmaRead,length_map,length_range]
  · rw [if_neg hfill,if_neg hfill]
    refine ⟨hpump [] u.nxm fun hx => absurd hx hfill,hu ▸ rfl,rfl,?_⟩
    rw [if_neg hfill] at hbuffer
    rw [← hu]
    exact hbuffer.symm

theorem overflow_words {doubleDensity : Bool} {rx2wc : Nat} (hne : f≠.readErrorCode)
    (hf : f.buffers) (h : rx2wc > transferByteCount true f doubleDensity) : sectorWords doubleDensity < rx2wc := by
  refine Nat.lt_of_le_of_lt ?_ h
  obtain rfl | rfl | rfl := buffers_cases hf
  · cases doubleDensity <;> decide
  · cases doubleDensity <;> decide
  · exact absurd rfl hne

theorem Inv.takeTransfer (h : Inv s) (hw : s.worker=.idle) (hst : s.stage=.dmaBusy) {reached rxes : Nat}
    (hc : s.Careful (.take reached rxes)) :
    Inv (s.takeTransfer reached rxes) ∧ s.Does (.take reached rxes) (s.takeTransfer reached rxes) := by
  have hs := h.sound
  have hi := h.idle hw
  have hq := hi.quiet (.inr (by rw [hst]; decide))
  have hf := h.select (by rw [hst]; decide)
  have hwords := h.words (by rw [hst]; decide) (by rw [hst]; decide)
  have hstart (hfit : s.functionSelect≠.readErrorCode → s.rx2wc ≤ sectorWords s.functionDensity)
      (heq : s.takeTransfer reached rxes=s.start reached) :
      Inv (s.takeTransfer reached rxes) ∧ s.Does (.take reached rxes) (s.takeTransfer reached rxes) := by
    rw [heq]
    obtain ⟨hinv,hmem,htaken⟩ := h.start hw hst (fun hx => Nat.le_trans (hfit hx) (sectorWords_le _)) reached
    refine ⟨hinv,fun _ => hmem,fun r x _ hne hlt => absurd (hfit hne) (Nat.not_le_of_lt hlt),?_,
      fun _ _ _ _ hx => (by cases hx),fun _ _ _ hx => by cases hx⟩
    intro r x hx hne _
    cases hx
    split
    · rename_i hfill
      rw [if_pos hfill] at htaken
      refine ⟨htaken,?_⟩
      rw [Rx211.dmaRead,length_map,length_range,hwords,if_neg hne]
    · rename_i hfill
      rw [if_neg hfill] at htaken
      exact htaken
  have hbuffer (hne : s.functionSelect≠.readErrorCode)
      (heq : s.takeTransfer reached rxes =
        if s.rx2wcOverflowError then
          { ({ s with wordCountOverflow := true }.fault 0o230).stepDone rxes with stage := .base }
        else s.start reached) :
      Inv (s.takeTransfer reached rxes) ∧ s.Does (.take reached rxes) (s.takeTransfer reached rxes) := by
    by_cases hov : s.rx2wcOverflowError=true
    · rw [heq,if_pos hov]
      obtain ⟨x,hx,hx0,he⟩ := stepDone_eq (s := { s with
        wordCountOverflow := true,signalError := true,extendedStatus := s.extendedStatus.set 0 0o230 })
        ((length_set ..).trans hs.status) rxes
      have hstatus : x[0]? = some 0o230 := by
        rw [hx0]
        exact getElem?_set_self (show 0<s.extendedStatus.length by rw [hs.status]; decide)
      have hlt : sectorWords s.functionDensity<s.rx2wc := overflow_words hne hf (of_decide_eq_true hov)
      rw [fault_eq (s := { s with wordCountOverflow := true }) hs.status,he]
      refine ⟨⟨⟨hs.failed,hs.buffer,hx,hs.tail,hs.first,hs.once,hs.read,?_,hs.format⟩,fun hx => absurd rfl hx,
        fun hx => (by cases hx),fun hx => absurd rfl hx,
        fun _ => ⟨fun _ => ⟨hq.waiting,hq.steps⟩,hi.filled,hi.unentered⟩,fun ws hx => ?_⟩,fun _ => rfl,
        fun _ _ _ _ _ => ⟨rfl,rfl,rfl,hstatus,rfl⟩,fun _ _ _ _ hle => absurd hle (Nat.not_le_of_lt hlt),
        fun _ _ _ _ hx => (by cases hx),fun _ _ _ hx => by cases hx⟩
      · intro hx
        obtain hlt | ⟨ha,⟨hwait,_⟩ | hhead⟩ := hs.track hx
        · exact .inl hlt
        · exact absurd (hq.waiting.symm.trans hwait) (by decide)
        · exact .inr ⟨ha,.inr hhead⟩
      · rw [show s.worker=.pumping ws from hx] at hw
        cases hw
    · have hle : ¬transferByteCount true s.functionSelect s.functionDensity<s.rx2wc :=
        fun hx => hov (decide_eq_true hx)
      exact hstart (fun _ => (hc hne).resolve_right hle) (heq.trans (if_neg hov))
  obtain hfn | hfn | hfn := buffers_cases hf
  · refine hbuffer (by rw [hfn]; decide) ?_
    unfold Rx211.takeTransfer
    simp only [hfn]
  · refine hbuffer (by rw [hfn]; decide) ?_
    unfold Rx211.takeTransfer
    simp only [hfn]
  · refine hstart (fun hne => absurd hfn hne) ?_
    unfold Rx211.takeTransfer
    simp only [hfn]

theorem Pumping.ends (hp : Pumping s words) (hi : Inv s) (buffer status : List Nat)
    (request woken nxm : Bool) (rxdb rest idx : Nat) (memory : Nat → Nat) (hb : buffer.length=256)
    (hx : status.length=8) (hidx : s.byteCount ≤ idx) (hone : s.waiting ∨ s.byteCount=0)
    (hwoken : s.functionSelect=.fillBuffer ∨ s.functionCode.addresses=false) :
    Inv { s.pumped buffer idx request woken rxdb with
      extendedStatus := status,rx2wc := rest,nxm := nxm,memory := memory,stage := .base,worker := .idle } := by
  have hs := hi.sound
  have hna : s.functionCode.addresses=false := by
    obtain hf | hf := hwoken
    · rw [hp.code,hf]
      rfl
    · exact hf
  refine ⟨⟨hs.failed,hb,hx,hs.tail,hs.first,hs.once,hs.read,fun hseek => ?_,hs.format⟩,fun hx => absurd rfl hx,
    fun hx => (by cases hx),fun hx => absurd rfl hx,fun _ => ⟨?_,fun _ => hidx,fun _ hw _ => ?_⟩,
    fun ws hx => by cases hx⟩
  · obtain hlt | ⟨ha,_⟩ := hs.track hseek
    · exact .inl hlt
    · exact absurd (hna.symm.trans ha) (by decide)
  · rintro (hd | hne)
    · exact absurd (hp.done.symm.trans hd) (by decide)
    · exact absurd rfl hne
  · obtain hwait | hzero := hone
    · exact absurd (hwait.symm.trans hw) (by decide)
    · exact hzero

theorem Pumping.fills (hp : Pumping s words) (hi : Inv s) (hf : s.functionSelect=.fillBuffer)
    (hc : s.transferRequest ∨ s.dmaWords=0) : ∃ idx request woken,s.pumpIn words =
        s.pumped (bytesOf words++replicate (256-2*words.length) 0) idx request woken s.rxdb ∧
      s.byteCount ≤ idx ∧ (s.waiting ∨ s.byteCount=0) ∧ 2*words.length≤256 := by
  obtain ⟨hbuf,hlen⟩ := hp.fill hf
  have hcount : s.byteCount=2*words.length := hp.count.trans (congrArg (2*·) hlen.symm)
  obtain ⟨hwait,hno⟩ | ⟨hwait,_,hreq,hidx,_⟩ := hp.phase
  · have hz : s.dmaWords=0 := hc.resolve_left (by rw [hno]; decide)
    have hnil : words=[] := length_eq_zero_iff.1 (hlen.trans hz)
    subst hnil
    refine ⟨s.byteIdx,s.transferRequest,s.woken,?_,?_,.inr hcount,by decide⟩
    · show s=s.pumped (replicate 256 0) _ _ _ _
      rw [← hbuf]
      rfl
    · rw [hcount]
      exact Nat.zero_le _
  · obtain ⟨fin,hsteps,_⟩ := hp.steps
    have hfit : s.byteCount ≤ s.sectorBuffer.length := by
      have := hp.fits
      rwa [Rx211.transferBuffer,hp.code,hf] at this
    obtain ⟨request,woken,he⟩ := pumpIn_eq words s (by rw [hsteps]; exact cons_ne_nil _ _)
      (hp.code.trans hf) (by rw [hidx,hcount,Nat.zero_add]) hfit (fun _ => hreq)
    refine ⟨s.byteCount,request,woken,?_,Nat.le_refl _,.inl hwait,?_⟩
    · rw [he,hidx,hbuf,hcount,take_zero,nil_append,drop_replicate]
    · rw [hi.sound.buffer,hcount] at hfit
      exact hfit

theorem Pumping.empties (hp : Pumping s words) (hf : s.functionSelect≠.fillBuffer)
    (hb : s.functionSelect.buffers) (hc : s.transferRequest ∨ s.dmaWords=0) :
    ∃ idx request woken rxdb,s.pumpOut s.dmaWords =
        (s.pumped s.sectorBuffer idx request woken rxdb,wordsOf s.transferBuffer s.dmaWords) ∧
      s.byteCount ≤ idx ∧ (s.waiting ∨ s.byteCount=0) := by
  have hcode : s.functionCode=.emptyBuffer ∨ s.functionCode=.readErrorCode := by
    rw [hp.code]
    exact (buffers_cases hb).resolve_left hf
  obtain ⟨hwait,hno⟩ | ⟨hwait,_,hreq,hidx,hfirst⟩ := hp.phase
  · have hz : s.dmaWords=0 := hc.resolve_left (by rw [hno]; decide)
    have hcount : s.byteCount=0 := by rw [hp.count,hz]
    refine ⟨s.byteIdx,s.transferRequest,s.woken,s.rxdb,?_,hcount ▸ Nat.zero_le _,.inr hcount⟩
    rw [hz]
    rfl
  · obtain ⟨fin,hsteps,_⟩ := hp.steps
    obtain ⟨request,woken,rxdb,he⟩ := pumpOut_eq s.dmaWords s (by rw [hsteps]; exact cons_ne_nil _ _) hcode
      hp.fits (by rw [hidx,hp.count,Nat.zero_add]) (fun _ => ⟨hreq,by rw [hidx]; exact hfirst hf⟩)
    rw [hidx,drop_zero] at he
    exact ⟨s.byteCount,request,woken,rxdb,he,Nat.le_refl _,.inl hwait⟩

theorem Inv.transfer (h : Inv s) {words stale : List Nat} (hw : s.worker=.pumping words) {reached rest : Nat}
    (hc : s.Careful (.pump reached rest stale)) : Inv (s.transfer words reached rest stale) ∧
      s.Does (.pump reached rest stale) (s.transfer words reached rest stale) := by
  have hs := h.sound
  have hp := h.pumping words hw
  have hb := h.select (by rw [hp.stage]; decide)
  have hwords := h.words (by rw [hp.stage]; decide) (by rw [hp.stage]; decide)
  unfold Rx211.transfer
  split
  · rename_i hf
    obtain ⟨idx,request,woken,he,hidx,hone,hfit⟩ := hp.fills h hf hc
    have hlen : (bytesOf words++replicate (256-2*words.length) 0).length=256 := by
      rw [length_append,bytesOf_length,length_replicate]
      omega
    have hput := putStatus_eq (s := s.pumped (bytesOf words++replicate (256-2*words.length) 0) idx request
      woken s.rxdb) hs.status (show 1<8 by decide) (rest%256)
    rw [he,hput]
    refine ⟨hp.ends h _ _ request woken s.nxm s.rxdb rest idx s.memory hlen ((length_set ..).trans hs.status) hidx
      hone (.inl hf),fun hx => absurd rfl (hx reached rest stale),fun _ _ hx => (by cases hx),
      fun _ _ hx => (by cases hx),?_,fun _ _ _ _ hx => ?_⟩
    · rintro _ _ _ ws hx hws _
      rw [hw] at hws
      obtain rfl := Worker.pumping.inj hws
      exact ⟨rfl,rfl⟩
    · rw [hf] at hx
      cases hx
  · rename_i hf
    obtain ⟨idx,request,woken,rxdb,he,hidx,hone⟩ := hp.empties hf hb hc
    have hna : s.functionCode.addresses=false := by
      rw [hp.code]
      obtain hx | hx | hx := buffers_cases hb
      all_goals
        rw [hx]
        rfl
    have hlen : (wordsOf s.transferBuffer s.dmaWords).length=s.dmaWords := by
      rw [wordsOf,length_map,length_range]
    have htake (l : List Nat) :
        (wordsOf s.transferBuffer s.dmaWords++l).take s.dmaWords=wordsOf s.transferBuffer s.dmaWords := by
      rw [take_append_of_le_length (Nat.le_of_eq hlen.symm),take_of_length_le (Nat.le_of_eq hlen)]
    dsimp only
    rw [he,htake]
    have hfilled (t : Rx211) : ∀ r q l ws,Access.pump reached rest stale=.pump r q l → s.worker=.pumping ws →
        s.functionSelect=.fillBuffer →
          t.sectorBuffer=bytesOf ws++replicate (256-2*ws.length) 0 ∧ t.memory=s.memory :=
      fun _ _ _ _ _ _ hx => absurd hx hf
    split
    · rename_i hread
      refine ⟨hp.ends h _ _ request woken _ rxdb s.rx2wc idx _ hs.buffer hs.status hidx hone (.inr hna),
        fun hx => absurd rfl (hx reached rest stale),fun _ _ hx => (by cases hx),fun _ _ hx => (by cases hx),
        hfilled _,fun _ _ _ _ hx => ?_⟩
      rw [hread] at hx
      cases hx
    · rename_i hread
      have hput (t : Rx211) (ht : t.extendedStatus=s.extendedStatus) :
          t.putStatus 1 (rest%256)={ t with extendedStatus := s.extendedStatus.set 1 (rest%256) } := by
        rw [← ht]
        exact putStatus_eq (ht ▸ hs.status) (by decide) _
      rw [hput]
      rotate_left
      · rfl
      refine ⟨hp.ends h _ _ request woken _ rxdb rest idx _ hs.buffer ((length_set ..).trans hs.status) hidx hone
        (.inr hna),fun hx => absurd rfl (hx reached rest stale),fun _ _ hx => (by cases hx),
        fun _ _ hx => (by cases hx),hfilled _,?_⟩
      intro _ _ _ hx hempty
      cases hx
      have htb : s.transferBuffer=s.sectorBuffer := by
        rw [Rx211.transferBuffer,hp.code,hempty]
      refine ⟨rfl,?_⟩
      show Rx211.store s.memory s.busAddr ((wordsOf s.transferBuffer s.dmaWords).take reached)=_
      rw [htb,hwords.trans (if_neg hread)]

theorem Inv.step (h : Inv s) {e : Access} (hc : s.Careful e) {t : Rx211} (hs : s.step e=some t) :
    Inv t ∧ s.Does e t := by
  have hquiet {u : Rx211} (hm : u.memory=s.memory) (hpump : ∀ r q l,e≠.pump r q l)
      (htake : ∀ r x,e≠.take r x) : s.Does e u :=
    ⟨fun _ => hm,fun r x hx => absurd hx (htake r x),fun r x hx => absurd hx (htake r x),
      fun r q l _ hx => absurd hx (hpump r q l),fun r q l hx => absurd hx (hpump r q l)⟩
  cases e with
  | writeCs w imageIsOpen =>
    simp only [Rx211.step] at hs
    split at hs
    · rename_i hw
      cases hs
      obtain ⟨hi,hm⟩ := h.writeCs hw hc
      exact ⟨hi,hquiet hm (fun _ _ _ hx => by cases hx) (fun _ _ hx => by cases hx)⟩
    · cases hs
  | writeDb w =>
    cases hs
    obtain ⟨hi,hm⟩ := h.writeDb hc
    exact ⟨hi,hquiet hm (fun _ _ _ hx => by cases hx) (fun _ _ hx => by cases hx)⟩
  | take reached rxes =>
    simp only [Rx211.step] at hs
    split at hs
    · rename_i hw
      cases hs
      exact h.takeTransfer hw.1 hw.2 hc
    · cases hs
  | pump reached rest stale =>
    simp only [Rx211.step] at hs
    split at hs
    · cases hs
    · rename_i hw
      cases hs
      exact h.transfer hw hc
  | work a =>
    obtain ⟨hi,hm⟩ := h.work hs
    exact ⟨hi,hquiet hm (fun _ _ _ hx => by cases hx) (fun _ _ hx => by cases hx)⟩

end

def Rx211.reset (mxv22 density0 density1 : Bool) (memory : Nat → Nat) : Rx211 :=
  ⟨mxv22,.fillBuffer,false,false,0,0,0,0,.base,false,.idle,false,density0,density1,0,0,[],false,false,.fillBuffer,
    false,true,false,false,false,0,0,0,1,1,replicate 256 0,replicate 8 0,memory,false⟩

theorem Inv.initial (mxv22 density0 density1 : Bool) (memory : Nat → Nat) :
    Inv (Rx211.reset mxv22 density0 density1 memory) :=
  ⟨⟨rfl,length_replicate,length_replicate,fun _ hx => (by cases hx),fun hx => (by cases hx),
    fun hx => (by cases hx),fun hx => (by cases hx),fun hx => (by cases hx),fun hx => by cases hx⟩,
    fun hx => absurd rfl hx,fun hx => (by cases hx),fun hx => absurd rfl hx,
    fun _ => ⟨fun _ => ⟨rfl,fun _ hx => by cases hx⟩,fun _ => Nat.le_refl 0,fun _ _ _ => rfl⟩,
    fun _ hx => by cases hx⟩

def fillTwo : List Access :=
  [.writeCs 0x101 true,.writeDb 2,.writeDb 0o1000,.take 2 0,.work ⟨true,[],0⟩]

end QUniLator.Disks.Rx
