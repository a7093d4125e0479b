import QUniLator.Disks.Rl11

namespace QUniLator.Disks

open List Bus

namespace Rl11

variable {s : Rl11} {mem : Nat → UInt16}

theorem leads_step (h : s.state≠.ready) : Leads busy stateReadwrite s s.stateReadwrite := Leads.one (decide_eq_true h)

def nextHeader (d : Rl0102) : Nat := (d.segment+1)/2%40

theorem readNextSectorHeader_eq {d : Rl0102} (h : d.lockOn) (hs : d.segment<80) :
    d.readNextSectorHeader=some (d.cylinder*128+d.head*64+nextHeader d, { d with segment := 2*nextHeader d+1 }) := by
  unfold Rl0102.readNextSectorHeader Rl0102.advance nextHeader
  rw [h]
  have hm : ∀ n<80,(if n%2=1 then (n+1)%80 else n)/2=(n+1)/2%40 ∧
      ((if n%2=1 then (n+1)%80 else n)+1)%80=2*((n+1)/2%40)+1 := by decide
  obtain ⟨h1,h2⟩ := hm d.segment hs
  split_ifs at h1 h2 ⊢ with h3 <;> simp_all

/-- The drive is locked on the track of the disk address. -/
structure Locked (s : Rl11) : Prop where
  lockOn : s.drive.lockOn=true
  ready : s.drive.ready=true
  cylinder : s.drive.cylinder=s.da/128
  head : s.drive.head=s.da/64%2
  segment : s.drive.segment<80
  da : s.da<0x10000

theorem Locked.headerOnTrack (h : Locked s) : s.drive.headerOnTrack s.da=decide (s.da%64<40) := by
  unfold Rl0102.headerOnTrack
  have hda := h.da
  rw [h.cylinder,h.head]
  by_cases hs : s.da%64<40
  · have h1 : s.da/128%512=s.da/128 := by omega
    simp [hs,h1]
  · simp [hs]
    omega

def headerRead (s : Rl11) : Rl11 :=
  { s with drive := { s.drive with segment := 2*nextHeader s.drive+1 },
           mpr := s.da/64*64+nextHeader s.drive }

theorem Locked.look (h : Locked s) (hst : s.state=.rwDisk)
    (hf : s.function≠.readDataWithoutHeaderCheck) (hsec : s.da%64<40) : s.stateReadwrite =
      if nextHeader s.drive=s.da%64 then s.headerRead.transferSector else s.headerRead := by
  have hheader : s.drive.cylinder*128+s.drive.head*64+nextHeader s.drive =
      s.da/64*64+nextHeader s.drive := by
    rw [h.cylinder,h.head]
    omega
  have hne : (s.da/64*64+nextHeader s.drive≠s.da)=¬nextHeader s.drive=s.da%64 := by
    apply propext
    omega
  unfold stateReadwrite
  rw [if_neg (by rw [h.ready]; simp),hst]
  dsimp only
  rw [if_neg hf,h.headerOnTrack,if_neg (by simpa using hsec),
    readNextSectorHeader_eq h.lockOn h.segment,hheader,← hst]
  show (if s.da/64*64+nextHeader s.drive≠s.da then s.headerRead else s.headerRead.transferSector)=_
  simp only [hne,ite_not]

theorem Locked.search (h : Locked s) (hst : s.state=.rwDisk)
    (hf : s.function≠.readDataWithoutHeaderCheck) (hsec : s.da%64<40) : Leads busy stateReadwrite s (transferSector
      { s with drive := { s.drive with segment := 2*(s.da%64)+1 },mpr := s.da }) := by
  -- by the number of headers that pass before the right one
  generalize hn : (s.da%64+40-nextHeader s.drive)%40=n
  induction n generalizing s with
  | zero =>
    have hnext : nextHeader s.drive=s.da%64 := by
      have : nextHeader s.drive<40 := Nat.mod_lt _ (by omega)
      omega
    have hs := h.look hst hf hsec
    rw [if_pos hnext,headerRead,hnext,Nat.div_add_mod' s.da 64] at hs
    rw [← hs]
    exact leads_step (by rw [hst]; simp)
  | succ n ih =>
    have hlt : nextHeader s.drive<40 := Nat.mod_lt _ (by omega)
    have hs := h.look hst hf hsec
    rw [if_neg (by omega)] at hs
    have hnext : nextHeader s.headerRead.drive=(nextHeader s.drive+1)%40 := by
      show (2*nextHeader s.drive+1+1)/2%40=_
      omega
    have hseg : s.headerRead.drive.segment<80 := by
      show 2*nextHeader s.drive+1<80
      omega
    have hl : Locked s.headerRead := ⟨h.lockOn,h.ready,h.cylinder,h.head,hseg,h.da⟩
    refine (leads_step (by rw [hst]; simp)).trans (hs ▸ ih hl hst hf hsec ?_)
    rw [hnext]
    show (s.da%64+40-(nextHeader s.drive+1)%40)%40=n
    omega

def chunk (s : Rl11) : Nat := min s.wordcount rlSector

def word (s : Rl11) : Nat := s.msb*0x8000+s.ba/2

def place (s : Rl11) : Nat := (s.da/64*40+s.da%64)*rlSector

theorem address_eq (s : Rl11) : s.address=2*s.word := by
  unfold address word
  omega

/-- The sector under the heads is the one that is asked for. -/
structure Found (s : Rl11) : Prop where
  locked : Locked s
  at_ : s.drive.segment=2*(s.da%64)+1
  sector : s.da%64<40
  pos : 0<s.wordcount

theorem Found.offset (h : Found s) : s.drive.offset=s.place := by
  unfold Rl0102.offset place
  rw [h.locked.cylinder,h.locked.head,h.at_]
  congr 1
  omega

def passed (s : Rl11) (image : Nat → UInt16) : Rl0102 :=
  { s.drive with segment := (2*(s.da%64)+2)%80,image := image }

theorem Found.read (h : Found s) (silo : List UInt16) :
    s.drive.readNextSectorData silo=(slice s.drive.image s.place rlSector,s.passed s.drive.image) := by
  unfold Rl0102.readNextSectorData
  have hodd : ¬s.drive.segment%2=0 := by rw [h.at_]; omega
  rw [if_neg (by rw [h.locked.lockOn]; simp)]
  dsimp only
  rw [if_neg hodd,h.offset,Rl0102.advance,h.at_]
  rfl

theorem Found.write (h : Found s) (hp : s.drive.protect=false) (silo : List UInt16) :
    s.drive.writeNextSectorData silo = { s.passed (patch s.drive.image s.place silo) with wge := false } := by
  unfold Rl0102.writeNextSectorData
  have hodd : ¬s.drive.segment%2=0 := by rw [h.at_]; omega
  have ho : Rl0102.offset { s.drive with wge := false }=s.place := h.offset
  rw [if_neg (by rw [h.locked.lockOn]; simp),if_neg (by rw [hp,h.locked.ready]; simp)]
  dsimp only
  rw [if_neg hodd,ho,Rl0102.advance]
  simp only [h.at_]
  rfl

def after (s : Rl11) (drive : Rl0102) (mem : Nat → UInt16) (wcheck : Bool) : Rl11 :=
  let t := { s with drive := drive,bus := { s.bus with mem := mem },nxm := false,wcheck := wcheck }
  (t.updateAddress (2*(s.word+s.chunk))).sectorDone

theorem wordcount_lt (s : Rl11) : s.wordcount<0x10000 := Nat.mod_lt _ (by omega)

theorem Found.chunk_pos (h : Found s) : 0<s.chunk := by
  have := h.pos
  unfold chunk rlSector
  omega

theorem chunk_le (s : Rl11) : s.chunk ≤ rlSector := Nat.min_le_right _ _

theorem dmaWordcount_eq (s : Rl11) : (if rlSector<s.wordcount then rlSector else s.wordcount)=s.chunk := by
  unfold chunk rlSector
  split_ifs <;> omega

theorem Found.readData (h : Found s) (hf : s.function=.readData) (hb : s.bus.Has s.word s.chunk) : s.transferSector =
      s.after (s.passed s.drive.image) (patch s.bus.mem s.word (slice s.drive.image s.place s.chunk)) s.wcheck := by
  have hlen : (slice s.drive.image s.place s.chunk).length=s.chunk := slice_length _ _ _
  have hd := dato_eq (slice s.drive.image s.place s.chunk) (by rw [hlen]; exact h.chunk_pos)
    (by rw [hlen]; exact (s.bus.hasAt_even s.word _).mpr hb)
  rw [hlen,Nat.mul_div_cancel_left s.word (by omega)] at hd
  have hpos := h.chunk_pos
  unfold transferSector
  rw [hf]
  dsimp only
  rw [dmaWordcount_eq,h.read,slice_take _ _ _ _ s.chunk_le,address_eq,hd,
    show 2*s.word+2*(s.chunk-1)+2=2*(s.word+s.chunk) by omega]
  rw [← hf]
  rfl

theorem Found.writeCheck (h : Found s) (hf : s.function=.writeCheck)
    (hb : s.bus.Has s.word s.chunk) : s.transferSector =
      s.after (s.passed s.drive.image) s.bus.mem (decide (slice s.drive.image s.place rlSector ≠
        slice s.bus.mem s.word s.chunk++replicate (rlSector-s.chunk) 0)) := by
  have hd := dati_eq (replicate rlSector 0) h.chunk_pos ((s.bus.hasAt_even s.word _).mpr hb)
  rw [Nat.mul_div_cancel_left s.word (by omega)] at hd
  have hpos := h.chunk_pos
  rw [drop_replicate] at hd
  unfold transferSector
  rw [hf]
  dsimp only
  rw [dmaWordcount_eq,h.read,address_eq,hd,
    show 2*s.word+2*(s.chunk-1)+2=2*(s.word+s.chunk) by omega]
  rw [← hf]
  rfl

theorem Found.writeData (h : Found s) (hf : s.function=.writeData)
    (hb : s.bus.Has s.word s.chunk) : s.transferSector = s.after (s.drive.writeNextSectorData
        (slice s.bus.mem s.word s.chunk++replicate (rlSector-s.chunk) 0)) s.bus.mem s.wcheck := by
  have hd := dati_eq (replicate rlSector 0) h.chunk_pos ((s.bus.hasAt_even s.word _).mpr hb)
  rw [Nat.mul_div_cancel_left s.word (by omega)] at hd
  have hpos := h.chunk_pos
  rw [drop_replicate] at hd
  unfold transferSector
  rw [hf]
  dsimp only
  rw [dmaWordcount_eq,address_eq,hd,show 2*s.word+2*(s.chunk-1)+2=2*(s.word+s.chunk) by omega]
  rw [← hf]
  rfl

theorem Found.timeout (h : Found s) (hb : ¬s.bus.Has s.word s.chunk) :
    s.transferSector.state=.ready ∧ s.transferSector.nxm=true := by
  have hlen : (slice s.drive.image s.place s.chunk).length=s.chunk := slice_length _ _ _
  rw [← hasAt_even] at hb
  have hato := (dato_success s.bus (2*s.word) (slice s.drive.image s.place s.chunk)
    (by rw [hlen]; exact h.chunk_pos)).not.mpr (by rw [hlen]; exact hb)
  have hati := (dati_success s.bus (2*s.word) (replicate rlSector 0) h.chunk_pos).not.mpr hb
  rw [Bool.not_eq_true] at hato hati
  unfold transferSector
  rw [dmaWordcount_eq,address_eq]
  cases s.function with
  | readData | readDataWithoutHeaderCheck =>
    dsimp only
    rw [h.read,slice_take _ _ _ _ s.chunk_le]
    unfold updateAddress
    simp only [hato,Bool.not_false,if_true]
    exact ⟨rfl,rfl⟩
  | writeCheck | writeData =>
    dsimp only
    unfold updateAddress
    simp only [hati,Bool.not_false,if_true]
    exact ⟨rfl,rfl⟩

/-- What the controller holds after a sector -/
structure After (s : Rl11) (drive : Rl0102) (mem : Nat → UInt16) (wcheck : Bool) (u : Rl11) : Prop where
  state : u.state=if s.wordcount ≤ rlSector then .ready else .rwDisk
  function : u.function=s.function
  da : u.da=s.da+1
  word : u.word=s.word+s.chunk
  wordcount : u.wordcount=s.wordcount-s.chunk
  bae : u.bae=s.bae.map fun _ => u.msb%64
  opi : u.opi=s.opi
  hnf : u.hnf=s.hnf
  nxm : u.nxm=false
  wcheck : u.wcheck=wcheck
  drive : u.drive=drive
  bus : u.bus={ s.bus with mem := mem }

theorem sectorDone_eq (hpos : 0<s.wordcount) :
    s.sectorDone={ s with da := (s.da+1)%0x10000,mp := (0x10000-(s.wordcount-s.chunk))%0x10000,
                            state := if s.wordcount ≤ rlSector then .ready else .rwDisk } := by
  have hcount : (if rlSector ≤ s.wordcount then s.wordcount-rlSector else 0)=s.wordcount-s.chunk := by
    unfold chunk rlSector
    split_ifs <;> omega
  have hzero : (s.wordcount-s.chunk=0)=(s.wordcount ≤ rlSector) := by
    apply propext
    unfold chunk
    omega
  let t : Rl11 := { s with da := (s.da+1)%0x10000 }
  show (if (if rlSector ≤ s.wordcount then s.wordcount-rlSector else 0)=0 then
      (t.setWordcount (if rlSector ≤ s.wordcount then s.wordcount-rlSector else 0)).commandDone
    else { t.setWordcount (if rlSector ≤ s.wordcount then s.wordcount-rlSector else 0) with
      state := .rwDisk })=_
  rw [hcount]
  simp only [hzero]
  split_ifs <;> rfl

theorem Found.after (h : Found s) (drive : Rl0102) (mem : Nat → UInt16) (wcheck : Bool) :
    After s drive mem wcheck (s.after drive mem wcheck) := by
  have hda := h.locked.da
  have hsec := h.sector
  have hlt := s.wordcount_lt
  have hpos := h.pos
  unfold Rl11.after
  rw [sectorDone_eq (by exact hpos)]
  refine ⟨rfl,rfl,?_,?_,?_,rfl,rfl,rfl,rfl,rfl,rfl,rfl⟩
  · show (s.da+1)%0x10000=s.da+1
    omega
  · show 2*(s.word+s.chunk)/0x10000*0x8000+2*(s.word+s.chunk)%0x10000/2*2/2=s.word+s.chunk
    omega
  · show (0x10000-(0x10000-(s.wordcount-s.chunk))%0x10000)%0x10000=s.wordcount-s.chunk
    omega

theorem After.locked {s u : Rl11} {drive : Rl0102} {wcheck : Bool}
    (ha : After s drive mem wcheck u) (h : Found s) (hl : drive.lockOn) (hr : drive.ready)
    (hc : drive.cylinder=s.drive.cylinder) (hh : drive.head=s.drive.head) (hs : drive.segment<80) : Locked u := by
  have hda := h.locked.da
  have hsec := h.sector
  refine ⟨?_,?_,?_,?_,?_,?_⟩
  · rw [ha.drive,hl]
  · rw [ha.drive,hr]
  · rw [ha.drive,hc,h.locked.cylinder,ha.da]
    omega
  · rw [ha.drive,hh,h.locked.head,ha.da]
    omega
  · rw [ha.drive]
    exact hs
  · rw [ha.da]
    omega

theorem After.place {s u : Rl11} {drive : Rl0102} {wcheck : Bool}
    (ha : After s drive mem wcheck u) (h : Found s) : u.place=s.place+rlSector := by
  have hsec := h.sector
  unfold Rl11.place
  rw [ha.da,show (s.da+1)/64=s.da/64 by omega,show (s.da+1)%64=s.da%64+1 by omega]
  ring

/-- The words that the transfer moves: those of the word count up to the end of the track -/
def moved (s : Rl11) : Nat := min s.wordcount (rlSector*(40-s.da%64))

/-- Of `n` words the last sector differs, with zeros for the words of memory behind them. -/
def LastDiffers (mem image : Nat → UInt16) (a pos n : Nat) : Prop :=
  let j := (n-1)/rlSector*rlSector
  slice image (pos+j) rlSector≠slice mem (a+j) (n-j)++replicate (rlSector-(n-j)) 0

instance (mem image : Nat → UInt16) (a pos n : Nat) : Decidable (LastDiffers mem image a pos n) :=
  inferInstanceAs (Decidable (slice image _ _≠_))

/-- What a transfer leaves that meets no error on the bus or the drive -/
structure Moved (s t : Rl11) : Prop where
  state : t.state=.ready
  read : s.function=.readData →
    t.bus.mem=patch s.bus.mem s.word (slice s.drive.image s.place s.moved)
  memory : s.function≠.readData → t.bus.mem=s.bus.mem
  write : s.function=.writeData →
    t.drive.image=patch s.drive.image s.place (zeroFilled rlSector (slice s.bus.mem s.word s.moved))
  pack : s.function≠.writeData → t.drive.image=s.drive.image
  da : t.da=s.da+(s.moved+127)/rlSector
  word : t.word=s.word+s.moved
  bae : 0<s.moved → t.bae=s.bae.map fun _ => t.msb%64
  opi : t.opi=decide (s.moved<s.wordcount)
  hnf : t.hnf=decide (s.moved<s.wordcount)
  nxm : t.nxm=false
  wge : s.function=.writeData → 0<s.moved → t.drive.wge=false

/-- What the loop leaves of its flags besides -/
structure Flags (s t : Rl11) : Prop where
  wcheck : s.function=.writeCheck → 0<s.moved →
    (t.wcheck=true ↔ LastDiffers s.bus.mem s.drive.image s.word s.place s.moved)
  unchecked : s.function≠.writeCheck ∨ s.moved=0 → t.wcheck=s.wcheck
  wge : s.moved=0 → t.drive.wge=s.drive.wge
  address : s.moved=0 → t.bae=s.bae ∧ t.msb=s.msb

def Good (s : Rl11) : Prop :=
  s.bus.Has s.word s.moved ∧ (s.function=.writeData → 0<s.moved → s.drive.protect=false)

def Fails (s t : Rl11) : Prop := t.nxm=true ∨ s.function=.writeData ∧ t.drive.wge=true

theorem lastDiffers_sector (mem image : Nat → UInt16) (a pos : Nat) {n : Nat} (h : 0<n) :
    LastDiffers mem image a pos (rlSector+n) ↔ LastDiffers mem image (a+rlSector) (pos+rlSector) n := by
  have hj : (rlSector+n-1)/rlSector*rlSector=rlSector+(n-1)/rlSector*rlSector := by
    unfold rlSector
    omega
  have hn : rlSector+n-(rlSector+(n-1)/rlSector*rlSector)=n-(n-1)/rlSector*rlSector := by omega
  unfold LastDiffers
  dsimp only
  rw [hj,hn,Nat.add_assoc,Nat.add_assoc]

theorem lastDiffers_one (mem image : Nat → UInt16) (a pos : Nat) {n : Nat} (h : n ≤ rlSector) :
    LastDiffers mem image a pos n ↔ slice image pos rlSector ≠ slice mem a n++replicate (rlSector-n) 0 := by
  have hj : (n-1)/rlSector*rlSector=0 := by
    unfold rlSector at *
    omega
  unfold LastDiffers
  dsimp only
  rw [hj,Nat.add_zero,Nat.add_zero,Nat.sub_zero]

theorem Locked.pastTrack (h : Locked s) (hst : s.state=.rwDisk)
    (hf : s.function≠.readDataWithoutHeaderCheck) (hsec : 40 ≤ s.da%64) :
    Leads busy stateReadwrite s { s with hnf := true,opi := true,state := .ready } := by
  have hs : s.stateReadwrite={ s with hnf := true,opi := true,state := .ready } := by
    unfold stateReadwrite
    rw [if_neg (by rw [h.ready]; simp),hst]
    dsimp only
    rw [if_neg hf,h.headerOnTrack,if_pos (by simpa using hsec)]
    rfl
  rw [← hs]
  exact leads_step (by rw [hst]; simp)

theorem moved_zero (hsec : 40 ≤ s.da%64) : s.moved=0 := by
  unfold moved
  rw [Nat.sub_eq_zero_of_le hsec]
  exact Nat.min_zero _

theorem moved_last (hsec : s.da%64<40) (hw : s.wordcount ≤ rlSector) : s.moved=s.wordcount := by
  unfold moved rlSector at *
  omega

theorem Locked.notMoved (hpos : 0<s.wordcount) (hnxm : s.nxm=false)
    (hsec : 40 ≤ s.da%64) : Moved s { s with hnf := true,opi := true,state := .ready } ∧
      Flags s { s with hnf := true,opi := true,state := .ready } := by
  have hm := moved_zero hsec
  refine ⟨⟨rfl,fun _ => ?_,fun _ => rfl,fun _ => ?_,fun _ => rfl,?_,?_,fun h0 => ?_,?_,?_,hnxm,
    fun _ h0 => ?_⟩,⟨fun _ h0 => ?_,fun _ => rfl,fun _ => rfl,fun _ => ⟨rfl,rfl⟩⟩⟩
  · rw [hm,slice_zero,patch_nil]
  · rw [hm,slice_zero,zeroFilled_nil,patch_nil]
  · show s.da=s.da+(s.moved+127)/rlSector
    simp [hm,rlSector]
  · show s.word=s.word+s.moved
    rw [hm,Nat.add_zero]
  · omega
  · rw [hm,decide_eq_true hpos]
  · rw [hm,decide_eq_true hpos]
  · omega
  · omega

structure OnTrack (s : Rl11) (d : Rl0102) : Prop where
  lockOn : d.lockOn=true
  ready : d.ready=true
  cylinder : d.cylinder=s.drive.cylinder
  head : d.head=s.drive.head
  segment : d.segment<80
  protect : d.protect=s.drive.protect

theorem Found.onTrack (h : Found s) (image : Nat → UInt16) (wge : Bool) :
    OnTrack s { s.passed image with wge := wge } :=
  ⟨h.locked.lockOn,h.locked.ready,rfl,rfl,Nat.mod_lt _ (by omega),rfl⟩

theorem Found.sectorMoved (h : Found s) (hf : s.function≠.readDataWithoutHeaderCheck)
    (hb : s.bus.Has s.word s.chunk) (hp : s.function=.writeData → s.drive.protect=false) :
    ∃ drive mem wcheck,After s drive mem wcheck s.transferSector ∧ OnTrack s drive ∧
      (s.function=.readData → mem=patch s.bus.mem s.word (slice s.drive.image s.place s.chunk)) ∧
      (s.function≠.readData → mem=s.bus.mem) ∧ (s.function=.writeData → drive.image=patch s.drive.image s.place
        (slice s.bus.mem s.word s.chunk++replicate (rlSector-s.chunk) 0) ∧ drive.wge=false) ∧
      (s.function≠.writeData → drive.image=s.drive.image) ∧
      (s.function=.writeCheck → (wcheck ↔ slice s.drive.image s.place rlSector ≠
        slice s.bus.mem s.word s.chunk++replicate (rlSector-s.chunk) 0)) ∧
      (s.function≠.writeCheck → wcheck=s.wcheck) := by
  cases hfun : s.function with
  | readDataWithoutHeaderCheck => exact absurd hfun hf
  | readData =>
    refine ⟨_,_,_,h.readData hfun hb ▸ h.after _ _ _,h.onTrack s.drive.image s.drive.wge,fun _ => rfl,
      by simp,by simp,fun _ => rfl,by simp,fun _ => rfl⟩
  | writeCheck =>
    refine ⟨_,_,_,h.writeCheck hfun hb ▸ h.after _ _ _,h.onTrack s.drive.image s.drive.wge,by simp,
      fun _ => rfl,by simp,fun _ => rfl,fun _ => decide_eq_true_iff,by simp⟩
  | writeData =>
    have hw := h.writeData hfun hb
    rw [h.write (hp hfun)] at hw
    refine ⟨_,_,_,hw ▸ h.after _ _ _,h.onTrack _ false,by simp,fun _ => rfl,fun _ => ⟨rfl,rfl⟩,by simp,
      by simp,fun _ => rfl⟩

theorem Found.last (h : Found s) (hf : s.function≠.readDataWithoutHeaderCheck)
    (hb : s.bus.Has s.word s.chunk) (hp : s.function=.writeData → s.drive.protect=false)
    (hw : s.wordcount ≤ rlSector) (hopi : s.opi=false) (hhnf : s.hnf=false) :
    Moved s s.transferSector ∧ Flags s s.transferSector := by
  obtain ⟨drive,mem,wcheck,ha,-,hread,hmem,hwrite,hpack,hcheck,hun⟩ := h.sectorMoved hf hb hp
  have hpos := h.pos
  have hm := moved_last h.sector hw
  have hc : s.chunk=s.moved := by
    rw [hm]
    unfold chunk
    omega
  have hlen : (slice s.bus.mem s.word s.moved).length=s.moved := slice_length _ _ _
  have hfill : zeroFilled rlSector (slice s.bus.mem s.word s.moved) =
      slice s.bus.mem s.word s.moved++replicate (rlSector-s.moved) 0 := by
    unfold zeroFilled
    rw [hlen,hm]
    congr 2
    unfold rlSector at *
    omega
  have hlast := lastDiffers_one s.bus.mem s.drive.image s.word s.place (hm.trans_le hw)
  rw [hc] at hread hwrite hcheck
  refine ⟨⟨?_,fun hf => ?_,fun hf => ?_,fun hf => ?_,fun hf => ?_,?_,?_,fun _ => ha.bae,?_,?_,ha.nxm,
    fun hf _ => ?_⟩,⟨fun hf _ => ?_,fun hf => ?_,fun h0 => ?_,fun h0 => ?_⟩⟩
  · rw [ha.state,if_pos hw]
  · rw [ha.bus]
    exact hread hf
  · rw [ha.bus]
    exact hmem hf
  · rw [ha.drive,(hwrite hf).1,hfill]
  · rw [ha.drive,hpack hf]
  · rw [ha.da,hm]
    unfold rlSector at *
    omega
  · rw [ha.word,hc]
  · rw [ha.opi,hopi,hm]
    simp
  · rw [ha.hnf,hhnf,hm]
    simp
  · rw [ha.drive,(hwrite hf).2]
  · rw [ha.wcheck,hlast]
    exact hcheck hf
  · rw [ha.wcheck]
    rcases hf with hf | h0
    · exact hun hf
    · omega
  · omega
  · omega

theorem moved_more {s u : Rl11} (hsec : s.da%64<40) (hda : u.da=s.da+1)
    (hw : rlSector<s.wordcount) (hc : u.wordcount=s.wordcount-s.chunk) :
    s.moved=rlSector+u.moved ∧ s.chunk=rlSector := by
  have hchunk : s.chunk=rlSector := by
    unfold chunk
    omega
  refine ⟨?_,hchunk⟩
  have hmod : (s.da+1)%64=s.da%64+1 := by omega
  unfold moved
  rw [hc,hda,hchunk,hmod]
  unfold rlSector at *
  omega

theorem Found.more {s t u : Rl11} {drive : Rl0102} {wcheck : Bool} (h : Found s)
    (ha : After s drive mem wcheck u) (hw : rlSector<s.wordcount)
    (hread : s.function=.readData → mem=patch s.bus.mem s.word (slice s.drive.image s.place s.chunk))
    (hmem : s.function≠.readData → mem=s.bus.mem)
    (hwrite : s.function=.writeData → drive.image=patch s.drive.image s.place
      (slice s.bus.mem s.word s.chunk++replicate (rlSector-s.chunk) 0) ∧ drive.wge=false)
    (hpack : s.function≠.writeData → drive.image=s.drive.image)
    (hcheck : s.function=.writeCheck → (wcheck ↔ slice s.drive.image s.place rlSector ≠
      slice s.bus.mem s.word s.chunk++replicate (rlSector-s.chunk) 0))
    (hun : s.function≠.writeCheck → wcheck=s.wcheck) (ht : Moved u t) (hft : Flags u t) : Moved s t ∧ Flags s t := by
  obtain ⟨hm,hc⟩ := moved_more h.sector ha.da hw ha.wordcount
  have hplace := ha.place h
  have hword := ha.word
  have hcount := ha.wordcount
  rw [hc] at hread hwrite hcheck hword hcount
  rw [Nat.sub_self,replicate_zero,append_nil] at hwrite hcheck
  have humem : u.bus.mem=mem := by rw [ha.bus]
  have huimage : u.drive.image=drive.image := by rw [ha.drive]
  have hlen : (slice s.bus.mem s.word rlSector).length=rlSector := slice_length _ _ _
  refine ⟨⟨ht.state,fun hf => ?_,fun hf => ?_,fun hf => ?_,fun hf => ?_,?_,?_,fun _ => ?_,?_,?_,ht.nxm,
    fun hf _ => ?_⟩,⟨fun hf _ => ?_,fun hf => ?_,fun h0 => ?_,fun h0 => ?_⟩⟩
  · rw [ht.read (ha.function.trans hf),humem,huimage,hread hf,hpack (by rw [hf]; simp),hm,
      slice_append,patch_append,slice_length,hword,hplace]
  · rw [ht.memory (by rw [ha.function]; exact hf),humem,hmem hf]
  · rw [ht.write (ha.function.trans hf),humem,huimage,(hwrite hf).1,hmem (by rw [hf]; simp),hm,
      slice_append,zeroFilled_sector hlen,patch_append,hlen,hword,hplace]
  · rw [ht.pack (by rw [ha.function]; exact hf),huimage,hpack hf]
  · rw [ht.da,ha.da,hm]
    unfold rlSector
    omega
  · rw [ht.word,hword,hm,Nat.add_assoc]
  · by_cases h0 : 0<u.moved
    · rw [ht.bae h0,ha.bae,Option.map_map]
      rfl
    · obtain ⟨hb,hmsb⟩ := hft.address (by omega)
      rw [hb,ha.bae,hmsb]
  · rw [ht.opi,hm,hcount]
    congr 1
    apply propext
    omega
  · rw [ht.hnf,hm,hcount]
    congr 1
    apply propext
    omega
  · by_cases h0 : 0<u.moved
    · exact ht.wge (ha.function.trans hf) h0
    · rw [hft.wge (by omega),ha.drive,(hwrite hf).2]
  · by_cases h0 : 0<u.moved
    · rw [hft.wcheck (ha.function.trans hf) h0,humem,huimage,hmem (by rw [hf]; simp),
        hpack (by rw [hf]; simp),hm,hword,hplace]
      exact (lastDiffers_sector _ _ _ _ h0).symm
    · rw [hft.unchecked (.inr (by omega)),ha.wcheck,hm,show u.moved=0 by omega,
        Nat.add_zero,lastDiffers_one _ _ _ _ le_rfl,Nat.sub_self,replicate_zero,append_nil]
      exact hcheck hf
  · rcases hf with hf | h0
    · rw [hft.unchecked (.inl (by rw [ha.function]; exact hf)),ha.wcheck,hun hf]
    · unfold rlSector at hm
      omega
  all_goals
    unfold rlSector at hm
    omega

theorem Found.refused (h : Found s) (hf : s.function=.writeData)
    (hb : s.bus.Has s.word s.chunk) (hp : s.drive.protect) :
    After s { s.drive with wge := true } s.bus.mem s.wcheck s.transferSector := by
  have hw := h.writeData hf hb
  have hr : ∀ ws,s.drive.writeNextSectorData ws={ s.drive with wge := true } := fun ws => by
    unfold Rl0102.writeNextSectorData
    rw [if_neg (by rw [h.locked.lockOn]; simp),if_pos (by rw [hp]; rfl)]
  rw [hr] at hw
  rw [hw]
  exact h.after _ _ _

theorem Locked.transfer (h : Locked s) (hst : s.state=.rwDisk)
    (hf : s.function≠.readDataWithoutHeaderCheck) (hpos : 0<s.wordcount) (hopi : s.opi=false)
    (hhnf : s.hnf=false) (hnxm : s.nxm=false) : ∃ t,Leads busy stateReadwrite s t ∧ t.state=.ready ∧
      (Good s ∧ Moved s t ∧ Flags s t ∨ ¬Good s ∧ Fails s t) := by
  -- by the sectors that are left of the track
  generalize hk : 40-s.da%64=k
  induction k generalizing s with
  | zero =>
    have hsec : 40 ≤ s.da%64 := by omega
    have hm := moved_zero hsec
    refine ⟨_,h.pastTrack hst hf hsec,rfl,.inl ⟨⟨?_,?_⟩,Locked.notMoved hpos hnxm hsec⟩⟩
    · intro i hi
      omega
    · intro _ h0
      omega
  | succ k ih =>
    have hsec : s.da%64<40 := by omega
    have hlead := h.search hst hf hsec
    generalize hfs : ({ s with drive := { s.drive with segment := 2*(s.da%64)+1 },mpr := s.da } : Rl11)
      = f at hlead
    have hfound : Found f := by
      subst hfs
      exact ⟨⟨h.lockOn,h.ready,h.cylinder,h.head,by show 2*(s.da%64)+1<80; omega,h.da⟩,rfl,hsec,hpos⟩
    -- what the search leaves is the start for the sector
    have hback : ∀ t,(Good f ∧ Moved f t ∧ Flags f t ∨ ¬Good f ∧ Fails f t) →
        (Good s ∧ Moved s t ∧ Flags s t ∨ ¬Good s ∧ Fails s t) := by
      subst hfs
      intro t ht
      rcases ht with ⟨hg,hm,hfl⟩ | ⟨hg,hfa⟩
      · exact .inl ⟨hg,⟨hm.1,hm.2,hm.3,hm.4,hm.5,hm.6,hm.7,hm.8,hm.9,hm.10,hm.11,hm.12⟩,
          ⟨hfl.1,hfl.2,hfl.3,hfl.4⟩⟩
      · exact .inr ⟨hg,hfa⟩
    have hff : f.function≠.readDataWithoutHeaderCheck := by subst hfs; exact hf
    have hfo : f.opi=false := by subst hfs; exact hopi
    have hfh : f.hnf=false := by subst hfs; exact hhnf
    have hfk : 40-f.da%64=k+1 := by subst hfs; exact hk
    have hfst : f.state=.rwDisk := by subst hfs; exact hst
    clear hfs
    suffices hgoal : ∃ t,Leads busy stateReadwrite f.transferSector t ∧ t.state=.ready ∧
        (Good f ∧ Moved f t ∧ Flags f t ∨ ¬Good f ∧ Fails f t) by
      obtain ⟨t,hl,hr,ht⟩ := hgoal
      exact ⟨t,hlead.trans hl,hr,hback t ht⟩
    clear hlead hback
    have hchunk : f.chunk≤f.moved := by
      have := hfound.sector
      unfold chunk moved rlSector
      omega
    have hcpos := hfound.chunk_pos
    by_cases hb : f.bus.Has f.word f.chunk
    · by_cases hp : f.function=.writeData → f.drive.protect=false
      · obtain ⟨drive,mem,wcheck,ha,hon,hread,hmem,hwrite,hpack,hcheck,hun⟩ :=
          hfound.sectorMoved hff hb hp
        by_cases hw : f.wordcount ≤ rlSector
        · have hc : f.chunk=f.moved := by
            rw [moved_last hfound.sector hw]
            unfold chunk
            omega
          have hlast := hfound.last hff hb hp hw hfo hfh
          exact ⟨_,Leads.refl _,hlast.1.state,.inl ⟨⟨hc ▸ hb,fun hf _ => hp hf⟩,hlast⟩⟩
        · have hw' : rlSector<f.wordcount := by omega
          obtain ⟨hm,hc⟩ := moved_more hfound.sector ha.da hw' ha.wordcount
          have hsec' := hfound.sector
          obtain ⟨t,hl,hr,ht⟩ := ih (ha.locked hfound hon.lockOn hon.ready hon.cylinder hon.head hon.segment)
            (by rw [ha.state,if_neg hw]) (by rw [ha.function]; exact hff)
            (by rw [ha.wordcount,hc]; omega) (by rw [ha.opi,hfo]) (by rw [ha.hnf,hfh]) ha.nxm
            (by rw [ha.da]; omega)
          have hhas : f.transferSector.bus.Has (f.word+rlSector) f.transferSector.moved ↔
              f.bus.Has (f.word+rlSector) f.transferSector.moved :=
            has_congr (by rw [ha.bus]) (by rw [ha.bus]) _ _
          have hgood : Good f ↔ Good f.transferSector := by
            unfold Good
            rw [ha.word,hc,hhas,ha.function,ha.drive,hon.protect,hm,has_add]
            rw [hc] at hb
            constructor
            · rintro ⟨⟨_,h1⟩,h2⟩
              exact ⟨h1,fun hf _ => hp hf⟩
            · rintro ⟨h1,_⟩
              exact ⟨⟨hb,h1⟩,fun hf _ => hp hf⟩
          refine ⟨t,hl,hr,?_⟩
          rcases ht with ⟨hg,htm,htf⟩ | ⟨hg,hfa⟩
          · exact .inl ⟨hgood.mpr hg,hfound.more ha hw' hread hmem hwrite hpack hcheck hun htm htf⟩
          · refine .inr ⟨hgood.not.mpr hg,?_⟩
            rw [Fails,ha.function] at hfa
            exact hfa
      · -- every sector of a write is refused
        simp only [Classical.not_imp,Bool.not_eq_false] at hp
        have ha := hfound.refused hp.1 hb hp.2
        have hng : ¬Good f := fun hg => by
          rw [hg.2 hp.1 (by omega)] at hp
          exact absurd hp.2 (by simp)
        by_cases hw : f.wordcount ≤ rlSector
        · exact ⟨_,Leads.refl _,by rw [ha.state,if_pos hw],.inr ⟨hng,.inr ⟨hp.1,by rw [ha.drive]⟩⟩⟩
        · have hsec' := hfound.sector
          have hw' : rlSector<f.wordcount := by omega
          obtain ⟨hm,hc⟩ := moved_more hfound.sector ha.da hw' ha.wordcount
          have hl := hfound.locked
          obtain ⟨t,hl,hr,ht⟩ := ih (ha.locked hfound hl.lockOn hl.ready rfl rfl hl.segment)
            (by rw [ha.state,if_neg hw]) (by rw [ha.function]; exact hff)
            (by rw [ha.wordcount,hc]; omega) (by rw [ha.opi,hfo]) (by rw [ha.hnf,hfh]) ha.nxm
            (by rw [ha.da]; omega)
          refine ⟨t,hl,hr,.inr ⟨hng,?_⟩⟩
          rcases ht with ⟨hg,htm,htf⟩ | ⟨hg,hfa⟩
          · have h0 : f.transferSector.moved=0 := by
              by_contra h0
              have := hg.2 (ha.function.trans hp.1) (by omega)
              rw [ha.drive] at this
              exact absurd (hp.2.symm.trans this) (by simp)
            exact .inr ⟨hp.1,by rw [htf.wge h0,ha.drive]⟩
          · rw [Fails,ha.function] at hfa
            exact hfa
    · obtain ⟨hr,hn⟩ := hfound.timeout hb
      refine ⟨_,Leads.refl _,hr,.inr ⟨fun hg => hb ?_,.inl hn⟩⟩
      have := hg.1
      rw [show f.moved=f.chunk+(f.moved-f.chunk) by omega,has_add] at this
      exact this.1

/-- The transfer is the one that was asked for, and a write check tells whether a word differs. -/
def TransferRight (s t : Rl11) : Prop :=
  Moved s t ∧ (t.wcheck=true ↔ s.function=.writeCheck ∧
    slice s.bus.mem s.word s.moved≠slice s.drive.image s.place s.moved)

/-- A write check sees all that differs in its last sector, and nothing behind the words in it. -/
def ChecksRight (s : Rl11) : Prop :=
  (0<s.moved ∧ LastDiffers s.bus.mem s.drive.image s.word s.place s.moved) ↔
    slice s.bus.mem s.word s.moved≠slice s.drive.image s.place s.moved

theorem right_iff {s t : Rl11} (hw : s.wcheck=false) (h : Good s ∧ Moved s t ∧ Flags s t ∨ ¬Good s ∧ Fails s t) :
    TransferRight s t ↔ Good s ∧ (s.function=.writeCheck → ChecksRight s) := by
  rcases h with ⟨hg,hm,hfl⟩ | ⟨hg,hfa⟩
  · unfold TransferRight ChecksRight
    simp only [hg,hm,true_and]
    by_cases hf : s.function=.writeCheck
    · simp only [hf,true_and,forall_const]
      by_cases h0 : 0<s.moved
      · rw [hfl.wcheck hf h0]
        simp only [h0,true_and]
      · rw [hfl.unchecked (.inr (by omega)),hw]
        simp only [h0,false_and,Bool.false_eq_true]
    · rw [hfl.unchecked (.inl hf),hw]
      simp [hf]
  · refine ⟨fun hr => ?_,fun hr => absurd hr.1 hg⟩
    rcases hfa with hn | ⟨hf,hwge⟩
    · rw [hr.1.nxm] at hn
      cases hn
    · by_cases h0 : 0<s.moved
      · rw [hr.1.wge hf h0] at hwge
        cases hwge
      · exfalso
        refine hg ⟨fun i hi => ?_,fun _ hi => absurd hi h0⟩
        omega

theorem noWords (hz : s.wordcount=0) :
    Good s ∧ Moved s s.clearErrors.commandDone ∧ Flags s.clearErrors s.clearErrors.commandDone := by
  have hm : s.moved=0 := by
    unfold moved
    rw [hz]
    exact Nat.zero_min _
  refine ⟨⟨fun i hi => ?_,fun _ h0 => ?_⟩,⟨rfl,fun _ => ?_,fun _ => rfl,fun _ => ?_,fun _ => rfl,?_,?_,
    fun h0 => ?_,?_,?_,rfl,fun _ h0 => ?_⟩,⟨fun _ h0 => ?_,fun _ => rfl,fun _ => rfl,fun _ => ⟨rfl,rfl⟩⟩⟩
  · omega
  · omega
  · rw [hm,slice_zero,patch_nil]
    rfl
  · rw [hm,slice_zero,zeroFilled_nil,patch_nil]
    rfl
  · show s.da=s.da+(s.moved+127)/rlSector
    simp [hm,rlSector]
  · show s.word=s.word+s.moved
    rw [hm,Nat.add_zero]
  · omega
  · rw [hm,hz]
    rfl
  · rw [hm,hz]
    rfl
  · omega
  · have : s.clearErrors.moved=s.moved := rfl
    omega

theorem right_clearErrors (s t : Rl11) (state : RlState) :
    TransferRight { s.clearErrors with state := state } t ↔ TransferRight s t := by
  constructor
  all_goals
    rintro ⟨⟨h1,h2,h3,h4,h5,h6,h7,h8,h9,h10,h11,h12⟩,h⟩
    exact ⟨⟨h1,h2,h3,h4,h5,h6,h7,h8,h9,h10,h11,h12⟩,h⟩

/-- On a drive locked on the track of the disk address every transfer ends. It is the one asked for exactly when the
words of memory answer, the pack may be written where it is, and a write check finds in the last sector with its zeros
what all the words tell. -/
theorem readwrite_right (s : Rl11) (h : Locked s) (hst : s.state=.rwInit)
    (hf : s.function≠.readDataWithoutHeaderCheck) :
    (∃ fuel t,execute s fuel=some t) ∧ ∀ fuel t,execute s fuel=some t →
      (TransferRight s t ↔ Good s ∧ (s.function=.writeCheck → ChecksRight s)) := by
  suffices hrun : ∃ t,Leads busy stateReadwrite s t ∧ t.state=.ready ∧
      (TransferRight s t ↔ Good s ∧ (s.function=.writeCheck → ChecksRight s)) by
    obtain ⟨t,hl,hr,ht⟩ := hrun
    obtain ⟨n,hn⟩ := hl.ends (by unfold busy; rw [hr]; rfl)
    refine ⟨⟨n,t,hn⟩,fun m u hu => ?_⟩
    rw [runWhile_unique hu hn]
    exact ht
  have hstep : s.stateReadwrite =
      if s.wordcount=0 then s.clearErrors.commandDone
      else { s.clearErrors with state := .rwDisk } := by
    unfold stateReadwrite
    rw [if_neg (by rw [h.ready]; simp),hst]
  have hlead : Leads busy stateReadwrite s s.stateReadwrite := leads_step (by rw [hst]; simp)
  rw [hstep] at hlead
  by_cases hz : s.wordcount=0
  · rw [if_pos hz] at hlead
    obtain ⟨hg,hm,hfl⟩ := noWords hz
    have hr := right_iff (s := s.clearErrors) rfl (.inl ⟨hg,
      ⟨hm.1,hm.2,hm.3,hm.4,hm.5,hm.6,hm.7,hm.8,hm.9,hm.10,hm.11,hm.12⟩,hfl⟩)
    exact ⟨_,hlead,rfl,(right_clearErrors s _ s.state).symm.trans hr⟩
  · rw [if_neg hz] at hlead
    have hlocked : Locked { s.clearErrors with state := .rwDisk } := ⟨h.1,h.2,h.3,h.4,h.5,h.6⟩
    obtain ⟨t,hl,hr,ht⟩ := hlocked.transfer rfl hf (by show 0<s.wordcount; omega) rfl rfl rfl
    exact ⟨t,hlead.trans hl,hr,(right_clearErrors s t _).symm.trans (right_iff rfl ht)⟩

def sample (function : RlFunction) (da words : Nat) (image : Nat → UInt16) : Rl11 :=
  ⟨.rwInit,function,da,0,0,none,(0x10000-words)%0x10000,0,false,false,false,false,
    ⟨0,0,0,true,true,false,false,image⟩,⟨0x20000,fun _ => true,fun _ => 0⟩⟩

/-- A read of 130 words from the last sector of the track moves 128. -/
theorem readwrite_right_last : ∃ fuel t, execute (sample .readData 39 130 fun _ => 7) fuel=some t ∧
      TransferRight (sample .readData 39 130 fun _ => 7) t := by
  obtain ⟨⟨n,t,ht⟩,hall⟩ := readwrite_right (sample .readData 39 130 fun _ => 7)
    ⟨rfl,rfl,rfl,rfl,by decide,by decide⟩ rfl (by decide)
  exact ⟨n,t,ht,(hall n t ht).mpr ⟨⟨fun i hi => ⟨by
    have : (sample .readData 39 130 fun _ => 7).moved=128 := by decide +kernel
    show 0+i<0x20000
    omega,rfl⟩,fun hf => by cases hf⟩,fun hf => by cases hf⟩⟩

/-- A write check that forgets the first sector, and one that looks behind its only word -/
theorem readwrite_astray : (∃ t,execute (sample .writeCheck 0 256 fun i => if i=0 then 1 else 0) 9=some t ∧
      t.wcheck=false ∧ ¬TransferRight (sample .writeCheck 0 256 fun i => if i=0 then 1 else 0) t) ∧
    ∃ t,execute (sample .writeCheck 0 1 fun i => if i=5 then 1 else 0) 9=some t ∧ t.wcheck ∧
      ¬TransferRight (sample .writeCheck 0 1 fun i => if i=5 then 1 else 0) t := by
  have h1 : (execute (sample .writeCheck 0 256 fun i => if i=0 then 1 else 0) 9).map wcheck =
      some false := by decide +kernel
  have h2 : (execute (sample .writeCheck 0 1 fun i => if i=5 then 1 else 0) 9).map wcheck =
      some true := by decide +kernel
  obtain ⟨t,ht,hw⟩ := Option.map_eq_some_iff.mp h1
  obtain ⟨u,hu,hv⟩ := Option.map_eq_some_iff.mp h2
  refine ⟨⟨t,ht,hw,fun hr => ?_⟩,u,hu,hv,fun hr => ?_⟩
  · have := hr.2.mpr ⟨rfl,by decide +kernel⟩
    rw [hw] at this
    cases this
  · exact (hr.2.mp hv).2 (by decide +kernel)

end Rl11

end QUniLator.Disks
