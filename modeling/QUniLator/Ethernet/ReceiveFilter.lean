import QUniLator.Framework.Bpf
import QUniLator.Ethernet.DelqaReceive
import Mathlib.Tactic.FinCases

/-! The kernel's receive filter, and the DELQA's own behind it. -/

namespace QUniLator.Ethernet

open List Bpf

/-- `ether_address_t` -/
abbrev Address := Fin 6 → Byte

namespace Address

def multicast (a : Address) : Bool := a 0 &&& 0x01≠0

def broadcast : Address := fun _ => 0xff

/-- The six bytes of a frame from `at_` on. -/
def ofFrame (frame : List Byte) (at_ : Nat) : Address := fun j => frame.getD (at_+j) 0

/-- `hi` and `lo`, as the filter compares them. -/
def hi (a : Address) : Bpf.Word := a 0++a 1++a 2++a 3

def lo (a : Address) : Bpf.Word := (a 4++a 5).setWidth 32

theorem hi_eq (a b : Address) : a.hi=b.hi ↔ ((a 0=b 0 ∧ a 1=b 1) ∧ a 2=b 2) ∧ a 3=b 3 := by
  change a 0++a 1++a 2++a 3=b 0++b 1++b 2++b 3 ↔ _
  rw [Bpf.append_inj,Bpf.append_inj,Bpf.append_inj]

theorem lo_eq (a b : Address) : a.lo=b.lo ↔ a 4=b 4 ∧ a 5=b 5 := by
  rw [lo,lo,setWidth_inj (by decide),Bpf.append_inj]

theorem eq_iff (a b : Address) : a=b ↔ a.hi=b.hi ∧ a.lo=b.lo := by
  rw [hi_eq,lo_eq,funext_iff]
  constructor
  · intro h
    exact ⟨⟨⟨⟨h 0,h 1⟩,h 2⟩,h 3⟩,h 4,h 5⟩
  · rintro ⟨⟨⟨⟨h0,h1⟩,h2⟩,h3⟩,h4,h5⟩ i
    fin_cases i <;> assumption

end Address

/-- The four instructions for each address, from instruction `at_` on. -/
def addressTests (accept : Nat) : Nat → List Address → List Bpf.Insn
  | _,[] => []
  | at_,a::rest =>
    .ld .w 0 :: .jeq a.hi 0 2 :: .ld .h 4 ::
      .jeq a.lo (BitVec.ofNat 8 (accept-(at_+3)-1)) 0::addressTests accept (at_+4) rest

def etherReceiveFilter (addresses : List Address) (promiscuous : Bool) : List Bpf.Insn :=
  if promiscuous then [.ret 0xffff]
  else
    let accept := 3+4*addresses.length+1
    [.ld .b 0,.and 1,.jeq 0 0 (BitVec.ofNat 8 (accept-2-1))]++addressTests accept 3 addresses ++
      [.ret 0,.ret 0xffff]

theorem addressTests_length (accept at_ : Nat) (as : List Address) :
    (addressTests accept at_ as).length=4*as.length := by
  induction as generalizing at_ with
  | nil => rfl
  | cons a as ih =>
    simp only [addressTests,length_cons,ih]
    omega

theorem drop_tests {n : Nat} {tests : List Insn} (hn : n≤63) (hlen : tests.length=4*n) :
    (tests++[Bpf.Insn.ret 0,.ret 0xffff]).drop (BitVec.ofNat 8 (4*n+1)).toNat=[.ret 0xffff] := by
  rw [BitVec.toNat_ofNat,Nat.mod_eq_of_lt (by omega),← hlen,← drop_drop]
  simp

theorem run_tests {frame : List Byte} (hlen : 6≤frame.length) (accept at_ : Nat)
    (as : List Address) (hat : accept=at_+4*as.length+1) (has : as.length≤63) (v : Bpf.Word) :
    run frame (addressTests accept at_ as++[.ret 0,.ret 0xffff]) v =
      some (if Address.ofFrame frame 0∈as then 0xffff else 0) := by
  induction as generalizing at_ v with
  | nil => simp [addressTests,run_ret]
  | cons a as ih =>
    rw [length_cons] at hat has
    have hrest := ih (at_+4) (by omega) (by omega)
    have hi : load frame 0 .w=some (Address.ofFrame frame 0).hi := load_w (by omega)
    have lo : load frame 4 .h=some (Address.ofFrame frame 0).lo := load_h (by omega)
    have hjump : accept-(at_+3)-1=4*as.length+1 := by omega
    have hd := drop_tests (by omega : as.length≤63) (addressTests_length accept (at_+4) as)
    simp only [addressTests,cons_append]
    rw [run_ld hi,run_jeq]
    by_cases hhi : (Address.ofFrame frame 0).hi=a.hi
    · rw [if_pos hhi]
      change run frame (.ld .h 4::_) _=_
      rw [run_ld lo,run_jeq]
      by_cases hlo : (Address.ofFrame frame 0).lo=a.lo
      · have heq := (Address.eq_iff _ _).mpr ⟨hhi,hlo⟩
        rw [if_pos hlo,hjump,hd,run_ret,heq,if_pos mem_cons_self]
      · have hne : Address.ofFrame frame 0≠a := fun h => hlo ((Address.eq_iff _ _).mp h).2
        rw [if_neg hlo]
        change run frame (addressTests accept (at_+4) as++_) _=_
        simp only [hrest,mem_cons,hne,false_or]
    · have hne : Address.ofFrame frame 0≠a := fun h => hhi ((Address.eq_iff _ _).mp h).1
      rw [if_neg hhi]
      change run frame (addressTests accept (at_+4) as++_) _=_
      simp only [hrest,mem_cons,hne,false_or]

theorem run_etherReceiveFilter {frame : List Byte} (hlen : 6≤frame.length)
    {addresses : List Address} (has : addresses.length≤63) (promiscuous : Bool) (v : Bpf.Word) :
    run frame (etherReceiveFilter addresses promiscuous) v =
      some (if promiscuous || (Address.ofFrame frame 0).multicast ||
        decide (Address.ofFrame frame 0∈addresses) then 0xffff else 0) := by
  cases promiscuous with
  | true => rw [etherReceiveFilter,if_pos rfl,run_ret]; rfl
  | false =>
    have hb : load frame 0 .b=some ((Address.ofFrame frame 0 0).setWidth 32) :=
      load_b (by omega)
    have hbit (b : Byte) : b.setWidth 32 &&& (1 : Bpf.Word)=0 ↔ b &&& 0x01=0 := by
      revert b
      decide
    have hjump : 3+4*addresses.length+1-2-1=4*addresses.length+1 := by omega
    have hd := drop_tests has (addressTests_length (3+4*addresses.length+1) 3 addresses)
    rw [etherReceiveFilter,if_neg (by decide)]
    simp only [cons_append,nil_append]
    rw [run_ld hb,run_and,run_jeq,hjump]
    by_cases hm : Address.ofFrame frame 0 0 &&& 0x01=0
    · have huni : (Address.ofFrame frame 0).multicast=false := decide_eq_false (not_not.mpr hm)
      rw [if_pos ((hbit _).mpr hm),huni]
      change run frame (addressTests _ 3 addresses++_) _=_
      rw [run_tests (by omega) _ _ _ (by omega) has]
      simp
    · have hmulti : (Address.ofFrame frame 0).multicast=true := decide_eq_true hm
      rw [if_neg (fun h => hm ((hbit _).mp h)),hd,run_ret,hmulti]
      rfl

def csrIl : Word := 0x0100

abbrev filterMax : Nat := 14

/-- What of `delqa_c` the filters are made of, with the program that the bridge's socket carries. -/
structure Station where
  stationAddress : Address
  valid : Bool
  macs : Fin filterMax → Address
  promiscuous : Bool
  allMulticast : Bool
  sanityQuarterSecs : Nat
  kernelFilter : List Bpf.Insn

namespace Station

/-- Which addresses `update_bridge_filter` names: the station's and the unicast entries. -/
def addresses (s : Station) : List Address :=
  s.stationAddress::if s.valid then
    ((finRange filterMax).map s.macs).filter fun m =>
      !(m=0 || m.multicast || m=s.stationAddress)
  else []

def updateBridgeFilter (s : Station) : Station :=
  { s with kernelFilter := etherReceiveFilter s.addresses (s.valid && s.promiscuous) }

def initial (stationAddress : Address) : Station :=
  updateBridgeFilter ⟨stationAddress,false,fun _ => 0,false,false,0,[]⟩

/-- `quarter_secs`, the periods of the sanity timer -/
def quarterSecs : List Nat := [1,4,16,64,1*240,4*240,16*240,64*240]

/-- `process_setup` with the packet in the write buffer -/
def processSetup (s : Station) (buf : List Byte) : Station :=
  let len := buf.length
  updateBridgeFilter { s with
    macs := fun i j =>
      if i<7 then buf.getD (i+1+j*8) 0 else buf.getD (i-7+0o101+j*8) 0
    allMulticast := len &&& 0x0001≠0
    promiscuous := len &&& 0x0002≠0
    sanityQuarterSecs :=
      if 128<len then quarterSecs.getD ((len &&& 0x0070) >>> 4) 0 else s.sanityQuarterSecs
    valid := true }

/-- `software_reset`: the addresses survive it, the modes do not. -/
def softwareReset (s : Station) : Station :=
  updateBridgeFilter { s with promiscuous := false,allMulticast := false }

def powerOnReset (s : Station) : Station :=
  softwareReset { s with
    valid := false,macs := fun _ => 0,promiscuous := false,allMulticast := false,
    sanityQuarterSecs := 0 }

/-- A change of the parameter `mac`, to an address that its text spells. -/
def setMac (s : Station) (a : Address) : Station :=
  if a.multicast then s else updateBridgeFilter { s with stationAddress := a }

/-- `active_physical_address`: the first entry that is no group address. -/
def activePhysicalAddress (s : Station) : Address :=
  if s.valid then
    (((finRange filterMax).map s.macs).find? fun m => !m.multicast).getD s.stationAddress
  else s.stationAddress

/-- `bridge_accept`, with CSR and the connector in the transceiver port -/
def bridgeAccept (s : Station) (csr : Word) (loopbackConnector : Bool) (frame : List Byte) : Bool :=
  let dst := Address.ofFrame frame 0
  let src := Address.ofFrame frame 6
  let entries := (finRange filterMax).map s.macs
  let loopback : Bool := ~~~csr &&& csrIl≠0 || csr &&& csrEl≠0
  if frame.length<12 then false
  else if loopbackConnector then false
  else if loopback then false
  else if !dst.multicast && !s.promiscuous && !(dst=s.stationAddress || decide (dst∈entries)) then
    false
  else if s.valid then
    let phys := s.activePhysicalAddress
    let own := src=phys || entries.any fun m => !m.multicast && src=m
    !own && (s.promiscuous || dst.multicast && s.allMulticast || dst=phys ||
      dst.multicast && decide (dst∈entries))
  else !decide (src=s.stationAddress) && (dst=s.stationAddress || dst=Address.broadcast)

end Station

inductive FilterOp
  | setup (buf : List Byte)
  | softwareReset
  | powerOnReset
  | mac (a : Address)

def FilterOp.apply (s : Station) : FilterOp → Station
  | .setup buf => s.processSetup buf
  | .softwareReset => s.softwareReset
  | .powerOnReset => s.powerOnReset
  | .mac a => s.setMac a

def Station.kernelAccepts (s : Station) (frame : List Byte) : Prop :=
  ∃ k,Bpf.run frame s.kernelFilter 0=some k ∧ k≠0

namespace Station
variable {s : Station}

def Current (s : Station) : Prop :=
  s.kernelFilter=etherReceiveFilter s.addresses (s.valid && s.promiscuous)

theorem updateBridgeFilter_current : s.updateBridgeFilter.Current := rfl

theorem initial_current (a : Address) : (initial a).Current := rfl

theorem apply_current (h : s.Current) (op : FilterOp) : (op.apply s).Current := by
  cases op with
  | setup buf | softwareReset | powerOnReset => exact updateBridgeFilter_current
  | mac a =>
    simp only [FilterOp.apply,setMac]
    split_ifs
    · exact h
    · exact updateBridgeFilter_current

theorem run_current (h : s.Current) (ops : List FilterOp) : (ops.foldl FilterOp.apply s).Current := by
  induction ops generalizing s with
  | nil => exact h
  | cons op ops ih => exact ih (apply_current h op)

theorem addresses_length (s : Station) : s.addresses.length≤filterMax+1 := by
  unfold addresses
  split_ifs
  · have h := length_filter_le
      (fun m => !(decide (m=0) || m.multicast || decide (m=s.stationAddress)))
      ((finRange filterMax).map s.macs)
    rw [length_map,length_finRange] at h
    exact Nat.succ_le_succ h
  · exact Nat.succ_le_succ (Nat.zero_le _)

theorem mem_addresses (a : Address) : a∈s.addresses ↔ a=s.stationAddress ∨
    s.valid ∧ a∈(finRange filterMax).map s.macs ∧ a≠0 ∧ a.multicast=false := by
  unfold addresses
  cases s.valid with
  | false => simp
  | true =>
    by_cases hs : a=s.stationAddress
    · simp [hs]
    · simp [hs]

theorem kernelAccepts_iff (h : s.Current) {frame : List Byte} (hlen : 6≤frame.length) :
    s.kernelAccepts frame ↔ (s.valid && s.promiscuous) ∨
      (Address.ofFrame frame 0).multicast=true ∨ Address.ofFrame frame 0∈s.addresses := by
  have has : s.addresses.length≤63 := s.addresses_length.trans (by decide)
  rw [kernelAccepts,h,run_etherReceiveFilter hlen has]
  simp only [Bool.or_eq_true,decide_eq_true_eq,or_assoc]
  constructor
  · rintro ⟨k,hk,hne⟩
    by_contra hno
    rw [if_neg hno] at hk
    exact hne (Option.some.inj hk).symm
  · intro hyes
    exact ⟨0xffff,by rw [if_pos hyes],by decide⟩

theorem activePhysicalAddress_cases (s : Station) : s.activePhysicalAddress=s.stationAddress ∨
    s.valid ∧ s.activePhysicalAddress∈(finRange filterMax).map s.macs ∧ s.activePhysicalAddress.multicast=false := by
  unfold activePhysicalAddress
  cases hv : s.valid with
  | false => exact .inl rfl
  | true =>
    rw [if_pos rfl]
    cases hf : ((finRange filterMax).map s.macs).find? fun m => !m.multicast with
    | none => exact .inl rfl
    | some m =>
      have huni := List.find?_some hf
      rw [Bool.not_eq_true'] at huni
      exact .inr ⟨rfl,List.mem_of_find?_eq_some hf,huni⟩

theorem bridgeAccept_dst {csr : Word} {connector : Bool} {frame : List Byte}
    (h : s.bridgeAccept csr connector frame) : (s.valid && s.promiscuous)=true ∨ (Address.ofFrame frame 0).multicast ∨
      Address.ofFrame frame 0=s.activePhysicalAddress := by
  simp only [bridgeAccept] at h
  split_ifs at h with _ _ _ _ hv
  · simp only [Bool.and_eq_true,Bool.or_eq_true,decide_eq_true_eq] at h
    rw [hv,Bool.true_and]
    obtain ⟨-,((hp | ⟨hm,-⟩) | hd) | ⟨hm,-⟩⟩ := h
    · exact .inl hp
    · exact .inr (.inl hm)
    · exact .inr (.inr hd)
    · exact .inr (.inl hm)
  · simp only [Bool.and_eq_true,Bool.or_eq_true,decide_eq_true_eq] at h
    rw [activePhysicalAddress,if_neg hv]
    obtain ⟨-,hd | hb⟩ := h
    · exact .inr (.inr hd)
    · exact .inr (.inl (by rw [hb]; rfl))

theorem active_mem_addresses : s.activePhysicalAddress∈s.addresses ↔
    s.activePhysicalAddress≠0 ∨ s.stationAddress=0 := by
  rw [mem_addresses]
  obtain hst | ⟨hv,hmem,huni⟩ := s.activePhysicalAddress_cases
  · rw [hst]
    exact ⟨fun _ => (em' _),fun _ => .inl rfl⟩
  · constructor
    · rintro (h | ⟨-,-,hne,-⟩)
      · by_cases h0 : s.stationAddress=0
        · exact .inr h0
        · exact .inl (h ▸ h0)
      · exact .inl hne
    · intro h
      by_cases h0 : s.activePhysicalAddress=0
      · exact .inl (h0.trans (h.resolve_left (not_not.mpr h0)).symm)
      · exact .inr ⟨hv,hmem,h0,huni⟩

def toZero : List Byte := replicate 6 0++replicate 6 0xff++[0x08,0x00]

theorem bridgeAccept_toZero (hp : (s.valid && s.promiscuous)=false) (ha : s.activePhysicalAddress=0)
    (hs : s.stationAddress≠0) : s.bridgeAccept csrIl false toZero=true := by
  have hdst : Address.ofFrame toZero 0=0 := by decide
  have hsrc : Address.ofFrame toZero 6=Address.broadcast := by decide
  have hzero : (0 : Address).multicast=false := by decide
  have hbroad : Address.broadcast.multicast=true := by decide
  have hne : Address.broadcast≠0 := by decide
  obtain hst | ⟨hv,hmem,huni⟩ := s.activePhysicalAddress_cases
  · exact absurd (hst.symm.trans ha) hs
  · rw [ha] at hmem
    have hown : ((finRange filterMax).map s.macs).any
        (fun m => !m.multicast && decide (Address.broadcast=m))=false := by
      rw [any_eq_false]
      rintro m - hm
      rw [Bool.and_eq_true,decide_eq_true_eq] at hm
      obtain ⟨hm,rfl⟩ := hm
      rw [hbroad] at hm
      cases hm
    have hloop : (decide (~~~csrIl &&& csrIl≠0) || decide (csrIl &&& csrEl≠0))=false := by
      decide
    have hlen : toZero.length=14 := rfl
    rw [hv,Bool.true_and] at hp
    simp only [bridgeAccept,hdst,hsrc,hloop,hlen]
    simp [hzero,hp,hmem,hv,ha,hne,hown]

end Station

/-- The kernel's filter ends with every frame and accepts those to groups and to the addresses it was made for; the
socket carries it for fifteen of these; and it lets through what the software filter takes exactly where the active
address is not zero, or is the station's. -/
theorem kernel_filter_covers (station : Address) (ops : List FilterOp) :
    let s := ops.foldl FilterOp.apply (.initial station)
    (∀ addresses promiscuous (frame : List Byte),addresses.length≤filterMax+1 →
      14≤frame.length → Bpf.run frame (etherReceiveFilter addresses promiscuous) 0 =
        some (if promiscuous || (Address.ofFrame frame 0).multicast ||
          decide (Address.ofFrame frame 0∈addresses) then 0xffff else 0)) ∧
    s.addresses.length≤filterMax+1 ∧
    s.kernelFilter=etherReceiveFilter s.addresses (s.valid && s.promiscuous) ∧
    ((∀ csr connector (frame : List Byte),14≤frame.length →
        s.bridgeAccept csr connector frame=true → s.kernelAccepts frame) ↔
      (s.valid && s.promiscuous)=true ∨ s.activePhysicalAddress≠0 ∨ s.stationAddress=0) := by
  intro s
  have hcur : s.Current := Station.run_current (Station.initial_current station) ops
  refine ⟨?_,s.addresses_length,hcur,?_⟩
  · intro addresses promiscuous frame has hlen
    exact run_etherReceiveFilter (by omega) (has.trans (by decide)) _ _
  · constructor
    · intro hall
      by_contra hno
      push Not at hno
      obtain ⟨hp,ha,hs⟩ := hno
      have hp' : (s.valid && s.promiscuous)=false := by simpa using hp
      have hkernel := hall csrIl false Station.toZero (by decide) (Station.bridgeAccept_toZero hp' ha hs)
      rw [Station.kernelAccepts_iff hcur (by decide),hp'] at hkernel
      have hdst : Address.ofFrame Station.toZero 0=s.activePhysicalAddress := by rw [ha]; decide
      rw [hdst,Station.active_mem_addresses,ha] at hkernel
      obtain h | h | h := hkernel
      · cases h
      · revert h
        decide
      · exact h.elim (fun h => h rfl) hs
    · intro hcond csr connector frame hlen hacc
      rw [Station.kernelAccepts_iff hcur (by omega)]
      obtain hp | hm | hd := Station.bridgeAccept_dst hacc
      · exact .inl hp
      · exact .inr (.inl hm)
      · refine hcond.imp_right fun h => .inr ?_
        rw [hd]
        exact Station.active_mem_addresses.mpr h

/-- A setup packet of 128 zero bytes makes the address that is all zeros the active one. -/
theorem kernel_filter_drops : ¬∀ (station : Address) (ops : List FilterOp) (csr : Word)
    (connector : Bool) (frame : List Byte),14≤frame.length →
    (ops.foldl FilterOp.apply (.initial station)).bridgeAccept csr connector frame=true →
    (ops.foldl FilterOp.apply (.initial station)).kernelAccepts frame := by
  intro h
  have hall := h (fun _ => 0x08) [.setup (replicate 128 0)] csrIl false Station.toZero (by decide)
    (by decide +kernel)
  rw [Station.kernelAccepts_iff (Station.run_current (Station.initial_current _) _) (by decide)] at hall
  revert hall
  decide +kernel

end QUniLator.Ethernet
