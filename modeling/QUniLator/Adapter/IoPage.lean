import Mathlib.Data.BitVec
import QUniLator.Framework.Attempt
import QUniLator.Framework.FreeRun
import QUniLator.Framework.Run

/-! The map of the I/O page: devices and ROM that come and go. -/

namespace QUniLator.Adapter.IoPage

open List Option Function

/-- `IOPAGE_REGISTER_HANDLE_ROM` -/
def handleRom : Nat := 0xff

/-- `MAX_IOPAGE_REGISTER_COUNT`, also the most registers of a device -/
def maxRegisterCount : Nat := 0xff

def maxDeviceHandle : Nat := 255

/-- The index of `IOPAGE_REGISTER_ENTRY` -/
def entry (addr : Nat) : Nat := addr%0o20000/2

/-- `qunibusdevice_register_t` -/
structure Register where
  activeOnDati : Bool
  activeOnDato : Bool
  resetValue : BitVec 16
  writableBits : BitVec 16
  addr : Nat
  registerHandle : Nat

/-- `pru_iopage_register_t` -/
structure PruRegister where
  value : BitVec 16
  resetValue : BitVec 16
  writableBits : BitVec 16
  eventOnDati : Bool
  eventOnDato : Bool
  eventRegisterHandle : Nat

/-- `qunibusdevice_c`. It is on the bus where its handle is not 0. -/
structure Device where
  handle : Nat
  baseAddr : Nat
  isCpu : Bool
  registers : List Register

/-- The adapter with what the PRU shares, over devices `ι` -/
structure State (ι : Type) where
  addrSpaceByteCount : Nat
  registerHandles : Nat → Nat
  pruRegisters : Nat → PruRegister
  registerByHandle : Nat → Option (ι × Nat)
  devices : Nat → Option ι
  device : ι → Device
  registeredCpu : Option ι

namespace Register

def misconfigured (r : Register) : Bool :=
  r.activeOnDati && !r.activeOnDato && r.writableBits≠0

def toPru (r : Register) : PruRegister where
  value := r.resetValue
  resetValue := r.resetValue
  writableBits := r.writableBits
  eventOnDati := r.activeOnDati
  eventOnDato := r.activeOnDato
  eventRegisterHandle := if r.activeOnDati || r.activeOnDato then r.registerHandle else 0

def entry (r : Register) : Nat := IoPage.entry r.addr

end Register

/-- The first `n` registers with their addresses noted -/
def noted (base n : Nat) (rs : List Register) : List Register :=
  rs.mapIdx fun i r => if i<n then { r with addr := base+2*i } else r

def linked (base first : Nat) (rs : List Register) : List Register :=
  rs.mapIdx fun i r => { r with addr := base+2*i,registerHandle := first+i }

namespace State
variable {ι : Type} [DecidableEq ι]

def setDevice (s : State ι) (d : ι) (dev : Device) : State ι :=
  { s with device := update s.device d dev }

def plug (d : ι) (s : State ι) (ri : Register × Nat) : Option (State ι) := do
  let (r,i) := ri
  assert (s.registerByHandle r.registerHandle).isNone
  return { s with
    registerByHandle := update s.registerByHandle r.registerHandle (some (d,i))
    pruRegisters := update s.pruRegisters r.registerHandle r.toPru
    registerHandles := update s.registerHandles r.entry r.registerHandle }

def unplug (s : State ι) (r : Register) : State ι :=
  { s with
    registerHandles := update s.registerHandles r.entry 0
    registerByHandle := update s.registerByHandle r.registerHandle none }

def conflict (s : State ι) (addr : Nat) : Bool :=
  s.registerHandles (entry addr)≠0 && s.registerHandles (entry addr)≠handleRom

def registerCpu (d : ι) (isCpu : Bool) (s : State ι) : Option (State ι) :=
  if isCpu then do
    assert s.registeredCpu.isNone
    return { s with registeredCpu := some d }
  else some s

/-- `register_device`, with what it answers -/
def registerDevice (s : State ι) (d : ι) : Option (State ι × Bool) := do
  let dev := s.device d
  let count := dev.registers.length
  assert (dev.handle=0)
  assert (count ≤ maxRegisterCount)
  if dev.registers.any Register.misconfigured then return (s,false)
  match (List.range' 1 maxDeviceHandle).find? fun h => (s.devices h).isNone with
  | none => return (s,false)
  | some deviceHandle =>
    match (List.range count).find? fun i => s.conflict (dev.baseAddr+2*i) with
    | some i =>
      return (s.setDevice d { dev with registers := noted dev.baseAddr (i+1) dev.registers },false)
    | none =>
      let run := FreeRun.scan (fun h => (s.registerByHandle h).isSome) count maxRegisterCount
      if run.start=0 ∧ 0<count then
        return (s.setDevice d { dev with registers := noted dev.baseAddr count dev.registers },false)
      let registers := linked dev.baseAddr run.start dev.registers
      let s := { s.setDevice d { dev with handle := deviceHandle,registers := registers } with
        devices := update s.devices deviceHandle (some d) }
      let s ← registers.zipIdx.foldlM (plug d) s
      let s ← s.registerCpu d dev.isCpu
      return (s,true)

def unregisterDevice (s : State ι) (d : ι) : Option (State ι) := do
  let dev := s.device d
  assert (0<dev.handle)
  let s := { s.setDevice d { dev with handle := 0 } with
    registeredCpu := if dev.isCpu then none else s.registeredCpu
    devices := update s.devices dev.handle none }
  return dev.registers.foldl unplug s

def inIoPage (s : State ι) (address : Nat) : Bool :=
  address%2=0 && s.addrSpaceByteCount-0o20000≤address && address ≤ s.addrSpaceByteCount-2

def registerRom (s : State ι) (address : Nat) : Option (State ι × Bool) := do
  assert (s.inIoPage address)
  let cell := s.registerHandles (entry address)
  assert (cell≠handleRom)
  if cell≠0 ∧ cell≠handleRom then return (s,false)
  return ({ s with registerHandles := update s.registerHandles (entry address) handleRom },
    true)

def unregisterRom (s : State ι) (address : Nat) : Option (State ι) := do
  assert (s.inIoPage address)
  let cell := s.registerHandles (entry address)
  if cell=0 then return s
  if cell≠handleRom then return s
  return { s with registerHandles := update s.registerHandles (entry address) 0 }

def isRom (s : State ι) (address : Nat) : Option Bool :=
  if address%2=1 then some false
  else if address<s.addrSpaceByteCount-0o20000 then some false
  else do
    assert (address ≤ s.addrSpaceByteCount-2)
    return s.registerHandles (entry address)=handleRom

/-- A device that is not on the bus is given other registers, or any device another base address. -/
def configure (s : State ι) (d : ι) (dev : Device) : Option (State ι) := do
  assert ((s.device d).handle=0)
  return s.setDevice d { dev with handle := 0 }

def setBase (s : State ι) (d : ι) (base : Nat) : State ι :=
  s.setDevice d { s.device d with baseAddr := base }

end State

inductive Op (ι : Type)
  | registerDevice (d : ι)
  | unregisterDevice (d : ι)
  | registerRom (address : Nat)
  | unregisterRom (address : Nat)
  | configure (d : ι) (dev : Device)
  | setBase (d : ι) (base : Nat)

/-- What was installed: the cells that are ROM, and those of them that a device covered which is off
the bus again. -/
structure Roms where
  rom : Nat → Bool
  stripped : Nat → Bool

section
variable {ι : Type} [DecidableEq ι]

def State.step (s : State ι) : Op ι → Option (State ι × Bool)
  | .registerDevice d => s.registerDevice d
  | .unregisterDevice d => (s.unregisterDevice d).map fun t => (t,true)
  | .registerRom a => s.registerRom a
  | .unregisterRom a => (s.unregisterRom a).map fun t => (t,true)
  | .configure d dev => (s.configure d dev).map fun t => (t,true)
  | .setBase d base => some (s.setBase d base,true)

def Roms.after (g : Roms) (s : State ι) (accepted : Bool) : Op ι → Roms
  | .registerRom a =>
    if accepted then
      ⟨update g.rom (entry a) true,update g.stripped (entry a) false⟩ else g
  | .unregisterRom a => { g with rom := update g.rom (entry a) false }
  | .unregisterDevice d =>
    { g with stripped := fun c =>
        g.stripped c || ((s.device d).registers.map Register.entry).contains c }
  | _ => g

def stepAccount (x : State ι × Roms) (op : Op ι) : Option (State ι × Roms) :=
  (x.1.step op).map fun t => (t.1,x.2.after x.1 t.2 op)

def start (addrSpaceByteCount : Nat) (device : ι → Device) : State ι × Roms :=
  (⟨addrSpaceByteCount,fun _ => 0,fun _ => ⟨0,0,0,false,false,0⟩,fun _ => none,fun _ => none,
    fun d => { device d with handle := 0 },none⟩,⟨fun _ => false,fun _ => false⟩)

/-- `r` is register `k` of `d`, which is on the bus. -/
def State.Installed (s : State ι) (d : ι) (k : Nat) (r : Register) : Prop :=
  (s.device d).handle≠0 ∧ (s.device d).registers[k]? = some r

def State.Covered (s : State ι) (c : Nat) : Prop := ∃ d k r,s.Installed d k r ∧ r.entry=c

structure Inv (x : State ι × Roms) : Prop where
  device : ∀ d,(x.1.device d).handle≠0 → x.1.devices (x.1.device d).handle=some d
  owns : ∀ d k r,x.1.Installed d k r → 1 ≤ r.registerHandle ∧ r.registerHandle<handleRom ∧
    x.1.registerHandles r.entry=r.registerHandle ∧
    x.1.registerByHandle r.registerHandle=some (d,k)
  byHandle : ∀ h d k,x.1.registerByHandle h=some (d,k) →
    ∃ r,x.1.Installed d k r ∧ r.registerHandle=h
  uncovered : ∀ c,¬x.1.Covered c →
    x.1.registerHandles c=if x.2.rom c && !x.2.stripped c then handleRom else 0

namespace State
variable {s t : State ι} {d : ι}

omit [DecidableEq ι] in
theorem plug_eq {r : Register} {i : Nat} (h : s.plug d (r,i)=some t) : t={ s with
    registerByHandle := update s.registerByHandle r.registerHandle (some (d,i))
    pruRegisters := update s.pruRegisters r.registerHandle r.toPru
    registerHandles := update s.registerHandles r.entry r.registerHandle } := by
  simp only [plug,assert_bind] at h
  split_ifs at h
  exact (some.inj h).symm

/-- The registers `rs` of `d`, numbered from `i` on, are on the bus after the loop. -/
structure Plugged (d : ι) (rs : List Register) (i : Nat) (s t : State ι) : Prop where
  byHandle : ∀ h,h∉rs.map Register.registerHandle → t.registerByHandle h=s.registerByHandle h
  cell : ∀ c,c∉rs.map Register.entry → t.registerHandles c=s.registerHandles c
  own : ∀ k r,rs[k]? = some r →
    t.registerByHandle r.registerHandle=some (d,i+k) ∧ t.registerHandles r.entry=r.registerHandle
  device : t.device=s.device
  devices : t.devices=s.devices

omit [DecidableEq ι] in
theorem plug_loop (rs : List Register) (i : Nat) (hc : (rs.map Register.entry).Nodup)
    (hh : (rs.map Register.registerHandle).Nodup) (h : (rs.zipIdx i).foldlM (plug d) s=some t) :
    Plugged d rs i s t := by
  induction rs generalizing i s with
  | nil =>
    obtain rfl := some.inj h
    exact ⟨fun _ _ => rfl,fun _ _ => rfl,fun k r hk => by simp at hk,rfl,rfl⟩
  | cons r rs ih =>
    rw [zipIdx_cons,foldlM_cons,bind_eq_bind] at h
    obtain ⟨u,hu,ht⟩ := bind_eq_some_iff.mp h
    rw [map_cons,nodup_cons] at hc hh
    have hrest := ih (i+1) hc.2 hh.2 ht
    obtain rfl := plug_eq hu
    refine ⟨?_,?_,?_,hrest.device,hrest.devices⟩
    · intro h hn
      rw [map_cons,mem_cons,not_or] at hn
      rw [hrest.byHandle h hn.2]
      exact update_of_ne hn.1 _ _
    · intro c hn
      rw [map_cons,mem_cons,not_or] at hn
      rw [hrest.cell c hn.2]
      exact update_of_ne hn.1 _ _
    · intro k r' hk
      cases k with
      | zero =>
        obtain rfl := some.inj hk
        rw [hrest.byHandle _ hh.1,hrest.cell _ hc.1]
        exact ⟨update_self ..,update_self ..⟩
      | succ k =>
        obtain ⟨hb,hcell⟩ := hrest.own k r' hk
        rw [hb,hcell,Nat.add_right_comm,Nat.add_assoc]
        exact ⟨rfl,rfl⟩

omit [DecidableEq ι] in
theorem unplug_loop (rs : List Register) (s : State ι) : (∀ h,(rs.foldl unplug s).registerByHandle h =
      if h∈rs.map Register.registerHandle then none else s.registerByHandle h) ∧
    (∀ c,(rs.foldl unplug s).registerHandles c = if c∈rs.map Register.entry then 0 else s.registerHandles c) ∧
    (rs.foldl unplug s).device=s.device ∧ (rs.foldl unplug s).devices=s.devices := by
  induction rs generalizing s with
  | nil => exact ⟨fun _ => rfl,fun _ => rfl,rfl,rfl⟩
  | cons r rs ih =>
    obtain ⟨hh,hc,hd,hds⟩ := ih (s.unplug r)
    rw [foldl_cons]
    refine ⟨fun h => ?_,fun c => ?_,hd,hds⟩
    · rw [hh]
      by_cases hr : h=r.registerHandle
      all_goals simp [unplug,hr]
    · rw [hc]
      by_cases hr : c=r.entry
      all_goals simp [unplug,hr]

end State

theorem entry_inj {base i j : Nat} (hi : i < maxRegisterCount) (hj : j < maxRegisterCount)
    (h : entry (base+2*i)=entry (base+2*j)) : i=j := by
  unfold maxRegisterCount at hi hj
  unfold entry at h
  omega

theorem linked_get (base first : Nat) (rs : List Register) (k : Nat) (r : Register)
    (h : (linked base first rs)[k]? = some r) : k < rs.length ∧ r.addr=base+2*k ∧ r.registerHandle=first+k := by
  rw [linked,List.getElem?_mapIdx] at h
  obtain ⟨r',hr,rfl⟩ := map_eq_some_iff.mp h
  exact ⟨(List.getElem?_eq_some_iff.mp hr).1,rfl,rfl⟩

theorem linked_nodup {base first : Nat} {rs : List Register} (hlen : rs.length ≤ maxRegisterCount) :
    ((linked base first rs).map Register.entry).Nodup ∧
      ((linked base first rs).map Register.registerHandle).Nodup := by
  have hentry : (linked base first rs).map Register.entry =
      (List.range rs.length).map fun i => entry (base+2*i) := by
    apply ext_getElem (by simp [linked])
    intro i h1 h2
    simp [linked,Register.entry]
  have hhandle : (linked base first rs).map Register.registerHandle =
      (List.range rs.length).map fun i => first+i := by
    apply ext_getElem (by simp [linked])
    intro i h1 h2
    simp [linked]
  rw [hentry,hhandle]
  refine ⟨Nodup.map_on ?_ nodup_range,Nodup.map_on ?_ nodup_range⟩
  · intro i hi j hj h
    rw [mem_range] at hi hj
    exact entry_inj (by omega) (by omega) h
  · intro i _ j _ h
    omega

section
variable {s t : State ι} {d : ι}

def State.placed (s : State ι) (d : ι) (deviceHandle first : Nat) : State ι :=
  { s.setDevice d { s.device d with
      handle := deviceHandle
      registers := linked (s.device d).baseAddr first (s.device d).registers } with
    devices := update s.devices deviceHandle (some d) }

theorem assert_holds {p : Bool} {u : Unit} (h : assert p=some u) : p=true := by
  cases p with
  | true => rfl
  | false => cases h

/-- A device is refused, with addresses noted in its registers at most, or its registers are plugged
into free cells under free handles. -/
theorem State.registerDevice_cases {accepted : Bool} (h : s.registerDevice d=some (t,accepted)) :
    (s.device d).handle=0 ∧ (s.device d).registers.length ≤ maxRegisterCount ∧
    ((accepted=false ∧ (t=s ∨ ∃ n,t=s.setDevice d { s.device d with
        registers := noted (s.device d).baseAddr n (s.device d).registers })) ∨
      accepted=true ∧ ∃ deviceHandle first u,1≤deviceHandle ∧ s.devices deviceHandle=none ∧
        (∀ i<(s.device d).registers.length,
          s.conflict ((s.device d).baseAddr+2*i)=false ∧ 1≤first+i ∧ first+i < maxRegisterCount ∧
          s.registerByHandle (first+i)=none) ∧
        Plugged d (linked (s.device d).baseAddr first (s.device d).registers) 0
          (s.placed d deviceHandle first) u ∧
        ∃ cpu,t={ u with registeredCpu := cpu }) := by
  unfold registerDevice at h
  obtain ⟨_,h0,h⟩ := bind_eq_some_iff.mp h
  obtain ⟨_,hcount,h⟩ := bind_eq_some_iff.mp h
  replace h0 := of_decide_eq_true (assert_holds h0)
  replace hcount := of_decide_eq_true (assert_holds hcount)
  refine ⟨h0,hcount,?_⟩
  cases hmis : (s.device d).registers.any Register.misconfigured with
  | true =>
    rw [if_pos hmis] at h
    obtain ⟨rfl,rfl⟩ := Prod.mk.inj (some.inj h)
    exact .inl ⟨rfl,.inl rfl⟩
  | false =>
    rw [if_neg (Bool.eq_false_iff.mp hmis)] at h
    cases hdh : (List.range' 1 maxDeviceHandle).find? fun h => (s.devices h).isNone with
    | none =>
      simp only [hdh] at h
      obtain ⟨rfl,rfl⟩ := Prod.mk.inj (some.inj h)
      exact .inl ⟨rfl,.inl rfl⟩
    | some deviceHandle =>
      simp only [hdh] at h
      cases hcf : (List.range (s.device d).registers.length).find? fun i =>
          s.conflict ((s.device d).baseAddr+2*i) with
      | some i =>
        simp only [hcf] at h
        obtain ⟨rfl,rfl⟩ := Prod.mk.inj (some.inj h)
        exact .inl ⟨rfl,.inr ⟨i+1,rfl⟩⟩
      | none =>
        simp only [hcf] at h
        split_ifs at h with hrun
        · obtain ⟨rfl,rfl⟩ := Prod.mk.inj (some.inj h)
          exact .inl ⟨rfl,.inr ⟨_,rfl⟩⟩
        · obtain ⟨u,hu,h⟩ := bind_eq_some_iff.mp h
          obtain ⟨v,hv,h⟩ := bind_eq_some_iff.mp h
          obtain ⟨rfl,rfl⟩ := Prod.mk.inj (some.inj h)
          have hfree := List.find?_some hdh
          have hmem := mem_range'_1.mp (List.mem_of_find?_eq_some hdh)
          refine .inr ⟨rfl,deviceHandle,_,u,hmem.1,isNone_iff_eq_none.mp hfree,?_,
            State.plug_loop _ 0 (linked_nodup hcount).1 (linked_nodup hcount).2 hu,?_⟩
          · intro i hi
            have hne : (FreeRun.scan (fun h => (s.registerByHandle h).isSome)
                (s.device d).registers.length maxRegisterCount).start≠0 := by
              intro h0
              exact hrun ⟨h0,by omega⟩
            obtain ⟨hend,hused⟩ := FreeRun.scan_found (by decide) hne
            have hnone := List.find?_eq_none.mp hcf i (mem_range.mpr hi)
            refine ⟨by simpa using hnone,by omega,by omega,?_⟩
            have := hused _ (Nat.le_add_right _ i) (by omega)
            simpa using this
          · unfold State.registerCpu at hv
            split_ifs at hv
            · simp only [assert_bind] at hv
              split_ifs at hv
              exact ⟨_,(some.inj hv).symm⟩
            · exact ⟨u.registeredCpu,(some.inj hv).symm⟩

end

section
variable {s : State ι} {g : Roms} {d : ι}

omit [DecidableEq ι] in
theorem Inv.start (addrSpaceByteCount : Nat) (device : ι → Device) : Inv (start addrSpaceByteCount device) := by
  refine ⟨fun d h => absurd rfl h,fun d k r h => absurd rfl h.1,fun h d k hb => ?_,fun c _ => rfl⟩
  cases hb

theorem Inv.setDevice (h : Inv (s,g)) {dev : Device} (hh : dev.handle=(s.device d).handle)
    (hr : (s.device d).handle≠0 → dev.registers=(s.device d).registers) : Inv (s.setDevice d dev,g) := by
  have hhandle (d' : ι) : ((s.setDevice d dev).device d').handle=(s.device d').handle := by
    by_cases hd : d'=d
    · subst hd
      simp [State.setDevice,hh]
    · simp [State.setDevice,hd]
  have hinst (d' : ι) (k : Nat) (r : Register) :
      (s.setDevice d dev).Installed d' k r ↔ s.Installed d' k r := by
    unfold State.Installed
    rw [hhandle d']
    apply and_congr_right
    intro hne
    by_cases hd : d'=d
    · subst hd
      simp [State.setDevice,hr hne]
    · simp [State.setDevice,hd]
  refine ⟨?_,?_,?_,?_⟩
  · intro d' hne
    rw [hhandle] at hne ⊢
    exact h.device d' hne
  · intro d' k r hi
    exact h.owns d' k r ((hinst d' k r).mp hi)
  · intro i d' k hb
    obtain ⟨r,hi,hr⟩ := h.byHandle i d' k hb
    exact ⟨r,(hinst d' k r).mpr hi,hr⟩
  · intro c hc
    apply h.uncovered
    rintro ⟨d',k,r,hi,he⟩
    exact hc ⟨d',k,r,(hinst d' k r).mpr hi,he⟩

theorem Inv.plugged (h : Inv (s,g)) (h0 : (s.device d).handle=0) {deviceHandle first : Nat}
    {u : State ι} (hdh : 1≤deviceHandle) (hfree : s.devices deviceHandle=none)
    (hrun : ∀ i<(s.device d).registers.length,
      s.conflict ((s.device d).baseAddr+2*i)=false ∧ 1≤first+i ∧ first+i < maxRegisterCount ∧
      s.registerByHandle (first+i)=none)
    (hu : State.Plugged d (linked (s.device d).baseAddr first (s.device d).registers) 0
      (s.placed d deviceHandle first) u) (cpu : Option ι) : Inv ({ u with registeredCpu := cpu },g) := by
  have hself : (u.device d).handle=deviceHandle ∧
      (u.device d).registers=linked (s.device d).baseAddr first (s.device d).registers := by
    rw [hu.device]
    simp [State.placed,State.setDevice]
  have hother (d' : ι) (hd : d'≠d) : u.device d'=s.device d' := by
    rw [hu.device]
    simp [State.placed,State.setDevice,hd]
  have hdevices : u.devices=update s.devices deviceHandle (some d) := hu.devices
  -- the cells and handles that the device takes are nobody else's
  have hnew (r : Register) (hr : r∈linked (s.device d).baseAddr first (s.device d).registers) :
      s.conflict r.addr=false ∧ 1 ≤ r.registerHandle ∧ r.registerHandle<handleRom ∧
        s.registerByHandle r.registerHandle=none := by
    obtain ⟨k,hk⟩ := mem_iff_getElem?.mp hr
    obtain ⟨hlt,ha,hh⟩ := linked_get _ _ _ _ _ hk
    rw [ha,hh]
    exact hrun k hlt
  have hcell (d' : ι) (k : Nat) (r : Register) (hi : s.Installed d' k r) : r.entry ∉
      (linked (s.device d).baseAddr first (s.device d).registers).map Register.entry := by
    intro hm
    obtain ⟨r',hr',he⟩ := List.mem_map.mp hm
    obtain ⟨h1,h2,h3,-⟩ := h.owns d' k r hi
    have hcf := (hnew r' hr').1
    have he' : entry r'.addr=r.entry := he
    have h3' : s.registerHandles r.entry=r.registerHandle := h3
    simp only [State.conflict,he',h3',Bool.and_eq_false_iff,decide_eq_false_iff_not,not_not] at hcf
    omega
  have hhandle (i : Nat) (d' : ι) (k : Nat) (hb : s.registerByHandle i=some (d',k)) : i ∉
      (linked (s.device d).baseAddr first (s.device d).registers).map Register.registerHandle := by
    intro hm
    obtain ⟨r',hr',rfl⟩ := List.mem_map.mp hm
    rw [(hnew r' hr').2.2.2] at hb
    cases hb
  have hinst (d' : ι) (k : Nat) (r : Register) (hi : s.Installed d' k r) : u.Installed d' k r := by
    have hd : d'≠d := by
      rintro rfl
      exact hi.1 h0
    unfold State.Installed
    rw [hother d' hd]
    exact hi
  refine ⟨?_,?_,?_,?_⟩
  · intro d' hne
    change u.devices (u.device d').handle=some d'
    rw [hdevices]
    by_cases hd : d'=d
    · subst hd
      rw [hself.1,update_self]
    · have hne' : (s.device d').handle≠0 := by
        rw [← hother d' hd]
        exact hne
      have hold := h.device d' hne'
      rw [hother d' hd]
      rw [update_of_ne,hold]
      intro heq
      rw [heq,hfree] at hold
      cases hold
  · intro d' k r hi
    by_cases hd : d'=d
    · subst hd
      have hk : (linked (s.device d').baseAddr first (s.device d').registers)[k]? = some r := by
        rw [← hself.2]
        exact hi.2
      obtain ⟨-,h1,h2,-⟩ := hnew r (mem_of_getElem? hk)
      obtain ⟨hb,hc⟩ := hu.own k r hk
      rw [Nat.zero_add] at hb
      exact ⟨h1,h2,hc,hb⟩
    · have hi' : s.Installed d' k r := by
        unfold State.Installed
        rw [← hother d' hd]
        exact hi
      obtain ⟨h1,h2,h3,h4⟩ := h.owns d' k r hi'
      refine ⟨h1,h2,?_,?_⟩
      · exact (hu.cell _ (hcell d' k r hi')).trans h3
      · exact (hu.byHandle _ (hhandle _ d' k h4)).trans h4
  · intro i d' k hb
    by_cases hm : i∈(linked (s.device d).baseAddr first (s.device d).registers).map
        Register.registerHandle
    · obtain ⟨r,hr,rfl⟩ := List.mem_map.mp hm
      obtain ⟨k',hk'⟩ := mem_iff_getElem?.mp hr
      have hown := (hu.own k' r hk').1
      rw [Nat.zero_add] at hown
      obtain ⟨rfl,rfl⟩ := Prod.mk.inj (some.inj (hown.symm.trans hb))
      refine ⟨r,⟨?_,?_⟩,rfl⟩
      · change (u.device _).handle≠0
        rw [hself.1]
        omega
      · change (u.device _).registers[_]? = _
        rw [hself.2]
        exact hk'
    · have hb' : s.registerByHandle i=some (d',k) := (hu.byHandle i hm).symm.trans hb
      obtain ⟨r,hi,hr⟩ := h.byHandle i d' k hb'
      exact ⟨r,hinst d' k r hi,hr⟩
  · intro c hc
    have hm : c∉(linked (s.device d).baseAddr first (s.device d).registers).map
        Register.entry := by
      intro hm
      obtain ⟨r,hr,rfl⟩ := List.mem_map.mp hm
      obtain ⟨k,hk⟩ := mem_iff_getElem?.mp hr
      refine hc ⟨d,k,r,⟨?_,?_⟩,rfl⟩
      · change (u.device _).handle≠0
        rw [hself.1]
        omega
      · change (u.device _).registers[_]? = _
        rw [hself.2]
        exact hk
    refine (hu.cell c hm).trans (h.uncovered c ?_)
    rintro ⟨d',k,r,hi,he⟩
    exact hc ⟨d',k,r,hinst d' k r hi,he⟩

variable {t : State ι}

theorem Inv.unplugged (h : Inv (s,g)) (ht : s.unregisterDevice d=some t) :
    Inv (t,g.after s true (.unregisterDevice d)) := by
  unfold State.unregisterDevice at ht
  obtain ⟨_,h0,ht⟩ := bind_eq_some_iff.mp ht
  replace h0 := of_decide_eq_true (assert_holds h0)
  replace ht := (some.inj ht).symm
  obtain ⟨hb,hc,hd,hds⟩ := State.unplug_loop (s.device d).registers
    ({ s.setDevice d { s.device d with handle := 0 } with
      registeredCpu := if (s.device d).isCpu then none else s.registeredCpu
      devices := update s.devices (s.device d).handle none })
  rw [← ht] at hb hc hd hds
  have hself : (t.device d).handle=0 := by
    rw [hd]
    simp [State.setDevice]
  have hother (d' : ι) (hne : d'≠d) : t.device d'=s.device d' := by
    rw [hd]
    simp [State.setDevice,hne]
  have hne_of (d' : ι) (hi : (t.device d').handle≠0) : d'≠d := by
    rintro rfl
    exact hi hself
  have hinst (d' : ι) (k : Nat) (r : Register) :
      t.Installed d' k r ↔ d'≠d ∧ s.Installed d' k r := by
    unfold State.Installed
    constructor
    · intro hi
      have hne := hne_of d' hi.1
      rw [hother d' hne] at hi
      exact ⟨hne,hi⟩
    · rintro ⟨hne,hi⟩
      rw [hother d' hne]
      exact hi
  have hmine (r : Register) (hr : r∈(s.device d).registers) : ∃ k,s.Installed d k r := by
    obtain ⟨k,hk⟩ := mem_iff_getElem?.mp hr
    exact ⟨k,Nat.pos_iff_ne_zero.mp h0,hk⟩
  -- a cell or handle of the device's is no other's
  have hhandle (d' : ι) (k : Nat) (i : Nat) (hi : s.registerByHandle i=some (d',k)) (hne : d'≠d) :
      i∉(s.device d).registers.map Register.registerHandle := by
    intro hm
    obtain ⟨r,hr,rfl⟩ := List.mem_map.mp hm
    obtain ⟨k',hk'⟩ := hmine r hr
    have hown := (h.owns d k' r hk').2.2.2
    exact hne (congrArg Prod.fst (some.inj (hi.symm.trans hown)))
  have hcell (d' : ι) (k : Nat) (r : Register) (hi : s.Installed d' k r) (hne : d'≠d) :
      r.entry∉(s.device d).registers.map Register.entry := by
    intro hm
    obtain ⟨r',hr',he⟩ := List.mem_map.mp hm
    obtain ⟨k',hk'⟩ := hmine r' hr'
    obtain ⟨-,-,hv,hb'⟩ := h.owns d' k r hi
    have hv' := (h.owns d k' r' hk').2.2.1
    rw [he,hv] at hv'
    apply hhandle d' k r.registerHandle hb' hne
    rw [hv']
    exact List.mem_map_of_mem hr'
  refine ⟨?_,?_,?_,?_⟩
  · intro d' hi
    have hne := hne_of d' hi
    change t.devices (t.device d').handle=some d'
    have hold := h.device d' (by rw [← hother d' hne]; exact hi)
    rw [hds,hother d' hne]
    change update s.devices (s.device d).handle none (s.device d').handle=some d'
    rw [update_of_ne,hold]
    intro heq
    rw [heq,h.device d (Nat.pos_iff_ne_zero.mp h0)] at hold
    exact hne (some.inj hold).symm
  · intro d' k r hi
    obtain ⟨hne,hi⟩ := (hinst d' k r).mp hi
    obtain ⟨h1,h2,h3,h4⟩ := h.owns d' k r hi
    refine ⟨h1,h2,?_,?_⟩
    · exact (hc _).trans ((if_neg (hcell d' k r hi hne)).trans h3)
    · exact (hb _).trans ((if_neg (hhandle d' k _ h4 hne)).trans h4)
  · intro i d' k hi
    change t.registerByHandle i=some (d',k) at hi
    rw [hb] at hi
    have hm : i∉(s.device d).registers.map Register.registerHandle := by
      intro hm
      rw [if_pos hm] at hi
      cases hi
    rw [if_neg hm] at hi
    obtain ⟨r,hr,rfl⟩ := h.byHandle i d' k hi
    refine ⟨r,(hinst d' k r).mpr ⟨?_,hr⟩,rfl⟩
    rintro rfl
    exact hm (List.mem_map_of_mem (mem_of_getElem? hr.2))
  · intro c hn
    change t.registerHandles c=if g.rom c && !(g.stripped c ||
      ((s.device d).registers.map Register.entry).contains c) then handleRom else 0
    rw [hc]
    by_cases hm : c∈(s.device d).registers.map Register.entry
    · rw [if_pos hm,contains_iff_mem.mpr hm]
      simp
    · have hcon : ((s.device d).registers.map Register.entry).contains c=false := by
        rw [← Bool.not_eq_true,contains_iff_mem]
        exact hm
      rw [if_neg hm,hcon,Bool.or_false]
      apply h.uncovered
      rintro ⟨d',k,r,hi,rfl⟩
      refine hn ⟨d',k,r,(hinst d' k r).mpr ⟨?_,hi⟩,rfl⟩
      rintro rfl
      exact hm (List.mem_map_of_mem (mem_of_getElem? hi.2))

omit [DecidableEq ι] in
theorem Inv.cell (h : Inv (s,g)) {c v : Nat} (hfree : ¬s.Covered c) {g' : Roms}
    (hsame : ∀ c',c'≠c → g'.rom c'=g.rom c' ∧ g'.stripped c'=g.stripped c')
    (hv : v=if g'.rom c && !g'.stripped c then handleRom else 0) :
    Inv ({ s with registerHandles := update s.registerHandles c v },g') := by
  refine ⟨h.device,?_,h.byHandle,?_⟩
  · intro d k r hi
    obtain ⟨h1,h2,h3,h4⟩ := h.owns d k r hi
    refine ⟨h1,h2,?_,h4⟩
    have hne : r.entry≠c := fun he => hfree ⟨d,k,r,hi,he⟩
    exact (update_of_ne hne _ _).trans h3
  · intro c' hn
    change update s.registerHandles c v c' =
      if g'.rom c' && !g'.stripped c' then handleRom else 0
    by_cases hc : c'=c
    · subst hc
      rw [update_self,hv]
    · rw [update_of_ne hc,(hsame c' hc).1,(hsame c' hc).2]
      exact h.uncovered c' hn

omit [DecidableEq ι] in
theorem Inv.not_covered (h : Inv (s,g)) {c : Nat}
    (hv : s.registerHandles c=0 ∨ s.registerHandles c=handleRom) : ¬s.Covered c := by
  rintro ⟨d,k,r,hi,rfl⟩
  obtain ⟨h1,h2,h3,-⟩ := h.owns d k r hi
  have h3' : s.registerHandles r.entry=r.registerHandle := h3
  omega

omit [DecidableEq ι] in
theorem Inv.registerRom (h : Inv (s,g)) {a : Nat} {accepted : Bool} (ht : s.registerRom a=some (t,accepted)) :
    (accepted=false → t=s) ∧ Inv (t,g.after s accepted (.registerRom a)) := by
  unfold State.registerRom at ht
  obtain ⟨_,-,ht⟩ := bind_eq_some_iff.mp ht
  obtain ⟨_,hrom,ht⟩ := bind_eq_some_iff.mp ht
  replace hrom := of_decide_eq_true (assert_holds hrom)
  by_cases hcell : s.registerHandles (entry a)≠0 ∧ s.registerHandles (entry a)≠handleRom
  · rw [if_pos hcell] at ht
    obtain ⟨rfl,rfl⟩ := Prod.mk.inj (some.inj ht)
    exact ⟨fun _ => rfl,h⟩
  · rw [if_neg hcell] at ht
    obtain ⟨rfl,rfl⟩ := Prod.mk.inj (some.inj ht)
    have hzero : s.registerHandles (entry a)=0 := by
      by_contra hne
      exact hcell ⟨hne,hrom⟩
    refine ⟨fun hf => absurd hf (by decide),h.cell (h.not_covered (.inl hzero)) ?_ ?_⟩
    · intro c hc
      exact ⟨update_of_ne hc _ _,update_of_ne hc _ _⟩
    · simp [Roms.after]

omit [DecidableEq ι] in
theorem Inv.unregisterRom (h : Inv (s,g)) {a : Nat}
    (ht : s.unregisterRom a=some t) : Inv (t,g.after s true (.unregisterRom a)) := by
  unfold State.unregisterRom at ht
  obtain ⟨_,-,ht⟩ := bind_eq_some_iff.mp ht
  have hother (c : Nat) (hc : c≠entry a) :
      (g.after s true (.unregisterRom a)).rom c=g.rom c ∧
      (g.after s true (.unregisterRom a)).stripped c=g.stripped c :=
    ⟨update_of_ne hc _ _,rfl⟩
  have hgone : (if (g.after s true (.unregisterRom a)).rom (entry a) &&
      !(g.after s true (.unregisterRom a)).stripped (entry a) then handleRom else 0)=0 := by
    simp [Roms.after]
  by_cases hzero : s.registerHandles (entry a)=0
  · rw [if_pos hzero] at ht
    obtain rfl := some.inj ht
    have hcell := h.cell (h.not_covered (.inl hzero)) hother hgone.symm
    rw [← hzero,update_eq_self] at hcell
    exact hcell
  · rw [if_neg hzero] at ht
    by_cases hrom : s.registerHandles (entry a)=handleRom
    · rw [if_neg (not_not.mpr hrom)] at ht
      obtain rfl := some.inj ht
      exact h.cell (h.not_covered (.inr hrom)) hother hgone.symm
    · rw [if_pos hrom] at ht
      obtain rfl := some.inj ht
      refine ⟨h.device,h.owns,h.byHandle,fun c hn => ?_⟩
      have hne : c≠entry a := by
        rintro rfl
        have hv := h.uncovered _ hn
        change s.registerHandles (entry a)=_ at hv
        split_ifs at hv
        · exact hrom hv
        · exact hzero hv
      change s.registerHandles c=_
      rw [(hother c hne).1,(hother c hne).2]
      exact h.uncovered c hn

theorem Inv.step (h : Inv (s,g)) {op : Op ι} {accepted : Bool}
    (ht : s.step op=some (t,accepted)) : Inv (t,g.after s accepted op) := by
  cases op with
  | registerDevice d =>
    obtain ⟨h0,-,⟨rfl,rfl | ⟨n,rfl⟩⟩ | ⟨rfl,deviceHandle,first,u,hdh,hfree,hrun,hu,cpu,rfl⟩⟩ :=
      State.registerDevice_cases ht
    · exact h
    · exact h.setDevice rfl (fun hne => absurd h0 hne)
    · exact h.plugged h0 hdh hfree hrun hu cpu
  | unregisterDevice d =>
    obtain ⟨u,hu,heq⟩ := map_eq_some_iff.mp ht
    obtain ⟨rfl,rfl⟩ := Prod.mk.inj heq
    exact h.unplugged hu
  | registerRom a => exact (h.registerRom ht).2
  | unregisterRom a =>
    obtain ⟨u,hu,heq⟩ := map_eq_some_iff.mp ht
    obtain ⟨rfl,rfl⟩ := Prod.mk.inj heq
    exact h.unregisterRom hu
  | configure d dev =>
    obtain ⟨u,hu,heq⟩ := map_eq_some_iff.mp ht
    obtain ⟨rfl,rfl⟩ := Prod.mk.inj heq
    unfold State.configure at hu
    obtain ⟨_,h0,hu⟩ := bind_eq_some_iff.mp hu
    replace h0 := of_decide_eq_true (assert_holds h0)
    obtain rfl := some.inj hu
    exact h.setDevice h0.symm (fun hne => absurd h0 hne)
  | setBase d base =>
    obtain ⟨rfl,rfl⟩ := Prod.mk.inj (some.inj ht)
    exact h.setDevice rfl (fun _ => rfl)

theorem step_refused (h : Inv (s,g)) {op : Op ι} (ht : s.step op=some (t,false)) : t={ s with device := t.device } ∧
      ∀ d,(s.device d).handle≠0 ∨ op≠.registerDevice d → t.device d=s.device d := by
  cases op with
  | registerDevice d =>
    obtain ⟨h0,-,⟨-,rfl | ⟨n,rfl⟩⟩ | ⟨hf,-⟩⟩ := State.registerDevice_cases ht
    · exact ⟨rfl,fun _ _ => rfl⟩
    · refine ⟨rfl,fun d' hd' => update_of_ne ?_ _ _⟩
      rintro rfl
      exact hd'.elim (fun hne => hne h0) (fun hne => hne rfl)
    · cases hf
  | unregisterDevice d | unregisterRom a | configure d dev =>
    obtain ⟨u,-,heq⟩ := map_eq_some_iff.mp ht
    cases (Prod.mk.inj heq).2
  | registerRom a =>
    obtain rfl := (h.registerRom ht).1 rfl
    exact ⟨rfl,fun _ _ => rfl⟩
  | setBase d base => cases (Prod.mk.inj (some.inj ht)).2

end

/-- The map is what is installed, after any calls: every register owns a handle that maps back to it and is in its
cell, any other cell is ROM where ROM was installed that no device has covered and left, and empty elsewhere, and a
refusal changes none of it. -/
theorem map_is_installed {addrSpaceByteCount : Nat} {device : ι → Device} {ops : List (Op ι)}
    {s : State ι} {g : Roms} (h : ops.foldlM stepAccount (start addrSpaceByteCount device)=some (s,g)) :
    (∀ d k r,s.Installed d k r → 1 ≤ r.registerHandle ∧ r.registerHandle<handleRom ∧
      s.registerHandles r.entry=r.registerHandle ∧ s.registerByHandle r.registerHandle=some (d,k) ∧
      ∀ d' k' r',s.Installed d' k' r' → r'.registerHandle=r.registerHandle → d'=d ∧ k'=k) ∧
    (∀ h d k,s.registerByHandle h=some (d,k) → ∃ r,s.Installed d k r ∧ r.registerHandle=h) ∧
    (∀ c,¬s.Covered c → s.registerHandles c=if g.rom c && !g.stripped c then handleRom else 0) ∧
    ∀ op t,s.step op=some (t,false) → t={ s with device := t.device } ∧
      ∀ d,(s.device d).handle≠0 ∨ op≠.registerDevice d → t.device d=s.device d := by
  have hinv : Inv (s,g) := by
    refine (run_of_foldlM_eq h).invariant ?_ (Inv.start addrSpaceByteCount device)
    rintro ⟨s,g⟩ op y hs hy
    obtain ⟨⟨t,accepted⟩,ht,rfl⟩ := map_eq_some_iff.mp hy
    exact hs.step ht
  refine ⟨?_,hinv.byHandle,hinv.uncovered,fun op t => step_refused hinv⟩
  intro d k r hi
  obtain ⟨h1,h2,h3,h4⟩ := hinv.owns d k r hi
  refine ⟨h1,h2,h3,h4,?_⟩
  intro d' k' r' hi' heq
  have hb := (hinv.owns d' k' r' hi').2.2.2
  rw [heq] at hb
  exact Prod.mk.inj (some.inj (hb.symm.trans h4))

end

def trapDevice : Device where
  handle := 0
  baseAddr := 0o773024
  isCpu := false
  registers := [⟨true,false,0,0,0,0⟩,⟨true,false,0,0,0,0⟩]

/-- ROM with a device over one word of it, and the ROM gone again under the device. -/
theorem map_is_installed_overlay : ∃ s g, [Op.registerRom 0o773024,.registerRom 0o773030,.registerDevice (),
      .unregisterRom 0o773024].foldlM stepAccount (start 0o1000000 fun _ => trapDevice)=some (s,g) ∧
    ∀ c,¬s.Covered c → s.registerHandles c=if g.rom c && !g.stripped c then handleRom else 0 := by
  have hsome : ([Op.registerRom 0o773024,.registerRom 0o773030,.registerDevice (),
      .unregisterRom 0o773024].foldlM stepAccount
        (start 0o1000000 fun _ => trapDevice)).isSome=true := by
    decide +kernel
  obtain ⟨⟨s,g⟩,hs⟩ := isSome_iff_exists.mp hsome
  exact ⟨s,g,hs,(map_is_installed hs).2.2.1⟩

/-- A word of ROM that a device covered is empty when the device has left. -/
theorem rom_stripped : ¬∀ (device : Unit → Device) (ops : List (Op Unit)) (s : State Unit) (g : Roms),
    ops.foldlM stepAccount (start 0o1000000 device)=some (s,g) →
    ∀ c,¬s.Covered c → s.registerHandles c=if g.rom c then handleRom else 0 := by
  intro h
  have hrun : ([Op.registerRom 0o773024,.registerDevice (),.unregisterDevice ()].foldlM stepAccount
      (start 0o1000000 fun _ => trapDevice)).map (fun x => ((x.1.device ()).handle,
        x.1.registerHandles (entry 0o773024),x.2.rom (entry 0o773024)))=some (0,0,true) := by
    decide +kernel
  obtain ⟨⟨s,g⟩,hs,heq⟩ := map_eq_some_iff.mp hrun
  obtain ⟨hhandle,hcell,hrom⟩ : (s.device ()).handle=0 ∧ s.registerHandles (entry 0o773024)=0 ∧
      g.rom (entry 0o773024)=true := by simpa using heq
  have hfree : ¬s.Covered (entry 0o773024) := by
    rintro ⟨d,k,r,hi,-⟩
    exact hi.1 hhandle
  have hv := h _ _ s g hs _ hfree
  rw [hcell,hrom] at hv
  revert hv
  decide

end QUniLator.Adapter.IoPage
