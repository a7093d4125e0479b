import QUniLator.Mux.Listener

namespace QUniLator.Mux

open Function

def Io.hasClient : Io → Bool
  | .accepted | .taken | .serving | .dropping => true
  | .none | .top | .standDown | .closeIdle | .wanted | .registered | .selecting _ => false

def Io.isConnected : Io → Bool
  | .taken | .serving | .dropping => true
  | .none | .top | .standDown | .closeIdle | .wanted | .registered | .selecting _ | .accepted => false

def Io.inSelect : Io → Bool
  | .selecting _ => true
  | .none | .top | .standDown | .closeIdle | .wanted | .registered | .accepted | .taken | .serving
  | .dropping => false

/-- What its two threads keep of a line -/
structure MemberOk (m : Member) : Prop where
  listed : m.listed=(m.running || decide (m.ctl≠.idle))
  acquired : m.ctl=.acquired → m.io=.none ∧ m.reg=false
  running : m.running=true → m.ctl=.idle
  io : m.io≠.none → m.running=true ∨ m.ctl=.stopped
  reg : m.reg=true → m.listed=true ∧ m.ctl≠.unlisted
  client : m.client=m.io.hasClient
  connected : m.connected=m.io.isConnected
  reserved : m.reserved=true → m.running=true
  gated : m.gate=false → m.connected=true → m.shutting=false → m.drop=true

theorem MemberOk.listed_of_io {m : Member} (h : MemberOk m) (hio : m.io≠.none) : m.listed=true := by
  rw [h.listed]
  rcases h.io hio with hr | hs
  · simp [hr]
  · simp [hs]

section
variable {m : Member}

theorem MemberOk.acquire (h : MemberOk m) (hc : m.ctl=.idle) (hr : m.running=false) :
    m.io=.none ∧ MemberOk { m with listed := true,reg := false,ctl := .acquired } := by
  have hio : m.io=.none := by
    by_contra hn
    rcases h.io hn with h1 | h1
    · rw [hr] at h1
      cases h1
    · rw [hc] at h1
      cases h1
  refine ⟨hio,?_⟩
  constructor <;> simp_all [h.client,h.connected,Io.hasClient,Io.isConnected,MemberOk.reserved]

theorem MemberOk.start (h : MemberOk m) (hc : m.ctl=.acquired) (b : Bool) :
    MemberOk { m with running := true,io := .top,ctl := .idle,reserved := b } := by
  obtain ⟨hio,hreg⟩ := h.acquired hc
  have hl := h.listed
  constructor <;> simp_all [h.client,h.connected,Io.hasClient,Io.isConnected]

theorem MemberOk.giveUp (h : MemberOk m) (hc : m.ctl=.acquired) :
    MemberOk { m with listed := false,ctl := .idle } := by
  obtain ⟨hio,hreg⟩ := h.acquired hc
  have hr : m.running=false := by
    by_contra hn
    have := h.running (by simpa using hn)
    rw [hc] at this
    cases this
  constructor <;> simp_all [h.client,h.connected,Io.hasClient,Io.isConnected,MemberOk.reserved]

theorem MemberOk.moves (h : MemberOk m) (io : Io) {b : Bool} (hm : m.io≠.none)
    (hb : b → m.reserved) (hc : io.hasClient=m.io.hasClient)
    (hco : io.isConnected=m.io.isConnected) : MemberOk { m with io := io,reserved := b } := by
  have hne := h.io hm
  obtain ⟨h1,h2,h3,h4,h5,h6,h7,h8,h9⟩ := h
  constructor <;> simp_all

theorem MemberOk.accept (h : MemberOk m) (hm : m.io≠.none) (hco : m.io.isConnected=false) :
    MemberOk { m with io := .accepted,client := true } := by
  have hne := h.io hm
  obtain ⟨h1,h2,h3,h4,h5,h6,h7,h8,h9⟩ := h
  constructor <;> simp_all [Io.hasClient,Io.isConnected]

theorem MemberOk.connect (h : MemberOk m) (hio : m.io=.accepted)
    (hg : m.gate ∨ m.shutting) : MemberOk { m with io := .taken,connected := true } := by
  have hne := h.io (by simp [hio])
  obtain ⟨h1,h2,h3,h4,h5,h6,h7,h8,h9⟩ := h
  constructor <;> simp_all [Io.hasClient,Io.isConnected]
  rcases hg with hg | hg <;> simp [hg]

theorem MemberOk.dropClient (h : MemberOk m) (hio : m.io=.dropping) :
    MemberOk { Port.closeClient m with io := .top } := by
  have hne := h.io (by simp [hio])
  obtain ⟨h1,h2,h3,h4,h5,h6,h7,h8,h9⟩ := h
  constructor <;> simp_all [Io.hasClient,Io.isConnected,Port.closeClient]

theorem MemberOk.stop (h : MemberOk m) (hr : m.running) :
    MemberOk { m with running := false,reserved := false,ctl := .stopped } := by
  obtain ⟨h1,h2,h3,h4,h5,h6,h7,h8,h9⟩ := h
  constructor <;> simp_all

theorem MemberOk.join (h : MemberOk m) (hr : m.ctl=.stopped) (hio : m.io=.none) :
    MemberOk { Port.closeClient m with ctl := .joined } := by
  obtain ⟨h1,h2,h3,h4,h5,h6,h7,h8,h9⟩ := h
  constructor <;> simp_all [Io.hasClient,Io.isConnected,Port.closeClient]

theorem MemberOk.unlist (h : MemberOk m) (hr : m.ctl=.joined) :
    MemberOk { m with reg := false,ctl := .unlisted } := by
  obtain ⟨h1,h2,h3,h4,h5,h6,h7,h8,h9⟩ := h
  constructor <;> simp_all

theorem MemberOk.release (h : MemberOk m) (hr : m.ctl=.unlisted) :
    MemberOk { m with listed := false,ctl := .idle } := by
  obtain ⟨h1,h2,h3,h4,h5,h6,h7,h8,h9⟩ := h
  constructor <;> simp_all

theorem MemberOk.gate (h : MemberOk m) (b : Bool) : MemberOk { m with gate := b,shutting := !b } := by
  obtain ⟨h1,h2,h3,h4,h5,h6,h7,h8,h9⟩ := h
  constructor <;> simp_all

theorem MemberOk.drops (h : MemberOk m) (b : Bool) :
    MemberOk { m with drop := m.drop || m.connected,shutting := b } := by
  obtain ⟨h1,h2,h3,h4,h5,h6,h7,h8,h9⟩ := h
  constructor <;> simp_all

theorem MemberOk.register (h : MemberOk m) (hio : m.io≠.none) (hc : m.ctl≠.unlisted) (b : Bool) :
    MemberOk { m with reg := b } := by
  have hl := h.listed_of_io hio
  have hne := h.io hio
  obtain ⟨h1,h2,h3,h4,h5,h6,h7,h8,h9⟩ := h
  constructor <;> simp_all

theorem MemberOk.unregister (h : MemberOk m) : MemberOk { m with reg := false } := by
  obtain ⟨h1,h2,h3,h4,h5,h6,h7,h8,h9⟩ := h
  constructor <;> simp_all

theorem ctl_of_io (h : MemberOk m) (hio : m.io≠.none) : m.ctl≠.unlisted := by
  intro hc
  rcases h.io hio with hr | hr
  · rw [h.running hr] at hc
    cases hc
  · rw [hr] at hc
    cases hc

theorem MemberOk.io_none (h : MemberOk m) (hi : m.ctl≠.idle) (hs : m.ctl≠.stopped) : m.io=.none := by
  by_contra hn
  rcases h.io hn with hr | hr
  · exact hi (h.running hr)
  · exact hs hr

end

namespace Port

variable {ι : Type} [DecidableEq ι] [Fintype ι]

structure Inv (p : Port ι) : Prop where
  ok : ∀ i,MemberOk (p.line i)
  members : p.members=tally Member.listed p.line
  available : p.available=tally Member.reg p.line
  waiting : p.waiting=tally (fun m => m.io.inSelect) p.line
  selecting : ∀ i fd,(p.line i).io=.selecting fd → p.fd=some fd
  reserved : ∀ i,(p.line i).reserved=true → p.fd.isSome=true

variable {p : Port ι} {f : Member → Member} {i : ι}

theorem Inv.change {p q : Port ι} (h : p.Inv) {m : Member} (hline : q.line=update p.line i m) (hok : MemberOk m)
    (hm : q.members+(p.line i).listed.toNat=p.members+m.listed.toNat)
    (ha : q.available+(p.line i).reg.toNat=p.available+m.reg.toNat)
    (hw : q.waiting+(p.line i).io.inSelect.toNat=p.waiting+m.io.inSelect.toNat)
    (hsel : ∀ j fd,(q.line j).io=.selecting fd → q.fd=some fd)
    (hres : ∀ j,(q.line j).reserved → q.fd.isSome) : q.Inv := by
  have hm' := tally_update Member.listed p.line i m
  have ha' := tally_update Member.reg p.line i m
  have hw' := tally_update (fun m => m.io.inSelect) p.line i m
  have hmem := h.members
  have hav := h.available
  have hwt := h.waiting
  refine ⟨fun j => ?_,?_,?_,?_,hsel,hres⟩
  · rw [hline]
    by_cases hj : j=i
    · subst hj
      simpa using hok
    · rw [update_of_ne hj]
      exact h.ok j
  all_goals
    rw [hline]
    omega

omit [Fintype ι] in
theorem forall_update {P : Member → Prop} {f : ι → Member} {m : Member} (hi : P m)
    (ho : ∀ j,j≠i → P (f j)) (j : ι) : P (update f i m j) := by
  by_cases hj : j=i
  · subst hj
    simpa using hi
  · rw [update_of_ne hj]
    exact ho j hj

theorem Inv.goOn (h : p.Inv) (hok : MemberOk (f (p.line i)))
    (hl : (f (p.line i)).listed=(p.line i).listed) (hr : (f (p.line i)).reg=(p.line i).reg)
    (hs : (f (p.line i)).io.inSelect=(p.line i).io.inSelect)
    (hsel : ∀ fd,(f (p.line i)).io=.selecting fd → p.fd=some fd)
    (hres : (f (p.line i)).reserved → p.fd.isSome) : (p.goOn i f).Inv := by
  refine h.change rfl hok (by rw [hl]; rfl) (by rw [hr]; rfl) (by rw [hs]; rfl) (fun j fd => ?_)
    fun j => ?_
  · exact forall_update (P := fun m => m.io=.selecting fd → p.fd=some fd) (hsel fd)
      (fun j _ => h.selecting j fd) j
  · exact forall_update (P := fun m => m.reserved=true → p.fd.isSome=true) hres
      (fun j _ => h.reserved j) j

omit [DecidableEq ι] in
theorem not_selecting (h : p.Inv) (hw : p.waiting=0) (i : ι) (fd : Nat) : (p.line i).io≠.selecting fd := by
  intro hi
  have := tally_zero (by rw [← h.waiting]; exact hw) i
  rw [hi] at this
  cases this

omit [DecidableEq ι] in
theorem Inv.closeIdle (h : p.Inv)
    (hres : p.available=0 → p.waiting=0 → ∀ i,(p.line i).reserved=false) : p.closeIdle.Inv := by
  unfold Port.closeIdle
  split_ifs with hc
  · obtain ⟨ha,hw⟩ := hc
    exact ⟨h.ok,h.members,h.available,h.waiting,fun i fd hi => absurd hi (not_selecting h hw i fd),
      fun i hi => by rw [hres ha hw i] at hi; cases hi⟩
  · exact h

omit [DecidableEq ι] [Fintype ι] in
theorem closeIdle_line (p : Port ι) : p.closeIdle.line=p.line := by
  unfold Port.closeIdle
  split_ifs <;> rfl

theorem Inv.setListenerAvailable (h : p.Inv) {available : Bool} (hok : MemberOk { p.line i with reg := available })
    (hres : available=false → (p.line i).reg → p.available≤1 → p.waiting=0 →
      ∀ j,(p.line j).reserved=false) : (p.setListenerAvailable i available).Inv := by
  unfold Port.setListenerAvailable
  dsimp only
  split_ifs with hc
  · exact h
  · simp only [Bool.or_eq_true,Bool.not_eq_true',decide_eq_true_eq,not_or] at hc
    obtain ⟨-,hne⟩ := hc
    have hpos : (p.line i).reg=true → 0<p.available := fun hr => by
      rw [h.available]
      exact tally_pos hr
    refine Inv.closeIdle (p := { p.set i { p.line i with reg := available } with
        available := if available then p.available+1 else p.available-1 })
      (h.change rfl hok rfl ?_ rfl (fun j fd => ?_) fun j => ?_) fun h0 hw0 => ?_
    · show (if available=true then p.available+1 else p.available-1)+(p.line i).reg.toNat =
        p.available+available.toNat
      cases available with
      | false =>
        have hr : (p.line i).reg=true := by simpa using hne
        have := hpos hr
        rw [hr]
        simp only [Bool.false_eq_true,if_false,Bool.toNat_true,Bool.toNat_false]
        omega
      | true =>
        have hr : (p.line i).reg=false := by simpa using hne
        rw [hr]
        rfl
    · exact forall_update (i := i) (m := { p.line i with reg := available })
        (P := fun m => m.io=.selecting fd → p.fd=some fd) (h.selecting i fd)
        (fun j _ => h.selecting j fd) j
    · exact forall_update (i := i) (m := { p.line i with reg := available })
        (P := fun m => m.reserved=true → p.fd.isSome=true) (h.reserved i)
        (fun j _ => h.reserved j) j
    · cases available with
      | true =>
        have : p.available+1=0 := h0
        omega
      | false =>
        have h1 : p.available-1=0 := h0
        have hnone := hres rfl (by simpa using hne) (by omega) hw0
        exact forall_update (i := i) (m := { p.line i with reg := false })
          (P := fun m => m.reserved=false) (hnone i) fun j _ => hnone j

omit [DecidableEq ι] in
theorem Inv.ensureOpen {p q : Port ι} (h : p.Inv) {ok : Bool} (hq : p.ensureOpen ok=some q) :
    q.Inv ∧ (∃ fd,q.fd=some fd) ∧ q.line=p.line ∧ q.waiting=p.waiting := by
  unfold Port.ensureOpen at hq
  split_ifs at hq with hfd hok
  · cases hq
    exact ⟨h,Option.isSome_iff_exists.mp hfd,rfl,rfl⟩
  · cases hq
    refine ⟨⟨h.ok,h.members,h.available,h.waiting,fun i fd hi => ?_,fun _ _ => rfl⟩,⟨_,rfl⟩,rfl,rfl⟩
    rw [h.selecting i fd hi] at hfd
    exact absurd rfl hfd

theorem Inv.release (h : p.Inv) (hok : MemberOk (f (p.line i))) (hl : (p.line i).listed)
    (hl' : (f (p.line i)).listed=false) (hr : (p.line i).reg=false) (hio : (p.line i).io=.none)
    (hio' : (f (p.line i)).io=.none) (hres : (f (p.line i)).reserved=false) : (p.goOn i f).release.Inv := by
  have hm := tally_update Member.listed p.line i (f (p.line i))
  have hr' : (f (p.line i)).reg=false := by
    cases hf : (f (p.line i)).reg with
    | false => rfl
    | true => rw [(hok.reg hf).1] at hl'; cases hl'
  rw [hl,hl',Bool.toNat_true,Bool.toNat_false] at hm
  have hmem := h.members
  have hoks : ∀ j,MemberOk (update p.line i (f (p.line i)) j) :=
    forall_update hok fun j _ => h.ok j
  unfold Port.release
  dsimp only
  split_ifs with hz
  · -- nobody holds the listener, so no line is registered, in `select`, or has a reservation
    have hz' : p.members-1=0 := hz
    have hnl := tally_zero (g := Member.listed) (f := update p.line i (f (p.line i)))
      (by omega)
    have hnr : ∀ j,(update p.line i (f (p.line i)) j).reg=false := fun j => by
      cases hg : (update p.line i (f (p.line i)) j).reg with
      | false => rfl
      | true => exact absurd (((hoks j).reg hg).1) (by rw [hnl j]; simp)
    have hni : ∀ j,(update p.line i (f (p.line i)) j).io=.none := fun j => by
      by_contra hn
      exact absurd ((hoks j).listed_of_io hn) (by rw [hnl j]; simp)
    refine ⟨hoks,(tally_none hnl).symm,(tally_none hnr).symm,(tally_none fun j => ?_).symm,
      fun j fd hj => ?_,fun j hj => ?_⟩
    · show (update p.line i (f (p.line i)) j).io.inSelect=false
      rw [hni j]
      rfl
    · have hj' : (update p.line i (f (p.line i)) j).io=.selecting fd := hj
      rw [hni j] at hj'
      cases hj'
    · have hrun := (hoks j).reserved hj
      have hlj := (hoks j).listed
      rw [hrun,hnl j] at hlj
      cases hlj
  · refine h.change rfl hok ?_ ?_ ?_ (fun j fd => ?_) fun j => ?_
    · show p.members-1+(p.line i).listed.toNat=p.members+(f (p.line i)).listed.toNat
      have hz' : ¬p.members-1=0 := hz
      rw [hl,hl',Bool.toNat_true,Bool.toNat_false]
      omega
    · rw [hr,hr']
      rfl
    · rw [hio,hio']
      rfl
    · exact forall_update (i := i) (m := f (p.line i))
        (P := fun m => m.io=.selecting fd → p.fd=some fd)
        (fun hs => by rw [hio'] at hs; cases hs) (fun j _ => h.selecting j fd) j
    · exact forall_update (i := i) (m := f (p.line i))
        (P := fun m => m.reserved=true → p.fd.isSome=true)
        (fun hs => by rw [hres] at hs; cases hs) (fun j _ => h.reserved j) j

def Lasts (p : Port ι) : PortEvent ι → Prop
  | .standDown i | .unregister i | .unlist i =>
    (p.line i).reg=true ∧ p.available≤1 ∧ p.waiting=0
  | .closeIdle _ => p.available=0 ∧ p.waiting=0
  | .accept _ _ => p.available=0 ∧ p.waiting≤1
  | _ => False

/-- A caller is taken on with the gate open, or while it closes; and nobody closes the socket that a line
has reserved. -/
def Careful (p : Port ι) : PortEvent ι → Prop
  | .connect i => (p.line i).gate=true ∨ (p.line i).shutting=true
  | e => p.Lasts e → ∀ i,(p.line i).reserved=false

omit [Fintype ι] in
theorem setListenerAvailable_line (hl : (p.line i).listed) (available : Bool) :
    (p.setListenerAvailable i available).line i={ p.line i with reg := available } := by
  unfold Port.setListenerAvailable
  dsimp only
  split_ifs with hc
  · rw [hl] at hc
    have hr : (p.line i).reg=available := by simpa using hc
    rw [← hr]
  · unfold setAvailable
    rw [closeIdle_line]
    exact update_self i _ p.line

theorem Inv.registers (h : p.Inv) (available : Bool) {b : Bool} (io : Io)
    (hio : (p.line i).io≠.none) (hctl : (p.line i).ctl≠.unlisted)
    (hb : b → (p.line i).reserved) (hc : io.hasClient=(p.line i).io.hasClient)
    (hco : io.isConnected=(p.line i).io.isConnected) (hsel : io.inSelect=false) (hsel' : (p.line i).io.inSelect=false)
    (hres : available=false → (p.line i).reg → p.available≤1 → p.waiting=0 → ∀ j,(p.line j).reserved=false) :
    ((p.setListenerAvailable i available).goOn i fun m => { m with io := io,reserved := b }).Inv := by
  have hok := (h.ok i).register hio hctl available
  have hinv := h.setListenerAvailable hok hres
  have hline := setListenerAvailable_line ((h.ok i).listed_of_io hio) available
  refine hinv.goOn ?_ rfl rfl ?_ (fun fd hf => ?_) fun hr => ?_
  · rw [hline]
    exact hok.moves io hio hb hc hco
  · rw [hline]
    show io.inSelect=(p.line i).io.inSelect
    rw [hsel,hsel']
  · have hf' : io=.selecting fd := hf
    rw [hf'] at hsel
    cases hsel
  · refine hinv.reserved i ?_
    rw [hline]
    exact hb hr

theorem Inv.moves (h : p.Inv) {io : Io} {b : Bool} (hio : (p.line i).io≠.none)
    (hb : b → (p.line i).reserved) (hc : io.hasClient=(p.line i).io.hasClient)
    (hco : io.isConnected=(p.line i).io.isConnected) (hsel : io.inSelect=false)
    (hsel' : (p.line i).io.inSelect=false) : (p.goOn i fun m => { m with io := io,reserved := b }).Inv := by
  refine h.goOn ((h.ok i).moves io hio hb hc hco) rfl rfl (by rw [hsel']; exact hsel) (fun fd hf => ?_)
    fun hr => h.reserved i (hb hr)
  have hf' : io=.selecting fd := hf
  rw [hf'] at hsel
  cases hsel

theorem Inv.acquires (h : p.Inv) (hc : (p.line i).ctl=.idle) (hr : (p.line i).running=false) :
    Inv { p.goOn i fun m => { m with listed := true,reg := false,ctl := .acquired } with
      members := p.members+1 } := by
  obtain ⟨hio,hok⟩ := (h.ok i).acquire hc hr
  have hl : (p.line i).listed=false := by
    rw [(h.ok i).listed,hr,hc]
    rfl
  have hreg : (p.line i).reg=false := by
    cases hg : (p.line i).reg with
    | false => rfl
    | true => rw [((h.ok i).reg hg).1] at hl; cases hl
  refine h.change rfl hok ?_ ?_ rfl (fun j fd => ?_) fun j => ?_
  · rw [hl]
    rfl
  · rw [hreg]
    rfl
  · exact forall_update (i := i) (m := { p.line i with listed := true,reg := false,ctl := .acquired })
      (P := fun m => m.io=.selecting fd → p.fd=some fd) (h.selecting i fd)
      (fun j _ => h.selecting j fd) j
  · exact forall_update (i := i) (m := { p.line i with listed := true,reg := false,ctl := .acquired })
      (P := fun m => m.reserved=true → p.fd.isSome=true) (h.reserved i)
      (fun j _ => h.reserved j) j

theorem Inv.selects (h : p.Inv) {fd : Nat} (hio : (p.line i).io=.registered) (hfd : p.fd=some fd) :
    Inv { p.goOn i fun m => { m with io := .selecting fd,reserved := false } with
      waiting := p.waiting+1 } := by
  have hok := (h.ok i).moves (.selecting fd) (b := false) (by rw [hio]; simp) (by simp)
    (by rw [hio]; rfl) (by rw [hio]; rfl)
  refine h.change rfl hok rfl rfl (by rw [hio]; rfl) (fun j fd' => ?_) fun j => ?_
  · refine forall_update (i := i) (m := { p.line i with io := .selecting fd,reserved := false })
      (P := fun m => m.io=.selecting fd' → p.fd=some fd') (fun hs => ?_)
      (fun j _ => h.selecting j fd') j
    cases hs
    exact hfd
  · exact forall_update (i := i) (m := { p.line i with io := .selecting fd,reserved := false })
      (P := fun m => m.reserved=true → p.fd.isSome=true) (fun hs => by cases hs)
      (fun j _ => h.reserved j) j

theorem Inv.accepts (h : p.Inv) {fd : Nat} (hio : (p.line i).io=.selecting fd) (hok : MemberOk (f (p.line i)))
    (hl : (f (p.line i)).listed=(p.line i).listed) (hr : (f (p.line i)).reg=(p.line i).reg)
    (hs : (f (p.line i)).io.inSelect=false) (hr' : (f (p.line i)).reserved=(p.line i).reserved)
    (hres : p.available=0 → p.waiting≤1 → ∀ j,(p.line j).reserved=false) :
    (Port.closeIdle { p.goOn i f with waiting := p.waiting-1 }).Inv := by
  have hpos : 0<p.waiting := by
    rw [h.waiting]
    exact tally_pos (g := fun m => m.io.inSelect) (f := p.line) (i := i) (by rw [hio]; rfl)
  refine Inv.closeIdle (h.change rfl hok (by rw [hl]; rfl) (by rw [hr]; rfl) ?_ (fun j fd' => ?_)
    fun j => ?_) fun ha hw => ?_
  · show p.waiting-1+(p.line i).io.inSelect.toNat=p.waiting+(f (p.line i)).io.inSelect.toNat
    rw [hs,hio]
    show p.waiting-1+1=p.waiting+0
    omega
  · refine forall_update (i := i) (m := f (p.line i))
      (P := fun m => m.io=.selecting fd' → p.fd=some fd') (fun hf => ?_)
      (fun j _ => h.selecting j fd') j
    rw [hf] at hs
    cases hs
  · exact forall_update (i := i) (m := f (p.line i))
      (P := fun m => m.reserved=true → p.fd.isSome=true) (fun hf => h.reserved i (hr' ▸ hf))
      (fun j _ => h.reserved j) j
  · have hw' : p.waiting-1=0 := hw
    have hnone := hres ha (by omega)
    exact forall_update (i := i) (m := f (p.line i)) (P := fun m => m.reserved=false)
      (by rw [hr']; exact hnone i) (fun j _ => hnone j)

theorem Inv.step {p q : Port ι} {e : PortEvent ι} (h : p.Inv) (hc : p.Careful e) (hs : p.step e=some q) : q.Inv := by
  cases e <;> simp only [Port.step] at hs
  case acquire i =>
    split_ifs at hs with hg
    cases hs
    exact h.acquires hg.1 (by simpa using hg.2)
  case reserve i ok =>
    split_ifs at hs with hg hgate
    · cases ho : p.ensureOpen ok with
      | none =>
        rw [ho] at hs
        cases hs
        have hok := h.ok i
        have hio := (hok.acquired hg).1
        have hrun := (hok.giveUp hg).listed
        refine h.release (hok.giveUp hg) ?_ rfl (hok.acquired hg).2 hio hio ?_
        · rw [hok.listed,hg]
          simp
        · cases hr : (p.line i).reserved with
          | false => rfl
          | true =>
            have hi := hok.running (hok.reserved hr)
            rw [hg] at hi
            cases hi
      | some r =>
        rw [ho] at hs
        cases hs
        obtain ⟨hr,⟨fd,hfd⟩,hline,-⟩ := h.ensureOpen ho
        have hio := ((h.ok i).acquired hg).1
        refine hr.goOn ?_ rfl rfl ?_ (fun fd' hf => by cases hf) fun _ => by rw [hfd]; rfl
        · rw [hline]
          exact (h.ok i).start hg true
        · rw [hline,hio]
          rfl
    · cases hs
      have hio := ((h.ok i).acquired hg).1
      exact h.goOn ((h.ok i).start hg (p.line i).reserved) rfl rfl (by rw [hio]; rfl)
        (fun fd hf => by cases hf) (h.reserved i)
  case loop i =>
    split_ifs at hs with hio
    cases hs
    have hno : ∀ b c : Bool,(if b then Io.none else if c then .wanted else .standDown).hasClient=false ∧
        (if b then Io.none else if c then .wanted else .standDown).isConnected=false ∧
        (if b then Io.none else if c then .wanted else .standDown).inSelect=false := by decide
    obtain ⟨hc1,hc2,hc3⟩ := hno (!(p.line i).running) (wantListen (p.line i))
    exact h.moves (b := (p.line i).reserved) (by rw [hio]; simp) id (by rw [hc1,hio]; rfl)
      (by rw [hc2,hio]; rfl) hc3 (by rw [hio]; rfl)
  case standDown i =>
    split_ifs at hs with hio
    cases hs
    have hn : (p.line i).io≠.none := by rw [hio]; simp
    exact h.registers false .closeIdle hn (ctl_of_io (h.ok i) hn) (by simp) (by rw [hio]; rfl) (by rw [hio]; rfl) rfl
      (by rw [hio]; rfl) fun _ hr ha hw => hc ⟨hr,ha,hw⟩
  case closeIdle i =>
    split_ifs at hs with hio
    cases hs
    have hinv := h.closeIdle fun ha hw => hc ⟨ha,hw⟩
    have hline := closeIdle_line p
    have hio' : (p.closeIdle.line i).io=.closeIdle := by rw [hline]; exact hio
    exact hinv.moves (b := (p.closeIdle.line i).reserved) (by rw [hio']; simp) id
      (by rw [hio']; rfl) (by rw [hio']; rfl) rfl (by rw [hio']; rfl)
  case register i =>
    split_ifs at hs with hio
    cases hs
    have hn : (p.line i).io≠.none := by rw [hio]; simp
    have hr := h.registers true (b := (p.line i).reserved) .registered hn
      (ctl_of_io (h.ok i) hn) id (by rw [hio]; rfl) (by rw [hio]; rfl) rfl (by rw [hio]; rfl)
      fun hf => by cases hf
    have hline := setListenerAvailable_line ((h.ok i).listed_of_io hn) true
    unfold Port.goOn at hr ⊢
    rw [hline] at hr ⊢
    exact hr
  case select i ok =>
    split_ifs at hs with hio
    cases ho : p.ensureOpen ok with
    | none =>
      rw [ho] at hs
      cases hs
      exact h.moves (b := false) (by rw [hio]; simp) (by simp) (by rw [hio]; rfl) (by rw [hio]; rfl) rfl
        (by rw [hio]; rfl)
    | some r =>
      rw [ho] at hs
      cases hs
      obtain ⟨hr,⟨fd,hfd⟩,hline,-⟩ := h.ensureOpen ho
      have := hr.selects (i := i) (by rw [hline]; exact hio) hfd
      rw [hfd]
      exact this
  case accept i got =>
    cases hio : (p.line i).io with
    | selecting fd =>
      rw [hio] at hs
      dsimp only at hs
      cases hs
      have hn : (p.line i).io≠.none := by rw [hio]; simp
      have hco : (p.line i).io.isConnected=false := by rw [hio]; rfl
      have hno : ∀ ha : p.available=0,p.waiting≤1 → ∀ j,(p.line j).reserved=false :=
        fun ha hw => hc ⟨ha,hw⟩
      by_cases hg : (got && decide (p.fd=some fd))=true
      · simp only [hg,if_true]
        exact h.accepts hio ((h.ok i).accept hn hco) rfl rfl rfl rfl hno
      · simp only [hg]
        exact h.accepts hio ((h.ok i).moves .top (b := (p.line i).reserved) hn id (by rw [hio]; rfl)
          (by rw [hio]; rfl)) rfl rfl rfl rfl hno
    | _ =>
      rw [hio] at hs
      cases hs
  case connect i =>
    split_ifs at hs with hio
    cases hs
    exact h.goOn ((h.ok i).connect hio hc) rfl rfl (by rw [hio]; rfl) (fun fd hf => by cases hf)
      (h.reserved i)
  case unregister i =>
    split_ifs at hs with hio
    cases hs
    have hn : (p.line i).io≠.none := by rw [hio]; simp
    have hr := h.registers false (b := (p.line i).reserved) .serving hn
      (ctl_of_io (h.ok i) hn) id (by rw [hio]; rfl) (by rw [hio]; rfl) rfl (by rw [hio]; rfl)
      fun _ hr ha hw => hc ⟨hr,ha,hw⟩
    have hline := setListenerAvailable_line ((h.ok i).listed_of_io hn) false
    unfold Port.goOn at hr ⊢
    rw [hline] at hr ⊢
    exact hr
  case served i =>
    split_ifs at hs with hio
    cases hs
    exact h.moves (b := (p.line i).reserved) (by rw [hio]; simp) id (by rw [hio]; rfl) (by rw [hio]; rfl)
      rfl (by rw [hio]; rfl)
  case dropClient i =>
    split_ifs at hs with hio
    cases hs
    exact h.goOn ((h.ok i).dropClient hio) rfl rfl (by rw [hio]; rfl) (fun fd hf => by cases hf)
      (h.reserved i)
  case stop i =>
    split_ifs at hs with hg
    cases hs
    exact h.goOn ((h.ok i).stop hg.2) rfl rfl rfl (h.selecting i) fun hr => by cases hr
  case join i =>
    split_ifs at hs with hg
    cases hs
    exact h.goOn ((h.ok i).join hg.1 hg.2) rfl rfl rfl (h.selecting i) (h.reserved i)
  case unlist i =>
    split_ifs at hs with hctl
    cases hs
    have hok := h.ok i
    have hl : (p.line i).listed=true := by
      rw [hok.listed,hctl]
      simp
    have hio := hok.io_none (by rw [hctl]; simp) (by rw [hctl]; simp)
    have hreg : MemberOk { p.line i with reg := false } := hok.unregister
    have hinv := h.setListenerAvailable hreg fun _ hr ha hw => hc ⟨hr,ha,hw⟩
    have hline := setListenerAvailable_line hl false
    refine hinv.goOn ?_ rfl rfl rfl (hinv.selecting i) (hinv.reserved i)
    rw [hline]
    exact hok.unlist hctl
  case release i =>
    split_ifs at hs with hctl
    cases hs
    have hok := h.ok i
    have hio := hok.io_none (by rw [hctl]; simp) (by rw [hctl]; simp)
    refine h.release (hok.release hctl) ?_ rfl ?_ hio hio ?_
    · rw [hok.listed,hctl]
      simp
    · cases hr : (p.line i).reg with
      | false => rfl
      | true => exact absurd hctl (hok.reg hr).2
    · cases hr : (p.line i).reserved with
      | false => rfl
      | true =>
        have hi := hok.running (hok.reserved hr)
        rw [hctl] at hi
        cases hi
  case gate i b =>
    split_ifs at hs with hsh heq
    · cases hs
      exact h
    · cases hs
      exact h.goOn ((h.ok i).gate b) rfl rfl rfl (h.selecting i) (h.reserved i)
  case shut i =>
    split_ifs at hs with hsh
    cases hs
    exact h.goOn ((h.ok i).drops false) rfl rfl rfl (h.selecting i) (h.reserved i)
  case disconnect i =>
    cases hs
    exact h.goOn ((h.ok i).drops (p.line i).shutting) rfl rfl rfl (h.selecting i) (h.reserved i)

omit [DecidableEq ι] in
theorem Inv.start (gate : ι → Bool) : (start gate).Inv := by
  refine ⟨fun i => ?_,(tally_none fun _ => rfl).symm,(tally_none fun _ => rfl).symm,
    (tally_none fun _ => rfl).symm,fun i fd hi => ?_,fun i hi => ?_⟩
  rotate_left
  · cases hi
  · cases hi
  constructor <;> simp [Port.start,Io.hasClient,Io.isConnected]

/-- What the lines of a port can rely on: `available` counts the registered ones; in `select` the socket is one a
thread waits on and its line has no caller; a caller at a shut gate was asked to go; a reserved port is there when its
line's thread asks for it. -/
def Sound (p : Port ι) : Prop :=
  p.available=tally Member.reg p.line ∧
  (∀ i fd,(p.line i).io=.selecting fd →
    p.fd=some fd ∧ (p.line i).client=false ∧ (p.line i).connected=false) ∧
  (∀ i,(p.line i).gate=false → (p.line i).connected=true → (p.line i).shutting=false →
    (p.line i).drop=true) ∧
  ∀ i,(p.line i).reserved=true → ∀ ok,p.ensureOpen ok=some p

omit [DecidableEq ι] in
theorem Inv.sound (h : p.Inv) : p.Sound := by
  refine ⟨h.available,fun i fd hi => ⟨h.selecting i fd hi,?_,?_⟩,fun i => (h.ok i).gated,fun i hi ok => ?_⟩
  · rw [(h.ok i).client,hi]
    rfl
  · rw [(h.ok i).connected,hi]
    rfl
  · unfold Port.ensureOpen
    rw [if_pos (h.reserved i hi)]

/-- In any run over any number of lines whose steps are careful, the port keeps its word. -/
theorem listener_sound (gate : ι → Bool) {es : List (PortEvent ι)} {p : Port ι}
    (h : Run (Guarded Careful step) (start gate) es p) : p.Sound :=
  (h.invariant (P := Inv) (fun _ _ _ hi hs => hi.step hs.1 hs.2) (Inv.start gate)).sound

instance (p : Port ι) (e : PortEvent ι) : Decidable (p.Lasts e) := by
  cases e with
  | standDown i | unregister i | unlist i =>
    exact inferInstanceAs (Decidable ((p.line i).reg=true ∧ p.available≤1 ∧ p.waiting=0))
  | closeIdle i => exact inferInstanceAs (Decidable (p.available=0 ∧ p.waiting=0))
  | accept i got => exact inferInstanceAs (Decidable (p.available=0 ∧ p.waiting≤1))
  | acquire | reserve | loop | register | select | connect | served | dropClient | stop | join | release
  | gate | shut | disconnect => exact inferInstanceAs (Decidable False)

instance (p : Port ι) (e : PortEvent ι) : Decidable (p.Careful e) := by
  cases e with
  | connect i =>
    exact inferInstanceAs (Decidable ((p.line i).gate=true ∨ (p.line i).shutting=true))
  | standDown i => exact inferInstanceAs (Decidable (p.Lasts (.standDown i) → ∀ j,_))
  | unregister i => exact inferInstanceAs (Decidable (p.Lasts (.unregister i) → ∀ j,_))
  | unlist i => exact inferInstanceAs (Decidable (p.Lasts (.unlist i) → ∀ j,_))
  | closeIdle i => exact inferInstanceAs (Decidable (p.Lasts (.closeIdle i) → ∀ j,_))
  | accept i got => exact inferInstanceAs (Decidable (p.Lasts (.accept i got) → ∀ j,_))
  | acquire | reserve | loop | register | select | served | dropClient | stop | join | release | gate
  | shut | disconnect => exact inferInstanceAs (Decidable (False → ∀ j,_))

/-- Two lines on a port: a caller on the first, which closes while the second one is free -/
def twoLines : List (PortEvent (Fin 2)) :=
  [.acquire 0,.reserve 0 true,.acquire 1,.reserve 1 true,.loop 0,.register 0,.select 0 true,
    .loop 1,.register 1,.select 1 true,.accept 0 true,.connect 0,.unregister 0,.gate 0 false,.shut 0]

theorem listener_sound_two : ∃ p,Run (Guarded Careful step) (start fun _ => true) twoLines p ∧
    p.Sound ∧ p.available=1 ∧ p.fd=some 0 ∧ (p.line 0).drop=true := by
  obtain ⟨p,h,hp⟩ := run_of_foldlM Careful step
    (fun p => p.available=1 ∧ p.fd=some 0 ∧ (p.line 0).drop=true) twoLines
    (start fun _ => true) (by decide +kernel)
  exact ⟨p,h,listener_sound _ h,by simpa using hp⟩

/-- A gate that shuts between `accept` and the mark of the line as connected asks nobody to go; and a line
that stands down closes the socket that another line has reserved. -/
theorem listener_astray : (∃ p,Run (Guarded (fun _ _ => True) step) (start fun _ : Fin 2 => true)
      [.acquire 0,.reserve 0 true,.loop 0,.register 0,.select 0 true,.accept 0 true,.gate 0 false,
        .shut 0,.connect 0] p ∧ (p.line 0).gate=false ∧ (p.line 0).connected ∧
      (p.line 0).shutting=false ∧ (p.line 0).drop=false ∧ ¬p.Sound) ∧
    (∃ p,Run (Guarded (fun _ _ => True) step) (start fun _ : Fin 2 => true)
      [.acquire 0,.reserve 0 true,.acquire 1,.reserve 1 true,.gate 0 false,.shut 0,.loop 0,
        .standDown 0,.closeIdle 0] p ∧ (p.line 1).reserved ∧ p.fd=.none ∧ ¬p.Sound) := by
  obtain ⟨p,h,hp⟩ := run_of_foldlM (fun _ _ => True) step
    (fun p : Port (Fin 2) => (p.line 0).gate=false ∧ (p.line 0).connected=true ∧
      (p.line 0).shutting=false ∧ (p.line 0).drop=false)
    [.acquire 0,.reserve 0 true,.loop 0,.register 0,.select 0 true,.accept 0 true,.gate 0 false,.shut 0,
      .connect 0] (start fun _ => true) (by decide +kernel)
  obtain ⟨q,k,hq⟩ := run_of_foldlM (fun _ _ => True) step
    (fun p : Port (Fin 2) => (p.line 1).reserved=true ∧ p.fd=.none)
    [.acquire 0,.reserve 0 true,.acquire 1,.reserve 1 true,.gate 0 false,.shut 0,.loop 0,.standDown 0,
      .closeIdle 0] (start fun _ => true) (by decide +kernel)
  obtain ⟨hg,hc,hs,hd⟩ := of_decide_eq_true hp
  obtain ⟨hr,hf⟩ := of_decide_eq_true hq
  refine ⟨⟨p,h,hg,hc,hs,hd,fun hn => ?_⟩,q,k,hr,hf,fun hn => ?_⟩
  · rw [hn.2.2.1 0 hg hc hs] at hd
    cases hd
  · have hn' := hn.2.2.2 1 hr false
    unfold Port.ensureOpen at hn'
    rw [hf] at hn'
    cases hn'

end Port

end QUniLator.Mux
