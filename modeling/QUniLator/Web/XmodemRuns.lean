import QUniLator.Web.Xmodem

namespace QUniLator.Web.Xmodem

open List

namespace Link

def unread (l : Link) : List Sent := l.toReceiver++l.receiver.queue

def answers (l : Link) : List UInt8 := l.toSender++l.sender.queue

/-- What the blocks sent hold of the file: `consumed`, the current block and the rest -/
def Sends (l : Link) (data : List UInt8) : Prop :=
  match l.sender.phase with
  | .start => l.script=[] ∧ l.sender.rest=data ∧ l.sender.n=1
  | .block => ∃ before,l.script=before++[l.sender.body] ∧ l.sender.n=before.length+1 ∧
      before.flatten++l.sender.rest=data ∧ (l.sender.rest=[] → data=[])
  | .eot | .done => ∃ k body,l.script.getLast? = some body ∧ l.script.flatten=data++replicate k sub ∧
      (data≠[] → k<body.length) ∧ (data=[] → k=128)
  | .failed => True

def Current (l : Link) (x : Sent) : Prop :=
  match l.sender.phase with
  | .start => False
  | .block => x.block=l.sender.n
  | .eot | .done => x.block=0
  | .failed => True

def Keeps (l : Link) : Prop :=
  match l.sender.phase with
  | .start => l.receiver.expected=1 ∧ ack∉l.answers
  | .block => (l.receiver.expected=l.sender.n ∧ (ack∈l.answers → l.receiver.phase=.done)) ∨
      l.receiver.expected=l.sender.n+1
  | .eot => l.receiver.expected=l.script.length+1 ∧ (ack∈l.answers → l.receiver.phase=.done)
  | .done => l.receiver.expected=l.script.length+1
  | .failed => True

def Lost (l : Link) : Prop := l.receiver.phase=.done ∧ ack∉l.answers ∧ l.sender.phase≠.done

structure Good (data : List UInt8) (l : Link) : Prop where
  same : l.sender.data=data
  sends : l.Sends data
  current : ∀ x∈l.unread,l.Current x
  keeps : l.Keeps ∨ l.Lost
  taken : 1≤l.receiver.expected ∧ l.receiver.expected≤l.script.length+1 ∧
    l.receiver.chunks=(l.script.take (l.receiver.expected-1)).flatten

def Inv (data : List UInt8) (l : Link) : Prop := l.sender.phase=.failed ∨ Good data l

section
variable {data : List UInt8} {l : Link}

theorem Current.tag {x y : Sent} (h : l.Current y) (hxy : x.block=y.block) : l.Current x := by
  unfold Current at h ⊢
  rw [hxy]
  exact h

/-- The line hands over, loses or damages, and the sender sends again: what is to be read is for the block
under way. -/
theorem Good.line (h : Good data l) {toReceiver queue : List Sent} {toSender answered : List UInt8}
    {tries cans : Nat} (hu : ∀ x∈toReceiver++queue,l.Current x) (ha : ack∈toSender++answered → ack∈l.answers) :
    Good data { l with toReceiver := toReceiver,receiver := { l.receiver with queue := queue },
                       toSender := toSender,
                       sender := { l.sender with queue := answered,tries := tries,cans := cans } } := by
  constructor
  case same => exact h.same
  case sends => exact h.sends
  case current => exact hu
  case keeps =>
    obtain hk | ⟨hd,hno,hp⟩ := h.keeps
    · left
      unfold Keeps at hk ⊢
      dsimp only
      cases hp : l.sender.phase with
      | start | eot =>
        rw [hp] at hk
        exact ⟨hk.1,fun hx => hk.2 (ha hx)⟩
      | block =>
        rw [hp] at hk
        obtain ⟨he,hack⟩ | he := hk
        · exact .inl ⟨he,fun hx => hack (ha hx)⟩
        · exact .inr he
      | done =>
        rw [hp] at hk
        exact hk
      | failed => trivial
    · exact .inr ⟨hd,fun hx => hno (ha hx),hp⟩
  case taken => exact h.taken

theorem mem_modify {xs : List Sent} {i : Nat} {b : UInt8} {x : Sent}
    (h : x∈xs.modify i fun y => { y with byte := b }) : ∃ y∈xs,x.block=y.block := by
  obtain ⟨j,hj,hx⟩ := mem_iff_getElem.mp h
  rw [length_modify] at hj
  rw [getElem_modify] at hx
  refine ⟨xs[j],getElem_mem hj,?_⟩
  rw [← hx]
  split <;> rfl

theorem Good.back (h : Good data l) {toSender : List UInt8} (ha : ack∈toSender → ack∈l.toSender) :
    Good data { l with toSender := toSender } := by
  have hc : ack∈toSender++l.sender.queue → ack∈l.answers := by
    intro hx
    obtain hx | hx := mem_append.mp hx
    · exact mem_append_left _ (ha hx)
    · exact mem_append_right _ hx
  exact h.line h.current hc

theorem Good.answer (h : Good data l) {b : UInt8} (hb : b≠ack) : Good data (l.answer b) := by
  refine h.back fun hx => ?_
  obtain hx | hx := mem_append.mp hx
  · exact hx
  · exact absurd (mem_singleton.mp hx) (Ne.symm hb)

theorem Good.receiver (h : Good data l) (hr : l.receiver.phase≠.done) {r : Receiver}
    (he : r.expected=l.receiver.expected) (hc : r.chunks=l.receiver.chunks)
    (hq : ∀ x∈r.queue,x∈l.receiver.queue) : Good data { l with receiver := r } := by
  constructor
  case same => exact h.same
  case sends => exact h.sends
  case current =>
    intro x hx
    obtain hx | hx := mem_append.mp hx
    · exact h.current x (mem_append_left _ hx)
    · exact h.current x (mem_append_right _ (hq x hx))
  case keeps =>
    left
    have hk := h.keeps.resolve_right fun hx => hr hx.1
    unfold Keeps at hk ⊢
    dsimp only
    rw [he]
    cases hp : l.sender.phase with
    | start | done =>
      rw [hp] at hk
      exact hk
    | block =>
      rw [hp] at hk
      obtain ⟨hx,hack⟩ | hx := hk
      · exact .inl ⟨hx,fun hy => absurd (hack hy) hr⟩
      · exact .inr hx
    | eot =>
      rw [hp] at hk
      exact ⟨hk.1,fun hy => absurd (hk.2 hy) hr⟩
    | failed => trivial
  case taken =>
    show 1 ≤ r.expected ∧ r.expected ≤ _ ∧ r.chunks=_
    rw [he,hc]
    exact h.taken

theorem cancels_no_ack : ack∉cancels := by decide

theorem Good.receiverFails (h : Good data l) (hr : l.receiver.phase≠.done) : Good data l.receiverFails := by
  have hi := h.receiver hr (r := { l.receiver with phase := .failed }) rfl rfl fun _ hx => hx
  refine hi.back fun hx => ?_
  obtain hx | hx := mem_append.mp hx
  · exact hx
  · exact absurd hx cancels_no_ack

theorem Good.damaged (h : Good data l) (hr : l.receiver.phase≠.done) : Good data l.damaged := by
  unfold Link.damaged
  split
  · exact h.receiverFails hr
  · refine Good.answer ?_ (by decide)
    exact h.receiver hr rfl rfl fun _ hx => by cases hx

theorem Good.ends (h : Good data l) (hr : l.receiver.phase≠.done) (hs : l.sender.phase≠.start) :
    Good data ({ l with receiver := { l.receiver with phase := .done } }.answer ack) := by
  constructor
  case same => exact h.same
  case sends => exact h.sends
  case current => exact h.current
  case keeps =>
    left
    have hk := h.keeps.resolve_right fun hx => hr hx.1
    unfold Keeps at hk ⊢
    cases hp : l.sender.phase with
    | start => exact absurd hp hs
    | block =>
      rw [hp] at hk
      simp only [Link.answer,hp]
      obtain ⟨hx,-⟩ | hx := hk
      · exact .inl ⟨hx,fun _ => trivial⟩
      · exact .inr hx
    | eot =>
      rw [hp] at hk
      simp only [Link.answer,hp]
      exact ⟨hk.1,fun _ => trivial⟩
    | done =>
      rw [hp] at hk
      simp only [Link.answer,hp]
      exact hk
    | failed =>
      simp only [Link.answer,hp]
  case taken => exact h.taken

theorem Good.acks (h : Good data l) (hs : l.sender.phase=.block)
    (he : l.receiver.expected=l.sender.n+1) : Good data (l.answer ack) := by
  constructor
  case same => exact h.same
  case sends => exact h.sends
  case current => exact h.current
  case keeps =>
    left
    unfold Keeps
    simp only [Link.answer,hs]
    exact .inr he
  case taken => exact h.taken

theorem ofNat_succ_ne (n : Nat) : UInt8.ofNat n≠UInt8.ofNat (n+1) := by
  intro h
  have hn := congrArg UInt8.toNat h
  rw [UInt8.toNat_ofNat',UInt8.toNat_ofNat'] at hn
  omega

theorem Good.good (h : Good data l) (hr : l.receiver.phase≠.done) {x : Sent} (hx : l.Current x)
    (h0 : x.block≠0) {body : List UInt8} (hbody : body∈l.script[x.block-1]?) :
    l.sender.phase=.failed ∨ Good data (l.good (UInt8.ofNat x.block) body) := by
  have hk := h.keeps.resolve_right fun hy => hr hy.1
  have hsends := h.sends
  unfold Current at hx
  cases hp : l.sender.phase with
  | start =>
    rw [hp] at hx
    exact hx.elim
  | block =>
    right
    rw [hp] at hx
    unfold Keeps at hk
    rw [hp] at hk
    unfold Sends at hsends
    rw [hp] at hsends
    obtain ⟨before,hscript,hn,-,-⟩ := hsends
    obtain ⟨hone,hle,hchunks⟩ := h.taken
    have hgo : Good data { l with receiver := { l.receiver with errors := 0,phase := .between,got := [] } } :=
      h.receiver hr rfl rfl fun _ hy => hy
    unfold Link.good
    dsimp only
    rw [hx]
    obtain ⟨he,hack⟩ | he := hk
    · rw [he,if_pos rfl]
      refine Good.acks (l := { l with receiver := { l.receiver with
        errors := 0,phase := .between,got := [],
        chunks := l.receiver.chunks++body,expected := l.sender.n+1 } }) ?_ hp rfl
      constructor
      case same => exact h.same
      case sends => exact h.sends
      case current => exact h.current
      case keeps =>
        left
        unfold Keeps
        dsimp only
        rw [hp]
        exact .inr rfl
      case taken =>
        refine ⟨Nat.succ_pos _,?_,?_⟩
        · show l.sender.n+1≤l.script.length+1
          rw [hscript,length_append,hn]
          exact Nat.le_refl _
        show l.receiver.chunks++body=(l.script.take l.sender.n).flatten
        have hb : l.script[l.sender.n-1]? = some body := hx ▸ hbody
        have htake : l.script.take l.sender.n=l.script.take (l.sender.n-1)++[body] := by
          have hsucc : l.sender.n=l.sender.n-1+1 := by omega
          rw [hsucc,take_add_one,Nat.add_sub_cancel,hb]
          rfl
        rw [hchunks,he,htake,flatten_append,flatten_singleton]
    · have hold : UInt8.ofNat l.sender.n≠UInt8.ofNat l.receiver.expected := he ▸ ofNat_succ_ne _
      have hthis : ¬UInt8.ofNat l.sender.n≠UInt8.ofNat (l.receiver.expected-1) := by
        rw [he,Nat.add_sub_cancel]
        exact fun hy => hy rfl
      rw [if_neg hold,if_neg hthis]
      exact hgo.acks hp he
  | eot | done =>
    rw [hp] at hx
    exact absurd hx h0
  | failed => exact .inl rfl

theorem Current.not_start {x : Sent} (h : l.Current x) : l.sender.phase≠.start := by
  intro hp
  unfold Current at h
  rw [hp] at h
  exact h

theorem Good.meets (h : Good data l) (hr : l.receiver.phase≠.done) (hs : l.sender.phase≠.start) (b : UInt8) :
    Good data (l.meets b) := by
  unfold Link.meets
  split
  · exact h.ends hr hs
  · split
    · exact h.receiver hr rfl rfl fun _ hx => hx
    · split
      · exact h.receiver hr rfl rfl fun _ hx => hx
      · split
        all_goals exact h.receiver hr rfl rfl fun _ hx => hx

theorem receiverRuns_phase (h : l.receiverRuns) : l.receiver.phase≠.done := by
  intro hp
  unfold receiverRuns at h
  rw [hp] at h
  cases h

theorem head_and_body {got body : List UInt8} {n m : UInt8} {size : Nat}
    (h : got.take (2+size)=n::m::body) : got.headD 0=n ∧ (got.drop 2).take size=body := by
  constructor
  · cases got with
    | nil =>
      rw [take_nil] at h
      cases h
    | cons g gs =>
      rw [show 2+size=size+1+1 by omega,take_succ_cons] at h
      exact (List.cons.inj h).1
  · have hd := congrArg (List.drop 2) h
    rw [drop_take,Nat.add_sub_cancel_left] at hd
    exact hd

theorem Good.receiverReads (h : Good data l) (hr : l.receiver.phase≠.done) {x : Sent} {q : List Sent}
    (hq : l.receiver.queue=x::q) (hd : l.Detected .receiverReads) : l.sender.phase=.failed ∨
      Good data ({ l with receiver := { l.receiver with queue := q } }.receiverTakes x) := by
  have hx : l.Current x := h.current x (mem_append_right _ (hq ▸ mem_cons_self))
  have hpop : Good data { l with receiver := { l.receiver with queue := q } } :=
    h.receiver hr rfl rfl fun y hy => hq ▸ mem_cons_of_mem _ hy
  have hs := hx.not_start
  unfold Link.receiverTakes
  cases hp : l.receiver.phase with
  | starting =>
    right
    dsimp only
    split
    · exact hpop.meets hr hs _
    · exact hpop
  | between =>
    right
    dsimp only
    exact hpop.meets hr hs _
  | canned =>
    right
    dsimp only
    split
    · exact hpop.receiverFails hr
    · exact hpop.receiver hr rfl rfl fun _ hy => hy
  | block size =>
    have hwhole : l.Whole size x := hd size (by rw [hp]; rfl) x (by rw [hq]; rfl)
    dsimp only
    unfold Link.gets
    dsimp only
    split
    · right
      exact hpop.receiver hr rfl rfl fun _ hy => hy
    · rename_i hlen
      split
      · rename_i hgood
        obtain hl | hb | ⟨-,h0,body,hbody,htake⟩ := hwhole
        · exact absurd hl hlen
        · rw [hb] at hgood
          cases hgood
        · obtain ⟨hn,hb⟩ := head_and_body htake
          rw [hn,hb]
          exact hpop.good hr hx h0 hbody
      · right
        exact hpop.damaged hr
  | done => exact absurd hp hr
  | failed =>
    right
    exact hpop

theorem Good.receiverWaited (h : Good data l) (hr : l.receiver.phase≠.done) (late : Bool) :
    Good data (l.receiverWaited late) := by
  unfold Link.receiverWaited
  split
  · have hask : (if l.receiver.crc && !late then askCrc else nak)≠ack := by split <;> decide
    have hi : Good data { l with receiver := { l.receiver with crc := l.receiver.crc && !late } } :=
      h.receiver hr rfl rfl fun _ hx => hx
    exact hi.answer hask
  · split
    · exact h.receiverFails hr
    · have hi : Good data { l with receiver := { l.receiver with errors := l.receiver.errors+1 } } :=
        h.receiver hr rfl rfl fun _ hx => hx
      exact hi.answer (by decide)
  · exact h.receiver hr rfl rfl fun _ hx => hx
  · exact h.damaged hr
  · exact h
  · exact h

theorem block_tag (s : Sender) : ∀ x∈s.block,x.block=s.n := by
  intro x hx
  obtain ⟨b,-,rfl⟩ := mem_map.mp hx
  rfl

theorem Good.retryBlock (h : Good data l) (hp : l.sender.phase=.block) : Inv data l.retryBlock := by
  unfold Link.retryBlock
  split
  · exact .inl rfl
  · right
    refine h.line (fun x hx => ?_) (fun hx => ?_)
    · rw [append_assoc] at hx
      obtain hx | hx := mem_append.mp hx
      · exact h.current x (mem_append_left _ hx)
      · obtain hx | hx := mem_append.mp hx
        · have ht := block_tag _ x hx
          unfold Current
          rw [hp]
          exact ht
        · exact h.current x (mem_append_right _ hx)
    · rw [append_nil] at hx
      exact mem_append_left _ hx

theorem Good.retryEot (h : Good data l) (hp : l.sender.phase=.eot) : Inv data l.retryEot := by
  unfold Link.retryEot
  split
  · exact .inl rfl
  · right
    refine h.line (fun x hx => ?_) (fun hx => ?_)
    · rw [append_assoc] at hx
      obtain hx | hx := mem_append.mp hx
      · exact h.current x (mem_append_left _ hx)
      · obtain hx | hx := mem_append.mp hx
        · obtain rfl := mem_singleton.mp hx
          unfold Current
          rw [hp]
        · exact h.current x (mem_append_right _ hx)
    · rw [append_nil] at hx
      exact mem_append_left _ hx

theorem Good.first (hsame : l.sender.data=data) (hn : l.sender.n=l.script.length+1)
    (hrest : l.script.flatten++l.sender.rest=data) (hempty : l.sender.rest=[] → data=[])
    (hun : l.unread=[]) (hans : ack∉l.toSender) (hexp : l.receiver.expected=l.sender.n ∨ l.receiver.phase=.done)
    (htaken : 1≤l.receiver.expected ∧ l.receiver.expected≤l.script.length+1 ∧
      l.receiver.chunks=(l.script.take (l.receiver.expected-1)).flatten) : Good data l.firstBlock := by
  obtain ⟨hone,hle,hchunks⟩ := htaken
  obtain ⟨hto,hqueue⟩ := append_eq_nil_iff.mp hun
  constructor
  case same => exact hsame
  case sends => exact ⟨l.script,rfl,hn,hrest,hempty⟩
  case current =>
    intro x hx
    have hx' : x∈(l.toReceiver++({ l.sender with tries := 1,phase := .block } : Sender).block) ++
        l.receiver.queue := hx
    rw [hto,hqueue,nil_append,append_nil] at hx'
    exact block_tag _ x hx'
  case keeps =>
    have hno : ack∉l.toSender++([] : List UInt8) := by
      rw [append_nil]
      exact hans
    obtain he | hd := hexp
    · exact .inl (.inl ⟨he,fun hx => absurd hx hno⟩)
    · exact .inr ⟨hd,hno,fun hx => by cases hx⟩
  case taken =>
    refine ⟨hone,?_,?_⟩
    · show l.receiver.expected≤(l.script++[_]).length+1
      rw [length_append]
      exact Nat.le_succ_of_le hle
    show l.receiver.chunks=((l.script++[l.sender.body]).take (l.receiver.expected-1)).flatten
    rw [take_append_of_le_length (by omega)]
    exact hchunks

theorem body_length (s : Sender) : s.body.length=s.blockSize := by
  have hc : s.chunk.length ≤ s.blockSize := length_take_le _ _
  show (s.chunk++replicate (s.blockSize-s.chunk.length) sub).length=_
  rw [length_append,length_replicate]
  omega

theorem blockSize_pos (s : Sender) : 0<s.blockSize := by
  unfold Sender.blockSize
  split <;> decide

theorem last_body {s : Sender} (h : s.rest.drop s.chunk.length=[]) :
    s.body=s.rest++replicate (s.blockSize-s.rest.length) sub := by
  have hlen := drop_eq_nil_iff.mp h
  have hchunk : s.chunk=s.rest := by
    have hl : s.chunk.length=min s.blockSize s.rest.length := length_take
    exact take_of_length_le (by omega)
  show s.chunk++replicate (s.blockSize-s.chunk.length) sub=_
  rw [hchunk]

theorem full_body {s : Sender} (h : s.rest.drop s.chunk.length≠[]) : s.body++s.rest.drop s.chunk.length=s.rest := by
  have hl : s.chunk.length=min s.blockSize s.rest.length := length_take
  have hlt : s.chunk.length<s.rest.length := by
    by_contra hx
    exact h (drop_eq_nil_iff.mpr (Nat.le_of_not_lt hx))
  have hfull : s.chunk.length=s.blockSize := by omega
  show (s.chunk++replicate (s.blockSize-s.chunk.length) sub)++s.rest.drop s.chunk.length=_
  rw [hfull,Nat.sub_self,replicate_zero,append_nil]
  exact take_append_drop _ _

theorem Good.counted (h : Good data l) (hp : l.sender.phase=.block) (ha : ack∈l.answers) :
    l.receiver.expected=l.sender.n+1 ∨ l.receiver.phase=.done := by
  obtain hk | ⟨-,hno,-⟩ := h.keeps
  · unfold Keeps at hk
    rw [hp] at hk
    obtain ⟨-,hd⟩ | he := hk
    · exact .inr (hd ha)
    · exact .inl he
  · exact absurd ha hno

theorem Good.acknowledged (h : Good data l) (hp : l.sender.phase=.block)
    (hexp : l.receiver.expected=l.sender.n+1 ∨ l.receiver.phase=.done)
    (hans : ack∉l.toSender) (hto : l.toReceiver=[]) (hqueue : l.receiver.queue=[]) : Inv data l.acknowledged := by
  have hsends := h.sends
  unfold Sends at hsends
  rw [hp] at hsends
  obtain ⟨before,hscript,hn,hrest,hempty⟩ := hsends
  obtain ⟨hone,hle,hchunks⟩ := h.taken
  have hlen : l.script.length=l.sender.n := by
    rw [hscript,length_append,hn]
    rfl
  have hno : ack∉l.toSender++([] : List UInt8) := by
    rw [append_nil]
    exact hans
  unfold Link.acknowledged
  dsimp only
  right
  split
  · rename_i hend
    have hdrop : l.sender.rest.drop l.sender.chunk.length=[] := by
      obtain hd | hd := hend
      · rw [h.same] at hd
        have hr : l.sender.rest=[] := by
          have hr := hrest
          rw [hd] at hr
          exact (append_eq_nil_iff.mp hr).2
        rw [hr,drop_nil]
      · exact hd
    have hbody := last_body hdrop
    constructor
    case same => exact h.same
    case sends =>
      refine ⟨l.sender.blockSize-l.sender.rest.length,l.sender.body,?_,?_,fun hd => ?_,fun hd => ?_⟩
      · show l.script.getLast? = _
        rw [hscript,List.getLast?_concat]
      · show l.script.flatten=_
        rw [hscript,flatten_append,flatten_singleton,hbody,← append_assoc,hrest]
      · have hpos : 0<l.sender.rest.length := length_pos_of_ne_nil fun hx => hd (hempty hx)
        have hb := blockSize_pos l.sender
        rw [body_length]
        omega
      · have hr : l.sender.rest=[] := by
          rw [hd] at hrest
          exact (append_eq_nil_iff.mp hrest).2
        have hsize : l.sender.blockSize=128 := by
          unfold Sender.blockSize
          rw [hr]
          exact if_neg (by simp)
        rw [hr,hsize]
        rfl
    case current =>
      intro x hx
      have hx' : x∈(l.toReceiver++[⟨eot,0⟩])++l.receiver.queue := hx
      rw [hto,hqueue,nil_append,append_nil] at hx'
      obtain rfl := mem_singleton.mp hx'
      rfl
    case keeps =>
      obtain he | hd := hexp
      · refine .inl ⟨?_,fun hx => absurd hx hno⟩
        show l.receiver.expected=l.script.length+1
        rw [he,hlen]
      · exact .inr ⟨hd,hno,fun hx => by cases hx⟩
    case taken => exact ⟨hone,hle,hchunks⟩
  · rename_i hmore
    obtain ⟨hd,hdrop⟩ := not_or.mp hmore
    have hbody := full_body hdrop
    refine Good.first h.same ?_ ?_ (fun hx => absurd hx hdrop) ?_ hans hexp ⟨hone,hle,hchunks⟩
    · show l.sender.n+1=l.script.length+1
      rw [hlen]
    · show l.script.flatten++l.sender.rest.drop l.sender.chunk.length=data
      rw [hscript,flatten_append,flatten_singleton,append_assoc,hbody,hrest]
    · exact append_eq_nil_iff.mpr ⟨hto,hqueue⟩

theorem Good.canned (h : Good data l) : Inv data l.canned := by
  unfold Link.canned
  split
  · exact .inl rfl
  · exact .inr (h.line h.current id)

theorem Good.restart (h : Good data l) (cans : Nat) :
    Inv data { l with sender := { l.sender with cans := cans } } := .inr (h.line h.current id)

theorem Good.senderWaited (h : Good data l) : Inv data l.senderWaited := by
  unfold Link.senderWaited
  split
  · exact .inl rfl
  · rename_i hp
    exact h.retryBlock hp
  · rename_i hp
    exact h.retryEot hp
  · exact .inr h
  · exact .inr h

theorem Good.begins (h : Good data l) (hp : l.sender.phase=.start) (crc : Bool) :
    Inv data { l with sender := { l.sender with crc := crc } }.firstBlock := by
  have hsends := h.sends
  unfold Sends at hsends
  rw [hp] at hsends
  obtain ⟨hscript,hrest,hn⟩ := hsends
  have hun : l.unread=[] := by
    refine eq_nil_iff_forall_not_mem.mpr fun x hx => ?_
    exact (h.current x hx).not_start hp
  have hk : l.receiver.expected=l.sender.n ∨ l.receiver.phase=.done := by
    obtain hk | hk := h.keeps
    · unfold Keeps at hk
      rw [hp] at hk
      exact .inl (hk.1.trans hn.symm)
    · exact .inr hk.1
  have hans : ack∉l.toSender := by
    intro hx
    have hx' : ack∈l.answers := mem_append_left _ hx
    obtain hk | ⟨-,hno,-⟩ := h.keeps
    · unfold Keeps at hk
      rw [hp] at hk
      exact hk.2 hx'
    · exact hno hx'
  refine .inr (Good.first h.same ?_ ?_ (fun hx => hrest.symm.trans hx) hun hans hk h.taken)
  · show l.sender.n=l.script.length+1
    rw [hscript,hn]
    rfl
  · show l.script.flatten++l.sender.rest=data
    rw [hscript,hrest]
    rfl

theorem Good.senderTakes (h : Good data l) {b : UInt8} {q : List UInt8} (hq : l.sender.queue=b::q)
    (hc : l.Careful .senderReads) : Inv data ({ l with sender := { l.sender with queue := q } }.senderTakes b) := by
  have hpop : Good data { l with sender := { l.sender with queue := q } } := by
    have ha : ack∈l.toSender++q → ack∈l.answers := by
      intro hx
      obtain hx | hx := mem_append.mp hx
      · exact mem_append_left _ hx
      · exact mem_append_right _ (hq ▸ mem_cons_of_mem _ hx)
    exact h.line h.current ha
  unfold Link.senderTakes
  cases hp : l.sender.phase with
  | start =>
    dsimp only
    split
    · exact hpop.begins hp false
    · split
      · exact hpop.begins hp true
      · exact .inr hpop
  | block =>
    dsimp only
    split
    · rename_i hb
      have hmem : ack∈l.answers := mem_append_right _ (by rw [hq,hb]; exact mem_cons_self)
      obtain ⟨hans,hto,hqueue⟩ := hc hp (by rw [hq,hb]; rfl)
      exact hpop.acknowledged hp (h.counted hp hmem) hans hto hqueue
    · split
      · exact hpop.retryBlock hp
      · split
        · exact hpop.canned
        · exact hpop.restart 0
  | eot =>
    dsimp only
    split
    · rename_i hb
      have hmem : ack∈l.answers := mem_append_right _ (by rw [hq,hb]; exact mem_cons_self)
      have hk := h.keeps.resolve_right fun hx => hx.2.1 hmem
      have hcur := hpop.current
      have hsends := hpop.sends
      unfold Keeps at hk
      unfold Sends at hsends
      rw [hp] at hk
      dsimp only at hsends
      rw [hp] at hsends
      refine .inr ⟨hpop.same,hsends,fun x hx => ?_,.inl hk.1,hpop.taken⟩
      have hc := hcur x hx
      unfold Current at hc
      dsimp only at hc
      rw [hp] at hc
      exact hc
    · split
      · exact hpop.retryEot hp
      · split
        · exact hpop.canned
        · exact hpop.restart 0
  | done | failed => exact .inr hpop

theorem damaged_sender (l : Link) : l.damaged.sender=l.sender := by
  unfold Link.damaged
  split <;> rfl

theorem good_sender (l : Link) (n : UInt8) (body : List UInt8) : (l.good n body).sender=l.sender := by
  unfold Link.good
  dsimp only
  split
  · rfl
  · split <;> rfl

theorem meets_sender (l : Link) (b : UInt8) : (l.meets b).sender=l.sender := by
  unfold Link.meets
  split
  · rfl
  · split
    · rfl
    · split
      · rfl
      · split <;> rfl

theorem receiverTakes_sender (l : Link) (x : Sent) : (l.receiverTakes x).sender=l.sender := by
  unfold Link.receiverTakes
  split
  · split
    · exact meets_sender _ _
    · rfl
  · exact meets_sender _ _
  · split <;> rfl
  · unfold Link.gets
    dsimp only
    split
    · rfl
    · split
      · exact good_sender _ _ _
      · exact damaged_sender _
  · rfl
  · rfl

theorem receiverWaited_sender (l : Link) (late : Bool) : (l.receiverWaited late).sender=l.sender := by
  unfold Link.receiverWaited
  split
  · rfl
  · split <;> rfl
  · rfl
  · exact damaged_sender _
  · rfl
  · rfl

theorem failed_stays {e : Event} {t : Link} (h : l.sender.phase=.failed) (hs : l.step e=some t) :
    t.sender.phase=.failed := by
  have hno : l.senderRuns=false := by
    unfold senderRuns
    rw [h]
    rfl
  cases e with
  | senderReads =>
    simp only [Link.step,hno] at hs
    split at hs
    · cases hs
    · cases hs
  | senderTimeout | senderCancel =>
    simp only [Link.step,hno] at hs
    cases hs
  | receiverReads =>
    simp only [Link.step] at hs
    split at hs
    · split at hs
      · cases hs
        rw [receiverTakes_sender]
        exact h
      · cases hs
    · cases hs
  | receiverTimeout late =>
    simp only [Link.step] at hs
    split at hs
    · cases hs
      rw [receiverWaited_sender]
      exact h
    · cases hs
  | receiverCancel =>
    simp only [Link.step] at hs
    split at hs
    · cases hs
      exact h
    · cases hs
  | _ =>
    cases hs
    exact h

theorem Good.step (h : Good data l) {e : Event} (hd : l.Detected e) (hc : l.Careful e) {t : Link}
    (hs : l.step e=some t) : Inv data t := by
  cases e with
  | senderReads =>
    simp only [Link.step] at hs
    split at hs
    · rename_i b q hq
      split at hs
      · cases hs
        exact h.senderTakes hq hc
      · cases hs
    · cases hs
  | senderTimeout =>
    simp only [Link.step] at hs
    split at hs
    · cases hs
      exact h.senderWaited
    · cases hs
  | senderCancel =>
    simp only [Link.step] at hs
    split at hs
    · cases hs
      exact .inl rfl
    · cases hs
  | receiverReads =>
    simp only [Link.step] at hs
    split at hs
    · rename_i x q hq
      split at hs
      · rename_i hr
        cases hs
        obtain hf | hg := h.receiverReads (receiverRuns_phase hr) hq hd
        · left
          rw [receiverTakes_sender]
          exact hf
        · exact .inr hg
      · cases hs
    · cases hs
  | receiverTimeout late =>
    simp only [Link.step] at hs
    split at hs
    · rename_i hr
      cases hs
      exact .inr (h.receiverWaited (receiverRuns_phase hr.1) late)
    · cases hs
  | receiverCancel =>
    simp only [Link.step] at hs
    split at hs
    · rename_i hr
      cases hs
      exact .inr (h.receiverFails (receiverRuns_phase hr))
    · cases hs
  | toReceiver k =>
    cases hs
    refine .inr (h.line (fun x hx => h.current x ?_) id)
    obtain hx | hx := mem_append.mp hx
    · exact mem_append_left _ (mem_of_mem_drop hx)
    · obtain hx | hx := mem_append.mp hx
      · exact mem_append_right _ hx
      · exact mem_append_left _ (mem_of_mem_take hx)
  | toSender k =>
    cases hs
    refine .inr (h.line h.current fun hx => ?_)
    obtain hx | hx := mem_append.mp hx
    · exact mem_append_left _ (mem_of_mem_drop hx)
    · obtain hx | hx := mem_append.mp hx
      · exact mem_append_right _ hx
      · exact mem_append_left _ (mem_of_mem_take hx)
  | loseToReceiver i k =>
    cases hs
    refine .inr (h.line (fun x hx => h.current x ?_) id)
    obtain hx | hx := mem_append.mp hx
    · obtain hx | hx := mem_append.mp hx
      · exact mem_append_left _ (mem_of_mem_take hx)
      · exact mem_append_left _ (mem_of_mem_drop hx)
    · exact mem_append_right _ hx
  | loseToSender i k =>
    cases hs
    refine .inr (h.back fun hx => ?_)
    obtain hx | hx := mem_append.mp hx
    · exact mem_of_mem_take hx
    · exact mem_of_mem_drop hx
  | damageToReceiver i b =>
    cases hs
    refine .inr (h.line (fun x hx => ?_) id)
    obtain hx | hx := mem_append.mp hx
    · obtain ⟨y,hy,hxy⟩ := mem_modify hx
      exact (h.current y (mem_append_left _ hy)).tag hxy
    · exact h.current x (mem_append_right _ hx)
  | damageToSender i b =>
    cases hs
    refine .inr (h.back fun hx => ?_)
    obtain hx | hx := mem_or_eq_of_mem_set hx
    · exact hx
    · exact absurd hx.symm hd

theorem Good.start (data : List UInt8) (oneK crc stripPadding : Bool) :
    Good data (start data oneK crc stripPadding) := by
  constructor
  case same => rfl
  case sends => exact ⟨rfl,rfl,rfl⟩
  case current => exact fun x hx => by cases hx
  case keeps =>
    have hask : ∀ c : Bool,ack∉[if c then askCrc else nak]++([] : List UInt8) := by decide
    exact .inl ⟨rfl,hask crc⟩
  case taken => exact ⟨Nat.le_refl _,Nat.le_refl _,rfl⟩

theorem Good.arrived (h : Good data l) : l.Arrived data := by
  intro hs hr
  have hsends := h.sends
  have hk := h.keeps.resolve_right fun hx => hx.2.2 hs
  unfold Sends at hsends
  unfold Keeps at hk
  rw [hs] at hsends hk
  obtain ⟨k,body,hlast,hflat,hless,hempty⟩ := hsends
  have hchunks : l.receiver.chunks=data++replicate k sub := by
    rw [h.taken.2.2,hk,Nat.add_sub_cancel,take_length,hflat]
  refine ⟨k,body,hlast,hchunks,hless,hempty,?_⟩
  unfold Receiver.result
  rw [hchunks]

/-- In every run in which no block is taken as acknowledged too soon the file arrives. -/
theorem file_arrives {oneK crc stripPadding : Bool} {es : List Event}
    (h : Run (Guarded (fun l e => l.Detected e ∧ l.Careful e) step) (start data oneK crc stripPadding) es l) :
    l.Arrived data := by
  have hi := h.invariant (P := Inv data) (fun a e b ha hs => ?_) (.inr (Good.start data oneK crc stripPadding))
  · obtain hf | hg := hi
    · intro hd
      rw [hf] at hd
      cases hd
    · exact hg.arrived
  · obtain hf | hg := ha
    · exact .inl (failed_stays hf hs.2)
    · exact hg.step hs.1.1 hs.1.2 hs.2

end

instance (l : Link) (size : Nat) (x : Sent) : Decidable (l.Whole size x) :=
  inferInstanceAs (Decidable (_ ∨ _ ∨ ((∀ y∈_,_) ∧ _ ∧ ∃ body∈l.script[x.block-1]?,_)))

instance (l : Link) : (e : Event) → Decidable (l.Detected e)
  | .receiverReads => inferInstanceAs (Decidable (∀ size∈l.receiver.phase.size?,∀ x∈l.receiver.queue.head?,
      l.Whole size x))
  | .damageToSender _ b => inferInstanceAs (Decidable (b≠ack))
  | .senderReads | .senderTimeout | .senderCancel | .receiverTimeout _ | .receiverCancel | .toReceiver _
  | .toSender _ | .loseToReceiver _ _ | .loseToSender _ _ | .damageToReceiver _ _ => .isTrue trivial

instance (l : Link) : (e : Event) → Decidable (l.Careful e)
  | .senderReads => inferInstanceAs (Decidable (_=_ → _=_ → ack∉_ ∧ _=_ ∧ _=_))
  | .receiverReads | .damageToSender _ _ | .senderTimeout | .senderCancel | .receiverTimeout _
  | .receiverCancel | .toReceiver _ | .toSender _ | .loseToReceiver _ _ | .loseToSender _ _
  | .damageToReceiver _ _ => .isTrue trivial

def blockComes : List Event := .toReceiver 132::replicate 132 .receiverReads

def answerComes : List Event := [.toSender 1,.senderReads]

def oneBlock : List Event := answerComes++blockComes++answerComes++[.toReceiver 1,.receiverReads]++answerComes

theorem file_arrives_oneBlock : ∃ l : Link,l.Arrived [0x41] ∧ l.sender.phase=.done ∧ l.receiver.phase=.done := by
  obtain ⟨l,hl,hp⟩ := run_of_foldlM (fun (l : Link) e => l.Detected e ∧ l.Careful e) step
    (fun l => decide (l.sender.phase=.done ∧ l.receiver.phase=.done)) oneBlock
    (Link.start [0x41] false false true) (by decide +kernel)
  exact ⟨l,file_arrives hl,of_decide_eq_true hp⟩

/-- Both halves return, and what arrived is not the file with fewer SUBs behind it than a block has. -/
def FallsShort (l : Link) (data : List UInt8) : Prop :=
  l.sender.phase=.done ∧ l.receiver.phase=.done ∧
    ¬∃ k body,l.script.getLast? = some body ∧ k<body.length ∧
      l.receiver.chunks=data++replicate k sub

theorem fallsShort_of_length {l : Link} {data : List UInt8} (hs : l.sender.phase=.done)
    (hr : l.receiver.phase=.done) (hl : l.script.getLast?.map List.length=some 128)
    (hc : l.receiver.chunks.length=128) (hd : data.length+128≤128 ∨ 128<data.length) : l.FallsShort data := by
  refine ⟨hs,hr,fun ⟨k,body,hlast,hk,hchunks⟩ => ?_⟩
  rw [hlast] at hl
  have hlen : body.length=128 := Option.some.inj hl
  rw [hchunks,length_append,length_replicate] at hc
  omega

/-- The ACK of the first block is late; the second block is lost behind the one that comes again. -/
def lateAck : List Event :=
  answerComes++blockComes++[.senderTimeout]++answerComes++blockComes++[.loseToReceiver 0 132] ++
    answerComes++[.toReceiver 1,.receiverReads]++answerComes

/-- A file of no byte arrives as a whole block of SUBs; and where a late ACK is counted for the block after it,
the last block is missing. -/
theorem file_falls_short :
    (∃ l : Link,Run (Guarded Detected step) (start [] false false false) oneBlock l ∧ l.FallsShort []) ∧
    ∃ l : Link,Run (Guarded Detected step) (start (replicate 129 0x41) false false false) lateAck l ∧
      l.FallsShort (replicate 129 0x41) := by
  constructor
  · obtain ⟨l,hl,hp⟩ := run_of_foldlM Detected step
      (fun l => decide (l.sender.phase=.done ∧ l.receiver.phase=.done ∧
        l.script.getLast?.map List.length=some 128 ∧ l.receiver.chunks.length=128)) oneBlock
      (Link.start [] false false false) (by decide +kernel)
    obtain ⟨hs,hr,hb,hc⟩ := of_decide_eq_true hp
    exact ⟨l,hl,fallsShort_of_length hs hr hb hc (.inl (Nat.le_refl _))⟩
  · obtain ⟨l,hl,hp⟩ := run_of_foldlM Detected step
      (fun l => decide (l.sender.phase=.done ∧ l.receiver.phase=.done ∧
        l.script.getLast?.map List.length=some 128 ∧ l.receiver.chunks.length=128)) lateAck
      (Link.start (replicate 129 0x41) false false false) (by decide +kernel)
    obtain ⟨hs,hr,hb,hc⟩ := of_decide_eq_true hp
    refine ⟨l,hl,fallsShort_of_length hs hr hb hc (.inr ?_)⟩
    rw [length_replicate]
    decide

end Link

end QUniLator.Web.Xmodem
