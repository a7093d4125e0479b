import QUniLator.Web.KermitLink

namespace QUniLator.Web.Kermit

open List Option

theorem fill_spec (qbin : Bool) (room len : Nat) (bs : List UInt8) : ∃ cs,bs=cs++(fill qbin room len bs).2 ∧
      (fill qbin room len bs).1=(cs.map UInt8.toNat).flatMap (kermitEncode · qbin) := by
  induction bs generalizing len with
  | nil => exact ⟨[],rfl,rfl⟩
  | cons b bs ih =>
    obtain ⟨cs,hbs,hcs⟩ := ih (len+(kermitEncode b.toNat qbin).length)
    rw [fill]
    split
    · exact ⟨[],rfl,rfl⟩
    · refine ⟨b::cs,?_,?_⟩
      · rw [List.cons_append]
        exact congrArg _ hbs
      · rw [map_cons,flatMap_cons]
        exact congrArg _ hcs

theorem bytes_lt (bs : List UInt8) : ∀ b∈bs.map UInt8.toNat,b<256 := by
  intro b hb
  obtain ⟨c,-,rfl⟩ := List.mem_map.mp hb
  exact c.toNat_lt

theorem map_ofNat_toNat (bs : List UInt8) : (bs.map UInt8.toNat).map UInt8.ofNat=bs := by
  rw [List.map_map]
  exact (map_congr_left fun b _ => UInt8.ofNat_toNat).trans bs.map_id

namespace Link

theorem replay_cons (lf : Bool) (p : Packet) (ps : List Packet) :
    replay lf (p::ps)=ps.foldl (Contents.take lf) ⟨(prefixesOf p.data).1,[],[],[]⟩ := rfl

theorem replay_append {lf : Bool} {ps : List Packet} (hps : ps≠[]) (p : Packet) :
    replay lf (ps++[p])=(replay lf ps).take lf p := by
  cases ps with
  | nil => exact absurd rfl hps
  | cons q qs => rw [List.cons_append,replay_cons,replay_cons,foldl_append]; rfl

theorem replay_take {lf : Bool} {ps : List Packet} {n : Nat} {p : Packet} (hn : 0<n)
    (hp : ps[n]? = some p) : replay lf (ps.take (n+1))=(replay lf (ps.take n)).take lf p := by
  obtain ⟨hlt,-⟩ := List.getElem?_eq_some_iff.mp hp
  have hne : ps.take n≠[] := by
    refine ne_nil_of_length_pos ?_
    rw [length_take]
    omega
  rw [take_add_one,hp,toList_some,replay_append hne]

theorem take_files (lf : Bool) (c : Contents) (p : Packet) :
    (c.take lf p).files.length ≤ c.files.length+([p].filter (·.type = 'Z')).length := by
  unfold Contents.take
  split
  · exact Nat.le_add_right _ _
  · split
    · exact Nat.le_add_right _ _
    · split
      · rename_i hz
        split
        · exact Nat.le_add_right _ _
        · dsimp only
          rw [length_append,filter_cons_of_pos (by simpa using hz)]
          exact Nat.le_refl _
      · exact Nat.le_add_right _ _

theorem foldl_files (lf : Bool) (ps : List Packet) (c : Contents) :
    (ps.foldl (Contents.take lf) c).files.length ≤ c.files.length+(ps.filter (·.type = 'Z')).length := by
  induction ps generalizing c with
  | nil => exact Nat.le_refl _
  | cons p ps ih =>
    have hp := take_files lf c p
    have hps := ih (c.take lf p)
    have hsplit : ((p::ps).filter (·.type = 'Z')).length =
        ([p].filter (·.type = 'Z')).length+(ps.filter (·.type = 'Z')).length := by
      rw [← length_append,← filter_append,singleton_append]
    rw [foldl_cons]
    omega

theorem replay_files (lf : Bool) (ps : List Packet) :
    (replay lf ps).files.length≤(ps.filter (·.type = 'Z')).length := by
  cases ps with
  | nil => exact Nat.le_refl _
  | cons p ps =>
    have h := foldl_files lf ps ⟨(prefixesOf p.data).1,[],[],[]⟩
    refine Nat.le_trans h ?_
    rw [length_nil,Nat.zero_add]
    exact Sublist.length_le ((sublist_cons_self p ps).filter _)

def ourData : List Nat := [tochar 94,tochar 10,tochar 0,ctl 0,tochar 13,0x23,0x59,0x31,0x20]

end Link

/-- An ACK of a packet that was taken -/
structure Frame.Acks (f : Frame) (taken : Nat) : Prop where
  type : f.packet.type = 'Y'
  taken : f.number<taken
  seq : f.packet.seq=(f.number % 64 : Nat)
  data : f.number=0 → f.packet.data=Link.ourData

/-- What the receiver sends: error packets, requests for the first packet, and ACKs -/
def Frame.Answers (f : Frame) (taken : Nat) : Prop :=
  f.packet.type = 'E' ∨ (f.packet.type = 'N' ∧ f.packet.seq=0 ∧ f.number=0) ∨ f.Acks taken

theorem Frame.Acks.mono {f : Frame} {m n : Nat} (h : f.Acks m) (hmn : m≤n) : f.Acks n :=
  { h with taken := Nat.lt_of_lt_of_le h.taken hmn }

theorem Frame.Answers.mono {f : Frame} {m n : Nat} (h : f.Answers m) (hmn : m≤n) : f.Answers n := by
  obtain he | hn | ha := h
  · exact .inl he
  · exact .inr (.inl hn)
  · exact .inr (.inr (ha.mono hmn))

def Frame.Sends (f : Frame) (script : List Packet) : Prop :=
  f.packet.type = 'E' ∨ (script[f.number]? = some f.packet ∧ f.packet.seq=(f.number % 64 : Nat))

namespace Link

structure Agreed (qbin : Bool) (c : Contents) : Prop where
  prefixes : c.prefixes=agreed
  qbin : qbin=true

def Progress (l : Link) (bytes : List UInt8) : Prop :=
  let c := replay l.receiver.lf (l.script.take l.acked)
  match l.sender.phase with
  | .init => l.acked=0
  | .header => 0<l.acked ∧ Agreed l.sender.qbin c ∧ c.files=[]
  | .data => 0<l.acked ∧ Agreed l.sender.qbin c ∧ c.files=[] ∧
      c.chunks++l.sender.rest.map UInt8.toNat=bytes.map UInt8.toNat
  | .eof => 0<l.acked ∧ c.files=[] ∧ c.chunks=bytes.map UInt8.toNat
  | .brk => 0<l.acked ∧ ∃ name,c.files=[⟨name,if l.receiver.lf then textToLf bytes else bytes⟩]
  | .done => l.script.length=l.acked ∧ ∃ n name,l.acked=n+1 ∧ l.script[n]?.map Packet.type=some 'B' ∧
      0<n ∧ c.files=[⟨name,if l.receiver.lf then textToLf bytes else bytes⟩]
  | .failed => True

def Current (l : Link) : Prop :=
  l.sender.phase=.done ∨ l.sender.phase=.failed ∨ l.script[l.acked]? = some l.sender.packet

structure Inv (bytes : List UInt8) (l : Link) : Prop where
  same : l.sender.bytes=bytes
  senderSeq : l.sender.seq=l.acked % 64
  receiverSeq : 0<l.taken → l.receiver.seq=l.taken % 64
  first : l.script[0]? = some ⟨0,'S',initData⟩
  length : l.script.length≤l.acked+1
  current : l.Current
  sent : ∀ f∈l.sent,f.Sends l.script
  sync : (l.acked≤l.taken ∨ (l.acked=64 ∧ l.taken=63)) ∧ l.taken≤l.script.length
  waiting : l.receiver.phase=.waiting → l.taken=0
  running : l.receiver.phase=.running → ∃ f,l.receiver.last=some f ∧ f.Acks l.taken
  answered : ∀ f∈l.answered,f.Answers l.taken
  contents : l.receiver.contents=replay l.receiver.lf (l.script.take l.taken)
  progress : l.Progress bytes

section
variable {bytes : List UInt8} {l : Link}

theorem Inv.sends (h : Inv bytes l) {f : Frame} (hf : f.Sends l.script) :
    Inv bytes { l with sent := f::l.sent } :=
  { h with
    sent := fun g hg => by
      cases hg with
      | head => exact hf
      | tail _ hg => exact h.sent g hg }

theorem Inv.answers (h : Inv bytes l) {f : Frame} (hf : f.Answers l.taken) :
    Inv bytes { l with answered := f::l.answered } :=
  { h with
    answered := fun g hg => by
      cases hg with
      | head => exact hf
      | tail _ hg => exact h.answered g hg }

theorem Inv.senderStops (h : Inv bytes l) : Inv bytes { l with sender := { l.sender with phase := .failed } } :=
  { h with current := .inr (.inl rfl),progress := trivial }

theorem Inv.receiverStops (h : Inv bytes l) :
    Inv bytes { l with receiver := { l.receiver with phase := .failed } } :=
  { h with
    waiting := fun hx => by cases hx
    running := fun hx => by cases hx }

theorem Inv.senderFails (h : Inv bytes l) : Inv bytes l.senderFails :=
  h.senderStops.sends (.inl rfl)

theorem Inv.retry (h : Inv bytes l) (hd : l.sender.phase≠.done) (hf : l.sender.phase≠.failed) :
    Inv bytes l.retry := by
  unfold Link.retry
  split
  · have hc : l.script[l.acked]? = some l.sender.packet := (h.current.resolve_left hd).resolve_left hf
    have hseq : l.sender.packet.seq=(l.acked % 64 : Nat) := by
      rw [← h.senderSeq]
      unfold Sender.packet
      split <;> rfl
    have hsends : (l.sender.frame l.acked).Sends l.script := .inr ⟨hc,hseq⟩
    have hi := h.sends hsends
    exact { hi with }
  · exact h.senderFails

/-- An answer that counts was given for the packet under way; or it is the request for packet 0 that the
receiver made before the Send-Init, taken as one for packet 64. -/
theorem Inv.counts (h : Inv bytes l) {f : Frame} (hf : f.Answers l.taken) (hold : l.acked≤f.number+63)
    (hp : (f.packet.type = 'Y' ∧ f.packet.seq=l.sender.seq) ∨
      (f.packet.type = 'N' ∧ f.packet.seq=((l.sender.seq+1) % 64 : Nat))) :
    (l.acked+1≤l.taken ∨ (l.acked+1=64 ∧ l.taken=63)) ∧ (l.acked=0 → f.packet.data=ourData) := by
  obtain ⟨hsync,hlen⟩ := h.sync
  have hlong := h.length
  have hseq := h.senderSeq
  obtain he | ⟨hn,hseq0,hnum⟩ | ha := hf
  · obtain ⟨hy,-⟩ | ⟨hy,-⟩ := hp <;> rw [he] at hy <;> cases hy
  · obtain ⟨hy,-⟩ | ⟨-,hs⟩ := hp
    · rw [hn] at hy
      cases hy
    · rw [hseq0] at hs
      have hz : (l.sender.seq+1) % 64=0 := by omega
      refine ⟨by omega,fun h0 => ?_⟩
      omega
  · obtain ⟨-,hs⟩ | ⟨hy,-⟩ := hp
    · have ht := ha.taken
      have hfs := ha.seq
      have hmod : f.number % 64=l.acked % 64 := by omega
      refine ⟨by omega,fun h0 => ha.data (by omega)⟩
    · rw [ha.type] at hy
      cases hy

theorem prefixesOf_initData : prefixesOf initData=(agreed,0x59,0x20) := by decide

end

end Link

namespace Sender

variable {s : Sender} {data : List Nat}

theorem accept_seq : (s.accept data).seq=(s.seq+1) % 64 := by
  unfold accept negotiate
  dsimp only
  split
  · split <;> rfl
  all_goals rfl

theorem accept_bytes : (s.accept data).bytes=s.bytes := by
  unfold accept negotiate
  dsimp only
  split
  · split <;> rfl
  all_goals rfl

theorem accept_init (h : s.phase=.init) : s.accept Link.ourData =
    { s with seq := (s.seq+1) % 64,tries := 0,maxl := 94,npad := 0,padc := 0,eol := 13,qbin := true,
             phase := .header } := by
  unfold accept
  dsimp only
  rw [h]
  rfl

theorem accept_header (h : s.phase=.header) : s.accept data =
    { s with seq := (s.seq+1) % 64,tries := 0,rest := s.bytes,
             phase := if s.bytes=[] then .eof else .data } := by
  unfold accept
  dsimp only
  rw [h]

theorem accept_data (h : s.phase=.data) : s.accept data =
    { s with seq := (s.seq+1) % 64,tries := 0,rest := s.chunk.2,
             phase := if s.chunk.2=[] then .eof else .data } := by
  unfold accept
  dsimp only
  rw [h]
  rfl

theorem accept_eof (h : s.phase=.eof) : s.accept data =
    { s with seq := (s.seq+1) % 64,tries := 0,phase := .brk } := by
  unfold accept
  dsimp only
  rw [h]

theorem accept_brk (h : s.phase=.brk) : s.accept data =
    { s with seq := (s.seq+1) % 64,tries := 0,phase := .done } := by
  unfold accept
  dsimp only
  rw [h]

end Sender

namespace Link

section
variable {bytes : List UInt8} {l : Link}

theorem take_record {c : Contents} {lf : Bool} {p : Packet} (h : p.type = 'B') : c.take lf p=c := by
  unfold Contents.take
  rw [h]
  rfl

/-- What the packets acknowledged come to with the one that is acknowledged now -/
theorem Inv.progresses (h : Inv bytes l) {data : List Nat} (hd : l.acked=0 → data=ourData)
    (hc : l.script[l.acked]? = some l.sender.packet) (ps : List Packet)
    (hps : ps.take (l.acked+1)=l.script.take (l.acked+1)) (hlen : (l.sender.accept data).phase=.done → ps=l.script) :
    { l with sender := l.sender.accept data,acked := l.acked+1,script := ps }.Progress bytes := by
  have hprog := h.progress
  have hlong := h.length
  have hfirst := h.first
  have hsame := h.same
  obtain ⟨hlt,-⟩ := List.getElem?_eq_some_iff.mp hc
  have hnext (h0 : 0<l.acked) : replay l.receiver.lf (ps.take (l.acked+1)) =
      (replay l.receiver.lf (l.script.take l.acked)).take l.receiver.lf l.sender.packet := by
    rw [hps]
    exact replay_take h0 hc
  unfold Progress at hprog ⊢
  dsimp only at hprog ⊢
  cases hphase : l.sender.phase with
  | init =>
    rw [hphase] at hprog
    have hrep : replay l.receiver.lf (ps.take (l.acked+1))=⟨agreed,[],[],[]⟩ := by
      have hone : l.script.take (0+1)=[⟨0,'S',initData⟩] := by
        rw [take_add_one,hfirst,take_zero]
        rfl
      rw [hps,show l.acked=0 from hprog,hone,replay_cons,prefixesOf_initData]
      rfl
    rw [hd hprog,Sender.accept_init hphase,hrep]
    exact ⟨Nat.succ_pos _,⟨rfl,rfl⟩,rfl⟩
  | header =>
    rw [hphase] at hprog
    obtain ⟨h0,⟨hpre,hq⟩,hfiles⟩ := hprog
    have hpacket : l.sender.packet.type = 'F' := by
      unfold Sender.packet
      rw [hphase]
    have hrep : (replay l.receiver.lf (ps.take (l.acked+1))).prefixes=agreed ∧
        (replay l.receiver.lf (ps.take (l.acked+1))).files=[] ∧
        (replay l.receiver.lf (ps.take (l.acked+1))).chunks=[] := by
      rw [hnext h0]
      unfold Contents.take
      rw [if_pos hpacket]
      exact ⟨hpre,hfiles,rfl⟩
    rw [Sender.accept_header hphase]
    dsimp only
    by_cases hb : l.sender.bytes=[]
    · rw [if_pos hb]
      refine ⟨Nat.succ_pos _,hrep.2.1,?_⟩
      rw [hrep.2.2,← hsame,hb,map_nil]
    · rw [if_neg hb]
      refine ⟨Nat.succ_pos _,⟨hrep.1,hq⟩,hrep.2.1,?_⟩
      rw [hrep.2.2,nil_append,hsame]
  | data =>
    rw [hphase] at hprog
    obtain ⟨h0,⟨hpre,hq⟩,hfiles,hchunks⟩ := hprog
    have hpacket : l.sender.packet.type = 'D' ∧ l.sender.packet.data=l.sender.chunk.1 := by
      unfold Sender.packet
      rw [hphase]
      exact ⟨rfl,rfl⟩
    obtain ⟨cs,hcs,hcode⟩ := fill_spec l.sender.qbin (l.sender.maxl-3).toNat 0 l.sender.rest
    have hdecode : decode agreed l.sender.chunk.1=cs.map UInt8.toNat := by
      rw [show l.sender.chunk.1=_ from hcode,hq]
      exact decode_encode (bytes_lt cs)
    have hrep : (replay l.receiver.lf (ps.take (l.acked+1))).prefixes=agreed ∧
        (replay l.receiver.lf (ps.take (l.acked+1))).files=[] ∧
        (replay l.receiver.lf (ps.take (l.acked+1))).chunks =
          (replay l.receiver.lf (l.script.take l.acked)).chunks++cs.map UInt8.toNat := by
      rw [hnext h0]
      unfold Contents.take
      rw [if_neg (by rw [hpacket.1]; decide),if_pos hpacket.1]
      refine ⟨hpre,hfiles,?_⟩
      dsimp only
      rw [hpre,hpacket.2,hdecode]
    have hsplit : (replay l.receiver.lf (ps.take (l.acked+1))).chunks++l.sender.chunk.2.map UInt8.toNat =
        bytes.map UInt8.toNat := by
      rw [hrep.2.2,List.append_assoc,← map_append,← hchunks]
      exact congrArg (fun bs => _++List.map UInt8.toNat bs) hcs.symm
    rw [Sender.accept_data hphase]
    dsimp only
    by_cases hb : l.sender.chunk.2=[]
    · rw [if_pos hb]
      rw [hb,map_nil,append_nil] at hsplit
      exact ⟨Nat.succ_pos _,hrep.2.1,hsplit⟩
    · rw [if_neg hb]
      exact ⟨Nat.succ_pos _,⟨hrep.1,hq⟩,hrep.2.1,hsplit⟩
  | eof =>
    rw [hphase] at hprog
    obtain ⟨h0,hfiles,hchunks⟩ := hprog
    have hpacket : l.sender.packet.type = 'Z' ∧ l.sender.packet.data=[] := by
      unfold Sender.packet
      rw [hphase]
      exact ⟨rfl,rfl⟩
    rw [Sender.accept_eof hphase,hnext h0]
    refine ⟨Nat.succ_pos _,(replay l.receiver.lf (l.script.take l.acked)).name,?_⟩
    unfold Contents.take
    rw [if_neg (by rw [hpacket.1]; decide),if_neg (by rw [hpacket.1]; decide),if_pos hpacket.1,
      if_neg (by rw [hpacket.2]; exact fun hx => by cases hx)]
    dsimp only
    rw [hfiles,hchunks,map_ofNat_toNat,nil_append]
  | brk =>
    rw [hphase] at hprog
    obtain ⟨h0,name,hfiles⟩ := hprog
    have hpacket : l.sender.packet.type = 'B' := by
      unfold Sender.packet
      rw [hphase]
    have hdone : (l.sender.accept data).phase=.done := by rw [Sender.accept_brk hphase]
    have hl : ps.length=l.acked+1 := by
      rw [hlen hdone]
      omega
    rw [Sender.accept_brk hphase]
    refine ⟨hl,l.acked,name,rfl,?_,h0,?_⟩
    · rw [hlen hdone,hc,map_some,hpacket]
    · rw [hnext h0,take_record hpacket]
      exact hfiles
  | done =>
    rw [hphase] at hprog
    obtain ⟨hl,-⟩ := hprog
    omega
  | failed =>
    have hp : (l.sender.accept data).phase=.failed := by
      unfold Sender.accept
      dsimp only
      rw [hphase]
    rw [hp]
    trivial

theorem Inv.acknowledged (h : Inv bytes l) {data : List Nat} (hd : l.acked=0 → data=ourData)
    (hc : l.script[l.acked]? = some l.sender.packet)
    (hsync : l.acked+1≤l.taken ∨ (l.acked+1=64 ∧ l.taken=63)) : Inv bytes (l.acknowledged data) := by
  have hseq : (l.sender.accept data).seq=(l.acked+1) % 64 := by
    have hs : (l.sender.accept data).seq=(l.sender.seq+1) % 64 := Sender.accept_seq
    rw [hs,h.senderSeq]
    omega
  have hbytes : (l.sender.accept data).bytes=bytes := Sender.accept_bytes.trans h.same
  obtain ⟨hlt,-⟩ := List.getElem?_eq_some_iff.mp hc
  have hlen := h.length
  have hfull : l.script.take (l.acked+1)=l.script := take_of_length_le hlen
  unfold Link.acknowledged
  dsimp only
  split
  · rename_i hdone
    exact { h with
      same := hbytes
      senderSeq := hseq
      length := Nat.le_succ_of_le hlen
      current := .inl hdone
      sync := ⟨hsync,h.sync.2⟩
      progress := h.progresses hd hc _ rfl fun _ => rfl }
  · split
    · rename_i hfailed
      have hi : Inv bytes { l with sender := l.sender.accept data,acked := l.acked+1 } := { h with
          same := hbytes
          senderSeq := hseq
          length := Nat.le_succ_of_le hlen
          current := .inr (.inl hfailed)
          sync := ⟨hsync,h.sync.2⟩
          progress := h.progresses hd hc _ rfl fun _ => rfl }
      refine hi.sends (.inl ?_)
      show (l.sender.accept data).packet.type = 'E'
      unfold Sender.packet
      rw [hfailed]
    · rename_i hdone hfailed
      have hle : l.script.length=l.acked+1 := Nat.le_antisymm hlen hlt
      have hget : (l.script++[(l.sender.accept data).packet])[l.acked+1]? =
          some (l.sender.accept data).packet := by
        rw [← hle,List.getElem?_concat_length]
      have hold {i : Nat} {p : Packet} (hp : l.script[i]? = some p) :
          (l.script++[(l.sender.accept data).packet])[i]? = some p := by
        obtain ⟨hi,-⟩ := List.getElem?_eq_some_iff.mp hp
        rw [List.getElem?_append_left hi,hp]
      have htake {n : Nat} (hn : n≤l.script.length) :
          (l.script++[(l.sender.accept data).packet]).take n=l.script.take n :=
        take_append_of_le_length hn
      have hpseq : (l.sender.accept data).packet.seq=((l.acked+1) % 64 : Nat) := by
        rw [← hseq]
        unfold Sender.packet
        split <;> rfl
      constructor
      case same => exact hbytes
      case senderSeq => exact hseq
      case receiverSeq => exact h.receiverSeq
      case first => exact hold h.first
      case length =>
        have hl : (l.script++[(l.sender.accept data).packet]).length=l.acked+1+1 := by
          rw [length_append,hle]
          rfl
        exact Nat.le_of_eq hl
      case current => exact .inr (.inr hget)
      case sent =>
        intro f hf
        cases hf with
        | head => exact .inr ⟨hget,hpseq⟩
        | tail _ hf =>
          obtain he | ⟨hp,hs⟩ := h.sent f hf
          · exact .inl he
          · exact .inr ⟨hold hp,hs⟩
      case sync =>
        refine ⟨hsync,?_⟩
        show l.taken≤(l.script++[_]).length
        rw [length_append]
        exact Nat.le_add_right_of_le h.sync.2
      case waiting => exact h.waiting
      case running => exact h.running
      case answered => exact h.answered
      case contents =>
        show l.receiver.contents=replay _ ((l.script++[_]).take l.taken)
        rw [htake h.sync.2]
        exact h.contents
      case progress =>
        exact h.progresses hd hc _ (htake (Nat.le_of_eq hle.symm)) fun hx => absurd hx hdone

variable {p : Option Packet}

theorem Inv.answer (h : Inv bytes l) (hd : l.sender.phase≠.done) (hf : l.sender.phase≠.failed) (hp : ∀ q∈p,∃ f∈l.answered,f.packet=q ∧ l.acked≤f.number+63) :
    Inv bytes (l.answer p) := by
  unfold Link.answer
  cases p with
  | none => exact h.retry hd hf
  | some p =>
    obtain ⟨f,hmem,rfl,hold⟩ := hp p rfl
    dsimp only
    split
    · exact h.senderStops
    · split
      · rename_i hcounts
        obtain ⟨hsync,hdata⟩ := h.counts (h.answered f hmem) hold hcounts
        exact h.acknowledged hdata ((h.current.resolve_left hd).resolve_left hf) hsync
      · split
        · exact h.retry hd hf
        · exact h

theorem Inv.resend (h : Inv bytes l) (hr : l.receiver.phase=.running) : Inv bytes l.resend := by
  obtain ⟨f,hlast,hf⟩ := h.running hr
  unfold Link.resend
  rw [hlast]
  exact h.answers (.inr (.inr hf))

theorem Inv.await (h : Inv bytes l) (hr : l.receiver.phase=.waiting)
    (hp : ∀ q∈p,∃ f∈l.sent,f.packet=q ∧ l.taken≤f.number+63) : Inv bytes (l.await p) := by
  have h0 := h.waiting hr
  have hask : Inv bytes { l with answered := l.receiver.frame 0 0 'N' []::l.answered } :=
    h.answers (.inr (.inl ⟨rfl,rfl,rfl⟩))
  unfold Link.await
  cases p with
  | none => exact hask
  | some p =>
    obtain ⟨f,hmem,rfl,-⟩ := hp p rfl
    dsimp only
    split
    · rename_i hS
      obtain hE | ⟨hscript,hseq⟩ := h.sent f hmem
      · rw [hS] at hE
        cases hE
      · obtain ⟨hlt,-⟩ := List.getElem?_eq_some_iff.mp hscript
        obtain ⟨hsync,hlen⟩ := h.sync
        have hlong := h.length
        have hnum : f.number=0 := by omega
        have hpacket : f.packet=⟨0,'S',initData⟩ := by
          have hfirst := h.first
          rw [← hnum,hscript] at hfirst
          exact some.inj hfirst
        have hours : (l.receiver.negotiate initData).ours=ourData := rfl
        have hack : ((l.receiver.negotiate initData).frame l.taken 0 'Y'
            (l.receiver.negotiate initData).ours).Acks (l.taken+1) := by
          refine ⟨rfl,Nat.lt_succ_self _,?_,fun _ => hours⟩
          rw [h0]
          rfl
        rw [hpacket]
        constructor
        case same => exact h.same
        case senderSeq => exact h.senderSeq
        case receiverSeq =>
          intro _
          show (0+1) % 64=(l.taken+1) % 64
          rw [h0]
        case first => exact h.first
        case length => exact h.length
        case current => exact h.current
        case sent => exact h.sent
        case sync =>
          refine ⟨.inl ?_,?_⟩
          · show l.acked≤l.taken+1
            omega
          · show l.taken+1≤l.script.length
            omega
        case waiting => exact fun hx => by cases hx
        case running => exact fun _ => ⟨_,rfl,hack⟩
        case answered =>
          intro g hg
          cases hg with
          | head => exact .inr (.inr hack)
          | tail _ hg => exact (h.answered g hg).mono (Nat.le_succ _)
        case contents =>
          have hone : l.script.take (0+1)=[⟨0,'S',initData⟩] := by
            rw [take_add_one,h.first,take_zero]
            rfl
          have hcontents := h.contents
          show ({ l.receiver.contents with prefixes := (prefixesOf initData).1 } : Contents) =
            replay l.receiver.lf (l.script.take (l.taken+1))
          rw [hcontents,h0,hone,take_zero,replay_cons]
          rfl
        case progress => exact h.progress
    · split
      · exact h.receiverStops
      · exact hask

theorem Inv.take (h : Inv bytes l) (hr : l.receiver.phase=.running) {p : Packet} (h0 : 0<l.taken)
    (hp : l.script[l.taken]? = some p) : Inv bytes (l.take p) := by
  obtain ⟨hlt,-⟩ := List.getElem?_eq_some_iff.mp hp
  have hseq := h.receiverSeq h0
  obtain ⟨hsync,hlen⟩ := h.sync
  have hack : (l.receiver.frame l.taken l.receiver.seq 'Y' (l.receiver.replyData p)).Acks (l.taken+1) := by
    refine ⟨rfl,Nat.lt_succ_self _,?_,fun hx => absurd hx (Nat.pos_iff_ne_zero.mp h0)⟩
    show (l.receiver.seq : Int)=_
    rw [hseq]
    rfl
  constructor
  case same => exact h.same
  case senderSeq => exact h.senderSeq
  case receiverSeq =>
    intro _
    show (l.receiver.seq+1) % 64=(l.taken+1) % 64
    omega
  case first => exact h.first
  case length => exact h.length
  case current => exact h.current
  case sent => exact h.sent
  case sync =>
    refine ⟨.inl ?_,hlt⟩
    show l.acked≤l.taken+1
    omega
  case waiting =>
    intro hx
    have hno : (if p.type = 'B' then ReceivePhase.done else l.receiver.phase)≠.waiting := by
      rw [hr]
      split <;> exact fun hy => by cases hy
    exact absurd hx hno
  case running => exact fun _ => ⟨_,rfl,hack⟩
  case answered =>
    intro g hg
    cases hg with
    | head => exact .inr (.inr hack)
    | tail _ hg => exact (h.answered g hg).mono (Nat.le_succ _)
  case contents =>
    show l.receiver.contents.take l.receiver.lf p=replay l.receiver.lf (l.script.take (l.taken+1))
    rw [replay_take h0 hp,h.contents]
  case progress => exact h.progress

theorem Inv.receive (h : Inv bytes l) (hr : l.receiver.phase=.running)
    (hp : ∀ q∈p,∃ f∈l.sent,f.packet=q ∧ l.taken≤f.number+63) : Inv bytes (l.receive p) := by
  have htries (n : Nat) : Inv bytes { l with receiver := { l.receiver with tries := n } } := { h with }
  unfold Link.receive
  cases p with
  | none =>
    dsimp only
    split
    · exact h.receiverStops
    · exact (htries _).resend hr
  | some p =>
    obtain ⟨f,hmem,rfl,hold⟩ := hp p rfl
    dsimp only
    split
    · exact (htries 0).receiverStops
    · rename_i hE
      split
      · exact (htries 0).resend hr
      · split
        · exact htries 0
        · rename_i hprev hdue
          obtain ⟨hscript,hseq⟩ := (h.sent f hmem).resolve_left hE
          obtain ⟨hlt,-⟩ := List.getElem?_eq_some_iff.mp hscript
          obtain ⟨g,-,hg⟩ := h.running hr
          have h0 : 0<l.taken := Nat.lt_of_le_of_lt (Nat.zero_le _) hg.taken
          have hrseq := h.receiverSeq h0
          obtain ⟨hsync,hlen⟩ := h.sync
          have hlong := h.length
          have hmod : f.number % 64=l.taken % 64 := by
            rw [not_ne_iff] at hdue
            omega
          have hnum : f.number=l.taken := by omega
          rw [hnum] at hscript
          exact (htries 0).take hr h0 hscript

theorem Inv.step (h : Inv bytes l) {e : Event} (hd : l.Detected e) {t : Link} (hs : l.step e=some t) :
    Inv bytes t := by
  cases e with
  | sender chars =>
    simp only [Link.step] at hs
    split at hs
    · cases hs
    · rename_i hph
      cases hs
      exact h.answer (fun hx => hph (.inl hx)) (fun hx => hph (.inr hx)) hd
  | senderCancel =>
    simp only [Link.step] at hs
    split at hs
    · cases hs
    · cases hs
      exact h.senderFails
  | receiver chars =>
    simp only [Link.step] at hs
    split at hs
    · rename_i hw
      cases hs
      exact h.await hw hd
    · rename_i hr
      cases hs
      exact h.receive hr hd
    · cases hs
    · cases hs
  | receiverCancel =>
    have hstop : Inv bytes { l with receiver := { l.receiver with phase := .failed },
                                    answered := l.receiver.frame l.taken l.receiver.seq 'E' cancelled
                                      :: l.answered } :=
      h.receiverStops.answers (.inl rfl)
    simp only [Link.step] at hs
    split at hs
    · cases hs
      exact hstop
    · cases hs
      exact hstop
    · cases hs
    · cases hs

theorem Inv.start (name : List Nat) (data : List UInt8) (text : Bool) (startTimeoutMs : Nat) (lf : Bool) :
    Inv (if text then kermitText data else data) (start name data text startTimeoutMs lf) := by
  constructor
  case same => rfl
  case senderSeq => rfl
  case receiverSeq => exact fun hx => absurd hx (Nat.lt_irrefl 0)
  case first => rfl
  case length => exact Nat.le_refl _
  case current => exact .inr (.inr rfl)
  case sent =>
    intro f hf
    obtain rfl := mem_singleton.mp hf
    exact .inr ⟨rfl,rfl⟩
  case sync => exact ⟨.inl (Nat.le_refl _),Nat.zero_le _⟩
  case waiting => exact fun _ => rfl
  case running => exact fun hx => by cases hx
  case answered => exact fun f hf => by cases hf
  case contents => rfl
  case progress => rfl

theorem Inv.right (h : Inv bytes l) : l.Right bytes := by
  constructor
  case once => exact h.contents
  case closed =>
    rw [h.contents]
    exact replay_files _ _
  case failed =>
    intro hf
    unfold Link.result
    rw [hf]
    rfl
  case exact =>
    intro hdone
    have hprog := h.progress
    unfold Progress at hprog
    rw [hdone] at hprog
    obtain ⟨hlen,n,name,hn,hB,h0,hfiles⟩ := hprog
    refine ⟨name,?_⟩
    rw [h.contents]
    obtain ⟨hsync | ⟨ha,ht⟩,hle⟩ := h.sync
    · rw [show l.taken=l.acked from Nat.le_antisymm (hlen ▸ hle) hsync]
      exact hfiles
    · obtain ⟨p,hp,hpB⟩ := map_eq_some_iff.mp hB
      rw [hn,replay_take h0 hp,take_record hpB] at hfiles
      rw [show l.taken=n by omega]
      exact hfiles

/-- Whatever the line does to packets, it delivers one file, once and whole. -/
theorem exactly_once {name : List Nat} {data : List UInt8} {text : Bool} {startTimeoutMs : Nat} {lf : Bool}
    {es : List Event} (h : Run (Guarded Detected step) (start name data text startTimeoutMs lf) es l) :
    l.Right (if text then kermitText data else data) := by
  refine (h.invariant (P := Inv _) (fun a e b ha hs => ?_) (Inv.start name data text startTimeoutMs lf)).right
  exact ha.step hs.1 hs.2

end

instance (l : Link) : (e : Event) → Decidable (l.Detected e)
  | .sender chars => inferInstanceAs (Decidable (∀ p∈kermitReceive chars,∃ _∈l.answered,_ ∧ _))
  | .receiver chars => inferInstanceAs (Decidable (∀ p∈kermitReceive chars,∃ _∈l.sent,_ ∧ _))
  | .senderCancel => .isTrue trivial
  | .receiverCancel => .isTrue trivial

def oneByte : List Event :=
  [.receiver (kermitPacket 0 'S' initData 13 0 0),.sender (kermitPacket 0 'Y' ourData 13 0 0),
    .receiver (kermitPacket 1 'F' [0x41] 13 0 0),.sender (kermitPacket 1 'Y' [] 13 0 0),
    .receiver (kermitPacket 2 'D' [0x26,0x23,0x26] 13 0 0),.sender [],
    .receiver (kermitPacket 2 'D' [0x26,0x23,0x26] 13 0 0),.sender (kermitPacket 2 'Y' [] 13 0 0),
    .receiver (kermitPacket 3 'Z' [] 13 0 0),.sender (kermitPacket 3 'Y' [] 13 0 0),
    .receiver (kermitPacket 4 'B' [] 13 0 0),.sender (kermitPacket 4 'Y' [] 13 0 0)]

theorem exactly_once_oneByte : ∃ l : Link,l.Right [0xa6] ∧ l.sender.phase=.done ∧
    l.receiver.contents.files=[⟨[0x41],[0xa6]⟩] := by
  obtain ⟨l,hl,hp⟩ := run_of_foldlM Detected step
    (fun l => decide (l.sender.phase=.done ∧ l.receiver.contents.files=[⟨[0x41],[0xa6]⟩])) oneByte
    (start [0x41] [0xa6] false 5000 true) (by decide +kernel)
  exact ⟨l,exactly_once hl,of_decide_eq_true hp⟩

end Link

end QUniLator.Web.Kermit
