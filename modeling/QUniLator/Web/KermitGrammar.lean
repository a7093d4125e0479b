import QUniLator.Web.KermitExactlyOnce

namespace QUniLator.Web.Kermit

open List Prefixes

theorem prefixesOf_settled (sp : List Nat) : (prefixesOf sp).1.Settled := by
  have hflips : ∀ c<127,(33 ≤ c ∧ c≤62) ∨ (96 ≤ c ∧ c≤126) → flips c=false := by decide
  have hqbin : flips (prefixesOf sp).1.qbin=false := by
    simp only [prefixesOf]
    split_ifs with h1 h2
    · decide
    · exact hflips _ (by omega) h2
    · decide
  have hsettle (qctl qbin c : Nat) : (if c≠0x20 ∧ c≠qctl ∧ c≠qbin then (c,c) else (0,0x20)).1=0 ∨
      (if c≠0x20 ∧ c≠qctl ∧ c≠qbin then (c,c) else (0,0x20)).1≠qctl ∧
      (if c≠0x20 ∧ c≠qctl ∧ c≠qbin then (c,c) else (0,0x20)).1≠qbin := by
    split_ifs with h
    · exact .inr h.2
    · exact .inl rfl
  have hrept : (prefixesOf sp).1.rept=0 ∨
      (prefixesOf sp).1.rept≠(prefixesOf sp).1.qctl ∧ (prefixesOf sp).1.rept≠(prefixesOf sp).1.qbin := by
    unfold prefixesOf
    cases sp[8]? with
    | none => exact .inl rfl
    | some c => exact hsettle _ _ c
  exact ⟨hqbin,fun h => hrept.resolve_left h⟩

/-- The loop of `sendKermit` over the bytes, by at most `fuel` packets -/
def dataPackets (room : Nat) : Nat → List UInt8 → List (List Nat)
  | 0,_ | _,[] => []
  | fuel+1,b::bs =>
    (fill true room 0 (b::bs)).1::dataPackets room fuel (fill true room 0 (b::bs)).2

theorem fill_length {room len : Nat} (h : len ≤ room) (bs : List UInt8) :
    len+(fill true room len bs).1.length ≤ room := by
  induction bs generalizing len with
  | nil => exact h
  | cons b bs ih =>
    rw [fill]
    split
    · exact h
    · have := ih (show len+(kermitEncode b.toNat true).length ≤ room by omega)
      rw [length_append]
      omega

theorem fill_shorter {room : Nat} (h : 3 ≤ room) (b : UInt8) (bs : List UInt8) :
    (fill true room 0 (b::bs)).2.length≤bs.length := by
  have hle := (kermitEncode_chars b.toNat b.toNat_lt).1
  obtain ⟨cs,hcs,-⟩ := fill_spec true room (0+(kermitEncode b.toNat true).length) bs
  have hsum := congrArg List.length hcs
  rw [length_append] at hsum
  rw [fill,if_neg (by omega)]
  dsimp only
  omega

/-- A packet is within the room and stands for the next bytes, one at least, each whole and in printable characters;
and all of them stand for all bytes. -/
theorem dataPackets_spec {room fuel : Nat} (hr : 3 ≤ room) {bs : List UInt8} (hf : bs.length≤fuel) :
    ∃ parts : List (List UInt8),parts.flatten=bs ∧ (∀ part∈parts,part≠[]) ∧
      dataPackets room fuel bs=parts.map (fun part => (part.map UInt8.toNat).flatMap (kermitEncode · true)) ∧
      ∀ p∈dataPackets room fuel bs,p.length ≤ room ∧ ∀ c∈p,0x20 ≤ c ∧ c<0x7f := by
  induction fuel generalizing bs with
  | zero =>
    rw [length_eq_zero_iff.mp (Nat.le_zero.mp hf)]
    exact ⟨[],rfl,by simp,rfl,by simp [dataPackets]⟩
  | succ fuel ih =>
    cases bs with
    | nil => exact ⟨[],rfl,by simp,rfl,by simp [dataPackets]⟩
    | cons b bs =>
      have hshort := fill_shorter hr b bs
      have hlen := fill_length (Nat.zero_le room) (b::bs)
      obtain ⟨part,hbs,hpart⟩ := fill_spec true room 0 (b::bs)
      obtain ⟨parts,hflat,hne,hpackets,hall⟩ := ih (Nat.le_trans hshort (Nat.le_of_succ_le_succ hf))
      refine ⟨part::parts,?_,?_,?_,?_⟩
      · rw [flatten_cons,hflat,← hbs]
      · rw [forall_mem_cons]
        refine ⟨?_,hne⟩
        rintro rfl
        rw [nil_append] at hbs
        rw [← hbs] at hshort
        exact absurd hshort (Nat.not_succ_le_self _)
      · rw [dataPackets,hpart,hpackets]
        rfl
      · rw [dataPackets,forall_mem_cons]
        refine ⟨⟨by omega,fun c hc => ?_⟩,hall⟩
        rw [hpart] at hc
        obtain ⟨x,hx,hc⟩ := mem_flatMap.mp hc
        exact (kermitEncode_chars x (bytes_lt part x hx)).2.2 c hc

theorem textToLf_textFrom (b : UInt8) (bs : List UInt8) : textToLf (b::textFrom (some b) bs)=textToLf (b::bs) := by
  induction bs generalizing b with
  | nil => rfl
  | cons c bs ih =>
    rw [textFrom]
    split_ifs with h
    · obtain ⟨rfl,hb⟩ := h
      have hb : b≠0x0d := fun hx => hb (congrArg some hx)
      rw [textToLf,if_neg (fun hx => hb hx.1),textToLf,if_pos ⟨rfl,rfl⟩,textToLf,if_neg (fun hx => hb hx.1),ih]
    · rw [textToLf,textToLf,ih]

theorem textToLf_kermitText (bs : List UInt8) : textToLf (kermitText bs)=textToLf bs := by
  cases bs with
  | nil => rfl
  | cons b bs =>
    rw [kermitText,textFrom]
    split_ifs with h
    · rw [textToLf,if_pos ⟨rfl,h.1⟩,textToLf_textFrom]
    · exact textToLf_textFrom b bs

theorem ctl_ne (c : Nat) : ctl c≠c := by
  intro h
  have h := congrArg (c ^^^ ·) h
  simp [ctl,← Nat.xor_assoc] at h

theorem Prefixes.Settled.fit {q : Prefixes} (hs : q.Settled) (h : ∀ xs : List Item,
    (∀ x∈xs,x.formed q) → decode q (xs.flatMap (·.chars q))=xs.flatMap Item.value) : q.Fit := by
  have hone (x : Item) (hx : x.formed q=true) : decode q (x.chars q)=x.value := by
    have := h [x] fun y hy => by rw [mem_singleton.mp hy]; exact hx
    simpa using this
  have hrept (c d : Nat) : takeRept q c [d]=(1,c,[d]) := rfl
  have hqbin : q.qbin≠0 → q.qbin≠q.qctl := by
    intro h0 heq
    have hx := hone ⟨none,false,.control 0x41⟩ (by simp [Item.formed,Quoted.formed])
    have hb : takeBit8 q q.qctl [0x41]=(0x80,0x41,[]) := if_pos ⟨h0,heq.symm⟩
    have hd : decode q [q.qctl,0x41]=[0x41 ||| 0x80] := by
      rw [decode,length_cons,decodeFrom,hrept]
      dsimp only
      rw [hb]
      rfl
    exact absurd (hd.symm.trans hx) (by decide)
  -- a prefix that flips is read as a control character behind the control prefix
  have hquoted (c : Nat) (hc : q.active c=true) : flips c=false := by
    rw [Bool.eq_false_iff]
    intro hf
    have hx := hone ⟨none,false,.quoted c⟩ (by simp [Item.formed,Quoted.formed,hc])
    have hd : decode q [q.qctl,c]=[ctl c ||| 0] := by
      rw [decode,length_cons,decodeFrom,hrept]
      dsimp only
      rw [takeBit8_plain fun h0 => (hqbin h0).symm]
      dsimp only
      rw [takeCtl_quoted,if_pos hf]
      rfl
    have heq := List.cons.inj (hd.symm.trans hx)
    rw [Nat.or_zero] at heq
    exact ctl_ne c (heq.1.trans (Nat.or_zero c))
  refine ⟨hqbin,hquoted _ (by simp [active]),?_⟩
  by_cases h0 : q.rept=0
  · rw [h0]
    rfl
  · exact hquoted _ (by simp [active,h0])

theorem negotiate_maxl (s : Sender) (hs : s.maxl=80) (p : List Nat) :
    20≤(s.negotiate p).maxl ∧ (s.negotiate p).maxl≤94 := by
  unfold Sender.negotiate
  dsimp only
  cases p[0]? with
  | none =>
    dsimp only
    omega
  | some c =>
    dsimp only
    omega

/-- Kermit's encoding. With what `sendKermit` and `receiveKermit` settle on, the data packets keep to any length
settled, stand each for whole bytes in printable characters, and are read back. Whatever prefixes a sender names,
every data field is read to what it denotes if and only if they are fit. -/
theorem kermit_data_right (bs : List UInt8) (sp : List Nat) : (prefixesOf initData).1=agreed ∧
    (∀ (s : Sender) (r : Receiver),(s.negotiate (r.negotiate initData).ours).qbin) ∧
    (∀ (s : Sender) (p : List Nat),s.maxl=80 →
      let room := ((s.negotiate p).maxl-3).toNat
      (room+3 : Int)=(s.negotiate p).maxl ∧
      ∃ parts : List (List UInt8),parts.flatten=bs ∧ (∀ part∈parts,part≠[]) ∧
        dataPackets room bs.length bs =
          parts.map (fun part => (part.map UInt8.toNat).flatMap (kermitEncode · true)) ∧
        (∀ p∈dataPackets room bs.length bs,p.length ≤ room ∧ ∀ c∈p,0x20 ≤ c ∧ c<0x7f) ∧
        (dataPackets room bs.length bs).flatMap (decode agreed)=bs.map UInt8.toNat) ∧
    ((∀ xs : List Item,(∀ x∈xs,x.formed (prefixesOf sp).1) →
        decode (prefixesOf sp).1 (xs.flatMap (·.chars (prefixesOf sp).1))=xs.flatMap Item.value) ↔
      (prefixesOf sp).1.Fit) ∧
    textToLf (kermitText bs)=textToLf bs := by
  refine ⟨rfl,fun s r => rfl,fun s p hs => ?_,?_,textToLf_kermitText bs⟩
  · obtain ⟨hlo,hhi⟩ := negotiate_maxl s hs p
    refine ⟨by omega,?_⟩
    obtain ⟨parts,hflat,hne,hpackets,hall⟩ :=
      dataPackets_spec (show 3≤((s.negotiate p).maxl-3).toNat by omega) (Nat.le_refl bs.length)
    refine ⟨parts,hflat,hne,hpackets,hall,?_⟩
    rw [hpackets,flatMap_map,flatMap_congr fun part _ => decode_encode (bytes_lt part),
      ← hflat,map_flatten,flatMap_def]
  · exact ⟨(prefixesOf_settled sp).fit,fun hf xs hx => decode_items hf (prefixesOf_settled sp) hx⟩

/-- A sender may name `A` as its control prefix; two of them, for one of it, are read as control-A. -/
theorem quoted_prefix_lost : ¬∀ (sp : List Nat) (xs : List Item), (∀ x∈xs,x.formed (prefixesOf sp).1) →
    decode (prefixesOf sp).1 (xs.flatMap (·.chars (prefixesOf sp).1))=xs.flatMap Item.value := by
  intro h
  have := h [0x7e,0x2a,0x20,0x40,0x2d,0x41] [⟨none,false,.quoted 0x41⟩] (by decide)
  revert this
  decide

end QUniLator.Web.Kermit
