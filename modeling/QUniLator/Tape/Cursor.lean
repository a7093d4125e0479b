import QUniLator.Framework.Cursor
import QUniLator.Framework.Run
import QUniLator.Tape.Layout

/-! The tape is a sequence of objects with a cursor. -/

namespace QUniLator.Tape

open List File

theorem gaps_split (ys : List Item) : ∃ k zs,ys=gaps k++zs ∧ ∀ z,zs.head? = some z → z≠.gap := by
  induction ys with
  | nil => exact ⟨0,[],rfl,by simp⟩
  | cons y ys ih =>
    cases y with
    | gap =>
      obtain ⟨k,zs,rfl,hz⟩ := ih
      exact ⟨k+1,zs,rfl,hz⟩
    | object o pad =>
      exact ⟨0,.object o pad::ys,rfl,by simp⟩

theorem gaps_reverse (k : Nat) : (gaps k).reverse=gaps k := reverse_replicate

theorem gaps_split_last (xs : List Item) : ∃ zs k,xs=zs++gaps k ∧ ∀ z,zs.getLast? = some z → z≠.gap := by
  obtain ⟨k,zs,h,hz⟩ := gaps_split xs.reverse
  refine ⟨zs.reverse,k,?_,?_⟩
  · rw [← reverse_reverse xs,h,reverse_append,gaps_reverse]
  · simpa [List.getLast?_reverse] using hz

section
variable {t : Tape} (hs : t.size=t.f.size)
include hs

theorem scanForward_gaps (k fuel : Nat) (as cs : List UInt8) (hf : t.f=.ofBytes (as++(bytes (gaps k)++cs))) :
    t.scanForward (k+fuel) as.length=t.scanForward fuel (as.length+4*k) := by
  induction k generalizing as with
  | zero => simp
  | succ k ih =>
    have hg : bytes (gaps (k+1))=lePut 4 mtrGap++bytes (gaps k) := rfl
    rw [hg,append_assoc] at hf
    have hin : ¬t.size≤as.length := by
      rw [hs,hf,ofBytes_size]
      simp
    have hm := readMarker_eq hf hs (by decide) rfl
    rw [← append_assoc] at hf
    have hi := ih (as++lePut 4 mtrGap) hf
    rw [length_append,lePut_length] at hi
    rw [Nat.add_right_comm,scanForward,if_neg hin,hm]
    simp only [if_true]
    rw [hi,Nat.mul_succ,Nat.add_assoc,Nat.add_comm 4]

theorem scanReverse_gaps (k fuel : Nat) (as cs : List UInt8) (hf : t.f=.ofBytes (as++(bytes (gaps k)++cs))) :
    t.scanReverse (k+fuel) (as.length+4*k)=t.scanReverse fuel as.length := by
  induction k generalizing cs with
  | zero => simp
  | succ k ih =>
    have hg : bytes (gaps (k+1))=bytes (gaps k)++lePut 4 mtrGap := by
      rw [gaps,replicate_succ',bytes_append]
      rfl
    rw [hg,append_assoc] at hf
    have hi := ih (lePut 4 mtrGap++cs) hf
    rw [← append_assoc] at hf
    have hm : t.readMarker (as.length+4*k)=some mtrGap :=
      readMarker_eq hf hs (by decide) (by rw [length_append,bytes_gaps])
    rw [Nat.add_right_comm,scanReverse,if_neg (by omega),if_neg (by omega),
      show as.length+4*(k+1)-4=as.length+4*k by omega,hm]
    simpa using hi

end

/-- What a tape drive takes its reel for. -/
structure Reel where
  readonly : Bool
  cursor : Cursor Object

namespace Reel

/-- What a read of an object gives, with a buffer of `maxLen` bytes or none. -/
def readAnswer (buf : Bool) (maxLen : Nat) (nothing : Result) : Option Object → Answer
  | none => .of nothing
  | some (.record data bad _) =>
    ⟨if bad then .error else .record,data.length,if buf then data.take maxLen else []⟩
  | some .mark => .of .tapeMark

def call (r : Reel) : Call → Reel × Answer
  | .readForward buf maxLen =>
    (⟨r.readonly,r.cursor.forward.2⟩,readAnswer buf maxLen .endOfMedium r.cursor.forward.1)
  | .spaceForward =>
    (⟨r.readonly,r.cursor.forward.2⟩,readAnswer false 0 .endOfMedium r.cursor.forward.1)
  | .spaceReverse =>
    (⟨r.readonly,r.cursor.reverse.2⟩,readAnswer false 0 .beginOfTape r.cursor.reverse.1)
  | .rewind => (⟨r.readonly,r.cursor.rewind⟩,.of .record)
  | .writeRecord buf =>
    if h : 0<buf.length ∧ buf.length ≤ mtrMaxlen then
      if r.readonly then (r,.of .error)
      else (⟨r.readonly,r.cursor.write (.record buf false h)⟩,.of .record) else (r,.of .error)
  | .writeTapeMark =>
    if r.readonly then (r,.of .error) else (⟨r.readonly,r.cursor.write .mark⟩,.of .record)
  | .eraseHere => (if r.readonly then r else ⟨r.readonly,r.cursor.erase⟩,.of .record)

end Reel

/-- The sequence the items make, with the cursor between `xs` and `ys`. -/
def cursor (xs ys : List Item) : Cursor Object := ⟨(objects xs).reverse,objects ys⟩

/-- The tape is laid out as items around its position, and these make the reel. -/
def Shows (t : Tape) (r : Reel) : Prop :=
  ∃ xs ys eom,Laid t xs ys eom ∧ r=⟨t.readonly,cursor xs ys⟩

section
variable {t : Tape} {xs ys zs : List Item} {eom : Bool}

theorem Laid.forward (h : Laid t xs (ys++zs) eom) (pos objp : Nat) (hp : pos=(bytes xs).length+(bytes ys).length) :
    Laid { t with pos := pos,objp := objp } (xs++ys) zs eom := by
  refine ⟨?_,h.isOpen,by simp [hp],h.size⟩
  simp only [h.f,bytes_append,append_assoc]

theorem Laid.reverse (h : Laid t (xs++ys) zs eom) (pos objp : Nat)
    (hp : pos=(bytes xs).length) : Laid { t with pos := pos,objp := objp } xs (ys++zs) eom := by
  refine ⟨?_,h.isOpen,hp,h.size⟩
  simp only [h.f,bytes_append,append_assoc]

theorem Laid.rounds (k : Nat) (h : Laid t xs (gaps k++ys) eom) : ∃ fuel,t.rounds=k+(fuel+1) := by
  have hl := bytes_gaps k
  refine ⟨t.rounds-k-1,?_⟩
  have hs : 4*k≤t.size := by
    rw [h.size,h.f,ofBytes_size]
    simp only [length_append,bytes_append]
    omega
  unfold Tape.rounds
  omega

theorem Laid.scanForward (k : Nat) (h : Laid t xs (gaps k++ys) eom) :
    ∃ fuel,t.scanForward t.rounds t.pos=t.scanForward (fuel+1) ((bytes xs).length+4*k) := by
  obtain ⟨fuel,hfuel⟩ := h.rounds
  refine ⟨fuel,?_⟩
  rw [hfuel,h.pos]
  apply scanForward_gaps h.size k (fuel+1) _ (bytes ys++eomBytes eom)
  rw [h.f,bytes_append,append_assoc]

variable {as cs : List UInt8}

theorem scanForward_marker {m : Nat} (hf : t.f=.ofBytes (as++(lePut 4 m++cs)))
    (hs : t.size=t.f.size) (hm : m<2^32) (hg : m≠mtrGap) (fuel : Nat) :
    t.scanForward (fuel+1) as.length=(as.length,some m) := by
  have hin : ¬t.size≤as.length := by
    rw [hs,hf,ofBytes_size]
    simp
  rw [Tape.scanForward,if_neg hin,readMarker_eq hf hs hm rfl]
  simp [hg]

theorem scanForward_end {as : List UInt8} (hf : t.f=.ofBytes as) (hs : t.size=t.f.size)
    (fuel : Nat) : t.scanForward (fuel+1) as.length=(as.length,none) := by
  have hin : t.size≤as.length := by
    rw [hs,hf,ofBytes_size]
  rw [Tape.scanForward,if_pos hin]

theorem cursor_gaps (k : Nat) : cursor (xs++gaps k) ys=cursor xs (gaps k++ys) := by
  simp [cursor]

theorem record_pread {data : List UInt8} {m : Nat}
    (hf : t.f=.ofBytes (as++(lePut 4 m++(data++cs)))) (n : Nat) (hn : n≤data.length) :
    t.f.pread n (as.length+4)=data.take n := by
  have hr := ofBytes_pread (as++lePut 4 m) (data.take n) (data.drop n++cs)
  rw [← append_assoc (data.take n),take_append_drop,append_assoc,← hf,
    length_append,lePut_length,length_take,Nat.min_eq_left hn] at hr
  exact hr

section
variable {pos : Nat} (ho : t.isOpen=true) (buf : Bool) (maxLen : Nat)
include ho

theorem readForward_end {marker : Option Nat}
    (hscan : t.scanForward t.rounds t.pos=(pos,marker)) (hm : marker=none ∨ marker=some mtrEom) :
    t.readForward buf maxLen=({ t with pos := pos },.of .endOfMedium) := by
  rw [Tape.readForward,if_neg (by simp [ho]),hscan]
  rcases hm with rfl | rfl
  · rfl
  · rfl

theorem readForward_mark (hscan : t.scanForward t.rounds t.pos=(pos,some mtrTmk)) :
    t.readForward buf maxLen=({ t with pos := pos+4,objp := t.objp+1 },.of .tapeMark) := by
  rw [Tape.readForward,if_neg (by simp [ho]),hscan]
  rfl

theorem readForward_record {data : List UInt8} {bad : Bool} (fits : 0<data.length ∧ data.length ≤ mtrMaxlen)
    (hscan : t.scanForward t.rounds t.pos=(pos,some (recordMarker data.length bad)))
    (hread : ∀ n,n≤data.length → t.f.pread n (pos+4)=data.take n) : t.readForward buf maxLen =
      ({ t with pos := pos+4+padded data.length+4,objp := t.objp+1 },
        Reel.readAnswer buf maxLen .endOfMedium (some (.record data bad fits))) := by
  have hp := recordMarker_plain data.length bad fits
  have hwant : (if buf then min data.length maxLen else 0)≤data.length := by
    split_ifs <;> omega
  rw [Tape.readForward,if_neg (by simp [ho]),hscan]
  simp only [if_neg hp.1,if_neg hp.2.1,recordMarker_len _ bad fits.2,hread _ hwant,
    recordMarker_bad _ bad fits.2,length_take,Nat.min_eq_left hwant,ne_eq,not_true,
    if_false,Reel.readAnswer]
  cases buf with
  | true => simp [take_eq_take_iff,Nat.min_comm]
  | false => simp

end

theorem Laid.readForward (h : Laid t xs ys eom) (buf : Bool) (maxLen : Nat) :
    Shows (t.readForward buf maxLen).1 ⟨t.readonly,(cursor xs ys).forward.2⟩ ∧ (t.readForward buf maxLen).2 =
        Reel.readAnswer buf maxLen .endOfMedium (cursor xs ys).forward.1 ∧
      (t.readForward buf maxLen).1.objp=t.objp+(cursor xs ys).forward.1.toList.length := by
  obtain ⟨k,zs,rfl,hz⟩ := gaps_split ys
  obtain ⟨fuel,hscan⟩ := h.scanForward
  have hpos : (bytes xs).length+4*k=(bytes (xs++gaps k)).length := by simp [bytes_gaps]
  have hmoved := h.forward (bytes (xs++gaps k)).length t.objp (by simp)
  have hf := hmoved.f
  simp only at hf
  rw [← cursor_gaps]
  rw [hpos] at hscan
  cases zs with
  | nil =>
    have hend : ∃ marker,t.scanForward t.rounds t.pos=((bytes (xs++gaps k)).length,marker) ∧
        (marker=none ∨ marker=some mtrEom) := by
      cases eom with
      | false =>
        rw [eomBytes,if_neg (by simp),bytes_nil,append_nil,append_nil] at hf
        exact ⟨none,by rw [hscan,scanForward_end hf h.size],.inl rfl⟩
      | true =>
        rw [eomBytes,if_pos rfl,bytes_nil,nil_append,← append_nil (lePut 4 mtrEom)] at hf
        have hm := scanForward_marker hf h.size (by decide) (by decide) fuel
        exact ⟨some mtrEom,by rw [hscan,hm],.inr rfl⟩
    obtain ⟨marker,hscan,hm⟩ := hend
    rw [readForward_end h.isOpen buf maxLen hscan hm]
    exact ⟨⟨_,_,_,hmoved,rfl⟩,rfl,rfl⟩
  | cons z zs =>
    cases z with
    | gap => exact absurd rfl (hz .gap rfl)
    | object o pad =>
      have hnext : Laid t xs ((gaps k++[.object o pad])++zs) eom := by simpa using h
      have hone := hnext.forward
      cases o with
      | mark =>
        rw [bytes_cons,append_assoc] at hf
        have hm := scanForward_marker hf h.size (by decide) (by decide) fuel
        rw [readForward_mark h.isOpen buf maxLen (hscan.trans hm)]
        refine ⟨⟨_,_,_,hone _ (t.objp+1) ?_,?_⟩,rfl,rfl⟩
        · simp [Item.bytes]
          omega
        · simp [cursor,objects,Item.object?,Cursor.forward]
      | record data bad fits =>
        rw [bytes_cons,Item.bytes,append_assoc,append_assoc,append_assoc] at hf
        have hm := scanForward_marker hf h.size (recordMarker_lt _ _ fits.2)
          (recordMarker_plain _ _ fits).2.2 fuel
        rw [readForward_record h.isOpen buf maxLen fits (hscan.trans hm) (record_pread hf)]
        have hlen := record_length data bad fits pad
        refine ⟨⟨_,_,_,hone _ (t.objp+1) ?_,?_⟩,rfl,rfl⟩
        · simp [hlen]
          omega
        · simp [cursor,objects,Item.object?,Cursor.forward]

theorem Laid.scanReverse (k : Nat) (h : Laid t (xs++gaps k) ys eom) :
    ∃ fuel,t.scanReverse (t.pos/4+1) t.pos=t.scanReverse (fuel+1) (bytes xs).length := by
  have hpos : t.pos=(bytes xs).length+4*k := by
    rw [h.pos,bytes_append,length_append,bytes_gaps]
  refine ⟨(bytes xs).length/4,?_⟩
  rw [show t.pos/4+1=k+((bytes xs).length/4+1) by omega,hpos]
  apply scanReverse_gaps h.size k _ _ (bytes ys++eomBytes eom)
  rw [h.f,bytes_append,append_assoc]

theorem scanReverse_marker {m : Nat} (hf : t.f=.ofBytes (as++(lePut 4 m++cs))) (hs : t.size=t.f.size) (hm : m<2^32)
    (hg : m≠mtrGap) (fuel : Nat) : t.scanReverse (fuel+1) (as.length+4)=(as.length+4,.ok m) := by
  rw [Tape.scanReverse,if_neg (by omega),if_neg (by omega),Nat.add_sub_cancel,
    readMarker_eq hf hs hm rfl]
  simp [hg]

section
variable {pos : Nat} (ho : t.isOpen=true)
include ho

theorem spaceReverse_start (hscan : t.scanReverse (t.pos/4+1) t.pos=(pos,.error .beginOfTape)) :
    t.spaceReverse=({ t with pos := pos },.of .beginOfTape) := by
  rw [Tape.spaceReverse,if_neg (by simp [ho]),hscan]

theorem spaceReverse_mark (hscan : t.scanReverse (t.pos/4+1) t.pos=(pos,.ok mtrTmk)) :
    t.spaceReverse=({ t with pos := pos-4,objp := t.objp-1 },.of .tapeMark) := by
  rw [Tape.spaceReverse,if_neg (by simp [ho]),hscan]
  rfl

theorem spaceReverse_record {data : List UInt8} {bad : Bool}
    (fits : 0<data.length ∧ data.length ≤ mtrMaxlen) (hscan : t.scanReverse (t.pos/4+1) t.pos =
      (pos+(4+padded data.length+4),.ok (recordMarker data.length bad))) :
    t.spaceReverse=({ t with pos := pos,objp := t.objp-1 },
      Reel.readAnswer false 0 .beginOfTape (some (.record data bad fits))) := by
  have hp := recordMarker_plain data.length bad fits
  have hspan : ¬pos+(4+padded data.length+4)<4+padded data.length+4 := by omega
  rw [Tape.spaceReverse,if_neg (by simp [ho]),hscan]
  simp only [if_neg hp.1,recordMarker_len _ bad fits.2,recordMarker_bad _ bad fits.2,
    if_neg hspan,Nat.add_sub_cancel,Reel.readAnswer,Bool.false_eq_true,if_false]

end

theorem Laid.spaceReverse (h : Laid t xs ys eom) : Shows t.spaceReverse.1 ⟨t.readonly,(cursor xs ys).reverse.2⟩ ∧
      t.spaceReverse.2=Reel.readAnswer false 0 .beginOfTape (cursor xs ys).reverse.1 ∧
      t.spaceReverse.1.objp=t.objp-(cursor xs ys).reverse.1.toList.length := by
  obtain ⟨zs,k,rfl,hz⟩ := gaps_split_last xs
  obtain ⟨fuel,hscan⟩ := h.scanReverse
  rw [cursor_gaps]
  rcases eq_nil_or_concat' zs with rfl | ⟨zs,z,rfl⟩
  · have hmoved := h.reverse (bytes []).length t.objp rfl
    have hstart : t.scanReverse (fuel+1) (bytes []).length=(0,.error .beginOfTape) := rfl
    rw [spaceReverse_start h.isOpen (hscan.trans hstart)]
    exact ⟨⟨_,_,_,hmoved,rfl⟩,rfl,rfl⟩
  · cases z with
    | gap => exact absurd rfl (hz .gap (by simp))
    | object o pad =>
      have hback : Laid t (zs++([.object o pad]++gaps k)) ys eom := by simpa using h
      have hmoved := hback.reverse (bytes zs).length (t.objp-1) rfl
      have hshow : (⟨t.readonly,(cursor (zs++[.object o pad]) (gaps k++ys)).reverse.2⟩ : Reel) =
          ⟨t.readonly,cursor zs ([.object o pad]++gaps k++ys)⟩ := by
        simp [cursor,objects,Item.object?,Cursor.reverse]
      have hlast : (cursor (zs++[.object o pad]) (gaps k++ys)).reverse.1=some o := by
        simp [cursor,objects,Item.object?,Cursor.reverse]
      rw [hshow,hlast]
      have hf : t.f=.ofBytes (bytes zs++((Item.object o pad).bytes ++
          (bytes (gaps k)++(bytes ys++eomBytes eom)))) := by
        rw [h.f]
        simp
      have hlen : (bytes (zs++[.object o pad])).length =
          (bytes zs).length+(Item.object o pad).bytes.length := by
        simp
      rw [hlen] at hscan
      cases o with
      | mark =>
        have hm := scanReverse_marker hf h.size (by decide) (by decide) fuel
        rw [spaceReverse_mark h.isOpen (hscan.trans hm)]
        exact ⟨⟨_,_,_,hmoved,rfl⟩,rfl,rfl⟩
      | record data bad fits =>
        obtain ⟨front,hfront,hbytes⟩ := record_trailer data bad fits pad
        rw [hbytes,append_assoc,← append_assoc (bytes zs)] at hf
        have hm := scanReverse_marker hf h.size (recordMarker_lt _ _ fits.2)
          (recordMarker_plain _ _ fits).2.2 fuel
        rw [length_append,Nat.add_assoc,hfront] at hm
        rw [record_length] at hscan
        rw [spaceReverse_record h.isOpen fits (hscan.trans hm)]
        exact ⟨⟨_,_,_,hmoved,rfl⟩,rfl,rfl⟩

theorem Laid.rewrite {x : Item} {bs : List UInt8} (h : Laid t xs ys eom) (hx : x.bytes=bs) (objp : Nat) :
    Laid ({ t with f := t.f.pwrite bs t.pos,pos := t.pos+bs.length,objp := objp } : Tape).truncateHere
      (xs++[x]) [] false := by
  refine ⟨?_,h.isOpen,?_,rfl⟩
  · simp only [truncateHere,h.f,h.pos,ofBytes_rewrite]
    simp [hx,eomBytes]
  · simp [truncateHere,h.pos,hx]

theorem record_pwrite (f : File) (pos : Nat) (buf : List UInt8) (fits : 0<buf.length ∧ buf.length ≤ mtrMaxlen) :
    (let f := (f.pwrite (lePut 4 buf.length) pos).pwrite buf (pos+4)
     (if buf.length%2=1 then f.pwrite [0] (pos+4+buf.length) else f).pwrite (lePut 4 buf.length)
       (pos+4+padded buf.length)) =
      f.pwrite (Item.object (.record buf false fits) 0).bytes pos := by
  have hl : (lePut 4 buf.length).length=4 := lePut_length 4 _
  have hne : lePut 4 buf.length≠[] := by
    intro hn
    simp [hn] at hl
  have hb : buf≠[] := ne_nil_of_length_pos fits.1
  have h1 := f.pwrite_append (lePut 4 buf.length) buf pos hne
  rw [hl] at h1
  simp only [Item.bytes,recordMarker,Bool.false_eq_true,if_false,Nat.add_zero,h1,padded]
  split_ifs with hodd
  · have h2 := f.pwrite_append (lePut 4 buf.length++buf) [0] pos (by simp [hne])
    have h3 := f.pwrite_append (lePut 4 buf.length++buf++[0]) (lePut 4 buf.length) pos
      (by simp [hne])
    simp only [length_append,hl,length_singleton] at h2 h3
    rw [Nat.add_assoc pos,h2,Nat.add_assoc pos,show (buf.length+1)/2*2=buf.length+1 by omega,
      ← Nat.add_assoc 4,h3]
    simp
  · have h3 := f.pwrite_append (lePut 4 buf.length++buf) (lePut 4 buf.length) pos (by simp [hne])
    simp only [length_append,hl] at h3
    rw [Nat.add_assoc pos,show (buf.length+1)/2*2=buf.length by omega,h3]
    simp

theorem writeRecord_eq (ho : t.isOpen) (hr : t.readonly=false) (buf : List UInt8)
    (fits : 0<buf.length ∧ buf.length ≤ mtrMaxlen) :
    let bs := (Item.object (.record buf false fits) 0).bytes
    t.writeRecord buf =
      (({ t with f := t.f.pwrite bs t.pos,pos := t.pos+bs.length,objp := t.objp+1 } : Tape).truncateHere,
        .of .record) := by
  have hlen : t.pos+4+padded buf.length+4=t.pos+(4+padded buf.length+4) := by omega
  have hbad : ¬(!t.isOpen || t.readonly || buf.length=0 || decide (mtrMaxlen<buf.length))=true := by
    simp [ho,hr,Nat.pos_iff_ne_zero.mp fits.1,fits.2]
  simp only [record_length,← record_pwrite,← hlen]
  rw [Tape.writeRecord,if_neg hbad]
  split_ifs <;> rfl

theorem Laid.writeRecord (h : Laid t xs ys eom) (buf : List UInt8) :
    Shows (t.writeRecord buf).1 (Reel.call ⟨t.readonly,cursor xs ys⟩ (.writeRecord buf)).1 ∧
      (t.writeRecord buf).2=(Reel.call ⟨t.readonly,cursor xs ys⟩ (.writeRecord buf)).2 := by
  have hstay : Shows t ⟨t.readonly,cursor xs ys⟩ := ⟨_,_,_,h,rfl⟩
  by_cases fits : 0<buf.length ∧ buf.length ≤ mtrMaxlen
  · rw [Reel.call,dif_pos fits]
    cases hr : t.readonly with
    | true =>
      rw [hr] at hstay
      rw [Tape.writeRecord,if_pos (by simp [hr])]
      exact ⟨hstay,rfl⟩
    | false =>
      have hw := h.rewrite (x := .object (.record buf false fits) 0) rfl (t.objp+1)
      rw [writeRecord_eq h.isOpen hr buf fits]
      refine ⟨⟨_,_,_,hw,?_⟩,rfl⟩
      simp [cursor,objects,Item.object?,Cursor.write,truncateHere,hr]
  · have hbad : (!t.isOpen || t.readonly || buf.length=0 || decide (mtrMaxlen<buf.length))=true := by
      rw [not_and_or] at fits
      rcases fits with h0 | hmax
      · simp [Nat.eq_zero_of_not_pos h0]
      · simp [Nat.lt_of_not_le hmax]
    rw [Reel.call,dif_neg fits,Tape.writeRecord,if_pos hbad]
    exact ⟨hstay,rfl⟩

theorem Laid.writeTapeMark (h : Laid t xs ys eom) :
    Shows t.writeTapeMark.1 (Reel.call ⟨t.readonly,cursor xs ys⟩ .writeTapeMark).1 ∧
      t.writeTapeMark.2=(Reel.call ⟨t.readonly,cursor xs ys⟩ .writeTapeMark).2 := by
  have hstay : Shows t ⟨t.readonly,cursor xs ys⟩ := ⟨_,_,_,h,rfl⟩
  cases hr : t.readonly with
  | true =>
    rw [hr] at hstay
    rw [Tape.writeTapeMark,if_pos (by simp [hr])]
    exact ⟨hstay,rfl⟩
  | false =>
    rw [Tape.writeTapeMark,if_neg (by simp [hr,h.isOpen])]
    have hw := h.rewrite (x := .object .mark 0) rfl (t.objp+1)
    refine ⟨⟨_,_,_,hw,?_⟩,rfl⟩
    simp [cursor,objects,Item.object?,Cursor.write,Reel.call,truncateHere,writeMarker,hr]

theorem Laid.eraseHere (h : Laid t xs ys eom) :
    Shows t.eraseHere (Reel.call ⟨t.readonly,cursor xs ys⟩ .eraseHere).1 := by
  cases hr : t.readonly with
  | true =>
    rw [Tape.eraseHere,if_neg (by simp [hr])]
    exact ⟨_,_,_,h,by rw [hr]; rfl⟩
  | false =>
    rw [Tape.eraseHere,if_pos (by simp [hr,h.isOpen])]
    refine ⟨xs,[],false,⟨?_,h.isOpen,h.pos,rfl⟩,?_⟩
    · simp only [truncateHere,h.f,h.pos,ofBytes_cut]
      simp [eomBytes]
    · simp [cursor,objects,Reel.call,Cursor.erase,truncateHere,hr]

theorem Laid.rewind (h : Laid t xs ys eom) : Laid t.rewind [] (xs++ys) eom := by
  refine ⟨?_,h.isOpen,rfl,h.size⟩
  simp [Tape.rewind,h.f]

theorem Shows.call {r : Reel} (h : Shows t r) (c : Call) :
    Shows (t.call c).1 (r.call c).1 ∧ (t.call c).2=(r.call c).2 := by
  obtain ⟨xs,ys,eom,h,rfl⟩ := h
  cases c with
  | readForward buf maxLen =>
    obtain ⟨hs,ha,_⟩ := h.readForward buf maxLen
    exact ⟨hs,ha⟩
  | spaceForward =>
    obtain ⟨hs,ha,_⟩ := h.readForward false 0
    exact ⟨hs,ha⟩
  | spaceReverse =>
    obtain ⟨hs,ha,_⟩ := h.spaceReverse
    exact ⟨hs,ha⟩
  | rewind =>
    refine ⟨⟨_,_,_,h.rewind,?_⟩,rfl⟩
    simp [Reel.call,Tape.call,cursor,Cursor.rewind,Tape.rewind,objects]
  | writeRecord buf => exact h.writeRecord buf
  | writeTapeMark => exact h.writeTapeMark
  | eraseHere => exact ⟨h.eraseHere,rfl⟩

theorem shows_open (t : Tape) (items : List Item) (eom readonly : Bool) :
    Shows (t.open_ (.ofBytes (bytes items++eomBytes eom)) readonly) ⟨readonly,.start (objects items)⟩ := by
  refine ⟨[],items,eom,⟨rfl,rfl,rfl,rfl⟩,rfl⟩

/-- The tape after the calls `cs`. -/
def run (t : Tape) (cs : List Call) : Tape := cs.foldl (fun t c => (t.call c).1) t

def Reel.run (r : Reel) (cs : List Call) : Reel := cs.foldl (fun r c => (r.call c).1) r

theorem Shows.run {r : Reel} (h : Shows t r) (cs : List Call) : Shows (t.run cs) (r.run cs) := by
  induction cs generalizing t r with
  | nil => exact h
  | cons c cs ih => exact ih (h.call c).1

theorem Shows.answers {r : Reel} (h : Shows t r) (cs : List Call) :
    answers (fun t c => (Tape.call t c).1) (fun t c => (t.call c).2) t cs =
      answers (fun r c => (Reel.call r c).1) (fun r c => (r.call c).2) r cs :=
  answers_refine Shows (fun _ => True) (fun _ _ c _ hs => hs.call c) cs (fun _ _ => trivial) h

theorem Shows.forward_back {r : Reel} (h : Shows t r) (buf : Bool) (maxLen : Nat)
    (hmoved : (t.readForward buf maxLen).2.result≠.endOfMedium) :
    let back := (t.readForward buf maxLen).1.spaceReverse
    back.2=⟨(t.readForward buf maxLen).2.result,(t.readForward buf maxLen).2.recLen,[]⟩ ∧
      Shows back.1 r := by
  have hf : Shows (t.readForward buf maxLen).1 (r.call (.readForward buf maxLen)).1 ∧
      (t.readForward buf maxLen).2=(r.call (.readForward buf maxLen)).2 :=
    h.call (.readForward buf maxLen)
  have hb : Shows (t.readForward buf maxLen).1.spaceReverse.1 _ ∧
      (t.readForward buf maxLen).1.spaceReverse.2=_ := hf.1.call .spaceReverse
  rw [hf.2] at hmoved
  intro back
  rw [hb.2,hf.2]
  cases ho : r.cursor.forward.1 with
  | none => simp [Reel.call,ho,Reel.readAnswer,Answer.of] at hmoved
  | some o =>
    have hback := r.cursor.reverse_forward ho
    refine ⟨?_,?_⟩
    · cases o <;> simp [Reel.call,ho,hback,Reel.readAnswer,Answer.of]
    · have hs := hb.1
      simp only [Reel.call,hback] at hs
      exact hs

/-- A well-formed `.tap` file answers any calls as a sequence of objects with a cursor does, stays well formed, and
has its position between two objects. -/
theorem tape_cursor (t : Tape) (items : List Item) (eom readonly : Bool) (cs : List Call) :
    let opened := t.open_ (.ofBytes (bytes items++eomBytes eom)) readonly
    let reel : Reel := ⟨readonly,.start (objects items)⟩
    answers (fun t c => (Tape.call t c).1) (fun t c => (t.call c).2) opened cs =
      answers (fun r c => (Reel.call r c).1) (fun r c => (r.call c).2) reel cs ∧
    Shows (opened.run cs) (reel.run cs) ∧
    ∀ buf maxLen,((opened.run cs).readForward buf maxLen).2.result≠.endOfMedium →
      let back := ((opened.run cs).readForward buf maxLen).1.spaceReverse
      back.2=⟨((opened.run cs).readForward buf maxLen).2.result,
        ((opened.run cs).readForward buf maxLen).2.recLen,[]⟩ ∧ Shows back.1 (reel.run cs) := by
  have h := shows_open t items eom readonly
  exact ⟨h.answers cs,h.run cs,fun buf maxLen hmoved => (h.run cs).forward_back buf maxLen hmoved⟩

end

end QUniLator.Tape
