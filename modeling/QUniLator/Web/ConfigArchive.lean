import Mathlib.Data.BitVec
import Mathlib.Logic.Function.Iterate
import QUniLator.Framework.Endian

/-! The archive a configuration travels in with its media: how it is made, and how one is read. -/

namespace QUniLator.Web.Zip

open List

/-- What `dosStamp` reads of a `Date`, in local time; months count from 0. -/
structure Moment where
  year : Nat
  month : Nat
  date : Nat
  hours : Nat
  minutes : Nat
  seconds : Nat

structure ZipEntry where
  name : String
  data : List UInt8
  mtime : Option Moment

def dosStamp (w : Moment) : Nat × Nat :=
  (w.hours <<< 11 ||| w.minutes <<< 5 ||| w.seconds >>> 1,
    (max 1980 w.year-1980) <<< 9 ||| (w.month+1) <<< 5 ||| w.date)

def crcBit (c : BitVec 32) : BitVec 32 := if c.getLsbD 0 then 0xedb88320 ^^^ c >>> 1 else c >>> 1

def crcTable (n : BitVec 8) : BitVec 32 := crcBit^[8] (n.setWidth 32)

def crc32 (bytes : List UInt8) : BitVec 32 :=
  bytes.foldl (fun (c : BitVec 32) b => crcTable (c.setWidth 8 ^^^ b.toBitVec) ^^^ c >>> 8) 0xffffffff ^^^ 0xffffffff

/-- `TextEncoder` -/
def encode (s : String) : List UInt8 := s.toUTF8.data.toList

def directorySig : Nat := 0x02014b50
def endSig : Nat := 0x06054b50

variable (now : Moment)

def localHeader (e : ZipEntry) : List (Nat × Nat) :=
  let stamp := dosStamp (e.mtime.getD now)
  [(4,0x04034b50),(2,20),(2,0),(2,0),(2,stamp.1),(2,stamp.2),(4,(crc32 e.data).toNat),(4,e.data.length),
    (4,e.data.length),(2,(encode e.name).length),(2,0)]

def localFile (e : ZipEntry) : List UInt8 := leFields (localHeader now e)++(encode e.name++e.data)

def directoryHeader (e : ZipEntry) (offset : Nat) : List (Nat × Nat) :=
  let stamp := dosStamp (e.mtime.getD now)
  [(4,directorySig),(2,20),(2,20),(2,0),(2,0),(2,stamp.1),(2,stamp.2),(4,(crc32 e.data).toNat),(4,e.data.length),
    (4,e.data.length),(2,(encode e.name).length),(2,0),(2,0),(2,0),(2,0),(4,0),(4,offset)]

/-- The first loop: what it writes from `offset` on, and what goes into `central`. -/
def writeFiles : List ZipEntry → Nat → List UInt8 × List (ZipEntry × Nat)
  | [],_ => ([],[])
  | e::es,offset =>
    let (out,central) := writeFiles es (offset+(localFile now e).length)
    (localFile now e++out,(e,offset)::central)

def endRecord (count dirSize dirStart : Nat) : List (Nat × Nat) :=
  [(4,endSig),(2,0),(2,0),(2,count),(2,count),(4,dirSize),(4,dirStart),(2,0)]

def makeZip (entries : List ZipEntry) : List UInt8 :=
  let (out,central) := writeFiles now entries 0
  let directory := central.flatMap fun c => leFields (directoryHeader now c.1 c.2)++encode c.1.name
  out++(directory++leFields (endRecord central.length directory.length out.length))

/-- `DataView` -/
def getUint (u8 : List UInt8) (p n : Nat) : Except String Nat :=
  if p+n≤u8.length then .ok (leGet ((u8.drop p).take n)) else .error "RangeError"

/-- The scan back from the end, past a comment. Nothing in it is out of range. -/
def findEnd (u8 : List UInt8) : Option Nat :=
  ((range (min (u8.length-21) 65536)).map (u8.length-22-·)).find? fun i => leGet ((u8.drop i).take 4)=endSig

variable (decode : List UInt8 → String) (inflateRaw : List UInt8 → Except String (List UInt8)) (u8 : List UInt8)

/-- One round of the loop: the entry at `p` of the directory, none for a folder, and where the next one is. -/
def readEntry (p : Nat) : Except String (Option ZipEntry × Nat) := do
  if (← getUint u8 p 4)≠directorySig then throw "damaged zip directory"
  let method ← getUint u8 (p+10) 2
  let compSize ← getUint u8 (p+20) 4
  let nameLen ← getUint u8 (p+28) 2
  let extraLen ← getUint u8 (p+30) 2
  let commentLen ← getUint u8 (p+32) 2
  let start ← getUint u8 (p+42) 4
  let name := decode ((u8.drop (p+46)).take nameLen)
  let lNameLen ← getUint u8 (start+26) 2
  let lExtraLen ← getUint u8 (start+28) 2
  let raw := (u8.drop (start+30+lNameLen+lExtraLen)).take compSize
  let next := p+46+nameLen+extraLen+commentLen
  if name.toList.getLast?=some '/' then return (none,next)
  let data ← if method=0 then pure raw else inflateRaw raw
  return (some ⟨name,data,none⟩,next)

def readEntries : Nat → Nat → Except String (List ZipEntry)
  | 0,_ => return []
  | count+1,p => do
    let (e,next) ← readEntry decode inflateRaw u8 p
    return e.toList++(← readEntries count next)

def readZip : Except String (List ZipEntry) :=
  match findEnd u8 with
  | none => throw "not a zip archive"
  | some eocd => do
    let count ← getUint u8 (eocd+10) 2
    readEntries decode inflateRaw u8 count (← getUint u8 (eocd+16) 4)

/-- A file in an archive of whatever tool. What an import does not look at is in `listed`, the fields of its
directory entry, and in `fronted`, those in front of it. -/
structure Member where
  name : List UInt8
  raw : List UInt8
  method : Nat
  extra : List UInt8
  comment : List UInt8
  localExtra : List UInt8
  offset : Nat
  listed : Nat → Nat
  fronted : Nat → Nat

namespace Member
variable (m : Member)

def localHeader : List (Nat × Nat) :=
  let f := m.fronted
  [(4,f 0),(2,f 1),(2,f 2),(2,f 3),(2,f 4),(2,f 5),(4,f 6),(4,f 7),(4,f 8),(2,m.name.length),(2,m.localExtra.length)]

theorem localHeader_widths : m.localHeader.map Prod.fst=[4,2,2,2,2,2,4,4,4,2,2] := rfl

def file : List UInt8 := leFields m.localHeader++(m.name++(m.localExtra++m.raw))

def header : List (Nat × Nat) :=
  let f := m.listed
  [(4,directorySig),(2,f 1),(2,f 2),(2,f 3),(2,m.method),(2,f 5),(2,f 6),(4,f 7),(4,m.raw.length),(4,f 9),
    (2,m.name.length),(2,m.extra.length),(2,m.comment.length),(2,f 13),(2,f 14),(4,f 15),(4,m.offset)]

theorem header_widths : m.header.map Prod.fst=[4,2,2,2,2,2,2,4,4,4,2,2,2,2,2,4,4] := rfl

def entry : List UInt8 := leFields m.header++(m.name++(m.extra++m.comment))

/-- Its fields hold what is put into them. -/
structure Fits : Prop where
  name : m.name.length<256^2
  method : m.method<256^2
  raw : m.raw.length<256^4
  extra : m.extra.length<256^2
  comment : m.comment.length<256^2
  localExtra : m.localExtra.length<256^2
  offset : m.offset<256^4

/-- It is where its entry says. -/
def Placed : Prop := ∃ a b,u8=a++(m.file++b) ∧ a.length=m.offset

/-- What an import has of it: nothing of a folder, and otherwise the bytes, inflated unless they are stored. -/
def opened : Except String (Option ZipEntry) :=
  if (decode m.name).toList.getLast?=some '/' then .ok none
  else (fun data => some ⟨decode m.name,data,none⟩) <$> if m.method=0 then .ok m.raw else inflateRaw m.raw

end Member

variable {now decode inflateRaw u8} {pre rest body files comment : List UInt8} {fs : List (Nat × Nat)} {f : Nat → Nat}
  {m : Member} {ms : List Member} {c : ZipEntry × Nat}

theorem getUint_field (h : u8=pre++(leFields fs++rest)) {ws : List Nat} (hw : fs.map Prod.fst=ws) {p v : Nat} (k n : Nat)
    (hk : fs[k]?=some (n,v)) (hp : (ws.take k).sum=p) (hv : v<256^n) : getUint u8 (pre.length+p) n=.ok v := by
  obtain ⟨a,b,rfl,ha⟩ := leField_at h hk
  have hl := lePut_length n v
  unfold getUint
  rw [← hp,← hw,← map_take,← ha,if_pos (by simp),drop_left,take_left' hl,leGet_lePut,Nat.mod_eq_of_lt hv]

theorem readEntry_eq (h : u8=pre++(m.entry++rest)) (hp : m.Placed u8) (hf : m.Fits) :
    readEntry decode inflateRaw u8 pre.length=(·,pre.length+m.entry.length) <$> m.opened decode inflateRaw := by
  obtain ⟨a,b,ha,hlen⟩ := hp
  have hd : u8=pre++(leFields m.header++(m.name++(m.extra++m.comment++rest))) := by simp [h,Member.entry]
  have hl : u8=a++(leFields m.localHeader++(m.name++(m.localExtra++(m.raw++b)))) := by simp [ha,Member.file]
  have d {p v : Nat} := getUint_field (p := p) (v := v) hd m.header_widths
  have l {p v : Nat} := getUint_field (p := p) (v := v) hl m.localHeader_widths
  have hsig : getUint u8 pre.length 4=.ok directorySig := d 0 4 rfl rfl (by decide)
  have hmethod : getUint u8 (pre.length+10) 2=.ok m.method := d 4 2 rfl rfl hf.method
  have hsize : getUint u8 (pre.length+20) 4=.ok m.raw.length := d 8 4 rfl rfl hf.raw
  have hname : getUint u8 (pre.length+28) 2=.ok m.name.length := d 10 2 rfl rfl hf.name
  have hextra : getUint u8 (pre.length+30) 2=.ok m.extra.length := d 11 2 rfl rfl hf.extra
  have hcomment : getUint u8 (pre.length+32) 2=.ok m.comment.length := d 12 2 rfl rfl hf.comment
  have hstart : getUint u8 (pre.length+42) 4=.ok m.offset := d 16 4 rfl rfl hf.offset
  have hlname : getUint u8 (a.length+26) 2=.ok m.name.length := l 9 2 rfl rfl hf.name
  have hlextra : getUint u8 (a.length+28) 2=.ok m.localExtra.length := l 10 2 rfl rfl hf.localExtra
  have htaken : (u8.drop (pre.length+46)).take m.name.length=m.name := by
    rw [hd,← append_assoc,drop_left' (by simp [leFields_length,m.header_widths]),take_left]
  have hraw : (u8.drop (a.length+30+m.name.length+m.localExtra.length)).take m.raw.length=m.raw := by
    rw [hl,← append_assoc,← append_assoc,← append_assoc,
      drop_left' (by simp [leFields_length,m.localHeader_widths]; omega),take_left]
  have hnext : pre.length+m.entry.length=pre.length+46+m.name.length+m.extra.length+m.comment.length := by
    simp [Member.entry,leFields_length,m.header_widths]
    omega
  rw [hlen] at hlname hlextra hraw
  simp only [readEntry,hsig,hmethod,hsize,hname,hextra,hcomment,hstart,hlname,hlextra,htaken,hraw,hnext,bind,
    Except.bind,Member.opened,ne_eq,not_true_eq_false,if_false]
  split_ifs
  · rfl
  · rfl
  · cases inflateRaw m.raw <;> rfl

theorem readEntries_eq (h : u8=pre++(ms.flatMap Member.entry++rest)) (hp : ∀ m∈ms,m.Placed u8) (hf : ∀ m∈ms,m.Fits) :
    readEntries decode inflateRaw u8 ms.length pre.length=filterMap id <$> ms.mapM (Member.opened decode inflateRaw) := by
  induction ms generalizing pre with
  | nil => rfl
  | cons m ms ih =>
    rw [flatMap_cons,append_assoc] at h
    rw [forall_mem_cons] at hp hf
    have hm : readEntry decode inflateRaw u8 pre.length=_ := readEntry_eq h hp.1 hf.1
    have ht := ih (h.trans (append_assoc ..).symm) hp.2 hf.2
    rw [length_append] at ht
    simp only [length_cons,readEntries,hm,mapM_cons]
    cases m.opened decode inflateRaw with
    | error => rfl
    | ok o =>
      simp only [Functor.map,Except.map,bind,Except.bind,ht]
      cases ms.mapM (Member.opened decode inflateRaw) with
      | error => rfl
      | ok os => cases o <;> simp [pure,Except.pure]

/-- The record behind the directory -/
def ending (f : Nat → Nat) (count dirStart : Nat) : List (Nat × Nat) :=
  [(4,endSig),(2,f 1),(2,f 2),(2,f 3),(2,count),(4,f 5),(4,dirStart),(2,f 7)]

theorem ending_widths (count dirStart : Nat) : (ending f count dirStart).map Prod.fst=[4,2,2,2,2,4,4,2] := rfl

/-- An archive of whatever tool: the members lie anywhere in front of the directory. -/
structure Archive (u8 files comment : List UInt8) (f : Nat → Nat) (ms : List Member) : Prop where
  bytes : u8=files++(ms.flatMap Member.entry++(leFields (ending f ms.length files.length)++comment))
  count : ms.length<256^2
  start : files.length<256^4
  placed : ∀ m∈ms,m.Placed u8
  fits : ∀ m∈ms,m.Fits

theorem findEnd_eq {count start : Nat} (h : u8=body++(leFields (ending f count start)++comment)) (hc : comment.length<65536)
    (hs : ∀ k<comment.length,leGet (((leFields (ending f count start)++comment).drop (k+1)).take 4)≠endSig) :
    findEnd u8=some body.length := by
  have hlen : u8.length=body.length+(22+comment.length) := by simp [h,leFields_length,ending_widths]
  have hat (k : Nat) : u8.drop (body.length+k)=(leFields (ending f count start)++comment).drop k := by
    rw [h,drop_length_add_append]
  have hfound : (range (min (u8.length-21) 65536)).find?
      ((fun i => decide (leGet ((u8.drop i).take 4)=endSig)) ∘ (u8.length-22-·))=some comment.length := by
    rw [find?_range_eq_some]
    refine ⟨?_,mem_range.mpr (by omega),fun k hk => ?_⟩
    · have hi : u8.length-22-comment.length=body.length+0 := by omega
      have hsig : (leFields (ending f count start)++comment).take 4=lePut 4 endSig := rfl
      simp only [Function.comp,hi,hat,drop_zero,hsig]
      decide
    · have hi : u8.length-22-k=body.length+(comment.length-k-1+1) := by omega
      simp only [Function.comp,hi,hat]
      simpa using hs (comment.length-k-1) (by omega)
  unfold findEnd
  rw [find?_map,hfound,Option.map_some]
  congr 1
  omega

theorem Archive.read (h : Archive u8 files comment f ms) (he : findEnd u8=some (files++ms.flatMap Member.entry).length) :
    readZip decode inflateRaw u8=filterMap id <$> ms.mapM (Member.opened decode inflateRaw) := by
  have hend := h.bytes.trans (append_assoc ..).symm
  generalize files++ms.flatMap Member.entry=body at hend he
  have e {p v : Nat} := getUint_field (p := p) (v := v) hend (ending_widths ..)
  have hcount : getUint u8 (body.length+10) 2=.ok ms.length := e 4 2 rfl rfl h.count
  have hstart : getUint u8 (body.length+16) 4=.ok files.length := e 6 4 rfl rfl h.start
  unfold readZip
  rw [he]
  simp only [hcount,hstart,bind,Except.bind]
  exact readEntries_eq h.bytes h.placed h.fits

/-- An archive of whatever tool opens, stored or deflated, with extra fields and comments. -/
theorem repacked_opens (h : Archive u8 files comment f ms) (hc : comment.length<65536)
    (hs : ∀ k<comment.length,leGet (((leFields (ending f ms.length files.length)++comment).drop (k+1)).take 4)≠endSig) :
    readZip decode inflateRaw u8=filterMap id <$> ms.mapM (Member.opened decode inflateRaw) :=
  h.read (findEnd_eq (h.bytes.trans (append_assoc ..).symm) hc hs)

def ascii (bs : List UInt8) : String := String.ofList (bs.map fun b => Char.ofNat b.toNat)

/-- One stored block of one byte -/
def inflateByte : List UInt8 → Except String (List UInt8)
  | [1,1,0,0xfe,0xff,b] => .ok [b]
  | _ => .error "TypeError"

def deflated : Member := ⟨[0x41],[1,1,0,0xfe,0xff,7],8,[1,0,0,0],[0x21],[],0,fun _ => 20,fun _ => 20⟩

theorem deflated_opens :
    readZip ascii inflateByte (deflated.file++(deflated.entry++
      (leFields (ending (fun _ => 0) 1 deflated.file.length)++[0x50,0x4b])))=.ok [⟨"A",[7],none⟩] := by
  have hf : deflated.Fits := by constructor <;> decide
  have h : Archive _ deflated.file [0x50,0x4b] (fun _ => 0) [deflated] :=
    ⟨rfl,by decide,by decide,by simpa using ⟨[],_,rfl,rfl⟩,by simpa using hf⟩
  exact repacked_opens h (by decide) (by decide)

def value (fs : List (Nat × Nat)) (k : Nat) : Nat := (fs[k]?.getD (0,0)).2

/-- The member that an entry becomes, stored -/
def stored (now : Moment) (c : ZipEntry × Nat) : Member :=
  ⟨encode c.1.name,c.1.data,0,[],[],[],c.2,value (directoryHeader now c.1 c.2),value (localHeader now c.1)⟩

theorem stored_file : (stored now c).file=localFile now c.1 := rfl

theorem stored_entry : (stored now c).entry=leFields (directoryHeader now c.1 c.2)++encode c.1.name := by
  simp only [Member.entry,stored,append_nil]
  rfl

theorem writeFiles_entries (es : List ZipEntry) (offset : Nat) : (writeFiles now es offset).2.map Prod.fst=es := by
  induction es generalizing offset with
  | nil => rfl
  | cons e es ih => simp [writeFiles,ih]

theorem writeFiles_placed (es : List ZipEntry) (pre : List UInt8) :
    ∀ c∈(writeFiles now es pre.length).2,(stored now c).Placed (pre++((writeFiles now es pre.length).1++rest)) := by
  induction es generalizing pre with
  | nil => simp [writeFiles]
  | cons e es ih =>
    intro c hc
    simp only [writeFiles,← length_append,mem_cons] at hc ⊢
    rcases hc with rfl | hc
    · exact ⟨pre,(writeFiles now es (pre++localFile now e).length).1++rest,by rw [stored_file,append_assoc],rfl⟩
    · simpa only [append_assoc] using ih (pre++localFile now e) c hc

theorem stored_fits (hname : (encode c.1.name).length<256^2) (hlen : u8.length<256^4) (h : (stored now c).Placed u8) :
    (stored now c).Fits := by
  obtain ⟨a,b,hu,ha⟩ := h
  have hl : u8.length=a.length+((stored now c).file.length+b.length) := by rw [hu,length_append,length_append]
  have hr : c.1.data.length≤(stored now c).file.length := by
    simp only [stored_file,localFile,length_append]
    omega
  have h0 : 0<256^2 := by decide
  exact ⟨hname,h0,(hr.trans (by omega)).trans_lt hlen,h0,h0,h0,ha.symm.trans_lt (lt_of_le_of_lt (by omega) hlen)⟩

theorem makeZip_archive {entries : List ZipEntry} (hname : ∀ e∈entries,(encode e.name).length<256^2)
    (hn : entries.length<256^2) (hlen : (makeZip now entries).length<256^4) :
    ∃ cs f out,map Prod.fst cs=entries ∧ Archive (makeZip now entries) out [] f (cs.map (stored now)) := by
  have hes := @writeFiles_entries now entries 0
  have hpl (rest) := @writeFiles_placed now rest entries []
  unfold makeZip at hlen ⊢
  rw [length_nil] at hpl
  generalize writeFiles now entries 0=w at hes hpl hlen ⊢
  obtain ⟨out,cs⟩ := w
  have hd : (cs.map (stored now)).flatMap Member.entry=
      cs.flatMap fun c => leFields (directoryHeader now c.1 c.2)++encode c.1.name := by
    rw [flatMap_map]
    exact flatMap_congr fun c _ => stored_entry
  refine ⟨cs,value (endRecord cs.length ((cs.map (stored now)).flatMap Member.entry).length out.length),out,hes,
    ?_,by simpa [← hes] using hn,?_,forall_mem_map.mpr (hpl _),forall_mem_map.mpr fun c hc => ?_⟩
  · simp only [append_nil,length_map,hd]
    rfl
  · rw [length_append] at hlen
    omega
  · exact stored_fits (hname _ (hes ▸ mem_map_of_mem hc)) hlen (hpl _ c hc)

/-- What comes back of an entry -/
def kept (e : ZipEntry) : Option ZipEntry :=
  if e.name.toList.getLast?=some '/' then none else some { e with mtime := none }

theorem stored_opened (h : decode (encode c.1.name)=c.1.name) :
    (stored now c).opened decode inflateRaw=.ok (kept c.1) := by
  have hd : decode (stored now c).name=c.1.name := h
  have hm : (stored now c).method=0 := rfl
  unfold Member.opened kept
  rw [hd,if_pos hm]
  split_ifs
  · rfl
  · rfl

theorem mapM_ok {α β : Type} {f : α → Except String β} {g : α → β} {l : List α} (h : ∀ x∈l,f x=.ok (g x)) :
    l.mapM f=.ok (l.map g) := by
  induction l with
  | nil => rfl
  | cons x l ih => simp [h x,ih fun y hy => h y (mem_cons_of_mem x hy),pure,Except.pure,bind,Except.bind]

/-- The archive comes back as what was put into it, folders apart and without the times. -/
theorem zip_roundTrip (entries : List ZipEntry) (hdec : ∀ e∈entries,decode (encode e.name)=e.name)
    (hname : ∀ e∈entries,(encode e.name).length<256^2) (hn : entries.length<256^2)
    (hlen : (makeZip now entries).length<256^4) :
    readZip decode inflateRaw (makeZip now entries)=.ok (entries.filterMap kept) := by
  obtain ⟨cs,f,out,rfl,ha⟩ := makeZip_archive hname hn hlen
  have hm : (cs.map (stored now)).mapM (Member.opened decode inflateRaw)=.ok (cs.map (kept ·.1)) :=
    mapM_map.trans (mapM_ok fun c hc => stored_opened (hdec _ (mem_map_of_mem hc)))
  rw [ha.read (findEnd_eq (ha.bytes.trans (append_assoc ..).symm) (by decide) (by simp)),hm,filterMap_map]
  exact congrArg Except.ok filterMap_map

theorem zip_roundTrip_pair :
    readZip ascii inflateByte (makeZip ⟨2024,1,29,23,59,59⟩ [⟨"A/",[],none⟩,⟨"B",[7],some ⟨1975,0,1,0,0,0⟩⟩])=
      .ok [⟨"B",[7],none⟩] :=
  zip_roundTrip _ (by decide) (by decide) (by decide) (by decide +kernel)

end QUniLator.Web.Zip
