import QUniLator.Tape.Cursor

/-!
The object position of a tape beside the number of objects its file holds before the byte position.
-/

namespace QUniLator.Tape

open List

/-- How many records and tape marks the file holds from `at_` up to `pos`, by their markers. -/
def objectsFrom (f : File) (pos : Nat) : Nat → Nat → Nat
  | 0,_ => 0
  | fuel+1,at_ =>
    if pos≤at_ then 0 else
      let marker := leGet (f.pread 4 at_)
      if marker=mtrGap then objectsFrom f pos fuel (at_+4)
      else if marker=mtrTmk then objectsFrom f pos fuel (at_+4)+1
      else objectsFrom f pos fuel (at_+4+padded (markerLen marker)+4)+1

/-- The records and tape marks before the byte position. An item of the file has four bytes at least. -/
def objectsBefore (t : Tape) : Nat := objectsFrom t.f t.pos t.pos 0

theorem pread_marker {f : File} {as cs : List UInt8} {m : Nat}
    (hf : f=.ofBytes (as++(lePut 4 m++cs))) (hm : m<2^32) : leGet (f.pread 4 as.length)=m := by
  have hr := File.ofBytes_pread as (lePut 4 m) cs
  rw [lePut_length] at hr
  rw [hf,hr,leGet_lePut,Nat.mod_eq_of_lt (by omega)]

theorem four_le_bytes (x : Item) : 4≤x.bytes.length := by
  cases x with
  | gap => simp [Item.bytes]
  | object o pad =>
    cases o with
    | mark => simp [Item.bytes]
    | record data bad fits =>
      rw [record_length]
      omega

theorem objectsFrom_items (f : File) (xs : List Item) (as cs : List UInt8) (fuel : Nat)
    (hf : f=.ofBytes (as++(bytes xs++cs))) (hfuel : (bytes xs).length≤fuel) :
    objectsFrom f (as.length+(bytes xs).length) fuel as.length=(objects xs).length := by
  induction xs generalizing as fuel with
  | nil =>
    cases fuel with
    | zero => rfl
    | succ fuel => simp [objectsFrom,objects]
  | cons x xs ih =>
    have h4 := four_le_bytes x
    rw [bytes_cons,length_append] at hfuel
    rw [bytes_cons,append_assoc] at hf
    obtain ⟨fuel,rfl⟩ : ∃ k,fuel=k+1 := ⟨fuel-1,by omega⟩
    have hrest := ih (as++x.bytes) fuel (by rw [hf,append_assoc]) (by omega)
    rw [length_append,Nat.add_assoc,← length_append,← bytes_cons] at hrest
    have hin : ¬as.length+(bytes (x::xs)).length≤as.length := by
      rw [bytes_cons,length_append]
      omega
    rw [objectsFrom,if_neg hin]
    cases x with
    | gap =>
      have hm := pread_marker hf (by decide)
      simp only [hm,if_true]
      have hlen : (Item.gap).bytes.length=4 := rfl
      rw [hlen] at hrest
      rw [hrest]
      rfl
    | object o pad =>
      have hcount : (objects (.object o pad::xs)).length=(objects xs).length+1 := by
        simp [objects,Item.object?]
      rw [hcount,← hrest]
      cases o with
      | mark =>
        have hm := pread_marker hf (by decide)
        simp only [hm]
        rfl
      | record data bad fits =>
        have hlen := record_length data bad fits pad
        rw [Item.bytes,append_assoc,append_assoc,append_assoc] at hf
        have hm := pread_marker hf (recordMarker_lt _ bad fits.2)
        have hp := recordMarker_plain data.length bad fits
        simp only [hm,if_neg hp.2.2,if_neg hp.1,markerLen,recordMarker_len _ bad fits.2,hlen]
        rw [Nat.add_assoc as.length,Nat.add_assoc as.length]

theorem Laid.objectsBefore {t : Tape} {xs ys : List Item} {eom : Bool} (h : Laid t xs ys eom) :
    t.objectsBefore=(objects xs).length := by
  have hx := objectsFrom_items t.f xs [] (bytes ys++eomBytes eom) t.pos h.f h.pos.ge
  rw [length_nil,Nat.zero_add,← h.pos] at hx
  exact hx

def new : Tape := ⟨.empty,false,false,0,0,0⟩

def close (t : Tape) : Tape := { t with isOpen := false,pos := 0,size := 0 }

/-- What an owner does with a tape. `open` finds a well-formed image, or no file it can open. -/
inductive Op where
  | open_ (image : Option (List Item × Bool)) (readonly : Bool)
  | close
  | call (c : Call)

def opStep (t : Tape) : Op → Tape
  | .open_ (some (items,eom)) readonly =>
    t.close.open_ (.ofBytes (bytes items++eomBytes eom)) readonly
  | .open_ none _ => { t.close with readonly := true }
  | .close => t.close
  | .call c => (t.call c).1

/-- The tape after the first `k` of the operations. -/
def after (es : List Op) (k : Nat) : Tape := (es.take k).foldl opStep new

def FromZero (t : Tape) : Op → Prop
  | .open_ (some _) _ => t.objp=0
  | _ => True

def Counts (t : Tape) (r : Reel) : Prop := Shows t r ∧ t.objp=r.cursor.before.length

theorem Counts.objp_eq {t : Tape} {r : Reel} (h : Counts t r) : t.objp=t.objectsBefore := by
  obtain ⟨⟨xs,ys,eom,hl,rfl⟩,hn⟩ := h
  rw [hn,hl.objectsBefore]
  simp [cursor]

section
variable {t : Tape} {r : Reel}

theorem forward_length (c : Cursor Object) : c.forward.2.before.length=c.before.length+c.forward.1.toList.length := by
  obtain ⟨bs,as⟩ := c
  cases as with
  | nil | cons a as => rfl

theorem reverse_length (c : Cursor Object) : c.reverse.2.before.length=c.before.length-c.reverse.1.toList.length := by
  obtain ⟨bs,as⟩ := c
  cases bs with
  | nil | cons b bs => rfl

theorem Counts.readForward (h : Counts t r) (buf : Bool) (maxLen : Nat) :
    Counts (t.readForward buf maxLen).1 ⟨r.readonly,r.cursor.forward.2⟩ := by
  obtain ⟨⟨xs,ys,eom,hl,rfl⟩,hn⟩ := h
  obtain ⟨hs,_,hobjp⟩ := hl.readForward buf maxLen
  refine ⟨hs,?_⟩
  rw [hobjp,hn,forward_length]

theorem Counts.spaceReverse (h : Counts t r) : Counts t.spaceReverse.1 ⟨r.readonly,r.cursor.reverse.2⟩ := by
  obtain ⟨⟨xs,ys,eom,hl,rfl⟩,hn⟩ := h
  obtain ⟨hs,_,hobjp⟩ := hl.spaceReverse
  refine ⟨hs,?_⟩
  rw [hobjp,hn,reverse_length]

theorem writeRecord_objp (ho : t.isOpen) (buf : List UInt8) : (t.writeRecord buf).1.objp =
      if t.readonly=true ∨ ¬(0<buf.length ∧ buf.length ≤ mtrMaxlen) then t.objp else t.objp+1 := by
  by_cases fits : 0<buf.length ∧ buf.length ≤ mtrMaxlen
  · cases hr : t.readonly with
    | true =>
      rw [if_pos (.inl rfl),Tape.writeRecord,if_pos (by simp [hr])]
    | false =>
      rw [if_neg (by simp [fits]),writeRecord_eq ho hr buf fits]
      rfl
  · have hbad : (!t.isOpen || t.readonly || buf.length=0 || decide (mtrMaxlen<buf.length))=true := by
      rw [not_and_or] at fits
      rcases fits with h0 | hmax
      · simp [Nat.eq_zero_of_not_pos h0]
      · simp [Nat.lt_of_not_le hmax]
    rw [if_pos (.inr fits),Tape.writeRecord,if_pos hbad]

theorem Counts.writeRecord (h : Counts t r) (buf : List UInt8) :
    Counts (t.writeRecord buf).1 (r.call (.writeRecord buf)).1 := by
  have hs : Shows (t.writeRecord buf).1 (r.call (.writeRecord buf)).1 := (h.1.call (.writeRecord buf)).1
  obtain ⟨⟨xs,ys,eom,hl,rfl⟩,hn⟩ := h
  refine ⟨hs,?_⟩
  rw [writeRecord_objp hl.isOpen,Reel.call]
  by_cases fits : 0<buf.length ∧ buf.length ≤ mtrMaxlen
  · cases hr : t.readonly with
    | true => simpa [fits] using hn
    | false => simpa [fits,Cursor.write] using hn
  · simpa [fits] using hn

theorem Counts.writeTapeMark (h : Counts t r) : Counts t.writeTapeMark.1 (r.call .writeTapeMark).1 := by
  have hs : Shows t.writeTapeMark.1 (r.call .writeTapeMark).1 := (h.1.call .writeTapeMark).1
  obtain ⟨⟨xs,ys,eom,hl,rfl⟩,hn⟩ := h
  refine ⟨hs,?_⟩
  cases hr : t.readonly with
  | true =>
    rw [Tape.writeTapeMark,if_pos (by simp [hr])]
    simpa [Reel.call,hr] using hn
  | false =>
    rw [Tape.writeTapeMark,if_neg (by simp [hr,hl.isOpen])]
    simpa [Reel.call,hr,Cursor.write,truncateHere,writeMarker] using hn

theorem Counts.eraseHere (h : Counts t r) : Counts t.eraseHere (r.call .eraseHere).1 := by
  have hs : Shows t.eraseHere (r.call .eraseHere).1 := (h.1.call .eraseHere).1
  obtain ⟨⟨xs,ys,eom,hl,rfl⟩,hn⟩ := h
  refine ⟨hs,?_⟩
  cases hr : t.readonly with
  | true => simpa [Tape.eraseHere,Reel.call,hr] using hn
  | false => simpa [Tape.eraseHere,Reel.call,hr,Cursor.erase,hl.isOpen,truncateHere] using hn

theorem Counts.call (h : Counts t r) (c : Call) : Counts (t.call c).1 (r.call c).1 := by
  cases c with
  | readForward buf maxLen => exact h.readForward buf maxLen
  | spaceForward => exact h.readForward false 0
  | spaceReverse => exact h.spaceReverse
  | rewind =>
    obtain ⟨xs,ys,eom,hl,rfl⟩ := h.1
    exact ⟨(h.1.call .rewind).1,rfl⟩
  | writeRecord buf => exact h.writeRecord buf
  | writeTapeMark => exact h.writeTapeMark
  | eraseHere => exact h.eraseHere

end

theorem call_isOpen (t : Tape) (c : Call) : (t.call c).1.isOpen=t.isOpen := by
  cases c with
  | readForward buf maxLen => exact (readForward_cases t buf maxLen).same.isOpen
  | spaceForward => exact (readForward_cases t false 0).same.isOpen
  | spaceReverse => exact (spaceReverse_cases t).same.isOpen
  | rewind => rfl
  | writeRecord buf =>
    simp only [call,writeRecord]
    split_ifs <;> rfl
  | writeTapeMark =>
    simp only [call,writeTapeMark]
    split_ifs <;> rfl
  | eraseHere =>
    simp only [call,eraseHere]
    split_ifs <;> rfl

def Kept (t : Tape) : Prop := t.isOpen=true → ∃ r,Counts t r

theorem Kept.opStep {t : Tape} (h : Kept t) {op : Op} (hop : FromZero t op) : Kept (opStep t op) := by
  cases op with
  | open_ image readonly =>
    cases image with
    | none => exact fun ho => absurd ho (by simp [Tape.opStep,close])
    | some image =>
      intro _
      refine ⟨⟨readonly,.start (objects image.1)⟩,shows_open _ image.1 image.2 readonly,?_⟩
      exact hop
  | close => exact fun ho => absurd ho (by simp [Tape.opStep,close])
  | call c =>
    intro ho
    rw [Tape.opStep,call_isOpen] at ho
    obtain ⟨r,hr⟩ := h ho
    exact ⟨_,hr.call c⟩

theorem after_succ {es : List Op} {k : Nat} {op : Op} (h : es[k]? = some op) :
    after es (k+1)=opStep (after es k) op := by
  rw [after,take_add_one,h,foldl_append]
  rfl

theorem after_end {es : List Op} {k : Nat} (h : es[k]? = none) : after es (k+1)=after es k := by
  rw [after,take_add_one,h]
  simp [after]

theorem opened_objp (t : Tape) (items : List Item) (eom readonly : Bool)
    (h : (opStep t (.open_ (some (items,eom)) readonly)).objp =
      (opStep t (.open_ (some (items,eom)) readonly)).objectsBefore) : t.objp=0 := h

/-- The object position of an open tape is the number of objects before its byte position, all along
a run, if and only if the run opens its images with the object position at zero. -/
theorem object_position (es : List Op) :
    (∀ k,(after es k).isOpen → (after es k).objp=(after es k).objectsBefore) ↔
      ∀ k op,es[k]? = some op → FromZero (after es k) op := by
  constructor
  · intro h k op hk
    cases op with
    | open_ image readonly =>
      cases image with
      | none => trivial
      | some image =>
        have hopen := h (k+1)
        rw [after_succ hk] at hopen
        exact opened_objp _ image.1 image.2 readonly (hopen rfl)
    | close | call c => trivial
  · intro h k
    have hkept : Kept (after es k) := by
      induction k with
      | zero => exact fun ho => absurd ho (by simp [after,new])
      | succ k ih =>
        cases hk : es[k]? with
        | none =>
          rw [after_end hk]
          exact ih
        | some op =>
          rw [after_succ hk]
          exact ih.opStep (h k op hk)
    intro ho
    obtain ⟨r,hr⟩ := hkept ho
    exact hr.objp_eq

/-- A record is read, and the image opened again. -/
theorem remount_counts : ¬∀ (es : List Op) (k : Nat),(after es k).isOpen →
    (after es k).objp=(after es k).objectsBefore := by
  intro h
  have hone := h [.open_ (some ([.object .mark 0],false)) false,.call .spaceForward,
    .open_ (some ([.object .mark 0],false)) false] 3
  exact absurd (hone rfl) (by decide)

end QUniLator.Tape
