import QUniLator.Cpu34.Alu

/-! The instructions. -/

namespace QUniLator.Cpu34

open Attempt

/-- Where an instruction ends: `goto service` with `oldpsw`, `goto trap` with its vector, or a return
from `step`. One that fails goes to `be`. -/
inductive Goto where
  | service (oldpsw : Word)
  | trap (v : Word)
  | done

def reservedInstruction : Goto := .trap 0o10
def illegalInstruction : Goto := .trap 4

abbrev Field := BitVec 6

def Field.mode (m : Field) : BitVec 3 := m.extractLsb' 3 3
def Field.reg (m : Field) : BitVec 4 := (m.extractLsb' 0 3).setWidth 4

def Field.step (m : Field) (b : Bool) : Word :=
  if !b || m.reg &&& 6=6 || m.mode.getLsbD 0 then 2 else 1

def addrInc (r : BitVec 4) (ai : Word) : M Unit := do
  change fun s => { s with ba := s.r r }
  change fun s => (s.setR r (s.r r+ai)).autoincPending r ai
  change fun s => { s with mmu := s.mmu.logRegister r ai }

/-- The kernel's stack has a limit, which `ba` passes. -/
def State.checkStack (s : State) (ba : Word) : State :=
  { s with trapStack := s.trapStack || (s.isKernel && ba &&& ~~~0o377=0) }

def addrDec (r : BitVec 4) (ai : Word) : M Unit := do
  change fun s => { s with ba := s.r r-ai }
  doIf (r=rSP) (change fun s => s.checkStack s.ba)
  change fun s => s.setR r s.ba
  change fun s => { s with mmu := s.mmu.logRegister r (-ai) }

section
variable (bus : Bus)

def addrIndex (r : BitVec 4) : M Unit := do
  change fun s => { s with ba := s.r rPC }
  change fun s => s.setR rPC (s.r rPC+2)
  dati bus false
  change fun s => { s with ba := s.bdata+s.r r }

def addrDeferred : M Unit := do
  dati bus false
  change fun s => { s with ba := s.bdata }

def addrBase (m : Field) (b : Bool) : M Unit :=
  if m.mode &&& 6=2 then addrInc m.reg (m.step b)
  else if m.mode &&& 6=4 then addrDec m.reg (m.step b)
  else addrIndex bus m.reg

def addrMode (m : Field) (b : Bool) : M Unit :=
  if m.mode &&& 6=0 then change fun s => { s with ba := s.r m.reg }
  else do
    addrBase bus m b
    doIf (m.mode.getLsbD 0) (addrDeferred bus)

/-- `addrop`. Its reads belong to no operand. Mode 0, which has no address, is no caller's. -/
def addrop (m : Field) (b : Bool) : M Unit := do
  change State.autoincCommit
  let s ← read
  change fun s => s.setDestRef false
  addrMode bus m b
  change fun t => t.setDestRef s.mmu.destRef

def State.oddByte (s : State) (b : Bool) (t : BitVec 4) : State :=
  if b && s.ba.getLsbD 0 then s.setR t (s.r t >>> 8) else s

def fetchWord (t : BitVec 4) (m : Field) (b : Bool) : M Unit :=
  if m.mode=0 then change fun s => s.setR t (s.r m.reg)
  else do
    dati bus b
    change fun s => (s.setR t s.bdata).oddByte b t

/-- `fetchop`: an operand into the scratch register `t`. -/
def fetchop (t : BitVec 4) (m : Field) (b : Bool) : M Unit := do
  fetchWord bus t m b
  doIf b (change fun s => s.setR t (sxt (s.r t)))

def readop (t : BitVec 4) (m : Field) (b : Bool) : M Unit := do
  change fun s => s.setDestRef (t=rDR)
  addrop bus m b
  fetchop bus t m b

/-- An operand by its mode: a register goes through `fetchop` alone. -/
def rd (t : BitVec 4) (m : Field) (b : Bool) : M Unit :=
  if m.mode=0 then fetchop bus t m b else readop bus t m b

/-- `RD_B`: source strictly before destination. -/
def rdB (src dst : Field) (b : Bool) : M Unit := do
  rd bus rSR src b
  rd bus rDR dst b

def rdU (dst : Field) (b : Bool) : M Unit := do
  rd bus rDR dst b
  change fun s => s.setR rSR (s.r rDR)

def addrdest (m : Field) (b : Bool) : M Unit := do
  change fun s => s.setDestRef true
  addrop bus m b

def src (ir : Word) : Field := ir.extractLsb' 6 6
def dst (ir : Word) : Field := ir.extractLsb' 0 6

/-- `writedest` to a register. -/
def State.writeReg (s : State) (d : BitVec 4) (v : Word) (b : Bool) : State :=
  s.setR d (if b then (s.r d &&& ~~~0o377) ||| (v &&& 0o377) else v)

def writeOperand (dst : Field) (v : Word) (b : Bool) : M Unit :=
  if dst.mode=0 then change fun s => s.writeReg dst.reg v b
  else do
    change fun s => { s with bdata := if s.ba.getLsbD 0 then v <<< 8 else v }
    dato bus b

def writedest (dst : Field) (v : Word) (b : Bool) : M Unit := do
  change fun s => s.setDestRef true
  writeOperand bus dst v b

def writeWhole (dst : Field) (v : Word) (b : Bool) : M Unit :=
  if dst.mode=0 then change fun s => s.setR dst.reg v else writedest bus dst v b

def State.push (s : State) (inhov : Bool) : State :=
  let s := (s.setR rSP (s.r rSP-2)).setDestRef false
  if inhov then s else s.checkStack (s.r rSP)

/-- `PUSH; OUT(SP, w)`. -/
def pushOut (inhov : Bool) (w : State → Word) : M Unit := do
  change fun s => s.push inhov
  change fun s => { s with ba := s.r rSP,bdata := w s }
  dato bus false

/-- `BA = SP; POP`. -/
def State.pop (s : State) : State :=
  ({ s with ba := s.r rSP }.setR rSP (s.r rSP+2)).autoincPending rSP 2

/-- `BA = SP; POP; IN(..)`, the word left in `bdata`. -/
def popIn : M Unit := do
  change State.pop
  dati bus false

/-- The result goes to the destination, or nowhere, or is MOV's, which a register takes whole. -/
inductive Writes where
  | result | nothing | whole
  deriving DecidableEq

def store (writes : Writes) (dst : Field) (v : Word) (b : Bool) : M Unit :=
  match writes with
  | .result => writedest bus dst v b
  | .nothing => pure ()
  | .whole => writeWhole bus dst v b

def double (ir : Word) (b : Bool) (op : Double) (writes : Writes) : M Unit := do
  rdB bus (src ir) (dst ir) b
  let s ← read
  let result := op s.cc (s.r rSR) (s.r rDR)
  change fun s => s.setCc result.2
  store bus writes (dst ir) (toWord result.1) b

def single (ir : Word) (b : Bool) (op : Single) (writes : Writes) : M Unit := do
  rdU bus (dst ir) b
  let s ← read
  let result := op s.cc (s.r rSR)
  change fun s => s.setCc result.2
  store bus writes (dst ir) result.1 b

def eisReg (ir : Word) : BitVec 4 := (src ir).reg

def State.mul (s : State) (reg : BitVec 4) : State :=
  let result := eisMul (s.r rDR) (s.r reg)
  let s := s.setCc result.2
  if reg.getLsbD 0 then s.setR reg (toWord result.1)
  else (s.setR (reg+1) (toWord result.1)).setR reg (toWord (result.1 >>> 16))

def State.div (s : State) (reg : BitVec 4) : State :=
  let result := eisDiv (pair s.r reg) (s.r rDR)
  let s := s.setCc result.2
  match result.1 with
  | none => s
  | some (quot,rem) => (s.setR reg quot).setR (reg ||| 1) rem

def State.ash (s : State) (reg : BitVec 4) : State :=
  let result := eisAsh s.cc (s.r reg) (s.r rDR)
  (s.setCc result.2).setR reg result.1

def State.ashc (s : State) (reg : BitVec 4) : State :=
  let result := eisAshc s.cc (pair s.r reg) (s.r rDR)
  let s := s.setCc result.2
  if reg.getLsbD 0 then s.setR reg (toWord result.1)
  else (s.setR reg (toWord (result.1 >>> 16))).setR (reg+1) (toWord result.1)

def eis (ir : Word) (op : State → BitVec 4 → State) : M Unit := do
  rdU bus (dst ir) false
  change fun s => op s (eisReg ir)

def xor (ir : Word) : M Unit := do
  rdU bus (dst ir) false
  let s ← read
  let result := eisXor s.cc (s.r (eisReg ir)) (s.r rDR)
  change fun s => s.setCc result.2
  writedest bus (dst ir) result.1 false

def State.sob (s : State) (ir : Word) : State :=
  let s := s.setR (eisReg ir) (s.r (eisReg ir)-1)
  if s.r (eisReg ir)=0 then s else s.setR rPC (s.r rPC-((ir &&& 0o77) <<< 1))

def mark (ir : Word) : M Unit := do
  change fun s => s.setR rSP (s.r rPC+2*(ir &&& 0o77))
  change fun s => s.setR rPC (s.r 5)
  popIn bus
  change fun s => s.setR 5 s.bdata

def State.mtpsPsw (s : State) : Word :=
  let b := s.r rDR &&& (0o377 &&& ~~~pswT)
  let b := if s.isKernel then b else (b &&& ~~~pswPr) ||| (s.psw &&& pswPr)
  (s.psw &&& (0xff00 ||| pswT)) ||| b

def mtps (ir : Word) : M Unit := do
  rdU bus (dst ir) true
  change fun s => s.setPsw s.mtpsPsw

def inPrevious (m : M Unit) : M Unit := do
  change State.spacePrev
  m.onFailure State.spaceRestore
  change State.spaceRestore

def State.otherSp (s : State) (r : BitVec 4) : Bool := r=rSP && s.mmu.prevSpace≠s.mmu.space

def State.prevR (s : State) (r : BitVec 4) : Word :=
  if s.otherSp r then s.stackpointer s.mmu.prevSpace else s.r r

def State.setPrevR (s : State) (r : BitVec 4) (v : Word) : State :=
  if s.otherSp r then s.setStackpointer s.mmu.prevSpace v else s.setR r v

def readPrevious (dst : Field) : M Word :=
  if dst.mode=0 then (fun s => s.prevR dst.reg) <$> read
  else do
    addrdest bus dst false
    inPrevious (dati bus false)
    State.bdata <$> read

def writePrevious (dst : Field) (b : Word) : M Unit :=
  if dst.mode=0 then change fun s => s.setPrevR dst.reg b
  else do
    addrdest bus dst false
    change fun s => { s with bdata := b }
    inPrevious (dato bus false)

def State.moveCc (s : State) (b : Word) : State := s.setCc ((s.cc.clear ccV).setnz b)

def mfpi (ir : Word) : M Unit := do
  let b ← readPrevious bus (dst ir)
  change fun s => s.moveCc b
  pushOut bus false (fun _ => b)

def mtpi (ir : Word) : M Unit := do
  popIn bus
  let b ← State.bdata <$> read
  change fun s => s.moveCc b
  writePrevious bus (dst ir) b

def fromPsw (ir : Word) (b : Bool) (v : Word → Word) : M Unit := do
  doIf ((dst ir).mode≠0) (addrdest bus (dst ir) b)
  let v ← (fun s => v s.psw) <$> read
  change fun s => s.moveCc v
  writeWhole bus (dst ir) v b

def jsr (ir : Word) : M Unit := do
  addrdest bus (dst ir) false
  change fun s => s.setR rDR s.ba
  pushOut bus false (fun s => s.r (src ir).reg)
  change fun s => (s.setR (src ir).reg (s.r rPC)).setR rPC (s.r rDR)

def jmp (ir : Word) : M Unit := do
  addrdest bus (dst ir) false
  change fun s => s.setR rPC s.ba

def rts (ir : Word) : M Unit := do
  change State.pop
  change fun s => s.setR rPC (s.r (dst ir).reg)
  dati bus false
  change fun s => s.setR (dst ir).reg s.bdata

/-- A branch on the condition codes: bit `n` of `c` says whether it is taken with the codes `n`. -/
def State.branch (s : State) (ir : Word) (c : Word) : State :=
  if c.getLsbD s.cc.toNat then s.setR rPC (s.r rPC+(sxt ir <<< 1)) else s

/-- What RTI and RTT load: outside kernel mode the modes and the priority stay. -/
def State.rtiPsw (s : State) (b : Word) : Word :=
  if s.isKernel then b
  else (b &&& ~~~(0o170000 ||| pswPr)) ||| (s.psw &&& (0o170000 ||| pswPr))

def popPc : M Unit := do
  popIn bus
  change fun s => s.setR rPC s.bdata

def rti (ir oldpsw : Word) : M Goto := do
  popPc bus
  popIn bus
  let s ← read
  let b := s.rtiPsw s.bdata
  change fun s => s.setPsw b
  pure (.service (if ir=2 ∧ b &&& pswT≠0 then oldpsw ||| pswT else oldpsw))

def State.resetOpcode (s : State) : State :=
  if s.isKernel then { s.reset with log := .init::s.log } else s

def halt : M Goto := do
  let s ← read
  if s.isKernel then do
    change fun s => { s with state := .halted }
    pure .done
  else pure reservedInstruction

def wait : M Goto := do
  change fun s => { s with state := .waiting }
  pure .done

section
variable (oldpsw ir : Word)

/-- An instruction that goes on to `service`. -/
def served (m : M Unit) : M Goto := do
  m
  pure (.service oldpsw)

def doubleGroup (rest : M Goto) : M Goto :=
  let b := ir.getLsbD 15
  let code := ir &&& 0o170000
  if code=0o110000 ∨ code=0o010000 then served oldpsw (double bus ir b opMov .whole)
  else if code=0o120000 ∨ code=0o020000 then served oldpsw (double bus ir b (opCmp b) .nothing)
  else if code=0o130000 ∨ code=0o030000 then served oldpsw (double bus ir b opBit .nothing)
  else if code=0o140000 ∨ code=0o040000 then served oldpsw (double bus ir b opBic .result)
  else if code=0o150000 ∨ code=0o050000 then served oldpsw (double bus ir b opBis .result)
  else if code=0o060000 then served oldpsw (double bus ir false opAdd .result)
  else if code=0o160000 then served oldpsw (double bus ir false opSub .result)
  else if code=0o170000 then pure reservedInstruction
  else rest

def extendedGroup (rest : M Goto) : M Goto :=
  let code := ir &&& 0o177000
  if ir &&& 0o170000=0o070000 then
    if code=0o070000 then served oldpsw (eis bus ir State.mul)
    else if code=0o071000 then served oldpsw (eis bus ir State.div)
    else if code=0o072000 then served oldpsw (eis bus ir State.ash)
    else if code=0o073000 then served oldpsw (eis bus ir State.ashc)
    else if code=0o074000 then served oldpsw (xor bus ir)
    else if code=0o077000 then served oldpsw (change fun s => s.sob ir)
    else pure reservedInstruction
  else rest

def singleGroup (rest : M Goto) : M Goto :=
  let b := ir.getLsbD 15
  let code := ir &&& 0o007700
  if code=0o005000 then served oldpsw (single bus ir b opClr .result)
  else if code=0o005100 then served oldpsw (single bus ir b opCom .result)
  else if code=0o005200 then served oldpsw (single bus ir b (opInc b) .result)
  else if code=0o005300 then served oldpsw (single bus ir b (opDec b) .result)
  else if code=0o005400 then served oldpsw (single bus ir b (opNeg b) .result)
  else if code=0o005500 then served oldpsw (single bus ir b (opAdc b) .result)
  else if code=0o005600 then served oldpsw (single bus ir b (opSbc b) .result)
  else if code=0o005700 then served oldpsw (single bus ir b opTst .nothing)
  else if code=0o006000 then served oldpsw (single bus ir b (opRor b) .result)
  else if code=0o006100 then served oldpsw (single bus ir b (opRol b) .result)
  else if code=0o006200 then served oldpsw (single bus ir b (opAsr b) .result)
  else if code=0o006300 then served oldpsw (single bus ir b (opAsl b) .result)
  else rest

def modeGroup (rest : M Goto) : M Goto :=
  let b := ir.getLsbD 15
  let code := ir &&& 0o007700
  if code=0o006400 then served oldpsw (if b then mtps bus ir else mark bus ir)
  else if code=0o006500 then served oldpsw (mfpi bus ir)
  else if code=0o006600 then served oldpsw (mtpi bus ir)
  else if code=0o006700 then
    served oldpsw
      (if b then fromPsw bus ir true sxt
        else fromPsw bus ir false (fun psw => if psw &&& 0o10≠0 then 0o177777 else 0))
  else rest

def callGroup (rest : M Goto) : M Goto :=
  let code := ir &&& 0o107400
  if code=0o004000 ∨ code=0o004400 then
    if (dst ir).mode=0 then pure illegalInstruction else served oldpsw (jsr bus ir)
  else if code=0o104000 then pure (.trap 0o30)
  else if code=0o104400 then pure (.trap 0o34)
  else rest

def branchCodes (code : Word) : Word :=
  if code=0o000400 then 0xffff
  else if code=0o001000 then 0x0f0f
  else if code=0o001400 then 0xf0f0
  else if code=0o002000 then 0xcc33
  else if code=0o002400 then 0x33cc
  else if code=0o003000 then 0x0c03
  else if code=0o003400 then 0xf3fc
  else if code=0o100000 then 0x00ff
  else if code=0o100400 then 0xff00
  else if code=0o101000 then 0x0505
  else if code=0o101400 then 0xfafa
  else if code=0o102000 then 0x3333
  else if code=0o102400 then 0xcccc
  else if code=0o103000 then 0x5555
  else 0xaaaa

def branchGroup (rest : M Goto) : M Goto :=
  if ir &&& 0o074000=0 ∧ ir &&& 0o103400≠0 then
    served oldpsw (change fun s => s.branch ir (branchCodes (ir &&& 0o103400)))
  else rest

def miscGroup (rest : M Goto) : M Goto :=
  let code := ir &&& 0o177300
  let sub := ir &&& 0o000070
  if code=0o000100 then
    if (dst ir).mode=0 then pure illegalInstruction else served oldpsw (jmp bus ir)
  else if code=0o000200 then
    if sub=0 then served oldpsw (rts bus ir)
    else if sub=0o40 ∨ sub=0o50 then
      served oldpsw (change fun s => s.setCc (s.cc.clear (ir.setWidth 4)))
    else if sub=0o60 ∨ sub=0o70 then
      served oldpsw (change fun s => s.setCc (s.cc ||| ir.setWidth 4))
    else pure reservedInstruction
  else if code=0o000300 then served oldpsw (single bus ir false opSwab .result)
  else rest

def operateGroup : M Goto :=
  if ir=0 then halt
  else if ir=1 then wait
  else if ir=2 ∨ ir=6 then rti bus ir oldpsw
  else if ir=3 then pure (.trap 0o14)
  else if ir=4 then pure (.trap 0o20)
  else if ir=5 then served oldpsw (change State.resetOpcode)
  else pure reservedInstruction

def execute : M Goto :=
  doubleGroup bus oldpsw ir <| extendedGroup bus oldpsw ir <| singleGroup bus oldpsw ir <|
    modeGroup bus oldpsw ir <| callGroup bus oldpsw ir <| branchGroup oldpsw ir <|
    miscGroup bus oldpsw ir <| operateGroup bus oldpsw ir

end

end

end QUniLator.Cpu34
