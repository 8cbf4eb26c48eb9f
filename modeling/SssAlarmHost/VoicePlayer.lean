import Mathlib.Logic.Function.Basic

namespace SssAlarmHost.VoicePlayer

abbrev i2sBuffSize : Nat := 1024

inductive Mem where
  | mem0
  | mem1
  deriving DecidableEq, Repr

def Mem.other : Mem → Mem
  | .mem0 => .mem1
  | .mem1 => .mem0

structure VoiceInfo where
  startAddr : UInt32
  size : UInt32
  deriving DecidableEq

-- m_voice_head as play_voice_start reads it: the index is not checked.
abbrev VoiceHead := UInt16 → VoiceInfo

structure VoiceParam where
  index : UInt16
  voiceStartAddr : UInt32
  voiceTotalSize : UInt32
  voiceRemainSize : UInt32
  deriving DecidableEq

structure Buffer where
  bytes : List UInt8
  length_eq : bytes.length = i2sBuffSize

def Buffer.zero : Buffer := ⟨List.replicate i2sBuffSize 0,by simp⟩

-- Data read to the start of a buffer. Bytes past its end are not followed.
def Buffer.load (b : Buffer) (data : List UInt8) : Buffer :=
  ⟨data.take i2sBuffSize ++ b.bytes.drop data.length,by
    have length := b.length_eq
    simp only [List.length_append,List.length_take,List.length_drop]
    omega⟩

-- The SPI flash and whether its k-th read succeeds.
structure Flash where
  content : UInt32 → UInt8
  succeeds : Nat → Bool

def Flash.read (flash : Flash) (addr : UInt32) (bytes : Nat) : List UInt8 :=
  (List.range bytes).map fun i => flash.content (addr + UInt32.ofNat i)

-- DMA1 stream 4 in double-buffer mode: NDTR in half-words and CT, the buffer it
-- transmits from.
structure Dma where
  enabled : Bool
  itTc : Bool
  tcif : Bool
  ndtr : UInt32
  ct : Mem
  deriving DecidableEq

inductive Event where
  | load (mem : Mem) (addr bytes : UInt32)
  | datalength (dataLength : UInt32)
  | output (on : Bool)
  | start
  | stop
  | block (mem : Mem) (bytes : List UInt8)
  deriving DecidableEq

-- The static variables of voice_handler.c and i2s_dma.c with the hardware they
-- drive, and what happened so far.
structure Player where
  i2sBuffer : Mem → Buffer
  voiceParam : VoiceParam
  usingMemBuff : UInt8
  sendDualByte : UInt32
  i2sStopFlag : Bool
  transmitDataLength : UInt32
  dma : Dma
  reads : Nat
  events : List Event

-- After voice_handler_init.
def initialised : Player :=
  ⟨fun _ => Buffer.zero,⟨0,0,0,0⟩,0,0,false,512,⟨false,true,false,512,.mem0⟩,0,[]⟩

def erased : Flash := ⟨fun _ => 0xFF,fun _ => true⟩

-- w25qxx_read into one of the buffers. A read that fails writes nothing, and its
-- result is looked at only by messages that are compiled out.
def w25qxxRead (flash : Flash) (s : Player) (addr : UInt32) (mem : Mem) (bytes : UInt32) : Player :=
  {s with
    i2sBuffer := if flash.succeeds s.reads then
        Function.update s.i2sBuffer mem ((s.i2sBuffer mem).load (flash.read addr bytes.toNat))
      else s.i2sBuffer
    reads := s.reads + 1
    events := s.events ++ [.load mem addr bytes]}

-- NDTR takes a value only while the stream is disabled.
def dmaTransmitDatalength (s : Player) (dataLength : UInt32) : Player :=
  {s with
    transmitDataLength := dataLength
    dma := {s.dma with ndtr := if s.dma.enabled then s.dma.ndtr else dataLength}
    events := s.events ++ [.datalength dataLength]}

def tas2505OutputSet (s : Player) (on : Bool) : Player := {s with events := s.events ++ [.output on]}

def i2sPlayStart (s : Player) : Player :=
  {s with i2sStopFlag := false,dma := {s.dma with enabled := true,itTc := true},events := s.events ++ [.start]}

def i2sPlayStop (s : Player) : Player :=
  {s with i2sStopFlag := true,dma := {s.dma with enabled := false,itTc := false},events := s.events ++ [.stop]}

def setRemain (s : Player) (remain : UInt32) : Player :=
  {s with voiceParam := {s.voiceParam with voiceRemainSize := remain}}

def addDualByte (s : Player) (halfWords : UInt32) : Player := {s with sendDualByte := s.sendDualByte + halfWords}

def nextAddr (s : Player) : UInt32 :=
  s.voiceParam.voiceStartAddr + (s.voiceParam.voiceTotalSize - s.voiceParam.voiceRemainSize)

-- The statements of play_voice_start: its first assignments, then one buffer for
-- a short voice or both buffers for the others.
def beginVoice (head : VoiceHead) (s : Player) (voiceIndex : UInt16) : Player :=
  {s with
    voiceParam := ⟨voiceIndex,(head voiceIndex).startAddr,(head voiceIndex).size,(head voiceIndex).size⟩
    sendDualByte := 0
    usingMemBuff := 0}

def loadFirst (flash : Flash) (s : Player) : Player :=
  let s := dmaTransmitDatalength s (1024/2)
  let s := w25qxxRead flash s s.voiceParam.voiceStartAddr .mem0 1024
  let s := setRemain s (s.voiceParam.voiceRemainSize - 1024)
  addDualByte s (1024/2)

def loadSecond (flash : Flash) (s : Player) : Player :=
  if 1024 < s.voiceParam.voiceRemainSize then
    let s := w25qxxRead flash s (nextAddr s) .mem1 1024
    let s := setRemain s (s.voiceParam.voiceRemainSize - 1024)
    addDualByte s (1024/2)
  else
    let s := w25qxxRead flash s (nextAddr s) .mem1 s.voiceParam.voiceRemainSize
    let s := addDualByte s (s.voiceParam.voiceRemainSize/2)
    setRemain s 0

def loadShort (flash : Flash) (s : Player) : Player :=
  let s := w25qxxRead flash s s.voiceParam.voiceStartAddr .mem0 s.voiceParam.voiceTotalSize
  let s := addDualByte s (s.voiceParam.voiceTotalSize/2)
  let s := setRemain s 0
  let s := dmaTransmitDatalength s (s.voiceParam.voiceTotalSize/2)
  {s with usingMemBuff := 2}

def playVoiceStart (flash : Flash) (head : VoiceHead) (s : Player) (voiceIndex : UInt16) : Player :=
  let s := beginVoice head s voiceIndex
  let s := if 1024 ≤ s.voiceParam.voiceTotalSize then loadSecond flash (loadFirst flash s) else loadShort flash s
  i2sPlayStart (tas2505OutputSet s true)

-- The branches of i2s_dma_finish_handler for mem0 and mem1 differ only in the
-- buffer they fill and in the value that asks for the other one next.
def refill (flash : Flash) (s : Player) (mem : Mem) (next : UInt8) : Player :=
  let s :=
    if 1024 ≤ s.voiceParam.voiceRemainSize then
      let s := w25qxxRead flash s (nextAddr s) mem 1024
      let s := addDualByte s (1024/2)
      setRemain s (s.voiceParam.voiceRemainSize - 1024)
    else
      let s := w25qxxRead flash s (nextAddr s) mem s.voiceParam.voiceRemainSize
      let s := dmaTransmitDatalength s (s.voiceParam.voiceRemainSize/2)
      let s := addDualByte s (s.voiceParam.voiceRemainSize/2)
      setRemain s 0
  {s with usingMemBuff := if s.voiceParam.voiceRemainSize = 0 then 2 else next}

def finishVoice (s : Player) : Player := {tas2505OutputSet (i2sPlayStop s) false with i2sBuffer := fun _ => Buffer.zero}

def i2sDmaFinishHandler (flash : Flash) (s : Player) : Player :=
  if s.usingMemBuff = 0 then refill flash s .mem0 1
  else if s.usingMemBuff = 1 then refill flash s .mem1 0
  else finishVoice s

def dma1Stream4IrqHandler (flash : Flash) (s : Player) : Player :=
  if s.dma.tcif then
    let s := {s with dma := {s.dma with tcif := false}}
    if s.i2sStopFlag = false then i2sDmaFinishHandler flash s else s
  else s

-- The end of a block: the stream has sent NDTR half-words of one buffer, goes on
-- with the other, and raises the interrupt. The bytes are those the buffer holds
-- now, which are those sent as long as no one filled it meanwhile.
def endBlock (s : Player) : Player :=
  {s with
    dma := {s.dma with tcif := true,ct := s.dma.ct.other}
    events := s.events ++ [.block s.dma.ct ((s.i2sBuffer s.dma.ct).bytes.take (2*s.dma.ndtr.toNat))]}

def transferComplete (flash : Flash) (s : Player) : Player :=
  if s.dma.enabled then
    let s := endBlock s
    if s.dma.itTc then dma1Stream4IrqHandler flash s else s
  else s

def playOut (flash : Flash) : Nat → Player → Player
  | 0,s => s
  | n+1,s => if s.dma.enabled then playOut flash n (transferComplete flash s) else s

def wire (events : List Event) : List UInt8 :=
  events.flatMap fun
    | .block _ bytes => bytes
    | _ => []

theorem read_append (flash : Flash) (addr : UInt32) (n m : Nat) :
    flash.read addr (n+m) = flash.read addr n ++ flash.read (addr + UInt32.ofNat n) m := by
  simp only [Flash.read,List.range_add,List.map_append,List.map_map]
  congr 1
  apply List.map_congr_left
  intro i _
  simp [UInt32.ofNat_add,UInt32.add_assoc]

@[simp] theorem read_length (flash : Flash) (addr : UInt32) (n : Nat) : (flash.read addr n).length = n := by
  simp [Flash.read]

@[simp] theorem other_other (mem : Mem) : mem.other.other = mem := by cases mem <;> rfl

@[simp] theorem other_ne (mem : Mem) : mem.other ≠ mem := by cases mem <;> decide

@[simp] theorem refill_keeps (flash : Flash) (s : Player) (mem : Mem) (next : UInt8) :
    (refill flash s mem next).dma.enabled = s.dma.enabled ∧ (refill flash s mem next).dma.itTc = s.dma.itTc ∧
      (refill flash s mem next).dma.ct = s.dma.ct ∧ (refill flash s mem next).i2sStopFlag = s.i2sStopFlag ∧
      (refill flash s mem next).voiceParam.voiceStartAddr = s.voiceParam.voiceStartAddr ∧
      (refill flash s mem next).voiceParam.voiceTotalSize = s.voiceParam.voiceTotalSize := by
  unfold refill
  split <;> exact ⟨rfl,rfl,rfl,rfl,rfl,rfl⟩

def remainAfter (remain : UInt32) : UInt32 := if 1024 ≤ remain then remain - 1024 else 0

@[simp] theorem refill_remain (flash : Flash) (s : Player) (mem : Mem) (next : UInt8) :
    (refill flash s mem next).voiceParam.voiceRemainSize = remainAfter s.voiceParam.voiceRemainSize := by
  unfold refill remainAfter
  split <;> rfl

@[simp] theorem refill_using (flash : Flash) (s : Player) (mem : Mem) (next : UInt8) :
    (refill flash s mem next).usingMemBuff =
      if remainAfter s.voiceParam.voiceRemainSize = 0 then 2 else next := by
  unfold refill remainAfter
  split <;> rfl

theorem enough_iff (size : UInt32) : 1024 ≤ size ↔ 1024 ≤ size.toNat := UInt32.le_iff_toNat_le

theorem over_iff (size : UInt32) : 1024 < size ↔ 1024 < size.toNat := UInt32.lt_iff_toNat_lt

theorem sub_toNat {size : UInt32} (enough : 1024 ≤ size) : (size - 1024).toNat = size.toNat - 1024 :=
  UInt32.toNat_sub_of_le _ _ enough

theorem remainAfter_toNat (remain : UInt32) : (remainAfter remain).toNat = remain.toNat - 1024 := by
  unfold remainAfter
  split
  · rename_i enough; exact sub_toNat enough
  · rename_i short
    rw [enough_iff] at short
    simp only [UInt32.toNat_zero]
    omega

structure Live (s : Player) : Prop where
  enabled : s.dma.enabled = true
  itTc : s.dma.itTc = true
  going : s.i2sStopFlag = false

-- The state in which the interrupt calls the handler: CT has been toggled and the
-- flag cleared.
def interrupted (s : Player) : Player := {endBlock s with dma := {(endBlock s).dma with tcif := false}}

@[simp] theorem interrupted_keeps (s : Player) : (interrupted s).i2sBuffer = s.i2sBuffer ∧
    (interrupted s).voiceParam = s.voiceParam ∧ (interrupted s).usingMemBuff = s.usingMemBuff ∧
    (interrupted s).i2sStopFlag = s.i2sStopFlag ∧ (interrupted s).reads = s.reads ∧
    (interrupted s).dma = {s.dma with tcif := false,ct := s.dma.ct.other} := ⟨rfl,rfl,rfl,rfl,rfl,rfl⟩

theorem live_transferComplete {flash : Flash} {s : Player} (live : Live s) :
    transferComplete flash s = i2sDmaFinishHandler flash (interrupted s) := by
  simp [transferComplete,dma1Stream4IrqHandler,interrupted,endBlock,live.enabled,live.itTc,live.going]

-- The buffer a call of the handler fills, with the next value of m_using_mem_buff.
def refillTarget (usingMemBuff : UInt8) : Option (Mem × UInt8) :=
  if usingMemBuff = 0 then some (.mem0,1) else if usingMemBuff = 1 then some (.mem1,0) else none

theorem handler_refills {flash : Flash} {s : Player} {mem : Mem} {next : UInt8}
    (target : refillTarget s.usingMemBuff = some (mem,next)) : i2sDmaFinishHandler flash s = refill flash s mem next := by
  unfold refillTarget at target
  unfold i2sDmaFinishHandler
  split at target
  · rename_i first; cases target; rw [if_pos first]
  · rename_i first
    split at target
    · rename_i second; cases target; rw [if_neg first,if_pos second]
    · cases target

theorem handler_finishes {flash : Flash} {s : Player} (target : refillTarget s.usingMemBuff = none) :
    i2sDmaFinishHandler flash s = finishVoice s := by
  unfold refillTarget at target
  unfold i2sDmaFinishHandler
  split at target
  · cases target
  · rename_i first
    split at target
    · cases target
    · rename_i second; rw [if_neg first,if_neg second]

end SssAlarmHost.VoicePlayer
