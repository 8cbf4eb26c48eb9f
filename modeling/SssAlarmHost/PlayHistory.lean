import SssAlarmHost.VoiceReads

namespace SssAlarmHost.VoicePlayer

-- A completed play: its flash says which of its reads failed.
structure PastPlay where
  flash : Flash
  head : VoiceHead
  voiceIndex : UInt16

def history : List PastPlay → Player :=
  List.foldl (fun s play => playToStop play.flash play.head s play.voiceIndex) initialised

-- A flash whose reads fail by a pattern that starts with the next read.
def flashFrom (content : UInt32 → UInt8) (succeeds : Nat → Bool) (s : Player) : Flash :=
  ⟨content,fun k => succeeds (k - s.reads)⟩

structure Observation where
  i2sBuffer : Mem → Buffer
  voiceParam : VoiceParam
  usingMemBuff : UInt8
  sendDualByte : UInt32
  transmitDataLength : UInt32
  ndtr : UInt32

def observe (s : Player) : Observation :=
  ⟨s.i2sBuffer,s.voiceParam,s.usingMemBuff,s.sendDualByte,s.transmitDataLength,s.dma.ndtr⟩

-- Both buffers silent and the stream off: every play ends so.
structure Idle (s : Player) : Prop where
  silent : ∀ mem, s.i2sBuffer mem = Buffer.zero
  off : s.dma.enabled = false

theorem playToStop_idle (flash : Flash) (head : VoiceHead) (s : Player) (voiceIndex : UInt16) :
    Idle (playToStop flash head s voiceIndex) := by
  obtain ⟨last,stopped,_⟩ := calls_last flash head s voiceIndex
  rw [stopped]
  exact ⟨fun _ => rfl,rfl⟩

theorem foldl_idle (plays : List PastPlay) {s : Player} (idle : Idle s) :
    Idle (plays.foldl (fun s play => playToStop play.flash play.head s play.voiceIndex) s) := by
  induction plays generalizing s with
  | nil => exact idle
  | cons play rest ih => exact ih (playToStop_idle play.flash play.head s play.voiceIndex)

theorem history_idle (plays : List PastPlay) : Idle (history plays) := foldl_idle plays ⟨fun _ => rfl,rfl⟩

-- Two players in the same play, whatever happened to them before it. The lengths
-- are the same only once the play has programmed its own.
structure Alike (f g : Flash) (before after : List Event) (s t : Player) : Prop where
  buffers : s.i2sBuffer = t.i2sBuffer
  param : s.voiceParam = t.voiceParam
  using' : s.usingMemBuff = t.usingMemBuff
  dual : s.sendDualByte = t.sendDualByte
  enabled : s.dma.enabled = t.dma.enabled
  content : f.content = g.content
  pattern : ∀ k, f.succeeds (s.reads + k) = g.succeeds (t.reads + k)
  trace : ∃ since, s.events = before ++ since ∧ t.events = after ++ since

def SameLengths (s t : Player) : Prop := s.transmitDataLength = t.transmitDataLength ∧ s.dma.ndtr = t.dma.ndtr

variable {f g : Flash} {before after : List Event} {s t : Player}

theorem trace_snoc (trace : ∃ since, s.events = before ++ since ∧ t.events = after ++ since) (e : Event) :
    ∃ since, s.events ++ [e] = before ++ since ∧ t.events ++ [e] = after ++ since := by
  obtain ⟨since,first,second⟩ := trace
  exact ⟨since ++ [e],by rw [first,List.append_assoc],by rw [second,List.append_assoc]⟩

theorem alike_nextAddr (alike : Alike f g before after s t) : nextAddr s = nextAddr t := by
  unfold nextAddr
  rw [alike.param]

theorem alike_read (alike : Alike f g before after s t) (addr : UInt32) (mem : Mem) (bytes : UInt32) :
    Alike f g before after (w25qxxRead f s addr mem bytes) (w25qxxRead g t addr mem bytes) := by
  have now := alike.pattern 0
  refine ⟨?_,alike.param,alike.using',alike.dual,alike.enabled,alike.content,?_,trace_snoc alike.trace _⟩
  · simp only [Nat.add_zero] at now
    simp only [w25qxxRead,now,alike.buffers,Flash.read,alike.content]
  · intro k
    have later := alike.pattern (1+k)
    simpa only [w25qxxRead,Nat.add_assoc] using later

theorem alike_setRemain (alike : Alike f g before after s t) (remain : UInt32) :
    Alike f g before after (setRemain s remain) (setRemain t remain) :=
  ⟨alike.buffers,by simp [setRemain,alike.param],alike.using',alike.dual,alike.enabled,alike.content,alike.pattern,alike.trace⟩

theorem alike_addDualByte (alike : Alike f g before after s t) (halfWords : UInt32) :
    Alike f g before after (addDualByte s halfWords) (addDualByte t halfWords) :=
  ⟨alike.buffers,alike.param,alike.using',by simp [addDualByte,alike.dual],alike.enabled,alike.content,alike.pattern,
    alike.trace⟩

theorem alike_datalength (alike : Alike f g before after s t) (dataLength : UInt32) :
    Alike f g before after (dmaTransmitDatalength s dataLength) (dmaTransmitDatalength t dataLength) :=
  ⟨alike.buffers,alike.param,alike.using',alike.dual,alike.enabled,alike.content,alike.pattern,trace_snoc alike.trace _⟩

theorem alike_using (alike : Alike f g before after s t) (value : UInt8) :
    Alike f g before after {s with usingMemBuff := value} {t with usingMemBuff := value} :=
  ⟨alike.buffers,alike.param,rfl,alike.dual,alike.enabled,alike.content,alike.pattern,alike.trace⟩

theorem alike_starts (alike : Alike f g before after s t) :
    Alike f g before after (i2sPlayStart (tas2505OutputSet s true)) (i2sPlayStart (tas2505OutputSet t true)) :=
  ⟨alike.buffers,alike.param,alike.using',alike.dual,rfl,alike.content,alike.pattern,
    trace_snoc (s := tas2505OutputSet s true) (t := tas2505OutputSet t true) (trace_snoc alike.trace _) _⟩

theorem alike_finish (alike : Alike f g before after s t) : Alike f g before after (finishVoice s) (finishVoice t) :=
  ⟨rfl,alike.param,alike.using',alike.dual,rfl,alike.content,alike.pattern,
    trace_snoc (s := i2sPlayStop s) (t := i2sPlayStop t) (trace_snoc alike.trace _) _⟩

theorem begin_alike (head : VoiceHead) (voiceIndex : UInt16) (content : f.content = g.content)
    (pattern : ∀ k, f.succeeds (s.reads + k) = g.succeeds (t.reads + k)) (first : Idle s) (second : Idle t) :
    Alike f g s.events t.events (beginVoice head s voiceIndex) (beginVoice head t voiceIndex) :=
  ⟨funext fun mem => (first.silent mem).trans (second.silent mem).symm,rfl,rfl,rfl,first.off.trans second.off.symm,content,
    pattern,[],(List.append_nil _).symm,(List.append_nil _).symm⟩

theorem datalength_same (first : s.dma.enabled = false) (second : t.dma.enabled = false) (dataLength : UInt32) :
    SameLengths (dmaTransmitDatalength s dataLength) (dmaTransmitDatalength t dataLength) :=
  ⟨rfl,by simp [dmaTransmitDatalength,first,second]⟩

theorem datalength_keeps (enabled : s.dma.enabled = t.dma.enabled) (same : SameLengths s t) (dataLength : UInt32) :
    SameLengths (dmaTransmitDatalength s dataLength) (dmaTransmitDatalength t dataLength) :=
  ⟨rfl,by simp [dmaTransmitDatalength,enabled,same.2]⟩

theorem loadFirst_alike (alike : Alike f g before after s t) (first : s.dma.enabled = false)
    (second : t.dma.enabled = false) :
    Alike f g before after (loadFirst f s) (loadFirst g t) ∧ SameLengths (loadFirst f s) (loadFirst g t) := by
  have programmed := alike_datalength alike (1024/2)
  have read := alike_read programmed t.voiceParam.voiceStartAddr .mem0 1024
  have left := alike_setRemain read (t.voiceParam.voiceRemainSize - 1024)
  have counted := alike_addDualByte left (1024/2)
  have lengths := datalength_same first second (1024/2)
  unfold loadFirst
  simp only [w25qxxRead,dmaTransmitDatalength,alike.param] at counted lengths ⊢
  exact ⟨counted,lengths⟩

theorem loadSecond_alike (alike : Alike f g before after s t) (same : SameLengths s t) :
    Alike f g before after (loadSecond f s) (loadSecond g t) ∧ SameLengths (loadSecond f s) (loadSecond g t) := by
  have addr := alike_nextAddr alike
  by_cases two : 1024 < t.voiceParam.voiceRemainSize
  · have read := alike_read alike (nextAddr t) .mem1 1024
    have left := alike_setRemain read (t.voiceParam.voiceRemainSize - 1024)
    have counted := alike_addDualByte left (1024/2)
    unfold loadSecond
    simp only [if_pos two,w25qxxRead,addr,alike.param] at counted ⊢
    exact ⟨counted,same⟩
  · have read := alike_read alike (nextAddr t) .mem1 t.voiceParam.voiceRemainSize
    have counted := alike_addDualByte read (t.voiceParam.voiceRemainSize/2)
    have left := alike_setRemain counted 0
    unfold loadSecond
    simp only [if_neg two,w25qxxRead,addr,alike.param] at left ⊢
    exact ⟨left,same⟩

theorem loadShort_alike (alike : Alike f g before after s t) (first : s.dma.enabled = false)
    (second : t.dma.enabled = false) :
    Alike f g before after (loadShort f s) (loadShort g t) ∧ SameLengths (loadShort f s) (loadShort g t) := by
  have read := alike_read alike t.voiceParam.voiceStartAddr .mem0 t.voiceParam.voiceTotalSize
  have counted := alike_addDualByte read (t.voiceParam.voiceTotalSize/2)
  have left := alike_setRemain counted 0
  have programmed := alike_datalength left (t.voiceParam.voiceTotalSize/2)
  have last := alike_using programmed 2
  have lengths := datalength_same first second (t.voiceParam.voiceTotalSize/2)
  unfold loadShort
  simp only [w25qxxRead,addDualByte,setRemain,dmaTransmitDatalength,alike.param] at last lengths ⊢
  exact ⟨last,lengths⟩

theorem playVoiceStart_alike (head : VoiceHead) (voiceIndex : UInt16) (content : f.content = g.content)
    (pattern : ∀ k, f.succeeds (s.reads + k) = g.succeeds (t.reads + k)) (first : Idle s) (second : Idle t) :
    Alike f g s.events t.events (playVoiceStart f head s voiceIndex) (playVoiceStart g head t voiceIndex) ∧
      SameLengths (playVoiceStart f head s voiceIndex) (playVoiceStart g head t voiceIndex) := by
  have began := begin_alike head voiceIndex content pattern first second
  have left : (beginVoice head s voiceIndex).voiceParam.voiceTotalSize = (head voiceIndex).size := rfl
  have right : (beginVoice head t voiceIndex).voiceParam.voiceTotalSize = (head voiceIndex).size := rfl
  unfold playVoiceStart
  by_cases long : 1024 ≤ (head voiceIndex).size
  · simp only [left,right,long,if_true]
    obtain ⟨one,lengths⟩ := loadFirst_alike began first.off second.off
    obtain ⟨two,kept⟩ := loadSecond_alike one lengths
    exact ⟨alike_starts two,kept⟩
  · simp only [left,right,long,if_false]
    obtain ⟨one,lengths⟩ := loadShort_alike began first.off second.off
    exact ⟨alike_starts one,lengths⟩

theorem refill_alike (alike : Alike f g before after s t) (same : SameLengths s t) (mem : Mem) (next : UInt8) :
    Alike f g before after (refill f s mem next) (refill g t mem next) ∧
      SameLengths (refill f s mem next) (refill g t mem next) := by
  have addr := alike_nextAddr alike
  by_cases enough : 1024 ≤ t.voiceParam.voiceRemainSize
  · have read := alike_read alike (nextAddr t) mem 1024
    have counted := alike_addDualByte read (1024/2)
    have left := alike_setRemain counted (t.voiceParam.voiceRemainSize - 1024)
    have last := alike_using left (if t.voiceParam.voiceRemainSize - 1024 = 0 then 2 else next)
    unfold refill
    simp only [if_pos enough,w25qxxRead,addDualByte,setRemain,addr,alike.param] at last ⊢
    exact ⟨last,same⟩
  · have read := alike_read alike (nextAddr t) mem t.voiceParam.voiceRemainSize
    have programmed := alike_datalength read (t.voiceParam.voiceRemainSize/2)
    have counted := alike_addDualByte programmed (t.voiceParam.voiceRemainSize/2)
    have left := alike_setRemain counted 0
    have last := alike_using left 2
    have lengths := datalength_keeps alike.enabled same (t.voiceParam.voiceRemainSize/2)
    unfold refill
    simp only [if_neg enough,w25qxxRead,addDualByte,setRemain,dmaTransmitDatalength,addr,alike.param,
      if_true] at last lengths ⊢
    exact ⟨last,lengths⟩

theorem handler_alike (alike : Alike f g before after s t) (same : SameLengths s t) :
    Alike f g before after (i2sDmaFinishHandler f s) (i2sDmaFinishHandler g t) ∧
      SameLengths (i2sDmaFinishHandler f s) (i2sDmaFinishHandler g t) := by
  cases target : refillTarget s.usingMemBuff with
  | none =>
    rw [handler_finishes target,handler_finishes (alike.using' ▸ target)]
    exact ⟨alike_finish alike,same⟩
  | some pair =>
    rw [handler_refills target,handler_refills (alike.using' ▸ target)]
    exact refill_alike alike same pair.1 pair.2

theorem calls_alike (alike : Alike f g before after s t) (same : SameLengths s t) (n : Nat) :
    Alike f g before after (handlerCalls f n s) (handlerCalls g n t) ∧
      SameLengths (handlerCalls f n s) (handlerCalls g n t) := by
  induction n generalizing s t with
  | zero => exact ⟨alike,same⟩
  | succ n ih =>
    obtain ⟨next,kept⟩ := handler_alike alike same
    exact ih next kept

theorem alike_observe (alike : Alike f g before after s t) (same : SameLengths s t) : observe s = observe t := by
  simp [observe,alike.buffers,alike.param,alike.using',alike.dual,same.1,same.2]

-- The buffers before the second one is filled, where play_voice_start fills both.
def firstFill (flash : Flash) (head : VoiceHead) (s : Player) (voiceIndex : UInt16) : List Player :=
  if 1024 ≤ (head voiceIndex).size then [loadFirst flash (beginVoice head s voiceIndex)] else []

-- All that a play shows: what it leaves after each of its steps, and its reads,
-- programmed lengths, outputs, start and stop in order.
structure PlayTrace where
  observations : List Observation
  events : List Event

def playTrace (flash : Flash) (head : VoiceHead) (s : Player) (voiceIndex : UInt16) : PlayTrace :=
  ⟨(firstFill flash head s voiceIndex ++ playStates flash head s voiceIndex).map observe,
    eventsSince s (playToStop flash head s voiceIndex)⟩

theorem idle_trace (head : VoiceHead) (voiceIndex : UInt16) (content : f.content = g.content)
    (pattern : ∀ k, f.succeeds (s.reads + k) = g.succeeds (t.reads + k)) (first : Idle s) (second : Idle t) :
    playTrace f head s voiceIndex = playTrace g head t voiceIndex := by
  obtain ⟨began,lengths⟩ := playVoiceStart_alike head voiceIndex content pattern first second
  have filled : (firstFill f head s voiceIndex).map observe = (firstFill g head t voiceIndex).map observe := by
    unfold firstFill
    split
    · obtain ⟨one,same⟩ := loadFirst_alike (begin_alike head voiceIndex content pattern first second) first.off second.off
      simp [alike_observe one same]
    · rfl
  have states : (playStates f head s voiceIndex).map observe = (playStates g head t voiceIndex).map observe := by
    simp only [playStates,List.map_map]
    apply List.map_congr_left
    intro n _
    obtain ⟨one,same⟩ := calls_alike began lengths n
    exact alike_observe one same
  obtain ⟨since,left,right⟩ := (calls_alike began lengths (interruptCount (head voiceIndex).size)).1.trace
  have events : eventsSince s (playToStop f head s voiceIndex) = eventsSince t (playToStop g head t voiceIndex) := by
    simp [eventsSince,playToStop,left,right]
  simp only [playTrace,List.map_append,filled,states,events]

-- Any two histories of completed plays, then the same entry from the same flash
-- with the same reads failing: every step leaves the same behind.
theorem play_ignores_history (first second : List PastPlay) (head : VoiceHead) (voiceIndex : UInt16)
    (content : UInt32 → UInt8) (succeeds : Nat → Bool) :
    playTrace (flashFrom content succeeds (history first)) head (history first) voiceIndex =
      playTrace (flashFrom content succeeds (history second)) head (history second) voiceIndex :=
  idle_trace head voiceIndex rfl (fun k => by simp [flashFrom]) (history_idle first) (history_idle second)

end SssAlarmHost.VoicePlayer
