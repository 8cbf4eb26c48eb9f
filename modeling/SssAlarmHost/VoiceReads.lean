import SssAlarmHost.PlayerRuns
import SssAlarmHost.Restart

namespace SssAlarmHost.VoicePlayer

-- i2s_dma_finish_handler called again and again with nothing in between.
def handlerCalls (flash : Flash) : Nat → Player → Player
  | 0,s => s
  | n+1,s => handlerCalls flash n (i2sDmaFinishHandler flash s)

-- The states after play_voice_start and after each call of the handler, the one
-- that stops included. The count is known from the size alone.
def playStates (flash : Flash) (head : VoiceHead) (s : Player) (voiceIndex : UInt16) : List Player :=
  (List.range (interruptCount (head voiceIndex).size + 1)).map fun n =>
    handlerCalls flash n (playVoiceStart flash head s voiceIndex)

def playToStop (flash : Flash) (head : VoiceHead) (s : Player) (voiceIndex : UInt16) : Player :=
  handlerCalls flash (interruptCount (head voiceIndex).size) (playVoiceStart flash head s voiceIndex)

variable (flash : Flash) {s : Player}

theorem handlerCalls_succ (n : Nat) : handlerCalls flash (n+1) s = i2sDmaFinishHandler flash (handlerCalls flash n s) := by
  induction n generalizing s with
  | zero => rfl
  | succ n ih => exact ih

theorem calls_invariant (Inv : Nat → Player → Prop)
    (kept : ∀ k s mem next, refillTarget s.usingMemBuff = some (mem,next) → Inv k s → Inv (k+1) (refill flash s mem next))
    {k : Nat} (valid : Inv k s) {n : Nat} (before : n < pending s) :
    Inv (k+n) (handlerCalls flash n s) ∧ pending (handlerCalls flash n s) + n = pending s := by
  induction n generalizing s k with
  | zero => exact ⟨valid,rfl⟩
  | succ n ih =>
    cases target : refillTarget s.usingMemBuff with
    | none => rw [finish_pending target] at before; omega
    | some pair =>
      have count := refill_counts flash target
      obtain ⟨validN,countN⟩ := ih (kept k s pair.1 pair.2 target valid) (by omega)
      simp only [handlerCalls,handler_refills target]
      refine ⟨?_,by omega⟩
      rw [Nat.add_right_comm,Nat.add_assoc] at validN
      exact validN

theorem pending_one (last : pending s = 1) : refillTarget s.usingMemBuff = none := by
  cases target : refillTarget s.usingMemBuff with
  | none => rfl
  | some pair =>
    have count := refill_counts erased target
    have positive := pending_positive (refill erased s pair.1 pair.2)
    omega

end SssAlarmHost.VoicePlayer

namespace SssAlarmHost.VoicePlayer
open MachineRuns

-- The reads of flash into the buffers: which buffer, from where, how many bytes.
def bufferLoads (events : List Event) : List (Mem × UInt32 × UInt32) :=
  events.filterMap fun
    | .load mem addr bytes => some (mem,addr,bytes)
    | _ => none

-- Block k of the voice goes to the two buffers in turn.
def voiceChunk (info : VoiceInfo) (k : Nat) : Mem × UInt32 × UInt32 :=
  (turned .mem0 k,info.startAddr + UInt32.ofNat (1024*k),UInt32.ofNat (min 1024 (info.size.toNat - 1024*k)))

def voiceChunks (info : VoiceInfo) : List (Mem × UInt32 × UInt32) :=
  (List.range ((info.size.toNat + 1023)/1024)).map (voiceChunk info)

-- The variables of the voice after the first m of its blocks were asked for; past
-- the end of the voice nothing is left to ask for.
structure Chunked (before : List Event) (info : VoiceInfo) (m : Nat) (s : Player) : Prop where
  addr : s.voiceParam.voiceStartAddr = info.startAddr
  total : s.voiceParam.voiceTotalSize = info.size
  remain : s.voiceParam.voiceRemainSize.toNat = info.size.toNat - 1024*m
  dual : s.sendDualByte.toNat = min info.size.toNat (1024*m)/2
  reads : ∃ since, s.events = before ++ since ∧
    (bufferLoads since).filter (fun read => read.2.2 ≠ 0) = (voiceChunks info).take m ∧
    (∀ read ∈ bufferLoads since, read.2.2 ≤ 1024) ∧ Event.stop ∉ since

variable {flash : Flash} {before : List Event} {info : VoiceInfo} {s t : Player} {m : Nat}

theorem chunked_bounded (chunked : Chunked before info m s) : s.voiceParam.voiceRemainSize ≤ s.voiceParam.voiceTotalSize := by
  rw [UInt32.le_iff_toNat_le,chunked.remain,chunked.total]
  omega

theorem blockSize_toNat (remain : UInt32) : (blockSize remain).toNat = min 1024 remain.toNat := by
  unfold blockSize
  split
  · rename_i enough
    rw [enough_iff] at enough
    exact (Nat.min_eq_left enough).symm
  · rename_i short
    rw [enough_iff] at short
    omega

theorem chunk_read (chunked : Chunked before info m s) :
    [(turned .mem0 m,nextAddr s,blockSize s.voiceParam.voiceRemainSize)].filter (fun read => read.2.2 ≠ 0) =
      (voiceChunks info)[m]?.toList := by
  have left := chunked.remain
  have bound := info.size.toNat_lt
  have block := blockSize_toNat s.voiceParam.voiceRemainSize
  by_cases more : 1024*m < info.size.toNat
  · have inside : m < (info.size.toNat + 1023)/1024 := by omega
    have bytes : blockSize s.voiceParam.voiceRemainSize = UInt32.ofNat (min 1024 (info.size.toNat - 1024*m)) := by
      apply UInt32.toNat_inj.mp
      rw [block,left,UInt32.toNat_ofNat',Nat.mod_eq_of_lt (by omega)]
    have some' : blockSize s.voiceParam.voiceRemainSize ≠ 0 := by
      intro none'
      rw [none',UInt32.toNat_zero] at block
      omega
    have addr : nextAddr s = info.startAddr + UInt32.ofNat (1024*m) := by
      unfold nextAddr
      rw [chunked.addr,chunked.total]
      congr 1
      apply UInt32.toNat_inj.mp
      rw [UInt32.toNat_sub_of_le _ _ (UInt32.le_iff_toNat_le.mpr (by omega)),left,UInt32.toNat_ofNat',
        Nat.mod_eq_of_lt (by omega)]
      omega
    simp [voiceChunks,inside,voiceChunk,some',← bytes,addr]
  · have outside : (info.size.toNat + 1023)/1024 ≤ m := by omega
    have none' : blockSize s.voiceParam.voiceRemainSize = 0 := by
      apply UInt32.toNat_inj.mp
      rw [block,UInt32.toNat_zero]
      omega
    simp [voiceChunks,outside,none']

-- Every path that fills a buffer takes one block: it reads the block, counts its
-- half-words and takes it off the remainder.
theorem chunk_step (chunked : Chunked before info m s) (more : List Event)
    (addr : t.voiceParam.voiceStartAddr = s.voiceParam.voiceStartAddr)
    (total : t.voiceParam.voiceTotalSize = s.voiceParam.voiceTotalSize)
    (remain : t.voiceParam.voiceRemainSize = remainAfter s.voiceParam.voiceRemainSize)
    (dual : t.sendDualByte = s.sendDualByte + blockSize s.voiceParam.voiceRemainSize/2)
    (events : t.events = s.events ++ more)
    (load : bufferLoads more = [(turned .mem0 m,nextAddr s,blockSize s.voiceParam.voiceRemainSize)])
    (goes : Event.stop ∉ more) : Chunked before info (m+1) t := by
  have left := chunked.remain
  have counted := chunked.dual
  have bound := info.size.toNat_lt
  have block := blockSize_toNat s.voiceParam.voiceRemainSize
  obtain ⟨since,shape,reads,short,going⟩ := chunked.reads
  refine ⟨addr.trans chunked.addr,total.trans chunked.total,?_,?_,since ++ more,?_,?_,?_,?_⟩
  · rw [remain,remainAfter_toNat,left]
    omega
  · rw [dual,UInt32.toNat_add,UInt32.toNat_div,block,counted,left]
    simp only [UInt32.reduceToNat]
    omega
  · rw [events,shape,List.append_assoc]
  · have joined : bufferLoads (since ++ more) = bufferLoads since ++ bufferLoads more := List.filterMap_append
    rw [joined,List.filter_append,reads,load,chunk_read chunked,List.take_add_one]
  · intro read member
    have joined : bufferLoads (since ++ more) = bufferLoads since ++ bufferLoads more := List.filterMap_append
    rw [joined,load,List.mem_append,List.mem_singleton] at member
    rcases member with old | rfl
    · exact short read old
    · rw [UInt32.le_iff_toNat_le]
      simp only [block,UInt32.reduceToNat]
      omega
  · intro stopped
    rcases List.mem_append.mp stopped with old | new
    · exact going old
    · exact goes new

theorem turned_other (mem : Mem) (blocks : Nat) : turned mem (blocks+1) = (turned mem blocks).other := by
  unfold turned
  rcases Nat.mod_two_eq_zero_or_one blocks with even | odd
  · rw [if_neg (by omega : ¬(blocks+1) % 2 = 0),if_pos even]
  · rw [if_pos (by omega : (blocks+1) % 2 = 0),if_neg (by omega : ¬blocks % 2 = 0),other_other]

theorem refill_dual (flash : Flash) (s : Player) (mem : Mem) (next : UInt8) : (refill flash s mem next).sendDualByte =
    s.sendDualByte + blockSize s.voiceParam.voiceRemainSize/2 := by
  unfold refill blockSize
  split <;> simp [w25qxxRead,addDualByte,setRemain,dmaTransmitDatalength]

theorem refill_events (flash : Flash) (s : Player) (mem : Mem) (next : UInt8) : ∃ more,
    (refill flash s mem next).events = s.events ++ more ∧
      bufferLoads more = [(mem,nextAddr s,blockSize s.voiceParam.voiceRemainSize)] ∧ Event.stop ∉ more := by
  unfold refill blockSize
  by_cases enough : 1024 ≤ s.voiceParam.voiceRemainSize
  · exact ⟨[.load mem (nextAddr s) 1024],by simp [enough,w25qxxRead,addDualByte,setRemain],by simp [enough,bufferLoads],by simp⟩
  · refine ⟨[.load mem (nextAddr s) s.voiceParam.voiceRemainSize,.datalength (s.voiceParam.voiceRemainSize/2)],?_,
      by simp [enough,bufferLoads],by simp⟩
    simp [enough,w25qxxRead,addDualByte,setRemain,dmaTransmitDatalength]

structure Reading (before : List Event) (info : VoiceInfo) (m : Nat) (s : Player) : Prop where
  chunked : Chunked before info m s
  turn : ∀ mem next, refillTarget s.usingMemBuff = some (mem,next) → mem = turned .mem0 m

theorem refill_reading {mem : Mem} {next : UInt8} (target : refillTarget s.usingMemBuff = some (mem,next))
    (reading : Reading before info m s) : Reading before info (m+1) (refill flash s mem next) := by
  have turn := reading.turn mem next target
  obtain ⟨more,events,load,goes⟩ := refill_events flash s mem next
  rw [turn] at load
  refine ⟨?_,?_⟩
  · exact chunk_step reading.chunked more (by simp) (by simp) (by simp) (refill_dual flash s mem next) events load goes
  · intro mem' next' target'
    rw [refill_using] at target'
    split at target'
    · cases target'
    · rw [target_next target] at target'
      cases target'
      rw [turned_other,turn]

variable {head : VoiceHead} {voiceIndex : UInt16}

theorem begin_chunked : Chunked s.events (head voiceIndex) 0 (beginVoice head s voiceIndex) :=
  ⟨rfl,rfl,rfl,by simp [beginVoice],[],by simp [beginVoice],by simp [bufferLoads],by simp [bufferLoads],by simp⟩

theorem first_chunked (long : 1024 ≤ (head voiceIndex).size) :
    Chunked s.events (head voiceIndex) 1 (loadFirst flash (beginVoice head s voiceIndex)) := by
  have remain : (beginVoice head s voiceIndex).voiceParam.voiceRemainSize = (head voiceIndex).size := rfl
  have addr : nextAddr (beginVoice head s voiceIndex) = (beginVoice head s voiceIndex).voiceParam.voiceStartAddr := by
    simp [nextAddr,beginVoice]
  refine chunk_step begin_chunked
    [.datalength 512,.load .mem0 (beginVoice head s voiceIndex).voiceParam.voiceStartAddr 1024] rfl rfl ?_ ?_ ?_ ?_ (by simp)
  · simp [loadFirst,setRemain,addDualByte,remain,remainAfter,long,w25qxxRead,dmaTransmitDatalength]
  · simp [loadFirst,setRemain,addDualByte,remain,blockSize,long,w25qxxRead,dmaTransmitDatalength]
  · simp [loadFirst,setRemain,addDualByte,w25qxxRead,dmaTransmitDatalength]
  · rw [addr,remain]
    simp [bufferLoads,blockSize,long,turned]

theorem second_chunked {p : Player} (chunked : Chunked before info 1 p) :
    Chunked before info 2 (i2sPlayStart (tas2505OutputSet (loadSecond flash p) true)) := by
  by_cases two : 1024 < p.voiceParam.voiceRemainSize
  · have enough := UInt32.le_of_lt two
    refine chunk_step chunked [.load .mem1 (nextAddr p) 1024,.output true,.start] ?_ ?_ ?_ ?_ ?_ ?_ (by simp)
    · simp [loadSecond,two,setRemain,addDualByte,w25qxxRead,tas2505OutputSet,i2sPlayStart]
    · simp [loadSecond,two,setRemain,addDualByte,w25qxxRead,tas2505OutputSet,i2sPlayStart]
    · simp [loadSecond,two,setRemain,addDualByte,w25qxxRead,tas2505OutputSet,i2sPlayStart,remainAfter,enough]
    · simp [loadSecond,two,setRemain,addDualByte,w25qxxRead,tas2505OutputSet,i2sPlayStart,blockSize,enough]
    · simp [loadSecond,two,setRemain,addDualByte,w25qxxRead,tas2505OutputSet,i2sPlayStart]
    · simp [bufferLoads,blockSize,enough,turned,Mem.other]
  · have rest : blockSize p.voiceParam.voiceRemainSize = p.voiceParam.voiceRemainSize := by
      apply UInt32.toNat_inj.mp
      rw [over_iff] at two
      rw [blockSize_toNat]
      omega
    have none' : remainAfter p.voiceParam.voiceRemainSize = 0 := by
      apply UInt32.toNat_inj.mp
      rw [over_iff] at two
      rw [remainAfter_toNat,UInt32.toNat_zero]
      omega
    refine chunk_step chunked [.load .mem1 (nextAddr p) p.voiceParam.voiceRemainSize,.output true,.start]
      ?_ ?_ ?_ ?_ ?_ ?_ (by simp)
    · simp [loadSecond,two,setRemain,addDualByte,w25qxxRead,tas2505OutputSet,i2sPlayStart]
    · simp [loadSecond,two,setRemain,addDualByte,w25qxxRead,tas2505OutputSet,i2sPlayStart]
    · simp [loadSecond,two,setRemain,addDualByte,w25qxxRead,tas2505OutputSet,i2sPlayStart,none']
    · simp [loadSecond,two,setRemain,addDualByte,w25qxxRead,tas2505OutputSet,i2sPlayStart,rest]
    · simp [loadSecond,two,setRemain,addDualByte,w25qxxRead,tas2505OutputSet,i2sPlayStart]
    · rw [rest]
      simp [bufferLoads,turned,Mem.other]

theorem short_chunked (short : ¬1024 ≤ (head voiceIndex).size) : Chunked s.events (head voiceIndex) 1
    (i2sPlayStart (tas2505OutputSet (loadShort flash (beginVoice head s voiceIndex)) true)) := by
  have remain : (beginVoice head s voiceIndex).voiceParam.voiceRemainSize = (head voiceIndex).size := rfl
  have total : (beginVoice head s voiceIndex).voiceParam.voiceTotalSize = (head voiceIndex).size := rfl
  have addr : nextAddr (beginVoice head s voiceIndex) = (beginVoice head s voiceIndex).voiceParam.voiceStartAddr := by
    simp [nextAddr,beginVoice]
  refine chunk_step begin_chunked
    [.load .mem0 (beginVoice head s voiceIndex).voiceParam.voiceStartAddr (head voiceIndex).size,
      .datalength ((head voiceIndex).size/2),.output true,.start] ?_ ?_ ?_ ?_ ?_ ?_ (by simp)
  · simp [loadShort,setRemain,addDualByte,w25qxxRead,dmaTransmitDatalength,tas2505OutputSet,i2sPlayStart]
  · simp [loadShort,setRemain,addDualByte,w25qxxRead,dmaTransmitDatalength,tas2505OutputSet,i2sPlayStart]
  · simp [loadShort,setRemain,addDualByte,w25qxxRead,dmaTransmitDatalength,tas2505OutputSet,i2sPlayStart,remain,
      remainAfter,short]
  · simp [loadShort,setRemain,addDualByte,w25qxxRead,dmaTransmitDatalength,tas2505OutputSet,i2sPlayStart,remain,total,
      blockSize,short]
  · simp [loadShort,setRemain,addDualByte,w25qxxRead,dmaTransmitDatalength,tas2505OutputSet,i2sPlayStart,total]
  · rw [addr,remain]
    simp [bufferLoads,blockSize,short,turned]

def startChunks (size : UInt32) : Nat := if 1024 ≤ size then 2 else 1

theorem start_reading (flash : Flash) (head : VoiceHead) (s : Player) (voiceIndex : UInt16) : Reading s.events
    (head voiceIndex) (startChunks (head voiceIndex).size) (playVoiceStart flash head s voiceIndex) := by
  obtain ⟨_,using',_⟩ := start_control flash head s voiceIndex
  have total : (beginVoice head s voiceIndex).voiceParam.voiceTotalSize = (head voiceIndex).size := rfl
  refine ⟨?_,?_⟩
  · unfold playVoiceStart startChunks
    by_cases long : 1024 ≤ (head voiceIndex).size
    · simp only [total,long,if_true]
      exact second_chunked (first_chunked long)
    · simp only [total,long,if_false]
      exact short_chunked long
  · intro mem next target
    rw [using'] at target
    unfold startChunks
    by_cases long : 1024 ≤ (head voiceIndex).size
    · rw [if_pos long] at target ⊢
      cases target
      rfl
    · rw [if_neg long] at target
      cases target

-- play_voice_start with no one in between: what each statement finds in the
-- remainder and in the register of the two subtractions.
def Alone (old : UInt32) (info : VoiceInfo) (s : Restart) : Prop :=
  let remain := s.player.voiceParam.voiceRemainSize
  match s.pc with
  | .index | .startAddr | .totalSize => remain = old
  | .remainSize => remain = old ∧ s.player.voiceParam.voiceTotalSize = info.size
  | .sendDual | .usingMem | .testTotal => remain = info.size ∧ s.player.voiceParam.voiceTotalSize = info.size
  | .firstLength | .firstRead | .firstLoad =>
    (remain = info.size ∧ 1024 ≤ remain) ∧ s.player.voiceParam.voiceTotalSize = info.size
  | .secondRead | .secondLoad => (remain ≤ info.size ∧ 1024 ≤ remain) ∧ s.player.voiceParam.voiceTotalSize = info.size
  | .firstStore | .secondStore =>
    (remain ≤ info.size ∧ s.register ≤ info.size) ∧ s.player.voiceParam.voiceTotalSize = info.size
  | _ => remain ≤ info.size ∧ s.player.voiceParam.voiceTotalSize = info.size

theorem sub_le {size bound : UInt32} (enough : 1024 ≤ size) (fits : size ≤ bound) : size - 1024 ≤ bound := by
  rw [UInt32.le_iff_toNat_le] at fits ⊢
  rw [sub_toNat enough]
  omega

theorem statement_alone {old : UInt32} {s next : Restart} (alone : Alone old info s)
    (taken : statement flash voiceIndex info s = some next) : Alone old info next := by
  obtain ⟨p,pc,register⟩ := s
  cases pc with
  | index | startAddr | sendDual | usingMem => cases taken; exact alone
  | totalSize => cases taken; exact ⟨alone,rfl⟩
  | remainSize => cases taken; exact ⟨rfl,alone.2⟩
  | testTotal =>
    obtain ⟨remain,total⟩ := alone
    dsimp only at remain total
    cases taken
    by_cases long : 1024 ≤ p.voiceParam.voiceTotalSize
    · rw [if_pos long]
      rw [total] at long
      exact ⟨⟨remain,by rw [remain]; exact long⟩,total⟩
    · rw [if_neg long]
      exact ⟨UInt32.le_of_eq remain,total⟩
  | firstLength | firstRead | secondRead => cases taken; exact alone
  | firstLoad =>
    obtain ⟨⟨remain,enough⟩,total⟩ := alone
    cases taken
    exact ⟨⟨UInt32.le_of_eq remain,sub_le enough (UInt32.le_of_eq remain)⟩,total⟩
  | secondLoad =>
    obtain ⟨⟨fits,enough⟩,total⟩ := alone
    cases taken
    exact ⟨⟨fits,sub_le enough fits⟩,total⟩
  | firstStore | secondStore => cases taken; exact ⟨alone.1.2,alone.2⟩
  | firstDual | secondDual | restDual | shortDual => cases taken; simpa [Alone,addDualByte] using alone
  | testRemain =>
    obtain ⟨fits,total⟩ := alone
    cases taken
    by_cases more : 1024 < p.voiceParam.voiceRemainSize
    · rw [if_pos more]
      exact ⟨⟨fits,UInt32.le_of_lt more⟩,total⟩
    · rw [if_neg more]
      exact ⟨fits,total⟩
  | restRemain | shortRemain => cases taken; exact ⟨UInt32.zero_le,alone.2⟩
  | restRead | shortRead | shortLength | shortUsing | output | playStart => cases taken; exact alone
  | returned => cases taken

theorem alone_run (flash : Flash) (p : Player) (voiceIndex : UInt16) {n : Nat} {s : Restart}
    (ran : run (restartStep flash voiceIndex info) (called p) (List.replicate n .statement) = some s) :
    Alone p.voiceParam.voiceRemainSize info s := by
  induction n generalizing s with
  | zero => cases ran; rfl
  | succ n ih =>
    rw [List.replicate_succ',run_append] at ran
    obtain ⟨middle,reached,last⟩ := ran
    obtain ⟨next,taken,done⟩ := run_cons.mp last
    cases done
    exact statement_alone (ih reached) taken

def Pc.setsUp (pc : Pc) : Bool := pc = .index || pc = .startAddr || pc = .totalSize || pc = .remainSize

theorem alone_bounded {old : UInt32} {s : Restart} (alone : Alone old info s)
    (decided : s.pc.setsUp = false ∨ old = 0) :
    s.player.voiceParam.voiceRemainSize ≤ s.player.voiceParam.voiceTotalSize := by
  obtain ⟨p,pc,register⟩ := s
  cases pc with
  | index | startAddr | totalSize =>
    have zero : old = 0 := by simpa [Pc.setsUp] using decided
    have remain : p.voiceParam.voiceRemainSize = old := alone
    simp [remain,zero]
  | remainSize =>
    have zero : old = 0 := by simpa [Pc.setsUp] using decided
    have remain : p.voiceParam.voiceRemainSize = old := alone.1
    simp [remain,zero]
  | sendDual | usingMem | testTotal => exact UInt32.le_of_eq (alone.1.trans alone.2.symm)
  | firstLength | firstRead | firstLoad => exact UInt32.le_of_eq (alone.1.1.trans alone.2.symm)
  | secondRead | secondLoad | firstStore | secondStore => exact alone.2 ▸ alone.1.1
  | _ => exact alone.2 ▸ alone.1

theorem alone_subtracts {old : UInt32} {s : Restart} (alone : Alone old info s)
    (loading : s.pc = .firstLoad ∨ s.pc = .secondLoad) : 1024 ≤ s.player.voiceParam.voiceRemainSize := by
  obtain ⟨p,pc,register⟩ := s
  rcases loading with rfl | rfl
  · exact alone.1.2
  · exact alone.1.2

def eventsSince (s t : Player) : List Event := t.events.drop s.events.length

-- One play, from whatever was there before it to the call that stops it.
structure ReadsOnce (flash : Flash) (head : VoiceHead) (s : Player) (voiceIndex : UInt16) : Prop where
  going : ∀ n < interruptCount (head voiceIndex).size,
    Event.stop ∉ eventsSince s (handlerCalls flash n (playVoiceStart flash head s voiceIndex))
  stops : Event.stop ∈ eventsSince s (playToStop flash head s voiceIndex)
  inOrder : (bufferLoads (eventsSince s (playToStop flash head s voiceIndex))).filter (fun read => read.2.2 ≠ 0) =
    voiceChunks (head voiceIndex)
  fits : ∀ read ∈ bufferLoads (eventsSince s (playToStop flash head s voiceIndex)), read.2.2 ≤ 1024
  startBounded : ∀ n at',
    run (restartStep flash voiceIndex (head voiceIndex)) (called s) (List.replicate n .statement) = some at' →
      at'.pc.setsUp = false ∨ s.voiceParam.voiceRemainSize = 0 →
        at'.player.voiceParam.voiceRemainSize ≤ at'.player.voiceParam.voiceTotalSize
  startSubtracts : ∀ n at',
    run (restartStep flash voiceIndex (head voiceIndex)) (called s) (List.replicate n .statement) = some at' →
      at'.pc = .firstLoad ∨ at'.pc = .secondLoad → 1024 ≤ at'.player.voiceParam.voiceRemainSize
  bounded : ∀ t ∈ playStates flash head s voiceIndex, t.voiceParam.voiceRemainSize ≤ t.voiceParam.voiceTotalSize
  subtracts : ∀ n < interruptCount (head voiceIndex).size,
    (handlerCalls flash (n+1) (playVoiceStart flash head s voiceIndex)).voiceParam.voiceRemainSize.toNat =
      (handlerCalls flash n (playVoiceStart flash head s voiceIndex)).voiceParam.voiceRemainSize.toNat - 1024
  counted : (playToStop flash head s voiceIndex).sendDualByte.toNat = (head voiceIndex).size.toNat/2

variable (flash : Flash) (head : VoiceHead) (s : Player) (voiceIndex : UInt16)

theorem calls_reading {n : Nat} (before : n < interruptCount (head voiceIndex).size) :
    Reading s.events (head voiceIndex) (startChunks (head voiceIndex).size + n)
        (handlerCalls flash n (playVoiceStart flash head s voiceIndex)) ∧
      pending (handlerCalls flash n (playVoiceStart flash head s voiceIndex)) + n =
        interruptCount (head voiceIndex).size := by
  rw [← start_pending flash head s voiceIndex] at before ⊢
  exact calls_invariant flash (Reading s.events (head voiceIndex))
    (fun _ _ _ _ target reading => refill_reading target reading) (start_reading flash head s voiceIndex) before

theorem calls_enough (size : UInt32) : size.toNat ≤ 1024*(startChunks size + (interruptCount size - 1)) := by
  unfold startChunks interruptCount
  by_cases long : 1024 ≤ size
  · have more := (enough_iff _).mp long
    rw [if_pos long,if_neg (by omega : ¬size.toNat < 1024)]
    omega
  · have less : size.toNat < 1024 := Nat.lt_of_not_le fun more => long ((enough_iff _).mpr more)
    rw [if_neg long,if_pos less]
    omega

theorem calls_last : ∃ last, playToStop flash head s voiceIndex = finishVoice last ∧
    handlerCalls flash (interruptCount (head voiceIndex).size - 1) (playVoiceStart flash head s voiceIndex) = last ∧
      ∃ m, Reading s.events (head voiceIndex) m last ∧ (head voiceIndex).size.toNat ≤ 1024*m := by
  have positive := interruptCount_positive (head voiceIndex).size
  obtain ⟨reading,count⟩ := calls_reading flash head s voiceIndex (n := interruptCount (head voiceIndex).size - 1) (by omega)
  have enough := calls_enough (head voiceIndex).size
  have stops : i2sDmaFinishHandler flash (handlerCalls flash (interruptCount (head voiceIndex).size - 1)
      (playVoiceStart flash head s voiceIndex)) = finishVoice (handlerCalls flash
        (interruptCount (head voiceIndex).size - 1) (playVoiceStart flash head s voiceIndex)) :=
    handler_finishes (pending_one (by omega))
  refine ⟨_,?_,rfl,_,reading,enough⟩
  rw [← stops,← handlerCalls_succ,Nat.sub_add_cancel positive]
  rfl

theorem stopped_bounded : (playToStop flash head s voiceIndex).voiceParam.voiceRemainSize ≤
    (playToStop flash head s voiceIndex).voiceParam.voiceTotalSize := by
  obtain ⟨last,stopped,_,_,reading,_⟩ := calls_last flash head s voiceIndex
  rw [stopped]
  exact chunked_bounded (s := last) reading.chunked

theorem calls_bounded : ∀ t ∈ playStates flash head s voiceIndex,
    t.voiceParam.voiceRemainSize ≤ t.voiceParam.voiceTotalSize := by
  intro t member
  obtain ⟨n,inside,rfl⟩ := List.mem_map.mp member
  rcases Nat.lt_succ_iff_lt_or_eq.mp (List.mem_range.mp inside) with before | done
  · exact chunked_bounded (calls_reading flash head s voiceIndex before).1.chunked
  · subst done
    exact stopped_bounded flash head s voiceIndex

-- The call that stops takes nothing off: nothing is left by then.
theorem calls_subtract {n : Nat} (before : n < interruptCount (head voiceIndex).size) :
    (handlerCalls flash (n+1) (playVoiceStart flash head s voiceIndex)).voiceParam.voiceRemainSize.toNat =
      (handlerCalls flash n (playVoiceStart flash head s voiceIndex)).voiceParam.voiceRemainSize.toNat - 1024 := by
  have here := (calls_reading flash head s voiceIndex before).1.chunked.remain
  rcases Nat.lt_or_eq_of_le (Nat.succ_le_of_lt before) with more | done
  · have next := (calls_reading flash head s voiceIndex more).1.chunked.remain
    rw [here,next]
    omega
  · obtain ⟨last,stopped,reached,m,reading,all⟩ := calls_last flash head s voiceIndex
    have again : n = interruptCount (head voiceIndex).size - 1 := by omega
    have now : handlerCalls flash (n+1) (playVoiceStart flash head s voiceIndex) = finishVoice last := by
      rw [← stopped,playToStop,← done]
    have left := reading.chunked.remain
    have same : (finishVoice last).voiceParam = last.voiceParam := rfl
    rw [now,same,again,reached,left]
    omega

theorem reads_once : ReadsOnce flash head s voiceIndex := by
  obtain ⟨last,stopped,reached,m,reading,all⟩ := calls_last flash head s voiceIndex
  obtain ⟨since,shape,inOrder,fits,going⟩ := reading.chunked.reads
  have tail : eventsSince s (playToStop flash head s voiceIndex) = since ++ [.stop,.output false] := by
    rw [stopped]
    simp [eventsSince,finishVoice,tas2505OutputSet,i2sPlayStop,shape]
  have loaded : bufferLoads (since ++ [.stop,.output false]) = bufferLoads since := by simp [bufferLoads]
  have chunks : (voiceChunks (head voiceIndex)).take m = voiceChunks (head voiceIndex) :=
    List.take_of_length_le (by simp [voiceChunks]; omega)
  constructor
  case going =>
    intro n before
    obtain ⟨⟨chunked,_⟩,_⟩ := calls_reading flash head s voiceIndex before
    obtain ⟨earlier,events,_,_,goes⟩ := chunked.reads
    simpa [eventsSince,events] using goes
  case stops =>
    rw [tail]
    simp
  case inOrder => rw [tail,loaded,inOrder,chunks]
  case fits =>
    rw [tail,loaded]
    exact fits
  case startBounded =>
    intro n at' ran decided
    exact alone_bounded (alone_run flash s voiceIndex ran) decided
  case startSubtracts =>
    intro n at' ran loading
    exact alone_subtracts (alone_run flash s voiceIndex ran) loading
  case bounded => exact calls_bounded flash head s voiceIndex
  case subtracts =>
    intro n before
    exact calls_subtract flash head s voiceIndex before
  case counted =>
    rw [stopped]
    have dual : (finishVoice last).sendDualByte = last.sendDualByte := rfl
    rw [dual,reading.chunked.dual,Nat.min_eq_left all]

end SssAlarmHost.VoicePlayer
