import SssAlarmHost.PlayerRuns

namespace SssAlarmHost.VoicePlayer

variable {flash : Flash} {head : VoiceHead} {s : Player} {voiceIndex : UInt16}

def voice (flash : Flash) (info : VoiceInfo) : List UInt8 := flash.read info.startAddr info.size.toNat

-- Idle with CT at mem0, both buffers zero and nothing sent yet.
structure Fresh (s : Player) : Prop where
  idle : s.dma.enabled = false
  mem0 : s.dma.ct = .mem0
  silent : ∀ mem, s.i2sBuffer mem = Buffer.zero
  unsent : wire s.events = []

-- The line carried the voice and then nothing but zeros.
def PlaysWhole (flash : Flash) (head : VoiceHead) (s : Player) (voiceIndex : UInt16) : Prop :=
  ∃ zeros, wire (wholePlay flash head s voiceIndex).events =
    voice flash (head voiceIndex) ++ List.replicate zeros 0

theorem load_zero {data : List UInt8} (fits : data.length ≤ 1024) :
    (Buffer.zero.load data).bytes = data ++ List.replicate (1024 - data.length) 0 := by
  simp [Buffer.load,Buffer.zero,List.take_of_length_le fits]

theorem load_full (b : Buffer) {data : List UInt8} (full : data.length = 1024) : (b.load data).bytes = data := by
  have length : b.bytes.length = 1024 := b.length_eq
  simp only [Buffer.load]
  rw [List.take_of_length_le (Nat.le_of_eq full),full,← length,List.drop_length,List.append_nil]

theorem nextAddr_eq {n : Nat} (split : s.voiceParam.voiceRemainSize.toNat + n = s.voiceParam.voiceTotalSize.toNat) :
    nextAddr s = s.voiceParam.voiceStartAddr + UInt32.ofNat n := by
  have bound := s.voiceParam.voiceTotalSize.toNat_lt
  unfold nextAddr
  congr 1
  apply UInt32.toNat_inj.mp
  rw [UInt32.toNat_sub_of_le _ _ (UInt32.le_iff_toNat_le.mpr (by omega)),UInt32.toNat_ofNat',Nat.mod_eq_of_lt (by omega)]
  omega

variable (ok : ∀ k, flash.succeeds k = true)
include ok

theorem start_long (idle : s.dma.enabled = false) (long : 1024 ≤ (head voiceIndex).size) :
    (playVoiceStart flash head s voiceIndex).i2sBuffer .mem0 =
        (s.i2sBuffer .mem0).load (flash.read (head voiceIndex).startAddr 1024) ∧
      (playVoiceStart flash head s voiceIndex).i2sBuffer .mem1 = (s.i2sBuffer .mem1).load
        (flash.read ((head voiceIndex).startAddr + 1024) (min 1024 ((head voiceIndex).size.toNat - 1024))) ∧
      wire (playVoiceStart flash head s voiceIndex).events = wire s.events ∧
      (playVoiceStart flash head s voiceIndex).dma.ndtr = 512 := by
  have second : (head voiceIndex).size - ((head voiceIndex).size - 1024) = 1024 := by grind
  have left := sub_toNat long
  unfold playVoiceStart
  by_cases two : 1024 < (head voiceIndex).size - 1024
  · have room := (over_iff _).mp two
    have chunk : min 1024 ((head voiceIndex).size.toNat - 1024) = 1024 := by omega
    simp [beginVoice,long,two,loadFirst,loadSecond,dmaTransmitDatalength,setRemain,addDualByte,tas2505OutputSet,
      i2sPlayStart,nextAddr,second,chunk,idle,w25qxxRead,ok,wire]
  · have room : ¬1024 < ((head voiceIndex).size - 1024).toNat := fun more => two ((over_iff _).mpr more)
    have chunk : min 1024 ((head voiceIndex).size.toNat - 1024) = (head voiceIndex).size.toNat - 1024 := by omega
    simp [beginVoice,long,two,loadFirst,loadSecond,dmaTransmitDatalength,setRemain,addDualByte,tas2505OutputSet,
      i2sPlayStart,nextAddr,second,chunk,idle,w25qxxRead,ok,wire,left]

theorem start_short (idle : s.dma.enabled = false) (short : ¬1024 ≤ (head voiceIndex).size) :
    (playVoiceStart flash head s voiceIndex).i2sBuffer .mem0 =
        (s.i2sBuffer .mem0).load (voice flash (head voiceIndex)) ∧
      wire (playVoiceStart flash head s voiceIndex).events = wire s.events ∧
      (playVoiceStart flash head s voiceIndex).dma.ndtr = (head voiceIndex).size/2 := by
  unfold playVoiceStart
  simp [beginVoice,short,loadShort,dmaTransmitDatalength,setRemain,addDualByte,tas2505OutputSet,i2sPlayStart,idle,
    w25qxxRead,ok,wire,voice]

theorem refill_buffer (mem : Mem) (next : UInt8) : (refill flash s mem next).i2sBuffer = Function.update s.i2sBuffer mem
    ((s.i2sBuffer mem).load (flash.read (nextAddr s) (min 1024 s.voiceParam.voiceRemainSize.toNat))) := by
  unfold refill
  by_cases enough : 1024 ≤ s.voiceParam.voiceRemainSize
  · have chunk : min 1024 s.voiceParam.voiceRemainSize.toNat = 1024 := Nat.min_eq_left ((enough_iff _).mp enough)
    simp [enough,chunk,w25qxxRead,ok,addDualByte,setRemain]
  · have chunk : min 1024 s.voiceParam.voiceRemainSize.toNat = s.voiceParam.voiceRemainSize.toNat :=
      Nat.min_eq_right (Nat.le_of_not_le fun more => enough ((enough_iff _).mpr more))
    simp [enough,chunk,w25qxxRead,ok,addDualByte,setRemain,dmaTransmitDatalength]

omit ok

theorem refill_wire (flash : Flash) (mem : Mem) (next : UInt8) (running : s.dma.enabled = true) :
    wire (refill flash s mem next).events = wire s.events ∧ (refill flash s mem next).dma.ndtr = s.dma.ndtr := by
  unfold refill
  split <;> simp [w25qxxRead,addDualByte,setRemain,dmaTransmitDatalength,wire,running]

theorem interrupted_wire : wire (interrupted s).events =
    wire s.events ++ (s.i2sBuffer s.dma.ct).bytes.take (2*s.dma.ndtr.toNat) := by
  simp [interrupted,endBlock,wire]

theorem finishVoice_wire : wire (finishVoice s).events = wire s.events := by
  simp [finishVoice,tas2505OutputSet,i2sPlayStop,wire]

theorem wholePlay_wire : wire (wholePlay flash head s voiceIndex).events =
    wire (beforeStop flash head s voiceIndex).events ++
      ((beforeStop flash head s voiceIndex).i2sBuffer (beforeStop flash head s voiceIndex).dma.ct).bytes.take
        (2*(beforeStop flash head s voiceIndex).dma.ndtr.toNat) := by
  rw [(wholePlay_stops flash head s voiceIndex).2,finishVoice_wire,interrupted_wire]

theorem short_plays (ok : ∀ k, flash.succeeds k = true) (fresh : Fresh s) (even : (head voiceIndex).size.toNat % 2 = 0)
    (short : (head voiceIndex).size.toNat < 1024) :
    wire (wholePlay flash head s voiceIndex).events = voice flash (head voiceIndex) := by
  have small : ¬1024 ≤ (head voiceIndex).size := fun more => absurd ((enough_iff _).mp more) (by omega)
  obtain ⟨buffer,sent,ndtr⟩ := start_short ok fresh.idle small
  obtain ⟨_,_,ct⟩ := start_control flash head s voiceIndex
  have first : beforeStop flash head s voiceIndex = playVoiceStart flash head s voiceIndex := by
    simp [beforeStop,interruptCount,short,playOut]
  have length : (voice flash (head voiceIndex)).length = 2*((head voiceIndex).size/2).toNat := by
    simp only [voice,read_length,UInt32.toNat_div,UInt32.reduceToNat]
    omega
  rw [wholePlay_wire,first,sent,fresh.unsent,ct,fresh.mem0,buffer,ndtr,fresh.silent,
    load_zero (by simp [voice]; omega),← length]
  simp

theorem two_blocks_play (ok : ∀ k, flash.succeeds k = true) (fresh : Fresh s) (long : 1024 ≤ (head voiceIndex).size.toNat)
    (two : (head voiceIndex).size.toNat ≤ 2048) : wire (wholePlay flash head s voiceIndex).events =
      voice flash (head voiceIndex) ++ List.replicate (2048 - (head voiceIndex).size.toNat) 0 := by
  have enough := (enough_iff _).mpr long
  obtain ⟨front,back,sent,ndtr⟩ := start_long ok fresh.idle enough
  obtain ⟨param,using',ct⟩ := start_control flash head s voiceIndex
  rw [if_pos enough] at using'
  have target : refillTarget (playVoiceStart flash head s voiceIndex).usingMemBuff = some (.mem0,1) := by rw [using']; rfl
  have one : beforeStop flash head s voiceIndex =
      refill flash (interrupted (playVoiceStart flash head s voiceIndex)) .mem0 1 := by
    have count : interruptCount (head voiceIndex).size = 2 := by unfold interruptCount; split <;> omega
    rw [beforeStop,count,← refills_live flash (start_live flash head s voiceIndex) target]
    simp [playOut,(start_live flash head s voiceIndex).enabled]
  have first : ((playVoiceStart flash head s voiceIndex).i2sBuffer .mem0).bytes =
      flash.read (head voiceIndex).startAddr 1024 := by rw [front,load_full _ (by simp)]
  have second : ((playVoiceStart flash head s voiceIndex).i2sBuffer .mem1).bytes =
      flash.read ((head voiceIndex).startAddr + 1024) ((head voiceIndex).size.toNat - 1024) ++
        List.replicate (2048 - (head voiceIndex).size.toNat) 0 := by
    have rest : min 1024 ((head voiceIndex).size.toNat - 1024) = (head voiceIndex).size.toNat - 1024 := by omega
    have zeros : 1024 - ((head voiceIndex).size.toNat - 1024) = 2048 - (head voiceIndex).size.toNat := by omega
    rw [back,fresh.silent,rest,load_zero (by simp; omega),read_length,zeros]
  obtain ⟨quiet,kept⟩ := refill_wire flash (s := interrupted (playVoiceStart flash head s voiceIndex)) .mem0 1 rfl
  rw [fresh.mem0] at ct
  have split := read_append flash (head voiceIndex).startAddr 1024 ((head voiceIndex).size.toNat - 1024)
  rw [Nat.add_sub_cancel' long] at split
  rw [wholePlay_wire,one,quiet,kept,interrupted_wire,sent,fresh.unsent,refill_buffer ok]
  simp only [refill_keeps,interrupted_keeps,ct,Mem.other,ndtr,first]
  rw [Function.update_of_ne (by decide),second,voice,split]
  have whole : 2*(512 : UInt32).toNat = 1024 := rfl
  rw [whole,List.take_of_length_le (by simp),List.take_of_length_le (by simp; omega)]
  simp

-- A long voice after k blocks: they were its first k chunks, the block being sent
-- is the next one, and while chunks are left the other buffer holds the one after.
structure Carries (flash : Flash) (info : VoiceInfo) (k : Nat) (s : Player) : Prop where
  addr : s.voiceParam.voiceStartAddr = info.startAddr
  total : s.voiceParam.voiceTotalSize = info.size
  ndtr : s.dma.ndtr = 512
  sent : wire s.events = flash.read info.startAddr (1024*k)
  front : (s.i2sBuffer s.dma.ct).bytes = flash.read (info.startAddr + UInt32.ofNat (1024*k)) 1024
  ahead : ∀ mem next, refillTarget s.usingMemBuff = some (mem,next) → mem = s.dma.ct ∧
    (s.i2sBuffer mem.other).bytes = flash.read (info.startAddr + UInt32.ofNat (1024*(k+1))) 1024 ∧
    s.voiceParam.voiceRemainSize.toNat + 1024*(k+2) = info.size.toNat ∧ s.voiceParam.voiceRemainSize ≠ 0
  closing : refillTarget s.usingMemBuff = none → 1024*(k+1) < info.size.toNat ∧ info.size.toNat ≤ 1024*(k+2)

theorem start_carries (ok : ∀ k, flash.succeeds k = true) (fresh : Fresh s) (long : 2048 < (head voiceIndex).size.toNat) :
    Carries flash (head voiceIndex) 0 (playVoiceStart flash head s voiceIndex) := by
  have enough := (enough_iff _).mpr (by omega : 1024 ≤ (head voiceIndex).size.toNat)
  obtain ⟨front,back,sent,ndtr⟩ := start_long ok fresh.idle enough
  obtain ⟨param,using',ct⟩ := start_control flash head s voiceIndex
  rw [if_pos enough] at using'
  rw [fresh.mem0] at ct
  refine ⟨by rw [param],by rw [param],ndtr,by rw [sent,fresh.unsent]; rfl,?_,?_,?_⟩
  · rw [ct,front,load_full _ (by simp)]
    simp
  · intro mem next target
    rw [using'] at target
    cases target
    have remain := startRemain_toNat (head voiceIndex).size
    refine ⟨ct.symm,?_,by rw [param,remain]; omega,?_⟩
    · have chunk : min 1024 ((head voiceIndex).size.toNat - 1024) = 1024 := by omega
      simp only [Mem.other]
      rw [back,chunk,load_full _ (by simp)]
      simp
    · rw [param]
      intro zero
      have none' : startRemain (head voiceIndex).size = 0 := zero
      rw [none',UInt32.toNat_zero] at remain
      omega
  · intro target
    rw [using'] at target
    cases target

theorem carries_block {info : VoiceInfo} {k : Nat} (carries : Carries flash info k s) :
    wire s.events ++ (s.i2sBuffer s.dma.ct).bytes.take (2*s.dma.ndtr.toNat) = flash.read info.startAddr (1024*(k+1)) := by
  have whole : 2*(512 : UInt32).toNat = 1024 := rfl
  rw [carries.ndtr,whole,carries.front,List.take_of_length_le (by simp),carries.sent,Nat.mul_succ,read_append]

theorem refill_carries (ok : ∀ k, flash.succeeds k = true) {info : VoiceInfo} {k : Nat} (live : Live s) {mem : Mem}
    {next : UInt8} (target : refillTarget s.usingMemBuff = some (mem,next)) (carries : Carries flash info k s) :
    Carries flash info (k+1) (transferComplete flash s) := by
  obtain ⟨ct,back,remain,left⟩ := carries.ahead mem next target
  obtain ⟨quiet,kept⟩ := refill_wire flash (s := interrupted s) mem next live.enabled
  have after := remainAfter_toNat s.voiceParam.voiceRemainSize
  have positive : s.voiceParam.voiceRemainSize.toNat ≠ 0 := fun zero => left (UInt32.toNat_inj.mp zero)
  rw [refills_live flash live target]
  refine ⟨by simp [carries.addr],by simp [carries.total],by rw [kept]; exact carries.ndtr,?_,?_,?_,?_⟩
  · rw [quiet,interrupted_wire]
    exact carries_block carries
  · rw [refill_buffer ok]
    simp only [refill_keeps,interrupted_keeps,← ct]
    rw [Function.update_of_ne (other_ne mem)]
    exact back
  · intro mem' next' target'
    simp only [refill_using,interrupted_keeps] at target'
    split at target'
    · cases target'
    · rename_i more
      rw [target_next target] at target'
      cases target'
      have big : 1024 < s.voiceParam.voiceRemainSize.toNat := by
        have nonzero : (remainAfter s.voiceParam.voiceRemainSize).toNat ≠ 0 := fun zero => more (UInt32.toNat_inj.mp zero)
        omega
      have count : (remainAfter s.voiceParam.voiceRemainSize).toNat + 1024*(k+1+2) = info.size.toNat := by grind
      refine ⟨by simp [ct],?_,by simpa only [refill_remain,interrupted_keeps] using count,by simpa using more⟩
      have chunk : min 1024 (interrupted s).voiceParam.voiceRemainSize.toNat = 1024 := by
        simp only [interrupted_keeps]
        omega
      have addr : nextAddr (interrupted s) = info.startAddr + UInt32.ofNat (1024*(k+2)) := by
        rw [nextAddr_eq (n := 1024*(k+2)) (by simp only [interrupted_keeps,carries.total]; exact remain)]
        simp [carries.addr]
      rw [refill_buffer ok,other_other,Function.update_self,chunk,load_full _ (by simp),addr]
  · intro target'
    simp only [refill_using,interrupted_keeps] at target'
    split at target'
    · rename_i none'
      rw [none',UInt32.toNat_zero] at after
      omega
    · rw [target_next target] at target'
      cases target'

-- A longer voice: its last chunk is loaded and never sent.
theorem long_plays (ok : ∀ k, flash.succeeds k = true) (fresh : Fresh s) (long : 2048 < (head voiceIndex).size.toNat) :
    wire (wholePlay flash head s voiceIndex).events =
      flash.read (head voiceIndex).startAddr (1024*(((head voiceIndex).size.toNat - 1)/1024)) := by
  obtain ⟨⟨k,carries⟩,_⟩ := beforeStop_invariant flash head s voiceIndex
    (fun t => ∃ k, Carries flash (head voiceIndex) k t)
    (fun t mem next live target held => held.elim fun k carries => ⟨k+1,refill_carries ok live target carries⟩)
    ⟨0,start_carries ok fresh long⟩
  obtain ⟨more,most⟩ := carries.closing (wholePlay_stops flash head s voiceIndex).1
  have count : ((head voiceIndex).size.toNat - 1)/1024 = k+1 := by omega
  rw [wholePlay_wire,carries_block carries,count]

-- The line carries the whole voice exactly when it fits the two buffers that are
-- loaded before the start.
theorem plays_whole_iff (flash : Flash) (ok : ∀ k, flash.succeeds k = true) (head : VoiceHead) (s : Player) (fresh : Fresh s)
    (voiceIndex : UInt16) (even : (head voiceIndex).size.toNat % 2 = 0) :
    (wholePlay flash head s voiceIndex).dma.enabled = false ∧
      (PlaysWhole flash head s voiceIndex ↔ (head voiceIndex).size.toNat ≤ 2048) := by
  refine ⟨wholePlay_stopped flash head s voiceIndex,?_⟩
  constructor
  · rintro ⟨zeros,carried⟩
    by_contra long
    rw [long_plays ok fresh (by omega)] at carried
    have length := congrArg List.length carried
    simp only [voice,read_length,List.length_append,List.length_replicate] at length
    omega
  · intro fits
    by_cases short : (head voiceIndex).size.toNat < 1024
    · exact ⟨0,by simp [short_plays ok fresh even short]⟩
    · exact ⟨_,two_blocks_play ok fresh (by omega) fits⟩

def counting : Flash := ⟨UInt32.toUInt8,fun _ => true⟩

theorem initialised_fresh : Fresh initialised := ⟨rfl,rfl,fun _ => rfl,rfl⟩

-- A voice that fills both buffers.
theorem plays_whole_two_buffers : PlaysWhole counting (fun _ => ⟨7,2048⟩) initialised 0 :=
  (plays_whole_iff counting (fun _ => rfl) (fun _ => ⟨7,2048⟩) initialised initialised_fresh 0 rfl).2.mpr (by decide)

-- Three chunks: the third is loaded when the second starts, and the next
-- interrupt stops the stream before it is sent.
theorem third_chunk_lost : ¬ ∀ (flash : Flash), (∀ k, flash.succeeds k = true) → ∀ (head : VoiceHead) (s : Player),
    Fresh s → ∀ voiceIndex, (head voiceIndex).size.toNat % 2 = 0 → 2 ≤ (head voiceIndex).size.toNat →
      PlaysWhole flash head s voiceIndex := by
  intro all
  obtain ⟨zeros,carried⟩ := all counting (fun _ => rfl) (fun _ => ⟨0,3072⟩) initialised initialised_fresh 0 rfl (by decide)
  have sent : wire (wholePlay counting (fun _ => ⟨0,3072⟩) initialised 0).events = counting.read 0 2048 :=
    long_plays (fun _ => rfl) initialised_fresh (by decide)
  have length := congrArg List.length (sent.symm.trans carried)
  simp [voice] at length
  omega

end SssAlarmHost.VoicePlayer
