import SssAlarmHost.VoicePlayer

namespace SssAlarmHost.VoicePlayer

variable (flash : Flash) {s : Player}

-- Interrupts until the handler stops the stream, told from the variables it looks
-- at: one for each refill still to come and one to stop.
def pending (s : Player) : Nat :=
  if (refillTarget s.usingMemBuff).isSome then 1 + max 1 ((s.voiceParam.voiceRemainSize.toNat + 1023)/1024) else 1

theorem pending_positive (s : Player) : 0 < pending s := by
  unfold pending
  split <;> omega

theorem target_next {usingMemBuff next : UInt8} {mem : Mem} (target : refillTarget usingMemBuff = some (mem,next)) :
    refillTarget next = some (mem.other,usingMemBuff) := by
  unfold refillTarget at target
  split at target
  · rename_i first; cases target; rw [first]; rfl
  · split at target
    · rename_i second; cases target; rw [second]; rfl
    · cases target

theorem refills_live (live : Live s) {mem : Mem} {next : UInt8} (target : refillTarget s.usingMemBuff = some (mem,next)) :
    transferComplete flash s = refill flash (interrupted s) mem next := by
  rw [live_transferComplete live]
  exact handler_refills target

theorem refill_live (live : Live s) {mem : Mem} {next : UInt8} (target : refillTarget s.usingMemBuff = some (mem,next)) :
    Live (transferComplete flash s) := by
  rw [refills_live flash live target]
  constructor
  · simpa using live.enabled
  · simpa using live.itTc
  · simpa using live.going

theorem refill_counts {mem : Mem} {next : UInt8} (target : refillTarget s.usingMemBuff = some (mem,next)) :
    pending (refill flash s mem next) + 1 = pending s := by
  have before : pending s = 1 + max 1 ((s.voiceParam.voiceRemainSize.toNat + 1023)/1024) := by simp [pending,target]
  have remain := remainAfter_toNat s.voiceParam.voiceRemainSize
  rw [before]
  unfold pending
  simp only [refill_using,refill_remain]
  by_cases empty : remainAfter s.voiceParam.voiceRemainSize = 0
  · have none' : (remainAfter s.voiceParam.voiceRemainSize).toNat = 0 := by rw [empty]; rfl
    have stop : refillTarget 2 = none := rfl
    simp only [empty,if_true,stop]
    simp
    omega
  · have some' : (remainAfter s.voiceParam.voiceRemainSize).toNat ≠ 0 := fun zero => empty (UInt32.toNat_inj.mp zero)
    rw [if_neg empty,target_next target]
    simp
    omega

theorem refill_pending (live : Live s) {mem : Mem} {next : UInt8}
    (target : refillTarget s.usingMemBuff = some (mem,next)) : pending (transferComplete flash s) + 1 = pending s := by
  rw [refills_live flash live target]
  exact refill_counts flash (s := interrupted s) target

theorem finish_live (live : Live s) (target : refillTarget s.usingMemBuff = none) :
    transferComplete flash s = finishVoice (interrupted s) := by
  rw [live_transferComplete live]
  exact handler_finishes target

theorem finish_pending (target : refillTarget s.usingMemBuff = none) : pending s = 1 := by simp [pending,target]

theorem playOut_stopped (stopped : s.dma.enabled = false) (n : Nat) : playOut flash n s = s := by
  cases n <;> simp [playOut,stopped]

theorem playOut_live (live : Live s) (n : Nat) :
    playOut flash (n+1) s = playOut flash n (transferComplete flash s) := by simp [playOut,live.enabled]

def turned (mem : Mem) (blocks : Nat) : Mem := if blocks % 2 = 0 then mem else mem.other

theorem turned_succ (mem : Mem) (blocks : Nat) : turned mem (blocks+1) = turned mem.other blocks := by
  unfold turned
  rcases Nat.mod_two_eq_zero_or_one blocks with even | odd
  · rw [if_neg (by omega),if_pos even]
  · rw [if_pos (by omega),if_neg (by omega),other_other]

theorem playing_invariant (Inv : Player → Prop)
    (kept : ∀ s mem next, Live s → refillTarget s.usingMemBuff = some (mem,next) → Inv s → Inv (transferComplete flash s))
    (live : Live s) (valid : Inv s) {n : Nat} (before : n < pending s) :
    Live (playOut flash n s) ∧ Inv (playOut flash n s) ∧ pending (playOut flash n s) + n = pending s := by
  induction n generalizing s with
  | zero => exact ⟨live,valid,rfl⟩
  | succ n ih =>
    cases target : refillTarget s.usingMemBuff with
    | none => rw [finish_pending target] at before; omega
    | some pair =>
      have later := refill_live flash live target
      have count := refill_pending flash live target
      obtain ⟨liveN,validN,countN⟩ := ih later (kept s pair.1 pair.2 live target valid) (by omega)
      rw [playOut_live flash live]
      exact ⟨liveN,validN,by omega⟩

-- A play takes exactly the pending number of interrupts, the last of which stops
-- the stream in the state the last but one left.
theorem playing_last (live : Live s) {n : Nat} (last : n + 1 = pending s) :
    refillTarget (playOut flash n s).usingMemBuff = none ∧
      ∀ more, playOut flash (n + 1 + more) s = finishVoice (interrupted (playOut flash n s)) := by
  induction n generalizing s with
  | zero =>
    have target : refillTarget s.usingMemBuff = none := by
      cases target : refillTarget s.usingMemBuff with
      | none => rfl
      | some pair =>
        have count := refill_pending flash live target
        have positive := pending_positive (transferComplete flash s)
        omega
    refine ⟨target,fun more => ?_⟩
    rw [show 0 + 1 + more = more + 1 by omega,playOut_live flash live,finish_live flash live target]
    exact playOut_stopped flash rfl more
  | succ n ih =>
    cases target : refillTarget s.usingMemBuff with
    | none => rw [finish_pending target] at last; omega
    | some pair =>
      have count := refill_pending flash live target
      obtain ⟨stopping,final⟩ := ih (refill_live flash live target) (by omega)
      rw [playOut_live flash live]
      refine ⟨stopping,fun more => ?_⟩
      rw [show n + 1 + 1 + more = n + 1 + more + 1 by omega,playOut_live flash live]
      exact final more

variable (head : VoiceHead) (s : Player) (voiceIndex : UInt16)

def startRemain (size : UInt32) : UInt32 :=
  if 1024 ≤ size then if 1024 < size - 1024 then size - 1024 - 1024 else 0 else 0

theorem start_control : (playVoiceStart flash head s voiceIndex).voiceParam =
      ⟨voiceIndex,(head voiceIndex).startAddr,(head voiceIndex).size,startRemain (head voiceIndex).size⟩ ∧
    (playVoiceStart flash head s voiceIndex).usingMemBuff = (if 1024 ≤ (head voiceIndex).size then 0 else 2) ∧
    (playVoiceStart flash head s voiceIndex).dma.ct = s.dma.ct := by
  unfold playVoiceStart startRemain
  by_cases long : 1024 ≤ (head voiceIndex).size
  · by_cases two : 1024 < (head voiceIndex).size - 1024
    · simp [beginVoice,long,two,loadFirst,loadSecond,w25qxxRead,dmaTransmitDatalength,setRemain,addDualByte,
        tas2505OutputSet,i2sPlayStart]
    · simp [beginVoice,long,two,loadFirst,loadSecond,w25qxxRead,dmaTransmitDatalength,setRemain,addDualByte,
        tas2505OutputSet,i2sPlayStart]
  · simp [beginVoice,long,loadShort,w25qxxRead,dmaTransmitDatalength,setRemain,addDualByte,tas2505OutputSet,i2sPlayStart]

theorem start_live : Live (playVoiceStart flash head s voiceIndex) := ⟨rfl,rfl,rfl⟩

theorem startRemain_toNat (size : UInt32) : (startRemain size).toNat = size.toNat - 2048 := by
  unfold startRemain
  by_cases long : 1024 ≤ size
  · have first := sub_toNat long
    rw [if_pos long]
    by_cases two : 1024 < size - 1024
    · rw [if_pos two,sub_toNat (UInt32.le_of_lt two)]
      omega
    · rw [if_neg two]
      rw [over_iff] at two
      simp only [UInt32.toNat_zero]
      omega
  · rw [if_neg long]
    rw [enough_iff] at long
    simp only [UInt32.toNat_zero]
    omega

def interruptCount (size : UInt32) : Nat := if size.toNat < 1024 then 1 else max 2 ((size.toNat + 1023)/1024 - 1)

theorem start_pending : pending (playVoiceStart flash head s voiceIndex) = interruptCount (head voiceIndex).size := by
  obtain ⟨param,using',_⟩ := start_control flash head s voiceIndex
  unfold pending
  rw [param,using',startRemain_toNat]
  unfold interruptCount
  by_cases enough : 1024 ≤ (head voiceIndex).size
  · have size := (enough_iff _).mp enough
    simp only [if_pos enough,if_neg (Nat.not_lt.mpr size)]
    simp only [refillTarget,if_true,Option.isSome_some]
    omega
  · have size := fun more => enough ((enough_iff _).mpr more)
    simp only [if_neg enough,if_pos (Nat.not_le.mp size)]
    rfl

-- A play from its start to the stop; the blocks allowed for always suffice.
def wholePlay (flash : Flash) (head : VoiceHead) (s : Player) (voiceIndex : UInt16) : Player :=
  playOut flash ((head voiceIndex).size.toNat/1024 + 2) (playVoiceStart flash head s voiceIndex)

def beforeStop (flash : Flash) (head : VoiceHead) (s : Player) (voiceIndex : UInt16) : Player :=
  playOut flash (interruptCount (head voiceIndex).size - 1) (playVoiceStart flash head s voiceIndex)

theorem interruptCount_positive (size : UInt32) : 0 < interruptCount size := by
  unfold interruptCount
  split <;> omega

theorem wholePlay_stops : refillTarget (beforeStop flash head s voiceIndex).usingMemBuff = none ∧
    wholePlay flash head s voiceIndex = finishVoice (interrupted (beforeStop flash head s voiceIndex)) := by
  have positive := interruptCount_positive (head voiceIndex).size
  have last : interruptCount (head voiceIndex).size - 1 + 1 = pending (playVoiceStart flash head s voiceIndex) := by
    rw [start_pending]; omega
  obtain ⟨target,final⟩ := playing_last flash (start_live flash head s voiceIndex) last
  refine ⟨target,?_⟩
  have fuel : (head voiceIndex).size.toNat/1024 + 2 = interruptCount (head voiceIndex).size - 1 + 1 +
      ((head voiceIndex).size.toNat/1024 + 2 - interruptCount (head voiceIndex).size) := by
    unfold interruptCount
    split <;> omega
  unfold wholePlay
  rw [fuel]
  exact final _

theorem wholePlay_stopped : (wholePlay flash head s voiceIndex).dma.enabled = false := by
  rw [(wholePlay_stops flash head s voiceIndex).2]
  rfl

theorem beforeStop_invariant (Inv : Player → Prop)
    (kept : ∀ s mem next, Live s → refillTarget s.usingMemBuff = some (mem,next) → Inv s → Inv (transferComplete flash s))
    (valid : Inv (playVoiceStart flash head s voiceIndex)) :
    Inv (beforeStop flash head s voiceIndex) ∧ pending (beforeStop flash head s voiceIndex) = 1 := by
  have positive := interruptCount_positive (head voiceIndex).size
  have before : interruptCount (head voiceIndex).size - 1 < pending (playVoiceStart flash head s voiceIndex) := by
    rw [start_pending]; omega
  obtain ⟨_,validN,count⟩ := playing_invariant flash Inv kept (start_live flash head s voiceIndex) valid before
  refine ⟨validN,?_⟩
  rw [start_pending] at count
  unfold beforeStop
  omega

end SssAlarmHost.VoicePlayer
