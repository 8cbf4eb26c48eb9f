import SssAlarmHost.MachineRuns
import SssAlarmHost.PlayerRuns

namespace SssAlarmHost.VoicePlayer
open MachineRuns

-- The statement of play_voice_start to be executed next.
inductive Pc where
  | index | startAddr | totalSize | remainSize | sendDual | usingMem | testTotal
  | firstLength | firstRead | firstLoad | firstStore | firstDual | testRemain
  | secondRead | secondLoad | secondStore | secondDual
  | restRead | restDual | restRemain
  | shortRead | shortDual | shortRemain | shortLength | shortUsing
  | output | playStart | returned
  deriving DecidableEq

-- A call of play_voice_start under way. Its two subtractions of I2S_BUFF_SIZE are
-- a load into a register and a store.
structure Restart where
  player : Player
  pc : Pc
  register : UInt32

def setStart (s : Player) (startAddr : UInt32) : Player :=
  {s with voiceParam := {s.voiceParam with voiceStartAddr := startAddr}}

def setTotal (s : Player) (total : UInt32) : Player :=
  {s with voiceParam := {s.voiceParam with voiceTotalSize := total}}

def statement (flash : Flash) (voiceIndex : UInt16) (info : VoiceInfo) (s : Restart) : Option Restart :=
  let p := s.player
  let go p pc : Option Restart := some ⟨p,pc,s.register⟩
  match s.pc with
  | .index => go {p with voiceParam := {p.voiceParam with index := voiceIndex}} .startAddr
  | .startAddr => go (setStart p info.startAddr) .totalSize
  | .totalSize => go (setTotal p info.size) .remainSize
  | .remainSize => go (setRemain p info.size) .sendDual
  | .sendDual => go {p with sendDualByte := 0} .usingMem
  | .usingMem => go {p with usingMemBuff := 0} .testTotal
  | .testTotal => go p (if 1024 ≤ p.voiceParam.voiceTotalSize then .firstLength else .shortRead)
  | .firstLength => go (dmaTransmitDatalength p (1024/2)) .firstRead
  | .firstRead => go (w25qxxRead flash p p.voiceParam.voiceStartAddr .mem0 1024) .firstLoad
  | .firstLoad => some ⟨p,.firstStore,p.voiceParam.voiceRemainSize - 1024⟩
  | .firstStore => go (setRemain p s.register) .firstDual
  | .firstDual => go (addDualByte p (1024/2)) .testRemain
  | .testRemain => go p (if 1024 < p.voiceParam.voiceRemainSize then .secondRead else .restRead)
  | .secondRead => go (w25qxxRead flash p (nextAddr p) .mem1 1024) .secondLoad
  | .secondLoad => some ⟨p,.secondStore,p.voiceParam.voiceRemainSize - 1024⟩
  | .secondStore => go (setRemain p s.register) .secondDual
  | .secondDual => go (addDualByte p (1024/2)) .output
  | .restRead => go (w25qxxRead flash p (nextAddr p) .mem1 p.voiceParam.voiceRemainSize) .restDual
  | .restDual => go (addDualByte p (p.voiceParam.voiceRemainSize/2)) .restRemain
  | .restRemain => go (setRemain p 0) .output
  | .shortRead => go (w25qxxRead flash p p.voiceParam.voiceStartAddr .mem0 p.voiceParam.voiceTotalSize) .shortDual
  | .shortDual => go (addDualByte p (p.voiceParam.voiceTotalSize/2)) .shortRemain
  | .shortRemain => go (setRemain p 0) .shortLength
  | .shortLength => go (dmaTransmitDatalength p (p.voiceParam.voiceTotalSize/2)) .shortUsing
  | .shortUsing => go {p with usingMemBuff := 2} .output
  | .output => go (tas2505OutputSet p true) .playStart
  | .playStart => go (i2sPlayStart p) .returned
  | .returned => none

inductive Move where
  | statement
  | interrupt
  deriving DecidableEq

-- The interrupt runs between two statements, whole, as long as the stream runs.
def restartStep (flash : Flash) (voiceIndex : UInt16) (info : VoiceInfo) (s : Restart) : Move → Option Restart
  | .statement => statement flash voiceIndex info s
  | .interrupt => if s.player.dma.enabled then some {s with player := transferComplete flash s.player} else none

def called (s : Player) : Restart := ⟨s,.index,0⟩

def loads (events : List Event) : List (UInt32 × UInt32) :=
  events.filterMap fun
    | .load _ addr bytes => some (addr,bytes)
    | _ => none

def InEntry (info : VoiceInfo) (read : UInt32 × UInt32) : Prop :=
  (read.1 - info.startAddr).toNat + read.2.toNat ≤ info.size.toNat

-- A read of nothing is inside anything.
def Within (old new : VoiceInfo) (read : UInt32 × UInt32) : Prop := read.2 = 0 ∨ InEntry new read ∨ InEntry old read

-- What the voice being restarted must keep: after the step the remainder is at
-- most the total, the step read inside one of the two entries, and it did not
-- subtract a block from less than a block. The handler tests before it subtracts.
def StaysInside (flash : Flash) (voiceIndex : UInt16) (old new : VoiceInfo) (s : Restart) (a : Move) : Prop :=
  ∀ next, restartStep flash voiceIndex new s a = some next →
    next.player.voiceParam.voiceRemainSize ≤ next.player.voiceParam.voiceTotalSize ∧
    (∀ read ∈ (loads next.player.events).drop (loads s.player.events).length, Within old new read) ∧
    (a = .statement → s.pc = .firstLoad ∨ s.pc = .secondLoad → 1024 ≤ s.player.voiceParam.voiceRemainSize)

-- The block an interrupt reads starts this far into the voice.
def offset (p : Player) : UInt32 := p.voiceParam.voiceTotalSize - p.voiceParam.voiceRemainSize

def blockSize (remain : UInt32) : UInt32 := if 1024 ≤ remain then 1024 else remain

-- The preemption points that matter. With the new start address stored and the
-- old total still there, a refill must find the old offset inside the new entry.
-- The old remainder must not exceed the new total when that is stored. Neither
-- subtraction may find less than a block, nor the second read.
def Allowed (old new : VoiceInfo) (s : Restart) (a : Move) : Prop :=
  match a,s.pc with
  | .interrupt,.totalSize => s.player.dma.enabled = true → (refillTarget s.player.usingMemBuff).isSome →
      s.player.voiceParam.voiceRemainSize = 0 ∨
        (offset s.player).toNat + (blockSize s.player.voiceParam.voiceRemainSize).toNat ≤ new.size.toNat ∨
        InEntry old (new.startAddr + offset s.player,blockSize s.player.voiceParam.voiceRemainSize)
  | .statement,.totalSize => s.player.voiceParam.voiceRemainSize ≤ new.size
  | .statement,.firstLoad | .statement,.secondLoad => 1024 ≤ s.player.voiceParam.voiceRemainSize
  | .statement,.secondRead => 1024 ≤ s.player.voiceParam.voiceRemainSize ∨
      InEntry old (new.startAddr + offset s.player,1024)
  | _,_ => True

variable {flash : Flash} {voiceIndex : UInt16} {old new : VoiceInfo} {s next : Restart}

instance (info : VoiceInfo) (read : UInt32 × UInt32) : Decidable (InEntry info read) := by
  unfold InEntry; infer_instance

theorem refill_loads (p : Player) (mem : Mem) (value : UInt8) : loads (refill flash p mem value).events =
    loads p.events ++ [(nextAddr p,blockSize p.voiceParam.voiceRemainSize)] := by
  unfold refill blockSize
  split <;> simp [w25qxxRead,addDualByte,setRemain,dmaTransmitDatalength,loads]

structure Interrupted (flash : Flash) (p : Player) (reads : List (UInt32 × UInt32)) (remain : UInt32) : Prop where
  start : (transferComplete flash p).voiceParam.voiceStartAddr = p.voiceParam.voiceStartAddr
  total : (transferComplete flash p).voiceParam.voiceTotalSize = p.voiceParam.voiceTotalSize
  remain : (transferComplete flash p).voiceParam.voiceRemainSize = remain
  loads : loads (transferComplete flash p).events = loads p.events ++ reads
  live : (transferComplete flash p).dma.enabled = true → Live (transferComplete flash p)

theorem refill_interrupted (flash : Flash) {p : Player} (live : Live p) {mem : Mem} {value : UInt8}
    (target : refillTarget p.usingMemBuff = some (mem,value)) :
    Interrupted flash p [(nextAddr p,blockSize p.voiceParam.voiceRemainSize)] (remainAfter p.voiceParam.voiceRemainSize) := by
  have stays := refill_live flash live target
  have shape := refills_live flash live target
  refine ⟨by simp [shape],by simp [shape],by simp [shape],?_,fun _ => stays⟩
  rw [shape,refill_loads]
  simp [interrupted,endBlock,loads,nextAddr]

theorem finish_interrupted (flash : Flash) {p : Player} (live : Live p) (target : refillTarget p.usingMemBuff = none) :
    Interrupted flash p [] p.voiceParam.voiceRemainSize := by
  have shape := finish_live flash live target
  refine ⟨by rw [shape]; rfl,by rw [shape]; rfl,by rw [shape]; rfl,?_,?_⟩
  · rw [shape]
    simp [finishVoice,tas2505OutputSet,i2sPlayStop,interrupted,endBlock,loads]
  · intro running
    rw [shape] at running
    cases running

theorem blockSize_le (remain : UInt32) : (blockSize remain).toNat ≤ remain.toNat := by
  unfold blockSize
  split
  · rename_i enough; exact (enough_iff _).mp enough
  · exact Nat.le_refl _

theorem remainAfter_le (remain : UInt32) : remainAfter remain ≤ remain := by
  rw [UInt32.le_iff_toNat_le,remainAfter_toNat]
  omega

theorem offset_toNat {p : Player} (bounded : p.voiceParam.voiceRemainSize ≤ p.voiceParam.voiceTotalSize) :
    (offset p).toNat = p.voiceParam.voiceTotalSize.toNat - p.voiceParam.voiceRemainSize.toNat :=
  UInt32.toNat_sub_of_le _ _ bounded

theorem inEntry_offset {info : VoiceInfo} {p : Player} {bytes : UInt32} (start : p.voiceParam.voiceStartAddr = info.startAddr)
    (total : p.voiceParam.voiceTotalSize = info.size)
    (bounded : p.voiceParam.voiceRemainSize ≤ p.voiceParam.voiceTotalSize) :
    InEntry info (nextAddr p,bytes) ↔ bytes ≤ p.voiceParam.voiceRemainSize := by
  have shift : nextAddr p - info.startAddr = offset p := by unfold nextAddr offset; rw [start]; grind
  have whole := UInt32.le_iff_toNat_le.mp bounded
  unfold InEntry
  dsimp only
  rw [shift,offset_toNat bounded,← total,UInt32.le_iff_toNat_le]
  omega

def Pc.startOf (old new : VoiceInfo) : Pc → UInt32
  | .index | .startAddr => old.startAddr
  | _ => new.startAddr

def Pc.totalOf (old new : VoiceInfo) : Pc → UInt32
  | .index | .startAddr | .totalSize => old.size
  | _ => new.size

def Pc.Holds (new : VoiceInfo) (register : UInt32) : Pc → Prop
  | .firstLength | .firstRead => 1024 ≤ new.size
  | .firstStore | .secondStore => register ≤ new.size
  | _ => True

structure Consistent (old new : VoiceInfo) (s : Restart) : Prop where
  live : s.player.dma.enabled = true → s.player.dma.itTc = true ∧ s.player.i2sStopFlag = false
  bounded : s.player.voiceParam.voiceRemainSize ≤ s.player.voiceParam.voiceTotalSize
  start : s.player.voiceParam.voiceStartAddr = s.pc.startOf old new
  total : s.player.voiceParam.voiceTotalSize = s.pc.totalOf old new
  holds : s.pc.Holds new s.register

-- The step is a function, so the property is about the one next state.
theorem stays_iff {a : Move} (read : List (UInt32 × UInt32)) (taken : restartStep flash voiceIndex new s a = some next)
    (issued : loads next.player.events = loads s.player.events ++ read) :
    StaysInside flash voiceIndex old new s a ↔
      next.player.voiceParam.voiceRemainSize ≤ next.player.voiceParam.voiceTotalSize ∧
      (∀ r ∈ read, Within old new r) ∧
      (a = .statement → s.pc = .firstLoad ∨ s.pc = .secondLoad → 1024 ≤ s.player.voiceParam.voiceRemainSize) := by
  unfold StaysInside
  simp only [taken,Option.some.injEq,forall_eq']
  rw [issued,List.drop_left]

theorem silent_stays {p after : Player} {pc later : Pc} {register value : UInt32}
    (consistent : Consistent old new ⟨p,pc,register⟩)
    (taken : statement flash voiceIndex new ⟨p,pc,register⟩ = some ⟨after,later,value⟩)
    (loading : pc ≠ .firstLoad ∧ pc ≠ .secondLoad) (remain : after.voiceParam.voiceRemainSize = p.voiceParam.voiceRemainSize)
    (total : after.voiceParam.voiceTotalSize = p.voiceParam.voiceTotalSize) (quiet : loads after.events = loads p.events) :
    StaysInside flash voiceIndex old new ⟨p,pc,register⟩ .statement := by
  refine (stays_iff (a := .statement) [] taken (by rw [quiet,List.append_nil])).mpr ⟨?_,by simp,?_⟩
  · change after.voiceParam.voiceRemainSize ≤ after.voiceParam.voiceTotalSize
    rw [remain,total]
    exact consistent.bounded
  · rintro _ (first | second)
    · exact absurd first loading.1
    · exact absurd second loading.2

theorem storing_stays {p : Player} {pc later : Pc} {register value : UInt32}
    (taken : statement flash voiceIndex new ⟨p,pc,register⟩ = some ⟨setRemain p value,later,register⟩)
    (loading : pc ≠ .firstLoad ∧ pc ≠ .secondLoad) (fits : value ≤ p.voiceParam.voiceTotalSize) :
    StaysInside flash voiceIndex old new ⟨p,pc,register⟩ .statement := by
  refine (stays_iff (a := .statement) [] taken (List.append_nil _).symm).mpr ⟨fits,by simp,?_⟩
  rintro _ (first | second)
  · exact absurd first loading.1
  · exact absurd second loading.2

theorem reading_stays {p : Player} {pc later : Pc} {register addr bytes : UInt32} {mem : Mem}
    (consistent : Consistent old new ⟨p,pc,register⟩)
    (taken : statement flash voiceIndex new ⟨p,pc,register⟩ = some ⟨w25qxxRead flash p addr mem bytes,later,register⟩)
    (loading : pc ≠ .firstLoad ∧ pc ≠ .secondLoad) :
    StaysInside flash voiceIndex old new ⟨p,pc,register⟩ .statement ↔ Within old new (addr,bytes) := by
  have inside : (w25qxxRead flash p addr mem bytes).voiceParam.voiceRemainSize ≤
    (w25qxxRead flash p addr mem bytes).voiceParam.voiceTotalSize := consistent.bounded
  have issued : loads (w25qxxRead flash p addr mem bytes).events = loads p.events ++ [(addr,bytes)] := by
    simp [w25qxxRead,loads]
  refine (stays_iff (a := .statement) [(addr,bytes)] taken issued).trans ?_
  simp [inside,loading.1,loading.2]

theorem within_total {p : Player} (start : p.voiceParam.voiceStartAddr = new.startAddr) {bytes : UInt32}
    (fits : bytes ≤ new.size) : Within old new (p.voiceParam.voiceStartAddr,bytes) := by
  have bound := UInt32.le_iff_toNat_le.mp fits
  refine Or.inr (Or.inl ?_)
  simp only [InEntry,start,UInt32.sub_self,UInt32.toNat_zero]
  omega

theorem within_next (old : VoiceInfo) {p : Player} {bytes : UInt32} (start : p.voiceParam.voiceStartAddr = new.startAddr)
    (total : p.voiceParam.voiceTotalSize = new.size)
    (bounded : p.voiceParam.voiceRemainSize ≤ p.voiceParam.voiceTotalSize) (some' : bytes ≠ 0) :
    Within old new (nextAddr p,bytes) ↔
      bytes ≤ p.voiceParam.voiceRemainSize ∨ InEntry old (new.startAddr + offset p,bytes) := by
  have addr : nextAddr p = new.startAddr + offset p := by unfold nextAddr offset; rw [start]
  unfold Within
  rw [inEntry_offset start total bounded,addr]
  simp [some']

theorem statement_stays (consistent : Consistent old new s) :
    Allowed old new s .statement ↔ StaysInside flash voiceIndex old new s .statement := by
  have bounded := consistent.bounded
  have start := consistent.start
  have total := consistent.total
  have holds := consistent.holds
  obtain ⟨p,pc,register⟩ := s
  cases pc with
  | index | startAddr | sendDual | usingMem | testTotal | testRemain | shortUsing =>
    exact iff_of_true trivial (silent_stays consistent rfl (by decide) rfl rfl rfl)
  | firstDual | secondDual | restDual | shortDual =>
    exact iff_of_true trivial (silent_stays consistent rfl (by decide) (by simp [addDualByte]) (by simp [addDualByte])
      (by simp [addDualByte]))
  | firstLength | shortLength | output | playStart =>
    exact iff_of_true trivial (silent_stays consistent rfl (by decide) rfl rfl
      (by simp [loads,dmaTransmitDatalength,tas2505OutputSet,i2sPlayStart]))
  | totalSize =>
    refine Iff.trans ?_ (stays_iff [] rfl (by simp [setTotal])).symm
    simp [Allowed,setTotal]
  | remainSize =>
    exact iff_of_true trivial (storing_stays rfl (by decide) (UInt32.le_of_eq total.symm))
  | firstLoad | secondLoad =>
    refine Iff.trans ?_ (stays_iff [] rfl (by simp)).symm
    have inside : p.voiceParam.voiceRemainSize ≤ p.voiceParam.voiceTotalSize := bounded
    simp [Allowed,inside]
  | firstStore | secondStore =>
    have size : p.voiceParam.voiceTotalSize = new.size := total
    have fits : register ≤ new.size := holds
    exact iff_of_true trivial (storing_stays rfl (by decide) (size ▸ fits))
  | restRemain | shortRemain =>
    exact iff_of_true trivial (storing_stays rfl (by decide) UInt32.zero_le)
  | firstRead =>
    exact iff_of_true trivial ((reading_stays consistent rfl (by decide)).mpr (within_total start holds))
  | shortRead =>
    exact iff_of_true trivial
      ((reading_stays consistent rfl (by decide)).mpr (within_total start (UInt32.le_of_eq total)))
  | restRead =>
    have fits := (inEntry_offset start total bounded).mpr (UInt32.le_refl p.voiceParam.voiceRemainSize)
    exact iff_of_true trivial ((reading_stays consistent rfl (by decide)).mpr (Or.inr (Or.inl fits)))
  | secondRead =>
    exact (within_next old start total bounded (by decide)).symm.trans (reading_stays consistent rfl (by decide)).symm
  | returned =>
    refine iff_of_true trivial ?_
    intro next taken
    cases taken

theorem blockSize_zero (remain : UInt32) : blockSize remain = 0 ↔ remain = 0 := by
  unfold blockSize
  split
  · rename_i enough
    refine iff_of_false (by decide) ?_
    rintro rfl
    exact absurd enough (by decide)
  · exact Iff.rfl

-- Only between the two stores do start address and total belong to different entries.
theorem same_entry (consistent : Consistent old new s) : s.pc = .totalSize ∨
    (s.player.voiceParam.voiceStartAddr = old.startAddr ∧ s.player.voiceParam.voiceTotalSize = old.size) ∨
    (s.player.voiceParam.voiceStartAddr = new.startAddr ∧ s.player.voiceParam.voiceTotalSize = new.size) := by
  have start := consistent.start
  have total := consistent.total
  obtain ⟨p,pc,register⟩ := s
  cases pc with
  | totalSize => exact Or.inl rfl
  | index | startAddr => exact Or.inr (Or.inl ⟨start,total⟩)
  | _ => exact Or.inr (Or.inr ⟨start,total⟩)

theorem block_within (consistent : Consistent old new s) :
    Within old new (nextAddr s.player,blockSize s.player.voiceParam.voiceRemainSize) ↔
      (s.pc = .totalSize → s.player.voiceParam.voiceRemainSize = 0 ∨
        (offset s.player).toNat + (blockSize s.player.voiceParam.voiceRemainSize).toNat ≤ new.size.toNat ∨
        InEntry old (new.startAddr + offset s.player,blockSize s.player.voiceParam.voiceRemainSize)) := by
  have fits := UInt32.le_iff_toNat_le.mpr (blockSize_le s.player.voiceParam.voiceRemainSize)
  by_cases between : s.pc = .totalSize
  · have start := consistent.start
    rw [between] at start
    have addr : nextAddr s.player = new.startAddr + offset s.player := by
      unfold nextAddr offset
      rw [start]
      rfl
    have shift : new.startAddr + offset s.player - new.startAddr = offset s.player := by grind
    simp only [Within,InEntry,addr,shift,blockSize_zero,between,true_implies]
  · refine iff_of_true ?_ (fun pc => absurd pc between)
    rcases same_entry consistent with pc | ⟨start,total⟩ | ⟨start,total⟩
    · exact absurd pc between
    · exact Or.inr (Or.inr ((inEntry_offset start total consistent.bounded).mpr fits))
    · exact Or.inr (Or.inl ((inEntry_offset start total consistent.bounded).mpr fits))

theorem allowed_interrupt : Allowed old new s .interrupt ↔ (s.player.dma.enabled = true →
    (refillTarget s.player.usingMemBuff).isSome → s.pc = .totalSize → s.player.voiceParam.voiceRemainSize = 0 ∨
      (offset s.player).toNat + (blockSize s.player.voiceParam.voiceRemainSize).toNat ≤ new.size.toNat ∨
      InEntry old (new.startAddr + offset s.player,blockSize s.player.voiceParam.voiceRemainSize)) := by
  obtain ⟨p,pc,register⟩ := s
  cases pc <;> simp [Allowed]

theorem consistent_live (consistent : Consistent old new s) (running : s.player.dma.enabled = true) : Live s.player :=
  ⟨running,(consistent.live running).1,(consistent.live running).2⟩

theorem interrupt_taken (flash : Flash) (voiceIndex : UInt16) (new : VoiceInfo) (running : s.player.dma.enabled = true) :
    restartStep flash voiceIndex new s .interrupt = some {s with player := transferComplete flash s.player} := by
  simp [restartStep,running]

theorem interrupt_stays (consistent : Consistent old new s) :
    Allowed old new s .interrupt ↔ StaysInside flash voiceIndex old new s .interrupt := by
  rw [allowed_interrupt]
  cases running : s.player.dma.enabled with
  | false =>
    refine iff_of_true (fun enabled => nomatch enabled) ?_
    intro next taken
    simp [restartStep,running] at taken
  | true =>
    have live := consistent_live consistent running
    have taken := interrupt_taken flash voiceIndex new running
    cases target : refillTarget s.player.usingMemBuff with
    | none =>
      have moved := finish_interrupted flash live target
      refine iff_of_true (fun _ found => nomatch found) ((stays_iff [] taken moved.loads).mpr ⟨?_,by simp,by simp⟩)
      simpa only [moved.remain,moved.total] using consistent.bounded
    | some pair =>
      have moved := refill_interrupted flash live target
      have bounded := UInt32.le_trans (remainAfter_le s.player.voiceParam.voiceRemainSize) consistent.bounded
      rw [stays_iff _ taken moved.loads]
      simp [moved.remain,moved.total,bounded,block_within consistent]

theorem stays_exact (consistent : Consistent old new s) (a : Move) :
    Allowed old new s a ↔ StaysInside flash voiceIndex old new s a := by
  cases a with
  | statement => exact statement_stays consistent
  | interrupt => exact interrupt_stays consistent

theorem interrupted_consistent {reads : List (UInt32 × UInt32)} {remain : UInt32} (consistent : Consistent old new s)
    (moved : Interrupted flash s.player reads remain) (fits : remain ≤ s.player.voiceParam.voiceTotalSize) :
    Consistent old new {s with player := transferComplete flash s.player} := by
  refine ⟨?_,?_,moved.start.trans consistent.start,moved.total.trans consistent.total,consistent.holds⟩
  · intro enabled
    exact ⟨(moved.live enabled).itTc,(moved.live enabled).going⟩
  · simpa only [moved.remain,moved.total] using fits

theorem interrupt_consistent (consistent : Consistent old new s)
    (taken : restartStep flash voiceIndex new s .interrupt = some next) : Consistent old new next := by
  obtain ⟨running,shape⟩ := Option.ite_none_right_eq_some.mp taken
  cases shape
  have live := consistent_live consistent running
  cases target : refillTarget s.player.usingMemBuff with
  | none => exact interrupted_consistent consistent (finish_interrupted flash live target) consistent.bounded
  | some pair =>
    have less := remainAfter_le s.player.voiceParam.voiceRemainSize
    exact interrupted_consistent consistent (refill_interrupted flash live target)
      (UInt32.le_trans less consistent.bounded)

theorem statement_consistent (consistent : Consistent old new s)
    (stays : StaysInside flash voiceIndex old new s .statement)
    (taken : restartStep flash voiceIndex new s .statement = some next) : Consistent old new next := by
  obtain ⟨bounded,_,noWrap⟩ := stays next taken
  have live := consistent.live
  have start := consistent.start
  have total := consistent.total
  obtain ⟨p,pc,register⟩ := s
  cases pc with
  | startAddr => cases taken; exact ⟨live,bounded,rfl,total,trivial⟩
  | totalSize => cases taken; exact ⟨live,bounded,start,rfl,trivial⟩
  | testTotal =>
    cases taken
    by_cases long : 1024 ≤ p.voiceParam.voiceTotalSize
    · have size : p.voiceParam.voiceTotalSize = new.size := total
      have fits : 1024 ≤ new.size := by rw [← size]; exact long
      rw [if_pos long] at bounded ⊢
      exact ⟨live,bounded,start,total,fits⟩
    · rw [if_neg long] at bounded ⊢
      exact ⟨live,bounded,start,total,trivial⟩
  | testRemain =>
    cases taken
    by_cases more : 1024 < p.voiceParam.voiceRemainSize
    · rw [if_pos more] at bounded ⊢
      exact ⟨live,bounded,start,total,trivial⟩
    · rw [if_neg more] at bounded ⊢
      exact ⟨live,bounded,start,total,trivial⟩
  | firstLength => cases taken; exact ⟨live,bounded,start,total,consistent.holds⟩
  | firstLoad | secondLoad =>
    cases taken
    have enough : 1024 ≤ p.voiceParam.voiceRemainSize := noWrap rfl (by simp)
    have size : p.voiceParam.voiceTotalSize = new.size := total
    have less : p.voiceParam.voiceRemainSize - 1024 ≤ p.voiceParam.voiceRemainSize :=
      UInt32.le_iff_toNat_le.mpr (by rw [sub_toNat enough]; omega)
    exact ⟨live,bounded,start,total,UInt32.le_trans less (size ▸ bounded)⟩
  | playStart => cases taken; exact ⟨fun _ => ⟨rfl,rfl⟩,bounded,start,total,trivial⟩
  | returned => cases taken
  | firstDual | secondDual | restDual | shortDual =>
    cases taken
    refine ⟨?_,bounded,?_,?_,trivial⟩
    · simpa [addDualByte] using live
    · simpa [addDualByte,Pc.startOf] using start
    · simpa [addDualByte,Pc.totalOf] using total
  | _ => cases taken; exact ⟨live,bounded,start,total,trivial⟩

theorem stays_consistent {a : Move} (consistent : Consistent old new s) (stays : StaysInside flash voiceIndex old new s a)
    (taken : restartStep flash voiceIndex new s a = some next) : Consistent old new next := by
  cases a with
  | statement => exact statement_consistent consistent stays taken
  | interrupt => exact interrupt_consistent consistent taken

-- The machine left alone is play_voice_start.
def Finishes (flash : Flash) (voiceIndex : UInt16) (info : VoiceInfo) (s : Restart) (after : Player) : Prop :=
  ∃ n register, run (restartStep flash voiceIndex info) s (List.replicate n .statement) = some ⟨after,.returned,register⟩

theorem finishes_after {after : Player} (n : Nat)
    (ran : run (restartStep flash voiceIndex new) s (List.replicate n .statement) = some next)
    (rest : Finishes flash voiceIndex new next after) : Finishes flash voiceIndex new s after := by
  obtain ⟨m,register,more⟩ := rest
  refine ⟨n+m,register,?_⟩
  rw [← List.replicate_append_replicate]
  exact run_append.mpr ⟨next,ran,more⟩

theorem output_finishes (p : Player) (register : UInt32) :
    Finishes flash voiceIndex new ⟨p,.output,register⟩ (i2sPlayStart (tas2505OutputSet p true)) := ⟨2,register,rfl⟩

theorem second_finishes (p : Player) (register : UInt32) : Finishes flash voiceIndex new
    ⟨p,if 1024 < p.voiceParam.voiceRemainSize then .secondRead else .restRead,register⟩
    (i2sPlayStart (tas2505OutputSet (loadSecond flash p) true)) := by
  unfold loadSecond
  split
  · exact finishes_after 4 rfl (output_finishes _ _)
  · exact finishes_after 3 rfl (output_finishes _ _)

theorem alone_playVoiceStart (flash : Flash) (head : VoiceHead) (p : Player) (voiceIndex : UInt16) :
    Finishes flash voiceIndex (head voiceIndex) (called p) (playVoiceStart flash head p voiceIndex) := by
  have began : run (restartStep flash voiceIndex (head voiceIndex)) (called p) (List.replicate 7 .statement) =
    some ⟨beginVoice head p voiceIndex,if 1024 ≤ (head voiceIndex).size then .firstLength else .shortRead,0⟩ := rfl
  apply finishes_after 7 began
  unfold playVoiceStart
  by_cases long : 1024 ≤ (head voiceIndex).size
  · have first : (beginVoice head p voiceIndex).voiceParam.voiceTotalSize = (head voiceIndex).size := rfl
    simp only [first,long,if_true]
    exact finishes_after 6 rfl (second_finishes _ _)
  · have first : (beginVoice head p voiceIndex).voiceParam.voiceTotalSize = (head voiceIndex).size := rfl
    simp only [first,long,if_false]
    exact finishes_after 5 rfl (output_finishes _ _)

theorem playing_consistent {head : VoiceHead} {p : Player} {current : UInt16} {n : Nat}
    (playing : n < interruptCount (head current).size) (new : VoiceInfo) :
    Consistent (head current) new (called (playOut flash n (playVoiceStart flash head p current))) := by
  obtain ⟨param,_,_⟩ := start_control flash head p current
  have before : n < pending (playVoiceStart flash head p current) := by rw [start_pending]; exact playing
  obtain ⟨live,⟨start,total,bounded⟩,_⟩ := playing_invariant flash
    (fun t => t.voiceParam.voiceStartAddr = (head current).startAddr ∧ t.voiceParam.voiceTotalSize = (head current).size ∧
      t.voiceParam.voiceRemainSize ≤ t.voiceParam.voiceTotalSize)
    (by
      rintro t mem value live target ⟨start,total,bounded⟩
      have moved := refill_interrupted flash live target
      refine ⟨moved.start.trans start,moved.total.trans total,?_⟩
      simpa only [moved.remain,moved.total] using UInt32.le_trans (remainAfter_le _) bounded)
    (start_live flash head p current)
    (by
      rw [param]
      refine ⟨rfl,rfl,UInt32.le_iff_toNat_le.mpr ?_⟩
      change (startRemain (head current).size).toNat ≤ (head current).size.toNat
      rw [startRemain_toNat]
      omega) before
  exact ⟨fun _ => ⟨live.itTc,live.going⟩,bounded,start,total,trivial⟩

end SssAlarmHost.VoicePlayer
