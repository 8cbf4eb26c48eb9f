import SssAlarmHost.Restart

namespace SssAlarmHost.VoicePlayer
open MachineRuns

section Schedule

-- How many statements stand before this one where both buffers are read whole. No
-- condition is about the other ones.
def Pc.place : Pc → Nat
  | .index => 0
  | .startAddr => 1
  | .totalSize => 2
  | .remainSize => 3
  | .sendDual => 4
  | .usingMem => 5
  | .testTotal => 6
  | .firstLength => 7
  | .firstRead => 8
  | .firstLoad => 9
  | .firstStore => 10
  | .firstDual => 11
  | .testRemain => 12
  | .secondRead => 13
  | .secondLoad => 14
  | _ => 15

def statements (moves : List Move) : Nat := moves.count .statement

-- The interrupts that arrive between the statements number k - 1 and k.
def arrivals : List Move → Nat → Nat
  | [],_ => 0
  | .interrupt :: rest,0 => arrivals rest 0 + 1
  | .interrupt :: rest,k+1 => arrivals rest (k+1)
  | .statement :: _,0 => 0
  | .statement :: rest,k+1 => arrivals rest k

def interrupts (moves : List Move) (pc : Pc) : Nat := arrivals moves pc.place

variable {moves done rest : List Move} {k : Nat}

theorem statements_cons (a : Move) (rest : List Move) :
    statements (a :: rest) = statements rest + if a = .statement then 1 else 0 := by
  cases a with
  | statement => exact List.count_cons_self
  | interrupt => exact List.count_cons_of_ne (by decide)

theorem statements_append (done rest : List Move) : statements (done ++ rest) = statements done + statements rest := List.count_append

-- Only the statements before a point and the interrupts since tell the counts there.
theorem arrivals_append (done rest : List Move) (k : Nat) : arrivals (done ++ rest) k =
    arrivals done k + if statements done ≤ k then arrivals rest (k - statements done) else 0 := by
  induction done generalizing k with
  | nil => simp [arrivals,statements]
  | cons a more ih =>
    rw [List.cons_append,statements_cons]
    cases a with
    | interrupt =>
      cases k with
      | zero =>
        rw [arrivals,arrivals,ih]
        simp only [reduceCtorEq,if_false,Nat.add_zero]
        omega
      | succ k =>
        rw [arrivals,arrivals,ih]
        rfl
    | statement =>
      cases k with
      | zero => simp [arrivals]
      | succ k =>
        rw [arrivals,arrivals,ih]
        simp only [if_true,Nat.add_le_add_iff_right,Nat.add_sub_add_right]

theorem arrivals_later (later : statements done < k) : arrivals done k = 0 := by
  induction done generalizing k with
  | nil => rfl
  | cons a more ih =>
    rw [statements_cons] at later
    cases a with
    | interrupt =>
      cases k with
      | zero => exact absurd later (Nat.not_lt_zero _)
      | succ k => exact ih later
    | statement =>
      cases k with
      | zero => exact absurd later (Nat.not_lt_zero _)
      | succ k => exact ih (Nat.lt_of_add_lt_add_right later)

theorem arrivals_before (before : k < statements done) (rest : List Move) : arrivals (done ++ rest) k = arrivals done k := by
  rw [arrivals_append,if_neg (Nat.not_le.mpr before),Nat.add_zero]

theorem arrivals_statement : arrivals (done ++ .statement :: rest) (statements done) = arrivals done (statements done) := by
  rw [arrivals_append,if_pos (Nat.le_refl _),Nat.sub_self]
  rfl

theorem arrivals_interrupt : arrivals done (statements done) < arrivals (done ++ .interrupt :: rest) (statements done) := by
  rw [arrivals_append,if_pos (Nat.le_refl _),Nat.sub_self,arrivals]
  omega

theorem statement_at (executed : k < statements moves) : ∃ done rest, moves = done ++ .statement :: rest ∧ statements done = k := by
  induction moves generalizing k with
  | nil => exact absurd executed (Nat.not_lt_zero _)
  | cons a more ih =>
    rw [statements_cons] at executed
    cases a with
    | interrupt =>
      obtain ⟨done,rest,split,count⟩ := ih executed
      exact ⟨.interrupt :: done,rest,by rw [split]; rfl,by rw [statements_cons,count]; rfl⟩
    | statement =>
      cases k with
      | zero => exact ⟨[],more,rfl,rfl⟩
      | succ k =>
        obtain ⟨done,rest,split,count⟩ := ih (Nat.lt_of_add_lt_add_right executed)
        exact ⟨.statement :: done,rest,by rw [split]; rfl,by rw [statements_cons,count]; rfl⟩

theorem interrupt_at {j : Nat} (arrives : j < arrivals moves k) :
    ∃ done rest, moves = done ++ .interrupt :: rest ∧ statements done = k ∧ arrivals done k = j := by
  induction moves generalizing j k with
  | nil => exact absurd arrives (Nat.not_lt_zero _)
  | cons a more ih =>
    cases a with
    | interrupt =>
      cases k with
      | zero =>
        cases j with
        | zero => exact ⟨[],more,rfl,rfl,rfl⟩
        | succ j =>
          obtain ⟨done,rest,split,count,before⟩ := ih (Nat.lt_of_add_lt_add_right arrives)
          exact ⟨.interrupt :: done,rest,by rw [split]; rfl,by rw [statements_cons,count]; rfl,congrArg (· + 1) before⟩
      | succ k =>
        obtain ⟨done,rest,split,count,before⟩ := ih (k := k + 1) arrives
        exact ⟨.interrupt :: done,rest,by rw [split]; rfl,by rw [statements_cons,count]; rfl,before⟩
    | statement =>
      cases k with
      | zero => exact absurd arrives (Nat.not_lt_zero _)
      | succ k =>
        obtain ⟨done,rest,split,count,before⟩ := ih (k := k) arrives
        exact ⟨.statement :: done,rest,by rw [split]; rfl,by rw [statements_cons,count]; rfl,before⟩

end Schedule

section Conditions
variable (old new : VoiceInfo) (n : Nat) (c : Pc → Nat)

-- Bytes left of a voice that was started and then refilled some times, and how often
-- the handler refills it.
def voiceLeft (size : UInt32) (refills : Nat) : Nat := size.toNat - 2048 - 1024*refills
def refillCount (size : UInt32) : Nat := interruptCount size - 1

-- The block of the old voice that is read after so many refills fits, at the same
-- offset from the new start address, into the new entry or into the old one.
def BlockFits (refills : Nat) : Prop := 2048 + 1024*refills < old.size.toNat →
  min old.size.toNat (3072 + 1024*refills) ≤ new.size.toNat ∨
    InEntry old (new.startAddr + UInt32.ofNat (2048 + 1024*refills),UInt32.ofNat (min 1024 (voiceLeft old.size refills)))

-- Refills of the old voice, n of them before the call, until the new total is stored.
def oldRefills : Nat := n + c .index + c .startAddr + c .totalSize

-- Refills of the new voice before the first load. While m_using_mem_buff is still that
-- of the old voice, an interrupt refills only if the old voice was not at its end.
def earlyRefills : Nat :=
  (if oldRefills n c + c .remainSize < refillCount old.size then c .sendDual + c .usingMem else 0) +
    c .testTotal + c .firstLength + c .firstRead + c .firstLoad

-- Bytes left of the new voice so many interrupts after the first store. Those between
-- load and store are overwritten by it; if they were enough to end the voice, the next
-- one only stops the stream.
def newLeft (arrived : Nat) : Nat := new.size.toNat - 1024*(earlyRefills old n c + 1) -
  if 1024*(earlyRefills old n c + c .firstStore) < new.size.toNat then 1024*arrived else 0

def TotalFits : Prop := voiceLeft old.size (oldRefills n c) ≤ new.size.toNat

def FirstFits : Prop := 1024 ≤ new.size.toNat → 1024*(earlyRefills old n c + 1) ≤ new.size.toNat

def TwoBlocks : Prop := 1024 ≤ new.size.toNat ∧ 1024 < newLeft old new n c (c .firstDual + c .testRemain)

def SecondReadFits : Prop := TwoBlocks old new n c →
  1024 ≤ newLeft old new n c (c .firstDual + c .testRemain + c .secondRead) ∨
    InEntry old
      (new.startAddr + UInt32.ofNat (new.size.toNat - newLeft old new n c (c .firstDual + c .testRemain + c .secondRead)),1024)

def SecondFits : Prop := TwoBlocks old new n c →
  1024 ≤ newLeft old new n c (c .firstDual + c .testRemain + c .secondRead + c .secondLoad)

instance (refills : Nat) : Decidable (BlockFits old new refills) := inferInstanceAs (Decidable (_ → _))
instance : Decidable (TotalFits old new n c) := inferInstanceAs (Decidable (_ ≤ _))
instance : Decidable (FirstFits old new n c) := inferInstanceAs (Decidable (_ → _))
instance : Decidable (TwoBlocks old new n c) := inferInstanceAs (Decidable (_ ∧ _))
instance : Decidable (SecondReadFits old new n c) := inferInstanceAs (Decidable (_ → _))
instance : Decidable (SecondFits old new n c) := inferInstanceAs (Decidable (_ → _))

-- The sizes of the two entries, the refills before the call and the numbers of
-- interrupts that find each statement next decide all.
structure Spared (moves : List Move) : Prop where
  between : ∀ j < interrupts moves .totalSize,
    BlockFits old new (n + interrupts moves .index + interrupts moves .startAddr + j)
  total : Pc.totalSize.place < statements moves → TotalFits old new n (interrupts moves)
  first : Pc.firstLoad.place < statements moves → FirstFits old new n (interrupts moves)
  secondRead : Pc.secondRead.place < statements moves → SecondReadFits old new n (interrupts moves)
  second : Pc.secondLoad.place < statements moves → SecondFits old new n (interrupts moves)

-- The same at one point of the call.
def Clear (done : List Move) : Move → Prop
  | .interrupt => statements done = Pc.totalSize.place → BlockFits old new (oldRefills n (interrupts done))
  | .statement =>
    (statements done = Pc.totalSize.place → TotalFits old new n (interrupts done)) ∧
      (statements done = Pc.firstLoad.place → FirstFits old new n (interrupts done)) ∧
      (statements done = Pc.secondRead.place → SecondReadFits old new n (interrupts done)) ∧
      (statements done = Pc.secondLoad.place → SecondFits old new n (interrupts done))

end Conditions

section Points
variable {old new : VoiceInfo} {n : Nat} {c c' : Pc → Nat} {moves done rest : List Move}

theorem interrupts_at {pc : Pc} (within : pc.place ≤ statements done) :
    interrupts (done ++ .statement :: rest) pc = interrupts done pc := by
  rcases Nat.lt_or_eq_of_le within with before | here
  · exact arrivals_before before _
  · rw [interrupts,interrupts,here]
    exact arrivals_statement

theorem oldRefills_congr (same : ∀ pc, pc.place ≤ Pc.totalSize.place → c pc = c' pc) : oldRefills n c = oldRefills n c' := by
  rw [oldRefills,oldRefills,same .index (by decide),same .startAddr (by decide),same .totalSize (by decide)]

theorem early_congr (same : ∀ pc, pc.place ≤ Pc.firstLoad.place → c pc = c' pc) : earlyRefills old n c = earlyRefills old n c' := by
  have before : oldRefills n c = oldRefills n c' := oldRefills_congr fun pc within => same pc (Nat.le_trans within (by decide))
  rw [earlyRefills,earlyRefills,before,same .remainSize (by decide),same .sendDual (by decide),same .usingMem (by decide),
    same .testTotal (by decide),same .firstLength (by decide),same .firstRead (by decide),same .firstLoad (by decide)]

theorem newLeft_congr (same : ∀ pc, pc.place ≤ Pc.firstStore.place → c pc = c' pc) (arrived : Nat) :
    newLeft old new n c arrived = newLeft old new n c' arrived := by
  have early : earlyRefills old n c = earlyRefills old n c' := early_congr fun pc within => same pc (Nat.le_trans within (by decide))
  rw [newLeft,newLeft,early,same .firstStore (by decide)]

theorem twoBlocks_congr (same : ∀ pc, pc.place ≤ Pc.testRemain.place → c pc = c' pc) :
    TwoBlocks old new n c ↔ TwoBlocks old new n c' := by
  rw [TwoBlocks,TwoBlocks,newLeft_congr fun pc within => same pc (Nat.le_trans within (by decide)),same .firstDual (by decide),
    same .testRemain (by decide)]

theorem secondReadFits_congr (same : ∀ pc, pc.place ≤ Pc.secondRead.place → c pc = c' pc) :
    SecondReadFits old new n c ↔ SecondReadFits old new n c' := by
  have two : TwoBlocks old new n c ↔ TwoBlocks old new n c' := twoBlocks_congr fun pc within => same pc (Nat.le_trans within (by decide))
  have left : ∀ arrived, newLeft old new n c arrived = newLeft old new n c' arrived :=
    newLeft_congr fun pc within => same pc (Nat.le_trans within (by decide))
  rw [SecondReadFits,SecondReadFits,two,left,same .firstDual (by decide),same .testRemain (by decide),same .secondRead (by decide)]

theorem secondFits_congr (same : ∀ pc, pc.place ≤ Pc.secondLoad.place → c pc = c' pc) :
    SecondFits old new n c ↔ SecondFits old new n c' := by
  have two : TwoBlocks old new n c ↔ TwoBlocks old new n c' := twoBlocks_congr fun pc within => same pc (Nat.le_trans within (by decide))
  rw [SecondFits,SecondFits,two,newLeft_congr fun pc within => same pc (Nat.le_trans within (by decide)),same .firstDual (by decide),
    same .testRemain (by decide),same .secondRead (by decide),same .secondLoad (by decide)]

-- What holds at every point holds of the whole call, and the other way round.
theorem spared_iff : Spared old new n moves ↔ ∀ done a rest, moves = done ++ a :: rest → Clear old new n done a := by
  constructor
  · rintro spared done a rest rfl
    cases a with
    | interrupt =>
      intro here
      have same : ∀ pc : Pc, pc.place < Pc.totalSize.place →
          interrupts (done ++ .interrupt :: rest) pc = interrupts done pc := by
        intro pc before
        exact arrivals_before (by rwa [here]) _
      have fits := spared.between (interrupts done .totalSize) (by
        rw [interrupts,interrupts,← here]
        exact arrivals_interrupt)
      rw [same .index (by decide),same .startAddr (by decide)] at fits
      exact fits
    | statement =>
      have executed : statements done < statements (done ++ .statement :: rest) := by
        rw [statements_append,statements_cons,if_pos rfl]
        omega
      have same : ∀ {k}, statements done = k → ∀ pc : Pc, pc.place ≤ k →
          interrupts (done ++ .statement :: rest) pc = interrupts done pc := by
        intro k here pc within
        exact interrupts_at (by rwa [here])
      refine ⟨?_,?_,?_,?_⟩
      · intro here
        have fits := spared.total (by rwa [← here])
        rwa [TotalFits,oldRefills_congr (same here)] at fits
      · intro here
        have fits := spared.first (by rwa [← here])
        rwa [FirstFits,early_congr (same here)] at fits
      · intro here
        exact (secondReadFits_congr (same here)).mp (spared.secondRead (by rwa [← here]))
      · intro here
        exact (secondFits_congr (same here)).mp (spared.second (by rwa [← here]))
  · intro clear
    have at' : ∀ {k}, k < statements moves → ∃ done, statements done = k ∧ Clear old new n done .statement ∧
        ∀ pc : Pc, pc.place ≤ k → interrupts done pc = interrupts moves pc := by
      intro k executed
      obtain ⟨done,rest,split,here⟩ := statement_at executed
      refine ⟨done,here,clear done .statement rest split,?_⟩
      intro pc within
      rw [split]
      exact (interrupts_at (by rwa [here])).symm
    constructor
    case between =>
      intro j arrives
      obtain ⟨done,rest,split,here,before⟩ := interrupt_at arrives
      have fits := clear done .interrupt rest split here
      have same : ∀ pc : Pc, pc.place < Pc.totalSize.place → interrupts moves pc = interrupts done pc := by
        intro pc earlier
        rw [split]
        exact arrivals_before (by rwa [here]) _
      rw [oldRefills,← same .index (by decide),← same .startAddr (by decide)] at fits
      rwa [← before]
    case total =>
      intro executed
      obtain ⟨done,here,fits,same⟩ := at' executed
      have fits := fits.1 here
      rwa [TotalFits,oldRefills_congr same] at fits
    case first =>
      intro executed
      obtain ⟨done,here,fits,same⟩ := at' executed
      have fits := fits.2.1 here
      rwa [FirstFits,early_congr same] at fits
    case secondRead =>
      intro executed
      obtain ⟨done,here,fits,same⟩ := at' executed
      exact (secondReadFits_congr same).mp (fits.2.2.1 here)
    case second =>
      intro executed
      obtain ⟨done,here,fits,same⟩ := at' executed
      exact (secondFits_congr same).mp (fits.2.2.2 here)

end Points

section Interrupts
variable {flash : Flash} {p : Player} {base refills : Nat}

-- So much was left, so often the handler has refilled since; at m_using_mem_buff 2
-- nothing is left.
structure Refilled (base refills : Nat) (p : Player) : Prop where
  remain : p.voiceParam.voiceRemainSize.toNat = base - 1024*refills
  drained : p.dma.enabled = true → refillTarget p.usingMemBuff = none → p.voiceParam.voiceRemainSize.toNat = 0

-- The next interrupt stops the stream, or it has stopped.
structure Stopping (base : Nat) (p : Player) : Prop where
  remain : p.voiceParam.voiceRemainSize.toNat = base
  stops : p.dma.enabled = true → refillTarget p.usingMemBuff = none

def Ends (p : Player) : Prop :=
  p.dma.enabled = true → p.voiceParam.voiceRemainSize.toNat = 0 → refillTarget p.usingMemBuff = none

theorem refill_using_after (live : Live p) {mem : Mem} {value : UInt8} (target : refillTarget p.usingMemBuff = some (mem,value)) :
    (transferComplete flash p).usingMemBuff = if remainAfter p.voiceParam.voiceRemainSize = 0 then 2 else value := by
  rw [refills_live flash live target,refill_using,(interrupted_keeps p).2.1]

theorem interrupt_ends (live : Live p) : Ends (transferComplete flash p) := by
  intro running empty
  cases target : refillTarget p.usingMemBuff with
  | none =>
    rw [finish_live flash live target] at running
    cases running
  | some pair =>
    rw [(refill_interrupted flash live target).remain] at empty
    rw [refill_using_after live target,if_pos (UInt32.toNat_inj.mp empty)]
    rfl

theorem refilled_interrupt (live : Live p) (refilled : Refilled base refills p) :
    Refilled base (refills + 1) (transferComplete flash p) := by
  have remain := refilled.remain
  cases target : refillTarget p.usingMemBuff with
  | none =>
    have moved := finish_interrupted flash live target
    have empty := refilled.drained live.enabled target
    constructor
    · rw [moved.remain]
      omega
    · intro _ _
      rw [moved.remain]
      exact empty
  | some pair =>
    have moved := refill_interrupted flash live target
    constructor
    · rw [moved.remain,remainAfter_toNat]
      omega
    · intro _ stops
      rw [moved.remain]
      by_contra more
      have some' : remainAfter p.voiceParam.voiceRemainSize ≠ 0 := fun zero => more (by rw [zero]; rfl)
      rw [refill_using_after live target,if_neg some',target_next target] at stops
      cases stops

theorem stopping_interrupt (live : Live p) (stopping : Stopping base p) : Stopping base (transferComplete flash p) := by
  have target := stopping.stops live.enabled
  constructor
  · rw [(finish_interrupted flash live target).remain]
    exact stopping.remain
  · intro running
    rw [finish_live flash live target] at running
    cases running

-- The old voice after so many refills.
structure OldPlay (old : VoiceInfo) (refills : Nat) (p : Player) : Prop extends Refilled (old.size.toNat - 2048) refills p where
  going : p.dma.enabled = true → pending p + refills = interruptCount old.size
  ended : p.dma.enabled = false → refills = interruptCount old.size

theorem oldPlay_interrupt {old : VoiceInfo} (live : Live p) (oldPlay : OldPlay old refills p) :
    OldPlay old (refills + 1) (transferComplete flash p) := by
  have count := oldPlay.going live.enabled
  cases target : refillTarget p.usingMemBuff with
  | none =>
    have one := finish_pending target
    refine ⟨refilled_interrupt live oldPlay.toRefilled,?_,?_⟩
    · intro running
      rw [finish_live flash live target] at running
      cases running
    · intro _
      omega
  | some pair =>
    have fewer := refill_pending flash live target
    have still := (refill_live flash live target).enabled
    refine ⟨refilled_interrupt live oldPlay.toRefilled,?_,?_⟩
    · intro _
      omega
    · intro stopped
      rw [still] at stopped
      cases stopped

theorem oldPlay_refills {old : VoiceInfo} (oldPlay : OldPlay old refills p) (running : p.dma.enabled = true) :
    refills < refillCount old.size ↔ (refillTarget p.usingMemBuff).isSome := by
  have count := oldPlay.going running
  unfold pending at count
  unfold refillCount
  split at count
  case isTrue some' =>
    rw [iff_true_right some']
    omega
  case isFalse none' =>
    rw [iff_false_right none']
    omega

end Interrupts

section Tracking
variable {flash : Flash} {old new : VoiceInfo} {n k : Nat} {c : Pc → Nat} {s next : Restart} {done : List Move}

def bump (c : Pc → Nat) (k : Nat) (pc : Pc) : Nat := c pc + if pc.place = k then 1 else 0

theorem bump_kept {pc : Pc} (other : pc.place ≠ k) : bump c k pc = c pc := by rw [bump,if_neg other,Nat.add_zero]

theorem interrupts_bump (done : List Move) : interrupts (done ++ [.interrupt]) = bump (interrupts done) (statements done) := by
  funext pc
  rw [bump,interrupts,interrupts,arrivals_append]
  rcases Nat.lt_trichotomy pc.place (statements done) with before | here | later
  · rw [if_neg (Nat.not_le.mpr before),if_neg (Nat.ne_of_lt before)]
  · rw [if_pos (Nat.le_of_eq here.symm),if_pos here,here,Nat.sub_self]
    rfl
  · rw [if_pos (Nat.le_of_lt later),if_neg (Nat.ne_of_gt later)]
    obtain ⟨m,more⟩ := Nat.exists_eq_add_of_lt later
    rw [more,Nat.add_assoc,Nat.add_sub_cancel_left]
    rfl

-- No condition is about the statements to come.
def Settled (old new : VoiceInfo) (n : Nat) (c : Pc → Nat) (k : Nat) : Prop :=
  2 < k ∧ (new.size.toNat < 1024 ∨ 12 < k ∧ ¬TwoBlocks old new n c ∨ 14 < k)

def Mid (old new : VoiceInfo) (n : Nat) (c : Pc → Nat) (p : Player) : Prop :=
  if oldRefills n c + c .remainSize < refillCount old.size then Refilled new.size.toNat (c .sendDual + c .usingMem) p
  else Stopping new.size.toNat p

def Late (old new : VoiceInfo) (n : Nat) (c : Pc → Nat) (p : Player) : Prop :=
  if 1024*(earlyRefills old n c + c .firstStore) < new.size.toNat then
    Refilled (new.size.toNat - 1024*(earlyRefills old n c + 1)) (c .firstDual + c .testRemain + c .secondRead + c .secondLoad) p
  else Stopping (new.size.toNat - 1024*(earlyRefills old n c + 1)) p

-- What the schedule so far tells of the state before each statement.
def Phase (old new : VoiceInfo) (n : Nat) (c : Pc → Nat) (k : Nat) (s : Restart) : Prop :=
  match s.pc with
  | .index | .startAddr | .totalSize | .remainSize => k = s.pc.place ∧ OldPlay old (oldRefills n c + c .remainSize) s.player
  | .sendDual | .usingMem => k = s.pc.place ∧ Mid old new n c s.player
  | .testTotal => k = s.pc.place ∧ Refilled new.size.toNat (earlyRefills old n c) s.player
  | .firstLength | .firstRead | .firstLoad =>
    k = s.pc.place ∧ 1024 ≤ new.size.toNat ∧ Refilled new.size.toNat (earlyRefills old n c) s.player
  | .firstStore => k = s.pc.place ∧ 1024*(earlyRefills old n c + 1) ≤ new.size.toNat ∧
      s.register.toNat = new.size.toNat - 1024*(earlyRefills old n c + 1) ∧
      Refilled new.size.toNat (earlyRefills old n c + c .firstStore) s.player ∧ Ends s.player
  | .firstDual | .testRemain =>
    k = s.pc.place ∧ 1024*(earlyRefills old n c + 1) ≤ new.size.toNat ∧ Late old new n c s.player
  | .secondRead | .secondLoad =>
    k = s.pc.place ∧ 1024*(earlyRefills old n c + 1) ≤ new.size.toNat ∧ TwoBlocks old new n c ∧ Late old new n c s.player
  | _ => Settled old new n c k

theorem late_left {p : Player} (late : Late old new n c p) : p.voiceParam.voiceRemainSize.toNat =
    newLeft old new n c (c .firstDual + c .testRemain + c .secondRead + c .secondLoad) := by
  unfold Late at late
  unfold newLeft
  split at late
  case isTrue going =>
    rw [if_pos going]
    exact late.remain
  case isFalse ended =>
    rw [if_neg ended,Nat.sub_zero]
    exact late.remain

theorem old_bump (early : k ≤ 3) : oldRefills n (bump c k) + bump c k .remainSize = oldRefills n c + c .remainSize + 1 := by
  have four : k = 0 ∨ k = 1 ∨ k = 2 ∨ k = 3 := by omega
  unfold oldRefills bump
  simp only [Pc.place]
  rcases four with rfl | rfl | rfl | rfl
  all_goals
    simp
    omega

theorem old_kept (later : 3 < k) : oldRefills n (bump c k) + bump c k .remainSize = oldRefills n c + c .remainSize := by
  have before : oldRefills n (bump c k) = oldRefills n c :=
    oldRefills_congr fun pc within => bump_kept fun same => absurd (same ▸ Nat.le_trans within (by decide)) (Nat.not_le.mpr later)
  have between : Pc.remainSize.place ≠ k := Nat.ne_of_lt later
  rw [before,bump_kept between]

theorem early_kept (later : 9 < k) : earlyRefills old n (bump c k) = earlyRefills old n c :=
  early_congr fun _ within => bump_kept fun same => absurd (same ▸ within) (Nat.not_le.mpr later)

theorem early_bump (from' : 5 < k) (upTo : k ≤ 9) : earlyRefills old n (bump c k) = earlyRefills old n c + 1 := by
  have before := old_kept (n := n) (c := c) (k := k) (by omega)
  have four : k = 6 ∨ k = 7 ∨ k = 8 ∨ k = 9 := by omega
  unfold earlyRefills
  rw [before]
  unfold bump
  simp only [Pc.place]
  rcases four with rfl | rfl | rfl | rfl
  all_goals
    simp
    omega

theorem two_kept (later : 12 < k) : TwoBlocks old new n (bump c k) ↔ TwoBlocks old new n c :=
  twoBlocks_congr fun _ within => bump_kept fun same => absurd (same ▸ within) (Nat.not_le.mpr later)

theorem settled_interrupt (settled : Settled old new n c k) : Settled old new n (bump c k) k := by
  refine ⟨settled.1,?_⟩
  rcases settled.2 with short | ⟨later,one⟩ | after
  · exact Or.inl short
  · exact Or.inr (Or.inl ⟨later,by rwa [two_kept later]⟩)
  · exact Or.inr (Or.inr after)

theorem settled_statement (settled : Settled old new n c k) : Settled old new n c (k + 1) := by
  refine ⟨Nat.lt_succ_of_lt settled.1,?_⟩
  rcases settled.2 with short | ⟨later,one⟩ | after
  · exact Or.inl short
  · exact Or.inr (Or.inl ⟨Nat.lt_succ_of_lt later,one⟩)
  · exact Or.inr (Or.inr (Nat.lt_succ_of_lt after))

theorem mid_interrupt (live : Live s.player) (within : k = 4 ∨ k = 5) (mid : Mid old new n c s.player) :
    Mid old new n (bump c k) (transferComplete flash s.player) := by
  have sum : bump c k .sendDual + bump c k .usingMem = c .sendDual + c .usingMem + 1 := by
    unfold bump
    rcases within with rfl | rfl
    all_goals
      simp [Pc.place]
      omega
  unfold Mid at mid ⊢
  rw [old_kept (by omega),sum]
  split at mid
  case isTrue going =>
    rw [if_pos going]
    exact refilled_interrupt live mid
  case isFalse ended =>
    rw [if_neg ended]
    exact stopping_interrupt live mid

theorem late_interrupt (live : Live s.player) (within : 10 < k ∧ k ≤ 14) (late : Late old new n c s.player) :
    Late old new n (bump c k) (transferComplete flash s.player) := by
  have sum : bump c k .firstDual + bump c k .testRemain + bump c k .secondRead + bump c k .secondLoad =
      c .firstDual + c .testRemain + c .secondRead + c .secondLoad + 1 := by
    have four : k = 11 ∨ k = 12 ∨ k = 13 ∨ k = 14 := by omega
    unfold bump
    rcases four with rfl | rfl | rfl | rfl
    all_goals
      simp [Pc.place]
      omega
  have between : Pc.firstStore.place ≠ k := Nat.ne_of_lt within.1
  unfold Late at late ⊢
  rw [early_kept (by omega),bump_kept between,sum]
  split at late
  case isTrue going =>
    rw [if_pos going]
    exact refilled_interrupt live late
  case isFalse ended =>
    rw [if_neg ended]
    exact stopping_interrupt live late

theorem phase_interrupt (live : Live s.player) (phase : Phase old new n c k s) :
    Phase old new n (bump c k) k {s with player := transferComplete flash s.player} := by
  obtain ⟨p,pc,register⟩ := s
  cases pc with
  | index | startAddr | totalSize | remainSize =>
    dsimp only [Phase] at phase ⊢
    obtain ⟨rfl,oldPlay⟩ := phase
    refine ⟨rfl,?_⟩
    rw [old_bump (by decide)]
    exact oldPlay_interrupt live oldPlay
  | sendDual | usingMem =>
    dsimp only [Phase] at phase ⊢
    obtain ⟨rfl,mid⟩ := phase
    exact ⟨rfl,mid_interrupt live (by decide) mid⟩
  | testTotal =>
    dsimp only [Phase] at phase ⊢
    obtain ⟨rfl,refilled⟩ := phase
    refine ⟨rfl,?_⟩
    rw [early_bump (by decide) (by decide)]
    exact refilled_interrupt live refilled
  | firstLength | firstRead | firstLoad =>
    dsimp only [Phase] at phase ⊢
    obtain ⟨rfl,long,refilled⟩ := phase
    refine ⟨rfl,long,?_⟩
    rw [early_bump (by decide) (by decide)]
    exact refilled_interrupt live refilled
  | firstStore =>
    dsimp only [Phase] at phase ⊢
    obtain ⟨rfl,enough,stored,refilled,_⟩ := phase
    rw [early_kept (by decide)]
    have one : bump c Pc.firstStore.place .firstStore = c .firstStore + 1 := by rw [bump,if_pos rfl]
    rw [one]
    exact ⟨rfl,enough,stored,refilled_interrupt live refilled,interrupt_ends live⟩
  | firstDual | testRemain =>
    dsimp only [Phase] at phase ⊢
    obtain ⟨rfl,enough,late⟩ := phase
    rw [early_kept (by decide)]
    exact ⟨rfl,enough,late_interrupt live (by decide) late⟩
  | secondRead | secondLoad =>
    dsimp only [Phase] at phase ⊢
    obtain ⟨rfl,enough,two,late⟩ := phase
    rw [early_kept (by decide),two_kept (by decide)]
    exact ⟨rfl,enough,two,late_interrupt live (by decide) late⟩
  | _ => exact settled_interrupt phase

-- With the new remainder stored the interrupts go on with the new voice, unless the
-- next one is the last of the old.
theorem mid_start {p : Player} (oldPlay : OldPlay old (oldRefills n c + c .remainSize) p) (first : c .sendDual = 0)
    (second : c .usingMem = 0) : Mid old new n c (setRemain p new.size) := by
  unfold Mid
  rw [first,second]
  split
  case isTrue going =>
    refine ⟨rfl,?_⟩
    intro running stops
    have more := (oldPlay_refills oldPlay running).mp going
    rw [show refillTarget p.usingMemBuff = none from stops] at more
    cases more
  case isFalse ended =>
    refine ⟨rfl,?_⟩
    intro running
    by_contra more
    exact ended ((oldPlay_refills oldPlay running).mpr (Option.isSome_iff_ne_none.mpr more))

theorem mid_reset {p : Player} (mid : Mid old new n c p)
    (fresh : c .testTotal = 0 ∧ c .firstLength = 0 ∧ c .firstRead = 0 ∧ c .firstLoad = 0) :
    Refilled new.size.toNat (earlyRefills old n c) {p with usingMemBuff := 0} := by
  refine ⟨?_,fun _ stops => (by cases stops)⟩
  unfold Mid at mid
  unfold earlyRefills
  rw [fresh.1,fresh.2.1,fresh.2.2.1,fresh.2.2.2]
  split at mid
  case isTrue going =>
    rw [if_pos going]
    exact mid.remain
  case isFalse ended =>
    rw [if_neg ended]
    exact mid.remain

theorem late_start {p : Player} {register : UInt32} (refilled : Refilled new.size.toNat (earlyRefills old n c + c .firstStore) p)
    (ends : Ends p) (stored : register.toNat = new.size.toNat - 1024*(earlyRefills old n c + 1))
    (fresh : c .firstDual = 0 ∧ c .testRemain = 0 ∧ c .secondRead = 0 ∧ c .secondLoad = 0) :
    Late old new n c (setRemain p register) := by
  have remain := refilled.remain
  unfold Late
  rw [fresh.1,fresh.2.1,fresh.2.2.1,fresh.2.2.2]
  simp only [Nat.add_zero]
  split
  case isTrue going =>
    refine ⟨by rw [Nat.mul_zero,Nat.sub_zero]; exact stored,?_⟩
    intro running stops
    have empty := refilled.drained running stops
    omega
  case isFalse ended => exact ⟨stored,fun running => ends running (by omega)⟩

-- The statements that touch none of these variables.
theorem late_kept {p p' : Player} (late : Late old new n c p) (remain : p'.voiceParam.voiceRemainSize = p.voiceParam.voiceRemainSize)
    (enabled : p'.dma.enabled = p.dma.enabled) (using' : p'.usingMemBuff = p.usingMemBuff) : Late old new n c p' := by
  unfold Late at late ⊢
  split at late
  case isTrue going =>
    rw [if_pos going]
    exact ⟨by rw [remain]; exact late.remain,by rw [remain,enabled,using']; exact late.drained⟩
  case isFalse ended =>
    rw [if_neg ended]
    exact ⟨by rw [remain]; exact late.remain,by rw [enabled,using']; exact late.stops⟩

theorem phase_statement (consistent : Consistent old new s) {voiceIndex : UInt16}
    (stays : StaysInside flash voiceIndex old new s .statement) (phase : Phase old new n c k s)
    (fresh : ∀ pc : Pc, k < pc.place → c pc = 0) (taken : statement flash voiceIndex new s = some next) :
    Phase old new n c (k + 1) next := by
  have total := consistent.total
  obtain ⟨p,pc,register⟩ := s
  cases pc with
  | index | startAddr | totalSize =>
    cases taken
    dsimp only [Phase] at phase ⊢
    obtain ⟨rfl,oldPlay⟩ := phase
    exact ⟨rfl,⟨oldPlay.remain,oldPlay.drained⟩,oldPlay.going,oldPlay.ended⟩
  | remainSize =>
    cases taken
    dsimp only [Phase] at phase ⊢
    obtain ⟨rfl,oldPlay⟩ := phase
    exact ⟨rfl,mid_start oldPlay (fresh .sendDual (by decide)) (fresh .usingMem (by decide))⟩
  | sendDual =>
    cases taken
    dsimp only [Phase] at phase ⊢
    obtain ⟨rfl,mid⟩ := phase
    refine ⟨rfl,?_⟩
    unfold Mid at mid ⊢
    split at mid
    case isTrue going =>
      rw [if_pos going]
      exact ⟨mid.remain,mid.drained⟩
    case isFalse ended =>
      rw [if_neg ended]
      exact ⟨mid.remain,mid.stops⟩
  | usingMem =>
    cases taken
    dsimp only [Phase] at phase ⊢
    obtain ⟨rfl,mid⟩ := phase
    exact ⟨rfl,mid_reset mid ⟨fresh .testTotal (by decide),fresh .firstLength (by decide),fresh .firstRead (by decide),
      fresh .firstLoad (by decide)⟩⟩
  | testTotal =>
    cases taken
    dsimp only [Phase] at phase
    obtain ⟨rfl,refilled⟩ := phase
    have size : p.voiceParam.voiceTotalSize = new.size := total
    by_cases long : 1024 ≤ p.voiceParam.voiceTotalSize
    · rw [if_pos long]
      rw [size,enough_iff] at long
      exact ⟨rfl,long,refilled⟩
    · rw [if_neg long]
      rw [size,enough_iff] at long
      exact ⟨(by decide : 2 < 7),Or.inl (Nat.not_le.mp long)⟩
  | firstLength | firstRead =>
    cases taken
    dsimp only [Phase] at phase ⊢
    obtain ⟨rfl,long,refilled⟩ := phase
    exact ⟨rfl,long,refilled.remain,refilled.drained⟩
  | firstLoad =>
    obtain ⟨_,_,noWrap⟩ := stays next taken
    have enough : 1024 ≤ p.voiceParam.voiceRemainSize := noWrap rfl (Or.inl rfl)
    cases taken
    dsimp only [Phase] at phase ⊢
    obtain ⟨rfl,long,refilled⟩ := phase
    have remain := refilled.remain
    have some' := (enough_iff _).mp enough
    have none' : c .firstStore = 0 := fresh .firstStore (by decide)
    refine ⟨rfl,by omega,?_,?_,?_⟩
    · rw [sub_toNat enough]
      omega
    · rw [none']
      exact refilled
    · intro _ empty
      omega
  | firstStore =>
    cases taken
    dsimp only [Phase] at phase ⊢
    obtain ⟨rfl,enough,stored,refilled,ends⟩ := phase
    exact ⟨rfl,enough,late_start refilled ends stored ⟨fresh .firstDual (by decide),fresh .testRemain (by decide),
      fresh .secondRead (by decide),fresh .secondLoad (by decide)⟩⟩
  | firstDual =>
    cases taken
    dsimp only [Phase] at phase ⊢
    obtain ⟨rfl,enough,late⟩ := phase
    exact ⟨rfl,enough,late_kept late (by simp [addDualByte]) (by simp [addDualByte]) (by simp [addDualByte])⟩
  | testRemain =>
    cases taken
    dsimp only [Phase] at phase
    obtain ⟨rfl,enough,late⟩ := phase
    have remain := late_left late
    rw [fresh .secondRead (by decide),fresh .secondLoad (by decide)] at remain
    simp only [Nat.add_zero] at remain
    have two : TwoBlocks old new n c ↔ 1024 < p.voiceParam.voiceRemainSize := by
      rw [TwoBlocks,over_iff,← remain]
      exact and_iff_right (by omega)
    by_cases more : 1024 < p.voiceParam.voiceRemainSize
    · rw [if_pos more]
      exact ⟨rfl,enough,two.mpr more,late⟩
    · rw [if_neg more]
      exact ⟨(by decide : 2 < 13),Or.inr (Or.inl ⟨(by decide : 12 < 13),fun both => more (two.mp both)⟩)⟩
  | secondRead =>
    cases taken
    dsimp only [Phase] at phase ⊢
    obtain ⟨rfl,enough,two,late⟩ := phase
    exact ⟨rfl,enough,two,late_kept late rfl rfl rfl⟩
  | secondLoad =>
    cases taken
    dsimp only [Phase] at phase
    obtain ⟨rfl,_⟩ := phase
    exact ⟨(by decide : 2 < 15),Or.inr (Or.inr (by decide : 14 < 15))⟩
  | returned => cases taken
  | _ =>
    cases taken
    exact settled_statement phase

structure Tracked (old new : VoiceInfo) (n : Nat) (done : List Move) (s : Restart) : Prop where
  consistent : Consistent old new s
  phase : Phase old new n (interrupts done) (statements done) s

theorem tracked_step {voiceIndex : UInt16} {a : Move} (tracked : Tracked old new n done s)
    (stays : StaysInside flash voiceIndex old new s a) (taken : restartStep flash voiceIndex new s a = some next) :
    Tracked old new n (done ++ [a]) next := by
  refine ⟨stays_consistent tracked.consistent stays taken,?_⟩
  cases a with
  | statement =>
    have same : interrupts (done ++ [.statement]) = interrupts done := by
      funext pc
      rw [interrupts,arrivals_append]
      split
      · cases pc.place - statements done <;> rfl
      · rfl
    rw [same,statements_append]
    exact phase_statement tracked.consistent stays tracked.phase (fun pc later => arrivals_later later) taken
  | interrupt =>
    obtain ⟨running,shape⟩ := Option.ite_none_right_eq_some.mp taken
    cases shape
    rw [interrupts_bump,statements_append]
    exact phase_interrupt (consistent_live tracked.consistent running) tracked.phase

theorem blockSize_toNat_min (remain : UInt32) : (blockSize remain).toNat = min 1024 remain.toNat := by
  unfold blockSize
  split
  case isTrue enough => exact (Nat.min_eq_left ((enough_iff _).mp enough)).symm
  case isFalse short =>
    rw [enough_iff] at short
    exact (Nat.min_eq_right (by omega)).symm

-- The block an interrupt reads between the two stores.
theorem between_allowed {refills : Nat} {p : Player} {register : UInt32} (consistent : Consistent old new ⟨p,.totalSize,register⟩)
    (oldPlay : OldPlay old refills p) (running : p.dma.enabled = true) :
    BlockFits old new refills ↔ Allowed old new ⟨p,.totalSize,register⟩ .interrupt := by
  have size := old.size.toNat_lt
  have away : (offset p).toNat = p.voiceParam.voiceTotalSize.toNat - p.voiceParam.voiceRemainSize.toNat := offset_toNat consistent.bounded
  have remain : p.voiceParam.voiceRemainSize.toNat = old.size.toNat - 2048 - 1024*refills := oldPlay.remain
  have total : p.voiceParam.voiceTotalSize = old.size := consistent.total
  rw [total] at away
  have block := blockSize_toNat_min p.voiceParam.voiceRemainSize
  simp only [Allowed,running,true_implies]
  by_cases empty : p.voiceParam.voiceRemainSize.toNat = 0
  · have zero : p.voiceParam.voiceRemainSize = 0 := UInt32.toNat_inj.mp empty
    exact iff_of_true (fun more => by omega) (fun _ => Or.inl zero)
  · have some' : p.voiceParam.voiceRemainSize ≠ 0 := fun zero => empty (by rw [zero]; rfl)
    have goes : (refillTarget p.usingMemBuff).isSome := by
      by_contra none'
      exact empty (oldPlay.drained running (Option.not_isSome_iff_eq_none.mp none'))
    have shift : offset p = UInt32.ofNat (2048 + 1024*refills) := by
      apply UInt32.toNat_inj.mp
      rw [away,UInt32.toNat_ofNat',Nat.mod_eq_of_lt (by omega)]
      omega
    have bytes : blockSize p.voiceParam.voiceRemainSize = UInt32.ofNat (min 1024 (voiceLeft old.size refills)) := by
      apply UInt32.toNat_inj.mp
      rw [block,remain,UInt32.toNat_ofNat',Nat.mod_eq_of_lt (by omega)]
      rfl
    have sum : (offset p).toNat + (blockSize p.voiceParam.voiceRemainSize).toNat = min old.size.toNat (3072 + 1024*refills) := by
      rw [away,block]
      omega
    unfold BlockFits
    rw [sum,bytes,shift]
    constructor
    · exact fun fits _ => Or.inr (fits (by omega))
    · exact fun fits _ => (fits goes).resolve_left some'

theorem settled_clear (settled : Settled old new n (interrupts done) (statements done)) : Clear old new n done .statement := by
  obtain ⟨two,rest⟩ := settled
  refine ⟨?_,?_,?_,?_⟩
  · intro here
    simp only [here,Pc.place] at two
    omega
  · intro here long
    simp only [here,Pc.place] at rest
    omega
  · intro here both
    simp only [here,Pc.place] at rest
    rcases rest with short | ⟨_,one⟩ | after
    · exact absurd both.1 (Nat.not_le.mpr short)
    · exact absurd both one
    · omega
  · intro here both
    simp only [here,Pc.place] at rest
    rcases rest with short | ⟨_,one⟩ | after
    · exact absurd both.1 (Nat.not_le.mpr short)
    · exact absurd both one
    · omega

-- The statements with a condition stand at four places.
theorem clear_elsewhere (two : statements done ≠ 2) (nine : statements done ≠ 9) (thirteen : statements done ≠ 13)
    (fourteen : statements done ≠ 14) : Clear old new n done .statement :=
  ⟨fun here => absurd here two,fun here => absurd here nine,fun here => absurd here thirteen,fun here => absurd here fourteen⟩

theorem statement_clear (tracked : Tracked old new n done s) : Clear old new n done .statement ↔ Allowed old new s .statement := by
  obtain ⟨consistent,phase⟩ := tracked
  have fresh : ∀ pc : Pc, statements done < pc.place → interrupts done pc = 0 := fun _ later => arrivals_later later
  have total := consistent.total
  have bounded := consistent.bounded
  have start := consistent.start
  obtain ⟨p,pc,register⟩ := s
  cases pc with
  | index | startAddr | remainSize | sendDual | usingMem | testTotal | firstLength | firstRead | firstStore | firstDual | testRemain =>
    dsimp only [Phase] at phase
    have here := phase.1
    refine iff_of_true (clear_elsewhere ?_ ?_ ?_ ?_) trivial
    all_goals
      rw [here]
      exact (by decide)
  | totalSize =>
    dsimp only [Phase] at phase
    obtain ⟨here,oldPlay⟩ := phase
    have remain : p.voiceParam.voiceRemainSize.toNat =
        old.size.toNat - 2048 - 1024*(oldRefills n (interrupts done) + interrupts done .remainSize) := oldPlay.remain
    rw [fresh .remainSize (by rw [here]; decide),Nat.add_zero] at remain
    have fits : TotalFits old new n (interrupts done) ↔ p.voiceParam.voiceRemainSize ≤ new.size := by
      rw [TotalFits,voiceLeft,UInt32.le_iff_toNat_le,remain]
    constructor
    · exact fun clear => fits.mp (clear.1 here)
    · intro allowed
      refine ⟨fun _ => fits.mpr allowed,?_,?_,?_⟩
      all_goals exact fun other => absurd (here.symm.trans other) (by decide)
  | firstLoad =>
    dsimp only [Phase] at phase
    obtain ⟨here,long,refilled⟩ := phase
    have remain : p.voiceParam.voiceRemainSize.toNat = new.size.toNat - 1024*earlyRefills old n (interrupts done) := refilled.remain
    have fits : FirstFits old new n (interrupts done) ↔ 1024 ≤ p.voiceParam.voiceRemainSize := by
      rw [FirstFits,enough_iff,remain,forall_prop_of_true long]
      omega
    constructor
    · exact fun clear => fits.mp (clear.2.1 here)
    · intro allowed
      refine ⟨?_,fun _ => fits.mpr allowed,?_,?_⟩
      all_goals exact fun other => absurd (here.symm.trans other) (by decide)
  | secondRead =>
    dsimp only [Phase] at phase
    obtain ⟨here,enough,two,late⟩ := phase
    have remain : p.voiceParam.voiceRemainSize.toNat = _ := late_left late
    rw [fresh .secondLoad (by rw [here]; decide)] at remain
    simp only [Nat.add_zero] at remain
    have away : (offset p).toNat = p.voiceParam.voiceTotalSize.toNat - p.voiceParam.voiceRemainSize.toNat := offset_toNat bounded
    have size : p.voiceParam.voiceTotalSize = new.size := total
    have shift : offset p = UInt32.ofNat (new.size.toNat - p.voiceParam.voiceRemainSize.toNat) := by
      apply UInt32.toNat_inj.mp
      have small := new.size.toNat_lt
      rw [away,size,UInt32.toNat_ofNat',Nat.mod_eq_of_lt (by omega)]
    have fits : SecondReadFits old new n (interrupts done) ↔
        1024 ≤ p.voiceParam.voiceRemainSize ∨ InEntry old (new.startAddr + offset p,1024) := by
      rw [SecondReadFits,forall_prop_of_true two,enough_iff,shift,remain]
    constructor
    · exact fun clear => fits.mp (clear.2.2.1 here)
    · intro allowed
      refine ⟨?_,?_,fun _ => fits.mpr allowed,?_⟩
      all_goals exact fun other => absurd (here.symm.trans other) (by decide)
  | secondLoad =>
    dsimp only [Phase] at phase
    obtain ⟨here,enough,two,late⟩ := phase
    have remain : p.voiceParam.voiceRemainSize.toNat = _ := late_left late
    have fits : SecondFits old new n (interrupts done) ↔ 1024 ≤ p.voiceParam.voiceRemainSize := by
      rw [SecondFits,forall_prop_of_true two,enough_iff,remain]
    constructor
    · exact fun clear => fits.mp (clear.2.2.2 here)
    · intro allowed
      refine ⟨?_,?_,?_,fun _ => fits.mpr allowed⟩
      all_goals exact fun other => absurd (here.symm.trans other) (by decide)
  | _ => exact iff_of_true (settled_clear phase) trivial

theorem interrupt_clear (tracked : Tracked old new n done s) (running : s.player.dma.enabled = true) :
    Clear old new n done .interrupt ↔ Allowed old new s .interrupt := by
  obtain ⟨consistent,phase⟩ := tracked
  have fresh : ∀ pc : Pc, statements done < pc.place → interrupts done pc = 0 := fun _ later => arrivals_later later
  obtain ⟨p,pc,register⟩ := s
  cases pc with
  | totalSize =>
    dsimp only [Phase] at phase
    obtain ⟨here,oldPlay⟩ := phase
    rw [fresh .remainSize (by rw [here]; decide)] at oldPlay
    exact (forall_prop_of_true here).trans (between_allowed consistent oldPlay running)
  | index | startAddr | remainSize | sendDual | usingMem | testTotal | firstLength | firstRead | firstLoad | firstStore | firstDual
  | testRemain | secondRead | secondLoad =>
    dsimp only [Phase] at phase
    have here := phase.1
    exact iff_of_true (fun other => absurd (here.symm.trans other) (by decide)) trivial
  | _ =>
    have later := phase.1
    exact iff_of_true (fun here => absurd here (Nat.ne_of_gt later)) trivial

theorem clear_stays {voiceIndex : UInt16} {a : Move} (tracked : Tracked old new n done s)
    (taken : restartStep flash voiceIndex new s a = some next) : Clear old new n done a ↔ StaysInside flash voiceIndex old new s a := by
  rw [← stays_exact tracked.consistent]
  cases a with
  | statement => exact statement_clear tracked
  | interrupt => exact interrupt_clear tracked (Option.ite_none_right_eq_some.mp taken).1

theorem start_oldPlay (flash : Flash) (head : VoiceHead) (p : Player) (current : UInt16) :
    OldPlay (head current) 0 (playVoiceStart flash head p current) := by
  obtain ⟨param,using',_⟩ := start_control flash head p current
  have remain : (playVoiceStart flash head p current).voiceParam.voiceRemainSize.toNat = (head current).size.toNat - 2048 := by
    have stored : (playVoiceStart flash head p current).voiceParam.voiceRemainSize = startRemain (head current).size :=
      congrArg VoiceParam.voiceRemainSize param
    rw [stored,startRemain_toNat]
  refine ⟨⟨by rw [remain,Nat.mul_zero,Nat.sub_zero],?_⟩,fun _ => start_pending flash head p current,?_⟩
  · intro _ stops
    rw [using'] at stops
    split at stops
    case isTrue => cases stops
    case isFalse short =>
      rw [enough_iff] at short
      omega
  · intro stopped
    rw [(start_live flash head p current).enabled] at stopped
    cases stopped

theorem playing_tracked {head : VoiceHead} {p : Player} {current : UInt16} (playing : n < interruptCount (head current).size)
    (new : VoiceInfo) : Tracked (head current) new n [] (called (playOut flash n (playVoiceStart flash head p current))) := by
  have before : n < pending (playVoiceStart flash head p current) := by rw [start_pending]; exact playing
  obtain ⟨live,⟨m,oldPlay⟩,count⟩ := playing_invariant flash (fun t => ∃ m, OldPlay (head current) m t)
    (fun t mem value live target ⟨m,oldPlay⟩ => ⟨m + 1,oldPlay_interrupt live oldPlay⟩) (start_live flash head p current)
    ⟨0,start_oldPlay flash head p current⟩ before
  have same : m = n := by
    have sum := oldPlay.going live.enabled
    rw [start_pending] at count
    omega
  rw [same] at oldPlay
  exact ⟨playing_consistent playing new,rfl,oldPlay⟩

end Tracking

-- play_voice_start of one entry while another is playing, after n of its blocks and under
-- any interleaving: the voice stays inside its bounds exactly when the sizes, n and the
-- numbers of interrupts at each statement say so.
theorem restart_inside_iff (flash : Flash) (head : VoiceHead) (p : Player) (current later : UInt16) (n : Nat)
    (playing : n < interruptCount (head current).size) (moves : List Move) {after : Restart}
    (ran : run (restartStep flash later (head later)) (called (playOut flash n (playVoiceStart flash head p current))) moves = some after) :
    Spared (head current) (head later) n moves ↔
      Along (restartStep flash later (head later)) (StaysInside flash later (head current) (head later))
        (called (playOut flash n (playVoiceStart flash head p current))) moves := by
  rw [spared_iff]
  have exact' : ∀ done s a next, Tracked (head current) (head later) n done s → restartStep flash later (head later) s a = some next →
      (Clear (head current) (head later) n done a ↔ StaysInside flash later (head current) (head later) s a) :=
    fun _ _ _ _ tracked taken => clear_stays tracked taken
  exact along_iff_history exact' (fun _ _ _ _ tracked stays taken => tracked_step tracked stays taken)
    (playing_tracked playing (head later)) ran

-- A long voice taken over by a longer one, with interrupts before and after the
-- first subtraction.
def longer : VoiceHead := fun i => if i = 0 then ⟨4096,4096⟩ else ⟨8192,8192⟩

def aroundFirstLoad : List Move :=
  List.replicate 7 .statement ++ [.interrupt] ++ List.replicate 3 .statement ++ [.interrupt,.statement]

theorem restart_inside_longer : Along (restartStep erased 1 (longer 1)) (StaysInside erased 1 (longer 0) (longer 1))
    (called (playOut erased 0 (playVoiceStart erased longer initialised 0))) aroundFirstLoad := by
  obtain ⟨after,ran⟩ := Option.isSome_iff_exists.mp (by decide +kernel : (run (restartStep erased 1 (longer 1))
    (called (playOut erased 0 (playVoiceStart erased longer initialised 0))) aroundFirstLoad).isSome = true)
  apply (restart_inside_iff erased longer initialised 0 1 0 (by decide) aroundFirstLoad ran).mp
  exact ⟨by decide,by decide,by decide,by decide,by decide⟩

-- A voice of one block: an interrupt after the remainder is stored reads that
-- block, and the start then subtracts a block from nothing.
def oneBlock : VoiceHead := fun i => if i = 0 then ⟨4096,3072⟩ else ⟨8192,1024⟩

theorem restart_wraps : ¬ ∀ (flash : Flash) (head : VoiceHead) (p : Player) (current later : UInt16) (n : Nat),
    n < interruptCount (head current).size → ∀ moves : List Move,
      Along (restartStep flash later (head later)) (StaysInside flash later (head current) (head later))
        (called (playOut flash n (playVoiceStart flash head p current))) moves := by
  intro all
  have bad := along_at (List.replicate 9 Move.statement ++ [.interrupt])
    (all erased oneBlock initialised 0 1 0 (by decide) (List.replicate 9 .statement ++ [.interrupt,.statement])) rfl
  have wraps := (bad _ rfl).2.2 rfl (Or.inl rfl)
  revert wraps
  decide

end SssAlarmHost.VoicePlayer
