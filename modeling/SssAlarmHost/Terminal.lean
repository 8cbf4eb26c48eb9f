import SssAlarmHost.MachineRuns
import SssAlarmHost.RingBuffer
import SssAlarmHost.Ipc

namespace SssAlarmHost.Terminal
open MachineRuns RingBuffer Semaphore

-- RT_SERIAL_RB_BUFSZ of RT_SERIAL_CONFIG_DEFAULT.
abbrev bufsz : Nat := 64

inductive Thread where
  | ec200t
  deriving DecidableEq

-- Where serial1_thread_entry is: before rt_device_read, after a read that found
-- nothing, suspended in rt_sem_take, or behind it and before its printf.
inductive Position where
  | reading
  | taking
  | suspended
  | printing
  deriving DecidableEq

-- The driver ring, the semaphore and the thread with its local variable. What was
-- read, received and printed and how often the semaphore was released are
-- histories the code does not keep.
structure State where
  rxFifo : Ring UInt8 bufsz
  rxSem : RtSem Thread
  position : Position
  inIsr : Bool
  ch : UInt8
  handed : List UInt8
  received : List UInt8
  printed : List UInt8
  releases : Nat

inductive Action where
  | getc (ch : UInt8)
  | indicate
  | read
  | take
  | print
  deriving DecidableEq

-- ch is not initialised: it starts with whatever the stack holds.
def start (ch : UInt8) : State := ⟨Ring.empty 0,rtSemCreate 0,.reading,false,ch,[],[],[],0⟩

def getc (s : State) (ch : UInt8) : State :=
  {s with rxFifo := s.rxFifo.put ch,inIsr := true,received := s.received ++ [ch]}

def uartInput (s : State) : State :=
  let released := rtSemRelease s.rxSem
  {s with
    rxSem := released.1,inIsr := false,releases := s.releases + 1
    position := if released.2 = some Thread.ec200t then .printing else s.position}

def readByte (s : State) : State :=
  match s.rxFifo.get with
  | none => {s with position := .taking}
  | some (ch,rest) => {s with rxFifo := rest,ch := ch,handed := s.handed ++ [ch]}

def takeSem (s : State) : State :=
  let taken := rtSemTake s.rxSem Thread.ec200t
  {s with rxSem := taken.1,position := if taken.2 then .printing else .suspended}

def printByte (s : State) : State := {s with position := .reading,printed := s.printed ++ [s.ch]}

-- An interrupt is one or more bytes and then the callback. The ring does not overflow.
def step (s : State) : Action → Option State
  | .getc ch => if s.rxFifo.count + 1 < bufsz then some (getc s ch) else none
  | .indicate => if s.inIsr then some (uartInput s) else none
  | .read => if s.position = .reading then some (readByte s) else none
  | .take => if s.position = .taking then some (takeSem s) else none
  | .print => if s.position = .printing then some (printByte s) else none

-- What is printed is a prefix of what came, and all of it when the thread sleeps
-- and no interrupt is under way.
structure Faithful (s : State) : Prop where
  prefix' : s.printed <+: s.received
  whole : s.position = .suspended → s.inIsr = false → s.printed = s.received

def StaysFaithful (s : State) (a : Action) : Prop := ∀ next, step s a = some next → Faithful next

section Schedule

def reads (done : List Action) : Nat := done.count .read
def prints (done : List Action) : Nat := done.count .print
def indicates (done : List Action) : Nat := done.count .indicate

def bytes (done : List Action) : List UInt8 := done.filterMap fun
  | .getc ch => some ch
  | _ => none

def interruptedBy (busy : Bool) : Action → Bool
  | .getc _ => true
  | .indicate => false
  | _ => busy

def inInterrupt (done : List Action) : Bool := done.foldl interruptedBy false

-- One byte was read for each print, or the byte that is printed equals by chance the one
-- that is due: of r reads before print p + 1, all but p + 1 found a byte. The thread goes
-- to sleep outside an interrupt only when each interrupt brought one byte and the count
-- has not wrapped.
def InStep (first : UInt8) (done : List Action) : Action → Prop
  | .print => reads done = 2*(prints done + 1) ∨
      (first :: bytes done)[reads done - (prints done + 1)]? = (bytes done)[prints done]?
  | .take => (indicates done - prints done) % 65536 = 0 → inInterrupt done = false →
      (bytes done).length = indicates done ∧ indicates done < prints done + 65536
  | _ => True

instance (first : UInt8) (done : List Action) : ∀ a, Decidable (InStep first done a)
  | .print => inferInstanceAs (Decidable (_ ∨ _))
  | .take => inferInstanceAs (Decidable (_ → _ → _ ∧ _))
  | .getc _ => isTrue trivial
  | .indicate => isTrue trivial
  | .read => isTrue trivial

end Schedule

def passes (s : State) : Nat := s.printed.length + if s.position = .printing then 1 else 0

structure Consistent (first : UInt8) (s : State) : Prop where
  noneLost : s.rxFifo.isFull = false
  conserved : s.handed ++ s.rxFifo.contents = s.received
  last : (first :: s.received)[s.handed.length]? = some s.ch
  printed : s.printed <+: s.received
  counted : ∃ wraps, s.releases = passes s + s.rxSem.value.toNat + 65536*wraps
  brought : s.releases + (if s.inIsr then 1 else 0) ≤ s.received.length
  queued : s.position = .suspended → s.rxSem.value = 0 ∧ s.rxSem.suspendThread = [.ec200t]
  free : s.position ≠ .suspended → s.rxSem.suspendThread = []

variable {first : UInt8} {s next : State}

theorem start_consistent (first : UInt8) : Consistent first (start first) :=
  ⟨rfl,(contents_nil (start first).rxFifo).mpr rfl,rfl,List.prefix_refl _,⟨0,rfl⟩,Nat.le_refl _,
    (fun waiting => nomatch waiting),fun _ => rfl⟩

theorem prefix_snoc {printed received : List UInt8} (before : printed <+: received) (ch : UInt8) :
    printed ++ [ch] <+: received ↔ received[printed.length]? = some ch := by
  obtain ⟨rest,rfl⟩ := before
  rw [List.prefix_append_right_inj,List.getElem?_append_right (Nat.le_refl _),Nat.sub_self]
  cases rest with
  | nil => simp
  | cons x rest => simp [eq_comm]

theorem prefix_whole {printed received : List UInt8} (before : printed <+: received) :
    printed = received ↔ received.length = printed.length :=
  ⟨fun same => by rw [same],fun same => before.eq_of_length same.symm⟩

theorem faithful_iff (consistent : Consistent first s) : Faithful s ↔
    (s.position = .suspended → s.inIsr = false → s.received.length = s.printed.length) := by
  have whole := prefix_whole consistent.printed
  constructor
  · intro faithful asleep returned
    exact whole.mp (faithful.whole asleep returned)
  · intro same
    exact ⟨consistent.printed,fun asleep returned => whole.mpr (same asleep returned)⟩

theorem getc_consistent (consistent : Consistent first s) (ch : UInt8) (room : s.rxFifo.count + 1 < bufsz) :
    Consistent first (getc s ch) := by
  obtain ⟨appended,noneLost⟩ := put_contents s.rxFifo ch room consistent.noneLost
  have brought := consistent.brought
  refine ⟨noneLost,?_,?_,consistent.printed.trans (List.prefix_append _ _),consistent.counted,?_,
    consistent.queued,consistent.free⟩
  · change s.handed ++ (s.rxFifo.put ch).contents = s.received ++ [ch]
    rw [appended,← List.append_assoc,consistent.conserved]
  · have last := consistent.last
    change (first :: (s.received ++ [ch]))[s.handed.length]? = some s.ch
    rw [← List.cons_append,List.getElem?_append_left (List.getElem?_eq_some_iff.mp last).1]
    exact last
  · simp only [getc,if_true,List.length_append,List.length_singleton]
    split at brought <;> omega

theorem uartInput_consistent (consistent : Consistent first s) (busy : s.inIsr = true) : Consistent first (uartInput s) := by
  have brought := consistent.brought
  obtain ⟨wraps,counted⟩ := consistent.counted
  simp only [busy,if_true] at brought
  by_cases asleep : s.position = .suspended
  · obtain ⟨zero,self⟩ := consistent.queued asleep
    have resumed : uartInput s =
        {s with rxSem := ⟨s.rxSem.value,[]⟩,inIsr := false,releases := s.releases + 1,position := .printing} := by
      simp [uartInput,release_waiting self]
    rw [resumed]
    refine ⟨consistent.noneLost,consistent.conserved,consistent.last,consistent.printed,⟨wraps,?_⟩,?_,?_,fun _ => rfl⟩
    · simp [passes,asleep] at counted ⊢
      omega
    · simpa using brought
    · intro waiting
      cases waiting
  · have idle := consistent.free asleep
    have counted' : uartInput s =
        {s with rxSem := ⟨s.rxSem.value + 1,s.rxSem.suspendThread⟩,inIsr := false,releases := s.releases + 1} := by
      simp [uartInput,release_idle idle]
    rw [counted']
    refine ⟨consistent.noneLost,consistent.conserved,consistent.last,consistent.printed,?_,?_,
      fun waiting => absurd waiting asleep,consistent.free⟩
    · refine ⟨wraps + (s.rxSem.value.toNat + 1)/65536,?_⟩
      simp only [passes,UInt16.toNat_add,UInt16.reduceToNat] at counted ⊢
      omega
    · simpa using brought

theorem readByte_consistent (consistent : Consistent first s) (reading : s.position = .reading) :
    Consistent first (readByte s) := by
  have free := consistent.free (by rw [reading]; decide)
  obtain ⟨wraps,counted⟩ := consistent.counted
  rcases get_contents s.rxFifo consistent.noneLost with ⟨missing,_⟩ | ⟨ch,rest,got,front,noneLost⟩
  · have shape : readByte s = {s with position := .taking} := by simp [readByte,missing]
    rw [shape]
    refine ⟨consistent.noneLost,consistent.conserved,consistent.last,consistent.printed,⟨wraps,?_⟩,consistent.brought,
      (fun waiting => nomatch waiting),fun _ => free⟩
    simpa [passes,reading] using counted
  · have shape : readByte s = {s with rxFifo := rest,ch := ch,handed := s.handed ++ [ch]} := by simp [readByte,got]
    have whole : s.handed ++ ch :: rest.contents = s.received := by rw [← front]; exact consistent.conserved
    rw [shape]
    refine ⟨noneLost,?_,?_,consistent.printed,⟨wraps,counted⟩,consistent.brought,
      fun waiting => (by rw [reading] at waiting; cases waiting),fun _ => free⟩
    · simpa using whole
    · simp [← whole]

theorem takeSem_consistent (consistent : Consistent first s) (taking : s.position = .taking) :
    Consistent first (takeSem s) := by
  have free := consistent.free (by rw [taking]; decide)
  obtain ⟨wraps,counted⟩ := consistent.counted
  rcases take_cases s.rxSem Thread.ec200t with ⟨positive,taken⟩ | ⟨zero,taken⟩
  · have shape : takeSem s = {s with rxSem := ⟨s.rxSem.value - 1,s.rxSem.suspendThread⟩,position := .printing} := by
      simp [takeSem,taken]
    rw [shape]
    refine ⟨consistent.noneLost,consistent.conserved,consistent.last,consistent.printed,⟨wraps,?_⟩,consistent.brought,
      (fun waiting => nomatch waiting),fun _ => free⟩
    have above := UInt16.lt_iff_toNat_lt.mp positive
    have less := UInt16.toNat_sub_of_le s.rxSem.value 1 (UInt16.le_iff_toNat_le.mpr above)
    simp [passes,taking] at counted ⊢
    rw [less]
    simp only [UInt16.reduceToNat] at above ⊢
    omega
  · have shape : takeSem s = {s with rxSem := ⟨s.rxSem.value,[.ec200t]⟩,position := .suspended} := by
      simp [takeSem,taken,free]
    rw [shape]
    refine ⟨consistent.noneLost,consistent.conserved,consistent.last,consistent.printed,⟨wraps,?_⟩,consistent.brought,
      fun _ => ⟨zero,rfl⟩,fun awake => absurd rfl awake⟩
    simpa [passes,taking] using counted

theorem printByte_consistent (consistent : Consistent first s) (printing : s.position = .printing)
    (due : s.printed ++ [s.ch] <+: s.received) : Consistent first (printByte s) := by
  obtain ⟨wraps,counted⟩ := consistent.counted
  refine ⟨consistent.noneLost,consistent.conserved,consistent.last,due,⟨wraps,?_⟩,consistent.brought,
    (fun waiting => nomatch waiting),fun _ => consistent.free (by rw [printing]; decide)⟩
  simpa [passes,printing,printByte] using counted

theorem awake_faithful (consistent : Consistent first s) (awake : s.position = .suspended → s.inIsr = true) :
    Faithful s := by
  refine (faithful_iff consistent).mpr ?_
  intro asleep returned
  rw [awake asleep] at returned
  cases returned

theorem uartInput_awake (consistent : Consistent first s) : (uartInput s).position ≠ .suspended := by
  by_cases asleep : s.position = .suspended
  · simp [uartInput,release_waiting (consistent.queued asleep).2]
  · simpa [uartInput,release_idle (consistent.free asleep)] using asleep

theorem readByte_awake (reading : s.position = .reading) : (readByte s).position ≠ .suspended := by
  unfold readByte
  split
  · exact fun asleep => nomatch asleep
  · rw [reading]
    decide

theorem print_faithful (consistent : Consistent first s) (printing : s.position = .printing) :
    StaysFaithful s .print ↔ (first :: s.received)[s.handed.length]? = s.received[s.printed.length]? := by
  rw [consistent.last]
  constructor
  · intro stays
    have faithful := stays (printByte s) (if_pos printing)
    exact ((prefix_snoc consistent.printed s.ch).mp faithful.prefix').symm
  · intro due next taken
    obtain ⟨_,same⟩ := Option.ite_none_right_eq_some.mp taken
    cases same
    exact ⟨(prefix_snoc consistent.printed s.ch).mpr due.symm,fun waiting => nomatch waiting⟩

-- Between the prints and the bytes stand the releases: one for each print and any
-- that are lost, and at most one for each byte.
theorem take_faithful (consistent : Consistent first s) (taking : s.position = .taking) :
    StaysFaithful s .take ↔ ((s.releases - s.printed.length) % 65536 = 0 → s.inIsr = false →
      s.received.length = s.releases ∧ s.releases < s.printed.length + 65536) := by
  obtain ⟨wraps,counted⟩ := consistent.counted
  have brought := consistent.brought
  have shorter := consistent.printed.length_le
  simp only [passes,taking,reduceCtorEq,if_false,Nat.add_zero] at counted
  have small := s.rxSem.value.toNat_lt
  constructor
  · intro stays sleeps returned
    have zero : s.rxSem.value = 0 := UInt16.toNat_inj.mp (show s.rxSem.value.toNat = 0 by omega)
    have faithful := stays (takeSem s) (if_pos taking)
    have asleep : (takeSem s).position = .suspended := by simp [takeSem,take_zero zero]
    have whole := faithful.whole asleep returned
    have same : s.printed.length = s.received.length := congrArg List.length whole
    simp only [returned,Bool.false_eq_true,if_false,Nat.add_zero] at brought
    omega
  · intro inStep next taken
    obtain ⟨_,same⟩ := Option.ite_none_right_eq_some.mp taken
    cases same
    refine (faithful_iff (takeSem_consistent consistent taking)).mpr ?_
    intro asleep returned
    have zero : s.rxSem.value = 0 := by
      rcases take_cases s.rxSem Thread.ec200t with ⟨_,passed⟩ | ⟨zero,_⟩
      · simp [takeSem,passed] at asleep
      · exact zero
    rw [zero] at counted
    simp only [UInt16.toNat_zero] at counted
    obtain ⟨single,few⟩ := inStep (by omega) returned
    change s.received.length = s.printed.length
    omega

theorem moved_consistent {a : Action} (consistent : Consistent first s) (other : a ≠ .print)
    (taken : step s a = some next) : Consistent first next := by
  cases a with
  | getc ch =>
    obtain ⟨room,same⟩ := Option.ite_none_right_eq_some.mp taken
    cases same
    exact getc_consistent consistent ch room
  | indicate =>
    obtain ⟨busy,same⟩ := Option.ite_none_right_eq_some.mp taken
    cases same
    exact uartInput_consistent consistent busy
  | read =>
    obtain ⟨reading,same⟩ := Option.ite_none_right_eq_some.mp taken
    cases same
    exact readByte_consistent consistent reading
  | take =>
    obtain ⟨taking,same⟩ := Option.ite_none_right_eq_some.mp taken
    cases same
    exact takeSem_consistent consistent taking
  | print => exact absurd rfl other

-- Outside an interrupt only a take puts the thread to sleep or leaves it asleep.
theorem moved_awake {a : Action} (consistent : Consistent first s) (other : a ≠ .take)
    (taken : step s a = some next) : next.position = .suspended → next.inIsr = true := by
  intro asleep
  cases a with
  | getc ch =>
    obtain ⟨_,same⟩ := Option.ite_none_right_eq_some.mp taken
    cases same
    rfl
  | indicate =>
    obtain ⟨_,same⟩ := Option.ite_none_right_eq_some.mp taken
    cases same
    exact absurd asleep (uartInput_awake consistent)
  | read =>
    obtain ⟨reading,same⟩ := Option.ite_none_right_eq_some.mp taken
    cases same
    exact absurd asleep (readByte_awake reading)
  | take => exact absurd rfl other
  | print =>
    obtain ⟨_,same⟩ := Option.ite_none_right_eq_some.mp taken
    cases same
    cases asleep

theorem moved_faithful {a : Action} (consistent : Consistent first s) (noPrint : a ≠ .print) (noTake : a ≠ .take) :
    StaysFaithful s a := by
  intro next taken
  exact awake_faithful (moved_consistent consistent noPrint taken) (moved_awake consistent noTake taken)

-- What the schedule so far tells of the state. A read that finds nothing is followed by
-- a take, and that by a print.
structure Scheduled (first : UInt8) (done : List Action) (s : State) : Prop where
  consistent : Consistent first s
  received : s.received = bytes done
  printed : s.printed.length = prints done
  releases : s.releases = indicates done
  inIsr : s.inIsr = inInterrupt done
  reads : reads done = s.handed.length + s.printed.length + if s.position = .reading then 0 else 1

theorem inStep_iff {done : List Action} {a : Action} (scheduled : Scheduled first done s) (taken : step s a = some next) :
    InStep first done a ↔ StaysFaithful s a := by
  have consistent := scheduled.consistent
  have read := scheduled.reads
  cases a with
  | print =>
    have printing := (Option.ite_none_right_eq_some.mp taken).1
    rw [print_faithful consistent printing,InStep,← scheduled.received,← scheduled.printed]
    simp only [printing,reduceCtorEq,if_false] at read
    have place : Terminal.reads done - (s.printed.length + 1) = s.handed.length := by omega
    rw [place]
    refine ⟨fun inStep => inStep.elim ?_ id,Or.inr⟩
    intro one
    have next' : s.handed.length = s.printed.length + 1 := by omega
    rw [next',List.getElem?_cons_succ]
  | take =>
    have taking := (Option.ite_none_right_eq_some.mp taken).1
    rw [take_faithful consistent taking,InStep,← scheduled.received,← scheduled.printed,← scheduled.releases,← scheduled.inIsr]
  | getc ch => exact iff_of_true trivial (moved_faithful consistent (by simp) (by simp))
  | indicate => exact iff_of_true trivial (moved_faithful consistent (by simp) (by simp))
  | read => exact iff_of_true trivial (moved_faithful consistent (by simp) (by simp))

theorem step_consistent {a : Action} (consistent : Consistent first s) (stays : StaysFaithful s a)
    (taken : step s a = some next) : Consistent first next := by
  by_cases print : a = .print
  · subst print
    have faithful := stays next taken
    obtain ⟨printing,same⟩ := Option.ite_none_right_eq_some.mp taken
    cases same
    exact printByte_consistent consistent printing faithful.prefix'
  · exact moved_consistent consistent print taken

theorem start_scheduled (first : UInt8) : Scheduled first [] (start first) := ⟨start_consistent first,rfl,rfl,rfl,rfl,rfl⟩

theorem step_scheduled {done : List Action} {a : Action} (scheduled : Scheduled first done s) (stays : StaysFaithful s a)
    (taken : step s a = some next) : Scheduled first (done ++ [a]) next := by
  have consistent := step_consistent scheduled.consistent stays taken
  obtain ⟨before,received,printed,releases,inIsr,read⟩ := scheduled
  have count : ∀ b : Action, (done ++ [a]).count b = done.count b + [a].count b := fun b => List.count_append
  have busy : inInterrupt (done ++ [a]) = interruptedBy (inInterrupt done) a := List.foldl_append
  have came : bytes (done ++ [a]) = bytes done ++ bytes [a] := List.filterMap_append
  have seen : ∀ {l : List UInt8}, bytes [a] = [] → l = bytes done → l = bytes (done ++ [a]) := by
    intro l none' same
    rw [came,none',List.append_nil,same]
  cases a with
  | getc ch =>
    cases (Option.ite_none_right_eq_some.mp taken).2
    refine ⟨consistent,?_,?_,?_,busy.symm,?_⟩
    · rw [came,← received]
      rfl
    · rw [prints,count]
      exact printed
    · rw [indicates,count]
      exact releases
    · rw [reads,count]
      exact read
  | indicate =>
    cases (Option.ite_none_right_eq_some.mp taken).2
    refine ⟨consistent,seen rfl received,?_,?_,busy.symm,?_⟩
    · rw [prints,count]
      exact printed
    · rw [indicates,count]
      exact congrArg (· + 1) releases
    · rw [reads,count]
      have awake : (uartInput s).position = .reading ↔ s.position = .reading := by
        by_cases asleep : s.position = .suspended
        · simp [uartInput,release_waiting (before.queued asleep).2,asleep]
        · simp [uartInput,release_idle (before.free asleep)]
      simp only [awake]
      exact read
  | read =>
    obtain ⟨reading,same⟩ := Option.ite_none_right_eq_some.mp taken
    cases same
    rw [reading,if_pos rfl] at read
    have found : reads (done ++ [.read]) = reads done + 1 := count .read
    unfold readByte at consistent ⊢
    split at consistent
    · refine ⟨consistent,seen rfl received,?_,?_,busy.symm ▸ inIsr,?_⟩
      · rw [prints,count]
        exact printed
      · rw [indicates,count]
        exact releases
      · rw [found,read]
        rfl
    · refine ⟨consistent,seen rfl received,?_,?_,busy.symm ▸ inIsr,?_⟩
      · rw [prints,count]
        exact printed
      · rw [indicates,count]
        exact releases
      · rw [found,read,reading,if_pos rfl,List.length_append,List.length_singleton]
        exact congrArg (· + 0) (Nat.add_right_comm _ _ _)
  | take =>
    obtain ⟨taking,same⟩ := Option.ite_none_right_eq_some.mp taken
    cases same
    refine ⟨consistent,seen rfl received,?_,?_,busy.symm ▸ inIsr,?_⟩
    · rw [prints,count]
      exact printed
    · rw [indicates,count]
      exact releases
    · rw [reads,count]
      have away : (takeSem s).position ≠ .reading := by
        rcases take_cases s.rxSem Thread.ec200t with ⟨_,took⟩ | ⟨_,took⟩
        · simp [takeSem,took]
        · simp [takeSem,took]
      rw [if_neg away]
      rw [if_neg (by rw [taking]; decide)] at read
      exact read
  | print =>
    obtain ⟨printing,same⟩ := Option.ite_none_right_eq_some.mp taken
    cases same
    refine ⟨consistent,seen rfl received,?_,?_,busy.symm ▸ inIsr,?_⟩
    · rw [prints,count]
      exact List.length_append.trans (congrArg (· + 1) printed)
    · rw [indicates,count]
      exact releases
    · rw [reads,count]
      rw [if_neg (by rw [printing]; decide)] at read
      refine Eq.trans (b := reads done) rfl (read.trans ?_)
      have grown : (s.printed ++ [s.ch]).length = s.printed.length + 1 := List.length_append
      exact (Nat.add_assoc _ _ _).trans (congrArg (s.handed.length + ·) grown.symm)

-- For every schedule: what is printed is at every moment a prefix of what came and whole
-- when the thread sleeps, exactly as long as every step is in step.
theorem terminal_faithful_iff (first : UInt8) (actions : List Action) {after : State}
    (ran : run step (start first) actions = some after) :
    (∀ done a rest, actions = done ++ a :: rest → InStep first done a) ↔ Along step StaysFaithful (start first) actions := by
  have exact' : ∀ done s a next, Scheduled first done s → step s a = some next → (InStep first done a ↔ StaysFaithful s a) :=
    fun _ _ _ _ scheduled taken => inStep_iff scheduled taken
  exact along_iff_history exact' (fun _ _ _ _ scheduled stays taken => step_scheduled scheduled stays taken)
    (start_scheduled first) ran

-- One byte is there before the thread looks, and is read before the print.
def oneRead : List Action := [.getc 0x4F,.indicate,.read,.read,.take,.print]

theorem terminal_faithful_one_read : Along step StaysFaithful (start 0) oneRead := by
  have inStep : ∀ i : Fin oneRead.length, InStep 0 (oneRead.take i) (oneRead.get i) := by decide
  apply (terminal_faithful_iff 0 oneRead rfl).mp
  intro done a rest split
  have at' := inStep ⟨done.length,by rw [split,List.length_append,List.length_cons]; omega⟩
  simpa [split] using at'

-- The thread sleeps, one byte arrives and wakes it: it prints before it reads.
def oneByte : List Action := [.read,.take,.getc 0x4F,.indicate]

theorem prints_uninitialised : ¬ ∀ (first : UInt8) (actions : List Action),
    Along step StaysFaithful (start first) actions := by
  intro all
  have bad := along_at oneByte (all 0 (oneByte ++ [.print])) rfl
  have printed := (bad _ rfl).prefix'
  revert printed
  decide

end SssAlarmHost.Terminal
