import SssAlarmHost.FrameRuns
import SssAlarmHost.MachineRuns
import SssAlarmHost.RingBuffer
import SssAlarmHost.Ipc

namespace SssAlarmHost.UartReceive
open FrameParser MachineRuns RingBuffer Semaphore

-- RT_SERIAL_RB_BUFSZ of RT_SERIAL_CONFIG_DEFAULT.
abbrev bufsz : Nat := 64

inductive Thread where
  | uart3Rx
  deriving DecidableEq

-- Before rt_device_read, between an empty read and rt_sem_take, or suspended inside it.
inductive Position where
  | reading
  | taking
  | suspended
  deriving DecidableEq

structure Uart (Q : Type) where
  rxFifo : Ring UInt8 bufsz
  rxSem : RtSem Thread
  position : Position
  inIsr : Bool
  parser : RxThread × Q
  handed : List UInt8
  received : List UInt8

variable {Q : Type}

def start (rxFifo : Ring UInt8 bufsz) (parser : RxThread × Q) : Uart Q :=
  ⟨rxFifo,rtSemCreate 0,.reading,false,parser,[],rxFifo.contents⟩

inductive Action where
  | getc (ch : UInt8)
  | indicate
  | silent
  | read
  | take

def getc (s : Uart Q) (ch : UInt8) : Uart Q :=
  {s with rxFifo := s.rxFifo.put ch,inIsr := true,received := s.received ++ [ch]}

def uartInput (s : Uart Q) : Uart Q :=
  let released := rtSemRelease s.rxSem
  {s with
    rxSem := released.1,inIsr := false
    position := if released.2 = some Thread.uart3Rx then .reading else s.position}

variable (beyond : Beyond) (rtMqSend : Q → List UInt8 → RtErr × Q)

-- The parsing after a read touches neither the ring nor the semaphore.
def readByte (s : Uart Q) : Uart Q :=
  match s.rxFifo.get with
  | none => {s with position := .taking}
  | some (ch,rest) => {s with rxFifo := rest,parser := (rxByte beyond rtMqSend s.parser ch).1,handed := s.handed ++ [ch]}

def takeSem (s : Uart Q) : Uart Q :=
  let taken := rtSemTake s.rxSem Thread.uart3Rx
  {s with rxSem := taken.1,position := if taken.2 then .reading else .suspended}

-- The driver skips its callback only when it finds no byte.
def step (s : Uart Q) : Action → Option (Uart Q)
  | .getc ch => some (getc s ch)
  | .indicate => if s.inIsr then some (uartInput s) else none
  | .silent => if s.inIsr ∧ s.rxFifo.count = 0 then some {s with inIsr := false} else none
  | .read => if s.position = .reading then some (readByte beyond rtMqSend s) else none
  | .take => if s.position = .taking then some (takeSem s) else none

def Calm (s : Uart Q) : Action → Prop
  | .getc _ => s.rxFifo.count + 1 < bufsz
  | .indicate => s.rxSem.suspendThread = [] → s.rxSem.value < 65535
  | _ => True

instance (s : Uart Q) : ∀ a, Decidable (Calm s a)
  | .getc _ => by unfold Calm; infer_instance
  | .indicate => by unfold Calm; infer_instance
  | .silent | .read | .take => isTrue trivial

def Awake (s : Uart Q) : Prop :=
  s.rxFifo.contents ≠ [] → s.inIsr = true ∨ s.position = .reading ∨ 0 < s.rxSem.value

structure Linked (parser : RxThread × Q) (s : Uart Q) : Prop where
  noneLost : s.rxFifo.isFull = false
  conserved : s.handed ++ s.rxFifo.contents = s.received
  parsed : s.parser = (feed beyond rtMqSend parser s.handed).1
  awake : Awake s
  queued : s.position = .suspended → s.rxSem.value = 0 ∧ s.rxSem.suspendThread = [.uart3Rx]
  free : s.position ≠ .suspended → s.rxSem.suspendThread = []

theorem start_linked {rxFifo : Ring UInt8 bufsz} (noneLost : rxFifo.isFull = false) (parser : RxThread × Q) :
    Linked beyond rtMqSend parser (start rxFifo parser) :=
  ⟨noneLost,rfl,rfl,fun _ => Or.inr (Or.inl rfl),fun waiting => by simp [start] at waiting,fun _ => rfl⟩

variable {beyond rtMqSend} {parser : RxThread × Q} {s : Uart Q}

theorem getc_linked (linked : Linked beyond rtMqSend parser s) (ch : UInt8) (room : s.rxFifo.count + 1 < bufsz) :
    Linked beyond rtMqSend parser (getc s ch) := by
  obtain ⟨appended,noneLost⟩ := put_contents s.rxFifo ch room linked.noneLost
  refine ⟨noneLost,?_,linked.parsed,fun _ => Or.inl rfl,linked.queued,linked.free⟩
  change s.handed ++ (s.rxFifo.put ch).contents = s.received ++ [ch]
  rw [appended,← List.append_assoc,linked.conserved]

theorem uartInput_linked (linked : Linked beyond rtMqSend parser s)
    (room : s.rxSem.suspendThread = [] → s.rxSem.value < 65535) : Linked beyond rtMqSend parser (uartInput s) := by
  by_cases waiting : s.position = .suspended
  · obtain ⟨zero,self⟩ := linked.queued waiting
    have resumed : uartInput s = {s with rxSem := ⟨s.rxSem.value,[]⟩,inIsr := false,position := .reading} := by
      simp [uartInput,release_waiting self]
    rw [resumed]
    exact ⟨linked.noneLost,linked.conserved,linked.parsed,fun _ => Or.inr (Or.inl rfl),fun h => by simp at h,fun _ => rfl⟩
  · have idle := linked.free waiting
    have counted : uartInput s = {s with rxSem := ⟨s.rxSem.value + 1,s.rxSem.suspendThread⟩,inIsr := false} := by
      simp [uartInput,release_idle idle]
    rw [counted]
    exact ⟨linked.noneLost,linked.conserved,linked.parsed,fun _ => Or.inr (Or.inr (succ_positive (room idle))),
      fun h => absurd h waiting,linked.free⟩

theorem silent_linked (linked : Linked beyond rtMqSend parser s) (empty : s.rxFifo.count = 0) :
    Linked beyond rtMqSend parser {s with inIsr := false} := by
  have none' : s.rxFifo.contents = [] := List.eq_nil_of_length_eq_zero (by rw [contents_length,empty])
  exact ⟨linked.noneLost,linked.conserved,linked.parsed,fun some' => absurd none' some',linked.queued,linked.free⟩

theorem readByte_linked (linked : Linked beyond rtMqSend parser s) (reading : s.position = .reading) :
    Linked beyond rtMqSend parser (readByte beyond rtMqSend s) := by
  have free : s.rxSem.suspendThread = [] := linked.free (by simp [reading])
  rcases get_contents s.rxFifo linked.noneLost with ⟨missing,empty⟩ | ⟨ch,rest,got,first,noneLost⟩
  · have shape : readByte beyond rtMqSend s = {s with position := .taking} := by simp [readByte,missing]
    rw [shape]
    exact ⟨linked.noneLost,linked.conserved,linked.parsed,fun some' => absurd empty some',fun h => by simp at h,fun _ => free⟩
  · have shape : readByte beyond rtMqSend s =
        {s with rxFifo := rest,parser := (rxByte beyond rtMqSend s.parser ch).1,handed := s.handed ++ [ch]} := by
      simp [readByte,got]
    rw [shape]
    refine ⟨noneLost,?_,?_,fun _ => Or.inr (Or.inl reading),fun h => by simp [reading] at h,fun _ => free⟩
    · simp [← linked.conserved,first]
    · simp [feed_append,feed,linked.parsed]

theorem takeSem_linked (linked : Linked beyond rtMqSend parser s) (taking : s.position = .taking) :
    Linked beyond rtMqSend parser (takeSem s) := by
  have free : s.rxSem.suspendThread = [] := linked.free (by simp [taking])
  rcases take_cases s.rxSem Thread.uart3Rx with ⟨_,taken⟩ | ⟨zero,taken⟩
  · have shape : takeSem s = {s with rxSem := ⟨s.rxSem.value - 1,s.rxSem.suspendThread⟩,position := .reading} := by
      simp [takeSem,taken]
    rw [shape]
    exact ⟨linked.noneLost,linked.conserved,linked.parsed,fun _ => Or.inr (Or.inl rfl),fun h => by simp at h,fun _ => free⟩
  · have shape : takeSem s = {s with rxSem := ⟨s.rxSem.value,[.uart3Rx]⟩,position := .suspended} := by
      simp [takeSem,taken,free]
    rw [shape]
    refine ⟨linked.noneLost,linked.conserved,linked.parsed,?_,fun _ => ⟨zero,rfl⟩,fun h => absurd rfl h⟩
    intro some'
    rcases linked.awake some' with busy | reading | count
    · exact Or.inl busy
    · rw [taking] at reading; cases reading
    · rw [zero] at count; cases count

theorem step_linked (next : Uart Q) (a : Action) (linked : Linked beyond rtMqSend parser s) (calm : Calm s a)
    (taken : step beyond rtMqSend s a = some next) : Linked beyond rtMqSend parser next := by
  cases a with
  | getc ch => cases taken; exact getc_linked linked ch calm
  | indicate =>
    obtain ⟨_,shape⟩ := Option.ite_none_right_eq_some.mp taken
    cases shape
    exact uartInput_linked linked calm
  | silent =>
    obtain ⟨found,shape⟩ := Option.ite_none_right_eq_some.mp taken
    cases shape
    exact silent_linked linked found.2
  | read =>
    obtain ⟨reading,shape⟩ := Option.ite_none_right_eq_some.mp taken
    cases shape
    exact readByte_linked linked reading
  | take =>
    obtain ⟨taking,shape⟩ := Option.ite_none_right_eq_some.mp taken
    cases shape
    exact takeSem_linked linked taking

theorem run_linked {actions : List Action} {after : Uart Q} (linked : Linked beyond rtMqSend parser s)
    (calm : Along (step beyond rtMqSend) Calm s actions) (ran : run (step beyond rtMqSend) s actions = some after) :
    Linked beyond rtMqSend parser after :=
  along_invariant (fun _ a next valid allowed taken => step_linked next a valid allowed taken) linked calm ran

theorem suspended_empty (linked : Linked beyond rtMqSend parser s) (suspended : s.position = .suspended)
    (returned : s.inIsr = false) : s.rxFifo.contents = [] := by
  by_contra left
  rcases linked.awake left with busy | reading | count
  · rw [returned] at busy; cases busy
  · rw [suspended] at reading; cases reading
  · rw [(linked.queued suspended).1] at count; cases count

-- What the parser got and what the ring holds are the bytes received, and a thread that
-- sleeps while no interrupt is under way has left nothing in the ring.
theorem uart_loses_nothing (beyond : Beyond) (rtMqSend : Q → List UInt8 → RtErr × Q) (rxFifo : Ring UInt8 bufsz)
    (noneLost : rxFifo.isFull = false) (parser : RxThread × Q) (actions : List Action) (after : Uart Q)
    (calm : Along (step beyond rtMqSend) Calm (start rxFifo parser) actions)
    (ran : run (step beyond rtMqSend) (start rxFifo parser) actions = some after) :
    after.handed ++ after.rxFifo.contents = after.received ∧
      after.parser = (feed beyond rtMqSend parser after.handed).1 ∧
      (after.position = .suspended → after.inIsr = false → after.rxFifo.contents = []) := by
  have linked := run_linked (start_linked beyond rtMqSend noneLost parser) calm ran
  exact ⟨linked.conserved,linked.parsed,suspended_empty linked⟩

def lateByte : Ring UInt8 bufsz := (⟨fun _ => 0,0,0,false⟩ : Ring UInt8 bufsz).put 5

def twoMore : List Action := [.read,.read,.take,.getc 6,.getc 7,.indicate,.read,.read,.read,.take]

theorem uart_loses_nothing_two_more : ∃ after : Uart Unit,
    run (step untouched fun q _ => (rtEok,q)) (start lateByte (entry (fun _ => 0) 0,())) twoMore = some after ∧
      after.position = .suspended ∧ after.rxFifo.contents = [] ∧ after.handed = [5,6,7] := by
  refine ⟨_,rfl,rfl,?_⟩
  have whole := uart_loses_nothing untouched (fun q _ => (rtEok,q)) lateByte rfl (entry (fun _ => 0) 0,()) twoMore _ (by decide) rfl
  have empty := whole.2.2 rfl rfl
  refine ⟨empty,?_⟩
  have conserved := whole.1
  rw [empty,List.append_nil] at conserved
  exact conserved.trans (by decide)

end SssAlarmHost.UartReceive
