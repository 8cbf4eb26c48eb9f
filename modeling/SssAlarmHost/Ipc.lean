import Mathlib.Data.List.FinRange
import Mathlib.Logic.Function.Basic
import SssAlarmHost.FrameParser

namespace SssAlarmHost.Mutex

structure RtMutex (Thread : Type) where
  value : UInt16
  owner : Option Thread
  hold : UInt8
  suspendThread : List Thread

variable {Thread : Type} [DecidableEq Thread]

-- With RT_WAITING_FOREVER. False puts self on the suspend list; an interrupt then still
-- goes on with RT_EOK.
def rtMutexTake (mutex : RtMutex Thread) (self : Thread) : RtMutex Thread × Bool :=
  if mutex.owner = some self then ({mutex with hold := mutex.hold + 1},true)
  else if 0 < mutex.value then
    ({mutex with value := mutex.value - 1,owner := some self,hold := mutex.hold + 1},true)
  else ({mutex with suspendThread := mutex.suspendThread ++ [self]},false)

def rtMutexRelease (mutex : RtMutex Thread) (self : Thread) : RtMutex Thread × Option Thread :=
  if mutex.owner = some self then
    let hold := mutex.hold - 1
    if hold = 0 then
      match mutex.suspendThread with
      | [] => ({mutex with value := mutex.value + 1,owner := none,hold := hold},none)
      | t :: rest => ({mutex with owner := some t,hold := hold + 1,suspendThread := rest},some t)
    else ({mutex with hold := hold},none)
  else (mutex,none)

def free : RtMutex Thread := ⟨1,none,0,[]⟩

def held (owner : Thread) (waiting : List Thread) : RtMutex Thread := ⟨0,some owner,1,waiting⟩

@[simp] theorem take_free (self : Thread) : rtMutexTake free self = (held self [],true) := by
  simp [rtMutexTake,free,held]

theorem take_held {owner self : Thread} (other : self ≠ owner) (waiting : List Thread) :
    rtMutexTake (held owner waiting) self = (held owner (waiting ++ [self]),false) := by
  simp [rtMutexTake,held,other.symm]

@[simp] theorem release_last (owner : Thread) : rtMutexRelease (held owner []) owner = (free,none) := by
  simp [rtMutexRelease,held,free]

@[simp] theorem release_next (owner next : Thread) (waiting : List Thread) :
    rtMutexRelease (held owner (next :: waiting)) owner = (held next waiting,some next) := by
  simp [rtMutexRelease,held]

end SssAlarmHost.Mutex

namespace SssAlarmHost.Semaphore

structure RtSem (Thread : Type) where
  value : UInt16
  suspendThread : List Thread

variable {Thread : Type}

def rtSemCreate (value : UInt16) : RtSem Thread := ⟨value,[]⟩

def rtSemTake (sem : RtSem Thread) (self : Thread) : RtSem Thread × Bool :=
  if 0 < sem.value then ({sem with value := sem.value - 1},true)
  else ({sem with suspendThread := sem.suspendThread ++ [self]},false)

def rtSemRelease (sem : RtSem Thread) : RtSem Thread × Option Thread :=
  match sem.suspendThread with
  | [] => ({sem with value := sem.value + 1},none)
  | t :: rest => ({sem with suspendThread := rest},some t)

theorem take_positive {sem : RtSem Thread} (positive : 0 < sem.value) (self : Thread) :
    rtSemTake sem self = ({sem with value := sem.value - 1},true) := if_pos positive

theorem take_zero {sem : RtSem Thread} (zero : sem.value = 0) (self : Thread) :
    rtSemTake sem self = ({sem with suspendThread := sem.suspendThread ++ [self]},false) := by
  simp [rtSemTake,zero]

theorem take_cases (sem : RtSem Thread) (self : Thread) :
    (0 < sem.value ∧ rtSemTake sem self = ({sem with value := sem.value - 1},true)) ∨
      (sem.value = 0 ∧ rtSemTake sem self = ({sem with suspendThread := sem.suspendThread ++ [self]},false)) := by
  by_cases positive : 0 < sem.value
  · exact Or.inl ⟨positive,take_positive positive self⟩
  · have zero := UInt16.le_zero_iff.mp (UInt16.not_lt.mp positive)
    exact Or.inr ⟨zero,take_zero zero self⟩

theorem release_waiting {sem : RtSem Thread} {t : Thread} {rest : List Thread} (waiting : sem.suspendThread = t :: rest) :
    rtSemRelease sem = ({sem with suspendThread := rest},some t) := by simp [rtSemRelease,waiting]

theorem release_idle {sem : RtSem Thread} (idle : sem.suspendThread = []) :
    rtSemRelease sem = ({sem with value := sem.value + 1},none) := by simp [rtSemRelease,idle]

theorem succ_positive {value : UInt16} (room : value < 65535) : 0 < value + 1 := by
  have bound := UInt16.lt_iff_toNat_lt.mp room
  apply UInt16.lt_iff_toNat_lt.mpr
  simp only [UInt16.toNat_add,UInt16.reduceToNat] at bound ⊢
  omega

end SssAlarmHost.Semaphore

namespace SssAlarmHost.MessageQueue
open FrameParser

abbrev mqMsgSize : Nat := 128
abbrev mqMaxMsgs : Nat := 20

structure RtMq (msgSize maxMsgs : Nat) where
  msgPool : Fin maxMsgs → Fin msgSize → UInt8
  msgQueueFree : List (Fin maxMsgs)
  msgQueue : List (Fin maxMsgs)

variable {msgSize maxMsgs : Nat}

def rtMqCreate (msgPool : Fin maxMsgs → Fin msgSize → UInt8) : RtMq msgSize maxMsgs :=
  ⟨msgPool,(List.finRange maxMsgs).reverse,[]⟩

-- The parts of rt_mq_send and rt_mq_recv between which interrupts are enabled.
def RtMq.takeFree (mq : RtMq msgSize maxMsgs) : Option (Fin maxMsgs × RtMq msgSize maxMsgs) :=
  match mq.msgQueueFree with
  | [] => none
  | msg :: rest => some (msg,{mq with msgQueueFree := rest})

def copied (item : Fin msgSize → UInt8) (buffer : List UInt8) : Fin msgSize → UInt8 :=
  fun i => if inside : i.val < buffer.length then buffer[i.val] else item i

def RtMq.copyIn (mq : RtMq msgSize maxMsgs) (msg : Fin maxMsgs) (buffer : List UInt8) : RtMq msgSize maxMsgs :=
  {mq with msgPool := Function.update mq.msgPool msg (copied (mq.msgPool msg) buffer)}

def RtMq.link (mq : RtMq msgSize maxMsgs) (msg : Fin maxMsgs) : RtMq msgSize maxMsgs :=
  {mq with msgQueue := mq.msgQueue ++ [msg]}

def RtMq.unlink (mq : RtMq msgSize maxMsgs) : Option (Fin maxMsgs × RtMq msgSize maxMsgs) :=
  match mq.msgQueue with
  | [] => none
  | msg :: rest => some (msg,{mq with msgQueue := rest})

def RtMq.release (mq : RtMq msgSize maxMsgs) (msg : Fin maxMsgs) : RtMq msgSize maxMsgs :=
  {mq with msgQueueFree := msg :: mq.msgQueueFree}

def RtMq.rtMqSend (mq : RtMq msgSize maxMsgs) (buffer : List UInt8) : RtErr × RtMq msgSize maxMsgs :=
  if msgSize < buffer.length then (-rtError,mq)
  else match mq.takeFree with
    | none => (-rtEfull,mq)
    | some (msg,rest) => (rtEok,(rest.copyIn msg buffer).link msg)

def RtMq.rtMqRecv (mq : RtMq msgSize maxMsgs) : Option ((Fin msgSize → UInt8) × RtMq msgSize maxMsgs) :=
  match mq.unlink with
  | none => none
  | some (msg,rest) => some (rest.msgPool msg,rest.release msg)

def Apart (mq : RtMq msgSize maxMsgs) (sending receiving : List (Fin maxMsgs)) : Prop :=
  (sending ++ mq.msgQueue ++ receiving ++ mq.msgQueueFree).Nodup

theorem create_apart (msgPool : Fin maxMsgs → Fin msgSize → UInt8) : Apart (rtMqCreate msgPool) [] [] := by
  simp [Apart,rtMqCreate,List.nodup_finRange]

variable {mq : RtMq msgSize maxMsgs} {msg : Fin maxMsgs} {sending receiving rest : List (Fin maxMsgs)}

theorem takeFree_apart (apart : Apart mq [] receiving) (free : mq.msgQueueFree = msg :: rest) :
    Apart {mq with msgQueueFree := rest} [msg] receiving := by
  unfold Apart at apart ⊢
  rw [free] at apart
  exact (List.perm_middle.nodup_iff).mp apart

theorem link_apart (apart : Apart mq [msg] receiving) : Apart (mq.link msg) [] receiving := by
  have moved : ([msg] ++ mq.msgQueue ++ receiving ++ mq.msgQueueFree).Perm
      ([] ++ (mq.msgQueue ++ [msg]) ++ receiving ++ mq.msgQueueFree) :=
    ((List.perm_append_comm.append_right receiving).append_right mq.msgQueueFree)
  exact moved.nodup_iff.mp apart

theorem unlink_apart (apart : Apart mq sending []) (linked : mq.msgQueue = msg :: rest) :
    Apart {mq with msgQueue := rest} sending [msg] := by
  unfold Apart at apart ⊢
  rw [linked,List.append_nil] at apart
  have moved : (sending ++ msg :: rest ++ mq.msgQueueFree).Perm (sending ++ rest ++ [msg] ++ mq.msgQueueFree) := by
    have inner : (msg :: rest).Perm (rest ++ [msg]) := (List.perm_append_singleton msg rest).symm
    rw [List.append_assoc sending rest [msg]]
    exact (inner.append_left sending).append_right mq.msgQueueFree
  exact moved.nodup_iff.mp apart

theorem release_apart (apart : Apart mq sending [msg]) : Apart (mq.release msg) sending [] := by
  simpa [Apart,RtMq.release] using apart

theorem copyIn_apart (apart : Apart mq sending receiving) (buffer : List UInt8) :
    Apart (mq.copyIn msg buffer) sending receiving := apart

theorem sending_apart (apart : Apart mq [msg] receiving) : msg ∉ mq.msgQueue ∧ msg ∉ receiving := by
  simp only [Apart,List.cons_append,List.nil_append,List.nodup_cons,List.mem_append,not_or] at apart
  exact ⟨apart.1.1.1,apart.1.1.2⟩

theorem copyIn_other {other : Fin maxMsgs} (differs : other ≠ msg) (buffer : List UInt8) :
    (mq.copyIn msg buffer).msgPool other = mq.msgPool other := Function.update_of_ne differs _ _

@[simp] theorem copyIn_self (buffer : List UInt8) :
    (mq.copyIn msg buffer).msgPool msg = copied (mq.msgPool msg) buffer := Function.update_self _ _ _

end SssAlarmHost.MessageQueue
