import SssAlarmHost.MachineRuns
import SssAlarmHost.Ipc
import SssAlarmHost.VoicePlayer

namespace SssAlarmHost.BusAccess
open MachineRuns Mutex VoicePlayer

inductive Bus where
  | flash
  | i2c
  deriving DecidableEq

-- A thread's transaction on a bus is open from the moment the mutex is its own,
-- taken or handed over, until it releases it.
inductive Position where
  | outside
  | waiting (bus : Bus)
  | inside (bus : Bus)
  deriving DecidableEq

-- The interrupt under way: rt_thread_self() is the thread it interrupted.
structure Isr (Thread : Type) where
  thread : Thread
  inside : Option Bus
  todo : List Bus

-- The lock of the flash device and the lock of the I2C bus with everyone who
-- uses them.
structure Buses (Thread : Type) where
  mutex : Bus → RtMutex Thread
  position : Thread → Position
  isr : Option (Isr Thread)

variable {Thread : Type}

def idle : Buses Thread := ⟨fun _ => free,fun _ => .outside,none⟩

def isrOn (s : Buses Thread) (bus : Bus) : Option Thread :=
  s.isr.bind fun i => if i.inside = some bus then some i.thread else none

-- At most one transaction is open on each bus, the interrupt's own included.
def Exclusive (s : Buses Thread) : Prop := ∀ bus,
  (∀ t u, s.position t = .inside bus → s.position u = .inside bus → t = u) ∧
    ∀ o, isrOn s bus = some o → ∀ t, s.position t ≠ .inside bus

-- One mutex, the threads inside and the thread whose interrupt is inside.
inductive Settled (mutex : RtMutex Thread) (inside : Thread → Prop) : Option Thread → Prop where
  | unused : mutex = free → (∀ t, ¬inside t) → Settled mutex inside none
  | thread (o : Thread) (waiting : List Thread) : mutex = held o waiting → (∀ t, inside t ↔ t = o) →
      Settled mutex inside none
  | isr (o : Thread) : mutex = held o [] → (∀ t, ¬inside t) → Settled mutex inside (some o)

structure Orderly (s : Buses Thread) : Prop where
  settled : ∀ bus, Settled (s.mutex bus) (fun t => s.position t = .inside bus) (isrOn s bus)
  waits : ∀ bus t, t ∈ (s.mutex bus).suspendThread ↔ s.position t = .waiting bus
  once : ∀ bus, (s.mutex bus).suspendThread.Nodup

theorem idle_orderly : Orderly (idle : Buses Thread) :=
  ⟨fun _ => .unused rfl (fun _ => by simp [idle]),fun _ _ => by simp [idle,free],fun _ => by simp [idle,free]⟩

theorem settled_congr {mutex : RtMutex Thread} {inside inside' : Thread → Prop} {on : Option Thread}
    (same : ∀ t, inside' t ↔ inside t) (settled : Settled mutex inside on) : Settled mutex inside' on := by
  cases settled with
  | unused shape nobody => exact .unused shape fun t => fun here => nobody t ((same t).mp here)
  | thread o waiting shape only => exact .thread o waiting shape fun t => (same t).trans (only t)
  | isr o shape nobody => exact .isr o shape fun t => fun here => nobody t ((same t).mp here)

theorem settled_exclusive {mutex : RtMutex Thread} {inside : Thread → Prop} {on : Option Thread}
    (settled : Settled mutex inside on) :
    (∀ t u, inside t → inside u → t = u) ∧ ∀ o, on = some o → ∀ t, ¬inside t := by
  cases settled with
  | unused shape nobody => exact ⟨fun t _ here => absurd here (nobody t),fun _ _ => nobody⟩
  | thread o waiting shape only =>
    exact ⟨fun t u here there => ((only t).mp here).trans ((only u).mp there).symm,fun _ none' => nomatch none'⟩
  | isr o shape nobody => exact ⟨fun t _ here => absurd here (nobody t),fun _ _ => nobody⟩

theorem orderly_exclusive {s : Buses Thread} (orderly : Orderly s) : Exclusive s :=
  fun bus => settled_exclusive (orderly.settled bus)

theorem isrOn_none {s : Buses Thread} (quiet : s.isr = none) (bus : Bus) : isrOn s bus = none := by simp [isrOn,quiet]

theorem isrOn_outside {s : Buses Thread} {i : Isr Thread} (under : s.isr = some i) (between : i.inside = none) (bus : Bus) :
    isrOn s bus = none := by simp [isrOn,under,between]

theorem isrOn_inside {s : Buses Thread} {i : Isr Thread} {b : Bus} (under : s.isr = some i) (within : i.inside = some b) (bus : Bus) :
    isrOn s bus = if b = bus then some i.thread else none := by simp [isrOn,under,within]

theorem isr_orderly {s : Buses Thread} {isr : Option (Isr Thread)} (orderly : Orderly s) (before : ∀ bus, isrOn s bus = none)
    (after : ∀ bus, isrOn {s with isr := isr} bus = none) : Orderly {s with isr := isr} := by
  refine ⟨fun b => ?_,orderly.waits,orderly.once⟩
  have settled := orderly.settled b
  rw [before] at settled
  rw [after]
  exact settled

def Position.On (bus : Bus) : Position → Prop
  | .outside => True
  | .waiting b | .inside b => b = bus

def SameElsewhere (bus : Bus) (before after : Thread → Position) : Prop := ∀ b, b ≠ bus → ∀ t,
  (after t = .inside b ↔ before t = .inside b) ∧ (after t = .waiting b ↔ before t = .waiting b)

theorem SameElsewhere.refl (bus : Bus) (position : Thread → Position) : SameElsewhere bus position position :=
  fun _ _ _ => ⟨Iff.rfl,Iff.rfl⟩

theorem SameElsewhere.trans {bus : Bus} {before middle after : Thread → Position} (left : SameElsewhere bus before middle)
    (right : SameElsewhere bus middle after) : SameElsewhere bus before after :=
  fun b other t => ⟨(right b other t).1.trans (left b other t).1,(right b other t).2.trans (left b other t).2⟩

theorem position_elsewhere {bus b : Bus} (other : b ≠ bus) {p : Position} (on : p.On bus) :
    p ≠ .inside b ∧ p ≠ .waiting b := by
  constructor <;> rintro rfl <;> exact other on

-- The frame of every step: what concerns one bus leaves the other in order.
theorem orderly_update {s : Buses Thread} {bus : Bus} {mutex : RtMutex Thread} {position : Thread → Position}
    {isr : Option (Isr Thread)} (orderly : Orderly s) (elsewhere : SameElsewhere bus s.position position)
    (isrElsewhere : ∀ b, b ≠ bus → isrOn {s with isr := isr} b = isrOn s b)
    (settled : Settled mutex (fun t => position t = .inside bus) (isrOn {s with isr := isr} bus))
    (waits : ∀ t, t ∈ mutex.suspendThread ↔ position t = .waiting bus) (once : mutex.suspendThread.Nodup) :
    Orderly ⟨Function.update s.mutex bus mutex,position,isr⟩ := by
  refine ⟨?_,?_,?_⟩
  · intro b
    change Settled (Function.update s.mutex bus mutex b) (fun t => position t = .inside b) (isrOn {s with isr := isr} b)
    by_cases same : b = bus
    · subst b
      rwa [Function.update_self]
    · have before := orderly.settled b
      rw [Function.update_of_ne same,isrElsewhere b same]
      exact settled_congr (fun t => (elsewhere b same t).1) before
  · intro b t
    by_cases same : b = bus
    · subst b
      simpa using waits t
    · simpa [Function.update_of_ne same] using (orderly.waits b t).trans (elsewhere b same t).2.symm
  · intro b
    by_cases same : b = bus
    · subst b
      simpa using once
    · simpa [Function.update_of_ne same] using orderly.once b

-- The transactions of one call of i2s_dma_finish_handler: a flash read, or the two
-- register writes of tas2505_output_set.
def handlerBuses (usingMemBuff : UInt8) : List Bus :=
  if (refillTarget usingMemBuff).isSome then [.flash] else [.i2c,.i2c]

def eventBuses : Event → List Bus
  | .load _ _ _ => [.flash]
  | .output _ => [.i2c,.i2c]
  | _ => []

theorem handler_buses (flash : Flash) (p : Player) :
    ((i2sDmaFinishHandler flash p).events.drop p.events.length).flatMap eventBuses = handlerBuses p.usingMemBuff := by
  cases target : refillTarget p.usingMemBuff with
  | none =>
    rw [handler_finishes target]
    simp [finishVoice,tas2505OutputSet,i2sPlayStop,handlerBuses,target,eventBuses]
  | some pair =>
    rw [handler_refills target]
    unfold refill
    split <;> simp [w25qxxRead,addDualByte,setRemain,dmaTransmitDatalength,handlerBuses,target,eventBuses]

variable [DecidableEq Thread]

inductive Action (Thread : Type) where
  | lock (t : Thread) (bus : Bus)
  | unlock (t : Thread) (bus : Bus)
  | interrupt (t : Thread) (usingMemBuff : UInt8)
  | isrLock
  | isrUnlock
  | isrReturn

def Ready (s : Buses Thread) (t : Thread) : Prop :=
  t ∉ (s.mutex .flash).suspendThread ∧ t ∉ (s.mutex .i2c).suspendThread

instance (s : Buses Thread) (t : Thread) : Decidable (Ready s t) := by unfold Ready; infer_instance

def handOver (position : Thread → Position) (bus : Bus) (next : Option Thread) : Thread → Position :=
  fun t => if next = some t ∧ position t = .waiting bus then .inside bus else position t

def lock (s : Buses Thread) (t : Thread) (bus : Bus) : Buses Thread :=
  let taken := rtMutexTake (s.mutex bus) t
  {s with
    mutex := Function.update s.mutex bus taken.1
    position := Function.update s.position t (if taken.2 then .inside bus else .waiting bus)}

def unlock (s : Buses Thread) (t : Thread) (bus : Bus) : Buses Thread :=
  let released := rtMutexRelease (s.mutex bus) t
  {s with
    mutex := Function.update s.mutex bus released.1
    position := handOver (Function.update s.position t .outside) bus released.2}

def isrLock (s : Buses Thread) (t : Thread) (bus : Bus) (todo : List Bus) : Buses Thread :=
  {s with
    mutex := Function.update s.mutex bus (rtMutexTake (s.mutex bus) t).1
    isr := some ⟨t,some bus,todo⟩}

def isrUnlock (s : Buses Thread) (t : Thread) (bus : Bus) (todo : List Bus) : Buses Thread :=
  let released := rtMutexRelease (s.mutex bus) t
  {s with
    mutex := Function.update s.mutex bus released.1
    position := handOver s.position bus released.2
    isr := some ⟨t,none,todo⟩}

-- Any ready thread may run when no interrupt does. The interrupt runs to its end
-- before any thread goes on; it may leave early, when a transaction fails.
def step (s : Buses Thread) : Action Thread → Option (Buses Thread)
  | .lock t bus => if s.isr.isNone ∧ s.position t = .outside ∧ Ready s t then some (lock s t bus) else none
  | .unlock t bus => if s.isr.isNone ∧ s.position t = .inside bus ∧ Ready s t then some (unlock s t bus) else none
  | .interrupt t usingMemBuff =>
    if s.isr.isNone ∧ Ready s t then some {s with isr := some ⟨t,none,handlerBuses usingMemBuff⟩} else none
  | .isrLock => match s.isr with
    | some ⟨t,none,bus :: todo⟩ => some (isrLock s t bus todo)
    | _ => none
  | .isrUnlock => match s.isr with
    | some ⟨t,some bus,todo⟩ => some (isrUnlock s t bus todo)
    | _ => none
  | .isrReturn => match s.isr with
    | some ⟨_,none,_⟩ => some {s with isr := none}
    | _ => none

def StaysExclusive (s : Buses Thread) (a : Action Thread) : Prop := ∀ next, step s a = some next → Exclusive next

def FindsFree (s : Buses Thread) (a : Action Thread) : Prop :=
  match a,s.isr with
  | .isrLock,some ⟨_,none,bus :: _⟩ => (s.mutex bus).owner = none
  | _,_ => True

variable {s next : Buses Thread}

theorem moved_elsewhere {bus : Bus} {position : Thread → Position} {t : Thread} {p : Position} (before : (position t).On bus)
    (after : p.On bus) : SameElsewhere bus position (Function.update position t p) := by
  intro b other u
  by_cases self : u = t
  · subst u
    rw [Function.update_self]
    obtain ⟨notInside,notWaiting⟩ := position_elsewhere other before
    obtain ⟨inside,waiting⟩ := position_elsewhere other after
    exact ⟨iff_of_false inside notInside,iff_of_false waiting notWaiting⟩
  · rw [Function.update_of_ne self]
    exact ⟨Iff.rfl,Iff.rfl⟩

theorem lock_free {t : Thread} {bus : Bus} (orderly : Orderly s) (quiet : s.isr = none) (outside : s.position t = .outside)
    (unused : s.mutex bus = free) (nobody : ∀ u, s.position u ≠ .inside bus) : Orderly (lock s t bus) := by
  have shape : lock s t bus =
      ⟨Function.update s.mutex bus (held t []),Function.update s.position t (.inside bus),s.isr⟩ := by
    simp [lock,unused]
  rw [shape]
  refine orderly_update orderly (moved_elsewhere (by rw [outside]; trivial) rfl) (fun _ _ => rfl) ?_ ?_ List.nodup_nil
  · rw [isrOn_none (by exact quiet)]
    refine .thread t [] rfl fun u => ?_
    by_cases self : u = t
    · simp [self]
    · simp [self,nobody u]
  · intro u
    have before := orderly.waits bus u
    rw [unused] at before
    by_cases self : u = t
    · subst u; simp [held]
    · simpa [held,free,self] using before

theorem lock_waits {t o : Thread} {bus : Bus} {waiting : List Thread} (orderly : Orderly s) (quiet : s.isr = none)
    (outside : s.position t = .outside) (owned : s.mutex bus = held o waiting)
    (only : ∀ u, s.position u = .inside bus ↔ u = o) : Orderly (lock s t bus) := by
  have other : t ≠ o := by
    intro self
    rw [(only t).mpr self] at outside
    cases outside
  have shape : lock s t bus =
      ⟨Function.update s.mutex bus (held o (waiting ++ [t])),Function.update s.position t (.waiting bus),s.isr⟩ := by
    simp [lock,owned,take_held other]
  have absent : t ∉ waiting := by
    have before := orderly.waits bus t
    rw [owned,outside] at before
    simpa [held] using before
  rw [shape]
  refine orderly_update orderly (moved_elsewhere (by rw [outside]; trivial) rfl) (fun _ _ => rfl) ?_ ?_ ?_
  · rw [isrOn_none (by exact quiet)]
    refine .thread o (waiting ++ [t]) rfl fun u => ?_
    by_cases self : u = t
    · subst u; simp [other]
    · simpa [self] using only u
  · intro u
    have before := orderly.waits bus u
    rw [owned] at before
    by_cases self : u = t
    · subst u; simp [held]
    · simpa [held,self] using before
  · have old := orderly.once bus
    rw [owned] at old
    have apart : ∀ u ∈ waiting, ¬u = t := fun u member same => absent (same ▸ member)
    exact List.nodup_append.mpr ⟨old,by simp,by simpa using apart⟩

theorem handOver_none (position : Thread → Position) (bus : Bus) : handOver position bus none = position := by
  funext t
  simp [handOver]

theorem handOver_waiting {position : Thread → Position} {bus : Bus} {u : Thread} (waits : position u = .waiting bus) :
    handOver position bus (some u) = Function.update position u (.inside bus) := by
  funext t
  by_cases self : t = u
  · simp [handOver,self,waits]
  · have other : ¬u = t := fun same => self same.symm
    simp [handOver,self,other]

theorem unlock_last {t : Thread} {bus : Bus} (orderly : Orderly s) (quiet : s.isr = none) (here : s.position t = .inside bus)
    (owned : s.mutex bus = held t []) (only : ∀ u, s.position u = .inside bus ↔ u = t) : Orderly (unlock s t bus) := by
  have shape : unlock s t bus = ⟨Function.update s.mutex bus free,Function.update s.position t .outside,s.isr⟩ := by
    simp [unlock,owned,handOver_none]
  rw [shape]
  refine orderly_update orderly (moved_elsewhere (by rw [here]; rfl) trivial) (fun _ _ => rfl) ?_ ?_ List.nodup_nil
  · rw [isrOn_none (by exact quiet)]
    refine .unused rfl fun u => ?_
    by_cases self : u = t
    · simp [self]
    · simpa [self] using (only u).not.mpr self
  · intro u
    have before := orderly.waits bus u
    rw [owned] at before
    by_cases self : u = t
    · subst u; simp [free]
    · simpa [held,free,self] using before

theorem unlock_next {t u : Thread} {bus : Bus} {waiting : List Thread} (orderly : Orderly s) (quiet : s.isr = none)
    (here : s.position t = .inside bus) (owned : s.mutex bus = held t (u :: waiting))
    (only : ∀ v, s.position v = .inside bus ↔ v = t) : Orderly (unlock s t bus) := by
  have waits : s.position u = .waiting bus := (orderly.waits bus u).mp (by simp [owned,held])
  have other : u ≠ t := by
    intro same
    rw [same,here] at waits
    cases waits
  have still : Function.update s.position t .outside u = .waiting bus := by rw [Function.update_of_ne other,waits]
  have once : u ∉ waiting ∧ waiting.Nodup := by
    have before := orderly.once bus
    rw [owned] at before
    simpa [held] using before
  have shape : unlock s t bus = ⟨Function.update s.mutex bus (held u waiting),
      Function.update (Function.update s.position t .outside) u (.inside bus),s.isr⟩ := by
    simp [unlock,owned,handOver_waiting still]
  have elsewhere : SameElsewhere bus s.position (Function.update (Function.update s.position t .outside) u (.inside bus)) :=
    (moved_elsewhere (p := .outside) (by rw [here]; rfl) trivial).trans (moved_elsewhere (by rw [still]; rfl) rfl)
  rw [shape]
  refine orderly_update orderly elsewhere (fun _ _ => rfl) ?_ ?_ once.2
  · rw [isrOn_none (by exact quiet)]
    refine .thread u waiting rfl fun v => ?_
    by_cases next : v = u
    · simp [next]
    · by_cases self : v = t
      · subst v; simp [next]
      · simpa [next,self] using (only v).not.mpr self
  · intro v
    have before := orderly.waits bus v
    rw [owned] at before
    by_cases next : v = u
    · subst v; simpa [held] using once.1
    · have old : v ∈ waiting ↔ s.position v = .waiting bus := by simpa [held,next] using before
      by_cases self : v = t
      · subst v
        simpa [held,next,here] using old
      · simpa [held,next,self] using old

theorem isrLock_orderly {t : Thread} {bus : Bus} {todo : List Bus} (orderly : Orderly s)
    (under : s.isr = some ⟨t,none,bus :: todo⟩) (unowned : (s.mutex bus).owner = none) : Orderly (isrLock s t bus todo) := by
  have before := orderly.settled bus
  rw [isrOn_outside under rfl] at before
  cases before with
  | thread o waiting owned only => rw [owned] at unowned; cases unowned
  | unused unused nobody =>
    have shape : isrLock s t bus todo =
        ⟨Function.update s.mutex bus (held t []),s.position,some ⟨t,some bus,todo⟩⟩ := by
      simp [isrLock,unused]
    rw [shape]
    refine orderly_update orderly (.refl bus s.position) ?_ ?_ ?_ List.nodup_nil
    · intro b other
      rw [isrOn_inside (by rfl) (by rfl),isrOn_outside under rfl,if_neg other.symm]
    · rw [isrOn_inside (by rfl) (by rfl),if_pos rfl]
      exact .isr t rfl nobody
    · intro u
      have waits := orderly.waits bus u
      rwa [unused] at waits

theorem isrUnlock_orderly {t : Thread} {bus : Bus} {todo : List Bus} (orderly : Orderly s)
    (under : s.isr = some ⟨t,some bus,todo⟩) : Orderly (isrUnlock s t bus todo) := by
  have before := orderly.settled bus
  rw [isrOn_inside under rfl,if_pos rfl] at before
  cases before with
  | isr o owned nobody =>
    have shape : isrUnlock s t bus todo = ⟨Function.update s.mutex bus free,s.position,some ⟨t,none,todo⟩⟩ := by
      simp [isrUnlock,owned,handOver_none]
    rw [shape]
    refine orderly_update orderly (.refl bus s.position) ?_ ?_ ?_ List.nodup_nil
    · intro b other
      rw [isrOn_outside (by rfl) rfl,isrOn_inside under rfl,if_neg other.symm]
    · rw [isrOn_outside (by rfl) rfl]
      exact .unused rfl nobody
    · intro u
      have waits := orderly.waits bus u
      rwa [owned] at waits

-- Every step but the lock of an interrupt is safe whatever it meets, and that
-- one is safe when it finds the lock free.
theorem step_orderly {a : Action Thread} (orderly : Orderly s) (finds : FindsFree s a) (taken : step s a = some next) :
    Orderly next := by
  cases a with
  | lock t bus =>
    obtain ⟨⟨quiet,outside,_⟩,shape⟩ := Option.ite_none_right_eq_some.mp taken
    cases shape
    have none' := Option.isNone_iff_eq_none.mp quiet
    have before := orderly.settled bus
    rw [isrOn_none none'] at before
    cases before with
    | unused unused nobody => exact lock_free orderly none' outside unused nobody
    | thread o waiting owned only => exact lock_waits orderly none' outside owned only
  | unlock t bus =>
    obtain ⟨⟨quiet,here,_⟩,shape⟩ := Option.ite_none_right_eq_some.mp taken
    cases shape
    have none' := Option.isNone_iff_eq_none.mp quiet
    have before := orderly.settled bus
    rw [isrOn_none none'] at before
    cases before with
    | unused _ nobody => exact absurd here (nobody t)
    | thread o waiting owned only =>
      cases (only t).mp here
      cases waiting with
      | nil => exact unlock_last orderly none' here owned only
      | cons u waiting => exact unlock_next orderly none' here owned only
  | interrupt t usingMemBuff =>
    obtain ⟨⟨quiet,_⟩,shape⟩ := Option.ite_none_right_eq_some.mp taken
    cases shape
    exact isr_orderly orderly (isrOn_none (Option.isNone_iff_eq_none.mp quiet)) (isrOn_outside rfl rfl)
  | isrLock =>
    simp only [step] at taken
    split at taken
    · rename_i t bus todo under
      cases taken
      exact isrLock_orderly orderly under (by simpa [FindsFree,under] using finds)
    · cases taken
  | isrUnlock =>
    simp only [step] at taken
    split at taken
    · rename_i t bus todo under
      cases taken
      exact isrUnlock_orderly orderly under
    · cases taken
  | isrReturn =>
    simp only [step] at taken
    split at taken
    · rename_i t todo under
      cases taken
      exact isr_orderly orderly (isrOn_outside under rfl) (isrOn_none rfl)
    · cases taken

-- A lock that is owned belongs to an open transaction, and the interrupt opens
-- its own all the same.
theorem exclusive_exact (orderly : Orderly s) (a : Action Thread) : FindsFree s a ↔ StaysExclusive s a := by
  constructor
  · intro finds next taken
    exact orderly_exclusive (step_orderly orderly finds taken)
  · intro stays
    unfold FindsFree
    split
    · rename_i t bus todo under
      have before := orderly.settled bus
      rw [isrOn_outside under rfl] at before
      cases before with
      | unused unused _ => rw [unused]; rfl
      | thread o waiting owned only =>
        have taken : step s .isrLock = some (isrLock s t bus todo) := by simp [step,under]
        have alone := (stays _ taken bus).2 t (by rw [isrOn_inside (by rfl) (by rfl),if_pos rfl])
        exact absurd ((only o).mpr rfl) (alone o)
    · trivial

-- Any threads, any interleaving of their transactions with the interrupt: the
-- buses stay exclusive exactly as long as every transaction of the handler finds
-- its lock free.
theorem buses_exclusive_iff (actions : List (Action Thread)) :
    Along step FindsFree (idle : Buses Thread) actions ↔ Along step StaysExclusive idle actions :=
  along_iff (fun _ a orderly => exclusive_exact orderly a)
    (fun _ a _ orderly stays taken => step_orderly orderly ((exclusive_exact orderly a).mpr stays) taken)
    idle_orderly actions

-- The interrupt meets its own thread inside a flash read: the recursive take
-- succeeds and a second flash transaction opens within the first.
theorem interrupt_enters_flash_read :
    ¬ ∀ actions : List (Action Unit), Along step StaysExclusive (idle : Buses Unit) actions := by
  intro all
  have bad := along_at [Action.lock () .flash,.interrupt () 0]
    (all [.lock () .flash,.interrupt () 0,.isrLock]) rfl
  have alone := (bad _ rfl .flash).2 () rfl ()
  exact alone rfl

end SssAlarmHost.BusAccess
