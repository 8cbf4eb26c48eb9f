import SssAlarmHost.PriorityQueues

namespace SssAlarmHost.Scheduler
open PriorityQueues

inductive Stat where
  | init
  | ready
  | suspend
  | running
  | close
  deriving DecidableEq

-- RT_THREAD_PRIORITY_MAX is 32; _rt_thread_init asserts that a priority is below it.
abbrev Priority := Fin 32

-- What the scheduler reads of a struct rt_thread. statYield is RT_THREAD_STAT_YIELD
-- in stat; the signal bits of stat are not configured.
structure RtThread where
  stat : Stat
  statYield : Bool
  initPriority : Priority
  currentPriority : Priority
  numberMask : BitVec 32
  initTick : UInt32
  remainingTick : UInt32
  deriving DecidableEq

-- Where a thread stands in a call that it made with the interrupts on: the part that
-- comes next. Each part runs with the interrupts off.
inductive Call (Thread : Type) where
  | suspend (t : Thread) (stat : Stat)
  | resume (t : Thread)
  | insert (t : Thread)
  | delete (t : Thread)
  | close (t : Thread)
  deriving DecidableEq

def Call.thread {Thread : Type} : Call Thread → Thread
  | .suspend t _ => t
  | .resume t => t
  | .insert t => t
  | .delete t => t
  | .close t => t

structure Kernel (Thread : Type) where
  thread : Thread → RtThread
  calling : Thread → Option (Call Thread)
  rtThreadPriorityTable : Priority → List Thread
  rtThreadReadyPriorityGroup : BitVec 32
  rtSchedulerLockNest : Int16
  rtCurrentThread : Option Thread

def rtThreadInit (priority : Priority) (tick : UInt32) : RtThread := ⟨.init,false,priority,priority,0,tick,tick⟩

section Functions
variable {Thread : Type} [DecidableEq Thread] (s : Kernel Thread)

def Kernel.modify (t : Thread) (f : RtThread → RtThread) : Kernel Thread := { s with thread := Function.update s.thread t (f (s.thread t)) }

def Kernel.calls (c : Thread) (call : Option (Call Thread)) : Kernel Thread := { s with calling := Function.update s.calling c call }

-- __rt_ffs of the CPU: RBIT, CLZ and one, but 0 for 0.
def rtFfs (value : BitVec 32) : Nat := if value = 0 then 0 else value.reverse.clz.toNat + 1

-- The head of the list that the lowest bit names; none where the list has no head.
def getHighestPriorityThread : Option (Thread × Nat) :=
  let highest := rtFfs s.rtThreadReadyPriorityGroup - 1
  if inside : highest < 32 then (s.rtThreadPriorityTable ⟨highest,inside⟩).head?.map (·,highest) else none

-- rt_list_remove takes the thread out of whatever list it is in.
def rtListRemove (t : Thread) : Kernel Thread :=
  { s with rtThreadPriorityTable := fun p => (s.rtThreadPriorityTable p).erase t }

-- rt_list_insert_before on the head of a list puts the thread at its end.
def insertReady (t : Thread) : Kernel Thread :=
  let p := (s.thread t).currentPriority
  { s with
    rtThreadPriorityTable := Function.update s.rtThreadPriorityTable p (s.rtThreadPriorityTable p ++ [t])
    rtThreadReadyPriorityGroup := s.rtThreadReadyPriorityGroup ||| (s.thread t).numberMask }

def rtScheduleInsertThread (t : Thread) : Kernel Thread :=
  if s.rtCurrentThread = some t then s.modify t ({ · with stat := .running })
  else insertReady (s.modify t ({ · with stat := .ready })) t

def rtScheduleRemoveThread (t : Thread) : Kernel Thread :=
  let s := rtListRemove s t
  { s with
    rtThreadReadyPriorityGroup :=
      if s.rtThreadPriorityTable (s.thread t).currentPriority = [] then s.rtThreadReadyPriorityGroup &&& ~~~(s.thread t).numberMask
      else s.rtThreadReadyPriorityGroup }

def switchTo (fromThread toThread : Thread) (needInsert : Bool) : Kernel Thread :=
  let s := { s with rtCurrentThread := some toThread }
  let s := if needInsert then rtScheduleInsertThread s fromThread else s
  (rtScheduleRemoveThread s toThread).modify toThread ({ · with stat := .running })

-- rt_schedule: none where it would take a thread from an empty list or read the stat
-- of a null current thread.
def rtSchedule : Option (Kernel Thread) :=
  if s.rtSchedulerLockNest = 0 ∧ s.rtThreadReadyPriorityGroup ≠ 0 then
    (getHighestPriorityThread s).bind fun (head,highest) =>
      s.rtCurrentThread.map fun current =>
        let thread := s.thread current
        let keeps := decide (thread.currentPriority < highest ∨ thread.currentPriority = highest ∧ thread.statYield = false)
        let needInsert := decide (thread.stat = .running) && !keeps
        let toThread := if thread.stat = .running ∧ keeps then current else head
        let s := if needInsert then s.modify current ({ · with statYield := false }) else s
        if toThread ≠ current then switchTo s current toThread needInsert
        else (rtScheduleRemoveThread s current).modify current ({ · with stat := .running })
  else some s

def rtSystemSchedulerStart : Option (Kernel Thread) :=
  (getHighestPriorityThread s).map fun (toThread,_) =>
    (rtScheduleRemoveThread { s with rtCurrentThread := some toThread } toThread).modify toThread ({ · with stat := .running,statYield := false })

-- rt_thread_resume with the interrupts off.
def rtThreadResume (t : Thread) : Kernel Thread :=
  if (s.thread t).stat = .suspend then rtScheduleInsertThread (rtListRemove s t) t else s

-- What rt_thread_startup does before its rt_thread_resume.
def starting (t : Thread) : Kernel Thread :=
  s.modify t fun thread =>
    { thread with currentPriority := thread.initPriority,numberMask := bit thread.initPriority,stat := .suspend,statYield := false }

-- rt_thread_startup with the interrupts off, up to its rt_schedule; none for the
-- assertion on stat.
def rtThreadStartup (t : Thread) : Option (Kernel Thread) :=
  if (s.thread t).stat = .init then some (rtThreadResume (starting s t) t) else none

def suspending (t : Thread) : Kernel Thread := (rtScheduleRemoveThread s t).modify t ({ · with stat := .suspend })

-- What rt_thread_suspend does for the stat it has read; none for the assertion that a
-- running thread suspends only itself.
def suspendOf (t : Thread) (stat : Stat) : Option (Kernel Thread) :=
  if stat = .running ∧ s.rtCurrentThread ≠ some t then none else some (suspending s t)

-- rt_thread_suspend with the interrupts off.
def rtThreadSuspend (t : Thread) : Option (Kernel Thread) :=
  let stat := (s.thread t).stat
  if stat ≠ .ready ∧ stat ≠ .running then some s else suspendOf s t stat

-- rt_thread_control with RT_THREAD_CTRL_CHANGE_PRIORITY.
def changePriority (t : Thread) (priority : Priority) : Kernel Thread :=
  let change := fun thread : RtThread => { thread with currentPriority := priority,numberMask := bit priority }
  if (s.thread t).stat = .ready then rtScheduleInsertThread ((rtScheduleRemoveThread s t).modify t change) t
  else s.modify t change

def closing (t : Thread) : Kernel Thread := s.modify t ({ · with stat := .close,statYield := false })

-- rt_thread_exit; the defunct list is left out.
def rtThreadExit : Option (Kernel Thread) :=
  s.rtCurrentThread.bind fun t => rtSchedule (closing (rtScheduleRemoveThread s t) t)

def rtThreadTimeout (t : Thread) : Option (Kernel Thread) :=
  if (s.thread t).stat = .suspend then rtSchedule (rtScheduleInsertThread (rtListRemove s t) t) else none

-- rt_tick_increase up to its check of the timers.
def rtTickIncrease : Option (Kernel Thread) :=
  s.rtCurrentThread.bind fun t =>
    let remaining := (s.thread t).remainingTick - 1
    if remaining = 0 then
      rtSchedule (s.modify t fun thread => { thread with remainingTick := thread.initTick,statYield := true })
    else some (s.modify t ({ · with remainingTick := remaining }))

def rtEnterCritical : Kernel Thread := { s with rtSchedulerLockNest := s.rtSchedulerLockNest + 1 }

-- rt_exit_critical up to its rt_schedule, which a nest of 0 is followed by.
def rtExitCritical : Kernel Thread :=
  let nest := s.rtSchedulerLockNest - 1
  { s with rtSchedulerLockNest := if nest ≤ 0 then 0 else nest }

end Functions

section Queues
variable {Thread : Type} {s : Kernel Thread} {waiting : Thread → Prop} {t : Thread}

-- The ready table holds each waiting thread once, in the list of its priority, and the
-- word tells which lists hold one.
structure Queued (s : Kernel Thread) (waiting : Thread → Prop) : Prop where
  marked : Marked s.rtThreadPriorityTable s.rtThreadReadyPriorityGroup
  listed : ∀ t p, t ∈ s.rtThreadPriorityTable p ↔ waiting t ∧ (s.thread t).currentPriority = p
  nodup : ∀ p, (s.rtThreadPriorityTable p).Nodup

-- Only a thread that was never started, or was deleted before, has no bit.
def Masked (thread : RtThread) : Prop :=
  thread.numberMask = bit thread.currentPriority ∨ thread.numberMask = 0 ∧ (thread.stat = .init ∨ thread.stat = .close)

theorem Masked.of_stat {thread : RtThread} (masked : Masked thread) (open' : thread.stat ≠ .init ∧ thread.stat ≠ .close) :
    thread.numberMask = bit thread.currentPriority := by
  rcases masked with masked | ⟨_,init | close⟩
  · exact masked
  · exact absurd init open'.1
  · exact absurd close open'.2

-- Another thread has taken t out of its list and not yet closed it.
def Closing (s : Kernel Thread) (t : Thread) : Prop := ∃ c, c ≠ t ∧ s.calling c = some (.close t)

def Waiting (s : Kernel Thread) (t : Thread) : Prop := (s.thread t).stat = .ready ∧ ¬Closing s t

structure Sound (s : Kernel Thread) : Prop where
  queued : Queued s (Waiting s)
  masked : ∀ t, Masked (s.thread t)
  runs : ∀ t, (s.thread t).stat = .running → s.rtCurrentThread = some t
  standing : ∀ t, s.rtCurrentThread = some t → (s.thread t).stat ≠ .ready ∧ (s.thread t).stat ≠ .init
  closed : ∀ t, Closing s t → s.rtCurrentThread ≠ some t

theorem closing_congr {s' : Kernel Thread} (calling : s'.calling = s.calling) (t : Thread) : Closing s' t ↔ Closing s t := by
  rw [Closing,Closing,calling]

theorem idle_of_stat {stat : Stat} (same : (s.thread t).stat = stat) (other : stat ≠ .ready) : ¬Waiting s t :=
  fun waits => other (same.symm.trans waits.1)

theorem Queued.unlisted (queued : Queued s waiting) (idle : ¬waiting t) (p : Priority) : t ∉ s.rtThreadPriorityTable p :=
  fun there => idle ((queued.listed t p).mp there).1

theorem Queued.congr (queued : Queued s waiting) {waiting' : Thread → Prop} (same : ∀ t, waiting t ↔ waiting' t) : Queued s waiting' :=
  ⟨queued.marked,fun t p => by rw [queued.listed,same],queued.nodup⟩

theorem Sound.others (sound : Sound s) (idle : ¬Waiting s t) : Queued s fun u => Waiting s u ∧ u ≠ t := by
  apply sound.queued.congr
  intro u
  constructor
  · intro waits
    refine ⟨waits,?_⟩
    intro mine
    rw [mine] at waits
    exact idle waits
  · exact And.left

theorem Queued.insertReady (queued : Queued s waiting) (idle : ¬waiting t)
    (masked : (s.thread t).numberMask = bit (s.thread t).currentPriority) : Queued (insertReady s t) fun u => waiting u ∨ u = t := by
  have table : ∀ p, (Scheduler.insertReady s t).rtThreadPriorityTable p =
      if p = (s.thread t).currentPriority then s.rtThreadPriorityTable p ++ [t] else s.rtThreadPriorityTable p := by
    intro p
    split
    case isTrue here =>
      rw [here]
      exact Function.update_self ..
    case isFalse other => exact Function.update_of_ne other ..
  constructor
  case marked =>
    have marked := queued.marked.append (s.thread t).currentPriority t
    rwa [← masked] at marked
  case listed =>
    intro u p
    rw [table]
    split
    case isTrue here =>
      rw [here,List.mem_append,queued.listed,List.mem_singleton]
      constructor
      · rintro (there | mine)
        · exact ⟨Or.inl there.1,there.2⟩
        · exact ⟨Or.inr mine,by rw [mine]; rfl⟩
      · rintro ⟨there | mine,same⟩
        · exact Or.inl ⟨there,same⟩
        · exact Or.inr mine
    case isFalse other =>
      rw [queued.listed]
      constructor
      · exact fun there => ⟨Or.inl there.1,there.2⟩
      · rintro ⟨there | mine,same⟩
        · exact ⟨there,same⟩
        · rw [mine] at same
          exact absurd same.symm other
  case nodup =>
    intro p
    rw [table]
    split
    · refine List.nodup_append.mpr ⟨queued.nodup p,List.pairwise_singleton _ t,?_⟩
      intro u there v mine same
      rw [List.mem_singleton.mp mine] at same
      rw [same] at there
      exact queued.unlisted idle p there
    · exact queued.nodup p

-- The head of the first list that is not empty.
structure Head (s : Kernel Thread) (p : Priority) (head : Thread) (rest : List Thread) : Prop where
  first : s.rtThreadPriorityTable p = head :: rest
  highest : ∀ q, s.rtThreadPriorityTable q ≠ [] → p ≤ q

theorem rtFfs_first {value : BitVec 32} (some' : value ≠ 0) : First value (rtFfs value - 1) := by
  rw [rtFfs,if_neg some']
  exact first_ctz some'

theorem head_of_marked (marked : Marked s.rtThreadPriorityTable s.rtThreadReadyPriorityGroup) (some' : s.rtThreadReadyPriorityGroup ≠ 0) :
    ∃ p head rest, Head s p head rest ∧ getHighestPriorityThread s = some (head,p.val) := by
  have first := rtFfs_first some'
  have inside : rtFfs s.rtThreadReadyPriorityGroup - 1 < 32 := by
    by_contra outside
    exact absurd first.1 (by rw [BitVec.getLsbD_of_ge _ _ (Nat.le_of_not_lt outside)]; decide)
  obtain ⟨holds,highest⟩ := marked.first first inside
  obtain ⟨head,rest,list⟩ := List.exists_cons_of_ne_nil holds
  refine ⟨⟨_,inside⟩,head,rest,⟨list,highest⟩,?_⟩
  rw [getHighestPriorityThread,dif_pos inside,list]
  rfl

variable {c head : Thread} {p : Priority} {rest : List Thread}

theorem head_waiting (sound : Sound s) (front : Head s p head rest) : Waiting s head ∧ (s.thread head).currentPriority = p :=
  (sound.queued.listed head p).mp (by rw [front.first]; exact List.mem_cons_self)

theorem Head.unique {q : Priority} {head' : Thread} {rest' : List Thread} (front : Head s p head rest) (front' : Head s q head' rest') :
    p = q ∧ head = head' ∧ rest = rest' := by
  have same : p = q := by
    apply Fin.le_antisymm
    · exact front.highest q (by rw [front'.first]; exact List.cons_ne_nil _ _)
    · exact front'.highest p (by rw [front.first]; exact List.cons_ne_nil _ _)
  cases same
  have lists := front.first.symm.trans front'.first
  exact ⟨rfl,(List.cons.inj lists).1,(List.cons.inj lists).2⟩

theorem head_not_current (sound : Sound s) (current : s.rtCurrentThread = some c) (front : Head s p head rest) : head ≠ c := by
  intro mine
  rw [← mine] at current
  exact (sound.standing head current).1 (head_waiting sound front).1.1

theorem relock_sound (sound : Sound s) (nest : Int16) : Sound { s with rtSchedulerLockNest := nest } :=
  ⟨⟨sound.queued.marked,sound.queued.listed,sound.queued.nodup⟩,sound.masked,sound.runs,sound.standing,sound.closed⟩

-- rt_system_scheduler_init, with the threads that will be started.
def booted (priority : Thread → Priority) (tick : Thread → UInt32) : Kernel Thread where
  thread t := rtThreadInit (priority t) (tick t)
  calling _ := none
  rtThreadPriorityTable _ := []
  rtThreadReadyPriorityGroup := 0
  rtSchedulerLockNest := 0
  rtCurrentThread := none

theorem booted_sound (priority : Thread → Priority) (tick : Thread → UInt32) : Sound (booted priority tick) := by
  constructor
  case queued =>
    refine ⟨Marked.empty,?_,fun _ => List.nodup_nil⟩
    intro t p
    exact ⟨fun there => absurd there List.not_mem_nil,fun listed => (by cases listed.1.1)⟩
  case masked => exact fun _ => Or.inr ⟨rfl,Or.inl rfl⟩
  case runs => exact fun _ running => (by cases running)
  case standing => exact fun _ current => (by cases current)
  case closed =>
    rintro _ ⟨_,_,call⟩
    cases call

end Queues

section Parts
variable {Thread : Type} [DecidableEq Thread] {s : Kernel Thread} {waiting : Thread → Prop} {t : Thread}

@[simp] theorem modify_thread_self (s : Kernel Thread) (t : Thread) (f) : (s.modify t f).thread t = f (s.thread t) := Function.update_self ..
theorem modify_thread_other (s : Kernel Thread) {t u : Thread} (f) (other : u ≠ t) : (s.modify t f).thread u = s.thread u :=
  Function.update_of_ne other ..
theorem modify_same (s : Kernel Thread) {t : Thread} {f} (same : f (s.thread t) = s.thread t) : s.modify t f = s := by
  rw [Kernel.modify,same,Function.update_eq_self]

theorem Queued.modify (queued : Queued s waiting) {f} (kept : (f (s.thread t)).currentPriority = (s.thread t).currentPriority ∨ ¬waiting t) :
    Queued (s.modify t f) waiting := by
  refine ⟨queued.marked,?_,queued.nodup⟩
  intro u p
  by_cases mine : u = t
  · rw [mine,modify_thread_self]
    rcases kept with kept | idle
    · rw [kept]
      exact queued.listed t p
    · exact ⟨fun there => absurd there (queued.unlisted idle p),fun holds => absurd holds.1 idle⟩
  · rw [modify_thread_other s f mine]
    exact queued.listed u p

theorem listRemove_unlisted (unlisted : ∀ p, t ∉ s.rtThreadPriorityTable p) : rtListRemove s t = s := by
  have kept : (fun p => (s.rtThreadPriorityTable p).erase t) = s.rtThreadPriorityTable :=
    funext fun p => List.erase_of_not_mem (unlisted p)
  rw [rtListRemove,kept]

-- Taking out a thread that is in no list changes nothing.
theorem remove_unlisted (queued : Queued s waiting) (idle : ¬waiting t) (masked : Masked (s.thread t)) :
    rtScheduleRemoveThread s t = s := by
  have same := listRemove_unlisted (queued.unlisted idle)
  have cleared : s.rtThreadPriorityTable (s.thread t).currentPriority = [] →
      s.rtThreadReadyPriorityGroup &&& ~~~(s.thread t).numberMask = s.rtThreadReadyPriorityGroup := by
    intro empty
    rcases masked with masked | ⟨masked,_⟩
    · rw [masked]
      apply BitVec.eq_of_getLsbD_eq
      intro i inside
      rw [Bool.eq_iff_iff,getLsbD_clear _ _ ⟨i,inside⟩]
      refine and_iff_left_of_imp fun set mine => ?_
      exact (queued.marked ⟨i,inside⟩).mp set (by rw [mine,empty])
    · rw [masked]
      exact BitVec.and_allOnes
  have kept : (if s.rtThreadPriorityTable (s.thread t).currentPriority = [] then
      s.rtThreadReadyPriorityGroup &&& ~~~(s.thread t).numberMask else s.rtThreadReadyPriorityGroup) = s.rtThreadReadyPriorityGroup := by
    split
    case isTrue empty => exact cleared empty
    case isFalse => rfl
  rw [rtScheduleRemoveThread,same,kept]

theorem Queued.remove (queued : Queued s waiting) (masked : (s.thread t).numberMask = bit (s.thread t).currentPriority) :
    Queued (rtScheduleRemoveThread s t) fun u => waiting u ∧ u ≠ t := by
  constructor
  case marked =>
    have only : ∀ p, t ∈ s.rtThreadPriorityTable p → p = (s.thread t).currentPriority :=
      fun p there => ((queued.listed t p).mp there).2.symm
    have marked := queued.marked.unlink only
    rwa [← masked] at marked
  case listed =>
    intro u p
    exact ((queued.nodup p).mem_erase_iff.trans (and_congr_right fun _ => queued.listed u p)).trans (by
      constructor
      · exact fun ⟨other,there,same⟩ => ⟨⟨there,other⟩,same⟩
      · exact fun ⟨⟨there,other⟩,same⟩ => ⟨other,there,same⟩)
  case nodup => exact fun p => (queued.nodup p).erase t

theorem Queued.insert (queued : Queued s waiting) (idle : ¬waiting t) (masked : (s.thread t).numberMask = bit (s.thread t).currentPriority)
    (other : s.rtCurrentThread ≠ some t) : Queued (rtScheduleInsertThread s t) fun u => waiting u ∨ u = t := by
  rw [rtScheduleInsertThread,if_neg other]
  have readied : Queued (s.modify t ({ · with stat := .ready })) waiting := queued.modify (Or.inl rfl)
  apply readied.insertReady idle
  rw [modify_thread_self]
  exact masked

-- What changes one thread t that is not being closed; what it is listed as follows.
theorem Sound.set (sound : Sound s) {s' : Kernel Thread} (calling : s'.calling = s.calling) (open' : ¬Closing s t)
    (current : s'.rtCurrentThread = s.rtCurrentThread) (others : ∀ u, u ≠ t → s'.thread u = s.thread u) (masked : Masked (s'.thread t))
    (queued : Queued s' fun u => Waiting s u ∧ u ≠ t ∨ (s'.thread t).stat = .ready ∧ u = t)
    (runs : (s'.thread t).stat = .running → s.rtCurrentThread = some t)
    (standing : s.rtCurrentThread = some t → (s'.thread t).stat ≠ .ready ∧ (s'.thread t).stat ≠ .init) : Sound s' := by
  constructor
  case queued =>
    apply queued.congr
    intro u
    rw [Waiting,Waiting,closing_congr calling]
    by_cases mine : u = t
    · rw [mine]
      exact ⟨fun listed => listed.elim (fun old => absurd rfl old.2) fun new => ⟨new.1,open'⟩,fun waits => Or.inr ⟨waits.1,rfl⟩⟩
    · rw [others u mine]
      exact ⟨fun listed => listed.elim And.left fun new => absurd new.2 mine,fun waits => Or.inl ⟨waits,mine⟩⟩
  case masked =>
    intro u
    by_cases mine : u = t
    · rw [mine]
      exact masked
    · rw [others u mine]
      exact sound.masked u
  case runs =>
    intro u
    by_cases mine : u = t
    · rw [mine,current]
      exact runs
    · rw [others u mine,current]
      exact sound.runs u
  case standing =>
    intro u
    by_cases mine : u = t
    · rw [mine,current]
      exact standing
    · rw [others u mine,current]
      exact sound.standing u
  case closed =>
    intro u
    rw [closing_congr calling,current]
    exact sound.closed u

theorem insert_current (s : Kernel Thread) (t : Thread) : (rtScheduleInsertThread s t).rtCurrentThread = s.rtCurrentThread := by
  rw [rtScheduleInsertThread]
  split <;> rfl

theorem insert_calling (s : Kernel Thread) (t : Thread) : (rtScheduleInsertThread s t).calling = s.calling := by
  rw [rtScheduleInsertThread]
  split <;> rfl

theorem insert_other (s : Kernel Thread) {t u : Thread} (other : u ≠ t) : (rtScheduleInsertThread s t).thread u = s.thread u := by
  rw [rtScheduleInsertThread]
  split
  · exact modify_thread_other s _ other
  · exact modify_thread_other s ({ · with stat := .ready }) other

theorem insert_self (s : Kernel Thread) (t : Thread) :
    (rtScheduleInsertThread s t).thread t = { s.thread t with stat := if s.rtCurrentThread = some t then .running else .ready } := by
  rw [rtScheduleInsertThread]
  split
  · exact modify_thread_self s t _
  · exact modify_thread_self s t ({ · with stat := .ready })

theorem insert_sound (sound : Sound s) (open' : ¬Closing s t) (suspended : (s.thread t).stat = .suspend) :
    Sound (rtScheduleInsertThread s t) := by
  have idle : ¬Waiting s t := idle_of_stat suspended (by decide)
  have bitOf := (sound.masked t).of_stat (by rw [suspended]; decide)
  have same := insert_self s t
  refine sound.set (t := t) (insert_calling s t) open' (insert_current s t) (fun u other => insert_other s other) ?masked ?queued ?runs
    ?standing
  case masked =>
    rw [same]
    exact Or.inl bitOf
  case queued =>
    by_cases mine : s.rtCurrentThread = some t
    · rw [same,if_pos mine,rtScheduleInsertThread,if_pos mine]
      refine ((sound.others idle).modify (Or.inl rfl)).congr fun u => ?_
      simp
    · rw [same,if_neg mine]
      refine ((sound.others idle).insert (fun waits => waits.2 rfl) bitOf mine).congr fun u => ?_
      simp
  case runs =>
    rw [same]
    intro running
    by_contra other
    rw [if_neg other] at running
    cases running
  case standing =>
    intro mine
    rw [same,if_pos mine]
    exact ⟨(by decide : Stat.running ≠ .ready),(by decide : Stat.running ≠ .init)⟩

-- A suspended thread is in no list.
theorem listRemove_suspended (sound : Sound s) (suspended : (s.thread t).stat = .suspend) : rtListRemove s t = s :=
  listRemove_unlisted (sound.queued.unlisted (idle_of_stat suspended (by decide)))

-- What changes a thread that is not waiting keeps the queues.
theorem modify_sound (sound : Sound s) (open' : ¬Closing s t) {f} (idle : (s.thread t).stat ≠ .ready) (masked : Masked (f (s.thread t)))
    (idle' : (f (s.thread t)).stat ≠ .ready) (runs : (f (s.thread t)).stat = .running → s.rtCurrentThread = some t)
    (started : s.rtCurrentThread = some t → (f (s.thread t)).stat ≠ .init) : Sound (s.modify t f) := by
  refine sound.set (t := t) rfl open' rfl (fun u other => modify_thread_other s f other) ?masked ?queued ?runs ?standing
  all_goals rw [modify_thread_self]
  case masked => exact masked
  case queued =>
    apply ((sound.others fun waits => idle waits.1).modify (Or.inr fun waits => waits.2 rfl)).congr
    exact fun u => ⟨Or.inl,fun listed => listed.elim id fun new => absurd new.1 idle'⟩
  case runs => exact runs
  case standing => exact fun mine => ⟨idle',started mine⟩

theorem starting_self (s : Kernel Thread) (t : Thread) : (starting s t).thread t =
    { s.thread t with currentPriority := (s.thread t).initPriority,numberMask := bit (s.thread t).initPriority,stat := .suspend,
                      statYield := false } := modify_thread_self s t _

theorem starting_other (s : Kernel Thread) {t u : Thread} (other : u ≠ t) : (starting s t).thread u = s.thread u :=
  modify_thread_other s _ other

theorem starting_sound (sound : Sound s) (open' : ¬Closing s t) (fresh : (s.thread t).stat = .init) : Sound (starting s t) := by
  have idle : (s.thread t).stat ≠ .ready := by rw [fresh]; decide
  refine modify_sound sound open' idle (Or.inl rfl) ?_ ?_ ?_
  · exact fun ready => (by cases ready)
  · exact fun running => (by cases running)
  · exact fun _ init => (by cases init)

theorem remove_queued (sound : Sound s) (t : Thread) : Queued (rtScheduleRemoveThread s t) fun u => Waiting s u ∧ u ≠ t := by
  by_cases waits : Waiting s t
  · exact sound.queued.remove ((sound.masked t).of_stat (by rw [waits.1]; decide))
  · rw [remove_unlisted sound.queued waits (sound.masked t)]
    exact sound.others waits

theorem remove_modify_sound (sound : Sound s) (open' : ¬Closing s t) {f} (masked : Masked (f (s.thread t)))
    (idle : (f (s.thread t)).stat ≠ .ready) (runs : (f (s.thread t)).stat = .running → s.rtCurrentThread = some t)
    (started : s.rtCurrentThread = some t → (f (s.thread t)).stat ≠ .init) : Sound ((rtScheduleRemoveThread s t).modify t f) := by
  refine sound.set (t := t) rfl open' rfl (fun u other => modify_thread_other _ f other) ?masked ?queued ?runs ?standing
  all_goals rw [modify_thread_self]
  case masked => exact masked
  case queued =>
    apply ((remove_queued sound t).modify (Or.inr fun waits => waits.2 rfl)).congr
    exact fun u => ⟨Or.inl,fun listed => listed.elim id fun new => absurd new.1 idle⟩
  case runs => exact runs
  case standing => exact fun mine => ⟨idle,started mine⟩

theorem suspending_sound (sound : Sound s) (open' : ¬Closing s t) (started : (s.thread t).stat ≠ .init ∧ (s.thread t).stat ≠ .close) :
    Sound (suspending s t) := by
  refine remove_modify_sound sound open' (Or.inl ((sound.masked t).of_stat started)) ?_ ?_ ?_
  · exact fun ready => (by cases ready)
  · exact fun running => (by cases running)
  · exact fun _ init => (by cases init)

theorem Masked.closing {thread : RtThread} (masked : Masked thread) : Masked { thread with stat := .close,statYield := false } := by
  rcases masked with masked | ⟨masked,_⟩
  · exact Or.inl masked
  · exact Or.inr ⟨masked,Or.inr rfl⟩

theorem exit_sound (sound : Sound s) (open' : ¬Closing s t) : Sound (closing (rtScheduleRemoveThread s t) t) := by
  refine remove_modify_sound sound open' (sound.masked t).closing ?_ ?_ ?_
  · exact fun ready => (by cases ready)
  · exact fun running => (by cases running)
  · exact fun _ init => (by cases init)

theorem changePriority_sound (sound : Sound s) (open' : ¬Closing s t) (priority : Priority) : Sound (changePriority s t priority) := by
  rw [changePriority]
  by_cases ready : (s.thread t).stat = .ready
  · rw [if_pos ready]
    have elsewhere : s.rtCurrentThread ≠ some t := fun mine => (sound.standing t mine).1 ready
    let changed := (rtScheduleRemoveThread s t).modify t
      fun thread => { thread with currentPriority := priority,numberMask := bit priority }
    have same : (rtScheduleInsertThread changed t).thread t =
        { s.thread t with currentPriority := priority,numberMask := bit priority,stat := .ready } := by
      rw [insert_self,modify_thread_self,if_neg]
      · rfl
      · exact elsewhere
    have queued : Queued changed fun u => Waiting s u ∧ u ≠ t := (remove_queued sound t).modify (Or.inr fun waits => waits.2 rfl)
    refine sound.set (t := t) (insert_calling changed t) open' (insert_current changed t) ?others ?masked ?queued ?runs ?standing
    case others => exact fun u other => (insert_other changed other).trans (modify_thread_other _ _ other)
    all_goals rw [same]
    case masked => exact Or.inl rfl
    case queued =>
      have bitOf : (changed.thread t).numberMask = bit (changed.thread t).currentPriority := by rw [modify_thread_self]
      exact (queued.insert (fun waits => waits.2 rfl) bitOf elsewhere).congr fun u => by simp
    case runs => exact fun running => (by cases running)
    case standing => exact fun mine => absurd mine elsewhere
  · rw [if_neg ready]
    exact modify_sound sound open' ready (Or.inl rfl) ready (sound.runs t) fun mine => (sound.standing t mine).2

end Parts

end SssAlarmHost.Scheduler
