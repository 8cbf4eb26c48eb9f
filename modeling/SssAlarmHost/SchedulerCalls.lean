import SssAlarmHost.MachineRuns
import SssAlarmHost.Reschedule

namespace SssAlarmHost.Scheduler
open PriorityQueues MachineRuns

inductive Request where
  | startup
  | resume
  | suspend
  | delete
  deriving DecidableEq

-- Everything that reaches the scheduler, from threads and from interrupts. A step is a
-- part that runs with the interrupts off: startup, resume and suspend are calls made with
-- them off already, as in ipc.c and before the scheduler starts; call is a call of the
-- current thread with them on, which proceed takes from part to part. A tick runs up to
-- its rt_schedule without another interrupt. rt_thread_yield, and what follows a suspend,
-- a startup or the last rt_exit_critical, is schedule.
inductive Action (Thread : Type) where
  | start
  | startup (t : Thread)
  | resume (t : Thread)
  | suspend (t : Thread)
  | call (request : Request) (t : Thread)
  | proceed
  | exit
  | changePriority (t : Thread) (priority : Priority)
  | timeout (t : Thread)
  | tick
  | schedule
  | enterCritical
  | exitCritical

section Machine
variable {Thread : Type} [DecidableEq Thread]

-- What a call of thread c does before its first part. rt_thread_detach is rt_thread_delete.
def enters (s : Kernel Thread) (c t : Thread) : Request → Option (Kernel Thread)
  | .startup => if (s.thread t).stat = .init then some ((starting s t).calls c (some (.resume t))) else none
  | .resume => some (if (s.thread t).stat = .suspend then s.calls c (some (.resume t)) else s)
  | .suspend =>
    let stat := (s.thread t).stat
    some (if stat ≠ .ready ∧ stat ≠ .running then s else s.calls c (some (.suspend t stat)))
  | .delete => some (s.calls c (some (if (s.thread t).stat ≠ .init then .delete t else .close t)))

def proceeds (s : Kernel Thread) (c : Thread) : Call Thread → Option (Kernel Thread)
  | .suspend t stat => suspendOf (s.calls c none) t stat
  | .resume t => some (rtListRemove (s.calls c (some (.insert t))) t)
  | .insert t => some (rtScheduleInsertThread (s.calls c none) t)
  | .delete t => some (rtScheduleRemoveThread (s.calls c (some (.close t))) t)
  | .close t => some (closing (s.calls c none) t)

def step (s : Kernel Thread) : Action Thread → Option (Kernel Thread)
  | .start => if s.rtCurrentThread = none ∧ s.rtThreadReadyPriorityGroup ≠ 0 then rtSystemSchedulerStart s else none
  | .startup t => rtThreadStartup s t
  | .resume t => some (rtThreadResume s t)
  | .suspend t => rtThreadSuspend s t
  | .call request t => s.rtCurrentThread.bind fun c => if s.calling c = none then enters s c t request else none
  | .proceed => s.rtCurrentThread.bind fun c => (s.calling c).bind (proceeds s c)
  | .exit => if s.rtCurrentThread.bind s.calling = none then rtThreadExit s else none
  | .changePriority t priority => some (changePriority s t priority)
  | .timeout t => if s.rtCurrentThread = none then none else rtThreadTimeout s t
  | .tick => if s.rtCurrentThread = none then none else rtTickIncrease s
  | .schedule => if s.rtCurrentThread = none then none else rtSchedule s
  | .enterCritical => some (rtEnterCritical s)
  | .exitCritical => some (rtExitCritical s)

def about (s : Kernel Thread) : Action Thread → Option Thread
  | .startup t => some t
  | .resume t => some t
  | .suspend t => some t
  | .call _ t => some t
  | .exit => s.rtCurrentThread
  | .changePriority t _ => some t
  | .timeout t => some t
  | _ => none

-- Nothing is done to a thread that a call under way is about.
def Apart (s : Kernel Thread) (a : Action Thread) : Prop := ∀ c t, (s.calling c).map Call.thread = some t → about s a ≠ some t

end Machine

section Calls
variable {Thread : Type} {s next : Kernel Thread} {c t : Thread}

def Free (s : Kernel Thread) (t : Thread) : Prop := ∀ c call, s.calling c = some call → call.thread ≠ t

def Awake (s : Kernel Thread) (t : Thread) : Prop := Waiting s t ∨ (s.thread t).stat = .running

-- What a call under way has found of the thread it is about stays so.
def Fits (s : Kernel Thread) (c : Thread) : Call Thread → Prop
  | .suspend t stat => Awake s t ∧ (stat = .running → t = c)
  | .resume t => (s.thread t).stat = .suspend
  | .insert t => (s.thread t).stat = .suspend
  | .delete _ => True
  | .close _ => True

-- No two calls under way are about one thread.
structure Orderly (s : Kernel Thread) : Prop extends Sound s where
  alone : ∀ c c' call call', s.calling c = some call → s.calling c' = some call' → call.thread = call'.thread → c = c'
  fits : ∀ c call, s.calling c = some call → Fits s c call

structure Stays (s next : Kernel Thread) (t : Thread) : Prop where
  awake : Awake s t → Awake next t
  suspended : (s.thread t).stat = .suspend → (next.thread t).stat = .suspend

theorem Free.not_closing (free : Free s t) : ¬Closing s t := fun ⟨c,_,closes⟩ => free c _ closes rfl

theorem Apart.free {a : Action Thread} (apart : Apart s a) (here : about s a = some t) : Free s t := by
  intro c call under same
  exact apart c t (by rw [under,Option.map_some,same]) here

theorem Awake.started (awake : Awake s t) : (s.thread t).stat ≠ .init ∧ (s.thread t).stat ≠ .close := by
  rcases awake with waits | running
  · rw [waits.1]
    decide
  · rw [running]
    decide

theorem Stays.of_same (thread : next.thread t = s.thread t) (closing : Closing next t ↔ Closing s t) : Stays s next t := by
  constructor
  case awake =>
    rw [Awake,Awake,Waiting,Waiting,thread,closing]
    exact id
  case suspended =>
    rw [thread]
    exact id

theorem Awake.congr (thread : next.thread t = s.thread t) (closing : Closing next t ↔ Closing s t) (awake : Awake s t) :
    Awake next t := (Stays.of_same thread closing).awake awake

theorem Free.congr (calling : next.calling = s.calling) (free : Free s t) : Free next t := by
  rw [Free,calling]
  exact free

theorem same_calling (calling : next.calling = s.calling) (others : ∀ u, u ≠ t → next.thread u = s.thread u) (u : Thread) (other : u ≠ t) :
    next.thread u = s.thread u ∧ (Closing next u ↔ Closing s u) ∧ (Free s u → Free next u) :=
  ⟨others u other,closing_congr calling u,Free.congr calling⟩

theorem not_awake {stat : Stat} (same : (s.thread t).stat = stat) (ready : stat ≠ .ready) (running : stat ≠ .running) : ¬Awake s t := by
  rintro (waits | runs)
  · exact idle_of_stat same ready waits
  · exact running (same.symm.trans runs)

theorem Stays.fits (orderly : Orderly s) {call : Call Thread} (under : s.calling c = some call) (stays : Stays s next call.thread) :
    Fits next c call := by
  have fits := orderly.fits c call under
  cases call with
  | suspend => exact ⟨stays.awake fits.1,fits.2⟩
  | resume => exact stays.suspended fits
  | insert => exact stays.suspended fits
  | delete => trivial
  | close => trivial

theorem Orderly.keep (orderly : Orderly s) (sound : Sound next) (calling : next.calling = s.calling)
    (stays : ∀ t, ¬Free s t → Stays s next t) : Orderly next := by
  refine ⟨sound,?alone,?fits⟩
  case alone =>
    rw [calling]
    exact orderly.alone
  case fits =>
    intro c call under
    rw [calling] at under
    exact Stays.fits orderly under (stays _ fun free => free c call under rfl)

-- What changes a single thread that no call is about.
theorem Orderly.change (orderly : Orderly s) (free : Free s t) (sound : Sound next) (calling : next.calling = s.calling)
    (others : ∀ u, u ≠ t → next.thread u = s.thread u) : Orderly next := by
  refine orderly.keep sound calling fun u busy => Stays.of_same (others u ?_) (closing_congr calling u)
  intro mine
  rw [mine] at busy
  exact busy free

theorem booted_orderly (priority : Thread → Priority) (tick : Thread → UInt32) : Orderly (booted priority tick) :=
  ⟨booted_sound priority tick,fun _ _ _ _ under => (by cases under),fun _ _ under => (by cases under)⟩

end Calls

section Steps
variable {Thread : Type} [DecidableEq Thread] {s next : Kernel Thread} {c head t : Thread} {call : Call Thread}

theorem scheduled_calling (scheduled : Scheduled s c next) : next.calling = s.calling := by
  cases scheduled with
  | idle => rfl
  | stays => rfl
  | switches _ _ _ switched => exact switched.calling

theorem scheduled_stays (sound : Sound s) (current : s.rtCurrentThread = some c) (scheduled : Scheduled s c next) (t : Thread) :
    Stays s next t := by
  cases scheduled with
  | idle => exact ⟨id,id⟩
  | stays => exact ⟨id,id⟩
  | @switches q first more _ _ front _ switched =>
    have closing := closing_congr switched.calling t
    by_cases mine : t = first
    · have waits := (head_waiting sound front).1
      rw [mine]
      refine ⟨fun _ => Or.inr (by rw [switched.taken]),fun suspended => ?_⟩
      exact absurd waits (idle_of_stat suspended (by decide))
    · by_cases was : t = c
      · constructor
        case awake =>
          rintro (waits | running)
          · rw [was] at waits
            exact absurd waits.1 (sound.standing c current).1
          · rw [was] at running
            refine Or.inl ⟨by rw [was,switched.left,if_pos running],fun shut => ?_⟩
            exact sound.closed c (by rwa [closing,was] at shut) current
        case suspended =>
          intro suspended
          have left := switched.left
          rw [← was,if_neg (by rw [suspended]; decide)] at left
          rw [left]
          exact suspended
      · exact Stays.of_same (switched.others t was mine) closing

theorem scheduled_orderly (orderly : Orderly s) (current : s.rtCurrentThread = some c) (scheduled : Scheduled s c next) : Orderly next := by
  refine orderly.keep (scheduled_sound orderly.toSound current scheduled) (scheduled_calling scheduled) ?_
  exact fun t _ => scheduled_stays orderly.toSound current scheduled t

theorem started_stays (front : Waiting s head) (started : Started s head next) (t : Thread) : Stays s next t := by
  by_cases mine : t = head
  · rw [mine]
    refine ⟨fun _ => Or.inr (by rw [started.taken]),fun suspended => ?_⟩
    exact absurd front (idle_of_stat suspended (by decide))
  · exact Stays.of_same (started.others t mine) (closing_congr started.calling t)

theorem calls_self (s : Kernel Thread) (c : Thread) (call : Option (Call Thread)) : (s.calls c call).calling c = call := Function.update_self ..
theorem calls_other (s : Kernel Thread) {c d : Thread} (call : Option (Call Thread)) (other : d ≠ c) :
    (s.calls c call).calling d = s.calling d := Function.update_of_ne other ..

theorem closing_calls (s : Kernel Thread) (c : Thread) {call : Option (Call Thread)}
    (same : call = some (.close t) ↔ s.calling c = some (.close t)) : Closing (s.calls c call) t ↔ Closing s t := by
  apply exists_congr
  intro d
  by_cases mine : d = c
  · rw [mine,calls_self,same]
  · rw [calls_other s call mine]

theorem calls_sound (sound : Sound s) {call : Option (Call Thread)} (same : ∀ t, Closing (s.calls c call) t ↔ Closing s t) :
    Sound (s.calls c call) := by
  have queued : Queued (s.calls c call) (Waiting s) := ⟨sound.queued.marked,sound.queued.listed,sound.queued.nodup⟩
  refine ⟨queued.congr fun t => ?_,sound.masked,sound.runs,sound.standing,fun t shut => sound.closed t ((same t).mp shut)⟩
  rw [Waiting,Waiting,same]
  exact Iff.rfl

-- What changes what thread c is in the middle of, and no thread but the one that is about.
theorem Orderly.calls (orderly : Orderly s) {call : Option (Call Thread)} (others : ∀ d call, d ≠ c → s.calling d = some call → call.thread ≠ t)
    (sound : Sound next) (calling : next.calling = (s.calls c call).calling)
    (same : ∀ u, u ≠ t → next.thread u = s.thread u ∧ (Closing next u ↔ Closing s u))
    (new : ∀ call', call = some call' → call'.thread = t ∧ Fits next c call') : Orderly next := by
  have mine : ∀ {call'}, next.calling c = some call' → call'.thread = t ∧ Fits next c call' := by
    intro call' under
    rw [calling,calls_self] at under
    exact new call' under
  have old : ∀ {d call'}, d ≠ c → next.calling d = some call' → s.calling d = some call' := by
    intro d call' other under
    rwa [calling,calls_other s call other] at under
  refine ⟨sound,?alone,?fits⟩
  case alone =>
    intro d d' call' call'' under under' same
    by_cases here : d = c
    · by_cases here' : d' = c
      · rw [here,here']
      · rw [here] at under
        exact absurd (same.symm.trans (mine under).1) (others d' call'' here' (old here' under'))
    · by_cases here' : d' = c
      · rw [here'] at under'
        exact absurd (same.trans (mine under').1) (others d call' here (old here under))
      · exact orderly.alone d d' call' call'' (old here under) (old here' under') same
  case fits =>
    intro d call' under
    by_cases here : d = c
    · rw [here] at under ⊢
      exact (mine under).2
    · have under' := old here under
      obtain ⟨thread,closing⟩ := same _ (others d call' here under')
      exact Stays.fits orderly under' (Stays.of_same thread closing)

theorem closing_other (calling : next.calling = (s.calls c (some (.close t))).calling) (old : ∀ u, s.calling c ≠ some (.close u)) {u : Thread}
    (other : u ≠ t) : Closing next u ↔ Closing s u := by
  refine (closing_congr calling u).trans (closing_calls s c ⟨fun closes => ?_,fun closes => absurd closes (old u)⟩)
  cases closes
  exact absurd rfl other

-- Thread t is out of its list, and what is left is to close it.
theorem close_sound (sound : Sound s) (current : s.rtCurrentThread = some c) (old : ∀ u, s.calling c ≠ some (.close u))
    (calling : next.calling = (s.calls c (some (.close t))).calling) (thread : next.thread = s.thread)
    (current' : next.rtCurrentThread = s.rtCurrentThread) (queued : Queued next fun u => Waiting s u ∧ u ≠ t) : Sound next := by
  have others : ∀ {u}, u ≠ t → (Closing next u ↔ Closing s u) := fun other => closing_other calling old other
  constructor
  case queued =>
    apply queued.congr
    intro u
    rw [Waiting,Waiting,thread]
    by_cases mine : u = t
    · rw [mine]
      refine ⟨fun both => absurd rfl both.2,fun waits => absurd waits.1 ?_⟩
      by_cases self : t = c
      · rw [self]
        exact (sound.standing c current).1
      · exact absurd ⟨c,Ne.symm self,by rw [calling,calls_self]⟩ waits.2
    · rw [others mine]
      exact and_iff_left mine
  case masked =>
    rw [thread]
    exact sound.masked
  case runs =>
    rw [thread,current']
    exact sound.runs
  case standing =>
    rw [thread,current']
    exact sound.standing
  case closed =>
    intro u shut
    rw [current']
    by_cases mine : u = t
    · obtain ⟨d,other,closes⟩ := shut
      by_cases here : d = c
      · rw [current]
        exact fun same => other (here.trans (Option.some.inj same))
      · rw [calling,calls_other s _ here] at closes
        exact sound.closed u ⟨d,other,closes⟩
    · exact sound.closed u ((others mine).mp shut)

theorem enter_orderly (orderly : Orderly s) (idle : s.calling c = none) (free : Free s call.thread) (fits : Fits s c call)
    (open' : ∀ u, call ≠ .close u) : Orderly (s.calls c (some call)) := by
  have same : ∀ u, Closing (s.calls c (some call)) u ↔ Closing s u := by
    refine fun u => closing_calls s c ⟨fun closes => absurd (Option.some.inj closes) (open' u),fun closes => ?_⟩
    rw [idle] at closes
    cases closes
  have sound := calls_sound orderly.toSound same
  refine orderly.calls (fun d call _ under => free d call under) sound rfl (fun u _ => ⟨rfl,same u⟩) ?_
  rintro _ ⟨⟩
  refine ⟨rfl,?_⟩
  cases call with
  | suspend => exact ⟨fits.1.imp_left fun waits => ⟨waits.1,fun shut => waits.2 ((same _).mp shut)⟩,fits.2⟩
  | resume => exact fits
  | insert => exact fits
  | delete => trivial
  | close => trivial

theorem starting_orderly (orderly : Orderly s) (free : Free s t) (fresh : (s.thread t).stat = .init) : Orderly (starting s t) :=
  orderly.change free (starting_sound orderly.toSound free.not_closing fresh) rfl fun _ other => starting_other s other

theorem enters_orderly {request : Request} (orderly : Orderly s) (current : s.rtCurrentThread = some c) (idle : s.calling c = none)
    (free : Free s t) (taken : enters s c t request = some next) : Orderly next := by
  have open' := free.not_closing
  cases request with
  | startup =>
    obtain ⟨fresh,same⟩ := Option.ite_none_right_eq_some.mp taken
    cases same
    have suspended : ((starting s t).thread t).stat = .suspend := congrArg RtThread.stat (starting_self s t)
    exact enter_orderly (starting_orderly orderly free fresh) idle free suspended fun _ closes => (by cases closes)
  | resume =>
    cases taken
    split
    case isTrue suspended => exact enter_orderly orderly idle free suspended fun _ closes => (by cases closes)
    case isFalse => exact orderly
  | suspend =>
    cases taken
    split
    case isTrue => exact orderly
    case isFalse out =>
      have awake : Awake s t := by
        by_cases running : (s.thread t).stat = .running
        · exact Or.inr running
        · refine Or.inl ⟨?_,open'⟩
          by_contra ready
          exact out ⟨ready,running⟩
      refine enter_orderly orderly idle free ⟨awake,fun running => ?_⟩ fun _ closes => (by cases closes)
      exact Option.some.inj ((orderly.runs t running).symm.trans current)
  | delete =>
    cases taken
    split
    case isTrue => exact enter_orderly orderly idle free trivial fun _ closes => (by cases closes)
    case isFalse fresh =>
      have waits : ¬Waiting s t := by
        intro waits
        rw [waits.1] at fresh
        exact fresh (by decide)
      have old : ∀ u, s.calling c ≠ some (.close u) := fun u closes => (by rw [idle] at closes; cases closes)
      have others := orderly.others waits
      have sound : Sound (s.calls c (some (.close t))) :=
        close_sound orderly.toSound current old rfl rfl rfl ⟨others.marked,others.listed,others.nodup⟩
      refine orderly.calls (fun d call _ under => free d call under) sound rfl (fun u other => ⟨rfl,closing_other rfl old other⟩) ?_
      rintro _ ⟨⟩
      exact ⟨rfl,trivial⟩

-- The call of thread c is over, and no call is about the thread it was about.
theorem leave_orderly (orderly : Orderly s) (under : s.calling c = some call) (open' : ∀ u, call ≠ .close u) :
    Orderly (s.calls c none) ∧ Free (s.calls c none) call.thread := by
  have same : ∀ u, Closing (s.calls c none) u ↔ Closing s u := by
    refine fun u => closing_calls s c ⟨fun closes => (by cases closes),fun closes => ?_⟩
    rw [under] at closes
    exact absurd (Option.some.inj closes) (open' u)
  have others : ∀ d call', d ≠ c → s.calling d = some call' → call'.thread ≠ call.thread :=
    fun d call' other under' thread => other (orderly.alone d c call' call under' under thread)
  constructor
  · exact orderly.calls others (calls_sound orderly.toSound same) rfl (fun u _ => ⟨rfl,same u⟩) fun _ new => (by cases new)
  · intro d call' under'
    by_cases here : d = c
    · rw [here,calls_self] at under'
      cases under'
    · rw [calls_other s none here] at under'
      exact others d call' here under'

theorem resume_proceeds (orderly : Orderly s) (under : s.calling c = some (.resume t)) :
    Orderly (rtListRemove (s.calls c (some (.insert t))) t) := by
  have same : ∀ u, Closing (s.calls c (some (.insert t))) u ↔ Closing s u := by
    refine fun u => closing_calls s c ⟨fun closes => (by cases closes),fun closes => ?_⟩
    rw [under] at closes
    cases closes
  have suspended : (s.thread t).stat = .suspend := orderly.fits c _ under
  have sound := calls_sound orderly.toSound same
  have removed : rtListRemove (s.calls c (some (.insert t))) t = s.calls c (some (.insert t)) := listRemove_suspended sound suspended
  rw [removed]
  refine orderly.calls (t := t) ?_ sound rfl (fun u _ => ⟨rfl,same u⟩) ?_
  · exact fun d call other under' thread => other (orderly.alone d c call _ under' under thread)
  · rintro _ ⟨⟩
    exact ⟨rfl,suspended⟩

theorem delete_proceeds (orderly : Orderly s) (current : s.rtCurrentThread = some c) (under : s.calling c = some (.delete t)) :
    Orderly (rtScheduleRemoveThread (s.calls c (some (.close t))) t) := by
  have old : ∀ u, s.calling c ≠ some (.close u) := fun u closes => (by rw [under] at closes; cases closes)
  have removed := remove_queued orderly.toSound t
  have sound : Sound (rtScheduleRemoveThread (s.calls c (some (.close t))) t) :=
    close_sound orderly.toSound current old rfl rfl rfl ⟨removed.marked,removed.listed,removed.nodup⟩
  refine orderly.calls ?_ sound rfl (fun u other => ⟨rfl,closing_other rfl old other⟩) ?_
  · exact fun d call other under' thread => other (orderly.alone d c call _ under' under thread)
  · rintro _ ⟨⟩
    exact ⟨rfl,trivial⟩

theorem close_proceeds (orderly : Orderly s) (current : s.rtCurrentThread = some c) (under : s.calling c = some (.close t)) :
    Orderly (closing (s.calls c none) t) := by
  have same : ∀ u, u ≠ t → (Closing (closing (s.calls c none) t) u ↔ Closing s u) := by
    refine fun u other => closing_calls s c ⟨fun closes => (by cases closes),fun closes => ?_⟩
    rw [under] at closes
    cases closes
    exact absurd rfl other
  have fewer : ∀ u, Closing (closing (s.calls c none) t) u → Closing s u := by
    rintro u ⟨d,other,closes⟩
    by_cases here : d = c
    · rw [here] at closes
      cases (calls_self s c none).symm.trans closes
    · exact ⟨d,other,(calls_other s none here).symm.trans closes⟩
  have idle : ¬Waiting s t := by
    intro waits
    by_cases self : t = c
    · rw [self] at waits
      exact (orderly.standing c current).1 waits.1
    · exact waits.2 ⟨c,Ne.symm self,under⟩
  have shut : (closing (s.calls c none) t).thread t = { s.thread t with stat := .close,statYield := false } := modify_thread_self _ t _
  have others : ∀ u, u ≠ t → (closing (s.calls c none) t).thread u = s.thread u := fun u other => modify_thread_other _ _ other
  have sound : Sound (closing (s.calls c none) t) := by
    constructor
    case queued =>
      have queued : Queued (s.calls c none) (Waiting s) := ⟨orderly.queued.marked,orderly.queued.listed,orderly.queued.nodup⟩
      refine (queued.modify (Or.inr idle)).congr fun u => ?_
      by_cases mine : u = t
      · rw [mine]
        exact ⟨fun waits => absurd waits idle,fun waits => absurd waits (idle_of_stat (congrArg RtThread.stat shut) (by decide : Stat.close ≠ .ready))⟩
      · rw [Waiting,Waiting]
        exact and_congr (by rw [others u mine]) (not_congr (same u mine)).symm
    case masked =>
      intro u
      by_cases mine : u = t
      · rw [mine,shut]
        exact (orderly.masked t).closing
      · rw [others u mine]
        exact orderly.masked u
    case runs =>
      intro u running
      by_cases mine : u = t
      · rw [mine,shut] at running
        cases running
      · rw [others u mine] at running
        exact orderly.runs u running
    case standing =>
      intro u current'
      by_cases mine : u = t
      · rw [mine,shut]
        exact ⟨(by decide : Stat.close ≠ .ready),(by decide : Stat.close ≠ .init)⟩
      · rw [others u mine]
        exact orderly.standing u current'
    case closed => exact fun u shut' => orderly.closed u (fewer u shut')
  refine orderly.calls ?_ sound rfl (fun u other => ⟨others u other,same u other⟩) fun _ new => (by cases new)
  exact fun d call other under' thread => other (orderly.alone d c call _ under' under thread)

theorem suspend_orderly (orderly : Orderly s) (free : Free s t) (awake : (s.thread t).stat ≠ .init ∧ (s.thread t).stat ≠ .close) :
    Orderly (suspending s t) :=
  orderly.change free (suspending_sound orderly.toSound free.not_closing awake) rfl fun _ other => modify_thread_other _ _ other

theorem insert_orderly (orderly : Orderly s) (free : Free s t) (suspended : (s.thread t).stat = .suspend) :
    Orderly (rtScheduleInsertThread s t) :=
  orderly.change free (insert_sound orderly.toSound free.not_closing suspended) (insert_calling s t) fun _ other => insert_other s other

theorem proceeds_orderly (orderly : Orderly s) (current : s.rtCurrentThread = some c) (under : s.calling c = some call)
    (taken : proceeds s c call = some next) : Orderly next := by
  have fits := orderly.fits c call under
  cases call with
  | suspend t stat =>
    obtain ⟨_,same⟩ := Option.ite_none_left_eq_some.mp taken
    cases same
    obtain ⟨left,free⟩ := leave_orderly orderly under fun _ closes => (by cases closes)
    exact suspend_orderly left free fits.1.started
  | resume t =>
    cases taken
    exact resume_proceeds orderly under
  | insert t =>
    cases taken
    obtain ⟨left,free⟩ := leave_orderly orderly under fun _ closes => (by cases closes)
    exact insert_orderly left free fits
  | delete t =>
    cases taken
    exact delete_proceeds orderly current under
  | close t =>
    cases taken
    exact close_proceeds orderly current under

end Steps

end SssAlarmHost.Scheduler
