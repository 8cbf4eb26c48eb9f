import SssAlarmHost.SchedulerCalls

namespace SssAlarmHost.Scheduler
open PriorityQueues MachineRuns

section Effects
variable {Thread : Type} [DecidableEq Thread] {s middle next : Kernel Thread} {c t : Thread} {a : Action Thread}

-- The actions that end in rt_schedule, or start the scheduler.
def Reschedules (s : Kernel Thread) : Action Thread → Prop
  | .start => True
  | .exit => True
  | .timeout _ => True
  | .tick => ∀ c, s.rtCurrentThread = some c → (s.thread c).remainingTick = 1
  | .schedule => True
  | _ => False

-- Thread t is neither suspended nor deleted and does not exit.
def Spares (t : Thread) (s : Kernel Thread) : Action Thread → Prop
  | .suspend u => u ≠ t
  | .call request u => request = .suspend ∨ request = .delete → u ≠ t
  | .exit => s.rtCurrentThread ≠ some t
  | _ => True

-- rt_thread_yield is rt_schedule alone: only rt_tick_increase sets RT_THREAD_STAT_YIELD.
def NoYield (s : Kernel Thread) : Prop := ∀ t, (s.thread t).statYield = false

def isTick : Action Thread → Bool
  | .tick => true
  | _ => false

def Unexpired (s : Kernel Thread) (a : Action Thread) : Prop :=
  isTick a = true → s.rtCurrentThread.all fun c => (s.thread c).remainingTick ≠ 1

instance (s : Kernel Thread) (a : Action Thread) : Decidable (Unexpired s a) := inferInstanceAs (Decidable (_ → _))

-- A list of the ready table gets longer at its end, or loses a thread; only a change of
-- priority does both.
def Relisted (s : Kernel Thread) (a : Action Thread) (middle : Kernel Thread) (p : Priority) : Prop :=
  (∃ l, middle.rtThreadPriorityTable p = s.rtThreadPriorityTable p ++ l) ∨
    (∃ t, middle.rtThreadPriorityTable p = (s.rtThreadPriorityTable p).erase t) ∨
      ∃ t priority l, a = .changePriority t priority ∧ middle.rtThreadPriorityTable p = (s.rtThreadPriorityTable p).erase t ++ l

-- What an action does apart from rt_schedule.
structure Quiet (s : Kernel Thread) (a : Action Thread) (middle : Kernel Thread) : Prop where
  orderly : Orderly middle
  current : middle.rtCurrentThread = s.rtCurrentThread
  awake : ∀ t, Awake s t → Free s t → Spares t s a → Awake middle t ∧ Free middle t
  yields : Unexpired s a → NoYield s → NoYield middle
  lists : ∀ p, Relisted s a middle p

theorem Relisted.same {p : Priority} (same : middle.rtThreadPriorityTable p = s.rtThreadPriorityTable p) : Relisted s a middle p :=
  Or.inl ⟨[],by rw [same,List.append_nil]⟩

theorem insert_table (s : Kernel Thread) (t : Thread) (p : Priority) :
    ∃ l, (rtScheduleInsertThread s t).rtThreadPriorityTable p = s.rtThreadPriorityTable p ++ l := by
  rw [rtScheduleInsertThread]
  split
  · exact ⟨[],(List.append_nil _).symm⟩
  · by_cases here : p = ((s.modify t ({ · with stat := .ready })).thread t).currentPriority
    · refine ⟨[t],?_⟩
      rw [here]
      exact Function.update_self ..
    · exact ⟨[],(Function.update_of_ne here ..).trans (List.append_nil _).symm⟩

theorem Quiet.refl (orderly : Orderly s) (a : Action Thread) : Quiet s a s :=
  ⟨orderly,rfl,fun _ awake free _ => ⟨awake,free⟩,fun _ noYield => noYield,fun _ => Relisted.same rfl⟩

-- An action that changes one thread t.
theorem Quiet.change (t : Thread) (orderly : Orderly middle) (current : middle.rtCurrentThread = s.rtCurrentThread)
    (others : ∀ u, u ≠ t → middle.thread u = s.thread u ∧ (Closing middle u ↔ Closing s u) ∧ (Free s u → Free middle u))
    (mine : Awake s t → Free s t → Spares t s a → Awake middle t ∧ Free middle t)
    (yields : Unexpired s a → (s.thread t).statYield = false → (middle.thread t).statYield = false)
    (lists : ∀ p, Relisted s a middle p) : Quiet s a middle := by
  refine ⟨orderly,current,?awake,?yields,lists⟩
  case awake =>
    intro u awake free spared
    by_cases here : u = t
    · rw [here] at awake free spared ⊢
      exact mine awake free spared
    · obtain ⟨thread,closing,kept⟩ := others u here
      exact ⟨awake.congr thread closing,kept free⟩
  case yields =>
    intro unexpired noYield u
    by_cases here : u = t
    · rw [here]
      exact yields unexpired (noYield t)
    · rw [(others u here).1]
      exact noYield u

theorem startup_quiet (orderly : Orderly s) (free : Free s t) (taken : rtThreadStartup s t = some next) : Quiet s (.startup t) next := by
  obtain ⟨fresh,same⟩ := Option.ite_none_right_eq_some.mp taken
  cases same
  have middle := starting_orderly orderly free fresh
  have stat : ((starting s t).thread t).stat = .suspend := congrArg RtThread.stat (starting_self s t)
  have resumed : rtThreadResume (starting s t) t = rtScheduleInsertThread (starting s t) t := by
    rw [rtThreadResume,if_pos stat,listRemove_suspended middle.toSound stat]
  rw [resumed]
  refine Quiet.change t (insert_orderly middle free stat) (insert_current _ t) ?others ?mine ?yields fun p => ?lists
  case others =>
    have calling : (rtScheduleInsertThread (starting s t) t).calling = s.calling := insert_calling _ t
    exact same_calling calling fun u other => (insert_other _ other).trans (starting_other s other)
  case mine => exact fun awake => absurd awake (not_awake fresh (by decide) (by decide))
  case yields =>
    intro _ _
    rw [insert_self,starting_self]
  case lists => exact Or.inl (insert_table (starting s t) t p)

theorem insert_quiet (orderly : Orderly s) (free : Free s t) (suspended : (s.thread t).stat = .suspend) (a : Action Thread) :
    Quiet s a (rtScheduleInsertThread s t) := by
  refine Quiet.change t (insert_orderly orderly free suspended) (insert_current s t) ?_ ?_ ?_ fun p => Or.inl (insert_table s t p)
  · exact same_calling (insert_calling s t) fun u other => insert_other s other
  · exact fun awake => absurd awake (not_awake suspended (by decide) (by decide))
  · intro _ quiet
    rw [insert_self]
    exact quiet

theorem suspending_quiet (orderly : Orderly s) (free : Free s t) (started : (s.thread t).stat ≠ .init ∧ (s.thread t).stat ≠ .close)
    (ends : ¬Spares t s a) : Quiet s a (suspending s t) := by
  refine Quiet.change t (suspend_orderly orderly free started) rfl ?_ (fun _ _ spared => absurd spared ends) ?_
    fun _ => Or.inr (Or.inl ⟨t,rfl⟩)
  · exact same_calling rfl fun u other => modify_thread_other _ _ other
  · intro _ quiet
    rw [suspending,modify_thread_self]
    exact quiet

-- What changes nothing but where thread c stands in a call about t.
theorem calls_quiet {call : Option (Call Thread)} (orderly : Orderly (s.calls c call)) (about' : ∀ call', call = some call' → call'.thread = t)
    (same : ∀ u, u ≠ t → (Closing (s.calls c call) u ↔ Closing s u)) (mine : Awake s t → Free s t → ¬Spares t s a) :
    Quiet s a (s.calls c call) := by
  refine Quiet.change t orderly rfl (fun u other => ⟨rfl,same u other,fun free => ?_⟩) ?_ (fun _ quiet => quiet) fun _ => Relisted.same rfl
  · intro d call' under
    by_cases here : d = c
    · rw [here,calls_self] at under
      rw [about' call' under]
      exact Ne.symm other
    · rw [calls_other s call here] at under
      exact free d call' under
  · exact fun awake free spared => absurd spared (mine awake free)

theorem enters_quiet {request : Request} (orderly : Orderly s) (current : s.rtCurrentThread = some c) (idle : s.calling c = none)
    (free : Free s t) (taken : enters s c t request = some next) : Quiet s (.call request t) next := by
  have entered := enters_orderly orderly current idle free taken
  have other : ∀ {call : Call Thread} {u}, call.thread = t → u ≠ t → (Closing (s.calls c (some call)) u ↔ Closing s u) := by
    intro call u mine away
    refine closing_calls s c ⟨fun closes => ?_,fun closes => (by rw [idle] at closes; cases closes)⟩
    rw [Option.some.inj closes] at mine
    exact absurd mine away
  have quiet : ∀ {call : Call Thread}, call.thread = t → Orderly (s.calls c (some call)) → (Awake s t → ¬Spares t s (.call request t)) →
      Quiet s (.call request t) (s.calls c (some call)) := by
    intro call mine orderly' ends
    refine calls_quiet (t := t) orderly' ?_ (fun u => other mine) fun awake _ => ends awake
    intro call' same
    cases same
    exact mine
  cases request with
  | startup =>
    obtain ⟨fresh,same⟩ := Option.ite_none_right_eq_some.mp taken
    cases same
    refine Quiet.change t entered rfl ?_ ?_ ?_ fun _ => Relisted.same rfl
    · intro u away
      refine ⟨starting_other s away,other rfl away,fun free' d call' under => ?_⟩
      by_cases here : d = c
      · rw [here] at under
        cases (calls_self _ c _).symm.trans under
        exact Ne.symm away
      · exact free' d call' ((calls_other _ _ here).symm.trans under)
    · exact fun awake => absurd awake (not_awake fresh (by decide) (by decide))
    · intro _ _
      exact congrArg RtThread.statYield (starting_self s t)
  | resume =>
    cases taken
    by_cases suspended : (s.thread t).stat = .suspend
    · rw [if_pos suspended] at entered ⊢
      exact quiet rfl entered fun awake => absurd awake (not_awake suspended (by decide) (by decide))
    · rw [if_neg suspended]
      exact Quiet.refl orderly _
  | suspend =>
    cases taken
    by_cases out : (s.thread t).stat ≠ .ready ∧ (s.thread t).stat ≠ .running
    · rw [if_pos out]
      exact Quiet.refl orderly _
    · rw [if_neg out] at entered ⊢
      exact quiet rfl entered fun _ spared => spared (Or.inl rfl) rfl
  | delete =>
    cases taken
    refine quiet ?_ entered fun _ spared => spared (Or.inr rfl) rfl
    split
    · rfl
    · rfl

-- A part of a call about t, which no longer matters to a thread that no call is about.
theorem part_quiet (call : Option (Call Thread)) {old : Call Thread} (orderly : Orderly next) (under : s.calling c = some old)
    (calling : next.calling = (s.calls c call).calling) (current : next.rtCurrentThread = s.rtCurrentThread)
    (about' : ∀ call', call = some call' → call'.thread = old.thread)
    (others : ∀ u, u ≠ old.thread → next.thread u = s.thread u ∧ (Closing next u ↔ Closing s u))
    (yields : (s.thread old.thread).statYield = false → (next.thread old.thread).statYield = false)
    (lists : ∀ p, Relisted s a next p) : Quiet s a next := by
  refine Quiet.change old.thread orderly current ?_ (fun _ free => absurd rfl (free c old under)) (fun _ => yields) lists
  intro u other
  refine ⟨(others u other).1,(others u other).2,fun free d call' under' => ?_⟩
  rw [calling] at under'
  by_cases here : d = c
  · rw [here,calls_self] at under'
    rw [about' call' under']
    exact Ne.symm other
  · rw [calls_other s call here] at under'
    exact free d call' under'

theorem proceeds_quiet {call : Call Thread} (orderly : Orderly s) (current : s.rtCurrentThread = some c) (under : s.calling c = some call)
    (taken : proceeds s c call = some next) : Quiet s .proceed next := by
  have proceeded := proceeds_orderly orderly current under taken
  have left : ∀ u, u ≠ call.thread → (Closing (s.calls c none) u ↔ Closing s u) := by
    refine fun u other => closing_calls s c ⟨fun closes => (by cases closes),fun closes => ?_⟩
    rw [under] at closes
    rw [Option.some.inj closes] at other
    exact absurd rfl other
  cases call with
  | suspend t stat =>
    obtain ⟨_,same⟩ := Option.ite_none_left_eq_some.mp taken
    cases same
    refine part_quiet none proceeded under rfl rfl (fun _ new => (by cases new)) ?_ ?_ fun _ => Or.inr (Or.inl ⟨t,rfl⟩)
    · exact fun u other => ⟨modify_thread_other _ _ other,left u other⟩
    · intro quiet
      exact (congrArg RtThread.statYield (modify_thread_self (rtScheduleRemoveThread (s.calls c none) t) t _)).trans quiet
  | resume t =>
    cases taken
    refine part_quiet (some (.insert t)) proceeded under rfl rfl ?_ ?_ id fun p => Or.inr (Or.inl ⟨t,rfl⟩)
    · rintro _ ⟨⟩
      rfl
    · refine fun u _ => ⟨rfl,closing_calls s c ⟨fun closes => (by cases closes),fun closes => ?_⟩⟩
      rw [under] at closes
      cases closes
  | insert t =>
    cases taken
    refine part_quiet none proceeded under (insert_calling _ t) (insert_current _ t) (fun _ new => (by cases new)) ?_ ?_ fun p => ?_
    · exact fun u other => ⟨insert_other _ other,(closing_congr (insert_calling _ t) u).trans (left u other)⟩
    · intro quiet
      exact (congrArg RtThread.statYield (insert_self (s.calls c none) t)).trans quiet
    · exact Or.inl (insert_table (s.calls c none) t p)
  | delete t =>
    cases taken
    have old : ∀ u, s.calling c ≠ some (.close u) := fun u closes => (by rw [under] at closes; cases closes)
    refine part_quiet (some (.close t)) proceeded under rfl rfl ?_ ?_ id fun p => Or.inr (Or.inl ⟨t,rfl⟩)
    · rintro _ ⟨⟩
      rfl
    · exact fun u other => ⟨rfl,closing_other rfl old other⟩
  | close t =>
    cases taken
    refine part_quiet none proceeded under rfl rfl (fun _ new => (by cases new)) ?_ ?_ fun _ => Relisted.same rfl
    · exact fun u other => ⟨modify_thread_other _ _ other,left u other⟩
    · exact fun _ => congrArg RtThread.statYield (modify_thread_self (s.calls c none) t _)

theorem changePriority_quiet (orderly : Orderly s) (free : Free s t) (priority : Priority) :
    Quiet s (.changePriority t priority) (changePriority s t priority) := by
  rw [changePriority]
  have sound := changePriority_sound orderly.toSound free.not_closing priority
  rw [changePriority] at sound
  by_cases ready : (s.thread t).stat = .ready
  · rw [if_pos ready] at sound ⊢
    let changed := (rtScheduleRemoveThread s t).modify t fun thread => { thread with currentPriority := priority,numberMask := bit priority }
    have others : ∀ u, u ≠ t → (rtScheduleInsertThread changed t).thread u = s.thread u :=
      fun u other => (insert_other _ other).trans (modify_thread_other _ _ other)
    have calling : (rtScheduleInsertThread changed t).calling = s.calling := insert_calling changed t
    have same : (rtScheduleInsertThread changed t).thread t =
        { changed.thread t with stat := if s.rtCurrentThread = some t then .running else .ready } := insert_self changed t
    refine Quiet.change t (orderly.change free sound calling others) (insert_current changed t) (same_calling calling others) ?_ ?_ ?_
    · refine fun _ free' _ => ⟨?_,Free.congr calling free'⟩
      have open' : ¬Closing (rtScheduleInsertThread changed t) t := (Free.congr calling free').not_closing
      have elsewhere : s.rtCurrentThread ≠ some t := fun mine => (orderly.standing t mine).1 ready
      rw [if_neg elsewhere] at same
      exact Or.inl ⟨congrArg RtThread.stat same,open'⟩
    · intro _ quiet
      refine (congrArg RtThread.statYield same).trans ?_
      exact (congrArg RtThread.statYield (modify_thread_self _ t _)).trans quiet
    · intro p
      obtain ⟨l,table⟩ := insert_table changed t p
      exact Or.inr (Or.inr ⟨t,priority,l,rfl,table⟩)
  · rw [if_neg ready] at sound ⊢
    have others : ∀ u, u ≠ t → (s.modify t fun thread => { thread with currentPriority := priority,numberMask := bit priority }).thread u = s.thread u :=
      fun u other => modify_thread_other _ _ other
    refine Quiet.change t (orderly.change free sound rfl others) rfl (same_calling rfl others) ?_ ?_ fun _ => Relisted.same rfl
    · refine fun awake free' _ => ⟨Or.inr ?_,free'⟩
      have running := awake.resolve_left fun waits => ready waits.1
      exact (congrArg RtThread.stat (modify_thread_self s t _)).trans running
    · intro _ quiet
      exact (congrArg RtThread.statYield (modify_thread_self s t _)).trans quiet

theorem exit_quiet (orderly : Orderly s) (free : Free s c) (current : s.rtCurrentThread = some c) :
    Quiet s .exit (closing (rtScheduleRemoveThread s c) c) := by
  have others : ∀ u, u ≠ c → (closing (rtScheduleRemoveThread s c) c).thread u = s.thread u := fun u other => modify_thread_other _ _ other
  have closed := orderly.change free (exit_sound orderly.toSound free.not_closing) rfl others
  refine Quiet.change c closed rfl (same_calling rfl others) (fun _ _ spared => absurd current spared) ?_ fun _ => Or.inr (Or.inl ⟨c,rfl⟩)
  exact fun _ _ => congrArg RtThread.statYield (modify_thread_self _ c _)

theorem tick_quiet (orderly : Orderly s) (current : s.rtCurrentThread = some c) {f : RtThread → RtThread}
    (stat : (f (s.thread c)).stat = (s.thread c).stat) (masked : Masked (f (s.thread c)))
    (yields : Unexpired s .tick → (s.thread c).statYield = false → (f (s.thread c)).statYield = false) : Quiet s .tick (s.modify c f) := by
  have self : (s.modify c f).thread c = f (s.thread c) := modify_thread_self s c f
  have others : ∀ u, u ≠ c → (s.modify c f).thread u = s.thread u := fun u other => modify_thread_other s f other
  have awake : Awake s c → Awake (s.modify c f) c := by
    rw [Awake,Awake,Waiting,Waiting,self,stat]
    exact id
  have orderly' : Orderly (s.modify c f) := by
    refine orderly.keep (ticked_sound orderly.toSound current stat masked) rfl fun t _ => ?_
    by_cases mine : t = c
    · rw [mine]
      refine ⟨awake,?_⟩
      rw [self,stat]
      exact id
    · exact Stays.of_same (others t mine) Iff.rfl
  refine Quiet.change c orderly' rfl (same_calling rfl others) (fun holds free _ => ⟨awake holds,free⟩) ?_ fun _ => Relisted.same rfl
  intro unexpired quiet
  rw [self]
  exact yields unexpired quiet

theorem relock_quiet (orderly : Orderly s) (nest : Int16) (a : Action Thread) : Quiet s a { s with rtSchedulerLockNest := nest } := by
  have orderly' := orderly.keep (relock_sound orderly.toSound nest) rfl fun _ _ => ⟨id,id⟩
  exact ⟨orderly',rfl,fun _ awake free _ => ⟨awake,free⟩,fun _ noYield => noYield,fun _ => Relisted.same rfl⟩

-- What a step does: it starts the scheduler, or has its effect and ends, or has its
-- effect and reschedules.
inductive Stepped (s : Kernel Thread) (a : Action Thread) (next : Kernel Thread) : Prop where
  | starts {p : Priority} {head : Thread} {rest : List Thread} (stopped : s.rtCurrentThread = none) (front : Head s p head rest)
    (started : Started s head next)
  | rests (ends : ¬Reschedules s a) (quiet : Quiet s a next)
  | schedules {middle : Kernel Thread} {c : Thread} (quiet : Quiet s a middle) (current : s.rtCurrentThread = some c)
    (running : Unexpired s a → a ≠ .exit → (s.thread c).stat = .running → middle.thread c = s.thread c) (scheduled : Scheduled middle c next)

theorem tick_stepped (orderly : Orderly s) (current : s.rtCurrentThread = some c) (taken : rtTickIncrease s = some next) :
    Stepped s .tick next := by
  rw [rtTickIncrease,current] at taken
  dsimp only [Option.bind_some] at taken
  have last : (s.thread c).remainingTick - 1 = 0 ↔ (s.thread c).remainingTick = 1 := by
    constructor
    · intro zero
      rw [← UInt32.sub_add_cancel (s.thread c).remainingTick 1,zero]
      rfl
    · intro one
      rw [one]
      rfl
  split at taken
  case isTrue zero =>
    have expired : ¬Unexpired s .tick := by
      intro unexpired
      have slice := unexpired rfl
      rw [current,Option.all_some,decide_eq_true_eq] at slice
      exact slice (last.mp zero)
    have quiet : Quiet s .tick (s.modify c fun thread => { thread with remainingTick := thread.initTick,statYield := true }) :=
      tick_quiet orderly current rfl (orderly.masked c) fun unexpired => absurd unexpired expired
    exact .schedules quiet current (fun unexpired => absurd unexpired expired) (scheduled_of_schedule quiet.orderly.toSound current taken)
  case isFalse more =>
    cases taken
    refine .rests (fun ends => more (last.mpr (ends c current))) ?_
    exact tick_quiet orderly current rfl (orderly.masked c) fun _ => id

theorem step_stepped (orderly : Orderly s) (apart : Apart s a) (taken : step s a = some next) : Stepped s a next := by
  cases a with
  | start =>
    obtain ⟨⟨stopped,some'⟩,taken⟩ := Option.ite_none_right_eq_some.mp taken
    obtain ⟨p,head,rest,front,started⟩ := start_started orderly.toSound some' taken
    exact .starts stopped front started
  | startup t => exact .rests id (startup_quiet orderly (apart.free rfl) taken)
  | resume t =>
    refine .rests id ?_
    cases taken
    rw [rtThreadResume]
    split
    case isTrue suspended =>
      rw [listRemove_suspended orderly.toSound suspended]
      exact insert_quiet orderly (apart.free rfl) suspended _
    case isFalse => exact Quiet.refl orderly _
  | suspend t =>
    refine .rests id ?_
    dsimp only [step,rtThreadSuspend] at taken
    split at taken
    case isTrue =>
      cases taken
      exact Quiet.refl orderly _
    case isFalse out =>
      obtain ⟨_,same⟩ := Option.ite_none_left_eq_some.mp taken
      cases same
      refine suspending_quiet orderly (apart.free rfl) ⟨fun init => out ?_,fun close => out ?_⟩ fun spared => spared rfl
      · rw [init]
        decide
      · rw [close]
        decide
  | call request t =>
    obtain ⟨c,current,taken⟩ := Option.bind_eq_some_iff.mp taken
    obtain ⟨idle,taken⟩ := Option.ite_none_right_eq_some.mp taken
    exact .rests id (enters_quiet orderly current idle (apart.free rfl) taken)
  | proceed =>
    obtain ⟨c,current,taken⟩ := Option.bind_eq_some_iff.mp taken
    obtain ⟨call,under,taken⟩ := Option.bind_eq_some_iff.mp taken
    exact .rests id (proceeds_quiet orderly current under taken)
  | exit =>
    obtain ⟨_,taken⟩ := Option.ite_none_right_eq_some.mp taken
    obtain ⟨c,current,taken⟩ := Option.bind_eq_some_iff.mp taken
    have quiet := exit_quiet orderly (apart.free current) current
    exact .schedules quiet current (fun _ other => absurd rfl other) (scheduled_of_schedule quiet.orderly.toSound current taken)
  | changePriority t priority =>
    cases taken
    exact .rests id (changePriority_quiet orderly (apart.free rfl) priority)
  | timeout t =>
    obtain ⟨started,taken⟩ := Option.ite_none_left_eq_some.mp taken
    obtain ⟨suspended,taken⟩ := Option.ite_none_right_eq_some.mp taken
    obtain ⟨c,current⟩ := Option.ne_none_iff_exists'.mp started
    rw [listRemove_suspended orderly.toSound suspended] at taken
    have quiet := insert_quiet orderly (apart.free rfl) suspended (.timeout t)
    refine .schedules quiet current (fun _ _ running => insert_other s ?_)
      (scheduled_of_schedule quiet.orderly.toSound (quiet.current.trans current) taken)
    intro same
    rw [same,suspended] at running
    cases running
  | tick =>
    obtain ⟨started,taken⟩ := Option.ite_none_left_eq_some.mp taken
    obtain ⟨c,current⟩ := Option.ne_none_iff_exists'.mp started
    exact tick_stepped orderly current taken
  | schedule =>
    obtain ⟨started,taken⟩ := Option.ite_none_left_eq_some.mp taken
    obtain ⟨c,current⟩ := Option.ne_none_iff_exists'.mp started
    exact .schedules (Quiet.refl orderly _) current (fun _ _ _ => rfl) (scheduled_of_schedule orderly.toSound current taken)
  | enterCritical =>
    cases taken
    exact .rests id (relock_quiet orderly _ _)
  | exitCritical =>
    cases taken
    exact .rests id (relock_quiet orderly _ _)

theorem started_orderly {head : Thread} {p : Priority} {rest : List Thread} (orderly : Orderly s) (stopped : s.rtCurrentThread = none)
    (front : Head s p head rest) (started : Started s head next) : Orderly next :=
  orderly.keep (started_sound orderly.toSound stopped front started) started.calling
    fun t _ => started_stays (head_waiting orderly.toSound front).1 started t

theorem step_orderly (s : Kernel Thread) (a : Action Thread) (next : Kernel Thread) (orderly : Orderly s) (apart : Apart s a)
    (taken : step s a = some next) : Orderly next := by
  cases step_stepped orderly apart taken with
  | starts stopped front started => exact started_orderly orderly stopped front started
  | rests _ quiet => exact quiet.orderly
  | schedules quiet current _ scheduled => exact scheduled_orderly quiet.orderly (quiet.current.trans current) scheduled

end Effects

end SssAlarmHost.Scheduler
