import SssAlarmHost.SchedulerSteps

namespace SssAlarmHost.Scheduler
open PriorityQueues MachineRuns

section Runs
variable {Thread : Type} [DecidableEq Thread] {s : Kernel Thread} {c t : Thread} {call : Call Thread}

theorem run_orderly {after : Kernel Thread} {actions : List (Action Thread)} (orderly : Orderly s) (apart : Along step Apart s actions)
    (ran : run step s actions = some after) : Orderly after := along_invariant step_orderly orderly apart ran

theorem suspendOf_takes (stat : Stat) (running : stat = .running → s.rtCurrentThread = some t) : suspendOf s t stat ≠ none := by
  rw [suspendOf,if_neg fun wrong => wrong.2 (running wrong.1)]
  exact Option.some_ne_none _

theorem suspend_takes (sound : Sound s) (t : Thread) : rtThreadSuspend s t ≠ none := by
  dsimp only [rtThreadSuspend]
  split
  · exact Option.some_ne_none s
  · exact suspendOf_takes _ (sound.runs t)

theorem proceeds_takes (orderly : Orderly s) (current : s.rtCurrentThread = some c) (under : s.calling c = some call) :
    proceeds s c call ≠ none := by
  have fits := orderly.fits c call under
  cases call with
  | suspend t stat => exact suspendOf_takes stat fun running => current.trans (congrArg some (fits.2 running).symm)
  | resume => exact Option.some_ne_none _
  | insert => exact Option.some_ne_none _
  | delete => exact Option.some_ne_none _
  | close => exact Option.some_ne_none _

-- In every run from the start in which nothing is done to a thread that a call under way
-- is about, the ready table, its word and the states agree, rt_schedule never takes a
-- thread from an empty list, and rt_thread_suspend never finds another thread running.
theorem scheduler_sound {priority : Thread → Priority} {tick : Thread → UInt32} {actions : List (Action Thread)}
    (apart : Along step Apart (booted priority tick) actions) (ran : run step (booted priority tick) actions = some s) :
    Sound s ∧ (s.rtCurrentThread ≠ none → rtSchedule s ≠ none) ∧ (∀ t, rtThreadSuspend s t ≠ none) ∧
      ∀ c call, s.rtCurrentThread = some c → s.calling c = some call → proceeds s c call ≠ none := by
  have orderly := run_orderly (booted_orderly priority tick) apart ran
  refine ⟨orderly.toSound,?_,suspend_takes orderly.toSound,fun c call current under => proceeds_takes orderly current under⟩
  intro started
  obtain ⟨c,current⟩ := Option.ne_none_iff_exists'.mp started
  obtain ⟨next,taken,_⟩ := schedule_scheduled orderly.toSound current
  rw [taken]
  exact Option.some_ne_none next

end Runs

instance {n : Nat} (s : Kernel (Fin n)) (a : Action (Fin n)) : Decidable (Apart s a) :=
  inferInstanceAs (Decidable (∀ c t : Fin n, (s.calling c).map Call.thread = some t → about s a ≠ some t))

-- The idle thread and two threads of priority 20 with slices of two ticks.
def threePriorities (t : Fin 3) : Priority := if t = 0 then 31 else 20
def threeBooted : Kernel (Fin 3) := booted threePriorities fun _ => 2
def threeStarted : List (Action (Fin 3)) := [.startup 0,.startup 1,.startup 2,.start]

-- The idle thread joins the list of the others.
def threeLined : List (Action (Fin 3)) := threeStarted ++ [.changePriority 0 20]
def threeTurns : List (Action (Fin 3)) := [.schedule,.tick,.call .suspend 1,.tick,.schedule]

-- Thread 1 suspends, resumes and deletes thread 2, and its slice ends inside the first.
def threePreempted : List (Action (Fin 3)) := threeStarted ++
  [.call .suspend 2,.tick,.tick,.tick,.tick,.proceed,.call .resume 2,.proceed,.tick,.proceed,.call .delete 2,.proceed,.tick,.proceed]

theorem three_started_sound : ∃ s, run step threeBooted threePreempted = some s ∧ Sound s ∧
    (s.rtCurrentThread ≠ none → rtSchedule s ≠ none) ∧ (∀ t, rtThreadSuspend s t ≠ none) ∧
    ∀ c call, s.rtCurrentThread = some c → s.calling c = some call → proceeds s c call ≠ none := by
  have started : (run step threeBooted threePreempted).isSome = true := by decide +kernel
  have apart : Along step Apart threeBooted threePreempted := by decide +kernel
  obtain ⟨s,ran⟩ := Option.isSome_iff_exists.mp started
  exact ⟨s,ran,scheduler_sound apart ran⟩

-- A timeout inside rt_thread_delete leaves a closed thread in the ready table.
example : (run step threeBooted (threeStarted ++ [.suspend 2,.call .delete 2,.proceed,.timeout 2,.proceed])).any
    (fun s => (s.thread 2).stat = .close ∧ 2 ∈ s.rtThreadPriorityTable 20) = true := by decide +kernel

section Highest
variable {Thread : Type} [DecidableEq Thread] {s next : Kernel Thread} {c t : Thread} {a : Action Thread} {actions : List (Action Thread)}

def RunsHighest (s : Kernel Thread) : Prop :=
  ∃ c, s.rtCurrentThread = some c ∧ (s.thread c).stat = .running ∧
    ∀ q, s.rtThreadPriorityTable q ≠ [] → (s.thread c).currentPriority ≤ q

theorem highest_of_scheduled (sound : Sound s) (current : s.rtCurrentThread = some c) (awake : Awake s t)
    (open' : s.rtSchedulerLockNest = 0) (scheduled : Scheduled s c next) : RunsHighest next := by
  cases scheduled with
  | idle none' =>
    have empty := none'.resolve_left (not_not_intro open')
    rcases awake with waits | running
    · have there := (sound.queued.listed t _).mpr ⟨waits,rfl⟩
      rw [empty] at there
      cases there
    · exact ⟨t,sound.runs t running,running,fun q holds => absurd (empty q) holds⟩
  | stays _ front keeps =>
    refine ⟨c,current,keeps.1,?_⟩
    intro q holds
    have below := front.highest q holds
    rcases keeps.2 with higher | equal
    · exact Fin.le_trans (Fin.le_of_lt higher) below
    · rw [equal.1]
      exact below
  | @switches p first more _ _ front gives switched =>
    have own := (head_waiting sound front).2
    refine ⟨first,switched.current,by rw [switched.taken],?_⟩
    intro q holds
    rw [switched.taken]
    show (s.thread first).currentPriority ≤ q
    rw [own]
    rw [switched.table] at holds
    split at holds
    case isTrue mine =>
      rw [← mine.2]
      exact Fin.not_lt.mp fun higher => gives ⟨mine.1,Or.inl higher⟩
    case isFalse =>
      apply front.highest q
      intro empty
      rw [empty] at holds
      exact holds rfl

theorem scheduled_lock (scheduled : Scheduled s c next) : next.rtSchedulerLockNest = s.rtSchedulerLockNest := by
  cases scheduled with
  | idle => rfl
  | stays => rfl
  | switches _ _ _ switched => exact switched.lockNest

theorem started_highest {head : Thread} {p : Priority} {rest : List Thread} (sound : Sound s) (front : Head s p head rest)
    (started : Started s head next) : RunsHighest next := by
  refine ⟨head,started.current,by rw [started.taken],?_⟩
  intro q holds
  rw [started.taken]
  show (s.thread head).currentPriority ≤ q
  rw [(head_waiting sound front).2]
  apply front.highest q
  intro empty
  rw [started.table,empty] at holds
  exact holds rfl

-- A thread stays ready or running until it is suspended or deleted, or exits.
theorem step_awake (orderly : Orderly s) (apart : Apart s a) (awake : Awake s t) (free : Free s t) (spared : Spares t s a)
    (taken : step s a = some next) : Awake next t ∧ Free next t := by
  cases step_stepped orderly apart taken with
  | starts _ front started =>
    exact ⟨(started_stays (head_waiting orderly.toSound front).1 started t).awake awake,Free.congr started.calling free⟩
  | rests _ quiet => exact quiet.awake t awake free spared
  | schedules quiet current _ scheduled =>
    obtain ⟨awake',free'⟩ := quiet.awake t awake free spared
    have stays := scheduled_stays quiet.orderly.toSound (quiet.current.trans current) scheduled t
    exact ⟨stays.awake awake',Free.congr (scheduled_calling scheduled) free'⟩

def Promotes (s : Kernel Thread) (a : Action Thread) : Prop :=
  Reschedules s a → ∀ next, step s a = some next → next.rtSchedulerLockNest = 0 → RunsHighest next

theorem step_promotes (orderly : Orderly s) (apart : Apart s a) (awake : Awake s t) (free : Free s t) (spared : Spares t s a) :
    Promotes s a := by
  intro ends next taken open'
  cases step_stepped orderly apart taken with
  | starts _ front started => exact started_highest orderly.toSound front started
  | rests rests => exact absurd ends rests
  | schedules quiet current _ scheduled =>
    rw [scheduled_lock scheduled] at open'
    have awake' := (quiet.awake t awake free spared).1
    exact highest_of_scheduled quiet.orderly.toSound (quiet.current.trans current) awake' open' scheduled

-- As long as one thread, the idle thread, is never suspended or deleted, every
-- rescheduling with the scheduler unlocked leaves the processor to a running thread, and
-- the ready table holds nobody of a higher priority.
theorem highest_priority_runs {priority : Thread → Priority} {tick : Thread → UInt32} {idle : Thread} {boot : List (Action Thread)}
    (apart : Along step Apart (booted priority tick) boot) (booted' : run step (booted priority tick) boot = some s)
    (awake : Awake s idle) (free : Free s idle) (spared : Along step (fun s a => Apart s a ∧ Spares idle s a) s actions) :
    Along step Promotes s actions := by
  have preserved : ∀ s a next, Orderly s ∧ Awake s idle ∧ Free s idle → Apart s a ∧ Spares idle s a → step s a = some next →
      Orderly next ∧ Awake next idle ∧ Free next idle := by
    intro s a next ⟨orderly,awake,free⟩ ⟨apart,spared⟩ taken
    exact ⟨step_orderly s a next orderly apart taken,step_awake orderly apart awake free spared taken⟩
  refine along_of_invariant preserved ?_ ⟨run_orderly (booted_orderly priority tick) apart booted',awake,free⟩ spared
  intro s a ⟨orderly,awake,free⟩ ⟨apart,spared⟩
  exact step_promotes orderly apart awake free spared

instance (t : Thread) (s : Kernel Thread) : ∀ a, Decidable (Spares t s a)
  | .suspend u => inferInstanceAs (Decidable (u ≠ t))
  | .call request u => inferInstanceAs (Decidable (request = .suspend ∨ request = .delete → u ≠ t))
  | .exit => inferInstanceAs (Decidable (s.rtCurrentThread ≠ some t))
  | .start => isTrue trivial
  | .startup _ => isTrue trivial
  | .resume _ => isTrue trivial
  | .proceed => isTrue trivial
  | .changePriority _ _ => isTrue trivial
  | .timeout _ => isTrue trivial
  | .tick => isTrue trivial
  | .schedule => isTrue trivial
  | .enterCritical => isTrue trivial
  | .exitCritical => isTrue trivial

def threeOrders : List (Action (Fin 3)) :=
  [.tick,.call .suspend 2,.tick,.tick,.tick,.proceed,.schedule,.enterCritical,.tick,.exitCritical,.schedule,.timeout 2,.exit]

theorem three_started_runs_highest : ∃ s, run step threeBooted threeStarted = some s ∧ Along step Promotes s threeOrders := by
  have apart : Along step Apart threeBooted threeStarted := by decide +kernel
  have facts : (run step threeBooted threeStarted).any (fun s => decide ((s.thread 0).stat = .ready ∧ (∀ c, s.calling c = none) ∧
      Along step (fun s a => Apart s a ∧ Spares 0 s a) s threeOrders)) = true := by decide +kernel
  obtain ⟨s,ran,holds⟩ := (Option.any_eq_true _ _).mp facts
  obtain ⟨ready,nobody,spared⟩ := of_decide_eq_true holds
  have free : Free s 0 := fun c call under => (by rw [nobody] at under; cases under)
  exact ⟨s,ran,highest_priority_runs apart ran (Or.inl ⟨ready,free.not_closing⟩) free spared⟩

end Highest

section Yield
variable {Thread : Type} [DecidableEq Thread] {s next : Kernel Thread} {c t : Thread} {a : Action Thread} {actions : List (Action Thread)}

def GivesWayUp (s : Kernel Thread) (a : Action Thread) : Prop :=
  a ≠ .exit → ∀ next c, step s a = some next → s.rtCurrentThread = some c → (s.thread c).stat = .running →
    next.rtCurrentThread = some c ∨
      ∃ u, next.rtCurrentThread = some u ∧ (next.thread u).currentPriority < (s.thread c).currentPriority

theorem NoYield.scheduled (noYield : NoYield s) (scheduled : Scheduled s c next) : NoYield next := by
  cases scheduled with
  | idle => exact noYield
  | stays => exact noYield
  | @switches q first more _ _ front _ switched =>
    intro u
    by_cases mine : u = first
    · rw [mine,switched.taken]
      exact noYield first
    · by_cases was : u = c
      · rw [was,switched.left]
        split
        · rfl
        · exact noYield c
      · rw [switched.others u was mine]
        exact noYield u

theorem NoYield.started {head : Thread} (noYield : NoYield s) (started : Started s head next) : NoYield next := by
  intro u
  by_cases mine : u = head
  · rw [mine,started.taken]
  · rw [started.others u mine]
    exact noYield u

theorem step_noYield (orderly : Orderly s) (apart : Apart s a) (noYield : NoYield s) (unexpired : Unexpired s a)
    (taken : step s a = some next) : NoYield next := by
  cases step_stepped orderly apart taken with
  | starts _ _ started => exact noYield.started started
  | rests _ quiet => exact quiet.yields unexpired noYield
  | schedules quiet _ _ scheduled => exact (quiet.yields unexpired noYield).scheduled scheduled

theorem scheduled_up (sound : Sound s) (current : s.rtCurrentThread = some c) (running : (s.thread c).stat = .running)
    (noYield : (s.thread c).statYield = false) (scheduled : Scheduled s c next) :
    next.rtCurrentThread = some c ∨ ∃ u, next.rtCurrentThread = some u ∧ (next.thread u).currentPriority < (s.thread c).currentPriority := by
  cases scheduled with
  | idle => exact Or.inl current
  | stays => exact Or.inl current
  | @switches q first more _ _ front gives switched =>
    refine Or.inr ⟨first,switched.current,?_⟩
    rw [switched.taken]
    show (s.thread first).currentPriority < (s.thread c).currentPriority
    rw [(head_waiting sound front).2]
    apply Fin.not_le.mp
    intro notAbove
    rcases Fin.lt_or_eq_of_le notAbove with higher | same
    · exact gives ⟨running,Or.inl higher⟩
    · exact gives ⟨running,Or.inr ⟨same,noYield⟩⟩

theorem step_gives_way_up (orderly : Orderly s) (apart : Apart s a) (noYield : NoYield s) (unexpired : Unexpired s a) : GivesWayUp s a := by
  intro stays next c taken current running
  cases step_stepped orderly apart taken with
  | starts stopped =>
    rw [stopped] at current
    cases current
  | rests _ quiet => exact Or.inl (quiet.current.trans current)
  | schedules quiet current' kept scheduled =>
    cases current.symm.trans current'
    have same := kept unexpired stays running
    have noYield' := quiet.yields unexpired noYield
    rw [← same] at running ⊢
    exact scheduled_up quiet.orderly.toSound (quiet.current.trans current) running (noYield' _) scheduled

-- Until a slice is used up, no rt_thread_yield, nor anything else but its own exit, takes
-- the processor from a running thread for another of the same priority.
theorem yield_gives_way_up {priority : Thread → Priority} {tick : Thread → UInt32}
    (unexpired : Along step (fun s a => Apart s a ∧ Unexpired s a) (booted priority tick) actions) :
    Along step GivesWayUp (booted priority tick) actions := by
  have preserved : ∀ (s : Kernel Thread) a next, Orderly s ∧ NoYield s → Apart s a ∧ Unexpired s a → step s a = some next →
      Orderly next ∧ NoYield next := by
    intro s a next ⟨orderly,noYield⟩ ⟨apart,unexpired⟩ taken
    exact ⟨step_orderly s a next orderly apart taken,step_noYield orderly apart noYield unexpired taken⟩
  refine along_of_invariant preserved ?_ ⟨booted_orderly priority tick,fun _ => rfl⟩ unexpired
  exact fun _ _ valid allowed => step_gives_way_up valid.1 allowed.1 valid.2 allowed.2

-- Thread 2 gets the processor once its priority is the higher one.
theorem three_yields_give_way_up : Along step GivesWayUp threeBooted
    (threeStarted ++ [.schedule,.tick,.schedule,.call .suspend 2,.proceed,.timeout 2,.schedule,.changePriority 2 10,.schedule]) := by
  apply yield_gives_way_up
  decide +kernel

end Yield

end SssAlarmHost.Scheduler
