import SssAlarmHost.Scheduler

namespace SssAlarmHost.Scheduler
open PriorityQueues

variable {Thread : Type} [DecidableEq Thread] {s next : Kernel Thread} {c head : Thread} {p : Priority} {rest : List Thread}

-- The running thread goes on before a list of priority p.
def Keeps (s : Kernel Thread) (c : Thread) (p : Priority) : Prop :=
  (s.thread c).stat = .running ∧
    ((s.thread c).currentPriority < p ∨ (s.thread c).currentPriority = p ∧ (s.thread c).statYield = false)

def pausing (s : Kernel Thread) (c : Thread) : Kernel Thread :=
  if (s.thread c).stat = .running then s.modify c ({ · with statYield := false }) else s

theorem schedule_idle (idle : s.rtSchedulerLockNest ≠ 0 ∨ ∀ p, s.rtThreadPriorityTable p = []) (sound : Sound s) : rtSchedule s = some s := by
  rw [rtSchedule,if_neg]
  rintro ⟨open',some'⟩
  rcases idle with locked | empty
  · exact locked open'
  · exact some' (sound.queued.marked.zero_iff.mpr empty)

theorem schedule_head (sound : Sound s) (current : s.rtCurrentThread = some c) (open' : s.rtSchedulerLockNest = 0)
    (front : Head s p head rest) :
    Keeps s c p ∧ rtSchedule s = some s ∨
      ¬Keeps s c p ∧ rtSchedule s = some (switchTo (pausing s c) c head (decide ((s.thread c).stat = .running))) := by
  have some' : s.rtThreadReadyPriorityGroup ≠ 0 := by
    intro zero
    have empty := sound.queued.marked.zero_iff.mp zero p
    rw [front.first] at empty
    cases empty
  obtain ⟨q,head',rest',front',found⟩ := head_of_marked sound.queued.marked some'
  obtain ⟨rfl,rfl,rfl⟩ := front.unique front'
  have other := head_not_current sound current front
  rw [rtSchedule,if_pos ⟨open',some'⟩,found,current]
  simp only [Option.bind_some,Option.map_some,Fin.val_inj]
  by_cases running : (s.thread c).stat = .running
  · by_cases keeps : (s.thread c).currentPriority.val < p.val ∨ (s.thread c).currentPriority = p ∧ (s.thread c).statYield = false
    · refine Or.inl ⟨⟨running,keeps⟩,?_⟩
      have stays : rtScheduleRemoveThread s c = s :=
        remove_unlisted sound.queued (fun waits => (sound.standing c current).1 waits.1) (sound.masked c)
      have same : { s.thread c with stat := .running } = s.thread c := by rw [← running]
      simp only [running,keeps,decide_true,Bool.not_true,Bool.and_false,Bool.false_eq_true,and_self,if_true,if_false,ne_eq,not_true,stays]
      rw [modify_same s same]
    · refine Or.inr ⟨fun holds => keeps holds.2,?_⟩
      simp only [running,keeps,decide_true,decide_false,Bool.not_false,Bool.and_self,Bool.false_eq_true,and_false,if_true,if_false,pausing]
      rw [if_pos other]
  · refine Or.inr ⟨fun holds => running holds.1,?_⟩
    simp only [running,decide_false,Bool.false_and,Bool.false_eq_true,false_and,if_false,pausing]
    rw [if_pos other]

theorem pausing_thread (s : Kernel Thread) (c u : Thread) : (pausing s c).thread u =
    if u = c ∧ (s.thread c).stat = .running then { s.thread c with statYield := false } else s.thread u := by
  rw [pausing]
  by_cases running : (s.thread c).stat = .running
  · rw [if_pos running]
    by_cases mine : u = c
    · rw [if_pos ⟨mine,running⟩,mine,modify_thread_self]
    · rw [if_neg fun both => mine both.1,modify_thread_other s _ mine]
  · rw [if_neg running,if_neg fun both => running both.2]

theorem pausing_rest (s : Kernel Thread) (c : Thread) : (pausing s c).rtThreadPriorityTable = s.rtThreadPriorityTable ∧
    (pausing s c).rtSchedulerLockNest = s.rtSchedulerLockNest ∧ (pausing s c).calling = s.calling := by
  rw [pausing]
  split
  · exact ⟨rfl,rfl,rfl⟩
  · exact ⟨rfl,rfl,rfl⟩

-- A switch first puts the thread that was running at the end of the list of its own
-- priority.
def placing (s : Kernel Thread) (c head : Thread) : Kernel Thread :=
  let s' := { pausing s c with rtCurrentThread := some head }
  if (s.thread c).stat = .running then rtScheduleInsertThread s' c else s'

theorem placing_thread (s : Kernel Thread) {c head : Thread} (other : head ≠ c) (u : Thread) : (placing s c head).thread u =
    if u = c ∧ (s.thread c).stat = .running then { s.thread c with stat := .ready,statYield := false } else s.thread u := by
  have elsewhere : some head ≠ some c := fun same => other (Option.some.inj same)
  rw [placing]
  by_cases running : (s.thread c).stat = .running
  · rw [if_pos running]
    by_cases mine : u = c
    · rw [if_pos ⟨mine,running⟩,mine,insert_self,if_neg elsewhere]
      show { (pausing s c).thread c with stat := .ready } = _
      rw [pausing_thread,if_pos ⟨rfl,running⟩]
    · rw [if_neg fun both => mine both.1,insert_other _ mine]
      show (pausing s c).thread u = _
      rw [pausing_thread,if_neg fun both => mine both.1]
  · rw [if_neg running]
    show (pausing s c).thread u = _
    rw [pausing_thread,if_neg fun both => running both.2,if_neg fun both => running both.2]

theorem placing_table (s : Kernel Thread) {c head : Thread} (other : head ≠ c) (q : Priority) :
    (placing s c head).rtThreadPriorityTable q =
      if (s.thread c).stat = .running ∧ (s.thread c).currentPriority = q then s.rtThreadPriorityTable q ++ [c]
      else s.rtThreadPriorityTable q := by
  have elsewhere : some head ≠ some c := fun same => other (Option.some.inj same)
  rw [placing]
  by_cases running : (s.thread c).stat = .running
  · rw [if_pos running,rtScheduleInsertThread,if_neg elsewhere]
    let s' := { pausing s c with rtCurrentThread := some head }.modify c ({ · with stat := .ready })
    have same : (s'.thread c).currentPriority = (s.thread c).currentPriority := by
      rw [modify_thread_self]
      show ((pausing s c).thread c).currentPriority = _
      rw [pausing_thread,if_pos ⟨rfl,running⟩]
    show Function.update (pausing s c).rtThreadPriorityTable (s'.thread c).currentPriority
      ((pausing s c).rtThreadPriorityTable (s'.thread c).currentPriority ++ [c]) q = _
    rw [same,(pausing_rest s c).1]
    by_cases here : (s.thread c).currentPriority = q
    · rw [if_pos ⟨running,here⟩,here,Function.update_self]
    · rw [if_neg fun both => here both.2,Function.update_of_ne (Ne.symm here)]
  · rw [if_neg running,if_neg fun both => running both.1]
    exact congrFun (pausing_rest s c).1 q

theorem placing_rest (s : Kernel Thread) (c head : Thread) : (placing s c head).rtCurrentThread = some head ∧
    (placing s c head).rtSchedulerLockNest = s.rtSchedulerLockNest ∧ (placing s c head).calling = s.calling := by
  obtain ⟨_,lockNest,calling⟩ := pausing_rest s c
  rw [placing]
  split
  · refine ⟨insert_current _ c,?_,(insert_calling _ c).trans calling⟩
    rw [rtScheduleInsertThread]
    split
    · exact lockNest
    · exact lockNest
  · exact ⟨rfl,lockNest,calling⟩

theorem placing_queued (sound : Sound s) (current : s.rtCurrentThread = some c) (other : head ≠ c) :
    Queued (placing s c head) (Waiting (placing s c head)) := by
  have elsewhere : some head ≠ some c := fun same => other (Option.some.inj same)
  have idle : ¬Waiting s c := fun waits => (sound.standing c current).1 waits.1
  have paused : Queued { pausing s c with rtCurrentThread := some head } (Waiting s) := by
    have queued : Queued (pausing s c) (Waiting s) := by
      rw [pausing]
      split
      · exact sound.queued.modify (Or.inl rfl)
      · exact sound.queued
    exact ⟨queued.marked,queued.listed,queued.nodup⟩
  have closing : ∀ u, Closing (placing s c head) u ↔ Closing s u := closing_congr (placing_rest s c head).2.2
  by_cases running : (s.thread c).stat = .running
  · have placed : placing s c head = rtScheduleInsertThread { pausing s c with rtCurrentThread := some head } c := if_pos running
    have bitOf : ((pausing s c).thread c).numberMask = bit ((pausing s c).thread c).currentPriority := by
      rw [pausing_thread,if_pos ⟨rfl,running⟩]
      exact (sound.masked c).of_stat (by rw [running]; decide)
    have inserted := paused.insert idle bitOf elsewhere
    rw [← placed] at inserted
    apply inserted.congr
    intro u
    rw [Waiting,Waiting,closing,placing_thread s other]
    by_cases mine : u = c
    · rw [mine,if_pos ⟨rfl,running⟩]
      exact ⟨fun _ => ⟨rfl,fun shut => sound.closed c shut current⟩,fun _ => Or.inr rfl⟩
    · rw [if_neg fun both => mine both.1]
      exact ⟨fun listed => listed.resolve_right mine,Or.inl⟩
  · have placed : placing s c head = { pausing s c with rtCurrentThread := some head } := if_neg running
    rw [← placed] at paused
    apply paused.congr
    intro u
    rw [Waiting,Waiting,closing,placing_thread s other,if_neg fun both => running both.2]

-- Then it takes the head from its list.
structure Switched (s : Kernel Thread) (c head : Thread) (next : Kernel Thread) : Prop where
  current : next.rtCurrentThread = some head
  lockNest : next.rtSchedulerLockNest = s.rtSchedulerLockNest
  calling : next.calling = s.calling
  taken : next.thread head = { s.thread head with stat := .running }
  left : next.thread c = if (s.thread c).stat = .running then { s.thread c with stat := .ready,statYield := false } else s.thread c
  others : ∀ u, u ≠ c → u ≠ head → next.thread u = s.thread u
  table : ∀ q, next.rtThreadPriorityTable q =
    (if (s.thread c).stat = .running ∧ (s.thread c).currentPriority = q then s.rtThreadPriorityTable q ++ [c]
      else s.rtThreadPriorityTable q).erase head
  queued : Queued next (Waiting next)

theorem switch_switched (sound : Sound s) (current : s.rtCurrentThread = some c) (front : Head s p head rest) :
    Switched s c head (switchTo (pausing s c) c head (decide ((s.thread c).stat = .running))) := by
  have other := head_not_current sound current front
  have waits := (head_waiting sound front).1
  have placed : switchTo (pausing s c) c head (decide ((s.thread c).stat = .running)) =
      (rtScheduleRemoveThread (placing s c head) head).modify head ({ · with stat := .running }) := by
    simp only [switchTo,placing,decide_eq_true_eq]
  have same : (placing s c head).thread head = s.thread head := by rw [placing_thread s other,if_neg fun both => other both.1]
  rw [placed]
  constructor
  case current => exact (placing_rest s c head).1
  case lockNest => exact (placing_rest s c head).2.1
  case calling => exact (placing_rest s c head).2.2
  case taken =>
    rw [modify_thread_self]
    exact congrArg (fun thread : RtThread => { thread with stat := .running }) same
  case left =>
    rw [modify_thread_other _ _ (Ne.symm other)]
    refine (placing_thread s other c).trans ?_
    simp only [true_and]
  case others =>
    intro u away off
    rw [modify_thread_other _ _ off]
    exact (placing_thread s other u).trans (if_neg fun both => away both.1)
  case table => exact fun q => congrArg (·.erase head) (placing_table s other q)
  case queued =>
    have queued := placing_queued sound current other
    have bitOf : ((placing s c head).thread head).numberMask = bit ((placing s c head).thread head).currentPriority := by
      rw [same]
      exact (sound.masked head).of_stat (by rw [waits.1]; decide)
    refine ((queued.remove bitOf).modify (Or.inl rfl)).congr ?_
    intro u
    by_cases mine : u = head
    · rw [mine]
      refine ⟨fun both => absurd rfl both.2,fun waits => absurd waits ?_⟩
      exact idle_of_stat (congrArg RtThread.stat (modify_thread_self _ head _)) (by decide : Stat.running ≠ .ready)
    · rw [Waiting,Waiting,modify_thread_other _ _ mine]
      exact and_iff_left mine

theorem switched_sound (sound : Sound s) (current : s.rtCurrentThread = some c) (waits : Waiting s head)
    (switched : Switched s c head next) : Sound next := by
  have leaves : (next.thread c).stat ≠ .running ∧ Masked (next.thread c) := by
    rw [switched.left]
    split
    case isTrue running => exact ⟨(by decide : Stat.ready ≠ .running),Or.inl ((sound.masked c).of_stat (by rw [running]; decide))⟩
    case isFalse running => exact ⟨running,sound.masked c⟩
  constructor
  case queued => exact switched.queued
  case masked =>
    intro u
    by_cases mine : u = head
    · rw [mine,switched.taken]
      exact Or.inl ((sound.masked head).of_stat (by rw [waits.1]; decide))
    · by_cases was : u = c
      · rw [was]
        exact leaves.2
      · rw [switched.others u was mine]
        exact sound.masked u
  case runs =>
    intro u running
    by_cases mine : u = head
    · rw [mine]
      exact switched.current
    · by_cases was : u = c
      · rw [was] at running
        exact absurd running leaves.1
      · rw [switched.others u was mine] at running
        rw [sound.runs u running] at current
        exact absurd (Option.some.inj current) was
  case standing =>
    intro u mine
    rw [switched.current] at mine
    rw [← Option.some.inj mine,switched.taken]
    exact ⟨(by decide : Stat.running ≠ .ready),(by decide : Stat.running ≠ .init)⟩
  case closed =>
    intro u shut mine
    rw [switched.current] at mine
    rw [closing_congr switched.calling,← Option.some.inj mine] at shut
    exact waits.2 shut

-- The ways rt_schedule ends.
inductive Scheduled (s : Kernel Thread) (c : Thread) : Kernel Thread → Prop where
  | idle (none' : s.rtSchedulerLockNest ≠ 0 ∨ ∀ p, s.rtThreadPriorityTable p = []) : Scheduled s c s
  | stays {p : Priority} {head : Thread} {rest : List Thread} (open' : s.rtSchedulerLockNest = 0) (front : Head s p head rest)
    (keeps : Keeps s c p) : Scheduled s c s
  | switches {p : Priority} {head : Thread} {rest : List Thread} {next : Kernel Thread} (open' : s.rtSchedulerLockNest = 0)
    (front : Head s p head rest) (gives : ¬Keeps s c p) (switched : Switched s c head next) : Scheduled s c next

theorem schedule_scheduled (sound : Sound s) (current : s.rtCurrentThread = some c) : ∃ next, rtSchedule s = some next ∧ Scheduled s c next := by
  by_cases idle : s.rtSchedulerLockNest ≠ 0 ∨ ∀ p, s.rtThreadPriorityTable p = []
  · exact ⟨s,schedule_idle idle sound,.idle idle⟩
  · have open' : s.rtSchedulerLockNest = 0 := by
      by_contra locked
      exact idle (Or.inl locked)
    have some' : s.rtThreadReadyPriorityGroup ≠ 0 := fun zero => idle (Or.inr (sound.queued.marked.zero_iff.mp zero))
    obtain ⟨p,head,rest,front,_⟩ := head_of_marked sound.queued.marked some'
    rcases schedule_head sound current open' front with ⟨keeps,taken⟩ | ⟨gives,taken⟩
    · exact ⟨s,taken,.stays open' front keeps⟩
    · exact ⟨_,taken,.switches open' front gives (switch_switched sound current front)⟩

theorem scheduled_of_schedule (sound : Sound s) (current : s.rtCurrentThread = some c) (taken : rtSchedule s = some next) :
    Scheduled s c next := by
  obtain ⟨_,taken',scheduled⟩ := schedule_scheduled sound current
  cases taken.symm.trans taken'
  exact scheduled

theorem scheduled_sound (sound : Sound s) (current : s.rtCurrentThread = some c) (scheduled : Scheduled s c next) : Sound next := by
  cases scheduled with
  | idle => exact sound
  | stays => exact sound
  | switches _ front _ switched => exact switched_sound sound current (head_waiting sound front).1 switched

-- What rt_system_scheduler_start does.
structure Started (s : Kernel Thread) (head : Thread) (next : Kernel Thread) : Prop where
  current : next.rtCurrentThread = some head
  calling : next.calling = s.calling
  taken : next.thread head = { s.thread head with stat := .running,statYield := false }
  others : ∀ u, u ≠ head → next.thread u = s.thread u
  table : ∀ q, next.rtThreadPriorityTable q = (s.rtThreadPriorityTable q).erase head
  queued : Queued next (Waiting next)

theorem start_started (sound : Sound s) (some' : s.rtThreadReadyPriorityGroup ≠ 0) (taken : rtSystemSchedulerStart s = some next) :
    ∃ p head rest, Head s p head rest ∧ Started s head next := by
  obtain ⟨p,head,rest,front,found⟩ := head_of_marked sound.queued.marked some'
  rw [rtSystemSchedulerStart,found] at taken
  cases taken
  refine ⟨p,head,rest,front,rfl,rfl,modify_thread_self _ head _,fun u other => modify_thread_other _ _ other,fun _ => rfl,?_⟩
  have bitOf := (sound.masked head).of_stat (by rw [(head_waiting sound front).1.1]; decide)
  have queued : Queued { s with rtCurrentThread := some head } (Waiting s) :=
    ⟨sound.queued.marked,sound.queued.listed,sound.queued.nodup⟩
  refine ((queued.remove bitOf).modify (Or.inl rfl)).congr ?_
  intro u
  by_cases mine : u = head
  · rw [mine]
    refine ⟨fun both => absurd rfl both.2,fun waits => absurd waits ?_⟩
    exact idle_of_stat (congrArg RtThread.stat (modify_thread_self _ head _)) (by decide : Stat.running ≠ .ready)
  · rw [Waiting,Waiting,modify_thread_other _ _ mine]
    exact and_iff_left mine

theorem started_sound (sound : Sound s) (stopped : s.rtCurrentThread = none) (front : Head s p head rest) (started : Started s head next) :
    Sound next := by
  constructor
  case queued => exact started.queued
  case masked =>
    intro u
    by_cases mine : u = head
    · rw [mine,started.taken]
      exact Or.inl ((sound.masked head).of_stat (by rw [(head_waiting sound front).1.1]; decide))
    · rw [started.others u mine]
      exact sound.masked u
  case runs =>
    intro u running
    by_cases mine : u = head
    · rw [mine]
      exact started.current
    · rw [started.others u mine] at running
      exact absurd (sound.runs u running) (by rw [stopped]; exact fun none' => (by cases none'))
  case standing =>
    intro u mine
    rw [started.current] at mine
    rw [← Option.some.inj mine,started.taken]
    exact ⟨(by decide : Stat.running ≠ .ready),(by decide : Stat.running ≠ .init)⟩
  case closed =>
    intro u shut mine
    rw [started.current] at mine
    rw [closing_congr started.calling,← Option.some.inj mine] at shut
    exact (head_waiting sound front).1.2 shut

theorem ticked_sound (sound : Sound s) (current : s.rtCurrentThread = some c) {f} (stat : (f (s.thread c)).stat = (s.thread c).stat)
    (masked : Masked (f (s.thread c))) : Sound (s.modify c f) := by
  have open' : ¬Closing s c := fun shut => sound.closed c shut current
  refine modify_sound sound open' (sound.standing c current).1 masked ?_ (fun _ => current) ?_
  · rw [stat]
    exact (sound.standing c current).1
  · intro _
    rw [stat]
    exact (sound.standing c current).2

end SssAlarmHost.Scheduler
