import SssAlarmHost.Timer

namespace SssAlarmHost.Timer
open CyclicTime MachineRuns

-- underway is where the call of a thread on a timer stands that has parts left; calls
-- counts the timeout functions called since the start.
structure Clock (Timer : Type) where
  timers : Timers Timer
  underway : Timer → Option Part
  calls : Timer → Nat

-- A tick comes with the calls that each timeout function makes if it is called.
inductive Action (Timer : Type) where
  | call (c : Call Timer)
  | proceed (t : Timer)
  | tick (timeoutFunc : Timer → List (Call Timer))

section States
variable {Timer : Type} {s next : Clock Timer} {t u : Timer}

-- After rt_system_timer_init, at any tick, with the timers that will be started.
def initial (rtTick : Tick) (time : Timer → Tick) (periodic : Timer → Bool) : Clock Timer :=
  ⟨⟨fun t => ⟨time t,0,periodic t,false⟩,[],rtTick⟩,fun _ => none,fun _ => 0⟩

theorem initial_timely (rtTick : Tick) {time : Timer → Tick} (periodic : Timer → Bool) (timed : ∀ t, Timed (time t)) :
    Timely (initial rtTick time periodic).timers :=
  ⟨⟨List.nodup_nil,fun _ there => (by cases there),List.Pairwise.nil,timed⟩,fun _ there => (by cases there)⟩

def bumped (s : Timers Timer) : Timers Timer := { s with rtTick := s.rtTick + 1 }

theorem bumped_remaining {s : Timers Timer} (future : 0 < remaining s t) : remaining (bumped s) t = remaining s t - 1 := ahead_succ future

theorem bumped_ordered {s : Timers Timer} (timely : Timely s) : Ordered (bumped s) where
  nodup := timely.nodup
  near t there := by
    rw [bumped_remaining (timely.future t there)]
    exact Nat.lt_of_le_of_lt (Nat.sub_le _ _) (timely.near t there)
  sorted := timely.sorted.imp_of_mem fun {t u} first second le => by
    rw [bumped_remaining (timely.future t first),bumped_remaining (timely.future u second)]
    exact Nat.sub_le_sub_right le 1
  timed := timely.timed

-- rt_timer_next_timeout_tick tells the timeout of a timer that has the least time left.
structure Earliest (s : Timers Timer) : Prop where
  none' : s.rtTimerList = [] → rtTimerNextTimeoutTick s = tickMax
  first : s.rtTimerList ≠ [] → ∃ t ∈ s.rtTimerList,
    rtTimerNextTimeoutTick s = (s.timer t).timeoutTick ∧ ∀ u ∈ s.rtTimerList, remaining s t ≤ remaining s u

theorem ordered_earliest {s : Timers Timer} (ordered : Ordered s) : Earliest s := by
  have sorted := ordered.sorted
  cases list : s.rtTimerList with
  | nil => exact ⟨fun _ => by rw [rtTimerNextTimeoutTick,list],fun some' => absurd list some'⟩
  | cons first rest =>
    have next : rtTimerNextTimeoutTick s = (s.timer first).timeoutTick := by rw [rtTimerNextTimeoutTick,list]
    rw [list] at sorted
    refine ⟨fun none' => absurd (list.symm.trans none') (List.cons_ne_nil first rest),fun _ => ?_⟩
    refine ⟨first,by rw [list]; exact List.mem_cons_self,next,?_⟩
    intro u there
    rw [list] at there
    rcases List.mem_cons.mp there with same | behind
    · exact Nat.le_of_eq (congrArg (remaining s) same.symm)
    · exact (List.pairwise_cons.mp sorted).1 u behind

theorem Performed.timely {s next : Timers Timer} (performed : Performed t s next) (timely : Timely s) : Timely next := by
  refine ⟨performed.ordered,?_⟩
  intro u there
  apply Nat.pos_of_ne_zero
  intro zero
  have due := performed.passed.due u ⟨there,zero⟩
  exact absurd due.2 (Nat.pos_iff_ne_zero.mp (timely.future u due.1))

-- While a call on a timer is under way no other one is made on it, and an insertion comes
-- before the time is over that was computed for it.
def Allowed (s : Clock Timer) : Action Timer → Prop
  | .call c => c.allowed ∧ s.underway c.target = none
  | .proceed t => ∀ part, s.underway t = some part → InTime s.timers t part
  | .tick timeoutFunc => ∀ v, ∀ c ∈ timeoutFunc v, c.allowed ∧ s.underway c.target = none

structure Valid (s : Clock Timer) : Prop where
  timely : Timely s.timers
  away : ∀ t part, s.underway t = some part → part.starts = true → t ∉ s.timers.rtTimerList

-- What a part of a call on timer t does.
structure Moved (t : Timer) (s next : Clock Timer) : Prop where
  valid : Valid next
  performed : Performed t s.timers next.timers
  calls : next.calls = s.calls
  underway : ∀ u, u ≠ t → next.underway u = s.underway u

theorem initial_valid (rtTick : Tick) {time : Timer → Tick} (periodic : Timer → Bool) (timed : ∀ t, Timed (time t)) :
    Valid (initial rtTick time periodic) := ⟨initial_timely rtTick periodic timed,fun _ _ going => (by cases going)⟩

-- A timer times out when the tick comes to its timeout.
def TimesOut (s : Clock Timer) (t : Timer) : Action Timer → Prop
  | .tick _ => t ∈ s.timers.rtTimerList ∧ (s.timers.timer t).timeoutTick = s.timers.rtTick + 1
  | _ => False

-- No function of another timer touches it in that tick.
def Undisturbed (t : Timer) : Action Timer → Prop
  | .tick timeoutFunc => Sparing timeoutFunc t
  | _ => True

-- Nothing is left overdue, rt_timer_next_timeout_tick tells the first timeout, and the
-- timeout functions that are called are those of the timers that time out, each once.
structure Punctual (s : Clock Timer) (a : Action Timer) (next : Clock Timer) : Prop where
  timely : Timely next.timers
  earliest : Earliest next.timers
  called : ∀ t, next.calls t = s.calls t ∨ TimesOut s t a ∧ next.calls t = s.calls t + 1
  fires : ∀ t, TimesOut s t a → Undisturbed t a → next.calls t = s.calls t + 1

def Possible (s : Clock Timer) : Action Timer → Prop
  | .proceed t => s.underway t ≠ none
  | _ => True

theorem Moved.punctual (moved : Moved t s next) {a : Action Timer} (never : ∀ u, ¬TimesOut s u a) : Punctual s a next :=
  ⟨moved.valid.timely,ordered_earliest moved.valid.timely.toOrdered,fun u => Or.inl (congrFun moved.calls u),
    fun u now => absurd now (never u)⟩

theorem timesOut_due {timeoutFunc : Timer → List (Call Timer)} : TimesOut s t (.tick timeoutFunc) ↔ Due (bumped s.timers) t := by
  rw [TimesOut,Due,remaining,ahead_zero]
  rfl

-- Neither threads nor timeout functions touch timer t.
def LeavesAlone (t : Timer) : Action Timer → Prop
  | .call c => c.target ≠ t
  | .proceed u => u ≠ t
  | .tick timeoutFunc => ∀ v, ∀ c ∈ timeoutFunc v, c.target ≠ t

def elapses : Action Timer → Nat
  | .tick _ => 1
  | _ => 0

def ticks : List (Action Timer) → Nat
  | [] => 0
  | a :: rest => ticks rest + elapses a

theorem elapses_le (a : Action Timer) : elapses a ≤ 1 := by
  cases a with
  | call c => exact Nat.zero_le 1
  | proceed t => exact Nat.zero_le 1
  | tick timeoutFunc => exact Nat.le_refl 1

-- What an action does to a timer that it leaves alone and that does not time out.
structure Waits (t : Timer) (a : Action Timer) (s next : Clock Timer) : Prop where
  valid : Valid next
  same : Same t s.timers next.timers
  underway : next.underway t = s.underway t
  left : 0 < remaining s.timers t → remaining next.timers t = remaining s.timers t - elapses a
  calls : next.calls t = s.calls t

theorem Moved.waits (moved : Moved u s next) (other : t ≠ u) {a : Action Timer} (part : elapses a = 0) : Waits t a s next := by
  refine ⟨moved.valid,moved.performed.spares.same other,moved.underway t other,fun _ => ?_,congrFun moved.calls t⟩
  rw [part]
  exact moved.performed.spares.remaining other

theorem timesOut_left (timeoutFunc : Timer → List (Call Timer)) (valid : Valid s) (listed : t ∈ s.timers.rtTimerList) :
    TimesOut s t (.tick timeoutFunc) ↔ remaining s.timers t = 1 := by
  have future := valid.timely.future t listed
  have left := bumped_remaining future
  rw [timesOut_due,Due,left]
  constructor
  · intro due
    have zero := due.2
    omega
  · intro last
    exact ⟨listed,by rw [last]⟩

-- A timer in the list for which no call is under way: its flags, its time n, the ticks left
-- and the calls of its function. A one-shot timer need not be activated.
structure Counting (t : Timer) (periodic activated : Bool) (n left calls : Nat) (s : Clock Timer) : Prop where
  valid : Valid s
  resting : s.underway t = none
  listed : t ∈ s.timers.rtTimerList
  flags : (s.timers.timer t).periodic = periodic ∧ (s.timers.timer t).activated = activated
  time : (s.timers.timer t).initTick.toNat = n
  left : remaining s.timers t = left
  calls : s.calls t = calls

-- A one-shot timer afterwards.
structure Done (t : Timer) (calls : Nat) (s : Clock Timer) : Prop where
  valid : Valid s
  resting : s.underway t = none
  unlisted : t ∉ s.timers.rtTimerList
  idle : (s.timers.timer t).activated = false
  calls : s.calls t = calls

theorem Counting.future {periodic activated : Bool} {n left calls : Nat} (counting : Counting t periodic activated n left calls s) : 0 < left := by
  rw [← counting.left]
  exact counting.valid.timely.future t counting.listed

end States

section Machine
variable {Timer : Type} [DecidableEq Timer] {s next after : Clock Timer} {t u : Timer} {actions : List (Action Timer)}

def step (s : Clock Timer) : Action Timer → Option (Clock Timer)
  | .call c =>
    let first := firstPart s.timers c
    some { s with timers := first.1,underway := Function.update s.underway c.target first.2 }
  | .proceed t =>
    (s.underway t).bind fun part => (nextPart s.timers t part).map fun next =>
      { s with timers := next.1,underway := Function.update s.underway t next.2 }
  | .tick timeoutFunc =>
    (tickIncrease s.timers timeoutFunc (s.timers.rtTimerList.length + 1)).map
      fun (timers,fired) => { s with timers := timers,calls := fun t => s.calls t + fired.count t }

theorem call_moved (valid : Valid s) {c : Call Timer} (allowed : c.allowed) :
    ∃ next, step s (.call c) = some next ∧ Moved c.target s next := by
  have performed := firstPart_performed valid.timely.toOrdered c allowed
  have kept : ∀ u, u ≠ c.target → Function.update s.underway c.target (firstPart s.timers c).2 u = s.underway u :=
    fun u other => Function.update_of_ne other _ _
  refine ⟨_,rfl,⟨performed.timely valid.timely,?_⟩,performed,rfl,kept⟩
  intro u part going starts
  dsimp only at going ⊢
  by_cases mine : u = c.target
  · rw [mine,Function.update_self] at going
    rw [mine]
    cases c with
    | start t => exact startRemove_unlisted valid.timely.toOrdered t
    | stop t =>
      change (if (s.timers.timer t).activated = false then none else some Part.removing) = some part at going
      split at going
      · cases going
      · cases going
        cases starts
    | setTime t time => cases going
    | setOneshot t =>
      cases going
      cases starts
    | setPeriodic t =>
      cases going
      cases starts
  · rw [kept u mine] at going
    exact fun there => valid.away u part going starts ((performed.spares.listed u mine).mp there)

theorem proceed_moved (valid : Valid s) {part : Part} (going : s.underway t = some part) (inTime : InTime s.timers t part) :
    ∃ next, step s (.proceed t) = some next ∧ Moved t s next := by
  obtain ⟨timers,more,taken,performed,away⟩ := nextPart_performed valid.timely.toOrdered (valid.away t part going) inTime
  have kept : ∀ u, u ≠ t → Function.update s.underway t more u = s.underway u := fun u other => Function.update_of_ne other _ _
  refine ⟨{ s with timers := timers,underway := Function.update s.underway t more },?_,⟨performed.timely valid.timely,?_⟩,performed,
    rfl,kept⟩
  · rw [step,going,Option.bind_some,taken]
    rfl
  · intro u part' going' starts
    dsimp only at going' ⊢
    by_cases mine : u = t
    · rw [mine,Function.update_self] at going'
      rw [mine]
      exact away part' going' starts
    · rw [kept u mine] at going'
      exact fun there => valid.away u part' going' starts ((performed.spares.listed u mine).mp there)

theorem tick_checked {timeoutFunc : Timer → List (Call Timer)} (valid : Valid s) (allowed : Allowed s (.tick timeoutFunc)) :
    ∃ timers fired, step s (.tick timeoutFunc) = some { s with timers := timers,calls := fun t => s.calls t + fired.count t } ∧
      Checked timeoutFunc (bumped s.timers) timers fired := by
  have enough : (bumped s.timers).rtTimerList.length < s.timers.rtTimerList.length + 1 := Nat.lt_succ_self _
  have calls : ∀ t, ∀ c ∈ timeoutFunc t, c.allowed := fun t c there => (allowed t c there).1
  obtain ⟨timers,fired,taken,checked⟩ := check_checked (bumped_ordered valid.timely) calls (fun u due => due.1) enough
  refine ⟨timers,fired,?_,checked⟩
  rw [step,tickIncrease]
  exact congrArg (Option.map _) taken

theorem tick_valid {timeoutFunc : Timer → List (Call Timer)} (valid : Valid s) (allowed : Allowed s (.tick timeoutFunc))
    {timers : Timers Timer} {fired : List Timer} (checked : Checked timeoutFunc (bumped s.timers) timers fired) (calls : Timer → Nat) :
    Valid { s with timers := timers,calls := calls } := by
  refine ⟨checked.timely,?_⟩
  intro u part going starts
  have unlisted := valid.away u part going starts
  have sparing : Sparing timeoutFunc u := by
    intro v _ c there same
    have free := (allowed v c there).2
    rw [same,going] at free
    cases free
  have same := checked.waits u sparing fun due => unlisted due.1
  exact fun there => unlisted (same.2.mp there)

def OnTime (s : Clock Timer) (a : Action Timer) : Prop := Possible s a → ∃ next, step s a = some next ∧ Punctual s a next

theorem step_on_time (valid : Valid s) {a : Action Timer} (allowed : Allowed s a) : OnTime s a := by
  intro possible
  cases a with
  | call c =>
    obtain ⟨next,taken,moved⟩ := call_moved valid allowed.1
    exact ⟨next,taken,moved.punctual fun _ => id⟩
  | proceed t =>
    obtain ⟨part,going⟩ := Option.ne_none_iff_exists'.mp possible
    obtain ⟨next,taken,moved⟩ := proceed_moved valid going (allowed part going)
    exact ⟨next,taken,moved.punctual fun _ => id⟩
  | tick timeoutFunc =>
    obtain ⟨timers,fired,taken,checked⟩ := tick_checked valid allowed
    have once : ∀ t, t ∈ fired → s.calls t + fired.count t = s.calls t + 1 :=
      fun t there => congrArg (s.calls t + ·) (List.count_eq_one_of_mem checked.nodup there)
    refine ⟨_,taken,checked.timely,ordered_earliest checked.timely.toOrdered,?_,?_⟩
    · intro t
      by_cases there : t ∈ fired
      · exact Or.inr ⟨timesOut_due.mpr (checked.onTime t there),once t there⟩
      · exact Or.inl (congrArg (s.calls t + ·) (List.count_eq_zero.mpr there))
    · intro t now sparing
      exact once t (checked.fires t sparing (timesOut_due.mp now)).1

theorem step_valid (valid : Valid s) {a : Action Timer} (allowed : Allowed s a) (taken : step s a = some next) : Valid next := by
  cases a with
  | call c =>
    obtain ⟨next',taken',moved⟩ := call_moved valid allowed.1
    cases taken.symm.trans taken'
    exact moved.valid
  | proceed t =>
    obtain ⟨part,going,_⟩ := Option.bind_eq_some_iff.mp taken
    obtain ⟨next',taken',moved⟩ := proceed_moved valid going (allowed part going)
    cases taken.symm.trans taken'
    exact moved.valid
  | tick timeoutFunc =>
    obtain ⟨timers,fired,taken',checked⟩ := tick_checked valid allowed
    cases taken.symm.trans taken'
    exact tick_valid valid allowed checked _

-- Every timeout comes at its tick, wherever the tick starts and however often it wraps.
theorem timers_on_time {rtTick : Tick} {time : Timer → Tick} {periodic : Timer → Bool} (timed : ∀ t, Timed (time t))
    (allowed : Along step Allowed (initial rtTick time periodic) actions) : Along step OnTime (initial rtTick time periodic) actions := by
  have preserved : ∀ (s : Clock Timer) a next, Valid s → Allowed s a → step s a = some next → Valid next :=
    fun _ _ _ valid allowed taken => step_valid valid allowed taken
  exact along_of_invariant preserved (fun _ _ valid allowed => step_on_time valid allowed) (initial_valid rtTick periodic timed) allowed

-- Two timers of three ticks, one of them periodic, shortly before the tick wraps.
def nearWrap : Clock Bool := initial 0xfffffffe (fun _ => 3) id
def noCalls (_ : Bool) : List (Call Bool) := []

theorem nearWrap_timed : ∀ t : Bool, Timed ((fun _ => 3) t) := fun _ => (by decide : Timed 3)

instance (c : Call Bool) : Decidable c.allowed := by
  unfold Call.allowed
  split <;> infer_instance

instance (s : Clock Bool) : ∀ a, Decidable (Allowed s a)
  | .call c => inferInstanceAs (Decidable (c.allowed ∧ s.underway c.target = none))
  | .proceed t =>
    match going : s.underway t with
    | none => isTrue fun part other => (by rw [going] at other; cases other)
    | some part => decidable_of_iff (part = .inserting → 0 < remaining s.timers t ∧ remaining s.timers t < half)
        ⟨fun inTime part' same => by cases going.symm.trans same; exact inTime,fun all => all part going⟩
  | .tick timeoutFunc => inferInstanceAs (Decidable (∀ v, ∀ c ∈ timeoutFunc v, c.allowed ∧ s.underway c.target = none))

-- A tick comes between the parts of both starts.
def twoStarts : List (Action Bool) :=
  [.call (.start true),.proceed true,.tick noCalls,.proceed true,.call (.start false),.tick noCalls,.proceed false,.proceed false,
    .tick noCalls,.tick noCalls,.tick noCalls]

theorem nearWrap_on_time : Along step OnTime nearWrap twoStarts := by
  apply timers_on_time nearWrap_timed
  exact (by decide +kernel : Along step Allowed nearWrap twoStarts)

theorem run_valid {rtTick : Tick} {time : Timer → Tick} {periodic : Timer → Bool} (timed : ∀ t, Timed (time t))
    (allowed : Along step Allowed (initial rtTick time periodic) actions) (ran : run step (initial rtTick time periodic) actions = some s) :
    Valid s := by
  have preserved : ∀ (s : Clock Timer) a next, Valid s → Allowed s a → step s a = some next → Valid next :=
    fun _ _ _ valid allowed taken => step_valid valid allowed taken
  exact along_invariant preserved (initial_valid rtTick periodic timed) allowed ran

theorem alone_waits (valid : Valid s) {a : Action Timer} (allowed : Allowed s a) (alone : LeavesAlone t a) (quiet : ¬TimesOut s t a)
    (taken : step s a = some next) : Waits t a s next := by
  cases a with
  | call c =>
    obtain ⟨next',taken',moved⟩ := call_moved valid allowed.1
    cases taken.symm.trans taken'
    exact moved.waits (Ne.symm alone) rfl
  | proceed u =>
    obtain ⟨part,going,_⟩ := Option.bind_eq_some_iff.mp taken
    obtain ⟨next',taken',moved⟩ := proceed_moved valid going (allowed part going)
    cases taken.symm.trans taken'
    exact moved.waits (Ne.symm alone) rfl
  | tick timeoutFunc =>
    obtain ⟨timers,fired,taken',checked⟩ := tick_checked valid allowed
    cases taken.symm.trans taken'
    have waiting : ¬Due (bumped s.timers) t := fun due => quiet (timesOut_due.mpr due)
    have same := checked.waits t (fun v _ => alone v) waiting
    refine ⟨tick_valid valid allowed checked _,same,rfl,fun future => ?_,?_⟩
    · have left := bumped_remaining future
      rw [remaining,same.1,checked.tick]
      exact left
    · exact congrArg (s.calls t + ·) (List.count_eq_zero.mpr fun there => waiting (checked.onTime t there))

theorem tick_fires {timeoutFunc : Timer → List (Call Timer)} (valid : Valid s) (allowed : Allowed s (.tick timeoutFunc))
    (alone : LeavesAlone t (.tick timeoutFunc)) (now : TimesOut s t (.tick timeoutFunc)) (taken : step s (.tick timeoutFunc) = some next) :
    Valid next ∧ next.underway = s.underway ∧ next.timers.rtTick = s.timers.rtTick + 1 ∧
      Restarted t (bumped s.timers) next.timers ∧ next.calls t = s.calls t + 1 := by
  obtain ⟨timers,fired,taken',checked⟩ := tick_checked valid allowed
  cases taken.symm.trans taken'
  obtain ⟨there,before,middle,ordered,tick,same,round,kept⟩ := checked.fires t (fun v _ => alone v) (timesOut_due.mp now)
  have restarted := round_restarted ordered (fun c there => (allowed t c there).1) (alone t) round
  rw [Restarted,same.1,tick,← kept.1,← kept.2] at restarted
  exact ⟨tick_valid valid allowed checked _,rfl,checked.tick,restarted,
    congrArg (s.calls t + ·) (List.count_eq_one_of_mem checked.nodup there)⟩

section Counting
variable {periodic activated : Bool} {n left calls : Nat} {a : Action Timer}

theorem counting_waits (counting : Counting t periodic activated n left calls s) (allowed : Allowed s a) (alone : LeavesAlone t a)
    (more : elapses a = 1 → 1 < left) (taken : step s a = some next) :
    Counting t periodic activated n (left - elapses a) calls next := by
  have quiet : ¬TimesOut s t a := by
    intro now
    cases a with
    | call c => exact now
    | proceed u => exact now
    | tick timeoutFunc =>
      have last := (timesOut_left timeoutFunc counting.valid counting.listed).mp now
      have more' := more rfl
      rw [counting.left] at last
      omega
  have waits := alone_waits counting.valid allowed alone quiet taken
  refine ⟨waits.valid,waits.underway.trans counting.resting,waits.same.2.mpr counting.listed,?_,?_,?_,waits.calls.trans counting.calls⟩
  · rw [waits.same.1]
    exact counting.flags
  · rw [waits.same.1]
    exact counting.time
  · have positive := counting.future
    have left' := counting.left
    rw [← left'] at positive ⊢
    exact waits.left positive

-- With the last tick the function is called, and a periodic timer starts over.
theorem counting_fires {timeoutFunc : Timer → List (Call Timer)} (counting : Counting t periodic activated n 1 calls s)
    (allowed : Allowed s (.tick timeoutFunc)) (alone : LeavesAlone t (.tick timeoutFunc)) (taken : step s (.tick timeoutFunc) = some next) :
    if periodic = true ∧ activated = true then Counting t true true n n (calls + 1) next else Done t (calls + 1) next := by
  have now := (timesOut_left timeoutFunc counting.valid counting.listed).mpr counting.left
  obtain ⟨valid,underway,tick,restarted,calls'⟩ := tick_fires counting.valid allowed alone now taken
  have resting : next.underway t = none := by
    rw [underway]
    exact counting.resting
  have calls'' : next.calls t = calls + 1 := by rw [calls',counting.calls]
  have flags : ((bumped s.timers).timer t).periodic = periodic ∧ ((bumped s.timers).timer t).activated = activated := counting.flags
  rw [Restarted,flags.1,flags.2] at restarted
  split
  case isTrue again =>
    rw [if_pos again] at restarted
    obtain ⟨listed,timer⟩ := restarted
    refine ⟨valid,resting,listed,?_,?_,?_,calls''⟩
    · rw [timer]
      exact ⟨flags.1.trans again.1,flags.2.trans again.2⟩
    · rw [timer]
      exact counting.time
    · rw [remaining,timer,tick]
      exact (ahead_add _ _).trans counting.time
  case isFalse once =>
    rw [if_neg once] at restarted
    exact ⟨valid,resting,restarted.1,by rw [restarted.2],calls''⟩

-- Left alone, a periodic timer that is r ticks into a period has q periods behind it.
theorem periodic_run {first q r : Nat} (counting : Counting t true true n (n - r) (first + q) s) (within : r < n)
    (allowed : Along step Allowed s actions) (alone : ∀ a ∈ actions, LeavesAlone t a) (ran : run step s actions = some after) :
    ∃ q' r', q'*n + r' = q*n + r + ticks actions ∧ r' < n ∧ Counting t true true n (n - r') (first + q') after := by
  induction actions generalizing s q r with
  | nil =>
    cases ran
    exact ⟨q,r,rfl,within,counting⟩
  | cons a rest ih =>
    obtain ⟨next,taken,more⟩ := run_cons.mp ran
    have later : ∀ b ∈ rest, LeavesAlone t b := fun b there => alone b (List.mem_cons_of_mem a there)
    have here := alone a List.mem_cons_self
    rw [ticks]
    by_cases last : elapses a = 1 ∧ r + 1 = n
    · cases a with
      | call c => cases last.1
      | proceed u => cases last.1
      | tick timeoutFunc =>
        have one : n - r = 1 := by omega
        rw [one] at counting
        have fired := counting_fires counting allowed.1 here taken
        rw [if_pos ⟨rfl,rfl⟩] at fired
        obtain ⟨q',r',sum,within',counting'⟩ := ih (q := q + 1) (r := 0) fired (by omega) (allowed.2 next taken) later more
        refine ⟨q',r',?_,within',counting'⟩
        rw [Nat.succ_mul] at sum
        show q'*n + r' = q*n + r + (ticks rest + 1)
        omega
    · have waits := counting_waits counting allowed.1 here (fun tick => by omega) taken
      rw [Nat.sub_sub] at waits
      have within' : r + elapses a < n := by
        have one := elapses_le a
        omega
      obtain ⟨q',r',sum,within'',counting'⟩ := ih waits within' (allowed.2 next taken) later more
      exact ⟨q',r',by omega,within'',counting'⟩

-- A timer that is not activated is not stopped.
theorem stop_refused (resting : s.underway t = none) (idle : (s.timers.timer t).activated = false) : step s (.call (.stop t)) = some s := by
  have unchanged : Function.update s.underway t none = s.underway := by
    rw [← resting]
    exact Function.update_eq_self t s.underway
  rw [step,firstPart,if_pos idle]
  show some { s with underway := Function.update s.underway t none } = some s
  rw [unchanged]

-- Left alone, or only told to stop although it is not activated.
def LeavesGoing (t : Timer) (activated : Bool) (a : Action Timer) : Prop :=
  LeavesAlone t a ∨ activated = false ∧ a = .call (.stop t)

theorem done_step (done : Done t calls s) (allowed : Allowed s a) (going : LeavesGoing t activated a) (taken : step s a = some next) :
    Done t calls next := by
  rcases going with alone | ⟨_,stop⟩
  · have quiet : ¬TimesOut s t a := by
      intro now
      cases a with
      | call c => exact now
      | proceed u => exact now
      | tick timeoutFunc => exact done.unlisted now.1
    have waits := alone_waits done.valid allowed alone quiet taken
    refine ⟨waits.valid,waits.underway.trans done.resting,fun there => done.unlisted (waits.same.2.mp there),?_,waits.calls.trans done.calls⟩
    rw [waits.same.1]
    exact done.idle
  · rw [stop,stop_refused done.resting done.idle] at taken
    cases taken
    exact done

theorem pending_run (counting : Counting t false activated n left calls s) (allowed : Along step Allowed s actions)
    (going : ∀ a ∈ actions, LeavesGoing t activated a) (ran : run step s actions = some after) :
    ticks actions < left ∧ Counting t false activated n (left - ticks actions) calls after ∨ left ≤ ticks actions ∧ Done t (calls + 1) after := by
  induction actions generalizing s left with
  | nil =>
    cases ran
    exact Or.inl ⟨counting.future,counting⟩
  | cons a rest ih =>
    obtain ⟨next,taken,more⟩ := run_cons.mp ran
    have later : ∀ b ∈ rest, LeavesGoing t activated b := fun b there => going b (List.mem_cons_of_mem a there)
    have future := counting.future
    rw [ticks]
    rcases going a List.mem_cons_self with alone | ⟨idle,stop⟩
    · by_cases last : elapses a = 1 ∧ left = 1
      · cases a with
        | call c => cases last.1
        | proceed u => cases last.1
        | tick timeoutFunc =>
          rw [last.2] at counting
          have fired := counting_fires counting allowed.1 alone taken
          rw [if_neg (fun both => by cases both.1)] at fired
          have along : Along step (fun s b => Allowed s b ∧ LeavesGoing t activated b) next rest := along_and (allowed.2 next taken) later
          have done : Done t (calls + 1) after :=
            along_invariant (fun _ _ _ done here taken => done_step done here.1 here.2 taken) fired along more
          exact Or.inr ⟨by rw [last.2]; exact Nat.le_add_left 1 _,done⟩
      · have waits := counting_waits counting allowed.1 alone (fun tick => by omega) taken
        rcases ih waits (allowed.2 next taken) later more with ⟨few,still⟩ | ⟨enough,done⟩
        · refine Or.inl ⟨by omega,?_⟩
          rwa [Nat.sub_sub,Nat.add_comm (elapses a)] at still
        · exact Or.inr ⟨by omega,done⟩
    · have refused := stop_refused counting.resting (counting.flags.2.trans idle)
      rw [stop,refused] at taken
      cases taken
      rw [stop]
      show ticks rest < left ∧ Counting t false activated n (left - ticks rest) calls after ∨ left ≤ ticks rest ∧ Done t (calls + 1) after
      exact ih counting (allowed.2 s (by rw [stop]; exact refused)) later more

end Counting

-- A timer whose timeout is computed and that is not inserted yet.
structure Timing (t : Timer) (periodic : Bool) (n left calls : Nat) (s : Clock Timer) : Prop where
  valid : Valid s
  part : s.underway t = some .inserting
  periodic : (s.timers.timer t).periodic = periodic
  time : (s.timers.timer t).initTick.toNat = n
  left : remaining s.timers t = left
  calls : s.calls t = calls

theorem read_timing (valid : Valid s) (reading : s.underway t = some .reading) (taken : step s (.proceed t) = some next) :
    Timing t (s.timers.timer t).periodic (s.timers.timer t).initTick.toNat (s.timers.timer t).initTick.toNat (s.calls t) next := by
  obtain ⟨timers,computed,performed,_,timer⟩ := startTime_performed valid.timely.toOrdered (valid.away t .reading reading rfl)
  obtain ⟨next',taken',moved⟩ := proceed_moved valid reading (fun other => (by cases other))
  cases taken.symm.trans taken'
  rw [step,reading,Option.bind_some,nextPart,computed] at taken
  cases taken
  refine ⟨moved.valid,Function.update_self _ _ _,?_,?_,?_,rfl⟩
  · rw [timer]
  · rw [timer]
  · show ahead timers.rtTick (timers.timer t).timeoutTick = _
    rw [timer,performed.spares.tick]
    exact ahead_add _ _

theorem timing_run {periodic : Bool} {n left calls : Nat} (timing : Timing t periodic n left calls s) (allowed : Along step Allowed s actions)
    (alone : ∀ a ∈ actions, LeavesAlone t a) (soon : ticks actions < left) (ran : run step s actions = some after) :
    Timing t periodic n (left - ticks actions) calls after := by
  induction actions generalizing s left with
  | nil =>
    cases ran
    exact timing
  | cons a rest ih =>
    obtain ⟨next,taken,more⟩ := run_cons.mp ran
    rw [ticks] at soon ⊢
    have unlisted := timing.valid.away t .inserting timing.part rfl
    have quiet : ¬TimesOut s t a := by
      intro now
      cases a with
      | call c => exact now
      | proceed u => exact now
      | tick timeoutFunc => exact unlisted now.1
    have waits := alone_waits timing.valid allowed.1 (alone a List.mem_cons_self) quiet taken
    have left' := timing.left
    have timing' : Timing t periodic n (left - elapses a) calls next := by
      refine ⟨waits.valid,waits.underway.trans timing.part,?_,?_,?_,waits.calls.trans timing.calls⟩
      · rw [waits.same.1]
        exact timing.periodic
      · rw [waits.same.1]
        exact timing.time
      · rw [← left']
        exact waits.left (by omega)
    have rest' := ih timing' (allowed.2 next taken) (fun b there => alone b (List.mem_cons_of_mem a there)) (by omega) more
    rwa [Nat.sub_sub,Nat.add_comm (elapses a)] at rest'

theorem timing_inserted {periodic : Bool} {n left calls : Nat} (timing : Timing t periodic n left calls s) (within : 0 < left ∧ left ≤ n)
    (taken : step s (.proceed t) = some next) : Counting t periodic true n left calls next := by
  have near : remaining s.timers t < half := by
    have bound := (timing.valid.timely.timed t).2
    rw [timing.left]
    rw [timing.time] at bound
    exact Nat.lt_of_le_of_lt within.2 bound
  have inserted := startInsert_inserted timing.valid.timely.toOrdered (timing.valid.away t .inserting timing.part rfl) near
  obtain ⟨next',taken',moved⟩ := proceed_moved timing.valid timing.part (fun _ => ⟨by rw [timing.left]; exact within.1,near⟩)
  cases taken.symm.trans taken'
  rw [step,timing.part,Option.bind_some,nextPart] at taken
  cases taken
  refine ⟨moved.valid,Function.update_self _ _ _,inserted.listed,?_,?_,inserted.left.trans timing.left,timing.calls⟩
  · rw [inserted.timer]
    exact ⟨timing.periodic,rfl⟩
  · rw [inserted.timer]
    exact timing.time

-- rt_timer_start from where it reads the tick, with what happens before the insertion.
theorem started_counting (valid : Valid s) (reading : s.underway t = some .reading) {delay : List (Action Timer)}
    (alone : ∀ a ∈ delay, LeavesAlone t a) (soon : ticks delay < (s.timers.timer t).initTick.toNat)
    (allowed : Along step Allowed s (.proceed t :: delay ++ .proceed t :: actions))
    (ran : run step s (.proceed t :: delay ++ .proceed t :: actions) = some after) :
    ∃ middle, run step middle actions = some after ∧ Along step Allowed middle actions ∧
      Counting t (s.timers.timer t).periodic true (s.timers.timer t).initTick.toNat
        ((s.timers.timer t).initTick.toNat - ticks delay) (s.calls t) middle := by
  obtain ⟨first,taken,more⟩ := run_cons.mp ran
  obtain ⟨second,delayed,more'⟩ := run_append.mp more
  obtain ⟨middle,inserted,rest⟩ := run_cons.mp more'
  have allowed' := allowed.2 first taken
  have timing := timing_run (read_timing valid reading taken) (along_append allowed').1 alone soon delayed
  exact ⟨middle,rest,((along_append allowed').2 second delayed).2 middle inserted,timing_inserted timing ⟨by omega,Nat.sub_le _ _⟩ inserted⟩

-- A periodic timer that is started and then left alone calls its function once in every
-- period from the tick that rt_timer_start read, whatever the others do.
theorem periodic_calls {rtTick : Tick} {time : Timer → Tick} {periodic : Timer → Bool} (timed : ∀ t, Timed (time t))
    {before : List (Action Timer)} (allowed : Along step Allowed (initial rtTick time periodic) before)
    (ran : run step (initial rtTick time periodic) before = some s) (reading : s.underway t = some .reading)
    (flag : (s.timers.timer t).periodic = true) {delay : List (Action Timer)} (soon : ticks delay < (s.timers.timer t).initTick.toNat)
    (alone : ∀ a ∈ delay ++ actions, LeavesAlone t a) (allowed' : Along step Allowed s (.proceed t :: delay ++ .proceed t :: actions))
    (ran' : run step s (.proceed t :: delay ++ .proceed t :: actions) = some after) :
    after.calls t = s.calls t + (ticks delay + ticks actions) / (s.timers.timer t).initTick.toNat ∧ t ∈ after.timers.rtTimerList ∧
      remaining after.timers t =
        (s.timers.timer t).initTick.toNat - (ticks delay + ticks actions) % (s.timers.timer t).initTick.toNat := by
  have valid := run_valid timed allowed ran
  have positive := (valid.timely.timed t).1
  obtain ⟨middle,rest,allowed'',counting⟩ :=
    started_counting valid reading (fun a there => alone a (List.mem_append_left _ there)) soon allowed' ran'
  rw [flag] at counting
  have counting : Counting t true true _ _ (s.calls t + 0) middle := counting
  obtain ⟨q,r,sum,within,counting'⟩ :=
    periodic_run counting soon allowed'' (fun a there => alone a (List.mem_append_right _ there)) rest
  rw [Nat.zero_mul,Nat.zero_add,Nat.mul_comm,Nat.add_comm] at sum
  obtain ⟨quotient,left⟩ := (Nat.div_mod_unique positive).mpr ⟨sum,within⟩
  rw [quotient,left]
  exact ⟨counting'.calls,counting'.listed,counting'.left⟩

def begun (t : Bool) : Clock Bool :=
  { nearWrap with timers := startRemove nearWrap.timers t,underway := Function.update nearWrap.underway t (some .reading) }

-- One tick before the insertion and seven after it.
def startedRun (t : Bool) : List (Action Bool) := .proceed t :: [.tick noCalls] ++ .proceed t :: List.replicate 7 (.tick noCalls)

theorem quiet_ticks (t : Bool) : ∀ a ∈ [.tick noCalls] ++ List.replicate 7 (Action.tick noCalls), LeavesAlone t a := by
  intro a there
  have same : a = .tick noCalls := List.eq_of_mem_replicate (show a ∈ List.replicate 8 (Action.tick noCalls) from there)
  rw [same]
  exact fun _ _ called => (by cases called)

theorem nearWrap_periodic : ∃ after, run step (begun true) (startedRun true) = some after ∧ after.calls true = 8/3 := by
  obtain ⟨after,ran⟩ := Option.isSome_iff_exists.mp (by decide +kernel : (run step (begun true) (startedRun true)).isSome = true)
  have whole := periodic_calls nearWrap_timed (by decide +kernel : Along step Allowed nearWrap [.call (.start true)]) rfl rfl rfl
    (by decide) (quiet_ticks true) (by decide +kernel : Along step Allowed (begun true) (startedRun true)) ran
  obtain ⟨calls,_⟩ := whole
  exact ⟨after,ran,calls⟩

-- A one-shot timer that is started and then left alone calls its function at its tick, and
-- never again.
theorem oneshot_calls {rtTick : Tick} {time : Timer → Tick} {periodic : Timer → Bool} (timed : ∀ t, Timed (time t))
    {before : List (Action Timer)} (allowed : Along step Allowed (initial rtTick time periodic) before)
    (ran : run step (initial rtTick time periodic) before = some s) (reading : s.underway t = some .reading)
    (flag : (s.timers.timer t).periodic = false) {delay : List (Action Timer)} (soon : ticks delay < (s.timers.timer t).initTick.toNat)
    (alone : ∀ a ∈ delay ++ actions, LeavesAlone t a) (allowed' : Along step Allowed s (.proceed t :: delay ++ .proceed t :: actions))
    (ran' : run step s (.proceed t :: delay ++ .proceed t :: actions) = some after) :
    after.calls t = s.calls t + (if ticks delay + ticks actions < (s.timers.timer t).initTick.toNat then 0 else 1) ∧
      (t ∈ after.timers.rtTimerList ↔ ticks delay + ticks actions < (s.timers.timer t).initTick.toNat) := by
  obtain ⟨middle,rest,allowed'',counting⟩ :=
    started_counting (run_valid timed allowed ran) reading (fun a there => alone a (List.mem_append_left _ there)) soon allowed' ran'
  rw [flag] at counting
  have going : ∀ a ∈ actions, LeavesGoing t true a := fun a there => Or.inl (alone a (List.mem_append_right _ there))
  rcases pending_run counting allowed'' going rest with ⟨few,pending⟩ | ⟨enough,done⟩
  · have few' : ticks delay + ticks actions < (s.timers.timer t).initTick.toNat := by omega
    rw [if_pos few']
    exact ⟨pending.calls,fun _ => few',fun _ => pending.listed⟩
  · have enough' : ¬ticks delay + ticks actions < (s.timers.timer t).initTick.toNat := by omega
    rw [if_neg enough']
    exact ⟨done.calls,fun there => absurd there done.unlisted,fun few => absurd few enough'⟩

theorem nearWrap_oneshot : ∃ after, run step (begun false) (startedRun false) = some after ∧ after.calls false = 1 := by
  obtain ⟨after,ran⟩ := Option.isSome_iff_exists.mp (by decide +kernel : (run step (begun false) (startedRun false)).isSome = true)
  have whole := oneshot_calls nearWrap_timed (by decide +kernel : Along step Allowed nearWrap [.call (.start false)]) rfl rfl rfl
    (by decide) (quiet_ticks false) (by decide +kernel : Along step Allowed (begun false) (startedRun false)) ran
  obtain ⟨calls,_⟩ := whole
  have expired : ¬ticks [Action.tick noCalls] + ticks (List.replicate 7 (Action.tick noCalls)) < 3 := by decide
  exact ⟨after,ran,calls.trans (congrArg (0 + ·) (if_neg expired))⟩

def armed : List (Action Bool) := [.call (.start false),.proceed false,.proceed false,.tick noCalls,.tick noCalls]

def stopped : List (Action Bool) := [.call (.stop false),.tick noCalls,.tick noCalls,.call (.stop false),.tick noCalls]

end Machine

end SssAlarmHost.Timer
