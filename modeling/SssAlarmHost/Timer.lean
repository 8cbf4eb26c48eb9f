import SssAlarmHost.CyclicTime
import SssAlarmHost.MachineRuns
import Mathlib.Logic.Function.Basic

namespace SssAlarmHost.Timer
open CyclicTime

abbrev Tick := BitVec 32
abbrev tickMax : Tick := 0xffffffff

-- periodic and activated are the flags RT_TIMER_FLAG_PERIODIC and RT_TIMER_FLAG_ACTIVATED.
structure RtTimer where
  initTick : Tick
  timeoutTick : Tick
  periodic : Bool
  activated : Bool
  deriving DecidableEq

-- RT_TIMER_SKIP_LIST_LEVEL is 1, so rt_timer_list is one list.
structure Timers (Timer : Type) where
  timer : Timer → RtTimer
  rtTimerList : List Timer
  rtTick : Tick

-- The calls that threads and timeout functions make.
inductive Call (Timer : Type) where
  | start (t : Timer)
  | stop (t : Timer)
  | setTime (t : Timer) (time : Tick)
  | setOneshot (t : Timer)
  | setPeriodic (t : Timer)

def Call.target {Timer : Type} : Call Timer → Timer
  | .start t => t
  | .stop t => t
  | .setTime t _ => t
  | .setOneshot t => t
  | .setPeriodic t => t

-- Where a call of a thread is between its parts: in rt_timer_start before it reads the tick
-- or before the insertion, in rt_timer_stop behind its test or before it clears the flag, in
-- rt_timer_control with the flags that it stores.
inductive Part where
  | reading
  | inserting
  | removing
  | clearing
  | storing (periodic activated : Bool)
  deriving DecidableEq

section Functions
variable {Timer : Type} [DecidableEq Timer] (s : Timers Timer)

def Timers.modify (t : Timer) (f : RtTimer → RtTimer) : Timers Timer := { s with timer := Function.update s.timer t (f (s.timer t)) }

def timerRemove (t : Timer) : Timers Timer := { s with rtTimerList := s.rtTimerList.erase t }

-- The row loop of rt_timer_start, and rt_list_insert_after where it stops.
def insertRow (timeoutTick : Tick) (t : Timer) : List Timer → List Timer
  | [] => [t]
  | u :: rest =>
    if (s.timer u).timeoutTick - timeoutTick = 0 then u :: insertRow timeoutTick t rest
    else if (s.timer u).timeoutTick - timeoutTick < tickMax / 2 then t :: u :: rest
    else u :: insertRow timeoutTick t rest

-- The parts of rt_timer_start, between which interrupts are as the caller had them. None
-- for the assertion on init_tick.
def startRemove (t : Timer) : Timers Timer := (timerRemove s t).modify t ({ · with activated := false })

def startTime (t : Timer) : Option (Timers Timer) :=
  if (s.timer t).initTick < tickMax / 2 then
    some (s.modify t fun timer => { timer with timeoutTick := s.rtTick + timer.initTick })
  else none

def startInsert (t : Timer) : Timers Timer :=
  let s := { s with rtTimerList := insertRow s (s.timer t).timeoutTick t s.rtTimerList }
  s.modify t ({ · with activated := true })

def rtTimerStart (t : Timer) : Option (Timers Timer) := (startTime (startRemove s t) t).map (startInsert · t)

def rtTimerStop (t : Timer) : Timers Timer :=
  if (s.timer t).activated = false then s else (timerRemove s t).modify t ({ · with activated := false })

-- Whole calls, as timeout functions make them with interrupts off.
def perform (s : Timers Timer) : Call Timer → Option (Timers Timer)
  | .start t => rtTimerStart s t
  | .stop t => some (rtTimerStop s t)
  | .setTime t time => some (s.modify t ({ · with initTick := time }))
  | .setOneshot t => some (s.modify t ({ · with periodic := false }))
  | .setPeriodic t => some (s.modify t ({ · with periodic := true }))

-- The first part of a call of a thread, and the part it comes to.
def firstPart (s : Timers Timer) : Call Timer → Timers Timer × Option Part
  | .start t => (startRemove s t,some .reading)
  | .stop t => (s,if (s.timer t).activated = false then none else some .removing)
  | .setTime t time => (s.modify t ({ · with initTick := time }),none)
  | .setOneshot t => (s,some (.storing false (s.timer t).activated))
  | .setPeriodic t => (s,some (.storing true (s.timer t).activated))

def nextPart (s : Timers Timer) (t : Timer) : Part → Option (Timers Timer × Option Part)
  | .reading => (startTime s t).map fun s => (s,some .inserting)
  | .inserting => some (startInsert s t,none)
  | .removing => some (timerRemove s t,some .clearing)
  | .clearing => some (s.modify t ({ · with activated := false }),none)
  | .storing periodic activated => some (s.modify t ({ · with periodic := periodic,activated := activated }),none)

-- The parts with no one in between.
def uninterrupted (t : Timer) : Nat → Timers Timer × Option Part → Option (Timers Timer)
  | _,(s,none) => some s
  | 0,(_,some _) => none
  | n+1,(s,some part) => (nextPart s t part).bind (uninterrupted t n)

-- What a round of rt_timer_check does after the timeout function.
def timerExit (t : Timer) : Option (Timers Timer) :=
  let periodic := (s.timer t).periodic && (s.timer t).activated
  let s := s.modify t ({ · with activated := false })
  if periodic then rtTimerStart s t else some s

-- A round of rt_timer_check, for a timer that times out.
def timeoutRound (timeoutFunc : Timer → List (Call Timer)) (t : Timer) : Option (Timers Timer) :=
  ((timeoutFunc t).foldlM perform (timerRemove s t)).bind (timerExit · t)

-- The loop of rt_timer_check, with the calls that each timeout function makes: the timers
-- it lets time out, in order; none while rounds is not enough.
def rtTimerCheck (timeoutFunc : Timer → List (Call Timer)) : Nat → Timers Timer → Option (Timers Timer × List Timer)
  | 0,_ => none
  | rounds+1,s =>
    match s.rtTimerList with
    | [] => some (s,[])
    | t :: _ =>
      if s.rtTick - (s.timer t).timeoutTick < tickMax / 2 then
        (timeoutRound s timeoutFunc t).bind fun s =>
          (rtTimerCheck timeoutFunc rounds s).map fun (s,more) => (s,t :: more)
      else some (s,[])

def rtTimerNextTimeoutTick : Tick :=
  match s.rtTimerList with
  | [] => tickMax
  | t :: _ => (s.timer t).timeoutTick

-- rt_tick_increase, as far as timers go.
def tickIncrease (timeoutFunc : Timer → List (Call Timer)) (rounds : Nat) : Option (Timers Timer × List Timer) :=
  rtTimerCheck timeoutFunc rounds { s with rtTick := s.rtTick + 1 }

end Functions

section Order
variable {Timer : Type} {s next : Timers Timer} {t u : Timer}

def remaining (s : Timers Timer) (t : Timer) : Nat := ahead s.rtTick (s.timer t).timeoutTick

def half : Nat := 2147483647

-- RT_ASSERT(timer->init_tick < RT_TICK_MAX / 2), and not nothing.
def Timed (time : Tick) : Prop := 0 < time.toNat ∧ time.toNat < half

instance (time : Tick) : Decidable (Timed time) := inferInstanceAs (Decidable (_ ∧ _))

theorem below_half {x : Tick} : x < tickMax / 2 ↔ x.toNat < half := Iff.rfl

-- The list is in the order of the times left, whatever the tick is and where it wraps.
structure Ordered (s : Timers Timer) : Prop where
  nodup : s.rtTimerList.Nodup
  near : ∀ t ∈ s.rtTimerList, remaining s t < half
  sorted : s.rtTimerList.Pairwise fun t u => remaining s t ≤ remaining s u
  timed : ∀ t, Timed (s.timer t).initTick

structure Timely (s : Timers Timer) : Prop extends Ordered s where
  future : ∀ t ∈ s.rtTimerList, 0 < remaining s t

def Due (s : Timers Timer) (t : Timer) : Prop := t ∈ s.rtTimerList ∧ remaining s t = 0

theorem due_iff (near : remaining s t < half) : s.rtTick - (s.timer t).timeoutTick < tickMax / 2 ↔ remaining s t = 0 := by
  rw [below_half]
  by_cases zero : remaining s t = 0
  · have now : (s.timer t).timeoutTick = s.rtTick := ahead_zero.mp zero
    refine ⟨fun _ => zero,fun _ => ?_⟩
    rw [now,BitVec.sub_self]
    decide
  · have self : ahead s.rtTick s.rtTick = 0 := ahead_zero.mpr rfl
    have later : ahead s.rtTick s.rtTick < ahead s.rtTick (s.timer t).timeoutTick := by
      rw [self]
      exact Nat.pos_of_ne_zero zero
    have distance := difference_lt later
    refine ⟨fun soon => ?_,fun same => absurd same zero⟩
    rw [distance,self] at soon
    unfold remaining half at *
    omega

-- What a call on timer t leaves alone.
structure Spares (t : Timer) (s next : Timers Timer) : Prop where
  tick : next.rtTick = s.rtTick
  timer : ∀ u, u ≠ t → next.timer u = s.timer u
  listed : ∀ u, u ≠ t → (u ∈ next.rtTimerList ↔ u ∈ s.rtTimerList)

theorem Spares.refl (t : Timer) (s : Timers Timer) : Spares t s s := ⟨rfl,fun _ _ => rfl,fun _ _ => Iff.rfl⟩

theorem Spares.trans {middle : Timers Timer} (first : Spares t s middle) (second : Spares t middle next) : Spares t s next :=
  ⟨second.tick.trans first.tick,fun u other => (second.timer u other).trans (first.timer u other),
    fun u other => (second.listed u other).trans (first.listed u other)⟩

theorem Spares.remaining (spares : Spares t s next) (other : u ≠ t) : remaining next u = remaining s u := by
  rw [Timer.remaining,Timer.remaining,spares.tick,spares.timer u other]

-- The row loop is an insertion by the times left, behind the timers that time out at the
-- same tick.
theorem insertRow_ordered {timeoutTick : Tick} {key : Timer → Nat} {l : List Timer} (own : key t = ahead s.rtTick timeoutTick)
    (keys : ∀ u ∈ l, key u = remaining s u) (near : ∀ u ∈ l, remaining s u < half) (near' : key t < half) :
    insertRow s timeoutTick t l = l.orderedInsert (fun a b => key a < key b) t := by
  induction l with
  | nil => rfl
  | cons u rest ih =>
    have ih := ih (fun v there => keys v (List.mem_cons_of_mem u there)) (fun v there => near v (List.mem_cons_of_mem u there))
    have first := keys u List.mem_cons_self
    have close := near u List.mem_cons_self
    rw [← first] at close
    rw [insertRow,List.orderedInsert_cons,ih]
    rcases Nat.lt_trichotomy (key u) (key t) with less | same | more
    · have before : remaining s u < ahead s.rtTick timeoutTick := by omega
      have distance : ((s.timer u).timeoutTick - timeoutTick).toNat = 2^32 - (ahead s.rtTick timeoutTick - remaining s u) :=
        difference_lt before
      rw [← own,← first] at distance
      have bound : half = 2147483647 := rfl
      have apart : (s.timer u).timeoutTick - timeoutTick ≠ 0 := by
        intro zero
        rw [zero] at distance
        change 0 = _ at distance
        omega
      have far : ¬(s.timer u).timeoutTick - timeoutTick < tickMax / 2 := by
        rw [below_half,distance]
        omega
      rw [if_neg apart,if_neg far,if_neg (Nat.lt_asymm less)]
    · have together : ahead s.rtTick timeoutTick ≤ remaining s u := by omega
      have distance : ((s.timer u).timeoutTick - timeoutTick).toNat = remaining s u - ahead s.rtTick timeoutTick :=
        difference_le together
      have zero : (s.timer u).timeoutTick - timeoutTick = 0 := by
        apply BitVec.eq_of_toNat_eq
        rw [distance]
        change _ = 0
        omega
      rw [if_pos zero,if_neg (by rw [same]; exact Nat.lt_irrefl _)]
    · have after : ahead s.rtTick timeoutTick ≤ remaining s u := by omega
      have distance : ((s.timer u).timeoutTick - timeoutTick).toNat = remaining s u - ahead s.rtTick timeoutTick :=
        difference_le after
      rw [← own] at distance
      have apart : (s.timer u).timeoutTick - timeoutTick ≠ 0 := by
        intro zero
        rw [zero] at distance
        change 0 = _ at distance
        omega
      have soon : (s.timer u).timeoutTick - timeoutTick < tickMax / 2 := by
        rw [below_half,distance]
        omega
      rw [if_neg apart,if_pos soon,if_pos more]

-- Starting a timer puts it in its place with all of its time to go.
structure Begun (t : Timer) (s next : Timers Timer) : Prop where
  ordered : Ordered next
  spares : Spares t s next
  listed : t ∈ next.rtTimerList
  timer : next.timer t = { s.timer t with timeoutTick := s.rtTick + (s.timer t).initTick,activated := true }

theorem Begun.remaining (begun : Begun t s next) : remaining next t = (s.timer t).initTick.toNat := by
  rw [Timer.remaining,begun.timer,begun.spares.tick]
  exact ahead_add _ _

-- What is allowed of rt_timer_control: a time that rt_timer_start accepts and that is not 0.
def Call.allowed : Call Timer → Prop
  | .setTime _ time => Timed time
  | _ => True

-- What every call does: nothing to other timers, and no timer becomes due by it.
structure Performed (t : Timer) (s next : Timers Timer) : Prop where
  ordered : Ordered next
  spares : Spares t s next
  due : Due next t → Due s t

theorem Begun.performed (begun : Begun t s next) (timed : Timed (s.timer t).initTick) : Performed t s next := by
  refine ⟨begun.ordered,begun.spares,?_⟩
  intro due
  rw [Due,begun.remaining] at due
  exact absurd due.2 (Nat.pos_iff_ne_zero.mp timed.1)

-- The insertion puts a timer that is in no list in its place.
structure Inserted (t : Timer) (s next : Timers Timer) : Prop where
  ordered : Ordered next
  spares : Spares t s next
  listed : t ∈ next.rtTimerList
  timer : next.timer t = { s.timer t with activated := true }

theorem Inserted.left (inserted : Inserted t s next) : remaining next t = remaining s t := by
  rw [remaining,inserted.timer,inserted.spares.tick]
  rfl

theorem Inserted.performed (inserted : Inserted t s next) (future : 0 < remaining s t) : Performed t s next := by
  refine ⟨inserted.ordered,inserted.spares,?_⟩
  intro due
  rw [Due,inserted.left] at due
  exact absurd due.2 (Nat.pos_iff_ne_zero.mp future)

theorem Performed.trans {middle : Timers Timer} (first : Performed t s middle) (second : Performed t middle next) : Performed t s next :=
  ⟨second.ordered,first.spares.trans second.spares,fun due => first.due (second.due due)⟩

-- What a stretch of rt_timer_check does: the tick stays, and nothing becomes due.
structure Passed (s next : Timers Timer) : Prop where
  ordered : Ordered next
  tick : next.rtTick = s.rtTick
  due : ∀ u, Due next u → Due s u

theorem Passed.refl (ordered : Ordered s) : Passed s s := ⟨ordered,rfl,fun _ => id⟩

theorem Passed.trans {middle : Timers Timer} (first : Passed s middle) (second : Passed middle next) : Passed s next :=
  ⟨second.ordered,second.tick.trans first.tick,fun u due => first.due u (second.due u due)⟩

theorem Performed.passed (performed : Performed t s next) : Passed s next := by
  refine ⟨performed.ordered,performed.spares.tick,?_⟩
  intro u due
  by_cases mine : u = t
  · rw [mine] at due ⊢
    exact performed.due due
  · rw [Due,performed.spares.listed u mine,performed.spares.remaining mine] at due
    exact due

-- A timer that is neither touched nor due stays as it is.
def Same (u : Timer) (s next : Timers Timer) : Prop := next.timer u = s.timer u ∧ (u ∈ next.rtTimerList ↔ u ∈ s.rtTimerList)

theorem Same.trans {middle : Timers Timer} (first : Same u s middle) (second : Same u middle next) : Same u s next :=
  ⟨second.1.trans first.1,second.2.trans first.2⟩

theorem Spares.same (spares : Spares t s next) (other : u ≠ t) : Same u s next := ⟨spares.timer u other,spares.listed u other⟩

end Order

section Calls
variable {Timer : Type} [DecidableEq Timer] {s next : Timers Timer} {t u : Timer}

@[simp] theorem modify_timer_self (s : Timers Timer) (t : Timer) (f) : (s.modify t f).timer t = f (s.timer t) := Function.update_self ..
theorem modify_timer_other (s : Timers Timer) {t u : Timer} (f) (other : u ≠ t) : (s.modify t f).timer u = s.timer u :=
  Function.update_of_ne other ..

theorem remove_spares (s : Timers Timer) (t : Timer) : Spares t s (timerRemove s t) :=
  ⟨rfl,fun _ _ => rfl,fun _ other => List.mem_erase_of_ne other⟩

theorem modify_spares (s : Timers Timer) (t : Timer) (f) : Spares t s (s.modify t f) :=
  ⟨rfl,fun _ other => modify_timer_other s f other,fun _ _ => Iff.rfl⟩

theorem remove_ordered (ordered : Ordered s) (t : Timer) : Ordered (timerRemove s t) where
  nodup := ordered.nodup.erase t
  near u there := ordered.near u (List.mem_of_mem_erase there)
  sorted := ordered.sorted.sublist List.erase_sublist
  timed := ordered.timed

theorem remove_unlisted (ordered : Ordered s) (t : Timer) : t ∉ (timerRemove s t).rtTimerList :=
  fun there => (ordered.nodup.mem_erase_iff.mp there).1 rfl

-- What changes a timer, but not when it times out while it is listed, nor the bound on its time.
theorem modify_ordered (ordered : Ordered s) {f} (timed : Timed (f (s.timer t)).initTick)
    (same : t ∈ s.rtTimerList → (f (s.timer t)).timeoutTick = (s.timer t).timeoutTick) : Ordered (s.modify t f) := by
  have kept : ∀ u ∈ s.rtTimerList, remaining (s.modify t f) u = remaining s u := by
    intro u there
    by_cases mine : u = t
    · rw [mine] at there ⊢
      rw [remaining,modify_timer_self,same there]
      rfl
    · exact (modify_spares s t f).remaining mine
  constructor
  case nodup => exact ordered.nodup
  case near =>
    intro u there
    rw [kept u there]
    exact ordered.near u there
  case sorted => exact ordered.sorted.imp_of_mem fun {u v} first second le => by rwa [kept u first,kept v second]
  case timed =>
    intro u
    by_cases mine : u = t
    · rw [mine,modify_timer_self]
      exact timed
    · rw [modify_timer_other s f mine]
      exact ordered.timed u

theorem remove_performed (ordered : Ordered s) (t : Timer) : Performed t s (timerRemove s t) :=
  ⟨remove_ordered ordered t,remove_spares s t,fun due => absurd due.1 (remove_unlisted ordered t)⟩

theorem modify_performed (ordered : Ordered s) {f} (timed : Timed (f (s.timer t)).initTick)
    (same : t ∈ s.rtTimerList → (f (s.timer t)).timeoutTick = (s.timer t).timeoutTick) : Performed t s (s.modify t f) := by
  refine ⟨modify_ordered ordered timed same,modify_spares s t f,?_⟩
  rintro ⟨there,zero⟩
  rw [remaining,modify_timer_self,same there] at zero
  exact ⟨there,zero⟩

theorem half_eq {x : Tick} (timed : Timed x) : x < tickMax / 2 := below_half.mpr timed.2

theorem startRemove_performed (ordered : Ordered s) (t : Timer) : Performed t s (startRemove s t) := by
  have removed := remove_performed ordered t
  exact removed.trans (modify_performed removed.ordered (ordered.timed t) fun _ => rfl)

theorem startRemove_unlisted (ordered : Ordered s) (t : Timer) : t ∉ (startRemove s t).rtTimerList := remove_unlisted ordered t

theorem startTime_performed (ordered : Ordered s) (unlisted : t ∉ s.rtTimerList) : ∃ next, startTime s t = some next ∧
    Performed t s next ∧ next.rtTimerList = s.rtTimerList ∧
      next.timer t = { s.timer t with timeoutTick := s.rtTick + (s.timer t).initTick } :=
  ⟨_,if_pos (half_eq (ordered.timed t)),modify_performed ordered (ordered.timed t) fun there => absurd there unlisted,rfl,
    modify_timer_self _ t _⟩

theorem startInsert_inserted (ordered : Ordered s) (unlisted : t ∉ s.rtTimerList) (near : remaining s t < half) :
    Inserted t s (startInsert s t) := by
  let placed := { s with rtTimerList := insertRow s (s.timer t).timeoutTick t s.rtTimerList }
  have own : (startInsert s t).timer t = { s.timer t with activated := true } := modify_timer_self placed t ({ · with activated := true })
  have time : remaining (startInsert s t) t = remaining s t := by rw [remaining,own]; rfl
  have away : ∀ u ∈ s.rtTimerList, u ≠ t := by
    intro u there same
    rw [same] at there
    exact unlisted there
  have other : ∀ u, u ≠ t → (startInsert s t).timer u = s.timer u := fun u other => modify_timer_other placed ({ · with activated := true }) other
  have keys : ∀ u ∈ s.rtTimerList, remaining (startInsert s t) u = remaining s u :=
    fun u there => congrArg (fun timer : RtTimer => ahead s.rtTick timer.timeoutTick) (other u (away u there))
  have near' : remaining (startInsert s t) t < half := by rwa [time]
  have inserted : (startInsert s t).rtTimerList =
      s.rtTimerList.orderedInsert (fun a b => remaining (startInsert s t) a < remaining (startInsert s t) b) t :=
    insertRow_ordered time keys ordered.near near'
  have members : ∀ u, u ∈ (startInsert s t).rtTimerList ↔ u = t ∨ u ∈ s.rtTimerList :=
    fun u => by rw [inserted,List.mem_orderedInsert]
  refine ⟨⟨?_,?_,?_,?_⟩,?_,?_,own⟩
  case refine_1 =>
    rw [inserted]
    exact (List.perm_orderedInsert _ t _).nodup_iff.mpr (List.nodup_cons.mpr ⟨unlisted,ordered.nodup⟩)
  case refine_2 =>
    intro u there
    rcases (members u).mp there with same | old
    · rw [same]
      exact near'
    · rw [keys u old]
      exact ordered.near u old
  case refine_3 =>
    rw [inserted]
    apply insert_sorted
    exact ordered.sorted.imp_of_mem fun {u v} first second le => by rwa [keys u first,keys v second]
  case refine_4 =>
    intro u
    by_cases mine : u = t
    · rw [mine,own]
      exact ordered.timed t
    · rw [other u mine]
      exact ordered.timed u
  case refine_5 => exact ⟨rfl,other,fun u different => (members u).trans (or_iff_right different)⟩
  case refine_6 => exact (members t).mpr (Or.inl rfl)

theorem start_begun (ordered : Ordered s) (t : Timer) : ∃ next, rtTimerStart s t = some next ∧ Begun t s next := by
  have removed := startRemove_performed ordered t
  have unlisted := startRemove_unlisted ordered t
  have own : (startRemove s t).timer t = { s.timer t with activated := false } := modify_timer_self _ t _
  obtain ⟨middle,taken,timing,list,timer⟩ := startTime_performed removed.ordered unlisted
  have away : t ∉ middle.rtTimerList := by rwa [list]
  have left : remaining middle t = ((startRemove s t).timer t).initTick.toNat := by
    rw [remaining,timer,timing.spares.tick]
    exact ahead_add _ _
  have near : remaining middle t < half := by
    rw [left]
    exact (removed.ordered.timed t).2
  have inserted := startInsert_inserted timing.ordered away near
  refine ⟨startInsert middle t,?_,inserted.ordered,removed.spares.trans (timing.spares.trans inserted.spares),inserted.listed,?_⟩
  · rw [rtTimerStart,taken]
    rfl
  · rw [inserted.timer,timer,own]
    rfl

theorem perform_performed (ordered : Ordered s) (c : Call Timer) (allowed : c.allowed) :
    ∃ next, perform s c = some next ∧ Performed c.target s next := by
  cases c with
  | start t =>
    obtain ⟨next,taken,begun⟩ := start_begun ordered t
    exact ⟨next,taken,begun.performed (ordered.timed t)⟩
  | stop t =>
    refine ⟨_,rfl,?_⟩
    rw [rtTimerStop]
    split
    · exact ⟨ordered,Spares.refl t s,id⟩
    · exact startRemove_performed ordered t
  | setTime t time => exact ⟨_,rfl,modify_performed ordered allowed fun _ => rfl⟩
  | setOneshot t => exact ⟨_,rfl,modify_performed ordered (ordered.timed t) fun _ => rfl⟩
  | setPeriodic t => exact ⟨_,rfl,modify_performed ordered (ordered.timed t) fun _ => rfl⟩

-- A call whose parts follow one another is a whole call.
theorem uninterrupted_perform (s : Timers Timer) (c : Call Timer) : uninterrupted c.target 2 (firstPart s c) = perform s c := by
  cases c with
  | start t =>
    show (nextPart (startRemove s t) t .reading).bind (uninterrupted t 1) = rtTimerStart s t
    rw [nextPart,rtTimerStart]
    cases startTime (startRemove s t) t with
    | none => rfl
    | some middle => rfl
  | stop t =>
    show uninterrupted t 2 (s,if (s.timer t).activated = false then none else some .removing) = some (rtTimerStop s t)
    rw [rtTimerStop]
    split
    · rfl
    · rfl
  | setTime t time => rfl
  | setOneshot t => rfl
  | setPeriodic t => rfl

theorem firstPart_performed (ordered : Ordered s) (c : Call Timer) (allowed : c.allowed) : Performed c.target s (firstPart s c).1 := by
  cases c with
  | start t => exact startRemove_performed ordered t
  | stop t => exact ⟨ordered,Spares.refl t s,id⟩
  | setTime t time => exact modify_performed (f := ({ · with initTick := time })) ordered allowed fun _ => rfl
  | setOneshot t => exact ⟨ordered,Spares.refl t s,id⟩
  | setPeriodic t => exact ⟨ordered,Spares.refl t s,id⟩

-- The parts of rt_timer_start behind the first find the timer in no list.
def Part.starts : Part → Bool
  | .reading => true
  | .inserting => true
  | _ => false

-- An insertion is in time before the timeout that was computed for it.
def InTime (s : Timers Timer) (t : Timer) (part : Part) : Prop := part = .inserting → 0 < remaining s t ∧ remaining s t < half

theorem nextPart_performed (ordered : Ordered s) {part : Part} (away : part.starts = true → t ∉ s.rtTimerList)
    (inTime : InTime s t part) : ∃ next after, nextPart s t part = some (next,after) ∧ Performed t s next ∧
      (∀ more, after = some more → more.starts = true → t ∉ next.rtTimerList) := by
  cases part with
  | reading =>
    obtain ⟨next,taken,performed,list,_⟩ := startTime_performed ordered (away rfl)
    refine ⟨next,some .inserting,?_,performed,fun _ _ _ => ?_⟩
    · rw [nextPart,taken]
      rfl
    · rw [list]
      exact away rfl
  | inserting =>
    obtain ⟨future,near⟩ := inTime rfl
    exact ⟨_,none,rfl,(startInsert_inserted ordered (away rfl) near).performed future,fun _ none' => (by cases none')⟩
  | removing =>
    refine ⟨_,some .clearing,rfl,remove_performed ordered t,?_⟩
    intro more same starts
    cases same
    cases starts
  | clearing => exact ⟨_,none,rfl,modify_performed ordered (ordered.timed t) fun _ => rfl,fun _ none' => (by cases none')⟩
  | storing periodic activated =>
    exact ⟨_,none,rfl,modify_performed ordered (ordered.timed t) fun _ => rfl,fun _ none' => (by cases none')⟩

theorem calls_passed (calls : List (Call Timer)) (ordered : Ordered s) (allowed : ∀ c ∈ calls, c.allowed) :
    ∃ next, calls.foldlM perform s = some next ∧ Passed s next ∧ ∀ u, (∀ c ∈ calls, c.target ≠ u) → Same u s next := by
  induction calls generalizing s with
  | nil => exact ⟨s,rfl,Passed.refl ordered,fun _ _ => ⟨rfl,Iff.rfl⟩⟩
  | cons c rest ih =>
    obtain ⟨middle,taken,performed⟩ := perform_performed ordered c (allowed c List.mem_cons_self)
    obtain ⟨next,more,passed,same⟩ := ih performed.ordered fun d there => allowed d (List.mem_cons_of_mem c there)
    refine ⟨next,?_,performed.passed.trans passed,?_⟩
    · rw [List.foldlM_cons,taken]
      exact more
    · intro u untouched
      have first := performed.spares.same (Ne.symm (untouched c List.mem_cons_self))
      exact first.trans (same u fun d there => untouched d (List.mem_cons_of_mem c there))

theorem exit_performed (ordered : Ordered s) (t : Timer) : ∃ next, timerExit s t = some next ∧ Performed t s next := by
  have idle := modify_performed (t := t) (f := ({ · with activated := false })) ordered (ordered.timed t) fun _ => rfl
  unfold timerExit
  dsimp only
  split
  · obtain ⟨next,taken,begun⟩ := start_begun idle.ordered t
    exact ⟨next,taken,idle.trans (begun.performed (idle.ordered.timed t))⟩
  · exact ⟨_,rfl,idle⟩

theorem round_passed {timeoutFunc : Timer → List (Call Timer)} (ordered : Ordered s) (t : Timer)
    (allowed : ∀ c ∈ timeoutFunc t, c.allowed) :
    ∃ next, timeoutRound s timeoutFunc t = some next ∧ Passed s next ∧ ¬Due next t ∧
      ∀ u, u ≠ t → (∀ c ∈ timeoutFunc t, c.target ≠ u) → Same u s next := by
  have removed := remove_performed ordered t
  obtain ⟨called,ran,passed,same⟩ := calls_passed (timeoutFunc t) removed.ordered allowed
  obtain ⟨next,taken,exit'⟩ := exit_performed passed.ordered t
  refine ⟨next,?_,removed.passed.trans (passed.trans exit'.passed),?_,?_⟩
  · rw [timeoutRound,ran]
    exact taken
  · exact fun due => remove_unlisted ordered t (passed.due t (exit'.due due)).1
  · intro u other untouched
    exact (removed.spares.same other).trans ((same u untouched).trans (exit'.spares.same other))

-- A timer whose function did not touch it is started again if it is periodic.
def Restarted (t : Timer) (s next : Timers Timer) : Prop :=
  if (s.timer t).periodic = true ∧ (s.timer t).activated = true then
    t ∈ next.rtTimerList ∧ next.timer t = { s.timer t with timeoutTick := s.rtTick + (s.timer t).initTick }
  else t ∉ next.rtTimerList ∧ next.timer t = { s.timer t with activated := false }

theorem exit_restarted (ordered : Ordered s) (unlisted : t ∉ s.rtTimerList) (taken : timerExit s t = some next) : Restarted t s next := by
  have idle := modify_performed (t := t) (f := ({ · with activated := false })) ordered (ordered.timed t) fun _ => rfl
  unfold Restarted
  unfold timerExit at taken
  dsimp only at taken
  by_cases again : (s.timer t).periodic = true ∧ (s.timer t).activated = true
  · rw [again.1,again.2] at taken
    obtain ⟨next',started,begun⟩ := start_begun idle.ordered t
    cases started.symm.trans taken
    rw [if_pos again]
    refine ⟨begun.listed,?_⟩
    rw [begun.timer,modify_timer_self,← again.2]
    rfl
  · rw [if_neg again]
    rw [← Bool.and_eq_true] at again
    rw [if_neg again] at taken
    cases taken
    exact ⟨unlisted,modify_timer_self _ t _⟩

theorem round_restarted {timeoutFunc : Timer → List (Call Timer)} (ordered : Ordered s) (allowed : ∀ c ∈ timeoutFunc t, c.allowed)
    (untouched : ∀ c ∈ timeoutFunc t, c.target ≠ t) (taken : timeoutRound s timeoutFunc t = some next) : Restarted t s next := by
  have removed := remove_performed ordered t
  obtain ⟨called,ran,passed,same⟩ := calls_passed (timeoutFunc t) removed.ordered allowed
  rw [timeoutRound,ran] at taken
  obtain ⟨kept,listed⟩ := same t untouched
  have restarted := exit_restarted passed.ordered (fun there => remove_unlisted ordered t (listed.mp there)) taken
  rw [Restarted,kept,passed.tick] at restarted
  exact restarted

def Sparing (timeoutFunc : Timer → List (Call Timer)) (u : Timer) : Prop := ∀ v, v ≠ u → ∀ c ∈ timeoutFunc v, c.target ≠ u

-- rt_timer_check with a round for each due timer and one more: the timers that are due
-- have their round, each once, and no other.
structure Checked (timeoutFunc : Timer → List (Call Timer)) (s next : Timers Timer) (fired : List Timer) : Prop where
  timely : Timely next
  tick : next.rtTick = s.rtTick
  nodup : fired.Nodup
  onTime : ∀ u ∈ fired, Due s u
  waits : ∀ u, Sparing timeoutFunc u → ¬Due s u → Same u s next
  fires : ∀ u, Sparing timeoutFunc u → Due s u → u ∈ fired ∧
    ∃ before middle, Ordered before ∧ before.rtTick = s.rtTick ∧ Same u s before ∧ timeoutRound before timeoutFunc u = some middle ∧
      Same u middle next

theorem check_checked {timeoutFunc : Timer → List (Call Timer)} (ordered : Ordered s) (allowed : ∀ t, ∀ c ∈ timeoutFunc t, c.allowed)
    {due : List Timer} (all : ∀ u, Due s u → u ∈ due) {rounds : Nat} (enough : due.length < rounds) :
    ∃ next fired, rtTimerCheck timeoutFunc rounds s = some (next,fired) ∧ Checked timeoutFunc s next fired := by
  induction rounds generalizing s due with
  | zero => exact absurd enough (Nat.not_lt_zero _)
  | succ rounds ih =>
    rw [rtTimerCheck]
    cases list : s.rtTimerList with
    | nil =>
      have none' : ∀ u, ¬Due s u := by
        intro u due
        rw [Due,list] at due
        cases due.1
      have timely : Timely s := ⟨ordered,fun u there => absurd there (by rw [list]; exact List.not_mem_nil)⟩
      exact ⟨s,[],rfl,timely,rfl,List.nodup_nil,fun u there => (by cases there),fun _ _ _ => ⟨rfl,Iff.rfl⟩,
        fun u _ due => absurd due (none' u)⟩
    | cons t rest =>
      have listed : t ∈ s.rtTimerList := by rw [list]; exact List.mem_cons_self
      dsimp only
      by_cases now : s.rtTick - (s.timer t).timeoutTick < tickMax / 2
      · have due' : Due s t := ⟨listed,(due_iff (ordered.near t listed)).mp now⟩
        obtain ⟨middle,taken,passed,gone,others⟩ := round_passed ordered t (allowed t)
        have fewer : ∀ u, Due middle u → u ∈ due.erase t := by
          intro u dueLater
          refine (List.mem_erase_of_ne ?_).mpr (all u (passed.due u dueLater))
          intro same
          rw [same] at dueLater
          exact gone dueLater
        have enough' : (due.erase t).length < rounds := by
          rw [List.length_erase_of_mem (all t due')]
          have some' := List.length_pos_of_mem (all t due')
          omega
        obtain ⟨next,fired,more,checked⟩ := ih passed.ordered fewer enough'
        refine ⟨next,t :: fired,?_,checked.timely,checked.tick.trans passed.tick,?_,?_,?_,?_⟩
        · rw [if_pos now,taken]
          dsimp only [Option.bind_some]
          rw [more]
          rfl
        · exact List.nodup_cons.mpr ⟨fun there => gone (checked.onTime t there),checked.nodup⟩
        · intro u there
          rcases List.mem_cons.mp there with same | later
          · rwa [same]
          · exact passed.due u (checked.onTime u later)
        · intro u sparing waiting
          have other : t ≠ u := by
            intro same
            rw [← same] at waiting
            exact waiting due'
          have same := others u (Ne.symm other) (sparing t other)
          exact same.trans (checked.waits u sparing fun later => waiting (passed.due u later))
        · intro u sparing dueNow
          by_cases mine : t = u
          · cases mine
            exact ⟨List.mem_cons_self,s,middle,ordered,rfl,⟨rfl,Iff.rfl⟩,taken,checked.waits t sparing gone⟩
          · have same := others u (Ne.symm mine) (sparing t mine)
            have later : Due middle u := by
              refine ⟨same.2.mpr dueNow.1,?_⟩
              rw [remaining,same.1,passed.tick]
              exact dueNow.2
            obtain ⟨there,before,after,ordered',tick,same',round,kept⟩ := checked.fires u sparing later
            exact ⟨List.mem_cons_of_mem t there,before,after,ordered',tick.trans passed.tick,same.trans same',round,kept⟩
      · rw [if_neg now]
        have later : 0 < remaining s t := Nat.pos_of_ne_zero fun zero => now ((due_iff (ordered.near t listed)).mpr zero)
        have future : ∀ u ∈ s.rtTimerList, 0 < remaining s u := by
          intro u there
          have sorted := ordered.sorted
          rw [list] at there sorted
          rcases List.mem_cons.mp there with same | behind
          · rwa [same]
          · exact Nat.lt_of_lt_of_le later ((List.pairwise_cons.mp sorted).1 u behind)
        exact ⟨s,[],rfl,⟨ordered,future⟩,rfl,List.nodup_nil,fun u there => (by cases there),fun _ _ _ => ⟨rfl,Iff.rfl⟩,
          fun u _ due => absurd due.2 (Nat.pos_iff_ne_zero.mp (future u due.1))⟩

end Calls

end SssAlarmHost.Timer
