import Mathlib.Algebra.Ring.Nat
import SssAlarmHost.SchedulerRuns

namespace SssAlarmHost.Scheduler
open PriorityQueues MachineRuns

variable {Thread : Type} [DecidableEq Thread] {s middle next after : Kernel Thread} {c w : Thread} {p : Priority}
  {a : Action Thread} {actions : List (Action Thread)}

section Fairness

-- Thread w is in the list of priority p.
def Waits (w : Thread) (p : Priority) (s : Kernel Thread) : Prop := w ∈ s.rtThreadPriorityTable p

instance : Decidable (Waits w p s) := inferInstanceAs (Decidable (_ ∈ _))

-- Giving a waiting thread its priority again puts it at the end of its list.
def keepsPriority (w : Thread) : Action Thread → Bool
  | .changePriority t _ => t ≠ w
  | _ => true

-- A thread of priority p is given the processor.
def turn (p : Priority) (s next : Kernel Thread) : Nat :=
  match next.rtCurrentThread with
  | none => 0
  | some c => if s.rtCurrentThread ≠ some c ∧ (next.thread c).currentPriority = p then 1 else 0

def ahead (w : Thread) (p : Priority) (s : Kernel Thread) : Nat := (s.rtThreadPriorityTable p).idxOf w

theorem turn_same (same : next.rtCurrentThread = s.rtCurrentThread) : turn p s next = 0 := by
  rw [turn,same]
  cases s.rtCurrentThread with
  | none => rfl
  | some c => exact if_neg fun both => both.1 rfl

theorem ahead_taken {first : Thread} (l : List Thread) (other : first ≠ w) (waits : w ∈ s.rtThreadPriorityTable p) :
    ((s.rtThreadPriorityTable p ++ l).erase first).idxOf w ≤ ahead w p s := by
  have longer : (s.rtThreadPriorityTable p ++ l).idxOf w = ahead w p s := List.idxOf_append_of_mem waits
  rw [← longer]
  exact idxOf_erase_le other

-- The head of the list of w itself leaves it.
theorem ahead_head {first : Thread} {more : List Thread} (l : List Thread) (front : Head s p first more) (other : first ≠ w)
    (waits : w ∈ s.rtThreadPriorityTable p) : ((s.rtThreadPriorityTable p ++ l).erase first).idxOf w + 1 ≤ ahead w p s := by
  rw [ahead,front.first] at *
  have there : w ∈ more := (List.mem_cons.mp waits).resolve_left (Ne.symm other)
  apply Nat.le_of_eq
  rw [List.cons_append,List.erase_cons_head,List.idxOf_cons_ne _ other,List.idxOf_append_of_mem there]

theorem ahead_scheduled (sound : Sound s) (waits : Waits w p s) (scheduled : Scheduled s c next) (still : Waits w p next) :
    ahead w p next + turn p s next ≤ ahead w p s := by
  cases scheduled with
  | idle =>
    rw [turn_same rfl]
    exact Nat.le_refl _
  | stays =>
    rw [turn_same rfl]
    exact Nat.le_refl _
  | @switches q first more _ _ front _ switched =>
    have other : first ≠ w := by
      intro same
      have ready := ((switched.queued.listed w p).mp still).1.1
      rw [← same,switched.taken] at ready
      cases ready
    have table : ∃ l, next.rtThreadPriorityTable p = (s.rtThreadPriorityTable p ++ l).erase first := by
      rw [switched.table]
      split
      · exact ⟨[c],rfl⟩
      · exact ⟨[],by rw [List.append_nil]⟩
    obtain ⟨l,table⟩ := table
    rw [turn,switched.current]
    dsimp only
    rw [switched.taken,ahead,table]
    split
    case isFalse => exact ahead_taken l other waits
    case isTrue mine =>
      have here : q = p := by rw [← (head_waiting sound front).2]; exact mine.2
      cases here
      exact ahead_head l front other waits

theorem ahead_started {head : Thread} {q : Priority} {rest : List Thread} (sound : Sound s) (waits : Waits w p s) (front : Head s q head rest)
    (started : Started s head next) (still : Waits w p next) : ahead w p next + turn p s next ≤ ahead w p s := by
  have other : head ≠ w := by
    intro same
    have ready := ((started.queued.listed w p).mp still).1.1
    rw [← same,started.taken] at ready
    cases ready
  rw [turn,started.current]
  dsimp only
  rw [started.taken,ahead,started.table,← List.append_nil (s.rtThreadPriorityTable p)]
  split
  case isFalse => exact ahead_taken [] other waits
  case isTrue mine =>
    have here : q = p := by rw [← (head_waiting sound front).2]; exact mine.2
    cases here
    exact ahead_head [] front other waits

-- Nothing but a change of its own priority puts a listed thread behind others.
theorem ahead_quiet (sound : Sound s) (quiet : Quiet s a middle) (kept : keepsPriority w a = true) (waits : Waits w p s)
    (still : Waits w p middle) : ahead w p middle ≤ ahead w p s := by
  rcases quiet.lists p with ⟨l,table⟩ | ⟨t,table⟩ | ⟨t,priority,l,same,table⟩
  · rw [ahead,table]
    exact Nat.le_of_eq (List.idxOf_append_of_mem waits)
  · have other : t ≠ w := by
      intro mine
      rw [Waits,table,mine] at still
      exact (sound.queued.nodup p).not_mem_erase still
    rw [ahead,table]
    exact idxOf_erase_le other
  · have other : t ≠ w := by
      rw [same] at kept
      exact of_decide_eq_true kept
    rw [ahead,table,List.idxOf_append_of_mem ((List.mem_erase_of_ne (Ne.symm other)).mpr waits)]
    exact idxOf_erase_le other

-- A switch lists nobody but the thread that ran.
theorem scheduled_waits (other : w ≠ c) (scheduled : Scheduled middle c next) (still : Waits w p next) : Waits w p middle := by
  cases scheduled with
  | idle => exact still
  | stays => exact still
  | switches _ _ _ switched =>
    rw [Waits,switched.table] at still
    have there := List.mem_of_mem_erase still
    split at there
    · exact (List.mem_append.mp there).resolve_right fun mine => other (List.mem_singleton.mp mine)
    · exact there

theorem step_pays (orderly : Orderly s) (apart : Apart s a) (waits : Waits w p s) (kept : keepsPriority w a = true)
    (taken : step s a = some next) (still : Waits w p next) : ahead w p next + turn p s next ≤ ahead w p s := by
  cases step_stepped orderly apart taken with
  | starts _ front started => exact ahead_started orderly.toSound waits front started still
  | rests _ quiet =>
    rw [turn_same quiet.current]
    exact ahead_quiet orderly.toSound quiet kept waits still
  | @schedules middle c quiet current _ scheduled =>
    have other : w ≠ c := by
      intro same
      have ready := ((orderly.queued.listed w p).mp waits).1.1
      rw [same] at ready
      exact (orderly.standing c current).1 ready
    have there := scheduled_waits other scheduled still
    have less := ahead_scheduled quiet.orderly.toSound there scheduled still
    rw [turn,quiet.current] at less
    exact Nat.le_trans less (ahead_quiet orderly.toSound quiet kept waits there)

-- While a thread stays in its list, and whatever else is started, stopped, timed out or
-- given another priority, no more threads of its priority are given the processor than
-- were in its list before it: nobody overtakes it.
theorem waits_its_turn {priority : Thread → Priority} {tick : Thread → UInt32} {before : List (Action Thread)}
    (apart : Along step Apart (booted priority tick) before) (ran : run step (booted priority tick) before = some s)
    (waits : Along step (fun s a => Waits w p s ∧ Apart s a ∧ keepsPriority w a = true) s actions)
    (ran' : run step s actions = some after) (still : Waits w p after) :
    ahead w p after + total step (turn p) s actions ≤ ahead w p s :=
  total_le (fun s a next orderly allowed taken => step_orderly s a next orderly allowed.1 taken)
    (fun _ _ _ orderly waits allowed taken still => step_pays orderly allowed.1 waits allowed.2 taken still)
    (run_orderly (booted_orderly priority tick) apart ran) waits ran' still

-- The idle thread, given priority 20, waits behind thread 2, which gets its turn when the
-- slice of thread 1 is over.
theorem three_started_last_waits : ∃ s after, run step threeBooted threeLined = some s ∧ run step s threeTurns = some after ∧
    ahead 0 20 s = 1 ∧ total step (turn 20) s threeTurns = 1 ∧
    ahead 0 20 after + total step (turn 20) s threeTurns ≤ ahead 0 20 s := by
  have apart : Along step Apart threeBooted threeLined := by decide +kernel
  have facts : (run step threeBooted threeLined).any (fun s => decide ((run step s threeTurns).any (fun after => Waits 0 20 after) = true ∧
      Along step (fun s a => Waits 0 20 s ∧ Apart s a ∧ keepsPriority 0 a = true) s threeTurns ∧
      ahead 0 20 s = 1 ∧ total step (turn 20) s threeTurns = 1)) = true := by decide +kernel
  obtain ⟨s,ran,holds⟩ := (Option.any_eq_true _ _).mp facts
  obtain ⟨reached,waits,before,turns⟩ := of_decide_eq_true holds
  obtain ⟨after,ran',still⟩ := (Option.any_eq_true _ _).mp reached
  exact ⟨s,after,ran,ran',before,turns,waits_its_turn apart ran waits ran' (of_decide_eq_true still)⟩

end Fairness

section Rotation

def slice (s : Kernel Thread) (t : Thread) : Nat := (s.thread t).remainingTick.toNat

-- Thread c runs, the scheduler is not locked and nobody above priority p is ready.
structure Round (s : Kernel Thread) (c : Thread) (p : Priority) : Prop where
  sound : Sound s
  current : s.rtCurrentThread = some c
  running : (s.thread c).stat = .running
  open' : s.rtSchedulerLockNest = 0
  own : (s.thread c).currentPriority = p
  highest : ∀ q, s.rtThreadPriorityTable q ≠ [] → p ≤ q

theorem Round.count (round : Round s c p) : Round (s.modify c fun thread => { thread with remainingTick := thread.remainingTick - 1 }) c p where
  sound := ticked_sound round.sound round.current rfl (round.sound.masked c)
  current := round.current
  running := by rw [modify_thread_self]; exact round.running
  open' := round.open'
  own := by rw [modify_thread_self]; exact round.own
  highest := round.highest

end Rotation

end SssAlarmHost.Scheduler
