import Mathlib.Data.List.Basic
import SssAlarmHost.FrameParser
import SssAlarmHost.OutputLoops

namespace SssAlarmHost.UdpHandler
open FrameParser OutputLoops

-- sizeof(read_buff).
abbrev readBuffSize : Int := 256

-- What the calls of one pass of the while loop return: sendto, select and the
-- readset it leaves, and recvfrom with read_buff after it.
structure Round where
  sendto : Int
  select : Int
  isset : Bool
  bytesRead : Int
  readBuff : UInt8 → UInt8
  fits : bytesRead ≤ readBuffSize

inductive Event where
  | sendto (success : Bool)
  | log (i byte : UInt8)
  | mdelay
  | closesocket
  | returned (err : RtErr)
  deriving DecidableEq

-- Where udp_client is after it has its socket: before a pass of the while loop,
-- in the for loop, before the delay, before its return, and after it.
inductive Position where
  | pass (udpSendFnt : Int) (k : Nat)
  | reading (udpSendFnt : Int) (k : Nat) (i : UInt8)
  | delay (udpSendFnt : Int) (k : Nat)
  | finish
  | done

def Round.received (r : Round) : Bool := r.select != 0 && r.isset

def udpClient (rounds : Nat → Round) : Position → Option (Event × Position)
  | .pass udpSendFnt k =>
    let r := rounds k
    if 0 < udpSendFnt then
      some (.sendto (decide (0 < r.sendto)),
        if r.select = 0 then .pass (udpSendFnt - 1) (k+1)
        else if r.isset then
          if r.bytesRead ≤ 0 then .delay udpSendFnt k else .reading udpSendFnt k 0
        else .delay udpSendFnt k)
    else some (.closesocket,.finish)
  | .reading udpSendFnt k i =>
    let r := rounds k
    if (i.toNat : Int) < r.bytesRead then some (.log i (r.readBuff i),.reading udpSendFnt k (i+1))
    else some (.mdelay,.pass (udpSendFnt - 1) (k+1))
  | .delay udpSendFnt k => some (.mdelay,.pass (udpSendFnt - 1) (k+1))
  | .finish => some (.returned rtEok,.done)
  | .done => none

-- The datagram of a pass: nothing unless recvfrom was called and returned a count.
def Round.datagram (r : Round) : List (UInt8 × UInt8) :=
  if r.received then (List.range r.bytesRead.toNat).map fun i => (UInt8.ofNat i,r.readBuff (UInt8.ofNat i)) else []

def Event.isSend : Event → Bool
  | .sendto _ => true
  | _ => false

def Event.logged : Event → Option (UInt8 × UInt8)
  | .log i byte => some (i,byte)
  | _ => none

-- The session ends after ten sends, with every byte of every datagram logged once
-- and in order, its socket closed once, and then the return of RT_EOK.
structure Finished (rounds : Nat → Round) (events : List Event) : Prop where
  sends : events.countP Event.isSend = 10
  logged : events.filterMap Event.logged = (List.range 10).flatMap fun k => (rounds k).datagram
  closed : events.count .closesocket = 1
  returned : ∃ before, events = before ++ [.closesocket,.returned rtEok]

def Finishes (rounds : Nat → Round) : Prop := ∃ events, Ends (udpClient rounds) (.pass 10 0) events ∧ Finished rounds events

def passEvents (r : Round) : List Event :=
  .sendto (decide (0 < r.sendto)) ::
    if r.select = 0 then [] else r.datagram.map (fun entry => .log entry.1 entry.2) ++ [.mdelay]

variable {rounds : Nat → Round}

theorem reading_goes (fnt : Int) (k : Nat) (short : (rounds k).bytesRead < readBuffSize) :
    Goes (udpClient rounds) (.reading fnt k 0)
      ((List.range (rounds k).bytesRead.toNat).map fun i => .log (UInt8.ofNat i) ((rounds k).readBuff (UInt8.ofNat i)))
      (.reading fnt k (UInt8.ofNat (rounds k).bytesRead.toNat)) := by
  have small : (rounds k).bytesRead.toNat ≤ 255 := by unfold readBuffSize at short; omega
  have steps : ∀ c : UInt8, c.toNat < (rounds k).bytesRead.toNat →
      udpClient rounds (.reading fnt k c) = some (.log c ((rounds k).readBuff c),.reading fnt k (c+1)) := by
    intro c below
    have inside : (c.toNat : Int) < (rounds k).bytesRead := by omega
    simp only [udpClient,if_pos inside]
  rw [List.range_eq_range']
  exact count_goes (Position.reading fnt k) (fun c => Event.log c ((rounds k).readBuff c)) small steps (Nat.zero_add _)

theorem reading_leaves (fnt : Int) (k : Nat) (short : (rounds k).bytesRead < readBuffSize) :
    Goes (udpClient rounds) (.reading fnt k (UInt8.ofNat (rounds k).bytesRead.toNat)) [.mdelay] (.pass (fnt - 1) (k+1)) := by
  refine .next ?_ (.here _)
  have value : (UInt8.ofNat (rounds k).bytesRead.toNat).toNat = (rounds k).bytesRead.toNat := by
    rw [UInt8.toNat_ofNat']
    unfold readBuffSize at short
    omega
  have past : ¬((UInt8.ofNat (rounds k).bytesRead.toNat).toNat : Int) < (rounds k).bytesRead := by omega
  simp only [udpClient,if_neg past]

theorem pass_goes {fnt : Int} (more : 0 < fnt) (k : Nat)
    (short : (rounds k).received = true → (rounds k).bytesRead < readBuffSize) :
    Goes (udpClient rounds) (.pass fnt k) (passEvents (rounds k)) (.pass (fnt - 1) (k+1)) := by
  by_cases timeout : (rounds k).select = 0
  · simp only [passEvents,if_pos timeout]
    exact .next (by simp only [udpClient,if_pos more,if_pos timeout]) (.here _)
  · simp only [passEvents,if_neg timeout]
    have delays : Goes (udpClient rounds) (.delay fnt k) [.mdelay] (.pass (fnt - 1) (k+1)) := .next rfl (.here _)
    by_cases readable : (rounds k).isset = true
    · have received : (rounds k).received = true := by simp [Round.received,timeout,readable]
      simp only [Round.datagram,if_pos received,List.map_map]
      by_cases failed : (rounds k).bytesRead ≤ 0
      · have none' : (rounds k).bytesRead.toNat = 0 := by omega
        rw [none']
        exact .next (by simp only [udpClient,if_pos more,if_neg timeout,if_pos readable,if_pos failed]) delays
      · have entered : udpClient rounds (.pass fnt k) =
            some (.sendto (decide (0 < (rounds k).sendto)),.reading fnt k 0) := by
          simp only [udpClient,if_pos more,if_neg timeout,if_pos readable,if_neg failed]
        exact .next entered (goes_append (reading_goes fnt k (short received)) (reading_leaves fnt k (short received)))
    · have silent : (rounds k).received = false := by simp [Round.received,readable]
      simp only [Round.datagram,silent]
      exact .next (by simp only [udpClient,if_pos more,if_neg timeout,if_neg readable]) delays

-- A full buffer keeps the for loop running for ever.
theorem full_never_ends {fnt : Int} (more : 0 < fnt) (k : Nat) (received : (rounds k).received = true)
    (full : ¬(rounds k).bytesRead < readBuffSize) (events : List Event) :
    ¬Ends (udpClient rounds) (.pass fnt k) events := by
  intro ended
  have split := received
  simp only [Round.received,Bool.and_eq_true,bne_iff_ne] at split
  obtain ⟨timeout,readable⟩ := split
  unfold readBuffSize at full
  have some' : ¬(rounds k).bytesRead ≤ 0 := by omega
  have entered : udpClient rounds (.pass fnt k) = some (.sendto (decide (0 < (rounds k).sendto)),.reading fnt k 0) := by
    simp only [udpClient,if_pos more,if_neg timeout,if_pos readable,if_neg some']
  obtain ⟨rest,_,last⟩ := (ends_iff_of_some entered events).mp ended
  have steps : ∀ c : UInt8, c.toNat < 256 →
      udpClient rounds (.reading fnt k c) = some (.log c ((rounds k).readBuff c),.reading fnt k (c+1)) := by
    intro c below
    have inside : (c.toNat : Int) < (rounds k).bytesRead := by omega
    simp only [udpClient,if_pos inside]
  exact count_never_ends (Position.reading fnt k) (fun c => Event.log c ((rounds k).readBuff c)) (Nat.le_refl 256)
      steps 0 rest last

theorem finish_goes (k : Nat) : Goes (udpClient rounds) (.pass 0 k) [.closesocket,.returned rtEok] .done :=
  .next rfl (.next rfl (.here _))

theorem session_ends (n k : Nat) (events : List Event) : Ends (udpClient rounds) (.pass n k) events ↔
    (∀ j ∈ List.range' k n, (rounds j).received = true → (rounds j).bytesRead < readBuffSize) ∧
      events = (List.range' k n).flatMap (fun j => passEvents (rounds j)) ++ [.closesocket,.returned rtEok] := by
  induction n generalizing k events with
  | zero =>
    have last : Goes (udpClient rounds) (.pass (0 : Nat) k) [.closesocket,.returned rtEok] .done := finish_goes k
    have ended : udpClient rounds .done = none := rfl
    rw [ends_through last]
    simp [ends_iff_of_none ended]
  | succ n ih =>
    have more : (0 : Int) < (n+1 : Nat) := by omega
    have less : ((n+1 : Nat) : Int) - 1 = n := by omega
    rw [List.range'_succ]
    by_cases short : (rounds k).received = true → (rounds k).bytesRead < readBuffSize
    · rw [ends_through (pass_goes more k short),less]
      simp only [ih,List.forall_mem_cons,List.flatMap_cons,List.append_assoc]
      constructor
      · rintro ⟨rest,rfl,later,rfl⟩
        exact ⟨⟨short,later⟩,rfl⟩
      · rintro ⟨⟨_,later⟩,rfl⟩
        exact ⟨_,rfl,later,rfl⟩
    · obtain ⟨received,full⟩ := Classical.not_imp.mp short
      refine iff_of_false (full_never_ends more k received full events) ?_
      rintro ⟨all,_⟩
      exact short (all k (by simp))

theorem pass_sends (r : Round) : (passEvents r).countP Event.isSend = 1 := by
  by_cases timeout : r.select = 0
  · simp [passEvents,timeout,Event.isSend]
  · have silent : r.datagram.countP (Event.isSend ∘ fun entry => .log entry.1 entry.2) = 0 :=
      List.countP_eq_zero.mpr fun _ _ => Bool.false_ne_true
    simp only [passEvents,if_neg timeout,List.countP_cons,List.countP_append,List.countP_map,silent]
    rfl

theorem pass_logged (r : Round) : (passEvents r).filterMap Event.logged = r.datagram := by
  by_cases timeout : r.select = 0
  · simp [passEvents,timeout,Event.logged,Round.datagram,Round.received]
  · have same : (Event.logged ∘ fun entry : UInt8 × UInt8 => .log entry.1 entry.2) = some := rfl
    simp only [passEvents,if_neg timeout]
    rw [List.filterMap_cons_none rfl,List.filterMap_append,List.filterMap_map,same,List.filterMap_some]
    exact List.append_nil _

theorem pass_open (r : Round) : Event.closesocket ∉ passEvents r := by
  by_cases timeout : r.select = 0 <;> simp [passEvents,timeout]

theorem passes_send (ks : List Nat) : (ks.flatMap fun j => passEvents (rounds j)).countP Event.isSend = ks.length := by
  induction ks with
  | nil => rfl
  | cons k ks ih => rw [List.flatMap_cons,List.countP_append,pass_sends,ih,List.length_cons,Nat.add_comm]

theorem passes_logged (ks : List Nat) : (ks.flatMap fun j => passEvents (rounds j)).filterMap Event.logged =
    ks.flatMap fun j => (rounds j).datagram := by
  induction ks with
  | nil => rfl
  | cons k ks ih => rw [List.flatMap_cons,List.filterMap_append,pass_logged,ih,List.flatMap_cons]

theorem passes_open (rounds : Nat → Round) (ks : List Nat) : .closesocket ∉ ks.flatMap fun j => passEvents (rounds j) := by
  intro found
  obtain ⟨j,_,member⟩ := List.mem_flatMap.mp found
  exact pass_open (rounds j) member

theorem session_finished (rounds : Nat → Round) : Finished rounds
    ((List.range 10).flatMap (fun j => passEvents (rounds j)) ++ [.closesocket,.returned rtEok]) := by
  refine ⟨?_,?_,?_,⟨_,rfl⟩⟩
  · rw [List.countP_append,passes_send]
    rfl
  · rw [List.filterMap_append,passes_logged]
    exact List.append_nil _
  · rw [List.count_append,List.count_eq_zero.mpr (passes_open rounds (List.range 10))]
    rfl

-- For all outcomes of its passes the session finishes exactly when none of them
-- receives a datagram that fills the buffer.
theorem session_finishes_iff (rounds : Nat → Round) : Finishes rounds ↔
    ∀ k < 10, (rounds k).received = true → (rounds k).bytesRead < readBuffSize := by
  have all (events : List Event) : Ends (udpClient rounds) (.pass 10 0) events ↔ _ := session_ends 10 0 events
  simp only [← List.range_eq_range'] at all
  constructor
  · rintro ⟨events,ended,_⟩ k inside
    exact ((all events).mp ended).1 k (List.mem_range.mpr inside)
  · intro short
    exact ⟨_,(all _).mpr ⟨fun j member => short j (List.mem_range.mp member),rfl⟩,session_finished rounds⟩

-- The first datagram has 256 bytes.
def fullBuffer : Round := ⟨12,1,true,256,fun _ => 0,Int.le_refl _⟩

theorem full_buffer_hangs : ¬ ∀ rounds : Nat → Round, Finishes rounds := by
  intro all
  obtain ⟨events,ended,_⟩ := all fun _ => fullBuffer
  exact full_never_ends (by decide) 0 rfl (by decide) events ended

end SssAlarmHost.UdpHandler
