import Mathlib.Logic.Function.Basic
import SssAlarmHost.LittleEndian

namespace SssAlarmHost.FrameParser
open LittleEndian

-- rt_err_t and the codes of rtdef.h that uart3_rx_thread_entry compares with.
abbrev RtErr := Int

def rtEok : RtErr := 0
def rtError : RtErr := 1
def rtEfull : RtErr := 3

-- The locals of uart3_rx_thread_entry. The index is eight bits wide: it can leave
-- the 128 bytes of rx_frame_pkg.
structure RxThread where
  rxFramePkgDone : Bool
  rxFramePkg : Fin 128 → UInt8
  rxFramePkgIndex : UInt8
  framePkgLen : UInt16

-- What C leaves undefined: the locals after a store past the end of rx_frame_pkg, and
-- a byte read from there. Every result is for all of it.
structure Beyond where
  store : RxThread → UInt8 → RxThread
  load : RxThread → Nat → UInt8

-- One of the many: such a store changes no local.
def untouched : Beyond := ⟨fun s _ => s,fun _ _ => 0⟩

def uint16Decode (encoded : Fin 128 → UInt8) : UInt16 := word16 (encoded ⟨0,by decide⟩) (encoded ⟨1,by decide⟩)

-- Buffer and length are uninitialised on entry.
def entry (pkg : Fin 128 → UInt8) (len : UInt16) : RxThread := ⟨true,pkg,0,len⟩

def RxThread.reopen (s : RxThread) : RxThread :=
  if s.rxFramePkgDone then {s with rxFramePkgDone := false,rxFramePkgIndex := 0,framePkgLen := 0} else s

def RxThread.store (s : RxThread) (beyond : Beyond) (ch : UInt8) : RxThread :=
  if inside : s.rxFramePkgIndex.toNat < 128 then
    {s with rxFramePkg := Function.update s.rxFramePkg ⟨s.rxFramePkgIndex.toNat,inside⟩ ch}
  else beyond.store s ch

def RxThread.decodeLen (s : RxThread) : RxThread :=
  if s.rxFramePkgIndex = 2 then {s with framePkgLen := uint16Decode s.rxFramePkg} else s

def RxThread.advance (s : RxThread) : RxThread := {s with rxFramePkgIndex := s.rxFramePkgIndex + 1}

def RxThread.accept (s : RxThread) (beyond : Beyond) (ch : UInt8) : RxThread :=
  ((s.reopen.store beyond ch).decodeLen).advance

-- sizeof is a 32-bit unsigned value: the subtraction wraps for index 0 and 1.
def RxThread.complete (s : RxThread) : Bool :=
  s.framePkgLen != 0 && s.framePkgLen.toUInt32 == s.rxFramePkgIndex.toUInt32 - 2

def RxThread.load (s : RxThread) (beyond : Beyond) (i : Nat) : UInt8 :=
  if inside : i < 128 then s.rxFramePkg ⟨i,inside⟩ else beyond.load s i

-- What rt_mq_send is given: frame_pkg_len bytes from &rx_frame_pkg[2].
def RxThread.payload (s : RxThread) (beyond : Beyond) : List UInt8 :=
  (List.range s.framePkgLen.toNat).map fun i => s.load beyond (2+i)

def report (err : RtErr) : String :=
  if err = -rtEfull then "alpha mq is full\n"
  else if err = -rtError then "send data to alpha mq fail \n"
  else "finish a rx pkg && send data to alpha mq \n"

inductive Effect where
  | store (index : UInt8) (ch : UInt8)
  | send (payload : List UInt8) (err : RtErr)
  | print (text : String)
  deriving DecidableEq, Repr

variable (beyond : Beyond) {Q : Type} (rtMqSend : Q → List UInt8 → RtErr × Q)

-- One round of the loop of uart3_rx_thread_entry, the byte already read. The
-- queue behind rt_mq_send is whatever Q is; all three results end the frame.
def rxByte (s : RxThread × Q) (ch : UInt8) : (RxThread × Q) × List Effect :=
  let stored := Effect.store s.1.reopen.rxFramePkgIndex ch
  let next := s.1.accept beyond ch
  if next.complete then
    let sent := rtMqSend s.2 (next.payload beyond)
    (({next with rxFramePkgDone := true},sent.2),[stored,.send (next.payload beyond) sent.1,.print (report sent.1)])
  else ((next,s.2),[stored])

def feed (s : RxThread × Q) : List UInt8 → (RxThread × Q) × List Effect
  | [] => (s,[])
  | ch :: rest =>
    let one := rxByte beyond rtMqSend s ch
    let more := feed one.1 rest
    (more.1,one.2 ++ more.2)

theorem feed_append (s : RxThread × Q) (first second : List UInt8) :
    feed beyond rtMqSend s (first ++ second) =
      ((feed beyond rtMqSend (feed beyond rtMqSend s first).1 second).1,
        (feed beyond rtMqSend s first).2 ++ (feed beyond rtMqSend (feed beyond rtMqSend s first).1 second).2) := by
  induction first generalizing s with
  | nil => simp [feed]
  | cons ch rest ih => simp only [List.cons_append,feed,ih,List.append_assoc]

-- The next byte is taken as the first of a frame. An index of zero without the
-- flag stores and counts in the same places.
def AtBoundary (s : RxThread) : Prop := s.rxFramePkgDone = true ∨ s.rxFramePkgIndex = 0

def announced (bytes : List UInt8) : Nat := (bytes.getD 0 0).toNat + 256*(bytes.getD 1 0).toNat

def Completes (seen : List UInt8) : Prop := 3 ≤ seen.length ∧ announced seen + 2 = seen.length

instance (seen : List UInt8) : Decidable (Completes seen) := by unfold Completes; infer_instance

-- The thread inside a frame of which it has seen these bytes, none past the buffer.
structure Mid (seen : List UInt8) (s : RxThread) : Prop where
  short : seen.length ≤ 128
  index : s.reopen.rxFramePkgIndex.toNat = seen.length
  stored : ∀ i (inside : i < seen.length), s.rxFramePkg ⟨i,Nat.lt_of_lt_of_le inside short⟩ = seen[i]
  decoded : 3 ≤ seen.length → s.reopen.framePkgLen.toNat = announced seen

@[simp] theorem reopen_pkg (s : RxThread) : s.reopen.rxFramePkg = s.rxFramePkg := by
  unfold RxThread.reopen; split <;> rfl

@[simp] theorem reopen_done (s : RxThread) : s.reopen.rxFramePkgDone = false := by
  unfold RxThread.reopen
  split
  · rfl
  · rename_i pending; simpa using pending

theorem reopen_open {s : RxThread} (pending : s.rxFramePkgDone = false) : s.reopen = s := by
  simp [RxThread.reopen,pending]

section Inside
variable {beyond : Beyond} {s : RxThread} (inside : s.reopen.rxFramePkgIndex.toNat < 128) (ch : UInt8)
include inside

theorem store_inside : s.reopen.store beyond ch =
    {s.reopen with rxFramePkg := Function.update s.rxFramePkg ⟨s.reopen.rxFramePkgIndex.toNat,inside⟩ ch} := by
  rw [RxThread.store,dif_pos inside,reopen_pkg]

theorem accept_done : (s.accept beyond ch).rxFramePkgDone = false := by
  rw [RxThread.accept,store_inside inside]
  unfold RxThread.advance RxThread.decodeLen
  split <;> simp

theorem accept_index : (s.accept beyond ch).rxFramePkgIndex = s.reopen.rxFramePkgIndex + 1 := by
  rw [RxThread.accept,store_inside inside]
  unfold RxThread.advance RxThread.decodeLen
  split <;> rfl

theorem accept_pkg : (s.accept beyond ch).rxFramePkg =
    Function.update s.rxFramePkg ⟨s.reopen.rxFramePkgIndex.toNat,inside⟩ ch := by
  rw [RxThread.accept,store_inside inside]
  unfold RxThread.advance RxThread.decodeLen
  split <;> rfl

theorem accept_len : (s.accept beyond ch).framePkgLen =
    if s.reopen.rxFramePkgIndex = 2 then uint16Decode (s.accept beyond ch).rxFramePkg else s.reopen.framePkgLen := by
  rw [accept_pkg inside,RxThread.accept,store_inside inside]
  unfold RxThread.advance RxThread.decodeLen
  split <;> simp_all

end Inside

theorem complete_iff (s : RxThread) : s.complete = true ↔
    s.framePkgLen ≠ 0 ∧ s.framePkgLen.toNat + 2 = s.rxFramePkgIndex.toNat := by
  have lenBound := s.framePkgLen.toNat_lt
  have indexBound := s.rxFramePkgIndex.toNat_lt
  have zero : s.framePkgLen = 0 ↔ s.framePkgLen.toNat = 0 := by
    rw [← UInt16.toNat_inj]; simp
  simp only [RxThread.complete,Bool.and_eq_true,bne_iff_ne,beq_iff_eq,← UInt32.toNat_inj,
    UInt16.toNat_toUInt32,UInt32.toNat_sub,UInt8.toNat_toUInt32,UInt32.reduceToNat,ne_eq,zero]
  omega

theorem announced_append {seen : List UInt8} (header : 2 ≤ seen.length) (more : List UInt8) :
    announced (seen ++ more) = announced seen := by
  simp only [announced,List.getD_eq_getElem?_getD]
  rw [List.getElem?_append_left (by omega),List.getElem?_append_left (by omega)]

theorem index_ofNat {n : Nat} (small : n < 256) {index : UInt8} (value : index.toNat = n) :
    index = UInt8.ofNat n := by
  apply UInt8.toNat_inj.mp
  rw [value,UInt8.toNat_ofNat',Nat.mod_eq_of_lt small]

theorem mid_boundary {s : RxThread} (boundary : AtBoundary s) : Mid [] s := by
  refine ⟨by simp,?_,by simp,by simp⟩
  rcases boundary with done | zero
  · simp [RxThread.reopen,done]
  · unfold RxThread.reopen
    split <;> simp [zero]

theorem mid_inside {seen : List UInt8} {s : RxThread} (mid : Mid seen s) (room : seen.length < 128) :
    s.reopen.rxFramePkgIndex.toNat < 128 := by
  rw [mid.index]
  exact room

section Inside
variable (beyond : Beyond) {seen : List UInt8} {s : RxThread} (mid : Mid seen s) (room : seen.length < 128) (ch : UInt8)
include mid room

theorem mid_next : (s.accept beyond ch).rxFramePkgIndex.toNat = seen.length + 1 := by
  have small : seen.length + 1 < 256 := by omega
  rw [accept_index (mid_inside mid room),UInt8.toNat_add,mid.index]
  exact Nat.mod_eq_of_lt small

theorem mid_stored (i : Nat) (inside : i < (seen ++ [ch]).length) (cell : i < 128) :
    (s.accept beyond ch).rxFramePkg ⟨i,cell⟩ = (seen ++ [ch])[i] := by
  have here := mid.index
  rw [accept_pkg (mid_inside mid room)]
  by_cases last : i = seen.length
  · subst last
    have same : (⟨s.reopen.rxFramePkgIndex.toNat,mid_inside mid room⟩ : Fin 128) = ⟨seen.length,cell⟩ := Fin.ext here
    rw [same,Function.update_self,List.getElem_append_right (Nat.le_refl _)]
    simp
  · have earlier : i < seen.length := by simp at inside; omega
    have apart : (⟨i,cell⟩ : Fin 128) ≠ ⟨s.reopen.rxFramePkgIndex.toNat,mid_inside mid room⟩ := by
      intro same
      exact last ((Fin.mk.inj same).trans here)
    rw [Function.update_of_ne apart,mid.stored i earlier,List.getElem_append_left earlier]

theorem mid_decoded (header : 3 ≤ (seen ++ [ch]).length) :
    (s.accept beyond ch).framePkgLen.toNat = announced (seen ++ [ch]) := by
  have length : 2 ≤ seen.length := by simp at header; omega
  rw [accept_len (mid_inside mid room)]
  by_cases third : seen.length = 2
  · have two : s.reopen.rxFramePkgIndex = 2 := by rw [index_ofNat (by omega) mid.index,third]; rfl
    have low := mid_stored beyond mid room ch 0 (by simp) (by decide)
    have high := mid_stored beyond mid room ch 1 (by simp; omega) (by decide)
    rw [if_pos two,uint16Decode,word16_toNat]
    change ((s.accept beyond ch).rxFramePkg ⟨0,by decide⟩).toNat +
      256*((s.accept beyond ch).rxFramePkg ⟨1,by decide⟩).toNat = _
    rw [low,high]
    simp only [announced,List.getD_eq_getElem?_getD]
    rw [List.getElem?_eq_getElem (by simp),List.getElem?_eq_getElem (by simp; omega)]
    rfl
  · have other : s.reopen.rxFramePkgIndex ≠ 2 := by
      intro two
      have value := mid.index
      rw [two] at value
      exact third value.symm
    rw [if_neg other,mid.decoded (by omega),announced_append length]

theorem mid_accept : Mid (seen ++ [ch]) (s.accept beyond ch) := by
  have still : (s.accept beyond ch).reopen = s.accept beyond ch := reopen_open (accept_done (mid_inside mid room) ch)
  refine ⟨by simp; omega,?_,fun i inside => mid_stored beyond mid room ch i inside _,?_⟩
  · rw [still,mid_next beyond mid room]
    simp
  · rw [still]
    exact mid_decoded beyond mid room ch

theorem mid_complete : (s.accept beyond ch).complete = true ↔ Completes (seen ++ [ch]) := by
  have next := mid_next beyond mid room ch
  rw [complete_iff,next]
  constructor
  · rintro ⟨positive,value⟩
    have nonzero : (s.accept beyond ch).framePkgLen.toNat ≠ 0 := by
      intro zero; exact positive (UInt16.toNat_inj.mp zero)
    have header : 3 ≤ (seen ++ [ch]).length := by simp; omega
    rw [mid_decoded beyond mid room ch header] at value
    exact ⟨header,by simpa using value⟩
  · rintro ⟨header,value⟩
    have decoded := mid_decoded beyond mid room ch header
    refine ⟨?_,by rw [decoded,value]; simp⟩
    intro zero
    rw [zero] at decoded
    simp at *
    omega

theorem mid_payload (completes : Completes (seen ++ [ch])) : (s.accept beyond ch).payload beyond = (seen ++ [ch]).drop 2 := by
  have decoded := mid_decoded beyond mid room ch completes.1
  have value := completes.2
  apply List.ext_getElem
  · simp only [RxThread.payload,List.length_map,List.length_range,List.length_drop]; omega
  · intro i left right
    have inside : 2 + i < (seen ++ [ch]).length := by simp at right; simp; omega
    have cell : 2 + i < 128 := by simp at inside; omega
    simp only [RxThread.payload,List.getElem_map,List.getElem_range,List.getElem_drop,RxThread.load]
    rw [dif_pos cell]
    exact mid_stored beyond mid room ch (2+i) inside cell

end Inside

end SssAlarmHost.FrameParser
