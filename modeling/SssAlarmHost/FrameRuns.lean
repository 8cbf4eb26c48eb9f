import SssAlarmHost.FrameParser

namespace SssAlarmHost.FrameParser
open LittleEndian

variable (beyond : Beyond) {Q : Type} (rtMqSend : Q → List UInt8 → RtErr × Q)

-- The frame format of both directions: payload length, low byte first, payload.
def encodeFrame (payload : List UInt8) : List UInt8 := bytes16 (UInt16.ofNat payload.length) ++ payload

def stores : Nat → List UInt8 → List Effect
  | _,[] => []
  | start,ch :: rest => .store (UInt8.ofNat start) ch :: stores (start+1) rest

theorem stores_append (start : Nat) (first second : List UInt8) :
    stores start (first ++ second) = stores start first ++ stores (start+first.length) second := by
  induction first generalizing start with
  | nil => rfl
  | cons ch rest ih =>
    have shifted : start + 1 + rest.length = start + (rest.length + 1) := by omega
    simp only [List.cons_append,stores,ih,List.length_cons,shifted]

@[simp] theorem encodeFrame_length (payload : List UInt8) :
    (encodeFrame payload).length = payload.length + 2 := by
  simp [encodeFrame]; omega

@[simp] theorem encodeFrame_drop (payload : List UInt8) : (encodeFrame payload).drop 2 = payload := rfl

theorem announced_frame (payload : List UInt8) (short : payload.length < 65536) (more : List UInt8) :
    announced (encodeFrame payload ++ more) = payload.length := by
  have word := word16_toNat (UInt16.ofNat payload.length).toUInt8 ((UInt16.ofNat payload.length) >>> 8).toUInt8
  rw [word16_bytes,UInt16.toNat_ofNat',Nat.mod_eq_of_lt short] at word
  exact word.symm

theorem announced_take {bytes : List UInt8} {k : Nat} (header : 2 ≤ k) (inside : k ≤ bytes.length) :
    announced (bytes.take k) = announced bytes := by
  have parts : announced (bytes.take k ++ bytes.drop k) = announced (bytes.take k) :=
    announced_append (by simp; omega) _
  rw [List.take_append_drop] at parts
  exact parts.symm

theorem frame_split {bytes : List UInt8} (whole : announced bytes + 2 ≤ bytes.length) :
    ∃ payload rest, payload.length = announced bytes ∧ bytes = encodeFrame payload ++ rest := by
  match bytes with
  | [] => simp at whole
  | [_] => simp at whole
  | lo :: hi :: tail =>
    refine ⟨tail.take (announced (lo :: hi :: tail)),tail.drop (announced (lo :: hi :: tail)),?_,?_⟩
    · simp at whole ⊢; omega
    · have length : (tail.take (announced (lo :: hi :: tail))).length = announced (lo :: hi :: tail) := by
        simp at whole ⊢; omega
      have low := lo.toNat_lt
      have high := hi.toNat_lt
      have word : UInt16.ofNat (announced (lo :: hi :: tail)) = word16 lo hi := by
        apply UInt16.toNat_inj.mp
        rw [word16_toNat,UInt16.toNat_ofNat']
        simp [announced]
        omega
      have first : (word16 lo hi).toUInt8 = lo := by
        apply UInt8.toNat_inj.mp
        rw [UInt16.toNat_toUInt8,word16_toNat]
        omega
      have second : ((word16 lo hi) >>> 8).toUInt8 = hi := by
        apply UInt8.toNat_inj.mp
        rw [UInt16.toNat_toUInt8,UInt16.toNat_shiftRight,word16_toNat]
        simp only [UInt16.reduceToNat,Nat.reduceMod,Nat.shiftRight_eq_div_pow,Nat.reducePow]
        omega
      rw [encodeFrame,length,word,bytes16,first,second]
      simp

theorem snoc_of_length {n : Nat} {bytes : List UInt8} (length : bytes.length = n+1) :
    ∃ front last, bytes = front ++ [last] ∧ front.length = n := by
  obtain empty | ⟨front,last,split⟩ := List.eq_nil_or_concat' bytes
  · rw [empty] at length; simp at length
  · exact ⟨front,last,split,by rw [split] at length; simpa using length⟩

theorem rxByte_quiet {seen : List UInt8} {s : RxThread} (mid : Mid seen s) (room : seen.length < 128) (q : Q) (ch : UInt8)
    (goes : ¬Completes (seen ++ [ch])) :
    rxByte beyond rtMqSend (s,q) ch = ((s.accept beyond ch,q),[.store (UInt8.ofNat seen.length) ch]) := by
  have incomplete : (s.accept beyond ch).complete = false := by
    cases done : (s.accept beyond ch).complete with
    | false => rfl
    | true => exact absurd ((mid_complete beyond mid room ch).mp done) goes
  simp [rxByte,incomplete,index_ofNat (by omega) mid.index]

theorem rxByte_sends {seen : List UInt8} {s : RxThread} (mid : Mid seen s) (room : seen.length < 128) (q : Q) (ch : UInt8)
    (completes : Completes (seen ++ [ch])) :
    rxByte beyond rtMqSend (s,q) ch =
      (({s.accept beyond ch with rxFramePkgDone := true},(rtMqSend q ((seen ++ [ch]).drop 2)).2),
        [.store (UInt8.ofNat seen.length) ch,
          .send ((seen ++ [ch]).drop 2) (rtMqSend q ((seen ++ [ch]).drop 2)).1,
          .print (report (rtMqSend q ((seen ++ [ch]).drop 2)).1)]) := by
  have complete : (s.accept beyond ch).complete = true := (mid_complete beyond mid room ch).mpr completes
  simp [rxByte,complete,mid_payload beyond mid room ch completes,index_ofNat (by omega) mid.index]

theorem feed_quiet {seen : List UInt8} {s : RxThread} (mid : Mid seen s) (q : Q) (bytes : List UInt8)
    (room : seen.length + bytes.length ≤ 128)
    (goes : ∀ k, 0 < k → k ≤ bytes.length → ¬Completes (seen ++ bytes.take k)) :
    ∃ next, feed beyond rtMqSend (s,q) bytes = ((next,q),stores seen.length bytes) ∧ Mid (seen ++ bytes) next := by
  induction bytes generalizing seen s with
  | nil => exact ⟨s,rfl,by simpa using mid⟩
  | cons ch rest ih =>
    rw [List.length_cons] at room
    have first : ¬Completes (seen ++ [ch]) := by simpa using goes 1 (by decide) (by simp)
    have step := rxByte_quiet beyond rtMqSend mid (by omega) q ch first
    have inside : Mid (seen ++ [ch]) (s.accept beyond ch) := mid_accept beyond mid (by omega) ch
    obtain ⟨next,ran,after⟩ := ih inside (by simp; omega) (by
      intro k positive bound
      have later := goes (k+1) (by omega) (by simp; omega)
      simpa using later)
    refine ⟨next,?_,by simpa using after⟩
    simp [feed,step,ran,stores]

-- The two ways a run from a boundary can stay inside the buffer: a whole frame, or
-- bytes that stop short of one.
theorem feed_frame {s : RxThread} (boundary : AtBoundary s) (q : Q) (payload : List UInt8)
    (positive : 1 ≤ payload.length) (fits : payload.length ≤ 126) :
    ∃ next, feed beyond rtMqSend (s,q) (encodeFrame payload) = ((next,(rtMqSend q payload).2),
        stores 0 (encodeFrame payload) ++
          [.send payload (rtMqSend q payload).1,.print (report (rtMqSend q payload).1)]) ∧
      next.rxFramePkgDone = true := by
  have whole := announced_frame payload (by omega) []
  simp only [List.append_nil] at whole
  obtain ⟨front,last,split,length⟩ := snoc_of_length (encodeFrame_length payload)
  have completes : Completes (front ++ [last]) := by
    rw [← split]
    exact ⟨by simp; omega,by simp [whole]⟩
  obtain ⟨middle,ran,mid⟩ := feed_quiet beyond rtMqSend (mid_boundary boundary) q front (by simp; omega) (by
    intro k k0 bound early
    have three := early.1
    have value := early.2
    simp only [List.nil_append,List.length_take] at three value
    have same : announced (front.take k) = payload.length := by
      rw [announced_take (by omega) bound,← whole,split,announced_append (by omega)]
    omega)
  have last_step := rxByte_sends beyond rtMqSend mid (by simp; omega) q last (by simpa using completes)
  refine ⟨{middle.accept beyond last with rxFramePkgDone := true},?_,rfl⟩
  have body : (front ++ [last]).drop 2 = payload := by rw [← split]; exact encodeFrame_drop payload
  simp only [List.nil_append,body] at last_step
  rw [split,feed_append,ran]
  simp [feed,last_step,stores_append,stores]

def Unfinished (bytes : List UInt8) : Prop :=
  ∀ k, 0 < k → k ≤ bytes.length → ¬Completes (bytes.take k)

theorem unfinished_of_announced {bytes : List UInt8}
    (open' : 3 ≤ bytes.length → announced bytes = 0 ∨ bytes.length < announced bytes + 2) :
    Unfinished bytes := by
  intro k positive bound completes
  have three := completes.1
  have value := completes.2
  simp only [List.length_take] at three value
  rw [announced_take (by omega) bound] at value
  have choice := open' (by omega)
  omega

theorem feed_unfinished {s : RxThread} (boundary : AtBoundary s) (q : Q) (bytes : List UInt8)
    (room : bytes.length ≤ 128) (goes : Unfinished bytes) :
    ∃ next, feed beyond rtMqSend (s,q) bytes = ((next,q),stores 0 bytes) ∧ Mid bytes next := by
  obtain ⟨next,ran,mid⟩ := feed_quiet beyond rtMqSend (mid_boundary boundary) q bytes (by simpa using room)
    (by simpa [Unfinished] using goes)
  exact ⟨next,by simpa using ran,by simpa using mid⟩

end SssAlarmHost.FrameParser
