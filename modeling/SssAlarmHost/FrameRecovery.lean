import SssAlarmHost.FrameSafety
import SssAlarmHost.Ipc

namespace SssAlarmHost.FrameParser
open MessageQueue

-- What rt_mq_send answers, full telling when the free list is empty.
def mqAnswer (full : Nat → Bool) (calls : Nat) (payload : List UInt8) : RtErr × Nat :=
  (if mqMsgSize < payload.length then -rtError else if full calls then -rtEfull else rtEok,calls+1)

theorem mqAnswer_exact {maxMsgs : Nat} (mq : RtMq mqMsgSize maxMsgs) (calls : Nat) (payload : List UInt8) :
    (mq.rtMqSend payload).1 = (mqAnswer (fun _ => mq.msgQueueFree.isEmpty) calls payload).1 := by
  unfold RtMq.rtMqSend mqAnswer
  by_cases long : mqMsgSize < payload.length
  · simp [long]
  · cases free : mq.msgQueueFree with
    | nil => simp [long,RtMq.takeFree,free]
    | cons msg rest => simp [long,RtMq.takeFree,free]

structure CostsOnlyItself (beyond : Beyond) (full : Nat → Bool) (s : RxThread) (calls : Nat) (payload : List UInt8) : Prop where
  boundary : AtBoundary (feed beyond (mqAnswer full) (s,calls) (encodeFrame payload)).1.1
  nothingSent : ∀ message err,
    .send message err ∈ (feed beyond (mqAnswer full) (s,calls) (encodeFrame payload)).2 → err ≠ rtEok
  nextIntact : ∀ f : Frame,
    (sends (feed beyond (mqAnswer full) (feed beyond (mqAnswer full) (s,calls) (encodeFrame payload)).1
      (encodeFrame f.payload)).2).map Prod.fst = [f.payload]

theorem inside_frame {s : RxThread} (index : s.reopen.rxFramePkgIndex.toNat ≠ 0) : ¬AtBoundary s :=
  fun boundary => index (mid_boundary boundary).index

theorem feed_inside (beyond : Beyond) (full : Nat → Bool) {s : RxThread} (boundary : AtBoundary s) (calls : Nat)
    (bytes : List UInt8) (room : bytes.length ≤ 128)
    (goes : 3 ≤ bytes.length → announced bytes = 0 ∨ bytes.length < announced bytes + 2) :
    (feed beyond (mqAnswer full) (s,calls) bytes).1.1.reopen.rxFramePkgIndex.toNat = bytes.length := by
  obtain ⟨next,ran,mid⟩ := feed_unfinished beyond (mqAnswer full) boundary calls bytes room (unfinished_of_announced goes)
  rw [ran]
  exact mid.index

theorem empty_frame_inside (beyond : Beyond) (full : Nat → Bool) {s : RxThread} (boundary : AtBoundary s) (calls : Nat) :
    ¬AtBoundary (feed beyond (mqAnswer full) (s,calls) (encodeFrame [])).1.1 := by
  apply inside_frame
  rw [feed_inside beyond full boundary calls (encodeFrame []) (by decide) (by decide)]
  decide

-- A store past the buffer may take back the count and the length.
def takesBack : Beyond :=
  ⟨fun s _ => {s with rxFramePkgDone := false,rxFramePkgIndex := 127,framePkgLen := 0},fun _ _ => 0⟩

theorem takesBack_accept {s : RxThread} (index : s.reopen.rxFramePkgIndex.toNat = 128) (ch : UInt8) :
    s.accept takesBack ch = ⟨false,s.rxFramePkg,128,0⟩ := by
  have outside : ¬s.reopen.rxFramePkgIndex.toNat < 128 := by omega
  rw [RxThread.accept,RxThread.store,dif_neg outside,takesBack]
  simp [RxThread.decodeLen,RxThread.advance]

theorem takesBack_feed (full : Nat → Bool) (bytes : List UInt8) {s : RxThread}
    (index : s.reopen.rxFramePkgIndex.toNat = 128) (calls : Nat) :
    (feed takesBack (mqAnswer full) (s,calls) bytes).1.1.reopen.rxFramePkgIndex.toNat = 128 := by
  induction bytes generalizing s calls with
  | nil => exact index
  | cons ch rest ih =>
    have next : rxByte takesBack (mqAnswer full) (s,calls) ch =
        ((⟨false,s.rxFramePkg,128,0⟩,calls),[.store s.reopen.rxFramePkgIndex ch]) := by
      simp [rxByte,takesBack_accept index,RxThread.complete]
    rw [feed,next]
    exact ih rfl calls

theorem long_frame_inside (full : Nat → Bool) {s : RxThread} (boundary : AtBoundary s) (calls : Nat) {payload : List UInt8}
    (long : 127 ≤ payload.length) (short : payload.length ≤ 65535) :
    ¬AtBoundary (feed takesBack (mqAnswer full) (s,calls) (encodeFrame payload)).1.1 := by
  have header : announced (encodeFrame payload) = payload.length := by
    have whole := announced_frame payload (by omega) []
    rwa [List.append_nil] at whole
  have buffer : ((encodeFrame payload).take 128).length = 128 := by simp; omega
  have filled := feed_inside takesBack full boundary calls ((encodeFrame payload).take 128) (by omega) (by
    intro _
    rw [announced_take (by decide) (by simp; omega),header]
    omega)
  apply inside_frame
  rw [← List.take_append_drop 128 (encodeFrame payload),feed_append]
  rw [buffer] at filled
  exact ne_of_eq_of_ne (takesBack_feed full _ filled _) (by decide)

-- An empty frame always costs more, and after a longer one than the buffer C promises
-- nothing.
theorem bad_frame_costs_more (full : Nat → Bool) {s : RxThread} (boundary : AtBoundary s) (calls : Nat) (payload : List UInt8)
    (bad : payload.length = 0 ∨ 127 ≤ payload.length ∧ payload.length ≤ 65535) :
    ¬ ∀ beyond : Beyond, CostsOnlyItself beyond full s calls payload := by
  intro costs
  rcases bad with empty | ⟨long,short⟩
  · have none' : payload = [] := List.eq_nil_of_length_eq_zero empty
    subst none'
    exact empty_frame_inside untouched full boundary calls (costs untouched).boundary
  · exact long_frame_inside full boundary calls long short (costs takesBack).boundary

theorem bad_frame_200_costs_more :
    ¬ ∀ beyond : Beyond, CostsOnlyItself beyond (fun _ => false) (entry (fun _ => 0) 0) 0 (List.replicate 200 0) := by
  apply bad_frame_costs_more (fun _ => false) (Or.inl rfl) 0 (List.replicate 200 0)
  rw [List.length_replicate]
  decide

theorem empty_frame_loses_boundary : ¬ ∃ beyond : Beyond, CostsOnlyItself beyond (fun _ => false) (entry (fun _ => 0) 0) 0 [] := by
  rintro ⟨beyond,costs⟩
  exact empty_frame_inside beyond (fun _ => false) (Or.inl rfl) 0 costs.boundary

end SssAlarmHost.FrameParser
