import SssAlarmHost.FrameRuns

namespace SssAlarmHost.FrameParser

-- A frame the protocol means: its payload fits the 128-byte buffer behind the
-- two length bytes, and a length of zero is not a frame.
structure Frame where
  payload : List UInt8
  positive : 1 ≤ payload.length
  fits : payload.length ≤ 126

def wire (frames : List Frame) : List UInt8 := frames.flatMap fun f => encodeFrame f.payload

theorem wire_cons (f : Frame) (frames : List Frame) : wire (f :: frames) = encodeFrame f.payload ++ wire frames := rfl

def sends (effects : List Effect) : List (List UInt8 × RtErr) :=
  effects.filterMap fun
    | .send payload err => some (payload,err)
    | _ => none

@[simp] theorem sends_append (first second : List Effect) : sends (first ++ second) = sends first ++ sends second :=
  List.filterMap_append

@[simp] theorem sends_stores (start : Nat) (bytes : List UInt8) : sends (stores start bytes) = [] := by
  induction bytes generalizing start with
  | nil => rfl
  | cons ch rest ih => exact ih (start+1)

@[simp] theorem sends_sent (payload : List UInt8) (err : RtErr) :
    sends [.send payload err,.print (report err)] = [(payload,err)] := rfl

theorem feed_sends (beyond : Beyond) {Q : Type} (rtMqSend : Q → List UInt8 → RtErr × Q) {s : RxThread} (boundary : AtBoundary s)
    (q : Q) (f : Frame) : ∃ next, (feed beyond rtMqSend (s,q) (encodeFrame f.payload)).1 = (next,(rtMqSend q f.payload).2) ∧
      sends (feed beyond rtMqSend (s,q) (encodeFrame f.payload)).2 = [(f.payload,(rtMqSend q f.payload).1)] ∧
      next.rxFramePkgDone = true := by
  obtain ⟨next,ran,done⟩ := feed_frame beyond rtMqSend boundary q f.payload f.positive f.fits
  exact ⟨next,by rw [ran],by rw [ran,sends_append,sends_stores,sends_sent]; rfl,done⟩

-- A queue that answers by a fixed sequence of results and keeps what it took.
structure Answering where
  calls : Nat
  queued : List (List UInt8)

def answer (reply : Nat → RtErr) (q : Answering) (payload : List UInt8) : RtErr × Answering :=
  (reply q.calls,⟨q.calls+1,if reply q.calls = rtEok then q.queued ++ [payload] else q.queued⟩)

def accepted (reply : Nat → RtErr) (start : Nat) (frames : List Frame) : List (List UInt8) :=
  ((frames.zipIdx start).filter fun sent => reply sent.2 = rtEok).map fun sent => sent.1.payload

theorem accepted_cons (reply : Nat → RtErr) (start : Nat) (f : Frame) (frames : List Frame) :
    accepted reply start (f :: frames) =
      (if reply start = rtEok then [f.payload] else []) ++ accepted reply (start+1) frames := by
  by_cases ok : reply start = rtEok <;> simp [accepted,List.zipIdx_cons,ok]

structure Delivered (reply : Nat → RtErr) (frames : List Frame) (before : Answering)
    (after : (RxThread × Answering) × List Effect) : Prop where
  sent : sends after.2 = (frames.zipIdx before.calls).map fun one => (one.1.payload,reply one.2)
  queued : after.1.2.queued = before.queued ++ accepted reply before.calls frames
  done : after.1.1.rxFramePkgDone = true

-- Induction on the frames: each starts where the previous one ended, at a
-- boundary, so neither a refused send nor the stale bytes carry over.
theorem frames_delivered (beyond : Beyond) (reply : Nat → RtErr) (frames : List Frame) {s : RxThread}
    (done : s.rxFramePkgDone = true) (q : Answering) :
    Delivered reply frames q (feed beyond (answer reply) (s,q) (wire frames)) := by
  induction frames generalizing s q with
  | nil => exact ⟨rfl,by simp [wire,feed,accepted],done⟩
  | cons f frames ih =>
    obtain ⟨next,ran,sent,nextDone⟩ := feed_sends beyond (answer reply) (Or.inl done) q f
    have rest := ih nextDone (answer reply q f.payload).2
    rw [wire_cons,feed_append,ran]
    refine ⟨?_,?_,rest.done⟩
    · rw [sends_append,sent,rest.sent]
      simp [List.zipIdx_cons,answer]
    · rw [rest.queued,accepted_cons]
      by_cases ok : reply q.calls = rtEok <;> simp [answer,ok]

-- Any initial buffer, any list of frames and any results of rt_mq_send: one call
-- a frame with its payload, a boundary after each frame, and the queue holds
-- exactly the payloads that were accepted.
theorem uart3_frames_delivered (beyond : Beyond) (reply : Nat → RtErr) (pkg : Fin 128 → UInt8) (len : UInt16) (frames : List Frame) :
    sends (feed beyond (answer reply) (entry pkg len,⟨0,[]⟩) (wire frames)).2 =
        frames.zipIdx.map (fun one => (one.1.payload,reply one.2)) ∧
      (feed beyond (answer reply) (entry pkg len,⟨0,[]⟩) (wire frames)).1.2.queued = accepted reply 0 frames ∧
      ∀ n, (feed beyond (answer reply) (entry pkg len,⟨0,[]⟩) (wire (frames.take n))).1.1.rxFramePkgDone = true := by
  have whole := frames_delivered beyond reply frames (s := entry pkg len) rfl ⟨0,[]⟩
  refine ⟨whole.sent,by simpa using whole.queued,?_⟩
  intro n
  exact (frames_delivered beyond reply (frames.take n) (s := entry pkg len) rfl ⟨0,[]⟩).done

end SssAlarmHost.FrameParser
