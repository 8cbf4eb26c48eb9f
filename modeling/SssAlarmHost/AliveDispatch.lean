import SssAlarmHost.AlphaCommands
import SssAlarmHost.MachineRuns
import SssAlarmHost.Ipc

namespace SssAlarmHost.AliveDispatch
open FrameParser MessageQueue MachineRuns AlphaCommands

abbrev Item := Fin mqMaxMsgs
abbrev Buff := Fin mqMsgSize → UInt8

-- uart3_rx_thread_entry between two parts of rt_mq_send.
inductive Sender where
  | looping
  | sending (payload : List UInt8)
  | copying (msg : Item) (payload : List UInt8)
  | linking (msg : Item) (payload : List UInt8)

-- parsing_rx_alpha_data between two parts of rt_mq_recv, and before its switch.
inductive Receiver where
  | waiting
  | copying (msg : Item)
  | releasing (msg : Item) (buff : Buff)
  | returned (buff : Buff)

-- Both threads and the queue. The results of rt_mq_send and the texts printed
-- for each message are kept as histories.
structure Dispatch where
  incoming : List UInt8
  rx : RxThread
  sender : Sender
  mq : RtMq mqMsgSize mqMaxMsgs
  receiver : Receiver
  results : List (List UInt8 × RtErr)
  outputs : List (List String)

def start (msgPool : Item → Buff) (pkg : Fin 128 → UInt8) (len : UInt16) (incoming : List UInt8) : Dispatch :=
  ⟨incoming,entry pkg len,.looping,rtMqCreate msgPool,.waiting,[],[]⟩

-- What parsing_rx_alpha_data prints for one message: its switch looks at buff[1]
-- of the 128 bytes it got, however long the message was.
def dispatch (buff : Buff) : List String :=
  "recv a mq \n" :: if buff 1 = AlphaEventAccess.alive.code then ["alpha chip is alive \n"] else []

inductive Action where
  | receive
  | takeFree
  | copyIn
  | link
  | unlink
  | copyOut
  | release
  | print

def sent (s : Dispatch) (payload : List UInt8) (err : RtErr) : Dispatch :=
  {s with
    rx := {s.rx with rxFramePkgDone := true},sender := .looping
    results := s.results ++ [(payload,err)]}

variable (beyond : Beyond)

def receive (s : Dispatch) (ch : UInt8) (rest : List UInt8) : Dispatch :=
  let next := s.rx.accept beyond ch
  {s with incoming := rest,rx := next,sender := if next.complete then .sending (next.payload beyond) else .looping}

def takeFree (s : Dispatch) (payload : List UInt8) : Dispatch :=
  if mqMsgSize < payload.length then sent s payload (-rtError)
  else match s.mq.takeFree with
    | none => sent s payload (-rtEfull)
    | some (msg,mq) => {s with mq := mq,sender := .copying msg payload}

-- A full list of who may do what next; the bytes of an item are copied in one
-- action, since no one else has the item meanwhile.
def step (s : Dispatch) : Action → Option Dispatch
  | .receive => match s.sender,s.incoming with
    | .looping,ch :: rest => some (receive beyond s ch rest)
    | _,_ => none
  | .takeFree => match s.sender with
    | .sending payload => some (takeFree s payload)
    | _ => none
  | .copyIn => match s.sender with
    | .copying msg payload => some {s with mq := s.mq.copyIn msg payload,sender := .linking msg payload}
    | _ => none
  | .link => match s.sender with
    | .linking msg payload => some (sent {s with mq := s.mq.link msg} payload rtEok)
    | _ => none
  | .unlink => match s.receiver,s.mq.unlink with
    | .waiting,some (msg,mq) => some {s with mq := mq,receiver := .copying msg}
    | _,_ => none
  | .copyOut => match s.receiver with
    | .copying msg => some {s with receiver := .releasing msg (s.mq.msgPool msg)}
    | _ => none
  | .release => match s.receiver with
    | .releasing msg buff => some {s with mq := s.mq.release msg,receiver := .returned buff}
    | _ => none
  | .print => match s.receiver with
    | .returned buff => some {s with receiver := .waiting,outputs := s.outputs ++ [dispatch buff]}
    | _ => none

def acceptedResults (results : List (List UInt8 × RtErr)) : List (List UInt8) :=
  (results.filter fun r => r.2 = rtEok).map Prod.fst

def Dispatch.accepted (s : Dispatch) : List (List UInt8) := acceptedResults s.results

-- What a payload alone says should be printed for it.
def announce (payload : List UInt8) : List String :=
  "recv a mq \n" :: if payload[1]? = some AlphaEventAccess.alive.code then ["alpha chip is alive \n"] else []

structure ByFrames (frames : List Frame) (s : Dispatch) : Prop where
  offered : s.results.map Prod.fst = (frames.take s.results.length).map Frame.payload
  onlyWhenFull : ∀ result ∈ s.results, result.2 = rtEok ∨ result.2 = -rtEfull
  reported : s.outputs = (s.accepted.take s.outputs.length).map announce
  drained : s.receiver = .waiting → s.mq.msgQueue = [] → s.outputs = s.accepted.map announce

-- A one-byte payload never goes into an item whose second byte says alive.
def NoStaleAlive (s : Dispatch) (a : Action) : Prop :=
  match a,s.sender,s.mq.msgQueueFree with
  | .takeFree,.sending [_],msg :: _ => s.mq.msgPool msg 1 ≠ AlphaEventAccess.alive.code
  | _,_,_ => True

instance (s : Dispatch) (a : Action) : Decidable (NoStaleAlive s a) := by
  unfold NoStaleAlive; split <;> infer_instance

inductive Took (s : Dispatch) : Action → Dispatch → Prop where
  | receive {ch : UInt8} {rest : List UInt8} : s.sender = .looping → s.incoming = ch :: rest →
      Took s .receive (receive beyond s ch rest)
  | tooLong {payload : List UInt8} : s.sender = .sending payload → mqMsgSize < payload.length →
      Took s .takeFree (sent s payload (-rtError))
  | full {payload : List UInt8} : s.sender = .sending payload → s.mq.msgQueueFree = [] →
      Took s .takeFree (sent s payload (-rtEfull))
  | got {payload : List UInt8} {msg : Item} {rest : List Item} : s.sender = .sending payload →
      s.mq.msgQueueFree = msg :: rest →
      Took s .takeFree {s with mq := {s.mq with msgQueueFree := rest},sender := .copying msg payload}
  | copyIn {msg : Item} {payload : List UInt8} : s.sender = .copying msg payload →
      Took s .copyIn {s with mq := s.mq.copyIn msg payload,sender := .linking msg payload}
  | link {msg : Item} {payload : List UInt8} : s.sender = .linking msg payload →
      Took s .link (sent {s with mq := s.mq.link msg} payload rtEok)
  | unlink {msg : Item} {rest : List Item} : s.receiver = .waiting → s.mq.msgQueue = msg :: rest →
      Took s .unlink {s with mq := {s.mq with msgQueue := rest},receiver := .copying msg}
  | copyOut {msg : Item} : s.receiver = .copying msg →
      Took s .copyOut {s with receiver := .releasing msg (s.mq.msgPool msg)}
  | release {msg : Item} {buff : Buff} : s.receiver = .releasing msg buff →
      Took s .release {s with mq := s.mq.release msg,receiver := .returned buff}
  | print {buff : Buff} : s.receiver = .returned buff →
      Took s .print {s with receiver := .waiting,outputs := s.outputs ++ [dispatch buff]}

variable {beyond}

theorem takeFree_took {s : Dispatch} {payload : List UInt8} (sending : s.sender = .sending payload) :
    Took beyond s .takeFree (takeFree s payload) := by
  unfold takeFree RtMq.takeFree
  split
  · rename_i long; exact .tooLong sending long
  · cases free : s.mq.msgQueueFree with
    | nil => exact .full sending free
    | cons msg rest => exact .got sending free

theorem unlink_took {s : Dispatch} {msg : Item} {mq : RtMq mqMsgSize mqMaxMsgs} (waiting : s.receiver = .waiting)
    (unlinked : s.mq.unlink = some (msg,mq)) : Took beyond s .unlink {s with mq := mq,receiver := .copying msg} := by
  unfold RtMq.unlink at unlinked
  cases linked : s.mq.msgQueue with
  | nil => simp [linked] at unlinked
  | cons first rest =>
    rw [linked] at unlinked
    cases unlinked
    exact .unlink waiting linked

theorem step_took {s next : Dispatch} {a : Action} (taken : step beyond s a = some next) : Took beyond s a next := by
  unfold step at taken
  split at taken <;> split at taken <;> cases taken
  · rename_i looping bytes; exact .receive looping bytes
  · rename_i sending; exact takeFree_took sending
  · rename_i copying; exact .copyIn copying
  · rename_i linking; exact .link linking
  · rename_i waiting unlinked; exact unlink_took waiting unlinked
  · rename_i copying; exact .copyOut copying
  · rename_i releasing; exact .release releasing
  · rename_i returned; exact .print returned

theorem linking_run {s : Dispatch} {msg : Item} {payload : List UInt8} (copying : s.sender = .copying msg payload) :
    run (step beyond) s [.copyIn,.link] = some (sent {s with mq := (s.mq.copyIn msg payload).link msg} payload rtEok) := by
  simp [run,step,copying,sent]

-- With no one in between, the actions of the receiving thread are one round of
-- its loop over the whole rt_mq_send.
theorem alone_rxByte {s : Dispatch} {ch : UInt8} {rest : List UInt8} (looping : s.sender = .looping)
    (bytes : s.incoming = ch :: rest) : ∃ actions after, run (step beyond) s actions = some after ∧
      (after.rx,after.mq) = (rxByte beyond RtMq.rtMqSend (s.rx,s.mq) ch).1 ∧ after.sender = .looping ∧
      after.incoming = rest ∧ after.receiver = s.receiver ∧ after.outputs = s.outputs := by
  have received : run (step beyond) s [.receive] = some (receive beyond s ch rest) := by simp [run,step,looping,bytes]
  cases complete : (s.rx.accept beyond ch).complete with
  | false => exact ⟨[.receive],_,received,by simp [receive,rxByte,complete],by simp [receive,complete],rfl,rfl,rfl⟩
  | true =>
    have sending : (receive beyond s ch rest).sender = .sending ((s.rx.accept beyond ch).payload beyond) := by simp [receive,complete]
    have called : run (step beyond) s [.receive,.takeFree] = some (takeFree (receive beyond s ch rest) ((s.rx.accept beyond ch).payload beyond)) :=
      run_append.mpr ⟨_,received,by simp [run,step,sending]⟩
    by_cases long : mqMsgSize < ((s.rx.accept beyond ch).payload beyond).length
    · refine ⟨_,_,called,?_⟩
      simp [takeFree,long,sent,receive,rxByte,complete,RtMq.rtMqSend]
    · cases free : s.mq.msgQueueFree with
      | nil =>
        refine ⟨_,_,called,?_⟩
        simp [takeFree,long,sent,receive,rxByte,complete,RtMq.rtMqSend,RtMq.takeFree,free]
      | cons msg others =>
        have copying : takeFree (receive beyond s ch rest) ((s.rx.accept beyond ch).payload beyond) =
            {receive beyond s ch rest with
              mq := {s.mq with msgQueueFree := others}
              sender := .copying msg ((s.rx.accept beyond ch).payload beyond)} := by
          simp [takeFree,long,receive,RtMq.takeFree,free]
        rw [copying] at called
        refine ⟨_,_,run_append.mpr ⟨_,called,linking_run rfl⟩,?_⟩
        simp [sent,receive,rxByte,complete,RtMq.rtMqSend,RtMq.takeFree,long,free]

theorem alone_rtMqRecv {s : Dispatch} {buff : Buff} {mq : RtMq mqMsgSize mqMaxMsgs} (waiting : s.receiver = .waiting)
    (received : s.mq.rtMqRecv = some (buff,mq)) :
    run (step beyond) s [.unlink,.copyOut,.release,.print] = some {s with mq := mq,outputs := s.outputs ++ [dispatch buff]} := by
  unfold RtMq.rtMqRecv at received
  cases unlinked : s.mq.unlink with
  | none => simp [unlinked] at received
  | some pair =>
    rw [unlinked] at received
    cases received
    simp [run,step,waiting,unlinked]

theorem frame_byte {seen rest more : List UInt8} {ch : UInt8} {payload : List UInt8} (short : payload.length ≤ 126)
    (bytes : seen ++ ch :: rest = encodeFrame payload ++ more) :
    (Completes (seen ++ [ch]) → seen.length + 1 = payload.length + 2) ∧
      (seen.length + 1 = payload.length + 2 → seen ++ [ch] = encodeFrame payload ∧ rest = more) := by
  have split : (seen ++ [ch]) ++ rest = encodeFrame payload ++ more := by simpa using bytes
  constructor
  · rintro ⟨header,value⟩
    have same := congrArg announced split
    rw [announced_append (by omega),announced_frame _ (by omega)] at same
    rw [same] at value
    simpa using value.symm
  · intro last
    exact List.append_inj split (by simp; omega)

-- Where the stream stands: between two frames or inside one, with the results so
-- far for exactly the frames before it.
def Reads (frames : List Frame) (s : Dispatch) : Prop :=
  match s.sender with
  | .looping => ∃ rest seen, frames.map Frame.payload = s.results.map Prod.fst ++ rest.map Frame.payload ∧
      Mid seen s.rx ∧ seen ++ s.incoming = wire rest ∧ ∀ f more, rest = f :: more → seen.length < f.payload.length + 2
  | .sending payload | .copying _ payload | .linking _ payload => ∃ (f : Frame) (rest : List Frame),
      payload = f.payload ∧ s.incoming = wire rest ∧
        frames.map Frame.payload = s.results.map Prod.fst ++ f.payload :: rest.map Frame.payload

theorem start_reads (msgPool : Item → Buff) (pkg : Fin 128 → UInt8) (len : UInt16) (frames : List Frame) :
    Reads frames (start msgPool pkg len (wire frames)) :=
  ⟨frames,[],rfl,mid_boundary (Or.inl rfl),rfl,fun _ _ _ => by simp⟩

variable {frames : List Frame} {s : Dispatch}

theorem receive_reads (looping : s.sender = .looping) {ch : UInt8} {rest : List UInt8} (next : s.incoming = ch :: rest)
    (reads : Reads frames s) : Reads frames (receive beyond s ch rest) := by
  simp only [Reads,looping] at reads
  obtain ⟨left,seen,offered,mid,bytes,inside⟩ := reads
  rw [next] at bytes
  match left with
  | [] => simp [wire] at bytes
  | f :: more =>
    have room := inside f more rfl
    have fits := f.fits
    rw [wire_cons] at bytes
    obtain ⟨onlyLast,whole⟩ := frame_byte fits bytes
    by_cases last : seen.length + 1 = f.payload.length + 2
    · obtain ⟨all,tail⟩ := whole last
      have completes : Completes (seen ++ [ch]) := by
        have known := announced_frame f.payload (by omega) []
        have positive := f.positive
        rw [all]
        exact ⟨by simp; omega,by simpa using known⟩
      have complete : (s.rx.accept beyond ch).complete = true := (mid_complete beyond mid (by omega) ch).mpr completes
      have body : ((s.rx.accept beyond ch).payload beyond) = f.payload := by rw [mid_payload beyond mid (by omega) ch completes,all,encodeFrame_drop]
      simp only [Reads,receive,complete,body,if_true]
      exact ⟨f,more,rfl,tail,offered⟩
    · have quiet : (s.rx.accept beyond ch).complete = false := by
        cases done : (s.rx.accept beyond ch).complete with
        | false => rfl
        | true => exact absurd (onlyLast ((mid_complete beyond mid (by omega) ch).mp done)) last
      simp only [Reads,receive,quiet]
      refine ⟨f :: more,seen ++ [ch],offered,mid_accept beyond mid (by omega) ch,by simpa [wire_cons] using bytes,?_⟩
      intro g others same
      cases same
      simp only [List.length_append,List.length_singleton]
      omega

theorem sent_reads {payload : List UInt8} {f : Frame} {rest : List Frame} (same : payload = f.payload)
    (incoming : s.incoming = wire rest)
    (offered : frames.map Frame.payload = s.results.map Prod.fst ++ f.payload :: rest.map Frame.payload) (err : RtErr) :
    Reads frames (sent s payload err) := by
  refine ⟨rest,[],?_,mid_boundary (Or.inl rfl),incoming,by intros; simp⟩
  simp [sent,same,offered]

theorem took_reads {next : Dispatch} {a : Action} (reads : Reads frames s) (took : Took beyond s a next) :
    Reads frames next := by
  cases took with
  | receive looping bytes => exact receive_reads looping bytes reads
  | tooLong sending | full sending =>
    simp only [Reads,sending] at reads
    obtain ⟨f,rest,same,incoming,offered⟩ := reads
    exact sent_reads same incoming offered _
  | got sending | copyIn sending => simpa [Reads,sending] using reads
  | link linking =>
    simp only [Reads,linking] at reads
    obtain ⟨f,rest,same,incoming,offered⟩ := reads
    exact sent_reads (s := {s with mq := _}) same incoming offered rtEok
  | unlink | copyOut | release | print => exact reads

-- Everything already printed, in the receiver's hands or still linked, as the
-- receiver will print it, is what the accepted payloads call for.
def Receiver.texts (mq : RtMq mqMsgSize mqMaxMsgs) : Receiver → List (List String)
  | .waiting => []
  | .copying msg => [dispatch (mq.msgPool msg)]
  | .releasing _ buff | .returned buff => [dispatch buff]

def linkedTexts (mq : RtMq mqMsgSize mqMaxMsgs) : List (List String) :=
  mq.msgQueue.map fun msg => dispatch (mq.msgPool msg)

def Sender.items : Sender → List Item
  | .copying msg _ | .linking msg _ => [msg]
  | _ => []

def Receiver.items : Receiver → List Item
  | .copying msg | .releasing msg _ => [msg]
  | _ => []

def Prepared (mq : RtMq mqMsgSize mqMaxMsgs) : Sender → Prop
  | .copying msg payload => dispatch (copied (mq.msgPool msg) payload) = announce payload
  | .linking msg payload => dispatch (mq.msgPool msg) = announce payload
  | _ => True

structure Honest (s : Dispatch) : Prop where
  apart : Apart s.mq s.sender.items s.receiver.items
  prepared : Prepared s.mq s.sender
  told : s.outputs ++ (s.receiver.texts s.mq ++ linkedTexts s.mq) = s.accepted.map announce

theorem start_honest (msgPool : Item → Buff) (pkg : Fin 128 → UInt8) (len : UInt16) (incoming : List UInt8) :
    Honest (start msgPool pkg len incoming) := ⟨create_apart msgPool,trivial,rfl⟩

@[simp] theorem accepted_sent (payload : List UInt8) (err : RtErr) :
    (sent s payload err).accepted = s.accepted ++ if err = rtEok then [payload] else [] := by
  by_cases ok : err = rtEok <;> simp [sent,Dispatch.accepted,acceptedResults,ok]

theorem copied_dispatch {item : Buff} {payload : List UInt8}
    (fresh : 2 ≤ payload.length ∨ item 1 ≠ AlphaEventAccess.alive.code) :
    dispatch (copied item payload) = announce payload := by
  by_cases second : 1 < payload.length
  · simp [dispatch,announce,copied,second]
  · have stale : item 1 ≠ AlphaEventAccess.alive.code := fresh.resolve_left (by omega)
    simp [dispatch,announce,copied,second,stale]

theorem got_fresh {payload : List UInt8} {msg : Item} {rest : List Item} (sending : s.sender = .sending payload)
    (free : s.mq.msgQueueFree = msg :: rest) (reads : Reads frames s) (fresh : NoStaleAlive s .takeFree) :
    2 ≤ payload.length ∨ s.mq.msgPool msg 1 ≠ AlphaEventAccess.alive.code := by
  simp only [Reads,sending] at reads
  obtain ⟨f,_,rfl,_,_⟩ := reads
  match body : f.payload with
  | [] => have positive := f.positive; simp [body] at positive
  | [_] => exact Or.inr (by simpa [NoStaleAlive,sending,body,free] using fresh)
  | _ :: _ :: _ => exact Or.inl (by simp)

-- The sender's item is in no one else's hands, so filling it changes no message.
theorem copyIn_texts {msg : Item} {payload : List UInt8} (copying : s.sender = .copying msg payload)
    (honest : Honest s) : s.receiver.texts (s.mq.copyIn msg payload) = s.receiver.texts s.mq ∧
      linkedTexts (s.mq.copyIn msg payload) = linkedTexts s.mq := by
  have apart := honest.apart
  rw [copying] at apart
  obtain ⟨unlinked,unheld⟩ := sending_apart apart
  constructor
  · cases receiving : s.receiver with
    | copying held =>
      have other : held ≠ msg := by
        intro same
        simp [receiving,Receiver.items,same] at unheld
      simp [Receiver.texts,copyIn_other other]
    | waiting | releasing | returned => rfl
  · apply List.map_congr_left
    intro held linked
    have other : held ≠ msg := fun same => unlinked (same ▸ linked)
    simp only [copyIn_other other]

theorem sent_honest {payload : List UInt8} {err : RtErr} (refused : err ≠ rtEok) (sending : s.sender = .sending payload)
    (honest : Honest s) : Honest (sent s payload err) := by
  have apart := honest.apart
  rw [sending] at apart
  exact ⟨apart,trivial,by simpa [sent,refused,Dispatch.accepted,acceptedResults] using honest.told⟩

theorem link_honest {msg : Item} {payload : List UInt8} (linking : s.sender = .linking msg payload) (honest : Honest s) :
    Honest (sent {s with mq := s.mq.link msg} payload rtEok) := by
  have apart := honest.apart
  have prepared := honest.prepared
  rw [linking] at apart prepared
  refine ⟨link_apart apart,trivial,?_⟩
  have texts : linkedTexts (s.mq.link msg) = linkedTexts s.mq ++ [announce payload] := by
    rw [← prepared]
    simp [linkedTexts,RtMq.link]
  have told := honest.told
  rw [accepted_sent,if_pos rfl,List.map_append]
  change s.outputs ++ (s.receiver.texts s.mq ++ linkedTexts (s.mq.link msg)) = s.accepted.map announce ++ [announce payload]
  rw [texts,← told]
  simp

theorem unlink_honest {msg : Item} {rest : List Item} (waiting : s.receiver = .waiting)
    (linked : s.mq.msgQueue = msg :: rest) (honest : Honest s) :
    Honest {s with mq := {s.mq with msgQueue := rest},receiver := .copying msg} := by
  have apart := honest.apart
  have told := honest.told
  rw [waiting] at apart told
  refine ⟨unlink_apart apart linked,?_,?_⟩
  · have prepared := honest.prepared
    cases sending : s.sender <;> rw [sending] at prepared <;> exact prepared
  · change s.outputs ++ ([dispatch (s.mq.msgPool msg)] ++ rest.map _) = s.accepted.map announce
    rw [← told]
    simp [Receiver.texts,linkedTexts,linked]

theorem took_honest {next : Dispatch} {a : Action} (reads : Reads frames s) (fresh : NoStaleAlive s a)
    (honest : Honest s) (took : Took beyond s a next) : Honest next := by
  have apart := honest.apart
  have told := honest.told
  have prepared := honest.prepared
  cases took with
  | receive looping bytes =>
    refine ⟨?_,?_,told⟩
    · rw [looping] at apart
      unfold receive
      dsimp only
      split <;> exact apart
    · unfold receive
      dsimp only
      split <;> trivial
  | tooLong sending => exact sent_honest (by decide) sending honest
  | full sending => exact sent_honest (by decide) sending honest
  | got sending free =>
    have filled := got_fresh (s := s) sending free reads fresh
    rw [sending] at apart
    exact ⟨takeFree_apart apart free,copied_dispatch filled,told⟩
  | copyIn copying =>
    obtain ⟨held,linked⟩ := copyIn_texts copying honest
    rw [copying] at apart prepared
    refine ⟨copyIn_apart apart _,?_,by rw [held,linked]; exact told⟩
    simpa [Prepared] using prepared
  | link linking => exact link_honest linking honest
  | unlink waiting linked => exact unlink_honest waiting linked honest
  | copyOut copying =>
    rw [copying] at apart told
    exact ⟨apart,prepared,told⟩
  | release releasing =>
    rw [releasing] at apart told
    refine ⟨release_apart apart,?_,told⟩
    cases sending : s.sender <;> rw [sending] at prepared <;> exact prepared
  | print returned =>
    rw [returned] at apart told
    refine ⟨apart,prepared,?_⟩
    change (s.outputs ++ [_]) ++ ([] ++ linkedTexts s.mq) = s.accepted.map announce
    rw [← told]
    simp [Receiver.texts]

def Answered (s : Dispatch) : Prop := ∀ result ∈ s.results, result.2 = rtEok ∨ result.2 = -rtEfull

theorem sent_answered {payload : List UInt8} {err : RtErr} (one : err = rtEok ∨ err = -rtEfull)
    (answered : Answered s) : Answered (sent s payload err) := by
  intro result member
  rcases List.mem_append.mp member with old | new
  · exact answered result old
  · rw [List.mem_singleton.mp new]; exact one

theorem took_answered {next : Dispatch} {a : Action} (reads : Reads frames s) (answered : Answered s)
    (took : Took beyond s a next) : Answered next := by
  cases took with
  | tooLong sending long =>
    simp only [Reads,sending] at reads
    obtain ⟨f,_,same,_,_⟩ := reads
    have fits := f.fits
    rw [same] at long
    exact absurd long (Nat.not_lt.mpr (Nat.le_trans fits (by decide)))
  | full => exact sent_answered (Or.inr rfl) answered
  | link => exact sent_answered (s := {s with mq := _}) (Or.inl rfl) answered
  | receive | got | copyIn | unlink | copyOut | release | print => exact answered

structure Sound (frames : List Frame) (s : Dispatch) : Prop where
  reads : Reads frames s
  answered : Answered s
  honest : Honest s

theorem run_sound {actions : List Action} {after : Dispatch} (sound : Sound frames s)
    (fresh : Along (step beyond) NoStaleAlive s actions) (ran : run (step beyond) s actions = some after) : Sound frames after :=
  along_invariant
    (fun _ _ _ sound allowed taken =>
      ⟨took_reads sound.reads (step_took taken),took_answered sound.reads sound.answered (step_took taken),
        took_honest sound.reads allowed sound.honest (step_took taken)⟩)
    sound fresh ran

theorem offered_of_reads (reads : Reads frames s) :
    s.results.map Prod.fst = (frames.take s.results.length).map Frame.payload := by
  have front : ∃ more, frames.map Frame.payload = s.results.map Prod.fst ++ more := by
    cases sender : s.sender with
    | looping =>
      simp only [Reads,sender] at reads
      obtain ⟨rest,_,offered,_⟩ := reads
      exact ⟨_,offered⟩
    | sending | copying | linking =>
      simp only [Reads,sender] at reads
      obtain ⟨_,_,_,_,offered⟩ := reads
      exact ⟨_,offered⟩
  obtain ⟨more,split⟩ := front
  rw [List.map_take,split,List.take_left' (by simp)]

theorem sound_byFrames (sound : Sound frames s) : ByFrames frames s := by
  have told := sound.honest.told
  refine ⟨offered_of_reads sound.reads,sound.answered,?_,?_⟩
  · rw [List.map_take,← told,List.take_left]
  · intro waiting empty
    simpa [waiting,Receiver.texts,linkedTexts,empty] using told

-- Any frames, any initial queue memory and any interleaving in which no one-byte
-- payload meets a stale alive byte: the reports are those of the accepted frames.
theorem reports_follow_frames (beyond : Beyond) (msgPool : Item → Buff) (pkg : Fin 128 → UInt8) (len : UInt16) (frames : List Frame)
    (actions : List Action) (after : Dispatch)
    (fresh : Along (step beyond) NoStaleAlive (start msgPool pkg len (wire frames)) actions)
    (ran : run (step beyond) (start msgPool pkg len (wire frames)) actions = some after) : ByFrames frames after :=
  sound_byFrames (run_sound
    ⟨start_reads msgPool pkg len frames,(fun _ none' => nomatch none'),start_honest msgPool pkg len _⟩ fresh ran)

def oneByOne (bytes : Nat) : List Action :=
  List.replicate bytes .receive ++ [.takeFree,.copyIn,.link,.unlink,.copyOut,.release,.print]

def aliveFrame : Frame := ⟨[0,1],by decide,by decide⟩
def shortFrame : Frame := ⟨[0],by decide,by decide⟩

theorem reports_follow_frames_short_first : ∃ after,
    run (step untouched) (start (fun _ _ => 0) (fun _ => 0) 0 (wire [shortFrame,aliveFrame])) (oneByOne 3 ++ oneByOne 4) =
        some after ∧
      ByFrames [shortFrame,aliveFrame] after ∧ after.outputs.length = 2 :=
  ⟨_,rfl,reports_follow_frames untouched (fun _ _ => 0) (fun _ => 0) 0 [shortFrame,aliveFrame] (oneByOne 3 ++ oneByOne 4) _
    (by decide) rfl,rfl⟩

-- The other way round the short message is found in the item the alive report
-- left, and is reported as one.
theorem stale_alive_reported : ¬ ∀ (beyond : Beyond) (msgPool : Item → Buff) (pkg : Fin 128 → UInt8) (len : UInt16)
    (frames : List Frame) (actions : List Action) (after : Dispatch),
    run (step beyond) (start msgPool pkg len (wire frames)) actions = some after → ByFrames frames after := by
  intro all
  have twice := (all untouched (fun _ _ => 0) (fun _ => 0) 0 [aliveFrame,shortFrame] (oneByOne 4 ++ oneByOne 3) _ rfl).reported
  revert twice
  decide

end SssAlarmHost.AliveDispatch
