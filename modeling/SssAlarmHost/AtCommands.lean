import SssAlarmHost.MachineRuns
import SssAlarmHost.AtResponse

namespace SssAlarmHost.AtClient
open MachineRuns

-- A call of at_obj_exec_cmd with a response object, from the moment it has client->lock.
structure Call (Thread Cmd : Type) where
  thread : Thread
  cmd : Cmd
  bufSize : Nat
  lineNum : Nat
  sent : Bool
  deriving DecidableEq

def Call.start {Thread Cmd : Type} (call : Call Thread Cmd) : Response := ⟨call.bufSize,[],call.lineNum,0⟩

-- The client, the bytes on their way from the module, and the lines it still has to
-- send for the commands it has taken.
structure Client (Thread Cmd : Type) where
  reader : Reader
  wire : List UInt8
  pending : List (List UInt8)
  lock : Option (Call Thread Cmd)
  resp : Bool
  response : Response
  respStatus : RespStatus
  respNotice : Nat

inductive Action (Thread Cmd : Type) where
  | begin (t : Thread) (cmd : Cmd) (bufSize lineNum : Nat)
  | send (t : Thread)
  | finish (t : Thread)
  | timeout (t : Thread)
  | emit
  | urc (line : List UInt8)
  | byte

section Machine
variable (config : Config) {Thread Cmd : Type} (reply : Cmd → List (List UInt8))

-- The parser thread has a higher priority than its callers, so what it does with a line
-- is one step.
def clientParser (s : Client Thread Cmd) (line : List UInt8) : Client Thread Cmd :=
  if getUrcObj config line ≠ none then s
  else if s.resp = true then
    let parsed := parseResponse line s.response s.respStatus
    {s with
      response := parsed.1
      respStatus := parsed.2.1
      resp := !parsed.2.2
      respNotice := if parsed.2.2 = true then s.respNotice + 1 else s.respNotice}
  else s

def dispatch (s : Client Thread Cmd) : Option Read → Client Thread Cmd
  | some (.line line) => clientParser config s line
  | some .full => s
  | none => s

-- A wait that timed out gives up also when the notice comes before it runs again.
def step [DecidableEq Thread] (s : Client Thread Cmd) : Action Thread Cmd → Option (Client Thread Cmd)
  | .begin t cmd bufSize lineNum =>
    if s.lock = none then
      some {s with lock := some ⟨t,cmd,bufSize,lineNum,false⟩,resp := true,response := ⟨bufSize,[],lineNum,0⟩,respStatus := .ok}
    else none
  | .send t =>
    match s.lock with
    | some call =>
      if call.thread = t ∧ call.sent = false then
        some {s with lock := some {call with sent := true},pending := s.pending ++ reply call.cmd}
      else none
    | none => none
  | .finish t =>
    match s.lock with
    | some call =>
      if call.thread = t ∧ call.sent = true ∧ 0 < s.respNotice then
        some {s with lock := none,resp := false,respNotice := s.respNotice - 1}
      else none
    | none => none
  | .timeout t =>
    match s.lock with
    | some call =>
      if call.thread = t ∧ call.sent = true then some {s with lock := none,resp := false,respStatus := .timeout} else none
    | none => none
  | .emit =>
    match s.pending with
    | [] => none
    | line :: rest => some {s with pending := rest,wire := s.wire ++ line}
  | .urc line => some {s with wire := s.wire ++ line}
  | .byte =>
    match s.wire with
    | [] => none
    | ch :: rest =>
      let read := readChar config s.reader ch
      some (dispatch config {s with reader := read.1,wire := rest} read.2)

-- The lines that reach a response: not too long to be read, and not unsolicited.
def heard (lines : List (List UInt8)) : List (List UInt8) :=
  lines.filter fun line => decide (line.length ≤ config.recvBufsz) && (getUrcObj config line).isNone

-- The reply ends its call at its last line and no earlier, with a result or with as
-- many lines as the caller asked for.
def EndsCall (cmd : Cmd) (bufSize lineNum : Nat) : Prop := outcome ⟨bufSize,[],lineNum,0⟩ (heard config (reply cmd)) ≠ none

instance (cmd : Cmd) (bufSize lineNum : Nat) : Decidable (EndsCall config reply cmd bufSize lineNum) :=
  inferInstanceAs (Decidable (_ ≠ _))

-- No timeout, and what the module sends unasked is not for a response.
def Prompt (_ : Client Thread Cmd) : Action Thread Cmd → Prop
  | .begin _ cmd bufSize lineNum => EndsCall config reply cmd bufSize lineNum
  | .timeout _ => False
  | .urc line => Segment config line ∧ heard config [line] = []
  | _ => True

structure Answered (s : Client Thread Cmd) (call : Call Thread Cmd) : Prop where
  status : outcome call.start (heard config (reply call.cmd)) = some s.respStatus
  stored : Stores s.response (kept call.bufSize 0 (heard config (reply call.cmd)))

-- A call that returns without a timeout has the reply to its own command.
def OwnReply (s : Client Thread Cmd) : Action Thread Cmd → Prop
  | .finish t => ∀ call, s.lock = some call → call.thread = t → call.sent = true → 0 < s.respNotice → Answered config reply s call
  | _ => True

structure Quiet (s : Client Thread Cmd) : Prop where
  free : s.lock = none
  alone : s.resp = false
  taken : s.respNotice = 0
  reader : s.reader = .fresh
  wire : s.wire = []
  pending : s.pending = []

def Waiting (s : Client Thread Cmd) (call : Call Thread Cmd) (coming : List (List UInt8)) : Prop :=
  if coming = [] then s.resp = false ∧ s.respNotice = 1 ∧ outcome call.start (heard config (reply call.cmd)) = some s.respStatus
  else s.resp = true ∧ s.respNotice = 0

-- Where the call stands that has the lock, by the lines still on their way.
def Phase (s : Client Thread Cmd) (coming : List (List UInt8)) : Prop :=
  match s.lock with
  | none => s.resp = false ∧ s.respNotice = 0 ∧ coming = []
  | some call => outcome call.start (heard config (reply call.cmd)) ≠ none ∧
    if call.sent = true then ∃ done, heard config (reply call.cmd) = done ++ coming ∧
      s.response = collect call.start done ∧ Waiting config reply s call coming
    else s.resp = true ∧ s.respNotice = 0 ∧ s.response = call.start ∧ coming = []

-- The bytes on the wire are whole lines, of which the reader has the first part.
structure Flow (s : Client Thread Cmd) (read : List UInt8) (queue : List (List UInt8)) : Prop where
  reader : s.reader = readerOf config read
  opened : Open config read
  bytes : read ++ s.wire = queue.flatten
  segments : ∀ x ∈ queue ++ s.pending, Segment config x

def Inv (s : Client Thread Cmd) : Prop :=
  ∃ read queue, Flow config s read queue ∧ Phase config reply s (heard config (queue ++ s.pending))

end Machine

variable {config : Config} {Thread Cmd : Type} {reply : Cmd → List (List UInt8)} {s next : Client Thread Cmd}

theorem heard_append (first second : List (List UInt8)) : heard config (first ++ second) = heard config first ++ heard config second :=
  List.filter_append ..

theorem segment_unique {first second stream : List UInt8} (one : Segment config first) (other : Segment config second)
    (before : first <+: stream) (before' : second <+: stream) : first = second := by
  have shorter : ∀ {x y : List UInt8}, Segment config x → Segment config y → x <+: y → x = y := by
    intro x y first second within
    obtain ⟨text,ch,rfl⟩ := (List.eq_nil_or_concat' y).resolve_left second.something
    rcases List.prefix_concat_iff.mp within with same | inside
    · exact same
    · have opened := second.before
      rw [List.dropLast_concat] at opened
      exact absurd first.ends (opened x inside first.something)
  rcases Nat.le_total first.length second.length with less | less
  · exact shorter one other (List.prefix_of_prefix_length_le before before' less)
  · exact (shorter other one (List.prefix_of_prefix_length_le before' before less)).symm

theorem open_nil : Open config [] := fun _ before something => absurd (List.prefix_nil.mp before) something

-- The line that a character ends is the first of the wire.
theorem ended_line {read rest : List UInt8} {ch : UInt8} {queue : List (List UInt8)} (opened : Open config read)
    (bytes : read ++ ch :: rest = queue.flatten) (segments : ∀ x ∈ queue, Segment config x) (ends : Ends config (read ++ [ch])) :
    ∃ more, queue = (read ++ [ch]) :: more ∧ rest = more.flatten := by
  have segment : Segment config (read ++ [ch]) := ⟨by simp,ends,by rwa [List.dropLast_concat]⟩
  cases queue with
  | nil => simp at bytes
  | cons line more =>
    rw [List.flatten_cons] at bytes
    have same : read ++ [ch] = line := by
      refine segment_unique segment (segments line List.mem_cons_self) (show read ++ [ch] <+: read ++ ch :: rest from ⟨rest,by simp⟩) ?_
      rw [bytes]
      exact List.prefix_append _ _
    subst same
    refine ⟨more,rfl,?_⟩
    rw [show read ++ ch :: rest = (read ++ [ch]) ++ rest by simp] at bytes
    exact List.append_cancel_left bytes

theorem clientParser_flow (config : Config) (s : Client Thread Cmd) (line : List UInt8) :
    (clientParser config s line).reader = s.reader ∧ (clientParser config s line).wire = s.wire ∧
      (clientParser config s line).pending = s.pending := by
  unfold clientParser
  split
  · exact ⟨rfl,rfl,rfl⟩
  · split <;> exact ⟨rfl,rfl,rfl⟩

-- A line for the response is the next one of the reply.
theorem clientParser_phase {line : List UInt8} {coming : List (List UInt8)} (unlisted : getUrcObj config line = none)
    (phase : Phase config reply s (line :: coming)) : Phase config reply (clientParser config s line) coming := by
  unfold Phase at phase
  cases locked : s.lock with
  | none =>
    rw [locked] at phase
    cases phase.2.2
  | some call =>
    rw [locked] at phase
    obtain ⟨ending,now⟩ := phase
    cases sent : call.sent with
    | false =>
      rw [if_neg (by simp [sent])] at now
      cases now.2.2.2
    | true =>
      rw [if_pos sent] at now
      obtain ⟨done,whole,response,waiting⟩ := now
      obtain ⟨status,ends⟩ := Option.ne_none_iff_exists'.mp ending
      unfold Waiting at waiting
      rw [if_neg (List.cons_ne_nil line coming)] at waiting
      have checked := outcome_at (show outcome call.start (done ++ line :: coming) = some status by rw [← whole]; exact ends)
      have collected : copyLine line (collect call.start done) = collect call.start (done ++ [line]) := by
        rw [collect,collect,List.foldl_append]
        rfl
      rw [← response] at checked
      have parsed : clientParser config s line = {s with
          response := (parseResponse line s.response s.respStatus).1
          respStatus := (parseResponse line s.response s.respStatus).2.1
          resp := !(parseResponse line s.response s.respStatus).2.2
          respNotice := if (parseResponse line s.response s.respStatus).2.2 = true then s.respNotice + 1 else s.respNotice} := by
        rw [clientParser,if_neg (by simp [unlisted]),if_pos waiting.1]
      have copied : (parseResponse line s.response s.respStatus).1 = copyLine line s.response := by
        unfold parseResponse
        dsimp only
        split <;> rfl
      rw [parsed]
      unfold Phase
      dsimp only
      rw [locked]
      dsimp only
      rw [if_pos sent]
      refine ⟨ending,done ++ [line],by rw [whole]; simp,?_,?_⟩
      · rw [copied,response,collected]
      · unfold Waiting
        dsimp only
        by_cases last : coming = []
        · rw [if_pos last] at checked ⊢
          have now : parseResponse line s.response s.respStatus = (copyLine line s.response,status,true) := by
            unfold parseResponse
            dsimp only
            rw [checked]
          rw [now,waiting.2]
          exact ⟨rfl,rfl,ends⟩
        · rw [if_neg last] at checked ⊢
          have ended : (parseResponse line s.response s.respStatus).2.2 = false := by
            unfold parseResponse
            dsimp only
            rw [checked]
          rw [ended,waiting.2]
          exact ⟨rfl,rfl⟩

theorem quiet_inv (config : Config) (reply : Cmd → List (List UInt8)) (quiet : Quiet s) : Inv config reply s := by
  refine ⟨[],[],⟨by rw [quiet.reader,readerOf_nil],open_nil,by rw [quiet.wire]; rfl,?_⟩,?_⟩
  · simp [quiet.pending]
  · rw [Phase,quiet.free]
    exact ⟨quiet.alone,quiet.taken,by rw [quiet.pending]; rfl⟩

theorem start_stores (call : Call Thread Cmd) : Stores call.start [] := ⟨rfl,rfl⟩

theorem answered_of_inv (framed : ∀ cmd, ∀ line ∈ reply cmd, Segment config line) (inv : Inv config reply s)
    {call : Call Thread Cmd} (locked : s.lock = some call) (sent : call.sent = true) (notice : 0 < s.respNotice) :
    Answered config reply s call := by
  obtain ⟨read,queue,flow,phase⟩ := inv
  rw [Phase,locked] at phase
  obtain ⟨_,now⟩ := phase
  rw [if_pos sent] at now
  obtain ⟨done,whole,response,waiting⟩ := now
  unfold Waiting at waiting
  split at waiting
  · rename_i nothing
    rw [nothing,List.append_nil] at whole
    refine ⟨waiting.2.2,?_⟩
    have something : ∀ line ∈ done, line ≠ [] := by
      intro line there
      rw [← whole] at there
      exact (framed call.cmd line (List.mem_of_mem_filter there)).something
    rw [response,whole]
    exact collect_stores (start_stores call) something
  · rw [waiting.2] at notice
    cases notice

section Steps
variable [DecidableEq Thread]

theorem begin_inv {t : Thread} {cmd : Cmd} {bufSize lineNum : Nat} (inv : Inv config reply s)
    (ending : Prompt config reply s (.begin t cmd bufSize lineNum))
    (taken : step config reply s (.begin t cmd bufSize lineNum) = some next) : Inv config reply next := by
  obtain ⟨read,queue,flow,phase⟩ := inv
  obtain ⟨free,same⟩ := Option.ite_none_right_eq_some.mp taken
  cases same
  rw [Phase,free] at phase
  obtain ⟨_,none',nothing⟩ := phase
  exact ⟨read,queue,⟨flow.reader,flow.opened,flow.bytes,flow.segments⟩,ending,rfl,none',rfl,nothing⟩

theorem send_inv (framed : ∀ cmd, ∀ line ∈ reply cmd, Segment config line) {t : Thread} (inv : Inv config reply s)
    (taken : step config reply s (.send t) = some next) : Inv config reply next := by
  obtain ⟨read,queue,flow,phase⟩ := inv
  cases locked : s.lock with
  | none => simp [step,locked] at taken
  | some call =>
    simp only [step,locked] at taken
    obtain ⟨⟨_,unsent⟩,same⟩ := Option.ite_none_right_eq_some.mp taken
    cases same
    rw [Phase,locked] at phase
    obtain ⟨ending,now⟩ := phase
    rw [if_neg (by simp [unsent])] at now
    obtain ⟨resp,none',response,nothing⟩ := now
    refine ⟨read,queue,⟨flow.reader,flow.opened,flow.bytes,?_⟩,ending,?_⟩
    · intro x there
      rw [← List.append_assoc] at there
      rcases List.mem_append.mp there with old | new
      · exact flow.segments x old
      · exact framed call.cmd x new
    · rw [if_pos rfl,← List.append_assoc,heard_append,nothing,List.nil_append]
      refine ⟨[],rfl,response,?_⟩
      unfold Waiting
      dsimp only
      rw [if_neg]
      · exact ⟨resp,none'⟩
      · intro empty
        exact ending (by rw [empty]; rfl)

theorem finish_inv {t : Thread} (inv : Inv config reply s) (taken : step config reply s (.finish t) = some next) :
    Inv config reply next := by
  obtain ⟨read,queue,flow,phase⟩ := inv
  cases locked : s.lock with
  | none => simp [step,locked] at taken
  | some call =>
    simp only [step,locked] at taken
    obtain ⟨⟨_,sent,notice⟩,same⟩ := Option.ite_none_right_eq_some.mp taken
    cases same
    rw [Phase,locked] at phase
    obtain ⟨_,now⟩ := phase
    rw [if_pos sent] at now
    obtain ⟨_,_,_,waiting⟩ := now
    unfold Waiting at waiting
    split at waiting
    · rename_i nothing
      refine ⟨read,queue,⟨flow.reader,flow.opened,flow.bytes,flow.segments⟩,rfl,?_,nothing⟩
      dsimp only
      rw [waiting.2.1]
    · rw [waiting.2] at notice
      cases notice

theorem emit_inv (inv : Inv config reply s) (taken : step config reply s .emit = some next) : Inv config reply next := by
  obtain ⟨read,queue,flow,phase⟩ := inv
  cases pending : s.pending with
  | nil => simp [step,pending] at taken
  | cons line rest =>
    simp only [step,pending] at taken
    cases taken
    have moved : queue ++ [line] ++ rest = queue ++ s.pending := by rw [pending]; simp
    refine ⟨read,queue ++ [line],⟨flow.reader,flow.opened,?_,?_⟩,?_⟩
    · dsimp only
      rw [← List.append_assoc,flow.bytes]
      simp
    · dsimp only
      rw [moved]
      exact flow.segments
    · dsimp only
      rw [moved]
      exact phase

theorem urc_inv {line : List UInt8} (inv : Inv config reply s) (unasked : Prompt config reply s (.urc line))
    (taken : step config reply s (.urc line) = some next) : Inv config reply next := by
  obtain ⟨read,queue,flow,phase⟩ := inv
  obtain ⟨segment,silent⟩ := unasked
  cases taken
  refine ⟨read,queue ++ [line],⟨flow.reader,flow.opened,?_,?_⟩,?_⟩
  · dsimp only
    rw [← List.append_assoc,flow.bytes]
    simp
  · intro x there
    dsimp only at there
    rw [List.append_assoc] at there
    rcases List.mem_append.mp there with old | new
    · exact flow.segments x (List.mem_append_left _ old)
    · rcases List.mem_cons.mp new with rfl | later
      · exact segment
      · exact flow.segments x (List.mem_append_right _ later)
  · dsimp only
    rw [heard_append,heard_append,silent,List.append_nil,← heard_append]
    exact phase

theorem byte_inv (inv : Inv config reply s) (taken : step config reply s .byte = some next) : Inv config reply next := by
  obtain ⟨read,queue,flow,phase⟩ := inv
  cases wire : s.wire with
  | nil => simp [step,wire] at taken
  | cons ch rest =>
    simp only [step,wire] at taken
    have bytes := flow.bytes
    rw [wire] at bytes
    rw [flow.reader,readChar_step] at taken
    by_cases ends : Ends config (read ++ [ch])
    · rw [if_pos ends] at taken
      cases taken
      obtain ⟨more,rfl,left⟩ := ended_line flow.opened bytes (fun x there => flow.segments x (List.mem_append_left _ there)) ends
      have segments : ∀ x ∈ more ++ s.pending, Segment config x := fun x there => flow.segments x (List.mem_cons_of_mem _ there)
      have after : ∀ later : Client Thread Cmd, later.reader = .fresh ∧ later.wire = rest ∧ later.pending = s.pending →
          Phase config reply later (heard config (more ++ s.pending)) → Inv config reply later := by
        rintro later ⟨reader,wire',pending⟩ phase'
        refine ⟨[],more,⟨by rw [reader,readerOf_nil],open_nil,by rw [wire',left]; rfl,?_⟩,?_⟩
        · rw [pending]
          exact segments
        · rw [pending]
          exact phase'
      have split : heard config ((read ++ [ch]) :: more ++ s.pending) =
          heard config [read ++ [ch]] ++ heard config (more ++ s.pending) := heard_append [read ++ [ch]] _
      rw [split] at phase
      by_cases fits : (read ++ [ch]).length ≤ config.recvBufsz
      · rw [readOf,if_pos fits]
        refine after _ (clientParser_flow config _ _) ?_
        cases listed : getUrcObj config (read ++ [ch]) with
        | none =>
          have there : heard config [read ++ [ch]] = [read ++ [ch]] := by
            rw [heard,List.filter_cons_of_pos (by rw [decide_eq_true fits,listed]; rfl),List.filter_nil]
          rw [there] at phase
          exact clientParser_phase listed phase
        | some urc =>
          have silent : heard config [read ++ [ch]] = [] := by
            rw [heard,List.filter_cons_of_neg (by simp [listed]),List.filter_nil]
          rw [silent] at phase
          change Phase config reply (clientParser config _ (read ++ [ch])) _
          rw [clientParser,if_pos (by simp [listed])]
          exact phase
      · have silent : heard config [read ++ [ch]] = [] := by
          rw [heard,List.filter_cons_of_neg (by rw [decide_eq_false fits]; simp),List.filter_nil]
        rw [silent] at phase
        rw [readOf,if_neg fits]
        exact after _ ⟨rfl,rfl,rfl⟩ phase
    · rw [if_neg ends] at taken
      cases taken
      refine ⟨read ++ [ch],queue,⟨rfl,open_concat flow.opened ends,?_,flow.segments⟩,phase⟩
      dsimp only
      rw [← bytes]
      simp [dispatch]

theorem step_inv (framed : ∀ cmd, ∀ line ∈ reply cmd, Segment config line) {a : Action Thread Cmd} (inv : Inv config reply s)
    (prompt : Prompt config reply s a) (taken : step config reply s a = some next) : Inv config reply next := by
  cases a with
  | begin t cmd bufSize lineNum => exact begin_inv inv prompt taken
  | send t => exact send_inv framed inv taken
  | finish t => exact finish_inv inv taken
  | timeout t => exact absurd prompt id
  | emit => exact emit_inv inv taken
  | urc line => exact urc_inv inv prompt taken
  | byte => exact byte_inv inv taken

-- Whatever the threads, the interleaving and the codes the module sends in between, as
-- long as no wait times out: every call gets the status and the lines of its own reply.
theorem calls_get_own_reply (framed : ∀ cmd, ∀ line ∈ reply cmd, Segment config line) (quiet : Quiet s)
    (actions : List (Action Thread Cmd)) (prompt : Along (step config reply) (Prompt config reply) s actions) :
    Along (step config reply) (OwnReply config reply) s actions := by
  refine along_of_invariant (fun _ _ _ inv allowed taken => step_inv framed inv allowed taken) ?_ (quiet_inv config reply quiet) prompt
  intro s a inv _
  cases a with
  | finish t =>
    intro call locked _ sent notice
    exact answered_of_inv framed inv locked sent notice
  | begin t cmd bufSize lineNum => trivial
  | send t => trivial
  | timeout t => trivial
  | emit => trivial
  | urc line => trivial
  | byte => trivial

-- Two threads and two commands, with "+IP:1" sent by the module in between.
def twoReplies : Bool → List (List UInt8)
  | true => [[52,54,48,48,48] ++ crlf,[79,75] ++ crlf]
  | false => [[69,82,82,79,82] ++ crlf]

def twoCalls : List (Action (Fin 2) Bool) :=
  [.begin 0 true 512 0,.send 0,.emit,.urc ([43,73,80,58,49] ++ crlf),.emit] ++ List.replicate 18 .byte ++
    [.finish 0,.begin 1 false 64 0,.send 1,.emit] ++ List.replicate 7 .byte ++ [.finish 1]

def quietClient : Client (Fin 2) Bool := ⟨.fresh,[],[],none,false,⟨0,[],0,0⟩,.ok,0⟩

theorem twoReplies_framed : ∀ cmd, ∀ line ∈ twoReplies cmd, Segment bc26 line := by
  intro cmd line there
  cases cmd with
  | true =>
    rcases List.mem_cons.mp there with rfl | there
    · exact line_segment bc26_plain (by decide)
    · cases List.mem_singleton.mp there
      exact line_segment bc26_plain (by decide)
  | false =>
    cases List.mem_singleton.mp there
    exact line_segment bc26_plain (by decide)

theorem twoCalls_prompt : Along (step bc26 twoReplies) (Prompt bc26 twoReplies) quietClient twoCalls := by
  refine along_of_forall ?_ quietClient
  intro a there s
  cases a with
  | begin t cmd bufSize lineNum =>
    have call : cmd = true ∧ bufSize = 512 ∧ lineNum = 0 ∨ cmd = false ∧ bufSize = 64 ∧ lineNum = 0 := by
      simp [twoCalls] at there
      rcases there with ⟨_,rfl,rfl,rfl⟩ | ⟨_,rfl,rfl,rfl⟩
      · exact Or.inl ⟨rfl,rfl,rfl⟩
      · exact Or.inr ⟨rfl,rfl,rfl⟩
    rcases call with ⟨rfl,rfl,rfl⟩ | ⟨rfl,rfl,rfl⟩
    · exact (by decide : EndsCall bc26 twoReplies true 512 0)
    · exact (by decide : EndsCall bc26 twoReplies false 64 0)
  | urc line =>
    have same : line = [43,73,80,58,49] ++ crlf := by simpa [twoCalls] using there
    subst same
    exact ⟨line_segment bc26_plain (by decide),by decide⟩
  | timeout t => simp [twoCalls] at there
  | send t => trivial
  | finish t => trivial
  | emit => trivial
  | byte => trivial

theorem twoCalls_own_reply : Along (step bc26 twoReplies) (OwnReply bc26 twoReplies) quietClient twoCalls :=
  calls_get_own_reply twoReplies_framed ⟨rfl,rfl,rfl,rfl,rfl,rfl⟩ twoCalls twoCalls_prompt

-- And no call waits for a reply that has been read to its end.
theorem drained_call_answered (framed : ∀ cmd, ∀ line ∈ reply cmd, Segment config line) (quiet : Quiet s)
    {actions : List (Action Thread Cmd)} {after : Client Thread Cmd}
    (prompt : Along (step config reply) (Prompt config reply) s actions) (ran : run (step config reply) s actions = some after)
    {call : Call Thread Cmd} (locked : after.lock = some call) (sent : call.sent = true) (wire : after.wire = [])
    (pending : after.pending = []) : (step config reply after (.finish call.thread)).isSome := by
  obtain ⟨read,queue,flow,phase⟩ := along_invariant (fun _ _ _ inv allowed taken => step_inv framed inv allowed taken)
    (quiet_inv config reply quiet) prompt ran
  have drained : queue = [] := by
    have bytes := flow.bytes
    rw [wire,List.append_nil] at bytes
    cases queue with
    | nil => rfl
    | cons line more =>
      have segment := flow.segments line (by simp)
      have before : line <+: read := by
        rw [bytes,List.flatten_cons]
        exact List.prefix_append _ _
      exact absurd segment.ends (flow.opened line before segment.something)
  rw [drained,pending,Phase,locked] at phase
  obtain ⟨_,now⟩ := phase
  rw [if_pos sent] at now
  obtain ⟨_,_,_,waiting⟩ := now
  change Waiting config reply after call [] at waiting
  rw [Waiting,if_pos rfl] at waiting
  simp [step,locked,sent,waiting.2.1]

theorem first_call_answered : ∃ after, run (step bc26 twoReplies) quietClient (twoCalls.take 23) = some after ∧
    (step bc26 twoReplies after (.finish 0)).isSome :=
  ⟨_,rfl,drained_call_answered twoReplies_framed ⟨rfl,rfl,rfl,rfl,rfl,rfl⟩ (along_take twoCalls_prompt 23) rfl rfl rfl rfl rfl⟩

end Steps

end SssAlarmHost.AtClient
