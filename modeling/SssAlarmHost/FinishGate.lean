import SssAlarmHost.Restart

namespace SssAlarmHost.VoicePlayer
open MachineRuns

-- The statement of voice_handler_init to be executed next, with i2s2_tx_dma_init
-- spelled out, or of play_voice_start with i2s_play_start spelled out. After a
-- call through a null pointer there is nothing left to follow.
inductive Point where
  | peripherals | dataLength | dmaConfigure | multiBufferStart | dmaDisable
  | enableIt | clearFlag | setPriority | enableIrq | setCallback
  | idle
  | starting (voiceIndex : UInt16) (pc : Pc) (register : UInt32)
  | streamEnable | flagEnable
  | fault

def Point.armed : Point → Bool
  | .peripherals | .dataLength | .dmaConfigure | .multiBufferStart | .dmaDisable | .enableIt | .fault => false
  | _ => true

structure System where
  player : Player
  point : Point
  i2sDmaFinishIrqCallback : Option (Player → Player)

-- DMA1_Stream4_IRQHandler with its function pointer, and whether it calls it.
def irqHandler (callback : Option (Player → Player)) (s : Player) : Player × Bool :=
  if s.dma.tcif then
    let s := {s with dma := {s.dma with tcif := false}}
    if s.i2sStopFlag = false then (callback.getD id s,true) else (s,false)
  else (s,false)

def advance (flash : Flash) (head : VoiceHead) (s : System) : Option System :=
  let p := s.player
  let go p point : Option System := some ⟨p,point,s.i2sDmaFinishIrqCallback⟩
  let dma (dma : Dma) point : Option System := go {p with dma := dma} point
  match s.point with
  -- voice_header_get, tas2505_init, i2s2_init and i2s2_samplerate_set.
  | .peripherals => go p .dataLength
  -- The stream is not known to m_dma_handler yet: only the variable is stored.
  | .dataLength => go {p with transmitDataLength := 1024/2,events := p.events ++ [.datalength (1024/2)]} .dmaConfigure
  | .dmaConfigure => dma ⟨false,false,false,0,.mem0⟩ .multiBufferStart
  | .multiBufferStart => dma {p.dma with enabled := true,ndtr := p.transmitDataLength} .dmaDisable
  | .dmaDisable => dma {p.dma with enabled := false} .enableIt
  | .enableIt => dma {p.dma with itTc := true} .clearFlag
  | .clearFlag => dma {p.dma with tcif := false} .setPriority
  | .setPriority => go p .enableIrq
  | .enableIrq => go p .setCallback
  | .setCallback => some ⟨p,.idle,some (i2sDmaFinishHandler flash)⟩
  | .idle => none
  | .starting _ .playStart _ => go {p with i2sStopFlag := false,events := p.events ++ [.start]} .streamEnable
  | .starting voiceIndex pc register => (statement flash voiceIndex (head voiceIndex) ⟨p,pc,register⟩).bind
      fun next => go next.player (.starting voiceIndex next.pc next.register)
  | .streamEnable => dma {p.dma with enabled := true} .flagEnable
  | .flagEnable => dma {p.dma with itTc := true} .idle
  | .fault => none

-- Whether the last i2s_play_start has not been stopped yet.
def afterEvent (playing : Bool) : Event → Bool
  | .start => true
  | .stop => false
  | _ => playing

def playing (events : List Event) : Bool := events.foldl afterEvent false

inductive Occurrence where
  | statement
  | play (voiceIndex : UInt16)
  | block
  | late

-- A transfer-complete interrupt comes at the end of a block, or late with none,
-- at any point once it is enabled.
def arrived (s : System) : Occurrence → Option Player
  | .block => if s.point.armed && s.player.dma.enabled then some (endBlock s.player) else none
  | .late => if s.point.armed then some {s.player with dma := {s.player.dma with tcif := true}} else none
  | _ => none

def handled (s : System) (p : Player) : System :=
  let after := irqHandler s.i2sDmaFinishIrqCallback p
  ⟨after.1,if after.2 && s.i2sDmaFinishIrqCallback.isNone then .fault else s.point,s.i2sDmaFinishIrqCallback⟩

-- A play is issued only after the previous one was stopped.
def gateStep (flash : Flash) (head : VoiceHead) (s : System) : Occurrence → Option System
  | .statement => advance flash head s
  | .play voiceIndex => match s.point with
    | .idle => if playing s.player.events then none else some {s with point := .starting voiceIndex .index 0}
    | _ => none
  | a => (arrived s a).map (handled s)

def powerOn : System := ⟨⟨fun _ => Buffer.zero,⟨0,0,0,0⟩,0,0,false,0,⟨false,false,false,0,.mem0⟩,0,[]⟩,.peripherals,none⟩

structure Untouched (before after : Player) : Prop where
  buffers : after.i2sBuffer = before.i2sBuffer
  param : after.voiceParam = before.voiceParam
  using' : after.usingMemBuff = before.usingMemBuff
  length : after.transmitDataLength = before.transmitDataLength
  ndtr : after.dma.ndtr = before.dma.ndtr

-- An interrupt calls the callback only during playback and when it is set, and
-- outside playback it changes nothing of the player.
structure Gated (s : System) (a : Occurrence) : Prop where
  playback : ∀ p, arrived s a = some p → (irqHandler s.i2sDmaFinishIrqCallback p).2 = true → playing s.player.events = true
  set : ∀ p, arrived s a = some p → (irqHandler s.i2sDmaFinishIrqCallback p).2 = true → s.i2sDmaFinishIrqCallback.isSome
  quiet : ∀ p, arrived s a = some p → playing s.player.events = false → Untouched s.player (handled s p).player

def Started (s : System) (a : Occurrence) : Prop := (arrived s a).isSome → Event.start ∈ s.player.events

variable {flash : Flash} {head : VoiceHead} {s next : System}

instance (s : System) (a : Occurrence) : Decidable (Started s a) := by unfold Started; infer_instance

theorem handler_with_callback (flash : Flash) (p : Player) :
    (irqHandler (some (i2sDmaFinishHandler flash)) p).1 = dma1Stream4IrqHandler flash p := by
  unfold irqHandler dma1Stream4IrqHandler
  by_cases flag : p.dma.tcif
  · simp only [if_pos flag]
    split <;> rfl
  · simp only [if_neg flag]

-- Initialised without interruption, the player is the one of the other modules.
theorem alone_initialises (flash : Flash) (head : VoiceHead) :
    run (gateStep flash head) powerOn (List.replicate 10 .statement) =
      some ⟨{initialised with events := [.datalength 512]},.idle,some (i2sDmaFinishHandler flash)⟩ := rfl

theorem spelled_play_start (flash : Flash) (head : VoiceHead) (p : Player) (voiceIndex : UInt16) (register : UInt32)
    (callback : Option (Player → Player)) :
    run (gateStep flash head) ⟨p,.starting voiceIndex .playStart register,callback⟩ (List.replicate 3 .statement) =
      some ⟨i2sPlayStart p,.idle,callback⟩ := rfl

def Neutral (es : List Event) : Prop := ∀ e ∈ es, e ≠ .start ∧ e ≠ .stop

structure Neutrally (before after : Player) : Prop where
  flag : after.i2sStopFlag = before.i2sStopFlag
  playing : playing after.events = playing before.events
  started : Event.start ∈ after.events ↔ Event.start ∈ before.events

theorem playing_neutral (events : List Event) {es : List Event} (neutral : Neutral es) :
    playing (events ++ es) = playing events := by
  unfold playing
  rw [List.foldl_append]
  induction es generalizing events with
  | nil => rfl
  | cons e rest ih =>
    have first := neutral e (by simp)
    have later : Neutral rest := fun x member => neutral x (by simp [member])
    have same : afterEvent (events.foldl afterEvent false) e = events.foldl afterEvent false := by
      cases e with
      | start => exact absurd rfl first.1
      | stop => exact absurd rfl first.2
      | _ => rfl
    have rest := ih events later
    rwa [List.foldl_cons,same]

theorem neutrally {before after : Player} (es : List Event) (flag : after.i2sStopFlag = before.i2sStopFlag)
    (events : after.events = before.events ++ es) (neutral : Neutral es) : Neutrally before after := by
  refine ⟨flag,?_,?_⟩
  · rw [events,playing_neutral before.events neutral]
  · rw [events,List.mem_append]
    exact ⟨fun found => found.resolve_right fun more => (neutral .start more).1 rfl,Or.inl⟩

theorem neutrally_same {before after : Player} (flag : after.i2sStopFlag = before.i2sStopFlag)
    (events : after.events = before.events) : Neutrally before after :=
  ⟨flag,congrArg _ events,by rw [events]⟩

theorem neutrally_trans {first second third : Player} (before : Neutrally first second) (after : Neutrally second third) :
    Neutrally first third :=
  ⟨after.flag.trans before.flag,after.playing.trans before.playing,after.started.trans before.started⟩

theorem dual_neutrally (p : Player) (halfWords : UInt32) : Neutrally p (addDualByte p halfWords) := neutrally_same rfl rfl

theorem read_neutrally (flash : Flash) (p : Player) (addr : UInt32) (mem : Mem) (bytes : UInt32) :
    Neutrally p (w25qxxRead flash p addr mem bytes) := neutrally [.load mem addr bytes] rfl rfl (by simp [Neutral])

theorem length_neutrally (p : Player) (dataLength : UInt32) : Neutrally p (dmaTransmitDatalength p dataLength) :=
  neutrally [.datalength dataLength] rfl rfl (by simp [Neutral])

theorem statement_neutrally {voiceIndex : UInt16} {info : VoiceInfo} {r after : Restart}
    (before : r.pc ≠ .playStart) (taken : statement flash voiceIndex info r = some after) :
    Neutrally r.player after.player := by
  obtain ⟨p,pc,register⟩ := r
  cases pc with
  | playStart => exact absurd rfl before
  | returned => cases taken
  | firstRead | secondRead | restRead | shortRead => cases taken; exact read_neutrally flash p _ _ _
  | firstLength | shortLength => cases taken; exact length_neutrally p _
  | firstDual | secondDual | restDual | shortDual => cases taken; exact dual_neutrally p _
  | output => cases taken; exact neutrally [.output true] rfl rfl (by simp [Neutral])
  | _ => cases taken; exact neutrally_same rfl rfl

theorem refill_neutrally (flash : Flash) (p : Player) (mem : Mem) (value : UInt8) :
    Neutrally p (refill flash p mem value) := by
  unfold refill
  split
  · have read := read_neutrally flash p (nextAddr p) mem 1024
    exact ⟨read.flag,read.playing,read.started⟩
  · have read := read_neutrally flash p (nextAddr p) mem p.voiceParam.voiceRemainSize
    have length := neutrally_trans read (length_neutrally _ (p.voiceParam.voiceRemainSize/2))
    exact ⟨length.flag,length.playing,length.started⟩

theorem playing_stopped (events : List Event) (on : Bool) : playing (events ++ [.stop,.output on]) = false := by
  simp [playing,afterEvent]

theorem playing_started (events : List Event) : playing (events ++ [.start]) = true := by
  simp [playing,afterEvent]

-- The flag says whether a play is stopped, as far as one was ever started.
def Tracks (p : Player) : Prop := p.i2sStopFlag = !playing p.events

theorem finish_tracks (flash : Flash) {p : Player} (tracks : Tracks p) : Tracks (i2sDmaFinishHandler flash p) := by
  unfold i2sDmaFinishHandler Tracks
  split
  · have kept := refill_neutrally flash p .mem0 1
    rw [kept.flag,kept.playing]
    exact tracks
  · split
    · have kept := refill_neutrally flash p .mem1 0
      rw [kept.flag,kept.playing]
      exact tracks
    · have stopped := playing_stopped p.events false
      simp only [finishVoice,tas2505OutputSet,i2sPlayStop,List.append_assoc,List.cons_append,List.nil_append,stopped]
      rfl

theorem finish_started (flash : Flash) {p : Player} (started : Event.start ∈ p.events) :
    Event.start ∈ (i2sDmaFinishHandler flash p).events := by
  unfold i2sDmaFinishHandler
  split
  · exact (refill_neutrally flash p .mem0 1).started.mpr started
  · split
    · exact (refill_neutrally flash p .mem1 0).started.mpr started
    · simp [finishVoice,tas2505OutputSet,i2sPlayStop,started]

def Point.installed : Point → Bool
  | .idle | .starting _ _ _ | .streamEnable | .flagEnable => true
  | _ => false

-- Before the first start the flag has the value it was loaded with, which is the
-- value of a play under way. From then on it tells whether one is.
structure Gate (flash : Flash) (s : System) : Prop where
  before : Event.start ∉ s.player.events → s.player.i2sStopFlag = false ∧ playing s.player.events = false
  after : Event.start ∈ s.player.events → Tracks s.player ∧ s.point.installed = true
  callback : s.point.installed = true → s.i2sDmaFinishIrqCallback = some (i2sDmaFinishHandler flash)

theorem powerOn_gate (flash : Flash) : Gate flash powerOn :=
  ⟨fun _ => ⟨rfl,rfl⟩,(fun started => nomatch started),(fun installed => nomatch installed)⟩

theorem neutral_gate (gate : Gate flash s) (kept : Neutrally s.player next.player)
    (stays : s.point.installed = true → next.point.installed = true)
    (callback : next.point.installed = true → next.i2sDmaFinishIrqCallback = some (i2sDmaFinishHandler flash)) :
    Gate flash next := by
  refine ⟨?_,?_,callback⟩
  · intro fresh
    have loaded := gate.before fun started => fresh (kept.started.mpr started)
    exact ⟨kept.flag.trans loaded.1,kept.playing.trans loaded.2⟩
  · intro started
    have tracked := gate.after (kept.started.mp started)
    refine ⟨?_,stays tracked.2⟩
    unfold Tracks
    rw [kept.flag,kept.playing]
    exact tracked.1

theorem statement_gate (gate : Gate flash s) (taken : advance flash head s = some next) : Gate flash next := by
  have callback := gate.callback
  obtain ⟨p,point,pointer⟩ := s
  cases point with
  | idle | fault => cases taken
  | dataLength =>
    cases taken
    exact neutral_gate gate (neutrally [.datalength 512] rfl rfl (by simp [Neutral])) (fun i => i) callback
  | setCallback => cases taken; exact neutral_gate gate (neutrally_same rfl rfl) (fun _ => rfl) fun _ => rfl
  | starting voiceIndex pc register =>
    by_cases last : pc = .playStart
    · cases last
      cases taken
      refine ⟨fun fresh => absurd (by simp) fresh,fun _ => ⟨?_,rfl⟩,callback⟩
      simp [Tracks,playing_started]
    · have rest : (statement flash voiceIndex (head voiceIndex) ⟨p,pc,register⟩).bind
          (fun after => some ⟨after.player,.starting voiceIndex after.pc after.register,pointer⟩) = some next := by
        cases pc with
        | playStart => exact absurd rfl last
        | _ => exact taken
      obtain ⟨after,moved,shape⟩ := Option.bind_eq_some_iff.mp rest
      cases shape
      exact neutral_gate gate (statement_neutrally last moved) (fun i => i) callback
  | _ => cases taken; exact neutral_gate gate (neutrally_same rfl rfl) (fun i => i) callback

-- What an interrupt finds: its flag is set, and the rest is as it was.
structure Arrived (s : System) (p : Player) : Prop where
  flag : p.dma.tcif = true
  kept : Neutrally s.player p
  untouched : Untouched s.player {p with dma := {p.dma with tcif := false}}

theorem arrived_player {a : Occurrence} {p : Player} (came : arrived s a = some p) : Arrived s p := by
  cases a with
  | statement | play => cases came
  | block =>
    obtain ⟨_,shape⟩ := Option.ite_none_right_eq_some.mp came
    cases shape
    exact ⟨rfl,neutrally [.block _ _] rfl rfl (by simp [Neutral]),⟨rfl,rfl,rfl,rfl,rfl⟩⟩
  | late =>
    obtain ⟨_,shape⟩ := Option.ite_none_right_eq_some.mp came
    cases shape
    exact ⟨rfl,neutrally_same rfl rfl,⟨rfl,rfl,rfl,rfl,rfl⟩⟩

theorem irq_skips {p : Player} (callback : Option (Player → Player)) (flag : p.dma.tcif = true)
    (stopped : p.i2sStopFlag = true) : irqHandler callback p = ({p with dma := {p.dma with tcif := false}},false) := by
  simp [irqHandler,flag,stopped]

theorem irq_calls {p : Player} (callback : Option (Player → Player)) (flag : p.dma.tcif = true)
    (running : p.i2sStopFlag = false) :
    irqHandler callback p = (callback.getD id {p with dma := {p.dma with tcif := false}},true) := by
  simp [irqHandler,flag,running]

theorem started_gated (gate : Gate flash s) {a : Occurrence} (started : Started s a) : Gated s a := by
  have found : ∀ p, arrived s a = some p → Tracks s.player ∧ s.point.installed = true := by
    intro p came
    exact gate.after (started (by rw [came]; rfl))
  refine ⟨?_,?_,?_⟩
  · intro p came calls
    have arrival := arrived_player came
    by_contra silent
    have stopped : p.i2sStopFlag = true := by
      rw [arrival.kept.flag,(found p came).1,Bool.eq_false_iff.mpr silent]
      rfl
    rw [irq_skips _ arrival.flag stopped] at calls
    cases calls
  · intro p came _
    rw [gate.callback (found p came).2]
    rfl
  · intro p came silent
    have arrival := arrived_player came
    have stopped : p.i2sStopFlag = true := by
      rw [arrival.kept.flag,(found p came).1,silent]
      rfl
    unfold handled
    rw [irq_skips _ arrival.flag stopped]
    exact arrival.untouched

theorem gated_started (gate : Gate flash s) {a : Occurrence} (gated : Gated s a) : Started s a := by
  intro some
  obtain ⟨p,came⟩ := Option.isSome_iff_exists.mp some
  have arrival := arrived_player came
  by_contra fresh
  obtain ⟨running,silent⟩ := gate.before fresh
  have calls := irq_calls s.i2sDmaFinishIrqCallback arrival.flag (arrival.kept.flag.trans running)
  have now := gated.playback p came (by rw [calls])
  rw [silent] at now
  cases now

theorem gated_iff (gate : Gate flash s) (a : Occurrence) : Started s a ↔ Gated s a :=
  ⟨started_gated gate,gated_started gate⟩

theorem interrupt_gate (gate : Gate flash s) {p : Player} (arrival : Arrived s p)
    (started : Event.start ∈ s.player.events) :
    Gate flash (handled s p) := by
  obtain ⟨tracks,installed⟩ := gate.after started
  have callback := gate.callback installed
  have cleared : Tracks {p with dma := {p.dma with tcif := false}} := by
    have flag := arrival.kept.flag
    have events := arrival.kept.playing
    unfold Tracks at tracks ⊢
    rw [flag,events]
    exact tracks
  have went := arrival.kept.started.mpr started
  unfold handled
  cases stopped : p.i2sStopFlag with
  | true =>
    rw [irq_skips _ arrival.flag stopped]
    exact ⟨fun fresh => absurd went fresh,fun _ => ⟨cleared,installed⟩,gate.callback⟩
  | false =>
    rw [irq_calls _ arrival.flag stopped,callback]
    have finished := finish_started flash (p := {p with dma := {p.dma with tcif := false}}) went
    exact ⟨fun fresh => absurd finished fresh,fun _ => ⟨finish_tracks flash cleared,installed⟩,fun _ => rfl⟩

theorem step_gate {a : Occurrence} (gate : Gate flash s) (gated : Gated s a)
    (taken : gateStep flash head s a = some next) : Gate flash next := by
  have started := gated_started gate gated
  cases a with
  | statement => exact statement_gate gate taken
  | play voiceIndex =>
    obtain ⟨p,point,pointer⟩ := s
    cases point with
    | idle =>
      obtain ⟨_,shape⟩ := Option.ite_none_left_eq_some.mp taken
      cases shape
      exact neutral_gate gate (neutrally_same rfl rfl) (fun _ => rfl) fun _ => gate.callback rfl
    | _ => cases taken
  | block | late =>
    obtain ⟨p,came,shape⟩ := Option.map_eq_some_iff.mp taken
    cases shape
    exact interrupt_gate gate (arrived_player came) (started (by rw [came]; rfl))

-- For every run from power on, any plays and interrupts anywhere: the callback is
-- called only during playback, set, and outside it interrupts change nothing,
-- exactly as long as none arrives before the first i2s_play_start.
theorem finish_gated_iff (flash : Flash) (head : VoiceHead) (actions : List Occurrence) :
    Along (gateStep flash head) Started powerOn actions ↔ Along (gateStep flash head) Gated powerOn actions :=
  along_iff (fun _ a gate => gated_iff gate a) (fun _ _ _ gate gated taken => step_gate gate gated taken)
    (powerOn_gate flash) actions

-- An interrupt between HAL_NVIC_EnableIRQ and the assignment of the callback.
theorem interrupt_calls_null : ¬ ∀ (flash : Flash) (head : VoiceHead) (actions : List Occurrence),
    Along (gateStep flash head) Gated powerOn actions := by
  intro all
  have bad := along_at (List.replicate 9 Occurrence.statement)
    (all erased (fun _ => ⟨0,0⟩) (List.replicate 9 .statement ++ [.late])) rfl
  exact absurd (bad.set _ rfl rfl) (by decide)

end SssAlarmHost.VoicePlayer
