import SssAlarmHost.PlayerRuns

namespace SssAlarmHost.VoicePlayer

variable {flash : Flash} {head : VoiceHead} {s : Player} {voiceIndex : UInt16}

-- One play: it starts with mem0, and each call of the handler that fills a buffer
-- fills the one the stream has just finished, not the one it is now sending.
structure OwnedPlay (flash : Flash) (head : VoiceHead) (s : Player) (voiceIndex : UInt16) : Prop where
  first : (playVoiceStart flash head s voiceIndex).dma.ct = .mem0
  refills : ∀ n mem next, (playOut flash n (playVoiceStart flash head s voiceIndex)).dma.enabled = true →
    refillTarget (playOut flash n (playVoiceStart flash head s voiceIndex)).usingMemBuff = some (mem,next) →
      mem = (playOut flash n (playVoiceStart flash head s voiceIndex)).dma.ct ∧
        mem ≠ (interrupted (playOut flash n (playVoiceStart flash head s voiceIndex))).dma.ct

-- Each play starts when the handler has stopped the previous one.
def Owned (flash : Flash) (head : VoiceHead) : Player → List UInt16 → Prop
  | _,[] => True
  | s,voiceIndex :: plays =>
    OwnedPlay flash head s voiceIndex ∧ Owned flash head (wholePlay flash head s voiceIndex) plays

def EvenBlocks (size : UInt32) : Prop :=
  1024 ≤ size.toNat ∧ (size.toNat ≤ 2048 ∨ (size.toNat + 1023)/1024 % 2 = 1)

instance (size : UInt32) : Decidable (EvenBlocks size) := by unfold EvenBlocks; infer_instance

theorem evenBlocks_iff (size : UInt32) : EvenBlocks size ↔ interruptCount size % 2 = 0 := by
  unfold EvenBlocks interruptCount
  split <;> omega

-- m_using_mem_buff names the buffer that CT points to.
def InStep (s : Player) : Prop := ∀ mem next, refillTarget s.usingMemBuff = some (mem,next) → s.dma.ct = mem

theorem refill_inStep (live : Live s) {mem : Mem} {next : UInt8} (target : refillTarget s.usingMemBuff = some (mem,next))
    (inStep : InStep s) : InStep (transferComplete flash s) := by
  have here := inStep mem next target
  intro mem' next' target'
  rw [refills_live flash live target] at target' ⊢
  simp only [refill_using,interrupted_keeps] at target'
  simp only [refill_keeps,interrupted_keeps,here]
  split at target'
  · cases target'
  · rw [target_next target] at target'
    cases target'
    rfl

-- Every block turns CT once, so where it ends is known from the start.
theorem refill_turned (live : Live s) {mem : Mem} {next : UInt8} (target : refillTarget s.usingMemBuff = some (mem,next))
    {final : Mem} (known : turned s.dma.ct (pending s) = final) :
    turned (transferComplete flash s).dma.ct (pending (transferComplete flash s)) = final := by
  have count := refill_pending flash live target
  rw [← count,turned_succ] at known
  rw [← known,refills_live flash live target]
  simp

theorem wholePlay_ct (flash : Flash) (head : VoiceHead) (s : Player) (voiceIndex : UInt16) : (wholePlay flash head s voiceIndex).dma.ct =
    turned s.dma.ct (interruptCount (head voiceIndex).size) := by
  obtain ⟨_,_,ct⟩ := start_control flash head s voiceIndex
  obtain ⟨known,one⟩ := beforeStop_invariant flash head s voiceIndex
    (fun t => turned t.dma.ct (pending t) = turned s.dma.ct (interruptCount (head voiceIndex).size))
    (fun t mem next live target known => refill_turned live target known) (by rw [start_pending,ct])
  rw [one] at known
  rw [(wholePlay_stops flash head s voiceIndex).2,← known]
  rfl

theorem start_inStep (mem0 : s.dma.ct = .mem0) : InStep (playVoiceStart flash head s voiceIndex) := by
  obtain ⟨_,using',ct⟩ := start_control flash head s voiceIndex
  intro mem next target
  rw [using'] at target
  rw [ct,mem0]
  split at target
  · cases target; rfl
  · cases target

theorem ownedPlay_iff : OwnedPlay flash head s voiceIndex ↔ s.dma.ct = .mem0 := by
  obtain ⟨_,_,ct⟩ := start_control flash head s voiceIndex
  constructor
  · intro owned
    rw [← ct]
    exact owned.first
  · intro mem0
    refine ⟨ct.trans mem0,?_⟩
    intro n mem next running target
    have before : n < pending (playVoiceStart flash head s voiceIndex) := by
      by_contra late
      have positive := pending_positive (playVoiceStart flash head s voiceIndex)
      have final := (playing_last flash (start_live flash head s voiceIndex) (Nat.sub_add_cancel positive)).2
        (n - pending (playVoiceStart flash head s voiceIndex))
      rw [Nat.sub_add_cancel positive,Nat.add_sub_cancel' (Nat.not_lt.mp late)] at final
      rw [final] at running
      cases running
    obtain ⟨_,inStep,_⟩ := playing_invariant flash InStep
      (fun t mem next live target inStep => refill_inStep live target inStep) (start_live flash head s voiceIndex)
      (start_inStep mem0) before
    have here := inStep mem next target
    exact ⟨here.symm,by simpa [here] using (other_ne mem).symm⟩

-- Any sequence of plays from a stream at mem0: every buffer is the stream's to
-- give exactly when each play followed by another takes an even number of blocks.
theorem buffers_owned_iff (flash : Flash) (head : VoiceHead) (s : Player) (mem0 : s.dma.ct = .mem0) (plays : List UInt16) :
    Owned flash head s plays ↔ ∀ voiceIndex ∈ plays.dropLast, EvenBlocks (head voiceIndex).size := by
  induction plays generalizing s with
  | nil => simp [Owned]
  | cons voiceIndex plays ih =>
    have owned : OwnedPlay flash head s voiceIndex := ownedPlay_iff.mpr mem0
    have ct := wholePlay_ct flash head s voiceIndex
    rw [mem0] at ct
    match plays with
    | [] => simp [Owned,owned]
    | later :: plays =>
      rw [List.dropLast_cons_cons,List.forall_mem_cons,evenBlocks_iff]
      by_cases even : interruptCount (head voiceIndex).size % 2 = 0
      · rw [turned,if_pos even] at ct
        rw [← ih _ ct]
        simp only [Owned,owned,even,true_and]
      · rw [turned,if_neg even] at ct
        have lost : ¬OwnedPlay flash head (wholePlay flash head s voiceIndex) later := by
          rw [ownedPlay_iff,ct]
          decide
        simp only [Owned,lost,even,false_and,and_false]

theorem buffers_owned_2000_5000_300 : Owned erased (fun i => ⟨0,if i = 0 then 2000 else if i = 1 then 5000 else 300⟩)
    initialised [0,1,2] :=
  (buffers_owned_iff erased _ initialised rfl [0,1,2]).mpr
    (List.forall_mem_cons.mpr ⟨by decide,List.forall_mem_cons.mpr ⟨by decide,by simp⟩⟩)

-- A voice of 512 bytes takes one block, and the next play starts with mem1.
theorem short_voice_turns_buffers : ¬ ∀ (flash : Flash) (head : VoiceHead) (s : Player), s.dma.ct = .mem0 →
    ∀ plays : List UInt16, (∀ voiceIndex ∈ plays, 2 ≤ (head voiceIndex).size) → Owned flash head s plays := by
  intro all
  have twice := all erased (fun _ => ⟨0,512⟩) initialised rfl [0,0] (fun _ _ => by decide)
  have second := (ownedPlay_iff.mp twice.2.1).symm.trans (wholePlay_ct _ _ _ _)
  revert second
  decide

end SssAlarmHost.VoicePlayer
