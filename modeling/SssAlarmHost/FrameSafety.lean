import SssAlarmHost.FrameDelivery

namespace SssAlarmHost.FrameParser

variable (beyond : Beyond) {Q : Type} (rtMqSend : Q → List UInt8 → RtErr × Q)

-- rx_frame_pkg has 128 bytes; rt_mq_send reads its message from byte 2 on.
def InBounds : Effect → Prop
  | .store index _ => index.toNat < 128
  | .send payload _ => 2 + payload.length ≤ 128
  | .print _ => True

-- Streams cut into frames of 1 to 126 payload bytes, and whatever comes last not
-- longer than the buffer. The cut follows the length bytes alone.
inductive FramesFit : List UInt8 → Prop where
  | last {bytes : List UInt8} : bytes.length ≤ 128 → FramesFit bytes
  | frame {payload rest : List UInt8} : 1 ≤ payload.length → payload.length ≤ 126 → FramesFit rest →
      FramesFit (encodeFrame payload ++ rest)

theorem stores_in_bounds (start : Nat) (bytes : List UInt8) (fits : start + bytes.length ≤ 128) :
    ∀ e ∈ stores start bytes, InBounds e := by
  induction bytes generalizing start with
  | nil => simp [stores]
  | cons ch rest ih =>
    intro e member
    simp only [List.length_cons] at fits
    rcases List.mem_cons.mp member with rfl | later
    · simp only [InBounds,UInt8.toNat_ofNat']
      omega
    · exact ih (start+1) (by omega) e later

theorem rxByte_store {seen : List UInt8} {s : RxThread} (mid : Mid seen s) (q : Q) (ch : UInt8) :
    .store (UInt8.ofNat seen.length) ch ∈ (rxByte beyond rtMqSend (s,q) ch).2 := by
  simp only [rxByte,index_ofNat (Nat.lt_of_le_of_lt mid.short (by decide)) mid.index]
  split <;> simp

theorem overrun {s : RxThread} (boundary : AtBoundary s) (q : Q) (bytes : List UInt8)
    (long : 128 < bytes.length) (bad : announced bytes = 0 ∨ 127 ≤ announced bytes) :
    ∃ e ∈ (feed beyond rtMqSend (s,q) bytes).2, ¬InBounds e := by
  have length : (bytes.take 129).length = 128 + 1 := by simp; omega
  obtain ⟨front,ch,split,frontLength⟩ := snoc_of_length length
  have same : announced front = announced bytes := by
    have whole : announced (bytes.take 129) = announced bytes := announced_take (by decide) (by omega)
    rw [split,announced_append (by omega)] at whole
    exact whole
  obtain ⟨middle,ran,mid⟩ := feed_unfinished beyond rtMqSend boundary q front (by omega)
    (unfinished_of_announced (by intro; omega))
  have written := rxByte_store beyond rtMqSend mid q ch
  rw [frontLength] at written
  refine ⟨_,?_,show ¬InBounds (.store (UInt8.ofNat 128) ch) by simp [InBounds]⟩
  have parts : bytes = front ++ (ch :: bytes.drop 129) := by
    have whole := List.take_append_drop 129 bytes
    rw [split] at whole
    simpa using whole.symm
  rw [parts,feed_append,ran]
  simp only [List.mem_append]
  exact Or.inr (by simp only [feed]; exact List.mem_append_left _ written)

theorem frame_in_bounds {s : RxThread} (boundary : AtBoundary s) (q : Q) (payload : List UInt8)
    (positive : 1 ≤ payload.length) (fits : payload.length ≤ 126) :
    ∀ e ∈ (feed beyond rtMqSend (s,q) (encodeFrame payload)).2, InBounds e := by
  obtain ⟨next,ran,_⟩ := feed_frame beyond rtMqSend boundary q payload positive (by omega)
  rw [ran]
  intro e member
  rcases List.mem_append.mp member with stored | sent
  · exact stores_in_bounds 0 _ (by simp; omega) e stored
  · rcases List.mem_cons.mp sent with rfl | printed
    · simp only [InBounds]; omega
    · rw [List.mem_singleton.mp printed]; trivial

-- Strong induction on what is left: a stream of at most 128 bytes holds only
-- frames that fit, and then a tail whose stores stay below its own length.
theorem short_in_bounds (n : Nat) {s : RxThread} (boundary : AtBoundary s) (q : Q) (bytes : List UInt8)
    (length : bytes.length = n) (short : n ≤ 128) :
    ∀ e ∈ (feed beyond rtMqSend (s,q) bytes).2, InBounds e := by
  induction n using Nat.strongRecOn generalizing s q bytes with
  | ind n ih =>
    by_cases whole : announced bytes ≠ 0 ∧ announced bytes + 2 ≤ bytes.length
    · obtain ⟨payload,rest,size,split⟩ := frame_split whole.2
      obtain ⟨next,ran,done⟩ := feed_frame beyond rtMqSend boundary q payload (by omega) (by omega)
      have head := frame_in_bounds beyond rtMqSend boundary q payload (by omega) (by omega)
      have total : bytes.length = payload.length + 2 + rest.length := by
        conv_lhs => rw [split]
        simp
      have tail := ih rest.length (by omega) (Or.inl done) (rtMqSend q payload).2 rest rfl (by omega)
      intro e member
      rw [split,feed_append,ran] at member
      rw [ran] at head
      rcases List.mem_append.mp member with first | second
      · exact head e first
      · exact tail e second
    · obtain ⟨next,ran,_⟩ := feed_unfinished beyond rtMqSend boundary q bytes (by omega)
        (unfinished_of_announced (by intro; omega))
      rw [ran]
      exact stores_in_bounds 0 bytes (by omega)

theorem fit_in_bounds {bytes : List UInt8} (fit : FramesFit bytes) {s : RxThread} (boundary : AtBoundary s)
    (q : Q) : ∀ e ∈ (feed beyond rtMqSend (s,q) bytes).2, InBounds e := by
  induction fit generalizing s q with
  | last short => exact short_in_bounds beyond rtMqSend _ boundary q _ rfl short
  | @frame payload rest positive fits _ ih =>
    obtain ⟨next,ran,done⟩ := feed_frame beyond rtMqSend boundary q payload positive (by omega)
    have head := frame_in_bounds beyond rtMqSend boundary q payload positive fits
    have tail := ih (Or.inl done) (rtMqSend q payload).2
    intro e member
    rw [feed_append] at member
    rcases List.mem_append.mp member with first | second
    · exact head e first
    · rw [ran] at second
      exact tail e second

theorem fit_of_in_bounds (n : Nat) {s : RxThread} (boundary : AtBoundary s) (q : Q) (bytes : List UInt8)
    (length : bytes.length = n) (safe : ∀ e ∈ (feed beyond rtMqSend (s,q) bytes).2, InBounds e) : FramesFit bytes := by
  induction n using Nat.strongRecOn generalizing s q bytes with
  | ind n ih =>
    by_cases short : bytes.length ≤ 128
    · exact .last short
    · by_cases bad : announced bytes = 0 ∨ 127 ≤ announced bytes
      · obtain ⟨e,member,outside⟩ := overrun beyond rtMqSend boundary q bytes (by omega) bad
        exact absurd (safe e member) outside
      · have inside : announced bytes + 2 ≤ bytes.length := by omega
        obtain ⟨payload,rest,size,split⟩ := frame_split inside
        obtain ⟨next,ran,done⟩ := feed_frame beyond rtMqSend boundary q payload (by omega) (by omega)
        have total : bytes.length = payload.length + 2 + rest.length := by
          conv_lhs => rw [split]
          simp
        rw [split,feed_append,ran] at safe
        rw [split]
        exact .frame (by omega) (by omega) (ih rest.length (by omega) (Or.inl done) _ rest rfl
          (fun e member => safe e (List.mem_append_right _ member)))

-- Every store below 128 and every send inside the buffer, exactly when the
-- stream announces only frames that fit for as long as it can overrun.
theorem uart3_in_bounds_iff (pkg : Fin 128 → UInt8) (len : UInt16) (q : Q) (bytes : List UInt8) :
    (∀ e ∈ (feed beyond rtMqSend (entry pkg len,q) bytes).2, InBounds e) ↔ FramesFit bytes :=
  ⟨fit_of_in_bounds beyond rtMqSend _ (Or.inl rfl) q bytes rfl,fun fit => fit_in_bounds beyond rtMqSend fit (Or.inl rfl) q⟩

-- One frame announcing 127 bytes: its last byte is stored at index 128.
theorem uart3_overruns : ¬ ∃ beyond : Beyond, ∀ e ∈ (feed beyond (answer fun _ => rtEok) (entry (fun _ => 0) 0,⟨0,[]⟩)
    (encodeFrame (List.replicate 127 0))).2, InBounds e := by
  rintro ⟨beyond,safe⟩
  obtain ⟨e,member,outside⟩ := overrun beyond (answer fun _ => rtEok) (s := entry (fun _ => 0) 0) (Or.inl rfl) ⟨0,[]⟩
    (encodeFrame (List.replicate 127 0)) (by simp)
    (Or.inr (by
      have length := announced_frame (List.replicate 127 0) (by simp) []
      simp only [List.append_nil,List.length_replicate] at length
      omega))
  exact outside (safe e member)

end SssAlarmHost.FrameParser
