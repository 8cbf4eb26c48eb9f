import SssAlarmHost.LittleEndian
import SssAlarmHost.VoicePlayer

namespace SssAlarmHost.VoiceHeader
open LittleEndian VoicePlayer

-- MAX_VOICE_COUNT, and the size of voice_header_t with its 16 entries.
abbrev maxVoiceCount : Nat := 16
abbrev headSize : Nat := 132

-- A flash of a capacity. sfud_read compares addr + size, computed in 32 bits, with
-- it and then reads all the bytes.
structure Chip where
  content : UInt32 → UInt8
  capacity : UInt32

def w25qxxRead (chip : Chip) (addr bytes : UInt32) : Option (List UInt8) :=
  if chip.capacity < addr + bytes then none
  else some ((List.range bytes.toNat).map fun i => chip.content (addr + UInt32.ofNat i))

-- Memory from m_voice_head on: the struct and whatever lies behind it.
abbrev Memory := Nat → UInt8

def written (memory : Memory) : Option (List UInt8) → Memory × List Nat
  | none => (memory,[])
  | some bytes => (fun offset => bytes.getD offset (memory offset),List.range bytes.length)

def word (memory : Memory) (offset : Nat) : UInt32 :=
  word32 (memory offset) (memory (offset+1)) (memory (offset+2)) (memory (offset+3))

def voiceHeaderGet (chip : Chip) (head : Memory) : Memory × List Nat :=
  let count := word (written (fun _ => 0) (w25qxxRead chip 0 4)).1 0
  written head (w25qxxRead chip 0 (4 + count*8))

def voiceCount (head : Memory) : UInt32 := word head 0
def info (head : Memory) (i : Nat) : VoiceInfo := ⟨word head (4 + 8*i),word head (8 + 8*i)⟩

-- m_voice_head is zero before its first load.
def untouched (behind : Memory) : Memory := fun offset => if offset < headSize then 0 else behind offset

def stored (chip : Chip) : Memory := fun offset => chip.content (UInt32.ofNat offset)

-- m_voice_head as play_voice_start finds it: it indexes info with any voice_index.
def voiceHead (head : Memory) : VoiceHead := fun voiceIndex => info head voiceIndex.toNat

-- What it does depends on the listed entries and on nothing else of the memory.
def ReadsListed (head : Memory) (voiceIndex : UInt16) : Prop :=
  ∀ (flash : Flash) (s : Player) (other : Memory), (∀ i < (voiceCount head).toNat, info other i = info head i) →
    playVoiceStart flash (voiceHead other) s voiceIndex = playVoiceStart flash (voiceHead head) s voiceIndex

structure StaysInTable (chip : Chip) (behind : Memory) (voiceIndex : UInt16) : Prop where
  inside : ∀ offset ∈ (voiceHeaderGet chip (untouched behind)).2, offset < headSize
  counted : (voiceCount (voiceHeaderGet chip (untouched behind)).1).toNat ≤ maxVoiceCount
  loaded : ∀ i < (voiceCount (voiceHeaderGet chip (untouched behind)).1).toNat,
    info (voiceHeaderGet chip (untouched behind)).1 i = info (stored chip) i
  listed : ReadsListed (voiceHeaderGet chip (untouched behind)).1 voiceIndex

theorem start_reads_entry (flash : Flash) (head : VoiceHead) (s : Player) (voiceIndex : UInt16) :
    playVoiceStart flash head s voiceIndex = playVoiceStart flash (fun _ => head voiceIndex) s voiceIndex := rfl

theorem start_keeps_addr (flash : Flash) (head : VoiceHead) (s : Player) (voiceIndex : UInt16) :
    (playVoiceStart flash head s voiceIndex).voiceParam.voiceStartAddr = (head voiceIndex).startAddr := by
  unfold playVoiceStart
  by_cases long : 1024 ≤ (beginVoice head s voiceIndex).voiceParam.voiceTotalSize
  · simp only [if_pos long]
    unfold loadSecond
    split <;> rfl
  · simp only [if_neg long]
    rfl

def disturbed (head : Memory) (i : Nat) : Memory := Function.update head (4 + 8*i) (head (4 + 8*i) + 1)

theorem disturbed_differs (head : Memory) (i : Nat) : (info (disturbed head i) i).startAddr ≠ (info head i).startAddr := by
  intro same
  have value := congrArg UInt32.toNat same
  simp [info,word,disturbed,word32_toNat] at value
  have low := (head (4 + 8*i)).toNat_lt
  omega

theorem disturbed_keeps (head : Memory) {i j : Nat} (before : j < i) : info (disturbed head i) j = info head j := by
  unfold info word disturbed
  repeat rw [Function.update_of_ne (by omega)]

theorem reads_listed_iff (head : Memory) (voiceIndex : UInt16) :
    ReadsListed head voiceIndex ↔ voiceIndex.toNat < (voiceCount head).toNat := by
  constructor
  · intro reads
    by_contra outside
    have same := reads erased initialised (disturbed head voiceIndex.toNat)
      fun i inside => disturbed_keeps head (Nat.lt_of_lt_of_le inside (Nat.not_lt.mp outside))
    have addr := congrArg (fun t : Player => t.voiceParam.voiceStartAddr) same
    simp only [start_keeps_addr] at addr
    exact disturbed_differs head voiceIndex.toNat addr
  · intro listed flash s other agrees
    have entry : voiceHead other voiceIndex = voiceHead head voiceIndex := agrees voiceIndex.toNat listed
    rw [start_reads_entry,entry]
    rfl

variable {chip : Chip} {behind : Memory} {voiceIndex : UInt16}

theorem read_refused {bytes : UInt32} (large : chip.capacity < bytes) : w25qxxRead chip 0 bytes = none := by
  simp [w25qxxRead,large]

theorem read_stored {bytes : UInt32} (fits : ¬chip.capacity < bytes) (memory : Memory) :
    (written memory (w25qxxRead chip 0 bytes)).2 = List.range bytes.toNat ∧
      ∀ offset < bytes.toNat, (written memory (w25qxxRead chip 0 bytes)).1 offset = stored chip offset := by
  have read : w25qxxRead chip 0 bytes = some ((List.range bytes.toNat).map (stored chip)) := by
    simp [w25qxxRead,fits,stored]
  rw [read]
  refine ⟨by simp [written],?_⟩
  intro offset inside
  simp [written,inside]

theorem word_stored {memory other : Memory} {bytes : Nat} (offset : Nat) (same : ∀ o < bytes, memory o = other o)
    (inside : offset + 3 < bytes) : word memory offset = word other offset := by
  unfold word
  rw [same offset (by omega),same (offset+1) (by omega),same (offset+2) (by omega),same (offset+3) inside]

-- A flash that holds less than a count leaves the local variable at zero.
def askedCount (chip : Chip) : UInt32 := if chip.capacity < 4 then 0 else voiceCount (stored chip)

theorem header_get (chip : Chip) (head : Memory) :
    voiceHeaderGet chip head = written head (w25qxxRead chip 0 (4 + askedCount chip*8)) := by
  unfold voiceHeaderGet askedCount voiceCount
  by_cases small : chip.capacity < 4
  · rw [read_refused small,if_pos small]
    rfl
  · obtain ⟨_,same⟩ := read_stored small (fun _ => 0)
    have count := word_stored 0 same (by decide)
    simp only [count,if_neg small]

theorem asked_bytes (count : UInt32) : (4 + count*8).toNat % 8 = 4 ∧ 4 ≤ (4 + count*8).toNat := by
  have bound := count.toNat_lt
  simp only [UInt32.toNat_add,UInt32.toNat_mul,UInt32.reduceToNat]
  omega

theorem refused_empty (behind : Memory) (large : chip.capacity < 4 + askedCount chip*8) :
    voiceCount (voiceHeaderGet chip (untouched behind)).1 = 0 := by
  rw [header_get,read_refused large]
  simp [voiceCount,word,written,untouched,headSize,word32]

theorem loaded_count (fits : ¬chip.capacity < 4 + askedCount chip*8) (head : Memory) :
    voiceCount (voiceHeaderGet chip head).1 = voiceCount (stored chip) := by
  obtain ⟨_,same⟩ := read_stored fits head
  rw [header_get]
  exact word_stored 0 same (by have := (asked_bytes (askedCount chip)).2; omega)

theorem small_asked {count : UInt32} (few : count.toNat ≤ 16) : (4 + count*8).toNat = 4 + 8*count.toNat := by
  simp only [UInt32.toNat_add,UInt32.toNat_mul,UInt32.reduceToNat]
  omega

theorem asked_stored (large : ¬chip.capacity < 4 + askedCount chip*8) : askedCount chip = voiceCount (stored chip) := by
  refine if_neg fun small => large ?_
  have more := (asked_bytes (askedCount chip)).2
  rw [UInt32.lt_iff_toNat_lt] at small ⊢
  simp only [UInt32.reduceToNat] at small
  omega

-- The header is loaded whole exactly when its count is one the table has room for
-- and the flash holds it, and then only the listed entries are safe to play.
theorem stays_in_table_iff (chip : Chip) (behind : Memory) (voiceIndex : UInt16) :
    StaysInTable chip behind voiceIndex ↔
      (voiceCount (stored chip)).toNat ≤ maxVoiceCount ∧
        4 + 8*(voiceCount (stored chip)).toNat ≤ chip.capacity.toNat ∧
        voiceIndex.toNat < (voiceCount (stored chip)).toNat := by
  by_cases large : chip.capacity < 4 + askedCount chip*8
  · have empty := refused_empty behind large
    refine iff_of_false ?_ ?_
    · intro stays
      have listed := (reads_listed_iff _ _).mp stays.listed
      rw [empty] at listed
      exact absurd listed (Nat.not_lt_zero _)
    · rintro ⟨few,fits,_⟩
      have holds : ¬chip.capacity < 4 := by rw [UInt32.lt_iff_toNat_lt]; simp only [UInt32.reduceToNat]; omega
      have asked : askedCount chip = voiceCount (stored chip) := if_neg holds
      rw [asked,UInt32.lt_iff_toNat_lt,small_asked few] at large
      omega
  · have count := loaded_count large (untouched behind)
    obtain ⟨offsets,same⟩ := read_stored large (untouched behind)
    have asked := asked_stored large
    rw [asked] at large offsets same
    rw [UInt32.lt_iff_toNat_lt,Nat.not_lt] at large
    constructor
    · intro stays
      have counted := stays.counted
      have listed := (reads_listed_iff _ _).mp stays.listed
      rw [count] at counted listed
      rw [small_asked counted] at large
      exact ⟨counted,large,listed⟩
    · rintro ⟨few,_,listed⟩
      have bytes := small_asked few
      refine ⟨?_,by rw [count]; exact few,?_,(reads_listed_iff _ _).mpr (by rw [count]; exact listed)⟩
      · intro offset member
        rw [header_get,asked,offsets,List.mem_range,bytes] at member
        have most : (voiceCount (stored chip)).toNat ≤ 16 := few
        show offset < 132
        omega
      · intro i inside
        rw [count] at inside
        rw [header_get,asked]
        unfold info
        rw [word_stored (4 + 8*i) same (by omega),word_stored (8 + 8*i) same (by omega)]

-- Seventeen entries in an erased 16 MB flash: eight bytes go behind the table.
def seventeen : Chip := ⟨fun addr => if addr = 0 then 17 else if addr < 4 then 0 else 0xFF,16777216⟩

theorem header_overflows : ¬ ∀ (chip : Chip) (behind : Memory) (voiceIndex : UInt16), StaysInTable chip behind voiceIndex := by
  intro all
  have last := (all seventeen (fun _ => 0) 0).inside 139 (by decide +kernel)
  exact absurd last (by decide)

end SssAlarmHost.VoiceHeader
