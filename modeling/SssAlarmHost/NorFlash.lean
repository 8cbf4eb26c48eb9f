import Mathlib.Algebra.Ring.Nat
import Mathlib.Data.List.Basic
import Mathlib.Data.List.GetD
import Mathlib.Logic.Function.Basic

namespace NorFlash

-- A serial NOR flash part: its size, how many address bytes follow an instruction, and
-- the size of the aligned block that an erase instruction clears.
structure Part where
  capacity : Nat
  addressBytes : Nat
  eraseBlock : UInt8 → Option Nat

-- The cells, the write enable latch, and how many status reads still find it busy.
structure Chip where
  cells : Nat → UInt8
  wel : Bool
  busy : Nat

def pageSize : Nat := 256

-- The address counter of a program instruction stays on its page, and programming
-- only clears bits.
def program (cells : Nat → UInt8) (page offset : Nat) : List UInt8 → Nat → UInt8
  | [] => cells
  | b :: rest =>
    program (Function.update cells (page + offset) (cells (page + offset) &&& b)) page ((offset + 1) % pageSize) rest

def erase (cells : Nat → UInt8) (start size : Nat) : Nat → UInt8 := fun a =>
  if start ≤ a ∧ a < start + size then 0xFF else cells a

-- Address bytes come highest first.
def address (bytes : List UInt8) : Nat := bytes.foldl (fun n b => 256*n + b.toNat) 0

def Chip.status (chip : Chip) : UInt8 := (if 0 < chip.busy then 1 else 0) ||| (if chip.wel then 2 else 0)

-- The latch falls when the operation under way ends.
def Chip.poll (chip : Chip) : Chip :=
  {chip with busy := chip.busy - 1,wel := chip.wel && chip.busy != 1}

def Chip.start (cells : Nat → UInt8) (busyFor : Nat) : Chip := ⟨cells,0 < busyFor,busyFor⟩

def Chip.execute (part : Part) (busyFor : Nat) (chip : Chip) (instruction : UInt8) (rest : List UInt8) : Chip :=
  let addr := address (rest.take part.addressBytes)
  if instruction = 0x06 then {chip with wel := true}
  else if instruction = 0x04 then {chip with wel := false}
  else if chip.wel = false then chip
  else if instruction = 0xC7 then Chip.start (erase chip.cells 0 part.capacity) busyFor
  else if instruction = 0x02 then
    Chip.start (program chip.cells (addr - addr % pageSize) (addr % pageSize) (rest.drop part.addressBytes)) busyFor
  else match part.eraseBlock instruction with
    | some size => Chip.start (erase chip.cells (addr - addr % size) size) busyFor
    | none => chip

-- One transfer: bytes sent, then bytes received. A busy chip only answers for its
-- status and ignores the rest.
def Chip.transfer (part : Part) (busyFor : Nat) (chip : Chip) (write : List UInt8) (readSize : Nat) : Chip × List UInt8 :=
  match write with
  | [] => (chip,List.replicate readSize 0xFF)
  | instruction :: rest =>
    if instruction = 0x05 then (chip.poll,List.replicate readSize chip.status)
    else if 0 < chip.busy then (chip,List.replicate readSize 0xFF)
    else if instruction = 0x03 then
      (chip,(List.range readSize).map fun i => chip.cells (address (rest.take part.addressBytes) + i))
    else (chip.execute part busyFor instruction rest,List.replicate readSize 0xFF)

-- What becomes of a transfer: it is done, it never reaches the chip, or the chip does
-- it and the controller reports a failure.
inductive Outcome where
  | ok
  | lost
  | unanswered
  deriving DecidableEq

-- The outcome of each transfer and the time each operation takes, over all time.
structure Line where
  outcome : Nat → Outcome
  busyFor : Nat → Nat

structure Bus where
  chip : Chip
  transfers : Nat

def Bus.wr (part : Part) (line : Line) (bus : Bus) (write : List UInt8) (readSize : Nat) : Bus × Bool × List UInt8 :=
  let done := bus.chip.transfer part (line.busyFor bus.transfers) write readSize
  match line.outcome bus.transfers with
  | .ok => (⟨done.1,bus.transfers + 1⟩,true,done.2)
  | .lost => ({bus with transfers := bus.transfers + 1},false,[])
  | .unanswered => (⟨done.1,bus.transfers + 1⟩,false,[])

-- Programming a range of cells, wherever its pages lie.
def programmed (cells : Nat → UInt8) (start : Nat) (data : List UInt8) : Nat → UInt8 := fun a =>
  if start ≤ a ∧ a < start + data.length then cells a &&& data.getD (a - start) 0 else cells a

variable {part : Part} {line : Line} {bus : Bus}

theorem programmed_append (cells : Nat → UInt8) (start : Nat) (first second : List UInt8) :
    programmed cells start (first ++ second) = programmed (programmed cells start first) (start + first.length) second := by
  funext a
  simp only [programmed,List.length_append]
  by_cases below : a < start
  · rw [if_neg (by omega),if_neg (by omega),if_neg (by omega)]
  · by_cases here : a < start + first.length
    · rw [if_pos (by omega),if_neg (by omega),if_pos (by omega),List.getD_append _ _ _ _ (by omega)]
    · have shift : a - start - first.length = a - (start + first.length) := by omega
      by_cases inside : a < start + (first.length + second.length)
      · rw [if_pos (by omega),if_pos (by omega),if_neg (by omega),List.getD_append_right _ _ _ _ (by omega),shift]
      · rw [if_neg (by omega),if_neg (by omega),if_neg (by omega)]

theorem programmed_outside {cells : Nat → UInt8} {start : Nat} {data : List UInt8} {a : Nat}
    (outside : ¬(start ≤ a ∧ a < start + data.length)) : programmed cells start data a = cells a := if_neg outside

theorem programmed_erased {cells : Nat → UInt8} {start : Nat} {data : List UInt8} {i : Nat} (inside : i < data.length)
    (erased : cells (start + i) = 0xFF) : programmed cells start data (start + i) = data.get ⟨i,inside⟩ := by
  unfold programmed
  rw [if_pos (by omega),erased,Nat.add_sub_cancel_left,List.getD_eq_getElem _ _ inside]
  exact UInt8.toNat_inj.mp (by
    rw [UInt8.toNat_and]
    have below := (data.get ⟨i,inside⟩).toNat_lt
    have mask := Nat.and_two_pow_sub_one_eq_mod (data.get ⟨i,inside⟩).toNat 8
    rw [Nat.and_comm] at mask
    rw [Nat.mod_eq_of_lt below] at mask
    exact mask)

-- Inside a page the counter does not come round.
theorem program_within (cells : Nat → UInt8) (page offset : Nat) (data : List UInt8) (fits : offset + data.length ≤ pageSize) :
    program cells page offset data = programmed cells (page + offset) data := by
  funext a
  change program cells page offset data a =
    if page + offset ≤ a ∧ a < page + offset + data.length then cells a &&& data.getD (a - (page + offset)) 0 else cells a
  induction data generalizing cells offset with
  | nil =>
    rw [if_neg (by simp only [List.length_nil]; omega)]
    rfl
  | cons b rest ih =>
    simp only [List.length_cons] at fits ⊢
    rw [program]
    cases rest with
    | nil =>
      simp only [program,List.length_nil,Nat.zero_add]
      by_cases here : a = page + offset
      · subst here
        rw [Function.update_self,if_pos (by omega),Nat.sub_self]
        rfl
      · rw [Function.update_of_ne here,if_neg (by omega)]
    | cons c more =>
      have next : (offset + 1) % pageSize = offset + 1 := Nat.mod_eq_of_lt (by simp only [List.length_cons] at fits; omega)
      rw [next,ih _ (offset + 1) (by omega)]
      by_cases here : a = page + offset
      · subst here
        rw [if_neg (by omega),if_pos (by omega),Function.update_self,Nat.sub_self]
        rfl
      · rw [Function.update_of_ne here]
        by_cases inside : page + (offset + 1) ≤ a ∧ a < page + (offset + 1) + (c :: more).length
        · have before : a - (page + offset) = a - (page + (offset + 1)) + 1 := by omega
          rw [if_pos inside,if_pos (by omega),before]
          rfl
        · rw [if_neg inside,if_neg (by omega)]

theorem poll_idle {chip : Chip} (idle : chip.busy = 0) : chip.poll = chip := by
  obtain ⟨cells,wel,busy⟩ := chip
  subst idle
  simp [Chip.poll]

theorem transfer_busy (busyFor : Nat) {chip : Chip} {instruction : UInt8} (rest : List UInt8) (readSize : Nat)
    (busy : 0 < chip.busy) (other : instruction ≠ 0x05) :
    chip.transfer part busyFor (instruction :: rest) readSize = (chip,List.replicate readSize 0xFF) := by
  simp [Chip.transfer,other,busy]

theorem transfer_execute (busyFor : Nat) {chip : Chip} {instruction : UInt8} (rest : List UInt8) (readSize : Nat)
    (idle : chip.busy = 0) (writes : instruction ∉ [(0x03 : UInt8),0x05]) :
    chip.transfer part busyFor (instruction :: rest) readSize =
      (chip.execute part busyFor instruction rest,List.replicate readSize 0xFF) := by
  simp only [List.mem_cons,List.not_mem_nil,not_or] at writes
  simp [Chip.transfer,idle,writes.1,writes.2]

theorem transfer_length (part : Part) (busyFor : Nat) (chip : Chip) (write : List UInt8) (readSize : Nat) :
    (chip.transfer part busyFor write readSize).2.length = readSize := by
  cases write with
  | nil => simp [Chip.transfer]
  | cons instruction rest =>
    unfold Chip.transfer
    dsimp only
    repeat' split
    all_goals simp

theorem transfer_busyFor (busyFor : Nat) (chip : Chip) (write : List UInt8) (readSize : Nat) :
    (chip.transfer part busyFor write readSize).1.busy ≤ max chip.busy busyFor := by
  have least := Nat.le_max_left chip.busy busyFor
  have most := Nat.le_max_right chip.busy busyFor
  cases write with
  | nil => exact least
  | cons instruction rest =>
    unfold Chip.transfer
    dsimp only
    split
    · exact Nat.le_trans (Nat.sub_le _ _) least
    · split
      · exact least
      · split
        · exact least
        · unfold Chip.execute
          dsimp only
          repeat' split
          all_goals first | exact least | exact most

-- A transfer that is reported done was done; one that is not may have been.
theorem wr_cases (part : Part) (line : Line) (bus : Bus) (write : List UInt8) (readSize : Nat) :
    (bus.wr part line write readSize).1.chip = bus.chip ∧ (bus.wr part line write readSize).2.1 = false ∨
    (bus.wr part line write readSize).1.chip =
        (bus.chip.transfer part (line.busyFor bus.transfers) write readSize).1 ∧
      ((bus.wr part line write readSize).2.1 = true →
        (bus.wr part line write readSize).2.2 =
          (bus.chip.transfer part (line.busyFor bus.transfers) write readSize).2) := by
  unfold Bus.wr
  cases line.outcome bus.transfers with
  | ok => exact Or.inr ⟨rfl,fun _ => rfl⟩
  | lost => exact Or.inl ⟨rfl,rfl⟩
  | unanswered => exact Or.inr ⟨rfl,fun done => nomatch done⟩

theorem status_wel (chip : Chip) : chip.status &&& 2 = 0 ↔ chip.wel = false := by
  unfold Chip.status
  cases chip.wel <;> split <;> decide

theorem status_busy (chip : Chip) : chip.status &&& 1 = 0 ↔ chip.busy = 0 := by
  unfold Chip.status
  by_cases busy : 0 < chip.busy
  · refine iff_of_false ?_ (Nat.pos_iff_ne_zero.mp busy)
    rw [if_pos busy]
    cases chip.wel <;> decide
  · refine iff_of_true ?_ (Nat.eq_zero_of_not_pos busy)
    rw [if_neg busy]
    cases chip.wel <;> decide

-- In a block of the given size with some byte of the range.
def Touched (block addr size a : Nat) : Prop := ∃ x, addr ≤ x ∧ x < addr + size ∧ x/block = a/block

-- What erasing may do: cells of the region, and no others, become 0xFF.
def Cleared (region : Nat → Prop) (before after : Nat → UInt8) : Prop :=
  ∀ a, after a = before a ∨ region a ∧ after a = 0xFF

theorem Cleared.refl (region : Nat → Prop) (cells : Nat → UInt8) : Cleared region cells cells := fun _ => Or.inl rfl

theorem Cleared.trans {region : Nat → Prop} {before middle after : Nat → UInt8} (first : Cleared region before middle)
    (second : Cleared region middle after) : Cleared region before after := by
  intro a
  rcases second a with kept | cleared
  · rw [kept]
    exact first a
  · exact Or.inr cleared

theorem Cleared.mono {small large : Nat → Prop} {before after : Nat → UInt8} (within : ∀ a, small a → large a)
    (cleared : Cleared small before after) : Cleared large before after :=
  fun a => (cleared a).imp_right fun here => ⟨within a here.1,here.2⟩

theorem Cleared.erased {region : Nat → Prop} {before after : Nat → UInt8} (cleared : Cleared region before after)
    {a : Nat} (already : before a = 0xFF) : after a = 0xFF := by
  rcases cleared a with kept | ⟨_,now⟩
  · rw [kept,already]
  · exact now

theorem erase_cleared (cells : Nat → UInt8) (start size : Nat) :
    Cleared (fun a => start ≤ a ∧ a < start + size) cells (erase cells start size) := by
  intro a
  unfold erase
  by_cases inside : start ≤ a ∧ a < start + size
  · exact Or.inr ⟨inside,if_pos inside⟩
  · exact Or.inl (if_neg inside)

theorem touched_rest {block addr size step : Nat} (within : step ≤ size) {a : Nat}
    (touched : Touched block (addr + step) (size - step) a) : Touched block addr size a := by
  obtain ⟨x,above,below,same⟩ := touched
  exact ⟨x,by omega,by omega,same⟩

end NorFlash
