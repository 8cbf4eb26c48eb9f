import SssAlarmHost.NorFlash

namespace SssAlarmHost.Sfud
open NorFlash

inductive SfudErr where
  | success
  | errWrite
  | errTimeout
  | errAddrOutOfBound
  deriving DecidableEq

abbrev cmdPageProgram : UInt8 := 0x02
abbrev cmdReadData : UInt8 := 0x03
abbrev cmdWriteDisable : UInt8 := 0x04
abbrev cmdReadStatusRegister : UInt8 := 0x05
abbrev cmdWriteEnable : UInt8 := 0x06
abbrev cmdEraseChip : UInt8 := 0xC7
abbrev cmdAaiWordProgram : UInt8 := 0xAD

-- The flags of chip.write_mode.
abbrev wmPage256B : UInt16 := 1
abbrev wmAai : UInt16 := 4
abbrev wmDualBuffer : UInt16 := 8

structure Eraser where
  size : UInt32
  cmd : UInt8

structure Flash where
  capacity : UInt32
  writeMode : UInt16
  eraseGran : Eraser
  sfdpAvailable : Bool
  eraser : Fin 4 → Eraser
  addrIn4Byte : Bool
  retryTimes : Nat

-- What sfud_device_init leaves for a part that writes pages of 256 bytes: the parameters
-- are the part's, and the smallest eraser is first in the SFDP table.
structure Probed (part : Part) (flash : Flash) : Prop where
  capacity : part.capacity = flash.capacity.toNat
  addressBytes : part.addressBytes = if flash.addrIn4Byte then 4 else 3
  reachable : part.capacity ≤ 256^part.addressBytes
  paged : flash.writeMode = wmPage256B
  positive : 0 < flash.eraseGran.size.toNat
  granular : part.eraseBlock flash.eraseGran.cmd = some flash.eraseGran.size.toNat
  smallest : flash.sfdpAvailable = true → flash.eraser 0 = flash.eraseGran
  supported : flash.sfdpAvailable = true → ∀ i, flash.eraser i ≠ flash.eraseGran → (flash.eraser i).size ≠ 0 →
    part.eraseBlock (flash.eraser i).cmd = some (flash.eraser i).size.toNat
  separate : ∀ cmd ∈ [cmdPageProgram,cmdReadData,cmdWriteDisable,cmdReadStatusRegister,cmdWriteEnable,cmdEraseChip],
    part.eraseBlock cmd = none

-- W25Q128, with the erasers of its SFDP table.
def w25q128Part : Part where
  capacity := 16777216
  addressBytes := 3
  eraseBlock cmd := if cmd = 0x20 then some 4096 else if cmd = 0x52 then some 32768 else if cmd = 0xD8 then some 65536 else none

def w25q128 : Flash where
  capacity := 16777216
  writeMode := wmPage256B
  eraseGran := ⟨4096,0x20⟩
  sfdpAvailable := true
  eraser i := if i = 0 then ⟨4096,0x20⟩ else if i = 1 then ⟨32768,0x52⟩ else if i = 2 then ⟨65536,0xD8⟩ else ⟨0,0⟩
  addrIn4Byte := false
  retryTimes := 600000

theorem w25q128_probed : Probed w25q128Part w25q128 := by
  constructor
  case capacity => rfl
  case addressBytes => rfl
  case reachable => decide +kernel
  case paged => rfl
  case positive => decide
  case granular => rfl
  case smallest => exact fun _ => rfl
  case supported =>
    intro _ i other there
    match i with
    | 0 => exact absurd rfl other
    | 1 => rfl
    | 2 => rfl
    | 3 => exact absurd rfl there
  case separate => decide +kernel

section Driver
variable (part : Part) (flash : Flash) (line : Line)

def spiWr (bus : Bus) (write : List UInt8) (readSize : Nat) : Bus × SfudErr × List UInt8 :=
  let done := bus.wr part line write readSize
  (done.1,if done.2.1 then .success else .errTimeout,done.2.2)

def spiSend (bus : Bus) (write : List UInt8) : Bus × SfudErr :=
  let done := spiWr part line bus write 0
  (done.1,done.2.1)

def makeAdressByteArray (addr : UInt32) : List UInt8 :=
  let len := if flash.addrIn4Byte then 4 else 3
  (List.range len).map fun i => ((addr >>> UInt32.ofNat ((len - (i + 1))*8)) &&& 0xFF).toUInt8

def sfudReadStatus (bus : Bus) : Bus × SfudErr × UInt8 :=
  let done := spiWr part line bus [cmdReadStatusRegister] 1
  (done.1,done.2.1,done.2.2.headD 0)

-- The functions leave through one exit at the first result that is not a success.
def attempt (tried : Bus × SfudErr) (next : Bus → Bus × SfudErr) : Bus × SfudErr :=
  if tried.2 = .success then next tried.1 else tried

def latchCommand (enabled : Bool) : UInt8 := if enabled then cmdWriteEnable else cmdWriteDisable

def latchChecked (enabled : Bool) (registerStatus : UInt8) : SfudErr :=
  if enabled = true ∧ registerStatus &&& 2 = 0 then .errWrite
  else if enabled = false ∧ registerStatus &&& 2 ≠ 0 then .errWrite
  else .success

def setWriteEnabled (enabled : Bool) (bus : Bus) : Bus × SfudErr :=
  attempt (spiSend part line bus [latchCommand enabled]) fun bus =>
    let read := sfudReadStatus part line bus
    attempt (read.1,read.2.1) fun bus => (bus,latchChecked enabled read.2.2)

def waitBusy (bus : Bus) : Nat → Bus × SfudErr
  | 0 =>
    let read := sfudReadStatus part line bus
    if read.2.1 = .success ∧ read.2.2 &&& 1 = 0 then (read.1,.success) else (read.1,.errTimeout)
  | times+1 =>
    let read := sfudReadStatus part line bus
    if read.2.1 = .success ∧ read.2.2 &&& 1 = 0 then (read.1,.success) else waitBusy read.1 times

-- The steps of one write operation, the same wherever sfud.c starts one.
def operate (write : List UInt8) (bus : Bus) : Bus × SfudErr :=
  attempt (setWriteEnabled part line true bus) fun bus =>
  attempt (spiSend part line bus write) fun bus => waitBusy part line bus flash.retryTimes

def sfudSfdpGetSuitableEraser (addr eraseSize : UInt32) : Fin 4 :=
  if addr % (flash.eraser 0).size ≠ 0 then 0
  else
    let suits := fun i => (flash.eraser i).size ≠ 0 ∧ (flash.eraser i).size ≤ eraseSize ∧ addr % (flash.eraser i).size = 0
    if suits 3 then 3 else if suits 2 then 2 else if suits 1 then 1 else 0

def currentEraser (addr size : UInt32) : Eraser :=
  if flash.sfdpAvailable then flash.eraser (sfudSfdpGetSuitableEraser flash addr size) else flash.eraseGran

-- The rounds are a bound for the definition: a round takes at least one byte off.
def eraseLoop : Nat → Bus → UInt32 → UInt32 → Bus × SfudErr
  | 0,bus,_,_ => (bus,.success)
  | rounds+1,bus,addr,size =>
    if size = 0 then (bus,.success)
    else
      let cur := currentEraser flash addr size
      attempt (operate part flash line (cur.cmd :: makeAdressByteArray flash addr) bus) fun bus =>
        if addr % cur.size ≠ 0 then
          if cur.size - addr % cur.size < size then
            eraseLoop rounds bus (addr + (cur.size - addr % cur.size)) (size - (cur.size - addr % cur.size))
          else (bus,.success)
        else if cur.size < size then eraseLoop rounds bus (addr + cur.size) (size - cur.size)
        else (bus,.success)

-- The exit: write disable, its result not looked at.
def finish (tried : Bus × SfudErr) : Bus × SfudErr := ((setWriteEnabled part line false tried.1).1,tried.2)

-- The chip erase of the dual-buffer parts is another command.
def chipEraseCommand : List UInt8 :=
  if flash.writeMode &&& wmDualBuffer ≠ 0 then [cmdEraseChip,0x94,0x80,0x9A] else [cmdEraseChip]

def sfudChipErase (bus : Bus) : Bus × SfudErr :=
  finish part line (operate part flash line (chipEraseCommand flash) bus)

def sfudErase (bus : Bus) (addr size : UInt32) : Bus × SfudErr :=
  if flash.capacity < addr + size then (bus,.errAddrOutOfBound)
  else if addr = 0 ∧ size = flash.capacity then sfudChipErase part flash line bus
  else finish part line (eraseLoop part flash line size.toNat bus addr size)

def writeLoop (writeGran : UInt32) : Nat → Bus → UInt32 → UInt32 → List UInt8 → Bus × SfudErr
  | 0,bus,_,_,_ => (bus,.success)
  | rounds+1,bus,addr,size,data =>
    if size = 0 then (bus,.success)
    else
      let dataSize :=
        if addr % writeGran ≠ 0 then
          if writeGran - addr % writeGran < size then writeGran - addr % writeGran else size
        else if writeGran < size then writeGran else size
      attempt (operate part flash line (cmdPageProgram :: (makeAdressByteArray flash addr ++ data.take dataSize.toNat)) bus)
        fun bus => writeLoop writeGran rounds bus (addr + dataSize) (size - dataSize) (data.drop dataSize.toNat)

def page256Or1ByteWrite (bus : Bus) (addr size writeGran : UInt32) (data : List UInt8) : Bus × SfudErr :=
  if flash.capacity < addr + size then (bus,.errAddrOutOfBound)
  else finish part line (writeLoop part flash line writeGran size.toNat bus addr size data)

-- Auto address increment: words of two bytes, only the first with its address, and
-- behind them the write disable and a last odd byte.
def aaiLoop (firstWrite : Bool) : Nat → Bus → UInt32 → UInt32 → List UInt8 → Bus × SfudErr
  | 0,bus,_,_,_ => (bus,.success)
  | rounds+1,bus,addr,size,data =>
    if 2 ≤ size then
      let place := if firstWrite then makeAdressByteArray flash addr else []
      attempt (spiSend part line bus (cmdAaiWordProgram :: (place ++ data.take 2))) fun bus =>
      attempt (waitBusy part line bus flash.retryTimes) fun bus =>
      aaiLoop false rounds bus (addr + 2) (size - 2) (data.drop 2)
    else
      attempt (setWriteEnabled part line false bus) fun bus =>
        if size = 1 then page256Or1ByteWrite part flash line bus addr 1 1 data else (bus,.success)

def aaiWords (bus : Bus) (addr size : UInt32) (data : List UInt8) : Bus × SfudErr :=
  attempt (setWriteEnabled part line true bus) fun bus => aaiLoop part flash line true (size.toNat + 1) bus addr size data

def aaiWrite (bus : Bus) (addr size : UInt32) (data : List UInt8) : Bus × SfudErr :=
  if flash.capacity < addr + size then (bus,.errAddrOutOfBound)
  else
    let tried :=
      if addr % 2 ≠ 0 then
        attempt (page256Or1ByteWrite part flash line bus addr 1 1 data) fun bus =>
          aaiWords part flash line bus (addr + 1) (size - 1) (data.drop 1)
      else aaiWords part flash line bus addr size data
    if tried.2 = .success then tried else ((setWriteEnabled part line false tried.1).1,tried.2)

-- The dual-buffer mode is still to be written, and the byte mode has no branch at all.
def sfudWrite (bus : Bus) (addr size : UInt32) (data : List UInt8) : Bus × SfudErr :=
  if flash.writeMode &&& wmPage256B ≠ 0 then page256Or1ByteWrite part flash line bus addr size 256 data
  else if flash.writeMode &&& wmAai ≠ 0 then aaiWrite part flash line bus addr size data
  else (bus,.success)

def sfudEraseWrite (bus : Bus) (addr size : UInt32) (data : List UInt8) : Bus × SfudErr :=
  attempt (sfudErase part flash line bus addr size) fun bus => sfudWrite part flash line bus addr size data

def sfudRead (bus : Bus) (addr size : UInt32) : Bus × SfudErr × List UInt8 :=
  if flash.capacity < addr + size then (bus,.errAddrOutOfBound,[])
  else
    let (bus,result) := waitBusy part line bus flash.retryTimes
    if result = .success then spiWr part line bus (cmdReadData :: makeAdressByteArray flash addr) size.toNat
    else (bus,result,[])

end Driver

variable {part : Part} {flash : Flash} {line : Line} {bus : Bus}

theorem sfudChipErase_paged (probed : Probed part flash) (bus : Bus) :
    sfudChipErase part flash line bus = finish part line (operate part flash line [cmdEraseChip] bus) := by
  rw [sfudChipErase,chipEraseCommand,probed.paged]
  rfl

theorem sfudWrite_paged (probed : Probed part flash) (bus : Bus) (addr size : UInt32) (data : List UInt8) :
    sfudWrite part flash line bus addr size data = page256Or1ByteWrite part flash line bus addr size 256 data := by
  rw [sfudWrite,probed.paged]
  rfl

-- A part of the driver that starts no operation.
structure Quiet (before after : Bus) : Prop where
  cells : after.chip.cells = before.chip.cells
  idle : before.chip.busy = 0 → after.chip.busy = 0

theorem Quiet.refl (bus : Bus) : Quiet bus bus := ⟨rfl,id⟩

theorem Quiet.trans {before middle after : Bus} (first : Quiet before middle) (second : Quiet middle after) :
    Quiet before after := ⟨second.cells.trans first.cells,second.idle ∘ first.idle⟩

theorem attempt_success {tried : Bus × SfudErr} {next : Bus → Bus × SfudErr} :
    (attempt tried next).2 = .success ↔ tried.2 = .success ∧ (next tried.1).2 = .success := by
  unfold attempt
  by_cases succeeded : tried.2 = .success
  · simp [succeeded]
  · simp [succeeded]

theorem attempt_after {tried : Bus × SfudErr} {next : Bus → Bus × SfudErr} (succeeded : tried.2 = .success) :
    attempt tried next = next tried.1 := if_pos succeeded

-- What holds of every way through holds wherever the exit is taken.
theorem attempt_rule (Holds : Bus → Prop) {tried : Bus × SfudErr} {next : Bus → Bus × SfudErr} (first : Holds tried.1)
    (second : tried.2 = .success → Holds (next tried.1).1) : Holds (attempt tried next).1 := by
  unfold attempt
  split
  · exact second ‹_›
  · exact first

theorem address_array (probed : Probed part flash) {addr : UInt32} (inside : addr.toNat < part.capacity) :
    (makeAdressByteArray flash addr).length = part.addressBytes ∧
      address (makeAdressByteArray flash addr) = addr.toNat := by
  have bytes := probed.addressBytes
  have reachable := Nat.lt_of_lt_of_le inside probed.reachable
  have small := addr.toNat_lt
  unfold makeAdressByteArray
  cases long : flash.addrIn4Byte
  · simp only [long,Bool.false_eq_true,if_false] at bytes
    rw [bytes] at reachable ⊢
    refine ⟨rfl,?_⟩
    simp [address,List.range_succ,Nat.shiftRight_eq_div_pow]
    have mask (n : Nat) : n &&& 255 = n % 256 := Nat.and_two_pow_sub_one_eq_mod n 8
    simp only [mask]
    omega
  · simp only [long,if_true] at bytes
    rw [bytes] at reachable ⊢
    refine ⟨rfl,?_⟩
    simp [address,List.range_succ,Nat.shiftRight_eq_div_pow]
    have mask (n : Nat) : n &&& 255 = n % 256 := Nat.and_two_pow_sub_one_eq_mod n 8
    simp only [mask]
    omega

-- What a transfer without an answer can leave, and what it leaves when it is reported done.
theorem spiSend_cases (part : Part) (line : Line) (bus : Bus) (write : List UInt8) :
    (spiSend part line bus write).1.chip = bus.chip ∧ (spiSend part line bus write).2 ≠ .success ∨
    (spiSend part line bus write).1.chip =
      (bus.chip.transfer part (line.busyFor bus.transfers) write 0).1 := by
  rcases wr_cases part line bus write 0 with ⟨kept,failed⟩ | ⟨done,_⟩
  · exact Or.inl ⟨kept,by simp [spiSend,spiWr,failed]⟩
  · exact Or.inr done

theorem readStatus_cases (part : Part) (line : Line) (bus : Bus) :
    (sfudReadStatus part line bus).1.chip = bus.chip ∧ (sfudReadStatus part line bus).2.1 ≠ .success ∨
    (sfudReadStatus part line bus).1.chip = bus.chip.poll ∧
      ((sfudReadStatus part line bus).2.1 = .success → (sfudReadStatus part line bus).2.2 = bus.chip.status) := by
  rcases wr_cases part line bus [cmdReadStatusRegister] 1 with ⟨kept,failed⟩ | ⟨done,answer⟩
  · exact Or.inl ⟨kept,by simp [sfudReadStatus,spiWr,failed]⟩
  · refine Or.inr ⟨done,fun succeeded => ?_⟩
    have reported : (bus.wr part line [cmdReadStatusRegister] 1).2.1 = true := by
      by_contra failed
      simp [sfudReadStatus,spiWr,failed] at succeeded
    change (bus.wr part line [cmdReadStatusRegister] 1).2.2.headD 0 = _
    rw [answer reported]
    rfl

theorem readStatus_quiet (part : Part) (line : Line) (bus : Bus) : Quiet bus (sfudReadStatus part line bus).1 := by
  rcases readStatus_cases part line bus with ⟨kept,_⟩ | ⟨polled,_⟩
  · exact ⟨by rw [kept],by rw [kept]; exact id⟩
  · refine ⟨by rw [polled]; rfl,fun idle => ?_⟩
    rw [polled,poll_idle idle]
    exact idle

theorem control_chip (part : Part) (line : Line) (enabled : Bool) (bus : Bus) :
    Quiet bus (spiSend part line bus [latchCommand enabled]).1 ∧
      (bus.chip.busy = 0 → (spiSend part line bus [latchCommand enabled]).2 = .success →
        (spiSend part line bus [latchCommand enabled]).1.chip.wel = enabled) := by
  rcases spiSend_cases part line bus [latchCommand enabled] with ⟨kept,failed⟩ | done
  · exact ⟨⟨by rw [kept],by rw [kept]; exact id⟩,fun _ succeeded => absurd succeeded failed⟩
  · by_cases idle : bus.chip.busy = 0
    · have executed : (spiSend part line bus [latchCommand enabled]).1.chip = {bus.chip with wel := enabled} := by
        rw [done,transfer_execute _ _ _ idle (by cases enabled <;> decide)]
        cases enabled with
        | true => rfl
        | false => rfl
      exact ⟨⟨by rw [executed],fun _ => by rw [executed]; exact idle⟩,fun _ _ => by rw [executed]⟩
    · rw [transfer_busy _ _ _ (Nat.pos_of_ne_zero idle) (by cases enabled <;> decide)] at done
      exact ⟨⟨by rw [done],fun quiet => absurd quiet idle⟩,fun quiet => absurd quiet idle⟩

theorem setWriteEnabled_quiet (part : Part) (line : Line) (enabled : Bool) (bus : Bus) : Quiet bus (setWriteEnabled part line enabled bus).1 := by
  have sent := (control_chip part line enabled bus).1
  refine attempt_rule (Quiet bus) sent fun _ => ?_
  have read := readStatus_quiet part line (spiSend part line bus [latchCommand enabled]).1
  exact attempt_rule (Quiet bus) (sent.trans read) fun _ => sent.trans read

-- The latch is read back, but a chip that is idle has it set as soon as the command
-- was taken.
theorem setWriteEnabled_latch (enabled : Bool) (idle : bus.chip.busy = 0)
    (succeeded : (setWriteEnabled part line enabled bus).2 = .success) :
    (setWriteEnabled part line enabled bus).1.chip.wel = enabled := by
  obtain ⟨sent,more⟩ := attempt_success.mp succeeded
  obtain ⟨quiet,latched⟩ := control_chip part line enabled bus
  obtain ⟨read,_⟩ := attempt_success.mp more
  have polled : (setWriteEnabled part line enabled bus).1 =
      (sfudReadStatus part line (spiSend part line bus [latchCommand enabled]).1).1 := by
    unfold setWriteEnabled
    rw [attempt_after sent,attempt_after read]
  rw [polled]
  rcases readStatus_cases part line (spiSend part line bus [latchCommand enabled]).1 with ⟨_,failed⟩ | ⟨done,_⟩
  · exact absurd read failed
  · rw [done,poll_idle (quiet.idle idle)]
    exact latched idle sent

theorem waitBusy_quiet (part : Part) (line : Line) (bus : Bus) (times : Nat) : Quiet bus (waitBusy part line bus times).1 := by
  induction times generalizing bus with
  | zero =>
    have read := readStatus_quiet part line bus
    unfold waitBusy
    dsimp only
    split <;> exact read
  | succ times ih =>
    have read := readStatus_quiet part line bus
    unfold waitBusy
    dsimp only
    split
    · exact read
    · exact read.trans (ih _)

theorem readStatus_ready (ready : (sfudReadStatus part line bus).2.1 = .success ∧
    (sfudReadStatus part line bus).2.2 &&& 1 = 0) : (sfudReadStatus part line bus).1.chip.busy = 0 := by
  rcases readStatus_cases part line bus with ⟨_,failed⟩ | ⟨done,answer⟩
  · exact absurd ready.1 failed
  · have idle := (status_busy bus.chip).mp (by rw [← answer ready.1]; exact ready.2)
    rw [done,poll_idle idle]
    exact idle

theorem waitBusy_idle (bus : Bus) (times : Nat) (succeeded : (waitBusy part line bus times).2 = .success) :
    (waitBusy part line bus times).1.chip.busy = 0 := by
  induction times generalizing bus with
  | zero =>
    unfold waitBusy at succeeded ⊢
    dsimp only at succeeded ⊢
    split at succeeded
    · rw [if_pos ‹_›]
      exact readStatus_ready ‹_›
    · cases succeeded
  | succ times ih =>
    unfold waitBusy at succeeded ⊢
    dsimp only at succeeded ⊢
    split at succeeded
    · rw [if_pos ‹_›]
      exact readStatus_ready ‹_›
    · rw [if_neg ‹_›]
      exact ih _ succeeded

-- The change of the cells that a command makes when the chip is idle and enabled.
structure Does (part : Part) (write : List UInt8) (change : (Nat → UInt8) → Nat → UInt8) : Prop where
  enabled : ∀ (chip : Chip) (busyFor : Nat), chip.busy = 0 → chip.wel = true →
    (chip.transfer part busyFor write 0).1.cells = change chip.cells
  otherwise : ∀ (chip : Chip) (busyFor : Nat), ¬(chip.busy = 0 ∧ chip.wel = true) →
    (chip.transfer part busyFor write 0).1.cells = chip.cells

theorem does_of_execute {instruction : UInt8} {rest : List UInt8} {change : (Nat → UInt8) → Nat → UInt8}
    (writes : instruction ∉ [cmdReadData,cmdWriteDisable,cmdReadStatusRegister,cmdWriteEnable])
    (starts : ∀ (chip : Chip) (busyFor : Nat), chip.wel = true →
      (chip.execute part busyFor instruction rest).cells = change chip.cells) :
    Does part (instruction :: rest) change := by
  simp only [List.mem_cons,List.not_mem_nil,or_false,not_or] at writes
  obtain ⟨notRead,notDisable,notStatus,notEnable⟩ := writes
  constructor
  · intro chip busyFor idle enabled
    rw [transfer_execute _ _ _ idle (by simp [notRead,notStatus])]
    exact starts chip busyFor enabled
  · intro chip busyFor refused
    by_cases idle : chip.busy = 0
    · have disabled : chip.wel = false := Bool.eq_false_iff.mpr fun enabled => refused ⟨idle,enabled⟩
      rw [transfer_execute _ _ _ idle (by simp [notRead,notStatus])]
      simp [Chip.execute,notEnable,notDisable,disabled]
    · rw [transfer_busy _ _ _ (Nat.pos_of_ne_zero idle) notStatus]

variable {write : List UInt8} {change : (Nat → UInt8) → Nat → UInt8}

theorem send_does (line : Line) (does : Does part write change) (bus : Bus) :
    ((spiSend part line bus write).1.chip.cells = bus.chip.cells ∨
      (spiSend part line bus write).1.chip.cells = change bus.chip.cells) ∧
    (bus.chip.busy = 0 → bus.chip.wel = true → (spiSend part line bus write).2 = .success →
      (spiSend part line bus write).1.chip.cells = change bus.chip.cells) := by
  rcases spiSend_cases part line bus write with ⟨kept,failed⟩ | done
  · exact ⟨Or.inl (by rw [kept]),fun _ _ succeeded => absurd succeeded failed⟩
  · rw [done]
    by_cases ready : bus.chip.busy = 0 ∧ bus.chip.wel = true
    · have changed := does.enabled bus.chip (line.busyFor bus.transfers) ready.1 ready.2
      exact ⟨Or.inr changed,fun _ _ _ => changed⟩
    · exact ⟨Or.inl (does.otherwise _ _ ready),fun idle enabled => absurd ⟨idle,enabled⟩ ready⟩

theorem operate_cases (flash : Flash) (line : Line) (does : Does part write change) (bus : Bus) :
    (operate part flash line write bus).1.chip.cells = bus.chip.cells ∨
      (operate part flash line write bus).1.chip.cells = change bus.chip.cells := by
  have enable := setWriteEnabled_quiet part line true bus
  refine attempt_rule (fun after => after.chip.cells = bus.chip.cells ∨ after.chip.cells = change bus.chip.cells)
    (Or.inl enable.cells) fun _ => ?_
  have sent := (send_does line does (setWriteEnabled part line true bus).1).1
  rw [enable.cells] at sent
  refine attempt_rule (fun after => after.chip.cells = bus.chip.cells ∨ after.chip.cells = change bus.chip.cells)
    sent fun _ => ?_
  rw [(waitBusy_quiet _ _ _ _).cells]
  exact sent

theorem operate_done (does : Does part write change) (idle : bus.chip.busy = 0)
    (succeeded : (operate part flash line write bus).2 = .success) :
    (operate part flash line write bus).1.chip.cells = change bus.chip.cells ∧
      (operate part flash line write bus).1.chip.busy = 0 := by
  obtain ⟨enabled,more⟩ := attempt_success.mp succeeded
  obtain ⟨sent,waited⟩ := attempt_success.mp more
  have enable := setWriteEnabled_quiet part line true bus
  have changed := (send_does line does (setWriteEnabled part line true bus).1).2
    (enable.idle idle) (setWriteEnabled_latch true idle enabled) sent
  have shape : operate part flash line write bus =
      waitBusy part line (spiSend part line (setWriteEnabled part line true bus).1 write).1 flash.retryTimes := by
    unfold operate
    rw [attempt_after enabled,attempt_after sent]
  rw [shape] at succeeded ⊢
  rw [(waitBusy_quiet _ _ _ _).cells,changed,enable.cells]
  exact ⟨rfl,waitBusy_idle _ _ succeeded⟩

end SssAlarmHost.Sfud
