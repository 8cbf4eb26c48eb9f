import SssAlarmHost.MachineRuns
import SssAlarmHost.PagedRegisters
import SssAlarmHost.FrameParser

namespace SssAlarmHost.Tas2505
open MachineRuns PagedRegisters FrameParser

abbrev pageSelect : UInt8 := 0
abbrev softReset : UInt8 := 0x01
abbrev ldoCtl : UInt8 := 0x02
abbrev clock1 : UInt8 := 0x04
abbrev clock2 : UInt8 := 0x05
abbrev clock3 : UInt8 := 0x06
abbrev clock4 : UInt8 := 0x07
abbrev clock5 : UInt8 := 0x08
abbrev clock6 : UInt8 := 0x0B
abbrev clock7 : UInt8 := 0x0C
abbrev dacOsr1 : UInt8 := 0x0D
abbrev dacOsr2 : UInt8 := 0x0E
abbrev audio1 : UInt8 := 0x1B
abbrev audio2 : UInt8 := 0x1C
abbrev dacInstruction : UInt8 := 0x3C
abbrev dacChnSet1 : UInt8 := 0x3F
abbrev dacChnSet2 : UInt8 := 0x40
abbrev dacChnVolCtl : UInt8 := 0x41
abbrev speakerAmpCtl1 : UInt8 := 0x2D
abbrev speakerAmpCtl2 : UInt8 := 0x30
abbrev speakerVolCtl1 : UInt8 := 0x2E
abbrev rflBgapCtl : UInt8 := 0x01
abbrev commModeCtl : UInt8 := 0x0A

abbrev Chip := Banks UInt8 UInt8
abbrev I2c := Bus UInt8 UInt8

-- The codec and the bus it is on: the registers after a software reset, what the
-- reset pin does, and which of the transfers are acknowledged.
structure Board where
  defaults : UInt8 → UInt8 → UInt8
  hwRst : Chip → Chip
  acks : Nat → Bool

-- Register 1 of page 0, written with 1, resets the chip.
def Board.device (board : Board) : Device UInt8 UInt8 :=
  ⟨pageSelect,0,fun reg value => reg = softReset && value = 1,board.defaults⟩

def writes (board : Board) (list : List (UInt8 × UInt8)) (bus : I2c) : I2c × RtErr :=
  let after := bus.checked board.device board.acks none list
  (after.1,if after.2 then rtEok else -rtError)

def tas2505HwRst (board : Board) (bus : I2c) : I2c := {bus with banks := board.hwRst bus.banks}

def tas2505SoftRst (board : Board) (bus : I2c) : I2c :=
  bus.unchecked board.device board.acks none [(pageSelect,0),(softReset,1),(pageSelect,1),(ldoCtl,0)]

def tas2505SamplerateSet (board : Board) (ndac mdac : UInt8) (dsor : UInt16) : I2c → I2c × RtErr :=
  writes board [(pageSelect,0),(clock1,0),(clock6,ndac),(clock7,mdac),
    (dacOsr1,((dsor >>> 8) &&& 0x03).toUInt8),(dacOsr2,(dsor &&& 0xff).toUInt8)]

def tas2505CodecConfig (board : Board) : I2c → I2c × RtErr :=
  writes board [(pageSelect,0),(clock1,0x03),(clock2,0x94),(clock3,0x0e),(clock4,0x0),(clock5,0x70),
    (clock6,0x82),(clock7,0x87),(dacOsr1,0),(dacOsr2,0x80),(audio1,0x0),(audio2,0x0),(dacInstruction,0x02),
    (pageSelect,1),(rflBgapCtl,0x10),(commModeCtl,0),(speakerVolCtl1,0),(speakerAmpCtl2,0x10),(speakerAmpCtl1,0x02)]

def tas2505CodecEnable (board : Board) : I2c → I2c × RtErr :=
  writes board [(pageSelect,0),(dacChnSet1,0x90),(dacChnVolCtl,0x20),(dacChnSet2,0x04)]

def tas2505VolumeConfig (board : Board) (volume : UInt8) : I2c → I2c × RtErr :=
  writes board [(pageSelect,1),(speakerVolCtl1,volume)]

-- The volume it is given is not used.
def tas2505AnalogSet (board : Board) (_volume : UInt8) : I2c → I2c × RtErr :=
  writes board [(pageSelect,1),(rflBgapCtl,0x10),(commModeCtl,0x00),(speakerVolCtl1,0x00),
    (speakerAmpCtl2,0x10),(speakerAmpCtl1,0x02)]

def tas2505OutputSet (board : Board) (mode : Bool) : I2c → I2c × RtErr :=
  writes board [(pageSelect,1),(speakerAmpCtl1,if mode then 0x02 else 0x00)]

def tas2505Init (board : Board) (bus : I2c) : I2c × RtErr :=
  let bus := tas2505SoftRst board (tas2505HwRst board bus)
  let (bus,err) := tas2505CodecConfig board bus
  if err = -rtError then (bus,err)
  else
    let (bus,err) := tas2505CodecEnable board bus
    if err = -rtError then (bus,err) else (bus,err)

inductive Call where
  | init
  | samplerateSet (ndac mdac : UInt8) (dsor : UInt16)
  | volumeConfig (volume : UInt8)
  | analogSet (volume : UInt8)
  | outputSet (mode : Bool)

def perform (board : Board) : Call → I2c → I2c × RtErr
  | .init => tas2505Init board
  | .samplerateSet ndac mdac dsor => tas2505SamplerateSet board ndac mdac dsor
  | .volumeConfig volume => tas2505VolumeConfig board volume
  | .analogSet volume => tas2505AnalogSet board volume
  | .outputSet mode => tas2505OutputSet board mode

def callStep (board : Board) (bus : I2c) (call : Call) : Option I2c := some (perform board call bus).1

-- Every write acknowledged up to the end of the call was made on its page.
def Aligned (board : Board) (bus : I2c) (call : Call) : Prop := (perform board call bus).1.Aligned board.device

-- The two writes of a software reset that are not selects, and the page they meet.
def SoftRstAligned (board : Board) (bus : I2c) : Prop :=
  let page := bus.banks.page
  let acks i := board.acks (bus.transfers + i)
  (acks 1 = true → acks 0 = true ∨ page = 0) ∧
    (acks 3 = true → acks 2 = true ∨ (acks 0 = false ∧ page = 1))

def SelectsHold (board : Board) (bus : I2c) : Call → Prop
  | .init => SoftRstAligned board (tas2505HwRst board bus)
  | _ => True

def started (chip : Chip) : I2c := ⟨chip,0,[]⟩

instance (board : Board) (bus : I2c) : ∀ call, Decidable (SelectsHold board bus call) := by
  intro call; unfold SelectsHold SoftRstAligned; split <;> infer_instance

variable {board : Board} {bus : I2c}

theorem writes_aligned (page : UInt8) (list : List (UInt8 × UInt8)) (aligned : bus.Aligned board.device) :
    (writes board ((pageSelect,page) :: list) bus).1.Aligned board.device :=
  selecting_aligned board.device page list aligned

theorem writes_extends (list : List (UInt8 × UInt8)) : bus.log ⊆ (writes board list bus).1.log :=
  checked_extends none list

theorem aligned_before {after : I2c} (extends' : bus.log ⊆ after.log) (aligned : after.Aligned board.device) :
    bus.Aligned board.device := fun w member => aligned w (extends' member)

theorem softRst_aligned (aligned : bus.Aligned board.device) :
    (tas2505SoftRst board bus).Aligned board.device ↔ SoftRstAligned board bus := by
  have select : board.device.select = pageSelect := rfl
  have reset : softReset ≠ pageSelect := by decide
  have ldo : ldoCtl ≠ pageSelect := by decide
  unfold tas2505SoftRst SoftRstAligned
  simp only [Bus.unchecked,write_aligned,write_page,write_transfers,asks,select,Nat.add_assoc,Nat.reduceAdd]
  cases board.acks bus.transfers with
  | true => cases board.acks (bus.transfers + 2) <;> simp [aligned,reset,ldo]
  | false => cases board.acks (bus.transfers + 2) <;> simp [aligned,reset,ldo,@eq_comm _ bus.banks.page]

theorem init_aligned : (tas2505Init board bus).1.Aligned board.device ↔
    (tas2505SoftRst board (tas2505HwRst board bus)).Aligned board.device := by
  unfold tas2505Init
  generalize tas2505SoftRst board (tas2505HwRst board bus) = reset
  have config : (tas2505CodecConfig board reset).1.Aligned board.device ↔ reset.Aligned board.device :=
    ⟨aligned_before (writes_extends _),writes_aligned 0 _⟩
  have enable : (tas2505CodecEnable board (tas2505CodecConfig board reset).1).1.Aligned board.device ↔
      (tas2505CodecConfig board reset).1.Aligned board.device := ⟨aligned_before (writes_extends _),writes_aligned 0 _⟩
  by_cases failed : (tas2505CodecConfig board reset).2 = -rtError
  · simp only [if_pos failed]
    exact config
  · simp only [if_neg failed,ite_self]
    exact enable.trans config

theorem call_next (call : Call) (next : I2c) (aligned : Aligned board bus call)
    (taken : callStep board bus call = some next) :
    next.Aligned board.device := by
  cases taken
  exact aligned

theorem started_aligned (board : Board) (chip : Chip) : (started chip).Aligned board.device := fun _ member => nomatch member

theorem call_aligned (aligned : bus.Aligned board.device) (call : Call) :
    SelectsHold board bus call ↔ Aligned board bus call := by
  cases call with
  | init =>
    have reset : (tas2505HwRst board bus).Aligned board.device := aligned
    exact (softRst_aligned reset).symm.trans init_aligned.symm
  | samplerateSet ndac mdac dsor => exact iff_of_true trivial (writes_aligned 0 _ aligned)
  | volumeConfig volume => exact iff_of_true trivial (writes_aligned 1 _ aligned)
  | analogSet volume => exact iff_of_true trivial (writes_aligned 1 _ aligned)
  | outputSet mode => exact iff_of_true trivial (writes_aligned 1 _ aligned)

-- For every sequence of calls, any chip to start from and any transfers failing:
-- the writes stay on their pages exactly as long as no software reset goes on
-- past a page select that failed on another page.
theorem writes_on_page_iff (board : Board) (chip : Chip) (calls : List Call) :
    Along (callStep board) (SelectsHold board) (started chip) calls ↔
      Along (callStep board) (Aligned board) (started chip) calls :=
  along_iff (fun _ call aligned => call_aligned aligned call)
    (fun _ call next _ aligned taken => call_next call next aligned taken)
    (started_aligned board chip) calls

-- The select of page 1 in tas2505_soft_rst fails and register 2 is written on page 0.
def secondSelectFails : Board := ⟨fun _ _ => 0,id,fun i => i != 2⟩

theorem ldo_written_on_page_0 : ¬ ∀ (board : Board) (chip : Chip) (calls : List Call),
    Along (callStep board) (Aligned board) (started chip) calls := by
  intro all
  have aligned : Aligned secondSelectFails (started ⟨0,fun _ _ => 0⟩) .init := (all _ _ [.init]).1
  have holds := (call_aligned (started_aligned _ _) .init).mpr aligned
  exact absurd holds (by decide)

end SssAlarmHost.Tas2505
