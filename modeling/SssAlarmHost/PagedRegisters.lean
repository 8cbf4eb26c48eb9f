import Mathlib.Logic.Function.Basic
import Mathlib.Data.List.Basic

namespace PagedRegisters

-- A device with banks of registers and one register, the same in every bank, that
-- selects the bank. On its home page some writes reset it to that page.
structure Device (Reg Value : Type) where
  select : Reg
  home : Value
  resets : Reg → Value → Bool
  defaults : Value → Reg → Value

variable {Reg Value : Type} [DecidableEq Reg] [DecidableEq Value]

structure Banks (Reg Value : Type) where
  page : Value
  registers : Value → Reg → Value

def Banks.store (device : Device Reg Value) (banks : Banks Reg Value) (reg : Reg) (value : Value) : Banks Reg Value :=
  if reg = device.select then {banks with page := value}
  else if banks.page = device.home ∧ device.resets reg value then ⟨device.home,device.defaults⟩
  else {banks with registers := Function.update banks.registers banks.page (Function.update (banks.registers banks.page) reg value)}

-- An acknowledged write with the page its author last asked for.
structure Written (Reg Value : Type) where
  asked : Option Value
  page : Value
  reg : Reg
  value : Value

-- The device, the number of transfers so far, and the acknowledged ones.
structure Bus (Reg Value : Type) where
  banks : Banks Reg Value
  transfers : Nat
  log : List (Written Reg Value)

-- One transfer: a write that is not acknowledged changes nothing in the device.
def Bus.write (device : Device Reg Value) (acks : Nat → Bool) (asked : Option Value) (bus : Bus Reg Value)
    (reg : Reg) (value : Value) : Bus Reg Value :=
  if acks bus.transfers then
    ⟨bus.banks.store device reg value,bus.transfers + 1,bus.log ++ [⟨asked,bus.banks.page,reg,value⟩]⟩
  else {bus with transfers := bus.transfers + 1}

def asks (device : Device Reg Value) (asked : Option Value) (reg : Reg) (value : Value) : Option Value :=
  if reg = device.select then some value else asked

def Bus.checked (device : Device Reg Value) (acks : Nat → Bool) (asked : Option Value) :
    List (Reg × Value) → Bus Reg Value → Bus Reg Value × Bool
  | [],bus => (bus,true)
  | (reg,value) :: rest,bus =>
    let asked := asks device asked reg value
    let after := bus.write device acks asked reg value
    if acks bus.transfers then Bus.checked device acks asked rest after else (after,false)

-- A list of writes that does not look at their outcomes.
def Bus.unchecked (device : Device Reg Value) (acks : Nat → Bool) (asked : Option Value) :
    List (Reg × Value) → Bus Reg Value → Bus Reg Value
  | [],bus => bus
  | (reg,value) :: rest,bus =>
    let asked := asks device asked reg value
    Bus.unchecked device acks asked rest (bus.write device acks asked reg value)

def OnPage (device : Device Reg Value) (w : Written Reg Value) : Prop := w.reg ≠ device.select → w.asked = some w.page

def Bus.Aligned (device : Device Reg Value) (bus : Bus Reg Value) : Prop := ∀ w ∈ bus.log, OnPage device w

variable {device : Device Reg Value} {acks : Nat → Bool} {bus : Bus Reg Value}

@[simp] theorem write_transfers (asked : Option Value) (reg : Reg) (value : Value) :
    (bus.write device acks asked reg value).transfers = bus.transfers + 1 := by
  unfold Bus.write
  split <;> rfl

theorem write_page (asked : Option Value) (reg : Reg) (value : Value) :
    (bus.write device acks asked reg value).banks.page =
      if acks bus.transfers = true ∧ reg = device.select then value else bus.banks.page := by
  unfold Bus.write Banks.store
  by_cases acked : acks bus.transfers = true
  · by_cases select : reg = device.select
    · simp [acked,select]
    · by_cases reset : bus.banks.page = device.home ∧ device.resets reg value = true
      · simp [acked,select,reset]
      · simp [acked,select,reset]
  · simp [acked]

theorem write_aligned (device : Device Reg Value) (acks : Nat → Bool) (bus : Bus Reg Value) (asked : Option Value)
    (reg : Reg) (value : Value) :
    (bus.write device acks asked reg value).Aligned device ↔
      bus.Aligned device ∧ (acks bus.transfers = true → reg ≠ device.select → asked = some bus.banks.page) := by
  unfold Bus.write Bus.Aligned
  by_cases acked : acks bus.transfers = true
  · simp only [acked,if_true,List.forall_mem_append,List.forall_mem_singleton,true_implies]
    exact Iff.rfl
  · simp [acked]

-- While every write is acknowledged the device is on the page asked for last.
theorem checked_aligned (asked : Option Value) (writes : List (Reg × Value)) (aligned : bus.Aligned device)
    (onPage : asked = some bus.banks.page) : (bus.checked device acks asked writes).1.Aligned device := by
  induction writes generalizing asked bus with
  | nil => exact aligned
  | cons first rest ih =>
    obtain ⟨reg,value⟩ := first
    have next := (write_aligned device acks bus (asks device asked reg value) reg value).mpr
      ⟨aligned,fun _ plain => by rw [asks,if_neg plain]; exact onPage⟩
    unfold Bus.checked
    by_cases acked : acks bus.transfers = true
    · simp only [if_pos acked]
      refine ih (asks device asked reg value) next ?_
      rw [write_page,asks]
      by_cases select : reg = device.select
      · simp [acked,select]
      · simp [select,onPage]
    · simp only [if_neg acked]
      exact next

-- The rule for a function of the driver: select first, stop at the first failure.
theorem selecting_aligned (device : Device Reg Value) (page : Value) (writes : List (Reg × Value))
    (aligned : bus.Aligned device) :
    (bus.checked device acks none ((device.select,page) :: writes)).1.Aligned device := by
  have first := (write_aligned device acks bus (some page) device.select page).mpr
    ⟨aligned,fun _ plain => absurd rfl plain⟩
  unfold Bus.checked
  by_cases acked : acks bus.transfers = true
  · simp only [asks,if_true,if_pos acked]
    refine checked_aligned (some page) writes first ?_
    rw [write_page,if_pos ⟨acked,rfl⟩]
  · simp only [asks,if_true,if_neg acked]
    exact first

theorem write_extends (device : Device Reg Value) (acks : Nat → Bool) (bus : Bus Reg Value) (asked : Option Value)
    (reg : Reg) (value : Value) :
    bus.log ⊆ (bus.write device acks asked reg value).log := by
  unfold Bus.write
  split
  · exact List.subset_append_left _ _
  · exact fun _ member => member

theorem checked_extends (asked : Option Value) (writes : List (Reg × Value)) :
    bus.log ⊆ (bus.checked device acks asked writes).1.log := by
  induction writes generalizing asked bus with
  | nil => exact fun _ member => member
  | cons first rest ih =>
    obtain ⟨reg,value⟩ := first
    have next := write_extends device acks bus (asks device asked reg value) reg value
    unfold Bus.checked
    by_cases acked : acks bus.transfers = true
    · simp only [if_pos acked]
      exact fun _ member => ih _ (next member)
    · simp only [if_neg acked]
      exact next

end PagedRegisters
