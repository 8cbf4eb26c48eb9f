import SssAlarmHost.MachineRuns
import SssAlarmHost.FlashStore

namespace SssAlarmHost.Sfud
open NorFlash MachineRuns

-- The geometry that rt_sfud_flash_probe gives the device: a sector is what the
-- smallest eraser clears.
def Flash.bytesPerSector (flash : Flash) : UInt32 := flash.eraseGran.size
def Flash.sectorCount (flash : Flash) : UInt32 := flash.capacity/flash.eraseGran.size

section Device
variable (part : Part) (flash : Flash) (line : Line)

def rtSfudRead (bus : Bus) (pos size : UInt32) : Bus × UInt32 × List UInt8 :=
  let (bus,result,buffer) := sfudRead part flash line bus (pos*flash.bytesPerSector) (size*flash.bytesPerSector)
  (bus,if result = .success then size else 0,buffer)

def rtSfudWrite (bus : Bus) (pos size : UInt32) (buffer : List UInt8) : Bus × UInt32 :=
  let (bus,result) := sfudEraseWrite part flash line bus (pos*flash.bytesPerSector) (size*flash.bytesPerSector) buffer
  (bus,if result = .success then size else 0)

-- RT_DEVICE_CTRL_BLK_ERASE: an empty range stands for its first sector.
def rtSfudControlErase (bus : Bus) (startAddr endAddr : UInt32) : Bus × Bool :=
  if endAddr < startAddr then (bus,false)
  else
    let endAddr := if endAddr = startAddr then endAddr + 1 else endAddr
    let (bus,result) := sfudErase part flash line bus (startAddr*flash.bytesPerSector)
      ((endAddr - startAddr)*flash.bytesPerSector)
    (bus,result = .success)

end Device

-- Whole sectors of the device.
structure Area (flash : Flash) where
  pos : UInt32
  size : UInt32
  inside : pos.toNat + size.toNat ≤ flash.sectorCount.toNat

def Area.addr {flash : Flash} (area : Area flash) : UInt32 := area.pos*flash.bytesPerSector
def Area.bytes {flash : Flash} (area : Area flash) : UInt32 := area.size*flash.bytesPerSector

def Area.Holds {flash : Flash} (area : Area flash) (a : Nat) : Prop :=
  area.addr.toNat ≤ a ∧ a < area.addr.toNat + area.bytes.toNat

instance {flash : Flash} (area : Area flash) (a : Nat) : Decidable (area.Holds a) := inferInstanceAs (Decidable (_ ∧ _))

def Area.Apart {flash : Flash} (first second : Area flash) : Prop :=
  first.pos.toNat + first.size.toNat ≤ second.pos.toNat ∨ second.pos.toNat + second.size.toNat ≤ first.pos.toNat

structure Request (flash : Flash) extends Area flash where
  buffer : List UInt8
  length : buffer.length = toArea.bytes.toNat

-- The chip under the calls of any number of threads. sfud_erase and sfud_write each
-- hold the lock of the device, so a write of one thread can be followed by calls of
-- others before its second part. What the callers have been told is kept beside: the
-- bytes of the last write that was reported done, and nothing while one is under way
-- or after one that failed.
structure Disk (flash : Flash) (Thread : Type) where
  bus : Bus
  writing : Thread → Option (Request flash)
  told : Nat → Option UInt8

inductive Action (flash : Flash) (Thread : Type) where
  | write (t : Thread) (request : Request flash)
  | complete (t : Thread)
  | read (t : Thread) (area : Area flash)
  | erase (t : Thread) (area : Area flash)

section Machine
variable (part : Part) {flash : Flash} (line : Line) {Thread : Type} [DecidableEq Thread]

def forget (area : Area flash) (told : Nat → Option UInt8) : Nat → Option UInt8 := fun a =>
  if area.Holds a then none else told a

def learn (area : Area flash) (content : Nat → UInt8) (told : Nat → Option UInt8) : Nat → Option UInt8 := fun a =>
  if area.Holds a then some (content (a - area.addr.toNat)) else told a

def step (s : Disk flash Thread) : Action flash Thread → Option (Disk flash Thread)
  | .write t r =>
    if s.writing t = none then
      let done := sfudErase part flash line s.bus r.addr r.bytes
      some ⟨done.1,if done.2 = .success then Function.update s.writing t (some r) else s.writing,forget r.toArea s.told⟩
    else none
  | .complete t =>
    match s.writing t with
    | none => none
    | some r =>
      let done := sfudWrite part flash line s.bus r.addr r.bytes r.buffer
      some ⟨done.1,Function.update s.writing t none,
        if done.2 = .success then learn r.toArea (fun i => r.buffer.getD i 0) s.told else s.told⟩
  | .read t area =>
    if s.writing t = none then some {s with bus := (rtSfudRead part flash line s.bus area.pos area.size).1} else none
  | .erase t area =>
    if s.writing t = none ∧ area.size ≠ 0 then
      let done := rtSfudControlErase part flash line s.bus area.pos (area.pos + area.size)
      some ⟨done.1,s.writing,
        if done.2 = true then learn area (fun _ => 0xFF) s.told else forget area s.told⟩
    else none

-- An operation starts on a chip that is not still busy, and not on sectors that a
-- write of another thread has erased and not yet filled.
def Orderly (s : Disk flash Thread) : Action flash Thread → Prop
  | .write _ r => s.bus.chip.busy = 0 ∧ ∀ u q, s.writing u = some q → q.Apart r.toArea
  | .complete _ => s.bus.chip.busy = 0
  | .read _ _ => True
  | .erase _ area => s.bus.chip.busy = 0 ∧ ∀ u q, s.writing u = some q → q.Apart area

end Machine

variable {part : Part} {flash : Flash} {line : Line} {bus : Bus} {Thread : Type} [DecidableEq Thread]

theorem sectors_toNat (probed : Probed part flash) {n : UInt32} (small : n.toNat ≤ flash.sectorCount.toNat) :
    (n*flash.bytesPerSector).toNat = n.toNat*flash.bytesPerSector.toNat ∧
      n.toNat*flash.bytesPerSector.toNat ≤ part.capacity := by
  have count : flash.sectorCount.toNat = flash.capacity.toNat/flash.bytesPerSector.toNat := UInt32.toNat_div _ _
  have below : n.toNat*flash.bytesPerSector.toNat ≤ flash.capacity.toNat := by
    refine Nat.le_trans (Nat.mul_le_mul_right _ small) ?_
    rw [count]
    exact Nat.div_mul_le_self _ _
  have bound := flash.capacity.toNat_lt
  rw [UInt32.toNat_mul,Nat.mod_eq_of_lt (by omega),probed.capacity]
  exact ⟨rfl,below⟩

theorem area_bounds (probed : Probed part flash) (area : Area flash) :
    area.addr.toNat = area.pos.toNat*flash.bytesPerSector.toNat ∧
      area.bytes.toNat = area.size.toNat*flash.bytesPerSector.toNat ∧
        InPart part area.addr.toNat area.bytes.toNat := by
  have inside := area.inside
  obtain ⟨addr,_⟩ := sectors_toNat probed (n := area.pos) (by omega)
  obtain ⟨bytes,_⟩ := sectors_toNat probed (n := area.size) (by omega)
  refine ⟨addr,bytes,?_⟩
  have count : flash.sectorCount.toNat = flash.capacity.toNat/flash.bytesPerSector.toNat := UInt32.toNat_div _ _
  have total := Nat.mul_le_mul_right flash.bytesPerSector.toNat inside
  have whole := Nat.div_mul_le_self flash.capacity.toNat flash.bytesPerSector.toNat
  unfold InPart Area.addr Area.bytes
  rw [addr,bytes,← Nat.add_mul,probed.capacity]
  rw [count] at total
  omega

-- The touched blocks of whole sectors are these sectors.
theorem area_touched (probed : Probed part flash) {area : Area flash} {a : Nat}
    (touched : Touched flash.eraseGran.size.toNat area.addr.toNat area.bytes.toNat a) : area.Holds a := by
  obtain ⟨addr,bytes,_⟩ := area_bounds probed area
  obtain ⟨x,above,below,same⟩ := touched
  have positive := probed.positive
  change x/flash.bytesPerSector.toNat = a/flash.bytesPerSector.toNat at same
  change 0 < flash.bytesPerSector.toNat at positive
  unfold Area.Holds
  rw [addr,bytes] at *
  have low : area.pos.toNat ≤ a/flash.bytesPerSector.toNat := by
    rw [← same]
    exact (Nat.le_div_iff_mul_le positive).mpr above
  have high : a/flash.bytesPerSector.toNat < area.pos.toNat + area.size.toNat := by
    rw [← same]
    refine (Nat.div_lt_iff_lt_mul positive).mpr ?_
    rw [Nat.add_mul]
    exact below
  rw [← Nat.add_mul]
  exact ⟨(Nat.le_div_iff_mul_le positive).mp low,(Nat.div_lt_iff_lt_mul positive).mp high⟩

theorem apart_holds (probed : Probed part flash) {first second : Area flash} (apart : first.Apart second) {a : Nat}
    (here : first.Holds a) : ¬second.Holds a := by
  obtain ⟨addr,bytes,_⟩ := area_bounds probed first
  obtain ⟨addr',bytes',_⟩ := area_bounds probed second
  unfold Area.Holds at *
  rw [addr,bytes,← Nat.add_mul] at here
  rw [addr',bytes',← Nat.add_mul]
  intro there
  rcases apart with before | after
  · have := Nat.mul_le_mul_right flash.bytesPerSector.toNat before
    omega
  · have := Nat.mul_le_mul_right flash.bytesPerSector.toNat after
    omega

structure Consistent (s : Disk flash Thread) : Prop where
  blank : ∀ t r, s.writing t = some r → ∀ a, r.Holds a → s.bus.chip.cells a = 0xFF ∧ s.told a = none
  apart : ∀ t u r q, s.writing t = some r → s.writing u = some q → t ≠ u → r.Apart q.toArea
  true' : ∀ a b, s.told a = some b → s.bus.chip.cells a = b

variable {s next : Disk flash Thread}

theorem forget_outside {area : Area flash} {told : Nat → Option UInt8} {a : Nat} (outside : ¬area.Holds a) :
    forget area told a = told a := if_neg outside

theorem learn_outside {area : Area flash} {told : Nat → Option UInt8} {content : Nat → UInt8} {a : Nat} (outside : ¬area.Holds a) :
    learn area content told a = told a := if_neg outside

theorem erase_outside (probed : Probed part flash) (line : Line) (bus : Bus) {area : Area flash} {a : Nat} (outside : ¬area.Holds a) :
    (sfudErase part flash line bus area.addr area.bytes).1.chip.cells a = bus.chip.cells a := by
  rcases sfudErase_cleared line probed bus (area_bounds probed area).2.2 a with kept | ⟨touched,_⟩
  · exact kept
  · exact absurd (area_touched probed touched) outside

theorem apart_symm {first second : Area flash} (apart : first.Apart second) : second.Apart first := apart.symm

theorem write_consistent (probed : Probed part flash) (consistent : Consistent s) {t : Thread} {r : Request flash}
    (orderly : Orderly s (.write t r)) (taken : step part line s (.write t r) = some next) : Consistent next := by
  obtain ⟨idle,free⟩ := orderly
  obtain ⟨own,same⟩ := Option.ite_none_right_eq_some.mp taken
  cases same
  have outside : ∀ a, ¬r.Holds a → (sfudErase part flash line s.bus r.addr r.bytes).1.chip.cells a = s.bus.chip.cells a :=
    fun a => erase_outside probed line s.bus
  have others : ∀ u q, s.writing u = some q → ∀ a, q.Holds a →
      (sfudErase part flash line s.bus r.addr r.bytes).1.chip.cells a = 0xFF ∧ forget r.toArea s.told a = none := by
    intro u q writing a here
    obtain ⟨blank,none'⟩ := consistent.blank u q writing a here
    have away := apart_holds probed (free u q writing) here
    exact ⟨by rw [outside a away,blank],by rw [forget_outside away,none']⟩
  have told : ∀ a b, forget r.toArea s.told a = some b →
      (sfudErase part flash line s.bus r.addr r.bytes).1.chip.cells a = b := by
    intro a b known
    by_cases here : r.Holds a
    · rw [forget,if_pos here] at known
      cases known
    · rw [forget_outside here] at known
      rw [outside a here]
      exact consistent.true' a b known
  by_cases erased : (sfudErase part flash line s.bus r.addr r.bytes).2 = .success
  · simp only [if_pos erased]
    have blank := (sfudErase_erased probed (area_bounds probed r.toArea).2.2 idle erased).2
    refine ⟨?_,?_,told⟩
    · intro u q writing a here
      dsimp only at writing ⊢
      by_cases mine : u = t
      · subst mine
        rw [Function.update_self] at writing
        cases writing
        exact ⟨blank a here.1 here.2,if_pos here⟩
      · rw [Function.update_of_ne mine] at writing
        exact others u q writing a here
    · intro u v q p writing writing' different
      dsimp only at writing writing'
      by_cases mine : u = t
      · subst mine
        rw [Function.update_self] at writing
        rw [Function.update_of_ne (Ne.symm different)] at writing'
        cases writing
        exact apart_symm (free v p writing')
      · rw [Function.update_of_ne mine] at writing
        by_cases yours : v = t
        · subst yours
          rw [Function.update_self] at writing'
          cases writing'
          exact free u q writing
        · rw [Function.update_of_ne yours] at writing'
          exact consistent.apart u v q p writing writing' different
  · simp only [if_neg erased]
    exact ⟨others,consistent.apart,told⟩

theorem complete_consistent (probed : Probed part flash) (consistent : Consistent s) {t : Thread}
    (idle : s.bus.chip.busy = 0) (taken : step part line s (.complete t) = some next) : Consistent next := by
  cases writing : s.writing t with
  | none =>
    simp only [step,writing] at taken
    cases taken
  | some r =>
    simp only [step,writing] at taken
    cases taken
    obtain ⟨_,_,within⟩ := area_bounds probed r.toArea
    have outside : ∀ a, ¬r.Holds a →
        (sfudWrite part flash line s.bus r.addr r.bytes r.buffer).1.chip.cells a = s.bus.chip.cells a :=
      fun a away => sfudWrite_outside probed s.bus r.buffer within away
    have still : ∀ u q, Function.update s.writing t none u = some q → u ≠ t ∧ s.writing u = some q := by
      intro u q there
      by_cases mine : u = t
      · rw [mine,Function.update_self] at there
        cases there
      · rw [Function.update_of_ne mine] at there
        exact ⟨mine,there⟩
    have apart : ∀ u v q p, Function.update s.writing t none u = some q → Function.update s.writing t none v = some p →
        u ≠ v → q.Apart p.toArea := by
      intro u v q p there there' different
      exact consistent.apart u v q p (still u q there).2 (still v p there').2 different
    have away : ∀ u q, Function.update s.writing t none u = some q → ∀ a, q.Holds a → ¬r.Holds a := by
      intro u q there a here
      obtain ⟨other,writing'⟩ := still u q there
      exact apart_holds probed (consistent.apart u t q r writing' writing other) here
    by_cases written : (sfudWrite part flash line s.bus r.addr r.bytes r.buffer).2 = .success
    · simp only [if_pos written]
      have changed := (sfudWrite_done probed within r.length idle written).2
      refine ⟨?_,apart,?_⟩
      · intro u q there a here
        dsimp only at there ⊢
        obtain ⟨blank,none'⟩ := consistent.blank u q (still u q there).2 a here
        have elsewhere := away u q there a here
        exact ⟨by rw [outside a elsewhere,blank],by rw [learn_outside elsewhere,none']⟩
      · intro a b known
        dsimp only at known ⊢
        by_cases here : r.Holds a
        · rw [learn,if_pos here] at known
          obtain ⟨above,below⟩ := here
          have place : a = r.addr.toNat + (a - r.addr.toNat) := by omega
          have inside : a - r.addr.toNat < r.buffer.length := by rw [r.length]; omega
          have blank := (consistent.blank t r writing a ⟨above,below⟩).1
          rw [place] at blank
          rw [changed,place,programmed_erased inside blank,← Option.some.inj known,List.getD_eq_getElem _ _ inside]
          rfl
        · rw [learn_outside here] at known
          rw [outside a here]
          exact consistent.true' a b known
    · simp only [if_neg written]
      refine ⟨?_,apart,?_⟩
      · intro u q there a here
        dsimp only at there ⊢
        obtain ⟨blank,none'⟩ := consistent.blank u q (still u q there).2 a here
        exact ⟨by rw [outside a (away u q there a here),blank],none'⟩
      · intro a b known
        dsimp only at known ⊢
        have here : ¬r.Holds a := by
          intro here
          rw [(consistent.blank t r writing a here).2] at known
          cases known
        rw [outside a here]
        exact consistent.true' a b known

theorem read_consistent (probed : Probed part flash) (consistent : Consistent s) {t : Thread} {area : Area flash}
    (taken : step part line s (.read t area) = some next) : Consistent next := by
  obtain ⟨_,same⟩ := Option.ite_none_right_eq_some.mp taken
  cases same
  have kept : (rtSfudRead part flash line s.bus area.pos area.size).1.chip.cells = s.bus.chip.cells :=
    (sfudRead_quiet probed s.bus (area_bounds probed area).2.2).cells
  refine ⟨?_,consistent.apart,?_⟩
  · intro u q writing a here
    dsimp only
    rw [kept]
    exact consistent.blank u q writing a here
  · intro a b known
    dsimp only
    rw [kept]
    exact consistent.true' a b known

theorem controlErase_area (line : Line) (bus : Bus) (area : Area flash) (some' : area.size ≠ 0) :
    rtSfudControlErase part flash line bus area.pos (area.pos + area.size) =
      ((sfudErase part flash line bus area.addr area.bytes).1,
        decide ((sfudErase part flash line bus area.addr area.bytes).2 = .success)) := by
  have inside := area.inside
  have bound := flash.sectorCount.toNat_lt
  have sum : (area.pos + area.size).toNat = area.pos.toNat + area.size.toNat := by
    rw [UInt32.toNat_add]
    omega
  have forward : ¬area.pos + area.size < area.pos := by
    rw [UInt32.lt_iff_toNat_lt,sum]
    omega
  have more : ¬area.pos + area.size = area.pos := by
    intro same
    have zero : area.size.toNat = 0 := by
      have := congrArg UInt32.toNat same
      omega
    exact some' (UInt32.toNat_inj.mp zero)
  have back : area.pos + area.size - area.pos = area.size := by
    rw [UInt32.add_comm,UInt32.add_sub_cancel]
  rw [rtSfudControlErase,if_neg forward,if_neg more]
  dsimp only
  rw [back]
  rfl

theorem erase_consistent (probed : Probed part flash) (consistent : Consistent s) {t : Thread} {area : Area flash}
    (orderly : Orderly s (.erase t area)) (taken : step part line s (.erase t area) = some next) : Consistent next := by
  obtain ⟨idle,free⟩ := orderly
  obtain ⟨⟨_,some'⟩,same⟩ := Option.ite_none_right_eq_some.mp taken
  rw [controlErase_area line s.bus area some'] at same
  cases same
  have outside : ∀ a, ¬area.Holds a →
      (sfudErase part flash line s.bus area.addr area.bytes).1.chip.cells a = s.bus.chip.cells a :=
    fun a => erase_outside probed line s.bus
  by_cases erased : (sfudErase part flash line s.bus area.addr area.bytes).2 = .success
  · simp only [erased,decide_true,if_true]
    have blank := (sfudErase_erased probed (area_bounds probed area).2.2 idle erased).2
    refine ⟨?_,consistent.apart,?_⟩
    · intro u q writing a here
      dsimp only
      obtain ⟨clean,none'⟩ := consistent.blank u q writing a here
      have away := apart_holds probed (free u q writing) here
      exact ⟨by rw [outside a away,clean],by rw [learn_outside away,none']⟩
    · intro a b known
      dsimp only at known ⊢
      by_cases here : area.Holds a
      · rw [learn,if_pos here] at known
        rw [blank a here.1 here.2]
        exact Option.some.inj known
      · rw [learn_outside here] at known
        rw [outside a here]
        exact consistent.true' a b known
  · simp only [erased,decide_false,Bool.false_eq_true,if_false]
    refine ⟨?_,consistent.apart,?_⟩
    · intro u q writing a here
      dsimp only
      obtain ⟨clean,none'⟩ := consistent.blank u q writing a here
      have away := apart_holds probed (free u q writing) here
      exact ⟨by rw [outside a away,clean],by rw [forget_outside away,none']⟩
    · intro a b known
      dsimp only at known ⊢
      by_cases here : area.Holds a
      · rw [forget,if_pos here] at known
        cases known
      · rw [forget_outside here] at known
        rw [outside a here]
        exact consistent.true' a b known

theorem step_consistent (probed : Probed part flash) {a : Action flash Thread} (consistent : Consistent s)
    (orderly : Orderly s a) (taken : step part line s a = some next) : Consistent next := by
  cases a with
  | write t r => exact write_consistent probed consistent orderly taken
  | complete t => exact complete_consistent probed consistent orderly taken
  | read t area => exact read_consistent probed consistent taken
  | erase t area => exact erase_consistent probed consistent orderly taken

-- On a line that answers, no operation leaves the chip busy, and what remains of the
-- order is that the sectors of a write under way are left alone.
def Free (s : Disk flash Thread) : Action flash Thread → Prop
  | .write _ r => ∀ u q, s.writing u = some q → q.Apart r.toArea
  | .erase _ area => ∀ u q, s.writing u = some q → q.Apart area
  | _ => True

-- Two threads: while the first has a write under way, the second writes, reads and
-- erases elsewhere.
def promptLine : Line := ⟨fun _ => .ok,fun k => k % 3⟩

theorem promptLine_answers : Answers promptLine w25q128.retryTimes := by
  refine ⟨fun _ => rfl,fun k => ?_⟩
  have := Nat.mod_lt k (show 0 < 3 by decide)
  show k % 3 ≤ 600000
  omega

def secondRequest : Request w25q128 := ⟨⟨2,1,by decide⟩,List.replicate 4096 0x22,by rw [List.length_replicate]; rfl⟩

theorem request_bytes (probed : Probed part flash) (r : Request flash) :
    UInt32.ofNat r.buffer.length = r.bytes ∧ InPart part r.addr.toNat r.buffer.length := by
  obtain ⟨_,_,within⟩ := area_bounds probed r.toArea
  rw [r.length]
  exact ⟨UInt32.ofNat_toNat,within⟩

-- The whole call is its two locked parts with no one in between.
theorem alone_rtSfudWrite (s : Disk flash Thread) (t : Thread) (r : Request flash) (own : s.writing t = none)
    (erased : (sfudErase part flash line s.bus r.addr r.bytes).2 = .success) :
    ∃ after, run (step part line) s [.write t r,.complete t] = some after ∧
      after.bus = (rtSfudWrite part flash line s.bus r.pos r.size r.buffer).1 := by
  have first : step part line s (.write t r) = some ⟨(sfudErase part flash line s.bus r.addr r.bytes).1,
      Function.update s.writing t (some r),forget r.toArea s.told⟩ := by
    simp [step,own,erased]
  obtain ⟨after,second,bus⟩ : ∃ after, step part line ⟨(sfudErase part flash line s.bus r.addr r.bytes).1,
      Function.update s.writing t (some r),forget r.toArea s.told⟩ (.complete t) = some after ∧
        after.bus = (sfudWrite part flash line (sfudErase part flash line s.bus r.addr r.bytes).1 r.addr r.bytes r.buffer).1 := by
    simp [step]
  refine ⟨after,run_cons.mpr ⟨_,first,run_cons.mpr ⟨after,second,rfl⟩⟩,?_⟩
  rw [bus]
  change _ = (sfudEraseWrite part flash line s.bus r.addr r.bytes r.buffer).1
  rw [sfudEraseWrite,attempt_after erased]

structure RoundTrip (part : Part) (flash : Flash) (line : Line) (bus : Bus) (r : Request flash) : Prop where
  written : (rtSfudWrite part flash line bus r.pos r.size r.buffer).2 = r.size
  read : (rtSfudRead part flash line (rtSfudWrite part flash line bus r.pos r.size r.buffer).1 r.pos r.size).2 =
    (r.size,r.buffer)
  elsewhere : ∀ a, ¬r.Holds a →
    (rtSfudWrite part flash line bus r.pos r.size r.buffer).1.chip.cells a = bus.chip.cells a

theorem write_read_round_trip (probed : Probed part flash) (answers : Answers line flash.retryTimes)
    (idle : bus.chip.busy = 0) (r : Request flash) : RoundTrip part flash line bus r := by
  obtain ⟨size,inside⟩ := request_bytes probed r
  obtain ⟨_,_,within⟩ := area_bounds probed r.toArea
  have succeeded := erase_write_succeeds probed answers inside idle
  have holds := erase_write_holds probed line bus inside
  have settled := holds.settled idle succeeded
  have stored := holds.stored idle succeeded
  have elsewhere := holds.elsewhere
  rw [size] at succeeded settled stored elsewhere
  have readable := sfudRead_acked probed answers within settled
  have data := sfudRead_data probed within readable
  constructor
  case written => exact if_pos succeeded
  case read =>
    refine Prod.ext (if_pos readable) ?_
    change (sfudRead part flash line (sfudEraseWrite part flash line bus r.addr r.bytes r.buffer).1 r.addr r.bytes).2.2 = r.buffer
    rw [data]
    refine List.ext_getElem (by simp [r.length]) ?_
    intro i _ there
    rw [List.getElem_map,List.getElem_range]
    exact stored i there
  case elsewhere =>
    intro a outside
    refine elsewhere a fun touched => outside ?_
    rw [r.length] at touched
    exact area_touched probed touched

theorem second_request_round_trip :
    RoundTrip w25q128Part w25q128 promptLine ⟨⟨fun a => UInt8.ofNat a,true,0⟩,9⟩ secondRequest :=
  write_read_round_trip w25q128_probed promptLine_answers rfl secondRequest

end SssAlarmHost.Sfud
