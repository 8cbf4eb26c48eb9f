import SssAlarmHost.Sfud

namespace SssAlarmHost.Sfud
open NorFlash

variable {part : Part} {flash : Flash} {line : Line} {bus : Bus}

theorem Quiet.cleared {before after : Bus} (quiet : Quiet before after) (region : Nat → Prop) :
    Cleared region before.chip.cells after.chip.cells := by
  rw [quiet.cells]
  exact Cleared.refl _ _

structure Suitable (part : Part) (flash : Flash) (addr size : UInt32) (cur : Eraser) : Prop where
  supported : part.eraseBlock cur.cmd = some cur.size.toNat
  positive : 0 < cur.size.toNat
  chosen : cur = flash.eraseGran ∨ addr.toNat % cur.size.toNat = 0 ∧ cur.size.toNat ≤ size.toNat

theorem gran_suitable (probed : Probed part flash) (addr size : UInt32) :
    Suitable part flash addr size flash.eraseGran := ⟨probed.granular,probed.positive,Or.inl rfl⟩

theorem suits_suitable (probed : Probed part flash) (available : flash.sfdpAvailable = true) {addr size : UInt32} {i : Fin 4}
    (suits : (flash.eraser i).size ≠ 0 ∧ (flash.eraser i).size ≤ size ∧ addr % (flash.eraser i).size = 0) :
    Suitable part flash addr size (flash.eraser i) := by
  obtain ⟨there,fits,aligned⟩ := suits
  by_cases same : flash.eraser i = flash.eraseGran
  · rw [same]
    exact gran_suitable probed addr size
  · have nonzero : (flash.eraser i).size.toNat ≠ 0 := fun zero => there (UInt32.toNat_inj.mp zero)
    refine ⟨probed.supported available i same there,Nat.pos_of_ne_zero nonzero,Or.inr ⟨?_,UInt32.le_iff_toNat_le.mp fits⟩⟩
    rw [← UInt32.toNat_mod,aligned]
    rfl

theorem current_suitable (probed : Probed part flash) (addr size : UInt32) :
    Suitable part flash addr size (currentEraser flash addr size) := by
  unfold currentEraser
  cases available : flash.sfdpAvailable with
  | false => exact gran_suitable probed addr size
  | true =>
    have first : Suitable part flash addr size (flash.eraser 0) := by
      rw [probed.smallest available]
      exact gran_suitable probed addr size
    rw [if_pos rfl]
    unfold sfudSfdpGetSuitableEraser
    dsimp only
    split
    · exact first
    · split
      · exact suits_suitable probed available ‹_›
      · split
        · exact suits_suitable probed available ‹_›
        · split
          · exact suits_suitable probed available ‹_›
          · exact first

theorem suitable_block {addr size : UInt32} {cur : Eraser} (suitable : Suitable part flash addr size cur) (some' : 0 < size.toNat)
    {a : Nat} (above : addr.toNat - addr.toNat % cur.size.toNat ≤ a)
    (below : a < addr.toNat - addr.toNat % cur.size.toNat + cur.size.toNat) :
    Touched flash.eraseGran.size.toNat addr.toNat size.toNat a := by
  rcases suitable.chosen with gran | ⟨aligned,fits⟩
  · refine ⟨addr.toNat,Nat.le_refl _,by omega,?_⟩
    rw [← gran]
    have positive := suitable.positive
    have parts := Nat.div_add_mod addr.toNat cur.size.toNat
    have start : addr.toNat - addr.toNat % cur.size.toNat = cur.size.toNat*(addr.toNat/cur.size.toNat) := by omega
    rw [start] at above below
    refine (Nat.div_eq_of_lt_le ?_ ?_).symm
    · rw [Nat.mul_comm]
      exact above
    · rw [Nat.add_mul,Nat.one_mul,Nat.mul_comm]
      exact below
  · rw [aligned] at above below
    exact ⟨a,by omega,by omega,rfl⟩

theorem erase_does (probed : Probed part flash) {addr size : UInt32} {cur : Eraser} (suitable : Suitable part flash addr size cur)
    (inside : addr.toNat < part.capacity) :
    Does part (cur.cmd :: makeAdressByteArray flash addr) fun cells =>
      erase cells (addr.toNat - addr.toNat % cur.size.toNat) cur.size.toNat := by
  have other : ∀ cmd ∈ [cmdPageProgram,cmdReadData,cmdWriteDisable,cmdReadStatusRegister,cmdWriteEnable,cmdEraseChip],
      cur.cmd ≠ cmd := by
    intro cmd member same
    have known := suitable.supported
    rw [same,probed.separate cmd member] at known
    cases known
  obtain ⟨length,address'⟩ := address_array probed inside
  refine does_of_execute ?_ ?_
  · simp only [List.mem_cons,List.not_mem_nil,or_false,not_or]
    exact ⟨other _ (by simp),other _ (by simp),other _ (by simp),other _ (by simp)⟩
  · intro chip busyFor enabled
    have notEnable := other cmdWriteEnable (by simp)
    have notDisable := other cmdWriteDisable (by simp)
    have notChip := other cmdEraseChip (by simp)
    have notProgram := other cmdPageProgram (by simp)
    simp only [Chip.execute,if_neg notEnable,if_neg notDisable,if_neg notChip,if_neg notProgram,enabled,suitable.supported]
    rw [List.take_of_length_le (Nat.le_of_eq length),address']
    rfl

theorem program_does (probed : Probed part flash) {addr : UInt32} (data : List UInt8) (inside : addr.toNat < part.capacity) :
    Does part (cmdPageProgram :: (makeAdressByteArray flash addr ++ data)) fun cells =>
      program cells (addr.toNat - addr.toNat % pageSize) (addr.toNat % pageSize) data := by
  obtain ⟨length,address'⟩ := address_array probed inside
  refine does_of_execute (by decide) ?_
  intro chip busyFor enabled
  have take : (makeAdressByteArray flash addr ++ data).take part.addressBytes = makeAdressByteArray flash addr := by
    rw [← length,List.take_left]
  have drop : (makeAdressByteArray flash addr ++ data).drop part.addressBytes = data := by
    rw [← length,List.drop_left]
  rw [Chip.execute]
  simp only [take,drop,address',enabled]
  rfl

theorem chip_does (part : Part) : Does part [cmdEraseChip] fun cells => erase cells 0 part.capacity := by
  refine does_of_execute (by decide) ?_
  intro chip busyFor enabled
  simp only [Chip.execute,enabled]
  rfl

def InPart (part : Part) (addr size : Nat) : Prop := addr + size ≤ part.capacity

-- What is left of the block that addr is in.
def restOfBlock (block addr : UInt32) : UInt32 := block - addr % block

theorem restOfBlock_toNat {block : UInt32} (positive : 0 < block.toNat) (addr : UInt32) :
    (restOfBlock block addr).toNat = block.toNat - addr.toNat % block.toNat := by
  have less := Nat.mod_lt addr.toNat positive
  unfold restOfBlock
  rw [UInt32.toNat_sub_of_le _ _ (UInt32.le_iff_toNat_le.mpr (by rw [UInt32.toNat_mod]; omega)),UInt32.toNat_mod]

theorem eraseLoop_round (rounds : Nat) (bus : Bus) {addr size : UInt32} (more : size ≠ 0) :
    eraseLoop part flash line (rounds+1) bus addr size =
      attempt (operate part flash line ((currentEraser flash addr size).cmd :: makeAdressByteArray flash addr) bus) fun bus =>
        if restOfBlock (currentEraser flash addr size).size addr < size then
          eraseLoop part flash line rounds bus (addr + restOfBlock (currentEraser flash addr size).size addr)
            (size - restOfBlock (currentEraser flash addr size).size addr)
        else (bus,.success) := by
  rw [eraseLoop,if_neg more]
  dsimp only [restOfBlock]
  by_cases aligned : addr % (currentEraser flash addr size).size = 0
  · simp only [aligned,ne_eq,not_true_eq_false,if_false,UInt32.sub_zero]
  · simp only [aligned,ne_eq,not_false_eq_true,if_true]
    rfl

theorem rest_toNat {addr size step : UInt32} (inside : InPart part addr.toNat size.toNat) (small : part.capacity < 2^32)
    (less : step < size) : (addr + step).toNat = addr.toNat + step.toNat ∧ (size - step).toNat = size.toNat - step.toNat := by
  have below := UInt32.lt_iff_toNat_lt.mp less
  unfold InPart at inside
  refine ⟨?_,UInt32.toNat_sub_of_le _ _ (UInt32.le_iff_toNat_le.mpr (Nat.le_of_lt below))⟩
  rw [UInt32.toNat_add]
  omega

theorem capacity_small (probed : Probed part flash) : part.capacity < 2^32 := by
  rw [probed.capacity]
  exact flash.capacity.toNat_lt

theorem eraseLoop_cleared (probed : Probed part flash) (rounds : Nat) (bus : Bus) (addr size : UInt32)
    (inside : InPart part addr.toNat size.toNat) :
    Cleared (Touched flash.eraseGran.size.toNat addr.toNat size.toNat) bus.chip.cells
      (eraseLoop part flash line rounds bus addr size).1.chip.cells := by
  induction rounds generalizing bus addr size with
  | zero => exact Cleared.refl _ _
  | succ rounds ih =>
    by_cases done : size = 0
    · rw [eraseLoop,if_pos done]
      exact Cleared.refl _ _
    · have some' : 0 < size.toNat := Nat.pos_of_ne_zero fun zero => done (UInt32.toNat_inj.mp zero)
      have suitable := current_suitable probed addr size
      have does := erase_does probed suitable (show addr.toNat < part.capacity from by unfold InPart at inside; omega)
      have block : Cleared (Touched flash.eraseGran.size.toNat addr.toNat size.toNat) bus.chip.cells
          (operate part flash line ((currentEraser flash addr size).cmd :: makeAdressByteArray flash addr) bus).1.chip.cells := by
        rcases operate_cases flash line does bus with kept | changed
        · rw [kept]
          exact Cleared.refl _ _
        · rw [changed]
          exact (erase_cleared _ _ _).mono fun a within => suitable_block suitable some' within.1 within.2
      rw [eraseLoop_round rounds bus done]
      refine attempt_rule (fun after => Cleared _ bus.chip.cells after.chip.cells) block fun _ => ?_
      split
      · rename_i less
        obtain ⟨addrNext,sizeNext⟩ := rest_toNat inside (capacity_small probed) less
        have below := UInt32.lt_iff_toNat_lt.mp less
        refine block.trans ((ih _ _ _ ?_).mono fun a touched => ?_)
        · rw [addrNext,sizeNext]
          unfold InPart at inside ⊢
          omega
        · rw [addrNext,sizeNext] at touched
          exact touched_rest (Nat.le_of_lt below) touched
      · exact block

theorem eraseLoop_erased (probed : Probed part flash) (rounds : Nat) (bus : Bus) (addr size : UInt32)
    (inside : InPart part addr.toNat size.toNat) (enough : size.toNat ≤ rounds) (idle : bus.chip.busy = 0)
    (succeeded : (eraseLoop part flash line rounds bus addr size).2 = .success) :
    (eraseLoop part flash line rounds bus addr size).1.chip.busy = 0 ∧
      ∀ a, addr.toNat ≤ a → a < addr.toNat + size.toNat →
        (eraseLoop part flash line rounds bus addr size).1.chip.cells a = 0xFF := by
  induction rounds generalizing bus addr size with
  | zero => exact ⟨idle,fun a above below => by omega⟩
  | succ rounds ih =>
    by_cases done : size = 0
    · rw [eraseLoop,if_pos done]
      refine ⟨idle,fun a above below => ?_⟩
      rw [done] at below
      simp at below
      omega
    · have suitable := current_suitable probed addr size
      have some' : 0 < size.toNat := Nat.pos_of_ne_zero fun zero => done (UInt32.toNat_inj.mp zero)
      have does := erase_does probed suitable (show addr.toNat < part.capacity from by unfold InPart at inside; omega)
      rw [eraseLoop_round rounds bus done] at succeeded ⊢
      obtain ⟨operated,rest⟩ := attempt_success.mp succeeded
      rw [attempt_after operated]
      obtain ⟨changed,still⟩ := operate_done does idle operated
      have step := restOfBlock_toNat suitable.positive addr
      have part' := Nat.mod_lt addr.toNat suitable.positive
      -- The block ends where the next round starts, so it holds the bytes before that.
      have first : ∀ a, addr.toNat ≤ a → a < addr.toNat + (restOfBlock (currentEraser flash addr size).size addr).toNat →
          (operate part flash line ((currentEraser flash addr size).cmd :: makeAdressByteArray flash addr) bus).1.chip.cells a
            = 0xFF := by
        intro a above below
        rw [changed]
        exact if_pos ⟨by omega,by have := Nat.mod_le addr.toNat (currentEraser flash addr size).size.toNat; omega⟩
      by_cases less : restOfBlock (currentEraser flash addr size).size addr < size
      · rw [if_pos less] at rest ⊢
        obtain ⟨addrNext,sizeNext⟩ := rest_toNat inside (capacity_small probed) less
        have below' := UInt32.lt_iff_toNat_lt.mp less
        have inside' : InPart part (addr + restOfBlock (currentEraser flash addr size).size addr).toNat
            (size - restOfBlock (currentEraser flash addr size).size addr).toNat := by
          rw [addrNext,sizeNext]
          unfold InPart at inside ⊢
          omega
        obtain ⟨stillIdle,later⟩ := ih _ _ _ inside' (by rw [sizeNext]; omega) still rest
        refine ⟨stillIdle,fun a above below => ?_⟩
        by_cases here : a < addr.toNat + (restOfBlock (currentEraser flash addr size).size addr).toNat
        · exact (eraseLoop_cleared probed rounds _ _ _ inside').erased (first a above here)
        · exact later a (by rw [addrNext]; omega) (by rw [addrNext,sizeNext]; omega)
      · rw [if_neg less]
        have all := Nat.not_lt.mp (fun smaller => less (UInt32.lt_iff_toNat_lt.mpr smaller))
        exact ⟨still,fun a above below => first a above (by omega)⟩

def pageChunk (addr size : UInt32) : UInt32 := if restOfBlock 256 addr < size then restOfBlock 256 addr else size

theorem pageChunk_toNat (addr size : UInt32) :
    (pageChunk addr size).toNat = min (256 - addr.toNat % 256) size.toNat := by
  have rest := restOfBlock_toNat (show 0 < (256 : UInt32).toNat from by decide) addr
  simp only [UInt32.reduceToNat] at rest
  unfold pageChunk
  split
  · rename_i less
    have below := UInt32.lt_iff_toNat_lt.mp less
    omega
  · rename_i all
    have above := Nat.not_lt.mp (fun smaller => all (UInt32.lt_iff_toNat_lt.mpr smaller))
    omega

theorem writeLoop_round (rounds : Nat) (bus : Bus) {addr size : UInt32} (data : List UInt8) (more : size ≠ 0) :
    writeLoop part flash line 256 (rounds+1) bus addr size data =
      attempt (operate part flash line (cmdPageProgram ::
          (makeAdressByteArray flash addr ++ data.take (pageChunk addr size).toNat)) bus) fun bus =>
        writeLoop part flash line 256 rounds bus (addr + pageChunk addr size) (size - pageChunk addr size)
          (data.drop (pageChunk addr size).toNat) := by
  have chunk : (if addr % 256 ≠ 0 then if 256 - addr % 256 < size then 256 - addr % 256 else size
      else if 256 < size then 256 else size) = pageChunk addr size := by
    unfold pageChunk restOfBlock
    by_cases aligned : addr % 256 = 0
    · rw [if_neg (not_not.mpr aligned),aligned,UInt32.sub_zero]
    · rw [if_pos aligned]
  rw [writeLoop,if_neg more]
  dsimp only
  rw [chunk]

theorem chunk_program (cells : Nat → UInt8) (addr size : UInt32) (data : List UInt8) :
    program cells (addr.toNat - addr.toNat % pageSize) (addr.toNat % pageSize) (data.take (pageChunk addr size).toNat) =
      programmed cells addr.toNat (data.take (pageChunk addr size).toNat) := by
  have chunk := pageChunk_toNat addr size
  have below := Nat.mod_lt addr.toNat (show 0 < pageSize from by decide)
  have less := Nat.mod_le addr.toNat pageSize
  rw [program_within _ _ _ _ (by rw [List.length_take]; unfold pageSize at *; omega),Nat.sub_add_cancel less]

theorem chunk_next {addr size : UInt32} (inside : InPart part addr.toNat size.toNat) (small : part.capacity < 2^32) :
    (addr + pageChunk addr size).toNat = addr.toNat + (pageChunk addr size).toNat ∧
      (size - pageChunk addr size).toNat = size.toNat - (pageChunk addr size).toNat := by
  have chunk := pageChunk_toNat addr size
  unfold InPart at inside
  refine ⟨?_,UInt32.toNat_sub_of_le _ _ (UInt32.le_iff_toNat_le.mpr (by omega))⟩
  rw [UInt32.toNat_add]
  omega

theorem writeLoop_outside (probed : Probed part flash) (rounds : Nat) (bus : Bus) (addr size : UInt32) (data : List UInt8)
    (inside : InPart part addr.toNat size.toNat) {a : Nat} (outside : ¬(addr.toNat ≤ a ∧ a < addr.toNat + size.toNat)) :
    (writeLoop part flash line 256 rounds bus addr size data).1.chip.cells a = bus.chip.cells a := by
  induction rounds generalizing bus addr size data with
  | zero => rfl
  | succ rounds ih =>
    by_cases done : size = 0
    · rw [writeLoop,if_pos done]
    · have some' : 0 < size.toNat := Nat.pos_of_ne_zero fun zero => done (UInt32.toNat_inj.mp zero)
      have chunk := pageChunk_toNat addr size
      have first : (operate part flash line (cmdPageProgram ::
          (makeAdressByteArray flash addr ++ data.take (pageChunk addr size).toNat)) bus).1.chip.cells a = bus.chip.cells a := by
        have does := program_does probed (data.take (pageChunk addr size).toNat)
          (show addr.toNat < part.capacity from by unfold InPart at inside; omega)
        rcases operate_cases flash line does bus with kept | changed
        · rw [kept]
        · rw [changed,chunk_program]
          exact programmed_outside (by rw [List.length_take]; omega)
      rw [writeLoop_round rounds bus data done]
      refine attempt_rule (fun after => after.chip.cells a = bus.chip.cells a) first fun _ => ?_
      obtain ⟨addrNext,sizeNext⟩ := chunk_next inside (capacity_small probed)
      rw [ih _ _ _ _ (by rw [addrNext,sizeNext]; unfold InPart at inside ⊢; omega) (by rw [addrNext,sizeNext]; omega),first]

theorem writeLoop_done (probed : Probed part flash) (rounds : Nat) (bus : Bus) (addr size : UInt32) (data : List UInt8)
    (inside : InPart part addr.toNat size.toNat) (length : data.length = size.toNat) (enough : size.toNat ≤ rounds)
    (idle : bus.chip.busy = 0) (succeeded : (writeLoop part flash line 256 rounds bus addr size data).2 = .success) :
    (writeLoop part flash line 256 rounds bus addr size data).1.chip.busy = 0 ∧
      (writeLoop part flash line 256 rounds bus addr size data).1.chip.cells = programmed bus.chip.cells addr.toNat data := by
  induction rounds generalizing bus addr size data with
  | zero =>
    have empty : data = [] := List.length_eq_zero_iff.mp (by omega)
    refine ⟨idle,funext fun a => (programmed_outside ?_).symm⟩
    rw [empty,List.length_nil]
    omega
  | succ rounds ih =>
    by_cases done : size = 0
    · have empty : data = [] := List.length_eq_zero_iff.mp (by rw [length,done]; rfl)
      rw [writeLoop,if_pos done]
      refine ⟨idle,funext fun a => (programmed_outside ?_).symm⟩
      rw [empty,List.length_nil]
      omega
    · have some' : 0 < size.toNat := Nat.pos_of_ne_zero fun zero => done (UInt32.toNat_inj.mp zero)
      have chunk := pageChunk_toNat addr size
      have does := program_does probed (data.take (pageChunk addr size).toNat)
        (show addr.toNat < part.capacity from by unfold InPart at inside; omega)
      rw [writeLoop_round rounds bus data done] at succeeded ⊢
      obtain ⟨operated,rest⟩ := attempt_success.mp succeeded
      rw [attempt_after operated]
      obtain ⟨changed,still⟩ := operate_done does idle operated
      obtain ⟨addrNext,sizeNext⟩ := chunk_next inside (capacity_small probed)
      have below := Nat.mod_lt addr.toNat (show 0 < 256 from by decide)
      obtain ⟨stillIdle,later⟩ := ih _ _ _ _ (by rw [addrNext,sizeNext]; unfold InPart at inside ⊢; omega)
        (by rw [sizeNext,List.length_drop]; omega) (by rw [sizeNext]; omega) still rest
      refine ⟨stillIdle,?_⟩
      have taken : (data.take (pageChunk addr size).toNat).length = (pageChunk addr size).toNat := by
        rw [List.length_take]
        omega
      have whole := programmed_append bus.chip.cells addr.toNat (data.take (pageChunk addr size).toNat)
        (data.drop (pageChunk addr size).toNat)
      rw [later,changed,chunk_program,addrNext]
      rw [List.take_append_drop,taken] at whole
      exact whole.symm

theorem in_bounds (probed : Probed part flash) {addr size : UInt32} (inside : InPart part addr.toNat size.toNat) :
    ¬flash.capacity < addr + size := by
  have capacity := probed.capacity
  have small := capacity_small probed
  unfold InPart at inside
  rw [UInt32.lt_iff_toNat_lt,UInt32.toNat_add]
  omega

theorem finish_quiet (part : Part) (line : Line) (tried : Bus × SfudErr) : Quiet tried.1 (finish part line tried).1 := setWriteEnabled_quiet _ _ false tried.1

theorem sfudErase_cleared (line : Line) (probed : Probed part flash) (bus : Bus) {addr size : UInt32}
    (inside : InPart part addr.toNat size.toNat) :
    Cleared (Touched flash.eraseGran.size.toNat addr.toNat size.toNat) bus.chip.cells
      (sfudErase part flash line bus addr size).1.chip.cells := by
  rw [sfudErase,if_neg (in_bounds probed inside)]
  split
  · rename_i whole
    obtain ⟨rfl,rfl⟩ := whole
    rw [sfudChipErase_paged probed]
    refine Cleared.trans ?_ ((finish_quiet _ _ _).cleared _)
    rcases operate_cases flash line (chip_does part) bus with kept | changed
    · rw [kept]
      exact Cleared.refl _ _
    · rw [changed]
      refine (erase_cleared _ _ _).mono fun a within => ⟨a,Nat.zero_le a,?_,rfl⟩
      rw [← probed.capacity]
      exact within.2
  · exact (eraseLoop_cleared probed _ bus addr size inside).trans ((finish_quiet _ _ _).cleared _)

theorem sfudErase_erased (probed : Probed part flash) {addr size : UInt32} (inside : InPart part addr.toNat size.toNat)
    (idle : bus.chip.busy = 0) (succeeded : (sfudErase part flash line bus addr size).2 = .success) :
    (sfudErase part flash line bus addr size).1.chip.busy = 0 ∧
      ∀ a, addr.toNat ≤ a → a < addr.toNat + size.toNat →
        (sfudErase part flash line bus addr size).1.chip.cells a = 0xFF := by
  rw [sfudErase,if_neg (in_bounds probed inside)] at succeeded ⊢
  split
  · rename_i whole
    rw [if_pos whole,sfudChipErase_paged probed] at succeeded
    obtain ⟨rfl,rfl⟩ := whole
    rw [sfudChipErase_paged probed]
    obtain ⟨changed,still⟩ := operate_done (chip_does part) idle succeeded
    have last := finish_quiet part line (operate part flash line [cmdEraseChip] bus)
    refine ⟨last.idle still,fun a above below => ?_⟩
    rw [last.cells,changed]
    exact if_pos ⟨Nat.zero_le a,by rw [probed.capacity]; exact below⟩
  · rename_i some'
    rw [if_neg some'] at succeeded
    obtain ⟨still,erased⟩ := eraseLoop_erased probed _ bus addr size inside (Nat.le_refl _) idle succeeded
    have last := finish_quiet part line (eraseLoop part flash line size.toNat bus addr size)
    refine ⟨last.idle still,fun a above below => ?_⟩
    rw [last.cells]
    exact erased a above below

theorem sfudWrite_outside (probed : Probed part flash) (bus : Bus) {addr size : UInt32} (data : List UInt8)
    (inside : InPart part addr.toNat size.toNat) {a : Nat} (outside : ¬(addr.toNat ≤ a ∧ a < addr.toNat + size.toNat)) :
    (sfudWrite part flash line bus addr size data).1.chip.cells a = bus.chip.cells a := by
  rw [sfudWrite_paged probed,page256Or1ByteWrite,if_neg (in_bounds probed inside),(finish_quiet _ _ _).cells]
  exact writeLoop_outside probed _ bus addr size data inside outside

-- Page boundaries do not show: a write that is reported done has programmed its range
-- and nothing else.
theorem sfudWrite_done (probed : Probed part flash) {addr size : UInt32} {data : List UInt8}
    (inside : InPart part addr.toNat size.toNat) (length : data.length = size.toNat) (idle : bus.chip.busy = 0)
    (succeeded : (sfudWrite part flash line bus addr size data).2 = .success) :
    (sfudWrite part flash line bus addr size data).1.chip.busy = 0 ∧
      (sfudWrite part flash line bus addr size data).1.chip.cells = programmed bus.chip.cells addr.toNat data := by
  rw [sfudWrite_paged probed,page256Or1ByteWrite,if_neg (in_bounds probed inside)] at succeeded ⊢
  obtain ⟨still,changed⟩ := writeLoop_done probed _ bus addr size data inside length (Nat.le_refl _) idle succeeded
  have last := finish_quiet part line (writeLoop part flash line 256 size.toNat bus addr size data)
  exact ⟨last.idle still,last.cells.trans changed⟩

theorem read_transfer (chip : Chip) (busyFor : Nat) (rest : List UInt8) (readSize : Nat) :
    (chip.transfer part busyFor (cmdReadData :: rest) readSize).1 = chip := by
  unfold Chip.transfer
  dsimp only
  rw [if_neg (by decide : ¬cmdReadData = 0x05)]
  by_cases busy : 0 < chip.busy
  · rw [if_pos busy]
  · rw [if_neg busy,if_pos rfl]

theorem sfudRead_quiet (probed : Probed part flash) (bus : Bus) {addr size : UInt32} (inside : InPart part addr.toNat size.toNat) :
    Quiet bus (sfudRead part flash line bus addr size).1 := by
  have waited := waitBusy_quiet part line bus flash.retryTimes
  rw [sfudRead,if_neg (in_bounds probed inside)]
  dsimp only
  split
  · refine waited.trans ?_
    rcases wr_cases part line (waitBusy part line bus flash.retryTimes).1
      (cmdReadData :: makeAdressByteArray flash addr) size.toNat with ⟨kept,_⟩ | ⟨done,_⟩
    · exact ⟨congrArg Chip.cells kept,fun idle => (congrArg Chip.busy kept).trans idle⟩
    · rw [read_transfer] at done
      exact ⟨congrArg Chip.cells done,fun idle => (congrArg Chip.busy done).trans idle⟩
  · exact waited

theorem sfudRead_answer (probed : Probed part flash) {addr size : UInt32} (inside : InPart part addr.toNat size.toNat)
    (succeeded : (sfudRead part flash line bus addr size).2.1 = .success) :
    ∃ busyFor, (sfudRead part flash line bus addr size).2.2 =
        ((waitBusy part line bus flash.retryTimes).1.chip.transfer part busyFor
          (cmdReadData :: makeAdressByteArray flash addr) size.toNat).2 ∧
      (waitBusy part line bus flash.retryTimes).1.chip.busy = 0 := by
  rw [sfudRead,if_neg (in_bounds probed inside)] at succeeded ⊢
  dsimp only at succeeded ⊢
  by_cases ready : (waitBusy part line bus flash.retryTimes).2 = .success
  · rw [if_pos ready] at succeeded ⊢
    rcases wr_cases part line (waitBusy part line bus flash.retryTimes).1
      (cmdReadData :: makeAdressByteArray flash addr) size.toNat with ⟨_,failed⟩ | ⟨_,answer⟩
    · simp [spiWr,failed] at succeeded
    · have reported : ((waitBusy part line bus flash.retryTimes).1.wr part line
          (cmdReadData :: makeAdressByteArray flash addr) size.toNat).2.1 = true := by
        by_contra failed
        simp [spiWr,failed] at succeeded
      exact ⟨_,answer reported,waitBusy_idle _ _ ready⟩
  · rw [if_neg ready] at succeeded
    exact absurd succeeded ready

theorem sfudRead_data (probed : Probed part flash) {addr size : UInt32} (inside : InPart part addr.toNat size.toNat)
    (succeeded : (sfudRead part flash line bus addr size).2.1 = .success) :
    (sfudRead part flash line bus addr size).2.2 = (List.range size.toNat).map fun i => bus.chip.cells (addr.toNat + i) := by
  obtain ⟨busyFor,data,idle⟩ := sfudRead_answer probed inside succeeded
  rw [data]
  by_cases none' : size.toNat = 0
  · have length := transfer_length part busyFor (waitBusy part line bus flash.retryTimes).1.chip
      (cmdReadData :: makeAdressByteArray flash addr) size.toNat
    rw [none'] at length ⊢
    exact List.length_eq_zero_iff.mp length
  · obtain ⟨length,address'⟩ := address_array probed (show addr.toNat < part.capacity from by unfold InPart at inside; omega)
    rw [← (waitBusy_quiet part line bus flash.retryTimes).cells]
    simp only [Chip.transfer,idle,Nat.lt_irrefl,if_false]
    rw [List.take_of_length_le (Nat.le_of_eq length),address']
    rfl

-- What a caller of sfud_erase_write may rely on, whichever transfers fail: outside the
-- touched erase blocks nothing changes, and a success on a chip found idle is true.
structure EraseWriteHolds (part : Part) (flash : Flash) (line : Line) (bus : Bus) (addr : UInt32) (data : List UInt8) : Prop where
  elsewhere : ∀ a, ¬Touched flash.eraseGran.size.toNat addr.toNat data.length a →
    (sfudEraseWrite part flash line bus addr (UInt32.ofNat data.length) data).1.chip.cells a = bus.chip.cells a
  stored : bus.chip.busy = 0 → (sfudEraseWrite part flash line bus addr (UInt32.ofNat data.length) data).2 = .success →
    ∀ i (inside : i < data.length),
      (sfudEraseWrite part flash line bus addr (UInt32.ofNat data.length) data).1.chip.cells (addr.toNat + i) =
        data.get ⟨i,inside⟩
  settled : bus.chip.busy = 0 → (sfudEraseWrite part flash line bus addr (UInt32.ofNat data.length) data).2 = .success →
    (sfudEraseWrite part flash line bus addr (UInt32.ofNat data.length) data).1.chip.busy = 0

theorem length_toNat (probed : Probed part flash) {addr : UInt32} {data : List UInt8} (inside : InPart part addr.toNat data.length) :
    (UInt32.ofNat data.length).toNat = data.length := by
  have small := capacity_small probed
  unfold InPart at inside
  exact UInt32.toNat_ofNat_of_lt' (by show data.length < 2^32; omega)

theorem sfudEraseWrite_done (probed : Probed part flash) {addr : UInt32} {data : List UInt8}
    (inside : InPart part addr.toNat data.length) (idle : bus.chip.busy = 0)
    (succeeded : (sfudEraseWrite part flash line bus addr (UInt32.ofNat data.length) data).2 = .success) :
    (sfudEraseWrite part flash line bus addr (UInt32.ofNat data.length) data).1.chip.busy = 0 ∧
      ∀ i (inside : i < data.length),
        (sfudEraseWrite part flash line bus addr (UInt32.ofNat data.length) data).1.chip.cells (addr.toNat + i) =
          data.get ⟨i,inside⟩ := by
  have length := length_toNat probed inside
  have within : InPart part addr.toNat (UInt32.ofNat data.length).toNat := by rw [length]; exact inside
  obtain ⟨erased,written⟩ := attempt_success.mp succeeded
  obtain ⟨still,blank⟩ := sfudErase_erased probed within idle erased
  obtain ⟨ended,programmed'⟩ := sfudWrite_done probed within length.symm still written
  rw [sfudEraseWrite,attempt_after erased]
  refine ⟨ended,fun i there => ?_⟩
  rw [programmed']
  exact programmed_erased there (blank _ (by omega) (by rw [length]; omega))

theorem erase_write_holds (probed : Probed part flash) (line : Line) (bus : Bus) {addr : UInt32} {data : List UInt8}
    (inside : InPart part addr.toNat data.length) : EraseWriteHolds part flash line bus addr data := by
  have length := length_toNat probed inside
  have within : InPart part addr.toNat (UInt32.ofNat data.length).toNat := by rw [length]; exact inside
  constructor
  case elsewhere =>
    intro a untouched
    have erased : (sfudErase part flash line bus addr (UInt32.ofNat data.length)).1.chip.cells a = bus.chip.cells a := by
      rcases sfudErase_cleared line probed bus within a with kept | ⟨touched,_⟩
      · exact kept
      · rw [length] at touched
        exact absurd touched untouched
    refine attempt_rule (fun after => after.chip.cells a = bus.chip.cells a) erased fun _ => ?_
    rw [sfudWrite_outside probed _ data within,erased]
    rw [length]
    exact fun here => untouched ⟨a,here.1,here.2,rfl⟩
  case stored =>
    intro idle succeeded i there
    exact (sfudEraseWrite_done probed inside idle succeeded).2 i there
  case settled =>
    intro idle succeeded
    exact (sfudEraseWrite_done probed inside idle succeeded).1

theorem w25q128_erase_write_holds :
    EraseWriteHolds w25q128Part w25q128 ⟨fun k => if k % 7 = 5 then .unanswered else .ok,fun k => k % 3⟩ ⟨⟨fun _ => 0,false,0⟩,0⟩
      4090 (List.replicate 300 0x5A) :=
  erase_write_holds w25q128_probed _ _ (by unfold InPart; rw [List.length_replicate]; decide)

-- Every transfer is done, and no operation takes longer than the driver waits.
structure Answers (line : Line) (times : Nat) : Prop where
  acks : ∀ k, line.outcome k = .ok
  soon : ∀ k, line.busyFor k ≤ times

theorem spiSend_acked (part : Part) {times : Nat} (answers : Answers line times) (bus : Bus) (write : List UInt8) :
    (spiSend part line bus write).2 = .success ∧
      (spiSend part line bus write).1.chip = (bus.chip.transfer part (line.busyFor bus.transfers) write 0).1 := by
  simp [spiSend,spiWr,Bus.wr,answers.acks]

theorem readStatus_acked (part : Part) {times : Nat} (answers : Answers line times) (bus : Bus) :
    (sfudReadStatus part line bus).2.1 = .success ∧ (sfudReadStatus part line bus).2.2 = bus.chip.status ∧
      (sfudReadStatus part line bus).1.chip = bus.chip.poll := by
  simp [sfudReadStatus,spiWr,Bus.wr,answers.acks,Chip.transfer]

theorem waitBusy_acked (part : Part) {times : Nat} (answers : Answers line times) (bus : Bus) {tries : Nat} (soon : bus.chip.busy ≤ tries) :
    (waitBusy part line bus tries).2 = .success := by
  obtain ⟨read,status,polled⟩ := readStatus_acked part answers bus
  induction tries generalizing bus with
  | zero =>
    have idle := (status_busy bus.chip).mpr (Nat.le_zero.mp soon)
    unfold waitBusy
    dsimp only
    rw [if_pos ⟨read,by rw [status]; exact idle⟩]
  | succ tries ih =>
    unfold waitBusy
    dsimp only
    split
    · rfl
    · have fewer : (sfudReadStatus part line bus).1.chip.busy ≤ tries := by
        rw [polled]
        show bus.chip.busy - 1 ≤ tries
        omega
      obtain ⟨read',status',polled'⟩ := readStatus_acked part answers (sfudReadStatus part line bus).1
      exact ih _ fewer read' status' polled'

theorem enable_acked (part : Part) {times : Nat} (answers : Answers line times) (idle : bus.chip.busy = 0) :
    (setWriteEnabled part line true bus).2 = .success := by
  obtain ⟨sent,_⟩ := spiSend_acked part answers bus [latchCommand true]
  obtain ⟨quiet,latched⟩ := control_chip part line true bus
  obtain ⟨read,status,_⟩ := readStatus_acked part answers (spiSend part line bus [latchCommand true]).1
  have set : ¬(spiSend part line bus [latchCommand true]).1.chip.status &&& 2 = 0 := by
    rw [status_wel,latched idle sent]
    decide
  unfold setWriteEnabled
  rw [attempt_after sent]
  dsimp only
  rw [attempt_after read,status]
  simp [latchChecked,set]

theorem operate_acked (part : Part) (answers : Answers line flash.retryTimes) (write : List UInt8) (idle : bus.chip.busy = 0) :
    (operate part flash line write bus).2 = .success := by
  have enabled := enable_acked part answers idle
  have still := (setWriteEnabled_quiet part line true bus).idle idle
  obtain ⟨sent,chip⟩ := spiSend_acked part answers (setWriteEnabled part line true bus).1 write
  have soon : (spiSend part line (setWriteEnabled part line true bus).1 write).1.chip.busy ≤ flash.retryTimes := by
    rw [chip]
    refine Nat.le_trans (transfer_busyFor _ _ _ _) ?_
    rw [still,Nat.zero_max]
    exact answers.soon _
  unfold operate
  rw [attempt_after enabled,attempt_after sent]
  exact waitBusy_acked part answers _ soon

theorem eraseLoop_acked (probed : Probed part flash) (answers : Answers line flash.retryTimes) (rounds : Nat) (bus : Bus)
    (addr size : UInt32) (inside : InPart part addr.toNat size.toNat) (idle : bus.chip.busy = 0) :
    (eraseLoop part flash line rounds bus addr size).2 = .success := by
  induction rounds generalizing bus addr size with
  | zero => rfl
  | succ rounds ih =>
    by_cases done : size = 0
    · rw [eraseLoop,if_pos done]
    · have some' : 0 < size.toNat := Nat.pos_of_ne_zero fun zero => done (UInt32.toNat_inj.mp zero)
      have does := erase_does probed (current_suitable probed addr size)
        (show addr.toNat < part.capacity from by unfold InPart at inside; omega)
      have operated := fun write => operate_acked part answers write idle
      rw [eraseLoop_round rounds bus done,attempt_after (operated _)]
      split
      · rename_i less
        obtain ⟨addrNext,sizeNext⟩ := rest_toNat inside (capacity_small probed) less
        have below := UInt32.lt_iff_toNat_lt.mp less
        refine ih _ _ _ ?_ (operate_done does idle (operated _)).2
        rw [addrNext,sizeNext]
        unfold InPart at inside ⊢
        omega
      · rfl

theorem writeLoop_acked (probed : Probed part flash) (answers : Answers line flash.retryTimes) (rounds : Nat) (bus : Bus)
    (addr size : UInt32) (data : List UInt8) (inside : InPart part addr.toNat size.toNat) (idle : bus.chip.busy = 0) :
    (writeLoop part flash line 256 rounds bus addr size data).2 = .success := by
  induction rounds generalizing bus addr size data with
  | zero => rfl
  | succ rounds ih =>
    by_cases done : size = 0
    · rw [writeLoop,if_pos done]
    · have some' : 0 < size.toNat := Nat.pos_of_ne_zero fun zero => done (UInt32.toNat_inj.mp zero)
      have does := program_does probed (data.take (pageChunk addr size).toNat)
        (show addr.toNat < part.capacity from by unfold InPart at inside; omega)
      have operated := fun write => operate_acked part answers write idle
      have chunk := pageChunk_toNat addr size
      obtain ⟨addrNext,sizeNext⟩ := chunk_next inside (capacity_small probed)
      rw [writeLoop_round rounds bus data done,attempt_after (operated _)]
      refine ih _ _ _ _ ?_ (operate_done does idle (operated _)).2
      rw [addrNext,sizeNext]
      unfold InPart at inside ⊢
      omega

theorem sfudErase_acked (probed : Probed part flash) (answers : Answers line flash.retryTimes) {addr size : UInt32}
    (inside : InPart part addr.toNat size.toNat) (idle : bus.chip.busy = 0) :
    (sfudErase part flash line bus addr size).2 = .success := by
  rw [sfudErase,if_neg (in_bounds probed inside)]
  split
  · rw [sfudChipErase_paged probed]
    exact operate_acked part answers _ idle
  · exact eraseLoop_acked probed answers _ bus addr _ inside idle

theorem sfudWrite_acked (probed : Probed part flash) (answers : Answers line flash.retryTimes) {addr size : UInt32}
    (data : List UInt8) (inside : InPart part addr.toNat size.toNat) (idle : bus.chip.busy = 0) :
    (sfudWrite part flash line bus addr size data).2 = .success := by
  rw [sfudWrite_paged probed,page256Or1ByteWrite,if_neg (in_bounds probed inside)]
  exact writeLoop_acked probed answers _ bus addr _ data inside idle

theorem erase_write_succeeds (probed : Probed part flash) (answers : Answers line flash.retryTimes) {addr : UInt32}
    {data : List UInt8} (inside : InPart part addr.toNat data.length) (idle : bus.chip.busy = 0) :
    (sfudEraseWrite part flash line bus addr (UInt32.ofNat data.length) data).2 = .success := by
  have length := length_toNat probed inside
  have within : InPart part addr.toNat (UInt32.ofNat data.length).toNat := by rw [length]; exact inside
  have erased := sfudErase_acked probed answers within idle
  rw [sfudEraseWrite,attempt_after erased]
  exact sfudWrite_acked probed answers data within (sfudErase_erased probed within idle erased).1

theorem sfudRead_acked (probed : Probed part flash) (answers : Answers line flash.retryTimes) {addr size : UInt32}
    (inside : InPart part addr.toNat size.toNat) (idle : bus.chip.busy = 0) :
    (sfudRead part flash line bus addr size).2.1 = .success := by
  have waited := waitBusy_acked part answers bus (show bus.chip.busy ≤ flash.retryTimes from by omega)
  rw [sfudRead,if_neg (in_bounds probed inside)]
  dsimp only
  rw [if_pos waited]
  simp [spiWr,Bus.wr,answers.acks]

end SssAlarmHost.Sfud
