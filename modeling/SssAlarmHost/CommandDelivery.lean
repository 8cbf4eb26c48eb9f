import SssAlarmHost.AlphaCommands
import SssAlarmHost.OutputLoops

namespace SssAlarmHost.AlphaCommands
open LittleEndian FrameParser

-- The commands a 128-byte receive buffer can hold: up to 108 data bytes to send.
inductive Command where
  | openRx (p : OpenRxParam)
  | openTx (p : OpenTxParam) (short : p.txDataLen.toNat ≤ 108)

def Command.written : Command → Option (List UInt8)
  | .openRx p => openLoraRxEntry p
  | .openTx p _ => openLoraTxEntry p

def Command.payload : Command → List UInt8
  | .openRx p => [SerPktType.cmd.code,AlphaEventAccess.loraOpenRx.code] ++ p.bytes
  | .openTx p _ => [SerPktType.cmd.code,AlphaEventAccess.loraOpenTx.code] ++ p.bytes.take (16 + p.txDataLen.toNat)

def writeAll : List Command → Option (List UInt8)
  | [] => some []
  | c :: rest => do
    let first ← c.written
    let more ← writeAll rest
    return first ++ more

theorem rx_pkg_len (p : OpenRxParam) : (openLoraRxPkgEnc p).txPkgLen.toNat = 16 := rfl

theorem tx_pkg_len (p : OpenTxParam) : (openLoraTxPkgEnc p).txPkgLen.toNat = 18 + p.txDataLen.toNat := by
  have bound := p.txDataLen.toNat_lt
  simp only [openLoraTxPkgEnc,UInt16.toNat_add,UInt8.toNat_toUInt16,UInt16.reduceToNat]
  omega

theorem payload_length (c : Command) : c.payload.length =
    match c with
    | .openRx _ => 16
    | .openTx p _ => 18 + p.txDataLen.toNat := by
  cases c with
  | openRx p => rfl
  | openTx p short =>
    simp only [Command.payload,List.length_append,List.length_take,OpenTxParam.bytes_length,List.length_cons,
      List.length_nil]
    omega

-- The length field counts what follows it, so the written bytes are one frame.
theorem written_frame (c : Command) : c.written = some (encodeFrame c.payload) := by
  have length := payload_length c
  cases c with
  | openRx p =>
    have image := writePkg_image (openLoraRxPkgEnc p) (by rw [rx_pkg_len]; decide) (by rw [rx_pkg_len]; decide)
      (by rw [rx_pkg_len]; exact Nat.le_refl _)
    rw [rx_pkg_len] at image
    have all : (openLoraRxPkgEnc p).dataBuff.take (16-2) = p.bytes := List.take_of_length_le (Nat.le_refl _)
    rw [Command.written,openLoraRxEntry,image,all]
    rfl
  | openTx p short =>
    have image := writePkg_image (openLoraTxPkgEnc p) (by rw [tx_pkg_len]; omega) (by rw [tx_pkg_len]; omega)
      (by rw [tx_pkg_len]; simp only [openLoraTxPkgEnc,OpenTxParam.bytes_length]; omega)
    have size : (openLoraTxPkgEnc p).txPkgLen.toNat - 2 = 16 + p.txDataLen.toNat := by rw [tx_pkg_len]; omega
    have word : (openLoraTxPkgEnc p).txPkgLen = UInt16.ofNat (Command.openTx p short).payload.length := by
      apply UInt16.toNat_inj.mp
      rw [tx_pkg_len,length,UInt16.toNat_ofNat']
      exact (Nat.mod_eq_of_lt (by omega)).symm
    rw [size] at image
    rw [Command.written,openLoraTxEntry,image,encodeFrame,← word,SerPkgToAlpha.header]
    simp [Command.payload,openLoraTxPkgEnc]

def Command.frame (c : Command) : Frame where
  payload := c.payload
  positive := by rw [payload_length]; split <;> omega
  fits := by
    rw [payload_length]
    cases c with
    | openRx p => simp only; omega
    | openTx p short => simp only; omega

theorem writeAll_wire (cmds : List Command) : writeAll cmds = some (wire (cmds.map Command.frame)) := by
  induction cmds with
  | nil => rfl
  | cons c rest ih => simp [writeAll,written_frame,ih,wire,Command.frame]

def byteAt (payload : List UInt8) (offset : Nat) : UInt8 := payload.getD offset 0

def wordAt (payload : List UInt8) (offset : Nat) : UInt32 :=
  word32 (byteAt payload offset) (byteAt payload (offset+1)) (byteAt payload (offset+2)) (byteAt payload (offset+3))

def boolAt (payload : List UInt8) (offset : Nat) : Bool := byteAt payload offset != 0

def readRx (payload : List UInt8) : OpenRxParam :=
  ⟨wordAt payload 2,wordAt payload 6,wordAt payload 10,boolAt payload 14,boolAt payload 15⟩

structure TxFields where
  freq : UInt32
  power : Int8
  bandwidth : UInt32
  daterate : UInt32
  crcon : Bool
  iqinverted : Bool
  txDataLen : UInt8
  txData : List UInt8

def readTx (payload : List UInt8) : TxFields :=
  ⟨wordAt payload 2,(byteAt payload 6).toInt8,wordAt payload 7,wordAt payload 11,boolAt payload 15,boolAt payload 16,
    byteAt payload 17,(payload.drop 18).take (byteAt payload 17).toNat⟩

def OpenTxParam.fields (p : OpenTxParam) : TxFields :=
  ⟨p.freq,p.power,p.bandwidth,p.daterate,p.crcon,p.iqinverted,p.txDataLen,p.txData.toList.take p.txDataLen.toNat⟩

theorem boolByte_read (b : Bool) : (boolByte b != 0) = b := by cases b <;> rfl

theorem readRx_payload (p : OpenRxParam) : readRx (Command.openRx p).payload = p := by
  have crcon := boolByte_read p.crcon
  have iqinverted := boolByte_read p.iqinverted
  simp only [readRx,wordAt,boolAt,byteAt,Command.payload,OpenRxParam.bytes,bytes32,List.cons_append,List.nil_append,
    List.getD_cons_succ,List.getD_cons_zero,word32_bytes,crcon,iqinverted]

theorem tx_bytes_take (p : OpenTxParam) (n : Nat) : p.bytes.take (16+n) =
    bytes32 p.freq ++ [p.power.toUInt8] ++ bytes32 p.bandwidth ++ bytes32 p.daterate ++
      [boolByte p.crcon,boolByte p.iqinverted,p.txDataLen] ++ p.txData.toList.take n := by
  have size : 16 + n = (bytes32 p.freq ++ [p.power.toUInt8] ++ bytes32 p.bandwidth ++ bytes32 p.daterate ++
      [boolByte p.crcon,boolByte p.iqinverted,p.txDataLen]).length + n := by simp
  rw [OpenTxParam.bytes,size,List.take_length_add_append]

theorem readTx_payload (p : OpenTxParam) (short : p.txDataLen.toNat ≤ 108) :
    readTx (Command.openTx p short).payload = p.fields := by
  have crcon := boolByte_read p.crcon
  have iqinverted := boolByte_read p.iqinverted
  simp only [readTx,wordAt,boolAt,byteAt,Command.payload,tx_bytes_take,bytes32,List.cons_append,List.nil_append,
    List.getD_cons_succ,List.getD_cons_zero,List.drop_succ_cons,List.drop_zero,word32_bytes,
    crcon,iqinverted,OpenTxParam.fields,List.take_take,Nat.min_self]
  rfl

def Command.ReadsBack (c : Command) : Prop :=
  byteAt c.payload 0 = SerPktType.cmd.code ∧
    match c with
    | .openRx p => c.payload.length = 2 + 14 ∧ byteAt c.payload 1 = AlphaEventAccess.loraOpenRx.code ∧
        readRx c.payload = p
    | .openTx p _ => c.payload.length = 2 + (16 + p.txDataLen.toNat) ∧
        byteAt c.payload 1 = AlphaEventAccess.loraOpenTx.code ∧ readTx c.payload = p.fields

theorem reads_back (c : Command) : c.ReadsBack := by
  have length := payload_length c
  cases c with
  | openRx p => exact ⟨rfl,length,rfl,readRx_payload p⟩
  | openTx p short =>
    refine ⟨rfl,?_,rfl,readTx_payload p short⟩
    simp only [] at length
    omega

-- The write loops end, what they wrote is one frame a command, and each frame is
-- sent on as a payload from which the packed layouts read the parameters back.
theorem commands_delivered (beyond : Beyond) (reply : Nat → RtErr) (pkg : Fin 128 → UInt8) (len : UInt16) (cmds : List Command) :
    ∃ bytes, writeAll cmds = some bytes ∧
      sends (feed beyond (answer reply) (entry pkg len,⟨0,[]⟩) bytes).2 =
        cmds.zipIdx.map (fun one => (one.1.payload,reply one.2)) ∧
      ∀ c ∈ cmds, c.ReadsBack := by
  refine ⟨_,writeAll_wire cmds,?_,fun c _ => reads_back c⟩
  have delivered := frames_delivered beyond reply (cmds.map Command.frame) (s := entry pkg len) rfl ⟨0,[]⟩
  rw [delivered.sent,List.zipIdx_map,List.map_map]
  rfl

end SssAlarmHost.AlphaCommands

namespace SssAlarmHost.AlphaCommands
open OutputLoops

theorem writeLoop_collect (pkg : SerPkgToAlpha) (rounds : Nat) (s : WriteLoop) :
    writeLoop pkg rounds s = collect (writeStep pkg) rounds s := by
  induction rounds generalizing s with
  | zero => rfl
  | succ rounds ih =>
    unfold writeLoop collect
    split <;> simp [*]

-- The transmit loop of open_lora_tx_entry, and of open_lora_tx, from its start.
def Transmits (p : OpenTxParam) (written : List UInt8) : Prop :=
  Ends (writeStep (openLoraTxPkgEnc p)) ⟨0,.pkg 0⟩ written

-- The loop ends, after the four header bytes and the first 16 + tx_data_len bytes
-- of the parameters.
def SendsPacket (p : OpenTxParam) : Prop := ∃ written, Transmits p written ∧
  written.length = (openLoraTxPkgEnc p).txPkgLen.toNat + 2 ∧
  written = (openLoraTxPkgEnc p).header ++ p.bytes.take (16 + p.txDataLen.toNat)

theorem short_transmits (p : OpenTxParam) (short : p.txDataLen.toNat ≤ 235) : SendsPacket p := by
  have length := tx_pkg_len p
  have image := writePkg_image (openLoraTxPkgEnc p) (by omega) (by omega)
    (by simp only [openLoraTxPkgEnc,OpenTxParam.bytes_length] at length ⊢; omega)
  have data : (openLoraTxPkgEnc p).txPkgLen.toNat - 2 = 16 + p.txDataLen.toNat := by omega
  rw [data,writePkg,writeLoop_collect] at image
  refine ⟨_,⟨256,image⟩,?_,rfl⟩
  simp only [List.length_append,header_length,List.length_take,openLoraTxPkgEnc,OpenTxParam.bytes_length] at length ⊢
  omega

theorem long_never_ends (pkg : SerPkgToAlpha) (long : 254 ≤ pkg.txPkgLen.toNat) (s : WriteLoop) (rounds : Nat) :
    collect (writeStep pkg) rounds s = none := by
  refine never_ends (fun _ => True) (fun s _ => ?_) trivial rounds
  have counter := s.i.toNat_lt
  have bound := pkg.txPkgLen.toNat_lt
  have going : s.i.toUInt32 < pkg.txPkgLen.toUInt32 + 2 := by
    simp only [UInt32.lt_iff_toNat_lt,UInt8.toNat_toUInt32,UInt32.toNat_add,UInt16.toNat_toUInt32,UInt32.reduceToNat]
    omega
  exact ⟨_,_,by rw [writeStep,if_pos going],trivial⟩

theorem transmit_ends_iff (p : OpenTxParam) : SendsPacket p ↔ p.txDataLen.toNat ≤ 235 := by
  constructor
  · rintro ⟨written,⟨rounds,ran⟩,_⟩
    by_contra long
    have never := long_never_ends (openLoraTxPkgEnc p) (by rw [tx_pkg_len]; omega) ⟨0,.pkg 0⟩ rounds
    rw [never] at ran
    cases ran
  · exact short_transmits p

def openLoraTxParam (txDataLen : UInt8) (txData : Vector UInt8 255) : OpenTxParam :=
  ⟨433000000,14,0,11,false,false,txDataLen,txData⟩

-- 236 bytes of data make a packet of 256 bytes.
theorem transmit_never_ends : ¬ ∀ p : OpenTxParam, SendsPacket p := by
  intro all
  obtain ⟨written,⟨rounds,ran⟩,_⟩ := all (openLoraTxParam 236 (Vector.replicate 255 0))
  rw [long_never_ends _ (by decide) _ rounds] at ran
  cases ran

-- The shell command sends ten bytes from its stack, whatever follows them there.
def openLoraTx (stack : Vector UInt8 255) : OpenTxParam :=
  openLoraTxParam 10 (Vector.ofFn fun i => if i.val < 10 then UInt8.ofNat (i.val+1) else stack[i])

theorem open_lora_tx_ends (stack : Vector UInt8 255) : SendsPacket (openLoraTx stack) :=
  short_transmits _ (show (10 : UInt8).toNat ≤ 235 by decide)

end SssAlarmHost.AlphaCommands
