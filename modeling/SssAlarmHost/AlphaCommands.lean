import SssAlarmHost.FrameDelivery

namespace SssAlarmHost.AlphaCommands
open LittleEndian FrameParser

inductive SerPktType where
  | cmd | resp | evt | dtmCmd | dtmResp | resetCmd
  deriving DecidableEq, Repr

def SerPktType.code : SerPktType → UInt8
  | .cmd => 0 | .resp => 1 | .evt => 2 | .dtmCmd => 3 | .dtmResp => 4 | .resetCmd => 5

inductive AlphaEventAccess where
  | alive | loraSleep | loraOpenRx | loraOpenTx | readLoraRxBuf
  | bleOpenScan | bleCloseScan | bleOpenAdv | readBleEventsBuf
  deriving DecidableEq, Repr

def AlphaEventAccess.code : AlphaEventAccess → UInt8
  | .alive => 1 | .loraSleep => 2 | .loraOpenRx => 3 | .loraOpenTx => 4 | .readLoraRxBuf => 5
  | .bleOpenScan => 0x0A | .bleCloseScan => 0x0B | .bleOpenAdv => 0x0C | .readBleEventsBuf => 0x0D

structure OpenRxParam where
  freq : UInt32
  bandwidth : UInt32
  daterate : UInt32
  crcon : Bool
  iqinverted : Bool
  deriving DecidableEq, Repr

structure OpenTxParam where
  freq : UInt32
  power : Int8
  bandwidth : UInt32
  daterate : UInt32
  crcon : Bool
  iqinverted : Bool
  txDataLen : UInt8
  txData : Vector UInt8 255

def boolByte (b : Bool) : UInt8 := if b then 1 else 0

-- The packed little-endian layouts, bool in one byte.
def OpenRxParam.bytes (p : OpenRxParam) : List UInt8 :=
  bytes32 p.freq ++ bytes32 p.bandwidth ++ bytes32 p.daterate ++ [boolByte p.crcon,boolByte p.iqinverted]

def OpenTxParam.bytes (p : OpenTxParam) : List UInt8 :=
  bytes32 p.freq ++ [p.power.toUInt8] ++ bytes32 p.bandwidth ++ bytes32 p.daterate ++
    [boolByte p.crcon,boolByte p.iqinverted,p.txDataLen] ++ p.txData.toList

-- data_buff stands for the memory it points to.
structure SerPkgToAlpha where
  txPkgLen : UInt16
  commandType : UInt8
  itemsIndex : UInt8
  dataBuff : List UInt8

def openLoraRxPkgEnc (p : OpenRxParam) : SerPkgToAlpha :=
  ⟨14 + 1 + 1,SerPktType.cmd.code,AlphaEventAccess.loraOpenRx.code,p.bytes⟩

def openLoraTxPkgEnc (p : OpenTxParam) : SerPkgToAlpha :=
  let paramLen : UInt16 := 4 + 1 + 4 + 4 + 1 + 1 + 1 + p.txDataLen.toUInt16
  ⟨paramLen + 1 + 1,SerPktType.cmd.code,AlphaEventAccess.loraOpenTx.code,p.bytes⟩

-- Where p of the write loops points: into the packed header or into data_buff.
inductive Ptr where
  | pkg (offset : Nat)
  | data (offset : Nat)
  deriving DecidableEq, Repr

def Ptr.next : Ptr → Ptr
  | .pkg offset => .pkg (offset+1)
  | .data offset => .data (offset+1)

def SerPkgToAlpha.header (pkg : SerPkgToAlpha) : List UInt8 :=
  bytes16 pkg.txPkgLen ++ [pkg.commandType,pkg.itemsIndex]

def SerPkgToAlpha.read (pkg : SerPkgToAlpha) : Ptr → UInt8
  | .pkg offset => pkg.header.getD offset 0
  | .data offset => pkg.dataBuff.getD offset 0

structure WriteLoop where
  i : UInt8
  p : Ptr
  deriving DecidableEq, Repr

def writeStep (pkg : SerPkgToAlpha) (s : WriteLoop) : Option (UInt8 × WriteLoop) :=
  if s.i.toUInt32 < pkg.txPkgLen.toUInt32 + 2 then
    some (pkg.read s.p,⟨s.i + 1,if s.i = 3 then .data 0 else s.p.next⟩)
  else none

def writeLoop (pkg : SerPkgToAlpha) : Nat → WriteLoop → Option (List UInt8)
  | 0,_ => none
  | rounds+1,s => match writeStep pkg s with
    | none => some []
    | some (ch,next) => (writeLoop pkg rounds next).map (ch :: ·)

-- The counter has eight bits: 256 rounds see each of its values once, and a loop
-- that none of them ended has no end.
def writePkg (pkg : SerPkgToAlpha) : Option (List UInt8) := writeLoop pkg 256 ⟨0,.pkg 0⟩

def openLoraRxEntry (p : OpenRxParam) : Option (List UInt8) := writePkg (openLoraRxPkgEnc p)
def openLoraTxEntry (p : OpenTxParam) : Option (List UInt8) := writePkg (openLoraTxPkgEnc p)

@[simp] theorem OpenRxParam.bytes_length (p : OpenRxParam) : p.bytes.length = 14 := rfl
@[simp] theorem OpenTxParam.bytes_length (p : OpenTxParam) : p.bytes.length = 271 := by
  simp [OpenTxParam.bytes]

@[simp] theorem header_length (pkg : SerPkgToAlpha) : pkg.header.length = 4 := rfl

def ptrAt (i : Nat) : Ptr := if i < 4 then .pkg i else .data (i-4)

def SerPkgToAlpha.image (pkg : SerPkgToAlpha) : List UInt8 := pkg.header ++ pkg.dataBuff

theorem read_ptrAt (pkg : SerPkgToAlpha) (i : Nat) : pkg.read (ptrAt i) = pkg.image.getD i 0 := by
  unfold ptrAt
  by_cases early : i < 4
  · simp only [early,if_true,SerPkgToAlpha.read,SerPkgToAlpha.image,List.getD_eq_getElem?_getD]
    rw [List.getElem?_append_left (by simpa using early)]
  · simp only [early,if_false,SerPkgToAlpha.read,SerPkgToAlpha.image,List.getD_eq_getElem?_getD]
    rw [List.getElem?_append_right (by simp; omega),header_length]

-- Round i writes byte i of the header and the parameters taken as one text: the
-- pointer leaves the header exactly when the header is written.
theorem writeStep_at (pkg : SerPkgToAlpha) {i : Nat} (small : i < 256) (running : i < pkg.txPkgLen.toNat + 2) :
    writeStep pkg ⟨UInt8.ofNat i,ptrAt i⟩ =
      some (pkg.image.getD i 0,⟨UInt8.ofNat (i+1),ptrAt (i+1)⟩) := by
  have bound := pkg.txPkgLen.toNat_lt
  have test : (UInt8.ofNat i).toUInt32 < pkg.txPkgLen.toUInt32 + 2 := by
    simp only [UInt32.lt_iff_toNat_lt,UInt8.toNat_toUInt32,UInt8.toNat_ofNat',UInt32.toNat_add,
      UInt16.toNat_toUInt32,UInt32.reduceToNat]
    omega
  have counter : UInt8.ofNat i + 1 = UInt8.ofNat (i+1) := by
    apply UInt8.toNat_inj.mp
    simp [UInt8.toNat_ofNat']
  have moved : (if UInt8.ofNat i = 3 then Ptr.data 0 else (ptrAt i).next) = ptrAt (i+1) := by
    have three : UInt8.ofNat i = 3 ↔ i = 3 := by
      rw [← UInt8.toNat_inj,UInt8.toNat_ofNat']
      simp only [UInt8.reduceToNat]
      omega
    simp only [three]
    unfold ptrAt
    split
    · subst i; rfl
    · split
      · have inside : i + 1 < 4 := by omega
        simp [Ptr.next,inside]
      · have outside : ¬i + 1 < 4 := by omega
        have offset : i + 1 - 4 = i - 4 + 1 := by omega
        simp [Ptr.next,outside,offset]
  simp only [writeStep,test,if_true,read_ptrAt,counter,moved]

theorem writeStep_ends (pkg : SerPkgToAlpha) {i : Nat} (small : i < 256) (ended : pkg.txPkgLen.toNat + 2 ≤ i) (p : Ptr) :
    writeStep pkg ⟨UInt8.ofNat i,p⟩ = none := by
  have test : ¬(UInt8.ofNat i).toUInt32 < pkg.txPkgLen.toUInt32 + 2 := by
    simp only [UInt32.lt_iff_toNat_lt,UInt8.toNat_toUInt32,UInt8.toNat_ofNat',UInt32.toNat_add,
      UInt16.toNat_toUInt32,UInt32.reduceToNat]
    omega
  simp only [writeStep,test,if_false]

theorem writeLoop_rest (pkg : SerPkgToAlpha) (rest rounds i : Nat) (total : i + rest = pkg.txPkgLen.toNat + 2)
    (short : pkg.txPkgLen.toNat + 2 < 256) (enough : rest < rounds) :
    writeLoop pkg rounds ⟨UInt8.ofNat i,ptrAt i⟩ =
      some ((List.range' i rest).map fun k => pkg.image.getD k 0) := by
  induction rest generalizing i rounds with
  | zero =>
    obtain ⟨rounds,rfl⟩ : ∃ k, rounds = k+1 := ⟨rounds-1,by omega⟩
    simp [writeLoop,writeStep_ends pkg (i := i) (by omega) (by omega)]
  | succ rest ih =>
    obtain ⟨rounds,rfl⟩ : ∃ k, rounds = k+1 := ⟨rounds-1,by omega⟩
    have step := writeStep_at pkg (i := i) (by omega) (by omega)
    have more := ih rounds (i+1) (by omega) (by omega)
    simp only [writeLoop,step,more,List.range'_succ,Option.map_some,List.map_cons]

theorem range_image (bytes : List UInt8) (n : Nat) (inside : n ≤ bytes.length) :
    ((List.range' 0 n).map fun k => bytes.getD k 0) = bytes.take n := by
  apply List.ext_getElem
  · simp; omega
  · intro k left right
    have bound : k < bytes.length := by simp at left; omega
    simp [List.getElem?_eq_getElem bound]

theorem writePkg_image (pkg : SerPkgToAlpha) (short : pkg.txPkgLen.toNat + 2 < 256) (large : 2 ≤ pkg.txPkgLen.toNat)
    (inside : pkg.txPkgLen.toNat ≤ pkg.dataBuff.length + 2) :
    writePkg pkg = some (pkg.header ++ pkg.dataBuff.take (pkg.txPkgLen.toNat - 2)) := by
  have run := writeLoop_rest pkg (pkg.txPkgLen.toNat + 2) 256 0 (by omega) short (by omega)
  have start : (⟨0,.pkg 0⟩ : WriteLoop) = ⟨UInt8.ofNat 0,ptrAt 0⟩ := rfl
  have split : pkg.txPkgLen.toNat + 2 = pkg.header.length + (pkg.txPkgLen.toNat - 2) := by
    rw [header_length]; omega
  rw [writePkg,start,run,range_image _ _ (by simp [SerPkgToAlpha.image]; omega),split,SerPkgToAlpha.image,
    List.take_length_add_append]

end SssAlarmHost.AlphaCommands
