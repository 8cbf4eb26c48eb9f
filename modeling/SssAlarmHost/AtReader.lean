import Mathlib.Data.List.Infix

namespace SssAlarmHost.AtClient

abbrev carriageReturn : UInt8 := 13
abbrev lineFeed : UInt8 := 10

-- struct at_urc; its strings are the bytes before the zero.
structure Urc where
  cmdPrefix : List UInt8
  cmdSuffix : List UInt8
  deriving DecidableEq

-- What at_client_init and the setters leave for the receiving side.
structure Config where
  recvBufsz : Nat
  endSign : UInt8
  urcTable : List (List Urc)

def Urc.matches (urc : Urc) (buffer : List UInt8) : Bool :=
  if buffer.length < urc.cmdPrefix.length + urc.cmdSuffix.length then false
  else decide (urc.cmdPrefix <+: buffer) && decide (urc.cmdSuffix <:+ buffer)

def getUrcObj (config : Config) (buffer : List UInt8) : Option Urc :=
  config.urcTable.flatten.find? fun urc => urc.matches buffer

-- at_recv_readline between two characters: recv_line_buf up to recv_line_len, and its
-- locals last_ch and is_full.
structure Reader where
  lineBuf : List UInt8
  lastCh : UInt8
  isFull : Bool
  deriving DecidableEq

def Reader.fresh : Reader := ⟨[],0,false⟩

inductive Read where
  | line (buffer : List UInt8)
  | full
  deriving DecidableEq

section Reading
variable (config : Config)

-- A character of the device, and what at_recv_readline returns with it. The next call
-- starts afresh.
def readChar (r : Reader) (ch : UInt8) : Reader × Option Read :=
  let lineBuf := if r.lineBuf.length < config.recvBufsz then r.lineBuf ++ [ch] else r.lineBuf
  let isFull := if r.lineBuf.length < config.recvBufsz then r.isFull else true
  if (ch = lineFeed ∧ r.lastCh = carriageReturn) ∨ (config.endSign ≠ 0 ∧ ch = config.endSign) ∨ getUrcObj config lineBuf ≠ none then
    (.fresh,some (if isFull then .full else .line lineBuf))
  else (⟨lineBuf,ch,isFull⟩,none)

def readStream (r : Reader) : List UInt8 → Reader × List Read
  | [] => (r,[])
  | ch :: rest =>
    let first := readChar config r ch
    let more := readStream first.1 rest
    (more.1,first.2.toList ++ more.2)

-- Where a line ends, by its bytes alone. The table is looked up in what the buffer holds.
def Ends (bytes : List UInt8) : Prop :=
  [carriageReturn,lineFeed] <:+ bytes ∨ (config.endSign ≠ 0 ∧ bytes.getLast? = some config.endSign) ∨
    getUrcObj config (bytes.take config.recvBufsz) ≠ none

instance (bytes : List UInt8) : Decidable (Ends config bytes) := inferInstanceAs (Decidable (_ ∨ _ ∨ _))

def Open (bytes : List UInt8) : Prop := ∀ start, start <+: bytes → start ≠ [] → ¬Ends config start

structure Segment (bytes : List UInt8) : Prop where
  something : bytes ≠ []
  ends : Ends config bytes
  before : Open config bytes.dropLast

def readOf (bytes : List UInt8) : Read := if bytes.length ≤ config.recvBufsz then .line bytes else .full

def readerOf (bytes : List UInt8) : Reader :=
  ⟨bytes.take config.recvBufsz,bytes.getLast?.getD 0,config.recvBufsz < bytes.length⟩

end Reading

variable {config : Config}

theorem readStream_append (r : Reader) (first second : List UInt8) :
    readStream config r (first ++ second) = ((readStream config (readStream config r first).1 second).1,
      (readStream config r first).2 ++ (readStream config (readStream config r first).1 second).2) := by
  induction first generalizing r with
  | nil => rfl
  | cons ch rest ih =>
    rw [List.cons_append,readStream,ih]
    simp [readStream]

theorem readerOf_nil : readerOf config [] = .fresh := by simp [readerOf,Reader.fresh]

theorem newline_suffix (bytes : List UInt8) (ch : UInt8) :
    [carriageReturn,lineFeed] <:+ bytes ++ [ch] ↔ ch = lineFeed ∧ bytes.getLast?.getD 0 = carriageReturn := by
  constructor
  · rintro ⟨text,same⟩
    obtain ⟨rfl,last⟩ := List.append_inj' (show (text ++ [carriageReturn]) ++ [lineFeed] = bytes ++ [ch] by simpa using same) rfl
    refine ⟨(List.singleton_inj.mp last).symm,by simp⟩
  · rintro ⟨rfl,last⟩
    rcases List.eq_nil_or_concat bytes with rfl | ⟨text,c,rfl⟩
    · cases last
    · refine ⟨text,?_⟩
      have : c = carriageReturn := by simpa using last
      simp [this]

-- Each character takes the bytes of the line so far to the bytes with it, or ends it.
theorem readChar_step (bytes : List UInt8) (ch : UInt8) :
    readChar config (readerOf config bytes) ch =
      if Ends config (bytes ++ [ch]) then (.fresh,some (readOf config (bytes ++ [ch])))
      else (readerOf config (bytes ++ [ch]),none) := by
  have room : (bytes.take config.recvBufsz).length < config.recvBufsz ↔ bytes.length < config.recvBufsz := by
    rw [List.length_take]
    omega
  have buffer : (if (bytes.take config.recvBufsz).length < config.recvBufsz then bytes.take config.recvBufsz ++ [ch]
      else bytes.take config.recvBufsz) = (bytes ++ [ch]).take config.recvBufsz := by
    by_cases fits : bytes.length < config.recvBufsz
    · rw [if_pos (room.mpr fits),List.take_of_length_le (by omega),List.take_of_length_le (by simp; omega)]
    · rw [if_neg (mt room.mp fits),List.take_append_of_le_length (by omega)]
  have full : (if (bytes.take config.recvBufsz).length < config.recvBufsz then decide (config.recvBufsz < bytes.length)
      else true) = decide (config.recvBufsz < (bytes ++ [ch]).length) := by
    rw [List.length_append,List.length_singleton]
    by_cases fits : bytes.length < config.recvBufsz
    · rw [if_pos (room.mpr fits)]
      simp
      omega
    · rw [if_neg (mt room.mp fits)]
      simp
      omega
  have ends : ((ch = lineFeed ∧ bytes.getLast?.getD 0 = carriageReturn) ∨ (config.endSign ≠ 0 ∧ ch = config.endSign) ∨
      getUrcObj config ((bytes ++ [ch]).take config.recvBufsz) ≠ none) ↔ Ends config (bytes ++ [ch]) := by
    rw [Ends,newline_suffix,List.getLast?_concat,Option.some.injEq]
  unfold readChar readerOf
  dsimp only
  rw [buffer,full]
  by_cases ended : Ends config (bytes ++ [ch])
  · rw [if_pos (ends.mpr ended),if_pos ended,readOf]
    refine congrArg (fun read => (Reader.fresh,some read)) ?_
    by_cases fits : (bytes ++ [ch]).length ≤ config.recvBufsz
    · rw [if_neg (by simpa using fits),if_pos fits,List.take_of_length_le fits]
    · rw [if_pos (by simpa using fits),if_neg fits]
  · rw [if_neg (mt ends.mp ended),if_neg ended,List.getLast?_concat]
    rfl

theorem Open.mono {bytes more : List UInt8} (opened : Open config more) (within : bytes <+: more) : Open config bytes :=
  fun start before something => opened start (before.trans within) something

theorem open_concat {bytes : List UInt8} {ch : UInt8} (opened : Open config bytes) (goes : ¬Ends config (bytes ++ [ch])) :
    Open config (bytes ++ [ch]) := by
  intro start before something
  rcases List.prefix_concat_iff.mp before with rfl | within
  · exact goes
  · exact opened start within something

theorem read_open {first second : List UInt8} (opened : Open config (first ++ second)) :
    readStream config (readerOf config first) second = (readerOf config (first ++ second),[]) := by
  induction second generalizing first with
  | nil => simp [readStream]
  | cons ch rest ih =>
    have joined : first ++ ch :: rest = first ++ [ch] ++ rest := by simp
    rw [joined] at opened ⊢
    have goes : ¬Ends config (first ++ [ch]) := opened _ (List.prefix_append _ _) (by simp)
    rw [readStream,readChar_step,if_neg goes]
    dsimp only
    rw [ih opened]
    rfl

theorem Segment.snoc {bytes : List UInt8} (segment : Segment config bytes) : ∃ text ch, bytes = text ++ [ch] ∧
    Open config text ∧ Ends config (text ++ [ch]) := by
  obtain ⟨text,ch,rfl⟩ := (List.eq_nil_or_concat' bytes).resolve_left segment.something
  refine ⟨text,ch,rfl,?_,segment.ends⟩
  have before := segment.before
  rwa [List.dropLast_concat] at before

theorem read_segment {bytes : List UInt8} (segment : Segment config bytes) :
    readStream config .fresh bytes = (.fresh,[readOf config bytes]) := by
  obtain ⟨text,ch,rfl,opened,ends⟩ := segment.snoc
  have reached := read_open (show Open config ([] ++ text) from opened)
  rw [readerOf_nil,List.nil_append] at reached
  rw [readStream_append,reached]
  dsimp only
  rw [readStream,readChar_step,if_pos ends]
  rfl

theorem read_segments {segments : List (List UInt8)} {tail : List UInt8} (all : ∀ x ∈ segments, Segment config x)
    (opened : Open config tail) :
    readStream config .fresh (segments.flatten ++ tail) = (readerOf config tail,segments.map (readOf config)) := by
  induction segments with
  | nil =>
    have reached := read_open (show Open config ([] ++ tail) from opened)
    rwa [readerOf_nil] at reached
  | cons x rest ih =>
    rw [List.flatten_cons,List.append_assoc,readStream_append,read_segment (all x List.mem_cons_self)]
    dsimp only
    rw [ih fun y there => all y (List.mem_cons_of_mem x there)]
    rfl

theorem segments_of_stream (config : Config) (stream : List UInt8) : ∃ (segments : List (List UInt8)) (tail : List UInt8),
    stream = segments.flatten ++ tail ∧ (∀ x ∈ segments, Segment config x) ∧ Open config tail := by
  induction stream using List.reverseRecOn with
  | nil => exact ⟨[],[],rfl,by simp,fun start before something => absurd (List.prefix_nil.mp before) something⟩
  | append_singleton stream ch ih =>
    obtain ⟨segments,tail,rfl,all,opened⟩ := ih
    by_cases ends : Ends config (tail ++ [ch])
    · refine ⟨segments ++ [tail ++ [ch]],[],by simp,?_,fun start before something => absurd (List.prefix_nil.mp before) something⟩
      intro x there
      rcases List.mem_append.mp there with old | new
      · exact all x old
      · rw [List.mem_singleton.mp new]
        exact ⟨by simp,ends,by rwa [List.dropLast_concat]⟩
    · exact ⟨segments,tail ++ [ch],by simp,all,open_concat opened ends⟩

theorem readStream_segments (config : Config) (stream : List UInt8) : ∃ (segments : List (List UInt8)) (tail : List UInt8),
    stream = segments.flatten ++ tail ∧ (∀ x ∈ segments, Segment config x) ∧ Open config tail ∧
      readStream config .fresh stream = (readerOf config tail,segments.map (readOf config)) := by
  obtain ⟨segments,tail,same,all,opened⟩ := segments_of_stream config stream
  refine ⟨segments,tail,same,all,opened,?_⟩
  rw [same]
  exact read_segments all opened

-- No end sign, and every code of the table ends at a line end.
structure Plain (config : Config) : Prop where
  unsigned : config.endSign = 0
  lines : ∀ urc ∈ config.urcTable.flatten, [carriageReturn,lineFeed] <:+ urc.cmdSuffix

-- The client of nb_bc26_handler.c, with its codes "+IP" and "+CPIN".
def bc26 : Config := ⟨512,0,[[⟨[43,73,80],[carriageReturn,lineFeed]⟩,⟨[43,67,80,73,78],[carriageReturn,lineFeed]⟩]]⟩

theorem bc26_plain : Plain bc26 := ⟨rfl,by decide⟩

theorem plain_ends (plain : Plain config) {bytes : List UInt8} (ends : Ends config bytes) :
    [carriageReturn,lineFeed] <:+: bytes := by
  rcases ends with newline | ⟨signed,_⟩ | urc
  · exact newline.isInfix
  · exact absurd plain.unsigned signed
  · obtain ⟨found,there⟩ := Option.ne_none_iff_exists'.mp urc
    have matched := List.find?_some there
    have suffix := plain.lines found (List.mem_of_find?_eq_some there)
    unfold Urc.matches at matched
    split at matched
    · cases matched
    · simp only [Bool.and_eq_true,decide_eq_true_eq] at matched
      exact (suffix.trans matched.2).isInfix.trans (List.take_prefix _ _).isInfix

def crlf : List UInt8 := [carriageReturn,lineFeed]

theorem plain_open (plain : Plain config) {text : List UInt8} (inside : ¬crlf <:+: text) : Open config text :=
  fun _ before _ ends => inside ((plain_ends plain ends).trans before.isInfix)

theorem line_segment (plain : Plain config) {text : List UInt8} (inside : ¬crlf <:+: text) : Segment config (text ++ crlf) := by
  refine ⟨by simp [crlf],Or.inl ⟨text,rfl⟩,?_⟩
  have cut : (text ++ crlf).dropLast = text ++ [carriageReturn] := by
    rw [show text ++ crlf = (text ++ [carriageReturn]) ++ [lineFeed] by simp [crlf],List.dropLast_concat]
  rw [cut]
  refine plain_open plain fun there => ?_
  rcases List.infix_concat_iff.mp there with last | within
  · obtain ⟨rest,same⟩ := last
    have := congrArg List.getLast? same
    simp [crlf] at this
    cases this
  · exact inside within

theorem readStream_lines (plain : Plain config) {texts : List (List UInt8)} {tail : List UInt8}
    (inside : ∀ text ∈ texts, ¬crlf <:+: text) (rest : ¬crlf <:+: tail) :
    readStream config .fresh ((texts.map (· ++ crlf)).flatten ++ tail) =
      (readerOf config tail,texts.map fun text => readOf config (text ++ crlf)) := by
  have all : ∀ x ∈ texts.map (· ++ crlf), Segment config x := by
    intro x there
    obtain ⟨text,member,rfl⟩ := List.mem_map.mp there
    exact line_segment plain (inside text member)
  rw [read_segments all (plain_open plain rest),List.map_map]
  rfl

-- An empty line, a line longer than the buffer, and one that is read after it.
example : readStream bc26 .fresh (([[],List.replicate 600 65,[79,75]].map (· ++ crlf)).flatten ++ [43,73,80,carriageReturn]) =
    (readerOf bc26 [43,73,80,carriageReturn],[[],List.replicate 600 65,[79,75]].map fun text => readOf bc26 (text ++ crlf)) := by
  refine readStream_lines bc26_plain ?_ (by decide)
  intro text there
  rcases List.mem_cons.mp there with rfl | there
  · decide
  · rcases List.mem_cons.mp there with rfl | there
    · intro inside
      have := inside.subset (show carriageReturn ∈ crlf by decide)
      cases List.eq_of_mem_replicate this
    · cases List.mem_singleton.mp there
      decide

end SssAlarmHost.AtClient
