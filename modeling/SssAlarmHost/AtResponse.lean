import SssAlarmHost.AtReader

namespace SssAlarmHost.AtClient

inductive RespStatus where
  | ok
  | error
  | timeout
  | buffFull
  deriving DecidableEq

-- struct at_response: buf holds the buf_len bytes in use.
structure Response where
  bufSize : Nat
  buf : List UInt8
  lineNum : Nat
  lineCounts : Nat
  deriving DecidableEq

def endOk : List UInt8 := [79,75]
def endError : List UInt8 := [69,82,82,79,82]
def endFail : List UInt8 := [70,65,73,76]

def cString (bytes : List UInt8) : List UInt8 := bytes.takeWhile (· ≠ 0)

def strstr (bytes keyword : List UInt8) : Bool := (cString bytes).tails.any fun rest => decide (keyword <+: rest)

-- The line with its last character made the end of the string.
def cut (line : List UInt8) : List UInt8 := line.dropLast ++ [0]

def copyLine (line : List UInt8) (resp : Response) : Response :=
  if resp.buf.length + line.length < resp.bufSize then
    {resp with buf := resp.buf ++ cut line,lineCounts := resp.lineCounts + 1}
  else resp

-- Whether the line ends the response, and with which status.
def checkResult (line : List UInt8) (resp : Response) : Option RespStatus :=
  if endOk <+: cut line ∧ resp.lineNum = 0 then some .ok
  else if strstr (cut line) endError = true ∨ endFail <+: cut line then some .error
  else if resp.lineCounts = resp.lineNum ∧ resp.lineNum ≠ 0 then some .ok
  else none

-- The part of client_parser for a line of the response.
def parseResponse (line : List UInt8) (resp : Response) (status : RespStatus) : Response × RespStatus × Bool :=
  let copied := copyLine line resp
  let stored := if resp.buf.length + line.length < resp.bufSize then status else .buffFull
  match checkResult line copied with
  | some status => (copied,status,true)
  | none => (copied,stored,false)

-- at_resp_get_line and at_resp_get_line_by_kw walk over the strings of the buffer.
def skipLine (buf : List UInt8) : List UInt8 := buf.drop ((cString buf).length + 1)

def getLineLoop : Nat → List UInt8 → List UInt8
  | 0,buf => cString buf
  | n+1,buf => getLineLoop n (skipLine buf)

def atRespGetLine (resp : Response) (respLine : Nat) : Option (List UInt8) :=
  if resp.lineCounts < respLine ∨ respLine = 0 then none else some (getLineLoop (respLine - 1) resp.buf)

def getByKwLoop (keyword : List UInt8) : Nat → List UInt8 → Option (List UInt8)
  | 0,_ => none
  | n+1,buf => if strstr buf keyword = true then some (cString buf) else getByKwLoop keyword n (skipLine buf)

def atRespGetLineByKw (resp : Response) (keyword : List UInt8) : Option (List UInt8) :=
  getByKwLoop keyword resp.lineCounts resp.buf

-- The lines of a response up to the one that ends it.
def collect (resp : Response) (lines : List (List UInt8)) : Response := lines.foldl (fun resp line => copyLine line resp) resp

def outcome : Response → List (List UInt8) → Option RespStatus
  | _,[] => none
  | resp,line :: rest =>
    match checkResult line (copyLine line resp) with
    | some status => if rest = [] then some status else none
    | none => outcome (copyLine line resp) rest

-- The lines for which there is room. One that is too long is passed over, and shorter
-- ones after it are taken.
def kept (bufSize : Nat) : Nat → List (List UInt8) → List (List UInt8)
  | _,[] => []
  | used,line :: rest =>
    if used + line.length < bufSize then line :: kept bufSize (used + line.length) rest else kept bufSize used rest

-- A response that holds these lines and no others.
structure Stores (resp : Response) (lines : List (List UInt8)) : Prop where
  buf : resp.buf = (lines.map cut).flatten
  counts : resp.lineCounts = lines.length

variable {resp : Response} {lines : List (List UInt8)} {line : List UInt8}

theorem cString_cut (plain : 0 ∉ line.dropLast) (rest : List UInt8) : cString (cut line ++ rest) = line.dropLast := by
  unfold cString cut
  rw [List.append_assoc,List.takeWhile_append_of_pos]
  · simp
  · intro b there
    simp only [decide_eq_true_eq]
    rintro rfl
    exact plain there

theorem skipLine_cut (plain : 0 ∉ line.dropLast) (rest : List UInt8) : skipLine (cut line ++ rest) = rest := by
  rw [skipLine,cString_cut plain]
  have length : line.dropLast.length + 1 = (cut line).length := by simp [cut]
  rw [length,List.drop_left]

theorem getLineLoop_lines {lines : List (List UInt8)} (plain : ∀ line ∈ lines, 0 ∉ line.dropLast) (rest : List UInt8) {n : Nat}
    (inside : n < lines.length) :
    getLineLoop n ((lines.map cut).flatten ++ rest) = (lines.get ⟨n,inside⟩).dropLast := by
  induction lines generalizing n with
  | nil => cases inside
  | cons line more ih =>
    have here := plain line List.mem_cons_self
    rw [List.map_cons,List.flatten_cons,List.append_assoc]
    cases n with
    | zero => exact cString_cut here _
    | succ n =>
      rw [getLineLoop,skipLine_cut here]
      exact ih (fun other there => plain other (List.mem_cons_of_mem line there)) (Nat.lt_of_succ_lt_succ inside)

theorem strstr_cut (plain : 0 ∉ line.dropLast) (rest keyword : List UInt8) :
    strstr (cut line ++ rest) keyword = true ↔ keyword <:+: line.dropLast := by
  unfold strstr
  rw [cString_cut plain,List.any_eq_true]
  constructor
  · rintro ⟨suffix,there,before⟩
    exact (of_decide_eq_true before).isInfix.trans ((List.mem_tails _ _).mp there).isInfix
  · rintro ⟨first,second,same⟩
    refine ⟨keyword ++ second,(List.mem_tails _ _).mpr ⟨first,by rw [← same,List.append_assoc]⟩,?_⟩
    exact decide_eq_true (List.prefix_append _ _)

theorem getByKwLoop_lines {lines : List (List UInt8)} (plain : ∀ line ∈ lines, 0 ∉ line.dropLast) (keyword rest : List UInt8) :
    getByKwLoop keyword lines.length ((lines.map cut).flatten ++ rest) =
      (lines.map List.dropLast).find? fun text => decide (keyword <:+: text) := by
  induction lines with
  | nil => rfl
  | cons line more ih =>
    have here := plain line List.mem_cons_self
    have found := strstr_cut here ((more.map cut).flatten ++ rest) keyword
    rw [List.map_cons,List.flatten_cons,List.append_assoc,List.length_cons,getByKwLoop,List.map_cons,List.find?_cons]
    by_cases there : keyword <:+: line.dropLast
    · rw [if_pos (found.mpr there),decide_eq_true there,cString_cut here]
    · rw [if_neg (mt found.mp there),decide_eq_false there,skipLine_cut here]
      exact ih fun other member => plain other (List.mem_cons_of_mem line member)

theorem cut_length (something : line ≠ []) : (cut line).length = line.length := by
  have := List.length_pos_iff.mpr something
  rw [cut,List.length_append,List.length_dropLast,List.length_singleton]
  omega

theorem copyLine_bufSize (line : List UInt8) (resp : Response) : (copyLine line resp).bufSize = resp.bufSize := by
  unfold copyLine
  split <;> rfl

theorem collect_stores (stores : Stores resp lines) {more : List (List UInt8)} (something : ∀ line ∈ more, line ≠ []) :
    Stores (collect resp more) (lines ++ kept resp.bufSize resp.buf.length more) := by
  induction more generalizing resp lines with
  | nil => rwa [kept,List.append_nil]
  | cons line more ih =>
    have others : ∀ other ∈ more, other ≠ [] := fun other there => something other (List.mem_cons_of_mem line there)
    rw [kept]
    change Stores (collect (copyLine line resp) more) _
    by_cases room : resp.buf.length + line.length < resp.bufSize
    · have copied : copyLine line resp = ⟨resp.bufSize,resp.buf ++ cut line,resp.lineNum,resp.lineCounts + 1⟩ := if_pos room
      have now : Stores (copyLine line resp) (lines ++ [line]) := by
        rw [copied]
        exact ⟨by simp [stores.buf],by simp [stores.counts]⟩
      have next := ih now others
      have used : (copyLine line resp).buf.length = resp.buf.length + line.length := by
        rw [copied]
        dsimp only
        rw [List.length_append,cut_length (something line List.mem_cons_self)]
      rw [copyLine_bufSize,used,List.append_assoc,List.singleton_append] at next
      rw [if_pos room]
      exact next
    · have copied : copyLine line resp = resp := if_neg room
      rw [if_neg room,copied]
      exact ih stores others

-- No line before the last one ends the response, and the last one does.
theorem outcome_at {done more : List (List UInt8)} {status : RespStatus} (ends : outcome resp (done ++ line :: more) = some status) :
    checkResult line (copyLine line (collect resp done)) = if more = [] then some status else none := by
  induction done generalizing resp with
  | nil =>
    change outcome resp (line :: more) = some status at ends
    change checkResult line (copyLine line resp) = _
    rw [outcome] at ends
    cases checked : checkResult line (copyLine line resp) with
    | some here =>
      rw [checked] at ends
      dsimp only at ends
      split at ends
      · rw [if_pos ‹_›]
        exact ends
      · cases ends
    | none =>
      rw [checked] at ends
      dsimp only at ends
      rw [if_neg]
      rintro rfl
      cases ends
  | cons first done ih =>
    change outcome resp (first :: (done ++ line :: more)) = some status at ends
    rw [outcome] at ends
    cases checked : checkResult first (copyLine first resp) with
    | some here =>
      rw [checked] at ends
      simp at ends
    | none =>
      rw [checked] at ends
      exact ih ends

theorem kept_sublist (bufSize used : Nat) (lines : List (List UInt8)) : (kept bufSize used lines).Sublist lines := by
  induction lines generalizing used with
  | nil => exact List.Sublist.refl _
  | cons line rest ih =>
    rw [kept]
    split
    · exact (ih _).cons_cons line
    · exact (ih _).cons line

-- The walks of the two getters over what was stored.
theorem stored_getters (stores : Stores resp lines) (plain : ∀ line ∈ lines, 0 ∉ line.dropLast) :
    (∀ respLine, atRespGetLine resp respLine =
      if respLine = 0 then none else (lines.map List.dropLast)[respLine - 1]?) ∧
    ∀ keyword, atRespGetLineByKw resp keyword = (lines.map List.dropLast).find? fun text => decide (keyword <:+: text) := by
  constructor
  · intro respLine
    unfold atRespGetLine
    rw [stores.counts,stores.buf]
    by_cases zero : respLine = 0
    · rw [if_pos (Or.inr zero),if_pos zero]
    · rw [if_neg zero]
      by_cases above : lines.length < respLine
      · rw [if_pos (Or.inl above),List.getElem?_eq_none (by rw [List.length_map]; omega)]
      · have inside : respLine - 1 < lines.length := by omega
        have walked := getLineLoop_lines plain [] inside
        rw [List.append_nil] at walked
        rw [if_neg (by omega),walked,List.getElem?_map,List.getElem?_eq_getElem inside]
        rfl
  · intro keyword
    have walked := getByKwLoop_lines plain keyword []
    rw [List.append_nil] at walked
    unfold atRespGetLineByKw
    rw [stores.counts,stores.buf]
    exact walked

structure Gettable (resp : Response) (lines : List (List UInt8)) : Prop where
  byNumber : ∀ respLine, atRespGetLine resp respLine = if respLine = 0 then none else (lines.map List.dropLast)[respLine - 1]?
  byKeyword : ∀ keyword, atRespGetLineByKw resp keyword = (lines.map List.dropLast).find? fun text => decide (keyword <:+: text)

theorem collect_gettable (bufSize lineNum : Nat) (something : ∀ line ∈ lines, line ≠ [])
    (plain : ∀ line ∈ lines, 0 ∉ line.dropLast) :
    Gettable (collect ⟨bufSize,[],lineNum,0⟩ lines) (kept bufSize 0 lines) := by
  have stores := collect_stores (show Stores ⟨bufSize,[],lineNum,0⟩ [] from ⟨rfl,rfl⟩) something
  obtain ⟨byNumber,byKeyword⟩ := stored_getters stores fun line there => plain line ((kept_sublist bufSize 0 lines).subset there)
  exact ⟨byNumber,byKeyword⟩

-- The second line does not fit into twelve bytes, the third does.
theorem three_lines_gettable :
    Gettable (collect ⟨12,[],0,0⟩ [[43,49,13,10],[65,66,67,68,69,70,13,10],[79,75,13,10]])
      (kept 12 0 [[43,49,13,10],[65,66,67,68,69,70,13,10],[79,75,13,10]]) :=
  collect_gettable 12 0 (by decide) (by decide)

end SssAlarmHost.AtClient
