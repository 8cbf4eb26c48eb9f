import SssAlarmHost.BlockList

namespace SssAlarmHost.SmallMem
open BlockList

abbrev heapMagic : UInt16 := 0x1ea0
abbrev sizeofStructMem : Nat := 12
abbrev minSizeAligned : Nat := 12

def rtAlign (size : UInt32) : UInt32 := (size + 3) &&& ~~~3

structure HeapMem where
  magic : UInt16
  used : Bool
  next : Nat
  prev : Nat

-- What rt_system_heap_init makes of its two addresses. All places are offsets from
-- heap_ptr, which is aligned.
structure Region where
  memSizeAligned : Nat
  aligned : 4 ∣ memSizeAligned
  room : minSizeAligned ≤ memSizeAligned
  small : memSizeAligned + 2*sizeofStructMem < 2^32

def Region.heapEnd (region : Region) : Nat := region.memSizeAligned + sizeofStructMem

structure Heap where
  headers : Nat → HeapMem
  lfree : Nat
  usedMem : Nat
  maxMem : Nat

def Heap.set (s : Heap) (p : Nat) (mem : HeapMem) : Heap := {s with headers := Function.update s.headers p mem}
def Heap.setNext (s : Heap) (p next : Nat) : Heap := s.set p {s.headers p with next := next}
def Heap.setPrev (s : Heap) (p prev : Nat) : Heap := s.set p {s.headers p with prev := prev}
def Heap.setUsed (s : Heap) (p : Nat) (used : Bool) : Heap := s.set p {s.headers p with used := used,magic := heapMagic}

def Heap.moveLfree (s : Heap) (old new : Nat) : Heap := {s with lfree := if s.lfree = old then new else s.lfree}

def Heap.lower (s : Heap) (mem : Nat) : Heap := if mem < s.lfree then {s with lfree := mem} else s

def memSize (beginAddr endAddr : UInt32) : Option Nat :=
  let beginAlign := rtAlign beginAddr
  let endAlign := endAddr &&& ~~~3
  if 2*sizeofStructMem < endAlign.toNat ∧ beginAlign.toNat ≤ endAlign.toNat - 2*sizeofStructMem then
    some (endAlign.toNat - beginAlign.toNat - 2*sizeofStructMem)
  else none

section Operations
variable (region : Region)

def rtSystemHeapInit (memory : Nat → HeapMem) : Heap :=
  let s : Heap := ⟨memory,0,0,0⟩
  (s.set 0 ⟨heapMagic,false,region.heapEnd,0⟩).set region.heapEnd ⟨heapMagic,true,region.heapEnd,region.heapEnd⟩

def plugForward (s : Heap) (mem : Nat) : Heap :=
  let nmem := (s.headers mem).next
  if mem ≠ nmem ∧ (s.headers nmem).used = false ∧ nmem ≠ region.heapEnd then
    let s := s.moveLfree nmem mem
    let next := (s.headers nmem).next
    (s.setNext mem next).setPrev next mem
  else s

def plugBackward (s : Heap) (mem : Nat) : Heap :=
  let pmem := (s.headers mem).prev
  if pmem ≠ mem ∧ (s.headers pmem).used = false then
    let s := s.moveLfree mem pmem
    let next := (s.headers mem).next
    (s.setNext pmem next).setPrev next pmem
  else s

def plugHoles (s : Heap) (mem : Nat) : Heap := plugBackward (plugForward region s mem) mem

-- The header of the rest of a block, linked in after its first part.
def carve (s : Heap) (ptr size : Nat) : Heap :=
  let ptr2 := ptr + sizeofStructMem + size
  let next := (s.headers ptr).next
  let s := (s.set ptr2 ⟨heapMagic,false,next,ptr⟩).setNext ptr ptr2
  if next ≠ region.memSizeAligned + sizeofStructMem then s.setPrev next ptr2 else s

def Heap.account (s : Heap) (bytes : Nat) : Heap :=
  {s with usedMem := s.usedMem + bytes,maxMem := if s.maxMem < s.usedMem + bytes then s.usedMem + bytes else s.maxMem}

-- The loops go up through the blocks, so the size of the heap bounds their rounds.
def findLoop (s : Heap) (size : Nat) : Nat → Nat → Option Nat
  | 0,_ => none
  | rounds+1,ptr =>
    if ptr < region.memSizeAligned - size then
      if (s.headers ptr).used = false ∧ size ≤ (s.headers ptr).next - (ptr + sizeofStructMem) then some ptr
      else findLoop s size rounds (s.headers ptr).next
    else none

def lfreeLoop (s : Heap) : Nat → Nat → Nat
  | 0,lfree => lfree
  | rounds+1,lfree =>
    if (s.headers lfree).used = true ∧ lfree ≠ region.heapEnd then lfreeLoop s rounds (s.headers lfree).next else lfree

def occupy (s : Heap) (ptr size : Nat) : Heap :=
  if size + sizeofStructMem + minSizeAligned ≤ (s.headers ptr).next - (ptr + sizeofStructMem) then
    ((carve region s ptr size).setUsed ptr true).account (size + sizeofStructMem)
  else (s.setUsed ptr true).account ((s.headers ptr).next - ptr)

def take (s : Heap) (ptr size : Nat) : Heap :=
  let s := occupy region s ptr size
  if ptr = s.lfree then {s with lfree := lfreeLoop region s region.heapEnd s.lfree} else s

def blockSize (request : UInt32) : Nat :=
  if (rtAlign request).toNat < minSizeAligned then minSizeAligned else (rtAlign request).toNat

-- A pointer is the offset behind the header.
def rtMalloc (s : Heap) (request : UInt32) : Heap × Option Nat :=
  if request = 0 then (s,none)
  else if region.memSizeAligned < (rtAlign request).toNat then (s,none)
  else
    match findLoop region s (blockSize request) region.heapEnd s.lfree with
    | none => (s,none)
    | some ptr => (take region s ptr (blockSize request),some (ptr + sizeofStructMem))

-- The part of rt_free behind its checks of the pointer.
def release (s : Heap) (mem : Nat) : Heap :=
  let s := (s.setUsed mem false).lower mem
  plugHoles region {s with usedMem := s.usedMem - ((s.headers mem).next - mem)} mem

-- A failed assertion gives nothing.
def rtFree (s : Heap) (rmem : Nat) : Option Heap :=
  if rmem % 4 = 0 ∧ rmem < region.heapEnd ∧ (s.headers (rmem - sizeofStructMem)).used = true ∧
      (s.headers (rmem - sizeofStructMem)).magic = heapMagic then
    some (release region s (rmem - sizeofStructMem))
  else none

def userSize (s : Heap) (ptr : Nat) : Nat := (s.headers ptr).next - ptr - sizeofStructMem

-- Splitting in rt_realloc: the lowest free block is not looked for.
def trim (s : Heap) (ptr newsize : Nat) : Heap :=
  let size := userSize s ptr
  plugHoles region (carve region {s with usedMem := s.usedMem - (size - newsize)} ptr newsize) (ptr + sizeofStructMem + newsize)

def copy (data : Nat → UInt8) (target source n : Nat) : Nat → UInt8 := fun a =>
  if target ≤ a ∧ a < target + n then data (source + (a - target)) else data a

def rtRealloc (s : Heap) (data : Nat → UInt8) (rmem : Option Nat) (request : UInt32) : Option (Heap × (Nat → UInt8) × Option Nat) :=
  let newsize := (rtAlign request).toNat
  if region.memSizeAligned < newsize then some (s,data,none)
  else if newsize = 0 then
    match rmem with
    | none => some (s,data,none)
    | some p => (rtFree region s p).map fun s => (s,data,none)
  else
    match rmem with
    | none => some ((rtMalloc region s (rtAlign request)).1,data,(rtMalloc region s (rtAlign request)).2)
    | some p =>
      if region.heapEnd ≤ p then some (s,data,some p)
      else
        let ptr := p - sizeofStructMem
        let size := userSize s ptr
        if size = newsize then some (s,data,some p)
        else if newsize + sizeofStructMem + minSizeAligned < size then some (trim region s ptr newsize,data,some p)
        else
          let made := rtMalloc region s (rtAlign request)
          match made.2 with
          | none => some (made.1,data,none)
          | some n =>
            (rtFree region made.1 p).map fun s => (s,copy data n p (if size < newsize then size else newsize),some n)

end Operations

def linksOf (headers : Nat → HeapMem) : Links := ⟨fun p => (headers p).next,fun p => (headers p).prev,fun p => (headers p).used⟩

-- The headers form a list of blocks from heap_ptr to heap_end.
structure Walled (region : Region) (headers : Nat → HeapMem) (blocks : List Block) : Prop where
  linked : Linked (linksOf headers) 0 0 blocks
  size : total blocks = region.heapEnd
  fence : (headers region.heapEnd).used = true
  fits : ∀ b ∈ blocks, 16 ≤ b.len ∧ 4 ∣ b.len
  magic : ∀ p b, At blocks p b → (headers p).magic = heapMagic

-- lfree is a free block or heap_end.
def FreeAt (region : Region) (s : Heap) (blocks : List Block) : Prop :=
  s.lfree = region.heapEnd ∨ ∃ b, At blocks s.lfree b ∧ b.used = false

structure Holds (region : Region) (s : Heap) (blocks : List Block) : Prop where
  walled : Walled region s.headers blocks
  free : FreeAt region s blocks
  merged : Merged blocks
  accounted : s.usedMem = inUse blocks

variable {region : Region} {headers : Nat → HeapMem} {s : Heap} {blocks pre post : List Block} {len : Nat} {mark : Bool}

theorem Walled.positive (walled : Walled region headers blocks) : ∀ b ∈ blocks, 0 < b.len := fun b there => by
  have := (walled.fits b there).1
  omega

theorem Walled.at (walled : Walled region headers blocks) {p : Nat} {b : Block} (there : At blocks p b) :
    (headers p).used = b.used ∧ (headers p).next = p + b.len := by
  obtain ⟨used,next⟩ := linked_at walled.linked there
  rw [Nat.zero_add] at used next
  exact ⟨used,next⟩

theorem Walled.below (walled : Walled region headers blocks) {p : Nat} {b : Block} (there : At blocks p b) :
    p + 16 ≤ p + b.len ∧ p + b.len ≤ region.heapEnd := by
  have fits := (walled.fits b there.mem).1
  have bound := there.bound
  rw [walled.size] at bound
  omega

theorem moveLfree_headers (s : Heap) (old new : Nat) : (s.moveLfree old new).headers = s.headers := rfl

theorem lower_fields (s : Heap) (mem : Nat) :
    (s.lower mem).headers = s.headers ∧ (s.lower mem).usedMem = s.usedMem ∧ (s.lower mem).lfree = min mem s.lfree := by
  unfold Heap.lower
  by_cases below : mem < s.lfree
  · rw [if_pos below,Nat.min_eq_left (Nat.le_of_lt below)]
    exact ⟨rfl,rfl,rfl⟩
  · rw [if_neg below,Nat.min_eq_right (Nat.not_lt.mp below)]
    exact ⟨rfl,rfl,rfl⟩

theorem set_same (s : Heap) (p : Nat) (mem : HeapMem) : (s.set p mem).headers p = mem := Function.update_self ..

theorem set_other (s : Heap) {p q : Nat} (mem : HeapMem) (other : q ≠ p) : (s.set p mem).headers q = s.headers q :=
  Function.update_of_ne other ..

theorem block_at (pre post : List Block) (b : Block) : At (pre ++ [b] ++ post) (total pre) b := ⟨pre,post,by simp,rfl⟩

theorem border_prev {mid : List Block} (walled : Walled region headers (pre ++ mid ++ post)) (more : post ≠ []) :
    (headers (total pre + total mid)).prev = last (last 0 0 pre) (total pre) mid := by
  obtain ⟨_,after⟩ := linked_append.mp walled.linked
  obtain ⟨b,rest,rfl⟩ := List.exists_cons_of_ne_nil more
  have prev := after.2.1
  rw [last_append,total_append,Nat.zero_add,Nat.zero_add] at prev
  exact prev

-- What a change of headers inside a stretch, and of the link back to it, leaves of the
-- list.
theorem walled_replace {mid mid' : List Block} {after : Nat → HeapMem} (walled : Walled region headers (pre ++ mid ++ post))
    (size : total mid' = total mid) (below : ∀ p, p < total pre → after p = headers p)
    (inside : Linked (linksOf after) (last 0 0 pre) (total pre) mid')
    (above : ∀ p, total pre + total mid < p → after p = headers p)
    (border : ∃ q, after (total pre + total mid) = {headers (total pre + total mid) with prev := q} ∧
      (post ≠ [] → q = last (last 0 0 pre) (total pre) mid'))
    (fits : ∀ b ∈ mid', 16 ≤ b.len ∧ 4 ∣ b.len) (magic : ∀ q b, At mid' q b → (after (total pre + q)).magic = heapMagic) :
    Walled region after (pre ++ mid' ++ post) := by
  obtain ⟨q,here,back⟩ := border
  have agree : ∀ p, after p = headers p → (linksOf headers).Agree (linksOf after) p := by
    intro p same
    unfold Links.Agree linksOf
    dsimp only
    rw [same]
    exact ⟨rfl,rfl,rfl⟩
  constructor
  case linked =>
    refine linked_replace walled.linked walled.positive size (fun p less => agree p (below p (by omega))) ?_
      (fun p more => agree p (above p (by omega))) ?_
    · rw [Nat.zero_add]
      exact inside
    · intro more
      rw [Nat.zero_add]
      unfold linksOf
      dsimp only
      rw [here]
      exact ⟨rfl,rfl,back more⟩
  case size =>
    have whole := walled.size
    simp only [total_append] at whole ⊢
    omega
  case fence =>
    have whole := walled.size
    simp only [total_append] at whole
    have fence := walled.fence
    by_cases ends : total pre + total mid = region.heapEnd
    · rw [← ends] at fence ⊢
      rw [here]
      exact fence
    · rw [above _ (by omega)]
      exact fence
  case fits =>
    intro b there
    rcases List.mem_append.mp there with front | later
    · rcases List.mem_append.mp front with first | middle
      · exact walled.fits b (by simp [first])
      · exact fits b middle
    · exact walled.fits b (by simp [later])
  case magic =>
    intro p b there
    rcases at_append.mp there with front | ⟨r,rfl,later⟩
    · rcases at_append.mp front with first | ⟨r,rfl,middle⟩
      · have bound := first.bound
        have positive := walled.positive b (by simp [first.mem])
        rw [below p (by omega)]
        exact walled.magic p b (at_append.mpr (Or.inl (at_append.mpr (Or.inl first))))
      · exact magic r b middle
    · have old := walled.magic _ b (at_append.mpr (Or.inr ⟨r,rfl,later⟩))
      rw [total_append] at old ⊢
      rw [size]
      by_cases first : r = 0
      · subst first
        rw [Nat.add_zero] at old ⊢
        rw [here]
        exact old
      · rw [above _ (by omega)]
        exact old

theorem linked_middle {mid : List Block} (walled : Walled region headers (pre ++ mid ++ post)) :
    Linked (linksOf headers) (last 0 0 pre) (total pre) mid := by
  obtain ⟨front,_⟩ := linked_append.mp walled.linked
  obtain ⟨_,middle⟩ := linked_append.mp front
  rw [Nat.zero_add] at middle
  exact middle

theorem mark_walled (walled : Walled region s.headers (pre ++ [⟨len,mark⟩] ++ post)) (used : Bool) :
    Walled region (s.setUsed (total pre) used).headers (pre ++ [⟨len,used⟩] ++ post) := by
  have small := (walled.fits ⟨len,mark⟩ (by simp)).1
  dsimp only at small
  have same := set_same s (total pre) {s.headers (total pre) with used := used,magic := heapMagic}
  have other : ∀ p, p ≠ total pre → (s.setUsed (total pre) used).headers p = s.headers p := fun p different => set_other s _ different
  obtain ⟨_,prev,next,_⟩ := linked_middle walled
  refine walled_replace walled (by simp) (fun p less => other p (by omega)) ?_ (fun p more => other p (by simp at more; omega)) ?_
    ?_ ?_
  · refine ⟨?_,?_,?_,trivial⟩
    · exact congrArg HeapMem.used same
    · exact (congrArg HeapMem.prev same).trans prev
    · exact (congrArg HeapMem.next same).trans next
  · refine ⟨_,other _ (by simp; omega),fun more => border_prev walled more⟩
  · intro b there
    cases List.mem_singleton.mp there
    exact walled.fits ⟨len,mark⟩ (by simp)
  · intro q b there
    obtain ⟨rfl,_⟩ := at_singleton.mp there
    exact congrArg HeapMem.magic same

theorem link_at (s : Heap) {a n : Nat} (different : a ≠ n) :
    ((s.setNext a n).setPrev n a).headers a = {s.headers a with next := n} ∧
    ((s.setNext a n).setPrev n a).headers n = {s.headers n with prev := a} ∧
    ∀ p, p ≠ a → p ≠ n → ((s.setNext a n).setPrev n a).headers p = s.headers p := by
  unfold Heap.setPrev Heap.setNext
  refine ⟨?_,?_,fun p fromA fromN => ?_⟩
  · rw [set_other _ _ different,set_same]
  · rw [set_same,set_other _ _ (Ne.symm different)]
  · rw [set_other _ _ fromN,set_other _ _ fromA]

theorem join_walled {first second : Nat}
    (walled : Walled region s.headers (pre ++ [⟨first,false⟩,⟨second,false⟩] ++ post)) :
    Walled region ((s.setNext (total pre) (total pre + first + second)).setPrev (total pre + first + second) (total pre)).headers
      (pre ++ [⟨first + second,false⟩] ++ post) := by
  have one := walled.fits ⟨first,false⟩ (by simp)
  have two := walled.fits ⟨second,false⟩ (by simp)
  dsimp only at one two
  obtain ⟨start,finish,other⟩ := link_at s (show total pre ≠ total pre + first + second by omega)
  obtain ⟨used,prev,_,_⟩ := linked_middle walled
  have whole : total [⟨first,false⟩,⟨second,false⟩] = first + second := by simp
  refine walled_replace walled (by simp) (fun p less => other p (by omega) (by omega)) ?_
    (fun p more => other p (by omega) (by omega)) ?_ ?_ ?_
  · refine ⟨?_,?_,?_,trivial⟩
    · exact (congrArg HeapMem.used start).trans used
    · exact (congrArg HeapMem.prev start).trans prev
    · exact (congrArg HeapMem.next start).trans (Nat.add_assoc _ _ _)
  · rw [whole,← Nat.add_assoc]
    exact ⟨_,finish,fun _ => rfl⟩
  · intro b there
    cases List.mem_singleton.mp there
    exact ⟨show 16 ≤ first + second by omega,Nat.dvd_add one.2 two.2⟩
  · intro q b there
    obtain ⟨rfl,_⟩ := at_singleton.mp there
    refine (congrArg HeapMem.magic start).trans (walled.magic _ ⟨first,false⟩ ?_)
    exact ⟨pre,⟨second,false⟩ :: post,by simp,rfl⟩

theorem carve_at (region : Region) {ptr size next : Nat} (same : (s.headers ptr).next = next) (inside : ptr + sizeofStructMem + size < next) :
    (carve region s ptr size).headers ptr = {s.headers ptr with next := ptr + sizeofStructMem + size} ∧
    (carve region s ptr size).headers (ptr + sizeofStructMem + size) = ⟨heapMagic,false,next,ptr⟩ ∧
    (∃ q, (carve region s ptr size).headers next = {s.headers next with prev := q} ∧
      (next ≠ region.heapEnd → q = ptr + sizeofStructMem + size)) ∧
    ∀ p, p ≠ ptr → p ≠ ptr + sizeofStructMem + size → p ≠ next → (carve region s ptr size).headers p = s.headers p := by
  have twelve : sizeofStructMem = 12 := rfl
  have linked : ∀ p, ((s.set (ptr + sizeofStructMem + size) ⟨heapMagic,false,next,ptr⟩).setNext ptr
      (ptr + sizeofStructMem + size)).headers p = if p = ptr then {s.headers ptr with next := ptr + sizeofStructMem + size}
        else if p = ptr + sizeofStructMem + size then ⟨heapMagic,false,next,ptr⟩ else s.headers p := by
    intro p
    unfold Heap.setNext
    by_cases first : p = ptr
    · rw [first,set_same,if_pos rfl,set_other _ _ (by omega)]
    · rw [set_other _ _ first,if_neg first]
      by_cases second : p = ptr + sizeofStructMem + size
      · rw [second,set_same,if_pos rfl]
      · rw [set_other _ _ second,if_neg second]
  unfold carve
  dsimp only
  rw [same]
  by_cases border : next ≠ region.memSizeAligned + sizeofStructMem
  · rw [if_pos border]
    unfold Heap.setPrev
    refine ⟨?_,?_,⟨ptr + sizeofStructMem + size,?_,fun _ => rfl⟩,?_⟩
    · rw [set_other _ _ (by omega),linked,if_pos rfl]
    · rw [set_other _ _ (by omega),linked,if_neg (by omega),if_pos rfl]
    · rw [set_same,linked,if_neg (by omega),if_neg (by omega)]
    · intro p first second third
      rw [set_other _ _ third,linked,if_neg first,if_neg second]
  · rw [if_neg border]
    refine ⟨?_,?_,⟨(s.headers next).prev,?_,fun more => absurd more border⟩,?_⟩
    · rw [linked,if_pos rfl]
    · rw [linked,if_neg (by omega),if_pos rfl]
    · rw [linked,if_neg (by omega),if_neg (by omega)]
    · intro p first second _
      rw [linked,if_neg first,if_neg second]

theorem carve_walled {size : Nat} (walled : Walled region s.headers (pre ++ [⟨len,mark⟩] ++ post)) (aligned : 4 ∣ size)
    (some' : 4 ≤ size) (room : size + sizeofStructMem + 16 ≤ len) :
    Walled region (carve region s (total pre) size).headers
      (pre ++ [⟨sizeofStructMem + size,mark⟩,⟨len - (sizeofStructMem + size),false⟩] ++ post) := by
  have twelve : sizeofStructMem = 12 := rfl
  have fits := (walled.fits ⟨len,mark⟩ (by simp)).2
  dsimp only at fits
  obtain ⟨used,prev,next,_⟩ := linked_middle walled
  obtain ⟨start,middle,⟨q,finish,back⟩,other⟩ := carve_at region (show (s.headers (total pre)).next = total pre + len from next) (show total pre + sizeofStructMem + size <
    total pre + len by omega)
  have whole : total [⟨len,mark⟩] = len := by simp
  have parts : total [⟨sizeofStructMem + size,mark⟩,⟨len - (sizeofStructMem + size),false⟩] = total [⟨len,mark⟩] := by
    rw [total_cons,total_cons,total_nil,whole]
    dsimp only
    omega
  refine walled_replace walled parts (fun p less => other p (by omega) (by omega) (by omega)) ?_ (fun p more => ?_) ?_ ?_ ?_
  · refine ⟨(congrArg HeapMem.used start).trans used,(congrArg HeapMem.prev start).trans prev,
      (congrArg HeapMem.next start).trans (Nat.add_assoc _ _ _),?_⟩
    rw [← Nat.add_assoc]
    refine ⟨congrArg HeapMem.used middle,congrArg HeapMem.prev middle,(congrArg HeapMem.next middle).trans ?_,trivial⟩
    show total pre + len = total pre + sizeofStructMem + size + (len - (sizeofStructMem + size))
    omega
  · rw [whole] at more
    exact other p (by omega) (by omega) (by omega)
  · rw [whole]
    refine ⟨q,finish,fun more => ?_⟩
    have inside : total pre + len ≠ region.heapEnd := by
      have size := walled.size
      have positive := walled.positive
      obtain ⟨b,rest,rfl⟩ := List.exists_cons_of_ne_nil more
      have := positive b (by simp)
      simp at size
      omega
    rw [back inside]
    exact Nat.add_assoc _ _ _
  · intro b there
    rcases List.mem_cons.mp there with rfl | there
    · exact ⟨show 16 ≤ 12 + size by omega,show 4 ∣ 12 + size by omega⟩
    · cases List.mem_singleton.mp there
      exact ⟨show 16 ≤ len - (12 + size) by omega,show 4 ∣ len - (12 + size) by omega⟩
  · intro p b there
    rcases at_cons.mp there with ⟨rfl,_⟩ | ⟨r,rfl,later⟩
    · exact (congrArg HeapMem.magic start).trans (walled.magic _ ⟨len,mark⟩ (block_at pre post _))
    · obtain ⟨rfl,_⟩ := at_singleton.mp later
      dsimp only
      rw [Nat.add_zero,← Nat.add_assoc]
      exact congrArg HeapMem.magic middle

end SssAlarmHost.SmallMem
