import Mathlib.Algebra.Ring.Nat
import Mathlib.Data.List.Chain

namespace BlockList

-- A stretch of memory cut into blocks from its lowest address up.
structure Block where
  len : Nat
  used : Bool
  deriving DecidableEq

def total (blocks : List Block) : Nat := (blocks.map Block.len).sum

def inUse (blocks : List Block) : Nat := (blocks.map fun b => if b.used = true then b.len else 0).sum

-- No two free blocks are next to each other.
def Merged (blocks : List Block) : Prop := blocks.IsChain fun a b => a.used = true ∨ b.used = true

def At (blocks : List Block) (p : Nat) (b : Block) : Prop := ∃ pre post, blocks = pre ++ b :: post ∧ total pre = p

@[simp] theorem total_nil : total [] = 0 := rfl

@[simp] theorem total_cons (b : Block) (blocks : List Block) : total (b :: blocks) = b.len + total blocks := by simp [total]

@[simp] theorem total_append (first second : List Block) : total (first ++ second) = total first + total second := by simp [total]

@[simp] theorem inUse_cons (b : Block) (blocks : List Block) :
    inUse (b :: blocks) = (if b.used = true then b.len else 0) + inUse blocks := by simp [inUse]

@[simp] theorem inUse_append (first second : List Block) : inUse (first ++ second) = inUse first + inUse second := by simp [inUse]

theorem length_le_total {blocks : List Block} (positive : ∀ b ∈ blocks, 0 < b.len) : blocks.length ≤ total blocks := by
  induction blocks with
  | nil => exact Nat.le_refl 0
  | cons b rest ih =>
    have here := positive b List.mem_cons_self
    have more := ih fun c there => positive c (List.mem_cons_of_mem b there)
    rw [List.length_cons,total_cons]
    omega

theorem merged_used {pre post : List Block} {len : Nat} :
    Merged (pre ++ ⟨len,true⟩ :: post) ↔ Merged pre ∧ Merged post := by
  unfold Merged
  rw [List.isChain_append,List.isChain_cons]
  simp

theorem merged_free {pre post : List Block} {len : Nat} : Merged (pre ++ ⟨len,false⟩ :: post) ↔
    Merged pre ∧ Merged post ∧ (∀ b ∈ pre.getLast?, b.used = true) ∧ ∀ b ∈ post.head?, b.used = true := by
  unfold Merged
  rw [List.isChain_append,List.isChain_cons]
  constructor
  · rintro ⟨before,⟨head,after⟩,last⟩
    refine ⟨before,after,fun b there => ?_,fun b there => ?_⟩
    · exact (last b there _ rfl).resolve_right Bool.false_ne_true
    · exact (head b there).resolve_left Bool.false_ne_true
  · rintro ⟨before,after,last,head⟩
    exact ⟨before,⟨fun b there => Or.inr (head b there),after⟩,fun b there _ _ => Or.inl (last b there)⟩

theorem at_append {first second : List Block} {p : Nat} {b : Block} :
    At (first ++ second) p b ↔ At first p b ∨ ∃ q, p = total first + q ∧ At second q b := by
  constructor
  · rintro ⟨pre,post,same,rfl⟩
    rcases List.append_eq_append_iff.mp same with ⟨more,rfl,here⟩ | ⟨more,there,here⟩
    · exact Or.inr ⟨total more,total_append _ _,more,post,here,rfl⟩
    · cases more with
      | nil =>
        rw [List.append_nil] at there
        exact Or.inr ⟨0,by rw [there]; rfl,[],post,here.symm,rfl⟩
      | cons c more =>
        obtain ⟨rfl,rfl⟩ := List.cons_eq_cons.mp here
        exact Or.inl ⟨pre,more,there,rfl⟩
  · rintro (⟨pre,post,rfl,rfl⟩ | ⟨q,rfl,pre,post,rfl,rfl⟩)
    · exact ⟨pre,post ++ second,by simp,rfl⟩
    · exact ⟨first ++ pre,post,by simp,total_append _ _⟩

theorem at_singleton {b c : Block} {p : Nat} : At [c] p b ↔ p = 0 ∧ b = c := by
  constructor
  · rintro ⟨pre,post,same,rfl⟩
    cases pre with
    | nil => exact ⟨rfl,(List.cons_eq_cons.mp same).1.symm⟩
    | cons d pre => simp at same
  · rintro ⟨rfl,rfl⟩
    exact ⟨[],[],rfl,rfl⟩

theorem at_cons {b c : Block} {rest : List Block} {p : Nat} :
    At (c :: rest) p b ↔ p = 0 ∧ b = c ∨ ∃ q, p = c.len + q ∧ At rest q b := by
  rw [← List.singleton_append,at_append,at_singleton]
  simp

theorem At.mem {blocks : List Block} {p : Nat} {b : Block} (there : At blocks p b) : b ∈ blocks := by
  obtain ⟨pre,post,rfl,_⟩ := there
  simp

theorem At.bound {blocks : List Block} {p : Nat} {b : Block} (there : At blocks p b) : p + b.len ≤ total blocks := by
  obtain ⟨pre,post,rfl,rfl⟩ := there
  simp

-- Two blocks of a list are the same block or do not meet.
theorem At.apart {blocks : List Block} {p q : Nat} {b c : Block} (first : At blocks p b) (second : At blocks q c) :
    p = q ∧ b = c ∨ p + b.len ≤ q ∨ q + c.len ≤ p := by
  obtain ⟨pre,post,rfl,rfl⟩ := first
  rcases at_append.mp second with before | ⟨q,rfl,later⟩
  · exact Or.inr (Or.inr before.bound)
  · rcases at_cons.mp later with ⟨rfl,rfl⟩ | ⟨r,rfl,_⟩
    · exact Or.inl ⟨rfl,rfl⟩
    · exact Or.inr (Or.inl (by omega))

theorem at_middle {pre mid post : List Block} {p : Nat} {b : Block} : At (pre ++ mid ++ post) p b ↔
    At pre p b ∨ (∃ q, p = total pre + q ∧ At mid q b) ∨ ∃ q, p = total pre + total mid + q ∧ At post q b := by
  rw [at_append,at_append,total_append,or_assoc]

-- Cutting and joining free blocks moves no used one.
theorem used_at_middle {pre mid mid' post : List Block} (size : total mid' = total mid) (free : ∀ b ∈ mid, b.used = false)
    (free' : ∀ b ∈ mid', b.used = false) {p : Nat} {b : Block} (used : b.used = true) :
    At (pre ++ mid' ++ post) p b ↔ At (pre ++ mid ++ post) p b := by
  have none' : ∀ {blocks : List Block}, (∀ b ∈ blocks, b.used = false) → ¬∃ q, p = total pre + q ∧ At blocks q b := by
    rintro blocks free ⟨q,_,there⟩
    rw [free b there.mem] at used
    cases used
  rw [at_middle,at_middle,size]
  constructor
  · rintro (first | middle | later)
    · exact Or.inl first
    · exact absurd middle (none' free')
    · exact Or.inr (Or.inr later)
  · rintro (first | middle | later)
    · exact Or.inl first
    · exact absurd middle (none' free)
    · exact Or.inr (Or.inr later)

theorem At.inUse_pos {blocks : List Block} {p : Nat} {b : Block} (there : At blocks p b) (used : b.used = true) :
    b.len ≤ inUse blocks := by
  obtain ⟨pre,post,rfl,_⟩ := there
  rw [inUse_append,inUse_cons,if_pos used]
  omega

theorem inUse_le_total (blocks : List Block) : inUse blocks ≤ total blocks := by
  induction blocks with
  | nil => exact Nat.le_refl 0
  | cons b rest ih =>
    rw [inUse_cons,total_cons]
    split <;> omega

theorem inUse_all {blocks : List Block} (all : ∀ b ∈ blocks, b.used = true) : inUse blocks = total blocks := by
  induction blocks with
  | nil => rfl
  | cons b rest ih =>
    rw [inUse_cons,total_cons,if_pos (all b List.mem_cons_self),ih fun c there => all c (List.mem_cons_of_mem b there)]

theorem merged_all_free {blocks : List Block} (merged : Merged blocks) (free : ∀ b ∈ blocks, b.used = false) :
    blocks.length ≤ 1 := by
  match blocks with
  | [] => exact Nat.zero_le 1
  | [_] => exact Nat.le_refl 1
  | a :: b :: rest =>
    rcases (List.isChain_cons_cons.mp merged).1 with used | used
    · rw [free a List.mem_cons_self] at used
      cases used
    · rw [free b (List.mem_cons_of_mem a List.mem_cons_self)] at used
      cases used

-- The links that such a list keeps in memory, by address: where the next block starts,
-- where the one before starts, and the mark of a used block.
structure Links where
  next : Nat → Nat
  prev : Nat → Nat
  used : Nat → Bool

-- The start of the last block, or what the first one has for its predecessor.
def last (before start : Nat) : List Block → Nat
  | [] => before
  | b :: rest => last start (start + b.len) rest

def Linked (links : Links) : Nat → Nat → List Block → Prop
  | _,_,[] => True
  | before,start,b :: rest => links.used start = b.used ∧ links.prev start = before ∧ links.next start = start + b.len ∧
      Linked links start (start + b.len) rest

variable {links other : Links} {before start : Nat}

theorem last_append (before start : Nat) (first second : List Block) :
    last before start (first ++ second) = last (last before start first) (start + total first) second := by
  induction first generalizing before start with
  | nil => rfl
  | cons b rest ih =>
    rw [List.cons_append,last,ih,last,total_cons,Nat.add_assoc]

theorem linked_append {first second : List Block} : Linked links before start (first ++ second) ↔
    Linked links before start first ∧ Linked links (last before start first) (start + total first) second := by
  induction first generalizing before start with
  | nil => simp [Linked,last]
  | cons b rest ih =>
    rw [List.cons_append,Linked,Linked,ih,last,total_cons,Nat.add_assoc]
    simp only [and_assoc]

def Links.Agree (links other : Links) (p : Nat) : Prop :=
  other.next p = links.next p ∧ other.prev p = links.prev p ∧ other.used p = links.used p

theorem linked_congr {blocks : List Block} (agree : ∀ p, start ≤ p → p < start + total blocks → links.Agree other p)
    (positive : ∀ b ∈ blocks, 0 < b.len) (linked : Linked links before start blocks) : Linked other before start blocks := by
  induction blocks generalizing before start with
  | nil => trivial
  | cons b rest ih =>
    obtain ⟨used,prev,next,more⟩ := linked
    have here := positive b List.mem_cons_self
    rw [total_cons] at agree
    obtain ⟨next',prev',used'⟩ := agree start (Nat.le_refl _) (by omega)
    refine ⟨used'.trans used,prev'.trans prev,next'.trans next,?_⟩
    exact ih (fun p above below => agree p (by omega) (by omega)) (fun c there => positive c (List.mem_cons_of_mem b there)) more

-- Blocks may be cut and joined inside a stretch as long as the block after it learns
-- where its predecessor starts.
theorem linked_replace {pre mid mid' post : List Block} (linked : Linked links before start (pre ++ mid ++ post))
    (positive : ∀ b ∈ pre ++ mid ++ post, 0 < b.len) (size : total mid' = total mid)
    (below : ∀ p, p < start + total pre → links.Agree other p)
    (inside : Linked other (last before start pre) (start + total pre) mid')
    (above : ∀ p, start + total pre + total mid < p → links.Agree other p)
    (border : post ≠ [] → other.next (start + total pre + total mid) = links.next (start + total pre + total mid) ∧
      other.used (start + total pre + total mid) = links.used (start + total pre + total mid) ∧
      other.prev (start + total pre + total mid) = last (last before start pre) (start + total pre) mid') :
    Linked other before start (pre ++ mid' ++ post) := by
  obtain ⟨front,after⟩ := linked_append.mp linked
  obtain ⟨first,_⟩ := linked_append.mp front
  rw [total_append,← Nat.add_assoc] at after
  refine linked_append.mpr ⟨linked_append.mpr ⟨?_,inside⟩,?_⟩
  · exact linked_congr (fun p _ less => below p less) (fun b there => positive b (by simp [there])) first
  · rw [total_append,← Nat.add_assoc,size]
    cases post with
    | nil => trivial
    | cons b rest =>
      obtain ⟨used,prev,next,more⟩ := after
      obtain ⟨next',used',prev'⟩ := border (List.cons_ne_nil b rest)
      have here := positive b (by simp)
      refine ⟨used'.trans used,prev'.trans (last_append _ _ pre mid').symm,next'.trans next,?_⟩
      exact linked_congr (fun p _ _ => above p (by omega)) (fun c there => positive c (by simp [there])) more

theorem linked_at {blocks : List Block} {p : Nat} {b : Block} (linked : Linked links before start blocks) (there : At blocks p b) :
    links.used (start + p) = b.used ∧ links.next (start + p) = start + p + b.len := by
  obtain ⟨pre,post,rfl,rfl⟩ := there
  obtain ⟨_,used,_,next,_⟩ := linked_append.mp linked
  exact ⟨used,next⟩

end BlockList
