import SssAlarmHost.SmallMem

namespace SssAlarmHost.SmallMem
open BlockList

variable {region : Region} {headers after : Nat → HeapMem} {s : Heap} {blocks pre post : List Block} {len : Nat} {mark : Bool}

-- The lowest free block is where lfree says.
def Lowest (s : Heap) (blocks : List Block) : Prop := ∀ p b, At blocks p b → b.used = false → s.lfree ≤ p

-- No header is written inside one of the blocks that are kept.
def Spares (headers after : Nat → HeapMem) (keep : Nat → Nat → Prop) : Prop :=
  ∀ q, after q = headers q ∨ ∀ p len, keep p len → q ≤ p ∨ p + len ≤ q

theorem Spares.trans {middle : Nat → HeapMem} {keep : Nat → Nat → Prop} (first : Spares headers middle keep)
    (second : Spares middle after keep) : Spares headers after keep := by
  intro q
  rcases second q with same | outside
  · rw [same]
    exact first q
  · exact Or.inr outside

theorem Spares.mono {keep fewer : Nat → Nat → Prop} (spares : Spares headers after keep) (within : ∀ p len, fewer p len → keep p len) :
    Spares headers after fewer := by
  intro q
  rcases spares q with same | outside
  · exact Or.inl same
  · exact Or.inr fun p len kept => outside p len (within p len kept)

def Used (blocks : List Block) (p len : Nat) : Prop := At blocks p ⟨len,true⟩

-- Headers are written where blocks start and at heap_end.
theorem spares_of_starts (walled : Walled region headers blocks) {before after : Nat → HeapMem}
    (starts : ∀ q, after q ≠ before q → q = region.heapEnd ∨ ∃ b, At blocks q b) : Spares before after (Used blocks) := by
  intro q
  by_cases same : after q = before q
  · exact Or.inl same
  · refine Or.inr fun p len there => ?_
    rcases starts q same with rfl | ⟨b,here⟩
    · have bound := there.bound
      rw [walled.size] at bound
      exact Or.inr bound
    · rcases At.apart there here with ⟨rfl,_⟩ | before' | after'
      · exact Or.inl (Nat.le_refl _)
      · exact Or.inr before'
      · exact Or.inl (by omega)

theorem findLoop_spec (walled : Walled region s.headers blocks) (size rounds : Nat) {pre rest : List Block} (same : blocks = pre ++ rest)
    (enough : rest.length ≤ rounds) :
    (∀ p, findLoop region s size rounds (total pre) = some p →
      ∃ b, At blocks p b ∧ b.used = false ∧ size + sizeofStructMem ≤ b.len) ∧
    (findLoop region s size rounds (total pre) = none → ∀ p b, At blocks p b → b.used = false → size + sizeofStructMem ≤ b.len →
      total pre ≤ p → region.memSizeAligned - size ≤ p) := by
  have twelve : sizeofStructMem = 12 := rfl
  induction rest generalizing pre rounds with
  | nil =>
    have whole := walled.size
    rw [same,List.append_nil,Region.heapEnd] at whole
    have stop : findLoop region s size rounds (total pre) = none := by
      cases rounds with
      | zero => rfl
      | succ rounds => rw [findLoop,if_neg (by omega)]
    rw [stop]
    refine ⟨fun p found => (by cases found),fun _ p b there _ _ above => ?_⟩
    have := there.bound
    rw [walled.size,Region.heapEnd] at this
    omega
  | cons c rest ih =>
    cases rounds with
    | zero => cases enough
    | succ rounds =>
      have here : At blocks (total pre) c := ⟨pre,rest,same,rfl⟩
      have fits := walled.fits c here.mem
      obtain ⟨used,next⟩ := walled.at here
      obtain ⟨found,missed⟩ := ih rounds (show blocks = (pre ++ [c]) ++ rest by rw [same]; simp)
        (Nat.le_of_succ_le_succ enough)
      rw [total_append,total_cons,total_nil,Nat.add_zero,← next] at found missed
      rw [findLoop]
      by_cases low : total pre < region.memSizeAligned - size
      · rw [if_pos low,used]
        by_cases fit : c.used = false ∧ size ≤ (s.headers (total pre)).next - (total pre + sizeofStructMem)
        · rw [if_pos fit]
          refine ⟨fun p chosen => ?_,fun missed => (by cases missed)⟩
          cases chosen
          refine ⟨c,here,fit.1,?_⟩
          have := fit.2
          rw [next] at this
          omega
        · rw [if_neg fit]
          refine ⟨found,fun none' p b there free big above => ?_⟩
          rcases At.apart here there with ⟨rfl,rfl⟩ | later | earlier
          · refine absurd ⟨free,?_⟩ fit
            rw [next]
            omega
          · exact missed none' p b there free big (by rw [next]; exact later)
          · omega
      · rw [if_neg low]
        exact ⟨fun p chosen => (by cases chosen),fun _ p b _ _ _ above => by omega⟩

theorem lfreeLoop_spec (walled : Walled region s.headers blocks) (rounds : Nat) {pre rest : List Block} (same : blocks = pre ++ rest)
    (enough : rest.length ≤ rounds) :
    (lfreeLoop region s rounds (total pre) = region.heapEnd ∨
      ∃ b, At blocks (lfreeLoop region s rounds (total pre)) b ∧ b.used = false) ∧
    ∀ p b, At blocks p b → b.used = false → total pre ≤ p → lfreeLoop region s rounds (total pre) ≤ p := by
  induction rest generalizing pre rounds with
  | nil =>
    have whole := walled.size
    rw [same,List.append_nil] at whole
    have stop : lfreeLoop region s rounds (total pre) = region.heapEnd := by
      cases rounds with
      | zero => exact whole
      | succ rounds => rw [lfreeLoop,if_neg (by simp [whole]),whole]
    rw [stop]
    refine ⟨Or.inl rfl,fun p b there _ above => ?_⟩
    rw [← whole]
    exact above
  | cons c rest ih =>
    cases rounds with
    | zero => cases enough
    | succ rounds =>
      have here : At blocks (total pre) c := ⟨pre,rest,same,rfl⟩
      have small := walled.below here
      obtain ⟨used,next⟩ := walled.at here
      obtain ⟨stops,lowest⟩ := ih rounds (show blocks = (pre ++ [c]) ++ rest by rw [same]; simp) (Nat.le_of_succ_le_succ enough)
      rw [total_append,total_cons,total_nil,Nat.add_zero,← next] at stops lowest
      rw [lfreeLoop,used]
      by_cases taken : c.used = true
      · rw [if_pos ⟨taken,by omega⟩]
        refine ⟨stops,fun p b there free above => ?_⟩
        rcases At.apart here there with ⟨rfl,rfl⟩ | later | earlier
        · rw [taken] at free
          cases free
        · exact lowest p b there free (by rw [next]; exact later)
        · have := (walled.fits b there.mem).1
          omega
      · rw [if_neg fun both => taken both.1]
        exact ⟨Or.inr ⟨c,here,by simpa using taken⟩,fun p b _ _ above => above⟩

-- One of the two steps of plug_holes leaves the same used blocks, and lfree where it
-- was or lower.
structure Plugs (region : Region) (s next : Heap) (blocks blocks' : List Block) : Prop where
  walled : Walled region next.headers blocks'
  free : FreeAt region next blocks'
  same : ∀ p len, Used blocks' p len ↔ Used blocks p len
  inUse : inUse blocks' = inUse blocks
  from' : ∀ p b, At blocks' p b → b.used = false → ∃ c, At blocks p c ∧ c.used = false
  lower : next.lfree ≤ s.lfree
  accounted : next.usedMem = s.usedMem
  spares : Spares s.headers next.headers (Used blocks)

theorem Plugs.refl (walled : Walled region s.headers blocks) (free : FreeAt region s blocks) : Plugs region s s blocks blocks :=
  ⟨walled,free,fun _ _ => Iff.rfl,rfl,fun _ b there unused => ⟨b,there,unused⟩,Nat.le_refl _,rfl,fun _ => Or.inl rfl⟩

theorem Plugs.trans {middle next : Heap} {between blocks' : List Block} (first : Plugs region s middle blocks between)
    (second : Plugs region middle next between blocks') : Plugs region s next blocks blocks' where
  walled := second.walled
  free := second.free
  same p len := (second.same p len).trans (first.same p len)
  inUse := second.inUse.trans first.inUse
  from' p b there unused := by
    obtain ⟨c,there',unused'⟩ := second.from' p b there unused
    exact first.from' p c there' unused'
  lower := Nat.le_trans second.lower first.lower
  accounted := second.accounted.trans first.accounted
  spares := first.spares.trans (second.spares.mono fun p len used => (first.same p len).mpr used)

theorem join_plugs {first second : Nat} (walled : Walled region s.headers (pre ++ [⟨first,false⟩,⟨second,false⟩] ++ post))
    (free : FreeAt region s (pre ++ [⟨first,false⟩,⟨second,false⟩] ++ post)) :
    Plugs region s (((s.moveLfree (total pre + first) (total pre)).setNext (total pre) (total pre + first + second)).setPrev
      (total pre + first + second) (total pre))
      (pre ++ [⟨first,false⟩,⟨second,false⟩] ++ post) (pre ++ [⟨first + second,false⟩] ++ post) := by
  have one := (walled.fits ⟨first,false⟩ (by simp)).1
  have two := (walled.fits ⟨second,false⟩ (by simp)).1
  dsimp only at one two
  have whole : total [⟨first + second,false⟩] = total [⟨first,false⟩,⟨second,false⟩] := by simp
  have atFirst : At (pre ++ [⟨first,false⟩,⟨second,false⟩] ++ post) (total pre) ⟨first,false⟩ :=
    ⟨pre,⟨second,false⟩ :: post,by simp,rfl⟩
  obtain ⟨start,finish,other⟩ := link_at (s.moveLfree (total pre + first) (total pre)) (show total pre ≠ total pre + first + second by omega)
  refine ⟨join_walled walled,?_,fun p len => ?_,by simp,?_,?_,rfl,?_⟩
  · unfold FreeAt Heap.setPrev Heap.setNext Heap.set Heap.moveLfree
    dsimp only
    by_cases moved : s.lfree = total pre + first
    · rw [if_pos moved]
      exact Or.inr ⟨_,block_at pre post _,rfl⟩
    · rw [if_neg moved]
      rcases free with ends | ⟨b,there,unused⟩
      · exact Or.inl ends
      · refine Or.inr ?_
        rcases at_middle.mp there with before | ⟨q,place,inside⟩ | later
        · exact ⟨b,at_middle.mpr (Or.inl before),unused⟩
        · rcases at_cons.mp inside with ⟨rfl,_⟩ | ⟨r,rfl,next⟩
          · rw [place]
            exact ⟨_,block_at pre post _,rfl⟩
          · obtain ⟨rfl,_⟩ := at_singleton.mp next
            exact absurd place moved
        · exact ⟨b,at_middle.mpr (Or.inr (Or.inr (by rw [whole]; exact later))),unused⟩
  · exact used_at_middle whole (by simp) (by simp) rfl
  · intro p b there unused
    rcases at_middle.mp there with before | ⟨q,rfl,inside⟩ | later
    · exact ⟨b,at_middle.mpr (Or.inl before),unused⟩
    · obtain ⟨rfl,_⟩ := at_singleton.mp inside
      exact ⟨_,atFirst,rfl⟩
    · exact ⟨b,at_middle.mpr (Or.inr (Or.inr (by rw [← whole]; exact later))),unused⟩
  · unfold Heap.setPrev Heap.setNext Heap.set Heap.moveLfree
    dsimp only
    split <;> omega
  · refine spares_of_starts walled fun q changed => ?_
    by_cases here : q = total pre
    · exact Or.inr ⟨_,by rw [here]; exact atFirst⟩
    · by_cases there : q = total pre + first + second
      · have size := walled.size
        cases post with
        | nil =>
          left
          simp at size
          omega
        | cons b rest => exact Or.inr ⟨b,pre ++ [⟨first,false⟩,⟨second,false⟩],rest,by simp,by rw [there]; simp; omega⟩
      · exact absurd (other q here there) changed

theorem plugForward_plugs (walled : Walled region s.headers (pre ++ [⟨len,false⟩] ++ post))
    (free : FreeAt region s (pre ++ [⟨len,false⟩] ++ post)) (merged : Merged post) :
    ∃ len' post', Plugs region s (plugForward region s (total pre)) (pre ++ [⟨len,false⟩] ++ post) (pre ++ [⟨len',false⟩] ++ post') ∧
      Merged post' ∧ ∀ b ∈ post'.head?, b.used = true := by
  have small := walled.below (block_at pre post ⟨len,false⟩)
  have next := (walled.at (block_at pre post ⟨len,false⟩)).2
  dsimp only at small next
  unfold plugForward
  dsimp only
  rw [next]
  cases post with
  | nil =>
    have ends : total pre + len = region.heapEnd := by
      have size := walled.size
      simpa using size
    rw [if_neg (by simp [ends])]
    exact ⟨len,[],Plugs.refl walled free,merged,by simp⟩
  | cons b rest =>
    have there : At (pre ++ [⟨len,false⟩] ++ b :: rest) (total pre + len) b := ⟨pre ++ [⟨len,false⟩],rest,by simp,by simp⟩
    have after := walled.below there
    obtain ⟨used,next'⟩ := walled.at there
    rw [used,moveLfree_headers,next']
    cases taken : b.used with
    | true =>
      rw [if_neg (by simp)]
      exact ⟨len,b :: rest,Plugs.refl walled free,merged,by simp [taken]⟩
    | false =>
      rw [if_pos ⟨by omega,rfl,by omega⟩]
      obtain ⟨second,mark⟩ := b
      dsimp only at taken
      subst taken
      have split : pre ++ [⟨len,false⟩] ++ ⟨second,false⟩ :: rest = pre ++ [⟨len,false⟩,⟨second,false⟩] ++ rest := by simp
      rw [split] at walled free ⊢
      obtain ⟨_,merged',_,head⟩ := merged_free.mp (show Merged ([] ++ ⟨second,false⟩ :: rest) from merged)
      refine ⟨len + second,rest,?_,merged',head⟩
      exact join_plugs walled free

theorem plugBackward_plugs (walled : Walled region s.headers (pre ++ [⟨len,false⟩] ++ post))
    (free : FreeAt region s (pre ++ [⟨len,false⟩] ++ post)) (merged : Merged pre) :
    ∃ pre' len', Plugs region s (plugBackward s (total pre)) (pre ++ [⟨len,false⟩] ++ post) (pre' ++ [⟨len',false⟩] ++ post) ∧
      Merged pre' ∧ ∀ b ∈ pre'.getLast?, b.used = true := by
  have small := walled.below (block_at pre post ⟨len,false⟩)
  obtain ⟨_,prev,next,_⟩ := linked_middle walled
  change (s.headers (total pre)).prev = last 0 0 pre at prev
  change (s.headers (total pre)).next = total pre + len at next
  unfold plugBackward
  dsimp only at small ⊢
  rw [prev,moveLfree_headers,next]
  rcases List.eq_nil_or_concat' pre with rfl | ⟨before,b,rfl⟩
  · rw [if_neg (by simp [last])]
    exact ⟨[],len,Plugs.refl walled free,merged,by simp⟩
  · have there : At (before ++ [b] ++ [⟨len,false⟩] ++ post) (total before) b := ⟨before,[⟨len,false⟩] ++ post,by simp,rfl⟩
    have fits := (walled.fits b there.mem).1
    obtain ⟨used,_⟩ := walled.at there
    have place : last 0 0 (before ++ [b]) = total before := by rw [last_append,Nat.zero_add]; rfl
    rw [place,used,total_append,total_cons,total_nil,Nat.add_zero]
    cases taken : b.used with
    | true =>
      rw [if_neg (by simp)]
      exact ⟨before ++ [b],len,Plugs.refl walled free,merged,by simp [taken]⟩
    | false =>
      rw [if_pos ⟨by omega,rfl⟩]
      obtain ⟨first,mark⟩ := b
      dsimp only at taken
      subst taken
      have split : before ++ [⟨first,false⟩] ++ [⟨len,false⟩] ++ post = before ++ [⟨first,false⟩,⟨len,false⟩] ++ post := by simp
      rw [split] at walled free ⊢
      obtain ⟨merged',_,tail,_⟩ := merged_free.mp (show Merged (before ++ ⟨first,false⟩ :: []) from merged)
      refine ⟨before,first + len,?_,merged',tail⟩
      exact join_plugs walled free

theorem plugHoles_plugs (walled : Walled region s.headers (pre ++ [⟨len,false⟩] ++ post))
    (free : FreeAt region s (pre ++ [⟨len,false⟩] ++ post)) (before : Merged pre) (behind : Merged post) :
    ∃ blocks', Plugs region s (plugHoles region s (total pre)) (pre ++ [⟨len,false⟩] ++ post) blocks' ∧ Merged blocks' := by
  obtain ⟨len₁,post',forward,after,head⟩ := plugForward_plugs walled free behind
  obtain ⟨pre',len₂,backward,front,tail⟩ := plugBackward_plugs forward.walled forward.free before
  unfold plugHoles
  refine ⟨pre' ++ [⟨len₂,false⟩] ++ post',forward.trans backward,?_⟩
  rw [List.append_assoc]
  exact merged_free.mpr ⟨front,after,tail,head⟩

theorem mark_spares (walled : Walled region headers blocks) (s : Heap) {p : Nat} {b : Block} (there : At blocks p b) (used : Bool) :
    Spares s.headers (s.setUsed p used).headers (Used blocks) := by
  refine spares_of_starts walled fun q changed => ?_
  by_cases here : q = p
  · exact Or.inr ⟨b,by rw [here]; exact there⟩
  · exact absurd (set_other s _ here) changed

theorem carve_spares {size : Nat} (walled : Walled region s.headers (pre ++ [⟨len,mark⟩] ++ post))
    (carved : Walled region (carve region s (total pre) size).headers
      (pre ++ [⟨sizeofStructMem + size,mark⟩,⟨len - (sizeofStructMem + size),false⟩] ++ post))
    (room : size + sizeofStructMem + 16 ≤ len) :
    Spares s.headers (carve region s (total pre) size).headers
      (Used (pre ++ [⟨sizeofStructMem + size,mark⟩,⟨len - (sizeofStructMem + size),false⟩] ++ post)) := by
  have twelve : sizeofStructMem = 12 := rfl
  have next : (s.headers (total pre)).next = total pre + len := (linked_middle walled).2.2.1
  obtain ⟨_,_,_,other⟩ := carve_at region next (show total pre + sizeofStructMem + size < total pre + len by omega)
  refine spares_of_starts carved fun q changed => ?_
  by_cases first : q = total pre
  · exact Or.inr ⟨⟨sizeofStructMem + size,mark⟩,pre,⟨len - (sizeofStructMem + size),false⟩ :: post,by simp,first.symm⟩
  · by_cases second : q = total pre + sizeofStructMem + size
    · refine Or.inr ⟨⟨len - (sizeofStructMem + size),false⟩,pre ++ [⟨sizeofStructMem + size,mark⟩],post,by simp,?_⟩
      rw [second,total_append,total_cons,total_nil]
      dsimp only
      omega
    · by_cases third : q = total pre + len
      · have whole := walled.size
        cases post with
        | nil =>
          left
          simp at whole
          omega
        | cons b rest =>
          refine Or.inr ⟨b,pre ++ [⟨sizeofStructMem + size,mark⟩,⟨len - (sizeofStructMem + size),false⟩],rest,by simp,?_⟩
          rw [third,total_append,total_cons,total_cons,total_nil]
          dsimp only
          omega
      · exact absurd (other q first second third) changed

-- What rt_malloc does to the block it found.
structure Occupies (region : Region) (s next : Heap) (pre : List Block) (len size : Nat) (post : List Block) (part : Nat)
    (rest : List Block) : Prop where
  walled : Walled region next.headers (pre ++ (⟨part,true⟩ :: rest) ++ post)
  enough : sizeofStructMem + size ≤ part
  whole : part + total rest = len
  unused : rest = [] ∨ ∃ r, rest = [⟨r,false⟩]
  lfree : next.lfree = s.lfree
  accounted : next.usedMem = s.usedMem + part
  spares : Spares s.headers next.headers (Used (pre ++ [⟨len,false⟩] ++ post))

theorem occupy_occupies {size : Nat} (walled : Walled region s.headers (pre ++ [⟨len,false⟩] ++ post)) (aligned : 4 ∣ size)
    (least : minSizeAligned ≤ size) (room : size + sizeofStructMem ≤ len) :
    ∃ part rest, Occupies region s (occupy region s (total pre) size) pre len size post part rest := by
  have twelve : sizeofStructMem = 12 := rfl
  have twelve' : minSizeAligned = 12 := rfl
  have next : (s.headers (total pre)).next = total pre + len := (linked_middle walled).2.2.1
  unfold occupy
  rw [next]
  by_cases split : size + sizeofStructMem + minSizeAligned ≤ total pre + len - (total pre + sizeofStructMem)
  · rw [if_pos split]
    have carved := carve_walled walled aligned (by omega) (show size + sizeofStructMem + 16 ≤ len by omega)
    have shape : pre ++ [⟨sizeofStructMem + size,false⟩,⟨len - (sizeofStructMem + size),false⟩] ++ post =
        pre ++ [⟨sizeofStructMem + size,false⟩] ++ (⟨len - (sizeofStructMem + size),false⟩ :: post) := by simp
    have parted := carved
    rw [shape] at parted
    have marked := mark_walled parted true
    refine ⟨sizeofStructMem + size,[⟨len - (sizeofStructMem + size),false⟩],?_,Nat.le_refl _,?_,Or.inr ⟨_,rfl⟩,?_,?_,?_⟩
    · have shape' : pre ++ (⟨sizeofStructMem + size,true⟩ :: [⟨len - (sizeofStructMem + size),false⟩]) ++ post =
          pre ++ [⟨sizeofStructMem + size,true⟩] ++ (⟨len - (sizeofStructMem + size),false⟩ :: post) := by simp
      rw [shape']
      exact marked
    · simp
      omega
    · unfold Heap.account Heap.setUsed Heap.set carve
      dsimp only
      split <;> rfl
    · unfold Heap.account Heap.setUsed Heap.set carve
      dsimp only
      split <;> exact congrArg _ (Nat.add_comm _ _)
    · have kept : ∀ p l, Used (pre ++ [⟨len,false⟩] ++ post) p l →
          Used (pre ++ [⟨sizeofStructMem + size,false⟩,⟨len - (sizeofStructMem + size),false⟩] ++ post) p l :=
        fun p l => (used_at_middle (by simp; omega) (by simp) (by simp) rfl).mpr
      have start : At (pre ++ [⟨sizeofStructMem + size,false⟩,⟨len - (sizeofStructMem + size),false⟩] ++ post) (total pre)
          ⟨sizeofStructMem + size,false⟩ := by
        rw [shape]
        exact block_at pre _ _
      exact ((carve_spares walled carved (by omega)).trans (mark_spares carved _ start true)).mono kept
  · rw [if_neg split]
    refine ⟨len,[],mark_walled walled true,by omega,rfl,Or.inl rfl,rfl,?_,mark_spares walled s (block_at pre post _) true⟩
    show s.usedMem + (total pre + len - total pre) = s.usedMem + len
    omega

-- An operation gives the list of blocks that its result holds, with the used blocks it
-- adds and removes.
structure Makes (region : Region) (s next : Heap) (blocks blocks' : List Block) (added removed : Nat → Nat → Prop) : Prop where
  holds : Holds region next blocks'
  same : ∀ p len, Used blocks' p len ↔ Used blocks p len ∧ ¬removed p len ∨ added p len
  spares : Spares s.headers next.headers fun p len => Used blocks p len ∧ ¬removed p len

theorem take_makes {size : Nat} (holds : Holds region s (pre ++ [⟨len,false⟩] ++ post)) (aligned : 4 ∣ size)
    (least : minSizeAligned ≤ size) (room : size + sizeofStructMem ≤ len) :
    ∃ part blocks', sizeofStructMem + size ≤ part ∧ part ≤ len ∧
      Makes region s (take region s (total pre) size) (pre ++ [⟨len,false⟩] ++ post) blocks'
        (fun p l => p = total pre ∧ l = part) (fun _ _ => False) ∧
      (Lowest s (pre ++ [⟨len,false⟩] ++ post) → Lowest (take region s (total pre) size) blocks') := by
  obtain ⟨part,rest,made⟩ := occupy_occupies holds.walled aligned least room
  have whole : total (⟨part,true⟩ :: rest) = total [⟨len,false⟩] := by
    have := made.whole
    simp
    exact this
  have unused : ∀ b ∈ rest, b.used = false := by
    intro b there
    rcases made.unused with rfl | ⟨r,rfl⟩
    · cases there
    · cases List.mem_singleton.mp there
      rfl
  -- The free blocks are those from before, but the one taken, and what is left of it.
  have stays : ∀ p b, p ≠ total pre → At (pre ++ [⟨len,false⟩] ++ post) p b →
      At (pre ++ (⟨part,true⟩ :: rest) ++ post) p b := by
    intro p b other there
    rcases at_middle.mp there with before | ⟨q,rfl,inside⟩ | later
    · exact at_middle.mpr (Or.inl before)
    · obtain ⟨rfl,_⟩ := at_singleton.mp inside
      exact absurd rfl other
    · exact at_middle.mpr (Or.inr (Or.inr (by rw [whole]; exact later)))
  have from' : ∀ p b, At (pre ++ (⟨part,true⟩ :: rest) ++ post) p b → b.used = false →
      total pre ≤ p ∨ At (pre ++ [⟨len,false⟩] ++ post) p b := by
    intro p b there _
    rcases at_middle.mp there with before | ⟨q,rfl,_⟩ | later
    · exact Or.inr (at_middle.mpr (Or.inl before))
    · exact Or.inl (Nat.le_add_right _ _)
    · exact Or.inr (at_middle.mpr (Or.inr (Or.inr (by rw [← whole]; exact later))))
  have headers : (take region s (total pre) size).headers = (occupy region s (total pre) size).headers := by
    unfold take
    dsimp only
    split <;> rfl
  have usedMem : (take region s (total pre) size).usedMem = (occupy region s (total pre) size).usedMem := by
    unfold take
    dsimp only
    split <;> rfl
  obtain ⟨before,behind,_,_⟩ := merged_free.mp (show Merged (pre ++ ⟨len,false⟩ :: post) by
    have merged := holds.merged
    rwa [List.append_assoc] at merged)
  obtain ⟨stops,lowest⟩ := lfreeLoop_spec made.walled region.heapEnd
    (show pre ++ (⟨part,true⟩ :: rest) ++ post = pre ++ (⟨part,true⟩ :: rest ++ post) by simp)
    (by
      have all := length_le_total made.walled.positive
      rw [made.walled.size] at all
      simp at all ⊢
      omega)
  refine ⟨part,pre ++ (⟨part,true⟩ :: rest) ++ post,made.enough,?_,⟨⟨?_,?_,?_,?_⟩,?_,?_⟩,?_⟩
  · have := made.whole
    omega
  · rw [headers]
    exact made.walled
  · unfold FreeAt take
    dsimp only
    rw [made.lfree]
    by_cases here : total pre = s.lfree
    · rw [if_pos here]
      dsimp only
      rw [← here]
      exact stops
    · rw [if_neg here,made.lfree]
      rcases holds.free with ends | ⟨b,there,free⟩
      · exact Or.inl ends
      · exact Or.inr ⟨b,stays _ b (Ne.symm here) there,free⟩
  · rw [List.append_assoc,List.cons_append]
    refine merged_used.mpr ⟨before,?_⟩
    rcases made.unused with rfl | ⟨r,rfl⟩
    · exact behind
    · have merged := holds.merged
      rw [List.append_assoc] at merged
      obtain ⟨_,_,_,head⟩ := merged_free.mp merged
      exact merged_free.mpr (show Merged [] ∧ _ from ⟨List.isChain_nil,behind,by simp,head⟩)
  · rw [usedMem,made.accounted,holds.accounted]
    rcases made.unused with rfl | ⟨r,rfl⟩
    · simp
      omega
    · simp
      omega
  · intro p l
    unfold Used
    constructor
    · intro there
      rcases at_middle.mp there with before | ⟨q,rfl,inside⟩ | later
      · exact Or.inl ⟨at_middle.mpr (Or.inl before),id⟩
      · rcases at_cons.mp inside with ⟨rfl,same⟩ | ⟨r,_,next⟩
        · exact Or.inr ⟨rfl,congrArg Block.len same⟩
        · have := unused _ next.mem
          cases this
      · exact Or.inl ⟨at_middle.mpr (Or.inr (Or.inr (by rw [← whole]; exact later))),id⟩
    · rintro (⟨there,_⟩ | ⟨rfl,rfl⟩)
      · refine stays p _ ?_ there
        rintro rfl
        rcases At.apart there (block_at pre post ⟨len,false⟩) with ⟨_,same⟩ | before | after
        · cases same
        · have := (holds.walled.fits _ there.mem).1
          omega
        · have := (holds.walled.fits _ (block_at pre post ⟨len,false⟩).mem).1
          omega
      · exact ⟨pre,rest ++ post,by simp,rfl⟩
  · rw [headers]
    exact made.spares.mono fun p l kept => kept.1
  · intro low p b there free
    unfold take
    dsimp only
    rw [made.lfree]
    have chosen := low (total pre) _ (block_at pre post ⟨len,false⟩) rfl
    by_cases here : total pre = s.lfree
    · rw [if_pos here]
      dsimp only
      rw [← here]
      rcases from' p b there free with above | old
      · exact lowest p b there free above
      · exact lowest p b there free (by rw [here]; exact low p b old free)
    · rw [if_neg here,made.lfree]
      rcases from' p b there free with above | old
      · exact Nat.le_trans chosen above
      · exact low p b old free

theorem release_makes (holds : Holds region s (pre ++ [⟨len,true⟩] ++ post)) :
    ∃ blocks', Makes region s (release region s (total pre)) (pre ++ [⟨len,true⟩] ++ post) blocks'
        (fun _ _ => False) (fun p _ => p = total pre) ∧
      (Lowest s (pre ++ [⟨len,true⟩] ++ post) → Lowest (release region s (total pre)) blocks') ∧
      (release region s (total pre)).lfree ≤ total pre := by
  have small := (holds.walled.fits _ (block_at pre post ⟨len,true⟩).mem).1
  dsimp only at small
  have marked := mark_walled holds.walled false
  have next : ((s.setUsed (total pre) false).headers (total pre)).next = total pre + len := (linked_middle marked).2.2.1
  obtain ⟨before,behind⟩ := merged_used.mp (show Merged (pre ++ ⟨len,true⟩ :: post) by
    have merged := holds.merged
    rwa [List.append_assoc] at merged)
  obtain ⟨headers,usedMem,lfree⟩ := lower_fields (s.setUsed (total pre) false) (total pre)
  have free : FreeAt region {(s.setUsed (total pre) false).lower (total pre) with usedMem := s.usedMem - len}
      (pre ++ [⟨len,false⟩] ++ post) := by
    unfold FreeAt
    dsimp only
    rw [lfree]
    change min (total pre) s.lfree = _ ∨ ∃ b, At _ (min (total pre) s.lfree) b ∧ _
    by_cases below : total pre < s.lfree
    · rw [Nat.min_eq_left (by omega)]
      exact Or.inr ⟨_,block_at pre post _,rfl⟩
    · rw [Nat.min_eq_right (by omega)]
      rcases holds.free with ends | ⟨b,there,unused⟩
      · exact Or.inl ends
      · refine Or.inr ⟨b,?_,unused⟩
        rcases at_middle.mp there with first | ⟨q,place,inside⟩ | later
        · exact at_middle.mpr (Or.inl first)
        · obtain ⟨rfl,rfl⟩ := at_singleton.mp inside
          cases unused
        · exact at_middle.mpr (Or.inr (Or.inr later))
  obtain ⟨blocks',plugs,merged⟩ := plugHoles_plugs (show Walled region _ _ from headers ▸ marked) free before behind
  have used : ∀ p l, Used (pre ++ [⟨len,false⟩] ++ post) p l ↔ Used (pre ++ [⟨len,true⟩] ++ post) p l ∧ ¬p = total pre := by
    intro p l
    unfold Used
    constructor
    · intro there
      rcases at_middle.mp there with first | ⟨q,rfl,inside⟩ | later
      · refine ⟨at_middle.mpr (Or.inl first),fun same => ?_⟩
        have := first.bound
        have := (holds.walled.fits _ (at_middle.mpr (Or.inl first)).mem).1
        omega
      · cases (at_singleton.mp inside).2
      · refine ⟨at_middle.mpr (Or.inr (Or.inr later)),fun same => ?_⟩
        obtain ⟨q,rfl,_⟩ := later
        simp at same
        omega
    · rintro ⟨there,other⟩
      rcases at_middle.mp there with first | ⟨q,rfl,inside⟩ | later
      · exact at_middle.mpr (Or.inl first)
      · obtain ⟨rfl,_⟩ := at_singleton.mp inside
        exact absurd rfl other
      · exact at_middle.mpr (Or.inr (Or.inr later))
  have result : release region s (total pre) = plugHoles region
      {(s.setUsed (total pre) false).lower (total pre) with usedMem := s.usedMem - len} (total pre) := by
    unfold release
    dsimp only
    rw [headers,usedMem,next,Nat.add_sub_cancel_left]
    rfl
  rw [result]
  refine ⟨blocks',⟨⟨plugs.walled,plugs.free,merged,?_⟩,fun p l => ?_,?_⟩,?_⟩
  · rw [plugs.accounted,plugs.inUse]
    dsimp only
    rw [holds.accounted]
    simp
    omega
  · rw [plugs.same,used]
    simp
  · have first : Spares s.headers ((s.setUsed (total pre) false).lower (total pre)).headers (Used (pre ++ [⟨len,true⟩] ++ post)) := by
      rw [headers]
      exact mark_spares holds.walled s (block_at pre post ⟨len,true⟩) false
    exact (first.mono fun p l kept => kept.1).trans (plugs.spares.mono fun p l kept => (used p l).mpr kept)
  · refine ⟨?_,Nat.le_trans plugs.lower (by rw [lfree]; exact Nat.min_le_left _ _)⟩
    intro low p b there unused
    refine Nat.le_trans plugs.lower ?_
    dsimp only
    rw [lfree]
    change min (total pre) s.lfree ≤ p
    obtain ⟨c,old,unused'⟩ := plugs.from' p b there unused
    rcases at_middle.mp old with first | ⟨q,rfl,_⟩ | later
    · exact Nat.le_trans (Nat.min_le_right _ _) (low p c (at_middle.mpr (Or.inl first)) unused')
    · exact Nat.le_trans (Nat.min_le_left _ _) (Nat.le_add_right _ _)
    · exact Nat.le_trans (Nat.min_le_right _ _) (low p c (at_middle.mpr (Or.inr (Or.inr later))) unused')

theorem trim_makes {newsize : Nat} (holds : Holds region s (pre ++ [⟨len,true⟩] ++ post)) (aligned : 4 ∣ newsize)
    (some' : 4 ≤ newsize) (room : newsize + sizeofStructMem + minSizeAligned < userSize s (total pre)) :
    ∃ blocks', Makes region s (trim region s (total pre) newsize) (pre ++ [⟨len,true⟩] ++ post) blocks'
        (fun p l => p = total pre ∧ l = sizeofStructMem + newsize) (fun p _ => p = total pre) ∧
      Spares s.headers (trim region s (total pre) newsize).headers (Used blocks') := by
  have twelve : sizeofStructMem = 12 := rfl
  have twelve' : minSizeAligned = 12 := rfl
  have next : (s.headers (total pre)).next = total pre + len := (linked_middle holds.walled).2.2.1
  have size : userSize s (total pre) = len - sizeofStructMem := by
    rw [userSize,next]
    omega
  have multiple := (holds.walled.fits ⟨len,true⟩ (block_at pre post _).mem).2
  dsimp only at multiple
  have enough : newsize + sizeofStructMem + 16 ≤ len := by omega
  obtain ⟨before,behind⟩ := merged_used.mp (show Merged (pre ++ ⟨len,true⟩ :: post) by
    have merged := holds.merged
    rwa [List.append_assoc] at merged)
  have start : Walled region ({s with usedMem := s.usedMem - (len - sizeofStructMem - newsize)} : Heap).headers
      (pre ++ [⟨len,true⟩] ++ post) := holds.walled
  have carved := carve_walled start aligned some' enough
  have shape : pre ++ [⟨sizeofStructMem + newsize,true⟩,⟨len - (sizeofStructMem + newsize),false⟩] ++ post =
      (pre ++ [⟨sizeofStructMem + newsize,true⟩]) ++ [⟨len - (sizeofStructMem + newsize),false⟩] ++ post := by simp
  have place : total (pre ++ [⟨sizeofStructMem + newsize,true⟩]) = total pre + sizeofStructMem + newsize := by
    rw [total_append,total_cons,total_nil,Nat.add_zero,Nat.add_assoc]
  have used : ∀ p l, Used (pre ++ [⟨sizeofStructMem + newsize,true⟩,⟨len - (sizeofStructMem + newsize),false⟩] ++ post) p l ↔
      Used (pre ++ [⟨len,true⟩] ++ post) p l ∧ ¬p = total pre ∨ p = total pre ∧ l = sizeofStructMem + newsize := by
    intro p l
    have whole : total [⟨sizeofStructMem + newsize,true⟩,⟨len - (sizeofStructMem + newsize),false⟩] = total [⟨len,true⟩] := by
      simp
      omega
    unfold Used
    constructor
    · intro there
      rcases at_middle.mp there with first | ⟨q,rfl,inside⟩ | later
      · refine Or.inl ⟨at_middle.mpr (Or.inl first),fun same => ?_⟩
        have := first.bound
        have := (holds.walled.fits _ (at_middle.mpr (Or.inl first)).mem).1
        omega
      · rcases at_cons.mp inside with ⟨rfl,same⟩ | ⟨r,_,rest⟩
        · exact Or.inr ⟨rfl,congrArg Block.len same⟩
        · cases (at_singleton.mp rest).2
      · refine Or.inl ⟨at_middle.mpr (Or.inr (Or.inr (by rw [← whole]; exact later))),fun same => ?_⟩
        obtain ⟨q,rfl,_⟩ := later
        rw [whole,total_cons,total_nil] at same
        dsimp only at same
        omega
    · rintro (⟨there,other⟩ | ⟨rfl,rfl⟩)
      · rcases at_middle.mp there with first | ⟨q,rfl,inside⟩ | later
        · exact at_middle.mpr (Or.inl first)
        · obtain ⟨rfl,_⟩ := at_singleton.mp inside
          exact absurd rfl other
        · exact at_middle.mpr (Or.inr (Or.inr (by rw [whole]; exact later)))
      · exact ⟨pre,⟨len - (sizeofStructMem + newsize),false⟩ :: post,by simp,rfl⟩
  have lfree : (carve region {s with usedMem := s.usedMem - (len - sizeofStructMem - newsize)} (total pre) newsize).lfree = s.lfree := by
    unfold carve
    dsimp only
    split <;> rfl
  have usedMem : (carve region {s with usedMem := s.usedMem - (len - sizeofStructMem - newsize)} (total pre) newsize).usedMem =
      s.usedMem - (len - sizeofStructMem - newsize) := by
    unfold carve
    dsimp only
    split <;> rfl
  have free : FreeAt region (carve region {s with usedMem := s.usedMem - (len - sizeofStructMem - newsize)} (total pre) newsize)
      (pre ++ [⟨sizeofStructMem + newsize,true⟩,⟨len - (sizeofStructMem + newsize),false⟩] ++ post) := by
    unfold FreeAt
    rw [lfree]
    rcases holds.free with ends | ⟨b,there,unused⟩
    · exact Or.inl ends
    · refine Or.inr ⟨b,?_,unused⟩
      rcases at_middle.mp there with first | ⟨q,_,inside⟩ | ⟨q,place,later⟩
      · exact at_middle.mpr (Or.inl first)
      · rw [(at_singleton.mp inside).2] at unused
        cases unused
      · refine at_middle.mpr (Or.inr (Or.inr ⟨q,?_,later⟩))
        rw [place]
        simp
        omega
  have carvedSpares := carve_spares start carved enough
  rw [shape] at carved free carvedSpares used
  have plugged := plugHoles_plugs carved free (merged_used.mpr ⟨before,List.isChain_nil⟩) behind
  rw [place] at plugged
  obtain ⟨blocks',plugs,merged⟩ := plugged
  have result : trim region s (total pre) newsize = plugHoles region
      (carve region {s with usedMem := s.usedMem - (len - sizeofStructMem - newsize)} (total pre) newsize)
      (total pre + sizeofStructMem + newsize) := by
    unfold trim
    dsimp only
    rw [size]
  have same : ∀ p l, Used blocks' p l ↔ Used (pre ++ [⟨len,true⟩] ++ post) p l ∧ ¬p = total pre ∨
      p = total pre ∧ l = sizeofStructMem + newsize := fun p l => (plugs.same p l).trans (used p l)
  have spares : Spares s.headers (plugHoles region
      (carve region {s with usedMem := s.usedMem - (len - sizeofStructMem - newsize)} (total pre) newsize)
      (total pre + sizeofStructMem + newsize)).headers (Used blocks') :=
    (carvedSpares.mono fun p l kept => (plugs.same p l).mp kept).trans (plugs.spares.mono fun p l kept => (plugs.same p l).mp kept)
  rw [result]
  refine ⟨blocks',⟨⟨plugs.walled,plugs.free,merged,?_⟩,same,spares.mono fun p l kept => (same p l).mpr (Or.inl kept)⟩,spares⟩
  rw [plugs.accounted,plugs.inUse,usedMem,holds.accounted]
  simp
  omega

end SssAlarmHost.SmallMem
