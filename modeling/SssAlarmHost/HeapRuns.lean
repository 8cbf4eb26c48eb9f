import SssAlarmHost.MachineRuns
import SssAlarmHost.SmallMemOps

namespace SssAlarmHost.SmallMem
open BlockList MachineRuns

-- heap_sem makes each part of the calls one step. live is what the callers hold: the
-- pointers they got and have not given back, with the sizes they asked for. rt_realloc
-- is one of the parts, or an rt_malloc and later an rt_free.
structure Store where
  heap : Heap
  live : Nat → Option UInt32

inductive Action where
  | malloc (size : UInt32)
  | free (p : Nat)
  | trim (p : Nat) (size : UInt32)

def held (size : UInt32) : Nat := (rtAlign size).toNat

section Machine
variable (region : Region)

def step (s : Store) : Action → Option Store
  | .malloc size =>
    let made := rtMalloc region s.heap size
    some ⟨made.1,match made.2 with | some p => Function.update s.live p (some size) | none => s.live⟩
  | .free p =>
    match s.live p with
    | some _ => (rtFree region s.heap p).map fun heap => ⟨heap,Function.update s.live p none⟩
    | none => none
  | .trim p size =>
    match s.live p with
    | some _ =>
      if held size ≠ 0 ∧ held size + sizeofStructMem + minSizeAligned < userSize s.heap (p - sizeofStructMem) then
        some ⟨trim region s.heap (p - sizeofStructMem) (held size),Function.update s.live p (some size)⟩
      else none
    | none => none

def start (memory : Nat → HeapMem) : Store := ⟨rtSystemHeapInit region memory,fun _ => none⟩

-- A block that rt_malloc hands out is aligned, inside the heap and apart from all that
-- are held, a block that is held can be freed, and no header is written in one.
structure Safe (s : Store) (a : Action) : Prop where
  fresh : ∀ size p, a = .malloc size → (rtMalloc region s.heap size).2 = some p →
    4 ∣ p ∧ sizeofStructMem ≤ p ∧ p + held size ≤ region.heapEnd ∧
      ∀ q n, s.live q = some n → p + held size + sizeofStructMem ≤ q ∨ q + held n + sizeofStructMem ≤ p
  freed : ∀ p, a = .free p → s.live p ≠ none → (rtFree region s.heap p).isSome
  untouched : ∀ next, step region s a = some next → ∀ q, next.heap.headers q ≠ s.heap.headers q →
    ∀ p n, s.live p = some n → next.live p = some n → q + sizeofStructMem ≤ p ∨ p + held n ≤ q

-- What is held are the used blocks.
structure Owns (live : Nat → Option UInt32) (blocks : List Block) : Prop where
  used : ∀ p, live p ≠ none ↔ ∃ ptr len, p = ptr + sizeofStructMem ∧ Used blocks ptr len
  large : ∀ ptr len n, Used blocks ptr len → live (ptr + sizeofStructMem) = some n → held n + sizeofStructMem ≤ len

structure Sound (s : Store) (blocks : List Block) : Prop where
  holds : Holds region s.heap blocks
  owns : Owns s.live blocks
  some' : s.heap.lfree = region.heapEnd → ∃ p len, Used blocks p len

end Machine

variable {region : Region} {headers : Nat → HeapMem} {s next : Store} {blocks : List Block}

theorem mask_toNat (size : UInt32) : (size &&& ~~~3).toNat = size.toNat/4*4 := by
  have mask : ∀ n : Nat, n < 2^32 → n &&& 4294967292 = n/4*4 := by
    intro n small
    refine Nat.eq_of_testBit_eq fun i => ?_
    have shape : n/4*4 = n/2^2*2^2 := rfl
    rw [shape,show 4294967292 = (2^30 - 1)*2^2 by decide,Nat.testBit_and,Nat.testBit_mul_two_pow,Nat.testBit_mul_two_pow,
      Nat.testBit_two_pow_sub_one,Nat.testBit_div_two_pow]
    by_cases low : 2 ≤ i
    · rw [Nat.sub_add_cancel low]
      by_cases high : i - 2 < 30
      · simp [low,high]
      · have zero : n.testBit i = false := Nat.testBit_lt_two_pow (Nat.lt_of_lt_of_le small (Nat.pow_le_pow_right (by decide) (by omega)))
        simp [zero]
    · simp [low]
  rw [UInt32.toNat_and]
  exact mask _ size.toNat_lt

theorem rtAlign_toNat (size : UInt32) : held size = (size.toNat + 3) % 2^32 / 4 * 4 := by
  rw [held,rtAlign,mask_toNat,UInt32.toNat_add]
  rfl

-- The two addresses of rt_system_heap_init give a region, if one smallest block has room.
theorem memSize_region {beginAddr endAddr : UInt32} {n : Nat} (inited : memSize beginAddr endAddr = some n)
    (room : minSizeAligned ≤ n) : ∃ region : Region, region.memSizeAligned = n := by
  have ends := endAddr.toNat_lt
  have header : sizeofStructMem = 12 := rfl
  have begins : (rtAlign beginAddr).toNat = (beginAddr.toNat + 3) % 2^32 / 4 * 4 := rtAlign_toNat beginAddr
  obtain ⟨⟨_,order⟩,size⟩ := Option.ite_none_right_eq_some.mp inited
  rw [mask_toNat] at order size
  cases size
  refine ⟨⟨_,?_,room,?_⟩,rfl⟩
  · omega
  · omega

theorem held_aligned (size : UInt32) : 4 ∣ held size := by
  rw [rtAlign_toNat]
  exact Nat.dvd_mul_left _ _

theorem blockSize_bounds (size : UInt32) : 4 ∣ blockSize size ∧ minSizeAligned ≤ blockSize size ∧ held size ≤ blockSize size := by
  have aligned := held_aligned size
  unfold blockSize
  change 4 ∣ (if held size < minSizeAligned then minSizeAligned else held size) ∧ _ ≤ (if held size < minSizeAligned then _ else held size) ∧
    held size ≤ (if held size < minSizeAligned then _ else held size)
  split
  · exact ⟨by decide,Nat.le_refl _,Nat.le_of_lt ‹_›⟩
  · exact ⟨aligned,Nat.not_lt.mp ‹_›,Nat.le_refl _⟩

theorem split_at {p : Nat} {b : Block} (there : At blocks p b) : ∃ pre post, blocks = pre ++ [b] ++ post ∧ total pre = p := by
  obtain ⟨pre,post,rfl,place⟩ := there
  exact ⟨pre,post,by simp,place⟩

theorem at_unique (walled : Walled region headers blocks) {p : Nat} {b c : Block} (one : At blocks p b) (other : At blocks p c) : b = c := by
  have first := (walled.fits b one.mem).1
  have second := (walled.fits c other.mem).1
  rcases At.apart one other with ⟨_,same⟩ | before | after
  · exact same
  · omega
  · omega

-- rt_malloc gives up, or takes a free block.
theorem malloc_cases {s : Heap} (holds : Holds region s blocks) (size : UInt32) :
    rtMalloc region s size = (s,none) ∧ (size ≠ 0 → held size ≤ region.memSizeAligned → Lowest s blocks →
      ∀ p b, At blocks p b → b.used = false → blockSize size + sizeofStructMem ≤ b.len → region.memSizeAligned - blockSize size ≤ p) ∨
    ∃ ptr part blocks', rtMalloc region s size = (take region s ptr (blockSize size),some (ptr + sizeofStructMem)) ∧
      sizeofStructMem + blockSize size ≤ part ∧
      Makes region s (take region s ptr (blockSize size)) blocks blocks' (fun p l => p = ptr ∧ l = part) (fun _ _ => False) ∧
      (∀ l, ¬Used blocks ptr l) ∧ (Lowest s blocks → Lowest (take region s ptr (blockSize size)) blocks') := by
  unfold rtMalloc
  by_cases zero : size = 0
  · rw [if_pos zero]
    exact Or.inl ⟨rfl,fun some' => absurd zero some'⟩
  · rw [if_neg zero]
    by_cases large : region.memSizeAligned < (rtAlign size).toNat
    · rw [if_pos large]
      exact Or.inl ⟨rfl,fun _ fits => absurd fits (Nat.not_le.mpr large)⟩
    · rw [if_neg large]
      obtain ⟨aligned,least,_⟩ := blockSize_bounds size
      -- The search starts at lfree, which is a place of the list or its end.
      have start : ∃ pre rest, blocks = pre ++ rest ∧ total pre = s.lfree := by
        rcases holds.free with ends | ⟨b,⟨pre,post,same,place⟩,_⟩
        · exact ⟨blocks,[],by simp,by rw [ends]; exact holds.walled.size⟩
        · exact ⟨pre,b :: post,same,place⟩
      obtain ⟨pre,rest,same,place⟩ := start
      have enough : rest.length ≤ region.heapEnd := by
        have all := length_le_total holds.walled.positive
        rw [holds.walled.size,same,List.length_append] at all
        omega
      obtain ⟨found,missed⟩ := findLoop_spec holds.walled (blockSize size) region.heapEnd same enough
      rw [place] at found missed
      cases chosen : findLoop region s (blockSize size) region.heapEnd s.lfree with
      | none =>
        refine Or.inl ⟨rfl,fun _ _ lowest p b there free big => ?_⟩
        exact missed chosen p b there free big (lowest p b there free)
      | some ptr =>
        obtain ⟨b,there,free,big⟩ := found ptr chosen
        obtain ⟨before,behind,rfl,rfl⟩ := split_at there
        obtain ⟨len,used⟩ := b
        dsimp only at free big
        subst free
        obtain ⟨part,blocks',large',_,made,lowest⟩ := take_makes holds aligned least big
        refine Or.inr ⟨total before,part,blocks',rfl,large',made,fun l used => ?_,lowest⟩
        cases at_unique holds.walled there used

theorem Owns.block {live : Nat → Option UInt32} (owns : Owns live blocks) {p : Nat} {n : UInt32} (there : live p = some n) :
    ∃ ptr len, p = ptr + sizeofStructMem ∧ Used blocks ptr len ∧ held n + sizeofStructMem ≤ len := by
  obtain ⟨ptr,len,rfl,used⟩ := (owns.used p).mp (by simp [there])
  exact ⟨ptr,len,rfl,used,owns.large ptr len n used there⟩

-- A used block that is freed passes the checks of rt_free.
theorem rtFree_used {s : Heap} (holds : Holds region s blocks) {ptr len : Nat} (used : Used blocks ptr len) :
    rtFree region s (ptr + sizeofStructMem) = some (release region s ptr) := by
  have twelve : sizeofStructMem = 12 := rfl
  have small := holds.walled.below used
  have mark := (holds.walled.at used).1
  have aligned : 4 ∣ ptr := by
    obtain ⟨pre,post,same,rfl⟩ := used
    have fits := holds.walled.fits
    rw [same] at fits
    clear same small mark
    induction pre with
    | nil => exact Nat.dvd_zero 4
    | cons b rest ih =>
      rw [total_cons]
      exact Nat.dvd_add (fits b (by simp)).2 (ih fun c there => fits c (by simp at there ⊢; tauto))
  dsimp only at small
  unfold rtFree
  rw [Nat.add_sub_cancel,if_pos]
  exact ⟨by omega,by omega,mark,holds.walled.magic ptr _ used⟩

theorem owns_add {live : Nat → Option UInt32} {blocks' : List Block} {ptr part : Nat} {size : UInt32} (owns : Owns live blocks)
    (same : ∀ p l, Used blocks' p l ↔ Used blocks p l ∧ ¬p = ptr ∨ p = ptr ∧ l = part) (large : held size + sizeofStructMem ≤ part) :
    Owns (Function.update live (ptr + sizeofStructMem) (some size)) blocks' := by
  constructor
  case used =>
    intro p
    by_cases here : p = ptr + sizeofStructMem
    · rw [here,Function.update_self]
      exact ⟨fun _ => ⟨ptr,part,rfl,(same ptr part).mpr (Or.inr ⟨rfl,rfl⟩)⟩,fun _ => Option.some_ne_none _⟩
    · rw [Function.update_of_ne here,owns.used]
      constructor
      · rintro ⟨q,l,rfl,used⟩
        exact ⟨q,l,rfl,(same q l).mpr (Or.inl ⟨used,fun eq => here (by rw [eq])⟩)⟩
      · rintro ⟨q,l,rfl,used⟩
        rcases (same q l).mp used with ⟨old,_⟩ | ⟨rfl,_⟩
        · exact ⟨q,l,rfl,old⟩
        · exact absurd rfl here
  case large =>
    intro q l n used there
    rcases (same q l).mp used with ⟨old,other⟩ | ⟨rfl,rfl⟩
    · rw [Function.update_of_ne (by omega)] at there
      exact owns.large q l n old there
    · rw [Function.update_self] at there
      cases there
      exact large

theorem owns_remove {live : Nat → Option UInt32} {blocks' : List Block} {ptr : Nat} (owns : Owns live blocks)
    (same : ∀ p l, Used blocks' p l ↔ Used blocks p l ∧ ¬p = ptr) :
    Owns (Function.update live (ptr + sizeofStructMem) none) blocks' := by
  constructor
  case used =>
    intro p
    by_cases here : p = ptr + sizeofStructMem
    · rw [here,Function.update_self]
      refine ⟨fun absent => absurd rfl absent,?_⟩
      rintro ⟨q,l,place,used⟩
      exact absurd (by omega) ((same q l).mp used).2
    · rw [Function.update_of_ne here,owns.used]
      constructor
      · rintro ⟨q,l,rfl,used⟩
        exact ⟨q,l,rfl,(same q l).mpr ⟨used,fun eq => here (by rw [eq])⟩⟩
      · rintro ⟨q,l,rfl,used⟩
        exact ⟨q,l,rfl,((same q l).mp used).1⟩
  case large =>
    intro q l n used there
    obtain ⟨old,other⟩ := (same q l).mp used
    rw [Function.update_of_ne (by omega)] at there
    exact owns.large q l n old there

-- What a part of the calls leaves: the list it makes, sound again, with the blocks that
-- stay held spared.
structure Leaves (region : Region) (s next : Store) (blocks' : List Block) : Prop where
  sound : Sound region next blocks'
  spares : Spares s.heap.headers next.heap.headers fun p l => Used blocks' p l ∧ s.live (p + sizeofStructMem) ≠ none

theorem malloc_leaves (sound : Sound region s blocks) {size : UInt32} (taken : step region s (.malloc size) = some next) :
    ∃ blocks', Leaves region s next blocks' ∧ (Lowest s.heap blocks → Lowest next.heap blocks') := by
  have same := Option.some.inj taken
  rcases malloc_cases sound.holds size with ⟨none',_⟩ | ⟨ptr,part,blocks',made,large,makes,fresh,lowest⟩
  · rw [none'] at same
    cases same
    exact ⟨blocks,⟨sound,fun _ => Or.inl rfl⟩,id⟩
  · rw [made] at same
    cases same
    have used : ∀ p l, Used blocks' p l ↔ Used blocks p l ∧ ¬p = ptr ∨ p = ptr ∧ l = part := by
      intro p l
      rw [makes.same]
      constructor
      · rintro (⟨old,_⟩ | new)
        · exact Or.inl ⟨old,fun eq => fresh l (by rw [← eq]; exact old)⟩
        · exact Or.inr new
      · rintro (⟨old,_⟩ | new)
        · exact Or.inl ⟨old,id⟩
        · exact Or.inr new
    have bounds := blockSize_bounds size
    refine ⟨blocks',⟨⟨makes.holds,owns_add sound.owns used (by omega),fun _ => ?_⟩,?_⟩,lowest⟩
    · exact ⟨ptr,part,(used ptr part).mpr (Or.inr ⟨rfl,rfl⟩)⟩
    refine makes.spares.mono fun p l kept => ⟨?_,id⟩
    rcases (used p l).mp kept.1 with ⟨old,_⟩ | ⟨rfl,_⟩
    · exact old
    · obtain ⟨q,l',place,old⟩ := (sound.owns.used _).mp kept.2
      have same : q = p := by omega
      subst same
      exact absurd old (fresh l')

theorem free_leaves (sound : Sound region s blocks) {p : Nat} (taken : step region s (.free p) = some next) :
    ∃ blocks', Leaves region s next blocks' ∧ (Lowest s.heap blocks → Lowest next.heap blocks') := by
  cases there : s.live p with
  | none => simp [step,there] at taken
  | some n =>
    simp only [step,there] at taken
    obtain ⟨ptr,len,rfl,used,_⟩ := sound.owns.block there
    rw [rtFree_used sound.holds used] at taken
    cases taken
    obtain ⟨pre,post,rfl,rfl⟩ := split_at used
    have small := sound.holds.walled.below used
    obtain ⟨blocks',makes,lowest,lower⟩ := release_makes sound.holds
    have same : ∀ p l, Used blocks' p l ↔ Used (pre ++ [⟨len,true⟩] ++ post) p l ∧ ¬p = total pre := by
      intro p l
      rw [makes.same]
      simp
    refine ⟨blocks',⟨⟨makes.holds,owns_remove sound.owns same,fun ends => ?_⟩,?_⟩,lowest⟩
    · dsimp only at ends small
      omega
    · exact makes.spares.mono fun p l kept => (same p l).mp kept.1

theorem trim_leaves (sound : Sound region s blocks) {p : Nat} {size : UInt32} (taken : step region s (.trim p size) = some next) :
    ∃ blocks', Leaves region s next blocks' := by
  cases there : s.live p with
  | none => simp [step,there] at taken
  | some n =>
    simp only [step,there] at taken
    obtain ⟨⟨some',room⟩,same⟩ := Option.ite_none_right_eq_some.mp taken
    cases same
    obtain ⟨ptr,len,rfl,used,_⟩ := sound.owns.block there
    obtain ⟨pre,post,rfl,rfl⟩ := split_at used
    have aligned := held_aligned size
    rw [Nat.add_sub_cancel] at room ⊢
    obtain ⟨blocks',makes,spares⟩ := trim_makes sound.holds aligned (by omega) room
    refine ⟨blocks',⟨makes.holds,owns_add sound.owns makes.same (by omega),fun _ => ?_⟩,spares.mono fun p l kept => kept.1⟩
    exact ⟨total pre,_,(makes.same _ _).mpr (Or.inr ⟨rfl,rfl⟩)⟩

theorem step_leaves (sound : Sound region s blocks) {a : Action} (taken : step region s a = some next) :
    ∃ blocks', Leaves region s next blocks' := by
  cases a with
  | malloc size =>
    obtain ⟨blocks',leaves,_⟩ := malloc_leaves sound taken
    exact ⟨blocks',leaves⟩
  | free p =>
    obtain ⟨blocks',leaves,_⟩ := free_leaves sound taken
    exact ⟨blocks',leaves⟩
  | trim p size => exact trim_leaves sound taken

theorem start_sound (region : Region) (memory : Nat → HeapMem) :
    Sound region (start region memory) [⟨region.heapEnd,false⟩] := by
  have room := region.room
  have aligned := region.aligned
  have twelve : sizeofStructMem = 12 := rfl
  have ends : region.heapEnd = region.memSizeAligned + 12 := rfl
  have first : (start region memory).heap.headers 0 = ⟨heapMagic,false,region.heapEnd,0⟩ := by
    refine (set_other _ _ (by omega)).trans (set_same ..)
  have last' : (start region memory).heap.headers region.heapEnd = ⟨heapMagic,true,region.heapEnd,region.heapEnd⟩ := set_same ..
  constructor
  case holds =>
    constructor
    case walled =>
      constructor
      case linked =>
        refine ⟨congrArg HeapMem.used first,congrArg HeapMem.prev first,(congrArg HeapMem.next first).trans (Nat.zero_add _).symm,trivial⟩
      case size => simp
      case fence => exact congrArg HeapMem.used last'
      case fits =>
        intro b there
        cases List.mem_singleton.mp there
        change 12 ≤ region.memSizeAligned at room
        exact ⟨show 16 ≤ region.heapEnd by omega,show 4 ∣ region.heapEnd by omega⟩
      case magic =>
        intro p b there
        rw [(at_singleton.mp there).1]
        exact congrArg HeapMem.magic first
    case free => exact Or.inr ⟨_,at_singleton.mpr ⟨rfl,rfl⟩,rfl⟩
    case merged => exact List.isChain_singleton _
    case accounted => rfl
  case owns =>
    constructor
    case used =>
      intro p
      refine ⟨fun absent => absurd rfl absent,?_⟩
      rintro ⟨ptr,len,_,used⟩
      cases (at_singleton.mp used).2
    case large =>
      intro ptr len n _ there
      cases there
  case some' =>
    intro same
    change 0 = region.heapEnd at same
    omega

theorem fresh_pointer (sound : Sound region s blocks) {size : UInt32} {p : Nat} (got : (rtMalloc region s.heap size).2 = some p) :
    4 ∣ p ∧ sizeofStructMem ≤ p ∧ p + held size ≤ region.heapEnd ∧
      ∀ q n, s.live q = some n → p + held size + sizeofStructMem ≤ q ∨ q + held n + sizeofStructMem ≤ p := by
  have bounds := blockSize_bounds size
  rcases malloc_cases sound.holds size with ⟨none',_⟩ | ⟨ptr,part,blocks',made,large,makes,fresh,_⟩
  · rw [none'] at got
    cases got
  · rw [made] at got
    cases got
    have mine : Used blocks' ptr part := (makes.same _ _).mpr (Or.inr ⟨rfl,rfl⟩)
    have freed := rtFree_used makes.holds mine
    have aligned : (ptr + sizeofStructMem) % 4 = 0 := by
      unfold rtFree at freed
      split at freed
      · rename_i checks
        exact checks.1
      · cases freed
    have below := makes.holds.walled.below mine
    dsimp only at below
    refine ⟨Nat.dvd_of_mod_eq_zero aligned,Nat.le_add_left _ _,by omega,?_⟩
    intro q n there
    obtain ⟨ptr',len,rfl,used,enough⟩ := sound.owns.block there
    have still : Used blocks' ptr' len := (makes.same _ _).mpr (Or.inl ⟨used,id⟩)
    rcases At.apart mine still with ⟨rfl,_⟩ | before | after
    · exact absurd used (fresh len)
    · dsimp only at before
      exact Or.inl (by omega)
    · dsimp only at after
      exact Or.inr (by omega)

theorem safe_of_sound (sound : Sound region s blocks) (a : Action) : Safe region s a := by
  constructor
  case fresh =>
    rintro size p rfl got
    exact fresh_pointer sound got
  case freed =>
    rintro p rfl there
    obtain ⟨n,here⟩ := Option.ne_none_iff_exists'.mp there
    obtain ⟨ptr,len,rfl,used,_⟩ := sound.owns.block here
    rw [rtFree_used sound.holds used]
    rfl
  case untouched =>
    intro next taken q changed p n before after
    obtain ⟨blocks',leaves⟩ := step_leaves sound taken
    obtain ⟨ptr,len,rfl,used,enough⟩ := leaves.sound.owns.block after
    rcases leaves.spares q with same | outside
    · exact absurd same changed
    · rcases outside ptr len ⟨used,by simp [before]⟩ with low | high
      · exact Or.inl (by omega)
      · exact Or.inr (by omega)

def Valid (region : Region) (s : Store) : Prop := ∃ blocks, Sound region s blocks

theorem step_valid (s : Store) (a : Action) (next : Store) (valid : Valid region s) (_ : True) (taken : step region s a = some next) :
    Valid region next := by
  obtain ⟨blocks,sound⟩ := valid
  obtain ⟨blocks',leaves⟩ := step_leaves sound taken
  exact ⟨blocks',leaves.sound⟩

theorem any_along (s : Store) (actions : List Action) : Along (step region) (fun _ _ => True) s actions :=
  along_of_forall (fun _ _ _ => trivial) s

-- Any callers and any order of the locked parts of their calls, as long as each frees
-- and resizes what it holds.
theorem heap_safe (region : Region) (memory : Nat → HeapMem) (actions : List Action) :
    Along (step region) (Safe region) (start region memory) actions := by
  refine along_of_invariant step_valid ?_ ⟨_,start_sound region memory⟩ (any_along _ actions)
  rintro s a ⟨blocks,sound⟩ _
  exact safe_of_sound sound a

theorem run_sound {memory : Nat → HeapMem} {actions : List Action} {after : Store}
    (ran : run (step region) (start region memory) actions = some after) : Valid region after :=
  along_invariant step_valid ⟨_,start_sound region memory⟩ (any_along _ actions) ran

structure Whole (region : Region) (s : Heap) : Prop where
  next : (s.headers 0).next = region.heapEnd
  unused : (s.headers 0).used = false
  lfree : s.lfree = 0
  usedMem : s.usedMem = 0

-- When everything is given back, the heap is one free block again: nothing leaks and
-- nothing stays in pieces.
theorem heap_restored {memory : Nat → HeapMem} {actions : List Action} {after : Store}
    (ran : run (step region) (start region memory) actions = some after) (empty : ∀ p < region.heapEnd, after.live p = none) :
    Whole region after.heap := by
  obtain ⟨blocks,sound⟩ := run_sound ran
  have unused : ∀ p len, ¬Used blocks p len := by
    intro p len used
    have below := sound.holds.walled.below used
    have inside : p + sizeofStructMem < region.heapEnd := by
      show p + 12 < region.heapEnd
      omega
    exact (sound.owns.used (p + sizeofStructMem)).mpr ⟨p,len,rfl,used⟩ (empty _ inside)
  have free : ∀ b ∈ blocks, b.used = false := by
    intro b there
    obtain ⟨pre,post,rfl⟩ := List.append_of_mem there
    cases mark : b.used with
    | false => rfl
    | true => exact absurd ⟨pre,post,by rw [← mark],rfl⟩ (unused (total pre) b.len)
  have one := merged_all_free sound.holds.merged free
  have size := sound.holds.walled.size
  have positive : 0 < region.heapEnd := by
    show 0 < region.memSizeAligned + 12
    omega
  match blocks with
  | [] =>
    change 0 = region.heapEnd at size
    omega
  | [b] =>
    obtain ⟨mark,next⟩ := sound.holds.walled.at (at_singleton.mpr ⟨rfl,rfl⟩)
    rw [total_cons,total_nil,Nat.add_zero] at size
    have clear := free b List.mem_cons_self
    refine ⟨by rw [next,size,Nat.zero_add],mark.trans clear,?_,?_⟩
    · rcases sound.holds.free with ends | ⟨c,there,_⟩
      · obtain ⟨p,len,used⟩ := sound.some' ends
        exact absurd used (unused p len)
      · exact (at_singleton.mp there).1
    · rw [sound.holds.accounted,inUse_cons,if_neg (by simp [clear])]
      rfl
  | _ :: _ :: _ =>
    simp at one

def trimRegion : Region := ⟨128,by decide,by decide,by decide⟩

def clearMemory : Nat → HeapMem := fun _ => ⟨0,false,0,0⟩

theorem returned_heap_restored : ∃ after, run (step trimRegion) (start trimRegion clearMemory)
    [.malloc 20,.malloc 30,.malloc 10,.free 44,.free 12,.free 88] = some after ∧ Whole trimRegion after.heap := by
  have ends : ((run (step trimRegion) (start trimRegion clearMemory)
      [.malloc 20,.malloc 30,.malloc 10,.free 44,.free 12,.free 88]).map fun s =>
        decide (∀ p < trimRegion.heapEnd, s.live p = none)) = some true := by decide +kernel
  obtain ⟨after,ran,empty⟩ := Option.map_eq_some_iff.mp ends
  exact ⟨after,ran,heap_restored ran (of_decide_eq_true empty)⟩

def NoTrim (_ : Store) (a : Action) : Prop := ∀ p size, a ≠ .trim p size

-- What a failed rt_malloc says: every free block is too small, but for one that ends
-- the heap and would fit exactly.
def FailsFull (region : Region) (s : Store) (a : Action) : Prop :=
  ∀ size, a = .malloc size → size ≠ 0 → held size ≤ region.memSizeAligned → (rtMalloc region s.heap size).2 = none →
    ∃ blocks, Holds region s.heap blocks ∧ ∀ p b, At blocks p b → b.used = false →
      b.len < blockSize size + sizeofStructMem ∨ b.len = blockSize size + sizeofStructMem ∧ p + b.len = region.heapEnd

def Searched (region : Region) (s : Store) : Prop := ∃ blocks, Sound region s blocks ∧ Lowest s.heap blocks

theorem step_searched (s : Store) (a : Action) (next : Store) (searched : Searched region s) (plain : NoTrim s a)
    (taken : step region s a = some next) : Searched region next := by
  obtain ⟨blocks,sound,low⟩ := searched
  cases a with
  | malloc size =>
    obtain ⟨blocks',leaves,lowest⟩ := malloc_leaves sound taken
    exact ⟨blocks',leaves.sound,lowest low⟩
  | free p =>
    obtain ⟨blocks',leaves,lowest⟩ := free_leaves sound taken
    exact ⟨blocks',leaves.sound,lowest low⟩
  | trim p size => exact absurd rfl (plain p size)

-- As long as rt_realloc has not cut a block in place, lfree leaves no free block out.
theorem malloc_fails_full (region : Region) (memory : Nat → HeapMem) {actions : List Action}
    (plain : ∀ a ∈ actions, ∀ p size, a ≠ .trim p size) :
    Along (step region) (FailsFull region) (start region memory) actions := by
  have lowest : Lowest (start region memory).heap [⟨region.heapEnd,false⟩] := fun _ _ _ _ => Nat.zero_le _
  refine along_of_invariant step_searched ?_ ⟨_,start_sound region memory,lowest⟩ (along_of_forall (fun a there _ => plain a there) _)
  rintro s a ⟨blocks,sound,low⟩ _ size rfl some' fits failed
  refine ⟨blocks,sound.holds,fun p b there free => ?_⟩
  have below := sound.holds.walled.below there
  have ends : region.heapEnd = region.memSizeAligned + sizeofStructMem := rfl
  rcases malloc_cases sound.holds size with ⟨_,missed⟩ | ⟨ptr,part,blocks',made,_⟩
  · by_cases big : blockSize size + sizeofStructMem ≤ b.len
    · have := missed some' fits low p b there free big
      exact Or.inr (by omega)
    · exact Or.inl (by omega)
  · rw [made] at failed
    cases failed

-- The last request finds two free blocks, both too small.
def failing : List Action := [.malloc 16,.malloc 20,.free 12,.malloc 30,.malloc 100]

theorem small_heap_fails_full : Along (step trimRegion) (FailsFull trimRegion) (start trimRegion clearMemory) failing ∧
    (run (step trimRegion) (start trimRegion clearMemory) (failing.take 4)).map
      (fun s => (rtMalloc trimRegion s.heap 100).2) = some none :=
  ⟨malloc_fails_full trimRegion _ (by simp [failing]),by decide +kernel⟩

theorem trim_usedMem (region : Region) (s : Heap) (ptr newsize : Nat) :
    (trim region s ptr newsize).usedMem = s.usedMem - (userSize s ptr - newsize) := by
  unfold trim plugHoles plugBackward plugForward carve
  dsimp only
  split <;> split <;> split <;> rfl

theorem trim_lfree {s : Heap} (full : s.lfree = region.heapEnd) {ptr newsize : Nat}
    (inside : ptr + sizeofStructMem + newsize < region.heapEnd) : (trim region s ptr newsize).lfree = region.heapEnd := by
  have forward : ∀ {t : Heap} {mem : Nat}, t.lfree = region.heapEnd → (plugForward region t mem).lfree = region.heapEnd := by
    intro t mem same
    unfold plugForward
    dsimp only
    split
    · rename_i hole
      exact (if_neg fun eq => hole.2.2 (eq.symm.trans same)).trans same
    · exact same
  have backward : ∀ {t : Heap} {mem : Nat}, t.lfree = region.heapEnd → mem ≠ region.heapEnd →
      (plugBackward t mem).lfree = region.heapEnd := by
    intro t mem same other
    unfold plugBackward
    dsimp only
    split
    · exact (if_neg fun eq => other (eq.symm.trans same)).trans same
    · exact same
  refine backward (forward ?_) (by omega)
  unfold carve
  dsimp only
  split <;> exact full

theorem malloc_from_end {s : Heap} (full : s.lfree = region.heapEnd) (request : UInt32) : (rtMalloc region s request).2 = none := by
  have stop : ∀ size rounds, findLoop region s size rounds region.heapEnd = none := by
    intro size rounds
    cases rounds with
    | zero => rfl
    | succ rounds =>
      rw [findLoop,if_neg]
      show ¬region.memSizeAligned + 12 < region.memSizeAligned - size
      omega
  unfold rtMalloc
  split
  · rfl
  · split
    · rfl
    · rw [full,stop]

-- The search for room starts at lfree, which trimming does not bring down: on a full
-- heap the bytes that rt_realloc gives back cannot be had until something is freed.
theorem trim_room_lost {memory : Nat → HeapMem} {actions : List Action} {s next : Store} {p : Nat} {size : UInt32}
    (ran : run (step region) (start region memory) actions = some s) (full : s.heap.lfree = region.heapEnd)
    (taken : step region s (.trim p size) = some next) :
    (∃ blocks q b, Holds region next.heap blocks ∧ At blocks q b ∧ b.used = false) ∧
      ∀ request, (rtMalloc region next.heap request).2 = none := by
  have twelve : sizeofStructMem = 12 := rfl
  have twelve' : minSizeAligned = 12 := rfl
  obtain ⟨blocks,sound⟩ := run_sound ran
  cases there : s.live p with
  | none => simp [step,there] at taken
  | some n =>
    simp only [step,there] at taken
    obtain ⟨⟨some',room⟩,same⟩ := Option.ite_none_right_eq_some.mp taken
    cases same
    obtain ⟨ptr,len,rfl,used,enough⟩ := sound.owns.block there
    rw [Nat.add_sub_cancel] at room ⊢
    obtain ⟨pre,post,rfl,rfl⟩ := split_at used
    have below := sound.holds.walled.below used
    dsimp only at below
    have within := used.inUse_pos rfl
    obtain ⟨blocks',makes,_⟩ := trim_makes sound.holds (held_aligned size) (by have := held_aligned size; omega) room
    have user : userSize s.heap (total pre) = len - sizeofStructMem := by
      rw [userSize,(sound.holds.walled.at used).2]
      dsimp only
      omega
    constructor
    · -- Fewer bytes are in use than before, so some block is free.
      by_cases all : ∀ b ∈ blocks', b.used = true
      · have every := inUse_all all
        rw [makes.holds.walled.size,← makes.holds.accounted] at every
        change (trim region s.heap (total pre) (held size)).usedMem = region.heapEnd at every
        have fewer := sound.holds.accounted
        have most := inUse_le_total (pre ++ [⟨len,true⟩] ++ post)
        rw [sound.holds.walled.size] at most
        rw [trim_usedMem] at every
        omega
      · obtain ⟨b,member,unused⟩ : ∃ b ∈ blocks', ¬b.used = true := by
          by_contra none'
          exact all fun b member => by_contra fun unused => none' ⟨b,member,unused⟩
        obtain ⟨first,second,rfl⟩ := List.append_of_mem member
        exact ⟨_,total first,b,makes.holds,⟨first,second,rfl,rfl⟩,by simpa using unused⟩
    · intro request
      exact malloc_from_end (trim_lfree full (by omega)) request

-- A full heap of two blocks, of which the first is cut down.
theorem trimmed_heap_refuses : ∃ s next, run (step trimRegion) (start trimRegion clearMemory) [.malloc 60,.malloc 40] = some s ∧
    step trimRegion s (.trim 12 4) = some next ∧ ((∃ blocks q b, Holds trimRegion next.heap blocks ∧ At blocks q b ∧ b.used = false) ∧
      ∀ request, (rtMalloc trimRegion next.heap request).2 = none) := by
  have ends : ((run (step trimRegion) (start trimRegion clearMemory) [.malloc 60,.malloc 40]).map fun s =>
      decide (s.heap.lfree = trimRegion.heapEnd ∧ (step trimRegion s (.trim 12 4)).isSome = true)) = some true := by decide +kernel
  obtain ⟨s,ran,checked⟩ := Option.map_eq_some_iff.mp ends
  obtain ⟨full,some'⟩ := of_decide_eq_true checked
  obtain ⟨next,taken⟩ := Option.isSome_iff_exists.mp some'
  exact ⟨s,next,ran,taken,trim_room_lost ran full taken⟩

-- rt_realloc of a block that is held, by parts of the machine: the callers' blocks and
-- the bytes in them.
structure Resizes (region : Region) (s : Store) (data : Nat → UInt8) (p : Nat) (request : UInt32) (heap : Heap)
    (data' : Nat → UInt8) (q : Nat) : Prop where
  parts : ∃ actions next, run (step region) s actions = some next ∧ next.heap = heap ∧ next.live q ≠ none ∧
    ∀ r, r ≠ p → s.live r ≠ none → next.live r = s.live r
  room : held request ≤ userSize heap (q - sizeofStructMem)
  kept : ∀ i, i < userSize s.heap (p - sizeofStructMem) → i < held request → data' (q + i) = data (p + i)
  others : ∀ r m, s.live r = some m → r ≠ p → ∀ i < held m, data' (r + i) = data (r + i)

theorem held_rtAlign (size : UInt32) : held (rtAlign size) = held size := by
  have aligned := held_aligned size
  have small := (rtAlign size).toNat_lt
  rw [rtAlign_toNat (rtAlign size)]
  change (held size + 3) % 2^32 / 4 * 4 = held size
  change held size < 2^32 at small
  omega

theorem live_userSize (sound : Sound region s blocks) {p : Nat} {n : UInt32} (there : s.live p = some n) :
    held n ≤ userSize s.heap (p - sizeofStructMem) := by
  obtain ⟨ptr,len,rfl,used,enough⟩ := sound.owns.block there
  rw [Nat.add_sub_cancel,userSize,(sound.holds.walled.at used).2]
  dsimp only
  omega

theorem trim_resizes (sound : Sound region s blocks) {ptr : Nat} {n request : UInt32}
    (there : s.live (ptr + sizeofStructMem) = some n) (some' : held request ≠ 0)
    (room : held request + sizeofStructMem + minSizeAligned < userSize s.heap ptr) (data : Nat → UInt8) :
    Resizes region s data (ptr + sizeofStructMem) request (trim region s.heap ptr (held request)) data (ptr + sizeofStructMem) := by
  have taken : step region s (.trim (ptr + sizeofStructMem) request) =
      some ⟨trim region s.heap ptr (held request),Function.update s.live (ptr + sizeofStructMem) (some request)⟩ := by
    simp only [step,there]
    rw [Nat.add_sub_cancel,if_pos ⟨some',room⟩]
  have still : Function.update s.live (ptr + sizeofStructMem) (some request) (ptr + sizeofStructMem) = some request :=
    Function.update_self ..
  obtain ⟨blocks',leaves⟩ := step_leaves sound taken
  constructor
  case parts => exact ⟨[_],_,run_cons.mpr ⟨_,taken,rfl⟩,rfl,by simp,fun r other _ => Function.update_of_ne other ..⟩
  case room => exact live_userSize leaves.sound still
  case kept => exact fun _ _ _ => rfl
  case others => exact fun _ _ _ _ _ _ => rfl

theorem move_resizes (sound : Sound region s blocks) {ptr q : Nat} {n request : UInt32} {heap : Heap}
    (there : s.live (ptr + sizeofStructMem) = some n) (made : (rtMalloc region s.heap (rtAlign request)).2 = some q)
    (freed : rtFree region (rtMalloc region s.heap (rtAlign request)).1 (ptr + sizeofStructMem) = some heap) (data : Nat → UInt8) :
    Resizes region s data (ptr + sizeofStructMem) request heap (copy data q (ptr + sizeofStructMem)
      (if userSize s.heap ptr < held request then userSize s.heap ptr else held request)) q := by
  have twelve : sizeofStructMem = 12 := rfl
  have fresh := (fresh_pointer sound made).2.2.2
  rw [held_rtAlign] at fresh
  have apart := fresh _ _ there
  have taken : step region s (.malloc (rtAlign request)) =
      some ⟨(rtMalloc region s.heap (rtAlign request)).1,Function.update s.live q (some (rtAlign request))⟩ := by
    simp only [step,made]
  have still : (Function.update s.live q (some (rtAlign request))) (ptr + sizeofStructMem) = some n := by
    rw [Function.update_of_ne (by omega)]
    exact there
  have taken' : step region ⟨(rtMalloc region s.heap (rtAlign request)).1,Function.update s.live q (some (rtAlign request))⟩
      (.free (ptr + sizeofStructMem)) = some ⟨heap,
        Function.update (Function.update s.live q (some (rtAlign request))) (ptr + sizeofStructMem) none⟩ := by
    simp only [step,still,freed]
    rfl
  have got : Function.update (Function.update s.live q (some (rtAlign request))) (ptr + sizeofStructMem) none q =
      some (rtAlign request) := by
    rw [Function.update_of_ne (by omega),Function.update_self]
  obtain ⟨blocks',leaves⟩ := step_leaves sound taken
  obtain ⟨blocks'',leaves'⟩ := step_leaves leaves.sound taken'
  constructor
  case parts =>
    refine ⟨[_,_],_,run_cons.mpr ⟨_,taken,run_cons.mpr ⟨_,taken',rfl⟩⟩,rfl,?_,?_⟩
    · dsimp only
      rw [got]
      simp
    · intro r other held'
      obtain ⟨m,here⟩ := Option.ne_none_iff_exists'.mp held'
      have := fresh _ _ here
      exact (Function.update_of_ne other ..).trans (Function.update_of_ne (by omega) ..)
  case room =>
    have enough := live_userSize leaves'.sound got
    rwa [held_rtAlign] at enough
  case kept =>
    intro i inside less
    rw [Nat.add_sub_cancel] at inside
    have below : q + i < q + (if userSize s.heap ptr < held request then userSize s.heap ptr else held request) := by
      split <;> omega
    unfold copy
    rw [if_pos ⟨Nat.le_add_right _ _,below⟩,Nat.add_sub_cancel_left]
  case others =>
    intro r m here _ i inside
    have := fresh _ _ here
    unfold copy
    rw [if_neg]
    rintro ⟨above,less⟩
    split at less <;> omega

theorem realloc_resizes (valid : Valid region s) {p q : Nat} {n request : UInt32} {data data' : Nat → UInt8} {heap : Heap}
    (there : s.live p = some n) (returned : rtRealloc region s.heap data (some p) request = some (heap,data',some q)) :
    Resizes region s data p request heap data' q := by
  have twelve : sizeofStructMem = 12 := rfl
  obtain ⟨blocks,sound⟩ := valid
  obtain ⟨ptr,len,rfl,used,_⟩ := sound.owns.block there
  have below := sound.holds.walled.below used
  dsimp only at below
  unfold rtRealloc at returned
  change (if region.memSizeAligned < held request then _ else if held request = 0 then _ else _) = _ at returned
  split at returned
  · cases returned
  · split at returned
    · dsimp only at returned
      rw [rtFree_used sound.holds used] at returned
      cases returned
    · rename_i some'
      dsimp only at returned
      rw [if_neg (by omega),Nat.add_sub_cancel] at returned
      change (if userSize s.heap ptr = held request then _ else if held request + _ + _ < userSize s.heap ptr then _ else _) = _ at returned
      split at returned
      · cases returned
        refine ⟨⟨[],s,rfl,rfl,by simp [there],fun _ _ _ => rfl⟩,?_,fun _ _ _ => rfl,fun _ _ _ _ _ _ => rfl⟩
        rw [Nat.add_sub_cancel]
        omega
      · split at returned
        · cases returned
          exact trim_resizes sound there some' ‹_› data
        · split at returned
          · cases returned
          · rename_i made
            obtain ⟨freed,moved,same⟩ := Option.map_eq_some_iff.mp returned
            cases same
            exact move_resizes sound there made moved data

theorem grown_block_resizes : ∃ s heap data', run (step trimRegion) (start trimRegion clearMemory) [.malloc 20,.malloc 8] = some s ∧
    Resizes trimRegion s (fun a => UInt8.ofNat a) 12 30 heap data' 68 := by
  have ends : ((run (step trimRegion) (start trimRegion clearMemory) [.malloc 20,.malloc 8]).map fun s =>
      decide (s.live 12 = some 20 ∧ (rtRealloc trimRegion s.heap (fun a => UInt8.ofNat a) (some 12) 30).map (·.2.2) = some (some 68))) =
        some true := by decide +kernel
  obtain ⟨s,ran,checked⟩ := Option.map_eq_some_iff.mp ends
  obtain ⟨there,moved⟩ := of_decide_eq_true checked
  obtain ⟨⟨heap,data',_⟩,returned,rfl⟩ := Option.map_eq_some_iff.mp moved
  exact ⟨s,heap,data',ran,realloc_resizes (run_sound ran) there returned⟩

end SssAlarmHost.SmallMem
