import Mathlib.Data.List.Basic
import Mathlib.Logic.Function.Basic

namespace RingBuffer

-- A circular buffer of N places with a put and a get position. Equal positions
-- mean empty unless the full flag is set; a put that reaches the get position
-- drops the oldest element.
structure Ring (α : Type) (N : Nat) where
  buffer : Fin N → α
  putIndex : Fin N
  getIndex : Fin N
  isFull : Bool

variable {α : Type} {N : Nat}

def Ring.empty (filler : α) : Ring α (N+1) := ⟨fun _ => filler,0,0,false⟩

def bump (i : Fin N) : Fin N :=
  if room : i.val + 1 < N then ⟨i.val+1,room⟩ else ⟨0,Nat.lt_of_le_of_lt (Nat.zero_le _) i.isLt⟩

def Ring.put (r : Ring α N) (x : α) : Ring α N :=
  let stored := {r with buffer := Function.update r.buffer r.putIndex x,putIndex := bump r.putIndex}
  if stored.putIndex = stored.getIndex then {stored with getIndex := bump stored.getIndex,isFull := true} else stored

def Ring.get (r : Ring α N) : Option (α × Ring α N) :=
  if r.getIndex = r.putIndex ∧ r.isFull = false then none
  else some (r.buffer r.getIndex,{r with getIndex := bump r.getIndex,isFull := false})

def Ring.count (r : Ring α N) : Nat := (r.putIndex.val + N - r.getIndex.val) % N

def place (start : Fin N) (offset : Nat) : Fin N :=
  ⟨(start.val+offset) % N,Nat.mod_lt _ (Nat.lt_of_le_of_lt (Nat.zero_le _) start.isLt)⟩

def Ring.contents (r : Ring α N) : List α := (List.range r.count).map fun k => r.buffer (place r.getIndex k)

theorem bump_val (i : Fin N) : (bump i).val = (i.val+1) % N := by
  have bound := i.isLt
  unfold bump
  split
  · rename_i room; exact (Nat.mod_eq_of_lt room).symm
  · have last : i.val + 1 = N := by omega
    simp [last]

theorem count_lt (r : Ring α N) : r.count < N :=
  Nat.mod_lt _ (Nat.lt_of_le_of_lt (Nat.zero_le _) r.putIndex.isLt)

@[simp] theorem contents_length (r : Ring α N) : r.contents.length = r.count := by simp [Ring.contents]

theorem place_count (r : Ring α N) : place r.getIndex r.count = r.putIndex := by
  have put := r.putIndex.isLt
  have get := r.getIndex.isLt
  apply Fin.ext
  simp only [place,Ring.count]
  by_cases wrapped : r.putIndex.val < r.getIndex.val
  · rw [Nat.mod_eq_of_lt (by omega : r.putIndex.val + N - r.getIndex.val < N)]
    have sum : r.getIndex.val + (r.putIndex.val + N - r.getIndex.val) = r.putIndex.val + N := by omega
    rw [sum,Nat.add_mod_right,Nat.mod_eq_of_lt put]
  · have ahead : r.putIndex.val + N - r.getIndex.val = r.putIndex.val - r.getIndex.val + N := by omega
    rw [ahead,Nat.add_mod_right,Nat.mod_eq_of_lt (by omega : r.putIndex.val - r.getIndex.val < N)]
    have sum : r.getIndex.val + (r.putIndex.val - r.getIndex.val) = r.putIndex.val := by omega
    rw [sum,Nat.mod_eq_of_lt put]

theorem place_injective (start : Fin N) {a b : Nat} (ha : a < N) (hb : b < N)
    (same : place start a = place start b) : a = b := by
  have bound := start.isLt
  have values := congrArg Fin.val same
  simp only [place] at values
  by_cases left : start.val + a < N
  · by_cases right : start.val + b < N
    · rw [Nat.mod_eq_of_lt left,Nat.mod_eq_of_lt right] at values; omega
    · have beyond : start.val + b = start.val + b - N + N := by omega
      rw [Nat.mod_eq_of_lt left,beyond,Nat.add_mod_right,Nat.mod_eq_of_lt (by omega)] at values; omega
  · have beyondA : start.val + a = start.val + a - N + N := by omega
    by_cases right : start.val + b < N
    · rw [Nat.mod_eq_of_lt right,beyondA,Nat.add_mod_right,Nat.mod_eq_of_lt (by omega)] at values; omega
    · have beyond : start.val + b = start.val + b - N + N := by omega
      rw [beyondA,beyond,Nat.add_mod_right,Nat.add_mod_right,Nat.mod_eq_of_lt (by omega),
        Nat.mod_eq_of_lt (by omega)] at values
      omega

theorem place_bump (start : Fin N) (k : Nat) : place (bump start) k = place start (k+1) := by
  apply Fin.ext
  simp only [place,bump_val,Nat.mod_add_mod]
  congr 1
  omega

theorem count_eq_of_place (r : Ring α N) {k : Nat} (small : k < N) (at' : place r.getIndex k = r.putIndex) :
    r.count = k :=
  place_injective r.getIndex (count_lt r) small ((place_count r).trans at'.symm)

theorem contents_nil (r : Ring α N) : r.contents = [] ↔ r.getIndex = r.putIndex := by
  have put := r.putIndex.isLt
  have zero : place r.getIndex 0 = r.getIndex := by
    apply Fin.ext
    simp only [place,Nat.add_zero]
    exact Nat.mod_eq_of_lt r.getIndex.isLt
  constructor
  · intro empty
    have none' : r.count = 0 := by rw [← contents_length r,empty]; rfl
    have same := place_count r
    rw [none',zero] at same
    exact same
  · intro same
    have none' := count_eq_of_place r (k := 0) (by omega) (by rw [zero]; exact same)
    simp [Ring.contents,none']

theorem place_next (r : Ring α N) : place r.getIndex (r.count+1) = bump r.putIndex := by
  rw [← place_bump]
  apply Fin.ext
  have here := congrArg Fin.val (place_count r)
  simp only [place,bump_val,Nat.mod_add_mod] at here ⊢
  rw [← here,Nat.mod_add_mod]
  congr 1
  omega

theorem bump_apart (r : Ring α N) (room : r.count + 1 < N) : bump r.putIndex ≠ r.getIndex := by
  intro same
  have zero : place r.getIndex 0 = r.getIndex := by
    apply Fin.ext
    simp only [place,Nat.add_zero]
    exact Nat.mod_eq_of_lt r.getIndex.isLt
  have collide := place_injective r.getIndex room (by omega) ((place_next r).trans (same.trans zero.symm))
  omega

theorem put_room (r : Ring α N) (x : α) (room : r.count + 1 < N) :
    r.put x = {r with buffer := Function.update r.buffer r.putIndex x,putIndex := bump r.putIndex} := by
  simp [Ring.put,bump_apart r room]

theorem put_count (r : Ring α N) (x : α) (room : r.count + 1 < N) : (r.put x).count = r.count + 1 := by
  apply count_eq_of_place _ room
  rw [put_room r x room]
  exact place_next r

theorem put_contents (r : Ring α N) (x : α) (room : r.count + 1 < N) (open' : r.isFull = false) :
    (r.put x).contents = r.contents ++ [x] ∧ (r.put x).isFull = false := by
  have size := put_count r x room
  refine ⟨?_,by rw [put_room r x room]; exact open'⟩
  apply List.ext_getElem
  · simp [size]
  · intro k left right
    have bound : k < r.count + 1 := by simpa [size] using left
    simp only [Ring.contents,List.getElem_map,List.getElem_range]
    rw [put_room r x room]
    by_cases last : k = r.count
    · subst k
      rw [List.getElem_append_right (by simp)]
      simp [place_count]
    · have earlier : k < r.count := by omega
      have other : place r.getIndex k ≠ r.putIndex := by
        intro same
        have := place_injective r.getIndex (by omega) (count_lt r) (same.trans (place_count r).symm)
        omega
      rw [List.getElem_append_left (by simpa using earlier)]
      simp [Function.update_of_ne other]

theorem get_contents (r : Ring α N) (open' : r.isFull = false) :
    (r.get = none ∧ r.contents = []) ∨
      ∃ x rest, r.get = some (x,rest) ∧ r.contents = x :: rest.contents ∧ rest.isFull = false := by
  by_cases empty : r.getIndex = r.putIndex
  · exact Or.inl ⟨by simp [Ring.get,empty,open'],(contents_nil r).mpr empty⟩
  · apply Or.inr
    have got : r.get = some (r.buffer r.getIndex,{r with getIndex := bump r.getIndex,isFull := false}) := by
      simp [Ring.get,empty]
    refine ⟨_,_,got,?_,rfl⟩
    have positive : r.count ≠ 0 := by
      intro zero
      exact empty ((contents_nil r).mp (List.eq_nil_of_length_eq_zero (by rw [contents_length,zero])))
    obtain ⟨n,size⟩ : ∃ n, r.count = n+1 := ⟨r.count-1,by omega⟩
    have bound := count_lt r
    have rest : (⟨r.buffer,r.putIndex,bump r.getIndex,false⟩ : Ring α N).count = n := by
      apply count_eq_of_place _ (by omega)
      have here := place_count r
      rw [size,← place_bump] at here
      exact here
    have first : place r.getIndex 0 = r.getIndex := by
      apply Fin.ext
      simp only [place,Nat.add_zero]
      exact Nat.mod_eq_of_lt r.getIndex.isLt
    simp only [Ring.contents,rest,size,List.range_succ_eq_map,List.map_cons,first,List.map_map]
    congr 1
    apply List.map_congr_left
    intro k _
    simp [place_bump]

end RingBuffer
