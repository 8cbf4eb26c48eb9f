import Mathlib.Data.List.Basic
import Mathlib.Logic.Function.Basic

namespace PriorityQueues

-- One first-in first-out list for each of n priorities, 0 the highest, beside a word
-- with a bit for each list that holds something.
variable {n : Nat} {α : Type} {table : Fin n → List α} {group : BitVec n}

def bit (p : Fin n) : BitVec n := 1#n <<< p.val

theorem getLsbD_bit (p q : Fin n) : (bit p).getLsbD q = decide (q = p) := by
  have inside := q.isLt
  rw [bit,BitVec.getLsbD_shiftLeft,BitVec.getLsbD_one,Bool.eq_iff_iff]
  simp only [Bool.and_eq_true,Bool.not_eq_true',decide_eq_false_iff_not,decide_eq_true_eq,Fin.ext_iff]
  omega

theorem getLsbD_clear (group : BitVec n) (p q : Fin n) :
    (group &&& ~~~bit p).getLsbD q = true ↔ group.getLsbD q = true ∧ q ≠ p := by
  rw [BitVec.getLsbD_and,BitVec.getLsbD_not,getLsbD_bit]
  simp only [q.isLt,decide_true,Bool.true_and,Bool.and_eq_true,Bool.not_eq_true',decide_eq_false_iff_not,ne_eq]

def Marked (table : Fin n → List α) (group : BitVec n) : Prop := ∀ p : Fin n, group.getLsbD p = true ↔ table p ≠ []

theorem Marked.empty : Marked (fun _ : Fin n => ([] : List α)) 0 := fun p => by simp

theorem Marked.append (marked : Marked table group) (p : Fin n) (x : α) :
    Marked (Function.update table p (table p ++ [x])) (group ||| bit p) := by
  intro q
  rw [BitVec.getLsbD_or,getLsbD_bit,Bool.or_eq_true,marked q,decide_eq_true_eq]
  by_cases same : q = p
  · cases same
    simp
  · simp [same]

theorem Marked.unlink [DecidableEq α] (marked : Marked table group) {x : α} {q : Fin n} (only : ∀ p, x ∈ table p → p = q) :
    Marked (fun p => (table p).erase x) (if (table q).erase x = [] then group &&& ~~~bit q else group) := by
  have kept : ∀ p, p ≠ q → (table p).erase x = table p := fun p other => List.erase_of_not_mem fun there => other (only p there)
  have shrinks : (table q).erase x ≠ [] → table q ≠ [] := fun some' none' => some' (by rw [none']; rfl)
  intro p
  by_cases same : p = q
  · rw [same]
    split
    case isTrue gone =>
      rw [getLsbD_clear]
      exact ⟨fun set => absurd rfl set.2,fun holds => absurd gone holds⟩
    case isFalse left => exact (marked q).trans ⟨fun _ => left,fun _ => shrinks left⟩
  · dsimp only
    rw [kept p same]
    split
    · rw [getLsbD_clear,marked p]
      exact and_iff_left same
    · exact marked p

theorem Marked.zero_iff (marked : Marked table group) : group = 0 ↔ ∀ p, table p = [] := by
  constructor
  · intro zero p
    by_contra holds
    have set := (marked p).mpr holds
    rw [zero] at set
    simp at set
  · intro none'
    apply BitVec.eq_of_getLsbD_eq
    intro i inside
    have clear := (marked ⟨i,inside⟩).mp.mt (not_not_intro (none' ⟨i,inside⟩))
    simpa using clear

-- The lowest bit set is the highest priority that holds something.
def First (group : BitVec n) (i : Nat) : Prop := group.getLsbD i = true ∧ ∀ j < i, group.getLsbD j = false

theorem First.unique {i j : Nat} (first : First group i) (other : First group j) : i = j := by
  rcases Nat.lt_trichotomy i j with below | same | above
  · exact absurd first.1 (by rw [other.2 i below]; decide)
  · exact same
  · exact absurd other.1 (by rw [first.2 j above]; decide)

theorem first_ctz (some' : group ≠ 0) : First group group.ctz.toNat :=
  ⟨BitVec.getLsbD_true_ctz_of_ne_zero some',fun _ below => BitVec.getLsbD_false_of_lt_ctz below⟩

theorem Marked.first (marked : Marked table group) {i : Nat} (first : First group i) (inside : i < n) :
    table ⟨i,inside⟩ ≠ [] ∧ ∀ p, table p ≠ [] → ⟨i,inside⟩ ≤ p := by
  refine ⟨(marked ⟨i,inside⟩).mp first.1,?_⟩
  intro p holds
  apply Nat.le_of_not_lt
  intro below
  exact absurd ((marked p).mpr holds) (by rw [first.2 p below]; decide)

-- A waiting member comes no later when another one leaves.
theorem idxOf_erase_le [DecidableEq α] {l : List α} {x y : α} (other : y ≠ x) : (l.erase y).idxOf x ≤ l.idxOf x := by
  induction l with
  | nil => exact Nat.le_refl 0
  | cons z rest ih =>
    by_cases gone : z = y
    · cases gone
      rw [List.erase_cons_head,List.idxOf_cons_ne _ other]
      exact Nat.le_succ _
    · rw [List.erase_cons_tail (by simpa using gone)]
      by_cases here : z = x
      · rw [here,List.idxOf_cons_self]
        exact Nat.zero_le _
      · rw [List.idxOf_cons_ne _ here,List.idxOf_cons_ne _ here]
        exact Nat.succ_le_succ ih

end PriorityQueues
