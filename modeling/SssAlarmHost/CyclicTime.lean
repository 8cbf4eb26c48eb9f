import Mathlib.Algebra.Ring.Nat
import Mathlib.Data.List.Sort

namespace CyclicTime

-- A counter of w bits that wraps: how far a moment lies ahead of the present one.
variable {w : Nat}

def ahead (now a : BitVec w) : Nat := (a - now).toNat

theorem ahead_add (now n : BitVec w) : ahead now (now + n) = n.toNat := by rw [ahead,BitVec.add_comm,BitVec.add_sub_cancel]

theorem ahead_zero {now a : BitVec w} : ahead now a = 0 ↔ a = now := by
  have back : a - now + now = a := BitVec.sub_add_cancel a now
  constructor
  · intro zero
    have none' : a - now = 0#w := BitVec.eq_of_toNat_eq zero
    rw [none',BitVec.zero_add] at back
    exact back.symm
  · intro same
    rw [ahead,same,BitVec.sub_self]
    rfl

theorem ahead_lt (now a : BitVec w) : ahead now a < 2^w := (a - now).isLt

-- The distance of two moments, from the distances of both to the present.
theorem sub_eq (now a b : BitVec w) : a - b = (a - now) - (b - now) := by
  apply BitVec.eq_sub_iff_add_eq.mpr
  have moved : a - b + (b - now) + now = a := by
    rw [BitVec.add_assoc,BitVec.sub_add_cancel,BitVec.sub_add_cancel]
  exact BitVec.eq_sub_iff_add_eq.mpr moved

theorem difference_le {now a b : BitVec w} (le : ahead now b ≤ ahead now a) : (a - b).toNat = ahead now a - ahead now b := by
  rw [sub_eq now a b]
  exact BitVec.toNat_sub_of_le le

theorem difference_lt {now a b : BitVec w} (lt : ahead now a < ahead now b) :
    (a - b).toNat = 2^w - (ahead now b - ahead now a) := by
  have small := ahead_lt now b
  rw [sub_eq now a b,BitVec.toNat_sub]
  show (2^w - ahead now b + ahead now a) % 2^w = _
  rw [Nat.mod_eq_of_lt (by omega)]
  omega

theorem ahead_succ {now a : BitVec w} (future : 0 < ahead now a) : ahead (now + 1) a = ahead now a - 1 := by
  have one : ahead now (now + 1) = (1 : BitVec w).toNat := ahead_add now 1
  have small := ahead_lt now a
  have room : 1 < 2^w := by omega
  have one' : (1 : BitVec w).toNat = 1 := by
    rw [BitVec.ofNat_eq_ofNat,BitVec.toNat_ofNat]
    exact Nat.mod_eq_of_lt room
  have less : ahead now (now + 1) ≤ ahead now a := by omega
  show (a - (now + 1)).toNat = _
  rw [difference_le less,one,one']

-- Inserting by a key behind everything of the same key.
variable {α : Type} {key : α → Nat}

theorem insert_sorted {l : List α} (x : α) (sorted : l.Pairwise fun a b => key a ≤ key b) :
    (l.orderedInsert (fun a b => key a < key b) x).Pairwise fun a b => key a ≤ key b := by
  induction l with
  | nil => exact List.pairwise_singleton _ x
  | cons y rest ih =>
    have first := (List.pairwise_cons.mp sorted).1
    rw [List.orderedInsert_cons]
    split
    case isTrue less =>
      refine List.pairwise_cons.mpr ⟨?_,sorted⟩
      intro z there
      rcases List.mem_cons.mp there with same | later
      · rw [same]
        exact Nat.le_of_lt less
      · exact Nat.le_trans (Nat.le_of_lt less) (first z later)
    case isFalse least =>
      refine List.pairwise_cons.mpr ⟨?_,ih (List.Pairwise.of_cons sorted)⟩
      intro z there
      rcases (List.mem_orderedInsert _).mp there with same | later
      · rw [same]
        exact Nat.le_of_not_lt least
      · exact first z later

end CyclicTime
