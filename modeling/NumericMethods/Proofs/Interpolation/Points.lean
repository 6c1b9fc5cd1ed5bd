/-
  NumericMethods/Proofs/Interpolation/Points.lean
  ===============================================
  **Which data points are admitted, and how they are sorted.**

  Equal abscissae are looked for among the neighbours of the sorted list.  That finds them
  all, since numbers that equal each other have no other numbers between them
  (`hasEqualNeighbours_sorted`), and so points are admitted exactly if there are as many
  ordinates as abscissae, there are enough of them, and no two abscissae are equal
  (`check_eq_ok_iff`).  The law is stated for the total order in which the list is sorted
  (`Scalar.HasTotalOrder`).  Abscissae that differ whichever of the two stands first are
  admitted in any order (`check_eq_ok_of_areDistinct`).

  Where no two numbers share a place in the order, a list has one sorted form
  (`sorted_eq_of_perm`), and points whose abscissae are all different have one too
  (`byAbscissa_eq_of_sorted`).

  In exact arithmetic, the sorted points are the given ones in another order, and their
  abscissae increase strictly (`byAbscissa_perm`, `abscissae_sortedLT`); there is only one
  such list (`byAbscissa_eq_of_perm`).
-/
import Mathlib
import NumericMethods.Interpolation.Points
import NumericMethods.Proofs.Scalar.TotalOrder

namespace NumericMethods

namespace Scalar

variable {α : Type} [Scalar α]

/-- The total order is one, and only equal numbers are between equal ones. -/
class HasTotalOrder (α : Type) [Scalar α] : Prop where
  totalLe_trans : ∀ x y z : α, totalLe x y = true → totalLe y z = true → totalLe x z = true
  totalLe_total : ∀ x y : α, (totalLe x y || totalLe y x) = true
  beq_comm : ∀ x y : α, (x == y) = (y == x)
  beq_of_between : ∀ {x y z : α}, (x == z) = true → totalLe x y = true → totalLe y z = true →
    (x == y) = true

instance [HasTotalOrder α] : HasTotalPreorder α :=
  ⟨HasTotalOrder.totalLe_trans, HasTotalOrder.totalLe_total⟩

end Scalar

namespace Points

open Scalar (HasLinearOrder HasTotalOrder HasTotalPreorder totalLe)

variable {α : Type} [Scalar α] {xs ys us vs : List α} {least : ℕ}

/-! ### The check -/

section Check

theorem hasEqualNeighbours_eq_false_iff :
    hasEqualNeighbours xs = false ↔ xs.IsChain fun x y => (x == y) = false := by
  induction xs with
  | nil => simp [hasEqualNeighbours]
  | cons x xs ih =>
    cases xs with
    | nil => simp [hasEqualNeighbours]
    | cons y xs => rw [hasEqualNeighbours, Bool.or_eq_false_iff, List.isChain_cons_cons, ih]

theorem sorted_perm (xs : List α) : (sorted xs).Perm xs := List.mergeSort_perm _ _

/-- Each outcome belongs to the first condition that fails. -/
theorem check_cases (xs ys : List α) (least : ℕ) :
    (xs.length ≠ ys.length ∧
        check xs ys least = .error (.linear (.pointCount xs.length ys.length))) ∨
      (xs.length = ys.length ∧ xs.length < least ∧
        check xs ys least = .error (.invalid (.tooFewPoints least))) ∨
      (xs.length = ys.length ∧ least ≤ xs.length ∧ hasEqualNeighbours (sorted xs) = true ∧
        check xs ys least = .error (.invalid .duplicateAbscissae)) ∨
      (xs.length = ys.length ∧ least ≤ xs.length ∧ hasEqualNeighbours (sorted xs) = false ∧
        check xs ys least = .ok ()) := by
  unfold check
  by_cases hlength : xs.length = ys.length
  · rw [if_neg (not_not.2 hlength)]
    by_cases hcount : xs.length < least
    · rw [if_pos hcount]
      exact .inr (.inl ⟨hlength, hcount, rfl⟩)
    · rw [if_neg hcount]
      cases hequal : hasEqualNeighbours (sorted xs) with
      | true => exact .inr (.inr (.inl ⟨hlength, not_lt.1 hcount, rfl, rfl⟩))
      | false => exact .inr (.inr (.inr ⟨hlength, not_lt.1 hcount, rfl, rfl⟩))
  · rw [if_pos hlength]
    exact .inl ⟨hlength, rfl⟩

theorem check_eq_ok_iff_hasEqualNeighbours : check xs ys least = .ok () ↔
    xs.length = ys.length ∧ least ≤ xs.length ∧ hasEqualNeighbours (sorted xs) = false := by
  rcases check_cases xs ys least with ⟨hlength, hcheck⟩ | ⟨-, hcount, hcheck⟩ |
      ⟨-, -, hequal, hcheck⟩ | ⟨hlength, hcount, hequal, hcheck⟩ <;> rw [hcheck]
  · exact iff_of_false nofun fun h => hlength h.1
  · exact iff_of_false nofun fun h => hcount.not_ge h.2.1
  · exact iff_of_false nofun fun h => by simp [h.2.2] at hequal
  · exact iff_of_true rfl ⟨hlength, hcount, hequal⟩

/-- The check looks at the two lengths and at equal neighbours only. -/
theorem check_congr (hxs : xs.length = us.length) (hys : ys.length = vs.length)
    (hequal : hasEqualNeighbours (sorted xs) = hasEqualNeighbours (sorted us)) :
    check xs ys least = check us vs least := by
  rw [check, check, hxs, hys, hequal]

/-- Points that are sorted are admitted if no neighbours are equal. -/
theorem check_eq_ok_of_sorted (xs ys : List α) (hlength : xs.length = ys.length)
    (hleast : least ≤ xs.length) (hsorted : xs.Pairwise fun x y => totalLe x y = true)
    (hdistinct : hasEqualNeighbours xs = false) : check xs ys least = .ok () := by
  refine check_eq_ok_iff_hasEqualNeighbours.2 ⟨hlength, hleast, ?_⟩
  rwa [sorted, List.mergeSort_of_pairwise hsorted]

/-- No number equals one at another place. -/
def AreDistinct (xs : List α) : Prop :=
  xs.Pairwise fun x y => (x == y) = false ∧ (y == x) = false

/-- Numbers at different places become neighbours in either order, if at all. -/
theorem check_eq_ok_of_areDistinct (hlength : xs.length = ys.length) (hleast : least ≤ xs.length)
    (hdistinct : AreDistinct xs) : check xs ys least = .ok () := by
  have hsorted : AreDistinct (sorted xs) :=
    ((sorted_perm xs).pairwise_iff fun h => ⟨h.2, h.1⟩).2 hdistinct
  exact check_eq_ok_iff_hasEqualNeighbours.2 ⟨hlength, hleast,
    hasEqualNeighbours_eq_false_iff.2 (hsorted.isChain.imp fun _ _ h => h.1)⟩

end Check

/-! ### Moved abscissae -/

section Moved

variable {f : α → α}

theorem hasEqualNeighbours_map (hf : ∀ x y, (f x == f y) = (x == y)) (xs : List α) :
    hasEqualNeighbours (xs.map f) = hasEqualNeighbours xs := by
  induction xs with
  | nil => rfl
  | cons x xs ih =>
    cases xs with
    | nil => rfl
    | cons y xs =>
      rw [List.map_cons, List.map_cons, hasEqualNeighbours, ← List.map_cons, ih, hf,
        hasEqualNeighbours]

theorem sorted_map (hf : ∀ x y, totalLe (f x) (f y) = totalLe x y) (xs : List α) :
    sorted (xs.map f) = (sorted xs).map f :=
  (List.map_mergeSort fun x _ y _ => (hf x y).symm).symm

theorem byAbscissa_map (hf : ∀ x y, totalLe (f x) (f y) = totalLe x y) (xs ys : List α) :
    byAbscissa (xs.map f) ys = (byAbscissa xs ys).map (Prod.map f id) := by
  rw [byAbscissa, List.zip_map_left]
  exact (List.map_mergeSort fun p _ q _ => (hf p.1 q.1).symm).symm

/-- A movement that keeps the order and the test for equality is not seen by the check. -/
theorem check_map (hf : ∀ x y, totalLe (f x) (f y) = totalLe x y)
    (hf' : ∀ x y, (f x == f y) = (x == y)) (xs ys : List α) :
    check (xs.map f) ys least = check xs ys least := by
  apply check_congr (List.length_map f) rfl
  rw [sorted_map hf, hasEqualNeighbours_map hf']

end Moved

/-! ### Sorted lists -/

section Sorted

theorem pairwise_sorted [HasTotalPreorder α] (xs : List α) :
    (sorted xs).Pairwise fun x y => totalLe x y = true :=
  List.pairwise_mergeSort HasTotalPreorder.totalLe_trans HasTotalPreorder.totalLe_total xs

theorem pairwise_byAbscissa [HasTotalPreorder α] (xs ys : List α) :
    (byAbscissa xs ys).Pairwise fun p q => totalLe p.1 q.1 = true :=
  List.pairwise_mergeSort (fun p q r => HasTotalPreorder.totalLe_trans p.1 q.1 r.1)
    (fun p q => HasTotalPreorder.totalLe_total p.1 q.1) _

theorem byAbscissa_perm (xs ys : List α) : (byAbscissa xs ys).Perm (xs.zip ys) :=
  List.mergeSort_perm _ _

theorem abscissae_perm (hlength : xs.length = ys.length) :
    ((byAbscissa xs ys).map Prod.fst).Perm xs := by
  have hperm := (byAbscissa_perm xs ys).map Prod.fst
  rwa [List.map_fst_zip hlength.le] at hperm

/-- In a sorted list, neighbours that are not related are enough for no members to be, if
    what is between related numbers is related to them. -/
theorem pairwise_of_isChain {r : α → α → Prop}
    (hbetween : ∀ {x y z : α}, r x z → totalLe x y = true → totalLe y z = true → r x y)
    (hsorted : xs.Pairwise fun x y => totalLe x y = true)
    (h : xs.IsChain fun x y => ¬ r x y) : xs.Pairwise fun x y => ¬ r x y := by
  induction xs with
  | nil => exact .nil
  | cons x xs ih =>
    obtain ⟨hx, hxs⟩ := List.pairwise_cons.1 hsorted
    refine List.pairwise_cons.2 ⟨fun z hz hrelated => ?_, ih hxs h.of_cons⟩
    cases xs with
    | nil => cases hz
    | cons y xs =>
      have hne : ¬ r x y := (List.isChain_cons_cons.1 h).1
      rcases List.mem_cons.1 hz with rfl | hz'
      · exact hne hrelated
      · exact hne (hbetween hrelated (hx y List.mem_cons_self) ((List.pairwise_cons.1 hxs).1 z hz'))

theorem hasEqualNeighbours_sorted [HasTotalOrder α] :
    hasEqualNeighbours (sorted xs) = false ↔ xs.Pairwise fun x y => (x == y) = false := by
  have hsymm : ∀ {x y : α}, (x == y) = false → (y == x) = false := by
    intro x y h
    rwa [HasTotalOrder.beq_comm]
  rw [hasEqualNeighbours_eq_false_iff, ← (sorted_perm xs).pairwise_iff hsymm]
  simp only [← Bool.not_eq_true]
  exact ⟨pairwise_of_isChain HasTotalOrder.beq_of_between (pairwise_sorted xs),
    List.Pairwise.isChain⟩

theorem check_eq_ok_iff [HasTotalOrder α] : check xs ys least = .ok () ↔
    xs.length = ys.length ∧ least ≤ xs.length ∧ xs.Pairwise fun x y => (x == y) = false := by
  rw [← hasEqualNeighbours_sorted]
  exact check_eq_ok_iff_hasEqualNeighbours

end Sorted

/-! ### One sorted form -/

section Unique

variable [HasLinearOrder α]

theorem sorted_eq_of_perm (h : xs.Perm us) : sorted xs = sorted us := by
  apply List.Perm.eq_of_pairwise _ (pairwise_sorted xs) (pairwise_sorted us)
  · exact (sorted_perm xs).trans (h.trans (sorted_perm us).symm)
  · exact fun _ _ _ _ => HasLinearOrder.totalLe_antisymm

/-- Numbers that equal themselves are all different if no neighbours are equal. -/
theorem nodup_of_hasEqualNeighbours (hdefined : ∀ x ∈ xs, Scalar.isUndefined x = false)
    (h : hasEqualNeighbours (sorted xs) = false) : xs.Nodup := by
  have hself : ∀ x ∈ sorted xs, (x == x) = true := by
    intro x hx
    simpa [Scalar.isUndefined] using hdefined x ((sorted_perm xs).mem_iff.1 hx)
  have hchain : (sorted xs).IsChain fun x y => ¬ x = y := by
    refine (hasEqualNeighbours_eq_false_iff.1 h).imp_of_mem_imp fun x y hx _ hne heq => ?_
    rw [← heq, hself x hx] at hne
    cases hne
  have hdifferent := pairwise_of_isChain (r := fun x y => x = y)
    (fun hxz hxy hyz => HasLinearOrder.totalLe_antisymm hxy (hxz ▸ hyz))
    (pairwise_sorted xs) hchain
  exact (sorted_perm xs).nodup_iff.1 hdifferent

/-- Points with different abscissae have one sorted form. -/
theorem byAbscissa_eq_of_sorted {points : List (α × α)} (hperm : points.Perm (xs.zip ys))
    (hsorted : points.Pairwise fun p q => totalLe p.1 q.1 = true)
    (hdistinct : (points.map Prod.fst).Nodup) : byAbscissa xs ys = points := by
  have hsame : (byAbscissa xs ys).Perm points := (byAbscissa_perm xs ys).trans hperm.symm
  apply hsame.eq_of_pairwise _ (pairwise_byAbscissa xs ys) hsorted
  intro p q hp hq hpq hqp
  exact List.inj_on_of_nodup_map hdistinct (hsame.subset hp) hq
    (HasLinearOrder.totalLe_antisymm hpq hqp)

end Unique

/-! ### Exact arithmetic -/

section Exact

open ExactScalar (totalLe_iff)

variable {K : Type} [Field K] [LinearOrder K] [IsStrictOrderedRing K] [ExactScalar K]
variable {xs ys : List K}

instance : HasTotalOrder K where
  totalLe_trans := HasTotalPreorder.totalLe_trans
  totalLe_total := HasTotalPreorder.totalLe_total
  beq_comm x y := decide_eq_decide.2 eq_comm
  beq_of_between hxz hxy hyz := by
    obtain rfl := ExactScalar.beq_iff.1 hxz
    exact ExactScalar.beq_iff.2 (HasLinearOrder.totalLe_antisymm hxy hyz)

theorem check_eq_ok_iff_nodup : check xs ys least = .ok () ↔
    xs.length = ys.length ∧ least ≤ xs.length ∧ xs.Nodup := by
  have hne : ∀ {x y : K}, (x == y) = false ↔ x ≠ y := by
    intro x y
    rw [Bool.eq_false_iff, Ne, ExactScalar.beq_iff]
  rw [check_eq_ok_iff, List.Nodup]
  simp only [hne]

theorem abscissae_sortedLT (hlength : xs.length = ys.length) (hdistinct : xs.Nodup) :
    ((byAbscissa xs ys).map Prod.fst).SortedLT := by
  have hsorted : ((byAbscissa xs ys).map Prod.fst).Pairwise (· ≤ ·) :=
    List.pairwise_map.2 ((pairwise_byAbscissa xs ys).imp totalLe_iff.1)
  have hnodup := (abscissae_perm hlength).nodup_iff.2 hdistinct
  exact ((hsorted.and hnodup).imp fun h => lt_of_le_of_ne h.1 h.2).sortedLT

/-- Points with different abscissae have one order in which these increase. -/
theorem byAbscissa_eq_of_perm {points : List (K × K)} (hperm : points.Perm (xs.zip ys))
    (hsorted : (points.map Prod.fst).SortedLT) : byAbscissa xs ys = points := by
  have hincreasing : points.Pairwise fun p q => p.1 < q.1 :=
    List.pairwise_map.1 hsorted.pairwise
  exact byAbscissa_eq_of_sorted hperm (hincreasing.imp fun h => totalLe_iff.2 h.le) hsorted.nodup

end Exact

end Points

end NumericMethods
