/-
  NumericMethods/Proofs/Interpolation/SplineSystem.lean
  =====================================================
  **What the system of a spline says about the coefficients of its pieces.**

  The unknowns of the system are the coefficients of all pieces, one after the other.  A
  row of the matrix is an equation between them, which is read by piece and place here
  (`SplineEquation.Holds`), and a vector solves the system exactly if all equations hold of
  the lists that it is cut into (`mulVec_matrix_eq_iff`).  So a spline that is found has
  pieces whose coefficients satisfy the equations, on the intervals between neighbouring
  knots (`throughSorted_eq_ok`).

  Each kind of equation is then read as a statement about one piece or two neighbours
  (`holds_passes_iff`, `holds_agrees_iff`, `holds_straight_iff`).  What follows from the
  equations for sorted points holds of every spline that is found, through the points in any
  order (`exists_sorted`).
-/
import Mathlib
import NumericMethods.Interpolation.Spline
import NumericMethods.Proofs.DenseMatrix.Substitution
import NumericMethods.Proofs.Interpolation.Points
import NumericMethods.Proofs.NumericError

namespace NumericMethods

open DenseMatrix Finset

variable {K : Type} [Field K] [LinearOrder K] [IsStrictOrderedRing K] [ExactScalar K]
variable {c : ℕ → ℕ → K}

/-- The equation holds of the coefficients `c`, by the piece and the place in it. -/
def SplineEquation.Holds (order pieces : ℕ) (c : ℕ → ℕ → K) (e : SplineEquation K) : Prop :=
  ∑ i ∈ range pieces, ∑ place ∈ range order, e.factor i place * c i place = e.value

namespace SplineKind

variable {order pieces s : ℕ} {kind : SplineKind} {ts ys : Vector K (s + 2)}

/-! ### Rows as equations -/

/-- The entries of a vector, by the piece and the place in it. -/
def cut (order : ℕ) (a : List K) (i place : ℕ) : K := a.getD (order * i + place) 0

/-- A sum over all unknowns, one piece after the other. -/
theorem sum_range_mul {M : Type} [AddCommMonoid M] (order pieces : ℕ) (g : ℕ → M) :
    ∑ j ∈ range (order * pieces), g j =
      ∑ i ∈ range pieces, ∑ place ∈ range order, g (order * i + place) := by
  induction pieces with
  | zero => simp
  | succ pieces ih => rw [Nat.mul_succ, sum_range_add, ih, sum_range_succ]

theorem sum_products_row (e : SplineEquation K) (a : Vector K (order * pieces)) :
    (products (row order pieces e) a).sum =
      ∑ i ∈ range pieces, ∑ place ∈ range order, e.factor i place * cut order a.toList i place := by
  have hrow : ∀ j : Fin (order * pieces), (row order pieces e).get j * a.get j =
      e.factor (j / order) (j % order) * a.toList.getD j 0 := by
    intro j
    rw [row, get_eq_getD a, Vector.get_ofFn]
  rw [sum_products, dotProduct]
  simp only [coordinates_apply, hrow]
  rw [← sum_range fun j => e.factor (j / order) (j % order) * a.toList.getD j 0, sum_range_mul]
  refine sum_congr rfl fun i _ => sum_congr rfl fun place hplace => ?_
  have hlt : place < order := mem_range.1 hplace
  rw [Nat.mul_add_div (by omega), Nat.mul_add_mod, Nat.div_eq_of_lt hlt, Nat.mod_eq_of_lt hlt,
    Nat.add_zero, cut]

/-- A vector solves the system exactly if all equations hold of its entries. -/
theorem mulVec_matrix_eq_iff (a : Vector K (kind.order * (s + 1))) :
    (kind.matrix s ts ys).mulVec a = kind.rightSide s ts ys ↔
      ∀ e ∈ kind.equations s ts ys, e.Holds kind.order (s + 1) (cut kind.order a.toList) := by
  have hleft : ((kind.matrix s ts ys).mulVec a).toList = (kind.equations s ts ys).map fun e =>
      Scalar.accumulated (products (row kind.order (s + 1) e) a) := by
    rw [mulVec, Vector.toList_map]
    exact List.map_map
  have hright : (kind.rightSide s ts ys).toList =
      (kind.equations s ts ys).map SplineEquation.value := rfl
  rw [← Vector.toList_inj, hleft, hright, List.map_inj_left]
  refine forall₂_congr fun e _ => ?_
  rw [ExactScalar.accumulated_eq_sum, sum_products_row]
  rfl

/-! ### The equations of a spline -/

section Lists

variable {α : Type} [Scalar α] {P : SplineEquation α → Prop}

theorem forall_mem_passing {s : ℕ} {ts ys : Vector α (s + 1)} :
    (∀ e ∈ passing order s ts ys, P e) ↔
      (∀ i : Fin s, P (passes order i (ts.get i.castSucc) (ys.get i.castSucc))) ∧
        ∀ i : Fin s, P (passes order i (ts.get i.succ) (ys.get i.succ)) := by
  rw [passing, List.forall_mem_append, List.forall_mem_map, List.forall_mem_map]
  simp only [List.mem_finRange, true_imp_iff]
  rfl

theorem forall_mem_smooth {ts : Vector α (s + 2)} :
    (∀ e ∈ smooth s ts, P e) ↔
      (∀ i : Fin s, P (agrees (fun sign => slopeFactor sign (ts.get i.succ.castSucc)) i)) ∧
        (∀ i : Fin s, P (agrees (fun sign => bendFactor sign (ts.get i.succ.castSucc)) i)) ∧
          P (straight 0 (ts.get 0)) ∧ P (straight s (ts.get (Fin.last (s + 1)))) := by
  rw [smooth, List.forall_mem_append, List.forall_mem_append, List.forall_mem_map,
    List.forall_mem_map, and_assoc]
  simp only [List.mem_finRange, true_imp_iff, List.forall_mem_cons, List.not_mem_nil,
    false_imp_iff, implies_true, and_true]
  rfl

end Lists

/-! ### Equations as statements about pieces -/

variable {piece joint : ℕ} {factor : K → ℕ → K} {measure : List K → K}

/-- An equation for one piece sums over that piece only. -/
theorem sum_piece (hpiece : piece < pieces) (g : ℕ → K) :
    ∑ i ∈ range pieces, ∑ place ∈ range order, (if i = piece then g place else 0) * c i place =
      ∑ place ∈ range order, g place * c piece place := by
  rw [sum_eq_single piece]
  · simp
  · intro i _ hne
    simp [hne]
  · exact fun hnot => absurd (mem_range.2 hpiece) hnot

/-- The factors measure something of the piece with given coefficients. -/
def Measures (order : ℕ) (g : ℕ → K) (sign : K) (measure : List K → K) : Prop :=
  ∀ c : ℕ → K, ∑ place ∈ range order, g place * c place =
    sign * measure ((List.range order).map c)

theorem foldl_eq_sum (order : ℕ) (g : ℕ → K) (t : K) :
    ((List.range order).map g).foldl (fun value d => value * t + d) 0 =
      ∑ place ∈ range order, Scalar.natPow t (order - 1 - place) * g place := by
  simp only [ExactScalar.natPow_eq_pow]
  induction order with
  | zero => rfl
  | succ order ih =>
    have hpower : ∀ place ∈ range order, t ^ (order + 1 - 1 - place) * g place =
        t ^ (order - 1 - place) * g place * t := by
      intro place hplace
      have hlt : place < order := mem_range.1 hplace
      have hmore : order + 1 - 1 - place = order - 1 - place + 1 := by omega
      rw [hmore, pow_succ]
      ring
    rw [List.range_succ, List.map_append, List.foldl_append, ih, sum_range_succ,
      sum_congr rfl hpower, ← sum_mul, Nat.add_sub_cancel, Nat.sub_self, pow_zero, one_mul]
    rfl

theorem holds_passes_iff (hpiece : piece < pieces) (t y : K) :
    (passes order piece t y).Holds order pieces c ↔
      ((List.range order).map (c piece)).foldl (fun value d => value * t + d) 0 = y := by
  rw [foldl_eq_sum, SplineEquation.Holds]
  exact Eq.congr_left (sum_piece hpiece _)

theorem holds_straight_iff (hpiece : piece < pieces) {t : K}
    (hmeasure : Measures order (bendFactor 1 t) 1 measure) :
    (straight piece t).Holds order pieces c ↔ measure ((List.range order).map (c piece)) = 0 := by
  rw [← one_mul (measure _), ← hmeasure, SplineEquation.Holds]
  exact Eq.congr_left (sum_piece hpiece _)

theorem holds_agrees_iff (hjoint : joint + 1 < pieces)
    (hmeasure : ∀ sign, Measures order (factor sign) sign measure) :
    (agrees factor joint).Holds order pieces c ↔
      measure ((List.range order).map (c joint)) =
        measure ((List.range order).map (c (joint + 1))) := by
  have hfactor : ∀ i place, (agrees factor joint).factor i place * c i place =
      (if i = joint then factor 1 place else 0) * c i place +
        (if i = joint + 1 then factor (-1) place else 0) * c i place := by
    intro i place
    rw [← add_mul]
    congr 1
    change (if i = joint then _ else if i = joint + 1 then _ else 0) = _
    by_cases hi : i = joint
    · simp [hi]
    · simp [hi]
  rw [SplineEquation.Holds]
  simp only [hfactor, sum_add_distrib]
  rw [sum_piece (by omega), sum_piece hjoint, hmeasure, hmeasure, one_mul, neg_one_mul]
  exact add_neg_eq_zero

theorem measures_slope (sign t : K) :
    Measures 4 (slopeFactor sign t) sign (SplinePiece.derivativeFrom t 0) := by
  intro g
  have hlist : (List.range 4).map g = [g 0, g 1, g 2, g 3] := rfl
  simp only [hlist, sum_range_succ, sum_range_zero, slopeFactor, SplinePiece.derivativeFrom,
    ExactScalar.natPow_eq_pow, ExactScalar.ofNat_eq, List.length_cons, List.length_nil]
  push_cast
  ring

theorem measures_bend (sign t : K) :
    Measures 4 (bendFactor sign t) sign (SplinePiece.secondDerivativeFrom t 0) := by
  intro g
  have hlist : (List.range 4).map g = [g 0, g 1, g 2, g 3] := rfl
  simp only [hlist, sum_range_succ, sum_range_zero, bendFactor, SplinePiece.secondDerivativeFrom,
    ExactScalar.ofNat_eq, List.length_cons, List.length_nil]
  push_cast
  ring

end SplineKind

namespace Spline

variable {s : ℕ} {kind : SplineKind} {xs ys : Vector K (s + 2)} {p : Spline K}

omit [Field K] [LinearOrder K] [IsStrictOrderedRing K] [ExactScalar K] in
theorem chunks_eq (order count : ℕ) (a : List K) :
    chunks order count a = (List.range count).map fun i => (a.drop (order * i)).take order := by
  induction count generalizing a with
  | zero => rfl
  | succ count ih =>
    rw [chunks, ih, List.range_succ_eq_map, List.map_cons, List.map_map, Nat.mul_zero,
      List.drop_zero]
    simp only [List.drop_drop, Function.comp_def, Nat.mul_succ, Nat.add_comm]

theorem take_drop_eq_cut {order i : ℕ} {a : List K} (h : order * i + order ≤ a.length) :
    (a.drop (order * i)).take order = (List.range order).map (SplineKind.cut order a i) := by
  apply List.ext_getElem
  · simp
    omega
  · intro place hplace hplace'
    have hlt : order * i + place < a.length := by
      simp only [List.length_map, List.length_range] at hplace'
      omega
    simp [SplineKind.cut, hlt]

/-- The piece between two neighbouring knots with given coefficients in the distance from the
    first knot. -/
def pieceOf (order : ℕ) (xs : Vector K (s + 2)) (c : ℕ → ℕ → K) (i : Fin (s + 1)) :
    SplinePiece K :=
  ⟨xs.get i.castSucc, xs.get i.succ, xs.get 0, (List.range order).map (c i)⟩

theorem piecesOf_eq {order : ℕ} {a : List K} (h : a.length = order * (s + 1)) :
    piecesOf (xs.get 0) xs.toList (chunks order (s + 1) a) =
      List.ofFn (pieceOf order xs (SplineKind.cut order a)) := by
  rw [chunks_eq]
  apply List.ext_getElem
  · simp [piecesOf, intervals]
  · intro i hi hi'
    have hi'' : i < s + 1 := by simpa using hi'
    have hle : order * i + order ≤ a.length := by
      rw [h, ← Nat.mul_succ]
      exact Nat.mul_le_mul_left order hi''
    simp only [piecesOf, intervals, List.getElem_zipWith, List.getElem_zip, List.getElem_tail,
      List.getElem_map, List.getElem_range, List.getElem_ofFn, take_drop_eq_cut hle]
    simp [pieceOf, Vector.get_eq_getElem]

/-- The pieces of a spline through sorted points have coefficients that satisfy the
    equations. -/
structure Solves (kind : SplineKind) (s : ℕ) (xs ys : Vector K (s + 2)) (c : ℕ → ℕ → K)
    (p : Spline K) : Prop where
  equations : ∀ e ∈ kind.equations s (measuredFrom (xs.get 0) xs) ys,
    e.Holds kind.order (s + 1) c
  pieces : p.pieces = List.ofFn (pieceOf kind.order xs c)

/-- The system of given points, in the distance from the first knot. -/
def localSolution (kind : SplineKind) (s : ℕ) (xs ys : Vector K (s + 2)) :
    Except (LinearError K) (Vector K (kind.order * (s + 1))) :=
  (kind.matrix s (measuredFrom (xs.get 0) xs) ys).solve
    (kind.rightSide s (measuredFrom (xs.get 0) xs) ys)

theorem throughSorted_of_error {e : LinearError K} (h : localSolution kind s xs ys = .error e) :
    throughSorted kind s xs ys = .error (NumericError.ofSystem kind.method e) := by
  have hsystem : (localSolution kind s xs ys).mapError (NumericError.ofSystem kind.method) =
      .error (NumericError.ofSystem kind.method e) := by
    rw [h]
    rfl
  exact bind_eq_error_iff.2 (.inl hsystem)

/-- A solution gives the coefficients of the pieces, and the system is shown in `x`. -/
theorem throughSorted_of_ok {a : Vector K (kind.order * (s + 1))}
    (h : localSolution kind s xs ys = .ok a) :
    ∃ p, throughSorted kind s xs ys = .ok p ∧
      p.pieces = List.ofFn (pieceOf kind.order xs (SplineKind.cut kind.order a.toList)) ∧
        p.matrix = (kind.matrix s (measuredFrom 0 xs) ys).toRows ∧
          p.values = (kind.rightSide s (measuredFrom 0 xs) ys).toList := by
  have hsystem : (localSolution kind s xs ys).mapError (NumericError.ofSystem kind.method) =
      .ok a := by
    rw [h]
    rfl
  have hpieces : piecesOf (xs.get 0) xs.toList (chunks kind.order (s + 1) a.toList) = _ :=
    piecesOf_eq a.length_toList
  have hne : piecesOf (xs.get 0) xs.toList (chunks kind.order (s + 1) a.toList) ≠ [] := by
    rw [hpieces]
    simp
  refine ⟨⟨kind, _, _, _, hne⟩, bind_eq_ok_iff.2 ⟨a, hsystem, dif_pos hne⟩, hpieces, rfl, rfl⟩

theorem throughSorted_eq_ok (h : throughSorted kind s xs ys = .ok p) :
    ∃ c, p.Solves kind s xs ys c := by
  cases hsolution : localSolution kind s xs ys with
  | error e =>
    rw [throughSorted_of_error hsolution] at h
    cases h
  | ok a =>
    obtain ⟨q, hq, hpieces, -⟩ := throughSorted_of_ok hsolution
    obtain rfl := Except.ok.inj (hq.symm.trans h)
    exact ⟨_, (SplineKind.mulVec_matrix_eq_iff a).1 (mulVec_of_solve hsolution), hpieces⟩

theorem get_measuredFrom (origin : K) (i : Fin (s + 2)) :
    (measuredFrom origin xs).get i = xs.get i - origin := Vector.get_map _ _ _

/-- Every piece passes through the points at both ends. -/
theorem Solves.passes (h : p.Solves kind s xs ys c) (i : Fin (s + 1)) :
    (pieceOf kind.order xs c i).evaluate (xs.get i.castSucc) = ys.get i.castSucc ∧
      (pieceOf kind.order xs c i).evaluate (xs.get i.succ) = ys.get i.succ := by
  have hpassing : ∀ e ∈ SplineKind.passing kind.order (s + 1) (measuredFrom (xs.get 0) xs) ys,
      e.Holds kind.order (s + 1) c := by
    intro e he
    cases kind with
    | linear => exact h.equations e he
    | cubic => exact h.equations e (List.mem_append_left _ he)
  obtain ⟨hleft, hright⟩ := SplineKind.forall_mem_passing.1 hpassing
  constructor
  · have hvalue := (SplineKind.holds_passes_iff i.isLt _ _).1 (hleft i)
    rwa [get_measuredFrom] at hvalue
  · have hvalue := (SplineKind.holds_passes_iff i.isLt _ _).1 (hright i)
    rwa [get_measuredFrom] at hvalue

section Points

variable {α : Type} [Scalar α] {xs ys : List α}

theorem ofPoints_of_error {e : NumericError α} (h : Points.check xs ys 2 = .error e) :
    ofPoints kind xs ys = .error e := bind_eq_error_iff.2 (.inl h)

/-- Admitted points are sorted, and the spline goes through the sorted ones. -/
theorem ofPoints_of_check (us vs : Vector α (s + 2)) (hcheck : Points.check xs ys 2 = .ok ())
    (hus : (Points.byAbscissa xs ys).map Prod.fst = us.toList)
    (hvs : (Points.byAbscissa xs ys).map Prod.snd = vs.toList) :
    ofPoints kind xs ys = throughSorted kind s us vs := by
  unfold ofPoints
  rw [hcheck]
  dsimp only [bind, Except.bind]
  have hlength : (Points.byAbscissa xs ys).length = s + 2 := by
    rw [← List.length_map Prod.fst, hus, us.length_toList]
  split
  · rename_i q q' rest hpoints
    obtain rfl : rest.length = s := by simpa [hpoints] using hlength
    have hus' : Vector.mk ((Points.byAbscissa xs ys).map Prod.fst).toArray
        (by simp [hpoints]) = us := Vector.toList_inj.1 hus
    have hvs' : Vector.mk ((Points.byAbscissa xs ys).map Prod.snd).toArray
        (by simp [hpoints]) = vs := Vector.toList_inj.1 hvs
    rw [hus', hvs']
  · rename_i hfew
    obtain ⟨q, _, hq⟩ := List.exists_cons_of_length_eq_add_one hlength
    rw [hq] at hlength
    obtain ⟨q', rest, rfl⟩ := List.exists_cons_of_length_eq_add_one (Nat.succ_injective hlength)
    exact absurd hq (hfew q q' rest)

/-- Admitted points are two at least. -/
theorem exists_sorted_of_check (hcheck : Points.check xs ys 2 = .ok ()) :
    ∃ (s : ℕ) (us vs : Vector α (s + 2)), (Points.byAbscissa xs ys).map Prod.fst = us.toList ∧
      (Points.byAbscissa xs ys).map Prod.snd = vs.toList := by
  obtain ⟨hlength, hcount, -⟩ := Points.check_eq_ok_iff_hasEqualNeighbours.1 hcheck
  obtain ⟨s, hs⟩ : ∃ s, (Points.byAbscissa xs ys).length = s + 2 := by
    rw [(Points.byAbscissa_perm xs ys).length_eq, List.length_zip, ← hlength, min_self]
    exact ⟨xs.length - 2, by omega⟩
  exact ⟨s, ⟨((Points.byAbscissa xs ys).map Prod.fst).toArray, by simp [hs]⟩,
    ⟨((Points.byAbscissa xs ys).map Prod.snd).toArray, by simp [hs]⟩, rfl, rfl⟩

end Points

/-- Points in any order give the spline through the same points with increasing abscissae. -/
theorem ofPoints_of_perm {xs ys : List K} (us vs : Vector K (s + 2))
    (hlength : xs.length = ys.length) (hperm : (us.toList.zip vs.toList).Perm (xs.zip ys))
    (hsorted : us.toList.SortedLT) : ofPoints kind xs ys = throughSorted kind s us vs := by
  have hus : (us.toList.zip vs.toList).map Prod.fst = us.toList := List.map_fst_zip (by simp)
  have hvs : (us.toList.zip vs.toList).map Prod.snd = vs.toList := List.map_snd_zip (by simp)
  have hpoints := Points.byAbscissa_eq_of_perm hperm (by rwa [hus])
  rw [← hpoints] at hus hvs
  have habscissae : us.toList.Perm xs := hus ▸ Points.abscissae_perm hlength
  have hcount : 2 ≤ xs.length := by
    rw [← habscissae.length_eq, us.length_toList]
    exact Nat.le_add_left 2 s
  exact ofPoints_of_check us vs (Points.check_eq_ok_iff_nodup.2
    ⟨hlength, hcount, habscissae.nodup_iff.1 hsorted.nodup⟩) hus hvs

omit [Field K] [IsStrictOrderedRing K] [ExactScalar K] in
theorem strictMono_get {n : ℕ} {us : Vector K n} (h : us.toList.SortedLT) :
    StrictMono us.get := by
  obtain ⟨⟨l⟩, rfl⟩ := us
  exact h.strictMono_get

/-- A spline passes through the points that are admitted, sorted by their abscissae. -/
theorem ofPoints_eq_ok {xs ys : List K} (h : ofPoints kind xs ys = .ok p) :
    (xs.length = ys.length ∧ 2 ≤ xs.length ∧ xs.Nodup) ∧
      ∃ (s : ℕ) (us vs : Vector K (s + 2)), StrictMono us.get ∧
        us.toList.zip vs.toList = Points.byAbscissa xs ys ∧
          throughSorted kind s us vs = .ok p := by
  obtain ⟨_, hcheck, -⟩ := bind_eq_ok_iff.1 h
  obtain ⟨hlength, hcount, hdistinct⟩ := Points.check_eq_ok_iff_nodup.1 hcheck
  obtain ⟨s, us, vs, hus, hvs⟩ := exists_sorted_of_check hcheck
  have hincreasing := Points.abscissae_sortedLT hlength hdistinct
  rw [hus] at hincreasing
  rw [ofPoints_of_check us vs hcheck hus hvs] at h
  refine ⟨⟨hlength, hcount, hdistinct⟩, s, us, vs, strictMono_get hincreasing, ?_, h⟩
  rw [← hus, ← hvs, ← List.unzip_fst, ← List.unzip_snd, List.zip_unzip]

/-- What the equations imply holds of a spline that is found, for the points sorted by their
    abscissae. -/
theorem exists_sorted {xs ys : List K} {P : List (K × K) → Prop} (h : ofPoints kind xs ys = .ok p)
    (hsolved : ∀ {s : ℕ} {us vs : Vector K (s + 2)} {c : ℕ → ℕ → K}, p.Solves kind s us vs c →
      StrictMono us.get → P (us.toList.zip vs.toList)) :
    ∃ points : List (K × K), points.Perm (xs.zip ys) ∧ (points.map Prod.fst).SortedLT ∧
      points.length = xs.length ∧ P points := by
  obtain ⟨⟨hlength, -, hdistinct⟩, s, us, vs, hincreasing, hpoints, hthrough⟩ := ofPoints_eq_ok h
  obtain ⟨c, hsolves⟩ := throughSorted_eq_ok hthrough
  have hperm := Points.byAbscissa_perm xs ys
  refine ⟨_, hperm, Points.abscissae_sortedLT hlength hdistinct, ?_,
    hpoints ▸ hsolved hsolves hincreasing⟩
  rw [hperm.length_eq, List.length_zip, hlength, min_self]

end Spline

end NumericMethods
