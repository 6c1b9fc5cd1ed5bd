/-
  NumericMethods/Proofs/Decimal/Shortest.lean
  ===========================================
  **The decimal chosen for a binary number rounds to it.**

  `Dyadic.Rounds` is the rounding interval of a binary number, on rational numbers.  The
  tests that choose a decimal are made on natural numbers; cleared of the denominators
  they say that the decimal lies in that interval.  The search succeeds since on its last
  grid the points are less than a quarter of the last binary place apart.
-/
import NumericMethods.Decimal.Shortest
import NumericMethods.Proofs.Decimal.Value

namespace NumericMethods.Decimal.Dyadic

/-! ### The rounding interval -/

/-- The numbers that round to the binary number, by the rule that ties go to the even
    significand. -/
def Rounds (x : Dyadic) (y : ℚ) : Prop :=
  if x.significand % 2 = 0 then
    x.lowQuarters * 2 ^ (x.exponent - 2) ≤ y ∧ y ≤ x.highQuarters * 2 ^ (x.exponent - 2)
  else
    x.lowQuarters * 2 ^ (x.exponent - 2) < y ∧ y < x.highQuarters * 2 ^ (x.exponent - 2)

/-- The magnitude of a finite 64 bit number other than zero. -/
structure IsBinary64 (x : Dyadic) : Prop where
  pos : 0 < x.significand
  lt : x.significand < 2 ^ 53
  least : -1074 ≤ x.exponent
  greatest : x.exponent ≤ 971
  /-- Only at the smallest exponent the leading bit may be missing. -/
  leading : x.exponent = -1074 ∨ 2 ^ 52 ≤ x.significand
  narrow : x.narrowBelow = true ↔ x.significand = 2 ^ 52 ∧ x.exponent ≠ -1074

variable {x : Dyadic} {k : Int}

/-- The rounding interval in quarters of the last place. -/
theorem Rounds.quarters {y : ℚ} (h : x.Rounds y) :
    x.lowQuarters ≤ 4 * (y / 2 ^ x.exponent) ∧
      4 * (y / 2 ^ x.exponent) ≤ 4 * x.significand + 2 ∧
      (x.significand % 2 = 1 →
        x.lowQuarters < 4 * (y / 2 ^ x.exponent) ∧
          4 * (y / 2 ^ x.exponent) < 4 * x.significand + 2) := by
  have hquarter : (0 : ℚ) < 2 ^ (x.exponent - 2) := zpow_pos (by norm_num) _
  have hpow : (2 : ℚ) ^ x.exponent = 4 * 2 ^ (x.exponent - 2) := by
    rw [zpow_sub₀ (by norm_num)]
    ring
  have hy : 4 * (y / 2 ^ x.exponent) = y / 2 ^ (x.exponent - 2) := by
    rw [hpow, ← div_div, mul_div_assoc', mul_div_cancel₀ y (by norm_num : (4 : ℚ) ≠ 0)]
  have hhigh : (4 * x.significand + 2 : ℚ) = x.highQuarters := by
    rw [highQuarters]
    norm_num
  rw [hy, hhigh, le_div_iff₀ hquarter, div_le_iff₀ hquarter, lt_div_iff₀ hquarter,
    div_lt_iff₀ hquarter]
  unfold Rounds at h
  split at h
  · exact ⟨h.1, h.2, fun _ => by omega⟩
  · exact ⟨h.1.le, h.2.le, fun _ => h⟩

theorem IsBinary64.lowQuarters_cases (h : x.IsBinary64) :
    (x.narrowBelow = true ∧ (x.lowQuarters : ℚ) = 4 * x.significand - 1) ∨
      (x.narrowBelow = false ∧ (x.lowQuarters : ℚ) = 4 * x.significand - 2) := by
  have hpos := h.pos
  unfold lowQuarters
  cases x.narrowBelow with
  | true =>
    refine .inl ⟨rfl, ?_⟩
    rw [if_pos rfl, Nat.cast_sub (by omega)]
    norm_num
  | false =>
    refine .inr ⟨rfl, ?_⟩
    rw [if_neg (by simp), Nat.cast_sub (by omega)]
    norm_num

/-! ### Comparisons without denominators -/

theorem pow_toNat {b : ℚ} (hb : b ≠ 0) (n : Int) : b ^ n.toNat = b ^ n * b ^ (-n).toNat := by
  rw [← zpow_natCast, ← zpow_natCast, ← zpow_add₀ hb]
  congr 1
  omega

/-- What clears the denominators of the last place and of the grid. -/
def clearing (x : Dyadic) (k : Int) : ℚ := 2 ^ (2 - x.exponent).toNat * 10 ^ (-k).toNat

theorem clearing_pos (x : Dyadic) (k : Int) : 0 < x.clearing k :=
  mul_pos (by positivity) (by positivity)

theorem quarterUnit_eq (x : Dyadic) (k : Int) :
    (x.quarterUnit k : ℚ) = 2 ^ (x.exponent - 2) * x.clearing k := by
  have htwo := pow_toNat (b := 2) (by norm_num) (x.exponent - 2)
  have hneg : -(x.exponent - 2) = 2 - x.exponent := by omega
  rw [hneg] at htwo
  simp only [quarterUnit, clearing, Nat.pow_eq, Nat.cast_mul, Nat.cast_pow, Nat.cast_ofNat, htwo]
  ring

theorem gridUnit_eq (x : Dyadic) (k : Int) : (x.gridUnit k : ℚ) = 10 ^ k * x.clearing k := by
  have hten := pow_toNat (b := 10) (by norm_num) k
  simp only [gridUnit, clearing, Nat.pow_eq, Nat.cast_mul, Nat.cast_pow, Nat.cast_ofNat, hten]
  ring

theorem quarters_le_iff (a d : Nat) :
    a * x.quarterUnit k ≤ d * x.gridUnit k ↔
      (a : ℚ) * 2 ^ (x.exponent - 2) ≤ d * 10 ^ k := by
  rw [← mul_le_mul_iff_left₀ (x.clearing_pos k), mul_assoc, mul_assoc, ← quarterUnit_eq,
    ← gridUnit_eq]
  exact_mod_cast Iff.rfl

theorem grid_le_iff (a d : Nat) :
    d * x.gridUnit k ≤ a * x.quarterUnit k ↔
      (d : ℚ) * 10 ^ k ≤ a * 2 ^ (x.exponent - 2) := by
  rw [← mul_le_mul_iff_left₀ (x.clearing_pos k), mul_assoc, mul_assoc, ← quarterUnit_eq,
    ← gridUnit_eq]
  exact_mod_cast Iff.rfl

/-- The test for a point of a grid is the one for its value. -/
theorem admits_iff (d : Nat) : x.admits k d = true ↔ x.Rounds (toRat ⟨d, k⟩) := by
  unfold admits Rounds toRat
  split
  · simp only [Bool.and_eq_true, decide_eq_true_eq, quarters_le_iff, grid_le_iff]
  · simp only [Bool.and_eq_true, decide_eq_true_eq, ← not_le, quarters_le_iff, grid_le_iff]

theorem rounds_of_onGrid {d : Decimal} (h : x.onGrid? k = some d) : x.Rounds d.toRat := by
  unfold onGrid? at h
  dsimp only at h
  split at h
  case h_1 hbelow habove =>
    split at h
    · cases h
      exact (admits_iff _).1 hbelow
    · cases h
      exact (admits_iff _).1 habove
  case h_2 hbelow _ =>
    cases h
    exact (admits_iff _).1 hbelow
  case h_3 _ habove =>
    cases h
    exact (admits_iff _).1 habove
  case h_4 => cases h

/-! ### The search succeeds -/

/-- A grid that is finer than a quarter of the last place has a point in the interval. -/
theorem onGrid_isSome (hpos : 0 < x.significand) (hfine : (10 : ℚ) ^ k < 2 ^ (x.exponent - 2)) :
    (x.onGrid? k).isSome = true := by
  have hunit : x.gridUnit k < x.quarterUnit k := by
    have hlt := (not_congr (quarters_le_iff (x := x) (k := k) 1 1)).2 (by simpa using hfine)
    simpa using hlt
  have hadmits : x.admits k (4 * x.significand * x.quarterUnit k / x.gridUnit k) = true := by
    generalize hbelow : 4 * x.significand * x.quarterUnit k / x.gridUnit k = below
    have hgrid : 0 < x.gridUnit k := Nat.mul_pos (Nat.pow_pos (by decide)) (Nat.pow_pos (by decide))
    have hle : below * x.gridUnit k ≤ 4 * x.significand * x.quarterUnit k :=
      hbelow ▸ Nat.div_mul_le_self _ _
    have hlt : 4 * x.significand * x.quarterUnit k < below * x.gridUnit k + x.gridUnit k :=
      hbelow ▸ Nat.lt_div_mul_add hgrid
    have hlow : x.lowQuarters * x.quarterUnit k + x.quarterUnit k ≤
        4 * x.significand * x.quarterUnit k := by
      rw [← Nat.succ_mul]
      refine Nat.mul_le_mul_right _ ?_
      unfold lowQuarters
      split <;> omega
    have hhigh : x.highQuarters * x.quarterUnit k =
        4 * x.significand * x.quarterUnit k + 2 * x.quarterUnit k := by
      rw [highQuarters, Nat.add_mul]
    unfold admits
    dsimp only
    split <;> simp only [Bool.and_eq_true, decide_eq_true_eq] <;> omega
  unfold onGrid?
  dsimp only
  rw [hadmits]
  split
  case h_1 => split <;> rfl
  case h_2 => rfl
  case h_3 hbelow _ => cases hbelow
  case h_4 hbelow _ => cases hbelow

/-- Powers of ten below powers of two: `10 ^ 3 < 2 ^ 10` and `2 ^ 93 < 10 ^ 28`. -/
theorem ten_zpow_lt_two_zpow {n m : Int} (hup : 10 * n < 3 * m) (hdown : 93 * n < 28 * m) :
    (10 : ℚ) ^ n < 2 ^ m := by
  by_contra hle
  rw [not_lt] at hle
  have htwo : (0 : ℚ) < 2 ^ m := zpow_pos (by norm_num) _
  rcases le_total 0 n with hn | hn
  · refine absurd hup (not_lt.2 ((zpow_le_zpow_iff_right₀ (a := (2 : ℚ)) (by norm_num)).1 ?_))
    calc (2 : ℚ) ^ (3 * m) = (2 ^ m) ^ 3 := by rw [mul_comm, zpow_mul]; rfl
      _ ≤ (10 ^ n) ^ 3 := pow_le_pow_left₀ htwo.le hle 3
      _ = (10 ^ 3) ^ n := by rw [← zpow_natCast, ← zpow_mul, mul_comm, zpow_mul]; rfl
      _ ≤ (2 ^ 10) ^ n := zpow_le_zpow_left₀ hn (by norm_num) (by norm_num)
      _ = 2 ^ (10 * n) := by rw [zpow_mul]; rfl
  · refine absurd hdown (not_lt.2 ((zpow_le_zpow_iff_right₀ (a := (2 : ℚ)) (by norm_num)).1 ?_))
    calc (2 : ℚ) ^ (28 * m) = (2 ^ m) ^ 28 := by rw [mul_comm, zpow_mul]; rfl
      _ ≤ (10 ^ n) ^ 28 := pow_le_pow_left₀ htwo.le hle 28
      _ = ((10 ^ 28)⁻¹) ^ (-n) := by
        rw [← zpow_natCast, ← zpow_mul, mul_comm, zpow_mul, inv_zpow', neg_neg]
        rfl
      _ ≤ ((2 ^ 93)⁻¹) ^ (-n) :=
        zpow_le_zpow_left₀ (neg_nonneg.2 hn) (by norm_num) (by norm_num)
      _ = 2 ^ (93 * n) := by
        rw [inv_zpow', neg_neg, zpow_mul]
        rfl

/-- The last grid is fine enough. -/
theorem lastGrid_lt (h : x.IsBinary64) :
    (10 : ℚ) ^ (x.topExponent - 21) < 2 ^ (x.exponent - 2) := by
  have hlog : Nat.log2 x.significand < 53 := (Nat.log2_lt h.pos.ne').2 h.lt
  have hleast := h.least
  have hgreatest := h.greatest
  refine ten_zpow_lt_two_zpow ?_ ?_ <;> unfold topExponent <;> omega

/-- The shortest decimal of a number rounds to the number. -/
theorem rounds_shortest (h : x.IsBinary64) : x.Rounds x.shortest.toRat := by
  have hlast : x.topExponent - 21 ∈ x.grids :=
    List.mem_map.2 ⟨21, by simp, rfl⟩
  have hsome : (x.grids.findSome? x.onGrid?).isSome = true :=
    List.findSome?_isSome_iff.2 ⟨_, hlast, onGrid_isSome h.pos (lastGrid_lt h)⟩
  obtain ⟨d, hd⟩ := Option.isSome_iff_exists.1 hsome
  obtain ⟨k, -, hk⟩ := List.exists_of_findSome?_eq_some hd
  rw [shortest, hd]
  exact rounds_of_onGrid hk

end NumericMethods.Decimal.Dyadic
