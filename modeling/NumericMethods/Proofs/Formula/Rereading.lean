/-
  NumericMethods/Proofs/Formula/Rereading.lean
  ============================================
  **What printing and reading a formula does to its values.**

  A formula is read back from its printed form as `Formula.reread`.  That tree differs from
  the formula in two ways: a negation of a number becomes a number, which never changes a
  value, and the sign of a minus zero that is the base of a power becomes the negation of
  the power.  Of the second kind only one case changes a value.  Where the exponent is
  zero, the power is one and the sign turns it into minus one (`eval_reread_iff`).

  The induction is over any relation between numbers that evaluation respects
  (`Indistinct`).  For floating point numbers the relation is to be the same number or two
  zeros, and the platform's library has to treat the two zeros alike where it is
  documented to (`Binary64.Library.Documented`).
-/
import NumericMethods.Proofs.Formula.Evaluation
import NumericMethods.Proofs.Formula.Printing

namespace NumericMethods.Formula

/-! ### Outcomes of evaluation -/

section Generic

variable {α : Type} [Scalar α] {same : α → α → Prop} {p : α}

/-- Both evaluations fail, or both give a value and the values are related. -/
def Agree (same : α → α → Prop) (x y : Except (DomainError α) α) : Prop :=
  match x, y with
  | .ok v, .ok w => same v w
  | .error _, .error _ => True
  | _, _ => False

/-- A relation between numbers that no step of an evaluation can tell apart. -/
structure Indistinct (same : α → α → Prop) : Prop where
  refl : ∀ v, same v v
  finite : ∀ {v w}, same v w → Scalar.isFinite v = Scalar.isFinite w
  infinite_neg : ∀ {v : α}, Scalar.isFinite v = false → Scalar.isFinite (-v) = false
  neg : ∀ {v w}, same v w → same (-v) (-w)
  add : ∀ {v v' w w'}, same v v' → same w w' → same (v + w) (v' + w')
  sub : ∀ {v v' w w'}, same v v' → same w w' → same (v - w) (v' - w')
  mul : ∀ {v v' w w'}, same v v' → same w w' → same (v * w) (v' * w')
  quotient : ∀ {p v v' w w'}, same v v' → same w w' →
    Agree same (quotient p v w) (quotient p v' w')
  power : ∀ {p v v' w w'}, Scalar.isFinite v = true → Scalar.isFinite w = true → same v v' →
    same w w' → Agree same (powerAt p v w) (powerAt p v' w')
  elementary : ∀ {p v w} (f : Elementary), same v w → Agree same (f.evalAt v p) (f.evalAt w p)

omit [Scalar α] in
theorem Agree.bind {x y : Except (DomainError α) α} {k k' : α → Except (DomainError α) α}
    (h : Agree same x y)
    (hk : ∀ v w, x = .ok v → y = .ok w → same v w → Agree same (k v) (k' w)) :
    Agree same (x >>= k) (y >>= k') := by
  cases x with
  | error _ =>
    cases y with
    | error _ => trivial
    | ok _ => cases h
  | ok v =>
    cases y with
    | error _ => cases h
    | ok w => exact hk v w rfl rfl h

theorem finite_agree (hs : Indistinct same) {v w : α} (h : same v w) :
    Agree same (finite p v) (finite p w) := by
  rw [finite, finite, hs.finite h]
  split
  · exact h
  · trivial

/-! ### Folded negations -/

/-- The formula and the parts that it is built from. -/
def parts : Formula α → List (Formula α)
  | .var n => [.var n]
  | .const v => [.const v]
  | .add l r => .add l r :: (l.parts ++ r.parts)
  | .sub l r => .sub l r :: (l.parts ++ r.parts)
  | .mul l r => .mul l r :: (l.parts ++ r.parts)
  | .div l r => .div l r :: (l.parts ++ r.parts)
  | .pow l r => .pow l r :: (l.parts ++ r.parts)
  | .neg u => .neg u :: u.parts
  | .apply f u => .apply f u :: u.parts

/-- A negation of a number has the value of the number that it is folded to. -/
theorem eval_negated (hs : Indistinct same) {u u' : Formula α}
    (h : Agree same (u.eval p) (u'.eval p)) :
    Agree same ((Formula.neg u).eval p) ((Phrase.negated u').eval p) := by
  have hneg : Agree same ((Formula.neg u).eval p) ((Formula.neg u').eval p) :=
    h.bind fun v w _ _ hvw => finite_agree hs (hs.neg hvw)
  cases u' with
  | const c =>
    change Agree same (u.eval p >>= fun v => finite p (-v)) (finite p (-c))
    change Agree same (u.eval p) (finite p c) at h
    cases hfinite : Scalar.isFinite c with
    | true =>
      have hc : finite p c = .ok c := if_pos hfinite
      rw [hc] at h
      cases hu : u.eval p with
      | error _ => rw [hu] at h; cases h
      | ok v =>
        rw [hu] at h
        exact finite_agree hs (hs.neg h)
    | false =>
      have hc : finite p c = .error (.nonFinite p) := by
        rw [finite, hfinite]
        rfl
      have hc' : finite p (-c) = .error (.nonFinite p) := by
        rw [finite, hs.infinite_neg hfinite]
        rfl
      rw [hc] at h
      rw [hc']
      cases hu : u.eval p with
      | error _ => trivial
      | ok v => rw [hu] at h; cases h
  | _ => exact hneg

/-! ### Values of the formula that is read back -/

/-- If the powers of numbers with a bare sign keep their values, so do all formulas. -/
theorem eval_reread (hs : Indistinct same) (e : Formula α)
    (hbare : ∀ b u, .pow b u ∈ e.parts → b.hasBareSign = true →
      Agree same (u.eval p) (u.reread.eval p) →
        Agree same ((Formula.pow b u).eval p) ((Formula.neg (.pow (.const 0) u.reread)).eval p)) :
    Agree same (e.eval p) (e.reread.eval p) := by
  induction e with
  | var n => exact finite_agree hs (hs.refl p)
  | const v => exact finite_agree hs (hs.refl v)
  | add l r ihl ihr =>
    have hl := ihl fun b u hu => hbare b u (by simp [parts, hu])
    have hr := ihr fun b u hu => hbare b u (by simp [parts, hu])
    exact hl.bind fun v v' _ _ hv => hr.bind fun w w' _ _ hw => finite_agree hs (hs.add hv hw)
  | sub l r ihl ihr =>
    have hl := ihl fun b u hu => hbare b u (by simp [parts, hu])
    have hr := ihr fun b u hu => hbare b u (by simp [parts, hu])
    exact hl.bind fun v v' _ _ hv => hr.bind fun w w' _ _ hw => finite_agree hs (hs.sub hv hw)
  | mul l r ihl ihr =>
    have hl := ihl fun b u hu => hbare b u (by simp [parts, hu])
    have hr := ihr fun b u hu => hbare b u (by simp [parts, hu])
    exact hl.bind fun v v' _ _ hv => hr.bind fun w w' _ _ hw => finite_agree hs (hs.mul hv hw)
  | div l r ihl ihr =>
    have hl := ihl fun b u hu => hbare b u (by simp [parts, hu])
    have hr := ihr fun b u hu => hbare b u (by simp [parts, hu])
    exact hl.bind fun v v' _ _ hv => hr.bind fun w w' _ _ hw =>
      (hs.quotient hv hw).bind fun q q' _ _ hq => finite_agree hs hq
  | pow l r ihl ihr =>
    have hl := ihl fun b u hu => hbare b u (by simp [parts, hu])
    have hr := ihr fun b u hu => hbare b u (by simp [parts, hu])
    rw [reread]
    split
    · rename_i hsign
      exact hbare l r List.mem_cons_self hsign hr
    · exact hl.bind fun v v' hv _ hvv => hr.bind fun w w' hw _ hww =>
        (hs.power (isFinite_of_eval_eq hv) (isFinite_of_eval_eq hw) hvv hww).bind
          fun q q' _ _ hq => finite_agree hs hq
  | neg u ih => exact eval_negated hs (ih fun b u' hu => hbare b u' (List.mem_cons_of_mem _ hu))
  | apply f u ih =>
    have hu := ih fun b u' hu => hbare b u' (List.mem_cons_of_mem _ hu)
    exact hu.bind fun v w _ _ hvw =>
      (hs.elementary f hvw).bind fun q q' _ _ hq => finite_agree hs hq

/-- Everything in the first formula is in the second one. -/
structure Within (s e : Formula α) : Prop where
  parts : s.parts ⊆ e.parts
  constants : s.constants ⊆ e.constants
  occurrences : s.occurrences ⊆ e.occurrences

omit [Scalar α] in
theorem Within.refl (e : Formula α) : e.Within e :=
  ⟨List.Subset.refl _, List.Subset.refl _, List.Subset.refl _⟩

omit [Scalar α] in
theorem Within.trans {s u e : Formula α} (h : s.Within u) (h' : u.Within e) : s.Within e :=
  ⟨List.Subset.trans h.parts h'.parts, List.Subset.trans h.constants h'.constants,
    List.Subset.trans h.occurrences h'.occurrences⟩

omit [Scalar α] in
/-- The operands of an operation are within it, whatever the operation. -/
theorem within_operation {l r e : Formula α} {s : Formula α}
    (hparts : e.parts = e :: (l.parts ++ r.parts))
    (hconstants : e.constants = l.constants ++ r.constants)
    (hoccurrences : e.occurrences = l.occurrences ++ r.occurrences)
    (ihl : s ∈ l.parts → s.Within l) (ihr : s ∈ r.parts → s.Within r) (h : s ∈ e.parts) :
    s.Within e := by
  have hl : l.Within e := by
    constructor <;> intro a ha <;> simp [hparts, hconstants, hoccurrences, ha]
  have hr : r.Within e := by
    constructor <;> intro a ha <;> simp [hparts, hconstants, hoccurrences, ha]
  rw [hparts, List.mem_cons, List.mem_append] at h
  rcases h with rfl | h | h
  · exact .refl s
  · exact (ihl h).trans hl
  · exact (ihr h).trans hr

omit [Scalar α] in
theorem within_of_mem_parts {s e : Formula α} (h : s ∈ e.parts) : s.Within e := by
  induction e with
  | var n => exact List.mem_singleton.1 h ▸ .refl s
  | const v => exact List.mem_singleton.1 h ▸ .refl s
  | add l r ihl ihr => exact within_operation rfl rfl rfl ihl ihr h
  | sub l r ihl ihr => exact within_operation rfl rfl rfl ihl ihr h
  | mul l r ihl ihr => exact within_operation rfl rfl rfl ihl ihr h
  | div l r ihl ihr => exact within_operation rfl rfl rfl ihl ihr h
  | pow l r ihl ihr => exact within_operation rfl rfl rfl ihl ihr h
  | neg u ih =>
    rcases List.mem_cons.1 h with rfl | h
    · exact .refl _
    · exact (ih h).trans ⟨List.subset_cons_self _ _, List.Subset.refl _, List.Subset.refl _⟩
  | apply f u ih =>
    rcases List.mem_cons.1 h with rfl | h
    · exact .refl _
    · exact (ih h).trans ⟨List.subset_cons_self _ _, List.Subset.refl _, List.Subset.refl _⟩

omit [Scalar α] in
theorem self_mem_parts (e : Formula α) : e ∈ e.parts := by
  cases e <;> exact List.mem_cons_self

end Generic

/-! ### Binary floating point -/

section Binary64

open Binary64 (Library withLibrary Same IsZero)

variable {lib : Library} {p : Float}

/-- Whether a function is undefined at a zero does not depend on its sign. -/
theorem undefinedAt_zero (lib : Library) {f : Elementary} {v : Float} (hv : IsZero v) :
    let _ := withLibrary lib
    f.undefinedAt v = decide (f = .ln) := by
  have hle : v ≤ 0 := by rcases hv with rfl | rfl <;> decide +kernel
  have hlt : ¬ v < 0 := Binary64.not_lt_of_isZero hv
  have habs : ¬ 1 < v.abs := by rcases hv with rfl | rfl <;> decide +kernel
  cases f with
  | ln => exact decide_eq_true hle
  | sqrt => exact decide_eq_false hlt
  | asin => exact decide_eq_false habs
  | acos => exact decide_eq_false habs
  | _ => rfl

theorem powerAt_zero_exponent (hlib : lib.Documented) {b z : Float} (hb : b.isFinite = true)
    (hz : IsZero z) :
    let _ := withLibrary lib
    powerAt p b z = .ok 1 := by
  let _ := withLibrary lib
  have hguard : ¬ (b == 0 && decide (z < 0)) = true := by
    simp [Binary64.not_lt_of_isZero hz]
  have hpower : Scalar.power b z = some 1 := hlib.power_zero hb hz
  simp only [powerAt, if_neg hguard, hpower]

/-- A zero to a power that is not zero: a negative one is no number, a positive one a zero. -/
theorem powerAt_zero_base (hlib : lib.Documented) {x : Float} (hx : x.isFinite = true)
    (hne : ¬ IsZero x) :
    let _ := withLibrary lib
    (∀ b, IsZero b → powerAt p b x = .error (.divisionByZero p)) ∨
      ∀ b, IsZero b → ∃ w, powerAt p b x = .ok w ∧ IsZero w := by
  let _ := withLibrary lib
  rcases Binary64.sign_cases hx with hneg | hzero | hpos
  · refine .inl fun b hb => ?_
    have hguard : (b == 0 && decide (x < 0)) = true := by
      simp [Binary64.isZero_iff_beq.1 hb, hneg]
    rw [powerAt, if_pos hguard]
  · exact absurd hzero hne
  · refine .inr fun b hb => ?_
    obtain ⟨w, hw, hwz⟩ := hlib.zero_power hb hx hpos
    have hguard : ¬ (b == 0 && decide (x < 0)) = true := by
      simp [Binary64.not_lt_of_pos hpos]
    have hpower : Scalar.power b x = some w := hw
    exact ⟨w, by simp only [powerAt, if_neg hguard, hpower], hwz⟩

theorem indistinct_same (hlib : lib.Documented) : @Indistinct Float (withLibrary lib) Same := by
  let _ := withLibrary lib
  constructor
  case refl => exact Same.refl
  case finite => exact Same.isFinite_eq
  case infinite_neg => exact Binary64.isFinite_neg_eq_false
  case neg => exact Same.neg
  case add => exact Same.add
  case sub => exact Same.sub
  case mul => exact Same.mul
  case quotient =>
    intro p v v' w w' hv hw
    rcases hw with rfl | ⟨hw, hw'⟩
    · rw [quotient, quotient]
      split
      · trivial
      · exact hv.div w
    · rw [quotient, quotient, if_pos (Binary64.isZero_iff_beq.1 hw),
        if_pos (Binary64.isZero_iff_beq.1 hw')]
      trivial
  case power =>
    intro p v v' w w' hfv hfw hv hw
    have hfv' : v'.isFinite = true := hv.isFinite_eq.symm.trans hfv
    by_cases hzero : IsZero w
    · rw [powerAt_zero_exponent hlib hfv hzero, powerAt_zero_exponent hlib hfv' (hw.isZero hzero)]
      exact Same.refl 1
    · obtain rfl : w = w' := hw.resolve_right fun h => hzero h.1
      rcases hv with rfl | ⟨hv, hv'⟩
      · cases powerAt p v w with
        | error _ => trivial
        | ok u => exact Same.refl u
      · rcases powerAt_zero_base (p := p) hlib hfw hzero with herror | hvalue
        · rw [herror v hv, herror v' hv']
          trivial
        · obtain ⟨u, hu, huz⟩ := hvalue v hv
          obtain ⟨u', hu', huz'⟩ := hvalue v' hv'
          rw [hu, hu']
          exact .inr ⟨huz, huz'⟩
  case elementary =>
    intro p v w f hvw
    rcases hvw with rfl | ⟨hv, hw⟩
    · rw [Elementary.evalAt]
      split
      · trivial
      · exact Same.refl _
    · have hval : ∀ u, IsZero u → f ≠ .ln → Same (lib.elementary f 0) (lib.elementary f u) := by
        rintro u (rfl | rfl) hf
        · exact Same.refl _
        · exact hlib.elementary_zero f hf
      rw [Elementary.evalAt, Elementary.evalAt, undefinedAt_zero lib hv, undefinedAt_zero lib hw]
      by_cases hf : f = .ln
      · simp [hf, Agree]
      · rw [decide_eq_false hf]
        exact (hval v hv hf).symm.trans (hval w hw hf)

/-- Both evaluations fail, or both give a value and the values are numerically equal. -/
def SameValue (x y : Except (DomainError Float) Float) : Prop :=
  Agree (fun v w => (v == w) = true) x y

theorem sameValue_of_agree {e e' : Formula Float} :
    let _ := withLibrary lib
    Agree Same (e.eval p) (e'.eval p) → SameValue (e.eval p) (e'.eval p) := by
  intro _ h
  cases he : e.eval p with
  | error _ =>
    cases he' : e'.eval p with
    | error _ => trivial
    | ok w => rw [he, he'] at h; cases h
  | ok v =>
    cases he' : e'.eval p with
    | error _ => rw [he, he'] at h; cases h
    | ok w =>
      rw [he, he'] at h
      exact Same.beq h (isFinite_of_eval_eq he)

theorem finite_of_isZero (lib : Library) {z : Float} (hz : IsZero z) :
    let _ := withLibrary lib
    finite p z = .ok z :=
  if_pos (by rcases hz with rfl | rfl <;> rfl)

theorem eval_const (lib : Library) {v : Float} (h : v.isFinite = true) :
    let _ := withLibrary lib
    (Formula.const v).eval p = .ok v := by
  intro _
  rw [eval, finite]
  exact if_pos h

/-- The sign of a zero base may be read as the sign of the power, unless the exponent is
    zero. -/
theorem eval_minusZero_base (hlib : lib.Documented) {u u' : Formula Float} :
    let _ := withLibrary lib
    Agree Same (u.eval p) (u'.eval p) → (∀ v, u.eval p = .ok v → ¬ IsZero v) →
      Agree Same ((Formula.pow (.const (-0)) u).eval p)
        ((Formula.neg (.pow (.const 0) u')).eval p) := by
  intro _ h hne
  simp only [eval, finite_of_isZero lib (.inl rfl), finite_of_isZero lib (.inr rfl)]
  cases hu : u.eval p with
  | error _ =>
    cases hu' : u'.eval p with
    | error _ => trivial
    | ok w => rw [hu, hu'] at h; cases h
  | ok x =>
    cases hu' : u'.eval p with
    | error _ => rw [hu, hu'] at h; cases h
    | ok x' =>
      rw [hu, hu'] at h
      obtain rfl : x = x' := Or.resolve_right h fun hz => hne x hu hz.1
      change Agree Same (powerAt p (-0) x >>= finite p)
        ((powerAt p 0 x >>= finite p) >>= fun v => finite p (-v))
      rcases powerAt_zero_base (p := p) hlib (isFinite_of_eval_eq hu) (hne x hu) with
        herror | hvalue
      · rw [herror _ (.inl rfl), herror _ (.inr rfl)]
        trivial
      · obtain ⟨v, hv, hvz⟩ := hvalue (-0) (.inr rfl)
        obtain ⟨w, hw, hwz⟩ := hvalue 0 (.inl rfl)
        have hwz' : IsZero (-w) := hwz.neg
        have hright : (finite p w >>= fun v => finite p (-v)) = .ok (-w) := by
          rw [finite_of_isZero lib hwz]
          exact finite_of_isZero lib hwz'
        rw [hv, hw]
        change Agree Same (finite p v) (finite p w >>= fun v => finite p (-v))
        rw [hright, finite_of_isZero lib hvz]
        exact .inr ⟨hvz, hwz'⟩

/-- Where the exponent is zero, the sign turns one into minus one. -/
theorem eval_minusZero_base_zero (hlib : lib.Documented) {u u' : Formula Float} {v w : Float}
    (hv : IsZero v) (hw : IsZero w) :
    let _ := withLibrary lib
    u.eval p = .ok v → u'.eval p = .ok w →
      (Formula.pow (.const (-0)) u).eval p = .ok 1 ∧
        (Formula.neg (.pow (.const 0) u')).eval p = .ok (-1) := by
  intro _ hu hu'
  have hone : finite p (1 : Float) = .ok 1 := if_pos (by rfl)
  have hminus : finite p (-1 : Float) = .ok (-1) := if_pos (by rfl)
  have hleft : powerAt p (-0) v = .ok 1 := powerAt_zero_exponent hlib (by rfl) hv
  have hright : powerAt p 0 w = .ok 1 := powerAt_zero_exponent hlib (by rfl) hw
  simp only [eval, finite_of_isZero lib (.inl rfl), finite_of_isZero lib (.inr rfl), hu, hu']
  constructor
  · change powerAt p (-0) v >>= finite p = _
    rw [hleft]
    exact hone
  · change (powerAt p 0 w >>= finite p) >>= (fun v => finite p (-v)) = _
    rw [hright]
    change finite p 1 >>= (fun v => finite p (-v)) = _
    rw [hone]
    exact hminus

/-- No power of minus zero with an exponent that is zero at the point. -/
def NoSignLost (lib : Library) (p : Float) (e : Formula Float) : Prop :=
  let _ := withLibrary lib
  ∀ u, .pow (.const (-0)) u ∈ e.parts → ∀ v, u.eval p = .ok v → (v == 0) = false

theorem eval_reread_of_noSignLost (hlib : lib.Documented) {e : Formula Float}
    (hfinite : ∀ v ∈ e.constants, v.isFinite = true) (hlost : NoSignLost lib p e) :
    let _ := withLibrary lib
    SameValue (e.eval p) (e.reread.eval p) := by
  let _ := withLibrary lib
  refine sameValue_of_agree (eval_reread (indistinct_same hlib) e ?_)
  intro b u hmem hsign hagree
  have hwithin := within_of_mem_parts hmem
  -- the only number with a bare sign is minus zero
  obtain rfl : b = .const (-0) := by
    cases b with
    | const v =>
      have hv : v.isFinite = true := hfinite v (hwithin.constants (by simp [constants]))
      rw [(hasBareSign_const_iff lib hv).1 hsign]
    | _ => cases hsign
  refine eval_minusZero_base hlib hagree fun v hv hzero => ?_
  have hne := hlost u hmem v hv
  rw [Binary64.isZero_iff_beq.1 hzero] at hne
  cases hne

/-- All parts of a formula keep their values if and only if no sign is lost. -/
theorem eval_reread_iff (hlib : lib.Documented) {e : Formula Float}
    (hfinite : ∀ v ∈ e.constants, v.isFinite = true) :
    let _ := withLibrary lib
    (∀ s ∈ e.parts, SameValue (s.eval p) (s.reread.eval p)) ↔ NoSignLost lib p e := by
  let _ := withLibrary lib
  constructor
  · intro hall u hmem v hv
    rw [Bool.eq_false_iff]
    intro hzero
    have hwithin := within_of_mem_parts hmem
    have hu := hall u (hwithin.parts (by simp [parts, self_mem_parts]))
    rw [hv] at hu
    cases hu' : u.reread.eval p with
    | error _ => rw [hu'] at hu; cases hu
    | ok w =>
      rw [hu'] at hu
      have hvz : IsZero v := Binary64.isZero_iff_beq.2 hzero
      have hwz : IsZero w := Binary64.isZero_of_beq hvz hu
      obtain ⟨hone, hminus⟩ := eval_minusZero_base_zero (p := p) hlib hvz hwz hv hu'
      have hbare : (Formula.const (-0 : Float)).hasBareSign = true :=
        (hasBareSign_const_iff lib (by rfl)).2 rfl
      have hpower := hall _ hmem
      rw [reread, if_pos hbare, hone, hminus] at hpower
      have hne : ((1 : Float) == -1) = false := by decide +kernel
      exact Bool.false_ne_true (hne.symm.trans hpower)
  · intro hlost s hs
    have hwithin := within_of_mem_parts hs
    exact eval_reread_of_noSignLost hlib (fun v hv => hfinite v (hwithin.constants hv))
      fun u hu => hlost u (hwithin.parts hu)

/-- The printed form of an accepted formula with finite numbers is accepted again.  At a
    point where no sign is lost, the formula that is read back has the same value, or fails
    as well; and no sign is lost exactly if all parts of the formula keep their values in
    this way. -/
theorem read_text_agrees_iff (hlib : lib.Documented) :
    let _ := withLibrary lib
    ∀ (input : String) (e : Formula Float), read input = .ok e →
      (∀ v ∈ e.constants, v.isFinite = true) →
      ∃ e', read e.text = .ok e' ∧ ∀ p,
        (NoSignLost lib p e → SameValue (e.eval p) (e'.eval p)) ∧
        ((∀ s ∈ e.parts, ∃ s', read s.text = .ok s' ∧ SameValue (s.eval p) (s'.eval p)) ↔
          NoSignLost lib p e) := by
  intro _ input e hinput hfinite
  have hx := occurrences_of_read hinput
  have hback : ∀ s ∈ e.parts, read s.text = .ok s.reread := by
    intro s hs
    have hwithin := within_of_mem_parts hs
    refine read_text s (fun v hv => hx v (hwithin.occurrences hv)) fun v hv => ?_
    exact readsBack_of_isFinite lib (hfinite v (hwithin.constants hv))
  refine ⟨e.reread, hback e (self_mem_parts e), fun p => ⟨?_, ?_⟩⟩
  · exact eval_reread_of_noSignLost hlib hfinite
  · refine Iff.trans ?_ (eval_reread_iff hlib hfinite)
    constructor
    · intro hall s hs
      obtain ⟨s', hs', hsame⟩ := hall s hs
      rw [hback s hs] at hs'
      cases hs'
      exact hsame
    · exact fun hall s hs => ⟨s.reread, hback s hs, hall s hs⟩

/-! ### Powers of minus zero -/

/-- A library that squares, and that knows the values of the functions at zero. -/
def atZero : Library where
  power b e := if e == 0 then some 1 else if b == 0 then some 0 else some (b * b)
  elementary f v :=
    match f with
    | .exp => 1
    | .cos => 1
    | .acos => 1.5707963267948966
    | _ => v

theorem atZero_documented : atZero.Documented := by
  constructor
  · intro b z _ hz
    exact if_pos (Binary64.isZero_iff_beq.1 hz)
  · intro z e hz _ hpos
    have hne : ¬ (e == 0) = true := by
      intro h
      rcases Binary64.isZero_iff_beq.2 h with rfl | rfl
      · exact absurd hpos (by decide +kernel)
      · exact absurd hpos (by decide +kernel)
    refine ⟨0, ?_, .inl rfl⟩
    change (if e == 0 then some 1 else if z == 0 then some 0 else some (z * z)) = some (0 : Float)
    rw [if_neg hne, if_pos (Binary64.isZero_iff_beq.1 hz)]
  · intro f _
    cases f <;> first | exact Same.refl _ | exact .inr ⟨.inl rfl, .inr rfl⟩

/-- A literal as the exponent of minus zero. -/
theorem read_minusZero_power (lib : Library) (l : Literal) :
    let _ := withLibrary lib
    ∀ {v : Float}, l.value = v →
      read (String.ofList ('(' :: '-' :: '0' :: ')' :: '^' :: l.text)) =
        .ok (.pow (.const (-0)) (.const v)) := by
  rintro _ v rfl
  let zero : Literal := ⟨['0'], none, none, by simp, by simp, .inl (by simp)⟩
  have hzero : (zero.value : Float) = 0 := value_of_text_zero rfl
  have hexponent : Spells [.number l] (l.text ++ []) :=
    Spells.nil.token_append (.number l) (by simp [Token.endsBefore])
  have hclose := (hexponent.token_append .caret trivial).token_append .closing trivial
  have hends : (Token.number zero).endsBefore (Token.closing.text ++ (Token.caret.text ++
      (l.text ++ []))) := by
    rintro c ⟨⟩
    rfl
  have hbase := hclose.token_append (.number zero) hends
  have hspells := (hbase.token_append .minus trivial).token_append .opening trivial
  rw [List.append_nil] at hspells
  refine (read_spelled_iff hspells).2 ⟨?_, by simp [occurrences]⟩
  rw [← hzero]
  have hminus : Derives .unary [.minus, .number zero] (.const (-zero.value) : Formula Float) :=
    .minusConst (Derives.unary_of_primary (.number zero))
  have hpower : Derives .power ([.opening, .minus, .number zero, .closing] ++ [.caret, .number l])
      (.pow (.const (-zero.value)) (.const l.value) : Formula Float) :=
    .pow rfl (.parenthesis hminus.sum_of_unary) (Derives.unary_of_primary (.number l))
  exact Derives.sum_of_unary (.operand hpower)

/-- The square of minus zero keeps its value. -/
theorem read_text_agrees_of_square :
    let _ := withLibrary atZero
    let e : Formula Float := .pow (.const (-0)) (.const 2)
    read "(-0)^2" = .ok e ∧ ∃ e', read e.text = .ok e' ∧ SameValue (e.eval 1) (e'.eval 1) := by
  intro _ e
  let two : Literal := ⟨['2'], none, none, by simp, by simp, .inl (by simp)⟩
  have htwo : (two.value : Float) = 2 := by decide +kernel
  have hread : read "(-0)^2" = .ok e := read_minusZero_power atZero two htwo
  obtain ⟨e', he', hvalues⟩ := read_text_agrees_iff atZero_documented "(-0)^2" e hread
    (by decide +kernel)
  refine ⟨hread, e', he', (hvalues 1).1 ?_⟩
  intro u hu v hv
  have hu' : u = .const 2 := by simpa [e, parts] using hu
  rw [hu'] at hv
  have htwo' : (Formula.const (2 : Float)).eval 1 = .ok 2 := eval_const atZero (by decide +kernel)
  cases htwo'.symm.trans hv
  decide +kernel

/-- Minus zero to the power zero is one, and is read back as minus one. -/
theorem minusZero_power_zero_loses_sign :
    let _ := withLibrary atZero
    let e : Formula Float := .pow (.const (-0)) (.const 0)
    read "(-0)^0" = .ok e ∧ e.eval 1 = .ok 1 ∧
      ∃ e', read e.text = .ok e' ∧ e'.eval 1 = .ok (-1) ∧ ¬ SameValue (e.eval 1) (e'.eval 1) := by
  intro _ e
  let zero : Literal := ⟨['0'], none, none, by simp, by simp, .inl (by simp)⟩
  have hread : read "(-0)^0" = .ok e :=
    read_minusZero_power atZero zero (value_of_text_zero rfl)
  have hzero : (Formula.const (0 : Float)).eval 1 = .ok 0 := eval_const atZero (by rfl)
  obtain ⟨hone, hminus⟩ :=
    eval_minusZero_base_zero atZero_documented (.inl rfl) (.inl rfl) hzero hzero
  have hback : ∀ v ∈ e.constants, ReadsBack v := by
    intro v hv
    have hv' : v = -0 ∨ v = 0 := by simpa [e, constants] using hv
    rcases hv' with rfl | rfl
    · exact readsBack_of_isFinite atZero (by rfl)
    · exact readsBack_of_isFinite atZero (by rfl)
  have hreread : e.reread = .neg (.pow (.const 0) (.const 0)) :=
    if_pos ((hasBareSign_const_iff atZero (by rfl)).2 rfl)
  refine ⟨hread, hone, e.reread, read_text e (by simp [e, occurrences]) hback, ?_⟩
  rw [hreread]
  refine ⟨hminus, ?_⟩
  rw [hone, hminus]
  have hne : ((1 : Float) == -1) = false := by decide +kernel
  exact fun h => Bool.false_ne_true (hne.symm.trans h)

end Binary64

end NumericMethods.Formula
