/-
  NumericMethods/Proofs/Formula/Remainder.lean
  ============================================
  **What a reader leaves over is the end of its text.**

  A reader that succeeds leaves a rest, and one that fails names the place where it stopped.
  Both are an end of the text that the reader was given (`remainder_read`): no reader hands
  back a text of its own, however deep the alternative that failed lies inside the others.
  The ways to go on after a phrase keep this (`Outcome.remainder_andThen` and its
  companions), and so do the readers, one after the other, by induction on the length of the
  text (`EndsBelow`).

  The position in an error is what the whole text has before such an end, counted in bytes.
  So it lies between two characters of the text, and what the error shows is what stands
  there (`unexpected_points_into_text`).
-/
import Mathlib
import NumericMethods.Proofs.Formula.Outcome
import NumericMethods.Proofs.Text.Lines
import NumericMethods.Scalar.Binary64

namespace NumericMethods.Formula

open Text

/-! ### Numerals and gaps -/

section Splits

variable {cs r : List Char}

theorem dropGap_isEnd (cs : List Char) : dropGap cs <:+ cs :=
  List.dropWhile_suffix isGap

/-- What stands after the first character behind a gap. -/
theorem tail_isEnd {c : Char} (h : dropGap cs = c :: r) : r <:+ cs := by
  have hgap : c :: r <:+ cs := h ▸ dropGap_isEnd cs
  exact (List.suffix_cons c r).trans hgap

theorem mantissa_isEnd {whole fraction : List Char}
    (h : Decimal.mantissa? cs = some (whole, fraction, r)) : r <:+ cs := by
  have hdigits : cs.dropWhile Char.isDigit <:+ cs := List.dropWhile_suffix Char.isDigit
  simp only [Decimal.mantissa?] at h
  split at h
  · rename_i t ht
    split at h
    · cases h
    · cases h
      have hfraction : t.dropWhile Char.isDigit <:+ t := List.dropWhile_suffix Char.isDigit
      rw [ht] at hdigits
      exact (hfraction.trans (List.suffix_cons '.' t)).trans hdigits
  · split at h
    · cases h
    · cases h
      exact hdigits

theorem digitRun_isEnd {n : Nat} (h : Decimal.digitRun? cs = some (n, r)) : r <:+ cs := by
  unfold Decimal.digitRun? at h
  split at h
  · cases h
  · cases h
    exact List.dropWhile_suffix Char.isDigit

theorem signedRun_isEnd {n : Int} (h : Decimal.signedRun? cs = some (n, r)) : r <:+ cs := by
  unfold Decimal.signedRun? at h
  split at h <;> obtain ⟨⟨m, t⟩, hrun, heq⟩ := Option.map_eq_some_iff.1 h <;> cases heq
  · exact (digitRun_isEnd hrun).trans (List.suffix_cons '-' _)
  · exact (digitRun_isEnd hrun).trans (List.suffix_cons '+' _)
  · exact digitRun_isEnd hrun

theorem exponentOf_isEnd (cs : List Char) : (Decimal.exponentOf cs).2 <:+ cs := by
  have key : ∀ c r, ((Decimal.signedRun? r).getD (0, c :: r)).2 <:+ c :: r := by
    intro c r
    cases hrun : Decimal.signedRun? r with
    | none => exact List.suffix_rfl
    | some p => exact (signedRun_isEnd (n := p.1) hrun).trans (List.suffix_cons c r)
  unfold Decimal.exponentOf
  split
  · exact key _ _
  · exact key _ _
  · exact List.suffix_rfl

theorem numeral_isEnd {n : Decimal.Numeral} (h : Decimal.numeral? cs = some (n, r)) :
    r <:+ cs := by
  unfold Decimal.numeral? at h
  obtain ⟨⟨whole, fraction, t⟩, hmantissa, heq⟩ := Option.map_eq_some_iff.1 h
  cases heq
  exact (exponentOf_isEnd t).trans (mantissa_isEnd hmantissa)

theorem exponentSign_isEnd (h : Phrase.exponentSign? cs = some r) : r <:+ cs := by
  unfold Phrase.exponentSign? at h
  split at h <;> cases h
  · rename_i t
    exact (dropGap_isEnd t).trans (List.suffix_cons '^' t)
  · rename_i t
    exact ((dropGap_isEnd t).trans (List.suffix_cons '*' t)).trans (List.suffix_cons '*' _)

end Splits

/-! ### Going on after a phrase -/

namespace Outcome

variable {τ : Type} {o : Outcome τ} {next : τ → List Char → Outcome τ} {cs text : List Char}

/-- The rest of the text, or what stands at the place where reading stopped. -/
def remainder : Outcome τ → List Char
  | read _ r => r
  | refused r => r
  | broken r => r

theorem remainder_andThen (ho : o.remainder <:+ cs)
    (hnext : ∀ v r, o = .read v r → (next v r).remainder <:+ r) :
    (o.andThen next).remainder <:+ cs := by
  cases o with
  | read v r => exact (hnext v r rfl).trans ho
  | refused r => exact ho
  | broken r => exact ho

theorem remainder_orStop {value : τ} (ho : o.remainder <:+ cs)
    (hnext : ∀ v r, o = .read v r → (next v r).remainder <:+ r) (hcs : cs <:+ text) :
    (o.orStop value text next).remainder <:+ text := by
  cases o with
  | read v r => exact ((hnext v r rfl).trans ho).trans hcs
  | refused r => exact List.suffix_rfl
  | broken r => exact List.IsSuffix.trans ho hcs

theorem remainder_within {f : τ → τ} (ho : o.remainder <:+ cs) :
    (o.within cs f).remainder <:+ cs := by
  cases o with
  | read v r => exact ho
  | refused r => exact List.suffix_rfl
  | broken r => exact ho

theorem remainder_closed (ho : o.remainder <:+ cs) : (o.closed cs).remainder <:+ cs := by
  cases o with
  | read v r =>
    simp only [closed]
    split
    · rename_i hclose
      exact (tail_isEnd hclose).trans ho
    · exact List.suffix_rfl
  | refused r => exact List.suffix_rfl
  | broken r => exact ho

theorem remainder_closedArgument {f : τ → τ} (ho : o.remainder <:+ cs) :
    (o.closedArgument f).remainder <:+ cs := by
  cases o with
  | read v r =>
    simp only [closedArgument]
    split
    · rename_i hclose
      exact (tail_isEnd hclose).trans ho
    · exact (dropGap_isEnd r).trans ho
  | refused r => exact ho
  | broken r => exact ho

end Outcome

/-! ### The readers -/

section Readers

variable {α : Type} [Scalar α]

/-- On all texts that are shorter, what a reader leaves over is an end of its text. -/
structure EndsBelow (α : Type) [Scalar α] (n : Nat) : Prop where
  read : ∀ (l : Level) (cs : List Char), cs.length < n →
    (l.read cs : Outcome (Formula α)).remainder <:+ cs
  proceed : ∀ (l : Level) (acc : Formula α) (cs : List Char), cs.length < n →
    (l.proceed acc cs).remainder <:+ cs

variable {acc : Formula α} {cs r : List Char} {n : Nat}

theorem EndsBelow.mono {m : Nat} (h : EndsBelow α n) (hmn : m ≤ n) : EndsBelow α m :=
  ⟨fun l cs hlt => h.read l cs (hlt.trans_le hmn),
    fun l acc cs hlt => h.proceed l acc cs (hlt.trans_le hmn)⟩

theorem length_lt_of_dropGap {c : Char} (h : dropGap cs = c :: r) : r.length < cs.length := by
  have hle := length_dropGap_le cs
  rw [h, List.length_cons] at hle
  omega

theorem remainder_readArgument (ih : EndsBelow α cs.length) (f : Elementary) :
    (readArgument f cs : Outcome (Formula α)).remainder <:+ cs := by
  unfold readArgument
  split
  · rename_i r hopen
    have hread := ih.read .sum r (length_lt_of_dropGap hopen)
    exact (Outcome.remainder_closedArgument hread).trans (tail_isEnd hopen)
  · exact dropGap_isEnd cs

theorem remainder_primary (ih : EndsBelow α cs.length) :
    (Level.primary.read cs : Outcome (Formula α)).remainder <:+ cs := by
  cases hnumeral : Decimal.numeral? (dropGap cs) with
  | some p =>
    rw [read_primary_number (n := p.1) hnumeral]
    exact (numeral_isEnd (n := p.1) hnumeral).trans (dropGap_isEnd cs)
  | none =>
    cases hcs : dropGap cs with
    | nil =>
      rw [read_primary_other hnumeral (by simp [hcs])]
      exact dropGap_isEnd cs
    | cons c r =>
      by_cases hopen : c = '('
      · subst hopen
        have hread := ih.read .sum r (length_lt_of_dropGap hcs)
        have hwhole : '(' :: r <:+ cs := hcs ▸ dropGap_isEnd cs
        rw [read_primary_opening hcs]
        exact (Outcome.remainder_closed (hread.trans (List.suffix_cons '(' r))).trans hwhole
      by_cases hname : Phrase.startsName c = true
      · have hrest : r.dropWhile Phrase.continuesName <:+ r := List.dropWhile_suffix _
        rw [read_primary_name hcs hname]
        split
        · exact hrest.trans (tail_isEnd hcs)
        · rename_i f _
          have hshort := hrest.length_le.trans_lt (length_lt_of_dropGap hcs)
          have hargument := remainder_readArgument (ih.mono hshort.le) f
          exact hargument.trans (hrest.trans (tail_isEnd hcs))
      · rw [read_primary_other hnumeral (by simp [hcs, hopen, hname])]
        exact dropGap_isEnd cs

theorem remainder_power (ih : EndsBelow α cs.length) :
    (Level.power.read cs : Outcome (Formula α)).remainder <:+ cs := by
  rw [read_power]
  refine Outcome.remainder_andThen (remainder_primary ih) fun b r hbase => ?_
  have hlt : r.length < cs.length := Level.length_lt_of_read hbase
  split
  · rename_i r' hsign
    have hend : r' <:+ r := (exponentSign_isEnd hsign).trans (dropGap_isEnd r)
    have hread := ih.read .unary r' (hend.length_le.trans_lt hlt)
    exact Outcome.remainder_orStop hread (fun _ _ _ => List.suffix_rfl) hend
  · exact List.suffix_rfl

theorem remainder_unary (ih : EndsBelow α cs.length) :
    (Level.unary.read cs : Outcome (Formula α)).remainder <:+ cs := by
  -- the operand after a sign
  have hsigned : ∀ c r (f : Formula α → Formula α), dropGap cs = c :: r →
      ((Level.unary.read r).within (c :: r) f).remainder <:+ cs := by
    intro c r f hcs
    have hread := ih.read .unary r (length_lt_of_dropGap hcs)
    have hwhole : c :: r <:+ cs := hcs ▸ dropGap_isEnd cs
    exact (Outcome.remainder_within (hread.trans (List.suffix_cons c r))).trans hwhole
  have hoperand : (∀ c ∈ (dropGap cs).head?, c ≠ '-' ∧ c ≠ '+') →
      (Level.unary.read cs : Outcome (Formula α)).remainder <:+ cs := by
    intro hhead
    rw [read_unary_operand hhead]
    exact (remainder_power (ih.mono (length_dropGap_le cs))).trans (dropGap_isEnd cs)
  cases hcs : dropGap cs with
  | nil => exact hoperand (by simp [hcs])
  | cons c r =>
    by_cases hminus : c = '-'
    · subst hminus
      rw [read_unary_minus hcs]
      exact hsigned _ _ _ hcs
    by_cases hplus : c = '+'
    · subst hplus
      rw [read_unary_plus hcs]
      exact hsigned _ _ _ hcs
    exact hoperand (by simp [hcs, hminus, hplus])

theorem remainder_proceed (ih : EndsBelow α cs.length) (l : Level) :
    (l.proceed acc cs).remainder <:+ cs := by
  obtain hstop | ⟨l', node, r, hend, hl', hproceed⟩ := proceed_cases l acc cs
  · rw [hstop cs rfl]
    exact List.suffix_rfl
  have hr : r <:+ cs := hend.trans (dropGap_isEnd cs)
  have hread : (l'.read r : Outcome (Formula α)).remainder <:+ r := by
    rcases hl' with rfl | hshort
    · exact remainder_power (ih.mono hr.length_le)
    · exact ih.read l' r (hshort.trans_le (length_dropGap_le cs))
  rw [hproceed cs rfl]
  refine Outcome.remainder_orStop hread (fun u r' hu => ?_) hr
  have hlt : r'.length < r.length := Level.length_lt_of_read hu
  exact ih.proceed l (node u) r' (hlt.trans_le hr.length_le)

theorem remainder_product (ih : EndsBelow α cs.length) :
    (Level.product.read cs : Outcome (Formula α)).remainder <:+ cs := by
  rw [read_product]
  refine Outcome.remainder_andThen (remainder_unary ih) fun e r hread => ?_
  exact ih.proceed .product e r (Level.length_lt_of_read hread)

theorem remainder_sum (ih : EndsBelow α cs.length) :
    (Level.sum.read cs : Outcome (Formula α)).remainder <:+ cs := by
  rw [read_sum]
  refine Outcome.remainder_andThen (remainder_product ih) fun e r hread => ?_
  exact ih.proceed .sum e r (Level.length_lt_of_read hread)

theorem endsBelow (n : Nat) : EndsBelow α n := by
  induction n with
  | zero =>
    exact ⟨fun _ _ h => absurd h (Nat.not_lt_zero _),
      fun _ _ _ h => absurd h (Nat.not_lt_zero _)⟩
  | succ n ih =>
    constructor
    · intro l cs hlt
      have ih' := ih.mono (Nat.le_of_lt_succ hlt)
      cases l with
      | sum => exact remainder_sum ih'
      | product => exact remainder_product ih'
      | unary => exact remainder_unary ih'
      | power => exact remainder_power ih'
      | primary => exact remainder_primary ih'
    · intro l acc cs hlt
      have ih' := ih.mono (Nat.le_of_lt_succ hlt)
      exact remainder_proceed ih' l

/-- What a reader of any level leaves over is an end of its text. -/
theorem remainder_read (l : Level) (cs : List Char) :
    (l.read cs : Outcome (Formula α)).remainder <:+ cs :=
  (endsBelow (cs.length + 1)).read l cs (Nat.lt_succ_self _)

end Readers

/-! ### Errors -/

section Errors

theorem utf8Length_eq_add (cs : List Char) (n : Nat) :
    cs.foldl (fun n c => n + c.utf8Size) n = n + utf8Length cs := by
  induction cs generalizing n with
  | nil => rfl
  | cons c cs ih =>
    rw [utf8Length, List.foldl_cons, List.foldl_cons, ih, ih, Nat.zero_add, Nat.add_assoc]

theorem utf8Length_append (cs ds : List Char) :
    utf8Length (cs ++ ds) = utf8Length cs + utf8Length ds := by
  rw [utf8Length, List.foldl_append, utf8Length_eq_add]
  rfl

/-- The length of a text is that of the string it makes. -/
theorem utf8ByteSize_ofList (cs : List Char) :
    (String.ofList cs).utf8ByteSize = utf8Length cs := by
  induction cs with
  | nil => rfl
  | cons c cs ih =>
    have hfirst : utf8Length [c] = c.utf8Size := Nat.zero_add _
    rw [String.ofList_cons, String.utf8ByteSize_append, String.utf8ByteSize_singleton, ih,
      ← hfirst, ← utf8Length_append]
    rfl

theorem utf8ByteSize_eq (s : String) : s.utf8ByteSize = utf8Length s.toList := by
  rw [← utf8ByteSize_ofList, String.ofList_toList]

/-- The error of a text of which an end is left over: its position is the length of what
    stands before the first character of this end that is not blank. -/
theorem unexpected_of_isEnd {text rest : List Char} (h : rest <:+ text) :
    ∃ before, text = before ++ trimStart rest ∧
      unexpected text rest = .unexpected (utf8Length before)
        (if (trimStart rest).isEmpty then "end of input"
          else String.ofList ((trimStart rest).take 16)) := by
  have hend : trimStart rest <:+ text := List.IsSuffix.trans (List.dropWhile_suffix isBlank) h
  obtain ⟨before, htext⟩ := hend
  refine ⟨before, htext.symm, ?_⟩
  have hlength : utf8Length text - utf8Length (trimStart rest) = utf8Length before := by
    rw [← htext, utf8Length_append]
    omega
  simp only [unexpected, hlength]

variable {α : Type} [Scalar α]

/-- A text that cannot be read is blank, or an end of it is left over. -/
theorem readTree_eq_error {text : List Char} {e : ReadError}
    (h : (readTree text : Except ReadError (Formula α)) = .error e) :
    e = .empty ∨ ∃ rest, rest <:+ text ∧ e = unexpected text rest := by
  have hend : (Level.sum.read text : Outcome (Formula α)).remainder <:+ text :=
    remainder_read .sum text
  rw [readTree_eq] at h
  split at h
  · cases h
    exact .inl rfl
  · cases hread : (Level.sum.read text : Outcome (Formula α)) with
    | read u r =>
      rw [hread] at h hend
      dsimp only at h
      split at h
      · cases h
      · cases h
        exact .inr ⟨r, hend, rfl⟩
    | refused r =>
      rw [hread] at h hend
      cases h
      exact .inr ⟨r, hend, rfl⟩
    | broken r =>
      rw [hread] at h hend
      cases h
      exact .inr ⟨r, hend, rfl⟩

/-- A text that is not read because of what stands somewhere in it: the position lies
    between two characters of the text, what follows it does not start with a blank, and
    the error shows the first sixteen characters of that, or that the text has ended. -/
theorem unexpected_points_into_text {text found : String} {position : Nat}
    (h : (read text : Except ReadError (Formula α)) = .error (.unexpected position found)) :
    position ≤ text.utf8ByteSize ∧ (String.Pos.Raw.mk position).IsValid text ∧
      ∃ before after : String, text = before ++ after ∧ before.utf8ByteSize = position ∧
        (∀ c ∈ after.toList.head?, isBlank c = false) ∧
        (position = text.utf8ByteSize ∧ found = "end of input" ∨
          after ≠ "" ∧ found = String.ofList (after.toList.take 16)) := by
  have htree : (readTree text.toList : Except ReadError (Formula α)) =
      .error (.unexpected position found) := by
    unfold read at h
    split at h
    · rename_i e hread
      rw [hread, h]
    · split at h <;> cases h
  obtain hempty | ⟨rest, hrest, herror⟩ := readTree_eq_error htree
  · cases hempty
  obtain ⟨before, htext, hplace⟩ := unexpected_of_isEnd hrest
  rw [hplace] at herror
  cases herror
  have hsplit : text = String.ofList before ++ String.ofList (trimStart rest) := by
    rw [← String.ofList_append, ← htext, String.ofList_toList]
  have hbefore : (String.ofList before).utf8ByteSize = utf8Length before :=
    utf8ByteSize_ofList before
  refine ⟨?_, ?_, String.ofList before, String.ofList (trimStart rest), hsplit, hbefore, ?_, ?_⟩
  · rw [utf8ByteSize_eq, htext, utf8Length_append]
    exact Nat.le_add_right _ _
  · rw [String.Pos.Raw.isValid_iff_exists_append]
    exact ⟨_, _, hsplit, by rw [← hbefore]; rfl⟩
  · rw [String.toList_ofList]
    exact fun c hc => isBlank_head_trimStart hc
  · rw [String.toList_ofList]
    cases hafter : trimStart rest with
    | nil =>
      refine .inl ⟨?_, rfl⟩
      rw [utf8ByteSize_eq, htext, hafter, List.append_nil]
    | cons c r =>
      refine .inr ⟨fun hempty => ?_, rfl⟩
      have := congrArg String.toList hempty
      rw [String.toList_ofList] at this
      cases this

/-- After `x` and a no-break space, which takes two bytes, reading stops at the third byte. -/
theorem unexpected_points_behind_no_break_space :
    (read "x\u00a0)" : Except ReadError (Formula Float)) = .error (.unexpected 3 ")") ∧
      3 ≤ "x\u00a0)".utf8ByteSize ∧ (String.Pos.Raw.mk 3).IsValid "x\u00a0)" ∧
      ∃ before after : String, "x\u00a0)" = before ++ after ∧ before.utf8ByteSize = 3 ∧
        (∀ c ∈ after.toList.head?, isBlank c = false) ∧
        (3 = "x\u00a0)".utf8ByteSize ∧ ")" = "end of input" ∨
          after ≠ "" ∧ ")" = String.ofList (after.toList.take 16)) := by
  have hread : (read "x\u00a0)" : Except ReadError (Formula Float)) =
      .error (.unexpected 3 ")") := by
    cbv
  exact ⟨hread, unexpected_points_into_text hread⟩

end Errors

end NumericMethods.Formula
