/-
  NumericMethods/Proofs/Text/Lines.lean
  =====================================
  **Trimming a text, and cutting it into lines.**

  Blanks may be added at either end of a text without changing what it is trimmed to.  A
  carriage return is a blank, so that a line is trimmed to the same text with the one at
  its end and without it.

  A text in which every line is terminated is cut into the lines it was made of, each
  without the carriage return it may end with (`lines_terminated`).
-/
import Mathlib
import NumericMethods.Text.Blank
import NumericMethods.Text.Lines

namespace NumericMethods.Text

variable {cs bs : List Char} {c : Char}

/-! ### Trimming -/

theorem trimStart_blanks (h : ∀ b ∈ bs, isBlank b = true) : trimStart bs = [] :=
  List.dropWhile_eq_nil_iff.2 h

theorem trimStart_append (h : ∀ b ∈ bs, isBlank b = true) :
    trimStart (bs ++ cs) = trimStart cs :=
  List.dropWhile_append_of_pos h

theorem trimStart_cons (h : isBlank c = false) : trimStart (c :: cs) = c :: cs := by
  simp [trimStart, h]

theorem trimEnd_append (h : ∀ b ∈ bs, isBlank b = true) : trimEnd (cs ++ bs) = trimEnd cs := by
  have hreverse : ∀ b ∈ bs.reverse, isBlank b = true := fun b hb => h b (List.mem_reverse.1 hb)
  rw [trimEnd, List.reverse_append, List.dropWhile_append_of_pos hreverse]
  rfl

theorem trimEnd_cons (h : isBlank c = false) : trimEnd (c :: cs) = c :: trimEnd cs := by
  rw [trimEnd, trimEnd, List.reverse_cons, List.dropWhile_append]
  split
  · rename_i hnil
    rw [List.isEmpty_iff.1 hnil]
    simp [h]
  · simp

theorem trimEnd_isPrefix (cs : List Char) : trimEnd cs <+: cs := by
  have hsuffix := List.dropWhile_suffix isBlank (l := cs.reverse)
  simpa [trimEnd] using List.reverse_prefix.2 hsuffix

theorem length_trim_le (cs : List Char) : (trim cs).length ≤ cs.length :=
  (trimEnd_isPrefix _).length_le.trans (length_dropWhile_le isBlank cs)

/-- The blanks that trimming the start takes off. -/
theorem exists_blanks_append (cs : List Char) :
    ∃ bs, (∀ b ∈ bs, isBlank b = true) ∧ cs = bs ++ trimStart cs := by
  refine ⟨cs.takeWhile isBlank, ?_, List.takeWhile_append_dropWhile.symm⟩
  intro b hb
  exact List.mem_takeWhile_imp hb

theorem isBlank_head_trimStart {c : Char} (h : (trimStart cs).head? = some c) :
    isBlank c = false := by
  have hhead := List.head?_dropWhile_not isBlank cs
  rw [show (cs.dropWhile isBlank).head? = some c from h] at hhead
  simpa using hhead

theorem trim_append_left (h : ∀ b ∈ bs, isBlank b = true) : trim (bs ++ cs) = trim cs := by
  rw [trim, trimStart_append h]
  rfl

theorem trim_append_right (h : ∀ b ∈ bs, isBlank b = true) : trim (cs ++ bs) = trim cs := by
  have hstart : trimStart (cs ++ bs) =
      if (trimStart cs).isEmpty then trimStart bs else trimStart cs ++ bs :=
    List.dropWhile_append
  rw [trim, trim, hstart]
  split
  · rename_i hnil
    rw [trimStart_blanks h, List.isEmpty_iff.1 hnil]
  · exact trimEnd_append h

theorem trim_cons (h : isBlank c = false) : trim (c :: cs) = c :: trimEnd cs := by
  rw [trim, trimStart_cons h, trimEnd_cons h]

theorem trim_eq_self (h : ∀ c ∈ cs, isBlank c = false) : trim cs = cs := by
  have hdrop : ∀ ds : List Char, (∀ c ∈ ds, isBlank c = false) → ds.dropWhile isBlank = ds := by
    intro ds hds
    cases ds with
    | nil => rfl
    | cons d ds => exact List.dropWhile_cons_of_neg (by simp [hds d List.mem_cons_self])
  have hreverse : ∀ c ∈ cs.reverse, isBlank c = false := fun c hc => h c (List.mem_reverse.1 hc)
  rw [trim, trimStart, hdrop cs h, trimEnd, hdrop _ hreverse, List.reverse_reverse]

/-- A text that is its own trim does not end with a blank. -/
theorem isBlank_getLast_of_trim (h : trim cs = cs) (hc : cs.getLast? = some c) :
    isBlank c = false := by
  obtain ⟨ds, rfl⟩ := List.getLast?_eq_some_iff.1 hc
  by_contra hblank
  have hend : ∀ b ∈ [c], isBlank b = true := by simpa using hblank
  rw [trim_append_right hend] at h
  have hlength := congrArg List.length h
  have hle := length_trim_le ds
  rw [List.length_append, List.length_singleton] at hlength
  omega

/-! ### The carriage return at the end of a line -/

theorem dropReturn_append_return (cs : List Char) : dropReturn (cs ++ ['\r']) = cs := by
  simp [dropReturn]

theorem dropReturn_eq_self (h : cs.getLast? ≠ some '\r') : dropReturn cs = cs := if_neg h

theorem trim_dropReturn (cs : List Char) : trim (dropReturn cs) = trim cs := by
  by_cases h : cs.getLast? = some '\r'
  · obtain ⟨ds, rfl⟩ := List.getLast?_eq_some_iff.1 h
    have hreturn : ∀ b ∈ ['\r'], isBlank b = true := by simp [isBlank]
    rw [dropReturn_append_return, trim_append_right hreturn]
  · rw [dropReturn_eq_self h]

/-! ### Lines -/

/-- The end of the first line. -/
theorem splitOn_line (h : '\n' ∉ cs) (rest : List Char) :
    (cs ++ '\n' :: rest).splitOn '\n' = cs :: rest.splitOn '\n' := by
  rw [List.splitOn_eq_splitOnP, List.splitOn_eq_splitOnP]
  apply List.splitOnP_append_cons_of_forall_mem
  · intro c hc
    rw [beq_eq_false_iff_ne]
    rintro rfl
    exact h hc
  · exact beq_self_eq_true '\n'

theorem lines_cons (h : '\n' ∉ cs) (rest : List Char) :
    lines (cs ++ '\n' :: rest) = dropReturn cs :: lines rest := by
  rw [lines, splitOn_line h]
  cases hrest : rest.splitOn '\n' with
  | nil => exact absurd hrest (List.splitOn_ne_nil _ _)
  | cons piece pieces => rw [linesOfPieces, lines, hrest]; simp

/-- A text of terminated lines has these lines. -/
theorem lines_terminated {ls : List (List Char)} (h : ∀ l ∈ ls, '\n' ∉ l) :
    lines (ls.flatMap fun l => l ++ ['\n']) = ls.map dropReturn := by
  induction ls with
  | nil => rfl
  | cons l ls ih =>
    have hl := h l List.mem_cons_self
    have hls : ∀ k ∈ ls, '\n' ∉ k := fun k hk => h k (List.mem_cons_of_mem _ hk)
    have htext : ((l :: ls).flatMap fun l => l ++ ['\n']) =
        l ++ '\n' :: ls.flatMap fun l => l ++ ['\n'] := by simp
    rw [htext, lines_cons hl, ih hls, List.map_cons]

end NumericMethods.Text
