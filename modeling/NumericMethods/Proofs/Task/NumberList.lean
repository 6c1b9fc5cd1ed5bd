/-
  NumericMethods/Proofs/Task/NumberList.lean
  ==========================================
  **Numbers that are written as a list or as rows, and read from a section.**

  A list is made of items with commas between them, and rows are lists with semicolons
  between them (`JoinedBy`).  Both are read by one scheme: a part, then further parts as
  long as a separator with a part after it follows (`Splits.joined`).  So exactly the joined
  texts are lists and rows, and the items are what stands between the separators, trimmed
  (`wholeList?_eq_some_iff`, `wholeRows?_eq_some_iff`).

  The text of a finite number has no separator and no blank in it and is read as the
  number, so rows of numbers are read as they were written, with any blanks around the
  numbers.  Where nothing but blanks stands between two separators, or between one and an
  end of the text, there is an item without a number, and the text is refused
  (`number_lists_survive`).
-/
import Mathlib
import NumericMethods.Proofs.Formula.Phrase
import NumericMethods.Proofs.Text.Lines
import NumericMethods.Task.Values

namespace NumericMethods.Task

open Text

/-! ### Joined texts -/

/-- The text is made of parts with separators between them; `part cs b` says that `cs` is
    a part with the content `b`. -/
inductive JoinedBy {β : Type} (sep : Char) (part : List Char → β → Prop) :
    List Char → List β → Prop
  | single {cs b} (hpart : part cs b) : JoinedBy sep part cs [b]
  | cons {cs b ds bs} (hpart : part cs b) (hrest : JoinedBy sep part ds bs) :
      JoinedBy sep part (cs ++ sep :: ds) (b :: bs)

/-- An item of a list, and what it is trimmed to. -/
structure IsItem (cs item : List Char) : Prop where
  ne_nil : cs ≠ []
  isItemChar : ∀ c ∈ cs, isItemChar c = true
  eq_trim : item = trim cs

/-- A list of items. -/
def IsList : List Char → List (List Char) → Prop := JoinedBy ',' IsItem

/-- Rows of items. -/
def IsRows : List Char → List (List (List Char)) → Prop := JoinedBy ';' IsList

section Joined

variable {β γ : Type} {sep : Char} {part : List Char → β → Prop} {cs : List Char} {bs : List β}

/-- Parts that are joined make a joined text. -/
theorem joinedBy_intercalate {text : γ → List Char} {content : γ → β} {xs : List γ}
    (hpart : ∀ x ∈ xs, part (text x) (content x)) (hne : xs ≠ []) :
    JoinedBy sep part ([sep].intercalate (xs.map text)) (xs.map content) := by
  induction xs with
  | nil => exact absurd rfl hne
  | cons x xs ih =>
    obtain ⟨hx, hxs⟩ := List.forall_mem_cons.1 hpart
    cases xs with
    | nil =>
      rw [List.map_singleton, List.map_singleton, List.intercalate_singleton]
      exact .single hx
    | cons y xs =>
      rw [List.map_cons, List.map_cons, List.map_cons, List.intercalate_cons_cons,
        List.append_assoc]
      exact .cons hx (ih hxs (List.cons_ne_nil _ _))

/-- What holds of the pieces of every part holds of every piece of the text. -/
theorem JoinedBy.exists_of_mem_splitOnP {p : Char → Bool} {holds : List Char → β → Prop}
    (h : JoinedBy sep part cs bs) (hsep : p sep = true)
    (hpart : ∀ ds b, part ds b → ∀ piece ∈ ds.splitOnP p, holds piece b) :
    ∀ piece ∈ cs.splitOnP p, ∃ b ∈ bs, holds piece b := by
  induction h with
  | single h =>
    intro piece hpiece
    exact ⟨_, List.mem_singleton_self _, hpart _ _ h piece hpiece⟩
  | cons h hrest ih =>
    intro piece hpiece
    rw [List.splitOnP_append_cons _ _ hsep] at hpiece
    rcases List.mem_append.1 hpiece with hpiece | hpiece
    · exact ⟨_, List.mem_cons_self, hpart _ _ h piece hpiece⟩
    · obtain ⟨b, hb, hholds⟩ := ih piece hpiece
      exact ⟨b, List.mem_cons_of_mem _ hb, hholds⟩

end Joined

/-! ### Splitting off parts -/

section Splits

variable {β : Type} {sep : Char} {part : List Char → β → Prop} {ends : Char → Prop}
  {part? : List Char → Option (β × List Char)} {further : List Char → List β × List Char}
  {cs r : List Char} {b : β} {bs : List β}

/-- `part?` splits off a part wherever a character that ends it or nothing follows, and
    what it splits off is a part. -/
structure Splits (part? : List Char → Option (β × List Char)) (part : List Char → β → Prop)
    (ends : Char → Prop) : Prop where
  append : ∀ {cs r b}, part cs b → (∀ c ∈ r.head?, ends c) → part? (cs ++ r) = some (b, r)
  exists_part : ∀ {cs r b}, part? cs = some (b, r) → ∃ ds, part ds b ∧ cs = ds ++ r

/-- `further` splits off parts as long as each has a separator before it. -/
structure Repeats (sep : Char) (part? : List Char → Option (β × List Char))
    (further : List Char → List β × List Char) : Prop where
  step : ∀ {cs r b}, part? cs = some (b, r) →
    further (sep :: cs) = (b :: (further r).1, (further r).2)
  refused : ∀ {cs}, part? cs = none → further (sep :: cs) = ([], sep :: cs)
  stop : ∀ {cs}, cs.head? ≠ some sep → further cs = ([], cs)

/-- A part, then further parts. -/
def oneOrMore (part? : List Char → Option (β × List Char))
    (further : List Char → List β × List Char) (cs : List Char) :
    Option (List β × List Char) :=
  (part? cs).map fun first => (first.1 :: (further first.2).1, (further first.2).2)

theorem oneOrMore_eq_of_some (h : part? cs = some (b, r)) :
    oneOrMore part? further cs = some (b :: (further r).1, (further r).2) := by
  rw [oneOrMore, h]
  rfl

/-- Only what `further` splits off is missing from the text, and its parts are joined. -/
theorem Splits.exists_joined (h : Splits part? part ends) (hfurther : Repeats sep part? further)
    (hcs : part? cs = some (b, r)) :
    ∃ ds, JoinedBy sep part ds (b :: (further r).1) ∧ cs = ds ++ (further r).2 := by
  -- the rest behind the next part is shorter than the rest behind this one
  induction hlength : r.length using Nat.strong_induction_on generalizing cs b r with
  | _ n ih =>
    subst hlength
    obtain ⟨ds, hpart, rfl⟩ := h.exists_part hcs
    by_cases hhead : r.head? = some sep
    · obtain ⟨tail, rfl⟩ := List.head?_eq_some_iff.1 hhead
      cases htail : part? tail with
      | none =>
        rw [hfurther.refused htail]
        exact ⟨ds, .single hpart, rfl⟩
      | some next =>
        obtain ⟨b', r'⟩ := next
        obtain ⟨es, -, rfl⟩ := h.exists_part htail
        have hshorter : r'.length < (sep :: (es ++ r')).length := by
          rw [List.length_cons, List.length_append]
          omega
        obtain ⟨fs, hjoined, hfs⟩ := ih _ hshorter htail rfl
        rw [hfurther.step htail]
        refine ⟨ds ++ sep :: fs, .cons hpart hjoined, ?_⟩
        rw [hfs, List.append_assoc, List.cons_append]
    · rw [hfurther.stop hhead]
      exact ⟨ds, .single hpart, rfl⟩

/-- Splitting off parts one after the other splits off a joined text. -/
theorem Splits.joined (h : Splits part? part ends) (hfurther : Repeats sep part? further)
    (hsep : ends sep) :
    Splits (oneOrMore part? further) (JoinedBy sep part) (fun c => ends c ∧ c ≠ sep) where
  append := by
    intro cs r bs hjoined hr
    have hends : ∀ c ∈ r.head?, ends c := fun c hc => (hr c hc).1
    have hstop : further r = ([], r) := hfurther.stop fun hhead => (hr sep hhead).2 rfl
    induction hjoined with
    | single hpart =>
      rw [oneOrMore_eq_of_some (h.append hpart hends), hstop]
    | @cons cs b ds bs hpart hrest ih =>
      have hhead : ∀ c ∈ (sep :: (ds ++ r)).head?, ends c := by
        rintro _ ⟨⟩
        exact hsep
      rw [List.append_assoc, List.cons_append, oneOrMore_eq_of_some (h.append hpart hhead)]
      -- what is split off behind the separator is again one part and further ones
      obtain ⟨first, hfirst, hds⟩ := Option.map_eq_some_iff.1 ih
      rw [hfurther.step hfirst]
      cases hds
      rfl
  exists_part := by
    intro cs r bs hcs
    obtain ⟨⟨b, r'⟩, hfirst, ⟨⟩⟩ := Option.map_eq_some_iff.1 hcs
    exact h.exists_joined hfurther hfirst

/-- What is split off a text without a rest is the text. -/
theorem Splits.eq_some_iff (h : Splits part? part ends) :
    part? cs = some (b, []) ↔ part cs b := by
  constructor
  · intro hcs
    obtain ⟨ds, hpart, rfl⟩ := h.exists_part hcs
    rwa [List.append_nil]
  · intro hpart
    have hwhole := h.append (r := []) hpart (by simp)
    rwa [List.append_nil] at hwhole

end Splits

/-! ### Lists and rows -/

section Lists

variable {cs : List Char} {items : List (List Char)} {rows : List (List (List Char))}

theorem splits_item : Splits item? IsItem (fun c => isItemChar c = false) where
  append := by
    intro cs r item hitem hr
    obtain ⟨hne, hchars, rfl⟩ := hitem
    rw [item?, Formula.takeWhile_append hchars hr, Formula.dropWhile_append hchars hr]
    cases cs with
    | nil => exact absurd rfl hne
    | cons c cs => rfl
  exists_part := by
    intro cs r item hcs
    unfold item? at hcs
    split at hcs
    · cases hcs
    · rename_i hne
      cases hcs
      exact ⟨_, ⟨hne, fun c hc => List.mem_takeWhile_imp hc, rfl⟩,
        List.takeWhile_append_dropWhile.symm⟩

theorem repeats_items : Repeats ',' item? furtherItems where
  step := by
    intro cs r item h
    rw [furtherItems]
    split <;> simp_all
  refused := by
    intro cs h
    rw [furtherItems]
    split <;> simp_all
  stop := by
    intro cs h
    unfold furtherItems
    split
    · exact absurd rfl h
    · rfl

theorem list?_eq (cs : List Char) : list? cs = oneOrMore item? furtherItems cs := by
  rw [list?, oneOrMore]
  cases item? cs <;> rfl

theorem splits_list : Splits list? IsList (fun c => isItemChar c = false ∧ c ≠ ',') := by
  rw [funext list?_eq]
  exact splits_item.joined repeats_items rfl

theorem repeats_rows : Repeats ';' list? furtherRows where
  step := by
    intro cs r row h
    rw [furtherRows]
    split <;> simp_all
  refused := by
    intro cs h
    rw [furtherRows]
    split <;> simp_all
  stop := by
    intro cs h
    unfold furtherRows
    split
    · exact absurd rfl h
    · rfl

theorem rows?_eq (cs : List Char) : rows? cs = oneOrMore list? furtherRows cs := by
  rw [rows?, oneOrMore]
  cases list? cs <;> rfl

theorem splits_rows :
    Splits rows? IsRows (fun c => (isItemChar c = false ∧ c ≠ ',') ∧ c ≠ ';') := by
  rw [funext rows?_eq]
  exact splits_list.joined repeats_rows ⟨rfl, by decide⟩

/-- A text is read as a list exactly if it is one. -/
theorem wholeList?_eq_some_iff : wholeList? cs = some items ↔ IsList cs items := by
  rw [← splits_list.eq_some_iff, wholeList?]
  split
  · rename_i heq
    rw [heq]
    simp
  · rename_i hrest
    simp only [reduceCtorEq, false_iff]
    exact hrest items

/-- A text is read as rows exactly if it consists of rows. -/
theorem wholeRows?_eq_some_iff : wholeRows? cs = some rows ↔ IsRows cs rows := by
  rw [← splits_rows.eq_some_iff, wholeRows?]
  split
  · rename_i heq
    rw [heq]
    simp
  · rename_i hrest
    simp only [reduceCtorEq, false_iff]
    exact hrest rows

end Lists

/-! ### The texts of numbers -/

section Numbers

theorem mem_literal_text {l : Formula.Literal} {c : Char} (hc : c ∈ l.text) :
    c.isDigit = true ∨ c ∈ ['.', 'e', 'E', '+', '-'] := by
  rw [Formula.Literal.text, Formula.Literal.fractionText, Formula.Literal.exponentText] at hc
  rcases List.mem_append.1 hc with hc | hc
  · rcases List.mem_append.1 hc with hc | hc
    · exact .inl (l.isDigit_whole c hc)
    · cases hfraction : l.fraction with
      | none => simp [hfraction] at hc
      | some ds =>
        rw [hfraction] at hc
        rcases List.mem_cons.1 hc with rfl | hc
        · exact .inr (by simp)
        · exact .inl (l.isDigit_fraction ds hfraction c hc)
  · cases hexponent : l.exponent with
    | none => simp [hexponent] at hc
    | some x =>
      rw [hexponent] at hc
      rcases List.mem_cons.1 hc with rfl | hc
      · exact .inr (by cases x.capital <;> simp)
      · rcases List.mem_append.1 hc with hc | hc
        · rw [Formula.LiteralExponent.signText] at hc
          split at hc <;> simp_all
        · exact .inl (x.isDigit_digits c hc)

/-- The text of a finite number has no separator and no blank in it. -/
theorem of_mem_text_number {v : Float} (hfinite : v.isFinite = true) {c : Char}
    (hc : c ∈ (Scalar.text v).toList) : isItemChar c = true ∧ isBlank c = false := by
  have hcases : c.isDigit = true ∨ c ∈ ['.', 'e', 'E', '+', '-'] := by
    obtain ⟨l, htext, -⟩ := Formula.exists_literal_text hfinite
    rw [htext] at hc
    rcases List.mem_append.1 hc with hc | hc
    · split at hc
      · exact .inr (by simp_all)
      · cases hc
    · exact mem_literal_text hc
  -- the separators and the blanks are neither digits nor among the five other characters
  rcases hcases with hdigit | hsign
  · refine ⟨?_, Formula.isBlank_of_isDigit hdigit⟩
    rw [isItemChar, Bool.and_eq_true, decide_eq_true_iff, decide_eq_true_iff]
    constructor <;> rintro rfl <;> exact absurd hdigit (by decide)
  · have hsigns : ∀ d ∈ ['.', 'e', 'E', '+', '-'], isItemChar d = true ∧ isBlank d = false := by
      simp [isItemChar, isBlank]
    exact hsigns c hsign

theorem text_number_ne_nil {v : Float} (hfinite : v.isFinite = true) :
    (Scalar.text v).toList ≠ [] := by
  obtain ⟨l, htext, -⟩ := Formula.exists_literal_text hfinite
  obtain ⟨c, r, hcons, -⟩ := l.text_eq_cons
  rw [htext, hcons]
  exact List.append_ne_nil_of_right_ne_nil _ (List.cons_ne_nil _ _)

/-- A number that is read back inside a formula is read alone. -/
theorem read_text_number {α : Type} [Scalar α] {v : α} (h : Formula.ReadsBack v) :
    Formula.read (Scalar.text v) = .ok (.const v) := by
  have hphrase : Formula.IsPhrase .sum Formula.AfterNumber (Scalar.text v).toList
      (.const v : Formula α) := by
    cases h with
    | unsigned l hl htext =>
      rw [htext, ← hl]
      exact (Formula.IsPhrase.number l).product_of_primary.sum_of_product
    | negative l hl htext | minusZero l _ hl htext =>
      rw [htext, ← hl]
      exact (Formula.IsPhrase.minus_number l).sum_of_unary
  exact hphrase.read_eq

/-- The text of a finite number is read as the number. -/
theorem numberValue_text {v : Float} (hfinite : v.isFinite = true) :
    numberValue (Scalar.text v) = .ok v := by
  have hread : Formula.read (Scalar.text v) = .ok (.const v) :=
    read_text_number (Formula.readsBack_of_isFinite Binary64.platform hfinite)
  have hvalue : (Formula.const v).eval 0 = .ok v := if_pos hfinite
  have hconstant : (Formula.const v).isConstant = true := by
    simp [Formula.isConstant, Formula.variableNames, Formula.occurrences]
  have hnumber : Formula.readConstant (Scalar.text v) = .ok v := by
    rw [Formula.readConstant, hread]
    simp only [hvalue]
    exact if_pos hconstant
  rw [numberValue, hnumber]
  rfl

/-- Nothing is not a number. -/
theorem numberValue_nil {α : Type} [Scalar α] :
    numberValue (String.ofList []) = (.error (.notConstant .empty) : Except ValueFault α) := rfl

end Numbers

/-! ### Numbers in a list -/

/-- A finite number with blanks around its text. -/
structure LaidNumber where
  before : List Char
  value : Float
  after : List Char
  isFinite : value.isFinite = true
  isBlank_before : ∀ c ∈ before, isBlank c = true
  isBlank_after : ∀ c ∈ after, isBlank c = true

namespace LaidNumber

def numeral (n : LaidNumber) : List Char := (Scalar.text n.value).toList

def text (n : LaidNumber) : List Char := n.before ++ (n.numeral ++ n.after)

end LaidNumber

/-- The numbers with commas between them. -/
def rowText (row : List LaidNumber) : List Char := [','].intercalate (row.map LaidNumber.text)

/-- The rows with semicolons between them. -/
def rowsText (rows : List (List LaidNumber)) : List Char := [';'].intercalate (rows.map rowText)

section Laid

variable {row : List LaidNumber} {rows : List (List LaidNumber)}

theorem isBlank_space : ∀ c ∈ [' '], isBlank c = true := fun c hc =>
  Formula.isBlank_of_isGap (Formula.isGap_space c hc)

theorem isItemChar_of_isBlank {c : Char} (h : isBlank c = true) : isItemChar c = true := by
  rw [isItemChar, Bool.and_eq_true, decide_eq_true_iff, decide_eq_true_iff]
  constructor <;> rintro rfl <;> exact absurd h (by decide)

theorem LaidNumber.isItem (n : LaidNumber) : IsItem n.text n.numeral where
  ne_nil :=
    List.append_ne_nil_of_right_ne_nil _
      (List.append_ne_nil_of_left_ne_nil (text_number_ne_nil n.isFinite) _)
  isItemChar := by
    intro c hc
    rcases List.mem_append.1 hc with hc | hc
    · exact isItemChar_of_isBlank (n.isBlank_before c hc)
    · rcases List.mem_append.1 hc with hc | hc
      · exact (of_mem_text_number n.isFinite hc).1
      · exact isItemChar_of_isBlank (n.isBlank_after c hc)
  eq_trim := by
    have hnumeral : ∀ c ∈ n.numeral, isBlank c = false := fun c hc =>
      (of_mem_text_number n.isFinite hc).2
    rw [text, trim_append_left n.isBlank_before, trim_append_right n.isBlank_after,
      trim_eq_self hnumeral]

theorem isList_rowText (hne : row ≠ []) : IsList (rowText row) (row.map LaidNumber.numeral) :=
  joinedBy_intercalate (fun n _ => n.isItem) hne

theorem isRows_rowsText (hne : rows ≠ []) (hrows : ∀ row ∈ rows, row ≠ []) :
    IsRows (rowsText rows) (rows.map fun row => row.map LaidNumber.numeral) :=
  joinedBy_intercalate (fun row hrow => isList_rowText (hrows row hrow)) hne

theorem numberValues_numerals (row : List LaidNumber) :
    numberValues (row.map LaidNumber.numeral) = .ok (row.map LaidNumber.value) := by
  induction row with
  | nil => rfl
  | cons n row ih =>
    have hvalue : numberValue (String.ofList n.numeral) = .ok n.value := by
      rw [LaidNumber.numeral, String.ofList_toList, numberValue_text n.isFinite]
    rw [List.map_cons, numberValues, hvalue, ih]
    rfl

theorem rowValues_numerals (rows : List (List LaidNumber)) :
    rowValues (rows.map fun row => row.map LaidNumber.numeral) =
      .ok (rows.map fun row => row.map LaidNumber.value) := by
  induction rows with
  | nil => rfl
  | cons row rows ih =>
    rw [List.map_cons, rowValues, numberValues_numerals, ih]
    rfl

theorem vectorValue_rowText (hne : row ≠ []) :
    vectorValue (String.ofList (rowText row)) = .ok (row.map LaidNumber.value) := by
  rw [vectorValue, String.toList_ofList, wholeList?_eq_some_iff.2 (isList_rowText hne)]
  exact numberValues_numerals row

theorem matrixValue_rowsText (hne : rows ≠ []) (hrows : ∀ row ∈ rows, row ≠ []) :
    matrixValue (String.ofList (rowsText rows)) =
      .ok (rows.map fun row => row.map LaidNumber.value) := by
  rw [matrixValue, String.toList_ofList,
    wholeRows?_eq_some_iff.2 (isRows_rowsText hne hrows)]
  exact rowValues_numerals rows

end Laid

/-! ### Items without a number -/

/-- Between two separators, or between one and an end of the text, are at most blanks. -/
def HasEmptyItem (cs : List Char) : Prop :=
  ∃ before blanks after, cs = before ++ (blanks ++ after) ∧
    (∀ c ∈ blanks, isBlank c = true) ∧
    (∀ c ∈ before.getLast?, isItemChar c = false) ∧ ∀ c ∈ after.head?, isItemChar c = false

section Empty

variable {α : Type} [Scalar α] {cs : List Char} {items : List (List Char)}
  {rows : List (List (List Char))}

/-- What stands between two places where a text is cut, or between one and an end, is one of
    its pieces. -/
theorem mem_splitOnP_of_between {p : Char → Bool} {before piece after : List Char}
    (hbefore : ∀ c ∈ before.getLast?, p c = true) (hpiece : ∀ c ∈ piece, p c = false)
    (hafter : ∀ c ∈ after.head?, p c = true) :
    piece ∈ (before ++ (piece ++ after)).splitOnP p := by
  have hright : piece ∈ (piece ++ after).splitOnP p := by
    cases after with
    | nil => simp [List.splitOnP_eq_singleton hpiece]
    | cons c after =>
      rw [List.splitOnP_append_cons _ _ (hafter c rfl), List.splitOnP_eq_singleton hpiece]
      exact List.mem_cons_self
  rcases List.eq_nil_or_concat' before with rfl | ⟨before, c, rfl⟩
  · exact hright
  · rw [List.append_assoc, List.singleton_append,
      List.splitOnP_append_cons _ _ (hbefore c (by simp))]
    exact List.mem_append_right _ hright

/-- A text with an empty item has a piece that is trimmed to nothing. -/
theorem HasEmptyItem.exists_piece (h : HasEmptyItem cs) :
    ∃ piece ∈ cs.splitOnP (fun c => !isItemChar c), trim piece = [] := by
  obtain ⟨before, blanks, after, rfl, hblanks, hbefore, hafter⟩ := h
  refine ⟨blanks, mem_splitOnP_of_between ?_ ?_ ?_, ?_⟩
  · simpa using hbefore
  · simpa using fun c hc => isItemChar_of_isBlank (hblanks c hc)
  · simpa using hafter
  · rw [trim, trimStart_blanks hblanks]
    rfl

theorem trim_of_mem_splitOnP {cs item : List Char} (h : IsItem cs item) :
    ∀ piece ∈ cs.splitOnP (fun c => !isItemChar c), trim piece = item := by
  have hwhole : cs.splitOnP (fun c => !isItemChar c) = [cs] :=
    List.splitOnP_eq_singleton (by simpa using h.isItemChar)
  intro piece hpiece
  rw [hwhole, List.mem_singleton] at hpiece
  rw [hpiece, h.eq_trim]

theorem IsList.mem_of_mem_splitOnP (h : IsList cs items) :
    ∀ piece ∈ cs.splitOnP (fun c => !isItemChar c), trim piece ∈ items := by
  intro piece hpiece
  obtain ⟨item, hitem, htrim⟩ :=
    JoinedBy.exists_of_mem_splitOnP h rfl (fun _ _ hds => trim_of_mem_splitOnP hds) piece hpiece
  rwa [htrim]

theorem IsRows.mem_of_mem_splitOnP (h : IsRows cs rows) :
    ∀ piece ∈ cs.splitOnP (fun c => !isItemChar c), ∃ row ∈ rows, trim piece ∈ row :=
  JoinedBy.exists_of_mem_splitOnP h rfl fun _ _ hds => IsList.mem_of_mem_splitOnP hds

theorem numberValues_of_nil_mem (h : [] ∈ items) :
    ∃ fault, (numberValues items : Except ValueFault (List α)) = .error fault := by
  induction items with
  | nil => cases h
  | cons item items ih =>
    rw [numberValues]
    cases hitem : (numberValue (String.ofList item) : Except ValueFault α) with
    | error fault => exact ⟨fault, rfl⟩
    | ok x =>
      rcases List.mem_cons.1 h with rfl | h
      · rw [numberValue_nil] at hitem
        cases hitem
      · obtain ⟨fault, hfault⟩ := ih h
        exact ⟨fault, by rw [hfault]; rfl⟩

theorem rowValues_of_nil_mem {row : List (List Char)} (hrow : row ∈ rows) (h : [] ∈ row) :
    ∃ fault, (rowValues rows : Except ValueFault (List (List α))) = .error fault := by
  induction rows with
  | nil => cases hrow
  | cons first rows ih =>
    rw [rowValues]
    cases hfirst : (numberValues first : Except ValueFault (List α)) with
    | error fault => exact ⟨fault, rfl⟩
    | ok xs =>
      rcases List.mem_cons.1 hrow with rfl | hrow
      · obtain ⟨fault, hfault⟩ := numberValues_of_nil_mem (α := α) h
        rw [hfirst] at hfault
        cases hfault
      · obtain ⟨fault, hfault⟩ := ih hrow
        exact ⟨fault, by rw [hfault]; rfl⟩

theorem vectorValue_of_hasEmptyItem {text : String} (h : HasEmptyItem text.toList) :
    ∃ fault, (vectorValue text : Except ValueFault (List α)) = .error fault := by
  rw [vectorValue]
  cases hlist : wholeList? text.toList with
  | none => exact ⟨_, rfl⟩
  | some items =>
    obtain ⟨piece, hpiece, htrim⟩ := h.exists_piece
    have hnil := (wholeList?_eq_some_iff.1 hlist).mem_of_mem_splitOnP piece hpiece
    rw [htrim] at hnil
    exact numberValues_of_nil_mem hnil

theorem matrixValue_of_hasEmptyItem {text : String} (h : HasEmptyItem text.toList) :
    ∃ fault, (matrixValue text : Except ValueFault (List (List α))) = .error fault := by
  rw [matrixValue]
  cases hrows : wholeRows? text.toList with
  | none => exact ⟨_, rfl⟩
  | some rows =>
    obtain ⟨piece, hpiece, htrim⟩ := h.exists_piece
    obtain ⟨row, hrow, hnil⟩ :=
      (wholeRows?_eq_some_iff.1 hrows).mem_of_mem_splitOnP piece hpiece
    rw [htrim] at hnil
    exact rowValues_of_nil_mem hrow hnil

end Empty

/-! ### Entries of a section -/

namespace Section

variable {τ : Type} {s : Section} {read : String → Except ValueFault τ} {key text : String}

theorem readValue_of_ok {v : τ} (hget : s.get? key = some text) (h : read text = .ok v) :
    s.readValue read key = .ok (some v) := by
  rw [readValue, hget]
  simp only [h]

theorem readValue_of_error {fault : ValueFault} (hget : s.get? key = some text)
    (h : read text = .error fault) :
    s.readValue read key = .error (.invalidValue s.title key fault) := by
  rw [readValue, hget]
  simp only [h]

end Section

/-- Numbers that are joined with commas and rows of them that are joined with semicolons come
    back as they were written, and an item without a number is refused under its key. -/
theorem number_lists_survive (s : Section) (key : String) :
    (∀ rows : List (List LaidNumber), rows ≠ [] → (∀ row ∈ rows, row ≠ []) →
      s.get? key = some (String.ofList (rowsText rows)) →
      s.matrix key = .ok (some (rows.map fun row => row.map LaidNumber.value))) ∧
    (∀ row : List LaidNumber, row ≠ [] → s.get? key = some (String.ofList (rowText row)) →
      s.vector key = .ok (some (row.map LaidNumber.value))) ∧
    ∀ text, s.get? key = some text → HasEmptyItem text.toList →
      (∃ fault, (s.matrix key : Except TaskError (Option (List (List Float)))) =
        .error (.invalidValue s.title key fault)) ∧
      ∃ fault, (s.vector key : Except TaskError (Option (List Float))) =
        .error (.invalidValue s.title key fault) := by
  refine ⟨?_, ?_, ?_⟩
  · intro rows hne hrows hget
    exact Section.readValue_of_ok hget (matrixValue_rowsText hne hrows)
  · intro row hne hget
    exact Section.readValue_of_ok hget (vectorValue_rowText hne)
  · intro text hget hempty
    obtain ⟨fault, hmatrix⟩ := matrixValue_of_hasEmptyItem (α := Float) hempty
    obtain ⟨fault', hvector⟩ := vectorValue_of_hasEmptyItem (α := Float) hempty
    exact ⟨⟨fault, Section.readValue_of_error hget hmatrix⟩,
      ⟨fault', Section.readValue_of_error hget hvector⟩⟩

/-- Rows of different lengths with a negative zero, a single row, and a row that is missing
    at the end. -/
theorem number_lists_survive_ragged :
    let s : Section := ⟨"jacobi", 1, [("A", "1, -0 ;2.5"), ("b", "0.1 ,-3"), ("x0", "1,2; ")]⟩
    (s.matrix "A" : Except TaskError (Option (List (List Float)))) =
        .ok (some [[1, -0], [2.5]]) ∧
      (s.vector "b" : Except TaskError (Option (List Float))) = .ok (some [0.1, -3]) ∧
      ∃ fault, (s.matrix "x0" : Except TaskError (Option (List (List Float)))) =
        .error (.invalidValue "jacobi" "x0" fault) := by
  intro s
  let row : List LaidNumber :=
    [⟨[], 0.1, [' '], by decide +kernel, List.forall_mem_nil _, isBlank_space⟩,
      ⟨[], -3, [], by decide +kernel, List.forall_mem_nil _, List.forall_mem_nil _⟩]
  let rows : List (List LaidNumber) :=
    [[⟨[], 1, [], by decide +kernel, List.forall_mem_nil _, List.forall_mem_nil _⟩,
        ⟨[' '], -0, [' '], by decide +kernel, isBlank_space, isBlank_space⟩],
      [⟨[], 2.5, [], by decide +kernel, List.forall_mem_nil _, List.forall_mem_nil _⟩]]
  have hrows : s.get? "A" = some (String.ofList (rowsText rows)) := by decide +kernel
  have hrow : s.get? "b" = some (String.ofList (rowText row)) := by decide +kernel
  have hempty : HasEmptyItem "1,2; ".toList :=
    ⟨['1', ',', '2', ';'], [' '], [], by simp, isBlank_space, by simp [isItemChar], by simp⟩
  refine ⟨(number_lists_survive s "A").1 rows (by simp [rows]) (by simp [rows]) hrows,
    (number_lists_survive s "b").2.1 row (by simp [row]) hrow, ?_⟩
  exact ((number_lists_survive s "x0").2.2 "1,2; " (by decide) hempty).1

end NumericMethods.Task
