/-
Numbers taken out of a reading, and put back.

A reading is a sequence of runs of digits and of characters that are no digits, and so are its
headword and its numbers (`reading_induction`, `numericKey_char`, `numericKey_run`).  A surface is
what stands in front of its placeholders, one after the other, and what stands behind the last of
them (`exists_slots`).

* `expand_asTyped`: the headword with `#0` for each `#` is filled to the reading again;
* `exists_filled_slots`: filling a surface writes the numbers in place of its first placeholders and
  copies all else;
* `numbers_restored`: both, with what the headword and the numbers tell of the reading.

Readings with a `#` of their own are no part of it: a `#` in a headword would then not tell whether
it stands for a number.
-/
import KanaKanji.Dictionary.Entry
import KanaKanji.Proofs.Dictionary.Headword

namespace KanaKanji

/-! ### Readings as runs -/

/-- What holds of the empty reading, and is kept by a character that is no digit and by a whole
run of digits in front, holds of every reading. -/
theorem reading_induction {P : Text → Prop} (nil : P [])
    (char : ∀ c s, c.isDigit = false → P s → P (c :: s))
    (run : ∀ run s, run ≠ [] → (∀ c ∈ run, c.isDigit = true) →
      (∀ c ∈ s.head?, c.isDigit = false) → P s → P (run ++ s))
    (s : Text) : P s := by
  -- digits in front of the rest belong to a run that may not have ended yet
  have hfront : ∀ front : Text, (∀ c ∈ front, c.isDigit = true) → P (front ++ s) := by
    induction s with
    | nil =>
      intro front hfront
      by_cases hne : front = []
      · rw [hne]
        exact nil
      · exact run front [] hne hfront (fun c hc => nomatch hc) nil
    | cons c s ih =>
      intro front hfront
      by_cases hc : c.isDigit = true
      · rw [List.append_cons]
        refine ih (front ++ [c]) (List.forall_mem_append.mpr ⟨hfront, ?_⟩)
        exact List.forall_mem_singleton.mpr hc
      · have hc : c.isDigit = false := by simpa using hc
        have hs : P (c :: s) := char c s hc (ih [] fun d hd => absurd hd List.not_mem_nil)
        by_cases hne : front = []
        · rw [hne]
          exact hs
        · refine run front (c :: s) hne hfront (fun d hd => ?_) hs
          rw [← Option.some.inj hd]
          exact hc
  exact hfront [] fun c hc => absurd hc List.not_mem_nil

/-- A whole run becomes one `#` and one number. -/
theorem numericKey_run {run s : Text} (hne : run ≠ []) (hrun : ∀ c ∈ run, c.isDigit = true)
    (hs : ∀ c ∈ s.head?, c.isDigit = false) :
    numericKey (run ++ s) = ('#' :: (numericKey s).1, run :: (numericKey s).2) := by
  induction run with
  | nil => exact absurd rfl hne
  | cons c run ih =>
    obtain ⟨hc, hrun⟩ := List.forall_mem_cons.mp hrun
    cases run with
    | nil =>
      rw [List.singleton_append, numericKey]
      dsimp only
      rw [if_pos hc]
      cases s with
      | nil => rfl
      | cons d s =>
        have hd : d.isDigit = false := hs d rfl
        cases (numericKey (d :: s)).2 with
        | nil => rfl
        | cons number numbers => simp [hd]
    | cons d run =>
      have hd : d.isDigit = true := hrun d List.mem_cons_self
      rw [List.cons_append, numericKey, ih (List.cons_ne_nil d run) hrun]
      simp [hc, hd]

/-- As many `#` stand in the headword as there are numbers. -/
theorem count_numericKey {s : Text} (h : '#' ∉ s) :
    (numericKey s).1.count '#' = (numericKey s).2.length := by
  induction s using reading_induction with
  | nil => rfl
  | char c s hc ih =>
    obtain ⟨hne, hs⟩ := List.ne_and_not_mem_of_not_mem_cons h
    rw [numericKey_char hc, List.count_cons_of_ne (Ne.symm hne)]
    exact ih hs
  | run run s hne hrun hs ih =>
    rw [numericKey_run hne hrun hs, List.count_cons_self, List.length_cons,
      ih fun hmem => h (List.mem_append_right run hmem)]

/-! ### Placeholders -/

namespace NumberForm

/-- The character behind `#` that asks for the form. -/
def digit : NumberForm → Char
  | asTyped => '0'
  | fullWidth => '1'
  | byDigit => '2'
  | numeral => '3'

theorem ofChar?_digit (form : NumberForm) : ofChar? form.digit = some form := by
  cases form <;> rfl

theorem digit_of_ofChar? {c : Char} {form : NumberForm} (h : ofChar? c = some form) :
    form.digit = c := by
  unfold ofChar? at h
  split at h
  · rw [← Option.some.inj h]
    rfl
  · rw [← Option.some.inj h]
    rfl
  · rw [← Option.some.inj h]
    rfl
  · rw [← Option.some.inj h]
    rfl
  · exact nomatch h

theorem digit_ne_hash (form : NumberForm) : form.digit ≠ '#' := by
  cases form <;> decide

end NumberForm

/-- The two characters are a placeholder. -/
def isPlaceholder (c d : Char) : Bool :=
  c == '#' && (NumberForm.ofChar? d).isSome

/-- How many placeholders a surface has. -/
def placeholders (surface : Text) : Nat :=
  (surface.zip surface.tail).countP fun pair => isPlaceholder pair.1 pair.2

theorem isPlaceholder_iff {c d : Char} :
    isPlaceholder c d = true ↔ ∃ form : NumberForm, c = '#' ∧ d = form.digit := by
  rw [isPlaceholder, Bool.and_eq_true, beq_iff_eq, Option.isSome_iff_exists]
  constructor
  · rintro ⟨rfl, form, hform⟩
    exact ⟨form, rfl, (NumberForm.digit_of_ofChar? hform).symm⟩
  · rintro ⟨form, rfl, rfl⟩
    exact ⟨rfl, form, form.ofChar?_digit⟩

theorem placeholders_cons_cons (c d : Char) (s : Text) :
    placeholders (c :: d :: s) = placeholders (d :: s) + if isPlaceholder c d then 1 else 0 :=
  List.countP_cons

theorem placeholders_cons_cons_eq_zero {c d : Char} {s : Text} :
    placeholders (c :: d :: s) = 0 ↔ isPlaceholder c d = false ∧ placeholders (d :: s) = 0 := by
  rw [placeholders_cons_cons]
  cases isPlaceholder c d <;> simp

/-- Only a `#` begins a placeholder. -/
theorem placeholders_cons_of_ne {c : Char} (hc : c ≠ '#') (s : Text) :
    placeholders (c :: s) = placeholders s := by
  cases s with
  | nil => rfl
  | cons d s =>
    have hno : isPlaceholder c d = false := by simp [isPlaceholder, hc]
    rw [placeholders_cons_cons, hno]
    rfl

/-! ### Filling -/

theorem expand_no_numbers (s : Text) : expand s [] = s := by
  cases s with
  | nil => rfl
  | cons c s =>
    cases s with
    | nil => rfl
    | cons d s => rfl

theorem expand_placeholder (form : NumberForm) (s number : Text) (numbers : List Text) :
    expand ('#' :: form.digit :: s) (number :: numbers)
      = form.write number ++ expand s numbers :=
  expand.eq_1 form.digit s number numbers form form.ofChar?_digit

/-- A character that begins no placeholder is copied. -/
theorem expand_cons_cons {c d : Char} (h : isPlaceholder c d = false) (s : Text)
    (numbers : List Text) : expand (c :: d :: s) numbers = c :: expand (d :: s) numbers := by
  cases numbers with
  | nil => rw [expand_no_numbers, expand_no_numbers]
  | cons number numbers =>
    refine expand.eq_2 _ _ _ _ _ fun form hc hform => ?_
    rw [hc, isPlaceholder, hform] at h
    exact nomatch h

theorem expand_cons_of_ne {c : Char} (hc : c ≠ '#') (s : Text) (numbers : List Text) :
    expand (c :: s) numbers = c :: expand s numbers := by
  cases s with
  | nil => cases numbers <;> rfl
  | cons d s => exact expand_cons_cons (by simp [isPlaceholder, hc]) s numbers

/-- A text without placeholders is copied. -/
theorem expand_of_no_placeholders {s : Text} (h : placeholders s = 0) (numbers : List Text) :
    expand s numbers = s := by
  induction s with
  | nil => rfl
  | cons c s ih =>
    cases s with
    | nil => cases numbers <;> rfl
    | cons d s =>
      obtain ⟨hno, hrest⟩ := placeholders_cons_cons_eq_zero.mp h
      rw [expand_cons_cons hno, ih hrest]

/-- So it is in front of a placeholder: no placeholder ends in a `#`. -/
theorem expand_append_of_no_placeholders {before : Text} (h : placeholders before = 0) (s : Text)
    (numbers : List Text) :
    expand (before ++ '#' :: s) numbers = before ++ expand ('#' :: s) numbers := by
  induction before with
  | nil => rfl
  | cons c before ih =>
    cases before with
    | nil =>
      have hno : isPlaceholder c '#' = false := by simp [isPlaceholder, NumberForm.ofChar?]
      exact expand_cons_cons hno s numbers
    | cons d before =>
      obtain ⟨hno, hrest⟩ := placeholders_cons_cons_eq_zero.mp h
      rw [List.cons_append, List.cons_append, expand_cons_cons hno, ← List.cons_append, ih hrest]
      rfl

/-! ### Surfaces as slots -/

/-- A placeholder of a surface with what stands in front of it. -/
structure Slot where
  before : Text
  form : NumberForm

namespace Slot

/-- The slot as the surface has it. -/
def text (slot : Slot) : Text :=
  slot.before ++ ['#', slot.form.digit]

/-- The slot with a number in its placeholder. -/
def filled (slot : Slot) (number : Text) : Text :=
  slot.before ++ slot.form.write number

end Slot

/-- The first placeholder of a surface that has one. -/
theorem exists_slot {surface : Text} (h : placeholders surface ≠ 0) :
    ∃ (slot : Slot) (rest : Text), surface = slot.text ++ rest ∧
      placeholders slot.before = 0 ∧ placeholders surface = placeholders rest + 1 := by
  induction surface with
  | nil => exact absurd rfl h
  | cons c surface ih =>
    cases surface with
    | nil => exact absurd rfl h
    | cons d surface =>
      by_cases hhere : isPlaceholder c d = true
      · obtain ⟨form, rfl, rfl⟩ := isPlaceholder_iff.mp hhere
        refine ⟨⟨[], form⟩, surface, rfl, rfl, ?_⟩
        rw [placeholders_cons_cons, if_pos hhere, placeholders_cons_of_ne form.digit_ne_hash]
      · have hrest : placeholders (c :: d :: surface) = placeholders (d :: surface) := by
          rw [placeholders_cons_cons, if_neg hhere]
          rfl
        rw [hrest] at h ⊢
        obtain ⟨⟨before, form⟩, rest, hsplit, hbefore, hcount⟩ := ih h
        refine ⟨⟨c :: before, form⟩, rest, congrArg (c :: ·) hsplit, ?_, hcount⟩
        cases before with
        | nil => rfl
        | cons e before =>
          obtain rfl : d = e := (List.cons.inj hsplit).1
          exact placeholders_cons_cons_eq_zero.mpr ⟨Bool.eq_false_iff.mpr hhere, hbefore⟩

/-- A surface begins with as many slots as one asks for, up to the number of its placeholders. -/
theorem exists_slots {surface : Text} {n : Nat} (hn : n ≤ placeholders surface) :
    ∃ (slots : List Slot) (rest : Text), surface = slots.flatMap Slot.text ++ rest ∧
      slots.length = n ∧ (∀ slot ∈ slots, placeholders slot.before = 0) ∧
      placeholders surface = placeholders rest + n := by
  induction n generalizing surface with
  | zero => exact ⟨[], surface, rfl, rfl, fun slot hmem => absurd hmem List.not_mem_nil, rfl⟩
  | succ n ih =>
    have hsome : placeholders surface ≠ 0 := by omega
    obtain ⟨slot, rest, rfl, hbefore, hcount⟩ := exists_slot hsome
    obtain ⟨slots, last, rfl, hlength, hbefores, hlast⟩ := ih (show n ≤ placeholders rest by omega)
    refine ⟨slot :: slots, last, ?_, ?_, List.forall_mem_cons.mpr ⟨hbefore, hbefores⟩, ?_⟩
    · rw [List.flatMap_cons, List.append_assoc]
    · rw [List.length_cons, hlength]
    · omega

/-- **Numbers are written into the first slots, one after the other.** -/
theorem expand_slots {slots : List Slot} {numbers : List Text} (rest : Text)
    (hlength : slots.length ≤ numbers.length)
    (hbefores : ∀ slot ∈ slots, placeholders slot.before = 0) :
    expand (slots.flatMap Slot.text ++ rest) numbers =
      (List.zipWith Slot.filled slots numbers).flatten ++
        expand rest (numbers.drop slots.length) := by
  induction slots generalizing numbers with
  | nil => rfl
  | cons slot slots ih =>
    obtain ⟨hbefore, hbefores⟩ := List.forall_mem_cons.mp hbefores
    cases numbers with
    | nil => exact absurd hlength (by simp)
    | cons number numbers =>
      have hrest := ih (Nat.le_of_succ_le_succ hlength) hbefores
      have htext : slot.text ++ (slots.flatMap Slot.text ++ rest) =
          slot.before ++ '#' :: slot.form.digit :: (slots.flatMap Slot.text ++ rest) := by
        simp [Slot.text]
      rw [List.flatMap_cons, List.append_assoc, htext,
        expand_append_of_no_placeholders hbefore, expand_placeholder, hrest]
      simp [Slot.filled]

/-- **Numbers fill the first placeholders of a surface**, as many as there are numbers for, and all
else is copied. -/
theorem exists_filled_slots (surface : Text) (numbers : List Text) :
    ∃ (slots : List Slot) (rest : Text), surface = slots.flatMap Slot.text ++ rest ∧
      slots.length = min (placeholders surface) numbers.length ∧
      (∀ slot ∈ slots, placeholders slot.before = 0) ∧
      expand surface numbers = (List.zipWith Slot.filled slots numbers).flatten ++ rest := by
  obtain ⟨slots, rest, hsplit, hlength, hbefores, hcount⟩ :=
    exists_slots (Nat.min_le_left (placeholders surface) numbers.length)
  refine ⟨slots, rest, hsplit, hlength, hbefores, ?_⟩
  have hmany : slots.length ≤ numbers.length := by omega
  -- either the numbers are used up, or the placeholders
  have hrest : expand rest (numbers.drop slots.length) = rest := by
    by_cases hall : numbers.length ≤ slots.length
    · rw [List.drop_eq_nil_of_le hall, expand_no_numbers]
    · exact expand_of_no_placeholders (by omega) _
  have hfilled := expand_slots rest hmany hbefores
  rw [← hsplit, hrest] at hfilled
  exact hfilled

/-! ### Readings put back -/

/-- The surface that has every number of a headword written as it was typed. -/
def asTypedSurface (headword : Text) : Text :=
  headword.flatMap fun c => if c = '#' then ['#', NumberForm.asTyped.digit] else [c]

theorem asTypedSurface_cons_of_ne {c : Char} (hc : c ≠ '#') (s : Text) :
    asTypedSurface (c :: s) = c :: asTypedSurface s := by
  rw [asTypedSurface, List.flatMap_cons, if_neg hc]
  rfl

/-- **A reading is what its headword and its numbers make together.** -/
theorem expand_asTyped {s : Text} (h : '#' ∉ s) :
    expand (asTypedSurface (numericKey s).1) (numericKey s).2 = s := by
  induction s using reading_induction with
  | nil => rfl
  | char c s hc ih =>
    obtain ⟨hne, hs⟩ := List.ne_and_not_mem_of_not_mem_cons h
    rw [numericKey_char hc, asTypedSurface_cons_of_ne (Ne.symm hne),
      expand_cons_of_ne (Ne.symm hne), ih hs]
  | run run s hne hrun hs ih =>
    rw [numericKey_run hne hrun hs]
    show expand ('#' :: NumberForm.asTyped.digit :: asTypedSurface (numericKey s).1)
      (run :: (numericKey s).2) = run ++ s
    rw [expand_placeholder, ih fun hmem => h (List.mem_append_right run hmem)]
    rfl

/-- Two readings with one headword and the same numbers are the same, when the class letters
behind them are. -/
theorem ConversionKey.yomi_eq_of_headword_eq {first second : ConversionKey}
    (hfirst : '#' ∉ first.yomi) (hsecond : '#' ∉ second.yomi)
    (hletter : first.classLetter? = second.classLetter?)
    (hheadword : first.headword = second.headword) (hnumbers : first.numbers = second.numbers) :
    first.yomi = second.yomi := by
  have hkey : (numericKey first.yomi).1 = (numericKey second.yomi).1 := by
    rw [headword, headword, hletter] at hheadword
    exact List.append_cancel_right hheadword
  rw [numbers, numbers] at hnumbers
  rw [← expand_asTyped hfirst, ← expand_asTyped hsecond, hkey, hnumbers]

/-- **Numbers are taken out of a reading and put back without loss.**

* The headword of a reading without `#` has no digit, has as many `#` as there are numbers, and is
  its own headword; the candidate that writes each number as typed commits the reading.
* Such a reading is known from its headword and its numbers, whichever okurigana of one class, or
  none, stand behind it.  (`か` with く and the reading `かk` alone have one headword.)
* Filling a surface writes the numbers, one after the other, into its first placeholders, as many
  as there are numbers for, each in the form asked for, and copies all else. -/
theorem numbers_restored :
    (∀ yomi : Text, '#' ∉ yomi →
      let key := (numericKey yomi).1
      let numbers := (numericKey yomi).2
      (∀ c ∈ key, c.isDigit = false) ∧ key.count '#' = numbers.length ∧
        numericKey key = (key, []) ∧
        ∀ okuri suffix note,
          Candidate.output ⟨⟨yomi, okuri, suffix⟩, ⟨asTypedSurface key, note⟩⟩
            = yomi ++ okuri ++ suffix) ∧
    (∀ first second : ConversionKey, '#' ∉ first.yomi → '#' ∉ second.yomi →
      first.classLetter? = second.classLetter? → first.headword = second.headword →
      first.numbers = second.numbers → first.yomi = second.yomi) ∧
    ∀ surface numbers, ∃ (slots : List Slot) (rest : Text),
      surface = slots.flatMap Slot.text ++ rest ∧
      slots.length = min (placeholders surface) numbers.length ∧
      (∀ slot ∈ slots, placeholders slot.before = 0) ∧
      expand surface numbers = (List.zipWith Slot.filled slots numbers).flatten ++ rest := by
  refine ⟨fun yomi hyomi => ?_, fun first second hfirst hsecond hletter hheadword hnumbers => ?_,
    exists_filled_slots⟩
  · intro key numbers
    have hdigits : ∀ c ∈ key, c.isDigit = false := fun c hc => isDigit_of_mem_numericKey hc
    refine ⟨hdigits, count_numericKey hyomi, numericKey_of_no_digit hdigits, ?_⟩
    intro okuri suffix note
    show expand (asTypedSurface key) numbers ++ okuri ++ suffix = _
    rw [expand_asTyped hyomi]
  · exact ConversionKey.yomi_eq_of_headword_eq hfirst hsecond hletter hheadword hnumbers

theorem numbers_restored_date :
    '#' ∉ "12がつ4にち".toList ∧
      numericKey "12がつ4にち".toList = ("#がつ#にち".toList, ["12".toList, "4".toList]) ∧
      Candidate.output ⟨⟨"12がつ4にち".toList, [], []⟩, ⟨"#0がつ#0にち".toList, none⟩⟩
        = "12がつ4にち".toList ∧
      ConversionKey.yomi ⟨"12がつ4にち".toList, [], []⟩
        = ConversionKey.yomi ⟨"12がつ4にち".toList, [], "。".toList⟩ ∧
      ∃ (slots : List Slot) (rest : Text),
        "##1と#9#3の#2#0".toList = slots.flatMap Slot.text ++ rest ∧ slots.length = 3 ∧
        expand "##1と#9#3の#2#0".toList ["12".toList, "34".toList, "56".toList]
          = "#１２と#9三十四の五六#0".toList := by
  have hyomi : '#' ∉ "12がつ4にち".toList := by decide
  obtain ⟨hreading, hknown, hfill⟩ := numbers_restored
  obtain ⟨slots, rest, hsplit, hlength, -, -⟩ :=
    hfill "##1と#9#3の#2#0".toList ["12".toList, "34".toList, "56".toList]
  refine ⟨hyomi, by decide, (hreading _ hyomi).2.2.2 [] [] none, ?_,
    slots, rest, hsplit, hlength, by decide⟩
  exact hknown ⟨_, [], []⟩ ⟨_, [], "。".toList⟩ hyomi hyomi rfl rfl rfl

end KanaKanji
