/-
Headwords of keys.

The headword of a key is its reading with `#` for the numbers, and the class letter of the
okurigana behind it.

* `ConversionKey.headword_eq_yomi_iff`: a key without okurigana is its own headword just when
  its reading has no digit;
* `isOkuriHeadword_numericKey`: numbers make no reading a headword of inflected words, nor keep
  one from being it;
* `ConversionKey.headword_eq_plain_iff`: okurigana have a class letter when they start with a
  hiragana letter, but for four of them.
-/
import KanaKanji.Dictionary.ConversionKey

namespace KanaKanji

/-! ### Readings with numbers -/

/-- The first character stays, or it is a digit of a number, which `#` stands for. -/
theorem numericKey_cons_cases (c : Char) (s : Text) :
    (c.isDigit = false ∧ (numericKey (c :: s)).1 = c :: (numericKey s).1) ∨
      (c.isDigit = true ∧ ((numericKey (c :: s)).1 = '#' :: (numericKey s).1 ∨
        s ≠ [] ∧ (numericKey (c :: s)).1 = (numericKey s).1)) := by
  by_cases hc : c.isDigit = true
  · refine Or.inr ⟨hc, ?_⟩
    rw [numericKey]
    dsimp only
    rw [if_pos hc]
    split
    · split
      · exact Or.inr ⟨List.cons_ne_nil _ _, rfl⟩
      · exact Or.inl rfl
    · exact Or.inl rfl
  · refine Or.inl ⟨by simpa using hc, ?_⟩
    rw [numericKey]
    dsimp only
    rw [if_neg hc]

theorem numericKey_ne_nil {s : Text} (h : s ≠ []) : (numericKey s).1 ≠ [] := by
  induction s with
  | nil => exact absurd rfl h
  | cons c s ih =>
    rcases numericKey_cons_cases c s with ⟨-, he⟩ | ⟨-, he | ⟨hs, he⟩⟩
    · rw [he]
      exact List.cons_ne_nil _ _
    · rw [he]
      exact List.cons_ne_nil _ _
    · rw [he]
      exact ih hs

/-- No digit is left. -/
theorem isDigit_of_mem_numericKey {s : Text} {c : Char} (h : c ∈ (numericKey s).1) :
    c.isDigit = false := by
  induction s with
  | nil => exact absurd h List.not_mem_nil
  | cons first s ih =>
    rcases numericKey_cons_cases first s with ⟨hfirst, he⟩ | ⟨-, he | ⟨-, he⟩⟩
    · rw [he] at h
      rcases List.mem_cons.mp h with rfl | h
      · exact hfirst
      · exact ih h
    · rw [he] at h
      rcases List.mem_cons.mp h with rfl | h
      · decide
      · exact ih h
    · rw [he] at h
      exact ih h

theorem numericKey_char {c : Char} (hc : c.isDigit = false) (s : Text) :
    numericKey (c :: s) = (c :: (numericKey s).1, (numericKey s).2) := by
  rw [numericKey]
  simp [hc]

/-- Where there is no digit there is nothing to take out. -/
theorem numericKey_of_no_digit {s : Text} (h : ∀ c ∈ s, c.isDigit = false) :
    numericKey s = (s, []) := by
  induction s with
  | nil => rfl
  | cons c s ih =>
    obtain ⟨hc, hs⟩ := List.forall_mem_cons.mp h
    rw [numericKey_char hc, ih hs]

theorem numericKey_eq_self_iff {s : Text} :
    (numericKey s).1 = s ↔ ∀ c ∈ s, c.isDigit = false := by
  refine ⟨fun h c hc => ?_, fun h => congrArg Prod.fst (numericKey_of_no_digit h)⟩
  rw [← h] at hc
  exact isDigit_of_mem_numericKey hc

/-! ### The end of a reading -/

/-- A character that is no digit stays at the end. -/
theorem numericKey_concat {c : Char} (hc : c.isDigit = false) (s : Text) :
    numericKey (s ++ [c]) = ((numericKey s).1 ++ [c], (numericKey s).2) := by
  induction s with
  | nil =>
    show numericKey [c] = ([c], [])
    simp [numericKey, hc]
  | cons first s ih =>
    rw [List.cons_append, numericKey, ih, numericKey]
    dsimp only
    by_cases hfirst : first.isDigit = true
    · rw [if_pos hfirst, if_pos hfirst]
      cases s with
      | nil => rfl
      | cons d s =>
        rw [List.cons_append]
        cases (numericKey (d :: s)).2 with
        | nil => rfl
        | cons run runs =>
          dsimp only
          split
          · rfl
          · rfl
    · rw [if_neg hfirst, if_neg hfirst]
      rfl

/-- A digit at the end leaves a `#` there. -/
theorem exists_numericKey_concat_of_digit {c : Char} (hc : c.isDigit = true) (s : Text) :
    ∃ rest, (numericKey (s ++ [c])).1 = rest ++ ['#'] := by
  induction s with
  | nil =>
    refine ⟨[], ?_⟩
    show (numericKey [c]).1 = ['#']
    simp [numericKey, hc]
  | cons first s ih =>
    obtain ⟨rest, hrest⟩ := ih
    rw [List.cons_append]
    rcases numericKey_cons_cases first (s ++ [c]) with ⟨-, he⟩ | ⟨-, he | ⟨-, he⟩⟩
    · exact ⟨first :: rest, by rw [he, hrest]; rfl⟩
    · exact ⟨'#' :: rest, by rw [he, hrest]; rfl⟩
    · exact ⟨rest, by rw [he, hrest]⟩

/-! ### Headwords -/

/-- The last two characters tell a headword of inflected words. -/
theorem isOkuriHeadword_concat_concat (s : Text) (c d : Char) :
    isOkuriHeadword (s ++ [c] ++ [d]) = (d.isLower && decide (0x80 ≤ c.toNat)) := by
  simp [isOkuriHeadword]

theorem isOkuriHeadword_concat_of_not_lower {d : Char} (hd : d.isLower = false) (s : Text) :
    isOkuriHeadword (s ++ [d]) = false := by
  rcases List.eq_nil_or_concat s with rfl | ⟨s, c, rfl⟩
  · rfl
  · rw [List.concat_eq_append, isOkuriHeadword_concat_concat, hd, Bool.false_and]

theorem isOkuriHeadword_of_not_alpha {s : Text} (h : ∀ c ∈ s, c.isAlpha = false) :
    isOkuriHeadword s = false := by
  rcases List.eq_nil_or_concat s with rfl | ⟨s, c, rfl⟩
  · rfl
  rw [List.concat_eq_append] at h ⊢
  have hc : c.isAlpha = false := h c (List.mem_append_right s List.mem_cons_self)
  exact isOkuriHeadword_concat_of_not_lower (Bool.or_eq_false_iff.mp hc).2 s

theorem isLower_of_isDigit {c : Char} (h : c.isDigit = true) : c.isLower = false := by
  have hle : c.val ≤ 57 := of_decide_eq_true (Bool.and_eq_true_iff.mp h).2
  rw [← Bool.not_eq_true]
  intro hlower
  have hge : 97 ≤ c.val := of_decide_eq_true (Bool.and_eq_true_iff.mp hlower).1
  exact absurd (UInt32.le_trans hge hle) (by decide)

theorem not_le_toNat_of_isDigit {c : Char} (h : c.isDigit = true) : ¬ 0x80 ≤ c.toNat := by
  simp only [Char.isDigit, Bool.and_eq_true, decide_eq_true_eq] at h
  have hle : c.toNat ≤ 57 := h.2
  omega

/-- Numbers make no reading a headword of inflected words, nor keep one from being it. -/
theorem isOkuriHeadword_numericKey (s : Text) :
    isOkuriHeadword (numericKey s).1 = isOkuriHeadword s := by
  rcases List.eq_nil_or_concat s with rfl | ⟨s, d, rfl⟩
  · rfl
  rw [List.concat_eq_append]
  by_cases hd : d.isDigit = true
  · obtain ⟨rest, hrest⟩ := exists_numericKey_concat_of_digit hd s
    rw [hrest, isOkuriHeadword_concat_of_not_lower (by decide),
      isOkuriHeadword_concat_of_not_lower (isLower_of_isDigit hd)]
  rw [numericKey_concat (by simpa using hd)]
  dsimp only
  rcases List.eq_nil_or_concat s with rfl | ⟨s, c, rfl⟩
  · rfl
  rw [List.concat_eq_append, isOkuriHeadword_concat_concat]
  by_cases hc : c.isDigit = true
  · -- neither a digit nor what stands for it is a kana
    obtain ⟨rest, hrest⟩ := exists_numericKey_concat_of_digit hc s
    rw [hrest, isOkuriHeadword_concat_concat, decide_eq_false (not_le_toNat_of_isDigit hc)]
    rfl
  · rw [numericKey_concat (by simpa using hc)]
    exact isOkuriHeadword_concat_concat _ c d

/-! ### Class letters -/

theorem exists_okuriRow {c letter : Char} (h : okuriClass c = some letter) :
    ∃ row ∈ okuriRows, row.1 = letter ∧ c ∈ row.2 := by
  obtain ⟨row, hfind, hletter⟩ := Option.map_eq_some_iff.mp h
  have hcontains : row.2.contains c = true :=
    List.find?_some (p := fun row : Char × Text => row.2.contains c) hfind
  exact ⟨row, List.mem_of_find?_eq_some hfind, hletter, List.contains_iff_mem.mp hcontains⟩

theorem isLower_of_okuriClass {c letter : Char} (h : okuriClass c = some letter) :
    letter.isLower = true := by
  have hrows : ∀ row ∈ okuriRows, row.1.isLower = true := by decide
  obtain ⟨row, hrow, rfl, -⟩ := exists_okuriRow h
  exact hrows row hrow

/-- Of the hiragana letters ゐ, ゑ, ゕ and ゖ have no class letter, and no other character has
one. -/
theorem okuriClass_eq_none_iff (c : Char) :
    okuriClass c = none ↔ codeWithin c 0x3041 0x3096 = false ∨ c ∈ "ゐゑゕゖ".toList := by
  by_cases hletter : codeWithin c 0x3041 0x3096 = true
  · have hletters : ∀ n ∈ List.range' 0x3041 0x56,
        okuriClass (Char.ofNat n) = none ↔ Char.ofNat n ∈ "ゐゑゕゖ".toList := by
      decide +kernel
    have hmem : c.toNat ∈ List.range' 0x3041 0x56 := by
      simp only [codeWithin, Bool.and_eq_true, decide_eq_true_eq] at hletter
      rw [List.mem_range'_1]
      omega
    have hc := hletters _ hmem
    rw [Char.ofNat_toNat] at hc
    rw [hc, hletter]
    simp
  · have hrows : ∀ row ∈ okuriRows, (row.2.all fun d => codeWithin d 0x3041 0x3096) = true := by
      decide
    refine iff_of_true ?_ (Or.inl (by simpa using hletter))
    rw [Option.eq_none_iff_forall_ne_some]
    intro letter h
    obtain ⟨row, hrow, -, hmem⟩ := exists_okuriRow h
    exact hletter (List.all_eq_true.mp (hrows row hrow) c hmem)

namespace ConversionKey

variable {key : ConversionKey}

/-- The key of the stem alone. -/
def plain (key : ConversionKey) : ConversionKey where
  yomi := key.yomi

theorem headword_of_okuri {c : Char} {rest : Text} (h : key.okuri = c :: rest) :
    key.headword = key.plain.headword ++ (okuriClass c).toList := by
  simp [headword, classLetter?, plain, h]

/-- The headword of a key with okurigana is that of the stem when these have no class letter. -/
theorem headword_eq_plain_iff {c : Char} {rest : Text} (h : key.okuri = c :: rest) :
    key.headword = key.plain.headword ↔
      codeWithin c 0x3041 0x3096 = false ∨ c ∈ "ゐゑゕゖ".toList := by
  rw [headword_of_okuri h, ← okuriClass_eq_none_iff]
  cases okuriClass c <;> simp

/-- Otherwise it is that of the stem with a letter behind it. -/
theorem exists_headword_eq_concat {c : Char} {rest : Text} (h : key.okuri = c :: rest)
    (hne : key.headword ≠ key.plain.headword) :
    ∃ letter, letter.isLower = true ∧ key.headword = key.plain.headword ++ [letter] := by
  rw [headword_of_okuri h] at hne ⊢
  cases hclass : okuriClass c with
  | none =>
    rw [hclass] at hne
    exact absurd (List.append_nil _) hne
  | some letter => exact ⟨letter, isLower_of_okuriClass hclass, rfl⟩

theorem headword_of_no_okuri (h : key.okuri = []) : key.headword = (numericKey key.yomi).1 := by
  simp [headword, classLetter?, h]

theorem headword_ne_nil (h : key.yomi ≠ []) : key.headword ≠ [] :=
  List.append_ne_nil_of_left_ne_nil (numericKey_ne_nil h) _

/-- A key without okurigana is its own headword just when its reading has no digit. -/
theorem headword_eq_yomi_iff (h : key.okuri = []) :
    key.headword = key.yomi ↔ ∀ c ∈ key.yomi, c.isDigit = false := by
  rw [headword_of_no_okuri h]
  exact numericKey_eq_self_iff

end ConversionKey

end KanaKanji
