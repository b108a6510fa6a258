/-
Texts over an alphabet.

`Text.Over P s` says that a text has only characters of `P`.  An `Alphabet` has the characters that
the engine writes by itself, those that resolved romaji, headwords and written numbers need, and is
closed under the changes that the engine makes to characters.  Over an alphabet nothing leads out
of it:

* `ConversionKey.Over.headword`, `Candidate.Over.output`: what a key is looked up by, and what a
  candidate commits;
* `Shelf.Over.candidates`, `Shelf.Over.completions`: what is found in dictionaries;
* `Shelf.Over.registered`, `purge`, `purgeAt`: what is kept in them.
-/
import KanaKanji.Proofs.Dictionary.Candidates
import KanaKanji.Proofs.Dictionary.Completions
import KanaKanji.Proofs.Dictionary.Headword
import KanaKanji.Proofs.Dictionary.Writing
import KanaKanji.Proofs.Numeral.Decimal

namespace KanaKanji

/-! ### Texts -/

variable {P : Char → Prop}

namespace Text

/-- All characters of the text are of `P`. -/
def Over (P : Char → Prop) (s : Text) : Prop :=
  ∀ c ∈ s, P c

instance [DecidablePred P] (s : Text) : Decidable (Over P s) :=
  List.decidableBAll P s

@[simp] theorem over_nil : Over P [] :=
  fun _ hc => absurd hc List.not_mem_nil

@[simp] theorem over_cons {c : Char} {s : Text} : Over P (c :: s) ↔ P c ∧ Over P s :=
  List.forall_mem_cons

@[simp] theorem over_append {s t : Text} : Over P (s ++ t) ↔ Over P s ∧ Over P t :=
  List.forall_mem_append

theorem over_singleton {c : Char} (h : P c) : Over P [c] :=
  over_cons.mpr ⟨h, over_nil⟩

theorem Over.of_subset {s t : Text} (h : Over P t) (hsub : s ⊆ t) : Over P s :=
  fun c hc => h c (hsub hc)

theorem Over.take {s : Text} (h : Over P s) (n : Nat) : Over P (s.take n) :=
  h.of_subset (List.take_subset n s)

theorem Over.dropLast {s : Text} (h : Over P s) : Over P s.dropLast :=
  h.of_subset (List.dropLast_subset s)

theorem Over.map {s : Text} (h : Over P s) {f : Char → Char} (hf : ∀ c, P c → P (f c)) :
    Over P (s.map f) := by
  intro c hc
  obtain ⟨d, hd, rfl⟩ := List.mem_map.mp hc
  exact hf d (h d hd)

end Text

/-! ### Alphabets -/

/-- The characters that the engine writes by itself are of `P`, and so is what it makes of a
character of `P`. -/
structure Alphabet (P : Char → Prop) : Prop where
  /-- A held `n`. -/
  nasal : P 'ん'
  /-- A doubled consonant. -/
  double : P 'っ'
  /-- A number in a headword. -/
  hash : P '#'
  /-- The class letters of okurigana. -/
  letter : ∀ c, c.isLower = true → P c
  /-- Numbers in full width. -/
  digit : ∀ c ∈ "０１２３４５６７８９".toList, P c
  /-- Numbers in kanji. -/
  numeral : ∀ c ∈ "〇一二三四五六七八九十百千万億兆京".toList, P c
  toLower : ∀ c, P c → P c.toLower
  fullWidth : ∀ c, P c → P (fullWidth c)
  katakana : ∀ c, P c → P (katakanaChar c)
  hiragana : ∀ c, P c → P (hiraganaChar c)

namespace Alphabet

variable (hP : Alphabet P)
include hP

/-! #### Numbers -/

theorem over_kanjiDigit (d : Nat) : P (kanjiDigit d) := by
  have hmem : kanjiDigit d ∈ kanjiDigits := by
    unfold kanjiDigit
    rw [List.getD_eq_getElem?_getD]
    cases hd : kanjiDigits[d]? with
    | none => decide
    | some c => exact List.mem_of_getElem? hd
  have hsub : kanjiDigits ⊆ "〇一二三四五六七八九十百千万億兆京".toList := by decide
  exact hP.numeral _ (hsub hmem)

theorem over_placeUnit (place : Nat) : Text.Over P (placeUnit place) := by
  unfold placeUnit
  split
  · simpa using hP.numeral '十' (by decide)
  · simpa using hP.numeral '百' (by decide)
  · simpa using hP.numeral '千' (by decide)
  · exact Text.over_nil

theorem over_groupUnit (group : Nat) : Text.Over P (groupUnit group) := by
  unfold groupUnit
  split
  · simpa using hP.numeral '万' (by decide)
  · simpa using hP.numeral '億' (by decide)
  · simpa using hP.numeral '兆' (by decide)
  · simpa using hP.numeral '京' (by decide)
  · exact Text.over_nil

theorem over_placeNumeral (d place : Nat) : Text.Over P (placeNumeral d place) := by
  unfold placeNumeral
  split
  · exact Text.over_nil
  · rw [Text.over_append]
    refine ⟨?_, hP.over_placeUnit place⟩
    split
    · exact Text.over_nil
    · simpa using hP.over_kanjiDigit d

theorem over_placesNumeral (digits : Text) (inGroup : Bool) :
    Text.Over P (placesNumeral digits inGroup) := by
  induction digits generalizing inGroup with
  | nil => exact Text.over_nil
  | cons c rest ih =>
    unfold placesNumeral
    dsimp only
    rw [Text.over_append]
    refine ⟨hP.over_placeNumeral _ _, ?_⟩
    split
    · rw [Text.over_append]
      refine ⟨?_, ih false⟩
      split
      · exact hP.over_groupUnit _
      · exact Text.over_nil
    · exact ih _

theorem over_fullWidthDigits {s : Text} (h : Text.Over P s) : Text.Over P (fullWidthDigits s) := by
  refine h.map fun c hc => ?_
  split
  · rename_i hdigit
    have hdigits : ∀ d < 10, Char.ofNat ('０'.toNat + d) ∈ "０１２３４５６７８９".toList := by
      decide
    exact hP.digit _ (hdigits _ (digitValue_lt_ten hdigit))
  · exact hc

theorem over_kanjiByDigit {s : Text} (h : Text.Over P s) : Text.Over P (kanjiByDigit s) := by
  refine h.map fun c hc => ?_
  split
  · exact hP.over_kanjiDigit _
  · exact hc

theorem over_kanjiNumeral {s : Text} (h : Text.Over P s) : Text.Over P (kanjiNumeral s) := by
  unfold kanjiNumeral
  dsimp only
  split
  · simpa using hP.over_kanjiDigit 0
  · split
    · exact hP.over_kanjiByDigit (h.of_subset (List.dropWhile_subset _))
    · exact hP.over_placesNumeral _ _

theorem over_write {s : Text} (h : Text.Over P s) (form : NumberForm) :
    Text.Over P (form.write s) := by
  cases form with
  | asTyped => exact h
  | fullWidth => exact hP.over_fullWidthDigits h
  | byDigit => exact hP.over_kanjiByDigit h
  | numeral => exact hP.over_kanjiNumeral h

/-- A surface with numbers in it has the characters of the surface and those of the numbers in the
forms that it asks for. -/
theorem over_expand {surface : Text} {numbers : List Text} (hsurface : Text.Over P surface)
    (hnumbers : ∀ number ∈ numbers, Text.Over P number) : Text.Over P (expand surface numbers) := by
  induction surface, numbers using expand.induct with
  | case1 d s number numbers form hform ih =>
    simp only [Text.over_cons, List.forall_mem_cons] at hsurface hnumbers
    simp only [expand, hform, Text.over_append]
    exact ⟨hP.over_write hnumbers.1 form, ih hsurface.2.2 hnumbers.2⟩
  | case2 c d s number numbers hform ih =>
    rw [Text.over_cons] at hsurface
    rw [expand.eq_2 _ _ _ _ _ hform, Text.over_cons]
    exact ⟨hsurface.1, ih hsurface.2 hnumbers⟩
  | case3 s numbers hshort =>
    rw [expand.eq_3 _ _ hshort]
    exact hsurface

/-- The headword of a reading has `#` for what it does not have of the reading, and the numbers are
parts of the reading. -/
theorem over_numericKey {s : Text} (h : Text.Over P s) :
    Text.Over P (numericKey s).1 ∧ ∀ number ∈ (numericKey s).2, Text.Over P number := by
  induction s with
  | nil => exact ⟨Text.over_nil, fun _ hnumber => absurd hnumber List.not_mem_nil⟩
  | cons c s ih =>
    rw [Text.over_cons] at h
    obtain ⟨hkey, hnumbers⟩ := ih h.2
    -- a digit that begins a number has `#` in the headword, and the number to itself
    have hdigit : Text.Over P ('#' :: (numericKey s).1) ∧
        ∀ number ∈ [c] :: (numericKey s).2, Text.Over P number :=
      ⟨Text.over_cons.mpr ⟨hP.hash, hkey⟩,
        List.forall_mem_cons.mpr ⟨Text.over_cons.mpr ⟨h.1, Text.over_nil⟩, hnumbers⟩⟩
    unfold numericKey
    dsimp only
    split
    · split
      · rename_i d s run runs heq
        rw [heq] at hnumbers
        rw [List.forall_mem_cons] at hnumbers
        split
        · -- the digit goes on with the first number
          refine ⟨hkey, List.forall_mem_cons.mpr ⟨?_, hnumbers.2⟩⟩
          exact Text.over_cons.mpr ⟨h.1, hnumbers.1⟩
        · rw [heq] at hdigit
          rw [heq]
          exact hdigit
      · exact hdigit
    · exact ⟨Text.over_cons.mpr ⟨h.1, hkey⟩, hnumbers⟩

end Alphabet

/-! ### Keys and candidates -/

/-- All parts of the key are over `P`. -/
structure ConversionKey.Over (P : Char → Prop) (key : ConversionKey) : Prop where
  yomi : Text.Over P key.yomi
  okuri : Text.Over P key.okuri
  suffix : Text.Over P key.suffix

/-- The key and the surface of the candidate are over `P`. -/
structure Candidate.Over (P : Char → Prop) (candidate : Candidate) : Prop where
  key : candidate.key.Over P
  surface : Text.Over P candidate.entry.surface

theorem ConversionKey.Over.text {key : ConversionKey} (h : key.Over P) :
    Text.Over P key.text := by
  rw [ConversionKey.text, Text.over_append, Text.over_append]
  exact ⟨⟨h.yomi, h.okuri⟩, h.suffix⟩

/-- A plain key is over an alphabet that has its reading. -/
theorem ConversionKey.over_plain {yomi : Text} (h : Text.Over P yomi) :
    ConversionKey.Over P { yomi := yomi } :=
  ⟨h, Text.over_nil, Text.over_nil⟩

section

variable (hP : Alphabet P)
include hP

/-- **What a key is looked up by** is over the alphabet. -/
theorem ConversionKey.Over.headword {key : ConversionKey} (h : key.Over P) :
    Text.Over P key.headword := by
  rw [ConversionKey.headword, Text.over_append]
  refine ⟨(hP.over_numericKey h.yomi).1, ?_⟩
  cases hletter : key.classLetter? with
  | none => exact Text.over_nil
  | some letter =>
    obtain ⟨kana, -, hclass⟩ := Option.bind_eq_some_iff.mp hletter
    exact Text.over_cons.mpr ⟨hP.letter letter (isLower_of_okuriClass hclass), Text.over_nil⟩

/-- **What a candidate commits** is over the alphabet. -/
theorem Candidate.Over.output {candidate : Candidate} (h : candidate.Over P) :
    Text.Over P candidate.output := by
  rw [Candidate.output, Text.over_append, Text.over_append]
  refine ⟨⟨?_, h.key.okuri⟩, h.key.suffix⟩
  exact hP.over_expand h.surface (hP.over_numericKey h.key.yomi).2

end

/-! ### Dictionaries -/

namespace Shelf

variable {shelf after : Shelf} {layers : Layers} {place : Nat} {reading surface : Text}
  {entry : Entry}

/-- All readings of the dictionaries and all surfaces under them are over `P`. -/
def Over (P : Char → Prop) (shelf : Shelf) : Prop :=
  ∀ place reading, ∀ entry ∈ shelf.lookupAt place reading,
    Text.Over P reading ∧ Text.Over P entry.surface

/-- It is enough to look at the groups of the dictionaries. -/
theorem over_of_groups (h : ∀ d ∈ shelf, ∀ group ∈ d.words.items,
    Text.Over P group.1 ∧ ∀ entry ∈ group.2, Text.Over P entry.surface) : shelf.Over P := by
  intro place reading entry hentry
  unfold lookupAt Dictionary.lookup Headwords.lookup at hentry
  cases hd : shelf[place]? with
  | none =>
    rw [hd] at hentry
    exact absurd hentry List.not_mem_nil
  | some d =>
    rw [hd] at hentry
    cases hfind : d.words.find? reading with
    | none =>
      simp only [Option.map_some, Option.getD_some, hfind, Option.getD_none] at hentry
      exact absurd hentry List.not_mem_nil
    | some entries =>
      simp only [Option.map_some, Option.getD_some, hfind] at hentry
      obtain ⟨hreading, hentries⟩ :=
        h d (List.mem_of_getElem? hd) (reading, entries) (Index.mem_items_iff.mpr hfind)
      exact ⟨hreading, hentries entry hentry⟩

/-! #### What is found -/

theorem Over.lookup (h : shelf.Over P) (hentry : entry ∈ (shelf.select layers).lookup reading) :
    Text.Over P reading ∧ Text.Over P entry.surface := by
  rw [lookup_select] at hentry
  obtain ⟨place, -, hplace⟩ := List.mem_flatMap.mp (Entry.mem_of_mem_distinct hentry)
  exact h place reading entry hplace

theorem Over.candidates (h : shelf.Over P) {key : ConversionKey} (hkey : key.Over P) :
    ∀ candidate ∈ (shelf.select layers).candidates key, candidate.Over P := by
  intro candidate hcandidate
  obtain ⟨entry, hentry, rfl⟩ := List.mem_map.mp hcandidate
  exact ⟨hkey, (h.lookup hentry).2⟩

theorem Over.completions (h : shelf.Over P) {stem : Text} {limit : Nat} :
    ∀ candidate ∈ (shelf.select layers).completions stem limit, candidate.Over P := by
  intro candidate hcandidate
  obtain ⟨hplain, -, hentry⟩ := Layered.entry_mem_lookup hcandidate
  obtain ⟨hreading, hsurface⟩ := h.lookup hentry
  refine ⟨?_, hsurface⟩
  rw [hplain]
  exact ConversionKey.over_plain hreading

/-! #### What is kept -/

theorem Over.registered (h : shelf.Over P) (hafter : Registered shelf after place reading entry)
    (hreading : Text.Over P reading) (hsurface : Text.Over P entry.surface) :
    after.Over P := by
  intro other text found hfound
  by_cases hp : other = place
  · subst hp
    by_cases ht : text = reading
    · subst ht
      rw [hafter.front] at hfound
      rcases List.mem_cons.mp hfound with rfl | hold
      · exact ⟨hreading, hsurface⟩
      · exact h other text found (List.mem_filter.mp hold).1
    · rw [hafter.others text ht] at hfound
      exact h other text found hfound
  · rw [hafter.lookupAt_of_ne hp] at hfound
    exact h other text found hfound

/-- A purge leaves entries that were there. -/
theorem Over.purge (h : shelf.Over P) (layers : Layers) (reading surface : Text) :
    Over P (shelf.purge layers reading surface).2 := by
  intro place text found hfound
  rw [lookupAt_purge] at hfound
  split at hfound
  · rename_i hwritten
    rw [hwritten.2]
    exact h place reading found (List.mem_filter.mp hfound).1
  · exact h place text found hfound

theorem Over.purgeAt (h : shelf.Over P) {removed : Bool}
    (hok : shelf.purgeAt place reading surface = .ok (removed, after)) : after.Over P := by
  rcases purgeAt_cases shelf place reading surface with
    ⟨d, purged, found, hd, -, hpurged, he⟩ | ⟨-, e, he⟩
  · obtain ⟨-, rfl⟩ := Prod.mk.inj (Except.ok.inj (he.symm.trans hok))
    intro other text entry hentry
    -- only one reading at one place has lost entries
    by_cases hp : other = place
    · subst hp
      have hold := h other text
      rw [lookupAt_of_getElem? hd] at hold
      rw [lookupAt_set_self hd] at hentry
      by_cases ht : text = reading
      · subst ht
        rw [hpurged.self] at hentry
        exact hold entry (List.mem_filter.mp hentry).1
      · rw [hpurged.others text ht] at hentry
        exact hold entry hentry
    · rw [lookupAt_set_of_ne hp] at hentry
      exact h other text entry hentry
  · exact nomatch he.symm.trans hok

end Shelf

end KanaKanji
