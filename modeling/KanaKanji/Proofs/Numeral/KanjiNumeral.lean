/-
Kanji numerals denote the number typed.

* `kanjiNumeral?_eq`: no table of characters is asked for one that it does not have;
* `mem_placesNumeral_iff`: a unit is written for each group that is not zero;
* `numeralValue?_kanjiNumeral`, `kanjiNumeral_regular`: a numeral is read to the number, and is
  written by the rules;
* `numeralValue?_kanjiByDigit`: no text of more than one digit is read, so that no number has a
  numeral that another one has digit by digit;
* `kanjiNumeral_faithful`: what all this says of numerals, whatever digits were typed.
-/
import KanaKanji.Proofs.Numeral.Tally
import Mathlib.Tactic.Ring

namespace KanaKanji

/-! ### Tables -/

/-- The units of the four places, as a table. -/
def placeUnits : List Text :=
  [[], ['十'], ['百'], ['千']]

/-- The units of the five groups, as a table. -/
def groupUnits : List Text :=
  [[], ['万'], ['億'], ['兆'], ['京']]

/-- `placeNumeral` where a table may lack what is asked for. -/
def placeNumeral? (d place : Nat) : Option Text :=
  if d = 0 then some []
  else do
    let unit ← placeUnits[place]?
    if d = 1 ∧ place ≠ 0 then return unit
    let digit ← kanjiDigits[d]?
    return digit :: unit

/-- `placesNumeral` where a table may lack what is asked for. -/
def placesNumeral? : Text → Bool → Option Text
  | [], _ => some []
  | c :: rest, inGroup => do
    let place := rest.length % 4
    let d := digitValue c
    let inGroup := inGroup || d != 0
    let here ← placeNumeral? d place
    if place = 0 then
      let unit ← if inGroup then groupUnits[rest.length / 4]? else some []
      let others ← placesNumeral? rest false
      return here ++ (unit ++ others)
    else
      let others ← placesNumeral? rest inGroup
      return here ++ others

/-- `kanjiByDigit` where the table may lack a digit. -/
def kanjiByDigit? (s : Text) : Option Text :=
  s.mapM fun c => if c.isDigit then kanjiDigits[digitValue c]? else some c

/-- `kanjiNumeral` where a table may lack what is asked for. -/
def kanjiNumeral? (s : Text) : Option Text :=
  let digits := s.dropWhile (· == '0')
  if digits.isEmpty then kanjiDigits[0]?.map fun zero => [zero]
  else if maxPlaces < digits.length || !digits.all Char.isDigit then kanjiByDigit? digits
  else placesNumeral? digits false

variable {s group rest : Text}

theorem kanjiDigits_getElem? {d : Nat} (hd : d < 10) : kanjiDigits[d]? = some (kanjiDigit d) := by
  have hdigits : ∀ d < 10, kanjiDigits[d]? = some (kanjiDigit d) := by decide
  exact hdigits d hd

theorem placeUnits_getElem? {place : Nat} (hlt : place < 4) :
    placeUnits[place]? = some (placeUnit place) := by
  have hplaces : ∀ place < 4, placeUnits[place]? = some (placeUnit place) := by decide
  exact hplaces place hlt

theorem groupUnits_getElem? {k : Nat} (hlt : k < 5) : groupUnits[k]? = some (groupUnit k) := by
  have hgroups : ∀ k < 5, groupUnits[k]? = some (groupUnit k) := by decide
  exact hgroups k hlt

theorem placeNumeral?_eq {d place : Nat} (hd : d < 10) (hlt : place < 4) :
    placeNumeral? d place = some (placeNumeral d place) := by
  rw [placeNumeral?, placeNumeral, placeUnits_getElem? hlt, kanjiDigits_getElem? hd]
  split
  · rfl
  · split
    · rfl
    · rfl

theorem placesNumeral?_eq (hs : ∀ c ∈ s, c.isDigit = true) (hlength : s.length ≤ 20)
    (inGroup : Bool) : placesNumeral? s inGroup = some (placesNumeral s inGroup) := by
  induction s generalizing inGroup with
  | nil => rfl
  | cons c s ih =>
    obtain ⟨hc, hs⟩ := List.forall_mem_cons.mp hs
    rw [List.length_cons] at hlength
    have hrest := ih hs (by omega)
    have hplace : s.length % 4 < 4 := Nat.mod_lt _ (by omega)
    have hunit : groupUnits[s.length / 4]? = some (groupUnit (s.length / 4)) :=
      groupUnits_getElem? (by omega)
    rw [placesNumeral?, placesNumeral, placeNumeral?_eq (digitValue_lt_ten hc) hplace]
    dsimp only
    rw [hunit, hrest, hrest]
    split
    · split
      · rfl
      · rfl
    · rfl

theorem kanjiByDigit?_eq (s : Text) : kanjiByDigit? s = some (kanjiByDigit s) := by
  have hdigit : (fun c : Char => if c.isDigit then kanjiDigits[digitValue c]? else some c) =
      fun c => pure (if c.isDigit then kanjiDigit (digitValue c) else c) := by
    funext c
    split
    · rename_i hc
      exact kanjiDigits_getElem? (digitValue_lt_ten hc)
    · rfl
  rw [kanjiByDigit?, hdigit, List.mapM_pure]
  rfl

/-- **No table is asked for a character that it does not have**, whatever the text. -/
theorem kanjiNumeral?_eq (s : Text) : kanjiNumeral? s = some (kanjiNumeral s) := by
  rw [kanjiNumeral?, kanjiNumeral]
  split
  · rfl
  · split
    · exact kanjiByDigit?_eq _
    · rename_i hshort
      rw [Bool.or_eq_true, not_or, Bool.not_eq_true', Bool.not_eq_false, List.all_eq_true,
        decide_eq_true_eq] at hshort
      exact placesNumeral?_eq hshort.2 (Nat.le_of_not_lt hshort.1) false

/-! ### Units of groups -/

theorem sign_of_mem_placeNumeral {c : Char} {d place : Nat} (hd : d < 10) (hlt : place < 4)
    (h : c ∈ placeNumeral d place) :
    NumeralSign.ofChar? c = some (.digit d) ∨
      NumeralSign.ofChar? c = some (.place (10 ^ place)) := by
  by_cases hzero : d = 0
  · rw [placeNumeral, if_pos hzero] at h
    exact absurd h List.not_mem_nil
  rw [placeNumeral, if_neg hzero, List.mem_append] at h
  rcases h with h | h
  · split at h
    · exact absurd h List.not_mem_nil
    · rw [List.mem_singleton.mp h]
      exact Or.inl (sign_kanjiDigit hzero hd)
  · by_cases hne : place = 0
    · rw [hne] at h
      exact absurd h List.not_mem_nil
    · obtain ⟨unit, hunit, hsign⟩ := exists_placeUnit hne hlt
      rw [hunit] at h
      rw [List.mem_singleton.mp h]
      exact Or.inr hsign

/-- No unit of a group is among the places. -/
theorem groupUnit_notMem_groupNumeral (hgroup : ∀ c ∈ group, c.isDigit = true)
    (hlength : group.length ≤ 4) {unit : Char} {k : Nat} (hunit : unit ∈ groupUnit k) :
    unit ∉ groupNumeral group := by
  induction group with
  | nil => exact List.not_mem_nil
  | cons c group ih =>
    obtain ⟨hc, hgroup⟩ := List.forall_mem_cons.mp hgroup
    rw [List.length_cons] at hlength
    intro h
    rcases List.mem_append.mp h with h | h
    · have hsigns := sign_of_mem_placeNumeral (digitValue_lt_ten hc) (by omega) h
      simp [sign_of_mem_groupUnit hunit] at hsigns
    · exact ih hgroup (by omega) h

/-- What a group in front of `k` groups adds to them. -/
theorem group_of_append {value others j k : Nat} (hvalue : value < 10000)
    (hothers : others < 10000 ^ j) :
    (value * 10000 ^ j + others) / 10000 ^ k % 10000 =
      if j = k then value else others / 10000 ^ k % 10000 := by
  have hpos : ∀ n, 0 < 10000 ^ n := fun n => Nat.pow_pos (by omega)
  rcases Nat.lt_trichotomy k j with hlt | rfl | hlt
  · obtain ⟨n, rfl⟩ := Nat.exists_eq_add_of_lt hlt
    have hsplit : value * 10000 ^ (k + n + 1) = 10000 ^ k * (value * 10000 ^ n * 10000) := by ring
    rw [if_neg (by omega), hsplit, Nat.mul_add_div (hpos k), Nat.mul_add_mod']
  · rw [if_pos rfl, Nat.mul_comm, Nat.mul_add_div (hpos k), Nat.div_eq_of_lt hothers, Nat.add_zero,
      Nat.mod_eq_of_lt hvalue]
  · have hall : value * 10000 ^ j + others < 10000 ^ k := by
      calc value * 10000 ^ j + others < (value + 1) * 10000 ^ j := by rw [Nat.add_mul]; omega
        _ ≤ 10000 * 10000 ^ j := Nat.mul_le_mul_right _ hvalue
        _ = 10000 ^ (j + 1) := (Nat.pow_succ').symm
        _ ≤ 10000 ^ k := Nat.pow_le_pow_right (by omega) hlt
    rw [if_neg (by omega), Nat.div_eq_of_lt hall, Nat.div_eq_of_lt (by omega)]

/-- **A unit is written for each group that is not zero.** -/
theorem mem_placesNumeral_iff (hs : ∀ c ∈ s, c.isDigit = true) {unit : Char} {k : Nat}
    (hunit : unit ∈ groupUnit k) :
    unit ∈ placesNumeral s false ↔ decimal s / 10000 ^ k % 10000 ≠ 0 := by
  induction s using groups_induction with
  | nil => simp [placesNumeral]
  | group group rest hne hlength hfour ih =>
    obtain ⟨hgroup, hrest⟩ := List.forall_mem_append.mp hs
    obtain ⟨j, hj⟩ := hfour
    have hvalue : decimal group < 10000 :=
      Nat.lt_of_lt_of_le (decimal_lt hgroup) (Nat.pow_le_pow_right (by omega) hlength)
    have hothers : decimal rest < 10000 ^ j := by
      have hlt := decimal_lt hrest
      rwa [hj, Nat.pow_mul] at hlt
    have hindex : rest.length / 4 = j := by omega
    rw [placesNumeral_append hgroup hne hlength ⟨j, hj⟩, hindex, List.mem_append, List.mem_append,
      decimal_group_append group hj, group_of_append hvalue hothers, ih hrest,
      or_iff_right (groupUnit_notMem_groupNumeral hgroup hlength hunit)]
    by_cases hjk : j = k
    · -- the groups behind are below the unit
      rw [hjk] at hothers ⊢
      rw [if_pos rfl, Nat.div_eq_of_lt hothers]
      by_cases hzero : decimal group = 0
      · simp [hzero]
      · simp [hzero, hunit]
    · have hother : unit ∉ groupUnit j := fun h => hjk ((mem_groupUnit_iff hunit).mp h)
      rw [if_neg hjk, or_iff_right]
      split
      · exact hother
      · exact List.not_mem_nil

/-! ### Digit by digit -/

/-- The digits can be told from the kanji. -/
theorem decimal_kanjiByDigit (hs : ∀ c ∈ s, c.isDigit = true) :
    decimal s = Nat.ofDigits 10 ((kanjiByDigit s).map kanjiDigits.idxOf).reverse := by
  have hindex : ∀ d < 10, kanjiDigits.idxOf (kanjiDigit d) = d := by decide
  have hmap : (kanjiByDigit s).map kanjiDigits.idxOf = s.map digitValue := by
    rw [kanjiByDigit, List.map_map]
    refine List.map_congr_left fun c hc => ?_
    rw [Function.comp_apply, if_pos (hs c hc)]
    exact hindex _ (digitValue_lt_ten (hs c hc))
  rw [hmap]
  rfl

/-- Two digits in a row, or a 〇 among other characters, are no numeral. -/
theorem numeralValue?_kanjiByDigit (hs : ∀ c ∈ s, c.isDigit = true) (hlength : 2 ≤ s.length) :
    numeralValue? (kanjiByDigit s) = none := by
  obtain _ | ⟨c, _ | ⟨d, rest⟩⟩ := s
  · simp at hlength
  · simp at hlength
  have hc : c.isDigit = true := hs c List.mem_cons_self
  have hd : d.isDigit = true := hs d (List.mem_cons_of_mem c List.mem_cons_self)
  have hform : kanjiByDigit (c :: d :: rest) =
      kanjiDigit (digitValue c) :: kanjiDigit (digitValue d) :: kanjiByDigit rest := by
    simp [kanjiByDigit, hc, hd]
  have hread : Tally.read {} (kanjiByDigit (c :: d :: rest)) = none := by
    rw [hform, Option.eq_none_iff_forall_ne_some]
    intro u h
    obtain ⟨first, hfirst, h⟩ := Tally.read_cons_eq_some.mp h
    obtain ⟨second, hsecond, -⟩ := Tally.read_cons_eq_some.mp h
    obtain ⟨-, -, hdigit⟩ := Tally.digit_of_step_kanjiDigit (digitValue_lt_ten hc) hfirst
    obtain ⟨-, hnone, -⟩ := Tally.digit_of_step_kanjiDigit (digitValue_lt_ten hd) hsecond
    rw [hnone] at hdigit
    exact nomatch hdigit
  rw [numeralValue?, hread, if_neg (by rw [hform]; simp)]
  rfl

/-! ### Numerals -/

theorem kanjiNumeral_eq (s : Text) :
    kanjiNumeral s =
      if (significant s).isEmpty then [kanjiDigit 0]
      else if maxPlaces < (significant s).length || !(significant s).all Char.isDigit then
        kanjiByDigit (significant s)
      else placesNumeral (significant s) false :=
  rfl

theorem kanjiNumeral_of_zeros (h : significant s = []) : kanjiNumeral s = ['〇'] := by
  rw [kanjiNumeral_eq, h]
  rfl

theorem kanjiNumeral_of_short (hs : ∀ c ∈ s, c.isDigit = true) (hne : significant s ≠ [])
    (hlength : (significant s).length ≤ 20) :
    kanjiNumeral s = placesNumeral (significant s) false := by
  have hall : (significant s).all Char.isDigit = true :=
    List.all_eq_true.mpr (isDigit_of_mem_significant hs)
  rw [kanjiNumeral_eq, if_neg (by simpa using hne), if_neg]
  rw [hall, maxPlaces]
  simpa using hlength

theorem kanjiNumeral_of_long (hlength : 20 < (significant s).length) :
    kanjiNumeral s = kanjiByDigit (significant s) := by
  have hne : significant s ≠ [] := List.ne_nil_of_length_pos (by omega)
  rw [kanjiNumeral_eq, if_neg (by simpa using hne), if_pos]
  rw [maxPlaces, decide_eq_true hlength, Bool.true_or]

/-- **A numeral is read to the number typed.** -/
theorem numeralValue?_kanjiNumeral (hs : ∀ c ∈ s, c.isDigit = true)
    (hlength : (significant s).length ≤ 20) :
    numeralValue? (kanjiNumeral s) = some (decimal s) := by
  by_cases hne : significant s = []
  · rw [kanjiNumeral_of_zeros hne, (decimal_eq_zero_iff hs).mpr hne]
    rfl
  · obtain ⟨u, hread, htotal⟩ := Tally.read_placesNumeral (isDigit_of_mem_significant hs) hlength
      (Nat.dvd_zero _)
    have hnot : placesNumeral (significant s) false ≠ ['〇'] := by
      intro h
      exact Tally.zero_notMem_of_read hread (h ▸ List.mem_singleton_self '〇')
    rw [Nat.zero_add, decimal_significant] at htotal
    have hpos : 0 < decimal s := Nat.pos_of_ne_zero fun h => hne ((decimal_eq_zero_iff hs).mp h)
    rw [kanjiNumeral_of_short hs hne hlength, numeralValue?, if_neg hnot, hread, Option.map_some,
      htotal, Option.filter_some, if_pos (by simpa using hpos)]

/-- **It is written by the rules**: no 一 in front of the unit of a place, a unit just for each
group that is not zero, and 〇 just for zero. -/
theorem kanjiNumeral_regular (hs : ∀ c ∈ s, c.isDigit = true)
    (hlength : (significant s).length ≤ 20) :
    ((kanjiNumeral s).IsChain fun c d => c = '一' → d ∉ "十百千".toList) ∧
      (∀ k, ∀ unit ∈ groupUnit k, unit ∈ kanjiNumeral s ↔ decimal s / 10000 ^ k % 10000 ≠ 0) ∧
      ('〇' ∈ kanjiNumeral s ↔ decimal s = 0) := by
  by_cases hne : significant s = []
  · have hzero : decimal s = 0 := (decimal_eq_zero_iff hs).mpr hne
    rw [kanjiNumeral_of_zeros hne, hzero]
    refine ⟨List.isChain_singleton _, fun k unit hunit => ?_, by simp⟩
    have hother : unit ≠ '〇' := by
      rintro rfl
      exact nomatch sign_of_mem_groupUnit hunit
    simpa using hother
  · obtain ⟨u, hread, -⟩ := Tally.read_placesNumeral (isDigit_of_mem_significant hs) hlength
      (Nat.dvd_zero _)
    rw [kanjiNumeral_of_short hs hne hlength]
    refine ⟨Tally.isChain_of_read hread, fun k unit hunit => ?_, ?_⟩
    · rw [mem_placesNumeral_iff (isDigit_of_mem_significant hs) hunit, decimal_significant]
    · exact iff_of_false (Tally.zero_notMem_of_read hread)
        fun h => hne ((decimal_eq_zero_iff hs).mp h)

/-- A long form is no numeral, so that it is none of a number with fewer digits. -/
theorem kanjiNumeral_ne_of_long {t : Text} (hs : ∀ c ∈ s, c.isDigit = true)
    (ht : ∀ c ∈ t, c.isDigit = true) (hshort : (significant s).length ≤ 20)
    (hlong : 20 < (significant t).length) : kanjiNumeral s ≠ kanjiNumeral t := by
  intro h
  have hread := numeralValue?_kanjiNumeral hs hshort
  rw [h, kanjiNumeral_of_long hlong,
    numeralValue?_kanjiByDigit (isDigit_of_mem_significant ht) (by omega)] at hread
  exact nomatch hread

/-- **Numbers are told apart by their numerals.** -/
theorem kanjiNumeral_eq_iff {t : Text} (hs : ∀ c ∈ s, c.isDigit = true)
    (ht : ∀ c ∈ t, c.isDigit = true) : kanjiNumeral s = kanjiNumeral t ↔ decimal s = decimal t := by
  constructor
  · intro h
    rcases Nat.lt_or_ge 20 (significant s).length with hlong | hshort
    · rcases Nat.lt_or_ge 20 (significant t).length with hlong' | hshort'
      · rw [kanjiNumeral_of_long hlong, kanjiNumeral_of_long hlong'] at h
        rw [← decimal_significant s, ← decimal_significant t,
          decimal_kanjiByDigit (isDigit_of_mem_significant hs),
          decimal_kanjiByDigit (isDigit_of_mem_significant ht), h]
      · exact absurd h.symm (kanjiNumeral_ne_of_long ht hs hshort' hlong)
    · rcases Nat.lt_or_ge 20 (significant t).length with hlong' | hshort'
      · exact absurd h (kanjiNumeral_ne_of_long hs ht hshort hlong')
      · have hread := numeralValue?_kanjiNumeral hs hshort
        rw [h, numeralValue?_kanjiNumeral ht hshort'] at hread
        exact (Option.some.inj hread).symm
  · intro h
    rw [kanjiNumeral_eq, kanjiNumeral_eq, significant_inj hs ht h]

/-- **Kanji numerals denote the number typed.**

* Writing one asks no table for a character that it does not have.
* With up to 20 digits behind the leading zeros the rules for numerals read it to the number, it
  has no 一 in front of 十, 百 and 千, a unit just for each group that is not zero, and 〇 just for
  zero.
* With more digits it has one kanji for each of them.
* Two texts of digits have one numeral just when they denote one number. -/
theorem kanjiNumeral_faithful :
    (∀ s, kanjiNumeral? s = some (kanjiNumeral s)) ∧
    (∀ s : Text, (∀ c ∈ s, c.isDigit = true) → (significant s).length ≤ 20 →
      numeralValue? (kanjiNumeral s) = some (decimal s) ∧
      ((kanjiNumeral s).IsChain fun c d => c = '一' → d ∉ "十百千".toList) ∧
      (∀ k, ∀ unit ∈ groupUnit k, unit ∈ kanjiNumeral s ↔ decimal s / 10000 ^ k % 10000 ≠ 0) ∧
      ('〇' ∈ kanjiNumeral s ↔ decimal s = 0)) ∧
    (∀ s : Text, (∀ c ∈ s, c.isDigit = true) → 20 < (significant s).length →
      kanjiNumeral s = kanjiByDigit (significant s)) ∧
    ∀ s t : Text, (∀ c ∈ s, c.isDigit = true) → (∀ c ∈ t, c.isDigit = true) →
      (kanjiNumeral s = kanjiNumeral t ↔ decimal s = decimal t) := by
  refine ⟨kanjiNumeral?_eq, fun s hs hlength => ?_, fun s _ hlength => ?_, fun s t hs ht => ?_⟩
  · exact ⟨numeralValue?_kanjiNumeral hs hlength, kanjiNumeral_regular hs hlength⟩
  · exact kanjiNumeral_of_long hlength
  · exact kanjiNumeral_eq_iff hs ht

theorem kanjiNumeral_faithful_10034 :
    numeralValue? "一万三十四".toList = some 10034 ∧
      ('万' ∈ "一万三十四".toList ↔ 10034 / 10000 ^ 1 % 10000 ≠ 0) ∧
      ('億' ∈ "一万三十四".toList ↔ 10034 / 10000 ^ 2 % 10000 ≠ 0) ∧
      kanjiNumeral (List.replicate 21 '1') = List.replicate 21 '一' ∧
      kanjiNumeral "0010034".toList = kanjiNumeral "10034".toList := by
  have hs : ∀ c ∈ "0010034".toList, c.isDigit = true := List.all_eq_true.mp (by decide)
  have ht : ∀ c ∈ "10034".toList, c.isDigit = true := List.all_eq_true.mp (by decide)
  have hlong : ∀ c ∈ List.replicate 21 '1', c.isDigit = true :=
    List.all_eq_true.mp (by decide)
  have hform : kanjiNumeral "0010034".toList = "一万三十四".toList := by decide
  have hvalue : decimal "0010034".toList = 10034 := by decide
  obtain ⟨-, hread, hdigits, hsame⟩ := kanjiNumeral_faithful
  obtain ⟨hnumber, -, hunits, -⟩ := hread "0010034".toList hs (by decide)
  rw [hform, hvalue] at hnumber hunits
  refine ⟨hnumber, hunits 1 '万' (by decide), hunits 2 '億' (by decide), ?_, ?_⟩
  · exact hdigits (List.replicate 21 '1') hlong (by decide)
  · exact (hsame _ _ hs ht).mpr (by decide)

end KanaKanji
