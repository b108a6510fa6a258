/-
Reading kanji numerals.

`numeralValue?` reads a numeral by the rules for writing one, and takes nothing else: digits from
一 to 九, each alone or in front of a unit, a unit of a place without a digit for one of it, places
and groups from the highest to the lowest, and no group without a place.  `Tally.step` is the rule
for one character.

* `placesNumeral_append`: a numeral is what its groups of four places make, each with its unit;
* `Tally.read_groupNumeral`, `Tally.read_placesNumeral`: a group is read to its value, and so are
  all groups together;
* `Tally.isChain_of_read`, `Tally.zero_notMem_of_read`: what is read is written by the rules.
-/
import KanaKanji.Proofs.Numeral.Decimal
import Mathlib.Data.List.Chain

namespace KanaKanji

/-! ### Reading numerals -/

/-- What a character of a numeral stands for. -/
inductive NumeralSign
  | digit (value : Nat)
  | place (weight : Nat)
  | group (weight : Nat)
  deriving DecidableEq, Repr

/-- The sign of a character.  No numeral but zero has a 〇. -/
def NumeralSign.ofChar? : Char → Option NumeralSign
  | '一' => some (digit 1)
  | '二' => some (digit 2)
  | '三' => some (digit 3)
  | '四' => some (digit 4)
  | '五' => some (digit 5)
  | '六' => some (digit 6)
  | '七' => some (digit 7)
  | '八' => some (digit 8)
  | '九' => some (digit 9)
  | '十' => some (place 10)
  | '百' => some (place 100)
  | '千' => some (place 1000)
  | '万' => some (group (10 ^ 4))
  | '億' => some (group (10 ^ 8))
  | '兆' => some (group (10 ^ 12))
  | '京' => some (group (10 ^ 16))
  | _ => none

/-- What is known of a number as its numeral is read. -/
structure Tally where
  /-- The value of the groups that had their unit. -/
  groups : Nat := 0
  /-- The value of the places of the group after them. -/
  places : Nat := 0
  /-- A digit that had no unit yet. -/
  digit : Option Nat := none

namespace Tally

/-- The value of the last group. -/
def group (t : Tally) : Nat :=
  t.places + t.digit.getD 0

/-- The value of what was read. -/
def total (t : Tally) : Nat :=
  t.groups + t.group

/-- One character.  A digit comes where none waits for its unit, and a unit is below those in front
of it; that of a place has no 一 before it, and that of a group has something to count. -/
def step (t : Tally) (c : Char) : Option Tally :=
  match NumeralSign.ofChar? c with
  | some (.digit d) => if t.digit = none then some { t with digit := some d } else none
  | some (.place weight) =>
    if 10 * weight ∣ t.places ∧ t.digit ≠ some 1 then
      some { t with places := t.places + t.digit.getD 1 * weight, digit := none }
    else none
  | some (.group weight) =>
    if 10000 * weight ∣ t.groups ∧ t.group ≠ 0 then
      some { groups := t.groups + t.group * weight }
    else none
  | none => none

/-- Character after character. -/
def read (t : Tally) (s : Text) : Option Tally :=
  s.foldlM step t

end Tally

/-- The value of a numeral; of no other text. -/
def numeralValue? (s : Text) : Option Nat :=
  if s = ['〇'] then some 0 else ((Tally.read {} s).map Tally.total).filter (0 < ·)

/-! ### Signs -/

theorem sign_kanjiDigit {d : Nat} (hne : d ≠ 0) (hd : d < 10) :
    NumeralSign.ofChar? (kanjiDigit d) = some (.digit d) := by
  have hdigits : ∀ d < 10, d ≠ 0 → NumeralSign.ofChar? (kanjiDigit d) = some (.digit d) := by
    decide
  exact hdigits d hd hne

theorem exists_placeUnit {place : Nat} (hne : place ≠ 0) (hlt : place < 4) :
    ∃ unit, placeUnit place = [unit] ∧
      NumeralSign.ofChar? unit = some (.place (10 ^ place)) := by
  obtain rfl | rfl | rfl : place = 1 ∨ place = 2 ∨ place = 3 := by omega
  · exact ⟨'十', rfl, rfl⟩
  · exact ⟨'百', rfl, rfl⟩
  · exact ⟨'千', rfl, rfl⟩

theorem exists_groupUnit {k : Nat} (hne : k ≠ 0) (hlt : k < 5) :
    ∃ unit, groupUnit k = [unit] ∧ NumeralSign.ofChar? unit = some (.group (10000 ^ k)) := by
  obtain rfl | rfl | rfl | rfl : k = 1 ∨ k = 2 ∨ k = 3 ∨ k = 4 := by omega
  · exact ⟨'万', rfl, rfl⟩
  · exact ⟨'億', rfl, rfl⟩
  · exact ⟨'兆', rfl, rfl⟩
  · exact ⟨'京', rfl, rfl⟩

theorem groupUnit_eq_nil {k : Nat} (h : k = 0 ∨ 5 ≤ k) : groupUnit k = [] := by
  rcases h with rfl | h
  · rfl
  · obtain ⟨n, rfl⟩ := Nat.exists_eq_add_of_le' h
    rfl

theorem sign_of_mem_groupUnit {c : Char} {k : Nat} (h : c ∈ groupUnit k) :
    NumeralSign.ofChar? c = some (.group (10000 ^ k)) := by
  by_cases hk : k ≠ 0 ∧ k < 5
  · obtain ⟨unit, hunit, hsign⟩ := exists_groupUnit hk.1 hk.2
    rw [hunit, List.mem_singleton] at h
    rw [h, hsign]
  · rw [groupUnit_eq_nil (by omega)] at h
    exact absurd h List.not_mem_nil

/-- The units of groups differ. -/
theorem mem_groupUnit_iff {c : Char} {j k : Nat} (h : c ∈ groupUnit k) :
    c ∈ groupUnit j ↔ j = k := by
  refine ⟨fun hj => ?_, fun hj => hj ▸ h⟩
  have hsigns := (sign_of_mem_groupUnit hj).symm.trans (sign_of_mem_groupUnit h)
  simp only [Option.some.injEq, NumeralSign.group.injEq] at hsigns
  exact Nat.pow_right_injective (by omega) hsigns

namespace Tally

variable {t u : Tally} {c : Char} {s : Text}

theorem step_digit {d : Nat} (hsign : NumeralSign.ofChar? c = some (.digit d))
    (ht : t.digit = none) : t.step c = some { t with digit := some d } := by
  rw [step, hsign]
  exact if_pos ht

theorem step_place {weight : Nat} (hsign : NumeralSign.ofChar? c = some (.place weight))
    (hdvd : 10 * weight ∣ t.places) (hone : t.digit ≠ some 1) :
    t.step c = some { t with places := t.places + t.digit.getD 1 * weight, digit := none } := by
  rw [step, hsign]
  exact if_pos ⟨hdvd, hone⟩

theorem step_group {weight : Nat} (hsign : NumeralSign.ofChar? c = some (.group weight))
    (hdvd : 10000 * weight ∣ t.groups) (hgroup : t.group ≠ 0) :
    t.step c = some { groups := t.groups + t.group * weight } := by
  rw [step, hsign]
  exact if_pos ⟨hdvd, hgroup⟩

/-- A digit, and only another than zero, is taken where none waits for a unit. -/
theorem digit_of_step_kanjiDigit {d : Nat} (hd : d < 10) (h : t.step (kanjiDigit d) = some u) :
    d ≠ 0 ∧ t.digit = none ∧ u.digit = some d := by
  by_cases hzero : d = 0
  · subst hzero
    exact nomatch h
  · rw [step, sign_kanjiDigit hzero hd] at h
    by_cases hnone : t.digit = none
    · obtain rfl := Option.some.inj ((if_pos hnone).symm.trans h)
      exact ⟨hzero, hnone, rfl⟩
    · exact nomatch (if_neg hnone).symm.trans h

theorem step_place_of_one (hc : c ∈ "十百千".toList) (ht : t.digit = some 1) : t.step c = none := by
  obtain ⟨weight, hsign⟩ : ∃ weight, NumeralSign.ofChar? c = some (.place weight) := by
    obtain rfl | rfl | rfl : c = '十' ∨ c = '百' ∨ c = '千' := by simpa using hc
    · exact ⟨10, rfl⟩
    · exact ⟨100, rfl⟩
    · exact ⟨1000, rfl⟩
  rw [step, hsign]
  exact if_neg fun h => h.2 ht

theorem read_cons (t : Tally) (c : Char) (s : Text) :
    t.read (c :: s) = (t.step c).bind fun u => u.read s :=
  rfl

theorem read_append (t : Tally) (s rest : Text) :
    t.read (s ++ rest) = (t.read s).bind fun u => u.read rest :=
  List.foldlM_append

theorem read_cons_eq_some : t.read (c :: s) = some u ↔
    ∃ first, t.step c = some first ∧ first.read s = some u :=
  Option.bind_eq_some_iff

/-- What can be read has no 一 in front of the unit of a place. -/
theorem isChain_of_read (h : t.read s = some u) :
    s.IsChain fun c d => c = '一' → d ∉ "十百千".toList := by
  induction s generalizing t with
  | nil => exact List.isChain_nil
  | cons c s ih =>
    obtain ⟨first, hfirst, hrest⟩ := read_cons_eq_some.mp h
    cases s with
    | nil => exact List.isChain_singleton c
    | cons d s =>
      refine List.isChain_cons_cons.mpr ⟨?_, ih hrest⟩
      rintro rfl hd
      obtain ⟨second, hsecond, -⟩ := read_cons_eq_some.mp hrest
      obtain ⟨-, -, hone⟩ := digit_of_step_kanjiDigit (d := 1) (by omega) hfirst
      rw [step_place_of_one hd hone] at hsecond
      exact nomatch hsecond

/-- Nor has it a 〇. -/
theorem zero_notMem_of_read (h : t.read s = some u) : '〇' ∉ s := by
  induction s generalizing t with
  | nil => exact List.not_mem_nil
  | cons c s ih =>
    obtain ⟨first, hfirst, hrest⟩ := read_cons_eq_some.mp h
    refine List.not_mem_cons_of_ne_of_not_mem ?_ (ih hrest)
    rintro rfl
    exact nomatch hfirst

end Tally

/-! ### Groups of four places -/

variable {s group rest : Text}

/-- What holds of no digits, and is kept by a group in front of whole groups, holds of all
digits. -/
theorem groups_induction {P : Text → Prop} (nil : P [])
    (group : ∀ group rest, group ≠ [] → group.length ≤ 4 → 4 ∣ rest.length → P rest →
      P (group ++ rest))
    (s : Text) : P s := by
  induction hn : s.length using Nat.strong_induction_on generalizing s with
  | _ n ih =>
    by_cases hne : s = []
    · rw [hne]
      exact nil
    · have hpos : 0 < s.length := List.length_pos_iff.mpr hne
      -- the first group has the places that whole groups of four leave over
      have htake : (s.take ((s.length - 1) % 4 + 1)).length = (s.length - 1) % 4 + 1 := by
        rw [List.length_take]
        omega
      have hdrop : (s.drop ((s.length - 1) % 4 + 1)).length = (s.length - 1) / 4 * 4 := by
        rw [List.length_drop]
        omega
      rw [← List.take_append_drop ((s.length - 1) % 4 + 1) s]
      refine group _ _ ?_ (by omega) ⟨(s.length - 1) / 4, by omega⟩ (ih _ (by omega) _ rfl)
      exact List.ne_nil_of_length_pos (by omega)

/-- The places of one group. -/
def groupNumeral : Text → Text
  | [] => []
  | c :: rest => placeNumeral (digitValue c) rest.length ++ groupNumeral rest

/-- **A numeral is what its groups make**, each behind its places with its unit, unless it has no
place. -/
theorem placesNumeral_append (hgroup : ∀ c ∈ group, c.isDigit = true) (hne : group ≠ [])
    (hlength : group.length ≤ 4) (hrest : 4 ∣ rest.length) (inGroup : Bool) :
    placesNumeral (group ++ rest) inGroup = groupNumeral group ++
      ((if inGroup = true ∨ decimal group ≠ 0 then groupUnit (rest.length / 4) else []) ++
        placesNumeral rest false) := by
  induction group generalizing inGroup with
  | nil => exact absurd rfl hne
  | cons c group ih =>
    obtain ⟨hc, hgroup⟩ := List.forall_mem_cons.mp hgroup
    rw [List.length_cons] at hlength
    rw [List.cons_append, placesNumeral, groupNumeral, List.append_assoc]
    have hplace : (group ++ rest).length % 4 = group.length := by
      rw [List.length_append]
      omega
    have hvalue : (inGroup || digitValue c != 0) = true ∨ decimal group ≠ 0 ↔
        inGroup = true ∨ decimal (c :: group) ≠ 0 := by
      rw [Bool.or_eq_true, bne_iff_ne, or_assoc, ne_eq (decimal (c :: group)), decimal_cons_eq_zero,
        Decidable.not_and_iff_not_or_not]
    rw [hplace]
    congr 1
    cases group with
    | nil =>
      rw [if_pos List.length_nil, ← if_congr hvalue rfl rfl]
      simp [groupNumeral]
    | cons d group =>
      rw [if_neg (by simp), ih hgroup (List.cons_ne_nil d group) (by omega),
        if_congr hvalue rfl rfl]

theorem decimal_group_append {k : Nat} (group : Text) (hrest : rest.length = 4 * k) :
    decimal (group ++ rest) = decimal group * 10000 ^ k + decimal rest := by
  rw [decimal_append, hrest, Nat.pow_mul]

/-- A group of zeros has no place. -/
theorem groupNumeral_eq_nil (h : decimal group = 0) : groupNumeral group = [] := by
  induction group with
  | nil => rfl
  | cons c group ih =>
    obtain ⟨hzero, hrest⟩ := decimal_cons_eq_zero.mp h
    rw [groupNumeral, hzero, ih hrest]
    rfl

/-! ### Reading groups -/

namespace Tally

variable {t : Tally}

/-- A place adds its value. -/
theorem read_placeNumeral {d place : Nat} (hd : d < 10) (hne : place ≠ 0) (hlt : place < 4)
    (hdvd : 10 ^ (place + 1) ∣ t.places) (ht : t.digit = none) :
    t.read (placeNumeral d place) = some { t with places := t.places + d * 10 ^ place } := by
  obtain ⟨unit, hunit, hsign⟩ := exists_placeUnit hne hlt
  rw [Nat.pow_succ'] at hdvd
  by_cases hzero : d = 0
  · rw [placeNumeral, if_pos hzero, hzero, Nat.zero_mul]
    rfl
  rw [placeNumeral, if_neg hzero, hunit]
  by_cases hone : d = 1
  · rw [if_pos ⟨hone, hne⟩, List.nil_append, read_cons, step_place hsign hdvd (by simp [ht]), ht,
      hone]
    rfl
  · rw [if_neg fun h => hone h.1, List.singleton_append, read_cons,
      step_digit (sign_kanjiDigit hzero hd) ht, Option.bind_some, read_cons,
      step_place (t := { t with digit := some d }) hsign hdvd (by simpa using hone), ht]
    rfl

/-- **A group is read to its value.** -/
theorem read_groupNumeral (hgroup : ∀ c ∈ group, c.isDigit = true) (hlength : group.length ≤ 4)
    (hdvd : 10 ^ group.length ∣ t.places) (ht : t.digit = none) :
    ∃ u, t.read (groupNumeral group) = some u ∧ u.groups = t.groups ∧
      u.group = t.places + decimal group := by
  induction group generalizing t with
  | nil => exact ⟨t, rfl, rfl, by simp [Tally.group, ht]⟩
  | cons c group ih =>
    obtain ⟨hc, hgroup⟩ := List.forall_mem_cons.mp hgroup
    have hd := digitValue_lt_ten hc
    rw [List.length_cons] at hlength hdvd
    rw [groupNumeral, decimal_cons]
    by_cases hlast : group = []
    · -- the digit of the last place waits for the unit of the group
      subst hlast
      by_cases hzero : digitValue c = 0
      · exact ⟨t, by rw [hzero]; rfl, rfl, by simp [Tally.group, ht, hzero]⟩
      · refine ⟨{ t with digit := some (digitValue c) }, ?_, rfl, by simp [Tally.group]⟩
        have hnumeral : placeNumeral (digitValue c) 0 = [kanjiDigit (digitValue c)] := by
          simp [placeNumeral, hzero, placeUnit]
        rw [List.length_nil, hnumeral, groupNumeral, List.append_nil, read_cons,
          step_digit (sign_kanjiDigit hzero hd) ht]
        rfl
    · have hpos : 0 < group.length := List.length_pos_iff.mpr hlast
      have hplaces : 10 ^ group.length ∣ t.places + digitValue c * 10 ^ group.length :=
        Nat.dvd_add (Nat.dvd_trans (Nat.pow_dvd_pow 10 (Nat.le_succ _)) hdvd) (Nat.dvd_mul_left _ _)
      obtain ⟨u, hread, hgroups, hvalue⟩ :=
        ih (t := { t with places := t.places + digitValue c * 10 ^ group.length }) hgroup (by omega)
          hplaces ht
      refine ⟨u, ?_, hgroups, by rw [hvalue, Nat.add_assoc]⟩
      rw [read_append, read_placeNumeral hd (by omega) (by omega) hdvd ht]
      exact hread

/-- **So are all groups together.**  Those in front are above them. -/
theorem read_placesNumeral (hs : ∀ c ∈ s, c.isDigit = true) (hlength : s.length ≤ 20)
    {groups : Nat} (hdvd : 10000 ^ ((s.length + 3) / 4) ∣ groups) :
    ∃ u, Tally.read { groups := groups } (placesNumeral s false) = some u ∧
      u.total = groups + decimal s := by
  induction s using groups_induction generalizing groups with
  | nil => exact ⟨{ groups := groups }, rfl, rfl⟩
  | group group rest hne hlen hfour ih =>
    obtain ⟨hgroup, hrest⟩ := List.forall_mem_append.mp hs
    obtain ⟨k, hk⟩ := hfour
    have hpos : 0 < group.length := List.length_pos_iff.mpr hne
    have hindex : rest.length / 4 = k := by omega
    have hfirst : ((group ++ rest).length + 3) / 4 = k + 1 := by
      rw [List.length_append]
      omega
    have hothers : (rest.length + 3) / 4 = k := by omega
    rw [List.length_append] at hlength
    rw [hfirst, Nat.pow_succ'] at hdvd
    rw [hothers] at ih
    have hbelow : 10000 ^ k ∣ groups := Nat.dvd_trans (Nat.dvd_mul_left _ _) hdvd
    rw [placesNumeral_append hgroup hne hlen ⟨k, hk⟩, hindex, decimal_group_append group hk]
    obtain ⟨u, hread, hgroups, hvalue⟩ :=
      read_groupNumeral (t := { groups := groups }) hgroup hlen (Nat.dvd_zero _) rfl
    by_cases hzero : decimal group = 0
    · -- nothing is written
      rw [groupNumeral_eq_nil hzero, hzero, if_neg (by simp)]
      simpa using ih hrest (by omega) hbelow
    rw [if_pos (Or.inr hzero), read_append, hread, Option.bind_some]
    have hgroupValue : u.group = decimal group := hvalue.trans (Nat.zero_add _)
    by_cases hlast : k = 0
    · -- the last group has no unit
      subst hlast
      obtain rfl : rest = [] := List.eq_nil_of_length_eq_zero (by omega)
      refine ⟨u, rfl, ?_⟩
      rw [Tally.total, hgroups, hgroupValue]
      simp
    · obtain ⟨unit, hunit, hsign⟩ := exists_groupUnit hlast (show k < 5 by omega)
      rw [hunit, List.singleton_append, read_cons,
        step_group hsign (by rw [hgroups]; exact hdvd) (by rw [hgroupValue]; exact hzero),
        Option.bind_some, hgroups, hgroupValue, ← Nat.add_assoc]
      exact ih hrest (by omega) (Nat.dvd_add hbelow (Nat.dvd_mul_left _ _))

end Tally

end KanaKanji
