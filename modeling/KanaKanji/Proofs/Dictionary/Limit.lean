/-
What a limit leaves of the completions.

The limit is put on all readings under a stem, and only then are the headwords of inflected words
passed over.  So these take up places:

* `Layered.wordsOf_take_plainReadings`: the words that a limit on the plain readings would leave
  are the completions and, behind them, the words of as many plain readings as places were taken up;
* `Layered.completions_full_iff`: so nothing is missing exactly when no inflected headword is among
  the first readings, or no plain one behind them.
-/
import KanaKanji.Proofs.Dictionary.Merge
import KanaKanji.Proofs.Dictionary.Tidy

namespace KanaKanji

/-! ### Cutting off and choosing -/

section Cutting

variable {α : Type} {p : α → Bool} {xs : List α} {n : Nat}

/-- Choosing first leaves room for more than cutting off first: what is chosen behind the cut. -/
theorem take_filter_eq_append (p : α → Bool) (xs : List α) (n : Nat) :
    (xs.filter p).take n = (xs.take n).filter p ++
      ((xs.drop n).filter p).take (n - ((xs.take n).filter p).length) := by
  have hshort : ((xs.take n).filter p).length ≤ n :=
    Nat.le_trans (List.length_filter_le p _) (List.length_take_le n xs)
  conv_lhs => rw [← List.take_append_drop n xs, List.filter_append, List.take_append]
  rw [List.take_of_length_le hshort]

/-- Nothing more is chosen exactly when all before the cut was, or nothing behind it. -/
theorem take_filter_drop_eq_nil_iff :
    ((xs.drop n).filter p).take (n - ((xs.take n).filter p).length) = [] ↔
      (∀ x ∈ xs.take n, p x = true) ∨ ∀ x ∈ xs.drop n, p x = false := by
  constructor
  · intro h
    rcases List.take_eq_nil_iff.mp h with hfull | hnone
    · left
      -- so many are chosen before the cut as there may be
      have hall : ((xs.take n).filter p).length = (xs.take n).length := by
        have hle := List.length_filter_le p (xs.take n)
        have hcut := List.length_take_le n xs
        omega
      exact List.length_filter_eq_length_iff.mp hall
    · right
      simpa [List.filter_eq_nil_iff] using hnone
  · rintro (hall | hnone)
    · rw [List.filter_eq_self.mpr hall, List.length_take]
      rcases Nat.le_total n xs.length with hn | hn
      · rw [Nat.min_eq_left hn, Nat.sub_self]
        rfl
      · -- the list ends before the cut
        rw [List.drop_of_length_le hn]
        exact List.take_nil
    · have hnil : (xs.drop n).filter p = [] := by
        rw [List.filter_eq_nil_iff]
        intro x hx
        rw [hnone x hx]
        exact Bool.false_ne_true
      rw [hnil]
      exact List.take_nil

end Cutting

namespace Layered

variable {layers : Layered} {stem : Text} {limit : Nat}

/-! ### Words of readings -/

/-- A reading that is no headword of inflected words. -/
def isPlain (reading : Text) : Bool :=
  !isOkuriHeadword reading

/-- The plain readings of the layers that start with a stem, in order. -/
def plainReadings (layers : Layered) (stem : Text) : List Text :=
  (layers.readings stem).filter isPlain

/-- What is looked up for each of some readings, as candidates with these readings. -/
def wordsOf (layers : Layered) (readings : List Text) : List Candidate :=
  readings.flatMap fun reading =>
    (layers.lookup reading).map fun entry => ⟨{ yomi := reading }, entry⟩

theorem wordsOf_append (layers : Layered) (first second : List Text) :
    layers.wordsOf (first ++ second) = layers.wordsOf first ++ layers.wordsOf second :=
  List.flatMap_append

/-- Tidy layers keep no reading without entries. -/
theorem lookup_ne_nil (htidy : ∀ d ∈ layers, d.words.Tidy) {reading : Text}
    (h : reading ∈ layers.readings stem) : layers.lookup reading ≠ [] := by
  obtain ⟨-, d, hd, hfind⟩ := mem_readings.mp h
  obtain ⟨entries, hentries⟩ := Option.ne_none_iff_exists'.mp hfind
  have hitem : (reading, entries) ∈ d.words.items := Index.mem_items_iff.mpr hentries
  have hlookup : d.lookup reading = entries := Headwords.lookup_of_mem hitem
  obtain ⟨entry, hentry⟩ := List.exists_mem_of_ne_nil _ ((htidy d hd).entries _ hitem)
  -- the surface of one of its entries is not lost in putting the layers together
  have hlists : Entry.lists (layers.lookup reading) entry.surface = true := by
    rw [lookup, Entry.lists_distinct, Entry.lists_iff]
    refine List.mem_map_of_mem (List.mem_flatMap.mpr ⟨d, hd, ?_⟩)
    rw [hlookup]
    exact hentry
  intro hnil
  rw [hnil] at hlists
  exact nomatch hlists

theorem wordsOf_eq_nil_iff (htidy : ∀ d ∈ layers, d.words.Tidy) {readings : List Text}
    (h : readings ⊆ layers.readings stem) : layers.wordsOf readings = [] ↔ readings = [] := by
  constructor
  · intro hnil
    rw [List.eq_nil_iff_forall_not_mem]
    intro reading hreading
    have hwords := List.flatMap_eq_nil_iff.mp hnil reading hreading
    exact lookup_ne_nil htidy (h hreading) (List.map_eq_nil_iff.mp hwords)
  · rintro rfl
    rfl

/-! ### Completions -/

/-- The completions are the words of the plain readings among the first of all readings. -/
theorem completions_eq_wordsOf (hstem : stem ≠ []) :
    layers.completions stem limit
      = layers.wordsOf (((layers.readings stem).take limit).filter isPlain) := by
  rw [completions, if_neg (by simpa using hstem), complete_eq_readings, List.filter_map,
    List.flatMap_map]
  rfl

/-- A limit on the plain readings would leave the completions, and more behind them. -/
theorem wordsOf_take_plainReadings (layers : Layered) (limit : Nat) (hstem : stem ≠ []) :
    layers.wordsOf ((layers.plainReadings stem).take limit) = layers.completions stem limit ++
      layers.wordsOf ((((layers.readings stem).drop limit).filter isPlain).take
        (limit - (((layers.readings stem).take limit).filter isPlain).length)) := by
  rw [completions_eq_wordsOf hstem, ← wordsOf_append, plainReadings, take_filter_eq_append]

/-- **Headwords of inflected words use the limit up.**  The completions are the words of the plain
readings among the first of all readings under the stem, in their order; they are the first of what
a limit on the plain readings would leave.  They are all of it exactly when the first readings are
all plain or no plain one comes behind them; and there are none exactly when no plain one is among
the first. -/
theorem completions_full_iff (layers : Layered) (stem : Text) (limit : Nat)
    (htidy : ∀ d ∈ layers, d.words.Tidy) (hstem : stem ≠ []) :
    let first := (layers.readings stem).take limit
    let rest := (layers.readings stem).drop limit
    let full := layers.wordsOf ((layers.plainReadings stem).take limit)
    layers.completions stem limit = layers.wordsOf (first.filter isPlain) ∧
      layers.completions stem limit <+: full ∧
      (layers.completions stem limit = full ↔
        (∀ reading ∈ first, isOkuriHeadword reading = false) ∨
          ∀ reading ∈ rest, isOkuriHeadword reading = true) ∧
      (layers.completions stem limit = [] ↔
        ∀ reading ∈ first, isOkuriHeadword reading = true) := by
  intro first rest full
  have hfull := wordsOf_take_plainReadings layers limit hstem
  refine ⟨completions_eq_wordsOf hstem, ⟨_, hfull.symm⟩, ?_, ?_⟩
  · have hmissing : ((rest.filter isPlain).take (limit - (first.filter isPlain).length))
        ⊆ layers.readings stem := fun reading h =>
      List.mem_of_mem_drop (List.mem_filter.mp (List.mem_of_mem_take h)).1
    show layers.completions stem limit
      = layers.wordsOf ((layers.plainReadings stem).take limit) ↔ _
    rw [hfull, List.self_eq_append_right, wordsOf_eq_nil_iff htidy hmissing,
      take_filter_drop_eq_nil_iff]
    simp only [isPlain, Bool.not_eq_true', Bool.not_eq_false']
    rfl
  · have hfirst : first.filter isPlain ⊆ layers.readings stem := fun reading h =>
      List.mem_of_mem_take (List.mem_filter.mp h).1
    rw [completions_eq_wordsOf hstem, wordsOf_eq_nil_iff htidy hfirst, List.filter_eq_nil_iff]
    simp only [isPlain, Bool.not_eq_true', Bool.not_eq_false]

/-- か, かき and the inflected かk in two layers: with two places か is all that is offered, with
three かき is offered too. -/
theorem completions_full_kaki :
    let entry : String → Entry := fun s => { surface := s.toList }
    let system := Dictionary.fixed Dictionary.systemName
      [("かき".toList, [entry "柿", entry "牡蠣"]), ("かk".toList, [entry "書"])]
    let user := Dictionary.user Dictionary.userName [("か".toList, [entry "蚊"])]
    let layers : Layered := [user, system]
    (∀ d ∈ layers, d.words.Tidy) ∧ "か".toList ≠ [] ∧
      layers.completions "か".toList 2 <+:
        layers.wordsOf ((layers.plainReadings "か".toList).take 2) ∧
      layers.completions "か".toList 2
        ≠ layers.wordsOf ((layers.plainReadings "か".toList).take 2) ∧
      layers.completions "か".toList 3
        = layers.wordsOf ((layers.plainReadings "か".toList).take 3) := by
  intro entry system user layers
  have htidy : ∀ d ∈ layers, d.words.Tidy := by
    intro d hd
    rcases List.mem_pair.mp hd with rfl | rfl
    · exact Headwords.tidy_ofWords _
    · exact Headwords.tidy_ofGroups _
  have hstem : "か".toList ≠ [] := by decide
  obtain ⟨-, hbeginning, htwo, -⟩ := completions_full_iff layers "か".toList 2 htidy hstem
  obtain ⟨-, -, hthree, -⟩ := completions_full_iff layers "か".toList 3 htidy hstem
  refine ⟨htidy, hstem, hbeginning, fun h => ?_, hthree.mpr ?_⟩
  · exact absurd (htwo.mp h) (by decide +kernel)
  · decide +kernel

/-- With one place nothing completes か although かき is listed: the inflected かk takes it. -/
theorem completions_used_up :
    let entry : String → Entry := fun s => { surface := s.toList }
    let layers : Layered := [Dictionary.fixed Dictionary.systemName
      [("かk".toList, [entry "書"]), ("かき".toList, [entry "柿"])]]
    layers.plainReadings "か".toList = ["かき".toList] ∧
      layers.wordsOf ((layers.plainReadings "か".toList).take 1)
        = [⟨{ yomi := "かき".toList }, entry "柿"⟩] ∧
      layers.completions "か".toList 1 = [] := by
  decide +kernel

end Layered

end KanaKanji
