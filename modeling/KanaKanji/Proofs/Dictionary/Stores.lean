/-
The two stores of words: dictionaries that stay as they are, and dictionaries that are written to.

The first take their groups one by one, the second take word after word, and they look for what is
empty or twice at different places.  From the same groups they come to the same headwords:

* `Headwords.lookup_ofGroups`: a reading lists what the groups say of it, of each surface the first;
* `Headwords.ofGroups_eq_ofWords`: group by group or word by word makes no difference;
* `Headwords.sorted_of_perm`, `Headwords.mapped_of_perm`: a store that does not keep its groups in
  order may sort those that are asked for, or put them into an index, whatever order it has them in;
* `Dictionary.stores_agree`: the stores look up and complete the same, and keep nothing empty and
  nothing twice.
-/
import KanaKanji.Proofs.Dictionary.Tidy
import KanaKanji.Proofs.Text.Index

namespace KanaKanji

namespace Headwords

/-! ### From groups and from words -/

/-- What a group says of a reading: its entries if it is the reading's, those that have a
surface. -/
def entriesFor (group : Group) (reading : Text) : List Entry :=
  if group.1 = reading ∧ reading ≠ [] then group.2.filter fun entry => !entry.surface.isEmpty
  else []

/-- What groups say of a reading. -/
def entriesIn (groups : List Group) (reading : Text) : List Entry :=
  groups.flatMap fun group => entriesFor group reading

theorem lookup_addGroup (words : Headwords) (group : Group) (reading : Text) :
    (words.addGroup group).lookup reading
      = (entriesFor group reading).foldl Entry.addLast (words.lookup reading) := by
  simp only [addGroup, entriesFor, List.isEmpty_iff]
  by_cases hreading : group.1 = reading
  · subst hreading
    by_cases hempty : group.1 = []
    · rw [if_pos hempty, if_neg fun hall => hall.2 hempty]
      rfl
    · rw [if_neg hempty, if_pos ⟨rfl, hempty⟩, lookup_change_self]
  · have hother : ¬ (group.1 = reading ∧ reading ≠ []) := fun hall => hreading hall.1
    rw [if_neg hother]
    split
    · rfl
    · exact lookup_change_of_ne (Ne.symm hreading) words _

/-- **A reading lists what the groups say of it**, of each surface the first. -/
theorem lookup_ofGroups (groups : List Group) (reading : Text) :
    (ofGroups groups).lookup reading = Entry.distinct (entriesIn groups reading) := by
  have general : ∀ (groups : List Group) (words : Headwords),
      lookup (groups.foldl addGroup words) reading
        = (entriesIn groups reading).foldl Entry.addLast (words.lookup reading) := by
    intro groups
    induction groups with
    | nil => exact fun words => rfl
    | cons group groups ih =>
      intro words
      rw [List.foldl_cons, ih, lookup_addGroup, ← List.foldl_append]
      rfl
  exact general groups Index.empty

/-- The words of a group say the same as the group. -/
theorem entriesOf_wordsOfGroup (group : Group) (reading : Text) :
    entriesOf (group.2.map fun entry => (group.1, entry)) reading = entriesFor group reading := by
  rw [entriesOf, List.filterMap_map, entriesFor]
  by_cases hgroup : group.1 = reading ∧ reading ≠ []
  · obtain ⟨rfl, hnamed⟩ := hgroup
    rw [if_pos ⟨rfl, hnamed⟩, ← List.filterMap_eq_filter]
    refine List.filterMap_congr fun entry _ => ?_
    simp [Option.guard, hnamed]
  · rw [if_neg hgroup, List.filterMap_eq_nil_iff]
    intro entry _
    refine if_neg ?_
    rintro ⟨rfl, hnamed, -⟩
    exact hgroup ⟨rfl, hnamed⟩

theorem entriesOf_wordsOfGroups (groups : List Group) (reading : Text) :
    entriesOf (wordsOfGroups groups) reading = entriesIn groups reading := by
  rw [entriesOf, wordsOfGroups, List.filterMap_flatMap]
  exact List.flatMap_congr fun group _ => entriesOf_wordsOfGroup group reading

/-- **Group by group or word by word makes no difference.** -/
theorem ofGroups_eq_ofWords (groups : List Group) :
    ofGroups groups = ofWords (wordsOfGroups groups) := by
  refine (tidy_ofGroups groups).ext (tidy_ofWords _) fun reading => ?_
  rw [lookup_ofGroups, lookup_ofWords, entriesOf_wordsOfGroups]

/-! ### Completing in any order -/

/-- The first groups with a stem, found by sorting. -/
def sorted (groups : List Group) (stem : Text) (limit : Nat) : List Group :=
  ((groups.filter fun group => stem.isPrefixOf group.1).mergeSort Index.notAfter).take limit

/-- The first groups with a stem, found by putting them into an index. -/
def mapped (groups : List Group) (stem : Text) (limit : Nat) : List Group :=
  (Index.ofList (groups.filter fun group => stem.isPrefixOf group.1)).items.take limit

theorem sorted_of_perm {words : Headwords} {groups : List Group} (h : groups.Perm words.items)
    (stem : Text) (limit : Nat) : sorted groups stem limit = words.complete stem limit := by
  rw [sorted, Index.mergeSort_of_perm (Layered.ascending_startingWith words stem) (h.filter _)]
  rfl

theorem mapped_of_perm {words : Headwords} {groups : List Group} (h : groups.Perm words.items)
    (stem : Text) (limit : Nat) : mapped groups stem limit = words.complete stem limit := by
  rw [mapped, Index.items_ofList_of_perm (Layered.ascending_startingWith words stem) (h.filter _)]
  rfl

end Headwords

namespace Dictionary

/-- **The two stores agree.**  Whatever the groups are, a dictionary that stays as it is and one
that can be written to look up the same, which is what the groups say; they complete the same, in
whatever order they hold their groups, the one by an index and the other by sorting; and neither
keeps an empty reading, a reading without entries, an empty surface or a surface twice. -/
theorem stores_agree (name other : Text) (groups : List Group) :
    let readOnly := Dictionary.fixed name groups
    let writable := Dictionary.user other groups
    (∀ reading, readOnly.lookup reading = writable.lookup reading ∧
      readOnly.lookup reading = Entry.distinct (Headwords.entriesIn groups reading)) ∧
    (∀ stem limit, readOnly.complete stem limit = writable.complete stem limit) ∧
    (∀ held, held.Perm readOnly.words.items → ∀ stem limit,
      readOnly.complete stem limit = Headwords.mapped held stem limit) ∧
    (∀ held, held.Perm writable.words.items → ∀ stem limit,
      writable.complete stem limit = Headwords.sorted held stem limit) ∧
    readOnly.words.Tidy ∧ writable.words.Tidy := by
  intro readOnly writable
  have hwords : readOnly.words = writable.words := Headwords.ofGroups_eq_ofWords groups
  refine ⟨fun reading => ⟨?_, Headwords.lookup_ofGroups groups reading⟩, fun stem limit => ?_,
    fun held hperm stem limit => (Headwords.mapped_of_perm hperm stem limit).symm,
    fun held hperm stem limit => (Headwords.sorted_of_perm hperm stem limit).symm,
    Headwords.tidy_ofGroups groups, Headwords.tidy_ofWords _⟩
  · rw [Dictionary.lookup, hwords, Dictionary.lookup]
  · rw [Dictionary.complete, hwords, Dictionary.complete]

/-- Of か, which comes twice and with surfaces that are empty or come again, 蚊 and 火 are kept, and
of き, which has none, nothing.  A store that holds くち in front of か completes か first. -/
theorem stores_agree_repeated :
    let entry : String → Entry := fun s => { surface := s.toList }
    let groups : List Group := [("か".toList, [entry "蚊", entry "", entry "蚊"]), ("き".toList, []),
      ("".toList, [entry "空"]), ("くち".toList, [entry "口"]), ("か".toList, [entry "火", entry "蚊"])]
    let held : List Group := [("くち".toList, [entry "口"]), ("か".toList, [entry "蚊", entry "火"])]
    held.Perm (Dictionary.fixed [] groups).words.items ∧
      held.Perm (Dictionary.user [] groups).words.items ∧
      Headwords.mapped held [] 1 = [("か".toList, [entry "蚊", entry "火"])] ∧
      Headwords.sorted held [] 1 = [("か".toList, [entry "蚊", entry "火"])] := by
  intro entry groups held
  obtain ⟨-, hcomplete, hmapped, hsorted, -⟩ := stores_agree [] [] groups
  have hfixed : held.Perm (Dictionary.fixed [] groups).words.items := by decide +kernel
  have huser : held.Perm (Dictionary.user [] groups).words.items := by decide +kernel
  have hfirst : (Dictionary.fixed [] groups).complete [] 1
      = [("か".toList, [entry "蚊", entry "火"])] := by decide +kernel
  refine ⟨hfixed, huser, ?_, ?_⟩
  · rw [← hmapped held hfixed, hfirst]
  · rw [← hsorted held huser, ← hcomplete, hfirst]

end Dictionary

end KanaKanji
