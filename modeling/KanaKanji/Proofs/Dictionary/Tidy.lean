/-
Headwords that keep nothing empty and nothing twice.

A reading is kept only while it has entries, and neither a reading nor a surface is empty
(`Headwords.Tidy`).  Headwords made of words or of groups are so, and every change keeps them so.
What they look up is then all there is to them:

* `Headwords.Tidy.ext`: tidy headwords that look up the same are the same;
* `Headwords.lookup_ofWords`: headwords made of words list under a reading the entries that the
  words have for it, of each surface the first;
* `Headwords.Tidy.ofWords_words`: made of their own words they are the same again.
-/
import KanaKanji.Proofs.Dictionary.Completions
import KanaKanji.Proofs.Dictionary.Sound

namespace KanaKanji

namespace Headwords

variable {words : Headwords} {reading : Text}

/-- Every reading has a name and entries, and its entries have different surfaces, none empty. -/
structure Tidy (words : Headwords) : Prop where
  reading : ∀ group ∈ words.items, group.1 ≠ []
  entries : ∀ group ∈ words.items, group.2 ≠ []
  distinct : ∀ group ∈ words.items, (group.2.map Entry.surface).Nodup
  surface : ∀ group ∈ words.items, ∀ entry ∈ group.2, entry.surface ≠ []

/-! ### What is looked up -/

theorem lookup_of_mem {group : Group} (h : group ∈ words.items) :
    words.lookup group.1 = group.2 := by
  rw [lookup, Index.mem_items_iff.mp h]
  rfl

/-- What is found is what is looked up, as no reading is kept without entries. -/
theorem Tidy.find? (h : words.Tidy) (reading : Text) :
    words.find? reading = kept (words.lookup reading) := by
  cases hfind : words.find? reading with
  | none => rw [lookup, hfind]; rfl
  | some entries =>
    have hentries : entries ≠ [] := h.entries (reading, entries) (Index.mem_items_iff.mpr hfind)
    rw [lookup, hfind, Option.getD_some, kept, if_neg (by simpa using hentries)]

/-- **Tidy headwords that look up the same are the same.** -/
theorem Tidy.ext {others : Headwords} (h : words.Tidy) (ho : others.Tidy)
    (hsame : ∀ reading, words.lookup reading = others.lookup reading) : words = others := by
  refine Index.ext_find? fun reading => ?_
  rw [h.find?, ho.find?, hsame]

theorem Tidy.nodup_lookup (h : words.Tidy) (reading : Text) :
    ((words.lookup reading).map Entry.surface).Nodup := by
  cases hfind : words.find? reading with
  | none => rw [lookup, hfind]; exact List.nodup_nil
  | some entries =>
    rw [lookup, hfind]
    exact h.distinct (reading, entries) (Index.mem_items_iff.mpr hfind)

/-! ### Changes -/

theorem tidy_empty : Tidy Index.empty where
  reading _ h := absurd h List.not_mem_nil
  entries _ h := absurd h List.not_mem_nil
  distinct _ h := absurd h List.not_mem_nil
  surface _ h := absurd h List.not_mem_nil

/-- A group after a change is the one that was changed, and it has entries, or an old one. -/
theorem mem_items_change {f : List Entry → List Entry} {group : Group}
    (h : group ∈ (words.change reading f).items) :
    group.1 = reading ∧ group.2 = f (words.lookup reading) ∧ group.2 ≠ [] ∨
      group ∈ words.items := by
  have hfind : (words.change reading f).find? group.1 = some group.2 := Index.mem_items_iff.mp h
  by_cases hreading : group.1 = reading
  · left
    rw [hreading, change, Index.find?_alter_self] at hfind
    unfold kept at hfind
    split at hfind
    · cases hfind
    · rename_i hentries
      have hsame := Option.some.inj hfind
      refine ⟨hreading, hsame.symm, ?_⟩
      rw [← hsame]
      simpa using hentries
  · right
    rw [change, Index.find?_alter_of_ne hreading] at hfind
    exact Index.mem_items_iff.mpr hfind

/-- A change keeps headwords tidy when what it leaves under its reading is. -/
theorem Tidy.change (h : words.Tidy) {f : List Entry → List Entry}
    (hreading : f (words.lookup reading) ≠ [] → reading ≠ [])
    (hdistinct : ((f (words.lookup reading)).map Entry.surface).Nodup)
    (hsurface : ∀ entry ∈ f (words.lookup reading), entry.surface ≠ []) :
    (words.change reading f).Tidy := by
  constructor <;> intro group hgroup <;>
    rcases mem_items_change hgroup with ⟨hname, hnew, hentries⟩ | hold
  · rw [hname]
    exact hreading (hnew ▸ hentries)
  · exact h.reading group hold
  · exact hentries
  · exact h.entries group hold
  · rw [hnew]
    exact hdistinct
  · exact h.distinct group hold
  · rw [hnew]
    exact hsurface
  · exact h.surface group hold

theorem Tidy.sound (h : words.Tidy) : words.Sound := by
  intro reading entry hentry
  cases hfind : words.find? reading with
  | none =>
    rw [lookup, hfind] at hentry
    exact absurd hentry List.not_mem_nil
  | some entries =>
    rw [lookup, hfind] at hentry
    exact h.surface (reading, entries) (Index.mem_items_iff.mpr hfind) entry hentry

theorem Tidy.lookup_nil (h : words.Tidy) : words.lookup [] = [] := by
  cases hfind : words.find? [] with
  | none => rw [lookup, hfind]; rfl
  | some entries => exact absurd rfl (h.reading ([], entries) (Index.mem_items_iff.mpr hfind))

/-- Where an entry is listed there are a reading and a surface. -/
theorem Tidy.ne_nil_of_mem (h : words.Tidy) {entry : Entry}
    (hentry : entry ∈ words.lookup reading) : reading ≠ [] ∧ entry.surface ≠ [] := by
  refine ⟨?_, h.sound reading entry hentry⟩
  rintro rfl
  rw [h.lookup_nil] at hentry
  exact absurd hentry List.not_mem_nil

theorem Tidy.register (h : words.Tidy) {entry : Entry} (hreading : reading ≠ [])
    (hentry : entry.surface ≠ []) : (words.register reading entry).Tidy := by
  refine h.change (fun _ => hreading) ?_ fun other ho => ?_
  · rw [List.map_cons, List.nodup_cons]
    constructor
    · rw [← Entry.lists_iff, Entry.lists_without]
      simp
    · exact (h.nodup_lookup reading).sublist (List.filter_sublist.map _)
  · rcases List.mem_cons.mp ho with rfl | ho
    · exact hentry
    · exact h.sound reading other (List.mem_filter.mp ho).1

theorem Tidy.purge (h : words.Tidy) (reading surface : Text) :
    (words.purge reading surface).Tidy := by
  refine h.change ?_ ?_ fun other ho => h.sound reading other (List.mem_filter.mp ho).1
  · rintro hleft rfl
    rw [h.lookup_nil] at hleft
    exact hleft rfl
  · exact (h.nodup_lookup reading).sublist (List.filter_sublist.map _)

theorem Tidy.addWord (h : words.Tidy) (word : Word) : (words.addWord word).Tidy := by
  unfold Headwords.addWord
  split
  · exact h
  · rename_i hword
    simp only [Bool.or_eq_true, List.isEmpty_iff, not_or] at hword
    refine h.change (fun _ => hword.1) (Entry.nodup_addLast (h.nodup_lookup _) _) fun entry he => ?_
    rcases Entry.mem_of_mem_addLast he with hold | rfl
    · exact h.sound _ entry hold
    · exact hword.2

/-- Headwords made of words are tidy. -/
theorem tidy_ofWords (added : List Word) : (ofWords added).Tidy := by
  have general : ∀ (added : List Word) (words : Headwords), words.Tidy →
      (added.foldl Headwords.addWord words).Tidy := by
    intro added
    induction added with
    | nil => exact fun words h => h
    | cons word added ih => exact fun words h => ih _ (h.addWord word)
  exact general added _ tidy_empty

theorem Tidy.addGroup (h : words.Tidy) (group : Group) : (words.addGroup group).Tidy := by
  unfold Headwords.addGroup
  split
  · exact h
  · rename_i hgroup
    refine h.change (fun _ => by simpa using hgroup)
      (Entry.nodup_foldl_addLast _ (h.nodup_lookup _)) fun entry hentry => ?_
    rcases Entry.mem_of_mem_foldl_addLast hentry with hold | hnew
    · exact h.sound _ entry hold
    · simpa using (List.mem_filter.mp hnew).2

/-- Headwords made of groups are tidy. -/
theorem tidy_ofGroups (groups : List Group) : (ofGroups groups).Tidy := by
  have general : ∀ (groups : List Group) (words : Headwords), words.Tidy →
      (groups.foldl Headwords.addGroup words).Tidy := by
    intro groups
    induction groups with
    | nil => exact fun words h => h
    | cons group groups ih => exact fun words h => ih _ (h.addGroup group)
  exact general groups _ tidy_empty

/-! ### Words -/

/-- The entries that words have for a reading; a word counts only with a reading and a surface. -/
def entriesOf (added : List Word) (reading : Text) : List Entry :=
  added.filterMap fun word =>
    if word.1 = reading ∧ word.1 ≠ [] ∧ word.2.surface ≠ [] then some word.2 else none

theorem entriesOf_cons (word : Word) (added : List Word) (reading : Text) :
    entriesOf (word :: added) reading =
      (if word.1 = reading ∧ word.1 ≠ [] ∧ word.2.surface ≠ [] then [word.2] else [])
        ++ entriesOf added reading := by
  rw [entriesOf, List.filterMap_cons]
  split <;> rename_i h <;> split at h <;> simp_all [entriesOf]

/-- Headwords made of words list the entries of the words, of each surface the first. -/
theorem lookup_ofWords (added : List Word) (reading : Text) :
    (ofWords added).lookup reading = Entry.distinct (entriesOf added reading) := by
  have general : ∀ (added : List Word) (words : Headwords),
      lookup (added.foldl Headwords.addWord words) reading
        = (entriesOf added reading).foldl Entry.addLast (words.lookup reading) := by
    intro added
    induction added with
    | nil => exact fun words => rfl
    | cons word added ih =>
      intro words
      have hword : (words.addWord word).lookup reading =
          (if word.1 = reading ∧ word.1 ≠ [] ∧ word.2.surface ≠ [] then [word.2] else []).foldl
            Entry.addLast (words.lookup reading) := by
        unfold Headwords.addWord
        by_cases hkept : word.1 ≠ [] ∧ word.2.surface ≠ []
        · rw [if_neg (by simpa using hkept)]
          by_cases hreading : word.1 = reading
          · rw [if_pos ⟨hreading, hkept⟩, hreading, lookup_change_self]
            rfl
          · rw [if_neg fun hall => hreading hall.1, lookup_change_of_ne (Ne.symm hreading)]
            rfl
        · rw [if_pos (by simpa [or_iff_not_imp_left] using hkept), if_neg fun hall => hkept hall.2]
          rfl
      rw [List.foldl_cons, ih, hword, entriesOf_cons, List.foldl_append]
  exact general added Index.empty

theorem mem_words {word : Word} : word ∈ words.words ↔ word.2 ∈ words.lookup word.1 := by
  unfold Headwords.words
  simp only [List.mem_flatMap, List.mem_map]
  constructor
  · rintro ⟨group, hgroup, entry, hentry, rfl⟩
    rw [lookup_of_mem hgroup]
    exact hentry
  · intro h
    cases hfind : words.find? word.1 with
    | none =>
      rw [lookup, hfind] at h
      exact absurd h List.not_mem_nil
    | some entries =>
      rw [lookup, hfind] at h
      exact ⟨(word.1, entries), Index.mem_items_iff.mpr hfind, word.2, h, rfl⟩

/-- The entries of all words for a reading are those that are looked up. -/
theorem Tidy.entriesOf_words (h : words.Tidy) (reading : Text) :
    entriesOf words.words reading = words.lookup reading := by
  have hgroups : entriesOf words.words reading = Layered.under words.items reading := by
    unfold entriesOf Headwords.words Layered.under
    rw [List.filterMap_flatMap]
    refine List.flatMap_congr fun group hgroup => ?_
    rw [List.filterMap_map]
    by_cases hreading : group.1 = reading
    · rw [if_pos hreading]
      refine (List.filterMap_congr fun entry hentry => ?_).trans List.filterMap_some
      exact if_pos ⟨hreading, h.reading group hgroup, h.surface group hgroup entry hentry⟩
    · rw [if_neg hreading, List.filterMap_eq_nil_iff]
      exact fun entry _ => if_neg fun hall => hreading hall.1
  rw [hgroups]
  cases hfind : words.find? reading with
  | none =>
    rw [lookup, hfind, Layered.under_eq_nil]
    · rfl
    · rintro group hgroup rfl
      cases hfind.symm.trans (Index.mem_items_iff.mp hgroup)
  | some entries =>
    rw [lookup, hfind]
    exact Layered.under_of_mem words.ascending (Index.mem_items_iff.mpr hfind)

/-- **Made of their own words, tidy headwords are the same again.** -/
theorem Tidy.ofWords_words (h : words.Tidy) : ofWords words.words = words := by
  refine (tidy_ofWords _).ext h fun reading => ?_
  rw [lookup_ofWords, h.entriesOf_words, Entry.distinct_of_nodup (h.nodup_lookup reading)]

end Headwords

end KanaKanji
