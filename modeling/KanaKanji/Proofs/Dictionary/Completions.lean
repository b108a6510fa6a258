/-
What completes a reading.

The layers are asked for no more groups than the limit, one after the other, and the groups are
gathered by reading.  Still no group comes out short: a reading that some layer has cut off has so
many readings before it that it is cut off for good.

* `Layered.lookup_of_mem_complete`: a reading that is offered has all its entries, as if it were
  looked up;
* `Layered.entry_mem_lookup`: so a completion is an entry of the reading that its key carries.
-/
import KanaKanji.Proofs.Dictionary.Candidates
import KanaKanji.Proofs.Text.Index
import Mathlib.Data.List.Perm.Subperm

namespace KanaKanji

namespace Index

variable {α : Type} {items : List (Text × α)} {p : Text × α} {n : Nat}

/-! ### The first items of an ascending list -/

/-- Before one of the first `n` there are fewer than `n`. -/
theorem length_before_lt (h : Ascending items) (hp : p ∈ items.take n) :
    (items.filter fun q => Text.before q.1 p.1).length < n := by
  induction items generalizing n with
  | nil => exact absurd hp (by simp)
  | cons a items ih =>
    have hrest : Ascending items := List.Pairwise.of_cons h
    cases n with
    | zero => exact absurd hp (by simp)
    | succ n =>
      rw [List.take_succ_cons] at hp
      rcases List.mem_cons.mp hp with rfl | hp
      · -- nothing comes before the first
        have hnone : (p :: items).filter (fun q => Text.before q.1 p.1) = [] := by
          rw [List.filter_eq_nil_iff]
          intro q hq
          rcases List.mem_cons.mp hq with rfl | hq
          · rw [Text.before_irrefl]
            exact Bool.false_ne_true
          · exact not_before_of_before (List.rel_of_pairwise_cons h hq)
        rw [hnone]
        exact Nat.succ_pos n
      · have hlt := ih hrest hp
        rw [List.filter_cons]
        split
        · simpa using hlt
        · omega

/-- What is cut off has all of the first `n` before it. -/
theorem before_of_cut_off (h : Ascending items) (hp : p ∈ items) (hcut : p ∉ items.take n) :
    (items.take n).length = n ∧ ∀ q ∈ items.take n, Text.before q.1 p.1 = true := by
  rw [← List.take_append_drop n items] at hp h
  have hdrop : p ∈ items.drop n := (List.mem_append.mp hp).resolve_left hcut
  refine ⟨?_, fun q hq => (List.pairwise_append.mp h).2.2 q hq p hdrop⟩
  have hlength : 0 < (items.drop n).length := List.length_pos_of_mem hdrop
  rw [List.length_drop] at hlength
  rw [List.length_take]
  omega

/-- What is among the first `n` of a list is not cut off from another one whose first `n` are all
in that list: these would come before it, and they are too many. -/
theorem mem_take_of_mem_take {β : Type} {all : List (Text × β)} {q : Text × β}
    (h : Ascending items) (hall : Ascending all) (hp : p ∈ items) (hq : q ∈ all.take n)
    (he : q.1 = p.1) (hsubset : ∀ r ∈ items.take n, r.1 ∈ all.map Prod.fst) :
    p ∈ items.take n := by
  by_contra hcut
  obtain ⟨hlength, hbefore⟩ := before_of_cut_off h hp hcut
  have hfew := length_before_lt hall hq
  have htexts : (items.take n).map Prod.fst ⊆
      (all.filter fun r => Text.before r.1 q.1).map Prod.fst := by
    intro text htext
    obtain ⟨r, hr, rfl⟩ := List.mem_map.mp htext
    obtain ⟨other, ho, hsame⟩ := List.mem_map.mp (hsubset r hr)
    refine List.mem_map.mpr ⟨other, List.mem_filter.mpr ⟨ho, ?_⟩, hsame⟩
    rw [hsame, he]
    exact hbefore r hr
  have hnodup := nodup_texts (List.Pairwise.sublist (List.take_sublist n items) h)
  have hle := (List.subperm_of_subset hnodup htexts).length_le
  rw [List.length_map, List.length_map] at hle
  omega

end Index

namespace Layered

/-! ### Gathering -/

/-- The entries of the groups of a reading. -/
def under (groups : List Group) (reading : Text) : List Entry :=
  groups.flatMap fun group => if group.1 = reading then group.2 else []

theorem under_cons (group : Group) (groups : List Group) (reading : Text) :
    under (group :: groups) reading
      = (if group.1 = reading then group.2 else []) ++ under groups reading := rfl

theorem under_append (first second : List Group) (reading : Text) :
    under (first ++ second) reading = under first reading ++ under second reading :=
  List.flatMap_append

theorem under_flatMap {α : Type} (layers : List α) (groups : α → List Group) (reading : Text) :
    under (layers.flatMap groups) reading
      = layers.flatMap fun layer => under (groups layer) reading := by
  induction layers with
  | nil => rfl
  | cons layer layers ih =>
    rw [List.flatMap_cons, under_append, ih, List.flatMap_cons]

theorem under_eq_nil {groups : List Group} {reading : Text}
    (h : ∀ group ∈ groups, group.1 ≠ reading) : under groups reading = [] := by
  rw [under, List.flatMap_eq_nil_iff]
  exact fun group hg => if_neg (h group hg)

/-- In order each reading has one group. -/
theorem under_of_mem {items : List Group} (h : Ascending items) {group : Group}
    (hg : group ∈ items) : under items group.1 = group.2 := by
  induction items with
  | nil => exact absurd hg List.not_mem_nil
  | cons first items ih =>
    have hafter : ∀ other ∈ items, first.1 ≠ other.1 := fun other ho =>
      Index.ne_of_before (List.rel_of_pairwise_cons h ho)
    rw [under_cons]
    rcases List.mem_cons.mp hg with rfl | hg
    · rw [if_pos rfl, under_eq_nil fun other ho => (hafter other ho).symm, List.append_nil]
    · rw [if_neg (hafter group hg), List.nil_append]
      exact ih (List.Pairwise.of_cons h) hg

/-- Gathering loses no entry and keeps their order. -/
theorem lookup_gather (groups : List Group) (reading : Text) :
    Headwords.lookup (gather groups) reading = under groups reading := by
  have general : ∀ (groups : List Group) (words : Headwords),
      Headwords.lookup (groups.foldl (fun words group =>
        words.alter group.1 fun entries => some (entries.getD [] ++ group.2)) words) reading
        = Headwords.lookup words reading ++ under groups reading := by
    intro groups
    induction groups with
    | nil => exact fun words => (List.append_nil _).symm
    | cons group groups ih =>
      intro words
      rw [List.foldl_cons, ih, under_cons, ← List.append_assoc]
      congr 1
      unfold Headwords.lookup
      by_cases h : reading = group.1
      · subst h
        rw [Index.find?_alter_self, if_pos rfl]
        rfl
      · rw [Index.find?_alter_of_ne h, if_neg (Ne.symm h), List.append_nil]
  exact general groups Index.empty

/-! ### The groups that are offered -/

variable {layers : Layered} {stem : Text} {limit : Nat}

theorem ascending_startingWith (words : Headwords) (stem : Text) :
    Ascending (words.startingWith stem) :=
  List.Pairwise.sublist List.filter_sublist words.ascending

/-- The readings that a layer is asked for. -/
theorem ascending_complete (d : Dictionary) (stem : Text) (limit : Nat) :
    Ascending (d.complete stem limit) :=
  List.Pairwise.sublist (List.take_sublist _ _) (ascending_startingWith d.words stem)

/-- A layer that is asked for a reading gives all its entries. -/
theorem under_complete_of_mem {d : Dictionary} {reading : Text} {entries : List Entry}
    (h : (reading, entries) ∈ d.complete stem limit) :
    under (d.complete stem limit) reading = d.lookup reading := by
  have hitem : (reading, entries) ∈ d.words.items := (List.mem_filter.mp (List.mem_of_mem_take h)).1
  have hlookup : d.lookup reading = entries := by
    show (d.words.find? reading).getD [] = entries
    rw [Index.mem_items_iff.mp hitem]
    rfl
  rw [hlookup]
  exact under_of_mem (ascending_complete d stem limit) h

/-- The reading of each group is gathered. -/
theorem mem_texts_gather {groups : List Group} {group : Group} (h : group ∈ groups) :
    group.1 ∈ (gather groups).items.map Prod.fst := by
  have general : ∀ (groups : List Group) (words : Headwords),
      group ∈ groups ∨ words.find? group.1 ≠ none →
      (groups.foldl (fun words group =>
        words.alter group.1 fun entries => some (entries.getD [] ++ group.2)) words).find? group.1
        ≠ none := by
    intro groups
    induction groups with
    | nil => exact fun words h => h.resolve_left List.not_mem_nil
    | cons first groups ih =>
      intro words h
      refine ih _ ?_
      by_cases he : group.1 = first.1
      · right
        rw [he, Index.find?_alter_self]
        exact Option.some_ne_none _
      · rw [Index.find?_alter_of_ne he]
        refine h.imp_left fun hm => (List.mem_cons.mp hm).resolve_left ?_
        rintro rfl
        exact he rfl
  obtain ⟨entries, hfind⟩ := Option.ne_none_iff_exists'.mp
    (general groups Index.empty (Or.inl h))
  exact List.mem_map.mpr ⟨(group.1, entries), Index.mem_items_iff.mpr hfind, rfl⟩

/-- A layer is asked for all entries of a reading that is among the first of all. -/
theorem under_complete {d : Dictionary} (hd : d ∈ layers) {group : Group}
    (hstem : stem <+: group.1)
    (h : group ∈ (gather (layers.flatMap fun d => d.complete stem limit)).items.take limit) :
    under (d.complete stem limit) group.1 = d.lookup group.1 := by
  by_cases hasked : ∃ entries, (group.1, entries) ∈ d.complete stem limit
  · obtain ⟨entries, hasked⟩ := hasked
    exact under_complete_of_mem hasked
  · -- the layer has not cut the reading off, and so does not keep it
    have hnone : under (d.complete stem limit) group.1 = [] :=
      under_eq_nil fun other ho he => hasked ⟨other.2, he ▸ ho⟩
    rw [hnone]
    symm
    by_contra hne
    obtain ⟨entries, hfind⟩ : ∃ entries, d.words.find? group.1 = some entries := by
      cases hfind : d.words.find? group.1 with
      | none => exact absurd (show (d.words.find? group.1).getD [] = [] by rw [hfind]; rfl) hne
      | some entries => exact ⟨entries, rfl⟩
    have hmem : (group.1, entries) ∈ d.words.startingWith stem :=
      List.mem_filter.mpr ⟨Index.mem_items_iff.mpr hfind, List.isPrefixOf_iff_prefix.mpr hstem⟩
    refine hasked ⟨entries, Index.mem_take_of_mem_take (ascending_startingWith d.words stem)
      (Index.ascending _) hmem h rfl ?_⟩
    exact fun other ho => mem_texts_gather (List.mem_flatMap.mpr ⟨d, hd, ho⟩)

/-- **A reading that is offered has all its entries**, as if it were looked up. -/
theorem lookup_of_mem_complete {group : Group} (h : group ∈ layers.complete stem limit) :
    group.2 = layers.lookup group.1 := by
  have hstem := prefix_of_mem_complete h
  obtain ⟨found, hfound, rfl⟩ := List.mem_map.mp h
  have hlookup : Headwords.lookup
      (gather (layers.flatMap fun d => d.complete stem limit)) found.1 = found.2 := by
    unfold Headwords.lookup
    rw [Index.mem_items_iff.mp (List.mem_of_mem_take hfound)]
    rfl
  show Entry.distinct found.2 = Entry.distinct _
  rw [← hlookup, lookup_gather, under_flatMap]
  congr 1
  exact List.flatMap_congr fun d hd => under_complete hd hstem hfound

/-- **A completion is an entry of the reading that its key carries**, which starts with what was
typed and is no headword of inflected words. -/
theorem entry_mem_lookup {candidate : Candidate} (h : candidate ∈ layers.completions stem limit) :
    candidate.key = { yomi := candidate.key.yomi } ∧
      isOkuriHeadword candidate.key.yomi = false ∧
      candidate.entry ∈ layers.lookup candidate.key.yomi := by
  unfold completions at h
  split at h
  · exact absurd h List.not_mem_nil
  · obtain ⟨group, hgroup, hentry⟩ := List.mem_flatMap.mp h
    obtain ⟨entry, he, rfl⟩ := List.mem_map.mp hentry
    obtain ⟨hcomplete, hplain⟩ := List.mem_filter.mp hgroup
    refine ⟨rfl, by simpa using hplain, ?_⟩
    rw [lookup_of_mem_complete hcomplete] at he
    exact he

end Layered

end KanaKanji
