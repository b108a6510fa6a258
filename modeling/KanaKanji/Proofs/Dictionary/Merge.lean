/-
Completion as a plain merge.

Each layer is cut off at the limit before the layers are put together.  What comes out is still
what one gets by putting together all that the layers keep, and cutting off then:

* `Layered.readings`: all readings of all layers that start with a stem, in order;
* `Layered.take_readingsAsked`: the first of these are the first of those that the layers give;
* `Layered.complete_eq_readings`: completing offers just these, each as if it were looked up.
-/
import KanaKanji.Proofs.Dictionary.Completions

namespace KanaKanji

/-! ### The first texts of ascending lists -/

/-- The texts ascend strictly. -/
def Text.Ascend (texts : List Text) : Prop :=
  texts.Pairwise fun s t => Text.before s t = true

theorem Ascending.ascend {α : Type} {items : List (Text × α)} (h : Ascending items) :
    Text.Ascend (items.map Prod.fst) :=
  List.pairwise_map.mpr h

/-- Some of the texts of a list, the first `n` among them, have the same first `n`. -/
theorem Text.take_eq_take {few all : List Text} {n : Nat} (hfew : Ascend few)
    (hall : Ascend all) (hsubset : few ⊆ all) (hfirst : all.take n ⊆ few) :
    few.take n = all.take n := by
  induction n generalizing few all with
  | zero => rfl
  | succ n ih =>
    cases all with
    | nil => rw [List.subset_nil.mp hsubset]
    | cons t all =>
      have ht : t ∈ few := by
        apply hfirst
        rw [List.take_succ_cons]
        exact List.mem_cons_self
      cases few with
      | nil => exact absurd ht List.not_mem_nil
      | cons s few =>
        have hsafter : ∀ u ∈ few, before s u = true := fun u => List.rel_of_pairwise_cons hfew
        have htafter : ∀ u ∈ all, before t u = true := fun u => List.rel_of_pairwise_cons hall
        -- each of the two stands in the other list, and so neither comes later
        obtain rfl : s = t := by
          by_contra hne
          have hst := hsafter t ((List.mem_cons.mp ht).resolve_left (Ne.symm hne))
          have hts := htafter s ((List.mem_cons.mp (hsubset List.mem_cons_self)).resolve_left hne)
          exact Index.not_before_of_before hst hts
        rw [List.take_succ_cons, List.take_succ_cons]
        rw [List.take_succ_cons] at hfirst
        congr 1
        refine ih (List.Pairwise.of_cons hfew) (List.Pairwise.of_cons hall) ?_ ?_
        · intro u hu
          have hall := hsubset (List.mem_cons_of_mem _ hu)
          exact (List.mem_cons.mp hall).resolve_left (Index.ne_of_before (hsafter u hu)).symm
        · intro u hu
          have hfew := hfirst (List.mem_cons_of_mem _ hu)
          exact (List.mem_cons.mp hfew).resolve_left
            (Index.ne_of_before (htafter u (List.mem_of_mem_take hu))).symm

namespace Layered

variable {layers : Layered} {stem : Text} {limit : Nat}

/-! ### All readings -/

/-- The readings of the layers that start with a stem, in order. -/
def readings (layers : Layered) (stem : Text) : List Text :=
  (gather (layers.flatMap fun d => d.words.startingWith stem)).items.map Prod.fst

/-- The readings that the layers give when each is asked for no more than the limit. -/
def readingsAsked (layers : Layered) (stem : Text) (limit : Nat) : List Text :=
  (gather (layers.flatMap fun d => d.complete stem limit)).items.map Prod.fst

theorem mem_texts_gather_iff {groups : List Group} {reading : Text} :
    reading ∈ (gather groups).items.map Prod.fst ↔ reading ∈ groups.map Prod.fst := by
  constructor
  · intro h
    obtain ⟨group, hgroup, rfl⟩ := List.mem_map.mp h
    obtain ⟨found, hfound, he⟩ := mem_gather hgroup
    exact List.mem_map.mpr ⟨found, hfound, he⟩
  · intro h
    obtain ⟨group, hgroup, rfl⟩ := List.mem_map.mp h
    exact mem_texts_gather hgroup

theorem ascend_readings (layers : Layered) (stem : Text) : Text.Ascend (layers.readings stem) :=
  (Index.ascending _).ascend

/-- The readings are those that some layer keeps. -/
theorem mem_readings {reading : Text} :
    reading ∈ layers.readings stem ↔
      stem <+: reading ∧ ∃ d ∈ layers, d.words.find? reading ≠ none := by
  rw [readings, mem_texts_gather_iff]
  simp only [List.mem_map, List.mem_flatMap]
  constructor
  · rintro ⟨group, ⟨d, hd, hgroup⟩, rfl⟩
    obtain ⟨hitem, hstem⟩ := List.mem_filter.mp hgroup
    have hfind : d.words.find? group.1 = some group.2 := Index.mem_items_iff.mp hitem
    refine ⟨List.isPrefixOf_iff_prefix.mp hstem, d, hd, ?_⟩
    rw [hfind]
    exact Option.some_ne_none _
  · rintro ⟨hstem, d, hd, hfind⟩
    obtain ⟨entries, hentries⟩ := Option.ne_none_iff_exists'.mp hfind
    exact ⟨(reading, entries), ⟨d, hd, List.mem_filter.mpr
      ⟨Index.mem_items_iff.mpr hentries, List.isPrefixOf_iff_prefix.mpr hstem⟩⟩, rfl⟩

/-! ### Readings that the layers are asked for -/

theorem readingsAsked_subset : layers.readingsAsked stem limit ⊆ layers.readings stem := by
  intro reading h
  rw [readingsAsked, mem_texts_gather_iff] at h
  rw [readings, mem_texts_gather_iff]
  simp only [List.mem_map, List.mem_flatMap] at h ⊢
  obtain ⟨group, ⟨d, hd, hgroup⟩, rfl⟩ := h
  exact ⟨group, ⟨d, hd, List.mem_of_mem_take hgroup⟩, rfl⟩

/-- A reading among the first of all is cut off in no layer that keeps it. -/
theorem take_readings_subset :
    (layers.readings stem).take limit ⊆ layers.readingsAsked stem limit := by
  intro reading h
  rw [readings, ← List.map_take] at h
  obtain ⟨first, hfirst, rfl⟩ := List.mem_map.mp h
  obtain ⟨group, hgroup, he⟩ := mem_gather (List.mem_of_mem_take hfirst)
  obtain ⟨d, hd, hkept⟩ := List.mem_flatMap.mp hgroup
  have hasked : group ∈ d.complete stem limit := by
    refine Index.mem_take_of_mem_take (ascending_startingWith d.words stem) (Index.ascending _)
      hkept hfirst he.symm ?_
    intro other ho
    exact mem_texts_gather (List.mem_flatMap.mpr ⟨d, hd, List.mem_of_mem_take ho⟩)
  rw [← he]
  exact mem_texts_gather (List.mem_flatMap.mpr ⟨d, hd, hasked⟩)

theorem take_readingsAsked :
    (layers.readingsAsked stem limit).take limit = (layers.readings stem).take limit :=
  Text.take_eq_take (Index.ascending _).ascend (layers.ascend_readings stem) readingsAsked_subset
    take_readings_subset

/-- **Completing offers the first of all readings, each as if it were looked up.** -/
theorem complete_eq_readings (layers : Layered) (stem : Text) (limit : Nat) :
    layers.complete stem limit = ((layers.readings stem).take limit).map
      fun reading => (reading, layers.lookup reading) := by
  rw [← take_readingsAsked, readingsAsked, ← List.map_take, List.map_map]
  refine List.map_congr_left fun group hgroup => ?_
  have hoffered : (group.1, Entry.distinct group.2) ∈ layers.complete stem limit :=
    List.mem_map_of_mem hgroup
  exact congrArg (Prod.mk group.1) (lookup_of_mem_complete hoffered)

/-- **Completing layers that were cut off is the plain merge cut off.**  The readings ascend and are
those that some layer keeps under the stem; the first of them are offered, each with all that is
looked up for it; and a smaller limit offers the first of what a larger one offers. -/
theorem complete_merges (layers : Layered) (stem : Text) :
    Text.Ascend (layers.readings stem) ∧
      (∀ reading, reading ∈ layers.readings stem ↔
        stem <+: reading ∧ ∃ d ∈ layers, d.words.find? reading ≠ none) ∧
      (∀ limit, layers.complete stem limit = ((layers.readings stem).take limit).map
        fun reading => (reading, layers.lookup reading)) ∧
      ∀ m n, m ≤ n → layers.complete stem m <+: layers.complete stem n := by
  refine ⟨layers.ascend_readings stem, fun reading => mem_readings,
    layers.complete_eq_readings stem, ?_⟩
  intro m n hmn
  rw [complete_eq_readings, complete_eq_readings]
  exact (List.take_prefix_take_left hmn).map _

/-- Two layers, one of them asked twice, that are cut off at different readings. -/
theorem complete_merges_ka :
    let entry : String → Entry := fun s => { surface := s.toList }
    let system := Dictionary.fixed Dictionary.systemName
      [("かき".toList, [entry "柿"]), ("かい".toList, [entry "貝"]), ("か".toList, [entry "蚊"])]
    let user := Dictionary.user Dictionary.userName
      [("かお".toList, [entry "顔"]), ("かい".toList, [entry "会", entry "貝"])]
    let layers : Layered := [user, system, user]
    layers.complete "か".toList 1 <+: layers.complete "か".toList 2 ∧
      layers.complete "か".toList 2 = [("か".toList, [entry "蚊"]),
        ("かい".toList, [entry "会", entry "貝"])] := by
  intro entry system user layers
  obtain ⟨-, -, hmerge, hlimits⟩ := complete_merges layers "か".toList
  refine ⟨hlimits 1 2 (by decide), ?_⟩
  rw [hmerge]
  decide +kernel

end Layered

end KanaKanji
