/-
What layered dictionaries offer: candidates for a key, and completions of a reading.

* `Layered.key_of_mem_candidates`, `Layered.nodup_candidates`: the candidates for a key
  carry the key, and no surface is offered twice;
* `Layered.mem_completions`: a completion is a plain reading that starts with what was
  typed, and only a reading that is not empty has any.
-/
import KanaKanji.Dictionary.Layered

namespace KanaKanji

/-! ### Distinct surfaces -/

namespace Entry

theorem lists_iff {entries : List Entry} {surface : Text} :
    lists entries surface = true ↔ surface ∈ entries.map Entry.surface := by
  simp [lists]

theorem nodup_addLast {entries : List Entry} (h : (entries.map Entry.surface).Nodup)
    (entry : Entry) : ((addLast entries entry).map Entry.surface).Nodup := by
  unfold addLast
  split
  · exact h
  · rename_i hl
    have hnot : entry.surface ∉ entries.map Entry.surface := fun hm => hl (lists_iff.mpr hm)
    rw [List.map_append, List.nodup_append]
    refine ⟨h, List.pairwise_singleton _ _, ?_⟩
    intro surface hs other ho he
    obtain rfl := List.mem_singleton.mp ho
    exact hnot (he ▸ hs)

theorem nodup_foldl_addLast (added : List Entry) {entries : List Entry}
    (h : (entries.map Entry.surface).Nodup) :
    ((added.foldl addLast entries).map Entry.surface).Nodup := by
  induction added generalizing entries with
  | nil => exact h
  | cons entry added ih => exact ih (nodup_addLast h entry)

/-- Distinct entries have distinct surfaces. -/
theorem nodup_distinct (entries : List Entry) : ((distinct entries).map Entry.surface).Nodup :=
  nodup_foldl_addLast entries List.Pairwise.nil

end Entry

namespace Layered

/-! ### Candidates for a key -/

theorem key_of_mem_candidates {layers : Layered} {key : ConversionKey} {candidate : Candidate}
    (h : candidate ∈ layers.candidates key) : candidate.key = key := by
  obtain ⟨entry, -, rfl⟩ := List.mem_map.mp h
  rfl

theorem nodup_candidates (layers : Layered) (key : ConversionKey) :
    ((layers.candidates key).map fun candidate => candidate.entry.surface).Nodup := by
  rw [candidates, List.map_map]
  exact Entry.nodup_distinct _

/-! ### Completions of a reading -/

/-- Gathering brings no readings of its own. -/
theorem mem_gather {groups : List Group} {reading : Text} {entries : List Entry}
    (h : (reading, entries) ∈ (gather groups).items) :
    ∃ group ∈ groups, group.1 = reading := by
  have general : ∀ (groups : List Group) (words : Headwords),
      (reading, entries) ∈ (groups.foldl (fun words group =>
        words.alter group.1 fun entries => some (entries.getD [] ++ group.2)) words).items →
      (∃ group ∈ groups, group.1 = reading) ∨
        ∃ entries, (reading, entries) ∈ words.items := by
    intro groups
    induction groups with
    | nil => exact fun words h => Or.inr ⟨entries, h⟩
    | cons group groups ih =>
      intro words h
      rcases ih _ h with ⟨other, ho, he⟩ | ⟨others, ho⟩
      · exact Or.inl ⟨other, List.mem_cons_of_mem _ ho, he⟩
      · rcases Index.mem_alterIn ho with he | hm
        · exact Or.inl ⟨group, List.mem_cons_self, he.symm⟩
        · exact Or.inr ⟨others, hm⟩
  rcases general groups Index.empty h with hg | ⟨others, ho⟩
  · exact hg
  · exact absurd ho List.not_mem_nil

/-- The readings that the layers offer start with the stem. -/
theorem prefix_of_mem_complete {layers : Layered} {stem : Text} {limit : Nat} {group : Group}
    (h : group ∈ layers.complete stem limit) : stem <+: group.1 := by
  obtain ⟨gathered, hg, rfl⟩ := List.mem_map.mp h
  obtain ⟨found, hf, he⟩ := mem_gather (List.mem_of_mem_take hg)
  obtain ⟨d, -, hd⟩ := List.mem_flatMap.mp hf
  have hmem := (List.mem_filter.mp (List.mem_of_mem_take hd)).2
  have hpre : stem <+: found.1 := List.isPrefixOf_iff_prefix.mp hmem
  exact he ▸ hpre

/-- A completion has a plain key, whose reading starts with what was typed. -/
theorem mem_completions {layers : Layered} {stem : Text} {limit : Nat} {candidate : Candidate}
    (h : candidate ∈ layers.completions stem limit) :
    stem ≠ [] ∧ candidate.key.okuri = [] ∧ candidate.key.suffix = [] ∧
      stem <+: candidate.key.yomi := by
  unfold completions at h
  split at h
  · exact absurd h List.not_mem_nil
  · rename_i hs
    obtain ⟨group, hg, hc⟩ := List.mem_flatMap.mp h
    obtain ⟨entry, -, rfl⟩ := List.mem_map.mp hc
    refine ⟨?_, rfl, rfl, prefix_of_mem_complete (List.mem_filter.mp hg).1⟩
    rintro rfl
    exact hs rfl

end Layered

end KanaKanji
