/-
Entries of different surfaces.

Of the entries that layers have for one surface only the first is offered (`Entry.distinct`).
Here is how that goes together with looking for a surface and with taking one out:

* `Entry.distinct_cons`: the first entry stays, and its surface does not come again;
* `Entry.distinct_append`: of what comes behind, the surfaces stay that do not come before;
* `Entry.filter_distinct`: choosing surfaces before or after makes no difference;
* `Entry.lists_distinct`: no surface is lost.
-/
import KanaKanji.Proofs.Dictionary.Candidates

namespace KanaKanji

namespace Entry

variable {entries : List Entry} {surface other : Text}

theorem without_cons_self (entry : Entry) (entries : List Entry) :
    without (entry :: entries) entry.surface = without entries entry.surface := by
  simp [without]

theorem without_cons_of_ne {entry : Entry} (h : entry.surface ≠ surface) (entries : List Entry) :
    without (entry :: entries) surface = entry :: without entries surface := by
  simp [without, h]

theorem without_append (first second : List Entry) (surface : Text) :
    without (first ++ second) surface = without first surface ++ without second surface :=
  List.filter_append ..

theorem without_without (entries : List Entry) (surface : Text) :
    without (without entries surface) surface = without entries surface := by
  simp [without]

theorem lists_cons (entry : Entry) (entries : List Entry) (surface : Text) :
    lists (entry :: entries) surface = (entry.surface == surface || lists entries surface) := rfl

theorem lists_append (first second : List Entry) (surface : Text) :
    lists (first ++ second) surface = (lists first surface || lists second surface) :=
  List.any_append

/-- A choice among the entries by their surfaces lists the surfaces that are chosen. -/
theorem lists_filter (entries : List Entry) (p : Text → Bool) (surface : Text) :
    lists (entries.filter fun entry => p entry.surface) surface
      = (lists entries surface && p surface) := by
  rw [Bool.eq_iff_iff, Bool.and_eq_true, lists_iff, lists_iff]
  simp only [List.mem_map, List.mem_filter]
  constructor
  · rintro ⟨entry, ⟨hentry, hp⟩, rfl⟩
    exact ⟨⟨entry, hentry, rfl⟩, hp⟩
  · rintro ⟨⟨entry, hentry, rfl⟩, hp⟩
    exact ⟨entry, ⟨hentry, hp⟩, rfl⟩

/-- Only the surface itself is no longer listed. -/
theorem lists_without (entries : List Entry) (surface other : Text) :
    lists (without entries surface) other = (other != surface && lists entries other) := by
  rw [Bool.and_comm]
  exact lists_filter entries (· != surface) other

/-- Adding behind an entry leaves it the first, and passes over those with its surface. -/
theorem foldl_addLast_cons (entry : Entry) (added entries : List Entry) :
    added.foldl addLast (entry :: entries)
      = entry :: (without added entry.surface).foldl addLast entries := by
  induction added generalizing entries with
  | nil => rfl
  | cons next added ih =>
    by_cases h : next.surface = entry.surface
    · have hlisted : addLast (entry :: entries) next = entry :: entries := by
        simp [addLast, lists_cons, h]
      rw [List.foldl_cons, hlisted, ih, ← h, without_cons_self]
    · have hbehind : addLast (entry :: entries) next = entry :: addLast entries next := by
        unfold addLast
        rw [lists_cons, beq_false_of_ne (Ne.symm h), Bool.false_or]
        split <;> rfl
      rw [List.foldl_cons, hbehind, ih, without_cons_of_ne h, List.foldl_cons]

/-- The first entry stays, and its surface does not come again. -/
theorem distinct_cons (entry : Entry) (entries : List Entry) :
    distinct (entry :: entries) = entry :: distinct (without entries entry.surface) :=
  foldl_addLast_cons entry entries []

theorem filter_addLast (p : Text → Bool) (entries : List Entry) (entry : Entry) :
    (addLast entries entry).filter (fun e => p e.surface) =
      if p entry.surface then addLast (entries.filter fun e => p e.surface) entry
      else entries.filter fun e => p e.surface := by
  unfold addLast
  rw [lists_filter]
  by_cases hp : p entry.surface = true
  · rw [if_pos hp, hp, Bool.and_true]
    split
    · rfl
    · simp [hp]
  · rw [if_neg hp]
    split
    · rfl
    · simp [hp]

theorem filter_foldl_addLast (p : Text → Bool) (added entries : List Entry) :
    (added.foldl addLast entries).filter (fun e => p e.surface)
      = (added.filter fun e => p e.surface).foldl addLast
          (entries.filter fun e => p e.surface) := by
  induction added generalizing entries with
  | nil => rfl
  | cons entry added ih =>
    rw [List.foldl_cons, ih, filter_addLast, List.filter_cons]
    split <;> rfl

/-- It makes no difference whether surfaces are chosen before or after. -/
theorem filter_distinct (p : Text → Bool) (entries : List Entry) :
    (distinct entries).filter (fun e => p e.surface)
      = distinct (entries.filter fun e => p e.surface) :=
  filter_foldl_addLast p entries []

/-- Entries of different surfaces are all distinct. -/
theorem distinct_of_nodup (h : (entries.map Entry.surface).Nodup) : distinct entries = entries := by
  induction entries with
  | nil => rfl
  | cons entry entries ih =>
    rw [List.map_cons, List.nodup_cons] at h
    have hall : without entries entry.surface = entries := by
      rw [without, List.filter_eq_self]
      intro other ho
      rw [bne_iff_ne]
      intro he
      exact h.1 (he ▸ List.mem_map_of_mem ho)
    rw [distinct_cons, hall, ih h.2]

/-- It makes no difference whether a surface is taken out before or after. -/
theorem without_distinct (entries : List Entry) (surface : Text) :
    without (distinct entries) surface = distinct (without entries surface) :=
  filter_distinct (· != surface) entries

theorem mem_of_mem_addLast {entry added : Entry} (h : entry ∈ addLast entries added) :
    entry ∈ entries ∨ entry = added := by
  unfold addLast at h
  split at h
  · exact Or.inl h
  · exact (List.mem_append.mp h).imp_right List.mem_singleton.mp

theorem mem_of_mem_foldl_addLast {added entries : List Entry} {entry : Entry}
    (h : entry ∈ added.foldl addLast entries) : entry ∈ entries ∨ entry ∈ added := by
  induction added generalizing entries with
  | nil => exact Or.inl h
  | cons next added ih =>
    rcases ih h with hm | hm
    · rcases mem_of_mem_addLast hm with hm | rfl
      · exact Or.inl hm
      · exact Or.inr List.mem_cons_self
    · exact Or.inr (List.mem_cons_of_mem _ hm)

theorem mem_of_mem_distinct {entry : Entry} (h : entry ∈ distinct entries) : entry ∈ entries :=
  (mem_of_mem_foldl_addLast h).resolve_left List.not_mem_nil

theorem lists_addLast (entries : List Entry) (entry : Entry) (surface : Text) :
    lists (addLast entries entry) surface
      = (lists entries surface || entry.surface == surface) := by
  unfold addLast
  split
  · rename_i h
    by_cases hs : entry.surface = surface
    · rw [← hs, h]
      rfl
    · rw [beq_false_of_ne hs, Bool.or_false]
  · rw [lists_append]
    simp [lists]

theorem lists_foldl_addLast (added entries : List Entry) (surface : Text) :
    lists (added.foldl addLast entries) surface
      = (lists entries surface || lists added surface) := by
  induction added generalizing entries with
  | nil => exact (Bool.or_false _).symm
  | cons entry added ih =>
    rw [List.foldl_cons, ih, lists_addLast, lists_cons, Bool.or_assoc]

/-- No surface is lost. -/
theorem lists_distinct (entries : List Entry) (surface : Text) :
    lists (distinct entries) surface = lists entries surface :=
  lists_foldl_addLast entries [] surface

/-- What is added behind entries are the surfaces that they do not list. -/
theorem foldl_addLast_eq (added entries : List Entry) :
    added.foldl addLast entries
      = entries ++ distinct (added.filter fun e => !lists entries e.surface) := by
  induction entries generalizing added with
  | nil => exact congrArg distinct (List.filter_eq_self.mpr fun _ _ => rfl).symm
  | cons entry entries ih =>
    have hadded : (without added entry.surface).filter (fun e => !lists entries e.surface)
        = added.filter fun e => !lists (entry :: entries) e.surface := by
      rw [without, List.filter_filter]
      refine List.filter_congr fun e _ => ?_
      rw [lists_cons, Bool.not_or, Bool.and_comm]
      exact congrArg (· && _) (congrArg Bool.not (Bool.beq_comm ..))
    rw [foldl_addLast_cons, ih, hadded, List.cons_append]

/-- Of what comes behind, the surfaces stay that do not come before. -/
theorem distinct_append (first second : List Entry) :
    distinct (first ++ second)
      = distinct first ++ (distinct second).filter fun e => !lists (distinct first) e.surface := by
  rw [filter_distinct fun surface => !lists (distinct first) surface, ← foldl_addLast_eq]
  exact List.foldl_append

end Entry

end KanaKanji
