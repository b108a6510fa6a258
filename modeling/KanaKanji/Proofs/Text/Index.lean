/-
Indexes and lists that are in no order.

An index is an ascending list.  It comes back from a list of the same pairs in any order, by sorting
or by inserting one pair after the other:

* `Index.mergeSort_of_perm`, `Index.items_ofList_of_perm`: the two ways;
* `Index.find?_foldl_insert`: what is found when pairs are inserted into an index.
-/
import KanaKanji.Text.Index
import Mathlib.Data.List.Perm.Basic

namespace KanaKanji

namespace Index

variable {α : Type} {items pairs : List (Text × α)}

/-! ### Texts in order -/

theorem not_before_of_before {s t : Text} (h : Text.before s t = true) :
    ¬ Text.before t s = true := by
  intro hback
  have hloop := Text.before_trans h hback
  rw [Text.before_irrefl] at hloop
  exact nomatch hloop

theorem ne_of_before {s t : Text} (h : Text.before s t = true) : s ≠ t := by
  rintro rfl
  rw [Text.before_irrefl] at h
  exact nomatch h

theorem nodup_texts (h : Ascending items) : (items.map Prod.fst).Nodup := by
  rw [List.Nodup, List.pairwise_map]
  exact List.Pairwise.imp ne_of_before h

/-! ### Sorting and inserting -/

/-- The text comes first, or it is the same one. -/
def notAfter (first second : Text × α) : Bool :=
  !Text.before second.1 first.1

theorem notAfter_total (first second : Text × α) :
    (notAfter first second || notAfter second first) = true := by
  rw [notAfter, notAfter, ← Bool.not_and, Bool.not_eq_true', Bool.and_eq_false_iff]
  by_cases h : Text.before second.1 first.1 = true
  · exact Or.inr (Bool.eq_false_iff.mpr (not_before_of_before h))
  · exact Or.inl (Bool.eq_false_iff.mpr h)

theorem before_of_notAfter {first second : Text × α} (h : notAfter first second = true)
    (hne : first.1 ≠ second.1) : Text.before first.1 second.1 = true := by
  rcases Text.before_or_eq_or_before first.1 second.1 with hbefore | he | hafter
  · exact hbefore
  · exact absurd he hne
  · rw [notAfter, hafter] at h
    exact nomatch h

theorem notAfter_trans (first second third : Text × α) (h : notAfter first second = true)
    (h' : notAfter second third = true) : notAfter first third = true := by
  rw [notAfter, Bool.not_eq_true', Bool.eq_false_iff]
  intro hback
  by_cases hfirst : first.1 = second.1
  · rw [notAfter, ← hfirst, hback] at h'
    exact nomatch h'
  · rw [notAfter, Text.before_trans hback (before_of_notAfter h hfirst)] at h'
    exact nomatch h'

/-- Sorting gives an ascending list back from whatever order. -/
theorem mergeSort_of_perm (h : Ascending items) (hperm : pairs.Perm items) :
    pairs.mergeSort notAfter = items := by
  have hsort : (pairs.mergeSort notAfter).Perm items := (List.mergeSort_perm _ _).trans hperm
  have hnodup : (pairs.mergeSort notAfter).Pairwise fun first second => first.1 ≠ second.1 :=
    List.pairwise_map.mp ((hsort.map Prod.fst).nodup_iff.mpr (nodup_texts h))
  have hsorted := List.pairwise_mergeSort notAfter_trans notAfter_total pairs
  refine eq_of_ascending ?_ h fun p => hsort.mem_iff
  exact (hsorted.and hnodup).imp fun hboth => before_of_notAfter hboth.1 hboth.2

theorem findIn_eq_none {text : Text} (h : text ∉ pairs.map Prod.fst) :
    findIn text pairs = none := by
  rw [Option.eq_none_iff_forall_ne_some]
  intro a ha
  exact h (List.mem_map_of_mem (f := Prod.fst) (mem_of_findIn ha))

theorem findIn_of_mem_of_nodup (h : (pairs.map Prod.fst).Nodup) {text : Text} {a : α}
    (hmem : (text, a) ∈ pairs) : findIn text pairs = some a := by
  induction pairs with
  | nil => exact absurd hmem List.not_mem_nil
  | cons p pairs ih =>
    rw [List.map_cons, List.nodup_cons] at h
    rcases List.mem_cons.mp hmem with rfl | hmem
    · exact if_pos rfl
    · have hne : p.1 ≠ text := by
        intro he
        exact h.1 (he ▸ List.mem_map_of_mem hmem)
      rw [findIn, if_neg hne]
      exact ih h.2 hmem

/-- Values inserted one after the other are found, and behind them what was there; with one value
under each text none of them is replaced. -/
theorem find?_foldl_insert (h : (pairs.map Prod.fst).Nodup) (index : Index α) (text : Text) :
    (pairs.foldl (fun index p => index.insert p.1 p.2) index).find? text
      = (findIn text pairs).or (index.find? text) := by
  induction pairs generalizing index with
  | nil => rfl
  | cons p pairs ih =>
    rw [List.map_cons, List.nodup_cons] at h
    rw [List.foldl_cons, ih h.2, findIn]
    by_cases htext : p.1 = text
    · -- the text does not come again
      have hnone : findIn text pairs = none := findIn_eq_none (htext ▸ h.1)
      rw [if_pos htext, hnone, insert, htext, find?_alter_self]
      rfl
    · rw [if_neg htext, insert, find?_alter_of_ne (Ne.symm htext)]

theorem find?_ofList (h : (pairs.map Prod.fst).Nodup) (text : Text) :
    (ofList pairs).find? text = findIn text pairs := by
  rw [ofList, find?_foldl_insert h, find?_empty, Option.or_none]

/-- An index gives an ascending list back from whatever order. -/
theorem items_ofList_of_perm (h : Ascending items) (hperm : pairs.Perm items) :
    (ofList pairs).items = items := by
  have hnodup : (pairs.map Prod.fst).Nodup := (hperm.map Prod.fst).nodup_iff.mpr (nodup_texts h)
  refine eq_of_ascending (ofList pairs).ascending h fun (text, a) => ?_
  rw [← hperm.mem_iff, mem_items_iff, find?_ofList hnodup]
  exact ⟨mem_of_findIn, findIn_of_mem_of_nodup hnodup⟩

/-- In an order of its own, a list of the pairs of an index has the same values. -/
theorem findIn_of_perm {index : Index α} (hperm : pairs.Perm index.items) (text : Text) :
    findIn text pairs = index.find? text := by
  have hnodup : (pairs.map Prod.fst).Nodup :=
    (hperm.map Prod.fst).nodup_iff.mpr (nodup_texts index.ascending)
  rw [← find?_ofList hnodup, find?, items_ofList_of_perm index.ascending hperm]
  rfl

end Index

end KanaKanji
