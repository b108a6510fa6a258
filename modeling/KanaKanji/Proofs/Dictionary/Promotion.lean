/-
What writing through layers changes of the order in which surfaces are offered.

An entry is written to the first layer that can be written to, and put in front there; what the
layers before list comes first all the same.  A surface is purged from all layers that can be
written to, and goes on to be offered where another layer has it.

* `Layered.lookup_append`: what layers offer behind other layers;
* `Shelf.Registered.lookup_behind`: what is offered after a registration;
* `Shelf.without_lookup_purge`, `Shelf.lists_lookup_purge`: what is offered after a purge;
* `Shelf.count_purge`: how many dictionaries a purge tells of;
* `Shelf.lookup_written`: what both change of what is offered, and that nothing else changes.
-/
import KanaKanji.Proofs.Dictionary.Distinct
import KanaKanji.Proofs.Dictionary.Writing
import KanaKanji.Proofs.Session.Run
import Mathlib.Data.Finset.Card
import Mathlib.Data.Finset.Insert

namespace KanaKanji

/-- Layers behind others add the surfaces that those do not list. -/
theorem Layered.lookup_append (first second : Layered) (reading : Text) :
    Layered.lookup (first ++ second) reading
      = Layered.lookup first reading ++ (Layered.lookup second reading).filter fun entry =>
          !Entry.lists (Layered.lookup first reading) entry.surface := by
  unfold Layered.lookup
  rw [List.flatMap_append, Entry.distinct_append]

namespace Shelf

variable {shelf after : Shelf} {layers : Layers} {place : Nat} {reading surface : Text}
  {entry : Entry}

theorem select_append (shelf : Shelf) (first second : Layers) :
    shelf.select (first ++ second) = shelf.select first ++ shelf.select second :=
  List.filterMap_append

/-! ### Registering -/

/-- The layers before the first one that can be written to. -/
def ahead (shelf : Shelf) (layers : Layers) : Layers :=
  layers.takeWhile fun place => !shelf.isWritable place

/-- The layers ahead cannot be written to, and the place to write comes right behind them. -/
theorem layers_of_writablePlace? (h : shelf.writablePlace? layers = some place) :
    (∀ other ∈ shelf.ahead layers, other ≠ place) ∧
      ∃ behind, layers = shelf.ahead layers ++ place :: behind := by
  obtain ⟨hplace, before, behind, rfl, hbefore⟩ := List.find?_eq_some_iff_append.mp h
  have hahead : shelf.ahead (before ++ place :: behind) = before := by
    rw [ahead, List.takeWhile_append_of_pos hbefore, List.takeWhile_cons_of_neg, List.append_nil]
    rw [hplace]
    exact Bool.false_ne_true
  rw [hahead]
  refine ⟨fun other ho he => ?_, behind, rfl⟩
  have hread := hbefore other ho
  rw [he, hplace] at hread
  exact nomatch hread

theorem exists_writablePlace?_iff :
    (∃ place, shelf.writablePlace? layers = some place) ↔
      ∃ place ∈ layers, shelf.isWritable place = true := by
  rw [← Option.isSome_iff_exists, writablePlace?, List.find?_isSome]

/-- An entry is registered where a layer can be written to, under a reading and with a surface. -/
theorem register_succeeds_iff (shelf : Shelf) (layers : Layers) (reading : Text) (entry : Entry) :
    (∃ isNew after, shelf.register layers reading entry = .ok (isNew, after)) ↔
      (∃ place ∈ layers, shelf.isWritable place = true) ∧ reading ≠ [] ∧ entry.surface ≠ [] := by
  constructor
  · rintro ⟨isNew, after, h⟩
    obtain ⟨place, hplace, -⟩ := registered_of_register h
    refine ⟨exists_writablePlace?_iff.mp ⟨place, hplace⟩, ?_⟩
    rw [register, hplace] at h
    dsimp only [registerAt, Dictionary.register] at h
    cases hd : shelf[place]? with
    | none =>
      rw [hd] at h
      exact nomatch h
    | some d =>
      rw [hd] at h
      dsimp only at h
      split_ifs at h with hread hreading hsurface
      · exact nomatch h
      · exact nomatch h
      · exact nomatch h
      · exact ⟨by simpa using hreading, by simpa using hsurface⟩
  · rintro ⟨hwritable, hreading, hsurface⟩
    obtain ⟨place, hplace⟩ := exists_writablePlace?_iff.mpr hwritable
    exact ⟨_, register_of_writablePlace? hplace hreading hsurface⟩

/-- **What is offered after a registration**: what the layers before offer, the entry unless its
surface is among that, and all else in its order. -/
theorem Registered.lookup_behind (h : Registered shelf after place reading entry)
    (hplace : shelf.writablePlace? layers = some place) :
    let before := (shelf.select (shelf.ahead layers)).lookup reading
    (after.select layers).lookup reading
      = before ++ (if Entry.lists before entry.surface then [] else [entry])
        ++ ((shelf.select layers).lookup reading).filter fun other =>
            other.surface != entry.surface && !Entry.lists before other.surface := by
  intro before
  obtain ⟨hne, behind, hlayers⟩ := layers_of_writablePlace? hplace
  have hselect : ∀ shelf' : Shelf, shelf'.select layers
      = shelf'.select (shelf.ahead layers) ++ shelf'.select (place :: behind) := by
    intro shelf'
    rw [← select_append, ← hlayers]
  have hahead : after.select (shelf.ahead layers) = shelf.select (shelf.ahead layers) :=
    List.filterMap_congr fun other ho => h.elsewhere other (hne other ho)
  -- what the layers from the written one on offered
  let later := (shelf.select (place :: behind)).lookup reading
  have hbefore : before.filter (fun other =>
      other.surface != entry.surface && !Entry.lists before other.surface) = [] := by
    refine List.filter_eq_nil_iff.mpr fun other ho => ?_
    rw [Entry.lists_iff.mpr (List.mem_map_of_mem ho), Bool.not_true, Bool.and_false]
    exact Bool.false_ne_true
  have hold : ((shelf.select layers).lookup reading).filter (fun other =>
        other.surface != entry.surface && !Entry.lists before other.surface)
      = (Entry.without later entry.surface).filter fun other =>
          !Entry.lists before other.surface := by
    rw [hselect, Layered.lookup_append, List.filter_append, hbefore, List.nil_append, Entry.without,
      List.filter_filter, List.filter_filter]
    refine List.filter_congr fun other _ => ?_
    show (other.surface != entry.surface && !Entry.lists before other.surface
      && !Entry.lists before other.surface) = _
    rw [Bool.and_assoc, Bool.and_self, Bool.and_comm]
  rw [hold, hselect after, Layered.lookup_append, hahead, h.lookup_select, List.filter_cons,
    List.append_assoc]
  cases Entry.lists before entry.surface <;> rfl

/-! ### Purging -/

/-- What is offered besides the surface stays as it is. -/
theorem without_lookup_purge (shelf : Shelf) (layers others : Layers) (reading surface : Text) :
    Entry.without (((shelf.purge layers reading surface).2.select others).lookup reading) surface
      = Entry.without ((shelf.select others).lookup reading) surface := by
  rw [lookup_select, lookup_select, Entry.without_distinct, Entry.without_distinct]
  refine congrArg Entry.distinct ?_
  rw [Entry.without, Entry.without, List.filter_flatMap, List.filter_flatMap]
  refine List.flatMap_congr fun place _ => ?_
  rw [lookupAt_purge]
  split
  · exact Entry.without_without _ surface
  · rfl

/-- The surface goes on to be offered where a layer has it that cannot be written to. -/
theorem lists_lookup_purge (shelf : Shelf) (layers : Layers) (reading surface : Text) :
    Entry.lists (((shelf.purge layers reading surface).2.select layers).lookup reading) surface
        = true ↔
      ∃ place ∈ layers, shelf.isWritable place = false ∧
        Entry.lists (shelf.lookupAt place reading) surface = true := by
  rw [lists_select, List.any_eq_true]
  refine exists_congr fun place => and_congr_right fun hplace => ?_
  rw [lookupAt_purge]
  cases hwritable : shelf.isWritable place with
  | true =>
    rw [if_pos ⟨⟨hplace, rfl⟩, rfl⟩, Entry.lists_without, bne_self_eq_false, Bool.false_and]
    exact iff_of_false Bool.false_ne_true nofun
  | false =>
    rw [if_neg fun hall => nomatch hall.1.2]
    exact (and_iff_right rfl).symm

/-- The dictionaries that a purge takes the surface from. -/
def purgedFrom (shelf : Shelf) (layers : Layers) (reading surface : Text) : Finset Nat :=
  layers.toFinset.filter fun place =>
    shelf.isWritable place = true ∧ Entry.lists (shelf.lookupAt place reading) surface = true

theorem mem_purgedFrom :
    place ∈ shelf.purgedFrom layers reading surface ↔ place ∈ layers ∧
      shelf.isWritable place = true ∧
      Entry.lists (shelf.lookupAt place reading) surface = true := by
  rw [purgedFrom, Finset.mem_filter, List.mem_toFinset]

theorem removed_of_purgeAt {removed : Bool}
    (h : shelf.purgeAt place reading surface = .ok (removed, after)) :
    removed = Entry.lists (shelf.lookupAt place reading) surface := by
  unfold purgeAt Dictionary.purge at h
  cases hd : shelf[place]? with
  | none =>
    rw [hd] at h
    exact nomatch h
  | some d =>
    rw [hd] at h
    dsimp only at h
    split_ifs at h with hread
    · exact nomatch h
    · rw [lookupAt_of_getElem? hd]
      exact (Prod.mk.inj (Except.ok.inj h)).1.symm

/-- **A purge tells how many dictionaries had the surface**, each of them once. -/
theorem count_purge (shelf : Shelf) (layers : Layers) (reading surface : Text) :
    (shelf.purge layers reading surface).1 = (shelf.purgedFrom layers reading surface).card := by
  induction layers generalizing shelf with
  | nil => rfl
  | cons first layers ih =>
    rcases purgeAt_cases shelf first reading surface with
      ⟨d, purged, removed, hd, hwritable, hpurged, he⟩ | ⟨hread, e, he⟩
    · -- a later layer of the same dictionary finds nothing any more
      have hlater : Shelf.purgedFrom (shelf.set first purged) layers reading surface
          = (shelf.purgedFrom (first :: layers) reading surface).erase first := by
        ext place
        rw [Finset.mem_erase, mem_purgedFrom, mem_purgedFrom, isWritable_set hd hpurged.writable]
        by_cases hplace : place = first
        · subst hplace
          rw [lookupAt_set_self hd, hpurged.self, Entry.lists_without, bne_self_eq_false,
            Bool.false_and]
          exact iff_of_false (fun h => nomatch h.2.2) fun h => h.1 rfl
        · rw [lookupAt_set_of_ne hplace, List.mem_cons, or_iff_right hplace]
          exact (and_iff_right hplace).symm
      have hfirst : first ∈ shelf.purgedFrom (first :: layers) reading surface ↔
          removed = true := by
        rw [mem_purgedFrom, removed_of_purgeAt he]
        exact (and_iff_right List.mem_cons_self).trans
          (and_iff_right (isWritable_iff.mpr ⟨d, hd, hwritable⟩))
      rw [purge, he]
      dsimp only
      rw [ih, hlater]
      cases removed with
      | true => exact (Nat.add_comm ..).trans (Finset.card_erase_add_one (hfirst.mpr rfl))
      | false =>
        rw [Finset.erase_eq_of_notMem fun hmem => nomatch hfirst.mp hmem]
        exact Nat.zero_add _
    · rw [purge, he]
      dsimp only
      rw [ih]
      refine congrArg Finset.card (Finset.ext fun place => ?_)
      rw [mem_purgedFrom, mem_purgedFrom, List.mem_cons]
      refine and_congr_left fun hplace => (or_iff_right ?_).symm
      rintro rfl
      exact nomatch hread.symm.trans hplace.1

/-! ### Both -/

/-- **Writing disturbs nothing else.**  Let an entry be registered, and a surface be purged, under a
reading of layers of dictionaries that may stand there several times.

* Where a layer can be written to and neither the reading nor the surface is empty, the registration
  succeeds, and the reading offers what the layers before the first that can be written to offer,
  then the entry unless its surface is among that, and then all else in its order.
* Otherwise the registration fails, and leaves everything as it is.
* After the purge the reading offers besides the surface what it offered, in its order; the surface
  is offered when a layer has it that cannot be written to; and the purge has told how many
  dictionaries that can be written to had it.
* Neither changes what any other reading offers. -/
theorem lookup_written (shelf : Shelf) (layers : Layers) (reading : Text) (entry : Entry)
    (surface : Text) :
    let old := (shelf.select layers).lookup reading
    let before := (shelf.select (shelf.ahead layers)).lookup reading
    let answer := shelf.register layers reading entry
    let registered := shelf.afterWrite answer
    let count := (shelf.purge layers reading surface).1
    let purged := (shelf.purge layers reading surface).2
    ((∃ place ∈ layers, shelf.isWritable place = true) ∧ reading ≠ [] ∧ entry.surface ≠ [] →
      (∃ isNew, answer = .ok (isNew, registered)) ∧
      (registered.select layers).lookup reading
        = before ++ (if Entry.lists before entry.surface then [] else [entry])
          ++ old.filter fun other =>
              other.surface != entry.surface && !Entry.lists before other.surface) ∧
    (¬ ((∃ place ∈ layers, shelf.isWritable place = true) ∧ reading ≠ [] ∧ entry.surface ≠ []) →
      (∃ e, answer = .error e) ∧ registered = shelf) ∧
    Entry.without ((purged.select layers).lookup reading) surface = Entry.without old surface ∧
    (Entry.lists ((purged.select layers).lookup reading) surface = true ↔
      ∃ place ∈ layers, shelf.isWritable place = false ∧
        Entry.lists (shelf.lookupAt place reading) surface = true) ∧
    count = (shelf.purgedFrom layers reading surface).card ∧
    ∀ other, other ≠ reading →
      (registered.select layers).lookup other = (shelf.select layers).lookup other ∧
      (purged.select layers).lookup other = (shelf.select layers).lookup other := by
  intro old before answer registered count purged
  refine ⟨fun hwrites => ?_, fun hrefuses => ?_, without_lookup_purge shelf layers layers _ _,
    lists_lookup_purge shelf layers _ _, count_purge shelf layers _ _, fun other ho => ⟨?_, ?_⟩⟩
  · obtain ⟨isNew, after, hafter⟩ := (shelf.register_succeeds_iff layers reading entry).mpr hwrites
    obtain ⟨place, hplace, hregistered⟩ := registered_of_register hafter
    dsimp only [registered, answer]
    rw [hafter]
    exact ⟨⟨isNew, rfl⟩, hregistered.lookup_behind hplace⟩
  · dsimp only [registered]
    cases hanswer : answer with
    | error e => exact ⟨⟨e, rfl⟩, rfl⟩
    | ok answer =>
      exact absurd ((shelf.register_succeeds_iff layers reading entry).mp ⟨_, _, hanswer⟩) hrefuses
  · dsimp only [registered]
    cases hanswer : answer with
    | error e => rfl
    | ok answer =>
      obtain ⟨place, -, hregistered⟩ := registered_of_register hanswer
      rw [lookup_select, lookup_select]
      refine congrArg Entry.distinct (List.flatMap_congr fun elsewhere _ => ?_)
      exact hregistered.lookupAt_of_ne_reading ho elsewhere
  · rw [lookup_select, lookup_select]
    refine congrArg Entry.distinct (List.flatMap_congr fun place _ => ?_)
    rw [lookupAt_purge, if_neg fun hall => ho hall.2]

/-- きょう is 京 in the first layer, 今日 in the one that is written to, which comes twice, and 教 and
今日 in the last.  教 is put behind 京, and 今日 is offered after a purge, as the last layer has it. -/
theorem lookup_written_today :
    let entry : String → Entry := fun s => { surface := s.toList }
    let reading := "きょう".toList
    let shelf : Shelf := [Dictionary.user [] [(reading, [entry "今日"])],
      Dictionary.fixed [] [(reading, [entry "京"])],
      Dictionary.fixed [] [(reading, [entry "教", entry "今日"])]]
    let layers : Layers := [1, 0, 2, 0]
    let registered := shelf.afterWrite (shelf.register layers reading (entry "教"))
    let purged := shelf.purge layers reading "今日".toList
    (registered.select layers).lookup reading = [entry "京", entry "教", entry "今日"] ∧
      purged.1 = 1 ∧
      Entry.lists ((purged.2.select layers).lookup reading) "今日".toList = true := by
  intro entry reading shelf layers registered purged
  obtain ⟨hregister, -, -, hlists, hcount, -⟩ :=
    lookup_written shelf layers reading (entry "教") "今日".toList
  obtain ⟨-, hoffered⟩ := hregister (by decide +kernel)
  refine ⟨hoffered.trans ?_, hcount.trans ?_, hlists.mpr ⟨2, ?_⟩⟩
  · decide +kernel
  · decide +kernel
  · decide +kernel

end Shelf

end KanaKanji
