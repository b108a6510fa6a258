/-
What writing changes of what dictionaries offer.

A word is written to one reading of a dictionary at one place of the shelf, and a surface is
purged from one reading.  Here is what the entries under all readings at all places are after
that, and what the layers offer then:

* `Shelf.register_of_writablePlace?`, `Shelf.Registered`: a registration puts its entry in front
  of one reading of the first dictionary that can be written to, and changes nothing else;
* `Shelf.lookupAt_purge`, `Shelf.getElem?_purge_of_not_written`: a purge takes its surface from
  one reading of the dictionaries that can be written to, and changes nothing else;
* `Shelf.Registered.lookup_select`: where the first layer is the one that is written to, the entry
  is offered first, and then all others in their order.
-/
import KanaKanji.Proofs.Dictionary.Sound
import Mathlib.Tactic.SplitIfs

namespace KanaKanji

namespace Shelf

variable {shelf after : Shelf} {layers : Layers} {place : Nat} {reading surface : Text}
  {entry : Entry}

/-! ### Entries at places -/

/-- The entries under a reading at a place; where no dictionary is there are none. -/
def lookupAt (shelf : Shelf) (place : Nat) (reading : Text) : List Entry :=
  ((shelf[place]?).map fun d => d.lookup reading).getD []

theorem lookupAt_of_getElem? {d : Dictionary} (h : shelf[place]? = some d) (reading : Text) :
    shelf.lookupAt place reading = d.lookup reading := by
  rw [lookupAt, h]
  rfl

/-- What layers offer, place by place. -/
theorem lookup_select (shelf : Shelf) (layers : Layers) (reading : Text) :
    (shelf.select layers).lookup reading
      = Entry.distinct (layers.flatMap fun place => shelf.lookupAt place reading) := by
  have hall : (shelf.select layers).flatMap (fun d => d.lookup reading)
      = layers.flatMap fun place => shelf.lookupAt place reading := by
    induction layers with
    | nil => rfl
    | cons place layers ih =>
      rw [List.flatMap_cons, ← ih]
      unfold select lookupAt
      cases hd : shelf[place]? with
      | none => simp [hd]
      | some d => simp [hd]
  exact congrArg Entry.distinct hall

/-- The layers list a surface that one of them lists. -/
theorem lists_select (shelf : Shelf) (layers : Layers) (reading surface : Text) :
    Entry.lists ((shelf.select layers).lookup reading) surface
      = layers.any fun place => Entry.lists (shelf.lookupAt place reading) surface := by
  rw [lookup_select, Entry.lists_distinct]
  exact List.any_flatMap

theorem isWritable_iff :
    shelf.isWritable place = true ↔ ∃ d, shelf[place]? = some d ∧ d.writable = true := by
  unfold isWritable
  cases hd : shelf[place]? with
  | none => simp
  | some d => simp

/-! #### Another dictionary at a place -/

theorem getElem?_set_of_getElem? {d : Dictionary} (h : shelf[place]? = some d)
    (replaced : Dictionary) : (shelf.set place replaced)[place]? = some replaced :=
  List.getElem?_set_self (List.getElem?_eq_some_iff.mp h).1

theorem lookupAt_set_self {d : Dictionary} (h : shelf[place]? = some d) (replaced : Dictionary)
    (reading : Text) :
    Shelf.lookupAt (shelf.set place replaced) place reading = replaced.lookup reading :=
  lookupAt_of_getElem? (getElem?_set_of_getElem? h replaced) reading

theorem lookupAt_set_of_ne {other : Nat} (h : other ≠ place) (replaced : Dictionary)
    (reading : Text) :
    Shelf.lookupAt (shelf.set place replaced) other reading = shelf.lookupAt other reading := by
  rw [lookupAt, List.getElem?_set_ne (Ne.symm h), lookupAt]

/-- A place can be written to as before when its new dictionary is like the old one. -/
theorem isWritable_set {d replaced : Dictionary} (h : shelf[place]? = some d)
    (hwritable : replaced.writable = d.writable) (other : Nat) :
    Shelf.isWritable (shelf.set place replaced) other = shelf.isWritable other := by
  unfold isWritable
  by_cases ho : other = place
  · subst ho
    rw [getElem?_set_of_getElem? h, h, Option.map_some, Option.map_some, hwritable]
  · rw [List.getElem?_set_ne (Ne.symm ho)]

/-! #### Entries that have a surface -/

/-- Every entry of every dictionary has a surface. -/
def Sound (shelf : Shelf) : Prop :=
  ∀ d ∈ shelf, d.Sound

theorem Sound.surface_ne_nil (h : shelf.Sound) (hentry : entry ∈ shelf.lookupAt place reading) :
    entry.surface ≠ [] := by
  unfold lookupAt at hentry
  cases hd : shelf[place]? with
  | none =>
    rw [hd] at hentry
    exact absurd hentry List.not_mem_nil
  | some d =>
    rw [hd] at hentry
    exact h d (List.mem_of_getElem? hd) reading entry hentry

theorem Sound.surface_of_mem_lookup (h : shelf.Sound) {layers : Layers}
    (hentry : entry ∈ (shelf.select layers).lookup reading) : entry.surface ≠ [] := by
  rw [lookup_select] at hentry
  obtain ⟨place, -, hplace⟩ := List.mem_flatMap.mp (Entry.mem_of_mem_distinct hentry)
  exact h.surface_ne_nil hplace

theorem Sound.set (h : shelf.Sound) (place : Nat) {d : Dictionary} (hd : d.Sound) :
    Shelf.Sound (shelf.set place d) := by
  intro other ho
  rcases List.mem_or_eq_of_mem_set ho with ho | rfl
  · exact h other ho
  · exact hd

/-! ### Registering -/

/-- The shelf after an entry has been registered under a reading at a place. -/
structure Registered (shelf after : Shelf) (place : Nat) (reading : Text) (entry : Entry) :
    Prop where
  writable : shelf.isWritable place = true
  sound : shelf.Sound → after.Sound
  elsewhere : ∀ other, other ≠ place → after[other]? = shelf[other]?
  front : after.lookupAt place reading
    = entry :: Entry.without (shelf.lookupAt place reading) entry.surface
  others : ∀ other, other ≠ reading → after.lookupAt place other = shelf.lookupAt place other

/-- A registration with a dictionary that can be written to succeeds, and says whether the
surface is new. -/
theorem registerAt_of_writable (hplace : shelf.isWritable place = true) (hreading : reading ≠ [])
    (hsurface : entry.surface ≠ []) :
    ∃ after, shelf.registerAt place reading entry
      = .ok (!Entry.lists (shelf.lookupAt place reading) entry.surface, after) := by
  obtain ⟨d, hd, hwritable⟩ := isWritable_iff.mp hplace
  have hnone : ¬ reading.isEmpty = true := by simpa using hreading
  have hnone' : ¬ entry.surface.isEmpty = true := by simpa using hsurface
  unfold registerAt Dictionary.register
  rw [hd, lookupAt_of_getElem? hd]
  dsimp only
  rw [hwritable, Bool.not_true, if_neg Bool.false_ne_true, if_neg hnone, if_neg hnone']
  exact ⟨_, rfl⟩

theorem registered_of_registerAt {isNew : Bool}
    (h : shelf.registerAt place reading entry = .ok (isNew, after)) :
    Registered shelf after place reading entry := by
  unfold registerAt at h
  cases hd : shelf[place]? with
  | none =>
    rw [hd] at h
    exact nomatch h
  | some d =>
    rw [hd] at h
    dsimp only [Dictionary.register] at h
    split_ifs at h with hwritable hreading hsurface
    · exact nomatch h
    · exact nomatch h
    · exact nomatch h
    · obtain ⟨-, rfl⟩ := Prod.mk.inj (Except.ok.inj h)
      refine ⟨isWritable_iff.mpr ⟨d, hd, by simpa using hwritable⟩, fun hsound => ?_,
        fun other ho => List.getElem?_set_ne (Ne.symm ho), ?_, fun other ho => ?_⟩
      · have hdsound : d.words.Sound := hsound d (List.mem_of_getElem? hd)
        exact hsound.set place (hdsound.register reading (by simpa using hsurface))
      · rw [lookupAt_set_self hd, lookupAt_of_getElem? hd]
        exact Headwords.lookup_change_self _ _ _
      · rw [lookupAt_set_self hd, lookupAt_of_getElem? hd]
        exact Headwords.lookup_change_of_ne ho _ _

/-- Where a layer can be written to, a registration with the layers succeeds. -/
theorem register_of_writablePlace? (hplace : shelf.writablePlace? layers = some place)
    (hreading : reading ≠ []) (hsurface : entry.surface ≠ []) :
    ∃ after, shelf.register layers reading entry
      = .ok (!Entry.lists (shelf.lookupAt place reading) entry.surface, after) := by
  unfold register
  rw [hplace]
  exact registerAt_of_writable (List.find?_some hplace) hreading hsurface

theorem registered_of_register {isNew : Bool}
    (h : shelf.register layers reading entry = .ok (isNew, after)) :
    ∃ place, shelf.writablePlace? layers = some place ∧
      Registered shelf after place reading entry := by
  unfold register at h
  cases hplace : shelf.writablePlace? layers with
  | none =>
    rw [hplace] at h
    exact nomatch h
  | some place =>
    rw [hplace] at h
    exact ⟨place, rfl, registered_of_registerAt h⟩

namespace Registered

variable (h : Registered shelf after place reading entry)
include h

theorem lookupAt_of_ne {other : Nat} (ho : other ≠ place) (reading : Text) :
    after.lookupAt other reading = shelf.lookupAt other reading := by
  rw [lookupAt, h.elsewhere other ho, lookupAt]

/-- But for the surface of the entry, the reading lists what it listed, everywhere. -/
theorem without_lookupAt (other : Nat) :
    Entry.without (after.lookupAt other reading) entry.surface
      = Entry.without (shelf.lookupAt other reading) entry.surface := by
  by_cases ho : other = place
  · subst ho
    rw [h.front, Entry.without_cons_self, Entry.without_without]
  · rw [h.lookupAt_of_ne ho]

theorem lookupAt_of_ne_reading {other : Text} (ho : other ≠ reading) (elsewhere : Nat) :
    after.lookupAt elsewhere other = shelf.lookupAt elsewhere other := by
  by_cases hp : elsewhere = place
  · subst hp
    exact h.others other ho
  · exact h.lookupAt_of_ne hp other

/-- No surface is lost. -/
theorem lists_lookupAt {elsewhere : Nat} {other surface : Text}
    (hs : Entry.lists (shelf.lookupAt elsewhere other) surface = true) :
    Entry.lists (after.lookupAt elsewhere other) surface = true := by
  by_cases hr : other = reading
  · subst hr
    by_cases hsurface : entry.surface = surface
    · subst hsurface
      by_cases hp : elsewhere = place
      · rw [hp, h.front, Entry.lists_cons, beq_self_eq_true, Bool.true_or]
      · rwa [h.lookupAt_of_ne hp]
    · -- any other surface is listed as it was
      have hsame := congrArg (fun entries => Entry.lists entries surface)
        (h.without_lookupAt elsewhere)
      simp only [Entry.lists_without, bne_iff_ne.mpr (Ne.symm hsurface), Bool.true_and] at hsame
      rwa [hsame]
  · rwa [h.lookupAt_of_ne_reading hr]

/-- **What is registered in the first layer is offered first**, and then all else in its
order. -/
theorem lookup_select {layers : Layers} :
    (after.select (place :: layers)).lookup reading
      = entry :: Entry.without ((shelf.select (place :: layers)).lookup reading)
          entry.surface := by
  have hrest : Entry.without (layers.flatMap fun other => after.lookupAt other reading)
      entry.surface
      = Entry.without (layers.flatMap fun other => shelf.lookupAt other reading)
        entry.surface := by
    induction layers with
    | nil => rfl
    | cons other layers ih =>
      rw [List.flatMap_cons, List.flatMap_cons, Entry.without_append, Entry.without_append, ih,
        h.without_lookupAt]
  rw [Shelf.lookup_select, Shelf.lookup_select, List.flatMap_cons, List.flatMap_cons, h.front,
    List.cons_append, Entry.distinct_cons, Entry.without_distinct, Entry.without_append,
    Entry.without_append, Entry.without_without, hrest]

end Registered

/-! ### Purging -/

/-- The dictionary `purged` is `d` without a surface under a reading. -/
structure Purged (d purged : Dictionary) (reading surface : Text) : Prop where
  writable : purged.writable = d.writable
  self : purged.lookup reading = Entry.without (d.lookup reading) surface
  others : ∀ other, other ≠ reading → purged.lookup other = d.lookup other

theorem Purged.sound {d purged : Dictionary} (h : Purged d purged reading surface)
    (hd : d.Sound) : purged.Sound := by
  intro other entry hentry
  change entry ∈ purged.lookup other at hentry
  by_cases ho : other = reading
  · rw [ho, h.self] at hentry
    exact hd reading entry (List.mem_filter.mp hentry).1
  · rw [h.others other ho] at hentry
    exact hd other entry hentry

/-- A dictionary that can be written to is purged, any other refuses. -/
theorem purgeAt_cases (shelf : Shelf) (place : Nat) (reading surface : Text) :
    (∃ d purged removed, shelf[place]? = some d ∧ d.writable = true ∧
      Purged d purged reading surface ∧
      shelf.purgeAt place reading surface = .ok (removed, shelf.set place purged)) ∨
      shelf.isWritable place = false ∧ ∃ e, shelf.purgeAt place reading surface = .error e := by
  unfold purgeAt isWritable
  cases hd : shelf[place]? with
  | none => exact Or.inr ⟨rfl, _, rfl⟩
  | some d =>
    dsimp only [Dictionary.purge, Option.map_some, Option.getD_some]
    by_cases hwritable : d.writable = true
    · have hpurged : Purged d { d with words := Headwords.purge d.words reading surface }
          reading surface :=
        ⟨rfl, Headwords.lookup_change_self _ _ _, fun other ho =>
          Headwords.lookup_change_of_ne ho _ _⟩
      refine Or.inl ⟨d, _, Entry.lists (d.lookup reading) surface, rfl, hwritable, hpurged, ?_⟩
      rw [hwritable]
      rfl
    · have hread : d.writable = false := by simpa using hwritable
      rw [hread]
      exact Or.inr ⟨rfl, _, rfl⟩

/-- What cannot be written to stays as it is, and so do the dictionaries of no layer. -/
theorem getElem?_purge_of_not_written {layers : Layers} (reading surface : Text)
    (h : place ∉ layers ∨ shelf.isWritable place = false) :
    (shelf.purge layers reading surface).2[place]? = shelf[place]? := by
  induction layers generalizing shelf with
  | nil => rfl
  | cons first layers ih =>
    have hlayers : place ∉ layers ∨ shelf.isWritable place = false :=
      h.imp_left fun hn hm => hn (List.mem_cons_of_mem _ hm)
    rcases purgeAt_cases shelf first reading surface with
      ⟨d, purged, removed, hd, hwritable, hpurged, he⟩ | ⟨-, e, he⟩
    · have hne : first ≠ place := by
        rintro rfl
        rcases h with hn | hr
        · exact hn List.mem_cons_self
        · rw [isWritable_iff.mpr ⟨d, hd, hwritable⟩] at hr
          exact nomatch hr
      rw [purge, he]
      dsimp only
      rw [ih, List.getElem?_set_ne hne]
      rwa [isWritable_set hd hpurged.writable]
    · rw [purge, he]
      exact ih hlayers

/-- **A purge takes its surface from its reading** wherever a layer can be written to, and
changes nothing else. -/
theorem lookupAt_purge (shelf : Shelf) (layers : Layers) (reading surface : Text) (place : Nat)
    (other : Text) :
    (shelf.purge layers reading surface).2.lookupAt place other =
      if (place ∈ layers ∧ shelf.isWritable place = true) ∧ other = reading then
        Entry.without (shelf.lookupAt place reading) surface
      else shelf.lookupAt place other := by
  induction layers generalizing shelf with
  | nil => simp [purge]
  | cons first layers ih =>
    rcases purgeAt_cases shelf first reading surface with
      ⟨d, purged, removed, hd, hwritable, hpurged, he⟩ | ⟨hread, e, he⟩
    · rw [purge, he]
      dsimp only
      rw [ih, isWritable_set hd hpurged.writable]
      by_cases hp : place = first
      · -- the layer itself: a second purge of it finds nothing to do
        subst hp
        have hplace : shelf.isWritable place = true := isWritable_iff.mpr ⟨d, hd, hwritable⟩
        rw [lookupAt_set_self hd, lookupAt_set_self hd, lookupAt_of_getElem? hd,
          lookupAt_of_getElem? hd, hplace, hpurged.self, Entry.without_without]
        by_cases ho : other = reading
        · simp [ho, hpurged.self]
        · simp [ho, hpurged.others other ho]
      · rw [lookupAt_set_of_ne hp, lookupAt_set_of_ne hp]
        simp only [List.mem_cons, hp, false_or]
    · rw [purge, he]
      dsimp only
      rw [ih]
      by_cases hp : place = first
      · subst hp
        simp [hread]
      · simp only [List.mem_cons, hp, false_or]

theorem Sound.purge (h : shelf.Sound) (layers : Layers) (reading surface : Text) :
    (shelf.purge layers reading surface).2.Sound := by
  induction layers generalizing shelf with
  | nil => exact h
  | cons first layers ih =>
    rcases purgeAt_cases shelf first reading surface with
      ⟨d, purged, removed, hd, -, hpurged, he⟩ | ⟨-, e, he⟩
    · rw [Shelf.purge, he]
      exact ih (h.set first (hpurged.sound (h d (List.mem_of_getElem? hd))))
    · rw [Shelf.purge, he]
      exact ih h

end Shelf

end KanaKanji
