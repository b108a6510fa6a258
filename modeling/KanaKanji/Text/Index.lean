/-
An index: values kept under texts, in the order of the texts.

An index is a list of pairs whose texts ascend strictly, so that a text has at most
one value and listing needs no sorting.  The operations are `Index.find?` and
`Index.alter`, tied together by

* `Index.find?_alter_self`: what is altered is found altered;
* `Index.find?_alter_of_ne`: all else is found as before.

Two indexes that find the same are the same (`Index.ext_find?`).
-/
import KanaKanji.Text.Basic

namespace KanaKanji

/-! ### Ascending lists -/

/-- The texts of the pairs ascend strictly. -/
def Ascending {α : Type} (items : List (Text × α)) : Prop :=
  items.Pairwise fun a b => Text.before a.1 b.1 = true

/-- A test for `Ascending` that compares neighbours only. -/
def ascends {α : Type} : List (Text × α) → Bool
  | a :: b :: items => Text.before a.1 b.1 && ascends (b :: items)
  | _ => true

theorem ascending_of_ascends {α : Type} {items : List (Text × α)} (h : ascends items = true) :
    Ascending items := by
  induction items with
  | nil => exact List.Pairwise.nil
  | cons a items ih =>
    cases items with
    | nil => exact List.pairwise_singleton _ _
    | cons b items =>
      simp only [ascends, Bool.and_eq_true] at h
      have hrest := ih h.2
      refine List.Pairwise.cons ?_ hrest
      intro c hc
      rcases List.mem_cons.mp hc with rfl | hc
      · exact h.1
      · exact Text.before_trans h.1 (List.rel_of_pairwise_cons hrest hc)

/-- Values kept under texts, in the order of the texts. -/
structure Index (α : Type) where
  items : List (Text × α)
  ascending : Ascending items
  deriving DecidableEq

namespace Index

variable {α : Type}

/-- The index without a text. -/
def empty : Index α := ⟨[], List.Pairwise.nil⟩

/-- The value under `text` in a list of pairs. -/
def findIn (text : Text) : List (Text × α) → Option α
  | [] => none
  | (t, a) :: items => if t = text then some a else findIn text items

/-- The value under `text`. -/
def find? (index : Index α) (text : Text) : Option α :=
  findIn text index.items

/-- A pair at the front, if there is a value. -/
def placeIn (text : Text) (value : Option α) (items : List (Text × α)) : List (Text × α) :=
  match value with
  | some a => (text, a) :: items
  | none => items

/-- Replace the value under `text` in an ascending list of pairs. -/
def alterIn (text : Text) (f : Option α → Option α) : List (Text × α) → List (Text × α)
  | [] => placeIn text (f none) []
  | (t, a) :: items =>
    if t = text then placeIn text (f (some a)) items
    else if Text.before text t then placeIn text (f none) ((t, a) :: items)
    else (t, a) :: alterIn text f items

/-! ### Finding in a list of pairs -/

theorem findIn_eq_none_of_before {text : Text} {items : List (Text × α)}
    (h : ∀ p ∈ items, Text.before text p.1 = true) : findIn text items = none := by
  induction items with
  | nil => rfl
  | cons p items ih =>
    have hp : p.1 ≠ text := by
      intro he
      have hb := h p List.mem_cons_self
      rw [he, Text.before_irrefl] at hb
      exact Bool.noConfusion hb
    rw [findIn, if_neg hp]
    exact ih fun q hq => h q (List.mem_cons_of_mem _ hq)

theorem findIn_placeIn_self (text : Text) (value : Option α) {items : List (Text × α)}
    (h : ∀ p ∈ items, Text.before text p.1 = true) :
    findIn text (placeIn text value items) = value := by
  cases value with
  | none => exact findIn_eq_none_of_before h
  | some a => simp [placeIn, findIn]

theorem findIn_placeIn_of_ne {text other : Text} (h : other ≠ text) (value : Option α)
    (items : List (Text × α)) : findIn other (placeIn text value items) = findIn other items := by
  cases value with
  | none => rfl
  | some a => simp [placeIn, findIn, Ne.symm h]

theorem mem_alterIn {text : Text} {f : Option α → Option α} {items : List (Text × α)}
    {p : Text × α} (h : p ∈ alterIn text f items) : p.1 = text ∨ p ∈ items := by
  have hplace : ∀ (value : Option α) (rest : List (Text × α)),
      p ∈ placeIn text value rest → p.1 = text ∨ p ∈ rest := by
    intro value rest hp
    cases value with
    | none => exact Or.inr hp
    | some a =>
      rcases List.mem_cons.mp hp with rfl | hp
      · exact Or.inl rfl
      · exact Or.inr hp
  induction items with
  | nil => exact hplace _ _ h
  | cons q items ih =>
    obtain ⟨t, a⟩ := q
    rw [alterIn] at h
    split at h
    · rcases hplace _ _ h with h | h
      · exact Or.inl h
      · exact Or.inr (List.mem_cons_of_mem _ h)
    · split at h
      · exact hplace _ _ h
      · rcases List.mem_cons.mp h with rfl | h
        · exact Or.inr List.mem_cons_self
        · rcases ih h with h | h
          · exact Or.inl h
          · exact Or.inr (List.mem_cons_of_mem _ h)

theorem ascending_placeIn {text : Text} {items : List (Text × α)} (value : Option α)
    (hitems : Ascending items) (h : ∀ p ∈ items, Text.before text p.1 = true) :
    Ascending (placeIn text value items) := by
  cases value with
  | none => exact hitems
  | some a => exact List.Pairwise.cons h hitems

theorem ascending_alterIn (text : Text) (f : Option α → Option α) {items : List (Text × α)}
    (h : Ascending items) : Ascending (alterIn text f items) := by
  induction items with
  | nil => exact ascending_placeIn _ h (by simp)
  | cons q items ih =>
    obtain ⟨t, a⟩ := q
    have hrest : Ascending items := List.Pairwise.of_cons h
    have hlt : ∀ p ∈ items, Text.before t p.1 = true := fun p hp =>
      List.rel_of_pairwise_cons h hp
    rw [alterIn]
    split
    · rename_i ht
      exact ascending_placeIn _ hrest (ht ▸ hlt)
    · rename_i ht
      split
      · rename_i hb
        refine ascending_placeIn _ h fun p hp => ?_
        rcases List.mem_cons.mp hp with rfl | hp
        · exact hb
        · exact Text.before_trans hb (hlt p hp)
      · rename_i hb
        refine List.Pairwise.cons (fun p hp => ?_) (ih hrest)
        rcases mem_alterIn hp with hp | hp
        · rcases Text.before_or_eq_or_before t text with h' | h' | h'
          · exact hp ▸ h'
          · exact absurd h' ht
          · exact absurd h' hb
        · exact hlt p hp

/-- Replace the value under `text`; no value means that the text is not kept. -/
def alter (index : Index α) (text : Text) (f : Option α → Option α) : Index α :=
  ⟨alterIn text f index.items, ascending_alterIn text f index.ascending⟩

/-- Keep `value` under `text`, in place of a value that was there. -/
def insert (index : Index α) (text : Text) (value : α) : Index α :=
  index.alter text fun _ => some value

/-- The pairs whose text starts with `stem`, in order. -/
def startingWith (index : Index α) (stem : Text) : List (Text × α) :=
  index.items.filter fun p => stem.isPrefixOf p.1

/-- The index of a list of pairs; of two values under one text the later counts. -/
def ofList (pairs : List (Text × α)) : Index α :=
  pairs.foldl (fun index p => index.insert p.1 p.2) empty

/-! ### Finding after a change -/

@[simp] theorem find?_empty (text : Text) : (empty : Index α).find? text = none := rfl

/-- What is altered is found altered. -/
theorem find?_alter_self (index : Index α) (text : Text) (f : Option α → Option α) :
    (index.alter text f).find? text = f (index.find? text) := by
  obtain ⟨items, h⟩ := index
  simp only [find?, alter]
  induction items with
  | nil => exact findIn_placeIn_self text _ (by simp)
  | cons q items ih =>
    obtain ⟨t, a⟩ := q
    have hlt : ∀ p ∈ items, Text.before t p.1 = true := fun p hp =>
      List.rel_of_pairwise_cons h hp
    rw [alterIn]
    split
    · rename_i ht
      rw [findIn_placeIn_self text _ (ht ▸ hlt), findIn, if_pos ht]
    · rename_i ht
      split
      · rename_i hb
        have hall : ∀ p ∈ (t, a) :: items, Text.before text p.1 = true := by
          intro p hp
          rcases List.mem_cons.mp hp with rfl | hp
          · exact hb
          · exact Text.before_trans hb (hlt p hp)
        rw [findIn_placeIn_self text _ hall, findIn_eq_none_of_before hall]
      · rw [findIn, if_neg ht, findIn, if_neg ht]
        exact ih (List.Pairwise.of_cons h)

/-- All other texts are found as before. -/
theorem find?_alter_of_ne {text other : Text} (h : other ≠ text) (index : Index α)
    (f : Option α → Option α) : (index.alter text f).find? other = index.find? other := by
  obtain ⟨items, hitems⟩ := index
  simp only [find?, alter]
  clear hitems
  induction items with
  | nil => exact findIn_placeIn_of_ne h _ _
  | cons q items ih =>
    obtain ⟨t, a⟩ := q
    rw [alterIn]
    split
    · rename_i ht
      subst ht
      rw [findIn_placeIn_of_ne h, findIn, if_neg (Ne.symm h)]
    · split
      · exact findIn_placeIn_of_ne h _ _
      · rw [findIn, findIn, ih]

/-! ### An index is what it finds -/

theorem mem_of_findIn {text : Text} {a : α} {items : List (Text × α)}
    (h : findIn text items = some a) : (text, a) ∈ items := by
  induction items with
  | nil => simp [findIn] at h
  | cons p items ih =>
    obtain ⟨t, b⟩ := p
    rw [findIn] at h
    split at h
    · rename_i ht
      obtain rfl := Option.some.inj h
      exact ht ▸ List.mem_cons_self
    · exact List.mem_cons_of_mem _ (ih h)

theorem findIn_of_mem {text : Text} {a : α} {items : List (Text × α)} (hitems : Ascending items)
    (h : (text, a) ∈ items) : findIn text items = some a := by
  induction items with
  | nil => exact absurd h List.not_mem_nil
  | cons p items ih =>
    obtain ⟨t, b⟩ := p
    rw [findIn]
    rcases List.mem_cons.mp h with he | h
    · obtain ⟨rfl, rfl⟩ := Prod.mk.inj he
      rw [if_pos rfl]
    · have hb : Text.before t text = true := List.rel_of_pairwise_cons hitems h
      have hne : t ≠ text := by
        rintro rfl
        rw [Text.before_irrefl] at hb
        exact Bool.noConfusion hb
      rw [if_neg hne]
      exact ih (List.Pairwise.of_cons hitems) h

/-- A pair is kept exactly when its value is found under its text. -/
theorem mem_items_iff {index : Index α} {text : Text} {a : α} :
    (text, a) ∈ index.items ↔ index.find? text = some a :=
  ⟨findIn_of_mem index.ascending, mem_of_findIn⟩

/-- Ascending lists with the same members are the same. -/
theorem eq_of_ascending {xs ys : List (Text × α)} (hx : Ascending xs) (hy : Ascending ys)
    (h : ∀ p, p ∈ xs ↔ p ∈ ys) : xs = ys := by
  induction xs generalizing ys with
  | nil =>
    cases ys with
    | nil => rfl
    | cons q ys => exact absurd ((h q).mpr List.mem_cons_self) List.not_mem_nil
  | cons p xs ih =>
    cases ys with
    | nil => exact absurd ((h p).mp List.mem_cons_self) List.not_mem_nil
    | cons q ys =>
      have irr : ∀ t : Text, ¬ Text.before t t = true := fun t ht => by
        rw [Text.before_irrefl] at ht
        exact Bool.noConfusion ht
      have hpq : p = q := by
        rcases List.mem_cons.mp ((h p).mp List.mem_cons_self) with he | hp
        · exact he
        · rcases List.mem_cons.mp ((h q).mpr List.mem_cons_self) with he | hq
          · exact he.symm
          · exact absurd (Text.before_trans (List.rel_of_pairwise_cons hx hq)
              (List.rel_of_pairwise_cons hy hp)) (irr _)
      subst hpq
      refine congrArg (p :: ·) (ih (List.Pairwise.of_cons hx) (List.Pairwise.of_cons hy) ?_)
      intro r
      constructor
      · intro hr
        rcases List.mem_cons.mp ((h r).mp (List.mem_cons_of_mem _ hr)) with rfl | hr'
        · exact absurd (List.rel_of_pairwise_cons hx hr) (irr _)
        · exact hr'
      · intro hr
        rcases List.mem_cons.mp ((h r).mpr (List.mem_cons_of_mem _ hr)) with rfl | hr'
        · exact absurd (List.rel_of_pairwise_cons hy hr) (irr _)
        · exact hr'

/-- Two indexes that find the same are the same. -/
theorem ext_find? {x y : Index α} (h : ∀ text, x.find? text = y.find? text) : x = y := by
  have hitems : x.items = y.items :=
    eq_of_ascending x.ascending y.ascending fun p => by
      rw [show p = (p.1, p.2) from rfl, mem_items_iff, mem_items_iff, h]
  obtain ⟨xs, hx⟩ := x
  obtain ⟨ys, hy⟩ := y
  simp only at hitems
  subst hitems
  rfl

end Index

end KanaKanji
