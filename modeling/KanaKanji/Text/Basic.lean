/-
Texts and their order.

A text is the list of its characters, so that every definition over text is an
ordinary recursion over a list.  Readings are kept and reported in the order of
their code points:

* `Text.before` is that order, as a test;
* `Text.before_irrefl`, `Text.before_trans` and `Text.before_or_eq_or_before`
  say that it is a strict total order.

`Text.stretches` cuts a text at certain characters; `Text.dropEnding?` takes an ending off.

Design notes: the order is a function of its own rather than an instance on
lists of characters, so that it means the same wherever it is read.
-/
namespace KanaKanji

/-- A text is the list of its characters. -/
abbrev Text := List Char

/-- The code point lies between the two ends, both included. -/
def codeWithin (c : Char) (first last : Nat) : Bool :=
  decide (first ≤ c.toNat) && decide (c.toNat ≤ last)

namespace Text

/-! ### The order of code points -/

/-- `before s t` holds when `s` comes strictly before `t`: at the first
difference the smaller code point comes first, and a text comes before its
own continuations. -/
def before : Text → Text → Bool
  | [], [] => false
  | [], _ :: _ => true
  | _ :: _, [] => false
  | a :: s, b :: t => decide (a.toNat < b.toNat) || (a == b && before s t)

theorem before_cons_cons (a b : Char) (s t : Text) :
    before (a :: s) (b :: t) = true ↔ a.toNat < b.toNat ∨ (a = b ∧ before s t = true) := by
  simp [before]

/-- No text comes before itself. -/
theorem before_irrefl (s : Text) : before s s = false := by
  induction s with
  | nil => rfl
  | cons a s ih => simp [before, ih]

theorem before_trans {s t u : Text} (hst : before s t = true) (htu : before t u = true) :
    before s u = true := by
  induction s generalizing t u with
  | nil =>
    cases u with
    | nil => cases t <;> simp [before] at hst htu
    | cons c u => rfl
  | cons a s ih =>
    cases t with
    | nil => simp [before] at hst
    | cons b t =>
      cases u with
      | nil => simp [before] at htu
      | cons c u =>
        rw [before_cons_cons] at hst htu ⊢
        rcases hst with hab | ⟨rfl, hst⟩
        · rcases htu with hbc | ⟨rfl, _⟩
          · exact Or.inl (Nat.lt_trans hab hbc)
          · exact Or.inl hab
        · rcases htu with hbc | ⟨rfl, htu⟩
          · exact Or.inl hbc
          · exact Or.inr ⟨rfl, ih hst htu⟩

/-- Of two texts one comes before the other, or they are the same. -/
theorem before_or_eq_or_before (s t : Text) :
    before s t = true ∨ s = t ∨ before t s = true := by
  induction s generalizing t with
  | nil =>
    cases t with
    | nil => exact Or.inr (Or.inl rfl)
    | cons b t => exact Or.inl rfl
  | cons a s ih =>
    cases t with
    | nil => exact Or.inr (Or.inr rfl)
    | cons b t =>
      rw [before_cons_cons, before_cons_cons]
      rcases Nat.lt_trichotomy a.toNat b.toNat with h | h | h
      · exact Or.inl (Or.inl h)
      · have hab : a = b := Char.toNat_inj.mp h
        subst hab
        rcases ih t with h' | rfl | h'
        · exact Or.inl (Or.inr ⟨rfl, h'⟩)
        · exact Or.inr (Or.inl rfl)
        · exact Or.inr (Or.inr (Or.inr ⟨rfl, h'⟩))
      · exact Or.inr (Or.inr (Or.inl h))

/-! ### Ends of a text -/

/-- What is left of `s` when it ends in `tail`. -/
def dropEnding? (s tail : Text) : Option Text :=
  if tail.isSuffixOf s then some (s.take (s.length - tail.length)) else none

theorem dropEnding?_append (s tail : Text) : dropEnding? (s ++ tail) tail = some s := by
  simp [dropEnding?]

/-! ### Stretches of a text -/

/-- The stretches between the characters that are breaks, empty ones included. -/
def stretches (isBreak : Char → Bool) : Text → List Text
  | [] => [[]]
  | c :: s =>
    if isBreak c then [] :: stretches isBreak s
    else match stretches isBreak s with
      | [] => [[c]]
      | w :: ws => (c :: w) :: ws

end Text

end KanaKanji
