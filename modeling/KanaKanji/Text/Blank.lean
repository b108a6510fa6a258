/-
Blank characters, and the words between them.

The blanks are the characters of the Unicode property White_Space.  Key notation
is trimmed and cut by them: `Text.trim_append` and `Text.exists_trim` say what trimming
leaves of a text.
-/
import KanaKanji.Text.Basic

namespace KanaKanji

namespace Text

/-- The code points with the property White_Space. -/
def blanks : List Nat :=
  [0x09, 0x0A, 0x0B, 0x0C, 0x0D, 0x20, 0x85, 0xA0, 0x1680,
   0x2000, 0x2001, 0x2002, 0x2003, 0x2004, 0x2005, 0x2006, 0x2007, 0x2008, 0x2009, 0x200A,
   0x2028, 0x2029, 0x202F, 0x205F, 0x3000]

/-- A blank separates words and is trimmed from the ends of a notation. -/
def isBlank (c : Char) : Bool :=
  blanks.contains c.toNat

/-- The text without the blanks at its two ends. -/
def trim (s : Text) : Text :=
  ((s.dropWhile isBlank).reverse.dropWhile isBlank).reverse

/-- The words of a text: its stretches between blanks that hold a character. -/
def words (s : Text) : List Text :=
  (stretches isBlank s).filter fun w => !w.isEmpty

/-! ### Trimming -/

/-- Every character is a blank. -/
def AllBlank (s : Text) : Prop :=
  ∀ c ∈ s, isBlank c = true

/-- The text neither begins nor ends with a blank. -/
structure Bare (s : Text) : Prop where
  head : ∀ c ∈ s.head?, isBlank c = false
  last : ∀ c ∈ s.getLast?, isBlank c = false

-- The instances are given: the quantifier is decided at the end of the text, not character by
-- character of the alphabet.
instance (s : Text) : Decidable (Bare s) :=
  @decidable_of_iff _ _ ⟨fun h => ⟨h.1, h.2⟩, fun h => ⟨h.head, h.last⟩⟩
    (@instDecidableAnd _ _ s.head?.decidableForallMem s.getLast?.decidableForallMem)

theorem head?_dropWhile_isBlank (s : Text) :
    ∀ c ∈ (s.dropWhile isBlank).head?, isBlank c = false := by
  intro c hc
  have h := List.head?_dropWhile_not isBlank s
  rw [hc] at h
  exact h

theorem allBlank_takeWhile (s : Text) : AllBlank (s.takeWhile isBlank) :=
  List.all_eq_true.mp List.all_takeWhile

theorem dropWhile_isBlank_append {blank s : Text} (hblank : AllBlank blank)
    (hs : ∀ c ∈ s.head?, isBlank c = false) : (blank ++ s).dropWhile isBlank = s := by
  rw [List.dropWhile_append_of_pos hblank]
  cases s with
  | nil => rfl
  | cons c s =>
    have hc : isBlank c = false := hs c rfl
    exact List.dropWhile_cons_of_neg (by simp [hc])

/-- Blanks around a text are trimmed. -/
theorem trim_append {front body back : Text} (hfront : AllBlank front) (hback : AllBlank back)
    (hbody : Bare body) : trim (front ++ body ++ back) = body := by
  cases body with
  | nil =>
    have hall : AllBlank (front ++ [] ++ back) := by
      intro c hc
      rw [List.append_nil] at hc
      exact (List.mem_append.mp hc).elim (hfront c) (hback c)
    have hnone := dropWhile_isBlank_append (s := []) hall fun c hc => nomatch hc
    rw [List.append_nil] at hnone
    rw [trim, hnone]
    rfl
  | cons c body =>
    have hrest : (front ++ (c :: body ++ back)).dropWhile isBlank = c :: body ++ back :=
      dropWhile_isBlank_append hfront hbody.head
    have hback : (back.reverse ++ (c :: body).reverse).dropWhile isBlank = (c :: body).reverse := by
      refine dropWhile_isBlank_append (fun d hd => hback d (List.mem_reverse.mp hd)) ?_
      rw [List.head?_reverse]
      exact hbody.last
    rw [trim, List.append_assoc, hrest, List.reverse_append, hback, List.reverse_reverse]

/-- A text is what trimming leaves of it, between blanks. -/
theorem exists_trim (s : Text) : ∃ front back, AllBlank front ∧ AllBlank back ∧ Bare (trim s) ∧
    s = front ++ trim s ++ back := by
  let rest := s.dropWhile isBlank
  let back := (rest.reverse.takeWhile isBlank).reverse
  have hrest : rest = trim s ++ back := by
    rw [trim, ← List.reverse_append, List.takeWhile_append_dropWhile, List.reverse_reverse]
  refine ⟨s.takeWhile isBlank, back, allBlank_takeWhile s,
    fun c hc => allBlank_takeWhile _ c (List.mem_reverse.mp hc), ⟨fun c hc => ?_, ?_⟩, ?_⟩
  · refine head?_dropWhile_isBlank s c ?_
    show rest.head? = some c
    rw [hrest, List.head?_append, hc]
    rfl
  · rw [trim, List.getLast?_reverse]
    exact head?_dropWhile_isBlank _
  · rw [List.append_assoc, ← hrest, List.takeWhile_append_dropWhile]

end Text

end KanaKanji
