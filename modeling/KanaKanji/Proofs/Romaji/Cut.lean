/-
Texts that are cut in two.

Keys are fed one by one, so a text can be fed in pieces as long as the tail is carried over
the cut (`RomajiTable.feedAll_append`, `convertFrom_append`).  Where the tail is resolved at
the cut instead, the pieces are converted each by itself.

* `RomajiTable.convert_append_iff`: they give what the whole text gives exactly when it makes
  no difference to the rest whether the tail is resolved or carried over;
* `RomajiTable.convert_append_of_not_joins`: so it is when the next key neither continues
  the tail nor doubles it.

`RomajiTable.cut` cuts a text where as many kana have resolved as a limit allows.
-/
import KanaKanji.Proofs.Romaji.Tail

namespace KanaKanji

namespace RomajiTable

variable {table : RomajiTable}

/-! ### Converting from a tail on -/

/-- A text in kana, with a tail before it. -/
def convertFrom (table : RomajiTable) (tail romaji : Text) : Text :=
  (table.feedAll tail romaji).1 ++ table.flush (table.feedAll tail romaji).2

theorem convert_eq_convertFrom (romaji : Text) :
    table.convert romaji = table.convertFrom [] romaji := rfl

@[simp] theorem flush_nil : table.flush [] = [] := rfl

theorem feedAll_cons (tail : Text) (key : Char) (keys : Text) :
    table.feedAll tail (key :: keys) =
      ((table.feed tail key).emitted ++ (table.feedAll (table.feed tail key).tail keys).1,
        (table.feedAll (table.feed tail key).tail keys).2) := rfl

theorem feedAll_append (tail first second : Text) :
    table.feedAll tail (first ++ second) =
      ((table.feedAll tail first).1 ++ (table.feedAll (table.feedAll tail first).2 second).1,
        (table.feedAll (table.feedAll tail first).2 second).2) := by
  induction first generalizing tail with
  | nil => rfl
  | cons key keys ih =>
    rw [List.cons_append, feedAll_cons, feedAll_cons, ih, List.append_assoc]

/-- What the keys of a text leave behind is a tail. -/
theorem isTail_feedAll {tail : Text} (h : table.IsTail tail) (romaji : Text) :
    table.IsTail (table.feedAll tail romaji).2 := by
  induction romaji generalizing tail with
  | nil => exact h
  | cons key keys ih => exact ih (isTail_feed h key)

@[simp] theorem convertFrom_nil (tail : Text) : table.convertFrom tail [] = table.flush tail :=
  rfl

theorem convertFrom_cons (tail : Text) (key : Char) (keys : Text) :
    table.convertFrom tail (key :: keys) =
      (table.feed tail key).emitted ++ table.convertFrom (table.feed tail key).tail keys := by
  rw [convertFrom, feedAll_cons, List.append_assoc]
  rfl

/-- A text that is fed in pieces gives the same when the tail is carried over. -/
theorem convertFrom_append (tail first second : Text) :
    table.convertFrom tail (first ++ second) =
      (table.feedAll tail first).1 ++
        table.convertFrom (table.feedAll tail first).2 second := by
  rw [convertFrom, feedAll_append, List.append_assoc]
  rfl

/-! ### Pieces converted each by itself -/

/-- **Converting two pieces each by itself converts the whole** exactly when the second does
not care whether the tail of the first is resolved before it. -/
theorem convert_append_iff (first second : Text) :
    table.convert first ++ table.convert second = table.convert (first ++ second) ↔
      table.flush (table.feedAll [] first).2 ++ table.convert second
        = table.convertFrom (table.feedAll [] first).2 second := by
  rw [convert_eq_convertFrom (first ++ second), convertFrom_append,
    convert_eq_convertFrom first, convertFrom, List.append_assoc]
  exact List.append_right_inj _

/-- The key goes with the tail: the table continues the tail with it, or it doubles it. -/
def Joins (table : RomajiTable) (tail : Text) (key : Char) : Prop :=
  tail ≠ [] ∧
    (table.lookup (tail ++ [key.toLower]) ≠ .nothing ∨
      tail = [key.toLower] ∧ doubles key.toLower = true)

/-- A tail to which the key does not go resolves as if no key followed. -/
theorem feed_of_not_joins {tail : Text} (htail : table.IsTail tail) {key : Char}
    (h : ¬ table.Joins tail key) :
    (table.feed tail key).emitted = table.flush tail ++ (table.feed [] key).emitted ∧
      (table.feed tail key).tail = (table.feed [] key).tail := by
  by_cases hnil : tail = []
  · subst hnil
    exact ⟨rfl, rfl⟩
  have hlookup : table.lookup (tail ++ [key.toLower]) = .nothing :=
    Decidable.byContradiction fun hne => h ⟨hnil, Or.inl hne⟩
  have hdouble : ¬ (tail = [key.toLower] ∧ doubles key.toLower = true) := by
    intro hd
    exact h ⟨hnil, Or.inr hd⟩
  have hcont := continues_of_isTail htail hnil
  have hempty : tail.isEmpty = false := by simpa using hnil
  rw [feed_of_nothing hnil hlookup, restart, if_neg hdouble, flush]
  -- a held n is ん either way
  by_cases hn : tail = ['n']
  · rw [if_pos hn, if_pos hn]
    exact ⟨rfl, rfl⟩
  rw [if_neg hn, if_neg hn]
  -- the table continues the tail, so that it cannot be a whole key
  rw [lookup, hempty, if_neg Bool.false_ne_true, hcont]
  cases table.kana? tail with
  | none => exact ⟨rfl, rfl⟩
  | some kana => exact ⟨rfl, rfl⟩

/-- **A cut does no harm where the next key does not go with the tail.** -/
theorem convert_append_of_not_joins {first second : Text}
    (h : ∀ key ∈ second.head?, ¬ table.Joins (table.feedAll [] first).2 key) :
    table.convert first ++ table.convert second = table.convert (first ++ second) := by
  rw [convert_append_iff]
  cases second with
  | nil => exact List.append_nil _
  | cons key keys =>
    have htail : table.IsTail (table.feedAll [] first).2 := isTail_feedAll isTail_nil first
    obtain ⟨hemitted, hrest⟩ := feed_of_not_joins htail (h key rfl)
    rw [convert_eq_convertFrom, convertFrom_cons, convertFrom_cons, hemitted, hrest,
      List.append_assoc]

/-! ### Cutting at a limit -/

/-- The keys of a text up to when so many characters have resolved, and the keys after
them. -/
def cut (table : RomajiTable) (limit : Nat) (tail : Text) : Text → Text × Text
  | [] => ([], [])
  | key :: keys =>
    if limit = 0 then ([], key :: keys)
    else
      let step := table.feed tail key
      let (first, second) := table.cut (limit - step.emitted.length) step.tail keys
      (key :: first, second)

@[simp] theorem cut_nil (limit : Nat) (tail : Text) : table.cut limit tail [] = ([], []) := rfl

theorem cut_zero (tail romaji : Text) : table.cut 0 tail romaji = ([], romaji) := by
  cases romaji with
  | nil => rfl
  | cons key keys => rfl

theorem cut_cons {limit : Nat} (h : limit ≠ 0) (tail : Text) (key : Char) (keys : Text) :
    table.cut limit tail (key :: keys) =
      let step := table.feed tail key
      let pieces := table.cut (limit - step.emitted.length) step.tail keys
      (key :: pieces.1, pieces.2) := by
  rw [cut, if_neg h]

/-- Nothing is lost at the cut. -/
theorem cut_append (limit : Nat) (tail romaji : Text) :
    (table.cut limit tail romaji).1 ++ (table.cut limit tail romaji).2 = romaji := by
  induction romaji generalizing limit tail with
  | nil => rfl
  | cons key keys ih =>
    by_cases h : limit = 0
    · subst h
      rfl
    · rw [cut_cons h]
      exact congrArg (key :: ·) (ih _ _)

end RomajiTable

end KanaKanji
