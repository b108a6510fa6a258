/-
What the old tail gave, and what the new key began.

A key that the table does not continue the tail with lets the tail out and then does what it does
with no tail before it.  `RomajiTable.feedSplit` tells the two apart by taking the text of the
second off the end of all that the key lets out.  The kana of rules may repeat or contain one
another, so that such an ending may stand in the text at several places; what is taken off is
nevertheless what the key itself gave, because the whole is put together from the two.

* `RomajiTable.restart_eq_released`: what such a key lets out is what the tail is released as and
  what the key gives by itself;
* `RomajiTable.feedSplit_lossless`: the two parts of a split, for every tail and every key.
-/
import KanaKanji.Proofs.Romaji.Pieces

namespace KanaKanji

namespace RomajiTable

variable {table : RomajiTable} {tail : Text}

/-! ### Keys that do not continue the tail -/

/-- What a tail is released as by a key that does not continue it: one of two equal consonants is
っ, and anything else is what it would be at the end of the text. -/
def released (table : RomajiTable) (tail : Text) (key : Char) : Text :=
  if tail = [key] ∧ doubles key = true then ['っ'] else table.flush tail

/-- A key that waits has let nothing out, when nothing was before it. -/
theorem emitted_start_of_waiting {key : Char} (h : (table.start key).tail ≠ []) :
    (table.start key).emitted = [] := by
  unfold start at h ⊢
  split
  · rename_i hlookup
    rw [hlookup] at h
    exact absurd rfl h
  · rfl
  · rfl
  · rename_i hlookup
    rw [hlookup] at h
    exact absurd rfl h

/-- **What the tail is released as stands before what the key gives by itself.** -/
theorem restart_eq_released (htail : table.IsTail tail) (hne : tail ≠ []) (key : Char) :
    (table.restart tail key).emitted = table.released tail key ++ (table.start key).emitted ∧
      (table.restart tail key).tail = (table.start key).tail := by
  by_cases hdouble : tail = [key] ∧ doubles key = true
  · -- the key is a tail, so that it waits by itself
    have hwaits : (table.start key).tail = [key] := by
      rw [tail_start, if_pos (hdouble.1 ▸ continues_of_isTail htail hne)]
    have hemitted : (table.start key).emitted = [] := by
      refine emitted_start_of_waiting ?_
      rw [hwaits]
      exact List.cons_ne_nil key []
    rw [restart, if_pos hdouble, released, if_pos hdouble, hwaits, hemitted]
    exact ⟨rfl, rfl⟩
  · rw [restart_eq_after htail hne hdouble, released, if_neg hdouble, output_held htail hne]
    exact ⟨rfl, rfl⟩

/-! ### Splitting -/

/-- A key that has no tail before it, or that continues the tail, takes all of it. -/
theorem feedSplit_of_continues {key : Char}
    (h : tail = [] ∨ table.lookup (tail ++ [key.toLower]) ≠ .nothing) :
    table.feedSplit tail key = ([], table.feed tail key) := by
  have hwhole : (tail.isEmpty || table.lookup (tail ++ [key.toLower]) != .nothing) = true := by
    simpa using h
  rw [feedSplit, if_pos hwhole]

/-- Any other key leaves what the tail is released as, and makes the step that it makes with no
tail before it. -/
theorem feedSplit_of_released (htail : table.IsTail tail) (hne : tail ≠ []) {key : Char}
    (hlookup : table.lookup (tail ++ [key.toLower]) = .nothing) :
    table.feedSplit tail key
      = (table.released tail key.toLower, table.feed [] key) := by
  have hsplit : ¬ (tail.isEmpty || table.lookup (tail ++ [key.toLower]) != .nothing) = true := by
    simp [hne, hlookup]
  obtain ⟨hemitted, hrest⟩ := restart_eq_released htail hne key.toLower
  rw [feedSplit, if_neg hsplit, feed_of_nothing hne hlookup, hemitted, hrest]
  dsimp only
  rw [Text.dropEnding?_append]
  rfl

/-- **What the old tail gave and what the key began are all that the key lets out.** -/
theorem emitted_feedSplit (htail : table.IsTail tail) (key : Char) :
    (table.feedSplit tail key).1 ++ (table.feedSplit tail key).2.emitted
      = (table.feed tail key).emitted := by
  by_cases h : tail = [] ∨ table.lookup (tail ++ [key.toLower]) ≠ .nothing
  · rw [feedSplit_of_continues h]
    rfl
  · obtain ⟨hne, hlookup⟩ := not_or.mp h
    have hlookup : table.lookup (tail ++ [key.toLower]) = .nothing :=
      Decidable.of_not_not hlookup
    rw [feedSplit_of_released htail hne hlookup, feed_of_nothing hne hlookup]
    exact (restart_eq_released htail hne key.toLower).1.symm

/-- **Splitting loses nothing.**  The head and what the step emits are together what the key lets
out, and the new tail is the same.  The head is empty, and the step the whole step, where nothing
was pending and where the pending keys with the new one are a key of the table or the beginning of
one.  In every other case the step is the one that the key makes with no tail before it, and the
head is っ for a doubled consonant, or else what the tail resolves to at the end of a text. -/
theorem feedSplit_lossless (table : RomajiTable) {tail : Text} (htail : table.IsTail tail)
    (key : Char) :
    let head := (table.feedSplit tail key).1
    let step := (table.feedSplit tail key).2
    let whole := table.feed tail key
    head ++ step.emitted = whole.emitted ∧ step.tail = whole.tail ∧
      (tail = [] ∨ ¬ table.StartsNoKey (tail ++ [key.toLower]) → head = [] ∧ step = whole) ∧
      (tail ≠ [] → table.StartsNoKey (tail ++ [key.toLower]) →
        step = table.feed [] key ∧
        (tail = [key.toLower] ∧ doubles key.toLower = true → head = ['っ']) ∧
        (¬ (tail = [key.toLower] ∧ doubles key.toLower = true) → head = table.flush tail)) := by
  intro head step whole
  have hnothing : table.lookup (tail ++ [key.toLower]) = .nothing ↔
      table.StartsNoKey (tail ++ [key.toLower]) :=
    lookup_eq_nothing_iff (List.append_ne_nil_of_right_ne_nil tail (List.cons_ne_nil _ _))
  refine ⟨emitted_feedSplit htail key, tail_feedSplit tail key, fun h => ?_, fun hne h => ?_⟩
  · rw [← hnothing] at h
    have hsplit : table.feedSplit tail key = ([], whole) := feedSplit_of_continues h
    exact ⟨congrArg Prod.fst hsplit, congrArg Prod.snd hsplit⟩
  · have hsplit := feedSplit_of_released htail hne (hnothing.mpr h)
    have hhead : head = table.released tail key.toLower := congrArg Prod.fst hsplit
    refine ⟨congrArg Prod.snd hsplit, fun hdouble => ?_, fun hdouble => ?_⟩
    · rw [hhead, released, if_pos hdouble]
    · rw [hhead, released, if_neg hdouble]

/-- A table in which the kana of one key repeat those of another: x may go on, and is ああ where it
does not. -/
def repeating : RomajiTable :=
  ⟨Index.ofList [("a".toList, "あ".toList), ("x".toList, "ああ".toList), ("xa".toList, "ぁ".toList),
    ("b".toList, "あ".toList)], firstFault_eq_none_iff.mp (by decide +kernel)⟩

/-- B behind x lets out あああ, of which two are of the x and one is of the b. -/
theorem feedSplit_lossless_repeating :
    repeating.IsTail ['x'] ∧ (repeating.feed ['x'] 'B').emitted = "あああ".toList ∧
      repeating.StartsNoKey "xb".toList ∧
      (repeating.feedSplit ['x'] 'B').1 = "ああ".toList ∧
      (repeating.feedSplit ['x'] 'B').2.emitted = "あ".toList ∧
      (repeating.feedSplit ['x'] 'B').2.tail = [] := by
  have htail : repeating.IsTail ['x'] := isTail_of_continues (by decide +kernel)
  have hstarts : repeating.StartsNoKey "xb".toList := by decide +kernel
  obtain ⟨hemitted, hrest, -, hother⟩ := feedSplit_lossless repeating htail 'B'
  obtain ⟨hstep, -, hhead⟩ := hother (List.cons_ne_nil _ _) hstarts
  have hflush := hhead (by decide +kernel)
  refine ⟨htail, by decide +kernel, hstarts, ?_, ?_, ?_⟩
  · rw [hflush]
    decide +kernel
  · rw [hstep]
    decide +kernel
  · rw [hstep]
    decide +kernel

end RomajiTable

end KanaKanji
