/-
Tails of romaji: what waits for the next key.

A tail is the proper beginning of some key of the table, or empty.  No operation of the
transliterator leaves anything else behind:

* `RomajiTable.isTail_feed`: the tail after a key is a tail again;
* `RomajiTable.isTail_dropLast`: so is a tail without its last letter.

The main point is that a key is only held back when the table continues what is held.  So a
key that makes text leave the tail and is itself held back takes the tail's place
(`RomajiTable.Displaces`).
-/
import KanaKanji.Romaji.Transliteration

namespace KanaKanji

namespace RomajiTable

variable {table : RomajiTable}

/-- Nothing, or the proper beginning of a key of the table. -/
def IsTail (table : RomajiTable) (tail : Text) : Prop :=
  tail = [] ∨ ∃ rule ∈ table.rules.items, tail <+: rule.1 ∧ tail ≠ rule.1

theorem isTail_nil : table.IsTail [] := Or.inl rfl

/-! ### Looking up -/

@[simp] theorem lookup_nil : table.lookup [] = .nothing := rfl

theorem key_ne_nil {key kana : Text} (h : (key, kana) ∈ table.rules.items) : key ≠ [] := by
  have hromaji : isRomaji key = true := (table.sound _ h).1
  rintro rfl
  exact nomatch hromaji

theorem continues_iff {romaji : Text} :
    table.continues romaji = true ↔
      ∃ rule ∈ table.rules.items, romaji <+: rule.1 ∧ romaji ≠ rule.1 := by
  simp only [continues, List.any_eq_true, Bool.and_eq_true, List.isPrefixOf_iff_prefix,
    bne_iff_ne, ne_comm]

/-- No key of the table starts with the text. -/
def StartsNoKey (table : RomajiTable) (romaji : Text) : Prop :=
  ∀ rule ∈ table.rules.items, ¬ romaji <+: rule.1

instance (table : RomajiTable) (romaji : Text) : Decidable (table.StartsNoKey romaji) :=
  decidable_of_iff ((table.rules.items.any fun rule => romaji.isPrefixOf rule.1) = false)
    (by simp only [StartsNoKey, List.any_eq_false, List.isPrefixOf_iff_prefix])

theorem isTail_of_continues {romaji : Text} (h : table.continues romaji = true) :
    table.IsTail romaji :=
  Or.inr (continues_iff.mp h)

/-- What the table neither rejects nor completes, it continues. -/
theorem continues_of_lookup {romaji : Text}
    (h : table.lookup romaji = .stem ∨ ∃ kana, table.lookup romaji = .wholeAndStem kana) :
    table.continues romaji = true := by
  unfold lookup at h
  split at h
  · simp at h
  · cases hk : table.kana? romaji <;> cases hc : table.continues romaji <;> simp_all

/-- What is found as a key is the key of a rule. -/
theorem mem_rules_of_lookup {romaji kana : Text}
    (h : table.lookup romaji = .whole kana ∨ table.lookup romaji = .wholeAndStem kana) :
    (romaji, kana) ∈ table.rules.items := by
  refine Index.mem_items_iff.mpr (show table.kana? romaji = some kana from ?_)
  unfold lookup at h
  split at h
  · simp at h
  · cases hk : table.kana? romaji <;> cases hc : table.continues romaji <;> simp_all

/-- A text is nothing to the table when no key starts with it, and only then. -/
theorem lookup_eq_nothing_iff {romaji : Text} (hne : romaji ≠ []) :
    table.lookup romaji = .nothing ↔ table.StartsNoKey romaji := by
  have hlookup : table.lookup romaji = .nothing ↔
      table.kana? romaji = none ∧ table.continues romaji = false := by
    rw [lookup, if_neg (by simpa using hne)]
    cases table.kana? romaji <;> cases table.continues romaji <;> simp
  rw [hlookup]
  constructor
  · rintro ⟨hkana, hcontinues⟩ rule hrule hprefix
    by_cases he : romaji = rule.1
    · -- it would be a key itself
      have hfound : table.kana? romaji = some rule.2 := Index.mem_items_iff.mp (he ▸ hrule)
      exact nomatch hkana.symm.trans hfound
    · exact nomatch hcontinues.symm.trans (continues_iff.mpr ⟨rule, hrule, hprefix, he⟩)
  · intro h
    constructor
    · refine Option.eq_none_iff_forall_ne_some.mpr fun kana hkana => ?_
      exact h (romaji, kana) (Index.mem_items_iff.mpr hkana) (List.prefix_refl romaji)
    · rw [← Bool.not_eq_true, continues_iff]
      rintro ⟨rule, hrule, hprefix, -⟩
      exact h rule hrule hprefix

/-- A tail is continued by the table, so that it is no complete key. -/
theorem continues_of_isTail {tail : Text} (h : table.IsTail tail) (hne : tail ≠ []) :
    table.continues tail = true :=
  continues_iff.mpr (h.resolve_left hne)

/-! ### Keys -/

theorem isTail_start (key : Char) : table.IsTail (table.start key).tail := by
  unfold start
  split
  · exact isTail_nil
  · rename_i h
    exact isTail_of_continues (continues_of_lookup (Or.inl h))
  · rename_i h
    exact isTail_of_continues (continues_of_lookup (Or.inr ⟨_, h⟩))
  · exact isTail_nil

@[simp] theorem tail_after (step : Step) (head : Text) (kind : StepKind) :
    (step.after head kind).tail = step.tail := rfl

/-- A doubled consonant stays as it was; otherwise the key starts afresh. -/
theorem isTail_restart {tail : Text} (h : table.IsTail tail) (key : Char) :
    table.IsTail (table.restart tail key).tail := by
  unfold restart
  split
  · rename_i hd
    -- of the doubled consonant one is kept, which was the tail before
    exact hd.1 ▸ h
  · split
    · exact isTail_start key
    · split
      · exact isTail_start key
      · exact isTail_start key

/-- A tail that the table does not continue with the key resolves first. -/
theorem feed_of_nothing {tail : Text} (hne : tail ≠ []) {key : Char}
    (hlookup : table.lookup (tail ++ [key.toLower]) = .nothing) :
    table.feed tail key = table.restart tail key.toLower := by
  rw [feed, if_neg (by simpa using hne), hlookup]

/-- **The tail after a key is a tail.** -/
theorem isTail_feed {tail : Text} (h : table.IsTail tail) (key : Char) :
    table.IsTail (table.feed tail key).tail := by
  unfold feed
  dsimp only
  split
  · exact isTail_start _
  · split
    · exact isTail_nil
    · rename_i hl
      exact isTail_of_continues (continues_of_lookup (Or.inl hl))
    · rename_i hl
      exact isTail_of_continues (continues_of_lookup (Or.inr ⟨_, hl⟩))
    · exact isTail_restart h _

theorem tail_feedSplit (tail : Text) (key : Char) :
    (table.feedSplit tail key).2.tail = (table.feed tail key).tail := by
  unfold feedSplit
  dsimp only
  split
  · rfl
  · rfl

/-- A tail stays one when its last letter is taken away. -/
theorem isTail_dropLast {tail : Text} (h : table.IsTail tail) :
    table.IsTail tail.dropLast := by
  rcases h with rfl | ⟨rule, hrule, hpre, hne⟩
  · exact isTail_nil
  · refine Or.inr ⟨rule, hrule, (List.dropLast_prefix tail).trans hpre, ?_⟩
    intro he
    have hlen := hpre.length_le
    rw [← he, List.length_dropLast] at hlen
    -- so the tail was empty, and it is the key itself
    have hnil : tail = [] := List.length_eq_zero_iff.mp (by omega)
    rw [hnil] at he hne
    exact hne he

/-! ### Keys that take the place of a tail -/

/-- The key takes the tail's place: the table does not continue the tail with it, and it waits
itself. -/
def Displaces (table : RomajiTable) (tail : Text) (key : Char) : Prop :=
  tail ≠ [] ∧ table.lookup (tail ++ [key.toLower]) = .nothing ∧
    (tail = [key.toLower] ∧ doubles key.toLower = true ∨ table.continues [key.toLower] = true)

instance (table : RomajiTable) (tail : Text) (key : Char) :
    Decidable (table.Displaces tail key) :=
  inferInstanceAs (Decidable (_ ∧ _ ∧ _))

/-- A key with no tail before it waits when the table continues it, and only then. -/
theorem tail_start (key : Char) :
    (table.start key).tail = if table.continues [key] = true then [key] else [] := by
  unfold start lookup
  simp only [List.isEmpty_cons, Bool.false_eq_true, if_false]
  cases table.kana? [key] <;> cases table.continues [key] <;> rfl

/-- **A key that makes text leave the tail** waits itself exactly when it takes the tail's
place. -/
theorem tail_feed_of_emitted {tail : Text} {key : Char}
    (hemitted : (table.feed tail key).emitted ≠ []) :
    (table.Displaces tail key → (table.feed tail key).tail = [key.toLower]) ∧
      (¬ table.Displaces tail key → (table.feed tail key).tail = []) := by
  unfold feed at hemitted ⊢
  dsimp only at hemitted ⊢
  cases tail with
  | nil =>
    refine ⟨fun h => absurd rfl h.1, fun _ => ?_⟩
    -- a key that waits emits nothing
    show (table.start key.toLower).tail = []
    have hstart : (table.start key.toLower).emitted ≠ [] := hemitted
    unfold start at hstart ⊢
    split at hstart
    · rfl
    · exact absurd rfl hstart
    · exact absurd rfl hstart
    · rfl
  | cons c cs =>
    simp only [List.isEmpty_cons, Bool.false_eq_true, if_false] at hemitted ⊢
    cases hl : table.lookup (c :: cs ++ [key.toLower]) with
    | whole kana =>
      refine ⟨fun h => ?_, fun _ => rfl⟩
      have hnothing := h.2.1
      rw [hl] at hnothing
      exact nomatch hnothing
    | stem =>
      rw [hl] at hemitted
      exact absurd rfl hemitted
    | wholeAndStem kana =>
      rw [hl] at hemitted
      exact absurd rfl hemitted
    | nothing =>
      show (_ → (table.restart (c :: cs) key.toLower).tail = _) ∧
        (_ → (table.restart (c :: cs) key.toLower).tail = _)
      by_cases hd : c :: cs = [key.toLower] ∧ doubles key.toLower = true
      · rw [restart, if_pos hd]
        exact ⟨fun _ => rfl, fun h => absurd ⟨List.cons_ne_nil c cs, hl, Or.inl hd⟩ h⟩
      · have htail : (table.restart (c :: cs) key.toLower).tail
            = (table.start key.toLower).tail := by
          rw [restart, if_neg hd]
          split
          · rfl
          · split
            · rfl
            · rfl
        rw [htail, tail_start]
        refine ⟨fun h => if_pos (h.2.2.resolve_left hd), fun h => if_neg fun hc => ?_⟩
        exact h ⟨List.cons_ne_nil c cs, hl, Or.inr hc⟩

end RomajiTable

end KanaKanji
