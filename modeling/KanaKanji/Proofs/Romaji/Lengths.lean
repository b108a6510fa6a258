/-
How much text a key lets out.

A bound on the keys and the kana of a table (`RomajiTable.RulesWithin`) bounds all that the
transliterator handles.  A tail is shorter than the key that it begins, and it leaves as one
kana, or as it is; behind it comes at most what the new key gives by itself.

* `RomajiTable.length_emitted_feed_le`: a key lets out no more than two rules have, and one
  character that is in no rule;
* `RomajiTable.length_emitted_le_of_waiting`: when the key itself waits, no more than one rule has.
-/
import KanaKanji.Proofs.Romaji.Split

namespace KanaKanji

namespace RomajiTable

/-- No key and no kana of the table has more characters than `size`. -/
def RulesWithin (table : RomajiTable) (size : Nat) : Prop :=
  ∀ rule ∈ table.rules.items, rule.1.length ≤ size ∧ rule.2.length ≤ size

instance (table : RomajiTable) (size : Nat) : Decidable (table.RulesWithin size) :=
  inferInstanceAs (Decidable (∀ rule ∈ table.rules.items, _ ∧ _))

variable {table : RomajiTable} {size : Nat} {tail : Text}

/-! ### Lengths -/

section

variable (hsize : table.RulesWithin size)
include hsize

/-- A tail is shorter than the key that it begins. -/
theorem length_lt_of_isTail (htail : table.IsTail tail) (hne : tail ≠ []) :
    tail.length < size := by
  obtain ⟨rule, hrule, hpre, hproper⟩ := htail.resolve_left hne
  have hkey := (hsize rule hrule).1
  have hle := hpre.length_le
  have hlength : tail.length ≠ rule.1.length := fun h => hproper (hpre.eq_of_length h)
  omega

theorem length_flush_le (htail : table.IsTail tail) (hne : tail ≠ []) :
    (table.flush tail).length ≤ size := by
  have hlt := length_lt_of_isTail hsize htail hne
  unfold flush
  split
  · rw [List.length_singleton]
    omega
  · split
    · rename_i hlookup
      exact (hsize _ (mem_rules_of_lookup (Or.inl hlookup))).2
    · rename_i hlookup
      exact (hsize _ (mem_rules_of_lookup (Or.inr hlookup))).2
    · omega

theorem length_emitted_start_le (key : Char) :
    (table.start key).emitted.length ≤ size + 1 := by
  unfold start
  split
  · rename_i hlookup
    have hkana := (hsize _ (mem_rules_of_lookup (Or.inl hlookup))).2
    dsimp only at hkana ⊢
    omega
  · exact Nat.zero_le _
  · exact Nat.zero_le _
  · exact Nat.succ_le_succ (Nat.zero_le size)

/-- A key that cannot continue a tail lets out the tail, and what it gives by itself. -/
theorem length_emitted_restart_le (htail : table.IsTail tail) (hne : tail ≠ []) (key : Char) :
    (table.restart tail key).emitted.length ≤ size + (table.start key).emitted.length := by
  have hle : (table.released tail key).length ≤ size := by
    unfold released
    split
    · have hlt := length_lt_of_isTail hsize htail hne
      rw [List.length_singleton]
      omega
    · exact length_flush_le hsize htail hne
  rw [(restart_eq_released htail hne key).1, List.length_append]
  omega

/-- **A key lets out no more than two rules have**, and one character that is in no rule. -/
theorem length_emitted_feed_le (htail : table.IsTail tail) (key : Char) :
    (table.feed tail key).emitted.length ≤ 2 * size + 1 := by
  have hstart := length_emitted_start_le hsize key.toLower
  by_cases hnil : tail = []
  · subst hnil
    show (table.start key.toLower).emitted.length ≤ _
    omega
  · rw [feed, if_neg (by simpa using hnil)]
    split
    · rename_i hlookup
      have hkana := (hsize _ (mem_rules_of_lookup (Or.inl hlookup))).2
      dsimp only at hkana ⊢
      omega
    · exact Nat.zero_le _
    · exact Nat.zero_le _
    · have hrestart := length_emitted_restart_le hsize htail hnil key.toLower
      omega

/-- When the key waits, no more than one rule has is let out. -/
theorem length_emitted_le_of_waiting (htail : table.IsTail tail) {key : Char}
    (hwaits : (table.feed tail key).tail ≠ []) :
    (table.feed tail key).emitted.length ≤ size := by
  by_cases hnil : tail = []
  · subst hnil
    have hemitted : (table.feed [] key).emitted = [] := emitted_start_of_waiting hwaits
    rw [hemitted]
    exact Nat.zero_le size
  · rw [feed, if_neg (by simpa using hnil)] at hwaits ⊢
    split
    · rename_i hlookup
      rw [hlookup] at hwaits
      exact absurd rfl hwaits
    · exact Nat.zero_le _
    · exact Nat.zero_le _
    · rename_i hlookup
      rw [hlookup] at hwaits
      have hkey : (table.start key.toLower).emitted = [] := by
        refine emitted_start_of_waiting ?_
        rw [← (restart_eq_released htail hnil key.toLower).2]
        exact hwaits
      have hle := length_emitted_restart_le hsize htail hnil key.toLower
      rw [hkey] at hle
      exact hle

end

end RomajiTable

end KanaKanji
