/-
Tables in which no key is the beginning of another.

In the order of the keys, a key that is the beginning of any is the beginning of the next.  So it
is enough to compare neighbours, as is done for the built-in table.

* `RomajiTable.prefixFree_of_neighboursApart`: no key is the beginning of another when none is the
  beginning of the next;
* `RomajiTable.PrefixFree.flush_of_isTail`: then a tail is no key, and is resolved to itself,
  unless it is a held `n`.
-/
import KanaKanji.Proofs.Romaji.Tail
import KanaKanji.Romaji.Builtin
import Mathlib.Data.List.Pairwise

namespace KanaKanji

/-! ### Beginnings in the order of texts -/

namespace Text

theorem before_of_prefix {s t : Text} (h : s <+: t) (hne : s ≠ t) : before s t = true := by
  obtain ⟨rest, rfl⟩ := h
  induction s with
  | nil =>
    cases rest with
    | nil => exact absurd rfl hne
    | cons c rest => rfl
  | cons c s ih =>
    rw [List.cons_append, before_cons_cons]
    exact Or.inr ⟨rfl, ih fun he => hne (congrArg (List.cons c) he)⟩

/-- What lies between a text and one that it begins, it begins too. -/
theorem prefix_of_before {s t u : Text} (hst : before s t = true) (htu : before t u = true)
    (h : s <+: u) : s <+: t := by
  induction s generalizing t u with
  | nil => exact List.nil_prefix
  | cons a s ih =>
    cases t with
    | nil => exact nomatch hst
    | cons b t =>
      cases u with
      | nil => exact nomatch List.prefix_nil.mp h
      | cons c u =>
        obtain ⟨rfl, hsu⟩ := List.cons_prefix_cons.mp h
        rw [before_cons_cons] at hst htu
        rcases hst with hlt | ⟨rfl, hst⟩
        · rcases htu with hgt | ⟨rfl, -⟩
          · exact absurd hlt (Nat.lt_asymm hgt)
          · exact absurd hlt (Nat.lt_irrefl _)
        · rcases htu with hlt | ⟨-, htu⟩
          · exact absurd hlt (Nat.lt_irrefl _)
          · exact List.cons_prefix_cons.mpr ⟨rfl, ih hst htu hsu⟩

end Text

/-- No text is the beginning of the next one. -/
def neighboursApart {α : Type} : List (Text × α) → Bool
  | a :: b :: items => !a.1.isPrefixOf b.1 && neighboursApart (b :: items)
  | _ => true

/-- In order no text is then the beginning of any other. -/
theorem pairwise_of_neighboursApart {α : Type} {items : List (Text × α)} (h : Ascending items)
    (hapart : neighboursApart items = true) :
    items.Pairwise fun a b => ¬ a.1 <+: b.1 ∧ ¬ b.1 <+: a.1 := by
  induction items with
  | nil => exact List.Pairwise.nil
  | cons a items ih =>
    cases items with
    | nil => exact List.pairwise_singleton _ _
    | cons b items =>
      simp only [neighboursApart, Bool.and_eq_true, Bool.not_eq_true'] at hapart
      have hrest : Ascending (b :: items) := List.Pairwise.of_cons h
      have hnext : ¬ a.1 <+: b.1 := by
        rw [← List.isPrefixOf_iff_prefix, hapart.1]
        exact Bool.false_ne_true
      refine List.Pairwise.cons (fun c hc => ⟨fun hprefix => ?_, fun hprefix => ?_⟩)
        (ih hrest hapart.2)
      · rcases List.mem_cons.mp hc with rfl | hc'
        · exact hnext hprefix
        · -- the next text lies between them
          have hab : Text.before a.1 b.1 = true := List.rel_of_pairwise_cons h List.mem_cons_self
          have hbc : Text.before b.1 c.1 = true := List.rel_of_pairwise_cons hrest hc'
          exact hnext (Text.prefix_of_before hab hbc hprefix)
      · have hac : Text.before a.1 c.1 = true := List.rel_of_pairwise_cons h hc
        have hne : c.1 ≠ a.1 := by
          intro he
          rw [he, Text.before_irrefl] at hac
          exact nomatch hac
        have hloop := Text.before_trans hac (Text.before_of_prefix hprefix hne)
        rw [Text.before_irrefl] at hloop
        exact nomatch hloop

namespace RomajiTable

variable {table : RomajiTable}

/-! ### Prefix-free tables -/

/-- No key is the beginning of another. -/
def PrefixFree (table : RomajiTable) : Prop :=
  ∀ rule ∈ table.rules.items, table.continues rule.1 = false

/-- **No key is the beginning of another** when none is the beginning of the next. -/
theorem prefixFree_of_neighboursApart (h : neighboursApart table.rules.items = true) :
    table.PrefixFree := by
  intro rule hrule
  rw [← Bool.not_eq_true, continues_iff]
  rintro ⟨other, hother, hprefix, hne⟩
  have hsymm : Std.Symm fun a b : Text × Text => ¬ a.1 <+: b.1 ∧ ¬ b.1 <+: a.1 :=
    ⟨fun _ _ hab => ⟨hab.2, hab.1⟩⟩
  have hapart := pairwise_of_neighboursApart table.rules.ascending h
  exact (hapart.forall hrule hother fun he => hne (congrArg Prod.fst he)).1 hprefix

theorem prefixFree_builtin : builtin.PrefixFree :=
  prefixFree_of_neighboursApart (by decide +kernel)

/-- A key is a whole one. -/
theorem PrefixFree.lookup_of_mem (hfree : table.PrefixFree) {key kana : Text}
    (h : (key, kana) ∈ table.rules.items) : table.lookup key = .whole kana := by
  have hkana : table.kana? key = some kana := Index.mem_items_iff.mp h
  have hcontinues : table.continues key = false := hfree _ h
  rw [lookup, if_neg (by simpa using key_ne_nil h), hkana, hcontinues]

/-- A tail is no key. -/
theorem PrefixFree.lookup_of_isTail (hfree : table.PrefixFree) {tail : Text}
    (h : table.IsTail tail) (hne : tail ≠ []) : table.lookup tail = .stem := by
  have hcontinues := continues_of_isTail h hne
  have hkana : table.kana? tail = none := by
    refine Option.eq_none_iff_forall_ne_some.mpr fun kana hk => ?_
    have hrule : (tail, kana) ∈ table.rules.items := Index.mem_items_iff.mpr hk
    exact nomatch (hfree _ hrule).symm.trans hcontinues
  rw [lookup, if_neg (by simpa using hne), hkana, hcontinues]

/-- A tail resolves to itself, but for a held `n`. -/
theorem PrefixFree.flush_of_isTail (hfree : table.PrefixFree) {tail : Text}
    (h : table.IsTail tail) : table.flush tail = if tail = ['n'] then ['ん'] else tail := by
  unfold flush
  by_cases hn : tail = ['n']
  · rw [if_pos hn, if_pos hn]
  rw [if_neg hn, if_neg hn]
  by_cases hnil : tail = []
  · rw [hnil]
    rfl
  · rw [hfree.lookup_of_isTail h hnil]

end RomajiTable

end KanaKanji
