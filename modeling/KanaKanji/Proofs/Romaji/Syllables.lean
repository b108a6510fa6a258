/-
Romaji as it is meant to be written.

In a table whose keys are in lower case, and of which none begins another, a text is well formed
when it is made of syllables: keys, keys whose first consonant is doubled or more, and lone `n`
that nothing behind them can continue.  It then spells just the kana of its syllables:

* `RomajiTable.feedAll_keys`: one syllable by itself, and what it leaves behind;
* `RomajiTable.convert_syllables`: any number of them, one after the other.

What a syllable leaves behind is a lone `n` at most, and the next one does not go with it
(`RomajiTable.not_joins_head`), so that the text may be cut between any two syllables.
-/
import KanaKanji.Proofs.Romaji.Cut
import KanaKanji.Proofs.Romaji.PrefixFree

namespace KanaKanji

/-! ### Syllables -/

/-- What well-formed romaji are made of. -/
inductive Syllable
  /-- A key of the table. -/
  | plain (key kana : Text)
  /-- A key that starts with a consonant, behind so many further copies of it. -/
  | doubled (times : Nat) (consonant : Char) (rest kana : Text)
  /-- A lone `n`. -/
  | nasal
  deriving DecidableEq, Repr

namespace Syllable

/-- How a syllable is written. -/
def keys : Syllable → Text
  | plain key _ => key
  | doubled times consonant rest _ => List.replicate times consonant ++ consonant :: rest
  | nasal => ['n']

/-- How a syllable is read. -/
def kana : Syllable → Text
  | plain _ kana => kana
  | doubled times _ _ kana => List.replicate times 'っ' ++ kana
  | nasal => ['ん']

/-- The syllable may stand in front of the keys `next`.  What is doubled is the first of several
letters of a key, a consonant other than `n`, whose double starts no key; and a lone `n` is the
proper beginning of a key, and no key starts with it and the next letter. -/
def Fits (table : RomajiTable) (next : Text) : Syllable → Prop
  | plain key kana => (key, kana) ∈ table.rules.items
  | doubled _ consonant rest kana =>
    (consonant :: rest, kana) ∈ table.rules.items ∧ rest ≠ [] ∧ doubles consonant = true ∧
      table.StartsNoKey [consonant, consonant]
  | nasal => table.IsTail ['n'] ∧ ∀ letter ∈ next.head?, table.StartsNoKey ['n', letter]

/-- How syllables are written, one after the other. -/
def keysOf (syllables : List Syllable) : Text :=
  syllables.flatMap keys

/-- How syllables are read, one after the other. -/
def kanaOf (syllables : List Syllable) : Text :=
  syllables.flatMap kana

/-- Each of the syllables may stand in front of those behind it. -/
def Fit (table : RomajiTable) : List Syllable → Prop
  | [] => True
  | syllable :: syllables => syllable.Fits table (keysOf syllables) ∧ Fit table syllables

end Syllable

namespace RomajiTable

variable {table : RomajiTable}

/-- The keys are in lower case. -/
def LowerCase (table : RomajiTable) : Prop :=
  ∀ rule ∈ table.rules.items, ∀ c ∈ rule.1, c.toLower = c

instance (table : RomajiTable) : Decidable table.LowerCase :=
  decidable_of_iff
    ((table.rules.items.all fun rule => rule.1.all fun c => c.toLower == c) = true)
    (by simp only [LowerCase, List.all_eq_true, beq_iff_eq])

/-! ### Keys that are typed out -/

theorem feed_of_whole {tail kana : Text} {key : Char}
    (h : table.lookup (tail ++ [key.toLower]) = .whole kana) :
    table.feed tail key = ⟨.complete, kana, []⟩ := by
  cases tail with
  | nil =>
    show table.start key.toLower = _
    rw [start, show table.lookup [key.toLower] = .whole kana from h]
  | cons c cs =>
    rw [feed, if_neg (by simp), h]

theorem feed_of_stem (tail : Text) {key : Char}
    (h : table.lookup (tail ++ [key.toLower]) = .stem) :
    table.feed tail key = ⟨.incomplete, [], tail ++ [key.toLower]⟩ := by
  cases tail with
  | nil =>
    show table.start key.toLower = _
    rw [start, show table.lookup [key.toLower] = .stem from h]
    rfl
  | cons c cs =>
    rw [feed, if_neg (by simp), h]

/-- Nothing comes apart within a key. -/
theorem feedSplit_of_mem {first second kana : Text} {c : Char}
    (h : (first ++ c.toLower :: second, kana) ∈ table.rules.items) :
    table.feedSplit first c = ([], table.feed first c) := by
  have hfound : table.lookup (first ++ [c.toLower]) ≠ .nothing := by
    rw [Ne, lookup_eq_nothing_iff (by simp)]
    exact fun hnone => hnone _ h ⟨second, by simp⟩
  refine if_pos ?_
  rw [Bool.or_eq_true, bne_iff_ne]
  exact Or.inr hfound

namespace PrefixFree

variable (hfree : table.PrefixFree)
include hfree

/-- A letter of a key that is not the last waits with those before it. -/
theorem feed_waiting (first : Text) {second kana : Text} {c : Char}
    (h : (first ++ c.toLower :: second, kana) ∈ table.rules.items) (hne : second ≠ []) :
    table.feed first c = ⟨.incomplete, [], first ++ [c.toLower]⟩ := by
  have htail : table.IsTail (first ++ [c.toLower]) := by
    refine Or.inr ⟨_, h, ⟨second, by simp⟩, fun he => hne ?_⟩
    simpa using he
  exact feed_of_stem first (hfree.lookup_of_isTail htail (by simp))

/-- The last letter of a key gives its kana. -/
theorem feed_last {first kana : Text} {c : Char}
    (h : (first ++ [c.toLower], kana) ∈ table.rules.items) :
    table.feed first c = ⟨.complete, kana, []⟩ :=
  feed_of_whole (hfree.lookup_of_mem h)

end PrefixFree

section

variable (hlower : table.LowerCase) (hfree : table.PrefixFree)
include hlower hfree

theorem feed_of_beginning (first : Text) {second kana : Text} {c : Char}
    (h : (first ++ c :: second, kana) ∈ table.rules.items) (hne : second ≠ []) :
    table.feed first c = ⟨.incomplete, [], first ++ [c]⟩ := by
  have hc : c.toLower = c := hlower _ h c (by simp)
  have hwaiting := hfree.feed_waiting first (hc.symm ▸ h) hne
  rwa [hc] at hwaiting

/-- The rest of a key, behind its beginning, gives its kana. -/
theorem feedAll_of_mem (first : Text) {second kana : Text}
    (h : (first ++ second, kana) ∈ table.rules.items) (hne : second ≠ []) :
    table.feedAll first second = (kana, []) := by
  induction second generalizing first with
  | nil => exact absurd rfl hne
  | cons c second ih =>
    by_cases hlast : second = []
    · subst hlast
      have hc : c.toLower = c := hlower _ h c (by simp)
      rw [feedAll_cons, hfree.feed_last (hc.symm ▸ h)]
      simp [feedAll]
    · have hrest : (first ++ [c] ++ second, kana) ∈ table.rules.items := by
        rw [List.append_assoc]
        exact h
      rw [feedAll_cons, feed_of_beginning hlower hfree first h hlast]
      exact ih (first ++ [c]) hrest hlast

end

/-! ### Doubled consonants -/

/-- Of a doubled consonant one is っ and one waits. -/
theorem feed_double {c : Char} (hc : c.toLower = c) (hdouble : doubles c = true)
    (hnone : table.StartsNoKey [c, c]) :
    table.feed [c] c = ⟨.complete, ['っ'], [c]⟩ := by
  have hlookup : table.lookup ([c] ++ [c]) = .nothing :=
    (lookup_eq_nothing_iff (List.cons_ne_nil c [c])).mpr hnone
  rw [feed, if_neg (by simp), hc, hlookup]
  exact if_pos ⟨rfl, hdouble⟩

theorem feedAll_replicate {c : Char} (hc : c.toLower = c) (hdouble : doubles c = true)
    (hnone : table.StartsNoKey [c, c]) (times : Nat) :
    table.feedAll [c] (List.replicate times c) = (List.replicate times 'っ', [c]) := by
  induction times with
  | zero => rfl
  | succ times ih =>
    rw [List.replicate_succ, feedAll_cons, feed_double hc hdouble hnone, ih]
    rfl

/-! ### One syllable -/

/-- What a syllable leaves behind: a lone `n` waits, and nothing else does. -/
def waiting : Syllable → Text
  | .nasal => ['n']
  | _ => []

section

variable (hlower : table.LowerCase) (hfree : table.PrefixFree)
include hlower hfree

/-- A syllable gives its kana, but for a lone `n`, which waits. -/
theorem feedAll_keys {syllable : Syllable} {next : Text} (h : syllable.Fits table next) :
    (table.feedAll [] syllable.keys).2 = waiting syllable ∧
      table.convert syllable.keys = syllable.kana := by
  cases syllable with
  | plain key kana =>
    have hall := feedAll_of_mem hlower hfree [] h (key_ne_nil h)
    refine ⟨congrArg Prod.snd hall, ?_⟩
    show (table.feedAll [] key).1 ++ table.flush (table.feedAll [] key).2 = kana
    rw [hall]
    exact List.append_nil kana
  | doubled times c rest kana =>
    obtain ⟨hrule, hrest, hdouble, hnone⟩ := h
    have hc : c.toLower = c := hlower _ hrule c List.mem_cons_self
    -- the first copy waits, each further one makes it っ, and the rest follows the last one
    have hfirst : table.feed [] c = ⟨.incomplete, [], [c]⟩ :=
      feed_of_beginning hlower hfree [] hrule hrest
    have hcopies := feedAll_replicate hc hdouble hnone times
    have hlast := feedAll_of_mem hlower hfree [c] hrule hrest
    have hkeys : List.replicate times c ++ c :: rest = c :: (List.replicate times c ++ rest) := by
      rw [← List.cons_append, ← List.replicate_succ, List.replicate_succ', List.append_assoc]
      rfl
    have hall : table.feedAll [] (List.replicate times c ++ c :: rest)
        = (List.replicate times 'っ' ++ kana, []) := by
      rw [hkeys, feedAll_cons, hfirst]
      show table.feedAll [c] (List.replicate times c ++ rest) = _
      rw [feedAll_append, hcopies, hlast]
    refine ⟨congrArg Prod.snd hall, ?_⟩
    show (table.feedAll [] (List.replicate times c ++ c :: rest)).1
      ++ table.flush (table.feedAll [] (List.replicate times c ++ c :: rest)).2 = _
    rw [hall]
    exact List.append_nil _
  | nasal =>
    have hstem : table.lookup ['n'] = .stem :=
      hfree.lookup_of_isTail h.1 (List.cons_ne_nil _ _)
    have hall : table.feedAll [] ['n'] = ([], ['n']) := by
      rw [feedAll_cons, feed_of_stem [] hstem]
      rfl
    refine ⟨congrArg Prod.snd hall, ?_⟩
    show (table.feedAll [] ['n']).1 ++ table.flush (table.feedAll [] ['n']).2 = _
    rw [hall]
    rfl

end

/-! ### One after the other -/

/-- The letters of syllables are in lower case. -/
theorem toLower_of_mem_keysOf (hlower : table.LowerCase) {syllables : List Syllable}
    (h : Syllable.Fit table syllables) {c : Char} (hc : c ∈ Syllable.keysOf syllables) :
    c.toLower = c := by
  induction syllables with
  | nil => exact absurd hc List.not_mem_nil
  | cons syllable syllables ih =>
    rcases List.mem_append.mp hc with hc | hc
    · cases syllable with
      | plain key kana => exact hlower _ h.1 c hc
      | doubled times consonant rest kana =>
        rcases List.mem_append.mp hc with hc | hc
        · obtain rfl := List.eq_of_mem_replicate hc
          exact hlower _ h.1.1 c List.mem_cons_self
        · exact hlower _ h.1.1 c hc
      | nasal =>
        obtain rfl := List.mem_singleton.mp hc
        rfl
    · exact ih h.2 hc

/-- The next letter does not go with what a syllable leaves behind. -/
theorem not_joins_head (hlower : table.LowerCase) {syllable : Syllable}
    {syllables : List Syllable} (h : Syllable.Fit table (syllable :: syllables)) {letter : Char}
    (hletter : letter ∈ (Syllable.keysOf syllables).head?) :
    ¬ table.Joins (waiting syllable) letter := by
  rintro ⟨hne, hjoins⟩
  cases syllable with
  | plain key kana => exact hne rfl
  | doubled times consonant rest kana => exact hne rfl
  | nasal =>
    have hc : letter.toLower = letter :=
      toLower_of_mem_keysOf hlower h.2 (List.mem_of_mem_head? hletter)
    rcases hjoins with hlookup | ⟨hn, hdouble⟩
    · refine hlookup ?_
      rw [hc]
      exact (lookup_eq_nothing_iff (List.cons_ne_nil _ _)).mpr (h.1.2 letter hletter)
    · -- a doubled `n` is no っ
      rw [← (List.cons.inj hn).1] at hdouble
      exact nomatch hdouble

/-- **Well-formed romaji spell exactly their kana.** -/
theorem convert_syllables (table : RomajiTable) (hlower : table.LowerCase)
    (hfree : table.PrefixFree) (syllables : List Syllable) (h : Syllable.Fit table syllables) :
    table.convert (Syllable.keysOf syllables) = Syllable.kanaOf syllables := by
  induction syllables with
  | nil => rfl
  | cons syllable syllables ih =>
    obtain ⟨hwaiting, hkana⟩ := feedAll_keys hlower hfree h.1
    have hcut : ∀ letter ∈ (Syllable.keysOf syllables).head?,
        ¬ table.Joins (table.feedAll [] syllable.keys).2 letter := by
      intro letter hletter
      rw [hwaiting]
      exact not_joins_head hlower h hletter
    calc table.convert (Syllable.keysOf (syllable :: syllables))
        = table.convert (syllable.keys ++ Syllable.keysOf syllables) := rfl
      _ = table.convert syllable.keys ++ table.convert (Syllable.keysOf syllables) :=
          (convert_append_of_not_joins hcut).symm
      _ = syllable.kana ++ Syllable.kanaOf syllables := by rw [hkana, ih h.2]
      _ = Syllable.kanaOf (syllable :: syllables) := rfl

/-- かんじっったん, with a lone `n` in front of a consonant and one at the end. -/
theorem convert_syllables_kanjitttan :
    let syllables : List Syllable := [.plain "ka".toList "か".toList, .nasal,
      .plain "ji".toList "じ".toList, .doubled 2 't' "a".toList "た".toList, .nasal]
    builtin.LowerCase ∧ builtin.PrefixFree ∧ Syllable.Fit builtin syllables ∧
      builtin.convert "kanjitttan".toList = "かんじっったん".toList := by
  intro syllables
  have hlower : builtin.LowerCase := by decide +kernel
  have hka : ("ka".toList, "か".toList) ∈ builtin.rules.items := by decide +kernel
  have hji : ("ji".toList, "じ".toList) ∈ builtin.rules.items := by decide +kernel
  have hta : ("ta".toList, "た".toList) ∈ builtin.rules.items := by decide +kernel
  have hn : builtin.IsTail ['n'] := isTail_of_continues (by decide +kernel)
  have hnj : builtin.StartsNoKey ['n', 'j'] := by decide +kernel
  have htt : builtin.StartsNoKey ['t', 't'] := by decide +kernel
  have hfit : Syllable.Fit builtin syllables := by
    refine ⟨hka, ⟨hn, ?_⟩, hji, ⟨hta, List.cons_ne_nil _ _, rfl, htt⟩, ⟨hn, nofun⟩, trivial⟩
    intro letter hletter
    obtain rfl : 'j' = letter := Option.some.inj hletter
    exact hnj
  exact ⟨hlower, prefixFree_builtin, hfit,
    convert_syllables builtin hlower prefixFree_builtin syllables hfit⟩

end RomajiTable

end KanaKanji
