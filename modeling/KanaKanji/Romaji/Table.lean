/-
Romaji tables: the rules that spell kana in ASCII letters.

A rule has a key of printable ASCII characters without spaces and the kana that the
key produces, neither of them empty.  A table keeps its rules in the order of the keys.
`RomajiTable.lookup` tells of a romaji text whether it is a key, the beginning of longer
keys, both or neither; `RomajiTable.ofMappings` makes a table of checked rules and
`RomajiTable.ofMappings_eq_ok_iff` says which mappings make one.
-/
import KanaKanji.Text.Index
import KanaKanji.Text.Quoted

namespace KanaKanji

/-! ### Rules -/

/-- A printable ASCII character other than the space. -/
def isGraphic (c : Char) : Bool :=
  codeWithin c 0x21 0x7E

/-- A text that can be the key of a rule. -/
def isRomaji (key : Text) : Bool :=
  !key.isEmpty && key.all isGraphic

/-- A rule: its key is romaji and its kana are not empty. -/
def IsRule (rule : Text × Text) : Prop :=
  isRomaji rule.1 = true ∧ rule.2 ≠ []

/-- Why a document or a list of mappings is no romaji table. -/
inductive TableError
  | unreadable
  | empty
  | badKey (key : Text)
  | emptyKana (key : Text)
  deriving DecidableEq, Repr

namespace TableError

/-- The error in words. -/
def message : TableError → Text
  | unreadable => "TOML parse error".toList
  | empty => "[mappings] table is empty".toList
  | badKey key => "key must be printable ASCII without spaces: ".toList ++ Text.quoted key
  | emptyKana key => "empty kana for key: ".toList ++ key

end TableError

/-- What is wrong with the first mapping that is no rule; the key is looked at before
the kana. -/
def firstFault : List (Text × Text) → Option TableError
  | [] => none
  | (key, kana) :: mappings =>
    if !isRomaji key then some (.badKey key)
    else if kana.isEmpty then some (.emptyKana key)
    else firstFault mappings

theorem firstFault_eq_none_iff {mappings : List (Text × Text)} :
    firstFault mappings = none ↔ ∀ r ∈ mappings, IsRule r := by
  induction mappings with
  | nil => simp [firstFault]
  | cons r mappings ih =>
    obtain ⟨key, kana⟩ := r
    simp only [firstFault, List.forall_mem_cons, IsRule]
    by_cases hk : isRomaji key = true
    · cases kana with
      | nil => simp [hk]
      | cons c kana => simpa [hk, IsRule] using ih
    · simp [hk]

/-! ### Tables -/

/-- Rules in the order of their keys. -/
structure RomajiTable where
  rules : Index Text
  sound : ∀ r ∈ rules.items, IsRule r

/-- What a romaji text is to a table. -/
inductive RuleMatch
  /-- Neither a key nor the beginning of one. -/
  | nothing
  /-- The beginning of longer keys. -/
  | stem
  /-- A key that no other key continues. -/
  | whole (kana : Text)
  /-- A key that other keys continue. -/
  | wholeAndStem (kana : Text)
  deriving DecidableEq, Repr

namespace RomajiTable

/-- The kana of the rule with this key. -/
def kana? (table : RomajiTable) (romaji : Text) : Option Text :=
  table.rules.find? romaji

/-- Some key starts with the text and goes on. -/
def continues (table : RomajiTable) (romaji : Text) : Bool :=
  table.rules.items.any fun r => romaji.isPrefixOf r.1 && r.1 != romaji

/-- What a romaji text is to the table.  The empty text is nothing. -/
def lookup (table : RomajiTable) (romaji : Text) : RuleMatch :=
  if romaji.isEmpty then .nothing
  else match table.kana? romaji, table.continues romaji with
    | none, false => .nothing
    | none, true => .stem
    | some kana, false => .whole kana
    | some kana, true => .wholeAndStem kana

/-- The number of rules. -/
def size (table : RomajiTable) : Nat :=
  table.rules.items.length

/-- The table of a list of mappings; of two mappings with one key the later counts. -/
def ofMappings (mappings : List (Text × Text)) : Except TableError RomajiTable :=
  let rules := Index.ofList mappings
  if rules.items.isEmpty then .error .empty
  else match h : firstFault rules.items with
    | some fault => .error fault
    | none => .ok ⟨rules, firstFault_eq_none_iff.mp h⟩

/-- A list of mappings makes a table exactly when there is one and each is a rule. -/
theorem ofMappings_eq_ok_iff {mappings : List (Text × Text)} {table : RomajiTable} :
    ofMappings mappings = .ok table ↔
      table.rules = Index.ofList mappings ∧ table.rules.items ≠ [] := by
  obtain ⟨rules, sound⟩ := table
  simp only [ofMappings]
  split
  · rename_i h
    simp only [List.isEmpty_iff] at h
    constructor
    · intro h'
      exact nomatch h'
    · rintro ⟨rfl, h'⟩
      exact absurd h h'
  · rename_i h
    simp only [List.isEmpty_iff] at h
    split
    · rename_i fault hf
      constructor
      · intro h'
        exact nomatch h'
      · rintro ⟨rfl, _⟩
        rw [firstFault_eq_none_iff.mpr sound] at hf
        exact nomatch hf
    · constructor
      · intro h'
        injection h' with h'
        injection h' with h'
        exact ⟨h'.symm, h' ▸ h⟩
      · rintro ⟨rfl, _⟩
        rfl

end RomajiTable

end KanaKanji
