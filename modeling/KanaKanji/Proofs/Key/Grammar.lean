/-
The grammar of key notation.

A notation is marks, any number of them in any order, and then a base: one character, or the name of
a key.  `KeyEvent.Written` says so of a text.  `KeyEvent.Strips` says of any text what is left of it
when marks are taken off its front for as long as there are more than two bytes.

* `KeyEvent.splitMarks_of_strips`: the reader, which looks at characters, splits a text there;
* `KeyEvent.written_iff`: a text is written with marks and a base when the base is what is left, so
  that it is written in one way only;
* `KeyEvent.read_as_written`: what is read, and as what, and what is refused, and why.
-/
import KanaKanji.Key.Notation
import KanaKanji.Proofs.Text.Utf8

namespace KanaKanji

/-! ### Marks -/

/-- A mark in front of a base. -/
inductive Mark
  | control
  | metaKey
  | alt
  | shift
  deriving DecidableEq, Repr

namespace Mark

/-- The letter of a mark. -/
def letter : Mark → Char
  | control => 'C'
  | metaKey => 'M'
  | alt => 'A'
  | shift => 'S'

/-- A mark as it is written. -/
def text (mark : Mark) : Text :=
  [mark.letter, '-']

/-- Marks one after the other. -/
def texts (marks : List Mark) : Text :=
  marks.flatMap text

/-- The modifier that a mark stands for. -/
def modifiers : Mark → Modifiers
  | control => { control := true }
  | metaKey => { metaKey := true }
  | alt => { alt := true }
  | shift => { shift := true }

/-- The modifiers that marks stand for together. -/
def held (marks : List Mark) : Modifiers :=
  marks.foldr (fun mark m => mark.modifiers.union m) .none

theorem texts_cons (mark : Mark) (marks : List Mark) :
    texts (mark :: marks) = mark.text ++ texts marks :=
  List.flatMap_cons

theorem text_inj {first second : Mark} {s t : Text} (h : first.text ++ s = second.text ++ t) :
    first = second ∧ s = t := by
  obtain ⟨hletter, hrest⟩ := List.cons.inj h
  refine ⟨?_, (List.cons.inj hrest).2⟩
  revert hletter
  cases first <;> cases second <;> decide

theorem texts_injective {first second : List Mark} (h : texts first = texts second) :
    first = second := by
  induction first generalizing second with
  | nil =>
    cases second with
    | nil => rfl
    | cons mark second => exact nomatch h
  | cons mark first ih =>
    cases second with
    | nil => exact nomatch h
    | cons other second =>
      rw [texts_cons, texts_cons] at h
      obtain ⟨rfl, hrest⟩ := text_inj h
      rw [ih hrest]

theorem modifierMark?_letter (mark : Mark) : modifierMark? mark.letter = some mark.modifiers := by
  cases mark <;> rfl

theorem exists_of_modifierMark? {c : Char} {m : Modifiers} (h : modifierMark? c = some m) :
    ∃ mark : Mark, mark.letter = c ∧ mark.modifiers = m := by
  unfold modifierMark? at h
  split at h
  · exact ⟨control, rfl, Option.some.inj h⟩
  · exact ⟨metaKey, rfl, Option.some.inj h⟩
  · exact ⟨alt, rfl, Option.some.inj h⟩
  · exact ⟨shift, rfl, Option.some.inj h⟩
  · exact nomatch h

end Mark

namespace Modifiers

/-- The modifiers are those of the marks, whatever their order and however often they come, and
shift too when the symbol is an upper-case letter. -/
structure HeldBy (m : Modifiers) (marks : List Mark) (sym : KeySym) : Prop where
  control : m.control = true ↔ Mark.control ∈ marks
  metaKey : m.metaKey = true ↔ Mark.metaKey ∈ marks
  alt : m.alt = true ↔ Mark.alt ∈ marks
  shift : m.shift = true ↔ Mark.shift ∈ marks ∨ ∃ c, sym = .char c ∧ 'A' ≤ c ∧ c ≤ 'Z'
  release : m.release = false

theorem HeldBy.unique {m n : Modifiers} {marks : List Mark} {sym : KeySym}
    (hm : m.HeldBy marks sym) (hn : n.HeldBy marks sym) : m = n := by
  obtain ⟨shift, control, alt, metaKey, release⟩ := m
  obtain ⟨shift', control', alt', metaKey', release'⟩ := n
  obtain rfl : shift = shift' := Bool.eq_iff_iff.mpr (hm.shift.trans hn.shift.symm)
  obtain rfl : control = control' := Bool.eq_iff_iff.mpr (hm.control.trans hn.control.symm)
  obtain rfl : alt = alt' := Bool.eq_iff_iff.mpr (hm.alt.trans hn.alt.symm)
  obtain rfl : metaKey = metaKey' := Bool.eq_iff_iff.mpr (hm.metaKey.trans hn.metaKey.symm)
  obtain rfl : release = release' := hm.release.trans hn.release.symm
  rfl

theorem shift_impliedModifiers (sym : KeySym) : (KeyEvent.impliedModifiers sym).shift = true ↔
    ∃ c, sym = .char c ∧ 'A' ≤ c ∧ c ≤ 'Z' := by
  cases sym with
  | char c =>
    have hupper : c.isUpper = true ↔ 'A' ≤ c ∧ c ≤ 'Z' := decide_eq_true_iff
    simp [KeyEvent.impliedModifiers, hupper]
  | named k => simp [KeyEvent.impliedModifiers, none]

theorem union_assoc (m n k : Modifiers) : (m.union n).union k = m.union (n.union k) := by
  simp [union, Bool.or_assoc]

/-- No mark at all leaves the shift of the symbol. -/
theorem heldBy_nil (sym : KeySym) : (none.union (KeyEvent.impliedModifiers sym)).HeldBy [] sym := by
  have hshift := shift_impliedModifiers sym
  constructor
  · cases sym <;> simp [union, none, KeyEvent.impliedModifiers]
  · cases sym <;> simp [union, none, KeyEvent.impliedModifiers]
  · cases sym <;> simp [union, none, KeyEvent.impliedModifiers]
  · simpa [union, none] using hshift
  · cases sym <;> rfl

/-- A mark adds its modifier. -/
theorem HeldBy.cons {m : Modifiers} {marks : List Mark} {sym : KeySym} (h : m.HeldBy marks sym)
    (mark : Mark) : (mark.modifiers.union m).HeldBy (mark :: marks) sym := by
  obtain ⟨hcontrol, hmetaKey, halt, hshift, hrelease⟩ := h
  constructor
  · cases mark <;> simp [union, Mark.modifiers, hcontrol]
  · cases mark <;> simp [union, Mark.modifiers, hmetaKey]
  · cases mark <;> simp [union, Mark.modifiers, halt]
  · cases mark <;> simp [union, Mark.modifiers, hshift]
  · cases mark <;> simp [union, Mark.modifiers, hrelease]

theorem heldBy_union (marks : List Mark) (sym : KeySym) :
    ((Mark.held marks).union (KeyEvent.impliedModifiers sym)).HeldBy marks sym := by
  induction marks with
  | nil => exact heldBy_nil sym
  | cons mark marks ih =>
    show ((mark.modifiers.union (Mark.held marks)).union _).HeldBy _ _
    rw [union_assoc]
    exact ih.cons mark

end Modifiers

/-! ### Bases -/

namespace KeyEvent

/-- The names that stand for a symbol. -/
def keyNames : List (Text × KeySym) :=
  keyAliases ++ NamedKey.all.map fun k => (k.name, .named k)

example : keyNames.map (fun p => String.ofList p.1) = ["space", "slash", "Enter", "Return",
    "Escape", "BackSpace", "Tab", "Delete", "Left", "Right", "Up", "Down", "Home", "End"] := rfl

/-- A base of a symbol: the character, or a name. -/
inductive IsBase : Text → KeySym → Prop
  | char (c : Char) : IsBase [c] (.char c)
  | name {base : Text} {sym : KeySym} (h : (base, sym) ∈ keyNames) : IsBase base sym

/-- The text is marks and then a base of the symbol. -/
structure Written (s : Text) (marks : List Mark) (base : Text) (sym : KeySym) : Prop where
  split : s = Mark.texts marks ++ base
  isBase : IsBase base sym

/-- A name is longer than a character, and none begins with a mark. -/
theorem shape_of_mem_keyNames : ∀ p ∈ keyNames, 1 < p.1.length ∧ p.1[1]? ≠ some '-' := by
  decide +kernel

theorem keySymOfName?_eq_some_iff {name : Text} {sym : KeySym} :
    keySymOfName? name = some sym ↔ (name, sym) ∈ keyNames := by
  constructor
  · intro h
    unfold keySymOfName? at h
    split at h
    · rename_i p hp
      have hname : p.1 = name := by simpa using List.find?_some hp
      rw [← hname, ← Option.some.inj h]
      exact List.mem_append_left _ (List.mem_of_find?_eq_some hp)
    · obtain ⟨k, hk, rfl⟩ := Option.map_eq_some_iff.mp h
      have hname : k.name = name := by simpa using List.find?_some hk
      rw [← hname]
      exact List.mem_append_right _ (List.mem_map_of_mem (List.mem_of_find?_eq_some hk))
  · have hnames : ∀ p ∈ keyNames, keySymOfName? p.1 = some p.2 := by decide +kernel
    exact hnames (name, sym)

/-- A base has the symbol that the grammar gives it. -/
theorem keySymOfBase_eq_ok_iff {base : Text} {sym : KeySym} :
    keySymOfBase base = .ok sym ↔ IsBase base sym := by
  unfold keySymOfBase
  constructor
  · intro h
    split at h
    · rw [← Except.ok.inj h]
      exact .char _
    · split at h
      · rename_i hname
        rw [← Except.ok.inj h]
        exact .name (keySymOfName?_eq_some_iff.mp hname)
      · exact nomatch h
  · rintro (c | hmem)
    · rfl
    · have hlength := (shape_of_mem_keyNames _ hmem).1
      split
      · exact absurd hlength (by simp)
      · rw [keySymOfName?_eq_some_iff.mpr hmem]

/-- What is no base is named in the error. -/
theorem eq_unknownName_of_keySymOfBase {base : Text} {e : KeyError}
    (h : keySymOfBase base = .error e) : e = .unknownName base := by
  unfold keySymOfBase at h
  split at h
  · exact nomatch h
  · split at h
    · exact nomatch h
    · exact (Except.error.inj h).symm

theorem IsBase.unique {base : Text} {sym other : KeySym} (h : IsBase base sym)
    (h' : IsBase base other) : sym = other :=
  Except.ok.inj ((keySymOfBase_eq_ok_iff.mpr h).symm.trans (keySymOfBase_eq_ok_iff.mpr h'))

theorem IsBase.ne_nil {base : Text} {sym : KeySym} (h : IsBase base sym) : base ≠ [] := by
  rintro rfl
  rcases h with _ | hmem
  exact absurd (shape_of_mem_keyNames _ hmem).1 (by simp)

theorem IsBase.ne_mark {base : Text} {sym : KeySym} (h : IsBase base sym) (mark : Mark) (s : Text) :
    base ≠ mark.text ++ s := by
  rintro rfl
  rcases h with _ | hmem
  exact (shape_of_mem_keyNames _ hmem).2 rfl

/-! ### Marks taken off a text -/

/-- Marks are taken off the front of a text while more than two bytes are left of it. -/
inductive Strips : Text → List Mark → Text → Prop
  | short {s : Text} (h : (Utf8.encode s).length ≤ 2) : Strips s [] s
  | unmarked {s : Text} (h : ∀ (mark : Mark) (rest : Text), s ≠ mark.text ++ rest) : Strips s [] s
  | strip (mark : Mark) {s rest : Text} {marks : List Mark}
      (h : 2 < (Utf8.encode (mark.text ++ s)).length) (h' : Strips s marks rest) :
      Strips (mark.text ++ s) (mark :: marks) rest

/-- More than two bytes means that something follows the mark. -/
theorem two_lt_length_encode_iff (mark : Mark) (s : Text) :
    2 < (Utf8.encode (mark.text ++ s)).length ↔ s ≠ [] := by
  have hmark : (Utf8.encode (mark.text ++ s)).length = 2 + (Utf8.encode s).length := by
    have hletter : (Utf8.encodeChar mark.letter).length = 1 := by
      cases mark <;> rfl
    rw [Mark.text, List.cons_append, Utf8.length_encode_cons, List.cons_append,
      Utf8.length_encode_cons, hletter, ← Nat.add_assoc]
    rfl
  rw [hmark]
  cases s with
  | nil => simp [Utf8.encode]
  | cons c s =>
    have hpos : 0 < (Utf8.encodeChar c).length := by
      rw [Utf8.length_encodeChar]
      split_ifs <;> omega
    rw [Utf8.length_encode_cons]
    exact ⟨fun _ => List.cons_ne_nil c s, fun _ => by omega⟩

theorem splitMarks_mark (mark : Mark) {s : Text} (hs : s ≠ []) :
    splitMarks (mark.text ++ s) = (mark.modifiers.union (splitMarks s).1, (splitMarks s).2) := by
  obtain ⟨c, s, rfl⟩ := List.exists_cons_of_ne_nil hs
  show splitMarks (mark.letter :: '-' :: c :: s) = _
  rw [splitMarks, mark.modifierMark?_letter]

/-- Without a mark that something follows nothing is taken off. -/
theorem splitMarks_of_unmarked {s : Text}
    (h : ∀ (mark : Mark) (rest : Text), rest ≠ [] → s ≠ mark.text ++ rest) :
    splitMarks s = (.none, s) := by
  unfold splitMarks
  split
  · rename_i a c s
    cases hmark : modifierMark? a with
    | none => rfl
    | some m =>
      obtain ⟨mark, rfl, -⟩ := Mark.exists_of_modifierMark? hmark
      exact absurd rfl (h mark (c :: s) (List.cons_ne_nil c s))
  · rfl

/-- **The marks of a text are taken off where more than two bytes are left.** -/
theorem splitMarks_of_strips {s rest : Text} {marks : List Mark} (h : Strips s marks rest) :
    splitMarks s = (Mark.held marks, rest) := by
  induction h with
  | short hshort =>
    refine splitMarks_of_unmarked fun mark rest hrest he => ?_
    rw [he] at hshort
    exact absurd ((two_lt_length_encode_iff mark rest).mpr hrest) (Nat.not_lt.mpr hshort)
  | unmarked hunmarked => exact splitMarks_of_unmarked fun mark rest _ => hunmarked mark rest
  | strip mark hlong _ ih =>
    rw [splitMarks_mark mark ((two_lt_length_encode_iff mark _).mp hlong), ih]
    rfl

/-- Marks can be taken off any text, until it is short or begins with none. -/
theorem exists_strips (s : Text) : ∃ marks rest, Strips s marks rest := by
  induction hn : s.length using Nat.strongRecOn generalizing s with
  | ind n ih =>
    by_cases hmark : ∃ (mark : Mark) (rest : Text), s = mark.text ++ rest
    · obtain ⟨mark, rest, rfl⟩ := hmark
      have hlong := two_lt_length_encode_iff mark rest
      by_cases hrest : rest = []
      · exact ⟨[], _, .short (Nat.not_lt.mp fun h => hlong.mp h hrest)⟩
      · have hlength : (mark.text ++ rest).length = 2 + rest.length := List.length_append
        obtain ⟨marks, last, hlast⟩ := ih rest.length (by omega) rest rfl
        exact ⟨mark :: marks, last, .strip mark (hlong.mpr hrest) hlast⟩
    · exact ⟨[], s, .unmarked fun mark rest he => hmark ⟨mark, rest, he⟩⟩

theorem Strips.split {s rest : Text} {marks : List Mark} (h : Strips s marks rest) :
    s = Mark.texts marks ++ rest := by
  induction h with
  | short _ => rfl
  | unmarked _ => rfl
  | strip mark _ _ ih => rw [Mark.texts_cons, List.append_assoc, ← ih]

/-- There is one way to take marks off a text. -/
theorem Strips.unique {s rest rest' : Text} {marks marks' : List Mark} (h : Strips s marks rest)
    (h' : Strips s marks' rest') : marks = marks' ∧ rest = rest' := by
  have hsplit := (splitMarks_of_strips h).symm.trans (splitMarks_of_strips h')
  obtain rfl : rest = rest' := (Prod.mk.inj hsplit).2
  exact ⟨Mark.texts_injective (List.append_cancel_right (h.split.symm.trans h'.split)), rfl⟩

/-- **A text is written with marks and a base when taking the marks off leaves the base.** -/
theorem written_iff {s base : Text} {marks : List Mark} {sym : KeySym} :
    Written s marks base sym ↔ Strips s marks base ∧ IsBase base sym := by
  constructor
  · rintro ⟨rfl, hbase⟩
    refine ⟨?_, hbase⟩
    induction marks with
    | nil => exact .unmarked hbase.ne_mark
    | cons mark marks ih =>
      rw [Mark.texts_cons, List.append_assoc]
      refine .strip mark ((two_lt_length_encode_iff mark _).mpr ?_) ih
      exact List.append_ne_nil_of_right_ne_nil _ hbase.ne_nil
  · exact fun ⟨hstrips, hbase⟩ => ⟨hstrips.split, hbase⟩

theorem Written.unique {s base base' : Text} {marks marks' : List Mark} {sym sym' : KeySym}
    (h : Written s marks base sym) (h' : Written s marks' base' sym') :
    marks = marks' ∧ base = base' ∧ sym = sym' := by
  obtain ⟨rfl, rfl⟩ := (written_iff.mp h).1.unique (written_iff.mp h').1
  exact ⟨rfl, rfl, h.isBase.unique h'.isBase⟩

/-! ### Reading -/

theorem ofNotation_of_blank {s : Text} (h : Text.trim s = []) : ofNotation s = .error .empty := by
  rw [ofNotation, h]

/-- What is left without the marks decides what is read. -/
theorem ofNotation_of_strips {s rest : Text} {marks : List Mark} (hne : Text.trim s ≠ [])
    (h : Strips (Text.trim s) marks rest) : ofNotation s = (keySymOfBase rest).map fun sym =>
      ⟨sym, (Mark.held marks).union (impliedModifiers sym)⟩ := by
  unfold ofNotation
  split
  · rename_i hempty
    exact absurd hempty hne
  · rw [splitMarks_of_strips h]
    dsimp only
    cases keySymOfBase rest <;> rfl

/-- **What is written is read**, as the symbol of the base with the modifiers of the marks. -/
theorem ofNotation_of_written {s base : Text} {marks : List Mark} {sym : KeySym}
    (h : Written (Text.trim s) marks base sym) :
    ofNotation s = .ok ⟨sym, (Mark.held marks).union (impliedModifiers sym)⟩ := by
  obtain ⟨hstrips, hbase⟩ := written_iff.mp h
  have hne : Text.trim s ≠ [] := by
    rw [h.split]
    exact List.append_ne_nil_of_right_ne_nil _ hbase.ne_nil
  rw [ofNotation_of_strips hne hstrips, keySymOfBase_eq_ok_iff.mpr hbase]
  rfl

/-- What is not written is refused, by the name that is left without the marks. -/
theorem ofNotation_of_not_written {s rest : Text} {marks : List Mark} (hne : Text.trim s ≠ [])
    (h : Strips (Text.trim s) marks rest)
    (hnone : ¬ ∃ marks base sym, Written (Text.trim s) marks base sym) :
    ofNotation s = .error (.unknownName rest) := by
  rw [ofNotation_of_strips hne h]
  cases hrest : keySymOfBase rest with
  | ok sym =>
    exact absurd ⟨marks, rest, sym, written_iff.mpr ⟨h, keySymOfBase_eq_ok_iff.mp hrest⟩⟩ hnone
  | error e =>
    rw [eq_unknownName_of_keySymOfBase hrest]
    rfl

theorem ofNotation_eq_ok_iff {s : Text} {event : KeyEvent} : ofNotation s = .ok event ↔
    ∃ marks base, Written (Text.trim s) marks base event.sym ∧
      event.modifiers.HeldBy marks event.sym := by
  constructor
  · intro h
    by_cases hwritten : ∃ marks base sym, Written (Text.trim s) marks base sym
    · obtain ⟨marks, base, sym, hwritten⟩ := hwritten
      obtain rfl := Except.ok.inj ((ofNotation_of_written hwritten).symm.trans h)
      exact ⟨marks, base, hwritten, Modifiers.heldBy_union marks sym⟩
    · -- nothing else is read
      by_cases hne : Text.trim s = []
      · exact nomatch (ofNotation_of_blank hne).symm.trans h
      · obtain ⟨marks, rest, hstrips⟩ := exists_strips (Text.trim s)
        exact nomatch (ofNotation_of_not_written hne hstrips hwritten).symm.trans h
  · rintro ⟨marks, base, hwritten, hheld⟩
    rw [ofNotation_of_written hwritten, (Modifiers.heldBy_union marks event.sym).unique hheld]

theorem ofNotation_eq_error_iff {s : Text} {reason : KeyError} : ofNotation s = .error reason ↔
    (Text.trim s = [] ∧ reason = .empty) ∨
    (Text.trim s ≠ [] ∧ (¬ ∃ marks base sym, Written (Text.trim s) marks base sym) ∧
      ∃ marks rest, Strips (Text.trim s) marks rest ∧ reason = .unknownName rest) := by
  constructor
  · intro h
    by_cases hne : Text.trim s = []
    · exact .inl ⟨hne, (Except.error.inj ((ofNotation_of_blank hne).symm.trans h)).symm⟩
    · have hnone : ¬ ∃ marks base sym, Written (Text.trim s) marks base sym := by
        rintro ⟨marks, base, sym, hwritten⟩
        exact nomatch (ofNotation_of_written hwritten).symm.trans h
      obtain ⟨marks, rest, hstrips⟩ := exists_strips (Text.trim s)
      have hname := (ofNotation_of_not_written hne hstrips hnone).symm.trans h
      exact .inr ⟨hne, hnone, marks, rest, hstrips, (Except.error.inj hname).symm⟩
  · rintro (⟨hempty, rfl⟩ | ⟨hne, hnone, marks, rest, hstrips, rfl⟩)
    · exact ofNotation_of_blank hempty
    · exact ofNotation_of_not_written hne hstrips hnone

/-- **What key notation reads, and what it refuses.**  Blanks around a text do not count.

* What is left is read when it is marks and a base, in the one way in which it is; the event has the
  symbol of the base and the modifiers of the marks, whatever their order and number, with shift
  besides for an upper-case letter.
* When nothing is left the text is empty.  All else that is refused is called by the name behind the
  marks, which are taken off while there are more than two bytes. -/
theorem read_as_written (s : Text) :
    let body := Text.trim s
    (∃ front back, Text.AllBlank front ∧ Text.AllBlank back ∧ Text.Bare body ∧
      s = front ++ body ++ back) ∧
    ((∃ event, ofNotation s = .ok event) ↔ ∃ marks base sym, Written body marks base sym) ∧
    (∀ {marks marks' base base' sym sym'}, Written body marks base sym →
      Written body marks' base' sym' → marks = marks' ∧ base = base' ∧ sym = sym') ∧
    (∀ event, ofNotation s = .ok event ↔ ∃ marks base, Written body marks base event.sym ∧
      event.modifiers.HeldBy marks event.sym) ∧
    ∀ reason, ofNotation s = .error reason ↔ (body = [] ∧ reason = .empty) ∨
      (body ≠ [] ∧ (¬ ∃ marks base sym, Written body marks base sym) ∧
        ∃ marks rest, Strips body marks rest ∧ reason = .unknownName rest) := by
  refine ⟨Text.exists_trim s, ⟨?_, ?_⟩, Written.unique, fun event => ofNotation_eq_ok_iff,
    fun reason => ofNotation_eq_error_iff⟩
  · rintro ⟨event, h⟩
    obtain ⟨marks, base, hwritten, -⟩ := ofNotation_eq_ok_iff.mp h
    exact ⟨marks, base, event.sym, hwritten⟩
  · rintro ⟨marks, base, sym, hwritten⟩
    exact ⟨_, ofNotation_of_written hwritten⟩

/-- A minus can be a base, also behind marks that come twice; and a mark that nothing follows is
taken for a name. -/
theorem read_as_written_minus :
    let body := "C-S-C--".toList
    let marks : List Mark := [.control, .shift, .control]
    Text.trim " C-S-C--\n".toList = body ∧
      Written body marks ['-'] (.char '-') ∧
      (∀ marks' base sym, Written body marks' base sym →
        marks = marks' ∧ ['-'] = base ∧ KeySym.char '-' = sym) ∧
      ofNotation " C-S-C--\n".toList = .ok ⟨.char '-', { shift := true, control := true }⟩ ∧
      Strips "C-M-".toList [.control] "M-".toList ∧
      ofNotation "C-M-".toList = .error (.unknownName "M-".toList) := by
  intro body marks
  have htrim : Text.trim " C-S-C--\n".toList = body := by decide
  have hwritten : Written body marks ['-'] (.char '-') := ⟨rfl, .char '-'⟩
  obtain ⟨-, -, hunique, hread, -⟩ := read_as_written " C-S-C--\n".toList
  obtain ⟨-, -, -, -, hrefused⟩ := read_as_written "C-M-".toList
  rw [htrim] at hunique hread
  have hstrips : Strips "C-M-".toList [.control] "M-".toList :=
    .strip .control (by decide) (.short (by decide))
  refine ⟨htrim, hwritten, fun marks' base sym h => hunique hwritten h, ?_, hstrips, ?_⟩
  · refine (hread _).mpr ⟨marks, ['-'], hwritten, ?_⟩
    constructor <;> simp [marks]
  · refine (hrefused _).mpr (.inr ⟨by decide, ?_, [.control], "M-".toList, hstrips, rfl⟩)
    rintro ⟨marks', base, sym, h⟩
    obtain ⟨-, rfl⟩ := (written_iff.mp h).1.unique hstrips
    exact nomatch (keySymOfBase_eq_ok_iff.mpr h.isBase : Except.error _ = _)

end KeyEvent

end KanaKanji
