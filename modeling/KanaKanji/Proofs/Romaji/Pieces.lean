/-
What each key of a text was taken for.

A text splits into pieces, one after the other: keys of the table, held `n`, first halves of
doubled consonants, and keys that stay as they were typed.  No key is lost, doubled or moved:

* `RomajiTable.exists_accounts_feed`: what one key makes leave the tail is the output of pieces,
  and these with the new tail are the old tail with the key;
* `RomajiTable.exists_fit_convertFrom`: so a whole text is the output of pieces that it consists of;
* `RomajiTable.keystrokes_accounted`: both, with what the kind of a step tells of its pieces.

A piece may depend on the keys behind it, as the first half of a doubled consonant does, so that
pieces fit (`Piece.Fit`) in front of the keys that follow.
-/
import KanaKanji.Proofs.Romaji.Cut
import KanaKanji.Romaji.Builtin

namespace KanaKanji

/-! ### Pieces -/

/-- What a stretch of keys was taken for. -/
inductive Piece
  /-- A key of the table. -/
  | rule (key kana : Text)
  /-- A held `n`. -/
  | nasal
  /-- The first of two equal consonants. -/
  | double (c : Char)
  /-- Keys that stay as they were typed. -/
  | literal (keys : Text)
  deriving DecidableEq, Repr

namespace Piece

/-- The keys of a piece. -/
def keys : Piece → Text
  | rule key _ => key
  | nasal => ['n']
  | double c => [c]
  | literal keys => keys

/-- What a piece gives. -/
def output : Piece → Text
  | rule _ kana => kana
  | nasal => ['ん']
  | double _ => ['っ']
  | literal keys => keys

/-- The piece gives its keys as they were typed. -/
def isLiteral : Piece → Bool
  | literal _ => true
  | _ => false

/-- Keys may be taken for the piece when the keys `next` come behind them.  What stays as it was
typed is no key of the table: it is a single character that starts none, or the proper beginning of
one. -/
def Fits (table : RomajiTable) (next : Text) : Piece → Prop
  | rule key kana => (key, kana) ∈ table.rules.items
  | nasal => table.IsTail ['n']
  | double c => doubles c = true ∧ next.head? = some c
  | literal keys => table.kana? keys = none ∧
      ((∃ c, keys = [c] ∧ table.StartsNoKey [c]) ∨ keys ≠ [] ∧ table.IsTail keys)

/-- The keys of pieces, one after the other. -/
def keysOf (pieces : List Piece) : Text :=
  pieces.flatMap keys

/-- What pieces give, one after the other. -/
def outputOf (pieces : List Piece) : Text :=
  pieces.flatMap output

/-- Each of the pieces fits in front of the next ones and of the keys `rest` behind them. -/
def Fit (table : RomajiTable) (rest : Text) : List Piece → Prop
  | [] => True
  | piece :: pieces => piece.Fits table (keysOf pieces ++ rest) ∧ Fit table rest pieces

variable {table : RomajiTable} {next more : Text} {piece : Piece} {first second : List Piece}

theorem keysOf_cons (piece : Piece) (pieces : List Piece) :
    keysOf (piece :: pieces) = piece.keys ++ keysOf pieces := rfl

theorem outputOf_cons (piece : Piece) (pieces : List Piece) :
    outputOf (piece :: pieces) = piece.output ++ outputOf pieces := rfl

theorem keysOf_append (first second : List Piece) :
    keysOf (first ++ second) = keysOf first ++ keysOf second :=
  List.flatMap_append

theorem outputOf_append (first second : List Piece) :
    outputOf (first ++ second) = outputOf first ++ outputOf second :=
  List.flatMap_append

theorem keys_ne_nil (h : piece.Fits table next) : piece.keys ≠ [] := by
  cases piece with
  | rule key kana => exact RomajiTable.key_ne_nil h
  | nasal => exact List.cons_ne_nil _ _
  | double c => exact List.cons_ne_nil _ _
  | literal keys =>
    rcases h.2 with ⟨c, rfl, -⟩ | ⟨hne, -⟩
    · exact List.cons_ne_nil _ _
    · exact hne

/-- No piece is lost without a trace. -/
theorem output_ne_nil (h : piece.Fits table next) : piece.output ≠ [] := by
  cases piece with
  | rule key kana => exact (table.sound _ h).2
  | nasal => exact List.cons_ne_nil _ _
  | double c => exact List.cons_ne_nil _ _
  | literal keys =>
    have hfits : (literal keys).Fits table next := h
    exact keys_ne_nil hfits

/-! ### Pieces in front of keys -/

/-- It is the first of the keys behind it that a piece depends on. -/
theorem Fits.append (h : piece.Fits table next) (more : Text) :
    piece.Fits table (next ++ more) := by
  cases piece with
  | double c =>
    refine ⟨h.1, ?_⟩
    rw [List.head?_append, h.2]
    rfl
  | rule key kana => exact h
  | nasal => exact h
  | literal keys => exact h

theorem Fit.append (h : Fit table next first) (more : Text) : Fit table (next ++ more) first := by
  induction first with
  | nil => exact trivial
  | cons piece pieces ih =>
    refine ⟨?_, ih h.2⟩
    rw [← List.append_assoc]
    exact h.1.append more

theorem Fit.concat (hfirst : Fit table (keysOf second ++ next) first)
    (hsecond : Fit table next second) : Fit table next (first ++ second) := by
  induction first with
  | nil => exact hsecond
  | cons piece pieces ih =>
    refine ⟨?_, ih hfirst.2⟩
    show piece.Fits table (keysOf (pieces ++ second) ++ next)
    rw [keysOf_append, List.append_assoc]
    exact hfirst.1

theorem Fit.keys_ne_nil {pieces : List Piece} (h : Fit table next pieces) :
    ∀ piece ∈ pieces, piece.keys ≠ [] := by
  induction pieces with
  | nil => exact fun piece hpiece => absurd hpiece List.not_mem_nil
  | cons piece pieces ih => exact List.forall_mem_cons.mpr ⟨Piece.keys_ne_nil h.1, ih h.2⟩

theorem Fit.outputOf_eq_nil_iff {pieces : List Piece} (h : Fit table next pieces) :
    outputOf pieces = [] ↔ pieces = [] := by
  constructor
  · intro hnil
    cases pieces with
    | nil => rfl
    | cons piece pieces =>
      rw [outputOf_cons, List.append_eq_nil_iff] at hnil
      exact absurd hnil.1 (output_ne_nil h.1)
  · rintro rfl
    rfl

end Piece

namespace RomajiTable

variable {table : RomajiTable} {tail : Text}

/-! ### Tails as pieces -/

/-- What a tail is taken for that no key continues. -/
def held (table : RomajiTable) (tail : Text) : Piece :=
  if tail = ['n'] then .nasal
  else match table.kana? tail with
    | some kana => .rule tail kana
    | none => .literal tail

theorem keys_held (tail : Text) : (table.held tail).keys = tail := by
  unfold held
  split
  · rename_i hn
    rw [hn]
    rfl
  · split <;> rfl

theorem fits_held (htail : table.IsTail tail) (hne : tail ≠ []) (next : Text) :
    (table.held tail).Fits table next := by
  unfold held
  split
  · rename_i hn
    rw [hn] at htail
    exact htail
  · split
    · rename_i kana hkana
      exact Index.mem_items_iff.mpr hkana
    · rename_i hkana
      exact ⟨hkana, Or.inr ⟨hne, htail⟩⟩

theorem output_held (htail : table.IsTail tail) (hne : tail ≠ []) :
    (table.held tail).output = table.flush tail := by
  have hcontinues := continues_of_isTail htail hne
  unfold held flush
  split
  · rfl
  · rw [lookup, if_neg (by simpa using hne), hcontinues]
    cases table.kana? tail <;> rfl

/-- Where the consonant is not doubled the tail leaves as what it is taken for. -/
theorem restart_eq_after (htail : table.IsTail tail) (hne : tail ≠ []) {key : Char}
    (hdouble : ¬ (tail = [key] ∧ doubles key = true)) :
    table.restart tail key = (table.start key).after (table.held tail).output
      (if (table.held tail).isLiteral then .rejected else .complete) := by
  have hcontinues := continues_of_isTail htail hne
  rw [restart, if_neg hdouble, held]
  split
  · rfl
  · rw [lookup, if_neg (by simpa using hne), hcontinues]
    cases table.kana? tail <;> rfl

/-! ### Steps as pieces -/

/-- The step takes keys for pieces, and what is left of the keys for the new tail; its kind tells
whether there are pieces at all, and whether one of them stays as it was typed. -/
structure Accounts (table : RomajiTable) (keys : Text) (step : Step) (pieces : List Piece) :
    Prop where
  keys : Piece.keysOf pieces ++ step.tail = keys
  fit : Piece.Fit table step.tail pieces
  emitted : step.emitted = Piece.outputOf pieces
  incomplete : step.kind = .incomplete ↔ pieces = []
  rejected : step.kind = .rejected ↔ ∃ piece ∈ pieces, piece.isLiteral = true

/-- A key with no tail before it is a piece of its own, or waits. -/
theorem exists_accounts_start (table : RomajiTable) (key : Char) :
    ∃ pieces, table.Accounts [key] (table.start key) pieces := by
  unfold start
  cases hlookup : table.lookup [key] with
  | whole kana =>
    refine ⟨[.rule [key] kana], ⟨rfl, ⟨?_, trivial⟩, ?_, ?_, ?_⟩⟩
    · exact mem_rules_of_lookup (Or.inl hlookup)
    · exact (List.append_nil kana).symm
    · simp
    · simp [Piece.isLiteral]
  | nothing =>
    have hnone := (lookup_eq_nothing_iff (List.cons_ne_nil key [])).mp hlookup
    have hkana : table.kana? [key] = none := by
      refine Option.eq_none_iff_forall_ne_some.mpr fun kana hk => ?_
      exact hnone ([key], kana) (Index.mem_items_iff.mpr hk) (List.prefix_refl [key])
    refine ⟨[.literal [key]], ⟨rfl, ⟨⟨hkana, Or.inl ⟨key, rfl, hnone⟩⟩, trivial⟩, rfl, ?_, ?_⟩⟩
    · simp
    · simp [Piece.isLiteral]
  | stem => exact ⟨[], ⟨rfl, trivial, rfl, by simp, by simp⟩⟩
  | wholeAndStem kana => exact ⟨[], ⟨rfl, trivial, rfl, by simp, by simp⟩⟩

/-- A piece that left the tail before the step. -/
theorem Accounts.after {keys : Text} {step : Step} {pieces : List Piece} {piece : Piece}
    (h : table.Accounts keys step pieces) (hfits : piece.Fits table keys) :
    table.Accounts (piece.keys ++ keys)
      (step.after piece.output (if piece.isLiteral then .rejected else .complete))
      (piece :: pieces) where
  keys := by
    show Piece.keysOf (piece :: pieces) ++ step.tail = piece.keys ++ keys
    rw [Piece.keysOf_cons, List.append_assoc, h.keys]
  fit := ⟨h.keys.symm ▸ hfits, h.fit⟩
  emitted := by
    show piece.output ++ step.emitted = _
    rw [h.emitted, Piece.outputOf_cons]
  incomplete := by
    show (if step.kind = .rejected then _ else _) = _ ↔ _
    cases hkind : step.kind <;> cases piece.isLiteral <;> simp
  rejected := by
    show (if step.kind = .rejected then _ else _) = _ ↔ _
    have hcons : (∃ other ∈ piece :: pieces, other.isLiteral = true) ↔
        piece.isLiteral = true ∨ ∃ other ∈ pieces, other.isLiteral = true := by simp
    rw [hcons, ← h.rejected]
    cases hkind : step.kind <;> cases piece.isLiteral <;> simp

/-- A key that cannot continue a tail. -/
theorem exists_accounts_restart (htail : table.IsTail tail) (hne : tail ≠ []) (key : Char) :
    ∃ pieces, table.Accounts (tail ++ [key]) (table.restart tail key) pieces := by
  by_cases hdouble : tail = [key] ∧ doubles key = true
  · rw [restart, if_pos hdouble, hdouble.1]
    -- of the two consonants one is っ and one the new tail
    refine ⟨[.double key], ⟨rfl, ⟨⟨hdouble.2, rfl⟩, trivial⟩, rfl, ?_, ?_⟩⟩
    · simp
    · simp [Piece.isLiteral]
  · obtain ⟨pieces, hpieces⟩ := exists_accounts_start table key
    have hafter := hpieces.after (fits_held htail hne [key])
    rw [keys_held, ← restart_eq_after htail hne hdouble] at hafter
    exact ⟨_, hafter⟩

/-- **Every key is accounted for**: the tail with the key is what leaves the tail, piece by piece,
and then the new tail. -/
theorem exists_accounts_feed (htail : table.IsTail tail) (key : Char) :
    ∃ pieces, table.Accounts (tail ++ [key.toLower]) (table.feed tail key) pieces := by
  by_cases hnil : tail = []
  · subst hnil
    exact exists_accounts_start table key.toLower
  · have hempty : ¬ tail.isEmpty = true := by simpa using hnil
    rw [feed, if_neg hempty]
    cases hlookup : table.lookup (tail ++ [key.toLower]) with
    | whole kana =>
      refine ⟨[.rule (tail ++ [key.toLower]) kana], ⟨?_, ⟨?_, trivial⟩, ?_, ?_, ?_⟩⟩
      · simp [Piece.keysOf, Piece.keys]
      · exact mem_rules_of_lookup (Or.inl hlookup)
      · exact (List.append_nil kana).symm
      · simp
      · simp [Piece.isLiteral]
    | stem => exact ⟨[], ⟨rfl, trivial, rfl, by simp, by simp⟩⟩
    | wholeAndStem kana => exact ⟨[], ⟨rfl, trivial, rfl, by simp, by simp⟩⟩
    | nothing => exact exists_accounts_restart htail hnil key.toLower

/-! ### Texts as pieces -/

/-- What a tail resolves to at the end of the text is the output of at most one piece. -/
theorem exists_fit_flush (htail : table.IsTail tail) :
    ∃ pieces, Piece.keysOf pieces = tail ∧ Piece.Fit table [] pieces ∧
      table.flush tail = Piece.outputOf pieces := by
  by_cases hnil : tail = []
  · subst hnil
    exact ⟨[], rfl, trivial, rfl⟩
  · refine ⟨[table.held tail], ?_, ⟨fits_held htail hnil _, trivial⟩, ?_⟩
    · rw [Piece.keysOf_cons, keys_held]
      exact List.append_nil tail
    · rw [Piece.outputOf_cons, output_held htail hnil]
      exact (List.append_nil _).symm

/-- **A text from a tail on is the output of the pieces that it consists of.** -/
theorem exists_fit_convertFrom (htail : table.IsTail tail) (romaji : Text) :
    ∃ pieces, Piece.keysOf pieces = tail ++ romaji.map Char.toLower ∧
      Piece.Fit table [] pieces ∧ table.convertFrom tail romaji = Piece.outputOf pieces := by
  induction romaji generalizing tail with
  | nil =>
    rw [convertFrom_nil, List.map_nil, List.append_nil]
    exact exists_fit_flush htail
  | cons key romaji ih =>
    obtain ⟨first, hfirst⟩ := exists_accounts_feed htail key
    obtain ⟨second, hkeys, hfit, houtput⟩ := ih (isTail_feed htail key)
    refine ⟨first ++ second, ?_, ?_, ?_⟩
    · rw [Piece.keysOf_append, hkeys, ← List.append_assoc, hfirst.keys]
      simp
    · -- the new tail is where the rest of the text starts
      refine Piece.Fit.concat ?_ hfit
      rw [hkeys, List.append_nil]
      exact hfirst.fit.append _
    · rw [convertFrom_cons, hfirst.emitted, houtput, Piece.outputOf_append]

/-- **Every keystroke of a transliteration is accounted for.**  A text in lower case splits into
pieces, none empty, and its kana are what these give, one after the other.  A key leaves a tail
again; what leaves the old tail are pieces, and with the new tail they are the old tail and the key.
The step is incomplete exactly when nothing leaves the tail, and rejected exactly when some piece
stays as it was typed. -/
theorem keystrokes_accounted (table : RomajiTable) :
    (∀ romaji, ∃ pieces, Piece.keysOf pieces = romaji.map Char.toLower ∧
      (∀ piece ∈ pieces, piece.keys ≠ []) ∧ Piece.Fit table [] pieces ∧
      table.convert romaji = Piece.outputOf pieces) ∧
    ∀ tail key, table.IsTail tail →
      let step := table.feed tail key
      table.IsTail step.tail ∧ (step.kind = .incomplete ↔ step.emitted = []) ∧
        ∃ pieces, Piece.keysOf pieces ++ step.tail = tail ++ [key.toLower] ∧
          Piece.Fit table step.tail pieces ∧ step.emitted = Piece.outputOf pieces ∧
          (step.kind = .rejected ↔ ∃ piece ∈ pieces, piece.isLiteral = true) := by
  constructor
  · intro romaji
    have htail : table.IsTail [] := isTail_nil
    obtain ⟨pieces, hkeys, hfit, houtput⟩ := exists_fit_convertFrom htail romaji
    exact ⟨pieces, hkeys, hfit.keys_ne_nil, hfit, houtput⟩
  · intro tail key htail step
    obtain ⟨pieces, h⟩ := exists_accounts_feed htail key
    refine ⟨isTail_feed htail key, ?_, pieces, h.keys, h.fit, h.emitted, h.rejected⟩
    rw [h.emitted, h.fit.outputOf_eq_nil_iff]
    exact h.incomplete

/-- A held `n` before q: ん and, as it was typed, the q, which starts no key. -/
theorem keystrokes_accounted_nq :
    builtin.IsTail ['n'] ∧ (builtin.feed ['n'] 'Q').kind = .rejected ∧
      ∃ pieces, Piece.keysOf pieces ++ (builtin.feed ['n'] 'Q').tail = ['n', 'q'] ∧
        (builtin.feed ['n'] 'Q').emitted = Piece.outputOf pieces ∧
        ∃ piece ∈ pieces, piece.isLiteral = true := by
  have htail : builtin.IsTail ['n'] := isTail_of_continues (by decide +kernel)
  have hkind : (builtin.feed ['n'] 'Q').kind = .rejected := by decide +kernel
  obtain ⟨-, -, pieces, hkeys, -, hemitted, hrejected⟩ :=
    (keystrokes_accounted builtin).2 ['n'] 'Q' htail
  exact ⟨htail, hkind, pieces, hkeys, hemitted, hrejected.mp hkind⟩

end RomajiTable

end KanaKanji
