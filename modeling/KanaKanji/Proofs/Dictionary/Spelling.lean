/-
Values and the bytes that spell them.

A reader takes a value from the front of bytes.  Bytes spell a value for it (`Snapshot.Spells`)
when it takes just them, whatever follows, and a part of them is not enough.  Readers one behind
the other are spelled by their spellings one behind the other (`Snapshot.Spells.andThen`), and so
all that a snapshot consists of is spelled by what is written for it:

* `Snapshot.spells_number`, `spells_text`, `spells_optional`: numbers below the width, and texts
  whose length is one;
* `Snapshot.spells_word`, `spells_words`: words with such texts.

What has been read has such lengths too (`Snapshot.of_readWords`).
-/
import KanaKanji.Dictionary.Snapshot
import KanaKanji.Proofs.Text.Utf8
import Mathlib.Algebra.Group.Nat.Defs

namespace KanaKanji

namespace Snapshot

variable {α β : Type}

/-! ### Spellings -/

/-- The bytes spell the value for a reader: it takes just them, whatever follows, and a part of
them is not enough. -/
structure Spells (read : Reader α) (a : α) (spelling : List UInt8) : Prop where
  whole : ∀ rest, read (spelling ++ rest) = .ok (a, rest)
  part : ∀ cut, cut <+: spelling → cut ≠ spelling → read cut = .error .endsEarly

/-- A reader behind another one. -/
def andThen (first : Reader α) (next : α → Reader β) : Reader β := fun bytes =>
  match first bytes with
  | .ok (a, rest) => next a rest
  | .error fault => .error fault

/-- A part of two spellings ends in the first of them, or in the second behind the first. -/
theorem prefix_append_cases {cut first second : List UInt8} (h : cut <+: first ++ second) :
    (cut <+: first ∧ cut ≠ first) ∨ ∃ rest, cut = first ++ rest ∧ rest <+: second := by
  rcases List.prefix_or_prefix_of_prefix h (List.prefix_append first second) with hcut | hfirst
  · by_cases he : cut = first
    · exact Or.inr ⟨[], by rw [he, List.append_nil], List.nil_prefix⟩
    · exact Or.inl ⟨hcut, he⟩
  · obtain ⟨rest, rfl⟩ := hfirst
    exact Or.inr ⟨rest, rfl, (List.prefix_append_right_inj first).mp h⟩

theorem Spells.andThen {first : Reader α} {next : α → Reader β} {a : α} {b : β}
    {spelling more : List UInt8} (ha : Spells first a spelling) (hb : Spells (next a) b more) :
    Spells (andThen first next) b (spelling ++ more) where
  whole rest := by
    rw [Snapshot.andThen, List.append_assoc, ha.whole]
    exact hb.whole rest
  part cut hcut hne := by
    -- the cut is inside the first value, or behind it
    rcases prefix_append_cases hcut with ⟨hpart, hne'⟩ | ⟨rest, rfl, hrest⟩
    · rw [Snapshot.andThen, ha.part cut hpart hne']
    · rw [Snapshot.andThen, ha.whole]
      refine hb.part rest hrest ?_
      rintro rfl
      exact hne rfl

/-- A reader that takes nothing. -/
theorem spells_nil {read : Reader α} {a : α} (h : ∀ rest, read rest = .ok (a, rest)) :
    Spells read a [] where
  whole := h
  part _ hcut hne := absurd (List.prefix_nil.mp hcut) hne

theorem Spells.map {read : Reader α} {a : α} {spelling : List UInt8} (h : Spells read a spelling)
    (f : α → β) : Spells (fun bytes => (read bytes).map fun (a, rest) => (f a, rest)) (f a)
      spelling where
  whole rest := by
    dsimp only
    rw [h.whole]
    rfl
  part cut hcut hne := by
    dsimp only
    rw [h.part cut hcut hne]
    rfl

/-! ### Numbers and texts -/

theorem length_numberBytes (width n : Nat) : (numberBytes width n).length = width := by
  induction width generalizing n with
  | zero => rfl
  | succ width ih => rw [numberBytes, List.length_cons, ih]

theorem spells_number {width n : Nat} (h : n < 256 ^ width) :
    Spells (readNumber width) n (numberBytes width n) := by
  induction width generalizing n with
  | zero =>
    obtain rfl : n = 0 := by simpa using h
    exact spells_nil fun rest => rfl
  | succ width ih =>
    have hrest : n / 256 < 256 ^ width := by
      rw [Nat.pow_succ] at h
      omega
    have hspells := ih hrest
    have hbyte : (UInt8.ofNat n).toNat = n % 256 := UInt8.toNat_ofNat'
    constructor
    · intro rest
      rw [numberBytes, List.cons_append, readNumber, hspells.whole, hbyte]
      show Except.ok (n % 256 + 256 * (n / 256), rest) = _
      rw [Nat.mod_add_div]
    · intro cut hcut hne
      cases cut with
      | nil => rfl
      | cons b cut =>
        rw [numberBytes, List.cons_prefix_cons] at hcut
        obtain ⟨rfl, hcut⟩ := hcut
        have hpart : cut ≠ numberBytes width (n / 256) := by
          rintro rfl
          exact hne rfl
        rw [readNumber, hspells.part cut hcut hpart]
        rfl

/-- The rest of a text behind its length. -/
def readBytes (length : Nat) : Reader Text := fun bytes =>
  if bytes.length < length then .error .endsEarly
  else match Utf8.decode? (bytes.take length) with
    | some s => .ok (s, bytes.drop length)
    | none => .error .notUtf8

theorem readText_eq : readText = andThen readLength readBytes := by
  funext bytes
  unfold readText andThen
  cases readLength bytes with
  | error fault => rfl
  | ok read => rfl

theorem spells_bytes (s : Text) : Spells (readBytes (Utf8.encode s).length) s (Utf8.encode s) where
  whole rest := by
    have hlength : ¬ (Utf8.encode s ++ rest).length < (Utf8.encode s).length := by
      rw [List.length_append]
      omega
    rw [readBytes, if_neg hlength, List.take_left, List.drop_left, Utf8.decode?_encode]
  part cut hcut hne := by
    have hlength : cut.length < (Utf8.encode s).length := by
      have hle := hcut.length_le
      have hne' : cut.length ≠ (Utf8.encode s).length := fun he => hne (hcut.eq_of_length he)
      omega
    rw [readBytes, if_pos hlength]

theorem spells_text {s : Text} (h : (Utf8.encode s).length < 256 ^ 8) :
    Spells readText s (textBytes s) := by
  rw [readText_eq]
  exact (spells_number h).andThen (spells_bytes s)

theorem spells_optional {note : Option Text}
    (h : ∀ s ∈ note, (Utf8.encode s).length < 256 ^ 8) :
    Spells readOptional note (optionalBytes note) := by
  cases note with
  | none =>
    constructor
    · intro rest
      rfl
    · -- only the empty list is a part of the tag
      intro cut hcut hne
      have hnil : cut = [] := by
        rcases List.prefix_cons_iff.mp hcut with hnil | ⟨rest, rfl, hrest⟩
        · exact hnil
        · rw [List.prefix_nil.mp hrest] at hne
          exact absurd rfl hne
      rw [hnil]
      rfl
  | some s =>
    have hspells := (spells_text (h s rfl)).map some
    constructor
    · intro rest
      exact hspells.whole rest
    · intro cut hcut hne
      rcases List.prefix_cons_iff.mp hcut with rfl | ⟨rest, rfl, hrest⟩
      · rfl
      · refine hspells.part rest hrest ?_
        rintro rfl
        exact hne rfl

/-! ### Words -/

/-- The texts of a word. -/
def texts (word : Word) : List Text :=
  word.1 :: word.2.surface :: word.2.note.toList

theorem readWord_eq : readWord = andThen readText fun reading => andThen readText fun surface =>
    fun bytes => (readOptional bytes).map fun (note, rest) =>
      ((reading, ⟨surface, note⟩), rest) := by
  funext bytes
  unfold readWord andThen
  cases readText bytes with
  | error fault => rfl
  | ok first =>
    obtain ⟨reading, bytes⟩ := first
    dsimp only [bind, Except.bind]
    cases readText bytes with
    | error fault => rfl
    | ok second =>
      obtain ⟨surface, bytes⟩ := second
      dsimp only
      cases readOptional bytes with
      | error fault => rfl
      | ok third => rfl

theorem spells_word {word : Word} (h : ∀ s ∈ texts word, (Utf8.encode s).length < 256 ^ 8) :
    Spells readWord word (wordBytes word) := by
  have hreading := spells_text (h word.1 List.mem_cons_self)
  have hsurface := spells_text (h word.2.surface (List.mem_cons_of_mem _ List.mem_cons_self))
  have hnote : Spells readOptional word.2.note (optionalBytes word.2.note) :=
    spells_optional fun s hs =>
      h s (List.mem_cons_of_mem _ (List.mem_cons_of_mem _ (Option.mem_toList.mpr hs)))
  rw [readWord_eq, wordBytes, List.append_assoc]
  exact hreading.andThen (hsurface.andThen (hnote.map fun note =>
    ((word.1, ⟨word.2.surface, note⟩) : Word)))

theorem readWords_succ (count : Nat) : readWords (count + 1) = andThen readWord fun word =>
    fun bytes => (readWords count bytes).map fun (words, rest) => (word :: words, rest) := by
  funext bytes
  unfold andThen
  rw [readWords]
  cases readWord bytes with
  | error fault => rfl
  | ok first =>
    obtain ⟨word, bytes⟩ := first
    dsimp only [bind, Except.bind]
    cases readWords count bytes with
    | error fault => rfl
    | ok rest => rfl

theorem spells_words {words : List Word}
    (h : ∀ word ∈ words, ∀ s ∈ texts word, (Utf8.encode s).length < 256 ^ 8) :
    Spells (readWords words.length) words (words.flatMap wordBytes) := by
  induction words with
  | nil => exact spells_nil fun rest => rfl
  | cons word words ih =>
    have hword := spells_word (h word List.mem_cons_self)
    have hwords := ih fun other ho => h other (List.mem_cons_of_mem _ ho)
    rw [List.length_cons, readWords_succ, List.flatMap_cons]
    exact hword.andThen (hwords.map (word :: ·))

/-! ### What has been read -/

theorem andThen_eq_ok {first : Reader α} {next : α → Reader β} {bytes rest : List UInt8} {b : β}
    (h : andThen first next bytes = .ok (b, rest)) :
    ∃ a middle, first bytes = .ok (a, middle) ∧ next a middle = .ok (b, rest) := by
  unfold andThen at h
  split at h
  · rename_i a middle hfirst
    exact ⟨a, middle, hfirst, h⟩
  · exact nomatch h

theorem map_eq_ok {read : Reader α} {f : α → β} {bytes rest : List UInt8} {b : β}
    (h : ((read bytes).map fun (a, rest) => (f a, rest)) = .ok (b, rest)) :
    ∃ a, read bytes = .ok (a, rest) ∧ f a = b := by
  cases hread : read bytes with
  | error fault =>
    rw [hread] at h
    exact nomatch h
  | ok value =>
    rw [hread] at h
    obtain ⟨rfl, rfl⟩ := Prod.mk.inj (Except.ok.inj h)
    exact ⟨value.1, rfl, rfl⟩

theorem lt_of_readNumber {width n : Nat} {bytes rest : List UInt8}
    (h : readNumber width bytes = .ok (n, rest)) : n < 256 ^ width := by
  induction width generalizing n bytes with
  | zero =>
    obtain ⟨rfl, -⟩ := Prod.mk.inj (Except.ok.inj h)
    exact Nat.one_pos
  | succ width ih =>
    cases bytes with
    | nil => exact nomatch h
    | cons b bytes =>
      obtain ⟨m, hm, rfl⟩ := map_eq_ok (f := fun m => b.toNat + 256 * m) h
      have hlt := ih hm
      have hb := b.toNat_lt
      rw [Nat.pow_succ]
      omega

theorem length_of_readText {s : Text} {bytes rest : List UInt8}
    (h : readText bytes = .ok (s, rest)) : (Utf8.encode s).length < 256 ^ 8 := by
  rw [readText_eq] at h
  obtain ⟨length, middle, hlength, hs⟩ := andThen_eq_ok h
  have hlt := lt_of_readNumber hlength
  unfold readBytes at hs
  split at hs
  · exact nomatch hs
  · split at hs
    · rename_i t ht
      obtain ⟨rfl, -⟩ := Prod.mk.inj (Except.ok.inj hs)
      have hle := Utf8.length_encode_le ht
      rw [List.length_take] at hle
      omega
    · exact nomatch hs

theorem length_of_readOptional {note : Option Text} {bytes rest : List UInt8}
    (h : readOptional bytes = .ok (note, rest)) :
    ∀ s ∈ note, (Utf8.encode s).length < 256 ^ 8 := by
  cases bytes with
  | nil => exact nomatch h
  | cons tag bytes =>
    rw [readOptional] at h
    split at h
    · obtain ⟨rfl, -⟩ := Prod.mk.inj (Except.ok.inj h)
      exact nofun
    · split at h
      · obtain ⟨t, ht, rfl⟩ := map_eq_ok (f := some) h
        intro s hs
        obtain rfl := Option.mem_some.mp hs
        exact length_of_readText ht
      · exact nomatch h

theorem length_of_readWord {word : Word} {bytes rest : List UInt8}
    (h : readWord bytes = .ok (word, rest)) :
    ∀ s ∈ texts word, (Utf8.encode s).length < 256 ^ 8 := by
  rw [readWord_eq] at h
  obtain ⟨reading, middle, hreading, h⟩ := andThen_eq_ok h
  obtain ⟨surface, middle', hsurface, h⟩ := andThen_eq_ok h
  obtain ⟨note, hnote, rfl⟩ := map_eq_ok (f := fun note => ((reading, ⟨surface, note⟩) : Word)) h
  intro s hs
  rcases List.mem_cons.mp hs with rfl | hs
  · exact length_of_readText hreading
  · rcases List.mem_cons.mp hs with rfl | hs
    · exact length_of_readText hsurface
    · exact length_of_readOptional hnote s (Option.mem_toList.mp hs)

theorem of_readWords {count : Nat} {words : List Word} {bytes rest : List UInt8}
    (h : readWords count bytes = .ok (words, rest)) :
    words.length = count ∧ ∀ word ∈ words, ∀ s ∈ texts word, (Utf8.encode s).length < 256 ^ 8 := by
  induction count generalizing words bytes with
  | zero =>
    obtain ⟨rfl, -⟩ := Prod.mk.inj (Except.ok.inj h)
    exact ⟨rfl, fun _ hword => absurd hword List.not_mem_nil⟩
  | succ count ih =>
    rw [readWords_succ] at h
    obtain ⟨word, middle, hword, h⟩ := andThen_eq_ok h
    obtain ⟨others, hothers, rfl⟩ := map_eq_ok (f := (word :: ·)) h
    obtain ⟨hlength, htexts⟩ := ih hothers
    refine ⟨congrArg (· + 1) hlength, fun other ho => ?_⟩
    rcases List.mem_cons.mp ho with rfl | ho
    · exact length_of_readWord hword
    · exact htexts other ho

end Snapshot

end KanaKanji
