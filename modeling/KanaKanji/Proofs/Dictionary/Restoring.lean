/-
Dictionaries restored from their snapshots.

Where the lengths of a snapshot fit into eight bytes (`Snapshot.Fits`), reading takes back just
what was written:

* `Snapshot.decode_append`: tidy headwords come back from their snapshot, whatever follows it;
* `Snapshot.decode_part`: a snapshot that is cut off anywhere is refused;
* `Snapshot.decode_encode_of_decode`: what has been read from any bytes is tidy, and comes back
  from a snapshot of its own.

Reading may as well put the words of a snapshot in groups first, each word with the words in
front of it that have its reading (`Snapshot.decode_eq_user`).
-/
import KanaKanji.Proofs.Dictionary.History
import KanaKanji.Proofs.Dictionary.Spelling
import Mathlib.Data.List.Nodup

namespace KanaKanji

namespace Headwords

variable {words : Headwords}

/-- No word stands twice among the words of headwords. -/
theorem Tidy.nodup_words (h : words.Tidy) : words.words.Nodup := by
  rw [Headwords.words, List.nodup_flatMap]
  constructor
  · intro group hgroup
    have hnodup := (List.Nodup.of_map _ (h.distinct group hgroup))
    exact hnodup.map fun first second he => (Prod.mk.inj he).2
  · refine List.Pairwise.imp ?_ words.ascending
    intro first second hbefore
    refine List.disjoint_left.mpr ?_
    intro word hfirst hsecond
    obtain ⟨_, -, rfl⟩ := List.mem_map.mp hfirst
    obtain ⟨_, -, he⟩ := List.mem_map.mp hsecond
    exact Index.ne_of_before hbefore (Prod.mk.inj he).1.symm

/-- Headwords made of words have no others. -/
theorem words_ofWords_subset (added : List Word) : (ofWords added).words ⊆ added := by
  intro word hword
  rw [mem_words, lookup_ofWords] at hword
  obtain ⟨other, ho, he⟩ := List.mem_filterMap.mp (Entry.mem_of_mem_distinct hword)
  split at he
  · rename_i hall
    have hsame : other = word := Prod.ext hall.1 (Option.some.inj he)
    exact hsame ▸ ho
  · exact nomatch he

end Headwords

namespace Snapshot

/-- Eight bytes hold the number of the words and the length of each of their texts.  So they do
when they hold the length of the snapshot itself (`fits_of_length`). -/
structure Fits (words : List Word) : Prop where
  count : words.length < 256 ^ 8
  texts : ∀ word ∈ words, ∀ s ∈ texts word, (Utf8.encode s).length < 256 ^ 8

/-! ### The header -/

/-- The letters and the version. -/
def header : List UInt8 := magic ++ [version]

/-- What follows the header: the number of the words, and the words. -/
def listBytes (words : List Word) : List UInt8 :=
  lengthBytes words.length ++ words.flatMap wordBytes

theorem encode_eq (words : Headwords) : encode words = header ++ listBytes words.words := by
  simp [encode, header, listBytes]

theorem body_header (rest : List UInt8) : body (header ++ rest) = .ok rest := by
  unfold body
  rw [if_neg, if_neg, if_neg]
  · rfl
  · simp [header, magic]
  · simp [header, magic]
  · simp [header, magic]

theorem body_of_short {bytes : List UInt8} (h : bytes.length < header.length) :
    body bytes = .error .tooShort :=
  if_pos h

theorem decodeWords_header (rest : List UInt8) :
    decodeWords (header ++ rest) =
      match andThen readLength readWords rest with
      | .ok (words, _) => .ok words
      | .error fault => .error (.badBody fault) := by
  unfold decodeWords andThen
  rw [body_header]
  dsimp only
  cases readLength rest with
  | error fault => rfl
  | ok first =>
    obtain ⟨count, rest⟩ := first
    dsimp only
    cases readWords count rest with
    | error fault => rfl
    | ok second => rfl

theorem spells_list {words : List Word} (h : Fits words) :
    Spells (andThen readLength readWords) words (listBytes words) :=
  (spells_number h.count).andThen (spells_words h.texts)

/-! ### Snapshots of tidy headwords -/

variable {words : Headwords}

theorem decode_append (htidy : words.Tidy) (hfits : Fits words.words) (more : List UInt8) :
    decode (encode words ++ more) = .ok ⟨Dictionary.userName, true, words⟩ := by
  rw [decode, encode_eq, List.append_assoc, decodeWords_header, (spells_list hfits).whole more]
  show Except.ok (⟨Dictionary.userName, true, Headwords.ofWords words.words⟩ : Dictionary) = _
  rw [htidy.ofWords_words]

theorem decode_part (hfits : Fits words.words) {cut : List UInt8}
    (hcut : cut <+: encode words) (hne : cut ≠ encode words) :
    decode cut = .error
      (if cut.length < header.length then .badHeader .tooShort else .badBody .endsEarly) := by
  rw [encode_eq] at hcut hne
  rcases prefix_append_cases hcut with ⟨hpart, hne'⟩ | ⟨rest, rfl, hrest⟩
  · have hshort : cut.length < header.length :=
      Nat.lt_of_le_of_ne hpart.length_le fun he => hne' (hpart.eq_of_length he)
    rw [decode, decodeWords, body_of_short hshort, if_pos hshort]
    rfl
  · have hpart : rest ≠ listBytes words.words := by
      rintro rfl
      exact hne rfl
    have hlong : ¬ (header ++ rest).length < header.length := by
      rw [List.length_append]
      omega
    rw [decode, decodeWords_header, (spells_list hfits).part rest hrest hpart, if_neg hlong]
    rfl

/-! ### Lengths -/

theorem length_wordBytes_pos (word : Word) : 0 < (wordBytes word).length := by
  simp only [wordBytes, textBytes, lengthBytes, List.length_append, length_numberBytes]
  omega

theorem length_texts_le {word : Word} {s : Text} (h : s ∈ texts word) :
    (Utf8.encode s).length ≤ (wordBytes word).length := by
  obtain ⟨reading, surface, note⟩ := word
  simp only [texts, List.mem_cons, Option.mem_toList] at h
  simp only [wordBytes, textBytes, List.length_append]
  rcases h with rfl | rfl | hnote
  · omega
  · omega
  · obtain rfl := Option.mem_def.mp hnote
    simp only [optionalBytes, textBytes, List.length_cons, List.length_append]
    omega

/-- A snapshot that is not too long has no length that is. -/
theorem fits_of_length {words : List Word} (h : (listBytes words).length < 256 ^ 8) :
    Fits words := by
  have hwords : ∀ words : List Word, words.length ≤ (words.flatMap wordBytes).length ∧
      ∀ word ∈ words, (wordBytes word).length ≤ (words.flatMap wordBytes).length := by
    intro words
    induction words with
    | nil => exact ⟨Nat.le_refl 0, fun _ hword => absurd hword List.not_mem_nil⟩
    | cons word words ih =>
      obtain ⟨hcount, hlengths⟩ := ih
      have hpos := length_wordBytes_pos word
      rw [List.flatMap_cons, List.length_append, List.length_cons]
      refine ⟨by omega, fun other ho => ?_⟩
      rcases List.mem_cons.mp ho with rfl | ho
      · omega
      · have hle := hlengths other ho
        omega
  obtain ⟨hcount, hlengths⟩ := hwords words
  rw [listBytes, List.length_append] at h
  refine ⟨by omega, fun word hword s hs => ?_⟩
  have hle := hlengths word hword
  have hs := length_texts_le hs
  omega

/-! ### What has been read -/

theorem Fits.ofWords {added : List Word} (h : Fits added) :
    Fits (Headwords.ofWords added).words := by
  have hsubset := Headwords.words_ofWords_subset added
  constructor
  · have hnodup := (Headwords.tidy_ofWords added).nodup_words
    have hle := (List.subperm_of_subset hnodup hsubset).length_le
    have hcount := h.count
    omega
  · exact fun word hword => h.texts word (hsubset hword)

/-- What has been read has lengths that fit. -/
theorem fits_of_decodeWords {bytes : List UInt8} {added : List Word}
    (h : decodeWords bytes = .ok added) : Fits added := by
  unfold decodeWords at h
  split at h
  · exact nomatch h
  · split at h
    · exact nomatch h
    · rename_i count rest hcount
      split at h
      · exact nomatch h
      · rename_i others hothers
        obtain rfl := Except.ok.inj h
        obtain ⟨hlength, htexts⟩ := of_readWords hothers
        exact ⟨hlength ▸ lt_of_readNumber hcount, htexts⟩

theorem exists_decodeWords {bytes : List UInt8} {d : Dictionary} (h : decode bytes = .ok d) :
    ∃ added, decodeWords bytes = .ok added ∧
      d = ⟨Dictionary.userName, true, Headwords.ofWords added⟩ := by
  unfold decode at h
  cases hread : decodeWords bytes with
  | error e =>
    rw [hread] at h
    exact nomatch h
  | ok added =>
    rw [hread] at h
    exact ⟨added, rfl, (Except.ok.inj h).symm⟩

/-- **What has been read from any bytes is tidy, and comes back from a snapshot of its own.** -/
theorem decode_encode_of_decode {bytes : List UInt8} {d : Dictionary} (h : decode bytes = .ok d) :
    d.words.Tidy ∧ decode (encode d.words) = .ok d := by
  obtain ⟨added, hread, rfl⟩ := exists_decodeWords h
  have htidy := Headwords.tidy_ofWords added
  refine ⟨htidy, ?_⟩
  have hback := decode_append htidy (fits_of_decodeWords hread).ofWords []
  rwa [List.append_nil] at hback

/-! ### Words in groups -/

/-- A word goes to the last group if it has its reading, and else starts one. -/
def addToRun (groups : List Group) (word : Word) : List Group :=
  match groups.getLast? with
  | none => [(word.1, [word.2])]
  | some (reading, entries) =>
    if reading = word.1 then groups.dropLast ++ [(reading, entries ++ [word.2])]
    else groups ++ [(word.1, [word.2])]

/-- The words in groups, those that stand together under one reading in one group. -/
def runs (added : List Word) : List Group :=
  added.foldl addToRun []

theorem wordsOfGroups_addToRun (groups : List Group) (word : Word) :
    Headwords.wordsOfGroups (addToRun groups word)
      = Headwords.wordsOfGroups groups ++ [word] := by
  unfold addToRun
  split
  · rename_i hlast
    rw [List.getLast?_eq_none_iff.mp hlast]
    rfl
  · rename_i reading entries hlast
    split
    · rename_i hreading
      obtain ⟨front, rfl⟩ := List.getLast?_eq_some_iff.mp hlast
      rw [List.dropLast_concat]
      simp [Headwords.wordsOfGroups, hreading]
    · simp [Headwords.wordsOfGroups]

theorem wordsOfGroups_runs (added : List Word) :
    Headwords.wordsOfGroups (runs added) = added := by
  have general : ∀ (added : List Word) (groups : List Group),
      Headwords.wordsOfGroups (added.foldl addToRun groups)
        = Headwords.wordsOfGroups groups ++ added := by
    intro added
    induction added with
    | nil => simp
    | cons word added ih =>
      intro groups
      rw [List.foldl_cons, ih, wordsOfGroups_addToRun, List.append_assoc, List.singleton_append]
  exact general added []

/-- A snapshot restores the dictionary that starts from its words in groups. -/
theorem decode_eq_user {bytes : List UInt8} {added : List Word}
    (h : decodeWords bytes = .ok added) :
    decode bytes = .ok (Dictionary.user Dictionary.userName (runs added)) := by
  rw [decode, h, Dictionary.user, wordsOfGroups_runs]
  rfl

end Snapshot

/-! ### Snapshots of dictionaries that have been written to -/

namespace Dictionary

theorem tidy_user_editedBy (name : Text) (groups : List Group) (edits : List Edit) :
    ((user name groups).editedBy edits).words.Tidy := by
  have hseeded := Seeded.given name groups
  exact (editedBy_invariant hseeded.writable hseeded.tidy edits).2.2

/-- **A dictionary comes back from its snapshot.**  What is restored looks up the same, and has
the same snapshot.  The snapshot is that of whatever dictionary looks up the same, however this
has come about. -/
theorem restored_from_snapshot (name : Text) (groups : List Group) (edits : List Edit) :
    let d := (user name groups).editedBy edits
    (Snapshot.Fits d.words.words →
        ∃ restored, Snapshot.decode (Snapshot.encode d.words) = .ok restored ∧
          restored.name = userName ∧ restored.writable = true ∧
          (∀ reading, restored.lookup reading = d.lookup reading) ∧
          Snapshot.encode restored.words = Snapshot.encode d.words) ∧
      ∀ name' groups' edits',
        let other := (user name' groups').editedBy edits'
        (∀ reading, other.lookup reading = d.lookup reading) →
          Snapshot.encode other.words = Snapshot.encode d.words := by
  intro d
  have htidy : d.words.Tidy := tidy_user_editedBy name groups edits
  constructor
  · intro hfits
    have hback := Snapshot.decode_append htidy hfits []
    rw [List.append_nil] at hback
    exact ⟨_, hback, rfl, rfl, fun _ => rfl, rfl⟩
  · intro name' groups' edits' other hsame
    rw [(tidy_user_editedBy name' groups' edits').ext htidy hsame]

/-- A dictionary with notes and with words that were given twice or empty, after edits.  Another
one that was given these words to begin with has the same snapshot. -/
theorem restored_from_snapshot_ai :
    let d := (user "mine".toList
        [("あい".toList, [⟨"愛".toList, some "love".toList⟩, ⟨"相".toList, none⟩]),
          ([], [⟨"無".toList, none⟩]), ("か".toList, [⟨"蚊".toList, none⟩, ⟨[], none⟩]),
          ("あい".toList, [⟨"愛".toList, none⟩])]).editedBy
      [.register "あい".toList ⟨"藍".toList, some "indigo".toList⟩,
        .register "あい".toList ⟨[], none⟩, .purge "か".toList "蚊".toList]
    let other := user userName [("あい".toList, [⟨"藍".toList, some "indigo".toList⟩,
      ⟨"愛".toList, some "love".toList⟩, ⟨"相".toList, none⟩])]
    Snapshot.Fits d.words.words ∧
      ∃ restored, Snapshot.decode (Snapshot.encode d.words) = .ok restored ∧
        restored.lookup "あい".toList = [⟨"藍".toList, some "indigo".toList⟩,
          ⟨"愛".toList, some "love".toList⟩, ⟨"相".toList, none⟩] ∧
        restored.lookup "か".toList = [] ∧
        Snapshot.encode (other.editedBy []).words = Snapshot.encode d.words := by
  intro d other
  have hwords : (other.editedBy []).words = d.words := by decide +kernel
  have hfits : Snapshot.Fits d.words.words := Snapshot.fits_of_length (by decide +kernel)
  obtain ⟨hrestored, hhistory⟩ := restored_from_snapshot "mine".toList _ _
  obtain ⟨restored, hdecode, -, -, hsame, -⟩ := hrestored hfits
  refine ⟨hfits, restored, hdecode, ?_, ?_, hhistory userName _ [] ?_⟩
  · rw [hsame]
    decide +kernel
  · rw [hsame]
    decide +kernel
  · exact fun reading => congrArg (Headwords.lookup · reading) hwords

/-- **A damaged snapshot is refused, not read as a shorter dictionary.**  A snapshot is read
whatever follows it, and no part of it is read.  Whatever bytes are read give tidy headwords,
which come back from a snapshot of their own. -/
theorem damaged_snapshot :
    (∀ start added edits, Seeded start added →
      let d := start.editedBy edits
      Snapshot.Fits d.words.words →
        (∀ cut, cut <+: Snapshot.encode d.words → cut ≠ Snapshot.encode d.words →
          Snapshot.decode cut = .error (if cut.length < Snapshot.header.length
            then .badHeader .tooShort else .badBody .endsEarly)) ∧
        Snapshot.decode (Snapshot.encode d.words) = .ok ⟨userName, true, d.words⟩ ∧
        ∀ more, Snapshot.decode (Snapshot.encode d.words ++ more)
          = Snapshot.decode (Snapshot.encode d.words)) ∧
      ∀ bytes restored, Snapshot.decode bytes = .ok restored →
        restored.words.Tidy ∧ Snapshot.decode (Snapshot.encode restored.words) = .ok restored := by
  constructor
  · intro start added edits hseeded d hfits
    obtain ⟨-, -, htidy⟩ := editedBy_invariant hseeded.writable hseeded.tidy edits
    have hwhole : ∀ more, Snapshot.decode (Snapshot.encode d.words ++ more)
        = .ok ⟨userName, true, d.words⟩ := Snapshot.decode_append htidy hfits
    have hself : Snapshot.decode (Snapshot.encode d.words) = .ok ⟨userName, true, d.words⟩ := by
      have hnothing := hwhole []
      rwa [List.append_nil] at hnothing
    refine ⟨?_, hself, ?_⟩
    · intro cut hcut hne
      exact Snapshot.decode_part hfits hcut hne
    · intro more
      rw [hwhole, hself]
  · intro bytes restored hread
    exact Snapshot.decode_encode_of_decode hread

/-- A dictionary that is read from foreign bytes comes back from its own snapshot, but, once it
is edited, not from its snapshot without the last byte. -/
theorem damaged_snapshot_ka :
    let foreign := Snapshot.header ++ Snapshot.listBytes
      [("か".toList, ⟨"蚊".toList, none⟩), ("あ".toList, ⟨"亜".toList, none⟩),
        ([], ⟨"無".toList, none⟩), ("か".toList, ⟨"蚊".toList, some "again".toList⟩)]
    ∃ start added, Seeded start added ∧ Snapshot.decode foreign = .ok start ∧
      Snapshot.decode (Snapshot.encode start.words) = .ok start ∧
      let d := start.editedBy [.register "か".toList ⟨"課".toList, none⟩]
      Snapshot.Fits d.words.words ∧
        d.lookup "か".toList = [⟨"課".toList, none⟩, ⟨"蚊".toList, none⟩] ∧
        Snapshot.decode (Snapshot.encode d.words).dropLast = .error (.badBody .endsEarly) := by
  intro foreign
  have hwords : Snapshot.decodeWords foreign = .ok
      [("か".toList, ⟨"蚊".toList, none⟩), ("あ".toList, ⟨"亜".toList, none⟩),
        ([], ⟨"無".toList, none⟩), ("か".toList, ⟨"蚊".toList, some "again".toList⟩)] := by
    decide +kernel
  have hdecode := Snapshot.decode_eq_user hwords
  obtain ⟨hsnapshots, hforeign⟩ := damaged_snapshot
  refine ⟨_, _, .restored hdecode hwords, hdecode, (hforeign foreign _ hdecode).2, ?_⟩
  intro d
  have hfits : Snapshot.Fits d.words.words := Snapshot.fits_of_length (by decide +kernel)
  obtain ⟨hcut, -⟩ := hsnapshots _ _ [.register "か".toList ⟨"課".toList, none⟩]
    (.restored hdecode hwords) hfits
  have hne : (Snapshot.encode d.words).dropLast ≠ Snapshot.encode d.words := by
    decide +kernel
  refine ⟨hfits, by decide +kernel, ?_⟩
  rw [hcut _ (List.dropLast_prefix _) hne, if_neg (by decide +kernel)]

end Dictionary

end KanaKanji
