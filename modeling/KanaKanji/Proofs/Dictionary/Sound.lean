/-
Entries that have a surface.

No dictionary lists an entry without a surface (`Dictionary.Sound`), whether it is made of groups
or of a snapshot (`Dictionary.sound_fixed`, `sound_user`, `sound_decode`), and a change keeps it
so when all that it brings has one (`Headwords.Sound.change`).
-/
import KanaKanji.Dictionary.Snapshot
import KanaKanji.Proofs.Dictionary.Distinct

namespace KanaKanji

namespace Headwords

/-- Every entry has a surface. -/
def Sound (words : Headwords) : Prop :=
  ∀ reading, ∀ entry ∈ lookup words reading, entry.surface ≠ []

theorem sound_empty : Sound Index.empty :=
  fun _ _ h => absurd h List.not_mem_nil

/-- A change keeps it so when all that it brings has a surface. -/
theorem Sound.change {words : Headwords} (h : words.Sound) {reading : Text}
    {f : List Entry → List Entry}
    (hf : ∀ entry ∈ f (words.lookup reading),
      entry ∈ words.lookup reading ∨ entry.surface ≠ []) :
    (words.change reading f).Sound := by
  intro other entry hentry
  by_cases ho : other = reading
  · subst ho
    rw [lookup_change_self] at hentry
    exact (hf entry hentry).elim (h other entry) id
  · rw [lookup_change_of_ne ho] at hentry
    exact h other entry hentry

theorem Sound.register {words : Headwords} (h : words.Sound) (reading : Text) {entry : Entry}
    (hentry : entry.surface ≠ []) : (words.register reading entry).Sound := by
  refine h.change fun other ho => ?_
  rcases List.mem_cons.mp ho with rfl | ho
  · exact Or.inr hentry
  · exact Or.inl ((List.mem_filter.mp ho).1)

theorem sound_ofGroups (groups : List Group) : (ofGroups groups).Sound := by
  have general : ∀ (groups : List Group) (words : Headwords), words.Sound →
      (groups.foldl addGroup words).Sound := by
    intro groups
    induction groups with
    | nil => exact fun words h => h
    | cons group groups ih =>
      intro words h
      refine ih _ ?_
      unfold addGroup
      split
      · exact h
      · refine h.change fun entry hentry => ?_
        rcases Entry.mem_of_mem_foldl_addLast hentry with hold | hnew
        · exact Or.inl hold
        · exact Or.inr (by simpa using (List.mem_filter.mp hnew).2)
  exact general groups _ sound_empty

theorem sound_ofWords (words : List Word) : (ofWords words).Sound := by
  have general : ∀ (added : List Word) (words : Headwords), words.Sound →
      (added.foldl addWord words).Sound := by
    intro added
    induction added with
    | nil => exact fun words h => h
    | cons word added ih =>
      intro words h
      refine ih _ ?_
      unfold addWord
      split
      · exact h
      · rename_i hword
        simp only [Bool.or_eq_true, List.isEmpty_iff, not_or] at hword
        refine h.change fun entry hentry => ?_
        rcases Entry.mem_of_mem_addLast hentry with hold | rfl
        · exact Or.inl hold
        · exact Or.inr hword.2
  exact general words _ sound_empty

end Headwords

namespace Dictionary

/-- Every entry has a surface. -/
def Sound (dictionary : Dictionary) : Prop :=
  dictionary.words.Sound

theorem sound_fixed (name : Text) (groups : List Group) : (fixed name groups).Sound :=
  Headwords.sound_ofGroups groups

theorem sound_user (name : Text) (groups : List Group) : (user name groups).Sound :=
  Headwords.sound_ofWords _

theorem sound_decode {bytes : List UInt8} {dictionary : Dictionary}
    (h : Snapshot.decode bytes = .ok dictionary) : dictionary.Sound := by
  unfold Snapshot.decode at h
  cases hwords : Snapshot.decodeWords bytes with
  | error e =>
    rw [hwords] at h
    exact nomatch h
  | ok words =>
    rw [hwords] at h
    obtain rfl := Except.ok.inj h
    exact Headwords.sound_ofWords words

end Dictionary

end KanaKanji
