/-
What is committed is offered first.

A candidate that is committed, and a word that is registered, goes to the front of its headword.
Where the first layer can be written to, nothing comes before it when its key is looked up again:

* `Session.surfaced_run`: every candidate that is ever shown has a surface, so that no dictionary
  refuses it;
* `Session.register_of_learns`, `Session.receiver_of_learns`: what a key that commits writes, and
  where its text goes;
* `Session.learned_first`: what is offered after it.
-/
import KanaKanji.Proofs.Dictionary.Completions
import KanaKanji.Proofs.Dictionary.Headword
import KanaKanji.Proofs.Session.Writes

namespace KanaKanji

namespace Situation

variable {s : Situation} {event : KeyEvent} {part : Segment} {candidate : Candidate}

/-- What is found has a surface. -/
theorem surface_of_mem_found (h : s.shelf.Sound) {lookup : Lookup}
    (hcandidate : candidate ∈ s.found lookup) : candidate.entry.surface ≠ [] := by
  cases lookup with
  | conversion key =>
    obtain ⟨entry, hentry, rfl⟩ := List.mem_map.mp hcandidate
    exact h.surface_of_mem_lookup hentry
  | completion yomi =>
    exact h.surface_of_mem_lookup (Layered.entry_mem_lookup hcandidate).2.2

theorem sound_written (h : s.shelf.Sound) (w : Write) : (s.written w).Sound := by
  cases w with
  | learn candidate =>
    rcases s.registered_cases candidate.key.headword candidate.entry with
      hrefused | ⟨place, -, hregistered⟩
    · rw [written, hrefused]
      exact h
    · exact hregistered.sound h
  | purge candidate => exact h.purge _ _ _

/-! ### Committed text -/

/-- What a key that learns a candidate commits: its output, and if the key is not the commit
key, what it then types. -/
theorem committed_of_learns (h : s.Writes event part (.learn candidate)) :
    (s.handle part event).committed = candidate.output ++
      if s.binds .commit event then []
      else (direct { s with shelf := s.written (.learn candidate) } [] event).committed := by
  have hcancel := h.cancel_eq_false
  cases h with
  | commit shown key =>
    have hcommit : s.binds .commit event = true := Keymap.binds_of_first? key
    rw [handle_of_commit shown key, if_pos hcommit, List.append_nil]
    rfl
  | type shown free printable =>
    have hcommit : s.binds .commit event = false :=
      Keymap.not_binds_of_first? free (by cases shown <;> decide)
    obtain ⟨c, hc⟩ := Option.ne_none_iff_exists'.mp printable
    rw [handle_of_free shown free, commitAndType, hc, hcommit, if_neg Bool.false_ne_true]
    rfl
  | @confirm key origin text tail command stays word =>
    have hcommit : s.binds .commit event = true := Keymap.binds_of_first? command
    have hword : ¬ (text ++ s.flushed tail).isEmpty = true := by simpa using word
    rw [handle, hcancel, if_neg Bool.false_ne_true, if_pos hcommit, List.append_nil]
    dsimp only
    rw [registrationCommand?_of_confirm command stays]
    dsimp only
    rw [confirm, if_neg hword]
    rfl

end Situation

namespace Session

variable {session : Session} {event : KeyEvent} {depth : Nat} {candidate : Candidate}

/-! ### Candidates that are shown -/

/-- Every entry of the dictionaries and every candidate that is shown has a surface. -/
structure Surfaced (session : Session) : Prop where
  shelf : session.shelf.Sound
  shown : ∀ selection, session.context.segment.selection? = some selection →
    ∀ candidate ∈ selection.candidates, candidate.entry.surface ≠ []

theorem surfaced_press (h : session.Surfaced) (event : KeyEvent) :
    (session.press event).Surfaced := by
  by_cases hrelease : event.isRelease = true
  · rw [press_of_release session hrelease]
    exact h
  have hpress : event.isRelease = false := by simpa using hrelease
  have hshelf : (session.press event).shelf.Sound := by
    rcases session.exists_writes event with hsame | ⟨depth, w, hwrites⟩
    · rw [hsame]
      exact h.shelf
    · rw [shelf_press_of_writes hwrites]
      exact Situation.sound_written h.shelf w
  refine ⟨hshelf, fun selection hselection candidate hcandidate => ?_⟩
  rw [press_of_not_release session hpress] at hshelf hselection
  rcases session.situation.shown_handle session.context.segment event with hfinds | hkeeps
  · obtain ⟨lookup, -, -, hfound⟩ := hfinds selection hselection
    rw [hfound] at hcandidate
    exact Situation.surface_of_mem_found hshelf hcandidate
  · obtain ⟨earlier, hearlier, -, hsame⟩ := hkeeps.exists_selection? hselection
    rw [hsame] at hcandidate
    exact h.shown earlier hearlier candidate hcandidate

theorem surfaced_serve (h : session.Surfaced) (request : Request) :
    (session.serve request).Surfaced := by
  cases request with
  | press event => exact surfaced_press h event
  | setMode mode => exact ⟨h.shelf, h.shown⟩
  | reset => exact ⟨h.shelf, fun _ hselection => nomatch hselection⟩
  | poll => exact ⟨h.shelf, h.shown⟩
  | register reading entry =>
    refine ⟨?_, h.shown⟩
    show (session.shelf.afterWrite _).Sound
    cases hwrite : session.shelf.register session.context.layers reading entry with
    | error e => exact h.shelf
    | ok result =>
      obtain ⟨place, -, hregistered⟩ := Shelf.registered_of_register hwrite
      exact hregistered.sound h.shelf
  | purge reading surface => exact ⟨h.shelf.purge _ _ _, h.shown⟩
  | registerAt place reading entry =>
    refine ⟨?_, h.shown⟩
    show (session.shelf.afterWrite _).Sound
    cases hwrite : session.shelf.registerAt place reading entry with
    | error e => exact h.shelf
    | ok result => exact (Shelf.registered_of_registerAt hwrite).sound h.shelf
  | purgeAt place reading surface =>
    refine ⟨?_, h.shown⟩
    show (session.shelf.afterWrite _).Sound
    rcases Shelf.purgeAt_cases session.shelf place reading surface with
      ⟨d, purged, removed, hd, -, hpurged, he⟩ | ⟨-, e, he⟩
    · rw [he]
      exact h.shelf.set place (hpurged.sound (h.shelf d (List.mem_of_getElem? hd)))
    · rw [he]
      exact h.shelf

/-- **Every candidate that is ever shown has a surface.** -/
theorem surfaced_run (settings : Settings) (table : RomajiTable) (layers : Layers) {shelf : Shelf}
    (h : shelf.Sound) (requests : List Request) :
    ((start settings table layers shelf).run requests).Surfaced := by
  refine run_invariant (P := Surfaced) (fun _ request hs => surfaced_serve hs request)
    ⟨h, fun selection hselection => ?_⟩ requests
  have hnone : (none : Option Selection) = some selection := hselection
  exact nomatch hnone

/-- What is learned can be registered: it has a headword and a surface. -/
theorem ne_nil_of_learns (hsurfaced : session.Surfaced) (hwellFormed : session.WellFormed)
    (h : session.Writes event depth (.learn candidate)) :
    candidate.key.headword ≠ [] ∧ candidate.entry.surface ≠ [] := by
  obtain ⟨-, part, hpart, hwrites⟩ := h
  have hclause := Segment.WellFormed.clause_of_within? hwellFormed hpart
  have hshown : ∀ {selection commands}, part.Shows selection commands →
      selection.current.key.headword ≠ [] ∧ selection.current.entry.surface ≠ [] := by
    intro selection commands shown
    have hselection : session.context.segment.selection? = some selection := by
      rw [Segment.selection?, Segment.innermost_of_within? hpart, shown.innermost]
      cases shown <;> rfl
    refine ⟨ConversionKey.headword_ne_nil ?_,
      hsurfaced.shown selection hselection _ selection.current_mem⟩
    cases shown with
    | selecting =>
      obtain ⟨-, -, -, hconversion⟩ := hclause
      rw [hconversion.keys _ selection.current_mem]
      exact hconversion.key.yomi_ne_nil
    | completing =>
      obtain ⟨-, -, -, hcompletion⟩ := hclause
      exact (Selection.wellFormed_current hcompletion).yomi_ne_nil
  cases hwrites with
  | commit shown key => exact hshown shown
  | type shown free printable => exact hshown shown
  | confirm command stays word =>
    obtain ⟨-, -, hkey⟩ := hclause
    exact ⟨ConversionKey.headword_ne_nil hkey.yomi_ne_nil, word⟩

/-! ### Where the text goes -/

/-- The text to which a segment inside so many registrations commits: the word of the innermost
of them, or the output. -/
def receiver (session : Session) : Nat → Text
  | 0 => session.context.output
  | depth + 1 =>
    match session.context.segment.within? depth with
    | some (.registering _ _ text _) => text
    | _ => []

theorem receiver_inside {session : Session} {outer : List Registration} {r : Registration}
    {segment : Segment} (h : session.context.segment = segment.inside (outer ++ [r])) :
    session.receiver (outer.length + 1) = r.text := by
  have hwithin := Segment.within?_inside outer (segment.inside [r])
  rw [← Segment.inside_append, ← h] at hwithin
  rw [receiver, hwithin]
  rfl

/-- What a segment commits goes to its receiver. -/
theorem receiver_press (hpress : event.isRelease = false) {part : Segment}
    (hpart : session.context.segment.within? depth = some part)
    (hpass : session.situation.PassesTo part event) :
    (session.press event).receiver depth = session.receiver depth ++
      ((session.situation.deeper depth).handle part event).committed := by
  obtain ⟨registrations, rfl, hinside⟩ := Segment.exists_inside_of_within? hpart
  rcases List.eq_nil_or_concat registrations with rfl | ⟨outer, r, rfl⟩
  · rw [press_of_not_release session hpress, hinside]
    rfl
  · rw [List.concat_eq_append] at hinside ⊢
    have hafter : (session.press event).context.segment =
        ((session.situation.deeper (outer.length + 1)).handle part event).segment.inside
          (outer ++ [r.spell
            ((session.situation.deeper (outer.length + 1)).handle part event).committed]) := by
      rw [press_of_not_release session hpress, hinside, Situation.handle_inside hpass outer r]
    rw [List.length_append]
    rw [show outer.length + [r].length = outer.length + 1 from rfl, receiver_inside hafter,
      receiver_inside hinside]
    rfl

/-! ### What is offered -/

/-- A key that learns a candidate registers it, where a layer can be written to. -/
theorem register_of_learns {place : Nat}
    (hplace : session.shelf.writablePlace? session.context.layers = some place)
    (hheadword : candidate.key.headword ≠ []) (hsurface : candidate.entry.surface ≠ [])
    (hlearns : session.Writes event depth (.learn candidate)) :
    ∃ isNew, session.shelf.register session.context.layers candidate.key.headword candidate.entry
      = .ok (isNew, (session.press event).shelf) := by
  obtain ⟨written, hregister⟩ := Shelf.register_of_writablePlace? hplace hheadword hsurface
  have hafter : (session.press event).shelf = written := by
    rw [shelf_press_of_writes hlearns, Situation.written, Situation.registered_eq_afterWrite]
    show session.shelf.afterWrite (session.shelf.register session.context.layers _ _) = written
    rw [hregister]
    rfl
  rw [hafter]
  exact ⟨_, hregister⟩

/-- What is registered in the first layer is the first candidate for its key. -/
theorem candidates_of_register {shelf after : Shelf} {place : Nat} {rest : Layers} {isNew : Bool}
    (hwritable : shelf.isWritable place = true)
    (h : shelf.register (place :: rest) candidate.key.headword candidate.entry
      = .ok (isNew, after)) :
    (after.select (place :: rest)).candidates candidate.key = candidate ::
      ((shelf.select (place :: rest)).candidates candidate.key).filter
        fun other => other.entry.surface != candidate.entry.surface := by
  obtain ⟨first, hfirst, hregistered⟩ := Shelf.registered_of_register h
  have hplace : shelf.writablePlace? (place :: rest) = some place :=
    List.find?_cons_of_pos hwritable
  obtain rfl := Option.some.inj (hplace.symm.trans hfirst)
  rw [Layered.candidates, hregistered.lookup_select, Layered.candidates, List.filter_map]
  rfl

/-- The text of a key that learns a candidate. -/
theorem receiver_of_learns (hlearns : session.Writes event depth (.learn candidate)) :
    (session.press event).receiver depth = session.receiver depth ++ (candidate.output ++
      if session.situation.binds .commit event then []
      else ({ session.situation.deeper depth with shelf := (session.press event).shelf }.direct []
        event).committed) := by
  rw [shelf_press_of_writes hlearns]
  obtain ⟨hpress, part, hpart, hwrites⟩ := hlearns
  rw [receiver_press hpress hpart hwrites.passesTo, Situation.committed_of_learns hwrites]
  rfl

/-- **What was committed is offered first.**  Where the first layer can be written to, a candidate
that is committed, and the word of a registration that is confirmed, is registered.  When its key
is looked up again, it comes first, and behind it all that was offered before, without its surface
and in the same order.  The text that was committed is its output, and what a key that is not the
commit key then types.  The shelf is sound when it is made of any of the dictionaries that there
are (`Dictionary.sound_fixed`, `sound_user`, `sound_decode`). -/
theorem learned_first (settings : Settings) (table : RomajiTable) (place : Nat) (rest : Layers)
    (shelf : Shelf) (requests : List Request) (event : KeyEvent) (depth : Nat)
    (candidate : Candidate) (hsound : shelf.Sound) :
    let session := (start settings table (place :: rest) shelf).run requests
    let after := session.press event
    let offered := fun shelf : Shelf => (shelf.select (place :: rest)).candidates candidate.key
    session.shelf.isWritable place = true → session.Writes event depth (.learn candidate) →
    (∃ isNew, session.shelf.register (place :: rest) candidate.key.headword candidate.entry
        = .ok (isNew, after.shelf)) ∧
      offered after.shelf = candidate :: (offered session.shelf).filter
        (fun other => other.entry.surface != candidate.entry.surface) ∧
      after.receiver depth = session.receiver depth ++ (candidate.output ++
        if session.situation.binds .commit event then []
        else ({ session.situation.deeper depth with shelf := after.shelf }.direct []
          event).committed) := by
  intro session after offered hwritable hlearns
  have hsurfaced := surfaced_run settings table (place :: rest) hsound requests
  have hwellFormed := (wellFormed_start settings table (place :: rest) shelf).run requests
  obtain ⟨-, -, hlayers⟩ := run_frame (start settings table (place :: rest) shelf) requests
  have hplace : session.shelf.writablePlace? session.context.layers = some place := by
    rw [hlayers]
    exact List.find?_cons_of_pos hwritable
  -- a dictionary refuses only what has no headword or no surface
  obtain ⟨hheadword, hsurface⟩ := ne_nil_of_learns hsurfaced hwellFormed hlearns
  obtain ⟨isNew, hregister⟩ := register_of_learns hplace hheadword hsurface hlearns
  rw [hlayers] at hregister
  exact ⟨⟨isNew, hregister⟩, candidates_of_register hwritable hregister,
    receiver_of_learns hlearns⟩

/-- Two forms of だい3かい, the second one current. -/
def numbered : Selection where
  key := { yomi := "だい3かい".toList }
  origin := .kana
  candidates := ["第#1回", "第#3回"].map fun surface =>
    ⟨{ yomi := "だい3かい".toList }, { surface := surface.toList }⟩
  index := 1
  index_lt := by decide

/-- A number with its counter is committed to the word of a registration. -/
theorem learned_first_numbered :
    let shelf : Shelf := [Dictionary.user Dictionary.userName
      [("だい#かい".toList, ["第#1回", "第#3回"].map fun s => { surface := s.toList })]]
    let session := (start Settings.builtin RomajiTable.builtin [0] shelf).run
      ("A Dai3kai  ".toList.map fun c => .press (KeyEvent.ofChar c))
    let enter : KeyEvent := ⟨.named .enter, .none⟩
    shelf.Sound ∧ session.shelf.isWritable 0 = true ∧
      session.Writes enter 1 (.learn numbered.current) ∧
      (((session.press enter).shelf.select [0]).candidates numbered.key).map Candidate.output
        = ["第三回".toList, "第３回".toList] ∧
      (session.press enter).receiver 1 = "第三回".toList := by
  intro shelf session enter
  have hsound : shelf.Sound := by
    intro d hd
    obtain rfl := List.mem_singleton.mp hd
    exact Dictionary.sound_user _ _
  have hwritable : session.shelf.isWritable 0 = true := by decide +kernel
  have hpart : session.context.segment.within? 1 = some (.selecting numbered) := by
    decide +kernel
  have hkey : session.context.settings.keymap.first? [.cancel, .nextCandidate, .previousCandidate,
      .purgeCandidate, .registerWord, .delete, .commit] enter = some .commit := by
    decide +kernel
  have hlearns : session.Writes enter 1 (.learn numbered.current) :=
    ⟨rfl, _, hpart, .commit (.selecting numbered) hkey⟩
  obtain ⟨-, hoffered, hreceiver⟩ := learned_first Settings.builtin RomajiTable.builtin 0 [] shelf
    ("A Dai3kai  ".toList.map fun c => .press (KeyEvent.ofChar c)) enter 1 numbered.current hsound
    hwritable hlearns
  have hbefore : ((session.shelf.select [0]).candidates numbered.key) = numbered.candidates ∧
      session.receiver 1 = [] ∧ session.situation.binds .commit enter = true := by
    decide +kernel
  refine ⟨hsound, hwritable, hlearns, ?_, ?_⟩
  · refine (congrArg (List.map Candidate.output) hoffered).trans ?_
    show (numbered.current :: ((session.shelf.select [0]).candidates numbered.key).filter _).map
      Candidate.output = _
    rw [hbefore.1]
    decide +kernel
  · rw [hreceiver, hbefore.2.1, if_pos hbefore.2.2]
    decide +kernel

end Session

end KanaKanji
