/-
Going back to a reading.

When a reading is looked up its buffer is given up, and only the key is kept, with the
candidates or with the registration that the lookup led to.  From the key the reading is made
again: by a delete key among the candidates, however many were stepped through before, and by
the confirmation of a registration that has no word.

* `Situation.LooksUp.restores`: the key, edited again, is the reading that was looked up;
* `Session.shows_pressAll`: stepping through the candidates keeps the key;
* `Session.going_back`: every way back leads to the reading.

Okurigana that had been opened and not typed are not kept by the key, so that they are closed
when the reading is back.
-/
import KanaKanji.Proofs.Session.Lookup
import KanaKanji.Proofs.Session.Unconsumed
import KanaKanji.Romaji.Builtin

namespace KanaKanji

/-! ### The reading again -/

/-- The key of a buffer, as a buffer again: empty okurigana are closed. -/
theorem Buffer.ofKey_key (b : Buffer) :
    ofKey b.key = { kana := b.kana, okuri := b.okuri.filter fun okuri => !okuri.isEmpty } := by
  obtain ⟨kana, okuri, tail⟩ := b
  cases okuri with
  | none => simp [ofKey, key, okuriText]
  | some okuri =>
    cases okuri with
    | nil =>
      simp only [ofKey, key, okuriText, Option.getD_some, List.isEmpty_nil, if_true,
        List.append_nil]
      rfl
    | cons c cs =>
      simp only [ofKey, key, okuriText, Option.getD_some, List.isEmpty_cons, Bool.false_eq_true,
        if_false, List.append_nil]
      rfl

namespace Segment

/-- The segment `back` is the reading again: of the same kind and with the same text, nothing
pending, and the okurigana are open if there were any. -/
structure Restores (reading back : Segment) : Prop where
  mode : back.mode = reading.mode
  text : back.buffer.text = reading.buffer.text
  okuri : back.buffer.okuri = reading.buffer.okuri.filter fun okuri => !okuri.isEmpty
  tail : back.buffer.tail = []

theorem text_editing (key : ConversionKey) (origin : Origin) :
    (editing key origin).buffer.text = key.text := by
  cases origin with
  | kana => exact Buffer.text_ofKey key
  | abbreviation => exact List.append_nil _

theorem tail_editing (key : ConversionKey) (origin : Origin) :
    (editing key origin).buffer.tail = [] := by
  cases origin with
  | kana =>
    show (Buffer.ofKey key).tail = []
    unfold Buffer.ofKey
    split
    · rfl
    · rfl
  | abbreviation => rfl

end Segment

namespace Situation

variable {s : Situation} {event : KeyEvent} {segment reading : Segment} {lookup : Lookup}

/-- **The key that is looked up, edited again, is the reading.** -/
theorem LooksUp.restores (h : s.LooksUp event segment reading lookup) :
    reading.Restores (.editing lookup.key reading.origin) where
  mode := by cases h <;> rfl
  text := by rw [Segment.text_editing, h.text_key]
  tail := Segment.tail_editing _ _
  okuri := by
    cases h with
    | @convert b key kana =>
      show (Buffer.ofKey (b.flush s.table).key).okuri = _
      rw [Buffer.ofKey_key]
      rfl
    | @complete b key okuri =>
      show none = (b.flush s.table).okuri.filter _
      rw [okuri_flush s.table okuri]
      rfl
    | @okurigana b old c feeds complete =>
      show (Buffer.ofKey (old.type s.table c).key).okuri = _
      rw [Buffer.ofKey_key]
      rfl
    | @keyword b old c key feeds grows okuri start =>
      show (Buffer.ofKey key).okuri = (old.type s.table c).okuri.filter _
      rw [Buffer.ofKey, (kana_of_autoStartKey? start).1, okuri]
      rfl
    | convertLetters key written => rfl
    | completeLetters key written => rfl

theorem LooksUp.restores_self {yomi : Text}
    (h : s.LooksUp event segment reading (.completion yomi)) : reading.Restores reading where
  mode := rfl
  text := rfl
  tail := by cases h <;> rfl
  okuri := by
    cases h with
    | @complete b key okuri =>
      show (b.flush s.table).okuri = (b.flush s.table).okuri.filter _
      rw [okuri_flush s.table okuri]
      rfl
    | completeLetters key written => rfl

end Situation

/-! ### Keys after a lookup -/

namespace Lookup

/-- The commands that step through the candidates. -/
def steps : Lookup → List Command
  | conversion _ => [.nextCandidate, .previousCandidate]
  | completion _ => [.complete, .previousCompletion]

/-- The commands that are looked at before deleting, where the candidates are shown. -/
def beforeDelete : Lookup → List Command
  | conversion _ =>
    [.cancel, .nextCandidate, .previousCandidate, .purgeCandidate, .registerWord]
  | completion _ => [.cancel, .complete, .previousCompletion, .convert]

/-- A word may be registered in its place. -/
def registers : Lookup → Bool
  | conversion _ => true
  | completion _ => false

end Lookup

namespace Situation

variable {s : Situation} {event : KeyEvent} {lookup : Lookup}

theorem handle_choosing_of_delete
    (h : s.settings.keymap.Gives lookup.beforeDelete .delete event) (selection : Selection) :
    s.handle (lookup.choosing selection) event = s.backToReading selection := by
  have hdelete : s.binds .delete event = true := h.bound
  cases lookup with
  | conversion key =>
    have hfree : ∀ other ∈ [Command.cancel, .nextCandidate, .previousCandidate, .purgeCandidate,
        .registerWord], s.binds other event = false := h.free
    show s.handle (.selecting selection) event = _
    rw [handle_selecting (hfree .cancel (by decide)), select, hfree .nextCandidate (by decide),
      hfree .previousCandidate (by decide), hfree .purgeCandidate (by decide),
      hfree .registerWord (by decide), hdelete]
    rfl
  | completion yomi =>
    have hfree : ∀ other ∈ [Command.cancel, .complete, .previousCompletion, .convert],
        s.binds other event = false := h.free
    show s.handle (.completing selection) event = _
    rw [handle_completing (hfree .cancel (by decide)), complete, hfree .complete (by decide),
      hfree .previousCompletion (by decide), hfree .convert (by decide), hdelete]
    rfl

theorem binds_or_of_mem_pair {first second command : Command} (hm : command ∈ [first, second])
    (h : s.binds command event = true) :
    s.binds first event = true ∨ s.binds second event = true := by
  rcases List.mem_cons.mp hm with rfl | hlast
  · exact Or.inl h
  · rw [List.mem_singleton.mp hlast] at h
    exact Or.inr h

theorem handle_choosing_of_steps {command : Command} (hstep : command ∈ lookup.steps)
    (h : s.settings.keymap.Gives [.cancel] command event) (selection : Selection) :
    ∃ steps : Int,
      (s.handle (lookup.choosing selection) event).segment
        = lookup.choosing (selection.step steps) := by
  have hcancel : s.binds .cancel event = false := h.free _ (by decide)
  have hbound : s.binds command event = true := h.bound
  cases lookup with
  | conversion key =>
    show ∃ steps : Int, (s.handle (.selecting selection) event).segment = _
    rw [handle_selecting hcancel, select]
    by_cases hnext : s.binds .nextCandidate event = true
    · exact ⟨1, by rw [if_pos hnext]; rfl⟩
    · have hprevious := (binds_or_of_mem_pair hstep hbound).resolve_left hnext
      exact ⟨-1, by rw [if_neg hnext, if_pos hprevious]; rfl⟩
  | completion yomi =>
    show ∃ steps : Int, (s.handle (.completing selection) event).segment = _
    rw [handle_completing hcancel, complete]
    by_cases hnext : s.binds .complete event = true
    · exact ⟨1, by rw [if_pos hnext]; rfl⟩
    · have hprevious := (binds_or_of_mem_pair hstep hbound).resolve_left hnext
      exact ⟨-1, by rw [if_neg hnext, if_pos hprevious]; rfl⟩

theorem handle_selecting_of_registerWord
    (h : s.settings.keymap.Gives [.cancel, .nextCandidate, .previousCandidate, .purgeCandidate]
      .registerWord event) (hroom : s.canRegister = true) (selection : Selection) :
    (s.handle (.selecting selection) event).segment
      = registration selection.key selection.origin := by
  have hbound : s.binds .registerWord event = true := h.bound
  have hfree : ∀ other ∈ [Command.cancel, .nextCandidate, .previousCandidate, .purgeCandidate],
      s.binds other event = false := h.free
  rw [handle_selecting (hfree .cancel (by decide)), select, hfree .nextCandidate (by decide),
    hfree .previousCandidate (by decide), hfree .purgeCandidate (by decide), hbound, hroom]
  rfl

theorem handle_registration_of_commit (h : s.settings.keymap.Gives [.cancel] .commit event)
    (hmode : s.mode.isLatin = false) (key : ConversionKey) (origin : Origin) :
    s.handle (registration key origin) event = s.moves (.editing key origin) := by
  have hcancel : s.binds .cancel event = false := h.free _ (by decide)
  have hcommit : s.binds .commit event = true := h.bound
  have hword : ([] : Text) ++ s.flushed [] = [] := flushed_nil s
  have hcommand : s.registrationCommand? key origin [] [] event
      = some (s.moves (.editing key origin)) := by
    rw [registrationCommand?, leavesLatin, hcommit, hmode, hword]
    rfl
  rw [registration, Segment.idle, handle, hcancel, if_neg Bool.false_ne_true]
  dsimp only
  rw [hcommand]

end Situation

/-! ### Sessions -/

namespace Session

variable {session : Session} {event : KeyEvent} {events : List KeyEvent} {depth : Nat}
  {reading : Segment} {lookup : Lookup} {origin : Origin} {candidates : List Candidate}

/-- At the depth the reading is edited again. -/
def IsBack (session : Session) (depth : Nat) (reading : Segment) : Prop :=
  ∃ back, session.context.segment.within? depth = some back ∧ reading.Restores back

/-- At the depth the candidates of the lookup are shown, for a reading of the origin. -/
def Shows (session : Session) (depth : Nat) (lookup : Lookup) (origin : Origin)
    (candidates : List Candidate) : Prop :=
  ∃ selection : Selection,
    session.context.segment.within? depth = some (lookup.choosing selection) ∧
      selection.key = lookup.key ∧ selection.origin = origin ∧ selection.candidates = candidates

/-- At the depth a registration has been opened, and a commit key that does not cancel goes back
to the reading at once, outside of the Latin modes. -/
structure Registers (session : Session) (depth : Nat) (reading : Segment) : Prop where
  opened : ∃ key origin,
    session.context.segment.within? depth = some (Situation.registration key origin)
  back : session.context.mode.isLatin = false → ∀ commit,
    session.context.settings.keymap.Gives [.cancel] .commit commit →
      (session.press commit).IsBack depth reading

/-- Each key steps through the candidates of the lookup, or is not consumed. -/
def Lingers (lookup : Lookup) : Session → List KeyEvent → Prop
  | _, [] => True
  | session, event :: events =>
    (session.consumes event = false ∨
      ∃ command ∈ lookup.steps, session.context.settings.keymap.Gives [.cancel] command event) ∧
      Lingers lookup (session.press event) events

theorem registers_of_within? {key : ConversionKey}
    (hpart : session.context.segment.within? depth = some (Situation.registration key origin))
    (h : reading.Restores (.editing key origin)) : session.Registers depth reading := by
  refine ⟨⟨key, origin, hpart⟩, fun hmode commit hcommit => ?_⟩
  have hback := within?_press session hcommit.press (hcommit.free _ (by decide)) hpart
    fun _ => nofun
  rw [Situation.handle_registration_of_commit (s := session.situation.deeper depth) hcommit
    hmode] at hback
  exact ⟨_, hback, h⟩

/-! #### Candidates that are shown -/

theorem choosing_ne_direct (lookup : Lookup) (selection : Selection) (tail : Text) :
    lookup.choosing selection ≠ .direct tail := by
  cases lookup <;> exact nofun

theorem isBack_of_delete (hshows : session.Shows depth lookup origin candidates)
    (hdelete : session.context.settings.keymap.Gives lookup.beforeDelete .delete event)
    (h : reading.Restores (.editing lookup.key origin)) :
    (session.press event).IsBack depth reading := by
  obtain ⟨selection, hpart, hkey, horigin, -⟩ := hshows
  have hcancel : session.situation.binds .cancel event = false :=
    hdelete.free _ (by cases lookup <;> exact List.mem_cons_self)
  have hback := within?_press session hdelete.press hcancel hpart
    (choosing_ne_direct lookup selection)
  rw [Situation.handle_choosing_of_delete (s := session.situation.deeper depth) hdelete] at hback
  refine ⟨_, hback, ?_⟩
  show reading.Restores (.editing selection.key selection.origin)
  rw [hkey, horigin]
  exact h

/-- A key that steps through the candidates, or is not consumed, keeps them shown. -/
theorem shows_press (hshows : session.Shows depth lookup origin candidates)
    (hkey : session.consumes event = false ∨
      ∃ command ∈ lookup.steps, session.context.settings.keymap.Gives [.cancel] command event) :
    (session.press event).Shows depth lookup origin candidates := by
  obtain ⟨selection, hpart, hselected⟩ := hshows
  rcases hkey with hunused | ⟨command, hstep, hgives⟩
  · -- candidates are no reading, so that none can spill
    have hinnermost : ∀ b, session.context.segment.innermost ≠ .composing b := by
      intro b
      rw [Segment.innermost_of_within? hpart]
      cases lookup <;> exact nofun
    rw [press_of_not_consumed hunused hinnermost]
    exact ⟨selection, hpart, hselected⟩
  · obtain ⟨steps, hsteps⟩ := Situation.handle_choosing_of_steps
      (s := session.situation.deeper depth) hstep hgives selection
    have hnext := within?_press session hgives.press (hgives.free _ (by decide)) hpart
      (choosing_ne_direct lookup selection)
    rw [hsteps] at hnext
    exact ⟨selection.step steps, hnext, hselected⟩

/-- **However long one lingers, the candidates stay.** -/
theorem shows_pressAll (hshows : session.Shows depth lookup origin candidates)
    (hlingers : session.Lingers lookup events) :
    (session.pressAll events).Shows depth lookup origin candidates := by
  induction events generalizing session with
  | nil => exact hshows
  | cons event events ih => exact ih (shows_press hshows hlingers.1) hlingers.2

theorem registers_of_registerWord
    (hshows : session.Shows depth lookup origin candidates) (hlookup : lookup.registers = true)
    (hgives : session.context.settings.keymap.Gives
      [.cancel, .nextCandidate, .previousCandidate, .purgeCandidate] .registerWord event)
    (hroom : (session.situation.deeper depth).canRegister = true)
    (h : reading.Restores (.editing lookup.key origin)) :
    (session.press event).Registers depth reading := by
  obtain ⟨selection, hpart, hkey, horigin, -⟩ := hshows
  cases lookup with
  | conversion key =>
    have hopened := within?_press session hgives.press (hgives.free _ (by decide)) hpart
      fun _ => nofun
    have hregisters := Situation.handle_selecting_of_registerWord
      (s := session.situation.deeper depth) hgives hroom selection
    refine registers_of_within? (hopened.trans (congrArg some hregisters)) ?_
    rw [hkey, horigin]
    exact h
  | completion yomi => exact nomatch hlookup

/-! #### Every way back -/

/-- **Going back undoes a lookup.**  Take a reading or an abbreviation at any depth of
registrations, and a key that has it looked up; no other key leads to candidates or to a
registration.

* Where nothing is found and no word may be registered, the reading is back at once.
* Where nothing is found and a word may be registered, a registration is opened, and its
  confirmation without a word goes back to the reading.
* Where something is found, the candidates are shown, and stay while one lingers.  A delete key
  then goes back to the reading, and so does the confirmation without a word of a registration
  opened in place of the candidates. -/
theorem going_back (session : Session) {depth : Nat} {segment : Segment} {event : KeyEvent}
    (hpart : session.context.segment.within? depth = some segment)
    (hreading : segment.mode = .composing ∨ segment.mode = .abbreviation) :
    let s := session.situation.deeper depth
    let keymap := session.context.settings.keymap
    let looked := session.press event
    (∀ part, looked.context.segment.within? depth = some part → part.lookedUp = true →
      ∃ reading lookup, s.LooksUp event segment reading lookup) ∧
    ∀ reading lookup, s.LooksUp event segment reading lookup →
      let registers := lookup.registers && s.canRegister
      reading.mode = segment.mode ∧
      (s.found lookup = [] → registers = false → looked.IsBack depth reading) ∧
      (s.found lookup = [] → registers = true → looked.Registers depth reading) ∧
      (s.found lookup ≠ [] → ∀ events, looked.Lingers lookup events →
        let chosen := looked.pressAll events
        chosen.Shows depth lookup reading.origin (s.found lookup) ∧
        (∀ delete, keymap.Gives lookup.beforeDelete .delete delete →
          (chosen.press delete).IsBack depth reading) ∧
        (registers = true → ∀ register,
          keymap.Gives [.cancel, .nextCandidate, .previousCandidate, .purgeCandidate]
            .registerWord register →
          (chosen.press register).Registers depth reading)) := by
  intro s keymap looked
  refine ⟨fun part hafter hp => exists_looksUp_of_press hpart hreading hafter hp, ?_⟩
  intro reading lookup hlooks registers
  have hlooked : looked.context.segment.within? depth = some (s.lookUp reading lookup) :=
    within?_press_of_looksUp hpart hlooks
  have hrestores : reading.Restores (.editing lookup.key reading.origin) := hlooks.restores
  refine ⟨hlooks.mode_reading, fun hnone hregisters => ?_, fun hnone hregisters => ?_, ?_⟩
  · -- nothing found and nothing to register: the lookup itself leads back
    cases lookup with
    | conversion key =>
      have hroom : s.canRegister = false := hregisters
      have hback : s.lookUp reading (.conversion key) = .editing key reading.origin := by
        rw [Situation.lookUp, Situation.conversion_of_not_found _ hnone, hroom,
          if_neg Bool.false_ne_true]
      exact ⟨_, hlooked.trans (congrArg some hback), hrestores⟩
    | completion yomi =>
      have hback : s.lookUp reading (.completion yomi) = reading :=
        Situation.completion_of_not_found _ _ hnone
      exact ⟨_, hlooked.trans (congrArg some hback), hlooks.restores_self⟩
  · cases lookup with
    | conversion key =>
      have hroom : s.canRegister = true := hregisters
      have hopened : s.lookUp reading (.conversion key)
          = Situation.registration key reading.origin := by
        rw [Situation.lookUp, Situation.conversion_of_not_found _ hnone, if_pos hroom]
      exact registers_of_within? (hlooked.trans (congrArg some hopened)) hrestores
    | completion yomi => exact absurd hregisters Bool.false_ne_true
  · -- the candidates keep the key of the lookup, and the key restores the reading
    intro hfound events hlingers chosen
    obtain ⟨selection, hchoosing, hselected⟩ := Situation.lookUp_of_found reading hfound
    have hshows : chosen.Shows depth lookup reading.origin (s.found lookup) :=
      shows_pressAll ⟨selection, hlooked.trans (congrArg some hchoosing), hselected⟩ hlingers
    have hsettings : chosen.context.settings = session.context.settings := by
      rw [settings_pressAll]
      exact (serve_frame session (.press event)).1
    have hkeymap : chosen.context.settings.keymap = keymap := congrArg Settings.keymap hsettings
    refine ⟨hshows, fun delete hdelete => ?_, fun hregisters register hgives => ?_⟩
    · rw [← hkeymap] at hdelete
      exact isBack_of_delete hshows hdelete hrestores
    · obtain ⟨hlookup, hroom⟩ := Bool.and_eq_true_iff.mp hregisters
      have hroom' : (chosen.situation.deeper depth).canRegister = true := by
        show decide (0 + depth < chosen.context.settings.maxRegistrationDepth) = true
        rw [hsettings]
        exact hroom
      rw [← hkeymap] at hgives
      exact registers_of_registerWord hshows hlookup hgives hroom' hrestores

/-- 考え is found and stepped past, a key is released, and かんがえ is back. -/
theorem going_back_kangae :
    let words : Group := ("かんがe".toList, [{ surface := "考".toList }, { surface := "勘".toList }])
    let session := (start Settings.builtin RomajiTable.builtin [0]
      [Dictionary.fixed Dictionary.systemName [words]]).pressAll
      ("Kanga".toList.map KeyEvent.ofChar)
    let stem : Buffer := { kana := "かんが".toList }
    let reading : Buffer := { stem with okuri := some "え".toList }
    let space := KeyEvent.ofChar ' '
    let chosen := (session.press (KeyEvent.ofChar 'E')).pressAll
      [space, { space with modifiers := { release := true } }]
    session.context.segment.within? 0 = some (.composing stem) ∧
      chosen.context.preedit = "▼勘え".toList ∧
      (chosen.press ⟨.named .backSpace, .none⟩).IsBack 0 (.composing reading) := by
  intro words session stem reading space chosen
  have hpart : session.context.segment.within? 0 = some (.composing stem) := by decide +kernel
  have hfeeds : (session.situation.deeper 0).Feeds (KeyEvent.ofChar 'E') stem stem 'E' :=
    ⟨by decide +kernel, by decide +kernel, by decide +kernel, Or.inl ⟨by decide +kernel, rfl⟩⟩
  have htyped : stem.type (session.situation.deeper 0).table 'E' = reading := by decide +kernel
  have hlooks := Situation.LooksUp.okurigana hfeeds (by decide +kernel)
  rw [htyped] at hlooks
  have hlingers : (session.press (KeyEvent.ofChar 'E')).Lingers (.conversion reading.key)
      [space, { space with modifiers := { release := true } }] :=
    ⟨Or.inr ⟨.nextCandidate, by decide, by decide +kernel⟩, Or.inl (by decide +kernel), trivial⟩
  obtain ⟨-, -, -, hchoose⟩ := (going_back session hpart (Or.inl rfl)).2 _ _ hlooks
  obtain ⟨-, hdelete, -⟩ := hchoose (by decide +kernel) _ hlingers
  exact ⟨hpart, by decide +kernel, hdelete _ (by decide +kernel)⟩

end Session

end KanaKanji
