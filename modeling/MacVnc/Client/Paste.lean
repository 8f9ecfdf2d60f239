import MacVnc.Client.RemoteInput
/-!
# Pasting through the command channel

A paste is handed to the session thread in slices, one a frame, through a queue
of 256 commands that an iteration of the session loop empties.  The frames hand
over a little more than the slices: the modifiers that were let go of or held, and
what is released when the canvas loses the keyboard.  The paste arrives whole
exactly when between two iterations all this is no more than the queue holds.
-/

namespace MacVnc.Client.Paste

open MacVnc.Lib.BoundedChannel
open MacVnc.Lib (Text)
open MacVnc.Lib.Text
open MacVnc.Client.Commands
open MacVnc.Client.Input
open MacVnc.Client.RemoteInput

/-! ## No other input -/

/-- Events that are no input for the Mac when the window is as in `a`. -/
def Inert (a : App) (hovered : Bool) : UiEvent → Prop
  | .pointerMoved inside _ => inside = false ∧ a.buttons = 0
  | .pointerButton inside _ _ _ => inside = false ∧ a.buttons = 0
  | .mouseWheel _ _ => hovered = false
  | .key key pressed _ _ => key = .f11 ∨ pressed = false ∧ a.pressed.lookup key = none
  | .text text => isAscii text = true
  | .other => True
  | _ => False

/-- The frame that brings the paste. -/
structure Pastes (a : App) (f : Frame) (c : Canvas) (text : Text) : Prop where
  updates : f.updatesClicked = false
  files : f.filesClicked = false
  canvas : f.canvas = some c
  captures : c.captures = true
  events : ∃ before after, c.events = before ++ .paste text :: after ∧
    ∀ e ∈ before ++ after, Inert a c.hovered e

/-- A frame without input: modifiers may still be held or let go of, and the canvas
may lose the keyboard. -/
structure Quiet (a : App) (f : Frame) : Prop where
  updates : f.updatesClicked = false
  files : f.filesClicked = false
  events : ∀ c, f.canvas = some c → c.captures = true → ∀ e ∈ c.events, Inert a c.hovered e

def QuietTurn (a : App) : Turn → Prop
  | .frame f => Quiet a f
  | .iteration => True

/-! ## What the frames hand over -/

/-- How many modifiers are let go of or newly held. -/
def changes (old next : List UInt32) : Nat :=
  (old.filter (· ∉ next)).length + (next.filter (· ∉ old)).length

/-- What is still to be handed over: so many commands of the paste, and these modifiers
and so many keys and buttons to be released. -/
structure Due where
  paste : Nat
  modifiers : List UInt32
  others : Nat

/-- What a frame without input hands over, and what is due after it. -/
def Due.frame (due : Due) (f : Frame) : Nat × Due :=
  let slice := min pasteCommandsPerFrame due.paste
  let left := due.paste - slice
  match f.canvas with
  | none => (slice, { due with paste := left })
  | some c =>
      if c.captures = false then
        (slice + due.others + due.modifiers.length, { paste := left, modifiers := [], others := 0 })
      else if left = 0 then
        (slice + changes due.modifiers c.heldModifiers,
          { due with paste := left, modifiers := c.heldModifiers })
      else (slice, { due with paste := left })

def offers : Due → List Turn → List (Option Nat)
  | _, [] => []
  | due, .frame f :: turns => some (due.frame f).1 :: offers (due.frame f).2 turns
  | due, .iteration :: turns => none :: offers due turns

def commandsOf (a : App) (text : Text) : List Command := (a.clipboard.commands (.paste text)).1

/-- The modifiers that the frame of a paste leaves held: none if the text is typed. -/
def heldAfter (a : App) (c : Canvas) (text : Text) : List UInt32 :=
  if a.clipboard.willType (.paste text) then [] else c.heldModifiers

def othersHeld (a : App) : Nat := a.held.length + if a.buttons = 0 then 0 else 1

/-- The frame of a paste hands over the modifiers that changed, and releases those held
before text is typed. -/
def pasteOffers (a : App) (c : Canvas) (text : Text) (turns : List Turn) : List (Option Nat) :=
  some (changes a.modifiers c.heldModifiers +
      if a.clipboard.willType (.paste text) then c.heldModifiers.length else 0) ::
    offers
      { paste := (commandsOf a text).length
        modifiers := heldAfter a c text
        others := othersHeld a } turns

/-! ## Delivery -/

structure Open (s : CommandSender) : Prop where
  cancelled : s.cancelled = false
  refused : s.channel.refused = []
  queue : s.channel.queue.length ≤ commandQueueCapacity

/-- Commands that keep the Mac's view of the keyboard and the mouse: keys and buttons that
are released, and modifiers that are held. -/
def Upkeep : Command → Prop
  | .key keysym down => down = true → ∃ m native, keysym ∈ Input.modifiers m native
  | .pointer _ _ buttons => buttons = 0
  | _ => False

/-- From `a` to `b` the paste was accepted in order up to what is still pending, slice by
slice, with nothing but upkeep behind each slice. -/
def Delivered (a b : App) (paste : List Command) : Prop :=
  ∃ blocks : List (List Command × List Command),
    b.commands.channel.accepted =
      a.commands.channel.accepted ++ blocks.flatMap (fun block => block.1 ++ block.2) ∧
    blocks.flatMap Prod.fst ++ b.pendingPaste = paste ∧
    ∀ block ∈ blocks, ∀ command ∈ block.2, Upkeep command

theorem Delivered.refl (a : App) : Delivered a a a.pendingPaste := ⟨[], by simp⟩

theorem Delivered.cons {a b c : App} {slice upkeep paste : List Command}
    (h : Delivered b c paste)
    (haccepted : b.commands.channel.accepted = a.commands.channel.accepted ++ (slice ++ upkeep))
    (hupkeep : ∀ command ∈ upkeep, Upkeep command) : Delivered a c (slice ++ paste) := by
  obtain ⟨blocks, hblocks, hpaste, hkeeps⟩ := h
  refine ⟨(slice, upkeep) :: blocks, ?_, ?_, ?_⟩
  · rw [hblocks, haccepted, List.flatMap_cons, List.append_assoc]
  · rw [List.flatMap_cons, List.append_assoc, hpaste]
  · rw [List.forall_mem_cons]
    exact ⟨hupkeep, hkeeps⟩

theorem Upkeep.isInput {command : Command} (h : Upkeep command) :
    CommandSender.isInput command = true := by
  cases command with
  | connect => exact h.elim
  | disconnect => exact h.elim
  | _ => rfl

theorem upkeep_release (keysyms : List UInt32) : ∀ command ∈ release keysyms, Upkeep command := by
  simp [release, Upkeep]

theorem Open.sendAll {s : CommandSender} (hopen : Open s) {commands : List Command}
    (hinput : ∀ command ∈ commands, CommandSender.isInput command = true)
    (hroom : s.channel.queue.length + commands.length ≤ commandQueueCapacity) :
    Open (s.sendAll commands) ∧
      (s.sendAll commands).channel.accepted = s.channel.accepted ++ commands ∧
      (s.sendAll commands).channel.queue.length = s.channel.queue.length + commands.length := by
  have hchannel : (s.sendAll commands).channel =
      { s.channel with queue := s.channel.queue ++ commands } := by
    rw [CommandSender.channel_sendAll, Channel.offerAll_of_room hroom]
  have hcancelled := CommandSender.cancelled_sendAll hinput hroom
  refine ⟨⟨hcancelled.trans hopen.cancelled, ?_, ?_⟩, ?_, ?_⟩
  · rw [hchannel]
    exact hopen.refused
  · rw [hchannel, List.length_append]
    exact hroom
  · rw [hchannel, Channel.accepted, Channel.accepted, List.append_assoc]
  · rw [hchannel, List.length_append]

theorem Open.room {s : CommandSender} (hopen : Open s) {commands : List Command}
    (haccepted : (s.sendAll commands).channel.refused = []) :
    s.channel.queue.length + commands.length ≤ commandQueueCapacity := by
  have hsame : (s.channel.offerAll commandQueueCapacity commands).refused = s.channel.refused := by
    rw [← CommandSender.channel_sendAll, hopen.refused]
    exact haccepted
  rcases Channel.refused_offerAll_iff.1 hsame with hnone | hfits
  · rw [hnone]
    exact hopen.queue
  · exact hfits

theorem Open.receive {s : CommandSender} (hopen : Open s) :
    Open s.receive ∧ s.receive.channel.queue = [] := by
  have htaken : s.receive = { s with channel := s.channel.take 256 } := by
    unfold CommandSender.receive
    rw [if_neg (by rw [hopen.cancelled]; decide)]
  have hqueue : s.receive.channel.queue = [] := by
    rw [htaken]
    exact List.drop_of_length_le hopen.queue
  refine ⟨⟨?_, ?_, ?_⟩, hqueue⟩
  · rw [htaken]
    exact hopen.cancelled
  · rw [htaken]
    exact hopen.refused
  · rw [hqueue]
    exact Nat.zero_le _

/-! ## Frames without input -/

theorem event_inert {name : Key → List UInt8} {composedText hovered : Bool} {a : App} {e : UiEvent}
    (h : Inert a hovered e) : a.event name composedText hovered e = a := by
  cases e with
  | pointerMoved inside pos =>
      obtain ⟨hinside, hbuttons⟩ := h
      exact if_neg (by simp [hinside, hbuttons])
  | pointerButton inside pos button pressed =>
      obtain ⟨hinside, hbuttons⟩ := h
      exact if_neg (by simp [hinside, hbuttons])
  | mouseWheel x y => exact if_neg (by rw [show hovered = false from h]; decide)
  | key key pressed repeated m =>
      unfold App.event
      dsimp only
      rcases h with hf11 | ⟨hup, hnot⟩
      · exact if_pos hf11
      · have hrelease : a.releaseKey key = a := by
          unfold App.releaseKey
          rw [hnot]
        rw [hup, hrelease]
        exact ite_self a
  | text text => exact if_pos h
  | other => rfl
  | _ => exact h.elim

theorem foldl_inert {name : Key → List UInt8} {composedText hovered : Bool} {a : App}
    {events : List UiEvent} (h : ∀ e ∈ events, Inert a hovered e) :
    events.foldl (App.event name composedText hovered) a = a := by
  induction events with
  | nil => rfl
  | cons e rest ih =>
      rw [List.forall_mem_cons] at h
      rw [List.foldl_cons, event_inert h.1]
      exact ih h.2

/-- The window during the paste: keys and buttons are as they were, or released. -/
structure Draining (a b : App) : Prop where
  connected : b.connected = true
  pressed : b.pressed = a.pressed ∨ b.pressed = ∅
  buttons : b.buttons = a.buttons ∨ b.buttons = 0

theorem Draining.inert {a b : App} (h : Draining a b) {hovered : Bool} {e : UiEvent}
    (he : Inert a hovered e) : Inert b hovered e := by
  have hbuttons : a.buttons = 0 → b.buttons = 0 := fun hzero => h.buttons.elim (·.trans hzero) id
  cases e with
  | pointerMoved inside pos => exact ⟨he.1, hbuttons he.2⟩
  | pointerButton inside pos button pressed => exact ⟨he.1, hbuttons he.2⟩
  | key key pressed repeated m =>
      refine he.imp id fun hup => ⟨hup.1, ?_⟩
      rcases h.pressed with hsame | hnone
      · rw [hsame]
        exact hup.2
      · rw [hnone]
        rfl
  | _ => exact he

theorem sendAll_append (s : CommandSender) (first second : List Command) :
    (s.sendAll first).sendAll second = s.sendAll (first ++ second) :=
  (List.foldl_append ..).symm

def releases (a : App) : List Command :=
  release a.held ++ release a.modifiers ++
    if a.buttons = 0 then [] else [.pointer a.pointer.1 a.pointer.2 0]

theorem releaseInput_eq (a : App) :
    a.releaseInput =
      { a.sendAll (releases a) with pressed := ∅, modifiers := [], buttons := 0 } := by
  unfold App.releaseInput releases App.sendAll
  by_cases hbuttons : a.buttons = 0
  · dsimp only
    rw [if_neg (not_not.2 hbuttons), if_pos hbuttons, List.append_nil, sendAll_append, hbuttons]
  · dsimp only
    rw [if_pos hbuttons, if_neg hbuttons, sendAll_append, sendAll_append, List.append_assoc]

theorem upkeep_releases (a : App) : ∀ command ∈ releases a, Upkeep command := by
  intro command hcommand
  unfold releases at hcommand
  rcases List.mem_append.1 hcommand with hkeys | hpointer
  · rw [release, release, ← List.map_append] at hkeys
    exact upkeep_release _ command hkeys
  · split at hpointer
    · cases hpointer
    · cases List.mem_singleton.1 hpointer
      exact rfl

def syncs (old next : List UInt32) : List Command :=
  release (old.filter (· ∉ next)) ++ (next.filter (· ∉ old)).map fun keysym => .key keysym true

theorem syncModifiers_eq (a : App) (next : List UInt32) :
    a.syncModifiers next = { a.sendAll (syncs a.modifiers next) with modifiers := next } := by
  unfold App.syncModifiers syncs App.sendAll
  dsimp only
  rw [sendAll_append]

theorem length_syncs (old next : List UInt32) : (syncs old next).length = changes old next := by
  simp [syncs, changes, release]

theorem upkeep_syncs (old : List UInt32) (c : Canvas) :
    ∀ command ∈ syncs old c.heldModifiers, Upkeep command := by
  intro command hcommand
  rcases List.mem_append.1 hcommand with hup | hdown
  · exact upkeep_release _ command hup
  · obtain ⟨keysym, hkeysym, rfl⟩ := List.mem_map.1 hdown
    exact fun _ => ⟨_, _, List.mem_of_mem_filter hkeysym⟩

def dueOf (a : App) : Due :=
  { paste := a.pendingPaste.length, modifiers := a.modifiers, others := othersHeld a }

theorem length_releases (a : App) :
    (releases a).length = (dueOf a).others + (dueOf a).modifiers.length := by
  unfold releases dueOf othersHeld release
  split
  · simp
  · simp
    omega

theorem dueOf_releaseInput (a : App) :
    dueOf a.releaseInput = { paste := (dueOf a).paste, modifiers := [], others := 0 } := by
  rw [releaseInput_eq]
  rfl

theorem dueOf_syncModifiers (a : App) (next : List UInt32) :
    dueOf (a.syncModifiers next) = { dueOf a with modifiers := next } := by
  rw [syncModifiers_eq]
  rfl

/-- A frame handed over a slice of the paste and some upkeep. -/
structure Hands (b b' : App) (due : Nat × Due) (upkeep : List Command) : Prop where
  commands : b'.commands =
    b.commands.sendAll (b.pendingPaste.take pasteCommandsPerFrame ++ upkeep)
  pending : b'.pendingPaste = b.pendingPaste.drop pasteCommandsPerFrame
  count : (b.pendingPaste.take pasteCommandsPerFrame ++ upkeep).length = due.1
  due : dueOf b' = due.2
  upkeep : ∀ command ∈ upkeep, Upkeep command

theorem drainPendingPaste_eq {a : App} (h : a.connected = true) :
    a.drainPendingPaste =
      { a.sendAll (a.pendingPaste.take pasteCommandsPerFrame) with
        pendingPaste := a.pendingPaste.drop pasteCommandsPerFrame } := by
  unfold App.drainPendingPaste
  by_cases hempty : a.pendingPaste = []
  · rw [if_pos hempty]
    obtain ⟨commands, connected, pressed, modifiers, buttons, pointer, clipboard, pending⟩ := a
    cases hempty
    rfl
  · rw [if_neg hempty, if_neg (by rw [h]; decide)]

variable (name : Key → List UInt8) {a b : App} {f : Frame}

theorem Draining.drain (h : Draining a b) : Draining a b.drainPendingPaste := by
  rw [drainPendingPaste_eq h.connected]
  exact ⟨h.connected, h.pressed, h.buttons⟩

theorem Draining.releaseInput (h : Draining a b) : Draining a b.releaseInput := by
  rw [releaseInput_eq]
  exact ⟨h.connected, .inr rfl, .inr rfl⟩

theorem Draining.syncModifiers (h : Draining a b) (next : List UInt32) :
    Draining a (b.syncModifiers next) := by
  rw [syncModifiers_eq]
  exact ⟨h.connected, h.pressed, h.buttons⟩

theorem remoteInput_inert {c : Canvas} (hcaptures : c.captures = true)
    (hevents : ∀ e ∈ c.events, Inert (b.updateModifiers c) c.hovered e) :
    b.remoteInput name c = b.updateModifiers c := by
  unfold App.remoteInput
  rw [if_neg (by rw [hcaptures]; decide)]
  exact foldl_inert hevents

theorem Draining.updateModifiers (h : Draining a b) (c : Canvas) :
    Draining a (b.updateModifiers c) := by
  unfold App.updateModifiers
  split
  · exact h.syncModifiers c.heldModifiers
  · exact h

theorem hands_drain (h : b.connected = true) :
    Hands b b.drainPendingPaste
      (min pasteCommandsPerFrame (dueOf b).paste,
        { dueOf b with
          paste := (dueOf b).paste - min pasteCommandsPerFrame (dueOf b).paste }) [] := by
  have hdrained := drainPendingPaste_eq h
  have hleft : (b.pendingPaste.drop pasteCommandsPerFrame).length =
      b.pendingPaste.length - min pasteCommandsPerFrame b.pendingPaste.length := by
    rw [List.length_drop]
    omega
  refine ⟨?_, ?_, ?_, ?_, by simp⟩
  · rw [hdrained, List.append_nil]
    rfl
  · rw [hdrained]
  · rw [List.append_nil, List.length_take]
    rfl
  · rw [hdrained]
    exact congrArg (Due.mk · b.modifiers (othersHeld b)) hleft

theorem Hands.append {b' c : App} {due : Nat × Due} {upkeep : List Command}
    (h : Hands b b' due []) (hcommands : c.commands = b'.commands.sendAll upkeep)
    (hpending : c.pendingPaste = b'.pendingPaste) (hupkeep : ∀ command ∈ upkeep, Upkeep command) :
    Hands b c (due.1 + upkeep.length, dueOf c) upkeep where
  commands := by
    rw [hcommands, h.commands, List.append_nil]
    exact sendAll_append ..
  pending := hpending.trans h.pending
  count := by
    rw [List.length_append, ← h.count, List.append_nil]
  due := rfl
  upkeep := hupkeep

theorem Hands.releaseInput {b' : App} {due : Nat × Due} (h : Hands b b' due []) :
    Hands b b'.releaseInput
      (due.1 + due.2.others + due.2.modifiers.length,
        { paste := due.2.paste, modifiers := [], others := 0 }) (releases b') := by
  have hcommands : b'.releaseInput.commands = b'.commands.sendAll (releases b') := by
    rw [releaseInput_eq]
    rfl
  have hpending : b'.releaseInput.pendingPaste = b'.pendingPaste := by
    rw [releaseInput_eq]
    rfl
  have hhands := h.append hcommands hpending (upkeep_releases b')
  rwa [length_releases, dueOf_releaseInput, h.due, ← Nat.add_assoc] at hhands

theorem Hands.syncModifiers {b' : App} {due : Nat × Due} (h : Hands b b' due []) (c : Canvas) :
    Hands b (b'.syncModifiers c.heldModifiers)
      (due.1 + changes due.2.modifiers c.heldModifiers,
        { due.2 with modifiers := c.heldModifiers }) (syncs b'.modifiers c.heldModifiers) := by
  have hcommands : (b'.syncModifiers c.heldModifiers).commands =
      b'.commands.sendAll (syncs b'.modifiers c.heldModifiers) := by
    rw [syncModifiers_eq]
    rfl
  have hpending : (b'.syncModifiers c.heldModifiers).pendingPaste = b'.pendingPaste := by
    rw [syncModifiers_eq]
    rfl
  have hhands := h.append hcommands hpending (upkeep_syncs b'.modifiers c)
  have hmodifiers : b'.modifiers = due.2.modifiers := congrArg Due.modifiers h.due
  rw [length_syncs, dueOf_syncModifiers, h.due] at hhands
  rwa [← hmodifiers]

theorem update_quiet (h : Draining a b) (hf : Quiet a f) :
    Draining a (b.update name f) ∧
      ∃ upkeep, Hands b (b.update name f) ((dueOf b).frame f) upkeep := by
  have hslice := hands_drain h.connected
  unfold App.update Due.frame
  dsimp only
  rw [hf.updates, hf.files, if_neg (by decide), if_neg (by decide)]
  cases hcanvas : f.canvas with
  | none => exact ⟨h.drain, [], hslice⟩
  | some c =>
      dsimp only
      by_cases hcaptures : c.captures = false
      · have hlost : b.drainPendingPaste.remoteInput name c = b.drainPendingPaste.releaseInput :=
          if_pos hcaptures
        rw [hlost, if_pos hcaptures]
        exact ⟨h.drain.releaseInput, _, hslice.releaseInput⟩
      · have hgained : c.captures = true := by simpa using hcaptures
        have hsame : b.drainPendingPaste.remoteInput name c =
            b.drainPendingPaste.updateModifiers c :=
          remoteInput_inert name hgained fun e he =>
            (h.drain.updateModifiers c).inert (hf.events c hcanvas hgained e he)
        have hleft : b.drainPendingPaste.pendingPaste = [] ↔
            (dueOf b).paste - min pasteCommandsPerFrame (dueOf b).paste = 0 := by
          rw [← List.length_eq_zero_iff]
          exact Eq.congr_left (congrArg Due.paste hslice.due)
        rw [hsame, if_neg hcaptures]
        refine ⟨h.drain.updateModifiers c, ?_⟩
        unfold App.updateModifiers
        by_cases hempty : b.drainPendingPaste.pendingPaste = []
        · rw [if_pos hempty, if_pos (hleft.1 hempty)]
          exact ⟨_, hslice.syncModifiers c⟩
        · rw [if_neg hempty, if_neg (mt hleft.2 hempty)]
          exact ⟨[], hslice⟩

/-! ## Runs -/

variable {turns : List Turn}

theorem isInput_hands {due : Nat × Due} {upkeep : List Command} {b' : App}
    (hhands : Hands b b' due upkeep)
    (hinput : ∀ command ∈ b.pendingPaste, CommandSender.isInput command = true) :
    ∀ command ∈ b.pendingPaste.take pasteCommandsPerFrame ++ upkeep,
      CommandSender.isInput command = true := by
  intro command hcommand
  rcases List.mem_append.1 hcommand with hslice | hupkeep
  · exact hinput command (List.mem_of_mem_take hslice)
  · exact (hhands.upkeep command hupkeep).isInput

theorem refused_run_prefix (h : Draining a b) (hquiet : ∀ turn ∈ turns, QuietTurn a turn) :
    b.commands.channel.refused <+: (b.run name turns).commands.channel.refused := by
  induction turns generalizing b with
  | nil => exact List.prefix_refl _
  | cons turn rest ih =>
      rw [List.forall_mem_cons] at hquiet
      cases turn with
      | frame f =>
          obtain ⟨hdraining, upkeep, hhands⟩ := update_quiet name h hquiet.1
          apply List.IsPrefix.trans _ (ih hdraining hquiet.2)
          rw [hhands.commands, CommandSender.channel_sendAll]
          exact Channel.refused_prefix_offerAll ..
      | iteration =>
          have hreceived := ih (b := { b with commands := b.commands.receive })
            ⟨h.connected, h.pressed, h.buttons⟩ hquiet.2
          rwa [(CommandSender.channel_receive b.commands).2] at hreceived

theorem fits_of_run (h : Draining a b) (hopen : Open b.commands)
    (hinput : ∀ command ∈ b.pendingPaste, CommandSender.isInput command = true)
    (hquiet : ∀ turn ∈ turns, QuietTurn a turn)
    (haccepted : (b.run name turns).commands.channel.refused = []) :
    Fits commandQueueCapacity b.commands.channel.queue.length (offers (dueOf b) turns) := by
  induction turns generalizing b with
  | nil => exact fits_nil hopen.queue
  | cons turn rest ih =>
      rw [List.forall_mem_cons] at hquiet
      cases turn with
      | frame f =>
          obtain ⟨hdraining, upkeep, hhands⟩ := update_quiet name h hquiet.1
          have hbefore : (b.update name f).commands.channel.refused = [] := by
            have hkept := refused_run_prefix name hdraining hquiet.2
            rwa [show (b.update name f).run name rest = b.run name (.frame f :: rest) from rfl,
              haccepted, List.prefix_nil] at hkept
          rw [hhands.commands] at hbefore
          have hroom := hopen.room hbefore
          obtain ⟨hopen', -, hqueue⟩ := hopen.sendAll (isInput_hands hhands hinput) hroom
          have hlater := ih hdraining (hhands.commands ▸ hopen')
            (fun command hcommand =>
              hinput command (List.mem_of_mem_drop (hhands.pending ▸ hcommand)))
            hquiet.2 haccepted
          rw [hhands.commands, hqueue, hhands.count, hhands.due] at hlater
          rw [hhands.count] at hroom
          exact fits_offer.2 ⟨hroom, hlater⟩
      | iteration =>
          obtain ⟨hopen', hqueue⟩ := hopen.receive
          have hlater := ih (b := { b with commands := b.commands.receive })
            ⟨h.connected, h.pressed, h.buttons⟩ hopen' hinput hquiet.2 haccepted
          rw [show ({ b with commands := b.commands.receive } : App).commands.channel.queue = []
            from hqueue] at hlater
          exact (fits_take hopen.queue).2 hlater

/-- If everything that is due fits, the paste is delivered. -/
theorem run_of_fits (h : Draining a b) (hopen : Open b.commands)
    (hinput : ∀ command ∈ b.pendingPaste, CommandSender.isInput command = true)
    (hquiet : ∀ turn ∈ turns, QuietTurn a turn)
    (hfits : Fits commandQueueCapacity b.commands.channel.queue.length (offers (dueOf b) turns)) :
    Open (b.run name turns).commands ∧ Delivered b (b.run name turns) b.pendingPaste := by
  induction turns generalizing b with
  | nil => exact ⟨hopen, Delivered.refl b⟩
  | cons turn rest ih =>
      rw [List.forall_mem_cons] at hquiet
      cases turn with
      | frame f =>
          obtain ⟨hdraining, upkeep, hhands⟩ := update_quiet name h hquiet.1
          obtain ⟨hroom, hlater⟩ := fits_offer.1 hfits
          rw [← hhands.count] at hroom hlater
          obtain ⟨hopen', haccepted, hqueue⟩ := hopen.sendAll (isInput_hands hhands hinput) hroom
          rw [← hqueue, ← hhands.commands, ← hhands.due] at hlater
          rw [← hhands.commands] at hopen' haccepted
          obtain ⟨hend, hdelivered⟩ := ih hdraining hopen'
            (fun command hcommand =>
              hinput command (List.mem_of_mem_drop (hhands.pending ▸ hcommand)))
            hquiet.2 hlater
          have hwhole := hdelivered.cons haccepted hhands.upkeep
          rw [hhands.pending, List.take_append_drop] at hwhole
          exact ⟨hend, hwhole⟩
      | iteration =>
          obtain ⟨hopen', hqueue⟩ := hopen.receive
          have hlater := (fits_take hopen.queue).1 hfits
          rw [show 0 = b.commands.receive.channel.queue.length by rw [hqueue]; rfl] at hlater
          obtain ⟨hend, blocks, hblocks, hpaste⟩ := ih
            (b := { b with commands := b.commands.receive })
            ⟨h.connected, h.pressed, h.buttons⟩ hopen' hinput hquiet.2 hlater
          rw [(CommandSender.channel_receive b.commands).1] at hblocks
          exact ⟨hend, blocks, hblocks, hpaste⟩

/-! ## A paste -/

theorem isInput_commandsOf (a : App) (text : Text) :
    ∀ command ∈ commandsOf a text, CommandSender.isInput command = true := by
  have hpress : ∀ k, ∀ command ∈ press k, CommandSender.isInput command = true := by
    simp [press, CommandSender.isInput]
  intro command hcommand
  by_cases howns : a.clipboard.remoteOwns = true
  · have htap : commandsOf a text = tap 118 := if_pos howns
    rw [htap] at hcommand
    exact hpress _ command hcommand
  · have htyped : commandsOf a text = typed text := if_neg howns
    rw [htyped] at hcommand
    rcases List.mem_cons.1 hcommand with rfl | hkeys
    · rfl
    · obtain ⟨c, _, hin⟩ := List.mem_flatMap.1 hkeys
      exact hpress _ command hin

/-- What the frame of a paste sends before the first slice. -/
def opening (a : App) (c : Canvas) (text : Text) : List Command :=
  syncs a.modifiers c.heldModifiers ++
    if a.clipboard.willType (.paste text) then release c.heldModifiers else []

theorem length_opening (a : App) (c : Canvas) (text : Text) :
    (opening a c text).length = changes a.modifiers c.heldModifiers +
      if a.clipboard.willType (.paste text) then c.heldModifiers.length else 0 := by
  unfold opening
  rw [List.length_append, length_syncs]
  split <;> simp [release]

theorem upkeep_opening (a : App) (c : Canvas) (text : Text) :
    ∀ command ∈ opening a c text, Upkeep command := by
  intro command hcommand
  rcases List.mem_append.1 hcommand with hsyncs | hreleased
  · exact upkeep_syncs a.modifiers c command hsyncs
  · split at hreleased
    · exact upkeep_release _ command hreleased
    · cases hreleased

theorem clipboardEvent_paste (hpending : a.pendingPaste = []) (text : Text) :
    a.clipboardEvent (.paste text) =
      { a.sendAll (if a.clipboard.willType (.paste text) then release a.modifiers else []) with
        modifiers := if a.clipboard.willType (.paste text) then [] else a.modifiers
        pendingPaste := commandsOf a text
        clipboard := (a.clipboard.commands (.paste text)).2 } := by
  unfold App.clipboardEvent commandsOf App.sendAll
  dsimp only
  split
  · rw [hpending]
    rfl
  · rw [hpending]
    rfl

theorem update_paste {c : Canvas} {text : Text} (hconnected : a.connected = true)
    (hpending : a.pendingPaste = []) (hpaste : Pastes a f c text) :
    a.update name f =
      { a.sendAll (opening a c text) with
        modifiers := heldAfter a c text
        pendingPaste := commandsOf a text
        clipboard := (a.clipboard.commands (.paste text)).2 } := by
  obtain ⟨before, after, hevents, hinert⟩ := hpaste.events
  rw [List.forall_mem_append] at hinert
  have hdrained : a.drainPendingPaste = a := if_pos hpending
  have hsynced : a.updateModifiers c =
      { a.sendAll (syncs a.modifiers c.heldModifiers) with modifiers := c.heldModifiers } := by
    unfold App.updateModifiers
    rw [if_pos hpending, syncModifiers_eq]
  have hremote : a.update name f =
      c.events.foldl (App.event name c.composedText c.hovered) (a.updateModifiers c) := by
    unfold App.update
    dsimp only
    rw [hpaste.updates, hpaste.files, if_neg (by decide), if_neg (by decide), hpaste.canvas,
      hdrained]
    exact if_neg (by rw [hpaste.captures]; decide)
  have hbefore : Draining a (a.updateModifiers c) :=
    Draining.updateModifiers ⟨hconnected, .inl rfl, .inl rfl⟩ c
  have hopened : (a.updateModifiers c).clipboardEvent (.paste text) =
      { a.sendAll (opening a c text) with
        modifiers := heldAfter a c text
        pendingPaste := commandsOf a text
        clipboard := (a.clipboard.commands (.paste text)).2 } := by
    have hnone : (a.updateModifiers c).pendingPaste = [] := by
      rw [hsynced]
      exact hpending
    rw [clipboardEvent_paste hnone, hsynced]
    unfold App.sendAll opening
    dsimp only
    rw [sendAll_append]
    rfl
  have hafter : Draining a ((a.updateModifiers c).clipboardEvent (.paste text)) := by
    rw [hopened]
    exact ⟨hconnected, .inl rfl, .inl rfl⟩
  rw [hremote, hevents, List.foldl_append, foldl_inert fun e he => hbefore.inert (hinert.1 e he),
    List.foldl_cons]
  show after.foldl _ ((a.updateModifiers c).clipboardEvent (.paste text)) = _
  rw [foldl_inert fun e he => hafter.inert (hinert.2 e he), hopened]

/-- A paste: no send fails, the session is not cancelled and every command of the paste is
accepted in order or still pending, exactly when the frames between two iterations hand over
no more than the queue holds. -/
theorem paste_delivered_iff (name : Key → List UInt8) {a : App} (hconnected : a.connected = true)
    (hopen : Open a.commands) (hpending : a.pendingPaste = []) {f : Frame} {c : Canvas}
    {text : Text} (hpaste : Pastes a f c text) {turns : List Turn}
    (hquiet : ∀ turn ∈ turns, QuietTurn a turn) :
    ((a.run name (.frame f :: turns)).commands.channel.refused = [] ∧
      (a.run name (.frame f :: turns)).commands.cancelled = false ∧
      Delivered a (a.run name (.frame f :: turns)) (commandsOf a text)) ↔
      Fits commandQueueCapacity a.commands.channel.queue.length (pasteOffers a c text turns) := by
  have hupdate := update_paste name hconnected hpending hpaste
  have hcommands : (a.update name f).commands = a.commands.sendAll (opening a c text) := by
    rw [hupdate]
    rfl
  have hpasted : (a.update name f).pendingPaste = commandsOf a text := by
    rw [hupdate]
  have hdue : dueOf (a.update name f) =
      { paste := (commandsOf a text).length
        modifiers := heldAfter a c text
        others := othersHeld a } := by
    rw [hupdate]
    rfl
  have hdraining : Draining a (a.update name f) := by
    rw [hupdate]
    exact ⟨hconnected, .inl rfl, .inl rfl⟩
  have hinput : ∀ command ∈ (a.update name f).pendingPaste,
      CommandSender.isInput command = true := by
    rw [hpasted]
    exact isInput_commandsOf a text
  have hupkeep := upkeep_opening a c text
  unfold pasteOffers
  rw [← length_opening, ← hdue, fits_offer]
  show ((a.update name f).run name turns).commands.channel.refused = [] ∧
    ((a.update name f).run name turns).commands.cancelled = false ∧
    Delivered a ((a.update name f).run name turns) (commandsOf a text) ↔ _
  constructor
  · rintro ⟨haccepted, -, -⟩
    have hbefore : (a.update name f).commands.channel.refused = [] := by
      have hkept := refused_run_prefix name hdraining hquiet
      rwa [haccepted, List.prefix_nil] at hkept
    rw [hcommands] at hbefore
    have hroom := hopen.room hbefore
    obtain ⟨hopen', -, hqueue⟩ := hopen.sendAll (fun e he => (hupkeep e he).isInput) hroom
    have hfits := fits_of_run name hdraining (hcommands ▸ hopen') hinput hquiet haccepted
    rw [hcommands, hqueue] at hfits
    exact ⟨hroom, hfits⟩
  · rintro ⟨hroom, hfits⟩
    obtain ⟨hopen', haccepted, hqueue⟩ :=
      hopen.sendAll (fun e he => (hupkeep e he).isInput) hroom
    rw [← hqueue, ← hcommands] at hfits
    rw [← hcommands] at hopen' haccepted
    obtain ⟨hend, hdelivered⟩ := run_of_fits name hdraining hopen' hinput hquiet hfits
    have hwhole : Delivered a _ ([] ++ _) := hdelivered.cons haccepted hupkeep
    rw [hpasted] at hwhole
    exact ⟨hend.refused, hend.cancelled, hwhole⟩

/-! ## Example -/

def noName : Key → List UInt8 := fun _ => []

/-- The canvas when Ctrl+V is pressed on Windows. -/
def ctrlV (text : Text) : Canvas :=
  { filesOpen := false
    updatesOpen := false
    focused := true
    hasFocus := true
    hovered := true
    modifiers := { Modifiers.none with ctrl := true }
    native := false
    events := [.paste text] }

def ctrlVFrame (text : Text) : Frame :=
  { updatesClicked := false, filesClicked := false, canvas := some (ctrlV text) }

def idleFrame : Turn := .frame { updatesClicked := false, filesClicked := false, canvas := none }

def longText : Text := List.replicate 127 'a'

/-- Two frames after the paste before the session loop comes round: the release of the last
key is refused and the session is cancelled. -/
theorem paste_cancels :
    (App.session.run noName [.frame (ctrlVFrame longText), idleFrame, idleFrame]
      ).commands.channel.refused = [.key 97 false] ∧
    (App.session.run noName [.frame (ctrlVFrame longText), idleFrame, idleFrame]
      ).commands.cancelled = true := by
  decide +kernel

theorem ctrlVFrame_pastes (text : Text) :
    Pastes App.session (ctrlVFrame text) (ctrlV text) text :=
  ⟨rfl, rfl, rfl, rfl, [], [], rfl, by simp⟩

theorem idleFrame_quiet (a : App) : QuietTurn a idleFrame := ⟨rfl, rfl, nofun⟩

/-- With an iteration between the two frames the paste arrives. -/
theorem paste_delivered_ctrlV :
    (App.session.run noName [.frame (ctrlVFrame longText), idleFrame, .iteration, idleFrame]
      ).commands.channel.refused = [] ∧
    (App.session.run noName [.frame (ctrlVFrame longText), idleFrame, .iteration, idleFrame]
      ).commands.cancelled = false ∧
    Delivered App.session
      (App.session.run noName [.frame (ctrlVFrame longText), idleFrame, .iteration, idleFrame])
      (commandsOf App.session longText) := by
  apply (paste_delivered_iff noName rfl ⟨rfl, rfl, by decide⟩ rfl
    (ctrlVFrame_pastes longText) _).2
  · have hoffers : pasteOffers App.session (ctrlV longText) longText
        [idleFrame, .iteration, idleFrame] = [some 2, some 128, none, some 127] := by
      decide +kernel
    rw [hoffers, fits_offer, fits_offer, fits_take (by decide), fits_offer]
    exact ⟨by decide, by decide, by decide, fits_nil (by decide)⟩
  · simp only [List.forall_mem_cons]
    exact ⟨idleFrame_quiet _, trivial, idleFrame_quiet _, by simp⟩

end MacVnc.Client.Paste
