import MacVnc.Client.RemoteInput
/-!
# Latched keys

A key that was sent down is accounted for at the end of every frame: it is
pressed, it is a modifier, or its release is the next command of the pending
paste.  This holds along every run in which a repeated press is one of a
recorded key and the toolbar does not clear a paste between the press and the
release of a typed character.
-/

namespace MacVnc.Client.Latch

open MacVnc.Lib.BoundedChannel
open MacVnc.Lib (Text)
open MacVnc.Lib.Text
open MacVnc.Client.Commands
open MacVnc.Client.Input
open MacVnc.Client.RemoteInput

/-! ## The keyboard of the Mac -/

/-- The state of one key after a command. -/
def keyState (k : UInt32) (down : Bool) : Command → Bool
  | .key keysym pressed => if keysym = k then pressed else down
  | _ => down

def isDown (log : List Command) (k : UInt32) : Bool := log.foldl (keyState k) false

theorem isDown_append (log commands : List Command) (k : UInt32) :
    isDown (log ++ commands) k = commands.foldl (keyState k) (isDown log k) :=
  List.foldl_append

theorem foldl_release (k : UInt32) (down : Bool) (keysyms : List UInt32) :
    (release keysyms).foldl (keyState k) down = true ↔ down = true ∧ k ∉ keysyms := by
  induction keysyms generalizing down with
  | nil => simp [release]
  | cons keysym rest ih =>
      show (release rest).foldl (keyState k) (if keysym = k then false else down) = true ↔ _
      rw [ih]
      by_cases hsame : keysym = k
      · simp [hsame]
      · have hother : k ≠ keysym := fun heq => hsame heq.symm
        simp [hsame, hother]

theorem foldl_pressAll (k : UInt32) (down : Bool) (keysyms : List UInt32) :
    (keysyms.map fun keysym => Command.key keysym true).foldl (keyState k) down = true ↔
      down = true ∨ k ∈ keysyms := by
  induction keysyms generalizing down with
  | nil => simp
  | cons keysym rest ih =>
      show (rest.map fun keysym => Command.key keysym true).foldl (keyState k)
        (if keysym = k then true else down) = true ↔ _
      rw [ih]
      by_cases hsame : keysym = k
      · simp [hsame]
      · have hother : k ≠ keysym := fun heq => hsame heq.symm
        simp [hsame, hother]

/-- Characters that are pressed and released leave no key down. -/
theorem foldl_typed {k : UInt32} {down : Bool} {text : Text} {f : Char → UInt32}
    (h : (text.flatMap fun c => press (f c)).foldl (keyState k) down = true) : down = true := by
  induction text generalizing down with
  | nil => exact h
  | cons c rest ih =>
      rw [List.flatMap_cons, List.foldl_append] at h
      have hpress := ih h
      show down = true
      by_cases hsame : f c = k
      · simp [press, keyState, hsame] at hpress
      · simpa [press, keyState, hsame] using hpress

/-! ## The queue of a paste -/

/-- A queue of whole taps: each press is followed by its release. -/
inductive Taps : List Command → Prop
  | nil : Taps []
  | clipboard {text rest} : Taps rest → Taps (.clipboard text :: rest)
  | press {k rest} : Taps rest → Taps (.key k true :: .key k false :: rest)

theorem Taps.append {first second : List Command} (h : Taps first) (h' : Taps second) :
    Taps (first ++ second) := by
  induction h with
  | nil => exact h'
  | clipboard _ ih => exact .clipboard ih
  | press _ ih => exact .press ih

theorem taps_press (k : UInt32) : Taps (press k) := .press .nil

theorem taps_typed (text : Text) : Taps (typed text) := by
  refine .clipboard ?_
  induction text.take maxTypedPasteChars with
  | nil => exact .nil
  | cons c rest ih => exact (taps_press _).append ih

theorem taps_commands (s : ClipboardSync) (e : UiEvent) : Taps (s.commands e).1 := by
  cases e with
  | copy => exact taps_press _
  | cut => exact taps_press _
  | paste text =>
      show Taps (if s.remoteOwns = true then tap 118 else typed text)
      split
      · exact taps_press _
      · exact taps_typed text
  | _ => exact .nil

/-- The next queued command is the release of this keysym. -/
def Owes (queue : List Command) (k : UInt32) : Prop := queue.head? = some (.key k false)

/-- A queue of whole taps, perhaps behind the release of a tap that was begun. -/
inductive Pending : List Command → Prop
  | whole {queue} : Taps queue → Pending queue
  | begun {k rest} : Taps rest → Pending (.key k false :: rest)

theorem Pending.append {queue later : List Command} (h : Pending queue) (h' : Taps later) :
    Pending (queue ++ later) := by
  cases h with
  | whole htaps => exact .whole (htaps.append h')
  | begun htaps => exact .begun (htaps.append h')

theorem Owes.append {queue : List Command} {k : UInt32} (h : Owes queue k)
    (later : List Command) : Owes (queue ++ later) k := by
  cases queue with
  | nil => cases h
  | cons command rest => exact h

theorem Owes.mem {queue : List Command} {k : UInt32} (h : Owes queue k) :
    Command.key k false ∈ queue := List.mem_of_mem_head? h

theorem Taps.not_owes {queue : List Command} (h : Taps queue) (k : UInt32) : ¬Owes queue k := by
  intro howes
  cases h with
  | nil => cases howes
  | clipboard => cases howes
  | press => cases howes

/-- Taking commands from whole taps leaves down at most the key of a tap that is cut. -/
theorem Taps.drain {queue : List Command} (h : Taps queue) (n : Nat) :
    Pending (queue.drop n) ∧ ∀ k down, (queue.take n).foldl (keyState k) down = true →
      down = true ∨ Owes (queue.drop n) k := by
  induction h generalizing n with
  | nil =>
      rw [List.drop_nil, List.take_nil]
      exact ⟨.whole .nil, fun k down hdown => Or.inl hdown⟩
  | clipboard htaps ih =>
      cases n with
      | zero => exact ⟨.whole (.clipboard htaps), fun k down hdown => Or.inl hdown⟩
      | succ n => exact ih n
  | @press j rest htaps ih =>
      match n with
      | 0 => exact ⟨.whole (.press htaps), fun k down hdown => Or.inl hdown⟩
      | 1 =>
          refine ⟨.begun htaps, fun k down hdown => ?_⟩
          have hstate : (if j = k then true else down) = true := hdown
          by_cases hsame : j = k
          · rw [← hsame]
            exact Or.inr rfl
          · rw [if_neg hsame] at hstate
            exact Or.inl hstate
      | n + 2 =>
          refine ⟨(ih n).1, fun k down hdown => ?_⟩
          rcases (ih n).2 k _ hdown with hstate | howes
          · have hheld : (if j = k then false else if j = k then true else down) = true := hstate
            by_cases hsame : j = k
            · rw [if_pos hsame] at hheld
              cases hheld
            · rw [if_neg hsame, if_neg hsame] at hheld
              exact Or.inl hheld
          · exact Or.inr howes

/-- Draining a paste releases the key of a tap that was begun. -/
theorem Pending.drain {queue : List Command} (h : Pending queue) {n : Nat} (hn : 0 < n) :
    Pending (queue.drop n) ∧ ∀ k down, (queue.take n).foldl (keyState k) down = true →
      (down = true ∧ ¬Owes queue k) ∨ Owes (queue.drop n) k := by
  cases h with
  | whole htaps =>
      refine ⟨(htaps.drain n).1, fun k down hdown => ?_⟩
      rcases (htaps.drain n).2 k down hdown with hstate | howes
      · exact Or.inl ⟨hstate, htaps.not_owes k⟩
      · exact Or.inr howes
  | @begun j rest htaps =>
      cases n with
      | zero => cases hn
      | succ n =>
          refine ⟨(htaps.drain n).1, fun k down hdown => ?_⟩
          rcases (htaps.drain n).2 k _ hdown with hstate | howes
          · have hheld : (if j = k then false else down) = true := hstate
            by_cases hsame : j = k
            · rw [if_pos hsame] at hheld
              cases hheld
            · rw [if_neg hsame] at hheld
              refine Or.inl ⟨hheld, fun howes => hsame ?_⟩
              cases howes
              rfl
          · exact Or.inr howes

/-! ## What the operations send -/

/-- Unless a command is refused, exactly these commands are accepted. -/
def Sends (a a' : App) (commands : List Command) : Prop :=
  a'.commands.channel.refused = [] →
    a.commands.channel.refused = [] ∧
      a'.commands.channel.accepted = a.commands.channel.accepted ++ commands

theorem sends_sendAll (a : App) (commands : List Command) :
    Sends a (a.sendAll commands) commands := by
  intro haccepted
  have hchannel : (a.sendAll commands).commands.channel =
      a.commands.channel.offerAll commandQueueCapacity commands :=
    CommandSender.channel_sendAll a.commands commands
  rw [hchannel] at haccepted ⊢
  have hbefore : a.commands.channel.refused = [] := by
    have hkept := Channel.refused_prefix_offerAll commandQueueCapacity a.commands.channel commands
    rw [haccepted] at hkept
    exact List.prefix_nil.1 hkept
  exact ⟨hbefore, Channel.accepted_offerAll (haccepted.trans hbefore.symm)⟩

theorem Sends.trans {a b c : App} {first second : List Command} (h : Sends a b first)
    (h' : Sends b c second) : Sends a c (first ++ second) := by
  intro haccepted
  obtain ⟨hb, hsecond⟩ := h' haccepted
  obtain ⟨ha, hfirst⟩ := h hb
  exact ⟨ha, by rw [hsecond, hfirst, List.append_assoc]⟩

/-- The keysyms that a release of the input releases. -/
theorem releaseInput_sends (a : App) :
    ∃ pointer, Sends a a.releaseInput (release a.held ++ release a.modifiers ++ pointer) ∧
      ∀ k down, pointer.foldl (keyState k) down = down := by
  have hkeys : Sends a { (({ a.sendAll (release a.held) with pressed := ∅ } : App).sendAll
      (release a.modifiers)) with modifiers := [] } (release a.held ++ release a.modifiers) :=
    (sends_sendAll a _).trans (sends_sendAll { a.sendAll (release a.held) with pressed := ∅ } _)
  by_cases hbuttons : a.buttons ≠ 0
  · refine ⟨[.pointer a.pointer.1 a.pointer.2 0], ?_, fun k down => rfl⟩
    show Sends a (if a.buttons ≠ 0 then _ else _) _
    rw [if_pos hbuttons]
    exact hkeys.trans (sends_sendAll _ _)
  · refine ⟨[], ?_, fun k down => rfl⟩
    show Sends a (if a.buttons ≠ 0 then _ else _) _
    rw [if_neg hbuttons, List.append_nil]
    exact hkeys

theorem releaseInput_state (a : App) :
    a.releaseInput.pressed = ∅ ∧ a.releaseInput.modifiers = [] ∧
      a.releaseInput.pendingPaste = a.pendingPaste ∧ a.releaseInput.connected = a.connected := by
  unfold App.releaseInput
  dsimp only
  split <;> exact ⟨rfl, rfl, rfl, rfl⟩

/-- After a release of the input, a key that is down was neither pressed nor a modifier. -/
theorem releaseInput_down {a : App} (haccepted : a.releaseInput.commands.channel.refused = [])
    {k : UInt32} (hdown : isDown a.releaseInput.commands.channel.accepted k = true) :
    a.commands.channel.refused = [] ∧ isDown a.commands.channel.accepted k = true ∧
      k ∉ a.held ∧ k ∉ a.modifiers := by
  obtain ⟨pointer, hsends, hpointer⟩ := releaseInput_sends a
  obtain ⟨hbefore, hlog⟩ := hsends haccepted
  rw [hlog, isDown_append, List.foldl_append, List.foldl_append, hpointer, foldl_release,
    foldl_release] at hdown
  exact ⟨hbefore, hdown.1.1, hdown.1.2, hdown.2⟩

/-! ## The invariant -/

structure Held (a : App) : Prop where
  connected : a.connected = true
  pending : Pending a.pendingPaste
  down : a.commands.channel.refused = [] → ∀ k, isDown a.commands.channel.accepted k = true →
    k ∈ a.held ∨ k ∈ a.modifiers ∨ Owes a.pendingPaste k

theorem mem_held {a : App} {k : UInt32} : k ∈ a.held ↔ ∃ key, a.pressed.lookup key = some k := by
  unfold App.held
  rw [List.mem_map]
  constructor
  · rintro ⟨⟨key, keysym⟩, hentry, rfl⟩
    exact ⟨key, AList.mem_lookup_iff.2 hentry⟩
  · rintro ⟨key, hkey⟩
    exact ⟨⟨key, k⟩, AList.mem_lookup_iff.1 hkey, rfl⟩

/-- Commands that leave every key as it was or up keep the invariant. -/
theorem Held.sends {a a' : App} (h : Held a) {commands : List Command}
    (hsends : Sends a a' commands)
    (hstate : a'.connected = a.connected ∧ a'.pressed = a.pressed ∧ a'.modifiers = a.modifiers ∧
      a'.pendingPaste = a.pendingPaste)
    (hcommands : ∀ k down, commands.foldl (keyState k) down = true → down = true) : Held a' := by
  obtain ⟨hconnected, hpressed, hmodifiers, hpending⟩ := hstate
  refine ⟨hconnected.trans h.connected, hpending ▸ h.pending, fun haccepted k hdown => ?_⟩
  obtain ⟨hbefore, hlog⟩ := hsends haccepted
  rw [hlog, isDown_append] at hdown
  unfold App.held
  rw [hpressed, hmodifiers, hpending]
  exact h.down hbefore k (hcommands k _ hdown)

theorem Held.drain {a : App} (h : Held a) : Held a.drainPendingPaste := by
  unfold App.drainPendingPaste
  by_cases hempty : a.pendingPaste = []
  · rw [if_pos hempty]
    exact h
  rw [if_neg hempty, if_neg (by rw [h.connected]; decide)]
  obtain ⟨hpending, hdrained⟩ := h.pending.drain (n := pasteCommandsPerFrame) (by decide)
  refine ⟨h.connected, hpending, fun haccepted k hdown => ?_⟩
  obtain ⟨hbefore, hlog⟩ := sends_sendAll a (a.pendingPaste.take pasteCommandsPerFrame) haccepted
  rw [show isDown _ k = isDown (a.sendAll _).commands.channel.accepted k from rfl, hlog,
    isDown_append] at hdown
  rcases hdrained k _ hdown with ⟨hbegun, howes⟩ | howes
  · rcases h.down hbefore k hbegun with hheld | hmodifier | howed
    · exact Or.inl hheld
    · exact Or.inr (Or.inl hmodifier)
    · exact absurd howed howes
  · exact Or.inr (Or.inr howes)

theorem Held.releaseInput {a : App} (h : Held a) : Held a.releaseInput := by
  obtain ⟨_, _, hpending, hconnected⟩ := releaseInput_state a
  refine ⟨hconnected.trans h.connected, hpending ▸ h.pending, fun haccepted k hdown => ?_⟩
  obtain ⟨hbefore, hwas, hheld, hmodifiers⟩ := releaseInput_down haccepted hdown
  rw [hpending]
  exact Or.inr (Or.inr (((h.down hbefore k hwas).resolve_left hheld).resolve_left hmodifiers))

/-- Clearing the paste is safe when a tap that was begun is of a key that is released with
the input. -/
theorem Held.toggleWindow {a : App} (h : Held a)
    (hclear : ∀ k, Owes a.pendingPaste k → k ∈ a.held ∨ k ∈ a.modifiers) :
    Held a.toggleWindow := by
  obtain ⟨_, _, _, hconnected⟩ := releaseInput_state a
  refine ⟨hconnected.trans h.connected, .whole .nil, fun haccepted k hdown => ?_⟩
  obtain ⟨hbefore, hwas, hheld, hmodifiers⟩ := releaseInput_down haccepted hdown
  rcases h.down hbefore k hwas with hin | hin | howes
  · exact absurd hin hheld
  · exact absurd hin hmodifiers
  · rcases hclear k howes with hin | hin
    · exact absurd hin hheld
    · exact absurd hin hmodifiers

theorem Held.syncModifiers {a : App} (h : Held a) (next : List UInt32) :
    Held (a.syncModifiers next) := by
  refine ⟨h.connected, h.pending, fun haccepted k hdown => ?_⟩
  have hsends : Sends a (a.syncModifiers next)
      (release (a.modifiers.filter (· ∉ next)) ++
        (next.filter (· ∉ a.modifiers)).map fun keysym => Command.key keysym true) :=
    (sends_sendAll a _).trans (sends_sendAll _ _)
  obtain ⟨hbefore, hlog⟩ := hsends haccepted
  rw [hlog, isDown_append, List.foldl_append, foldl_pressAll, foldl_release] at hdown
  show k ∈ a.held ∨ k ∈ next ∨ Owes a.pendingPaste k
  rcases hdown with ⟨hwas, hkept⟩ | hnew
  · rcases h.down hbefore k hwas with hheld | hmodifier | howes
    · exact Or.inl hheld
    · by_cases hnext : k ∈ next
      · exact Or.inr (Or.inl hnext)
      · exact absurd (List.mem_filter.2 ⟨hmodifier, by simpa using hnext⟩) hkept
    · exact Or.inr (Or.inr howes)
  · exact Or.inr (Or.inl (List.mem_of_mem_filter hnew))

theorem Held.clipboardEvent {a : App} (h : Held a) (e : UiEvent) : Held (a.clipboardEvent e) := by
  have happend : ∀ {a : App}, Held a → ∀ commands, Taps commands → ∀ clipboard,
      Held { a with pendingPaste := a.pendingPaste ++ commands, clipboard } := by
    intro a h commands htaps clipboard
    refine ⟨h.connected, h.pending.append htaps, fun haccepted k hdown => ?_⟩
    rcases h.down haccepted k hdown with hheld | hmodifier | howes
    · exact Or.inl hheld
    · exact Or.inr (Or.inl hmodifier)
    · exact Or.inr (Or.inr (howes.append commands))
  unfold App.clipboardEvent
  dsimp only
  apply happend _ _ (taps_commands _ e)
  by_cases htypes : a.clipboard.willType e = true
  · rw [if_pos htypes]
    refine ⟨h.connected, h.pending, fun haccepted k hdown => ?_⟩
    obtain ⟨hbefore, hlog⟩ := sends_sendAll a (release a.modifiers) haccepted
    rw [show isDown _ k = isDown (a.sendAll _).commands.channel.accepted k from rfl, hlog,
      isDown_append, foldl_release] at hdown
    rcases h.down hbefore k hdown.1 with hheld | hmodifier | howes
    · exact Or.inl hheld
    · exact absurd hmodifier hdown.2
    · exact Or.inr (Or.inr howes)
  · rw [if_neg htypes]
    exact h

/-! ## Events -/

variable (name : Key → List UInt8)

/-- A repeated press is of a key that is pressed already, unless it sends nothing. -/
def Recorded (composedText : Bool) (a : App) : UiEvent → Prop
  | .key key true true m =>
      key = .f11 ∨ (∃ keysym, a.pressed.lookup key = some keysym) ∨
        ∀ keysym, Input.keysym name key m.shift = some keysym →
          App.composes composedText keysym m = true
  | _ => True

/-- Every event of a frame is recorded in the state before it. -/
def RecordedAll (composedText hovered : Bool) (a : App) : List UiEvent → Prop
  | [] => True
  | e :: rest =>
      Recorded name composedText a e ∧
        RecordedAll composedText hovered (a.event name composedText hovered e) rest

variable {name}

theorem Held.press {a : App} (h : Held a) {key : Key} {keysym : UInt32}
    (hsame : ∀ old, a.pressed.lookup key = some old → old = keysym) :
    Held ({ a with pressed := a.pressed.insert key keysym }.sendAll [.key keysym true]) := by
  refine ⟨h.connected, h.pending, fun haccepted k hdown => ?_⟩
  have hinserted : ∀ k, k = keysym ∨ k ∈ a.held → ∃ key', AList.lookup key'
      (a.pressed.insert key keysym) = some k := by
    rintro k (rfl | hheld)
    · exact ⟨key, AList.lookup_insert _⟩
    · obtain ⟨key', hkey'⟩ := mem_held.1 hheld
      by_cases heq : key' = key
      · rw [heq] at hkey'
        rw [hsame k hkey']
        exact ⟨key, AList.lookup_insert _⟩
      · exact ⟨key', (AList.lookup_insert_ne heq).trans hkey'⟩
  rcases sends_sendAll { a with pressed := a.pressed.insert key keysym } [.key keysym true]
    haccepted with ⟨hbefore, hlog⟩
  rw [hlog, isDown_append] at hdown
  have hstate : (if keysym = k then true else isDown a.commands.channel.accepted k) = true := hdown
  by_cases hnew : keysym = k
  · exact Or.inl (mem_held.2 (hinserted k (Or.inl hnew.symm)))
  · rw [if_neg hnew] at hstate
    rcases h.down hbefore k hstate with hheld | hmodifier | howes
    · exact Or.inl (mem_held.2 (hinserted k (Or.inr hheld)))
    · exact Or.inr (Or.inl hmodifier)
    · exact Or.inr (Or.inr howes)

/-- A press sent again under a keysym that is pressed. -/
theorem Held.pressAgain {a : App} (h : Held a) {keysym : UInt32} (hheld : keysym ∈ a.held) :
    Held (a.sendAll [.key keysym true]) := by
  refine ⟨h.connected, h.pending, fun haccepted k hdown => ?_⟩
  obtain ⟨hbefore, hlog⟩ := sends_sendAll a [.key keysym true] haccepted
  rw [hlog, isDown_append] at hdown
  have hstate : (if keysym = k then true else isDown a.commands.channel.accepted k) = true := hdown
  by_cases hsame : keysym = k
  · exact Or.inl (hsame ▸ hheld)
  · rw [if_neg hsame] at hstate
    exact h.down hbefore k hstate

theorem Held.pressKey {a : App} (h : Held a) {composedText : Bool} {key : Key} {repeated : Bool}
    {m : Modifiers} (hkey : key ≠ .f11)
    (hrecorded : Recorded name composedText a (.key key true repeated m)) :
    Held (a.pressKey name composedText key repeated m) := by
  unfold App.pressKey
  cases hkeysym : (a.pressed.lookup key).or (keysym name key m.shift) with
  | none => exact h
  | some sym =>
      dsimp only
      by_cases hcomposes : App.composes composedText sym m = true
      · rw [if_pos hcomposes]
        exact h
      rw [if_neg hcomposes]
      cases repeated with
      | false =>
          apply h.press
          intro old hold
          rw [hold] at hkeysym
          exact Option.some.inj hkeysym
      | true =>
          apply h.pressAgain
          rcases hrecorded with hf11 | ⟨old, hold⟩ | hsilent
          · exact absurd hf11 hkey
          · rw [hold] at hkeysym
            cases hkeysym
            exact mem_held.2 ⟨key, hold⟩
          · cases hpressed : a.pressed.lookup key with
            | none =>
                rw [hpressed] at hkeysym
                exact absurd (hsilent sym hkeysym) hcomposes
            | some old =>
                rw [hpressed] at hkeysym
                cases hkeysym
                exact mem_held.2 ⟨key, hpressed⟩

theorem Held.releaseKey {a : App} (h : Held a) (key : Key) : Held (a.releaseKey key) := by
  unfold App.releaseKey
  cases hpressed : a.pressed.lookup key with
  | none => exact h
  | some keysym =>
      refine ⟨h.connected, h.pending, fun haccepted k hdown => ?_⟩
      rcases sends_sendAll { a with pressed := a.pressed.erase key } [.key keysym false]
        haccepted with ⟨hbefore, hlog⟩
      rw [hlog, isDown_append] at hdown
      have hstate : (if keysym = k then false else isDown a.commands.channel.accepted k) = true :=
        hdown
      by_cases hsame : keysym = k
      · rw [if_pos hsame] at hstate
        cases hstate
      · rw [if_neg hsame] at hstate
        rcases h.down hbefore k hstate with hheld | hmodifier | howes
        · obtain ⟨key', hkey'⟩ := mem_held.1 hheld
          have hother : key' ≠ key := by
            intro heq
            rw [heq, hpressed] at hkey'
            exact hsame (Option.some.inj hkey')
          exact Or.inl (mem_held.2 ⟨key', (AList.lookup_erase_ne hother).trans hkey'⟩)
        · exact Or.inr (Or.inl hmodifier)
        · exact Or.inr (Or.inr howes)

theorem Held.sendPointer {a : App} (h : Held a) (buttons : UInt8) : Held (a.sendPointer buttons) :=
  h.sends (sends_sendAll a _) ⟨rfl, rfl, rfl, rfl⟩ fun _ _ hdown => hdown

/-- One event of the canvas keeps the invariant. -/
theorem Held.event {a : App} (h : Held a) {composedText hovered : Bool} {e : UiEvent}
    (hrecorded : Recorded name composedText a e) :
    Held (a.event name composedText hovered e) := by
  cases e with
  | pointerMoved inside pos =>
      unfold App.event
      dsimp only
      split
      · have hmoved : Held { a with pointer := pos } := ⟨h.connected, h.pending, h.down⟩
        exact hmoved.sendPointer _
      · exact h
  | pointerButton inside pos button pressed =>
      unfold App.event
      dsimp only
      split
      · have hmoved : ∀ buttons, Held { a with buttons, pointer := pos } :=
          fun buttons => ⟨h.connected, h.pending, h.down⟩
        exact (hmoved _).sendPointer _
      · exact h
  | mouseWheel x y =>
      unfold App.event
      dsimp only
      split
      · exact (h.sendPointer _).sendPointer _
      · exact h
  | key key pressed repeated m =>
      unfold App.event
      dsimp only
      by_cases hf11 : key = .f11
      · rw [if_pos hf11]
        exact h
      · rw [if_neg hf11]
        cases pressed with
        | true => exact h.pressKey hf11 hrecorded
        | false => exact h.releaseKey key
  | copy => exact h.clipboardEvent _
  | cut => exact h.clipboardEvent _
  | paste text => exact h.clipboardEvent _
  | text text =>
      unfold App.event
      dsimp only
      split
      · exact h
      · exact h.sends (sends_sendAll a _) ⟨rfl, rfl, rfl, rfl⟩ fun k down hdown => foldl_typed hdown
  | other => exact h

theorem Held.events {composedText hovered : Bool} {events : List UiEvent} {a : App} (h : Held a)
    (hrecorded : RecordedAll name composedText hovered a events) :
    Held (events.foldl (App.event name composedText hovered) a) := by
  induction events generalizing a with
  | nil => exact h
  | cons e rest ih => exact ih (h.event hrecorded.1) hrecorded.2

/-! ## Frames and runs -/

variable (name) in
/-- A frame that meets the two conditions in the state before it: when the toolbar
clears the paste, the command after this frame's slice is not the release of a key
that nothing else holds, and the repeated presses are recorded. -/
structure Sound (a : App) (f : Frame) : Prop where
  clear : f.updatesClicked = true ∨ f.filesClicked = true →
    ∀ k, a.pendingPaste[pasteCommandsPerFrame]? = some (.key k false) →
      k ∈ a.held ∨ k ∈ a.modifiers
  recorded : ∀ c, f.canvas = some c → c.captures = true →
    RecordedAll name c.composedText c.hovered
      ((a.update name { f with canvas := none }).updateModifiers c) c.events

theorem Held.remoteInput {a : App} (h : Held a) (c : Canvas)
    (hrecorded : c.captures = true →
      RecordedAll name c.composedText c.hovered (a.updateModifiers c) c.events) :
    Held (a.remoteInput name c) := by
  unfold App.remoteInput
  by_cases hcaptures : c.captures = false
  · rw [if_pos hcaptures]
    exact h.releaseInput
  · rw [if_neg hcaptures]
    rw [Bool.not_eq_false] at hcaptures
    apply Held.events _ (hrecorded hcaptures)
    unfold App.updateModifiers
    split
    · exact h.syncModifiers _
    · exact h

theorem drainPendingPaste_state {a : App} (h : a.connected = true) :
    a.drainPendingPaste.pressed = a.pressed ∧ a.drainPendingPaste.modifiers = a.modifiers ∧
      a.drainPendingPaste.pendingPaste = a.pendingPaste.drop pasteCommandsPerFrame := by
  unfold App.drainPendingPaste
  by_cases hempty : a.pendingPaste = []
  · rw [if_pos hempty, hempty]
    exact ⟨rfl, rfl, rfl⟩
  · rw [if_neg hempty, if_neg (by rw [h]; decide)]
    exact ⟨rfl, rfl, rfl⟩

theorem Held.update {a : App} (h : Held a) {f : Frame} (hsound : Sound name a f) :
    Held (a.update name f) := by
  obtain ⟨hpressed, hmodifiers, hpending⟩ := drainPendingPaste_state h.connected
  have hclear : f.updatesClicked = true ∨ f.filesClicked = true →
      ∀ k, Owes a.drainPendingPaste.pendingPaste k →
        k ∈ a.drainPendingPaste.held ∨ k ∈ a.drainPendingPaste.modifiers := by
    intro hclicked k howes
    unfold Owes at howes
    rw [hpending, List.head?_drop] at howes
    unfold App.held
    rw [hpressed, hmodifiers]
    exact hsound.clear hclicked k howes
  have htoolbar : Held (a.update name { f with canvas := none }) := by
    show Held (if f.filesClicked = true then
      (if f.updatesClicked = true then a.drainPendingPaste.toggleWindow
        else a.drainPendingPaste).toggleWindow
      else if f.updatesClicked = true then a.drainPendingPaste.toggleWindow
      else a.drainPendingPaste)
    by_cases hupdates : f.updatesClicked = true
    · rw [if_pos hupdates]
      have htoggled := h.drain.toggleWindow (hclear (Or.inl hupdates))
      split
      · exact htoggled.toggleWindow fun k howes => by cases howes
      · exact htoggled
    · rw [if_neg hupdates]
      split
      · rename_i hfiles
        exact h.drain.toggleWindow (hclear (Or.inr hfiles))
      · exact h.drain
  cases hcanvas : f.canvas with
  | none =>
      have hframe : f = { f with canvas := none } := by
        rw [← hcanvas]
      rw [hframe]
      exact htoolbar
  | some c =>
      have hupdate :
          a.update name f = (a.update name { f with canvas := none }).remoteInput name c := by
        unfold App.update
        rw [hcanvas]
      rw [hupdate]
      exact htoolbar.remoteInput c (hsound.recorded c hcanvas)

theorem Held.receive {a : App} (h : Held a) : Held { a with commands := a.commands.receive } := by
  obtain ⟨hlog, hrefused⟩ := CommandSender.channel_receive a.commands
  refine ⟨h.connected, h.pending, fun haccepted k hdown => ?_⟩
  dsimp only at haccepted hdown
  rw [hrefused] at haccepted
  rw [hlog] at hdown
  exact h.down haccepted k hdown

theorem Held.run {a : App} (h : Held a) {turns : List Turn}
    (hsound : ∀ before f after, turns = before ++ .frame f :: after →
      Sound name (a.run name before) f) : Held (a.run name turns) := by
  induction turns generalizing a with
  | nil => exact h
  | cons turn rest ih =>
      have hturn : Held (a.turn name turn) := by
        cases turn with
        | frame f => exact h.update (hsound [] f rest rfl)
        | iteration => exact h.receive
      exact ih hturn fun before f after hsplit =>
        hsound (turn :: before) f after (by rw [hsplit]; rfl)

/-- A connected session before its first input. -/
structure Begins (a : App) : Prop where
  connected : a.connected = true
  pending : a.pendingPaste = []
  up : ∀ k, isDown a.commands.channel.accepted k = false

/-- In every run of such frames no key is left down that nothing will release; a
release of the input with no paste pending leaves no key down. -/
theorem no_key_latched (name : Key → List UInt8) {a : App} (h : Begins a) {turns : List Turn}
    (hsound : ∀ before f after, turns = before ++ .frame f :: after →
      Sound name (a.run name before) f)
    (haccepted : (a.run name turns).commands.channel.refused = []) :
    (∀ k, isDown (a.run name turns).commands.channel.accepted k = true →
      k ∈ (a.run name turns).held ∨ k ∈ (a.run name turns).modifiers ∨
        .key k false ∈ (a.run name turns).pendingPaste) ∧
    ((a.run name turns).pendingPaste = [] →
      (a.run name turns).releaseInput.commands.channel.refused = [] →
      ∀ k, isDown (a.run name turns).releaseInput.commands.channel.accepted k = false) := by
  have hbegin : Held a :=
    ⟨h.connected, h.pending ▸ .whole .nil, fun _ k hdown => by
      rw [h.up k] at hdown
      cases hdown⟩
  have hrun := hbegin.run hsound
  constructor
  · intro k hdown
    rcases hrun.down haccepted k hdown with hheld | hmodifier | howes
    · exact Or.inl hheld
    · exact Or.inr (Or.inl hmodifier)
    · exact Or.inr (Or.inr howes.mem)
  · intro hempty hreleased k
    by_contra hnot
    rw [Bool.not_eq_false] at hnot
    obtain ⟨hbefore, hwas, hheld, hmodifiers⟩ := releaseInput_down hreleased hnot
    rcases hrun.down hbefore k hwas with hin | hin | howes
    · exact hheld hin
    · exact hmodifiers hin
    · rw [hempty] at howes
      cases howes

/-! ## Example -/

def enterName : Key → List UInt8 := fun _ => [69, 110, 116, 101, 114]

def focusedCanvas (filesOpen : Bool) (events : List UiEvent) : Canvas :=
  { filesOpen
    updatesOpen := false
    focused := true
    hasFocus := true
    hovered := true
    modifiers := Modifiers.none
    native := false
    events }

def eventFrame (filesClicked filesOpen : Bool) (events : List UiEvent) : Turn :=
  .frame { updatesClicked := false, filesClicked, canvas := some (focusedCanvas filesOpen events) }

/-- Enter is held while the Files window is opened and closed, then released. -/
def heldThroughWindow : List Turn :=
  [eventFrame false false [.key .enter true false Modifiers.none],
    .iteration,
    eventFrame true true [],
    eventFrame true false [.key .enter true true Modifiers.none],
    eventFrame false false [.key .enter false false Modifiers.none]]

/-- A paste of 64 characters is cleared behind its first slice. -/
def clearedPaste : List Turn :=
  [eventFrame false false [.paste (List.replicate 64 'a')],
    eventFrame true true []]

/-- Both runs leave a key down for good, though no command is refused. -/
theorem latched_keys :
    (App.session.run enterName heldThroughWindow).commands.channel.refused = [] ∧
    isDown (App.session.run enterName heldThroughWindow).commands.channel.accepted 0xff0d = true ∧
    0xff0d ∉ (App.session.run enterName heldThroughWindow).held ∧
    0xff0d ∉ (App.session.run enterName heldThroughWindow).modifiers ∧
    .key 0xff0d false ∉ (App.session.run enterName heldThroughWindow).pendingPaste ∧
    (App.session.run enterName clearedPaste).commands.channel.refused = [] ∧
    isDown (App.session.run enterName clearedPaste).commands.channel.accepted 97 = true ∧
    97 ∉ (App.session.run enterName clearedPaste).held ∧
    97 ∉ (App.session.run enterName clearedPaste).modifiers ∧
    .key 97 false ∉ (App.session.run enterName clearedPaste).pendingPaste := by
  decide +kernel

theorem sound_cons {name : Key → List UInt8} {a : App} {turn : Turn} {rest : List Turn}
    (hfirst : ∀ f, turn = .frame f → Sound name a f)
    (hrest : ∀ before f after, rest = before ++ .frame f :: after →
      Sound name ((a.turn name turn).run name before) f) :
    ∀ before f after, turn :: rest = before ++ .frame f :: after →
      Sound name (a.run name before) f := by
  intro before f after hsplit
  cases before with
  | nil =>
      cases hsplit
      exact hfirst f rfl
  | cons head before =>
      cases hsplit
      exact hrest before f after rfl

/-- Enter is pressed, repeats, and the Files window is opened over it. -/
def heldUnderWindow : List Turn :=
  [eventFrame false false [.key .enter true false Modifiers.none],
    eventFrame false false [.key .enter true true Modifiers.none],
    eventFrame true true []]

theorem heldUnderWindow_sound : ∀ before f after,
    heldUnderWindow = before ++ .frame f :: after →
      Sound enterName (App.session.run enterName before) f := by
  apply sound_cons
  · intro f hf
    cases hf
    refine ⟨fun hclicked => (by simp at hclicked), fun c hc _ => ?_⟩
    cases hc
    exact ⟨trivial, trivial⟩
  apply sound_cons
  · intro f hf
    cases hf
    refine ⟨fun hclicked => (by simp at hclicked), fun c hc _ => ?_⟩
    cases hc
    exact ⟨Or.inr (Or.inl ⟨0xff0d, by decide⟩), trivial⟩
  apply sound_cons
  · intro f hf
    cases hf
    refine ⟨fun _ k hcut => (by cases hcut), fun c hc _ => ?_⟩
    cases hc
    trivial
  · intro before f after hsplit
    cases before <;> cases hsplit

theorem no_key_latched_held :
    (∀ k, isDown (App.session.run enterName heldUnderWindow).commands.channel.accepted k = true →
      k ∈ (App.session.run enterName heldUnderWindow).held ∨
        k ∈ (App.session.run enterName heldUnderWindow).modifiers ∨
        .key k false ∈ (App.session.run enterName heldUnderWindow).pendingPaste) ∧
    ((App.session.run enterName heldUnderWindow).pendingPaste = [] →
      (App.session.run enterName heldUnderWindow).releaseInput.commands.channel.refused = [] →
      ∀ k, isDown
        (App.session.run enterName heldUnderWindow).releaseInput.commands.channel.accepted k =
          false) :=
  no_key_latched enterName ⟨rfl, rfl, fun _ => rfl⟩ heldUnderWindow_sound (by decide +kernel)

end MacVnc.Client.Latch
