import MacVnc.Client.Latch
import MacVnc.Lib.WeightedMap
/-!
# Typed text and shortcuts

The queue of a paste holds typed text and the taps of shortcuts side by side.  A
record beside the window's state says where each queued command came from and what
was sent before it.  Typed text always arrives with every modifier up.  The tap of a
shortcut that Ctrl is held for arrives with its modifier down exactly when the modifiers
of its frame could be sent and nothing released them until the tap was sent.
-/

namespace MacVnc.Client.PasteOrigins

open MacVnc.Lib.BoundedChannel
open MacVnc.Lib (Text)
open MacVnc.Lib.Text
open MacVnc.Lib.WeightedMap (of_lookup_insert)
open MacVnc.Client.Commands
open MacVnc.Client.Input
open MacVnc.Client.RemoteInput
open MacVnc.Client.Latch

/-- Shift, Control, Option and Command. -/
def modifierKeysyms : List UInt32 := [0xffe1, 0xffe3, 0xffe7, 0xffeb]

/-- Where a queued command comes from: typed text, or a shortcut of the frame in this turn. -/
inductive Origin where
  | typed
  | shortcut (turn : Nat)
deriving DecidableEq

/-- A command of the queue that was sent in this turn, behind these commands. -/
structure Delivery where
  sent : List Command
  command : Command
  origin : Origin
  turn : Nat
deriving DecidableEq

def deliveries (turn : Nat) (sent : List Command) : List (Command × Origin) → List Delivery
  | [] => []
  | (command, origin) :: rest =>
      { sent, command, origin, turn } :: deliveries turn (sent ++ [command]) rest

/-- The window with the number of turns so far, the origins of its queue, and what was sent
from the queue. -/
structure Traced where
  app : App
  clock : Nat
  origins : List Origin
  delivered : List Delivery

/-- The origins of the commands that an event queues. -/
def eventOrigins (turn : Nat) (s : ClipboardSync) (e : UiEvent) : List Origin :=
  List.replicate (s.commands e).1.length (if s.willType e then .typed else .shortcut turn)

namespace Traced

def start (a : App) : Traced := { app := a, clock := 0, origins := [], delivered := [] }

def drain (t : Traced) : Traced where
  app := t.app.drainPendingPaste
  clock := t.clock
  origins := if t.app.connected then t.origins.drop pasteCommandsPerFrame else []
  delivered :=
    if t.app.connected then
      t.delivered ++ deliveries t.clock t.app.commands.channel.accepted
        ((t.app.pendingPaste.zip t.origins).take pasteCommandsPerFrame)
    else t.delivered

def toggle (t : Traced) : Traced := { t with app := t.app.toggleWindow, origins := [] }

def event (name : Key → List UInt8) (c : Canvas) (t : Traced) (e : UiEvent) : Traced :=
  { t with
    app := t.app.event name c.composedText c.hovered e
    origins := t.origins ++ eventOrigins t.clock t.app.clipboard e }

def remoteInput (name : Key → List UInt8) (t : Traced) (c : Canvas) : Traced :=
  if c.captures = false then { t with app := t.app.releaseInput }
  else c.events.foldl (event name c) { t with app := t.app.updateModifiers c }

def toolbar (t : Traced) (f : Frame) : Traced :=
  let t := t.drain
  let t := if f.updatesClicked then t.toggle else t
  if f.filesClicked then t.toggle else t

def update (name : Key → List UInt8) (t : Traced) (f : Frame) : Traced :=
  match f.canvas with
  | none => t.toolbar f
  | some c => (t.toolbar f).remoteInput name c

def turn (name : Key → List UInt8) (t : Traced) : Turn → Traced
  | .frame f => { t.update name f with clock := t.clock + 1 }
  | .iteration =>
      { t with app := { t.app with commands := t.app.commands.receive }, clock := t.clock + 1 }

def run (name : Key → List UInt8) (t : Traced) (turns : List Turn) : Traced :=
  turns.foldl (turn name) t

theorem app_events (name : Key → List UInt8) (c : Canvas) (t : Traced) (events : List UiEvent) :
    (events.foldl (event name c) t).app =
      events.foldl (App.event name c.composedText c.hovered) t.app := by
  induction events generalizing t with
  | nil => rfl
  | cons e rest ih => exact ih (t.event name c e)

theorem app_turn (name : Key → List UInt8) (t : Traced) (turn : Turn) :
    (t.turn name turn).app = t.app.turn name turn := by
  cases turn with
  | iteration => rfl
  | frame f =>
      have htoolbar : (t.toolbar f).app =
          (if f.filesClicked = true then
            (if f.updatesClicked = true then t.app.drainPendingPaste.toggleWindow
              else t.app.drainPendingPaste).toggleWindow
            else if f.updatesClicked = true then t.app.drainPendingPaste.toggleWindow
              else t.app.drainPendingPaste) := by
        unfold toolbar
        dsimp only
        split <;> split <;> rfl
      show (t.update name f).app = t.app.update name f
      unfold update App.update
      dsimp only
      rw [← htoolbar]
      cases f.canvas with
      | none => rfl
      | some c =>
          dsimp only
          unfold remoteInput App.remoteInput
          split
          · rfl
          · exact app_events ..

/-- The record beside the window does not change what it does. -/
theorem app_run (name : Key → List UInt8) (t : Traced) (turns : List Turn) :
    (t.run name turns).app = t.app.run name turns := by
  induction turns generalizing t with
  | nil => rfl
  | cons turn rest ih =>
      show ((t.turn name turn).run name rest).app = (t.app.turn name turn).run name rest
      rw [ih, app_turn]

end Traced

/-! ## Keysyms of characters and keys -/

def Neutral (command : Command) : Prop :=
  ∀ keysym down, command = .key keysym down → keysym ∉ modifierKeysyms

theorem not_modifier_of_lt {k : UInt32} (h : k < 0x100) : k ∉ modifierKeysyms := by
  intro hk
  simp only [modifierKeysyms, List.mem_cons, List.not_mem_nil, or_false] at hk
  rcases hk with rfl | rfl | rfl | rfl <;> exact absurd h (by decide)

theorem not_modifier_of_le {k : UInt32} (h : 0x1000000 ≤ k) : k ∉ modifierKeysyms := by
  intro hk
  simp only [modifierKeysyms, List.mem_cons, List.not_mem_nil, or_false] at hk
  rcases hk with rfl | rfl | rfl | rfl <;> exact absurd h (by decide)

theorem not_modifier_byte (b : UInt8) : b.toUInt32 ∉ modifierKeysyms := by
  apply not_modifier_of_lt
  rw [UInt32.lt_iff_toNat_lt, UInt8.toNat_toUInt32]
  exact b.toNat_lt

theorem charKeysym_not_modifier (c : Char) : charKeysym c ∉ modifierKeysyms := by
  unfold charKeysym
  split
  · rename_i hsmall
    apply not_modifier_of_lt
    rw [UInt32.lt_iff_toNat_lt]
    rw [UInt32.le_iff_toNat_le] at hsmall
    exact Nat.lt_succ_of_le hsmall
  · apply not_modifier_of_le
    rw [UInt32.le_iff_toNat_le, UInt32.toNat_or]
    exact Nat.left_le_or

theorem typedKeysym_not_modifier (c : Char) : typedKeysym c ∉ modifierKeysyms := by
  unfold typedKeysym
  split
  · decide
  · split
    · decide
    · exact charKeysym_not_modifier c

theorem named_not_modifier (key : Key) : named key ∉ modifierKeysyms := by
  cases key with
  | other code => exact show (0 : UInt32) ∉ modifierKeysyms by decide
  | _ => decide

theorem letterOrDigit_not_modifier {name : List UInt8} {shift : Bool} {k : UInt32}
    (h : letterOrDigit name shift = some k) : k ∉ modifierKeysyms := by
  unfold letterOrDigit at h
  split at h
  · split at h
    · cases h
      exact not_modifier_byte _
    · split at h
      · obtain ⟨b, _, rfl⟩ := Option.map_eq_some_iff.1 h
        exact not_modifier_byte b
      · cases h
  · cases h

theorem symbol_not_modifier {key : Key} {shift : Bool} {k : UInt32}
    (h : symbol key shift = some k) : k ∉ modifierKeysyms := by
  unfold symbol at h
  cases key <;> cases shift <;> cases h <;> decide

theorem keysym_not_modifier {name : Key → List UInt8} {key : Key} {shift : Bool} {k : UInt32}
    (h : keysym name key shift = some k) : k ∉ modifierKeysyms := by
  unfold keysym at h
  split at h
  · cases h
    exact named_not_modifier key
  · rcases Option.or_eq_some_iff.1 h with hname | ⟨_, hsymbol⟩
    · exact letterOrDigit_not_modifier hname
    · exact symbol_not_modifier hsymbol

theorem neutral_press {k : UInt32} (h : k ∉ modifierKeysyms) : ∀ c ∈ press k, Neutral c := by
  simp [press, Neutral, h]

theorem neutral_clipboard (s : ClipboardSync) (e : UiEvent) :
    ∀ c ∈ (s.commands e).1, Neutral c := by
  have htap : ∀ letter : UInt8, ∀ c ∈ tap letter, Neutral c := fun letter =>
    neutral_press (not_modifier_byte letter)
  cases e with
  | copy => exact htap 99
  | cut => exact htap 120
  | paste text =>
      show ∀ c ∈ if s.remoteOwns = true then tap 118 else typed text, Neutral c
      split
      · exact htap 118
      · unfold typed
        intro command hcommand
        rcases List.mem_cons.1 hcommand with rfl | htyped
        · exact nofun
        · obtain ⟨c, _, hc⟩ := List.mem_flatMap.1 htyped
          exact neutral_press (typedKeysym_not_modifier c) command hc
  | _ => simp [ClipboardSync.commands]

theorem foldl_neutral {K : UInt32} (hK : K ∈ modifierKeysyms) {commands : List Command}
    (h : ∀ c ∈ commands, Neutral c) (down : Bool) : commands.foldl (keyState K) down = down := by
  induction commands generalizing down with
  | nil => rfl
  | cons command rest ih =>
      rw [List.forall_mem_cons] at h
      rw [List.foldl_cons, ih h.2]
      cases command with
      | key keysym pressed =>
          have hother : keysym ≠ K := fun hsame => h.1 keysym pressed rfl (hsame ▸ hK)
          exact if_neg hother
      | _ => rfl

/-! ## The invariant -/

/-- A delivery reached the channel, typed text with every modifier up.  It was queued before
its turn, and the modifiers are those that were latched then. -/
structure Delivery.Right (before : Nat → Traced) (log : List Command) (d : Delivery) : Prop where
  reached : d.sent ++ [d.command] <+: log
  typed : d.origin = .typed → ∀ K ∈ modifierKeysyms, isDown d.sent K = false
  queued : d.origin ∈ (before d.turn).origins
  latched : ∀ K ∈ modifierKeysyms,
    (isDown d.sent K = true ↔ K ∈ (before d.turn).app.modifiers)

theorem Delivery.Right.mono {before : Nat → Traced} {log log' : List Command} {d : Delivery}
    (h : d.Right before log) (hlog : log <+: log') : d.Right before log' :=
  ⟨h.reached.trans hlog, h.typed, h.queued, h.latched⟩

/-- The invariant, where `before` gives the state before each turn. -/
structure Tracked (before : Nat → Traced) (t : Traced) : Prop where
  connected : t.app.connected = true
  length : t.origins.length = t.app.pendingPaste.length
  held : ∀ k ∈ t.app.held, k ∉ modifierKeysyms
  queued : ∀ command ∈ t.app.pendingPaste, Neutral command
  typed : .typed ∈ t.origins → t.app.modifiers = []
  down : t.app.commands.channel.refused = [] → ∀ K ∈ modifierKeysyms,
    (isDown t.app.commands.channel.accepted K = true ↔ K ∈ t.app.modifiers)
  delivered : t.app.commands.channel.refused = [] → ∀ d ∈ t.delivered,
    d.Right before t.app.commands.channel.accepted

namespace Tracked

variable {before : Nat → Traced} {t : Traced} {name : Key → List UInt8}

theorem delivered_sends (h : Tracked before t) {a : App} {commands : List Command}
    (hsends : Sends t.app a commands) (haccepted : a.commands.channel.refused = []) :
    ∀ d ∈ t.delivered, d.Right before a.commands.channel.accepted := by
  obtain ⟨hbefore, hlog⟩ := hsends haccepted
  intro d hd
  rw [hlog]
  exact (h.delivered hbefore d hd).mono (List.prefix_append _ _)

theorem sends (h : Tracked before t) {a : App} {commands : List Command}
    (hsends : Sends t.app a commands) (hneutral : ∀ c ∈ commands, Neutral c)
    (hstate : a.connected = t.app.connected ∧ a.modifiers = t.app.modifiers ∧
      a.pendingPaste = t.app.pendingPaste)
    (hheld : ∀ k ∈ a.held, k ∉ modifierKeysyms) : Tracked before { t with app := a } := by
  obtain ⟨hconnected, hmodifiers, hpending⟩ := hstate
  refine ⟨hconnected.trans h.connected, ?_, hheld, ?_, ?_, fun haccepted K hK => ?_,
    fun haccepted => h.delivered_sends hsends haccepted⟩
  · dsimp only
    rw [hpending]
    exact h.length
  · dsimp only
    rw [hpending]
    exact h.queued
  · dsimp only
    rw [hmodifiers]
    exact h.typed
  · obtain ⟨hbefore, hlog⟩ := hsends haccepted
    dsimp only
    rw [hlog, isDown_append, foldl_neutral hK hneutral, hmodifiers]
    exact h.down hbefore K hK

theorem releases (h : Tracked before t) {a : App} {commands : List Command}
    (hsends : Sends t.app a commands)
    (hup : ∀ K ∈ modifierKeysyms, ∀ down, commands.foldl (keyState K) down = true →
      down = true ∧ K ∉ t.app.modifiers)
    (hstate : a.connected = t.app.connected ∧ a.modifiers = [] ∧
      a.pendingPaste = t.app.pendingPaste)
    (hheld : ∀ k ∈ a.held, k ∉ modifierKeysyms) : Tracked before { t with app := a } := by
  obtain ⟨hconnected, hmodifiers, hpending⟩ := hstate
  refine ⟨hconnected.trans h.connected, ?_, hheld, ?_, fun _ => hmodifiers,
    fun haccepted K hK => ?_, fun haccepted => h.delivered_sends hsends haccepted⟩
  · dsimp only
    rw [hpending]
    exact h.length
  · dsimp only
    rw [hpending]
    exact h.queued
  · obtain ⟨hbefore, hlog⟩ := hsends haccepted
    dsimp only
    rw [hmodifiers, hlog, isDown_append]
    refine ⟨fun hdown => ?_, nofun⟩
    obtain ⟨hwas, hnot⟩ := hup K hK _ hdown
    exact absurd ((h.down hbefore K hK).1 hwas) hnot

theorem deliveries_right {turn : Nat} {log : List Command} {entries : List (Command × Origin)}
    (hneutral : ∀ entry ∈ entries, Neutral entry.1)
    (htyped : ∀ entry ∈ entries, entry.2 = .typed → ∀ K ∈ modifierKeysyms, isDown log K = false)
    (hqueued : ∀ entry ∈ entries, entry.2 ∈ (before turn).origins)
    (hlatched : ∀ K ∈ modifierKeysyms,
      (isDown log K = true ↔ K ∈ (before turn).app.modifiers)) :
    ∀ d ∈ deliveries turn log entries, d.Right before (log ++ entries.map Prod.fst) := by
  induction entries generalizing log with
  | nil => simp [deliveries]
  | cons entry rest ih =>
      rw [List.forall_mem_cons] at hneutral htyped hqueued
      have hstill : ∀ K ∈ modifierKeysyms, isDown (log ++ [entry.1]) K = isDown log K := by
        intro K hK
        rw [isDown_append]
        exact foldl_neutral hK (by simpa using hneutral.1) _
      have hsplit :
          log ++ (entry :: rest).map Prod.fst = (log ++ [entry.1]) ++ rest.map Prod.fst := by
        simp
      unfold deliveries
      rw [hsplit, List.forall_mem_cons]
      constructor
      · exact ⟨List.prefix_append _ _, htyped.1, hqueued.1, hlatched⟩
      · apply ih hneutral.2 _ hqueued.2
        · intro K hK
          rw [hstill K hK]
          exact hlatched K hK
        · intro other hother htype K hK
          rw [hstill K hK]
          exact htyped.2 other hother htype K hK

theorem drainPendingPaste_sends {app : App} (hconnected : app.connected = true) :
    Sends app app.drainPendingPaste (app.pendingPaste.take pasteCommandsPerFrame) := by
  unfold App.drainPendingPaste
  by_cases hempty : app.pendingPaste = []
  · rw [if_pos hempty, hempty]
    exact fun haccepted => ⟨haccepted, by simp⟩
  · rw [if_neg hempty, if_neg (by rw [hconnected]; decide)]
    exact sends_sendAll _ _

-- Nothing in the queue is for a modifier, so the modifiers are as they were at its head.
theorem drained_right (h : Tracked before t) (hnow : before t.clock = t)
    (hbefore : t.app.commands.channel.refused = []) :
    ∀ d ∈ deliveries t.clock t.app.commands.channel.accepted
      ((t.app.pendingPaste.zip t.origins).take pasteCommandsPerFrame),
      d.Right before (t.app.commands.channel.accepted ++
        t.app.pendingPaste.take pasteCommandsPerFrame) := by
  have hcommands : ((t.app.pendingPaste.zip t.origins).take pasteCommandsPerFrame).map Prod.fst =
      t.app.pendingPaste.take pasteCommandsPerFrame := by
    rw [List.map_take, List.map_fst_zip (by rw [h.length])]
  have horigins : ∀ entry ∈ (t.app.pendingPaste.zip t.origins).take pasteCommandsPerFrame,
      entry.1 ∈ t.app.pendingPaste ∧ entry.2 ∈ t.origins := fun entry hentry =>
    List.of_mem_zip (List.mem_of_mem_take hentry)
  rw [← hcommands]
  apply deliveries_right
  · exact fun entry hentry => h.queued _ (horigins entry hentry).1
  · intro entry hentry htype K hK
    have hnone := h.typed (htype ▸ (horigins entry hentry).2)
    rw [← Bool.not_eq_true, h.down hbefore K hK, hnone]
    exact List.not_mem_nil
  · rw [hnow]
    exact fun entry hentry => (horigins entry hentry).2
  · rw [hnow]
    exact h.down hbefore

theorem drain (h : Tracked before t) (hnow : before t.clock = t) : Tracked before t.drain := by
  obtain ⟨hpressed, hmodifiers, hpending⟩ := drainPendingPaste_state h.connected
  have hsends := drainPendingPaste_sends h.connected
  have hconnected : t.app.drainPendingPaste.connected = true := by
    unfold App.drainPendingPaste
    split
    · exact h.connected
    · split <;> exact h.connected
  have hneutral : ∀ c ∈ t.app.pendingPaste.take pasteCommandsPerFrame, Neutral c := fun c hc =>
    h.queued c (List.mem_of_mem_take hc)
  have hheld : ∀ k ∈ t.app.drainPendingPaste.held, k ∉ modifierKeysyms := by
    unfold App.held
    rw [hpressed]
    exact h.held
  unfold Traced.drain
  rw [if_pos h.connected, if_pos h.connected]
  refine ⟨hconnected, ?_, hheld, ?_, ?_, fun haccepted K hK => ?_, fun haccepted => ?_⟩
  · dsimp only
    rw [hpending, List.length_drop, List.length_drop, h.length]
  · dsimp only
    rw [hpending]
    exact fun c hc => h.queued c (List.mem_of_mem_drop hc)
  · dsimp only
    rw [hmodifiers]
    exact fun hmem => h.typed (List.mem_of_mem_drop hmem)
  · obtain ⟨hbefore, hlog⟩ := hsends haccepted
    dsimp only
    rw [hlog, isDown_append, foldl_neutral hK hneutral, hmodifiers]
    exact h.down hbefore K hK
  · obtain ⟨hbefore, hlog⟩ := hsends haccepted
    intro d hd
    rcases List.mem_append.1 hd with hold | hnew
    · exact h.delivered_sends hsends haccepted d hold
    · dsimp only
      rw [hlog]
      exact h.drained_right hnow hbefore d hnew

theorem foldl_releases {K : UInt32} {first second : List UInt32} {pointer : List Command}
    (hpointer : ∀ down, pointer.foldl (keyState K) down = down) (down : Bool)
    (h : (release first ++ release second ++ pointer).foldl (keyState K) down = true) :
    down = true ∧ K ∉ second := by
  rw [List.foldl_append, List.foldl_append, hpointer, foldl_release, foldl_release] at h
  exact ⟨h.1.1, h.2⟩

theorem releaseInput (h : Tracked before t) :
    Tracked before { t with app := t.app.releaseInput } := by
  obtain ⟨hpressed, hmodifiers, hpending, hconnected⟩ := releaseInput_state t.app
  obtain ⟨pointer, hsends, hpointer⟩ := releaseInput_sends t.app
  apply h.releases hsends
  · exact fun K _ down hdown => foldl_releases (hpointer K) down hdown
  · exact ⟨hconnected, hmodifiers, hpending⟩
  · unfold App.held
    rw [hpressed]
    exact nofun

theorem toggle (h : Tracked before t) : Tracked before t.toggle := by
  have hreleased := h.releaseInput
  exact ⟨hreleased.connected, rfl, hreleased.held, nofun, nofun, hreleased.down,
    hreleased.delivered⟩

theorem updateModifiers (h : Tracked before t) (c : Canvas) :
    Tracked before { t with app := t.app.updateModifiers c } := by
  unfold App.updateModifiers
  by_cases hempty : t.app.pendingPaste = []
  · rw [if_pos hempty]
    have hnone : t.origins = [] := by
      rw [← List.length_eq_zero_iff, h.length, hempty]
      rfl
    have hsends : Sends t.app (t.app.syncModifiers c.heldModifiers)
        (release (t.app.modifiers.filter (· ∉ c.heldModifiers)) ++
          (c.heldModifiers.filter (· ∉ t.app.modifiers)).map fun keysym => .key keysym true) :=
      (sends_sendAll t.app _).trans (sends_sendAll _ _)
    refine ⟨h.connected, h.length, h.held, h.queued, by simp [hnone],
      fun haccepted K hK => ?_, fun haccepted => h.delivered_sends hsends haccepted⟩
    obtain ⟨hbefore, hlog⟩ := hsends haccepted
    show isDown (t.app.syncModifiers c.heldModifiers).commands.channel.accepted K = true ↔
      K ∈ c.heldModifiers
    rw [hlog, isDown_append, List.foldl_append, foldl_pressAll, foldl_release, h.down hbefore K hK]
    simp only [List.mem_filter, decide_not, Bool.not_eq_true', decide_eq_false_iff_not]
    tauto
  · rw [if_neg hempty]
    exact h

theorem pressKey (h : Tracked before t) {composedText repeated : Bool} {key : Key} {m : Modifiers} :
    Tracked before { t with app := t.app.pressKey name composedText key repeated m } := by
  unfold App.pressKey
  cases hkeysym : (t.app.pressed.lookup key).or (keysym name key m.shift) with
  | none => exact h
  | some sym =>
      dsimp only
      have hsym : sym ∉ modifierKeysyms := by
        rcases Option.or_eq_some_iff.1 hkeysym with hpressed | ⟨_, hnew⟩
        · exact h.held sym (mem_held.2 ⟨key, hpressed⟩)
        · exact keysym_not_modifier hnew
      have hneutral : ∀ c ∈ [Command.key sym true], Neutral c := by
        simp [Neutral, hsym]
      split
      · exact h
      · split
        · exact h.sends (sends_sendAll _ _) hneutral ⟨rfl, rfl, rfl⟩ h.held
        · apply h.sends (sends_sendAll { t.app with pressed := t.app.pressed.insert key sym } _)
            hneutral ⟨rfl, rfl, rfl⟩
          intro k hk
          have hinserted : ∃ key', AList.lookup key' (t.app.pressed.insert key sym) = some k :=
            mem_held.1 hk
          obtain ⟨key', hkey'⟩ := hinserted
          rcases of_lookup_insert hkey' with ⟨-, rfl⟩ | ⟨-, hold⟩
          · exact hsym
          · exact h.held k (mem_held.2 ⟨key', hold⟩)

theorem releaseKey (h : Tracked before t) (key : Key) :
    Tracked before { t with app := t.app.releaseKey key } := by
  unfold App.releaseKey
  cases hpressed : t.app.pressed.lookup key with
  | none => exact h
  | some sym =>
      have hsym : sym ∉ modifierKeysyms := h.held sym (mem_held.2 ⟨key, hpressed⟩)
      have hneutral : ∀ c ∈ [Command.key sym false], Neutral c := by
        simp [Neutral, hsym]
      apply h.sends (sends_sendAll { t.app with pressed := t.app.pressed.erase key } _)
        hneutral ⟨rfl, rfl, rfl⟩
      intro k hk
      have herased : ∃ key', AList.lookup key' (t.app.pressed.erase key) = some k := mem_held.1 hk
      obtain ⟨key', hkey'⟩ := herased
      by_cases hsame : key' = key
      · rw [hsame, AList.lookup_erase] at hkey'
        cases hkey'
      · rw [AList.lookup_erase_ne hsame] at hkey'
        exact h.held k (mem_held.2 ⟨key', hkey'⟩)

theorem sendPointer (h : Tracked before t) (buttons : UInt8) :
    Tracked before { t with app := t.app.sendPointer buttons } :=
  h.sends (sends_sendAll _ _) (by simp [Neutral]) ⟨rfl, rfl, rfl⟩ h.held

theorem queue (h : Tracked before t) {commands : List Command}
    (hcommands : ∀ c ∈ commands, Neutral c) {origin : Origin}
    (htyped : origin = .typed → t.app.modifiers = []) (clipboard : ClipboardSync) :
    Tracked before
      { t with
        app := { t.app with pendingPaste := t.app.pendingPaste ++ commands, clipboard }
        origins := t.origins ++ List.replicate commands.length origin } := by
  refine ⟨h.connected, by simp [h.length], h.held, ?_, ?_, h.down, h.delivered⟩
  · intro command hcommand
    exact (List.mem_append.1 hcommand).elim (h.queued command) (hcommands command)
  · intro hmem
    rcases List.mem_append.1 hmem with hold | hnew
    · exact h.typed hold
    · exact htyped (List.eq_of_mem_replicate hnew).symm

theorem clipboardEvent (h : Tracked before t) (e : UiEvent) :
    Tracked before
      { t with
        app := t.app.clipboardEvent e
        origins := t.origins ++ eventOrigins t.clock t.app.clipboard e } := by
  have hneutral := neutral_clipboard t.app.clipboard e
  unfold App.clipboardEvent eventOrigins
  dsimp only
  by_cases htypes : t.app.clipboard.willType e = true
  · rw [if_pos htypes, if_pos htypes]
    have hreleased : Tracked before
        { t with app := { t.app.sendAll (release t.app.modifiers) with modifiers := [] } } :=
      h.releases (sends_sendAll _ _) (fun K _ down hdown => (foldl_release K down _).1 hdown)
        ⟨rfl, rfl, rfl⟩ h.held
    exact hreleased.queue hneutral (fun _ => rfl) _
  · rw [if_neg htypes, if_neg htypes]
    exact h.queue hneutral (fun (htyped : Origin.shortcut t.clock = .typed) => nomatch htyped) _

theorem event_origins (t : Traced) {e : UiEvent} (hnone : (t.app.clipboard.commands e).1 = [])
    (a : App) :
    { t with app := a, origins := t.origins ++ eventOrigins t.clock t.app.clipboard e } =
      { t with app := a } := by
  rw [eventOrigins, hnone]
  simp

theorem event (h : Tracked before t) (c : Canvas) (e : UiEvent) :
    Tracked before (t.event name c e) := by
  unfold Traced.event
  cases e with
  | copy => exact h.clipboardEvent .copy
  | cut => exact h.clipboardEvent .cut
  | paste text => exact h.clipboardEvent (.paste text)
  | pointerMoved inside pos =>
      rw [event_origins t rfl]
      unfold App.event
      dsimp only
      split
      · exact h.sends (sends_sendAll { t.app with pointer := pos } _) (by simp [Neutral])
          ⟨rfl, rfl, rfl⟩ h.held
      · exact h
  | pointerButton inside pos button pressed =>
      rw [event_origins t rfl]
      unfold App.event
      dsimp only
      split
      · exact h.sends (sends_sendAll { t.app with buttons := _, pointer := pos } _)
          (by simp [Neutral]) ⟨rfl, rfl, rfl⟩ h.held
      · exact h
  | mouseWheel x y =>
      rw [event_origins t rfl]
      unfold App.event
      dsimp only
      split
      · exact (h.sendPointer _).sendPointer _
      · exact h
  | key key pressed repeated m =>
      rw [event_origins t rfl]
      unfold App.event
      dsimp only
      split
      · exact h
      · split
        · exact h.pressKey
        · exact h.releaseKey key
  | text text =>
      rw [event_origins t rfl]
      unfold App.event
      dsimp only
      split
      · exact h
      · apply h.sends (sends_sendAll _ _) _ ⟨rfl, rfl, rfl⟩ h.held
        intro command hcommand
        obtain ⟨char, _, hchar⟩ := List.mem_flatMap.1 hcommand
        exact neutral_press (charKeysym_not_modifier char) command hchar
  | other =>
      rw [event_origins t rfl]
      exact h

theorem events (h : Tracked before t) (c : Canvas) (events : List UiEvent) :
    Tracked before (events.foldl (Traced.event name c) t) := by
  induction events generalizing t with
  | nil => exact h
  | cons e rest ih => exact ih (h.event c e)

theorem remoteInput (h : Tracked before t) (c : Canvas) :
    Tracked before (t.remoteInput name c) := by
  unfold Traced.remoteInput
  split
  · exact h.releaseInput
  · exact (h.updateModifiers c).events c c.events

theorem toolbar (h : Tracked before t) (hnow : before t.clock = t) (f : Frame) :
    Tracked before (t.toolbar f) := by
  have hclick : ∀ {t : Traced}, Tracked before t → ∀ clicked : Bool,
      Tracked before (if clicked = true then t.toggle else t) := by
    intro t h clicked
    split
    · exact h.toggle
    · exact h
  exact hclick (hclick (h.drain hnow) f.updatesClicked) f.filesClicked

theorem update (h : Tracked before t) (hnow : before t.clock = t) (f : Frame) :
    Tracked before (t.update name f) := by
  unfold Traced.update
  split
  · exact h.toolbar hnow f
  · exact (h.toolbar hnow f).remoteInput _

theorem turn (h : Tracked before t) (hnow : before t.clock = t) (turn : Turn) :
    Tracked before (t.turn name turn) := by
  cases turn with
  | iteration =>
      obtain ⟨hlog, hrefused⟩ := CommandSender.channel_receive t.app.commands
      refine ⟨h.connected, h.length, h.held, h.queued, h.typed, ?_, ?_⟩
      · show t.app.commands.receive.channel.refused = [] → ∀ K ∈ modifierKeysyms,
          (isDown t.app.commands.receive.channel.accepted K = true ↔ K ∈ t.app.modifiers)
        rw [hlog, hrefused]
        exact h.down
      · show t.app.commands.receive.channel.refused = [] → ∀ d ∈ t.delivered,
          d.Right before t.app.commands.receive.channel.accepted
        rw [hlog, hrefused]
        exact h.delivered
  | frame f =>
      obtain ⟨hconnected, hlength, hheld, hqueued, htyped, hdown, hdelivered⟩ :=
        Tracked.update h hnow f
      exact ⟨hconnected, hlength, hheld, hqueued, htyped, hdown, hdelivered⟩

theorem run (h : Tracked before t) {turns : List Turn}
    (hbefore : ∀ n ≤ turns.length, before (t.clock + n) = t.run name (turns.take n)) :
    Tracked before (t.run name turns) := by
  induction turns generalizing t with
  | nil => exact h
  | cons first rest ih =>
      have hclock : (t.turn name first).clock = t.clock + 1 := by
        cases first <;> rfl
      apply ih (h.turn (hbefore 0 (Nat.zero_le _)) first)
      intro n hn
      rw [hclock, Nat.add_assoc, Nat.add_comm 1]
      exact hbefore (n + 1) (Nat.succ_le_succ hn)

end Tracked

/-! ## Runs -/

/-- A session that has just connected: no key is down, and none is held here. -/
structure Fresh (a : App) : Prop extends Begins a where
  pressed : a.pressed = ∅
  modifiers : a.modifiers = []

theorem tracked_start {a : App} (h : Fresh a) (before : Nat → Traced) :
    Tracked before (Traced.start a) where
  connected := h.connected
  length := by simp [Traced.start, h.pending]
  held := by simp [Traced.start, App.held, h.pressed]
  queued := by simp [Traced.start, h.pending]
  typed := fun _ => h.modifiers
  down := by simp [Traced.start, h.up, h.modifiers]
  delivered := by simp [Traced.start]

/-- The state before a turn of the run. -/
def stateBefore (name : Key → List UInt8) (a : App) (turns : List Turn) (n : Nat) : Traced :=
  (Traced.start a).run name (turns.take n)

/-- What is delivered in a run without a failed send. -/
theorem delivered_right {name : Key → List UInt8} {a : App} (h : Fresh a) {turns : List Turn}
    (haccepted : (a.run name turns).commands.channel.refused = []) :
    ∀ d ∈ ((Traced.start a).run name turns).delivered,
      d.Right (stateBefore name a turns) (a.run name turns).commands.channel.accepted := by
  have hrun : Tracked (stateBefore name a turns) ((Traced.start a).run name turns) :=
    (tracked_start h _).run fun n _ =>
      congrArg (stateBefore name a turns) (Nat.zero_add n)
  have happ : ((Traced.start a).run name turns).app = a.run name turns := Traced.app_run ..
  rw [← happ] at haccepted ⊢
  exact hrun.delivered haccepted

/-- In every run the commands of a typed paste reach the channel with every modifier up. -/
theorem typed_text_unmodified (name : Key → List UInt8) {a : App} (h : Fresh a)
    (turns : List Turn) (haccepted : (a.run name turns).commands.channel.refused = []) :
    ∀ d ∈ ((Traced.start a).run name turns).delivered, d.origin = .typed →
      d.sent ++ [d.command] <+: (a.run name turns).commands.channel.accepted ∧
        ∀ K ∈ modifierKeysyms, isDown d.sent K = false := by
  intro d hd horigin
  have hright := delivered_right h haccepted d hd
  exact ⟨hright.reached, hright.typed horigin⟩

def ctrlCanvas (events : List UiEvent) : Canvas :=
  { focusedCanvas false events with modifiers := { Modifiers.none with ctrl := true } }

def ctrlFrame (events : List UiEvent) : Turn :=
  .frame { updatesClicked := false, filesClicked := false, canvas := some (ctrlCanvas events) }

theorem fresh_session : Fresh App.session := ⟨⟨rfl, rfl, fun _ => rfl⟩, rfl, rfl⟩

/-- Text that is pasted while Ctrl is held. -/
theorem typed_text_unmodified_paste :
    ∃ d ∈ ((Traced.start App.session).run enterName
        [ctrlFrame [.paste ['a']], ctrlFrame []]).delivered, d.origin = .typed ∧
      d.sent ++ [d.command] <+: (App.session.run enterName
        [ctrlFrame [.paste ['a']], ctrlFrame []]).commands.channel.accepted ∧
        ∀ K ∈ modifierKeysyms, isDown d.sent K = false := by
  have htyped : ∃ d ∈ ((Traced.start App.session).run enterName
      [ctrlFrame [.paste ['a']], ctrlFrame []]).delivered, d.origin = .typed := by
    decide +kernel
  obtain ⟨d, hd, horigin⟩ := htyped
  have hright := typed_text_unmodified enterName fresh_session _ (by decide +kernel) d hd horigin
  exact ⟨d, hd, horigin, hright⟩

/-! ## Shortcuts -/

/-- Whether Ctrl is reported held: by the last key event of the frame, else by the frame. -/
def reportsCtrl (c : Canvas) : Bool :=
  ((c.events.reverse.findSome? UiEvent.keyModifiers).getD c.modifiers).ctrl

def ctrlKeysym (c : Canvas) : UInt32 := if c.native then 0xffe3 else 0xffeb

def typesText (s : ClipboardSync) : List UiEvent → Bool
  | [] => false
  | e :: rest => s.willType e || typesText (s.commands e).2 rest

/-- The frame of a shortcut leaves its modifier latched: the paste before it is out of the way,
or had it latched all along, and no text is typed. -/
structure Latches (a : App) (f : Frame) (c : Canvas) : Prop where
  free : a.pendingPaste.length ≤ pasteCommandsPerFrame ∨ f.updatesClicked = true ∨
    f.filesClicked = true ∨ ctrlKeysym c ∈ a.modifiers
  types : typesText a.clipboard c.events = false

/-- The frame releases no modifier: the canvas keeps the keyboard, and no text is typed. -/
def Keeps (a : App) (f : Frame) : Prop :=
  ∀ c, f.canvas = some c → c.captures = true ∧ typesText a.clipboard c.events = false

/-- The shortcuts of the frame `f` in turn `first` keep their modifier until turn `last`. -/
structure StaysLatched (name : Key → List UInt8) (a : App) (turns : List Turn) (first last : Nat)
    (f : Frame) (c : Canvas) : Prop where
  latches : Latches (a.run name (turns.take first)) f c
  keeps : ∀ n g, first < n → n < last → turns[n]? = some (.frame g) →
    Keeps (a.run name (turns.take n)) g

/-- Ctrl is reported held in every frame from turn `first` until turn `last`. -/
def CtrlHeld (turns : List Turn) (first last : Nat) : Prop :=
  ∀ n f c, first ≤ n → n < last → turns[n]? = some (.frame f) → f.canvas = some c →
    reportsCtrl c = true

/-- Ctrl is among the held modifiers exactly when it is reported. -/
theorem ctrlKeysym_held_iff (c : Canvas) :
    ctrlKeysym c ∈ c.heldModifiers ↔ reportsCtrl c = true := by
  unfold Canvas.heldModifiers ctrlKeysym reportsCtrl
  generalize (c.events.reverse.findSome? UiEvent.keyModifiers).getD c.modifiers = m
  obtain ⟨alt, ctrl, shift, macCmd⟩ := m
  cases alt <;> cases ctrl <;> cases shift <;> cases macCmd <;> cases c.native <;> decide

theorem ctrlKeysym_modifier (c : Canvas) : ctrlKeysym c ∈ modifierKeysyms := by
  unfold ctrlKeysym
  split <;> decide

theorem event_modifiers (name : Key → List UInt8) (composedText hovered : Bool) (a : App)
    (e : UiEvent) :
    (a.event name composedText hovered e).modifiers =
        (if a.clipboard.willType e then [] else a.modifiers) ∧
      (a.event name composedText hovered e).clipboard = (a.clipboard.commands e).2 := by
  have hclipboard : ∀ e, (a.clipboardEvent e).modifiers =
        (if a.clipboard.willType e then [] else a.modifiers) ∧
      (a.clipboardEvent e).clipboard = (a.clipboard.commands e).2 := by
    intro e
    unfold App.clipboardEvent
    dsimp only
    split <;> exact ⟨rfl, rfl⟩
  cases e with
  | copy => exact hclipboard .copy
  | cut => exact hclipboard .cut
  | paste text => exact hclipboard (.paste text)
  | key key pressed repeated m =>
      unfold App.event App.pressKey App.releaseKey
      dsimp only
      split
      · exact ⟨rfl, rfl⟩
      · split
        · split
          · exact ⟨rfl, rfl⟩
          · split
            · exact ⟨rfl, rfl⟩
            · split <;> exact ⟨rfl, rfl⟩
        · split <;> exact ⟨rfl, rfl⟩
  | other => exact ⟨rfl, rfl⟩
  | _ =>
      unfold App.event
      dsimp only
      split <;> exact ⟨rfl, rfl⟩

theorem events_modifiers (name : Key → List UInt8) (composedText hovered : Bool)
    (events : List UiEvent) (a : App) :
    (events.foldl (App.event name composedText hovered) a).modifiers =
      if typesText a.clipboard events then [] else a.modifiers := by
  induction events generalizing a with
  | nil => rfl
  | cons e rest ih =>
      obtain ⟨hmodifiers, hclipboard⟩ := event_modifiers name composedText hovered a e
      rw [List.foldl_cons, ih, hmodifiers, hclipboard, typesText]
      cases a.clipboard.willType e <;> simp

theorem clipboard_toggle (t : Traced) : t.toggle.app.clipboard = t.app.clipboard := by
  unfold Traced.toggle App.toggleWindow App.releaseInput
  dsimp only
  split <;> rfl

theorem clipboard_drain (t : Traced) : t.drain.app.clipboard = t.app.clipboard := by
  unfold Traced.drain App.drainPendingPaste
  dsimp only
  split
  · rfl
  · split <;> rfl

theorem clipboard_toolbar (t : Traced) (f : Frame) :
    (t.toolbar f).app.clipboard = t.app.clipboard := by
  unfold Traced.toolbar
  dsimp only
  split <;> split <;> simp only [clipboard_toggle, clipboard_drain]

/-- A click on the toolbar releases the input and clears the queue. -/
theorem toolbar_clicked (t : Traced) {f : Frame}
    (hclicked : f.updatesClicked = true ∨ f.filesClicked = true) :
    (t.toolbar f).app.pendingPaste = [] ∧ (t.toolbar f).origins = [] := by
  unfold Traced.toolbar
  dsimp only
  by_cases hfiles : f.filesClicked = true
  · rw [if_pos hfiles]
    exact ⟨rfl, rfl⟩
  · rw [if_neg hfiles, if_pos (hclicked.resolve_right hfiles)]
    exact ⟨rfl, rfl⟩

theorem toolbar_unclicked {t : Traced} (hconnected : t.app.connected = true) {f : Frame}
    (hclicked : ¬(f.updatesClicked = true ∨ f.filesClicked = true)) :
    (t.toolbar f).app.modifiers = t.app.modifiers ∧
      (t.toolbar f).app.pendingPaste = t.app.pendingPaste.drop pasteCommandsPerFrame ∧
      (t.toolbar f).origins = t.origins.drop pasteCommandsPerFrame := by
  rw [not_or] at hclicked
  obtain ⟨-, hmodifiers, hpending⟩ := drainPendingPaste_state hconnected
  have hdrained : t.toolbar f = t.drain := by
    unfold Traced.toolbar
    dsimp only
    rw [if_neg hclicked.1, if_neg hclicked.2]
  rw [hdrained]
  exact ⟨hmodifiers, hpending, if_pos hconnected⟩

theorem remoteInput_modifiers (name : Key → List UInt8) (t : Traced) {c : Canvas}
    (hcaptures : c.captures = true) :
    (t.remoteInput name c).app.modifiers =
      if typesText t.app.clipboard c.events then []
      else if t.app.pendingPaste = [] then c.heldModifiers else t.app.modifiers := by
  have hclipboard : (t.app.updateModifiers c).clipboard = t.app.clipboard := by
    unfold App.updateModifiers
    split <;> rfl
  have hmodifiers : (t.app.updateModifiers c).modifiers =
      if t.app.pendingPaste = [] then c.heldModifiers else t.app.modifiers := by
    unfold App.updateModifiers
    split <;> rfl
  unfold Traced.remoteInput
  rw [if_neg (by rw [hcaptures]; decide), Traced.app_events]
  dsimp only
  rw [events_modifiers, hclipboard, hmodifiers]

/-- The frame of a shortcut leaves its modifier latched exactly when `Latches` says so. -/
theorem update_latches (name : Key → List UInt8) {t : Traced}
    (hconnected : t.app.connected = true) {f : Frame} {c : Canvas} (hcanvas : f.canvas = some c)
    (hcaptures : c.captures = true) (hctrl : reportsCtrl c = true) :
    ctrlKeysym c ∈ (t.update name f).app.modifiers ↔ Latches t.app f c := by
  have hheld := (ctrlKeysym_held_iff c).2 hctrl
  have hupdate : t.update name f = (t.toolbar f).remoteInput name c := by
    unfold Traced.update
    rw [hcanvas]
  rw [hupdate, remoteInput_modifiers name _ hcaptures, clipboard_toolbar]
  by_cases htypes : typesText t.app.clipboard c.events = true
  · rw [if_pos htypes]
    exact ⟨nofun, fun h => absurd htypes (by rw [h.types]; decide)⟩
  · rw [if_neg htypes]
    have hnone : typesText t.app.clipboard c.events = false := by simpa using htypes
    by_cases hclicked : f.updatesClicked = true ∨ f.filesClicked = true
    · rw [if_pos (toolbar_clicked t hclicked).1]
      exact ⟨fun _ => ⟨by tauto, hnone⟩, fun _ => hheld⟩
    · obtain ⟨hmodifiers, hpending, -⟩ := toolbar_unclicked hconnected hclicked
      rw [hmodifiers, hpending]
      by_cases hempty : t.app.pendingPaste.drop pasteCommandsPerFrame = []
      · rw [if_pos hempty]
        exact ⟨fun _ => ⟨.inl (List.drop_eq_nil_iff.1 hempty), hnone⟩, fun _ => hheld⟩
      · rw [if_neg hempty]
        rw [List.drop_eq_nil_iff] at hempty
        refine ⟨fun hlatched => ⟨by tauto, hnone⟩, fun h => ?_⟩
        have hfree := h.free
        tauto

/-- While the queue outlasts the frame, a modifier stays latched exactly when the frame
keeps it. -/
theorem update_keeps (name : Key → List UInt8) {t : Traced} (hconnected : t.app.connected = true)
    {f : Frame} (hclicked : ¬(f.updatesClicked = true ∨ f.filesClicked = true))
    (hlong : pasteCommandsPerFrame < t.app.pendingPaste.length) (K : UInt32) :
    K ∈ (t.update name f).app.modifiers ↔ K ∈ t.app.modifiers ∧ Keeps t.app f := by
  obtain ⟨hmodifiers, hpending, -⟩ := toolbar_unclicked hconnected hclicked
  unfold Traced.update Keeps
  cases hcanvas : f.canvas with
  | none =>
      dsimp only
      rw [hmodifiers]
      simp
  | some c =>
      dsimp only
      by_cases hcaptures : c.captures = true
      · rw [remoteInput_modifiers name _ hcaptures, clipboard_toolbar, hmodifiers, hpending,
          if_neg (c := t.app.pendingPaste.drop _ = []) (by rw [List.drop_eq_nil_iff]; omega)]
        by_cases htypes : typesText t.app.clipboard c.events = true
        · rw [if_pos htypes]
          simp [htypes]
        · rw [if_neg htypes]
          simp [htypes, hcaptures]
      · have hreleased : ((t.toolbar f).remoteInput name c).app.modifiers = [] := by
          unfold Traced.remoteInput
          rw [if_pos (by simpa using hcaptures)]
          exact (releaseInput_state _).2.1
        rw [hreleased]
        simp [hcaptures]

theorem origins_events {name : Key → List UInt8} {c : Canvas} {t : Traced} {events : List UiEvent}
    {n : Nat} (h : .shortcut n ∈ (events.foldl (Traced.event name c) t).origins) :
    .shortcut n ∈ t.origins ∨ n = t.clock := by
  induction events generalizing t with
  | nil => exact .inl h
  | cons e rest ih =>
      rcases ih h with hbefore | hnow
      · rcases List.mem_append.1 hbefore with hold | hnew
        · exact .inl hold
        · have horigin := List.eq_of_mem_replicate hnew
          split at horigin
          · cases horigin
          · cases horigin
            exact .inr rfl
      · exact .inr hnow

/-- A shortcut in the queue after a frame is one of this frame, or was in the queue before,
which outlasts the slice. -/
theorem queued_update {name : Key → List UInt8} {t : Traced} (hconnected : t.app.connected = true)
    {f : Frame} {n : Nat} (h : .shortcut n ∈ (t.update name f).origins) :
    (.shortcut n ∈ t.origins ∧ ¬(f.updatesClicked = true ∨ f.filesClicked = true) ∧
        pasteCommandsPerFrame < t.origins.length) ∨
      n = t.clock ∧ ∃ c, f.canvas = some c ∧ c.captures = true := by
  have hkept : .shortcut n ∈ (t.toolbar f).origins →
      .shortcut n ∈ t.origins ∧ ¬(f.updatesClicked = true ∨ f.filesClicked = true) ∧
        pasteCommandsPerFrame < t.origins.length := by
    intro hmem
    by_cases hclicked : f.updatesClicked = true ∨ f.filesClicked = true
    · rw [(toolbar_clicked t hclicked).2] at hmem
      cases hmem
    · rw [(toolbar_unclicked hconnected hclicked).2.2] at hmem
      have hlong := List.length_pos_of_mem hmem
      rw [List.length_drop] at hlong
      exact ⟨List.mem_of_mem_drop hmem, hclicked, by omega⟩
  have hclock : (t.toolbar f).clock = t.clock := by
    unfold Traced.toolbar
    dsimp only
    split <;> split <;> rfl
  unfold Traced.update at h
  cases hcanvas : f.canvas with
  | none =>
      rw [hcanvas] at h
      exact .inl (hkept h)
  | some c =>
      rw [hcanvas] at h
      dsimp only at h
      unfold Traced.remoteInput at h
      split at h
      · exact .inl (hkept h)
      · rename_i hcaptures
        rcases origins_events h with hold | hnow
        · exact .inl (hkept hold)
        · exact .inr ⟨hnow.trans hclock, c, rfl, by simpa using hcaptures⟩

/-! ## Runs with shortcuts -/

section Run

variable {name : Key → List UInt8} {a : App} {turns : List Turn}

theorem stateBefore_succ (n : Nat) :
    stateBefore name a turns (n + 1) =
      (turns[n]?.toList).foldl (Traced.turn name) (stateBefore name a turns n) := by
  unfold stateBefore Traced.run
  rw [List.take_add_one, List.foldl_append]

theorem app_stateBefore (n : Nat) :
    (stateBefore name a turns n).app = a.run name (turns.take n) := Traced.app_run ..

theorem clock_stateBefore {n : Nat} (h : n ≤ turns.length) :
    (stateBefore name a turns n).clock = n := by
  induction n with
  | zero => rfl
  | succ n ih =>
      rw [stateBefore_succ, List.getElem?_eq_getElem h]
      have hturn : ∀ turn, ((stateBefore name a turns n).turn name turn).clock =
          (stateBefore name a turns n).clock + 1 := by
        intro turn
        cases turn <;> rfl
      exact (hturn _).trans (congrArg (· + 1) (ih (Nat.le_of_succ_le h)))

theorem tracked_stateBefore (h : Fresh a) (n : Nat) :
    Tracked (stateBefore name a turns) (stateBefore name a turns n) := by
  apply (tracked_start h _).run
  intro m hm
  have hle : m ≤ n := by
    rw [List.length_take] at hm
    omega
  rw [List.take_take, Nat.min_eq_left hle]
  exact congrArg (stateBefore name a turns) (Nat.zero_add m)

/-- A shortcut in the queue was put there by an earlier frame that had the keyboard. -/
theorem queued_stateBefore (h : Fresh a) {first n : Nat}
    (hqueued : .shortcut first ∈ (stateBefore name a turns n).origins) :
    first < n ∧ ∃ f c, turns[first]? = some (.frame f) ∧ f.canvas = some c ∧
      c.captures = true := by
  induction n with
  | zero => cases hqueued
  | succ n ih =>
      rw [stateBefore_succ] at hqueued
      cases hturn : turns[n]? with
      | none =>
          rw [hturn] at hqueued
          exact ⟨Nat.lt_succ_of_lt (ih hqueued).1, (ih hqueued).2⟩
      | some turn =>
          rw [hturn] at hqueued
          cases turn with
          | iteration => exact ⟨Nat.lt_succ_of_lt (ih hqueued).1, (ih hqueued).2⟩
          | frame g =>
              rcases queued_update (tracked_stateBefore h n).connected hqueued with
                ⟨hold, -, -⟩ | ⟨hnow, c, hcanvas, hcaptures⟩
              · exact ⟨Nat.lt_succ_of_lt (ih hold).1, (ih hold).2⟩
              · rw [clock_stateBefore (List.getElem?_eq_some_iff.1 hturn).1.le] at hnow
                rw [hnow]
                exact ⟨Nat.lt_succ_self n, g, c, hturn, hcanvas, hcaptures⟩

theorem staysLatched_succ {first n : Nat} (hfirst : first < n) {f : Frame} {c : Canvas} :
    StaysLatched name a turns first (n + 1) f c ↔ StaysLatched name a turns first n f c ∧
      ∀ g, turns[n]? = some (.frame g) → Keeps (a.run name (turns.take n)) g := by
  constructor
  · intro h
    refine ⟨⟨h.latches, fun m g hm hn => h.keeps m g hm (Nat.lt_succ_of_lt hn)⟩, ?_⟩
    exact fun g => h.keeps n g hfirst (Nat.lt_succ_self n)
  · rintro ⟨h, hlast⟩
    refine ⟨h.latches, fun m g hm hn hturn => ?_⟩
    rcases Nat.lt_succ_iff_lt_or_eq.1 hn with hbefore | rfl
    · exact h.keeps m g hm hbefore hturn
    · exact hlast g hturn

/-- While a shortcut is in the queue, its modifier is latched exactly when its frame latched
it and no frame since released it. -/
theorem latched_iff (h : Fresh a) {first last : Nat} {f : Frame} {c : Canvas}
    (hframe : turns[first]? = some (.frame f)) (hcanvas : f.canvas = some c)
    (hctrl : reportsCtrl c = true)
    (hqueued : .shortcut first ∈ (stateBefore name a turns last).origins) :
    ctrlKeysym c ∈ (stateBefore name a turns last).app.modifiers ↔
      StaysLatched name a turns first last f c := by
  induction last with
  | zero => cases hqueued
  | succ n ih =>
      have hstate : stateBefore name a turns (n + 1) = _ := stateBefore_succ n
      rw [hstate] at hqueued ⊢
      cases hturn : turns[n]? with
      | none =>
          rw [hturn] at hqueued
          rw [staysLatched_succ (queued_stateBefore h hqueued).1, hturn]
          exact (ih hqueued).trans (iff_self_and.2 fun _ => nofun)
      | some turn =>
          rw [hturn] at hqueued
          cases turn with
          | iteration =>
              rw [staysLatched_succ (queued_stateBefore h hqueued).1, hturn]
              exact (ih hqueued).trans (iff_self_and.2 fun _ => nofun)
          | frame g =>
              have htracked : Tracked _ (stateBefore name a turns n) := tracked_stateBefore h n
              rcases queued_update htracked.connected hqueued with
                ⟨hold, hclicked, hlong⟩ | ⟨hnow, -⟩
              · rw [htracked.length] at hlong
                rw [staysLatched_succ (queued_stateBefore h hold).1, hturn, ← ih hold,
                  ← app_stateBefore n]
                apply (update_keeps name htracked.connected hclicked hlong _).trans
                simp
              · rw [clock_stateBefore (List.getElem?_eq_some_iff.1 hturn).1.le] at hnow
                subst hnow
                cases hturn.symm.trans hframe
                apply (update_latches name htracked.connected hcanvas _ hctrl).trans
                · rw [app_stateBefore]
                  exact ⟨fun hlatches => ⟨hlatches, fun m _ hm hn => by omega⟩, (·.latches)⟩
                · obtain ⟨-, f', c', hframe', hcanvas', hcaptures⟩ :=
                    queued_stateBefore (n := first + 1) h (by rw [hstate, hturn]; exact hqueued)
                  cases hturn.symm.trans hframe'
                  cases hcanvas.symm.trans hcanvas'
                  exact hcaptures

end Run

/-- In every run the tap of a shortcut that Ctrl is held for reaches the channel with the
modifier of Ctrl down exactly when its frame could latch it, and no frame until the tap was
sent typed text or lost the keyboard. -/
theorem shortcut_keeps_modifier_iff (name : Key → List UInt8) {a : App} (h : Fresh a)
    (turns : List Turn) (haccepted : (a.run name turns).commands.channel.refused = []) :
    ∀ d ∈ ((Traced.start a).run name turns).delivered, ∀ first, d.origin = .shortcut first →
      first < d.turn ∧ ∃ f c, turns[first]? = some (.frame f) ∧ f.canvas = some c ∧
        d.sent ++ [d.command] <+: (a.run name turns).commands.channel.accepted ∧
        (CtrlHeld turns first d.turn →
          (isDown d.sent (ctrlKeysym c) = true ↔
            StaysLatched name a turns first d.turn f c)) := by
  intro d hd first horigin
  have hright := delivered_right h haccepted d hd
  have hqueued := hright.queued
  rw [horigin] at hqueued
  obtain ⟨hfirst, f, c, hframe, hcanvas, -⟩ := queued_stateBefore h hqueued
  refine ⟨hfirst, f, c, hframe, hcanvas, hright.reached, fun hheld => ?_⟩
  rw [hright.latched _ (ctrlKeysym_modifier c)]
  exact latched_iff h hframe hcanvas (hheld first f c (Nat.le_refl _) hfirst hframe hcanvas) hqueued

/-- Text is pasted and then copied in one frame, with Ctrl held. -/
def pasteThenCopy : List Turn := [ctrlFrame [.paste ['a'], .copy], ctrlFrame []]

/-- The Mac sees a plain c. -/
theorem copy_without_modifier :
    (App.session.run enterName pasteThenCopy).commands.channel.refused = [] ∧
      CtrlHeld pasteThenCopy 0 1 ∧
      ∃ d ∈ ((Traced.start App.session).run enterName pasteThenCopy).delivered,
        d.origin = .shortcut 0 ∧ d.turn = 1 ∧ d.command = .key 99 true ∧
          isDown d.sent (ctrlKeysym (ctrlCanvas [.paste ['a'], .copy])) = false := by
  refine ⟨by decide +kernel, ?_, by decide +kernel⟩
  intro n f c _ hn hturn hcanvas
  obtain rfl : n = 0 := by omega
  cases hturn
  cases hcanvas
  decide

/-- A copy with an empty queue, and an iteration of the session loop behind it. -/
def copyAlone : List Turn := [ctrlFrame [.copy], .iteration, ctrlFrame []]

/-- The Mac sees Command-C. -/
theorem shortcut_keeps_modifier_iff_copy :
    ∃ d ∈ ((Traced.start App.session).run enterName copyAlone).delivered,
      d.origin = .shortcut 0 ∧ d.command = .key 99 true ∧
        d.sent ++ [d.command] <+: (App.session.run enterName copyAlone).commands.channel.accepted ∧
        isDown d.sent 0xffeb = true := by
  have hcopy : ∃ d ∈ ((Traced.start App.session).run enterName copyAlone).delivered,
      d.origin = .shortcut 0 ∧ d.turn = 2 ∧ d.command = .key 99 true := by
    decide +kernel
  obtain ⟨d, hd, horigin, hturn, hcommand⟩ := hcopy
  obtain ⟨-, f, c, hframe, hcanvas, hreached, hiff⟩ :=
    shortcut_keeps_modifier_iff enterName fresh_session copyAlone (by decide +kernel) d hd 0 horigin
  cases hframe
  cases hcanvas
  refine ⟨d, hd, horigin, hcommand, hreached, (hiff ?_).2 ⟨⟨.inl (by decide), by decide⟩, ?_⟩⟩
  · intro n f c _ hn hframe hcanvas
    rw [hturn] at hn
    obtain rfl | rfl : n = 0 ∨ n = 1 := by omega
    · cases hframe
      cases hcanvas
      decide
    · cases hframe
  · intro n g hfirst hn hframe
    rw [hturn] at hn
    obtain rfl : n = 1 := by omega
    cases hframe

end MacVnc.Client.PasteOrigins
