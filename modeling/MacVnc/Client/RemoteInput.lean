import MacVnc.Client.Input
import Mathlib.Data.List.AList
/-!
# Remote input

The input side of the window (`macvnc-app/src/main.rs`): what one frame of the
user interface sends to the Mac.  The toolkit is the environment: it gives each
frame its clicks and, once there is a picture, the state of the canvas with the
events of the frame.  Positions are those that `input::position` has computed.
-/

namespace MacVnc.Client.RemoteInput

open MacVnc.Lib.BoundedChannel
open MacVnc.Lib (Text)
open MacVnc.Lib.Text
open MacVnc.Client.Commands
open MacVnc.Client.Input

def maxTypedPasteChars : Nat := 8192

def pasteCommandsPerFrame : Nat := 128

def clipboardRecordCharLimit : Nat := 65000

inductive PointerButton where
  | primary | middle | secondary | extra
deriving DecidableEq

inductive UiEvent where
  | pointerMoved (inside : Bool) (pos : UInt16 × UInt16)
  | pointerButton (inside : Bool) (pos : UInt16 × UInt16) (button : PointerButton) (pressed : Bool)
  | mouseWheel (x y : Int)
  | key (key : Key) (pressed : Bool) (repeated : Bool) (modifiers : Modifiers)
  | copy
  | cut
  | paste (text : Text)
  | text (text : Text)
  | other
deriving DecidableEq

/-- The canvas in one frame: what is open over it, who has the focus, and the events. -/
structure Canvas where
  filesOpen : Bool
  updatesOpen : Bool
  focused : Bool
  hasFocus : Bool
  hovered : Bool
  modifiers : Modifiers
  native : Bool
  events : List UiEvent
deriving DecidableEq

/-- One frame: the clicks on the toolbar, then the canvas if there is a picture. -/
structure Frame where
  updatesClicked : Bool
  filesClicked : Bool
  canvas : Option Canvas
deriving DecidableEq

structure ClipboardSync where
  remoteOwns : Bool
deriving DecidableEq

structure App where
  commands : CommandSender
  connected : Bool
  pressed : AList fun _ : Key => UInt32
  modifiers : List UInt32
  buttons : UInt8
  pointer : UInt16 × UInt16
  clipboard : ClipboardSync
  pendingPaste : List Command

def press (keysym : UInt32) : List Command := [.key keysym true, .key keysym false]

def release (keysyms : List UInt32) : List Command := keysyms.map fun keysym => .key keysym false

def charKeysym (c : Char) : UInt32 := if c.val ≤ 255 then c.val else 0x01000000 ||| c.val

def typedKeysym (c : Char) : UInt32 :=
  if c = '\n' ∨ c = '\r' then 0xff0d else if c = '\t' then 0xff09 else charKeysym c

def tap (letter : UInt8) : List Command := press letter.toUInt32

def typed (text : Text) : List Command :=
  .clipboard (text.take clipboardRecordCharLimit) ::
    (text.take maxTypedPasteChars).flatMap fun c => press (typedKeysym c)

namespace ClipboardSync

def willType (s : ClipboardSync) : UiEvent → Bool
  | .paste _ => !s.remoteOwns
  | _ => false

def commands (s : ClipboardSync) : UiEvent → List Command × ClipboardSync
  | .copy => (tap 99, { remoteOwns := true })
  | .cut => (tap 120, { remoteOwns := true })
  | .paste text => (if s.remoteOwns then tap 118 else typed text, { remoteOwns := false })
  | _ => ([], s)

end ClipboardSync

def buttonBit : PointerButton → UInt8
  | .primary => 1
  | .middle => 2
  | .secondary => 4
  | .extra => 0

def wheelBit (x y : Int) : UInt8 :=
  if 0 < y then 8 else if y < 0 then 16 else if 0 < x then 32 else 64

namespace App

/-- A session that has just connected. -/
def session : App :=
  { commands := { channel := Channel.empty, cancelled := false }
    connected := true
    pressed := ∅
    modifiers := []
    buttons := 0
    pointer := (0, 0)
    clipboard := { remoteOwns := false }
    pendingPaste := [] }

def sendAll (a : App) (commands : List Command) : App :=
  { a with commands := a.commands.sendAll commands }

def held (a : App) : List UInt32 := a.pressed.entries.map Sigma.snd

def drainPendingPaste (a : App) : App :=
  if a.pendingPaste = [] then a
  else if a.connected = false then { a with pendingPaste := [] }
  else
    { a.sendAll (a.pendingPaste.take pasteCommandsPerFrame) with
      pendingPaste := a.pendingPaste.drop pasteCommandsPerFrame }

def releaseInput (a : App) : App :=
  let a : App := { a.sendAll (release a.held) with pressed := ∅ }
  let a : App := { a.sendAll (release a.modifiers) with modifiers := [] }
  if a.buttons ≠ 0 then { a.sendAll [.pointer a.pointer.1 a.pointer.2 0] with buttons := 0 } else a

def toggleWindow (a : App) : App := { a.releaseInput with pendingPaste := [] }

/-- Send the difference between the modifiers sent and those held. -/
def syncModifiers (a : App) (next : List UInt32) : App :=
  let a := a.sendAll (release (a.modifiers.filter (· ∉ next)))
  let a := a.sendAll ((next.filter (· ∉ a.modifiers)).map fun keysym => .key keysym true)
  { a with modifiers := next }

def sendPointer (a : App) (buttons : UInt8) : App :=
  a.sendAll [.pointer a.pointer.1 a.pointer.2 buttons]

/-- Whether a press is left to the text event of the composed character. -/
def composes (composedText : Bool) (keysym : UInt32) (m : Modifiers) : Bool :=
  composedText && decide (keysym < 0xff00) && !m.ctrl && !m.alt

/-- A key press: the keysym it was first sent under, else the one of the table. -/
def pressKey (name : Key → List UInt8) (composedText : Bool) (a : App) (key : Key)
    (repeated : Bool) (m : Modifiers) : App :=
  match (a.pressed.lookup key).or (keysym name key m.shift) with
  | none => a
  | some keysym =>
      if composes composedText keysym m then a
      else
        let a := if repeated then a else { a with pressed := a.pressed.insert key keysym }
        a.sendAll [.key keysym true]

def releaseKey (a : App) (key : Key) : App :=
  match a.pressed.lookup key with
  | none => a
  | some keysym => { a with pressed := a.pressed.erase key }.sendAll [.key keysym false]

/-- A clipboard event; the modifiers are released before text is typed. -/
def clipboardEvent (a : App) (e : UiEvent) : App :=
  let a := if a.clipboard.willType e then
      { a.sendAll (release a.modifiers) with modifiers := [] }
    else a
  let (commands, clipboard) := a.clipboard.commands e
  { a with pendingPaste := a.pendingPaste ++ commands, clipboard }

def event (name : Key → List UInt8) (composedText hovered : Bool) (a : App) : UiEvent → App
  | .pointerMoved inside pos =>
      if inside = true ∨ a.buttons ≠ 0 then { a with pointer := pos }.sendPointer a.buttons else a
  | .pointerButton inside pos button pressed =>
      if inside = true ∨ a.buttons ≠ 0 then
        let buttons := if pressed then a.buttons ||| buttonBit button
          else a.buttons &&& ~~~buttonBit button
        { a with buttons, pointer := pos }.sendPointer buttons
      else a
  | .mouseWheel x y =>
      if hovered then (a.sendPointer (a.buttons ||| wheelBit x y)).sendPointer a.buttons else a
  | .key key pressed repeated m =>
      if key = .f11 then a
      else if pressed then a.pressKey name composedText key repeated m
      else a.releaseKey key
  | .copy => a.clipboardEvent .copy
  | .cut => a.clipboardEvent .cut
  | .paste text => a.clipboardEvent (.paste text)
  | .text text =>
      if isAscii text then a else a.sendAll (text.flatMap fun c => press (charKeysym c))
  | .other => a

end App

def UiEvent.keyModifiers : UiEvent → Option Modifiers
  | .key _ _ _ m => some m
  | _ => none

def UiEvent.composed : UiEvent → Bool
  | .text t => !isAscii t
  | _ => false

/-- The modifiers of the last key event of the frame, else those of the frame. -/
def Canvas.heldModifiers (c : Canvas) : List UInt32 :=
  Input.modifiers ((c.events.reverse.findSome? UiEvent.keyModifiers).getD c.modifiers) c.native

def Canvas.captures (c : Canvas) : Bool :=
  !c.filesOpen && !c.updatesOpen && c.focused && (c.hasFocus || c.hovered)

def Canvas.composedText (c : Canvas) : Bool := c.events.any UiEvent.composed

namespace App

/-- The modifiers are left alone while a paste is in flight. -/
def updateModifiers (a : App) (c : Canvas) : App :=
  if a.pendingPaste = [] then a.syncModifiers c.heldModifiers else a

def remoteInput (name : Key → List UInt8) (a : App) (c : Canvas) : App :=
  if c.captures = false then a.releaseInput
  else c.events.foldl (event name c.composedText c.hovered) (a.updateModifiers c)

def update (name : Key → List UInt8) (a : App) (f : Frame) : App :=
  let a := a.drainPendingPaste
  let a := if f.updatesClicked then a.toggleWindow else a
  let a := if f.filesClicked then a.toggleWindow else a
  match f.canvas with
  | none => a
  | some c => a.remoteInput name c

end App

/-- The two threads: a frame of the window or an iteration of the session loop. -/
inductive Turn where
  | frame (f : Frame)
  | iteration
deriving DecidableEq

namespace App

def turn (name : Key → List UInt8) (a : App) : Turn → App
  | .frame f => a.update name f
  | .iteration => { a with commands := a.commands.receive }

def run (name : Key → List UInt8) (a : App) (turns : List Turn) : App := turns.foldl (turn name) a

end App

end MacVnc.Client.RemoteInput
