import MacVnc.Lib.BoundedChannel
import MacVnc.Lib.Text
/-!
# Commands to the backend

The channel between the window and the session thread
(`macvnc-app/src/backend.rs`): a sender that closes the session rather than
lose a command, and the batch that an iteration of the session loop takes.
-/

namespace MacVnc.Client.Commands

open MacVnc.Lib.BoundedChannel
open MacVnc.Lib (Text)
open MacVnc.Lib.Text

structure ConnectOptions where
  host : Text
  port : UInt16
  username : Text
  password : Text
  width : UInt16
  height : UInt16
  fps : UInt16
deriving DecidableEq

inductive Command where
  | connect (options : ConnectOptions)
  | disconnect
  | pointer (x y : UInt16) (buttons : UInt8)
  | key (keysym : UInt32) (down : Bool)
  | clipboard (text : Text)
deriving DecidableEq

def commandQueueCapacity : Nat := 256

structure CommandSender where
  channel : Channel Command
  cancelled : Bool
deriving DecidableEq

namespace CommandSender

def send (s : CommandSender) (command : Command) : CommandSender :=
  let cancelled := match command with
    | .connect _ => false
    | .disconnect => true
    | _ => s.cancelled
  { channel := s.channel.offer commandQueueCapacity command
    -- A dropped key release could latch remote input: the session is closed instead.
    cancelled := cancelled || decide (commandQueueCapacity ≤ s.channel.queue.length) }

def sendAll (s : CommandSender) (commands : List Command) : CommandSender := commands.foldl send s

/-- The commands that one iteration of the session loop takes. -/
def receive (s : CommandSender) : CommandSender :=
  if s.cancelled then s else { s with channel := s.channel.take 256 }

theorem channel_sendAll (s : CommandSender) (commands : List Command) :
    (s.sendAll commands).channel = s.channel.offerAll commandQueueCapacity commands := by
  induction commands generalizing s with
  | nil => rfl
  | cons command rest ih => exact ih (s.send command)

/-- Input for the Mac, as opposed to commands that begin or end a session. -/
def isInput : Command → Bool
  | .connect _ => false
  | .disconnect => false
  | _ => true

theorem cancelled_sendAll {s : CommandSender} {commands : List Command}
    (hinput : ∀ command ∈ commands, isInput command = true)
    (hroom : s.channel.queue.length + commands.length ≤ commandQueueCapacity) :
    (s.sendAll commands).cancelled = s.cancelled := by
  induction commands generalizing s with
  | nil => rfl
  | cons command rest ih =>
      rw [List.length_cons] at hroom
      have hfits : s.channel.queue.length < commandQueueCapacity := by omega
      have hfirst : (s.send command).cancelled = s.cancelled := by
        have hfull : decide (commandQueueCapacity ≤ s.channel.queue.length) = false :=
          decide_eq_false (by omega)
        have hcommand := hinput command (by simp)
        unfold send
        rw [hfull]
        cases command with
        | connect => cases hcommand
        | disconnect => cases hcommand
        | _ => exact Bool.or_false _
      have hqueue : (s.send command).channel.queue.length = s.channel.queue.length + 1 := by
        show (s.channel.offer commandQueueCapacity command).queue.length = _
        rw [Channel.offer_of_room hfits]
        simp
      show ((s.send command).sendAll rest).cancelled = s.cancelled
      rw [ih (fun c hc => hinput c (List.mem_cons_of_mem _ hc)) (by omega), hfirst]

theorem channel_receive (s : CommandSender) :
    s.receive.channel.accepted = s.channel.accepted ∧
      s.receive.channel.refused = s.channel.refused := by
  unfold receive
  split
  · exact ⟨rfl, rfl⟩
  · exact ⟨Channel.accepted_take _ _, Channel.refused_take _ _⟩

end CommandSender

end MacVnc.Client.Commands
