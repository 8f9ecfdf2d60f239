import MacVnc.Client.MediaLoop
import MacVnc.Media.DepacketizeTrace
import MacVnc.Media.SrtpReplay
/-!
# The media loop does not panic

No datagram, no answer of the decoder and no change of the screen makes the loop
index out of range or underflow: the receiver, the depacketizer and the
compositor each keep their invariant.
-/

namespace MacVnc.Client.LoopSafety

open MacVnc.Media
open MacVnc.Media.Srtp (Primitives SrtpReceiver)
open MacVnc.Media.SrtpReplay (Bounded unprotect_cases)
open MacVnc.Media.Depacketize
open MacVnc.Media.DepacketizeTrace
open MacVnc.Media.Compositing
open MacVnc.Client.MediaLoop

structure Sound (s : Session) : Prop where
  receiver : Bounded s.receiver
  depacketizer : Safe s.depacketizer
  compositor : s.compositor.Valid

/-- A part of an iteration ends in a sound session, or for a reason other than a panic. -/
def Ends (result : Except Stop Session) : Prop :=
  result ≠ .error .panicked ∧ ∀ s, result = .ok s → Sound s

theorem Ends.ok {s : Session} (h : Sound s) : Ends (.ok s) :=
  ⟨fun hpanic => (by cases hpanic), fun _ hs => Except.ok.inj hs ▸ h⟩

theorem Ends.error {stop : Stop} (h : stop ≠ .panicked) : Ends (.error stop) :=
  ⟨fun hpanic => h (Except.error.inj hpanic), fun _ hs => (by cases hs)⟩

theorem Ends.stop_ne {result : Except Stop Session} (h : Ends result) {stop : Stop}
    (hstop : result = .error stop) : stop ≠ .panicked :=
  fun hpanic => h.1 (hpanic ▸ hstop)

theorem Ends.stop {result : Except Stop Session} (h : Ends result) {stop : Stop}
    (hstop : result = .error stop) : Ends (.error stop) := Ends.error (h.stop_ne hstop)

/-! ## Receiving -/

theorem receive_sound (P : Primitives) (ties : Nat → Key) (simulateLoss : Bool) {s : Session}
    (h : Sound s) (datagram : List UInt8) (now : Nat) :
    ∃ aus s', s.receive P ties simulateLoss datagram now = some (aus, s') ∧ Sound s' := by
  unfold Session.receive
  split
  · exact ⟨_, _, rfl, h⟩
  rcases unprotect_cases P h.receiver datagram with hreject | ⟨p, receiver, haccept, ha⟩
  · rw [hreject]
    exact ⟨_, _, rfl, h.receiver, h.depacketizer, h.compositor⟩
  · have hbounded := h.receiver.accept ha
    rw [haccept]
    dsimp only
    split
    · exact ⟨_, _, rfl, hbounded, h.depacketizer, h.compositor⟩
    · obtain ⟨events, depacketizer, hpush, _, hsafe, _⟩ := push_run ties h.depacketizer p now
      rw [hpush]
      exact ⟨_, _, rfl, hbounded, hsafe, h.compositor⟩

theorem receiveAll_sound (P : Primitives) (ties : Nat → Key) (simulateLoss : Bool) {s : Session}
    (h : Sound s) (datagrams : List (List UInt8 × Nat)) :
    ∃ aus s', s.receiveAll P ties simulateLoss datagrams = some (aus, s') ∧ Sound s' := by
  induction datagrams generalizing s with
  | nil => exact ⟨_, _, rfl, h⟩
  | cons datagram rest ih =>
      obtain ⟨first, m, hfirst, hm⟩ :=
        receive_sound P ties simulateLoss h datagram.1 datagram.2
      obtain ⟨later, s', hlater, hs'⟩ := ih hm
      unfold Session.receiveAll
      rw [hfirst, Option.bind_some]
      dsimp only
      rw [hlater]
      exact ⟨_, _, rfl, hs'⟩

theorem batch_sound (P : Primitives) (simulateLoss : Bool) (round : Round) {s : Session}
    (h : Sound s) : ∃ aus s', s.batch P simulateLoss round = some (aus, s') ∧ Sound s' := by
  obtain ⟨pushed, m, hpushed, hm⟩ :=
    receiveAll_sound P round.ties simulateLoss h (round.datagrams.take 512)
  obtain ⟨events, depacketizer, hpoll, _, hsafe, _⟩ := poll_run round.polledAt hm.depacketizer
  unfold Session.batch
  rw [hpushed, Option.bind_some]
  dsimp only
  rw [hpoll]
  exact ⟨_, _, rfl, hm.receiver, hsafe, hm.compositor⟩

/-! ## Decoding -/

theorem newDecoder_ends (codec : HevcDecoder) {s : Session} (h : Sound s) :
    Ends (s.newDecoder codec) := by
  unfold Session.newDecoder
  split
  · exact Ends.ok ⟨h.receiver, h.depacketizer, h.compositor⟩
  · exact Ends.error Stop.noConfusion

theorem newCompositor_ends {s : Session} (h : Sound s) : Ends s.newCompositor := by
  unfold Session.newCompositor
  split
  · exact Ends.error Stop.noConfusion
  · rename_i compositor hnew
    exact Ends.ok ⟨h.receiver, h.depacketizer, valid_new hnew⟩

theorem follow_sound {s : Session} (h : Sound s) (au : AccessUnit) : Sound (s.follow au) := by
  unfold Session.follow
  split
  · exact ⟨h.receiver, h.depacketizer, h.compositor⟩
  · exact h

theorem refresh_ends (codec : HevcDecoder) {s : Session} (h : Sound s) :
    Ends (s.refresh codec) := by
  unfold Session.refresh
  split
  · have hdecoder := newDecoder_ends codec h
    split
    · rename_i stop hstop
      exact hdecoder.stop hstop
    · rename_i s' hs'
      exact newCompositor_ends (hdecoder.2 s' hs')
  · exact Ends.ok h

theorem draw_ends {s : Session} (h : Sound s) (tiles : List DecodedTile) :
    Ends (s.draw tiles) := by
  induction tiles generalizing s with
  | nil => exact Ends.ok h
  | cons tile rest ih =>
      obtain ⟨result, hupdate, hvalid⟩ := update_valid h.compositor tile
      unfold Session.draw
      rw [hupdate]
      cases result with
      | error e => exact Ends.error Stop.noConfusion
      | ok drawn => exact ih ⟨h.receiver, h.depacketizer, hvalid drawn.1 drawn.2 rfl⟩

theorem decode_ends (codec : HevcDecoder) {s : Session} (h : Sound s) (au : AccessUnit) :
    Ends (s.decode codec au) := by
  unfold Session.decode Session.accept
  dsimp only
  split
  · exact Ends.ok ⟨h.receiver, h.depacketizer, h.compositor⟩
  split
  · exact Ends.ok ⟨h.receiver, h.depacketizer, h.compositor⟩
  split
  · apply draw_ends
    exact ⟨h.receiver, h.depacketizer, h.compositor⟩
  · apply draw_ends
    exact ⟨h.receiver, h.depacketizer, h.compositor⟩

theorem present_ends (codec : HevcDecoder) {s : Session} (h : Sound s) (au : AccessUnit) :
    Ends (s.present codec au) := by
  have hfollow := follow_sound h au
  unfold Session.present
  dsimp only
  split
  · exact Ends.ok hfollow
  have hrefresh := refresh_ends codec hfollow
  split
  · rename_i stop hstop
    exact hrefresh.stop hstop
  · rename_i s' hs'
    exact decode_ends codec (hrefresh.2 s' hs') au

theorem presentAll_ends (codec : HevcDecoder) (cancelledAt : Nat → Bool) (index : Nat)
    {s : Session} (h : Sound s) (aus : List AccessUnit) :
    Ends (s.presentAll codec cancelledAt index aus) := by
  induction aus generalizing index s with
  | nil => exact Ends.ok h
  | cons au rest ih =>
      have hpresent := present_ends codec h au
      unfold Session.presentAll
      split
      · exact Ends.error Stop.noConfusion
      split
      · rename_i stop hstop
        exact hpresent.stop hstop
      · rename_i s' hs'
        exact ih (index + 1) (hpresent.2 s' hs')

/-! ## The loop -/

theorem start_ends (codec : HevcDecoder) (connection : Connection) {receiver : SrtpReceiver}
    (h : Bounded receiver) : Ends (Session.start codec connection receiver) := by
  unfold Session.start
  split
  · dsimp only
    split
    · exact Ends.error Stop.noConfusion
    · rename_i compositor hnew
      exact Ends.ok ⟨h, safe_new _, valid_new hnew⟩
  · exact Ends.error Stop.noConfusion

theorem reconfigure_ends (codec : HevcDecoder) (connection : Connection) {s : Session}
    (h : Sound s) : Ends (s.reconfigure codec connection) := by
  unfold Session.reconfigure
  split
  · have hresized : Sound
        { s with
          width := connection.width
          height := connection.height
          tiles := connection.tileCount.getD 1 } := ⟨h.receiver, h.depacketizer, h.compositor⟩
    have hcompositor := newCompositor_ends hresized
    dsimp only
    split
    · rename_i stop hstop
      exact hcompositor.stop hstop
    rename_i m hm
    have hdecoder := newDecoder_ends codec (hcompositor.2 m hm)
    split
    · rename_i stop hstop
      exact hdecoder.stop hstop
    rename_i s' hs'
    have hsound := hdecoder.2 s' hs'
    exact Ends.ok ⟨hsound.receiver, safe_new _, hsound.compositor⟩
  · exact Ends.ok h

theorem publish_sound (cancelled : Bool) {s : Session} (h : Sound s) :
    Sound (s.settle.publish cancelled).2 := by
  have hsettle : Sound s.settle := by
    unfold Session.settle
    split
    · exact ⟨h.receiver, h.depacketizer, h.compositor⟩
    · exact h
  unfold Session.publish
  split
  · exact ⟨hsettle.receiver, hsettle.depacketizer, hsettle.compositor⟩
  · exact hsettle

theorem iterate_sound (codec : HevcDecoder) (P : Primitives) (simulateLoss : Bool) {s : Session}
    (h : Sound s) (round : Round) :
    s.iterate codec P simulateLoss round ≠ .error .panicked ∧
      ∀ published s', s.iterate codec P simulateLoss round = .ok (published, s') → Sound s' := by
  have hreconfigure := reconfigure_ends codec round.connection h
  unfold Session.iterate
  split
  · exact ⟨fun hpanic => (by cases hpanic), fun _ _ hok => (by cases hok)⟩
  split
  · rename_i stop hstop
    exact ⟨fun hpanic => hreconfigure.stop_ne hstop (Except.error.inj hpanic),
      fun _ _ hok => (by cases hok)⟩
  rename_i configured hconfigured
  obtain ⟨aus, received, hbatch, hreceived⟩ :=
    batch_sound P simulateLoss round (hreconfigure.2 configured hconfigured)
  have hpresent := presentAll_ends codec round.cancelledAt 0 hreceived aus
  rw [hbatch]
  dsimp only
  split
  · rename_i stop hstop
    exact ⟨fun hpanic => hpresent.stop_ne hstop (Except.error.inj hpanic),
      fun _ _ hok => (by cases hok)⟩
  rename_i presented hpresented
  refine ⟨fun hpanic => (by cases hpanic), ?_⟩
  intro published s' hok
  have hsound := publish_sound round.cancelledAfter (hpresent.2 presented hpresented)
  rw [Except.ok.inj hok] at hsound
  exact hsound

theorem run_sound (codec : HevcDecoder) (P : Primitives) (simulateLoss : Bool) {s : Session}
    (h : Sound s) (rounds : List Round) :
    (s.run codec P simulateLoss rounds).2 ≠ some .panicked := by
  induction rounds generalizing s with
  | nil => exact fun hpanic => (by cases hpanic)
  | cons round rest ih =>
      obtain ⟨hgoes, hnext⟩ := iterate_sound codec P simulateLoss h round
      unfold Session.run
      split
      · rename_i stop hstop
        intro hpanic
        cases hpanic
        exact hgoes hstop
      · rename_i published s' hs'
        exact ih (hnext published s' hs')

/-- Whatever arrives and whatever the decoder answers, the loop does not panic. -/
theorem runSession_never_panics (codec : HevcDecoder) (P : Primitives) (simulateLoss : Bool)
    (connection : Connection) {blob : List UInt8} {receiver : SrtpReceiver}
    (hreceiver : SrtpReceiver.new P blob = .ok receiver) (rounds : List Round) :
    (runSession codec P simulateLoss connection receiver rounds).2 ≠ some .panicked := by
  have hstart := start_ends codec connection (SrtpReplay.Session.invariant_start hreceiver).bounded
  unfold runSession
  split
  · rename_i stop hstop
    intro hpanic
    cases hpanic
    exact hstart.1 hstop
  · rename_i s hs
    exact run_sound codec P simulateLoss (hstart.2 s hs) rounds

end MacVnc.Client.LoopSafety
