import MacVnc.Client.MediaLoop
import MacVnc.Media.SrtpReplay
/-!
# Published frames have an intact reference chain

While no keyframe is needed, the current decoder has been given a keyframe that
yielded a tile and after it only units of the same generation and loss epoch,
all of them decoded without an error.
-/

namespace MacVnc.Client.ReferenceChain

open MacVnc.Media.Srtp (Primitives SrtpReceiver packetIv)
open MacVnc.Media.SrtpReplay (fixture fixtureKeys fixtureReceiver)
open MacVnc.Media.Depacketize
open MacVnc.Media.Compositing
open MacVnc.Client.MediaLoop

/-- A decode that succeeded without reference or log errors. -/
structure Clean (decoded : Decoded) : Prop where
  tiles : decoded.tiles.isSome = true
  references : decoded.referenceErrors = 0
  log : decoded.logErrors = 0

/-- The decoder was created for a keyframe that yielded a tile; all that it was given belongs
to one generation and loss epoch and was decoded cleanly. -/
structure Intact (decoder : Decoder) (generation lossEpoch : Nat) : Prop where
  keyframe : ∃ au decoded rest tiles, decoder.given = (au, decoded) :: rest ∧ au.key = true ∧
    decoded.tiles = some tiles ∧ tiles ≠ []
  chain : ∀ e ∈ decoder.given, e.1.generation = generation ∧ e.1.lossEpoch = lossEpoch ∧
    Clean e.2

/-- What holds of the loop wherever it does not wait for a keyframe. -/
def Invariant (s : Session) : Prop :=
  s.needsKeyframe = false → ∃ generation, s.generation = some generation ∧
    Intact s.decoder generation s.lossEpoch

theorem Invariant.of_waiting {s : Session} (h : s.needsKeyframe = true) : Invariant s := by
  intro hneeds
  rw [h] at hneeds
  cases hneeds

def SameChain (s s' : Session) : Prop :=
  s'.needsKeyframe = s.needsKeyframe ∧ s'.generation = s.generation ∧ s'.decoder = s.decoder ∧
    s'.lossEpoch = s.lossEpoch

theorem SameChain.trans {s s' s'' : Session} (h : SameChain s s') (h' : SameChain s' s'') :
    SameChain s s'' :=
  ⟨h'.1.trans h.1, h'.2.1.trans h.2.1, h'.2.2.1.trans h.2.2.1, h'.2.2.2.trans h.2.2.2⟩

theorem SameChain.invariant {s s' : Session} (h : SameChain s s') (hs : Invariant s) :
    Invariant s' := by
  obtain ⟨hneeds, hgeneration, hdecoder, hepoch⟩ := h
  unfold Invariant at hs ⊢
  rw [hneeds, hgeneration, hdecoder, hepoch]
  exact hs

/-! ## Receiving -/

theorem receive_sameChain {P : Primitives} {ties : Nat → Key} {simulateLoss : Bool}
    {s s' : Session} {datagram : List UInt8} {now : Nat} {aus : List AccessUnit}
    (h : s.receive P ties simulateLoss datagram now = some (aus, s')) : SameChain s s' := by
  unfold Session.receive at h
  split at h
  · cases h
    exact ⟨rfl, rfl, rfl, rfl⟩
  split at h
  · cases h
  · cases h
    exact ⟨rfl, rfl, rfl, rfl⟩
  · dsimp only at h
    split at h
    · cases h
      exact ⟨rfl, rfl, rfl, rfl⟩
    · obtain ⟨pushed, _, hpushed⟩ := Option.map_eq_some_iff.mp h
      cases hpushed
      exact ⟨rfl, rfl, rfl, rfl⟩

theorem receiveAll_sameChain {P : Primitives} {ties : Nat → Key} {simulateLoss : Bool}
    {s s' : Session} {datagrams : List (List UInt8 × Nat)} {aus : List AccessUnit}
    (h : s.receiveAll P ties simulateLoss datagrams = some (aus, s')) : SameChain s s' := by
  induction datagrams generalizing s aus with
  | nil =>
      cases h
      exact ⟨rfl, rfl, rfl, rfl⟩
  | cons datagram rest ih =>
      obtain ⟨⟨first, m⟩, hfirst, hrest⟩ := Option.bind_eq_some_iff.mp h
      obtain ⟨⟨later, t⟩, hlater, heq⟩ := Option.map_eq_some_iff.mp hrest
      cases heq
      exact (receive_sameChain hfirst).trans (ih hlater)

theorem batch_sameChain {P : Primitives} {simulateLoss : Bool} {round : Round} {s s' : Session}
    {aus : List AccessUnit} (h : s.batch P simulateLoss round = some (aus, s')) :
    SameChain s s' := by
  obtain ⟨⟨pushed, m⟩, hpushed, hpoll⟩ := Option.bind_eq_some_iff.mp h
  obtain ⟨⟨events, depacketizer⟩, _, heq⟩ := Option.map_eq_some_iff.mp hpoll
  cases heq
  exact (receiveAll_sameChain hpushed).trans ⟨rfl, rfl, rfl, rfl⟩

/-! ## Decoding -/

theorem follow_current (s : Session) (au : AccessUnit) :
    (s.follow au).generation = some au.generation ∧ (s.follow au).lossEpoch = au.lossEpoch := by
  unfold Session.follow
  split
  · exact ⟨rfl, rfl⟩
  · rename_i hsame
    rw [not_or, not_not, not_not] at hsame
    exact hsame

theorem follow_invariant {s : Session} (h : Invariant s) (au : AccessUnit) :
    Invariant (s.follow au) := by
  unfold Session.follow
  split
  · exact Invariant.of_waiting rfl
  · exact h

theorem newDecoder_ok {codec : HevcDecoder} {s s' : Session}
    (h : s.newDecoder codec = .ok s') :
    s' = { s with
      decoder := { number := s.decoders, given := [] }
      decoders := s.decoders + 1 } := by
  unfold Session.newDecoder at h
  split at h
  · exact (Except.ok.inj h).symm
  · cases h

theorem newCompositor_ok {s s' : Session} (h : s.newCompositor = .ok s') : SameChain s s' := by
  unfold Session.newCompositor at h
  split at h
  · cases h
  · cases h
    exact ⟨rfl, rfl, rfl, rfl⟩

theorem refresh_ok {codec : HevcDecoder} {s s' : Session} (h : s.refresh codec = .ok s') :
    s'.needsKeyframe = s.needsKeyframe ∧ s'.generation = s.generation ∧
      s'.lossEpoch = s.lossEpoch ∧
      (if s.needsKeyframe then s'.decoder.given = [] else s'.decoder = s.decoder) := by
  unfold Session.refresh at h
  by_cases hneeds : s.needsKeyframe = true
  · rw [if_pos hneeds] at h ⊢
    cases hdecoder : s.newDecoder codec with
    | error stop =>
        rw [hdecoder] at h
        cases h
    | ok m =>
        rw [hdecoder] at h
        obtain ⟨hneeds', hgeneration, hdecoder', hepoch⟩ := newCompositor_ok h
        rw [newDecoder_ok hdecoder] at hneeds' hgeneration hdecoder' hepoch
        exact ⟨hneeds', hgeneration, hepoch, congrArg Decoder.given hdecoder'⟩
  · rw [if_neg hneeds] at h ⊢
    cases h
    exact ⟨rfl, rfl, rfl, rfl⟩

theorem draw_sameChain {s s' : Session} {tiles : List DecodedTile} (h : s.draw tiles = .ok s') :
    SameChain s s' := by
  induction tiles generalizing s with
  | nil =>
      cases h
      exact ⟨rfl, rfl, rfl, rfl⟩
  | cons tile rest ih =>
      unfold Session.draw at h
      split at h
      · cases h
      · cases h
      · have hrest := ih h
        exact SameChain.trans ⟨rfl, rfl, rfl, rfl⟩ hrest

theorem Intact.snoc {decoder decoder' : Decoder} {generation lossEpoch : Nat} {au : AccessUnit}
    {decoded : Decoded} (h : Intact decoder generation lossEpoch)
    (hgiven : decoder'.given = decoder.given ++ [(au, decoded)])
    (hgeneration : au.generation = generation) (hepoch : au.lossEpoch = lossEpoch)
    (hclean : Clean decoded) : Intact decoder' generation lossEpoch := by
  constructor
  · obtain ⟨first, result, rest, tiles, hfirst, hkey⟩ := h.keyframe
    refine ⟨first, result, rest ++ [(au, decoded)], tiles, ?_, hkey⟩
    rw [hgiven, hfirst, List.cons_append]
  · intro e he
    rw [hgiven, List.mem_append, List.mem_singleton] at he
    rcases he with he | rfl
    · exact h.chain e he
    · exact ⟨hgeneration, hepoch, hclean⟩

theorem Intact.single {decoder : Decoder} {au : AccessUnit} {decoded : Decoded}
    {tiles : List DecodedTile} (hgiven : decoder.given = [(au, decoded)]) (hkey : au.key = true)
    (htiles : decoded.tiles = some tiles) (hsome : tiles ≠ []) (hclean : Clean decoded) :
    Intact decoder au.generation au.lossEpoch := by
  constructor
  · exact ⟨au, decoded, [], tiles, hgiven, hkey, htiles, hsome⟩
  · intro e he
    rw [hgiven, List.mem_singleton] at he
    rw [he]
    exact ⟨rfl, rfl, hclean⟩

/-- The decoder that is about to be given `au`: it is new, or its chain is intact. -/
structure Ready (s : Session) (au : AccessUnit) : Prop where
  generation : s.generation = some au.generation
  lossEpoch : s.lossEpoch = au.lossEpoch
  decoder : if s.needsKeyframe then s.decoder.given = [] else
    Intact s.decoder au.generation au.lossEpoch

theorem decode_invariant {codec : HevcDecoder} {s s' : Session} {au : AccessUnit}
    (hready : Ready s au) (h : s.decode codec au = .ok s') : Invariant s' := by
  unfold Session.decode Session.accept at h
  dsimp only at h
  split at h
  · cases h
    exact Invariant.of_waiting rfl
  rename_i tiles htiles
  split at h
  · cases h
    exact Invariant.of_waiting rfl
  rename_i herrors
  have hclean : Clean (codec.decode s.decoder au) := by
    constructor
    · rw [htiles]
      rfl
    · omega
    · omega
  split at h
  · rename_i hkeyframe
    apply (draw_sameChain h).invariant
    intro _
    refine ⟨au.generation, hready.generation, ?_⟩
    show Intact _ au.generation s.lossEpoch
    rw [hready.lossEpoch]
    by_cases hneeds : s.needsKeyframe = true
    · have hnew := hready.decoder
      rw [if_pos hneeds] at hnew
      have hgiven : s.decoder.given ++ [(au, codec.decode s.decoder au)] =
          [(au, codec.decode s.decoder au)] := by rw [hnew, List.nil_append]
      exact Intact.single hgiven hkeyframe.1 htiles hkeyframe.2 hclean
    · have hintact := hready.decoder
      rw [if_neg hneeds] at hintact
      exact hintact.snoc rfl rfl rfl hclean
  · apply (draw_sameChain h).invariant
    intro hneeds
    refine ⟨au.generation, hready.generation, ?_⟩
    show Intact _ au.generation s.lossEpoch
    rw [hready.lossEpoch]
    have hintact := hready.decoder
    rw [if_neg (by rw [show s.needsKeyframe = false from hneeds]; exact Bool.false_ne_true)]
      at hintact
    exact hintact.snoc rfl rfl rfl hclean

theorem present_invariant {codec : HevcDecoder} {s s' : Session} {au : AccessUnit}
    (hs : Invariant s) (h : s.present codec au = .ok s') : Invariant s' := by
  have hfollow := follow_invariant hs au
  obtain ⟨hgeneration, hepoch⟩ := follow_current s au
  unfold Session.present at h
  dsimp only at h
  split at h
  · cases h
    exact hfollow
  cases hrefresh : (s.follow au).refresh codec with
  | error stop =>
      rw [hrefresh] at h
      cases h
  | ok fresh =>
      rw [hrefresh] at h
      obtain ⟨hneeds, hgeneration', hepoch', hdecoder⟩ := refresh_ok hrefresh
      apply decode_invariant _ h
      constructor
      · rw [hgeneration', hgeneration]
      · rw [hepoch', hepoch]
      · rw [hneeds]
        by_cases hwaiting : (s.follow au).needsKeyframe = true
        · rw [if_pos hwaiting] at hdecoder ⊢
          exact hdecoder
        · rw [if_neg hwaiting] at hdecoder ⊢
          rw [hdecoder]
          obtain ⟨generation, hsome, hintact⟩ := hfollow (Bool.eq_false_of_not_eq_true hwaiting)
          rw [hgeneration, Option.some.injEq] at hsome
          rw [hsome, ← hepoch]
          exact hintact

theorem presentAll_invariant {codec : HevcDecoder} {cancelledAt : Nat → Bool} {index : Nat}
    {s s' : Session} {aus : List AccessUnit} (hs : Invariant s)
    (h : s.presentAll codec cancelledAt index aus = .ok s') : Invariant s' := by
  induction aus generalizing index s with
  | nil =>
      cases h
      exact hs
  | cons au rest ih =>
      unfold Session.presentAll at h
      split at h
      · cases h
      cases hpresent : s.present codec au with
      | error stop =>
          rw [hpresent] at h
          cases h
      | ok m =>
          rw [hpresent] at h
          exact ih (present_invariant hs hpresent) h

/-! ## Publishing -/

theorem start_invariant {codec : HevcDecoder} {connection : Connection}
    {receiver : SrtpReceiver} {s : Session}
    (h : Session.start codec connection receiver = .ok s) : Invariant s := by
  unfold Session.start at h
  split at h
  · dsimp only at h
    split at h
    · cases h
    · cases h
      exact Invariant.of_waiting rfl
  · cases h

theorem reconfigure_invariant {codec : HevcDecoder} {connection : Connection} {s s' : Session}
    (hs : Invariant s) (h : s.reconfigure codec connection = .ok s') : Invariant s' := by
  unfold Session.reconfigure at h
  split at h
  · dsimp only at h
    split at h
    · cases h
    split at h
    · cases h
    cases h
    exact Invariant.of_waiting rfl
  · cases h
    exact hs

theorem settle_invariant {s : Session} (hs : Invariant s) :
    Invariant s.settle ∧ s.settle.lossEpoch = s.settle.depacketizer.lossEpoch := by
  unfold Session.settle
  split
  · exact ⟨Invariant.of_waiting rfl, rfl⟩
  · rename_i hsame
    exact ⟨hs, not_not.mp hsame⟩

/-- The chain behind a frame is intact up to the last loss that is known. -/
def Publication.Intact (p : Publication) : Prop :=
  ∃ generation, p.session.generation = some generation ∧
    ReferenceChain.Intact p.session.decoder generation p.session.depacketizer.lossEpoch

theorem publish_intact (cancelled : Bool) {s : Session} (hs : Invariant s)
    (hepoch : s.lossEpoch = s.depacketizer.lossEpoch) :
    (∀ p ∈ (s.publish cancelled).1, Publication.Intact p) ∧
      Invariant (s.publish cancelled).2 := by
  unfold Session.publish
  split
  · rename_i hpublished
    refine ⟨?_, SameChain.invariant ⟨rfl, rfl, rfl, rfl⟩ hs⟩
    intro p hp
    cases hp
    have hneeds : s.needsKeyframe = false := by simpa using hpublished.2.1
    obtain ⟨generation, hgeneration, hintact⟩ := hs hneeds
    rw [hepoch] at hintact
    exact ⟨generation, hgeneration, hintact⟩
  · exact ⟨fun p hp => (by cases hp), hs⟩

theorem iterate_intact {codec : HevcDecoder} {P : Primitives} {simulateLoss : Bool}
    {s s' : Session} {round : Round} {published : Option Publication} (hs : Invariant s)
    (h : s.iterate codec P simulateLoss round = .ok (published, s')) :
    (∀ p ∈ published, Publication.Intact p) ∧ Invariant s' := by
  unfold Session.iterate at h
  split at h
  · cases h
  cases hreconfigure : s.reconfigure codec round.connection with
  | error stop =>
      rw [hreconfigure] at h
      cases h
  | ok configured =>
      rw [hreconfigure] at h
      dsimp only at h
      cases hbatch : configured.batch P simulateLoss round with
      | none =>
          rw [hbatch] at h
          cases h
      | some received =>
          rw [hbatch] at h
          dsimp only at h
          cases hpresent : received.2.presentAll codec round.cancelledAt 0 received.1 with
          | error stop =>
              rw [hpresent] at h
              cases h
          | ok presented =>
              rw [hpresent] at h
              have hconfigured := reconfigure_invariant hs hreconfigure
              have hreceived := (batch_sameChain hbatch).invariant hconfigured
              have hpresented := presentAll_invariant hreceived hpresent
              obtain ⟨hsettled, hepoch⟩ := settle_invariant hpresented
              have hpublish := publish_intact round.cancelledAfter hsettled hepoch
              rw [Except.ok.inj h] at hpublish
              exact hpublish

theorem run_intact {codec : HevcDecoder} {P : Primitives} {simulateLoss : Bool} {s : Session}
    (hs : Invariant s) (rounds : List Round) :
    ∀ p ∈ (s.run codec P simulateLoss rounds).1, Publication.Intact p := by
  induction rounds generalizing s with
  | nil =>
      intro p hp
      cases hp
  | cons round rest ih =>
      intro p hp
      unfold Session.run at hp
      cases hiterate : s.iterate codec P simulateLoss round with
      | error stop =>
          rw [hiterate] at hp
          cases hp
      | ok result =>
          rw [hiterate] at hp
          obtain ⟨hpublished, hnext⟩ := iterate_intact hs hiterate
          rcases List.mem_append.mp hp with hp | hp
          · exact hpublished p (Option.mem_toList.mp hp)
          · exact ih hnext p hp

/-- In every session, whatever the decoder answers, the chain behind every published frame is
intact up to the last loss that the depacketizer knows. -/
theorem published_intact (codec : HevcDecoder) (P : Primitives) (simulateLoss : Bool)
    (connection : Connection) (receiver : SrtpReceiver) (rounds : List Round)
    (p : Publication)
    (h : p ∈ (runSession codec P simulateLoss connection receiver rounds).1) :
    ∃ generation, p.session.generation = some generation ∧
      Intact p.session.decoder generation p.session.depacketizer.lossEpoch := by
  unfold runSession at h
  cases hstart : Session.start codec connection receiver with
  | error stop =>
      rw [hstart] at h
      cases h
  | ok s =>
      rw [hstart] at h
      exact run_intact (start_invariant hstart) rounds p h

/-- The datagram of a keyframe of five bytes, sent by source 7. -/
def fixtureDatagram : List UInt8 :=
  [128, 224, 0, 0, 0, 0, 0, 1, 0, 0, 0, 7, 245, 216, 109, 191, 67,
    45, 137, 6, 135, 182, 115, 248, 187, 25, 248]

/-- AES-256-CTR and HMAC-SHA1 on the inputs of this datagram too. -/
def fixturePrimitives : Primitives :=
  { keystream := fun key iv i =>
      if key = fixtureKeys.cipher ∧ iv = packetIv fixtureKeys 7 0 then
        [211, 217, 109, 191, 195].getD i 0
      else fixture.keystream key iv i
    hmacSha1 := fun key message =>
      if key = fixtureKeys.auth ∧ message = fixtureDatagram.take 17 ++ [0, 0, 0, 0] then
        #v[45, 137, 6, 135, 182, 115, 248, 187, 25, 248,
          211, 9, 49, 149, 40, 200, 132, 25, 105, 161]
      else fixture.hmacSha1 key message }

def fixtureTile : DecodedTile :=
  { tile := 0, frame := { width := 1, height := 1, pixels := [1, 2, 3, 255] } }

/-- Every access unit yields the tile. -/
def fixtureCodec : HevcDecoder :=
  { new := fun _ => true
    decode := fun _ _ => { tiles := some [fixtureTile], referenceErrors := 0, logErrors := 0 } }

def fixtureConnection : Connection :=
  { width := 1, height := 1, tileCount := none, mediaReoffers := 0 }

def fixtureRound (datagrams : List (List UInt8 × Nat)) (now : Nat) : Round :=
  { connection := fixtureConnection
    datagrams
    polledAt := now
    ties := fun _ => (0, 0)
    cancelled := false
    cancelledAt := fun _ => false
    cancelledAfter := false }

/-- The keyframe is published once the repair window has passed. -/
theorem published_intact_fixture :
    ∃ p ∈ (runSession fixtureCodec fixturePrimitives false fixtureConnection fixtureReceiver
      [fixtureRound [(fixtureDatagram, 0)] 0, fixtureRound [] 100]).1,
      p.frame = fixtureTile.frame ∧
      ∃ generation, p.session.generation = some generation ∧
        Intact p.session.decoder generation p.session.depacketizer.lossEpoch := by
  have hframes : (runSession fixtureCodec fixturePrimitives false fixtureConnection
      fixtureReceiver [fixtureRound [(fixtureDatagram, 0)] 0, fixtureRound [] 100]).1.map
        Publication.frame = [fixtureTile.frame] := by decide +kernel
  have hmem := List.mem_singleton_self fixtureTile.frame
  rw [← hframes] at hmem
  obtain ⟨p, hp, hframe⟩ := List.mem_map.mp hmem
  exact ⟨p, hp, hframe, published_intact _ _ _ _ _ _ p hp⟩

end MacVnc.Client.ReferenceChain
