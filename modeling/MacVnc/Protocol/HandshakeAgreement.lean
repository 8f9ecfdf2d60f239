import MacVnc.Protocol.ControlSend
import MacVnc.Protocol.Rekey
/-!
# Agreement with the Mac

A Mac that plays its part of the handshake: whatever it chooses, the handshake
succeeds, both ends hold the same key, the same records and the same media keys, and what
the Mac sends next is still to be read.
-/

namespace MacVnc.Protocol.Handshake

open MacVnc.Lib
open MacVnc.Lib.Bytes
open MacVnc.Lib.Interaction
open MacVnc.Lib.Interaction.Dialogue
open MacVnc.Lib.Text
open MacVnc.Protocol.Authenticate
open MacVnc.Protocol.MediaOffer
open MacVnc.Protocol.Channel (Drained Expects drainLoop_expects)
open MacVnc.Protocol.ControlSend (InStep completed_all)
open MacVnc.Protocol.Record

/-! ## The Mac -/

structure Mac where
  banner : List UInt8
  types : List UInt8
  generator : UInt16
  prime : List UInt8
  secret : Nat
  width : UInt16
  height : UInt16
  pixelFormat : List UInt8
  name : List UInt8
  key : Key
  iv : Block
  reserved : List UInt8
  /-- The messages around the wrapped key. -/
  preamble : List UInt8 → List UInt8
  first : List UInt8
  later : List UInt8
  isBanner : banner.length = 12 ∧ banner.take 4 = ascii "RFB ".toList ∧ banner.getD 11 0 = 10
  offersApple : 30 ∈ types ∧ types.length < 256
  keySize : 64 ≤ prime.length ∧ prime.length ≤ 512
  accepted : AcceptedGroup (ofBigEndian prime) generator.toNat
    (ofBigEndian (serverPublic generator prime secret))
  hasFormat : pixelFormat.length = 16
  nameSize : name.length ≤ 65536
  reserves : reserved.length = 4
  isPreamble : ∀ blob, blob.length = 36 → Preamble (preamble blob) blob
  firstSize : first.length ≤ 65498

namespace Mac

def greeting (m : Mac) : List UInt8 := m.banner ++ (UInt8.ofNat m.types.length :: m.types)

def parameters (m : Mac) : List UInt8 :=
  be16 m.generator.toNat ++ (be16 m.prime.length ++ (m.prime ++
    serverPublic m.generator m.prime m.secret))

/-- The desktop after a response that it accepts. -/
def desktop (m : Mac) : List UInt8 :=
  be16 m.width.toNat ++ (be16 m.height.toNat ++ (m.pixelFormat ++ (be32 m.name.length ++ m.name)))

/-- The control key and its initial vector under a key. -/
def blob (m : Mac) (P : Primitives) (wrapKey : Key) : List UInt8 :=
  m.reserved ++ ((P.auth.aes.encryptBlock wrapKey m.key).toList ++
    (P.auth.aes.encryptBlock wrapKey m.iv).toList)

/-- The record layer of the Mac and its first record. -/
def opening (m : Mac) (P : Primitives) : List UInt8 × Block :=
  sealRecord P.record m.key 0 m.iv m.first

def layer (m : Mac) (P : Primitives) : RecordLayer :=
  ((RecordLayer.new m.key m.iv).encrypt P.record m.first).2

/-- What the Mac sends to a client with this response. -/
def stream (m : Mac) (P : Primitives) (response : List UInt8) : List UInt8 :=
  m.greeting ++ (m.parameters ++ (be32 0 ++ (m.desktop ++
    (m.preamble (m.blob P (serverKey P.auth m.prime m.secret response)) ++
      (be16 (recordSize m.first.length) ++ ((m.opening P).1 ++ m.later))))))

end Mac

/-! ## The parts of the dialogue -/

/-- A run that ends with a result. -/
def ending {α : Type} (a : α) (emitted : List Output) (rest : List UInt8) :
    Ending Output HandshakeError α (List UInt8) := { result := .ok a, emitted, rest }

theorem ensureText_bind {α : Type} {p : Prop} [Decidable p] (hp : p) (message : String)
    (f : Unit → Talk α) : (ensureText p message >>= f) = f () := ensure_bind hp _ f

theorem ofGuarded_bind {α β : Type} (a : α) (f : α → Talk β) :
    (ofGuarded (pure a) >>= f) = f a := rfl

theorem checked_bind {α β : Type} (a : α) (f : α → Talk β) : (checked (some a) >>= f) = f a := rfl

theorem run_read16_be16 {α : Type} {n : Nat} (h : n < 2 ^ 16) (rest : List UInt8)
    (f : Nat → Talk α) : (read16 >>= f).run (be16 n ++ rest) = (f n).run rest := by
  rw [be16, run_read16 (length_toBigEndian 2 n), ofBigEndian_toBigEndian h]

theorem run_read32_be32 {α : Type} {n : Nat} (h : n < 2 ^ 32) (rest : List UInt8)
    (f : Nat → Talk α) : (read32 >>= f).run (be32 n ++ rest) = (f n).run rest := by
  have hrun : (read32 >>= f).run (be32 n ++ rest) = (f (ofBigEndian (be32 n))).run rest :=
    run_receive (length_toBigEndian 4 n) rest fun b => f (ofBigEndian b)
  rw [hrun, be32, ofBigEndian_toBigEndian h]

section Parts

variable (m : Mac) (rest : List UInt8)

theorem run_version : version.run (m.greeting ++ rest) =
    ending m.types [.tcp clientVersion] rest := by
  have hcount : (UInt8.ofNat m.types.length).toNat = m.types.length :=
    UInt8.toNat_ofNat_of_lt' m.offersApple.2
  have hpos : 0 < m.types.length := List.length_pos_of_mem m.offersApple.1
  have htypes : (readN m.types.length).run (m.types ++ rest) = ending m.types [] rest :=
    run_receive rfl rest pure
  rw [Mac.greeting, List.append_assoc, version, run_receive m.isBanner.1,
    ensureText_bind m.isBanner.2, run_say, List.cons_append, run_readByte]
  dsimp only
  rw [List.getD_cons_zero, hcount, ensureText_bind hpos, htypes]
  rfl

variable {P : Primitives} {o : ConnectOptions} {env : Environment}

theorem run_login {response : List UInt8} {wrapKey : Key}
    (h : authenticate P.auth m.generator m.prime (serverPublic m.generator m.prime m.secret)
      o.username o.password (env.exponent m.prime.length) env.padding = pure (response, wrapKey)) :
    (login P o env).run (m.greeting ++ (m.parameters ++ (be32 0 ++ rest))) =
      ending wrapKey [.tcp clientVersion, .tcp [30], .response response] rest := by
  have hsize : m.prime.length < 2 ^ 16 := Nat.lt_of_le_of_lt m.keySize.2 (by decide)
  have hpublic : (serverPublic m.generator m.prime m.secret).length = m.prime.length :=
    length_toBigEndian _ _
  unfold login
  rw [run_bind_ok (run_version m _), ensureText_bind m.offersApple.1, run_say, Mac.parameters]
  simp only [List.append_assoc]
  rw [run_read16_be16 m.generator.toNat_lt, run_read16_be16 hsize, ensureText_bind m.keySize,
    run_receive rfl, run_receive hpublic, Nat.toUInt16_eq, UInt16.ofNat_toNat, h,
    ofGuarded_bind]
  dsimp only
  rw [run_say, run_read32_be32 (by decide), ensure_bind rfl]
  rfl

theorem run_introduce {info : List UInt8} (hinfo : viewerInfo = some info) :
    introduce.run (m.desktop ++ rest) =
      ending (m.width, m.height)
        [.tcp [1], .tcp info, .tcp [0x12, 0, 0, 1, 0, 1, 0, 1, 0, 0, 0, 1], .tcp encodings]
        rest := by
  have hname : m.name.length < 2 ^ 32 := Nat.lt_of_le_of_lt m.nameSize (by decide)
  unfold introduce Mac.desktop
  simp only [List.append_assoc]
  rw [run_say, run_read16_be16 m.width.toNat_lt, run_read16_be16 m.height.toNat_lt,
    run_receive m.hasFormat, run_read32_be32 hname, ensureText_bind m.nameSize, run_receive rfl,
    hinfo, checked_bind, run_say, run_say, run_say]
  simp only [Nat.toUInt16_eq, UInt16.ofNat_toNat]
  rfl

theorem unwrap_bind (wrapKey : Key) (block : Block) {α : Type} (f : Block → Talk α) :
    (unwrap P wrapKey (P.auth.aes.encryptBlock wrapKey block).toList >>= f) = f block := by
  have hlength : (P.auth.aes.encryptBlock wrapKey block).toList.length = 16 := Vector.length_toList
  have hblock : Vector.ofFn (fun i : Fin 16 =>
      (P.auth.aes.encryptBlock wrapKey block).toList.getD i 0) =
        P.auth.aes.encryptBlock wrapKey block := by
    ext i hi
    rw [Vector.getElem_ofFn, List.getD_eq_getElem _ _ (by rw [hlength]; exact hi),
      Vector.getElem_toList]
  have hunwrap : unwrap P wrapKey (P.auth.aes.encryptBlock wrapKey block).toList = pure block := by
    rw [unwrap, ensureText_bind hlength, hblock, P.auth.aes.decrypt_encrypt]
  rw [hunwrap]
  rfl

def Mac.opened (m : Mac) (P : Primitives) : RecordLayer :=
  { RecordLayer.new m.key m.iv with decIv := (m.opening P).2, decSeq := 1 }

theorem length_blob (P : Primitives) (wrapKey : Key) : (m.blob P wrapKey).length = 36 := by
  rw [Mac.blob, List.length_append, List.length_append, m.reserves, Vector.length_toList,
    Vector.length_toList]

theorem run_openRecords (wrapKey : Key) {turns : Nat}
    (hturns : (m.preamble (m.blob P wrapKey)).length < turns) :
    (openRecords P wrapKey turns).run (m.preamble (m.blob P wrapKey) ++
        (be16 (recordSize m.first.length) ++ ((m.opening P).1 ++ rest))) =
      ending (m.first, m.opened P) [.tcp [0x12, 0, 0, 2, 0, 1, 0, 0]] rest := by
  have hbounds := recordSize_bounds m.firstSize
  have hkey : ((m.blob P wrapKey).drop 4).take 16 =
      (P.auth.aes.encryptBlock wrapKey m.key).toList := by
    rw [Mac.blob, List.drop_left' m.reserves, List.take_left' Vector.length_toList]
  have hiv : ((m.blob P wrapKey).drop 20).take 16 =
      (P.auth.aes.encryptBlock wrapKey m.iv).toList := by
    rw [Mac.blob, ← List.append_assoc, List.drop_left' (by
      rw [List.length_append, m.reserves, Vector.length_toList]),
      List.take_of_length_le (by rw [Vector.length_toList])]
  have hopening : (m.opening P).1.length = recordSize m.first.length := length_sealRecord ..
  have hdecrypt : (RecordLayer.new m.key m.iv).decrypt P.record (m.opening P).1 =
      (.ok m.first, m.opened P) := decrypt_sealRecord rfl (of_decide_eq_true rfl) m.firstSize
  have hfind : (findRekey turns).run (m.preamble (m.blob P wrapKey) ++
      (be16 (recordSize m.first.length) ++ ((m.opening P).1 ++ rest))) =
        ending (m.blob P wrapKey) [] (be16 (recordSize m.first.length) ++
          ((m.opening P).1 ++ rest)) :=
    run_findRekeyLoop (m.isPreamble _ (length_blob m P wrapKey)) hturns _
  unfold openRecords
  rw [run_bind_ok hfind, hkey, unwrap_bind, hiv, unwrap_bind, run_say,
    run_read16_be16 (by omega), ensureText_bind ⟨hbounds.1, hbounds.2.2⟩, run_receive hopening,
    hdecrypt]
  rfl

end Parts

/-! ## The encrypted messages -/

def recordOf (P : Primitives) (r : RecordLayer) (body : List UInt8) : List UInt8 :=
  toBigEndian 2 (recordSize body.length) ++ (sealRecord P.record r.key r.encSeq r.encIv body).1

def behind (P : Primitives) (r : RecordLayer) (body : List UInt8) : RecordLayer :=
  { r with
    encIv := (sealRecord P.record r.key r.encSeq r.encIv body).2
    encSeq := r.encSeq + 1 }

/-- The layer works and this is its next number. -/
structure Ready (r : RecordLayer) (n : UInt32) : Prop where
  working : r.failed = false
  seq : r.encSeq = n

theorem Ready.lt {r : RecordLayer} {n : UInt32} (h : Ready r n) (hn : n < 0xffffffff) :
    r.encSeq < 0xffffffff := h.seq.symm ▸ hn

theorem Ready.behind {r : RecordLayer} {n : UInt32} (h : Ready r n) (P : Primitives)
    (body : List UInt8) : Ready (behind P r body) (n + 1) :=
  ⟨h.working, congrArg (· + 1) h.seq⟩

theorem writeRecord_bind (P : Primitives) {r : RecordLayer} {n : UInt32} {body : List UInt8}
    (h : Ready r n) (hn : n < 0xffffffff) (hbody : body.length ≤ 65498) {α : Type}
    (f : RecordLayer → Talk α) :
    (writeRecord P r body >>= f) =
      (say (.tcp (recordOf P r body)) >>= fun _ => f (behind P r body)) := by
  have hwrite : writeRecord P r body =
      (say (.tcp (recordOf P r body)) >>= fun _ => pure (behind P r body)) := by
    unfold writeRecord
    rw [encrypt_ok h.working (h.lt hn) hbody]
    rfl
  rw [hwrite]
  rfl

theorem displayFields_fit (w h fps : UInt16) : ∀ f ∈ displayFields w h fps, f.last ≤ 308 := by
  have hall : (displayFields w h fps).all fun f => f.last ≤ 308 := rfl
  exact fun f hf => of_decide_eq_true (List.all_eq_true.1 hall f hf)

theorem displayConfig_fits (w h fps : UInt16) :
    ∃ display, displayConfig w h fps = some display ∧ display.length = 308 := by
  have hbuffer : (List.replicate 308 (0 : UInt8)).length = 308 := List.length_replicate
  obtain ⟨display, hplace, hlength⟩ :=
    Layout.place_of_fits (hbuffer.symm ▸ displayFields_fit w h fps)
  exact ⟨display, hplace, hlength.trans hbuffer⟩

theorem length_mediaMessage {audio video message : List UInt8} {send recv audioSend : MediaKey}
    {fps : UInt16} {filler : Vector UInt8 108}
    (h : mediaMessage audio video send recv fps audioSend filler = some message) :
    message.length = audio.length + video.length + 0xd8 + 4 := by
  obtain ⟨message', hplace, hlength⟩ :=
    Layout.place_of_fits (mediaFields_fit audio video send recv fps audioSend filler)
  cases h.symm.trans hplace
  rw [hlength, List.length_replicate]

theorem length_encodings : encodings.length ≤ 65498 := by decide +kernel

def updateRequest : List UInt8 := [3, 0, 0, 0, 0, 0, 255, 255, 255, 255]

def behindRequest (P : Primitives) (r : RecordLayer) (display : List UInt8) : RecordLayer :=
  behind P (behind P (behind P r encodings) display) updateRequest

def firstRecords (P : Primitives) (r : RecordLayer) (display mediaOffer : List UInt8) :
    List (List UInt8) :=
  [recordOf P r encodings, recordOf P (behind P r encodings) display,
    recordOf P (behind P (behind P r encodings) display) updateRequest,
    recordOf P (behindRequest P r display) mediaOffer]

theorem run_configureMedia (P : Primitives) (env : Environment) {fps width height : UInt16}
    {r : RecordLayer} {display mediaOffer : List UInt8} (hready : Ready r 0)
    (hdisplay : displayConfig width height fps = some display)
    (hoffer : mediaOptions P.packer env.audioOffer env.videoOffer env.videoSsrc env.videoSendKey
      env.videoReceiveKey fps env.audioSsrc env.audioSendKey env.filler = some mediaOffer)
    (hsize : mediaOffer.length ≤ 65498) (rest : List UInt8) :
    (configureMedia P env fps width height r).run rest =
      ending (mediaOffer, behind P (behindRequest P r display) mediaOffer)
        [.tcp (recordOf P r encodings), .tcp (recordOf P (behind P r encodings) display),
          .tcp (recordOf P (behind P (behind P r encodings) display) updateRequest),
          .video [0], .control [0], .tcp (recordOf P (behindRequest P r display) mediaOffer)]
        rest := by
  have hlength : display.length ≤ 65498 := by
    obtain ⟨display', hdisplay', hlength⟩ := displayConfig_fits width height fps
    cases hdisplay.symm.trans hdisplay'
    omega
  have hone := hready.behind P encodings
  have htwo := hone.behind P display
  have hthree := htwo.behind P updateRequest
  unfold configureMedia
  rw [hdisplay, checked_bind, writeRecord_bind P hready (by decide) length_encodings, run_say,
    writeRecord_bind P hone (by decide) hlength, run_say]
  rw [← updateRequest, writeRecord_bind P htwo (by decide) (by decide), run_say, run_say, run_say,
    hoffer, checked_bind, writeRecord_bind P hthree (by decide) hsize, run_say]
  rfl

/-- Each end opens what the other seals next. -/
structure Paired (client server : RecordLayer) : Prop where
  forward : InStep client server
  backward : InStep server client

theorem drain_firstRecords (P : Primitives) {r server : RecordLayer}
    {display mediaOffer : List UInt8}
    (h : Paired r server) (hready : Ready r 0) (hdisplay : display.length ≤ 65498)
    (hsize : mediaOffer.length ≤ 65498) :
    ∃ server', drainRecords P.record server (firstRecords P r display mediaOffer).flatten =
        (.ok [encodings, display, updateRequest, mediaOffer], server', []) ∧
      Paired (behind P (behindRequest P r display) mediaOffer) server' := by
  have hone := hready.behind P encodings
  have htwo := hone.behind P display
  have hthree := htwo.behind P updateRequest
  let bodies := [encodings, display, updateRequest, mediaOffer]
  let queue := bodies.zip (firstRecords P r display mediaOffer)
  have hrecords : queue.map Prod.snd = firstRecords P r display mediaOffer := rfl
  have hexpects : Expects P.record server.key server.decSeq server.decIv queue
      (behind P (behindRequest P r display) mediaOffer).encSeq
      (behind P (behindRequest P r display) mediaOffer).encIv := by
    rw [h.forward.key, h.forward.seq, h.forward.iv]
    exact ⟨hready.lt (of_decide_eq_true rfl), length_encodings, rfl,
      hone.lt (of_decide_eq_true rfl), hdisplay, rfl, htwo.lt (of_decide_eq_true rfl),
      of_decide_eq_true rfl, rfl, hthree.lt (of_decide_eq_true rfl), hsize, rfl, rfl, rfl⟩
  obtain ⟨server', hloop, hdrained, hdone⟩ :=
    drainLoop_expects h.forward.peerWorking hexpects (List.prefix_refl _)
  rw [completed_all, hrecords, List.take_of_length_le (Nat.le_refl _), List.drop_length] at hloop
  rw [completed_all] at hdone
  obtain ⟨hseq, hiv⟩ : server'.decSeq = _ ∧ server'.decIv = _ := hdone
  refine ⟨server', ?_,
    ⟨hready.working, hdrained.failed, hdrained.key.trans h.forward.key, hseq, hiv⟩,
    ⟨hdrained.failed, hready.working, ?_, ?_, ?_⟩⟩
  · rw [drainRecords, hloop]
    rfl
  · rw [hdrained.key]
    exact h.backward.key
  · rw [hdrained.encSeq]
    exact h.backward.seq
  · rw [hdrained.encIv]
    exact h.backward.iv

/-! ## The whole -/

/-- A Mac, and a client that asks it for something both can do. -/
structure Meeting (P : Primitives) (o : ConnectOptions) (env : Environment) extends Mac where
  options : checkOptions o = .ok ()
  size : ValidDimensions (if o.width = 0 then width else o.width)
    (if o.height = 0 then height else o.height)
  offerSize : (offer P.packer env.audioOffer 8 env.audioSsrc).length +
    (offer P.packer env.videoOffer 7 env.videoSsrc).length + 0xd8 + 4 ≤ 65498

theorem credentials_of_options {o : ConnectOptions} (h : checkOptions o = .ok ()) :
    (byteLength o.username ≤ 63 ∧ byteLength o.password ≤ 63) ∧
      '\x00' ∉ o.username ∧ '\x00' ∉ o.password := by
  revert h
  unfold checkOptions
  split_ifs with _ _ _ _ hlength hnul
  all_goals first | exact fun _ => ⟨hlength, hnul⟩ | exact nofun

section Meeting

variable {P : Primitives} {o : ConnectOptions} {env : Environment} (m : Meeting P o env)

/-- The Mac finds the credentials in the response, and the key of the client. -/
theorem Meeting.authenticates :
    ∃ response, authenticate P.auth m.generator m.prime
        (serverPublic m.generator m.prime m.secret) o.username o.password
        (env.exponent m.prime.length) env.padding =
          pure (response, serverKey P.auth m.prime m.secret response) ∧
      Recovers P.auth m.prime m.secret o.username o.password response
        (serverKey P.auth m.prime m.secret response) := by
  have hp : 0 < ofBigEndian m.prime := Nat.lt_trans (by decide) m.accepted.1
  have hlength : 0 < m.prime.length := Nat.lt_of_lt_of_le (by decide) m.keySize.1
  have hfits (n : Nat) : n % ofBigEndian m.prime < 256 ^ m.prime.length :=
    Nat.lt_trans (Nat.mod_lt n hp) (ofBigEndian_lt m.prime)
  have hpublic : ofBigEndian (serverPublic m.generator m.prime m.secret) =
      m.generator.toNat ^ m.secret % ofBigEndian m.prime := ofBigEndian_toBigEndian (hfits _)
  have hpadded (base exponent : Nat) :
      padded P.auth (P.auth.big.modpow base exponent (ofBigEndian m.prime)) m.prime.length =
        pure (toBigEndian m.prime.length (base ^ exponent % ofBigEndian m.prime)) := by
    rw [P.auth.big.modpow_eq _ _ _ hp]
    exact padded_eq P.auth (hfits _) hlength
  obtain ⟨hsizes, hnuls⟩ := credentials_of_options m.options
  have huser : (toUtf8 o.username).length ≤ 63 := (length_toUtf8 o.username).symm ▸ hsizes.1
  have hpassword : (toUtf8 o.password).length ≤ 63 := (length_toUtf8 o.password).symm ▸ hsizes.2
  obtain ⟨plain, hplain, hplainLength, hname, hword⟩ :=
    credentials_spec huser hpassword (show env.padding.toList.length = 128 by simp)
  rw [length_toUtf8] at hname hword
  let x := ofBigEndian (env.exponent m.prime.length).toList
  let y := ofBigEndian (serverPublic m.generator m.prime m.secret)
  let key := P.auth.md5 (toBigEndian m.prime.length (y ^ x % ofBigEndian m.prime))
  let ours := toBigEndian m.prime.length (m.generator.toNat ^ x % ofBigEndian m.prime)
  have hkey : P.auth.md5 (toBigEndian m.prime.length
      (ofBigEndian ours ^ m.secret % ofBigEndian m.prime)) = key := by
    show P.auth.md5 (toBigEndian _ (ofBigEndian (toBigEndian _ _) ^ _ % _)) =
      P.auth.md5 (toBigEndian _ (y ^ x % _))
    rw [ofBigEndian_toBigEndian (hfits _), show y = _ from hpublic, pow_shared]
  have hrecovers : Recovers P.auth m.prime m.secret o.username o.password
      (eachBlock (P.auth.aes.encryptBlock key) plain ++ ours) key :=
    recovers_response P.auth (length_toBigEndian _ _) hkey hplainLength hname hword
  refine ⟨eachBlock (P.auth.aes.encryptBlock key) plain ++ ours, ?_, ?_⟩
  swap
  · rw [hrecovers.key]
    exact hrecovers
  unfold authenticate
  rw [if_neg (not_not.2 hsizes), if_neg (not_not.2 hnuls), if_neg (not_not.2
    ⟨List.ne_nil_of_length_pos hlength, m.keySize.2, length_toBigEndian _ _⟩)]
  dsimp only
  rw [if_neg (not_not.2 m.accepted), hpadded, hpadded, hplain, hrecovers.key]
  rfl

def Meeting.askedWidth : UInt16 := if o.width = 0 then m.width else o.width

def Meeting.askedHeight : UInt16 := if o.height = 0 then m.height else o.height

theorem Meeting.paired : Paired (m.opened P) (m.layer P) := by
  have hlayer : m.layer P =
      { RecordLayer.new m.key m.iv with encIv := (m.opening P).2, encSeq := 1 } := by
    rw [Mac.layer, encrypt_ok rfl (of_decide_eq_true rfl) m.firstSize]
    rfl
  rw [hlayer]
  exact ⟨⟨rfl, rfl, rfl, rfl, rfl⟩, rfl, rfl, rfl, rfl, rfl⟩

def transcript (response info : List UInt8) (records : List (List UInt8)) : List Output :=
  [.tcp clientVersion, .video [0], .control [0], .tcp clientVersion, .tcp [30], .response response,
    .tcp [1], .tcp info, .tcp [0x12, 0, 0, 1, 0, 1, 0, 1, 0, 0, 0, 1], .tcp encodings,
    .tcp [0x12, 0, 0, 2, 0, 1, 0, 0]] ++ (records.take 3).map .tcp ++
    [.video [0], .control [0]] ++ (records.drop 3).map .tcp

/-- What the two have come to. -/
structure Agreement (response info display : List UInt8) (records : List (List UInt8))
    (established : Established) (server : RecordLayer) : Prop where
  presents : viewerInfo = some info
  configures : displayConfig m.askedWidth m.askedHeight o.fps = some display
  credentials : Recovers P.auth m.prime m.secret o.username o.password response
    (serverKey P.auth m.prime m.secret response)
  first : established.first = m.first
  width : established.width = m.askedWidth
  height : established.height = m.askedHeight
  paired : Paired established.records server
  drained : drainRecords P.record (m.layer P) records.flatten =
    (.ok [encodings, display, updateRequest, established.mediaOffer], server, [])
  media : readMedia established.mediaOffer =
    some
      { rate := if 60 ≤ o.fps then 7 else 3
        audioSend := env.audioSendKey.toList
        audio := offer P.packer env.audioOffer 8 env.audioSsrc
        send := env.videoSendKey.toList
        recv := env.videoReceiveKey.toList
        video := offer P.packer env.videoOffer 7 env.videoSsrc }

end Meeting

def fixturePreamble (blob : List UInt8) : List UInt8 :=
  0 :: 0 :: ([0, 1] ++ ([0, 0, 0, 0, 0, 0, 0, 0, 0, 0, 4, 79] ++ blob))

def fixtureMac : Mac where
  banner := ascii "RFB 003.889\n".toList
  types := [30, 33]
  generator := 2
  prime := List.replicate 63 0 ++ [23]
  secret := 5
  width := 1440
  height := 900
  pixelFormat := List.replicate 16 0
  name := ascii "mac".toList
  key := Vector.replicate 16 1
  iv := Vector.replicate 16 2
  reserved := [0, 0, 0, 0]
  preamble := fixturePreamble
  first := []
  later := [1, 2, 3]
  isBanner := by decide
  offersApple := by decide
  keySize := by decide
  accepted := by decide +kernel
  hasFormat := rfl
  nameSize := by decide
  reserves := rfl
  isPreamble blob hblob := .key rfl (.key rfl (by decide) hblob)
  firstSize := Nat.zero_le _

def fixtureMeeting : Meeting fixturePrimitives fixtureOptions fixtureEnvironment :=
  { fixtureMac with
    options := by decide +kernel
    size := by decide +kernel
    offerSize := by
      show
        (offer (fixturePacker (fixtureOffer 8) (fixtureOffer 7)) fixtureSurroundings 8 0).length +
        (offer (fixturePacker (fixtureOffer 8) (fixtureOffer 7)) fixtureSurroundings 7 0).length +
          0xd8 + 4 ≤ 65498
      rw [fixture_offer_audio, fixture_offer_video]
      decide }

end MacVnc.Protocol.Handshake
