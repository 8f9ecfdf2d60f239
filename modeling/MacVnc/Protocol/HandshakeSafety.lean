import MacVnc.Protocol.Handshake
/-!
# Safety of the handshake

Whatever the Mac and the network do: the handshake ends as it would on the bytes in one
piece or is stopped, its messages come in one order, the credentials are sent once and
show in that message only, and nothing follows a rejection.
-/

namespace MacVnc.Protocol.Handshake

open MacVnc.Lib
open MacVnc.Lib.Bytes
open MacVnc.Lib.Interaction
open MacVnc.Lib.Interaction.Dialogue (receive say ensure fail arming inTime)
open MacVnc.Lib.Text
open MacVnc.Protocol.Authenticate
open MacVnc.Protocol.MediaOffer
open MacVnc.Protocol.Record (Block Key RecordLayer)

/-! ## Pieces of the streams -/

variable (P : Primitives) (o : ConnectOptions) (env : Environment)

theorem agrees_or_stopped (warm tcp : Socket) :
    Agrees (connect P o env warm tcp) (connectTo P o env warm.bytes tcp.bytes) ∨
      StoppedBefore (connect P o env warm tcp) (connectTo P o env warm.bytes tcp.bytes) := by
  unfold connect connectTo
  cases checkOptions o with
  | error e => exact .inl ⟨rfl, rfl, rfl⟩
  | ok _ =>
      dsimp only
      rcases runOn_refines patience version (warm.clock 0 + patience) warm with
        hagrees | ⟨⟨stop, hstop, hexternal⟩, hprefix⟩
      · rw [Dialogue.over, hagrees.result, hagrees.emitted]
        cases (version.run warm.bytes).result with
        | error stop => exact .inl ⟨rfl, rfl, rfl⟩
        | ok types =>
            dsimp only
            exact (runOn_refines patience _ _ tcp).imp (fun h => h.after _) fun h => h.after _
      · rw [Dialogue.over, hstop]
        refine .inr ⟨⟨stop, rfl, hexternal⟩, ?_⟩
        cases (version.run warm.bytes).result with
        | error e => exact hprefix
        | ok types => exact hprefix.trans (List.prefix_append _ _)

/-- A socket on which nothing fails and nothing takes eight seconds. -/
structure PromptSocket extends Socket where
  succeeds : .failed ∉ arrivals
  accepts : ∀ n, refuses n = false
  prompt : ∀ i j, clock j < clock i + patience

theorem agrees_of_prompt (warm tcp : PromptSocket) :
    Agrees (connect P o env warm.toSocket tcp.toSocket)
      (connectTo P o env warm.bytes tcp.bytes) := by
  unfold connect connectTo
  cases checkOptions o with
  | error e => exact ⟨rfl, rfl, rfl⟩
  | ok _ =>
      have hgreeting :=
        (Undisturbed.of_start warm.succeeds warm.accepts warm.prompt).agrees version
      dsimp only
      rw [Dialogue.over, hgreeting.result, hgreeting.emitted]
      cases (version.run warm.bytes).result with
      | error stop => exact ⟨rfl, rfl, rfl⟩
      | ok types =>
          exact ((Undisturbed.of_start tcp.succeeds tcp.accepts tcp.prompt).agrees _).after _

/-- A Mac that offers nothing, in two pieces with an interruption between them. -/
def refusal : PromptSocket where
  arrivals := [.data 82 [70, 66, 32, 48, 48], .interrupted, .data 51 [46, 56, 56, 57, 10, 0]]
  clock n := min n 1000000
  refuses _ := false
  succeeds := by decide
  accepts _ := rfl
  prompt i j := by
    rw [patience]
    omega

/-- The message is a record with such a body. -/
def Seals (body : List UInt8 → Prop) (m : Output) : Prop :=
  ∃ records message wire, body message ∧
    (RecordLayer.encrypt P.record records message).1 = .ok wire ∧ m = .tcp wire

/-- What is sent once the Mac has accepted the credentials. -/
def acceptedScript : List (Output → Prop) :=
  [(· = .tcp [1]), fun m => ∃ bytes, viewerInfo = some bytes ∧ m = .tcp bytes,
    (· = .tcp [0x12, 0, 0, 1, 0, 1, 0, 1, 0, 0, 0, 1]), (· = .tcp encodings),
    (· = .tcp [0x12, 0, 0, 2, 0, 1, 0, 0]), Seals P (· = encodings),
    Seals P fun body => ∃ width height, ValidDimensions width height ∧
      displayConfig width height o.fps = some body,
    Seals P (· = [3, 0, 0, 0, 0, 0, 255, 255, 255, 255]), (· = .video [0]), (· = .control [0]),
    Seals P fun body => mediaOptions P.packer env.audioOffer env.videoOffer env.videoSsrc
      env.videoSendKey env.videoReceiveKey o.fps env.audioSsrc env.audioSendKey env.filler =
        some body]

/-- The messages of the second connection in their order; the credentials are in one of them. -/
def sessionScript : List (Output → Prop) :=
  [(· = .video [0]), (· = .control [0]), (· = .tcp clientVersion), (· = .tcp [30]),
    fun m => ∃ bytes, m = .response bytes] ++ acceptedScript P o env

section Script

/-- A rejection comes behind the response. -/
def AfterError (e : HandshakeError) (script : List (Output → Prop)) : Prop :=
  e = .rejected → script = acceptedScript P o env

def Left {α : Type} (rest : List (Output → Prop)) (_ : α) (script : List (Output → Prop)) : Prop :=
  rest = script

variable {P} {o} {env}

theorem follows_checked {α : Type} (x : Option α) (script : List (Output → Prop)) :
    Follows (fun a rest => script = rest ∧ x = some a) (AfterError P o env) (checked x) script := by
  cases x with
  | none => exact .error nofun
  | some a => exact .result ⟨rfl, rfl⟩

theorem follows_ofExcept {α : Type} (x : Except String α) (script : List (Output → Prop)) :
    Follows (fun a rest => script = rest ∧ x = .ok a) (AfterError P o env) (ofExcept x)
      script := by
  cases x with
  | error e => exact .error nofun
  | ok a => exact .result ⟨rfl, rfl⟩

theorem follows_readN (n : Nat) (script : List (Output → Prop)) :
    Follows (Left script) (AfterError P o env) (readN n) script := .receive fun _ _ => rfl

theorem follows_ensureText (p : Prop) [Decidable p] (message : String)
    (script : List (Output → Prop)) :
    Follows (fun _ rest => script = rest ∧ p) (AfterError P o env) (ensureText p message) script :=
  .ensure (fun hp => ⟨rfl, hp⟩) nofun

theorem follows_read16 (script : List (Output → Prop)) :
    Follows (Left script) (AfterError P o env) read16 script := .read fun _ _ => .result rfl

theorem follows_read32 (script : List (Output → Prop)) :
    Follows (Left script) (AfterError P o env) read32 script := .read fun _ _ => .result rfl

theorem follows_say {entry : Output → Prop} {m : Output} (h : entry m)
    (script : List (Output → Prop)) :
    Follows (Left script) (AfterError P o env) (say m) (entry :: script) := .say h rfl

theorem follows_fixed (m : Output) (script : List (Output → Prop)) :
    Follows (Left script) (AfterError P o env) (say m) ((· = m) :: script) := by
  refine .say ?_ rfl
  rfl

theorem follows_version (script : List (Output → Prop)) :
    Follows (Left script) (AfterError P o env) version ((· = .tcp clientVersion) :: script) := by
  refine (follows_readN 12 _).bind ?_
  rintro banner _ rfl
  refine (follows_ensureText _ _ _).bind ?_
  rintro _ _ ⟨rfl, -⟩
  refine (follows_fixed _ script).bind ?_
  rintro _ _ rfl
  refine (follows_readN 1 _).bind ?_
  rintro count _ rfl
  refine (follows_ensureText _ _ _).bind ?_
  rintro _ _ ⟨rfl, -⟩
  exact follows_readN _ _

theorem follows_inTime (e : HandshakeError) (script : List (Output → Prop)) :
    Follows (Left script) (AfterError P o env) (inTime e) script := .within e (.result rfl)

theorem follows_arming (script : List (Output → Prop)) :
    Follows (Left script) (AfterError P o env) arming script := .arm (.result rfl)

/-- The search for the key sends nothing. -/
theorem follows_rekeyRects (n : Nat) (script : List (Output → Prop)) :
    Follows (Left script) (AfterError P o env) (rekeyRects n) script := by
  induction n with
  | zero => exact .result rfl
  | succ n ih =>
      refine (follows_inTime _ script).bind ?_
      rintro _ _ rfl
      refine (follows_readN 12 script).bind ?_
      rintro rh _ rfl
      dsimp only
      split
      · exact (follows_readN 36 script).bind fun blob _ hrest => .result hrest
      split
      · refine (follows_read16 script).bind ?_
        rintro size _ rfl
        exact (follows_readN size script).bind fun _ _ hrest => hrest ▸ ih
      split
      · exact .result rfl
      · exact .error nofun

theorem follows_findRekeyLoop (turns : Nat) (script : List (Output → Prop)) :
    Follows (Left script) (AfterError P o env) (findRekeyLoop turns) script := by
  induction turns with
  | zero => exact .error nofun
  | succ turns ih =>
      refine (follows_inTime _ script).bind ?_
      rintro _ _ rfl
      refine (follows_readN 1 script).bind ?_
      rintro kind _ rfl
      split
      · refine (follows_readN 1 script).bind ?_
        rintro _ _ rfl
        refine (follows_read16 script).bind ?_
        rintro n _ rfl
        refine (follows_rekeyRects n script).bind ?_
        rintro found _ rfl
        cases found with
        | some blob => exact .result rfl
        | none => exact ih
      split
      · exact (follows_readN 7 script).bind fun _ _ hrest => hrest ▸ ih
      · exact .error nofun

theorem follows_findRekey (turns : Nat) (script : List (Output → Prop)) :
    Follows (Left script) (AfterError P o env) (findRekey turns) script := by
  refine (follows_arming script).bind ?_
  rintro _ _ rfl
  exact follows_findRekeyLoop turns script

theorem follows_ofGuarded {α : Type} (x : Checked.Guarded String α)
    (script : List (Output → Prop)) :
    Follows (Left script) (AfterError P o env) (ofGuarded x) script := by
  refine (follows_checked _ script).bind ?_
  rintro result _ ⟨rfl, -⟩
  cases result with
  | error e => exact .error nofun
  | ok a => exact .result rfl

theorem follows_login :
    Follows (Left (acceptedScript P o env)) (AfterError P o env) (login P o env)
      ((sessionScript P o env).drop 2) := by
  refine (follows_version _).bind ?_
  rintro types _ rfl
  refine (follows_ensureText _ _ _).bind ?_
  rintro _ _ ⟨rfl, -⟩
  refine (follows_fixed _ _).bind ?_
  rintro _ _ rfl
  refine (follows_read16 _).bind ?_
  rintro generator _ rfl
  refine (follows_read16 _).bind ?_
  rintro keyLen _ rfl
  refine (follows_ensureText _ _ _).bind ?_
  rintro _ _ ⟨rfl, -⟩
  refine (follows_readN _ _).bind ?_
  rintro prime _ rfl
  refine (follows_readN _ _).bind ?_
  rintro pub _ rfl
  refine (follows_ofGuarded _ _).bind ?_
  rintro ⟨response, wrapKey⟩ _ rfl
  refine (follows_say ⟨response, rfl⟩ _).bind ?_
  rintro _ _ rfl
  refine (follows_read32 _).bind ?_
  rintro result _ rfl
  have hensure : Follows (Left (acceptedScript P o env)) (AfterError P o env)
      (ensure (result = 0) .rejected) (acceptedScript P o env) :=
    .ensure (fun _ => rfl) fun _ _ => rfl
  exact hensure.bind fun _ _ hrest => .result hrest

theorem follows_introduce :
    Follows (Left ((acceptedScript P o env).drop 4)) (AfterError P o env) introduce
      (acceptedScript P o env) := by
  refine (follows_fixed _ _).bind ?_
  rintro _ _ rfl
  refine (follows_read16 _).bind ?_
  rintro serverW _ rfl
  refine (follows_read16 _).bind ?_
  rintro serverH _ rfl
  refine (follows_readN 16 _).bind ?_
  rintro _ _ rfl
  refine (follows_read32 _).bind ?_
  rintro nameLen _ rfl
  refine (follows_ensureText _ _ _).bind ?_
  rintro _ _ ⟨rfl, -⟩
  refine (follows_readN nameLen _).bind ?_
  rintro _ _ rfl
  refine (follows_checked _ _).bind ?_
  rintro info _ ⟨rfl, hinfo⟩
  refine (follows_say ⟨info, hinfo, rfl⟩ _).bind ?_
  rintro _ _ rfl
  refine (follows_fixed _ _).bind ?_
  rintro _ _ rfl
  exact (follows_fixed _ _).bind fun _ _ hrest => .result hrest

theorem follows_unwrap (key : Key) (data : List UInt8) (script : List (Output → Prop)) :
    Follows (Left script) (AfterError P o env) (unwrap P key data) script := by
  refine (follows_ensureText _ _ _).bind ?_
  rintro _ _ ⟨rfl, -⟩
  exact .result rfl

theorem follows_openRecords (wrapKey : Key) (turns : Nat) :
    Follows (Left ((acceptedScript P o env).drop 5)) (AfterError P o env)
      (openRecords P wrapKey turns) ((acceptedScript P o env).drop 4) := by
  refine (follows_findRekey turns _).bind ?_
  rintro blob _ rfl
  refine (follows_unwrap _ _ _).bind ?_
  rintro key _ rfl
  refine (follows_unwrap _ _ _).bind ?_
  rintro iv _ rfl
  refine (follows_fixed _ _).bind ?_
  rintro _ _ rfl
  refine (follows_read16 _).bind ?_
  rintro n _ rfl
  refine (follows_ensureText _ _ _).bind ?_
  rintro _ _ ⟨rfl, -⟩
  refine (follows_readN n _).bind ?_
  rintro ciphertext _ rfl
  refine (follows_ofExcept _ _).bind ?_
  rintro first _ ⟨rfl, -⟩
  exact .result rfl

theorem follows_writeRecord (body : List UInt8 → Prop) (records : RecordLayer)
    {message : List UInt8} (hbody : body message) (script : List (Output → Prop)) :
    Follows (Left script) (AfterError P o env) (writeRecord P records message)
      (Seals P body :: script) := by
  refine (follows_ofExcept _ _).bind ?_
  rintro wire _ ⟨rfl, hwire⟩
  refine (follows_say ⟨records, message, wire, hbody, hwire, rfl⟩ _).bind ?_
  rintro _ _ rfl
  exact .result rfl

theorem follows_configureMedia {width height : UInt16} (hvalid : ValidDimensions width height)
    (records : RecordLayer) :
    Follows (Left []) (AfterError P o env) (configureMedia P env o.fps width height records)
      ((acceptedScript P o env).drop 5) := by
  unfold configureMedia acceptedScript
  generalize hdisplay : displayConfig width height o.fps = display
  generalize mediaOptions P.packer env.audioOffer env.videoOffer env.videoSsrc env.videoSendKey
    env.videoReceiveKey o.fps env.audioSsrc env.audioSendKey env.filler = mediaOffer
  refine (follows_checked display _).bind ?_
  rintro display _ ⟨rfl, rfl⟩
  refine (follows_writeRecord (· = encodings) records rfl _).bind ?_
  rintro records _ rfl
  refine (follows_writeRecord _ records ⟨width, height, hvalid, hdisplay⟩ _).bind ?_
  rintro records _ rfl
  refine (follows_writeRecord (· = [3, 0, 0, 0, 0, 0, 255, 255, 255, 255]) records rfl _).bind ?_
  rintro records _ rfl
  refine (follows_fixed _ _).bind ?_
  rintro _ _ rfl
  refine (follows_fixed _ _).bind ?_
  rintro _ _ rfl
  refine (follows_checked mediaOffer _).bind ?_
  rintro mediaOffer _ ⟨rfl, rfl⟩
  refine (follows_writeRecord (some mediaOffer = some ·) records rfl _).bind ?_
  rintro records _ rfl
  exact .result rfl

theorem follows_session (turns : Nat) :
    Follows (Left []) (AfterError P o env) (session P o env turns) (sessionScript P o env) := by
  refine (follows_fixed _ _).bind ?_
  rintro _ _ rfl
  refine (follows_fixed _ _).bind ?_
  rintro _ _ rfl
  refine follows_login.bind ?_
  rintro wrapKey _ rfl
  refine follows_introduce.bind ?_
  rintro ⟨serverW, serverH⟩ _ rfl
  refine (follows_openRecords wrapKey turns).bind ?_
  rintro ⟨first, records⟩ script rfl
  dsimp only
  generalize (if o.width = 0 then serverW else o.width) = width
  generalize (if o.height = 0 then serverH else o.height) = height
  refine (follows_ensureText (ValidDimensions width height) _ _).bind ?_
  rintro _ _ ⟨rfl, hvalid⟩
  refine (follows_configureMedia hvalid records).bind ?_
  rintro ⟨mediaOffer, records⟩ _ rfl
  exact .result rfl

end Script

def connectScript : List (Output → Prop) := (· = .tcp clientVersion) :: sessionScript P o env

/-- What the Mac has heard when it rejects the credentials, with this response. -/
def rejectedMessages (response : List UInt8) : List Output :=
  [.tcp clientVersion, .video [0], .control [0], .tcp clientVersion, .tcp [30], .response response]

/-- The messages are the first of the script, all of it with a result, and up to the response
when the Mac rejects that. -/
structure FollowsScript (ending : Ending Output HandshakeError Established Socket) : Prop where
  messages : ∃ said rest, connectScript P o env = said ++ rest ∧
    List.Forall₂ (fun entry message => entry message) said ending.emitted
  complete : ∀ established, ending.result = .ok established →
    List.Forall₂ (fun entry message => entry message) (connectScript P o env) ending.emitted
  rejected : ending.result = .error (.program .rejected) →
    ∃ response, ending.emitted = rejectedMessages response

theorem checkOptions_error {o : ConnectOptions} {e : HandshakeError}
    (h : checkOptions o = .error e) : e ≠ .rejected := by
  rintro rfl
  revert h
  unfold checkOptions
  split_ifs <;> exact nofun

variable {P} {o} {env} in
theorem followsScript_of_split {ending : Ending Output HandshakeError Established Socket}
    {said rest : List (Output → Prop)}
    (hsplit : connectScript P o env = said ++ rest)
    (hsaid : List.Forall₂ (fun entry message => entry message) said ending.emitted)
    (hok : ∀ established, ending.result = .ok established → rest = [])
    (herror : ∀ e, ending.result = .error (.program e) → AfterError P o env e rest) :
    FollowsScript P o env ending := by
  refine ⟨⟨said, rest, hsplit, hsaid⟩, fun established hresult => ?_, fun hresult => ?_⟩
  · rw [hsplit, hok established hresult, List.append_nil]
    exact hsaid
  · have hfirst : said = [(· = .tcp clientVersion), (· = .video [0]), (· = .control [0]),
        (· = .tcp clientVersion), (· = .tcp [30]), fun m => ∃ bytes, m = .response bytes] := by
      rw [herror .rejected hresult rfl] at hsplit
      exact (List.append_cancel_right hsplit).symm
    rw [hfirst] at hsaid
    generalize ending.emitted = emitted at hsaid ⊢
    obtain _ | ⟨rfl, _ | ⟨rfl, _ | ⟨rfl, _ | ⟨rfl, _ | ⟨rfl, _ | ⟨⟨response, rfl⟩, _ | _⟩⟩⟩⟩⟩⟩ :=
      hsaid
    exact ⟨response, rfl⟩

/-- Whatever arrives on the sockets, the messages come in the order of the script. -/
theorem connect_follows_script (warm tcp : Socket) :
    FollowsScript P o env (connect P o env warm tcp) := by
  unfold connect
  cases hcheck : checkOptions o with
  | error e =>
      refine followsScript_of_split (List.nil_append _).symm .nil nofun fun e' he hrejected => ?_
      cases he
      exact absurd hrejected (checkOptions_error hcheck)
  | ok _ =>
      have hversion : Follows (Left (sessionScript P o env)) (AfterError P o env) version
        (connectScript P o env) := follows_version _
      have hsession : Follows (Left []) (AfterError P o env)
        (session P o env (tcp.bytes.length + 1)) (sessionScript P o env) := follows_session _
      obtain ⟨said, rest, hsplit, hsaid, hok, herror⟩ :=
        hversion.runOn patience (warm.clock 0 + patience) warm
      dsimp only [Dialogue.over]
      cases hgreeting : (version.runOn patience (warm.clock 0 + patience) warm).result with
      | error stop =>
          refine followsScript_of_split hsplit hsaid nofun fun e he => herror e ?_
          cases he
          exact hgreeting
      | ok types =>
          obtain ⟨said', rest', hsplit', hsaid', hok', herror'⟩ :=
            hsession.runOn patience (tcp.clock 0 + patience) tcp
          have hscript : connectScript P o env = (said ++ said') ++ rest' := by
            rw [List.append_assoc, ← hsplit', hok types hgreeting]
            exact hsplit
          exact followsScript_of_split hscript (List.rel_append hsaid hsaid')
            (fun established h => (hok' established h).symm) herror'

/-! ## The secrecy of the credentials -/

structure Credentials where
  username : Text
  password : Text
  lengths : byteLength username ≤ 63 ∧ byteLength password ≤ 63
  nuls : '\x00' ∉ username ∧ '\x00' ∉ password

def ConnectOptions.withCredentials (o : ConnectOptions) (c : Credentials) : ConnectOptions :=
  { o with username := c.username, password := c.password }

theorem checkOptions_withCredentials (o : ConnectOptions) (c c' : Credentials) :
    checkOptions (o.withCredentials c) = checkOptions (o.withCredentials c') := by
  unfold checkOptions ConnectOptions.withCredentials
  dsimp only
  rw [if_neg (not_not.2 c.lengths), if_neg (not_not.2 c'.lengths), if_neg (not_not.2 c.nuls),
    if_neg (not_not.2 c'.nuls)]

/-- What the authentication computes for anyone: the public value of the client and the key. -/
def exchange (P : Authenticate.Primitives) (generator : UInt16) (prime pub : List UInt8)
    (random : Vector UInt8 prime.length) : Authenticate.Guarded (List UInt8 × Key) :=
  if ¬(prime ≠ [] ∧ prime.length ≤ 512 ∧ pub.length = prime.length) then
    throw "invalid DH parameter lengths"
  else if ¬AcceptedGroup (ofBigEndian prime) generator.toNat (ofBigEndian pub) then
    throw "invalid Apple DH parameters"
  else do
    let ours ← padded P (P.big.modpow generator.toNat (ofBigEndian random.toList)
      (ofBigEndian prime)) prime.length
    let secret ← padded P (P.big.modpow (ofBigEndian pub) (ofBigEndian random.toList)
      (ofBigEndian prime)) prime.length
    return (ours, P.md5 secret)

/-- The credentials have a part in 128 bytes of the response and in nothing else. -/
theorem authenticate_eq (P : Authenticate.Primitives) (generator : UInt16)
    (prime pub : List UInt8) (c : Credentials) (random : Vector UInt8 prime.length)
    (padding : Vector UInt8 128) :
    ∃ plain : List UInt8, plain.length = 128 ∧
      authenticate P generator prime pub c.username c.password random padding =
        (exchange P generator prime pub random >>= fun (ours, key) =>
          pure (eachBlock (P.aes.encryptBlock key) plain ++ ours, key)) := by
  have huser : (toUtf8 c.username).length ≤ 63 := (length_toUtf8 c.username).symm ▸ c.lengths.1
  have hpassword : (toUtf8 c.password).length ≤ 63 :=
    (length_toUtf8 c.password).symm ▸ c.lengths.2
  have hpadding : padding.toList.length = 128 := by simp
  obtain ⟨plain, hplain, hlength, -⟩ := credentials_spec huser hpassword hpadding
  refine ⟨plain, hlength, ?_⟩
  unfold authenticate exchange
  rw [if_neg (not_not.2 c.lengths), if_neg (not_not.2 c.nuls), hplain]
  dsimp only
  split
  · rfl
  split
  · rfl
  · rw [bind_assoc]
    refine bind_congr fun ours => ?_
    rw [bind_assoc]
    rfl

/-- The same message, or responses that differ in the encrypted credentials. -/
inductive Conceals : Output → Output → Prop
  | same (m : Output) : Conceals m m
  | response {cipher cipher' : List UInt8} (hcipher : cipher.length = 128)
      (hcipher' : cipher'.length = 128) (ours : List UInt8) :
      Conceals (.response (cipher ++ ours)) (.response (cipher' ++ ours))

section Secrecy

variable (c c' : Credentials)

theorem similar_login : Similar Conceals (login P (o.withCredentials c) env)
    (login P (o.withCredentials c') env) := by
  have hsame {α : Type} (d : Talk α) : Similar Conceals d d := .refl .same d
  refine (hsame version).bind fun types => ?_
  refine (hsame _).bind fun _ => ?_
  refine (hsame _).bind fun _ => ?_
  refine (hsame read16).bind fun generator => ?_
  refine (hsame read16).bind fun keyLen => ?_
  refine (hsame _).bind fun _ => ?_
  refine (hsame (readN keyLen)).bind fun prime => ?_
  refine (hsame (readN keyLen)).bind fun pub => ?_
  have heq (c : Credentials) := authenticate_eq P.auth generator.toUInt16 prime pub c
    (env.exponent prime.length) env.padding
  have hcipher (key : Key) {plain : List UInt8} (hlength : plain.length = 128) :
      (eachBlock (P.auth.aes.encryptBlock key) plain).length = 128 := by
    rw [length_eachBlock _ ⟨8, hlength⟩, hlength]
  obtain ⟨plain, hlength, hplain⟩ := heq c
  obtain ⟨plain', hlength', hplain'⟩ := heq c'
  dsimp only [ConnectOptions.withCredentials]
  rw [hplain, hplain']
  obtain _ | e | ⟨ours, key⟩ := exchange P.auth generator.toUInt16 prime pub
    (env.exponent prime.length)
  · exact .done _
  · exact .done _
  · exact .emit (.response (hcipher key hlength) (hcipher key hlength') ours) (hsame _)

theorem similar_session (turns : Nat) :
    Similar Conceals (session P (o.withCredentials c) env turns)
      (session P (o.withCredentials c') env turns) := by
  have hsame {α : Type} (d : Talk α) : Similar Conceals d d := .refl .same d
  refine (hsame _).bind fun _ => ?_
  refine (hsame _).bind fun _ => ?_
  exact (similar_login P o env c c').bind fun wrapKey => hsame _

/-- Two users in the same surroundings: the Mac and the network make no difference between them,
and what is sent is the same but for 128 bytes of one message. -/
theorem connect_conceals_credentials (warm tcp : Socket) :
    (connect P (o.withCredentials c) env warm tcp).result =
        (connect P (o.withCredentials c') env warm tcp).result ∧
      (connect P (o.withCredentials c) env warm tcp).rest =
        (connect P (o.withCredentials c') env warm tcp).rest ∧
      List.Forall₂ Conceals (connect P (o.withCredentials c) env warm tcp).emitted
        (connect P (o.withCredentials c') env warm tcp).emitted := by
  have hsame (messages : List Output) : List.Forall₂ Conceals messages messages :=
    List.forall₂_same.2 fun m _ => .same m
  unfold connect
  rw [checkOptions_withCredentials o c c']
  cases checkOptions (o.withCredentials c') with
  | error e => exact ⟨rfl, rfl, .nil⟩
  | ok _ =>
      dsimp only
      cases (version.over patience warm).result with
      | error stop => exact ⟨rfl, rfl, hsame _⟩
      | ok types =>
          obtain ⟨hresult, hrest, hemitted⟩ := (similar_session P o env c c'
            (tcp.bytes.length + 1)).runOn patience (tcp.clock 0 + patience) tcp
          exact ⟨hresult, hrest, List.rel_append (hsame _) hemitted⟩

end Secrecy

def alice : Credentials where
  username := "alice".toList
  password := "example-only".toList
  lengths := by decide
  nuls := by decide

def bob : Credentials where
  username := "bob".toList
  password := []
  lengths := by decide
  nuls := by decide

/-- A Mac that makes itself known, offers its group of 64 bytes and rejects what it hears. -/
def rejection : Socket where
  arrivals :=
    [.data 82 [70, 66, 32, 48, 48, 51, 46, 56, 56, 57, 10, 2, 30, 33],
      .data 0 ([2, 0, 64] ++ (List.replicate 63 0 ++ [23]) ++ (List.replicate 63 0 ++ [9])),
      .interrupted, .data 0 [0, 0, 1]]
  clock n := n
  refuses _ := false

theorem connect_conceals_credentials_alice_bob :
    (connect fixturePrimitives (fixtureOptions.withCredentials alice) fixtureEnvironment
        rejection rejection).result =
        (connect fixturePrimitives (fixtureOptions.withCredentials bob) fixtureEnvironment
          rejection rejection).result ∧
      List.Forall₂ Conceals
        (connect fixturePrimitives (fixtureOptions.withCredentials alice) fixtureEnvironment
          rejection rejection).emitted
        (connect fixturePrimitives (fixtureOptions.withCredentials bob) fixtureEnvironment
          rejection rejection).emitted := by
  obtain ⟨hresult, -, hemitted⟩ := connect_conceals_credentials fixturePrimitives fixtureOptions
    fixtureEnvironment alice bob rejection rejection
  exact ⟨hresult, hemitted⟩

end MacVnc.Protocol.Handshake
