import MacVnc.Client.Transfer
import MacVnc.Protocol.FileDecoder
/-!
# Uploads

The upload of the transfer worker (`macvnc-app/src/transfer.rs`), from the local
file to the messages it sends.  What the disk, the user and the session do is an
oracle.  The messages an upload sends after its request are those of one
complete regular file, so a download that reads them publishes its contents.
-/

namespace MacVnc.Client.Upload

open MacVnc.Client.Transfer
open MacVnc.Lib (Text)
open MacVnc.Lib.Text
open MacVnc.Protocol.FileTransfer
open MacVnc.Protocol.FileDecoder

inductive UploadError where
  | replacementNotConfirmed
  | cannotOpen
  | filesTooLarge
  | nameNotUtf8
  | encode (error : EncodeError)
  | interrupted
  | becameShorter
  | changed
  | notConfirmed
  | rejectedCompletion
deriving DecidableEq, Repr

/-- What the disk, the user and the session do: the size and the name of the
file, if it can be opened and read; the results of the reads, of which an empty
one is the end of the file; whether the check or the send of a message fails;
whether the file is still the same at the end; and the reply, if one comes. -/
structure Source where
  size : Option Nat
  name : Option Text
  reads : List (List UInt8)
  stops : Nat → Bool
  unchanged : Bool
  reply : Option Message

/-- The messages that were sent, and how the upload ended. -/
structure Sending where
  sent : List (List UInt8)
  result : Except UploadError Unit

def Sending.stop (e : UploadError) : Sending := { sent := [], result := .error e }

namespace Source

def send (source : Source) (n : Nat) (wire : List UInt8) (rest : Sending) : Sending :=
  if source.stops n then .stop .interrupted
  else { rest with sent := wire :: rest.sent }

def finish (source : Source) (id : UInt32) (n : Nat) : Sending :=
  if source.unchanged = false then .stop .changed
  else match encodeEnd id with
    | .error e => .stop (.encode e)
    | .ok wire =>
        source.send n wire
          { sent := []
            result := match source.reply with
              | none => .error .notConfirmed
              | some reply =>
                  if reply.kind = endOfFile ∧ reply.argument = 0 ∧ reply.payload = [] then .ok ()
                  else .error .rejectedCompletion }

/-- The loop of `upload`, with `n` messages sent and `bytes` of the file. -/
def sendChunks (source : Source) (id : UInt32) (size : Nat) :
    Nat → Nat → List (List UInt8) → Sending
  | n, bytes, reads =>
      if size ≤ bytes then source.finish id n
      else match reads with
        | [] => .stop (if source.stops n then .interrupted else .becameShorter)
        | piece :: rest =>
            let chunk := piece.take (min chunkBytes (size - bytes))
            if source.stops n then .stop .interrupted
            else if chunk = [] then .stop .becameShorter
            else match encodeData id chunk with
              | .error e => .stop (.encode e)
              | .ok wire =>
                  source.send n wire (sendChunks source id size (n + 1) (bytes + chunk.length) rest)

end Source

def upload (source : Source) (id : UInt32) (remote : Text) (allowReplace : Bool) : Sending :=
  if allowReplace = false then .stop .replacementNotConfirmed
  else match source.size with
    | none => Sending.stop .cannotOpen
    | some size =>
        if maxFileBytes < size then Sending.stop .filesTooLarge
        else match source.name with
          | none => Sending.stop .nameNotUtf8
          | some name =>
              match request id remote true, uploadMetadata id name size with
              | .error e, _ => Sending.stop (.encode e)
              | .ok _, .error e => Sending.stop (.encode e)
              | .ok wire, .ok (info, item) =>
                  source.send 0 wire (source.send 1 info (source.send 2 item
                    (source.sendChunks id size 3 0 source.reads)))

/-! ## What an undisturbed upload sends -/

def undisturbed (content : List UInt8) (name : Text) (pieces : List (List UInt8))
    (reply : Option Message) : Source :=
  { size := some content.length
    name := some name
    reads := pieces
    stops := fun _ => false
    unchanged := true
    reply }

def fileMessages (id : UInt32) (name : Text) (size : Nat) (pieces : List (List UInt8)) :
    List Message :=
  infoMessage id size :: itemMessage id name size :: pieces.map (dataMessage id)

theorem message_ok {m : Message} (hsession : m.session ≠ 0)
    (hsize : m.payload.length ≤ 65498 - 18) : message 0 m = .ok (m.encode 0) := by
  rw [message, if_neg hsession, if_neg (by omega)]

theorem send_undisturbed {source : Source} (h : source.stops = fun _ => false) (n : Nat)
    (wire : List UInt8) (rest : Sending) :
    (source.send n wire rest).sent = wire :: rest.sent := by
  rw [Source.send, h]
  rfl

theorem finish_sent {source : Source} (hstops : source.stops = fun _ => false)
    (hunchanged : source.unchanged = true) {id : UInt32} (hid : id ≠ 0) (n : Nat) :
    (source.finish id n).sent = [(endMessage id).encode 0] := by
  have hend : encodeEnd id = .ok ((endMessage id).encode 0) := message_ok hid (Nat.zero_le _)
  rw [Source.finish, hunchanged, if_neg (by decide), hend]
  exact send_undisturbed hstops n _ _

theorem sendChunks_sent {source : Source} (hstops : source.stops = fun _ => false)
    (hunchanged : source.unchanged = true) {id : UInt32} (hid : id ≠ 0) (size n bytes : Nat)
    {pieces : List (List UInt8)}
    (hpieces : ∀ piece ∈ pieces, 1 ≤ piece.length ∧ piece.length ≤ chunkBytes)
    (htotal : bytes + pieces.flatten.length = size) :
    (source.sendChunks id size n bytes pieces).sent =
      pieces.map (fun piece => (dataMessage id piece).encode 0) ++ [(endMessage id).encode 0] := by
  induction pieces generalizing n bytes with
  | nil =>
      have hdone : size ≤ bytes := by
        rw [List.flatten_nil, List.length_nil] at htotal
        omega
      unfold Source.sendChunks
      rw [if_pos hdone]
      exact finish_sent hstops hunchanged hid n
  | cons piece pieces ih =>
      obtain ⟨hsome, hchunk⟩ := hpieces piece (by simp)
      rw [List.flatten_cons, List.length_append] at htotal
      have htake : piece.take (min chunkBytes (size - bytes)) = piece :=
        List.take_of_length_le (by omega)
      have hne : piece ≠ [] := List.ne_nil_of_length_pos hsome
      have hwire : encodeData id piece = .ok ((dataMessage id piece).encode 0) := by
        rw [encodeData, if_neg (by omega)]
        apply message_ok hid
        show piece.length ≤ 65498 - 18
        unfold chunkBytes at hchunk
        omega
      unfold Source.sendChunks
      rw [if_neg (by omega)]
      dsimp only
      rw [htake, hstops, if_neg Bool.false_ne_true, if_neg hne, hwire]
      dsimp only
      rw [send_undisturbed hstops, ih (n + 1) (bytes + piece.length)
        (fun p hp => hpieces p (List.mem_cons_of_mem _ hp)) (by omega)]
      rfl

theorem upload_sent {content : List UInt8} {name : Text} {pieces : List (List UInt8)}
    (hsize : content.length ≤ maxFileBytes) (hname : validateName name = .ok ()) {id : UInt32}
    (hid : id ≠ 0) (hcontent : pieces.flatten = content)
    (hpieces : ∀ piece ∈ pieces, 1 ≤ piece.length ∧ piece.length ≤ chunkBytes) {remote : Text}
    {wire : List UInt8} (hrequest : request id remote true = .ok wire) (reply : Option Message) :
    (upload (undisturbed content name pieces reply) id remote true).sent =
      wire :: (fileMessages id name content.length pieces ++ [endMessage id]).map
        (Message.encode 0) := by
  have hshort := byteLength_of_valid hname
  have hinfo : (infoMessage id content.length).payload.length ≤ 65498 - 18 := by
    rw [length_infoMessage]
    omega
  have hitem : (itemMessage id name content.length).payload.length ≤ 65498 - 18 := by
    rw [length_itemMessage]
    omega
  have hmetadata : uploadMetadata id name content.length =
      .ok ((infoMessage id content.length).encode 0,
        (itemMessage id name content.length).encode 0) := by
    rw [uploadMetadata, hname]
    dsimp only
    rw [if_neg (by omega), message_ok hid hinfo, message_ok hid hitem]
    rfl
  unfold upload undisturbed
  rw [if_neg (by decide)]
  dsimp only
  rw [if_neg (by omega), hrequest, hmetadata]
  dsimp only
  rw [send_undisturbed rfl, send_undisturbed rfl, send_undisturbed rfl,
    sendChunks_sent rfl rfl hid content.length 3 0 hpieces (by rw [Nat.zero_add, hcontent])]
  simp [fileMessages, Function.comp_def]

/-! ## Reading it back -/

/-- Messages of a bounded size are frames of the decoder. -/
theorem exists_frames {messages : List Message}
    (h : ∀ m ∈ messages, m.payload.length ≤ maxMessageBytes - 18) :
    ∃ frames : List Frame, frames.map Frame.message = messages ∧
      Frame.stream frames = (messages.map (Message.encode 0)).flatten := by
  induction messages with
  | nil => exact ⟨[], rfl, rfl⟩
  | cons m messages ih =>
      obtain ⟨frames, hmessages, hstream⟩ := ih fun r hr => h r (List.mem_cons_of_mem _ hr)
      refine ⟨⟨0, m, Or.inl rfl, h m (by simp)⟩ :: frames, by rw [List.map_cons, hmessages], ?_⟩
      rw [Frame.stream_cons, hstream]
      rfl

theorem mem_fileMessages {id : UInt32} {name : Text} {size : Nat} {pieces : List (List UInt8)}
    {m : Message} (h : m ∈ fileMessages id name size pieces) :
    m = infoMessage id size ∨ m = itemMessage id name size ∨
      ∃ piece ∈ pieces, m = dataMessage id piece := by
  rcases List.mem_cons.1 h with hinfo | hrest
  · exact Or.inl hinfo
  rcases List.mem_cons.1 hrest with hitem | hdata
  · exact Or.inr (Or.inl hitem)
  · obtain ⟨piece, hpiece, rfl⟩ := List.mem_map.1 hdata
    exact Or.inr (Or.inr ⟨piece, hpiece, rfl⟩)

theorem payloads_chunks (id : UInt32) (pieces : List (List UInt8)) :
    payloads (pieces.map (dataMessage id)) = pieces.flatten := by
  induction pieces with
  | nil => rfl
  | cons piece pieces ih =>
      calc payloads ((piece :: pieces).map (dataMessage id))
          = payloads [dataMessage id piece] ++ payloads (pieces.map (dataMessage id)) :=
            payloads_append [_] _
        _ = piece ++ pieces.flatten := by rw [payloads_data rfl, ih]; rfl

theorem payloads_fileMessages (id : UInt32) (name : Text) (size : Nat)
    (pieces : List (List UInt8)) :
    payloads (fileMessages id name size pieces) = pieces.flatten := by
  calc payloads (fileMessages id name size pieces)
      = payloads [infoMessage id size] ++ (payloads [itemMessage id name size] ++
          payloads (pieces.map (dataMessage id))) := by
        rw [← payloads_append, ← payloads_append]
        rfl
    _ = pieces.flatten := by
        rw [payloads_metadata (Or.inl rfl), payloads_metadata (Or.inr rfl), payloads_chunks]
        rfl

/-- The messages of a file are those of one complete regular file. -/
theorem completeFile_fileMessages {name : Text} (hname : validateName name = .ok ())
    {pieces : List (List UInt8)} (hpieces : ∀ piece ∈ pieces, piece.length ≤ chunkBytes)
    (hsize : pieces.flatten.length ≤ maxFileBytes) (id : UInt32) :
    CompleteFile (fileMessages id name pieces.flatten.length pieces) pieces.flatten.length where
  kinds m hm := by
    rcases mem_fileMessages hm with rfl | rfl | ⟨piece, _, rfl⟩
    · exact Or.inl (Or.inl rfl)
    · exact Or.inl (Or.inr rfl)
    · exact Or.inr rfl
  sizes m hm hmetadata := by
    rcases mem_fileMessages hm with rfl | rfl | ⟨piece, _, rfl⟩
    · exact announcedSize_info hsize
    · exact announcedSize_item hname hsize
    · exact absurd hmetadata (not_metadata_of_data rfl)
  oneItem := by
    have hchunks : (pieces.map (dataMessage id)).countP (fun m => m.kind = newItem) = 0 := by
      rw [List.countP_eq_zero]
      intro m hm
      obtain ⟨piece, _, rfl⟩ := List.mem_map.1 hm
      exact of_decide_eq_false rfl
    rw [fileMessages, List.countP_cons, List.countP_cons, hchunks]
    rfl
  itemFirst before item after hsplit hitem m hm hdata := by
    cases before with
    | nil => cases hm
    | cons first before =>
        rw [fileMessages, List.cons_append, List.cons.injEq] at hsplit
        cases before with
        | nil =>
            rw [List.mem_singleton.1 hm, ← hsplit.1] at hdata
            exact absurd (Or.inl rfl) (not_metadata_of_data hdata)
        | cons second before =>
            rw [List.cons_append, List.cons.injEq] at hsplit
            have hlater : item ∈ pieces.map (dataMessage id) := by
              rw [hsplit.2.2]
              simp
            obtain ⟨piece, _, rfl⟩ := List.mem_map.1 hlater
            exact absurd (Or.inr hitem) (not_metadata_of_data rfl)
  arguments m hm hdata := by
    rcases mem_fileMessages hm with rfl | rfl | ⟨piece, hpiece, rfl⟩
    · exact absurd (Or.inl rfl) (not_metadata_of_data hdata)
    · exact absurd (Or.inr rfl) (not_metadata_of_data hdata)
    · have hchunk := hpieces piece hpiece
      unfold chunkBytes at hchunk
      apply UInt32.toNat_ofNat_of_lt'
      show piece.length < 2 ^ 32
      omega
  total := by
    rw [payloads_fileMessages]

theorem upload_read_back {content : List UInt8} {name : Text} {pieces : List (List UInt8)}
    (hsize : content.length ≤ maxFileBytes) (hname : validateName name = .ok ())
    (hcontent : pieces.flatten = content)
    (hpieces : ∀ piece ∈ pieces, piece.length ≤ chunkBytes) (id : UInt32) {disk : Local}
    (hdisk : disk.Working) :
    download disk (fileMessages id name content.length pieces ++ [endMessage id]) =
      .ok content := by
  subst hcontent
  have hfile := completeFile_fileMessages hname hpieces hsize id
  have hreceive := @receive_complete _ hdisk _ _ absorbed_start 0 _ [] (endMessage id) _
    (by rwa [List.nil_append]) rfl rfl rfl
  rw [download, hreceive, List.nil_append, payloads_fileMessages]
  exact if_pos hdisk.publishes

/-- What an upload sends after its request, cut into records in any way, makes a
download publish the contents of the file. -/
theorem upload_download_agree (content : List UInt8) (hsize : content.length ≤ 2 ^ 32 - 1)
    (name : Text) (hname : validateName name = .ok ()) (id : UInt32) (hid : id ≠ 0)
    (pieces : List (List UInt8)) (hcontent : pieces.flatten = content)
    (hpieces : ∀ piece ∈ pieces, 1 ≤ piece.length ∧ piece.length ≤ 32768)
    (remote : Text) (wire : List UInt8) (hrequest : request id remote true = .ok wire)
    (reply : Option Message) :
    ∃ messages, (upload (undisturbed content name pieces reply) id remote true).sent =
        wire :: messages ∧
      ∀ bodies : List (List UInt8), bodies.flatten = messages.flatten →
        (∀ body ∈ bodies, body ≠ [] ∧ body.length ≤ 65498) →
        ∃ feds, Decoder.new.feedAll bodies = .ok (feds, .new) ∧
          (∀ fed ∈ feds, fed.other = none) ∧
          ∀ disk : Local, disk.Working →
            download disk (feds.flatMap Fed.messages) = .ok content := by
  refine ⟨_, upload_sent hsize hname hid hcontent hpieces hrequest reply, ?_⟩
  intro bodies hbodies hcut
  have hshort := byteLength_of_valid hname
  have hframes : ∀ m ∈ fileMessages id name content.length pieces ++ [endMessage id],
      m.payload.length ≤ maxMessageBytes - 18 := by
    intro m hm
    unfold maxMessageBytes
    rcases List.mem_append.1 hm with hfile | hend
    · rcases mem_fileMessages hfile with rfl | rfl | ⟨piece, hpiece, rfl⟩
      · rw [length_infoMessage]
        omega
      · rw [length_itemMessage]
        omega
      · have hchunk := (hpieces piece hpiece).2
        show piece.length ≤ _
        omega
    · rw [List.mem_singleton.1 hend]
      exact Nat.zero_le _
  obtain ⟨frames, hmessages, hstream⟩ := exists_frames hframes
  have hcutting : Cutting [] frames [] bodies := by
    refine ⟨?_, fun body hbody => (hcut body hbody).2, ?_, fun htail => absurd rfl htail⟩
    · rw [List.nil_append, List.append_nil, hstream, hbodies]
    · intro before after hsplit
      exact absurd rfl (hcut [] (by rw [hsplit]; simp)).1
  obtain ⟨feds, hall, hfed, hothers⟩ := feedAll_cutting hcutting (Or.inl rfl) (by simp)
  refine ⟨feds, hall, hothers.absent rfl, fun disk hdisk => ?_⟩
  rw [hfed, hmessages]
  exact upload_read_back hsize hname hcontent (fun piece hpiece => (hpieces piece hpiece).2) id
    hdisk

/-- A file of three bytes, read in two pieces. -/
theorem upload_download_agree_fixture :
    ∃ messages, (upload (undisturbed [7, 8, 9] ['a'] [[7], [8, 9]] none) 2 ['/', 'b'] true).sent =
        [0x22, 2, 0, 0, 0, 20, 0, 1, 0, 2, 0, 0, 0, 2, 0, 0, 0, 1, 0, 0, 0, 4, 0, 2, 47, 98] ::
          messages ∧
      ∀ bodies : List (List UInt8), bodies.flatten = messages.flatten →
        (∀ body ∈ bodies, body ≠ [] ∧ body.length ≤ 65498) →
        ∃ feds, Decoder.new.feedAll bodies = .ok (feds, .new) ∧
          (∀ fed ∈ feds, fed.other = none) ∧
          ∀ disk : Local, disk.Working →
            download disk (feds.flatMap Fed.messages) = .ok [7, 8, 9] :=
  upload_download_agree [7, 8, 9] (by decide) ['a'] (by decide) 2 (by decide) [[7], [8, 9]] rfl
    (by decide) ['/', 'b'] _ (by decide +kernel) none

end MacVnc.Client.Upload
