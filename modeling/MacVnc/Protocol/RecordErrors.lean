import MacVnc.Lib.Checked
import MacVnc.Protocol.Channel
/-!
# Errors of the record layer

An error of the record layer (`hp-protocol/src/record.rs`) either changes
nothing or ends the connection: bad lengths and exhausted counters leave both
directions as they were, a record that fails its trailer or its inner length
disables them for good.  No input makes either function leave its buffer or
overflow.
-/

namespace MacVnc.Protocol.Record

open MacVnc.Lib
open MacVnc.Lib.Bytes
open MacVnc.Lib.Cbc

/-! ## The buffer operations -/

namespace RecordLayer

/-- `encrypt` with each access to the buffer and each sum checked. -/
def encryptChecked (P : Primitives) (r : RecordLayer) (body : List UInt8) :
    Option (Except String (List UInt8) × RecordLayer) :=
  if r.failed then some (.error unusable, r)
  else if ¬ r.encSeq < 0xffffffff then some (.error sequenceExhausted, r)
  else if ¬ body.length ≤ 65498 then some (.error "control message too large", r)
  else do
    let size ← Checked.add 64 2 body.length
    let size ← Checked.add 64 size 20
    let size ← Checked.add 64 size 15
    let size := size / 16 * 16
    let p := List.replicate size 0
    let p ← Checked.copyInto p 0 2 (toBigEndian 2 (body.length % 2 ^ 16))
    let last ← Checked.add 64 2 body.length
    let p ← Checked.copyInto p 2 last body
    let hashed ← Checked.sub size 20
    let front ← Checked.slice p 0 hashed
    let p ← Checked.copyInto p hashed size (trailer P r.encSeq front)
    let sealed := cbcEncrypt P.aes r.key r.encIv (chunks16 p)
    let r := { r with encIv := sealed.2 }
    some <|
      match checkedSucc r.encSeq with
      | none => (.error sequenceExhausted, r)
      | some next =>
          (.ok (toBigEndian 2 (size % 2 ^ 16) ++ unblocks sealed.1), { r with encSeq := next })

/-- `decrypt` with each access to the buffer and each sum checked. -/
def decryptChecked (P : Primitives) (r : RecordLayer) (ct : List UInt8) :
    Option (Except String (List UInt8) × RecordLayer) :=
  if r.failed then some (.error unusable, r)
  else if ¬ r.decSeq < 0xffffffff then some (.error sequenceExhausted, r)
  else if ¬ ((32 ≤ ct.length ∧ ct.length ≤ 65520) ∧ ct.length % 16 = 0) then
    some (.error "invalid encrypted record length", r)
  else do
    let opened := cbcDecrypt P.aes r.key r.decIv (chunks16 ct)
    let p := unblocks opened.1
    let r := { r with failed := true, decIv := opened.2 }
    let last ← Checked.sub p.length 20
    let front ← Checked.slice p 0 last
    let tail ← Checked.slice p last p.length
    if trailer P r.decSeq front ≠ tail then
      some (.error "control record authentication failed", r)
    else
      let high ← p[0]?
      let low ← p[1]?
      let len := ofBigEndian [high, low]
      let room ← Checked.sub last 2
      if ¬ len ≤ room then some (.error "invalid inner record length", r)
      else
        match checkedSucc r.decSeq with
        | none => some (.error sequenceExhausted, r)
        | some next => do
            let stop ← Checked.add 64 2 len
            let body ← Checked.slice p 2 stop
            some (.ok body, { r with decSeq := next, failed := false })

end RecordLayer

theorem encryptChecked_eq (P : Primitives) (r : RecordLayer) (body : List UInt8) :
    r.encryptChecked P body = some (r.encrypt P body) := by
  unfold RecordLayer.encryptChecked RecordLayer.encrypt
  split
  · rfl
  split
  · rfl
  split
  · rfl
  rename_i hfailed hseq hbody
  rw [not_not] at hbody
  obtain ⟨pad, hpad⟩ : ∃ pad, recordSize body.length = 2 + body.length + pad + 20 :=
    ⟨recordSize body.length - (2 + body.length + 20), by
      have hge := recordSize_ge body.length
      omega⟩
  have hle := recordSize_le hbody
  have hlength : body.length % 2 ^ 16 = body.length := Nat.mod_eq_of_lt (by omega)
  have hsize : (2 + body.length + 20 + 15) / 16 * 16 = recordSize body.length := rfl
  have hwire : recordSize body.length % 2 ^ 16 = recordSize body.length :=
    Nat.mod_eq_of_lt (by omega)
  have hzero : List.replicate (recordSize body.length) (0 : UInt8) =
      [] ++ List.replicate 2 0 ++
        (List.replicate body.length 0 ++ List.replicate (pad + 20) 0) := by
    rw [List.nil_append, ← List.replicate_add, ← List.replicate_add, hpad]
    congr 1
    omega
  have hfront : plainFront body = toBigEndian 2 body.length ++ body ++ List.replicate pad 0 := by
    rw [plainFront, hpad]
    congr 2
    omega
  have hplain : toBigEndian 2 body.length ++ body ++ List.replicate (pad + 20) 0 =
      plainFront body ++ List.replicate 20 0 ++ [] := by
    rw [hfront, List.replicate_add, List.append_nil, List.append_assoc _ (List.replicate pad 0)]
  have hlast := length_plainFront body
  have htake : (plainFront body ++ List.replicate 20 0 ++ []).take (recordSize body.length - 20) =
      plainFront body := by
    rw [List.append_nil, ← hlast, List.take_left]
  simp only [Checked.add_of_lt (show 2 + body.length < 2 ^ 64 by omega),
    Checked.add_of_lt (show 2 + body.length + 20 < 2 ^ 64 by omega),
    Checked.add_of_lt (show 2 + body.length + 20 + 15 < 2 ^ 64 by omega), Checked.some_bind,
    hsize, hlength, hwire, Checked.sub_of_le (show 20 ≤ recordSize body.length by omega)]
  have hlengthWrite : Checked.copyInto (List.replicate (recordSize body.length) 0) 0 2
      (toBigEndian 2 body.length) =
      some ([] ++ toBigEndian 2 body.length ++
        (List.replicate body.length 0 ++ List.replicate (pad + 20) 0)) :=
    Checked.copyInto_of_eq hzero rfl (by simp) (by simp)
  have hbodyWrite : Checked.copyInto ([] ++ toBigEndian 2 body.length ++
      (List.replicate body.length 0 ++ List.replicate (pad + 20) 0)) 2 (2 + body.length) body =
      some (toBigEndian 2 body.length ++ body ++ List.replicate (pad + 20) 0) :=
    Checked.copyInto_of_eq (List.append_assoc _ _ _).symm (by simp) (by simp) (by simp)
  have htrailerWrite : Checked.copyInto (plainFront body ++ List.replicate 20 0 ++ [])
      (recordSize body.length - 20) (recordSize body.length)
      (trailer P r.encSeq (plainFront body)) = some (plaintext P r.encSeq body) := by
    rw [Checked.copyInto_of_eq rfl hlast.symm (by rw [hlast]; simp; omega) (by simp [trailer]),
      List.append_nil, plaintext]
  rw [hlengthWrite, Checked.some_bind, hbodyWrite, Checked.some_bind, hplain,
    Checked.slice_prefix (by simp [hlast]), Checked.some_bind, htake, htrailerWrite]
  rfl

theorem decryptChecked_eq (P : Primitives) (r : RecordLayer) (ct : List UInt8) :
    r.decryptChecked P ct = some (r.decrypt P ct) := by
  unfold RecordLayer.decryptChecked RecordLayer.decrypt
  split
  · rfl
  split
  · rfl
  split
  · rfl
  rename_i hfailed hseq hlength
  rw [not_not] at hlength
  obtain ⟨⟨hmin, hmax⟩, hmod⟩ := hlength
  have hsize : (unblocks (cbcDecrypt P.aes r.key r.decIv (chunks16 ct)).1).length = ct.length := by
    rw [length_unblocks, length_cbcDecrypt, chunks16, length_blocks]
    omega
  dsimp only
  generalize unblocks (cbcDecrypt P.aes r.key r.decIv (chunks16 ct)).1 = p at hsize ⊢
  obtain ⟨high, low, rest, rfl⟩ : ∃ high low rest, p = high :: low :: rest := by
    cases p with
    | nil => simp at hsize; omega
    | cons high tail =>
        cases tail with
        | nil => simp at hsize; omega
        | cons low rest => exact ⟨high, low, rest, rfl⟩
  rw [Checked.sub_of_le (by omega), Checked.some_bind,
    Checked.slice_prefix (by omega), Checked.some_bind,
    Checked.slice_suffix (by omega), Checked.some_bind]
  split
  · rfl
  have hlen := ofBigEndian_lt [high, low]
  rw [List.length_cons, List.length_singleton] at hlen
  have htake : (high :: low :: rest).take 2 = [high, low] := rfl
  rw [List.getElem?_cons_zero, Checked.some_bind, List.getElem?_cons_succ, List.getElem?_cons_zero,
    Checked.some_bind, Checked.sub_of_le (by omega), Checked.some_bind, htake]
  by_cases hinner : ¬ ofBigEndian [high, low] ≤ (high :: low :: rest).length - 20 - 2
  · rw [if_pos hinner, if_pos hinner]
  rw [if_neg hinner, if_neg hinner]
  cases checkedSucc r.decSeq with
  | none => rfl
  | some next =>
      dsimp only
      rw [Checked.add_of_lt (by omega), Checked.some_bind,
        Checked.slice_of_le (by omega) (by omega),
        Nat.add_sub_cancel_left, Checked.some_bind]

/-! ## Harmless or final -/

inductive Call where
  | encrypt (body : List UInt8)
  | decrypt (ct : List UInt8)

namespace RecordLayer

def perform (P : Primitives) (r : RecordLayer) : Call → Except String (List UInt8) × RecordLayer
  | .encrypt body => r.encrypt P body
  | .decrypt ct => r.decrypt P ct

/-- The same call with its buffer operations checked. -/
def performChecked (P : Primitives) (r : RecordLayer) :
    Call → Option (Except String (List UInt8) × RecordLayer)
  | .encrypt body => r.encryptChecked P body
  | .decrypt ct => r.decryptChecked P ct

/-- The results of calls one after the other, and the layer behind them. -/
def runCalls (P : Primitives) (r : RecordLayer) :
    List Call → List (Except String (List UInt8)) × RecordLayer
  | [] => ([], r)
  | call :: calls =>
      let (result, r) := r.perform P call
      let (results, r) := r.runCalls P calls
      (result :: results, r)

/-- The next valid record of either direction is processed. -/
def Works (P : Primitives) (r : RecordLayer) : Prop :=
  ∀ body, body.length ≤ 65498 →
    (r.encSeq < 0xffffffff → ∃ record, (r.encrypt P body).1 = .ok record) ∧
    (r.decSeq < 0xffffffff →
      (r.decrypt P (sealRecord P r.key r.decSeq r.decIv body).1).1 = .ok body)

/-- No call succeeds or changes anything any more. -/
def Disabled (P : Primitives) (r : RecordLayer) : Prop :=
  ∀ calls, (∀ result ∈ (r.runCalls P calls).1, ∃ e, result = .error e) ∧
    (r.runCalls P calls).2 = r

end RecordLayer

/-- The errors about a length or an exhausted counter. -/
def Harmless (e : String) : Prop :=
  e = sequenceExhausted ∨ e = "control message too large" ∨ e = "invalid encrypted record length"

/-- The errors about the trailer and the inner length. -/
def Fatal (e : String) : Prop :=
  e = "control record authentication failed" ∨ e = "invalid inner record length"

/-- A call that succeeds counts in its own direction only. -/
def Counts (r r' : RecordLayer) : Call → Prop
  | .encrypt _ => r'.encSeq.toNat = r.encSeq.toNat + 1 ∧ r'.decSeq = r.decSeq
  | .decrypt _ => r'.decSeq.toNat = r.decSeq.toNat + 1 ∧ r'.encSeq = r.encSeq

theorem not_harmless_unusable : ¬ Harmless unusable := by
  rintro (h | h | h)
  all_goals exact absurd h (by decide)

theorem not_fatal_unusable : ¬ Fatal unusable := by
  rintro (h | h)
  all_goals exact absurd h (by decide)

theorem not_harmless_of_fatal {e : String} (h : Fatal e) : ¬ Harmless e := by
  rcases h with rfl | rfl
  all_goals
    rintro (h | h | h)
    all_goals exact absurd h (by decide)

theorem works_of_not_failed {r : RecordLayer} (P : Primitives) (h : r.failed = false) :
    r.Works P := by
  intro body hbody
  constructor
  · intro hseq
    rw [encrypt_ok h hseq hbody]
    exact ⟨_, rfl⟩
  · intro hseq
    rw [decrypt_sealRecord h hseq hbody]

theorem perform_failed {r : RecordLayer} (P : Primitives) (h : r.failed = true) (call : Call) :
    r.perform P call = (.error unusable, r) := by
  cases call with
  | encrypt body => exact if_pos h
  | decrypt ct => exact if_pos h

theorem disabled_of_failed {r : RecordLayer} (P : Primitives) (h : r.failed = true) :
    r.Disabled P := by
  intro calls
  induction calls with
  | nil => exact ⟨nofun, rfl⟩
  | cons call calls ih =>
      simp only [RecordLayer.runCalls, perform_failed P h call]
      exact ⟨List.forall_mem_cons.2 ⟨⟨_, rfl⟩, ih.1⟩, ih.2⟩

/-- What a call did: it was refused and changed nothing, it disabled the layer, or it
succeeded and counted. -/
inductive Performed (r : RecordLayer) :
    Call → Except String (List UInt8) × RecordLayer → Prop where
  | refused (call : Call) (hfailed : r.failed = true) : Performed r call (.error unusable, r)
  | harmless (call : Call) (e : String) (hfailed : r.failed = false) (he : Harmless e) :
      Performed r call (.error e, r)
  | fatal (ct : List UInt8) (e : String) (r' : RecordLayer) (hfailed : r.failed = false)
      (hfailed' : r'.failed = true) (he : Fatal e) : Performed r (.decrypt ct) (.error e, r')
  | encrypted (body out : List UInt8) (r' : RecordLayer) (hfailed : r'.failed = false)
      (hnext : r'.encSeq.toNat = r.encSeq.toNat + 1) (hother : r'.decSeq = r.decSeq) :
      Performed r (.encrypt body) (.ok out, r')
  | decrypted (ct out : List UInt8) (r' : RecordLayer) (hfailed : r'.failed = false)
      (hnext : r'.decSeq.toNat = r.decSeq.toNat + 1) (hother : r'.encSeq = r.encSeq) :
      Performed r (.decrypt ct) (.ok out, r')

theorem performed (P : Primitives) (r : RecordLayer) (call : Call) :
    Performed r call (r.perform P call) := by
  cases hfailed : r.failed with
  | true =>
      rw [perform_failed P hfailed]
      exact .refused call hfailed
  | false =>
    cases call with
    | encrypt body =>
        show Performed r _ (r.encrypt P body)
        unfold RecordLayer.encrypt
        rw [if_neg (ne_true_of_eq_false hfailed)]
        split
        · exact .harmless _ _ hfailed (Or.inl rfl)
        rename_i hseq
        rw [not_not] at hseq
        split
        · exact .harmless _ _ hfailed (Or.inr (Or.inl rfl))
        dsimp only
        rw [checkedSucc_of_lt hseq]
        exact .encrypted body _ _ hfailed (toNat_succ hseq) rfl
    | decrypt ct =>
        show Performed r _ (r.decrypt P ct)
        unfold RecordLayer.decrypt
        rw [if_neg (ne_true_of_eq_false hfailed)]
        split
        · exact .harmless _ _ hfailed (Or.inl rfl)
        rename_i hseq
        rw [not_not] at hseq
        split
        · exact .harmless _ _ hfailed (Or.inr (Or.inr rfl))
        dsimp only
        split
        · exact .fatal ct _ _ hfailed rfl (Or.inl rfl)
        split
        · exact .fatal ct _ _ hfailed rfl (Or.inr rfl)
        rw [checkedSucc_of_lt hseq]
        exact .decrypted ct _ _ rfl (toNat_succ hseq) rfl

theorem performChecked_eq (P : Primitives) (r : RecordLayer) (call : Call) :
    r.performChecked P call = some (r.perform P call) := by
  cases call with
  | encrypt body => exact encryptChecked_eq P r body
  | decrypt ct => exact decryptChecked_eq P r ct

/-- From any state of the layer, a call stays within its buffer; an error about a length or a
counter changes nothing, one about the trailer or the inner length is the end of both
directions, and success counts by one. -/
theorem errors_harmless_or_final (P : Primitives) (r : RecordLayer) (call : Call) :
    r.performChecked P call = some (r.perform P call) ∧
    (∀ e, (r.perform P call).1 = .error e → Harmless e →
      (r.perform P call).2 = r ∧ (r.perform P call).2.Works P) ∧
    (∀ e, (r.perform P call).1 = .error e → Fatal e → (r.perform P call).2.Disabled P) ∧
    (∀ e, (r.perform P call).1 = .error e → r.failed = false → Harmless e ∨ Fatal e) ∧
    ∀ out, (r.perform P call).1 = .ok out → Counts r (r.perform P call).2 call := by
  refine ⟨performChecked_eq P r call, ?_⟩
  have hperformed := performed P r call
  generalize r.perform P call = outcome at hperformed ⊢
  cases hperformed with
  | refused _ hfailed =>
      refine ⟨?_, ?_, ?_, nofun⟩
      · rintro _ ⟨⟩ he
        exact absurd he not_harmless_unusable
      · rintro _ ⟨⟩ he
        exact absurd he not_fatal_unusable
      · intro e _ hworking
        exact absurd hfailed (ne_true_of_eq_false hworking)
  | harmless _ e hfailed he =>
      refine ⟨fun _ _ _ => ⟨rfl, works_of_not_failed P hfailed⟩, ?_, ?_, nofun⟩
      · rintro _ ⟨⟩ hfatal
        exact absurd he (not_harmless_of_fatal hfatal)
      · rintro _ ⟨⟩ _
        exact Or.inl he
  | fatal ct e r' hfailed hfailed' he =>
      refine ⟨?_, fun _ _ _ => disabled_of_failed P hfailed', ?_, nofun⟩
      · rintro _ ⟨⟩ hharmless
        exact absurd hharmless (not_harmless_of_fatal he)
      · rintro _ ⟨⟩ _
        exact Or.inr he
  | encrypted body out r' hfailed hnext hother =>
      exact ⟨nofun, nofun, nofun, fun _ _ => ⟨hnext, hother⟩⟩
  | decrypted ct out r' hfailed hnext hother =>
      exact ⟨nofun, nofun, nofun, fun _ _ => ⟨hnext, hother⟩⟩

/-- A record of no bytes changes nothing, one of zeros ends the connection. -/
theorem errors_harmless_or_final_fixture :
    let r := RecordLayer.new Channel.fixtureKey Channel.fixtureIv
    ((r.perform Channel.fixture (.decrypt [])).2 = r ∧
      (r.perform Channel.fixture (.decrypt [])).2.Works Channel.fixture) ∧
    (r.perform Channel.fixture (.decrypt (List.replicate 32 0))).2.Disabled Channel.fixture ∧
    Counts r (r.perform Channel.fixture (.decrypt (Channel.fixtureRecord.drop 2))).2
      (.decrypt (Channel.fixtureRecord.drop 2)) := by
  intro r
  have hshort := errors_harmless_or_final Channel.fixture r (.decrypt [])
  have hzeros := errors_harmless_or_final Channel.fixture r (.decrypt (List.replicate 32 0))
  have hrecord :=
    errors_harmless_or_final Channel.fixture r (.decrypt (Channel.fixtureRecord.drop 2))
  refine ⟨hshort.2.1 _ (by decide +kernel) (Or.inr (Or.inr rfl)), ?_, ?_⟩
  · exact hzeros.2.2.1 "control record authentication failed" (by decide +kernel) (Or.inl rfl)
  · exact hrecord.2.2.2.2 [104, 101, 108, 108, 111] (by decide +kernel)

end MacVnc.Protocol.Record
