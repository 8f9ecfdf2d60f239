import MacVnc.Protocol.Handshake
/-!
# The way to the control key

What `find_rekey` reads is a language of its own: messages up to the update with the
rectangle of the wrapped key.  The loop accepts exactly that language, takes nothing
behind it, and never runs out of the turns it is given.
-/

namespace MacVnc.Protocol.Handshake

open MacVnc.Lib
open MacVnc.Lib.Bytes
open MacVnc.Lib.Interaction
open MacVnc.Lib.Interaction.Dialogue (fail run_receive run_receive_cases run_arming run_inTime)

/-! ## The language -/

def typeOf (header : List UInt8) : Int := toI32 (ofBigEndian ((header.drop 8).take 4))

/-- The code of at most so many rectangles, up to a key or to the end, and the key. -/
inductive Rects : Nat → List UInt8 → Option (List UInt8) → Prop
  | none : Rects 0 [] none
  | key {n : Nat} {header blob : List UInt8} (hheader : header.length = 12)
      (htype : typeOf header = 1103) (hblob : blob.length = 36) :
      Rects (n + 1) (header ++ blob) (some blob)
  | metadata {n : Nat} {header size payload code : List UInt8} {found : Option (List UInt8)}
      (hheader : header.length = 12) (htype : typeOf header = 1010 ∨ typeOf header = 1011)
      (hsize : size.length = 2) (hpayload : payload.length = ofBigEndian size)
      (h : Rects n code found) : Rects (n + 1) (header ++ (size ++ (payload ++ code))) found
  | last {n : Nat} {header : List UInt8} (hheader : header.length = 12)
      (htype : typeOf header = -224) : Rects (n + 1) header none

/-- The code of the messages up to the key, and the key. -/
inductive Preamble : List UInt8 → List UInt8 → Prop
  | key {padding : UInt8} {count rects blob : List UInt8} (hcount : count.length = 2)
      (h : Rects (ofBigEndian count) rects (some blob)) :
      Preamble (0 :: padding :: (count ++ rects)) blob
  | update {padding : UInt8} {count rects code blob : List UInt8} (hcount : count.length = 2)
      (hrects : Rects (ofBigEndian count) rects none) (h : Preamble code blob) :
      Preamble (0 :: padding :: (count ++ (rects ++ code))) blob
  | event {event code blob : List UInt8} (hevent : event.length = 7) (h : Preamble code blob) :
      Preamble (0x14 :: (event ++ code)) blob

/-! ## Rectangles -/

def found {α : Type} (a : α) (rest : List UInt8) : Ending Output HandshakeError α (List UInt8) :=
  { result := .ok a, emitted := [], rest }

theorem run_readByte {α : Type} (b : UInt8) (rest : List UInt8) (f : List UInt8 → Talk α) :
    (readN 1 >>= f).run (b :: rest) = (f [b]).run rest :=
  run_receive (List.length_singleton (a := b)) rest f

theorem run_read16 {α : Type} {size : List UInt8} (h : size.length = 2) (rest : List UInt8)
    (f : Nat → Talk α) : (read16 >>= f).run (size ++ rest) = (f (ofBigEndian size)).run rest :=
  run_receive h rest fun b => f (ofBigEndian b)

theorem run_read16_cases {α : Type} (f : Nat → Talk α) (bytes : List UInt8) :
    (∃ size rest, bytes = size ++ rest ∧ size.length = 2 ∧
      (read16 >>= f).run bytes = (f (ofBigEndian size)).run rest) ∨
    (read16 >>= f).run bytes = { result := .error .closed, emitted := [], rest := [] } :=
  run_receive_cases 2 (fun b => f (ofBigEndian b)) bytes

def rectangle (n : Nat) (header : List UInt8) : Talk (Option (List UInt8)) :=
  if typeOf header = 1103 then do
    let blob ← readN 36
    pure (some blob)
  else if typeOf header = 1010 ∨ typeOf header = 1011 then do
    let size ← read16
    let _ ← readN size
    rekeyRects n
  else if typeOf header = -224 then pure none
  else fail (.unsupportedEncoding (typeOf header))

theorem run_rekeyRects_succ (n : Nat) (bytes : List UInt8) :
    (rekeyRects (n + 1)).run bytes = (readN 12 >>= rectangle n).run bytes := rfl

theorem run_rekeyRects {n : Nat} {code : List UInt8} {key : Option (List UInt8)}
    (h : Rects n code key) (rest : List UInt8) :
    (rekeyRects n).run (code ++ rest) = found key rest := by
  induction h with
  | none => rfl
  | key hheader htype hblob =>
      rw [List.append_assoc, run_rekeyRects_succ, run_receive hheader, rectangle, if_pos htype,
        run_receive hblob]
      rfl
  | @metadata n header size payload code key hheader htype hsize hpayload _ ih =>
      have hother : typeOf header ≠ 1103 := by omega
      rw [List.append_assoc, List.append_assoc, List.append_assoc, run_rekeyRects_succ,
        run_receive hheader, rectangle, if_neg hother, if_pos htype, run_read16 hsize,
        run_receive hpayload, ih]
  | @last n header hheader htype =>
      have hkey : typeOf header ≠ 1103 := by omega
      have hother : ¬ (typeOf header = 1010 ∨ typeOf header = 1011) := by omega
      rw [run_rekeyRects_succ, run_receive hheader, rectangle, if_neg hkey, if_neg hother,
        if_pos htype]
      rfl

theorem rects_of_run {n : Nat} {bytes rest : List UInt8} {key : Option (List UInt8)}
    (h : (rekeyRects n).run bytes = found key rest) :
    ∃ code, bytes = code ++ rest ∧ Rects n code key := by
  induction n generalizing bytes with
  | zero =>
      cases h
      exact ⟨[], rfl, .none⟩
  | succ n ih =>
      rw [run_rekeyRects_succ] at h
      rcases run_receive_cases 12 (rectangle n) bytes with
        ⟨header, bytes, rfl, hheader, hrun⟩ | hclosed
      swap
      · rw [hclosed] at h
        cases h
      rw [hrun, rectangle] at h
      split at h
      · rename_i htype
        rcases run_receive_cases 36 _ bytes with ⟨blob, bytes, rfl, hblob, hrun⟩ | hclosed
        · rw [hrun] at h
          cases h
          exact ⟨header ++ blob, (List.append_assoc ..).symm, .key hheader htype hblob⟩
        · rw [hclosed] at h
          cases h
      split at h
      · rename_i htype
        rcases run_read16_cases _ bytes with ⟨size, bytes, rfl, hsize, hrun⟩ | hclosed
        swap
        · rw [hclosed] at h
          cases h
        rw [hrun] at h
        rcases run_receive_cases (ofBigEndian size) _ bytes with
          ⟨payload, bytes, rfl, hpayload, hrun⟩ | hclosed
        swap
        · rw [hclosed] at h
          cases h
        rw [hrun] at h
        obtain ⟨code, rfl, hcode⟩ := ih h
        refine ⟨header ++ (size ++ (payload ++ code)), ?_,
          .metadata hheader htype hsize hpayload hcode⟩
        simp only [List.append_assoc]
      split at h
      · rename_i htype
        cases h
        exact ⟨header, rfl, .last hheader htype⟩
      · cases h

/-- A run that found nothing, for another reason than that the turns were over. -/
def Barren {α : Type} (ending : Ending Output HandshakeError α (List UInt8)) : Prop :=
  ∃ stop rest, ending = { result := .error stop, emitted := [], rest } ∧
    stop ≠ .program .outOfTurns

theorem rekeyRects_ends (n : Nat) (bytes : List UInt8) :
    (∃ key rest, (rekeyRects n).run bytes = found key rest) ∨
      Barren ((rekeyRects n).run bytes) := by
  have hclosed {α : Type} {ending : Ending Output HandshakeError α (List UInt8)}
      (h : ending = { result := .error .closed, emitted := [], rest := [] }) : Barren ending :=
    ⟨.closed, [], h, nofun⟩
  induction n generalizing bytes with
  | zero => exact .inl ⟨none, bytes, rfl⟩
  | succ n ih =>
      rw [run_rekeyRects_succ]
      rcases run_receive_cases 12 (rectangle n) bytes with ⟨header, bytes, -, -, hrun⟩ | hrun
      swap
      · exact .inr (hclosed hrun)
      rw [hrun, rectangle]
      split
      · rcases run_receive_cases 36 _ bytes with ⟨blob, bytes, -, -, hrun⟩ | hrun
        · exact .inl ⟨some blob, bytes, hrun⟩
        · exact .inr (hclosed hrun)
      split
      · rcases run_read16_cases _ bytes with ⟨size, bytes, -, -, hrun⟩ | hrun
        swap
        · exact .inr (hclosed hrun)
        rw [hrun]
        rcases run_receive_cases (ofBigEndian size) _ bytes with ⟨payload, bytes, -, -, hrun⟩ | hrun
        · rw [hrun]
          exact ih bytes
        · exact .inr (hclosed hrun)
      split
      · exact .inl ⟨none, bytes, rfl⟩
      · exact .inr ⟨_, bytes, rfl, nofun⟩

/-! ## Messages -/

def afterRects (turns : Nat) : Option (List UInt8) → Talk (List UInt8)
  | some blob => pure blob
  | none => findRekeyLoop turns

def message (turns : Nat) (kind : List UInt8) : Talk (List UInt8) :=
  if kind.getD 0 0 = 0 then do
    let _ ← readN 1
    let n ← read16
    rekeyRects n >>= afterRects turns
  else if kind.getD 0 0 = 0x14 then do
    let _ ← readN 7
    findRekeyLoop turns
  else fail (.unexpectedMessage (kind.getD 0 0))

theorem run_findRekeyLoop_succ (turns : Nat) (bytes : List UInt8) :
    (findRekeyLoop (turns + 1)).run bytes = (readN 1 >>= message turns).run bytes := rfl

theorem run_rects {n : Nat} {bytes rest : List UInt8} {key : Option (List UInt8)}
    (h : (rekeyRects n).run bytes = found key rest) (turns : Nat) :
    (rekeyRects n >>= afterRects turns).run bytes = (afterRects turns key).run rest := by
  rw [Dialogue.run_bind_ok h]
  rfl

theorem run_findRekeyLoop {code blob : List UInt8} (h : Preamble code blob) {turns : Nat}
    (hturns : code.length < turns) (rest : List UInt8) :
    (findRekeyLoop turns).run (code ++ rest) = found blob rest := by
  induction h generalizing turns with
  | @key padding count rects blob hcount hrects =>
      obtain ⟨turns, rfl⟩ := Nat.exists_eq_succ_of_ne_zero (Nat.ne_zero_of_lt hturns)
      simp only [List.cons_append, List.append_assoc]
      rw [run_findRekeyLoop_succ, run_readByte, message, if_pos (by rfl), run_readByte,
        run_read16 hcount, run_rects (run_rekeyRects hrects rest)]
      rfl
  | @update padding count rects code blob hcount hrects _ ih =>
      obtain ⟨turns, rfl⟩ := Nat.exists_eq_succ_of_ne_zero (Nat.ne_zero_of_lt hturns)
      simp only [List.cons_append, List.append_assoc]
      rw [run_findRekeyLoop_succ, run_readByte, message, if_pos (by rfl), run_readByte,
        run_read16 hcount, run_rects (run_rekeyRects hrects (code ++ rest))]
      refine ih ?_
      simp only [List.length_cons, List.length_append] at hturns
      omega
  | @event event code blob hevent _ ih =>
      obtain ⟨turns, rfl⟩ := Nat.exists_eq_succ_of_ne_zero (Nat.ne_zero_of_lt hturns)
      simp only [List.cons_append, List.append_assoc]
      rw [run_findRekeyLoop_succ, run_readByte, message, if_neg (by decide),
        if_pos (by rfl), run_receive hevent]
      refine ih ?_
      simp only [List.length_cons, List.length_append] at hturns
      omega

/-- With more turns than bytes the loop finds the key behind its code, or stops for another
reason than its turns. -/
theorem findRekeyLoop_ends {turns : Nat} {bytes : List UInt8} (hturns : bytes.length < turns) :
    (∃ code blob rest, bytes = code ++ rest ∧ Preamble code blob ∧
      (findRekeyLoop turns).run bytes = found blob rest) ∨
    Barren ((findRekeyLoop turns).run bytes) := by
  have hclosed {ending : Ending Output HandshakeError (List UInt8) (List UInt8)}
      (h : ending = { result := .error .closed, emitted := [], rest := [] }) : Barren ending :=
    ⟨.closed, [], h, nofun⟩
  induction turns generalizing bytes with
  | zero => exact absurd hturns (Nat.not_lt_zero _)
  | succ turns ih =>
      rw [run_findRekeyLoop_succ]
      rcases run_receive_cases 1 (message turns) bytes with ⟨kind, bytes, rfl, hkind, hrun⟩ | hrun
      swap
      · exact .inr (hclosed hrun)
      obtain ⟨kind, rfl⟩ := List.length_eq_one_iff.1 hkind
      rw [hrun, message]
      split
      · rename_i hzero
        obtain rfl : kind = 0 := hzero
        rcases run_receive_cases 1 _ bytes with ⟨padding, bytes, rfl, hpadding, hrun⟩ | hrun
        swap
        · exact .inr (hclosed hrun)
        obtain ⟨padding, rfl⟩ := List.length_eq_one_iff.1 hpadding
        rw [hrun]
        rcases run_read16_cases _ bytes with ⟨count, bytes, rfl, hcount, hrun⟩ | hrun
        swap
        · exact .inr (hclosed hrun)
        rw [hrun]
        rcases rekeyRects_ends (ofBigEndian count) bytes with ⟨key, rest, hrects⟩ | hbarren
        swap
        · obtain ⟨stop, rest, hrects, hstop⟩ := hbarren
          rw [Dialogue.run_bind, hrects]
          exact .inr ⟨stop, rest, rfl, hstop⟩
        obtain ⟨rects, rfl, hcode⟩ := rects_of_run hrects
        rw [run_rects hrects]
        cases key with
        | some blob =>
            refine .inl ⟨0 :: padding :: (count ++ rects), blob, rest, ?_, .key hcount hcode, rfl⟩
            simp only [List.cons_append, List.nil_append, List.append_assoc]
        | none =>
            have hfewer : rest.length < turns := by
              simp only [List.length_cons, List.length_append] at hturns
              omega
            refine (ih hfewer).imp_left fun ⟨code, blob, rest, hrest, hpreamble, hrun⟩ => ?_
            subst hrest
            refine ⟨0 :: padding :: (count ++ (rects ++ code)), blob, rest, ?_,
              .update hcount hcode hpreamble, hrun⟩
            simp only [List.cons_append, List.nil_append, List.append_assoc]
      split
      · rename_i hevent
        obtain rfl : kind = 0x14 := hevent
        rcases run_receive_cases 7 _ bytes with ⟨event, bytes, rfl, hevent, hrun⟩ | hrun
        swap
        · exact .inr (hclosed hrun)
        rw [hrun]
        have hfewer : bytes.length < turns := by
          simp only [List.length_cons, List.length_append] at hturns
          omega
        refine (ih hfewer).imp_left fun ⟨code, blob, rest, hrest, hpreamble, hrun⟩ => ?_
        subst hrest
        refine ⟨0x14 :: (event ++ code), blob, rest, ?_, .event hevent hpreamble, hrun⟩
        simp only [List.cons_append, List.nil_append, List.append_assoc]
      · exact .inr ⟨_, bytes, rfl, nofun⟩

/-- The search finds a key exactly behind the code of one, and leaves what follows it to the
next reader; it never stops because its turns are over. -/
theorem findRekey_iff (bytes : List UInt8) :
    (∀ blob rest, (findRekey (bytes.length + 1)).run bytes = found blob rest ↔
      ∃ code, bytes = code ++ rest ∧ Preamble code blob) ∧
    ((findRekey (bytes.length + 1)).run bytes).result ≠ .error (.program .outOfTurns) := by
  have hends := findRekeyLoop_ends (Nat.lt_succ_self bytes.length)
  refine ⟨fun blob rest => ⟨fun h => ?_, ?_⟩, fun h => ?_⟩
  · rcases hends with ⟨code, blob', rest', hbytes, hpreamble, hrun⟩ | ⟨stop, rest', hrun, -⟩
    · cases hrun.symm.trans h
      exact ⟨code, hbytes, hpreamble⟩
    · cases hrun.symm.trans h
  · rintro ⟨code, rfl, hpreamble⟩
    exact run_findRekeyLoop hpreamble (Nat.lt_succ_of_le (by simp)) rest
  · rcases hends with ⟨code, blob, rest, -, -, hrun⟩ | ⟨stop, rest, hrun, hstop⟩
    · have hresult := congrArg Ending.result hrun
      cases hresult.symm.trans h
    · have hresult := congrArg Ending.result hrun
      cases hresult.symm.trans h
      exact hstop rfl

end MacVnc.Protocol.Handshake
