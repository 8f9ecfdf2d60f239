import MacVnc.Lib.WeightedMap
import MacVnc.Media.HevcDecoder
/-!
# What the adapter does to FFmpeg and to its routes

Whatever FFmpeg answers, no call misuses an object, every object is freed once, and a
tile comes out under the index that its timestamp was last accepted with.
-/

namespace MacVnc.Media.HevcDecoder

open MacVnc.Lib.Stateful
open MacVnc.Lib.WeightedMap (length_keys_erase of_lookup_insert)
open MacVnc.Media.Compositing (rgbaLen rgbaLen_eq_ok_iff)
open MacVnc.Media.Depacketize (AccessUnit)

/-! ## Histories -/

/-- The tiles that wait for a frame, after one more event. -/
def Event.settle (waiting : Int → Option Nat) : Event → Int → Option Nat
  | .accepted pts tile => Function.update waiting pts (some tile)
  | .taken pts _ => Function.update waiting pts none

/-- The tile that was accepted last with each timestamp, if no frame has come for it. -/
def waiting (log : List Event) : Int → Option Nat := log.foldl Event.settle fun _ => none

def Event.taken? : Event → Option (Int × Nat)
  | .taken pts tile => some (pts, tile)
  | .accepted _ _ => none

def Event.accepted? : Event → Option (Int × Nat)
  | .accepted pts tile => some (pts, tile)
  | .taken _ _ => none

def takes (log : List Event) : List (Int × Nat) := log.filterMap Event.taken?

def accepts (log : List Event) : List (Int × Nat) := log.filterMap Event.accepted?

/-- A frame takes a route that waits for it. -/
inductive Sound : List Event → Prop
  | nil : Sound []
  | accepted {log : List Event} (h : Sound log) (pts : Int) (tile : Nat) :
      Sound (log ++ [.accepted pts tile])
  | taken {log : List Event} {pts : Int} {tile : Nat} (h : Sound log)
      (hwaiting : waiting log pts = some tile) : Sound (log ++ [.taken pts tile])

theorem waiting_concat (log : List Event) (e : Event) :
    waiting (log ++ [e]) = e.settle (waiting log) := by
  rw [waiting, List.foldl_append]
  rfl

/-- The tile was accepted under this timestamp, and nothing happened to that since. -/
def LastAccepted (log : List Event) (pts : Int) (tile : Nat) : Prop :=
  ∃ before after, log = before ++ .accepted pts tile :: after ∧ ∀ e ∈ after, e.pts ≠ pts

theorem lastAccepted_of_waiting {log : List Event} {pts : Int} {tile : Nat}
    (h : waiting log pts = some tile) : LastAccepted log pts tile := by
  induction log using List.reverseRecOn with
  | nil => cases h
  | append_singleton log e ih =>
      rw [waiting_concat] at h
      by_cases hsame : e.pts = pts
      · cases e with
        | accepted pts' tile' =>
            obtain rfl : pts' = pts := hsame
            rw [Event.settle, Function.update_self, Option.some.injEq] at h
            exact ⟨log, [], h ▸ rfl, fun _ hmem => (List.not_mem_nil hmem).elim⟩
        | taken pts' tile' =>
            obtain rfl : pts' = pts := hsame
            rw [Event.settle, Function.update_self] at h
            cases h
      · have hkept : e.settle (waiting log) pts = waiting log pts := by
          cases e with
          | accepted pts' tile' => exact Function.update_of_ne (Ne.symm hsame) _ _
          | taken pts' tile' => exact Function.update_of_ne (Ne.symm hsame) _ _
        rw [hkept] at h
        obtain ⟨before, after, rfl, hafter⟩ := ih h
        refine ⟨before, after ++ [e], ?_, ?_⟩
        · simp
        · intro e' he'
          rcases List.mem_append.1 he' with hmem | hmem
          · exact hafter e' hmem
          · rwa [List.mem_singleton.1 hmem]

theorem Sound.origin {log before after : List Event} {pts : Int} {tile : Nat} (h : Sound log)
    (hlog : log = before ++ .taken pts tile :: after) : LastAccepted before pts tile := by
  induction h generalizing after with
  | nil => simp at hlog
  | @accepted log h pts' tile' ih =>
      rcases List.eq_nil_or_concat after with rfl | ⟨after, e, rfl⟩
      · have hlast := List.append_inj_right' hlog rfl
        cases hlast
      · rw [List.concat_eq_append, ← List.cons_append, ← List.append_assoc] at hlog
        exact ih (List.append_inj_left' hlog rfl)
  | @taken log pts' tile' h hwaiting ih =>
      rcases List.eq_nil_or_concat after with rfl | ⟨after, e, rfl⟩
      · have hfront := List.append_inj_left' hlog rfl
        have hlast := List.append_inj_right' hlog rfl
        cases hlast
        exact hfront ▸ lastAccepted_of_waiting hwaiting
      · rw [List.concat_eq_append, ← List.cons_append, ← List.append_assoc] at hlog
        exact ih (List.append_inj_left' hlog rfl)

@[simp] theorem takes_accepted (log : List Event) (pts : Int) (tile : Nat) :
    takes (log ++ [.accepted pts tile]) = takes log := by
  simp [takes, Event.taken?]

@[simp] theorem takes_taken (log : List Event) (pts : Int) (tile : Nat) :
    takes (log ++ [.taken pts tile]) = takes log ++ [(pts, tile)] := by
  simp [takes, Event.taken?]

@[simp] theorem accepts_accepted (log : List Event) (pts : Int) (tile : Nat) :
    accepts (log ++ [.accepted pts tile]) = accepts log ++ [(pts, tile)] := by
  simp [accepts, Event.accepted?]

@[simp] theorem accepts_taken (log : List Event) (pts : Int) (tile : Nat) :
    accepts (log ++ [.taken pts tile]) = accepts log := by
  simp [accepts, Event.accepted?]

/-- A timestamp gives no more frames than packets, and one less while a tile waits. -/
theorem Sound.count_le {log : List Event} (h : Sound log) (pts : Int) :
    ((takes log).map Prod.fst).count pts + (if (waiting log pts).isSome then 1 else 0) ≤
      ((accepts log).map Prod.fst).count pts := by
  induction h with
  | nil => exact Nat.le_refl 0
  | @accepted log h pts' tile' ih =>
      rw [takes_accepted, accepts_accepted, waiting_concat, Event.settle, List.map_append,
        List.count_append]
      by_cases hsame : pts = pts'
      · subst hsame
        rw [Function.update_self]
        simp
        omega
      · rw [Function.update_of_ne hsame]
        exact ih.trans (Nat.le_add_right _ _)
  | @taken log pts' tile' h hwaiting ih =>
      rw [takes_taken, accepts_taken, waiting_concat, Event.settle, List.map_append,
        List.count_append]
      by_cases hsame : pts = pts'
      · subst hsame
        rw [hwaiting] at ih
        rw [Function.update_self]
        simpa using ih
      · rw [Function.update_of_ne hsame]
        simpa [List.count_singleton, Ne.symm hsame] using ih

/-! ## Routes -/

theorem keys_popFirst {routes : Routes} (h : routes.keys ≠ []) :
    (popFirst routes).keys.length + 1 = routes.keys.length := by
  unfold popFirst
  cases hmin : routes.keys.min? with
  | none => exact absurd (List.min?_eq_none_iff.1 hmin) h
  | some first =>
      obtain ⟨tile, htile⟩ := Option.isSome_iff_exists.1
        (AList.lookup_isSome.2 (AList.mem_keys.2 (List.min?_mem hmin)))
      exact length_keys_erase htile

theorem lookup_popFirst {routes : Routes} {pts : Int} {tile : Nat}
    (h : (popFirst routes).lookup pts = some tile) : routes.lookup pts = some tile := by
  unfold popFirst at h
  cases hmin : routes.keys.min? with
  | none => rwa [hmin] at h
  | some first =>
      rw [hmin] at h
      dsimp only at h
      by_cases hsame : pts = first
      · rw [hsame, AList.lookup_erase] at h
        cases h
      · rwa [AList.lookup_erase_ne hsame] at h

theorem keys_trim {turns : Nat} {routes : Routes} (h : routes.keys.length ≤ maxRoutes + turns) :
    (trim turns routes).keys.length ≤ maxRoutes := by
  induction turns generalizing routes with
  | zero => exact h
  | succ turns ih =>
      unfold trim
      split
      · rename_i hlarge
        have hpop := keys_popFirst (List.ne_nil_of_length_pos (Nat.zero_lt_of_lt hlarge))
        exact ih (by omega)
      · exact Nat.le_of_not_lt ‹_›

theorem lookup_trim {turns : Nat} {routes : Routes} {pts : Int} {tile : Nat}
    (h : (trim turns routes).lookup pts = some tile) : routes.lookup pts = some tile := by
  induction turns generalizing routes with
  | zero => exact h
  | succ turns ih =>
      unfold trim at h
      split at h
      · exact lookup_popFirst (ih h)
      · exact h

theorem keys_insertRoute (pts : Int) (tile : Nat) (routes : Routes) :
    (insertRoute pts tile routes).keys.length ≤ maxRoutes := keys_trim (Nat.le_add_left _ _)

/-- Every route is one that waits. -/
def Routed (routes : Routes) (log : List Event) : Prop :=
  ∀ pts tile, routes.lookup pts = some tile → waiting log pts = some tile

theorem Routed.insert {routes : Routes} {log : List Event} (h : Routed routes log) (pts : Int)
    (tile : Nat) : Routed (insertRoute pts tile routes) (log ++ [.accepted pts tile]) := by
  intro pts' tile' hlookup
  rw [waiting_concat, Event.settle]
  rcases of_lookup_insert (lookup_trim hlookup) with ⟨rfl, rfl⟩ | ⟨hother, hlookup⟩
  · exact Function.update_self ..
  · rw [Function.update_of_ne hother]
    exact h pts' tile' hlookup

theorem Routed.erase {routes : Routes} {log : List Event} (h : Routed routes log) (pts : Int)
    (tile : Nat) : Routed (routes.erase pts) (log ++ [.taken pts tile]) := by
  intro pts' tile' hlookup
  by_cases hsame : pts' = pts
  · rw [hsame, AList.lookup_erase] at hlookup
    cases hlookup
  · rw [AList.lookup_erase_ne hsame] at hlookup
    rw [waiting_concat, Event.settle, Function.update_of_ne hsame]
    exact h pts' tile' hlookup

/-! ## Calls -/

/-- A decoder at work: its objects are these, every route waits, and of the frames that took one
`Q` holds. -/
structure Standing (given : List (Int × Nat)) (picture : Picture) (packet : Packet)
    (Q : List (Int × Nat) → Prop) (s : State) : Prop where
  objects : s.objects = { context := .opened, picture, packet, scaler := s.sws }
  routed : Routed s.routes s.log
  sound : Sound s.log
  size : s.routes.keys.length ≤ maxRoutes
  taken : Q (takes s.log)
  accepted : (accepts s.log).Sublist given

/-- What a tile is routed by. -/
def DecodedTile.key (t : DecodedTile) : Int × Nat := (t.pts, t.tile)

/-- The compositor accepts the size of the tile. -/
def DecodedTile.Sized (t : DecodedTile) : Prop :=
  rgbaLen t.frame.width t.frame.height = .ok t.frame.pixels.length

section Calls

variable {given done : List (Int × Nat)} {picture picture' : Picture} {packet packet' : Packet}
  {Q Q' : List (Int × Nat) → Prop} {s : State}

theorem Standing.weaken (h : Standing given picture packet Q s) (hQ : ∀ l, Q l → Q' l) :
    Standing given picture packet Q' s :=
  { h with taken := hQ _ h.taken }

theorem Standing.now (h : Standing given picture packet Q s) :
    Standing given picture packet (· = takes s.log) s := { h with taken := rfl }

theorem Standing.move (h : Standing given picture packet Q s) (picture' : Picture)
    (packet' : Packet) :
    Standing given picture' packet' Q
      { s with
        objects :=
          { context := .opened, picture := picture', packet := packet', scaler := s.sws } } :=
  { h with objects := rfl }

theorem triple_api {f : Objects → Option Objects} {P Q E : State → Prop}
    (h : ∀ s, P s → ∃ objects, f s.objects = some objects ∧ Q { s with objects }) :
    Triple P (api f) (fun _ => Q) E := by
  refine .ofOutcome fun s hs => ?_
  obtain ⟨objects, hf, hQ⟩ := h s hs
  refine ⟨(.ok (), { s with objects }), ?_, hQ⟩
  rw [hf]
  rfl

/-- A call that changes the picture and the packet. -/
theorem triple_move {f : Objects → Option Objects} {E : State → Prop}
    (h : ∀ sws, f { context := .opened, picture, packet, scaler := sws } =
      some { context := .opened, picture := picture', packet := packet', scaler := sws }) :
    Triple (Standing given picture packet Q) (api f)
      (fun _ => Standing given picture' packet' Q) E :=
  triple_api fun s hs => ⟨_, by rw [hs.objects]; exact h s.sws, hs.move picture' packet'⟩

theorem triple_readFrame {f : Frame} {E : State → Prop} :
    Triple (Standing given (.filled f) packet Q) readFrame
      (fun a s => a = f ∧ Standing given (.filled f) packet Q s) E := by
  refine .ofOutcome fun s hs => ⟨(.ok f, s), ?_, rfl, hs⟩
  rw [hs.objects]

theorem triple_guard {α : Type} {p : Prop} [Decidable p] {P E : State → Prop}
    {Q : α → State → Prop} {f : Unit → Code α} (e : DecodeError) (herror : ¬ p → ∀ s, P s → E s)
    (h : p → Triple P (f ()) Q E) : Triple P (ensure (fun _ => p) e >>= f) Q E := by
  intro s hs
  have hensure : outcome (ensure (fun _ => p) e : Code Unit) s =
      some (if p then .ok ⟨⟩ else .error e, s) := rfl
  by_cases hp : p
  · rw [if_pos hp] at hensure
    rw [outcome_bind_ok hensure]
    exact h hp s hs
  · rw [if_neg hp] at hensure
    exact ⟨(.error e, s), outcome_bind_error f hensure, herror hp s hs⟩

theorem triple_assume {α : Type} {p : Prop} {P E : State → Prop} {Q : α → State → Prop}
    {m : Code α} (h : p → Triple P m Q E) : Triple (fun s => p ∧ P s) m Q E :=
  fun s hs => h hs.1 s hs.2

theorem Standing.take {f : Frame} {tile : Nat}
    (h : Standing given (.filled f) packet (· = done) s)
    (hroute : s.routes.lookup f.pts = some tile) :
    Standing given (.filled f) packet (· = done ++ [(f.pts, tile)])
      { s with routes := s.routes.erase f.pts, log := s.log ++ [.taken f.pts tile] } where
  objects := h.objects
  routed := h.routed.erase f.pts tile
  sound := h.sound.taken (h.routed _ _ hroute)
  size := (MacVnc.Lib.WeightedMap.length_keys_erase_le _ _).trans h.size
  taken := by rw [takes_taken, h.taken]
  accepted := by rw [accepts_taken]; exact h.accepted

theorem scale_ok {f : Frame} {length : Nat} (hwidth : 0 ≤ f.width) (hheight : 0 ≤ f.height)
    (hlength : rgbaLen f.width.toNat f.height.toNat = .ok length) (packet : Packet) :
    Objects.scale (f.width * 4) f.height length
        { context := .opened, picture := .filled f, packet, scaler := true } =
      some { context := .opened, picture := .filled f, packet, scaler := true } := by
  obtain ⟨-, -, -, hlength⟩ := rgbaLen_eq_ok_iff.1 hlength
  have hsize : f.width * 4 * f.height ≤ (length : Int) := by
    rw [hlength]
    push_cast
    rw [Int.toNat_of_nonneg hwidth, Int.toNat_of_nonneg hheight, Int.mul_right_comm]
  exact if_pos ⟨rfl, by omega, Int.le_refl _, rfl, hsize⟩

/-- A frame comes out under the route that it takes, or it takes one and fails. -/
theorem triple_convert (f : Frame) (answer : Conversion) :
    Triple (Standing given (.filled f) packet (· = done)) (convert answer)
      (fun result s =>
        Standing given (.filled f) packet (· = done ++ result.toList.map DecodedTile.key) s ∧
          ∀ t ∈ result.toList, t.Sized)
      (Standing given (.filled f) packet (done <+: ·)) := by
  unfold convert
  refine triple_readFrame.bind fun f' => triple_assume fun hframe => ?_
  subst hframe
  refine Triple.get.bind fun s₀ => ?_
  cases hroute : s₀.routes.lookup f'.pts with
  | none =>
      refine (Triple.pure none).pre fun s hs => ⟨?_, fun t ht => (List.not_mem_nil ht).elim⟩
      rw [Option.toList_none, List.map_nil, List.append_nil]
      exact hs.1
  | some tile =>
      have hfailed : ∀ s, Standing given (.filled f') packet (· = done ++ [(f'.pts, tile)]) s →
          Standing given (.filled f') packet (done <+: ·) s :=
        fun s hs => hs.weaken fun l hl => hl ▸ List.prefix_append _ _
      have hmodify : Triple (fun s => s.routes.lookup f'.pts = some tile ∧
            Standing given (.filled f') packet (· = done) s)
          (modify fun s =>
            { s with routes := s.routes.erase f'.pts, log := s.log ++ [.taken f'.pts tile] } :
            Code Unit)
          (fun _ => Standing given (.filled f') packet (· = done ++ [(f'.pts, tile)]))
          (Standing given (.filled f') packet (done <+: ·)) :=
        (Triple.modify _).pre fun s hs => hs.2.take hs.1
      refine (hmodify.pre fun s hs => ?_).bind fun _ => ?_
      · rw [hs.2] at hroute
        exact ⟨hroute, hs.1⟩
      refine triple_guard _ (fun _ => hfailed) fun hwidth =>
        triple_guard _ (fun _ => hfailed) fun hheight => ?_
      cases hlength : rgbaLen f'.width.toNat f'.height.toNat with
      | error e => exact (Triple.throw _).pre hfailed
      | ok length =>
          let Held (s : State) : Prop :=
            Standing given (.filled f') packet (· = done ++ [(f'.pts, tile)]) s ∧
              s.sws = answer.scaler
          have hlost : ∀ s, Held s → Standing given (.filled f') packet (done <+: ·) s :=
            fun s hs => hfailed s hs.1
          refine Triple.get.bind fun s₁ => ?_
          refine (triple_api (Q := fun s => Held { s with sws := answer.scaler })
            fun s hs => ?_).bind fun _ => ?_
          · refine ⟨{ s.objects with scaler := answer.scaler }, if_pos ?_, ?_, rfl⟩
            · rw [hs.2, hs.1.objects]
            · exact { hs.1 with objects := by rw [hs.1.objects] }
          refine (Triple.modify (Q := fun _ => Held) _).bind fun _ => ?_
          refine triple_guard _ (fun _ => hlost) fun hscaler =>
            triple_guard _ (fun _ => hlost) fun hroom => ?_
          refine (triple_api (Q := Held) fun s hs => ⟨s.objects, ?_, hs⟩).bind fun _ => ?_
          · rw [hs.1.objects, hs.2, hscaler]
            exact scale_ok hwidth hheight hlength packet
          refine triple_guard _ (fun _ => hlost) fun hrows => ?_
          refine (Triple.pure _).pre fun s hs => ⟨hs.1, fun t ht => ?_⟩
          obtain rfl := List.mem_singleton.1 ht
          rw [DecodedTile.Sized, List.length_map, List.length_range]
          exact hlength

/-- What the calls before have fetched is not lost. -/
theorem Standing.extended {more : List (Int × Nat)}
    (h : Standing given picture packet (done ++ more <+: ·) s) :
    Standing given picture packet (done <+: ·) s :=
  h.weaken fun _ hl => (List.prefix_append _ _).trans hl

theorem triple_receive {E : State → Prop} (frame : Option Frame) :
    Triple (Standing given .clean packet Q) (api (Objects.receive frame))
      (fun _ => Standing given (frame.elim .clean .filled) packet Q) E :=
  triple_move fun _ => rfl

theorem triple_unref {E : State → Prop} (f : Frame) :
    Triple (Standing given (.filled f) packet Q) (api Objects.frameUnref)
      (fun _ => Standing given .clean packet Q) E :=
  triple_move fun _ => rfl

/-- What is taken by a call that began behind `done`: the routes of its tiles, or some. -/
def Came {α : Type} (tiles : α → List DecodedTile) (done : List (Int × Nat)) :
    Except DecodeError α → List (Int × Nat) → Prop
  | .ok a, l => l = done ++ (tiles a).map DecodedTile.key ∧ ∀ t ∈ tiles a, t.Sized
  | .error _, l => done <+: l

theorem triple_attempt {α : Type} (tiles : α → List DecodedTile) {P E : State → Prop}
    {m : Code α} (h : Triple P m
      (fun a s => Standing given picture packet (· = done ++ (tiles a).map DecodedTile.key) s ∧
        ∀ t ∈ tiles a, t.Sized)
      (Standing given picture packet (done <+: ·))) :
    Triple P (attempt m) (fun result => Standing given picture packet (Came tiles done result)) E :=
  (h.post (fun _ _ hs => hs.1.weaken fun _ hl => ⟨hl, hs.2⟩) fun _ hs _ => hs).attempt

/-- The tiles are those whose routes were taken, in their order. -/
theorem triple_drainFrames (code : Int) (frames : List (Frame × Conversion)) :
    Triple (Standing given .clean packet (· = done)) (drainFrames code frames)
      (fun out s => Standing given .clean packet (· = done ++ out.map DecodedTile.key) s ∧
        ∀ t ∈ out, t.Sized)
      (Standing given .clean packet (done <+: ·)) := by
  induction frames generalizing done with
  | nil =>
      refine (triple_receive none).bind fun _ => ?_
      split
      · refine (Triple.pure []).pre fun s hs => ⟨?_, fun t ht => (List.not_mem_nil ht).elim⟩
        rwa [List.map_nil, List.append_nil]
      · exact (Triple.throw _).pre fun s hs => hs.weaken fun l hl => hl ▸ List.prefix_rfl
  | cons head rest ih =>
      obtain ⟨frame, answer⟩ := head
      refine (triple_receive (some frame)).bind fun _ => ?_
      refine (triple_attempt Option.toList (triple_convert frame answer)).bind fun result => ?_
      refine (triple_unref frame).bind fun _ => ?_
      match result with
      | .error e => exact Triple.throw e
      | .ok none =>
          refine ih.pre fun s hs => hs.weaken fun l hl => ?_
          rw [hl.1]
          exact List.append_nil done
      | .ok (some t) =>
          refine fun s hs => Triple.bind (ih.post (fun _ _ h => h) fun _ h => h.extended)
            (fun out => (Triple.pure (t :: out)).pre fun s' hs' => ?_) s
            (hs.weaken fun l hl => hl.1)
          refine ⟨hs'.1.weaken fun l hl => ?_, List.forall_mem_cons.2 ⟨?_, hs'.2⟩⟩
          · rw [hl, List.append_assoc]
            rfl
          · exact hs.taken.2 t (List.mem_singleton_self t)

theorem triple_drain (received : Received) :
    Triple (Standing given .clean packet (· = done)) (drain received)
      (fun out s => Standing given .clean packet (· = done ++ out.map DecodedTile.key) s ∧
        ∀ t ∈ out, t.Sized)
      (Standing given .clean packet (done <+: ·)) :=
  triple_drainFrames received.code received.frames

theorem triple_send {E : State → Prop} (data : List UInt8) (pts : Int) :
    Triple (Standing given picture (.filled data pts) Q) (api Objects.send)
      (fun _ => Standing given picture (.filled data pts) Q) E :=
  triple_move fun _ => rfl

theorem triple_packetFree {E : State → Prop} (packet : Packet) (h : packet ≠ .absent) :
    Triple (Standing given picture packet Q) (api Objects.packetFree)
      (fun _ => Standing given picture .absent Q) E :=
  triple_move fun _ => if_pos h

/-- A packet is sent, with the tiles that come out before it can be; it is freed after an error. -/
theorem triple_sendPacket (answers : Answers) (data : List UInt8) (pts : Int) :
    Triple (Standing given .clean (.filled data pts) (· = done)) (sendPacket answers)
      (fun result s =>
        Standing given .clean (.filled data pts)
          (· = done ++ result.1.map DecodedTile.key) s ∧ ∀ t ∈ result.1, t.Sized)
      (Standing given .clean .absent (done <+: ·)) := by
  refine (triple_send data pts).bind fun _ => ?_
  split
  · refine (triple_attempt id (triple_drain answers.drained)).bind fun result => ?_
    match result with
    | .error e =>
        exact (triple_packetFree (.filled data pts) nofun).bind fun _ => Triple.throw e
    | .ok out =>
        refine (triple_send data pts).bind fun _ => (Triple.pure (out, answers.resent)).pre ?_
        exact fun s hs => ⟨hs.weaken fun l hl => hl.1, hs.taken.2⟩
  · refine (Triple.pure ([], answers.sent)).pre fun s hs => ⟨?_, fun t ht => ?_⟩
    · rwa [List.map_nil, List.append_nil]
    · exact (List.not_mem_nil ht).elim

/-- What a unit is routed by. -/
def unitKey (au : AccessUnit) : Int × Nat := (au.pts, au.tile)

/-- The route is there for the frames that come next. -/
theorem Standing.accept (au : AccessUnit) (h : Standing given picture packet Q s) :
    Standing (given ++ [unitKey au]) picture packet Q
      { s with
        routes := insertRoute au.pts au.tile s.routes
        log := s.log ++ [.accepted au.pts au.tile] } where
  objects := h.objects
  routed := h.routed.insert au.pts au.tile
  sound := h.sound.accepted au.pts au.tile
  size := keys_insertRoute _ _ _
  taken := by rw [takes_accepted]; exact h.taken
  accepted := by rw [accepts_accepted]; exact h.accepted.append (List.Sublist.refl _)

theorem Standing.more (h : Standing given picture packet Q s) (entry : Int × Nat) :
    Standing (given ++ [entry]) picture packet Q s :=
  { h with accepted := h.accepted.trans (List.sublist_append_left _ _) }

theorem triple_decode (au : AccessUnit) (answers : Answers) :
    Triple (Standing given .clean .absent (· = done)) (decode au answers)
      (fun out s => Standing (given ++ [unitKey au]) .clean .absent
          (· = done ++ out.map DecodedTile.key) s ∧ ∀ t ∈ out, t.Sized)
      (Standing (given ++ [unitKey au]) .clean .absent (done <+: ·)) := by
  have hfailed : ∀ s, Standing given .clean .absent (· = done) s →
      Standing (given ++ [unitKey au]) .clean .absent (done <+: ·) s :=
    fun s hs => (hs.more _).weaken fun l hl => hl ▸ List.prefix_rfl
  refine triple_guard _ (fun _ => hfailed) fun hlength => ?_
  have halloc {E : State → Prop} : Triple (Standing given .clean .absent (· = done))
      (api (Objects.packetAlloc answers.packet))
      (fun _ => Standing given .clean (if answers.packet then .empty else .absent) (· = done)) E :=
    triple_move fun _ => rfl
  refine halloc.bind fun _ => triple_guard _ (fun hnull s hs => ?_) fun hpacket => ?_
  · rw [if_neg hnull] at hs
    exact hfailed s hs
  rw [if_pos hpacket]
  have hnew {E : State → Prop} : Triple (Standing given .clean .empty (· = done))
      (api (Objects.packetNew answers.buffer answers.data au.data.length))
      (fun _ => Standing given .clean
        (if 0 ≤ answers.buffer ∧ answers.data then .buffer au.data.length else .empty)
        (· = done)) E :=
    triple_move fun _ => rfl
  refine hnew.bind fun _ => ?_
  by_cases hbuffer : answers.buffer < 0 ∨ ¬ answers.data
  · rw [if_pos hbuffer, if_neg fun h => hbuffer.elim (Int.not_lt.2 h.1) fun hnull => hnull h.2]
    exact (triple_packetFree .empty nofun).bind fun _ => (Triple.throw _).pre hfailed
  · rw [if_neg hbuffer]
    rw [not_or, not_not, Int.not_lt] at hbuffer
    rw [if_pos hbuffer]
    have hfill {E : State → Prop} : Triple
        (Standing given .clean (.buffer au.data.length) (· = done))
        (api (Objects.packetFill au.data au.pts))
        (fun _ => Standing given .clean (.filled au.data au.pts) (· = done)) E :=
      triple_move fun _ => if_pos rfl
    refine hfill.bind fun _ => ?_
    refine ((triple_sendPacket answers au.data au.pts).post (fun _ _ h => h)
      fun _ h => h.more _).bind fun ⟨out, code⟩ => ?_
    intro s hs
    obtain ⟨hs, hout⟩ := hs
    refine Triple.bind (triple_packetFree (.filled au.data au.pts) nofun)
      (fun _ => triple_guard _ (fun _ s hs => ?_) fun hcode => ?_) s hs
    · exact (hs.more _).weaken fun l hl => hl ▸ List.prefix_append _ _
    have hmodify : Triple (Standing given .clean .absent (· = done ++ out.map DecodedTile.key))
        (modify fun s =>
          { s with
            routes := insertRoute au.pts au.tile s.routes
            log := s.log ++ [.accepted au.pts au.tile] } : Code Unit)
        (fun _ => Standing (given ++ [unitKey au]) .clean .absent
          (· = done ++ out.map DecodedTile.key))
        (Standing (given ++ [unitKey au]) .clean .absent (done <+: ·)) :=
      (Triple.modify _).pre fun s hs => hs.accept au
    refine hmodify.bind fun _ => ?_
    refine ((triple_drain answers.last).post (fun _ _ h => h) fun _ h => h.extended).bind
      fun rest => (Triple.pure (out ++ rest)).pre fun s hs => ?_
    refine ⟨hs.1.weaken fun l hl => ?_, List.forall_mem_append.2 ⟨hout, hs.2⟩⟩
    rw [hl, List.map_append, List.append_assoc]

def produced (results : List (Except DecodeError (List DecodedTile))) : List DecodedTile :=
  results.flatMap fun result => result.toOption.getD []

/-- What has come out behind `done`. -/
structure Produced (done : List (Int × Nat)) (calls : List (AccessUnit × Answers))
    (results : List (Except DecodeError (List DecodedTile))) (l : List (Int × Nat)) : Prop where
  length : results.length = calls.length
  tiles : ∃ more, l = done ++ more ∧ ((produced results).map DecodedTile.key).Sublist more
  sized : ∀ t ∈ produced results, t.Sized

theorem produced_came {done l : List (Int × Nat)} {result : Except DecodeError (List DecodedTile)}
    (h : Came id done result l) :
    ∃ more, l = done ++ more ∧
      ((result.toOption.getD []).map DecodedTile.key).Sublist more ∧
      ∀ t ∈ result.toOption.getD [], t.Sized := by
  match result with
  | .ok out => exact ⟨_, h.1, List.Sublist.refl _, h.2⟩
  | .error _ =>
      obtain ⟨more, hmore⟩ := h
      exact ⟨more, hmore.symm, List.nil_sublist _, fun t ht => (List.not_mem_nil ht).elim⟩

theorem triple_decodeAll {E : State → Prop} (calls : List (AccessUnit × Answers)) :
    Triple (Standing given .clean .absent (· = done)) (decodeAll calls)
      (fun results => Standing (given ++ calls.map fun c => unitKey c.1) .clean .absent
        (Produced done calls results)) E := by
  induction calls generalizing given done with
  | nil =>
      refine (Triple.pure []).pre fun s hs => ?_
      rw [List.map_nil, List.append_nil]
      exact hs.weaken fun l hl => ⟨rfl, ⟨[], by rw [hl, List.append_nil], List.nil_sublist _⟩,
        fun t ht => (List.not_mem_nil ht).elim⟩
  | cons head rest ih =>
      obtain ⟨au, answers⟩ := head
      refine (triple_attempt id (triple_decode au answers)).bind fun result => ?_
      intro s hs
      obtain ⟨more, hmore, htiles, hsized⟩ := produced_came hs.taken
      refine Triple.bind (@ih _ (takes s.log))
        (fun results => (Triple.pure (result :: results)).pre fun s' hs' => ?_) s
        hs.now
      rw [List.append_assoc] at hs'
      refine hs'.weaken fun l hl => ⟨congrArg (· + 1) hl.length, ?_, ?_⟩
      · obtain ⟨later, hlater, hrest⟩ := hl.tiles
        refine ⟨more ++ later, by rw [hlater, hmore, List.append_assoc], ?_⟩
        rw [produced, List.flatMap_cons, List.map_append]
        exact htiles.append hrest
      · rw [produced, List.flatMap_cons, List.forall_mem_append]
        exact ⟨hsized, hl.sized⟩

end Calls

/-! ## The life of a decoder -/

/-- Nothing is left of the objects. -/
def Freed (s : State) : Prop := s.objects = .none

def Opens (context : Context) (picture : Picture) (s : State) : Prop :=
  s = { State.start with objects := { context, picture, packet := .absent, scaler := false } }

theorem triple_opens {context context' : Context} {picture picture' : Picture}
    {f : Objects → Option Objects} {E : State → Prop}
    (h : f { context, picture, packet := .absent, scaler := false } =
      some { context := context', picture := picture', packet := .absent, scaler := false }) :
    Triple (Opens context picture) (api f) (fun _ => Opens context' picture') E := by
  refine triple_api fun s hs => ?_
  cases hs
  exact ⟨_, h, rfl⟩

theorem freed_of_opens {s : State} (h : Opens .absent .absent s) : Freed s := by
  cases h
  rfl

/-- What was allocated is freed before the error. -/
theorem triple_abandon (context : Context) (h : context ≠ .absent) (e : DecodeError)
    {Q : Unit → State → Prop} :
    Triple (Opens context .absent) (do api Objects.contextFree; throw e) Q Freed := by
  have hfree {E : State → Prop} : Triple (Opens context .absent) (api Objects.contextFree)
      (fun _ => Opens .absent .absent) E := triple_opens (if_pos h)
  exact hfree.bind fun _ => (Triple.throw e).pre fun _ => freed_of_opens

theorem triple_configure (codes : List Int) :
    Triple (Opens .allocated .absent) (configure codes) (fun _ => Opens .allocated .absent)
      Freed := by
  induction codes with
  | nil => exact (Triple.pure ()).pre fun _ => id
  | cons code rest ih =>
      have hset {E : State → Prop} : Triple (Opens .allocated .absent)
          (api Objects.setOption) (fun _ => Opens .allocated .absent) E := triple_opens rfl
      refine hset.bind fun _ => ?_
      split
      · exact triple_abandon .allocated nofun _
      · exact ih

theorem triple_new (answers : Opening) :
    Triple (Opens .absent .absent) (new answers) (fun _ => Opens .opened .clean) Freed := by
  refine triple_guard _ (fun _ _ => freed_of_opens) fun _ => ?_
  have halloc {E : State → Prop} : Triple (Opens .absent .absent)
      (api (Objects.contextAlloc answers.context))
      (fun _ => Opens (if answers.context then .allocated else .absent) .absent) E :=
    triple_opens rfl
  refine halloc.bind fun _ => triple_guard _ (fun hnull s hs => ?_) fun hcontext => ?_
  · rw [if_neg hnull] at hs
    exact freed_of_opens hs
  rw [if_pos hcontext]
  refine (triple_configure answers.options).bind fun _ => ?_
  have hopen {E : State → Prop} : Triple (Opens .allocated .absent)
      (api (Objects.contextOpen answers.opened))
      (fun _ => Opens (if answers.opened < 0 then .allocated else .opened) .absent) E :=
    triple_opens rfl
  refine hopen.bind fun _ => ?_
  by_cases hopened : answers.opened < 0
  · rw [if_pos hopened, if_pos hopened]
    exact triple_abandon .allocated nofun _
  rw [if_neg hopened, if_neg hopened]
  have hframe {E : State → Prop} : Triple (Opens .opened .absent)
      (api (Objects.frameAlloc answers.frame))
      (fun _ => Opens .opened (if answers.frame then .clean else .absent)) E :=
    triple_opens rfl
  refine hframe.bind fun _ => ?_
  by_cases hpicture : ¬ answers.frame
  · rw [if_pos hpicture, if_neg hpicture]
    exact triple_abandon .opened nofun _
  rw [if_neg hpicture, if_pos (not_not.1 hpicture)]
  split
  · have hfree {E : State → Prop} : Triple (Opens .opened .clean) (api Objects.frameFree)
        (fun _ => Opens .opened .absent) E := triple_opens rfl
    exact hfree.bind fun _ => triple_abandon .opened nofun _
  · exact (Triple.pure ()).pre fun _ => id

/-- What a life leaves behind, whatever came out. -/
structure Ended (given : List (Int × Nat)) (Q : List (Int × Nat) → Prop) (s : State) : Prop where
  freed : Freed s
  sound : Sound s.log
  size : s.routes.keys.length ≤ maxRoutes
  taken : Q (takes s.log)
  accepted : (accepts s.log).Sublist given

theorem triple_drop {given : List (Int × Nat)} {Q : List (Int × Nat) → Prop} {E : State → Prop} :
    Triple (Standing given .clean .absent Q) drop (fun _ => Ended given Q) E := by
  let Closed (s : State) : Prop :=
    Ended given Q { s with objects := .none } ∧
      s.objects = { Objects.none with scaler := s.sws }
  have hframe : Triple (Standing given .clean .absent Q) (api Objects.frameFree)
      (fun _ => Standing given .absent .absent Q) E := triple_move fun _ => rfl
  refine hframe.bind fun _ => (triple_api (Q := Closed) fun s hs => ?_).bind fun _ => ?_
  · rw [hs.objects]
    exact ⟨_, rfl, ⟨rfl, hs.sound, hs.size, hs.taken, hs.accepted⟩, rfl⟩
  refine Triple.get.bind fun s₀ => ?_
  split
  · rename_i hsws
    refine triple_api fun s hs => ⟨_, ?_, hs.1.1⟩
    obtain ⟨⟨-, hobjects⟩, rfl⟩ := hs
    rw [hobjects]
    exact if_pos hsws
  · rename_i hsws
    refine (Triple.pure ()).pre fun s hs => ?_
    obtain ⟨⟨hended, hobjects⟩, rfl⟩ := hs
    rw [Bool.eq_false_iff.2 hsws] at hobjects
    exact { hended with freed := hobjects }

theorem triple_life (opening : Opening) (calls : List (AccessUnit × Answers)) :
    Triple (· = State.start) (life opening calls)
      (fun results => Ended (calls.map fun c => unitKey c.1) (Produced [] calls results))
      Freed := by
  refine ((triple_new opening).pre fun s hs => hs).bind fun _ => ?_
  have hstanding : ∀ s, Opens .opened .clean s → Standing [] .clean .absent (· = []) s := by
    intro s hs
    cases hs
    exact ⟨rfl, fun pts tile h => (Option.some_ne_none _ (h.symm.trans rfl)).elim, Sound.nil,
      Nat.zero_le _, rfl, List.nil_sublist _⟩
  refine ((triple_decodeAll calls).pre hstanding).bind fun results => ?_
  exact triple_drop.bind fun _ => (Triple.pure results).pre fun _ => id

/-- Whatever the library answers, the decoder never misuses an object, and none is left over:
not when it cannot be opened, not after a call that failed, and not in the end. -/
theorem life_frees_everything (opening : Opening) (calls : List (AccessUnit × Answers)) :
    ∃ result s, outcome (life opening calls) State.start = some (result, s) ∧
      s.objects = .none := by
  obtain ⟨⟨result, s⟩, hrun, hends⟩ := triple_life opening calls State.start rfl
  refine ⟨result, s, hrun, ?_⟩
  cases result with
  | ok results => exact hends.freed
  | error e => exact hends

/-- How the tiles of a life belong to its units. -/
structure Routing (calls : List (AccessUnit × Answers))
    (results : List (Except DecodeError (List DecodedTile))) (s : State) : Prop where
  length : results.length = calls.length
  taken : ((produced results).map DecodedTile.key).Sublist (takes s.log)
  origin : ∀ before pts tile after, s.log = before ++ .taken pts tile :: after →
    LastAccepted before pts tile
  accepted : (accepts s.log).Sublist (calls.map fun c => unitKey c.1)
  fewer : ∀ pts, (produced results).countP (fun t => t.pts == pts) ≤
    calls.countP fun c => c.1.pts == pts
  size : s.routes.keys.length ≤ 1024
  sized : ∀ t ∈ produced results, t.Sized

/-- Each tile comes out under the index that its timestamp was accepted with last, and a
timestamp gives no more tiles than units, in whatever order and however often frames come. -/
theorem life_routes_tiles (opening : Opening) (calls : List (AccessUnit × Answers)) :
    Triple (· = State.start) (life opening calls) (Routing calls) fun _ => True := by
  refine (triple_life opening calls).post (fun results s h => ?_) fun _ _ => trivial
  obtain ⟨more, hmore, htiles⟩ := h.taken.tiles
  rw [List.nil_append] at hmore
  rw [← hmore] at htiles
  refine ⟨h.taken.length, htiles, fun before pts tile after hlog => h.sound.origin hlog, h.accepted,
    fun pts => ?_, h.size, h.taken.sized⟩
  have htaken := ((htiles.map Prod.fst).count_le pts).trans
    ((Nat.le_add_right _ _).trans (h.sound.count_le pts))
  have haccepted := htaken.trans ((h.accepted.map Prod.fst).count_le pts)
  simpa [List.count, List.countP_map, Function.comp_def, DecodedTile.key, unitKey] using haccepted

end MacVnc.Media.HevcDecoder
