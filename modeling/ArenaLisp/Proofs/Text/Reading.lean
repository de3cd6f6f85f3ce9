import ArenaLisp.Proofs.Arena.Storing
import ArenaLisp.Text.Read

/-!
# What reading does to the arena

The reader keeps the parts of an unfinished expression outside the arena, in its frames. They stay
live because nothing is released while it reads, and a read that fails leaves only garbage behind.
-/

namespace ArenaLisp

namespace Arena

/-- A computation that failed: it kept what was handed out, and it found no free cell to print. -/
def Refuses (a : Arena) (fault : Fault) (b : Arena) : Prop :=
  fault ≠ .unprintable ∧ a.Grows b

/-- A computation that succeeded with a live value. -/
def Yields (a : Arena) (v : Value) (b : Arena) : Prop :=
  a.Grows b ∧ b.Live v

variable {a b c : Arena} {fault : Fault} {v : Value}

theorem OutOfRoom.refuses (h : a.OutOfRoom fault b) : a.Refuses fault b :=
  ⟨by simp [h.1], h.2⟩

theorem Refuses.after (grows : a.Grows b) (h : b.Refuses fault c) : a.Refuses fault c :=
  ⟨h.1, grows.trans h.2⟩

theorem Yields.after (grows : a.Grows b) (h : b.Yields v c) : a.Yields v c :=
  ⟨grows.trans h.1, h.2⟩

theorem yields_cons (sound : a.Sound) {head tail : Value} (h : a.Live head) (t : a.Live tail) :
    Storing.Ensures (cons head tail) a a.Yields a.Refuses :=
  (grows_cons sound h t).mono (fun _ _ yields => yields) fun _ _ room => room.refuses

theorem yields_symbol (sound : a.Sound) (name : Symbol) :
    Storing.Ensures (symbol name) a a.Yields a.Refuses :=
  (grows_symbol sound name).mono (fun _ _ yields => yields) fun _ _ room => room.refuses

end Arena

open Arena Storing

/-- The values that a frame has collected. -/
def Frame.values : Frame → List Value
  | .quoted => []
  | .list elements => elements
  | .dotted elements => elements
  | .remainder elements tail => tail :: elements

/-- Frames whose parts are live. -/
def LiveFrames (a : Arena) (frames : List Frame) : Prop :=
  ∀ frame ∈ frames, ∀ v ∈ frame.values, a.Live v

variable {a b : Arena} {frames : List Frame} {v : Value}

theorem LiveFrames.grows (h : LiveFrames a frames) (grows : a.Grows b) : LiveFrames b frames :=
  fun frame member v part => grows.extends'.live (h frame member v part)

theorem liveFrames_cons_iff {frame : Frame} :
    LiveFrames a (frame :: frames) ↔ (∀ v ∈ frame.values, a.Live v) ∧ LiveFrames a frames := by
  simp [LiveFrames]

namespace Reading

/-- How far a read has come, with everything it holds live. -/
def LiveIn (a : Arena) : Reading → Prop
  | .complete v => a.Live v
  | .within frames => LiveFrames a frames

/-- A computation of the reader that succeeded. -/
def Advances (a : Arena) (r : Reading) (b : Arena) : Prop :=
  a.Grows b ∧ r.LiveIn b

theorem Advances.after {c : Arena} {r : Reading} (grows : a.Grows b) (h : Advances b r c) :
    Advances a r c :=
  ⟨grows.trans h.1, h.2⟩

theorem ensures_makeList (sound : a.Sound) {elements : List Value} {tail : Value}
    (live : ∀ v ∈ elements, a.Live v) (liveTail : a.Live tail) :
    Ensures (makeList elements tail) a a.Yields a.Refuses := by
  induction elements generalizing a tail with
  | nil => exact ⟨.refl sound, liveTail⟩
  | cons element elements ih =>
    rw [makeList, ensures_bind]
    refine (yields_cons sound (live element (by simp)) liveTail).mono ?_ fun _ _ refuses => refuses
    rintro tail b ⟨grows, liveTail⟩
    have live' : ∀ v ∈ elements, b.Live v := fun v member =>
      grows.extends'.live (live v (List.mem_cons_of_mem _ member))
    exact (ih grows.sound live' liveTail).mono (fun _ _ yields => yields.after grows)
      fun _ _ refuses => refuses.after grows

theorem ensures_makeQuoted (sound : a.Sound) (live : a.Live v) :
    Ensures (makeQuoted v) a a.Yields a.Refuses := by
  rw [makeQuoted, ensures_bind]
  refine (yields_symbol sound Symbol.quote).mono ?_ fun _ _ refuses => refuses
  rintro quote b ⟨grows, liveQuote⟩
  rw [ensures_bind]
  have inner := yields_cons grows.sound (grows.extends'.live live) (live_nil b)
  refine inner.mono ?_ fun _ _ refuses => refuses.after grows
  rintro inner c ⟨grows', liveInner⟩
  have outer := yields_cons grows'.sound (grows'.extends'.live liveQuote) liveInner
  exact outer.mono (fun _ _ yields => yields.after (grows.trans grows'))
    fun _ _ refuses => refuses.after (grows.trans grows')

theorem ensures_makeWord (sound : a.Sound) (letters : List Byte) :
    Ensures (makeWord letters) a a.Yields a.Refuses := by
  unfold makeWord
  split
  · exact ⟨by simp, .refl sound⟩
  · split
    · exact ⟨.refl sound, live_nil a⟩
    · exact yields_symbol sound _

theorem ensures_deliver (sound : a.Sound) (live : a.Live v) (parts : LiveFrames a frames) :
    Ensures (deliver v frames) a (Advances a) a.Refuses := by
  induction frames generalizing a v with
  | nil => exact ⟨.refl sound, live⟩
  | cons frame frames ih =>
    obtain ⟨inner, outer⟩ := liveFrames_cons_iff.1 parts
    -- an expression that a frame completes is handed on to the frames around it
    have handOn : ∀ w b, a.Yields w b →
        Ensures (deliver w frames) b (Advances a) a.Refuses := by
      rintro w b ⟨grows, liveW⟩
      exact (ih grows.sound liveW (outer.grows grows)).mono (fun _ _ advances =>
        advances.after grows) fun _ _ refuses => refuses.after grows
    rcases frame with _ | elements | elements | ⟨elements, tail⟩
    · rw [deliver, ensures_bind]
      exact (ensures_makeQuoted sound live).mono handOn fun _ _ refuses => refuses
    · refine ⟨.refl sound, liveFrames_cons_iff.2 ⟨?_, outer⟩⟩
      simpa [Frame.values] using And.intro live inner
    · refine ⟨.refl sound, liveFrames_cons_iff.2 ⟨by simp [Frame.values], ?_⟩⟩
      refine liveFrames_cons_iff.2 ⟨?_, outer⟩
      simpa [Frame.values] using And.intro live inner
    · rw [deliver]
      split
      · rw [ensures_bind]
        have liveTail : a.Live tail := inner tail (by simp [Frame.values])
        refine (ensures_makeList sound ?_ liveTail).mono handOn fun _ _ refuses => refuses
        exact fun v member => inner v (by simp [Frame.values, member])
      · exact ⟨by simp, .refl sound⟩

theorem ensures_step (sound : a.Sound) (token : Token) (parts : LiveFrames a frames) :
    Ensures (step token frames) a (Advances a) a.Refuses := by
  have handOn : ∀ {frames'}, LiveFrames a frames' → ∀ w b, a.Yields w b →
      Ensures (deliver w frames') b (Advances a) a.Refuses := by
    rintro frames' parts w b ⟨grows, live⟩
    exact (ensures_deliver grows.sound live (parts.grows grows)).mono
      (fun _ _ advances => advances.after grows) fun _ _ refuses => refuses.after grows
  unfold step
  split
  · exact ⟨.refl sound, liveFrames_cons_iff.2 ⟨by simp [Frame.values], parts⟩⟩
  · exact ⟨.refl sound, liveFrames_cons_iff.2 ⟨by simp [Frame.values], parts⟩⟩
  · rw [ensures_bind]
    exact (ensures_makeWord sound _).mono (handOn parts) fun _ _ refuses => refuses
  · obtain ⟨inner, outer⟩ := liveFrames_cons_iff.1 parts
    rw [ensures_bind]
    exact (ensures_makeList sound inner (live_nil a)).mono (handOn outer) fun _ _ refuses =>
      refuses
  · exact ⟨by simp, .refl sound⟩
  · obtain ⟨inner, outer⟩ := liveFrames_cons_iff.1 parts
    exact ⟨.refl sound, liveFrames_cons_iff.2 ⟨inner, outer⟩⟩
  · exact ⟨.refl sound, parts⟩

/-- What a read comes to: the arena grew, and an expression that was read is live. -/
def Outcome (a : Arena) : Except Fault Value × Console × Arena → Prop
  | (.ok v, _, b) => a.Yields v b
  | (.error fault, _, b) => a.Refuses fault b

theorem outcome_run (n : Nat) (sound : a.Sound) (parts : LiveFrames a frames) (c : Console) :
    Outcome a (run n frames c a) := by
  induction n generalizing a frames c with
  | zero => exact ⟨by simp, .refl sound⟩
  | succ n ih =>
    rw [run]
    rcases c.nextToken with ⟨_ | token, c⟩
    · exact ⟨by simp, .refl sound⟩
    · have ensures := ensures_step sound token parts
      unfold Ensures at ensures
      rcases stepped : (step token frames).run a with ⟨fault | v | frames', b⟩
      · simpa [stepped, Outcome] using ensures
      · simpa [stepped, Outcome, Advances, LiveIn, Yields] using ensures
      · simp only [stepped] at ensures ⊢
        obtain ⟨grows, parts⟩ := ensures
        have rest := ih grows.sound parts c
        revert rest
        rcases run n frames' c b with ⟨fault | v, c, d⟩ <;> intro rest
        · exact Refuses.after grows rest
        · exact Yields.after grows rest

end Reading

theorem Console.outcome_read (sound : a.Sound) (c : Console) :
    Reading.Outcome a (c.read a) :=
  Reading.outcome_run _ sound (by simp [LiveFrames]) c

end ArenaLisp
