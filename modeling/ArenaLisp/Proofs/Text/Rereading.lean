import ArenaLisp.Proofs.Arena.Tandem
import ArenaLisp.Proofs.Text.Reading

/-!
# Reading a text into two arenas

One text is read into matching arenas as expressions that are the same, character by character, or
it is refused by both with one fault.
-/

namespace ArenaLisp

open Arena Storing

/-- Frames that have collected the same. -/
inductive SameFrame (R : Nat → Nat → Prop) : Frame → Frame → Prop where
  | quoted : SameFrame R .quoted .quoted
  | list {es es' : List Value} : List.Forall₂ (Same R) es es' → SameFrame R (.list es) (.list es')
  | dotted {es es' : List Value} : List.Forall₂ (Same R) es es' →
    SameFrame R (.dotted es) (.dotted es')
  | remainder {es es' : List Value} {tail tail' : Value} : List.Forall₂ (Same R) es es' →
    Same R tail tail' → SameFrame R (.remainder es tail) (.remainder es' tail')

/-- Readings that have come equally far. -/
inductive SameReading (R : Nat → Nat → Prop) : Reading → Reading → Prop where
  | complete {v w : Value} : Same R v w → SameReading R (.complete v) (.complete w)
  | within {fs fs' : List Frame} : List.Forall₂ (SameFrame R) fs fs' →
    SameReading R (.within fs) (.within fs')

variable {R S : Nat → Nat → Prop} {a b : Arena} {v w : Value} {frames frames' : List Frame}
  {es es' : List Value}

theorem sames_le (h : List.Forall₂ (Same R) es es') (sub : R ≤ S) :
    List.Forall₂ (Same S) es es' :=
  h.imp fun _ _ same => same.le sub

theorem SameFrame.le {frame frame' : Frame} (h : SameFrame R frame frame') (sub : R ≤ S) :
    SameFrame S frame frame' := by
  cases h with
  | quoted => exact .quoted
  | list elements => exact .list (sames_le elements sub)
  | dotted elements => exact .dotted (sames_le elements sub)
  | remainder elements tail => exact .remainder (sames_le elements sub) (tail.le sub)

theorem sameFrames_le (h : List.Forall₂ (SameFrame R) frames frames') (sub : R ≤ S) :
    List.Forall₂ (SameFrame S) frames frames' :=
  h.imp fun _ _ same => same.le sub

/-- The faults of a token. The end of the input is none of them. -/
def Fault.OfToken (fault : Fault) : Prop :=
  fault ≠ .endOfInput

namespace Reading

variable [Ration]

/-- Readings of matching arenas that went on equally far. -/
def Progress (R : Nat → Nat → Prop) (a b : Arena) (r r' : Reading) (c d : Arena) : Prop :=
  ∃ S, R ≤ S ∧ SameReading S r r' ∧ Match S c d ∧ a.Grows c ∧ b.Grows d

theorem Progress.after {c d e f : Arena} {r r' : Reading} (first : Pairing R a b S v w c d)
    (second : Progress S c d r r' e f) : Progress R a b r r' e f := by
  obtain ⟨T, wider, same, arenas, grows, grows'⟩ := second
  exact ⟨T, first.wider.trans wider, same, arenas, first.grows.trans grows,
    first.grows'.trans grows'⟩

theorem pairs_makeList {tail tail' : Value} (sound : a.Sound) (sound' : b.Sound)
    (h : Match R a b) (elements : List.Forall₂ (Same R) es es') (same : Same R tail tail') :
    Tandem (makeList es tail) (makeList es' tail') a b (Pairs R a b) Fault.OfToken := by
  induction es generalizing a b R es' tail tail' with
  | nil =>
    cases elements
    exact tandem_pure ⟨R, le_refl R, same, h, .refl sound, .refl sound'⟩
  | cons element es ih =>
    obtain _ | ⟨first, rest⟩ := elements
    unfold makeList
    apply (pairs_cons sound sound' h first same).bind
    intro tail tail' c d first
    obtain ⟨S, pairing⟩ := first
    have further := ih pairing.grows.sound pairing.grows'.sound pairing.arenas
      (sames_le rest pairing.wider) pairing.same
    apply further.mono
    intro v w e f second
    obtain ⟨T, second⟩ := second
    exact ⟨T, pairing.after second⟩

section

variable (sound : a.Sound) (sound' : b.Sound) (h : Match R a b)
include sound sound' h

theorem pairs_makeQuoted (same : Same R v w) :
    Tandem (makeQuoted v) (makeQuoted w) a b (Pairs R a b) Fault.OfToken := by
  unfold makeQuoted
  apply (pairs_symbol sound sound' h Symbol.quote).bind
  intro quote quote' c d first
  obtain ⟨S, first⟩ := first
  apply (pairs_cons first.grows.sound first.grows'.sound first.arenas (same.le first.wider)
    .nil).bind
  intro inner inner' e f second
  obtain ⟨T, second⟩ := second
  have outer := pairs_cons (E := Fault.OfToken) second.grows.sound second.grows'.sound
    second.arenas (first.same.le second.wider) second.same
  apply outer.mono
  intro v w i j third
  obtain ⟨U, third⟩ := third
  exact ⟨U, (first.after second).after third⟩

theorem pairs_makeWord (letters : List Byte) :
    Tandem (makeWord letters) (makeWord letters) a b (Pairs R a b) Fault.OfToken := by
  unfold makeWord
  split
  · exact tandem_throw (by simp [Fault.OfToken])
  · split
    · exact tandem_pure ⟨R, le_refl R, .nil, h, .refl sound, .refl sound'⟩
    · exact pairs_symbol sound sound' h _

omit sound sound' h in
theorem tandem_deliver (sound : a.Sound) (sound' : b.Sound) (h : Match R a b) (same : Same R v w)
    (parts : List.Forall₂ (SameFrame R) frames frames') :
    Tandem (deliver v frames) (deliver w frames') a b (Progress R a b) Fault.OfToken := by
  induction frames generalizing a b R frames' v w with
  | nil =>
    cases parts
    exact tandem_pure ⟨R, le_refl R, .complete same, h, .refl sound, .refl sound'⟩
  | cons frame frames ih =>
    obtain _ | @⟨_, frame', _, frames', first, rest⟩ := parts
    have handOn : ∀ x y c d, Pairs R a b x y c d →
        Tandem (deliver x frames) (deliver y frames') c d (Progress R a b) Fault.OfToken := by
      intro x y c d h
      obtain ⟨S, pairing⟩ := h
      have further := ih pairing.grows.sound pairing.grows'.sound pairing.arenas pairing.same
        (sameFrames_le rest pairing.wider)
      exact further.mono fun _ _ _ _ progress => progress.after pairing
    have stay : ∀ {fs fs'}, List.Forall₂ (SameFrame R) fs fs' →
        Tandem (pure (.within fs)) (pure (.within fs')) a b (Progress R a b) Fault.OfToken :=
      fun sames => tandem_pure ⟨R, le_refl R, .within sames, h, .refl sound, .refl sound'⟩
    cases first with
    | quoted => exact (pairs_makeQuoted sound sound' h same).bind handOn
    | list elements => exact stay (.cons (.list (.cons same elements)) rest)
    | dotted elements => exact stay (.cons (.list .nil) (.cons (.remainder elements same) rest))
    | remainder elements tail =>
      unfold deliver
      by_cases empty : v = .nil
      · rw [if_pos empty, if_pos (same.nil_iff.1 empty)]
        exact (pairs_makeList sound sound' h elements tail).bind handOn
      · rw [if_neg empty, if_neg fun is => empty (same.nil_iff.2 is)]
        exact tandem_throw (by simp [Fault.OfToken])

theorem tandem_step (token : Token) (parts : List.Forall₂ (SameFrame R) frames frames') :
    Tandem (step token frames) (step token frames') a b (Progress R a b) Fault.OfToken := by
  have handOn : ∀ {fs fs'}, List.Forall₂ (SameFrame R) fs fs' → ∀ x y c d, Pairs R a b x y c d →
      Tandem (deliver x fs) (deliver y fs') c d (Progress R a b) Fault.OfToken := by
    intro fs fs' sames x y c d h
    obtain ⟨S, pairing⟩ := h
    have further := tandem_deliver pairing.grows.sound pairing.grows'.sound pairing.arenas
      pairing.same (sameFrames_le sames pairing.wider)
    exact further.mono fun _ _ _ _ progress => progress.after pairing
  have stay : ∀ {fs fs'}, List.Forall₂ (SameFrame R) fs fs' →
      Tandem (pure (.within fs)) (pure (.within fs')) a b (Progress R a b) Fault.OfToken :=
    fun sames => tandem_pure ⟨R, le_refl R, .within sames, h, .refl sound, .refl sound'⟩
  cases token with
  | opening => exact stay (.cons (.list .nil) parts)
  | quote => exact stay (.cons .quoted parts)
  | word letters => exact (pairs_makeWord sound sound' h letters).bind (handOn parts)
  | closing =>
    cases parts with
    | nil => exact tandem_throw (by simp [Fault.OfToken])
    | cons first rest =>
      cases first with
      | list elements => exact (pairs_makeList sound sound' h elements .nil).bind (handOn rest)
      | quoted => exact tandem_throw (by simp [Fault.OfToken])
      | dotted => exact tandem_throw (by simp [Fault.OfToken])
      | remainder => exact tandem_throw (by simp [Fault.OfToken])
  | dot =>
    cases parts with
    | nil => exact stay .nil
    | cons first rest =>
      cases first with
      | list elements => exact stay (.cons (.dotted elements) rest)
      | quoted => exact stay (.cons .quoted rest)
      | dotted elements => exact stay (.cons (.dotted elements) rest)
      | remainder elements tail => exact stay (.cons (.remainder elements tail) rest)

end

/-- Consoles and arenas after one text was read from two of them. -/
def After (R : Nat → Nat → Prop) (s t : Console × Arena) : Prop :=
  s.1 = t.1 ∧ ∃ S, R ≤ S ∧ Match S s.2 t.2

theorem agree_run (n : Nat) (sound : a.Sound) (sound' : b.Sound) (h : Match R a b)
    (parts : List.Forall₂ (SameFrame R) frames frames') (c : Console) :
    Agree (fun v w s t => s.1 = t.1 ∧ ∃ S, R ≤ S ∧ Match S s.2 t.2 ∧ Same S v w)
      (fun fault s t => fault = .endOfInput → After R s t)
      (run n frames c a) (run n frames' c b) := by
  induction n generalizing a b R frames frames' c with
  | zero => exact .error fun _ => ⟨rfl, R, le_refl R, h⟩
  | succ n ih =>
    unfold run
    obtain ⟨token, c⟩ := c.nextToken
    cases token with
    | none => exact .error fun _ => ⟨rfl, R, le_refl R, h⟩
    | some token =>
      have steps := tandem_step sound sound' h token parts
      unfold Tandem at steps
      dsimp only
      generalize (step token frames).run a = x at steps
      generalize (step token frames').run b = y at steps
      cases steps with
      | noRoom => exact .noRoom
      | noRoom' free => exact .noRoom' free
      | error ofToken => exact .error fun ended => absurd ended ofToken
      | ok progress =>
        obtain ⟨S, wider, same, arenas, grows, grows'⟩ := progress
        cases same with
        | complete same => exact .ok ⟨rfl, S, wider, arenas, same⟩
        | within parts =>
          have rest := ih grows.sound grows'.sound arenas parts c
          apply rest.mono
          · intro v w s t h
            obtain ⟨console, T, wider', arenas, same⟩ := h
            exact ⟨console, T, wider.trans wider', arenas, same⟩
          · intro fault s t after ended
            obtain ⟨console, T, wider', arenas⟩ := after ended
            exact ⟨console, T, wider.trans wider', arenas⟩

end Reading

end ArenaLisp
