import ArenaLisp.Proofs.Machine.Twins.Evaluation
import ArenaLisp.Proofs.Session.Runs
import ArenaLisp.Proofs.Text.Rereading

/-!
# Texts on twins

Twins read one expression after another from a text and evaluate them, and come to the same. Between
two expressions both collect.
-/

namespace ArenaLisp

namespace Machine

open Arena

/-- A machine with another threshold. -/
def withThreshold (m : Machine) (threshold : Nat) : Machine :=
  { m with settings := { m.settings with threshold } }

variable {R : Nat → Nat → Prop} {m m' : Machine} {held : Set Value} {c d : Console}

theorem Ready.withThreshold (ready : m.Ready held) (threshold : Nat) :
    (m.withThreshold threshold).Ready held :=
  (ready.stage_same (n := m.withThreshold threshold) rfl rfl rfl rfl).ready ready

section

variable [Ration]

theorem Sound.twins (sound : m.Sound) (t t' : Nat) (ample : ∀ c ∈ Ration.cells, c ≤ t') :
    Twins (fun id other => id = other ∧ m.arena.Taken id) (m.withThreshold t)
      (m.withThreshold t') := by
  have same : ∀ v, m.arena.Live v → Same (fun id other => id = other ∧ m.arena.Taken id) v v := by
    intro v live
    cases v with
    | nil => exact .nil
    | cell id => exact .cell ⟨rfl, live id rfl⟩
  exact ⟨sound.arena.match_self, same _ sound.live_tee, same _ sound.globe, same _ sound.stack, rfl,
    rfl, ample⟩

theorem Twins.withConsole (twins : Twins R m m') (is : d = c) :
    Twins R { m with console := c } { m' with console := d } :=
  ⟨twins.arenas, twins.tee, twins.globe, twins.stack, twins.interrupted, is, twins.ample⟩

end

end Machine

namespace Lisp

open Machine Arena

variable [Ration] {α β : Type} {R S : Nat → Nat → Prop} {m m' : Machine}
  {ev ev' : Evaluator} {v w : Value}

theorem tandem_withConsole {c : Console} {x : Lisp α} {y : Lisp β}
    {Q : α → β → Machine → Machine → Prop} {E : Fault → Machine → Machine → Prop}
    (h : Tandem x y { m with console := c } { m' with console := c } Q E) :
    Tandem (withConsole c x) (withConsole c y) m m' (fun v w _ _ => ∃ n n', Q v w n n')
      AnyFault := by
  intro p q first second
  unfold withConsole at first second
  unfold Tandem at h
  dsimp only at first second
  generalize x { m with console := c } = s at h first
  generalize y { m' with console := c } = t at h second
  cases s with
  | none => cases first
  | some s =>
    cases t with
    | none => cases second
    | some t =>
      have agree := h s t rfl rfl
      cases agree with
      | ok answers =>
        cases first
        cases second
        exact .ok ⟨_, _, answers⟩
      | error =>
        cases first
        cases second
        exact .error trivial
      | noRoom =>
        cases first
        exact .noRoom
      | noRoom' free =>
        cases second
        exact .noRoom' free

theorem tandem_read (twins : Twins R m m') (sound : m.Sound) (sound' : m'.Sound) :
    Tandem read read m m' (fun v w n n' => ∃ S, R ≤ S ∧ Twins S n n' ∧ Same S v w)
      fun fault n n' => fault = .endOfInput → ∃ S, R ≤ S ∧ Twins S n n' := by
  intro p q first second
  rw [read_apply] at first second
  cases first
  cases second
  have grown : ∀ {S c d b b'}, R ≤ S → d = c → Match S b b' →
      Twins S { m with console := c, arena := b } { m' with console := d, arena := b' } :=
    fun wider is arenas => ⟨arenas, twins.tee.le wider, twins.globe.le wider,
      twins.stack.le wider, twins.interrupted, is, twins.ample⟩
  have agree := Reading.agree_run (m.console.unread.length + 1) sound.arena sound'.arena
    twins.arenas .nil m.console
  have same : m'.console.read m'.arena =
      Reading.run (m.console.unread.length + 1) [] m.console m'.arena := by
    rw [twins.console]
    rfl
  rw [same]
  change Agree _ _ (m.console.read m.arena) _ at agree
  generalize m.console.read m.arena = s at agree
  generalize Reading.run _ [] m.console m'.arena = t at agree
  cases agree with
  | ok h =>
    obtain ⟨console, S, wider, arenas, same⟩ := h
    exact .ok ⟨S, wider, grown wider console.symm arenas, same⟩
  | error h =>
    refine .error fun ended => ?_
    obtain ⟨console, S, wider, arenas⟩ := h ended
    exact ⟨S, wider, grown wider console.symm arenas⟩
  | noRoom => exact .noRoom
  | noRoom' free => exact .noRoom' free

/-- Answers of twins to the reading of what comes next. -/
def NextResults (R : Nat → Nat → Prop) (result result' : Option Value) (n n' : Machine) : Prop :=
  ∃ S, Twins S n n' ∧ ((result = none ∧ result' = none ∧ R ≤ S) ∨
    ∃ v w, result = some v ∧ result' = some w ∧ Same S v w)

section

variable (concordant : Concordant ev ev')
include concordant

omit concordant in
/-- Twins read the next expression, unless the input of both has ended. -/
theorem tandem_readNext (twins : Twins R m m') (ready : m.Ready {.nil})
    (ready' : m'.Ready {.nil}) :
    Tandem read? read? m m' (fun result result' n n' => NextResults R result result' n n' ∧
      m.GoesOn {.nil} n ∧ m'.GoesOn {.nil} n') AnyFault := by
  have reads := (tandem_read twins ready.sound ready'.sound).withFaults (ensures_read ready)
    (ensures_read ready')
  unfold read?
  have found : Tandem (some <$> read) (some <$> read) m m' (fun result result' n n' =>
      NextResults R result result' n n' ∧ m.GoesOn {.nil} n ∧ m'.GoesOn {.nil} n')
      (fun fault n n' => (fault = .endOfInput → ∃ S, R ≤ S ∧ Twins S n n') ∧
        m.GoesOn {.nil} n ∧ m'.GoesOn {.nil} n') := by
    apply (reads.mono (fun _ _ _ _ h => h) fun fault n n' h => ?_).map
    · intro v w n n' h
      obtain ⟨⟨S, wider, twins, same⟩, answers, answers'⟩ := h
      exact ⟨⟨S, twins, .inr ⟨v, w, rfl, rfl, same⟩⟩, answers.goesOn, answers'.goesOn⟩
    · exact ⟨h.1, h.2.1.2.1, h.2.2.2.1⟩
  refine tandem_tryCatch found (by rfl) (by rfl) ?_
  intro fault n n' h
  obtain ⟨after, goesOn, goesOn'⟩ := h
  by_cases ended : fault = .endOfInput
  · obtain ⟨S, wider, twins⟩ := after ended
    subst ended
    exact tandem_pure ⟨⟨S, twins, .inl ⟨rfl, rfl, wider⟩⟩, goesOn, goesOn'⟩
  · cases fault with
    | endOfInput => exact absurd rfl ended
    | _ => exact tandem_throw trivial

/-- Twins evaluate the next expression alike: it is protected, so it is firm. -/
theorem tandem_evalNext (twins : Twins R m m') (ready : m.Ready {.nil}) (ready' : m'.Ready {.nil}) :
    Tandem (evalNext ev) (evalNext ev') m m' (NextResults R) AnyFault := by
  unfold evalNext
  apply (tandem_readNext twins ready ready').bind
  intro result result' n n' h
  obtain ⟨⟨S, twins, after⟩, goesOn, goesOn'⟩ := h
  obtain ⟨is, is', wider⟩ | ⟨form, form', is, is', same⟩ := after
  · subst is is'
    exact tandem_pure ⟨S, twins, .inl ⟨rfl, rfl, wider⟩⟩
  · subst is is'
    have readyN := goesOn.ready ready
    have readyN' := goesOn'.ready ready'
    obtain ⟨live, live'⟩ := twins.arenas.live same
    apply (tandem_protect twins readyN.sound readyN'.sound same).bind
    intro _ _ _ _ h
    obtain ⟨c, top, d, top', took, took', is, is', twins⟩ := h
    subst is is'
    have pushed := readyN.stage_protect live took
    have pushed' := readyN'.stage_protect live' took'
    have abreast : Abreast (Adding S top top') { n with arena := c, stack := .cell top } {.nil} .nil
        { n' with arena := d, stack := .cell top' } {.nil} .nil := by
      refine ⟨twins, pushed.ready readyN, pushed'.ready readyN', rfl, rfl, ?_, .nil⟩
      intro e member id here
      cases member
      exact here
    have anchored : Anchored { n with arena := c, stack := .cell top } {.nil} form := by
      intro id is
      exact ⟨.cell top, by simp, .head took.content (is ▸ .here id)⟩
    have evaluated := concordant.last abreast (same.le fun _ _ => .inl) anchored
    apply evaluated.bind
    intro v w k k' h
    obtain ⟨T, follows, same⟩ := h
    unfold unprotect
    have popped : Twins T _ _ := follows.twins.unprotected
    apply (tandem_modify (E := AnyFault) (Q := fun _ _ => Twins T) popped).bind
    intro _ _ j j' twins
    exact tandem_pure ⟨T, twins, .inr ⟨v, w, rfl, rfl, same⟩⟩

theorem tandem_evalLast (n : Nat) (twins : Twins R m m') (ready : m.Ready {.nil})
    (ready' : m'.Ready {.nil}) (same : Same R v w) :
    Tandem (evalLast ev n v) (evalLast ev' n w) m m'
      (fun v w k k' => ∃ S, Twins S k k' ∧ Same S v w) AnyFault := by
  induction n generalizing R m m' v w with
  | zero => exact tandem_pure ⟨R, twins, same⟩
  | succ n ih =>
    obtain ⟨live, live'⟩ := twins.arenas.live same
    unfold evalLast collect
    obtain ⟨follows, same, -⟩ := twins.retain {.nil} same .nil
      (retains_collect ready.sound live (live_nil _))
      (retains_collect ready'.sound live' (live_nil _))
      fun _ _ => twins.room_collect ready.sound ready'.sound same .nil
    have readyC := (ready.stage_collect live (live_nil _)).ready ready
    have readyC' := (ready'.stage_collect live' (live_nil _)).ready ready'
    have collected : Tandem (modify (Machine.collect · v .nil)) (modify (Machine.collect · w .nil))
        m m' (fun _ _ k k' => k = m.collect v .nil ∧ k' = m'.collect w .nil) AnyFault :=
      tandem_modify ⟨rfl, rfl⟩
    apply collected.bind
    intro _ _ _ _ h
    obtain ⟨is, is'⟩ := h
    subst is is'
    apply ((tandem_evalNext concordant follows.twins readyC readyC').with
      (ensures_evalNext concordant.preserves (Set.mem_singleton _) readyC)
      (ensures_evalNext concordant.preserves' (Set.mem_singleton _) readyC')).bind
    intro result result' k k' h
    obtain ⟨⟨S, twins, after⟩, ⟨goesOn, _⟩, ⟨goesOn', _⟩⟩ := h
    obtain ⟨is, is', wider⟩ | ⟨v, w, is, is', same'⟩ := after
    · subst is is'
      exact tandem_pure ⟨S, twins, same.le wider⟩
    · subst is is'
      exact ih twins (goesOn.ready readyC) (goesOn'.ready readyC') same'

theorem tandem_evalTextWith (text : String) (twins : Twins R m m') (ready : m.Ready {.nil})
    (ready' : m'.Ready {.nil}) :
    Tandem (evalTextWith ev text) (evalTextWith ev' text) m m' (fun s s' _ _ => s = s')
      AnyFault := by
  unfold evalTextWith rounds
  have readyC := ((ready.goesOn_console (Console.ofText text)).ready ready)
  have readyC' := ((ready'.goesOn_console (Console.ofText text)).ready ready')
  apply Tandem.mono (Q := fun s s' _ _ => ∃ n n' : Machine, s = s') (E := AnyFault) _
    (fun _ _ _ _ same => same.choose_spec.choose_spec) fun _ _ _ h => h
  apply tandem_withConsole (E := AnyFault)
  apply tandem_get_bind
  apply (tandem_evalLast concordant _ (twins.withConsole rfl) readyC readyC' .nil).bind
  intro v w k k' h
  obtain ⟨S, twins, same⟩ := h
  unfold print
  apply tandem_answer
  intro p q first second
  rw [twins.arenas.print_eq same, first] at second
  cases second
  cases p with
  | ok text => exact .ok rfl
  | error fault => exact .error trivial

end

end Lisp

end ArenaLisp
