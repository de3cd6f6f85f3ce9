import ArenaLisp.Proofs.Session.Courses
import ArenaLisp.Proofs.Session.Likeness
import ArenaLisp.Proofs.Text.Echo

/-!
# Sessions with and without echo

What a session showed, and what it is still to show, makes no difference to anything else that it does
(`Lisp.heedless_run`). So echo copies the input and changes nothing (`Lisp.echo_copies`).
-/

namespace ArenaLisp

/-- The settings of a machine that is to show as little as it can. -/
def Settings.mute (s : Settings) : Settings :=
  { s with echo := false, freespace := false, banner := false }

/-- A machine that has shown nothing and is to show as little as it can. It has the same cells and
registers, it has collected as often, and it goes on with the same characters. -/
def Machine.mute (m : Machine) : Machine :=
  { m with console := m.console.mute, settings := m.settings.mute }

namespace Lisp

variable {α β : Type} {x : Lisp α}

/-- An outcome, but for what was shown. -/
def muted (after : Option (Except Fault α × Machine)) : Option (Except Fault α × Machine) :=
  after.map fun after => (after.1, after.2.mute)

/-- A computation to which it makes no difference what was shown and what is to be shown. -/
def Heedless (x : Lisp α) : Prop :=
  ∀ m : Machine, muted (x m.mute) = muted (x m)

theorem Heedless.congr (heedless : Heedless x) {m n : Machine} (same : m.mute = n.mute) :
    muted (x m) = muted (x n) := by
  rw [← heedless m, ← heedless n, same]

theorem Discreet.heedless (discreet : Discreet x) : Heedless x := by
  intro m
  have same : x m.mute = (x m).map _ := discreet m m.console.mute m.settings.mute 0 rfl
  rw [same]
  rcases ran : x m with _ | ⟨outcome, k⟩
  · rfl
  · obtain ⟨console, settings⟩ := discreet.kept ran
    show some (outcome, (k.guise m.console.mute m.settings.mute 0).mute) = some (outcome, k.mute)
    rw [Machine.mute, Machine.mute, console, settings]
    rfl

namespace Heedless

theorem outcomes (heedless : Heedless x) (m : Machine) : (x m.mute = none ∧ x m = none) ∨
    ∃ outcome k k', x m.mute = some (outcome, k') ∧ x m = some (outcome, k) ∧ k'.mute = k.mute := by
  have same := heedless m
  rcases ran : x m with _ | ⟨outcome, k⟩
  · rcases ran' : x m.mute with _ | ⟨outcome', k'⟩
    · exact .inl ⟨rfl, rfl⟩
    · rw [ran, ran'] at same
      cases same
  · rcases ran' : x m.mute with _ | ⟨outcome', k'⟩
    · rw [ran, ran'] at same
      cases same
    · rw [ran, ran'] at same
      obtain ⟨rfl, alike⟩ := Prod.mk.inj (Option.some.inj same)
      exact .inr ⟨outcome', k, k', rfl, rfl, alike⟩

theorem bind {f : α → Lisp β} (first : Heedless x) (next : ∀ v, Heedless (f v)) :
    Heedless (x >>= f) := by
  intro m
  rw [bind_apply, bind_apply]
  obtain ⟨never, never'⟩ | ⟨outcome, k, k', ran, ran', alike⟩ := first.outcomes m
  · rw [never, never']
  · rw [ran, ran']
    cases outcome with
    | error fault => exact congrArg (fun k => some (Except.error fault, k)) alike
    | ok v => exact (next v).congr alike

theorem tryCatch {handle : Fault → Lisp α} (first : Heedless x)
    (next : ∀ fault, Heedless (handle fault)) : Heedless (tryCatch x handle) := by
  intro m
  rw [tryCatch_apply, tryCatch_apply]
  obtain ⟨never, never'⟩ | ⟨outcome, k, k', ran, ran', alike⟩ := first.outcomes m
  · rw [never, never']
  · rw [ran, ran']
    cases outcome with
    | error fault => exact (next fault).congr alike
    | ok v => exact congrArg (fun k => some (Except.ok v, k)) alike

theorem pure (v : α) : Heedless (pure v) :=
  fun _ => rfl

theorem throw (fault : Fault) : Heedless (throw fault : Lisp α) :=
  fun _ => rfl

theorem modify {f : Machine → Machine} (same : ∀ m, (f m.mute).mute = (f m).mute) :
    Heedless (modify f) := fun m =>
  congrArg (fun k => some (Except.ok (), k)) (same m)

theorem write {f : Console → Console} (same : ∀ c, (f c).mute = c.mute) : Heedless (write f) := by
  intro m
  have shown : ∀ m : Machine, Machine.mute { m with console := f m.console } = m.mute := fun m =>
    congrArg (fun c => { m with console := c, settings := m.settings.mute }) (same m.console)
  exact congrArg (fun k => some (Except.ok (), k)) ((shown m.mute).trans (shown m).symm)

end Heedless

theorem heedless_read : Heedless read := by
  intro m
  rw [read_apply, read_apply]
  show muted (some ((m.console.mute.read m.arena).1, { m.mute with
    console := (m.console.mute.read m.arena).2.1
    arena := (m.console.mute.read m.arena).2.2 })) = _
  rw [Console.read_mute]
  rfl

theorem mute_prompt (m : Machine) : m.prompt.mute = m.mute := by
  rcases m with ⟨arena, console, settings, globe, stack, tee, interrupted, collections⟩
  unfold Machine.prompt Machine.mute
  dsimp only
  rw [Console.mute_putText]
  split
  · rw [Console.mute_putText]
  · rfl

theorem mute_greet (m : Machine) : m.greet.mute = m.mute := by
  rcases m with ⟨arena, console, settings, globe, stack, tee, interrupted, collections⟩
  unfold Machine.greet Machine.mute
  dsimp only
  split
  · rw [Console.mute_endLine, Console.mute_putText]
  · rfl

/-! ### The parts of a session -/

theorem heedless_receive : Heedless receive :=
  .bind heedless_read fun form => ((discreet_protect form).bind fun _ => .pure form).heedless

theorem heedless_conclude (result : Value) : Heedless (conclude result) := by
  refine .bind (.write Console.mute_freshLine) fun _ => .bind (Discreet.answer _).heedless fun text => ?_
  refine .bind (.write fun c => Console.mute_putText c text) fun _ => ?_
  refine .bind discreet_unprotect.heedless fun _ => .write fun c => ?_
  rw [Console.mute_endLine, Console.mute_freshLine]

theorem heedless_cycle (fuel : Nat) : Heedless (cycle fuel) := by
  rw [cycle_eq]
  refine .bind (discreet_collect .nil .nil).heedless fun _ => .bind (.modify fun m => ?_) fun _ => ?_
  · rw [mute_prompt, mute_prompt]
    rfl
  · refine .bind heedless_receive fun form => .bind (.write Console.mute_freshLine) fun _ => ?_
    exact .bind (discreet_eval fuel form .nil).heedless heedless_conclude

theorem heedless_report (fault : Fault) : Heedless (report fault) := by
  refine .bind (Discreet.modify fun _ _ _ _ => rfl).heedless fun _ => .write fun c => ?_
  simp

theorem heedless_turn (fuel : Nat) : Heedless (turn fuel) := by
  refine .tryCatch (.bind (heedless_cycle fuel) fun _ => .pure true) fun fault => ?_
  split
  · exact .pure false
  · split
    · exact .throw _
    · exact .bind (heedless_report _) fun _ => .pure true

theorem heedless_turns (fuel limit : Nat) : Heedless (turns fuel limit) := by
  induction limit with
  | zero => exact .pure ()
  | succ limit ih =>
    refine .bind (heedless_turn fuel) fun again => ?_
    cases again with
    | true => exact ih
    | false => exact .pure ()

/-- A session does the same whatever it shows. -/
theorem heedless_run (fuel : Nat) : Heedless (run fuel) := by
  have counts : Heedless rounds := by
    intro m
    show some (Except.ok (m.mute.console.unread.length + 1), m.mute.mute) = _
    rw [show m.mute.console.unread = m.console.unread from Console.unread_mute _]
    rfl
  refine .bind (.modify fun m => ?_) fun _ => .bind counts fun limit => ?_
  · rw [mute_greet, mute_greet]
    rfl
  · exact .bind (heedless_turns fuel limit) fun _ => .write Console.mute_freshLine

/-! ### Echo -/

/-- What a session on an input comes to, but for what it shows. -/
def session (settings : Settings) (fuel : Nat) (input : List Byte) :
    Except Fault (Option (Except Fault Unit × Machine)) :=
  (Machine.new settings (.ofBytes input)).map fun m => muted (run fuel m)

theorem session_echo (settings : Settings) (fuel : Nat) (input : List Byte) :
    session { settings with echo := true } fuel input =
      session { settings with echo := false } fuel input := by
  unfold session Machine.new
  dsimp only
  rcases (Arena.symbol Symbol.tee).run (Arena.new settings.workspace) with ⟨fault | tee, arena⟩
  · rfl
  · exact congrArg Except.ok ((heedless_run fuel).congr rfl)

/-- Echo copies the input once and changes nothing else. The expressions that are read come to the same
values and the same cells. What was copied at the end of the input is all of it, without the eighth bits
and without carriage returns. A session comes to the same cells, registers and number of collections. -/
theorem echo_copies (input : List Byte) :
    (∀ a : Arena, (Console.echoing input).readAll a = (Console.ofBytes input).readAll a ∧
      (∃ b, ((Console.ofBytes input).readAll a).getLast? = some (.error .endOfInput, b)) ∧
      ((Console.echoing input).readThrough a).output.toList =
        (input.map (· &&& 0x7f)).filter (· != Byte.carriageReturn) ∧
      ((Console.ofBytes input).readThrough a).output = #[]) ∧
    ∀ (settings : Settings) (fuel : Nat), session { settings with echo := true } fuel input =
      session { settings with echo := false } fuel input :=
  ⟨Console.echo_readAll input, fun settings fuel => session_echo settings fuel input⟩

end Lisp

end ArenaLisp
