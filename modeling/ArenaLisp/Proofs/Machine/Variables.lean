import ArenaLisp.Proofs.Arena.Bindings
import ArenaLisp.Proofs.Machine.Approximation
import ArenaLisp.Proofs.Machine.Collection

/-!
# Variables

A variable that is evaluated has the value in the cell that an assignment would change, whatever the
program built before and whatever hides the variable. The next evaluation sees what was assigned, and
no other name does (`Built.coherent`).
-/

namespace ArenaLisp

open Arena

/-- What the evaluation of a variable comes to, at any depth. It may collect first, and does nothing
else to the machine. -/
def Machine.Refers (m : Machine) (var env : Value) (result : Except Fault Value) : Prop :=
  ∀ n, ∃ k, (k = m ∨ k = m.collect var env) ∧ Lisp.eval (n + 1) var env m = some (result, k)

/-- A machine between two steps: no interrupt is due, and no cell has a mark. -/
structure Machine.Quiet (m : Machine) : Prop where
  calm : m.interrupted = false
  plain : ∀ id, m.arena.marked id = false

variable {a b : Arena} {m : Machine} {env globe var : Value} {name : Symbol} {id : Nat}
  {locals globals : List Nat}

theorem Arena.render_of_symbol (is : a.symbol? var = some name) :
    a.render var = some name.name := by
  obtain ⟨id, rfl, content⟩ := symbol?_eq_some_iff.1 is
  have unfolded : a.unfold (.cell id) = some (.ok (.symbol name)) := by
    simp [unfold, unfoldWithin, content]
  rw [render, print, unfolded]
  simp [Except.map, Except.toOption, Sexp.text_eq, Sexp.chars]

theorem Arena.findBinding_of_absent (is : a.symbol? var = some name)
    (absent : a.lookupEither name env globe = .absent) :
    a.findBinding var env globe = some (.error (.unknownVariable name.name)) := by
  rw [findBinding]
  simp only [is, absent, render_of_symbol is, Option.map_some]

namespace Lisp

/-- What a variable that is not bound comes to. -/
def unbound (var : Value) (name : Symbol) : Except Fault Value :=
  if name.isBuiltin then .ok var else .error (.undefined name.name)

theorem evalSymbol_apply (ne : name ≠ Symbol.nil) (is : m.arena.symbol? var = some name)
    (env : Value) : evalSymbol var name env m = match m.arena.lookupEither name env m.globe with
      | .found binding => some (.ok (m.arena.cdr (.cell binding)), m)
      | .absent => some (unbound var name, m)
      | .endless => none := by
  rw [evalSymbol, if_neg ne, bind_apply]
  show (ask (·.lookupEither name env m.globe) >>= _) m = _
  rw [bind_apply, ask]
  cases m.arena.lookupEither name env m.globe with
  | found binding => rfl
  | endless => rfl
  | absent =>
    show (if name.isBuiltin then pure var else blame .undefined var : Lisp Value) m = _
    unfold unbound
    split
    · rfl
    · rw [blame_apply, render_of_symbol is]
      rfl

theorem evalForm_apply (ev : Evaluator) (n : Nat) (is : m.arena.symbol? var = some name)
    (env : Value) : evalForm ev n var env m = evalSymbol var name env m := by
  have ne : var ≠ .nil := by
    rintro rfl
    cases is
  rw [evalForm, if_neg ne, bind_apply, ask, is]

theorem eval_symbol (scopes : m.arena.Scopes env m.globe locals globals) (quiet : m.Quiet)
    (is : m.arena.symbol? var = some name) (n : Nat) :
    ∃ k, (k = m ∨ k = m.collect var env) ∧
      eval (n + 1) var env m = evalSymbol var name env k ∧ k.globe = m.globe ∧
      k.arena.symbol? var = some name ∧ k.arena.Scopes env m.globe locals globals ∧
      m.arena.Unchanged env m.globe k.arena env m.globe := by
  obtain ⟨k, from', collected⟩ := collectIfLow_apply var env m
  -- the variable and both environments are roots of the collection, if there is one
  have kept : k.globe = m.globe ∧ k.interrupted = m.interrupted ∧
      ∀ id, m.arena.ReachedFrom [m.tee, m.globe, m.stack, var, env] id →
        k.arena.cell id = m.arena.cell id := by
    obtain rfl | rfl := from'
    · exact ⟨rfl, rfl, fun _ _ => rfl⟩
    · exact ⟨rfl, rfl, fun id reached => cell_collect_of_plain quiet.plain reached⟩
  obtain ⟨globe, flag, same⟩ := kept
  have is' : k.arena.symbol? var = some name := by
    obtain ⟨id, rfl, content⟩ := symbol?_eq_some_iff.1 is
    have here := same id ⟨.cell id, by simp, .here id⟩
    exact symbol?_eq_some_iff.2 ⟨id, rfl, here.trans content⟩
  obtain ⟨scopes', unchanged⟩ := scopes.unchanged_of_reaches (b := k.arena) fun id reaches => by
    obtain path | path := reaches
    · exact same id ⟨env, by simp, path⟩
    · exact same id ⟨m.globe, by simp, path⟩
  have calm : escapeIfInterrupted k = some (.ok (), k) := by
    show (if k.interrupted then
      (do modify ({ · with interrupted := false }); throw .escape : Lisp Unit) else pure ()) k = _
    rw [flag, quiet.calm]
    rfl
  refine ⟨k, from', ?_, globe, is', scopes', unchanged⟩
  rw [eval, evalStep, bind_apply, collected]
  dsimp only
  rw [bind_apply, calm]
  exact evalForm_apply _ _ is' env

theorem refers (scopes : m.arena.Scopes env m.globe locals globals) (quiet : m.Quiet)
    (is : m.arena.symbol? var = some name) (ne : name ≠ Symbol.nil) :
    (∃ id, m.arena.lookupEither name env m.globe = .found id ∧
        m.arena.findBinding var env m.globe = some (.ok id) ∧
        m.Refers var env (.ok (m.arena.cdr (.cell id)))) ∨
      (m.arena.lookupEither name env m.globe = .absent ∧
        m.arena.findBinding var env m.globe = some (.error (.unknownVariable name.name)) ∧
        m.Refers var env (unbound var name)) := by
  have first := scopes.lookupEither name
  have later : ∀ n, ∃ k, (k = m ∨ k = m.collect var env) ∧
      eval (n + 1) var env m = evalSymbol var name env k ∧ k.arena.symbol? var = some name ∧
      k.arena.lookupEither name env k.globe = m.arena.lookupEither name env m.globe ∧
      ∀ id ∈ m.arena.bindings name env ++ m.arena.bindings name m.globe,
        k.arena.cell id = m.arena.cell id := by
    intro n
    obtain ⟨k, from', ran, globe, is', scopes', unchanged⟩ := eval_symbol scopes quiet is n
    obtain ⟨inner, outer⟩ := unchanged name
    refine ⟨k, from', ran, is', ?_, fun id member => ?_⟩
    · rw [globe, scopes'.lookupEither, first, inner.bindings, outer.bindings]
    · exact (List.mem_append.1 member).elim (inner.cells id) (outer.cells id)
  cases found : m.arena.bindings name env ++ m.arena.bindings name m.globe with
  | nil =>
    rw [found] at first
    refine .inr ⟨first, findBinding_of_absent is first, fun n => ?_⟩
    obtain ⟨k, from', ran, is', lookup, -⟩ := later n
    refine ⟨k, from', ?_⟩
    rw [ran, evalSymbol_apply ne is' env, lookup, first]
    rfl
  | cons id hidden =>
    rw [found] at first
    refine .inl ⟨id, first, findBinding_iff.2 ⟨name, is, first⟩, fun n => ?_⟩
    obtain ⟨k, from', ran, is', lookup, same⟩ := later n
    have here := same id (by rw [found]; exact List.mem_cons_self)
    refine ⟨k, from', ?_⟩
    rw [ran, evalSymbol_apply ne is' env, lookup, first]
    show some (Except.ok (k.arena.cdr (.cell id)), k) = _
    rw [cdr, cdr, cell?_cell, cell?_cell, here]

/-- A form `(SETQ x form)` stores the value in the cell that is found when the value is known. -/
theorem setq_apply {ev : Evaluator} {args val : Value} {n : Machine}
    (ran : ev (m.arena.second args) env m = some (.ok val, n))
    (found : n.arena.findBinding (n.arena.car args) env n.globe = some (.ok id)) :
    setq ev args env m = some (.ok val, { n with arena := n.arena.setCdr id val }) := by
  rw [setq, bind_apply, ask]
  dsimp only
  rw [bind_apply, ran]
  dsimp only
  rw [bind_apply]
  show (answer (fun a => a.findBinding (a.car args) env n.globe) >>= _) n = _
  rw [bind_apply, answer, found]
  rfl

end Lisp

/-- What programs can rely on about the variables of two environments. -/
structure Arena.Coherent (a : Arena) (env globe : Value) : Prop where
  /-- A variable has the value in the cell that an assignment would change. Without such a cell it
  stands for itself if it is a builtin name, and is undefined otherwise. -/
  reference : ∀ (m : Machine) var name, m.arena = a → m.globe = globe → m.Quiet →
    a.symbol? var = some name → name ≠ Symbol.nil →
    (∃ id, a.lookupEither name env globe = .found id ∧
        a.findBinding var env globe = some (.ok id) ∧ m.Refers var env (.ok (a.cdr (.cell id)))) ∨
      (a.lookupEither name env globe = .absent ∧
        a.findBinding var env globe = some (.error (.unknownVariable name.name)) ∧
        m.Refers var env (Lisp.unbound var name))
  assignment : ∀ var id val, a.findBinding var env globe = some (.ok id) → ∃ name hidden,
    a.symbol? var = some name ∧ a.bindings name env ++ a.bindings name globe = id :: hidden ∧
      a.Assigned env globe name id hidden val (a.setCdr id val)
  assigned : ∀ (m : Machine) var name id val, a.findBinding var env globe = some (.ok id) →
    a.symbol? var = some name → name ≠ Symbol.nil →
    m.arena = a.setCdr id val → m.globe = globe → m.Quiet → m.Refers var env (.ok val)
  /-- This is how a program assigns. -/
  setq : ∀ (m n : Machine) ev args id val,
    ev (m.arena.second args) env m = some (.ok val, n) → n.arena = a → n.globe = globe →
    a.findBinding (a.car args) env globe = some (.ok id) →
    Lisp.setq ev args env m = some (.ok val, { n with arena := a.setCdr id val })
  frame : ∀ result b, (pushFrame env).run a = (result, b) →
    a.Unchanged env globe b (result.toOption.getD env) globe
  bind : ∀ var val result b, (Arena.bind var val env).run a = (result, b) →
    match result with
    | .error _ => a.Unchanged env globe b env globe
    | .ok v => a.Sets env globe var val b v
  define : ∀ var val result b, Arena.define var val globe a = some (result, b) →
    match result with
    | .error _ => a.Unchanged env globe b env globe
    | .ok v => (a.symbol? var).isSome ∧ a.Sets globe env var val b v
  ends : ∀ var val name, a.symbol? var = some name → (Arena.define var val globe a).isSome

theorem Arena.coherent_of_scopes {ids : List Nat} (scopes : a.Scopes env globe locals globals)
    (linked : a.Linked ids) : a.Coherent env globe where
  reference := by
    rintro m var name rfl rfl quiet is ne
    exact Lisp.refers scopes quiet is ne
  assignment := by
    intro var id val found
    obtain ⟨name, is, first⟩ := findBinding_iff.1 found
    rw [scopes.lookupEither] at first
    obtain ⟨hidden, bindings⟩ := Search.eq_cons_of_first first
    exact ⟨name, hidden, is, bindings, scopes.assigned bindings val⟩
  assigned := by
    intro m var name id val found is ne arena globe' quiet
    subst globe'
    obtain ⟨name', is', first⟩ := findBinding_iff.1 found
    cases is.symm.trans is'
    rw [scopes.lookupEither] at first
    obtain ⟨hidden, bindings⟩ := Search.eq_cons_of_first first
    obtain ⟨⟨found', value⟩, -, -, -, -, names⟩ := scopes.assigned bindings val
    have element := element_of_findBinding found
    rw [scopes.inner.element_iff, scopes.outer.element_iff, ← List.mem_append] at element
    have later := scopes.setCdr element val
    rw [← arena] at found' value later
    have is'' : m.arena.symbol? var = some name := by
      rw [arena, (names var).2, is]
    obtain ⟨other, found'', -, refers⟩ | ⟨absent, -, -⟩ := Lisp.refers later quiet is'' ne
    · cases found'.symm.trans found''
      rwa [value] at refers
    · cases found'.symm.trans absent
  setq := by
    rintro m n ev args id val ran rfl rfl found
    exact Lisp.setq_apply ran found
  frame := by
    intro result b ran
    exact (scopes.pushFrame linked ran).2.2
  bind := by
    intro var val result b ran
    have outcome := (scopes.bind linked ran).2
    rcases result with fault | v
    · exact outcome.2
    · exact outcome.2
  define := by
    intro var val result b ran
    have outcome := (scopes.define linked ran).2
    rcases result with fault | v
    · exact outcome.2
    · exact outcome.2
  ends _ val _ is := scopes.define_isSome is val

theorem Arena.Built.coherent (built : Built a env globe) : a.Coherent env globe := by
  obtain ⟨⟨ids, linked⟩, locals, globals, scopes⟩ := built.scopes
  exact coherent_of_scopes scopes linked

/-- A name that is defined, hidden by a parameter of that name, with a frame and a parameter that is no
name on top. -/
theorem coherent_hidden : ∃ a env globe, Built a env globe ∧ a.Coherent env globe ∧
    a.bindings Symbol.tee env = [4] ∧ a.bindings Symbol.tee globe = [1] := by
  obtain ⟨grows, -⟩ : (Arena.new 9).Grows ((symbol Symbol.tee).run (.new 9)).2 ∧ _ :=
    grows_symbol (sound_new 9) Symbol.tee
  obtain ⟨ids, list⟩ := grows.sound.list
  have defined : Built _ .nil (.cell 2) :=
    Built.define (.empty list.linked) (show Arena.define (.cell 0) .nil .nil _ = _ from rfl)
  have framed : Built _ (.cell 3) (.cell 2) := defined.frame rfl
  have hidden : Built _ (.cell 5) (.cell 2) :=
    framed.bind (show (Arena.bind (.cell 0) (.cell 0) (.cell 3)).run _ = _ from rfl)
  have built : Built _ (.cell 7) (.cell 2) :=
    hidden.bind (show (Arena.bind (.cell 5) .nil (.cell 5)).run _ = _ from rfl)
  refine ⟨_, _, _, built, built.coherent, ?_, ?_⟩
  · decide +kernel
  · decide +kernel

end ArenaLisp
