import ArenaLisp.Arena.Unfold

/-!
# Environments

An environment is a list of bindings, innermost first. An empty element marks where the frame of a call
begins.
-/

namespace ArenaLisp.Arena

inductive Search where
  | found (binding : Nat)
  | absent
  | endless
  deriving DecidableEq, Repr

@[inline]
def binds (a : Arena) (entry : Value) (name : Symbol) : Bool :=
  match a.symbol? (a.car entry) with
  | some other => other = name
  | none => false

def lookupWithin (a : Arena) (name : Symbol) : Nat → Value → Search
  | 0, _ => .endless
  | n + 1, env =>
    match a.cell? env with
    | some (.pair (.cell entry) rest) =>
      if a.binds (.cell entry) name then .found entry else a.lookupWithin name n rest
    | some (.pair .nil rest) => a.lookupWithin name n rest
    | _ => .absent

/-- A list with more elements than the arena has cells has no end. -/
def lookup (a : Arena) (name : Symbol) (env : Value) : Search :=
  a.lookupWithin name (a.capacity + 1) env

def lookupEither (a : Arena) (name : Symbol) (env globe : Value) : Search :=
  match a.lookup name env with
  | .absent => a.lookup name globe
  | result => result

def pushFrame (env : Value) : Storing Value :=
  cons .nil env

def bind (var val env : Value) : Storing Value := do
  let binding ← cons var val
  cons binding env

/-- The answer is the parameters and the arguments that are left over, and the environment. -/
def bindWithin : Nat → Value → Value → Value → Storing (Value × Value × Value)
  | 0, _, _, _ => throw .noRoom
  | n + 1, params, args, env => do
    let a ← get
    if a.isPair params && a.isPair args then
      let env ← bind (a.car params) (a.car args) env
      let a ← get
      bindWithin n (a.cdr params) (a.cdr args) env
    else
      return (params, args, env)

/-- There is no room for more rounds than there are free cells. -/
def bindAll (params args env : Value) : Storing (Value × Value × Value) := do
  let a ← get
  let rounds := a.freeCount + 1
  bindWithin rounds params args env

def define (var val globe : Value) (a : Arena) : Option (Except Fault Value × Arena) :=
  match a.symbol? var with
  | none => (a.render var).map fun form => (.error (.notASymbol form), a)
  | some name =>
    match a.lookup name globe with
    | .found binding => some (.ok globe, a.setCdr binding val)
    | .absent => some ((bind var val globe).run a)
    | .endless => none

def findBinding (a : Arena) (var env globe : Value) : Option (Except Fault Nat) :=
  match a.symbol? var with
  | none => (a.render var).map fun form => .error (.notASymbol form)
  | some name =>
    match a.lookupEither name env globe with
    | .found binding => some (.ok binding)
    | .absent => (a.render var).map fun form => .error (.unknownVariable form)
    | .endless => none

end ArenaLisp.Arena
