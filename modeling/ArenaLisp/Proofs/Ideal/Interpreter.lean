import ArenaLisp.Fault
import ArenaLisp.Sexp

/-!
# The interpreter without cells

The rules of evaluation on trees. A form is a tree, and what is remembered between the steps is a
list of global bindings and one of local layers. There are no cells, so nothing is shared, nothing
is collected and there is always room. `EQ`, `GLOBALS` and `LOCALS` ask about cells, and have no
rule here.
-/

namespace ArenaLisp

namespace Sexp

def car : Sexp → Sexp
  | pair head _ => head
  | _ => nil

def cdr : Sexp → Sexp
  | pair _ tail => tail
  | _ => nil

def second (tree : Sexp) : Sexp :=
  tree.cdr.car

def third (tree : Sexp) : Sexp :=
  tree.cdr.cdr.car

def isPair : Sexp → Bool
  | pair .. => true
  | _ => false

def symbol? : Sexp → Option Symbol
  | symbol name => some name
  | _ => none

def isSymbol (tree : Sexp) : Bool :=
  tree.symbol?.isSome

def isList (tree : Sexp) : Bool :=
  tree = nil || tree.isPair

/-- The text of a form for a diagnostic. The empty form has none. -/
def caption : Sexp → String
  | nil => ""
  | tree => tree.text

def ofList : List Sexp → Sexp
  | [] => nil
  | tree :: trees => pair tree (ofList trees)

end Sexp

namespace Ideal

inductive Layer where
  | frame
  | binding (name value : Sexp)
  deriving DecidableEq, Repr

/-- What is remembered from one step to the next: the global bindings, and the layers of the
environment in use, innermost first. -/
structure Memory where
  globals : List (Symbol × Sexp)
  layers : List Layer := []
  deriving DecidableEq, Repr

/-- A computation on trees. It may have no outcome, when it would never end. -/
abbrev Interp (α : Type) := ExceptT Fault (StateT Memory Option) α

abbrev Evaluator := Sexp → Interp Sexp

variable {α : Type}

def endless : Interp α := fun _ => none

def blame (fault : String → Fault) (form : Sexp) : Interp α :=
  throw (fault form.caption)

/-! ### Memory -/

/-- The value that a layer gives to a name. -/
def Layer.value? (name : Symbol) : Layer → Option Sexp
  | .binding (.symbol other) value => if other = name then some value else none
  | _ => none

def lookup (name : Symbol) : List Layer → Option Sexp
  | [] => none
  | layer :: layers => (layer.value? name).or (lookup name layers)

def update (name : Symbol) (value : Sexp) : List Layer → List Layer
  | [] => []
  | layer :: layers =>
    if (layer.value? name).isSome then .binding (.symbol name) value :: layers
    else layer :: update name value layers

def updateGlobal (name : Symbol) (value : Sexp) : List (Symbol × Sexp) → List (Symbol × Sexp)
  | [] => []
  | (other, old) :: globals =>
    if other = name then (other, value) :: globals
    else (other, old) :: updateGlobal name value globals

/-- Gives a name a global value: inside its binding if it has one, else in a new binding. -/
def define (name : Symbol) (value : Sexp) : Interp Unit :=
  modify fun memory =>
    if (memory.globals.lookup name).isSome then
      { memory with globals := updateGlobal name value memory.globals }
    else { memory with globals := (name, value) :: memory.globals }

/-- Gives the innermost binding of a name, else its global one, another value. -/
def assign (name : Symbol) (value : Sexp) : Interp Unit := do
  let memory ← get
  if (lookup name memory.layers).isSome then
    set { memory with layers := update name value memory.layers }
  else if (memory.globals.lookup name).isSome then
    set { memory with globals := updateGlobal name value memory.globals }
  else blame .unknownVariable (.symbol name)

section

variable {memory : Memory} {name : Symbol} {value old : Sexp}

theorem assign_local (known : lookup name memory.layers = some old) :
    assign name value memory =
      some (.ok (), { memory with layers := update name value memory.layers }) := by
  show (if _ then _ else _ : Interp Unit) memory = _
  simp only [known, Option.isSome_some, if_true]
  rfl

theorem assign_global (unknown : lookup name memory.layers = none)
    (known : memory.globals.lookup name = some old) :
    assign name value memory =
      some (.ok (), { memory with globals := updateGlobal name value memory.globals }) := by
  show (if _ then _ else if _ then _ else _ : Interp Unit) memory = _
  simp only [unknown, known, Option.isSome_some, Option.isSome_none, Bool.false_eq_true, if_false,
    if_true]
  rfl

theorem assign_unknown (unknown : lookup name memory.layers = none)
    (unknown' : memory.globals.lookup name = none) :
    assign name value memory =
      some (.error (.unknownVariable (Sexp.symbol name).caption), memory) := by
  show (if _ then _ else if _ then _ else _ : Interp Unit) memory = _
  simp only [unknown, unknown', Option.isSome_none, Bool.false_eq_true, if_false]
  rfl

theorem define_known (known : memory.globals.lookup name = some old) :
    define name value memory =
      some (.ok (), { memory with globals := updateGlobal name value memory.globals }) := by
  show some (Except.ok (), if _ then _ else _) = _
  simp only [known, Option.isSome_some, if_true]

theorem define_unknown (unknown : memory.globals.lookup name = none) :
    define name value memory =
      some (.ok (), { memory with globals := (name, value) :: memory.globals }) := by
  show some (Except.ok (), if _ then _ else _) = _
  simp only [unknown, Option.isSome_none, Bool.false_eq_true, if_false]

end

/-- Runs a computation with more layers on top of the environment, which are gone afterwards,
whatever its outcome. -/
def within (layers : List Layer) (x : Interp α) : Interp α := fun memory =>
  (x { memory with layers := layers ++ memory.layers }).map fun after =>
    (after.1, { after.2 with layers := after.2.layers.drop layers.length })

/-! ### Evaluation -/

def evalSymbol (name : Symbol) : Interp Sexp := do
  if name = Symbol.nil then return .nil
  let memory ← get
  match (lookup name memory.layers).or (memory.globals.lookup name) with
  | some value => return value
  | none => if name.isBuiltin then return .symbol name else blame .undefined (.symbol name)

def defun (args : Sexp) : Interp Sexp :=
  match args.car.symbol? with
  | some name => do
    define name (.pair (.symbol Symbol.lambda) args.cdr)
    return args.car
  | none => blame .notASymbol args.car

def defvar (ev : Evaluator) (args : Sexp) : Interp Sexp :=
  match args.car.symbol? with
  | some name => do
    let value ← ev args.second
    define name value
    return args.car
  | none => blame .notASymbol args.car

def setq (ev : Evaluator) (args : Sexp) : Interp Sexp := do
  let value ← ev args.second
  match args.car.symbol? with
  | some name => do
    assign name value
    return value
  | none => blame .notASymbol args.car

def cond (ev : Evaluator) (args : Sexp) : Interp Sexp := do
  let test ← ev args.car
  if test = .nil then ev args.third else ev args.second

def special (ev : Evaluator) : SpecialForm → Sexp → Interp Sexp
  | .quote, args => return args.car
  | .defun, args => defun args
  | .defvar, args => defvar ev args
  | .setq, args => setq ev args
  | .cond, args => cond ev args

def truth (condition : Bool) : Sexp :=
  if condition then .symbol Symbol.tee else .nil

def primitive (ev : Evaluator) (function : Primitive) (args : Sexp) : Interp Sexp :=
  match function with
  | .not | .null => return truth (args.car = .nil)
  | .cons => return .pair args.car args.second
  | .atom => return truth !args.car.isPair
  | .listp => return truth args.car.isList
  | .consp => return truth args.car.isPair
  | .symbolp => return truth args.car.isSymbol
  | .car => if args.car.isList then return args.car.car else throw .cantTakeCar
  | .cdr => if args.car.isList then return args.car.cdr else throw .cantTakeCdr
  | .eval => ev args.car
  | .eq | .globals | .locals => endless

def applyBuiltin (ev : Evaluator) (row : Builtin) (fname : Sexp) (args : List Sexp) :
    Interp Sexp := do
  if args.length < row.arity.least then blame .tooFewArguments fname
  if row.arity.most < args.length then blame .tooManyArguments fname
  match row with
  | .keyword _ => blame .notValidHere fname
  | .special form => special ev form (.ofList args)
  | .primitive function => primitive ev function (.ofList args)

/-- Binds parameters to arguments one by one, as long as there are both. The leftover parameters,
the leftover arguments and the layers are returned. -/
def bindAll (params args : Sexp) (layers : List Layer) : Sexp × Sexp × List Layer :=
  match params, args with
  | .pair var params, .pair val args => bindAll params args (.binding var val :: layers)
  | _, _ => (params, args, layers)

theorem bindAll_eq (params args : Sexp) (layers : List Layer) :
    bindAll params args layers =
      if params.isPair && args.isPair then
        bindAll params.cdr args.cdr (.binding params.car args.car :: layers)
      else (params, args, layers) := by
  cases params <;> cases args <;> rfl

/-- Binds the parameters of a function to its arguments, in a frame of their own. -/
def bindArguments (fname params args : Sexp) : Interp (List Layer) := do
  let (params, args, layers) := bindAll params args [.frame]
  if params ≠ .nil then blame .tooFewParameters fname
  if args ≠ .nil then blame .tooManyParameters fname
  return layers

/-- Evaluates all forms of a body but the last, which is the answer. -/
def evalButLast (ev : Evaluator) : Sexp → Interp Sexp
  | .pair form rest =>
    if rest.isPair then do
      let _ ← ev form
      evalButLast ev rest
    else return form
  | _ => return .nil

theorem evalButLast_eq (ev : Evaluator) (body : Sexp) :
    evalButLast ev body =
      if body.cdr.isPair then do
        let _ ← ev body.car
        evalButLast ev body.cdr
      else return body.car := by
  cases body <;> rfl

/-- Calls a user function, given as its parameters and its body. A call sees the layers of its
caller under its own. -/
def applyLambda (ev : Evaluator) (fname lambda args : Sexp) : Interp Sexp := do
  let layers ← bindArguments fname lambda.car args
  within layers do
    let last ← evalButLast ev lambda.cdr
    ev last

def call (ev : Evaluator) (fname function : Sexp) (args : List Sexp) : Interp Sexp :=
  match function.symbol? with
  | some name =>
    match name.builtin? with
    | some row => applyBuiltin ev row fname args
    | none => blame .notValidHere fname
  | none =>
    if function.car = .symbol Symbol.lambda then applyLambda ev fname function.cdr (.ofList args)
    else blame .illegalFunction fname

def evalArguments (ev : Evaluator) : Sexp → Interp (List Sexp)
  | .pair form rest => do
    let value ← ev form
    let values ← evalArguments ev rest
    return value :: values
  | _ => return []

theorem evalArguments_eq (ev : Evaluator) (args : Sexp) :
    evalArguments ev args =
      if args.isPair then do
        let value ← ev args.car
        let values ← evalArguments ev args.cdr
        return value :: values
      else return [] := by
  cases args <;> rfl

def apply (ev : Evaluator) (form : Sexp) : Interp Sexp := do
  let function ← ev form.car
  let args ← evalArguments ev form.cdr
  call ev form.car function args

def evalPair (ev : Evaluator) (form : Sexp) : Interp Sexp :=
  match form.car.symbol?.bind Symbol.builtin? with
  | some (.keyword .lambda) => do
    if (← get).layers = [] then return form else throw .closuresNotSupported
  | some (.special name) => special ev name form.cdr
  | _ => apply ev form

def evalForm (ev : Evaluator) (form : Sexp) : Interp Sexp :=
  if form = .nil then return .nil
  else match form.symbol? with
    | some name => evalSymbol name
    | none => evalPair ev form

/-- Evaluates a form, with a bound on how deep evaluations nest. -/
def eval : Nat → Evaluator
  | 0 => fun _ => endless
  | n + 1 => evalForm (eval n)

end Ideal

end ArenaLisp
