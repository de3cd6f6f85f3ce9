import ArenaLisp.Machine.Basic

/-!
# Evaluation

`eval` is given a bound on how deep evaluations nest and how long lists of arguments and bodies are. What
is needed after the evaluation of a part is looked up again then, since the part may have changed it.
-/

namespace ArenaLisp.Lisp

abbrev Evaluator := Value → Value → Lisp Value

def collectIfLow (form env : Value) : Lisp Unit := do
  let m ← get
  let low := m.arena.freeCount < m.settings.threshold
  if low then collect form env

def escapeIfInterrupted : Lisp Unit := do
  if (← get).interrupted then
    modify ({ · with interrupted := false })
    throw .escape

def evalSymbol (form : Value) (name : Symbol) (env : Value) : Lisp Value := do
  if name = Symbol.nil then return .nil
  let globe := (← get).globe
  match ← ask (·.lookupEither name env globe) with
  | .found binding => ask (·.cdr (.cell binding))
  | .absent => if name.isBuiltin then return form else blame .undefined form
  | .endless => endless

/-! ### Special forms -/

def quote (args : Value) : Lisp Value :=
  ask (·.car args)

def define (var val : Value) : Lisp Unit := do
  let globe := (← get).globe
  let globe ← transact (Arena.define var val globe)
  modify ({ · with globe })

def defun (args : Value) : Lisp Value := do
  let var ← ask (·.car args)
  unless ← ask (·.isSymbol var) do blame .notASymbol var
  let lambda ← store (Arena.symbol Symbol.lambda)
  let rest ← ask (·.cdr args)
  let val ← store (Arena.cons lambda rest)
  define var val
  return var

def defvar (ev : Evaluator) (args env : Value) : Lisp Value := do
  let var ← ask (·.car args)
  unless ← ask (·.isSymbol var) do blame .notASymbol var
  let val ← ev (← ask (·.second args)) env
  define var val
  return var

def setq (ev : Evaluator) (args env : Value) : Lisp Value := do
  let val ← ev (← ask (·.second args)) env
  let globe := (← get).globe
  let binding ← answer fun a => a.findBinding (a.car args) env globe
  change (·.setCdr binding val)
  return val

def cond (ev : Evaluator) (args env : Value) : Lisp Value := do
  let test ← ev (← ask (·.car args)) env
  if test = .nil then
    ev (← ask (·.third args)) env
  else
    ev (← ask (·.second args)) env

def special (ev : Evaluator) : SpecialForm → Value → Value → Lisp Value
  | .quote, args, _ => quote args
  | .defun, args, _ => defun args
  | .defvar, args, env => defvar ev args env
  | .setq, args, env => setq ev args env
  | .cond, args, env => cond ev args env

/-! ### Builtin functions -/

def isSame (a : Arena) (v w : Value) : Bool :=
  v == w || match a.symbol? v, a.symbol? w with
    | some name, some other => name == other
    | _, _ => false

def primitive (ev : Evaluator) (function : Primitive) (args env : Value) : Lisp Value := do
  let x ← ask (·.car args)
  match function with
  | .not | .null => truth x.isNil
  | .cons => do
    let y ← ask (·.second args)
    store (Arena.cons x y)
  | .atom => do truth (← ask (·.isAtom x))
  | .listp => do truth (← ask (·.isList x))
  | .consp => do truth (← ask (·.isPair x))
  | .symbolp => do truth (← ask (·.isSymbol x))
  | .eq => do
    let y ← ask (·.second args)
    truth (← ask (isSame · x y))
  | .car => answer fun a => some (a.listCar x)
  | .cdr => answer fun a => some (a.listCdr x)
  | .eval => ev x env
  | .globals => do return (← get).globe
  | .locals => return env

/-! ### Application -/

/-- Appends the values of the arguments after a last cell, and counts them. -/
def evalArguments (ev : Evaluator) (env : Value) : Nat → Nat → Value → Nat → Lisp Nat
  | 0, _, _, _ => endless
  | n + 1, last, rest, count => do
    if ← ask (·.isPair rest) then
      let val ← ev (← ask (·.car rest)) env
      let cell ← store (Arena.take (.pair val .nil))
      change (·.setCdr last (.cell cell))
      evalArguments ev env n cell (← ask (·.cdr rest)) (count + 1)
    else
      return count

def applyBuiltin (ev : Evaluator) (row : Builtin) (fname args : Value) (count : Nat) (env : Value) :
    Lisp Value := do
  if count < row.arity.least then blame .tooFewArguments fname
  if row.arity.most < count then blame .tooManyArguments fname
  match row with
  | .keyword _ => blame .notValidHere fname
  | .special form => special ev form args env
  | .primitive function => primitive ev function args env

def bindArguments (fname params args env : Value) : Lisp Value := do
  let (params, args, env) ← store (Arena.bindAll params args env)
  if params ≠ .nil then blame .tooFewParameters fname
  if args ≠ .nil then blame .tooManyParameters fname
  return env

/-- The answer is the last form of the body, which is not evaluated yet. -/
def evalButLast (ev : Evaluator) (env : Value) : Nat → Value → Lisp Value
  | 0, _ => endless
  | n + 1, body => do
    if ← ask fun a => a.isPair (a.cdr body) then
      let _ ← ev (← ask (·.car body)) env
      evalButLast ev env n (← ask (·.cdr body))
    else
      ask (·.car body)

/-- A call sees the bindings of its caller. -/
def applyLambda (ev : Evaluator) (n : Nat) (fname lambda args env : Value) : Lisp Value := do
  let frame ← store (Arena.pushFrame env)
  let params ← ask (·.car lambda)
  let env ← bindArguments fname params args frame
  protect env
  let body ← ask (·.cdr lambda)
  let last ← evalButLast ev env n body
  let result ← ev last env
  unprotect
  return result

def call (ev : Evaluator) (n : Nat) (fname function args : Value) (count : Nat) (env : Value) :
    Lisp Value := do
  match ← ask (·.symbol? function) with
  | some name =>
    match name.builtin? with
    | some row => applyBuiltin ev row fname args count env
    | none => blame .notValidHere fname
  | none => do
    if ← ask fun a => a.isNamed (a.car function) Symbol.lambda then
      applyLambda ev n fname (← ask (·.cdr function)) args env
    else
      blame .illegalFunction fname

/-- The function and the values of the arguments are a protected list meanwhile. -/
def apply (ev : Evaluator) (n : Nat) (form env : Value) : Lisp Value := do
  let fname ← ask (·.car form)
  let op ← ev fname env
  let head ← store (Arena.take (.pair op .nil))
  protect (.cell head)
  let count ← evalArguments ev env n head (← ask (·.cdr form)) 0
  let function ← ask (·.car (.cell head))
  let args ← ask (·.cdr (.cell head))
  let result ← call ev n fname function args count env
  unprotect
  return result

/-! ### Evaluation -/

def evalPair (ev : Evaluator) (n : Nat) (form env : Value) : Lisp Value := do
  let head ← ask fun a => (a.symbol? (a.car form)).bind Symbol.builtin?
  match head with
  | some (.keyword .lambda) => if env = .nil then return form else throw .closuresNotSupported
  | some (.special name) => special ev name (← ask (·.cdr form)) env
  | _ => apply ev n form env

def evalForm (ev : Evaluator) (n : Nat) (form env : Value) : Lisp Value := do
  if form = .nil then return .nil
  match ← ask (·.symbol? form) with
  | some name => evalSymbol form name env
  | none => evalPair ev n form env

def evalStep (ev : Evaluator) (n : Nat) (form env : Value) : Lisp Value := do
  collectIfLow form env
  escapeIfInterrupted
  evalForm ev n form env

def eval : Nat → Evaluator
  | 0 => fun _ _ => endless
  | n + 1 => evalStep (eval n) n

end ArenaLisp.Lisp
