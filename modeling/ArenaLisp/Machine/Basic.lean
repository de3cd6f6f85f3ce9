import ArenaLisp.Arena.Collect
import ArenaLisp.Environment
import ArenaLisp.Settings
import ArenaLisp.Text.Read

/-!
# The machine

A fault leaves the machine as it was at that moment. A computation that would never end has no answer
(`none`).
-/

namespace ArenaLisp

structure Machine where
  arena : Arena
  console : Console
  settings : Settings
  globe : Value := .nil
  /-- What is in use but reached by no environment, last one first. -/
  stack : Value := .nil
  tee : Value
  interrupted : Bool := false
  collections : Nat := 0
  deriving Repr, Inhabited

abbrev Lisp (α : Type) := ExceptT Fault (StateT Machine Option) α

namespace Machine

def new (settings : Settings) (console : Console) : Except Fault Machine :=
  match (Arena.symbol Symbol.tee).run (Arena.new settings.workspace) with
  | (.error fault, _) => .error fault
  | (.ok tee, arena) =>
    .ok { arena, settings, tee, console := { console with echo := settings.echo } }

def collect (m : Machine) (form env : Value) : Machine :=
  match m with
  | ⟨arena, console, settings, globe, stack, tee, interrupted, collections⟩ =>
    ⟨arena.collect [tee, globe, stack, form, env], console, settings, globe, stack, tee,
      interrupted, collections + 1⟩

end Machine

namespace Lisp

def endless {α : Type} : Lisp α := fun _ => none

@[inline]
def ask {α : Type} (question : Arena → α) : Lisp α := fun m =>
  some (.ok (question m.arena), m)

@[inline]
def answer {α : Type} (question : Arena → Option (Except Fault α)) : Lisp α := fun m =>
  match question m.arena with
  | some result => some (result, m)
  | none => none

@[inline]
def change (f : Arena → Arena) : Lisp Unit := fun m =>
  match m with
  | ⟨arena, console, settings, globe, stack, tee, interrupted, collections⟩ =>
    some (.ok (), ⟨f arena, console, settings, globe, stack, tee, interrupted, collections⟩)

@[inline]
def store {α : Type} (f : Storing α) : Lisp α := fun m =>
  match m with
  | ⟨arena, console, settings, globe, stack, tee, interrupted, collections⟩ =>
    let (result, arena) := f.run arena
    some (result, ⟨arena, console, settings, globe, stack, tee, interrupted, collections⟩)

@[inline]
def transact {α : Type} (f : Arena → Option (Except Fault α × Arena)) : Lisp α := fun m =>
  match m with
  | ⟨arena, console, settings, globe, stack, tee, interrupted, collections⟩ =>
    match f arena with
    | some (result, arena) =>
      some (result, ⟨arena, console, settings, globe, stack, tee, interrupted, collections⟩)
    | none => none

@[inline]
def write (f : Console → Console) : Lisp Unit := fun m =>
  match m with
  | ⟨arena, console, settings, globe, stack, tee, interrupted, collections⟩ =>
    some (.ok (), ⟨arena, f console, settings, globe, stack, tee, interrupted, collections⟩)

def read : Lisp Value := fun m =>
  match m with
  | ⟨arena, console, settings, globe, stack, tee, interrupted, collections⟩ =>
    let (result, console, arena) := console.read arena
    some (result, ⟨arena, console, settings, globe, stack, tee, interrupted, collections⟩)

def print (v : Value) : Lisp String :=
  answer (Arena.print · v)

def render (form : Value) : Lisp String :=
  answer fun a => (a.render form).map .ok

def blame {α : Type} (fault : String → Fault) (form : Value) : Lisp α := do
  throw (fault (← render form))

def collect (form env : Value) : Lisp Unit :=
  modify (Machine.collect · form env)

def protect (v : Value) : Lisp Unit := do
  let stack := (← get).stack
  let stack ← store (Arena.cons v stack)
  modify ({ · with stack })

def unprotect : Lisp Unit := do
  modify fun m => { m with stack := m.arena.cdr m.stack }

def truth (condition : Bool) : Lisp Value := do
  let m ← get
  return if condition then m.tee else .nil

end Lisp

end ArenaLisp
