import ArenaLisp.Proofs.Session.Transcripts

/-!
# Sessions with notes

`runTold` is `run` with a note of each piece that it writes: what the piece is, and the machine just
before it is written. Without the notes it is `run` (`erases_runTold`). A turn makes a page of notes
(`Paged`).
-/

namespace ArenaLisp

/-- What a piece of a transcript is. -/
inductive Note.Kind where
  | banner
  | prompt
  | echo
  | lineEnd
  | result (text : String)
  | diagnostic (fault : Fault)

/-- A note of a piece of a transcript, with the machine just before it is written. -/
structure Note where
  kind : Note.Kind
  machine : Machine
  written : List Byte

/-- A note of what is written from a machine to a later one. -/
def Note.between (m n : Machine) (kind : Note.Kind) : Note :=
  ⟨kind, m, n.console.output.toList.drop m.console.output.size⟩

theorem Note.between_eq {m n : Machine} {taken written : List Byte}
    (goes : m.console.Goes taken written n.console) (kind : Note.Kind) :
    between m n kind = ⟨kind, m, written⟩ := by
  rw [between, goes.output, ← Array.length_toList, List.drop_left]

/-- The characters of some pieces. -/
def transcriptOf (notes : List Note) : List Byte :=
  notes.flatMap Note.written

namespace Lisp

/-- A computation of the machine that makes notes of what it writes. -/
abbrev Told (α : Type) := ExceptT Fault (StateT (Machine × List Note) Option) α

variable {α β : Type}

/-- Does what a computation does, and makes no note of it. -/
def quietly (x : Lisp α) : Told α := fun s =>
  (x s.1).map fun after => (after.1, after.2, s.2)

/-- Does what a computation does, and makes a note of what it writes. -/
def noting (kind : Note.Kind) (x : Lisp α) : Told α := fun s =>
  (x s.1).map fun after => (after.1, after.2, s.2 ++ [.between s.1 after.2 kind])

/-!
### Parts of a session

They do what the parts of the same name do, and make a note of each piece that they write.
-/

def concludeTold (result : Value) : Told Unit := do
  noting .lineEnd (write Console.freshLine)
  let text ← quietly (print result)
  noting (.result text) (write (·.putText text))
  quietly unprotect
  noting .lineEnd (write fun c => c.freshLine.endLine)

def respondTold (fuel : Nat) (form : Value) : Told Unit := do
  noting .lineEnd (write Console.freshLine)
  let result ← quietly (eval fuel form .nil)
  concludeTold result

def cycleTold (fuel : Nat) : Told Unit := do
  quietly (collect .nil .nil)
  noting .prompt (modify Machine.prompt)
  let form ← noting .echo receive
  respondTold fuel form

def reportTold (fault : Fault) : Told Unit := do
  quietly (modify ({ · with stack := .nil }))
  noting .lineEnd (write Console.freshLine)
  noting (.diagnostic fault) (write fun c => (c.putText "ERROR: ").putText fault.message)
  noting .lineEnd (write Console.endLine)

def turnTold (fuel : Nat) : Told Bool :=
  tryCatch (do cycleTold fuel; pure true) fun
    | .endOfInput => pure false
    | fault => if fault.isFatal then throw fault else do reportTold fault; pure true

def turnsTold (fuel : Nat) : Nat → Told Unit
  | 0 => return
  | n + 1 => do
    if ← turnTold fuel then turnsTold fuel n

/-- A session with notes. -/
def runTold (fuel : Nat) : Told Unit := do
  noting .banner (modify Machine.greet)
  turnsTold fuel (← quietly rounds)
  noting .lineEnd (write Console.freshLine)

/-! ### Without the notes -/

/-- A computation with notes that does what another one does. -/
def Erases (x : Told α) (y : Lisp α) : Prop :=
  ∀ s, (x s).map (fun after => (after.1, after.2.1)) = y s.1

namespace Erases

theorem pure (v : α) : Erases (pure v) (pure v) :=
  fun _ => rfl

theorem throw (fault : Fault) : Erases (throw fault : Told α) (throw fault) :=
  fun _ => rfl

theorem quietly (x : Lisp α) : Erases (quietly x) x := by
  intro s
  rw [Lisp.quietly, Option.map_map]
  exact Option.map_id_apply

theorem noting (kind : Note.Kind) (x : Lisp α) : Erases (noting kind x) x := by
  intro s
  rw [Lisp.noting, Option.map_map]
  exact Option.map_id_apply

theorem bind {x : Told α} {y : Lisp α} {f : α → Told β} {g : α → Lisp β} (first : Erases x y)
    (next : ∀ v, Erases (f v) (g v)) : Erases (x >>= f) (y >>= g) := by
  intro s
  rw [bind_apply, bind_apply, ← first s]
  rcases x s with _ | ⟨fault | v, t⟩
  · rfl
  · rfl
  · exact next v t

theorem tryCatch {x : Told α} {y : Lisp α} {handle : Fault → Told α} {handle' : Fault → Lisp α}
    (first : Erases x y) (next : ∀ fault, Erases (handle fault) (handle' fault)) :
    Erases (tryCatch x handle) (tryCatch y handle') := by
  intro s
  rw [tryCatch_apply, tryCatch_apply, ← first s]
  rcases x s with _ | ⟨fault | v, t⟩
  · rfl
  · exact next fault t
  · rfl

end Erases

theorem erases_concludeTold (result : Value) : Erases (concludeTold result) (conclude result) :=
  .bind (.noting _ _) fun _ => .bind (.quietly _) fun _ => .bind (.noting _ _) fun _ =>
    .bind (.quietly _) fun _ => .noting _ _

theorem erases_cycleTold (fuel : Nat) : Erases (cycleTold fuel) (cycle fuel) := by
  rw [cycle_eq]
  refine .bind (.quietly _) fun _ => .bind (.noting _ _) fun _ => .bind (.noting _ _) fun form => ?_
  exact .bind (.noting _ _) fun _ => .bind (.quietly _) erases_concludeTold

theorem erases_reportTold (fault : Fault) : Erases (reportTold fault) (report fault) := by
  have parts : report fault = (do
      modify ({ · with stack := .nil })
      write Console.freshLine
      write fun c => (c.putText "ERROR: ").putText fault.message
      write Console.endLine) := rfl
  rw [parts]
  exact .bind (.quietly _) fun _ => .bind (.noting _ _) fun _ => .bind (.noting _ _) fun _ =>
    .noting _ _

theorem erases_turnTold (fuel : Nat) : Erases (turnTold fuel) (turn fuel) := by
  refine .tryCatch (.bind (erases_cycleTold fuel) fun _ => .pure true) fun fault => ?_
  cases fault with
  | endOfInput => exact .pure false
  | io detail => exact .throw _
  | _ => exact .bind (erases_reportTold _) fun _ => .pure true

theorem erases_turnsTold (fuel limit : Nat) : Erases (turnsTold fuel limit) (turns fuel limit) := by
  induction limit with
  | zero => exact .pure ()
  | succ limit ih =>
    refine .bind (erases_turnTold fuel) fun again => ?_
    cases again with
    | true => exact ih
    | false => exact .pure ()

theorem erases_runTold (fuel : Nat) : Erases (runTold fuel) (run fuel) :=
  .bind (.noting _ _) fun _ => .bind (.quietly _) fun _ => .bind (erases_turnsTold fuel _) fun _ =>
    .noting _ _

/-! ### Pages -/

variable {m n k p : Machine} {held : Set Value} {fuel : Nat} {form v : Value} {notes : List Note}

/-- The notes of an expression that is asked for, up to what comes of reading it. -/
def asking (m k : Machine) : List Note :=
  [.between (m.collect .nil .nil) (m.collect .nil .nil).prompt .prompt,
    .between (m.collect .nil .nil).prompt k .echo]

def complaining (m : Machine) (fault : Fault) : List Note :=
  let begun := { m with stack := .nil, console := m.console.freshLine }
  let shown := { begun with
    console := (begun.console.putText "ERROR: ").putText fault.message }
  [.between { m with stack := .nil } begun .lineEnd, .between begun shown (.diagnostic fault),
    .between shown (m.reported fault) .lineEnd]

def concluding (m : Machine) (text : String) : List Note :=
  let begun := { m with console := m.console.freshLine }
  let shown := { begun with console := begun.console.putText text }
  [.between m begun .lineEnd, .between begun shown (.result text),
    .between { shown with stack := m.arena.cdr m.stack } (m.concluded text) .lineEnd]

/-- What a turn comes to and the page of notes that it makes, unless it does not end. -/
inductive Paged (fuel : Nat) (m : Machine) (notes : List Note) :
    Option (Except Fault Bool × Machine × List Note) → Prop where
  | ended {k : Machine} :
    receive (m.collect .nil .nil).prompt = some (.error .endOfInput, k) →
    Paged fuel m notes (some (.ok false, k, notes ++ asking m k))
  | unread {fault : Fault} {k : Machine} :
    receive (m.collect .nil .nil).prompt = some (.error fault, k) → fault.isFatal = false →
    Paged fuel m notes (some (.ok true, k.reported fault, notes ++ (asking m k ++
      complaining k fault)))
  | stopped {form : Value} {fault : Fault} {k p : Machine} :
    receive (m.collect .nil .nil).prompt = some (.ok form, k) →
    eval fuel form .nil { k with console := k.console.freshLine } = some (.error fault, p) →
    fault.isFatal = false →
    Paged fuel m notes (some (.ok true, p.reported fault, notes ++ (asking m k ++
      .between k { k with console := k.console.freshLine } .lineEnd :: complaining p fault)))
  | answered {form v : Value} {text : String} {k p : Machine} :
    receive (m.collect .nil .nil).prompt = some (.ok form, k) →
    eval fuel form .nil { k with console := k.console.freshLine } = some (.ok v, p) →
    p.arena.print v = some (.ok text) →
    Paged fuel m notes (some (.ok true, p.concluded text, notes ++ (asking m k ++
      .between k { k with console := k.console.freshLine } .lineEnd :: concluding p text)))
  | endless : Paged fuel m notes none

theorem reportTold_apply (fault : Fault) (m : Machine) (notes : List Note) :
    reportTold fault (m, notes) =
      some (.ok (), m.reported fault, notes ++ complaining m fault) := by
  show some (Except.ok (), m.reported fault, notes ++ [_] ++ [_] ++ [_]) = _
  rw [List.append_assoc, List.append_assoc]
  rfl

theorem concludeTold_apply (v : Value) (m : Machine) (notes : List Note) :
    concludeTold v (m, notes) = match m.arena.print v with
      | none => none
      | some (.ok text) => some (.ok (), m.concluded text, notes ++ concluding m text)
      | some (.error fault) => some (.error fault, { m with console := m.console.freshLine },
          notes ++ [.between m { m with console := m.console.freshLine } .lineEnd]) := by
  have begun : concludeTold v (m, notes) = (quietly (print v) >>= _)
    ({ m with console := m.console.freshLine }, notes ++ [.between m _ .lineEnd]) := rfl
  rw [begun, bind_apply, quietly, print, answer]
  dsimp only
  rcases m.arena.print v with _ | ⟨fault | text⟩
  · rfl
  · rfl
  · show some (Except.ok (), m.concluded text, notes ++ [_] ++ [_] ++ [_]) = _
    rw [List.append_assoc, List.append_assoc]
    rfl

theorem respondTold_apply (fuel : Nat) (form : Value) (k : Machine) (notes : List Note) :
    respondTold fuel form (k, notes) =
      match eval fuel form .nil { k with console := k.console.freshLine } with
      | none => none
      | some (.ok v, p) => concludeTold v (p, notes ++
          [.between k { k with console := k.console.freshLine } .lineEnd])
      | some (.error fault, p) => some (.error fault, p, notes ++
          [.between k { k with console := k.console.freshLine } .lineEnd]) := by
  have begun : respondTold fuel form (k, notes) = (quietly (eval fuel form .nil) >>= concludeTold)
    ({ k with console := k.console.freshLine }, notes ++ [.between k _ .lineEnd]) := rfl
  rw [begun, bind_apply, quietly]
  dsimp only
  rcases eval fuel form .nil { k with console := k.console.freshLine } with _ | ⟨_ | _, _⟩ <;> rfl

theorem cycleTold_apply (fuel : Nat) (m : Machine) (notes : List Note) :
    cycleTold fuel (m, notes) = match receive (m.collect .nil .nil).prompt with
      | none => none
      | some (.ok form, k) => respondTold fuel form (k, notes ++ asking m k)
      | some (.error fault, k) => some (.error fault, k, notes ++ asking m k) := by
  have begun : cycleTold fuel (m, notes) = (noting .echo receive >>= respondTold fuel)
    ((m.collect .nil .nil).prompt, notes ++ [.between (m.collect .nil .nil) _ .prompt]) := rfl
  rw [begun, bind_apply, noting]
  dsimp only
  rcases receive (m.collect .nil .nil).prompt with _ | ⟨fault | form, k⟩
  · rfl
  · simp only [Option.map_some, List.append_assoc]
    rfl
  · simp only [Option.map_some, List.append_assoc]
    rfl

theorem turnTold_of_fault {fault : Fault} {later : List Note}
    (ran : cycleTold fuel (m, notes) = some (.error fault, n, later))
    (mild : fault.isFatal = false) :
    turnTold fuel (m, notes) =
      some (.ok true, n.reported fault, later ++ complaining n fault) := by
  rw [turnTold, tryCatch_apply, bind_apply, ran]
  cases fault with
  | endOfInput | io => cases mild
  | _ =>
    show (reportTold _ >>= _) (n, later) = _
    rw [bind_apply, reportTold_apply]
    rfl

theorem cycleTold_of_endless (never : cycle fuel m = none) (notes : List Note) :
    cycleTold fuel (m, notes) = none :=
  Option.map_eq_none_iff.1 ((erases_cycleTold fuel (m, notes)).trans never)

theorem paged_turnTold (ready : m.Ready held) (nil : .nil ∈ held) (fuel : Nat)
    (notes : List Note) : Paged fuel m notes (turnTold fuel (m, notes)) := by
  have cycled := cycleTold_apply fuel m notes
  cases fate ready nil fuel with
  | ended received =>
    rw [received] at cycled
    rw [turnTold, tryCatch_apply, bind_apply, cycled]
    exact .ended received
  | unread received mild =>
    rw [received] at cycled
    rw [turnTold_of_fault cycled mild, List.append_assoc]
    exact .unread received mild
  | stopped received ran mild =>
    rw [received] at cycled
    dsimp only at cycled
    rw [respondTold_apply, ran] at cycled
    rw [turnTold_of_fault cycled mild, List.append_assoc, List.append_assoc]
    exact .stopped received ran mild
  | answered received ran printed =>
    rw [received] at cycled
    dsimp only at cycled
    rw [respondTold_apply, ran] at cycled
    dsimp only at cycled
    rw [concludeTold_apply, printed] at cycled
    dsimp only at cycled
    rw [List.append_assoc, List.append_assoc] at cycled
    rw [turnTold, tryCatch_apply, bind_apply, cycled]
    exact .answered received ran printed
  | endless never =>
    rw [turnTold, tryCatch_apply, bind_apply, cycleTold_of_endless never]
    exact .endless

end Lisp

end ArenaLisp
