/-!
# Settings
-/

namespace ArenaLisp

structure Settings where
  workspace : Nat := 1000
  /-- With fewer free cells than this, an evaluation step begins with a collection. -/
  threshold : Nat := 20
  echo : Bool := false
  freespace : Bool := true
  banner : Bool := true
  deriving DecidableEq, Repr, Inhabited

namespace Settings

def bannerText : String := "ULISP ZERO 1.1"

/-- The largest workspace, 2^32 - 1, so that a 32-bit number can name every cell. -/
def workspaceLimit : Nat := 4294967295

def sizeLimit : Nat := 18446744073709551616

inductive Refusal where
  | invalid (text : String)
  | tooSmall (threshold cells : Nat)
  | tooLarge (cells : Nat)
  deriving DecidableEq, Repr

def Refusal.message : Refusal → String
  | invalid text => "invalid workspace size: " ++ text
  | tooSmall threshold cells =>
    "workspace must exceed " ++ toString threshold ++ " cells, got " ++ toString cells
  | tooLarge cells =>
    "workspace must not exceed " ++ toString workspaceLimit ++ " cells, got " ++ toString cells

def digitsValue? (digits : List Char) : Option Nat :=
  if digits.isEmpty ∨ ¬ digits.all Char.isDigit then none
  else some (digits.foldl (fun n c => 10 * n + (c.toNat - '0'.toNat)) 0)

def unsigned (text : List Char) : List Char :=
  match text with
  | '+' :: digits => digits
  | digits => digits

def size? (text : String) : Option Nat :=
  (digitsValue? (unsigned text.toList)).filter (· < sizeLimit)

/-- Nothing is set before everything is checked. -/
def setWorkspace (text : String) : ExceptT Refusal (StateM Settings) Unit := do
  match size? text with
  | none => throw (.invalid text)
  | some cells =>
    let threshold := (← get).threshold
    if cells ≤ threshold then throw (.tooSmall threshold cells)
    else if workspaceLimit < cells then throw (.tooLarge cells)
    else modify ({ · with workspace := cells })

def withWorkspace (settings : Settings) (text : String) : Except Refusal Settings :=
  match (setWorkspace text).run settings with
  | (.ok (), settings) => .ok settings
  | (.error refusal, _) => .error refusal

def quiet (settings : Settings) : Settings :=
  { settings with banner := false, freespace := false }

structure Surroundings where
  workspace? : Option String := none
  echo? : Option String := none
  deriving Repr, Inhabited

def ofSurroundings (surroundings : Surroundings) : Except Refusal Settings := do
  let settings : Settings := {}
  let settings ← match surroundings.workspace? with
    | some text => settings.withWorkspace text
    | none => .ok settings
  return match surroundings.echo? with
    | some text => { settings with echo := text == "1" }
    | none => settings

theorem setWorkspace_run (text : String) (settings : Settings) :
    (setWorkspace text).run settings = match size? text with
      | none => (.error (.invalid text), settings)
      | some cells =>
        if cells ≤ settings.threshold then (.error (.tooSmall settings.threshold cells), settings)
        else if workspaceLimit < cells then (.error (.tooLarge cells), settings)
        else (.ok (), { settings with workspace := cells }) := by
  unfold setWorkspace
  cases size? text with
  | none => rfl
  | some cells =>
    show (if cells ≤ settings.threshold then _ else if workspaceLimit < cells then _ else _ :
      ExceptT Refusal (StateM Settings) Unit) settings = _
    dsimp only
    split
    · rfl
    · split <;> rfl

end Settings

end ArenaLisp
