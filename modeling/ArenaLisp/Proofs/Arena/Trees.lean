import ArenaLisp.Proofs.Arena.Printing
import ArenaLisp.Proofs.Ideal.Interpreter

/-!
# Values and trees

`Shows a off v t` says that the value `v` unfolds to the tree `t` and none of its pairs is one of
the cells `off`. So a tail that is written in one of these cells changes no tree (`Shows.setCdr`).
-/

namespace ArenaLisp

/-- The names of the functions whose answers depend on cells and not on trees only. -/
def Symbol.Revealing (name : Symbol) : Prop :=
  name = ofBuiltin (.primitive .eq) ∨ name = ofBuiltin (.primitive .globals) ∨
    name = ofBuiltin (.primitive .locals)

theorem Symbol.plain_lambda : ¬ Symbol.lambda.Revealing := by
  unfold Revealing
  decide

theorem Symbol.plain_tee : ¬ Symbol.tee.Revealing := by
  unfold Revealing
  decide

namespace Arena

/-- A value that unfolds to a tree, off certain cells and without revealing names. -/
inductive Shows (a : Arena) (off : Nat → Prop) : Value → Sexp → Prop where
  | nil : Shows a off .nil .nil
  | symbol {id : Nat} {name : Symbol} :
    a.cell id = .symbol name → ¬ name.Revealing → Shows a off (.cell id) (.symbol name)
  | pair {id : Nat} {head tail : Value} {s t : Sexp} :
    a.cell id = .pair head tail → ¬ off id → Shows a off head s → Shows a off tail t →
    Shows a off (.cell id) (.pair s t)

variable {a b : Arena} {off avoid : Nat → Prop} {v w : Value} {s t : Sexp} {id : Nat}

theorem Shows.unfolds (shows' : a.Shows off v t) : a.Unfolds v t := by
  induction shows' with
  | nil => exact .nil
  | symbol content => exact .symbol content
  | pair content _ _ _ head tail => exact .pair content head tail

theorem Shows.congr (shows' : a.Shows off v t)
    (same : ∀ id, a.Reaches v id → b.cell id = a.cell id)
    (clear : ∀ id, a.Reaches v id → avoid id → off id) : b.Shows avoid v t := by
  induction shows' with
  | nil => exact .nil
  | symbol content plain => exact .symbol ((same _ (.here _)).trans content) plain
  | pair content out _ _ ihHead ihTail =>
    have head : ∀ {id}, a.Reaches _ id → a.Reaches _ id := .head content
    have tail : ∀ {id}, a.Reaches _ id → a.Reaches _ id := .tail content not_false
    apply Shows.pair ((same _ (.here _)).trans content)
    · exact fun h => out (clear _ (.here _) h)
    · exact ihHead (fun id path => same id (head path)) fun id path => clear id (head path)
    · exact ihTail (fun id path => same id (tail path)) fun id path => clear id (tail path)

theorem Shows.mono (shows' : a.Shows off v t) (sub : ∀ id, avoid id → off id) :
    a.Shows avoid v t :=
  shows'.congr (fun _ _ => rfl) fun id _ => sub id

theorem Shows.reached (shows' : a.Shows off v t) (path : a.Reaches v id) :
    (∃ name, a.cell id = .symbol name) ∨ (∃ head tail, a.cell id = .pair head tail) ∧ ¬ off id := by
  unfold Reaches at path
  induction path generalizing t with
  | here =>
    cases shows' with
    | symbol content => exact .inl ⟨_, content⟩
    | pair content out => exact .inr ⟨⟨_, _, content⟩, out⟩
  | head content _ ih =>
    cases shows' with
    | symbol content' => cases content.symm.trans content'
    | pair content' _ head _ =>
      cases content.symm.trans content'
      exact ih head
  | tail content _ _ ih =>
    cases shows' with
    | symbol content' => cases content.symm.trans content'
    | pair content' _ _ tail =>
      cases content.symm.trans content'
      exact ih tail

theorem Shows.taken (shows' : a.Shows off v t) (path : a.Reaches v id) : a.Taken id := by
  obtain ⟨name, content⟩ | ⟨⟨head, tail, content⟩, -⟩ := shows'.reached path
  · exact taken_of_symbol content
  · exact taken_of_pair content

theorem Shows.live (shows' : a.Shows off v t) : a.Live v := by
  intro id is
  subst is
  exact shows'.taken (.here id)

theorem Shows.kept (shows' : a.Shows off v t) (ext : a.Extends b) : b.Shows off v t :=
  shows'.congr (fun id path => ext.kept id (shows'.taken path)) fun _ _ outside => outside

theorem Shows.extends (shows' : a.Shows off v t) (ext : a.Extends b) :
    b.Shows (fun id => off id ∨ ¬ a.Taken id) v t := by
  apply shows'.congr
  · exact fun id path => ext.kept id (shows'.taken path)
  · intro id path outside
    obtain outside | fresh := outside
    · exact outside
    · exact absurd (shows'.taken path) fresh

theorem Shows.setCdr {cell : Nat} (shows' : a.Shows off v t) (outside : off cell) :
    (a.setCdr cell w).Shows off v t := by
  apply shows'.congr
  · intro id path
    by_cases same : id = cell
    · subst same
      obtain ⟨name, content⟩ | ⟨-, out⟩ := shows'.reached path
      · simp [cell_setCdr, content, Cell.withTail]
      · exact absurd outside out
    · exact cell_setCdr_of_ne same
  · exact fun _ _ outside => outside

/-! ### Looking at trees -/

section

variable (shows' : a.Shows off v t)
include shows'

theorem Shows.car : a.Shows off (a.car v) t.car := by
  cases shows' with
  | nil => exact .nil
  | symbol content =>
    simp only [Arena.car, cell?_cell, content]
    exact .nil
  | pair content _ head _ =>
    rw [car_of_pair content]
    exact head

theorem Shows.cdr : a.Shows off (a.cdr v) t.cdr := by
  cases shows' with
  | nil => exact .nil
  | symbol content =>
    simp only [Arena.cdr, cell?_cell, content]
    exact .nil
  | pair content _ _ tail =>
    rw [cdr_of_pair content]
    exact tail

theorem Shows.nil_iff : v = .nil ↔ t = .nil := by
  cases shows' <;> simp

theorem Shows.isPair_eq : a.isPair v = t.isPair := by
  cases shows' with
  | nil => rfl
  | symbol content => simp [isPair, content, Sexp.isPair]
  | pair content => simp [isPair, content, Sexp.isPair]

theorem Shows.symbol?_eq : a.symbol? v = t.symbol? := by
  cases shows' with
  | nil => rfl
  | symbol content => simp [symbol?, content, Sexp.symbol?]
  | pair content => simp [symbol?, content, Sexp.symbol?]

theorem Shows.isList_eq : a.isList v = t.isList := by
  cases shows' with
  | nil => rfl
  | symbol content => simp [isList, Value.isNil, isPair, content, Sexp.isList, Sexp.isPair]
  | pair content => simp [isList, Value.isNil, isPair, content, Sexp.isList, Sexp.isPair]

end

theorem Shows.second (shows' : a.Shows off v t) : a.Shows off (a.second v) t.second :=
  shows'.cdr.car

theorem Shows.third (shows' : a.Shows off v t) : a.Shows off (a.third v) t.third :=
  shows'.cdr.cdr.car

theorem Shows.plain {name : Symbol} (shows' : a.Shows off v t) (is : t.symbol? = some name) :
    t = .symbol name ∧ ¬ name.Revealing := by
  cases shows' with
  | nil => cases is
  | symbol _ plain =>
    cases is
    exact ⟨rfl, plain⟩
  | pair => cases is

/-! ### Printing trees -/

theorem Shows.print_eq (shows' : a.Shows off v t) : a.print v = some (.ok t.text) :=
  shows'.unfolds.print_eq

theorem Shows.render_eq (shows' : a.Shows off v t) : a.render v = some t.caption := by
  have printed := shows'.print_eq
  unfold render
  cases shows' with
  | nil => rfl
  | symbol =>
    simp only [printed]
    rfl
  | pair =>
    simp only [printed]
    rfl

end Arena

end ArenaLisp
