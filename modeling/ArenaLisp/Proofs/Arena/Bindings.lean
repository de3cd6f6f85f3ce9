import ArenaLisp.Proofs.Arena.Lookup

/-!
# Bindings

A program builds one environment from frames and bindings, and one of definitions, on an arena that
has anything else in it. The two never share a binding, and no binding is a cell of either list
(`Built.scopes`). So a value that is written inside a binding changes nothing else in them, and what is
put on top of one hides no name but its own.
-/

namespace ArenaLisp.Arena

open Storing

/-! ### The bindings of a name -/

/-- The bindings of a name along at most a given number of elements, innermost first. -/
def bindingsWithin (a : Arena) (name : Symbol) : Nat → Value → List Nat
  | 0, _ => []
  | n + 1, env =>
    match a.cell? env with
    | some (.pair (.cell entry) rest) =>
      if a.binds (.cell entry) name then
        entry :: a.bindingsWithin name n rest
      else
        a.bindingsWithin name n rest
    | some (.pair .nil rest) => a.bindingsWithin name n rest
    | _ => []

/-- The bindings of a name, with those that others hide. -/
def bindings (a : Arena) (name : Symbol) (env : Value) : List Nat :=
  a.bindingsWithin name a.capacity env

/-- What a lookup comes to that stops at the first binding. -/
def Search.first : List Nat → Search
  | [] => .absent
  | binding :: _ => .found binding

theorem Search.eq_cons_of_first {ids : List Nat} {id : Nat} (h : Search.first ids = .found id) :
    ∃ rest, ids = id :: rest := by
  cases ids with
  | nil => cases h
  | cons _ rest =>
    cases h
    exact ⟨rest, rfl⟩

/-- An environment that ends, with the cells of its bindings. -/
inductive Scope (a : Arena) : Value → List Nat → Prop where
  | nil : Scope a .nil []
  | frame {id : Nat} {rest : Value} {entries : List Nat} :
    a.cell id = .pair .nil rest → Scope a rest entries → Scope a (.cell id) entries
  | binding {id entry : Nat} {rest var val : Value} {entries : List Nat} :
    a.cell id = .pair (.cell entry) rest → a.cell entry = .pair var val → Scope a rest entries →
    Scope a (.cell id) (entry :: entries)

variable {a b c : Arena} {env globe rest var val v w : Value} {name : Symbol} {id n : Nat}
  {ids entries locals globals new : List Nat} {vs : List Value}

theorem Row.lookupWithin (row : a.Row env ids vs) (enough : ids.length ≤ n) :
    a.lookupWithin name (n + 1) env = .first (a.bindingsWithin name n env) := by
  induction row generalizing n with
  | nil => cases n <;> rfl
  | @cons id head tail ids vs pair _ ih =>
    obtain ⟨n, rfl⟩ : ∃ k, n = k + 1 := ⟨n - 1, by simp at enough; omega⟩
    have later := ih (n := n) (by simpa using enough)
    rw [Arena.lookupWithin, Arena.bindingsWithin]
    simp only [cell?_cell, pair]
    cases head with
    | nil => exact later
    | cell entry =>
      dsimp only
      split
      · rfl
      · exact later

theorem Row.tail (row : a.Row (.cell id) ids vs) (pair : a.cell id = .pair v rest)
    (enough : ids.length ≤ n) :
    ∃ k ids vs, n = k + 1 ∧ a.Row rest ids vs ∧ ids.length ≤ k := by
  cases row with
  | cons pair' row =>
    cases pair.symm.trans pair'
    exact ⟨n - 1, _, _, by simp at enough; omega, row, by simp at enough; omega⟩

namespace Scope

theorem row (scope : a.Scope env entries) : ∃ ids vs, a.Row env ids vs := by
  induction scope with
  | nil => exact ⟨[], [], .nil⟩
  | frame pair _ ih =>
    obtain ⟨ids, vs, row⟩ := ih
    exact ⟨_, _, .cons pair row⟩
  | binding pair _ _ ih =>
    obtain ⟨ids, vs, row⟩ := ih
    exact ⟨_, _, .cons pair row⟩

theorem pair (scope : a.Scope env entries) (member : id ∈ entries) :
    ∃ var val, a.cell id = .pair var val := by
  induction scope with
  | nil => cases member
  | frame _ _ ih => exact ih member
  | binding _ content _ ih =>
    obtain rfl | member := List.mem_cons.1 member
    · exact ⟨_, _, content⟩
    · exact ih member

theorem element_iff (scope : a.Scope env entries) : a.Element env (.cell id) ↔ id ∈ entries := by
  induction scope with
  | nil => simpa using not_element_nil
  | frame pair _ ih => rw [element_cons_iff pair, ih]; simp
  | binding pair _ _ ih => rw [element_cons_iff pair, ih]; simp

theorem congr (scope : a.Scope env entries) (lists : ∀ id, a.OnList env id → b.cell id = a.cell id)
    (pairs : ∀ id ∈ entries, ∃ var val, b.cell id = .pair var val) : b.Scope env entries := by
  induction scope with
  | nil => exact .nil
  | frame pair _ ih =>
    refine .frame ((lists _ (.here pair)).trans pair) (ih (fun id on => ?_) pairs)
    exact lists id (.next pair on)
  | binding pair content _ ih =>
    obtain ⟨var, val, content'⟩ := pairs _ List.mem_cons_self
    refine .binding ((lists _ (.here pair)).trans pair) content' (ih (fun id on => ?_) ?_)
    · exact lists id (.next pair on)
    · exact fun id member => pairs id (List.mem_cons_of_mem _ member)

theorem onList_congr (scope : a.Scope env entries)
    (lists : ∀ id, a.OnList env id → b.cell id = a.cell id) : b.OnList env id ↔ a.OnList env id := by
  obtain ⟨ids, vs, row⟩ := scope.row
  refine Arena.onList_congr fun other along => lists other ?_
  exact row.onList_iff.2 (row.mem_of_along along)

theorem bindings (scope : a.Scope env entries) (name : Symbol) :
    a.bindings name env = entries.filter fun id => a.binds (.cell id) name := by
  -- the list cells of the row bound how far a lookup has to go
  have within : ∀ n ids vs, a.Row env ids vs → ids.length ≤ n →
      a.bindingsWithin name n env = entries.filter fun id => a.binds (.cell id) name := by
    induction scope with
    | nil =>
      intro n _ _ _ _
      cases n <;> rfl
    | frame pair _ ih =>
      intro n ids vs row enough
      obtain ⟨n, ids, vs, rfl, row, enough⟩ := row.tail pair enough
      rw [bindingsWithin]
      simp only [cell?_cell, pair]
      exact ih n ids vs row enough
    | binding pair _ _ ih =>
      intro n ids vs row enough
      obtain ⟨n, ids, vs, rfl, row, enough⟩ := row.tail pair enough
      rw [bindingsWithin, List.filter_cons]
      simp only [cell?_cell, pair, ih n ids vs row enough]
  obtain ⟨ids, vs, row⟩ := scope.row
  exact within a.capacity ids vs row row.length_le

theorem lookup (scope : a.Scope env entries) (name : Symbol) :
    a.lookup name env = .first (a.bindings name env) := by
  obtain ⟨ids, vs, row⟩ := scope.row
  exact row.lookupWithin row.length_le

end Scope

theorem binds_iff : a.binds v name = true ↔ a.symbol? (a.car v) = some name := by
  unfold binds
  cases a.symbol? (a.car v) <;> simp

/-! ### Two environments side by side -/

/-- A local and a global environment with the cells of their bindings. No cell is a binding twice, and
none is a cell of either list. -/
structure Scopes (a : Arena) (env globe : Value) (locals globals : List Nat) : Prop where
  inner : a.Scope env locals
  outer : a.Scope globe globals
  nodup : (locals ++ globals).Nodup
  apart : ∀ id ∈ locals ++ globals, ¬ a.OnList env id ∧ ¬ a.OnList globe id

/-- What two environments consist of: their list cells and their bindings. -/
def Owns (a : Arena) (env globe : Value) (id : Nat) : Prop :=
  (a.OnList env id ∨ a.OnList globe id) ∨ a.Element env (.cell id) ∨ a.Element globe (.cell id)

namespace Scopes

theorem swap (scopes : a.Scopes env globe locals globals) : a.Scopes globe env globals locals where
  inner := scopes.outer
  outer := scopes.inner
  nodup := List.nodup_append_comm.1 scopes.nodup
  apart id member := (scopes.apart id (by simpa [or_comm] using member)).symm

theorem pair (scopes : a.Scopes env globe locals globals) (member : id ∈ locals ++ globals) :
    ∃ var val, a.cell id = .pair var val := by
  obtain member | member := List.mem_append.1 member
  · exact scopes.inner.pair member
  · exact scopes.outer.pair member

theorem owns_iff (scopes : a.Scopes env globe locals globals) : a.Owns env globe id ↔
    (a.OnList env id ∨ a.OnList globe id) ∨ id ∈ locals ++ globals := by
  rw [Owns, scopes.inner.element_iff, scopes.outer.element_iff, List.mem_append]

theorem taken (scopes : a.Scopes env globe locals globals) (owns : a.Owns env globe id) :
    a.Taken id := by
  obtain (on | on) | member := scopes.owns_iff.1 owns
  · exact on.taken
  · exact on.taken
  · obtain ⟨var, val, content⟩ := scopes.pair member
    exact taken_of_pair content

theorem congr (scopes : a.Scopes env globe locals globals)
    (lists : ∀ id, a.OnList env id ∨ a.OnList globe id → b.cell id = a.cell id)
    (pairs : ∀ id ∈ locals ++ globals, ∃ var val, b.cell id = .pair var val) :
    b.Scopes env globe locals globals := by
  refine ⟨?_, ?_, scopes.nodup, fun id member => ?_⟩
  · refine scopes.inner.congr (fun id on => lists id (.inl on)) fun id member => ?_
    exact pairs id (List.mem_append_left _ member)
  · refine scopes.outer.congr (fun id on => lists id (.inr on)) fun id member => ?_
    exact pairs id (List.mem_append_right _ member)
  · rw [scopes.inner.onList_congr fun id on => lists id (.inl on),
      scopes.outer.onList_congr fun id on => lists id (.inr on)]
    exact scopes.apart id member

theorem kept (scopes : a.Scopes env globe locals globals)
    (same : ∀ id, a.Owns env globe id → b.cell id = a.cell id) :
    b.Scopes env globe locals globals := by
  refine scopes.congr (fun id on => same id (.inl on)) fun id member => ?_
  rw [same id (scopes.owns_iff.2 (.inr member))]
  exact scopes.pair member

theorem setCdr (scopes : a.Scopes env globe locals globals) (member : id ∈ locals ++ globals)
    (val : Value) : (a.setCdr id val).Scopes env globe locals globals := by
  obtain ⟨here, there⟩ := scopes.apart id member
  refine scopes.congr (fun other on => cell_setCdr_of_ne ?_) fun other member => ?_
  · rintro rfl
    exact on.elim here there
  · obtain ⟨var, old, content⟩ := scopes.pair member
    by_cases is : other = id
    · subst is
      exact ⟨var, val, cell_setCdr_of_pair content⟩
    · exact ⟨var, old, (cell_setCdr_of_ne is).trans content⟩

theorem frame (scopes : a.Scopes env globe locals globals) (fresh : id ∉ locals ++ globals)
    (content : a.cell id = .pair .nil env) : a.Scopes (.cell id) globe locals globals where
  inner := .frame content scopes.inner
  outer := scopes.outer
  nodup := scopes.nodup
  apart other member := by
    obtain ⟨here, there⟩ := scopes.apart other member
    rw [onList_cons_iff content, not_or]
    refine ⟨⟨?_, here⟩, there⟩
    rintro rfl
    exact fresh member

theorem binding {entry : Nat} (scopes : a.Scopes env globe locals globals)
    (fresh : id ∉ locals ++ globals) (fresh' : ¬ a.Owns env globe entry) (ne : entry ≠ id)
    (content : a.cell id = .pair (.cell entry) env) (content' : a.cell entry = .pair var val) :
    a.Scopes (.cell id) globe (entry :: locals) globals := by
  rw [scopes.owns_iff, not_or, not_or] at fresh'
  obtain ⟨⟨here, there⟩, new⟩ := fresh'
  refine ⟨.binding content content' scopes.inner, scopes.outer, ?_, fun other member => ?_⟩
  · exact List.nodup_cons.2 ⟨new, scopes.nodup⟩
  · rw [onList_cons_iff content, not_or]
    obtain rfl | member := List.mem_cons.1 member
    · exact ⟨⟨ne, here⟩, there⟩
    · obtain ⟨here, there⟩ := scopes.apart other member
      refine ⟨⟨?_, here⟩, there⟩
      rintro rfl
      exact fresh member

end Scopes

/-! ### Taking pairs -/

/-- A later state of an arena, to which nothing but pairs was added. -/
structure Adds (a b : Arena) : Prop where
  extends' : a.Extends b
  symbols : ∀ id name, b.cell id = .symbol name → a.cell id = .symbol name
  linked : ∃ ids, b.Linked ids

namespace Adds

theorem refl (linked : a.Linked ids) : a.Adds a :=
  ⟨.refl a, fun _ _ same => same, ids, linked⟩

theorem trans (first : a.Adds b) (second : b.Adds c) : a.Adds c where
  extends' := first.extends'.trans second.extends'
  symbols id name symbol := first.symbols id name (second.symbols id name symbol)
  linked := second.linked

theorem symbol?_eq (adds : a.Adds b) (v : Value) : b.symbol? v = a.symbol? v := by
  refine Option.ext fun name => ?_
  rw [symbol?_eq_some_iff, symbol?_eq_some_iff]
  refine exists_congr fun id => and_congr_right fun _ => ⟨adds.symbols id name, fun symbol => ?_⟩
  exact (adds.extends'.kept id (taken_of_symbol symbol)).trans symbol

theorem binds_eq (adds : a.Adds b) (taken : a.Taken id) (name : Symbol) :
    b.binds (.cell id) name = a.binds (.cell id) name := by
  have same : b.car (.cell id) = a.car (.cell id) := by
    rw [car, car, cell?_cell, cell?_cell, adds.extends'.kept id taken]
  rw [binds, binds, same, adds.symbol?_eq]

end Adds

/-- What making a pair comes to. -/
inductive Makes (a : Arena) (head tail : Value) : Except Fault Value × Arena → Prop where
  | noRoom : Makes a head tail (.error .noRoom, a)
  | pair {id : Nat} {b : Arena} : ¬ a.Taken id → a.Adds b → b.cell id = .pair head tail →
    Makes a head tail (.ok (.cell id), b)

theorem makes_cons (linked : a.Linked ids) (head tail : Value) :
    a.Makes head tail ((cons head tail).run a) := by
  rw [cons, map_eq_pure_bind, run_bind]
  cases ids with
  | nil =>
    rw [take_run_nil linked.empty]
    exact .noRoom
  | cons id ids =>
    obtain ⟨b, ran, fills, later⟩ := linked.take (.pair head tail)
    have fresh := linked.not_taken List.mem_cons_self
    rw [ran]
    refine .pair fresh ⟨⟨fills.size, fun other taken => fills.others other ?_⟩, ?_, ids, later⟩
      fills.content
    · rintro rfl
      exact fresh taken
    · intro other name symbol
      by_cases is : other = id
      · rw [is, fills.content] at symbol
        cases symbol
      · exact (fills.others other is).symm.trans symbol

/-- What putting a binding on top of an environment comes to. A binding that was made is lost if there
is no room for the list cell. -/
inductive Tops (a : Arena) (var val env : Value) : Except Fault Value × Arena → Prop where
  | noRoom {b : Arena} : a.Adds b → Tops a var val env (.error .noRoom, b)
  | binding {entry id : Nat} {b : Arena} : ¬ a.Taken entry → ¬ a.Taken id → entry ≠ id → a.Adds b →
    b.cell entry = .pair var val → b.cell id = .pair (.cell entry) env →
    Tops a var val env (.ok (.cell id), b)

theorem tops_bind (linked : a.Linked ids) (var val env : Value) :
    a.Tops var val env ((bind var val env).run a) := by
  have first := makes_cons linked var val
  rw [bind, run_bind]
  generalize (cons var val).run a = outcome at first
  cases first with
  | noRoom => exact .noRoom (.refl linked)
  | @pair entry mid fresh adds content =>
    obtain ⟨ids, linked⟩ := adds.linked
    have second := makes_cons linked (.cell entry) env
    dsimp only
    generalize (cons (.cell entry) env).run mid = outcome at second
    have taken := taken_of_pair content
    cases second with
    | noRoom => exact .noRoom adds
    | @pair id b fresh' adds' content' =>
      refine .binding fresh (fun old => fresh' (adds.extends'.taken old)) ?_ (adds.trans adds')
        ((adds'.extends'.kept entry taken).trans content) content'
      -- the list cell is taken after the binding, so it is another one
      rintro rfl
      exact fresh' taken

/-! ### What a name comes to -/

/-- A name is found in the same cells, with what they held. -/
structure Keeps (a : Arena) (env : Value) (b : Arena) (env' : Value) (name : Symbol) : Prop where
  lookup : b.lookup name env' = a.lookup name env
  bindings : b.bindings name env' = a.bindings name env
  cells : ∀ id ∈ a.bindings name env, b.cell id = a.cell id

/-- Two environments in which all names come to the same. -/
def Unchanged (a : Arena) (env globe : Value) (b : Arena) (env' globe' : Value) : Prop :=
  ∀ name, a.Keeps env b env' name ∧ a.Keeps globe b globe' name

/-- What it means that a value was given to a name in an environment that has another one beside. All
other names come to the same, and so do all names if the value was given to what is none. -/
structure Sets (a : Arena) (env beside var val : Value) (b : Arena) (env' : Value) : Prop where
  value : ∀ name, a.symbol? var = some name →
    ∃ id, b.lookup name env' = .found id ∧ b.cdr (.cell id) = val
  others : ∀ name, a.symbol? var ≠ some name → a.Keeps env b env' name
  beside : ∀ name, a.Keeps beside b beside name

theorem keeps_of_scope {env' : Value} (new : List Nat) (scope : a.Scope env entries)
    (scope' : b.Scope env' (new ++ entries)) (other : ∀ id ∈ new, b.binds (.cell id) name = false)
    (names : ∀ id ∈ entries, b.binds (.cell id) name = a.binds (.cell id) name)
    (same : ∀ id ∈ entries, a.binds (.cell id) name = true → b.cell id = a.cell id) :
    a.Keeps env b env' name := by
  have bindings : b.bindings name env' = a.bindings name env := by
    have none : new.filter (fun id => b.binds (.cell id) name) = [] :=
      List.filter_eq_nil_iff.2 fun id member => by simp [other id member]
    rw [scope'.bindings, scope.bindings, List.filter_append, none, List.nil_append]
    exact List.filter_congr names
  refine ⟨?_, bindings, fun id member => ?_⟩
  · rw [scope'.lookup, scope.lookup, bindings]
  · rw [scope.bindings, List.mem_filter] at member
    exact same id member.1 member.2

namespace Scopes

theorem lookupEither (scopes : a.Scopes env globe locals globals) (name : Symbol) :
    a.lookupEither name env globe = .first (a.bindings name env ++ a.bindings name globe) := by
  rw [Arena.lookupEither, scopes.inner.lookup, scopes.outer.lookup]
  cases a.bindings name env <;> rfl

theorem adds (scopes : a.Scopes env globe locals globals) (adds : a.Adds b) :
    b.Scopes env globe locals globals :=
  scopes.kept fun id owns => adds.extends'.kept id (scopes.taken owns)

theorem not_owns (scopes : a.Scopes env globe locals globals) (adds : a.Adds b)
    (fresh : ¬ a.Taken id) : ¬ b.Owns env globe id := by
  have lists : ∀ id, a.Owns env globe id → b.cell id = a.cell id := fun id owns =>
    adds.extends'.kept id (scopes.taken owns)
  rw [(scopes.adds adds).owns_iff, scopes.inner.onList_congr fun id on => lists id (.inl (.inl on)),
    scopes.outer.onList_congr fun id on => lists id (.inl (.inr on)), ← scopes.owns_iff]
  exact fun owns => fresh (scopes.taken owns)

theorem keeps {env' : Value} (scopes : a.Scopes env globe locals globals) (new : List Nat)
    (adds : a.Adds b) (scope : b.Scope env' (new ++ locals))
    (other : ∀ id ∈ new, b.binds (.cell id) name = false) : a.Keeps env b env' name := by
  have taken : ∀ id ∈ locals, a.Taken id := fun id member =>
    scopes.taken (scopes.owns_iff.2 (.inr (List.mem_append_left _ member)))
  refine keeps_of_scope new scopes.inner scope other (fun id member => ?_) fun id member _ => ?_
  · exact adds.binds_eq (taken id member) name
  · exact adds.extends'.kept id (taken id member)

theorem unchanged (scopes : a.Scopes env globe locals globals) (adds : a.Adds b) :
    a.Unchanged env globe b env globe := fun _ =>
  ⟨scopes.keeps [] adds (scopes.adds adds).inner (by simp),
    scopes.swap.keeps [] adds (scopes.adds adds).outer (by simp)⟩

theorem unchanged_of_reaches (scopes : a.Scopes env globe locals globals)
    (same : ∀ id, a.Reaches env id ∨ a.Reaches globe id → b.cell id = a.cell id) :
    b.Scopes env globe locals globals ∧ a.Unchanged env globe b env globe := by
  have later : b.Scopes env globe locals globals := by
    refine scopes.kept fun id owns => same id ?_
    obtain (on | on) | element | element := owns
    · exact .inl on.reaches
    · exact .inr on.reaches
    · exact .inl (element.path (fun _ _ => not_false) (.here id))
    · exact .inr (element.path (fun _ _ => not_false) (.here id))
  have keeps : ∀ {list entries}, a.Scope list entries → b.Scope list entries →
      (∀ id, a.Reaches list id → b.cell id = a.cell id) → ∀ name, a.Keeps list b list name := by
    intro list entries scope scope' same name
    have reaches : ∀ id ∈ entries, a.Reaches list id := fun id member =>
      (scope.element_iff.2 member).path (fun _ _ => not_false) (.here id)
    refine keeps_of_scope [] scope scope' (by simp) (fun id member => ?_) fun id member _ =>
      same id (reaches id member)
    obtain ⟨var, val, content⟩ := scope.pair member
    have content' := (same id (reaches id member)).trans content
    -- the name itself is one step further, and reached as well
    have named : b.symbol? var = a.symbol? var := by
      cases var with
      | nil => rfl
      | cell var =>
        have path := (reaches id member).thenHead content (.here var)
        rw [symbol?, symbol?, cell?_cell, cell?_cell, same var path]
    rw [binds, binds, car_of_pair content, car_of_pair content', named]
  refine ⟨later, fun name => ⟨?_, ?_⟩⟩
  · exact keeps scopes.inner later.inner (fun id path => same id (.inl path)) name
  · exact keeps scopes.outer later.outer (fun id path => same id (.inr path)) name

theorem framed (scopes : a.Scopes env globe locals globals) (adds : a.Adds b) (fresh : ¬ a.Taken id)
    (content : b.cell id = .pair .nil env) : b.Scopes (.cell id) globe locals globals ∧
      ∀ name, a.Keeps env b (.cell id) name := by
  have old := scopes.adds adds
  have free := scopes.not_owns adds fresh
  rw [old.owns_iff, not_or] at free
  have later := old.frame free.2 content
  exact ⟨later, fun name => scopes.keeps [] adds later.inner (by simp)⟩

theorem topped {entry : Nat} (scopes : a.Scopes env globe locals globals) (adds : a.Adds b)
    (fresh : ¬ a.Taken entry) (fresh' : ¬ a.Taken id) (ne : entry ≠ id)
    (content : b.cell entry = .pair var val) (content' : b.cell id = .pair (.cell entry) env) :
    b.Scopes (.cell id) globe (entry :: locals) globals ∧
      a.Sets env globe var val b (.cell id) := by
  have old := scopes.adds adds
  have free := scopes.not_owns adds fresh'
  rw [old.owns_iff, not_or] at free
  have later := old.binding free.2 (scopes.not_owns adds fresh) ne content' content
  have named : ∀ name, b.binds (.cell entry) name = true ↔ a.symbol? var = some name := by
    intro name
    rw [binds_iff, car_of_pair content, adds.symbol?_eq]
  refine ⟨later, fun name is => ⟨entry, ?_, cdr_of_pair content⟩, fun name other => ?_, fun name =>
    (scopes.unchanged adds name).2⟩
  · rw [later.inner.lookup, later.inner.bindings, List.filter_cons, if_pos ((named name).2 is)]
    rfl
  · refine scopes.keeps [entry] adds later.inner fun new member => ?_
    obtain rfl := List.mem_singleton.1 member
    exact Bool.eq_false_iff.2 fun is => other ((named name).1 is)

end Scopes

/-! ### Assignments -/

/-- What it means that a value was written inside the first of the bindings of a name, and nothing
else happened. -/
structure Assigned (a : Arena) (env globe : Value) (name : Symbol) (id : Nat) (hidden : List Nat)
    (val : Value) (b : Arena) : Prop where
  value : b.lookupEither name env globe = .found id ∧ b.cdr (.cell id) = val
  further : b.bindings name env ++ b.bindings name globe = id :: hidden ∧
    ∀ other ∈ hidden, b.cell other = a.cell other
  others : ∀ other, other ≠ name → a.Keeps env b env other ∧ a.Keeps globe b globe other
  /-- From every point further out each name is found in the same cell. -/
  beneath : ∀ list, a.Suffix list env ∨ a.Suffix list globe →
    ∀ other, b.lookup other list = a.lookup other list
  lists : ∀ other, a.OnList env other ∨ a.OnList globe other → b.cell other = a.cell other
  names : ∀ v, b.car v = a.car v ∧ b.symbol? v = a.symbol? v

theorem binds_setCdr (a : Arena) (id : Nat) (val v : Value) (name : Symbol) :
    (a.setCdr id val).binds v name = a.binds v name := by
  rw [binds, binds, car_setCdr, symbol?_setCdr]

theorem lookup_setCdr {list : Value} (unlisted : ¬ a.OnList list id) (val : Value) (name : Symbol) :
    (a.setCdr id val).lookup name list = a.lookup name list := by
  rw [lookup, lookup, capacity_setCdr]
  generalize a.capacity + 1 = n
  induction n generalizing list with
  | zero => rfl
  | succ n ih =>
    rw [lookupWithin, lookupWithin]
    cases list with
    | nil => rfl
    | cell first =>
      rw [cell?_cell, cell?_cell, (Along.here first).setCdr unlisted]
      cases content : a.cell first with
      | pair head tail =>
        have unlisted' : ¬ a.OnList tail id := fun on => unlisted (.next content on)
        cases head with
        | nil => exact ih unlisted'
        | cell entry => simp only [binds_setCdr, ih unlisted']
      | symbol name => rfl
      | free next => rfl

theorem findBinding_iff : a.findBinding var env globe = some (.ok id) ↔
    ∃ name, a.symbol? var = some name ∧ a.lookupEither name env globe = .found id := by
  unfold findBinding
  cases a.symbol? var with
  | none => cases a.render var <;> simp
  | some name =>
    cases found : a.lookupEither name env globe with
    | found => simp [found]
    | absent => cases a.render var <;> simp [found]
    | endless => simp [found]

namespace Scopes

theorem mem_of_bindings (scopes : a.Scopes env globe locals globals)
    (member : id ∈ a.bindings name env ++ a.bindings name globe) :
    id ∈ locals ++ globals ∧ a.binds (.cell id) name = true := by
  rw [scopes.inner.bindings, scopes.outer.bindings, ← List.filter_append, List.mem_filter] at member
  exact member

theorem keeps_setCdr (scopes : a.Scopes env globe locals globals) (member : id ∈ locals ++ globals)
    (other : id ∈ locals → a.binds (.cell id) name = false) (val : Value) :
    a.Keeps env (a.setCdr id val) env name := by
  refine keeps_of_scope [] scopes.inner (scopes.setCdr member val).inner (by simp) ?_ ?_
  · exact fun entry _ => binds_setCdr ..
  · intro entry local' named
    refine cell_setCdr_of_ne ?_
    rintro rfl
    rw [other local'] at named
    cases named

theorem assigned {hidden : List Nat} (scopes : a.Scopes env globe locals globals)
    (found : a.bindings name env ++ a.bindings name globe = id :: hidden) (val : Value) :
    a.Assigned env globe name id hidden val (a.setCdr id val) := by
  have first : id ∈ a.bindings name env ++ a.bindings name globe := found ▸ List.mem_cons_self
  obtain ⟨member, named⟩ := scopes.mem_of_bindings first
  have later := scopes.setCdr member val
  obtain ⟨var, old, content⟩ := scopes.pair member
  have same : (a.setCdr id val).bindings name env ++ (a.setCdr id val).bindings name globe =
      id :: hidden := by
    rw [later.inner.bindings, later.outer.bindings]
    simp only [binds_setCdr]
    rw [← scopes.inner.bindings, ← scopes.outer.bindings, found]
  have once : id ∉ hidden := by
    have nodup : (id :: hidden).Nodup := by
      rw [← found, scopes.inner.bindings, scopes.outer.bindings, ← List.filter_append]
      exact scopes.nodup.filter _
    exact (List.nodup_cons.1 nodup).1
  obtain ⟨here, there⟩ := scopes.apart id member
  refine ⟨⟨?_, cdr_of_pair (cell_setCdr_of_pair content)⟩, ⟨same, ?_⟩, ?_, ?_, ?_, ?_⟩
  · rw [later.lookupEither, same]
    rfl
  · intro other further
    refine cell_setCdr_of_ne ?_
    rintro rfl
    exact once further
  · intro other ne
    have unnamed : a.binds (.cell id) other = false := by
      refine Bool.eq_false_iff.2 fun is => ne ?_
      exact Option.some.inj ((binds_iff.1 is).symm.trans (binds_iff.1 named))
    exact ⟨scopes.keeps_setCdr member (fun _ => unnamed) val,
      scopes.swap.keeps_setCdr (by simpa [or_comm] using member) (fun _ => unnamed) val⟩
  · intro list suffix other
    refine lookup_setCdr (fun on => ?_) val other
    exact suffix.elim (fun suffix => here (on.of_suffix suffix)) fun suffix =>
      there (on.of_suffix suffix)
  · intro other on
    refine cell_setCdr_of_ne ?_
    rintro rfl
    exact on.elim here there
  · exact fun v => ⟨car_setCdr .., symbol?_setCdr ..⟩

end Scopes

/-! ### What programs do -/

theorem Linked.setCdr (linked : a.Linked ids) (id : Nat) (val : Value) :
    (a.setCdr id val).Linked ids :=
  linked.congr (capacity_setCdr ..) rfl rfl fun _ _ => cell_setCdr_eq_free_iff.2

namespace Scopes

variable {result : Except Fault Value}

theorem pushFrame (scopes : a.Scopes env globe locals globals) (linked : a.Linked ids)
    (ran : (pushFrame env).run a = (result, b)) :
    (∃ ids, b.Linked ids) ∧ b.Scopes (result.toOption.getD env) globe locals globals ∧
      a.Unchanged env globe b (result.toOption.getD env) globe := by
  have makes := makes_cons linked .nil env
  rw [Arena.pushFrame] at ran
  rw [ran] at makes
  cases makes with
  | noRoom => exact ⟨⟨ids, linked⟩, scopes, scopes.unchanged (.refl linked)⟩
  | pair fresh adds content =>
    obtain ⟨later, keeps⟩ := scopes.framed adds fresh content
    exact ⟨adds.linked, later, fun name => ⟨keeps name, (scopes.unchanged adds name).2⟩⟩

theorem bind (scopes : a.Scopes env globe locals globals) (linked : a.Linked ids)
    (ran : (bind var val env).run a = (result, b)) : (∃ ids, b.Linked ids) ∧
      match result with
      | .error _ => b.Scopes env globe locals globals ∧ a.Unchanged env globe b env globe
      | .ok v => (∃ locals, b.Scopes v globe locals globals) ∧ a.Sets env globe var val b v := by
  have tops := tops_bind linked var val env
  rw [ran] at tops
  cases tops with
  | noRoom adds => exact ⟨adds.linked, scopes.adds adds, scopes.unchanged adds⟩
  | binding fresh fresh' ne adds content content' =>
    obtain ⟨later, sets⟩ := scopes.topped adds fresh fresh' ne content content'
    exact ⟨adds.linked, ⟨_, later⟩, sets⟩

theorem sets_setCdr (scopes : a.Scopes env globe locals globals) (is : a.symbol? var = some name)
    (found : a.lookup name globe = .found id) (val : Value) :
    (a.setCdr id val).Scopes env globe locals globals ∧
      a.Sets globe env var val (a.setCdr id val) globe := by
  have global : id ∈ globals := scopes.outer.element_iff.1 (element_of_lookup found)
  have member : id ∈ locals ++ globals := List.mem_append_right _ global
  have later := scopes.setCdr member val
  obtain ⟨_, _, content⟩ := scopes.pair member
  have named : a.binds (.cell id) name = true := by
    rw [scopes.outer.lookup] at found
    obtain ⟨rest, first⟩ := Search.eq_cons_of_first found
    exact (scopes.mem_of_bindings (by simp [first])).2
  refine ⟨later, fun other is' => ⟨id, ?_, cdr_of_pair (cell_setCdr_of_pair content)⟩,
    fun other ne => ?_, fun other => ?_⟩
  · obtain rfl := Option.some.inj (is.symm.trans is')
    rw [later.outer.lookup, later.outer.bindings]
    simp only [binds_setCdr]
    rw [← scopes.outer.bindings, ← scopes.outer.lookup, found]
  · refine scopes.swap.keeps_setCdr (by simp [global]) (fun _ => ?_) val
    refine Bool.eq_false_iff.2 fun named' => ne ?_
    rw [is, ← binds_iff.1 named, binds_iff.1 named']
  · refine scopes.keeps_setCdr member (fun local' => ?_) val
    exact (List.disjoint_of_nodup_append scopes.nodup local' global).elim

theorem define (scopes : a.Scopes env globe locals globals) (linked : a.Linked ids)
    (ran : define var val globe a = some (result, b)) : (∃ ids, b.Linked ids) ∧
      match result with
      | .error _ => b.Scopes env globe locals globals ∧ a.Unchanged env globe b env globe
      | .ok v => (∃ globals, b.Scopes env v locals globals) ∧ (a.symbol? var).isSome ∧
        a.Sets globe env var val b v := by
  unfold Arena.define at ran
  split at ran
  · obtain ⟨form, -, same⟩ := Option.map_eq_some_iff.1 ran
    cases same
    exact ⟨⟨ids, linked⟩, scopes, scopes.unchanged (.refl linked)⟩
  · rename_i name is
    split at ran
    · rename_i id found
      cases ran
      obtain ⟨later, sets⟩ := scopes.sets_setCdr is found val
      exact ⟨⟨ids, linked.setCdr id val⟩, ⟨globals, later⟩, by rw [is]; rfl, sets⟩
    · obtain ⟨linked, outcome⟩ := scopes.swap.bind linked (Option.some.inj ran)
      refine ⟨linked, ?_⟩
      rcases result with fault | v
      · exact ⟨outcome.1.swap, fun name => (outcome.2 name).symm⟩
      · obtain ⟨⟨globals, later⟩, sets⟩ := outcome
        exact ⟨⟨globals, later.swap⟩, by rw [is]; rfl, sets⟩
    · cases ran

theorem define_isSome (scopes : a.Scopes env globe locals globals) (is : a.symbol? var = some name)
    (val : Value) : (Arena.define var val globe a).isSome := by
  unfold Arena.define
  simp only [is, scopes.outer.lookup]
  cases a.bindings name globe <;> rfl

end Scopes

/-- A local environment that was built from the empty one by frames and bindings, and a global one by
definitions. Between the steps assignments are made, and anything happens to the cells that are in
neither. -/
inductive Built : Arena → Value → Value → Prop where
  | empty {a : Arena} {ids : List Nat} : a.Linked ids → Built a .nil .nil
  | frame {a b : Arena} {env globe v : Value} : Built a env globe →
    (pushFrame env).run a = (.ok v, b) → Built b v globe
  | bind {a b : Arena} {env globe var val v : Value} : Built a env globe →
    (bind var val env).run a = (.ok v, b) → Built b v globe
  | define {a b : Arena} {env globe var val v : Value} : Built a env globe →
    define var val globe a = some (.ok v, b) → Built b env v
  | assign {a : Arena} {env globe var : Value} {id : Nat} (val : Value) : Built a env globe →
    a.findBinding var env globe = some (.ok id) → Built (a.setCdr id val) env globe
  | other {a b : Arena} {env globe : Value} {ids : List Nat} : Built a env globe → b.Linked ids →
    (∀ id, a.Owns env globe id → b.cell id = a.cell id) → Built b env globe

theorem Built.scopes (built : Built a env globe) :
    (∃ ids, a.Linked ids) ∧ ∃ locals globals, a.Scopes env globe locals globals := by
  induction built with
  | empty linked => exact ⟨⟨_, linked⟩, [], [], .nil, .nil, by simp, by simp⟩
  | frame _ ran ih =>
    obtain ⟨⟨ids, linked⟩, locals, globals, scopes⟩ := ih
    obtain ⟨linked, later, -⟩ := scopes.pushFrame linked ran
    exact ⟨linked, locals, globals, later⟩
  | bind _ ran ih =>
    obtain ⟨⟨ids, linked⟩, locals, globals, scopes⟩ := ih
    obtain ⟨linked, ⟨locals, later⟩, -⟩ := scopes.bind linked ran
    exact ⟨linked, locals, globals, later⟩
  | define _ ran ih =>
    obtain ⟨⟨ids, linked⟩, locals, globals, scopes⟩ := ih
    obtain ⟨linked, ⟨globals, later⟩, -⟩ := scopes.define linked ran
    exact ⟨linked, locals, globals, later⟩
  | assign val _ found ih =>
    obtain ⟨⟨ids, linked⟩, locals, globals, scopes⟩ := ih
    have element := element_of_findBinding found
    rw [scopes.inner.element_iff, scopes.outer.element_iff, ← List.mem_append] at element
    exact ⟨⟨ids, linked.setCdr _ val⟩, locals, globals, scopes.setCdr element val⟩
  | other _ linked same ih =>
    obtain ⟨-, locals, globals, scopes⟩ := ih
    exact ⟨⟨_, linked⟩, locals, globals, scopes.kept same⟩

end ArenaLisp.Arena
