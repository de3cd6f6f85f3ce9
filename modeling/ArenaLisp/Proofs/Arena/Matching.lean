import ArenaLisp.Environment
import ArenaLisp.Proofs.Arena.Storing

/-!
# Matching arenas

Two arenas match along a relation of their cells if it is one-to-one and related cells hold the same
up to the relation. Cells that are not related do not matter: they are garbage, or free, in one arena
or in both. No question about related values tells matching arenas apart.

The first of two arenas may be on a ration. Then the second one has as many free cells at least.
-/

namespace ArenaLisp

/-- How many cells the first of two computations may take from one step to the next, if that is
limited. Most of what is said of two computations is the same for any ration, and takes the ration
from the context. -/
class Ration where
  cells : Option Nat

namespace Ration

/-- The first of two computations may take any number of cells. -/
@[reducible] def unlimited : Ration := ⟨none⟩

/-- The first of two computations may take a number of cells from one step to the next. -/
@[reducible] def limited (cells : Nat) : Ration := ⟨some cells⟩

end Ration

end ArenaLisp

namespace ArenaLisp.Arena

/-- Values that are both empty, or related cells. -/
inductive Same (R : Nat → Nat → Prop) : Value → Value → Prop where
  | nil : Same R .nil .nil
  | cell {id other : Nat} : R id other → Same R (.cell id) (.cell other)

/-- Contents that are the same up to a relation of cells. Nothing is the same as a free cell. -/
inductive SameCell (R : Nat → Nat → Prop) : Cell → Cell → Prop where
  | pair {head tail head' tail' : Value} : Same R head head' → Same R tail tail' →
    SameCell R (.pair head tail) (.pair head' tail')
  | symbol (name : Symbol) : SameCell R (.symbol name) (.symbol name)

structure Match [Ration] (R : Nat → Nat → Prop) (a b : Arena) : Prop where
  size : b.capacity = a.capacity
  left : ∀ {id other other'}, R id other → R id other' → other = other'
  right : ∀ {id id' other}, R id other → R id' other → id = id'
  cells : ∀ {id other}, R id other → SameCell R (a.cell id) (b.cell other)
  room : ∀ t ∈ Ration.cells, a.freeCount ≤ b.freeCount

variable {R S : Nat → Nat → Prop} {a b c d : Arena} {v w v' w' : Value} {id other : Nat}

theorem Same.mono (h : Same R v w) (sub : ∀ id other, v = .cell id → R id other → S id other) :
    Same S v w := by
  cases h with
  | nil => exact .nil
  | cell related => exact .cell (sub _ _ rfl related)

theorem SameCell.mono {x y : Cell} (h : SameCell R x y)
    (sub : ∀ id other, R id other → S id other) : SameCell S x y := by
  cases h with
  | pair head tail => exact .pair (head.mono fun _ _ _ => sub _ _) (tail.mono fun _ _ _ => sub _ _)
  | symbol name => exact .symbol name

theorem Same.flip (h : Same R v w) : Same (fun id other => R other id) w v := by
  cases h with
  | nil => exact .nil
  | cell related => exact .cell related

theorem SameCell.flip {x y : Cell} (h : SameCell R x y) :
    SameCell (fun id other => R other id) y x := by
  cases h with
  | pair head tail => exact .pair head.flip tail.flip
  | symbol name => exact .symbol name

theorem Same.nil_iff (h : Same R v w) : v = .nil ↔ w = .nil := by
  cases h <;> simp

namespace Match

variable [Ration] (h : Match R a b)
include h

theorem taken (related : R id other) : a.Taken id ∧ b.Taken other := by
  have same := h.cells related
  constructor
  · intro next free
    rw [free] at same
    generalize b.cell other = y at same
    cases same
  · intro next free
    rw [free] at same
    generalize a.cell id = x at same
    cases same

theorem reaches (same : Same R v w) (path : a.Reaches v id) :
    ∃ other, R id other ∧ b.Reaches w other := by
  unfold Reaches at path
  induction path generalizing w with
  | here id =>
    rcases same with _ | related
    exact ⟨_, related, .here _⟩
  | head pair _ ih =>
    rcases same with _ | related
    have contents := h.cells related
    rw [pair] at contents
    generalize content : b.cell _ = y at contents
    rcases contents with ⟨sameHead, -⟩ | _
    obtain ⟨target, related', path⟩ := ih sameHead
    exact ⟨target, related', .head content path⟩
  | tail pair _ _ ih =>
    rcases same with _ | related
    have contents := h.cells related
    rw [pair] at contents
    generalize content : b.cell _ = y at contents
    rcases contents with ⟨-, sameTail⟩ | _
    obtain ⟨target, related', path⟩ := ih sameTail
    exact ⟨target, related', .tail content not_false path⟩

/-! ### Questions -/

section

variable (same : Same R v w)
include same

theorem cell?_cases : (v = .nil ∧ w = .nil) ∨
    (∃ name, a.cell? v = some (.symbol name) ∧ b.cell? w = some (.symbol name)) ∨
    ∃ head tail head' tail', a.cell? v = some (.pair head tail) ∧
      b.cell? w = some (.pair head' tail') ∧ Same R head head' ∧ Same R tail tail' := by
  rcases same with _ | related
  · exact .inl ⟨rfl, rfl⟩
  · have contents := h.cells related
    simp only [cell?_cell]
    generalize a.cell _ = x at contents
    generalize b.cell _ = y at contents
    rcases contents with ⟨head, tail⟩ | name
    · exact .inr (.inr ⟨_, _, _, _, rfl, rfl, head, tail⟩)
    · exact .inr (.inl ⟨_, rfl, rfl⟩)

theorem isPair_eq : b.isPair w = a.isPair v := by
  rcases h.cell?_cases same with ⟨rfl, rfl⟩ | ⟨name, l, r⟩ | ⟨_, _, _, _, l, r, -⟩
  · rfl
  · simp [isPair, l, r]
  · simp [isPair, l, r]

theorem symbol?_eq : b.symbol? w = a.symbol? v := by
  rcases h.cell?_cases same with ⟨rfl, rfl⟩ | ⟨name, l, r⟩ | ⟨_, _, _, _, l, r, -⟩
  · rfl
  · simp [symbol?, l, r]
  · simp [symbol?, l, r]

theorem isSymbol_eq : b.isSymbol w = a.isSymbol v := by
  rw [isSymbol, isSymbol, h.symbol?_eq same]

theorem isNamed_eq (name : Symbol) : b.isNamed w name = a.isNamed v name := by
  rw [isNamed, isNamed, h.symbol?_eq same]

theorem isAtom_eq : b.isAtom w = a.isAtom v := by
  rw [isAtom, isAtom, h.isPair_eq same]

theorem isList_eq : b.isList w = a.isList v := by
  rw [isList, isList, h.isPair_eq same]
  cases same <;> rfl

theorem same_car : Same R (a.car v) (b.car w) := by
  rcases h.cell?_cases same with ⟨rfl, rfl⟩ | ⟨name, l, r⟩ | ⟨_, _, _, _, l, r, head, -⟩
  · exact .nil
  · simpa [car, l, r] using .nil
  · simpa [car, l, r] using head

theorem same_cdr : Same R (a.cdr v) (b.cdr w) := by
  rcases h.cell?_cases same with ⟨rfl, rfl⟩ | ⟨name, l, r⟩ | ⟨_, _, _, _, l, r, -, tail⟩
  · exact .nil
  · simpa [cdr, l, r] using .nil
  · simpa [cdr, l, r] using tail

theorem unfoldWithin_eq (n : Nat) : b.unfoldWithin n w = a.unfoldWithin n v := by
  induction n generalizing v w with
  | zero => rfl
  | succ n ih =>
    unfold unfoldWithin
    rcases h.cell?_cases same with ⟨rfl, rfl⟩ | ⟨name, l, r⟩ | ⟨_, _, _, _, l, r, head, tail⟩
    · rfl
    · simp [l, r]
    · simp only [l, r, ih head, ih tail]

theorem print_eq : b.print w = a.print v := by
  rw [print, print, unfold, unfold, h.size, h.unfoldWithin_eq same]

theorem render_eq : b.render w = a.render v := by
  have printed := h.print_eq same
  cases same with
  | nil => rfl
  | cell => rw [render, render, printed]

end

theorem second_same (same : Same R v w) : Same R (a.second v) (b.second w) :=
  h.same_car (h.same_cdr same)

theorem third_same (same : Same R v w) : Same R (a.third v) (b.third w) :=
  h.same_car (h.same_cdr (h.same_cdr same))

theorem eq_iff (same : Same R v w) (same' : Same R v' w') : v = v' ↔ w = w' := by
  cases same with
  | nil => cases same' <;> simp
  | cell related =>
    cases same' with
    | nil => simp
    | cell related' =>
      simp only [Value.cell.injEq]
      constructor
      · intro is
        subst is
        exact h.left related related'
      · intro is
        subst is
        exact h.right related related'

theorem binds_eq (same : Same R v w) (name : Symbol) : b.binds w name = a.binds v name := by
  rw [binds, binds, h.symbol?_eq (h.same_car same)]

/-! ### Environments -/

end Match

/-- Outcomes of looking up a name that are the same. -/
inductive SameSearch (R : Nat → Nat → Prop) : Search → Search → Prop where
  | found {id other : Nat} : R id other → SameSearch R (.found id) (.found other)
  | absent : SameSearch R .absent .absent
  | endless : SameSearch R .endless .endless

namespace Match

variable [Ration] (h : Match R a b) {env env' globe globe' : Value}
include h

theorem lookupWithin_same (name : Symbol) (n : Nat) (same : Same R env env') :
    SameSearch R (a.lookupWithin name n env) (b.lookupWithin name n env') := by
  induction n generalizing env env' with
  | zero => exact .endless
  | succ n ih =>
    unfold lookupWithin
    rcases h.cell?_cases same with ⟨rfl, rfl⟩ | ⟨_, l, r⟩ | ⟨_, _, _, _, l, r, head, tail⟩
    · exact .absent
    · simpa [l, r] using .absent
    · cases head with
      | nil => simpa [l, r] using ih tail
      | cell related =>
        simp only [l, r, h.binds_eq (.cell related)]
        split
        · exact .found related
        · exact ih tail

theorem lookup_same (name : Symbol) (same : Same R env env') :
    SameSearch R (a.lookup name env) (b.lookup name env') := by
  rw [lookup, lookup, h.size]
  exact h.lookupWithin_same name _ same

theorem lookupEither_same (name : Symbol) (same : Same R env env')
    (sameGlobe : Same R globe globe') :
    SameSearch R (a.lookupEither name env globe) (b.lookupEither name env' globe') := by
  have local' := h.lookup_same name same
  have global := h.lookup_same name sameGlobe
  unfold lookupEither
  generalize a.lookup name env = x at local'
  generalize b.lookup name env' = y at local'
  cases local' with
  | found related => exact .found related
  | absent => exact global
  | endless => exact .endless

end Match

/-! ### Changes -/

/-- A relation with one more pair of cells. -/
def Adding (R : Nat → Nat → Prop) (id other : Nat) : Nat → Nat → Prop :=
  fun x y => R x y ∨ x = id ∧ y = other

section

variable [Ration]

theorem Sound.match_self (sound : a.Sound) : Match (fun id other => id = other ∧ a.Taken id) a a where
  size := rfl
  left related related' := related.1.symm.trans related'.1
  right related related' := related.1.trans related'.1.symm
  cells := by
    intro id other h
    obtain ⟨is, taken⟩ := h
    subst is
    have same : ∀ v, a.Live v → Same (fun id other => id = other ∧ a.Taken id) v v := by
      intro v live
      cases v with
      | nil => exact .nil
      | cell id => exact .cell ⟨rfl, live id rfl⟩
    cases content : a.cell id with
    | pair head tail =>
      obtain ⟨first, second⟩ := sound.closed id head tail content
      exact .pair (same head first) (same tail second)
    | symbol name => exact .symbol name
    | free next => exact absurd content (taken next)
  room _ _ := le_refl _

theorem Match.restrict (h : Match R a b) {P : Nat → Prop}
    (closed : ∀ id head tail, P id → a.cell id = .pair head tail →
      (∀ x, head = .cell x → P x) ∧ ∀ x, tail = .cell x → P x) :
    Match (fun id other => R id other ∧ P id) a b where
  size := h.size
  left related related' := h.left related.1 related'.1
  right related related' := h.right related.1 related'.1
  cells := by
    rintro id other ⟨related, kept⟩
    have contents := h.cells related
    generalize content : a.cell id = x at contents
    generalize b.cell other = y at contents
    rcases contents with ⟨head, tail⟩ | name
    · obtain ⟨first, second⟩ := closed id _ _ kept content
      exact .pair (head.mono fun x _ is related => ⟨related, first x is⟩)
        (tail.mono fun x _ is related => ⟨related, second x is⟩)
    · exact .symbol _
  room := h.room

theorem Match.congr (h : Match R a b) (size : c.capacity = a.capacity)
    (size' : d.capacity = b.capacity) (left : ∀ id other, R id other → c.cell id = a.cell id)
    (right : ∀ id other, R id other → d.cell other = b.cell other)
    (room : ∀ t ∈ Ration.cells, c.freeCount ≤ d.freeCount) : Match R c d where
  size := by rw [size', h.size, size]
  left := h.left
  right := h.right
  cells related := by
    rw [left _ _ related, right _ _ related]
    exact h.cells related
  room := room

theorem Match.setCdr (h : Match R a b) (related : R id other) (same : Same R v w) :
    Match R (a.setCdr id v) (b.setCdr other w) where
  size := by rw [capacity_setCdr, capacity_setCdr, h.size]
  left := h.left
  right := h.right
  cells := by
    intro x y related'
    have contents := h.cells related'
    by_cases is : x = id
    · subst is
      cases h.left related related'
      rw [cell_setCdr, cell_setCdr, if_pos rfl, if_pos rfl]
      generalize a.cell x = content at contents
      generalize b.cell other = content' at contents
      rcases contents with ⟨head, -⟩ | name
      · exact .pair head same
      · exact .symbol _
    · have is' : y ≠ other := by
        rintro rfl
        exact is (h.right related' related)
      rwa [cell_setCdr_of_ne is, cell_setCdr_of_ne is']
  room := h.room

theorem Match.took {content content' : Cell} (h : Match R a b) (took : a.TookCell content id c)
    (took' : b.TookCell content' other d) (same : SameCell R content content') :
    Match (Adding R id other) c d where
  size := by rw [took.size, took'.size, h.size]
  left := by
    intro x y y' related related'
    rcases related with related | ⟨at', is⟩
    · rcases related' with related' | ⟨rfl, -⟩
      · exact h.left related related'
      · exact absurd (h.taken related).1 took.fresh
    · rcases related' with related' | ⟨-, is'⟩
      · exact absurd (h.taken related').1 (at' ▸ took.fresh)
      · rw [is, is']
  right := by
    intro x x' y related related'
    rcases related with related | ⟨is, at'⟩
    · rcases related' with related' | ⟨-, rfl⟩
      · exact h.right related related'
      · exact absurd (h.taken related).2 took'.fresh
    · rcases related' with related' | ⟨is', -⟩
      · exact absurd (h.taken related').2 (at' ▸ took'.fresh)
      · rw [is, is']
  cells := by
    rintro x y (related | ⟨rfl, rfl⟩)
    · rw [took.extends.kept x (h.taken related).1, took'.extends.kept y (h.taken related).2]
      exact (h.cells related).mono fun _ _ => .inl
    · rw [took.content, took'.content]
      exact same.mono fun _ _ => .inl
  room t rationed := by
    have room := h.room t rationed
    have count := took.count
    have count' := took'.count
    omega

/-- Arenas match the other way round, but for the room that there is in them. -/
theorem Match.flip (h : Match R a b) :
    @Match Ration.unlimited (fun id other => R other id) b a :=
  @Match.mk Ration.unlimited _ _ _ h.size.symm h.right h.left (fun related => (h.cells related).flip)
    fun _ rationed => nomatch rationed

end

end ArenaLisp.Arena
