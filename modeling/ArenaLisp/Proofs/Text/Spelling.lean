import Mathlib.Logic.Relation
import ArenaLisp.Environment
import ArenaLisp.Proofs.Text.RoundTrip

/-!
# Symbols that are read can be read back

An arena is legible if every symbol in it can be read back from its name. It stays so if no cell is
taken for any other symbol (`Spelled.legible`). The reader takes cells for the words that it reads and
for `QUOTE`, whatever it reads and whether it comes to an end or not (`Console.spelled_read`).
-/

namespace ArenaLisp

namespace Arena

variable {a b c : Arena} {v tail : Value} {t : Sexp} {id : Nat}

/-- An arena in which every symbol can be read back. -/
def Legible (a : Arena) : Prop :=
  ∀ id name, a.cell id = .symbol name → name.Legible

theorem Legible.tree (legible : a.Legible) (unfolds : a.Unfolds v t) : t.Legible := by
  induction unfolds with
  | nil => trivial
  | symbol content => exact legible _ _ content
  | pair _ _ _ head tail => exact ⟨head, tail⟩

/-- A step that takes a cell for no symbol but one that can be read back. -/
inductive Step (a : Arena) : Arena → Prop where
  | take {content : Cell} {id : Nat} {b : Arena} :
    (∀ name, content = .symbol name → name.Legible) → (take content).run a = (.ok id, b) → Step a b
  | setCdr {id : Nat} {tail : Value} : Step a (a.setCdr id tail)
  | collect {roots : List Value} : Step a (a.collect roots)

/-- A later state of an arena, with cells taken for no symbols but those that can be read back. -/
def Spelled : Arena → Arena → Prop :=
  Relation.ReflTransGen Step

theorem Spelled.refl : a.Spelled a :=
  Relation.ReflTransGen.refl

theorem Spelled.trans (first : a.Spelled b) (second : b.Spelled c) : a.Spelled c :=
  Relation.ReflTransGen.trans first second

theorem Spelled.setCdr : a.Spelled (a.setCdr id tail) :=
  .single .setCdr

theorem Spelled.collect (roots : List Value) : a.Spelled (a.collect roots) :=
  .single .collect

theorem cell_take (a : Arena) (content : Cell) (id : Nat) :
    ((take content).run a).2.cell id = content ∨ ((take content).run a).2.cell id = a.cell id := by
  rcases a with ⟨slots, _ | first, count⟩
  · exact .inr rfl
  · show cell ⟨slots.setIfInBounds first ⟨content, false⟩, _, count - 1⟩ id = content ∨ _ = _
    by_cases same : id = first
    · subst same
      by_cases inside : id < slots.size
      · exact .inl (by simp [cell, inside])
      · exact .inr (by simp [cell, take, ExceptT.run, inside])
    · exact .inr (by simp [cell, take, ExceptT.run, Ne.symm same])

theorem Step.legible (step : a.Step b) (legible : a.Legible) : b.Legible := by
  intro id name content
  cases step with
  | @take taken _ _ named ran =>
    have cell := cell_take a taken id
    rw [ran] at cell
    rcases cell with new | old
    · exact named name (new.symm.trans content)
    · exact legible id name (old.symm.trans content)
  | setCdr =>
    have symbol := symbol?_eq_some_iff.2 ⟨id, rfl, content⟩
    rw [symbol?_setCdr] at symbol
    obtain ⟨_, ⟨⟩, same⟩ := symbol?_eq_some_iff.1 symbol
    exact legible id name same
  -- what a collection leaves are cells from before
  | collect =>
    have marked := marked_of_taken_sweep (taken_of_symbol content)
    rw [Arena.collect, cell_sweep marked, cell_foldl_mark] at content
    exact legible id name content

theorem Spelled.legible (spelled : a.Spelled b) (legible : a.Legible) : b.Legible := by
  induction spelled with
  | refl => exact legible
  | tail _ step ih => exact step.legible ih

theorem legible_new (size : Nat) : (new size).Legible :=
  fun id _ content => absurd (taken_of_symbol content) (not_taken_new size id)

end Arena

open Arena

/-- A computation that takes cells for no symbols but those that can be read back, whatever it comes
to. -/
def Storing.Spells {α : Type} (f : Storing α) : Prop :=
  ∀ a : Arena, Storing.Ensures f a (fun _ b => a.Spelled b) fun _ b => a.Spelled b

namespace Storing.Spells

variable {α β : Type} {f : Storing α}

theorem pure (v : α) : Spells (pure v : Storing α) :=
  fun _ => Spelled.refl

theorem throw (fault : Fault) : Spells (throw fault : Storing α) :=
  fun _ => Spelled.refl

theorem get : Spells (get : Storing Arena) :=
  fun _ => Spelled.refl

theorem bind {g : α → Storing β} (first : Spells f) (next : ∀ v, Spells (g v)) :
    Spells (f >>= g) := by
  intro a
  refine ensures_bind.2 ((first a).mono (fun v b spelled => ?_) fun _ _ spelled => spelled)
  exact (next v b).mono (fun _ _ => spelled.trans) fun _ _ => spelled.trans

theorem map {g : α → β} (spells : Spells f) : Spells (g <$> f) :=
  fun a => ensures_map.2 (spells a)

theorem outcome (spells : Spells f) (a : Arena) : a.Spelled (f.run a).2 := by
  have ensures := spells a
  unfold Ensures at ensures
  rcases ran : f.run a with ⟨_ | _, _⟩
  · rwa [ran] at ensures
  · rwa [ran] at ensures

end Storing.Spells

namespace Arena

open Storing Spells

theorem spells_take {content : Cell} (named : ∀ name, content = .symbol name → name.Legible) :
    Spells (take content) := by
  intro a
  unfold Ensures
  rcases ran : (take content).run a with ⟨fault | id, b⟩
  · rcases a with ⟨slots, _ | first, count⟩
    · cases ran
      exact .refl
    · cases ran
  · exact .single (.take named ran)

theorem spells_pair (head tail : Value) : Spells (take (.pair head tail)) :=
  spells_take (by simp)

theorem spells_cons (head tail : Value) : Spells (cons head tail) :=
  .map (spells_pair head tail)

theorem spells_symbol {name : Symbol} (legible : name.Legible) : Spells (symbol name) :=
  .map (spells_take (by rintro _ ⟨⟩; exact legible))

theorem spells_store {t : Sexp} (legible : t.Legible) : Spells (store t) := by
  induction t with
  | nil => exact .pure _
  | symbol name => exact spells_symbol legible
  | pair head tail ihHead ihTail =>
    exact .bind (ihHead legible.1) fun _ => .bind (ihTail legible.2) fun _ => spells_cons _ _

theorem spells_bind (var val env : Value) : Spells (bind var val env) :=
  .bind (spells_cons var val) fun _ => spells_cons _ _

theorem spells_bindAll (params args env : Value) : Spells (bindAll params args env) := by
  have rounds : ∀ n params args env, Spells (bindWithin n params args env) := by
    intro n
    induction n with
    | zero => exact fun _ _ _ => .throw _
    | succ n ih =>
      intro params args env
      refine .bind .get fun a => ?_
      split
      · exact .bind (spells_bind _ _ _) fun _ => .bind .get fun _ => ih _ _ _
      · exact .pure _
  exact .bind .get fun a => rounds _ _ _ _

end Arena

namespace Reading

open Storing Spells

theorem spells_makeList (elements : List Value) (tail : Value) :
    Spells (makeList elements tail) := by
  induction elements generalizing tail with
  | nil => exact .pure _
  | cons element elements ih => exact .bind (spells_cons _ _) fun _ => ih _

theorem spells_makeQuoted (v : Value) : Spells (makeQuoted v) :=
  .bind (spells_symbol (Symbol.legible_ofBuiltin (by simp))) fun _ =>
    .bind (spells_cons _ _) fun _ => spells_cons _ _

theorem spells_makeWord (letters : List Byte) : Spells (makeWord letters) := by
  unfold makeWord
  split
  · exact .throw _
  · rename_i name named
    split
    · exact .pure _
    · rename_i other
      exact spells_symbol ⟨other, _, named⟩

theorem spells_deliver (v : Value) (frames : List Frame) : Spells (deliver v frames) := by
  induction frames generalizing v with
  | nil => exact .pure _
  | cons frame frames ih =>
    cases frame with
    | quoted => exact .bind (spells_makeQuoted v) fun _ => ih _
    | list => exact .pure _
    | dotted => exact .pure _
    | remainder elements tail =>
      unfold deliver
      split
      · exact .bind (spells_makeList _ _) fun _ => ih _
      · exact .throw _

theorem spells_step (token : Token) (frames : List Frame) : Spells (step token frames) := by
  unfold step
  split
  · exact .pure _
  · exact .pure _
  · exact .bind (spells_makeWord _) fun _ => spells_deliver _ _
  · exact .bind (spells_makeList _ _) fun _ => spells_deliver _ _
  · exact .throw _
  · exact .pure _
  · exact .pure _

theorem spelled_run (n : Nat) (frames : List Frame) (c : Console) (a : Arena) :
    a.Spelled (run n frames c a).2.2 := by
  induction n generalizing a frames c with
  | zero => exact .refl
  | succ n ih =>
    unfold run
    rcases c.nextToken with ⟨_ | token, c⟩
    · exact .refl
    · have after := (spells_step token frames).outcome a
      dsimp only
      generalize (step token frames).run a = stepped at after
      rcases stepped with ⟨_ | _ | frames, b⟩
      · exact after
      · exact after
      · exact after.trans (ih frames c b)

end Reading

theorem Console.spelled_read (c : Console) (a : Arena) : a.Spelled (c.read a).2.2 :=
  Reading.spelled_run _ _ c a

end ArenaLisp
