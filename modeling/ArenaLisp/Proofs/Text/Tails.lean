import ArenaLisp.Proofs.Text.Descent
import ArenaLisp.Proofs.Text.Phrases
import ArenaLisp.Proofs.Text.RoundTrip

/-!
# Dotted tails

When a list has its tail, what is left up to the closing bracket is read as a list of its own, which
has to come out empty. It does if the bracket follows at once, but also if nothing stands before the
bracket but dots, each with an empty expression after it (`Hollow`). So a list is refused if anything
other than a dot follows its tail, and one that a dot follows need not be (`Console.read_after_tail`).
-/

namespace ArenaLisp

open Token Storing

/-- The token sequences that are read as nothing: as the empty value, or as what is left
of a list that has no more elements and the empty value for a tail. -/
inductive Hollow : Part → List Token → Prop where
  | word : Hollow .element [.word Symbol.nil.letters]
  | list {tokens : List Token} : Hollow .rest tokens → Hollow .element (.opening :: tokens)
  | element {tokens : List Token} : Hollow .element tokens → Hollow .expression tokens
  | dot {tokens : List Token} : Hollow .expression tokens → Hollow .expression (.dot :: tokens)
  | closing : Hollow .rest [.closing]
  | tail {tokens later : List Token} : Hollow .expression tokens → Hollow .rest later →
    Hollow .rest (.dot :: (tokens ++ later))

/-! ### Values that are not empty -/

/-- A computation that gives no empty value. -/
def Storing.Solid (f : Storing Value) : Prop :=
  ∀ a, Ensures f a (fun v _ => v ≠ .nil) fun _ _ => True

namespace Storing.Solid

theorem map_cell (f : Storing Nat) : Solid (.cell <$> f) := by
  intro a
  rw [ensures_map]
  unfold Ensures
  split
  · exact Value.noConfusion
  · trivial

theorem bind {α : Type} (f : Storing α) {g : α → Storing Value} (next : ∀ v, Solid (g v)) :
    Solid (f >>= g) := by
  intro a
  rw [ensures_bind]
  unfold Ensures
  split
  · exact next _ _
  · trivial

theorem of_ok {f : Storing Value} {c d : Console} {a b : Arena} {v : Value} (solid : Solid f)
    (ok : Reading.Result.storing f c a = (.ok v, d, b)) : v ≠ .nil := by
  have ensured := solid a
  rwa [Ensures, Reading.Result.storing_ok ok] at ensured

end Storing.Solid

namespace Reading

open Result

variable {outer : List Frame} {elements : List Value} {a b : Arena} {c d : Console}
  {w tail : Value} {tokens : List Token} {rest letters : List Byte}

theorem solid_makeQuoted (v : Value) : Solid (makeQuoted v) :=
  .bind _ fun _ => .bind _ fun _ => .map_cell _

theorem solid_makeList (element : Value) (elements : List Value) (tail : Value) :
    Solid (makeList (element :: elements) tail) := by
  induction elements generalizing element tail with
  | nil =>
    rw [makeList]
    simp only [makeList, bind_pure]
    exact .map_cell _
  | cons next elements ih => exact .bind _ fun longer => ih next longer

theorem letters_of_makeWord (ok : storing (makeWord letters) c a = (.ok .nil, d, b)) :
    letters = Symbol.nil.letters ∧ d = c ∧ b = a := by
  unfold makeWord at ok
  split at ok
  · cases ok
  · rename_i name named
    split at ok
    · rename_i same
      cases ok
      exact ⟨Symbol.letters_of_ofName? (same ▸ named), rfl, rfl⟩
    · exact absurd rfl (Solid.of_ok (.map_cell _) ok)

theorem ne_nil_of_readOn_list {element : Value}
    (read : readOn [.list (element :: elements)] c a = (.ok w, d, b)) : w ≠ .nil := by
  induction size : c.unread.length using Nat.strong_induction_on generalizing element elements c a
    with
  | _ size ih =>
    rw [readOn_list_eq] at read
    split at read
    · cases read
    · exact Solid.of_ok (solid_makeList _ _ _) read
    · obtain ⟨tail, c₂, a₂, -, later⟩ := andThen_ok read
      obtain ⟨remainder, c₃, a₃, -, last⟩ := andThen_ok later
      split at last
      · exact Solid.of_ok (solid_makeList _ _ _) last
      · cases last
    · rename_i taken
      obtain ⟨v, c₂, a₂, first, later⟩ := andThen_ok read
      have shorter := (length_of_begun first).trans_lt (Console.length_of_nextToken taken)
      exact ih _ (size ▸ shorter) later rfl

/-! ### Reading nothing -/

theorem hollow_of_readOn (c : Console) (a : Arena) :
    (∀ d b, readOn [] c a = (.ok .nil, d, b) →
      b = a ∧ ∃ tokens, Hollow .expression tokens ∧ Lexes c.unread tokens d.unread) ∧
    ∀ d b, readOn [.list []] c a = (.ok .nil, d, b) →
      b = a ∧ ∃ tokens, Hollow .rest tokens ∧ Lexes c.unread tokens d.unread := by
  -- by the number of characters: a dot is followed by two reads, the second from where the first ends
  induction size : c.unread.length using Nat.strong_induction_on generalizing c a with
  | _ size ih =>
    constructor
    · intro d b read
      rw [readOn_nil_eq] at read
      rcases taken : c.nextToken with ⟨_ | token, c₁⟩ <;> rw [taken] at read
      · cases read
      have less := Console.length_of_nextToken taken
      cases token with
      | opening =>
        obtain ⟨rfl, tokens, hollow, lexes⟩ := (ih _ (size ▸ less) c₁ a rfl).2 d b read
        exact ⟨rfl, _, .element (.list hollow), lexes_cons_iff.2 ⟨_, taken, lexes⟩⟩
      | closing => cases read
      | quote =>
        obtain ⟨v, c₂, a₂, -, made⟩ := andThen_ok read
        exact absurd rfl (Solid.of_ok (solid_makeQuoted v) made)
      | dot =>
        obtain ⟨rfl, tokens, hollow, lexes⟩ := (ih _ (size ▸ less) c₁ a rfl).1 d b read
        exact ⟨rfl, _, .dot hollow, lexes_cons_iff.2 ⟨_, taken, lexes⟩⟩
      | word letters =>
        obtain ⟨rfl, rfl, rfl⟩ := letters_of_makeWord read
        exact ⟨rfl, _, .element .word, lexes_cons_iff.2 ⟨_, taken, .done⟩⟩
    · intro d b read
      rw [readOn_list_eq] at read
      split at read
      · cases read
      · rename_i taken
        cases read
        exact ⟨rfl, _, .closing, lexes_cons_iff.2 ⟨_, taken, .done⟩⟩
      · rename_i taken
        have less := Console.length_of_nextToken taken
        obtain ⟨tail, c₂, a₂, first, later⟩ := andThen_ok read
        obtain ⟨remainder, c₃, a₃, second, last⟩ := andThen_ok later
        have shorter := (length_of_readOn first).trans_lt less
        split at last
        · rename_i empty
          cases last
          subst empty
          obtain ⟨rfl, tokens, hollow, lexes⟩ := (ih _ (size ▸ less) _ a rfl).1 _ _ first
          obtain ⟨rfl, tokens', hollow', lexes'⟩ := (ih _ (size ▸ shorter) c₂ a₂ rfl).2 _ _ second
          exact ⟨rfl, _, .tail hollow hollow', lexes_cons_iff.2 ⟨_, taken, lexes.append lexes'⟩⟩
        · cases last
      · obtain ⟨v, c₂, a₂, -, later⟩ := andThen_ok read
        exact absurd rfl (ne_nil_of_readOn_list later)

/-- What it is for the tokens of a part to be read as nothing, wherever they stand. -/
def Vanishes : Part → List Token → Prop
  | .rest, tokens => ∀ c a rest, Lexes c.unread tokens rest →
    ∃ d, readOn [.list []] c a = (.ok .nil, d, a) ∧ d.unread = rest
  | _, tokens => ∀ c a rest, Lexes c.unread tokens rest →
    ∃ d, readOn [] c a = (.ok .nil, d, a) ∧ d.unread = rest

theorem vanishes_of_hollow {part : Part} (hollow : Hollow part tokens) : Vanishes part tokens := by
  induction hollow with
  | word =>
    intro c a rest lexes
    obtain ⟨d, taken, later⟩ := lexes_cons_iff.1 lexes
    cases later
    rw [readOn_nil_eq, taken]
    dsimp only
    rw [begun, makeWord_nil]
    exact ⟨d, rfl, rfl⟩
  | list _ ih =>
    intro c a rest lexes
    obtain ⟨d, taken, later⟩ := lexes_cons_iff.1 lexes
    rw [readOn_nil_eq, taken]
    exact ih d a rest later
  | element _ ih => exact ih
  | dot _ ih =>
    intro c a rest lexes
    obtain ⟨d, taken, later⟩ := lexes_cons_iff.1 lexes
    rw [readOn_nil_eq, taken]
    exact ih d a rest later
  | closing =>
    intro c a rest lexes
    obtain ⟨d, taken, later⟩ := lexes_cons_iff.1 lexes
    cases later
    rw [readOn_list_eq, taken]
    exact ⟨d, rfl, rfl⟩
  | tail _ _ ih ih' =>
    intro c a rest lexes
    obtain ⟨d, taken, later⟩ := lexes_cons_iff.1 lexes
    obtain ⟨middle, first, second⟩ := later.split
    obtain ⟨d', tail, rfl⟩ := ih d a middle first
    obtain ⟨d'', remainder, left⟩ := ih' d' a rest second
    rw [readOn_list_eq, taken]
    simp only [tail, andThen, remainder, if_true]
    exact ⟨d'', rfl, left⟩

theorem readOn_list_nil_iff :
    (∃ d b, readOn [.list []] c a = (.ok .nil, d, b)) ↔
      ∃ tokens rest, Hollow .rest tokens ∧ Lexes c.unread tokens rest := by
  constructor
  · rintro ⟨d, b, read⟩
    obtain ⟨-, tokens, hollow, lexes⟩ := (hollow_of_readOn c a).2 d b read
    exact ⟨tokens, d.unread, hollow, lexes⟩
  · rintro ⟨tokens, rest, hollow, lexes⟩
    obtain ⟨d, read, -⟩ := vanishes_of_hollow hollow c a rest lexes
    exact ⟨d, a, read⟩

/-- Where no dot follows at once, only a list that is closed at once is hollow. -/
theorem closing_of_hollow (hollow : Hollow .rest tokens) (lexes : Lexes c.unread tokens rest)
    (dotless : c.nextToken.1 ≠ some .dot) :
    c.nextToken.1 = some .closing := by
  cases hollow with
  | closing =>
    obtain ⟨d, taken, -⟩ := lexes_cons_iff.1 lexes
    rw [taken]
  | tail =>
    obtain ⟨d, taken, -⟩ := lexes_cons_iff.1 lexes
    exact absurd (congrArg Prod.fst taken) dotless

/-! ### The places a read comes to -/

/-- Where a read stands between two tokens. -/
structure Place where
  frames : List Frame
  console : Console
  arena : Arena
  deriving DecidableEq

namespace Place

/-- The place after the next token, if the read goes on. -/
def next? (p : Place) : Option Place :=
  match p.console.nextToken with
  | (none, _) => none
  | (some token, d) =>
    match (step token p.frames).run p.arena with
    | (.ok (.within frames), b) => some ⟨frames, d, b⟩
    | _ => none

def after? : Nat → Place → Option Place
  | 0, p => some p
  | n + 1, p => p.next?.bind (after? n)

def outcome (p : Place) : Result :=
  readOn p.frames p.console p.arena

variable {p q : Place}

theorem outcome_next? (next : p.next? = some q) : p.outcome = q.outcome := by
  unfold next? at next
  rw [outcome, readOn_eq]
  rcases taken : p.console.nextToken with ⟨_ | token, d⟩
  · rw [taken] at next
    cases next
  · rw [taken] at next
    dsimp only [goOn] at next ⊢
    rcases stepped : (step token p.frames).run p.arena with ⟨_ | _ | frames, b⟩ <;>
      rw [stepped] at next <;> cases next
    rfl

theorem outcome_after? {n : Nat} (comes : p.after? n = some q) : p.outcome = q.outcome := by
  induction n generalizing p with
  | zero =>
    cases comes
    rfl
  | succ n ih =>
    obtain ⟨r, next, comes⟩ := Option.bind_eq_some_iff.1 comes
    exact (outcome_next? next).trans (ih comes)

end Place

/-! ### After the tail -/

/-- What becomes of a read, seen from where a list has its tail. -/
structure AfterTail (elements : List Value) (tail : Value) (outer : List Frame) (c : Console)
    (a : Arena) (outcome : Result) : Prop where
  /-- What is left of the list is read as a list of its own, which has to be empty. -/
  remainder : outcome = (readOn [.list []] c a).andThen fun remainder d b =>
    if remainder = .nil then goOn (makeList elements tail >>= fun v => deliver v outer) d b
    else (.error .malformedList, d, b)
  empty_iff : (∃ d b, readOn [.list []] c a = (.ok .nil, d, b)) ↔
    ∃ tokens rest, Hollow .rest tokens ∧ Lexes c.unread tokens rest
  returns : ∀ v, outcome.1 = .ok v → ∃ d b, readOn [.list []] c a = (.ok .nil, d, b)
  closing : c.nextToken.1 ≠ some .dot → (∃ d b, readOn [.list []] c a = (.ok .nil, d, b)) →
    c.nextToken.1 = some .closing
  /-- Where neither follows, the read is refused, or fails as what follows does. -/
  refused : c.nextToken.1 ≠ some .dot → c.nextToken.1 ≠ some .closing →
    outcome.1 = .error .malformedList ∨
      ∃ fault, (readOn [.list []] c a).1 = .error fault ∧ outcome.1 = .error fault

theorem afterTail_of_remainder {outcome : Result}
    (remainder : outcome = (readOn [.list []] c a).andThen fun remainder d b =>
      if remainder = .nil then goOn (makeList elements tail >>= fun v => deliver v outer) d b
      else (.error .malformedList, d, b)) : AfterTail elements tail outer c a outcome := by
  have closing : c.nextToken.1 ≠ some .dot → (∃ d b, readOn [.list []] c a = (.ok .nil, d, b)) →
      c.nextToken.1 = some .closing := by
    intro dotless empty
    obtain ⟨tokens, rest, hollow, lexes⟩ := readOn_list_nil_iff.1 empty
    exact closing_of_hollow hollow lexes dotless
  refine ⟨remainder, readOn_list_nil_iff, ?_, closing, ?_⟩
  · intro v ok
    obtain ⟨d, b, whole⟩ : ∃ d b, outcome = (.ok v, d, b) := ⟨_, _, Prod.ext ok rfl⟩
    rw [remainder] at whole
    obtain ⟨w, d', b', read, last⟩ := andThen_ok whole
    split at last
    · rename_i empty
      exact ⟨d', b', empty ▸ read⟩
    · cases last
  -- what is left is not closed at once, so it is not read as empty
  · intro dotless other
    rcases read : readOn [.list []] c a with ⟨fault | w, d, b⟩
    · rw [remainder, read]
      exact .inr ⟨fault, rfl, rfl⟩
    · have some : w ≠ .nil := by
        rintro rfl
        exact other (closing dotless ⟨d, b, read⟩)
      rw [remainder, read]
      refine .inl ?_
      simp only [andThen, if_neg some]

/-- Where a read stands with a list, its tail and the expressions around it, it goes on with what is
left of the list. -/
theorem readOn_dotted (read : c.read a = (.ok tail, d, b)) :
    AfterTail elements tail outer d b (readOn (.dotted elements :: outer) c a) := by
  refine afterTail_of_remainder ?_
  have first := @readOn_append [] (.dotted elements :: outer) (by simp [Apart]) c a
  rw [List.nil_append, readOn_nil, read] at first
  have second :=
    @readOn_append [.list []] (.remainder elements tail :: outer) (by simp [Apart]) d b
  refine first.trans (second.trans ?_)
  congr 1
  funext remainder d b
  split
  · rename_i empty
    rw [deliver, if_pos empty]
  · rename_i some
    rw [deliver, if_neg some]
    rfl

end Reading

open Reading

/-- A dotted tail is the last thing in its list, apart from dots with nothing to add. -/
theorem Console.read_after_tail {c c₁ c₂ : Console} {a a₁ a₂ : Arena} {n : Nat}
    {elements : List Value} {outer : List Frame} {tail : Value}
    (comes : Place.after? n ⟨[], c, a⟩ = some ⟨.dotted elements :: outer, c₁, a₁⟩)
    (read : c₁.read a₁ = (.ok tail, c₂, a₂)) :
    AfterTail elements tail outer c₂ a₂ (c.read a) := by
  have whole : c.read a = readOn (.dotted elements :: outer) c₁ a₁ := Place.outcome_after? comes
  rw [whole]
  exact readOn_dotted read

/-- A list of `A` with the tail `B`, and what is written after the tail. -/
def Console.ofTailed (later : String) : Console :=
  .ofText ("(A . B" ++ later)

/-- The place where such a list waits for its tail. -/
def Reading.Place.ofTailed (later : String) : Place where
  frames := [.dotted [.cell 0]]
  console := (Console.ofTailed later).nextToken.2.nextToken.2.nextToken.2
  arena := ((makeWord [65]).run (.new 16)).2

/-- What such a list has for its tail. -/
def Reading.Result.ofTailed (later : String) : Result :=
  (Place.ofTailed later).console.read (Place.ofTailed later).arena

theorem Console.read_after_tail_word :
    Place.after? 3 ⟨[], .ofTailed " C)", .new 16⟩ = some (.ofTailed " C)") ∧
      (Result.ofTailed " C)").1 = .ok (.cell 1) ∧
      AfterTail [.cell 0] (.cell 1) [] (Result.ofTailed " C)").2.1 (Result.ofTailed " C)").2.2
        ((Console.ofTailed " C)").read (.new 16)) := by
  have comes : Place.after? 3 ⟨[], .ofTailed " C)", .new 16⟩ = some (.ofTailed " C)") := by
    decide +kernel
  have tail : (Result.ofTailed " C)").1 = .ok (.cell 1) := by decide +kernel
  exact ⟨comes, tail, Console.read_after_tail comes (Prod.ext tail rfl)⟩

/-- The list `(A . B . NIL)` is read, though a dot follows its tail. -/
theorem Console.read_dot_after_tail :
    Place.after? 3 ⟨[], .ofTailed " . NIL)", .new 16⟩ = some (.ofTailed " . NIL)") ∧
      (Result.ofTailed " . NIL)").1 = .ok (.cell 1) ∧
      (Result.ofTailed " . NIL)").2.1.nextToken.1 = some .dot ∧
      ((Console.ofTailed " . NIL)").read (.new 16)).1 = .ok (.cell 2) := by
  decide +kernel

end ArenaLisp
