import ArenaLisp.Proofs.Arena.Printing
import ArenaLisp.Proofs.Arena.Storing
import ArenaLisp.Proofs.Text.Lexing

/-!
# Reading what was printed

The reader takes the tokens of a tree as a tree is stored, cell for cell, and hands its value to the
frames that are open (`Reading.feed_tokens`). So it reads the text of a legible tree with as many cells
as the tree has symbols and pairs, or runs out of room (`Console.read_bytes`).
-/

namespace ArenaLisp

/-! ### Storing a tree -/

namespace Storing

variable {α β : Type} {f : Storing α} {g : α → Storing β} {a b : Arena}

theorem run_bind_ok {v : α} (ran : f.run a = (.ok v, b)) : (f >>= g).run a = (g v).run b := by
  rw [run_bind, ran]

theorem run_bind_error {fault : Fault} (ran : f.run a = (.error fault, b)) :
    (f >>= g).run a = (.error fault, b) := by
  rw [run_bind, ran]

end Storing

namespace Arena

open Storing

variable {a b c d : Arena} {v w : Value} {s t : Sexp} {id : Nat}

/-- A tree was stored in cells that were free, one for each of its symbols and pairs. -/
structure Stored (a : Arena) (t : Sexp) (v : Value) (b : Arena) : Prop where
  grows : a.Grows b
  live : b.Live v
  unfolds : b.Unfolds v t
  count : b.freeCount + t.size = a.freeCount

theorem Stored.pair (first : a.Stored s v b) (second : b.Stored t w c)
    (took : c.TookCell (.pair v w) id d) : a.Stored (.pair s t) (.cell id) d where
  grows := (first.grows.trans second.grows).trans took.grows
  live := live_cell_iff.2 (taken_of_pair took.content)
  unfolds := by
    have head := (first.unfolds.extends' second.grows.extends').extends' took.extends
    exact .pair took.content head (second.unfolds.extends' took.extends)
  count := by
    have count := first.count
    have count' := second.count
    have last := took.count
    simp only [Sexp.size]
    omega

theorem map_take_run (sound : a.Sound) {content : Cell} (fit : a.Fit content) :
    (a.freeCount = 0 ∧ (Value.cell <$> take content).run a = (.error .noRoom, a)) ∨
      ∃ id b, (Value.cell <$> take content).run a = (.ok (.cell id), b) ∧
        a.TookCell content id b := by
  rw [map_eq_pure_bind]
  rcases take_run sound fit with ⟨empty, ran⟩ | ⟨id, b, -, ran, took⟩
  · exact .inl ⟨sound.freeCount_eq_zero empty, run_bind_error ran⟩
  · exact .inr ⟨id, b, run_bind_ok ran, took⟩

theorem store_run (sound : a.Sound) (t : Sexp) :
    (a.freeCount < t.size ∧ ∃ b, (store t).run a = (.error .noRoom, b)) ∨
      ∃ v b, (store t).run a = (.ok v, b) ∧ a.Stored t v b := by
  induction t generalizing a with
  | nil => exact .inr ⟨.nil, a, rfl, .refl sound, live_nil a, .nil, rfl⟩
  | symbol name =>
    rcases map_take_run sound (fit_symbol name) with ⟨none, ran⟩ | ⟨id, b, ran, took⟩
    · exact .inl ⟨by simp [none, Sexp.size], a, ran⟩
    · refine .inr ⟨.cell id, b, ran, took.grows, ?_, .symbol took.content, took.count⟩
      exact live_cell_iff.2 (taken_of_symbol took.content)
  | pair head tail ihHead ihTail =>
    simp only [Sexp.size]
    rcases ihHead sound with ⟨few, b, ran⟩ | ⟨v, b, ran, first⟩
    · exact .inl ⟨by omega, b, run_bind_error ran⟩
    have count := first.count
    rcases ihTail first.grows.sound with ⟨few, c, ran'⟩ | ⟨w, c, ran', second⟩
    · exact .inl ⟨by omega, c, (run_bind_ok ran).trans (run_bind_error ran')⟩
    have count' := second.count
    have live := second.grows.extends'.live first.live
    rcases map_take_run second.grows.sound (fit_pair live second.live) with
      ⟨none, last⟩ | ⟨id, d, last, took⟩
    · exact .inl ⟨by omega, c, (run_bind_ok ran).trans ((run_bind_ok ran').trans last)⟩
    · exact .inr ⟨.cell id, d, (run_bind_ok ran).trans ((run_bind_ok ran').trans last),
        first.pair second took⟩

end Arena

/-! ### Taking the tokens of a tree -/

namespace Reading

variable {t : Sexp} {frames : List Frame} {a b : Arena} {v : Value} {tokens more : List Token}

/-- Takes tokens one after the other, all of which the expression has to need. -/
def feed : List Token → Reading → Storing Reading
  | [], reading => pure reading
  | token :: tokens, .within frames => do
    let reading ← step token frames
    feed tokens reading
  | _ :: _, .complete _ => throw .malformedList

theorem feed_append (reading : Reading) :
    feed (tokens ++ more) reading = feed tokens reading >>= feed more := by
  induction tokens generalizing reading with
  | nil => simp [feed]
  | cons token tokens ih =>
    cases reading with
    | complete v => rfl
    | within frames => simp [feed, ih, bind_assoc]

theorem makeWord_letters {name : Symbol} (legible : name.Legible) :
    makeWord name.letters = Arena.symbol name := by
  obtain ⟨ne, text, named⟩ := legible
  obtain ⟨-, -, -, spelled⟩ := Symbol.letters_spelling named
  simp only [makeWord, spelled, if_neg ne]

theorem makeWord_nil : makeWord Symbol.nil.letters = pure .nil := by
  obtain ⟨-, -, -, spelled⟩ := Symbol.letters_spelling Symbol.ofName?_nil
  simp only [makeWord, spelled, if_true]

/-- The tokens of a tree store the tree, and so do those of a tail in front of which elements were
read. -/
theorem feed_tokens (legible : t.Legible) (frames : List Frame) :
    feed t.tokens (.within frames) = (do
        let v ← Arena.store t
        deliver v frames) ∧
      ∀ elements, feed t.tailTokens (.within (.list elements :: frames)) = (do
        let tail ← Arena.store t
        let v ← makeList elements tail
        deliver v frames) := by
  induction t generalizing frames with
  | nil => simp [Sexp.tokens, Sexp.tailTokens, feed, step, makeWord_nil, Arena.store]
  | symbol name =>
    simp [Sexp.tokens, Sexp.tailTokens, feed, step, makeWord_letters legible, Arena.store, deliver,
      makeList]
  | pair head tail ihHead ihTail =>
    obtain ⟨legibleHead, legibleTail⟩ := legible
    -- the head is read with the list as one more open frame, and becomes its last element
    have both : ∀ elements,
        feed (head.tokens ++ tail.tailTokens) (.within (.list elements :: frames)) = (do
          let v ← Arena.store (.pair head tail)
          let w ← makeList elements v
          deliver w frames) := by
      intro elements
      have first := (ihHead legibleHead (.list elements :: frames)).1
      have second := fun v => (ihTail legibleTail frames).2 (v :: elements)
      simp only [feed_append, first, deliver, bind_assoc, pure_bind, second, Arena.store, makeList]
    refine ⟨?_, both⟩
    have opened := both []
    simp only [makeList, pure_bind] at opened
    simpa only [Sexp.tokens, feed, step, pure_bind] using opened

/-! ### Running on the characters of a tree -/

/-- What a run comes to when it has taken some tokens: their expression is complete, or there was no
room for it. -/
inductive Ends : Except Fault Reading → Except Fault Value → Prop where
  | complete {v : Value} : Ends (.ok (.complete v)) (.ok v)
  | noRoom : Ends (.error .noRoom) (.error .noRoom)

theorem run_of_feed {n : Nat} {c : Console} {rest : List Byte} {outcome : Except Fault Reading}
    {result : Except Fault Value} (lexes : Token.Lexes c.unread tokens rest)
    (enough : c.unread.length < n) (fed : (feed tokens (.within frames)).run a = (outcome, b))
    (ends : Ends outcome result) :
    ∃ c', run n frames c a = (result, c', b) ∧ ∀ v, result = .ok v → c'.unread = rest := by
  induction tokens generalizing n c frames a with
  | nil =>
    cases fed
    cases ends
  | cons token tokens ih =>
    obtain ⟨n, rfl⟩ : ∃ k, n = k + 1 := ⟨n - 1, by omega⟩
    obtain ⟨d, taken, later⟩ := Token.lexes_cons_iff.1 lexes
    have less := Console.length_of_nextToken taken
    rw [feed] at fed
    rw [run, taken]
    dsimp only
    rcases stepped : (step token frames).run a with ⟨fault | w | frames', a'⟩
    · rw [Storing.run_bind_error stepped] at fed
      cases fed
      cases ends
      exact ⟨d, rfl, by simp⟩
    · rw [Storing.run_bind_ok stepped] at fed
      -- an expression that is complete before the last token is refused
      cases later with
      | done =>
        cases fed
        cases ends
        exact ⟨d, rfl, fun _ _ => rfl⟩
      | next =>
        cases fed
        cases ends
    · rw [Storing.run_bind_ok stepped] at fed
      exact ih later (by omega) fed

end Reading

/-- The text of a legible tree is read as the tree, if there are as many free cells as it needs. -/
theorem Console.read_bytes {c : Console} {a : Arena} {t : Sexp} {rest : List Byte}
    (legible : t.Legible) (ends : t.Ends rest) (unread : c.unread = t.bytes ++ rest)
    (sound : a.Sound) :
    (a.freeCount < t.size ∧ ∃ c' b, c.read a = (.error .noRoom, c', b)) ∨
      ∃ v c' b, c.read a = (.ok v, c', b) ∧ a.Stored t v b ∧ c'.unread = t.leaves rest := by
  have lexes : Token.Lexes c.unread t.tokens (t.leaves rest) := by
    rw [unread]
    exact (Sexp.lexes legible rest).1 ends
  have whole := (Reading.feed_tokens legible []).1
  rcases Arena.store_run sound t with ⟨few, b, ran⟩ | ⟨v, b, ran, stored⟩
  · have fed : (Reading.feed t.tokens (.within [])).run a = (.error .noRoom, b) := by
      rw [whole, Storing.run_bind_error ran]
    obtain ⟨c', read, -⟩ := Reading.run_of_feed lexes (Nat.lt_succ_self _) fed .noRoom
    exact .inl ⟨few, c', b, read⟩
  · have fed : (Reading.feed t.tokens (.within [])).run a = (.ok (.complete v), b) := by
      rw [whole, Storing.run_bind_ok ran]
      rfl
    obtain ⟨c', read, left⟩ := Reading.run_of_feed lexes (Nat.lt_succ_self _) fed .complete
    exact .inr ⟨v, c', b, read, stored, left v rfl⟩

theorem Sexp.eq_of_text {s t : Sexp} (legible : s.Legible) (legible' : t.Legible)
    (same : s.text = t.text) : s = t := by
  have bytes : s.bytes = t.bytes := by rw [← encode_text, ← encode_text, same]
  -- one arena with room for both trees
  have room := Arena.freeCount_new (s.size + t.size)
  have sound := Arena.sound_new (s.size + t.size)
  have ends : Token.Stops [] := fun b first => by cases first
  have first := Console.read_bytes (c := { pending := s.bytes }) legible (ends_of_stops ends)
    (List.append_nil _).symm sound
  have second := Console.read_bytes (c := { pending := s.bytes }) legible' (ends_of_stops ends)
    (bytes.trans (List.append_nil _).symm) sound
  obtain ⟨few, -⟩ | ⟨v, c, b, read, stored, -⟩ := first
  · omega
  obtain ⟨few, -⟩ | ⟨v', c', b', read', stored', -⟩ := second
  · omega
  cases read.symm.trans read'
  exact stored.unfolds.unique stored'.unfolds

end ArenaLisp
