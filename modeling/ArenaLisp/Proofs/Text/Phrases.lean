import ArenaLisp.Proofs.Text.Intake

/-!
# Complete expressions

The token sequences that the reader takes for one expression, whatever follows them, form a grammar
(`Spans`), and it takes no others for one (`Console.spans_of_read`). A text is complete if it is a
sequence of such expressions and blanks, the last word of which cannot grow (`Complete`), as is any
such text that can be read to its end (`Console.Through.complete`). A text after it does not change how
it is read.
-/

namespace ArenaLisp

open Token Storing

/-! ### The grammar -/

/-- The parts of the grammar. -/
inductive Part where
  /-- An expression that a read or a quote or a dot in a list waits for. -/
  | expression
  /-- An expression that is an element of a list. -/
  | element
  /-- What is left of a list, its closing bracket included. -/
  | rest

/-- The tokens of each part. A dot outside a list is passed over, and what is left of a list after a dot
and the tail is read as a list of its own. -/
inductive Spans : Part → List Token → Prop where
  | word (letters : List Byte) : Spans .element [.word letters]
  | quoted {tokens : List Token} : Spans .expression tokens → Spans .element (.quote :: tokens)
  | list {tokens : List Token} : Spans .rest tokens → Spans .element (.opening :: tokens)
  | element {tokens : List Token} : Spans .element tokens → Spans .expression tokens
  | dot {tokens : List Token} : Spans .expression tokens → Spans .expression (.dot :: tokens)
  | closing : Spans .rest [.closing]
  | more {tokens later : List Token} : Spans .element tokens → Spans .rest later →
    Spans .rest (tokens ++ later)
  | tail {tokens later : List Token} : Spans .expression tokens → Spans .rest later →
    Spans .rest (.dot :: (tokens ++ later))

/-- The last character of a text is no part of a word that could go on. -/
def Closed (text : List Byte) : Prop :=
  ∀ b ∈ text.getLast?, b.isDelimiter = true

/-- A text of complete expressions followed by blanks, with no list, quote, dot, comment or word that
could go on. -/
def Complete (text : List Byte) : Prop :=
  Closed text ∧ ∃ (phrases : List (List Token)) (blanks : List Byte),
    (∀ phrase ∈ phrases, Spans .expression phrase) ∧ Lexes text phrases.flatten blanks ∧
      ∀ b ∈ blanks, b.isBlank = true

/-! ### Reading tokens -/

namespace Reading

variable {tokens more : List Token} {frames : List Frame} {a b : Arena} {c : Console} {n : Nat}
  {rest : List Byte}

/-- Reads on from a sequence of tokens up to the end of the expression. The tokens after it are
left. -/
def resume : Reading → List Token → Storing (Value × List Token)
  | .complete v, tokens => pure (v, tokens)
  | .within _, [] => throw .endOfInput
  | .within frames, token :: tokens => do
    let reading ← step token frames
    resume reading tokens

theorem resume_complete (v : Value) (tokens : List Token) :
    resume (.complete v) tokens = pure (v, tokens) := by
  cases tokens <;> rfl

theorem run_of_resume (lexes : Lexes c.unread tokens rest) (enough : c.unread.length < n)
    (frames : List Frame) (a : Arena) :
    match (resume (.within frames) tokens).run a with
    | (.ok (v, left), b) => ∃ c', run n frames c a = (.ok v, c', b) ∧ Lexes c'.unread left rest
    | (.error fault, b) => fault.isFatal = false → ∃ c', run n frames c a = (.error fault, c', b) := by
  induction tokens generalizing n c frames a with
  | nil => exact fun mild => by cases mild
  | cons token tokens ih =>
    obtain ⟨n, rfl⟩ : ∃ k, n = k + 1 := ⟨n - 1, by omega⟩
    obtain ⟨d, taken, later⟩ := lexes_cons_iff.1 lexes
    have less := Console.length_of_nextToken taken
    rw [resume, run, taken, run_bind]
    dsimp only
    rcases (step token frames).run a with ⟨fault | v | frames', a'⟩
    · exact fun _ => ⟨d, rfl⟩
    · dsimp only
      rw [resume_complete]
      exact ⟨d, rfl, later⟩
    · exact ih later (by omega) frames' a'

/-- The innermost frame is no open list. -/
def Outside (frames : List Frame) : Prop :=
  ∀ elements outer, frames ≠ .list elements :: outer

theorem list_or_outside (frames : List Frame) :
    (∃ elements outer, frames = .list elements :: outer) ∨ Outside frames := by
  by_cases inside : ∃ elements outer, frames = .list elements :: outer
  · exact .inl inside
  · exact .inr fun elements outer is => inside ⟨elements, outer, is⟩

/-- What the tokens of a part do to the frames that are open, whatever tokens follow them. -/
def Reads : Part → List Token → Prop
  | .expression, tokens => ∃ f : Storing Value, Mild f ∧
    ∀ frames more, Outside frames →
      resume (.within frames) (tokens ++ more) = f >>= fun v => deliver v frames >>= (resume · more)
  | .element, tokens => ∃ f : Storing Value, Mild f ∧ ∀ frames more,
    resume (.within frames) (tokens ++ more) = f >>= fun v => deliver v frames >>= (resume · more)
  | .rest, tokens => ∃ f : List Value → Storing Value, (∀ elements, Mild (f elements)) ∧
    ∀ elements frames more, resume (.within (.list elements :: frames)) (tokens ++ more) =
      f elements >>= fun v => deliver v frames >>= (resume · more)

theorem step_dot (outside : Outside frames) : step .dot frames = pure (.within frames) := by
  rcases frames with _ | ⟨_ | elements | _ | _, outer⟩
  · rfl
  · rfl
  · exact absurd rfl (outside elements outer)
  · rfl
  · rfl

theorem reads_of_spans {part : Part} (spans : Spans part tokens) : Reads part tokens := by
  induction spans with
  | word letters =>
    refine ⟨makeWord letters, mild_makeWord letters, fun frames more => ?_⟩
    simp only [List.singleton_append, resume, step, bind_assoc]
  | quoted _ ih =>
    obtain ⟨f, mild, reads⟩ := ih
    refine ⟨f >>= makeQuoted, .bind mild mild_makeQuoted, fun frames more => ?_⟩
    have inner := reads (.quoted :: frames) more (by simp [Outside])
    simp only [List.cons_append, resume, step, pure_bind, inner, deliver, bind_assoc]
  | list _ ih =>
    obtain ⟨f, mild, reads⟩ := ih
    refine ⟨f [], mild [], fun frames more => ?_⟩
    simp only [List.cons_append, resume, step, pure_bind, reads]
  | element _ ih =>
    obtain ⟨f, mild, reads⟩ := ih
    exact ⟨f, mild, fun frames more _ => reads frames more⟩
  | dot _ ih =>
    obtain ⟨f, mild, reads⟩ := ih
    refine ⟨f, mild, fun frames more outside => ?_⟩
    simp only [List.cons_append, resume, step_dot outside, pure_bind, reads frames more outside]
  | closing =>
    refine ⟨fun elements => makeList elements .nil, fun elements => mild_makeList elements .nil,
      fun elements frames more => ?_⟩
    simp only [List.singleton_append, resume, step, bind_assoc]
  | more _ _ ih ih' =>
    obtain ⟨f, mild, reads⟩ := ih
    obtain ⟨g, mild', reads'⟩ := ih'
    refine ⟨fun elements => f >>= fun v => g (v :: elements),
      fun elements => .bind mild fun v => mild' (v :: elements), fun elements frames more => ?_⟩
    simp only [List.append_assoc, reads, deliver, pure_bind, reads', bind_assoc]
  | tail _ _ ih ih' =>
    obtain ⟨f, mild, reads⟩ := ih
    obtain ⟨g, mild', reads'⟩ := ih'
    -- the value of what is left after the tail has to be the empty list
    refine ⟨fun elements => f >>= fun tail => g [] >>= fun left =>
        if left = .nil then makeList elements tail else throw .malformedList,
      fun elements => .bind mild fun tail => .bind (mild' []) fun left => ?_,
      fun elements frames more => ?_⟩
    · split
      · exact mild_makeList elements tail
      · exact .throw rfl
    · have inner := fun later => reads (.dotted elements :: frames) later (by simp [Outside])
      simp only [List.cons_append, List.append_assoc, resume, step, pure_bind, inner, deliver, reads',
        bind_assoc]
      refine bind_congr fun tail => bind_congr fun left => ?_
      split
      · exact bind_assoc ..
      · rfl

/-- An expression is read to its end, or refused, whatever follows it. -/
theorem resume_expression (spans : Spans .expression tokens) (more : List Token) (a : Arena) :
    (∃ v b, (resume (.within []) (tokens ++ more)).run a = (.ok (v, more), b)) ∨
      ∃ fault b, (resume (.within []) (tokens ++ more)).run a = (.error fault, b) ∧
        fault.isFatal = false := by
  obtain ⟨f, mild, reads⟩ := reads_of_spans spans
  have mildHere := mild a
  unfold Ensures at mildHere
  rw [reads [] more (by simp [Outside]), run_bind]
  rcases ran : f.run a with ⟨fault | v, b⟩
  · rw [ran] at mildHere
    exact .inr ⟨fault, b, rfl, mildHere⟩
  · refine .inl ⟨v, b, ?_⟩
    simp only [deliver, pure_bind, resume_complete]
    rfl

/-! ### What has been read -/

/-- Tokens that complete what has begun once the innermost frame has got its expression. -/
def NeedsAfter : List Frame → List Token → Prop
  | [], tokens => tokens = []
  | .quoted :: frames, tokens => NeedsAfter frames tokens
  | .list _ :: frames, tokens => ∃ left later, Spans .rest left ∧ NeedsAfter frames later ∧
    tokens = left ++ later
  | .dotted _ :: frames, tokens => ∃ left later, Spans .rest left ∧ NeedsAfter frames later ∧
    tokens = left ++ later
  | .remainder _ _ :: frames, tokens => NeedsAfter frames tokens

/-- Tokens that complete a reading. An open list waits for its rest, all else for an expression. -/
def Needs : Reading → List Token → Prop
  | .complete _, tokens => tokens = []
  | .within (.list elements :: frames), tokens => NeedsAfter (.list elements :: frames) tokens
  | .within frames, tokens => ∃ phrase later, Spans .expression phrase ∧ NeedsAfter frames later ∧
    tokens = phrase ++ later

theorem needs_iff (outside : Outside frames) :
    Needs (.within frames) tokens ↔
      ∃ phrase later, Spans .expression phrase ∧ NeedsAfter frames later ∧ tokens = phrase ++ later := by
  rcases frames with _ | ⟨_ | elements | _ | _, outer⟩
  · rfl
  · rfl
  · exact absurd rfl (outside elements outer)
  · rfl
  · rfl

theorem needs_element {later : List Token} (spans : Spans .element tokens)
    (after : NeedsAfter frames later) : Needs (.within frames) (tokens ++ later) := by
  rcases list_or_outside frames with ⟨elements, outer, rfl⟩ | outside
  · obtain ⟨left, later, spans', after, rfl⟩ := after
    exact ⟨tokens ++ left, later, .more spans spans', after, (List.append_assoc ..).symm⟩
  · exact (needs_iff outside).2 ⟨tokens, later, .element spans, after, rfl⟩

/-- Every value that a computation comes to is a reading that goes on to what the frames need. -/
def Leads (f : Storing Reading) (frames : List Frame) : Prop :=
  ∀ a, Ensures f a (fun reading _ => ∀ tokens, Needs reading tokens → NeedsAfter frames tokens)
    fun _ _ => True

theorem Leads.after {f : Storing Reading} (leads : Leads f frames) {reading : Reading}
    (ran : f.run a = (.ok reading, b)) (needs : Needs reading tokens) : NeedsAfter frames tokens := by
  have here := leads a
  unfold Ensures at here
  rw [ran] at here
  exact here tokens needs

theorem leads_bind {α : Type} {f : Storing α} {g : α → Storing Reading}
    (next : ∀ v, Leads (g v) frames) : Leads (f >>= g) frames := by
  intro a
  rw [ensures_bind]
  unfold Ensures
  rcases f.run a with ⟨fault | v, b⟩
  · trivial
  · exact next v b

theorem leads_deliver (v : Value) (frames : List Frame) : Leads (deliver v frames) frames := by
  induction frames generalizing v with
  | nil => exact fun a tokens needs => needs
  | cons frame frames ih =>
    cases frame with
    | quoted => exact leads_bind ih
    | list elements => exact fun a tokens needs => needs
    | dotted elements => exact fun a tokens needs => needs
    | remainder elements tail =>
      unfold deliver
      split
      · exact leads_bind ih
      · exact fun a => trivial

theorem needs_step {token : Token} {reading : Reading}
    (ran : (step token frames).run a = (.ok reading, b)) (needs : Needs reading tokens) :
    Needs (.within frames) (token :: tokens) := by
  cases token with
  | opening =>
    cases ran
    obtain ⟨left, later, spans, after, rfl⟩ := needs
    exact needs_element (.list spans) after
  | quote =>
    cases ran
    obtain ⟨phrase, later, spans, after, rfl⟩ := needs
    exact needs_element (.quoted spans) after
  | word letters =>
    have leads : Leads (makeWord letters >>= (deliver · frames)) frames :=
      leads_bind (leads_deliver · frames)
    exact needs_element (.word letters) (leads.after ran needs)
  | closing =>
    rcases frames with _ | ⟨_ | elements | _ | _, outer⟩
    · cases ran
    · cases ran
    · have leads : Leads (makeList elements .nil >>= (deliver · outer)) outer :=
        leads_bind (leads_deliver · outer)
      exact ⟨[.closing], tokens, .closing, leads.after ran needs, rfl⟩
    · cases ran
    · cases ran
  | dot =>
    -- outside a list it changes nothing
    rcases list_or_outside frames with ⟨elements, outer, rfl⟩ | outside
    · cases ran
      obtain ⟨phrase, _, spans, ⟨left, later, spans', after, rfl⟩, rfl⟩ := needs
      exact ⟨.dot :: (phrase ++ left), later, .tail spans spans', after, by simp⟩
    · rw [step_dot outside] at ran
      cases ran
      obtain ⟨phrase, later, spans, after, rfl⟩ := (needs_iff outside).1 needs
      exact (needs_iff outside).2 ⟨.dot :: phrase, later, .dot spans, after, rfl⟩

theorem needs_of_run {v : Value} {d : Console} (ran : run n frames c a = (.ok v, d, b)) :
    ∃ tokens, Lexes c.unread tokens d.unread ∧ Needs (.within frames) tokens := by
  induction n generalizing frames c a with
  | zero => cases ran
  | succ n ih =>
    rw [run] at ran
    rcases taken : c.nextToken with ⟨_ | token, c'⟩
    · rw [taken] at ran
      cases ran
    rw [taken] at ran
    dsimp only at ran
    rcases stepped : (step token frames).run a with ⟨fault | v' | frames', a'⟩
    · rw [stepped] at ran
      cases ran
    · rw [stepped] at ran
      cases ran
      exact ⟨[token], lexes_cons_iff.2 ⟨d, taken, .done⟩, needs_step stepped rfl⟩
    · rw [stepped] at ran
      obtain ⟨tokens, lexes, needs⟩ := ih ran
      exact ⟨token :: tokens, lexes_cons_iff.2 ⟨c', taken, lexes⟩, needs_step stepped needs⟩

end Reading

namespace Console

/-- Reads in some arenas, one after the other, take expressions until nothing but blanks is left. -/
inductive Through : Console → Prop where
  | blank {c : Console} : (∀ b ∈ c.unread, b.isBlank = true) → Through c
  | read {c d : Console} {a b : Arena} {v : Value} : c.read a = (.ok v, d, b) → Through d → Through c

/-- What a read takes for an expression is one of the grammar. -/
theorem spans_of_read {c d : Console} {a b : Arena} {v : Value} (ran : c.read a = (.ok v, d, b)) :
    ∃ phrase, Spans .expression phrase ∧ Lexes c.unread phrase d.unread := by
  obtain ⟨_, lexes, phrase, _, spans, rfl, rfl⟩ := Reading.needs_of_run ran
  rw [List.append_nil] at lexes
  exact ⟨phrase, spans, lexes⟩

/-- A closed text that the reader takes, expression by expression, is complete. -/
theorem Through.complete {c : Console} (through : c.Through) (closed : Closed c.unread) :
    Complete c.unread := by
  refine ⟨closed, ?_⟩
  clear closed
  induction through with
  | @blank c blank => exact ⟨[], c.unread, by simp, .done, blank⟩
  | read ran _ ih =>
    obtain ⟨phrase, first, lexes⟩ := spans_of_read ran
    obtain ⟨phrases, blanks, spans, rest, blank⟩ := ih
    refine ⟨phrase :: phrases, blanks, ?_, lexes.append rest, blank⟩
    simp only [List.mem_cons]
    rintro _ (rfl | member)
    · exact first
    · exact spans _ member

end Console

/-! ### Texts that something follows -/

section

variable {text later suffix rest : List Byte} {token : Token} {tokens : List Token}

theorem Closed.of_suffix (closed : Closed text) (suffix' : suffix <:+ text) : Closed suffix := by
  obtain ⟨before, rfl⟩ := suffix'
  intro b last
  refine closed b ?_
  rw [List.getLast?_append, Option.mem_def.1 last]
  rfl

theorem skipped_blanks {blanks : List Byte} (blank : ∀ b ∈ blanks, b.isBlank = true)
    (text : List Byte) :
    (skipped (blanks ++ text)).2 = (skipped text).2 := by
  induction blanks with
  | nil => rfl
  | cons b blanks ih =>
    rw [List.cons_append, skipped_blank (blank b List.mem_cons_self)]
    exact ih fun b member => blank b (List.mem_cons_of_mem _ member)

theorem dropWhile_append {p : Byte → Bool} (some : text.dropWhile p ≠ []) :
    (text ++ later).dropWhile p = text.dropWhile p ++ later := by
  rw [List.dropWhile_append, if_neg (by simpa using some)]

theorem skipped_append_right (some : (skipped text).2 ≠ []) :
    (skipped (text ++ later)).2 = (skipped text).2 ++ later := by
  simp only [skipped] at some ⊢
  have blanks : text.dropWhile Byte.isBlank ≠ [] := by
    intro empty
    rw [empty] at some
    exact some rfl
  rw [dropWhile_append blanks]
  have first : (text.dropWhile Byte.isBlank ++ later).head? = (text.dropWhile Byte.isBlank).head? :=
    List.head?_append_of_ne_nil _ blanks
  rw [first]
  split
  · rename_i comment
    rw [if_pos comment] at some
    exact dropWhile_append some
  · rfl

theorem suffix_skipped (text : List Byte) : (skipped text).2 <:+ text :=
  ⟨(skipped text).1, skipped_append text⟩

theorem suffix_left_scanWord (text : List Byte) : (scanWord text).left <:+ text := by
  simp only [scanWord, Scan.left]
  split
  · exact List.nil_suffix
  · rename_i b rest dropped
    have after : b :: rest <:+ text := dropped ▸ List.drop_suffix _ text
    split
    · exact after
    · exact (List.suffix_cons b rest).trans after

theorem suffix_left_scan (text : List Byte) : (scan text).left <:+ text := by
  rw [left_scan]
  refine List.IsSuffix.trans ?_ (suffix_skipped text)
  cases (skipped text).2 with
  | nil => exact List.nil_suffix
  | cons b rest =>
    unfold scanItem
    dsimp only
    split
    · exact List.suffix_cons b rest
    · exact suffix_left_scanWord (b :: rest)

theorem takeWhile_take_append_right {p : Byte → Bool} {n : Nat}
    (some : text.drop ((text.take n).takeWhile p).length ≠ []) :
    ((text ++ later).take n).takeWhile p = (text.take n).takeWhile p := by
  by_cases inside : n ≤ text.length
  · rw [List.take_append_of_le_length inside]
  · have whole : text.take n = text := List.take_of_length_le (Nat.le_of_not_le inside)
    rw [whole] at some ⊢
    rw [List.take_append, whole, List.takeWhile_append, if_neg]
    intro all
    rw [all, List.drop_length] at some
    exact some rfl

theorem scanWord_append_right (closed : Closed text) (some : text ≠ []) (later : List Byte) :
    (scanWord (text ++ later)).token? = (scanWord text).token? ∧
      (scanWord (text ++ later)).left = (scanWord text).left ++ later := by
  have ends : text.drop ((text.take wordLength).takeWhile fun b => !b.isDelimiter).length ≠ [] := by
    intro empty
    have whole := takeWhile_take_append (fun b => !b.isDelimiter) wordLength text
    rw [empty, List.append_nil] at whole
    obtain ⟨last, is⟩ := Option.ne_none_iff_exists'.1 (mt List.getLast?_eq_none_iff.1 some)
    have delimiter := closed last is
    have member := List.mem_of_getLast? is
    rw [← whole] at member
    have letter := List.all_eq_true.1 List.all_takeWhile _ member
    rw [delimiter] at letter
    cases letter
  obtain ⟨b, rest, dropped⟩ := List.exists_cons_of_ne_nil ends
  have length : ((text.take wordLength).takeWhile fun b => !b.isDelimiter).length ≤ text.length := by
    by_contra beyond
    exact ends (List.drop_eq_nil_of_le (by omega))
  simp only [scanWord, Scan.left, takeWhile_take_append_right ends,
    List.drop_append_of_le_length length, dropped, List.cons_append, List.append_assoc, true_and]

theorem scan_append_right (closed : Closed text) (found : (scan text).token? = some token)
    (later : List Byte) :
    (scan (text ++ later)).token? = some token ∧
      (scan (text ++ later)).left = (scan text).left ++ later := by
  rw [token?_scan] at found
  rw [token?_scan, left_scan, left_scan]
  have start : (skipped text).2 ≠ [] := by
    intro empty
    rw [empty] at found
    cases found
  rw [skipped_append_right start]
  have closed' := closed.of_suffix (suffix_skipped text)
  obtain ⟨b, rest, is⟩ := List.exists_cons_of_ne_nil start
  rw [is] at found closed' ⊢
  cases single : b.token? with
  | some token' =>
    simp only [scanItem, single] at found
    simpa [scanItem, single, Scan.left] using found
  | none =>
    obtain ⟨token', left⟩ := scanWord_append_right closed' (List.cons_ne_nil b rest) later
    simp only [scanItem, single] at found
    rw [found] at token'
    simpa only [scanItem, single, List.cons_append] using And.intro token' left

theorem Token.Lexes.append_right (lexes : Lexes text tokens rest) (closed : Closed text)
    (later : List Byte) : Lexes (text ++ later) tokens (rest ++ later) := by
  induction lexes with
  | done => exact .done
  | next found _ ih =>
    obtain ⟨found', left⟩ := scan_append_right closed found later
    refine .next found' ?_
    rw [left]
    exact ih (closed.of_suffix (suffix_left_scan _))

end

end ArenaLisp
