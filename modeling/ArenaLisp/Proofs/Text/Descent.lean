import ArenaLisp.Proofs.Text.Intake

/-!
# Reading by descent

Frames that are open outside an expression take no part in reading it (`Reading.readOn_append`). So a
read goes down into the expressions it consists of: what it makes of a quote, a list or a dotted tail is
told by the reads of the parts (`Reading.readOn_nil_eq`, `Reading.readOn_list_eq`).
-/

namespace ArenaLisp

open Token Storing

namespace Reading

variable {frames inner outer : List Frame} {a b : Arena} {c d : Console} {v w : Value} {token : Token}

/-! ### Outcomes -/

/-- What a read comes to: a value or a fault, and the console and the arena after it. -/
abbrev Result := Except Fault Value × Console × Arena

namespace Result

variable {outcome : Result} {next : Value → Console → Arena → Result}

/-- Goes on with the value, if there is one. -/
def andThen (outcome : Result) (next : Value → Console → Arena → Result) : Result :=
  match outcome with
  | (.error fault, c, a) => (.error fault, c, a)
  | (.ok v, c, a) => next v c a

/-- Takes cells, and no characters. -/
def storing (f : Storing Value) (c : Console) (a : Arena) : Result :=
  match f.run a with
  | (.error fault, a) => (.error fault, c, a)
  | (.ok v, a) => (.ok v, c, a)

theorem andThen_ok (ok : (outcome.andThen next) = (.ok w, d, b)) :
    ∃ v c a, outcome = (.ok v, c, a) ∧ next v c a = (.ok w, d, b) := by
  rcases outcome with ⟨fault | v, c, a⟩
  · cases ok
  · exact ⟨v, c, a, rfl, ok⟩

theorem storing_ok {f : Storing Value} (made : storing f c a = (.ok w, d, b)) :
    f.run a = (.ok w, b) := by
  unfold storing at made
  rcases ran : f.run a with ⟨fault | v, a'⟩ <;> rw [ran] at made <;> cases made
  rfl

theorem console_storing {f : Storing Value} {result : Except Fault Value}
    (made : storing f c a = (result, d, b)) : d = c := by
  unfold storing at made
  split at made <;> cases made <;> rfl

theorem storing_bind (f : Storing Value) (g : Value → Storing Value) (c : Console) (a : Arena) :
    storing (f >>= g) c a = (storing f c a).andThen fun v => storing (g v) := by
  simp only [storing, andThen, run_bind]
  rcases f.run a with ⟨_ | _, _⟩ <;> rfl

end Result

open Result

/-! ### Reading on -/

/-- Reads on in some open frames, up to the end of the expression. -/
def readOn (frames : List Frame) (c : Console) (a : Arena) : Result :=
  run (c.unread.length + 1) frames c a

/-- Goes on from how far a read has come with a token. -/
def goOn (stepped : Storing Reading) (c : Console) (a : Arena) : Result :=
  match stepped.run a with
  | (.error fault, a) => (.error fault, c, a)
  | (.ok (.complete v), a) => (.ok v, c, a)
  | (.ok (.within frames), a) => readOn frames c a

theorem readOn_nil (c : Console) (a : Arena) : readOn [] c a = c.read a := rfl

theorem readOn_eq (frames : List Frame) (c : Console) (a : Arena) :
    readOn frames c a = match c.nextToken with
      | (none, d) => (.error .endOfInput, d, a)
      | (some token, d) => goOn (step token frames) d a := by
  rw [readOn, run]
  rcases taken : c.nextToken with ⟨_ | token, d⟩
  · rfl
  · dsimp only [goOn]
    rcases (step token frames).run a with ⟨_ | _ | _, b⟩
    · rfl
    · rfl
    · exact run_eq_of_lt (Console.length_of_nextToken taken) (Nat.lt_succ_self _)

theorem length_of_readOn {result : Except Fault Value} (read : readOn frames c a = (result, d, b)) :
    d.unread.length ≤ c.unread.length := by
  have length := (length_run (c.unread.length + 1) frames c a).1
  rwa [← readOn, read] at length

theorem goOn_bind (f : Storing Value) (next : Value → Storing Reading) (c : Console) (a : Arena) :
    goOn (f >>= next) c a = (storing f c a).andThen fun v => goOn (next v) := by
  simp only [goOn, storing, andThen, run_bind]
  rcases f.run a with ⟨_ | _, _⟩ <;> rfl

/-! ### Frames outside an expression -/

/-- What frames outside make of how far a read has come. -/
def enclose (outer : List Frame) : Reading → Storing Reading
  | .complete v => deliver v outer
  | .within frames => pure (.within (frames ++ outer))

theorem deliver_append (v : Value) (inner outer : List Frame) :
    deliver v (inner ++ outer) = deliver v inner >>= enclose outer := by
  induction inner generalizing v with
  | nil => simp [deliver, enclose]
  | cons frame inner ih =>
    cases frame with
    | quoted => simp [deliver, ih]
    | list => simp [deliver, enclose]
    | dotted => simp [deliver, enclose]
    | remainder elements tail =>
      by_cases empty : v = .nil
      · simp [deliver, empty, ih]
      · simp only [List.cons_append, deliver, if_neg empty]
        rfl

/-- Where the dot of a list cannot be meant for a list outside. -/
def Apart (inner outer : List Frame) : Prop :=
  inner = [] → ∀ elements frames, outer ≠ .list elements :: frames

theorem step_apart (apart : Apart [] outer) (mark : token = .closing ∨ token = .dot) :
    step token outer = step token [] >>= enclose outer := by
  rcases mark with rfl | rfl
  all_goals
    rcases outer with _ | ⟨_ | elements | _ | _, outer⟩
    · rfl
    · rfl
    · exact absurd rfl (apart rfl elements outer)
    · rfl
    · rfl

theorem step_append (token : Token) (apart : Apart inner outer) :
    step token (inner ++ outer) = step token inner >>= enclose outer := by
  cases token with
  | opening => simp [step, enclose]
  | quote => simp [step, enclose]
  | word letters => simp [step, deliver_append]
  | closing =>
    rcases inner with _ | ⟨frame, inner⟩
    · exact step_apart apart (.inl rfl)
    · cases frame with
      | list elements => simp [step, deliver_append]
      | _ => rfl
  | dot =>
    rcases inner with _ | ⟨frame, inner⟩
    · exact step_apart apart (.inr rfl)
    · cases frame <;> simp [step, enclose]

theorem deliver_ne_within_nil (v : Value) (frames : List Frame) (a : Arena) :
    Ensures (deliver v frames) a (fun reading _ => reading ≠ .within []) fun _ _ => True := by
  induction frames generalizing v a with
  | nil => exact Reading.noConfusion
  | cons frame frames ih =>
    cases frame with
    | quoted =>
      rw [deliver, ensures_bind]
      exact (mild_makeQuoted v a).mono (fun v b _ => ih v b) fun _ _ _ => trivial
    | list elements => exact fun same => by cases same
    | dotted elements => exact fun same => by cases same
    | remainder elements tail =>
      rw [deliver]
      split
      · rw [ensures_bind]
        exact (mild_makeList elements tail a).mono (fun v b _ => ih v b) fun _ _ _ => trivial
      · trivial

theorem step_ne_within_nil (begun : inner ≠ []) (token : Token) (a : Arena) :
    Ensures (step token inner) a (fun reading _ => reading ≠ .within []) fun _ _ => True := by
  obtain ⟨frame, frames, rfl⟩ := List.exists_cons_of_ne_nil begun
  cases token with
  | opening => exact fun same => by cases same
  | quote => exact fun same => by cases same
  | word letters =>
    rw [step, ensures_bind]
    exact (mild_makeWord letters a).mono (fun v b _ => deliver_ne_within_nil v _ b)
      fun _ _ _ => trivial
  | closing =>
    cases frame with
    | list elements =>
      rw [step, ensures_bind]
      exact (mild_makeList elements .nil a).mono (fun v b _ => deliver_ne_within_nil v _ b)
        fun _ _ _ => trivial
    | _ => trivial
  | dot => cases frame <;> exact fun same => by cases same

theorem Apart.step (apart : Apart inner outer) (token : Token) (a : Arena) :
    Ensures (Reading.step token inner) a (fun reading _ => ∀ frames, reading = .within frames →
      Apart frames outer) fun _ _ => True := by
  by_cases begun : inner = []
  · exact (mild_step token inner a).mono (fun _ _ _ _ _ _ => apart begun) fun _ _ _ => trivial
  · refine (step_ne_within_nil begun token a).mono ?_ fun _ _ _ => trivial
    rintro _ b none frames rfl rfl
    exact absurd rfl none

/-- An expression is read the same inside other frames, and then handed to them. -/
theorem readOn_append (apart : Apart inner outer) (c : Console) (a : Arena) :
    readOn (inner ++ outer) c a =
      (readOn inner c a).andThen fun v => goOn (deliver v outer) := by
  induction size : c.unread.length using Nat.strong_induction_on generalizing c a inner with
  | _ size ih =>
    rw [readOn_eq, readOn_eq inner]
    rcases taken : c.nextToken with ⟨_ | token, d⟩
    · rfl
    -- the token does to the inner frames what it does to all, and leaves them apart from the others
    · have still := apart.step token a
      unfold Ensures at still
      simp only [step_append token apart, goOn, run_bind]
      rcases stepped : (step token inner).run a with ⟨_ | v | frames, b⟩
      · rfl
      · rfl
      · rw [stepped] at still
        exact ih _ (size ▸ Console.length_of_nextToken taken) (still frames rfl) d b rfl

/-! ### Descending -/

theorem goOn_deliver_nil (f : Storing Value) (c : Console) (a : Arena) :
    goOn (f >>= fun v => deliver v []) c a = storing f c a := by
  rw [goOn_bind]
  rcases storing f c a with ⟨_ | _, _, _⟩ <;> rfl

theorem goOn_deliver_list (f : Storing Value) (elements : List Value) (c : Console) (a : Arena) :
    goOn (f >>= fun v => deliver v [.list elements]) c a =
      (storing f c a).andThen fun v => readOn [.list (v :: elements)] :=
  goOn_bind ..

/-- Reads the expression that begins with a token. -/
def begun (token : Token) (c : Console) (a : Arena) : Result :=
  match token with
  | .opening => readOn [.list []] c a
  | .closing => (.error .unmatchedRightBracket, c, a)
  | .quote => (readOn [] c a).andThen fun v => storing (makeQuoted v)
  | .dot => readOn [] c a
  | .word letters => storing (makeWord letters) c a

theorem readOn_quoted (c : Console) (a : Arena) : readOn [.quoted] c a = begun .quote c a := by
  refine (@readOn_append [] [.quoted] (by simp [Apart]) c a).trans ?_
  congr 1
  funext v d b
  exact goOn_deliver_nil ..

theorem readOn_nil_eq (c : Console) (a : Arena) :
    readOn [] c a = match c.nextToken with
      | (none, d) => (.error .endOfInput, d, a)
      | (some token, d) => begun token d a := by
  rw [readOn_eq]
  rcases c.nextToken with ⟨_ | _ | _ | _ | _ | letters, d⟩
  · rfl
  · rfl
  · rfl
  · exact readOn_quoted d a
  · rfl
  · exact goOn_deliver_nil ..

theorem readOn_list_eq (elements : List Value) (c : Console) (a : Arena) :
    readOn [.list elements] c a = match c.nextToken with
      | (none, d) => (.error .endOfInput, d, a)
      | (some .closing, d) => storing (makeList elements .nil) d a
      | (some .dot, d) => (readOn [] d a).andThen fun tail d b =>
        (readOn [.list []] d b).andThen fun remainder d b =>
          if remainder = .nil then storing (makeList elements tail) d b
          else (.error .malformedList, d, b)
      | (some token, d) => (begun token d a).andThen fun v => readOn [.list (v :: elements)] := by
  rw [readOn_eq]
  rcases c.nextToken with ⟨_ | _ | _ | _ | _ | letters, d⟩
  · rfl
  · exact @readOn_append [.list []] [.list elements] (by simp [Apart]) d a
  · exact goOn_deliver_nil ..
  · refine (@readOn_append [.quoted] [.list elements] (by simp [Apart]) d a).trans ?_
    rw [readOn_quoted]
    rfl
  -- after a dot, first the tail is read and then what is left of the list, as a list of its own
  · refine (@readOn_append [] [.dotted elements] (by simp [Apart]) d a).trans ?_
    congr 1
    funext tail d b
    refine (@readOn_append [.list []] [.remainder elements tail] (by simp [Apart]) d b).trans ?_
    congr 1
    funext remainder d b
    split
    · rename_i empty
      rw [deliver, if_pos empty]
      exact goOn_deliver_nil ..
    · rename_i some
      rw [deliver, if_neg some]
      rfl
  · exact goOn_deliver_list ..

theorem length_of_begun {result : Except Fault Value} (read : begun token c a = (result, d, b)) :
    d.unread.length ≤ c.unread.length := by
  cases token with
  | opening => exact length_of_readOn read
  | closing =>
    cases read
    exact le_rfl
  | quote =>
    rw [begun] at read
    rcases first : readOn [] c a with ⟨fault | v, c', a'⟩
    · rw [first] at read
      cases read
      exact length_of_readOn first
    · rw [first] at read
      obtain rfl := console_storing read
      exact length_of_readOn first
  | dot => exact length_of_readOn read
  | word letters =>
    obtain rfl := console_storing read
    exact le_rfl

end Reading

end ArenaLisp
