import ArenaLisp.Proofs.Session.Endings

/-!
# Loading and typing agree

A session on a text and the load of a file with that text take the same steps with the arena and the
registers, expression by expression (`alongside_turn`). So as long as the load goes on, the session
shows one result for each expression, and the fault of a load that fails is what the session shows
next, at the same state of the arena (`Machine.run_like_load`).
-/

namespace ArenaLisp

namespace Lisp

open Machine

variable {m n k : Machine} {held : Set Value} {fuel : Nat} {v : Value}

theorem inStep_receive {ahead : Nat} (alike : m.Alike ahead n) :
    InStep ahead receive receive m n := by
  refine (inStep_read alike).bind fun form _ _ _ _ alike' => Discreet.inStep ?_ alike'
  exact .bind (discreet_protect form) fun _ => .pure form

theorem evalNext_receive_apply (ev : Evaluator) (m : Machine) :
    evalNext ev m = match receive m with
      | none => none
      | some (.ok form, k) => (do let result ← ev form .nil; unprotect; return some result : Lisp _) k
      | some (.error .endOfInput, k) => some (.ok none, k)
      | some (.error fault, k) => some (.error fault, k) := by
  rw [evalNext_apply, receive, bind_apply]
  rcases read m with _ | ⟨fault | form, k⟩
  · rfl
  · cases fault <;> rfl
  · dsimp only
    rw [← map_apply, evalKept, map_eq_pure_bind, bind_assoc, bind_apply, bind_apply]
    rcases kept : protect form k with _ | ⟨fault | _, k'⟩
    · rfl
    · have mild := protect_fault kept
      cases fault <;> first | rfl | cases mild
    · dsimp only
      simp only [bind_assoc, pure_bind]
      rfl

/-! ### One turn beside one round of a load -/

/-- What a round of a load says about a turn of a session in an alike machine. -/
inductive Alongside : Option (Except Fault (Option Value) × Machine) →
    Option (Except Fault (Option Shown) × Machine) → Prop where
  | ended {k n : Machine} : k.Alike 0 n → Alongside (some (.ok none, k)) (some (.ok none, n))
  | result {v : Value} {text : String} {k n : Machine} : k.Alike 0 n →
    Alongside (some (.ok (some v), k)) (some (.ok (some (.result text)), n))
  | diagnostic {fault : Fault} {k n : Machine} : Alike 0 { k with stack := .nil } n →
    Alongside (some (.error fault, k)) (some (.ok (some (.diagnostic fault)), n))
  | endless {round : Option (Except Fault (Option Value) × Machine)} : Alongside round none

theorem alongside_turn (ready : n.Ready held) (nil : .nil ∈ held) (alike : m.Alike 0 n) (fuel : Nat) :
    Alongside (evalNext (eval fuel) (m.collect .nil .nil)) (turnShowing fuel n) := by
  have turned := turned_turnShowing ready nil fuel
  have received := inStep_receive <| (alike.collect .nil .nil).write
    (unread_prompt (n.collect .nil .nil))
  have evals : ∀ form {k p}, k.Alike 0 p → InStep 0 (eval fuel form .nil) (eval fuel form .nil) k
      { p with console := p.console.freshLine } := fun form k p alike' =>
    (discreet_eval fuel form .nil).inStep (alike'.write (Console.unread_freshLine _))
  rw [evalNext_receive_apply]
  generalize turnShowing fuel n = turn at turned
  cases turned with
  | ended got =>
    obtain ⟨k, got', alike'⟩ := received.some_right got
    rw [got']
    exact .ended alike'
  | @unread fault p got mild =>
    obtain ⟨k, got', alike'⟩ := received.some_right got
    have shown := alike'.drop.write (p.unread_reported fault)
    rw [got']
    cases fault <;> first | exact .diagnostic shown | cases mild
  | @stopped form fault p q got ran =>
    obtain ⟨k, got', alike'⟩ := received.some_right got
    obtain ⟨k', ran', alikeQ⟩ := (evals form alike').some_right ran
    rw [got']
    dsimp only
    rw [bind_apply, ran']
    exact .diagnostic (alikeQ.drop.write (q.unread_reported fault))
  | @answered form v text p q got ran =>
    obtain ⟨k, got', alike'⟩ := received.some_right got
    obtain ⟨k', ran', alikeQ⟩ := (evals form alike').some_right ran
    rw [got']
    dsimp only
    rw [bind_apply, ran']
    exact .result (alikeQ.pop.write (q.unread_concluded text))
  | endless => exact .endless

/-! ### All turns beside all rounds -/

/-- What the rounds of a load, which begin with some count, say about turns of a session: there is a
result for each expression, up to the first fault. -/
inductive Follows (fuel : Nat) (m n : Machine) (count : Nat) :
    Except Fault Nat → Machine → List Shown → Machine → Prop where
  | loads {texts : List String} {k p : Machine} : k.Alike 0 p →
    Follows fuel m n count (.ok (count + texts.length)) k (texts.map .result) p
  | fails {texts : List String} {fault : Fault} {later : List Shown} {k p before stopped : Machine} :
    evalCounting (eval fuel) texts.length count m = some (.ok (count + texts.length), before) →
    evalCounting (eval fuel) (texts.length + 1) count m = some (.error fault, k) →
    turnsShowing fuel (texts.length + 1) n =
      some (.ok (texts.map .result ++ [.diagnostic fault]), stopped) →
    Alike 0 { k with stack := .nil } stopped →
    Follows fuel m n count (.error fault) k (texts.map .result ++ .diagnostic fault :: later) p

theorem Follows.next {count : Nat} {text : String} {m' n' : Machine} {loaded : Except Fault Nat}
    {k p : Machine} {shown : List Shown}
    (round : evalNext (eval fuel) (m.collect .nil .nil) = some (.ok (some v), m'))
    (turned : turnShowing fuel n = some (.ok (some (.result text)), n'))
    (follows : Follows fuel m' n' (count + 1) loaded k shown p) :
    Follows fuel m n count loaded k (.result text :: shown) p := by
  have rounds : ∀ limit, evalCounting (eval fuel) (limit + 1) count m =
      evalCounting (eval fuel) limit (count + 1) m' := by
    intro limit
    rw [evalCounting_succ_apply, round]
  cases follows with
  | @loads texts _ _ alike =>
    have all := @loads fuel m n count (text :: texts) k p alike
    rwa [List.length_cons, show count + (texts.length + 1) = count + 1 + texts.length by omega] at all
  | @fails texts fault later _ _ before stopped fine failed showed alike =>
    refine @fails fuel m n count (text :: texts) fault later k p before stopped ?_ ?_ ?_ alike
    · rw [List.length_cons, rounds, fine]
      congr 3
      omega
    · rw [List.length_cons, rounds, failed]
    · rw [List.length_cons, turnsShowing_succ_apply, turned]
      dsimp only
      rw [showed]
      rfl

theorem follows_turns {limit : Nat} {shown : List Shown} {p : Machine} (ready : n.Ready held)
    (nil : .nil ∈ held) (alike : m.Alike 0 n) (count : Nat)
    (ran : turnsShowing fuel limit n = some (.ok shown, p)) :
    ∃ loaded k, evalCounting (eval fuel) limit count m = some (loaded, k) ∧
      Follows fuel m n count loaded k shown p := by
  induction limit generalizing m n held count shown with
  | zero =>
    cases ran
    exact ⟨_, m, rfl, @Follows.loads fuel m p count [] m p alike⟩
  | succ limit ih =>
    have alongside := alongside_turn ready nil alike fuel
    rw [turnsShowing_succ_apply] at ran
    generalize evaluated : evalNext (eval fuel) (m.collect .nil .nil) = round at alongside
    generalize turned : turnShowing fuel n = turn at alongside
    rw [evalCounting_succ_apply, evaluated]
    rw [turned] at ran
    cases alongside with
    | @ended k _ alike' =>
      cases ran
      exact ⟨_, k, rfl, @Follows.loads fuel m n count [] k _ alike'⟩
    | @result v text k n' alike' =>
      obtain ⟨⟨rest, p'⟩, ran', is⟩ := Option.map_eq_some_iff.1 ran
      rcases rest with fault | rest
      · cases is
      cases is
      obtain ⟨held', ready', nil'⟩ := ready_turnShowing nil ready turned
      obtain ⟨loaded, q, rounds, follows⟩ := ih ready' nil' alike' (count + 1) ran'
      exact ⟨loaded, q, rounds, follows.next evaluated turned⟩
    | @diagnostic fault k n' alike' =>
      obtain ⟨⟨rest, p'⟩, ran', is⟩ := Option.map_eq_some_iff.1 ran
      rcases rest with fault | rest
      · cases is
      cases is
      refine ⟨_, k, rfl, @Follows.fails fuel m n count [] fault rest k _ m n' rfl ?_ ?_ alike'⟩
      · rw [List.length_nil, evalCounting_succ_apply, evaluated]
      · rw [List.length_nil, turnsShowing_succ_apply, turned]
        rfl
    | endless => cases ran

/-! ### Loads with larger bounds -/

theorem approximates_evalNext {ev ev' : Evaluator}
    (approx : ∀ form env, Approximates (ev form env) (ev' form env)) :
    Approximates (evalNext ev) (evalNext ev') := by
  refine .next fun form => ?_
  cases form with
  | none => exact .refl _
  | some form => exact .next fun _ => .bind (approx form .nil) fun _ => .refl _

theorem approximates_evalCounting {ev ev' : Evaluator}
    (approx : ∀ form env, Approximates (ev form env) (ev' form env)) (limit count : Nat) :
    Approximates (evalCounting ev limit count) (evalCounting ev' limit count) := by
  induction limit generalizing count with
  | zero => exact .refl _
  | succ limit ih =>
    refine .next fun _ => .bind (approximates_evalNext approx) fun result => ?_
    cases result with
    | none => exact .refl _
    | some _ => exact ih (count + 1)

theorem approximates_load {fuel' : Nat} (more : fuel ≤ fuel') (contents : List Byte) :
    Approximates (load fuel contents) (load fuel' contents) := by
  intro m outcome k ran
  rw [load_eq_loadAtMost, loadAtMost_apply] at ran ⊢
  obtain ⟨⟨loaded, p⟩, counted, is⟩ := Option.map_eq_some_iff.1 ran
  rw [approximates_evalCounting (approximates_eval more) _ 0 counted, ← is]
  rfl

end Lisp

namespace Machine

/-- A machine at a new console on a text, with settings of how a session looks. -/
def typing (m : Machine) (contents : List Byte) (echo banner freespace : Bool) : Machine :=
  { m with
    console := { Console.ofBytes contents with echo }
    settings := { m.settings with echo, banner, freespace } }

theorem Ready.goesOn_typing {m : Machine} {held : Set Value} (ready : m.Ready held)
    (contents : List Byte) (echo banner freespace : Bool) :
    m.GoesOn held (m.typing contents echo banner freespace) :=
  ⟨ready.stage_same rfl rfl rfl rfl, rfl⟩

theorem unread_greet (m : Machine) : m.greet.console.unread = m.console.unread := by
  rcases m with ⟨arena, console, settings, globe, stack, tee, interrupted, collections⟩
  show (if settings.banner then (console.putText Settings.bannerText).endLine else console).unread =
    console.unread
  split
  · rw [Console.endLine, Console.unread_put, Console.unread_putText]
  · rfl

open Lisp

/-- What a session beside a load of the same text shows and comes to. If the load succeeds, there are
as many results as expressions, and no diagnostic. If it fails, the first diagnostic is its fault,
after as many results as expressions were loaded before, and the session stood then where the load
stopped. -/
inductive LikeLoad (fuel : Nat) (contents : List Byte) (m session : Machine) :
    Except Fault Nat → Machine → List Shown → Machine → Prop where
  | loads {texts : List String} {loaded after : Machine} : loaded.Coincides 0 after →
    LikeLoad fuel contents m session (.ok texts.length) loaded (texts.map .result) after
  | fails {texts : List String} {fault : Fault} {later : List Shown}
    {before failed stopped after : Machine} :
    loadAtMost fuel texts.length contents m = some (.ok texts.length, before) →
    loadAtMost fuel (texts.length + 1) contents m = some (.error fault, failed) →
    turnsShowing fuel (texts.length + 1) session.greet =
      some (.ok (texts.map .result ++ [.diagnostic fault]), stopped) →
    failed.Coincides 0 stopped → stopped.stack = .nil →
    LikeLoad fuel contents m session (.error fault) failed
      (texts.map .result ++ .diagnostic fault :: later) after

variable {n : Machine}

theorem like_load_of_run {m : Machine} (standing : m.Standing {.nil}) {fuel : Nat}
    {contents : List Byte} {echo banner freespace : Bool} {outcome : Except Fault Unit}
    (ran : Lisp.run fuel (m.typing contents echo banner freespace) = some (outcome, n)) :
    outcome = .ok () ∧ ∃ shown loaded k,
      runShowing fuel (m.typing contents echo banner freespace) = some (.ok shown, n) ∧
      Transcribes (m.typing contents echo banner freespace).settings echo shown
        (Console.ofBytes contents).pending n.console.output.toList ∧
      load fuel contents m = some (loaded, k) ∧
      LikeLoad fuel contents m (m.typing contents echo banner freespace) loaded k shown n := by
  have ready := standing.ready
  have nil : .nil ∈ m.protectedOf {.nil} := ⟨rfl, .inl rfl⟩
  set session := m.typing contents echo banner freespace
  -- the load works on a machine that is alike when the banner is written
  let loading := { m with console := Console.ofBytes contents }
  have readyS := (ready.goesOn_typing contents echo banner freespace).ready ready
  have readyG := readyS.goesOn_greet.ready readyS
  have unread : session.greet.console.unread = loading.console.unread := unread_greet session
  have alike : loading.Alike 0 session.greet :=
    ⟨rfl, rfl, rfl, rfl, rfl, rfl, rfl, Console.onward_congr unread⟩
  have length : session.greet.console.unread.length = contents.length := by
    rw [unread]
    exact List.length_map _
  rw [run_eq_showing, map_apply] at ran
  obtain ⟨⟨showing, k⟩, shows, is⟩ := Option.map_eq_some_iff.1 ran
  cases is
  have turns := runShowing_apply fuel session
  rw [shows, length] at turns
  rcases turned : turnsShowing fuel (contents.length + 1) session.greet with _ | ⟨showing', p⟩
  · rw [turned] at turns
    cases turns
  obtain ⟨shown, rfl⟩ := turnsShowing_ok readyG nil turned
  rw [turned] at turns
  cases turns
  obtain ⟨written, transcript, output⟩ := transcribes_runShowing readyS nil shows
  replace output : p.console.freshLine.output.toList = written := output
  rw [← output] at transcript
  obtain ⟨loaded, q, rounds, follows⟩ := follows_turns readyG nil alike 0 turned
  have whole := load_eq_loadAtMost fuel contents m
  rw [loadAtMost_apply, rounds] at whole
  cases follows with
  | @loads texts _ _ alike' =>
    rw [Nat.zero_add] at whole
    exact ⟨rfl, _, _, _, shows, transcript, whole, .loads (alike'.write rfl).coincides⟩
  | @fails texts fault later _ _ before stopped fine failed showed alike' =>
    refine ⟨rfl, _, _, _, shows, transcript, whole, ?_⟩
    refine @LikeLoad.fails fuel contents m session texts fault later
      { before with console := m.console } _ stopped _ ?_ ?_ showed ?_ alike'.stack
    · rw [loadAtMost_apply, fine, Nat.zero_add]
      rfl
    · rw [loadAtMost_apply, failed]
      rfl
    · exact alike'.coincides

/-- In any machine in good standing, as all are that a host comes to (`Run.standing`), a session on a
text whose expressions are evaluated and printed to an end comes to its end with no fault, and what it
shows is what a load of a file with that text comes to, whatever the session looks like. All that it
writes is a transcript of what it shows. -/
theorem run_like_load {m : Machine} (standing : m.Standing {.nil}) {contents : List Byte}
    {echo banner freespace : Bool}
    (responds : ∀ k, Relation.ReflTransGen Proceeds (m.typing contents echo banner freespace).greet k →
      Responds k) :
    ∃ (n k : Machine) (shown : List Shown) (loaded : Except Fault Nat),
      Transcribes (m.typing contents echo banner freespace).settings echo shown
        (Console.ofBytes contents).pending n.console.output.toList ∧
      ∃ fuel, ∀ fuel' ≥ fuel,
        Lisp.run fuel' (m.typing contents echo banner freespace) = some (.ok (), n) ∧
        runShowing fuel' (m.typing contents echo banner freespace) = some (.ok shown, n) ∧
        load fuel' contents m = some (loaded, k) ∧
        LikeLoad fuel' contents m (m.typing contents echo banner freespace) loaded k shown n := by
  have ready := standing.ready
  have nil : .nil ∈ m.protectedOf {.nil} := ⟨rfl, .inl rfl⟩
  set session := m.typing contents echo banner freespace
  have readyS := (ready.goesOn_typing contents echo banner freespace).ready ready
  obtain ⟨n, -, -, fuel, ran⟩ := session_ends readyS nil responds
  obtain ⟨-, shown, loaded, k, shows, transcript, loads, -⟩ :=
    like_load_of_run standing (ran fuel le_rfl)
  refine ⟨_, k, shown, loaded, transcript, fuel, fun fuel' more => ?_⟩
  obtain ⟨-, shown', loaded', k', shows', -, loads', like⟩ := like_load_of_run standing (ran fuel' more)
  -- a larger bound changes neither what is shown nor what is loaded
  cases (approximates_runShowing more shows).symm.trans shows'
  cases (approximates_load more contents loads).symm.trans loads'
  exact ⟨ran fuel' more, shows', loads', like⟩

/-- A pair, a symbol without a value, a symbol, and an expression that is not finished. -/
def mistaken : List Byte :=
  Utf8.encode "(CONS T T) B T (CAR"

/-- What the first session of a machine shows on a text. -/
def firstShown (contents : List Byte) : Option (Option (List Shown)) :=
  match Machine.new { workspace := 20, threshold := 12 } { pending := [] } with
  | .ok m => (runShowing 8 (m.typing contents true true true)).map (·.1.toOption)
  | .error _ => none

theorem run_like_load_mistaken :
    ∃ (m n k : Machine) (loaded : Except Fault Nat) (fuel : Nat), m.Standing {.nil} ∧
      (∀ p, Relation.ReflTransGen Proceeds (m.typing mistaken true true true).greet p → Responds p) ∧
      Lisp.run fuel (m.typing mistaken true true true) = some (.ok (), n) ∧
      load fuel mistaken m = some (loaded, k) ∧
      LikeLoad fuel mistaken m (m.typing mistaken true true true) loaded k
        [.result "(T . T)", .diagnostic (.undefined "B"), .result "T"] n := by
  have showing : firstShown mistaken =
      some (some [.result "(T . T)", .diagnostic (.undefined "B"), .result "T"]) := by
    decide +kernel
  unfold firstShown at showing
  split at showing
  · rename_i m new
    obtain ⟨⟨outcome, p⟩, shows, same⟩ := Option.map_eq_some_iff.1 showing
    rcases outcome with fault | shown
    · cases same
    have standing := standing_new new
    have ended : Lisp.run 8 (m.typing mistaken true true true) ≠ none := by
      rw [run_eq_showing, map_apply, shows]
      exact Option.some_ne_none _
    have readyS := (standing.ready.goesOn_typing mistaken true true true).ready standing.ready
    have responds := fun p => responds_of_run (k := p) readyS ⟨rfl, .inl rfl⟩ ended
    obtain ⟨n, k, shown', loaded, -, fuel, all⟩ := run_like_load standing responds
    obtain ⟨ran, shows', loads, like⟩ := all (max fuel 8) (le_max_left ..)
    cases (approximates_runShowing (le_max_right fuel 8) shows).symm.trans shows'
    cases same
    exact ⟨m, p, k, loaded, max fuel 8, standing, responds, ran, loads, like⟩
  · cases showing

end Machine

end ArenaLisp
