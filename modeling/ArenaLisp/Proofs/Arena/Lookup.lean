import ArenaLisp.Proofs.Arena.Storing

/-!
# Looking names up

What is found along a list is one of its elements, so an assignment rewrites a binding of the
environment or a global one. A definition does that, or it puts a binding on top (`define_cases`).
-/

namespace ArenaLisp.Arena

variable {a : Arena} {name : Symbol} {env globe : Value} {id : Nat}

theorem element_of_lookupWithin {n : Nat} (h : a.lookupWithin name n env = .found id) :
    a.Element env (.cell id) := by
  induction n generalizing env with
  | zero => simp [lookupWithin] at h
  | succ n ih =>
    unfold lookupWithin at h
    split at h
    · rename_i entry rest content
      obtain ⟨list, rfl⟩ : ∃ list, env = .cell list := by
        cases env with
        | nil => simp at content
        | cell list => exact ⟨list, rfl⟩
      have pair : a.cell list = .pair (.cell entry) rest := by simpa using content
      split at h
      · cases h
        exact (element_cons_iff pair).2 (.inl rfl)
      · exact (element_cons_iff pair).2 (.inr (ih h))
    · rename_i rest content
      obtain ⟨list, rfl⟩ : ∃ list, env = .cell list := by
        cases env with
        | nil => simp at content
        | cell list => exact ⟨list, rfl⟩
      have pair : a.cell list = .pair .nil rest := by simpa using content
      exact (element_cons_iff pair).2 (.inr (ih h))
    · cases h

theorem element_of_lookup (h : a.lookup name env = .found id) : a.Element env (.cell id) :=
  element_of_lookupWithin h

theorem element_of_lookupEither (h : a.lookupEither name env globe = .found id) :
    a.Element env (.cell id) ∨ a.Element globe (.cell id) := by
  unfold lookupEither at h
  split at h
  · exact .inr (element_of_lookup h)
  · exact .inl (element_of_lookup h)

theorem element_of_findBinding {var : Value} (h : a.findBinding var env globe = some (.ok id)) :
    a.Element env (.cell id) ∨ a.Element globe (.cell id) := by
  unfold findBinding at h
  split at h
  · cases rendered : a.render var <;> simp [rendered] at h
  · rename_i name _
    split at h
    · rename_i found
      simp only [Option.some.injEq, Except.ok.injEq] at h
      subst h
      exact element_of_lookupEither found
    · cases rendered : a.render var <;> simp [rendered] at h
    · cases h

theorem fault_of_findBinding {var : Value} {fault : Fault}
    (h : a.findBinding var env globe = some (.error fault)) :
    (∃ form, fault = .notASymbol form) ∨ ∃ form, fault = .unknownVariable form := by
  unfold findBinding at h
  split at h
  · obtain ⟨form, -, same⟩ := Option.map_eq_some_iff.1 h
    cases same
    exact .inl ⟨form, rfl⟩
  · split at h
    · simp at h
    · obtain ⟨form, -, same⟩ := Option.map_eq_some_iff.1 h
      cases same
      exact .inr ⟨form, rfl⟩
    · cases h

theorem define_cases {var val : Value} {result : Except Fault Value} {b : Arena}
    (sound : a.Sound) (live : a.Live globe) (val' : a.Live val)
    (h : define var val globe a = some (result, b)) :
    (∃ form, result = .error (.notASymbol form) ∧ b = a) ∨
      (∃ binding, a.Live var ∧ a.Element globe (.cell binding) ∧ result = .ok globe ∧
        b = a.setCdr binding val) ∨
      (∃ name v, a.Live var ∧ a.symbol? var = some name ∧ a.lookup name globe = .absent ∧
        result = .ok v ∧ a.BoundOn var val globe v b) ∨
      ∃ fault, result = .error fault ∧ a.OutOfRoom fault b := by
  unfold define at h
  split at h
  · obtain ⟨form, -, same⟩ := Option.map_eq_some_iff.1 h
    cases same
    exact .inl ⟨form, rfl, rfl⟩
  · rename_i name symbol
    have var' : a.Live var := by
      obtain ⟨id, rfl, content⟩ := symbol?_eq_some_iff.1 symbol
      exact live_cell_iff.2 (taken_of_symbol content)
    split at h
    · rename_i binding found
      cases h
      exact .inr (.inl ⟨binding, var', element_of_lookup found, rfl, rfl⟩)
    · rename_i absent
      have ensures := ensures_bindOn sound var' val' live
      unfold Storing.Ensures at ensures
      have run := Option.some.inj h
      rw [run] at ensures
      rcases result with fault | v
      · exact .inr (.inr (.inr ⟨fault, rfl, ensures⟩))
      · exact .inr (.inr (.inl ⟨name, v, var', symbol, absent, rfl, ensures⟩))
    · cases h

end ArenaLisp.Arena
