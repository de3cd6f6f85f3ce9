import ArenaLisp.Proofs.Machine.Transitions

/-!
# The list of the arguments

While a call evaluates its arguments, the list of their values is protected and grows at its end.
Its cells are firm, so that no nested evaluation touches them, and they are young, so that writing
their tails touches nothing that the caller relies on.
-/

namespace ArenaLisp.Machine

open Arena

/-- A machine `n` at work on the arguments of a call that began on `m`: the list of their values,
its cells and the last of them. -/
structure Gathering (m : Machine) (held : Set Value) (n : Machine) (head : Nat) (ids : List Nat)
    (last : Nat) (vs : List Value) : Prop where
  stage : m.Stage held n
  row : n.arena.Row (.cell head) (ids ++ [last]) vs
  firm : ∀ id ∈ ids ++ [last], n.Firm held id
  unbound : ∀ id ∈ ids ++ [last], ¬ n.Binding held id
  unlisted : ∀ id ∈ ids ++ [last], ∀ list, n.Listed held list → ¬ n.arena.OnList list id
  young : ∀ id ∈ ids ++ [last], ¬ m.Firm held id
  pushed : ∃ top, n.stack = .cell top ∧ n.arena.cell top = .pair (.cell head) m.stack

variable {m n k : Machine} {held : Set Value} {v : Value} {vs : List Value} {id head last : Nat}
  {ids : List Nat} {b c : Arena}

theorem Stage.gathering (ready : m.Ready held) (stage : m.Stage held n) (stack : n.stack = m.stack)
    (live : n.arena.Live v) (took : n.arena.TookCell (.pair v .nil) id b) {top : Nat}
    (pushed : b.TookCell (.pair (.cell id) n.stack) top c) :
    Gathering m held { n with arena := c, stack := .cell top } id [] id [v] := by
  have ready' := stage.ready ready
  have taken : b.Taken id := took.taken (fit_pair live (live_nil _))
  have grown := ready'.stage_grows took.grows
  have readyGrown := grown.ready ready'
  have push : Stage { n with arena := b } held { n with arena := c, stack := .cell top } :=
    readyGrown.stage_protect (live_cell_iff.2 taken) pushed
  have content := (pushed.extends.kept id taken).trans took.content
  obtain ⟨unlisted, unbound⟩ := ready'.standing.apart_of_took took
  refine ⟨stage.trans ready (grown.trans ready' push), .cons content .nil, ?_, ?_, ?_, ?_, ?_⟩
  · simp only [List.nil_append, List.mem_singleton, forall_eq]
    exact ⟨.cell top, by simp, .head pushed.content (.here id)⟩
  · simp only [List.nil_append, List.mem_singleton, forall_eq]
    rintro (global | ⟨env, member, here⟩)
    · exact unbound (.inl ((push.evolves.element_iff readyGrown (.inl rfl)).1 global))
    · exact unbound (.inr ⟨env, member,
        (push.evolves.element_iff readyGrown (.inr (.inr member))).1 here⟩)
  · simp only [List.nil_append, List.mem_singleton, forall_eq]
    rintro list (rfl | rfl | member) on
    · exact unlisted _ (.inl rfl) ((push.evolves.onList_iff readyGrown (.inl rfl)).1 on)
    · rcases (onList_cons_iff pushed.content).1 on with rfl | on
      · exact pushed.fresh taken
      · exact unlisted _ (.inr (.inl rfl))
          ((push.evolves.onList_iff readyGrown (.inr (.inl rfl))).1 on)
    · exact unlisted _ (.inr (.inr member))
        ((push.evolves.onList_iff readyGrown (.inr (.inr member))).1 on)
  · simp only [List.nil_append, List.mem_singleton, forall_eq]
    exact fun firm => took.fresh ((stage.firm ready firm).taken stage.sound)
  · exact ⟨top, rfl, stack ▸ pushed.content⟩

theorem Gathering.evolve (ready : m.Ready held) (gathering : Gathering m held n head ids last vs)
    (stage : n.Stage held k) (stack : k.stack = n.stack) :
    Gathering m held k head ids last vs := by
  have ready' := gathering.stage.ready ready
  have e := stage.evolves
  refine ⟨gathering.stage.trans ready stage, gathering.row.congr ?_, ?_, ?_, ?_, gathering.young,
    ?_⟩
  · intro id member
    rcases e.kept id (gathering.firm id member) with same | ⟨binding, -⟩
    · exact same
    · exact absurd binding (gathering.unbound id member)
  · exact fun id member => stage.firm ready' (gathering.firm id member)
  · intro id member binding
    exact gathering.unbound id member (e.oldBinding' ready' (gathering.firm id member) binding)
  · rintro id member list (rfl | rfl | among) on
    · exact gathering.unlisted id member _ (.inl rfl) (e.oldGlobe id (gathering.firm id member) on)
    · exact gathering.unlisted id member _ (.inr (.inl rfl))
        (e.oldStack id (gathering.firm id member) on)
    · exact gathering.unlisted id member _ (.inr (.inr among))
        ((e.onList_iff ready' (.inr (.inr among))).1 on)
  · obtain ⟨top, is, pair⟩ := gathering.pushed
    refine ⟨top, stack.trans is, ?_⟩
    exact (e.same ready' (.inr (.inl rfl)) (is ▸ .here top)).trans pair

theorem last_of_row {a : Arena} (row : a.Row v (ids ++ [last]) vs) :
    ∃ val, a.cell last = .pair val .nil := by
  induction ids generalizing v vs with
  | nil =>
    rcases row with _ | ⟨pair, rest⟩
    cases rest
    exact ⟨_, pair⟩
  | cons first ids ih =>
    rcases row with _ | ⟨-, rest⟩
    exact ih rest

theorem Gathering.append (ready : m.Ready held) (gathering : Gathering m held n head ids last vs)
    (live : n.arena.Live v) (took : n.arena.TookCell (.pair v .nil) id b) :
    Gathering m held { n with arena := b.setCdr last (.cell id) } head (ids ++ [last]) id
      (vs ++ [v]) := by
  have ready' := gathering.stage.ready ready
  have taken : b.Taken id := took.taken (fit_pair live (live_nil _))
  have grown := gathering.evolve ready (ready'.stage_grows took.grows) rfl
  obtain ⟨unlisted, unbound⟩ := ready'.standing.apart_of_took took
  obtain ⟨val, pair⟩ := last_of_row grown.row
  have lastMember : last ∈ ids ++ [last] := by simp
  have other : ∀ {x}, x ∈ ids ++ [last] → x ≠ id := by
    rintro x member rfl
    exact took.fresh ((gathering.firm _ member).taken gathering.stage.sound)
  have binding : ∀ {x}, Binding { n with arena := b.setCdr last (.cell id) } held x →
      Binding { n with arena := b } held x := fun bound =>
    binding_setCdr (grown.unlisted last lastMember) bound
  have onList : ∀ {list x}, Listed { n with arena := b } held list →
      (b.setCdr last (.cell id)).OnList list x → b.OnList list x := fun listed =>
    (onList_congr fun _ along => same_setCdr (grown.unlisted last lastMember) listed along).1
  have firm : ∀ {x}, Firm { n with arena := b } held x →
      Firm { n with arena := b.setCdr last (.cell id) } held x := by
    rintro x ⟨root, among, path⟩
    exact ⟨root, among, path.setCdr pair fun _ => binding⟩
  have distinct : ∀ x ∈ ids, x ≠ last := by
    have nodup := grown.row.nodup
    rw [List.nodup_append] at nodup
    exact fun x member => nodup.2.2 x member last (by simp)
  refine ⟨grown.stage.append (grown.unlisted last lastMember) (grown.young last lastMember)
    (live_cell_iff.2 taken), grown.row.append ?_ ?_ ?_, ?_, ?_, ?_, ?_, ?_⟩
  · exact fun x member => cell_setCdr_of_ne (distinct x member)
  · exact fun head tail here => cell_setCdr_of_pair here
  · exact (cell_setCdr_of_ne (other lastMember).symm).trans took.content
  · intro x member
    rcases List.mem_append.1 member with member | member
    · exact firm (grown.firm x member)
    · rw [List.mem_singleton] at member
      subst member
      refine (firm (grown.firm last lastMember)).trans ?_
      exact .tail (cell_setCdr_of_pair pair) (fun bound => grown.unbound last lastMember
        (binding bound)) (.here _)
  · intro x member bound
    rcases List.mem_append.1 member with member | member
    · exact grown.unbound x member (binding bound)
    · rw [List.mem_singleton] at member
      subst member
      exact unbound (binding bound)
  · intro x member list listed on
    rcases List.mem_append.1 member with member | member
    · exact grown.unlisted x member list listed (onList listed on)
    · rw [List.mem_singleton] at member
      subst member
      exact unlisted list listed (onList listed on)
  · intro x member
    rcases List.mem_append.1 member with member | member
    · exact grown.young x member
    · rw [List.mem_singleton] at member
      subst member
      exact fun firm => took.fresh ((gathering.stage.firm ready firm).taken gathering.stage.sound)
  · obtain ⟨top, is, pair⟩ := grown.pushed
    refine ⟨top, is, ?_⟩
    refine (same_setCdr (grown.unlisted last lastMember) (.inr (.inl rfl)) ?_).trans pair
    exact is ▸ .here top

theorem Gathering.pop (ready : m.Ready held) (gathering : Gathering m held n head ids last vs) :
    m.Stage held { n with stack := n.arena.cdr n.stack } ∧ n.arena.cdr n.stack = m.stack := by
  obtain ⟨top, is, pair⟩ := gathering.pushed
  have rest : n.arena.cdr n.stack = m.stack := by rw [is, cdr_of_pair pair]
  refine ⟨?_, rest⟩
  rw [rest]
  exact gathering.stage.pop ready .refl (is ▸ .next pair .refl)

end ArenaLisp.Machine
