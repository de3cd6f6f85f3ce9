import ArenaLisp.Proofs.Arena.Tables
import ArenaLisp.Proofs.Machine.Courses

/-!
# The global environment as a map

A move leaves the global environment alone, and an update replaces a value in it or puts a row for a new
name in front (`Course.defines`).
-/

namespace ArenaLisp.Machine

open Arena

structure Defines (m : Machine) (rows : List Entry) : Prop where
  table : m.arena.Table m.globe rows
  distinct : (rows.map Entry.name).Nodup

variable {settled : Set Nat} {updates : Prop} {m n : Machine} {rows : List Entry}

theorem Move.table (move : Move settled m n) (table : m.arena.Table m.globe rows) :
    n.arena.Table n.globe rows := by
  cases move with
  | collect sound live liveEnv =>
    -- the global environment is one of the roots
    have kept : ∀ {id}, m.arena.Reaches m.globe id → _ := fun path =>
      cell_collect sound.arena.plain (fun _ reached =>
        sound.taken_of_reachable live liveEnv reached) ⟨m.globe, by simp, path⟩
    refine table.same fun e member => ?_
    obtain ⟨list, binding, key⟩ := table.reaches member
    exact ⟨kept list, kept binding, kept key⟩
  | grow grows => exact table.extends' grows.extends'
  | write _ unlisted => exact table.setCdr unlisted
  | keep arena _ globe => exact arena ▸ globe ▸ table

theorem Update.defines (update : m.Update n) (defines : m.Defines rows) :
    ∃ new, n.Defines (new ++ rows) := by
  cases update with
  | assign _ unlisted => exact ⟨[], defines.table.setCdr unlisted, defines.distinct⟩
  | define symbol absent bound =>
    obtain ⟨e, rfl, table⟩ := defines.table.bindOn symbol bound
    exact ⟨[e], table, List.nodup_cons.2 ⟨defines.table.not_mem_of_absent absent,
      defines.distinct⟩⟩

theorem Step.defines (step : Step settled updates m n) (defines : m.Defines rows) :
    ∃ new, n.Defines (new ++ rows) := by
  rcases step with move | ⟨-, update⟩
  · exact ⟨[], move.table defines.table, defines.distinct⟩
  · exact update.defines defines

/-- The rows of the global environment are there after any course of moves and updates, and new ones
are in front of them. -/
theorem Course.defines (course : Course settled updates m n) (defines : m.Defines rows) :
    ∃ new, n.Defines (new ++ rows) := by
  induction course with
  | refl => exact ⟨[], defines⟩
  | tail _ step ih =>
    obtain ⟨new, defines⟩ := ih
    obtain ⟨newer, defines⟩ := step.defines defines
    exact ⟨newer ++ new, by rwa [List.append_assoc]⟩

end ArenaLisp.Machine
