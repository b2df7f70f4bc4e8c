import BanglaScript.Proofs.Script.Told

/-!
# Names that functions share with the program

Where the program itself uses a name outside of its functions, the plan of the
program has it, and the name is visible wherever a function mentions it.  So no
function introduces the name again, and the program introduces it once.
-/

namespace BanglaScript

namespace Emit

variable {name : String} {sentence : Sentence} {code : List Node}

/-- Nothing is known in front of a program. -/
theorem isFresh_program : IsFresh {} [] := ⟨fun _ => Iff.rfl, rfl, rfl⟩

/-- The head of a body binds the names that are introduced there. -/
theorem bindings_headed (plan : Introductions) (outer : List String) (depth : Nat)
    (lines : Draft) :
    bindings name (headed plan depth lines) =
      bindings name lines + timesIntroduced name (atHead plan outer) := by
  unfold headed timesIntroduced
  split
  · rename_i none
    have missing : name ∉ (atHead plan outer).introduced := by
      rw [atHead, List.isEmpty_iff.mp none]
      exact List.not_mem_nil
    rw [if_neg missing]
    rfl
  · change bindings name (Draft.line depth (.introduce plan.hoisted) ++ lines) = _
    rw [bindings_append, Nat.add_comm]
    congr 1
    split
    · rename_i hoisted
      exact List.countP_cons_of_pos (decide_eq_true hoisted)
    · rename_i other
      exact bindings_eq_zero fun binds => other (binds_line.mp binds)

section

variable (own : IsOwnName name) (written : Node.areWritten code)

include own written

/-- A name of the plan of the program is bound by one line at most. -/
theorem bindings_ofNodes_le_one (planned : name ∈ (Introductions.ofBody code [] 0).hoisted ∨
      name ∈ (Introductions.ofBody code [] 0).inline) : bindings name (Draft.ofNodes code) ≤ 1 := by
  have fits := Introductions.fits_ofBody code [] 0
  rw [Draft.ofNodes, bindings_headed _ []]
  rcases planned with hoisted | inline
  · rw [bindings_eq_zero, Nat.zero_add]
    · exact timesIntroduced_le_one _
    · intro binds
      obtain ⟨inline | hidden, _⟩ := bindsOnly_nodes own code _ 0 0 _ binds
      · exact (fits.hoisted name hoisted).2 inline
      · exact hidden (List.mem_append_left _ hoisted)
  · have leads := leadsThrough_nodes code written 0 0 (stands_belowHead isFresh_program) fits
      List.prefix_rfl
    exact Nat.le_trans (Nat.le_of_eq (leads.counts name own inline).counts)
      (timesIntroduced_le_one _)

/-- A name that is used outside of functions is in the plan of the program. -/
theorem planned_of_isUsedOutside (used : IsUsedOutside (Draft.ofNodes code).sentences name) :
    name ∈ (Introductions.ofBody code [] 0).hoisted ∨
      name ∈ (Introductions.ofBody code [] 0).inline := by
  rw [isUsedOutside_ofNodes_iff written] at used
  obtain ⟨use, member, rfl⟩ := List.mem_map.mp used
  obtain ⟨member, direct⟩ := List.mem_filter.mp member
  rcases (Introductions.fits_ofBody code [] 0).covers use member direct with
    outside | truth | planned
  · cases outside
  · exact absurd truth own.notTruth
  · exact planned

/-- If the program uses a name outside of its functions, all uses of the name
refer to one binding. -/
theorem refersToOne_ofNodes (used : IsUsedOutside (Draft.ofNodes code).sentences name) :
    RefersToOne (Draft.ofNodes code).sentences name := by
  have declared := (areDeclaredIn_body (leadsThrough_nodes code written) isFresh_program 0 0).1
  exact refersToOne_of_countP_le_one declared own.notTruth
    (bindings_ofNodes_le_one own written (planned_of_isUsedOutside own written used))

end

end Emit

end BanglaScript
