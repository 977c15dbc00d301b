import Mathlib.Data.List.Forall2
import Mathlib.Data.List.Nodup
import Mathlib.Data.List.Perm.Subperm
import TableFlow.Proofs.KeyMap
import TableFlow.Script.Program

/-!
# Programs of equal content

Options agree when each holds what the other holds, in whatever order; so every key has the same value in both.  Nodes
agree when their commands and arguments are the same and their options agree, and programs agree node by node.  The
order of the options and the lines of the nodes play no part in this, and it does not matter which of two programs is
compared to which.

Main results:

- Theorem `Options.agrees_iff_perm`: options agree when one holds the pairs of the other in some order.
- Theorem `Options.get?_of_agrees`: options that agree give each key the same value.
- Theorem `Script.Program.agrees_iff`: programs agree when their nodes do, one after another.
-/

namespace TableFlow

/-! ## Options -/

namespace Options

variable {a b : Options}

/-- A key has a value exactly if the pair of both is there. -/
theorem get?_eq_some_iff {o : Options} {key value : String} :
    o.get? key = some value ↔ (key, value) ∈ o.pairs :=
  lookup_eq_some_iff_mem o.nodup

/-- Options agree when one holds the pairs of the other in some order. -/
theorem agrees_iff_perm : a.agrees b = true ↔ a.pairs.Perm b.pairs := by
  have hall : (a.pairs.all fun pair => b.get? pair.1 == some pair.2) = true ↔ a.pairs ⊆ b.pairs := by
    simp only [List.all_eq_true, beq_iff_eq, get?_eq_some_iff]
    rfl
  have hdef : a.agrees b = true ↔ a.pairs.length = b.pairs.length ∧ a.pairs ⊆ b.pairs := by
    rw [agrees, Bool.and_eq_true, beq_iff_eq, hall]
  rw [hdef]
  constructor
  · rintro ⟨hlength, hsub⟩
    -- Distinct keys make distinct pairs, so as many pairs as `b` has cannot leave one of its pairs out.
    have hnodup : a.pairs.Nodup := List.Nodup.of_map Prod.fst a.nodup
    exact (List.subperm_of_subset hnodup hsub).perm_of_length_le (Nat.le_of_eq hlength.symm)
  · intro hperm
    exact ⟨hperm.length_eq, hperm.subset⟩

theorem agrees_symm (h : a.agrees b = true) : b.agrees a = true :=
  agrees_iff_perm.2 (agrees_iff_perm.1 h).symm

/-- Options that agree give each key the same value. -/
theorem get?_of_agrees (h : a.agrees b = true) (key : String) : b.get? key = a.get? key :=
  (lookup_eq_of_perm (agrees_iff_perm.1 h) a.nodup key).symm

/-- Options still agree when the same keys are left out of both. -/
theorem agrees_filter (h : a.agrees b = true) (keep : String → Bool) :
    (a.filter keep).agrees (b.filter keep) = true := by
  rw [agrees_iff_perm] at h ⊢
  exact h.filter _

end Options

/-! ## Nodes and programs -/

namespace Script

variable {m n : Node}

/-- What nodes of equal content share. -/
structure Node.SameContent (m n : Node) : Prop where
  command : m.command = n.command
  args : m.args = n.args
  options : m.options.agrees n.options = true

theorem Node.agrees_iff : m.agrees n = true ↔ m.SameContent n := by
  rw [Node.agrees, Bool.and_eq_true, Bool.and_eq_true, beq_iff_eq, beq_iff_eq]
  constructor
  · rintro ⟨⟨hcommand, hargs⟩, hoptions⟩
    exact ⟨hcommand, hargs, hoptions⟩
  · rintro ⟨hcommand, hargs, hoptions⟩
    exact ⟨⟨hcommand, hargs⟩, hoptions⟩

theorem Node.SameContent.symm (h : m.SameContent n) : n.SameContent m :=
  ⟨h.command.symm, h.args.symm, Options.agrees_symm h.options⟩

/-- Programs agree when their nodes do, one after another. -/
theorem Program.agrees_iff {p q : Program} :
    p.agrees q = true ↔ List.Forall₂ Node.SameContent p.nodes q.nodes := by
  rw [Program.agrees, Bool.and_eq_true, beq_iff_eq, List.all_eq_true, List.forall₂_iff_zip]
  apply and_congr_right
  intro _
  constructor
  · intro h m n hmem
    exact Node.agrees_iff.1 (h (m, n) hmem)
  · intro h pair hmem
    exact Node.agrees_iff.2 (h hmem)

theorem Program.agrees_symm {p q : Program} (h : p.agrees q = true) : q.agrees p = true := by
  rw [Program.agrees_iff] at h ⊢
  exact (h.imp fun _ _ hnodes => hnodes.symm).flip

end Script
end TableFlow
