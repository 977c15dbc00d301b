import TableFlow.Proofs.Checks
import TableFlow.Script.Parser

/-!
# What one token does

Reading a token succeeds in one of five ways, one for each role.  The relation `Reading.Takes` lists them with
everything they ask for, and `read_eq_ok_iff` says that there is no other way.
-/

namespace TableFlow
namespace Script
namespace Reading

/-- A token can be read next, and what has been read is `r'` then. -/
inductive Takes (r : Reading) (t : Token) : Reading → Prop where
  /-- A command that does not look like an option opens a node. -/
  | command (hrole : t.role = .command) (hopen : r.finished = false) (hpending : r.pending = none)
      (hne : t.value ≠ "") (hplain : isOptionWord t.value = false) :
      Takes r t
        { r with done := r.nodes, current := some { command := t.value, line := t.line } }
  /-- An argument goes to the node on its line. -/
  | argument {n : Node} (hrole : t.role = .argument) (hopen : r.finished = false)
      (hpending : r.pending = none) (hnode : r.current = some n) (hline : n.line = t.line) :
      Takes r t { r with current := some { n with args := n.args ++ [t.value] } }
  /-- A key waits for its value. -/
  | key {n : Node} (hrole : t.role = .optionKey) (hopen : r.finished = false)
      (hpending : r.pending = none) (hnode : r.current = some n) (hline : n.line = t.line) :
      Takes r t { r with pending := some t }
  /-- A value goes to the node on its line under the key that waits. -/
  | value {n : Node} {key : Token} (hrole : t.role = .optionValue) (hopen : r.finished = false)
      (hpending : r.pending = some key) (hnode : r.current = some n) (hline : n.line = t.line) :
      Takes r t { r with
        current := some { n with options := n.options.insert key.value t.value }
        pending := none }
  /-- The final token ends the reading. -/
  | finish (hrole : t.role = .finish) (hopen : r.finished = false) (hpending : r.pending = none) :
      Takes r t { r with finished := true }

/-- Nothing is wrong with a waiting key exactly when there is none. -/
theorem settled_eq_ok_iff {r : Reading} : r.settled = .ok () ↔ r.pending = none := by
  unfold settled
  cases r.pending <;> simp

/-- A token belongs to the current node exactly when it stands on its line. -/
theorem nodeFor_eq_ok_iff {r : Reading} {t : Token} {n : Node} :
    r.nodeFor t = .ok n ↔ r.current = some n ∧ n.line = t.line := by
  unfold nodeFor
  cases hcurrent : r.current with
  | none => simp
  | some m =>
      simp only [Option.some.injEq]
      split
      · next hline =>
          rw [Except.ok.injEq]
          constructor
          · rintro rfl
            exact ⟨rfl, hline⟩
          · exact And.left
      · next hline =>
          constructor
          · intro h
            cases h
          · rintro ⟨rfl, h⟩
            exact (hline h).elim

/-- A token opens a node exactly when it is a word that does not look like an option. -/
theorem openNode_eq_ok_iff {r r' : Reading} {t : Token} :
    r.openNode t = .ok r' ↔ t.value ≠ "" ∧ isOptionWord t.value = false ∧
      r' = { r with done := r.nodes, current := some { command := t.value, line := t.line } } := by
  unfold openNode
  split
  · next h => simp [h]
  · next hne =>
      split
      · next hoption => simp [hoption]
      · next hoption =>
          rw [Except.ok.injEq]
          simp [hne, hoption, eq_comm]

/-- What comes after nothing waits succeeds exactly when nothing does and it does itself. -/
theorem settled_bind_eq_ok_iff {r r' : Reading} {x : Except Error Reading} :
    (r.settled >>= fun _ => x) = .ok r' ↔ r.pending = none ∧ x = .ok r' := by
  rw [bind_eq_ok]
  constructor
  · rintro ⟨_, hsettled, h⟩
    exact ⟨settled_eq_ok_iff.1 hsettled, h⟩
  · rintro ⟨hpending, h⟩
    exact ⟨(), settled_eq_ok_iff.2 hpending, h⟩

/-- What changes the node of a token succeeds exactly when the current node is on the line of the token. -/
theorem nodeFor_bind_eq_ok_iff {r r' : Reading} {t : Token} {f : Node → Reading} :
    (r.nodeFor t >>= fun n => pure (f n)) = .ok r' ↔
      ∃ n, r.current = some n ∧ n.line = t.line ∧ f n = r' := by
  rw [bind_eq_ok]
  constructor
  · rintro ⟨n, hnode, h⟩
    obtain ⟨hcurrent, hline⟩ := nodeFor_eq_ok_iff.1 hnode
    exact ⟨n, hcurrent, hline, Except.ok.inj h⟩
  · rintro ⟨n, hcurrent, hline, rfl⟩
    exact ⟨n, nodeFor_eq_ok_iff.2 ⟨hcurrent, hline⟩, rfl⟩

/-- A token that is read is read in one of the listed ways. -/
theorem takes_of_read {r r' : Reading} {t : Token} (h : r.read t = .ok r') : Takes r t r' := by
  have hopen : r.finished = false := by
    cases hfinished : r.finished with
    | false => rfl
    | true =>
        rw [read, if_pos hfinished] at h
        cases h
  rw [read, if_neg (by simp [hopen])] at h
  cases hrole : t.role with
  | command =>
      simp only [hrole, settled_bind_eq_ok_iff, openNode_eq_ok_iff] at h
      obtain ⟨hpending, hne, hplain, rfl⟩ := h
      exact .command hrole hopen hpending hne hplain
  | argument =>
      simp only [hrole, settled_bind_eq_ok_iff, nodeFor_bind_eq_ok_iff] at h
      obtain ⟨hpending, n, hcurrent, hline, rfl⟩ := h
      exact .argument hrole hopen hpending hcurrent hline
  | optionKey =>
      simp only [hrole, settled_bind_eq_ok_iff, nodeFor_bind_eq_ok_iff] at h
      obtain ⟨hpending, n, hcurrent, hline, rfl⟩ := h
      exact .key hrole hopen hpending hcurrent hline
  | optionValue =>
      cases hpending : r.pending with
      | none =>
          simp only [hrole, hpending] at h
          cases h
      | some key =>
          simp only [hrole, hpending, nodeFor_bind_eq_ok_iff] at h
          obtain ⟨n, hcurrent, hline, rfl⟩ := h
          exact .value hrole hopen hpending hcurrent hline
  | finish =>
      simp only [hrole, settled_bind_eq_ok_iff] at h
      obtain ⟨hpending, h⟩ := h
      cases h
      exact .finish hrole hopen hpending

/-- No token is read after the final one. -/
theorem Takes.finished_eq_false {r r' : Reading} {t : Token} (h : Takes r t r') : r.finished = false := by
  cases h <;> assumption

/-- In each of the listed ways a token is read. -/
theorem Takes.read {r r' : Reading} {t : Token} (h : Takes r t r') : r.read t = .ok r' := by
  rw [Reading.read, if_neg (by simp [h.finished_eq_false])]
  cases h with
  | command hrole _ hpending hne hplain =>
      simp only [hrole]
      exact settled_bind_eq_ok_iff.2 ⟨hpending, openNode_eq_ok_iff.2 ⟨hne, hplain, rfl⟩⟩
  | argument hrole _ hpending hnode hline =>
      simp only [hrole]
      exact settled_bind_eq_ok_iff.2 ⟨hpending, nodeFor_bind_eq_ok_iff.2 ⟨_, hnode, hline, rfl⟩⟩
  | key hrole _ hpending hnode hline =>
      simp only [hrole]
      exact settled_bind_eq_ok_iff.2 ⟨hpending, nodeFor_bind_eq_ok_iff.2 ⟨_, hnode, hline, rfl⟩⟩
  | value hrole _ hpending hnode hline =>
      simp only [hrole, hpending]
      exact nodeFor_bind_eq_ok_iff.2 ⟨_, hnode, hline, rfl⟩
  | finish hrole _ hpending =>
      simp only [hrole]
      exact settled_bind_eq_ok_iff.2 ⟨hpending, rfl⟩

/-- Reading a token succeeds exactly in the listed ways. -/
theorem read_eq_ok_iff {r r' : Reading} {t : Token} : r.read t = .ok r' ↔ Takes r t r' :=
  ⟨takes_of_read, Takes.read⟩

end Reading
end Script
end TableFlow
