import Mathlib.Data.List.Forall2
import Mathlib.Data.List.Induction
import TableFlow.Proofs.KeyMap
import TableFlow.Proofs.Script.Grouping

/-!
# The grammar of tokens

A list of tokens forms a program exactly when it is a row of groups, one for each node, and the final token.  A
group is a command that does not look like an option, followed by its items, each of which is an argument or a key
directly followed by its value; all of them stand on the line of the command.

Main results:

- Definition `Grouped`: the lists of tokens that are groups and a final token.
- Theorem `ofTokens_of_grouped`: such a list is read as one node for each group.
- Theorem `groups_of_read`: a reading that ends has read groups.
- Theorem `Group.gives_node`: what the node of a group holds.
- Theorem `ofTokens_accepts_groups`: nothing else is accepted, and what is not accepted is a fault of grammar.
-/

namespace TableFlow

/-! ## Options that are given again -/

/-- What a key has after a pair was assigned. -/
theorem lookup_assign {α : Type} (key other : String) (value : α) (pairs : List (String × α)) :
    (assign key value pairs).lookup other =
      if other = key then some value else pairs.lookup other := by
  induction pairs with
  | nil => exact lookup_cons_eq other key value []
  | cons pair pairs ih =>
      obtain ⟨k, v⟩ := pair
      rw [assign]
      split
      · next hk =>
          rw [lookup_cons_eq, lookup_cons_eq, hk]
          by_cases h : other = key
          · rw [if_pos h, if_pos h]
          · rw [if_neg h, if_neg h, if_neg h]
      · next hk =>
          rw [lookup_cons_eq, lookup_cons_eq, ih]
          by_cases h : other = k
          · have hother : other ≠ key := fun e => hk (h.symm.trans e)
            rw [if_pos h, if_pos h, if_neg hother]
          · rw [if_neg h, if_neg h]

/-- One more key at the end changes the distinct keys only when it is new. -/
theorem eraseDups_concat (keys : List String) (key : String) :
    (keys ++ [key]).eraseDups =
      if key ∈ keys.eraseDups then keys.eraseDups else keys.eraseDups ++ [key] := by
  rw [List.eraseDups_append]
  by_cases h : key ∈ keys
  · simp [h, List.removeAll]
  · simp [h, List.removeAll, List.eraseDups_cons]

namespace Script

/-! ## Groups of tokens -/

/-- What may follow a command: an argument, or a key and its value. -/
inductive Item where
  | argument (token : Token)
  | option (key value : Token)

/-- The tokens of an item. -/
def Item.tokens : Item → List Token
  | .argument t => [t]
  | .option key value => [key, value]

/-- The tokens of an item have the roles they should have, and all stand on the line. -/
inductive Item.On (line : Nat) : Item → Prop where
  | argument {t : Token} (hrole : t.role = .argument) (hline : t.line = line) :
      On line (.argument t)
  | option {key value : Token} (hkey : key.role = .optionKey) (hkeyLine : key.line = line)
      (hvalue : value.role = .optionValue) (hvalueLine : value.line = line) :
      On line (.option key value)

/-- The argument that an item is. -/
def Item.arg? : Item → Option String
  | .argument t => some t.value
  | .option _ _ => none

/-- The key and the value that an item is. -/
def Item.pair? : Item → Option (String × String)
  | .argument _ => none
  | .option key value => some (key.value, value.value)

/-- A command and its items. -/
structure Group where
  command : Token
  items : List Item

/-- The tokens of a group in order. -/
def Group.tokens (g : Group) : List Token :=
  g.command :: g.items.flatMap Item.tokens

/-- A group of the grammar. -/
structure Group.WellFormed (g : Group) : Prop where
  command_role : g.command.role = .command
  command_ne : g.command.value ≠ ""
  command_plain : isOptionWord g.command.value = false
  items_on : ∀ i ∈ g.items, i.On g.command.line

/-- The tokens are the groups one after another, and the final token. -/
structure Grouped (tokens : List Token) (groups : List Group) : Prop where
  wellFormed : ∀ g ∈ groups, g.WellFormed
  tokens_eq : ∃ final : Token, final.role = .finish ∧
    tokens = groups.flatMap Group.tokens ++ [final]

/-! ## The node of a group -/

/-- What a group says, as a node: its arguments in order, and each key once, where it is given first and with the
value it is given last. -/
structure Group.Gives (g : Group) (n : Node) : Prop where
  command_eq : n.command = g.command.value
  line_eq : n.line = g.command.line
  args_eq : n.args = g.items.filterMap Item.arg?
  keys_eq : n.options.pairs.map Prod.fst =
    ((g.items.filterMap Item.pair?).map Prod.fst).eraseDups
  value_eq : ∀ key, n.options.get? key = (g.items.filterMap Item.pair?).reverse.lookup key

/-- The node with one more item. -/
def Node.add (n : Node) : Item → Node
  | .argument t => { n with args := n.args ++ [t.value] }
  | .option key value => { n with options := n.options.insert key.value value.value }

@[simp] theorem Node.line_add (n : Node) (i : Item) : (n.add i).line = n.line := by
  cases i <;> rfl

/-- The node that reading a group gives. -/
def Group.node (g : Group) : Node :=
  g.items.foldl Node.add { command := g.command.value, line := g.command.line }

/-- One more item adds to the node what it adds to the group. -/
theorem Group.Gives.add {command : Token} {items : List Item} {n : Node}
    (h : Group.Gives ⟨command, items⟩ n) (i : Item) :
    Group.Gives ⟨command, items ++ [i]⟩ (n.add i) := by
  cases i with
  | argument t =>
      refine ⟨h.command_eq, h.line_eq, ?_, ?_, ?_⟩
      · simp [Node.add, h.args_eq, Item.arg?]
      · simpa [Node.add, List.filterMap_cons, Item.pair?] using h.keys_eq
      · simpa [Node.add, List.filterMap_cons, Item.pair?] using h.value_eq
  | option key value =>
      refine ⟨h.command_eq, h.line_eq, ?_, ?_, ?_⟩
      · simpa [Node.add, List.filterMap_cons, Item.arg?] using h.args_eq
      · have hkeys := h.keys_eq
        simp only [Node.add, Options.pairs_insert, map_fst_assign, hkeys, List.filterMap_append,
          List.filterMap_cons, List.filterMap_nil, Item.pair?, List.map_append, List.map_cons,
          List.map_nil, eraseDups_concat]
      · intro other
        have hvalue := h.value_eq other
        rw [Options.get?] at hvalue
        simp only [Node.add, Options.get?, Options.pairs_insert, lookup_assign, hvalue,
          List.filterMap_append, List.filterMap_cons, List.filterMap_nil, Item.pair?,
          List.reverse_append, List.reverse_cons, List.reverse_nil, List.nil_append,
          List.cons_append, lookup_cons_eq]

/-- The node of a group holds what the group says. -/
theorem Group.gives_node (g : Group) : g.Gives g.node := by
  obtain ⟨command, items⟩ := g
  induction items using List.reverseRecOn with
  | nil =>
      refine ⟨rfl, rfl, rfl, rfl, ?_⟩
      intro key
      rfl
  | append_singleton items i ih =>
      have hnode : Group.node ⟨command, items ++ [i]⟩ = (Group.node ⟨command, items⟩).add i := by
        simp [Group.node]
      rw [hnode]
      exact ih.add i

/-! ## Reading groups -/

/-- The node on whose line an item stands takes it. -/
theorem read_item (done : List Node) {n : Node} {i : Item} (h : i.On n.line) :
    i.tokens.foldlM Reading.read ⟨done, some n, none, false⟩ =
      .ok ⟨done, some (n.add i), none, false⟩ := by
  cases h with
  | argument hrole hline =>
      refine foldlM_cons_eq_ok.2 ⟨_, ?_, rfl⟩
      exact Reading.read_eq_ok_iff.2 (.argument hrole rfl rfl rfl hline.symm)
  | option hkey hkeyLine hvalue hvalueLine =>
      refine foldlM_cons_eq_ok.2
        ⟨_, Reading.read_eq_ok_iff.2 (.key hkey rfl rfl rfl hkeyLine.symm), ?_⟩
      refine foldlM_cons_eq_ok.2 ⟨_, ?_, rfl⟩
      exact Reading.read_eq_ok_iff.2 (.value hvalue rfl rfl rfl hvalueLine.symm)

/-- The node on whose line items stand takes them one after another. -/
theorem read_items {done : List Node} {n : Node} {items : List Item}
    (h : ∀ i ∈ items, i.On n.line) :
    (items.flatMap Item.tokens).foldlM Reading.read ⟨done, some n, none, false⟩ =
      .ok ⟨done, some (items.foldl Node.add n), none, false⟩ := by
  induction items generalizing n with
  | nil => rfl
  | cons i items ih =>
      have hi := read_item done (h i (by simp))
      have hitems := ih (n := n.add i) fun j hj => by
        rw [Node.line_add]
        exact h j (by simp [hj])
      rw [List.flatMap_cons, List.foldlM_append, hi]
      exact hitems

/-- Reading a group closes the node before it and opens its own. -/
theorem read_group {g : Group} (h : g.WellFormed) {r : Reading} (hpending : r.pending = none)
    (hopen : r.finished = false) :
    g.tokens.foldlM Reading.read r = .ok ⟨r.nodes, some g.node, none, false⟩ := by
  refine foldlM_cons_eq_ok.2 ⟨_, Reading.read_eq_ok_iff.2
    (.command h.command_role hopen hpending h.command_ne h.command_plain), ?_⟩
  rw [hpending, hopen]
  exact read_items (n := { command := g.command.value, line := g.command.line }) h.items_on

/-- Reading groups gives their nodes. -/
theorem read_groups {groups : List Group} (h : ∀ g ∈ groups, g.WellFormed) {r : Reading}
    (hpending : r.pending = none) (hopen : r.finished = false) :
    ∃ r', (groups.flatMap Group.tokens).foldlM Reading.read r = .ok r' ∧
      r'.pending = none ∧ r'.finished = false ∧
      r'.nodes = (groups.map Group.node).reverse ++ r.nodes := by
  induction groups generalizing r with
  | nil => exact ⟨r, rfl, hpending, hopen, rfl⟩
  | cons g groups ih =>
      have hg := read_group (h g (by simp)) hpending hopen
      obtain ⟨r', hfold, hpending', hopen', hnodes⟩ := ih (fun m hm => h m (by simp [hm]))
        (r := ⟨r.nodes, some g.node, none, false⟩) rfl rfl
      refine ⟨r', ?_, hpending', hopen', ?_⟩
      · rw [List.flatMap_cons, List.foldlM_append, hg]
        exact hfold
      · rw [hnodes]
        simp [Reading.nodes]

/-- Groups and a final token form a program, with one node for each group. -/
theorem ofTokens_of_grouped {tokens : List Token} {groups : List Group}
    (h : Grouped tokens groups) :
    Program.ofTokens tokens = .ok ⟨groups.map Group.node⟩ := by
  obtain ⟨final, hrole, rfl⟩ := h.tokens_eq
  obtain ⟨r, hfold, hpending, hopen, hnodes⟩ :=
    read_groups h.wellFormed (r := Reading.start) rfl rfl
  have hfinal : r.read final = .ok { r with finished := true } :=
    Reading.read_eq_ok_iff.2 (.finish hrole hopen hpending)
  have hall : (groups.flatMap Group.tokens ++ [final]).foldlM Reading.read Reading.start =
      .ok { r with finished := true } := by
    rw [List.foldlM_append, hfold]
    exact foldlM_cons_eq_ok.2 ⟨_, hfinal, rfl⟩
  refine bind_eq_ok.2 ⟨_, hall, ?_⟩
  have hread : ({ r with finished := true } : Reading).nodes = (groups.map Group.node).reverse := by
    simpa [Reading.nodes, Reading.start] using hnodes
  rw [if_pos rfl, hread, List.reverse_reverse]
  rfl

/-! ## What has been read are groups -/

/-- A key that waits for its value belongs to the node that is being read. -/
def Reading.Waits (r : Reading) : Prop :=
  ∀ key ∈ r.pending, key.role = .optionKey ∧ ∃ n ∈ r.current, n.line = key.line

/-- Tokens that complete a reading: with a key that waits before them, they are items of the current node, then groups,
and then the final token. -/
def Reading.CompletedBy (r : Reading) (tokens : List Token) : Prop :=
  ∃ (items : List Item) (groups : List Group),
    (∀ i ∈ items, ∃ n ∈ r.current, i.On n.line) ∧ (∀ g ∈ groups, g.WellFormed) ∧
    ∃ final : Token, final.role = .finish ∧ r.pending.toList ++ tokens =
      items.flatMap Item.tokens ++ (groups.flatMap Group.tokens ++ [final])

/-- After any token but the final one the reading goes on, and a key that waits is still on the line of the node. -/
theorem Reading.Takes.waits {r c : Reading} {t : Token} (htakes : r.Takes t c) (hopen : c.finished = false) :
    c.Waits := by
  cases htakes with
  | command hrole _ hpending hne hplain => simp [Reading.Waits, hpending]
  | argument hrole _ hpending hnode hline => simp [Reading.Waits, hpending]
  | key hrole _ hpending hnode hline => simp [Reading.Waits, hrole, hnode, hline]
  | value hrole _ hpending hnode hline => simp [Reading.Waits]
  | finish hrole _ hpending => cases hopen

/-- What completes the reading after a token completes it with the token before. -/
theorem Reading.Takes.completedBy {r c : Reading} {t : Token} (htakes : r.Takes t c) (hwaits : r.Waits)
    (hopen : c.finished = false) {tokens : List Token} (h : c.CompletedBy tokens) :
    r.CompletedBy (t :: tokens) := by
  obtain ⟨items, groups, hitems, hgroups, final, hfinal, htokens⟩ := h
  cases htakes with
  | command hrole _ hpending hne hplain =>
      refine ⟨[], ⟨t, items⟩ :: groups, by simp, ?_, final, hfinal, ?_⟩
      · rintro g (_ | ⟨_, hg⟩)
        · exact ⟨hrole, hne, hplain, fun i hi => by simpa using hitems i hi⟩
        · exact hgroups g hg
      · simp only [hpending, Option.toList_none, List.nil_append] at htokens
        simp [hpending, htokens, Group.tokens]
  | @argument n hrole _ hpending hnode hline =>
      refine ⟨.argument t :: items, groups, ?_, hgroups, final, hfinal, ?_⟩
      · rintro i (_ | ⟨_, hi⟩)
        · exact ⟨n, hnode, .argument hrole hline.symm⟩
        · exact ⟨n, hnode, by simpa using hitems i hi⟩
      · simp only [hpending, Option.toList_none, List.nil_append] at htokens
        simp [hpending, htokens, Item.tokens]
  | key hrole _ hpending hnode hline =>
      -- The key is a part of the item whose value comes next.
      exact ⟨items, groups, hitems, hgroups, final, hfinal, by simpa [hpending] using htokens⟩
  | @value n key hrole _ hpending hnode hline =>
      obtain ⟨hkey, m, hm, hkeyLine⟩ := hwaits key hpending
      obtain rfl : n = m := by simpa [hnode] using hm
      refine ⟨.option key t :: items, groups, ?_, hgroups, final, hfinal, ?_⟩
      · rintro i (_ | ⟨_, hi⟩)
        · exact ⟨n, hnode, .option hkey hkeyLine.symm hrole hline.symm⟩
        · exact ⟨n, hnode, by simpa using hitems i hi⟩
      · simp only [Option.toList_none, List.nil_append] at htokens
        simp [hpending, htokens, Item.tokens]
  | finish hrole _ hpending => cases hopen

/-- Only the final token ends a reading, and no key waits then. -/
theorem Reading.Takes.of_finished {r c : Reading} {t : Token} (htakes : r.Takes t c) (hfinished : c.finished = true) :
    t.role = .finish ∧ r.pending = none := by
  have hopen := htakes.finished_eq_false
  cases htakes with
  | finish hrole _ hpending => exact ⟨hrole, hpending⟩
  | _ => simp [hopen] at hfinished

/-- After the final token nothing is read. -/
theorem Reading.eq_nil_of_finished {tokens : List Token} {r r' : Reading} (hfinished : r.finished = true)
    (h : tokens.foldlM Reading.read r = .ok r') : tokens = [] := by
  cases tokens with
  | nil => rfl
  | cons t tokens =>
      obtain ⟨c, hread, _⟩ := foldlM_cons_eq_ok.1 h
      have hopen := (Reading.read_eq_ok_iff.1 hread).finished_eq_false
      rw [hfinished] at hopen
      cases hopen

/-- A reading that ends has read the items of the node it was at, counting a key that was waiting, then groups, and
then the final token. -/
theorem groups_of_read {tokens : List Token} {r r' : Reading}
    (hfold : tokens.foldlM Reading.read r = .ok r') (hfinished : r'.finished = true)
    (hopen : r.finished = false) (hwaits : r.Waits) : r.CompletedBy tokens := by
  induction tokens generalizing r with
  | nil =>
      cases hfold
      rw [hopen] at hfinished
      cases hfinished
  | cons t tokens ih =>
      obtain ⟨c, hread, hrest⟩ := foldlM_cons_eq_ok.1 hfold
      have htakes := Reading.read_eq_ok_iff.1 hread
      cases hc : c.finished with
      | false => exact htakes.completedBy hwaits hc (ih hrest hc (htakes.waits hc))
      | true =>
          obtain rfl := Reading.eq_nil_of_finished hc hrest
          obtain ⟨hrole, hpending⟩ := htakes.of_finished hc
          exact ⟨[], [], by simp, by simp, t, hrole, by simp [hpending]⟩

/-- Tokens that form a program are groups and a final token. -/
theorem grouped_of_ofTokens {tokens : List Token} {p : Program}
    (h : Program.ofTokens tokens = .ok p) : ∃ groups, Grouped tokens groups := by
  obtain ⟨r, hfold, hfinish⟩ := bind_eq_ok.1 h
  split at hfinish
  · next hfinished =>
      obtain ⟨items, groups, hitems, hgroups, final, hfinal, htokens⟩ :=
        groups_of_read hfold hfinished rfl (by simp [Reading.Waits, Reading.start])
      -- No item stands before the first command.
      have hnone : items = [] := by
        cases items with
        | nil => rfl
        | cons i items =>
            obtain ⟨n, hn, _⟩ := hitems i (by simp)
            cases hn
      refine ⟨groups, hgroups, final, hfinal, ?_⟩
      simpa [hnone, Reading.start] using htokens
  · cases hfinish

/-! ## Faults -/

section

variable {α β : Type}

/-- Whatever goes wrong is a fault that is reported for some line. -/
def Faulty (x : Except Error α) : Prop :=
  ∀ e, x = .error e → ∃ fault line, e = Fault.at fault line

theorem Faulty.ok (a : α) : Faulty (.ok a : Except Error α) :=
  FailsOnly.ok a

theorem Faulty.fault (fault : Fault) (line : Nat) :
    Faulty (.error (fault.at line) : Except Error α) :=
  FailsOnly.error ⟨fault, line, rfl⟩

/-- One computation after another goes wrong only as they do. -/
theorem Faulty.bind {x : Except Error α} {f : α → Except Error β} (hx : Faulty x)
    (hf : ∀ a, Faulty (f a)) : Faulty (x >>= f) :=
  FailsOnly.bind hx hf

/-- A loop goes wrong only as its steps do. -/
theorem Faulty.foldlM {f : β → α → Except Error β} (hf : ∀ b a, Faulty (f b a)) (items : List α)
    (b : β) : Faulty (items.foldlM f b) :=
  FailsOnly.foldlM hf items b

end

theorem Reading.faulty_settled (r : Reading) : Faulty r.settled := by
  unfold Reading.settled
  split
  · exact .ok ()
  · exact .fault _ _

theorem Reading.faulty_nodeFor (r : Reading) (t : Token) : Faulty (r.nodeFor t) := by
  unfold Reading.nodeFor
  split
  · split
    · exact .ok _
    · exact .fault _ _
  · exact .fault _ _

theorem Reading.faulty_openNode (r : Reading) (t : Token) : Faulty (r.openNode t) := by
  unfold Reading.openNode
  split
  · exact .fault _ _
  · split
    · exact .fault _ _
    · exact .ok _

/-- A token that cannot be read next is reported as a fault for some line. -/
theorem Reading.faulty_read (r : Reading) (t : Token) : Faulty (r.read t) := by
  unfold Reading.read
  split
  · exact .fault _ _
  · cases t.role with
    | command => exact r.faulty_settled.bind fun _ => r.faulty_openNode t
    | argument => exact r.faulty_settled.bind fun _ => (r.faulty_nodeFor t).bind fun _ => .ok _
    | optionKey => exact r.faulty_settled.bind fun _ => (r.faulty_nodeFor t).bind fun _ => .ok _
    | optionValue =>
        dsimp only
        split
        · exact .fault _ _
        · exact (r.faulty_nodeFor t).bind fun _ => .ok _
    | finish => exact r.faulty_settled.bind fun _ => .ok _

/-- Tokens that form no program are reported as a fault for some line. -/
theorem faulty_ofTokens (tokens : List Token) : Faulty (Program.ofTokens tokens) := by
  refine (Faulty.foldlM Reading.faulty_read tokens Reading.start).bind fun r => ?_
  split
  · exact .ok _
  · exact .fault _ _

/-! ## The grammar -/

/-- Tokens form a program exactly when they are groups and a final token; the program then has one node for each
group, which holds what the group says, and all other lists of tokens are reported as a fault of grammar. -/
theorem ofTokens_accepts_groups (tokens : List Token) :
    ((∃ p, Program.ofTokens tokens = .ok p) ↔ ∃ groups, Grouped tokens groups) ∧
      (∀ p groups, Program.ofTokens tokens = .ok p → Grouped tokens groups →
        List.Forall₂ Group.Gives groups p.nodes) ∧
      ((¬∃ groups, Grouped tokens groups) →
        ∃ line message, Program.ofTokens tokens = .error (.grammar line message)) := by
  refine ⟨⟨?_, ?_⟩, ?_, ?_⟩
  · rintro ⟨p, hp⟩
    exact grouped_of_ofTokens hp
  · rintro ⟨groups, hgroups⟩
    exact ⟨_, ofTokens_of_grouped hgroups⟩
  · intro p groups hp hgroups
    rw [ofTokens_of_grouped hgroups] at hp
    cases hp
    exact List.forall₂_map_right_iff.2 (List.forall₂_same.2 fun g _ => g.gives_node)
  · intro hnone
    cases hread : Program.ofTokens tokens with
    | ok p => exact (hnone (grouped_of_ofTokens hread)).elim
    | error e =>
        obtain ⟨fault, line, rfl⟩ := faulty_ofTokens tokens e hread
        exact ⟨line, fault.message, rfl⟩

/-- A key that is given twice with an argument between, a second command on the same line, and a value that no key
stands before. -/
theorem ofTokens_accepts_repeated_key :
    (∃ tokens groups p, Program.ofTokens tokens = .ok p ∧ Grouped tokens groups ∧
        p.nodes = [⟨"train", ["knn"], Options.ofList [("k", "5"), ("seed", "1")], 2⟩,
          ⟨"evaluate", [], Options.empty, 2⟩] ∧
        List.Forall₂ Group.Gives groups p.nodes) ∧
      ∃ tokens, (¬∃ groups, Grouped tokens groups) ∧
        ∃ line message, Program.ofTokens tokens = .error (.grammar line message) := by
  constructor
  · let train : Group := ⟨⟨.command, "train", 2, 1⟩,
      [.option ⟨.optionKey, "k", 2, 7⟩ ⟨.optionValue, "3", 2, 11⟩,
        .option ⟨.optionKey, "seed", 2, 13⟩ ⟨.optionValue, "1", 2, 20⟩,
        .argument ⟨.argument, "knn", 2, 22⟩,
        .option ⟨.optionKey, "k", 2, 26⟩ ⟨.optionValue, "5", 2, 30⟩]⟩
    let evaluate : Group := ⟨⟨.command, "evaluate", 2, 32⟩, []⟩
    have hgrouped : Grouped ([train, evaluate].flatMap Group.tokens ++ [⟨.finish, "", 3, 1⟩])
        [train, evaluate] := by
      refine ⟨?_, _, rfl, rfl⟩
      simp only [List.mem_cons, List.not_mem_nil, or_false, forall_eq_or_imp, forall_eq]
      refine ⟨⟨rfl, by decide, by decide, ?_⟩, rfl, by decide, by decide, by simp [evaluate]⟩
      simp only [train, List.mem_cons, List.not_mem_nil, or_false, forall_eq_or_imp, forall_eq]
      exact ⟨.option rfl rfl rfl rfl, .option rfl rfl rfl rfl, .argument rfl rfl,
        .option rfl rfl rfl rfl⟩
    have hread := ofTokens_of_grouped hgrouped
    exact ⟨_, _, _, hread, hgrouped, by decide, (ofTokens_accepts_groups _).2.1 _ _ hread hgrouped⟩
  · let tokens : List Token :=
      [⟨.command, "split", 1, 1⟩, ⟨.optionValue, "y", 1, 7⟩, ⟨.finish, "", 2, 1⟩]
    have hread : Program.ofTokens tokens = .error (Fault.at (.strayValue "y") 1) := by decide
    have hnone : ¬∃ groups, Grouped tokens groups := by
      intro hgroups
      obtain ⟨p, hp⟩ := (ofTokens_accepts_groups tokens).1.2 hgroups
      rw [hread] at hp
      cases hp
    exact ⟨tokens, hnone, (ofTokens_accepts_groups tokens).2.2 hnone⟩

end Script
end TableFlow
