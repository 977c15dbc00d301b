import TableFlow.Proofs.Script.RoundTrip
import TableFlow.Proofs.Stored.Spelling
import TableFlow.Stored.Program

/-!
# Stored programs are read back

A program is stored as a record, and so is each of its nodes.  Reading such a record asks for its fields by name:
the order of the members does not matter, members of other names do not count, whatever they are, and a field that is
not there has a value of its own.  What is read depends only on the document that the text spells, so this holds of
programs that were written and of all other spellings as well.

Main results:

- Definition `Document.Gives`: what a record gives for a name.
- Theorem `Document.exists_fields_named`: the fields of a record are found by name.
- Structures `StoredNode` and `StoredNode.In`: what a record gives of a node.
- Theorem `StoredIn.ofDocument?`: a stored program is read.
- Theorem `stored_programs_read_back`: programs are read from the texts that store them.
-/

namespace TableFlow

namespace Document

/-! ## Items one by one -/

/-- Items that are read one by one are read together. -/
theorem mapM_eq_some {α β : Type} {read : α → Option β} {items : List α} {results : List β}
    (h : List.Forall₂ (fun item result => read item = some result) items results) :
    items.mapM read = some results := by
  induction h with
  | nil => rfl
  | cons hfirst _ ih => simp [List.mapM_cons, hfirst, ih]

/-- Items that are read as they were written are read together. -/
theorem mapM_map_eq_some {α β : Type} {read : α → Option β} {write : β → α} (h : ∀ b, read (write b) = some b)
    (results : List β) : (results.map write).mapM read = some results := by
  apply mapM_eq_some
  rw [List.forall₂_map_left_iff, List.forall₂_same]
  exact fun b _ => h b

/-! ## Fields of a record -/

/-- What the members give for a name: one of them has the name and the value, or none has the name. -/
def Gives (members : List (String × Document)) (name : String) (value : Option Document) : Prop :=
  (members.filter fun member => member.1 == name).map Prod.snd = value.toList

variable {members : List (String × Document)} {names : List String} {name : String} {value : Option Document}

theorem lookup_eq_head? (name : String) (members : List (String × Document)) :
    members.lookup name = ((members.filter fun member => member.1 == name).map Prod.snd).head? := by
  induction members with
  | nil => rfl
  | cons member members ih =>
    obtain ⟨key, value⟩ := member
    by_cases h : key = name
    · simp [List.lookup, h]
    · have h' : (name == key) = false := by simpa using fun heq => h heq.symm
      simp [List.lookup, h, h', ih]

/-- Looking a field up gives its value. -/
theorem Gives.lookup (h : Gives members name value) : members.lookup name = value := by
  rw [lookup_eq_head?, h]
  cases value <;> rfl

/-- A field is there at most once. -/
theorem Gives.count_le_one (h : Gives members name value) : (members.map Prod.fst).count name ≤ 1 := by
  have hlength := congrArg List.length h
  rw [List.length_map, ← List.countP_eq_length_filter] at hlength
  rw [List.count, List.countP_map]
  calc
    _ = value.toList.length := hlength
    _ ≤ 1 := by cases value <;> simp

/-- Members of other names can be left out. -/
theorem Gives.filter (h : Gives members name value) (hname : name ∈ names) :
    Gives (members.filter fun member => names.contains member.1) name value := by
  have hsame : (members.filter fun member => member.1 == name && names.contains member.1) =
      members.filter fun member => member.1 == name := by
    apply List.filter_congr
    intro member _
    by_cases heq : member.1 = name
    · simp [heq, hname]
    · simp [heq]
  rw [Gives, List.filter_filter, hsame]
  exact h

/-- Fields of different names do not get in each other's way. -/
theorem nodup_fields (h : ∀ name ∈ names, ∃ value, Gives members name value) :
    ((members.filter fun member => names.contains member.1).map Prod.fst).Nodup := by
  rw [List.nodup_iff_count_le_one]
  intro name
  by_cases hname : name ∈ names
  · obtain ⟨value, hvalue⟩ := h name hname
    exact (hvalue.filter hname).count_le_one
  · have hnone : name ∉ (members.filter fun member => names.contains member.1).map Prod.fst := by
      intro hmem
      obtain ⟨member, hmember, rfl⟩ := List.mem_map.1 hmem
      exact hname (by simpa using (List.mem_filter.1 hmember).2)
    rw [List.count_eq_zero_of_not_mem hnone]
    exact Nat.zero_le 1

theorem members?_named (members : List (String × Document)) : (named members).members? = some members := by
  rw [named, members?]
  apply mapM_map_eq_some
  exact fun _ => rfl

/-- The fields of a record are found by their names. -/
theorem exists_fields_named (byPosition : Bool) (h : ∀ name ∈ names, ∃ value, Gives members name value) :
    ∃ f, Fields.of? byPosition names (named members) = some f ∧
      ∀ name ∈ names, ∀ value, Gives members name value → f.members.lookup name = value := by
  refine ⟨⟨members.filter fun member => names.contains member.1⟩, ?_, ?_⟩
  · have hmembers : Fields.of? byPosition names (named members) =
        (named members).members?.bind (Fields.ofMembers? names) := rfl
    rw [hmembers, members?_named, Option.bind_some, Fields.ofMembers?, if_pos (nodup_fields h)]
  · intro name hname value hvalue
    exact (hvalue.filter hname).lookup

/-- A field that is read as it was written, or that is not there. -/
theorem optional?_map {α : Type} {f : Fields} {given : Option α} {write : α → Document} {read : Document → Option α}
    (absent : α) (h : f.members.lookup name = given.map write) (hread : ∀ a, given = some a → read (write a) = some a) :
    f.optional? name absent read = some (given.getD absent) := by
  rw [Fields.optional?, h]
  cases given with
  | none => rfl
  | some a => exact hread a rfl

/-! ## Values of fields -/

theorem texts?_texts (items : List String) : (texts items).texts? = some items := by
  rw [texts, texts?]
  apply mapM_map_eq_some
  exact fun _ => rfl

/-- A record of texts. -/
def textRecord (pairs : List (String × String)) : Document :=
  named (pairs.map fun (key, value) => (key, .text value))

theorem textMembers?_textRecord (pairs : List (String × String)) : (textRecord pairs).textMembers? = some pairs := by
  rw [textRecord, named, List.map_map, textMembers?]
  apply mapM_map_eq_some
  exact fun _ => rfl

theorem word64?_nat {n : Nat} (h : n < wordBound) : (nat n).word64? = some n := by
  have hint : ((n : Int) < (wordBound : Int)) := by exact_mod_cast h
  simp [nat, word64?, hint]

end Document

namespace Script

open Document (Blanks Gives IsBody SpellsItems SpellsMembers blanks_nil spellsText_stringChars spells_numberChars
  spells_stringChars textOf)

/-! ## Options -/

/-- Pairs with new keys are put at the end one after another. -/
theorem pairs_foldl_insert {o : Options} {pairs : List (String × String)}
    (h : ((o.pairs ++ pairs).map Prod.fst).Nodup) :
    (pairs.foldl (fun o (key, value) => o.insert key value) o).pairs = o.pairs ++ pairs := by
  induction pairs generalizing o with
  | nil => simp
  | cons pair pairs ih =>
    obtain ⟨key, value⟩ := pair
    have hnew : key ∉ o.pairs.map Prod.fst := by
      intro hmem
      rw [List.map_append, List.map_cons, List.nodup_append] at h
      exact h.2.2 key hmem key List.mem_cons_self rfl
    have hinsert : (o.insert key value).pairs = o.pairs ++ [(key, value)] := assign_new value hnew
    rw [List.foldl_cons, ih (by rw [hinsert]; simpa using h), hinsert, List.append_assoc, List.singleton_append]

/-- The pairs of options are their options. -/
theorem ofList_pairs (o : Options) : Options.ofList o.pairs = o := by
  apply Options.ext
  exact pairs_foldl_insert (o := Options.empty) (by simpa using o.nodup)

/-! ## Nodes -/

/-- What is stored of a node. -/
structure StoredNode where
  command : String
  args : Option (List String)
  options : Option (List (String × String))
  line : Option Nat

/-- The node that is stored: what is not given is empty or zero. -/
def StoredNode.node (s : StoredNode) : Node where
  command := s.command
  args := s.args.getD []
  options := .ofList (s.options.getD [])
  line := s.line.getD 0

/-- The members of a record give what is stored of a node. -/
structure StoredNode.In (s : StoredNode) (members : List (String × Document)) : Prop where
  command : Gives members "command" (some (.text s.command))
  args : Gives members "args" (s.args.map Document.texts)
  options : Gives members "options" (s.options.map Document.textRecord)
  line : Gives members "line" (s.line.map Document.nat)
  line_lt : ∀ n, s.line = some n → n < wordBound

/-- A stored node is read. -/
theorem StoredNode.In.ofDocument? {s : StoredNode} {members : List (String × Document)} (h : s.In members)
    (byPosition : Bool) : Node.ofDocument? byPosition (.named members) = some s.node := by
  have hgiven : ∀ name ∈ ["command", "args", "options", "line"], ∃ value, Gives members name value := by
    simp only [List.forall_mem_cons]
    exact ⟨⟨_, h.command⟩, ⟨_, h.args⟩, ⟨_, h.options⟩, ⟨_, h.line⟩, by simp⟩
  obtain ⟨f, hf, hlookup⟩ := Document.exists_fields_named byPosition hgiven
  have hcommand : f.required? "command" Document.text? = some s.command := by
    rw [Document.Fields.required?, hlookup "command" (by simp) _ h.command]
    rfl
  have hargs := Document.optional?_map [] (hlookup "args" (by simp) _ h.args) fun items _ => Document.texts?_texts items
  have hoptions := Document.optional?_map [] (hlookup "options" (by simp) _ h.options) fun pairs _ =>
    Document.textMembers?_textRecord pairs
  have hline := Document.optional?_map 0 (hlookup "line" (by simp) _ h.line) fun n hn =>
    Document.word64?_nat (h.line_lt n hn)
  simp only [Node.ofDocument?, hf, hcommand, hargs, hoptions, hline, Option.bind_eq_bind, Option.bind_some,
    Option.pure_def]
  rfl

/-- A document stores a node: it is a record that gives what is stored of the node. -/
def StoredNode.Is (s : StoredNode) (d : Document) : Prop :=
  ∃ members, d = .named members ∧ s.In members

/-! ## Programs -/

/-- A document stores nodes: it is a record that gives the list of them. -/
def StoredIn (stored : List StoredNode) (d : Document) : Prop :=
  ∃ members nodes, d = .named members ∧ Gives members "nodes" (some (.list nodes)) ∧
    List.Forall₂ StoredNode.Is stored nodes

/-- The program of stored nodes. -/
def storedProgram (stored : List StoredNode) : Program :=
  ⟨stored.map StoredNode.node⟩

/-- A stored program is read. -/
theorem StoredIn.ofDocument? {stored : List StoredNode} {d : Document} (h : StoredIn stored d) (byPosition : Bool) :
    Program.ofDocument? byPosition d = some (storedProgram stored) := by
  obtain ⟨members, nodes, rfl, hfield, hnodes⟩ := h
  have hgiven : ∀ name ∈ ["nodes"], ∃ value, Gives members name value := by
    rw [List.forall_mem_singleton]
    exact ⟨_, hfield⟩
  obtain ⟨f, hf, hlookup⟩ := Document.exists_fields_named byPosition hgiven
  have hread : nodes.mapM (Node.ofDocument? byPosition) = some (stored.map StoredNode.node) := by
    apply Document.mapM_eq_some
    rw [List.forall₂_map_right_iff]
    refine (List.Forall₂.imp ?_ hnodes).flip
    rintro s d ⟨members, rfl, hs⟩
    exact hs.ofDocument? byPosition
  have hitems : (f.required? "nodes" fun nodes => nodes.items?.bind fun items =>
      items.mapM (Node.ofDocument? byPosition)) = some (stored.map StoredNode.node) := by
    rw [Document.Fields.required?, hlookup "nodes" (by simp) _ hfield, Option.bind_some]
    exact hread
  simp only [Program.ofDocument?, hf, hitems, Option.bind_eq_bind, Option.bind_some, Option.pure_def]
  rfl

/-- A text that spells a stored program is read as the program. -/
theorem StoredIn.ofJson {stored : List StoredNode} {d : Document} {text : String} (h : StoredIn stored d)
    (hspells : d.Spells text.toList) : Program.ofJson text = .ok (storedProgram stored) := by
  rw [Program.ofJson, Document.ofJsonText?_of_spells hspells, Option.bind_some, h.ofDocument?]

/-! ## Written programs -/

/-- What is written of a node: all of it. -/
def Node.stored (n : Node) : StoredNode :=
  ⟨n.command, some n.args, some n.options.pairs, some n.line⟩

theorem Node.node_stored (n : Node) : n.stored.node = n := by
  simp [Node.stored, StoredNode.node, ofList_pairs]

theorem Node.is_toDocument {n : Node} (h : n.line < wordBound) : n.stored.Is n.toDocument := by
  refine ⟨_, rfl, ?_⟩
  constructor
  · simp [Gives, Node.stored]
  · simp [Gives, Node.stored]
  · simp [Gives, Node.stored, Document.textRecord]
  · simp [Gives, Node.stored]
  · rintro _ ⟨⟩
    exact h

theorem Node.held_toDocument {n : Node} (h : n.line < wordBound) : n.toDocument.Held 2 := by
  apply Document.Held.named
  simp only [List.forall_mem_cons, List.not_mem_nil, false_implies, implies_true, and_true]
  refine ⟨Document.held_text 1 _, ?_, ?_, Document.held_nat 1 h⟩
  · apply Document.Held.list
    rw [List.forall_mem_map]
    exact fun _ _ => Document.held_text 0 _
  · apply Document.Held.named
    rw [List.forall_mem_map]
    exact fun _ _ => Document.held_text 0 _

/-- What is written for a program stores its nodes. -/
theorem Program.storedIn_toDocument {p : Program} (h : ∀ n ∈ p.nodes, n.line < wordBound) :
    StoredIn (p.nodes.map Node.stored) p.toDocument := by
  refine ⟨_, p.nodes.map Node.toDocument, rfl, by simp [Gives], ?_⟩
  rw [List.forall₂_map_left_iff, List.forall₂_map_right_iff, List.forall₂_same]
  exact fun n hn => Node.is_toDocument (h n hn)

/-- JSON holds what is written for a program. -/
theorem Program.held_toDocument {p : Program} (h : ∀ n ∈ p.nodes, n.line < wordBound) : p.toDocument.Held 4 := by
  apply Document.Held.named
  rw [List.forall_mem_singleton]
  apply Document.Held.list
  rw [List.forall_mem_map]
  exact fun n hn => Node.held_toDocument (h n hn)

theorem Program.storedProgram_stored (p : Program) : storedProgram (p.nodes.map Node.stored) = p := by
  have hsame : StoredNode.node ∘ Node.stored = id := funext Node.node_stored
  rw [storedProgram, List.map_map, hsame, List.map_id]

/-- A program is read back from the text that is written for it.  The same holds of every other text in which a program
is stored: its members may come in any order, with others of any kind among them, and what is not given of a node is
empty or zero. -/
theorem stored_programs_read_back :
    (∀ p : Program, (∀ n ∈ p.nodes, n.line < wordBound) → Program.ofJson p.toJson = .ok p) ∧
      ∀ (text : String) (d : Document) (stored : List StoredNode), d.Spells text.toList → StoredIn stored d →
        Program.ofJson text = .ok (storedProgram stored) := by
  constructor
  · intro p h
    have hread := (Program.storedIn_toDocument h).ofJson (Program.held_toDocument h).spells
    rwa [Program.storedProgram_stored] at hread
  · intro text d stored hspells hstored
    exact hstored.ofJson hspells

/-- A program that no script expresses: quotes and a new line in a command, an empty argument, an option without a name,
and the greatest line. -/
def oddProgram : Program :=
  ⟨[⟨"load \"\\\n", ["", "\x01\x7fé"], .ofList [("z", "\t"), ("", "a: b")], 2 ^ 64 - 1⟩, ⟨"", [], .empty, 0⟩]⟩

/-- Two nodes, the first of them with its command behind its line, an escape that is not needed and a member that no node
has, which holds half of a surrogate pair. -/
def sparseText : String :=
  "\x7b\"nodes\": [\x7b\"line\": 7, \"mark\": [\"\\ud800\"], \"command\": \"f\\u0069t\"\x7d,\n" ++
    "  \x7b\"command\": \"quit\"\x7d]\x7d\n"

/-- The members of the first node. -/
def sparseMembers : List (String × Document) :=
  [("line", .nat 7), ("mark", .list [textOf "\\ud800".toList]), ("command", .text "fit")]

/-- The document that is spelled. -/
def sparseDocument : Document :=
  .named [("nodes", .list [.named sparseMembers, .named [("command", .text "quit")]])]

/-- What is stored in it: a command and a line, and a command alone. -/
def sparseNodes : List StoredNode :=
  [⟨"fit", none, none, some 7⟩, ⟨"quit", none, none, none⟩]

theorem spells_sparseMembers : (Document.named sparseMembers).Spells
    "\x7b\"line\": 7, \"mark\": [\"\\ud800\"], \"command\": \"f\\u0069t\"\x7d".toList := by
  have hblank : Blanks [' '] := by simp [Blanks, Json.isSpace]
  have hline : (Document.nat 7).Spells ['7'] := spells_numberChars (show Number.fits 7 = true by decide)
  have hmark : (Document.list [textOf "\\ud800".toList]).Spells "[\"\\ud800\"]".toList :=
    (SpellsItems.one (.text (.unit (n := 0xd800) (by decide) .nil))).list
  have hfit : IsBody "f\\u0069t".toList :=
    .plain (by decide) (by decide) (by decide)
      (.unit (n := 0x69) (by decide) (.plain (by decide) (by decide) (by decide) .nil))
  have hname := spellsText_stringChars hblank
  exact (SpellsMembers.cons (spellsText_stringChars blanks_nil "line") (.padded hblank hline blanks_nil)
    (.cons (hname "mark") (.padded hblank hmark blanks_nil)
      (.one (hname "command") (.padded hblank (.text hfit) blanks_nil)))).record

theorem spells_sparseText : sparseDocument.Spells sparseText.toList := by
  have hblank : Blanks [' '] := by simp [Blanks, Json.isSpace]
  have hbreak : Blanks ['\n', ' ', ' '] := by simp [Blanks, Json.isSpace]
  have hend : Blanks ['\n'] := by simp [Blanks, Json.isSpace]
  have hsecond : (Document.named [("command", .text "quit")]).Spells "\x7b\"command\": \"quit\"\x7d".toList :=
    (SpellsMembers.one (spellsText_stringChars blanks_nil "command")
      (.padded hblank (spells_stringChars "quit") blanks_nil)).record
  have hnodes := (SpellsItems.cons spells_sparseMembers (.one (.padded hbreak hsecond blanks_nil))).list
  have hrecord := (SpellsMembers.one (spellsText_stringChars blanks_nil "nodes")
    (.padded hblank hnodes blanks_nil)).record
  obtain ⟨s, hs, hsame⟩ : ∃ s, sparseDocument.Spells s ∧ s = sparseText.toList :=
    ⟨_, .padded blanks_nil hrecord hend, by decide +kernel⟩
  exact hsame ▸ hs

theorem storedIn_sparseDocument : StoredIn sparseNodes sparseDocument := by
  refine ⟨_, _, rfl, rfl, .cons ⟨sparseMembers, rfl, ?_⟩ (.cons ⟨_, rfl, ?_⟩ .nil)⟩
  · refine ⟨rfl, rfl, rfl, rfl, ?_⟩
    rintro _ ⟨⟩
    decide
  · refine ⟨rfl, rfl, rfl, rfl, ?_⟩
    rintro _ ⟨⟩

/-- Nothing of the one is lost, and what the other does not give is empty or zero. -/
theorem stored_programs_read_back_of_sparseText :
    Program.ofJson oddProgram.toJson = .ok oddProgram ∧
      Program.ofJson sparseText = .ok ⟨[⟨"fit", [], .empty, 7⟩, ⟨"quit", [], .empty, 0⟩]⟩ :=
  ⟨stored_programs_read_back.1 oddProgram (by decide),
    stored_programs_read_back.2 sparseText sparseDocument sparseNodes spells_sparseText storedIn_sparseDocument⟩

end Script
end TableFlow
