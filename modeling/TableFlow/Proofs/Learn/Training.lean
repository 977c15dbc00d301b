import TableFlow.Proofs.Guarded.Models
import TableFlow.Proofs.Table.Keys
import TableFlow.Proofs.Text.Digit

/-!
# Labels of a trained model

A model tells classes apart by the keys of its target column.  The keys are taken once each and put in order, and a key
stands for its place among them, so that keys and places determine each other.  Where the target holds the codes of
names, the keys are the digits of the codes and are ordered as numbers are, so that the names are found in the order of
their codes.

Main results:

- Theorems `nodup_sortedKeys` and `sortedKeys_eq_map_toString`: the sorted keys are distinct, and those of codes are in
  the order of the codes.
- Definition `Model.FittedTo`: the classifier is fitted to samples that have the places of their keys as labels.
- Definition `Model.NamedByCodes`: the classes are the names at the codes that occur.
- Theorem `training_keeps_labels`: every model that is trained is fitted to the rows of the table with all their keys,
  and its classes have the names of their codes.
-/

namespace TableFlow

open Decimal

/-! ## Cells that hold codes -/

/-- The cell is this number, however it is written. -/
def Cell.IsCode (cell : Cell) (code : Nat) : Prop :=
  ∃ n : Number, n.Valid ∧ cell = .number n ∧ n.value = code

theorem Number.valid_nat {n : Nat} (h : n < 10 ^ 15) : (Number.int n).Valid := by
  have hsign : signBound = 9223372036854775808 := by decide
  have hword : wordBound = 18446744073709551616 := by decide
  rw [Number.Valid, Number.fits]
  simp only [Bool.and_eq_true, decide_eq_true_eq]
  omega

theorem Cell.isCode_nat {n : Nat} (h : n < 10 ^ 15) : Cell.IsCode (.nat n) n :=
  ⟨.int n, Number.valid_nat h, rfl, Int.cast_natCast n⟩

/-- The key of a code is its digits. -/
theorem Cell.IsCode.key?_eq {cell : Cell} {code : Nat} (h : IsCode cell code) (hcode : code < 10 ^ 15) :
    key? cell = some (toString code) := by
  obtain ⟨n, hvalid, rfl, hvalue⟩ := h
  have hnat := Number.valid_nat hcode
  have hsame : n.value = (Number.int code).value := hvalue.trans (Int.cast_natCast code).symm
  rw [← key?_nat hcode]
  exact congrArg some ((numberKey_eq_iff hvalid hnat).2 (hvalid.value_toFloat hnat hsame))

namespace Learn

variable {keys : List String} {codes : List Nat}

/-! ## Sorted keys -/

/-- The sorted keys are distinct. -/
theorem nodup_sortedKeys (keys : List String) : (sortedKeys keys).Nodup := by
  have hunique := nodup_of_pairwise_lt (ascending_sortKeys (keys.map fun key => (key, ()))).map_fst
  simp only [sortedKeys]
  split
  · exact (List.mergeSort_perm _ _).nodup_iff.2 hunique
  · exact hunique

/-- Keys that are read as numbers are in the order of these numbers. -/
theorem pairwise_sortedKeys (h : ∀ key ∈ keys, (read? key).isSome = true) :
    (sortedKeys keys).Pairwise fun a b => keyRank a ≤ keyRank b := by
  have hall : ((sortKeys (keys.map fun key => (key, ()))).map Prod.fst).all (fun key => (read? key).isSome) = true := by
    rw [List.all_eq_true]
    intro key hkey
    exact h key (mem_distinctKeys.1 hkey)
  have htrans : ∀ a b c : String, decide (keyRank a ≤ keyRank b) = true → decide (keyRank b ≤ keyRank c) = true →
      decide (keyRank a ≤ keyRank c) = true := by
    intro a b c hab hbc
    simp only [decide_eq_true_eq] at hab hbc ⊢
    omega
  have htotal : ∀ a b : String, (decide (keyRank a ≤ keyRank b) || decide (keyRank b ≤ keyRank a)) = true := by
    intro a b
    simp only [Bool.or_eq_true, decide_eq_true_eq]
    omega
  simp only [sortedKeys, hall, if_true]
  apply List.Pairwise.imp of_decide_eq_true
  exact List.pairwise_mergeSort htrans htotal _

/-- A larger code has a higher rank. -/
theorem keyRank_toString_lt {c d : Nat} (hcd : c < d) (hd : d < 10 ^ 15) :
    keyRank (toString c) < keyRank (toString d) := by
  have hread : ∀ n : Nat, keyRank (toString n) = rank (ofInt n) := by
    intro n
    rw [keyRank, show toString n = toString (n : Int) from rfl, read?_toString, Option.getD_some]
  obtain ⟨hfinite, hvalue⟩ := Cell.value_nat (hcd.trans hd)
  obtain ⟨hfinite', hvalue'⟩ := Cell.value_nat hd
  rw [hread, hread]
  by_contra hle
  have hvalues := value_le_of_rank_le hfinite' hfinite (not_lt.1 hle)
  rw [hvalue, hvalue', Int.cast_natCast, Int.cast_natCast, Nat.cast_le] at hvalues
  exact Nat.not_le_of_lt hcd hvalues

/-- The sorted keys of codes are the digits of the codes in increasing order, however many digits they have. -/
theorem sortedKeys_eq_map_toString (hcodes : codes.Pairwise (· < ·)) (hsmall : ∀ c ∈ codes, c < 10 ^ 15)
    (hkeys : ∀ key, key ∈ keys ↔ ∃ c ∈ codes, toString c = key) : sortedKeys keys = codes.map toString := by
  have hread : ∀ key ∈ keys, (read? key).isSome = true := by
    intro key hkey
    obtain ⟨c, _, rfl⟩ := (hkeys key).1 hkey
    rw [show toString c = toString (c : Int) from rfl, read?_toString]
    rfl
  have hdigits : (codes.map toString).Nodup :=
    List.Nodup.map Text.toString_injective (List.Pairwise.imp Nat.ne_of_lt hcodes)
  have hperm : (sortedKeys keys).Perm (codes.map toString) := by
    rw [List.perm_ext_iff_of_nodup (nodup_sortedKeys keys) hdigits]
    intro key
    rw [mem_sortedKeys, hkeys, List.mem_map]
  have hranks : (codes.map toString).Pairwise fun a b => keyRank a ≤ keyRank b := by
    rw [List.pairwise_map]
    exact hcodes.imp_of_mem fun _ hd hcd => Int.le_of_lt (keyRank_toString_lt hcd (hsmall _ hd))
  -- Both lists are in the order of the ranks, and no two codes have one rank.
  refine hperm.eq_of_pairwise (fun a b ha hb hab hba => ?_) (pairwise_sortedKeys hread) hranks
  obtain ⟨c, hc, rfl⟩ := (hkeys a).1 (mem_sortedKeys.1 ha)
  obtain ⟨d, hd, rfl⟩ := List.mem_map.1 hb
  rcases Nat.lt_trichotomy c d with hlt | rfl | hgt
  · exact absurd hba (Int.not_le.2 (keyRank_toString_lt hlt (hsmall d hd)))
  · rfl
  · exact absurd hab (Int.not_le.2 (keyRank_toString_lt hgt (hsmall c hc)))

/-! ## Keys of cells -/

variable {cells : List Cell} {target : String}

/-- Cells give labels if each of them has a key. -/
theorem labelKeys_eq_ok_iff : labelKeys target cells = .ok keys ↔ cells.map Cell.key? = keys.map some := by
  apply mapM_zipIdx_eq_ok_iff
  intro cell n key
  cases hkey : Cell.key? cell with
  | none => simp [hkey]
  | some found => simp [hkey]

theorem mem_iff_of_labelKeys (h : labelKeys target cells = .ok keys) {key : String} :
    key ∈ keys ↔ ∃ cell ∈ cells, Cell.key? cell = some key := by
  rw [← List.mem_map, labelKeys_eq_ok_iff.1 h]
  simp

/-- The class of a key is its place among the keys. -/
theorem Model.classIndex?_eq {m : Model} {key : String} (h : key ∈ m.classKeys) :
    m.classIndex? key = some (m.classKeys.idxOf key) :=
  List.findIdx?_eq_some_of_exists ⟨key, h, beq_self_eq_true key⟩

/-- The codes below a bound whose digits are the key of a cell. -/
def codesIn (bound : Nat) (cells : List Cell) : List Nat :=
  (List.range bound).filter fun c => cells.any fun cell => Cell.key? cell == some (toString c)

theorem pairwise_codesIn (bound : Nat) (cells : List Cell) : (codesIn bound cells).Pairwise (· < ·) :=
  List.pairwise_lt_range.filter _

theorem lt_of_mem_codesIn {bound c : Nat} (h : c ∈ codesIn bound cells) : c < bound :=
  List.mem_range.1 (List.mem_filter.1 h).1

theorem mem_codesIn_iff {bound c : Nat} :
    c ∈ codesIn bound cells ↔ c < bound ∧ ∃ cell ∈ cells, Cell.key? cell = some (toString c) := by
  simp [codesIn]

/-! ## Trained models -/

/-- The classifier of the model is fitted to these samples: they have the features of the rows of the table, all of
them weigh the same, and the label of each is the class that the model finds for its cell. -/
structure Model.FittedTo (m : Model) (defaultTrees : Nat) (r : Request) (samples : List Sample) : Prop where
  features_eq : featureMatrix r.table m.features = .ok (samples.map Sample.features)
  weight_eq : ∀ s ∈ samples, s.weight = 1.0
  labels_eq : (r.table.cellsOf r.target).map (fun cell => (Cell.key? cell).bind m.classIndex?) =
    samples.map fun s => some s.label
  classifier_eq : m.classifier =
    if m.classKeys.length = 1 then .constant
    else
      fitClassifier (max defaultTrees 1) m.classKeys.length (r.params.seed.getD r.seed) r.algorithm r.params samples

/-- The classes of the model are the names at the codes that occur, in the order of the codes, and each code finds its
name. -/
structure Model.NamedByCodes (m : Model) (names : List String) (cells : List Cell) (codes : List Nat) : Prop where
  increasing : codes.Pairwise (· < ·)
  mem_iff : ∀ c, c ∈ codes ↔ ∃ cell ∈ cells, Cell.IsCode cell c
  classKeys_eq : m.classKeys = codes.map toString
  classes_eq : m.classes.map some = codes.map (names[·]?)
  name_eq : ∀ c ∈ codes, ∃ name, names[c]? = some name ∧
    ((Cell.key? (.nat c)).bind m.classIndex?).bind (m.classes[·]?) = some name

/-- The model keeps the labels of the table that it was trained on: none is lost, no two become one class, and each has
its name. -/
structure Model.KeepsLabels (m : Model) (defaultTrees : Nat) (r : Request) : Prop where
  target_mem : r.target ∈ r.table.columns
  nodup : m.classKeys.Nodup
  mem_iff : ∀ key, key ∈ m.classKeys ↔ ∃ cell ∈ r.table.cellsOf r.target, Cell.key? cell = some key
  fitted : ∃ samples, m.FittedTo defaultTrees r samples
  named : ∀ names, r.names = some names → names.length < 10 ^ 15 →
    (∀ cell ∈ r.table.cellsOf r.target, ∃ c < names.length, Cell.IsCode cell c) →
    ∃ codes, m.NamedByCodes names (r.table.cellsOf r.target) codes

section

open Guarded (samplesOf modelOf Prepared)

variable {r : Request} {features : List String} {matrix : List Features}

theorem map_features_samplesOf (h : matrix.length = keys.length) :
    (samplesOf matrix keys).map Sample.features = matrix := by
  apply List.ext_getElem
  · rw [List.length_map, Guarded.length_samplesOf h, h]
  · intro i hi hrow
    simp [samplesOf]

theorem map_label_samplesOf (h : matrix.length = keys.length) :
    (samplesOf matrix keys).map Sample.label = keys.map fun key => (sortedKeys keys).idxOf key := by
  apply List.ext_getElem
  · rw [List.length_map, List.length_map, Guarded.length_samplesOf h]
  · intro i hi hkey
    simp [samplesOf]

theorem weight_of_mem_samplesOf {s : Sample} (h : s ∈ samplesOf matrix keys) : s.weight = 1.0 := by
  obtain ⟨i, hi, rfl⟩ := List.mem_iff_getElem.1 h
  simp [samplesOf]

/-- The samples that training makes are those that its classifier is fitted to. -/
theorem fittedTo_modelOf (defaultTrees : Nat) (hprepared : Prepared r features matrix keys)
    (hkeys : labelKeys r.target (r.table.cellsOf r.target) = .ok keys) :
    (modelOf defaultTrees r features matrix keys).FittedTo defaultTrees r (samplesOf matrix keys) where
  features_eq := by
    rw [map_features_samplesOf hprepared.length_eq]
    exact hprepared.matrix_eq
  weight_eq := fun _ hs => weight_of_mem_samplesOf hs
  labels_eq := by
    have hindex : ∀ key ∈ keys, (modelOf defaultTrees r features matrix keys).classIndex? key =
        some ((sortedKeys keys).idxOf key) := fun key hkey => Model.classIndex?_eq (mem_sortedKeys.2 hkey)
    calc (r.table.cellsOf r.target).map (fun cell => (Cell.key? cell).bind
            (modelOf defaultTrees r features matrix keys).classIndex?)
        = ((r.table.cellsOf r.target).map Cell.key?).map
            (·.bind (modelOf defaultTrees r features matrix keys).classIndex?) := by rw [List.map_map]; rfl
      _ = keys.map (modelOf defaultTrees r features matrix keys).classIndex? := by
          rw [labelKeys_eq_ok_iff.1 hkeys, List.map_map]
          rfl
      _ = (keys.map fun key => (sortedKeys keys).idxOf key).map some := by
          rw [List.map_map]
          exact List.map_congr_left hindex
      _ = (samplesOf matrix keys).map fun s => some s.label := by
          rw [← map_label_samplesOf hprepared.length_eq, List.map_map]
          rfl
  classifier_eq := rfl

/-- The name of a code is the name at its place. -/
theorem className_toString {names : List String} {c : Nat} {name : String} (hname : names[c]? = some name)
    (hc : c < 10 ^ 15) : className (some names) (toString c) = name := by
  have hword : c < wordBound := hc.trans (by decide)
  rw [className, nameOfCode?, Text.word64?_toString hword, Option.getD_some, Option.bind_some, hname, Option.getD_some]

/-- Where all cells hold codes of names, the keys of the cells are the digits of the codes that occur. -/
theorem mem_keys_iff_of_isCode {names : List String} (hfew : names.length < 10 ^ 15)
    (hcodes : ∀ cell ∈ cells, ∃ c < names.length, Cell.IsCode cell c)
    (hkeys : labelKeys target cells = .ok keys) (key : String) :
    key ∈ keys ↔ ∃ c ∈ codesIn names.length cells, toString c = key := by
  rw [mem_iff_of_labelKeys hkeys]
  constructor
  · rintro ⟨cell, hcell, hkey⟩
    obtain ⟨c, hc, hcode⟩ := hcodes cell hcell
    have hdigits := hcode.key?_eq (hc.trans hfew)
    refine ⟨c, mem_codesIn_iff.2 ⟨hc, cell, hcell, hdigits⟩, ?_⟩
    rw [hkey, Option.some.injEq] at hdigits
    exact hdigits.symm
  · rintro ⟨c, hc, rfl⟩
    exact (mem_codesIn_iff.1 hc).2

/-- A code occurs if a cell holds it. -/
theorem mem_codesIn_iff_isCode {names : List String} (hfew : names.length < 10 ^ 15)
    (hcodes : ∀ cell ∈ cells, ∃ c < names.length, Cell.IsCode cell c) (c : Nat) :
    c ∈ codesIn names.length cells ↔ ∃ cell ∈ cells, Cell.IsCode cell c := by
  rw [mem_codesIn_iff]
  constructor
  · rintro ⟨hc, cell, hcell, hkey⟩
    obtain ⟨d, hd, hcode⟩ := hcodes cell hcell
    have hdigits := hcode.key?_eq (hd.trans hfew)
    rw [hkey, Option.some.injEq] at hdigits
    rw [Text.toString_injective hdigits]
    exact ⟨cell, hcell, hcode⟩
  · rintro ⟨cell, hcell, hcode⟩
    obtain ⟨d, hd, hcode'⟩ := hcodes cell hcell
    have hsame : c = d := by
      obtain ⟨n, _, rfl, hvalue⟩ := hcode
      obtain ⟨n', _, hcell', hvalue'⟩ := hcode'
      cases hcell'
      exact_mod_cast hvalue.symm.trans hvalue'
    rw [← hsame] at hd
    exact ⟨hd, cell, hcell, hcode.key?_eq (hd.trans hfew)⟩

theorem namedByCodes_modelOf (defaultTrees : Nat) {names : List String} (hnames : r.names = some names)
    (hfew : names.length < 10 ^ 15)
    (hcodes : ∀ cell ∈ r.table.cellsOf r.target, ∃ c < names.length, Cell.IsCode cell c)
    (hkeys : labelKeys r.target (r.table.cellsOf r.target) = .ok keys) :
    (modelOf defaultTrees r features matrix keys).NamedByCodes names (r.table.cellsOf r.target)
      (codesIn names.length (r.table.cellsOf r.target)) := by
  have hbound : ∀ c ∈ codesIn names.length (r.table.cellsOf r.target), c < 10 ^ 15 :=
    fun c hc => (lt_of_mem_codesIn hc).trans hfew
  have hname : ∀ c ∈ codesIn names.length (r.table.cellsOf r.target),
      names[c]? = some (className r.names (toString c)) := by
    intro c hc
    have hsome := List.getElem?_eq_getElem (lt_of_mem_codesIn hc)
    rw [hnames, className_toString hsome (hbound c hc)]
    exact hsome
  have hclassKeys : sortedKeys keys = (codesIn names.length (r.table.cellsOf r.target)).map toString :=
    sortedKeys_eq_map_toString (pairwise_codesIn ..) hbound (mem_keys_iff_of_isCode hfew hcodes hkeys)
  refine ⟨pairwise_codesIn .., mem_codesIn_iff_isCode hfew hcodes, hclassKeys, ?_, fun c hc => ⟨_, hname c hc, ?_⟩⟩
  · rw [modelOf, hclassKeys, List.map_map, List.map_map]
    exact List.map_congr_left fun c hc => (hname c hc).symm
  · have hkey : toString c ∈ sortedKeys keys := by
      rw [hclassKeys]
      exact List.mem_map_of_mem hc
    rw [Cell.key?_nat (hbound c hc), Option.bind_some, Model.classIndex?_eq hkey, Option.bind_some, modelOf,
      List.getElem?_map, List.getElem?_idxOf hkey, Option.map_some]

end

/-- Training keeps the labels of the table, whatever they are. -/
theorem training_keeps_labels {defaultTrees : Nat} {r : Request} {m : Model} (h : train defaultTrees r = .ok m) :
    m.KeepsLabels defaultTrees r := by
  obtain ⟨features, matrix, keys, hprepared, htarget, hkeys, rfl⟩ := Guarded.prepared_of_train h
  refine ⟨htarget, nodup_sortedKeys keys, fun key => ?_, ⟨_, fittedTo_modelOf defaultTrees hprepared hkeys⟩, ?_⟩
  · exact mem_sortedKeys.trans (mem_iff_of_labelKeys hkeys)
  · intro names hnames hfew hcodes
    exact ⟨_, namedByCodes_modelOf defaultTrees hnames hfew hcodes hkeys⟩

/-- Names of thirteen codes. -/
def thirteenNames : List String :=
  ["a", "b", "c", "d", "e", "f", "g", "h", "i", "j", "k", "l", "m"]

/-- A table whose last column holds twelve of these codes, the largest first, and one of them once more as a double. -/
def codedRequest : Request where
  table := ⟨["x", "y"], ((List.range 12).reverse.map fun c => [.nat c, .nat c]) ++ [[.nat 5, .number (.float 2.0)]]⟩
  target := "y"
  algorithm := .decisionTree
  params := {}
  seed := 42
  names := some thirteenNames

theorem isCode_of_mem_codedRequest :
    ∀ cell ∈ codedRequest.table.cellsOf "y", ∃ c < thirteenNames.length, Cell.IsCode cell c := by
  have hcells : codedRequest.table.cellsOf "y" = (List.range 12).reverse.map Json.nat ++ [.number (.float 2.0)] := rfl
  intro cell hcell
  rw [hcells, List.mem_append, List.mem_singleton] at hcell
  rcases hcell with hcell | rfl
  · obtain ⟨c, hc, rfl⟩ := List.mem_map.1 hcell
    have hlt : c < 12 := List.mem_range.1 (List.mem_reverse.1 hc)
    exact ⟨c, hlt.trans (by decide), Cell.isCode_nat (hlt.trans (by decide))⟩
  · have htwo : ofInt 2 = 2.0 := by decide +kernel
    have hvalue : value (ofInt 2) = (2 : Int) := value_ofInt_of_le (by decide)
    refine ⟨2, by decide, .float 2.0, show isFinite 2.0 = true by decide +kernel, rfl, ?_⟩
    rw [htwo] at hvalue
    exact hvalue.trans (Int.cast_ofNat 2)

theorem training_keeps_labels_of_codedRequest :
    ∃ m, train 100 codedRequest = .ok m ∧ m.KeepsLabels 100 codedRequest ∧
      ∃ codes, m.NamedByCodes thirteenNames (codedRequest.table.cellsOf "y") codes := by
  have hok : (train 100 codedRequest).isOk = true := by decide +kernel
  cases htrain : train 100 codedRequest with
  | error e =>
      rw [htrain] at hok
      cases hok
  | ok m =>
      have hkeeps := training_keeps_labels htrain
      exact ⟨m, rfl, hkeeps, hkeeps.named _ rfl (by decide) isCode_of_mem_codedRequest⟩

end Learn
end TableFlow
