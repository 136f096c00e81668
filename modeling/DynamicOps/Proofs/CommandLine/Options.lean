import DynamicOps.CommandLine.Arguments
import DynamicOps.Proofs.Registry.Operators

/-!
Command lines that generate a module. Its words and options may stand in any order: the words are
settled where an option or the end follows, as operators in the order in which they stand, and every
option is kept until the end. The first word that is no operator decides otherwise.
-/

namespace DynamicOps

namespace GenerateArguments

-----------------------------------------------------------------------------------------
-- Words and options in any order
-----------------------------------------------------------------------------------------

/-- A word or an option on a command line that generates a module. -/
inductive Item
  | word (text : String)
  | bare
  | noHeader
  /-- The file is the next argument. -/
  | output (file : String)
  /-- The file stands after an equals sign. -/
  | outputJoined (file : String)
deriving DecidableEq

namespace Item

/-- The arguments that an item is written as. -/
def arguments : Item → List String
  | word text => [text]
  | bare => ["--bare"]
  | noHeader => ["--no-header"]
  | output file => ["-o", file]
  | outputJoined file => ["--output=" ++ file]

/-- The word that an item is. -/
def word? : Item → Option String
  | word text => some text
  | _ => none

/-- The output file that an item gives. -/
def file? : Item → Option String
  | output file => some file
  | outputJoined file => some file
  | _ => none

/-- Arguments with the option that an item is; a word changes no option. -/
def set (a : GenerateArguments) : Item → GenerateArguments
  | word _ => a
  | bare => { a with bare := true }
  | noHeader => { a with header := false }
  | output file => { a with output := some file }
  | outputJoined file => { a with output := some file }

end Item

/-- The words among some items. -/
def words (items : List Item) : List String :=
  items.filterMap Item.word?

/-- The output files among some items. -/
def files (items : List Item) : List String :=
  items.filterMap Item.file?

/-- The text begins as an option does. -/
def OpensWithDash (text : String) : Prop :=
  text.toList.head? = some '-'

instance : DecidablePred OpensWithDash :=
  fun text => inferInstanceAs (Decidable (text.toList.head? = some '-'))

/-- Every option is given at most once, and only operators begin with a dash. -/
structure WellFormed (items : List Item) : Prop where
  bare : items.count .bare ≤ 1
  noHeader : items.count .noHeader ≤ 1
  output : (files items).length ≤ 1
  named : ∀ file ∈ files items, file ≠ "" ∧ ¬ OpensWithDash file
  plain : ∀ word ∈ words items, Operator.ofName? word = none → ¬ OpensWithDash word

theorem WellFormed.tail {item : Item} {items : List Item} (h : WellFormed (item :: items))
    : WellFormed items := by
  have hsub := List.sublist_cons_self item items
  exact {
    bare := Nat.le_trans (hsub.count_le _) h.bare
    noHeader := Nat.le_trans (hsub.count_le _) h.noHeader
    output := Nat.le_trans (hsub.filterMap _).length_le h.output
    named := fun file hfile => h.named file ((hsub.filterMap _).subset hfile)
    plain := fun word hword => h.plain word ((hsub.filterMap _).subset hword)
  }

/-- An item that is given once is not given again. -/
theorem not_mem_of_count_cons_le {item : Item} {items : List Item}
    (h : (item :: items).count item ≤ 1)
    : item ∉ items := by
  rw [List.count_cons_self] at h
  exact List.count_eq_zero.mp (by omega)

/-- No other file is given after an output file. -/
theorem WellFormed.files_eq_nil {item : Item} {items : List Item} {file : String}
    (h : WellFormed (item :: items)) (hfile : item.file? = some file)
    : files items = [] := by
  have honce := h.output
  rw [files, List.filterMap_cons_some hfile, List.length_cons] at honce
  exact List.eq_nil_of_length_eq_zero (Nat.le_zero.mp (Nat.le_of_succ_le_succ honce))

/-- Arguments that some items can be added to, since none of their options is given yet. -/
structure Takes (a : GenerateArguments) (items : List Item) : Prop where
  wellFormed : WellFormed items
  bare : .bare ∈ items → a.bare = false
  noHeader : .noHeader ∈ items → a.header = true
  output : ∀ file ∈ files items, a.output = none

theorem Takes.initial {items : List Item} (h : WellFormed items) : initial.Takes items :=
  ⟨h, fun _ => rfl, fun _ => rfl, fun _ _ => rfl⟩

/-- An item leaves room for the items after it, by cases on the option that it gives. -/
theorem Takes.tail {a : GenerateArguments} {item : Item} {items : List Item}
    (h : a.Takes (item :: items))
    : (item.set a).Takes items := by
  have hbare (hmem : .bare ∈ items) : item ≠ .bare ∧ a.bare = false := by
    refine ⟨?_, h.bare (List.mem_cons_of_mem _ hmem)⟩
    rintro rfl
    exact not_mem_of_count_cons_le h.wellFormed.bare hmem
  have hnoHeader (hmem : .noHeader ∈ items) : item ≠ .noHeader ∧ a.header = true := by
    refine ⟨?_, h.noHeader (List.mem_cons_of_mem _ hmem)⟩
    rintro rfl
    exact not_mem_of_count_cons_le h.wellFormed.noHeader hmem
  have houtput (file : String) (hfile : file ∈ files items)
      : item.file? = none ∧ a.output = none := by
    refine ⟨?_, h.output file (((List.sublist_cons_self item items).filterMap _).subset hfile)⟩
    cases hgiven : item.file? with
    | none => rfl
    | some given =>
        rw [h.wellFormed.files_eq_nil hgiven] at hfile
        cases hfile
  refine ⟨h.wellFormed.tail, fun hmem => ?_, fun hmem => ?_, fun file hfile => ?_⟩
  · cases item with
    | bare => exact absurd rfl (hbare hmem).1
    | word _ | noHeader | output _ | outputJoined _ => exact (hbare hmem).2
  · cases item with
    | noHeader => exact absurd rfl (hnoHeader hmem).1
    | word _ | bare | output _ | outputJoined _ => exact (hnoHeader hmem).2
  · cases item with
    | output _ | outputJoined _ => cases (houtput file hfile).1
    | word _ | bare | noHeader => exact (houtput file hfile).2

-----------------------------------------------------------------------------------------
-- The forms of arguments
-----------------------------------------------------------------------------------------

theorem argument_of_not_opensWithDash {text : String} (h : ¬ OpensWithDash text)
    : Argument.of text = .word := by
  unfold OpensWithDash at h
  unfold Argument.of
  split
  next heq => exact absurd (by rw [heq]; rfl) h
  next heq => exact absurd (by rw [heq]; rfl) h
  next heq => exact absurd (by rw [heq]; rfl) h
  next => rfl

/-- Every operator is a word, the lone dash included. -/
theorem argument_of_operator {text : String} {op : Operator} (h : Operator.ofName? text = some op)
    : Argument.of text = .word := by
  have hall : ∀ op ∈ Operator.all, Argument.of op.name = .word ∧ Argument.of op.symbol = .word := by
    decide
  obtain ⟨hname, hsymbol⟩ := hall op op.mem_all
  rcases Operator.eq_name_or_symbol_of_ofName? h with rfl | rfl
  · exact hname
  · exact hsymbol

theorem argument_of_outputJoined (file : String)
    : Argument.of ("--output=" ++ file) = .long "output" (some file) := by
  simp [Argument.of]

-----------------------------------------------------------------------------------------
-- Settled words
-----------------------------------------------------------------------------------------

theorem bind_congr_of_ok {ε α β : Type} {x : Except ε α} {f g : α → Except ε β}
    (h : ∀ y, x = .ok y → f y = g y)
    : x >>= f = x >>= g := by
  cases x with
  | error e => rfl
  | ok y => exact h y rfl

theorem settle_eq (a : GenerateArguments) (ws : List String)
    : a.settle ws = (ws.mapM operatorOfWord).map fun ops => { a with ops := a.ops ++ ops } := by
  rw [settle]
  cases ws.mapM operatorOfWord <;> rfl

theorem settle_append (a : GenerateArguments) (ws ws' : List String)
    : a.settle (ws ++ ws') = a.settle ws >>= fun a' => a'.settle ws' := by
  rw [settle_eq, settle_eq, List.mapM_append]
  cases ws.mapM operatorOfWord with
  | error e => rfl
  | ok ops =>
      cases hops : ws'.mapM operatorOfWord with
      | error e => simp [settle_eq, hops, Except.map, bind, Except.bind]
      | ok ops' => simp [settle_eq, hops, Except.map, bind, Except.bind, pure, Except.pure]

/-- Settled words change no option, and an option changes no operator. -/
theorem settle_set (a : GenerateArguments) (item : Item) (ws : List String)
    : (item.set a).settle ws = (a.settle ws).map item.set := by
  rw [settle_eq, settle_eq]
  cases ws.mapM operatorOfWord with
  | error e => rfl
  | ok ops => cases item <;> rfl

theorem Takes.settle {a b : GenerateArguments} {items : List Item} {ws : List String}
    (h : a.Takes items) (hsettle : a.settle ws = .ok b)
    : b.Takes items := by
  rw [settle_eq] at hsettle
  cases hops : ws.mapM operatorOfWord with
  | error e => simp [hops, Except.map] at hsettle
  | ok ops =>
      simp [hops, Except.map] at hsettle
      subst hsettle
      exact ⟨h.wellFormed, h.bare, h.noHeader, h.output⟩

-----------------------------------------------------------------------------------------
-- Runs
-----------------------------------------------------------------------------------------

theorem read_word {text : String} (h : Argument.of text = .word) (a : GenerateArguments)
    (pending rest : List String)
    : a.read pending (text :: rest) = a.read (pending ++ [text]) rest := by
  rw [read, h]

theorem setOutput_eq {a : GenerateArguments} {file : String} (houtput : a.output = none)
    (hname : file ≠ "")
    : a.setOutput file = .ok { a with output := some file } := by
  rw [setOutput, houtput]
  simp [hname]

/-- An option settles the words before it and is kept. -/
theorem read_option {a : GenerateArguments} {item : Item} {items : List Item}
    (h : a.Takes (item :: items)) (hitem : item.word? = none) (pending rest : List String)
    : a.read pending (item.arguments ++ rest)
      = a.settle pending >>= fun b => (item.set b).read [] rest := by
  cases item with
  | word _ => cases hitem
  | bare =>
      have hform : Argument.of "--bare" = .long "bare" none := rfl
      simp only [Item.arguments, List.singleton_append, read, hform, GenerateOption.of?]
      refine bind_congr_of_ok fun b hsettle => ?_
      rw [(h.settle hsettle).bare List.mem_cons_self]
      rfl
  | noHeader =>
      have hform : Argument.of "--no-header" = .long "no-header" none := rfl
      simp only [Item.arguments, List.singleton_append, read, hform, GenerateOption.of?]
      refine bind_congr_of_ok fun b hsettle => ?_
      rw [(h.settle hsettle).noHeader List.mem_cons_self]
      rfl
  | output file =>
      have hfile : file ∈ files (.output file :: items) := List.mem_cons_self
      obtain ⟨hname, hdash⟩ := h.wellFormed.named file hfile
      have hform : Argument.of "-o" = .short ['o'] := rfl
      simp only [Item.arguments, List.cons_append, List.nil_append, read, hform,
        GenerateOption.of?, argument_of_not_opensWithDash hdash]
      refine bind_congr_of_ok fun b hsettle => ?_
      rw [if_pos trivial, setOutput_eq ((h.settle hsettle).output file hfile) hname]
      rfl
  | outputJoined file =>
      have hfile : file ∈ files (.outputJoined file :: items) := List.mem_cons_self
      obtain ⟨hname, -⟩ := h.wellFormed.named file hfile
      simp only [Item.arguments, List.singleton_append, read, argument_of_outputJoined,
        GenerateOption.of?]
      refine bind_congr_of_ok fun b hsettle => ?_
      rw [setOutput_eq ((h.settle hsettle).output file hfile) hname]
      rfl

/-- A run over words and options settles all words in their order and keeps all options, by
induction over the items: a word waits with those before it, and an option settles them.
-/
theorem read_items {a : GenerateArguments} {items : List Item} (h : a.Takes items)
    (pending : List String)
    : a.read pending (items.flatMap Item.arguments)
      = (a.settle (pending ++ words items)).map fun b => items.foldl Item.set b := by
  induction items generalizing a pending with
  | nil =>
      rw [words, List.filterMap_nil, List.append_nil, List.flatMap_nil, read]
      cases a.settle pending <;> rfl
  | cons item items ih =>
      rw [List.flatMap_cons]
      cases hword : item.word? with
      | none =>
          rw [read_option h hword, words, List.filterMap_cons_none hword, ← words, settle_append]
          have htail (b : GenerateArguments) (hsettle : a.settle pending = .ok b)
              : (item.set b).read [] (items.flatMap Item.arguments)
                = ((b.settle (words items)).map item.set).map fun c => items.foldl Item.set c := by
            rw [ih (h.settle hsettle).tail, List.nil_append, settle_set]
          refine (bind_congr_of_ok htail).trans ?_
          cases a.settle pending with
          | error e => rfl
          | ok b =>
              change ((b.settle (words items)).map item.set).map _ = (b.settle (words items)).map _
              cases b.settle (words items) <;> rfl
      | some text =>
          obtain rfl : item = .word text := by
            cases item <;> cases hword
            rfl
          have hform : Argument.of text = .word := by
            cases hop : Operator.ofName? text with
            | some op => exact argument_of_operator hop
            | none =>
                exact argument_of_not_opensWithDash
                  (h.wellFormed.plain text List.mem_cons_self hop)
          have htail : a.Takes items := h.tail
          rw [Item.arguments, List.singleton_append, read_word hform, ih htail, List.append_assoc]
          rfl

-----------------------------------------------------------------------------------------
-- Operators
-----------------------------------------------------------------------------------------

/-- Words that all name operators are settled as these. -/
theorem mapM_operatorOfWord_eq_ok {ws : List String} {ops : List Operator}
    (h : ws.map Operator.ofName? = ops.map some)
    : ws.mapM operatorOfWord = .ok ops := by
  induction ws generalizing ops with
  | nil =>
      cases ops with
      | nil => rfl
      | cons _ _ => cases h
  | cons w ws ih =>
      cases ops with
      | nil => cases h
      | cons op ops =>
          obtain ⟨hop, hops⟩ := List.cons_eq_cons.mp h
          rw [List.mapM_cons, operatorOfWord, hop, ih hops]
          rfl

/-- The first word that names no operator is refused, by induction over the words before it. -/
theorem mapM_operatorOfWord_eq_error {before after : List String} {word : String}
    (hbefore : ∀ w ∈ before, Operator.ofName? w ≠ none) (hword : Operator.ofName? word = none)
    : (before ++ word :: after).mapM operatorOfWord = .error (.unknownOperator word) := by
  induction before with
  | nil =>
      rw [List.nil_append, List.mapM_cons, operatorOfWord, hword]
      rfl
  | cons w before ih =>
      obtain ⟨hw, hrest⟩ := List.forall_mem_cons.mp hbefore
      obtain ⟨op, hop⟩ := Option.ne_none_iff_exists'.mp hw
      rw [List.cons_append, List.mapM_cons, operatorOfWord, hop, ih hrest]
      rfl

-----------------------------------------------------------------------------------------
-- Options
-----------------------------------------------------------------------------------------

theorem ops_foldl_set (items : List Item) (a : GenerateArguments)
    : (items.foldl Item.set a).ops = a.ops := by
  induction items generalizing a with
  | nil => rfl
  | cons item items ih =>
      rw [List.foldl_cons, ih]
      cases item <;> rfl

theorem bare_foldl_set (items : List Item) (a : GenerateArguments)
    : (items.foldl Item.set a).bare = true ↔ a.bare = true ∨ .bare ∈ items := by
  induction items generalizing a with
  | nil => simp
  | cons item items ih =>
      rw [List.foldl_cons, ih, List.mem_cons]
      cases item <;> simp [Item.set]

theorem header_foldl_set (items : List Item) (a : GenerateArguments)
    : (items.foldl Item.set a).header = true ↔ a.header = true ∧ .noHeader ∉ items := by
  induction items generalizing a with
  | nil => simp
  | cons item items ih =>
      rw [List.foldl_cons, ih, List.mem_cons]
      cases item <;> simp [Item.set]

theorem output_foldl_set (items : List Item) (a : GenerateArguments)
    : (items.foldl Item.set a).output = (files items).getLast?.or a.output := by
  induction items generalizing a with
  | nil => rfl
  | cons item items ih =>
      rw [List.foldl_cons, ih]
      cases item with
      | word _ | bare | noHeader => rfl
      | output file | outputJoined file =>
          simp [files, Item.file?, Item.set, List.getLast?_cons]

/-- What is asked for: the operators that words name, or all without any words, and the options
among the items.
-/
structure Requested (items : List Item) (ops : List Operator) (a : GenerateArguments) : Prop where
  operators : a.operators = if ops = [] then Operator.all else ops
  bare : a.bare = true ↔ .bare ∈ items
  header : a.header = true ↔ .noHeader ∉ items
  output (file : String) : a.output = some file ↔ file ∈ files items

theorem requested_foldl_set {items : List Item} (h : WellFormed items) (ops : List Operator)
    : (items.foldl Item.set { initial with ops := ops }).Requested items ops where
  operators := by
    rw [operators, ops_foldl_set]
    cases ops <;> rfl
  bare := (bare_foldl_set items _).trans (or_iff_right Bool.false_ne_true)
  header := (header_foldl_set items _).trans (and_iff_right rfl)
  output file := by
    rw [output_foldl_set]
    have honce := h.output
    cases hfiles : files items with
    | nil => simp [initial]
    | cons given more =>
        rw [hfiles, List.length_cons] at honce
        obtain rfl : more = [] := List.eq_nil_of_length_eq_zero (by omega)
        simp [eq_comm]

/-- Words and options may stand in any order. If all words name operators, these are generated in
the order of the words, with the options that are given; otherwise the first word that names none
is refused.
-/
theorem options_anywhere {items : List Item} (h : WellFormed items)
    : (∀ ops, (words items).map Operator.ofName? = ops.map some →
          ∃ a, Command.parse ("gen" :: items.flatMap Item.arguments) = .ok (.generate a)
            ∧ a.Requested items ops)
      ∧ ∀ before word after, words items = before ++ word :: after →
          (∀ w ∈ before, Operator.ofName? w ≠ none) → Operator.ofName? word = none →
          Command.parse ("gen" :: items.flatMap Item.arguments)
            = .error (.unknownOperator word) := by
  have hread := read_items (.initial h) []
  rw [List.nil_append, settle_eq] at hread
  constructor
  · intro ops hops
    rw [mapM_operatorOfWord_eq_ok hops] at hread
    refine ⟨_, ?_, requested_foldl_set h ops⟩
    rw [Command.parse, hread]
    rfl
  · intro before word after hwords hbefore hword
    rw [hwords, mapM_operatorOfWord_eq_error hbefore hword] at hread
    rw [Command.parse, hread]
    rfl

/-- A lone dash twice around options, and a word that is no operator after it. -/
theorem options_anywhere_lone_dash
    : (∃ a, Command.parse ["gen", "-", "--output=a=b", "less", "--bare", "-"] = .ok (.generate a)
        ∧ a.operators = [.compute .subtract, .order .less, .compute .subtract]
        ∧ a.bare = true ∧ a.header = true ∧ a.output = some "a=b")
      ∧ Command.parse ["gen", "-", "-o", "file", "power", "--no-header", "root"]
          = .error (.unknownOperator "power") := by
  have hgiven : WellFormed [.word "-", .outputJoined "a=b", .word "less", .bare, .word "-"] :=
    ⟨by decide, by decide, by decide, by decide, by decide⟩
  have hrefused : WellFormed [.word "-", .output "file", .word "power", .noHeader, .word "root"] :=
    ⟨by decide, by decide, by decide, by decide, by decide⟩
  obtain ⟨a, hparse, ha⟩ := (options_anywhere hgiven).1
    [.compute .subtract, .order .less, .compute .subtract] rfl
  refine ⟨⟨a, hparse, ha.operators, ha.bare.mpr (by decide), ha.header.mpr (by decide), ?_⟩, ?_⟩
  · exact (ha.output "a=b").mpr List.mem_cons_self
  · exact (options_anywhere hrefused).2 ["-"] "power" ["root"] rfl (by decide) rfl

end GenerateArguments

end DynamicOps
