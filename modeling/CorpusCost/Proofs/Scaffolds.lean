import CorpusCost.Proofs.CanonicalText
import CorpusCost.Proofs.Edits

/-!
# Parts in the text of a node

The text of a node has the texts of its parts in it, each once and in the order in which a walk
comes to them; what is left over the node writes itself. `Node.scaffold` is that remainder, read
off the node without a look at what its parts say: their number is all that matters, and in a
literal text which letters are escaped. `Node.carries_scaffold` says that the texts of the parts,
put into the scaffold, are the text of the node.
-/

set_option autoImplicit false

namespace CorpusCost

open Text (joined natural)

/-! ## Scaffolds -/

/-- The text that a node writes itself, with a gap for each part. -/
structure Scaffold where
  /-- What stands before the first part. -/
  lead : List Char
  /-- What stands behind each part. -/
  behind : List (List Char)
  deriving DecidableEq, Repr

namespace Scaffold

/-- The texts of parts put into their gaps. -/
def fill (scaffold : Scaffold) (texts : List (List Char)) : List Char :=
  scaffold.lead ++ (List.zipWith (· ++ ·) texts scaffold.behind).flatten

/-- The scaffold has a gap for each of the texts, and `text` is the scaffold with the texts in
them. -/
structure Carries (scaffold : Scaffold) (texts : List (List Char)) (text : List Char) : Prop where
  /-- There are as many gaps as texts. -/
  fits : scaffold.behind.length = texts.length
  /-- The gaps are filled in order. -/
  fill : scaffold.fill texts = text

/-- No parts. -/
def alone (text : List Char) : Scaffold := ⟨text, []⟩

/-- One part, with something on either side. -/
def around (before after : List Char) : Scaffold := ⟨before, [after]⟩

/-- Parts with a separator between any two, each with a head of its own before it. -/
def headed (before separator : List Char) (heads : List (List Char)) (after : List Char) :
    Scaffold :=
  match heads with
  | [] => alone (before ++ after)
  | head :: heads => ⟨before ++ head, heads.map (separator ++ ·) ++ [after]⟩

/-- A number of parts with a separator between any two. -/
def listed (before separator : List Char) (count : Nat) (after : List Char) : Scaffold :=
  headed before separator (List.replicate count []) after

theorem carries_alone (text : List Char) : (alone text).Carries [] text where
  fits := rfl
  fill := List.append_nil text

theorem carries_around (before text after : List Char) :
    (around before after).Carries [text] (before ++ text ++ after) where
  fits := rfl
  fill := by simp [Scaffold.fill, around]

/-- Behind a part stands what comes before the next one. -/
theorem flatten_behind (separator text : List Char) (parts : List (List Char × List Char))
    (after : List Char) :
    (List.zipWith (· ++ ·) (text :: parts.map Prod.snd)
      ((parts.map Prod.fst).map (separator ++ ·) ++ [after])).flatten =
        joined separator (text :: parts.map fun part => part.1 ++ part.2) ++ after := by
  rw [Parser.joined_cons]
  induction parts generalizing text with
  | nil => simp
  | cons part parts ih =>
    have hrest := ih part.2
    simp only [List.map_cons, List.cons_append, List.zipWith_cons_cons, List.flatten_cons,
      List.flatMap_cons] at hrest ⊢
    rw [hrest]
    simp

theorem carries_headed (before separator : List Char) (parts : List (List Char × List Char))
    (after : List Char) : (headed before separator (parts.map Prod.fst) after).Carries
      (parts.map Prod.snd)
      (before ++ joined separator (parts.map fun part => part.1 ++ part.2) ++ after) := by
  cases parts with
  | nil => exact ⟨rfl, by simp [headed, alone, Scaffold.fill]⟩
  | cons part parts =>
    have hbehind := flatten_behind separator part.2 parts after
    refine ⟨by simp [headed], ?_⟩
    simp only [headed, Scaffold.fill, List.map_cons]
    rw [hbehind, Parser.joined_cons, Parser.joined_cons]
    simp

theorem carries_listed {α : Type} (before separator : List Char) (items : List α)
    (written : α → List Char) (after : List Char) :
    (listed before separator items.length after).Carries (items.map written)
      (before ++ joined separator (items.map written) ++ after) := by
  have hcarries := carries_headed before separator (items.map fun item => ([], written item)) after
  simp only [List.map_map, Function.comp_def, List.nil_append] at hcarries
  rwa [List.map_const'] at hcarries

/-- A part that is all there is. -/
theorem carries_self (text : List Char) : (around [] []).Carries [text] text := by
  simpa using carries_around [] text []

end Scaffold

/-! ## Scaffolds of nodes -/

open Scaffold (alone around headed listed)

/-- What a letter has before it in a literal text. -/
def escapeHead (letter : Char) : List Char :=
  if letter = '"' ∨ letter = '\\' then ['\\'] else []

/-- What a test writes around the texts of its parts. -/
def Test.scaffold : Test → Scaffold
  | .exactly attr negated _ => around (attr.toList ++ bangText negated ++ ['=', '=']) []
  | .matching attr negated comparison _ =>
    around (attr.toList ++ bangText negated ++ comparison.written ++ ['"']) ['"']
  | .positionRange first last => alone (Test.positionRange first last).written
  | .position number => alone (Test.position number).written
  | .similarity keyword (.numbers first second) =>
    alone (Test.similarity keyword (.numbers first second)).written
  | .similarity keyword (.patterns _ _ _) =>
    listed (keyword.written ++ ['(', '"']) ['"', ',', ' ', '"'] 3 ['"', ')']

/-- What a node writes around the texts of its parts. -/
def Node.scaffold : Node → Scaffold
  | .query q =>
    headed [] [' '] ((q.sequence.map fun _ => []).toList ++
      (q.globals.map fun _ => ['&', ' ']).toList ++ q.blocks.map fun _ => []) []
  | .sequence s => listed [] [' ', '|', ' '] s.chains.length []
  | .chain c => listed (bangText c.negated) [' '] c.elements.length []
  | .element (.atom _ none) => around [] []
  | .element (.atom _ (some _)) => listed [] [] 2 []
  | .element (.opening _ _) => around [] []
  | .element (.closing _) => around [] []
  | .atom (.position _) => around [] []
  | .atom (.group _ blocks) => listed ['('] [' '] (blocks.length + 1) [')']
  | .position _ => around [] []
  | .labelled label _ => around (natural label ++ [':']) []
  | .token (.conditions none) => alone ['[', ']']
  | .token (.conditions (some _)) => around ['['] [']']
  | .token (.word _) => around ['"'] ['"']
  | .token (.anchored none _) => around ['~', '"'] ['"']
  | .token (.anchored (some number) _) => around ('~' :: natural number ++ ['"']) ['"']
  | .token .mu => alone "mu".toList
  | .token (.pairing _) => around [] []
  | .pairing _ => around [] []
  | .union _ _ => listed "(union ".toList [' '] 2 [')']
  | .meet _ _ window => listed "(meet ".toList [' '] 2 (windowText window ++ [')'])
  | .repetition r => alone r.written
  | .opening _ selfClosing => around ['<'] (if selfClosing then ['/', '>'] else ['>'])
  | .closing _ => around ['<', '/'] ['>']
  | .struct ⟨name, none⟩ => alone name.toList
  | .struct ⟨name, some _⟩ => around (name.toList ++ [' ']) []
  | .disjunction alternatives => listed [] [' ', '|', ' '] alternatives.length []
  | .conjunction conditions => listed [] [' ', '&', ' '] conditions.length []
  | .condition (.test t) => t.scaffold
  | .condition (.not _) => around ['!'] []
  | .condition (.bracketed bracket _) => around bracket.written [')']
  | .block b => around (bangText b.negated ++ b.keyword.written ++ [' ']) []
  | .scope (.sequence _) => around [] []
  | .scope (.number _) => around [] []
  | .scope (.aligned negated _ _) => around (bangText negated) []
  | .scopeNumber number => alone (natural number)
  | .aligned corpus _ => around (corpus.toList ++ [':']) []
  | .globals conditions => listed [] [' ', '&', ' '] conditions.length []
  | .globalCondition c => alone c.written
  | .regex r => listed [] ['|'] r.branches.length []
  | .branch pieces => listed [] [] pieces.length []
  | .group branches => listed ['('] ['|'] branches.length [')']
  | .row atoms => listed [] [] atoms.length []
  | .look source => alone source.toList
  | .charClass c => listed ('[' :: if c.negated then ['^'] else []) [] c.members.length [']']
  | .member (.symbol _) => around [] []
  | .member (.escaped source) => alone source.toList
  | .member (.span first last) => alone [first, '-', last]
  | .symbol (.literal source _) => alone source.toList
  | .symbol (.anchor _) => around [] []
  | .symbol (.repeater _) => around [] []
  | .symbol .any => around [] []
  | .symbol .questionMark => around [] []
  | .range _ => around [] []
  | .rangeBounds b => alone b.written
  | .namedClass name => alone (['[', '[', ':'] ++ name.toList ++ [':', ']', ']'])
  | .anchor sign => alone [sign]
  | .repeater sign => alone [sign]
  | .wildcard => alone ['.']
  | .questionMark => alone ['?']
  | .quotedLiteral _ => around ['"'] ['"']
  | .literal value => headed [] [] (value.toList.map escapeHead) []
  | .letter c => alone [c]

/-! ## Texts of parts -/

/-- The texts of the parts of a node. -/
def Node.partTexts (node : Node) : List (List Char) := node.parts.map fun part => part.label.written

namespace Regex

@[simp] theorem Symbol.written_label (symbol : Symbol) :
    symbol.outline.label.written = symbol.written := rfl

@[simp] theorem Member.written_label (member : Member) :
    member.outline.label.written = member.written := by
  cases member <;> rfl

@[simp] theorem Atom.written_label (atom : Atom) : atom.outline.label.written = atom.written := by
  cases atom <;> rfl

@[simp] theorem Piece.written_label (piece : Piece) :
    piece.outline.label.written = piece.written := by
  cases piece with
  | look source => rw [Piece.outline, Piece.written]; rfl
  | group branches => rw [Piece.outline_group]; rfl
  | row atoms => rw [Piece.outline_row]; rfl

end Regex

@[simp] theorem Regex.written_label (regex : Regex) :
    regex.outline.label.written = regex.written := rfl

@[simp] theorem Disjunction.written_label (alternatives : Disjunction) :
    (Disjunction.outline alternatives).label.written = Disjunction.written alternatives := rfl

@[simp] theorem Structure.written_label (struct : Structure) :
    struct.outline.label.written = struct.written := rfl

@[simp] theorem GlobalCondition.written_label (conditions : List GlobalCondition) :
    (GlobalCondition.outline conditions).label.written =
      GlobalCondition.writtenAll conditions := rfl

@[simp] theorem Condition.written_label (condition : Condition) :
    condition.outline.label.written = condition.written := by
  rw [outline_eq]
  rfl

@[simp] theorem Position.written_label (position : Position) :
    position.outline.label.written = position.written := by
  rw [outline_eq]
  rfl

@[simp] theorem Token.written_label (token : Token) :
    token.outline.label.written = token.written := by
  rw [outline_eq]
  rfl

@[simp] theorem Pairing.written_label (pairing : Pairing) :
    pairing.outline.label.written = pairing.written := by
  rw [outline_eq]
  rfl

@[simp] theorem Sequence.written_label (sequence : Sequence) :
    sequence.outline.label.written = sequence.written := by
  rw [outline_eq]
  rfl

@[simp] theorem Chain.written_label (chain : Chain) :
    chain.outline.label.written = chain.written := by
  rw [outline_eq]
  rfl

@[simp] theorem Element.written_label (element : Element) :
    element.outline.label.written = element.written := by
  rw [outline_eq]
  rfl

@[simp] theorem Atom.written_label (atom : Atom) : atom.outline.label.written = atom.written := by
  rw [outline_eq]
  rfl

@[simp] theorem Block.written_label (block : Block) :
    block.outline.label.written = block.written := by
  rw [outline_eq]
  rfl

@[simp] theorem Scope.written_label (scope : Scope) :
    scope.outline.label.written = scope.written := by
  rw [outline_eq]
  rfl

/-! ## Parts in their scaffolds -/

namespace Node

open Scaffold

attribute [local simp] scaffold partTexts parts Conjunction.outlines_eq_map
  Condition.outlines_eq_map Chain.outlines_eq_map Element.outlines_eq_map Block.outlines_eq_map
  Regex.Branch.outlines_eq_map Regex.Piece.outlines_eq_map Outline.leaf Function.comp_def
  Text.joined_cons_cons

/-- Parts that are written as `texts` are carried if `texts` are. -/
theorem carries_of_partTexts {node : Node} {texts : List (List Char)} {text : List Char}
    (htexts : node.partTexts = texts) (hcarries : node.scaffold.Carries texts text)
    (htext : node.written = text) : node.scaffold.Carries node.partTexts node.written := by
  rwa [htexts, htext]

/-- Each part of a query that is there, with what it has before it. -/
def queryParts (query : Query) : List (List Char × List Char) :=
  (query.sequence.map fun s => ([], s.written)).toList ++
    (query.globals.map fun g => (['&', ' '], GlobalCondition.writtenAll g)).toList ++
    query.blocks.map fun b => ([], b.written)

theorem carries_query (q : Query) :
    (scaffold (.query q)).Carries (partTexts (.query q)) q.written := by
  have hcarries := carries_headed [] [' '] (queryParts q) []
  obtain ⟨_ | s, _ | g, blocks⟩ := q <;>
    simpa [queryParts, Query.written] using hcarries

theorem carries_group (s : Sequence) (blocks : List Block) :
    (scaffold (.atom (.group s blocks))).Carries (partTexts (.atom (.group s blocks)))
      (Atom.written (.group s blocks)) := by
  have hcarries := carries_headed ['('] [' ']
    (([], s.written) :: blocks.map fun b => ([], b.written)) [')']
  have hblocks : Block.writtenEach blocks = blocks.flatMap fun b => ' ' :: b.written := by
    rw [Block.writtenEach_eq_flatMap]
    rfl
  rw [List.map_cons, List.map_cons, List.map_cons, Parser.joined_cons] at hcarries
  simpa [listed, Atom.written, hblocks, List.replicate_succ, List.flatMap_map, List.map_const']
    using hcarries

theorem carries_literal (value : String) :
    (scaffold (.literal value)).Carries (partTexts (.literal value)) (literalText value) := by
  have hcarries := carries_headed [] [] (value.toList.map fun c => (escapeHead c, [c])) []
  have hletters : literalText value =
      joined [] (value.toList.map fun c => escapeHead c ++ [c]) := by
    rw [literalText, Text.joined_empty, List.flatMap_def]
    congr 2
    funext c
    unfold escapedChar escapeHead
    split <;> rfl
  simpa [hletters, written] using hcarries

theorem carries_test (test : Test) :
    (scaffold (.condition (.test test))).Carries (partTexts (.condition (.test test)))
      test.written := by
  cases test with
  | exactly attr negated value =>
    have hcarries := carries_around (attr.toList ++ bangText negated ++ ['=', '='])
      (CorpusCost.quotedLiteral value) []
    rwa [List.append_nil] at hcarries
  | matching attr negated comparison regex =>
    have hcarries := carries_around (attr.toList ++ bangText negated ++ comparison.written ++ ['"'])
      regex.written ['"']
    simpa [Test.scaffold, Test.outlines, Test.written, Regex.quotedText] using hcarries
  | positionRange first last => exact carries_alone _
  | position number => exact carries_alone _
  | similarity keyword args =>
    cases args with
    | numbers first second => exact carries_alone _
    | patterns first second third =>
      have hcarries := carries_listed (keyword.written ++ ['(', '"']) ['"', ',', ' ', '"']
        [first, second, third] Regex.written ['"', ')']
      simpa [Test.scaffold, Test.outlines, SimilarityArgs.outlines, Test.written,
        SimilarityArgs.written, Regex.quotedText] using hcarries

theorem carries_condition (c : Condition) :
    (scaffold (.condition c)).Carries (partTexts (.condition c)) c.written := by
  cases c with
  | test t => exact carries_of_partTexts rfl (carries_test t) (by rw [written, Condition.written])
  | not inner =>
    exact carries_of_partTexts (by simp) (carries_around ['!'] inner.written [])
      (by simp [written, Condition.written])
  | bracketed bracket alternatives =>
    exact carries_of_partTexts (by simp)
      (carries_around bracket.written (Disjunction.written alternatives) [')'])
      (by simp [written, Condition.written])

theorem carries_token (t : Token) :
    (scaffold (.token t)).Carries (partTexts (.token t)) t.written := by
  rcases t with (_ | alternatives) | r | ⟨_ | n, r⟩ | _ | p
  · exact carries_alone _
  · exact carries_around ['['] (Disjunction.written alternatives) [']']
  · exact carries_around ['"'] r.written ['"']
  · exact carries_around ['~', '"'] r.written ['"']
  · have hcarries := carries_around ('~' :: natural n ++ ['"']) r.written ['"']
    exact carries_of_partTexts (by simp) hcarries
      (by simp [written, Token.written, Regex.quotedText])
  · exact carries_alone _
  · exact carries_of_partTexts (by simp) (carries_self p.written) (by simp [written, Token.written])

theorem carries_element (e : Element) :
    (scaffold (.element e)).Carries (partTexts (.element e)) e.written := by
  rcases e with ⟨a, _ | r⟩ | ⟨s, selfClosing⟩ | s
  · exact carries_of_partTexts (by simp) (carries_self a.written)
      (by simp [written, Element.written])
  · have hrepetition : written (.repetition r) = r.written := rfl
    exact carries_of_partTexts (by simp [hrepetition])
      (carries_listed [] [] [a.written, r.written] id []) (by simp [written, Element.written])
  · exact carries_self _
  · exact carries_self _

theorem carries_scope (s : Scope) :
    (scaffold (.scope s)).Carries (partTexts (.scope s)) s.written := by
  rcases s with s | n | ⟨negated, corpus, s⟩
  · exact carries_of_partTexts (by simp) (carries_self s.written) (by simp [written, Scope.written])
  · exact carries_self _
  · exact carries_of_partTexts (by simp [written])
      (carries_around (bangText negated) (Scope.written (.aligned false corpus s)) [])
      (by simp [written, Scope.written, bangText])

/-- The texts of the parts of a node, put into its scaffold, are the text of the node. -/
theorem carries_scaffold (node : Node) : node.scaffold.Carries node.partTexts node.written := by
  cases node with
  | query q => exact carries_query q
  | condition c => exact carries_condition c
  | token t => exact carries_token t
  | element e => exact carries_element e
  | scope s => exact carries_scope s
  | literal value => exact carries_literal value
  | atom a =>
    cases a with
    | position p =>
      exact carries_of_partTexts (by simp) (carries_self p.written)
        (by simp [written, Atom.written])
    | group s blocks => exact carries_group s blocks
  -- one part that is all there is
  | pairing p => cases p <;> exact carries_self _
  | range b => exact carries_self b.written
  | symbol s =>
    cases s with
    | literal source propertyClass => exact carries_alone _
    | _ => exact carries_self _
  | member m =>
    cases m with
    | symbol s => exact carries_self s.written
    | escaped source => exact carries_alone _
    | span first last => exact carries_alone _
  | position p =>
    rcases p with ⟨_ | n, t⟩
    · exact carries_of_partTexts (by simp) (carries_self t.written)
        (by simp [written, Position.written])
    · exact carries_self _
  -- one part between texts of the node
  | opening s selfClosing =>
    exact carries_around ['<'] s.written (if selfClosing then ['/', '>'] else ['>'])
  | closing s => exact carries_around ['<', '/'] s.written ['>']
  | quotedLiteral value => exact carries_around ['"'] (literalText value) ['"']
  | labelled n t =>
    exact carries_of_partTexts (by simp) (carries_around (natural n ++ [':']) t.written [])
      (by simp [written, Position.written])
  | struct s =>
    rcases s with ⟨name, _ | alternatives⟩
    · exact carries_alone _
    · exact carries_of_partTexts (by simp)
        (carries_around (name.toList ++ [' ']) (Disjunction.written alternatives) [])
        (by simp [written, Structure.written])
  | block b =>
    obtain ⟨negated, keyword, s⟩ := b
    exact carries_of_partTexts (by simp)
      (carries_around (bangText negated ++ keyword.written ++ [' ']) s.written [])
      (by simp [written, Block.written])
  | aligned corpus s =>
    exact carries_of_partTexts (by simp) (carries_around (corpus.toList ++ [':']) s.written [])
      (by simp [written, Scope.written, bangText])
  -- parts in a row
  | union l r =>
    have hcarries := carries_listed "(union ".toList [' '] [l, r] Position.written [')']
    exact carries_of_partTexts (by simp) hcarries (by simp [written, Pairing.written_union])
  | meet l r window =>
    have hcarries := carries_listed "(meet ".toList [' '] [l, r] Position.written
      (windowText window ++ [')'])
    exact carries_of_partTexts (by simp) hcarries (by simp [written, Pairing.written_meet])
  | sequence s =>
    obtain ⟨chains⟩ := s
    exact carries_of_partTexts (by simp) (carries_listed [] [' ', '|', ' '] chains Chain.written [])
      (by simp [written, Sequence.written, Chain.writtenChoice_eq_joined])
  | chain c =>
    obtain ⟨negated, elements⟩ := c
    exact carries_of_partTexts (by simp)
      (carries_listed (bangText negated) [' '] elements Element.written [])
      (by simp [written, Chain.written, Element.writtenRow_eq_joined])
  | disjunction alternatives =>
    exact carries_of_partTexts (by simp [written])
      (carries_listed [] [' ', '|', ' '] alternatives Conjunction.written [])
      (by simp [written, Disjunction.written_eq_joined])
  | conjunction conditions =>
    exact carries_of_partTexts (by simp)
      (carries_listed [] [' ', '&', ' '] conditions Condition.written [])
      (by simp [written, Conjunction.written_eq_joined])
  | globals conditions =>
    exact carries_of_partTexts (by simp [written])
      (carries_listed [] [' ', '&', ' '] conditions GlobalCondition.written [])
      (by simp [written, GlobalCondition.writtenAll])
  | regex r =>
    exact carries_of_partTexts (by simp [written])
      (carries_listed [] ['|'] r.branches Regex.Branch.written [])
      (by simp [written, Regex.written, Regex.Branch.writtenChoice_eq_joined])
  | branch pieces =>
    exact carries_of_partTexts (by simp) (carries_listed [] [] pieces Regex.Piece.written [])
      (by simp [written, Regex.Branch.written_eq_flatMap, Text.joined_empty, List.flatMap_def])
  | group branches =>
    exact carries_of_partTexts (by simp [written])
      (carries_listed ['('] ['|'] branches Regex.Branch.written [')'])
      (by simp [written, Regex.Piece.written, Regex.Branch.writtenChoice_eq_joined])
  | row atoms =>
    exact carries_of_partTexts (by simp) (carries_listed [] [] atoms Regex.Atom.written [])
      (by simp [written, Regex.Piece.written, Text.joined_empty, List.flatMap_def])
  | charClass c =>
    have hcarries := carries_listed ('[' :: if c.negated then ['^'] else []) [] c.members
      Regex.Member.written [']']
    exact carries_of_partTexts (by simp) hcarries
      (by simp [written, Regex.CharClass.written, Text.joined_empty, List.flatMap_def])
  -- no parts
  | repetition _ | scopeNumber _ | globalCondition _ | look _ | rangeBounds _ | namedClass _
  | anchor _ | repeater _ | wildcard | questionMark | letter _ => exact carries_alone _

end Node

/-- At every node of a query the outlines below are those of its parts, and the text of the node is
made of the texts of these parts in their order, each once, with text of the node itself before the
first and behind each of them. -/
theorem Query.parts_in_text (query : Query) : query.outline.Everywhere fun node parts =>
    node.scaffold.Carries (parts.map fun part => part.label.written) node.written := by
  refine Outline.Everywhere.imp ?_ query.outline query.isWhole_outline
  rintro node _ rfl
  exact node.carries_scaffold

/-- The gaps of a group: its brackets, the blank before its block, and nothing else. -/
example : (Node.atom (.group ⟨[]⟩ [⟨false, .within, .number 3⟩])).scaffold =
    ⟨['('], [[' '], [')']]⟩ := by
  decide

end CorpusCost
