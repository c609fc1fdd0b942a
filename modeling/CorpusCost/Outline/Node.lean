import CorpusCost.Outline.Kind
import CorpusCost.Query.Printer

/-!
# Nodes of a query

A node is any part of a query with its kind: the uniform view that traversals and listings take of
the syntax. `Node.text` is the part as written.
-/

set_option autoImplicit false

namespace CorpusCost

/-- Any part of a query. -/
inductive Node where
  /-- A whole query. -/
  | query (query : Query)
  /-- A choice of chains. -/
  | sequence (sequence : Sequence)
  /-- A chain of elements. -/
  | chain (chain : Chain)
  /-- An element of a chain. -/
  | element (element : Element)
  /-- What may be repeated. -/
  | atom (atom : Atom)
  /-- A token with or without a label. -/
  | position (position : Position)
  /-- A token with its label. -/
  | labelled (label : Nat) (token : Token)
  /-- A token. -/
  | token (token : Token)
  /-- Two tokens taken together. -/
  | pairing (pairing : Pairing)
  /-- Either of two tokens. -/
  | union (left right : Position)
  /-- A token with another near it. -/
  | meet (left right : Position) (window : Option (Int × Int))
  /-- A repetition. -/
  | repetition (repetition : Repetition)
  /-- The beginning of a structure. -/
  | opening (struct : Structure) (selfClosing : Bool)
  /-- The end of a structure. -/
  | closing (struct : Structure)
  /-- A structure. -/
  | struct (struct : Structure)
  /-- Alternatives of conditions. -/
  | disjunction (alternatives : Disjunction)
  /-- Conditions that hold together. -/
  | conjunction (conditions : Conjunction)
  /-- A condition on a token. -/
  | condition (condition : Condition)
  /-- A block. -/
  | block (block : Block)
  /-- The scope of a block. -/
  | scope (scope : Scope)
  /-- A number of tokens as a scope. -/
  | scopeNumber (number : Nat)
  /-- A sequence in an aligned corpus. -/
  | aligned (corpus : String) (sequence : Sequence)
  /-- All conditions across tokens. -/
  | globals (conditions : List GlobalCondition)
  /-- A condition across tokens. -/
  | globalCondition (condition : GlobalCondition)
  /-- A regular expression. -/
  | regex (regex : Regex)
  /-- A branch of an expression. -/
  | branch (branch : Regex.Branch)
  /-- A bracketed choice of branches. -/
  | group (branches : List Regex.Branch)
  /-- An unbroken row of atoms. -/
  | row (atoms : List Regex.Atom)
  /-- A look-around. -/
  | look (text : String)
  /-- A character class. -/
  | charClass (charClass : Regex.CharClass)
  /-- A member of a character class. -/
  | member (member : Regex.Member)
  /-- A symbol. -/
  | symbol (symbol : Regex.Symbol)
  /-- Counting bounds. -/
  | range (bounds : Bounds)
  /-- The numbers of counting bounds. -/
  | rangeBounds (bounds : Bounds)
  /-- A named class standing alone. -/
  | namedClass (name : String)
  /-- The sign of an end of the word. -/
  | anchor (sign : Char)
  /-- A repetition sign. -/
  | repeater (sign : Char)
  /-- The sign for any character. -/
  | wildcard
  /-- A question mark. -/
  | questionMark
  /-- A literal text with its quotes. -/
  | quotedLiteral (value : String)
  /-- A literal text. -/
  | literal (value : String)
  /-- A letter of a literal text. -/
  | letter (letter : Char)

namespace Node

/-- The kind of a node. -/
def kind : Node → Kind
  | .query _ => .query
  | .sequence _ => .sequence
  | .chain _ => .chain
  | .element _ => .element
  | .atom _ => .atom
  | .position _ => .position
  | .labelled _ _ => .labelled
  | .token _ => .token
  | .pairing _ => .pairing
  | .union _ _ => .union
  | .meet _ _ _ => .meet
  | .repetition _ => .repetition
  | .opening _ _ => .opening
  | .closing _ => .closing
  | .struct _ => .struct
  | .disjunction _ => .disjunction
  | .conjunction _ => .conjunction
  | .condition _ => .condition
  | .block _ => .block
  | .scope _ => .scope
  | .scopeNumber _ => .scopeNumber
  | .aligned _ _ => .aligned
  | .globals _ => .globals
  | .globalCondition _ => .globalCondition
  | .regex _ => .regex
  | .branch _ => .branch
  | .group _ => .group
  | .row _ => .row
  | .look _ => .look
  | .charClass _ => .charClass
  | .member _ => .member
  | .symbol _ => .symbol
  | .range _ => .range
  | .rangeBounds _ => .rangeBounds
  | .namedClass _ => .namedClass
  | .anchor _ => .anchor
  | .repeater _ => .repeater
  | .wildcard => .wildcard
  | .questionMark => .questionMark
  | .quotedLiteral _ => .quotedLiteral
  | .literal _ => .literal
  | .letter _ => .letter

/-- A node as written. A letter of a literal text is written without its escape. -/
def written : Node → List Char
  | .query q => q.written
  | .sequence s => s.written
  | .chain c => c.written
  | .element e => e.written
  | .atom a => a.written
  | .position p => p.written
  | .labelled n t => Position.written ⟨some n, t⟩
  | .token t => t.written
  | .pairing p => p.written
  | .union left right => Pairing.written (.union left right)
  | .meet left right window => Pairing.written (.meet left right window)
  | .repetition r => r.written
  | .opening s selfClosing => Element.written (.opening s selfClosing)
  | .closing s => Element.written (.closing s)
  | .struct s => s.written
  | .disjunction alternatives => Disjunction.written alternatives
  | .conjunction conditions => Conjunction.written conditions
  | .condition c => c.written
  | .block b => b.written
  | .scope s => s.written
  | .scopeNumber n => Text.natural n
  | .aligned corpus s => Scope.written (.aligned false corpus s)
  | .globals conditions => GlobalCondition.writtenAll conditions
  | .globalCondition c => c.written
  | .regex r => r.written
  | .branch b => Regex.Branch.written b
  | .group branches => Regex.Piece.written (.group branches)
  | .row atoms => Regex.Piece.written (.row atoms)
  | .look source => source.toList
  | .charClass c => c.written
  | .member m => m.written
  | .symbol s => s.written
  | .range b => b.written
  | .rangeBounds b => b.written
  | .namedClass name => Regex.Atom.written (.namedClass name)
  | .anchor sign => [sign]
  | .repeater sign => [sign]
  | .wildcard => ['.']
  | .questionMark => ['?']
  | .quotedLiteral value => CorpusCost.quotedLiteral value
  | .literal value => literalText value
  | .letter c => [c]

/-- The text of a node. -/
def text (node : Node) : String := String.ofList node.written

end Node

end CorpusCost
