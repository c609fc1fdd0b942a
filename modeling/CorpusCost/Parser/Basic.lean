/-!
# Readers of text

A reader takes the characters that are left of a text and answers in one of three ways: it read a
value and says what is left, it does not apply here, or it gave up for good. Alternatives,
options and repetitions try again after the second answer and never after the third.

Every reader is total. A repetition goes on only while its item shortens the text, and a grammar
refers to itself only for a text that is shorter than its own.
-/

set_option autoImplicit false

namespace CorpusCost

/-- What came of reading a construct at some place of a text. -/
inductive Outcome (α : Type) where
  /-- The construct was read; `rest` is what follows it. -/
  | read (value : α) (rest : List Char)
  /-- The construct does not stand here; another one may. -/
  | miss
  /-- Reading ends for good: brackets nest too deeply before `rest`. -/
  | tooDeep (rest : List Char)
  deriving DecidableEq, Repr

/-- A reader of one construct. -/
def Parser (α : Type) : Type := List Char → Outcome α

namespace Parser

variable {α β : Type}

/-- Reads nothing and answers `a`. -/
def succeed (a : α) : Parser α := fun s => .read a s

/-- Reads `p`, then what `f` makes of its value. -/
def andThen (p : Parser α) (f : α → Parser β) : Parser β := fun s =>
  match p s with
  | .read a rest => f a rest
  | .miss => .miss
  | .tooDeep rest => .tooDeep rest

/-- Reads `p`, or `q` where `p` does not apply. -/
def orElse (p q : Parser α) : Parser α := fun s =>
  match p s with
  | .read a rest => .read a rest
  | .miss => q s
  | .tooDeep rest => .tooDeep rest

instance : Monad Parser where
  pure := succeed
  bind := andThen

instance : OrElse (Parser α) where
  orElse p q := orElse p (q ())

@[simp] theorem pure_apply (a : α) (s : List Char) : (pure a : Parser α) s = .read a s := rfl

theorem bind_apply (p : Parser α) (f : α → Parser β) (s : List Char) :
    (p >>= f) s = andThen p f s := rfl

theorem bind_of_read {p : Parser α} {a : α} {s rest : List Char} (h : p s = .read a rest)
    (f : α → Parser β) : (p >>= f) s = f a rest := by
  simp [bind_apply, andThen, h]

theorem bind_of_miss {p : Parser α} {s : List Char} (h : p s = .miss) (f : α → Parser β) :
    (p >>= f) s = .miss := by
  simp [bind_apply, andThen, h]

theorem bind_of_tooDeep {p : Parser α} {s rest : List Char} (h : p s = .tooDeep rest)
    (f : α → Parser β) : (p >>= f) s = .tooDeep rest := by
  simp [bind_apply, andThen, h]

theorem orElse_of_read {p : Parser α} {a : α} {s rest : List Char} (h : p s = .read a rest)
    (q : Parser α) : (p <|> q) s = .read a rest := by
  change orElse p q s = _
  simp [orElse, h]

theorem orElse_of_miss {p : Parser α} {s : List Char} (h : p s = .miss) (q : Parser α) :
    (p <|> q) s = q s := by
  change orElse p q s = _
  simp [orElse, h]

theorem orElse_of_tooDeep {p : Parser α} {s rest : List Char} (h : p s = .tooDeep rest)
    (q : Parser α) : (p <|> q) s = .tooDeep rest := by
  change orElse p q s = _
  simp [orElse, h]

/-- Applies nowhere. -/
def never : Parser α := fun _ => .miss

/-- The first of `ps` that applies. -/
def firstOf : List (Parser α) → Parser α
  | [] => never
  | [p] => p
  | p :: ps => p <|> firstOf ps

/-- Reads `p` if it applies, and nothing otherwise. -/
def optional (p : Parser α) : Parser (Option α) := fun s =>
  match p s with
  | .read a rest => .read (some a) rest
  | .miss => .read none s
  | .tooDeep rest => .tooDeep rest

/-- Whether `p` was there to be read. -/
def present (p : Parser α) : Parser Bool :=
  (·.isSome) <$> optional p

/-- Applies where `p` does not, and reads nothing. -/
def absent (p : Parser α) : Parser Unit := fun s =>
  match p s with
  | .read _ _ => .miss
  | .miss => .read () s
  | .tooDeep rest => .tooDeep rest

/-- As many `p` in a row as apply. An item that reads nothing ends the row. -/
def many (p : Parser α) : Parser (List α) := fun s =>
  match p s with
  | .read a rest =>
    if rest.length < s.length then
      match many p rest with
      | .read as rest => .read (a :: as) rest
      | .miss => .miss
      | .tooDeep rest => .tooDeep rest
    else .read [] s
  | .miss => .read [] s
  | .tooDeep rest => .tooDeep rest
termination_by s => s.length

/-- At least one `p`. -/
def many1 (p : Parser α) : Parser (List α) := do
  let a ← p
  let as ← many p
  pure (a :: as)

/-- At least one `p`, with a `sep` between any two. A `sep` that no `p` follows is left unread. -/
def sepBy1 (sep : Parser β) (p : Parser α) : Parser (List α) := do
  let a ← p
  let as ← many (do let _ ← sep; p)
  pure (a :: as)

/-- Reads `p` between `opening` and `closing`. -/
def between {γ : Type} (opening : Parser β) (closing : Parser γ) (p : Parser α) : Parser α := do
  let _ ← opening
  let a ← p
  let _ ← closing
  pure a

/-! ## Single characters -/

/-- One character that satisfies `test`. -/
def satisfy (test : Char → Bool) : Parser Char
  | [] => .miss
  | c :: rest => if test c then .read c rest else .miss

@[simp] theorem satisfy_nil (test : Char → Bool) : satisfy test [] = .miss := rfl

theorem satisfy_cons (test : Char → Bool) (c : Char) (rest : List Char) :
    satisfy test (c :: rest) = if test c then .read c rest else .miss := rfl

/-- The character `c`. -/
def char (c : Char) : Parser Char := satisfy (· == c)

/-- Any character. -/
def anyChar : Parser Char := satisfy fun _ => true

/-- One of `cs`. -/
def oneOf (cs : List Char) : Parser Char := satisfy cs.contains

/-- A character that is none of `cs`. -/
def noneOf (cs : List Char) : Parser Char := satisfy fun c => !cs.contains c

/-- Exactly the characters `word`. -/
def chars : List Char → Parser Unit
  | [], s => .read () s
  | _ :: _, [] => .miss
  | w :: word, c :: rest => if c = w then chars word rest else .miss

/-- Exactly the text `word`. -/
def text (word : String) : Parser Unit := chars word.toList

/-- The longest run of characters that satisfy `test`, possibly empty. -/
def takeWhile (test : Char → Bool) : Parser (List Char) := fun s =>
  .read (s.takeWhile test) (s.dropWhile test)

/-- The longest run of characters that satisfy `test`, at least one. -/
def takeWhile1 (test : Char → Bool) : Parser (List Char) := do
  let c ← satisfy test
  let cs ← takeWhile test
  pure (c :: cs)

/-! ## Grammars that refer to themselves -/

/-- The grammar `body`, which may refer to itself, at any argument, for a text shorter than its
own. -/
def recursive {ι : Type} (body : (ι → Parser α) → ι → Parser α) (i : ι) : Parser α := fun s =>
  body (fun j rest => if rest.length < s.length then recursive body j rest else .miss) i s
termination_by s => s.length

/-! ## Nesting -/

/-- How deeply brackets nest at a place of a text, and how deeply they may. -/
structure Nesting where
  /-- Brackets open here. -/
  depth : Nat
  /-- The most that may be open; no limit when `none`. -/
  limit : Option Nat
  deriving DecidableEq, Repr

/-- Whether no further bracket may be opened. -/
def Nesting.full (nesting : Nesting) : Bool :=
  match nesting.limit with
  | none => false
  | some limit => decide (limit ≤ nesting.depth)

/-- The place inside one more bracket. -/
def Nesting.deeper (nesting : Nesting) : Nesting :=
  { nesting with depth := nesting.depth + 1 }

/-- Reads `p` inside a bracket just opened; where none may be opened, reading ends for good. -/
def nested (nesting : Nesting) (p : Nesting → Parser α) : Parser α := fun s =>
  if nesting.full then .tooDeep s else p nesting.deeper s

end Parser

end CorpusCost
