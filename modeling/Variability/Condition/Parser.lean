-- Reading presence conditions. Terms are joined by `|` or `||`, literals by
-- `&` or `&&`, and each of the text, its terms and its literals may stand in
-- one pair of parentheses.
import Variability.Condition.Basic
import Variability.Text.Split

namespace Variability

open Text

/-! ## Errors -/

/-- Why a text is not a condition. `source` is the whole text without the
blanks around it. -/
inductive ParseError
  | emptyTerm (source : String)
  | emptyLiteral (source : String)
  | unrecognisedLiteral (literal source : String)
deriving DecidableEq, Repr

def ParseError.message : ParseError → String
  | .emptyTerm source => "Empty term in condition '" ++ source ++ "'"
  | .emptyLiteral source => "Empty literal in condition '" ++ source ++ "'"
  | .unrecognisedLiteral literal source =>
    "Unrecognised literal '" ++ literal ++ "' in condition '" ++ source ++ "'"

namespace Condition

/-! ## Parentheses -/

/-- Whether a closing parenthesis before the last character brings the depth,
`depth` so far, back to zero. -/
def closesEarly (depth : Nat) : List Char → Bool
  | [] => false
  | c :: rest =>
    if c = '(' then closesEarly (depth + 1) rest
    else if c = ')' then (depth = 1 && !rest.isEmpty) || closesEarly (depth - 1) rest
    else closesEarly depth rest

/-- Whether the first and the last character are a pair of parentheses around
all the rest. -/
def isEnclosed (cs : List Char) : Bool :=
  cs.head? = some '(' && cs.getLast? = some ')' && !closesEarly 0 cs

/-- The text without the blanks at its ends and, if one pair of parentheses
encloses it, without that pair and the blanks inside it. -/
def unwrap (cs : List Char) : List Char :=
  let text := trim cs
  if isEnclosed text then trim text.tail.dropLast else text

theorem length_unwrap_le (cs : List Char) : (unwrap cs).length ≤ cs.length := by
  have h := length_trim_le cs
  simp only [unwrap]
  split
  · have h1 := length_trim_le (trim cs).tail.dropLast
    simp only [List.length_dropLast, List.length_tail] at h1
    omega
  · exact h

/-! ## Literals -/

def isNegation (c : Char) : Bool := c = '!' || c = '~'

/-- Takes the marks of negation off the start of a text, with the blanks among
them: whether their number, added to `negated`, is odd, and the rest. -/
def takeNegations (negated : Bool) : List Char → Bool × List Char
  | [] => (negated, [])
  | c :: rest =>
    if isNegation c then takeNegations (!negated) rest
    else if isBlank c then takeNegations negated rest
    else (negated, c :: rest)

theorem length_takeNegations_le (negated : Bool) (cs : List Char) :
    (takeNegations negated cs).2.length ≤ cs.length := by
  fun_induction takeNegations negated cs with
  | case1 => exact Nat.le_refl _
  | case2 _ _ _ _ ih => exact Nat.le_succ_of_le ih
  | case3 _ _ _ _ _ ih => exact Nat.le_succ_of_le ih
  | case4 => exact Nat.le_refl _

/-- The atom behind the marks of negation, and whether their number, added to
`negated`, is odd. Parentheses may stand around each of the negated parts. -/
def stripNegations (negated : Bool) (cs : List Char) : Bool × List Char :=
  match _h : unwrap cs with
  | [] => (negated, [])
  | c :: rest =>
    if isNegation c then
      match _hm : takeNegations (!negated) rest with
      | (odd, '(' :: inner) => stripNegations odd ('(' :: inner)
      | found => found
    else (negated, c :: rest)
termination_by cs.length
decreasing_by
  have h1 := length_unwrap_le cs
  have h2 := length_takeNegations_le (!negated) rest
  rw [_h] at h1
  rw [_hm] at h2
  simp only [List.length_cons] at h1 h2 ⊢
  omega

/-- The truth value of a constant. The digits `1` and `0` are constants only
where features are not numbered. -/
def constant? (numericConstants : Bool) (atom : List Char) : Option Bool :=
  if atom = "True".toList ∨ atom = "true".toList then some true
  else if atom = "False".toList ∨ atom = "false".toList then some false
  else if numericConstants ∧ atom = "1".toList then some true
  else if numericConstants ∧ atom = "0".toList then some false
  else none

/-- A name, if the text is nothing but name characters. -/
def bareName? (cs : List Char) : Option (List Char) :=
  if !cs.isEmpty && cs.all isNameChar then some cs else none

/-- The name between parentheses, with blanks around any of the three. -/
def enclosedName? (cs : List Char) : Option (List Char) :=
  match trimStart cs with
  | '(' :: inner =>
    let rest := trimStart inner
    if trimStart (rest.dropWhile isNameChar) = [')'] then bareName? (rest.takeWhile isNameChar)
    else none
  | _ => none

/-- The name after at least one blank. -/
def separateName? : List Char → Option (List Char)
  | [] => none
  | c :: rest => if isBlank c then bareName? (trimStart rest) else none

/-- The feature name of an atom: `definedEx(NAME)`, `defined(NAME)`,
`defined NAME` or `NAME`. -/
def atomName? (atom : List Char) : Option (List Char) :=
  ((afterWord? "definedEx".toList atom).bind enclosedName?) <|>
  ((afterWord? "defined".toList atom).bind enclosedName?) <|>
  ((afterWord? "defined".toList atom).bind separateName?) <|>
  bareName? atom

/-- What a written literal stands for. -/
inductive LiteralReading
  | constant (value : Bool)
  | literal (l : Literal)

/-- Reads one literal of the condition `source`. -/
def readLiteral (numericConstants : Bool) (source : String) (cs : List Char) :
    Except ParseError LiteralReading :=
  let (negated, atom) := stripNegations false cs
  if atom = [] then .error (.emptyLiteral source)
  else
    match constant? numericConstants atom with
    | some value => .ok (.constant (value != negated))
    | none =>
      match (atomName? atom).bind fun name => Literal.ofName? (String.ofList name) negated with
      | some l => .ok (.literal l)
      | none => .error (.unrecognisedLiteral (String.ofList (trim cs)) source)

/-! ## Terms -/

/-- The literals of a term. A false constant makes the term false, and what
stands behind it in the term is not looked at. -/
def readLiterals (numericConstants : Bool) (source : String) :
    List (List Char) → Except ParseError (Option (List Literal))
  | [] => .ok (some [])
  | cs :: rest =>
    match readLiteral numericConstants source cs with
    | .error e => .error e
    | .ok (.constant false) => .ok none
    | .ok (.constant true) => readLiterals numericConstants source rest
    | .ok (.literal l) =>
      (readLiterals numericConstants source rest).map fun ls? => ls?.map (l :: ·)

def readTerm (numericConstants : Bool) (source : String) (cs : List Char) :
    Except ParseError (Option (List Literal)) :=
  if unwrap cs = [] then .error (.emptyTerm source)
  else readLiterals numericConstants source (operands '&' (unwrap cs))

/-- The terms that no constant makes false, in order. -/
def readTerms (numericConstants : Bool) (source : String) :
    List (List Char) → Except ParseError (List Term)
  | [] => .ok []
  | cs :: rest =>
    match readTerm numericConstants source cs with
    | .error e => .error e
    | .ok none => readTerms numericConstants source rest
    | .ok (some ls) => (readTerms numericConstants source rest).map (Term.ofList ls :: ·)

/-- The written terms of a text. A blank text is true. -/
def parseTerms (numericConstants : Bool) (text : String) : Except ParseError (List Term) :=
  let source := trim text.toList
  if source = [] then .ok [Term.empty]
  else readTerms numericConstants (String.ofList source) (operands '|' (unwrap source))

/-- Reads a condition. -/
def parse (d : Dialect) (numericConstants : Bool) (text : String) : Except ParseError Condition :=
  (parseTerms numericConstants text).map (ofTerms d)

end Condition

end Variability
