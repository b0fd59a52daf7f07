import Shipment.Glob.Pattern

/-!
# The regular expression of a glob

A glob can be handed to an engine for regular expressions.  The expression is written
while the glob is read, construct by construct, and characters that mean something to
the engine get a backslash.  A glob that cannot be read has no expression.
-/

namespace Shipment.Glob

/-- The characters that mean something somewhere in an expression. -/
def isMeta : Char → Bool
  | '\\' | '.' | '+' | '*' | '?' | '(' | ')' | '|' | '[' | ']' | '\x7b' | '\x7d' | '^' | '$'
  | '#' | '&' | '-' | '~' => true
  | _ => false

/-- The characters that mean something in a class of an expression. -/
def isClassMeta : Char → Bool
  | '\\' | ']' | '[' | '^' | '-' | '&' | '~' => true
  | _ => false

/-- A character that stands for itself outside of classes. -/
def literalText (c : Char) : List Char :=
  if isMeta c then ['\\', c] else [c]

/-- A character that stands for itself in a class. -/
def memberText (c : Char) : List Char :=
  if isClassMeta c then ['\\', c] else [c]

/-- What is written for the range `low-high`.  A closing bracket in the place of `high`
makes the dash a member and closes the class, which the flag of the result says. -/
def rangeText (low high : Char) : Except GlobError (Bool × List Char) :=
  if high = ']' then .ok (true, memberText low ++ memberText '-' ++ [']'])
  else if high < low then .error (.invalidRange low high)
  else .ok (false, memberText low ++ '-' :: memberText high)

/-- A text in front of what is written for the rest. -/
def written (text : List Char) (rest : Except GlobError (List Char)) :
    Except GlobError (List Char) :=
  rest.map (text ++ ·)

mutual

/-- What is written for a text inside so many open braces. -/
def expressionFrom (depth : Nat) : List Char → Except GlobError (List Char)
  | [] => if depth = 0 then .ok [] else .error .unclosedBrace
  | ['\\'] => .error .trailingEscape
  | '\\' :: c :: rest => written (literalText c) (expressionFrom depth rest)
  | '*' :: '*' :: rest => written ".*".toList (expressionFrom depth rest)
  | '*' :: rest => written "[^/]*".toList (expressionFrom depth rest)
  | '?' :: rest => written "[^/]".toList (expressionFrom depth rest)
  | '[' :: '!' :: rest => written "[^/".toList (membersFrom depth false rest)
  | '[' :: '^' :: rest => written "[^/".toList (membersFrom depth false rest)
  | '[' :: rest => written ['['] (membersFrom depth false rest)
  | '\x7b' :: rest => written "(?:".toList (expressionFrom (depth + 1) rest)
  | ',' :: rest =>
    match depth with
    | 0 => written (literalText ',') (expressionFrom 0 rest)
    | outer + 1 => written ['|'] (expressionFrom (outer + 1) rest)
  | '\x7d' :: rest =>
    match depth with
    | 0 => written (literalText '\x7d') (expressionFrom 0 rest)
    | outer + 1 => written [')'] (expressionFrom outer rest)
  | c :: rest => written (literalText c) (expressionFrom depth rest)

/-- What is written for the rest of a class and the text behind it; `nonempty` says
whether the class has a member. -/
def membersFrom (depth : Nat) (nonempty : Bool) : List Char → Except GlobError (List Char)
  | [] => .error .unclosedClass
  | ['\\'] => .error .unclosedClass
  | '\\' :: c :: '-' :: high :: rest =>
    match rangeText c high with
    | .error e => .error e
    | .ok (true, text) => written text (expressionFrom depth rest)
    | .ok (false, text) => written text (membersFrom depth true rest)
  | '\\' :: c :: rest => written (memberText c) (membersFrom depth true rest)
  | ']' :: rest =>
    if nonempty then written [']'] (expressionFrom depth rest) else .error .unclosedClass
  | c :: '-' :: high :: rest =>
    match rangeText c high with
    | .error e => .error e
    | .ok (true, text) => written text (expressionFrom depth rest)
    | .ok (false, text) => written text (membersFrom depth true rest)
  | c :: rest => written (memberText c) (membersFrom depth true rest)

end

/-- The expression of a glob, which is to match a whole text. -/
def expression (text : List Char) : Except GlobError (List Char) :=
  (expressionFrom 0 text).map fun body => '^' :: body ++ ['$']

end Shipment.Glob
