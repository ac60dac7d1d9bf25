import Monkey.Value.Basic

/-
  What a program can do wrong.

  A `Complaint` becomes the message of an error value.  The
  complaints of builtin functions about their arguments are an
  own type, `ArgumentError`.
-/

namespace Monkey

------------------------------------------------------------
-- Arguments of Builtin Functions
------------------------------------------------------------

/- What can be wrong with the arguments of a builtin
   function. -/
inductive ArgumentError where
  | wrongCount (got : Nat) (want : Nat)
  | unsupported (b : Builtin) (got : ValueType)
  | notArray (b : Builtin) (got : ValueType)

namespace ArgumentError

/- What to tell about the arguments. -/
def message : ArgumentError → String
  | wrongCount got want =>
      "wrong number of arguments. got = " ++ toString got ++
        ", want = " ++ toString want
  | unsupported b got =>
      "argument to `" ++ b.name ++ "` not supported, got " ++
        got.name
  | notArray b got =>
      "argument to `" ++ b.name ++ "` must be ARRAY, got " ++
        got.name

end ArgumentError

------------------------------------------------------------
-- Complaints
------------------------------------------------------------

/- What an evaluation can complain about. -/
inductive Complaint where
  | unknownPrefix (operator : String) (right : ValueType)
  | unknownInfix
      (left : ValueType)
      (operator : String)
      (right : ValueType)
  | typeMismatch
      (left : ValueType)
      (operator : String)
      (right : ValueType)
  | divisionByZero
  | notFound (name : String)
  | notAFunction (type : ValueType)
  | notIndexable (type : ValueType)
  | unusableKey (type : ValueType)
  | argument (e : ArgumentError)

namespace Complaint

/- Two types with an operator between them. -/
def operation
    (left : ValueType)
    (operator : String)
    (right : ValueType) :
    String :=
  left.name ++ " " ++ operator ++ " " ++ right.name

/- The message of the error value. -/
def message : Complaint → String
  | unknownPrefix operator right =>
      "unknown operator: " ++ operator ++ right.name
  | unknownInfix left operator right =>
      "unknown operator: " ++ operation left operator right
  | typeMismatch left operator right =>
      "type mismatch: " ++ operation left operator right
  | divisionByZero => "division by zero"
  | notFound name => "identifier not found: " ++ name
  | notAFunction type => "not a function: " ++ type.name
  | notIndexable type =>
      "index operator not supported: " ++ type.name
  | unusableKey type =>
      "unusable as hash key: " ++ type.name
  | argument e => e.message

end Complaint

end Monkey
