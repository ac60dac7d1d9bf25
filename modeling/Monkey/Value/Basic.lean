import Monkey.Syntax.Node

/-
  The values of the language.

  Integers, texts, the two booleans, and null are the same
  wherever they are equal.  Every other value is an object of
  its own and carries an `Identity`, given out when it is made;
  `Value.same` tells whether two values are one object.
  `HashKey` is what hashes compare keys by.
-/

namespace Monkey

------------------------------------------------------------
-- Types of Values
------------------------------------------------------------

/- The types that programs and messages tell apart. -/
inductive ValueType where
  | integer
  | boolean
  | null
  | returnValue
  | error
  | function
  | string
  | builtin
  | array
  | hash
deriving DecidableEq

namespace ValueType

/- The name of a type in messages. -/
def name : ValueType → String
  | integer => "INTEGER"
  | boolean => "BOOLEAN"
  | null => "NULL"
  | returnValue => "RETURN_VALUE"
  | error => "ERROR"
  | function => "FUNCTION"
  | string => "STRING"
  | builtin => "BUILTIN"
  | array => "ARRAY"
  | hash => "HASH"

end ValueType

------------------------------------------------------------
-- Builtin Functions
------------------------------------------------------------

/- The functions that every program can use. -/
inductive Builtin where
  | len
  | first
  | last
  | rest
  | push
  | puts
deriving DecidableEq

namespace Builtin

/- The name that a builtin function is called by. -/
def name : Builtin → String
  | len => "len"
  | first => "first"
  | last => "last"
  | rest => "rest"
  | push => "push"
  | puts => "puts"

/- Every builtin function once. -/
def all : List Builtin :=
  [len, first, last, rest, push, puts]

/- The builtin function of a given name. -/
def ofName? (text : String) : Option Builtin :=
  all.find? (·.name == text)

end Builtin

------------------------------------------------------------
-- Hash Pairs
------------------------------------------------------------

/- What a hash compares keys by: the type and a number. -/
structure HashKey where
  type : ValueType
  number : Int
deriving DecidableEq

/- What a hash holds for a key: the value that stood before the
   colon and the one that stood after it. -/
structure HashPair (α : Type) where
  key : α
  value : α

------------------------------------------------------------
-- Values
------------------------------------------------------------

/- Tells objects apart that look alike. -/
abbrev Identity := Nat

/- Names a scope of the machine. -/
abbrev ScopeId := Nat

/-
  The values.  `returned` marks a value on its way out of a
  function, and `error` one that ends the evaluation.  The last
  three are objects that no program makes: booleans and nulls
  other than the common ones, and an object without any form.
-/
inductive Value where
  | int (n : Int)
  | bool (b : Bool)
  | null
  | str (s : String)
  | returned (id : Identity) (value : Value)
  | error (id : Identity) (message : String)
  | function
      (id : Identity)
      (params : List Identifier)
      (body : Node)
      (scope : ScopeId)
  | builtin (b : Builtin)
  | array (id : Identity) (elements : List Value)
  | hash
      (id : Identity)
      (entries : List (HashKey × HashPair Value))
  | hostBool (id : Identity) (b : Bool)
  | hostNull (id : Identity)
  | hostObject (id : Identity)

namespace Value

/- The type of a value. -/
def type : Value → ValueType
  | int _ => .integer
  | bool _ => .boolean
  | null => .null
  | str _ => .string
  | returned _ _ => .returnValue
  | error _ _ => .error
  | function _ _ _ _ => .function
  | builtin _ => .builtin
  | array _ _ => .array
  | hash _ _ => .hash
  | hostBool _ _ => .boolean
  | hostNull _ => .null
  | hostObject _ => .null

/- Only `false` and `null` count as no. -/
def isTruthy : Value → Bool
  | bool false => false
  | null => false
  | _ => true

/- A value that ends the evaluation. -/
def isError : Value → Bool
  | error _ _ => true
  | _ => false

/- A value that ends a list of statements. -/
def isFinal : Value → Bool
  | returned _ _ => true
  | error _ _ => true
  | _ => false

/- Take one return mark off a value. -/
def unwrapReturned : Value → Value
  | returned _ v => v
  | v => v

/- Whether two values that are no integers or texts are one
   object. -/
def same : Value → Value → Bool
  | bool a, bool b => a == b
  | null, null => true
  | returned a _, returned b _ => a == b
  | error a _, error b _ => a == b
  | function a _ _ _, function b _ _ _ => a == b
  | builtin a, builtin b => a == b
  | array a _, array b _ => a == b
  | hash a _, hash b _ => a == b
  | hostBool a _, hostBool b _ => a == b
  | hostNull a, hostNull b => a == b
  | hostObject a, hostObject b => a == b
  | _, _ => false

end Value

end Monkey
