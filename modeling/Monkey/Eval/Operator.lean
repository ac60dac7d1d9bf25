import Monkey.Eval.Complaint
import Monkey.Table
import Monkey.Value.HashKey

/-
  Operators and indexing on values.

  These are functions of their operands alone.  Integers are
  computed exactly, and division drops the fraction.  Equality
  of anything but two integers or two texts asks whether the
  operands are one object; texts have no equality.
-/

namespace Monkey

namespace Value

------------------------------------------------------------
-- Prefix Operators
------------------------------------------------------------

/- Apply a prefix operator. -/
def applyPrefix
    (operator : String)
    (right : Value) :
    Except Complaint Value :=
  match operator with
  | "!" => .ok (.bool !right.isTruthy)
  | "-" =>
      match right with
      | .int n => .ok (.int (-n))
      | v => .error (.unknownPrefix "-" v.type)
  | _ => .error (.unknownPrefix operator right.type)

------------------------------------------------------------
-- Infix Operators
------------------------------------------------------------

/- Apply an infix operator to integers. -/
def applyInteger
    (operator : String)
    (a : Int)
    (b : Int) :
    Except Complaint Value :=
  match operator with
  | "+" => .ok (.int (a + b))
  | "-" => .ok (.int (a - b))
  | "*" => .ok (.int (a * b))
  | "/" =>
      if b = 0 then
        .error .divisionByZero
      else
        .ok (.int (a.tdiv b))
  | "<" => .ok (.bool (a < b))
  | ">" => .ok (.bool (a > b))
  | "==" => .ok (.bool (a == b))
  | "!=" => .ok (.bool (a != b))
  | _ => .error (.unknownInfix .integer operator .integer)

/- Apply an infix operator to texts. -/
def applyText
    (operator : String)
    (a : String)
    (b : String) :
    Except Complaint Value :=
  match operator with
  | "+" => .ok (.str (a ++ b))
  | _ => .error (.unknownInfix .string operator .string)

/- Apply an infix operator to operands of any other types. -/
def applyObject
    (operator : String)
    (left : Value)
    (right : Value) :
    Except Complaint Value :=
  match operator with
  | "==" => .ok (.bool (left.same right))
  | "!=" => .ok (.bool (!left.same right))
  | _ =>
      if left.type = right.type then
        .error (.unknownInfix left.type operator right.type)
      else
        .error (.typeMismatch left.type operator right.type)

/- Apply an infix operator. -/
def applyInfix
    (operator : String)
    (left : Value)
    (right : Value) :
    Except Complaint Value :=
  match left, right with
  | .int a, .int b => applyInteger operator a b
  | .str a, .str b => applyText operator a b
  | l, r => applyObject operator l r

------------------------------------------------------------
-- Indexing
------------------------------------------------------------

/- The element at an index from zero, or null at any other
   index. -/
def elementAt
    (elements : List Value)
    (i : Int) :
    Value :=
  if i < 0 then
    .null
  else
    elements[i.toNat]?.getD .null

/- The value written for a key, or null for a new key. -/
def entryAt
    (entries : Table HashKey (HashPair Value))
    (key : HashKey) :
    Value :=
  match entries.find? key with
  | some pair => pair.value
  | none => .null

/- Index an array by an integer, or a hash by a key; asking for
   the key may fail. -/
def applyIndex
    [Platform]
    (left : Value)
    (subscript : Value) :
    Except Failure (Except Complaint Value) :=
  match left, subscript with
  | .array _ elements, .int i =>
      .ok (.ok (elementAt elements i))
  | .hash _ entries, v =>
      match v.hashKey? with
      | some key => do return .ok (entryAt entries (← key))
      | none => .ok (.error (.unusableKey v.type))
  | v, _ => .ok (.error (.notIndexable v.type))

end Value

end Monkey
