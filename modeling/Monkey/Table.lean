/-
  Tables that keep the order of their keys.

  A `Table` lists each key once, with its value, in the order in
  which the keys first came up.  `insert` replaces the value of
  a key in place, and `find?` gives the value inserted last.
-/

namespace Monkey

------------------------------------------------------------
-- Tables
------------------------------------------------------------

/- Keys with their values, in the order of the keys. -/
abbrev Table (κ ν : Type) := List (κ × ν)

namespace Table

variable {κ ν : Type} [DecidableEq κ]

/- Write a value for a key: in place if the key is there, and
   else at the end. -/
def insert
    (key : κ)
    (value : ν) :
    Table κ ν → Table κ ν
  | [] => [(key, value)]
  | entry :: rest =>
      if entry.1 = key then
        (key, value) :: rest
      else
        entry :: insert key value rest

/- The value of a key. -/
def find?
    (key : κ) :
    Table κ ν → Option ν
  | [] => none
  | entry :: rest =>
      if entry.1 = key then
        some entry.2
      else
        find? key rest

end Table

end Monkey
