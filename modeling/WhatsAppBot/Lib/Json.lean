import Mathlib.Data.List.Basic

/-!
# JSON values and strings as a dynamically typed program reads them

`Json` is what a JSON decoder returns. `get?` is a dictionary's lookup (`none`: the value is not a
dictionary), `iter` what a `for` loop goes through (`none`: not iterable), `truthy` its truth value,
`text` its `str`. A float carries its printed form; what `str` prints for a list or a dictionary is
a parameter. `strip` removes Unicode white space at both ends.
-/

set_option autoImplicit false

namespace Lib

/-- `c.isspace()`. -/
def isSpace (c : Char) : Bool :=
  let n := c.toNat
  (9 ≤ n && n ≤ 13) || (28 ≤ n && n ≤ 32) || n == 0x85 || n == 0xa0 || n == 0x1680 ||
    (0x2000 ≤ n && n ≤ 0x200a) || n == 0x2028 || n == 0x2029 || n == 0x202f || n == 0x205f ||
    n == 0x3000

/-- `s.strip()`. -/
@[irreducible] def strip (s : String) : String :=
  String.ofList (((s.toList.dropWhile isSpace).reverse.dropWhile isSpace).reverse)

inductive Json where
  | null
  | bool (b : Bool)
  | int (n : Int)
  | float (repr : String)
  | str (s : String)
  | arr (xs : List Json)
  | obj (kvs : List (String × Json))

namespace Json

/-- The last binding of a key wins, as in a decoder that builds a dictionary. -/
def lookup (kvs : List (String × Json)) (key : String) : Option Json :=
  (kvs.reverse.find? fun kv => kv.1 == key).map (·.2)

/-- `j.get(key, default)`; `none` when `j` is not a dictionary. -/
def getD (j : Json) (key : String) (default : Json) : Option Json :=
  match j with
  | obj kvs => some ((lookup kvs key).getD default)
  | _ => none

/-- `j.get(key)` of a dictionary, `null` for anything else. -/
def field (j : Json) (key : String) : Json := (j.getD key null).getD null

/-- What `for x in j` goes through. -/
def iter : Json → Option (List Json)
  | arr xs => some xs
  | obj kvs => some (kvs.map fun kv => str kv.1)
  | str s => some (s.toList.map fun c => str (String.singleton c))
  | _ => none

def truthy : Json → Bool
  | null => false
  | bool b => b
  | int n => n ≠ 0
  | float repr => repr ≠ "0.0" && repr ≠ "-0.0"
  | str s => s ≠ ""
  | arr xs => !xs.isEmpty
  | obj kvs => !kvs.isEmpty

/-- `j or d`. -/
def orElse (j d : Json) : Json := if j.truthy then j else d

def isObj : Json → Bool
  | obj _ => true
  | _ => false

def str? : Json → Option String
  | str s => some s
  | _ => none

/-- `str(j)`. -/
def text (reprOf : Json → String) : Json → String
  | null => "None"
  | bool true => "True"
  | bool false => "False"
  | int n => toString n
  | float repr => repr
  | str s => s
  | j => reprOf j

/-- `str(j or "")`. -/
def textOr (reprOf : Json → String) (j : Json) : String := (j.orElse (str "")).text reprOf

end Json

end Lib
