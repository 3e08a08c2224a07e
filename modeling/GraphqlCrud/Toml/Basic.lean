/-!
TOML values. A table remembers how it came to be, because that decides which later statements may
add to it. The entries of a table are in the order of their keys.
-/
namespace GraphqlCrud.Toml

/-- How a table came to be: on the way to a header, by its own header, on the way of a dotted key,
or as a value in braces. -/
inductive Origin where
  | implied
  | headed
  | dotted
  | braced
deriving Repr, DecidableEq

/-- Numbers and dates are told apart from other values, but what they say is not kept. -/
inductive Value where
  | text (value : String)
  | flag (value : Bool)
  | integer
  | float
  | moment
  | array (items : List Value) (isOfTables : Bool)
  | table (origin : Origin) (entries : List (String × Value))
deriving Repr

abbrev Entries := List (String × Value)

namespace Entries

def find? (entries : Entries) (key : String) : Option Value := entries.lookup key

def put (key : String) (value : Value) : Entries → Entries
  | [] => [(key, value)]
  | (k, v) :: rest =>
    if k = key then (key, value) :: rest
    else if key < k then (key, value) :: (k, v) :: rest
    else (k, v) :: put key value rest

end Entries
end GraphqlCrud.Toml
