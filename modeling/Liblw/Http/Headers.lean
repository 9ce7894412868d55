import Liblw.CharConv

/-!
# Case-insensitive maps

`http::HeadersView` and `http::Headers`: a `std::map` under `CaseInsensitiveLess`, so that it holds
at most one key of each spelling up to case. The entries are listed in the order in which their keys
came in; the order of the map's own iteration plays no part in looking a name up.
-/

namespace Liblw.Http

/-- Names are the same when `std::toupper` makes them equal. `CaseInsensitiveCompare` gives the
difference of their sizes as an `int`, so that this is its answer for names of less than `2 ^ 31`
characters. -/
def sameName (first second : Text) : Bool :=
  first.map Char.toUpper == second.map Char.toUpper

abbrev HeadersView := List (Text × Text)

namespace HeadersView

/-- `find`, and `at` where the name is present. The names are taken to have less than `2 ^ 31`
characters. -/
def find (headers : HeadersView) (name : Text) : Option Text :=
  (List.find? (fun entry => sameName entry.1 name) headers).map Prod.snd

def contains (headers : HeadersView) (name : Text) : Bool := (headers.find name).isSome

/-- `insert`, which leaves an entry that is already there. -/
def insert (headers : HeadersView) (name value : Text) : HeadersView :=
  if headers.contains name then headers else headers ++ [(name, value)]

/-- `headers[name] = value`, which keeps the spelling of a key that is already there. -/
def assign (headers : HeadersView) (name value : Text) : HeadersView :=
  if headers.contains name then
    headers.map fun entry => if sameName entry.1 name then (entry.1, value) else entry
  else headers ++ [(name, value)]

end HeadersView

end Liblw.Http
