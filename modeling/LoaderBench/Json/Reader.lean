import LoaderBench.Json.Sequence

/-!
# Reading any value

Arrays and objects may nest, but no deeper than a limit: the bracket that would go below it is a
fault of its own. The recursion is on the nesting that is still allowed.
-/

namespace LoaderBench.Json

/-- How many brackets may be open at once. -/
def nestingLimit : Nat := 127

/-- Reads a value in which at most `depth` brackets are open at once. -/
def value : Nat → Reader Value
  | depth, s =>
    match skipBlanks s with
    | [] => .error (.in .endInValue [])
    | c :: rest =>
      if c = '[' then
        match depth with
        | 0 => .error (.in .tooDeep (c :: rest))
        | depth + 1 => do
          let (vs, rest) ← items (value depth) (rest.length + 1) true rest
          .ok (.array vs, rest)
      else if c = '\x7b' then
        match depth with
        | 0 => .error (.in .tooDeep (c :: rest))
        | depth + 1 => do
          let (ms, rest) ← pairs (value depth) (rest.length + 1) true rest
          .ok (.object ms, rest)
      else do
        let (a, rest) ← scalar (c :: rest)
        .ok (.scalar a, rest)

def parse (text : String) : Except Error Value := readAll (value nestingLimit) text

end LoaderBench.Json
