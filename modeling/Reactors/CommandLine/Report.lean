/-!
# Error reports

A failed command prints what it was doing and the chain of causes below.  A single cause is
indented; several are numbered.

## Main definitions

* `Report` — what failed, and its causes.
* `Report.text` — the printed report.
-/

namespace Reactors
namespace CommandLine

/-- What failed, and why: each cause is that of the one before. -/
structure Report where
  failure : String
  causes : List String
  deriving DecidableEq, Repr

/-- A text whose lines are set in: the first one behind a mark, the others behind as many
spaces. -/
def setIn (mark : String) (text : String) : String :=
  let margin := List.replicate mark.length ' '
  mark ++ String.ofList (text.toList.flatMap fun c => if c = '\n' then c :: margin else [c])

/-- The causes with their numbers in front. -/
def numbered : Nat → List String → List String
  | _, [] => []
  | n, cause :: rest =>
    let digits := toString n
    let mark := String.ofList (List.replicate (5 - digits.length) ' ') ++ digits ++ ": "
    setIn mark cause :: numbered (n + 1) rest

/-- The lines of the causes. -/
def causeTexts : List String → List String
  | [cause] => [setIn "    " cause]
  | causes => numbered 0 causes

/-- The printed report. -/
def Report.text (r : Report) : String :=
  let below := match r.causes with
    | [] => ""
    | causes => "\n\nCaused by:\n" ++ "\n".intercalate (causeTexts causes)
  "Error: " ++ r.failure ++ below ++ "\n"

end CommandLine
end Reactors
