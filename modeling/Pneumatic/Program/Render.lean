import Pneumatic.Program.Basic

/-!
# Structured text

The text of a program: the cases inside one `CASE` block, a line per statement,
four spaces deeper inside every block, then the timer calls.
-/

namespace Pneumatic

/-- A line and how deep it is indented. -/
structure Line where
  depth : Nat
  text : String
  deriving DecidableEq, Repr

/-- A line with its indentation. -/
def Line.render (line : Line) : String :=
  String.ofList (List.replicate (4 * line.depth) ' ') ++ line.text

/-- A number in decimal. -/
def decimal (value : Nat) : String :=
  String.ofList (Text.digits value)

/-- Signals joined by `AND`. -/
def Condition.render (condition : Condition) : String :=
  String.intercalate " AND " condition.terms

/-- A number, a variable, or a variable plus a number. -/
def Limit.render : Limit → String
  | .literal count => decimal count.toNat
  | .variable tag offset => if offset = 0 then tag else tag ++ " + " ++ decimal offset.toNat

/-- A time literal in milliseconds, or the conversion of a variable to a time. -/
def Preset.render : Preset → String
  | .fixed span => "T#" ++ decimal span.millis ++ "MS"
  | .variable tag offset =>
      let millis := (offset.map Duration.millis).getD 0
      if millis = 0 then "DINT_TO_TIME(" ++ tag ++ " * 1000)"
      else "DINT_TO_TIME(" ++ tag ++ " * 1000 + " ++ decimal millis ++ ")"

/-- An integer in decimal. -/
def signedDecimal : Int → String
  | .ofNat value => decimal value
  | .negSucc value => "-" ++ decimal (value + 1)

/-- One statement. -/
def Instruction.render : Instruction → String
  | .setBool tag value => tag ++ " := " ++ (if value then "TRUE" else "FALSE") ++ ";"
  | .setInt tag value => tag ++ " := " ++ signedDecimal value ++ ";"
  | .callTimer name power done elapsed preset =>
      name ++ "(IN := " ++ power ++ ", PT := " ++ preset.render ++ ", Q => " ++ done ++
        ", ET => " ++ elapsed ++ ");"

/-- Statements, one to a line. -/
def Instruction.lines (depth : Nat) (instructions : List Instruction) : List Line :=
  instructions.map fun instruction => ⟨depth, instruction.render⟩

/-- The lines of a transition. -/
def Transition.lines (depth : Nat) : Transition → List Line
  | .jump target => [⟨depth, "#NEXT := " ++ decimal target ++ ";"⟩]
  | .loop start => [⟨depth, "#NEXT := " ++ decimal start ++ ";"⟩]
  | .count counter limit start otherwise =>
      [⟨depth, counter ++ " := " ++ counter ++ " + 1;"⟩,
        ⟨depth, "IF " ++ counter ++ " < " ++ limit.render ++ " THEN"⟩,
        ⟨depth + 1, "#NEXT := " ++ decimal start ++ ";"⟩,
        ⟨depth, "ELSE"⟩,
        ⟨depth + 1, counter ++ " := 0;"⟩] ++
      otherwise.lines (depth + 1) ++
      [⟨depth, "END_IF;"⟩]

/-- The lines of a case. -/
def Case.lines (depth : Nat) (case : Case) : List Line :=
  [⟨depth, decimal case.number ++ ":"⟩] ++
    Instruction.lines (depth + 1) case.body ++
    match case.guard with
    | some guard =>
        [⟨depth + 1, "IF " ++ guard.render ++ " THEN"⟩] ++
          Instruction.lines (depth + 2) case.onExit ++
          case.next.lines (depth + 2) ++
          [⟨depth + 1, "END_IF;"⟩]
    | none => Instruction.lines (depth + 1) case.onExit ++ case.next.lines (depth + 1)

namespace Program

/-- The lines of a program before indentation. -/
def lines (program : Program) : List Line :=
  [⟨0, "CASE #NEXT OF"⟩] ++ program.cases.flatMap (Case.lines 1) ++ [⟨0, "END_CASE;"⟩] ++
    if program.calls.isEmpty then [] else ⟨0, ""⟩ :: Instruction.lines 0 program.calls

/-- The lines of a program. -/
def bodyLines (program : Program) : List String :=
  program.lines.map Line.render

/-- Lines as one text with a line end after each. -/
def joinLines (lines : List String) : String :=
  String.intercalate "\n" lines ++ "\n"

/-- The text of a program. -/
def code (program : Program) : String :=
  joinLines program.bodyLines

end Program

end Pneumatic
