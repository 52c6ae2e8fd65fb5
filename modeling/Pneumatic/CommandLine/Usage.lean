import Pneumatic.CommandLine.Invocation

/-!
# Usage

The help for the program and for each command: what it does, how it is called, and
a line for each command, operand and option.
-/

namespace Pneumatic.CommandLine

/-- What a command does. -/
def Verb.about : Verb → String
  | .init => "Write a default configuration"
  | .validate => "Check a sequence and list every problem"
  | .compile => "Compile a sequence to structured text"
  | .components => "List the components a sequence needs"
  | .simulate => "Run a sequence against a simulated controller"
  | .serve => "Serve NDJSON requests on stdin/stdout"
  | .help => "Print this message or the help of the given subcommand(s)"

/-- A heading with its entries: what stands on the command line and what it means. -/
structure Section where
  heading : String
  entries : List (String × String)

/-- The lines of a section, the meanings in one column. -/
def Section.lines (part : Section) : List String :=
  let width := (part.entries.map fun entry => entry.1.length).foldl max 0
  (part.heading ++ ":") :: part.entries.map fun (form, meaning) =>
    "  " ++ form ++ String.ofList (List.replicate (width - form.length + 2) ' ') ++ meaning

/-- A help text: what it is about, how to call it, and its sections. -/
def helpPage (about usage : String) (parts : List Section) : String :=
  let lines := [about, "", "Usage: seqctl-cli " ++ usage] ++
    parts.flatMap fun part => "" :: part.lines
  String.join (lines.map (· ++ "\n"))

/-- The option that asks for help. -/
def helpEntry : String × String := ("-h, --help", "Print help")

/-- The operand of most commands. -/
def sequenceEntry : String × String := ("<SEQUENCE>", "Sequence text")

/-- The help for a command. -/
def Verb.helpText (verb : Verb) : String :=
  match verb with
  | .init | .serve => helpPage verb.about verb.name [⟨"Options", [helpEntry]⟩]
  | .validate => helpPage verb.about "validate <SEQUENCE>"
      [⟨"Arguments", [("<SEQUENCE>", "Sequence text, e.g. \"A+,B+,(A-,B-)\"")]⟩,
        ⟨"Options", [helpEntry]⟩]
  | .compile => helpPage verb.about "compile [OPTIONS] <SEQUENCE>"
      [⟨"Arguments", [sequenceEntry]⟩,
        ⟨"Options",
          [("    --errors <ERRORS>",
              "Faulted variant request, \"<0|1>,<none|easy|medium|hard>\" [default: 0,none]"),
            ("    --project <PROJECT>", "Project configuration file binding tag names"),
            ("    --seed <SEED>", "Seed for the fault injector"),
            ("    --tags", "Print the tag table"), helpEntry]⟩]
  | .components => helpPage verb.about "components [OPTIONS] <SEQUENCE>"
      [⟨"Arguments", [sequenceEntry]⟩,
        ⟨"Options",
          [("    --project <PROJECT>", "Project configuration file to check against"),
            helpEntry]⟩]
  | .simulate => helpPage verb.about "simulate [OPTIONS] <SEQUENCE>"
      [⟨"Arguments", [sequenceEntry]⟩,
        ⟨"Options",
          [("    --travel-ms <TRAVEL_MS>", "Actuator travel time in milliseconds [default: 200]"),
            helpEntry]⟩]
  | .help => helpPage verb.about "help [COMMAND]..."
      [⟨"Arguments", [("[COMMAND]...", "Print help for the subcommand(s)")]⟩]

/-- The help for the program. -/
def programHelp : String :=
  helpPage "Validate, compile and run pneumatic actuator sequences" "[OPTIONS] <COMMAND>"
    [⟨"Commands", Verb.all.map fun verb => (verb.name, verb.about)⟩,
      ⟨"Options",
        [("-r, --root <ROOT>",
            "Root directory for configuration and projects [default: .seqctl]"),
          helpEntry]⟩]

/-- The help that was asked for. -/
def helpFor (about : Option Verb) : String :=
  (about.map Verb.helpText).getD programHelp

end Pneumatic.CommandLine
