import TableFlow.Script.OptionWord
import TableFlow.Script.Program
import TableFlow.Text.Blank
import TableFlow.Text.Lines

/-!
# Writing programs

A node is written as one script line that reads back as an equal node: words that would be taken apart, for
comments or for options are quoted.  A word that holds both kinds of quotes is written in parts that touch.
-/

namespace TableFlow
namespace Script

/-- The word does not read back as itself when it is written plainly. -/
def needsQuotes (word : String) : Bool :=
  match word.toList with
  | [] => true
  | '#' :: _ => true
  | '/' :: '/' :: _ => true
  | all => all.any (fun c => Text.isBlank c || c == '"' || c == '\'') || isOptionWord word

/-- A part of a word between double quotes; an empty part is left out. -/
def doubleQuoted (part : List Char) : List Char :=
  if part.isEmpty then [] else '"' :: part ++ ['"']

/-- A word in parts: its double quotes in single quotes, the runs between them in double quotes. -/
def mixedQuotes (word : List Char) : List Char :=
  (['\'', '"', '\''] : List Char).intercalate ((Text.splitAt '"' word).map doubleQuoted)

/-- A word as a script spells it. -/
def quoteWord (word : String) : String :=
  if !needsQuotes word then word
  else
    let letters := word.toList
    if letters.contains '"' then
      if letters.contains '\'' then String.ofList (mixedQuotes letters)
      else String.ofList ('\'' :: letters ++ ['\''])
    else String.ofList ('"' :: letters ++ ['"'])

/-- The words of a node as a script spells them. -/
def Node.spelling (node : Node) : List String :=
  quoteWord node.command :: node.args.map quoteWord ++
    node.options.pairs.flatMap fun (key, value) => ["--" ++ key, quoteWord value]

/-- A node as one script line. -/
def Node.render (node : Node) : String :=
  " ".intercalate node.spelling

/-- A program as a script, one line for each node. -/
def Program.render (p : Program) : String :=
  "\n".intercalate (p.nodes.map Node.render)

end Script
end TableFlow
