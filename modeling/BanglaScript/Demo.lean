/-!
# Demonstration programs

Small programs that come with the command line.
-/

namespace BanglaScript

/-- A named program. -/
structure Demo where
  name : String
  source : String
deriving DecidableEq

namespace Demo

/-- The program with the given lines, each of which is ended. -/
def ofLines (name : String) (lines : List String) : Demo :=
  ⟨name, String.join (lines.map fun line => line ++ "\n")⟩

/-- The demonstration programs in order. -/
def all : List Demo :=
  [ofLines "Simple Banglish Variables"
      ["dhore x = 10;",
        "dhore y = 5;",
        "dhore jogfol = x + y;",
        "dekhao(jogfol);"],
    ofLines "Banglish Conditional"
      ["dhore boyosh = 18;",
        "jode (boyosh >= 18) \x7b",
        "    dekhao(\"You are adult\");",
        "\x7d onnathay \x7b",
        "    dekhao(\"You are minor\");",
        "\x7d"],
    ofLines "Banglish Loop"
      ["dhore i = 1;",
        "jotokkhon (i <= 5) \x7b",
        "    dekhao(i);",
        "    i = i + 1;",
        "\x7d"],
    ofLines "Banglish Function"
      ["function jog(a, b) \x7b",
        "    ferot a + b;",
        "\x7d",
        "dhore fol = jog(10, 20);",
        "dekhao(fol);"],
    ofLines "Simple Math"
      ["dhore a = 15;",
        "dhore b = 3;",
        "dhore gunfol = a * b;",
        "dekhao(\"Result: \" + gunfol);"]]

/-- A text with its Latin letters in lower case. -/
def foldCase (text : String) : List Char := text.toList.map Char.toLower

/-- The program with a name, whatever the case of its letters. -/
def find? (name : String) : Option Demo :=
  all.find? fun demo => foldCase demo.name = foldCase name

end Demo

end BanglaScript
