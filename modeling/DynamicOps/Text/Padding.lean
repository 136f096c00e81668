/-!
Padding and truncation of text to a width counted in characters.
-/

namespace DynamicOps.Text

/-- Fills a text on the right, so that it stands at the left. -/
def alignLeft (width : Nat) (text : String) (fill : Char) : String :=
  text ++ String.ofList (List.replicate (width - text.length) fill)

/-- Fills a text on the left, so that it stands at the right. -/
def alignRight (width : Nat) (text : String) (fill : Char) : String :=
  String.ofList (List.replicate (width - text.length) fill) ++ text

/-- Fills a text on both sides; the odd character goes to the right. -/
def alignCenter (width : Nat) (text : String) (fill : Char) : String :=
  let room := width - text.length
  String.ofList (List.replicate (room / 2) fill) ++ text
    ++ String.ofList (List.replicate (room - room / 2) fill)

/-- The first characters of a text. -/
def truncate (width : Nat) (text : String) : String :=
  String.ofList (text.toList.take width)

end DynamicOps.Text
