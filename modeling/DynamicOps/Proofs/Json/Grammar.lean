import DynamicOps.Json.Tree

/-!
The grammar of JSON texts: which texts spell a document. A character of a string may be spelled by
itself or by an escape, and blanks may stand around every element, member, name, and document.
Objects keep the order of their members and may repeat names. A number with neither a fraction nor
an exponent spells an integer, and any other number is held as its text.
-/

namespace DynamicOps.Json

/-- The characters that carry no meaning between the parts of a document. -/
def isBlank (c : Char) : Bool :=
  c = ' ' || c = '\t' || c = '\n' || c = '\r'

/-- The text holds blanks only. -/
def Blank (cs : List Char) : Prop :=
  ∀ c ∈ cs, isBlank c = true

/-- The value of a hexadecimal digit in either case. -/
def hexDigit? (c : Char) : Option Nat :=
  if '0' ≤ c ∧ c ≤ '9' then some (c.toNat - 48)
  else if 'a' ≤ c ∧ c ≤ 'f' then some (c.toNat - 87)
  else if 'A' ≤ c ∧ c ≤ 'F' then some (c.toNat - 55)
  else none

/-- The code unit that four hexadecimal digits stand for. -/
def codeUnit? : List Char → Option Nat
  | [a, b, c, d] => do
    some (4096 * (← hexDigit? a) + 256 * (← hexDigit? b) + 16 * (← hexDigit? c) + (← hexDigit? d))
  | _ => none

/-- The character that a letter after a backslash stands for. -/
def escaped? : Char → Option Char
  | '"' => some '"'
  | '\\' => some '\\'
  | '/' => some '/'
  | 'b' => some '\x08'
  | 'f' => some '\x0c'
  | 'n' => some '\n'
  | 'r' => some '\r'
  | 't' => some '\t'
  | _ => none

/-- The code unit is the first one of a pair for a character beyond the sixteen-bit range. -/
def isHighSurrogate (unit : Nat) : Bool :=
  0xd800 ≤ unit && unit < 0xdc00

/-- The code unit is the second one of such a pair. -/
def isLowSurrogate (unit : Nat) : Bool :=
  0xdc00 ≤ unit && unit < 0xe000

/-- The number of the character that a pair of code units stands for. -/
def pairValue (high low : Nat) : Nat :=
  0x10000 + (high - 0xd800) * 0x400 + (low - 0xdc00)

/-- The text spells a character within a string. Surrogates stand for a character in pairs only. -/
inductive SpellsCharacter : List Char → Char → Prop
  | plain {c : Char} (hquote : c ≠ '"') (hbackslash : c ≠ '\\') (hcontrol : 32 ≤ c.toNat)
    : SpellsCharacter [c] c
  | letter {l c : Char} (h : escaped? l = some c) : SpellsCharacter ['\\', l] c
  | unit {digits : List Char} {c : Char} (h : codeUnit? digits = some c.toNat)
    : SpellsCharacter ('\\' :: 'u' :: digits) c
  | pair {first second : List Char} {high low : Nat} {c : Char}
    (hfirst : codeUnit? first = some high) (hhigh : isHighSurrogate high = true)
    (hsecond : codeUnit? second = some low) (hlow : isLowSurrogate low = true)
    (hc : c.toNat = pairValue high low)
    : SpellsCharacter ('\\' :: 'u' :: (first ++ '\\' :: 'u' :: second)) c

/-- The text spells some characters, one after the other. -/
inductive SpellsCharacters : List Char → List Char → Prop
  | nil : SpellsCharacters [] []
  | cons {text texts : List Char} {c : Char} {cs : List Char} (h : SpellsCharacter text c)
    (hs : SpellsCharacters texts cs)
    : SpellsCharacters (text ++ texts) (c :: cs)

/-- The text spells a string between its quotes. -/
def SpellsString (text : List Char) (s : String) : Prop :=
  ∃ inner, SpellsCharacters inner s.toList ∧ text = '"' :: inner ++ ['"']

/-- One or more digits. -/
def isDigits (cs : List Char) : Bool :=
  !cs.isEmpty && cs.all Char.isDigit

/-- Digits without a leading zero, or a lone zero. -/
def isWhole (cs : List Char) : Bool :=
  isDigits cs && (cs.head? ≠ some '0' || cs = ['0'])

/-- Nothing, or digits after a point. -/
def isFraction : List Char → Bool
  | [] => true
  | c :: digits => c = '.' && isDigits digits

/-- The letter before an exponent, in either case. -/
def isExponentMark (c : Char) : Bool :=
  c = 'e' || c = 'E'

/-- Nothing, or digits after the letter of an exponent and perhaps a sign. -/
def isExponent : List Char → Bool
  | [] => true
  | c :: '+' :: digits => isExponentMark c && isDigits digits
  | c :: '-' :: digits => isExponentMark c && isDigits digits
  | c :: digits => isExponentMark c && isDigits digits

/-- The parts of a number's text. -/
structure Numeral where
  negative : Bool
  whole : List Char
  fraction : List Char
  exponent : List Char
  isWhole_whole : isWhole whole = true
  isFraction_fraction : isFraction fraction = true
  isExponent_exponent : isExponent exponent = true

namespace Numeral

/-- The text of a number. -/
def text (n : Numeral) : List Char :=
  (if n.negative then ['-'] else []) ++ n.whole ++ n.fraction ++ n.exponent

/-- The document of a number. -/
def tree (n : Numeral) : Tree :=
  if n.fraction = [] ∧ n.exponent = [] then
    .integer (if n.negative then -(Text.valueOf n.whole : Int) else Text.valueOf n.whole)
  else .decimal n.text

end Numeral

/-- The text spells a document by a single word or number. -/
inductive SpellsAtom : List Char → Tree → Prop
  | nullWord : SpellsAtom ['n', 'u', 'l', 'l'] .null
  | trueWord : SpellsAtom ['t', 'r', 'u', 'e'] (.bool true)
  | falseWord : SpellsAtom ['f', 'a', 'l', 's', 'e'] (.bool false)
  | number (n : Numeral) : SpellsAtom n.text n.tree

/-- A text between blanks, with the document that it is meant to spell. -/
structure Element where
  before : List Char
  text : List Char
  after : List Char
  tree : Tree
  blank_before : Blank before
  blank_after : Blank after

/-- The text of an element with its blanks. -/
def Element.padded (e : Element) : List Char :=
  e.before ++ e.text ++ e.after

/-- An element with a name, and the spelling of the name between blanks. -/
structure Member extends Element where
  nameBefore : List Char
  nameText : List Char
  nameAfter : List Char
  name : String
  blank_nameBefore : Blank nameBefore
  spells_name : SpellsString nameText name
  blank_nameAfter : Blank nameAfter

/-- The text of a member: the name, a colon, and the element. -/
def Member.padded (m : Member) : List Char :=
  m.nameBefore ++ m.nameText ++ m.nameAfter ++ ':' :: m.toElement.padded

/-- The text spells a document, without blanks around it. -/
inductive Spells : List Char → Tree → Prop
  | atom {text : List Char} {t : Tree} (h : SpellsAtom text t) : Spells text t
  | string {text : List Char} {s : String} (h : SpellsString text s) : Spells text (.string s)
  | emptyArray {blanks : List Char} (h : Blank blanks)
    : Spells ('[' :: (blanks ++ [']'])) (.array [])
  | array {elements : List Element} (hne : elements ≠ [])
    (h : ∀ e ∈ elements, Spells e.text e.tree)
    : Spells ('[' :: ([','].intercalate (elements.map Element.padded) ++ [']']))
        (.array (elements.map Element.tree))
  | emptyObject {blanks : List Char} (h : Blank blanks)
    : Spells ('\x7b' :: (blanks ++ ['\x7d'])) (.object [])
  | object {members : List Member} (hne : members ≠ [])
    (h : ∀ m ∈ members, Spells m.text m.tree)
    : Spells ('\x7b' :: ([','].intercalate (members.map Member.padded) ++ ['\x7d']))
        (.object (members.map fun m => (m.name, m.tree)))

/-- The whole text spells a document, perhaps between blanks. -/
def IsDocument (text : List Char) (t : Tree) : Prop :=
  ∃ e : Element, e.padded = text ∧ e.tree = t ∧ Spells e.text e.tree

end DynamicOps.Json
