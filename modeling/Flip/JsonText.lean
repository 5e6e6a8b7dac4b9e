import Flip.Decimal
import Flip.Utf8

/-!
# Decoding JSON text

A reader takes a value off the front of a text. The decoder is put together
from a few readers by sequencing, and so are its two general properties: more
fuel never changes an answer, and a value read alone is read in the same way
in front of a closing brace. A text is a JSON text when it is UTF-8 and one
value with blanks around it.
-/

set_option autoImplicit false

namespace Flip.JsonText
open Flip.CLib Flip.Decimal Flip.Utf8

inductive JVal where
  | null
  | bool (b : Bool)
  | num (mantissa exponent : ℤ)
  | str (s : Buf)
  | arr (items : List JVal)
  | obj (members : List (Buf × JVal))

def quote : Byte := 34
def comma : Byte := 44
def colon : Byte := 58
def lbracket : Byte := 91
def backslash : Byte := 92
def rbracket : Byte := 93
def lbrace : Byte := 123
def rbrace : Byte := 125

def Reader (α : Type) : Type := Buf → Option (α × Buf)

variable {α β : Type}

def give (a : α) : Reader α := fun s => some (a,s)

def fail : Reader α := fun _ => none

def andThen (p : Reader α) (f : α → Reader β) : Reader β :=
  fun s => (p s).bind (fun r => f r.1 r.2)

instance : Monad Reader where
  pure := give
  bind := andThen

def peek (f : Byte → Reader α) : Reader α
  | [] => none
  | c::s => f c (c::s)

def expect (c : Byte) : Reader Unit
  | [] => none
  | d::s => if d = c then some ((),s) else none

def accept (p : Byte → Bool) : Reader Bool
  | [] => some (false,[])
  | d::s => if p d then some (true,s) else some (false,d::s)

def isBlank (c : Byte) : Bool := c = 32 || c = 9 || c = 10 || c = 13

def skipBlanks (s : Buf) : Buf := s.dropWhile isBlank

def blanks : Reader Unit := fun s => some ((),skipBlanks s)

def keyword (w : Buf) (a : α) : Reader α :=
  fun s => if w.isPrefixOf s then some (a,s.drop w.length) else none

def digits : Reader Buf := fun s =>
  if s.takeWhile isDigit = [] then none else some (s.takeWhile isDigit,s.dropWhile isDigit)

def fraction : Reader Buf := do
  let point ← accept (· = 46)
  if point then digits else give []

def exponentSign : Reader ℤ := do
  let minus ← accept (· = 45)
  if minus then give (-1)
  else do
    let _ ← accept (· = 43)
    give 1

def exponent : Reader ℤ := do
  let e ← accept (fun c => c = 101 || c = 69)
  if e then do
    let sign ← exponentSign
    let ds ← digits
    give (sign*digitsValue ds)
  else give 0

/-- No digit may follow a leading zero. -/
def number : Reader JVal := do
  let minus ← accept (· = 45)
  let ds ← digits
  if ds.head? = some 48 ∧ ds.length ≠ 1 then fail
  else do
    let fs ← fraction
    let e ← exponent
    give (.num ((if minus then -1 else 1)*digitsValue (ds++fs)) (e-fs.length))

def hexValue (c : Byte) : Option ℕ :=
  if 48 ≤ c ∧ c ≤ 57 then some (c.toNat-48)
  else if 65 ≤ c ∧ c ≤ 70 then some (c.toNat-55)
  else if 97 ≤ c ∧ c ≤ 102 then some (c.toNat-87)
  else none

def hexDigit : Reader ℕ
  | [] => none
  | c::s => (hexValue c).map (fun v => (v,s))

def hex4 : Reader ℕ := do
  let a ← hexDigit
  let b ← hexDigit
  let c ← hexDigit
  let d ← hexDigit
  give (((a*16+b)*16+c)*16+d)

def lowSurrogate : Reader ℕ := do
  expect backslash
  expect 117
  let lo ← hex4
  if 0xDC00 ≤ lo ∧ lo < 0xE000 then give lo else fail

/-- The bytes after `\u`. Half a surrogate pair stands for no text in UTF-8, so
that a string with one is refused. -/
def unicodeEscape : Reader Buf := do
  let hi ← hex4
  if 0xD800 ≤ hi ∧ hi < 0xDC00 then do
    let lo ← lowSurrogate
    give (encode (0x10000+(hi-0xD800)*0x400+(lo-0xDC00)))
  else if 0xDC00 ≤ hi ∧ hi < 0xE000 then fail
  else give (encode hi)

def simpleEscape (c : Byte) : Option Byte :=
  if c = 34 ∨ c = 92 ∨ c = 47 then some c
  else if c = 98 then some 8
  else if c = 102 then some 12
  else if c = 110 then some 10
  else if c = 114 then some 13
  else if c = 116 then some 9
  else none

def escape : Reader Buf
  | [] => none
  | e::s => if e = 117 then unicodeEscape s else (simpleEscape e).map (fun b => ([b],s))

def PlainByte (c : Byte) : Prop := 32 ≤ c ∧ c ≠ 34 ∧ c ≠ 92

instance (c : Byte) : Decidable (PlainByte c) := inferInstanceAs (Decidable (_ ∧ _))

def Plain (b : Buf) : Prop := ∀ c ∈ b, PlainByte c

instance (b : Buf) : Decidable (Plain b) := List.decidableBAll _ b

def stringUnit : Reader Buf
  | [] => none
  | c::s => if c = 92 then escape s else if PlainByte c then some ([c],s) else none

def unescapeN : ℕ → Buf → Option Buf
  | _, [] => some []
  | 0, _::_ => none
  | n+1, c::s => (stringUnit (c::s)).bind (fun r => (unescapeN n r.2).map (r.1 ++ ·))

/-- The string that the raw text between two quotes denotes. -/
def unescape (raw : Buf) : Option Buf := unescapeN raw.length raw

def rawString : Reader Buf
  | [] => none
  | [c] => if c = quote then some ([],[]) else none
  | c::d::s =>
    if c = quote then some ([],d::s)
    else if c = backslash then (rawString s).map (fun r => (c::d::r.1,r.2))
    else (rawString (d::s)).map (fun r => (c::r.1,r.2))

def stringBody : Reader Buf := do
  let raw ← rawString
  match unescape raw with
  | some s => give s
  | none => fail

def stringLiteral : Reader Buf := do
  expect quote
  stringBody

def objectWith (members : Reader (List (Buf × JVal))) : Reader JVal := do
  expect lbrace
  blanks
  peek (fun c =>
    if c = rbrace then do
      expect rbrace
      give (.obj [])
    else do
      let ms ← members
      give (.obj ms))

def arrayWith (items : Reader (List JVal)) : Reader JVal := do
  expect lbracket
  blanks
  peek (fun c =>
    if c = rbracket then do
      expect rbracket
      give (.arr [])
    else do
      let vs ← items
      give (.arr vs))

def valueWith (members : Reader (List (Buf × JVal))) (items : Reader (List JVal)) :
    Reader JVal := do
  blanks
  peek (fun c =>
    if c = quote then do
      let s ← stringLiteral
      give (.str s)
    else if c = lbrace then objectWith members
    else if c = lbracket then arrayWith items
    else if c = 110 then keyword (ascii "null") .null
    else if c = 116 then keyword (ascii "true") (.bool true)
    else if c = 102 then keyword (ascii "false") (.bool false)
    else number)

def memberTail (members : Reader (List (Buf × JVal))) (k : Buf) (v : JVal) :
    Reader (List (Buf × JVal)) := do
  blanks
  peek (fun c =>
    if c = comma then do
      expect comma
      let ms ← members
      give ((k,v)::ms)
    else do
      expect rbrace
      give [(k,v)])

def membersWith (value : Reader JVal) (members : Reader (List (Buf × JVal))) :
    Reader (List (Buf × JVal)) := do
  blanks
  let k ← stringLiteral
  blanks
  expect colon
  let v ← value
  memberTail members k v

def itemsWith (value : Reader JVal) (items : Reader (List JVal)) : Reader (List JVal) := do
  let v ← value
  blanks
  peek (fun c =>
    if c = comma then do
      expect comma
      let vs ← items
      give (v::vs)
    else do
      expect rbracket
      give [v])

mutual

def value : ℕ → Reader JVal
  | 0 => fail
  | n+1 => valueWith (members n) (items n)

def members : ℕ → Reader (List (Buf × JVal))
  | 0 => fail
  | n+1 => membersWith (value n) (members n)

def items : ℕ → Reader (List JVal)
  | 0 => fail
  | n+1 => itemsWith (value n) (items n)

end

def decode (text : Buf) : Option JVal :=
  if Valid text then
    match value (text.length+1) text with
    | some (v,rest) => if skipBlanks rest = [] then some v else none
    | none => none
  else none

end Flip.JsonText
