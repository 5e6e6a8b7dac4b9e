import Flip.CLib
import Flip.Runs

/-!
# How a shell splits a command line

The POSIX rules for tokens and quoting as a machine that reads one byte at a
time. Parameter, command and tilde expansion, the commands after the first one
and the names that exist belong to the environment; pathname matching is a
parameter.
-/

set_option autoImplicit false

namespace Flip.Shell
open Flip.CLib Flip.Runs

structure Mark where
  byte : Byte
  quoted : Bool
  deriving DecidableEq

abbrev Word := List Mark

def bytes (w : Word) : Buf := w.map Mark.byte

inductive Token where
  | word (w : Word)
  | op (c : Byte)
  deriving DecidableEq

inductive Mode where
  | plain
  | escape
  | single
  | double
  | doubleEscape
  | comment
  deriving DecidableEq

/-- The tokens so far and the word that is being read, if there is one. -/
structure Lexer where
  mode : Mode
  current : Option Word
  tokens : List Token

def start : Lexer := ⟨.plain,none,[]⟩

def isSpace (c : Byte) : Bool := c = 32 || c = 9

def isControl (c : Byte) : Bool := c = 10 || c = 59 || c = 38 || c = 124 || c = 40 || c = 41

def isRedirect (c : Byte) : Bool := c = 60 || c = 62

def isQuoting (c : Byte) : Bool := c = 92 || c = 39 || c = 34

def isExpanding (c : Byte) : Bool := c = 36 || c = 96

def isOrdinary (c : Byte) : Bool :=
  !(isSpace c || isControl c || isRedirect c || isQuoting c || isExpanding c)

def Lexer.push (s : Lexer) (mode : Mode) (w : Word) : Lexer :=
  ⟨mode,some (s.current.getD []++w),s.tokens⟩

def Lexer.finish (s : Lexer) : Lexer :=
  match s.current with
  | none => { s with mode := .plain }
  | some w => ⟨.plain,none,s.tokens++[.word w]⟩

def isNumber (w : Word) : Bool := w.all (fun m => !m.quoted && (48 ≤ m.byte && m.byte ≤ 57))

/-- Digits right before a redirection are a descriptor and not a word. -/
def Lexer.operator (s : Lexer) (c : Byte) : Lexer :=
  let s := if isRedirect c && (s.current.map isNumber).getD false then { s with current := none }
    else s.finish
  ⟨.plain,none,s.tokens++[.op c]⟩

def lexPlain (s : Lexer) (c : Byte) : Option Lexer :=
  if isSpace c then some s.finish
  else if isControl c || isRedirect c then some (s.operator c)
  else if c = 92 then some { s with mode := .escape }
  else if c = 39 then some (s.push .single [])
  else if c = 34 then some (s.push .double [])
  else if isExpanding c then none
  else if c = 126 ∧ s.current = none then none
  else if c = 35 ∧ s.current = none then some { s with mode := .comment }
  else some (s.push .plain [⟨c,false⟩])

def lexDouble (s : Lexer) (c : Byte) : Option Lexer :=
  if c = 34 then some { s with mode := .plain }
  else if c = 92 then some { s with mode := .doubleEscape }
  else if isExpanding c then none
  else some (s.push .double [⟨c,true⟩])

/-- Inside double quotes a backslash quotes only a few bytes. -/
def lexDoubleEscape (s : Lexer) (c : Byte) : Lexer :=
  if c = 10 then { s with mode := .double }
  else if isExpanding c || c = 34 || c = 92 then s.push .double [⟨c,true⟩]
  else s.push .double [⟨92,true⟩,⟨c,true⟩]

/-- One byte of the line; no successor means that an expansion begins. -/
def lexStep (s : Lexer) (c : Byte) : Option Lexer :=
  match s.mode with
  | .plain => lexPlain s c
  | .escape => some (if c = 10 then { s with mode := .plain } else s.push .plain [⟨c,true⟩])
  | .single => some (if c = 39 then { s with mode := .plain } else s.push .single [⟨c,true⟩])
  | .double => lexDouble s c
  | .doubleEscape => some (lexDoubleEscape s c)
  | .comment => some (if c = 10 then { s with mode := .plain }.operator c else s)

def lexEnd (s : Lexer) : Option (List Token) :=
  match s.mode with
  | .plain => some s.finish.tokens
  | .escape => some (s.push .plain [⟨92,true⟩]).finish.tokens
  | .comment => some s.tokens
  | _ => none

/-- The words of the first simple command and the tokens after it. A word
after a redirection is its target; `redirect` says that one is due. -/
def command (redirect : Bool) : List Token → Option (List Word × List Token)
  | [] => if redirect then none else some ([],[])
  | .word w::ts =>
    if redirect then command false ts
    else (command false ts).map (fun r => (w::r.1,r.2))
  | .op c::ts =>
    if isRedirect c || (redirect && (c = 38 || c = 124)) then command true ts
    else if redirect || c = 40 || c = 41 then none
    else some ([],.op c::ts)

/-- What a command line may depend on besides its text: what a line with an
expansion starts, what the commands after the first one start, and the names
that exist in collating order. -/
structure Env where
  expanded : Buf → List (List Buf)
  later : List Token → Option (List (List Buf))
  files : List Buf
  distinct : files.Nodup

def isGlob (m : Mark) : Bool := !m.quoted && (m.byte = 42 || m.byte = 63 || m.byte = 91)

variable (fnmatch : Word → Buf → Bool) (env : Env)

def fields (w : Word) : List Buf :=
  if w.any isGlob && !(env.files.filter (fnmatch w)).isEmpty then env.files.filter (fnmatch w)
  else [bytes w]

def execute (tokens : List Token) : List (List Buf) :=
  match command false tokens with
  | none => []
  | some (words,[]) => [words.flatMap (fields fnmatch env)]
  | some (words,rest) =>
    match env.later rest with
    | none => []
    | some more => words.flatMap (fields fnmatch env)::more

def system (line : Buf) : List (List Buf) :=
  match run lexStep start line with
  | none => env.expanded line
  | some s =>
    match lexEnd s with
    | none => []
    | some tokens => execute fnmatch env tokens

end Flip.Shell
