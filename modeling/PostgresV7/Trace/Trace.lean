import Mathlib.Logic.Function.Basic
import Mathlib.Data.Nat.Digits.Defs
import Mathlib.Data.List.TakeWhile

/-!
# Trace options (`trace.c`)

`parse_options` works in its copy of the string: a buffer of characters and positions in it.
-/

namespace PostgresV7.Trace

/-- `OptNames`, in the order of `PgOptionEnum`. -/
def OptNames : List String :=
  ["all", "verbose", "query", "plan", "parse", "rewritten", "pretty_plan", "pretty_parse", "pretty_rewritten",
    "parserstats", "plannerstats", "executorstats", "shortlocks", "locks", "userlocks", "spinlocks", "notify",
    "malloc", "palloc", "lock_debug_oidmin", "lock_debug_relid", "lock_read_priority", "deadlock_timeout", "nofsync",
    "syslog", "hostlookup", "showportnumber"]

def NUM_PG_OPTIONS : Nat := 27

-- the assertion at the beginning of `parse_options`
example : OptNames.length = NUM_PG_OPTIONS := rfl

abbrev Buffer := Nat → Char

def NUL : Char := '\x00'

/-- The C string at a position of the buffer, as far as `n` characters go. -/
def cstr (buf : Buffer) : Nat → Nat → List Char
  | 0, _ => []
  | n + 1, s => if buf s = NUL then [] else buf s :: cstr buf n (s + 1)

/-- `strncmp(s, t, len) == 0`. -/
def strncmpEq (s t : List Char) (len : Nat) : Bool := s.take len == t.take len

/-! ## `strtol` -/

/-- `isspace`. -/
def isSpace (c : Char) : Bool := c == ' ' || ('\t'.toNat ≤ c.toNat && c.toNat ≤ '\r'.toNat)

/-- Whether there is a minus sign, how long the sign is, and what is behind it. -/
def splitSign (text : List Char) : Bool × Nat × List Char :=
  match text with
  | [] => (false, 0, [])
  | c :: behind => if c = '-' then (true, 1, behind) else if c = '+' then (false, 1, behind) else (false, 0, c :: behind)

/-- The decimal number at the start of a text, behind white space and a sign, and where it ends. -/
def readNumber (text : List Char) : Int × Nat :=
  let spaces := text.takeWhile isSpace
  let (minus, sign, behind) := splitSign (text.dropWhile isSpace)
  let digits := behind.takeWhile Char.isDigit
  let value : Int := Nat.ofDigitChars 10 digits 0
  if digits.isEmpty then (0, 0) else (if minus then -value else value, spaces.length + sign + digits.length)

def LONG_MAX : Int := 0x7fffffffffffffff

def LONG_MIN : Int := -0x8000000000000000

/-- `strtol(s, &s, 10)`. -/
def strtol (text : List Char) : Int × Nat :=
  let (value, len) := readNumber text
  (max LONG_MIN (min LONG_MAX value), len)

/-- A `long` stored in an `int`. -/
def toInt (value : Int) : Int := Int.bmod value (2 ^ 32)

/-! ## `parse_options` -/

/-- What `parse_options` does with an item. -/
inductive Event where
  | set (i : Nat) (val : Int)
  | invalid (name : List Char)
  deriving DecidableEq, Repr

/-- The buffer, the position and the variables behind the first inner loop. -/
structure Scanned where
  buf : Buffer
  s : Nat
  val : Int
  isComment : Bool

/-- The first inner loop, in at most `n` rounds. -/
def scan : Nat → Buffer → Nat → Bool → Option Scanned
  | 0, _, _, _ => none
  | n + 1, buf, s, isComment =>
    let c := buf s
    if c = NUL then some ⟨buf, s, 1, isComment⟩
    else if c = '#' then scan n buf (s + 1) true
    else if c = '=' then
      let buf := Function.update buf s NUL
      let (val, len) := strtol (cstr buf n (s + 1))
      some ⟨buf, s + 1 + len, toInt val, isComment⟩
    else if c = '-' then some ⟨Function.update buf s NUL, s + 1, 0, isComment⟩
    else if c = '+' then some ⟨Function.update buf s NUL, s + 1, 1, isComment⟩
    else if c = ' ' ∨ c = ',' ∨ c = '\t' ∨ c = '\n' ∨ c = '\r' then some ⟨Function.update buf s ',', s, 1, isComment⟩
    else scan n buf (s + 1) isComment

/-- The loop behind `setval`. -/
def setval : Nat → Buffer → Nat → Option (Buffer × Nat)
  | 0, _, _ => none
  | n + 1, buf, s =>
    if buf s = NUL then some (buf, s)
    else if buf s = ',' then some (Function.update buf s NUL, s + 1)
    else setval n buf (s + 1)

/-- The options a name can stand for: the first one that begins with it. -/
def optionOf (name : List Char) : Option Nat :=
  OptNames.findIdx? fun opt => strncmpEq name opt.toList name.length

/-- The rest of a round: an empty name is skipped. -/
def assign (name : List Char) (val : Int) (isComment : Bool) : List Event :=
  if name.length = 0 then []
  else
    match optionOf name with
    | some i => [.set i val]
    | none => if isComment then [] else [.invalid name]

/-- The outer loop. -/
def parseLoop : Nat → Buffer → Nat → Option (List Event)
  | 0, _, _ => none
  | n + 1, buf, s =>
    if buf s = NUL then some []
    else do
      let name := s
      let scanned ← scan n buf s false
      let (buf, s) ← setval n scanned.buf scanned.s
      return assign (cstr buf n name) scanned.val scanned.isComment ++ (← parseLoop n buf s)

/-- `parse_options`; `secure` is not looked at. -/
def parseOptions (n : Nat) (str : Buffer) (_secure : Bool) : Option (List Event) := parseLoop n str 0

/-- The assignments among what was done. -/
def assignments (events : List Event) : List (Nat × Int) :=
  events.filterMap fun
    | .set i val => some (i, val)
    | .invalid _ => none

end PostgresV7.Trace
