import Mathlib.Tactic

/-!
# `4_proc/main.c`: `get_pagemap_info`

The content of `/proc/<pid>/maps` is a list of bytes; a string is the list of its
bytes before the terminating zero.  `uint64_t` values are numbers below `2 ^ 64`.
`none` is a run that does not end.
-/

namespace OsStuff
namespace Proc

abbrev Byte := BitVec 8

def bufSize : Nat := 512

def newline : Byte := 0x0a
def space : Byte := 0x20
def dash : Byte := 0x2d

/-- A line that `print_page` prints: the columns of the header. -/
structure PageLine where
  addr : Nat
  pfn : BitVec 64
  softDirty : BitVec 64
  fileShared : BitVec 64
  swapped : BitVec 64
  present : BitVec 64
  deriving DecidableEq, Repr

def printPage (address : Nat) (data : BitVec 64) : PageLine where
  addr := address
  pfn := data &&& ((1 : BitVec 64) <<< 55 - 1)
  softDirty := (data >>> 55) &&& 1
  fileShared := (data >>> 61) &&& 1
  swapped := (data >>> 62) &&& 1
  present := (data >>> 63) &&& 1

/-- What is printed to `out`. -/
inductive Printed
  | text (line : String)
  | page (line : PageLine)
  deriving DecidableEq, Repr

/-- `strtok_r`: the next token and what is left behind it. -/
def strtokR (str : List Byte) (delim : Byte) : Option (List Byte × List Byte) :=
  match str.dropWhile (· == delim) with
  | [] => none
  | byte :: bytes =>
      some ((byte :: bytes).takeWhile (· != delim),
        ((byte :: bytes).dropWhile (· != delim)).tail)

/-- `strtok`: a null string goes on with what the last call left, `saved`. -/
def strtok (str : Option (List Byte)) (delim : Byte) (saved : List Byte) :
    Option (List Byte) × List Byte :=
  match strtokR (str.getD saved) delim with
  | none => (none, [])
  | some (token, rest) => (some token, rest)

/-- The value of a hexadecimal digit. -/
def hexDigit (byte : Byte) : Option Nat :=
  if 0x30 ≤ byte ∧ byte ≤ 0x39 then some (byte.toNat - 0x30)
  else if 0x41 ≤ byte ∧ byte ≤ 0x46 then some (byte.toNat - 0x41 + 10)
  else if 0x61 ≤ byte ∧ byte ≤ 0x66 then some (byte.toNat - 0x61 + 10)
  else none

/-- The value of the digits that a string begins with. -/
def hexValue : Nat → List Byte → Nat
  | value, [] => value
  | value, byte :: bytes =>
      match hexDigit byte with
      | none => value
      | some digit => hexValue (16 * value + digit) bytes

def isSpace (byte : Byte) : Bool :=
  byte = 0x20 ∨ 0x09 ≤ byte ∧ byte ≤ 0x0d

/-- The sign that `strtoul` accepts before the digits. -/
def skipSign : List Byte → Bool × List Byte
  | [] => (false, [])
  | byte :: bytes =>
      if byte = 0x2d then (true, bytes)
      else if byte = 0x2b then (false, bytes)
      else (false, byte :: bytes)

/-- The `0x` that `strtoul` accepts before the digits. -/
def skipPrefix : List Byte → List Byte
  | zero :: x :: bytes =>
      if zero = 0x30 ∧ (x = 0x78 ∨ x = 0x58) then bytes else zero :: x :: bytes
  | bytes => bytes

/-- `strtoul` with base 16. -/
def strtoul (str : List Byte) : Nat :=
  let (negative, str) := skipSign (str.dropWhile isSpace)
  let value := hexValue 0 (skipPrefix str)
  if 2 ^ 64 ≤ value then 2 ^ 64 - 1
  else if negative then (2 ^ 64 - value) % 2 ^ 64
  else value

/-- The addresses that are read from a row. -/
def rowRange (row : List Byte) : Option (Nat × Nat) :=
  let (addresses, saved) := strtok (some row) space []
  let (startStr, saved) := strtok addresses dash saved
  match startStr with
  | none => none
  | some startStr =>
      match (strtok none dash saved).1 with
      | none => none
      | some endStr => some (strtoul startStr, strtoul endStr)

section

variable (pageSize : Nat)
  -- What a call of `pread` leaves in `offset`: its number and its position.
  (pread : Nat → Nat → BitVec 64)

/-- The loop over the pages.  A round that begins at an earlier value of `i` is
repeated for ever, so a run with `2 ^ 64` rounds does not end. -/
def pageLoop (stop : Nat) : Nat → Nat → List PageLine → Option (List PageLine)
  | 0, _, _ => none
  | fuel + 1, i, out =>
      if i < stop then
        let index := i / pageSize * 8 % 2 ^ 64
        pageLoop stop fuel ((i + pageSize) % 2 ^ 64)
          (out ++ [printPage i (pread out.length index)])
      else some out

/-- The loop over the rows of `buf`. -/
def rowLoop : Nat → List Byte → List PageLine → Option (List PageLine)
  | 0, _, _ => none
  | fuel + 1, str, out =>
      match strtokR str newline with
      | none => some out
      | some (row, rest) =>
          match rowRange row with
          | none => rowLoop fuel rest out
          | some (start, stop) =>
              (pageLoop pageSize pread stop (2 ^ 64) start out).bind
                (rowLoop fuel rest)

/-- A zero byte of `maps` would end the string early. -/
def nulToNewline (byte : Byte) : Byte :=
  if byte = 0 then newline else byte

/-- The loop over the reads of `maps`. -/
def readLoop : Nat → List Byte → List PageLine → Option (List PageLine)
  | 0, _, _ => none
  | fuel + 1, maps, out =>
      let buf := maps.take bufSize
      if 0 < buf.length then
        (rowLoop pageSize pread (buf.length + 1) (buf.map nulToNewline) out).bind
          (readLoop fuel (maps.drop bufSize))
      else some out

def header : List Printed :=
  [.text "\n---------------------\nPAGEMAP\n---------------------\n",
    .text " addr : pfn soft-dirty file/shared swapped present\n"]

def getPagemapInfo (maps : List Byte) : Option (List Printed) :=
  (readLoop pageSize pread (maps.length + 1) maps []).map fun out =>
    header ++ out.map .page

end

end Proc
end OsStuff
