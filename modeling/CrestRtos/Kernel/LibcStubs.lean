import CrestRtos.Kernel.Sync
import CrestRtos.Library.CString

/-!
# `libc_stubs.c`

`strncpy` and the formatter. The formatter works on one memory, which holds the
format, the strings and the buffer. A `va_list` is a sequence of words, and each
`va_arg` takes the next one.
-/

namespace Crest
open ByteMemory MachineWord

/-! ## `strncpy` -/

structure Copying where
  mem : Memory
  d : Nat
  n : Nat

/-- `while (n && (*d++ = *src++)) --n;` -/
def copyLoop (m : Memory) (d src : Nat) : Nat → Copying
  | 0 => ⟨m, d, 0⟩
  | n + 1 =>
    let c := m src
    let m := Function.update m d c
    if c = 0 then ⟨m, d + 1, n + 1⟩ else copyLoop m (d + 1) (src + 1) n

/-- `while (n--) *d++ = '\0';` -/
def padLoop (m : Memory) (d : Nat) : Nat → Memory × Nat
  | 0 => (m, d)
  | n + 1 => padLoop (Function.update m d 0) (d + 1) n

/-- The memory, and the pointer behind the last byte stored. -/
def strncpy (m : Memory) (dest src n : Nat) : Memory × Nat :=
  let c := copyLoop m dest src n
  padLoop c.mem c.d c.n

/-! ## Output -/

def ascii (s : String) : List UInt8 := s.toList.map Char.toUInt8

/-- The memory and what `dst`, `avail` and `total` point to. -/
structure Out where
  mem : Memory
  dst : Nat
  avail : Nat
  total : Int

def emitChar (c : UInt8) (o : Out) : Out :=
  let o := if 0 < o.avail then
      { o with mem := Function.update o.mem o.dst c, dst := o.dst + 1, avail := o.avail - 1 }
    else o
  { o with total := toInt32 (o.total + 1) }

/-- `emit_char` for each of the characters. -/
def emitAll (cs : List UInt8) (o : Out) : Out := cs.foldl (fun o c => emitChar c o) o

/-- `while (*s) emit_char(*s++, …);`, or `none` when the fuel is used up first. -/
def emitLoop : Nat → Nat → Out → Option Out
  | 0, _, _ => none
  | fuel + 1, s, o => if o.mem s = 0 then some o else emitLoop fuel (s + 1) (emitChar (o.mem s) o)

def emitString (fuel s : Nat) (o : Out) : Option Out :=
  if s = 0 then some (emitAll (ascii "(null)") o) else emitLoop fuel s o

/-- The division loop with room for so many characters: what is left of the value, and `buf`. -/
def digitLoop (base : Nat) (digits : List UInt8) : Nat → Nat → List UInt8 → Nat × List UInt8
  | 0, val, buf => (val, buf)
  | room + 1, val, buf =>
    if val = 0 then (val, buf)
    else digitLoop base digits room (val / base) (buf ++ [digits.getD (val % base) 0])

def emitUnsigned (val base : Nat) (digits : List UInt8) (o : Out) : Out :=
  let buf := if val = 0 then ascii "0" else (digitLoop base digits 32 val []).2
  emitAll buf.reverse o

/-- `%d`: a negative value becomes a sign and its magnitude. -/
def emitSigned (w : UInt32) (o : Out) : Out :=
  let v := toInt32 w.toNat
  if v < 0 then
    emitUnsigned ((toInt32 (-v)) % 2 ^ 32).toNat 10 (ascii "0123456789") (emitChar '-'.toUInt8 o)
  else emitUnsigned (v % 2 ^ 32).toNat 10 (ascii "0123456789") o

/-! ## The format -/

/-- The switch on the specifier, with the index of the next argument. -/
def conversion (va : Nat → UInt32) (fuel : Nat) (spec : UInt8) (arg : Nat) (o : Out) :
    Option (Nat × Out) :=
  let w := va arg
  if spec = 's'.toUInt8 then (emitString fuel w.toNat o).map fun o => (arg + 1, o)
  else if spec = 'c'.toUInt8 then some (arg + 1, emitChar w.toUInt8 o)
  else if spec = 'd'.toUInt8 ∨ spec = 'i'.toUInt8 then some (arg + 1, emitSigned w o)
  else if spec = 'u'.toUInt8 then
    some (arg + 1, emitUnsigned w.toNat 10 (ascii "0123456789") o)
  else if spec = 'x'.toUInt8 then
    some (arg + 1, emitUnsigned w.toNat 16 (ascii "0123456789abcdef") o)
  else if spec = 'X'.toUInt8 then
    some (arg + 1, emitUnsigned w.toNat 16 (ascii "0123456789ABCDEF") o)
  else if spec = 'p'.toUInt8 then
    some (arg + 1, emitUnsigned w.toNat 16 (ascii "0123456789abcdef") (emitAll (ascii "0x") o))
  else some (arg, emitChar spec (emitChar '%'.toUInt8 o))

/-- The loop of `vsnprintf`; `reads` are the addresses of the format that it has looked at, the
last one first. -/
structure Scan where
  format : Nat
  arg : Nat
  out : Out
  reads : List Nat

def Scan.read (s : Scan) (a : Nat) : Scan := { s with reads := a :: s.reads }

/-- One pass of the loop, at a byte that is not NUL. A length modifier is skipped: `long` and
`int` have the same size. -/
def Scan.pass (va : Nat → UInt32) (fuel : Nat) (s : Scan) : Option Scan :=
  let m := s.out.mem
  if m s.format ≠ '%'.toUInt8 then
    some { s with format := s.format + 1, out := emitChar (m s.format) s.out }
  else
    let f := s.format + 1
    let s := s.read f
    if m f = '%'.toUInt8 then some { s with format := f + 1, out := emitChar '%'.toUInt8 s.out }
    else
      let f := if m f = 'l'.toUInt8 then f + 1 else f
      let s := s.read f
      (conversion va fuel (m f) s.arg s.out).map fun (arg, out) =>
        { s with format := f + 1, arg := arg, out := out }

/-- `while (*format)`. -/
def Scan.loop (va : Nat → UInt32) : Nat → Scan → Option Scan
  | 0, _ => none
  | fuel + 1, s =>
    let s := s.read s.format
    if s.out.mem s.format = 0 then some s else (s.pass va fuel).bind (Scan.loop va fuel)

/-- The memory afterwards, the return value, and the addresses of the format that were read. -/
structure Printed where
  mem : Memory
  ret : Int
  reads : List Nat

def vsnprintf (fuel : Nat) (m : Memory) (str size format : Nat) (va : Nat → UInt32) :
    Option Printed :=
  let avail := if 0 < size then size - 1 else 0
  (Scan.loop va fuel ⟨format, 0, ⟨m, str, avail, 0⟩, []⟩).map fun s =>
    let m := if 0 < size then Function.update s.out.mem s.out.dst 0 else s.out.mem
    ⟨m, s.out.total, s.reads⟩

end Crest
