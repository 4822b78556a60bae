import CrestRtos.Library.ByteMemory
import CrestRtos.Library.MachineWord

/-!
# The first-fit allocator

`kernel/alloc.c` and `kernel/user_alloc.c` run the same code on two regions
named by linker symbols. Block headers live in memory: the total size at the
header address, with the low bit set while the block is allocated, and the next
free block four bytes further. The null pointer is address 0.

Both search loops follow links stored in memory. They carry an explicit bound,
one more than the number of eight-byte cells of the region, and `none` is the
outcome of a loop that does not end within it.
-/

namespace Alloc
open ByteMemory MachineWord

def align : Nat := 8
def alignMask : Nat := 7
def headerSize : Nat := 8
def minBlockSize : Nat := headerSize + align

/-- The linker symbols that delimit one heap. -/
structure Region where
  start : Nat
  stop : Nat

/-- Memory, `free_list` and `heap_inited`. -/
structure Heap where
  mem : Memory
  freeList : Nat
  heapInited : Bool

def alignUp (x : Nat) : Nat := andNot (wrap (x + alignMask)) alignMask

def hdrSize (m : Memory) (hdr : Nat) : Nat := andNot (read32 m hdr) 1

def hdrNext (m : Memory) (hdr : Nat) : Nat := read32 m (hdr + 4)

def Heap.setSize (h : Heap) (hdr v : Nat) : Heap := { h with mem := write32 h.mem hdr v }

def Heap.setNext (h : Heap) (hdr v : Nat) : Heap := { h with mem := write32 h.mem (hdr + 4) v }

/-- `if (prev) prev->next = v; else free_list = v;` -/
def Heap.link (h : Heap) (prev v : Nat) : Heap :=
  if prev ≠ 0 then h.setNext prev v else { h with freeList := v }

def Region.heapStart (R : Region) : Nat := andNot (wrap (R.start + alignMask)) alignMask

def heapInit (R : Region) (h : Heap) : Heap :=
  if R.stop ≤ R.heapStart then { h with heapInited := true, freeList := 0 }
  else
    let h := { h with freeList := R.heapStart }
    let h := h.setSize h.freeList (R.stop - R.heapStart)
    let h := h.setNext h.freeList 0
    { h with heapInited := true }

def loopBound (R : Region) : Nat := (R.stop - R.heapStart) / 8 + 1

/-- The size of the block cut for a request, header included. -/
def blockNeed (size : Nat) : Nat :=
  let need := wrap (alignUp size + headerSize)
  if need < minBlockSize then minBlockSize else need

/-- `while (curr)` of `malloc`: the first free block of at least `need` bytes
and its predecessor. The second component is 0 when there is none. -/
def searchFit (m : Memory) (need : Nat) : Nat → Nat → Nat → Option (Nat × Nat)
  | 0, _, _ => none
  | n + 1, prev, curr =>
    if curr = 0 then some (prev, 0)
    else if need ≤ hdrSize m curr then some (prev, curr)
    else searchFit m need n curr (hdrNext m curr)

/-- The body of the loop when the block fits: split it, or hand it out whole. -/
def takeBlock (h : Heap) (prev curr need : Nat) : Heap :=
  let currSz := hdrSize h.mem curr
  let remain := currSz - need
  if minBlockSize ≤ remain then
    let next := wrap (curr + need)
    let h := h.setSize next remain
    let h := h.setNext next (hdrNext h.mem curr)
    let h := h.link prev next
    h.setSize curr (need ||| 1)
  else
    let h := h.link prev (hdrNext h.mem curr)
    h.setSize curr (currSz ||| 1)

def firstFitMalloc (R : Region) (h : Heap) (size : Nat) : Option (Heap × Nat) :=
  if size = 0 then some (h, 0)
  else
    let need := blockNeed size
    let h := if h.heapInited then h else heapInit R h
    match searchFit h.mem need (loopBound R) 0 h.freeList with
    | none => none
    | some (prev, curr) =>
      if curr = 0 then some (h, 0)
      else some (takeBlock h prev curr need, wrap (curr + headerSize))

/-- `while (curr && curr < hdr)` of `free`: the free neighbours in address order. -/
def searchSlot (m : Memory) (hdr : Nat) : Nat → Nat → Nat → Option (Nat × Nat)
  | 0, _, _ => none
  | n + 1, prev, curr =>
    if curr ≠ 0 ∧ curr < hdr then searchSlot m hdr n curr (hdrNext m curr)
    else some (prev, curr)

def mergeNext (h : Heap) (hdr : Nat) : Heap :=
  let next := hdrNext h.mem hdr
  if next ≠ 0 ∧ wrap (hdr + hdrSize h.mem hdr) = next then
    let h := h.setSize hdr (wrap (hdrSize h.mem hdr + hdrSize h.mem next))
    h.setNext hdr (hdrNext h.mem next)
  else h

def mergePrev (h : Heap) (prev hdr : Nat) : Heap :=
  if prev ≠ 0 ∧ wrap (prev + hdrSize h.mem prev) = hdr then
    let h := h.setSize prev (wrap (hdrSize h.mem prev + hdrSize h.mem hdr))
    h.setNext prev (hdrNext h.mem hdr)
  else h

def coalescingFree (R : Region) (h : Heap) (ptr : Nat) : Option Heap :=
  if ptr = 0 then some h
  else
    let hdr := wrap (ptr + (2 ^ 32 - headerSize))
    if hdr < R.heapStart ∨ R.stop ≤ hdr then some h
    else if h.heapInited = false then some h
    else
      let bsz := hdrSize h.mem hdr
      if bsz < headerSize ∨ R.stop < wrap (hdr + bsz) then some h
      else
        let h := h.setSize hdr bsz
        match searchSlot h.mem hdr (loopBound R) 0 h.freeList with
        | none => none
        | some (prev, curr) =>
          let h := h.setNext hdr curr
          let h := h.link prev hdr
          let h := mergeNext h hdr
          some (mergePrev h prev hdr)

/-- The linker symbols of `kernel.ld` that the two allocators use. -/
structure Layout where
  heap : Region
  userHeap : Region

/-- `kernel.ld`: the user heap starts behind `.bss`, aligned to 8, and has 16 KB;
the kernel heap follows it up to 4 KB below the end of the 128 KB RAM. -/
def linkerLayout (bssEnd : Nat) : Layout :=
  let userHeapStart := (bssEnd + 7) / 8 * 8
  let estack := 0x20000000 + 0x20000
  { heap := ⟨userHeapStart + 0x4000, estack - 0x1000⟩
    userHeap := ⟨userHeapStart, userHeapStart + 0x4000⟩ }

def malloc (L : Layout) : Heap → Nat → Option (Heap × Nat) := firstFitMalloc L.heap
def free (L : Layout) : Heap → Nat → Option Heap := coalescingFree L.heap
def userMalloc (L : Layout) : Heap → Nat → Option (Heap × Nat) := firstFitMalloc L.userHeap
def userFree (L : Layout) : Heap → Nat → Option Heap := coalescingFree L.userHeap

end Alloc
