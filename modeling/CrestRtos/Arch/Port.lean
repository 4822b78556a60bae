import CrestRtos.Heap.Alloc
import CrestRtos.Library.ArmMpu

/-!
# The Cortex-M4 port

The MPU programming of `arch/arm/cortex-m4/port.c`. Five of the eight regions
are written on every context switch; the other three keep their reset value.
-/

namespace Port
open ArmMpu MachineWord Alloc

def portStackGuardSize : Nat := 256

def mpuApNoAccess : Nat := 0
def mpuApPrivRwUserNo : Nat := 1
def mpuApPrivRwUserRo : Nat := 2
def mpuApPrivRwUserRw : Nat := 3
def mpuCtrlEnable : Nat := 1 <<< 0
def mpuCtrlPrivdefena : Nat := 1 <<< 2

def regionFlash : Nat := 0
def regionKernelRam : Nat := 1
def regionStack : Nat := 2
def regionUserHeap : Nat := 3
def regionGuard : Nat := 7

/-- Base address and size field of the region programmed for `base` and `size`. -/
def alignedBase (base size : Nat) : Nat := andNot base (size - 1)
def sizeField (size : Nat) : Nat := ctz size - 1

def portMpuConfigureForTask (L : Layout) (m : Mpu) (stackBase stackSize : Nat) : Mpu :=
  if stackBase = 0 ∨ stackSize = 0 then m
  else
    let guard := portStackGuardSize
    if guard &&& (guard - 1) ≠ 0 ∨ guard < 32 then m
    else
      let guardBase := alignedBase (wrap (stackBase + (2 ^ 32 - guard))) guard
      let oldCtrl := m.ctrl
      let m := { m with ctrl := 0 }
      let m := m.program regionFlash 0x08000000 (attributes 18 mpuApPrivRwUserRo 0)
      let m := m.program regionKernelRam 0x20000000 (attributes 16 mpuApPrivRwUserNo 1)
      let m := m.program regionStack (alignedBase stackBase stackSize)
        (attributes (sizeField stackSize) mpuApPrivRwUserRw 1)
      let m := if L.userHeap.stop > L.userHeap.start then
          let uhSize := L.userHeap.stop - L.userHeap.start
          m.program regionUserHeap (alignedBase L.userHeap.start uhSize)
            (attributes (sizeField uhSize) mpuApPrivRwUserRw 1)
        else m
      let m := m.program regionGuard guardBase (attributes (sizeField guard) mpuApNoAccess 1)
      { m with ctrl := oldCtrl ||| mpuCtrlEnable ||| mpuCtrlPrivdefena }

/-- The MPU after any number of context switches since reset. -/
inductive Programmed (L : Layout) : Mpu → Prop
  | reset : Programmed L ArmMpu.reset
  | configure {m : Mpu} (stackBase stackSize : Nat) (h : Programmed L m) :
      Programmed L (portMpuConfigureForTask L m stackBase stackSize)

end Port
