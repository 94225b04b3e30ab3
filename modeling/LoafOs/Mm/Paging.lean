import LoafOs.Lib.ByteMemory
import LoafOs.Mm.Pmm

/-!
# Page tables

`src/mm/paging.c`.  Directories, tables and pages are physical frames that
the kernel reaches through its direct map, so the memory is the one that
kernel addresses see.  `invlpg` and the loads of `cr3` only concern the
processor's cache and are left out.
-/

namespace LoafOs

/-- The kernel's memory, the frame allocator and
`kernel_directory_phys`. -/
structure Memory where
  mem : Bytes
  pmm : Pmm
  kernelDirectory : Nat

/-- `PAGE_PRESENT`, `PAGE_RW` and `PAGE_USER`. -/
def pagePresent : Nat := 1
def pageRw : Nat := 2
def pageUser : Nat := 4

/-- `KERNEL_PDE_START`. -/
def kernelPdeStart : Nat := 768

/-- `entry & PAGE_PRESENT`. -/
def isPresent (entry : Nat) : Bool := entry.testBit 0

/-- `entry & PAGE_RW`. -/
def isRw (entry : Nat) : Bool := entry.testBit 1

/-- `entry & PAGE_USER`. -/
def isUser (entry : Nat) : Bool := entry.testBit 2

/-- `entry & ~0xfff`. -/
def frameOf (entry : Nat) : Nat := entry / 4096 * 4096

/-- `vaddr >> 22`. -/
def pdIndex (vaddr : Nat) : Nat := vaddr / 2 ^ 22

/-- `(vaddr >> 12) & 0x3ff`. -/
def ptIndex (vaddr : Nat) : Nat := vaddr / 2 ^ 12 % 1024

/-- The address of an entry of the table in a frame. -/
def entryAddr (table index : Nat) : Nat := physToVirt table + 4 * index

namespace Memory

/-- One entry of the table in a frame. -/
def entry (memory : Memory) (table index : Nat) : Nat :=
  memory.mem.word32 (entryAddr table index)

def putEntry (memory : Memory) (table index value : Nat) : Memory :=
  { memory with mem := memory.mem.putWord32 (entryAddr table index) value }

/-- `memset(phys_to_virt(frame), 0, PAGE_SIZE)`. -/
def clearPage (memory : Memory) (frame : Nat) : Memory :=
  { memory with mem := memory.mem.fill (physToVirt frame) 0 pageSize }

/-- `pmm_alloc_frame`; `none` is its `panic`. -/
def allocFrame (memory : Memory) : Option (Memory × Nat) :=
  memory.pmm.allocFrame.map fun (pmm, addr) => ({ memory with pmm }, addr)

/-- `pmm_free_frame`. -/
def freeFrame (memory : Memory) (addr : Nat) : Memory :=
  { memory with pmm := memory.pmm.freeFrame addr }

/-- The loop that shares the kernel entries, from `index` on. -/
def copyEntries (memory : Memory) (pd index : Nat) : Nat → Memory
  | 0 => memory
  | count + 1 =>
      copyEntries
        (memory.putEntry pd index
          (memory.entry memory.kernelDirectory index))
        pd (index + 1) count

end Memory

/-- `paging_create_address_space`. -/
def pagingCreateAddressSpace (memory : Memory) : Option (Memory × Nat) := do
  let (memory, pd) ← memory.allocFrame
  return ((memory.clearPage pd).copyEntries pd kernelPdeStart
    (1024 - kernelPdeStart), pd)

/-- The last statement of `paging_map_page`, through the table that the
directory entry names. -/
def mapEntry (memory : Memory) (pd vaddr paddr flags : Nat) : Memory :=
  memory.putEntry (frameOf (memory.entry pd (pdIndex vaddr)))
    (ptIndex vaddr) (frameOf paddr ||| flags % 4096 ||| pagePresent)

/-- `paging_map_page`, with its return value. -/
def pagingMapPage (memory : Memory) (pd vaddr paddr flags : Nat) :
    Option (Memory × Nat) :=
  let pde := memory.entry pd (pdIndex vaddr)
  if ¬ isPresent pde then do
    let (memory, pt) ← memory.allocFrame
    if pt = 0 then
      return (memory, 1)
    let memory := (memory.clearPage pt).putEntry pd (pdIndex vaddr)
      (pt ||| pagePresent ||| pageRw ||| flags &&& pageUser)
    return (mapEntry memory pd vaddr paddr flags, 0)
  else if isUser flags then
    let memory := memory.putEntry pd (pdIndex vaddr) (pde ||| pageUser)
    some (mapEntry memory pd vaddr paddr flags, 0)
  else
    some (mapEntry memory pd vaddr paddr flags, 0)

/-- `paging_unmap_page`. -/
def pagingUnmapPage (memory : Memory) (pd vaddr : Nat) : Memory :=
  let pde := memory.entry pd (pdIndex vaddr)
  if ¬ isPresent pde then memory
  else memory.putEntry (frameOf pde) (ptIndex vaddr) 0

/-- `paging_walk`; `none` is its error return. -/
def pagingWalk (memory : Memory) (pd vaddr : Nat) : Option Nat :=
  let pde := memory.entry pd (pdIndex vaddr)
  if ¬ isPresent pde then none
  else
    let pte := memory.entry (frameOf pde) (ptIndex vaddr)
    if ¬ isPresent pte then none
    else some (frameOf pte + vaddr % 4096)

/-- The inner loop of `paging_destroy_address_space`. -/
def freeEntries (memory : Memory) (pt index : Nat) : Nat → Memory
  | 0 => memory
  | count + 1 =>
      let pte := memory.entry pt index
      freeEntries
        (if isPresent pte then memory.freeFrame (frameOf pte) else memory)
        pt (index + 1) count

/-- The outer loop of `paging_destroy_address_space`. -/
def freeTables (memory : Memory) (pd index : Nat) : Nat → Memory
  | 0 => memory
  | count + 1 =>
      let pde := memory.entry pd index
      let memory :=
        if ¬ isPresent pde then memory
        else if kernelPdeStart ≤ index then memory
        else (freeEntries memory (frameOf pde) 0 1024).freeFrame
          (frameOf pde)
      freeTables memory pd (index + 1) count

/-- `paging_destroy_address_space`. -/
def pagingDestroyAddressSpace (memory : Memory) (pd : Nat) : Memory :=
  (freeTables memory pd 0 1024).freeFrame pd

/-- The tests of `paging_validate_user_range` on one page. -/
def validateUserPage (memory : Memory) (pd page : Nat)
    (needWrite : Bool) : Bool :=
  let pde := memory.entry pd (pdIndex page)
  let pte := memory.entry (frameOf pde) (ptIndex page)
  isPresent pde && isUser pde && isPresent pte && isUser pte &&
    (!needWrite || isRw pte)

/-- The loop of `paging_validate_user_range` at `page`. -/
def validateUserPages (memory : Memory) (pd stop : Nat)
    (needWrite : Bool) : Nat → Nat → Bool
  | 0, _ => true
  | fuel + 1, page =>
      if page ≤ stop then
        if ¬ validateUserPage memory pd page needWrite then false
        else if 0xfffff000 - pageSize < page then true
        else validateUserPages memory pd stop needWrite fuel
          (page + pageSize)
      else true

/-- `paging_validate_user_range`. -/
def pagingValidateUserRange (memory : Memory) (pd vaddr size : Nat)
    (needWrite : Bool) : Bool :=
  if size = 0 then true
  else if u32 (vaddr + size) < vaddr then false
  else validateUserPages memory pd
    (u32 (vaddr + size + 2 ^ 32 - 1) / 4096 * 4096) needWrite (2 ^ 20)
    (vaddr / 4096 * 4096)

end LoafOs
