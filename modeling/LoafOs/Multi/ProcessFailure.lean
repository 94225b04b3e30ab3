import LoafOs.Fs.FatRun
import LoafOs.Mm.HeapRun
import LoafOs.Multi.Process

/-!
# When creating a process fails

None of the error exits of `process_create` frees the `process_t` that its
first statement allocates, so a failed call leaves nothing behind only when
that allocation is what failed.
-/

namespace LoafOs

open Arena

/-- The resources that a failed call must not use up. -/
structure SameResources (system system' : System) : Prop where
  live : ∀ ptr, ptr ∈ system'.kernel.live ↔ ptr ∈ system.kernel.live
  pmm : system'.kernel.pmm = system.kernel.pmm
  nextPid : system'.nextPid = system.nextPid
  procList : system'.procList = system.procList

variable {kernel kernel' : Kernel} {system system' : System}
  {path : CString} {argv : List CString} {fileBuf ptr isrReturn : Nat}

theorem Kernel.kmalloc_live {bytes : Nat}
    (done : kernel.kmalloc bytes = some (kernel', ptr)) :
    kernel'.live =
      if ptr = 0 then kernel.live else ptr :: kernel.live := by
  simp only [Kernel.kmalloc, Option.bind_eq_bind, Option.pure_def,
    Option.bind_eq_some_iff, Option.some.injEq, Prod.mk.injEq] at done
  obtain ⟨⟨heap, ptr'⟩, _, kernelEq, ptrEq⟩ := done
  rw [← kernelEq, ← ptrEq]

theorem Kernel.kfree_live (done : kernel.kfree ptr = some kernel') :
    kernel'.live = kernel.live.erase ptr := by
  simp only [Kernel.kfree, Option.bind_eq_bind, Option.pure_def,
    Option.bind_eq_some_iff, Option.some.injEq] at done
  obtain ⟨heap, _, kernelEq⟩ := done
  rw [← kernelEq]

/-- Building the image frees the file buffer when it succeeds and nothing
otherwise. -/
theorem execImage_live {result : Except Nat Image}
    (done : execImage kernel fileBuf = some (kernel', result)) :
    kernel'.live = match result with
      | .ok _ => kernel.live.erase fileBuf
      | .error _ => kernel.live := by
  simp only [execImage, Option.bind_eq_bind, Option.pure_def] at done
  split at done
  · simp only [Option.some.injEq, Prod.mk.injEq] at done
    obtain ⟨kernelEq, resultEq⟩ := done
    subst kernelEq resultEq
    rfl
  · simp only [Option.bind_eq_some_iff] at done
    obtain ⟨⟨memory, pd⟩, _, ⟨memory', code⟩, _, rest⟩ := done
    split at rest
    · simp only [Option.some.injEq, Prod.mk.injEq] at rest
      obtain ⟨kernelEq, resultEq⟩ := rest
      subst kernelEq resultEq
      rfl
    · simp only [Option.bind_eq_some_iff, Option.some.injEq,
        Prod.mk.injEq] at rest
      obtain ⟨freed, freeing, kernelEq, resultEq⟩ := rest
      subst kernelEq resultEq
      exact (Kernel.kfree_live freeing).trans rfl

/-- Loading a program keeps every block that was live before, and leaves no
other one when it succeeds. -/
theorem execLoad_live {result : Except Nat Image}
    (done : execLoad kernel path = some (kernel', result)) :
    match result with
      | .ok _ => kernel'.live = kernel.live
      | .error _ => ∀ ptr ∈ kernel.live, ptr ∈ kernel'.live := by
  simp only [execLoad, Option.bind_eq_bind, Option.pure_def,
    Option.bind_eq_some_iff] at done
  obtain ⟨stat, _, rest⟩ := done
  cases stat with
  | error code =>
      simp only [Option.some.injEq, Prod.mk.injEq] at rest
      obtain ⟨kernelEq, resultEq⟩ := rest
      subst kernelEq resultEq
      exact fun _ member => member
  | ok st =>
      simp only [Option.bind_eq_some_iff] at rest
      obtain ⟨⟨kernel₁, fileBuf⟩, alloc, rest⟩ := rest
      have live := Kernel.kmalloc_live alloc
      split at rest
      case isTrue zero =>
        simp only [Option.some.injEq, Prod.mk.injEq] at rest
        obtain ⟨kernelEq, resultEq⟩ := rest
        subst kernelEq resultEq
        rw [if_pos zero] at live
        simp only [live]
        exact fun _ member => member
      case isFalse nonzero =>
        rw [if_neg nonzero] at live
        simp only [Option.bind_eq_some_iff] at rest
        obtain ⟨read, _, rest⟩ := rest
        split at rest
        · simp only [Option.some.injEq, Prod.mk.injEq] at rest
          obtain ⟨kernelEq, resultEq⟩ := rest
          subst kernelEq resultEq
          simp only [Kernel.setView, live]
          exact fun _ member => List.mem_cons_of_mem _ member
        · have final := execImage_live rest
          cases result with
          | ok image =>
              simp only [Kernel.setView, live, List.erase_cons_head]
                at final
              exact final
          | error code =>
              simp only [Kernel.setView, live] at final
              simp only [final]
              exact fun _ member => List.mem_cons_of_mem _ member

/-- A call that fails after its first allocation keeps that block. -/
theorem processCreate_leaves {code : Int}
    (failed : processCreate system isrReturn path argv =
      some (system', .error code)) :
    ∃ kernel proc,
      system.kernel.kmalloc processSize = some (kernel, proc) ∧
      (proc = 0 → system' = { system with kernel }) ∧
      (proc ≠ 0 → proc ∈ system'.kernel.live) := by
  simp only [processCreate, Option.bind_eq_bind, Option.pure_def,
    Option.bind_eq_some_iff] at failed
  obtain ⟨⟨kernel, proc⟩, alloc, rest⟩ := failed
  have live := Kernel.kmalloc_live alloc
  refine ⟨kernel, proc, alloc, fun zero => ?_, fun nonzero => ?_⟩
  · simp only [if_pos zero, Option.some.injEq, Prod.mk.injEq] at rest
    exact rest.1.symm
  · rw [if_neg nonzero] at live
    have member : proc ∈ kernel.live := by
      rw [live]
      exact List.mem_cons_self ..
    simp only [if_neg nonzero, Option.bind_eq_some_iff] at rest
    obtain ⟨⟨kernel', result⟩, loading, rest⟩ := rest
    have kept := execLoad_live loading
    cases result with
    | error code =>
        simp only [Option.some.injEq, Prod.mk.injEq] at rest
        rw [← rest.1]
        exact kept proc member
    | ok image =>
        simp only [Option.bind_eq_some_iff] at rest
        obtain ⟨⟨kernel'', kstack⟩, stack, rest⟩ := rest
        have live' := Kernel.kmalloc_live stack
        split at rest
        case isTrue zero =>
          simp only [Option.some.injEq, Prod.mk.injEq] at rest
          rw [if_pos zero, kept] at live'
          rw [← rest.1]
          simp only [live']
          exact member
        case isFalse =>
          simp only [Option.bind_eq_some_iff] at rest
          obtain ⟨⟨_, _⟩, _, rest⟩ := rest
          simp at rest

/-- A failed call leaves nothing behind exactly when no free block can hold
a `process_t`. -/
theorem processCreate_clean_iff {code : Int} {stop : Nat}
    {blocks : List Block}
    (heap : HeapUse.Ok ⟨system.kernel.heap, system.kernel.live⟩ stop blocks)
    (failed : processCreate system isrReturn path argv =
      some (system', .error code)) :
    SameResources system system' ↔
      ∀ block ∈ blocks, block.free = true →
        block.size < roundRequest processSize := by
  obtain ⟨kernel, proc, alloc, whenZero, whenTaken⟩ :=
    processCreate_leaves failed
  obtain ⟨heap', ptr, blocks', done, full, _, _, ok'⟩ :=
    heap.kmalloc processSize
  have kernelEq : kernel = { system.kernel with
      heap := heap'
      live := if ptr = 0 then system.kernel.live
        else ptr :: system.kernel.live } ∧ proc = ptr := by
    simp only [Kernel.kmalloc, Option.bind_eq_bind, Option.pure_def, done,
      Option.bind_some, Option.some.injEq, Prod.mk.injEq] at alloc
    exact ⟨alloc.1.symm, alloc.2.symm⟩
  obtain ⟨kernelEq, procEq⟩ := kernelEq
  subst procEq
  rw [← full]
  refine ⟨fun same => ?_, fun zero => ?_⟩
  · by_cases zero : proc = 0
    · exact zero
    · have new := (same.live proc).mp (whenTaken zero)
      have nodup := ok'.nodup
      simp only [if_neg zero] at nodup
      exact absurd new (List.nodup_cons.mp nodup).1
  · rw [whenZero zero, kernelEq, if_pos zero]
    exact ⟨fun _ => Iff.rfl, rfl, rfl, rfl⟩

theorem kmalloc_of_heap {heap' : Heap} {bytes : Nat}
    (done : LoafOs.kmalloc kernel.heap bytes = some (heap', ptr)) :
    kernel.kmalloc bytes = some ({ kernel with
      heap := heap'
      live := if ptr = 0 then kernel.live else ptr :: kernel.live }, ptr) := by
  simp only [Kernel.kmalloc, Option.bind_eq_bind, Option.pure_def, done,
    Option.bind_some]

/-- The exit for a path that names nothing. -/
theorem processCreate_missing {code : Nat}
    (alloc : system.kernel.kmalloc processSize = some (kernel, ptr))
    (nonzero : ptr ≠ 0)
    (missing : fatStat kernel.volume path = some (.error code)) :
    processCreate system isrReturn path argv =
      some ({ system with kernel }, .error 1) := by
  simp only [processCreate, Option.bind_eq_bind, Option.pure_def, alloc,
    Option.bind_some, if_neg nonzero, execLoad, missing]
  rfl

/-- A system with a one-page heap and a formatted volume. -/
def sampleMachine : System where
  kernel :=
    { heap := sampleHeap
      live := []
      pmm := samplePmm
      kernelDirectory := 0
      volume := sampleVolume }
  nextPid := 0
  procList := []

theorem sampleMachine_heap :
    HeapUse.Ok ⟨sampleMachine.kernel.heap, sampleMachine.kernel.live⟩
      (sampleHeap.freeList + 1 * pageSize)
      [⟨sampleHeap.freeList, 1 * pageSize - blockHeaderSize, true⟩] :=
  heapInit_ok (by decide) sampleHeap_booted

/-- The path names no file, so the call fails in `fat_stat`. -/
theorem sampleMachine_fails : ∃ system',
    processCreate sampleMachine 0 samplePath [] =
      some (system', .error 1) := by
  obtain ⟨heap', ptr, _, done, full, _⟩ :=
    sampleMachine_heap.kmalloc processSize
  have nonzero : ptr ≠ 0 := fun zero => by
    have small := full.mp zero _ (List.mem_cons_self ..) rfl
    simp [pageSize, blockHeaderSize, roundRequest, u32, processSize]
      at small
  have missing : fatStat sampleVolume samplePath = some (.error 1) := by
    decide +kernel
  exact ⟨_, processCreate_missing (kmalloc_of_heap done) nonzero missing⟩

theorem sampleMachine_clean_iff : ∃ system' code,
    processCreate sampleMachine 0 samplePath [] =
      some (system', .error code) ∧
    (SameResources sampleMachine system' ↔
      ∀ block ∈ [(⟨sampleHeap.freeList, 1 * pageSize - blockHeaderSize,
          true⟩ : Block)],
        block.free = true → block.size < roundRequest processSize) := by
  obtain ⟨system', failed⟩ := sampleMachine_fails
  exact ⟨system', 1, failed,
    processCreate_clean_iff sampleMachine_heap failed⟩

/-- A missing program costs the block of its `process_t`. -/
theorem missingProgram_leaks :
    ¬ ∀ (system system' : System) (stop : Nat) (blocks : List Block)
      (isrReturn : Nat) (path : CString) (argv : List CString) (code : Int),
      HeapUse.Ok ⟨system.kernel.heap, system.kernel.live⟩ stop blocks →
      processCreate system isrReturn path argv =
        some (system', .error code) →
      SameResources system system' := by
  intro claim
  obtain ⟨system', failed⟩ := sampleMachine_fails
  have same := claim _ _ _ _ _ _ _ _ sampleMachine_heap failed
  obtain ⟨kernel, proc, alloc, _, taken⟩ := processCreate_leaves failed
  have live := Kernel.kmalloc_live alloc
  obtain ⟨heap', ptr, _, done, full, _⟩ :=
    sampleMachine_heap.kmalloc processSize
  have nonzero : ptr ≠ 0 := fun zero => by
    have small := full.mp zero _ (List.mem_cons_self ..) rfl
    simp [pageSize, blockHeaderSize, roundRequest, u32, processSize]
      at small
  simp only [Kernel.kmalloc, Option.bind_eq_bind, Option.pure_def, done,
    Option.bind_some, Option.some.injEq, Prod.mk.injEq] at alloc
  have member := (same.live proc).mp (taken (alloc.2 ▸ nonzero))
  simp [sampleMachine] at member

end LoafOs
