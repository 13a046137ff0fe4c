import Awkernel.Lib.TransitionSystem
import Mathlib.Tactic.NormNum

/-!
# Frames of RISC-V page tables

Mapping pages in the active address space (`awkernel_lib/src/arch/rv_common/{paging, page_table,
frame_allocator}.rs`). `Mapper::map` takes the root of the tables from `satp` into a temporary
`PageTable`, whose `find_pte_create` makes the tables that are missing and keeps their frames in
`frames`. The temporary is dropped at the end of the call, and a `FrameTracker` that is dropped
gives its frame back.

So every table that `Mapper::map` makes is linked from `satp` and on the list of recycled frames at
the same time, and the next allocation hands it out again (`table_recycled`). The frames of the
tables stay allocated in all states of a run exactly if no call makes a table
(`tables_owned_iff`).
-/

namespace Awkernel

open TransitionSystem List Function
open Option hiding or_assoc

namespace RvPaging

/-- A paging scheme: `VPN_LEVELS` and `VPN_BITS`. -/
structure Sv where
  levels : Nat
  vpnBits : Nat
  levels_pos : 0 < levels

def Sv.sv32 : Sv := ⟨2, 10, by decide⟩

def Sv.sv39 : Sv := ⟨3, 9, by decide⟩

/-- `VirtPageNum::indexes`. -/
def indexes (vpnBits : Nat) : (levels vpn : Nat) → List Nat
  | 0, _ => []
  | levels + 1, vpn =>
    indexes vpnBits levels (vpn >>> vpnBits) ++ [vpn &&& (2 ^ vpnBits - 1)]

theorem length_indexes (vpnBits levels vpn : Nat) :
    (indexes vpnBits levels vpn).length = levels := by
  induction levels generalizing vpn with
  | zero => rfl
  | succ levels ih => rw [indexes, length_append, ih]; rfl

/-! ### The frame allocator -/

/-- `From<usize> for PhysPageNum`, which keeps the lower `PPN_WIDTH` bits. -/
def physPageNum (ppnWidth v : Nat) : Nat := v &&& (2 ^ ppnWidth - 1)

theorem physPageNum_of_lt {ppnWidth v : Nat} (h : v < 2 ^ ppnWidth) :
    physPageNum ppnWidth v = v := by
  rw [physPageNum, Nat.and_two_pow_sub_one_eq_mod, Nat.mod_eq_of_lt h]

/-- `PageAllocator`: the frames from `current` to `end` were never allocated. The physical
addresses end at `2 ^ PA_WIDTH`, so the frames are numbered by `PPN_WIDTH` bits. -/
structure PageAllocator where
  current : Nat
  end_ : Nat
  ppnWidth : Nat
  /-- The last one to be recycled first. -/
  recycled : List Nat
  le_end : current ≤ end_
  end_le : end_ ≤ 2 ^ ppnWidth
  recycled_lt : ∀ ppn ∈ recycled, ppn < current
  recycled_nodup : recycled.Nodup

namespace PageAllocator

/-- `PageAllocator::alloc`. -/
def alloc (a : PageAllocator) : Option (Nat × PageAllocator) :=
  match h : a.recycled with
  | ppn :: recycled =>
    some (physPageNum a.ppnWidth ppn, { a with
      recycled := recycled
      recycled_lt := fun ppn' hmem => a.recycled_lt ppn' (by rw [h]; exact .tail _ hmem)
      recycled_nodup := (nodup_cons.mp (h ▸ a.recycled_nodup)).2 })
  | [] =>
    if hend : a.current = a.end_ then none
    else some (physPageNum a.ppnWidth a.current, { a with
      current := a.current + 1
      le_end := Nat.lt_of_le_of_ne a.le_end hend
      recycled_lt := fun ppn hmem => Nat.lt_succ_of_lt (a.recycled_lt ppn hmem) })

/-- `PageAllocator::dealloc`, which panics if the frame is not allocated. -/
def dealloc (a : PageAllocator) (ppn : Nat) : Option PageAllocator :=
  if h : a.current ≤ ppn ∨ ppn ∈ a.recycled then none
  else some { a with
    recycled := ppn :: a.recycled
    recycled_lt := by
      rintro ppn' (_ | ⟨_, hmem⟩)
      · exact Nat.lt_of_not_le fun hle => h (.inl hle)
      · exact a.recycled_lt ppn' hmem
    recycled_nodup := nodup_cons.mpr ⟨fun hmem => h (.inr hmem), a.recycled_nodup⟩ }

/-- The frames that `alloc` may hand out, now or later. -/
def Free (a : PageAllocator) (ppn : Nat) : Prop := ppn ∈ a.recycled ∨ a.current ≤ ppn

/-- The drop of a vector of `FrameTracker`s. -/
def dropFrames (a : PageAllocator) (frames : List Nat) : PageAllocator :=
  frames.foldl (fun a ppn => (a.dealloc ppn).getD a) a

variable {a a' : PageAllocator} {ppn : Nat}

/-- The number of a frame of the range is not changed by the conversion. -/
theorem physPageNum_of_lt_end (a : PageAllocator) (h : ppn < a.end_) :
    physPageNum a.ppnWidth ppn = ppn := physPageNum_of_lt (h.trans_le a.end_le)

/-- A frame that is handed out was free and is not free any more, and no other becomes free. -/
theorem alloc_spec (h : a.alloc = some (ppn, a')) :
    a.Free ppn ∧ ¬a'.Free ppn ∧ ∀ g, a'.Free g → a.Free g := by
  unfold alloc at h
  split at h
  · next ppn' recycled hrecycled =>
    obtain ⟨hppn, rfl⟩ := Prod.mk.inj (some.inj h)
    have hmem : ppn' ∈ a.recycled := by rw [hrecycled]; exact mem_cons_self
    rw [a.physPageNum_of_lt_end ((a.recycled_lt ppn' hmem).trans_le a.le_end)] at hppn
    subst hppn
    obtain ⟨hnotMem, -⟩ := nodup_cons.mp (hrecycled ▸ a.recycled_nodup)
    refine ⟨.inl hmem, ?_, fun g hg => hg.imp_left fun hg => ?_⟩
    · rintro (hmem' | hle)
      · exact hnotMem hmem'
      · exact absurd (a.recycled_lt ppn' hmem) (Nat.not_lt.mpr hle)
    · rw [hrecycled]
      exact mem_cons_of_mem _ hg
  · split at h
    · cases h
    rename_i hend
    rw [a.physPageNum_of_lt_end (Nat.lt_of_le_of_ne a.le_end hend)] at h
    cases h
    refine ⟨.inr (Nat.le_refl _), ?_, fun g hg => hg.imp_right Nat.le_of_succ_le⟩
    rintro (hmem | hle)
    · exact Nat.lt_irrefl _ (a.recycled_lt _ hmem)
    · exact Nat.not_succ_le_self _ hle

/-- A frame is free after it was given back, whatever happened to it before. -/
theorem free_dealloc (a : PageAllocator) (ppn g : Nat) :
    ((a.dealloc ppn).getD a).Free g ↔ a.Free g ∨ g = ppn := by
  unfold dealloc
  split
  · next h =>
    refine ⟨.inl, ?_⟩
    rintro (hfree | rfl)
    · exact hfree
    · exact h.symm
  · change (g ∈ ppn :: a.recycled ∨ a.current ≤ g) ↔ _
    rw [mem_cons, Free]
    tauto

theorem free_dropFrames (a : PageAllocator) (frames : List Nat) (g : Nat) :
    (a.dropFrames frames).Free g ↔ a.Free g ∨ g ∈ frames := by
  induction frames generalizing a with
  | nil => exact (or_iff_left not_mem_nil).symm
  | cons ppn frames ih =>
    change (PageAllocator.dropFrames ((a.dealloc ppn).getD a) frames).Free g ↔ _
    rw [ih, free_dealloc, mem_cons, or_assoc]

end PageAllocator

/-! ### Page tables -/

/-- The bits of `Flags`. -/
def flagV : BitVec 8 := 1 <<< 0
def flagR : BitVec 8 := 1 <<< 1
def flagW : BitVec 8 := 1 <<< 2
def flagX : BitVec 8 := 1 <<< 3
def flagA : BitVec 8 := 1 <<< 6
def flagD : BitVec 8 := 1 <<< 7

structure PageTableEntry where
  ppn : Nat
  flags : BitVec 8
  deriving DecidableEq

namespace PageTableEntry

def empty : PageTableEntry := ⟨0, 0⟩

def isValid (pte : PageTableEntry) : Bool := pte.flags &&& flagV != 0

end PageTableEntry

/-- The entries of every frame, were it a table. -/
abbrev Memory := Nat → Nat → PageTableEntry

namespace Memory

def setPte (mem : Memory) (ppn idx : Nat) (pte : PageTableEntry) : Memory :=
  update mem ppn (update (mem ppn) idx pte)

/-- `FrameTracker::new` clears the frame. -/
def clear (mem : Memory) (ppn : Nat) : Memory :=
  update mem ppn fun _ => PageTableEntry.empty

/-- `PageTable::find_pte`: the place of an entry of the last level. -/
def findPte (mem : Memory) : (ppn : Nat) → (idxs : List Nat) → Option (Nat × Nat)
  | _, [] => none
  | ppn, [idx] => some (ppn, idx)
  | ppn, idx :: idx' :: idxs =>
    if (mem ppn idx).isValid then findPte mem (mem ppn idx).ppn (idx' :: idxs) else none

end Memory

/-- What a temporary `PageTable` works on. -/
structure Work where
  mem : Memory
  allocator : PageAllocator
  frames : List Nat

/-- A new table: its frame is cleared, linked by an entry and kept in `frames`. -/
def Work.addTable (w : Work) (ppn idx frame : Nat) (allocator : PageAllocator) : Work where
  mem := (w.mem.clear frame).setPte ppn idx ⟨frame, flagV⟩
  allocator := allocator
  frames := w.frames ++ [frame]

/-- `PageTable::find_pte_create`; no place is returned if `frame_alloc().unwrap()` panics. -/
def Work.findPteCreate : (w : Work) → (ppn : Nat) → (idxs : List Nat) → Work × Option (Nat × Nat)
  | w, _, [] => (w, none)
  | w, ppn, [idx] => (w, some (ppn, idx))
  | w, ppn, idx :: idx' :: idxs =>
    if (w.mem ppn idx).isValid then w.findPteCreate (w.mem ppn idx).ppn (idx' :: idxs)
    else
      match w.allocator.alloc with
      | none => (w, none)
      | some (frame, allocator) =>
        (w.addTable ppn idx frame allocator).findPteCreate frame (idx' :: idxs)

/-- What a call returns. -/
inductive Outcome
  | ok
  | alreadyMapped
  | invalidPageTable
  | panicked
  deriving DecidableEq

/-- `PageTable::map`. -/
def Work.map (w : Work) (root : Nat) (idxs : List Nat) (pte : PageTableEntry) : Work × Outcome :=
  match w.findPteCreate root idxs with
  | (w, none) => (w, .panicked)
  | (w, some (ppn, idx)) =>
    if (w.mem ppn idx).isValid then (w, .alreadyMapped)
    else ({ w with mem := w.mem.setPte ppn idx pte }, .ok)

/-- `paging::Flags`, as far as they are read. -/
structure MapFlags where
  write : Bool
  execute : Bool

/-- The flags of a mapped page. -/
def MapFlags.rvFlags (flags : MapFlags) : BitVec 8 :=
  flagV ||| flagA ||| flagR ||| (if flags.write then flagW ||| flagD else 0) |||
    (if flags.execute then flagX else 0)

/-! ### The active address space -/

structure State where
  mem : Memory
  allocator : PageAllocator
  /-- The root of the tables; `none` in the bare mode. -/
  satp : Option Nat

inductive Action
  | map (vmAddr phyAddr : Nat) (flags : MapFlags)
  | unmap (vmAddr : Nat)

/-- `PAGE_SIZE`. -/
def pageSize : Nat := 0x1000

namespace State

variable (sv : Sv)

/-- The indexes of the page of an address. -/
def idxs (vmAddr : Nat) : List Nat := indexes sv.vpnBits sv.levels (vmAddr / pageSize)

/-- `Mapper::vm_to_phy`. -/
def vmToPhy (σ : State) (vmAddr : Nat) : Option Nat := do
  let root ← σ.satp
  let (ppn, idx) ← σ.mem.findPte root (idxs sv vmAddr)
  if (σ.mem ppn idx).isValid then some ((σ.mem ppn idx).ppn * pageSize + vmAddr % pageSize)
  else none

/-- The end of a call that has made a temporary page table: its frames are dropped. -/
def finish (σ : State) (w : Work) : State :=
  { σ with mem := w.mem, allocator := w.allocator.dropFrames w.frames }

/-- `Mapper::map`. -/
def map (σ : State) (vmAddr phyAddr : Nat) (flags : MapFlags) : State × Outcome :=
  if (σ.vmToPhy sv vmAddr).isSome then (σ, .alreadyMapped)
  else
    match σ.satp with
    | none => (σ, .invalidPageTable)
    | some root =>
      let (w, outcome) := Work.map ⟨σ.mem, σ.allocator, []⟩ root (idxs sv vmAddr)
        ⟨phyAddr / pageSize, flags.rvFlags⟩
      (σ.finish w, outcome)

/-- `Mapper::unmap`, which panics if the page is not mapped. -/
def unmap (σ : State) (vmAddr : Nat) : State × Outcome :=
  match σ.satp with
  | none => (σ, .ok)
  | some root =>
    match σ.mem.findPte root (idxs sv vmAddr) with
    | none => (σ, .panicked)
    | some (ppn, idx) =>
      if (σ.mem ppn idx).isValid then
        ({ σ with mem := σ.mem.setPte ppn idx .empty }, .ok)
      else (σ, .panicked)

def step (σ : State) : Action → Option State
  | .map vmAddr phyAddr flags => some (σ.map sv vmAddr phyAddr flags).1
  | .unmap vmAddr => some (σ.unmap sv vmAddr).1

end State

/-- The frames of the tables: the root, and those that a valid entry of a table links that is not
of the last level. -/
inductive IsTable (sv : Sv) (mem : Memory) (root : Nat) : (level ppn : Nat) → Prop
  | root : IsTable sv mem root 0 root
  | link {level ppn idx : Nat} : IsTable sv mem root level ppn → level + 1 < sv.levels →
      (mem ppn idx).isValid = true → IsTable sv mem root (level + 1) (mem ppn idx).ppn

namespace State

variable (sv : Sv)

/-- No frame of a table is recycled or can be handed out by the allocator. -/
def TablesOwned (σ : State) : Prop :=
  ∀ root ∈ σ.satp, ∀ level ppn, IsTable sv σ.mem root level ppn → ¬σ.allocator.Free ppn

/-- A table of the last level is not also used at a higher level. -/
def Separate (σ : State) : Prop :=
  ∀ root ∈ σ.satp, ∀ level ppn, IsTable sv σ.mem root level ppn →
    IsTable sv σ.mem root (sv.levels - 1) ppn → level = sv.levels - 1

/-- `map` finds the tables for its page, or no frame to make one. -/
def MakesNoTable (σ : State) : Action → Prop
  | .map vmAddr _ _ => ∀ root ∈ σ.satp,
      (σ.mem.findPte root (idxs sv vmAddr)).isSome = true ∨ σ.allocator.alloc.isNone = true
  | .unmap _ => True

end State

/-! ### Writing entries -/

namespace Memory

variable {mem : Memory} {ppn idx : Nat} {pte : PageTableEntry}

theorem setPte_of_ne {g : Nat} (hne : g ≠ ppn) : mem.setPte ppn idx pte g = mem g :=
  update_of_ne hne ..

theorem clear_of_ne {g : Nat} (hne : g ≠ ppn) : mem.clear ppn g = mem g :=
  update_of_ne hne ..

end Memory

theorem isValid_empty : PageTableEntry.empty.isValid = false := by decide

theorem isValid_flagV (ppn : Nat) : (PageTableEntry.mk ppn flagV).isValid = true := by
  change (flagV &&& flagV != 0) = true
  decide

variable {leaf idx : Nat}

namespace IsTable

variable {sv : Sv} {mem mem' : Memory} {root level ppn : Nat}

theorem lt_levels (h : IsTable sv mem root level ppn) : level < sv.levels := by
  cases h with
  | root => exact sv.levels_pos
  | link _ hlevel _ => exact hlevel

/-- The tables stay if the valid entries of those that are not of the last level do. -/
theorem mono (hkeep : ∀ level ppn, IsTable sv mem root level ppn → level + 1 < sv.levels →
      ∀ idx, (mem ppn idx).isValid = true → mem' ppn idx = mem ppn idx)
    (h : IsTable sv mem root level ppn) : IsTable sv mem' root level ppn := by
  induction h with
  | root => exact .root
  | @link level ppn idx htable hlevel hvalid ih =>
    have hsame := hkeep level ppn htable hlevel idx hvalid
    rw [← hsame] at hvalid ⊢
    exact .link ih hlevel hvalid

theorem of_findPte {idxs : List Nat} (h : IsTable sv mem root level ppn)
    (hlength : level + idxs.length = sv.levels) (hfind : mem.findPte ppn idxs = some (leaf, idx)) :
    IsTable sv mem root (sv.levels - 1) leaf := by
  induction idxs generalizing level ppn with
  | nil => cases hfind
  | cons idx₀ idxs ih =>
    cases idxs with
    | nil =>
      cases hfind
      obtain rfl : level = sv.levels - 1 := by
        rw [length_singleton] at hlength
        omega
      exact h
    | cons idx₁ idxs =>
      rw [Memory.findPte, ite_none_right_eq_some] at hfind
      rw [length_cons, length_cons] at hlength
      refine ih (h.link (by omega) hfind.1) ?_ hfind.2
      rw [length_cons]
      omega

end IsTable

/-! ### What `find_pte_create` does -/

namespace Work

variable {w : Work} {ppn : Nat}

variable {frame : Nat} {allocator : PageAllocator}

theorem addTable_mem_self {idx : Nat} (hne : frame ≠ ppn) :
    (w.addTable ppn idx frame allocator).mem frame = fun _ => PageTableEntry.empty :=
  (Memory.setPte_of_ne hne).trans (update_self ..)

theorem addTable_mem_of_ne {idx g : Nat} (hne : g ≠ ppn) (hne' : g ≠ frame) :
    (w.addTable ppn idx frame allocator).mem g = w.mem g :=
  (Memory.setPte_of_ne hne).trans (Memory.clear_of_ne hne')

theorem addTable_mem_parent {idx : Nat} (hne : ppn ≠ frame) :
    (w.addTable ppn idx frame allocator).mem ppn =
      update (w.mem ppn) idx ⟨frame, flagV⟩ :=
  (update_self ..).trans (by rw [Memory.clear_of_ne hne])

theorem frames_subset (w : Work) (ppn : Nat) (idxs : List Nat) :
    w.frames ⊆ (w.findPteCreate ppn idxs).1.frames := by
  induction idxs generalizing w ppn with
  | nil => exact List.Subset.refl _
  | cons idx idxs ih =>
    cases idxs with
    | nil => exact List.Subset.refl _
    | cons idx' idxs =>
      rw [findPteCreate]
      split
      · exact ih w _
      split
      · exact List.Subset.refl _
      rename_i frame allocator _
      have hsub := ih (w.addTable ppn idx frame allocator) frame
      exact List.Subset.trans (subset_append_left ..) hsub

/-- Below a table that was just made, only frames that were free are written. -/
theorem findPteCreate_fresh (idxs : List Nat) (hallocated : ¬w.allocator.Free ppn)
    (hempty : ∀ idx, (w.mem ppn idx).isValid = false) {g : Nat} (hne : g ≠ ppn)
    (hg : ¬w.allocator.Free g) :
    (w.findPteCreate ppn idxs).1.mem g = w.mem g ∧
      ∀ leaf idx, (w.findPteCreate ppn idxs).2 = some (leaf, idx) → g ≠ leaf := by
  induction idxs generalizing w ppn with
  | nil => exact ⟨rfl, nofun⟩
  | cons idx idxs ih =>
    cases idxs with
    | nil =>
      refine ⟨rfl, fun leaf idx' hplace => ?_⟩
      cases hplace
      exact hne
    | cons idx' idxs =>
      rw [findPteCreate, if_neg (by rw [hempty]; exact Bool.false_ne_true)]
      cases halloc : w.allocator.alloc with
      | none => exact ⟨rfl, nofun⟩
      | some result =>
        obtain ⟨frame, allocator⟩ := result
        obtain ⟨hfree, hallocated', hsub⟩ := PageAllocator.alloc_spec halloc
        have hframe : frame ≠ ppn := fun heq => hallocated (heq ▸ hfree)
        have hframe' : g ≠ frame := fun heq => hg (heq ▸ hfree)
        have hempty' : ∀ idx',
            ((w.addTable ppn idx frame allocator).mem frame idx').isValid = false := by
          intro idx'
          rw [addTable_mem_self hframe]
          exact isValid_empty
        obtain ⟨hmem, hplace⟩ := ih hallocated' hempty' hframe' fun hfree' => hg (hsub g hfree')
        exact ⟨hmem.trans (addTable_mem_of_ne hne hframe'), hplace⟩

/-- **`find_pte_create`** from a table whose tables are all allocated. Either it makes no table,
because all are there or because there is no frame, and changes nothing. Or it makes one below some
table `ppn'`, and what was allocated before has changed only in the entry that links it. -/
theorem findPteCreate_cases {sv : Sv} {root level : Nat} (idxs : List Nat)
    (htable : IsTable sv w.mem root level ppn) (hlength : level + idxs.length = sv.levels)
    (howned : ∀ level ppn, IsTable sv w.mem root level ppn → ¬w.allocator.Free ppn) :
    (w.findPteCreate ppn idxs = (w, w.mem.findPte ppn idxs) ∧
      ((w.mem.findPte ppn idxs).isSome = true ∨ w.allocator.alloc.isNone = true)) ∨
    (¬((w.mem.findPte ppn idxs).isSome = true ∨ w.allocator.alloc.isNone = true) ∧
      ∃ level' ppn' idx frame, IsTable sv w.mem root level' ppn' ∧ level' + 1 < sv.levels ∧
        (w.mem ppn' idx).isValid = false ∧
        frame ∈ (w.findPteCreate ppn idxs).1.frames ∧
        (∀ g, ¬w.allocator.Free g → (w.findPteCreate ppn idxs).1.mem g =
          if g = ppn' then update (w.mem ppn') idx ⟨frame, flagV⟩ else w.mem g) ∧
        ∀ leaf idx', (w.findPteCreate ppn idxs).2 = some (leaf, idx') → w.allocator.Free leaf) := by
  induction idxs generalizing ppn level with
  | nil => exact absurd htable.lt_levels (by rw [← hlength]; exact Nat.lt_irrefl _)
  | cons idx idxs ih =>
    cases idxs with
    | nil => exact .inl ⟨rfl, .inl rfl⟩
    | cons idx' idxs =>
      rw [length_cons, length_cons] at hlength
      rw [findPteCreate, Memory.findPte]
      split
      · next hvalid =>
        refine ih (htable.link (by omega) hvalid) ?_
        rw [length_cons]
        omega
      rename_i hvalid
      cases halloc : w.allocator.alloc with
      | none => exact .inl ⟨rfl, .inr rfl⟩
      | some result =>
        obtain ⟨frame, allocator⟩ := result
        obtain ⟨hfree, hallocated, hsub⟩ := PageAllocator.alloc_spec halloc
        have hframe : frame ≠ ppn := fun heq => howned level ppn htable (heq ▸ hfree)
        have hempty : ∀ idx',
            ((w.addTable ppn idx frame allocator).mem frame idx').isValid = false := by
          intro idx'
          rw [addTable_mem_self hframe]
          exact isValid_empty
        -- what was allocated is not touched below the new table
        have hfresh : ∀ g, ¬w.allocator.Free g → _ := fun g hg =>
          findPteCreate_fresh (idx' :: idxs) hallocated hempty
            (fun heq : g = frame => hg (heq ▸ hfree)) fun hfree' => hg (hsub g hfree')
        refine .inr ⟨by simp, level, ppn, idx, frame, htable, by omega,
          Bool.not_eq_true _ ▸ hvalid, ?_, fun g hg => ?_, fun leaf idx'' hplace => ?_⟩
        · exact frames_subset _ _ _ (mem_append_right _ mem_cons_self)
        · rw [(hfresh g hg).1]
          split
          · next heq => rw [heq, addTable_mem_parent hframe.symm]
          · next hne => exact addTable_mem_of_ne hne fun heq => hg (heq ▸ hfree)
        · by_contra hleaf
          exact (hfresh leaf hleaf).2 leaf idx'' hplace rfl

end Work

namespace State

variable {sv : Sv} {σ σ' : State}

theorem length_idxs (sv : Sv) (vmAddr : Nat) : (idxs sv vmAddr).length = sv.levels :=
  length_indexes ..

variable {root level : Nat} {ppn : Nat}

/-- **An entry of the last level** links no table. -/
theorem isTable_setPte_leaf {pte : PageTableEntry} (hseparate : σ.Separate sv)
    (hroot : root ∈ σ.satp)
    (hleaf : IsTable sv σ.mem root (sv.levels - 1) leaf) :
    IsTable sv (σ.mem.setPte leaf idx pte) root level ppn ↔ IsTable sv σ.mem root level ppn := by
  have hkeep : ∀ level ppn, IsTable sv σ.mem root level ppn → level + 1 < sv.levels →
      σ.mem.setPte leaf idx pte ppn = σ.mem ppn := by
    intro level ppn htable hlevel
    refine Memory.setPte_of_ne ?_
    rintro rfl
    have heq := hseparate root hroot level ppn htable hleaf
    omega
  constructor
  · intro htable
    induction htable with
    | root => exact .root
    | @link level ppn idx' _ hlevel hvalid ih =>
      rw [hkeep level ppn ih hlevel] at hvalid ⊢
      exact .link ih hlevel hvalid
  · intro htable
    refine htable.mono fun level ppn htable hlevel idx' _ => ?_
    rw [hkeep level ppn htable hlevel]

/-- The tables are as they were after a write to an entry of the last level. -/
theorem leaf_written (pte : PageTableEntry) (howned : σ.TablesOwned sv)
    (hseparate : σ.Separate sv) (hroot : σ.satp = some root)
    (hfind : ∃ vmAddr, σ.mem.findPte root (idxs sv vmAddr) = some (leaf, idx)) :
    TablesOwned sv { σ with mem := σ.mem.setPte leaf idx pte } ∧
      Separate sv { σ with mem := σ.mem.setPte leaf idx pte } := by
  obtain ⟨vmAddr, hfind⟩ := hfind
  have hlength : 0 + (idxs sv vmAddr).length = sv.levels := by
    rw [Nat.zero_add, length_idxs]
  have hleaf := IsTable.root.of_findPte hlength hfind
  have hsame : ∀ level ppn, IsTable sv (σ.mem.setPte leaf idx pte) root level ppn ↔
      IsTable sv σ.mem root level ppn := fun _ _ => isTable_setPte_leaf hseparate hroot hleaf
  constructor
  · intro root' hroot' level ppn htable
    cases hroot.symm.trans hroot'
    exact howned root hroot level ppn ((hsame level ppn).mp htable)
  · intro root' hroot' level ppn htable hlast
    cases hroot.symm.trans hroot'
    exact hseparate root hroot level ppn ((hsame level ppn).mp htable) ((hsame _ ppn).mp hlast)

/-- **A table that is made** is linked and free in the end. -/
theorem not_tablesOwned_finish {vmAddr : Nat} (pte : PageTableEntry) (howned : σ.TablesOwned sv)
    (hroot : σ.satp = some root)
    (hmade : ¬((σ.mem.findPte root (idxs sv vmAddr)).isSome = true ∨
      σ.allocator.alloc.isNone = true)) :
    ¬(σ.finish (Work.map ⟨σ.mem, σ.allocator, []⟩ root (idxs sv vmAddr) pte).1).TablesOwned sv := by
  let w : Work := ⟨σ.mem, σ.allocator, []⟩
  have hlength : 0 + (idxs sv vmAddr).length = sv.levels := by
    rw [Nat.zero_add, length_idxs]
  have hcases := Work.findPteCreate_cases (w := w) (idxs sv vmAddr) IsTable.root hlength
    (howned root hroot)
  rcases hcases with ⟨-, hnone⟩ | ⟨-, level, ppn, idx, frame, htable, hlevel, hinvalid, hrest⟩
  · exact absurd hnone hmade
  obtain ⟨hframe, hmem, hplace⟩ := hrest
  -- the call returns the frames of `find_pte_create`, and writes at most a frame that was free
  have hmap : (w.map root (idxs sv vmAddr) pte).1.frames =
        (w.findPteCreate root (idxs sv vmAddr)).1.frames ∧
      ∀ g, ¬σ.allocator.Free g → (w.map root (idxs sv vmAddr) pte).1.mem g =
        (w.findPteCreate root (idxs sv vmAddr)).1.mem g := by
    unfold Work.map
    split
    · next w' heq => rw [heq]; exact ⟨rfl, fun _ _ => rfl⟩
    rename_i w' leaf idx' heq
    rw [heq] at hplace ⊢
    split
    · exact ⟨rfl, fun _ _ => rfl⟩
    refine ⟨rfl, fun g hg => Memory.setPte_of_ne ?_⟩
    rintro rfl
    exact hg (hplace g idx' rfl)
  intro howned'
  have hafter : ∀ g, ¬σ.allocator.Free g → (w.map root (idxs sv vmAddr) pte).1.mem g =
      if g = ppn then update (σ.mem ppn) idx ⟨frame, flagV⟩ else σ.mem g :=
    fun g hg => (hmap.2 g hg).trans (hmem g hg)
  have hentry : (w.map root (idxs sv vmAddr) pte).1.mem ppn idx = ⟨frame, flagV⟩ := by
    rw [hafter ppn (howned root hroot level ppn htable), if_pos rfl, update_self]
  have htable' : IsTable sv (w.map root (idxs sv vmAddr) pte).1.mem root level ppn := by
    refine htable.mono fun level' g hg _ idx' hvalid => ?_
    rw [hafter g (howned root hroot level' g hg)]
    split
    · next heq =>
      subst heq
      refine update_of_ne ?_ ..
      rintro rfl
      cases hvalid.symm.trans hinvalid
    · rfl
  have hlinked : IsTable sv (w.map root (idxs sv vmAddr) pte).1.mem root (level + 1) frame := by
    have hvalid : ((w.map root (idxs sv vmAddr) pte).1.mem ppn idx).isValid = true := by
      rw [hentry]
      exact isValid_flagV frame
    have hlink := htable'.link hlevel hvalid
    rwa [hentry] at hlink
  refine howned' root hroot (level + 1) frame hlinked ?_
  exact (PageAllocator.free_dropFrames ..).mpr (.inr (hmap.1 ▸ hframe))

/-- The tables stay owned exactly if `map` makes none. -/
theorem map_step (howned : σ.TablesOwned sv) (hseparate : σ.Separate sv) (vmAddr phyAddr : Nat)
    (flags : MapFlags) :
    ((σ.map sv vmAddr phyAddr flags).1.TablesOwned sv →
      (σ.map sv vmAddr phyAddr flags).1.Separate sv) ∧
    ((σ.map sv vmAddr phyAddr flags).1.TablesOwned sv ↔
      σ.MakesNoTable sv (.map vmAddr phyAddr flags)) := by
  unfold map
  split
  · next hmapped =>
    refine ⟨fun _ => hseparate, iff_of_true howned fun root hroot => .inl ?_⟩
    -- a page that is mapped has its tables
    obtain ⟨phy, hphy⟩ := isSome_iff_exists.mp hmapped
    obtain ⟨root', hroot', hrest⟩ := bind_eq_some_iff.mp hphy
    cases hroot.symm.trans hroot'
    obtain ⟨place, hplace, -⟩ := bind_eq_some_iff.mp hrest
    exact isSome_iff_exists.mpr ⟨place, hplace⟩
  · split
    · next hnone =>
      refine ⟨fun _ => hseparate, iff_of_true howned fun root hroot => ?_⟩
      cases hnone.symm.trans hroot
    rename_i root hroot
    have honly : σ.MakesNoTable sv (.map vmAddr phyAddr flags) ↔
        ((σ.mem.findPte root (idxs sv vmAddr)).isSome = true ∨
          σ.allocator.alloc.isNone = true) := by
      constructor
      · exact fun h => h root hroot
      intro h root' hroot'
      cases hroot.symm.trans hroot'
      exact h
    rw [honly]
    by_cases hmade : (σ.mem.findPte root (idxs sv vmAddr)).isSome = true ∨
        σ.allocator.alloc.isNone = true
    · have hlength : 0 + (idxs sv vmAddr).length = sv.levels := by
        rw [Nat.zero_add, length_idxs]
      have hcases := Work.findPteCreate_cases (w := ⟨σ.mem, σ.allocator, []⟩) (idxs sv vmAddr)
        IsTable.root hlength (howned root hroot)
      rcases hcases with ⟨hsame, -⟩ | ⟨hnot, -⟩
      · rw [Work.map, hsame]
        cases hfind : σ.mem.findPte root (idxs sv vmAddr) with
        | none => exact ⟨fun _ => hseparate, iff_of_true howned (hfind ▸ hmade)⟩
        | some place =>
          obtain ⟨leaf, idx⟩ := place
          dsimp only
          split
          · exact ⟨fun _ => hseparate, iff_of_true howned (.inl rfl)⟩
          obtain ⟨howned', hseparate'⟩ := leaf_written
            ⟨phyAddr / pageSize, flags.rvFlags⟩ howned hseparate hroot ⟨vmAddr, hfind⟩
          exact ⟨fun _ => hseparate', iff_of_true howned' (.inl rfl)⟩
      · exact absurd hmade hnot
    · have hnot := not_tablesOwned_finish ⟨phyAddr / pageSize, flags.rvFlags⟩ howned hroot hmade
      exact ⟨fun h => absurd h hnot, iff_of_false hnot hmade⟩

theorem unmap_step (howned : σ.TablesOwned sv) (hseparate : σ.Separate sv) (vmAddr : Nat) :
    (σ.unmap sv vmAddr).1.TablesOwned sv ∧ (σ.unmap sv vmAddr).1.Separate sv := by
  unfold unmap
  split
  · exact ⟨howned, hseparate⟩
  rename_i root hroot
  split
  · exact ⟨howned, hseparate⟩
  rename_i leaf idx hfind
  split
  · exact leaf_written .empty howned hseparate hroot ⟨vmAddr, hfind⟩
  · exact ⟨howned, hseparate⟩

/-- **The frames of the tables stay allocated**: along a run that starts from tables whose frames
are allocated, no frame that is reachable from `satp` as a table is ever recycled or about to be
handed out, exactly if every `map` finds the tables for its page. -/
theorem tables_owned_iff {as : List Action} (howned : σ.TablesOwned sv)
    (hseparate : σ.Separate sv) (hrun : run (step sv) σ as = some σ') :
    Always (step sv) (TablesOwned sv) σ as ↔ Meets (step sv) (MakesNoTable sv) σ as := by
  refine always_iff_meets (I := fun σ => σ.TablesOwned sv → σ.Separate sv) ?_ (fun _ => hseparate)
    howned hrun
  intro σ a σ' hseparate howned hstep
  cases a with
  | map vmAddr phyAddr flags =>
    cases hstep
    exact map_step howned (hseparate howned) vmAddr phyAddr flags
  | unmap vmAddr =>
    cases hstep
    obtain ⟨howned', hseparate'⟩ := unmap_step howned (hseparate howned) vmAddr
    exact ⟨fun _ => hseparate', iff_of_true howned' trivial⟩

instance (σ : State) : DecidablePred (σ.MakesNoTable sv) := fun a => by
  induction a using Action.casesOn <;> dsimp only [MakesNoTable] <;> infer_instance

/-- The tables of the first pages, in the frames 0, 1 and 2. -/
def firstPages : State where
  mem := fun ppn idx => if ppn < 2 ∧ idx = 0 then ⟨ppn + 1, flagV⟩ else .empty
  allocator := ⟨3, 8, 44, [], by decide, by decide, nofun, nodup_nil⟩
  satp := some 0

theorem firstPages_isTable (h : IsTable .sv39 firstPages.mem 0 level ppn) : ppn = level := by
  induction h with
  | root => rfl
  | link _ _ hvalid ih =>
    subst ih
    unfold firstPages at hvalid ⊢
    dsimp only at hvalid ⊢
    split at hvalid
    · next hlink => rw [if_pos hlink]
    · cases hvalid.symm.trans isValid_empty

theorem tables_owned_iff_firstPages : ∃ σ, run (step .sv39) firstPages
        [.map 0x1000 0x80000000 ⟨true, false⟩, .map 0x2000 0x80001000 ⟨false, true⟩,
          .unmap 0x1000] = some σ ∧
      Always (step .sv39) (TablesOwned .sv39) firstPages
        [.map 0x1000 0x80000000 ⟨true, false⟩, .map 0x2000 0x80001000 ⟨false, true⟩,
          .unmap 0x1000] := by
  have howned : firstPages.TablesOwned .sv39 := by
    intro root hroot level ppn htable hfree
    cases hroot
    have hlevel := htable.lt_levels
    obtain rfl := firstPages_isTable htable
    exact hfree.elim nofun fun hle => absurd hlevel (Nat.not_lt.mpr hle)
  have hseparate : firstPages.Separate .sv39 := by
    intro root hroot level ppn htable hlast
    cases hroot
    exact (firstPages_isTable htable).symm.trans (firstPages_isTable hlast)
  have hrun : (run (guarded (step .sv39) (MakesNoTable .sv39)) firstPages
      [.map 0x1000 0x80000000 ⟨true, false⟩, .map 0x2000 0x80001000 ⟨false, true⟩,
        .unmap 0x1000]).isSome = true := by decide
  obtain ⟨σ, hσ⟩ := isSome_iff_exists.mp hrun
  obtain ⟨hmeets, hrun⟩ := Meets.of_run hσ
  exact ⟨σ, hrun, (tables_owned_iff howned hseparate hrun).mpr hmeets⟩

/-- A root table without entries, in frame 0. -/
def emptyTable : State where
  mem := fun _ _ => .empty
  allocator := ⟨1, 8, 44, [], by decide, by decide, nofun, nodup_nil⟩
  satp := some 0

theorem emptyTable_isTable (h : IsTable .sv39 emptyTable.mem 0 level ppn) :
    level = 0 ∧ ppn = 0 := by
  cases h with
  | root => exact ⟨rfl, rfl⟩
  | link _ _ hvalid => cases hvalid.symm.trans isValid_empty

/-- The state after one page was mapped in the empty table. -/
def onePage : State := (emptyTable.map .sv39 0x1000 0x80000000 ⟨true, false⟩).1

theorem onePage_isTable : IsTable .sv39 onePage.mem 0 2 2 := by
  have hentry₀ : onePage.mem 0 0 = ⟨1, flagV⟩ := by decide
  have hentry₁ : onePage.mem 1 0 = ⟨2, flagV⟩ := by decide
  have htable₁ : IsTable .sv39 onePage.mem 0 1 (onePage.mem 0 0).ppn :=
    .link .root (by decide) (by rw [hentry₀]; exact isValid_flagV 1)
  have htable₂ : IsTable .sv39 onePage.mem 0 2 (onePage.mem 1 0).ppn :=
    .link htable₁ (by decide) (by rw [hentry₁]; exact isValid_flagV 2)
  rwa [hentry₁] at htable₂

/-- **A table that is handed out again**: mapping one page in an empty table makes the tables 1 and
2. Both are linked and recycled after the call, and the next frame that the allocator hands out is
the table of the last level. -/
theorem table_recycled : emptyTable.TablesOwned .sv39 ∧ emptyTable.Separate .sv39 ∧
    ∃ σ, run (step .sv39) emptyTable [.map 0x1000 0x80000000 ⟨true, false⟩] = some σ ∧
      IsTable .sv39 σ.mem 0 2 2 ∧ σ.allocator.recycled = [2, 1] ∧
      (∃ a, σ.allocator.alloc = some (2, a)) ∧ ¬σ.TablesOwned .sv39 := by
  have hrecycled : onePage.allocator.recycled = [2, 1] := by decide
  refine ⟨?_, ?_, onePage, rfl, onePage_isTable, hrecycled, ⟨_, rfl⟩, ?_⟩
  · intro root hroot level ppn htable hfree
    cases hroot
    obtain ⟨-, rfl⟩ := emptyTable_isTable htable
    exact hfree.elim nofun fun hle => absurd hle (by decide)
  · intro root hroot level ppn _ hlast
    cases hroot
    exact absurd (emptyTable_isTable hlast).1 (by decide)
  · intro howned
    refine howned 0 rfl 2 2 onePage_isTable (.inl ?_)
    exact mem_cons_self

end State

end RvPaging

end Awkernel
