import Awkernel.Paging.RvTables
import Mathlib.Data.List.Perm.Subperm

/-!
# The RISC-V frame allocator

`PageAllocator` of `awkernel_lib/src/arch/rv_common/frame_allocator.rs` over a range `[l, r)`, under
any sequence of `alloc`, `alloc_more` and `dealloc` of frames that are held. One permutation is the
invariant: the frames that are held and those on the recycle list are together the frames from `l`
to `current`, each of them once (`Inv.perm`).

What `alloc` and `alloc_more` return is cut to `PPN_WIDTH` bits. A frame behind `2 ^ PPN_WIDTH`
would be returned as another one, so the range ends there.

`alloc_more` compares with `>=`. So it never takes the last frame of the range, and fails where
exactly the frames asked for are left (`allocMore_refuses_last`).
-/

namespace Awkernel.RvPaging

open TransitionSystem List

namespace PageAllocator

/-- `PageAllocator::new` and `init`. -/
def ofRange {w l r : Nat} (h : l ≤ r) (hr : r ≤ 2 ^ w) : PageAllocator :=
  ⟨l, r, w, [], h, hr, nofun, nodup_nil⟩

/-- `PageAllocator::alloc_more`. The outer `none` is the overflow of `current + pages`. -/
def allocMore (a : PageAllocator) (pages : Nat) : Option (Option (List Nat) × PageAllocator) :=
  if 2 ^ 64 ≤ a.current + pages then none
  else if h : a.current + pages ≥ a.end_ then some (none, a)
  else some (some ((range' 1 pages).map (physPageNum a.ppnWidth <| a.current + pages - ·)), { a with
    current := a.current + pages
    le_end := Nat.le_of_not_le h
    recycled_lt := fun ppn hmem => Nat.lt_add_right _ (a.recycled_lt ppn hmem) })

/-- The frames of `alloc_more` are those behind `current`, the last one first. -/
theorem map_physPageNum_range' (a : PageAllocator) {pages : Nat} (h : a.current + pages < a.end_) :
    (range' 1 pages).map (physPageNum a.ppnWidth <| a.current + pages - ·) =
      (range' a.current pages).reverse := by
  rw [reverse_range', range'_eq_map_range, map_map]
  refine map_congr_left fun i _ => ?_
  rw [Function.comp_apply, a.physPageNum_of_lt_end (by omega)]
  omega

end PageAllocator

/-- The allocator, the frames that are held, and all that were ever handed out. -/
structure Frames where
  allocator : PageAllocator
  held : List Nat
  given : List Nat

namespace Frames

inductive Call
  | alloc
  | allocMore (pages : Nat)
  | dealloc (ppn : Nat)

def step (σ : Frames) : Call → Option Frames
  | .alloc =>
    some (σ.allocator.alloc.elim σ fun (ppn, a) => ⟨a, ppn :: σ.held, ppn :: σ.given⟩)
  | .allocMore pages =>
    (σ.allocator.allocMore pages).map fun (frames, a) =>
      ⟨a, frames.getD [] ++ σ.held, frames.getD [] ++ σ.given⟩
  | .dealloc ppn => (σ.allocator.dealloc ppn).map fun a => ⟨a, σ.held.erase ppn, σ.given⟩

/-- Only frames that are held are given back. -/
def GivesBackHeld (σ : Frames) : Call → Prop
  | .dealloc ppn => ppn ∈ σ.held
  | _ => True

structure Inv (l r : Nat) (σ : Frames) : Prop where
  end_eq : σ.allocator.end_ = r
  le : l ≤ σ.allocator.current
  perm : (σ.held ++ σ.allocator.recycled).Perm (range' l (σ.allocator.current - l))
  given : ∀ f, f ∈ σ.given ↔ l ≤ f ∧ f < σ.allocator.current

variable {l r : Nat} {σ σ' : Frames}

/-- The next `k` frames of the range are handed out. -/
theorem Inv.bump (h : Inv l r σ) {frames : List Nat} {a : PageAllocator} {k : Nat}
    (hend : a.end_ = σ.allocator.end_) (hcur : a.current = σ.allocator.current + k)
    (hrec : a.recycled = σ.allocator.recycled)
    (hframes : frames.Perm (range' σ.allocator.current k)) :
    Inv l r ⟨a, frames ++ σ.held, frames ++ σ.given⟩ := by
  have hle := h.le
  have hsplit : range' l (a.current - l) =
      range' l (σ.allocator.current - l) ++ range' σ.allocator.current k := by
    rw [hcur, Nat.sub_add_comm hle, ← range'_append_1, Nat.add_sub_cancel' hle]
  refine ⟨hend.trans h.end_eq, hle.trans (hcur ▸ Nat.le_add_right ..), ?_, fun f => ?_⟩
  · rw [hrec, hsplit, append_assoc]
    exact (hframes.append h.perm).trans perm_append_comm
  · rw [mem_append, hframes.mem_iff, h.given, mem_range'_1, hcur]
    omega

theorem Inv.step (h : Inv l r σ) {c : Call} (hok : σ.GivesBackHeld c) (hs : σ.step c = some σ') :
    Inv l r σ' := by
  cases c with
  | alloc =>
    cases hs
    unfold PageAllocator.alloc
    split
    · next ppn recycled hrec =>
      have hlt := σ.allocator.recycled_lt ppn (by rw [hrec]; exact mem_cons_self)
      rw [σ.allocator.physPageNum_of_lt_end (hlt.trans_le σ.allocator.le_end)]
      have hperm : (ppn :: σ.held ++ recycled).Perm (σ.held ++ σ.allocator.recycled) := by
        rw [hrec]
        exact perm_middle.symm
      refine ⟨h.end_eq, h.le, hperm.trans h.perm, fun f => ?_⟩
      have hgiven := h.given f
      have hmem := (hperm.trans h.perm).subset mem_cons_self
      rw [mem_range'_1] at hmem
      change f ∈ ppn :: σ.given ↔ l ≤ f ∧ f < σ.allocator.current
      rw [mem_cons, hgiven]
      omega
    · split
      · exact h
      rename_i hend
      rw [σ.allocator.physPageNum_of_lt_end (Nat.lt_of_le_of_ne σ.allocator.le_end hend)]
      have hnext : [σ.allocator.current].Perm (range' σ.allocator.current 1) := .refl _
      exact h.bump (by rfl) (by rfl) (by rfl) hnext
  | allocMore pages =>
    obtain ⟨⟨frames, a⟩, ha, rfl⟩ := Option.map_eq_some_iff.mp hs
    obtain ⟨-, ha⟩ := Option.ite_none_left_eq_some.mp ha
    split at ha
    · cases ha
      exact h
    · next hlt =>
      rw [σ.allocator.map_physPageNum_range' (Nat.lt_of_not_le hlt)] at ha
      cases ha
      exact h.bump rfl rfl rfl (reverse_perm _)
  | dealloc ppn =>
    obtain ⟨a, ha, rfl⟩ := Option.map_eq_some_iff.mp hs
    unfold PageAllocator.dealloc at ha
    split at ha
    · cases ha
    cases ha
    refine ⟨h.end_eq, h.le, ?_, h.given⟩
    exact perm_middle.trans (((perm_cons_erase hok).symm.append_right _).trans h.perm)

/-- **The frame allocator.** In every history in which only held frames are given back: no frame
is held twice and all are in the range, giving a held frame back does not panic, `alloc` fails
only if all frames are held, and `alloc_more` returns that many distinct frames if more than that
were never handed out. -/
theorem frames_exclusive {w : Nat} (hw : w < 64) (hle : l ≤ r) (hr : r ≤ 2 ^ w)
    (h : Reaches step GivesBackHeld ⟨.ofRange hle hr, [], []⟩ σ) :
    (σ.held.Nodup ∧ ∀ f ∈ σ.held, l ≤ f ∧ f < r) ∧
    (∀ f ∈ σ.held, (σ.allocator.dealloc f).isSome) ∧
    (σ.allocator.alloc = none → ∀ f, l ≤ f → f < r → f ∈ σ.held) ∧
    ∀ pages (fs : List Nat), fs.Nodup → (∀ f ∈ fs, (l ≤ f ∧ f < r) ∧ f ∉ σ.given) →
      pages < fs.length → ∃ frames a, σ.allocator.allocMore pages = some (some frames, a) ∧
        frames.length = pages ∧ frames.Nodup := by
  have hinv : Inv l r σ := h.invariant (I := Inv l r)
    ⟨rfl, le_rfl, by simp [PageAllocator.ofRange], fun f => by simp [PageAllocator.ofRange]⟩
    fun _ _ _ hI hok hs => hI.step hok hs
  obtain ⟨hend, hcur, hperm, hgiven⟩ := hinv
  have hcurEnd := σ.allocator.le_end
  obtain ⟨hnodup, -, hdisjoint⟩ := nodup_append.mp (hperm.nodup_iff.mpr nodup_range')
  have hmem : ∀ f, f ∈ σ.held ∨ f ∈ σ.allocator.recycled ↔ l ≤ f ∧ f < σ.allocator.current := by
    intro f
    rw [← mem_append, hperm.mem_iff, mem_range'_1]
    omega
  refine ⟨⟨hnodup, fun f hf => ?_⟩, fun f hf => ?_, fun hnone f hlf hfr => ?_, ?_⟩
  · have := (hmem f).mp (.inl hf)
    omega
  · unfold PageAllocator.dealloc
    have := (hmem f).mp (.inl hf)
    rw [dif_neg]
    · rfl
    rintro (hge | hrec)
    · omega
    · exact hdisjoint f hf f hrec rfl
  · unfold PageAllocator.alloc at hnone
    split at hnone
    · cases hnone
    rename_i hrec
    split at hnone
    · next hfull =>
      refine ((hmem f).mpr ⟨hlf, by omega⟩).resolve_right ?_
      rw [hrec]
      exact not_mem_nil
    · cases hnone
  · intro pages fs hfs hnew hpages
    -- the frames that were never handed out are behind `current`
    have hsub : fs ⊆ range' σ.allocator.current (r - σ.allocator.current) := by
      intro f hf
      have := hnew f hf
      rw [hgiven] at this
      rw [mem_range'_1]
      omega
    have hlen := (subperm_of_subset hfs hsub).length_le
    rw [length_range'] at hlen
    have hword : 2 ^ w < 2 ^ 64 := Nat.pow_lt_pow_right (by decide) hw
    unfold PageAllocator.allocMore
    rw [if_neg (by omega), dif_neg (by omega),
      σ.allocator.map_physPageNum_range' (by omega)]
    exact ⟨_, _, rfl, by simp, (reverse_perm _).nodup_iff.mpr nodup_range'⟩

instance (σ : Frames) : DecidablePred σ.GivesBackHeld := fun c => by
  induction c using Call.casesOn <;> dsimp only [GivesBackHeld] <;> infer_instance

/-- Of the frames 10 to 17 one is allocated and then three, and one of these is given back: three
are held, and three of the four frames that were never handed out can be had at once. -/
theorem frames_exclusive_recycled : ∃ σ, Reaches step GivesBackHeld
      ⟨.ofRange (w := 44) (l := 10) (r := 18) (by decide) (by decide), [], []⟩ σ ∧
    σ.held = [13, 11, 10] ∧ σ.allocator.recycled = [12] ∧ (∀ f ∈ σ.held, 10 ≤ f ∧ f < 18) ∧
    ∃ frames a, σ.allocator.allocMore 3 = some (some frames, a) ∧
      frames.length = 3 ∧ frames.Nodup := by
  refine Reaches.exists_of_run_imp [.alloc, .allocMore 3, .dealloc 12] (fun σ =>
    σ.held = [13, 11, 10] ∧ σ.allocator.recycled = [12] ∧ σ.given = [13, 12, 11, 10])
    (by decide) ?_
  rintro σ h ⟨hheld, hrecycled, hgiven⟩
  obtain ⟨⟨-, hrange⟩, -, -, hmore⟩ := frames_exclusive (by decide) _ _ h
  refine ⟨hheld, hrecycled, hrange, hmore 3 [14, 15, 16, 17] (by decide) ?_ (by decide)⟩
  rw [hgiven]
  decide

/-- **The last frame is refused**: one frame was never handed out, and `alloc_more(1)` fails. -/
theorem allocMore_refuses_last : ∃ a,
    (PageAllocator.ofRange (w := 44) (Nat.zero_le 1) (by decide)).allocMore 1 = some (none, a) :=
  ⟨_, rfl⟩

end Frames

end Awkernel.RvPaging
