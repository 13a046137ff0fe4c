import Awkernel.Priority

/-!
# The layout of the wait-free heap

`WfAllocBackend::init` of `awkernel_lib/src/heap.rs` takes the metadata region and the span region
from the heap, with `align_up` of `heap_util.rs`. Of the crate `wf_alloc` only the sizes and
alignments that it reports are modelled (`WfAlloc`).
-/

namespace Awkernel.Heap

/-- What `wf_alloc` reports; the alignments are powers of two. -/
structure WfAlloc where
  metadataAlignLog : Fin 64
  metadataRegionSize : Nat → Option Nat
  spanAlignLog : Fin 64
  spanSize : Nat

def WfAlloc.metadataRegionAlign (w : WfAlloc) : Nat := 2 ^ w.metadataAlignLog.val

/-- `SPAN_ALIGN`. -/
def WfAlloc.spanAlign (w : WfAlloc) : Nat := 2 ^ w.spanAlignLog.val

/-- `NUM_MAX_CPU`. -/
def numMaxCpu : Nat := 512

/-- `align_up`; the mask is `!(align - 1)`. -/
def alignUp (value align : Nat) : Option Nat :=
  (checkedAdd value (align - 1)).map (· &&& (2 ^ 64 - (align - 1 + 1)))

/-- The regions that the allocator is given. -/
structure Layout where
  metadataStart : Nat
  requiredMetadataLen : Nat
  regionStart : Nat
  regionLen : Nat
  deriving DecidableEq

/-- The checks of `WfAllocBackend::init`; `none` if a subtraction underflows. -/
def init (w : WfAlloc) (heapStart heapSize activeThreads : Nat) :
    Option (Except String Layout) := do
  let some metadataStart := alignUp heapStart w.metadataRegionAlign
    | return .error "metadata region alignment overflowed"
  let some metadataOffset := checkedSub metadataStart heapStart
    | return .error "metadata start is below heap start"
  if metadataOffset ≥ heapSize then
    return .error "heap is too small to align the metadata region"
  if activeThreads = 0 ∨ activeThreads > numMaxCpu then
    return .error "active_threads is zero or exceeds NUM_MAX_CPU"
  let metadataLen ← checkedSub heapSize metadataOffset
  let some requiredMetadataLen := w.metadataRegionSize activeThreads
    | return .error "metadata region size overflowed"
  if requiredMetadataLen > metadataLen then
    return .error "heap is too small for the metadata region"
  let some afterMetadata := checkedAdd metadataStart requiredMetadataLen
    | return .error "metadata region end overflowed"
  let some regionStart := alignUp afterMetadata w.spanAlign
    | return .error "span region alignment overflowed"
  let some regionOffset := checkedSub regionStart heapStart
    | return .error "span region start is below heap start"
  if regionOffset ≥ heapSize then
    return .error "heap is too small for the span region"
  let regionLen ← checkedSub heapSize regionOffset
  if regionLen < w.spanSize then
    return .error "heap is too small for a single span"
  return .ok ⟨metadataStart, requiredMetadataLen, regionStart, regionLen⟩

theorem and_mask {x k : Nat} (hx : x < 2 ^ 64) (hk : k < 64) :
    x &&& (2 ^ 64 - (2 ^ k - 1 + 1)) = x / 2 ^ k * 2 ^ k := by
  have hpow : 2 ^ k - 1 < 2 ^ 64 :=
    (Nat.sub_le _ _).trans_lt (Nat.pow_lt_pow_right (by decide) hk)
  refine Nat.eq_of_testBit_eq fun i => ?_
  rw [Nat.testBit_and, Nat.testBit_two_pow_sub_succ hpow, Nat.testBit_two_pow_sub_one,
    Nat.testBit_mul_two_pow, Nat.testBit_div_two_pow]
  by_cases hik : k ≤ i
  · have hbit := Nat.testBit_mod_two_pow x 64 i
    rw [Nat.mod_eq_of_lt hx] at hbit
    rw [Nat.sub_add_cancel hik, hbit]
    simp +contextual [hik]
  · simp [hik, Nat.lt_of_not_le hik]

/-- `align_up` gives a multiple of the alignment that is not below the value. -/
theorem alignUp_spec {value k aligned : Nat} (hk : k < 64)
    (h : alignUp value (2 ^ k) = some aligned) : value ≤ aligned ∧ 2 ^ k ∣ aligned := by
  obtain ⟨sum, hsum, rfl⟩ := Option.map_eq_some_iff.mp h
  obtain ⟨hlt, ⟨⟩⟩ := Option.ite_none_right_eq_some.mp hsum
  have hmod := Nat.mod_lt (value + (2 ^ k - 1)) (Nat.two_pow_pos k)
  have hdiv := Nat.div_add_mod' (value + (2 ^ k - 1)) (2 ^ k)
  rw [and_mask hlt hk]
  exact ⟨by omega, Nat.dvd_mul_left ..⟩

structure Layout.Fits (w : WfAlloc) (heapStart heapSize : Nat) (l : Layout) : Prop where
  metadata : heapStart ≤ l.metadataStart ∧
    l.metadataStart + l.requiredMetadataLen ≤ heapStart + heapSize
  region : heapStart ≤ l.regionStart ∧ l.regionStart + l.regionLen ≤ heapStart + heapSize
  disjoint : l.metadataStart + l.requiredMetadataLen ≤ l.regionStart
  aligned : w.metadataRegionAlign ∣ l.metadataStart ∧ w.spanAlign ∣ l.regionStart
  span : w.spanSize ≤ l.regionLen

/-- **The layout of the heap.** No subtraction underflows, and the layout fits. -/
theorem init_fits (w : WfAlloc) (heapStart heapSize activeThreads : Nat) :
    ∃ r, init w heapStart heapSize activeThreads = some r ∧
      ∀ l, r = .ok l → l.Fits w heapStart heapSize := by
  have hsub : ∀ {a b : Nat}, ¬ b ≥ a → checkedSub a b = some (a - b) := fun h =>
    if_pos (Nat.le_of_not_le h)
  unfold init
  split
  case h_2 => exact ⟨_, rfl, nofun⟩
  next metadataStart hmetadata =>
  split
  case h_2 => exact ⟨_, rfl, nofun⟩
  next metadataOffset hoffset =>
  split
  · exact ⟨_, rfl, nofun⟩
  next hfits =>
  split
  · exact ⟨_, rfl, nofun⟩
  rw [hsub hfits, Option.bind_eq_bind, Option.bind_some]
  split
  case h_2 => exact ⟨_, rfl, nofun⟩
  next requiredMetadataLen _ =>
  split
  · exact ⟨_, rfl, nofun⟩
  next hrequired =>
  split
  case h_2 => exact ⟨_, rfl, nofun⟩
  next afterMetadata hafter =>
  split
  case h_2 => exact ⟨_, rfl, nofun⟩
  next regionStart hregion =>
  split
  case h_2 => exact ⟨_, rfl, nofun⟩
  next regionOffset hregionOffset =>
  split
  · exact ⟨_, rfl, nofun⟩
  next hfits' =>
  rw [hsub hfits', Option.bind_some]
  split
  · exact ⟨_, rfl, nofun⟩
  next hspan =>
  obtain ⟨hge, hdvd⟩ := alignUp_spec w.metadataAlignLog.isLt hmetadata
  obtain ⟨hge', hdvd'⟩ := alignUp_spec w.spanAlignLog.isLt hregion
  obtain ⟨-, ⟨⟩⟩ := Option.ite_none_right_eq_some.mp hoffset
  obtain ⟨-, ⟨⟩⟩ := Option.ite_none_right_eq_some.mp hafter
  obtain ⟨-, ⟨⟩⟩ := Option.ite_none_right_eq_some.mp hregionOffset
  refine ⟨_, rfl, ?_⟩
  rintro _ ⟨⟩
  refine ⟨⟨hge, ?_⟩, ⟨?_, ?_⟩, hge', ⟨hdvd, hdvd'⟩, Nat.le_of_not_lt hspan⟩
  all_goals
    dsimp only
    omega

def smallSpans : WfAlloc := ⟨3, fun threads => some (8 * threads), 4, 16⟩

theorem init_fits_smallSpans : ∃ l, init smallSpans 1 100 2 = some (.ok l) ∧
    l.Fits smallSpans 1 100 := by
  obtain ⟨r, hr, hfits⟩ := init_fits smallSpans 1 100 2
  obtain rfl := Option.some.inj hr
  exact ⟨_, rfl, hfits _ rfl⟩

end Awkernel.Heap
